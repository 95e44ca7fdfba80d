import Mathlib.Tactic.IntervalCases
import DayWeave.Time

/-!
The proleptic Gregorian calendar.

A date is a day number; here are its year, month and day of the month, the way back
(`Date.ofCalendar_eq_some`, `Date.day_eq`), and the arithmetic of months
(`Date.day_eq_monthStart_add`, `monthStart_succ_bounds`).
-/

namespace DayWeave

/-! ### Years and months -/

/-- Whether a year has 366 days. -/
def isLeapYear (year : Int) : Bool := year % 4 = 0 && (year % 100 ≠ 0 || year % 400 = 0)

/-- The days from 1970-01-01 to the first of January of a year. -/
def daysBeforeYear (year : Int) : Int :=
  365 * (year - 1970) + (year - 1) / 4 - (year - 1) / 100 + (year - 1) / 400 - 477

/-- The days of a year before the month with the given number, counted from zero. -/
def daysBeforeMonth (leap : Bool) : ℕ → Int
  | 0 => 0
  | 1 => 31
  | 2 => if leap then 60 else 59
  | 3 => if leap then 91 else 90
  | 4 => if leap then 121 else 120
  | 5 => if leap then 152 else 151
  | 6 => if leap then 182 else 181
  | 7 => if leap then 213 else 212
  | 8 => if leap then 244 else 243
  | 9 => if leap then 274 else 273
  | 10 => if leap then 305 else 304
  | 11 => if leap then 335 else 334
  | _ => if leap then 366 else 365

/-- The number of days of a month, given by its number from one to twelve. -/
def monthLength (year : Int) (month : ℕ) : ℕ :=
  match month with
  | 2 => if isLeapYear year then 29 else 28
  | 4 | 6 | 9 | 11 => 30
  | _ => 31

/-- The first day of a month, the months being numbered from January of the year
zero on. -/
def monthStart (index : Int) : Int :=
  daysBeforeYear (index / 12) + daysBeforeMonth (isLeapYear (index / 12)) (index % 12).toNat

/-! ### The parts of a date -/

namespace Date

variable (d : Date) (startsOn : DayOfWeek)

/-- The year of a date: the year that 146097 days in 400 years give, corrected by
one where the leap days before it fall unevenly. -/
def year : Int :=
  let guess := 1970 + d.day * 400 / 146097
  if d.day < daysBeforeYear guess then guess - 1
  else if daysBeforeYear (guess + 1) ≤ d.day then guess + 1
  else guess

/-- The day of the year, counted from zero. -/
def ordinal : Int := d.day - daysBeforeYear d.year

/-- The number of the month, counted from zero. -/
def month0 : ℕ :=
  ((List.range 11).find? fun m => d.ordinal < daysBeforeMonth (isLeapYear d.year) (m + 1)).getD 11

/-- The number of the month, from one to twelve. -/
def month : ℕ := d.month0 + 1

def dayOfMonth : ℕ :=
  (d.ordinal - daysBeforeMonth (isLeapYear d.year) d.month0).toNat + 1

/-- The date with the given year, month and day, if there is one. -/
def ofCalendar (year : Int) (month day : ℕ) : Option Date :=
  if -9999 ≤ year ∧ year ≤ 9999 ∧ 1 ≤ month ∧ month ≤ 12 ∧ 1 ≤ day ∧
  day ≤ monthLength year month then
    ofDay (daysBeforeYear year + daysBeforeMonth (isLeapYear year) (month - 1) + (day - 1))
  else none

def toJulianDay : Int := d.day + 2440588

/-- The date with the given Julian day number, if it is representable. -/
def ofJulianDay (n : Int) : Option Date := ofDay (n - 2440588)

/-- The number of the month, counted from January of the year zero. -/
def monthIndex : Int := d.year * 12 + d.month - 1

/-- The Julian day of the start of the week of a date. -/
def weekKey : Int :=
  d.toJulianDay - ((7 + d.weekday.numberDaysFromMonday - startsOn.numberDaysFromMonday) % 7 : ℕ)

end Date

/-! ### Texts -/

/-- The decimal digits of `n`, with leading zeros up to the width. -/
def padDecimal (width n : ℕ) : String :=
  let digits := toString n
  String.ofList (List.replicate (width - digits.length) '0') ++ digits

/-- A year as text: four digits at least, after the sign of a negative one. -/
def Date.yearText (year : Int) : String :=
  if year < 0 then "-" ++ padDecimal 4 year.natAbs else padDecimal 4 year.natAbs

/-- The text of a date, as in 2026-09-01. -/
def Date.toText (d : Date) : String :=
  Date.yearText d.year ++ "-" ++ padDecimal 2 d.month ++ "-" ++ padDecimal 2 d.dayOfMonth

/-! ### Where a date lies -/

lemma daysBeforeYear_succ (year : Int) :
    daysBeforeYear (year + 1) = daysBeforeYear year + if isLeapYear year then 366 else 365 := by
  unfold daysBeforeYear isLeapYear
  simp only [ne_eq, Bool.and_eq_true, Bool.or_eq_true, decide_eq_true_eq]
  split <;> omega

namespace Date

lemma year_bounds (d : Date) :
    daysBeforeYear d.year ≤ d.day ∧ d.day < daysBeforeYear (d.year + 1) := by
  have hguess : daysBeforeYear (1970 + d.day * 400 / 146097 - 1) ≤ d.day ∧
      d.day < daysBeforeYear (1970 + d.day * 400 / 146097 + 2) := by
    unfold daysBeforeYear
    omega
  simp only [year]
  split_ifs with hbef haft
  · rw [Int.sub_add_cancel]
    exact ⟨hguess.1, hbef⟩
  · exact ⟨haft, Int.add_assoc _ 1 1 ▸ hguess.2⟩
  · exact ⟨Int.not_lt.mp hbef, Int.not_le.mp haft⟩

lemma ordinal_bounds (d : Date) :
    0 ≤ d.ordinal ∧ d.ordinal < if isLeapYear d.year then 366 else 365 := by
  have h := d.year_bounds
  rw [daysBeforeYear_succ] at h
  unfold ordinal
  omega

lemma month0_bounds (d : Date) :
    d.month0 ≤ 11 ∧ daysBeforeMonth (isLeapYear d.year) d.month0 ≤ d.ordinal ∧
      d.ordinal < daysBeforeMonth (isLeapYear d.year) (d.month0 + 1) := by
  obtain ⟨hlo, hhi⟩ := d.ordinal_bounds
  unfold month0
  cases hf : (List.range 11).find?
      fun m => d.ordinal < daysBeforeMonth (isLeapYear d.year) (m + 1) with
  | none =>
    rw [List.find?_eq_none] at hf
    have h10 := hf 10 (by decide)
    rw [decide_eq_true_eq, Int.not_lt] at h10
    exact ⟨le_rfl, h10, hhi⟩
  | some m =>
    obtain ⟨hm, hmem, hbef⟩ := List.find?_range_eq_some.mp hf
    rw [decide_eq_true_eq] at hm
    rw [List.mem_range] at hmem
    refine ⟨by simpa using by omega, ?_, hm⟩
    cases m with
    | zero => exact hlo
    | succ k => simpa using hbef k (Nat.lt_succ_self k)

end Date

/-! ### Weeks -/

/-- The start of the week of a date, as a number of days before it. -/
lemma Date.weekKey_eq (d : Date) (startsOn : DayOfWeek) : d.weekKey startsOn =
      d.day + 2440588 - (d.day + 10 - startsOn.numberDaysFromMonday) % 7 := by
  have hw := DayOfWeek.numberDaysFromMonday_ofDay d.day
  have hlt := startsOn.numberDaysFromMonday_lt
  unfold weekKey toJulianDay weekday
  generalize (DayOfWeek.ofDay d.day).numberDaysFromMonday = w at hw ⊢
  omega

/-! ### From the calendar to days and back -/

lemma daysBeforeYear_mono {a b : Int} (h : a ≤ b) : daysBeforeYear a ≤ daysBeforeYear b := by
  unfold daysBeforeYear
  omega

lemma daysBeforeMonth_succ (year : Int) {m : ℕ} (h : m < 12) :
    daysBeforeMonth (isLeapYear year) (m + 1) =
      daysBeforeMonth (isLeapYear year) m + monthLength year (m + 1) := by
  unfold monthLength
  generalize isLeapYear year = leap
  interval_cases m <;> cases leap <;> rfl

lemma daysBeforeMonth_mono (leap : Bool) {a b : ℕ} (h : a ≤ b) (hb : b ≤ 12) :
    daysBeforeMonth leap a ≤ daysBeforeMonth leap b := by
  have hall : ∀ leap, ∀ b : Fin 13, ∀ a : Fin 13, a.val ≤ b.val →
      daysBeforeMonth leap a.val ≤ daysBeforeMonth leap b.val := by decide
  exact hall leap ⟨b, by omega⟩ ⟨a, by omega⟩ h

lemma monthLength_bounds (year : Int) (month : ℕ) :
    28 ≤ monthLength year month ∧ monthLength year month ≤ 31 := by
  unfold monthLength
  split <;> try split
  all_goals omega

namespace Date

variable {d : Date} {year : Int} {month day : ℕ}

lemma year_eq (h : daysBeforeYear year ≤ d.day)
    (h' : d.day < daysBeforeYear (year + 1)) : d.year = year := by
  obtain ⟨hlo, hhi⟩ := d.year_bounds
  rcases Int.lt_trichotomy d.year year with hlt | heq | hgt
  · have := daysBeforeYear_mono hlt
    omega
  · exact heq
  · have := daysBeforeYear_mono hgt
    omega

lemma month0_eq {m : ℕ} (hm : m < 12) (h : daysBeforeMonth (isLeapYear d.year) m ≤ d.ordinal)
    (h' : d.ordinal < daysBeforeMonth (isLeapYear d.year) (m + 1)) : d.month0 = m := by
  obtain ⟨hle, hlo, hhi⟩ := d.month0_bounds
  rcases Nat.lt_trichotomy d.month0 m with hlt | heq | hgt
  · have := daysBeforeMonth_mono (isLeapYear d.year) (a := d.month0 + 1) hlt (by omega)
    omega
  · exact heq
  · have := daysBeforeMonth_mono (isLeapYear d.year) (a := m + 1) hgt (by omega)
    omega

lemma ofCalendar_eq_some (h : ofCalendar year month day = some d) :
    d.year = year ∧ d.month = month ∧ d.dayOfMonth = day ∧
      d.day = daysBeforeYear year + daysBeforeMonth (isLeapYear year) (month - 1) + (day - 1) := by
  obtain ⟨⟨-, -, hmon, hmonth', hday, hday'⟩, h⟩ := Option.ite_none_right_eq_some.mp h
  have heq := ofDay_eq_some h
  obtain ⟨m, rfl⟩ : ∃ m, month = m + 1 := ⟨month - 1, by omega⟩
  have hm : m < 12 := by omega
  rw [Nat.add_sub_cancel] at heq ⊢
  have hsucc := daysBeforeMonth_succ year hm
  have hlo : 0 ≤ daysBeforeMonth (isLeapYear year) m :=
    daysBeforeMonth_mono (isLeapYear year) (a := 0) (by omega) (by omega)
  have hhi : daysBeforeMonth (isLeapYear year) (m + 1) ≤ if isLeapYear year then 366 else 365 :=
    daysBeforeMonth_mono (isLeapYear year) (by omega) le_rfl
  have hyear : d.year = year := by
    refine year_eq (by omega) ?_
    rw [daysBeforeYear_succ]
    omega
  have hord : d.ordinal = daysBeforeMonth (isLeapYear year) m + (day - 1) := by
    rw [ordinal, hyear]
    omega
  have hmonth0 : d.month0 = m := month0_eq hm (by rw [hyear]; omega) (by rw [hyear]; omega)
  refine ⟨hyear, by rw [Date.month, hmonth0], ?_, heq⟩
  rw [dayOfMonth, hmonth0, hyear, hord]
  omega

lemma year_range (d : Date) : -9999 ≤ d.year ∧ d.year ≤ 9999 := by
  obtain ⟨hlow, hhigh⟩ := d.year_bounds
  have hmin := d.min_le
  have hmax := d.le_max
  constructor
  · by_contra hlt
    have hmono := daysBeforeYear_mono (show d.year + 1 ≤ -9999 by omega)
    have hfst : daysBeforeYear (-9999) = -4371587 := by decide
    omega
  · by_contra hgt
    have hmono := daysBeforeYear_mono (show 10000 ≤ d.year by omega)
    have hlast : daysBeforeYear 10000 = 2932897 := by decide
    omega

/-- All days of the representable years have a date. -/
lemma exists_ofCalendar (hyear : -9999 ≤ year ∧ year ≤ 9999) (hmon : 1 ≤ month ∧ month ≤ 12)
    (hday : 1 ≤ day ∧ day ≤ monthLength year month) : ∃ d, ofCalendar year month day = some d := by
  obtain ⟨m, rfl⟩ : ∃ m, month = m + 1 := ⟨month - 1, by omega⟩
  have hm : m < 12 := by omega
  have hsucc := daysBeforeMonth_succ year hm
  have hlow := daysBeforeMonth_mono (isLeapYear year) (a := 0) (b := m) (by omega) (by omega)
  have hhigh := daysBeforeMonth_mono (isLeapYear year) (a := m + 1) (by omega) le_rfl
  have hzero : daysBeforeMonth (isLeapYear year) 0 = 0 := rfl
  have hyearLength : daysBeforeMonth (isLeapYear year) 12 =
      if isLeapYear year then 366 else 365 := rfl
  have hnext := daysBeforeYear_succ year
  have hfst := daysBeforeYear_mono hyear.1
  have hlast := daysBeforeYear_mono (show year + 1 ≤ 10000 by omega)
  have hfirstDay : daysBeforeYear (-9999) = -4371587 := by decide
  have hlastDay : daysBeforeYear 10000 = 2932897 := by decide
  rw [ofCalendar, if_pos ⟨hyear.1, hyear.2, hmon.1, hmon.2, hday⟩, Nat.add_sub_cancel, ofDay,
    dif_pos (by omega)]
  exact ⟨_, rfl⟩

lemma day_eq (d : Date) : d.day =
    daysBeforeYear d.year + daysBeforeMonth (isLeapYear d.year) d.month0 + (d.dayOfMonth - 1) := by
  obtain ⟨-, hlo, -⟩ := d.month0_bounds
  unfold dayOfMonth
  have : d.ordinal = d.day - daysBeforeYear d.year := rfl
  omega

lemma dayOfMonth_bounds (d : Date) :
    1 ≤ d.dayOfMonth ∧ d.dayOfMonth ≤ monthLength d.year d.month := by
  obtain ⟨hle, hlo, hhi⟩ := d.month0_bounds
  have hsucc := daysBeforeMonth_succ d.year (m := d.month0) (by omega)
  unfold dayOfMonth month
  omega

/-- A date is found again from its year, month and day. -/
lemma ofCalendar_self (d : Date) : ofCalendar d.year d.month d.dayOfMonth = some d := by
  have hmon := d.month0_bounds.1
  obtain ⟨e, he⟩ := exists_ofCalendar d.year_range (by
    unfold month
    omega) d.dayOfMonth_bounds
  have hday := (ofCalendar_eq_some he).2.2.2
  rw [he]
  exact congrArg some (Date.ext (hday.trans d.day_eq.symm))

lemma day_eq_monthStart_add (d : Date) : d.day = monthStart d.monthIndex + (d.dayOfMonth - 1) := by
  obtain ⟨hle, -, -⟩ := d.month0_bounds
  have hyear : d.monthIndex / 12 = d.year := by
    unfold monthIndex month
    omega
  have hmon : (d.monthIndex % 12).toNat = d.month0 := by
    unfold monthIndex month
    omega
  rw [monthStart, hyear, hmon]
  exact d.day_eq

end Date

lemma monthStart_succ (index : Int) : monthStart (index + 1) =
      monthStart index + monthLength (index / 12) ((index % 12).toNat + 1) := by
  have hsucc := daysBeforeMonth_succ (index / 12) (m := (index % 12).toNat) (by omega)
  unfold monthStart
  by_cases hlast : index % 12 = 11
  · have hyear : (index + 1) / 12 = index / 12 + 1 := by omega
    have hmon : ((index + 1) % 12).toNat = 0 := by omega
    rw [hyear, hmon, daysBeforeYear_succ]
    rw [hlast] at hsucc ⊢
    have htwelve : daysBeforeMonth (isLeapYear (index / 12)) 12 =
        if isLeapYear (index / 12) then 366 else 365 := rfl
    have hzero : daysBeforeMonth (isLeapYear (index / 12 + 1)) 0 = 0 := rfl
    have hsucc : daysBeforeMonth (isLeapYear (index / 12)) 12 =
        daysBeforeMonth (isLeapYear (index / 12)) (11 : Int).toNat +
          monthLength (index / 12) ((11 : Int).toNat + 1) := hsucc
    omega
  · have hyear : (index + 1) / 12 = index / 12 := by omega
    have hmon : ((index + 1) % 12).toNat = (index % 12).toNat + 1 := by omega
    rw [hyear, hmon]
    omega

/-- A month has at least 28 days and at most 31. -/
lemma monthStart_succ_bounds (index : Int) : monthStart index + 28 ≤ monthStart (index + 1) ∧
      monthStart (index + 1) ≤ monthStart index + 31 := by
  have := monthLength_bounds (index / 12) ((index % 12).toNat + 1)
  rw [monthStart_succ]
  omega

lemma monthStart_mono {a b : Int} (h : a ≤ b) : monthStart a ≤ monthStart b := by
  obtain ⟨n, rfl⟩ := Int.le.dest h
  induction n with
  | zero => simp
  | succ n ih =>
    have := monthStart_succ_bounds (a + n)
    push_cast
    rw [← Int.add_assoc]
    omega

end DayWeave
