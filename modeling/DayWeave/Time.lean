import DayWeave.Lib.HalfOpen
import DayWeave.Lib.Order

/-!
Instants, durations and calendar days as the planner uses them.

A `Date` is a day of the proleptic Gregorian calendar between the years `-9999` and `9999`, kept as
its distance from 1970-01-01. An `OffsetDateTime` is an instant with the offset from UTC in which
it is written; its *local* date must be a `Date`. Values are compared by their instants alone, so
the order is a preorder: `later` and `earlier` decide which of two simultaneous values is kept.
-/

namespace DayWeave

/-- A signed length of time, in nanoseconds. -/
abbrev Duration := Int

namespace Duration

abbrev second : Int := 1000000000

abbrev minute : Int := 60000000000

abbrev day : Int := 86400000000000

variable (d : Duration) (n : Int)

/-- The number of whole seconds, rounded towards zero. -/
def wholeSeconds : Int := Int.tdiv d second

/-- The seconds of a length fit 64 bits if those of a longer one do. -/
lemma wholeSeconds_mem {d e : Int} (hd : 0 ≤ d) (hle : d ≤ e)
    (he : wholeSeconds e ≤ 9223372036854775807) :
    -9223372036854775808 ≤ wholeSeconds d ∧ wholeSeconds d ≤ 9223372036854775807 :=
  ⟨Int.le_trans (by decide) (Int.tdiv_nonneg hd (by decide)),
    (Int.tdiv_le_tdiv (by decide) hle).trans he⟩

/-- The number of whole minutes, rounded towards zero. -/
def wholeMinutes : Int := Int.tdiv d minute

lemma wholeMinutes_mul_le {d : Int} (h : 0 < wholeMinutes d) : wholeMinutes d * minute ≤ d := by
  have hd : 0 ≤ d := by
    by_contra hneg
    have hle : wholeMinutes d ≤ wholeMinutes 0 := Int.tdiv_le_tdiv (by decide) (by omega)
    have hzero : wholeMinutes 0 = 0 := rfl
    omega
  rw [wholeMinutes, Int.tdiv_eq_ediv_of_nonneg hd]
  exact Int.ediv_mul_le d (by decide)

/-- The length of `n` minutes. -/
def minutes : Duration := n * minute

/-- The `n`-fold length, if its seconds fit 64 bits. -/
def checkedMul : Option Duration :=
  if -9223372036854775808 ≤ wholeSeconds (d * n) ∧ wholeSeconds (d * n) ≤ 9223372036854775807 then
    some (d * n)
  else none

/-- The `n`-th part of a length, rounded towards zero. -/
def checkedDiv : Option Duration :=
  if n = 0 then none else some (Int.tdiv d n)

end Duration

/-- The days of the week, Monday first. -/
inductive DayOfWeek where
  | monday | tuesday | wednesday | thursday | friday | saturday | sunday
deriving DecidableEq, Repr

namespace DayOfWeek

def numberDaysFromMonday : DayOfWeek → ℕ
  | monday => 0
  | tuesday => 1
  | wednesday => 2
  | thursday => 3
  | friday => 4
  | saturday => 5
  | sunday => 6

/-- The weekday of the `n`-th day after 1970-01-01, which was a Thursday. -/
def ofDay (n : Int) : DayOfWeek :=
  match (n + 3) % 7 with
  | 0 => monday
  | 1 => tuesday
  | 2 => wednesday
  | 3 => thursday
  | 4 => friday
  | 5 => saturday
  | _ => sunday

lemma numberDaysFromMonday_lt (d : DayOfWeek) : d.numberDaysFromMonday < 7 := by
  cases d <;> decide

lemma numberDaysFromMonday_ofDay (n : Int) :
    ((ofDay n).numberDaysFromMonday : Int) = (n + 3) % 7 := by
  have hlo : 0 ≤ (n + 3) % 7 := by omega
  have hhi : (n + 3) % 7 < 7 := by omega
  unfold ofDay
  generalize (n + 3) % 7 = r at hlo hhi
  obtain rfl | rfl | rfl | rfl | rfl | rfl | rfl :
      r = 0 ∨ r = 1 ∨ r = 2 ∨ r = 3 ∨ r = 4 ∨ r = 5 ∨ r = 6 := by omega
  all_goals rfl

end DayOfWeek

/-- A calendar day between -9999-01-01 and 9999-12-31, as the number of days
since 1970-01-01. -/
structure Date where
  day : Int
  min_le : -4371587 ≤ day
  le_max : day ≤ 2932896
deriving DecidableEq

namespace Date

lemma min_le_max : (-4371587 : Int) ≤ 2932896 := by decide

/-- The `n`-th day after 1970-01-01, if it is representable. -/
def ofDay (n : Int) : Option Date :=
  if h : -4371587 ≤ n ∧ n ≤ 2932896 then some ⟨n, h.1, h.2⟩ else none

variable {a b : Date}

@[ext] lemma ext (h : a.day = b.day) : a = b := by
  cases a; cases b; cases h; rfl

lemma ofDay_eq_some {n : Int} {d : Date} (h : ofDay n = some d) : d.day = n := by
  unfold ofDay at h
  split at h
  · cases h; rfl
  · cases h

def weekday (d : Date) : DayOfWeek := DayOfWeek.ofDay d.day

/-- The date `n` days later, if it is representable. -/
def checkedAddDays (d : Date) (n : Int) : Option Date := ofDay (d.day + n)

def nextDay (d : Date) : Option Date := d.checkedAddDays 1

instance : LinearOrder Date :=
  LinearOrder.lift' Date.day fun _ _ h => Date.ext h

lemma le_def : a ≤ b ↔ a.day ≤ b.day := Iff.rfl

lemma lt_def : a < b ↔ a.day < b.day := Iff.rfl

end Date

open Duration (day minute second)

/-- An instant, in nanoseconds since 1970-01-01T00:00Z, written at an offset of
whole seconds from UTC. The offset stays below 26 hours and the local date is
representable. -/
structure OffsetDateTime where
  nanos : Int
  offset : Int
  offset_ge : -93599 ≤ offset
  offset_le : offset ≤ 93599
  local_ge : -4371587 * day ≤ nanos + offset * second
  local_lt : nanos + offset * second < 2932897 * day
deriving DecidableEq

namespace OffsetDateTime

/-- The instant `n` at the given offset, if both are in range. -/
def ofNanos (n offset : Int) : Option OffsetDateTime :=
  if h : (-93599 ≤ offset ∧ offset ≤ 93599) ∧
      (-4371587 * day ≤ n + offset * second ∧
        n + offset * second < 2932897 * day) then
    some ⟨n, offset, h.1.1, h.1.2, h.2.1, h.2.2⟩
  else none

lemma ofNanos_eq_some {n o : Int} {t : OffsetDateTime} (h : ofNanos n o = some t) :
    t.nanos = n ∧ t.offset = o := by
  unfold ofNanos at h
  split at h
  · cases h; exact ⟨rfl, rfl⟩
  · cases h

variable {a b : OffsetDateTime}

@[ext] lemma ext (h : a.nanos = b.nanos) (ho : a.offset = b.offset) : a = b := by
  cases a; cases b; cases h; cases ho; rfl

/-- Instants are compared without their offsets. -/
instance : Preorder OffsetDateTime where
  le a b := a.nanos ≤ b.nanos
  lt a b := a.nanos < b.nanos
  le_refl a := le_refl a.nanos
  le_trans _ _ _ := le_trans
  lt_iff_le_not_ge _ _ := lt_iff_le_not_ge

lemma le_def : a ≤ b ↔ a.nanos ≤ b.nanos := Iff.rfl

lemma lt_def : a < b ↔ a.nanos < b.nanos := Iff.rfl

lemma not_le_iff : ¬ a ≤ b ↔ b < a := Int.not_le

lemma not_lt_iff : ¬ a < b ↔ b ≤ a := Int.not_lt

instance : DecidableLE OffsetDateTime := fun a b => inferInstanceAs (Decidable (a.nanos ≤ b.nanos))

instance : DecidableLT OffsetDateTime := fun a b => inferInstanceAs (Decidable (a.nanos < b.nanos))

/-- The equality the source uses: the same instant, whatever the offsets. -/
def sameInstant (a b : OffsetDateTime) : Bool := a.nanos == b.nanos

instance : @Std.Total OffsetDateTime (· ≤ ·) := ⟨fun a b => le_total a.nanos b.nanos⟩

instance : Ord OffsetDateTime := ⟨compareOn OffsetDateTime.nanos⟩

instance : Std.TransOrd OffsetDateTime :=
  inferInstanceAs (Std.TransCmp (compareOn OffsetDateTime.nanos))

def since (a b : OffsetDateTime) : Duration := a.nanos - b.nanos

variable (t : OffsetDateTime) (d : Duration)

/-- The instant `d` later, at the same offset, if its local date is representable. -/
def checkedAdd : Option OffsetDateTime :=
  ofNanos (t.nanos + d) t.offset

/-- The instant `d` earlier, at the same offset, if its local date is representable. -/
def checkedSub : Option OffsetDateTime :=
  ofNanos (t.nanos - d) t.offset

/-- Seconds since 1970-01-01T00:00Z, rounded down. -/
def unixTimestamp : Int := t.nanos / second

/-- The nanoseconds after the last whole second. -/
def nanosecond : Int := t.nanos % second

/-- The reading of a clock at the instant's own offset, as nanoseconds since
local 1970-01-01T00:00. -/
def localNanos : Int := t.nanos + t.offset * second

/-- The local date. -/
def date : Date where
  day := t.localNanos / day
  min_le := by
    have h := t.local_ge
    simp only [localNanos, day, second] at h ⊢
    omega
  le_max := by
    have h := t.local_lt
    simp only [localNanos, day, second] at h ⊢
    omega

lemma date_day : t.date.day = (t.nanos + t.offset * second) / day := rfl

def weekday : DayOfWeek := t.date.weekday

/-- The minute of the local day, the hour times sixty plus the minute. -/
def minuteOfDay : ℕ := ((t.localNanos % day) / minute).toNat

/-- The instant some seconds after 1970-01-01T00:00Z, up to the year 2100. -/
def atSecond (s : ℕ) : OffsetDateTime where
  nanos := (s % 4102444800 : ℕ) * second
  offset := 0
  offset_ge := by decide
  offset_le := by decide
  local_ge := by simp only [second, day]; omega
  local_lt := by simp only [second, day]; omega

/-- The same instant with an offset of one hour. -/
def atSecondEast (s : ℕ) : OffsetDateTime where
  nanos := (s % 4102444800 : ℕ) * second
  offset := 3600
  offset_ge := by decide
  offset_le := by decide
  local_ge := by simp only [second, day]; omega
  local_lt := by simp only [second, day]; omega

@[simp] lemma nanos_later (a b : OffsetDateTime) : (later a b).nanos = max a.nanos b.nanos := by
  unfold later
  split <;> rename_i h <;> rw [lt_def] at h <;> omega

@[simp] lemma nanos_earlier (a b : OffsetDateTime) : (earlier a b).nanos = min a.nanos b.nanos := by
  unfold earlier
  split <;> rename_i h <;> rw [lt_def] at h <;> omega

lemma nanos_of_checkedAdd {t u : OffsetDateTime} {d : Duration} (h : t.checkedAdd d = some u) :
    u.nanos = t.nanos + d :=
  (ofNanos_eq_some h).1

lemma checkedPart_eq_some {t u : OffsetDateTime} {d n m : Int} :
    ((Duration.checkedMul d n).bind fun e => Duration.checkedDiv e m).bind t.checkedAdd = some u ↔
      (-9223372036854775808 ≤ Duration.wholeSeconds (d * n) ∧
        Duration.wholeSeconds (d * n) ≤ 9223372036854775807) ∧ m ≠ 0 ∧
      t.checkedAdd (Int.tdiv (d * n) m) = some u := by
  simp [Duration.checkedMul, Duration.checkedDiv, Option.bind_eq_some_iff, and_assoc]

@[simp] lemma checkedAdd_zero (t : OffsetDateTime) : t.checkedAdd (0 : Int) = some t := by
  simp only [checkedAdd, ofNanos, Int.add_zero]
  exact dif_pos ⟨⟨t.offset_ge, t.offset_le⟩, t.local_ge, t.local_lt⟩

/-- An instant is representable if a later one is at the same offset. -/
lemma exists_checkedAdd_of_le {t u : OffsetDateTime} {d : Int} (hd : 0 ≤ d)
    (hle : t.nanos + d ≤ u.nanos) (hoff : u.offset = t.offset) :
    ∃ v, t.checkedAdd d = some v ∧ v.nanos = t.nanos + d := by
  have hge := t.local_ge
  have hlt := u.local_lt
  rw [hoff] at hlt
  exact ⟨_, dif_pos ⟨⟨t.offset_ge, t.offset_le⟩, by omega, by omega⟩, rfl⟩

/-- What comes before a representable later instant is representable. -/
lemma exists_checkedAdd_of_checkedAdd {t u : OffsetDateTime} {d e : Int}
    (h : t.checkedAdd d = some u) (he : 0 ≤ e) (hle : e ≤ d) :
    ∃ v, t.checkedAdd e = some v ∧ v.nanos = t.nanos + e := by
  obtain ⟨hns, hoff⟩ := ofNanos_eq_some h
  exact exists_checkedAdd_of_le he (hns ▸ Int.add_le_add_left hle _) hoff

end OffsetDateTime

/-- A stretch of time between two instants. -/
abbrev Span := HalfOpen OffsetDateTime

end DayWeave
