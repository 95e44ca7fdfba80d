import DayWeave.Lib.Decimal
import DayWeave.Lib.Result
import DayWeave.Lib.Text
import DayWeave.Recurrence.Custom
import Mathlib.Algebra.Order.BigOperators.Group.List

/-!
The canonical text of a custom rule.

A rule that was parsed is within the bounds of the grammar (`IsBounded`). Its canonical text is
made of parts without a separator inside, each of which is read back as what it was written from,
so the text parses to the rule (`parseCustomRrule_canonical`).
-/

namespace DayWeave

open Nat (toDigits)
open Decimal (isDigits_pad isDigits_toDigits length_pad pad value value_toDigits)
open List
open String (toList_append)

/-- The canonical spelling of a text. -/
def canonicalizeCustomRrule (rrule : String) : Except CustomRecurrenceRuleError String :=
  (parseCustomRrule rrule).map CustomRecurrenceRule.canonical

namespace CustomRecurrenceRule

/-! ### Characters -/

lemma digitsValue_eq (l : List Char) : digitsValue l = value l := rfl

variable {l : List Char} {n : UInt32}

lemma all_isDigit_iff : l.all isDigit = true ↔ Decimal.IsDigits l := all_eq_true

/-- The characters of canonical values: printable, not in lower case and no separator between
parts or between name and value. -/
def IsPlain (c : Char) : Prop :=
  33 ≤ c.toNat ∧ c.toNat ≤ 126 ∧ c ≠ ';' ∧ c ≠ '=' ∧ upper c = c

instance (c : Char) : Decidable (IsPlain c) := inferInstanceAs (Decidable (_ ∧ _ ∧ _ ∧ _ ∧ _))

lemma isPlain_of_isDigit {c : Char} (h : c.isDigit = true) : IsPlain c := by
  rw [← Decimal.digitChar_of_isDigit h]
  have hall : ∀ d : Fin 10, IsPlain d.val.digitChar := by decide
  exact hall ⟨_, Decimal.sub_lt_of_isDigit h⟩

lemma map_upper_of_isPlain (h : ∀ c ∈ l, IsPlain c) : l.map upper = l :=
  (map_congr_left fun c hc => (h c hc).2.2.2.2).trans (map_id l)

/-! ### Values -/

lemma toList_toString_nat (n : ℕ) : (toString n).toList = toDigits 10 n := by
  rw [Nat.toString_eq_repr, Nat.toList_repr]

lemma toList_padDecimal (width n : ℕ) : (padDecimal width n).toList = pad width n := by
  rw [padDecimal, pad, toList_append, String.toList_ofList, ← toList_toString_nat,
    String.length_toList]

lemma parsePlainU32_toDigits (n : UInt32) : parsePlainU32 (toDigits 10 n.toNat) = some n := by
  have hvl : digitsValue (toDigits 10 n.toNat) = n.toNat := by
    rw [digitsValue_eq, value_toDigits]
  rw [parsePlainU32, if_pos ⟨Nat.toDigits_ne_nil, all_isDigit_iff.mpr (isDigits_toDigits _)⟩,
    hvl, if_pos n.toNat_lt, UInt32.ofNat_toNat]

lemma parseBoundedInterval_eq_ok : parseBoundedInterval l = .ok n ↔
    parsePlainU32 l = some n ∧ 1 ≤ n ∧ n ≤ maxInterval := by
  rw [parseBoundedInterval]
  cases parsePlainU32 l <;> grind

lemma parseBoundedCount_eq_ok : parseBoundedCount l = .ok n ↔
    parsePlainU32 l = some n ∧ 1 ≤ n ∧ n ≤ maxOccurrences := by
  rw [parseBoundedCount]
  cases parsePlainU32 l <;> grind

lemma toList_toString_int (n : Int) :
    (toString n).toList = if 0 ≤ n then toDigits 10 n.toNat else '-' :: toDigits 10 (-n).toNat := by
  have hrepr : toString n = n.repr := rfl
  rw [hrepr, Int.repr_eq_if]
  split
  · exact Nat.toList_repr
  · rw [toList_append, Nat.toList_repr]
    rfl

lemma parseMonthDay_toString {n : Int} (hne : n ≠ 0) (hlow : -31 ≤ n) (hhigh : n ≤ 31) :
    parseMonthDay (toString n).toList = some n := by
  have hfilt : (some n).filter (fun day => decide (day ≠ 0 ∧ -31 ≤ day ∧ day ≤ 31)) = some n := by
    simp [hne, hlow, hhigh]
  rw [toList_toString_int]
  split
  · have hdig := isDigits_toDigits n.toNat
    have hvl := value_toDigits n.toNat
    obtain ⟨c, l, hl⟩ := exists_cons_of_ne_nil (Nat.toDigits_ne_nil)
    have hc : c ≠ '-' := by
      rintro rfl
      exact absurd (hdig '-' (hl ▸ mem_cons_self)) (by decide)
    rw [hl] at hdig hvl ⊢
    unfold parseMonthDay
    split
    · next heq => cases heq
    · next heq => exact absurd (List.cons.inj heq).1 hc
    · rw [if_pos (all_isDigit_iff.mpr hdig), digitsValue_eq, hvl, Int.toNat_of_nonneg ‹_›]
      exact hfilt
  · rw [parseMonthDay, if_pos ⟨Nat.toDigits_ne_nil, all_isDigit_iff.mpr (isDigits_toDigits _)⟩,
      digitsValue_eq, value_toDigits, Int.toNat_of_nonneg (by omega), Int.neg_neg]
    exact hfilt

def untilText (date : Date) : List Char :=
  pad 4 date.year.natAbs ++ (pad 2 date.month ++ pad 2 date.dayOfMonth)

lemma isDigits_untilText (date : Date) : Decimal.IsDigits (untilText date) :=
  (isDigits_pad _ _).append ((isDigits_pad _ _).append (isDigits_pad _ _))

variable {date : Date} {days : Finset Int}

section

variable (h : 1 ≤ date.year)

include h

lemma toList_untilText :
    (Date.yearText date.year ++ padDecimal 2 date.month ++ padDecimal 2 date.dayOfMonth).toList =
      untilText date := by
  rw [Date.yearText, if_neg (by omega), toList_append, toList_append,
    toList_padDecimal, toList_padDecimal, toList_padDecimal, append_assoc, untilText]

lemma length_untilText_parts : (pad 4 date.year.natAbs).length = 4 ∧ (pad 2 date.month).length = 2 ∧
      (pad 2 date.dayOfMonth).length = 2 := by
  have hyear := date.year_range
  have hmon := date.month0_bounds.1
  have hday := date.dayOfMonth_bounds
  have hlength := monthLength_bounds date.year date.month
  exact ⟨length_pad (by omega) (by decide), length_pad (by rw [Date.month]; omega) (by decide),
    length_pad (by omega) (by decide)⟩

lemma length_untilText : (untilText date).length = 8 := by
  obtain ⟨hfour, htwo, htwo'⟩ := length_untilText_parts h
  rw [untilText, length_append, length_append, hfour, htwo, htwo']

lemma parseUntil_untilText : parseUntil (untilText date) = .ok date := by
  obtain ⟨hfour, htwo, -⟩ := length_untilText_parts h
  have hdig := isDigits_untilText date
  have height := length_untilText h
  have htake : (untilText date).take 4 = pad 4 date.year.natAbs := by
    rw [untilText, take_left' hfour]
  have hdrop : (untilText date).drop 4 = pad 2 date.month ++ pad 2 date.dayOfMonth := by
    rw [untilText, drop_left' hfour]
  have hmiddle : ((untilText date).drop 4).take 2 = pad 2 date.month := by
    rw [hdrop, take_left' htwo]
  have hlast : (untilText date).drop 6 = pad 2 date.dayOfMonth := by
    rw [show 6 = 4 + 2 from rfl, ← drop_drop, hdrop, drop_left' htwo]
  have hcal : Date.ofCalendar (date.year.natAbs : Int) date.month date.dayOfMonth = some date := by
    rw [Int.natAbs_of_nonneg (by omega)]
    exact Date.ofCalendar_self date
  rw [parseUntil, if_neg (by simp [height, all_isDigit_iff.mpr hdig]), htake, hmiddle, hlast]
  simp only [digitsValue_eq, Decimal.value_pad]
  rw [if_neg (by omega), hcal]

end

/-! ### Lists of values -/

section

variable {α : Type*} [DecidableEq α] {ε : Type*}

lemma foldlM_insert_of_nodup {add : Finset α → List Char → Except ε (Finset α)}
    {write : α → List Char} {l : List α}
    (hadd : ∀ a ∈ l, ∀ result, a ∉ result → add result (write a) = .ok (insert a result))
    (hl : l.Nodup) {result : Finset α} (hres : ∀ a ∈ l, a ∉ result) :
    (l.map write).foldlM add result = .ok (result ∪ l.toFinset) := by
  induction l generalizing result with
  | nil => simp [pure, Except.pure]
  | cons a l ih =>
    obtain ⟨ha, hl⟩ := nodup_cons.mp hl
    rw [map_cons, foldlM_cons, hadd a mem_cons_self result (hres a mem_cons_self)]
    refine (ih (fun b hb => hadd b (mem_cons_of_mem _ hb)) hl fun b hb => ?_).trans ?_
    · rw [Finset.mem_insert]
      rintro (rfl | hmem)
      · exact ha hb
      · exact hres b (mem_cons_of_mem _ hb) hmem
    · rw [toFinset_cons, Finset.insert_union, Finset.union_insert]

end

/-- Values with commas between them. -/
def commaText (l : List (List Char)) : List Char := [','].intercalate l

lemma toFinset_weekdays (days : Finset DayOfWeek) : (weekdays days).toFinset = days := by
  have hall : ∀ day : DayOfWeek, day ∈ allDays := by rintro (_ | _ | _ | _ | _ | _ | _) <;> decide
  ext day
  simp [weekdays, hall]

lemma toFinset_monthDays (h : ∀ day ∈ days, -31 ≤ day ∧ day ≤ 31) :
    (monthDays days).toFinset = days := by
  ext day
  rw [mem_toFinset, monthDays, mem_filter, decide_eq_true_eq, mem_map]
  refine ⟨fun hday => hday.2, fun hday => ⟨⟨(day + 31).toNat, ?_, ?_⟩, hday⟩⟩
  · have := h day hday
    rw [mem_range]
    omega
  · have := h day hday
    omega

lemma nodup_weekdays (days : Finset DayOfWeek) : (weekdays days).Nodup :=
  (by decide : allDays.Nodup).filter _

lemma nodup_monthDays (days : Finset Int) : (monthDays days).Nodup := by
  refine (nodup_range.map fun a b h => ?_).filter _
  omega

lemma isPlain_dayName (day : DayOfWeek) : ∀ c ∈ (dayName day).toList, IsPlain c ∧ c ≠ ',' := by
  rw [← forall_iff_forall_mem]
  cases day <;> decide

lemma isPlain_monthDay (day : Int) : ∀ c ∈ (toString day).toList, IsPlain c ∧ c ≠ ',' := by
  have hdigit : ∀ c : Char, c.isDigit = true → IsPlain c ∧ c ≠ ',' := fun c hc =>
    ⟨isPlain_of_isDigit hc, by rintro rfl; exact absurd hc (by decide)⟩
  rw [toList_toString_int]
  split
  · exact fun c hc => hdigit c (isDigits_toDigits _ c hc)
  · intro c hc
    rcases mem_cons.mp hc with rfl | hc
    · decide
    · exact hdigit c (isDigits_toDigits _ c hc)

section

variable {α : Type*} {write : α → List Char} {l : List α}

variable (h : ∀ a ∈ l, ∀ c ∈ write a, IsPlain c ∧ c ≠ ',')

include h

lemma splitOn_commaText (hl : l ≠ []) : (commaText (l.map write)).splitOn ',' = l.map write := by
  refine splitOn_intercalate ',' ?_ (by simpa using hl)
  intro text htext hcomma
  obtain ⟨a, ha, rfl⟩ := mem_map.mp htext
  exact (h a ha ',' hcomma).2 rfl

lemma isPlain_commaText : ∀ c ∈ commaText (l.map write), IsPlain c := by
  intro c hc
  cases l with
  | nil => cases hc
  | cons a l =>
    rw [commaText, map_cons, Text.intercalate_cons, mem_append, flatMap_map, mem_flatMap] at hc
    rcases hc with hc | ⟨b, hb, hc⟩
    · exact (h a mem_cons_self c hc).1
    · rcases mem_cons.mp hc with rfl | hc
      · decide
      · exact (h b (mem_cons_of_mem _ hb) c hc).1

lemma foldlM_commaText [DecidableEq α] {ε : Type*}
    {add : Finset α → List Char → Except ε (Finset α)} (hl : l.Nodup) (hne : l.toFinset ≠ ∅)
    (hadd : ∀ a ∈ l, ∀ result, a ∉ result → add result (write a) = .ok (insert a result)) :
    ((commaText (l.map write)).splitOn ',').foldlM add ∅ = .ok l.toFinset := by
  rw [splitOn_commaText h (mt (congrArg toFinset) hne),
    foldlM_insert_of_nodup hadd hl fun _ _ => Finset.notMem_empty _, Finset.empty_union]

end

lemma parseByDay_commaText {days : Finset DayOfWeek} (h : days ≠ ∅) :
    parseByDay (commaText ((weekdays days).map fun day => (dayName day).toList)) = .ok days := by
  have hset := toFinset_weekdays days
  refine (foldlM_commaText (fun day _ => isPlain_dayName day) (nodup_weekdays days)
    (hset.symm ▸ h) fun day _ result hday => ?_).trans (congrArg _ hset)
  have hfind : (allDays.find? fun other => (dayName other).toList = (dayName day).toList) =
      some day := by
    cases day <;> decide
  rw [addByDay, hfind]
  exact if_neg hday

lemma parseByMonthDay_commaText (h : days ≠ ∅)
    (hdays : ∀ day ∈ days, day ≠ 0 ∧ -31 ≤ day ∧ day ≤ 31) :
    parseByMonthDay (commaText ((monthDays days).map fun day => (toString day).toList)) =
      .ok days := by
  have hset := toFinset_monthDays fun day hday => (hdays day hday).2
  refine (foldlM_commaText (fun day _ => isPlain_monthDay day) (nodup_monthDays days)
    (hset.symm ▸ h) fun day hmem result hday => ?_).trans (congrArg _ hset)
  rw [← mem_toFinset, hset] at hmem
  obtain ⟨hzero, hlow, hhigh⟩ := hdays day hmem
  rw [addByMonthDay, parseMonthDay_toString hzero hlow hhigh]
  exact if_neg hday

/-! ### Parts -/

/-- A part of a rule, as it is written. -/
inductive Part where
  | frequency (value : CustomFrequency)
  | interval (n : UInt32)
  | byDay (days : Finset DayOfWeek)
  | byMonthDay (days : Finset Int)
  | count (n : UInt32)
  | untilDate (date : Date)

namespace Part

def name : Part → String
  | frequency _ => "FREQ"
  | interval _ => "INTERVAL"
  | byDay _ => "BYDAY"
  | byMonthDay _ => "BYMONTHDAY"
  | count _ => "COUNT"
  | untilDate _ => "UNTIL"

def value : Part → List Char
  | frequency v => (frequencyName v).toList
  | interval n => toDigits 10 n.toNat
  | byDay days => commaText ((weekdays days).map fun day => (dayName day).toList)
  | byMonthDay days => commaText ((monthDays days).map fun day => (toString day).toList)
  | count n => toDigits 10 n.toNat
  | untilDate date => untilText date

def text (part : Part) : List Char := part.name.toList ++ '=' :: part.value

/-- The bounds of the grammar. -/
def IsBounded : Part → Prop
  | frequency _ => True
  | interval n => 1 ≤ n ∧ n ≤ maxInterval
  | byDay days => days ≠ ∅
  | byMonthDay days => days ≠ ∅ ∧ ∀ day ∈ days, day ≠ 0 ∧ -31 ≤ day ∧ day ≤ 31
  | count n => 1 ≤ n ∧ n ≤ maxOccurrences
  | untilDate date => 1 ≤ date.year

/-- The parts read so far with one more. -/
def addTo (parts : Parts) (part : Part) : Parts :=
  let parts := { parts with seen := part.name.toList :: parts.seen }
  match part with
  | frequency v => { parts with frequency := some v }
  | interval n => { parts with interval := some n }
  | byDay days => { parts with byDay := some days }
  | byMonthDay days => { parts with byMonthDay := some days }
  | count n => { parts with count := some n }
  | untilDate date => { parts with untilDate := some date }

variable {part : Part} {parts : Parts}

lemma isPlain_value (part : Part) : ∀ c ∈ part.value, IsPlain c := by
  have hdig : ∀ l, Decimal.IsDigits l → ∀ c ∈ l, IsPlain c :=
    fun l hl c hc => isPlain_of_isDigit (hl c hc)
  cases part with
  | frequency v => exact forall_iff_forall_mem.mp (by cases v <;> decide)
  | interval n => exact hdig _ (isDigits_toDigits _)
  | byDay days => exact isPlain_commaText fun day _ => isPlain_dayName day
  | byMonthDay days => exact isPlain_commaText fun day _ => isPlain_monthDay day
  | count n => exact hdig _ (isDigits_toDigits _)
  | untilDate date => exact hdig _ (isDigits_untilText date)

lemma isPlain_name (part : Part) : ∀ c ∈ part.name.toList, IsPlain c := by
  rw [← forall_iff_forall_mem]
  cases part <;> (simp only [name]; decide)

lemma name_ne (part : Part) : part.name.toList ≠ [] := by
  cases part <;> (simp only [name]; decide)

lemma isPlain_text (part : Part) : ∀ c ∈ part.text, IsPlain c ∨ c = '=' := by
  intro c hc
  rcases mem_append.mp hc with hc | hc
  · exact .inl (part.isPlain_name c hc)
  · rcases mem_cons.mp hc with hc | hc
    · exact .inr hc
    · exact .inl (part.isPlain_value c hc)

lemma value_ne (h : part.IsBounded) : part.value ≠ [] := by
  cases part with
  | frequency v => cases v <;> decide
  | interval n => exact Nat.toDigits_ne_nil
  | byDay days =>
    intro hnil
    cases (congrArg parseByDay hnil).symm.trans (parseByDay_commaText h)
  | byMonthDay days =>
    intro hnil
    cases (congrArg parseByMonthDay hnil).symm.trans (parseByMonthDay_commaText h.1 h.2)
  | count n => exact Nat.toDigits_ne_nil
  | untilDate date =>
    intro hnil
    cases (congrArg parseUntil hnil).symm.trans (parseUntil_untilText h)

lemma split_text (part : Part) : part.text.takeWhile (· ≠ '=') = part.name.toList ∧
      (part.text.dropWhile (· ≠ '=')).drop 1 = part.value := by
  have hname : ∀ c ∈ part.name.toList, decide (c ≠ '=') = true := fun c hc =>
    decide_eq_true (part.isPlain_name c hc).2.2.2.1
  constructor
  · rw [text, takeWhile_append_of_pos hname, takeWhile_cons_of_neg (by simp), append_nil]
  · rw [text, dropWhile_append_of_pos hname, dropWhile_cons_of_neg (by simp)]
    rfl

lemma addPart_text (h : part.IsBounded) (hseen : part.name.toList ∉ parts.seen) :
    addPart parts part.text = .ok (part.addTo parts) := by
  obtain ⟨hname, hvl⟩ := part.split_text
  have hguard : ¬ ('=' ∉ part.text ∨ part.name.toList = [] ∨ part.value = [] ∨
    '=' ∈ part.value) := by
    rintro (hmem | hnil | hnil | hmem)
    · exact hmem (mem_append_right _ mem_cons_self)
    · exact part.name_ne hnil
    · exact part.value_ne h hnil
    · exact (part.isPlain_value _ hmem).2.2.2.1 rfl
  unfold addPart
  simp only [hname, hvl]
  rw [if_neg hguard, map_upper_of_isPlain part.isPlain_name,
    map_upper_of_isPlain part.isPlain_value, if_neg hseen, String.ofList_toList]
  cases part with
  | frequency v => cases v <;> rfl
  | interval n => exact congrArg (Except.map _) (parseBoundedInterval_eq_ok.mpr
      ⟨parsePlainU32_toDigits n, h⟩)
  | byDay days => exact congrArg (Except.map _) (parseByDay_commaText h)
  | byMonthDay days => exact congrArg (Except.map _) (parseByMonthDay_commaText h.1 h.2)
  | count n =>
    exact congrArg (Except.map _)
      (parseBoundedCount_eq_ok.mpr ⟨parsePlainU32_toDigits n, h⟩)
  | untilDate date => exact congrArg (Except.map _) (parseUntil_untilText h)

lemma foldlM_addPart {l : List Part} (hl : ∀ part ∈ l, part.IsBounded) (hnames : (l.map name).Nodup)
    (hseen : ∀ part ∈ l, part.name.toList ∉ parts.seen) :
    (l.map text).foldlM addPart parts = .ok (l.foldl Part.addTo parts) := by
  induction l generalizing parts with
  | nil => rfl
  | cons part l ih =>
    obtain ⟨hpart, hnames⟩ := nodup_cons.mp hnames
    rw [map_cons, foldlM_cons, addPart_text (hl part mem_cons_self) (hseen part mem_cons_self)]
    refine ih (fun other hoth => hl other (mem_cons_of_mem _ hoth)) hnames fun other hoth => ?_
    rw [show (part.addTo parts).seen = part.name.toList :: parts.seen by cases part <;> rfl,
      mem_cons]
    rintro (heq | hmem)
    · exact hpart (String.toList_inj.mp heq ▸ mem_map_of_mem hoth)
    · exact hseen other (mem_cons_of_mem _ hoth) hmem

end Part

/-! ### The parts of the canonical text -/

/-- The part with which a rule ends. -/
def terminationPart : CustomTermination → Part
  | .count n => .count n
  | .untilDate date => .untilDate date

def byDayParts (days : Finset DayOfWeek) : List Part := if days = ∅ then [] else [.byDay days]

def byMonthDayParts (days : Finset Int) : List Part :=
  if days = ∅ then [] else [.byMonthDay days]

def canonicalParts (rule : CustomRecurrenceRule) : List Part :=
  .frequency rule.frequency :: .interval rule.interval ::
    (byDayParts rule.byDay ++
      (byMonthDayParts rule.byMonthDay ++ [terminationPart rule.termination]))

/-- Parts with a separator before each of them. -/
def separatedText (parts : List Part) : List Char := parts.flatMap fun part => ';' :: part.text

section

variable (part : Part) (l m : List Part)

@[simp] lemma separatedText_nil : separatedText [] = [] := rfl

@[simp] lemma separatedText_cons : separatedText (part :: l) =
      ';' :: (part.name.toList ++ '=' :: (part.value ++ separatedText l)) := by
  simp [separatedText, Part.text]

@[simp] lemma separatedText_append :
    separatedText (l ++ m) = separatedText l ++ separatedText m := flatMap_append

lemma intercalate_text :
    [';'].intercalate ((part :: l).map Part.text) = part.text ++ separatedText l := by
  rw [map_cons, Text.intercalate_cons, flatMap_map, separatedText]

end

lemma toList_header (name : String) (value : List Char) :
    (";" ++ name ++ "=").toList ++ value = ';' :: (name.toList ++ '=' :: value) := by
  simp

lemma toList_commaJoin (l : List String) : (commaJoin l).toList = commaText (l.map String.toList) :=
  String.toList_intercalate

lemma toList_byDayText (days : Finset DayOfWeek) :
    (byDayText days).toList = separatedText (byDayParts days) := by
  unfold byDayText byDayParts
  split
  · rfl
  · rw [toList_append, toList_commaJoin, map_map, separatedText_cons, separatedText_nil, append_nil]
    exact toList_header "BYDAY" _

lemma toList_byMonthDayText (days : Finset Int) :
    (byMonthDayText days).toList = separatedText (byMonthDayParts days) := by
  unfold byMonthDayText byMonthDayParts
  split
  · rfl
  · rw [toList_append, toList_commaJoin, map_map, separatedText_cons, separatedText_nil, append_nil]
    exact toList_header "BYMONTHDAY" _

lemma toList_terminationText {termination : CustomTermination}
    (h : (terminationPart termination).IsBounded) :
    (terminationText termination).toList = separatedText [terminationPart termination] := by
  rw [separatedText_cons, separatedText_nil, append_nil]
  cases termination with
  | count n =>
    rw [terminationText, toList_append, toList_toString_nat]
    exact toList_header "COUNT" _
  | untilDate date =>
    have htext := toList_untilText h
    simp only [terminationText, String.append_assoc, toList_append] at htext ⊢
    rw [htext]
    exact toList_header "UNTIL" _

variable {rule : CustomRecurrenceRule} {value : List Char}

lemma toList_canonical (h : (terminationPart rule.termination).IsBounded) :
    rule.canonical.toList = [';'].intercalate (rule.canonicalParts.map Part.text) := by
  rw [canonical, canonicalParts, intercalate_text]
  have hint : ∀ value, ";INTERVAL=".toList ++ value =
      ';' :: ("INTERVAL".toList ++ '=' :: value) := toList_header "INTERVAL"
  have hfrequency : "FREQ=".toList = "FREQ".toList ++ ['='] := by decide
  simp only [toList_append, toList_byDayText, toList_byMonthDayText, toList_terminationText h,
    toList_toString_nat, separatedText_append, separatedText_cons, Part.text, append_assoc,
    hfrequency, hint, Part.name, Part.value, cons_append, nil_append]

/-! ### Parsed rules -/

/-- The bounds of the rules that can be written. -/
structure IsBounded (rule : CustomRecurrenceRule) : Prop where
  interval : 1 ≤ rule.interval ∧ rule.interval ≤ maxInterval
  byMonthDay : ∀ day ∈ rule.byMonthDay, day ≠ 0 ∧ -31 ≤ day ∧ day ≤ 31
  termination : (terminationPart rule.termination).IsBounded
  weekly : ¬ (rule.frequency = .weekly ∧ rule.byMonthDay ≠ ∅)

/-- The bounds of the parts that have been read. -/
structure Parts.IsBounded (parts : Parts) : Prop where
  interval : ∀ n ∈ parts.interval, 1 ≤ n ∧ n ≤ maxInterval
  byMonthDay : ∀ days ∈ parts.byMonthDay, ∀ day ∈ days, day ≠ 0 ∧ -31 ≤ day ∧ day ≤ 31
  count : ∀ n ∈ parts.count, 1 ≤ n ∧ n ≤ maxOccurrences
  untilDate : ∀ date ∈ parts.untilDate, 1 ≤ date.year

lemma parseByMonthDay_bounds (h : parseByMonthDay value = .ok days) :
    ∀ day ∈ days, day ≠ 0 ∧ -31 ≤ day ∧ day ≤ 31 := by
  refine Except.foldlM_invariant (P := fun result : Finset Int =>
    ∀ day ∈ result, day ≠ 0 ∧ -31 ≤ day ∧ day ≤ 31) ?_ h fun day hday =>
      (Finset.notMem_empty day hday).elim
  intro result token next _ hstep hres day hday
  unfold addByMonthDay at hstep
  split at hstep
  · cases hstep
  · next hparse =>
      cases (Except.ite_error_eq_ok.mp hstep).2
      rcases Finset.mem_insert.mp hday with rfl | hday
      · exact of_decide_eq_true (Option.filter_eq_some_iff.mp hparse).2
      · exact hres day hday

lemma parseUntil_bounds (h : parseUntil value = .ok date) : 1 ≤ date.year := by
  simp only [parseUntil, Except.ite_error_eq_ok] at h
  obtain ⟨-, hyear, h⟩ := h
  split at h
  · next hdate =>
      cases h
      rw [(Date.ofCalendar_eq_some hdate).1]
      omega
  · cases h

/-- Every part that is read is within the bounds. -/
lemma isBounded_addPart {parts next : Parts} {text : List Char}
    (h : addPart parts text = .ok next) (hparts : parts.IsBounded) : next.IsBounded := by
  obtain ⟨hint, hmday, hcnt, huntil⟩ := hparts
  simp only [addPart, Except.ite_error_eq_ok] at h
  obtain ⟨-, -, h⟩ := h
  split at h
  all_goals try cases h
  all_goals obtain ⟨v, hv, rfl⟩ := Except.map_eq_ok.mp h
  · exact ⟨hint, hmday, hcnt, huntil⟩
  · refine ⟨fun n hn => ?_, hmday, hcnt, huntil⟩
    cases hn
    exact (parseBoundedInterval_eq_ok.mp hv).2
  · exact ⟨hint, hmday, hcnt, huntil⟩
  · refine ⟨hint, fun days hdays => ?_, hcnt, huntil⟩
    cases hdays
    exact parseByMonthDay_bounds hv
  · refine ⟨hint, hmday, fun n hn => ?_, huntil⟩
    cases hn
    exact (parseBoundedCount_eq_ok.mp hv).2
  · refine ⟨hint, hmday, hcnt, fun date hdate => ?_⟩
    cases hdate
    exact parseUntil_bounds hv

lemma Parts.IsBounded.toRule {parts : Parts} (h : parts.IsBounded)
    (hrule : parts.toRule = .ok rule) : rule.IsBounded := by
  simp only [Parts.toRule] at hrule
  iterate 2 (split at hrule; cases hrule)
  rename_i hend
  obtain ⟨hweekly, heq⟩ := Except.ite_error_eq_ok.mp hrule
  cases heq
  refine ⟨?_, ?_, ?_, hweekly⟩
  · cases hint : parts.interval with
    | none => exact (by decide : (1 : UInt32) ≤ 1 ∧ (1 : UInt32) ≤ maxInterval)
    | some n => exact h.interval n hint
  · cases hdays : parts.byMonthDay with
    | none => exact fun day hday => (Finset.notMem_empty day hday).elim
    | some days => exact h.byMonthDay days hdays
  · unfold Parts.termination at hend
    split at hend <;> cases hend
    · exact h.count _ ‹_›
    · exact h.untilDate _ ‹_›

lemma isBounded_of_parse {text : String}
    (h : parseCustomRrule text = .ok rule) : rule.IsBounded := by
  simp only [parseCustomRrule, Except.ite_error_eq_ok] at h
  obtain ⟨parts, hparts, hrule⟩ := Except.bind_eq_ok.mp h.2.2.2.2
  exact (Except.foldlM_invariant (P := Parts.IsBounded) (fun _ _ _ _ => isBounded_addPart) hparts
    ⟨nofun, nofun, nofun, fun _ h => nomatch h⟩).toRule hrule

/-! ### The size of the canonical text -/

section

lemma length_commaText_le {α : Type*} {write : α → List Char} {n : ℕ} {l : List α}
    (h : ∀ a ∈ l, (write a).length ≤ n) :
    (commaText (l.map write)).length ≤ l.length * (n + 1) := by
  cases l with
  | nil => simp [commaText]
  | cons a l =>
    have ha := h a mem_cons_self
    have hrest : (l.map fun b => (',' :: write b).length).sum ≤ (l.map fun _ => n + 1).sum :=
      sum_le_sum fun b hb => Nat.succ_le_succ (h b (mem_cons_of_mem _ hb))
    rw [commaText, map_cons, Text.intercalate_cons, length_append, flatMap_map, length_flatMap]
    simp only [map_const', sum_replicate_nat, length_cons, Nat.add_mul] at hrest ⊢
    omega

lemma length_monthDay_le {day : Int} (hlow : -31 ≤ day) (hhigh : day ≤ 31) :
    (toString day).toList.length ≤ 3 := by
  have hdig : ∀ n : ℕ, n < 100 → (toDigits 10 n).length ≤ 2 := fun n hn =>
    (Nat.length_toDigits_le_iff (by decide) (by decide)).mpr hn
  rw [toList_toString_int]
  split
  · have := hdig day.toNat (by omega)
    omega
  · have := hdig (-day).toNat (by omega)
    rw [length_cons]
    omega

/-- A bound on the length of a part. -/
def Part.limit : Part → ℕ
  | .byMonthDay _ => 300
  | _ => 50

lemma Part.length_text_le {part : Part} (h : part.IsBounded) : part.text.length ≤ part.limit := by
  have hname : part.name.toList.length ≤ 10 := by
    cases part <;> (simp only [Part.name]; decide)
  have hdig : ∀ n : UInt32, (toDigits 10 n.toNat).length ≤ 30 := fun n =>
    (Nat.length_toDigits_le_iff (by decide) (by decide)).mpr (n.toNat_lt.trans (by decide))
  have hvl : part.value.length + 20 ≤ part.limit := by
    cases part with
    | frequency v => cases v <;> decide
    | interval n => exact Nat.add_le_add_right (hdig n) 20
    | byDay days =>
      have hlength : (weekdays days).length ≤ 7 := length_filter_le _ _
      have htwo : ∀ day ∈ weekdays days, (dayName day).toList.length ≤ 2 := by
        rintro (_ | _ | _ | _ | _ | _ | _) _ <;> decide
      have := length_commaText_le htwo
      show (commaText _).length + 20 ≤ 50
      omega
    | byMonthDay days =>
      have hlength : (monthDays days).length ≤ 63 := by
        have hfilt : (monthDays days).length ≤ _ := length_filter_le _ _
        rwa [length_map, length_range] at hfilt
      have hthree : ∀ day ∈ monthDays days, (toString day).toList.length ≤ 3 := by
        intro day hday
        obtain ⟨-, hlow, hhigh⟩ := h.2 day (of_decide_eq_true (mem_filter.mp hday).2)
        exact length_monthDay_le hlow hhigh
      have := length_commaText_le hthree
      show (commaText _).length + 20 ≤ 300
      omega
    | count n => exact Nat.add_le_add_right (hdig n) 20
    | untilDate date =>
      show (untilText date).length + 20 ≤ 50
      rw [length_untilText h]
      decide
  rw [Part.text, length_append, length_cons]
  omega

/-- A text of ASCII characters has as many bytes as characters. -/
lemma utf8Len_of_ascii (h : ∀ c ∈ l, c.toNat ≤ 126) : String.utf8Len l = l.length := by
  induction l with
  | nil => rfl
  | cons c l ih =>
    have hc := Char.utf8Size_eq_one_iff.mpr (UInt32.le_iff_toNat_le.mpr
      ((h c mem_cons_self).trans (by decide)))
    rw [String.utf8Len_cons, ih fun d hd => h d (mem_cons_of_mem _ hd), hc, length_cons]

end

/-! ### Reading the canonical text -/

section

variable {rule : CustomRecurrenceRule}

lemma IsBounded.part (h : rule.IsBounded) : ∀ part ∈ rule.canonicalParts, part.IsBounded := by
  intro part hpart
  simp only [canonicalParts, byDayParts, byMonthDayParts, mem_cons, mem_append, mem_ite_nil_left,
    not_mem_nil, or_false] at hpart
  rcases hpart with rfl | rfl | ⟨hne, rfl⟩ | ⟨hne, rfl⟩ | rfl
  · trivial
  · exact h.interval
  · exact hne
  · exact ⟨hne, h.byMonthDay⟩
  · exact h.termination

lemma nodup_names (rule : CustomRecurrenceRule) : (rule.canonicalParts.map Part.name).Nodup := by
  obtain ⟨frequency, interval, byDay, byMonthDay, termination⟩ := rule
  simp only [canonicalParts, byDayParts, byMonthDayParts]
  cases termination <;> split_ifs <;>
    simp only [map_cons, map_nil, nil_append, cons_append, Part.name, terminationPart] <;> decide

/-- The parts of the canonical text describe the rule. -/
lemma IsBounded.toRule_canonicalParts (h : rule.IsBounded) :
    (rule.canonicalParts.foldl Part.addTo {}).toRule = .ok rule := by
  have hweekly := h.weekly
  obtain ⟨frequency, interval, byDay, byMonthDay, termination⟩ := rule
  simp only [canonicalParts, byDayParts, byMonthDayParts]
  cases termination <;> split_ifs with hday hmday hmday <;> subst_vars <;>
    exact if_neg hweekly

lemma length_separatedText_le {l : List Part} (h : ∀ part ∈ l, part.IsBounded) :
    (separatedText l).length ≤ (l.map fun part => part.limit + 1).sum := by
  rw [separatedText, length_flatMap]
  exact sum_le_sum fun part hpart => Nat.succ_le_succ (Part.length_text_le (h part hpart))

lemma sum_limit_le (rule : CustomRecurrenceRule) :
    (rule.canonicalParts.map fun part => part.limit + 1).sum ≤ 505 := by
  obtain ⟨frequency, interval, byDay, byMonthDay, termination⟩ := rule
  simp only [canonicalParts, byDayParts, byMonthDayParts]
  cases termination <;> split_ifs <;> simp [Part.limit, terminationPart]

lemma IsBounded.length_canonical_le (h : rule.IsBounded) : rule.canonical.toList.length ≤ 505 := by
  have hlength := length_separatedText_le h.part
  rw [toList_canonical h.termination, canonicalParts, intercalate_text]
  rw [canonicalParts, separatedText, flatMap_cons, length_append, length_cons] at hlength
  have hsum := sum_limit_le rule
  rw [canonicalParts] at hsum
  rw [length_append, separatedText]
  omega

lemma IsBounded.printable_canonical (h : rule.IsBounded) :
    ∀ c ∈ rule.canonical.toList, 33 ≤ c.toNat ∧ c.toNat ≤ 126 := by
  have htext : ∀ part : Part, ∀ c ∈ part.text, 33 ≤ c.toNat ∧ c.toNat ≤ 126 := by
    intro part c hc
    rcases part.isPlain_text c hc with hpn | rfl
    · exact ⟨hpn.1, hpn.2.1⟩
    · decide
  rw [toList_canonical h.termination, canonicalParts, intercalate_text]
  intro c hc
  rcases mem_append.mp hc with hc | hc
  · exact htext _ c hc
  · obtain ⟨part, -, hc⟩ := mem_flatMap.mp hc
    rcases mem_cons.mp hc with rfl | hc
    · decide
    · exact htext part c hc

/-- **The canonical text of a rule within the bounds parses to the rule.** -/
lemma parseCustomRrule_canonical (h : rule.IsBounded) :
    parseCustomRrule rule.canonical = .ok rule := by
  have hprintable := h.printable_canonical
  have hsize : rule.canonical.utf8ByteSize ≤ maxBytes := by
    have hlen := utf8Len_of_ascii fun c hc => (hprintable c hc).2
    rw [← String.utf8ByteSize_ofList, String.ofList_toList] at hlen
    rw [hlen]
    exact h.length_canonical_le.trans (by decide)
  have hfst : ∃ rest, rule.canonical.toList = 'F' :: rest := by
    have hname : "FREQ".toList = 'F' :: "REQ".toList := by decide
    rw [toList_canonical h.termination, canonicalParts, intercalate_text, Part.text, Part.name,
      hname]
    exact ⟨_, rfl⟩
  have hspl : rule.canonical.toList.splitOn ';' = rule.canonicalParts.map Part.text := by
    rw [toList_canonical h.termination]
    refine splitOn_intercalate ';' ?_ (by simp [canonicalParts])
    intro text htext hmem
    obtain ⟨part, -, rfl⟩ := mem_map.mp htext
    rcases part.isPlain_text ';' hmem with hpn | heq
    · exact hpn.2.2.1 rfl
    · exact absurd heq (by decide)
  obtain ⟨rest, hrest⟩ := hfst
  have hne : rule.canonical.toList ≠ [] := by simp [hrest]
  have hheader : (rule.canonical.toList.take 6).map upper ≠ "RRULE:".toList := by
    rw [hrest]
    intro heq
    have hF := head_eq_of_cons_eq heq
    exact absurd hF (by decide)
  unfold parseCustomRrule
  rw [if_neg hne, if_neg (not_lt.mpr hsize), if_neg, if_neg hheader, if_neg hne, hspl,
    Part.foldlM_addPart h.part (nodup_names rule) fun _ _ => not_mem_nil]
  · exact h.toRule_canonicalParts
  · rw [not_not, all_eq_true]
    intro c hc
    simpa using hprintable c hc

end

/-- **The canonical text is a normal form.** The canonical text of an accepted text is accepted
and stands for the same rule, it is its own canonical text, and two accepted texts have the same
canonical text exactly if they stand for the same rule. -/
theorem canonical_normal_form {text other : String} {rule rule' : CustomRecurrenceRule}
    (h : parseCustomRrule text = .ok rule) (h' : parseCustomRrule other = .ok rule') :
    parseCustomRrule rule.canonical = .ok rule ∧
      canonicalizeCustomRrule rule.canonical = .ok rule.canonical ∧
      (canonicalizeCustomRrule text = canonicalizeCustomRrule other ↔ rule = rule') := by
  have hrule := parseCustomRrule_canonical (isBounded_of_parse h)
  have hrule' := parseCustomRrule_canonical (isBounded_of_parse h')
  refine ⟨hrule, by rw [canonicalizeCustomRrule, hrule]; rfl, ?_⟩
  rw [canonicalizeCustomRrule, canonicalizeCustomRrule, h, h']
  constructor
  · intro heq
    rw [Except.ok.inj heq, hrule'] at hrule
    exact (Except.ok.inj hrule).symm
  · rintro rfl
    rfl

/-- Two spellings of one rule. -/
theorem canonical_normal_form_weekly : parseCustomRrule "rrule:count=3;byday=fr,mo;freq=weekly" =
        parseCustomRrule "FREQ=WEEKLY;INTERVAL=1;BYDAY=MO,FR;COUNT=3" ∧
      canonicalizeCustomRrule "rrule:count=3;byday=fr,mo;freq=weekly" =
        canonicalizeCustomRrule "FREQ=WEEKLY;INTERVAL=1;BYDAY=MO,FR;COUNT=3" := by
  have h : parseCustomRrule "rrule:count=3;byday=fr,mo;freq=weekly" =
      .ok ⟨.weekly, 1, {.monday, .friday}, ∅, .count 3⟩ := by decide +kernel
  have h' : parseCustomRrule "FREQ=WEEKLY;INTERVAL=1;BYDAY=MO,FR;COUNT=3" =
      .ok ⟨.weekly, 1, {.monday, .friday}, ∅, .count 3⟩ := by
    rw [Finset.pair_comm]
    decide +kernel
  exact ⟨h.trans h'.symm, (canonical_normal_form h h').2.2.mpr rfl⟩

end CustomRecurrenceRule

end DayWeave
