import DayWeave.Lib.Decimal
import DayWeave.Lib.Result
import DayWeave.Lib.Text

/-!
Quantities of progress as decimal texts.

A quantity is a whole number of millionths. Between `parseProgressDecimal` and
`formatProgressDecimal` stands `Spelling`, the sign and the digits of a text: canonical spellings
are accepted (`parseProgressDecimal_eq_ok`), and exactly these are written (`isCanonical_spell`,
`spell_amount`).
-/

namespace DayWeave

open Except (require)
open Decimal (pad stripZeros value value_append value_lt)
open List

/-! ### Reading -/

def maxProgressScaledQuantity : Int := 999999999999999999

/-- The number of parts of a unit. -/
def quantityScale : Int := 1000000

inductive ProgressDecimalError where
  | invalidSyntax
  | nonCanonical
  | tooPrecise
  | outOfRange

/-- A number if it fits 64 bits with sign. -/
def checkedI64 (n : Int) : Option Int :=
  if -9223372036854775808 ≤ n ∧ n ≤ 9223372036854775807 then some n else none

def allDigits (l : List Char) : Bool := l.all Char.isDigit

/-- The sign of a text and what follows it. -/
def splitSign (chars : List Char) : Bool × List Char :=
  match chars with
  | '-' :: rest => (true, rest)
  | chars => (false, chars)

/-- What is before the decimal point, and what is after it if there is one. -/
def splitPoint (magnitude : List Char) : List Char × Option (List Char) :=
  match Text.splitOnce '.' magnitude with
  | some (integer, fraction) => (integer, some fraction)
  | none => (magnitude, none)

/-- The digits after the point as millionths. -/
def parseFraction (fraction : Option (List Char)) : Except ProgressDecimalError Int :=
  match fraction with
  | none => .ok 0
  | some digits =>
    match checkedI64 (value digits) with
    | none => .error .invalidSyntax
    | some amount => .ok (amount * 10 ^ (6 - digits.length))

/-- The whole number and the fraction in millionths, up to the largest quantity. -/
def scaledQuantity (whole fractional : Int) : Option Int :=
  ((checkedI64 (whole * quantityScale)).bind fun scaled => checkedI64 (scaled + fractional)).filter
    fun scaled => scaled ≤ maxProgressScaledQuantity

/-- The quantity with the given sign and digits, in millionths. -/
def parseDigits (negative : Bool) (integer : List Char) (fraction : Option (List Char)) :
    Except ProgressDecimalError Int := do
  require (¬ (integer = [] ∨ ¬ allDigits integer ∨
    fraction.any (fun digits => decide (digits = []) || !allDigits digits))) .invalidSyntax
  require (¬ (1 < integer.length ∧ integer.head? = some '0')) .nonCanonical
  require (¬ fraction.any (fun digits => decide (6 < digits.length))) .tooPrecise
  require (¬ fraction.any (fun digits => decide (digits.getLast? = some '0'))) .nonCanonical
  require (¬ 12 < integer.length) .outOfRange
  let whole ← (checkedI64 (value integer)).okOr .outOfRange
  let fractional ← parseFraction fraction
  let scaled ← (scaledQuantity whole fractional).okOr .outOfRange
  require (¬ (negative ∧ scaled = 0)) .nonCanonical
  return if negative then -scaled else scaled

/-- The quantity that a text stands for, in millionths. -/
def parseProgressDecimal (value : String) : Except ProgressDecimalError Int :=
  let (negative, magnitude) := splitSign value.toList
  let (integer, fraction) := splitPoint magnitude
  parseDigits negative integer fraction

/-! ### Writing -/

/-- The magnitude of a number of 64 bits, unless it does not fit. -/
def checkedAbs (n : Int) : Option Int := checkedI64 (if n < 0 then -n else n)

def formatProgressDecimal (scaledMillionths : Int) : Option String :=
  (checkedAbs scaledMillionths).bind fun magnitude =>
    if maxProgressScaledQuantity < magnitude then none
    else
      let integer := (magnitude / quantityScale).toNat
      let fraction := (magnitude % quantityScale).toNat
      let value :=
        if fraction = 0 then Nat.toDigits 10 integer
        else Nat.toDigits 10 integer ++ '.' :: stripZeros (pad 6 fraction)
      some (String.ofList (if scaledMillionths < 0 then '-' :: value else value))

/-! ### Spellings -/

/-- The sign and the digits of a text. -/
@[ext] structure Spelling where
  negative : Bool
  integer : List Char
  fraction : Option (List Char)

namespace Spelling

/-- The point and the digits after it. -/
def fractionText : Option (List Char) → List Char
  | none => []
  | some digits => '.' :: digits

variable (s : Spelling)

/-- The text that is spelled. -/
def text : List Char :=
  (if s.negative then ['-'] else []) ++ (s.integer ++ fractionText s.fraction)

/-- The fraction in millionths. -/
def millionths : ℕ :=
  match s.fraction with
  | none => 0
  | some digits => value digits * 10 ^ (6 - digits.length)

def magnitude : ℕ := value s.integer * 1000000 + s.millionths

/-- The amount that is spelled. -/
def amount : Int := if s.negative then -s.magnitude else s.magnitude

/-- No leading zeros, no zeros at the end of a fraction, and at most twelve digits before and
six digits after the point. -/
structure HasDigits (s : Spelling) : Prop where
  integer : Decimal.IsDigits s.integer
  integer_ne : s.integer ≠ []
  integer_length : s.integer.length ≤ 12
  integer_head : 1 < s.integer.length → s.integer.head? ≠ some '0'
  fraction : ∀ digits ∈ s.fraction, Decimal.IsDigits digits ∧ digits ≠ [] ∧ digits.length ≤ 6 ∧
    digits.getLast? ≠ some '0'

/-- The digits are as they should be, and zero has no sign. -/
def IsCanonical : Prop := s.HasDigits ∧ ¬ (s.negative = true ∧ (s.magnitude : Int) = 0)

end Spelling

open Spelling (fractionText magnitude millionths)

/-- The canonical spelling of a quantity. -/
def spell (n : Int) : Spelling where
  negative := decide (n < 0)
  integer := Nat.toDigits 10 (n.natAbs / 1000000)
  fraction :=
    if n.natAbs % 1000000 = 0 then none
    else some (stripZeros (pad 6 (n.natAbs % 1000000)))

/-- The sign and the digits that a text is split into. -/
def readSpelling (chars : List Char) : Spelling where
  negative := (splitSign chars).1
  integer := (splitPoint (splitSign chars).2).1
  fraction := (splitPoint (splitSign chars).2).2

section

variable {s : Spelling} {n : Int}

lemma splitSign_append (chars : List Char) :
    (if (splitSign chars).1 then ['-'] else []) ++ (splitSign chars).2 = chars := by
  unfold splitSign
  split <;> rfl

lemma splitSign_of_ne {chars : List Char} (h : chars.head? ≠ some '-') :
    splitSign chars = (false, chars) := by
  unfold splitSign
  split
  · exact absurd rfl h
  · rfl

lemma splitPoint_append (magnitude : List Char) :
    (splitPoint magnitude).1 ++ fractionText (splitPoint magnitude).2 = magnitude := by
  unfold splitPoint
  split
  · next integer fraction h => exact (Text.splitOnce_eq_some.mp h).2.symm
  · exact append_nil magnitude

/-- A text is what its parts spell. -/
lemma text_readSpelling (chars : List Char) : (readSpelling chars).text = chars :=
  (congrArg _ (splitPoint_append _)).trans (splitSign_append chars)

/-- The parts of a spelled text are those of the spelling. -/
lemma readSpelling_text (hdig : Decimal.IsDigits s.integer) (hne : s.integer ≠ []) :
    readSpelling s.text = s := by
  obtain ⟨negative, integer, fraction⟩ := s
  have hpoint : '.' ∉ integer := fun h => absurd (hdig _ h) (by decide)
  have hspl : splitPoint (integer ++ fractionText fraction) = (integer, fraction) := by
    unfold splitPoint
    cases fraction with
    | none => simp [fractionText, Text.splitOnce_eq_none.mpr hpoint]
    | some digits =>
      simp only [fractionText, Text.splitOnce_eq_some.mpr ⟨hpoint, rfl⟩]
  have hsign : splitSign (Spelling.text ⟨negative, integer, fraction⟩) =
      (negative, integer ++ fractionText fraction) := by
    cases negative with
    | true => rfl
    | false =>
      refine splitSign_of_ne ?_
      obtain ⟨c, l, rfl⟩ := exists_cons_of_ne_nil hne
      intro hminus
      have hc : c = '-' := Option.some.inj hminus
      exact absurd (hdig c mem_cons_self) (hc ▸ by decide)
  rw [readSpelling, hsign]
  simp only [hspl]

lemma allDigits_iff {l : List Char} : allDigits l = true ↔ Decimal.IsDigits l := all_eq_true

lemma checkedI64_of_le (hlow : 0 ≤ n) (hhigh : n ≤ 9223372036854775807) :
    checkedI64 n = some n := if_pos ⟨by omega, hhigh⟩

section

variable (h : s.HasDigits)

include h

lemma Spelling.HasDigits.millionths_lt : s.millionths < 1000000 := by
  unfold millionths
  split
  · decide
  · next digits hfrac =>
      obtain ⟨hdig, -, hlen, -⟩ := h.fraction digits hfrac
      calc value digits * 10 ^ (6 - digits.length)
          < 10 ^ digits.length * 10 ^ (6 - digits.length) :=
            Nat.mul_lt_mul_of_pos_right (value_lt hdig) (Nat.pow_pos (by decide))
        _ = 1000000 := by rw [← pow_add, Nat.add_sub_cancel' hlen]; rfl

lemma Spelling.HasDigits.integer_lt : value s.integer < 1000000000000 :=
  (value_lt h.integer).trans_le (Nat.pow_le_pow_right (by decide) h.integer_length)

lemma Spelling.HasDigits.magnitude_le : (s.magnitude : Int) ≤ maxProgressScaledQuantity := by
  have hwh := h.integer_lt
  have hfrac := h.millionths_lt
  simp only [magnitude, maxProgressScaledQuantity]
  omega

lemma Spelling.HasDigits.parseFraction_eq :
    parseFraction s.fraction = .ok (s.millionths : Int) := by
  unfold parseFraction millionths
  split
  · rfl
  · next digits hfrac =>
      obtain ⟨hdig, -, hlen, -⟩ := h.fraction digits hfrac
      have hvl := (value_lt hdig).trans_le (Nat.pow_le_pow_right (by decide) hlen)
      rw [checkedI64_of_le (by omega) (by omega)]
      simp

lemma Spelling.HasDigits.scaledQuantity_eq :
    scaledQuantity (value s.integer) s.millionths = some (s.magnitude : Int) := by
  have hwh := h.integer_lt
  have hfrac := h.millionths_lt
  have hle := h.magnitude_le
  simp only [magnitude] at hle ⊢
  simp only [scaledQuantity, quantityScale]
  rw [checkedI64_of_le (by omega) (by omega), Option.bind_some,
    checkedI64_of_le (by omega) (by omega)]
  simpa using hle

end

lemma any_fraction {p : List Char → Bool} :
    ¬ s.fraction.any p = true ↔ ∀ digits ∈ s.fraction, p digits = false := by
  cases s.fraction <;> simp

/-- The first checks are those of the digits. -/
lemma Spelling.hasDigits_iff : s.HasDigits ↔ ¬ (s.integer = [] ∨ ¬ allDigits s.integer ∨
      s.fraction.any (fun digits => decide (digits = []) || !allDigits digits)) ∧
    ¬ (1 < s.integer.length ∧ s.integer.head? = some '0') ∧
    ¬ s.fraction.any (fun digits => decide (6 < digits.length)) ∧
    ¬ s.fraction.any (fun digits => decide (digits.getLast? = some '0')) ∧
    ¬ 12 < s.integer.length := by
  simp only [not_or, not_not, any_fraction, Bool.or_eq_false_iff, decide_eq_false_iff_not,
    Bool.not_eq_false', allDigits_iff, not_lt, not_and]
  constructor
  · intro h
    exact ⟨⟨h.integer_ne, h.integer, fun digits hd => ⟨(h.fraction digits hd).2.1,
      (h.fraction digits hd).1⟩⟩, h.integer_head, fun digits hd => (h.fraction digits hd).2.2.1,
      fun digits hd => (h.fraction digits hd).2.2.2, h.integer_length⟩
  · rintro ⟨⟨hne, hinteger, hfrac⟩, hhead, hsix, hlast, hlen⟩
    exact ⟨hinteger, hne, hlen, hhead, fun digits hd => ⟨(hfrac digits hd).2,
      (hfrac digits hd).1, hsix digits hd, hlast digits hd⟩⟩

lemma parseDigits_eq_ok (s : Spelling) :
    parseDigits s.negative s.integer s.fraction = .ok n ↔ s.IsCanonical ∧ s.amount = n := by
  have hvl : s.HasDigits → checkedI64 (value s.integer) =
      some (value s.integer : Int) := fun h => by
    have := h.integer_lt
    exact checkedI64_of_le (by omega) (by omega)
  simp only [parseDigits, Except.bind_eq_ok, Except.require_eq_ok, Option.okOr_eq_ok, exists_const]
  constructor
  · rintro ⟨hgrammar, hhead, hsix, hlast, hlen, whole, hwh, fractional, hfractional, scaled,
      hscaled, hsign, h⟩
    have hdig : s.HasDigits := Spelling.hasDigits_iff.mpr ⟨hgrammar, hhead, hsix, hlast, hlen⟩
    cases (hvl hdig).symm.trans hwh
    cases hdig.parseFraction_eq.symm.trans hfractional
    cases hdig.scaledQuantity_eq.symm.trans hscaled
    exact ⟨⟨hdig, hsign⟩, Except.ok.inj h⟩
  · rintro ⟨⟨hdig, hsign⟩, rfl⟩
    obtain ⟨hgrammar, hhead, hsix, hlast, hlen⟩ := Spelling.hasDigits_iff.mp hdig
    exact ⟨hgrammar, hhead, hsix, hlast, hlen, _, hvl hdig, _, hdig.parseFraction_eq, _,
      hdig.scaledQuantity_eq, hsign, rfl⟩

end

/-! ### Writing spells canonically -/

section

variable {s : Spelling} {digits : List Char} {n : Int}

/-- The digits of a fraction with the zeros that were left out. -/
lemma pad_millionths (hdig : Decimal.IsDigits digits) (hlen : digits.length ≤ 6) :
    pad 6 (value digits * 10 ^ (6 - digits.length)) =
      digits ++ List.replicate (6 - digits.length) '0' := by
  have hvl : value (digits ++ List.replicate (6 - digits.length) '0') =
      value digits * 10 ^ (6 - digits.length) := by
    rw [value_append, Decimal.value_replicate_zero, length_replicate, Nat.add_zero]
  have hall := hdig.append (Decimal.isDigits_replicate_zero (6 - digits.length))
  have hsix : (digits ++ List.replicate (6 - digits.length) '0').length = 6 := by
    rw [length_append, length_replicate]
    omega
  have hpad := Decimal.pad_value hall (ne_nil_of_length_pos (by omega))
  rwa [hsix, hvl] at hpad

/-- The digits that are left of a fraction of millionths. -/
lemma stripZeros_pad {m : ℕ} (hm : m < 1000000) (hpos : m ≠ 0) :
    Decimal.IsDigits (stripZeros (pad 6 m)) ∧ stripZeros (pad 6 m) ≠ [] ∧
      (stripZeros (pad 6 m)).length ≤ 6 ∧
      value (stripZeros (pad 6 m)) * 10 ^ (6 - (stripZeros (pad 6 m)).length) = m := by
  obtain ⟨k, hk⟩ := Decimal.stripZeros_append (pad 6 m)
  have hlen := congrArg List.length hk
  rw [Decimal.length_pad hm (by decide), length_append, length_replicate] at hlen
  have hvl := congrArg value hk
  rw [Decimal.value_pad, value_append, Decimal.value_replicate_zero, length_replicate,
    Nat.add_zero] at hvl
  refine ⟨fun c hc => Decimal.isDigits_pad 6 m c (hk ▸ mem_append_left _ hc), ?_, by omega, ?_⟩
  · intro hnil
    rw [hnil, Decimal.value_nil, Nat.zero_mul] at hvl
    exact hpos hvl
  · rw [show 6 - (stripZeros (pad 6 m)).length = k by omega, ← hvl]

lemma millionths_spell (n : Int) : (spell n).millionths = n.natAbs % 1000000 := by
  rw [millionths, spell]
  split_ifs with hzero
  · exact hzero.symm
  · exact (stripZeros_pad (Nat.mod_lt _ (by decide)) hzero).2.2.2

lemma magnitude_spell (n : Int) : (spell n).magnitude = n.natAbs := by
  rw [magnitude, millionths_spell]
  show value (Nat.toDigits 10 _) * _ + _ = _
  rw [Decimal.value_toDigits]
  omega

lemma amount_spell (n : Int) : (spell n).amount = n := by
  rw [Spelling.amount, magnitude_spell]
  split_ifs with h
  · have := of_decide_eq_true h
    omega
  · have : ¬ n < 0 := fun hn => h (decide_eq_true hn)
    omega

lemma isCanonical_spell (h : (n.natAbs : Int) ≤ maxProgressScaledQuantity) :
    (spell n).IsCanonical := by
  simp only [maxProgressScaledQuantity] at h
  refine ⟨⟨Decimal.isDigits_toDigits _, Nat.toDigits_ne_nil, ?_, Decimal.head_toDigits _, ?_⟩, ?_⟩
  · exact (Nat.length_toDigits_le_iff (by decide) (by decide)).mpr (by omega)
  · intro digits hdig
    simp only [spell] at hdig
    split_ifs at hdig with hzero
    · cases hdig
    · cases hdig
      obtain ⟨hall, hne, hlen, -⟩ := stripZeros_pad (Nat.mod_lt _ (by decide)) hzero
      exact ⟨hall, hne, hlen, Decimal.getLast?_stripZeros _⟩
  · rw [magnitude_spell]
    rintro ⟨hneg, hzero⟩
    have : n < 0 := of_decide_eq_true hneg
    omega

lemma value_ne_zero (hdig : Decimal.IsDigits digits) (hne : digits ≠ [])
    (hlast : digits.getLast? ≠ some '0') : value digits ≠ 0 := by
  obtain ⟨l, c, rfl⟩ := (eq_nil_or_concat digits).resolve_left hne
  rw [concat_eq_append] at hdig hlast ⊢
  rw [Decimal.value_concat]
  intro hzero
  have hc := Decimal.digitChar_of_isDigit (hdig c (by simp))
  rw [show c.toNat - 48 = 0 by omega] at hc
  exact hlast (by rw [getLast?_concat, ← hc]; rfl)

/-- A canonical spelling is how its amount is spelled. -/
lemma spell_amount (h : s.IsCanonical) : spell s.amount = s := by
  have hfrac := h.1.millionths_lt
  have hmag : s.amount.natAbs = s.magnitude := by
    rw [Spelling.amount]
    split_ifs <;> simp
  have hinteger : s.magnitude / 1000000 = value s.integer := by
    rw [magnitude]
    omega
  have hmillionths : s.magnitude % 1000000 = s.millionths := by
    rw [magnitude]
    omega
  refine Spelling.ext ?_ ?_ ?_
  · have hsign := h.2
    show decide (s.amount < 0) = s.negative
    rw [Spelling.amount]
    split_ifs with hneg
    · simp only [hneg, true_and] at hsign
      rw [hneg, decide_eq_true_eq]
      omega
    · rw [Bool.eq_false_of_not_eq_true hneg, decide_eq_false_iff_not]
      omega
  · simp only [spell]
    rw [hmag, hinteger, Decimal.toDigits_value h.1.integer h.1.integer_ne h.1.integer_head]
  · simp only [spell]
    rw [hmag, hmillionths]
    cases hdig : s.fraction with
    | none => rw [millionths, hdig, if_pos rfl]
    | some digits =>
      obtain ⟨hall, hne, hlen, hlast⟩ := h.1.fraction digits hdig
      have hvl : s.millionths = value digits * 10 ^ (6 - digits.length) := by
        rw [millionths, hdig]
      rw [hvl, if_neg (Nat.mul_ne_zero (value_ne_zero hall hne hlast) (pow_ne_zero _ (by decide))),
        pad_millionths hall hlen, Decimal.stripZeros_of_getLast? hlast]

lemma text_spell (n : Int) : (spell n).text = (if n < 0 then ['-'] else []) ++
      if n.natAbs % 1000000 = 0 then Nat.toDigits 10 (n.natAbs / 1000000)
      else Nat.toDigits 10 (n.natAbs / 1000000) ++
        '.' :: stripZeros (pad 6 (n.natAbs % 1000000)) := by
  simp only [Spelling.text, spell, decide_eq_true_eq]
  split_ifs <;> simp [fractionText]

/-- What is written is the text of the canonical spelling. -/
lemma formatProgressDecimal_eq_some {value : String} : formatProgressDecimal n = some value ↔
      (n.natAbs : Int) ≤ maxProgressScaledQuantity ∧ value.toList = (spell n).text := by
  have habs : (if n < 0 then -n else n) = n.natAbs := by
    split_ifs <;> omega
  rw [formatProgressDecimal, checkedAbs, habs]
  by_cases hrng : (n.natAbs : Int) ≤ maxProgressScaledQuantity
  · have hfits : (n.natAbs : Int) ≤ 9223372036854775807 := by
      simp only [maxProgressScaledQuantity] at hrng
      omega
    have hinteger : ((n.natAbs : Int) / quantityScale).toNat = n.natAbs / 1000000 := by
      simp only [quantityScale]
      omega
    have hfrac : ((n.natAbs : Int) % quantityScale).toNat = n.natAbs % 1000000 := by
      simp only [quantityScale]
      omega
    rw [checkedI64_of_le (Int.natCast_nonneg _) hfits, Option.bind_some, if_neg (not_lt.mpr hrng),
      hinteger, hfrac, text_spell, Option.some.injEq, ← String.toList_inj, String.toList_ofList]
    simp only [hrng, true_and]
    split_ifs <;> simp [eq_comm]
  · simp only [hrng, false_and, iff_false]
    intro h
    obtain ⟨magnitude, hmag, h⟩ := Option.bind_eq_some_iff.mp h
    unfold checkedI64 at hmag
    split_ifs at hmag
    cases hmag
    rw [if_pos (not_le.mp hrng)] at h
    cases h

/-- **Reading and writing quantities are inverse to each other.** Exactly the quantities up to
the largest one are written, and a text is read as a quantity exactly if it is how the quantity
is written. -/
theorem progress_decimal_inverse : (∀ n : Int, (∃ value, formatProgressDecimal n = some value) ↔
      (n.natAbs : Int) ≤ 999999999999999999) ∧
    ∀ (value : String) (n : Int),
      parseProgressDecimal value = .ok n ↔ formatProgressDecimal n = some value := by
  refine ⟨fun n => ⟨?_, fun h => ?_⟩, fun value n => ?_⟩
  · rintro ⟨value, h⟩
    exact (formatProgressDecimal_eq_some.mp h).1
  · exact ⟨String.ofList (spell n).text,
      formatProgressDecimal_eq_some.mpr ⟨h, String.toList_ofList⟩⟩
  · rw [show parseProgressDecimal value = .ok n ↔ _ from
      parseDigits_eq_ok (readSpelling value.toList), formatProgressDecimal_eq_some]
    constructor
    · rintro ⟨hcan, rfl⟩
      rw [spell_amount hcan, text_readSpelling]
      refine ⟨?_, rfl⟩
      have := hcan.1.magnitude_le
      rw [Spelling.amount]
      split_ifs <;> simpa using this
    · rintro ⟨hrng, htext⟩
      have hcan := isCanonical_spell hrng
      rw [htext, readSpelling_text hcan.1.integer hcan.1.integer_ne]
      exact ⟨hcan, amount_spell n⟩

end

end DayWeave
