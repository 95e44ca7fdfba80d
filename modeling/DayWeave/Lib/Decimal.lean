import Mathlib.Data.List.DropRight
import Mathlib.Tactic.Ring

/-!
Numbers written with decimal digits, as lists of characters.

Digits of one length and their `value` determine each other (`eq_of_value_eq`), so `pad`, which
fills up with leading zeros, and `value` undo each other (`pad_value`). Without leading zeros the
length is not needed (`toDigits_value`). `stripZeros` takes the zeros off the end.
-/

namespace Decimal

open List

def IsDigits (l : List Char) : Prop := ∀ c ∈ l, c.isDigit = true

/-- The number that a list of digits stands for. -/
def value (l : List Char) : ℕ := Nat.ofDigitChars 10 l 0

/-- The digits of a number with leading zeros up to the width. -/
def pad (width n : ℕ) : List Char :=
  List.replicate (width - (Nat.toDigits 10 n).length) '0' ++ Nat.toDigits 10 n

def stripZeros (l : List Char) : List Char := l.rdropWhile (· = '0')

variable {c : Char}

lemma toNat_of_isDigit (h : c.isDigit = true) : 48 ≤ c.toNat ∧ c.toNat ≤ 57 := by
  simp only [Char.isDigit, Bool.and_eq_true, decide_eq_true_eq] at h
  exact ⟨UInt32.le_iff_toNat_le.mp h.1, UInt32.le_iff_toNat_le.mp h.2⟩

lemma digitChar_of_isDigit (h : c.isDigit = true) : (c.toNat - 48).digitChar = c := by
  obtain ⟨hlow, hhigh⟩ := toNat_of_isDigit h
  refine Char.toNat_inj.mp ?_
  rw [Nat.toNat_digitChar_of_lt_ten (by omega)]
  omega

lemma sub_lt_of_isDigit (h : c.isDigit = true) : c.toNat - 48 < 10 := by
  have := toNat_of_isDigit h
  omega

variable {l m : List Char}

lemma IsDigits.append (hl : IsDigits l) (hm : IsDigits m) : IsDigits (l ++ m) :=
  fun c hc => (mem_append.mp hc).elim (hl c) (hm c)

lemma isDigits_replicate_zero (k : ℕ) : IsDigits (List.replicate k '0') :=
  fun c hc => by rw [eq_of_mem_replicate hc]; rfl

lemma isDigits_toDigits (n : ℕ) : IsDigits (Nat.toDigits 10 n) :=
  fun _ hc => Nat.isDigit_of_mem_toDigits (by decide) (by decide) hc

@[simp] lemma value_nil : value [] = 0 := rfl

@[simp] lemma value_concat : value (l ++ [c]) = 10 * value l + (c.toNat - 48) := by
  rw [value, Nat.ofDigitChars_append]
  rfl

@[simp] lemma value_replicate_zero (k : ℕ) : value (List.replicate k '0') = 0 := by
  rw [value, Nat.ofDigitChars_replicate_zero, Nat.mul_zero]

@[simp] lemma value_toDigits (n : ℕ) : value (Nat.toDigits 10 n) = n :=
  Nat.ofDigitChars_toDigits (by decide) (by decide)

lemma value_append : value (l ++ m) = value l * 10 ^ m.length + value m := by
  induction m using List.reverseRecOn with
  | nil => simp
  | append_singleton m c ih =>
    rw [← append_assoc, value_concat, ih, value_concat, length_append, length_singleton, pow_succ]
    ring

lemma value_lt (h : IsDigits l) : value l < 10 ^ l.length := by
  induction l using List.reverseRecOn with
  | nil => decide
  | append_singleton l c ih =>
    have hl := ih fun d hd => h d (mem_append_left _ hd)
    have hc := sub_lt_of_isDigit (h c (by simp))
    rw [value_concat, length_append, length_singleton, pow_succ]
    omega

/-- Digits of one length are determined by their value. -/
lemma eq_of_value_eq (hl : IsDigits l) (hm : IsDigits m) (hlen : l.length = m.length)
    (hvl : value l = value m) : l = m := by
  induction l using List.reverseRecOn generalizing m with
  | nil => exact (length_eq_zero_iff.mp hlen.symm).symm
  | append_singleton l c ih =>
    -- The last digit is the value modulo ten, the ones before it are the quotient.
    obtain ⟨m, d, rfl⟩ := (eq_nil_or_concat m).resolve_left (by rintro rfl; simp at hlen)
    rw [concat_eq_append] at hm hvl hlen ⊢
    have hc := hl c (by simp)
    have hd := hm d (by simp)
    have hc' := sub_lt_of_isDigit hc
    have hd' := sub_lt_of_isDigit hd
    rw [value_concat, value_concat] at hvl
    have hlast : c = d := by
      rw [← digitChar_of_isDigit hc, ← digitChar_of_isDigit hd,
        show c.toNat - 48 = d.toNat - 48 by omega]
    rw [hlast, ih (fun e he => hl e (mem_append_left _ he))
      (fun e he => hm e (mem_append_left _ he)) (by simpa using hlen) (by omega)]

variable {width n : ℕ}

lemma isDigits_pad (width n : ℕ) : IsDigits (pad width n) :=
  (isDigits_replicate_zero _).append (isDigits_toDigits n)

@[simp] lemma value_pad (width n : ℕ) : value (pad width n) = n := by
  rw [pad, value_append, value_replicate_zero, value_toDigits, Nat.zero_mul, Nat.zero_add]

lemma length_pad (h : n < 10 ^ width) (hwidth : 0 < width) : (pad width n).length = width := by
  have := (Nat.length_toDigits_le_iff (by decide : 1 < 10) hwidth).mpr h
  rw [pad, length_append, length_replicate]
  omega

lemma pad_value (h : IsDigits l) (hl : l ≠ []) : pad l.length (value l) = l :=
  eq_of_value_eq (isDigits_pad _ _) h (length_pad (value_lt h) (length_pos_iff.mpr hl))
    (value_pad _ _)

lemma toDigits_ofDigitChars_append (h : IsDigits l) (hn : 0 < n) :
    Nat.toDigits 10 (Nat.ofDigitChars 10 l n) = Nat.toDigits 10 n ++ l := by
  induction l generalizing n with
  | nil => simp
  | cons c l ih =>
    have hc := h c (by simp)
    have hdigit := sub_lt_of_isDigit hc
    have hnext : 0 < 10 * n + (c.toNat - 48) := by omega
    have hstep := Nat.toDigits_append_toDigits (by decide : 1 < 10) hn hdigit
    rw [Nat.ofDigitChars_cons, show '0'.toNat = 48 from rfl,
      ih (fun d hd => h d (mem_cons_of_mem _ hd)) hnext, ← hstep,
      Nat.toDigits_of_lt_base hdigit, digitChar_of_isDigit hc, append_assoc,
      singleton_append]

lemma toDigits_value (h : IsDigits l) (hl : l ≠ []) (hzero : 1 < l.length → l.head? ≠ some '0') :
    Nat.toDigits 10 (value l) = l := by
  obtain ⟨c, l, rfl⟩ := exists_cons_of_ne_nil hl
  have hc := h c (by simp)
  have hdigit := sub_lt_of_isDigit hc
  have hvl : value (c :: l) = Nat.ofDigitChars 10 l (c.toNat - 48) := by
    rw [value, Nat.ofDigitChars_cons, Nat.mul_zero, Nat.zero_add]
    rfl
  cases l with
  | nil =>
    rw [hvl, Nat.ofDigitChars_nil, Nat.toDigits_of_lt_base hdigit, digitChar_of_isDigit hc]
  | cons d l =>
    have hpos : 0 < c.toNat - 48 := by
      refine Nat.pos_of_ne_zero fun h0 => hzero (by simp) ?_
      rw [head?_cons, ← digitChar_of_isDigit hc, h0]
      rfl
    rw [hvl, toDigits_ofDigitChars_append (fun e he => h e (mem_cons_of_mem _ he)) hpos,
      Nat.toDigits_of_lt_base hdigit, digitChar_of_isDigit hc, singleton_append]

lemma head_toDigits (n : ℕ) (h : 1 < (Nat.toDigits 10 n).length) :
    (Nat.toDigits 10 n).head? ≠ some '0' := by
  -- With a leading zero the value would have fewer digits.
  intro hzero
  obtain ⟨l, hl⟩ := head?_eq_some_iff.mp hzero
  have hdig : IsDigits l := fun c hc => isDigits_toDigits n c (hl ▸ mem_cons_of_mem _ hc)
  have hvl : n = value l := by
    have := value_toDigits n
    rw [hl, ← singleton_append, value_append] at this
    simpa [value, Nat.ofDigitChars_cons] using this.symm
  rw [hl, length_cons] at h
  have hshort := (Nat.length_toDigits_le_iff (by decide : 1 < 10) (by omega)).mpr
    (hvl ▸ value_lt hdig)
  rw [hl, length_cons] at hshort
  omega

lemma stripZeros_append (l : List Char) : ∃ k, l = stripZeros l ++ List.replicate k '0' := by
  refine ⟨(l.rtakeWhile (· = '0')).length, ?_⟩
  have hzeros : l.rtakeWhile (· = '0') = List.replicate (l.rtakeWhile (· = '0')).length '0' :=
    eq_replicate_iff.mpr ⟨rfl, fun c hc => by simpa using mem_rtakeWhile_imp hc⟩
  rw [← hzeros, stripZeros, rdropWhile_append_rtakeWhile]

lemma getLast?_stripZeros (l : List Char) : (stripZeros l).getLast? ≠ some '0' := by
  intro h
  obtain ⟨hne, hlast⟩ := mem_getLast?_eq_getLast h
  exact rdropWhile_last_not _ l hne (decide_eq_true hlast.symm)

lemma stripZeros_of_getLast? (h : l.getLast? ≠ some '0') (k : ℕ) :
    stripZeros (l ++ List.replicate k '0') = l := by
  induction k with
  | zero =>
    rw [replicate_zero, append_nil, stripZeros, rdropWhile_eq_self_iff]
    intro hl hzero
    exact h (by rw [getLast?_eq_some_getLast hl, of_decide_eq_true hzero])
  | succ k ih =>
    rw [replicate_succ', ← append_assoc, stripZeros, rdropWhile_concat_pos _ _ _ (by simp)]
    exact ih

end Decimal
