import Mathlib.Data.List.DropRight
import Mathlib.Data.String.Basic

/-!
Texts: blanks, separators and numbers.

A text that ends with a separator and a part without it determines the part and what is before
(`append_separator_inj`). Numbers in decimal have no other signs than digits and the minus, and
determine the number, also when they are padded with zeros.
-/

namespace Text

open List

variable {α : Type*}

/-- The blanks of Unicode. -/
def isWhitespace (c : Char) : Bool :=
  (9 ≤ c.toNat && c.toNat ≤ 13) || (0x2000 ≤ c.toNat && c.toNat ≤ 0x200a) ||
    c.toNat ∈ [0x20, 0x85, 0xa0, 0x1680, 0x2028, 0x2029, 0x202f, 0x205f, 0x3000]

/-- The control characters. -/
def isControl (c : Char) : Bool := c.toNat < 0x20 || (0x7f ≤ c.toNat && c.toNat < 0xa0)

/-- A text without the blanks at its ends. -/
def trim (text : List Char) : List Char := (text.dropWhile isWhitespace).rdropWhile isWhitespace

section

variable {p : α → Bool} {d l : List α}

/-- What begins a list after the blanks stands in it after blanks. -/
lemma prefix_dropWhile_iff (hne : d ≠ []) (hd : ¬ p (d.head hne)) :
    d <+: l.dropWhile p ↔ ∃ w, w ++ d <+: l ∧ ∀ c ∈ w, p c := by
  constructor
  · rintro ⟨b, hb⟩
    refine ⟨l.takeWhile p, ⟨b, ?_⟩, fun c => mem_takeWhile_imp⟩
    rw [append_assoc, hb, takeWhile_append_dropWhile]
  · rintro ⟨w, ⟨b, rfl⟩, hw⟩
    obtain ⟨c, d, rfl⟩ := exists_cons_of_ne_nil hne
    rw [head_cons] at hd
    rw [append_assoc, dropWhile_append_of_pos hw, cons_append, dropWhile_cons_of_neg hd]
    exact prefix_append (c :: d) b

/-- Dropping blanks at the front leaves the end, as far as it begins with none. -/
lemma suffix_dropWhile_iff (hne : d ≠ []) (hd : ¬ p (d.head hne)) (w : List α) :
    d ++ w <:+ l.dropWhile p ↔ d ++ w <:+ l := by
  refine ⟨fun h => h.trans (dropWhile_suffix p), ?_⟩
  rintro ⟨a, rfl⟩
  obtain ⟨c, d, rfl⟩ := exists_cons_of_ne_nil hne
  rw [head_cons] at hd
  rw [dropWhile_append, cons_append, dropWhile_cons_of_neg hd]
  split
  · exact suffix_rfl
  · exact suffix_append ..

/-- What ends a list before the blanks stands in it before blanks. -/
lemma suffix_rdropWhile_iff (hne : d ≠ []) (hd : ¬ p (d.getLast hne)) :
    d <:+ l.rdropWhile p ↔ ∃ w, d ++ w <:+ l ∧ ∀ c ∈ w, p c := by
  rw [← reverse_prefix, rdropWhile, reverse_reverse,
    prefix_dropWhile_iff (by simpa using hne) (by rwa [head_reverse])]
  constructor
  · rintro ⟨w, h, hw⟩
    refine ⟨w.reverse, ?_, by simpa using hw⟩
    rwa [← reverse_prefix, reverse_append, reverse_reverse]
  · rintro ⟨w, h, hw⟩
    refine ⟨w.reverse, ?_, by simpa using hw⟩
    rwa [← reverse_append, reverse_prefix]

/-- Dropping blanks at the end leaves the front, as far as it ends with none. -/
lemma prefix_rdropWhile_iff (hne : d ≠ []) (hd : ¬ p (d.getLast hne)) :
    d <+: l.rdropWhile p ↔ d <+: l := by
  have h := @suffix_dropWhile_iff _ p d.reverse l.reverse (by simpa using hne)
    (by rwa [head_reverse]) []
  rw [append_nil, reverse_suffix] at h
  rw [← reverse_suffix, rdropWhile, reverse_reverse, h]

end

/-- A text is one line, or a line, a separator and a text. -/
theorem lines_induction [DecidableEq α] (c : α) {motive : List α → Prop}
    (line : ∀ l, c ∉ l → motive l) (more : ∀ l text, c ∉ l → motive text → motive (l ++ c :: text))
    (text : List α) : motive text := by
  induction hlen : text.length using Nat.strong_induction_on generalizing text with
  | h n ih =>
    by_cases hc : c ∈ text
    · obtain ⟨a, b, rfl, ha⟩ := eq_append_cons_of_mem hc
      exact more a b ha (ih b.length (by grind) b rfl)
    · exact line text hc

/-- Two lists agree up to the first place of an element and after it. -/
lemma append_cons_inj {c : α} {x y a b : List α} (hx : c ∉ x) (hy : c ∉ y)
    (h : x ++ c :: a = y ++ c :: b) : x = y ∧ a = b := by
  rcases append_eq_append_iff.mp h with ⟨t, rfl, ht⟩ | ⟨t, rfl, ht⟩ <;> cases t <;> simp_all

/-- The end of a list that does not reach back to an element. -/
lemma suffix_of_notMem {c : α} {d l r : List α} (hc : c ∉ d)
    (h : d <:+ l ++ c :: r) : d <:+ r := by
  rcases suffix_or_suffix_of_suffix h (suffix_append l (c :: r)) with h | h
  · exact (suffix_cons_iff.mp h).resolve_left fun heq => hc (heq ▸ mem_cons_self)
  · exact absurd (h.mem mem_cons_self) hc

/-- The beginning of a list that does not reach an element. -/
lemma prefix_of_notMem {c : α} {d l r : List α} (hc : c ∉ d)
    (h : d <+: l ++ c :: r) : d <+: l := by
  rw [← reverse_suffix] at h ⊢
  rw [reverse_append, reverse_cons, append_assoc] at h
  exact suffix_of_notMem (mt mem_reverse.mp hc) h

lemma intercalate_cons (c : α) (l : List α) (ls : List (List α)) :
    [c].intercalate (l :: ls) = l ++ ls.flatMap (c :: ·) := by
  induction ls generalizing l with
  | nil => simp
  | cons l' ls ih => simp [intercalate_cons_cons, ih]

/-- What is before and after the first place of an element. -/
def splitOnce [DecidableEq α] (c : α) : List α → Option (List α × List α)
  | [] => none
  | d :: l => if d = c then some ([], l) else (splitOnce c l).map fun (a, b) => (d :: a, b)

section

variable [DecidableEq α] {c : α} {l a b : List α}

lemma splitOnce_eq_none : splitOnce c l = none ↔ c ∉ l := by
  induction l with
  | nil => simp [splitOnce]
  | cons d l ih =>
    rw [splitOnce]
    split
    · next h => simp [h]
    · next h => simp [ih, Ne.symm h]

lemma splitOnce_append (h : c ∉ a) : splitOnce c (a ++ c :: b) = some (a, b) := by
  induction a with
  | nil => simp [splitOnce]
  | cons d a ih =>
    obtain ⟨hd, ha⟩ := not_or.mp (mt mem_cons.mpr h)
    simp [splitOnce, Ne.symm hd, ih ha]

lemma splitOnce_eq_some : splitOnce c l = some (a, b) ↔ c ∉ a ∧ l = a ++ c :: b := by
  constructor
  · intro h
    by_cases hc : c ∈ l
    · obtain ⟨a', b', rfl, ha⟩ := eq_append_cons_of_mem hc
      rw [splitOnce_append ha] at h
      cases h
      exact ⟨ha, rfl⟩
    · rw [splitOnce_eq_none.mpr hc] at h
      cases h
  · rintro ⟨ha, rfl⟩
    exact splitOnce_append ha

end

/-- The last part of a text and what is before it. -/
lemma append_separator_inj {separator a b x y : String} {c : Char}
    (hseparator : separator.toList = [c]) (hx : c ∉ x.toList) (hy : c ∉ y.toList)
    (h : a ++ separator ++ x = b ++ separator ++ y) : a = b ∧ x = y := by
  have h := congrArg (fun s : String => s.toList.reverse) h
  simp only [String.toList_append, hseparator, reverse_append, reverse_singleton,
    singleton_append] at h
  obtain ⟨hlast, hfst⟩ := append_cons_inj (by rwa [mem_reverse]) (by rwa [mem_reverse]) h
  exact ⟨String.toList_inj.mp (reverse_inj.mp hfst), String.toList_inj.mp (reverse_inj.mp hlast)⟩

lemma notMem_toString_nat {c : Char} (hc : c.isDigit = false) (n : ℕ) :
    c ∉ (toString n).toList := by
  rw [Nat.toString_eq_repr, Nat.toList_repr]
  intro h
  rw [Nat.isDigit_of_mem_toDigits (by decide) (by decide) h] at hc
  cases hc

lemma zeros_append_inj {i j m n : ℕ} (h : String.ofList (List.replicate i '0') ++ toString m =
      String.ofList (List.replicate j '0') ++ toString n) : m = n := by
  have hvl : ∀ k n : ℕ, Nat.ofDigitChars 10
      (String.ofList (List.replicate k '0') ++ toString n).toList 0 = n := by
    intro k n
    rw [String.toList_append, String.toList_ofList, Nat.ofDigitChars_append,
      Nat.ofDigitChars_replicate_zero, Nat.mul_zero, Nat.toString_eq_repr, Nat.toList_repr,
      Nat.ofDigitChars_toDigits (by decide) (by decide)]
  rw [← hvl i m, ← hvl j n, h]

lemma toString_nat_inj {m n : ℕ} (h : toString m = toString n) : m = n :=
  @zeros_append_inj 0 0 m n (congrArg _ h)

lemma toString_int_inj {m n : ℤ} (h : toString m = toString n) : m = n := by
  have hminus : ∀ k l : ℕ, toString k ≠ "-" ++ toString l := by
    intro k l heq
    refine notMem_toString_nat (show '-'.isDigit = false by decide) k ?_
    rw [heq, String.toList_append]
    exact mem_append_left _ (mem_singleton_self _)
  have hrepr : ∀ n : ℤ, toString n =
      if 0 ≤ n then toString n.toNat else "-" ++ toString (-n).toNat := fun n => Int.repr_eq_if
  rw [hrepr, hrepr] at h
  split_ifs at h
  · have := toString_nat_inj h
    omega
  · exact absurd h (hminus _ _)
  · exact absurd h.symm (hminus _ _)
  · have := toString_nat_inj ((String.append_right_inj "-").mp h)
    omega

lemma notMem_zeros_append {c : Char} (hc : c.isDigit = false) (i n : ℕ) :
    c ∉ (String.ofList (List.replicate i '0') ++ toString n).toList := by
  rw [String.toList_append, mem_append, String.toList_ofList]
  rintro (h | h)
  · rw [eq_of_mem_replicate h] at hc
    exact absurd hc (by decide)
  · exact notMem_toString_nat hc n h

lemma toList_loop (bytes : ByteArray) (i : ℕ) (l : List UInt8) :
    ByteArray.toList.loop bytes i l = l.reverse ++ bytes.data.toList.drop i := by
  fun_induction ByteArray.toList.loop bytes i l with
  | case1 i l h ih =>
    have hi : i < bytes.data.toList.length := by simpa using h
    have hget : bytes.get! i = bytes.data.toList[i] := by
      show bytes.data[i]! = _
      rw [getElem!_pos bytes.data i (by simpa using hi), Array.getElem_toList]
    rw [ih, reverse_cons, append_assoc, singleton_append, hget, ← drop_eq_getElem_cons hi]
  | case2 i l h =>
    rw [drop_eq_nil_of_le (by simpa using h), append_nil]

lemma toUTF8_toList_inj {a b : String} (h : a.toUTF8.toList = b.toUTF8.toList) : a = b := by
  have hdata : ∀ bytes : ByteArray, bytes.toList = bytes.data.toList := fun bytes => by
    rw [ByteArray.toList, toList_loop]
    rfl
  rw [hdata, hdata, Array.toList_inj, ← ByteArray.ext_iff] at h
  exact String.toByteArray_inj.mp h

end Text
