import Mathlib.Algebra.GroupWithZero.Nat
import Mathlib.Data.Nat.Basic
import Mathlib.Order.Basic
import Mathlib.Tactic.Common

/-!
Saturating arithmetic of fixed-width unsigned integers.

The operations clamp at the largest value of the type. Each is characterised by its value as a
natural number (`toNat_satAdd`, `toNat_satSub`, `toNat_clamp`), for `omega` after `simp`.
-/

namespace UInt32

/-- The largest value not above `n`. -/
def clamp (n : ℕ) : UInt32 := UInt32.ofNat (min n 4294967295)

/-- The addition that stops at the largest value. -/
def satAdd (a b : UInt32) : UInt32 := clamp (a.toNat + b.toNat)

def satSub (a b : UInt32) : UInt32 := clamp (a.toNat - b.toNat)

/-- The sum of a list, wrapping at the width. -/
def wrapSum (l : List UInt32) : UInt32 := l.foldl (· + ·) 0

@[simp] lemma toNat_clamp (n : ℕ) : (clamp n).toNat = min n 4294967295 := by
  rw [clamp, UInt32.toNat_ofNat_of_lt']
  simp only [UInt32.size]
  omega

@[simp] lemma toNat_satAdd (a b : UInt32) :
    (a.satAdd b).toNat = min (a.toNat + b.toNat) 4294967295 := toNat_clamp _

@[simp] lemma toNat_satSub (a b : UInt32) : (a.satSub b).toNat = a.toNat - b.toNat := by
  have h := a.toNat_lt
  rw [satSub, toNat_clamp]
  omega

lemma toNat_wrapSum (l : List UInt32) :
    (wrapSum l).toNat = (l.map UInt32.toNat).sum % 4294967296 := by
  have hfold : ∀ a : UInt32, (l.foldl (· + ·) a).toNat =
      (a.toNat + (l.map UInt32.toNat).sum) % 4294967296 := by
    induction l with
    | nil => exact fun a => (Nat.mod_eq_of_lt a.toNat_lt).symm
    | cons b rest ih =>
      intro a
      rw [List.foldl_cons, ih, List.map_cons, List.sum_cons, UInt32.toNat_add]
      omega
  rw [wrapSum, hfold]
  simp

/-- A sum that does not wrap is zero only if all summands are. -/
lemma eq_zero_of_wrapSum_eq_zero {l : List UInt32} (h : wrapSum l = 0)
    (hwrap : (l.map UInt32.toNat).sum < 4294967296) : ∀ a ∈ l, a = 0 := by
  intro a ha
  have hsum : (l.map UInt32.toNat).sum = 0 := by
    rw [← Nat.mod_eq_of_lt hwrap, ← toNat_wrapSum, h]
    rfl
  exact UInt32.toNat_inj.mp (List.sum_eq_zero_iff_forall_eq_nat.mp hsum _ (List.mem_map_of_mem ha))

end UInt32

namespace UInt64

/-- The largest value not above `n`. -/
def clamp (n : ℕ) : UInt64 := UInt64.ofNat (min n 18446744073709551615)

/-- The addition that stops at the largest value. -/
def satAdd (a b : UInt64) : UInt64 := clamp (a.toNat + b.toNat)

def satSub (a b : UInt64) : UInt64 := clamp (a.toNat - b.toNat)

/-- The multiplication that stops at the largest value. -/
def satMul (a b : UInt64) : UInt64 := clamp (a.toNat * b.toNat)

end UInt64
