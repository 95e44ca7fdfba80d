import Mathlib.Data.List.Sort

/-!
Spreading things evenly over places.

When `t` things are spread over `n` places the thing number `x` goes to the place number
`x * n / t`. The things of a place are consecutive: they are those from `first t n i` up
to `first t n (i + 1)` (`place_eq_iff`, `filter_range`).
-/

namespace Share

variable {t n i x : ℕ}

/-- The number of the first thing in a place. -/
def first (t n i : ℕ) : ℕ := (i * t + (n - 1)) / n

/-- The position of a thing in its place. -/
def position (t n x : ℕ) : ℕ := x - first t n (x * n / t)

/-- The number of things in the place of a thing. -/
def count (t n x : ℕ) : ℕ := first t n (x * n / t + 1) - first t n (x * n / t)

lemma first_le_iff (hn : 0 < n) : first t n i ≤ x ↔ i * t ≤ x * n := by
  rw [first, ← Nat.lt_succ_iff, Nat.div_lt_iff_lt_mul hn, Nat.succ_mul]
  omega

/-- The things of a place are consecutive. -/
lemma place_eq_iff (hn : 0 < n) (ht : 0 < t) :
    x * n / t = i ↔ first t n i ≤ x ∧ x < first t n (i + 1) := by
  rw [first_le_iff hn, ← Nat.not_le, first_le_iff hn, Nat.not_le, Nat.succ_mul]
  rw [Nat.div_eq_iff ht]
  omega

lemma place_lt (ht : 0 < t) (hn : 0 < n) (hx : x < t) : x * n / t < n := by
  rw [Nat.div_lt_iff_lt_mul ht, Nat.mul_comm n t]
  exact Nat.mul_lt_mul_of_pos_right hx hn

lemma first_le (hn : 0 < n) (hi : i ≤ n) : first t n i ≤ t := by
  rw [first_le_iff hn, Nat.mul_comm t n]
  exact Nat.mul_le_mul_right t hi

lemma first_eq (hn : 0 < n) : first t n i = i * (t / n) + (i * (t % n) + (n - 1)) / n := by
  have ht : i * t = n * (i * (t / n)) + i * (t % n) := by
    rw [Nat.mul_left_comm, ← Nat.mul_add, Nat.div_add_mod]
  rw [first, ht, Nat.add_assoc, Nat.mul_add_div hn]

/-- The places get equally many things, up to one. -/
lemma first_succ_sub_first (hn : 0 < n) : first t n (i + 1) - first t n i = t / n ∨
      first t n (i + 1) - first t n i = (t + (n - 1)) / n := by
  have hceil : (t + (n - 1)) / n = t / n + (t % n + (n - 1)) / n := by
    simpa [first] using first_eq (i := 1) hn
  have hlt : t % n < n := Nat.mod_lt t hn
  rw [first_eq hn, first_eq hn, Nat.succ_mul, Nat.succ_mul, hceil]
  generalize t % n = r, t / n = q at *
  have hlow : (i * r + (n - 1)) / n ≤ (i * r + r + (n - 1)) / n := Nat.div_le_div_right (by omega)
  have hhigh : (i * r + r + (n - 1)) / n ≤ (i * r + (n - 1)) / n + 1 := by
    rw [← Nat.add_div_right _ hn]
    exact Nat.div_le_div_right (by omega)
  rcases Nat.eq_zero_or_pos r with rfl | hr
  · simp only [Nat.mul_zero, Nat.add_zero]
    omega
  · have hone : (r + (n - 1)) / n = 1 := Nat.div_eq_of_lt_le (by omega) (by omega)
    generalize (i * r + (n - 1)) / n = a, (i * r + r + (n - 1)) / n = b at *
    omega

lemma position_lt_count (hn : 0 < n) (ht : 0 < t) : position t n x < count t n x := by
  obtain ⟨hle, hlt⟩ := (place_eq_iff hn ht).mp (rfl : x * n / t = x * n / t)
  unfold position count
  omega

/-- **The things of a place**, in order. -/
theorem filter_range (ht : 0 < t) (hi : i < n) : (List.range t).filter (fun x => x * n / t = i) =
      List.range' (first t n i) (first t n (i + 1) - first t n i) := by
  have hn : 0 < n := Nat.zero_lt_of_lt hi
  -- two ascending lists with the same elements
  refine (List.pairwise_lt_range.sublist List.filter_sublist).eq_of_mem_iff
    (List.pairwise_lt_range' 1) fun x => ?_
  have hle : first t n (i + 1) ≤ t := first_le hn hi
  rw [List.mem_filter, List.mem_range, decide_eq_true_eq, place_eq_iff hn ht, List.mem_range'_1]
  omega

lemma getElem?_filter_range (ht : 0 < t) (hn : 0 < n) (hx : x < t) :
    ((List.range t).filter fun y => y * n / t = x * n / t)[position t n x]? = some x := by
  have hpos := position_lt_count (x := x) hn ht
  rw [filter_range ht (place_lt ht hn hx)]
  refine (List.getElem?_range' hpos).trans ?_
  have := ((place_eq_iff hn ht).mp (rfl : x * n / t = _)).1
  unfold position
  congr 1
  omega

end Share
