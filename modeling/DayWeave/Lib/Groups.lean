import Mathlib.Algebra.GroupWithZero.Nat
import Mathlib.Algebra.Order.BigOperators.Group.List
import Mathlib.Algebra.Order.Group.Nat
import Mathlib.Data.List.Count
import Mathlib.Data.List.Infix

/-!
Lists of rows with optional group labels.

A row without a label is a unit of its own; the rows of a group are meant to stand together
(`Contiguous`) and to stay together when the list is cut (`Cut`). In a contiguous list a cut
between two neighbours that do not share a label parts no group
(`Contiguous.cut_take`).
-/

namespace Groups

open List

variable {γ : Type*} {ids left right rest : List (Option γ)} {g : γ} {n : ℕ}

/-- What stands between two rows of a group belongs to it. -/
def Contiguous (ids : List (Option γ)) : Prop :=
  ∀ g pre mid post, ids = pre ++ mid ++ post → some g ∈ pre → some g ∈ post →
    ∀ id ∈ mid, id = some g

/-- No group has rows on both sides. -/
def Cut (left right : List (Option γ)) : Prop :=
  ∀ g, some g ∈ left → some g ∉ right

namespace Cut

lemma nil_left : Cut ([] : List (Option γ)) right := fun _ => nofun

lemma nil_right : Cut left ([] : List (Option γ)) := fun _ _ => nofun

lemma append_right (h : Cut left right) (hrest : Cut (left ++ right) rest) :
    Cut left (right ++ rest) := by
  intro g hg hin
  rcases mem_append.mp hin with hin | hin
  · exact h g hg hin
  · exact hrest g (mem_append_left _ hg) hin

lemma append_left (h : Cut right rest) (hleft : Cut left (right ++ rest)) :
    Cut (left ++ right) rest := by
  intro g hg hin
  rcases mem_append.mp hg with hg | hg
  · exact hleft g hg (mem_append_right _ hin)
  · exact h g hg hin

end Cut

namespace Contiguous

lemma sublist (h : Contiguous ids) (hsub : left.Sublist ids) : Contiguous left := by
  rintro g pre mid post rfl hpre hpost id hid
  obtain ⟨_, c, rfl, hsub, hc⟩ := append_sublist_iff.mp hsub
  obtain ⟨a, b, rfl, ha, hb⟩ := append_sublist_iff.mp hsub
  exact h g a b c rfl (ha.subset hpre) (hc.subset hpost) id (hb.subset hid)

/-- Between neighbours of different groups, or without a group, a list can be cut. -/
lemma cut_of_ne {id : Option γ} (h : Contiguous (left ++ id :: right))
    (hne : ∀ g, id = some g → right.head? ≠ some (some g)) : Cut (left ++ [id]) right := by
  intro g hleft hrgt
  have hid : id = some g := by
    rcases mem_append.mp hleft with hin | hin
    · exact h g left [id] right (by simp) hin hrgt id (mem_singleton_self id)
    · exact (mem_singleton.mp hin).symm
  cases right with
  | nil => cases hrgt
  | cons next rest =>
    have hnext : next ≠ some g := fun heq => hne g hid (by rw [heq, head?_cons])
    have hrest := (mem_cons.mp hrgt).resolve_left (Ne.symm hnext)
    exact hnext (h g (left ++ [id]) [next] rest (by simp) hleft hrest next
      (mem_singleton_self next))

lemma cut_take (h : Contiguous ids) {id : Option γ} (hid : ids[n]? = some id)
    (hne : ∀ g, id = some g → ids[n + 1]? ≠ some (some g)) :
    Cut (ids.take (n + 1)) (ids.drop (n + 1)) := by
  have hspl : ids = ids.take n ++ id :: ids.drop (n + 1) := by
    obtain ⟨hn, rfl⟩ := List.getElem?_eq_some_iff.mp hid
    rw [getElem_cons_drop, take_append_drop]
  have htake : ids.take (n + 1) = ids.take n ++ [id] := by
    rw [take_add_one, hid, Option.toList_some]
  rw [htake]
  refine cut_of_ne (hspl ▸ h) fun g hg => ?_
  rw [head?_drop]
  exact hne g hg

end Contiguous

lemma contiguous_nil : Contiguous ([] : List (Option γ)) := by
  intro g pre mid post h hpre
  simp_all

/-- A row in front opens a group of its own or belongs to the first one. -/
lemma contiguous_cons {id : Option γ} : Contiguous (id :: ids) ↔
    Contiguous ids ∧ (id.isSome = true → id ∈ ids → ids.head? = some id) := by
  constructor
  · refine fun h => ⟨h.sublist (sublist_cons_self _ _), fun hsome hin => ?_⟩
    obtain ⟨g, rfl⟩ := Option.isSome_iff_exists.mp hsome
    cases ids with
    | nil => cases hin
    | cons next rest =>
      rcases mem_cons.mp hin with rfl | hrest
      · rfl
      · have hnext := h g [some g] [next] rest rfl mem_cons_self hrest next mem_cons_self
        rw [hnext, head?_cons]
  · rintro ⟨h, hid⟩ g pre mid post heq hpre hpost row hrow
    cases pre with
    | nil => cases hpre
    | cons first pre =>
      obtain ⟨rfl, rfl⟩ := cons.inj heq
      rcases mem_cons.mp hpre with rfl | hpre
      · -- the rows behind begin with one of the group
        have hhead := hid rfl (mem_append_right _ hpost)
        cases pre with
        | cons next pre =>
          cases hhead
          exact h g (some g :: pre) mid post rfl mem_cons_self hpost row hrow
        | nil =>
          cases mid with
          | nil => cases hrow
          | cons next mid =>
            cases hhead
            rcases mem_cons.mp hrow with rfl | hrow
            · rfl
            · exact h g [some g] mid post rfl mem_cons_self hpost row hrow
      · exact h g pre mid post rfl hpre hpost row hrow

instance decidableContiguous [DecidableEq γ] : (ids : List (Option γ)) → Decidable (Contiguous ids)
  | [] => .isTrue contiguous_nil
  | _ :: ids =>
    have := decidableContiguous ids
    decidable_of_iff _ contiguous_cons.symm

section

variable {α : Type*} [DecidableEq α] {l : List α} {x : α}

/-- The length of the run of `x` at the front of a list. -/
def run (x : α) (l : List α) : ℕ := l.findIdx fun y => decide (y ≠ x)

lemma run_le_length : run x l ≤ l.length := findIdx_le_length

lemma getElem?_of_lt_run {i : ℕ} (h : i < run x l) : l[i]? = some x := by
  have hlen : i < l.length := lt_of_lt_of_le h run_le_length
  have hnot := not_of_lt_findIdx h
  rw [getElem?_eq_getElem hlen, Option.some.injEq]
  simpa using hnot

lemma getElem?_run_ne : l[run x l]? ≠ some x := by
  intro heq
  obtain ⟨hlt, hx⟩ := List.getElem?_eq_some_iff.mp heq
  exact of_decide_eq_true (findIdx_getElem (w := hlt)) hx

lemma run_le_count [BEq α] [LawfulBEq α] : run x l ≤ l.count x := by
  induction l with
  | nil => exact Nat.zero_le _
  | cons y rest ih =>
    rw [run, findIdx_cons, count_cons]
    by_cases h : y = x
    · simpa [h, run] using ih
    · simp [h]

lemma mem_take_run {y : α} (h : y ∈ l.take (run x l)) : y = x := by
  obtain ⟨i, hi, rfl⟩ := mem_take_iff_getElem.mp h
  have hrun := getElem?_of_lt_run (lt_of_lt_of_le hi (min_le_left ..))
  exact (List.getElem?_eq_some_iff.mp hrun).2

lemma run_take : run x (l.take n) = min n (run x l) := findIdx_take

end

/-- No group is parted behind the run that follows a position. -/
lemma Contiguous.cut_run [DecidableEq γ] (h : Contiguous ids) (hid : ids[n]? = some (some g)) :
    Cut (ids.take (n + run (some g) (ids.drop (n + 1)) + 1))
      (ids.drop (n + run (some g) (ids.drop (n + 1)) + 1)) := by
  set m := run (some g) (ids.drop (n + 1)) with hm
  have hend : ids[n + m]? = some (some g) := by
    cases hrun : m with
    | zero => exact hid
    | succ i =>
      have := getElem?_of_lt_run (show i < run (some g) (ids.drop (n + 1)) by omega)
      rwa [getElem?_drop, Nat.add_right_comm, Nat.add_assoc] at this
  refine h.cut_take hend fun g' hg => ?_
  cases hg
  have := getElem?_run_ne (x := some g) (l := ids.drop (n + 1))
  rwa [getElem?_drop, ← hm, Nat.add_right_comm] at this

/-- The rows of a group are one run. -/
lemma Contiguous.exists_run [DecidableEq γ] (h : Contiguous ids) (hg : some g ∈ ids) :
    ∃ pre n post, ids = pre ++ List.replicate (n + 1) (some g) ++ post ∧
      some g ∉ pre ∧ some g ∉ post := by
  obtain ⟨pre, rest, rfl, hpre⟩ := eq_append_cons_of_mem hg
  set n := run (some g) rest
  have hrun : rest.take n = List.replicate n (some g) := by
    refine eq_replicate_iff.mpr ⟨?_, fun id hid => mem_take_run hid⟩
    rw [length_take]
    exact min_eq_left run_le_length
  have hspl : pre ++ some g :: rest = pre ++ List.replicate (n + 1) (some g) ++ rest.drop n := by
    rw [replicate_succ, append_assoc, cons_append, ← hrun, take_append_drop]
  refine ⟨pre, n, rest.drop n, hspl, hpre, fun hin => ?_⟩
  -- the row after the run is not of the group, but rows on both sides of it are
  cases hdrop : rest.drop n with
  | nil =>
    rw [hdrop] at hin
    cases hin
  | cons next others =>
    have hnext : next ≠ some g := by
      rintro rfl
      refine getElem?_run_ne (x := some g) (l := rest) ?_
      have := head?_drop (l := rest) (i := n)
      rw [hdrop, head?_cons] at this
      exact this.symm
    rw [hdrop] at hin
    have hothers := (mem_cons.mp hin).resolve_left (Ne.symm hnext)
    refine hnext (h g (pre ++ List.replicate (n + 1) (some g)) [next] others ?_ ?_ hothers next
      (mem_singleton_self next))
    · rw [hspl, hdrop]
      simp
    · exact mem_append_right _ (mem_replicate.mpr ⟨n.succ_ne_zero, rfl⟩)

section

variable [DecidableEq γ] {rows rows' : List (Option γ × ℕ)}

/-- The weight of a group. -/
def weight (rows : List (Option γ × ℕ)) (g : γ) : ℕ :=
  ((rows.filter fun row => row.1 = some g).map Prod.snd).sum

lemma weight_le_of_sublist (h : rows.Sublist rows') : weight rows g ≤ weight rows' g :=
  List.Sublist.sum_le_sum ((h.filter _).map _) fun _ _ => Nat.zero_le _

lemma weight_append : weight (rows ++ rows') g = weight rows g + weight rows' g := by
  simp [weight]

lemma weight_eq_sum (h : ∀ row ∈ rows, row.1 = some g) :
    weight rows g = (rows.map Prod.snd).sum := by
  rw [weight, filter_eq_self.mpr fun row hrow => decide_eq_true (h row hrow)]

end

end Groups
