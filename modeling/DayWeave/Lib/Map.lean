import Std.Data.ExtTreeMap
import Mathlib.Data.List.Induction
import Mathlib.Data.List.Nodup
import Mathlib.Data.List.Perm.Subperm

/-!
Ordered maps made of lists.

`ofList` keeps the last value of a key. An entry of the map is one of the list
(`mem_of_getElem?_ofList`); without repeated keys every entry is found
(`getElem?_ofList_of_nodup`), in any order (`ofList_congr_perm`).
-/

namespace Std.ExtTreeMap

variable {α β : Type*} {cmp : α → α → Ordering}

lemma getElem?_ofList_append_singleton [TransCmp cmp] (l : List (α × β)) (p : α × β) (k : α) :
    (ofList (l ++ [p]) cmp)[k]? = if cmp p.1 k = .eq then some p.2 else (ofList l cmp)[k]? := by
  rw [ofList_eq_foldl, List.foldl_append, List.foldl_cons, List.foldl_nil, getElem?_insert,
    ← ofList_eq_foldl]

lemma mem_iff_exists [TransCmp cmp] {m : ExtTreeMap α β cmp} {k : α} :
    k ∈ m ↔ ∃ v, m[k]? = some v :=
  mem_iff_isSome_getElem?.trans Option.isSome_iff_exists

variable [TransCmp cmp] [LawfulEqCmp cmp] {l : List (α × β)} {k : α} {v : β}

lemma mem_of_getElem?_ofList (h : (ofList l cmp)[k]? = some v) : (k, v) ∈ l := by
  induction l using List.reverseRecOn with
  | nil => simp [ofList_eq_foldl] at h
  | append_singleton l p ih =>
    rw [getElem?_ofList_append_singleton] at h
    split at h
    · rename_i hk
      cases h
      rw [← LawfulEqCmp.eq_of_compare hk]
      simp
    · exact List.mem_append_left _ (ih h)

lemma getElem?_ofList_of_nodup (h : (l.map Prod.fst).Nodup) (hmem : (k, v) ∈ l) :
    (ofList l cmp)[k]? = some v :=
  getElem?_ofList_of_mem ReflCmp.compare_self
    ((List.pairwise_map.mp h).imp fun hne heq => hne (LawfulEqCmp.eq_of_compare heq)) hmem

lemma getElem?_ofList_eq_none : (ofList l cmp)[k]? = none ↔ k ∉ l.map Prod.fst := by
  classical rw [getElem?_eq_none_iff, mem_ofList, List.contains_iff_mem]

lemma ofList_congr_perm {l' : List (α × β)} (hperm : l.Perm l') (h : (l.map Prod.fst).Nodup) :
    ofList l cmp = ofList l' cmp := by
  refine ext_getElem? fun {k} => ?_
  cases hk : (ofList l' cmp)[k]? with
  | none =>
    rw [getElem?_ofList_eq_none] at hk ⊢
    exact fun hmem => hk ((hperm.map Prod.fst).mem_iff.mp hmem)
  | some v => exact getElem?_ofList_of_nodup h (hperm.mem_iff.mpr (mem_of_getElem?_ofList hk))

end Std.ExtTreeMap
