import Mathlib.Data.Set.Card
import DayWeave.Lib.Acyclic

/-!
Counting the descendants of a node.

In a relation without cycles in which every node has at most one parent, the descendants of
a node are its children and the descendants of its children, and no node is counted for two
of them (`ncard_descendants`).
-/

namespace Relation

variable {α : Type*} {r : α → α → Prop}

/-- Two ancestors of one node lie on one line. -/
lemma eq_of_common_descendant (huniq : Relator.RightUnique r) (hacyc : Acyclic r) {x c d n : α}
    (hc : r c n) (hd : r d n) (hxc : ReflTransGen r x c) (hxd : ReflTransGen r x d) : c = d := by
  -- of two different children of `n`, the lower one would have `n` below the upper one
  have hline : ∀ {c d : α}, r c n → r d n → ReflTransGen r c d → c = d := by
    intro c d hc hd hcd
    rcases hcd.cases_head with heq | ⟨p, hp, hpd⟩
    · exact heq
    · rw [huniq hp hc] at hpd
      exact (hacyc n (TransGen.tail' hpd hd)).elim
  rcases ReflTransGen.total_of_right_unique huniq hxc hxd with hcd | hdc
  · exact hline hc hd hcd
  · exact (hline hd hc hdc).symm

/-- **Descendants** are counted by children. -/
theorem ncard_descendants (huniq : Relator.RightUnique r) (hacyc : Acyclic r) {V : Finset α}
    (hV : ∀ a b, r a b → a ∈ V) {children : α → Finset α} (hchn : ∀ p c, c ∈ children p ↔ r c p)
    (K : α → Prop) [DecidablePred K] (n : α) : {x | TransGen r x n ∧ K x}.ncard =
      ∑ c ∈ children n, ({x | TransGen r x c ∧ K x}.ncard + if K c then 1 else 0) := by
  classical
  have hcoe : ∀ m, {x | TransGen r x m ∧ K x} =
      ((V.filter fun x => TransGen r x m ∧ K x : Finset α) : Set α) := fun m => by
    ext x
    simp only [Set.mem_ofPred_eq, Finset.coe_filter, iff_and_self]
    rintro ⟨hdesc, -⟩
    obtain ⟨b, hb, -⟩ := TransGen.head'_iff.mp hdesc
    exact hV _ _ hb
  simp only [hcoe, Set.ncard_coe_finset]
  have hunion : (V.filter fun x => TransGen r x n ∧ K x) =
      (children n).biUnion fun c => V.filter fun x => ReflTransGen r x c ∧ K x := by
    ext x
    simp only [Finset.mem_filter, Finset.mem_biUnion, hchn]
    constructor
    · rintro ⟨hx, hdesc, hK⟩
      obtain ⟨c, hxc, hc⟩ := TransGen.tail'_iff.mp hdesc
      exact ⟨c, hc, hx, hxc, hK⟩
    · rintro ⟨c, hc, hx, hxc, hK⟩
      exact ⟨hx, TransGen.tail' hxc hc, hK⟩
  rw [hunion, Finset.card_biUnion]
  · refine Finset.sum_congr rfl fun c hc => ?_
    -- the child itself, and its own descendants
    have hspl : (V.filter fun x => ReflTransGen r x c ∧ K x) =
        (V.filter fun x => TransGen r x c ∧ K x) ∪ if K c then {c} else ∅ := by
      ext x
      simp only [Finset.mem_union, Finset.mem_filter, reflTransGen_iff_eq_or_transGen]
      constructor
      · rintro ⟨hx, rfl | hdesc, hK⟩
        · exact .inr (by rw [if_pos hK]; exact Finset.mem_singleton_self _)
        · exact .inl ⟨hx, hdesc, hK⟩
      · rintro (⟨hx, hdesc, hK⟩ | hself)
        · exact ⟨hx, .inr hdesc, hK⟩
        · split_ifs at hself with hK
          · cases Finset.mem_singleton.mp hself
            exact ⟨hV _ _ ((hchn n _).mp hc), .inl rfl, hK⟩
          · cases hself
    rw [hspl, Finset.card_union_of_disjoint]
    · split_ifs <;> simp
    · rw [Finset.disjoint_left]
      intro x hx hself
      split_ifs at hself
      · cases Finset.mem_singleton.mp hself
        exact hacyc _ (Finset.mem_filter.mp hx).2.1
      · cases hself
  · intro c hc d hd hne
    rw [Function.onFun, Finset.disjoint_left]
    intro x hxc hxd
    exact hne (eq_of_common_descendant huniq hacyc ((hchn n c).mp hc)
      ((hchn n d).mp hd) (Finset.mem_filter.mp hxc).2.1 (Finset.mem_filter.mp hxd).2.1)

end Relation
