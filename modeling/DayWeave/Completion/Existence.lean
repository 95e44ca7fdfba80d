import DayWeave.Completion.Undo

/-!
When a forest is decided, and what a change of one node reaches.

A forest is decided if every node can be: no ended parent of unknown origin, and an open status
to return to unless the policy is automatic (`exists_evaluates`). A change of nodes reaches
their ancestors only (`Evaluates.eq_of_unaffected`).
-/

open List Std Relation

namespace DayWeave

section

variable {item : HierarchyCompletionItem} {hasChildren : Bool}

/-- A node that is decided whatever its descendants are. -/
structure HierarchyCompletionItem.IsDecidable (item : HierarchyCompletionItem)
    (hasChildren : Bool) : Prop where
  unambiguous : ¬ item.Ambiguous hasChildren
  prior : item.manualOverride ≠ .automatic → item.prior ≠ none

lemma HierarchyCompletionItem.IsDecidable.exists_settles (h : item.IsDecidable hasChildren)
    (ready : Prop) : ∃ status provenance, Settles item ready status provenance := by
  cases hmode : item.manualOverride with
  | automatic =>
    by_cases hrdy : ready
    · cases hpri : item.prior with
      | none => exact ⟨_, _, .ended hmode hrdy hpri⟩
      | some prior => exact ⟨_, _, .completed hmode hrdy hpri⟩
    · cases hprov : item.provenance with
      | none => exact ⟨_, _, .unchanged hmode hrdy hprov⟩
      | some provenance => exact ⟨_, _, .reopened hmode hrdy hprov⟩
  | keepOpen =>
    obtain ⟨prior, hpri⟩ := Option.ne_none_iff_exists'.mp (h.prior (by simp [hmode]))
    exact ⟨_, _, .keptOpen hmode hpri⟩
  | complete =>
    obtain ⟨prior, hpri⟩ := Option.ne_none_iff_exists'.mp (h.prior (by simp [hmode]))
    exact ⟨_, _, .manual hmode hpri⟩

lemma Settles.prior_ne_none {ready : Prop} {status : HierarchyProgressStatus}
    {provenance : Option HierarchyCompletionProvenance} (h : Settles item ready status provenance)
    (hmode : item.manualOverride ≠ .automatic) : item.prior ≠ none := by
  cases h <;> simp_all

variable {items items' : List HierarchyCompletionItem} {scope : HierarchyCompletionScope}
  {f f' : Decisions}

lemma ncard_requiredDescendant_le (id : ItemId) :
    {x | RequiredDescendant items x id}.ncard ≤ items.length := by
  calc {x | RequiredDescendant items x id}.ncard
      ≤ ((items.map (·.id)).toFinset : Set ItemId).ncard :=
        Set.ncard_le_ncard (requiredDescendant_subset id) (Finset.finite_toSet _)
    _ ≤ items.length := by
        rw [Set.ncard_coe_finset]
        exact (toFinset_card_le _).trans (length_map _).le

/-- **A forest is decided** if each of its nodes can be. -/
theorem exists_evaluates (hfor : IsCompletionForest items scope)
    (hdecidable : ∀ item ∈ items, ¬ Unproven items scope.qualifiedRoot item.id →
      item.IsDecidable (hasChildrenIn items item.id))
    (hlen : items.length ≤ maxRequired) : ∃ f, Evaluates items scope f := by
  obtain ⟨l, hl⟩ := Postorder.exists_order HierarchyCompletionError.missingParent
    HierarchyCompletionError.cycle hfor.forest
  have hpost := Postorder.isPostorder_of_order hl
  -- along the order, the counts are the numbers of required descendants
  have hrun : ∀ done todo, l = done ++ todo → ∃ f : Decisions,
      ∀ item ∈ items, item.id ∈ done → DecidedBy items scope.qualifiedRoot f item ∧
        (f item.id).counts.tally .required = {x | RequiredDescendant items x item.id}.ncard ∧
        ∀ category, (f item.id).counts.tally category ≤ (f item.id).counts.tally .required := by
    intro done
    induction done using List.reverseRecOn with
    | nil => exact fun _ _ => ⟨fun _ => default, by simp⟩
    | append_singleton done id ih =>
      intro todo heq
      rw [append_assoc, singleton_append] at heq
      obtain ⟨f, hf⟩ := ih _ heq
      have hid : id ∈ l := heq ▸ mem_append_right _ mem_cons_self
      obtain ⟨item, hitem, rfl⟩ := (mem_postorder hpost).mp hid
      have hchn : ∀ child ∈ requiredChildren items item.id,
          (f child).branch .required = {x | RequiredDescendant items x child}.ncard + 1 ∧
            ∀ category, (f child).branch category ≤ (f child).branch .required := by
        intro child hch
        have hdone := hpost.after done item.id todo heq child
          ((childOf_parentMap hfor.nodup).mpr (parentEdge_of_mem_requiredChildren hch))
        obtain ⟨other, hoth, rfl, -⟩ := mem_requiredChildren.mp hch
        obtain ⟨-, hcnt, hle⟩ := hf other hoth hdone
        refine ⟨by rw [← hcnt]; rfl, fun category => Nat.add_le_add (hle category) ?_⟩
        show ite _ 1 0 ≤ 1
        split_ifs <;> simp
      set t := ∑ child ∈ requiredChildren items item.id, (f child).branch with ht
      have hreq : t .required = {x | RequiredDescendant items x item.id}.ncard := by
        have hcnt := ncard_requiredDescendant hfor (fun _ => True) item.id
        simp only [and_true, if_true] at hcnt
        rw [hcnt, ht, Finset.sum_apply]
        exact Finset.sum_congr rfl fun child hch => (hchn child hch).1
      have hle : ∀ category, t category ≤ t .required := by
        intro category
        rw [ht, Finset.sum_apply, Finset.sum_apply]
        exact Finset.sum_le_sum fun child hch => (hchn child hch).2 category
      have hmax := hreq ▸ (ncard_requiredDescendant_le item.id).trans hlen
      obtain ⟨counts, hcts⟩ := HierarchyCompletionCounts.exists_tally fun category =>
        ((hle category).trans hmax).trans_lt (by decide)
      obtain ⟨flag, d, hflag, hdec⟩ : ∃ flag d,
          (flag = true ↔ Unproven items scope.qualifiedRoot item.id) ∧
            decideItem item counts flag (hasChildrenIn items item.id) = .ok d := by
        by_cases hunp : Unproven items scope.qualifiedRoot item.id
        · exact ⟨true, _, iff_of_true rfl hunp, decideItem_unproven⟩
        · obtain ⟨status, provenance, hsetl⟩ :=
            (hdecidable item hitem hunp).exists_settles (IsReady counts)
          obtain ⟨action, hactn, -⟩ :=
            hsetl.exists_decideItem (hdecidable item hitem hunp).unambiguous
          exact ⟨false, _, iff_of_false Bool.false_ne_true hunp, hactn⟩
      have hdecd := decidedBy_update hfor hpost heq hitem
        (fun item hitem hmem => (hf item hitem hmem).1) hcts (hcts ▸ hmax) hflag hdec
      refine ⟨_, fun other hoth hmem => ⟨hdecd other hoth hmem, ?_⟩⟩
      by_cases hsame : other.id = item.id
      · rw [hsame, Function.update_self, (decideItem_carries hdec).1, hcts]
        exact ⟨hreq, hle⟩
      · rw [Function.update_of_ne hsame]
        refine (hf other hoth ((mem_append.mp hmem).resolve_right ?_)).2
        exact fun h => hsame (mem_singleton.mp h)
  obtain ⟨f, hf⟩ := hrun l [] (append_nil l).symm
  exact ⟨f, hfor, fun item hitem =>
    (hf item hitem ((mem_postorder hpost).mpr ⟨item, hitem, rfl⟩)).1⟩

lemma Evaluates.hasChildrenIn_of_isReady (h : Evaluates items scope f) (hitem : item ∈ items)
    (hrdy : IsReady (f item.id).counts) : hasChildrenIn items item.id = true := by
  obtain ⟨⟨x, hx⟩, -⟩ := (h.isReady_iff hitem).mp hrdy
  obtain ⟨child, -, other, hoth, -, hpar, -⟩ := TransGen.tail'_iff.mp hx
  exact any_eq_true.mpr ⟨other, hoth, decide_eq_true hpar⟩

/-- The decisions do not depend on the order of the nodes. -/
lemma Evaluates.perm (h : Evaluates items scope f) (hperm : items.Perm items') :
    Evaluates items' scope f := by
  have htop : SameTopology items items' := fun id parentId recurs =>
    exists_congr fun item => and_congr_left fun _ => hperm.mem_iff
  have hreq : ∀ id, requiredChildren items id = requiredChildren items' id := fun id => by
    ext child
    simp only [mem_requiredChildren, hperm.mem_iff]
  refine ⟨htop.isCompletionForest h.forest ((hperm.map _).nodup_iff.mp h.forest.nodup)
    fun item hitem => h.forest.valid item (hperm.mem_iff.mpr hitem), fun item hitem => ?_⟩
  obtain ⟨counts, flag, htal, hmax, hflag, hdec⟩ := h.decided item (hperm.mem_iff.mpr hitem)
  exact ⟨counts, flag, hreq item.id ▸ htal, hmax, hflag.trans htop.unproven_iff,
    htop.hasChildrenIn_eq item.id ▸ hdec⟩

/-- **What a change reaches**: nodes below which nothing changes are decided as before. -/
theorem Evaluates.eq_of_unaffected (h : Evaluates items scope f) (h' : Evaluates items' scope f')
    (htop : SameTopology items items') {U : ItemId → Prop}
    (hU : ∀ child parent, ParentEdge items child parent → U parent → U child)
    (hsame : ∀ item ∈ items, U item.id → item ∈ items') (hitem : item ∈ items) (hmem : U item.id) :
    f item.id = f' item.id := by
  refine h.forest.descendant_induction (P := fun id => U id → f id = f' id)
    (fun item hitem hblw hmem => ?_) item hitem hmem
  have hit' := hsame item hitem hmem
  have hreq : requiredChildren items item.id = requiredChildren items' item.id := by
    ext child
    rw [mem_requiredChildren, mem_requiredChildren]
    constructor
    · rintro ⟨other, hoth, rfl, hpar⟩
      have hedge : ParentEdge items other.id item.id :=
        ⟨other, hoth, rfl, parentId_of_requiredParent hpar⟩
      exact ⟨other, hsame other hoth (hU _ _ hedge hmem), rfl, hpar⟩
    · rintro ⟨other', hoth', rfl, hpar⟩
      obtain ⟨other, hoth, hid, hpar', -⟩ := htop.symm.exists_right hoth'
      have hedge : ParentEdge items other.id item.id :=
        ⟨other, hoth, rfl, hpar'.trans (parentId_of_requiredParent hpar)⟩
      have heq := inj_on_of_nodup_map h'.forest.nodup
        (hsame other hoth (hU _ _ hedge hmem)) hoth' hid
      exact ⟨other, hoth, hid, heq ▸ hpar⟩
  obtain ⟨counts, flag, htal, -, hflag, hdec⟩ := h.decided item hitem
  obtain ⟨counts', flag', htally', -, hflag', hdecide'⟩ := h'.decided item hit'
  have hcts : counts = counts' := by
    refine HierarchyCompletionCounts.tally_injective (htal.trans ?_)
    rw [htally', ← hreq]
    refine Finset.sum_congr rfl fun child hch => ?_
    have hedge := mem_requiredChildren_iff_edge.mp hch
    rw [hblw child (.single hedge) (hU _ _ hedge.parentEdge hmem)]
  have hflags : flag = flag' :=
    Bool.eq_iff_iff.mpr (hflag.trans (htop.unproven_iff.trans hflag'.symm))
  rw [hcts, hflags, htop.hasChildrenIn_eq, hdecide'] at hdec
  exact (Except.ok.inj hdec).symm

/-- **When a forest is decided**: exactly if its nodes pass the checks and each of them that is
proven can be decided. The counts always fit. -/
theorem completion_succeeds_iff (hlen : items.length ≤ maxRequired) :
    (∃ evaluation, evaluateHierarchyCompletion items scope = .ok evaluation) ↔
      IsCompletionForest items scope ∧ ∀ item ∈ items,
        ¬ Unproven items scope.qualifiedRoot item.id →
          item.IsDecidable (hasChildrenIn items item.id) := by
  constructor
  · rintro ⟨evaluation, hok⟩
    obtain ⟨f, hf, -⟩ := evaluates_of_ok hok
    refine ⟨hf.forest, fun item hitem hprov => ?_⟩
    obtain ⟨counts, flag, -, -, hflag, hdec⟩ := hf.decided item hitem
    obtain rfl : flag = false := Bool.not_eq_true _ ▸ fun h => hprov (hflag.mp h)
    obtain ⟨hamb, hsetl⟩ := settles_of_decideItem hdec
    exact ⟨hamb, hsetl.prior_ne_none⟩
  · rintro ⟨hfor, hdecidable⟩
    obtain ⟨f, hf⟩ := exists_evaluates hfor hdecidable hlen
    obtain ⟨evaluation, hok, -⟩ := hf.exists_ok
    exact ⟨evaluation, hok⟩

namespace Sample

def keepRootOpen (item : HierarchyCompletionItem) : HierarchyCompletionItem :=
  if item.parentId = none then { item with manualOverride := .keepOpen } else item

end Sample

open Sample

theorem completion_succeeds_iff_chores : IsCompletionForest chores .oneOff := by
  obtain ⟨evaluation, hok, -⟩ : ∃ evaluation,
      evaluateHierarchyCompletion chores .oneOff = .ok evaluation ∧ True := by decide +kernel
  exact ((completion_succeeds_iff (by decide)).mp ⟨evaluation, hok⟩).1

/-- **A change reaches ancestors only.** Whatever statuses, policies and requirements of nodes
change, a node is decided as before unless it or a node below it changes. -/
theorem completion_local {evaluation evaluation' : HierarchyCompletionEvaluation}
    (h : evaluateHierarchyCompletion items scope = .ok evaluation)
    (h' : evaluateHierarchyCompletion items' scope = .ok evaluation')
    (htop : SameTopology items items') (hitem : item ∈ items)
    (hsame : ∀ other ∈ items, ReflTransGen (ParentEdge items) other.id item.id → other ∈ items') :
    evaluation'.decisions[item.id]? = evaluation.decisions[item.id]? := by
  obtain ⟨f, hf, hfds⟩ := evaluates_of_ok h
  obtain ⟨f', hf', hfds'⟩ := evaluates_of_ok h'
  have heq := hf.eq_of_unaffected hf' htop
    (U := fun id => ∀ other ∈ items, ReflTransGen (ParentEdge items) other.id id → other ∈ items')
    (fun child parent hedge hU other hoth hbelow => hU other hoth (hbelow.tail hedge))
    (fun other hoth hU => hU other hoth .refl) hitem hsame
  rw [hfds.decisions_eq item hitem, hfds'.decisions_eq item (hsame item hitem .refl), heq]

/-- A policy for the parent leaves the decision about a leaf alone. -/
theorem completion_local_chores : ∃ evaluation evaluation',
    evaluateHierarchyCompletion chores .oneOff = .ok evaluation ∧
      evaluateHierarchyCompletion (chores.map keepRootOpen) .oneOff = .ok evaluation' ∧
      evaluation'.decisions[(node 2 (some 1) .completed).id]? =
        evaluation.decisions[(node 2 (some 1) .completed).id]? := by
  obtain ⟨evaluation, hok, -⟩ : ∃ evaluation,
      evaluateHierarchyCompletion chores .oneOff = .ok evaluation ∧ True := by decide +kernel
  obtain ⟨evaluation', hok', -⟩ : ∃ evaluation', evaluateHierarchyCompletion
      (chores.map keepRootOpen) .oneOff = .ok evaluation' ∧ True := by decide +kernel
  have hshape : KeepsShape chores keepRootOpen := ⟨by decide, by decide, by decide, by decide⟩
  refine ⟨evaluation, evaluation', hok, hok', completion_local hok hok' hshape.sameTopology
    (mem_cons_of_mem _ mem_cons_self) fun other hoth hbelow => ?_⟩
  by_cases hroot : other.parentId = none
  · -- the parent is not below its leaf
    obtain heq | ⟨_, ⟨item, hitem, hid, hpar⟩, -⟩ := hbelow.cases_head
    · exact absurd heq
        ((by decide : ∀ other ∈ chores, other.parentId = none → other.id ≠ _) _ hoth hroot)
    · rw [(by decide : ∀ other ∈ chores, other.parentId = none → ∀ item ∈ chores,
        item.id = other.id → item.parentId = none) other hoth hroot item hitem hid] at hpar
      cases hpar
  · exact mem_map.mpr ⟨other, hoth, if_neg hroot⟩

end

end DayWeave
