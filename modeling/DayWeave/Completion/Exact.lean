import DayWeave.Completion.Topology
import DayWeave.Lib.Descendants

/-!
Automatic completion is exact, and a second evaluation changes nothing.

The counts of a node are the numbers of its required descendants in each state, so a node with
the automatic policy is completed exactly if it has required descendants and all of them are
completed (`completion_exact`). Written back, the decisions stay (`completion_idempotent`).
-/

open List Relation Std

namespace DayWeave

open HierarchyCompletionDecision (branch inCategory)

/-! ### One decision -/

section

variable {item : HierarchyCompletionItem} {counts : HierarchyCompletionCounts}
  {flag hasChildren : Bool} {d : HierarchyCompletionDecision} {status : HierarchyProgressStatus}
  {provenance : Option HierarchyCompletionProvenance} {ready : Prop}

/-- Whether a node is refused: an ended parent of which it is not known how it ended. -/
def HierarchyCompletionItem.Ambiguous (item : HierarchyCompletionItem) (hasChildren : Bool) :
    Prop :=
  hasChildren = true ∧ ¬ item.status.isOpen = true ∧ item.provenance = none ∧
    item.manualOverride = .automatic

/-- What a decision does to the status and the provenance of a node that needs no evidence of
its own occurrence. -/
inductive Settles (item : HierarchyCompletionItem) (ready : Prop) :
    HierarchyProgressStatus → Option HierarchyCompletionProvenance → Prop
  | completed {prior : HierarchyProgressStatus} (hmode : item.manualOverride = .automatic)
      (hrdy : ready) (hpri : item.prior = some prior) :
      Settles item ready .completed (some (.automatic prior))
  | ended (hmode : item.manualOverride = .automatic) (hrdy : ready) (hpri : item.prior = none) :
      Settles item ready item.status item.provenance
  | reopened {provenance : HierarchyCompletionProvenance}
      (hmode : item.manualOverride = .automatic) (hrdy : ¬ ready)
      (hprov : item.provenance = some provenance) :
      Settles item ready provenance.priorOpenStatus none
  | unchanged (hmode : item.manualOverride = .automatic) (hrdy : ¬ ready)
      (hprov : item.provenance = none) : Settles item ready item.status item.provenance
  | keptOpen {prior : HierarchyProgressStatus} (hmode : item.manualOverride = .keepOpen)
      (hpri : item.prior = some prior) : Settles item ready prior none
  | manual {prior : HierarchyProgressStatus} (hmode : item.manualOverride = .complete)
      (hpri : item.prior = some prior) : Settles item ready .completed (some (.manual prior))

/-- All required descendants of a node are completed, and there are some. -/
abbrev IsReady (counts : HierarchyCompletionCounts) : Prop :=
  readinessOf counts false = .allRequiredDescendantsCompleted

/-- A node that needs evidence of its own occurrence is left alone. -/
lemma decideItem_unproven : decideItem item counts true hasChildren =
    .ok ⟨item.status, item.provenance, .occurrenceEvidenceRequired, readinessOf counts true, counts,
      true⟩ := rfl

/-- A decision carries the counts and the flag that it is made with. -/
lemma decideItem_carries (h : decideItem item counts flag hasChildren = .ok d) :
    d.counts = counts ∧ d.occurrenceEvidenceRequired = flag := by
  unfold decideItem at h
  dsimp only at h
  (repeat' split at h) <;> cases h <;> exact ⟨rfl, rfl⟩

/-- A decision settles the status and the provenance of a node that needs no evidence. -/
lemma settles_of_decideItem (h : decideItem item counts false hasChildren = .ok d) :
    ¬ item.Ambiguous hasChildren ∧ Settles item (IsReady counts) d.status d.provenance := by
  unfold decideItem at h
  rw [if_neg Bool.false_ne_true] at h
  split at h
  · cases h
  · refine ⟨‹_›, ?_⟩
    split at h <;> rename_i hmode
    · split_ifs at h with hrdy <;> split at h <;> cases h
      · exact .ended hmode hrdy ‹_›
      · exact .completed hmode hrdy ‹_›
      · exact .unchanged hmode hrdy ‹_›
      · exact .reopened hmode hrdy ‹_›
    · split at h <;> cases h
      exact .keptOpen hmode ‹_›
    · split at h <;> cases h
      exact .manual hmode ‹_›

/-- What settles a node is decided; if nothing changes, the decision says so. -/
lemma Settles.exists_decideItem (h : Settles item (IsReady counts) status provenance)
    (hamb : ¬ item.Ambiguous hasChildren) : ∃ action, decideItem item counts false hasChildren =
        .ok ⟨status, provenance, action, readinessOf counts false, counts, false⟩ ∧
      (status = item.status → provenance = item.provenance → action = .unchanged) := by
  simp only [decideItem, Bool.false_eq_true, if_false]
  rw [HierarchyCompletionItem.Ambiguous] at hamb
  rw [if_neg hamb]
  cases h with
  | completed hmode hrdy hpri =>
    simp only [hmode, if_pos hrdy, hpri]
    refine ⟨_, rfl, fun hstat hprov => if_neg ?_⟩
    exact not_or.mpr ⟨not_not.mpr hstat.symm, not_not.mpr hprov.symm⟩
  | ended hmode hrdy hpri =>
    simp only [hmode, if_pos hrdy, hpri]
    exact ⟨_, rfl, fun _ _ => rfl⟩
  | reopened hmode hrdy hprov =>
    simp only [hmode, if_neg hrdy, hprov]
    exact ⟨_, rfl, fun _ hnone => nomatch hnone⟩
  | unchanged hmode hrdy hprov =>
    simp only [hmode, if_neg hrdy, hprov]
    exact ⟨_, rfl, fun _ _ => rfl⟩
  | keptOpen hmode hpri =>
    simp only [hmode, hpri]
    refine ⟨_, rfl, fun hstat hprov => if_neg ?_⟩
    simp [hstat, ← hprov]
  | manual hmode hpri =>
    simp only [hmode, hpri]
    refine ⟨_, rfl, fun hstat hprov => if_neg ?_⟩
    exact not_or.mpr ⟨not_not.mpr hstat, not_not.mpr hprov⟩

lemma HierarchyCompletionItem.IsValid.isOpen_prior (hval : item.IsValid)
    {prior : HierarchyProgressStatus} (h : item.prior = some prior) : prior.isOpen = true := by
  rcases Option.or_eq_some_iff.mp h with hsome | ⟨-, hopen⟩
  · obtain ⟨provenance, hprov, rfl⟩ := Option.map_eq_some_iff.mp hsome
    exact (hval.provenance provenance hprov).2
  · split_ifs at hopen with hstat
    cases hopen
    exact hstat

/-- What is settled has a provenance only if it is completed, and can be reopened. -/
lemma Settles.isValid (h : Settles item ready status provenance) (hval : item.IsValid) :
    ∀ p ∈ provenance, status = .completed ∧ p.priorOpenStatus.isOpen = true := by
  intro p hp
  cases h with
  | completed _ _ hpri | manual _ hpri =>
    cases hp
    exact ⟨rfl, hval.isOpen_prior hpri⟩
  | ended | unchanged => exact hval.provenance p hp
  | reopened | keptOpen => cases hp

/-- What is settled stays settled. -/
lemma Settles.again (h : Settles item ready status provenance)
    (hval : item.IsValid) (hamb : ¬ item.Ambiguous hasChildren) :
    Settles { item with status := status, provenance := provenance } ready status provenance ∧
      ¬ HierarchyCompletionItem.Ambiguous
        { item with status := status, provenance := provenance } hasChildren := by
  cases h with
  | completed hmode hrdy hpri =>
    exact ⟨.completed hmode hrdy rfl, fun ⟨_, _, hnone, _⟩ => nomatch hnone⟩
  | ended hmode hrdy hpri => exact ⟨.ended hmode hrdy hpri, hamb⟩
  | reopened hmode hrdy hprov =>
    refine ⟨.unchanged hmode hrdy rfl, fun ⟨_, hend', _⟩ => hend' ?_⟩
    exact (hval.provenance _ hprov).2
  | unchanged hmode hrdy hprov =>
    exact ⟨.unchanged hmode hrdy hprov, hamb⟩
  | keptOpen hmode hpri =>
    refine ⟨.keptOpen hmode ?_, fun ⟨_, _, _, hauto⟩ => ?_⟩
    · rw [HierarchyCompletionItem.prior, Option.map_none, Option.none_or,
        if_pos (hval.isOpen_prior hpri)]
    · cases hmode.symm.trans hauto
  | manual hmode hpri =>
    exact ⟨.manual hmode rfl, fun ⟨_, _, hnone, _⟩ => nomatch hnone⟩

end

/-! ### Descendants by state -/

/-- An edge from a child that is required for its parent. -/
def RequiredEdge (items : List HierarchyCompletionItem) (child parent : ItemId) : Prop :=
  ∃ item ∈ items, item.id = child ∧ item.parentId = some parent ∧ item.requiredForParent = true

/-- A **required descendant** is reached through required edges only. -/
def RequiredDescendant (items : List HierarchyCompletionItem) : ItemId → ItemId → Prop :=
  TransGen (RequiredEdge items)

def HierarchyCompletionEvaluation.DecidesCompleted (evaluation : HierarchyCompletionEvaluation)
    (id : ItemId) : Prop :=
  ∃ d, evaluation.decisions[id]? = some d ∧ d.status = .completed

section

variable {items : List HierarchyCompletionItem} {item : HierarchyCompletionItem}
  {scope : HierarchyCompletionScope} {f : Decisions} {child parent : ItemId}

lemma mem_requiredChildren_iff_edge :
    child ∈ requiredChildren items parent ↔ RequiredEdge items child parent := by
  rw [mem_requiredChildren]
  refine exists_congr fun item => and_congr_right fun _ => and_congr_right fun _ => ?_
  unfold HierarchyCompletionItem.requiredParent
  split_ifs with h <;> simp [h]

lemma RequiredEdge.parentEdge (h : RequiredEdge items child parent) :
    ParentEdge items child parent := by
  obtain ⟨item, hitem, hid, hpar, -⟩ := h
  exact ⟨item, hitem, hid, hpar⟩

lemma rightUnique_requiredEdge (hnd : (items.map (·.id)).Nodup) :
    Relator.RightUnique (RequiredEdge items) := by
  rintro child a b ⟨item, hitem, hid, hpar, -⟩ ⟨other, hoth, hid', hpar', -⟩
  rw [inj_on_of_nodup_map hnd hoth hitem (hid'.trans hid.symm), hpar] at hpar'
  exact Option.some.inj hpar'

lemma IsCompletionForest.acyclic (h : IsCompletionForest items scope) :
    Acyclic (ParentEdge items) :=
  h.forest.acyclic.mono fun _ _ hedge => (childOf_parentMap h.nodup).mpr hedge

section

variable (h : Evaluates items scope f) (hitem : item ∈ items)

include h hitem

/-- The decision of a node, by the counts and the flag that it carries. -/
lemma Evaluates.decideItem_eq :
    decideItem item (f item.id).counts (f item.id).occurrenceEvidenceRequired
      (hasChildrenIn items item.id) = .ok (f item.id) := by
  obtain ⟨counts, flag, -, -, -, hdec⟩ := h.decided item hitem
  obtain ⟨hcts, hflag⟩ := decideItem_carries hdec
  rwa [hcts, hflag]

/-- A decided node carries the flag of an unproven one. -/
lemma Evaluates.flag_iff :
    (f item.id).occurrenceEvidenceRequired = true ↔ Unproven items scope.qualifiedRoot item.id := by
  obtain ⟨counts, flag, -, -, hflag, hdec⟩ := h.decided item hitem
  rw [(decideItem_carries hdec).2, hflag]

/-- The counts of a decided node are those of its required children. -/
lemma Evaluates.tally_eq :
    (f item.id).counts.tally = ∑ child ∈ requiredChildren items item.id, (f child).branch := by
  obtain ⟨counts, flag, htal, -, -, hdec⟩ := h.decided item hitem
  rw [(decideItem_carries hdec).1, htal]

end

lemma requiredDescendant_subset (id : ItemId) : {x | RequiredDescendant items x id} ⊆
    ((items.map (·.id)).toFinset : Set ItemId) := by
  intro x hx
  obtain ⟨b, ⟨item, hitem, hid, -⟩, -⟩ := TransGen.head'_iff.mp hx
  exact mem_toFinset.mpr (hid ▸ mem_map_of_mem hitem)

lemma mem_ids_of_requiredDescendant {x id : ItemId} (h : RequiredDescendant items x id) :
    ∃ item ∈ items, item.id = x :=
  mem_map.mp (mem_toFinset.mp (requiredDescendant_subset id h))

/-- What holds of a node when it holds of everything below it holds of all nodes. -/
lemma IsCompletionForest.descendant_induction (h : IsCompletionForest items scope)
    {P : ItemId → Prop}
    (hP : ∀ item ∈ items, (∀ x, RequiredDescendant items x item.id → P x) → P item.id) :
    ∀ item ∈ items, P item.id := by
  obtain ⟨l, hl⟩ := Postorder.exists_order HierarchyCompletionError.missingParent
    HierarchyCompletionError.cycle h.forest
  have hall := (Postorder.isPostorder_of_order hl).induction
    (P := fun id => P id ∧ ∀ x, RequiredDescendant items x id → P x) fun id hid ih => by
      obtain ⟨item, hitem, rfl⟩ := mem_map.mp (mem_parentMap.mp hid)
      have hblw : ∀ x, RequiredDescendant items x item.id → P x := by
        intro x hx
        -- the last step of the path comes from a child
        obtain ⟨child, hpath, hedge⟩ := TransGen.tail'_iff.mp hx
        have hch := ih child ((childOf_parentMap h.nodup).mpr hedge.parentEdge)
        rcases reflTransGen_iff_eq_or_transGen.mp hpath with heq | hdescendant
        · exact heq ▸ hch.1
        · exact hch.2 x hdescendant
      exact ⟨hP item hitem hblw, hblw⟩
  exact fun item hitem => (hall item.id (mem_parentMap.mpr (mem_map_of_mem hitem))).1

/-- The required descendants of a kind, counted by required children. -/
lemma ncard_requiredDescendant (h : IsCompletionForest items scope) (K : ItemId → Prop)
    [DecidablePred K] (id : ItemId) :
    {x | RequiredDescendant items x id ∧ K x}.ncard = ∑ child ∈ requiredChildren items id,
      ({x | RequiredDescendant items x child ∧ K x}.ncard + if K child then 1 else 0) :=
  ncard_descendants (rightUnique_requiredEdge h.nodup)
    (h.acyclic.mono fun _ _ hedge => RequiredEdge.parentEdge hedge)
    (fun _ _ hedge => mem_toFinset.mpr (mem_map.mpr (hedge.imp fun _ h => ⟨h.1, h.2.1⟩)))
    (fun _ _ => mem_requiredChildren_iff_edge) K id

/-- **The counts** of a node are the numbers of its required descendants by category. -/
lemma Evaluates.tally_eq_ncard (h : Evaluates items scope f) (category : CountCategory)
    (hitem : item ∈ items) : (f item.id).counts.tally category =
      {x | RequiredDescendant items x item.id ∧ (f x).inCategory category = true}.ncard := by
  refine h.forest.descendant_induction (P := fun id => (f id).counts.tally category =
    {x | RequiredDescendant items x id ∧ (f x).inCategory category = true}.ncard)
    (fun item hitem ih => ?_) item hitem
  rw [h.tally_eq hitem, Finset.sum_apply, ncard_requiredDescendant h.forest]
  refine Finset.sum_congr rfl fun c hc => ?_
  rw [branch, Pi.add_apply,
    ih c (.single (mem_requiredChildren_iff_edge.mp hc))]
  rfl

/-- A node is ready if it has required descendants and all of them count as completed. -/
lemma Evaluates.isReady_iff (h : Evaluates items scope f) (hitem : item ∈ items) :
    IsReady (f item.id).counts ↔ (∃ x, RequiredDescendant items x item.id) ∧
      ∀ x, RequiredDescendant items x item.id → (f x).inCategory .completed = true := by
  have hzero : ∀ category, (f item.id).counts.tally category = 0 ↔
      ∀ x, RequiredDescendant items x item.id → ¬ (f x).inCategory category = true := by
    intro category
    have hfinite := (Finset.finite_toSet _).subset (@requiredDescendant_subset items item.id)
    rw [h.tally_eq_ncard category hitem, Set.ncard_eq_zero (hfinite.subset fun x hx => hx.1),
      Set.eq_empty_iff_forall_notMem]
    simp
  have hrdy : IsReady (f item.id).counts ↔
      (f item.id).counts.tally .occurrenceEvidenceRequired = 0 ∧
      (f item.id).counts.tally .required ≠ 0 ∧ (f item.id).counts.tally .incomplete = 0 := by
    simp only [IsReady, readinessOf, HierarchyCompletionCounts.tally, Bool.false_eq_true, false_or,
      ← UInt64.toNat_inj, UInt64.toNat_zero, ne_eq]
    split_ifs <;> simp_all
  rw [hrdy, hzero, Ne, hzero, hzero]
  simp only [inCategory, not_true_eq_false, Bool.and_eq_true,
    Bool.not_eq_true', decide_eq_true_eq, not_forall, not_and, Bool.not_eq_true, exists_prop]
  constructor
  · rintro ⟨hevid, hsome, hinc⟩
    exact ⟨by simpa using hsome, fun x hx => ⟨hevid x hx, not_not.mp (hinc x hx (hevid x hx))⟩⟩
  · rintro ⟨hsome, hall⟩
    exact ⟨fun x hx => (hall x hx).1, by simpa using hsome, fun x hx _ => not_not.mpr (hall x hx).2⟩

/-- A parent with the automatic policy is completed exactly if it is ready. -/
lemma Settles.status_eq_completed_iff {ready : Prop} {status : HierarchyProgressStatus}
    {provenance : Option HierarchyCompletionProvenance} (h : Settles item ready status provenance)
    (hval : item.IsValid) (hamb : ¬ item.Ambiguous true)
    (hmode : item.manualOverride = .automatic) : status = .completed ↔ ready := by
  have hopen : item.provenance = none → item.status.isOpen = true := fun hnone => by
    by_contra hend'
    exact hamb ⟨rfl, hend', hnone, hmode⟩
  cases h with
  | completed _ hrdy _ => exact iff_of_true rfl hrdy
  | ended _ hrdy hpri =>
    obtain ⟨hprov, hstat⟩ := Option.or_eq_none_iff.mp hpri
    rw [if_pos (hopen (Option.map_eq_none_iff.mp hprov))] at hstat
    cases hstat
  | @reopened provenance _ hrdy hprov =>
    refine iff_of_false (fun hcomp => ?_) hrdy
    have := (hval.provenance _ hprov).2
    rw [hcomp] at this
    cases this
  | unchanged _ hrdy hprov =>
    refine iff_of_false (fun hcomp => ?_) hrdy
    have := hopen hprov
    rw [hcomp] at this
    cases this
  | keptOpen hmode' _ | manual hmode' _ => cases hmode'.symm.trans hmode

/-- **Automatic completion is exact.** The counts of a node are the numbers of its required
descendants: in all, proven and completed, proven and not completed, and unproven. A proven
node with children and the automatic policy is decided to be completed if and only if it has
a required descendant and every required descendant is proven and decided to be completed. -/
theorem completion_exact {evaluation : HierarchyCompletionEvaluation}
    (h : evaluateHierarchyCompletion items scope = .ok evaluation) (hitem : item ∈ items) :
    ∃ d, evaluation.decisions[item.id]? = some d ∧
      d.counts.requiredDescendants.toNat = {x | RequiredDescendant items x item.id}.ncard ∧
      d.counts.completed.toNat = {x | RequiredDescendant items x item.id ∧
        ¬ Unproven items scope.qualifiedRoot x ∧ evaluation.DecidesCompleted x}.ncard ∧
      d.counts.incomplete.toNat = {x | RequiredDescendant items x item.id ∧
        ¬ Unproven items scope.qualifiedRoot x ∧ ¬ evaluation.DecidesCompleted x}.ncard ∧
      d.counts.occurrenceEvidenceRequired.toNat = {x | RequiredDescendant items x item.id ∧
        Unproven items scope.qualifiedRoot x}.ncard ∧
      (¬ Unproven items scope.qualifiedRoot item.id → hasChildrenIn items item.id = true →
        item.manualOverride = .automatic →
        (d.status = .completed ↔ (∃ x, RequiredDescendant items x item.id) ∧
          ∀ x, RequiredDescendant items x item.id →
            ¬ Unproven items scope.qualifiedRoot x ∧ evaluation.DecidesCompleted x)) := by
  obtain ⟨f, hf, hfds⟩ := evaluates_of_ok h
  -- flags and statuses of descendants, read off the returned decisions
  have hsta : ∀ x, RequiredDescendant items x item.id →
      ((f x).occurrenceEvidenceRequired = true ↔ Unproven items scope.qualifiedRoot x) ∧
        ((f x).status = .completed ↔ evaluation.DecidesCompleted x) := by
    intro x hx
    obtain ⟨other, hoth, rfl⟩ := mem_ids_of_requiredDescendant hx
    refine ⟨hf.flag_iff hoth, fun hstat => ⟨_, hfds.decisions_eq other hoth, hstat⟩, ?_⟩
    rintro ⟨d, hd, hstat⟩
    rw [hfds.decisions_eq other hoth] at hd
    exact Option.some.inj hd ▸ hstat
  have hcnt := fun category => hf.tally_eq_ncard category hitem
  refine ⟨f item.id, hfds.decisions_eq item hitem, ?_, ?_, ?_, ?_, fun hprvn hchn hmode => ?_⟩
  · simpa [HierarchyCompletionCounts.tally, inCategory] using
      hcnt .required
  · refine (hcnt .completed).trans (congrArg Set.ncard
      (Set.ext fun x => and_congr_right fun hx => ?_))
    rw [← (hsta x hx).1, ← (hsta x hx).2]
    simp [inCategory]
  · refine (hcnt .incomplete).trans (congrArg Set.ncard
      (Set.ext fun x => and_congr_right fun hx => ?_))
    rw [← (hsta x hx).1, ← (hsta x hx).2]
    simp [inCategory]
  · refine (hcnt .occurrenceEvidenceRequired).trans
      (congrArg Set.ncard (Set.ext fun x => and_congr_right fun hx => ?_))
    exact (hsta x hx).1
  · obtain ⟨counts, flag, -, -, hflag, hdec⟩ := hf.decided item hitem
    cases flag with
    | true => exact absurd (hflag.mp rfl) hprvn
    | false =>
      obtain ⟨hamb, hsetl⟩ := settles_of_decideItem hdec
      rw [hchn] at hamb
      rw [hsetl.status_eq_completed_iff (hf.forest.valid item hitem) hamb hmode,
        ← (decideItem_carries hdec).1, hf.isReady_iff hitem]
      refine and_congr_right fun _ => forall₂_congr fun x hx => ?_
      rw [← (hsta x hx).1, ← (hsta x hx).2]
      simp [inCategory]

end

namespace Sample

/-- A node of a one-off tree. -/
def node (id : ℕ) (parent : Option ℕ) (status : HierarchyProgressStatus) :
    HierarchyCompletionItem where
  id := ⟨Uuid.ofNat id⟩
  parentId := parent.map fun n => ⟨Uuid.ofNat n⟩
  status := status
  requiredForParent := true
  recurs := false
  hasChildrenOutsidePlan := false
  manualOverride := .automatic
  provenance := none

/-- A planned parent of two completed leaves. -/
def chores : List HierarchyCompletionItem :=
  [node 1 none .planned, node 2 (some 1) .completed, node 3 (some 1) .completed]

end Sample

open Sample

/-- The parent of two completed leaves completes. -/
theorem completion_exact_chores :
    ∃ evaluation, evaluateHierarchyCompletion chores .oneOff = .ok evaluation ∧
      ∃ d, evaluation.decisions[(node 1 none .planned).id]? = some d ∧
        (d.status = .completed ↔ (∃ x, RequiredDescendant chores x ⟨Uuid.ofNat 1⟩) ∧
          ∀ x, RequiredDescendant chores x ⟨Uuid.ofNat 1⟩ →
            ¬ Unproven chores none x ∧ evaluation.DecidesCompleted x) := by
  obtain ⟨evaluation, hok, -⟩ : ∃ evaluation,
      evaluateHierarchyCompletion chores .oneOff = .ok evaluation ∧ True := by decide +kernel
  obtain ⟨d, hd, -, -, -, -, hiff⟩ := completion_exact hok
    mem_cons_self
  refine ⟨evaluation, hok, d, hd, hiff ?_ (by decide) rfl⟩
  rintro ⟨item, hitem, -, hrec, -⟩
  revert item
  decide

/-! ### A second evaluation -/

/-- A node with the status and the provenance that are decided for it. -/
def HierarchyCompletionEvaluation.writeBack (evaluation : HierarchyCompletionEvaluation)
    (item : HierarchyCompletionItem) : HierarchyCompletionItem :=
  match evaluation.decisions[item.id]? with
  | none => item
  | some d => { item with status := d.status, provenance := d.provenance }

/-- The decision about a node that already has the status and provenance of a decision. -/
def HierarchyCompletionDecision.again (d : HierarchyCompletionDecision) :
    HierarchyCompletionDecision where
  status := d.status
  provenance := d.provenance
  action := if d.occurrenceEvidenceRequired then .occurrenceEvidenceRequired else .unchanged
  readiness := readinessOf d.counts d.occurrenceEvidenceRequired
  counts := d.counts
  occurrenceEvidenceRequired := d.occurrenceEvidenceRequired

section

variable {items : List HierarchyCompletionItem} {item : HierarchyCompletionItem}
  {scope : HierarchyCompletionScope} {f : Decisions} {root : Option ItemId}

/-- A change of the nodes that touches only statuses, provenances and policies. -/
structure KeepsShape (items : List HierarchyCompletionItem)
    (g : HierarchyCompletionItem → HierarchyCompletionItem) : Prop where
  id : ∀ item ∈ items, (g item).id = item.id
  parentId : ∀ item ∈ items, (g item).parentId = item.parentId
  recurs : ∀ item ∈ items, (g item).recurs = item.recurs
  required : ∀ item ∈ items, (g item).requiredForParent = item.requiredForParent

namespace KeepsShape

variable {g : HierarchyCompletionItem → HierarchyCompletionItem}

variable (h : KeepsShape items g)

include h

lemma sameTopology : SameTopology items (items.map g) := by
  intro id parentId recurs
  constructor
  · rintro ⟨item, hitem, rfl, rfl, rfl⟩
    exact ⟨g item, mem_map_of_mem hitem, h.id item hitem, h.parentId item hitem,
      h.recurs item hitem⟩
  · rintro ⟨_, hmem, rfl, rfl, rfl⟩
    obtain ⟨item, hitem, rfl⟩ := mem_map.mp hmem
    exact ⟨item, hitem, (h.id item hitem).symm, (h.parentId item hitem).symm,
      (h.recurs item hitem).symm⟩

lemma map_ids :
    (items.map g).map (·.id) = items.map (·.id) := by
  rw [List.map_map]
  exact map_congr_left h.id

lemma requiredEdge : RequiredEdge (items.map g) = RequiredEdge items := by
  funext child parent
  refine propext ⟨?_, ?_⟩
  · rintro ⟨_, hmem, hid, hpar, hreq⟩
    obtain ⟨item, hitem, rfl⟩ := mem_map.mp hmem
    exact ⟨item, hitem, (h.id item hitem).symm.trans hid, (h.parentId item hitem).symm.trans hpar,
      (h.required item hitem).symm.trans hreq⟩
  · rintro ⟨item, hitem, hid, hpar, hreq⟩
    exact ⟨g item, mem_map_of_mem hitem, (h.id item hitem).trans hid,
      (h.parentId item hitem).trans hpar, (h.required item hitem).trans hreq⟩

lemma requiredChildren_eq (p : ItemId) :
    requiredChildren (items.map g) p = requiredChildren items p := by
  ext c
  rw [mem_requiredChildren_iff_edge, mem_requiredChildren_iff_edge, h.requiredEdge]

/-- Changed nodes that are decided by the same counts, to the same statuses. -/
lemma evaluates {f' : Decisions} (hf : Evaluates items scope f)
    (hval : ∀ item ∈ items, (g item).IsValid)
    (hdec : ∀ item ∈ items, decideItem (g item) (f item.id).counts
      (f item.id).occurrenceEvidenceRequired (hasChildrenIn items item.id) = .ok (f' item.id))
    (hstat : ∀ item ∈ items, (f' item.id).status = (f item.id).status) :
    Evaluates (items.map g) scope f' := by
  refine ⟨h.sameTopology.isCompletionForest hf.forest (h.map_ids ▸ hf.forest.nodup)
    (forall_mem_map.mpr hval), forall_mem_map.mpr fun item hitem => ?_⟩
  obtain ⟨counts, flag, -, hmax, -, hbef⟩ := hf.decided item hitem
  refine ⟨(f item.id).counts, (f item.id).occurrenceEvidenceRequired, ?_,
    (decideItem_carries hbef).1.symm ▸ hmax, ?_, ?_⟩
  · rw [h.id item hitem, h.requiredChildren_eq, hf.tally_eq hitem]
    refine Finset.sum_congr rfl fun child hch => ?_
    obtain ⟨other, hoth, rfl, -⟩ := mem_requiredChildren.mp hch
    obtain ⟨hcts, hflag⟩ := decideItem_carries (hdec other hoth)
    have hcategory : (f other.id).inCategory = (f' other.id).inCategory := by
      funext category
      cases category <;> simp only [inCategory, hflag, hstat other hoth]
    funext category
    simp [branch, HierarchyCompletionDecision.own, hcts, hcategory]
  · rw [h.id item hitem, hf.flag_iff hitem, h.sameTopology.unproven_iff]
  · rw [h.id item hitem, ← h.sameTopology.hasChildrenIn_eq]
    exact hdec item hitem

end KeepsShape

/-- A node that is settled as decided is decided in the same way again. -/
lemma decideItem_again {counts : HierarchyCompletionCounts} {flag hasChildren : Bool}
    {d : HierarchyCompletionDecision} (hval : item.IsValid)
    (h : decideItem item counts flag hasChildren = .ok d) :
    decideItem { item with status := d.status, provenance := d.provenance } counts flag
        hasChildren = .ok d.again ∧
      ∀ p ∈ d.provenance, d.status = .completed ∧ p.priorOpenStatus.isOpen = true := by
  cases flag with
  | true =>
    cases h
    exact ⟨rfl, hval.provenance⟩
  | false =>
    obtain ⟨hcts, hflag⟩ := decideItem_carries h
    obtain ⟨hamb, hsetl⟩ := settles_of_decideItem h
    obtain ⟨hagain, hambiguous'⟩ := hsetl.again hval hamb
    obtain ⟨action, hdec, hactn⟩ := hagain.exists_decideItem hambiguous'
    refine ⟨?_, hsetl.isValid hval⟩
    rw [hdec, hactn rfl rfl, HierarchyCompletionDecision.again, hflag, hcts]
    rfl

/-- A node with what is decided about it. -/
def decideNode (f : Decisions) (item : HierarchyCompletionItem) :
    HierarchyCompletionItem :=
  { item with status := (f item.id).status, provenance := (f item.id).provenance }

lemma keepsShape_decideNode : KeepsShape items (decideNode f) :=
  ⟨fun _ _ => rfl, fun _ _ => rfl, fun _ _ => rfl, fun _ _ => rfl⟩

/-- With the decisions in the nodes, the same is decided again. -/
lemma Evaluates.again (h : Evaluates items scope f) :
    Evaluates (items.map (decideNode f)) scope fun id => (f id).again := by
  have hagain := fun item hitem =>
    decideItem_again (h.forest.valid item hitem) (h.decideItem_eq hitem)
  refine keepsShape_decideNode.evaluates h (fun item hitem => ?_)
    (fun item hitem => (hagain item hitem).1) fun _ _ => rfl
  have hval := h.forest.valid item hitem
  exact ⟨hval.id_ne_nil, hval.parent_ne_nil, hval.inside, (hagain item hitem).2⟩

/-- **A second evaluation changes nothing**: with the decided statuses and provenances in the
nodes and the policies unchanged, the same is decided for every node, and every action is
"unchanged" or "occurrence evidence required". -/
theorem completion_idempotent {evaluation : HierarchyCompletionEvaluation}
    (h : evaluateHierarchyCompletion items scope = .ok evaluation) :
    ∃ again, evaluateHierarchyCompletion (items.map evaluation.writeBack) scope = .ok again ∧
      (∀ id, id ∈ again.decisions ↔ id ∈ evaluation.decisions) ∧
      ∀ (id : ItemId) (d : HierarchyCompletionDecision), evaluation.decisions[id]? = some d →
        ∃ d', again.decisions[id]? = some d' ∧ d'.status = d.status ∧ d'.provenance = d.provenance ∧
          (d'.action = .unchanged ∨ d'.action = .occurrenceEvidenceRequired) := by
  obtain ⟨f, hf, hfds⟩ := evaluates_of_ok h
  have hwr : items.map evaluation.writeBack = items.map (decideNode f) := by
    refine map_congr_left fun item hitem => ?_
    rw [HierarchyCompletionEvaluation.writeBack, hfds.decisions_eq item hitem]
    rfl
  obtain ⟨again, hok, hfinds'⟩ := hf.again.exists_ok
  refine ⟨again, hwr ▸ hok, fun id => ?_, fun id d hd => ?_⟩
  · rw [hfinds'.keys, keepsShape_decideNode.map_ids, hfds.keys]
  · have hid := ExtTreeMap.mem_iff_exists.mpr ⟨d, hd⟩
    obtain ⟨item, hitem, rfl⟩ := mem_map.mp ((hfds.keys id).mp hid)
    cases Option.some.inj ((hfds.decisions_eq item hitem).symm.trans hd)
    refine ⟨_, hfinds'.decisions_eq (decideNode f item) (mem_map_of_mem hitem), rfl, rfl, ?_⟩
    rw [HierarchyCompletionDecision.again]
    split_ifs
    · exact .inr rfl
    · exact .inl rfl

end

/-- The decisions about a parent of two completed leaves are decided again. -/
theorem completion_idempotent_chores :
    ∃ evaluation again, evaluateHierarchyCompletion chores .oneOff = .ok evaluation ∧
      evaluateHierarchyCompletion (chores.map evaluation.writeBack) .oneOff = .ok again := by
  obtain ⟨evaluation, hok, -⟩ : ∃ evaluation,
      evaluateHierarchyCompletion chores .oneOff = .ok evaluation ∧ True := by decide +kernel
  obtain ⟨again, hagain, -⟩ := completion_idempotent hok
  exact ⟨evaluation, again, hok, hagain⟩

end DayWeave
