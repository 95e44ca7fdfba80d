import DayWeave.Scheduler.Edges

/-!
What a plan reports about hard edges of retained work.

A retained block never went through the rules of a candidate. Its hard edges are assessed at the
end: those of a manual placement by `assessManualPlacements`, all others by
`reconcileDependencyEvidence`. A broken edge of pinned work leaves a violation that names the item
(`PlanTrace.reportsDependency_of_pinned`).
-/

open List Std

namespace DayWeave

open Planner (edgesOf planOf)
open Sample
open Except (bind_eq_ok)

variable {env : Externals} {request : PlanRequest} {execution : ExecutionPlanningContext}
  {lifecycle : OccurrenceLifecycleContext} {plan : SchedulePlan} {v : PlanViolation}

/-! ### Reconciled edges -/

namespace PlanningState

variable {state : PlanningState} {items : WorkMap} {d : Dependency} {assessed : List AssessedBlock}
  {successor : Span}

/-- The finding about a hard edge is a violation unless the edge is kept. -/
lemma reconcileEdge_spec (hhard : d.strength.isHard) (successorId : ItemId) (successor : Span)
    (first last : ℕ) :
    (∃ message, state.reconcileEdge request items successorId successor first last d =
      .violation (retainedHardDependencyViolation successorId d.itemId successor message)) ∨
    ∃ predecessor ∈ finalBounds state.unscheduled state.blocks items d,
      ∃ boundary, dependencyBoundary d successor predecessor = some boundary ∧
        boundary.2 ≤ boundary.1 := by
  unfold reconcileEdge
  dsimp only
  split
  · exact .inl ⟨_, if_pos hhard⟩
  · rename_i predecessor hpred
    split
    · rename_i hany
      obtain ⟨boundary, hbdry, hle⟩ := (Option.any_eq_true _ _).mp hany
      exact .inr ⟨predecessor, hpred, boundary, hbdry, of_decide_eq_true hle⟩
    · exact .inl ⟨_, rfl⟩

/-- The findings about an item that has blocks. -/
lemma exists_reconcileItem_eq {entry : ItemId × List Dependency}
    (hbds : boundsOf (blocksOf state.blocks entry.1) = some successor) :
    ∃ first last, state.reconcileItem request items assessed entry =
      (entry.2.filter (state.edgeIsReconciled items assessed entry.1
        (blocksOf state.blocks entry.1) successor)).map
          (state.reconcileEdge request items entry.1 successor first last) := by
  have hpositions : state.blocks.zipIdx.filter (fun b => b.1.itemId = some entry.1) ≠ [] := by
    intro hnil
    have hnone : blocksOf state.blocks entry.1 = [] := by
      have hfilt := filter_map (f := Prod.fst) (p := fun b => b.itemId = some entry.1)
        (l := state.blocks.zipIdx)
      rw [zipIdx_map_fst] at hfilt
      exact hfilt.trans (congrArg _ hnil)
    rw [hnone] at hbds
    cases hbds
  obtain ⟨block, rest, hcons⟩ := exists_cons_of_ne_nil hpositions
  unfold reconcileItem
  dsimp only
  rw [hcons, hbds]
  exact ⟨_, _, rfl⟩

/-- A hard edge that is assessed here and not kept leaves a violation. -/
lemma exists_violation_of_reconciled {dependencies : EdgeMap} {id : ItemId}
    (hd : d ∈ dependencies.getD id []) (hhard : d.strength.isHard)
    (hbds : boundsOf (blocksOf state.blocks id) = some successor)
    (hrecon : state.edgeIsReconciled items assessed id (blocksOf state.blocks id) successor d)
    (hbrk : ¬ ∃ predecessor ∈ finalBounds state.unscheduled state.blocks items d,
      ∃ boundary, dependencyBoundary d successor predecessor = some boundary ∧
        boundary.2 ≤ boundary.1) :
    ∃ v ∈ (state.reconcileDependencyEvidence request items dependencies assessed).violations,
      v.kind = .dependency ∧ v.severity = .error ∧ id ∈ v.itemIds := by
  have hent : (id, dependencies.getD id []) ∈ dependencies.toList := by
    rw [ExtTreeMap.mem_toList_iff_getElem?_eq_some]
    rw [ExtTreeMap.getD_eq_getD_getElem?] at hd ⊢
    cases hlook : dependencies[id]? with
    | none =>
      rw [hlook] at hd
      cases hd
    | some list => rfl
  obtain ⟨first, last, hitem⟩ := @exists_reconcileItem_eq request state items assessed
    successor (id, dependencies.getD id []) hbds
  obtain ⟨message, hfinding⟩ :=
    (reconcileEdge_spec hhard id successor first last).resolve_right hbrk
  refine ⟨retainedHardDependencyViolation id d.itemId successor message, ?_, rfl, rfl,
    mem_dedupBy_beq.mpr ((mem_sortBy _).mpr mem_cons_self)⟩
  refine mem_append_right _ (mem_filterMap.mpr ⟨.violation _, ?_, rfl⟩)
  refine mem_flatMap.mpr ⟨_, hent, ?_⟩
  rw [hitem, ← hfinding]
  exact mem_map_of_mem (mem_filter.mpr ⟨hd, hrecon⟩)

end PlanningState

/-! ### Manual placements -/

namespace ManualAssessment

/-- A broken dependency of the item is recorded, or there is too much evidence. -/
def Records (id : ItemId) (evidence : ManualEvidence) : Prop :=
  evidence.overflow.isSome ∨ ∃ key : Uuid, ∃ list ∈ evidence.assessments[key]?,
    ∃ v ∈ list, v.code = .dependency ∧ v.itemIds = [id]

lemma Records.insert {id : ItemId} {evidence : ManualEvidence} (h : Records id evidence)
    {key : Uuid} {new : List ManualPlacementViolation} {evidence' : ManualEvidence}
    (hoverflow : evidence'.overflow = evidence.overflow)
    (hasmts : evidence'.assessments =
      evidence.assessments.insert key (evidence.assessments.getD key [] ++ new)) :
    Records id evidence' := by
  rcases h with h | ⟨other, list, hlook, v, hv, hcode, hids⟩
  · exact .inl (hoverflow ▸ h)
  · right
    by_cases heq : key = other
    · subst heq
      refine ⟨key, list ++ new, ?_, v, mem_append_left _ hv, hcode, hids⟩
      rw [hasmts, ExtTreeMap.getElem?_insert_self, ExtTreeMap.getD_eq_getD_getElem?, hlook]
      rfl
    · refine ⟨other, list, ?_, v, hv, hcode, hids⟩
      rw [hasmts, ExtTreeMap.getElem?_insert]
      simpa [heq] using hlook

section

variable {placementId : Uuid} {itemId id : ItemId} {occurrenceId : Option OccurrenceId}
  {source : PreviousBlock} {evidence : ManualEvidence} {finding : PlacementFinding}

lemma Records.pushFinding (h : Records id evidence) :
    Records id (pushFinding placementId itemId occurrenceId source evidence finding) := by
  unfold ManualAssessment.pushFinding
  split
  · exact .inl rfl
  · exact h.insert rfl rfl

lemma records_pushFinding (h : finding.code = .dependency) :
    Records itemId (pushFinding placementId itemId occurrenceId source evidence finding) := by
  unfold ManualAssessment.pushFinding
  split
  · exact .inl rfl
  · exact .inr ⟨placementId, _, ExtTreeMap.getElem?_insert_self, _,
      mem_append_right _ (mem_singleton_self _), h, rfl⟩

lemma Records.foldl (findings : List PlacementFinding) (h : Records id evidence) :
    Records id (findings.foldl (ManualAssessment.pushFinding placementId itemId occurrenceId source)
      evidence) :=
  foldlRecOn findings _ h fun _ hs _ _ => hs.pushFinding

variable {items : WorkMap} {item : WorkItem} {d : Dependency} {evidence' : ManualEvidence}
  {findings : List PlacementFinding}

/-- The placement keeps an edge. -/
def KeepsEdge (items : WorkMap) (plan : SchedulePlan) (source : PreviousBlock)
    (d : Dependency) : Prop :=
  ∃ predecessor ∈ finalBounds plan.unscheduled plan.blocks items d,
    ∃ boundary, dependencyBoundary d (placed source) predecessor = some boundary ∧
      boundary.2 ≤ boundary.1

/-- A hard edge that the placement does not keep is found. -/
lemma exists_edgeFinding (h : edgeFindings items plan item source d = .ok findings)
    (hbrk : ¬ KeepsEdge items plan source d) : ∃ f ∈ findings, f.code = .dependency := by
  unfold edgeFindings at h
  split at h
  · cases h
    exact ⟨_, mem_singleton_self _, rfl⟩
  · rename_i predecessor hpred
    split at h
    · cases h
    · rename_i observed required hbdry
      cases h
      have hfalse := decide_eq_false fun hle =>
        hbrk ⟨predecessor, hpred, (observed, required), hbdry, hle⟩
      rw [hfalse]
      exact ⟨_, mem_singleton_self _, rfl⟩

lemma exists_blockFinding {dependencies : List Dependency}
    (h : blockFindings request items plan item source dependencies = .ok findings)
    (hd : d ∈ dependencies) (happlies : edgeApplies items plan item source d)
    (hbrk : ¬ KeepsEdge items plan source d) : ∃ f ∈ findings, f.code = .dependency := by
  obtain ⟨notice, -, h⟩ := bind_eq_ok.mp h
  obtain ⟨edges, hedges, h⟩ := bind_eq_ok.mp h
  obtain ⟨buffers, -, h⟩ := bind_eq_ok.mp h
  cases h
  obtain ⟨found, hfnd, hmem⟩ := Except.exists_mem_of_mapM hedges (mem_filter.mpr ⟨hd, happlies⟩)
  obtain ⟨f, hf, hcode⟩ := exists_edgeFinding hfnd hbrk
  exact ⟨f, by simp [mem_flatten_of_mem hmem hf], hcode⟩

section

variable {dependencies : List Dependency} {placementId : Uuid} {occurrenceId : Option OccurrenceId}

lemma Records.assessBlock (h : Records id evidence)
    (hrun : assessBlock request items plan item dependencies placementId occurrenceId evidence
      source = .ok evidence') : Records id evidence' := by
  unfold ManualAssessment.assessBlock at hrun
  split at hrun
  · cases hrun
    exact h
  · obtain ⟨findings, -, hrun⟩ := bind_eq_ok.mp hrun
    cases hrun
    exact h.foldl findings

lemma records_assessBlock (hd : d ∈ dependencies) (happlies : edgeApplies items plan item source d)
    (hbrk : ¬ KeepsEdge items plan source d)
    (hrun : assessBlock request items plan item dependencies placementId occurrenceId evidence
      source = .ok evidence') : Records item.id evidence' := by
  unfold ManualAssessment.assessBlock at hrun
  split at hrun
  · cases hrun
    exact .inl ‹_›
  · obtain ⟨findings, hfindings, hrun⟩ := bind_eq_ok.mp hrun
    cases hrun
    obtain ⟨f, hf, hcode⟩ := exists_blockFinding hfindings hd happlies hbrk
    obtain ⟨pre, post, rfl⟩ := append_of_mem hf
    rw [foldl_append, foldl_cons]
    exact Records.foldl post (records_pushFinding hcode)

end

variable {dependencies : EdgeMap} {assignment : PreviousAssignment}

lemma Records.assessAssignment (h : Records id evidence)
    (hrun : assessAssignment request items dependencies plan evidence assignment = .ok evidence') :
    Records id evidence' := by
  unfold ManualAssessment.assessAssignment at hrun
  split at hrun
  · cases hrun
    exact h
  · rename_i placementId _
    have hentered : Records id { evidence with
        assessments := evidence.assessments.insert placementId
          (evidence.assessments.getD placementId []) } :=
      @Records.insert id _ h placementId [] _ rfl (by rw [append_nil])
    split at hrun
    · cases hrun
      exact hentered
    · exact Except.foldlM_invariant (fun _ _ _ _ hround hs => hs.assessBlock hround) hrun hentered

lemma records_assessAssignment (hmanual : assignment.manualPlacementId.isSome)
    (hitem : items[assignment.itemId]? = some item) (hsrc : source ∈ assignment.blocks)
    (hd : d ∈ dependencies.getD item.id []) (happlies : edgeApplies items plan item source d)
    (hbrk : ¬ KeepsEdge items plan source d)
    (hrun : assessAssignment request items dependencies plan evidence assignment = .ok evidence') :
    Records item.id evidence' := by
  obtain ⟨placementId, hplacement⟩ := Option.isSome_iff_exists.mp hmanual
  rw [ManualAssessment.assessAssignment, hplacement] at hrun
  rw [hitem] at hrun
  exact Except.foldlM_establishes (fun _ _ _ hround hs => hs.assessBlock hround) hsrc
    (fun _ _ hround => records_assessBlock hd happlies hbrk hround) hrun

end

end ManualAssessment

namespace ManualPlacementViolation

/-- A violation that is recorded is in the assessment, up to repetitions. -/
lemma exists_mem_normalize {l : List ManualPlacementViolation} {v : ManualPlacementViolation}
    (h : v ∈ l) : ∃ u ∈ normalize l, u.code = v.code ∧ u.itemIds = v.itemIds := by
  obtain ⟨u, hu, rfl | hsame⟩ := exists_mem_dedupBy same ((mem_sortBy _).mpr (mem_map_of_mem h))
  · exact ⟨_, hu, rfl, rfl⟩
  · simp only [same, Bool.and_eq_true, decide_eq_true_eq] at hsame
    obtain ⟨⟨⟨⟨⟨⟨⟨⟨⟨⟨hcode, hids⟩, -⟩, -⟩, -⟩, -⟩, -⟩, -⟩, -⟩, -⟩, -⟩ := hsame
    exact ⟨u, hu, hcode, hids⟩

end ManualPlacementViolation

/-- **Manual placements**: a hard edge that a manual placement has to keep and does not
keep is in the assessments. -/
theorem exists_violation_of_manual {assessments : List ManualPlacementAssessment}
    (h : assessManualPlacements env request plan = .ok assessments)
    {assignment : PreviousAssignment} (hasgn : assignment ∈ request.previousAssignments)
    (hpin : assignment.pinned ∧ assignment.manualPlacementId.isSome) {item : WorkItem}
    (hitem : (itemsById request.items)[assignment.itemId]? = some item) {source : PreviousBlock}
    (hsrc : source ∈ assignment.blocks) {d : Dependency}
    (hd : d ∈ (edgesOf request).getD item.id [])
    (happlies : ManualAssessment.edgeApplies (itemsById request.items) plan item source d)
    (hbrk : ¬ ManualAssessment.KeepsEdge (itemsById request.items) plan source d) :
    ∃ a ∈ assessments, ∃ v ∈ a.violations, v.code = .dependency ∧ v.itemIds = [item.id] := by
  obtain ⟨evidence, hevid, h⟩ := bind_eq_ok.mp h
  have hrecords := Except.foldlM_establishes (fun _ _ _ hround hs => hs.assessAssignment hround)
      (mem_filter.mpr ⟨hasgn, by simp [hpin]⟩)
      (fun _ _ hround => ManualAssessment.records_assessAssignment hpin.2 hitem hsrc hd
        happlies hbrk hround) hevid
  split at h
  · cases h
  · rename_i hoverflow
    cases h
    rcases hrecords with hsome | ⟨key, list, hlook, v, hv, hcode, hids⟩
    · rw [hoverflow] at hsome
      cases hsome
    · obtain ⟨u, hu, hucode, huids⟩ := ManualPlacementViolation.exists_mem_normalize hv
      refine ⟨_, mem_map_of_mem (ExtTreeMap.mem_toList_iff_getElem?_eq_some.mpr hlook), u,
        hu, hucode.trans hcode, huids.trans hids⟩

/-! ### Violations of the plan -/

lemma mem_itemIds_remapViolation (identities : IdentityMap) {id : ItemId} (h : id ∈ v.itemIds) :
    (publicIdentity identities id).itemId ∈ (remapViolation identities v).itemIds ∧
      ∀ o ∈ (publicIdentity identities id).occurrenceId,
        o ∈ (remapViolation identities v).occurrenceIds := by
  refine ⟨?_, fun o ho => ?_⟩
  · exact mem_dedupBy_beq.mpr ((mem_sortBy _).mpr (mem_map_of_mem h))
  · exact mem_dedupBy_beq.mpr ((mem_sortBy _).mpr (mem_append_right _
      (mem_filterMap.mpr ⟨id, h, ho⟩)))

namespace PlanTrace

variable (trace : PlanTrace env request execution lifecycle plan) {id : ItemId} {d : Dependency}
  {bounds : Span} {item : WorkItem}

lemma violations_eq : plan.violations =
    (sortBy PlanningState.violationOrder trace.reconciled.violations ++
      trace.assessments.flatMap fun assessment =>
        assessment.violations.map ManualPlacementViolation.asPlanViolation).map
      (remapViolation trace.prepared.identities) :=
  congrArg (·.violations) trace.plan_eq

lemma reportsDependency_of_reconciled (hv : v ∈ trace.reconciled.violations)
    (hkind : v.kind = .dependency) (hseverity : v.severity = .error) (hid : id ∈ v.itemIds) :
    plan.ReportsDependency (trace.identity id) := by
  refine ⟨remapViolation trace.prepared.identities v, ?_, hkind, hseverity,
    mem_itemIds_remapViolation _ hid⟩
  rw [trace.violations_eq]
  exact mem_map_of_mem (mem_append_left _ ((mem_sortBy _).mpr hv))

lemma reportsDependency_of_assessed {a : ManualPlacementAssessment} (ha : a ∈ trace.assessments)
    {v : ManualPlacementViolation} (hv : v ∈ a.violations) (hcode : v.code = .dependency)
    (hid : id ∈ v.itemIds) : plan.ReportsDependency (trace.identity id) := by
  have hnames : id ∈ v.asPlanViolation.itemIds :=
    mem_dedupBy_beq.mpr ((mem_sortBy _).mpr (mem_append_left _ hid))
  refine ⟨remapViolation trace.prepared.identities v.asPlanViolation, ?_, ?_, rfl,
    mem_itemIds_remapViolation _ hnames⟩
  · rw [trace.violations_eq]
    exact mem_map_of_mem (mem_append_right _ (mem_flatMap.mpr ⟨a, ha, mem_map_of_mem hv⟩))
  · exact congrArg ManualPlacementViolationCode.violationKind hcode

/-! ### The plan before it is named -/

/-- The plan that manual placements are assessed against. -/
abbrev inner : SchedulePlan := planOf trace.prepared.request trace.final

lemma instantBounds_inner (id : ItemId) :
    instantBounds ((blocksOf trace.inner.blocks id).map ScheduleBlock.interval) =
      instantBounds ((blocksOf trace.final.blocks id).map ScheduleBlock.interval) := by
  have hcore : ∀ l : List ScheduleBlock, (blocksOf l id).map ScheduleBlock.interval =
      (blocksOf (l.map ScheduleBlock.core) id).map ScheduleBlock.interval := fun l => by
    rw [blocksOf, blocksOf, filter_map, map_map]
    rfl
  refine instantBounds_perm ?_
  rw [hcore trace.final.blocks, ← trace.map_core_reconciled, ← hcore]
  exact ((sortBy_perm PlanningState.blockOrder trace.reconciled.blocks).filter _).map _

lemma map_finalBounds_inner (d : Dependency) :
    (finalBounds trace.inner.unscheduled trace.inner.blocks
        (itemsById trace.prepared.request.items) d).map (fun s => (s.start.nanos, s.finish.nanos)) =
      (finalBounds trace.final.unscheduled trace.final.blocks
        (itemsById trace.prepared.request.items) d).map
          (fun s => (s.start.nanos, s.finish.nanos)) := by
  have hrem : hasRemainingWork trace.inner.unscheduled d.itemId =
      hasRemainingWork trace.final.unscheduled d.itemId :=
    (sortBy_perm (compareOn UnscheduledWork.itemId) trace.final.unscheduled).any_eq
  rw [map_finalBounds, map_finalBounds, trace.instantBounds_inner, hrem]

/-- The block sets the bound of its item that an edge reads. -/
def SetsBound (d : Dependency) (block bounds : Span) : Prop :=
  if dependencyUsesSuccessorFinish d.relation then block.finish.nanos = bounds.finish.nanos
  else block.start.nanos = bounds.start.nanos

/-- A manual placement that sets the bound of its item and keeps an edge keeps it for the
item. -/
lemma keepsEdge_of_manual {source : PreviousBlock}
    (hbds : boundsOf (blocksOf trace.final.blocks id) = some bounds)
    (hsets : SetsBound d (ManualAssessment.placed source) bounds)
    (h : ManualAssessment.KeepsEdge (itemsById trace.prepared.request.items) trace.inner source d) :
    trace.KeepsEdge id d := by
  obtain ⟨predecessor, hpred, boundary, hbdry, hle⟩ := h
  have hkeep := boundsKeep_of_dependencyBoundary hbdry hle
  refine (trace.keepsEdge_iff id d).mpr ⟨_, Option.mem_map_of_mem _ hbds,
    (predecessor.start.nanos, predecessor.finish.nanos), ?_, ?_⟩
  · rw [← trace.map_finalBounds_inner]
    exact Option.mem_map_of_mem _ hpred
  · unfold boundsKeep at hkeep ⊢
    unfold SetsBound at hsets
    split_ifs at hkeep hsets ⊢ <;> exact hsets ▸ hkeep

/-- A block whose bound is assessed elsewhere belongs to a manual placement. -/
lemma exists_manual (hmem : item ∈ trace.prepared.request.items)
    (h : PlanningState.boundaryIsManuallyAssessed
      (manuallyAssessedBlocks trace.prepared.request.previousAssignments) item.id
      (blocksOf trace.final.blocks item.id) bounds d) :
    ∃ assignment ∈ trace.prepared.request.previousAssignments,
      (assignment.pinned ∧ assignment.manualPlacementId.isSome) ∧
      (itemsById trace.prepared.request.items)[assignment.itemId]? = some item ∧
      ∃ source ∈ assignment.blocks, SetsBound d (ManualAssessment.placed source) bounds := by
  obtain ⟨b, hb, hand⟩ := any_eq_true.mp h
  obtain ⟨hbdry, hassessed⟩ := Bool.and_eq_true_iff.mp hand
  obtain ⟨a, ha, hblock⟩ := any_eq_true.mp hassessed
  obtain ⟨assignment, hasgn, ha⟩ := mem_flatMap.mp ha
  obtain ⟨source, hsrc, rfl⟩ := mem_map.mp ha
  obtain ⟨hasgn, hpin⟩ := mem_filter.mp hasgn
  simp only [AssessedBlock.isBlock, OffsetDateTime.sameInstant, Bool.and_eq_true,
    decide_eq_true_eq, beq_iff_eq] at hblock
  obtain ⟨⟨⟨hid, -⟩, hst⟩, hfin⟩ := hblock
  refine ⟨assignment, hasgn, Bool.and_eq_true_iff.mp hpin, ?_, source, hsrc, ?_⟩
  · rw [hid]
    exact getElem?_itemsById trace.valid.nodup hmem
  · simp only [OffsetDateTime.sameInstant] at hbdry
    unfold SetsBound ManualAssessment.placed
    split_ifs at hbdry ⊢
    · exact hfin.trans (eq_of_beq hbdry)
    · exact hst.trans (eq_of_beq hbdry)

/-- The assessment looks at an edge whose bound the placement sets. -/
lemma edgeApplies_of_setsBound (hhard : d.strength.isHard)
    (hopen : PredecessorOpen (itemsById trace.prepared.request.items) d) {source : PreviousBlock}
    (hbds : boundsOf (blocksOf trace.final.blocks item.id) = some bounds)
    (hsets : SetsBound d (ManualAssessment.placed source) bounds) :
    ManualAssessment.edgeApplies (itemsById trace.prepared.request.items) trace.inner item source
      d := by
  have hsame : ∀ inner ∈ boundsOf (blocksOf trace.inner.blocks item.id),
      inner.start.nanos = bounds.start.nanos ∧ inner.finish.nanos = bounds.finish.nanos := by
    intro inner hinner
    have heq := trace.instantBounds_inner item.id
    rw [instantBounds, instantBounds, show HalfOpen.hull _ = _ from hinner,
      show HalfOpen.hull _ = _ from hbds] at heq
    simpa using heq
  unfold SetsBound ManualAssessment.placed at hsets
  unfold ManualAssessment.edgeApplies
  simp only [hhard, hopen, Bool.not_false, Bool.true_and, Bool.and_true]
  split_ifs at hsets ⊢
  · exact (Option.all_eq_true _ _).mpr fun inner hinner =>
      beq_iff_eq.mpr (hsets.trans (hsame inner hinner).2.symm)
  · exact (Option.all_eq_true _ _).mpr fun inner hinner =>
      beq_iff_eq.mpr (hsets.trans (hsame inner hinner).1.symm)

/-- A broken hard edge of pinned work is reported. -/
theorem reportsDependency_of_pinned (hmem : item ∈ trace.prepared.request.items)
    (hpin : ∃ b ∈ blocksOf trace.final.blocks item.id, b.kind = .pinned)
    (hd : d ∈ (edgesOf trace.prepared.request).getD item.id []) (hhard : d.strength.isHard)
    (hopen : PredecessorOpen (itemsById trace.prepared.request.items) d)
    (hfin : dependencyUsesSuccessorFinish d.relation →
      ¬ hasRemainingWork trace.final.unscheduled item.id) (hbrk : ¬ trace.KeepsEdge item.id d) :
    plan.ReportsDependency (trace.identity item.id) := by
  obtain ⟨b, hb, hkind⟩ := hpin
  cases hbds : boundsOf (blocksOf trace.final.blocks item.id) with
  | none =>
    rw [map_eq_nil_iff.mp (HalfOpen.hull_eq_none.mp hbds)] at hb
    cases hb
  | some bounds =>
    by_cases hmanual : PlanningState.boundaryIsManuallyAssessed
        (manuallyAssessedBlocks trace.prepared.request.previousAssignments) item.id
        (blocksOf trace.final.blocks item.id) bounds d
    · -- a pinned block sets the bound, and its assessment reports the edge
      obtain ⟨assignment, hasgn, hpin, hitem, source, hsrc, hsets⟩ :=
        trace.exists_manual hmem hmanual
      obtain ⟨a, ha, v, hv, hcode, hids⟩ := exists_violation_of_manual trace.assessments_eq
        hasgn hpin hitem hsrc hd
        (trace.edgeApplies_of_setsBound hhard hopen hbds hsets)
        (mt (trace.keepsEdge_of_manual hbds hsets) hbrk)
      exact trace.reportsDependency_of_assessed ha hv hcode (hids ▸ mem_singleton_self _)
    · -- otherwise the reconciliation of the edges does
      have hany : (blocksOf trace.final.blocks item.id).any (fun b => b.kind = .pinned) = true :=
        any_eq_true.mpr ⟨b, hb, decide_eq_true hkind⟩
      have hdone : (dependencyUsesSuccessorFinish d.relation &&
          hasRemainingWork trace.final.unscheduled item.id) = false := by
        cases hf : dependencyUsesSuccessorFinish d.relation with
        | false => rfl
        | true => simpa using hfin hf
      have hrecon : trace.final.edgeIsReconciled (itemsById trace.prepared.request.items)
          (manuallyAssessedBlocks trace.prepared.request.previousAssignments) item.id
          (blocksOf trace.final.blocks item.id) bounds d := by
        simp [PlanningState.edgeIsReconciled, hany, hmanual, hdone, hopen]
      obtain ⟨v, hv, hkind, hseverity, hid⟩ :=
        PlanningState.exists_violation_of_reconciled hd hhard hbds hrecon
          fun hkept => hbrk (trace.keepsEdge_of_finalEdge ⟨bounds, hbds, hkept⟩)
      exact trace.reportsDependency_of_reconciled hv hkind hseverity hid

/-- The blocks of work that is no event are pinned or planned. -/
lemma pinned_or_planned (hmem : item ∈ trace.prepared.request.items)
    (hflex : ¬ item.kind.isCalendarEvent) :
    ∀ b ∈ blocksOf trace.final.blocks item.id, b.kind = .pinned ∨ b.kind = .planned := by
  intro b hb
  obtain ⟨hfnl, hid⟩ := mem_filter.mp hb
  rw [trace.final_blocks, mem_append] at hfnl
  rcases hfnl with hst | hpld
  · obtain ⟨-, howned⟩ := trace.onlyRetained.owned b hst
    obtain ⟨other, hoth, hothers, hkind | ⟨-, hevent⟩⟩ := howned item.id (of_decide_eq_true hid)
    · exact .inl hkind
    · exact absurd (inj_on_of_nodup_map trace.valid.nodup hoth hmem hothers ▸ hevent) hflex
  · obtain ⟨p, -, rfl⟩ := mem_map.mp hpld
    exact .inr rfl

end PlanTrace

/-- **Hard edges**: the plan reports every hard edge of work that is no event and has blocks,
unless it keeps the edge; and if the planner has placed all of these blocks, the edge is
kept. -/
theorem hardEdge_kept_or_reported (trace : PlanTrace env request execution lifecycle plan)
    {item : WorkItem} (hmem : item ∈ trace.prepared.request.items)
    (hflex : ¬ item.kind.isCalendarEvent) {d : Dependency}
    (hd : d ∈ (edgesOf trace.prepared.request).getD item.id []) (hhard : d.strength.isHard)
    (hopen : PredecessorOpen (itemsById trace.prepared.request.items) d)
    (hbl : plan.blocksNamed (publicIdentity trace.prepared.identities item.id) ≠ [])
    (hfin : dependencyUsesSuccessorFinish d.relation →
      ¬ plan.hasRemaining (publicIdentity trace.prepared.identities item.id)) :
    (¬ plan.EdgeHolds (itemsById trace.prepared.request.items)[d.itemId]?
          (publicIdentity trace.prepared.identities item.id)
          (publicIdentity trace.prepared.identities d.itemId) d →
        plan.ReportsDependency (publicIdentity trace.prepared.identities item.id)) ∧
      ((∀ b ∈ plan.blocksNamed (publicIdentity trace.prepared.identities item.id),
          b.kind = .planned) → plan.EdgeHolds (itemsById trace.prepared.request.items)[d.itemId]?
          (publicIdentity trace.prepared.identities item.id)
          (publicIdentity trace.prepared.identities d.itemId) d) := by
  have hfnl := mt (trace.blocksNamed_eq_nil item.id).mpr hbl
  rw [trace.hasRemaining_eq] at hfin
  have hpln : (∀ b ∈ blocksOf trace.final.blocks item.id, b.kind = .planned) →
      trace.KeepsEdge item.id d := fun h =>
    trace.keepsEdge_of_finalEdge (trace.finalEdge_of_planned hmem hfnl h hd hhard hopen hfin)
  refine ⟨fun hbrk => ?_, fun h => hpln (trace.planned_of_blocksNamed h)⟩
  refine trace.reportsDependency_of_pinned hmem ?_ hd hhard hopen hfin hbrk
  by_contra hnone
  exact hbrk (hpln fun b hb => (trace.pinned_or_planned hmem hflex b hb).resolve_left
    fun hpin => hnone ⟨b, hb, hpin⟩)

namespace Sample

/-- A hard edge to the first task. -/
def afterTask : Dependency := ⟨(task 1 30).id, .finishToStart, 0, .hard⟩

/-- Half an hour of work after the first task. -/
def followingTask : WorkItem := { task 2 30 with constraints := { dependencies := [afterTask] } }

/-- A meeting that should come after the first task, but starts at once. -/
def followingEvent : WorkItem :=
  { task 2 30 with
    kind := .calendarEvent ⟨.atSecond 0, .atSecond 1800, true⟩
    duration := none
    constraints := { dependencies := [afterTask] } }

end Sample

/-- A task after another one. -/
theorem hardEdge_kept_or_reported_followingTask :
    ∃ plan, Sample.plan (Sample.request [task 1 30, followingTask]) = .ok plan ∧
      ∃ trace : PlanTrace externals (Sample.request [task 1 30, followingTask]) {} {} plan,
        (¬ plan.EdgeHolds (itemsById trace.prepared.request.items)[afterTask.itemId]?
            (publicIdentity trace.prepared.identities followingTask.id)
            (publicIdentity trace.prepared.identities afterTask.itemId) afterTask →
          plan.ReportsDependency (publicIdentity trace.prepared.identities followingTask.id)) ∧
        ((∀ b ∈ plan.blocksNamed (publicIdentity trace.prepared.identities followingTask.id),
            b.kind = .planned) →
          plan.EdgeHolds (itemsById trace.prepared.request.items)[afterTask.itemId]?
            (publicIdentity trace.prepared.identities followingTask.id)
            (publicIdentity trace.prepared.identities afterTask.itemId) afterTask) := by
  obtain ⟨plan, hplan, trace, hits, hedge, hopen, hbl⟩ := exists_trace
    (Sample.request [task 1 30, followingTask])
    (fun prepared _ plan => prepared.request.items = [task 1 30, followingTask] ∧
      afterTask ∈ (edgesOf prepared.request).getD followingTask.id [] ∧
      PredecessorOpen (itemsById prepared.request.items) afterTask ∧
      plan.blocksNamed (publicIdentity prepared.identities followingTask.id) ≠ [])
    (by decide +kernel)
  exact ⟨plan, hplan, trace, hardEdge_kept_or_reported trace (by rw [hits]; simp) (by decide)
    hedge rfl hopen hbl fun hf => nomatch hf⟩

/-- A meeting with a hard edge that the plan breaks and does not report. -/
theorem not_hardEdge_followingEvent :
    ∃ plan, Sample.plan (Sample.request [task 1 30, followingEvent]) = .ok plan ∧
      ∃ trace : PlanTrace externals (Sample.request [task 1 30, followingEvent]) {} {} plan,
        followingEvent ∈ trace.prepared.request.items ∧
        afterTask ∈ (edgesOf trace.prepared.request).getD followingEvent.id [] ∧
        PredecessorOpen (itemsById trace.prepared.request.items) afterTask ∧
        plan.blocksNamed (publicIdentity trace.prepared.identities followingEvent.id) ≠ [] ∧
        ¬ plan.EdgeHolds (itemsById trace.prepared.request.items)[afterTask.itemId]?
            (publicIdentity trace.prepared.identities followingEvent.id)
            (publicIdentity trace.prepared.identities afterTask.itemId) afterTask ∧
        ¬ plan.ReportsDependency (publicIdentity trace.prepared.identities followingEvent.id) := by
  exact exists_trace (Sample.request [task 1 30, followingEvent]) (fun prepared _ plan =>
      followingEvent ∈ prepared.request.items ∧
      afterTask ∈ (edgesOf prepared.request).getD followingEvent.id [] ∧
      PredecessorOpen (itemsById prepared.request.items) afterTask ∧
      plan.blocksNamed (publicIdentity prepared.identities followingEvent.id) ≠ [] ∧
      ¬ plan.EdgeHolds (itemsById prepared.request.items)[afterTask.itemId]?
          (publicIdentity prepared.identities followingEvent.id)
          (publicIdentity prepared.identities afterTask.itemId) afterTask ∧
      ¬ plan.ReportsDependency (publicIdentity prepared.identities followingEvent.id))
    (by decide +kernel)

end DayWeave
