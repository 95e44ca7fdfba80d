import DayWeave.Scheduler.Conservation

/-!
Hard edges in the finished plan.

Work that the planner placed itself keeps its hard edges: they are tested when a session is
placed, and the predecessors have had their turn before (`edgeHolds_of_planned`). Pinned work is
assessed at the end (`exists_violation_of_pinned`). Events are not assessed at all.
-/

open List Std

namespace DayWeave

open HalfOpen (hull hull_contains)
open OffsetDateTime (le_def)
open ScheduleBlock (interval)

variable {env : Externals} {request : PlanRequest} {execution : ExecutionPlanningContext}
  {lifecycle : OccurrenceLifecycleContext} {plan : SchedulePlan} {blocks : List ScheduleBlock}
  {id : ItemId} {successor : Span}

/-! ### Bounds as instants -/

/-- The first start and the last end of some stretches. -/
def instantBounds (spans : List Span) : Option (Int × Int) :=
  (hull spans).map fun s => (s.start.nanos, s.finish.nanos)

lemma instantBounds_perm {l l' : List Span} (h : l.Perm l') :
    instantBounds l = instantBounds l' := by
  unfold instantBounds
  cases hl : hull l with
  | none =>
    have : l' = [] := nil_perm.mp (HalfOpen.hull_eq_none.mp hl ▸ h)
    rw [this]
    rfl
  | some a =>
    cases hl' : hull l' with
    | none =>
      have : l = [] := perm_nil.mp (HalfOpen.hull_eq_none.mp hl' ▸ h)
      rw [this] at hl
      cases hl
    | some b =>
      obtain ⟨⟨x, hx, hxs⟩, y, hy, hyf⟩ := HalfOpen.exists_ends_of_hull hl
      obtain ⟨⟨u, hu, hus⟩, v, hv, hvf⟩ := HalfOpen.exists_ends_of_hull hl'
      -- each end is an end of a member, which the other hull contains
      have h1 := le_def.mp (hull_contains hl' (h.mem_iff.mp hx)).1
      have h2 := le_def.mp (hull_contains hl' (h.mem_iff.mp hy)).2
      have h3 := le_def.mp (hull_contains hl (h.mem_iff.mpr hu)).1
      have h4 := le_def.mp (hull_contains hl (h.mem_iff.mpr hv)).2
      rw [← hxs] at h1
      rw [← hyf] at h2
      rw [← hus] at h3
      rw [← hvf] at h4
      simp only [Option.map_some, Option.some.injEq, Prod.mk.injEq]
      omega

/-- Whether the bounds of successor and predecessor keep an edge. -/
def boundsKeep (d : Dependency) (successor predecessor : Int × Int) : Prop :=
  (if dependencyUsesPredecessorStart d.relation then predecessor.1 else predecessor.2) +
      d.minimumLag.toDuration ≤
    if dependencyUsesSuccessorFinish d.relation then successor.2 else successor.1

instance (d : Dependency) (successor predecessor : Int × Int) :
    Decidable (boundsKeep d successor predecessor) :=
  inferInstanceAs (Decidable (_ ≤ (_ : Int)))

/-- The comparison of the planner is one of instants. -/
lemma boundsKeep_of_dependencyBoundary {d : Dependency} {predecessor : Span}
    {boundary : OffsetDateTime × OffsetDateTime}
    (h : dependencyBoundary d successor predecessor = some boundary)
    (hle : boundary.2 ≤ boundary.1) :
    boundsKeep d (successor.start.nanos, successor.finish.nanos)
      (predecessor.start.nanos, predecessor.finish.nanos) := by
  obtain ⟨required, hreq, rfl⟩ := Option.map_eq_some_iff.mp h
  have hn := OffsetDateTime.nanos_of_checkedAdd hreq
  rw [le_def] at hle
  unfold boundsKeep
  rw [hn] at hle
  split_ifs at hle ⊢ <;> exact hle

/-- The bounds of a predecessor that an edge can use, from those of its blocks. Work that is
terminal or blocked has none, work that remains has no end, and an event without a block
has its source time. -/
def predecessorBounds (predecessor : Option WorkItem) (remaining : Bool)
    (own : Option (Int × Int)) (relation : DependencyRelation) : Option (Int × Int) :=
  if predecessor.any fun item => item.status.isTerminal || decide (item.status = .blocked) then none
  else if remaining && !dependencyUsesPredecessorStart relation then none
  else
    own.or (match predecessor.map WorkItem.kind with
       | some (.calendarEvent event) => some (event.start.nanos, event.finish.nanos)
       | _ => none)

lemma map_finalBounds (unscheduled : List UnscheduledWork) (blocks : List ScheduleBlock)
    (items : WorkMap) (d : Dependency) :
    (finalBounds unscheduled blocks items d).map (fun s => (s.start.nanos, s.finish.nanos)) =
      predecessorBounds items[d.itemId]? (hasRemainingWork unscheduled d.itemId)
        (instantBounds ((blocksOf blocks d.itemId).map interval)) d.relation := by
  unfold finalBounds predecessorBounds usableBounds dependencyPredecessorBounds boundsOf
    instantBounds
  split
  · rfl
  · split
    · rfl
    · cases hull ((blocksOf blocks d.itemId).map interval) with
      | some bounds => rfl
      | none =>
        generalize (items[d.itemId]?).map WorkItem.kind = kind
        cases kind with
        | none => rfl
        | some kind => cases kind <;> rfl

/-! ### Edges of a plan -/

namespace SchedulePlan

/-- Whether minutes of an item are reported as unscheduled. -/
def hasRemaining (plan : SchedulePlan) (name : WorkIdentity) : Bool :=
  (plan.reportsNamed name).any fun w => !w.remaining.isZero

def boundsNamed (plan : SchedulePlan) (name : WorkIdentity) : Option (Int × Int) :=
  instantBounds ((plan.blocksNamed name).map ScheduleBlock.interval)

/-- The plan keeps an edge between two names. -/
def EdgeHolds (plan : SchedulePlan) (predecessor : Option WorkItem)
    (successorName predecessorName : WorkIdentity) (d : Dependency) : Prop :=
  ∃ s ∈ plan.boundsNamed successorName,
    ∃ p ∈ predecessorBounds predecessor (plan.hasRemaining predecessorName)
        (plan.boundsNamed predecessorName) d.relation, boundsKeep d s p

instance (plan : SchedulePlan) (predecessor : Option WorkItem)
    (successorName predecessorName : WorkIdentity) (d : Dependency) :
    Decidable (plan.EdgeHolds predecessor successorName predecessorName d) :=
  inferInstanceAs (Decidable (∃ s ∈ plan.boundsNamed successorName,
    ∃ p ∈ predecessorBounds predecessor (plan.hasRemaining predecessorName)
        (plan.boundsNamed predecessorName) d.relation, boundsKeep d s p))

/-- The plan reports a broken dependency of an item. -/
def ReportsDependency (plan : SchedulePlan) (name : WorkIdentity) : Prop :=
  ∃ v ∈ plan.violations, v.kind = .dependency ∧ v.severity = .error ∧ name.itemId ∈ v.itemIds ∧
    ∀ o ∈ name.occurrenceId, o ∈ v.occurrenceIds

instance (plan : SchedulePlan) (name : WorkIdentity) : Decidable (plan.ReportsDependency name) :=
  inferInstanceAs (Decidable (∃ v ∈ plan.violations, v.kind = .dependency ∧
    v.severity = .error ∧ name.itemId ∈ v.itemIds ∧ ∀ o ∈ name.occurrenceId, o ∈ v.occurrenceIds))

end SchedulePlan

/-! ### Edges while an item is placed -/

/-- The predecessor of an edge is not completed. -/
abbrev PredecessorOpen (items : WorkMap) (d : Dependency) : Prop :=
  ¬ (items[d.itemId]?).any fun predecessor => predecessor.status.satisfiesPrerequisite

lemma hasRemainingWork_eq (unscheduled : List UnscheduledWork) (id : ItemId) :
    hasRemainingWork unscheduled id =
      (reportsOf unscheduled id).any fun w => !w.remaining.isZero := by
  rw [hasRemainingWork, reportsOf, any_filter]

namespace Planner

variable {s t : PlanningState} {d : Dependency}

lemma Untouched.edgeKept_iff (h : Untouched d.itemId s t) {items : WorkMap} :
    t.EdgeKept items successor d ↔ s.EdgeKept items successor d := by
  unfold PlanningState.EdgeKept usableBounds
  rw [hasRemainingWork_eq, hasRemainingWork_eq, h.reports, h.blocks]

end Planner

namespace PlanningState

section

variable {item : WorkItem} {edges : List Dependency} {items : WorkMap} {d : Dependency}
  {state : PlanningState} {s s' : Sessions} {bounds : Span}

/-- A block of an item extends the bounds of the item. -/
lemma boundsOf_append_own {b : ScheduleBlock} (hb : b.itemId = some id) :
    boundsOf (blocksOf (blocks ++ [b]) id) =
      some (((boundsOf (blocksOf blocks id)).map fun bounds => bounds.join b.interval).getD
        b.interval) := by
  have hown : blocksOf (blocks ++ [b]) id = blocksOf blocks id ++ [b] := by
    simp [blocksOf, hb]
  rw [hown, boundsOf, boundsOf, map_append]
  cases (blocksOf blocks id).map interval <;> simp [hull]

lemma addsFor_acceptCandidate (state : PlanningState) (candidate : Candidate)
    (sessionIndex : UInt16) (split : Bool) :
    Planner.AddsFor item.id state (acceptCandidate env state item candidate sessionIndex split) :=
  ⟨⟨_, rfl, forall_mem_singleton.mpr rfl⟩,
    ⟨[], (append_nil _).symm, fun _ hw => (nomatch hw)⟩, rfl, rfl⟩

lemma admits_of_bestCandidate {search : SessionSearch} {candidate : Candidate}
    (h : state.bestCandidate request item edges items search = some candidate) :
    ∃ window, state.Admits request item edges items window candidate.interval
      search.finishesItem := by
  obtain ⟨window, tally, -, -, hrules⟩ := bestCandidate_spec h
  exact ⟨window, admits_of_evaluateRules hrules⟩

/-- The blocks of an item keep an edge. An edge that reads the last end is kept only once
nothing remains. -/
def KeepsEdge (items : WorkMap) (item : WorkItem) (d : Dependency) (s : Sessions) : Prop :=
  ∀ bounds ∈ boundsOf (blocksOf s.state.blocks item.id),
    (dependencyUsesSuccessorFinish d.relation → s.remaining = 0) → s.state.EdgeKept items bounds d

/-- A later session does not move the start of an item. -/
lemma EdgeKept.join {slot : Span} (h : state.EdgeKept items bounds d)
    (hst : ¬ dependencyUsesSuccessorFinish d.relation) (hlat : ¬ slot.start < bounds.start) :
    state.EdgeKept items (bounds.join slot) d := by
  obtain ⟨predecessor, hpred, boundary, hbdry, hle⟩ := h
  refine ⟨predecessor, hpred, boundary, ?_, hle⟩
  rw [← hbdry]
  simp [dependencyBoundary, hst, HalfOpen.join, earlier, hlat]

section

variable (hd : d ∈ edges) (hhard : d.strength.isHard) (hopen : PredecessorOpen items d)
  (hne : d.itemId ≠ item.id)

include hd hhard hopen hne

/-- A session that is taken keeps the hard edges of its item. -/
lemma SessionStep.keepsEdge (hstep : SessionStep env request item edges items s s')
    (h : KeepsEdge items item d s) : KeepsEdge items item d s' := by
  cases hstep with
  | stop state remaining =>
    unfold KeepsEdge
    rw [state, remaining]
    exact h
  | accept search candidate split _ _ finishes best state remaining =>
    intro bounds hbds hdone
    rw [state, (addsFor_acceptCandidate _ _ _ _).untouched hne |>.edgeKept_iff]
    rw [state, Option.mem_def] at hbds
    obtain rfl : s.state.successorBounds item candidate.interval = bounds :=
      Option.some.inj ((boundsOf_append_own rfl).symm.trans hbds)
    obtain ⟨window, hadm⟩ := admits_of_bestCandidate best
    by_cases hfin : dependencyUsesSuccessorFinish d.relation
    · have hlast : search.finishesItem = true := by
        rw [finishes, ← remaining, hdone hfin]
        rfl
      exact hadm.edges d hd (by simp [dependencyApplies, hfin, hlast, hopen]) hhard
    · by_cases hfst : s.state.establishesStart item candidate.interval
      · exact hadm.edges d hd (by simp [dependencyApplies, hfin, hfst, hopen]) hhard
      · -- the start is that of the blocks there are, which keep the edge
        unfold establishesStart at hfst
        unfold successorBounds
        cases hold : boundsOf (blocksOf s.state.blocks item.id) with
        | none =>
          rw [hold] at hfst
          exact absurd rfl hfst
        | some old =>
          rw [hold] at hfst
          exact (h old hold fun hf => absurd hf hfin).join hfin (by simpa using hfst)

/-- **The sessions of an item** keep its hard edges. -/
theorem SessionSteps.keepsEdge (hsteps : SessionSteps env request item edges items s s')
    (h : KeepsEdge items item d s) : KeepsEdge items item d s' := by
  induction hsteps with
  | refl => exact h
  | tail _ hstep ih => exact SessionStep.keepsEdge hd hhard hopen hne hstep ih

/-- An item without blocks keeps its hard edges when it is placed. -/
theorem scheduleItem_keepsEdge (hval : ValidRequest request) (hmem : item ∈ request.items)
    (hnone : blocksOf state.blocks item.id = [])
    (hbds : boundsOf (blocksOf (scheduleItem env state request item edges items).1.blocks
      item.id) = some bounds)
    (hdone : dependencyUsesSuccessorFinish d.relation →
      (scheduleItem env state request item edges items).2 = true) :
    (scheduleItem env state request item edges items).1.EdgeKept items bounds d := by
  have hemp : ∀ {s : Sessions}, s.state = state → KeepsEdge items item d s := by
    intro s hs bounds hbds
    rw [hs, hnone] at hbds
    cases hbds
  unfold scheduleItem at hbds hdone ⊢
  cases hdur : item.duration with
  | none =>
    rw [hdur] at hbds
    exact absurd (hnone ▸ hbds) (by simp [boundsOf, hull])
  | some duration =>
    rw [hdur] at hbds hdone
    dsimp only at hbds hdone ⊢
    split at hbds
    · exact absurd (hnone ▸ hbds) (by simp [boundsOf, hull])
    · rename_i hrem
      rw [if_neg hrem] at hdone ⊢
      have hsteps : SessionSteps env request item edges items
          (state.startSessions item (state.uncovered item duration.planningMinutes)) _ :=
        sessionSteps_placeSessions hval hmem hrem
      have hkeeps := SessionSteps.keepsEdge hd hhard hopen hne hsteps (hemp rfl)
      obtain ⟨reports, hreport, hbl, hunsch, hpin, hresv, hres⟩ :=
        settleItem_spec item duration.planningMinutes
          (placeSessions env request item edges items (state.startSessions item
            (state.uncovered item duration.planningMinutes)))
      have hset : Planner.AddsFor item.id _ _ :=
        ⟨⟨[], hbl.trans (append_nil _).symm, forall_mem_nil _⟩,
          ⟨reports, hunsch, hreport.reported⟩, hpin, hresv⟩
      rw [(hset.untouched hne).edgeKept_iff]
      refine hkeeps bounds (hbl ▸ hbds) fun hfin => ?_
      exact of_decide_eq_true (hres.symm.trans (hdone hfin))

end

/-- An item that got blocks and of which nothing is reported is done. -/
lemma Scheduled.done {result : PlanningState × Bool} {new : List ScheduleBlock}
    {reports : List UnscheduledWork} (h : Scheduled item state result new reports) (hnew : new ≠ [])
    (hnone : ¬ hasRemainingWork result.1.unscheduled item.id) : result.2 = true := by
  cases hdur : item.duration with
  | none => exact absurd (h.missing hdur).1 hnew
  | some duration =>
    obtain ⟨left, -, hreport, hres⟩ := h.balance duration hdur
    rcases hreport with ⟨hleft, -⟩ | ⟨hleft, reason, message, hreps⟩
    · exact hres.trans (decide_eq_true hleft)
    · refine absurd ?_ hnone
      rw [h.unscheduled, hreps]
      simp [hasRemainingWork, Minutes.isZero, hleft]

end

end PlanningState

/-! ### Work that the planner has placed -/

/-- A hard edge that is not refused has a predecessor that can still be waited for. -/
lemma exists_of_available {edges : List Dependency} {items : WorkMap}
    {outcomes : ExtTreeMap ItemId Bool} {d : Dependency}
    (h : ¬ hardDependencyUnavailable edges items outcomes blocks) (hd : d ∈ edges)
    (hhard : d.strength.isHard) (hopen : PredecessorOpen items d) :
    ∃ p : WorkItem, items[d.itemId]? = some p ∧ ¬ p.status.isTerminal ∧ p.status ≠ .blocked := by
  have hall := any_eq_false.mp (Bool.eq_false_iff.mpr h) d hd
  cases hp : items[d.itemId]? with
  | none => simp [hhard, hp] at hall
  | some p =>
    have hsatisfied : ¬ p.status.satisfiesPrerequisite := by simpa [hp] using hopen
    simp only [hhard, hp, hsatisfied, Bool.true_and] at hall
    refine ⟨p, rfl, fun hterm => hall ?_, fun hblk => hall ?_⟩
    · simp [hterm]
    · simp [hblk]

namespace Planner

variable {item : WorkItem} {pre post : List ItemId} {d : Dependency}

/-- A hard predecessor has no turn after its successor. -/
lemma predecessor_not_after (hval : ValidRequest request)
    (hspl : (placementOrder request).1 = pre ++ item.id :: post)
    (hd : d ∈ (edgesOf request).getD item.id []) (hhard : d.strength.isHard) :
    d.itemId ∉ item.id :: post ∧ d.itemId ∉ (placementOrder request).2 := by
  by_cases helig : d.itemId ∈
      (request.items.filter (isEligible (childMap request.items))).map WorkItem.id
  · have hpre := predecessor_mem_dependencyOrder (nodup_eligible hval) hspl hd hhard helig
    have hnd := nodup_placementOrder hval
    rw [hspl] at hnd
    refine ⟨fun hpost => (nodup_append.mp hnd).2.2 _ hpre _ hpost rfl, ?_⟩
    exact not_mem_cycles_of_mem_order (hspl ▸ mem_append_left _ hpre)
  · refine ⟨fun hpost => helig ?_, fun hcyc => helig (mem_filter.mp hcyc).1⟩
    exact mem_eligible_of_mem_dependencyOrder (nodup_eligible hval)
      (hspl ▸ mem_append_right _ hpost)

/-- An edge of an item in a final state. -/
def FinalEdge (request : PlanRequest) (final : PlanningState) (id : ItemId) (d : Dependency) :
    Prop :=
  ∃ successor ∈ boundsOf (blocksOf final.blocks id),
    ∃ predecessor ∈ finalBounds final.unscheduled final.blocks (itemsById request.items) d,
      ∃ boundary, dependencyBoundary d successor predecessor = some boundary ∧
        boundary.2 ≤ boundary.1

/-- An item that has all of its blocks from its turn keeps its hard edges. -/
theorem finalEdge_of_turn {state : PlanningState} (hval : ValidRequest request)
    (hmem : item ∈ request.items) (hspl : (placementOrder request).1 = pre ++ item.id :: post)
    (hnone : blocksOf state.blocks item.id = [])
    (hbl : blocksOf (place env request state).blocks item.id ≠ [])
    (hd : d ∈ (edgesOf request).getD item.id []) (hhard : d.strength.isHard)
    (hopen : PredecessorOpen (itemsById request.items) d)
    (hfin : dependencyUsesSuccessorFinish d.relation →
      ¬ hasRemainingWork (place env request state).unscheduled item.id) :
    FinalEdge request (place env request state) item.id d := by
  -- neither end of the edge changes after the turn of the item
  have hbef := untouched_before env state hval hmem hspl
  have haft := untouched_after_turn env state hval hspl
  obtain ⟨hlat, hcyc⟩ := predecessor_not_after hval hspl hd hhard
  obtain ⟨hne, hpost⟩ := not_or.mp (mt mem_cons.mpr hlat)
  have hpredecessor := @untouched_after env request state hval _ _ _ _ hspl hpost hcyc
  cases turn_placeItem hval hmem (progressAfter env request state pre) with
  | unavailable hmiss =>
    have haway := (turnedAway_of_unavailable hval hmem hspl hmiss).1
    exact absurd (haway.trans hnone) hbl
  | placed new reports available scheduled hsta =>
    rw [hsta] at haft hpredecessor
    rw [haft.blocks] at hbl
    obtain ⟨p, hp, hact, hunblocked⟩ := exists_of_available available hd hhard hopen
    cases hbds : boundsOf (blocksOf (PlanningState.scheduleItem env
        (progressAfter env request state pre).state request item
        ((edgesOf request).getD item.id []) (itemsById request.items)).1.blocks item.id) with
    | none => exact absurd (map_eq_nil_iff.mp (HalfOpen.hull_eq_none.mp hbds)) hbl
    | some bounds =>
      have hkept := PlanningState.scheduleItem_keepsEdge hd hhard hopen hne hval hmem
        (hbef.blocks.trans hnone) hbds fun hf => ?_
      · obtain ⟨predecessor, hpred, boundary, hbdry, hle⟩ := hpredecessor.edgeKept_iff.mpr hkept
        refine ⟨bounds, ?_, predecessor, ?_, boundary, hbdry, hle⟩
        · rw [haft.blocks]
          exact hbds
        · rw [finalBounds, hp]
          simpa [hact, hunblocked] using hpred
      · refine scheduled.done (fun hnew => hbl ?_) fun hrem => hfin hf ?_
        · rw [scheduled.blocks, hnew, append_nil, hbef.blocks, hnone]
        · rw [hasRemainingWork_eq, haft.reports, ← hasRemainingWork_eq]
          exact hrem

end Planner

namespace PlanTrace

variable (trace : PlanTrace env request execution lifecycle plan) {d : Dependency}

lemma boundsNamed_eq (id : ItemId) : plan.boundsNamed (trace.identity id) =
      instantBounds ((blocksOf trace.final.blocks id).map interval) := by
  have hperm := (trace.blocksNamed_perm id).map interval
  rw [map_map, map_map] at hperm
  exact instantBounds_perm hperm

lemma hasRemaining_eq (id : ItemId) : plan.hasRemaining (trace.identity id) =
      hasRemainingWork trace.final.unscheduled id := by
  rw [hasRemainingWork_eq, SchedulePlan.hasRemaining, (trace.reportsNamed_perm id).any_eq, any_map]
  refine congrArg (List.any _) (funext fun w => ?_)
  rw [Function.comp_apply, remapWork_remaining]

abbrev KeepsEdge (id : ItemId) (d : Dependency) : Prop :=
  plan.EdgeHolds (itemsById trace.prepared.request.items)[d.itemId]? (trace.identity id)
    (trace.identity d.itemId) d

lemma keepsEdge_iff (id : ItemId) (d : Dependency) : trace.KeepsEdge id d ↔
      ∃ s ∈ instantBounds ((blocksOf trace.final.blocks id).map interval),
        ∃ p ∈ (finalBounds trace.final.unscheduled trace.final.blocks
            (itemsById trace.prepared.request.items) d).map
              (fun s => (s.start.nanos, s.finish.nanos)), boundsKeep d s p := by
  rw [KeepsEdge, SchedulePlan.EdgeHolds, trace.boundsNamed_eq, trace.boundsNamed_eq,
    trace.hasRemaining_eq, map_finalBounds]

lemma keepsEdge_of_finalEdge (h : Planner.FinalEdge trace.prepared.request trace.final id d) :
    trace.KeepsEdge id d := by
  obtain ⟨s, hs, p, hp, boundary, hbdry, hle⟩ := h
  exact (trace.keepsEdge_iff id d).mpr ⟨_, Option.mem_map_of_mem _ hs, _,
    Option.mem_map_of_mem _ hp, boundsKeep_of_dependencyBoundary hbdry hle⟩

lemma blocksNamed_eq_nil (id : ItemId) :
    plan.blocksNamed (trace.identity id) = [] ↔ blocksOf trace.final.blocks id = [] := by
  have hlen := (trace.blocksNamed_perm id).length_eq
  rw [length_map, length_map] at hlen
  rw [← length_eq_zero_iff, hlen, length_eq_zero_iff]

lemma planned_of_blocksNamed (h : ∀ b ∈ plan.blocksNamed (trace.identity id), b.kind = .planned) :
    ∀ b ∈ blocksOf trace.final.blocks id, b.kind = .planned := by
  intro b hb
  have hperm := (trace.blocksNamed_perm id).map (·.kind)
  rw [map_map, map_map] at hperm
  obtain ⟨c, hc, heq⟩ := mem_map.mp (hperm.mem_iff.mpr (mem_map_of_mem hb))
  exact (show b.kind = c.kind from heq.symm) ▸ h c hc

variable {item : WorkItem} (hmem : item ∈ trace.prepared.request.items)
  (hbl : blocksOf trace.final.blocks item.id ≠ [])
  (hpln : ∀ b ∈ blocksOf trace.final.blocks item.id, b.kind = .planned)

include hmem hbl hpln

lemma eligible_of_planned :
    Planner.isEligible (childMap trace.prepared.request.items) item := by
  obtain ⟨b, hb⟩ := exists_mem_of_ne_nil _ hbl
  obtain ⟨hfnl, hid⟩ := mem_filter.mp hb
  obtain ⟨p, hp, rfl⟩ := trace.exists_placement hfnl (hpln b hb)
  obtain ⟨window, hpld⟩ := trace.placed hp
  have hids := Option.some.inj (hpld.itemId.symm.trans (of_decide_eq_true hid))
  exact inj_on_of_nodup_map trace.valid.nodup hpld.mem hmem hids ▸ hpld.eligible

lemma finalEdge_of_planned
    (hd : d ∈ (Planner.edgesOf trace.prepared.request).getD item.id []) (hhard : d.strength.isHard)
    (hopen : PredecessorOpen (itemsById trace.prepared.request.items) d)
    (hfin : dependencyUsesSuccessorFinish d.relation →
      ¬ hasRemainingWork trace.final.unscheduled item.id) :
    Planner.FinalEdge trace.prepared.request trace.final item.id d := by
  have hnone : blocksOf trace.start.blocks item.id = [] := by
    refine eq_nil_iff_forall_not_mem.mpr fun b hb => ?_
    obtain ⟨hst, hid⟩ := mem_filter.mp hb
    refine trace.onlyRetained.kind b hst (hpln b (mem_filter.mpr ⟨?_, hid⟩))
    rw [trace.final_blocks]
    exact mem_append_left _ hst
  have helig := trace.eligible_of_planned hmem hbl hpln
  rcases (Planner.mem_placementOrder trace.valid hmem).mp helig with horder | hcyc
  · obtain ⟨pre, post, hspl⟩ := append_of_mem horder
    exact Planner.finalEdge_of_turn trace.valid hmem hspl hnone hbl hd hhard hopen hfin
  · have haway : blocksOf trace.final.blocks item.id = _ :=
      (Planner.turnedAway_of_cycle trace.valid hmem hcyc).1
    exact absurd (haway.trans hnone) hbl

end PlanTrace

end DayWeave
