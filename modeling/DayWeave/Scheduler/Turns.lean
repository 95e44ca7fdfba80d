import DayWeave.Scheduler.Outcome

/-!
The turns of the items in a run.

Every item is classified, has its turn in the order of placement, or is reported as part of a
cycle. What happens to one item leaves the blocks and reports of the others alone (`Untouched`), so
those of an item in the final state are those it got itself (`Turn`).
-/

open List Std

namespace DayWeave

/-- The reports about one item. -/
def reportsOf (unscheduled : List UnscheduledWork) (id : ItemId) : List UnscheduledWork :=
  unscheduled.filter fun work => work.itemId = id

namespace Planner

/-- The step adds blocks and reports of one item. -/
structure AddsFor (id : ItemId) (s t : PlanningState) : Prop where
  blocks : ∃ new, t.blocks = s.blocks ++ new ∧ ∀ b ∈ new, b.itemId = some id
  unscheduled : ∃ new, t.unscheduled = s.unscheduled ++ new ∧
    ∀ w ∈ new, w.itemId = id ∧ w.occurrenceId = none
  pinnedMinutes : t.pinnedMinutes = s.pinnedMinutes
  executionReservedMinutes : t.executionReservedMinutes = s.executionReservedMinutes

/-- Blocks, reports and counters of an item are the same in both states. -/
structure Untouched (id : ItemId) (s t : PlanningState) : Prop where
  blocks : blocksOf t.blocks id = blocksOf s.blocks id
  reports : reportsOf t.unscheduled id = reportsOf s.unscheduled id
  pinnedMinutes : t.pinnedMinutes = s.pinnedMinutes
  executionReservedMinutes : t.executionReservedMinutes = s.executionReservedMinutes

namespace Untouched

variable {id : ItemId} {s t u : PlanningState}

lemma refl : Untouched id s s := ⟨rfl, rfl, rfl, rfl⟩

lemma trans (h : Untouched id s t) (h' : Untouched id t u) : Untouched id s u :=
  ⟨h'.blocks.trans h.blocks, h'.reports.trans h.reports, h'.pinnedMinutes.trans h.pinnedMinutes,
    h'.executionReservedMinutes.trans h.executionReservedMinutes⟩

lemma foldl {σ β : Type} (state : σ → PlanningState) {f : σ → β → σ} {l : List β}
    (h : ∀ s b, b ∈ l → Untouched id (state s) (state (f s b))) (s : σ) :
    Untouched id (state s) (state (l.foldl f s)) := by
  exact foldlRecOn (motive := fun t => Untouched id (state s) (state t)) l f .refl
    fun t ht b hb => ht.trans (h t b hb)

end Untouched

lemma AddsFor.untouched {id other : ItemId} {s t : PlanningState} (h : AddsFor id s t)
    (hne : other ≠ id) : Untouched other s t := by
  obtain ⟨new, hbl, hnew⟩ := h.blocks
  obtain ⟨reports, hunsch, hreps⟩ := h.unscheduled
  refine ⟨?_, ?_, h.pinnedMinutes, h.executionReservedMinutes⟩
  · have hnone : blocksOf new other = [] := filter_eq_nil_iff.mpr fun b hb => by
      simpa [hnew b hb] using hne.symm
    rw [hbl, blocksOf, filter_append]
    exact (congrArg _ hnone).trans (append_nil _)
  · have hnone : reportsOf reports other = [] := filter_eq_nil_iff.mpr fun w hw => by
      simpa [(hreps w hw).1] using hne.symm
    rw [hunsch, reportsOf, filter_append]
    exact (congrArg _ hnone).trans (append_nil _)

lemma addsFor_reportUnplaced (item : WorkItem) (reason : UnscheduledReason) (message : String)
    (state : PlanningState) : AddsFor item.id state (reportUnplaced item reason message state) :=
  ⟨⟨[], (append_nil _).symm, fun _ hb => (nomatch hb)⟩,
    ⟨_, rfl, forall_mem_singleton.mpr ⟨rfl, rfl⟩⟩, rfl, rfl⟩

lemma addsFor_recordDecision (item : WorkItem) (kind : DecisionKind) (message : String)
    (state : PlanningState) : AddsFor item.id state (state.recordDecision item.id kind message) :=
  ⟨⟨[], (append_nil _).symm, fun _ hb => (nomatch hb)⟩,
    ⟨[], (append_nil _).symm, fun _ hw => (nomatch hw)⟩, rfl, rfl⟩

lemma AddsFor.refl (id : ItemId) (state : PlanningState) : AddsFor id state state :=
  ⟨⟨[], (append_nil _).symm, fun _ hb => (nomatch hb)⟩,
    ⟨[], (append_nil _).symm, fun _ hw => (nomatch hw)⟩, rfl, rfl⟩

lemma addsFor_classifyItem (children : ChildMap) (state : PlanningState)
    (item : WorkItem) : AddsFor item.id state (classifyItem children state item) := by
  unfold classifyItem
  split
  · exact .refl _ _
  · split
    · exact addsFor_recordDecision ..
    · split
      · exact addsFor_recordDecision ..
      · split
        · exact addsFor_reportUnplaced ..
        · exact .refl _ _

lemma classifyItem_eq_of_isEligible {children : ChildMap} {item : WorkItem}
    (h : isEligible children item) (state : PlanningState) :
    classifyItem children state item = state := by
  unfold isEligible at h
  simp only [Bool.and_eq_true, Bool.not_eq_true', decide_eq_true_eq] at h
  obtain ⟨⟨⟨hevent, hterm⟩, hoccupies⟩, hblk⟩ := h
  simp [classifyItem, hevent, hterm, hoccupies, hblk]

section

variable (env : Externals) (request : PlanRequest)

/-- What happens when it is the turn of an item: a hard predecessor is missing, or the
item is placed. -/
inductive Turn (item : WorkItem) (s t : Progress) : Prop
  | unavailable (missing : hardDependencyUnavailable ((edgesOf request).getD item.id [])
        (itemsById request.items) s.outcomes s.state.blocks)
      (state : t.state = reportUnplaced item .dependencyUnavailable
        "A hard predecessor could not be placed in this plan." s.state)
      (outcomes : t.outcomes = s.outcomes.insert item.id false)
  | placed (new : List ScheduleBlock) (reports : List UnscheduledWork)
      (available : ¬ hardDependencyUnavailable ((edgesOf request).getD item.id [])
        (itemsById request.items) s.outcomes s.state.blocks)
      (scheduled : PlanningState.Scheduled item s.state
        (PlanningState.scheduleItem env s.state request item ((edgesOf request).getD item.id [])
          (itemsById request.items)) new reports)
      (state : t.state = (PlanningState.scheduleItem env s.state request item
        ((edgesOf request).getD item.id []) (itemsById request.items)).1)
      (outcomes : t.outcomes = s.outcomes.insert item.id
        (PlanningState.scheduleItem env s.state request item
          ((edgesOf request).getD item.id []) (itemsById request.items)).2)

variable {env request} {item : WorkItem}

lemma turn_placeItem (hval : ValidRequest request) (hmem : item ∈ request.items)
    (progress : Progress) : Turn env request item progress (turn env request progress item.id) := by
  unfold turn placeItem
  rw [getElem?_itemsById hval.nodup hmem]
  dsimp only
  split
  · exact .unavailable ‹_› rfl rfl
  · obtain ⟨new, reports, h⟩ := PlanningState.scheduleItem_spec hval hmem progress.state
    exact .placed new reports ‹_› h rfl rfl

lemma Turn.addsFor {s t : Progress} (h : Turn env request item s t) :
    AddsFor item.id s.state t.state := by
  cases h with
  | unavailable missing state =>
    rw [state]
    exact addsFor_reportUnplaced ..
  | placed new reports available scheduled state =>
    rw [state]
    exact ⟨⟨new, scheduled.blocks, fun b hb => (scheduled.own b hb).1⟩,
      ⟨reports, scheduled.unscheduled, scheduled.reported⟩, scheduled.pinnedMinutes,
      scheduled.executionReservedMinutes⟩

lemma addsFor_turn (hval : ValidRequest request) (progress : Progress) (id : ItemId) :
    AddsFor id progress.state (turn env request progress id).state := by
  cases hitem : (itemsById request.items)[id]? with
  | none =>
    unfold turn placeItem
    rw [hitem]
    exact .refl _ _
  | some item =>
    obtain ⟨hmem, rfl⟩ := mem_of_getElem?_itemsById hitem
    exact (turn_placeItem hval hmem progress).addsFor

lemma addsFor_reportCycle (state : PlanningState) (id : ItemId) :
    AddsFor id state (reportCycle (itemsById request.items) state id) := by
  unfold reportCycle
  split
  · exact .refl _ _
  · rename_i item hitem
    obtain ⟨-, rfl⟩ := mem_of_getElem?_itemsById hitem
    exact addsFor_reportUnplaced ..

end

section

variable {env : Externals} {request : PlanRequest} {state : PlanningState} {id : ItemId}
  {item : WorkItem} {ids : List ItemId}

lemma untouched_classified (hval : ValidRequest request)
    (hmem : item ∈ request.items) (helig : isEligible (childMap request.items) item) :
    Untouched item.id state (classified request state) := by
  refine Untouched.foldl (fun s => s) (fun s other hoth => ?_) state
  by_cases heq : other = item
  · rw [heq, classifyItem_eq_of_isEligible helig]
    exact .refl
  · refine (addsFor_classifyItem _ s other).untouched fun hid => heq ?_
    exact inj_on_of_nodup_map hval.nodup hoth hmem hid.symm

lemma untouched_progressAfter (hval : ValidRequest request) (hid : id ∉ ids) :
    Untouched id (classified request state) (progressAfter env request state ids).state :=
  Untouched.foldl Progress.state
    (fun s other hoth => (addsFor_turn hval s other).untouched
      (ne_of_mem_of_not_mem hoth hid).symm) { state := classified request state }

lemma untouched_cycles (hid : id ∉ (placementOrder request).2) :
    Untouched id (progressAfter env request state (placementOrder request).1).state
      (place env request state) := by
  exact Untouched.foldl (fun s => s) (fun s other hoth => (addsFor_reportCycle s other).untouched
      (ne_of_mem_of_not_mem hoth hid).symm) _

section

variable (hval : ValidRequest request)

include hval

lemma untouched_after {pre post : List ItemId} {id other : ItemId}
    (hspl : (placementOrder request).1 = pre ++ id :: post) (hpost : other ∉ post)
    (hcyc : other ∉ (placementOrder request).2) :
    Untouched other (turn env request (progressAfter env request state pre) id).state
      (place env request state) := by
  refine .trans ?_ (untouched_cycles hcyc)
  have haft := Untouched.foldl Progress.state (f := turn env request) (fun s b hb =>
    (addsFor_turn hval s b).untouched (ne_of_mem_of_not_mem hb hpost).symm)
    (turn env request (progressAfter env request state pre) id)
  rwa [progressAfter, ← foldl_cons, ← foldl_append, ← hspl] at haft

/-- An eligible item has its turn or is on a cycle. -/
lemma mem_placementOrder (hmem : item ∈ request.items) : isEligible (childMap request.items) item ↔
      item.id ∈ (placementOrder request).1 ∨ item.id ∈ (placementOrder request).2 := by
  rw [← mem_eligibleIds hval hmem]
  constructor
  · intro h
    by_cases horder : item.id ∈ (placementOrder request).1
    · exact .inl horder
    · exact .inr (mem_filter.mpr ⟨h, decide_eq_true horder⟩)
  · rintro (h | h)
    · exact mem_eligible_of_mem_dependencyOrder (nodup_eligible hval) h
    · exact (mem_filter.mp h).1

end

lemma not_mem_cycles_of_mem_order (h : id ∈ (placementOrder request).1) :
    id ∉ (placementOrder request).2 :=
  fun hcyc => of_decide_eq_true (mem_filter.mp hcyc).2 h

lemma nodup_placementOrder (hval : ValidRequest request) : (placementOrder request).1.Nodup :=
  nodup_dependencyOrder (nodup_eligible hval)

end

/-- Reports inside a run do not name occurrences. -/
lemma AddsFor.anonymous {id : ItemId} {s t : PlanningState} (h : AddsFor id s t)
    (hs : ∀ w ∈ s.unscheduled, w.occurrenceId = none) :
    ∀ w ∈ t.unscheduled, w.occurrenceId = none := by
  obtain ⟨new, hnew, hanonymous⟩ := h.unscheduled
  rw [hnew]
  exact forall_mem_append.mpr ⟨hs, fun w hw => (hanonymous w hw).2⟩

lemma anonymous_place (env : Externals) {request : PlanRequest} {state : PlanningState}
    (hval : ValidRequest request) (hs : state.unscheduled = []) :
    ∀ w ∈ (place env request state).unscheduled, w.occurrenceId = none := by
  have hclass : ∀ w ∈ (classified request state).unscheduled, w.occurrenceId = none :=
    List.foldlRecOn _ _ (by simp [hs]) fun s hs item _ =>
    (addsFor_classifyItem _ s item).anonymous hs
  have hturns : ∀ w ∈ (progressAfter env request state
    (placementOrder request).1).state.unscheduled, w.occurrenceId = none :=
    List.foldlRecOn (motive := fun p : Progress => ∀ w ∈ p.state.unscheduled, w.occurrenceId = none)
      _ _ hclass fun p hp id _ => (addsFor_turn hval p id).anonymous hp
  exact List.foldlRecOn _ _ hturns fun s hs id _ => (addsFor_reportCycle s id).anonymous hs

end Planner

namespace SchedulePlan

def blocksNamed (plan : SchedulePlan) (name : WorkIdentity) : List ScheduleBlock :=
  plan.blocks.filter fun b => b.itemId = some name.itemId ∧ b.occurrenceId = name.occurrenceId

/-- The reports of a plan about a public name. -/
def reportsNamed (plan : SchedulePlan) (name : WorkIdentity) : List UnscheduledWork :=
  plan.unscheduled.filter fun w => w.itemId = name.itemId ∧ w.occurrenceId = name.occurrenceId

end SchedulePlan

@[simp] lemma remapWork_remaining (identities : IdentityMap) (w : UnscheduledWork) :
    (remapWork identities w).remaining = w.remaining := by
  unfold remapWork
  split <;> rfl

namespace PlanTrace

variable {env : Externals} {request : PlanRequest} {execution : ExecutionPlanningContext}
  {lifecycle : OccurrenceLifecycleContext} {plan : SchedulePlan}
  (trace : PlanTrace env request execution lifecycle plan)

lemma occurrenceId_final : ∀ b ∈ trace.final.blocks, b.occurrenceId = none := by
  rw [trace.final_blocks]
  refine forall_mem_append.mpr ⟨fun b hb => (trace.onlyRetained.owned b hb).1, ?_⟩
  intro b hb
  obtain ⟨p, -, rfl⟩ := mem_map.mp hb
  rfl

/-- Two public names are equal only for the same item. -/
lemma publicIdentity_eq_iff {a b : ItemId} :
    ((trace.identity a).itemId = (trace.identity b).itemId ∧
      (trace.identity a).occurrenceId = (trace.identity b).occurrenceId) ↔ a = b := by
  constructor
  · rintro ⟨hitem, hocc⟩
    refine publicIdentity_injective trace.prepare_eq
      (show trace.identity a = trace.identity b from ?_)
    cases ha : trace.identity a
    cases hb : trace.identity b
    rw [ha, hb] at hitem hocc
    cases hitem
    cases hocc
    rfl
  · rintro rfl
    exact ⟨rfl, rfl⟩

/-- Under its public name, a block of an item belongs to the work unit of the item. -/
lemma name_eq_iff {a : ScheduleBlock} (ha : a ∈ trace.final.blocks) (id : ItemId) :
    ((remapBlock trace.prepared.identities a).itemId = some (trace.identity id).itemId ∧
      (remapBlock trace.prepared.identities a).occurrenceId = (trace.identity id).occurrenceId) ↔
    a.itemId = some id := by
  cases hid : a.itemId with
  | none => simp [remapBlock, remapName, hid]
  | some other =>
    obtain ⟨hitem, hocc⟩ :=
      remapBlock_name trace.prepared.identities hid (trace.occurrenceId_final a ha)
    rw [hitem, hocc, Option.some.injEq, Option.some.injEq]
    exact trace.publicIdentity_eq_iff

lemma blocksNamed_perm (id : ItemId) :
    ((plan.blocksNamed (trace.identity id)).map ScheduleBlock.core).Perm
      ((blocksOf trace.final.blocks id).map fun b =>
        (remapBlock trace.prepared.identities b).core) := by
  have hperm := trace.core_perm.filter fun b : ScheduleBlock =>
    b.itemId = some (trace.identity id).itemId ∧ b.occurrenceId = (trace.identity id).occurrenceId
  rw [filter_map, filter_map] at hperm
  refine hperm.trans (List.Perm.of_eq (congrArg _ (filter_congr fun b hb => ?_)))
  exact decide_eq_decide.mpr (trace.name_eq_iff hb id)

lemma reportsNamed_perm (id : ItemId) : (plan.reportsNamed (trace.identity id)).Perm
      ((reportsOf trace.final.unscheduled id).map (remapWork trace.prepared.identities)) := by
  have hnone := Planner.anonymous_place env trace.valid trace.onlyRetained.unscheduled
  have hunsch : plan.unscheduled = (sortBy (compareOn UnscheduledWork.itemId)
      trace.final.unscheduled).map (remapWork trace.prepared.identities) :=
    congrArg (·.unscheduled) trace.plan_eq
  rw [SchedulePlan.reportsNamed, hunsch, filter_map]
  refine List.Perm.map _ ((((sortBy_perm _ _).filter _)).trans (List.Perm.of_eq ?_))
  refine filter_congr fun w hw => decide_eq_decide.mpr ?_
  have hname : (remapWork trace.prepared.identities w).itemId = (trace.identity w.itemId).itemId ∧
      (remapWork trace.prepared.identities w).occurrenceId =
        (trace.identity w.itemId).occurrenceId := by
    unfold remapWork PlanTrace.identity publicIdentity
    cases trace.prepared.identities[w.itemId]? with
    | none => exact ⟨rfl, hnone w hw⟩
    | some identity => exact ⟨rfl, rfl⟩
  rw [hname.1, hname.2]
  exact trace.publicIdentity_eq_iff

end PlanTrace

end DayWeave
