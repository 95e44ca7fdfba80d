import DayWeave.Scheduler.Turns

/-!
The balance of the minutes of one item.

What the planner counts as covered and what it reports as unscheduled should add up to the minutes
of the item. They do unless the planner turns an item away before it looks at retained time
(`workConserved_iff`).
-/

open List Std

namespace DayWeave

open PlanningState (blockMinutes scheduleItem uncovered)
open Sample

variable {env : Externals} {request : PlanRequest} {execution : ExecutionPlanningContext}
  {lifecycle : OccurrenceLifecycleContext} {plan : SchedulePlan}

/-- The plan reports an item exactly if minutes are missing, and reports exactly those. -/
structure WorkConserved (plan : SchedulePlan) (name : WorkIdentity) (required covered : ℕ) :
    Prop where
  absent : plan.reportsNamed name = [] ↔ required ≤ covered
  remaining : ∀ w ∈ plan.reportsNamed name, w.remaining.toNat = required - covered

namespace PlanTrace

variable (trace : PlanTrace env request execution lifecycle plan)

/-- The minutes of pinned and reserved time that the planner counts for an item. -/
def retainedMinutes (item : WorkItem) : ℕ :=
  (trace.start.pinnedMinutes.getD item.id 0).toNat +
    (trace.start.executionReservedMinutes.getD item.id 0).toNat

/-- The minutes of an item that the planner counts: pinned, reserved and planned. -/
def coveredMinutes (item : WorkItem) : ℕ :=
  trace.retainedMinutes item + blockMinutes
    ((plan.blocksNamed (trace.identity item.id)).filter fun b => b.kind = .planned)

/-! ### From the final state to the plan -/

lemma blockMinutes_planned (id : ItemId) : blockMinutes
        ((plan.blocksNamed (trace.identity id)).filter fun b => b.kind = .planned) =
      blockMinutes ((blocksOf trace.final.blocks id).filter fun b => b.kind = .planned) := by
  have hperm := (trace.blocksNamed_perm id).filter fun b : ScheduleBlock => b.kind = .planned
  rw [filter_map, filter_map] at hperm
  have hsum := (hperm.map fun b : ScheduleBlock => (Span.minutes b.interval).toNat).sum_nat
  rw [map_map, map_map] at hsum
  exact hsum

/-- Conservation, from the reports in the final state. -/
lemma workConserved_of_reports {id : ItemId} {required covered : ℕ} :
    WorkConserved plan (trace.identity id) required covered ↔
      (reportsOf trace.final.unscheduled id = [] ↔ required ≤ covered) ∧
        ∀ w ∈ reportsOf trace.final.unscheduled id, w.remaining.toNat = required - covered := by
  have hperm := trace.reportsNamed_perm id
  have hnil : plan.reportsNamed (trace.identity id) = [] ↔
      reportsOf trace.final.unscheduled id = [] := by
    rw [← length_eq_zero_iff, hperm.length_eq, length_map, length_eq_zero_iff]
  constructor
  · rintro ⟨habsent, hleft⟩
    refine ⟨hnil.symm.trans habsent, fun w hw => ?_⟩
    rw [← remapWork_remaining trace.prepared.identities w]
    exact hleft _ (hperm.mem_iff.mpr (mem_map_of_mem hw))
  · rintro ⟨habsent, hleft⟩
    refine ⟨hnil.trans habsent, fun w hw => ?_⟩
    obtain ⟨source, hsrc, rfl⟩ := mem_map.mp (hperm.mem_iff.mp hw)
    rw [remapWork_remaining]
    exact hleft source hsrc

end PlanTrace

/-! ### The exits of the planner -/

/-- A report of all minutes is right only if nothing is covered. -/
lemma full_report_iff {required covered : ℕ} :
    ((False ↔ required ≤ covered) ∧ required = required - covered) ↔
      0 < required ∧ covered = 0 := by
  constructor
  · rintro ⟨habsent, hleft⟩
    have := mt habsent.mpr not_false
    omega
  · rintro ⟨hpos, rfl⟩
    exact ⟨⟨False.elim, fun h => absurd h (by omega)⟩, by omega⟩

namespace Planner

/-- The planner turns the item away: it is blocked, it is on a cycle of hard edges, or at
its turn a hard predecessor is missing. -/
def ExitsEarly (env : Externals) (request : PlanRequest) (state : PlanningState)
    (item : WorkItem) : Prop :=
  item.status = .blocked ∨ item.id ∈ (placementOrder request).2 ∨
    ∃ pre post, (placementOrder request).1 = pre ++ item.id :: post ∧
      hardDependencyUnavailable ((edgesOf request).getD item.id []) (itemsById request.items)
        (progressAfter env request state pre).outcomes
        (progressAfter env request state pre).state.blocks

/-- An item that asks for time: neither an event, nor done, nor a container. -/
structure Demands (request : PlanRequest) (item : WorkItem) : Prop where
  mem : item ∈ request.items
  flexible : ¬ item.kind.isCalendarEvent
  active : ¬ item.status.isTerminal
  occupies : item.occupiesTime (hasChildren (childMap request.items) item.id)

section

variable {env : Externals} {request : PlanRequest} {state : PlanningState} {item : WorkItem}

lemma Demands.isEligible (h : Demands request item) (hblk : item.status ≠ .blocked) :
    isEligible (childMap request.items) item := by
  simp [Planner.isEligible, h.flexible, h.active, h.occupies, hblk]

lemma planned_start (h : OnlyRetained request state) (id : ItemId) :
    (blocksOf state.blocks id).filter (fun b => b.kind = .planned) = [] :=
  filter_eq_nil_iff.mpr fun b hb => by
    simpa using h.kind b (mem_filter.mp hb).1

/-- The item is turned away with all of its minutes. -/
def TurnedAway (item : WorkItem) (start final : PlanningState) : Prop :=
  blocksOf final.blocks item.id = blocksOf start.blocks item.id ∧
    ∃ reason message, reportsOf final.unscheduled item.id = reportsOf start.unscheduled item.id ++
      [⟨item.id, none, item.planningMinutes, reason, message⟩]

lemma turnedAway_reportUnplaced (reason : UnscheduledReason) (message : String) :
    TurnedAway item state (reportUnplaced item reason message state) :=
  ⟨rfl, reason, message, by
    simp [reportUnplaced, PlanningState.reportUnscheduled, reportsOf]⟩

/-- What happens before and after does not matter. -/
lemma TurnedAway.trans {s t u v : PlanningState} (h : TurnedAway item t u)
    (hbef : Untouched item.id s t) (haft : Untouched item.id u v) : TurnedAway item s v := by
  obtain ⟨hbl, reason, message, hreps⟩ := h
  refine ⟨haft.blocks.trans (hbl.trans hbef.blocks), reason, message, ?_⟩
  rw [haft.reports, hreps, hbef.reports]

/-- A loop turns an item away if one of its rounds does and the others are about other items. -/
lemma turnedAway_foldl {β : Type} (idOf : β → ItemId) {f : PlanningState → β → PlanningState}
    {l : List β} (hnd : (l.map idOf).Nodup) (hadds : ∀ s b, AddsFor (idOf b) s (f s b)) {b : β}
    (hb : b ∈ l) (hid : idOf b = item.id) (haway : ∀ s, TurnedAway item s (f s b))
    (s : PlanningState) : TurnedAway item s (l.foldl f s) := by
  obtain ⟨pre, post, rfl⟩ := append_of_mem hb
  rw [map_append, map_cons, nodup_middle, nodup_cons, ← map_append, hid] at hnd
  have hleave : ∀ other ∈ pre ++ post, ∀ s, Untouched item.id s (f s other) := fun other hmem s =>
    (hadds s other).untouched fun heq => hnd.1 (heq ▸ mem_map_of_mem hmem)
  rw [foldl_append, foldl_cons]
  exact (haway _).trans
    (Untouched.foldl (fun s => s) (fun s other h => hleave other (mem_append_left _ h) s) s)
    (Untouched.foldl (fun s => s) (fun s other h => hleave other (mem_append_right _ h) s) _)

/-- A blocked item is turned away by the classification. -/
lemma turnedAway_of_blocked (hval : ValidRequest request) (h : Demands request item)
    (hblk : item.status = .blocked) : TurnedAway item state (place env request state) := by
  have hclass : TurnedAway item state (classified request state) := by
    refine turnedAway_foldl WorkItem.id hval.nodup (addsFor_classifyItem _) h.mem rfl
      (fun s => ?_) state
    rw [classifyItem, if_neg h.flexible, if_neg h.active, if_neg (not_not.mpr h.occupies),
      if_pos hblk]
    exact turnedAway_reportUnplaced _ _
  have hout := mt (mem_placementOrder hval h.mem).mpr (by simp [Planner.isEligible, hblk])
  exact hclass.trans .refl ((untouched_progressAfter hval fun h => hout (.inl h)).trans
    (untouched_cycles fun h => hout (.inr h)))

/-- An item on a cycle is turned away at the end. -/
lemma turnedAway_of_cycle (hval : ValidRequest request) (hmem : item ∈ request.items)
    (hcyc : item.id ∈ (placementOrder request).2) :
    TurnedAway item state (place env request state) := by
  have hbef : Untouched item.id state
      (progressAfter env request state (placementOrder request).1).state :=
    (untouched_classified hval hmem ((mem_placementOrder hval hmem).mpr (.inr hcyc))).trans
      (untouched_progressAfter hval fun h => not_mem_cycles_of_mem_order h hcyc)
  have hnd : ((placementOrder request).2.map id).Nodup := by
    rw [map_id]
    exact (nodup_eligible hval).filter _
  refine TurnedAway.trans (turnedAway_foldl _ hnd addsFor_reportCycle hcyc rfl (fun s => ?_) _)
    hbef .refl
  rw [reportCycle, getElem?_itemsById hval.nodup hmem]
  exact turnedAway_reportUnplaced _ _

section

variable {pre post : List ItemId}

variable (env state) in
lemma untouched_before (hval : ValidRequest request) (hmem : item ∈ request.items)
    (hspl : (placementOrder request).1 = pre ++ item.id :: post) :
    Untouched item.id state (progressAfter env request state pre).state := by
  have hnd := nodup_placementOrder hval
  rw [hspl, nodup_middle, nodup_cons] at hnd
  exact (untouched_classified hval hmem ((mem_placementOrder hval hmem).mpr
      (.inl (by rw [hspl]; simp)))).trans
    (untouched_progressAfter hval fun h => hnd.1 (mem_append_left _ h))

variable (env state) in
lemma untouched_after_turn (hval : ValidRequest request)
    (hspl : (placementOrder request).1 = pre ++ item.id :: post) :
    Untouched item.id (turn env request (progressAfter env request state pre) item.id).state
      (place env request state) := by
  have hnd := nodup_placementOrder hval
  rw [hspl, nodup_middle, nodup_cons] at hnd
  exact untouched_after hval hspl (fun h => hnd.1 (mem_append_right _ h))
    (not_mem_cycles_of_mem_order (by rw [hspl]; simp))

/-- An item without a hard predecessor is turned away at its turn. -/
lemma turnedAway_of_unavailable (hval : ValidRequest request) (hmem : item ∈ request.items)
    (hspl : (placementOrder request).1 = pre ++ item.id :: post)
    (hmiss : hardDependencyUnavailable ((edgesOf request).getD item.id [])
      (itemsById request.items) (progressAfter env request state pre).outcomes
      (progressAfter env request state pre).state.blocks) :
    TurnedAway item state (place env request state) := by
  refine TurnedAway.trans ?_ (untouched_before env state hval hmem hspl)
    (untouched_after_turn env state hval hspl)
  cases turn_placeItem hval hmem (progressAfter env request state pre) with
  | unavailable _ hsta =>
    rw [hsta]
    exact turnedAway_reportUnplaced _ _
  | placed new reports available => exact absurd hmiss available

end

/-- **Early exits**: the item is reported with all of its minutes. -/
theorem turnedAway_of_exitsEarly (hval : ValidRequest request) (h : Demands request item)
    (hear : ExitsEarly env request state item) :
    TurnedAway item state (place env request state) := by
  rcases hear with hblk | hcyc | ⟨pre, post, hspl, hmiss⟩
  · exact turnedAway_of_blocked hval h hblk
  · exact turnedAway_of_cycle hval h.mem hcyc
  · exact turnedAway_of_unavailable hval h.mem hspl hmiss

/-- Another item has its turn, and is left alone before and after it. -/
lemma exists_turn_of_not_exitsEarly (hval : ValidRequest request) (h : Demands request item)
    (hear : ¬ ExitsEarly env request state item) : ∃ pre new reports,
      (∀ id ∈ pre, id ∈ (placementOrder request).1) ∧
      Untouched item.id state (progressAfter env request state pre).state ∧
      PlanningState.Scheduled item (progressAfter env request state pre).state
        (scheduleItem env (progressAfter env request state pre).state request item
          ((edgesOf request).getD item.id []) (itemsById request.items)) new reports ∧
      Untouched item.id (scheduleItem env (progressAfter env request state pre).state
        request item ((edgesOf request).getD item.id []) (itemsById request.items)).1
          (place env request state) := by
  obtain ⟨hblk, hcyc, hmiss⟩ : item.status ≠ .blocked ∧
      item.id ∉ (placementOrder request).2 ∧ _ := by
    simpa only [ExitsEarly, not_or] using hear
  have horder := ((mem_placementOrder hval h.mem).mp (h.isEligible hblk)).resolve_right hcyc
  obtain ⟨pre, post, hspl⟩ := append_of_mem horder
  have haft := untouched_after_turn env state hval hspl
  cases turn_placeItem hval h.mem (progressAfter env request state pre) with
  | unavailable hunavailable => exact absurd ⟨pre, post, hspl, hunavailable⟩ hmiss
  | placed new reports available scheduled hsta =>
    rw [hsta] at haft
    exact ⟨pre, new, reports, fun id hid => hspl ▸ mem_append_left _ hid,
      untouched_before env state hval h.mem hspl, scheduled, haft⟩

/-- What is added to the blocks of an item at its turn is what it has in the end. -/
lemma blocksOf_place_eq {s t : PlanningState} {new : List ScheduleBlock}
    (hbef : Untouched item.id state s) (haft : Untouched item.id t (place env request state))
    (hbl : t.blocks = s.blocks ++ new) (hown : ∀ b ∈ new, PlanningState.OwnPlanned item b) :
    blocksOf (place env request state).blocks item.id = blocksOf state.blocks item.id ++ new := by
  rw [haft.blocks, hbl, blocksOf, filter_append]
  refine congrArg₂ _ hbef.blocks (filter_eq_self.mpr fun b hb => ?_)
  exact decide_eq_true (hown b hb).1

end

end Planner

/-! ### The balance in the plan -/

namespace PlanTrace

variable (trace : PlanTrace env request execution lifecycle plan) {item : WorkItem}

lemma toNat_uncovered (required : UInt32) : (trace.start.uncovered item required).toNat =
    required.toNat - trace.retainedMinutes item := by
  have hlt := required.toNat_lt
  rw [uncovered, UInt32.toNat_satSub, UInt32.toNat_satAdd, retainedMinutes]
  omega

variable (h : Planner.Demands trace.prepared.request item) {duration : DurationEstimate}
  (hdur : item.duration = some duration)

include h hdur

/-- Nothing is planned for an item that is turned away, and it is reported in full. -/
lemma turnedAway (hear : Planner.ExitsEarly env trace.prepared.request trace.start item) :
    (blocksOf trace.final.blocks item.id).filter (fun b => b.kind = .planned) = [] ∧
      ∃ w, reportsOf trace.final.unscheduled item.id = [w] ∧
        w.remaining = duration.planningMinutes := by
  obtain ⟨hbl, reason, message, hreps⟩ := Planner.turnedAway_of_exitsEarly trace.valid h hear
  rw [trace.onlyRetained.unscheduled] at hreps
  refine ⟨?_, _, hreps, by rw [WorkItem.planningMinutes, hdur]; rfl⟩
  rw [PlanTrace.final, hbl, Planner.planned_start trace.onlyRetained]

/-- What is planned for another item and what is reported are the work that is not retained. -/
lemma balanced (hear : ¬ Planner.ExitsEarly env trace.prepared.request trace.start item) :
    ∃ new left, blocksOf trace.final.blocks item.id = blocksOf trace.start.blocks item.id ++ new ∧
      (∀ b ∈ new, PlanningState.OwnPlanned item b) ∧
      blockMinutes new + left.toNat =
        duration.planningMinutes.toNat - trace.retainedMinutes item ∧
      PlanningState.IsReport item left (reportsOf trace.final.unscheduled item.id) := by
  obtain ⟨pre, new, reports, -, hbef, scheduled, haft⟩ :=
    Planner.exists_turn_of_not_exitsEarly trace.valid h hear
  obtain ⟨left, hbalance, hreport, -⟩ := scheduled.balance duration hdur
  have hreps : reportsOf trace.final.unscheduled item.id = reports := by
    have hstart := hbef.reports
    rw [trace.onlyRetained.unscheduled] at hstart
    rw [PlanTrace.final, haft.reports, scheduled.unscheduled, reportsOf, filter_append]
    refine congrArg₂ _ hstart (filter_eq_self.mpr fun w hw => ?_)
    exact decide_eq_true (hreport.reported w hw).1
  refine ⟨new, left, Planner.blocksOf_place_eq hbef haft scheduled.blocks scheduled.own,
    scheduled.own, ?_, hreps ▸ hreport⟩
  rw [hbalance, ← trace.toNat_uncovered, uncovered, uncovered, hbef.pinnedMinutes,
    hbef.executionReservedMinutes]

end PlanTrace

/-- **Conservation of work**: covered and reported minutes of an item add up to the
minutes of the item exactly if it is not turned away early, or nothing of it is covered
and there is something to report. -/
theorem workConserved_iff (trace : PlanTrace env request execution lifecycle plan) {item : WorkItem}
    (h : Planner.Demands trace.prepared.request item) {duration : DurationEstimate}
    (hdur : item.duration = some duration) :
    WorkConserved plan (publicIdentity trace.prepared.identities item.id)
        duration.planningMinutes.toNat (trace.coveredMinutes item) ↔
      ¬ Planner.ExitsEarly env trace.prepared.request trace.start item ∨
        (0 < duration.planningMinutes.toNat ∧ trace.retainedMinutes item = 0) := by
  rw [trace.workConserved_of_reports, PlanTrace.coveredMinutes, trace.blockMinutes_planned]
  by_cases hear : Planner.ExitsEarly env trace.prepared.request trace.start item
  · obtain ⟨hnone, w, hreps, hfull⟩ := trace.turnedAway h hdur hear
    have hzero : blockMinutes [] = 0 := rfl
    rw [hnone, hzero, Nat.add_zero, hreps, forall_mem_singleton, hfull]
    simp only [hear, not_true_eq_false, false_or, cons_ne_nil]
    exact full_report_iff
  · obtain ⟨new, left, hbl, hown, hbalance, hreport⟩ := trace.balanced h hdur hear
    have hpln : (blocksOf trace.final.blocks item.id).filter (fun b => b.kind = .planned) =
        new := by
      rw [hbl, filter_append, Planner.planned_start trace.onlyRetained, nil_append]
      exact filter_eq_self.mpr fun b hb => decide_eq_true (hown b hb).2.2
    rw [hpln]
    refine iff_of_true ?_ (.inl hear)
    rcases hreport with ⟨rfl, hreps⟩ | ⟨hne, reason, message, hreps⟩ <;> rw [hreps]
    · rw [UInt32.toNat_zero] at hbalance
      exact ⟨iff_of_true rfl (by omega), fun w hw => (nomatch hw)⟩
    · have hpos := Minutes.toNat_pos hne
      exact ⟨iff_of_false (cons_ne_nil _ _) (by omega),
        forall_mem_singleton.mpr (show left.toNat = _ by omega)⟩

/-- The minutes of work in sessions add up, where half an hour of two hours is pinned. -/
theorem workConserved_busy : ∃ plan,
    Sample.plan (busyRequest [inSessions (task 1 120)]) = .ok plan ∧
    ∃ trace : PlanTrace externals (busyRequest [inSessions (task 1 120)]) {} {} plan,
      trace.retainedMinutes (inSessions (task 1 120)) = 30 ∧ WorkConserved plan
        (publicIdentity trace.prepared.identities (task 1 120).id) 120
        (trace.coveredMinutes (inSessions (task 1 120))) := by
  obtain ⟨plan, hplan, trace, hits, hord, hedges, hpin⟩ := exists_trace
    (busyRequest [inSessions (task 1 120)])
    (fun prepared start _ => prepared.request.items = [inSessions (task 1 120)] ∧
      (task 1 120).id ∉ (Planner.placementOrder prepared.request).2 ∧
      (Planner.edgesOf prepared.request).getD (task 1 120).id [] = [] ∧
      (start.pinnedMinutes.getD (task 1 120).id 0).toNat +
        (start.executionReservedMinutes.getD (task 1 120).id 0).toNat = 30) (by decide +kernel)
  have hdemands : Planner.Demands trace.prepared.request (inSessions (task 1 120)) :=
    ⟨by rw [hits]; exact mem_singleton_self _, by decide, by decide, by rw [hits]; decide +kernel⟩
  refine ⟨plan, hplan, trace, hpin, (workConserved_iff trace hdemands rfl).mpr (.inl ?_)⟩
  rintro (hblocked | hmem | ⟨pre, post, -, hdep⟩)
  · exact absurd hblocked (by decide)
  · exact hord hmem
  · rw [show (inSessions (task 1 120)).id = (task 1 120).id from rfl, hedges] at hdep
    exact absurd hdep (by simp [hardDependencyUnavailable])

namespace Sample

/-- Half an hour of work that is blocked. -/
def blockedTask : WorkItem := { task 1 30 with status := .blocked }

/-- Half an hour of work that has to wait for the blocked work. -/
def waitingTask : WorkItem :=
  { task 2 30 with constraints := { dependencies := [⟨blockedTask.id, .finishToStart, 0, .hard⟩] } }

/-- A request in which the waiting work is pinned in full. -/
def pinnedRequest : PlanRequest :=
  { Sample.request [blockedTask, waitingTask] with
    previousAssignments :=
      [{ itemId := waitingTask.id
         occurrenceId := none
         pinned := true
         blocks := [⟨.atSecond 0, .atSecond 1800, 0⟩] }] }

end Sample

/-- Work that is pinned in full but waits for blocked work is reported in full. -/
theorem not_workConserved_waitingTask : ∃ plan, Sample.plan pinnedRequest = .ok plan ∧
    ∃ trace : PlanTrace externals pinnedRequest {} {} plan,
      Planner.Demands trace.prepared.request waitingTask ∧ ¬ WorkConserved plan
            (publicIdentity trace.prepared.identities waitingTask.id) 30
            (trace.coveredMinutes waitingTask) := by
  obtain ⟨plan, hplan, trace, hits, hpin, hreps⟩ := exists_trace pinnedRequest
    (fun prepared start plan => prepared.request.items = [blockedTask, waitingTask] ∧
      start.pinnedMinutes.getD waitingTask.id 0 = 30 ∧
      plan.reportsNamed (publicIdentity prepared.identities waitingTask.id) ≠ [])
    (by decide +kernel)
  refine ⟨plan, hplan, trace, ⟨by rw [hits]; simp, by decide, by decide,
    by rw [hits]; decide +kernel⟩, fun h => hreps (h.absent.mpr ?_)⟩
  unfold PlanTrace.coveredMinutes PlanTrace.retainedMinutes
  rw [hpin]
  exact Nat.le_trans (by decide) ((Nat.le_add_right _ _).trans (Nat.le_add_right _ _))

end DayWeave
