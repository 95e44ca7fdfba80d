import DayWeave.Scheduler.Search
import DayWeave.Scheduler.Outcome

/-!
Planned blocks and the scheduling grid.

Alignment reads whole seconds only, so a fraction of a second in the instant from which slots are
counted stays in all of them. There is no other way off the grid: if before every search the free
stretches, and the time that the session waits for, start at whole seconds, then every planned
block is on the grid (`planned_onGrid`).
-/

open List Std

namespace DayWeave

open Sample

variable {env : Externals} {request : PlanRequest}

/-- Whole minutes later the fraction of a second is the same. -/
lemma WholeSecond.checkedAdd {duration : Minutes} {t u : OffsetDateTime} (ht : WholeSecond t)
    (h : t.checkedAdd duration.toDuration = some u) : WholeSecond u := by
  have hu := OffsetDateTime.nanos_of_checkedAdd h
  rw [Minutes.toDuration_eq] at hu
  unfold WholeSecond OffsetDateTime.nanosecond Duration.second at *
  omega

namespace Planner

/-- Before the search all free stretches start at whole seconds, and the session waits for a
whole second if it waits. -/
def Placement.FromWholeSeconds (request : PlanRequest) (p : Placement) : Prop :=
  (∀ e ∈ p.search.earliest, WholeSecond e) ∧
    ∀ window ∈ request.availability, ∀ free ∈ p.state.freeTime request window,
      WholeSecond free.start

/-- A search from whole seconds considers slots on the grid. -/
lemma Placement.FromWholeSeconds.onGrid {p : Placement} {window : AvailabilityWindow} {slot : Span}
    (h : p.FromWholeSeconds request) (hg : request.config.slotGranularity ≠ 0)
    (hslot : (window, slot) ∈
      p.state.candidateSlots request p.search.duration p.search.earliest) :
    OnGrid request.config.slotGranularity slot.start := by
  obtain ⟨hwin, free, hfree, hslot⟩ := PlanningState.mem_candidateSlots.mp hslot
  obtain ⟨t, ht, -, hmod⟩ := slotsIn_start hslot
  exact hmod.trans (firstSlotStart_spec hg (h.2 window hwin free hfree) h.1 ht).1

/-- The free stretches start at whole seconds if the windows that are not past do and what is
taken ends at whole seconds; a session waits for the end of a block. -/
lemma Placement.fromWholeSeconds {p : Placement} (hp : p.Succeeds request)
    (hwin : ∀ w ∈ request.availability, WholeSecond (later w.start (planningHorizon request).start))
    (htaken : ∀ i ∈ takenTime p.state, WholeSecond i.finish)
    (hblocks : ∀ b ∈ p.state.blocks, WholeSecond b.finish) : p.FromWholeSeconds request := by
  refine ⟨fun e he => ?_, fun window hw free hfree => ?_⟩
  · obtain ⟨b, hb, gap, hgap⟩ := hp.waits e he
    exact (hblocks b hb).checkedAdd hgap
  · obtain ⟨available, hav, hfree⟩ := PlanningState.mem_freeTime.mp hfree
    rcases start_of_mem_freeSegments hfree with hst | ⟨interval, hint, hst⟩
    · rw [hst, (HalfOpen.clipped_eq_some hav).1]
      exact hwin window hw
    · exact hst ▸ htaken interval hint

/-- **Whole seconds last**: a run from whole seconds searches from whole seconds. -/
theorem Run.fromWholeSeconds {ps : List Placement} {s t : PlanningState}
    (hg : request.config.slotGranularity ≠ 0)
    (hwin : ∀ w ∈ request.availability, WholeSecond (later w.start (planningHorizon request).start))
    (h : Run env request ps s t) (htaken : ∀ i ∈ takenTime s, WholeSecond i.finish)
    (hblocks : ∀ b ∈ s.blocks, WholeSecond b.finish) :
    (∀ i ∈ takenTime t, WholeSecond i.finish) ∧ (∀ b ∈ t.blocks, WholeSecond b.finish) ∧
      ∀ p ∈ ps, p.FromWholeSeconds request := by
  induction h with
  | refl => exact ⟨htaken, hblocks, forall_mem_nil _⟩
  | report _ blocks busy ih =>
    obtain ⟨htaken', hblocks', hps⟩ := ih htaken hblocks
    rw [takenTime, busy, blocks]
    exact ⟨htaken', hblocks', hps⟩
  | place _ succeeds blocks busy ih =>
    obtain ⟨htaken', hblocks', hps⟩ := ih htaken hblocks
    have hp := Placement.fromWholeSeconds succeeds hwin htaken' hblocks'
    obtain ⟨window, tally, hslot, -, -⟩ := PlanningState.bestCandidate_spec succeeds.found
    have hadd := (PlanningState.candidateSlots_spec hg hslot).2.2.2.1
    have hfin := (hp.onGrid hg hslot).wholeSecond.checkedAdd hadd
    rw [takenTime, busy, blocks, map_append]
    exact ⟨forall_mem_append.mpr ⟨htaken', forall_mem_singleton.mpr hfin⟩,
      forall_mem_append.mpr ⟨hblocks', forall_mem_singleton.mpr hfin⟩,
      forall_mem_append.mpr ⟨hps, forall_mem_singleton.mpr hp⟩⟩

end Planner

variable {execution : ExecutionPlanningContext} {lifecycle : OccurrenceLifecycleContext}
  {plan : SchedulePlan}

/-- Whole seconds in the request and in the retained time are enough. -/
lemma PlanTrace.fromWholeSeconds (trace : PlanTrace env request execution lifecycle plan)
    (hwin : ∀ w ∈ trace.prepared.request.availability,
      WholeSecond (later w.start (planningHorizon trace.prepared.request).start))
    (hbusy : ∀ b ∈ trace.start.busy, WholeSecond b.interval.finish) :
    ∀ p ∈ trace.placements, p.FromWholeSeconds trace.prepared.request := by
  refine (trace.run.fromWholeSeconds trace.valid.granularity hwin (forall_mem_map.mpr hbusy)
    fun b hb => ?_).2.2
  obtain ⟨busy, hmem, heq⟩ := mem_map.mp
    (trace.onlyRetained.taken.mem_iff.mpr (mem_map_of_mem hb))
  have hfin : busy.interval.finish = b.finish := congrArg HalfOpen.finish heq
  exact hfin ▸ hbusy busy hmem

/-- **The grid**: all planned blocks start on the grid if before every search the free stretches,
and the time that the session waits for, start at whole seconds. -/
theorem planned_onGrid (trace : PlanTrace env request execution lifecycle plan)
    (h : ∀ p ∈ trace.placements, p.FromWholeSeconds trace.prepared.request) :
    ∀ b ∈ plan.blocks, b.kind = .planned → OnGrid request.config.slotGranularity b.start := by
  intro b hb hk
  obtain ⟨p, original, window, hprov⟩ := trace.exists_provenance hb hk
  have hconfig : trace.prepared.request.config = request.config := by
    rw [prepare_request trace.prepare_eq]
  have hst : b.start = p.candidate.interval.start := congrArg HalfOpen.start hprov.interval
  rw [hst, ← hconfig]
  obtain ⟨_, _, hslot, -, -⟩ := PlanningState.bestCandidate_spec (trace.succeeds hprov.mem).found
  exact (h p hprov.mem).onGrid trace.valid.granularity hslot

namespace Sample

/-- The first instant of 1970, half a second late. -/
def halfSecond : OffsetDateTime :=
  ((OffsetDateTime.atSecond 0).checkedAdd 500000000).getD (.atSecond 0)

/-- Half an hour of work, planned half a second after the first instant. -/
def lateRequest : PlanRequest := { Sample.request [task 1 30] with asOf := halfSecond }

/-- Work in sessions and at once around a meeting, planned at a fraction of a second before there
is any time for it. -/
def earlyRequest : PlanRequest :=
  { Sample.request [inSessions (task 1 60), task 2 15] with
    asOf := halfSecond
    availability := [window (.atSecond 60) (.atSecond 7200)]
    fixedBlocks := [meeting] }

end Sample

/-- All three blocks are on the grid although the present is not. -/
theorem planned_onGrid_earlyRequest : ∃ plan, Sample.plan earlyRequest = .ok plan ∧
    (plan.blocks.filter fun b => b.kind = .planned).length = 3 ∧
      ∀ b ∈ plan.blocks, b.kind = .planned →
        OnGrid earlyRequest.config.slotGranularity b.start := by
  obtain ⟨plan, hplan, trace, hwin, hbusy, hthree⟩ := exists_trace earlyRequest
    (fun prepared start plan => (∀ w ∈ prepared.request.availability,
        WholeSecond (later w.start (planningHorizon prepared.request).start)) ∧
      (∀ b ∈ start.busy, WholeSecond b.interval.finish) ∧
      (plan.blocks.filter fun b => b.kind = .planned).length = 3) (by decide +kernel)
  exact ⟨plan, hplan, hthree, planned_onGrid trace (trace.fromWholeSeconds hwin hbusy)⟩

/-- The half second of the present stays in the plan. -/
theorem planned_not_onGrid_halfSecond : ∃ plan b, Sample.plan lateRequest = .ok plan ∧
    b ∈ plan.blocks ∧ b.kind = .planned ∧ ¬ OnGrid lateRequest.config.slotGranularity b.start := by
  decide +kernel

end DayWeave
