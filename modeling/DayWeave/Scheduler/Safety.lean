import DayWeave.Scheduler.Grid

/-!
What planned blocks never do, in every plan.
-/

open Std

namespace DayWeave

open Sample

variable {env : Externals} {request : PlanRequest} {execution : ExecutionPlanningContext}
  {lifecycle : OccurrenceLifecycleContext} {plan : SchedulePlan} {original : WorkItem}

/-- **Planned blocks lie in free time**: a planned block is not empty, lies in one
availability window and in the part of the horizon that is not past, and overlaps no
other block of the plan. -/
theorem planned_in_free_time (h : planWithLifecycle env request execution lifecycle = .ok plan)
    {i : ℕ} {b : ScheduleBlock} (hi : plan.blocks[i]? = some b) (hk : b.kind = .planned) :
    b.start < b.finish ∧ (∃ w ∈ request.availability, w.interval.Contains b.interval) ∧
      (planningHorizon request).Contains b.interval ∧
      ∀ j c, plan.blocks[j]? = some c → i ≠ j → ¬ b.interval.Overlaps c.interval := by
  obtain ⟨trace⟩ := exists_planTrace h
  obtain ⟨p, original, window, hb⟩ := trace.exists_provenance (List.mem_of_getElem? hi) hk
  have hsymm : ∀ a b : ScheduleBlock,
      ((a.kind = .planned ∨ b.kind = .planned) → ¬ a.interval.Overlaps b.interval) →
      ((b.kind = .planned ∨ a.kind = .planned) → ¬ b.interval.Overlaps a.interval) :=
    fun a b hab hk hov => hab hk.symm (HalfOpen.overlaps_comm.mp hov)
  have hpw := (trace.pairwise_plan hsymm (fun a b => Iff.rfl)
    (fun a _ b _ => Iff.rfl)).mpr trace.pairwise_final
  exact ⟨hb.nonempty, ⟨window, hb.available, hb.inside⟩, hb.horizon, fun j c hj hij =>
    (pairwise_iff_getElem?_ne hsymm).mp hpw i j b c hi hj hij (.inl hk)⟩

/-- Two blocks are planned around a meeting and a pinned block, and meet neither. -/
theorem planned_in_free_time_busy : ∃ plan,
    Sample.plan (busyRequest [task 1 60, task 2 20]) = .ok plan ∧
      plan.blocks.countP (·.kind = .planned) = 2 ∧ plan.blocks.length = 4 ∧
      ∀ b ∈ plan.blocks, b.kind = .planned →
        b.start < b.finish ∧ ∀ c ∈ plan.blocks, b ≠ c → ¬ b.interval.Overlaps c.interval := by
  obtain ⟨plan, hplan, hcount, hlen⟩ : ∃ plan,
      Sample.plan (busyRequest [task 1 60, task 2 20]) = .ok plan ∧
        plan.blocks.countP (·.kind = .planned) = 2 ∧ plan.blocks.length = 4 := by decide +kernel
  refine ⟨plan, hplan, hcount, hlen, fun b hb hk => ?_⟩
  obtain ⟨i, hi⟩ := List.getElem?_of_mem hb
  obtain ⟨hlt, -, -, hfree⟩ := planned_in_free_time hplan hi hk
  refine ⟨hlt, fun c hc hne => ?_⟩
  obtain ⟨j, hj⟩ := List.getElem?_of_mem hc
  exact hfree j c hj fun hij => hne (Option.some.inj (hi.symm.trans (hij ▸ hj)))

/-- A block of an occurrence lies in the window of the occurrence; another one lies in
the window its item asks for, if it does. -/
def KeepsOccurrenceWindow (plan : SchedulePlan) (item : WorkItem) (b : ScheduleBlock) : Prop :=
  match b.occurrenceId with
  | some id => ∃ o ∈ plan.occurrences, o.id = id ∧
      (HalfOpen.mk o.windowStart o.windowEnd).Contains b.interval
  | none => ∀ w ∈ item.constraints.occurrenceWindow,
      (HalfOpen.mk w.start w.finish).Contains b.interval

lemma keepsOccurrenceWindow_of_provenance (trace : PlanTrace env request execution lifecycle plan)
    {b : ScheduleBlock} {p : Planner.Placement} {window : AvailabilityWindow}
    (h : trace.Provenance b p original window) : KeepsOccurrenceWindow plan original b := by
  have hoccs := congrArg (·.occurrences) trace.plan_eq
  obtain ⟨finishesItem, hadm⟩ := h.placed.admits
  rw [Planner.Placement.block_interval, ← h.interval] at hadm
  have hname := h.occurrenceId
  unfold KeepsOccurrenceWindow PlanTrace.identity publicIdentity at *
  cases h.origin with
  | retained name same =>
    rw [name] at hname
    rw [hname]
    have := hadm.occurrence
    rwa [same] at this
  | copied o mem name copy isCopy same =>
    rw [name] at hname
    rw [hname]
    obtain ⟨parentId, edges, hcopy⟩ := isCopy.rest
    refine ⟨o, hoccs ▸ mem, rfl, hadm.occurrence ⟨o.windowStart, o.windowEnd⟩ ?_⟩
    rw [same, hcopy]
    rfl

/-- **Planned blocks keep all hard rules**: a planned block belongs to an item of the
request, and there is one availability window around it in which all hard rules of the
item hold at once. -/
theorem planned_keeps_hard_rules (h : planWithLifecycle env request execution lifecycle = .ok plan)
    {b : ScheduleBlock} (hb : b ∈ plan.blocks) (hk : b.kind = .planned) :
    (∃ item ∈ request.items, b.itemId = some item.id) ∧
      ∀ item ∈ request.items, b.itemId = some item.id → KeepsOccurrenceWindow plan item b ∧
          ∃ w ∈ request.availability, w.interval.Contains b.interval ∧
            KeepsHardRules request item w b.interval := by
  obtain ⟨trace⟩ := exists_planTrace h
  obtain ⟨p, original, window, hb⟩ := trace.exists_provenance hb hk
  refine ⟨⟨original, hb.original_mem, hb.itemId⟩, fun other hoth hid => ?_⟩
  obtain rfl := hb.original_eq hoth hid
  obtain ⟨finishesItem, hadm⟩ := hb.placed.admits
  rw [Planner.Placement.block_interval, ← hb.interval] at hadm
  obtain ⟨henergy, dependencies, occurrenceWindow, hcons⟩ := hb.origin.rules
  have hasOf : trace.prepared.request.asOf = request.asOf := by
    rw [prepare_request trace.prepare_eq]
  exact ⟨keepsOccurrenceWindow_of_provenance trace hb, window, hb.available, hb.inside,
    hadm.rules.congr hasOf henergy hcons⟩

/-- Half an hour of work that may start after ten minutes. -/
def Sample.lateTask : WorkItem :=
  { task 1 30 with constraints := { earliestStart := some ⟨.atSecond 600, .hard⟩ } }

theorem planned_keeps_hard_rules_lateTask : ∃ plan b,
    Sample.plan (Sample.request [lateTask]) = .ok plan ∧ b ∈ plan.blocks ∧
      b.kind = .planned ∧ .atSecond 600 ≤ b.start := by
  obtain ⟨plan, b, hplan, hb, hk, hid⟩ : ∃ plan b, Sample.plan (Sample.request [lateTask]) =
      .ok plan ∧ b ∈ plan.blocks ∧ b.kind = .planned ∧ b.itemId = some lateTask.id := by
    decide +kernel
  obtain ⟨-, w, -, -, hrules⟩ := (planned_keeps_hard_rules hplan hb hk).2 lateTask
    (List.mem_singleton_self _) hid
  exact ⟨plan, b, hplan, hb, hk, hrules.earliestStart _ rfl rfl⟩

/-- The stretch of a forbidden window. -/
def AbsoluteWindow.interval (w : AbsoluteWindow) : Span := ⟨w.start, w.finish⟩

/-- No slot that the search considers meets a hard forbidden window of the item for less than a
minute, which is what the planner cannot see. -/
def Planner.Placement.SlotsClear (request : PlanRequest) (p : Planner.Placement) : Prop :=
  ∀ window slot,
    (window, slot) ∈ p.state.candidateSlots request p.search.duration p.search.earliest →
      ∀ q ∈ p.item.constraints.forbiddenWindows, q.strength.isHard →
        ¬ (slot.Meets q.value.interval ∧ sharedTime slot q.value.interval < 60000000000)

/-- A planned block of the plan keeps out of the hard forbidden windows of its item. -/
def KeepsForbiddenWindows (request : PlanRequest) (plan : SchedulePlan) : Prop :=
  ∀ b ∈ plan.blocks, b.kind = .planned → ∀ item ∈ request.items, b.itemId = some item.id →
    ∀ q ∈ item.constraints.forbiddenWindows, q.strength.isHard → ¬ b.interval.Meets q.value.interval

instance (request : PlanRequest) (plan : SchedulePlan) :
    Decidable (KeepsForbiddenWindows request plan) := by
  unfold KeepsForbiddenWindows
  infer_instance

/-- The forbidden windows of an item are those of its original. -/
lemma Origin.forbiddenWindows {prepared : Prepared} {item : WorkItem}
    (h : Origin env request prepared original item) :
    item.constraints.forbiddenWindows = original.constraints.forbiddenWindows := by
  obtain ⟨-, edges, occurrenceWindow, hcons⟩ := h.rules
  rw [hcons]

/-- **Forbidden windows**: a plan keeps all hard forbidden windows if no search considers a slot
that runs into one for less than a minute. -/
theorem keepsForbiddenWindows_of_slotsClear
    (trace : PlanTrace env request execution lifecycle plan)
    (h : ∀ p ∈ trace.placements, p.SlotsClear trace.prepared.request) :
    KeepsForbiddenWindows request plan := by
  intro b hb hk item hitem hid q hq hhard hmt
  obtain ⟨p, original, window, hprov⟩ := trace.exists_provenance hb hk
  obtain rfl := hprov.original_eq hitem hid
  rw [← hprov.origin.forbiddenWindows] at hq
  obtain ⟨finishesItem, hadm⟩ := hprov.placed.admits
  -- the planner has seen that the shared minutes round down to zero
  have hzero := overlapMinutes_eq_zero.mp (hadm.forbidden q hq hhard)
  rw [hprov.interval] at hmt
  obtain ⟨_, _, hslot, -, -⟩ := PlanningState.bestCandidate_spec (trace.succeeds hprov.mem).found
  exact h p hprov.mem _ _ hslot q hq hhard ⟨hmt, hzero⟩

/-- Windows of whole minutes are seen by every search from whole seconds: all slots are of whole
minutes as well. -/
lemma Planner.Placement.FromWholeSeconds.slotsClear {p : Planner.Placement}
    (h : p.FromWholeSeconds request) (hg : request.config.slotGranularity ≠ 0)
    (hwin : ∀ q ∈ p.item.constraints.forbiddenWindows,
      q.value.start.nanos % 60000000000 = 0 ∧ q.value.finish.nanos % 60000000000 = 0) :
    p.SlotsClear request := by
  rintro window slot hslot q hq - ⟨⟨t, ⟨hss, hsf⟩, hqs, hqf⟩, hshort⟩
  have hadd := OffsetDateTime.nanos_of_checkedAdd
    (PlanningState.candidateSlots_spec hg hslot).2.2.2.1
  have hgrid : (60000000000 : Int) ∣ slot.start.nanos :=
    (Dvd.intro_left (request.config.slotGranularity.toNat : Int)
      (Minutes.toDuration_eq _).symm).trans (Int.dvd_of_emod_eq_zero (h.onGrid hg hslot))
  obtain ⟨hst, hfin⟩ := hwin q hq
  rw [Minutes.toDuration_eq] at hadd
  rw [OffsetDateTime.le_def] at hss hqs
  rw [OffsetDateTime.lt_def] at hsf hqf
  unfold sharedTime AbsoluteWindow.interval at *
  dsimp only at *
  omega

/-- Half an hour of work with a forbidden window. -/
def Sample.guardedTask (start finish : OffsetDateTime) : WorkItem :=
  { task 1 30 with constraints := { forbiddenWindows := [⟨⟨start, finish⟩, .hard⟩] } }

/-- Such work, a task of a quarter of an hour and a meeting. -/
def Sample.guardedRequest : PlanRequest :=
  { Sample.request [guardedTask (.atSecond 0) (.atSecond 600), task 2 15] with
    fixedBlocks := [meeting] }

/-- The work waits for the end of a window of ten minutes, and for the end of a meeting. -/
theorem keepsForbiddenWindows_guardedTask : ∃ plan,
    Sample.plan guardedRequest = .ok plan ∧
      (plan.blocks.filter fun b => b.kind = .planned).length = 2 ∧
      KeepsForbiddenWindows guardedRequest plan := by
  obtain ⟨plan, hplan, trace, hwin, hbusy, hits, htwo⟩ := exists_trace guardedRequest
    (fun prepared start plan => (∀ w ∈ prepared.request.availability,
        WholeSecond (later w.start (planningHorizon prepared.request).start)) ∧
      (∀ b ∈ start.busy, WholeSecond b.interval.finish) ∧
      (∀ item ∈ prepared.request.items, ∀ q ∈ item.constraints.forbiddenWindows,
        q.value.start.nanos % 60000000000 = 0 ∧ q.value.finish.nanos % 60000000000 = 0) ∧
      (plan.blocks.filter fun b => b.kind = .planned).length = 2) (by decide +kernel)
  refine ⟨plan, hplan, htwo, keepsForbiddenWindows_of_slotsClear trace fun p hp => ?_⟩
  exact (trace.fromWholeSeconds hwin hbusy p hp).slotsClear trace.valid.granularity
    (hits p.item (trace.succeeds hp).mem)

/-- The work runs into a window of ten seconds. -/
theorem not_keepsForbiddenWindows_guardedTask :
    ∃ plan, Sample.plan (Sample.request [guardedTask (.atSecond 1790) (.atSecond 1800)]) =
      .ok plan ∧ ¬ KeepsForbiddenWindows
        (Sample.request [guardedTask (.atSecond 1790) (.atSecond 1800)]) plan := by
  decide +kernel

end DayWeave
