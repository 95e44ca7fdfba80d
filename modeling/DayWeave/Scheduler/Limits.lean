import Mathlib.Algebra.Order.BigOperators.Group.List
import DayWeave.Recurrence.Complete
import DayWeave.Scheduler.Turns

/-!
Hard limits of daily and weekly work in the finished plan.

The last block that is placed in a period is tested against all others of the period, so the limit
holds in the end (`hardLimits_kept`), for one occurrence at a time, since every occurrence is
planned as an item of its own.
-/

open List Std

namespace DayWeave

open Sample

/-- The whole minutes of blocks, without an upper bound. -/
def wholeMinutes (blocks : List ScheduleBlock) : ℕ :=
  (blocks.map fun b => (b.finish.since b.start).wholeMinutes.toNat).sum

lemma wholeMinutes_append_singleton (l : List ScheduleBlock) (b : ScheduleBlock) :
    wholeMinutes (l ++ [b]) = wholeMinutes l + (b.finish.since b.start).wholeMinutes.toNat := by
  simp [wholeMinutes]

namespace PlanningState

lemma limitMinutes_eq {b : ScheduleBlock} (h : b.start < b.finish) :
    limitMinutes b = Span.minutes b.interval := by
  have hnn : ¬ (b.finish.since b.start).wholeMinutes < 0 := by
    have hlt := OffsetDateTime.lt_def.mp h
    refine Int.not_lt.mpr (Int.tdiv_nonneg ?_ (by decide))
    unfold OffsetDateTime.since
    omega
  exact if_neg hnn

lemma toNat_wrapSum_limitMinutes {blocks : List ScheduleBlock}
    (h : ∀ b ∈ blocks, b.start < b.finish)
    (hfits : wholeMinutes blocks < 4294967296) :
    (UInt32.wrapSum (blocks.map limitMinutes)).toNat = wholeMinutes blocks := by
  have hmins : ((blocks.map limitMinutes).map UInt32.toNat) =
      blocks.map fun b => (b.finish.since b.start).wholeMinutes.toNat := by
    rw [map_map]
    refine map_congr_left fun b hb => ?_
    have hle : (b.finish.since b.start).wholeMinutes.toNat ≤ wholeMinutes blocks :=
      le_sum_of_mem (mem_map_of_mem hb)
    rw [Function.comp_apply, limitMinutes_eq (h b hb), Span.minutes, positiveMinutes,
      UInt32.toNat_clamp]
    change min (b.finish.since b.start).wholeMinutes.toNat _ = _
    omega
  rw [UInt32.toNat_wrapSum, hmins]
  exact Nat.mod_eq_of_lt hfits

/-- What a limit asks of a slot: with the work of the item in the period it is not exceeded. -/
def WithinLimit (state : PlanningState) (item : WorkItem) (slot : Span)
    (inPeriod : ScheduleBlock → Bool) (limit : Option (Qualified Minutes)) : Prop :=
  ∀ q ∈ limit, q.strength.isHard →
    (UInt32.wrapSum (((blocksOf state.blocks item.id).filter inPeriod).map limitMinutes)).satAdd
      (Span.minutes slot) ≤ q.value

/-- **Limits refuse**: a candidate that passes keeps both. -/
lemma withinLimits_of_evaluateRules {state : PlanningState} {request : PlanRequest}
    {item : WorkItem} {edges : List Dependency} {items : WorkMap}
    {window : AvailabilityWindow} {slot : Span} {finishesItem : Bool} {tally : Tally}
    (h : state.evaluateRules request item edges items window slot finishesItem = some tally) :
    state.WithinLimit item slot (fun c => c.start.date = slot.start.date)
        item.constraints.maximumDailyWork ∧
      state.WithinLimit item slot (fun c => mondayOf c.start = mondayOf slot.start)
        item.constraints.maximumWeeklyWork := by
  obtain ⟨_, -, h⟩ := Option.bind_eq_some_iff.mp h
  obtain ⟨_, -, h⟩ := Option.bind_eq_some_iff.mp h
  obtain ⟨_, -, h⟩ := Option.bind_eq_some_iff.mp h
  obtain ⟨_, h, -⟩ := Option.bind_eq_some_iff.mp h
  obtain ⟨_, hdaily, hweekly⟩ := Option.bind_eq_some_iff.mp h
  exact ⟨Enforces.optionalRule (fun q => Enforces.test.mono fun hp hq => by simpa using hp hq)
    hdaily,
    Enforces.optionalRule (fun q => Enforces.test.mono fun hp hq => by simpa using hp hq) hweekly⟩

end PlanningState

variable {env : Externals} {request : PlanRequest} {execution : ExecutionPlanningContext}
  {lifecycle : OccurrenceLifecycleContext} {plan : SchedulePlan}

/-- The whole minutes of the blocks of a work unit in a period. -/
def SchedulePlan.workIn (plan : SchedulePlan) (name : WorkIdentity)
    (inPeriod : ScheduleBlock → Bool) : ℕ :=
  wholeMinutes ((plan.blocksNamed name).filter inPeriod)

/-- The work keeps a hard limit, unless there is more of it than the counter can count. -/
def KeepsLimit (work : ℕ) (limit : Option (Qualified Minutes)) : Prop :=
  ∀ q ∈ limit, q.strength.isHard → work < 4294967296 → work ≤ q.value.toNat

namespace PlanTrace

variable (trace : PlanTrace env request execution lifecycle plan)

lemma workIn_eq (id : ItemId) {κ : Type} [DecidableEq κ] (key : OffsetDateTime → κ) (k : κ) :
    plan.workIn (trace.identity id) (fun c => key c.start = k) =
      wholeMinutes ((blocksOf trace.final.blocks id).filter fun c => key c.start = k) := by
  have hperm := (trace.blocksNamed_perm id).filter fun b : ScheduleBlock => key b.start = k
  rw [filter_map, filter_map] at hperm
  have hsum := (hperm.map fun b : ScheduleBlock =>
    (b.finish.since b.start).wholeMinutes.toNat).sum_nat
  rw [map_map, map_map] at hsum
  exact hsum

/-- **The last block of a period**: if every placement of an item is within the limit of its
period, so is the work of the item in the end. -/
lemma keepsLimit_of_placements {p : Planner.Placement} (hp : p ∈ trace.placements) {κ : Type}
    [DecidableEq κ] (key : OffsetDateTime → κ) {limit : Option (Qualified Minutes)}
    (h : ∀ q ∈ trace.placements, q.item.id = p.item.id → q.state.WithinLimit q.item
      q.candidate.interval (fun c => key c.start = key q.candidate.interval.start) limit) :
    KeepsLimit (plan.workIn (trace.identity p.item.id) fun c =>
      key c.start = key p.candidate.interval.start) limit := by
  -- the limit was checked when the last block of the period was placed
  obtain ⟨pre, last, post, hspl, ⟨hid, hkey⟩, hpost⟩ := exists_last_of_mem
    (P := fun q : Planner.Placement => q.item.id = p.item.id ∧
      key q.candidate.interval.start = key p.candidate.interval.start) hp ⟨rfl, rfl⟩
  have hlast : last ∈ trace.placements := by
    rw [hspl]
    exact mem_append_right _ mem_cons_self
  have hbl : (blocksOf trace.final.blocks p.item.id).filter
      (fun c => key c.start = key p.candidate.interval.start) =
      (blocksOf last.state.blocks p.item.id).filter
        (fun c => key c.start = key p.candidate.interval.start) ++ [last.block env] := by
    have hnone : (blocksOf (post.map (Planner.Placement.block env)) p.item.id).filter
        (fun c => key c.start = key p.candidate.interval.start) = [] := by
      rw [blocksOf, filter_filter, filter_eq_nil_iff]
      rintro b hb hboth
      obtain ⟨q, hq, rfl⟩ := mem_map.mp hb
      simp only [Bool.and_eq_true, decide_eq_true_eq] at hboth
      exact hpost q hq ⟨Option.some.inj hboth.2, hboth.1⟩
    have hone : (blocksOf [last.block env] p.item.id).filter
        (fun c => key c.start = key p.candidate.interval.start) = [last.block env] := by
      rw [blocksOf, filter_filter, filter_eq_self]
      exact forall_mem_singleton.mpr (by
        simp only [Bool.and_eq_true, decide_eq_true_eq]
        exact ⟨hkey, congrArg some hid⟩)
    rw [trace.final_blocks, hspl, map_append, map_cons, ← append_assoc,
      ← trace.blocks_before hspl, append_cons]
    simp only [blocksOf, filter_append] at hnone hone ⊢
    rw [hnone, hone, append_nil]
  intro q hq hhard hfits
  have hlim := h last hlast hid q hq hhard
  have hnonempty b hb := trace.nonempty_final b (mem_of_mem_filter (mem_of_mem_filter
    ((Perm.of_eq hbl).mem_iff.mpr (mem_append_left _ hb))))
  have hmins : (Span.minutes last.candidate.interval).toNat =
      min ((last.block env).finish.since (last.block env).start).wholeMinutes.toNat 4294967295 :=
    UInt32.toNat_clamp _
  rw [trace.workIn_eq, hbl, wholeMinutes_append_singleton] at hfits ⊢
  rw [UInt32.le_iff_toNat_le, UInt32.toNat_satAdd, hid, hkey, hmins,
    PlanningState.toNat_wrapSum_limitMinutes hnonempty (by omega)] at hlim
  omega

end PlanTrace

/-- **Hard limits of work**: the work of an item, or of one occurrence of it, that starts on a day
on which the planner has placed some of it keeps a hard limit of daily work, and likewise for the
weeks. -/
theorem hardLimits_kept (h : planWithLifecycle env request execution lifecycle = .ok plan)
    {b : ScheduleBlock} (hb : b ∈ plan.blocks) (hk : b.kind = .planned) {item : WorkItem}
    (hitem : item ∈ request.items) (hid : b.itemId = some item.id) :
    KeepsLimit (plan.workIn ⟨item.id, b.occurrenceId⟩ fun c => c.start.date = b.start.date)
        item.constraints.maximumDailyWork ∧
      KeepsLimit (plan.workIn ⟨item.id, b.occurrenceId⟩ fun c =>
        mondayOf c.start = mondayOf b.start)
        item.constraints.maximumWeeklyWork := by
  obtain ⟨trace⟩ := exists_planTrace h
  obtain ⟨p, original, window, hprov⟩ := trace.exists_provenance hb hk
  obtain rfl := hprov.original_eq hitem hid
  obtain ⟨-, dependencies, occurrenceWindow, hcons⟩ := hprov.origin.rules
  have hst : b.start = p.candidate.interval.start := congrArg HalfOpen.start hprov.interval
  have hname : trace.identity p.item.id = ⟨original.id, b.occurrenceId⟩ := by
    rw [hprov.occurrenceId, ← hprov.origin.itemId]
  have hdaily : p.item.constraints.maximumDailyWork = original.constraints.maximumDailyWork := by
    rw [hcons]
  have hweekly : p.item.constraints.maximumWeeklyWork = original.constraints.maximumWeeklyWork := by
    rw [hcons]
  have hrules : ∀ q ∈ trace.placements, q.item.id = p.item.id →
      q.state.WithinLimit q.item q.candidate.interval
          (fun c => c.start.date = q.candidate.interval.start.date)
          original.constraints.maximumDailyWork ∧
        q.state.WithinLimit q.item q.candidate.interval
          (fun c => mondayOf c.start = mondayOf q.candidate.interval.start)
          original.constraints.maximumWeeklyWork := by
    intro q hq hsame
    have hitem := inj_on_of_nodup_map trace.valid.nodup
      (trace.succeeds hq).mem (trace.succeeds hprov.mem).mem hsame
    obtain ⟨_, _, -, -, hpass⟩ := PlanningState.bestCandidate_spec (trace.succeeds hq).found
    rw [← hdaily, ← hweekly, ← hitem]
    exact PlanningState.withinLimits_of_evaluateRules hpass
  rw [← hname, hst]
  exact ⟨trace.keepsLimit_of_placements hprov.mem OffsetDateTime.date fun q hq hsame =>
      (hrules q hq hsame).1,
    trace.keepsLimit_of_placements hprov.mem mondayOf fun q hq hsame => (hrules q hq hsame).2⟩

namespace Sample

/-- An item that may take some minutes a day. -/
def limited (minutes : Minutes) (item : WorkItem) : WorkItem :=
  { item with constraints := { maximumDailyWork := some ⟨minutes, .hard⟩ } }

end Sample

/-- A pinned half hour and a planned session take no more than fifty minutes of a day. -/
theorem hardLimits_kept_busy : ∃ plan,
    Sample.plan (busyRequest [limited 50 (inSessions (task 1 120))]) = .ok plan ∧
      plan.blocks.length = 3 ∧ ∃ b ∈ plan.blocks, b.kind = .planned ∧
      KeepsLimit (plan.workIn ⟨(task 1 120).id, b.occurrenceId⟩ fun c =>
        c.start.date = b.start.date) (some ⟨50, .hard⟩) := by
  obtain ⟨plan, hplan, hlen, b, hb, hk, hid⟩ : ∃ plan,
      Sample.plan (busyRequest [limited 50 (inSessions (task 1 120))]) = .ok plan ∧
      plan.blocks.length = 3 ∧ ∃ b ∈ plan.blocks, b.kind = .planned ∧
      b.itemId = some (task 1 120).id := by decide +kernel
  exact ⟨plan, hplan, hlen, b, hb, hk, (hardLimits_kept hplan hb hk (mem_singleton_self _) hid).1⟩

/-- Two occurrences of an hourly habit take twenty minutes of a day with a limit of ten. -/
theorem hardLimit_exceeded_by_occurrences : ∃ plan b,
    planWithLifecycle naming (Sample.request [limited 10 (hourly 0)]) {} {} =
      .ok plan ∧ b ∈ plan.blocks ∧ b.kind = .planned ∧ b.itemId = some (hourly 0).id ∧
      10 < wholeMinutes (plan.blocks.filter fun c =>
        c.itemId = some (hourly 0).id ∧ c.start.date = b.start.date) ∧
      wholeMinutes (plan.blocks.filter fun c =>
        c.itemId = some (hourly 0).id ∧ c.start.date = b.start.date) < 4294967296 := by
  decide +kernel

end DayWeave
