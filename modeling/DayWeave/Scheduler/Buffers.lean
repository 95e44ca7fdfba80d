import DayWeave.Scheduler.Outcome

/-!
Hard buffers in the finished plan.

The planner tests the buffers of an item when the item itself is placed, in whole minutes, against
the blocks there are. `hardBuffersReserve_of_slots` says what the slots of every search have to be
like for hard buffers to reserve time in the finished plan.
-/

open List Std

namespace DayWeave

open Planner (takenTime)
open Sample

variable {env : Externals} {request : PlanRequest} {execution : ExecutionPlanningContext}
  {lifecycle : OccurrenceLifecycleContext} {plan : SchedulePlan}

/-- The nanoseconds that a stretch takes of a slot and its buffers; not positive if it
takes none. -/
def marginTime (buffers : BufferPolicy) (slot other : Span) : Int :=
  min (slot.finish.nanos + buffers.after.toDuration) other.finish.nanos -
    max (slot.start.nanos - buffers.before.toDuration) other.start.nanos

/-- The second block stays out of the hard buffers of the first. -/
def KeepsMargins (items : List WorkItem) (a c : ScheduleBlock) : Prop :=
  a.kind = .planned → ∀ item ∈ items, a.itemId = some item.id →
    ∀ strength ∈ item.constraints.buffers.strength, strength.isHard →
      marginTime item.constraints.buffers a.interval c.interval ≤ 0

instance (items : List WorkItem) (a c : ScheduleBlock) : Decidable (KeepsMargins items a c) := by
  unfold KeepsMargins
  infer_instance

/-- No block overlaps a planned block of an item with hard buffers, or its buffers. -/
def HardBuffersReserve (request : PlanRequest) (plan : SchedulePlan) : Prop :=
  ∀ (i j : ℕ) (b c : ScheduleBlock), plan.blocks[i]? = some b → plan.blocks[j]? = some c →
    i ≠ j → KeepsMargins request.items b c

/-- The planner misses nothing about the buffers around a slot: the slot stays out of the hard
buffers of the blocks there are, no block there is cuts into its own for less than a minute, and
the count of the minutes that are cut does not wrap. -/
structure BuffersSeen (request : PlanRequest) (state : PlanningState) (item : WorkItem)
    (slot : Span) : Prop where
  others : ∀ a ∈ state.blocks, a.kind = .planned → ∀ other ∈ request.items,
    a.itemId = some other.id → ∀ strength ∈ other.constraints.buffers.strength, strength.isHard →
      marginTime other.constraints.buffers a.interval slot ≤ 0
  cuts : ∀ strength ∈ item.constraints.buffers.strength, strength.isHard →
    ∀ other ∈ takenTime state, ¬ (0 < marginTime item.constraints.buffers slot other ∧
      marginTime item.constraints.buffers slot other < 60000000000)
  count : ∀ strength ∈ item.constraints.buffers.strength, strength.isHard →
    ∀ expanded, checkedBufferedInterval slot item.constraints.buffers.before
        item.constraints.buffers.after = some expanded →
      ((takenTime state).map fun other => (overlapMinutes expanded other).toNat).sum < 4294967296

/-- The planner misses nothing about any slot that the search considers. -/
def Planner.Placement.SlotsKeepBuffers (request : PlanRequest) (p : Planner.Placement) : Prop :=
  ∀ window slot,
    (window, slot) ∈ p.state.candidateSlots request p.search.duration p.search.earliest →
      BuffersSeen request p.state p.item slot

lemma sharedTime_eq_marginTime {buffers : BufferPolicy} {slot expanded other : Span}
    (h : checkedBufferedInterval slot buffers.before buffers.after = some expanded) :
    sharedTime expanded other = marginTime buffers slot other := by
  obtain ⟨start, hst, h⟩ := Option.bind_eq_some_iff.mp h
  obtain ⟨finish, hfin, rfl⟩ := Option.map_eq_some_iff.mp h
  unfold sharedTime marginTime
  rw [(OffsetDateTime.ofNanos_eq_some hst).1, (OffsetDateTime.ofNanos_eq_some hfin).1]

/-- Nothing is compressed only if, short of wrapping, no busy time takes a whole minute of
the stretch. -/
lemma overlapMinutes_eq_zero_of_compressedMinutes {state : PlanningState}
    {availability expanded : Span} (h : state.compressedMinutes availability expanded = 0)
    (hwrap : ((takenTime state).map fun other =>
      (overlapMinutes expanded other).toNat).sum < 4294967296) :
    ∀ other ∈ takenTime state, overlapMinutes expanded other = 0 := by
  unfold PlanningState.compressedMinutes at h
  have hsum : UInt32.wrapSum
      (state.busy.map fun busy => overlapMinutes expanded busy.interval) = 0 := by
    rw [← UInt32.toNat_inj, UInt32.toNat_satAdd, UInt32.toNat_zero] at h
    rw [← UInt32.toNat_inj, UInt32.toNat_zero]
    omega
  intro other hoth
  obtain ⟨busy, hbusy, rfl⟩ := mem_map.mp hoth
  refine UInt32.eq_zero_of_wrapSum_eq_zero hsum ?_ _ (mem_map.mpr ⟨busy, hbusy, rfl⟩)
  rw [takenTime, map_map] at hwrap
  rwa [map_map]

/-- The planner misses nothing where nothing enters any buffers. -/
lemma buffersSeen_of_apart {state : PlanningState} {item : WorkItem} {slot : Span}
    (hothers : ∀ a ∈ state.blocks, ∀ other ∈ request.items,
      marginTime other.constraints.buffers a.interval slot ≤ 0)
    (hown : ∀ other ∈ takenTime state, marginTime item.constraints.buffers slot other ≤ 0) :
    BuffersSeen request state item slot := by
  refine ⟨fun a ha _ other hoth _ _ _ _ => hothers a ha other hoth, ?_, ?_⟩
  · intro _ _ _ other hoth hcut
    have := hown other hoth
    omega
  · intro _ _ _ expanded hexp
    have hzero : ∀ n ∈ (takenTime state).map fun other =>
        (overlapMinutes expanded other).toNat, n = 0 := by
      intro n hn
      obtain ⟨other, hoth, rfl⟩ := mem_map.mp hn
      have hmargin := hown other hoth
      rw [overlapMinutes_eq_zero.mpr (by rw [sharedTime_eq_marginTime hexp]; omega)]
      rfl
    rw [List.sum_eq_zero_iff_forall_eq_nat.mpr hzero]
    decide

namespace PlanTrace

variable (trace : PlanTrace env request execution lifecycle plan)

lemma keepsMargins_remapBlock {a : ScheduleBlock} (ha : a ∈ trace.final.blocks)
    (c : ScheduleBlock) :
    KeepsMargins request.items (remapBlock trace.prepared.identities a)
        (remapBlock trace.prepared.identities c) ↔
      KeepsMargins trace.prepared.request.items a c := by
  by_cases hk : a.kind = .planned
  · obtain ⟨p, hp, rfl⟩ := trace.exists_placement ha hk
    obtain ⟨original, window, hprov⟩ := trace.provenance_of_core_eq hp rfl
    have hbuffers : p.item.constraints.buffers = original.constraints.buffers := by
      obtain ⟨-, edges, occurrenceWindow, hcons⟩ := hprov.origin.rules
      rw [hcons]
    constructor
    · intro h _ item hitem hid strength hstr hhard
      obtain rfl := inj_on_of_nodup_map trace.valid.nodup
        hprov.placed.mem hitem (Option.some.inj hid)
      rw [hbuffers] at hstr ⊢
      exact h hk original hprov.original_mem hprov.itemId strength hstr hhard
    · intro h _ item hitem hid strength hstr hhard
      obtain rfl := hprov.original_eq hitem hid
      rw [← hbuffers] at hstr ⊢
      exact h hk p.item hprov.placed.mem rfl strength hstr hhard
  · exact ⟨fun _ h => absurd h hk, fun _ h => absurd h hk⟩

/-- The buffers of a placement reserve their time from the blocks there are if the planner sees
every cut. -/
lemma keepsMargins_block {p : Planner.Placement} (hp : p ∈ trace.placements)
    (h : BuffersSeen trace.prepared.request p.state p.item p.candidate.interval) :
    ∀ a ∈ p.state.blocks, KeepsMargins trace.prepared.request.items (p.block env) a := by
  obtain ⟨window, hpld⟩ := trace.placed hp
  obtain ⟨pre, post, hspl⟩ := append_of_mem hp
  intro a ha _ item hitem hid strength hstr hhard
  obtain rfl := inj_on_of_nodup_map trace.valid.nodup hpld.mem hitem (Option.some.inj hid)
  obtain ⟨finishesItem, hadm⟩ := hpld.admits
  obtain ⟨expanded, hexp, hcompressed⟩ := hadm.buffers strength hstr hhard
  have hoth := (trace.takenTime_before hspl).mem_iff.mpr (mem_map_of_mem ha)
  -- the planner has counted no minute of the block
  have hzero := overlapMinutes_eq_zero.mp (overlapMinutes_eq_zero_of_compressedMinutes hcompressed
    (h.count strength hstr hhard expanded hexp) a.interval hoth)
  rw [sharedTime_eq_marginTime hexp] at hzero
  have hshort := h.cuts strength hstr hhard a.interval hoth
  rw [Planner.Placement.block_interval] at hzero ⊢
  omega

end PlanTrace

/-- **Hard buffers** reserve their time in the plan if no search considers a slot in the buffers
that are there already, and none with a cut into its own that goes unseen. -/
theorem hardBuffersReserve_of_slots (trace : PlanTrace env request execution lifecycle plan)
    (h : ∀ p ∈ trace.placements, p.SlotsKeepBuffers trace.prepared.request) :
    HardBuffersReserve request plan := by
  have hsymm : ∀ a c : ScheduleBlock,
      KeepsMargins request.items a c ∧ KeepsMargins request.items c a →
      KeepsMargins request.items c a ∧ KeepsMargins request.items a c := fun _ _ h => h.symm
  have hplan : plan.blocks.Pairwise fun a c =>
      KeepsMargins request.items a c ∧ KeepsMargins request.items c a := by
    rw [trace.pairwise_plan hsymm (fun a c => Iff.rfl) fun a ha c hc =>
      and_congr (trace.keepsMargins_remapBlock ha c) (trace.keepsMargins_remapBlock hc a)]
    rw [trace.pairwise_final_iff fun a c ha hc => ⟨fun h => absurd h ha, fun h => absurd h hc⟩]
    intro p hp a ha
    obtain ⟨_, _, hslot, -, -⟩ := PlanningState.bestCandidate_spec (trace.succeeds hp).found
    have hkeeps := h p hp _ _ hslot
    exact ⟨hkeeps.others a ha, trace.keepsMargins_block hp hkeeps a ha⟩
  exact fun i j b c hi hj hij => ((pairwise_iff_getElem?_ne hsymm).mp hplan i j b c hi hj hij).1

namespace Sample

/-- Half an hour of work with half an hour reserved after it. -/
def bufferedTask : WorkItem :=
  { task 1 30 with constraints := { buffers := ⟨0, 30, some .hard⟩ } }

/-- Half an hour of work with a quarter of an hour reserved after it. -/
def quarterAfter (id : ℕ) : WorkItem :=
  { task id 30 with constraints := { buffers := ⟨0, 15, some .hard⟩ } }

/-- Two such tasks, and time for each of them and its buffer, a quarter of an hour apart. -/
def apartRequest : PlanRequest :=
  { Sample.request [quarterAfter 1, quarterAfter 2] with
    availability := [window (.atSecond 0) (.atSecond 2700),
      window (.atSecond 3600) (.atSecond 6300)] }

end Sample

/-- In windows so far apart both tasks keep their buffers: the rest of a window is too short for
the other one. -/
theorem hardBuffersReserve_apartRequest : ∃ plan, Sample.plan apartRequest = .ok plan ∧
    plan.blocks.length = 2 ∧ HardBuffersReserve apartRequest plan := by
  obtain ⟨plan, hplan, trace, hwin, hbuffers, hplaces, htwo⟩ := exists_trace apartRequest
    (fun prepared _ plan => prepared.request.availability = apartRequest.availability ∧
      (∀ item ∈ prepared.request.items, item.constraints.buffers = ⟨0, 15, some .hard⟩) ∧
      (∀ b ∈ plan.blocks, Span.minutes b.interval = 30 ∧
        ((b.start.nanos = 0 ∧ b.finish.nanos = 1800000000000) ∨
          (b.start.nanos = 3600000000000 ∧ b.finish.nanos = 5400000000000))) ∧
      plan.blocks.length = 2) (by decide +kernel)
  refine ⟨plan, hplan, htwo, hardBuffersReserve_of_slots trace fun p hp w slot hslot => ?_⟩
  obtain ⟨pre, post, hspl⟩ := append_of_mem hp
  obtain ⟨b, hb, -, original, window, hprov⟩ := trace.exists_block hp
  have hminutes : p.search.duration = 30 := by
    rw [← PlanningState.minutes_of_bestCandidate trace.valid.granularity (trace.succeeds hp).found,
      ← hprov.interval]
    exact (hplaces b hb).1
  obtain ⟨hw, ⟨hst, hfin⟩, -, hadd, -, hfree⟩ :=
    PlanningState.candidateSlots_spec trace.valid.granularity hslot
  have hlen : slot.finish.nanos = slot.start.nanos + 1800000000000 := by
    rw [hminutes] at hadd
    exact OffsetDateTime.nanos_of_checkedAdd hadd
  rw [OffsetDateTime.le_def] at hst hfin
  have hin : (0 ≤ slot.start.nanos ∧ slot.finish.nanos ≤ 2700000000000) ∨
      (3600000000000 ≤ slot.start.nanos ∧ slot.finish.nanos ≤ 6300000000000) := by
    rw [hwin] at hw
    rcases mem_pair.mp hw with rfl | rfl
    · exact .inl ⟨hst, hfin⟩
    · exact .inr ⟨hst, hfin⟩
  -- a block there is fills its window, so the slot is in the other one
  have hapart : ∀ other ∈ takenTime p.state, marginTime ⟨0, 15, some .hard⟩ slot other ≤ 0 ∧
      marginTime ⟨0, 15, some .hard⟩ other slot ≤ 0 := by
    intro other hoth
    obtain ⟨busy, hbusy, rfl⟩ := mem_map.mp hoth
    obtain ⟨a, ha, heq⟩ := mem_map.mp ((trace.takenTime_before hspl).mem_iff.mp hoth)
    obtain ⟨c, hc, hint⟩ := trace.exists_plan_block (trace.mem_final_of_before hspl ha)
    have hst : busy.interval.start = c.start := by rw [← heq, ← hint]; rfl
    have hfin : busy.interval.finish = c.finish := by rw [← heq, ← hint]; rfl
    have hplace := (hplaces c hc).2
    rw [← hst, ← hfin] at hplace
    have hout := hfree busy hbusy (by rw [OffsetDateTime.lt_def]; omega)
    have hfifteen : Minutes.toDuration 15 = 900000000000 := rfl
    unfold HalfOpen.Overlaps at hout
    rw [OffsetDateTime.lt_def, OffsetDateTime.lt_def] at hout
    unfold marginTime
    have hzero : Minutes.toDuration 0 = 0 := rfl
    dsimp only
    rw [hfifteen, hzero]
    omega
  refine buffersSeen_of_apart (fun a ha other hoth => ?_) fun other hoth => ?_
  · rw [hbuffers other hoth]
    exact (hapart a.interval ((trace.takenTime_before hspl).mem_iff.mpr (mem_map_of_mem ha))).2
  · rw [hbuffers p.item (trace.succeeds hp).mem]
    exact (hapart other hoth).1

/-- Other work takes the time that is reserved. -/
theorem not_hardBuffersReserve_bufferedTask : ∃ plan,
    Sample.plan (Sample.request [bufferedTask, task 2 30]) = .ok plan ∧
      ¬ HardBuffersReserve (Sample.request [bufferedTask, task 2 30]) plan := by
  obtain ⟨plan, hplan, b, hb, c, hc, hcut⟩ : ∃ plan,
      Sample.plan (Sample.request [bufferedTask, task 2 30]) = .ok plan ∧
      ∃ b ∈ plan.blocks[0]?, ∃ c ∈ plan.blocks[1]?,
        ¬ KeepsMargins [bufferedTask, task 2 30] b c := by decide +kernel
  exact ⟨plan, hplan, fun h => hcut (h 0 1 b c hb hc (by decide))⟩

end DayWeave
