import DayWeave.Scheduler.Run

/-!
The state from which items are placed: what is retained is never planned, every retained block
takes the time it covers and belongs to the item it names, none is empty, and no work is reported
yet. Conflicts of retained blocks are all reported, unless they are too many
(`detectImmutableOverlaps_exact`).
-/

open List Std

namespace DayWeave

open Sample

namespace PlanningState

/-- Two retained blocks overlap, and neither is placed by hand. -/
def conflict (left right : BusyBlock) : Bool :=
  left.interval.Overlaps right.interval ∧ ¬ left.manualPlacement ∧ ¬ right.manualPlacement

/-- A violation reports the overlap of two blocks: it is an error, it names the items of the two and
no other, and its interval is what they have in common. -/
structure ReportsOverlap (left right : BusyBlock) (v : PlanViolation) : Prop where
  severity : v.severity = .error
  itemIds : ∀ id, id ∈ v.itemIds ↔ left.itemId = some id ∨ right.itemId = some id
  start : ∃ s, v.start = some s ∧
    s.nanos = max left.interval.start.nanos right.interval.start.nanos
  finish : ∃ f, v.finish = some f ∧
    f.nanos = min left.interval.finish.nanos right.interval.finish.nanos

lemma reportsOverlap_overlapViolation (left right : BusyBlock) :
    ReportsOverlap left right (overlapViolation left right) := by
  refine ⟨rfl, fun id => ?_, ⟨_, rfl, OffsetDateTime.nanos_later _ _⟩,
    ⟨_, rfl, OffsetDateTime.nanos_earlier _ _⟩⟩
  rw [overlapViolation, mem_dedupBy_beq, mem_sortBy, mem_filterMap]
  simp only [mem_cons, not_mem_nil, or_false, exists_eq_or_imp, exists_eq_left]

/-- The reports of all pairs of blocks that are in conflict. -/
def conflictReports (busy : List BusyBlock) : List PlanViolation :=
  ((pairs busy).filter fun p => conflict p.1 p.2).map fun p => overlapViolation p.1 p.2

/-- The reports, unless there are too many of them. -/
def reportUpToLimit (violations : List PlanViolation) : Except ScheduleError (List PlanViolation) :=
  if violations.length ≤ maxImmutableOverlapViolations then .ok violations
  else .error .conflictEvidenceLimit

lemma conflict_comm (left right : BusyBlock) : conflict left right = conflict right left :=
  decide_eq_decide.mpr (and_congr HalfOpen.overlaps_comm and_comm)

variable {l : List BusyBlock} {violations : List PlanViolation}

/-- In blocks sorted by start the search may stop at the first one that starts too late. -/
lemma overlapsWith_eq (left : BusyBlock)
    (hsort : l.Pairwise fun a b => a.interval.start ≤ b.interval.start)
    (hle : violations.length ≤ maxImmutableOverlapViolations) : overlapsWith left l violations =
      reportUpToLimit (violations ++ (l.filter (conflict left)).map (overlapViolation left)) := by
  induction l generalizing violations with
  | nil => simp [overlapsWith, reportUpToLimit, hle]
  | cons right rest ih =>
    obtain ⟨hfst, hrest⟩ := pairwise_cons.mp hsort
    rw [overlapsWith]
    by_cases hfar : left.interval.finish ≤ right.interval.start
    · have hnone : (right :: rest).filter (conflict left) = [] := by
        refine filter_eq_nil_iff.mpr fun b hb hconf => ?_
        have hlat : right.interval.start ≤ b.interval.start := by
          rcases mem_cons.mp hb with rfl | hb
          · exact le_rfl
          · exact hfst b hb
        exact absurd (hfar.trans hlat) (OffsetDateTime.not_le_iff.mpr (of_decide_eq_true hconf).1.2)
      rw [if_pos hfar, hnone, map_nil, append_nil, reportUpToLimit, if_pos hle]
    · rw [if_neg hfar]
      by_cases hconf : conflict left right
      · rw [if_neg, filter_cons_of_pos hconf, map_cons]
        · split_ifs with hfull
          · rw [reportUpToLimit, if_neg]
            simp only [length_append, length_cons]
            omega
          · rw [ih hrest (by simp; omega), append_assoc, singleton_append]
        · have := of_decide_eq_true hconf
          tauto
      · rw [if_pos, filter_cons_of_neg hconf, ih hrest hle]
        have := mt decide_eq_true hconf
        tauto

lemma overlapsAmong_eq (hsort : l.Pairwise fun a b => a.interval.start ≤ b.interval.start)
    (hle : violations.length ≤ maxImmutableOverlapViolations) :
    overlapsAmong l violations = reportUpToLimit (violations ++ conflictReports l) := by
  induction l generalizing violations with
  | nil => simp [overlapsAmong, conflictReports, pairs, reportUpToLimit, hle]
  | cons left rest ih =>
    obtain ⟨-, hrest⟩ := pairwise_cons.mp hsort
    have hreps : conflictReports (left :: rest) =
        (rest.filter (conflict left)).map (overlapViolation left) ++ conflictReports rest := by
      rw [conflictReports, pairs, filter_append, map_append, filter_map, map_map]
      rfl
    rw [overlapsAmong, overlapsWith_eq left hrest hle, hreps, ← append_assoc]
    by_cases hfits : (violations ++
        (rest.filter (conflict left)).map (overlapViolation left)).length ≤
        maxImmutableOverlapViolations
    · rw [reportUpToLimit, if_pos hfits]
      exact ih hrest hfits
    · rw [reportUpToLimit, if_neg hfits, reportUpToLimit, if_neg]
      · rfl
      · rw [length_append]
        omega

/-- There is one report for each pair of blocks in conflict, about this pair. -/
lemma forall₂_conflictReports (busy : List BusyBlock) :
    Forall₂ (fun p v => ReportsOverlap p.1 p.2 v) ((pairs busy).filter fun p => conflict p.1 p.2)
      (conflictReports busy) := by
  rw [conflictReports, forall₂_map_right_iff, forall₂_same]
  exact fun p _ => reportsOverlap_overlapViolation p.1 p.2

/-- **Overlaps of retained time**: if the conflicts of the retained blocks are not too many, there
is one report for each of them, an error that names the items of the pair and has the intersection
of the two as its interval; otherwise the limit is reported. -/
theorem detectImmutableOverlaps_exact {state : PlanningState} (hnone : state.violations = []) :
    ((pairs state.busy).countP (fun p => conflict p.1 p.2) ≤ maxImmutableOverlapViolations →
      ∃ busy violations, busy.Perm state.busy ∧ state.detectImmutableOverlaps =
          .ok { state with busy := busy, violations := violations } ∧
        Forall₂ (fun p v => ReportsOverlap p.1 p.2 v)
          ((pairs busy).filter fun p => conflict p.1 p.2) violations) ∧
    (maxImmutableOverlapViolations < (pairs state.busy).countP (fun p => conflict p.1 p.2) →
      state.detectImmutableOverlaps = .error .conflictEvidenceLimit) := by
  obtain ⟨busy, hperm, hsort, hdetect⟩ : ∃ busy, busy.Perm state.busy ∧
      (busy.Pairwise fun a b => a.interval.start ≤ b.interval.start) ∧
      state.detectImmutableOverlaps = (overlapsAmong busy state.violations >>= fun violations =>
        .ok { state with busy := busy, violations := violations }) := by
    refine ⟨_, sortBy_perm _ _, ?_, rfl⟩
    refine (pairwise_sortBy _ _).imp fun {a b} h => ?_
    exact Int.isLE_compare.mp (Ordering.isLE_left_of_isLE_then h)
  rw [hdetect, hnone, overlapsAmong_eq hsort (Nat.zero_le _), nil_append, reportUpToLimit,
    conflictReports, length_map, ← countP_eq_length_filter, countP_pairs_perm conflict_comm hperm]
  constructor
  · intro hfits
    rw [if_pos hfits]
    exact ⟨busy, _, hperm, rfl, forall₂_conflictReports busy⟩
  · intro hfull
    rw [if_neg (Nat.not_le.mpr hfull)]
    rfl

end PlanningState

/-- Three blocks of which each overlaps each other one, a block placed by hand across all of them
and one after them. -/
def Sample.overlapping : PlanningState where
  busy := [⟨⟨.atSecond 30, .atSecond 90⟩, some (task 1 1).id, true, false⟩,
    ⟨⟨.atSecond 0, .atSecond 60⟩, some (task 2 1).id, true, false⟩,
    ⟨⟨.atSecond 50, .atSecond 70⟩, none, false, false⟩,
    ⟨⟨.atSecond 0, .atSecond 300⟩, some (task 3 1).id, true, true⟩,
    ⟨⟨.atSecond 90, .atSecond 120⟩, some (task 1 1).id, true, false⟩]

/-- The three overlaps are reported, each with its own half minute or less. -/
theorem detectImmutableOverlaps_exact_overlapping : ∃ busy violations,
    overlapping.detectImmutableOverlaps =
        .ok { overlapping with busy := busy, violations := violations } ∧
      Forall₂ (fun p v => PlanningState.ReportsOverlap p.1 p.2 v)
        ((pairs busy).filter fun p => PlanningState.conflict p.1 p.2) violations ∧
      violations.map (fun v => (v.severity, v.itemIds, v.start, v.finish)) =
        [(.error, [(task 1 1).id, (task 2 1).id], some (.atSecond 30), some (.atSecond 60)),
         (.error, [(task 2 1).id], some (.atSecond 50), some (.atSecond 60)),
         (.error, [(task 1 1).id], some (.atSecond 50), some (.atSecond 70))] := by
  obtain ⟨busy, violations, -, hok, hreps⟩ :=
    (@PlanningState.detectImmutableOverlaps_exact overlapping rfl).1 (by decide)
  refine ⟨busy, violations, hok, hreps, ?_⟩
  have hvalues := congrArg (fun result => result.toOption.map fun s : PlanningState =>
    s.violations.map fun v => (v.severity, v.itemIds, v.start, v.finish)) hok
  refine Option.some.inj (hvalues.symm.trans ?_)
  decide +kernel

namespace Planner

/-- What may be retained: external time without an item, events at their source time, and
pinned time of other work. -/
def Owned (request : PlanRequest) (b : ScheduleBlock) : Prop :=
  b.occurrenceId = none ∧ ∀ id ∈ b.itemId, ∃ item ∈ request.items, item.id = id ∧
    (b.kind = .pinned ∨ (b.kind = .calendarEvent ∧ item.kind.isCalendarEvent))

/-- What holds of a state before the first placement. -/
structure OnlyRetained (request : PlanRequest) (state : PlanningState) : Prop where
  kind : ∀ b ∈ state.blocks, b.kind ≠ .planned
  taken : (takenTime state).Perm (state.blocks.map ScheduleBlock.interval)
  nonempty : ∀ b ∈ state.blocks, b.start < b.finish
  owned : ∀ b ∈ state.blocks, Owned request b
  unscheduled : state.unscheduled = []

namespace OnlyRetained

variable {env : Externals} {request : PlanRequest} {state s' : PlanningState} {item : WorkItem}
  {interval : Span}

lemma owned_pinned (hitem : item ∈ request.items) {sessionIndex : UInt16}
    {explanations : List PlacementExplanation} :
    Owned request (PlanningState.itemBlock env item .pinned sessionIndex interval explanations) :=
  ⟨rfl, fun _ hid => ⟨item, hitem, Option.some.inj hid, .inl rfl⟩⟩

lemma start_lt_finish_of_inHorizon
    (h : PlanningState.inHorizon request interval) : interval.start < interval.finish := by
  obtain ⟨c, hc⟩ := Option.isSome_iff_exists.mp h
  have hin := (HalfOpen.clipped_contains hc).1
  exact hin.1.trans_lt ((HalfOpen.clipped_eq_some hc).2.trans_le hin.2)

lemma new (execution : MaterializedExecutionContext) :
    OnlyRetained request (PlanningState.new request execution) :=
  ⟨fun _ hb => (nomatch hb), List.Perm.refl _, fun _ hb => (nomatch hb), fun _ hb => (nomatch hb),
    rfl⟩

lemma foldl {β : Type} {f : PlanningState → β → PlanningState} {l : List β}
    (hf : ∀ s b, b ∈ l → OnlyRetained request s → OnlyRetained request (f s b))
    (h : OnlyRetained request state) : OnlyRetained request (l.foldl f state) := by
  exact foldlRecOn l f h fun s hs b hb => hf s b hb hs

variable (h : OnlyRetained request state)

include h

lemma congr (hbl : s'.blocks = state.blocks) (hbusy : s'.busy = state.busy)
    (hunsch : s'.unscheduled = state.unscheduled) : OnlyRetained request s' := by
  refine ⟨hbl ▸ h.kind, ?_, hbl ▸ h.nonempty, hbl ▸ h.owned, hunsch.trans h.unscheduled⟩
  rw [takenTime, hbusy, hbl]
  exact h.taken

lemma retain {block : ScheduleBlock} {pinned manual : Bool} (hkind : block.kind ≠ .planned)
    (hne : block.start < block.finish) (howned : Owned request block) :
    OnlyRetained request (state.retain block pinned manual) := by
  refine ⟨?_, ?_, ?_, ?_, h.unscheduled⟩
  · exact forall_mem_append.mpr ⟨h.kind, forall_mem_singleton.mpr hkind⟩
  · simpa [takenTime, PlanningState.retain] using h.taken.append_right [block.interval]
  · exact forall_mem_append.mpr ⟨h.nonempty, forall_mem_singleton.mpr hne⟩
  · exact forall_mem_append.mpr ⟨h.owned, forall_mem_singleton.mpr howned⟩

lemma addFixedBlock (fixed : FixedBlock) :
    OnlyRetained request (PlanningState.addFixedBlock request state fixed) := by
  unfold PlanningState.addFixedBlock
  split_ifs with hin
  · exact h.retain ScheduleBlockKind.noConfusion (start_lt_finish_of_inHorizon hin)
      ⟨rfl, fun _ hid => (nomatch hid)⟩
  · exact h

lemma addCalendarEvent (hitem : item ∈ request.items) :
    OnlyRetained request (PlanningState.addCalendarEvent env request state item) := by
  unfold PlanningState.addCalendarEvent
  split
  · rename_i event hkind
    dsimp only
    split_ifs with hopen hin
    · exact h.congr rfl rfl rfl
    · refine (h.retain ScheduleBlockKind.noConfusion (start_lt_finish_of_inHorizon hin)
        ⟨rfl, fun _ hid => ⟨item, hitem, Option.some.inj hid, .inr ⟨rfl, ?_⟩⟩⟩).congr rfl rfl rfl
      rw [hkind]
      rfl
    · exact h
  · exact h

lemma addReservation (hitem : item ∈ request.items)
    {reservation : ExecutionReservation} (hne : reservation.start < reservation.finish)
    (hadd : PlanningState.addReservation env request item state reservation = .ok s') :
    OnlyRetained request s' := by
  unfold PlanningState.addReservation at hadd
  dsimp only at hadd
  split_ifs at hadd <;> cases hadd
  · refine OnlyRetained.retain ?_ ScheduleBlockKind.noConfusion hne (owned_pinned hitem)
    exact h.congr rfl rfl rfl
  · exact h.congr rfl rfl rfl

lemma addWorkUnit {entry : ItemId × MaterializedExecutionWorkUnit}
    (hne : ∀ r ∈ entry.2.reservations, r.start < r.finish)
    (hadd : PlanningState.addWorkUnit env request (itemsById request.items) state entry = .ok s') :
    OnlyRetained request s' := by
  unfold PlanningState.addWorkUnit at hadd
  split at hadd
  · cases hadd
    exact h
  · rename_i item hlook
    obtain ⟨t, ht, hadd⟩ := Except.bind_eq_ok.mp hadd
    have hitem := (mem_of_getElem?_itemsById hlook).1
    have hret := Except.foldlM_invariant
      (fun s r s' hr hs hP => hP.addReservation hitem (hne r hr) hs) ht h
    split at hadd <;> cases hadd
    · exact hret
    · exact hret.congr rfl rfl rfl

lemma addPinnedBlock (hitem : item ∈ request.items) (manual : Bool) (block : PreviousBlock) :
    OnlyRetained request (PlanningState.addPinnedBlock env request item manual state block) := by
  unfold PlanningState.addPinnedBlock
  dsimp only
  split_ifs with hin
  · refine OnlyRetained.retain ?_ ScheduleBlockKind.noConfusion
      (start_lt_finish_of_inHorizon hin) (owned_pinned hitem)
    exact h.congr rfl rfl rfl
  · exact h.congr rfl rfl rfl

lemma addPinnedAssignment (assignment : PreviousAssignment) : OnlyRetained request
    (PlanningState.addPinnedAssignment env request (itemsById request.items) state assignment) := by
  unfold PlanningState.addPinnedAssignment
  split
  · exact h
  · rename_i item hlook
    have hitem := (mem_of_getElem?_itemsById hlook).1
    split
    · exact h
    · exact (foldl (fun s b _ hs => hs.addPinnedBlock hitem _ b) h).congr rfl rfl rfl

lemma detectImmutableOverlaps (hdetect : state.detectImmutableOverlaps = .ok s') :
    OnlyRetained request s' := by
  obtain ⟨violations, -, hs⟩ := Except.bind_eq_ok.mp hdetect
  cases hs
  exact ⟨h.kind, ((sortBy_perm _ state.busy).map _).trans h.taken, h.nonempty, h.owned,
    h.unscheduled⟩

end OnlyRetained

/-- **The retained state**: nothing in it is planned, and all of its time is taken. -/
theorem onlyRetained_retained {env : Externals} {request : PlanRequest}
    {execution : MaterializedExecutionContext} {state : PlanningState}
    (hne : ∀ entry ∈ execution.workUnits.toList, ∀ r ∈ entry.2.reservations, r.start < r.finish)
    (h : retained env request execution = .ok state) : OnlyRetained request state := by
  obtain ⟨reserved, hresv, hdetect⟩ := Except.bind_eq_ok.mp h
  refine OnlyRetained.detectImmutableOverlaps
    (OnlyRetained.foldl (fun s a _ hs => hs.addPinnedAssignment a) ?_) hdetect
  refine Except.foldlM_invariant
    (fun s entry s' hent hs hP => hP.addWorkUnit (hne entry hent) hs) hresv ?_
  exact OnlyRetained.foldl (fun s item hitem hs => hs.addCalendarEvent hitem)
    (OnlyRetained.foldl (fun s fixed _ hs => hs.addFixedBlock fixed) (OnlyRetained.new execution))

end Planner

end DayWeave
