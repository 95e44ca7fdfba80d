import DayWeave.Scheduler.Place

/-!
What the placement of one item does.

The sessions of an item are placed in steps (`SessionStep`): a step takes the best candidate of one
search, or stops (`sessionSteps_placeSessions`). `SessionSteps.accounts` draws the balance of
minutes, and `scheduleItem_spec` is what the rest of the development uses.
-/

open List Std Relation

namespace DayWeave

open UInt32 (le_iff_toNat_le satSub toNat_inj toNat_max toNat_min toNat_satSub toNat_zero)

namespace PlanningState

/-! ### Sizes -/

lemma le_of_mem_shrinkSizes {step minimum : Minutes} {rounds : ℕ} {start size : Minutes}
    (hmin : minimum ≤ start) (h : size ∈ shrinkSizes step minimum rounds start) : size ≤ start := by
  induction rounds generalizing start with
  | zero => cases h
  | succ rounds ih =>
    rcases mem_cons.mp h with rfl | h
    · exact UInt32.le_refl _
    · split_ifs at h
      · cases h
      have hle : max (satSub start step) minimum ≤ start := by
        rw [le_iff_toNat_le] at hmin ⊢
        rw [toNat_max, toNat_satSub]
        omega
      refine UInt32.le_trans (ih ?_ h) hle
      rw [le_iff_toNat_le, toNat_max]
      omega

variable {step low high : Minutes} {remaining : UInt32} {size : Minutes}

/-- The size of a session lies between the bounds, and what it leaves is nothing or enough for
another session. -/
lemma bounds_of_mem_sessionSizes (hle : low ≤ high)
    (h : size ∈ sessionSizes step low high remaining) :
    min low.toNat remaining.toNat ≤ size.toNat ∧ size.toNat ≤ remaining.toNat ∧
      size.toNat ≤ high.toNat ∧ (remaining.toNat - size.toNat = 0 ∨
        low.toNat ≤ remaining.toNat - size.toNat) := by
  obtain ⟨hshrink, hsize⟩ := mem_filter.mp h
  simp only [Bool.and_eq_true, Bool.or_eq_true, decide_eq_true_eq] at hsize
  obtain ⟨haft, hlow'⟩ := hsize
  have hupper : size ≤ min remaining high := by
    refine le_of_mem_shrinkSizes ?_ hshrink
    rw [le_iff_toNat_le, toNat_min, toNat_min]
    rw [le_iff_toNat_le] at hle
    omega
  rw [le_iff_toNat_le, toNat_min] at hlow' hupper
  rw [← toNat_inj, le_iff_toNat_le, toNat_satSub, toNat_zero] at haft
  exact ⟨hlow', by omega, by omega, haft⟩

/-- The size of a session is positive and not more than what remains. -/
lemma of_mem_sessionSizes (hmin : low ≠ 0) (hle : low ≤ high) (hrem : remaining ≠ 0)
    (h : size ∈ sessionSizes step low high remaining) : size ≠ 0 ∧ size ≤ remaining := by
  obtain ⟨hlow', hupper, -, -⟩ := bounds_of_mem_sessionSizes hle h
  have hmin' := Minutes.toNat_pos hmin
  have hremaining' := Minutes.toNat_pos hrem
  refine ⟨?_, le_iff_toNat_le.mpr hupper⟩
  rintro rfl
  rw [toNat_zero] at hlow'
  omega

/-! ### Steps -/

section

variable (env : Externals) (request : PlanRequest) (item : WorkItem)
  (dependencies : List Dependency) (items : WorkMap)

/-- One step of the placement of an item: it stops, or takes the best candidate of a
search for a part of the remaining work. -/
inductive SessionStep : Sessions → Sessions → Prop
  | stop {s s' : Sessions} (state : s'.state = s.state) (remaining : s'.remaining = s.remaining)
      (added : s'.added = s.added) (previousEnd : s'.previousEnd = s.previousEnd) :
      SessionStep s s'
  | accept {s s' : Sessions} (search : SessionSearch) (candidate : Candidate) (split : Bool)
      (positive : search.duration ≠ 0) (fits : search.duration ≤ s.remaining)
      (finishes : search.finishesItem = decide (satSub s.remaining search.duration = 0))
      (best : s.state.bestCandidate request item dependencies items search = some candidate)
      (state : s'.state = acceptCandidate env s.state item candidate search.sessionIndex split)
      (remaining : s'.remaining = satSub s.remaining search.duration)
      (added : s'.added = s.added + 1)
      (waits : ∀ t ∈ search.earliest, ∃ e ∈ s.previousEnd, ∃ gap : Minutes,
        e.checkedAdd gap.toDuration = some t)
      (previousEnd : ∀ e ∈ s'.previousEnd, e ∈ s.previousEnd ∨ e = candidate.interval.finish) :
      SessionStep s s'

/-- Any number of steps. -/
abbrev SessionSteps : Sessions → Sessions → Prop :=
  ReflTransGen (SessionStep env request item dependencies items)

/-- A round of the loop over sessions that takes one: which search has found it, and what
the round goes on from. -/
structure TakesSession (minimumSession maximumSession : Minutes) (maximumSessions : UInt16)
    (minimumGap : Minutes) (maximumDays : Option UInt16) (s s' : Sessions) (index : UInt16)
    (earliest : Option OffsetDateTime) (size : Minutes) (candidate : Candidate) : Prop where
  remaining : s.remaining ≠ 0
  below : s.existing + s.added < maximumSessions.toNat
  fresh : s.sessionIndex = some index
  notBefore : sessionEarliest s.previousEnd minimumGap = some earliest
  offered : size ∈ sessionSizes request.config.slotGranularity minimumSession maximumSession
    s.remaining
  found : searchSize request item dependencies items s index earliest maximumDays size =
    some candidate
  result : s' = acceptSession env item s index size candidate

end

section

variable {env : Externals} {request : PlanRequest} {item : WorkItem}
  {dependencies : List Dependency} {items : WorkMap}

lemma sessionStep_placeIndivisible {s : Sessions} (hrem : s.remaining ≠ 0) :
    SessionStep env request item dependencies items s
      (placeIndivisible env request item dependencies items s) := by
  unfold placeIndivisible
  split
  · exact .stop rfl rfl rfl rfl
  · rename_i index _
    dsimp only
    split
    · exact .stop rfl rfl rfl rfl
    · rename_i candidate hbest
      have hzero : satSub s.remaining s.remaining = 0 := by
        rw [← toNat_inj, toNat_satSub, Nat.sub_self, toNat_zero]
      exact .accept _ candidate false hrem (UInt32.le_refl _) (by simp [hzero]) hbest rfl
        hzero.symm rfl (by simp) fun _ he => .inl he

section

variable {low high : Minutes} {most : UInt16}
  {gap : Minutes} {days : Option UInt16} {s s' : Sessions}

/-- A session that waits does so from the end of another one, for whole minutes. -/
lemma waits_of_sessionEarliest {previousEnd earliest : Option OffsetDateTime}
    (h : sessionEarliest previousEnd gap = some earliest) :
    ∀ t ∈ earliest, ∃ e ∈ previousEnd, ∃ gap : Minutes, e.checkedAdd gap.toDuration = some t := by
  intro t ht
  cases previousEnd with
  | none =>
    cases h
    cases ht
  | some e =>
    obtain ⟨u, hu, rfl⟩ := Option.map_eq_some_iff.mp h
    cases ht
    exact ⟨e, rfl, gap, hu⟩

/-- A round stops the loop or takes a session. -/
lemma placeSession_cases
    (h : placeSession env request item dependencies items low high most gap days s = some s') :
    (∃ limitHit stopped, s' = { s with limitHit := limitHit, stopped := stopped }) ∨
    ∃ index earliest size candidate, TakesSession env request item dependencies items low
      high most gap days s s' index earliest size candidate := by
  unfold placeSession at h
  split_ifs at h with hgo hblw
  · cases h
    exact .inl ⟨_, _, rfl⟩
  split at h
  · rename_i index earliest hidx hearl
    dsimp only at h
    split at h
    · cases h
      exact .inl ⟨_, _, rfl⟩
    · rename_i hfind
      cases h
      obtain ⟨size, hsize, hsearch⟩ := exists_of_findSome?_eq_some hfind
      obtain ⟨candidate, hbest, heq⟩ := Option.map_eq_some_iff.mp hsearch
      cases heq
      exact .inr ⟨index, earliest, _, _, (not_or.mp hgo).2, Nat.lt_of_not_le hblw, hidx,
        hearl, hsize, hbest, rfl⟩
  · cases h
    exact .inl ⟨_, _, rfl⟩

lemma sessionStep_placeSession (hmin : low ≠ 0) (hle : low ≤ high)
    (h : placeSession env request item dependencies items low high most gap days s = some s') :
    SessionStep env request item dependencies items s s' := by
  rcases placeSession_cases h with
    ⟨_, _, rfl⟩ | ⟨_, _, _, _, hrem, -, -, hearl, hsize, hbest, rfl⟩
  · exact .stop rfl rfl rfl rfl
  · obtain ⟨hpos', hfits⟩ := of_mem_sessionSizes hmin hle hrem hsize
    refine .accept _ _ true hpos' hfits rfl hbest rfl rfl rfl ?_ fun e he => .inr ?_
    · exact waits_of_sessionEarliest hearl
    · exact (Option.some.inj he).symm

end

/-- **The loop over sessions** goes in steps. -/
theorem sessionSteps_placeSessions (hval : ValidRequest request) (hmem : item ∈ request.items)
    {s : Sessions} (hrem : s.remaining ≠ 0) : SessionSteps env request item dependencies items s
      (placeSessions env request item dependencies items s) := by
  unfold placeSessions
  split
  · exact .single (sessionStep_placeIndivisible hrem)
  · rename_i hspl
    obtain ⟨hmin, hle, -⟩ := hval.splittable hmem hspl
    exact Loop.run_invariant _
      (fun t t' ht hrun => hrun.tail (sessionStep_placeSession hmin hle ht)) _ .refl

/-- What the next session waits for is the end of a block there is. -/
def Sessions.WaitsForBlock (s : Sessions) : Prop :=
  ∀ e ∈ s.previousEnd, ∃ b ∈ s.state.blocks, b.finish = e

lemma waitsForBlock_startSessions (state : PlanningState) (item : WorkItem) (remaining : UInt32) :
    (state.startSessions item remaining).WaitsForBlock := by
  intro e he
  obtain ⟨bounds, hbds, rfl⟩ := Option.map_eq_some_iff.mp he
  obtain ⟨-, interval, hint, hfin⟩ := HalfOpen.exists_ends_of_hull hbds
  obtain ⟨b, hb, rfl⟩ := mem_map.mp hint
  exact ⟨b, (mem_filter.mp hb).1, hfin.symm⟩

/-! ### The balance of minutes -/

/-- The whole minutes of blocks. -/
def blockMinutes (blocks : List ScheduleBlock) : ℕ :=
  (blocks.map fun b => (Span.minutes b.interval).toNat).sum

/-- The block is one that the planner has placed for the item. -/
def OwnPlanned (item : WorkItem) (b : ScheduleBlock) : Prop :=
  b.itemId = some item.id ∧ b.occurrenceId = none ∧ b.kind = .planned

lemma minutes_of_checkedAdd {slot : Span} {duration : Minutes}
    (h : slot.start.checkedAdd duration.toDuration = some slot.finish) :
    Span.minutes slot = duration := by
  have hn := OffsetDateTime.nanos_of_checkedAdd h
  have hlt := duration.toNat_lt
  have hsince : @Eq Int (slot.finish.since slot.start) (duration.toNat * 60000000000) := by
    rw [OffsetDateTime.since, hn, Minutes.toDuration_eq]
    omega
  have hwh : Duration.wholeMinutes (slot.finish.since slot.start) = duration.toNat := by
    rw [hsince]
    exact Int.mul_tdiv_cancel _ (by decide)
  rw [← toNat_inj, Span.minutes, positiveMinutes, hwh, UInt32.toNat_clamp]
  omega

variable {state : PlanningState} {candidate : Candidate}

lemma minutes_of_bestCandidate (hg : request.config.slotGranularity ≠ 0) {search : SessionSearch}
    (h : state.bestCandidate request item dependencies items search = some candidate) :
    Span.minutes candidate.interval = search.duration := by
  obtain ⟨window, tally, hslot, -, -⟩ := bestCandidate_spec h
  obtain ⟨-, -, -, hadd, -⟩ := candidateSlots_spec hg hslot
  exact minutes_of_checkedAdd hadd

/-- What the placement of sessions leaves alone, and the balance of minutes: what has been
placed and what remains is what there was. -/
structure Accounts (item : WorkItem) (s s' : Sessions) (new : List ScheduleBlock) : Prop where
  blocks : s'.state.blocks = s.state.blocks ++ new
  own : ∀ b ∈ new, OwnPlanned item b
  unscheduled : s'.state.unscheduled = s.state.unscheduled
  pinnedMinutes : s'.state.pinnedMinutes = s.state.pinnedMinutes
  executionReservedMinutes : s'.state.executionReservedMinutes = s.state.executionReservedMinutes
  minutes : blockMinutes new + s'.remaining.toNat = s.remaining.toNat
  added : s'.added = s.added + new.length

lemma Accounts.accept {s₀ s s' : Sessions} {new : List ScheduleBlock} (h : Accounts item s₀ s new)
    {index : UInt16} {split : Bool} (hfits : size ≤ s.remaining)
    (hsize : Span.minutes candidate.interval = size)
    (hsta : s'.state = acceptCandidate env s.state item candidate index split)
    (hrem : s'.remaining = satSub s.remaining size) (hadd' : s'.added = s.added + 1) :
    Accounts item s₀ s' (new ++ [candidateBlock env item candidate index split]) := by
  refine ⟨?_, forall_mem_append.mpr ⟨h.own, forall_mem_singleton.mpr ⟨rfl, rfl, rfl⟩⟩,
    hsta ▸ h.unscheduled, hsta ▸ h.pinnedMinutes, hsta ▸ h.executionReservedMinutes, ?_, ?_⟩
  · rw [hsta, ← append_assoc, ← h.blocks]
    rfl
  · have hblock : blockMinutes [candidateBlock env item candidate index split] = size.toNat := by
      rw [blockMinutes, map_singleton, sum_singleton]
      exact congrArg _ hsize
    have := h.minutes
    rw [le_iff_toNat_le] at hfits
    rw [blockMinutes, map_append, sum_append_nat, ← blockMinutes, ← blockMinutes, hblock, hrem,
      toNat_satSub]
    omega
  · rw [hadd', h.added, length_append, length_singleton]
    omega

/-- **The balance of one item.** -/
theorem SessionSteps.accounts (hg : request.config.slotGranularity ≠ 0) {s s' : Sessions}
    (h : SessionSteps env request item dependencies items s s') :
    ∃ new, Accounts item s s' new := by
  induction h with
  | refl => exact ⟨[], by simp, by simp, rfl, rfl, rfl, by simp [blockMinutes], rfl⟩
  | @tail t u _ hstep ih =>
    obtain ⟨new, hnew⟩ := ih
    cases hstep with
    | stop state remaining added =>
      exact ⟨new, state ▸ hnew.blocks, hnew.own, state ▸ hnew.unscheduled,
        state ▸ hnew.pinnedMinutes, state ▸ hnew.executionReservedMinutes,
        remaining ▸ hnew.minutes, added ▸ hnew.added⟩
    | accept search candidate split positive fits finishes best state remaining added =>
      exact ⟨_, hnew.accept fits (minutes_of_bestCandidate hg best) state remaining added⟩

/-! ### One item -/

/-- The report of work that remains, if any does. -/
def IsReport (item : WorkItem) (left : UInt32) (reports : List UnscheduledWork) : Prop :=
  (left = 0 ∧ reports = []) ∨
    (left ≠ 0 ∧ ∃ reason message, reports = [⟨item.id, none, left, reason, message⟩])

/-- What the placement of an item does to a state: it adds blocks and a report of the
item, and says whether nothing is left. -/
structure Scheduled (item : WorkItem) (state : PlanningState) (result : PlanningState × Bool)
    (new : List ScheduleBlock) (reports : List UnscheduledWork) : Prop where
  blocks : result.1.blocks = state.blocks ++ new
  own : ∀ b ∈ new, OwnPlanned item b
  unscheduled : result.1.unscheduled = state.unscheduled ++ reports
  reported : ∀ w ∈ reports, w.itemId = item.id ∧ w.occurrenceId = none
  pinnedMinutes : result.1.pinnedMinutes = state.pinnedMinutes
  executionReservedMinutes : result.1.executionReservedMinutes = state.executionReservedMinutes
  balance : ∀ duration ∈ item.duration, ∃ left,
    blockMinutes new + left.toNat = (state.uncovered item duration.planningMinutes).toNat ∧
      IsReport item left reports ∧ result.2 = decide (left = 0)
  missing : item.duration = none → new = [] ∧ result.2 = false

lemma IsReport.reported {left : UInt32} {reports : List UnscheduledWork}
    (h : IsReport item left reports) :
    ∀ w ∈ reports, w.itemId = item.id ∧ w.occurrenceId = none := by
  rcases h with ⟨-, rfl⟩ | ⟨-, reason, message, rfl⟩
  · exact forall_mem_nil _
  · exact forall_mem_singleton.mpr ⟨rfl, rfl⟩

/-- Settling an item reports what remains. -/
lemma settleItem_spec (item : WorkItem) (required : UInt32) (s : Sessions) :
    ∃ reports, IsReport item s.remaining reports ∧
      (settleItem item required s).1.blocks = s.state.blocks ∧
      (settleItem item required s).1.unscheduled = s.state.unscheduled ++ reports ∧
      (settleItem item required s).1.pinnedMinutes = s.state.pinnedMinutes ∧
      (settleItem item required s).1.executionReservedMinutes = s.state.executionReservedMinutes ∧
      (settleItem item required s).2 = decide (s.remaining = 0) := by
  simp only [settleItem]
  split_ifs with hzero
  · exact ⟨[], .inl ⟨hzero, rfl⟩, rfl, (append_nil _).symm, rfl, rfl, by simp [hzero]⟩
  all_goals exact ⟨_, .inr ⟨hzero, _, _, rfl⟩, rfl, rfl, rfl, rfl, by simp [hzero]⟩

/-- The states agree on what is placed and on the indices that are taken. -/
structure SameTime (s t : PlanningState) : Prop where
  blocks : t.blocks = s.blocks
  busy : t.busy = s.busy
  sessionHighWater : t.sessionHighWater = s.sessionHighWater
  liveSessionIndices : t.liveSessionIndices = s.liveSessionIndices

lemma sameTime_settleItem (item : WorkItem) (required : UInt32) (s : Sessions) :
    SameTime s.state (settleItem item required s).1 := by
  simp only [settleItem]
  split_ifs <;> exact ⟨rfl, rfl, rfl, rfl⟩

/-- **Invariants of one item**: `J` holds from the first session on, `P` of the result. -/
theorem scheduleItem_invariant {P : PlanningState → Prop} {J : Sessions → Prop}
    (hsame : ∀ {s t}, SameTime s t → P s → P t) (hsta : P state)
    (hst : ∀ duration ∈ item.duration,
      J (state.startSessions item (state.uncovered item duration.planningMinutes)))
    (hstop : ∀ s limitHit stopped, J s → J { s with limitHit := limitHit, stopped := stopped })
    (hwh : ∀ s index candidate, item.splitPolicy = .indivisible → J s →
      s.sessionIndex = some index → s.remaining ≠ 0 →
      s.state.bestCandidate request item dependencies items
        ⟨s.remaining, true, index, none, s.usedDays, none⟩ = some candidate →
      P (acceptCandidate env s.state item candidate index false))
    (hspl : ∀ low high most gap days, item.splitPolicy = .splittable low high most gap days →
      ∀ s s' index earliest size candidate, J s → TakesSession env request item dependencies items
        low high most gap days s s' index earliest
        size candidate → J s') (hend : ∀ s, J s → P s.state) :
    P (scheduleItem env state request item dependencies items).1 := by
  unfold scheduleItem
  split
  · exact @hsame state _ ⟨rfl, rfl, rfl, rfl⟩ hsta
  · rename_i duration hdur
    have hst := hst duration hdur
    dsimp only
    split
    · exact @hsame state _ ⟨rfl, rfl, rfl, rfl⟩ hsta
    · rename_i hrem
      refine hsame (sameTime_settleItem _ _ _) ?_
      unfold placeSessions
      split
      · rename_i hindiv
        unfold placeIndivisible
        split
        · exact hend _ (hstop _ _ _ hst)
        · rename_i index hidx
          dsimp only
          split
          · exact hend _ hst
          · exact hwh _ index _ hindiv hst hidx hrem ‹_›
      · rename_i hpol
        refine hend _ (Loop.run_invariant _ (fun s s' hround hs => ?_) _ hst)
        rcases placeSession_cases hround with
          ⟨_, _, rfl⟩ | ⟨index, earliest, size, candidate, htakes⟩
        · exact hstop _ _ _ hs
        · exact hspl _ _ _ _ _ hpol _ _ _ _ _ _ hs htakes

/-- **The placement of one item.** -/
theorem scheduleItem_spec (hval : ValidRequest request) (hmem : item ∈ request.items)
    (state : PlanningState) : ∃ new reports, Scheduled item state
      (scheduleItem env state request item dependencies items) new reports := by
  unfold scheduleItem
  cases hdur : item.duration with
  | none =>
    exact ⟨[], _, (append_nil _).symm, forall_mem_nil _, rfl, forall_mem_singleton.mpr ⟨rfl, rfl⟩,
      rfl, rfl, by simp [hdur], fun _ => ⟨rfl, rfl⟩⟩
  | some duration =>
    dsimp only
    split_ifs with hrem
    · refine ⟨[], [], (append_nil _).symm, forall_mem_nil _, (append_nil _).symm, forall_mem_nil _,
        rfl, rfl, fun d hd => ?_, by simp [hdur]⟩
      cases hdur.symm.trans hd
      exact ⟨0, by rw [hrem]; rfl, .inl ⟨rfl, rfl⟩, rfl⟩
    · have hsteps : SessionSteps env request item dependencies items
          (state.startSessions item (state.uncovered item duration.planningMinutes)) _ :=
        sessionSteps_placeSessions hval hmem hrem
      obtain ⟨new, hnew⟩ := hsteps.accounts hval.granularity
      obtain ⟨reports, hreport, hbl, hunsch, hpin, hresv, hdone⟩ :=
        settleItem_spec item duration.planningMinutes
          (placeSessions env request item dependencies items (state.startSessions item
            (state.uncovered item duration.planningMinutes)))
      refine ⟨new, reports, hbl.trans hnew.blocks, hnew.own,
        hunsch.trans (congrArg (· ++ reports) hnew.unscheduled), hreport.reported,
        hpin.trans hnew.pinnedMinutes, hresv.trans hnew.executionReservedMinutes,
        fun d hd => ?_, by simp [hdur]⟩
      cases hdur.symm.trans hd
      exact ⟨_, hnew.minutes, hreport, hdone⟩

end

end PlanningState

end DayWeave
