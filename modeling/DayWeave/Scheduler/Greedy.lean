import Mathlib.Algebra.Order.BigOperators.Group.List
import DayWeave.Scheduler.Plan
import DayWeave.Scheduler.Search
import DayWeave.Scheduler.Sessions

/-!
Splittable work in ample free time.

Every session gets the greatest size that leaves nothing or enough for another one. Sessions of the
maximal size are taken as long as one and a minimal one fit, which leaves `lastPart`. That is
placed if it is one session or enough for two; otherwise it is stranded, also where shorter
sessions would have covered all of the work (`splitWork_placed_iff`).

In a stretch with room for all sessions (`HasRoom`) every search finds a slot that leaves room for
the others (`HasRoom.bestCandidate`). The loop carries this as its invariant (`Going`).
-/

open List Std

namespace DayWeave

open Duration (day second)
open Minutes (toDuration_eq toDuration_nonneg toDuration_pos toNat_pos)
open Sample
open OffsetDateTime (le_def lt_def nanos_later nanos_of_checkedAdd)
open UInt32 (le_iff_toNat_le satSub toNat toNat_inj toNat_max toNat_min toNat_satSub toNat_zero)

/-! ### Sizes -/

/-- What sessions of the maximal size leave, taken while one and a minimal one fit. -/
def lastPart (minimum maximum work : ℕ) : ℕ := minimum + (work - minimum) % maximum

/-- The last part of the work is one session, or enough for two. -/
def LastPartFits (minimum maximum work : ℕ) : Prop :=
  lastPart minimum maximum work ≤ maximum ∨ 2 * minimum ≤ lastPart minimum maximum work

section

variable {minimum maximum work : ℕ}

lemma lastPartFits_of_lt (hle : minimum ≤ work) (hlt : work < maximum + minimum) :
    LastPartFits minimum maximum work ↔ work ≤ maximum ∨ 2 * minimum ≤ work := by
  have hlast : lastPart minimum maximum work = work := by
    rw [lastPart, Nat.mod_eq_of_lt (by omega)]
    omega
  rw [LastPartFits, hlast]

lemma lastPartFits_sub (hle : maximum + minimum ≤ work) :
    LastPartFits minimum maximum (work - maximum) ↔ LastPartFits minimum maximum work := by
  have hspl : work - minimum = work - maximum - minimum + maximum := by omega
  rw [LastPartFits, LastPartFits, lastPart, lastPart, hspl, Nat.add_mod_right]

end

namespace PlanningState

variable {env : Externals} {state : PlanningState} {request : PlanRequest} {item : WorkItem}
  {items : WorkMap} {low high gap : Minutes} {most : UInt16} {step : Minutes} {left : ℕ}

section

variable {remaining : UInt32}

/-- Shrinking a session ends at the minimum. -/
lemma minimum_mem_shrinkSizes {minimum size : Minutes} (hle : minimum ≤ size) {rounds : ℕ}
    (hrounds : size.toNat ≤ minimum.toNat + step.toNat * rounds) :
    minimum ∈ shrinkSizes step minimum (rounds + 1) size := by
  induction rounds generalizing size with
  | zero =>
    rw [UInt32.le_antisymm hle (le_iff_toNat_le.mpr (by simpa using hrounds))]
    exact mem_cons_self ..
  | succ rounds ih =>
    rw [shrinkSizes]
    split
    · rename_i hsmall
      rw [UInt32.le_antisymm hle hsmall]
      exact mem_cons_self ..
    · refine mem_cons_of_mem _ (ih ?_ ?_)
      · rw [le_iff_toNat_le, toNat_max]
        omega
      · rw [toNat_max, toNat_satSub]
        rw [Nat.mul_succ] at hrounds
        omega

/-- The longest session comes first if it leaves nothing or enough. -/
lemma sessionSizes_of_longest {first : Minutes} (hfst : min remaining high = first)
    (hleast : min low remaining ≤ first)
    (haft : remaining.toNat - first.toNat = 0 ∨ low.toNat ≤ remaining.toNat - first.toNat) :
    ∃ rest, sessionSizes step low high remaining = first :: rest := by
  subst hfst
  rw [sessionSizes]
  refine ⟨_, filter_cons_of_pos ?_⟩
  simp only [Bool.and_eq_true, Bool.or_eq_true, decide_eq_true_eq]
  rw [← toNat_inj, le_iff_toNat_le, toNat_satSub, toNat_zero]
  exact ⟨haft, hleast⟩

/-- Work for two sessions is offered a size. -/
lemma sessionSizes_ne_nil (hg : step ≠ 0) (hle : low ≤ high)
    (htwo : 2 * low.toNat ≤ remaining.toNat) : sessionSizes step low high remaining ≠ [] := by
  have hg := toNat_pos hg
  rw [le_iff_toNat_le] at hle
  have hminimum : min low remaining = low := by
    rw [← toNat_inj, toNat_min]
    omega
  refine ne_nil_of_mem (a := low) (mem_filter.mpr ⟨?_, ?_⟩)
  · rw [hminimum]
    refine minimum_mem_shrinkSizes ?_ ?_
    · rw [le_iff_toNat_le, toNat_min]
      omega
    · have := Nat.lt_mul_div_succ ((min remaining high).toNat - low.toNat) hg
      omega
  · rw [hminimum]
    simp only [Bool.and_eq_true, Bool.or_eq_true, decide_eq_true_eq]
    rw [le_iff_toNat_le, toNat_satSub]
    exact ⟨.inr (by omega), UInt32.le_refl _⟩

/-! ### Slots in free time -/

variable {earliest : Option OffsetDateTime} {start t : OffsetDateTime} {bound : Int}

/-- A later instant is representable away from the end of the calendar. -/
lemma exists_checkedAdd_of_limit {d : Duration} (hd : (0 : Int) ≤ d)
    (hlim : t.nanos + d ≤ 2932895 * day) : ∃ u, t.checkedAdd d = some u := by
  have hloc := t.local_ge
  have hoff := t.offset_le
  refine ⟨_, dif_pos ⟨⟨t.offset_ge, hoff⟩, by omega, ?_⟩⟩
  simp only [day, second] at *
  omega

/-- Far from the last date times can be aligned. -/
lemma exists_alignUp (hg : step ≠ 0) (hlim : t.nanos + step.toDuration ≤ 2932895 * day) :
    ∃ u, alignUp t step = some u := by
  have hstep : (0 : Int) < step.toNat * 60 := by
    have := toNat_pos hg
    omega
  have hnn := Int.emod_nonneg t.unixTimestamp hstep.ne'
  have hlt := Int.emod_lt_of_pos t.unixTimestamp hstep
  rw [toDuration_eq] at hlim
  unfold alignUp
  dsimp only
  generalize t.unixTimestamp % (step.toNat * 60 : Int) = remainder at *
  split
  · exact ⟨t, rfl⟩
  · refine exists_checkedAdd_of_limit ?_ ?_ <;>
    · simp only [day, second] at *
      omega

/-- The first slot starts at most two steps of the grid after it may. -/
lemma exists_firstSlotStart (hg : step ≠ 0) (hst : start.nanos ≤ bound)
    (hearl : ∀ e ∈ earliest, e.nanos ≤ bound) (hlim : bound + 2 * step.toDuration ≤ 2932895 * day) :
    ∃ t, firstSlotStart step earliest start = some t ∧ t.nanos ≤ bound + 2 * step.toDuration := by
  have hpos := toDuration_pos hg
  obtain ⟨aligned, halign⟩ := exists_alignUp (t := start) hg (by omega)
  obtain ⟨-, -, hlt, -⟩ := alignUp_spec hg halign
  cases earliest with
  | none => exact ⟨aligned, by rw [firstSlotStart, halign]; rfl, by omega⟩
  | some e =>
    have he := hearl e rfl
    have hlat : (later aligned e).nanos ≤ bound + step.toDuration := by
      rw [nanos_later]
      omega
    obtain ⟨t, ht⟩ := exists_alignUp (t := later aligned e) hg (by omega)
    obtain ⟨-, -, hlt, -⟩ := alignUp_spec hg ht
    exact ⟨t, by rw [firstSlotStart, halign]; exact ht, by omega⟩

/-- Free time that is long enough has a slot near its start. -/
lemma exists_mem_slotsIn (size : Minutes) (hg : step ≠ 0) {free : Span}
    (hst : free.start.nanos ≤ bound)
    (hearl : ∀ e ∈ earliest, e.nanos ≤ bound)
    (hlong : bound + 2 * step.toDuration + size.toDuration ≤ free.finish.nanos)
    (hlim : bound + 2 * step.toDuration + size.toDuration ≤ 2932895 * day) :
    ∃ slot ∈ slotsIn step size earliest free, slot.start.nanos ≤ bound + 2 * step.toDuration := by
  have hsize := toDuration_nonneg size
  obtain ⟨t, ht, hle⟩ := exists_firstSlotStart hg hst hearl (by omega)
  obtain ⟨finish, hfin⟩ := exists_checkedAdd_of_limit (t := t) hsize (by omega)
  have hns := nanos_of_checkedAdd hfin
  refine ⟨⟨t, finish⟩, ?_, hle⟩
  rw [slotsIn, ht]
  refine mem_slotsFrom (Nat.succ_pos _) rfl (by simp) hfin ?_
  change finish ≤ free.finish
  rw [le_def]
  omega

end

/-! ### Work without rules -/

/-- The item has no rules but its split policy. -/
structure Unconstrained (item : WorkItem) : Prop where
  constraints : item.constraints = {}
  energy : item.energy = none

/-- Nothing of the item is retained, reserved or remembered. -/
structure NewTo (state : PlanningState) (item : WorkItem) : Prop where
  blocks : blocksOf state.blocks item.id = []
  highWater : state.sessionHighWater[item.id]? = none
  live : state.liveSessionIndices.getD item.id ∅ = ∅
  pinned : state.pinnedMinutes.getD item.id 0 = 0
  reserved : state.executionReservedMinutes.getD item.id 0 = 0
  previous : ∀ index, state.previous[SessionKey.mk item.id index]? = none

section

variable (items) {window : AvailabilityWindow} {slot : Span}

/-- No rule refuses or penalises a slot of such work. -/
lemma Unconstrained.evaluateCandidate (hitem : Unconstrained item) {index : UInt16}
    (hprev : state.previous[SessionKey.mk item.id index]? = none) (request : PlanRequest)
    (window : AvailabilityWindow) (slot : Span) (finishesItem : Bool) :
    ∃ candidate, state.evaluateCandidate request item [] items window slot finishesItem index =
      some candidate ∧ candidate.penalty = 0 ∧ candidate.interval = slot := by
  obtain ⟨tally, hrules, hpenalty⟩ : ∃ tally, state.evaluateRules request item [] items window slot
      finishesItem = some tally ∧ tally.penalty = 0 := by
    refine ⟨{}, ?_, rfl⟩
    simp [evaluateRules, scalarRules, occurrenceRule, optionalRule, repeatedRule,
      evaluatePreferredWindows, hardWindowsAccept, windowGroupPenalty, Tally.explain,
      evaluateDependencies, evaluateLimits, evaluateBuffers, hitem.constraints, hitem.energy]
  rw [PlanningState.evaluateCandidate, hrules, hprev]
  exact ⟨_, rfl, hpenalty, rfl⟩

/-- The best candidate starts no later than any slot. -/
lemma Unconstrained.bestCandidate (hitem : Unconstrained item) {search : SessionSearch}
    (hprev : state.previous[SessionKey.mk item.id search.sessionIndex]? = none)
    (hdays : search.maximumDays = none)
    (hslot : (window, slot) ∈ state.candidateSlots request search.duration search.earliest) :
    ∃ best, state.bestCandidate request item [] items search = some best ∧
      best.interval.start ≤ slot.start := by
  have hfree (w : AvailabilityWindow) (s : Span) :=
    hitem.evaluateCandidate items hprev request w s search.finishesItem
  -- without penalties the earliest candidate is the best
  have hall : ∀ c ∈ state.candidates request item [] items search, c.penalty = 0 := by
    intro c hc
    obtain ⟨⟨w, s⟩, -, hc⟩ := mem_filterMap.mp hc
    obtain ⟨c', hc', hpenalty, -⟩ := hfree w s
    rw [hc'] at hc
    cases (Option.ite_none_right_eq_some.mp hc).2
    exact hpenalty
  obtain ⟨candidate, hcand, -, hint⟩ := hfree window slot
  have hmem : candidate ∈ state.candidates request item [] items search :=
    mem_filterMap.mpr ⟨(window, slot), hslot,
      Option.ite_none_right_eq_some.mpr ⟨by simp [SessionSearch.dayAllowed, hdays], hcand⟩⟩
  cases hbest : state.bestCandidate request item [] items search with
  | none =>
    rw [PlanningState.bestCandidate, leastBy_eq_none] at hbest
    rw [hbest] at hmem
    cases hmem
  | some best =>
    refine ⟨best, rfl, ?_⟩
    have horder := leastBy_isLE _ hbest hmem
    have hpenalty : compareOn Candidate.penalty best candidate = .eq := by
      rw [compareOn, hall best (leastBy_mem _ hbest), hall candidate hmem]
      decide
    rw [Candidate.order, compareLex, hpenalty] at horder
    have hst : (compare best.interval.start candidate.interval.start).isLE :=
      Ordering.isLE_left_of_isLE_then horder
    rw [← hint]
    exact Int.isLE_compare.mp hst

/-! ### Room for sessions -/

/-- The time for one session: two steps of the grid, its length and the gap after it. -/
def sessionRoom (granularity maximumSession minimumGap : Minutes) : Int :=
  2 * granularity.toDuration + maximumSession.toDuration + minimumGap.toDuration

lemma sessionRoom_nonneg (step high gap : Minutes) : 0 ≤ sessionRoom step high gap := by
  simp only [sessionRoom, toDuration_eq]
  omega

variable {free : Span}

/-- A stretch of free time with room for a number of sessions, away from the end of the
calendar. -/
structure HasRoom (state : PlanningState) (request : PlanRequest)
    (maximumSession minimumGap : Minutes) (count : ℕ) (free : Span) : Prop where
  available : ∃ window ∈ request.availability, window.interval.Contains free
  horizon : (planningHorizon request).Contains free
  notBusy : ∀ b ∈ state.busy, ¬ b.interval.Meets free
  long : free.start.nanos +
    count * sessionRoom request.config.slotGranularity maximumSession minimumGap ≤ free.finish.nanos
  limit : free.finish.nanos ≤ 2932895 * day

/-- A session leaves room for the others. -/
lemma HasRoom.tail (h : HasRoom state request high gap (left + 1) free) :
    ∃ start : OffsetDateTime, start.nanos = free.start.nanos +
        sessionRoom request.config.slotGranularity high gap ∧
      HasRoom state request high gap left ⟨start, free.finish⟩ := by
  have hlong := h.long
  rw [Nat.cast_succ, Int.add_mul, Int.one_mul] at hlong
  have hone := sessionRoom_nonneg request.config.slotGranularity high gap
  have hrest := Int.mul_nonneg (Int.natCast_nonneg left) hone
  have hlim := h.limit
  obtain ⟨start, hst⟩ := exists_checkedAdd_of_limit (t := free.start) hone (by omega)
  have hns := nanos_of_checkedAdd hst
  have hcont : free.Contains ⟨start, free.finish⟩ :=
    ⟨le_def.mpr (by change _ ≤ start.nanos; omega), le_rfl⟩
  obtain ⟨window, hwin, hinside⟩ := h.available
  refine ⟨start, hns, ⟨window, hwin, hinside.trans hcont⟩, h.horizon.trans hcont, ?_, ?_, hlim⟩
  · rintro b hb ⟨t, ht, haft, hbef⟩
    exact h.notBusy b hb ⟨t, ht, hcont.1.trans haft, hbef⟩
  · change start.nanos + _ ≤ free.finish.nanos
    omega

lemma HasRoom.start_le (h : HasRoom state request high gap left free) :
    free.start.nanos ≤ free.finish.nanos := by
  have hlong := h.long
  have hall := Int.mul_nonneg (Int.natCast_nonneg left)
    (sessionRoom_nonneg request.config.slotGranularity high gap)
  omega

/-- **There is a slot while there is room**, and the session in it leaves the rest free. -/
lemma HasRoom.bestCandidate {search : SessionSearch}
    (h : HasRoom state request high gap (left + 1) free)
    (hg : request.config.slotGranularity ≠ 0) (hitem : Unconstrained item)
    (hprev : state.previous[SessionKey.mk item.id search.sessionIndex]? = none)
    (hdays : search.maximumDays = none) (hsize : search.duration ≤ high)
    (hearl : ∀ e ∈ search.earliest, e.nanos ≤ free.start.nanos) :
    ∃ best rest, state.bestCandidate request item [] items search = some best ∧
      HasRoom state request high gap left rest ∧
      best.interval.finish.nanos + gap.toDuration ≤ rest.start.nanos := by
  obtain ⟨start, hst, hrest⟩ := h.tail
  have hle := hrest.start_le
  have hlim := h.limit
  have hpos := toDuration_pos hg
  have hgap := toDuration_nonneg gap
  have hmaximum := toDuration_nonneg high
  have hsize : @LE.le Int _ search.duration.toDuration high.toDuration := by
    have := le_iff_toNat_le.mp hsize
    rw [toDuration_eq, toDuration_eq]
    omega
  rw [sessionRoom] at hst
  dsimp only at hle
  obtain ⟨window, hwin, hinside⟩ := h.available
  -- a slot starts within a step of the free time, and the best not after it
  obtain ⟨segment, hsegment, hcont⟩ := exists_freeTime
    (lt_def.mpr (by omega)) hinside h.horizon h.notBusy
  have hbegin := le_def.mp hcont.1
  have hfin := le_def.mp hcont.2
  obtain ⟨slot, hslot, hnear⟩ := exists_mem_slotsIn search.duration hg hbegin hearl
    (by omega) (by omega)
  obtain ⟨best, hbest, hfst⟩ := hitem.bestCandidate items hprev hdays
    (mem_candidateSlots.mpr ⟨hwin, segment, hsegment, hslot⟩)
  obtain ⟨_, _, hmem, -, -⟩ := bestCandidate_spec hbest
  obtain ⟨-, -, -, hadd, -⟩ := candidateSlots_spec hg hmem
  have hend := nanos_of_checkedAdd hadd
  have hfst := le_def.mp hfst
  refine ⟨best, _, hbest, hrest, ?_⟩
  change _ ≤ start.nanos
  omega

/-- A session before the free time leaves it free. -/
lemma HasRoom.accept {candidate : Candidate} (env : Externals) (item : WorkItem) (index : UInt16)
    (h : HasRoom state request high gap left free)
    (hends : candidate.interval.finish.nanos + gap.toDuration ≤ free.start.nanos) :
    HasRoom (acceptCandidate env state item candidate index true) request high gap left free := by
  refine { h with notBusy := forall_mem_append.mpr ⟨h.notBusy, forall_mem_singleton.mpr ?_⟩ }
  rintro ⟨t, ⟨-, hbef⟩, haft, -⟩
  have hbef : t.nanos < candidate.interval.finish.nanos := lt_def.mp hbef
  have haft := le_def.mp haft
  have hgap := toDuration_nonneg gap
  omega

end

/-! ### The loop over sessions -/

section

variable {s : Sessions}

/-- The loop may go on for so many sessions: none was retained, there is room for them, and the
index of the next one is the number of those taken. -/
structure Going (request : PlanRequest) (item : WorkItem) (maximumSession minimumGap : Minutes)
    (maximumSessions : UInt16) (left : ℕ) (s : Sessions) : Prop where
  room : ∃ free, HasRoom s.state request maximumSession minimumGap left free ∧
    ∀ t ∈ s.previousEnd, t.nanos + minimumGap.toDuration ≤ free.start.nanos
  index : ∃ index, s.sessionIndex = some index ∧ index.toNat = s.added
  existing : s.existing = 0
  count : s.added + left = maximumSessions.toNat
  previous : ∀ index, s.state.previous[SessionKey.mk item.id index]? = none
  stopped : s.stopped = false

lemma nextSessionIndex_of_lt {index bound : UInt16} (h : index.toNat < bound.toNat) :
    ∃ next, nextSessionIndex index = some next ∧ next.toNat = index.toNat + 1 := by
  have hbound := bound.toNat_lt
  refine ⟨index + 1, if_neg ?_, ?_⟩
  · rintro rfl
    change 65535 < bound.toNat at h
    omega
  · rw [UInt16.toNat_add]
    exact Nat.mod_eq_of_lt (by change index.toNat + 1 < 65536; omega)

/-- The next session may start as soon as there is room. -/
lemma exists_sessionEarliest {previousEnd : Option OffsetDateTime} {bound : Int}
    (hbound : bound ≤ 2932895 * day) (hprev : ∀ t ∈ previousEnd, t.nanos + gap.toDuration ≤ bound) :
    ∃ earliest, sessionEarliest previousEnd gap = some earliest ∧
      ∀ e ∈ earliest, e.nanos ≤ bound := by
  cases previousEnd with
  | none => exact ⟨none, rfl, by simp⟩
  | some t =>
    have ht := hprev t rfl
    obtain ⟨e, he⟩ := exists_checkedAdd_of_limit (t := t) (toDuration_nonneg gap) (by omega)
    refine ⟨some e, by rw [sessionEarliest, he]; rfl, ?_⟩
    rintro _ ⟨⟩
    rwa [nanos_of_checkedAdd he]

lemma placeSession_of_done (h : s.stopped ∨ s.remaining = 0) :
    placeSession env request item [] items low high most gap none s = none :=
  if_pos h

variable (env items) in
/-- **A round** takes a session of the first size, or stops if there is none. -/
lemma Going.round (h : Going request item high gap most (left + 1) s)
    (hg : request.config.slotGranularity ≠ 0) (hle : low ≤ high)
    (hitem : Unconstrained item) (hrem : s.remaining ≠ 0) :
    ∃ s', placeSession env request item [] items low high most gap none s = some s' ∧
      match sessionSizes request.config.slotGranularity low high s.remaining with
      | [] => s'.stopped ∧ s'.remaining = s.remaining
      | size :: _ => Going request item high gap most left s' ∧
          s'.remaining = satSub s.remaining size := by
  obtain ⟨free, hroom, hprev⟩ := h.room
  obtain ⟨index, hidx, hadd'⟩ := h.index
  have hcnt := h.count
  obtain ⟨earliest, hearl, hnotAfter⟩ :=
    exists_sessionEarliest (hroom.start_le.trans hroom.limit) hprev
  have hblw : ¬ most.toNat ≤ s.existing + s.added := by
    rw [h.existing]
    omega
  rw [placeSession, if_neg (by simp [h.stopped, hrem]), if_neg hblw, hidx, hearl]
  dsimp only
  cases hszs : sessionSizes request.config.slotGranularity low high s.remaining with
  | nil => exact ⟨_, rfl, rfl, rfl⟩
  | cons size rest =>
    have hsize : size ≤ high := le_iff_toNat_le.mpr
      (bounds_of_mem_sessionSizes hle (hszs ▸ mem_cons_self ..)).2.2.1
    obtain ⟨best, rest, hbest, hrest, hends⟩ := @HasRoom.bestCandidate _ _ _ items _ _ _ _ ⟨size,
      satSub s.remaining size = 0, index, earliest, s.usedDays, none⟩ hroom hg hitem
      (h.previous index) rfl hsize hnotAfter
    -- the first size is found, so the other sizes are not tried
    have hfnd : searchSize request item [] items s index earliest none size = some best := hbest
    rw [findSome?_cons, hfnd]
    have hless : index.toNat < most.toNat := by omega
    obtain ⟨next, hnext, hsucc⟩ := nextSessionIndex_of_lt hless
    refine ⟨_, rfl, ⟨⟨rest, hrest.accept env item index hends, ?_⟩,
      ⟨next, hnext, ?_⟩, h.existing, ?_, h.previous, h.stopped⟩, rfl⟩
    · rintro _ ⟨⟩
      exact hends
    · exact hsucc.trans (congrArg (· + 1) hadd')
    · change s.added + 1 + left = _
      omega

/-- **The loop** places everything if and only if the last part is one session or two. -/
theorem Going.run (h : Going request item high gap most left s)
    (hg : request.config.slotGranularity ≠ 0) (hmin : low ≠ 0)
    (hle : low ≤ high) (hitem : Unconstrained item)
    (hleast : low.toNat ≤ s.remaining.toNat)
    (hmost : s.remaining.toNat ≤ left * high.toNat) :
    (Loop.run (placeSession env request item [] items low high most
        gap none) (left + 1) s).remaining = 0 ↔
      LastPartFits low.toNat high.toNat s.remaining.toNat := by
  have hpos := toNat_pos hmin
  have hle' := le_iff_toNat_le.mp hle
  induction left generalizing s with
  | zero => omega
  | succ left ih =>
    have hrem : s.remaining ≠ 0 := by
      intro hzero
      rw [hzero] at hleast
      change _ ≤ 0 at hleast
      omega
    rw [Nat.succ_mul] at hmost
    obtain ⟨s', hround, hszs⟩ := h.round env items hg hle hitem hrem
    rw [Loop.run_succ_of_step _ hround]
    by_cases hone : s.remaining.toNat ≤ high.toNat
    · -- one session for all of it
      obtain ⟨rest, hfst⟩ : ∃ rest, sessionSizes request.config.slotGranularity low
          high s.remaining = s.remaining :: rest := sessionSizes_of_longest
        (by rw [← toNat_inj, toNat_min]; omega)
        (by rw [le_iff_toNat_le, toNat_min]; omega) (.inl (Nat.sub_self _))
      rw [hfst] at hszs
      have hdone : s'.remaining = 0 := by
        rw [hszs.2, ← toNat_inj, toNat_satSub, Nat.sub_self, toNat_zero]
      rw [Loop.run_of_stop _ (placeSession_of_done (.inr hdone)),
        lastPartFits_of_lt hleast (by omega)]
      exact iff_of_true hdone (.inl hone)
    · by_cases hmany : high.toNat + low.toNat ≤ s.remaining.toNat
      · -- a session of the maximal size leaves enough
        obtain ⟨rest, hfst⟩ : ∃ rest, sessionSizes request.config.slotGranularity low
            high s.remaining = high :: rest := sessionSizes_of_longest
          (by rw [← toNat_inj, toNat_min]; omega)
          (by rw [le_iff_toNat_le, toNat_min]; omega) (.inr (by omega))
        rw [hfst] at hszs
        have hleft : s'.remaining.toNat = s.remaining.toNat - high.toNat := by
          rw [hszs.2, toNat_satSub]
        refine (ih hszs.1 (by omega) (by omega)).trans ?_
        rw [hleft, lastPartFits_sub hmany]
      · rw [lastPartFits_of_lt hleast (Nat.lt_of_not_le hmany)]
        cases hlist : sessionSizes request.config.slotGranularity low high s.remaining with
        | nil =>
          -- too much for one session, too little for two
          have htwo : ¬ 2 * low.toNat ≤ s.remaining.toNat := fun htwo =>
            sessionSizes_ne_nil hg hle htwo hlist
          rw [hlist] at hszs
          rw [Loop.run_of_stop _ (placeSession_of_done (.inl hszs.1)), hszs.2]
          exact iff_of_false hrem (by omega)
        | cons size rest =>
          -- two sessions
          obtain ⟨hlow', -, hupper, haft⟩ := bounds_of_mem_sessionSizes hle
            (hlist ▸ mem_cons_self ..)
          rw [hlist] at hszs
          have hleft : s'.remaining.toNat = s.remaining.toNat - size.toNat := by
            rw [hszs.2, toNat_satSub]
          have hsession : high.toNat ≤ left * high.toNat :=
            Nat.le_mul_of_pos_left _ (Nat.pos_of_ne_zero (by rintro rfl; omega))
          refine (ih hszs.1 (by omega) (by omega)).trans ?_
          rw [lastPartFits_of_lt (by omega) (by omega)]
          omega

end

/-! ### One item -/

section

/-- The sessions of a new item start with all of the room. -/
lemma NewTo.going (h : NewTo state item) {free : Span}
    (hroom : HasRoom state request high gap most.toNat free) (remaining : UInt32) :
    Going request item high gap most most.toNat (state.startSessions item remaining) := by
  refine ⟨⟨free, hroom, ?_⟩, ⟨0, ?_, rfl⟩, ?_, Nat.zero_add _, h.previous, rfl⟩
  · simp [startSessions, h.blocks, boundsOf, HalfOpen.hull]
  · simp [startSessions, h.blocks, h.highWater]
  · simp [startSessions, h.blocks, h.live]

section

variable {sizes : List Minutes} {work : Minutes}
  (hszs : ∀ size ∈ sizes, low ≤ size ∧ size ≤ high ∧ step.toNat ∣ size.toNat)
  (hsum : (sizes.map toNat).sum = work.toNat)

include hszs hsum

lemma least_of_sizes (hwork : work ≠ 0) : low.toNat ≤ work.toNat := by
  cases sizes with
  | nil => exact absurd (UInt32.toNat_inj.mp hsum.symm) hwork
  | cons size rest =>
    have := le_iff_toNat_le.mp (hszs size mem_cons_self).1
    rw [map_cons, sum_cons] at hsum
    omega

lemma most_of_sizes {count : ℕ} (hcnt : sizes.length ≤ count) :
    work.toNat ≤ count * high.toNat := by
  have hle := sum_le_card_nsmul _ _ (forall_mem_map.mpr fun size hsize =>
    le_iff_toNat_le.mp (hszs size hsize).2.1)
  rw [hsum, length_map] at hle
  exact hle.trans (Nat.mul_le_mul_right _ hcnt)

end

variable {minimumSession maximumSession minimumGap : Minutes} {maximumSessions : UInt16}

/-- **Splitting strands work that is neither one session nor two.** Work that sessions on the grid
could cover, in ample free time, is placed in full if and only if what sessions of the maximal
size leave of it is. -/
theorem splitWork_placed_iff (hval : ValidRequest request) (hmem : item ∈ request.items)
    (hpol : item.splitPolicy =
      .splittable minimumSession maximumSession maximumSessions minimumGap none)
    (hitem : Unconstrained item) (hnew : NewTo state item) {free : Span}
    (hroom : HasRoom state request maximumSession minimumGap maximumSessions.toNat free)
    {duration : DurationEstimate} (hdur : item.duration = some duration)
    {sizes : List Minutes} (hcnt : sizes.length ≤ maximumSessions.toNat)
    (hszs : ∀ size ∈ sizes, minimumSession ≤ size ∧ size ≤ maximumSession ∧
      request.config.slotGranularity.toNat ∣ size.toNat)
    (hsum : (sizes.map toNat).sum = duration.planningMinutes.toNat) :
    blockMinutes (blocksOf (scheduleItem env state request item [] items).1.blocks item.id) =
        duration.planningMinutes.toNat ↔
      LastPartFits minimumSession.toNat maximumSession.toNat duration.planningMinutes.toNat := by
  obtain ⟨hmin, hle, -⟩ := hval.splittable hmem hpol
  have huncovered : state.uncovered item duration.planningMinutes = duration.planningMinutes := by
    rw [← toNat_inj, uncovered, hnew.pinned, hnew.reserved, toNat_satSub]
    exact Nat.sub_zero _
  -- the blocks of the item are the new ones, so all is placed if nothing is left
  obtain ⟨new, reports, hscheduled⟩ := scheduleItem_spec hval hmem state
  obtain ⟨left, hbalance, -, hdone⟩ := hscheduled.balance duration hdur
  have hbl : blocksOf (scheduleItem env state request item [] items).1.blocks item.id = new := by
    have hown : ∀ b ∈ new, decide (b.itemId = some item.id) = true := fun b hb =>
      decide_eq_true (hscheduled.own b hb).1
    rw [hscheduled.blocks, blocksOf, filter_append, filter_eq_self.mpr hown]
    exact congrArg (· ++ new) hnew.blocks
  have hiff : blockMinutes new = duration.planningMinutes.toNat ↔
      (scheduleItem env state request item [] items).2 = true := by
    rw [hdone, decide_eq_true_iff, ← toNat_inj, toNat_zero, ← huncovered]
    omega
  rw [hbl, hiff, scheduleItem, hdur]
  dsimp only
  rw [huncovered]
  split
  · rename_i hzero
    rw [hzero]
    refine iff_of_true rfl (.inl ?_)
    simpa [lastPart] using le_iff_toNat_le.mp hle
  · rename_i hpos'
    obtain ⟨-, -, -, -, -, -, hset⟩ := settleItem_spec item duration.planningMinutes
      (placeSessions env request item [] items (state.startSessions item duration.planningMinutes))
    rw [hset, decide_eq_true_iff, placeSessions, hpol]
    exact (hnew.going hroom _).run hval.granularity hmin hle hitem
      (least_of_sizes hszs hsum hpos') (most_of_sizes hszs hsum hcnt)

end

end PlanningState

namespace Sample

/-- An hour of work in three sessions of at least twenty minutes. -/
def hourInThree (maximumSession : Minutes) : WorkItem :=
  { task 1 60 with splitPolicy := .splittable 20 maximumSession 3 0 none }

end Sample

/-- An hour is three sessions of twenty minutes; in two free hours, with sessions of up to
twenty-five minutes, the planner places one of twenty-five and reports the rest. -/
theorem splitWork_stranded_hourInThree : ∃ plan,
    Sample.plan (Sample.request [hourInThree 25]) = .ok plan ∧
      plan.blocks.map (fun b => Span.minutes b.interval) = [25] ∧
      plan.unscheduled.map UnscheduledWork.remaining = [35] := by
  decide +kernel

/-- With sessions of up to half an hour the same hour is placed. -/
theorem splitWork_placed_hourInThree :
    PlanningState.blockMinutes (blocksOf (PlanningState.scheduleItem externals {}
      (Sample.request [hourInThree 30]) (hourInThree 30) [] ∅).1.blocks
        (hourInThree 30).id) = 60 := by
  have hval : validateRequest (Sample.request [hourInThree 30]) = .ok () := by
    decide +kernel
  have hnew : PlanningState.NewTo {} (hourInThree 30) :=
    ⟨rfl, by decide, by decide, by decide, by decide, by simp⟩
  have hroom : PlanningState.HasRoom {} (Sample.request [hourInThree 30]) 30 0 3
      ⟨.atSecond 0, .atSecond 7200⟩ :=
    ⟨⟨_, mem_singleton_self _, by decide⟩, by decide, by simp, by decide, by decide⟩
  have hszs : ∀ size ∈ [20, 20, 20], (20 : Minutes) ≤ size ∧ size ≤ 30 ∧
      (5 : Minutes).toNat ∣ size.toNat := forall_iff_forall_mem.mp (by decide)
  exact (PlanningState.splitWork_placed_iff (validateRequest_eq_ok.mp hval)
    (mem_singleton_self _) rfl ⟨rfl, rfl⟩ hnew hroom rfl (by decide) hszs rfl).mpr
    (.inl (by decide))

end DayWeave
