import DayWeave.Scheduler.Evaluate

/-!
The placement of one item.

`bestCandidate` tries every slot of the scheduling grid in the free time and keeps the first of the
candidates with the least penalty. Indivisible work takes one such candidate; splittable work takes
sessions one after another, each as long as possible, shrinking a session by one grid step as long
as no slot accepts it.
-/

open Std

namespace DayWeave

/-! ### Slots -/

/-- The part of the horizon that is not in the past. -/
def planningHorizon (request : PlanRequest) : Span :=
  ⟨later request.horizonStart request.asOf, request.horizonEnd⟩

/-- The slots from `start` on, one grid step apart, that end by `limit`. -/
def slotsFrom (granularity duration : Minutes) (limit : OffsetDateTime) :
    ℕ → OffsetDateTime → List Span
  | 0, _ => []
  | rounds + 1, start =>
    match start.checkedAdd duration.toDuration with
    | none => []
    | some finish =>
      if limit < finish then []
      else
        ⟨start, finish⟩ ::
          match start.checkedAdd granularity.toDuration with
          | none => []
          | some next => slotsFrom granularity duration limit rounds next

/-- The number of grid steps in a stretch of time, and one. -/
def slotRounds (granularity : Minutes) (start limit : OffsetDateTime) : ℕ :=
  (limit.since start / granularity.toDuration).toNat + 1

variable {step duration : Minutes} {slot free : Span} {earliest : Option OffsetDateTime}
  {start : OffsetDateTime}

/-- Slots from a start on are whole steps after it, at its offset. -/
lemma slotsFrom_spec {limit : OffsetDateTime} {rounds : ℕ}
    (h : slot ∈ slotsFrom step duration limit rounds start) :
    start ≤ slot.start ∧ slot.finish ≤ limit ∧
      slot.start.checkedAdd duration.toDuration = some slot.finish ∧
      slot.start.offset = start.offset ∧
      slot.start.nanos % step.toDuration = start.nanos % step.toDuration := by
  induction rounds generalizing start with
  | zero => cases h
  | succ rounds ih =>
    rw [slotsFrom] at h
    split at h
    · cases h
    · rename_i finish hfinish
      split at h
      · cases h
      · rename_i hlim
        rcases List.mem_cons.mp h with rfl | h
        · exact ⟨le_rfl, Std.not_lt.mp hlim, hfinish, rfl, rfl⟩
        · split at h
          · cases h
          · rename_i next hnext
            obtain ⟨hns, hoff⟩ := OffsetDateTime.ofNanos_eq_some hnext
            obtain ⟨hle, hfin, hadd, hslot, hmod⟩ := ih h
            refine ⟨?_, hfin, hadd, hslot.trans hoff, ?_⟩
            · have := Minutes.toDuration_nonneg step
              rw [OffsetDateTime.le_def] at hle ⊢
              omega
            · rwa [hns, Int.add_emod_right] at hmod

/-- The first instant of the grid in a free segment, not before `earliest`. -/
def firstSlotStart (granularity : Minutes) (earliest : Option OffsetDateTime)
    (start : OffsetDateTime) : Option OffsetDateTime :=
  (alignUp start granularity).bind fun aligned =>
    match earliest with
    | none => some aligned
    | some earliest => alignUp (later aligned earliest) granularity

lemma le_of_firstSlotStart (hg : step ≠ 0) {t : OffsetDateTime}
    (h : firstSlotStart step earliest start = some t) :
    start ≤ t ∧ ∀ e, earliest = some e → e ≤ t := by
  obtain ⟨aligned, halign, h⟩ := Option.bind_eq_some_iff.mp h
  have hle := le_of_alignUp halign hg
  cases earliest with
  | none =>
    cases h
    exact ⟨hle, fun e he => nomatch he⟩
  | some e =>
    have hlat := le_of_alignUp h hg
    refine ⟨hle.trans ((le_later_left _ _).trans hlat), fun e' he' => ?_⟩
    cases he'
    exact (le_later_right _ _).trans hlat

def slotsIn (granularity duration : Minutes) (earliest : Option OffsetDateTime) (free : Span) :
    List Span :=
  match firstSlotStart granularity earliest free.start with
  | none => []
  | some start =>
    slotsFrom granularity duration free.finish (slotRounds granularity start free.finish) start

/-- A slot of a free segment lies in it, has the asked length, and does not start too
early. -/
lemma slotsIn_spec (hg : step ≠ 0) (h : slot ∈ slotsIn step duration earliest free) :
    free.Contains slot ∧ slot.start.checkedAdd duration.toDuration = some slot.finish ∧
      ∀ e, earliest = some e → e ≤ slot.start := by
  unfold slotsIn at h
  split at h
  · cases h
  · rename_i start hst
    obtain ⟨hle, hearl⟩ := le_of_firstSlotStart hg hst
    obtain ⟨hslot, hfinish, hadd, -⟩ := slotsFrom_spec h
    exact ⟨⟨hle.trans hslot, hfinish⟩, hadd, fun e he => (hearl e he).trans hslot⟩

lemma start_lt_finish_of_checkedAdd (hd : duration ≠ 0)
    (h : slot.start.checkedAdd duration.toDuration = some slot.finish) :
    slot.start < slot.finish := by
  have hn := OffsetDateTime.nanos_of_checkedAdd h
  have hpos := duration.toNat_pos hd
  rw [Minutes.toDuration_eq] at hn
  rw [OffsetDateTime.lt_def]
  omega

namespace AvailabilityWindow

def interval (w : AvailabilityWindow) : Span := ⟨w.start, w.finish⟩

end AvailabilityWindow

namespace Candidate

/-- Less penalty first, then the earlier start, then the earlier end. -/
def order : Candidate → Candidate → Ordering :=
  compareLex (compareOn Candidate.penalty)
    (compareLex (compareOn fun c => c.interval.start) (compareOn fun c => c.interval.finish))

end Candidate

namespace PlanningState

variable (state : PlanningState) (request : PlanRequest) (item : WorkItem)
  (dependencies : List Dependency) (items : WorkMap) (search : SessionSearch)

/-- The free stretches of a window, as far as it is not past. -/
def freeTime (window : AvailabilityWindow) : List Span :=
  match window.interval.clipped (planningHorizon request) with
  | none => []
  | some available => freeSegments available (state.busy.map BusyBlock.interval)

/-- The slots for a session, each with the window it belongs to. -/
def candidateSlots (duration : Minutes)
    (earliest : Option OffsetDateTime) : List (AvailabilityWindow × Span) :=
  request.availability.flatMap fun window =>
    (state.freeTime request window).flatMap fun free =>
      (slotsIn request.config.slotGranularity duration earliest free).map fun slot =>
        (window, slot)

section

variable {state : PlanningState} {request : PlanRequest} {duration : Minutes}
  {earliest : Option OffsetDateTime} {window : AvailabilityWindow} {slot : Span}

lemma mem_freeTime : free ∈ state.freeTime request window ↔
      ∃ available, window.interval.clipped (planningHorizon request) = some available ∧
        free ∈ freeSegments available (state.busy.map (·.interval)) := by
  unfold freeTime
  cases window.interval.clipped (planningHorizon request) <;> simp

lemma mem_candidateSlots : (window, slot) ∈ state.candidateSlots request duration earliest ↔
      window ∈ request.availability ∧ ∃ free ∈ state.freeTime request window,
        slot ∈ slotsIn request.config.slotGranularity duration earliest free := by
  rw [candidateSlots, List.mem_flatMap]
  constructor
  · rintro ⟨w, hw, h⟩
    obtain ⟨free, hfree, h⟩ := List.mem_flatMap.mp h
    obtain ⟨s, hs, heq⟩ := List.mem_map.mp h
    cases heq
    exact ⟨hw, free, hfree, hs⟩
  · rintro ⟨hw, free, hfree, hslot⟩
    exact ⟨window, hw, List.mem_flatMap.mpr ⟨free, hfree, List.mem_map_of_mem hslot⟩⟩

/-- **What a slot is**: it lies in its window and in the part of the horizon that is
not past, has the asked length, does not start before the session may, and meets no
time that is taken. -/
theorem candidateSlots_spec (hg : request.config.slotGranularity ≠ 0)
    (h : (window, slot) ∈ state.candidateSlots request duration earliest) :
    window ∈ request.availability ∧ window.interval.Contains slot ∧
      (planningHorizon request).Contains slot ∧
      slot.start.checkedAdd duration.toDuration = some slot.finish ∧
      (∀ e, earliest = some e → e ≤ slot.start) ∧
      ∀ b ∈ state.busy, b.interval.start < b.interval.finish → ¬ b.interval.Overlaps slot := by
  obtain ⟨hw, free, hfree, hslot⟩ := mem_candidateSlots.mp h
  obtain ⟨available, hav, hfree⟩ := mem_freeTime.mp hfree
  obtain ⟨hin, hadd, hearl⟩ := slotsIn_spec hg hslot
  obtain ⟨-, hwin, hfreeOf⟩ := freeSegments_spec hfree
  obtain ⟨hwindow, hhor⟩ := HalfOpen.clipped_contains hav
  refine ⟨hw, hwindow.trans (hwin.trans hin), hhor.trans (hwin.trans hin), hadd, hearl,
    fun b hb hne hov => ?_⟩
  exact hfreeOf b.interval (List.mem_map_of_mem hb) hne (hov.mono hin)

end

/-- What a search for one session is about. -/
structure SessionSearch where
  duration : Minutes
  finishesItem : Bool
  sessionIndex : UInt16
  earliest : Option OffsetDateTime
  usedDays : Finset Date
  maximumDays : Option UInt16

/-- Whether a session that starts on this day keeps the limit of days. -/
def SessionSearch.dayAllowed (slot : Span) : Bool :=
  search.maximumDays.all fun limit =>
    decide (slot.start.date ∈ search.usedDays) || decide (search.usedDays.card < limit.toNat)

/-- The candidates of a search, in the order in which they are tried. -/
def candidates : List Candidate :=
  (state.candidateSlots request search.duration search.earliest).filterMap fun slot =>
    if search.dayAllowed slot.2 then
      state.evaluateCandidate request item dependencies items slot.1 slot.2 search.finishesItem
        search.sessionIndex
    else none

/-- The best slot for one session. -/
def bestCandidate : Option Candidate :=
  leastBy Candidate.order (state.candidates request item dependencies items search)

/-- The best candidate is that of a slot on an allowed day that no hard rule refuses. -/
lemma bestCandidate_spec {state : PlanningState} {request : PlanRequest} {item : WorkItem}
    {dependencies : List Dependency} {items : WorkMap} {search : SessionSearch}
    {candidate : Candidate}
    (h : state.bestCandidate request item dependencies items search = some candidate) :
    ∃ window tally, (window, candidate.interval) ∈
        state.candidateSlots request search.duration search.earliest ∧
      search.dayAllowed candidate.interval ∧
      state.evaluateRules request item dependencies items window candidate.interval
        search.finishesItem = some tally := by
  obtain ⟨⟨window, slot⟩, hslot, hcand⟩ := List.mem_filterMap.mp (leastBy_mem _ h)
  split at hcand
  · rename_i hday
    obtain ⟨tally, hrules, rfl⟩ := Option.map_eq_some_iff.mp hcand
    exact ⟨window, tally, hslot, hday, hrules⟩
  · cases hcand

def candidateBlock (env : Externals) (item : WorkItem) (candidate : Candidate)
    (sessionIndex : UInt16) (split : Bool) : ScheduleBlock :=
  itemBlock env item .planned sessionIndex candidate.interval (if split then
      candidate.explanations ++ [explanation .splitSession
        ("Session " ++ toString (sessionIndex.toNat + 1) ++ " of split work.")]
    else candidate.explanations)

/-- Takes a candidate into the plan. -/
def acceptCandidate (env : Externals) (state : PlanningState) (item : WorkItem)
    (candidate : Candidate) (sessionIndex : UInt16) (split : Bool) : PlanningState :=
  { state with
    score :=
      { state.score with
        softPenalty := state.score.softPenalty.satAdd candidate.penalty
        movedMinutes := state.score.movedMinutes.satAdd candidate.movedMinutes }
    violations := state.violations ++ candidate.violations }.retain
    (candidateBlock env item candidate sessionIndex split) false false

/-! ### Sessions -/

/-- The next session index, unless the index space is exhausted. -/
def nextSessionIndex (index : UInt16) : Option UInt16 :=
  if index = 65535 then none else some (index + 1)

/-- The state of the placement of one item. -/
structure Sessions where
  state : PlanningState
  remaining : UInt32
  sessionIndex : Option UInt16
  previousEnd : Option OffsetDateTime
  usedDays : Finset Date
  existing : ℕ
  added : ℕ := 0
  limitHit : Bool := false
  stopped : Bool := false

/-- The state before the first new session; retained sessions count. -/
def startSessions (remaining : UInt32) : Sessions :=
  let blocks := blocksOf state.blocks item.id
  let highest := (state.sessionHighWater[item.id]?.toList ++
    blocks.map ScheduleBlock.sessionIndex).max?
  { state := state
    remaining := remaining
    sessionIndex := highest.elim (some 0) nextSessionIndex
    previousEnd := (boundsOf blocks).map HalfOpen.finish
    usedDays := (blocks.map fun block => block.start.date).toFinset
    existing := (state.liveSessionIndices.getD item.id ∅ ∪
      (blocks.map ScheduleBlock.sessionIndex).toFinset).card }

section

variable (env : Externals) (request : PlanRequest) (item : WorkItem)
  (dependencies : List Dependency) (items : WorkMap)

variable (s : Sessions) (index : UInt16) (earliest : Option OffsetDateTime)
  (maximumDays : Option UInt16) (size : Minutes)

/-- Places the whole remaining work at once. -/
def placeIndivisible : Sessions :=
  match s.sessionIndex with
  | none => { s with limitHit := true }
  | some index =>
    let search : SessionSearch :=
      { duration := s.remaining
        finishesItem := true
        sessionIndex := index
        earliest := none
        usedDays := s.usedDays
        maximumDays := none }
    match s.state.bestCandidate request item dependencies items search with
    | none => s
    | some candidate =>
      { s with
        state := acceptCandidate env s.state item candidate index false
        remaining := 0
        added := s.added + 1 }

/-- The sizes from `size` down to `minimum`, one grid step apart. -/
def shrinkSizes (granularity minimum : Minutes) : ℕ → Minutes → List Minutes
  | 0, _ => []
  | rounds + 1, size =>
    size ::
      if size ≤ minimum then []
      else shrinkSizes granularity minimum rounds (max (UInt32.satSub size granularity) minimum)

/-- The sizes for the next session that leave nothing, or enough for another one. -/
def sessionSizes (granularity minimumSession maximumSession : Minutes) (remaining : UInt32) :
    List Minutes :=
  let size := min remaining maximumSession
  let minimum := min minimumSession remaining
  (shrinkSizes granularity minimum
    ((size.toNat - minimum.toNat) / granularity.toNat + 2) size).filter
    fun size =>
      let after := UInt32.satSub remaining size
      (decide (after = 0) || decide (minimumSession ≤ after)) && decide (minimum ≤ size)

/-- The earliest start of the next session, unless it cannot be represented. -/
def sessionEarliest (previousEnd : Option OffsetDateTime) (minimumGap : Minutes) :
    Option (Option OffsetDateTime) :=
  match previousEnd with
  | none => some none
  | some finish => (finish.checkedAdd minimumGap.toDuration).map some

/-- The search for a session of one size. -/
def searchSize : Option Candidate :=
  s.state.bestCandidate request item dependencies items
    { duration := size
      finishesItem := UInt32.satSub s.remaining size = 0
      sessionIndex := index
      earliest := earliest
      usedDays := s.usedDays
      maximumDays := maximumDays }

/-- Takes one session into the plan. -/
def acceptSession (candidate : Candidate) : Sessions :=
  { s with
    state := acceptCandidate env s.state item candidate index true
    remaining := UInt32.satSub s.remaining size
    sessionIndex := nextSessionIndex index
    previousEnd := some candidate.interval.finish
    usedDays := insert candidate.interval.start.date s.usedDays
    added := s.added + 1 }

/-- One round for splittable work: the next session, or the reason to stop. -/
def placeSession (minimumSession maximumSession : Minutes) (maximumSessions : UInt16)
    (minimumGap : Minutes) (maximumDays : Option UInt16) (s : Sessions) : Option Sessions :=
  if s.stopped ∨ s.remaining = 0 then none
  else if maximumSessions.toNat ≤ s.existing + s.added then
    some { s with limitHit := true, stopped := true }
  else
    match s.sessionIndex, sessionEarliest s.previousEnd minimumGap with
    | some index, some earliest =>
      let sizes := sessionSizes request.config.slotGranularity minimumSession maximumSession
        s.remaining
      let search := searchSize request item dependencies items s index earliest maximumDays
      match sizes.findSome? fun size => (search size).map fun candidate => (size, candidate) with
      | none => some { s with stopped := true }
      | some (size, candidate) => some (acceptSession env item s index size candidate)
    | _, _ => some { s with limitHit := true, stopped := true }

/-- Places as much of the remaining work as possible. -/
def placeSessions : Sessions :=
  match item.splitPolicy with
  | .indivisible => placeIndivisible env request item dependencies items s
  | .splittable minimumSession maximumSession maximumSessions minimumGap maximumDays =>
    Loop.run (placeSession env request item dependencies items minimumSession maximumSession
      maximumSessions minimumGap maximumDays) (maximumSessions.toNat + 1) s

end

/-! ### Items -/

/-- Reports work that found no place. -/
def reportUnscheduled (state : PlanningState) (itemId : ItemId) (remaining : Minutes)
    (reason : UnscheduledReason) (message : String) : PlanningState :=
  { state with unscheduled := state.unscheduled ++ [⟨itemId, none, remaining, reason, message⟩] }

/-- Reports the outcome of the placement of an item. -/
def settleItem (item : WorkItem) (required : UInt32) (s : Sessions) : PlanningState × Bool :=
  let scheduledNow := required.satSub s.remaining
  let left := toString s.remaining.toNat
  let state : PlanningState :=
    { s.state with
      score :=
        { s.state.score with
          scheduledMinutes := s.state.score.scheduledMinutes.satAdd scheduledNow } }
  if s.remaining = 0 then
    (state.recordDecision item.id .scheduled
      ("Reserved " ++ toString required.toNat ++ " minutes."), true)
  else
    let unplaced : PlanningState :=
      { state with
        score :=
          { state.score with
            unscheduledMinutes := state.score.unscheduledMinutes.satAdd s.remaining } }
    let reported := unplaced.reportUnscheduled item.id s.remaining
      (if s.limitHit then .sessionLimit else .noCapacity)
      (if s.limitHit then
        "The session limit or semantic index space leaves " ++ left ++ " minutes unscheduled."
       else "No valid capacity for the remaining " ++ left ++ " minutes inside the horizon.")
    let violated : PlanningState :=
      { reported with
        violations := reported.violations ++
          [{ kind := .capacity
             severity := .error
             itemIds := [item.id]
             occurrenceIds := []
             start := none
             finish := none
             penalty := 0
             message := left ++ " minutes remain unscheduled." }] }
    (if 0 < scheduledNow then
      violated.recordDecision item.id .partiallyScheduled
        ("Reserved " ++ toString scheduledNow.toNat ++ " of " ++ toString required.toNat ++
          " minutes; overload remains visible.")
     else violated, false)

/-- The minutes of an item that retained blocks and reservations do not cover. -/
def uncovered (state : PlanningState) (item : WorkItem) (required : UInt32) : UInt32 :=
  required.satSub ((state.pinnedMinutes.getD item.id 0).satAdd
    (state.executionReservedMinutes.getD item.id 0))

/-- Places one item; says whether all of it has a place. -/
def scheduleItem (env : Externals) (state : PlanningState) (request : PlanRequest)
    (item : WorkItem) (dependencies : List Dependency) (items : WorkMap) :
    PlanningState × Bool :=
  match item.duration with
  | none =>
    (state.reportUnscheduled item.id 0 .missingDuration
      "Add or accept a duration estimate before scheduling.", false)
  | some duration =>
    let required := duration.planningMinutes
    let remaining := state.uncovered item required
    if remaining = 0 then
      ({ state with
          score :=
            { state.score with
              scheduledMinutes := state.score.scheduledMinutes.satAdd required } }, true)
    else
      settleItem item required
        (placeSessions env request item dependencies items (state.startSessions item remaining))

end PlanningState

end DayWeave
