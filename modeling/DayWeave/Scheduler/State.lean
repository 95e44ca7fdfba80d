import DayWeave.Scheduler.Execution

/-!
The state of a planning run, and the retained time it starts from.

`PlanningState.retain` records a block and the busy interval it takes together. Fixed blocks,
calendar events, execution reservations and pinned assignments are retained before any flexible
work is placed.
-/

open Std

namespace DayWeave

/-- Time that is taken, and by what. -/
structure BusyBlock where
  interval : Span
  itemId : Option ItemId
  pinned : Bool
  manualPlacement : Bool

/-- The name of one session of one materialised item. -/
structure SessionKey where
  itemId : ItemId
  sessionIndex : UInt16
deriving DecidableEq

namespace SessionKey

instance : Ord SessionKey :=
  ⟨compareLex (compareOn SessionKey.itemId) (compareOn SessionKey.sessionIndex)⟩

instance : TransOrd SessionKey :=
  inferInstanceAs (TransCmp
    (compareLex (compareOn SessionKey.itemId) (compareOn SessionKey.sessionIndex)))

end SessionKey

/-- The state of a planning run. -/
structure PlanningState where
  blocks : List ScheduleBlock := []
  busy : List BusyBlock := []
  unscheduled : List UnscheduledWork := []
  decisions : List PlanDecision := []
  violations : List PlanViolation := []
  score : PlanScore := {}
  previous : ExtTreeMap SessionKey PreviousBlock := ∅
  pinnedMinutes : ExtTreeMap ItemId UInt32 := ∅
  executionReservedMinutes : ExtTreeMap ItemId UInt32 := ∅
  sessionHighWater : ExtTreeMap ItemId UInt16 := ∅
  liveSessionIndices : ExtTreeMap ItemId (Finset UInt16) := ∅

/-- The bytes of an integer in two's complement, most significant first. -/
def toBeBytes (count : ℕ) (value : Int) : List UInt8 :=
  (List.range count).reverse.map fun i => UInt8.ofNat (value / 256 ^ i % 256).toNat

/-- The identifier of a block, derived from item, session and start. -/
def blockId (env : Externals) (itemId : ItemId) (sessionIndex : UInt16) (start : OffsetDateTime) :
    Uuid :=
  env.newV5 itemId.uuid (toBeBytes 16 start.nanos ++ toBeBytes 2 sessionIndex.toNat)

def explanation (code : ExplanationCode) (message : String) : PlacementExplanation :=
  ⟨code, message⟩

namespace PlanningState

variable (env : Externals) (state : PlanningState) (request : PlanRequest) (items : WorkMap)
  (execution : MaterializedExecutionContext)

/-- The state before any time is taken. -/
def new : PlanningState where
  previous := ExtTreeMap.ofList (request.previousAssignments.flatMap fun assignment =>
    assignment.blocks.map fun block => (SessionKey.mk assignment.itemId block.sessionIndex, block))
  sessionHighWater := ExtTreeMap.ofList (execution.workUnits.toList.filterMap fun entry =>
    entry.2.highWater.map fun index => (entry.1, index))

/-- Records a block and the time it takes. -/
def retain (block : ScheduleBlock) (pinned manualPlacement : Bool) : PlanningState :=
  { state with
    blocks := state.blocks ++ [block]
    busy := state.busy ++ [⟨block.interval, block.itemId, pinned, manualPlacement⟩] }

def recordDecision (itemId : ItemId) (kind : DecisionKind) (message : String) : PlanningState :=
  { state with decisions := state.decisions ++ [⟨itemId, none, kind, message⟩] }

variable (item : WorkItem) (kind : ScheduleBlockKind) (sessionIndex : UInt16) (interval : Span)

/-- Whether a stretch has a part inside the horizon. -/
def inHorizon : Bool :=
  (interval.clipped ⟨request.horizonStart, request.horizonEnd⟩).isSome

def fixedBlock (fixed : FixedBlock) : ScheduleBlock where
  id := fixed.id
  isSensitive := fixed.isSensitive
  itemId := none
  occurrenceId := none
  externalBlockId := some fixed.id
  title := fixed.title
  start := fixed.start
  finish := fixed.finish
  sessionIndex := 0
  kind := .externalFixed
  explanations := [explanation .fixedEvent
    (if fixed.source = .sleep then "Protected sleep is immutable."
     else "External fixed time is retained.")]

/-- Retains one piece of external time that reaches into the horizon. -/
def addFixedBlock (state : PlanningState) (fixed : FixedBlock) : PlanningState :=
  if inHorizon request ⟨fixed.start, fixed.finish⟩ then state.retain (fixedBlock fixed) true false
  else state

def addExternalFixedBlocks : PlanningState :=
  request.fixedBlocks.foldl (addFixedBlock request) state

def itemBlock (explanations : List PlacementExplanation) : ScheduleBlock where
  id := blockId env item.id sessionIndex interval.start
  isSensitive := item.isSensitive
  itemId := some item.id
  occurrenceId := none
  externalBlockId := none
  title := item.title
  start := interval.start
  finish := interval.finish
  sessionIndex := sessionIndex
  kind := kind
  explanations := explanations

def addCalendarEvent (state : PlanningState) (item : WorkItem) : PlanningState :=
  match item.kind with
  | .calendarEvent event =>
    let interval : Span := ⟨event.start, event.finish⟩
    if item.status.isTerminal || item.status = .blocked then
      state.recordDecision item.id .terminalItemIgnored
        "Completed, skipped, canceled, or blocked events do not reserve future time."
    else if ¬ inHorizon request interval then state
    else
      (state.retain (itemBlock env item .calendarEvent 0 interval
          [explanation .fixedEvent "Calendar time is retained before flexible work is composed."])
        event.immutable false).recordDecision item.id .fixedEventRetained
          "The calendar event remains at its source time."
  | _ => state

def addCalendarEvents : PlanningState :=
  request.items.foldl (addCalendarEvent env request) state

def addMinutes (minutes : ExtTreeMap ItemId UInt32) (id : ItemId) (amount : UInt32) :
    ExtTreeMap ItemId UInt32 :=
  minutes.insert id ((minutes.getD id 0).satAdd amount)

/-- Counts one reservation, and retains it if it lies in the horizon. -/
def addReservation (state : PlanningState) (reservation : ExecutionReservation) :
    Except ScheduleError PlanningState :=
  let interval : Span := ⟨reservation.start, reservation.finish⟩
  let horizon : Span := ⟨request.horizonStart, request.horizonEnd⟩
  let counted : PlanningState :=
    { state with
      executionReservedMinutes := addMinutes state.executionReservedMinutes item.id
        (ceilDurationMinutes (reservation.finish.since reservation.start))
      liveSessionIndices := state.liveSessionIndices.insert item.id
        (insert reservation.sessionIndex (state.liveSessionIndices.getD item.id ∅)) }
  if ¬ horizon.Overlaps interval then .ok counted
  else if ¬ horizon.Contains interval then
    .error (invalidExecution item.id ("reservation session " ++
      toString reservation.sessionIndex.toNat ++
      " is only partly covered by the planning horizon"))
  else
    .ok (counted.retain (itemBlock env item .pinned reservation.sessionIndex interval
      [explanation .pinned "Reserved by authoritative execution state."]) true false)

/-- Retains the reservations of one item. -/
def addWorkUnit (state : PlanningState) (entry : ItemId × MaterializedExecutionWorkUnit) :
    Except ScheduleError PlanningState :=
  match items[entry.1]? with
  | none => .ok state
  | some item => do
    let state ← entry.2.reservations.foldlM (addReservation env request item) state
    if entry.2.reservations = [] then .ok state
    else
      .ok (state.recordDecision item.id .keptPinned
        "Authoritative execution reservations were preserved exactly.")

def addExecutionReservations : Except ScheduleError PlanningState :=
  execution.workUnits.toList.foldlM (addWorkUnit env request items) state

/-- Raises the highest index known of an item. -/
def raiseHighWater (highWater : ExtTreeMap ItemId UInt16) (id : ItemId) (index : UInt16) :
    ExtTreeMap ItemId UInt16 :=
  highWater.insert id (match highWater[id]? with
     | none => index
     | some current => max current index)

/-- Retains one pinned session that reaches into the horizon. -/
def addPinnedBlock (manual : Bool)
    (state : PlanningState) (block : PreviousBlock) : PlanningState :=
  let interval : Span := ⟨block.start, block.finish⟩
  let raised : PlanningState :=
    { state with
      sessionHighWater := raiseHighWater state.sessionHighWater item.id block.sessionIndex }
  if ¬ inHorizon request interval then raised
  else
    { raised with
      pinnedMinutes := addMinutes raised.pinnedMinutes item.id (Span.minutes interval) }.retain
      (itemBlock env item .pinned block.sessionIndex interval
        [explanation .pinned "Pinned by the user and excluded from recomposition."]) true manual

/-- Retains one pinned assignment of flexible work. -/
def addPinnedAssignment (state : PlanningState) (assignment : PreviousAssignment) : PlanningState :=
  match items[assignment.itemId]? with
  | none => state
  | some item =>
    if ¬ assignment.pinned ∨ item.kind.isCalendarEvent then state
    else
      (assignment.blocks.foldl
          (addPinnedBlock env request item
            assignment.manualPlacementId.isSome) state).recordDecision
        item.id .keptPinned "Pinned sessions were preserved exactly."

def addPinnedAssignments : PlanningState :=
  request.previousAssignments.foldl (addPinnedAssignment env request items) state

/-- The largest number of overlaps that are reported. -/
def maxImmutableOverlapViolations : ℕ := 4096

/-- The violation of two retained blocks that overlap. -/
def overlapViolation (left right : BusyBlock) : PlanViolation where
  kind := if left.pinned || right.pinned then .pinnedConflict else .fixedOverlap
  severity := .error
  itemIds := dedupBy (fun a b => a == b)
    (sortBy compare ([left.itemId, right.itemId].filterMap fun id => id))
  occurrenceIds := []
  start := some (later left.interval.start right.interval.start)
  finish := some (earlier left.interval.finish right.interval.finish)
  penalty := 0
  message := "Immutable blocks overlap; both remain visible for resolution."

/-- Reports the overlaps of a block with the blocks after it; those are sorted by
start, so the search ends at the first that starts too late. -/
def overlapsWith (left : BusyBlock) :
    List BusyBlock → List PlanViolation → Except ScheduleError (List PlanViolation)
  | [], violations => .ok violations
  | right :: rest, violations =>
    if left.interval.finish ≤ right.interval.start then .ok violations
    else if ¬ left.interval.Overlaps right.interval ∨ left.manualPlacement ∨
        right.manualPlacement then
      overlapsWith left rest violations
    else if maxImmutableOverlapViolations ≤ violations.length then
      .error .conflictEvidenceLimit
    else overlapsWith left rest (violations ++ [overlapViolation left right])

/-- Reports all overlaps of a sorted list of blocks. -/
def overlapsAmong : List BusyBlock → List PlanViolation → Except ScheduleError (List PlanViolation)
  | [], violations => .ok violations
  | left :: rest, violations => do
    let violations ← overlapsWith left rest violations
    overlapsAmong rest violations

/-- Sorts the retained time and reports its overlaps. -/
def detectImmutableOverlaps : Except ScheduleError PlanningState := do
  let busy := sortBy (compareLex (compareOn fun b => b.interval.start)
    (compareLex (compareOn fun b => b.interval.finish)
      (compareLex (compareOn BusyBlock.itemId) (compareOn BusyBlock.pinned)))) state.busy
  let violations ← overlapsAmong busy state.violations
  .ok { state with busy := busy, violations := violations }

end PlanningState

end DayWeave
