import Std.Data.ExtTreeMap
import DayWeave.Domain.Item

/-!
The inputs of the planner: availability, fixed time, earlier assignments, the
recurrence context, and the execution evidence kept by an authoritative ledger.
The clock is part of the request (`asOf`); the planner never reads another one.
-/

open Std

namespace DayWeave

/-- A stretch of time in which work may be placed, with what it offers. -/
structure AvailabilityWindow where
  start : OffsetDateTime
  finish : OffsetDateTime
  contexts : Finset String
  location : Option String
  energy : EnergyLevel
deriving DecidableEq

inductive FixedBlockSource where
  | googleCalendar | sleep | protectedTime | travel | manual
deriving DecidableEq, Repr

/-- Time that is taken by something outside the work tree. -/
structure FixedBlock where
  id : Uuid
  isSensitive : Bool
  title : String
  start : OffsetDateTime
  finish : OffsetDateTime
  source : FixedBlockSource

/-- One session of an earlier plan. -/
structure PreviousBlock where
  start : OffsetDateTime
  finish : OffsetDateTime
  sessionIndex : UInt16

/-- The sessions an earlier plan gave to one unit of work. Pinned blocks are
immutable inputs, unpinned ones are hints; a manual placement is a pinned
assignment that asks for an assessment. -/
structure PreviousAssignment where
  itemId : ItemId
  occurrenceId : Option OccurrenceId
  blocks : List PreviousBlock
  pinned : Bool
  manualPlacementId : Option Uuid := none

namespace PreviousAssignment

/-- The public name of the assigned work. -/
def identity (a : PreviousAssignment) : WorkIdentity := ⟨a.itemId, a.occurrenceId⟩

end PreviousAssignment

/-- A disposition waives the remaining demand of one unit of work. -/
inductive ExecutionDisposition where
  | skipped
deriving DecidableEq, Repr

inductive ExecutionReservationKind where
  /-- A session that has already started. -/
  | inFlight
  /-- The replacement of a deferred session; its own index is fresh. -/
  | deferredReplacement (sourceSessionIndex : UInt16)

/-- Exactly reserved time of one session. -/
structure ExecutionReservation where
  sessionIndex : UInt16
  start : OffsetDateTime
  finish : OffsetDateTime
  kind : ExecutionReservationKind

/-- The evidence about one item or occurrence in the current progress epoch. -/
structure ExecutionWorkUnit where
  itemId : ItemId
  occurrenceId : Option OccurrenceId
  progressEpoch : UInt64
  creditedSeconds : UInt64
  disposition : Option ExecutionDisposition
  /-- Every index ever used; none is allocated again. -/
  usedSessionIndices : List UInt16
  reservations : List ExecutionReservation

namespace ExecutionWorkUnit

/-- The public name of the unit. -/
def identity (u : ExecutionWorkUnit) : WorkIdentity := ⟨u.itemId, u.occurrenceId⟩

end ExecutionWorkUnit

/-- A snapshot of the execution ledger. -/
structure ExecutionPlanningContext where
  snapshotRevision : UInt64 := 0
  workUnits : List ExecutionWorkUnit := []

/-- Progress recorded for one occurrence, in basis points of its expected
duration. -/
structure RecurrencePartialProgress where
  progressBasisPoints : UInt16
  expectedDurationMinutes : Minutes
  remainingDurationMinutes : Option Minutes

/-- A local day, from its midnight to the next. -/
structure ZonedDayBoundary where
  localDate : Date
  start : OffsetDateTime
  finish : OffsetDateTime
deriving DecidableEq

/-- The local days the platform has resolved. -/
structure RecurrenceCalendar where
  timeZoneId : Option String := none
  weekStartsOn : DayOfWeek := .monday
  days : List ZonedDayBoundary := []

/-- A pause of one series. -/
structure RecurrencePause where
  itemId : ItemId
  start : OffsetDateTime
  finish : OffsetDateTime

/-- The rule-specific name from which the identifier of an occurrence is
derived. -/
inductive RecurrenceOccurrenceIdentity where
  | calendarDay (date : Date) (bucketOrdinal : UInt16)
  | calendarWeek (weekKey : Int) (bucketOrdinal : UInt16)
  | calendarMonth (year : Int) (month : ℕ) (bucketOrdinal : UInt16)
  | rollingMinutes (index : Int) (anchor : OffsetDateTime)
  | afterCompletion (anchor : OffsetDateTime)
  | rollingMonth (cycle : Int) (index : UInt16) (anchor : OffsetDateTime)
  | custom
  | customRule (ruleId : Uuid) (sequence : UInt32) (date : Date)
deriving DecidableEq

/-- Enough about a moved occurrence to restore it in a later horizon. -/
structure RecurrenceMoveSource where
  itemRevision : UInt64
  identity : RecurrenceOccurrenceIdentity
  nominalStart : OffsetDateTime
  nominalEnd : OffsetDateTime
  localDate : Option Date
  ordinal : UInt32
deriving DecidableEq

/-- Which occurrences an exception is about. -/
inductive RecurrenceExceptionSelector where
  | occurrence (id : OccurrenceId)
  | localDate (date : Date)
  | nominalStart (instant : OffsetDateTime)
deriving DecidableEq

/-- What an exception does to the occurrences it selects. -/
inductive RecurrenceExceptionAction where
  | skip
  | move (start finish : OffsetDateTime) (source : RecurrenceMoveSource)
deriving DecidableEq

structure RecurrenceException where
  itemId : ItemId
  selector : RecurrenceExceptionSelector
  action : RecurrenceExceptionAction
deriving DecidableEq

/-- Everything besides the items that recurrence expansion reads. -/
structure RecurrenceContext where
  calendar : RecurrenceCalendar := {}
  completionAnchors : ExtTreeMap ItemId OffsetDateTime := ∅
  rollingAnchors : ExtTreeMap ItemId OffsetDateTime := ∅
  minimumSpacing : ExtTreeMap ItemId Minutes := ∅
  completedOccurrenceIds : Finset OccurrenceId := ∅
  partialProgress : ExtTreeMap OccurrenceId RecurrencePartialProgress := ∅
  pauses : List RecurrencePause := []
  exceptions : List RecurrenceException := []

/-- The tuning of the planner. -/
structure SchedulerConfig where
  slotGranularity : Minutes := 5
  stabilityWeight : UInt32 := 4
  defaultSoftWeight : UInt32 := 100

structure PlanRequest where
  asOf : OffsetDateTime
  horizonStart : OffsetDateTime
  horizonEnd : OffsetDateTime
  items : List WorkItem
  availability : List AvailabilityWindow
  fixedBlocks : List FixedBlock
  previousAssignments : List PreviousAssignment
  config : SchedulerConfig := {}
  recurrenceContext : RecurrenceContext := {}

/-- What became of an occurrence. -/
inductive OccurrenceState where
  | generated | completed | paused | skipped
deriving DecidableEq, Repr

/-- One occurrence of a series. -/
structure Occurrence where
  id : OccurrenceId
  seriesItemId : ItemId
  identity : RecurrenceOccurrenceIdentity
  nominalStart : OffsetDateTime
  nominalEnd : OffsetDateTime
  windowStart : OffsetDateTime
  windowEnd : OffsetDateTime
  localDate : Option Date
  ordinal : UInt32
  state : OccurrenceState
deriving DecidableEq

/-- What an approval of a manual placement is bound to, for one item. -/
structure ItemEnvironment where
  id : ItemId
  revision : UInt64
  kind : ItemKind
  status : WorkStatus
  parentId : Option ItemId
  siblingOrder : Option UInt32
  hasOwnEffort : Bool
  hasChildrenOutsidePlan : Bool
  duration : Option DurationEstimate
  constraints : SchedulingConstraints
  splitPolicy : SplitPolicy
  energy : Option (Qualified EnergyLevel)

/-- The library functions the planner calls: the name-based UUID of a name in a
namespace, the SHA-256 digest, and the JSON text of the environment of a manual
placement. Nothing is assumed about them. -/
structure Externals where
  newV5 : Uuid → List UInt8 → Uuid
  sha256 : List UInt8 → List UInt8
  encodeEnvironment : List ItemEnvironment → List AvailabilityWindow → List UInt8

namespace Sample

/-- Library functions that return fixed values. -/
def externals : Externals where
  newV5 name _ := name
  sha256 _ := []
  encodeEnvironment _ _ := []

/-- Library functions that give different identifiers to different names. -/
def naming : Externals :=
  { externals with
    newV5 := fun _ name => .ofNat (name.foldl (fun n byte => n * 31 + byte.toNat) 7) }

/-- An indivisible task without rules. -/
def task (id : ℕ) (minutes : Minutes) : WorkItem where
  id := ⟨Uuid.ofNat id⟩
  isSensitive := false
  revision := 1
  title := "task"
  kind := .task
  status := .notStarted
  parentId := none
  siblingOrder := none
  hasOwnEffort := false
  goalIds := ∅
  priority := ⟨5, 5⟩
  duration := some (DurationEstimate.exact minutes)
  constraints := {}
  splitPolicy := .indivisible
  energy := none
  tags := ∅
  createdAt := .atSecond 0
  updatedAt := .atSecond 0

def window (start finish : OffsetDateTime) : AvailabilityWindow where
  start := start
  finish := finish
  contexts := ∅
  location := none
  energy := .medium

/-- An item whose work may be done in sessions of twenty to thirty minutes, at most three, at
least ten minutes apart. -/
def inSessions (item : WorkItem) : WorkItem :=
  { item with splitPolicy := .splittable 20 30 3 10 none }

/-- A meeting in the first hour. -/
def meeting : FixedBlock where
  id := .ofNat 90
  isSensitive := false
  title := "meeting"
  start := .atSecond 1200
  finish := .atSecond 3000
  source := .googleCalendar

/-- A request for two hours that are free. -/
def request (items : List WorkItem) : PlanRequest where
  asOf := .atSecond 0
  horizonStart := .atSecond 0
  horizonEnd := .atSecond 7200
  items := items
  availability := [window (.atSecond 0) (.atSecond 7200)]
  fixedBlocks := []
  previousAssignments := []

/-- A request with a meeting, and with half an hour of the first item pinned as its fourth
session. -/
def busyRequest (items : List WorkItem) : PlanRequest :=
  { request items with
    fixedBlocks := [meeting]
    previousAssignments :=
      [{ itemId := ⟨Uuid.ofNat 1⟩, occurrenceId := none, pinned := true,
         blocks := [⟨.atSecond 3000, .atSecond 4800, 3⟩] }] }

end Sample

end DayWeave
