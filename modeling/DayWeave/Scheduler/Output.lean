import DayWeave.Domain.Hierarchy

/-!
What the planner returns: blocks, unscheduled work, decisions, violations, the
score and the assessments of manual placements; or the error that says why the
input was refused.
-/

open Std

namespace DayWeave

/-- Where a block comes from. -/
inductive ScheduleBlockKind where
  | planned | pinned | calendarEvent | externalFixed
deriving DecidableEq, Repr

/-- Why work was placed where it is. -/
inductive ExplanationCode where
  | fixedEvent | pinned | hardDeadline | goalProgress | habitOrRoutine | priority
  | preferredWindow | contextMatch | energyMatch | dependency | stableTime
  | earliestAvailable | splitSession
deriving DecidableEq, Repr

namespace ExplanationCode

def rank : ExplanationCode → ℕ
  | fixedEvent => 0
  | pinned => 1
  | hardDeadline => 2
  | goalProgress => 3
  | habitOrRoutine => 4
  | priority => 5
  | preferredWindow => 6
  | contextMatch => 7
  | energyMatch => 8
  | dependency => 9
  | stableTime => 10
  | earliestAvailable => 11
  | splitSession => 12

end ExplanationCode

/-- A code and its text. -/
structure PlacementExplanation where
  code : ExplanationCode
  message : String
deriving DecidableEq

namespace PlacementExplanation

/-- Explanations by code, without repetitions. -/
def normalize (l : List PlacementExplanation) : List PlacementExplanation :=
  dedupBy (fun a b => a == b) (sortBy (compareOn fun e => e.code.rank) l)

end PlacementExplanation

structure ScheduleBlock where
  id : Uuid
  isSensitive : Bool
  itemId : Option ItemId
  occurrenceId : Option OccurrenceId
  externalBlockId : Option Uuid
  title : String
  start : OffsetDateTime
  finish : OffsetDateTime
  sessionIndex : UInt16
  kind : ScheduleBlockKind
  explanations : List PlacementExplanation
deriving DecidableEq

namespace ScheduleBlock

/-- The stretch of time a block takes. -/
def interval (b : ScheduleBlock) : Span := ⟨b.start, b.finish⟩

end ScheduleBlock

/-- Why work was left out. -/
inductive UnscheduledReason where
  | missingDuration | noCapacity | hardConstraint | blocked | dependencyUnavailable
  | dependencyCycle | sessionLimit
deriving DecidableEq, Repr

/-- Work that found no place. -/
structure UnscheduledWork where
  itemId : ItemId
  occurrenceId : Option OccurrenceId
  remaining : Minutes
  reason : UnscheduledReason
  message : String
deriving DecidableEq

/-- What the planner decided about an item. -/
inductive DecisionKind where
  | containerRolledUp | terminalItemIgnored | fixedEventRetained | scheduled
  | partiallyScheduled | keptPinned
deriving DecidableEq, Repr

namespace DecisionKind

def rank : DecisionKind → ℕ
  | containerRolledUp => 0
  | terminalItemIgnored => 1
  | fixedEventRetained => 2
  | scheduled => 3
  | partiallyScheduled => 4
  | keptPinned => 5

end DecisionKind

/-- A decision about one item. -/
structure PlanDecision where
  itemId : ItemId
  occurrenceId : Option OccurrenceId
  kind : DecisionKind
  message : String
deriving DecidableEq

inductive ViolationKind where
  | softConstraint | fixedOverlap | pinnedConflict | deadlineRisk | dependency
  | bufferCompressed | capacity
deriving DecidableEq, Repr

namespace ViolationKind

def rank : ViolationKind → ℕ
  | softConstraint => 0
  | fixedOverlap => 1
  | pinnedConflict => 2
  | deadlineRisk => 3
  | dependency => 4
  | bufferCompressed => 5
  | capacity => 6

end ViolationKind

/-- How serious a violation is. -/
inductive ViolationSeverity where
  | warning | error
deriving DecidableEq, Repr

/-- A rule the plan does not keep. -/
structure PlanViolation where
  kind : ViolationKind
  severity : ViolationSeverity
  itemIds : List ItemId
  occurrenceIds : List OccurrenceId
  start : Option OffsetDateTime
  finish : Option OffsetDateTime
  penalty : UInt64
  message : String
deriving DecidableEq

/-- The hard rules a manual placement can break. -/
inductive ManualPlacementViolationCode where
  | outsideAvailability | earliestStart | latestFinish | minimumNotice | allowedWeekday
  | preferredDailyWindow | preferredAbsoluteWindow | forbiddenWindow | requiredContext
  | requiredLocation | requiredCapabilities | energy | dependency | maximumDailyWork
  | maximumWeeklyWork | bufferCompressed | immutableOverlap
deriving DecidableEq, Repr

namespace ManualPlacementViolationCode

def rank : ManualPlacementViolationCode → ℕ
  | outsideAvailability => 0
  | earliestStart => 1
  | latestFinish => 2
  | minimumNotice => 3
  | allowedWeekday => 4
  | preferredDailyWindow => 5
  | preferredAbsoluteWindow => 6
  | forbiddenWindow => 7
  | requiredContext => 8
  | requiredLocation => 9
  | requiredCapabilities => 10
  | energy => 11
  | dependency => 12
  | maximumDailyWork => 13
  | maximumWeeklyWork => 14
  | bufferCompressed => 15
  | immutableOverlap => 16

/-- The kind of plan violation a code is reported as. -/
def violationKind : ManualPlacementViolationCode → ViolationKind
  | latestFinish => .deadlineRisk
  | dependency => .dependency
  | bufferCompressed => .bufferCompressed
  | outsideAvailability | maximumDailyWork | maximumWeeklyWork => .capacity
  | immutableOverlap => .pinnedConflict
  | _ => .softConstraint

end ManualPlacementViolationCode

/-- A block that stands against a manual placement. -/
structure ManualPlacementConflict where
  blockId : Uuid
  itemId : Option ItemId
  occurrenceId : Option OccurrenceId
  externalBlockId : Option Uuid
  kind : ScheduleBlockKind
  start : OffsetDateTime
  finish : OffsetDateTime
deriving DecidableEq

/-- One hard rule broken by a manual placement, with the evidence. -/
structure ManualPlacementViolation where
  code : ManualPlacementViolationCode
  itemIds : List ItemId
  occurrenceIds : List OccurrenceId
  conflictingBlockIds : List Uuid
  conflictingBlocks : List ManualPlacementConflict
  start : OffsetDateTime
  finish : OffsetDateTime
  boundaryStart : Option OffsetDateTime
  boundaryEnd : Option OffsetDateTime
  message : String
deriving DecidableEq

/-- Everything an approval of one manual placement is bound to. -/
structure ManualPlacementAssessment where
  placementId : Uuid
  environmentDigest : List UInt8
  violations : List ManualPlacementViolation
deriving DecidableEq

structure PlanScore where
  scheduledMinutes : UInt32 := 0
  unscheduledMinutes : UInt32 := 0
  softPenalty : UInt64 := 0
  movedMinutes : UInt32 := 0
deriving DecidableEq

structure SchedulePlan where
  asOf : OffsetDateTime
  horizonStart : OffsetDateTime
  horizonEnd : OffsetDateTime
  blocks : List ScheduleBlock
  unscheduled : List UnscheduledWork
  decisions : List PlanDecision
  violations : List PlanViolation
  score : PlanScore
  occurrences : List Occurrence
  manualPlacementAssessments : List ManualPlacementAssessment
deriving DecidableEq

end DayWeave
