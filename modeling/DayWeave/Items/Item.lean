import DayWeave.Chrono
import DayWeave.Domain.Item
import DayWeave.Lib.Result

/-!
Items of the server, the nodes of the forest of work that a replica holds.

Deleted items stay stored; an item is active if it is not deleted. Revisions count the changes of
an item, and `isExecutable` records whether it can be worked on.

What a client may write is decided by rules on texts, durations, deadlines and metadata
(`ItemRules`). They are a parameter: nothing that is proved depends on what they accept.
-/

namespace DayWeave.Server

inductive ItemKind where
  | event
  | task
  | habit
  | routine
  | goal
  | project
  | breakTime
deriving DecidableEq

/-- Whether an item has work of its own. Goals, projects and routines have none unless it is
declared. -/
def ItemKind.hasExecutableComponent (kind : ItemKind) (hasOwnEffort : Bool) : Bool :=
  match kind with
  | .project | .goal | .routine => hasOwnEffort
  | .event | .task | .habit | .breakTime => true

inductive ItemStatus where
  | inbox
  | planned
  | scheduled
  | inProgress
  | paused
  | completed
  | skipped
  | cancelled
  | blocked
deriving DecidableEq

namespace ItemStatus

/-- Whether an item has ended. -/
def isTerminal : ItemStatus → Bool
  | .completed | .skipped | .cancelled => true
  | .inbox | .planned | .scheduled | .inProgress | .paused | .blocked => false

/-- Whether an item cannot be worked on. -/
def preventsExecution (status : ItemStatus) : Bool := status.isTerminal || status == .blocked

/-- Whether an item has been worked on or is reserved for it. -/
def isExecutingState : ItemStatus → Bool
  | .scheduled | .inProgress | .paused | .completed | .skipped | .cancelled => true
  | .inbox | .planned | .blocked => false

end ItemStatus

/-- Why an item is blocked. -/
inductive BlockedReasonKind where
  | dependency
  | manual
  | external
deriving DecidableEq

/-- Authored fields that the repository only copies, for all of them. -/
structure ItemDetails where
  isSensitive : Bool
  title : String
  notes : Option String
deriving DecidableEq

/-- The scheduling metadata of an item as the repository reads it: the decoded dependencies,
`none` where they do not decode; two flags, `none` where they are missing or no flags; and the
text of all other members. -/
structure FlexibleConstraints where
  dependencies : Option (List Dependency) := some []
  routineOrdered : Option Bool := none
  hasOwnEffort : Option Bool := none
  other : String := ""
deriving DecidableEq

/-- A stored item. -/
structure Item where
  id : Uuid
  kind : ItemKind
  status : ItemStatus
  details : ItemDetails
  recurrence : Option String
  flexibleConstraints : FlexibleConstraints
  hasOwnEffort : Bool
  parentId : Option Uuid
  siblingOrder : UInt32
  isExecutable : Bool
  revision : UInt64
  createdAt : DateTime
  updatedAt : DateTime
  completedAt : Option DateTime
  deletedAt : Option DateTime
  blockedReasonKind : Option BlockedReasonKind
  blockedByItemId : Option Uuid
  blockedReason : Option String
deriving DecidableEq

/-- Why what a client writes into an item is refused. -/
inductive ItemDomainError where
  | titleRequired
  | titleTooLong
  | notesTooLong
  | invalidTimezone
  | invalidDuration
  | invalidDurationShape
  | invalidDeadlineShape
  | invalidTimeWindow
  | invalidRecurrence
  | invalidFlexibleConstraints
  | invalidSchedulingMetadata (reason : String)
  | invalidCustomRecurrenceAnchor (anchorDate weekStartsOn reason : String)
  | invalidSplitPolicy
  | invalidPriority
  | conflictingOwnEffort
  | invalidBlockedReason
  | invalidSiblingOrder
  | revisionOverflow
deriving DecidableEq

/-- The fields that a client writes. -/
structure ItemFields where
  kind : ItemKind
  status : ItemStatus
  details : ItemDetails
  recurrence : Option String
  flexibleConstraints : FlexibleConstraints
  hasOwnEffort : Option Bool
  parentId : Option Uuid
  siblingOrder : UInt32
  blockedReasonKind : Option BlockedReasonKind
  blockedByItemId : Option Uuid
  blockedReason : Option String

/-- The rules on the fields that a client writes. They return the fields in normal form, in
which it is decided whether the item has work of its own. -/
structure ItemRules where
  validate : ItemFields → Uuid → Option FlexibleConstraints → DateTime →
    Except ItemDomainError (ItemFields × Bool)

namespace Item

/-- Whether an item is not deleted. -/
def isActive (item : Item) : Bool := item.deletedAt.isNone

/-- Whether an item can be worked on. -/
def executionIsAllowed (item : Item) (hasActiveChildren : Bool) : Bool :=
  item.deletedAt.isNone && !hasActiveChildren && item.kind.hasExecutableComponent item.hasOwnEffort

def nextRevision (item : Item) : Except ItemDomainError UInt64 :=
  if item.revision.toNat + 1 < UInt64.size then .ok (item.revision + 1)
  else .error .revisionOverflow

variable (rules : ItemRules) (self : Item) (input : ItemFields) (now : DateTime)

/-- The item that a client creates. -/
def new (id : Uuid) (input : ItemFields) (now : DateTime) : Except ItemDomainError Item := do
  let now := now.truncateToPostgresTimestampPrecision
  let (input, hasOwnEffort) ← rules.validate input id none now
  return {
    id := id
    kind := input.kind
    status := input.status
    details := input.details
    recurrence := input.recurrence
    flexibleConstraints := input.flexibleConstraints
    hasOwnEffort := hasOwnEffort
    parentId := input.parentId
    siblingOrder := input.siblingOrder
    isExecutable := input.kind.hasExecutableComponent hasOwnEffort
    revision := 1
    createdAt := now
    updatedAt := now
    completedAt := if input.status = .completed then some now else none
    deletedAt := none
    blockedReasonKind := input.blockedReasonKind
    blockedByItemId := input.blockedByItemId
    blockedReason := input.blockedReason }

/-- The item with the fields that a client replaces. -/
def replaced : Except ItemDomainError Item := do
  let now := now.truncateToPostgresTimestampPrecision
  let (input, hasOwnEffort) ←
    rules.validate input self.id (some self.flexibleConstraints) self.createdAt
  let revision ← self.nextRevision
  return {
    id := self.id
    kind := input.kind
    status := input.status
    details := input.details
    recurrence := input.recurrence
    flexibleConstraints := input.flexibleConstraints
    hasOwnEffort := hasOwnEffort
    parentId := input.parentId
    siblingOrder := input.siblingOrder
    isExecutable := self.isExecutable && input.kind.hasExecutableComponent hasOwnEffort
    revision := revision
    createdAt := self.createdAt
    updatedAt := now
    completedAt := if input.status = .completed then self.completedAt.or (some now) else none
    deletedAt := self.deletedAt
    blockedReasonKind := input.blockedReasonKind
    blockedByItemId := input.blockedByItemId
    blockedReason := input.blockedReason }

def trashed : Except ItemDomainError Item := do
  let now := now.truncateToPostgresTimestampPrecision
  let revision ← self.nextRevision
  return { self with
    revision := revision, updatedAt := now, deletedAt := some now, isExecutable := false }

/-- The item as no longer deleted. -/
def restored : Except ItemDomainError Item := do
  let now := now.truncateToPostgresTimestampPrecision
  let revision ← self.nextRevision
  return { self with revision := revision, updatedAt := now, deletedAt := none }

/-- The item after its children changed. -/
def refreshedExecution (hasActiveChildren : Bool) (now : DateTime) :
    Except ItemDomainError Item := do
  let now := now.truncateToPostgresTimestampPrecision
  let revision ← self.nextRevision
  return { self with
    revision := revision
    updatedAt := now
    isExecutable := self.executionIsAllowed hasActiveChildren }

def dependencies (self : Item) : Except ItemDomainError (List Dependency) :=
  match self.flexibleConstraints.dependencies with
  | some dependencies => .ok dependencies
  | none => .error .invalidFlexibleConstraints

end Item

namespace Sample

/-- Authored fields with nothing in particular. -/
def details : ItemDetails where
  isSensitive := false
  title := "Tidy up"
  notes := none

/-- A task as it is created. -/
def task (id : ℕ) (parent : Option ℕ) (status : ItemStatus) : Item where
  id := Uuid.ofNat id
  kind := .task
  status := status
  details := details
  recurrence := none
  flexibleConstraints := {}
  hasOwnEffort := false
  parentId := parent.map Uuid.ofNat
  siblingOrder := 0
  isExecutable := true
  revision := 1
  createdAt := DateTime.atSecond 0
  updatedAt := DateTime.atSecond 0
  completedAt := none
  deletedAt := none
  blockedReasonKind := none
  blockedByItemId := none
  blockedReason := none

end Sample

end DayWeave.Server
