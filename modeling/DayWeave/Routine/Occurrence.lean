import DayWeave.Items.Completion
import DayWeave.Recurrence.Moves

/-!
Occurrences of a recurring routine.

An occurrence is a tree of members, published as a manifest that never changes, together with the
state of every member. `planRoutineOccurrence` carries out one command on one member, has
`evaluateHierarchyCompletion` decide the tree, writes the decisions back and refuses a result that
does not pass the checks of a stored aggregate.

Sizes and hashes of payloads and local dates are the work of libraries: these are parameters of
the model (`OccurrenceDigest`, `TimeZones`).
-/

open Std

namespace DayWeave.Server

/-! ### Data -/

def maxRoutineOccurrenceMembers : ℕ := 10000

def maxRoutineOccurrenceBytes : ℕ := 8 * 1024 * 1024

/-- A member as it is published. -/
structure RoutineOccurrenceMemberDefinition where
  itemId : Uuid
  parentId : Option Uuid
  sourceRevision : UInt64
  title : String
  kind : ItemKind
  recurs : Bool
  siblingOrder : UInt32
  requiredForParent : Bool
  initialOpen : ItemCompletionReopenState

/-- The published part of an occurrence. -/
structure RoutineOccurrenceManifest where
  schemaVersion : UInt16
  id : Uuid
  seriesItemId : Uuid
  occurrenceId : Uuid
  identity : RecurrenceOccurrenceIdentity
  nominalStart : DateTime
  nominalEnd : DateTime
  windowStart : DateTime
  windowEnd : DateTime
  timezoneName : String
  definitionHash : String
  members : List RoutineOccurrenceMemberDefinition

structure RoutineOccurrenceMemberState where
  itemId : Uuid
  revision : UInt64
  status : ItemStatus
  requiredForParent : Bool
  mode : ItemCompletionMode
  openState : ItemCompletionReopenState
  provenance : Option ItemCompletionProvenance
  completedAt : Option DateTime
  updatedAt : DateTime
deriving DecidableEq

/-- An occurrence as it is stored. -/
structure RoutineOccurrenceAggregate where
  manifest : RoutineOccurrenceManifest
  revision : UInt64
  members : List RoutineOccurrenceMemberState

inductive RoutineOccurrenceAction where
  | setOutcome (status : ItemStatus)
  | reopen (openState : ItemCompletionReopenState)
  | setPolicy (requiredForParent : Bool) (mode : ItemCompletionMode)

/-- A command on one member, made on the strength of what its author has seen. -/
structure RoutineOccurrenceCommand where
  schemaVersion : UInt16
  operationId : Uuid
  expectedInstanceRevision : UInt64
  expectedMemberRevision : UInt64
  expectedEvidenceHash : String
  action : RoutineOccurrenceAction

/-- What is known about the item that a member comes from. -/
structure RoutineOccurrenceSourceEvidence where
  itemId : Uuid
  currentRevision : Option UInt64
  eligible : Bool

/-- A member of an occurrence that is being worked on. -/
structure RoutineOccurrenceWorkUnit where
  itemId : Uuid
  occurrenceId : Uuid
deriving DecidableEq

/-- What is known about the sources and the work in progress. -/
structure RoutineOccurrenceEvidence where
  currentDefinitionHash : String
  sources : List RoutineOccurrenceSourceEvidence
  executionRevision : UInt64
  liveWorkUnits : Finset RoutineOccurrenceWorkUnit

/-- Why a member has the state that it has. -/
inductive RoutineOccurrenceReason where
  | unchanged
  | outcomeRecorded
  | reopened
  | policyReviewed
  | occurrenceEvidenceRequired
  | automaticallyCompleted
  | automaticallyReopened
  | manuallyCompleted
  | manuallyKeptOpen
  | manualCompletionReleased

/-- What is decided about a member. -/
structure RoutineOccurrenceMemberEvaluation where
  itemId : Uuid
  counts : HierarchyCompletionCounts
  occurrenceEvidenceRequired : Bool
  reason : RoutineOccurrenceReason

/-- What a client sees of an occurrence. -/
structure RoutineOccurrenceSnapshot where
  schemaVersion : UInt16
  aggregate : RoutineOccurrenceAggregate
  evidenceHash : String
  freshEditEligible : Bool
  members : List RoutineOccurrenceMemberEvaluation

/-- The change of a member. -/
structure RoutineOccurrenceMemberEffect where
  beforeState : RoutineOccurrenceMemberState
  afterState : RoutineOccurrenceMemberState
  reason : RoutineOccurrenceReason

/-- What a command leads to. -/
structure RoutineOccurrencePlan where
  snapshot : RoutineOccurrenceSnapshot
  effects : List RoutineOccurrenceMemberEffect

inductive RoutineOccurrenceError where
  | invalid
  | tooLarge
  | definitionChanged
  | sourceIneligible
  | instanceStale
  | memberStale
  | evidenceStale
  | memberMissing
  | leafRequired
  | parentRequired
  | occurrenceEvidenceRequired
  | executionConflict
  | unavailable
deriving DecidableEq

/-! ### What comes from libraries -/

/-- What is serialised. -/
inductive OccurrencePayload where
  | manifest (manifest : RoutineOccurrenceManifest)
  | aggregate (aggregate : RoutineOccurrenceAggregate)
  | request (aggregate : RoutineOccurrenceAggregate) (evidence : RoutineOccurrenceEvidence)
  | evidence (version : UInt16) (aggregate : RoutineOccurrenceAggregate)
      (currentDefinitionHash : String) (sources : ExtTreeMap Uuid RoutineOccurrenceSourceEvidence)
      (executionRevision : UInt64) (liveWorkUnits : Finset RoutineOccurrenceWorkUnit)
  | snapshot (snapshot : RoutineOccurrenceSnapshot)

/-- The size and the digest of a serialised payload. -/
structure OccurrenceDigest where
  size : OccurrencePayload → ℕ
  digest : OccurrencePayload → String

variable (zones : TimeZones) (digest : OccurrenceDigest) (aggregate : RoutineOccurrenceAggregate)
  (evidence : RoutineOccurrenceEvidence) (itemId : Uuid) (command : RoutineOccurrenceCommand)
  (now : DateTime)

/-- The digest of a payload that is not too large. -/
def hashValue (payload : OccurrencePayload) : Except RoutineOccurrenceError String :=
  if digest.size payload > maxRoutineOccurrenceBytes then .error .tooLarge
  else .ok (digest.digest payload)

/-- A date on the calendar. -/
structure CivilDate where
  year : Int
  month : ℕ
  day : ℕ
deriving DecidableEq

/-- The time zones by name, with the local dates of instants. -/
structure TimeZones where
  Zone : Type
  parse : String → Option Zone
  localDate : Zone → DateTime → CivilDate

/-! ### Small checks -/

/-- Whether an identifier is laid out as the standard says. -/
def isRfc4122 (u : Uuid) : Bool := u.bits.val / 2 ^ 62 % 4 == 2

/-- Whether an occurrence waits in this status. -/
def ItemStatus.isOpen : ItemStatus → Bool
  | .inbox | .planned | .blocked => true
  | _ => false

/-- Whether a member may have a status: nothing is reserved or running. -/
def ItemStatus.isMemberStatus : ItemStatus → Bool
  | .inbox | .planned | .blocked | .completed | .skipped | .cancelled => true
  | .scheduled | .inProgress | .paused => false

/-- Whether an instant lies in the years 1 to 9999 and has the precision of the database. -/
def validInstant (value : DateTime) : Bool :=
  decide (daysBeforeYear 1 ≤ value.nanos / Duration.day ∧
    value.nanos / Duration.day < daysBeforeYear 10000) && value.hasPostgresTimestampPrecision

def validRevision (value : UInt64) : Bool := decide (0 < value.toNat ∧ value.toNat ≤ maxRevision)

/-- The revision after a change of a member or of an occurrence. -/
def nextOccurrenceRevision (value : UInt64) : Except RoutineOccurrenceError UInt64 :=
  if value.toNat + 1 ≤ maxRevision then .ok (value + 1) else .error .unavailable

def itemStatus : HierarchyProgressStatus → ItemStatus
  | .inbox => .inbox
  | .planned => .planned
  | .scheduled => .scheduled
  | .inProgress => .inProgress
  | .paused => .paused
  | .completed => .completed
  | .skipped => .skipped
  | .cancelled => .cancelled
  | .blocked => .blocked

def actionReason : HierarchyCompletionAction → RoutineOccurrenceReason
  | .unchanged => .unchanged
  | .occurrenceEvidenceRequired => .occurrenceEvidenceRequired
  | .automaticallyCompleted => .automaticallyCompleted
  | .automaticallyReopened => .automaticallyReopened
  | .manuallyCompleted => .manuallyCompleted
  | .manuallyKeptOpen => .manuallyKeptOpen
  | .manualCompletionReleased => .manualCompletionReleased

def RoutineOccurrenceCommand.validate (self : RoutineOccurrenceCommand) (itemId : Uuid) :
    Except RoutineOccurrenceError Unit :=
  if self.schemaVersion ≠ 1 ∨ self.operationId.isNil ∨ itemId.isNil ∨
      ¬ validRevision self.expectedInstanceRevision ∨ ¬ validRevision self.expectedMemberRevision ∨
      ¬ validHash self.expectedEvidenceHash then
    .error .invalid
  else
    match self.action with
    | .setOutcome status =>
      if status ≠ .completed ∧ status ≠ .skipped then .error .invalid else .ok ()
    | .reopen openState => (openState.validate itemId).mapError fun _ => .invalid
    | .setPolicy _ _ => .ok ()

/-! ### The manifest -/

/-- Whether an anchor lies in the years 1 to 9999, in whole microseconds and less than a day
from UTC. -/
def validAnchor (anchor : OffsetDateTime) : Bool :=
  decide (1 ≤ anchor.date.year ∧ anchor.date.year ≤ 9999 ∧ anchor.nanosecond % 1000 = 0 ∧
    |anchor.offset| ≤ 86340)

variable (manifest : RoutineOccurrenceManifest) (members : List RoutineOccurrenceMemberState)

/-- Whether the identity of an occurrence fits its nominal time. -/
def identityIsValid (timezone : zones.Zone) : Bool :=
  let localDate := zones.localDate timezone manifest.nominalStart
  let localLast := (manifest.nominalEnd.checkedAddSigned (-1000)).map (zones.localDate timezone)
  let sameDay := decide (localLast = some localDate)
  let matchesDate := fun date : Date => sameDay && decide (date.year = localDate.year ∧
    date.month = localDate.month ∧ date.dayOfMonth = localDate.day)
  match manifest.identity with
  | .calendarDay date bucketOrdinal => matchesDate date && decide (bucketOrdinal.toNat < 65535)
  | .calendarWeek weekKey bucketOrdinal =>
    sameDay && decide (bucketOrdinal.toNat < 65535) &&
      (Date.ofCalendar localDate.year localDate.month localDate.day).any fun date =>
        decide (weekKey + 6 ≤ 2147483647 ∧ weekKey ≤ date.toJulianDay ∧
          date.toJulianDay ≤ weekKey + 6)
  | .calendarMonth year month bucketOrdinal =>
    sameDay && decide (year = localDate.year ∧ month = localDate.month ∧
      bucketOrdinal.toNat < 65535)
  | .rollingMinutes index anchor => decide (0 ≤ index ∧ index < 4294967296) && validAnchor anchor
  | .afterCompletion anchor => validAnchor anchor
  | .rollingMonth cycle index anchor =>
    decide (0 ≤ cycle ∧ cycle ≤ 2147483647 ∧ index.toNat < 65535) && validAnchor anchor
  | .custom => false
  | .customRule ruleId sequence date =>
    decide (ruleId.versionNum = 5) && isRfc4122 ruleId && decide (sequence.toNat < 10000) &&
      matchesDate date

abbrev MemberDefinitions := ExtTreeMap Uuid RoutineOccurrenceMemberDefinition

def RoutineOccurrenceMemberDefinition.isWellFormed (member : RoutineOccurrenceMemberDefinition) :
    Bool :=
  !member.itemId.isNil &&
    !(member.parentId.any fun id => id.isNil || decide (id = member.itemId)) &&
    validRevision member.sourceRevision && decide (member.siblingOrder.toNat ≤ 1000000) &&
    !member.title.isEmpty && decide (trim member.title = member.title) &&
    decide (member.title.length ≤ 500) && !(member.title.toList.any Text.isControl) &&
    !(decide (member.kind = .habit) && !member.recurs)

/-- Checks one definition. -/
def insertDefinition (members : MemberDefinitions) (member : RoutineOccurrenceMemberDefinition) :
    Except RoutineOccurrenceError MemberDefinitions :=
  if ¬ member.isWellFormed ∨ member.itemId ∈ members then .error .invalid
  else do
    (member.initialOpen.validate member.itemId).mapError fun _ => RoutineOccurrenceError.invalid
    return members.insert member.itemId member

/-- The part of the forest that an occurrence is about. -/
def occurrenceScope : HierarchyCompletionScope :=
  .occurrence ⟨manifest.seriesItemId⟩ ⟨manifest.occurrenceId⟩

/-- A member as it starts. -/
def initialNode (member : RoutineOccurrenceMemberDefinition) : HierarchyCompletionItem where
  id := ⟨member.itemId⟩
  parentId := member.parentId.map ItemId.mk
  status := coreStatus member.initialOpen.status
  requiredForParent := member.requiredForParent
  recurs := member.recurs
  hasChildrenOutsidePlan := false
  manualOverride := .automatic
  provenance := none

def manifestFieldsAreValid : Bool :=
  decide (manifest.schemaVersion = 1) && !manifest.id.isNil && !manifest.seriesItemId.isNil &&
    decide (manifest.occurrenceId.versionNum = 5) && isRfc4122 manifest.occurrenceId &&
    decide (manifest.id ≠ manifest.occurrenceId) && validHash manifest.definitionHash &&
    ([manifest.nominalStart, manifest.nominalEnd, manifest.windowStart,
      manifest.windowEnd].all validInstant) &&
    decide (manifest.nominalStart < manifest.nominalEnd) &&
    decide (manifest.windowStart < manifest.windowEnd) && !manifest.timezoneName.isEmpty &&
    decide (manifest.timezoneName.utf8ByteSize ≤ 100) &&
    (zones.parse manifest.timezoneName).any (identityIsValid zones manifest)

/-- The checks of a manifest, which give the definitions by identifier. -/
def validateManifest : Except RoutineOccurrenceError MemberDefinitions :=
  if manifest.members.length > maxRoutineOccurrenceMembers then .error .tooLarge
  else do
    let _ ← hashValue digest (.manifest manifest)
    if ¬ manifestFieldsAreValid zones manifest then .error .invalid
    else
      let members ← manifest.members.foldlM insertDefinition ∅
      match members[manifest.seriesItemId]? with
      | none => .error .invalid
      | some root =>
        if (root.kind ≠ .task ∧ root.kind ≠ .routine) ∨ root.recurs = false ∨
            root.parentId.isSome then
          .error .invalid
        else do
          let _ ← (evaluateHierarchyCompletion (manifest.members.map initialNode)
            (occurrenceScope manifest)).mapError fun _ => RoutineOccurrenceError.invalid
          return members

/-! ### The members -/

def memberNode (definition : RoutineOccurrenceMemberDefinition)
    (member : RoutineOccurrenceMemberState) : HierarchyCompletionItem where
  id := ⟨member.itemId⟩
  parentId := definition.parentId.map ItemId.mk
  status := coreStatus member.status
  requiredForParent := member.requiredForParent
  recurs := definition.recurs
  hasChildrenOutsidePlan := false
  manualOverride := coreMode member.mode
  provenance := member.provenance.map coreProvenance

/-- Decides the tree. -/
def evaluateMembers : Except RoutineOccurrenceError HierarchyCompletionEvaluation := do
  let definitions := Keyed.byKey RoutineOccurrenceMemberDefinition.itemId manifest.members
  let nodes ← members.mapM fun member =>
    ((definitions[member.itemId]?).map fun definition => memberNode definition member).okOr
      RoutineOccurrenceError.invalid
  (evaluateHierarchyCompletion nodes (occurrenceScope manifest)).mapError fun _ => .invalid

def checkMember (definitions : MemberDefinitions) (parents : List Uuid) (revision : UInt64)
    (seen : List Uuid) (member : RoutineOccurrenceMemberState) :
    Except RoutineOccurrenceError (List Uuid) :=
  if member.itemId ∉ definitions ∨ member.itemId ∈ seen ∨ ¬ validRevision member.revision ∨
      member.revision > revision ∨ ¬ validInstant member.updatedAt ∨
      ¬ member.status.isMemberStatus ∨
      decide (member.status = .completed) ≠ member.completedAt.isSome ∨
      (member.completedAt.any fun instant => !validInstant instant) ∨
      (member.status.isOpen ∧ member.status ≠ member.openState.status) ∨
      (member.itemId ∉ parents ∧ (member.mode ≠ .automatic ∨ member.provenance.isSome)) ∨
      (member.itemId ∈ parents ∧ member.status.isTerminal ∧ member.provenance = none) then
    .error .invalid
  else do
    (member.openState.validate member.itemId).mapError fun _ => RoutineOccurrenceError.invalid
    match member.provenance with
    | some provenance =>
      if member.status ≠ .completed ∨ provenance.reopen ≠ member.openState ∨
          ¬ ItemCompletionState.modeFits member.mode provenance.kind then
        .error .invalid
      else .ok (member.itemId :: seen)
    | none => if member.mode = .complete then .error .invalid else .ok (member.itemId :: seen)

/-- Whether a member is as it is decided. -/
def isReconciled (evaluation : HierarchyCompletionEvaluation)
    (member : RoutineOccurrenceMemberState) : Bool :=
  let decision := evaluation.decisions.getD ⟨member.itemId⟩ default
  decide (decision.status = coreStatus member.status ∧
    decision.provenance = member.provenance.map coreProvenance)

/-- The checks of an aggregate, which give the decisions about its members. -/
def validateAggregate : Except RoutineOccurrenceError HierarchyCompletionEvaluation :=
  if aggregate.members.length > maxRoutineOccurrenceMembers then .error .tooLarge
  else do
    let _ ← hashValue digest (.aggregate aggregate)
    let definitions ← validateManifest zones digest aggregate.manifest
    if ¬ validRevision aggregate.revision ∨ aggregate.members.length ≠ definitions.size then
      .error .invalid
    else
      let parents := definitions.toList.filterMap fun entry => entry.2.parentId
      let _ ← aggregate.members.foldlM (checkMember definitions parents aggregate.revision) []
      let evaluation ← evaluateMembers aggregate.manifest aggregate.members
      if aggregate.members.all (isReconciled evaluation) then return evaluation
      else .error .invalid

/-! ### The evidence -/

abbrev SourcesById := ExtTreeMap Uuid RoutineOccurrenceSourceEvidence

def insertSource (definitions : MemberDefinitions) (sources : SourcesById)
    (source : RoutineOccurrenceSourceEvidence) : Except RoutineOccurrenceError SourcesById :=
  match definitions[source.itemId]? with
  | none => .error .invalid
  | some definition =>
    if source.itemId ∈ sources ∨
        (source.currentRevision.any fun revision => !validRevision revision) ∨
        (source.eligible ∧ (source.currentRevision.all fun revision =>
          decide (revision < definition.sourceRevision))) then
      .error .invalid
    else .ok (sources.insert source.itemId source)

/-- The checks of the evidence about an aggregate, which give the sources by identifier. -/
def validateEvidence : Except RoutineOccurrenceError SourcesById :=
  if evidence.sources.length > maxRoutineOccurrenceMembers ∨
      evidence.liveWorkUnits.card > maxRoutineOccurrenceMembers then
    .error .tooLarge
  else do
    let _ ← hashValue digest (.request aggregate evidence)
    if evidence.sources.length ≠ aggregate.manifest.members.length ∨
        evidence.executionRevision.toNat > maxRevision ∨
        ¬ validHash evidence.currentDefinitionHash ∨
        ∃ unit ∈ evidence.liveWorkUnits, unit.itemId.isNil ∨ unit.occurrenceId.isNil then
      .error .invalid
    else
      evidence.sources.foldlM (insertSource (Keyed.byKey RoutineOccurrenceMemberDefinition.itemId
        aggregate.manifest.members)) ∅

/-! ### Snapshots -/

/-- What is decided about the members. -/
def memberEvaluations (evaluation : HierarchyCompletionEvaluation) :
    List RoutineOccurrenceMemberEvaluation :=
  evaluation.decisions.toList.map fun entry =>
    ⟨entry.1.uuid, entry.2.counts, entry.2.occurrenceEvidenceRequired, actionReason entry.2.action⟩

def RoutineOccurrenceAggregate.normalized : RoutineOccurrenceAggregate :=
  { aggregate with
    manifest := { aggregate.manifest with
      members := sortBy (compareOn RoutineOccurrenceMemberDefinition.itemId)
        aggregate.manifest.members }
    members := sortBy (compareOn RoutineOccurrenceMemberState.itemId) aggregate.members }

/-- What a client sees. -/
def routineOccurrenceSnapshot : Except RoutineOccurrenceError RoutineOccurrenceSnapshot := do
  let evaluation ← validateAggregate zones digest aggregate
  let sources ← validateEvidence digest aggregate evidence
  let evidenceHash ← hashValue digest (.evidence 1 aggregate.normalized
    evidence.currentDefinitionHash sources evidence.executionRevision evidence.liveWorkUnits)
  let snapshot : RoutineOccurrenceSnapshot := {
    schemaVersion := 1
    aggregate := aggregate.normalized
    evidenceHash := evidenceHash
    freshEditEligible :=
      decide (evidence.currentDefinitionHash = aggregate.manifest.definitionHash) &&
      (sources.toList.map Prod.snd).all RoutineOccurrenceSourceEvidence.eligible
    members := memberEvaluations evaluation }
  let _ ← hashValue digest (.snapshot snapshot)
  return snapshot

/-! ### Commands -/

/-- Whether a command was made on the strength of the current state. -/
def reviewCommand (before : RoutineOccurrenceSnapshot) : Except RoutineOccurrenceError Unit :=
  if aggregate.revision ≠ command.expectedInstanceRevision then .error .instanceStale
  else do
    let old ← (aggregate.members.find? fun member => decide (member.itemId = itemId)).okOr
      RoutineOccurrenceError.memberMissing
    if old.revision ≠ command.expectedMemberRevision then .error .memberStale
    else if before.evidenceHash ≠ command.expectedEvidenceHash then .error .evidenceStale
    else if evidence.currentDefinitionHash ≠ aggregate.manifest.definitionHash then
      .error .definitionChanged
    else if ¬ before.freshEditEligible then .error .sourceIneligible
    else if before.members.any fun member =>
        decide (member.itemId = itemId) && member.occurrenceEvidenceRequired then
      .error .occurrenceEvidenceRequired
    else .ok ()

/-- Whether a member has children. -/
def RoutineOccurrenceManifest.isParent (itemId : Uuid) : Bool :=
  manifest.members.any fun member => decide (member.parentId = some itemId)

/-- The target with the command in it. -/
def applyAction (isParent : Bool) (action : RoutineOccurrenceAction)
    (target : RoutineOccurrenceMemberState) :
    Except RoutineOccurrenceError RoutineOccurrenceMemberState :=
  match action with
  | .setOutcome status =>
    if isParent then .error .leafRequired
    else .ok { target with status := status, provenance := none }
  | .reopen openState =>
    if isParent then .error .leafRequired
    else .ok { target with status := openState.status, openState := openState, provenance := none }
  | .setPolicy requiredForParent mode =>
    if isParent = false ∧ mode ≠ .automatic then .error .parentRequired
    else .ok { target with requiredForParent := requiredForParent, mode := mode }

/-- The members with the command in the target; an identifier has one member. -/
def applyCommand (isParent : Bool) (action : RoutineOccurrenceAction) (itemId : Uuid)
    (members : List RoutineOccurrenceMemberState) :
    Except RoutineOccurrenceError (List RoutineOccurrenceMemberState) :=
  if itemId ∈ members.map RoutineOccurrenceMemberState.itemId then
    members.mapM fun member =>
      if member.itemId = itemId then applyAction isParent action member else .ok member
  else .error .memberMissing

/-- A member as it is decided. -/
def settledMember (original member : RoutineOccurrenceMemberState)
    (decision : HierarchyCompletionDecision) : RoutineOccurrenceMemberState :=
  { member with
    status := itemStatus decision.status
    provenance := decision.provenance.map fun provenance => {
      kind := match provenance with
        | .automatic _ => .automatic
        | .manual _ => .manual
      reopen := member.openState }
    completedAt :=
      if itemStatus decision.status = .completed then original.completedAt.or (some now) else none }

/-- The reason for the state of a changed member. -/
def changeReason (isTarget : Bool) (action : RoutineOccurrenceAction)
    (decision : HierarchyCompletionDecision) : RoutineOccurrenceReason :=
  if isTarget then
    match action with
    | .setOutcome _ => .outcomeRecorded
    | .reopen _ => .reopened
    | .setPolicy _ _ =>
      if decision.action = .unchanged then .policyReviewed else actionReason decision.action
  else actionReason decision.action

/-- Writes what is decided into a member. The target and the members that change get a new
revision, unless they are being worked on. -/
def settleMember (occurrenceId itemId : Uuid) (action : RoutineOccurrenceAction) (now : DateTime)
    (original member : RoutineOccurrenceMemberState) (decision : HierarchyCompletionDecision) :
    Except RoutineOccurrenceError
      (RoutineOccurrenceMemberState × Option RoutineOccurrenceMemberEffect) :=
  let settled := settledMember now original member decision
  if settled ≠ original ∨ settled.itemId = itemId then
    if ⟨settled.itemId, occurrenceId⟩ ∈ evidence.liveWorkUnits then .error .executionConflict
    else do
      let revision ← nextOccurrenceRevision original.revision
      let changed := { settled with revision := revision, updatedAt := now }
      return (changed, some ⟨original, changed,
        changeReason (decide (settled.itemId = itemId)) action decision⟩)
  else .ok (settled, none)

def settleMembers (action : RoutineOccurrenceAction) (now : DateTime)
    (evaluation : HierarchyCompletionEvaluation) (members : List RoutineOccurrenceMemberState) :
    Except RoutineOccurrenceError
      (List (RoutineOccurrenceMemberState × Option RoutineOccurrenceMemberEffect)) :=
  let originals := Keyed.byKey RoutineOccurrenceMemberState.itemId aggregate.members
  members.mapM fun member =>
    settleMember evidence aggregate.manifest.occurrenceId itemId action now
      (originals.getD member.itemId member) member
      (evaluation.decisions.getD ⟨member.itemId⟩ default)

/-- The aggregate after a command, with the effects. -/
def nextAggregate (action : RoutineOccurrenceAction) (now : DateTime) :
    Except RoutineOccurrenceError
      (RoutineOccurrenceAggregate × List RoutineOccurrenceMemberEffect) := do
  let prepared ← applyCommand (aggregate.manifest.isParent itemId) action itemId
    aggregate.normalized.members
  let evaluation ← evaluateMembers aggregate.normalized.manifest prepared
  let settled ← settleMembers aggregate evidence itemId action now evaluation prepared
  let revision ← nextOccurrenceRevision aggregate.revision
  return (⟨aggregate.normalized.manifest, revision, settled.map Prod.fst⟩,
    settled.filterMap Prod.snd)

/-- A snapshot with the reasons of the members that changed. -/
def RoutineOccurrenceSnapshot.withReasons (snapshot : RoutineOccurrenceSnapshot)
    (effects : List RoutineOccurrenceMemberEffect) : RoutineOccurrenceSnapshot :=
  let reasons := ExtTreeMap.ofList
    (effects.map fun effect => (effect.afterState.itemId, effect.reason))
  { snapshot with members := snapshot.members.map fun member =>
      { member with reason := reasons.getD member.itemId member.reason } }

/-- Plans a command on one member and what follows for the members above it. -/
def planRoutineOccurrence : Except RoutineOccurrenceError RoutineOccurrencePlan := do
  command.validate itemId
  let before ← routineOccurrenceSnapshot zones digest aggregate evidence
  reviewCommand aggregate evidence itemId command before
  let now := now.truncateToPostgresTimestampPrecision
  if ¬ validInstant now then .error .invalid
  else
    let (next, effects) ← nextAggregate aggregate evidence itemId command.action now
    let snapshot ← routineOccurrenceSnapshot zones digest next evidence
    return ⟨snapshot.withReasons effects, effects⟩

end DayWeave.Server
