import DayWeave.Completion.Hierarchy
import DayWeave.Items.Item

/-!
Completion policies of stored items.

Every item has a completion state: whether its parent needs it, its policy, and, while its policy
completes it, the open state to return to. `planItemCompletion` hands the active items to
`evaluateHierarchyCompletion` and turns the decisions into effects. Payloads are measured and
hashed by libraries, which are parameters (`CompletionDigest`).
-/

open Std

namespace DayWeave.Server

/-! ### Data -/

def maxCompletionItems : ℕ := 20000

/-- The policy of an item. -/
inductive ItemCompletionMode where
  | automatic
  | keepOpen
  | complete
deriving DecidableEq

/-- How an item came to be completed. -/
inductive ItemCompletionProvenanceKind where
  | automatic
  | manual
deriving DecidableEq

/-- The open state of an item. -/
structure ItemCompletionReopenState where
  status : ItemStatus
  blockedReasonKind : Option BlockedReasonKind
  blockedByItemId : Option Uuid
  blockedReason : Option String
deriving DecidableEq

/-- How an item came to be completed, with the state to return to. -/
structure ItemCompletionProvenance where
  kind : ItemCompletionProvenanceKind
  reopen : ItemCompletionReopenState
deriving DecidableEq

structure ItemCompletionState where
  itemId : Uuid
  revision : UInt64
  requiredForParent : Bool
  mode : ItemCompletionMode
  provenance : Option ItemCompletionProvenance
  updatedAt : Option DateTime
deriving DecidableEq

structure ItemCompletionCommand where
  schemaVersion : UInt16
  operationId : Uuid
  expectedItemRevision : UInt64
  expectedCompletionRevision : UInt64
  expectedEvidenceHash : String
  requiredForParent : Bool
  mode : ItemCompletionMode
  reopening : Option ItemCompletionReopenState
deriving DecidableEq

/-- The items that are being worked on. -/
structure ItemCompletionExecutionEvidence where
  revision : UInt64
  liveItemIds : ExtTreeSet Uuid

/-- What a client sees of the completion of an item. -/
structure ItemCompletionSnapshot where
  schemaVersion : UInt16
  itemId : Uuid
  itemRevision : UInt64
  state : ItemCompletionState
  evidenceHash : String
  counts : HierarchyCompletionCounts
  occurrenceEvidenceRequired : Bool

/-- A change of an item and its state. -/
structure ItemCompletionEffect where
  beforeItem : Item
  afterItem : Item
  beforeState : ItemCompletionState
  afterState : ItemCompletionState
  reason : String

structure ItemCompletionPlan where
  effects : List ItemCompletionEffect
  evaluatedItemIds : List Uuid
  snapshots : ExtTreeMap Uuid ItemCompletionSnapshot

inductive ItemCompletionError where
  | invalid
  | itemMissing
  | itemStale
  | completionStale
  | evidenceStale
  | operationReused
  | parentRequired
  | reopeningReviewRequired
  | occurrenceEvidenceRequired
  | executionConflict
  | tooLarge
  | unavailable

/-- The serialisation of a forest: it fails for a payload that is too large, and otherwise
gives a digest of the forest and of what is being worked on. -/
structure CompletionDigest where
  measure : List Item → List ItemCompletionState → Except ItemCompletionError Unit
  hash : ExtTreeMap Uuid Item → ExtTreeMap Uuid ItemCompletionState →
    ItemCompletionExecutionEvidence → Except ItemCompletionError String

/-! ### Open states -/

/-- The largest revision, which fits a signed integer. -/
def maxRevision : ℕ := 9223372036854775807

namespace ItemCompletionReopenState

variable (self : ItemCompletionReopenState) (item : Item)

/-- Whether the cause of a block fits the status. -/
def blockerIsValid (itemId : Uuid) : Bool :=
  match self.status, self.blockedReasonKind, self.blockedByItemId, self.blockedReason with
  | .blocked, some .dependency, some id, _ => !id.isNil && decide (id ≠ itemId)
  | .blocked, some .manual, none, some _ => true
  | .blocked, some .external, none, some _ => true
  | status, none, none, none => decide (status ≠ .blocked)
  | _, _, _, _ => false

def validate (itemId : Uuid) : Except ItemCompletionError Unit :=
  if self.status ≠ .inbox ∧ self.status ≠ .planned ∧ self.status ≠ .blocked then
    .error .reopeningReviewRequired
  else if self.blockedReason.any fun reason => decide (trim reason ≠ reason) ||
      reason.isEmpty || decide (reason.length > 1000) || reason.toList.any Text.isControl then
    .error .invalid
  else if self.blockerIsValid itemId then .ok ()
  else .error .invalid

def ofItem : ItemCompletionReopenState :=
  ⟨item.status, item.blockedReasonKind, item.blockedByItemId, item.blockedReason⟩

def fromItem : Except ItemCompletionError ItemCompletionReopenState := do
  (ofItem item).validate item.id
  return ofItem item

/-- Puts an item into an open state. -/
def applyTo : Item :=
  { item with
    status := self.status
    blockedReasonKind := self.blockedReasonKind
    blockedByItemId := self.blockedByItemId
    blockedReason := self.blockedReason
    completedAt := none }

end ItemCompletionReopenState

/-! ### States and commands -/

namespace ItemCompletionState

/-- The state of an item that nothing is stored about. -/
def empty (itemId : Uuid) : ItemCompletionState where
  itemId := itemId
  revision := 0
  requiredForParent := true
  mode := .automatic
  provenance := none
  updatedAt := none

/-- Whether the policy fits the way in which the item was completed. -/
def modeFits : ItemCompletionMode → ItemCompletionProvenanceKind → Bool
  | .automatic, .automatic | .complete, .manual => true
  | _, _ => false

def validate (self : ItemCompletionState) : Except ItemCompletionError Unit :=
  if self.itemId.isNil ∨ self.revision.toNat > maxRevision ∨
      (self.revision = 0 ∧ self ≠ empty self.itemId) ∨
      (self.revision > 0 ∧ self.updatedAt = none) ∨
      (self.updatedAt.any fun timestamp => !timestamp.hasPostgresTimestampPrecision) ∨
      (self.mode = .complete ∧ self.provenance = none) then
    .error .invalid
  else
    match self.provenance with
    | none => .ok ()
    | some provenance => do
      provenance.reopen.validate self.itemId
      if modeFits self.mode provenance.kind then .ok () else .error .invalid

end ItemCompletionState

/-- Whether a text is the name of a digest. -/
def validHash (value : String) : Bool :=
  decide (value.toList.take 7 = "sha256:".toList) && (value.toList.drop 7).length == 64 &&
    (value.toList.drop 7).all fun c => ('0' ≤ c && c ≤ '9') || ('a' ≤ c && c ≤ 'f')

def ItemCompletionCommand.validate (self : ItemCompletionCommand) (itemId : Uuid) :
    Except ItemCompletionError Unit :=
  if self.schemaVersion ≠ 1 ∨ itemId.isNil ∨ self.operationId.isNil ∨
      self.expectedItemRevision = 0 ∨ self.expectedItemRevision.toNat > maxRevision ∨
      self.expectedCompletionRevision.toNat > maxRevision ∨
      ¬ validHash self.expectedEvidenceHash then
    .error .invalid
  else
    match self.reopening with
    | none => .ok ()
    | some reopening => reopening.validate itemId

/-! ### The forest -/

/-- The items and the states by identifier. -/
abbrev IndexedCompletionForest := ExtTreeMap Uuid Item × ExtTreeMap Uuid ItemCompletionState

/-- Adds one item. -/
def indexItem (byId : ExtTreeMap Uuid Item) (item : Item) :
    Except ItemCompletionError (ExtTreeMap Uuid Item) :=
  if item.id.isNil ∨ item.revision = 0 ∨ item.revision.toNat > maxRevision ∨
      item.deletedAt.isSome ∨ item.id ∈ byId then
    .error .invalid
  else .ok (byId.insert item.id item)

/-- Adds one state, of an item of the forest that has none so far. -/
def indexState (byId : ExtTreeMap Uuid Item)
    (s : List Uuid × ExtTreeMap Uuid ItemCompletionState) (state : ItemCompletionState) :
    Except ItemCompletionError (List Uuid × ExtTreeMap Uuid ItemCompletionState) := do
  state.validate
  if state.itemId ∉ byId ∨ state.itemId ∈ s.1 then .error .invalid
  else .ok (state.itemId :: s.1, s.2.insert state.itemId state)

variable (digest : CompletionDigest) (items : List Item) (states : List ItemCompletionState)
  (execution : ItemCompletionExecutionEvidence)

/-- The items and the states by identifier; an item without a state has the empty one. -/
def index : Except ItemCompletionError IndexedCompletionForest :=
  if items.length > maxCompletionItems ∨ states.length > maxCompletionItems then .error .tooLarge
  else do
    digest.measure items states
    let byId ← items.foldlM indexItem ∅
    let indexed ← states.foldlM (indexState byId)
      ([], byId.map fun id _ => ItemCompletionState.empty id)
    return (byId, indexed.2)

def itemCompletionEvidenceHash : Except ItemCompletionError String := do
  let (byId, indexed) ← index digest items states
  if execution.revision.toNat > maxRevision ∨ Uuid.ofNat 0 ∈ execution.liveItemIds then
    .error .invalid
  else if execution.liveItemIds.size > maxCompletionItems then .error .tooLarge
  else digest.hash byId indexed execution

/-! ### Nodes -/

def coreStatus : ItemStatus → HierarchyProgressStatus
  | .inbox => .inbox
  | .planned => .planned
  | .scheduled => .scheduled
  | .inProgress => .inProgress
  | .paused => .paused
  | .completed => .completed
  | .skipped => .skipped
  | .cancelled => .cancelled
  | .blocked => .blocked

/-- The policy as the hierarchy knows it. -/
def coreMode : ItemCompletionMode → HierarchyCompletionOverride
  | .automatic => .automatic
  | .keepOpen => .keepOpen
  | .complete => .complete

def coreProvenance (value : ItemCompletionProvenance) : HierarchyCompletionProvenance :=
  match value.kind with
  | .automatic => .automatic (coreStatus value.reopen.status)
  | .manual => .manual (coreStatus value.reopen.status)

def completionNode (item : Item) (state : ItemCompletionState) : HierarchyCompletionItem where
  id := ⟨item.id⟩
  parentId := item.parentId.map ItemId.mk
  status := coreStatus item.status
  requiredForParent := state.requiredForParent
  recurs := item.recurrence.isSome
  hasChildrenOutsidePlan := false
  manualOverride := coreMode state.mode
  provenance := state.provenance.map coreProvenance

/-- The node of an item, which has a provenance only if it is completed. -/
def checkedNode (item : Item) (state : ItemCompletionState) :
    Except ItemCompletionError HierarchyCompletionItem :=
  if state.provenance.isSome ∧ item.status ≠ .completed then .error .reopeningReviewRequired
  else .ok (completionNode item state)

/-- The failures of the hierarchy as failures of the plan. -/
def mapCoreError : HierarchyCompletionError → ItemCompletionError
  | .missingPriorOpenStatus _ | .ambiguousTerminalParent _ | .invalidProvenance _ =>
    .reopeningReviewRequired
  | .overflow _ => .tooLarge
  | _ => .invalid

def actionName (action : HierarchyCompletionAction) (command : Bool) : String :=
  match action with
  | .unchanged => if command then "policy_reviewed" else "unchanged"
  | .occurrenceEvidenceRequired => "occurrence_evidence_required"
  | .automaticallyCompleted => "automatically_completed"
  | .automaticallyReopened => "automatically_reopened"
  | .manuallyCompleted => "manually_completed"
  | .manuallyKeptOpen => "manually_kept_open"
  | .manualCompletionReleased => "manual_completion_released"

/-- The next revision, which fits a signed integer. -/
def nextRevision (revision : UInt64) : Except ItemCompletionError UInt64 :=
  if revision.toNat + 1 ≤ maxRevision then .ok (revision + 1) else .error .unavailable

/-! ### Effects -/

/-- The provenance after a decision: the open state is the recorded one, or the one that the
item is in. -/
def provenanceAfter (prepared : Item) (state : ItemCompletionState)
    (decision : HierarchyCompletionDecision) :
    Except ItemCompletionError (Option ItemCompletionProvenance) :=
  match decision.provenance with
  | none => .ok none
  | some value => do
    let reopen ← match state.provenance with
      | none => ItemCompletionReopenState.fromItem prepared
      | some recorded => .ok recorded.reopen
    return some {
      kind := match value with
        | .automatic _ => .automatic
        | .manual _ => .manual
      reopen := reopen }

/-- The item after a decision. -/
def itemAfter (prepared : Item) (state : ItemCompletionState)
    (decision : HierarchyCompletionDecision) (now : DateTime) : Except ItemCompletionError Item :=
  if decision.status = .completed ∧ prepared.status ≠ .completed then
    .ok { prepared with
      status := .completed
      completedAt := some now
      blockedReasonKind := none
      blockedByItemId := none
      blockedReason := none }
  else if decision.status ≠ coreStatus prepared.status then
    match state.provenance with
    | none => .error .reopeningReviewRequired
    | some recorded =>
      if coreStatus recorded.reopen.status ≠ decision.status then .error .unavailable
      else .ok (recorded.reopen.applyTo prepared)
  else .ok prepared

/-- What is planned for one item: `before` is what is stored, `prepared` and `requested` are
the item and the state with the command in them. -/
def planItem (isCommand isParent : Bool)
    (now : DateTime) (beforeItem prepared : Item) (beforeState requested : ItemCompletionState)
    (decision : HierarchyCompletionDecision) :
    Except ItemCompletionError (Option ItemCompletionEffect) := do
  if decision.occurrenceEvidenceRequired ∧ isCommand ∧
      (beforeState.mode ≠ requested.mode ∨ prepared.status ≠ beforeItem.status) then
    .error .occurrenceEvidenceRequired
  else
    let provenance ← provenanceAfter prepared requested decision
    let afterState := { requested with provenance := provenance }
    let afterItem ← itemAfter prepared requested decision now
    let afterItem := { afterItem with isExecutable := afterItem.executionIsAllowed isParent }
    if afterItem ≠ beforeItem ∨ afterState ≠ beforeState ∨ isCommand then
      if beforeItem.id ∈ execution.liveItemIds ∧ afterItem.status ≠ beforeItem.status then
        .error .executionConflict
      else
        let itemRevision ← nextRevision beforeItem.revision
        let stateRevision ← nextRevision beforeState.revision
        let afterItem := { afterItem with revision := itemRevision, updatedAt := now }
        let afterState := { afterState with revision := stateRevision, updatedAt := some now }
        afterState.validate
        return some ⟨beforeItem, afterItem, beforeState, afterState,
          actionName decision.action isCommand⟩
    else return none

variable (parents : List Uuid) (evidenceHash : String) (forest : IndexedCompletionForest)
  (command : Option (Uuid × ItemCompletionCommand))

/-- The item and the state of the target of a command, with the command in them. -/
def prepareCommand (id : Uuid)
    (command : ItemCompletionCommand) (item : Item) (state : ItemCompletionState) :
    Except ItemCompletionError (Item × ItemCompletionState) :=
  if item.revision ≠ command.expectedItemRevision then .error .itemStale
  else if state.revision ≠ command.expectedCompletionRevision then .error .completionStale
  else if evidenceHash ≠ command.expectedEvidenceHash then .error .evidenceStale
  else if id ∉ parents ∧ state.mode = .automatic ∧ state.provenance = none ∧
      command.mode ≠ .automatic then
    .error .parentRequired
  else
    let state' := { state with
      requiredForParent := command.requiredForParent, mode := command.mode }
    match command.reopening with
    | none => .ok (item, state')
    | some reopening =>
      if state.provenance.isSome ∨ ¬ item.status.isTerminal ∨ id ∉ parents then
        .error .reopeningReviewRequired
      else .ok (reopening.applyTo item, state')

/-- The forest with the command in it. -/
def prepareForest : Except ItemCompletionError IndexedCompletionForest :=
  match command with
  | none => .ok forest
  | some (id, command) => do
    command.validate id
    let item ← forest.1[id]?.okOr .itemMissing
    let state ← forest.2[id]?.okOr .unavailable
    let (item, state) ← prepareCommand parents evidenceHash id command item state
    return (forest.1.insert id item, forest.2.insert id state)

def stateOf (states : ExtTreeMap Uuid ItemCompletionState) (id : Uuid) : ItemCompletionState :=
  states.getD id (ItemCompletionState.empty id)

/-- What a client sees of an item. -/
def snapshotOf (item : Item) (state : ItemCompletionState)
    (decision : HierarchyCompletionDecision) : ItemCompletionSnapshot where
  schemaVersion := 1
  itemId := item.id
  itemRevision := item.revision
  state := state
  evidenceHash := evidenceHash
  counts := decision.counts
  occurrenceEvidenceRequired := decision.occurrenceEvidenceRequired

/-- The effects of the decisions about a forest, with or without a command. -/
def planItemCompletion (now : DateTime) : Except ItemCompletionError ItemCompletionPlan := do
  let now := now.truncateToPostgresTimestampPrecision
  let evidenceHash ← itemCompletionEvidenceHash digest items states execution
  let forest ← index digest items states
  let parents := items.filterMap Item.parentId
  let prepared ← prepareForest parents evidenceHash forest command
  let nodes ← (prepared.1.toList.map Prod.snd).mapM fun item =>
    checkedNode item (stateOf prepared.2 item.id)
  let evaluation ← (evaluateHierarchyCompletion nodes .oneOff).mapError mapCoreError
  let stored := forest.1.toList.map Prod.snd
  let effects ← stored.mapM fun item =>
    planItem execution (command.any fun c => decide (c.1 = item.id)) (decide (item.id ∈ parents))
      now item (prepared.1.getD item.id item) (stateOf forest.2 item.id)
      (stateOf prepared.2 item.id) (evaluation.decisions.getD ⟨item.id⟩ default)
  return {
    effects := effects.reduceOption
    evaluatedItemIds := forest.1.keys
    snapshots := ExtTreeMap.ofList (stored.map fun item =>
      (item.id, snapshotOf evidenceHash item (stateOf forest.2 item.id)
        (evaluation.decisions.getD ⟨item.id⟩ default))) }

end DayWeave.Server
