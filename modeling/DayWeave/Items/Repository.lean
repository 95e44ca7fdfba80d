import DayWeave.Items.Completion
import DayWeave.Items.Graph

/-!
The repository of the items that is kept in memory.

Every command works on a copy of the state: it writes its item, refreshes the parents whose
children changed, and is followed by the changes of completion that it leads to
(`mutateWithCompletion`). Every write is appended to the change log.

The clock, the running session and the random identifiers are parameters of each command
(`Surroundings`). The progress notes and tickets that the state also holds are left out; no
command here reads them.
-/

open Std

namespace DayWeave.Server

open ItemRepositoryError (invalidItem)

/-! ### Data -/

/-- The session that is being worked on, with the revision of the execution state. -/
structure ExecutionSnapshot where
  revision : UInt64
  activeSession : Option ExecutionSession

/-- The operation and the key under which a request may be repeated. -/
structure IdempotencyKey where
  operation : String
  key : String

instance : Ord IdempotencyKey :=
  ⟨compareLex (compareOn IdempotencyKey.operation) (compareOn IdempotencyKey.key)⟩

instance : TransOrd IdempotencyKey :=
  inferInstanceAs (TransCmp (compareLex (compareOn IdempotencyKey.operation)
    (compareOn IdempotencyKey.key)))

/-- How a request is recognised when it is repeated. -/
structure IdempotencyContext where
  key : IdempotencyKey
  fingerprint : Vector UInt8 32
  expiresAt : DateTime

/-- The answer to a request. -/
structure ItemMutation where
  item : Item
  replayed : Bool

/-- A request that was answered. -/
structure MemoryIdempotency where
  fingerprint : Vector UInt8 32
  expiresAt : DateTime
  item : Item

/-- The answer to a change of the completion policy. -/
structure ItemCompletionMutation where
  operationId : Uuid
  replayed : Bool
  completion : ItemCompletionSnapshot

/-- The state of the repository. -/
structure MemoryState extends ChangeLog where
  items : ItemsById := ∅
  completionStates : ExtTreeMap Uuid ItemCompletionState := ∅
  completionReceipts : ExtTreeMap Uuid (Uuid × ItemCompletionCommand × ItemCompletionMutation) := ∅
  completionEffects : List ItemCompletionEffect := []
  idempotency : ExtTreeMap IdempotencyKey MemoryIdempotency := ∅

/-- What the commands of a repository share: the rules on items, the digest of a forest, and
the size of a serialised change. -/
structure Services where
  rules : ItemRules
  digest : CompletionDigest
  payloadSize : DeltaChange → Option ℕ

/-- What a command reads from outside: the time, the execution state if it can be read, the
group of its changes, and the groups of the changes of completion. -/
structure Surroundings where
  clock : DateTime
  execution : Option ExecutionSnapshot
  changeGroupId : Uuid
  completionGroupIds : ℕ → Uuid

/-! ### Small steps -/

variable (services : Services) (env : Surroundings) (state : MemoryState) (id : Uuid)
  (expectedRevision : UInt64) (replacement : ItemFields) (now : DateTime)
  (context : IdempotencyContext)

def MemoryState.appendChange (changeGroupId : Option Uuid)
    (change : DeltaChange) : Except ItemRepositoryError MemoryState :=
  if state.nextSequence.toNat + 1 < UInt64.size then
    .ok { state with
      nextSequence := state.nextSequence + 1
      changes := state.changes ++ [⟨state.nextSequence + 1, changeGroupId, change⟩] }
  else .error .internal

/-- The answer to a request that was made before. An answer that has expired is forgotten. -/
def MemoryState.replay (clock : DateTime) :
    MemoryState × Option (Except ItemRepositoryError ItemMutation) :=
  if state.idempotency[context.key]?.any fun entry => decide (entry.expiresAt ≤ clock) then
    ({ state with idempotency := state.idempotency.erase context.key }, none)
  else
    (state, state.idempotency[context.key]?.map fun entry =>
      if entry.fingerprint = context.fingerprint then .ok ⟨entry.item, true⟩
      else .error .idempotencyConflict)

/-- Answers a request, unless it was answered before. -/
def MemoryState.answerOnce (clock : DateTime)
    (mutation : MemoryState → Except ItemRepositoryError (MemoryState × ItemMutation)) :
    Except ItemRepositoryError (MemoryState × ItemMutation) :=
  match state.replay context clock with
  | (state, some answer) => answer.map fun mutation => (state, mutation)
  | (state, none) => mutation state

variable (hasChildren : Bool) (item : Item) (states : ExtTreeMap Uuid ItemCompletionState)

def MemoryState.remember : MemoryState :=
  { state with idempotency :=
      state.idempotency.insert context.key ⟨context.fingerprint, context.expiresAt, item⟩ }

def MemoryState.write (changeGroupId id : Uuid) (item : Item)
    (change : DeltaChange) : Except ItemRepositoryError MemoryState :=
  { state with items := state.items.insert id item }.appendChange (some changeGroupId) change

/-- An item that is not deleted. -/
def activeItem (items : ItemsById) (id : Uuid) : Option Item := items[id]?.filter Item.isActive

/-- An item that is marked as executable if it is. -/
def Item.marked (hasChildren : Bool) : Item :=
  { item with isExecutable := item.executionIsAllowed hasChildren }

def ensureRevision (expected : UInt64) : Except ItemRepositoryError Unit :=
  if item.revision = expected then .ok () else .error (.revisionConflict expected item.revision)

def refreshParent (changeGroupId : Uuid) (state : MemoryState) (parentId : Uuid) :
    Except ItemRepositoryError MemoryState := do
  let parent ← (activeItem state.items parentId).okOr (.parentNotFound parentId)
  let parent ← (parent.refreshedExecution (hasActiveChildren parentId state.items) now).mapError
    invalidItem
  state.write changeGroupId parentId parent (.upsert parent)

/-- Refreshes the parents whose children changed, each once. -/
def refreshParents (parentIds : List (Option Uuid)) (now : DateTime)
    (changeGroupId : Uuid) : Except ItemRepositoryError MemoryState :=
  (dedupBy (fun a b => a == b) (sortBy compare parentIds.reduceOption)).foldlM
    (refreshParent now changeGroupId) state

/-- Refreshes the old and the new parent of an item that moved. -/
def refreshMoved (current item : Item) (changeGroupId : Uuid) :
    Except ItemRepositoryError MemoryState :=
  if current.parentId ≠ item.parentId ∨ current.siblingOrder ≠ item.siblingOrder then
    refreshParents state [current.parentId, item.parentId] item.updatedAt changeGroupId
  else .ok state

/-! ### Checks of a write -/

/-- Whether an item that is completed may have children: it is completed by its policy. -/
def completionAllowsParent : Bool :=
  decide (item.status = .completed) && states[item.id]?.any fun state =>
    decide (state.revision > 0) && state.provenance.isSome && state.validate.isOkAnd fun _ => true

/-- Goes up from an item and refuses to meet the given item, or any item twice. -/
def walkAncestors (items : ItemsById) (itemId : Uuid) :
    ℕ → List Uuid → Option Uuid → Except ItemRepositoryError Unit
  | _, _, none => .ok ()
  | 0, _, some _ => .error .internal
  | n + 1, visited, some ancestorId =>
    if ancestorId = itemId ∨ ancestorId ∈ visited then .error .hierarchyCycle
    else walkAncestors items itemId n (ancestorId :: visited)
      (items[ancestorId]?.bind Item.parentId)

def validateParent (items : ItemsById) (states : ExtTreeMap Uuid ItemCompletionState)
    (itemId : Uuid) (parentId : Option Uuid) : Except ItemRepositoryError Unit :=
  match parentId with
  | none => .ok ()
  | some parentId =>
    if parentId = itemId then .error .selfParent
    else do
      let parent ← (activeItem items parentId).okOr (.parentNotFound parentId)
      if parent.status.isExecutingState ∧ ¬ completionAllowsParent parent states then
        .error .invalidParentState
      else walkAncestors items itemId (items.size + 1) [] (some parentId)

/-- Checks what blocks an item. A deleted item still explains a block. -/
def validateBlockedBy (items : ItemsById) (blockedByItemId : Option Uuid) :
    Except ItemRepositoryError Unit :=
  match blockedByItemId with
  | none => .ok ()
  | some id => if id ∈ items then .ok () else .error (.blockedByItemNotFound id)

/-- Checks that an item with children is not executed. -/
def ensureLeafExecutable : Except ItemRepositoryError Unit :=
  if hasChildren ∧ item.status.isExecutingState ∧ ¬ completionAllowsParent item states then
    .error .nonLeafExecutable
  else .ok ()

/-! ### Writing items -/

def createMemory
    (context : IdempotencyContext) : Except ItemRepositoryError (MemoryState × ItemMutation) :=
  state.answerOnce context env.clock fun state =>
    if item.id ∈ state.items then .error (.duplicate item.id)
    else do
      validateParent state.items state.completionStates item.id item.parentId
      validateBlockedBy state.items item.blockedByItemId
      let item := item.marked false
      validateDependencyGraph (state.items.insert item.id item)
      let next ← state.write env.changeGroupId item.id item (.upsert item)
      let next ← refreshParents next [item.parentId] item.updatedAt env.changeGroupId
      return (next.remember context item, ⟨item, false⟩)

def replaceMemory : Except ItemRepositoryError (MemoryState × ItemMutation) :=
  state.answerOnce context env.clock fun state => do
    let current ← (activeItem state.items id).okOr (.notFound id)
    ensureRevision current expectedRevision
    let item ← (current.replaced services.rules replacement now).mapError
      invalidItem
    if current.status ≠ item.status ∧ (state.completionStates[id]?.any fun completion =>
        decide (completion.mode ≠ .automatic) || completion.provenance.isSome) then
      .error .invalidParentState
    else
      validateParent state.items state.completionStates id item.parentId
      validateBlockedBy state.items item.blockedByItemId
      let hasChildren := hasActiveChildren id state.items
      ensureLeafExecutable hasChildren item state.completionStates
      let item := item.marked hasChildren
      validateDependencyGraph (state.items.insert id item)
      let next ← state.write env.changeGroupId id item (.upsert item)
      let next ← refreshMoved next current item env.changeGroupId
      return (next.remember context item, ⟨item, false⟩)

def restoreMemory : Except ItemRepositoryError (MemoryState × ItemMutation) :=
  state.answerOnce context env.clock fun state => do
    let current ← (state.items[id]?.filter fun item => !item.isActive).okOr (.notFound id)
    ensureRevision current expectedRevision
    if current.parentId.any fun parentId => (activeItem state.items parentId).isNone then
      .error .deletedParent
    else
      let item ← (current.restored now).mapError invalidItem
      validateParent state.items state.completionStates id item.parentId
      let hasChildren := hasActiveChildren id state.items
      let item := item.marked hasChildren
      ensureLeafExecutable hasChildren item state.completionStates
      validateDependencyGraph (state.items.insert id item)
      let next ← state.write env.changeGroupId id item (.upsert item)
      let next ← refreshParents next [item.parentId] item.updatedAt env.changeGroupId
      return (next.remember context item, ⟨item, false⟩)

def trashMemory : Except ItemRepositoryError (MemoryState × ItemMutation) :=
  state.answerOnce context env.clock fun state => do
    let current ← (activeItem state.items id).okOr (.notFound id)
    ensureRevision current expectedRevision
    if hasActiveChildren id state.items then .error .hasChildren
    else
      let item ← (current.trashed now).mapError invalidItem
      let deletedAt ← item.deletedAt.okOr .internal
      let next ← state.write env.changeGroupId id item
        (.tombstone ⟨id, item.revision, deletedAt, item.parentId⟩)
      let next ← refreshParents next [item.parentId] item.updatedAt env.changeGroupId
      return (next.remember context item, ⟨item, false⟩)

/-! ### Completion -/

/-- The items that are being worked on. -/
def ExecutionSnapshot.evidence (execution : ExecutionSnapshot) :
    ItemCompletionExecutionEvidence where
  revision := execution.revision
  liveItemIds := ExtTreeSet.ofList (execution.activeSession.map ExecutionSession.itemId).toList

/-- Plans the completion of the items that are not deleted. -/
def completionMemoryPlan (execution : ExecutionSnapshot)
    (command : Option (Uuid × ItemCompletionCommand)) (now : DateTime) :
    Except ItemCompletionError ItemCompletionPlan :=
  planItemCompletion services.digest ((itemList state.items).filter Item.isActive)
    ((state.completionStates.toList.map Prod.snd).filter fun value =>
      (activeItem state.items value.itemId).isSome) execution.evidence command now

/-- The number of groups that are full, and the rows and bytes of the current one. -/
structure GroupFill where
  index : ℕ := 0
  count : ℕ := 0
  bytes : ℕ := 0

/-- The group for a row of the given size: a full group is followed by a new one. -/
def GroupFill.fit (fill : GroupFill) (size : ℕ) : GroupFill :=
  if fill.count = maxItemChangeGroupSize ∨ fill.bytes + size > maxItemChangeGroupPayloadBytes then
    ⟨fill.index + 1, 0, 0⟩
  else fill

/-- Whether what blocks an item is stored. -/
def blockerIsKnown (items : ItemsById) (blockedByItemId : Option Uuid) : Bool :=
  blockedByItemId.all fun id => decide (id ∈ items)

def applyEffect (groupIds : ℕ → Uuid) (s : MemoryState × GroupFill)
    (effect : ItemCompletionEffect) : Except ItemCompletionError (MemoryState × GroupFill) :=
  if ¬ blockerIsKnown s.1.items (effect.afterState.provenance.bind fun value =>
      value.reopen.blockedByItemId) ∨
      ¬ blockerIsKnown s.1.items effect.afterItem.blockedByItemId then
    .error .invalid
  else do
    let size ← (services.payloadSize (.upsert effect.afterItem)).okOr .unavailable
    if size > maxItemChangeGroupPayloadBytes then .error .tooLarge
    else
      let fill := s.2.fit size
      let state := { s.1 with completionStates :=
        s.1.completionStates.insert effect.afterState.itemId effect.afterState }
      let next ← (state.write (groupIds fill.index) effect.afterItem.id effect.afterItem
        (.upsert effect.afterItem)).mapError fun _ => ItemCompletionError.unavailable
      return ({ next with completionEffects := next.completionEffects ++ [effect] },
        ⟨fill.index, fill.count + 1, fill.bytes + size⟩)

def applyCompletionMemory (groupIds : ℕ → Uuid) (state : MemoryState)
    (plan : ItemCompletionPlan) : Except ItemCompletionError MemoryState := do
  let result ← plan.effects.foldlM (applyEffect services groupIds) (state, {})
  return result.1

/-- The failures of completion as failures of the repository. -/
def completionRepositoryError : ItemCompletionError → ItemRepositoryError
  | .tooLarge => .deltaGroupTooLarge
  | .reopeningReviewRequired | .occurrenceEvidenceRequired | .parentRequired => .invalidParentState
  | _ => .internal

/-- Carries out a command and the changes of completion that it leads to. The state is as
before if anything fails. -/
def mutateWithCompletion (mutation : MemoryState → ExecutionSnapshot →
      Except ItemRepositoryError (MemoryState × ItemMutation)) :
    MemoryState × Except ItemRepositoryError ItemMutation :=
  match state.replay context env.clock with
  | (state, some answer) => (state, answer)
  | (state, none) =>
    let outcome : Except ItemRepositoryError (MemoryState × ItemMutation) := do
      let execution ← env.execution.okOr (completionRepositoryError .unavailable)
      let (next, result) ← mutation state execution
      if result.replayed then return (state, result)
      else
        let plan ← (completionMemoryPlan services next execution none
          result.item.updatedAt).mapError completionRepositoryError
        let next ← (applyCompletionMemory services env.completionGroupIds next plan).mapError
          completionRepositoryError
        return (next, result)
    match outcome with
    | .ok (next, result) => (next, .ok result)
    | .error error => (state, .error error)

/-- Refuses a command that would take the item that is being worked on. -/
def ensureIdle (execution : ExecutionSnapshot) (conflicts : ExecutionSession → Bool) :
    Except ItemRepositoryError Unit :=
  match execution.activeSession with
  | none => .ok ()
  | some session =>
    if conflicts session then .error (.activeExecutionConflict session.itemId session.id)
    else .ok ()

/-- Whether a replacement may leave an item without work of its own. -/
def ItemFields.mayRemoveExecutableComponent (fields : ItemFields) : Bool :=
  !fields.kind.hasExecutableComponent
    ((fields.hasOwnEffort.or fields.flexibleConstraints.hasOwnEffort).getD false)

namespace MemoryState

variable (services : Services) (env : Surroundings) (state : MemoryState) (id : Uuid)
  (expectedRevision : UInt64) (replacement : ItemFields) (now : DateTime)
  (context : IdempotencyContext)

def create (item : Item)
    (context : IdempotencyContext) : MemoryState × Except ItemRepositoryError ItemMutation :=
  mutateWithCompletion services env state context fun state execution => do
    ensureIdle execution fun session => decide (item.parentId = some session.itemId)
    createMemory env state item context

def replace : MemoryState × Except ItemRepositoryError ItemMutation :=
  mutateWithCompletion services env state context fun state execution => do
    let current ← (activeItem state.items id).okOr (.notFound id)
    ensureRevision current expectedRevision
    let mayCloseSelf :=
      replacement.status.preventsExecution || replacement.mayRemoveExecutableComponent
    ensureIdle execution fun session => (mayCloseSelf && decide (session.itemId = id)) ||
      (decide (replacement.parentId ≠ current.parentId) &&
        decide (replacement.parentId = some session.itemId))
    replaceMemory services env state id expectedRevision replacement now context

def trash : MemoryState × Except ItemRepositoryError ItemMutation :=
  mutateWithCompletion services env state context fun state execution => do
    ensureIdle execution fun session => decide (session.itemId = id)
    trashMemory env state id expectedRevision now context

def restore : MemoryState × Except ItemRepositoryError ItemMutation :=
  mutateWithCompletion services env state context fun state execution => do
    let current ← (state.items[id]?.filter fun item => !item.isActive).okOr (.notFound id)
    ensureRevision current expectedRevision
    ensureIdle execution fun session => decide (current.parentId = some session.itemId)
    restoreMemory env state id expectedRevision now context

def putCompletion (itemId : Uuid) (command : ItemCompletionCommand) (now : DateTime) :
    MemoryState × Except ItemCompletionError ItemCompletionMutation :=
  match state.completionReceipts[command.operationId]? with
  | some (target, original, result) =>
    if target ≠ itemId ∨ original ≠ command then (state, .error .operationReused)
    else (state, .ok { result with replayed := true })
  | none =>
    let outcome : Except ItemCompletionError (MemoryState × ItemCompletionMutation) := do
      command.validate itemId
      let execution ← env.execution.okOr .unavailable
      let plan ← completionMemoryPlan services state execution (some (itemId, command)) now
      let next ← applyCompletionMemory services env.completionGroupIds state plan
      let settled ← completionMemoryPlan services next execution none now
      let completion ← settled.snapshots[itemId]?.okOr .itemMissing
      let result : ItemCompletionMutation := ⟨command.operationId, false, completion⟩
      return ({ next with completionReceipts :=
        next.completionReceipts.insert command.operationId (itemId, command, result) }, result)
    match outcome with
    | .ok (next, result) => (next, .ok result)
    | .error error => (state, .error error)

end MemoryState

/-! ### Runs -/

/-- A request of a client. -/
inductive ItemRequest where
  | create (id : Uuid) (input : ItemFields) (context : IdempotencyContext)
  | replace (id : Uuid) (expectedRevision : UInt64) (replacement : ItemFields)
      (context : IdempotencyContext)
  | trash (id : Uuid) (expectedRevision : UInt64) (context : IdempotencyContext)
  | restore (id : Uuid) (expectedRevision : UInt64) (context : IdempotencyContext)
  | putCompletion (itemId : Uuid) (command : ItemCompletionCommand)

/-- The state after a request at a time. What is created passes the rules on items first. -/
def MemoryState.handle (services : Services) (state : MemoryState)
    (request : ItemRequest × DateTime × Surroundings) : MemoryState :=
  let (request, now, env) := request
  match request with
  | .create id input context =>
    match Item.new services.rules id input now with
    | .ok item => (state.create services env item context).1
    | .error _ => state
  | .replace id expectedRevision replacement context =>
    (state.replace services env id expectedRevision replacement now context).1
  | .trash id expectedRevision context =>
    (state.trash services env id expectedRevision now context).1
  | .restore id expectedRevision context =>
    (state.restore services env id expectedRevision now context).1
  | .putCompletion itemId command => (state.putCompletion services env itemId command now).1

/-- The state after some requests, from an empty repository on. -/
def MemoryState.after (services : Services)
    (requests : List (ItemRequest × DateTime × Surroundings)) : MemoryState :=
  requests.foldl (MemoryState.handle services) {}

end DayWeave.Server
