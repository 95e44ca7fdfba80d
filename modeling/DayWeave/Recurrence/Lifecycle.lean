import DayWeave.Recurrence.Materialize

/-!
Lifecycle evidence for single occurrences.

The caller supplies, for some occurrences, the complete tree of their members with a status for
each. Each tree must match an occurrence that was generated in this horizon, its copies, the
current revisions of the items and the execution evidence. Only then do the copies take over the
statuses.
-/

open Std

namespace DayWeave

open Except (require)

/-- One member of the tree of an occurrence. -/
structure OccurrenceLifecycleMember where
  itemId : ItemId
  parentId : Option ItemId
  sourceRevision : UInt64
  status : WorkStatus

/-- The evidence about one occurrence. -/
structure OccurrenceLifecycleInstance where
  rootItemId : ItemId
  occurrenceId : OccurrenceId
  identity : RecurrenceOccurrenceIdentity
  members : List OccurrenceLifecycleMember

/-- A snapshot of the lifecycle evidence. -/
structure OccurrenceLifecycleContext where
  snapshotRevision : UInt64 := 0
  instances : List OccurrenceLifecycleInstance := []

inductive OccurrenceLifecycleError where
  | invalidSnapshotRevision
  | tooLarge (limit : ℕ)
  | invalidInstance (id : OccurrenceId)
  | duplicateInstance (id : OccurrenceId)
  | invalidMember (occurrenceId : OccurrenceId) (itemId : ItemId)
  | duplicateMember (occurrenceId : OccurrenceId) (itemId : ItemId)
  | invalidHierarchy (id : OccurrenceId)
  | occurrenceMismatch (id : OccurrenceId)
  | sourceMismatch (occurrenceId : OccurrenceId) (itemId : ItemId)
  | missingMember (occurrenceId : OccurrenceId) (itemId : ItemId)
  | executionConflict (occurrenceId : OccurrenceId) (itemId : ItemId)
deriving DecidableEq

/-- The members of one instance by identifier. -/
abbrev MemberMap := ExtTreeMap ItemId OccurrenceLifecycleMember

def maxRevision : UInt64 := 9223372036854775807

/-- The check of one member by itself. Active and paused work is known from
execution only. -/
def OccurrenceLifecycleMember.isValid (member : OccurrenceLifecycleMember) : Bool :=
  ¬ member.itemId.uuid.isNil ∧ ¬ member.parentId.any (fun id => id.uuid.isNil) ∧
    member.sourceRevision ≠ 0 ∧ member.sourceRevision ≤ maxRevision ∧
    member.status ≠ .active ∧ member.status ≠ .paused

variable (item : OccurrenceLifecycleInstance) (members : MemberMap)
  (s : ExtTreeMap ItemId ℕ × List ItemId)

/-- The number of children of every member; a parent outside the tree, or a second
member without a parent, is an error. -/
def countMembers : Except OccurrenceLifecycleError (ExtTreeMap ItemId ℕ) :=
  members.toList.foldlM (fun counts entry =>
    match entry.2.parentId with
    | some parent =>
      match counts[parent]? with
      | some count => .ok (counts.insert parent (count + 1))
      | none => .error (.invalidHierarchy item.occurrenceId)
    | none =>
      if entry.2.itemId = item.rootItemId then .ok counts
      else .error (.invalidHierarchy item.occurrenceId))
    (ExtTreeMap.ofList (members.keys.map fun id => (id, 0)))

/-- One member leaves the stack and its parent has one child less to wait for. -/
def memberTreeStep : Except OccurrenceLifecycleError (Option (ExtTreeMap ItemId ℕ × List ItemId)) :=
  match s.2 with
  | [] => .ok none
  | id :: rest =>
    let counts := s.1.erase id
    match (members[id]?).bind OccurrenceLifecycleMember.parentId with
    | none => .ok (some (counts, rest))
    | some parent =>
      match counts[parent]? with
      | none => .error (.invalidHierarchy item.occurrenceId)
      | some count =>
        .ok (some (counts.insert parent (count - 1),
          if count - 1 = 0 then parent :: rest else rest))

/-- The members form exactly one tree below the root. -/
def validateMemberTree : Except OccurrenceLifecycleError Unit := do
  require ((members[item.rootItemId]?).any fun root => root.parentId = none)
    (.invalidHierarchy item.occurrenceId)
  let counts ← countMembers item members
  let ready := (counts.toList.filter fun entry => entry.2 = 0).map Prod.fst
  let final ← Loop.runE (memberTreeStep item members) (members.size + 1) (counts, ready.reverse)
  require final.1.isEmpty (.invalidHierarchy item.occurrenceId)

/-- The members of one instance, checked. -/
def indexMembers : Except OccurrenceLifecycleError MemberMap := do
  let members ← item.members.foldlM (fun (members : MemberMap) member =>
    if ¬ member.isValid then .error (.invalidMember item.occurrenceId member.itemId)
    else if members.contains member.itemId then
      .error (.duplicateMember item.occurrenceId member.itemId)
    else .ok (members.insert member.itemId member)) ∅
  validateMemberTree item members
  .ok members

/-- The instances by occurrence, checked. -/
def indexContext (context : OccurrenceLifecycleContext) : Except OccurrenceLifecycleError
      (ExtTreeMap OccurrenceId (OccurrenceLifecycleInstance × MemberMap)) := do
  let limit := maxRecurrenceMaterializedItems
  require (context.snapshotRevision ≤ maxRevision ∧
    (context.snapshotRevision ≠ 0 ∨ context.instances = [])) .invalidSnapshotRevision
  require (context.instances.length ≤ limit ∧
    (context.instances.map fun item => item.members.length).sum ≤ limit) (.tooLarge limit)
  context.instances.foldlM (fun indexed item => do
    require (¬ item.rootItemId.uuid.isNil ∧ ¬ item.occurrenceId.uuid.isNil ∧
      item.members ≠ []) (.invalidInstance item.occurrenceId)
    let members ← indexMembers item
    if indexed.contains item.occurrenceId then .error (.duplicateInstance item.occurrenceId)
    else .ok (indexed.insert item.occurrenceId (item, members))) ∅

/-- The copies of an occurrence by original item. -/
def clonesOf (identities : IdentityMap) (id : OccurrenceId) :
    ExtTreeMap ItemId ItemId :=
  ExtTreeMap.ofList ((identities.toList.filter fun entry => entry.2.occurrenceId = id).map
    fun entry => (entry.2.seriesItemId, entry.1))

/-- The status of a member: a blocked template keeps open work blocked. -/
def memberStatus (item : WorkItem) (member : OccurrenceLifecycleMember) : WorkStatus :=
  if item.status = .blocked ∧ ¬ member.status.isTerminal then .blocked else member.status

/-- Whether the execution evidence about a member contradicts its status. -/
def conflictsWithExecution (unit : ExecutionWorkUnit) (member : OccurrenceLifecycleMember)
    (status : WorkStatus) : Bool :=
  (unit.reservations ≠ [] ∧ (status.isTerminal ∨ status = .blocked)) ∨
    (unit.disposition = some .skipped ∧ member.status ≠ .skipped)

variable (items : WorkMap) (execution : ExtTreeMap WorkIdentity ExecutionWorkUnit)
  (entry : OccurrenceLifecycleInstance) (clones : ExtTreeMap ItemId ItemId)

/-- Checks one member of an instance against its item and the execution evidence,
and records the status of its copy. -/
def projectMember (omittedParents : List ItemId)
    (statuses : ExtTreeMap ItemId WorkStatus) (member : OccurrenceLifecycleMember) :
    Except OccurrenceLifecycleError (ExtTreeMap ItemId WorkStatus) :=
  match items[member.itemId]? with
  | none => .ok statuses
  | some item =>
    let expectedParent := if member.itemId = entry.rootItemId then none else item.parentId
    match clones[member.itemId]? with
    | none => .error (.sourceMismatch entry.occurrenceId member.itemId)
    | some clone =>
      if item.revision ≠ member.sourceRevision ∨ member.parentId ≠ expectedParent ∨
          item.hasChildrenOutsidePlan ≠ decide (member.itemId ∈ omittedParents) then
        .error (.sourceMismatch entry.occurrenceId member.itemId)
      else
        let status := memberStatus item member
        if (execution[(⟨member.itemId, some entry.occurrenceId⟩ : WorkIdentity)]?).any
            fun unit => conflictsWithExecution unit member status then
          .error (.executionConflict entry.occurrenceId member.itemId)
        else .ok (statuses.insert clone status)

/-- Checks one instance against its occurrence and copies, and records the statuses
of the copies. -/
def projectInstance (materialized : MaterializedPlan) (statuses : ExtTreeMap ItemId WorkStatus)
    (indexed : OccurrenceId × (OccurrenceLifecycleInstance × MemberMap)) :
    Except OccurrenceLifecycleError (ExtTreeMap ItemId WorkStatus) := do
  let entry := indexed.2.1
  let members := indexed.2.2
  let matching := (materialized.occurrences.find? fun occurrence => occurrence.id = indexed.1).any
    fun occurrence => occurrence.seriesItemId = entry.rootItemId ∧
      occurrence.identity.same entry.identity ∧ occurrence.state = .generated
  let clones := clonesOf materialized.identities indexed.1
  require (matching ∧ ¬ clones.isEmpty) (.occurrenceMismatch indexed.1)
  Except.checkAll (fun id : ItemId =>
    require (members.contains id) (.missingMember indexed.1 id)) clones.keys
  let omittedParents := (members.values.filter fun member =>
    ¬ items.contains member.itemId).filterMap OccurrenceLifecycleMember.parentId
  members.values.foldlM (projectMember items execution entry clones omittedParents) statuses

/-- Gives the copies of the supplied occurrences their statuses. -/
def applyOccurrenceLifecycle (source : PlanRequest) (execution : ExecutionPlanningContext)
    (context : OccurrenceLifecycleContext) (materialized : MaterializedPlan) :
    Except OccurrenceLifecycleError MaterializedPlan := do
  let indexed ← indexContext context
  let units : ExtTreeMap WorkIdentity ExecutionWorkUnit :=
    ExtTreeMap.ofList (execution.workUnits.map fun unit => (unit.identity, unit))
  let statuses ← indexed.toList.foldlM
    (projectInstance (itemsById source.items) units materialized) ∅
  .ok { materialized with
    request := { materialized.request with
      items := materialized.request.items.map fun item =>
        { item with status := (statuses[item.id]?).getD item.status } } }

/-- The lifecycle changes the status of items and nothing else. -/
lemma applyOccurrenceLifecycle_ok {source : PlanRequest} {execution : ExecutionPlanningContext}
    {context : OccurrenceLifecycleContext} {materialized result : MaterializedPlan}
    (h : applyOccurrenceLifecycle source execution context materialized = .ok result) :
    ∃ status : WorkItem → WorkStatus, result = { materialized with
        request :=
          { materialized.request with
            items := materialized.request.items.map fun item =>
              { item with status := status item } } } := by
  simp only [applyOccurrenceLifecycle, Except.bind_eq_ok] at h
  obtain ⟨_, -, statuses, -, h⟩ := h
  exact ⟨fun item => (statuses[item.id]?).getD item.status, (Except.ok.inj h).symm⟩

end DayWeave
