import DayWeave.Domain.Identity
import DayWeave.Lib.Postorder

/-!
Completion of a work tree.

`evaluateHierarchyCompletion` decides the status of every node from below. A node completes when
all of its required descendants are completed and reopens when that is no longer so; a manual
override keeps it open or completes it. Recurring nodes, and everything below them, are left
alone unless the forest is the tree of one occurrence.
-/

open Std

namespace DayWeave

/-- The recorded lifecycle of a node. -/
inductive HierarchyProgressStatus where
  | inbox
  | planned
  | scheduled
  | inProgress
  | paused
  | completed
  | skipped
  | cancelled
  | blocked
deriving DecidableEq

/-- The policy of a node. -/
inductive HierarchyCompletionOverride where
  | automatic
  | keepOpen
  | complete
deriving DecidableEq

/-- How a node came to be completed, with the status to reopen it to. -/
inductive HierarchyCompletionProvenance where
  | automatic (priorOpenStatus : HierarchyProgressStatus)
  | manual (priorOpenStatus : HierarchyProgressStatus)
deriving DecidableEq

def HierarchyCompletionProvenance.priorOpenStatus :
    HierarchyCompletionProvenance → HierarchyProgressStatus
  | .automatic priorOpenStatus | .manual priorOpenStatus => priorOpenStatus

/-- Whether a forest is evaluated as it is, or as one occurrence of its recurring root. -/
inductive HierarchyCompletionScope where
  | oneOff
  | occurrence (rootId : ItemId) (occurrenceId : OccurrenceId)

/-- A node of the forest. -/
structure HierarchyCompletionItem where
  id : ItemId
  parentId : Option ItemId
  status : HierarchyProgressStatus
  requiredForParent : Bool
  recurs : Bool
  hasChildrenOutsidePlan : Bool
  manualOverride : HierarchyCompletionOverride
  provenance : Option HierarchyCompletionProvenance
deriving DecidableEq

/-- How far the required descendants of a node are. -/
inductive HierarchyCompletionReadiness where
  | noRequiredDescendants
  | requiredDescendantsIncomplete
  | occurrenceEvidenceRequired
  | allRequiredDescendantsCompleted
deriving DecidableEq

/-- What a decision does to a node. -/
inductive HierarchyCompletionAction where
  | unchanged
  | occurrenceEvidenceRequired
  | automaticallyCompleted
  | automaticallyReopened
  | manuallyCompleted
  | manuallyKeptOpen
  | manualCompletionReleased
deriving DecidableEq

/-- The required descendants of a node, in all and by their decided state. -/
structure HierarchyCompletionCounts where
  requiredDescendants : UInt64 := 0
  completed : UInt64 := 0
  incomplete : UInt64 := 0
  occurrenceEvidenceRequired : UInt64 := 0

/-- What is decided about a node. -/
structure HierarchyCompletionDecision where
  status : HierarchyProgressStatus
  provenance : Option HierarchyCompletionProvenance
  action : HierarchyCompletionAction
  readiness : HierarchyCompletionReadiness
  counts : HierarchyCompletionCounts
  occurrenceEvidenceRequired : Bool

/-- What is decided about every node. -/
abbrev Decisions := ItemId → HierarchyCompletionDecision

instance : Inhabited HierarchyCompletionDecision :=
  ⟨⟨.inbox, none, .unchanged, .noRequiredDescendants, {}, false⟩⟩

/-- The decisions about all nodes. -/
structure HierarchyCompletionEvaluation where
  scope : HierarchyCompletionScope
  decisions : ExtTreeMap ItemId HierarchyCompletionDecision

inductive HierarchyCompletionError where
  | invalidId
  | duplicateItem (id : ItemId)
  | missingParent (item parent : ItemId)
  | cycle (id : ItemId)
  | incompleteTopology (id : ItemId)
  | invalidProvenance (id : ItemId)
  | missingPriorOpenStatus (id : ItemId)
  | ambiguousTerminalParent (id : ItemId)
  | invalidOccurrenceScope
  | overflow (id : ItemId)

/-- Whether a status leaves work to do. -/
def HierarchyProgressStatus.isOpen : HierarchyProgressStatus → Bool
  | .inbox | .planned | .scheduled | .inProgress | .paused | .blocked => true
  | .completed | .skipped | .cancelled => false

def checkedAdd64 (a b : UInt64) : Option UInt64 :=
  if a.toNat + b.toNat < UInt64.size then some (a + b) else none

/-- The counts of the branch of a decided node, itself included. -/
def HierarchyCompletionDecision.branchCounts (child : HierarchyCompletionDecision) :
    Option HierarchyCompletionCounts := do
  let requiredDescendants ← checkedAdd64 child.counts.requiredDescendants 1
  let branch := { child.counts with requiredDescendants := requiredDescendants }
  if child.occurrenceEvidenceRequired then
    let count ← checkedAdd64 branch.occurrenceEvidenceRequired 1
    return { branch with occurrenceEvidenceRequired := count }
  else if child.status = .completed then
    let count ← checkedAdd64 branch.completed 1
    return { branch with completed := count }
  else
    let count ← checkedAdd64 branch.incomplete 1
    return { branch with incomplete := count }

/-- Adds the branch of a required child. -/
def HierarchyCompletionCounts.addBranch (self : HierarchyCompletionCounts)
    (child : HierarchyCompletionDecision) : Option HierarchyCompletionCounts := do
  let branch ← child.branchCounts
  let requiredDescendants ← checkedAdd64 self.requiredDescendants branch.requiredDescendants
  let completed ← checkedAdd64 self.completed branch.completed
  let incomplete ← checkedAdd64 self.incomplete branch.incomplete
  let evidence ← checkedAdd64 self.occurrenceEvidenceRequired branch.occurrenceEvidenceRequired
  -- the total also fits the signed integers of other platforms
  if requiredDescendants.toNat ≤ 9223372036854775807 then
    some ⟨requiredDescendants, completed, incomplete, evidence⟩
  else none

variable (byId : ExtTreeMap ItemId HierarchyCompletionItem) (item : HierarchyCompletionItem)

/-- Adds one node. Its identifier is not nil and not taken, all of its children are there,
and it has a provenance only if it is completed, with an open status to reopen to. -/
def indexItem : Except HierarchyCompletionError (ExtTreeMap ItemId HierarchyCompletionItem) :=
  if item.id.uuid.isNil ∨ item.parentId.any fun parent => parent.uuid.isNil then
    .error .invalidId
  else if byId.contains item.id then .error (.duplicateItem item.id)
  else if item.hasChildrenOutsidePlan then .error (.incompleteTopology item.id)
  else if item.provenance.any fun provenance =>
      item.status ≠ .completed || !provenance.priorOpenStatus.isOpen then
    .error (.invalidProvenance item.id)
  else .ok (byId.insert item.id item)

def indexItems (items : List HierarchyCompletionItem) :
    Except HierarchyCompletionError (ExtTreeMap ItemId HierarchyCompletionItem) :=
  items.foldlM indexItem ∅

def parentMap : ExtTreeMap ItemId (Option ItemId) :=
  byId.map fun _ item => item.parentId

/-- The nodes, children before parents. -/
def completePostorder : Except HierarchyCompletionError (List ItemId) :=
  Postorder.order .missingParent .cycle (parentMap byId)

/-- The recurring root whose occurrence is evaluated, if there is one. -/
def validateScope : HierarchyCompletionScope → Except HierarchyCompletionError (Option ItemId)
  | .oneOff => .ok none
  | .occurrence rootId occurrenceId =>
    if rootId.uuid.isNil ∨ occurrenceId.uuid.isNil then .error .invalidId
    else if (byId[rootId]?.any fun root => root.recurs && root.parentId.isNone) ∧
        ¬ (byId.toList.map Prod.snd).any fun item => item.parentId.isNone && item.id ≠ rootId then
      .ok (some rootId)
    else .error .invalidOccurrenceScope

/-- How far the required descendants of a node are. -/
def readinessOf (counts : HierarchyCompletionCounts) (occurrenceEvidenceRequired : Bool) :
    HierarchyCompletionReadiness :=
  if occurrenceEvidenceRequired ∨ counts.occurrenceEvidenceRequired ≠ 0 then
    .occurrenceEvidenceRequired
  else if counts.requiredDescendants = 0 then .noRequiredDescendants
  else if counts.incomplete ≠ 0 then .requiredDescendantsIncomplete
  else .allRequiredDescendantsCompleted

/-- The open status of a node, or the one to reopen it to. -/
def HierarchyCompletionItem.prior : Option HierarchyProgressStatus :=
  (item.provenance.map HierarchyCompletionProvenance.priorOpenStatus).or
    (if item.status.isOpen then some item.status else none)

/-- Decides one node, given the counts of its required descendants. -/
def decideItem (counts : HierarchyCompletionCounts)
    (occurrenceEvidenceRequired hasChildren : Bool) :
    Except HierarchyCompletionError HierarchyCompletionDecision :=
  let readiness := readinessOf counts occurrenceEvidenceRequired
  let decision : HierarchyCompletionDecision :=
    { status := item.status
      provenance := item.provenance
      action := .unchanged
      readiness := readiness
      counts := counts
      occurrenceEvidenceRequired := occurrenceEvidenceRequired }
  if occurrenceEvidenceRequired then
    .ok { decision with action := .occurrenceEvidenceRequired }
  else if hasChildren ∧ ¬ item.status.isOpen ∧ item.provenance = none ∧
      item.manualOverride = .automatic then
    .error (.ambiguousTerminalParent item.id)
  else
    match item.manualOverride with
    | .automatic =>
      if readiness = .allRequiredDescendantsCompleted then
        match item.prior with
        | none => .ok decision
        | some priorOpenStatus =>
          let provenance := some (.automatic priorOpenStatus)
          .ok { decision with
            status := .completed
            provenance := provenance
            action :=
              if item.status ≠ .completed ∨ item.provenance ≠ provenance then
                .automaticallyCompleted
              else .unchanged }
      else
        match item.provenance with
        | none => .ok decision
        | some provenance =>
          .ok { decision with
            status := provenance.priorOpenStatus
            provenance := none
            action :=
              match provenance with
              | .automatic _ => .automaticallyReopened
              | .manual _ => .manualCompletionReleased }
    | .keepOpen =>
      match item.prior with
      | none => .error (.missingPriorOpenStatus item.id)
      | some prior =>
        .ok { decision with
          status := prior
          provenance := none
          action :=
            if prior ≠ item.status ∨ item.provenance.isSome then .manuallyKeptOpen
            else .unchanged }
    | .complete =>
      match item.prior with
      | none => .error (.missingPriorOpenStatus item.id)
      | some priorOpenStatus =>
        let provenance := some (.manual priorOpenStatus)
        .ok { decision with
          status := .completed
          provenance := provenance
          action :=
            if .completed ≠ item.status ∨ provenance ≠ item.provenance then .manuallyCompleted
            else .unchanged }

variable (qualifiedRoot : Option ItemId) (unproven : ExtTreeMap ItemId Bool)

/-- Flags a node that needs evidence of its own occurrence: it recurs without being the root
of the occurrence, or its parent needs such evidence. -/
def flagUnproven (id : ItemId) : ExtTreeMap ItemId Bool :=
  match byId[id]? with
  | none => unproven
  | some item =>
    unproven.insert id ((item.recurs && decide (qualifiedRoot ≠ some id)) ||
      item.parentId.any fun parent => unproven.getD parent false)

/-- The flags of all nodes, parents before children. -/
def unprovenFlags (postorder : List ItemId) : ExtTreeMap ItemId Bool :=
  postorder.reverse.foldl (flagUnproven byId qualifiedRoot) ∅

/-- The parent that a node is required for, if there is one. -/
def HierarchyCompletionItem.requiredParent : Option ItemId :=
  if item.requiredForParent then item.parentId else none

/-- Adds the branch of a decided node to the counts of the parent that it is required for. -/
def addToParent (counts : ExtTreeMap ItemId HierarchyCompletionCounts)
    (item : HierarchyCompletionItem) (decision : HierarchyCompletionDecision) :
    Except HierarchyCompletionError (ExtTreeMap ItemId HierarchyCompletionCounts) :=
  match item.requiredParent with
  | none => .ok counts
  | some parent =>
    match (counts[parent]?).bind fun counts => counts.addBranch decision with
    | some total => .ok (counts.insert parent total)
    | none => .error (.overflow parent)

/-- Decides one node, given the counts and decisions so far. -/
def evaluateNode (parents : List ItemId)
    (s : ExtTreeMap ItemId HierarchyCompletionCounts ×
      ExtTreeMap ItemId HierarchyCompletionDecision)
    (id : ItemId) :
    Except HierarchyCompletionError (ExtTreeMap ItemId HierarchyCompletionCounts ×
        ExtTreeMap ItemId HierarchyCompletionDecision) :=
  match byId[id]? with
  | none => .ok s
  | some item => do
    let decision ← decideItem item (s.1.getD id {}) (unproven.getD id false) (decide (id ∈ parents))
    let counts ← addToParent s.1 item decision
    return (counts, s.2.insert id decision)

/-- Decides all nodes, children before parents. -/
def evaluateHierarchyCompletion (items : List HierarchyCompletionItem)
    (scope : HierarchyCompletionScope) :
    Except HierarchyCompletionError HierarchyCompletionEvaluation := do
  let byId ← indexItems items
  let postorder ← completePostorder byId
  let parents := byId.toList.filterMap fun entry => entry.2.parentId
  let qualifiedRoot ← validateScope byId scope
  let unproven := unprovenFlags byId qualifiedRoot postorder
  let final ← postorder.foldlM (evaluateNode byId unproven parents) (byId.map fun _ _ => {}, ∅)
  return ⟨scope, final.2⟩

end DayWeave
