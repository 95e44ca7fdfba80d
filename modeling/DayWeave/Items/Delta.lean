import DayWeave.Execution.Session
import DayWeave.Items.Item
import DayWeave.Lib.Groups

/-!
The change log of the items and its pages.

Every change is appended to a log under the next sequence number. The rows of one transaction
form a group, which a replica must receive whole. `delta` reads the next page after a cursor: as
many rows as are asked for, on to the end of a group, and back to the last end of a group or
single row at which the page is small enough.
-/

open Groups

namespace DayWeave.Server

def maxItemChangeGroupSize : ℕ := 300

def maxItemDeltaPagePayloadBytes : ℕ := 8 * 1024 * 1024

def maxItemChangeGroupPayloadBytes : ℕ := maxItemDeltaPagePayloadBytes

def usizeMax : ℕ := 2 ^ 64 - 1

def checkedAdd (a b : ℕ) : Option ℕ := if a + b ≤ usizeMax then some (a + b) else none

/-- What is told of a deleted item. -/
structure ItemTombstone where
  id : Uuid
  revision : UInt64
  deletedAt : DateTime
  parentId : Option Uuid
deriving DecidableEq

/-- A change of an item. -/
inductive DeltaChange where
  | upsert (item : Item)
  | tombstone (tombstone : ItemTombstone)
deriving DecidableEq

structure MemoryChange where
  sequence : UInt64
  changeGroupId : Option Uuid
  change : DeltaChange

structure ChangeLog where
  changes : List MemoryChange := []
  nextSequence : UInt64 := 0

structure ItemDeltaPage where
  changes : List DeltaChange
  watermark : UInt64
  hasMore : Bool
deriving DecidableEq

inductive ItemRepositoryError where
  | notFound (id : Uuid)
  | duplicate (id : Uuid)
  | revisionConflict (expected actual : UInt64)
  | parentNotFound (id : Uuid)
  | blockedByItemNotFound (id : Uuid)
  | dependencyNotFound (id : Uuid)
  | crossRecurringSubtreeDependency (successorId predecessorId : Uuid)
  | dependencyCycle
  | selfParent
  | hierarchyCycle
  | invalidParentState
  | nonLeafExecutable
  | activeExecutionConflict (itemId sessionId : Uuid)
  | hasChildren
  | deletedParent
  | idempotencyConflict
  | invalidCursor
  | deltaGroupTooLarge
  | invalidItem (error : ItemDomainError)
  | internal
deriving DecidableEq

variable (changeGroupIds : List (Option Uuid)) (payloadSizes : List ℕ) (requestedLimit : ℕ)

/-- The largest number of rows of a page for which some number of rows is asked. -/
def maxExpandedDeltaPageSize : Except ItemRepositoryError ℕ :=
  if requestedLimit = 0 then .error .internal
  else (checkedAdd requestedLimit (maxItemChangeGroupSize - 1)).okOr .internal

/-- The number of rows up to the end of the group that the last row asked for is in. -/
def atomicDeltaPrefixLen : Except ItemRepositoryError ℕ := do
  let maximumPage ← maxExpandedDeltaPageSize requestedLimit
  if changeGroupIds.length ≤ requestedLimit then .ok changeGroupIds.length
  else
    match (changeGroupIds[requestedLimit - 1]?).join with
    | none => .ok requestedLimit
    | some boundaryGroupId =>
      let groupStart := requestedLimit -
        run (some boundaryGroupId) (changeGroupIds.take requestedLimit).reverse
      let groupEnd := requestedLimit +
        run (some boundaryGroupId) (changeGroupIds.drop requestedLimit)
      if groupEnd - groupStart > maxItemChangeGroupSize ∨ groupEnd > maximumPage then
        .error .deltaGroupTooLarge
      else .ok groupEnd

/-- The groups that are past, the current one, and its rows and bytes so far. -/
structure GroupScan where
  completed : List Uuid := []
  currentGroupId : Option Uuid := none
  currentCount : ℕ := 0
  currentPayloadBytes : ℕ := 0

/-- The check of a group at its end. -/
def finishGroup (groupId : Option Uuid) (count payloadBytes : ℕ) :
    Except ItemRepositoryError Unit :=
  if groupId.isSome ∧
      (count > maxItemChangeGroupSize ∨ payloadBytes > maxItemChangeGroupPayloadBytes) then
    .error .deltaGroupTooLarge
  else .ok ()

/-- Ends the current group if a row does not belong to it. -/
def GroupScan.enter (scan : GroupScan) (groupId : Option Uuid) :
    Except ItemRepositoryError GroupScan :=
  if groupId = scan.currentGroupId then .ok scan
  else do
    finishGroup scan.currentGroupId scan.currentCount scan.currentPayloadBytes
    let completed := scan.currentGroupId.toList ++ scan.completed
    if groupId.any fun id => decide (id ∈ completed) then .error .internal
    else .ok ⟨completed, groupId, 0, 0⟩

def GroupScan.row (scan : GroupScan) (row : Option Uuid × ℕ) :
    Except ItemRepositoryError GroupScan := do
  let scan ← scan.enter row.1
  if row.1.isSome then do
    let count ← (checkedAdd scan.currentCount 1).okOr .internal
    let bytes ← (checkedAdd scan.currentPayloadBytes row.2).okOr .internal
    return { scan with currentCount := count, currentPayloadBytes := bytes }
  else return scan

/-- Checks that every group stands together and is not too large. -/
def validateAtomicDeltaGroups : Except ItemRepositoryError Unit :=
  if changeGroupIds.length ≠ payloadSizes.length then .error .internal
  else do
    let scan ← (changeGroupIds.zip payloadSizes).foldlM GroupScan.row {}
    finishGroup scan.currentGroupId scan.currentCount scan.currentPayloadBytes

/-- The number of rows of the first unit: a row without a group, or a whole group. -/
def unitLen : List (Option Uuid) → ℕ
  | [] => 0
  | none :: _ => 1
  | some groupId :: rest => run (some groupId) rest + 1

/-- The units that fit on a page, in rows. A round takes at least one row, so that as many
rounds as there are rows are enough. -/
def selectUnits : ℕ → List (Option Uuid) → List ℕ → ℕ → ℕ → Except ItemRepositoryError ℕ
  | 0, _, _, selected, _ => .ok selected
  | rounds + 1, changeGroupIds, payloadSizes, selected, selectedPayloadBytes =>
    if changeGroupIds = [] then .ok selected
    else do
      let unitEnd := unitLen changeGroupIds
      let unitPayloadBytes ← ((payloadSizes.take unitEnd).foldlM checkedAdd 0).okOr .internal
      if unitPayloadBytes > maxItemDeltaPagePayloadBytes then .error .deltaGroupTooLarge
      else do
        let nextPayloadBytes ← (checkedAdd selectedPayloadBytes unitPayloadBytes).okOr .internal
        if nextPayloadBytes > maxItemDeltaPagePayloadBytes then .ok selected
        else
          selectUnits rounds (changeGroupIds.drop unitEnd) (payloadSizes.drop unitEnd)
            (selected + unitEnd) nextPayloadBytes

def deliveryBoundedDeltaPrefixLen : Except ItemRepositoryError ℕ :=
  if changeGroupIds.length ≠ payloadSizes.length then .error .internal
  else do
    let countPrefix ← atomicDeltaPrefixLen changeGroupIds requestedLimit
    validateAtomicDeltaGroups (changeGroupIds.take countPrefix) (payloadSizes.take countPrefix)
    let selected ← selectUnits countPrefix (changeGroupIds.take countPrefix)
      (payloadSizes.take countPrefix) 0 0
    if countPrefix > 0 ∧ selected = 0 then .error .deltaGroupTooLarge else .ok selected

section

variable (payloadSize : DeltaChange → Option ℕ)

/-- Checks that a group is selected whole, stands together in the whole log, and is not too
large. -/
def validateMemoryGroup (allChanges selectedChanges : List MemoryChange) (groupId : Uuid) :
    Except ItemRepositoryError Unit := do
  let selectedCount := (selectedChanges.map MemoryChange.changeGroupId).count (some groupId)
  let matching := allChanges.zipIdx.filter fun entry => entry.1.changeGroupId = some groupId
  let sizes ← (matching.mapM fun entry => payloadSize entry.1.change).okOr .internal
  let payloadBytes ← (sizes.foldlM checkedAdd 0).okOr .internal
  if matching.length > maxItemChangeGroupSize ∨ payloadBytes > maxItemChangeGroupPayloadBytes then
    .error .deltaGroupTooLarge
  else
    let contiguous := matching.head?.any fun first => matching.getLast?.any fun last =>
      decide (last.2 - first.2 + 1 = matching.length)
    if matching.length ≠ selectedCount ∨ ¬ contiguous then .error .internal else .ok ()

def validateMemoryGroupCompleteness (allChanges selectedChanges : List MemoryChange) :
    Except ItemRepositoryError Unit :=
  Except.checkAll (validateMemoryGroup payloadSize allChanges selectedChanges)
    (selectedChanges.filterMap MemoryChange.changeGroupId).dedup

def ChangeLog.delta (log : ChangeLog) (after : UInt64) (limit : ℕ) :
    Except ItemRepositoryError ItemDeltaPage :=
  if after > log.nextSequence then .error .invalidCursor
  else
    -- the log is sorted, so that the binary search of the source ends here
    let firstIndex := (log.changes.takeWhile fun change => decide (change.sequence ≤ after)).length
    let groupAt := fun index => (log.changes[index]?).bind MemoryChange.changeGroupId
    if 0 < firstIndex ∧ firstIndex < log.changes.length ∧ (groupAt firstIndex).isSome ∧
        groupAt firstIndex = groupAt (firstIndex - 1) then
      .error .invalidCursor
    else do
      let fetchLimit ← (checkedAdd limit maxItemChangeGroupSize).okOr .internal
      let available := log.changes.drop firstIndex
      let candidates := available.take fetchLimit
      let groupIds := candidates.map MemoryChange.changeGroupId
      let payloadSizes ← (candidates.mapM fun change => payloadSize change.change).okOr .internal
      let selectedCount ← deliveryBoundedDeltaPrefixLen groupIds payloadSizes limit
      validateMemoryGroupCompleteness payloadSize log.changes (candidates.take selectedCount)
      return {
        changes := (candidates.take selectedCount).map MemoryChange.change
        watermark := ((candidates[selectedCount - 1]?).map MemoryChange.sequence).getD after
        hasMore := available.length > selectedCount }

/-- Reads pages until there are no more, at most `calls` of them; the `k`-th call asks for
`limits k` rows. -/
def ChangeLog.readPages (log : ChangeLog) (limits : ℕ → ℕ) :
    (calls k : ℕ) → (after : UInt64) → Except ItemRepositoryError (List ItemDeltaPage)
  | 0, _, _ => .ok []
  | calls + 1, k, after => do
    let page ← log.delta payloadSize after (limits k)
    if page.hasMore then do
      let rest ← readPages log limits calls (k + 1) page.watermark
      return page :: rest
    else return [page]

end

end DayWeave.Server
