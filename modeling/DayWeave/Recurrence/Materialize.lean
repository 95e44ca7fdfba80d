import DayWeave.Recurrence.Moves

/-!
The materialisation of recurrences.

The subtree of a recurring root is copied for each generated occurrence; the copies get
identifiers derived from the original and the occurrence, the window of the occurrence, and
dependencies rewritten to the copies. Recorded partial progress replaces the duration of the
copied root.
-/

open Std

namespace DayWeave

open Except (bind_eq_ok checkAll require)

/-! ### Recurring subtrees -/

namespace RootSearch

/-- The stack of items to visit, each with whether an ancestor recurs, and the
roots found. -/
structure State where
  pending : List (ItemId × Bool)
  roots : Finset ItemId

/-- Visits the item on top of the stack. -/
def step (byId : WorkMap) (children : ChildMap) (s : State) : Option State :=
  match s.pending with
  | [] => none
  | (id, hasRecurringAncestor) :: rest =>
    let recurs := ((byId[id]?).bind recurrenceOf).isSome
    let below := ((children[id]?).getD []).map fun child => (child, hasRecurringAncestor || recurs)
    some ⟨below.reverse ++ rest,
      if recurs ∧ ¬ hasRecurringAncestor then insert id s.roots else s.roots⟩

end RootSearch

def recurrenceRoots (items : List WorkItem) (byId : WorkMap) (children : ChildMap) : List ItemId :=
  let tops := (items.filter fun item => item.parentId = none).map fun item => (item.id, false)
  let final := Loop.run (RootSearch.step byId children) items.length ⟨tops.reverse, ∅⟩
  (items.filter fun item => item.id ∈ final.roots).map WorkItem.id

variable (env : Externals) (request : PlanRequest) (byId : WorkMap) (children : ChildMap)
  (occurrences : List Occurrence)

/-- One round of the walk through a subtree: the stack and the items visited. -/
def subtreeStep (s : List ItemId × List ItemId) : Option (List ItemId × List ItemId) :=
  match s.1 with
  | [] => none
  | id :: rest => some (((children[id]?).getD []) ++ rest, s.2 ++ [id])

/-- The items of a subtree, parents first, siblings by ascending identifier; `size`
bounds their number. -/
def collectSubtree (size : ℕ) (children : ChildMap) (root : ItemId) :
    List ItemId :=
  (Loop.run (subtreeStep children) size ([root], [])).2

variable (root : ItemId) (subtree : List ItemId) (spacing : Minutes)
  (firstLeaf previousFirstLeaf : Option ItemId) (occurrence : Occurrence) (original : WorkItem)

/-- The items of a subtree that occupy time, by sibling order. -/
def subtreeLeaves : List ItemId :=
  let leaves := (subtree.filterMap fun id => byId[id]?).filter fun item =>
    item.occupiesTime (((children[item.id]?).getD []).any fun child => child ∈ subtree)
  (sortBy (compareLex (compareOn fun item : WorkItem => (item.siblingOrder.getD 4294967295).toNat)
    (compareOn WorkItem.id)) leaves).map WorkItem.id

/-! ### Expansion of all series -/

/-- The occurrences of one recurring root, in their final windows and states. -/
def expandRoot (days : List ZonedDayBoundary)
    (item : WorkItem) : Except RecurrenceError (List Occurrence) :=
  match recurrenceOf item with
  | none => .ok []
  | some recurrence => do
    let generated ← expandSeries env request item recurrence days
    let moved ← appendMovedOccurrencesForHorizon env request item recurrence generated
    .ok (applyPausesAndExceptions request item.id moved)

/-- Partial progress has a valid shape: between one and 9999 basis points, a bounded
duration, and a remainder within it. -/
def RecurrencePartialProgress.isValid (progress : RecurrencePartialProgress) : Bool :=
  1 ≤ progress.progressBasisPoints ∧ progress.progressBasisPoints < 10000 ∧
    progress.expectedDurationMinutes ≠ 0 ∧
    progress.expectedDurationMinutes ≤ maxDependencyLagMinutes ∧
    progress.remainingDurationMinutes.all fun remaining =>
      remaining ≠ 0 ∧ remaining ≤ progress.expectedDurationMinutes ∧
        remaining ≤ maxDependencyLagMinutes

/-- Partial progress is about an open occurrence of a habit. -/
def partialProgressBinds (id : OccurrenceId) : Bool :=
  (occurrences.find? fun occurrence => occurrence.id = id).any fun occurrence =>
    (occurrence.state = .generated ∨ occurrence.state = .paused) ∧
      (byId[occurrence.seriesItemId]?).any fun item =>
        match item.kind with
        | .habit _ => true
        | _ => false

/-- Occurrences by nominal start, series, ordinal and identifier. -/
def sortOccurrences : List Occurrence :=
  sortBy (compareLex (compareOn Occurrence.nominalStart)
    (compareLex (compareOn Occurrence.seriesItemId)
      (compareLex (compareOn Occurrence.ordinal) (compareOn Occurrence.id)))) occurrences

/-- Expands all series; the hierarchy has been checked before. -/
def expandOccurrencesValidated : Except RecurrenceError (List Occurrence) := do
  validateRecurrenceContext request
  let days ← resolvedDays request
  let byId := itemsById request.items
  let roots := recurrenceRoots request.items byId (childMap request.items)
  checkAll (fun exception : RecurrenceException =>
    require (exception.action = .skip ∨ exception.itemId ∈ roots)
      (.invalidException exception.itemId)) request.recurrenceContext.exceptions
  let series ← (roots.filterMap fun root => byId[root]?).mapM (expandRoot env request days)
  let occurrences := series.flatten
  match firstDuplicate ∅ (occurrences.map Occurrence.id) with
  | some id => .error (.duplicateOccurrence id)
  | none => do
    checkAll (fun entry : OccurrenceId × RecurrencePartialProgress =>
      require (entry.2.isValid ∧ partialProgressBinds byId occurrences entry.1)
        (.invalidPartialProgress entry.1)) request.recurrenceContext.partialProgress.toList
    .ok (sortOccurrences occurrences)

def rootItems : List WorkItem :=
  (recurrenceRoots request.items (itemsById request.items) (childMap request.items)).filterMap
    fun root => (itemsById request.items)[root]?

lemma expandOccurrencesValidated_eq_ok {env : Externals} {request : PlanRequest}
    {occurrences : List Occurrence} : expandOccurrencesValidated env request = .ok occurrences ↔
      ∃ days series, validateRecurrenceContext request = .ok () ∧ resolvedDays request = .ok days ∧
        (∀ exception ∈ request.recurrenceContext.exceptions, exception.action = .skip ∨
          exception.itemId ∈ recurrenceRoots request.items (itemsById request.items)
            (childMap request.items)) ∧
        (rootItems request).mapM (expandRoot env request days) = .ok series ∧
        (series.flatten.map Occurrence.id).Nodup ∧
        (∀ entry ∈ request.recurrenceContext.partialProgress.toList, entry.2.isValid ∧
          partialProgressBinds (itemsById request.items) series.flatten entry.1) ∧
        occurrences = sortOccurrences series.flatten := by
  simp only [expandOccurrencesValidated, bind_eq_ok, Except.checkAll_eq_ok, Except.require_eq_ok,
    exists_const]
  constructor
  · rintro ⟨⟨⟩, hctx, days, hdays, hmvs, series, hser, hrest⟩
    split at hrest
    · cases hrest
    · rename_i hfst
      simp only [bind_eq_ok, Except.checkAll_eq_ok, Except.require_eq_ok, exists_const] at hrest
      exact ⟨days, series, hctx, hdays, hmvs, hser, nodup_of_firstDuplicate hfst, hrest.1,
        (Except.ok.inj hrest.2).symm⟩
  · rintro ⟨days, series, hctx, hdays, hmvs, hser, hnd, hprog, rfl⟩
    refine ⟨(), hctx, days, hdays, hmvs, series, hser, ?_⟩
    rw [firstDuplicate_eq_none.mpr ⟨hnd, by simp⟩]
    simp only [bind_eq_ok, Except.checkAll_eq_ok, Except.require_eq_ok, exists_const]
    exact ⟨hprog, trivial⟩

/-- A request that passes the checks fails where its first root fails. -/
lemma expandOccurrencesValidated_eq_error {env : Externals} {request : PlanRequest}
    {days : List ZonedDayBoundary} {e : RecurrenceError}
    (hctx : validateRecurrenceContext request = .ok ())
    (hdays : resolvedDays request = .ok days)
    (hmvs : ∀ exception ∈ request.recurrenceContext.exceptions, exception.action = .skip ∨
      exception.itemId ∈ recurrenceRoots request.items (itemsById request.items)
        (childMap request.items))
    (h : (rootItems request).mapM (expandRoot env request days) = .error e) :
    expandOccurrencesValidated env request = .error e := by
  refine Except.bind_eq_error.mpr (.inr ⟨(), hctx, Except.bind_eq_error.mpr (.inr ⟨days, hdays,
    Except.bind_eq_error.mpr (.inr ⟨(), ?_, Except.bind_eq_error.mpr (.inl h)⟩)⟩)⟩)
  exact Except.checkAll_eq_ok.mpr fun exception hexc =>
    Except.require_eq_ok.mpr (hmvs exception hexc)

/-- Expands all series of a request. -/
def expandOccurrences : Except RecurrenceError (List Occurrence) :=
  match rollUpExpectedDurations request.items with
  | .error error => .error (.invalidHierarchy error)
  | .ok _ => expandOccurrencesValidated env request

/-! ### Copies -/

/-- The largest number of items after materialisation. -/
def maxRecurrenceMaterializedItems : ℕ := 10000

/-- The public name of a copy. -/
structure MaterializedIdentity where
  seriesItemId : ItemId
  occurrenceId : OccurrenceId

/-- The public names of copies. -/
abbrev IdentityMap := ExtTreeMap ItemId MaterializedIdentity

/-- The request after materialisation, with the occurrences and the public names
of the copies. -/
structure MaterializedPlan where
  request : PlanRequest
  occurrences : List Occurrence
  identities : IdentityMap

/-- The number of items after materialisation, given the number of items kept and
the size and number of copies of every recurring subtree. -/
def checkedMaterializedItemCount (retained : ℕ) (subtrees : List (ℕ × ℕ)) :
    Except RecurrenceError ℕ :=
  let limit := maxRecurrenceMaterializedItems
  if limit < retained then .error (.materializedItemLimitExceeded limit)
  else
    subtrees.foldlM (fun total entry =>
      if total + entry.1 * entry.2 ≤ limit then .ok (total + entry.1 * entry.2)
      else .error (.materializedItemLimitExceeded limit)) retained

/-- The minutes left of a partly finished occurrence: the recorded remainder, or
the unfinished part of the expected duration, rounded up. -/
def partialRemainingMinutes (id : OccurrenceId) (progress : RecurrencePartialProgress) :
    Except RecurrenceError Minutes :=
  let expected := progress.expectedDurationMinutes
  match progress.remainingDurationMinutes with
  | some remaining =>
    if remaining ≠ 0 ∧ remaining ≤ expected then .ok remaining
    else .error (.invalidPartialProgress id)
  | none =>
    let incomplete := 10000 - progress.progressBasisPoints.toNat
    let remaining := (expected.toNat * incomplete + 9999) / 10000
    if 0 < remaining ∧ remaining ≤ expected.toNat then .ok (UInt32.ofNat remaining)
    else .error (.invalidPartialProgress id)

/-- The identifier of the copy of an item for an occurrence of its root. -/
def cloneId (original : ItemId) : ItemId :=
  if original = root then ⟨occurrence.id.uuid⟩
  else ⟨env.newV5 original.uuid occurrence.id.uuid.asBytes⟩

/-- The duration of a copy: the recorded progress of the occurrence replaces the
estimate of the root; otherwise the estimate counts in full. -/
def cloneDuration : Except RecurrenceError (Option DurationEstimate) :=
  match (request.recurrenceContext.partialProgress[occurrence.id]?).filter
      fun _ => original.id = root with
  | some progress => do
    let remaining ← partialRemainingMinutes occurrence.id progress
    let expected := progress.expectedDurationMinutes
    .ok (some ⟨expected, expected, expected, some remaining,
      (original.duration.map DurationEstimate.source).getD .user⟩)
  | none => .ok (original.duration.map fun duration => { duration with remaining := none })

/-- Rewrites a dependency on an item of the subtree to its copy. -/
def rewriteDependency (dependency : Dependency) : Dependency :=
  if dependency.itemId ∈ subtree then
    { dependency with itemId := cloneId env root occurrence dependency.itemId }
  else dependency

/-- The edge that keeps the first leaves of two occurrences apart. -/
def spacingDependency (predecessor : ItemId) (spacing : Minutes) : Dependency where
  itemId := predecessor
  relation := .startToStart
  minimumLag := spacing
  strength := .hard

/-- The copy of one item for an occurrence. `firstLeaf` is the first leaf of this
occurrence and `previousFirstLeaf` that of the one before. -/
def cloneItem : Except RecurrenceError WorkItem := do
  let duration ← cloneDuration request root occurrence original
  let id := cloneId env root occurrence original.id
  let rewritten := original.constraints.dependencies.map
    (rewriteDependency env root subtree occurrence)
  let spaced :=
    if spacing ≠ 0 ∧ some id = firstLeaf then
      (previousFirstLeaf.map fun predecessor => spacingDependency predecessor spacing).toList
    else []
  .ok { original with
    id := id
    parentId := original.parentId.map fun parent =>
      if parent ∈ subtree then cloneId env root occurrence parent else parent
    duration := duration
    constraints := { original.constraints with
      dependencies := rewritten ++ spaced
      occurrenceWindow := some ⟨occurrence.windowStart, occurrence.windowEnd⟩ } }

/-- The copies of a subtree for one occurrence, after those of the occurrences
before it, together with the first leaf to keep apart from the next one. -/
def cloneSubtree (subtree leaves : List ItemId) (spacing : Minutes)
    (s : List (WorkItem × MaterializedIdentity) × Option ItemId) (occurrence : Occurrence) :
    Except RecurrenceError (List (WorkItem × MaterializedIdentity) × Option ItemId) := do
  let firstLeaf := leaves.head?.map (cloneId env root occurrence)
  let clones ← (subtree.filterMap fun id => byId[id]?).mapM fun original => do
    let clone ← cloneItem env request root subtree spacing firstLeaf s.2 occurrence original
    .ok (clone, (⟨original.id, occurrence.id⟩ : MaterializedIdentity))
  .ok (s.1 ++ clones, firstLeaf.or s.2)

def generatedOf : List Occurrence :=
  occurrences.filter fun occurrence => occurrence.state = .generated ∧
  occurrence.seriesItemId = root

/-- The copies of the subtree of a root for all its generated occurrences. -/
def cloneRoot (root : WorkItem) :
    Except RecurrenceError (List (WorkItem × MaterializedIdentity)) := do
  let subtree := collectSubtree request.items.length children root.id
  let leaves := subtreeLeaves byId children subtree
  let final ← (generatedOf occurrences root.id).foldlM
    (cloneSubtree env request byId root.id subtree leaves (minimumSpacing request root)) ([], none)
  .ok final.1

/-! ### The materialised request -/

/-- Dependencies stay inside a recurring subtree: `owner` maps an item to the root
of its recurring subtree. -/
def validateRecurringSubtreeDependencies (owner : ExtTreeMap ItemId ItemId)
    (items : List WorkItem) : Except RecurrenceError Unit :=
  checkAll (fun successor : WorkItem =>
    checkAll (fun dependency : Dependency =>
      require (owner[dependency.itemId]? = none ∨ owner[successor.id]? = owner[dependency.itemId]?)
        (.crossRecurringSubtreeDependency successor.id dependency.itemId))
      successor.constraints.dependencies) items

/-- The number of assignments and of blocks of every manual placement. -/
def manualPlacementCounts (assignments : List PreviousAssignment) : ExtTreeMap Uuid (ℕ × ℕ) :=
  assignments.foldl (fun result assignment =>
    match assignment.manualPlacementId with
    | none => result
    | some id =>
      let count := result.getD id (0, 0)
      result.insert id (count.1 + 1, count.2 + assignment.blocks.length)) ∅

/-- The copy a previous assignment of a recurring item belongs to. An explicit
occurrence is authoritative; without one, the window around the first block decides,
and otherwise the first copy is taken. -/
def matchAssignment
    (candidates : List (ItemId × MaterializedIdentity)) (assignment : PreviousAssignment) :
    Option (ItemId × MaterializedIdentity) :=
  match assignment.occurrenceId with
  | some id => candidates.find? fun candidate => candidate.2.occurrenceId = id
  | none =>
    let containing := assignment.blocks.head?.bind fun block =>
      candidates.find? fun candidate =>
        (occurrences.find? fun occurrence => occurrence.id = candidate.2.occurrenceId).any
          fun occurrence => occurrence.windowStart ≤ block.start ∧
          block.start < occurrence.windowEnd
    containing.or candidates.head?

/-- The previous assignments, with those of recurring items given to their copies. -/
def materializePreviousAssignments (identities : IdentityMap) (removed : List ItemId) :
    List PreviousAssignment :=
  request.previousAssignments.filterMap fun assignment =>
    let candidates := identities.toList.filter
      fun candidate => candidate.2.seriesItemId = assignment.itemId
    if candidates = [] then
      if assignment.itemId ∈ removed then none else some assignment
    else
      (matchAssignment occurrences candidates assignment).map fun candidate =>
        { assignment with itemId := candidate.1, occurrenceId := some candidate.2.occurrenceId }

def recurringSubtrees : ChildMap :=
  let children := childMap request.items
  ExtTreeMap.ofList ((recurrenceRoots request.items (itemsById request.items) children).map
    fun root => (root, collectSubtree request.items.length children root))

/-- The items of all recurring subtrees; materialisation replaces them. -/
def removedItems : List ItemId :=
  (recurringSubtrees request).toList.flatMap Prod.snd

/-- The items outside of the recurring subtrees. -/
def retainedItems : List WorkItem :=
  request.items.filter fun item => item.id ∉ removedItems request

/-- The copies of all recurring subtrees. -/
def cloneRoots : Except RecurrenceError (List (WorkItem × MaterializedIdentity)) := do
  let byId := itemsById request.items
  let children := childMap request.items
  let copies ← ((recurrenceRoots request.items byId children).filterMap fun root =>
    byId[root]?).mapM (cloneRoot env request byId children occurrences)
  .ok copies.flatten

/-- The public names of copies. -/
def identitiesOf (copies : List (WorkItem × MaterializedIdentity)) :
    IdentityMap :=
  ExtTreeMap.ofList (copies.map fun copy => (copy.1.id, copy.2))

/-- No manual placement loses an assignment or a block. -/
def validateManualPlacements (before after : List PreviousAssignment) :
    Except RecurrenceError Unit :=
  let counts := manualPlacementCounts after
  checkAll (fun entry : Uuid × (ℕ × ℕ) =>
    require (counts[entry.1]? = some entry.2) (.invalidManualPlacement entry.1))
    (manualPlacementCounts before).toList

/-- Replaces the recurring subtrees of a request by copies for their generated
occurrences. -/
def materializeRecurrences : Except RecurrenceError MaterializedPlan := do
  let occurrences ← expandOccurrencesValidated env request
  let subtrees := (recurringSubtrees request).toList
  validateRecurringSubtreeDependencies (ExtTreeMap.ofList (subtrees.flatMap fun entry =>
    entry.2.map fun id => (id, entry.1))) request.items
  let _ ← checkedMaterializedItemCount (retainedItems request).length (subtrees.map fun entry =>
    (entry.2.length, (generatedOf occurrences entry.1).length))
  let copies ← cloneRoots env request occurrences
  let identities := identitiesOf copies
  let assignments :=
    materializePreviousAssignments request occurrences identities (removedItems request)
  validateManualPlacements request.previousAssignments assignments
  .ok ⟨{ request with
      items := sortBy (compareOn WorkItem.id) (retainedItems request ++ copies.map Prod.fst)
      previousAssignments := assignments }, occurrences, identities⟩

end DayWeave
