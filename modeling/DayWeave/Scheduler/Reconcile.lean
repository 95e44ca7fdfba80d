import DayWeave.Scheduler.Place

/-!
The dependency evidence of a finished run, and the plan that is made of it.

At the end all evidence about edges is replaced: soft edges are measured again against the final
blocks, and hard edges are assessed where a retained block never went through candidate
evaluation. Boundaries that belong to a manual placement are left to its assessment.
-/

open Std

namespace DayWeave

/-- The sum of penalties, up to the largest value. -/
def totalPenalty (violations : List PlanViolation) : UInt64 :=
  violations.foldl (fun total violation => total.satAdd violation.penalty) 0

/-- The violation of a hard edge by retained blocks. -/
def retainedHardDependencyViolation (successorId predecessorId : ItemId) (successor : Span)
    (message : String) : PlanViolation where
  kind := .dependency
  severity := .error
  itemIds := dedupBy (fun a b => a == b) (sortBy compare [successorId, predecessorId])
  occurrenceIds := []
  start := some successor.start
  finish := some successor.finish
  penalty := 0
  message := message

/-- The violation of a soft edge. -/
def softDependencyViolation (successorId : ItemId) (successor : Span) (penalty : UInt64)
    (message : String) : PlanViolation where
  kind := .dependency
  severity := .warning
  itemIds := [successorId]
  occurrenceIds := []
  start := some successor.start
  finish := some successor.finish
  penalty := penalty
  message := message

/-- A block that is assessed as a manual placement. -/
structure AssessedBlock where
  itemId : ItemId
  sessionIndex : UInt16
  start : OffsetDateTime
  finish : OffsetDateTime

namespace AssessedBlock

def isBlock (assessed : AssessedBlock) (id : ItemId) (block : ScheduleBlock) : Bool :=
  decide (assessed.itemId = id) && decide (assessed.sessionIndex = block.sessionIndex) &&
    assessed.start.sameInstant block.start && assessed.finish.sameInstant block.finish

end AssessedBlock

/-- The blocks of the pinned manual placements. -/
def manuallyAssessedBlocks (assignments : List PreviousAssignment) : List AssessedBlock :=
  (assignments.filter fun a => a.pinned && a.manualPlacementId.isSome).flatMap fun a =>
    a.blocks.map fun block => ⟨a.itemId, block.sessionIndex, block.start, block.finish⟩

namespace PlanningState

/-- What is found about one edge. -/
inductive EdgeFinding where
  | violation (v : PlanViolation)
  /-- The edge is kept, by the block at this position. -/
  | kept (index : ℕ)

variable (state : PlanningState) (request : PlanRequest) (items : WorkMap) (dependencies : EdgeMap)
  (assessed : List AssessedBlock)

variable (successorId : ItemId) (blocks : List ScheduleBlock) (successor : Span)
  (dependency : Dependency)

/-- Whether a block that sets the boundary of an edge is assessed elsewhere. -/
def boundaryIsManuallyAssessed : Bool :=
  blocks.any fun block =>
    (if dependencyUsesSuccessorFinish dependency.relation then
      block.finish.sameInstant successor.finish
     else block.start.sameInstant successor.start) &&
      assessed.any fun a => a.isBlock successorId block

/-- Whether an edge is assessed here. -/
def edgeIsReconciled : Bool :=
  (!dependency.strength.isHard || (blocks.any (fun block => block.kind = .pinned) &&
      !boundaryIsManuallyAssessed assessed successorId blocks successor dependency)) &&
  -- there is no final end as long as work remains
  !(dependencyUsesSuccessorFinish dependency.relation &&
    hasRemainingWork state.unscheduled successorId) &&
  !(items[dependency.itemId]?).any fun predecessor => predecessor.status.satisfiesPrerequisite

/-- The finding about an edge of an item with the given blocks; `first` and `last`
are the positions of the blocks that set its bounds. -/
def reconcileEdge (first last : ℕ) (dependency : Dependency) : EdgeFinding :=
  let hard := dependency.strength.isHard
  match finalBounds state.unscheduled state.blocks items dependency with
  | none =>
    if hard then
      .violation (retainedHardDependencyViolation successorId dependency.itemId successor
        "A retained placement has no available hard-dependency predecessor.")
    else
      .violation (softDependencyViolation successorId successor
        (softWeight request dependency.strength).toUInt64
        "A preferred predecessor is not in this plan.")
  | some predecessor =>
    let boundary := dependencyBoundary dependency successor predecessor
    if boundary.any fun b => b.2 ≤ b.1 then
      .kept (if dependencyUsesSuccessorFinish dependency.relation then last else first)
    else if hard then
      .violation (retainedHardDependencyViolation successorId dependency.itemId successor
        "A retained placement violates a hard dependency.")
    else
      .violation (softDependencyViolation successorId successor
        (softPenalty request dependency.strength (match boundary with
           | none => 4294967295
           | some b => positiveMinutes (b.2.since b.1)))
        "A soft dependency order was compressed.")

/-- The order by which the first block of an item is found. -/
def firstBlockOrder : ScheduleBlock × ℕ → ScheduleBlock × ℕ → Ordering :=
  compareLex (compareOn fun b => b.1.start) (compareLex (compareOn fun b => b.1.finish)
    (compareLex (compareOn fun b => b.1.sessionIndex) (compareOn fun b => b.1.id)))

/-- The order by which the last block of an item is found. -/
def lastBlockOrder : ScheduleBlock × ℕ → ScheduleBlock × ℕ → Ordering :=
  compareLex (compareOn fun b => b.1.finish) (compareLex (compareOn fun b => b.1.start)
    (compareLex (compareOn fun b => b.1.sessionIndex) (compareOn fun b => b.1.id)))

def reconcileItem (entry : ItemId × List Dependency) : List EdgeFinding :=
  let positions := state.blocks.zipIdx.filter fun b => b.1.itemId = some entry.1
  let blocks := blocksOf state.blocks entry.1
  match boundsOf blocks, leastBy firstBlockOrder positions, greatestBy lastBlockOrder positions with
  | some successor, some first, some last =>
    (entry.2.filter (state.edgeIsReconciled items assessed entry.1 blocks successor)).map
      (state.reconcileEdge request items entry.1 successor first.2 last.2)
  | _, _, _ => []

/-- Adds the explanation of a kept edge to a block. -/
def explainKept (block : ScheduleBlock) : ScheduleBlock :=
  { block with
    explanations := PlacementExplanation.normalize
      (block.explanations ++ [explanation .dependency "Follows its predecessor dependency."]) }

/-- Replaces the dependency evidence of the run by that of the final blocks. -/
def reconcileDependencyEvidence : PlanningState :=
  let provisional := state.violations.filter fun v => v.kind = .dependency
  let findings := dependencies.toList.flatMap (state.reconcileItem request items assessed)
  let reconciled := findings.filterMap fun
    | .violation v => some v
    | .kept _ => none
  let kept := findings.filterMap fun
    | .violation _ => none
    | .kept index => some index
  { state with
    blocks := state.blocks.mapIdx fun index block =>
      if index ∈ kept then explainKept block else block
    violations := state.violations.filter (fun v => ¬ v.kind = .dependency) ++ reconciled
    score :=
      { state.score with
        softPenalty := (state.score.softPenalty.satSub (totalPenalty provisional)).satAdd
          (totalPenalty reconciled) } }

def blockOrder : ScheduleBlock → ScheduleBlock → Ordering :=
  compareLex (compareOn ScheduleBlock.start) (compareLex (compareOn ScheduleBlock.finish)
    (compareLex (compareOn ScheduleBlock.itemId)
      (compareLex (compareOn ScheduleBlock.externalBlockId)
        (compareOn ScheduleBlock.sessionIndex))))

def violationOrder : PlanViolation → PlanViolation → Ordering :=
  compareLex (compareOn PlanViolation.start) (compareLex (compareOn PlanViolation.finish)
    (compareLex (compareOn PlanViolation.itemIds) (compareOn fun v => v.kind.rank)))

/-- The plan of a finished run. -/
def finish : SchedulePlan :=
  let unscheduled := sortBy (compareOn UnscheduledWork.itemId) state.unscheduled
  { asOf := request.asOf
    horizonStart := request.horizonStart
    horizonEnd := request.horizonEnd
    blocks := sortBy blockOrder state.blocks
    unscheduled := unscheduled
    decisions := sortBy (compareLex (compareOn PlanDecision.itemId)
      (compareOn fun d => d.kind.rank)) state.decisions
    violations := sortBy violationOrder state.violations
    score :=
      { state.score with
        unscheduledMinutes := unscheduled.foldl (fun total work => total.satAdd work.remaining) 0 }
    occurrences := []
    manualPlacementAssessments := [] }

end PlanningState

end DayWeave
