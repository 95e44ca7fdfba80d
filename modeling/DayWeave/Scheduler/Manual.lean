import DayWeave.Scheduler.Reconcile

/-!
Manual placements: pinned assignments that a user made by hand.

A manual placement has to bind exactly the remaining work of its item, in sessions its split policy
allows (`validateManualPlacementDemand`). After planning, every hard rule that it breaks is listed
(`assessManualPlacements`); the findings never move the placement.
-/

open Std

namespace DayWeave

open Except (checkAll require)

/-! ### Demand -/

/-- The minutes of blocks that lie on the grid. -/
def manualMinutes (granularity : Minutes) (itemId : ItemId) (total : UInt32) :
    List PreviousBlock → Except ScheduleError UInt32
  | [] => .ok total
  | block :: rest => do
    let seconds := (block.finish.since block.start).wholeSeconds
    let step : Int := granularity.toNat * 60
    require (0 < seconds ∧ seconds % 60 = 0 ∧ block.start.nanosecond = 0 ∧
        block.finish.nanosecond = 0 ∧ block.start.unixTimestamp % step = 0 ∧
        block.finish.unixTimestamp % step = 0)
      (.invalidItem itemId "manual placement blocks must use whole-minute scheduler slots")
    let sum := total.toNat + (seconds / 60).toNat
    require (seconds / 60 ≤ 4294967295 ∧ sum ≤ 4294967295)
      (.invalidItem itemId "manual placement duration exceeds supported bounds")
    manualMinutes granularity itemId (UInt32.ofNat sum) rest

/-- Whether the indices count up from `expected`. -/
def consecutiveIndices (expected : UInt16) : List PreviousBlock → Bool
  | [] => true
  | block :: rest =>
    decide (block.sessionIndex = expected) &&
      consecutiveIndices ((PlanningState.nextSessionIndex expected).getD expected) rest

/-- The fresh indices follow the highest one ever used. -/
def validateFreshIndices (itemId : ItemId) (highWater : Option UInt16)
    (chronological : List PreviousBlock) : Except ScheduleError Unit :=
  let fresh := chronological.dropWhile fun block =>
    highWater.any fun index => block.sessionIndex ≤ index
  if fresh = [] then .ok ()
  else
    match highWater.elim (some 0) PlanningState.nextSessionIndex with
    | none =>
      .error (.invalidItem itemId "manual placement session index space is exhausted")
    | some expected =>
      require (consecutiveIndices expected fresh)
        (.invalidItem itemId "manual placement fresh session indices must be consecutive")

variable (request : PlanRequest) (execution : MaterializedExecutionContext) (item : WorkItem)
  (assignment : PreviousAssignment)

/-- The blocks of a manual placement by time, and their minutes. -/
def validateManualBlockSequence : Except ScheduleError (List PreviousBlock × UInt32) := do
  let chronological := sortBy (compareLex (compareOn PreviousBlock.start)
    (compareLex (compareOn PreviousBlock.finish) (compareOn PreviousBlock.sessionIndex)))
    assignment.blocks
  let total ← manualMinutes request.config.slotGranularity item.id 0 chronological
  require ((chronological.zip chronological.tail).all fun pair =>
      pair.1.sessionIndex < pair.2.sessionIndex)
    (.invalidItem item.id
      "manual placement session indices must be strictly increasing and chronological")
  validateFreshIndices item.id
    ((execution.workUnits[item.id]?).bind MaterializedExecutionWorkUnit.highWater) chronological
  .ok (chronological, total)

/-- The checks of one session against the split policy. -/
def validateManualSession (itemId : ItemId) (minimumSession maximumSession minimumGap : Minutes)
    (sessions : ℕ) (total : UInt32) (entry : Option PreviousBlock × PreviousBlock) :
    Except ScheduleError Unit := do
  let block := entry.2
  let minutes := (block.finish.since block.start).wholeMinutes
  require (0 ≤ minutes ∧ minutes ≤ 4294967295)
    (.invalidItem itemId "manual placement duration exceeds supported bounds")
  -- a remainder below the minimum may stand alone
  require (((sessions = 1 ∧ total < minimumSession ∧ minutes = total.toNat) ∨
      (minimumSession.toNat : Int) ≤ minutes) ∧ minutes ≤ maximumSession.toNat)
    (.invalidItem itemId "manual placement block violates configured session bounds")
  match entry.1 with
  | none => .ok ()
  | some previous =>
    match previous.finish.checkedAdd minimumGap.toDuration with
    | none =>
      .error (.invalidItem itemId "minimum gap exceeds the supported timestamp range")
    | some requiredStart =>
      require (requiredStart ≤ block.start)
        (.invalidItem itemId "manual placement blocks violate the configured minimum gap")

/-- The blocks of a manual placement against the split policy of the item. -/
def validateManualSplitPolicy (chronological : List PreviousBlock)
    (total : UInt32) : Except ScheduleError Unit :=
  match item.splitPolicy with
  | .indivisible =>
    require (chronological.length = 1)
      (.invalidItem item.id "an indivisible manual placement must contain exactly one block")
  | .splittable minimumSession maximumSession maximumSessions minimumGap maximumDays => do
    require (chronological.length ≤ maximumSessions.toNat)
      (.invalidItem item.id "manual placement exceeds the configured session limit")
    checkAll (validateManualSession item.id minimumSession maximumSession minimumGap
      chronological.length total) ((none :: chronological.map some).zip chronological)
    require (maximumDays.all fun limit =>
        (chronological.map fun block => block.start.date).toFinset.card ≤ limit.toNat)
      (.invalidItem item.id "manual placement exceeds the configured day limit")

def validateManualAssignmentDemand : Except ScheduleError Unit :=
  match item.duration with
  | none =>
    .error (.invalidItem item.id "manual placement requires an authoritative duration")
  | some expected => do
    require ((execution.workUnits[item.id]?).all fun unit => unit.reservations = [])
      (.invalidItem item.id "manual placement cannot replace an active execution reservation")
    let (chronological, total) ← validateManualBlockSequence request execution item assignment
    require (total = expected.planningMinutes)
      (.invalidItem item.id "manual placement must bind the exact remaining work duration")
    validateManualSplitPolicy item chronological total

def validateManualPlacementDemand : Except ScheduleError Unit :=
  let items := itemsById request.items
  checkAll (fun assignment : PreviousAssignment =>
    match items[assignment.itemId]? with
    | none => .ok ()
    | some item => validateManualAssignmentDemand request execution item assignment)
    (request.previousAssignments.filter fun assignment => assignment.manualPlacementId.isSome)

/-! ### Findings -/

def hardValue {α : Type} (rule : Option (Qualified α)) : Option α :=
  (rule.filter fun q => q.strength.isHard).map Qualified.value

def hardValues {α : Type} (rules : List (Qualified α)) : List α :=
  (rules.filter fun q => q.strength.isHard).map Qualified.value

/-- One hard rule that a manual placement breaks. -/
structure PlacementFinding where
  code : ManualPlacementViolationCode
  conflicting : List ScheduleBlock := []
  boundaryStart : Option OffsetDateTime := none
  boundaryEnd : Option OffsetDateTime := none
  message : String

def findingIf (broken : Bool) (finding : PlacementFinding) : List PlacementFinding :=
  if broken then [finding] else []

/-- Whether a block of the plan is the block of the placement itself. -/
def manualBlockMatches (block : ScheduleBlock) (itemId : ItemId) (source : PreviousBlock) : Bool :=
  decide (block.kind = .pinned) && decide (block.itemId = some itemId) &&
    decide (block.sessionIndex = source.sessionIndex) && block.start.sameInstant source.start &&
    block.finish.sameInstant source.finish

namespace ManualAssessment

variable (request : PlanRequest) (items : WorkMap)
  (plan : SchedulePlan) (item : WorkItem) (source : PreviousBlock)

/-- The time of the placement. -/
def placed : Span := ⟨source.start, source.finish⟩

def containing : List AvailabilityWindow :=
  request.availability.filter fun window => window.interval.Contains (placed source)

/-- Outside every window. -/
def availabilityFindings : List PlacementFinding :=
  findingIf (containing request source).isEmpty
    { code := .outsideAvailability
      message := "Manual placement is outside configured availability." }

/-- Before the earliest start or after the latest finish. -/
def boundaryFindings : List PlacementFinding :=
  ((hardValue item.constraints.earliestStart).elim [] fun boundary =>
    findingIf (source.start < boundary)
      { code := .earliestStart
        boundaryStart := some boundary
        message := "Manual placement starts before a hard earliest-start boundary." }) ++
  ((hardValue item.constraints.latestFinish).elim [] fun boundary =>
    findingIf (boundary < source.finish)
      { code := .latestFinish
        boundaryEnd := some boundary
        message := "Manual placement ends after a hard latest-finish boundary." })

/-- Too soon after the request was made. -/
def noticeFindings : Except ScheduleError (List PlacementFinding) :=
  match hardValue item.constraints.minimumNotice with
  | none => .ok []
  | some notice =>
    match request.asOf.checkedAdd notice.toDuration with
    | none =>
      .error (.invalidItem item.id "minimum notice exceeds the supported timestamp range")
    | some required =>
      .ok (findingIf (source.start < required)
        { code := .minimumNotice
          boundaryStart := some required
          message := "Manual placement compresses a hard minimum-notice boundary." })

/-- On a weekday, or outside a window, that is not allowed. -/
def windowFindings : List PlacementFinding :=
  let daily := hardValues item.constraints.preferredDailyWindows
  let absolute := hardValues item.constraints.preferredAbsoluteWindows
  let spans : List Span := absolute.map fun window => ⟨window.start, window.finish⟩
  ((hardValue item.constraints.allowedWeekdays).elim [] fun weekdays =>
    findingIf (source.start.weekday ∉ weekdays)
      { code := .allowedWeekday
        message := "Manual placement is on a disallowed weekday." }) ++
  findingIf (!daily.isEmpty && !daily.any fun window => window.contains source.start source.finish)
    { code := .preferredDailyWindow
      message := "Manual placement is outside every allowed daily window." } ++
  findingIf (!spans.isEmpty && !spans.any fun span => span.Contains (placed source))
    { code := .preferredAbsoluteWindow
      boundaryStart := (HalfOpen.hull spans).map HalfOpen.start
      boundaryEnd := (HalfOpen.hull spans).map HalfOpen.finish
      message := "Manual placement is outside every allowed absolute window." } ++
  (hardValues item.constraints.forbiddenWindows).flatMap fun window =>
    findingIf ((placed source).Overlaps ⟨window.start, window.finish⟩)
      { code := .forbiddenWindow
        boundaryStart := some window.start
        boundaryEnd := some window.finish
        message := "Manual placement overlaps a hard forbidden window." }

/-- Whether a window offers everything that is required. -/
def offersAll (contexts : List String) (location : Option String) (energy : Option EnergyLevel)
    (window : AvailabilityWindow) : Bool :=
  (contexts.all fun context => context ∈ window.contexts) &&
    (location.all fun location => window.location = some location) &&
    energy.all fun energy => window.energy.satisfies energy

/-- Without a required context, location, level of energy, or all of them at once. -/
def capabilityFindings : List PlacementFinding :=
  let windows := containing request source
  let contexts := hardValues item.constraints.requiredContexts
  let location := hardValue item.constraints.requiredLocation
  let energy := hardValue item.energy
  (contexts.flatMap fun context =>
    findingIf (!windows.any fun window => context ∈ window.contexts)
      { code := .requiredContext
        message := "Manual placement lacks a required context." }) ++
  (location.elim [] fun location =>
    findingIf (!windows.any fun window => window.location = some location)
      { code := .requiredLocation
        message := "Manual placement lacks the required location." }) ++
  (energy.elim [] fun energy =>
    findingIf (!windows.any fun window => window.energy.satisfies energy)
      { code := .energy
        message := "Manual placement exceeds the available energy level." }) ++
  findingIf ((!contexts.isEmpty || location.isSome || energy.isSome) &&
      !windows.any (offersAll contexts location energy))
    { code := .requiredCapabilities
      message := "No single availability window satisfies every required work capability." }

/-- Whether the placement sets the boundary of a hard edge that has to be kept. -/
def edgeApplies (dependency : Dependency) : Bool :=
  let successor := boundsOf (blocksOf plan.blocks item.id)
  dependency.strength.isHard && (if dependencyUsesSuccessorFinish dependency.relation then
      successor.all fun bounds => source.finish.sameInstant bounds.finish
     else successor.all fun bounds => source.start.sameInstant bounds.start) &&
    !(items[dependency.itemId]?).any fun predecessor => predecessor.status.satisfiesPrerequisite

/-- A hard edge that the placement breaks. -/
def edgeFindings (dependency : Dependency) : Except ScheduleError (List PlacementFinding) := do
  let satisfied ←
    match finalBounds plan.unscheduled plan.blocks items dependency with
    | none => .ok false
    | some predecessor =>
      match dependencyBoundary dependency (placed source) predecessor with
      | none =>
        .error (.invalidItem item.id "dependency lag exceeds the supported timestamp range")
      | some (observed, required) => .ok (decide (required ≤ observed))
  .ok (findingIf (!satisfied)
    { code := .dependency
      conflicting := blocksOf plan.blocks dependency.itemId
      message := "Manual placement violates a hard dependency." })

/-- A hard limit of work in the period of the placement. -/
def limitFindings (limit : Option (Qualified Minutes)) (inPeriod : ScheduleBlock → Bool)
    (code : ManualPlacementViolationCode) (message : String) : List PlacementFinding :=
  let relevant := (blocksOf plan.blocks item.id).filter inPeriod
  let total := relevant.foldl (fun total block => total.satAdd (Span.minutes block.interval)) 0
  (hardValue limit).elim [] fun limit =>
    findingIf (limit < total) { code := code, conflicting := relevant, message := message }

/-- Hard buffers that are taken or lie outside the windows. -/
def bufferFindings : Except ScheduleError (List PlacementFinding) :=
  let buffers := item.constraints.buffers
  if buffers.strength.any ConstraintStrength.isHard then
    match checkedBufferedInterval (placed source) buffers.before buffers.after with
    | none => .error (.invalidItem item.id "buffers exceed the supported timestamp range")
    | some expanded =>
      let conflicting := plan.blocks.filter fun block =>
        !manualBlockMatches block item.id source && decide (expanded.Overlaps block.interval)
      .ok (findingIf (!(request.availability.any fun window => window.interval.Contains expanded) ||
          !conflicting.isEmpty)
        { code := .bufferCompressed
          conflicting := conflicting
          boundaryStart := some expanded.start
          boundaryEnd := some expanded.finish
          message := "Manual placement compresses a hard preparation or decompression buffer." })
  else .ok []

/-- Retained time under the placement. -/
def overlapFindings : List PlacementFinding :=
  let conflicting := plan.blocks.filter fun block =>
    decide (block.kind ≠ .planned) && !manualBlockMatches block item.id source &&
      decide ((placed source).Overlaps block.interval)
  findingIf (!conflicting.isEmpty)
    { code := .immutableOverlap
      conflicting := conflicting
      message := "Manual placement overlaps immutable scheduled time." }

/-- Everything that is found about one block of a manual placement. -/
def blockFindings (dependencies : List Dependency) :
    Except ScheduleError (List PlacementFinding) := do
  let notice ← noticeFindings request item source
  let edges ← (dependencies.filter (edgeApplies items plan item source)).mapM
    (edgeFindings items plan item source)
  let buffers ← bufferFindings request plan item source
  .ok (availabilityFindings request source ++ boundaryFindings item source ++ notice ++
    windowFindings item source ++ capabilityFindings request item source ++ edges.flatten ++
    limitFindings plan item item.constraints.maximumDailyWork
      (fun block => block.start.date = source.start.date) .maximumDailyWork
      "Manual placement exceeds a hard daily work limit." ++
    limitFindings plan item item.constraints.maximumWeeklyWork
      (fun block => mondayOf block.start = mondayOf source.start) .maximumWeeklyWork
      "Manual placement exceeds a hard weekly work limit." ++
    buffers ++ overlapFindings plan item source)

end ManualAssessment

/-! ### Assessments -/

/-- The largest number of findings, and of conflicting blocks named by them. -/
def maxManualAssessmentViolations : ℕ := 4096

/-- The largest number of conflicting blocks that findings may name. -/
def maxManualAssessmentConflictFacts : ℕ := 4096

namespace ManualPlacementConflict

def ofBlock (block : ScheduleBlock) : ManualPlacementConflict where
  blockId := block.id
  itemId := block.itemId
  occurrenceId := block.occurrenceId
  externalBlockId := block.externalBlockId
  kind := block.kind
  start := block.start
  finish := block.finish

/-- Equality up to the offset of the instants. -/
def same (a b : ManualPlacementConflict) : Bool :=
  decide (a.blockId = b.blockId) && decide (a.itemId = b.itemId) &&
    decide (a.occurrenceId = b.occurrenceId) && decide (a.externalBlockId = b.externalBlockId) &&
    decide (a.kind = b.kind) && a.start.sameInstant b.start && a.finish.sameInstant b.finish

/-- Conflicts by time and block, without repetitions. -/
def normalize (conflicts : List ManualPlacementConflict) : List ManualPlacementConflict :=
  dedupBy same (sortBy (compareLex (compareOn ManualPlacementConflict.start)
    (compareLex (compareOn ManualPlacementConflict.finish)
      (compareOn ManualPlacementConflict.blockId))) conflicts)

end ManualPlacementConflict

namespace ManualPlacementViolation

/-- Equality of optional instants. -/
def sameBoundary (a b : Option OffsetDateTime) : Bool :=
  a.map OffsetDateTime.nanos == b.map OffsetDateTime.nanos

/-- Equality up to the offset of the instants. -/
def same (a b : ManualPlacementViolation) : Bool :=
  decide (a.code = b.code) && decide (a.itemIds = b.itemIds) &&
    decide (a.occurrenceIds = b.occurrenceIds) &&
    decide (a.conflictingBlockIds = b.conflictingBlockIds) &&
    decide (a.conflictingBlocks.length = b.conflictingBlocks.length) &&
    ((a.conflictingBlocks.zip b.conflictingBlocks).all fun pair => pair.1.same pair.2) &&
    a.start.sameInstant b.start && a.finish.sameInstant b.finish &&
    sameBoundary a.boundaryStart b.boundaryStart && sameBoundary a.boundaryEnd b.boundaryEnd &&
    decide (a.message = b.message)

/-- The conflicts of a violation without repetitions. -/
def normalizeConflicts (v : ManualPlacementViolation) : ManualPlacementViolation :=
  { v with
    conflictingBlockIds := dedupBy (fun a b => a == b) (sortBy compare v.conflictingBlockIds)
    conflictingBlocks := ManualPlacementConflict.normalize v.conflictingBlocks }

/-- Violations by time, code, items and conflicts, without repetitions. -/
def normalize (violations : List ManualPlacementViolation) : List ManualPlacementViolation :=
  dedupBy same (sortBy (compareLex (compareOn ManualPlacementViolation.start)
    (compareLex (compareOn ManualPlacementViolation.finish)
      (compareLex (compareOn fun v => v.code.rank)
        (compareLex (compareOn ManualPlacementViolation.itemIds)
          (compareOn ManualPlacementViolation.conflictingBlockIds)))))
    (violations.map normalizeConflicts))

/-- The violation as it appears in the list of the plan. -/
def asPlanViolation (v : ManualPlacementViolation) : PlanViolation where
  kind := v.code.violationKind
  severity := .error
  itemIds := dedupBy (fun a b => a == b) (sortBy compare
    (v.itemIds ++ v.conflictingBlocks.filterMap ManualPlacementConflict.itemId))
  occurrenceIds := dedupBy (fun a b => a == b) (sortBy compare
    (v.occurrenceIds ++ v.conflictingBlocks.filterMap ManualPlacementConflict.occurrenceId))
  start := some v.start
  finish := some v.finish
  penalty := 0
  message := v.message

end ManualPlacementViolation

/-- The evidence collected by the assessment. -/
structure ManualEvidence where
  assessments : ExtTreeMap Uuid (List ManualPlacementViolation) := ∅
  violationCount : ℕ := 0
  conflictCount : ℕ := 0
  overflow : Option ItemId := none

namespace ManualAssessment

/-- Adds one finding, unless the evidence grows too large. -/
def pushFinding (placementId : Uuid) (itemId : ItemId) (occurrenceId : Option OccurrenceId)
    (source : PreviousBlock) (evidence : ManualEvidence) (finding : PlacementFinding) :
    ManualEvidence :=
  if evidence.overflow.isSome ∨ maxManualAssessmentViolations ≤ evidence.violationCount ∨
      maxManualAssessmentConflictFacts < evidence.conflictCount + finding.conflicting.length then
    { evidence with overflow := some itemId }
  else
    let conflicts := ManualPlacementConflict.normalize
      (finding.conflicting.map ManualPlacementConflict.ofBlock)
    let violation : ManualPlacementViolation :=
      { code := finding.code
        itemIds := [itemId]
        occurrenceIds := occurrenceId.toList
        conflictingBlockIds := conflicts.map ManualPlacementConflict.blockId
        conflictingBlocks := conflicts
        start := source.start
        finish := source.finish
        boundaryStart := finding.boundaryStart
        boundaryEnd := finding.boundaryEnd
        message := finding.message }
    { evidence with
      assessments := evidence.assessments.insert placementId
        (evidence.assessments.getD placementId [] ++ [violation])
      violationCount := evidence.violationCount + 1
      conflictCount := evidence.conflictCount + finding.conflicting.length }

def assessBlock (request : PlanRequest) (items : WorkMap) (plan : SchedulePlan)
    (item : WorkItem) (dependencies : List Dependency) (placementId : Uuid)
    (occurrenceId : Option OccurrenceId) (evidence : ManualEvidence) (source : PreviousBlock) :
    Except ScheduleError ManualEvidence :=
  if evidence.overflow.isSome then .ok evidence
  else do
    let findings ← blockFindings request items plan item source dependencies
    .ok (findings.foldl (pushFinding placementId item.id occurrenceId source) evidence)

def assessAssignment (request : PlanRequest) (items : WorkMap)
    (dependencies : EdgeMap) (plan : SchedulePlan)
    (evidence : ManualEvidence) (assignment : PreviousAssignment) :
    Except ScheduleError ManualEvidence :=
  match assignment.manualPlacementId with
  | none => .ok evidence
  | some placementId =>
    let entered : ManualEvidence :=
      { evidence with
        assessments := evidence.assessments.insert placementId
          (evidence.assessments.getD placementId []) }
    match items[assignment.itemId]? with
    | none => .ok entered
    | some item =>
      assignment.blocks.foldlM
        (assessBlock request items plan item (dependencies.getD item.id []) placementId
          assignment.occurrenceId) entered

/-- What the environment of a manual placement says about an item. -/
def itemEnvironment (item : WorkItem) : ItemEnvironment where
  id := item.id
  revision := item.revision
  kind := item.kind
  status := item.status
  parentId := item.parentId
  siblingOrder := item.siblingOrder
  hasOwnEffort := item.hasOwnEffort
  hasChildrenOutsidePlan := item.hasChildrenOutsidePlan
  duration := item.duration
  constraints := item.constraints
  splitPolicy := item.splitPolicy
  energy := item.energy

/-- The digest of everything all manual placements depend on. -/
def environmentBaseDigest (env : Externals) (request : PlanRequest) : List UInt8 :=
  env.sha256 (env.encodeEnvironment
    (sortBy (compareOn ItemEnvironment.id) (request.items.map itemEnvironment))
    request.availability)

/-- The digest that an approval of one placement is bound to. -/
def environmentDigest (env : Externals) (placementId : Uuid) (base : List UInt8) : List UInt8 :=
  env.sha256 ("dayweave-manual-placement-environment/2\x00".toUTF8.toList ++ base ++
    placementId.asBytes)

end ManualAssessment

def assessManualPlacements (env : Externals) (request : PlanRequest) (plan : SchedulePlan) :
    Except ScheduleError (List ManualPlacementAssessment) := do
  let items := itemsById request.items
  let dependencies := dependenciesWithRoutineOrder request.items (childMap request.items)
  let evidence ← (request.previousAssignments.filter fun a =>
      a.pinned && a.manualPlacementId.isSome).foldlM
    (ManualAssessment.assessAssignment request items dependencies plan) {}
  match evidence.overflow with
  | some itemId =>
    .error (.invalidItem itemId "manual placement assessment exceeds the supported evidence limit")
  | none =>
    let base := ManualAssessment.environmentBaseDigest env request
    .ok (evidence.assessments.toList.map fun entry =>
      { placementId := entry.1
        environmentDigest := ManualAssessment.environmentDigest env entry.1 base
        violations := ManualPlacementViolation.normalize entry.2 })

end DayWeave
