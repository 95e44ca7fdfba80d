import DayWeave.Scheduler.Manual

/-!
The planner.

`planWithLifecycle` checks the inputs, materialises recurrences, applies the lifecycle and the
execution evidence (`prepare`), plans the result (`planMaterialized`), assesses the manual
placements and reports under public names. The run itself (`runMaterialized`) retains fixed time,
sorts out the items without demand, and places the others in the order of their dependencies.
-/

open Std

namespace DayWeave

namespace Planner

/-- The state of the placement of items: the run so far, and which items have all of
their work placed. -/
structure Progress where
  state : PlanningState
  outcomes : ExtTreeMap ItemId Bool := ∅

variable (env : Externals) (request : PlanRequest) (execution : MaterializedExecutionContext)

/-- Retains everything that does not move. -/
def retained : Except ScheduleError PlanningState := do
  let items := itemsById request.items
  let state := ((PlanningState.new request execution).addExternalFixedBlocks request)
  let state := state.addCalendarEvents env request
  let state ← state.addExecutionReservations env request items execution
  (state.addPinnedAssignments env request items).detectImmutableOverlaps

variable (children : ChildMap) (state : PlanningState) (item : WorkItem)

/-- The minutes an item reports when it is not placed at all. -/
def reportUnplaced (reason : UnscheduledReason) (message : String)
    (state : PlanningState) : PlanningState :=
  state.reportUnscheduled item.id item.planningMinutes reason message

/-- Decides about an item that is not placed; the others are eligible. -/
def classifyItem : PlanningState :=
  if item.kind.isCalendarEvent then state
  else if item.status.isTerminal then
    state.recordDecision item.id .terminalItemIgnored
      "Completed, skipped, or canceled work does not reserve future time."
  else if ¬ item.occupiesTime (hasChildren children item.id) then
    state.recordDecision item.id .containerRolledUp
      "This parent is represented by its schedulable leaf descendants."
  else if item.status = .blocked then
    reportUnplaced item .blocked "Blocked work waits in the plan until its blocker is resolved."
      state
  else state

/-- Whether an item is to be placed. -/
def isEligible : Bool :=
  !item.kind.isCalendarEvent && !item.status.isTerminal &&
    item.occupiesTime (hasChildren children item.id) && decide (item.status ≠ .blocked)

/-- Places one item, unless a hard predecessor is missing. -/
def placeItem (items : WorkMap) (dependencies : EdgeMap) (progress : Progress) (id : ItemId) :
    Progress :=
  match items[id]? with
  | none => progress
  | some item =>
    let edges := dependencies.getD id []
    if hardDependencyUnavailable edges items progress.outcomes progress.state.blocks then
      { state := reportUnplaced item .dependencyUnavailable
          "A hard predecessor could not be placed in this plan." progress.state
        outcomes := progress.outcomes.insert id false }
    else
      let placed := PlanningState.scheduleItem env progress.state request item edges items
      { state := placed.1
        outcomes := progress.outcomes.insert id placed.2 }

def reportCycle (items : WorkMap) (state : PlanningState) (id : ItemId) :
    PlanningState :=
  match items[id]? with
  | none => state
  | some item =>
    reportUnplaced item .dependencyCycle
      "Hard dependencies form a cycle; edit or soften one dependency." state

/-- The edges of the items of a request. -/
def edgesOf : EdgeMap :=
  dependenciesWithRoutineOrder request.items (childMap request.items)

/-- The items to be placed, in order, and those on cycles. -/
def placementOrder : List ItemId × List ItemId :=
  dependencyOrder ((request.items.filter (isEligible (childMap request.items))).map WorkItem.id)
    (itemsById request.items) (edgesOf request)

/-- The placement of all items, from a state with all retained time. -/
def place : PlanningState :=
  let items := itemsById request.items
  let classified := request.items.foldl (classifyItem (childMap request.items)) state
  let placed := (placementOrder request).1.foldl (placeItem env request items (edgesOf request))
    { state := classified }
  (placementOrder request).2.foldl (reportCycle items) placed.state

/-- The run up to the last placement. -/
def runMaterialized : Except ScheduleError PlanningState := do
  let state ← retained env request execution
  .ok (place env request state)

/-- The plan of a run. -/
def planOf : SchedulePlan :=
  (state.reconcileDependencyEvidence request (itemsById request.items) (edgesOf request)
    (manuallyAssessedBlocks request.previousAssignments)).finish request

/-- The plan of a materialised request. -/
def planMaterialized : Except ScheduleError SchedulePlan := do
  validateRequest request
  validateManualPlacementDemand request execution
  let state ← runMaterialized env request execution
  .ok (planOf request state)

end Planner

variable (identities : IdentityMap) (ids : List ItemId) (occurrences : List OccurrenceId)

/-- The public name of an item. -/
def publicItemId (id : ItemId) : ItemId :=
  (publicIdentity identities id).itemId

def remapItemIds : List ItemId :=
  dedupBy (fun a b => a == b) (sortBy compare (ids.map (publicItemId identities)))

/-- Occurrences, with those of the given items. -/
def remapOccurrenceIds : List OccurrenceId :=
  dedupBy (fun a b => a == b) (sortBy compare
    (occurrences ++ ids.filterMap fun id => (publicIdentity identities id).occurrenceId))

section

variable (identities : IdentityMap)

def remapName (itemId : Option ItemId) (occurrenceId : Option OccurrenceId) :
    Option ItemId × Option OccurrenceId :=
  match itemId.bind fun id => identities[id]? with
  | none => (itemId, occurrenceId)
  | some identity => (some identity.seriesItemId, some identity.occurrenceId)

/-- A block under its public name. -/
def remapBlock (block : ScheduleBlock) : ScheduleBlock :=
  let name := remapName identities block.itemId block.occurrenceId
  { block with itemId := name.1, occurrenceId := name.2 }

def remapWork (work : UnscheduledWork) : UnscheduledWork :=
  match identities[work.itemId]? with
  | none => work
  | some identity =>
    { work with itemId := identity.seriesItemId, occurrenceId := some identity.occurrenceId }

def remapDecision (decision : PlanDecision) : PlanDecision :=
  match identities[decision.itemId]? with
  | none => decision
  | some identity =>
    { decision with itemId := identity.seriesItemId, occurrenceId := some identity.occurrenceId }

def remapViolation (violation : PlanViolation) : PlanViolation :=
  { violation with
    itemIds := remapItemIds identities violation.itemIds
    occurrenceIds := remapOccurrenceIds identities violation.itemIds violation.occurrenceIds }

def remapConflict (conflict : ManualPlacementConflict) : ManualPlacementConflict :=
  let name := remapName identities conflict.itemId conflict.occurrenceId
  { conflict with itemId := name.1, occurrenceId := name.2 }

def remapManualViolation (violation : ManualPlacementViolation) : ManualPlacementViolation :=
  { violation with
    itemIds := remapItemIds identities violation.itemIds
    occurrenceIds := remapOccurrenceIds identities violation.itemIds violation.occurrenceIds
    conflictingBlocks := violation.conflictingBlocks.map (remapConflict identities) }

def remapAssessment (assessment : ManualPlacementAssessment) : ManualPlacementAssessment :=
  { assessment with violations := assessment.violations.map (remapManualViolation identities) }

/-- A plan under public names. -/
def remapOccurrenceOutputs (plan : SchedulePlan) : SchedulePlan :=
  { plan with
    blocks := plan.blocks.map (remapBlock identities)
    unscheduled := plan.unscheduled.map (remapWork identities)
    decisions := plan.decisions.map (remapDecision identities)
    violations := plan.violations.map (remapViolation identities)
    manualPlacementAssessments := plan.manualPlacementAssessments.map (remapAssessment identities) }

end

/-- What is planned in the end: the materialised request and execution evidence, and
the names behind them. -/
structure Prepared where
  request : PlanRequest
  execution : MaterializedExecutionContext
  identities : IdentityMap
  occurrences : List Occurrence

/-- Checks and materialises the inputs. -/
def prepare (env : Externals) (request : PlanRequest) (execution : ExecutionPlanningContext)
    (lifecycle : OccurrenceLifecycleContext) : Except ScheduleError Prepared := do
  validateRequest request
  validateExecutionContext request execution
  let materialized ← (materializeRecurrences env request).mapError
    fun error => ScheduleError.invalidRecurrence error.toText
  let materialized ← (applyOccurrenceLifecycle request execution lifecycle materialized).mapError
    ScheduleError.invalidOccurrenceLifecycle
  let (prepared, evidence) ←
    applyExecutionContext materialized.request materialized.identities execution
  .ok ⟨prepared, evidence, materialized.identities, materialized.occurrences⟩

section

variable {env : Externals} {request : PlanRequest} {execution : ExecutionPlanningContext}
  {lifecycle : OccurrenceLifecycleContext} {prepared : Prepared}

variable (h : prepare env request execution lifecycle = .ok prepared)

include h

lemma prepare_valid : ValidRequest request := by
  obtain ⟨⟨⟩, hval, -⟩ := Except.bind_eq_ok.mp h
  exact validateRequest_eq_ok.mp hval

/-- Preparation changes only the items and the assignments of a request. -/
lemma prepare_request : prepared.request = { request with
        items := prepared.request.items
        previousAssignments := prepared.request.previousAssignments } := by
  simp only [prepare, Except.bind_eq_ok, Except.mapError_eq_ok] at h
  obtain ⟨-, -, -, -, m, hm, m', hm', result, hres, h⟩ := h
  obtain ⟨status, rfl⟩ := applyOccurrenceLifecycle_ok hm'
  cases applyExecutionContext_ok hres
  cases h
  simp only [materializeRecurrences, Except.bind_eq_ok] at hm
  obtain ⟨_, -, _, -, _, -, _, -, _, -, hm⟩ := hm
  cases hm
  rfl

lemma reservations_nonempty :
    ∀ entry ∈ prepared.execution.workUnits.toList, ∀ r ∈ entry.2.reservations,
      r.start < r.finish := by
  simp only [prepare, Except.bind_eq_ok] at h
  obtain ⟨-, -, ⟨⟩, hexn, m, -, m', -, result, hres, h⟩ := h
  cases applyExecutionContext_ok hres
  cases h
  intro entry hent
  obtain ⟨unit, hunit, -, heq⟩ := exists_unit_of_mem_materializeExecution hent
  rw [heq]
  exact (validateExecutionContext_ok hexn unit hunit).nonempty

end

/-- The plan with the assessments of its manual placements. -/
def assessed (env : Externals) (request : PlanRequest) (plan : SchedulePlan) :
    Except ScheduleError SchedulePlan := do
  let assessments ← assessManualPlacements env request plan
  .ok { plan with
    violations := plan.violations ++ assessments.flatMap fun assessment =>
      assessment.violations.map ManualPlacementViolation.asPlanViolation
    manualPlacementAssessments := assessments }

/-- The plan of a prepared request, under public names. -/
def planPrepared (env : Externals) (prepared : Prepared) : Except ScheduleError SchedulePlan := do
  let plan ← Planner.planMaterialized env prepared.request prepared.execution
  let plan ← assessed env prepared.request plan
  .ok { remapOccurrenceOutputs prepared.identities plan with occurrences := prepared.occurrences }

/-- Plans a request with the evidence of execution and lifecycle. -/
def planWithLifecycle (env : Externals) (request : PlanRequest)
    (execution : ExecutionPlanningContext) (lifecycle : OccurrenceLifecycleContext) :
    Except ScheduleError SchedulePlan := do
  let prepared ← prepare env request execution lifecycle
  planPrepared env prepared

namespace Sample

/-- The plan of a request without execution evidence or lifecycle. -/
def plan (request : PlanRequest) : Except ScheduleError SchedulePlan :=
  planWithLifecycle externals request {} {}

end Sample

end DayWeave
