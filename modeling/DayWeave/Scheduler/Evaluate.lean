import Mathlib.Data.List.MinMax
import DayWeave.Scheduler.Dependencies

/-!
The rules of a candidate placement.

A candidate is a slot inside one availability window. Every rule of the item is a step: a broken
hard rule refuses, a broken soft rule adds weight times magnitude to the penalty. The steps are
chained in the order of the planner (`evaluateRules`); what the earlier plan says about the session
comes after all of them (`candidateOf`).
-/

open Std

namespace DayWeave

/-- What the rules have found about a candidate so far. -/
structure Tally where
  penalty : UInt64 := 0
  violations : List PlanViolation := []
  explanations : List PlacementExplanation := []

/-- A candidate that no hard rule refuses. -/
structure Candidate where
  interval : Span
  penalty : UInt64
  movedMinutes : UInt32
  explanations : List PlacementExplanation
  violations : List PlanViolation

variable (request : PlanRequest) (strength : ConstraintStrength)

/-- The weight of a soft rule; zero asks for the configured default. -/
def softWeight : UInt32 :=
  if strength.weight = 0 then request.config.defaultSoftWeight else strength.weight

/-- The penalty of a soft rule broken by some magnitude. -/
def softPenalty (magnitude : UInt32) : UInt64 :=
  UInt64.satMul (softWeight request strength).toUInt64 (max magnitude 1).toUInt64

namespace Tally

variable (request : PlanRequest) (itemId : ItemId) (interval : Span) (satisfied : Bool)
  (strength : ConstraintStrength) (kind : ViolationKind) (magnitude : UInt32) (message : String)
  (tally : Tally)

/-- Records a broken soft rule. -/
def addPenaltyViolation : Tally :=
  { tally with
    penalty := tally.penalty.satAdd (softPenalty request strength magnitude)
    violations := tally.violations ++
      [{ kind := kind
         severity := .warning
         itemIds := [itemId]
         occurrenceIds := []
         start := some interval.start
         finish := some interval.finish
         penalty := softPenalty request strength magnitude
         message := message }] }

/-- Adds an explanation if it applies. -/
def explain (applies : Bool) (code : ExplanationCode) (message : String) (tally : Tally) : Tally :=
  if applies then
    { tally with explanations := tally.explanations ++ [explanation code message] }
  else tally

/-- The common form of a rule. -/
def test : Option Tally :=
  if satisfied then some tally
  else if strength.isHard then none
  else some (tally.addPenaltyViolation request itemId interval strength kind magnitude message)

end Tally

/-- A rule that an item may or may not have. -/
def optionalRule {α : Type} (rule : Option α) (check : α → Tally → Option Tally) (tally : Tally) :
    Option Tally :=
  match rule with
  | none => some tally
  | some value => check value tally

/-- A rule that an item has any number of times. -/
def repeatedRule {α : Type} (rules : List α) (check : α → Tally → Option Tally) (tally : Tally) :
    Option Tally :=
  rules.foldlM (fun tally rule => check rule tally) tally

section

variable (request : PlanRequest) (item : WorkItem) (availability : AvailabilityWindow)
  (interval : Span)

variable (strengths : List ConstraintStrength) (matched : Bool) (message : String) (tally : Tally)

/-- The window of a materialised occurrence is always hard. -/
def occurrenceRule : Option Tally :=
  match item.constraints.occurrenceWindow with
  | none => some tally
  | some window =>
    if (HalfOpen.mk window.start window.finish).Contains interval then some tally else none

def earliestStartRule (boundary : Qualified OffsetDateTime) : Tally → Option Tally :=
  Tally.test request item.id interval (boundary.value ≤ interval.start) boundary.strength
    .softConstraint (positiveMinutes (boundary.value.since interval.start))
    "Scheduled before the preferred earliest start."

def latestFinishRule (boundary : Qualified OffsetDateTime) (tally : Tally) : Option Tally :=
  (tally.test request item.id interval (interval.finish ≤ boundary.value) boundary.strength
    .deadlineRisk (positiveMinutes (interval.finish.since boundary.value))
    "Scheduled after the preferred deadline.").map
    (Tally.explain boundary.strength.isHard .hardDeadline "Placed within its hard deadline.")

/-- Not too soon after the request was made. -/
def minimumNoticeRule (notice : Qualified Minutes) (tally : Tally) : Option Tally :=
  (request.asOf.checkedAdd notice.value.toDuration).bind fun requiredStart =>
    tally.test request item.id interval (requiredStart ≤ interval.start) notice.strength
      .softConstraint (positiveMinutes (requiredStart.since interval.start))
      "Minimum notice was compressed."

def allowedWeekdaysRule (allowed : Qualified (Finset DayOfWeek)) : Tally → Option Tally :=
  Tally.test request item.id interval (interval.start.weekday ∈ allowed.value) allowed.strength
    .softConstraint 1 "Placed on a non-preferred weekday."

/-- Outside a forbidden window, in whole minutes. -/
def forbiddenWindowRule (forbidden : Qualified AbsoluteWindow) : Tally → Option Tally :=
  let overlap := overlapMinutes interval ⟨forbidden.value.start, forbidden.value.finish⟩
  Tally.test request item.id interval (overlap = 0) forbidden.strength .softConstraint overlap
    "Placed partly inside a forbidden window."

/-- In a window that offers the context. -/
def requiredContextRule (required : Qualified String) (tally : Tally) : Option Tally :=
  (tally.test request item.id interval (required.value ∈ availability.contexts) required.strength
    .softConstraint (Span.minutes interval)
    ("Required context '" ++ required.value ++ "' is unavailable.")).map
    (Tally.explain (required.value ∈ availability.contexts) .contextMatch
      ("Matches the '" ++ required.value ++ "' context."))

/-- In a window at the location. -/
def requiredLocationRule (required : Qualified String) : Tally → Option Tally :=
  Tally.test request item.id interval (availability.location = some required.value)
    required.strength .softConstraint (Span.minutes interval)
    ("Required location '" ++ required.value ++ "' is unavailable.")

/-- In a window with enough energy. -/
def energyRule (required : Qualified EnergyLevel) (tally : Tally) : Option Tally :=
  (tally.test request item.id interval (availability.energy.satisfies required.value)
    required.strength .softConstraint (Span.minutes interval)
    "Available energy is below this work's requirement.").map
    (Tally.explain (availability.energy.satisfies required.value) .energyMatch
      "Matches the available energy level.")

/-- The rules that read one value each. -/
def scalarRules : Option Tally := do
  let c := item.constraints
  let tally ← occurrenceRule item interval tally
  let tally ← optionalRule c.earliestStart (earliestStartRule request item interval) tally
  let tally ← optionalRule c.latestFinish (latestFinishRule request item interval) tally
  let tally ← optionalRule c.minimumNotice (minimumNoticeRule request item interval) tally
  let tally ← optionalRule c.allowedWeekdays (allowedWeekdaysRule request item interval) tally
  let tally ← repeatedRule c.forbiddenWindows (forbiddenWindowRule request item interval) tally
  let tally ← repeatedRule c.requiredContexts
    (requiredContextRule request item availability interval) tally
  let tally ← optionalRule c.requiredLocation
    (requiredLocationRule request item availability interval) tally
  optionalRule item.energy (energyRule request item availability interval) tally

/-- The weakest of the soft strengths of a group of windows. -/
def weakestStrength : ConstraintStrength :=
  (strengths.argmin fun strength => strength.weight.toNat).getD .defaultSoft

/-- Adds the penalty of a group of windows none of which accepts the slot. -/
def windowGroupPenalty : Tally :=
  let soft := strengths.filter fun strength => !strength.isHard
  if soft ≠ [] ∧ ¬ matched then
    tally.addPenaltyViolation request item.id interval (weakestStrength soft) .softConstraint
      (Span.minutes interval) message
  else tally

/-- Whether some hard window accepts the slot, if there is a hard one. -/
def hardWindowsAccept {α : Type} (windows : List (Qualified α)) (accepts : α → Bool) : Bool :=
  let hard := windows.filter fun window => window.strength.isHard
  hard.isEmpty || hard.any fun window => accepts window.value

/-- The windows of a kind are alternatives: it is enough that one accepts. -/
def evaluatePreferredWindows : Option Tally :=
  let daily := item.constraints.preferredDailyWindows
  let absolute := item.constraints.preferredAbsoluteWindows
  let dailyAccepts : DailyTimeWindow → Bool := fun w => w.contains interval.start interval.finish
  let absoluteAccepts : AbsoluteWindow → Bool := fun w =>
    (HalfOpen.mk w.start w.finish).Contains interval
  let dailyMatch := daily.any fun window => dailyAccepts window.value
  let absoluteMatch := absolute.any fun window => absoluteAccepts window.value
  if hardWindowsAccept daily dailyAccepts && hardWindowsAccept absolute absoluteAccepts then
    some (windowGroupPenalty request item interval (absolute.map Qualified.strength) absoluteMatch
      "Placed outside preferred absolute windows."
      (windowGroupPenalty request item interval (daily.map Qualified.strength) dailyMatch
        "Placed outside preferred daily windows."
        (tally.explain (dailyMatch || absoluteMatch) .preferredWindow
          "Matches a preferred work window.")))
  else none

end

namespace PlanningState

variable (state : PlanningState) (request : PlanRequest) (item : WorkItem)

variable (dependencies : List Dependency) (items : WorkMap)

/-- The edge against the placement of the whole item, `successor`. -/
def dependencyRule (interval successor : Span)
    (dependency : Dependency) (tally : Tally) : Option Tally :=
  match usableBounds state.unscheduled state.blocks items dependency with
  | none =>
    tally.test request item.id interval false dependency.strength .dependency 1
      "A preferred predecessor is not in this plan."
  | some predecessor =>
    let boundary := dependencyBoundary dependency successor predecessor
    let satisfied := boundary.any fun b => b.2 ≤ b.1
    let shortfall : UInt32 :=
      match boundary with
      | none => 4294967295
      | some b => positiveMinutes (b.2.since b.1)
    (tally.test request item.id interval satisfied dependency.strength .dependency shortfall
      "A soft dependency order was compressed.").map
      (Tally.explain (satisfied && dependency.strength.isHard) .dependency
        "Follows its predecessor dependency.")

/-- Whether a candidate has to answer for an edge: a finish edge when the candidate
finishes the item, a start edge when it becomes the first session, and neither when
the predecessor is completed. -/
def dependencyApplies (finishesItem establishesStart : Bool) (dependency : Dependency) : Bool :=
  (if dependencyUsesSuccessorFinish dependency.relation then finishesItem else establishesStart) &&
    !(items[dependency.itemId]?).any fun predecessor => predecessor.status.satisfiesPrerequisite

/-- The bounds of the blocks of the item together with a candidate. -/
def successorBounds (interval : Span) : Span :=
  ((boundsOf (blocksOf state.blocks item.id)).map fun bounds => bounds.join interval).getD interval

/-- Whether a candidate becomes the first session of the item. -/
def establishesStart (interval : Span) : Bool :=
  (boundsOf (blocksOf state.blocks item.id)).all fun bounds => interval.start < bounds.start

/-- The edges of the item, against its blocks together with the candidate. -/
def evaluateDependencies (interval : Span) (finishesItem : Bool) (tally : Tally) : Option Tally :=
  repeatedRule (dependencies.filter
      (dependencyApplies items finishesItem (state.establishesStart item interval)))
    (state.dependencyRule request item items interval (state.successorBounds item interval)) tally

/-- The whole minutes of a block, as the limits count them. -/
def limitMinutes (block : ScheduleBlock) : UInt32 :=
  let minutes := (block.finish.since block.start).wholeMinutes
  if minutes < 0 then 4294967295 else UInt32.clamp minutes.toNat

/-- The limit of the work of an item in one period. -/
def limitRule (interval : Span) (inPeriod : ScheduleBlock → Bool) (message : String)
    (limit : Qualified Minutes) (tally : Tally) : Option Tally :=
  let already := UInt32.wrapSum (((blocksOf state.blocks item.id).filter inPeriod).map limitMinutes)
  let total := already.satAdd (Span.minutes interval)
  tally.test request item.id interval (total ≤ limit.value) limit.strength .softConstraint
    (total - limit.value) message

def evaluateLimits (interval : Span) (tally : Tally) : Option Tally := do
  let tally ← optionalRule item.constraints.maximumDailyWork (state.limitRule request item interval
      (fun block => block.start.date = interval.start.date) "Daily work limit was exceeded.") tally
  optionalRule item.constraints.maximumWeeklyWork (state.limitRule request item interval
      (fun block => mondayOf block.start = mondayOf interval.start)
      "Weekly work limit was exceeded.") tally

/-- The minutes of a buffered slot that are taken or lie outside the window. -/
def compressedMinutes (availability expanded : Span) : UInt32 :=
  let overlap := UInt32.wrapSum (state.busy.map fun busy => overlapMinutes expanded busy.interval)
  let outside :=
    if availability.Contains expanded then 0
    else (Span.minutes expanded).satSub (overlapMinutes expanded availability)
  overlap.satAdd outside

/-- The buffers around the slot. -/
def evaluateBuffers (availability : AvailabilityWindow) (interval : Span) (tally : Tally) :
    Option Tally :=
  let buffers := item.constraints.buffers
  optionalRule buffers.strength (fun strength tally =>
    match checkedBufferedInterval interval buffers.before buffers.after with
    | none =>
      tally.test request item.id interval false strength .bufferCompressed 4294967295
        "Preparation or decompression buffer exceeded the supported timestamp range."
    | some expanded =>
      let compressed := state.compressedMinutes ⟨availability.start, availability.finish⟩ expanded
      tally.test request item.id interval (compressed = 0) strength .bufferCompressed compressed
        "Preparation or decompression buffer was compressed.") tally

/-- All rules of an item, in order. -/
def evaluateRules
    (availability : AvailabilityWindow) (interval : Span) (finishesItem : Bool) : Option Tally := do
  let tally ← scalarRules request item availability interval {}
  let tally ← evaluatePreferredWindows request item interval tally
  let tally ← state.evaluateDependencies request item dependencies items interval finishesItem tally
  let tally ← state.evaluateLimits request item interval tally
  state.evaluateBuffers request item availability interval tally

/-- The distance in time between two starts, in whole minutes. -/
def movedMinutes (previous : Option PreviousBlock) (interval : Span) : UInt32 :=
  match previous with
  | none => 0
  | some old => positiveMinutes (interval.start.since old.start).natAbs

/-- The explanations that do not depend on a rule. -/
def itemExplanations (item : WorkItem) (tally : Tally) : Tally :=
  ((tally.explain (item.goalIds ≠ ∅) .goalProgress "Advances linked goal work.").explain
    (match item.kind with
     | .habit _ | .routine _ | .recurringTask _ => true
     | _ => false) .habitOrRoutine "Maintains a habit or routine cadence.").explain
    (0 < item.priority.score) .priority
    ("Priority score is " ++ toString item.priority.score ++ ".")

/-- The candidate of a slot that no rule refuses; moving away from the earlier plan
costs the stability weight for every minute. -/
def candidateOf (interval : Span) (previous : Option PreviousBlock) (tally : Tally) : Candidate :=
  let moved := movedMinutes previous interval
  let explained := (itemExplanations item
    (tally.explain (previous.any fun old => old.start.sameInstant interval.start) .stableTime
      "Preserves the previous schedule time.")).explain previous.isNone .earliestAvailable
        "Uses the earliest best-scoring valid capacity."
  { interval := interval
    penalty :=
      if previous.isSome then
        tally.penalty.satAdd (UInt64.satMul moved.toUInt64 request.config.stabilityWeight.toUInt64)
      else tally.penalty
    movedMinutes := moved
    explanations := PlacementExplanation.normalize explained.explanations
    violations := tally.violations }

/-- The candidate of a slot, unless a hard rule refuses it. -/
def evaluateCandidate (availability : AvailabilityWindow) (interval : Span) (finishesItem : Bool)
    (sessionIndex : UInt16) : Option Candidate :=
  (state.evaluateRules request item dependencies items availability interval finishesItem).map
    (candidateOf request item interval state.previous[SessionKey.mk item.id sessionIndex]?)

end PlanningState

end DayWeave
