import DayWeave.Lib.Machine
import DayWeave.Domain.Identity

/-!
Work items: what is planned, how long it takes, and which rules its placement has to respect.

The types have the fields that the planner reads. A rule is `Qualified`: hard, or soft with a
weight. `WorkItem.occupiesTime` decides which items carry demand of their own, and the `validate`
functions are the checks that run on every item before planning.
-/

namespace DayWeave

/-! ### Durations, priorities and statuses -/

/-- Whole minutes, the persisted scheduling unit. -/
abbrev Minutes := UInt32

namespace Minutes

def toDuration (m : Minutes) : Duration := Duration.minutes m.toNat

/-- Whether no minute is left. -/
def isZero (m : Minutes) : Bool := m == 0

lemma toDuration_eq (m : Minutes) : m.toDuration = (m.toNat : Int) * 60000000000 := rfl

lemma toNat_pos {m : Minutes} (h : m ≠ 0) : 0 < m.toNat :=
  Nat.pos_of_ne_zero fun h0 => h (UInt32.toNat_inj.mp h0)

lemma toDuration_nonneg (m : Minutes) : (0 : Int) ≤ m.toDuration := by
  rw [toDuration_eq]
  omega

lemma toDuration_pos {m : Minutes} (h : m ≠ 0) : (0 : Int) < m.toDuration := by
  have := toNat_pos h
  rw [toDuration_eq]
  omega

end Minutes

/-- The longest lag of a dependency edge: 366 days. -/
def maxDependencyLagMinutes : UInt32 := 527040

def maxSoftConstraintWeight : UInt32 := 1000000

inductive EstimateSource where
  | user | learned | ai | imported
deriving DecidableEq, Repr

/-- The range records the uncertainty of an estimate; `expected` is what the
planner reserves, unless partial work has left a `remaining` amount. -/
structure DurationEstimate where
  minimum : Minutes
  expected : Minutes
  maximum : Minutes
  remaining : Option Minutes
  source : EstimateSource
deriving DecidableEq

namespace DurationEstimate

/-- The exact estimate a user enters. -/
def exact (minutes : Minutes) : DurationEstimate where
  minimum := minutes
  expected := minutes
  maximum := minutes
  remaining := none
  source := .user

/-- The minutes the planner has to place. -/
def planningMinutes (d : DurationEstimate) : Minutes := d.remaining.getD d.expected

/-- The first broken rule of an estimate. -/
def validate (d : DurationEstimate) : Except String Unit :=
  if d.minimum.isZero then .error "duration minimum must be greater than zero"
  else if d.minimum > d.expected || d.expected > d.maximum then
    .error "duration must satisfy minimum <= expected <= maximum"
  else if d.remaining.any fun remaining => remaining > d.maximum then
    .error "remaining duration cannot exceed maximum"
  else .ok ()

end DurationEstimate

/-- Importance and urgency, each in the range 0..=10. -/
structure Priority where
  importance : UInt8
  urgency : UInt8
deriving DecidableEq

namespace Priority

/-- The product of importance and urgency. -/
def score (p : Priority) : ℕ := p.importance.toNat * p.urgency.toNat

def validate (p : Priority) : Except String Unit :=
  if p.importance > 10 || p.urgency > 10 then
    .error "priority importance and urgency must be in 0..=10"
  else .ok ()

end Priority

/-- The lifecycle of a work item. -/
inductive WorkStatus where
  | notStarted | scheduled | active | paused | completed | skipped | canceled | blocked
deriving DecidableEq, Repr

namespace WorkStatus

/-- Terminal work reserves no future time. -/
def isTerminal : WorkStatus → Bool
  | completed | skipped | canceled => true
  | _ => false

/-- Only completed work proves that a prerequisite was accomplished. -/
def satisfiesPrerequisite : WorkStatus → Bool
  | completed => true
  | _ => false

end WorkStatus

/-! ### Rules and their strength -/

/-- A rule is hard, or soft with a weight. -/
inductive ConstraintStrength where
  | hard
  | soft (weight : UInt32)
deriving DecidableEq

namespace ConstraintStrength

/-- The strength of a soft rule without a configured weight. -/
def defaultSoft : ConstraintStrength := soft 100

def isHard : ConstraintStrength → Bool
  | hard => true
  | soft _ => false

/-- The weight of a soft rule, zero for a hard one. -/
def weight : ConstraintStrength → UInt32
  | hard => 0
  | soft w => w

end ConstraintStrength

/-- A value together with the strength of the rule it belongs to. -/
structure Qualified (α : Type) where
  value : α
  strength : ConstraintStrength
deriving DecidableEq

/-- The level of energy a window offers or work asks for. -/
inductive EnergyLevel where
  | low | medium | deep
deriving DecidableEq, Repr

namespace EnergyLevel

/-- The position of a level in the order low, medium, deep. -/
def rank : EnergyLevel → ℕ
  | low => 0
  | medium => 1
  | deep => 2

/-- Whether an offered level is at least the required one. -/
def satisfies (offered required : EnergyLevel) : Bool := required.rank ≤ offered.rank

end EnergyLevel

/-- A window between two instants. -/
structure AbsoluteWindow where
  start : OffsetDateTime
  finish : OffsetDateTime
deriving DecidableEq

/-- A window of the local day. An end before the start means a window that
crosses midnight; no weekday means every weekday. -/
structure DailyTimeWindow where
  weekdays : Finset DayOfWeek
  startMinute : UInt16
  endMinute : UInt16
deriving DecidableEq

namespace DailyTimeWindow

/-- Whether the window accepts the stretch from `start` to `finish`. -/
def contains (w : DailyTimeWindow) (start finish : OffsetDateTime) : Bool :=
  if w.weekdays ≠ ∅ ∧ start.weekday ∉ w.weekdays then false
  else
    let startMinute := start.minuteOfDay
    let endMinute := finish.minuteOfDay
    if w.startMinute < w.endMinute then
      decide (w.startMinute.toNat ≤ startMinute) && decide (finish.date = start.date) &&
        decide (endMinute ≤ w.endMinute.toNat)
    else
      -- the window crosses midnight, for example 22:00–02:00
      decide (w.startMinute.toNat ≤ startMinute) || decide (endMinute ≤ w.endMinute.toNat)

end DailyTimeWindow

/-! ### Dependencies, buffers and splitting -/

/-- Which ends of the predecessor and the successor an edge relates. -/
inductive DependencyRelation where
  | finishToStart | startToStart | finishToFinish | startToFinish
deriving DecidableEq, Repr

namespace DependencyRelation

/-- The position of a relation in its declaration. -/
def rank : DependencyRelation → ℕ
  | finishToStart => 0
  | startToStart => 1
  | finishToFinish => 2
  | startToFinish => 3

end DependencyRelation

/-- An edge from the owning item to its predecessor `itemId`. -/
structure Dependency where
  itemId : ItemId
  relation : DependencyRelation
  minimumLag : Minutes
  strength : ConstraintStrength
deriving DecidableEq

namespace Dependency

/-- The checks of an edge owned by `owner`. -/
def validate (d : Dependency) (owner : Option ItemId) : Except String Unit :=
  if owner = some d.itemId then .error "dependency cannot reference its owning item"
  else if d.minimumLag > maxDependencyLagMinutes then
    .error "dependency lag must be at most 527040 minutes"
  else if d.strength.weight > maxSoftConstraintWeight then
    .error "dependency soft weight must be at most 1000000"
  else .ok ()

end Dependency

/-- Time kept free around a placement. Hard buffers reserve time; soft buffers
may be compressed. -/
structure BufferPolicy where
  before : Minutes := 0
  after : Minutes := 0
  strength : Option ConstraintStrength := none
deriving DecidableEq

/-- Whether work may be split into sessions, and how. -/
inductive SplitPolicy where
  | indivisible
  | splittable (minimumSession maximumSession : Minutes) (maximumSessions : UInt16)
      (minimumGap : Minutes) (maximumDays : Option UInt16)
deriving DecidableEq

namespace SplitPolicy

def validate : SplitPolicy → Except String Unit
  | indivisible => .ok ()
  | splittable minimumSession maximumSession maximumSessions _ _ =>
    if minimumSession.isZero then .error "minimum session must be greater than zero"
    else if minimumSession > maximumSession then
      .error "minimum session cannot exceed maximum session"
    else if maximumSessions = 0 then .error "maximum sessions must be greater than zero"
    else .ok ()

end SplitPolicy

/-- The rules for placing one item. -/
structure SchedulingConstraints where
  earliestStart : Option (Qualified OffsetDateTime) := none
  latestFinish : Option (Qualified OffsetDateTime) := none
  minimumNotice : Option (Qualified Minutes) := none
  allowedWeekdays : Option (Qualified (Finset DayOfWeek)) := none
  preferredDailyWindows : List (Qualified DailyTimeWindow) := []
  preferredAbsoluteWindows : List (Qualified AbsoluteWindow) := []
  forbiddenWindows : List (Qualified AbsoluteWindow) := []
  requiredContexts : List (Qualified String) := []
  requiredLocation : Option (Qualified String) := none
  dependencies : List Dependency := []
  maximumDailyWork : Option (Qualified Minutes) := none
  maximumWeeklyWork : Option (Qualified Minutes) := none
  buffers : BufferPolicy := {}
  /-- The hard window of one materialised occurrence, set by the planner. -/
  occurrenceWindow : Option AbsoluteWindow := none
deriving DecidableEq

/-! ### Recurrence rules and item kinds -/

/-- The period of a frequency rule. -/
inductive RecurrencePeriod where
  | day | week | month
deriving DecidableEq, Repr

/-- Whether counts reset at local calendar boundaries or follow an anchor. -/
inductive RecurrenceSemantics where
  | calendar | rolling
deriving DecidableEq, Repr

/-- How an item repeats. -/
inductive Recurrence where
  | daily (timesPerDay : UInt16)
  | weekly (timesPerWeek : UInt16) (weekdays : Finset DayOfWeek)
  | monthly (timesPerMonth : UInt16)
  | everyInterval (interval : Minutes)
  | afterCompletion (interval : Minutes)
  | frequency (target : UInt16) (period : RecurrencePeriod) (semantics : RecurrenceSemantics)
      (weekdays : Finset DayOfWeek) (minimumSpacing : Minutes) (anchor : Option OffsetDateTime)
  | custom (rrule : String)
deriving DecidableEq

/-- What happens to an unmet habit occurrence after its window closes. -/
inductive HabitMissedPolicy where
  | skip | carry | reduceFrequency | ask
deriving DecidableEq, Repr

/-- A habit and its recurrence. -/
structure HabitSpec where
  recurrence : Recurrence
  minimumSpacing : Minutes := 0
deriving DecidableEq

/-- A routine; the children of an ordered one run by ascending sibling order. -/
structure RoutineSpec where
  ordered : Bool
  recurrence : Option Recurrence
deriving DecidableEq

structure CalendarEventSpec where
  start : OffsetDateTime
  finish : OffsetDateTime
  immutable : Bool
deriving DecidableEq

/-- The kinds of items; of their specifications the planner reads what is kept here. -/
inductive ItemKind where
  | task
  | project
  | recurringTask (recurrence : Recurrence)
  | habit (spec : HabitSpec)
  | routine (spec : RoutineSpec)
  | goal
  | break
  | calendarEvent (spec : CalendarEventSpec)
deriving DecidableEq

namespace ItemKind

def isCalendarEvent : ItemKind → Bool
  | calendarEvent _ => true
  | _ => false

end ItemKind

/-! ### Items -/

structure WorkItem where
  id : ItemId
  isSensitive : Bool
  revision : UInt64
  title : String
  kind : ItemKind
  status : WorkStatus
  parentId : Option ItemId
  siblingOrder : Option UInt32
  /-- A leaf project, goal or routine carries work of its own. -/
  hasOwnEffort : Bool
  /-- The full hierarchy has children that this planning input leaves out. -/
  hasChildrenOutsidePlan : Bool := false
  goalIds : Finset ItemId
  priority : Priority
  duration : Option DurationEstimate
  constraints : SchedulingConstraints
  splitPolicy : SplitPolicy
  energy : Option (Qualified EnergyLevel)
  tags : Finset String
  createdAt : OffsetDateTime
  updatedAt : OffsetDateTime
deriving DecidableEq

namespace WorkItem

/-- Calendar events keep their interval; flexible demand belongs to leaves, and
a leaf container needs effort of its own. -/
def occupiesTime (item : WorkItem) (hasChildren : Bool) : Bool :=
  match item.kind with
  | .calendarEvent _ => true
  | kind =>
    if hasChildren || item.hasChildrenOutsidePlan then false
    else
      match kind with
      | .project | .goal | .routine _ => item.hasOwnEffort
      | _ => true

def planningMinutes (item : WorkItem) : Minutes :=
  (item.duration.map DurationEstimate.planningMinutes).getD 0

end WorkItem

end DayWeave
