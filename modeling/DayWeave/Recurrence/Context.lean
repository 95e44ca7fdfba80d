import DayWeave.Domain.Hierarchy
import DayWeave.Recurrence.Custom

/-!
What recurrence expansion checks before it expands anything: the resolved local days, pauses,
exceptions and the rules themselves. `resolvedDays` gives the days of the platform's calendar if
it has any, and otherwise the days at the fixed offset of the horizon.
-/

open Std

namespace DayWeave

open Duration (day second)
open Except (bind_eq_ok checkAll require)

/-- Why recurrences cannot be expanded or materialised. -/
inductive RecurrenceError where
  | invalidHierarchy (error : HierarchyError)
  | invalidRule (itemId : ItemId) (message : String)
  | invalidZonedDay (date : Date)
  | duplicateZonedDay (date : Date)
  | incompleteZonedCalendar
  | invalidPause (itemId : ItemId)
  | invalidException (itemId : ItemId)
  | invalidMoveSource (itemId : ItemId)
  | moveCrossesHorizon (itemId : ItemId)
  | duplicateOccurrence (id : OccurrenceId)
  | invalidManualPlacement (id : Uuid)
  | invalidPartialProgress (id : OccurrenceId)
  | crossRecurringSubtreeDependency (successorId predecessorId : ItemId)
  | materializedItemLimitExceeded (limit : ℕ)
  | dateOutOfRange
deriving DecidableEq

namespace RecurrenceError

def toText : RecurrenceError → String
  | invalidHierarchy error => "invalid recurrence hierarchy: " ++ error.toText
  | invalidRule itemId message =>
    "recurrence for item " ++ itemId.toText ++ " has an invalid value: " ++ message
  | invalidZonedDay date => "timezone day " ++ date.toText ++
    " has invalid or mismatched boundaries"
  | duplicateZonedDay date => "timezone calendar contains duplicate local day " ++ date.toText
  | incompleteZonedCalendar => "timezone calendar does not continuously cover the planning horizon"
  | invalidPause itemId => "pause for item " ++ itemId.toText ++ " must have a positive duration"
  | invalidException itemId =>
    "moved recurrence exception for item " ++ itemId.toText ++ " must have a positive duration"
  | invalidMoveSource itemId =>
    "moved recurrence exception for item " ++ itemId.toText ++ " has invalid source identity"
  | moveCrossesHorizon itemId =>
    "moved recurrence exception for item " ++ itemId.toText ++ " crosses the planning horizon"
  | duplicateOccurrence id =>
    "occurrence id " ++ id.toText ++ " is claimed by more than one recurrence"
  | invalidManualPlacement id =>
    "manual placement " ++ id.toText ++ " does not bind to an exact materialized occurrence"
  | invalidPartialProgress id =>
    "partial progress for occurrence " ++ id.toText ++
      " is invalid or does not bind to schedulable work"
  | crossRecurringSubtreeDependency successorId predecessorId =>
    "dependency from item " ++ successorId.toText ++ " to item " ++ predecessorId.toText ++
      " crosses a materialized recurring subtree boundary"
  | materializedItemLimitExceeded limit =>
    "recurrence materialization exceeds the " ++ toString limit ++ "-item limit"
  | dateOutOfRange => "calendar date arithmetic exceeded supported range"

end RecurrenceError

/-- The error of a custom rule, attributed to its item. -/
def customRuleError (itemId : ItemId) (error : CustomRecurrenceRuleError) : RecurrenceError :=
  .invalidRule itemId error.toText

variable (request : PlanRequest) (item : WorkItem)

def recurrenceOf : Option Recurrence :=
  match item.kind with
  | .recurringTask recurrence => some recurrence
  | .habit spec => some spec.recurrence
  | .routine spec => spec.recurrence
  | _ => none

/-- The spacing that a frequency rule carries. -/
def recurrenceSpacing : Option Minutes :=
  match recurrenceOf item with
  | some (.frequency _ _ _ _ minimumSpacing _) => some minimumSpacing
  | _ => none

/-- The least distance between the starts of two occurrences of a series. -/
def minimumSpacing : Minutes :=
  match request.recurrenceContext.minimumSpacing[item.id]? with
  | some spacing => spacing
  | none =>
    match item.kind with
    | .habit spec => max spec.minimumSpacing ((recurrenceSpacing item).getD 0)
    | _ => (recurrenceSpacing item).getD 0

/-- The pairs of neighbours of a list. -/
def neighbours {α : Type} (l : List α) : List (α × α) := l.zip l.tail

/-- One day of the calendar: it is not empty, and its first and last instants
have its date. -/
def validateZonedDay (day : ZonedDayBoundary) : Except RecurrenceError Unit :=
  match day.finish.checkedSub 1 with
  | none => .error (.invalidZonedDay day.localDate)
  | some lastInstant =>
    require (day.start < day.finish ∧ day.start.date = day.localDate ∧
      lastInstant.date = day.localDate) (.invalidZonedDay day.localDate)

/-- The days of the calendar, checked in order; no date appears twice. -/
def validateZonedDays (seen : Finset Date) : List ZonedDayBoundary → Except RecurrenceError Unit
  | [] => .ok ()
  | day :: rest => do
    validateZonedDay day
    require (day.localDate ∉ seen) (.duplicateZonedDay day.localDate)
    validateZonedDays (insert day.localDate seen) rest

def sortedDays (days : List ZonedDayBoundary) : List ZonedDayBoundary :=
  sortBy (compareOn fun day => day.localDate.day) days

/-- The calendar is empty or covers the horizon day by day. -/
def validateZonedCalendar : Except RecurrenceError Unit := do
  let calendar := request.recurrenceContext.calendar.days
  validateZonedDays ∅ calendar
  let days := sortedDays calendar
  require (calendar = [] ∨ ((days.head?.all fun day => day.start ≤ request.horizonStart) ∧
      (days.getLast?.all fun day => request.horizonEnd ≤ day.finish) ∧
      (neighbours days).all fun (left, right) =>
        left.localDate.nextDay = some right.localDate ∧ left.finish.sameInstant right.start))
    .incompleteZonedCalendar

def validateRule (itemId : ItemId) (recurrence : Recurrence) : Except RecurrenceError Unit :=
  match recurrence with
  | .daily timesPerDay =>
    require (timesPerDay ≠ 0) (.invalidRule itemId "times_per_day must be greater than zero")
  | .weekly timesPerWeek _ =>
    require (timesPerWeek ≠ 0) (.invalidRule itemId "times_per_week must be greater than zero")
  | .monthly timesPerMonth =>
    require (timesPerMonth ≠ 0) (.invalidRule itemId "times_per_month must be greater than zero")
  | .everyInterval interval | .afterCompletion interval =>
    require (interval ≠ 0) (.invalidRule itemId "interval must be greater than zero")
  | .frequency target period semantics _ _ _ =>
    if target = 0 then .error (.invalidRule itemId "frequency target must be greater than zero")
    else
      match period, semantics with
      | .day, .rolling =>
        require (target.toNat ≤ 24 * 60)
          (.invalidRule itemId "rolling daily target exceeds minute precision")
      | .week, .rolling =>
        require (target.toNat ≤ 7 * 24 * 60)
          (.invalidRule itemId "rolling weekly target exceeds minute precision")
      | _, _ => .ok ()
  | .custom rrule =>
    match parseCustomRrule rrule with
    | .ok _ => .ok ()
    | .error error => .error (customRuleError itemId error)

/-- The checks of the rule of one item; a custom rule is also expanded once. -/
def validateItemRecurrence : Except RecurrenceError Unit := do
  match item.kind with
  | .habit spec =>
    require (spec.minimumSpacing ≤ maxDependencyLagMinutes)
      (.invalidRule item.id "habit minimum spacing must be at most 527040 minutes")
  | _ => .ok ()
  match recurrenceOf item with
  | none => .ok ()
  | some recurrence => do
    validateRule item.id recurrence
    match recurrence with
    | .custom rrule =>
      match (parseCustomRrule rrule).bind fun rule =>
          rule.allOccurrenceDates item.createdAt.date
            request.recurrenceContext.calendar.weekStartsOn with
      | .ok _ => .ok ()
      | .error error => .error (customRuleError item.id error)
    | _ => .ok ()

/-- The checks of one exception: a move has a positive duration, selects an
occurrence by identifier and carries a plausible source. -/
def validateException (exception : RecurrenceException) : Except RecurrenceError Unit :=
  match exception.action with
  | .skip => .ok ()
  | .move start finish source => do
    require (start < finish) (.invalidException exception.itemId)
    match exception.selector with
    | .occurrence _ =>
      require (source.itemRevision ≠ 0 ∧ source.nominalStart < source.nominalEnd ∧
        source.localDate.all fun date => date = source.nominalStart.date)
        (.invalidMoveSource exception.itemId)
    | _ => .error (.invalidMoveSource exception.itemId)

/-- All checks made before expansion. -/
def validateRecurrenceContext : Except RecurrenceError Unit := do
  let context := request.recurrenceContext
  validateZonedCalendar request
  checkAll (fun pause : RecurrencePause =>
    require (pause.start < pause.finish) (.invalidPause pause.itemId)) context.pauses
  checkAll (fun entry : ItemId × Minutes =>
    require (entry.2 ≤ maxDependencyLagMinutes)
      (.invalidRule entry.1 "minimum spacing must be at most 527040 minutes"))
    context.minimumSpacing.toList
  checkAll validateException context.exceptions
  checkAll (validateItemRecurrence request) request.items

/-- What the checks made before expansion say. -/
structure ValidContext (request : PlanRequest) : Prop where
  calendar : validateZonedCalendar request = .ok ()
  pauses : ∀ pause ∈ request.recurrenceContext.pauses, pause.start < pause.finish
  spacing : ∀ entry ∈ request.recurrenceContext.minimumSpacing.toList,
    entry.2 ≤ maxDependencyLagMinutes
  exceptions : ∀ exception ∈ request.recurrenceContext.exceptions,
    validateException exception = .ok ()
  items : ∀ item ∈ request.items, validateItemRecurrence request item = .ok ()

lemma validateRecurrenceContext_eq_ok {request : PlanRequest} :
    validateRecurrenceContext request = .ok () ↔ ValidContext request := by
  simp only [validateRecurrenceContext, bind_eq_ok, Except.checkAll_eq_ok,
    Except.require_eq_ok, exists_const]
  constructor
  · rintro ⟨_, hcal, hpaus, hspac, hexcs, hits⟩
    exact ⟨hcal, hpaus, hspac, hexcs, hits⟩
  · exact fun h => ⟨(), h.calendar, h.pauses, h.spacing, h.exceptions, h.items⟩

lemma validateRule_of_validateItemRecurrence {request : PlanRequest} {item : WorkItem}
    {rule : Recurrence} (h : validateItemRecurrence request item = .ok ())
    (hrule : recurrenceOf item = some rule) : validateRule item.id rule = .ok () := by
  simp only [validateItemRecurrence, hrule] at h
  split at h
  · obtain ⟨⟨⟩, -, h⟩ := bind_eq_ok.mp h
    obtain ⟨⟨⟩, h, -⟩ := bind_eq_ok.mp h
    exact h
  · obtain ⟨⟨⟩, -, h⟩ := bind_eq_ok.mp h
    obtain ⟨⟨⟩, h, -⟩ := bind_eq_ok.mp h
    exact h

/-- The local midnight at the start of a date, at the offset of `like`. -/
def midnight (date : Date) (like : OffsetDateTime) : OffsetDateTime where
  nanos := date.day * day - like.offset * second
  offset := like.offset
  offset_ge := like.offset_ge
  offset_le := like.offset_le
  local_ge := by
    have := date.min_le
    simp only [day, second]
    omega
  local_lt := by
    have := date.le_max
    simp only [day, second]
    omega

/-- The number of representable dates. -/
def dateCount : ℕ := 7304484

/-- One round of the walk over the days of the horizon: the date reached and the
days found so far. -/
def resolvedDaysStep (s : Date × List ZonedDayBoundary) :
    Except RecurrenceError (Option (Date × List ZonedDayBoundary)) :=
  match s.1.nextDay with
  | none => .error .dateOutOfRange
  | some next =>
    let start := midnight s.1 request.horizonStart
    let finish := midnight next request.horizonStart
    if request.horizonEnd ≤ start then .ok none
    else if request.horizonStart < finish then .ok (some (next, s.2 ++ [⟨s.1, start, finish⟩]))
    else .ok (some (next, s.2))

/-- The local days of the horizon. -/
def resolvedDays : Except RecurrenceError (List ZonedDayBoundary) :=
  let days := request.recurrenceContext.calendar.days
  if days = [] then
    (Loop.runE (resolvedDaysStep request) dateCount (request.horizonStart.date, [])).map Prod.snd
  else .ok (sortedDays days)

end DayWeave
