import DayWeave.Recurrence.Expand

/-!
Moved, paused and completed occurrences.

A move names an occurrence by identifier and carries the metadata the planner once returned for
it. `moveSourceIsValid` rebuilds the name from the current rule and accepts the move only if the
identifier, the nominal interval and the local date agree. `appendMovedOccurrencesForHorizon`
restores a moved occurrence that has left the horizon, and `applyPausesAndExceptions` gives every
occurrence its final window and state.
-/

open Std

namespace DayWeave

def Uuid.versionNum (u : Uuid) : ℕ := u.bits.val / 2 ^ 76 % 16

/-- The equality of identities that the source uses: anchors are compared as
instants. -/
def RecurrenceOccurrenceIdentity.same : RecurrenceOccurrenceIdentity →
    RecurrenceOccurrenceIdentity → Bool
  | .rollingMinutes i a, .rollingMinutes j b => i == j && a.sameInstant b
  | .afterCompletion a, .afterCompletion b => a.sameInstant b
  | .rollingMonth c i a, .rollingMonth d j b => c == d && i == j && a.sameInstant b
  | a, b => a == b

/-! ### The calendar days of a move source -/

variable (env : Externals) (request : PlanRequest) (item : WorkItem) (recurrence : Recurrence)
  (id : OccurrenceId) (source : RecurrenceMoveSource) (proof : Option CustomMoveProof)

variable (label : BucketLabel) (key : BucketKey) (date : Date) (target : UInt16)
  (eligibleDayCount : ℕ) (bucketOrdinal : UInt16)

/-- The day with the given date, if the request is an authority on it. -/
def authoritativeDayBoundary : Option ZonedDayBoundary :=
  let calendar := request.recurrenceContext.calendar
  if calendar.days = [] then
    date.nextDay.map fun next =>
      ⟨date, midnight date request.horizonStart, midnight next request.horizonStart⟩
  else if calendar.timeZoneId = none then none
  else calendar.days.find? fun day => day.localDate = date

/-- The instant at which a date starts, if the request is an authority on it. -/
def authoritativeBoundaryInstant : Option OffsetDateTime :=
  let calendar := request.recurrenceContext.calendar
  if calendar.days = [] then some (midnight date request.horizonStart)
  else if calendar.timeZoneId = none then none
  else
    calendar.days.findSome? fun day =>
      if day.localDate = date then some day.start
      else if day.localDate.nextDay = some date then some day.finish
      else none

/-- The date on which an ordinal of a bucket falls. -/
def allocatedDate (dates : List Date) (target bucketOrdinal : UInt16) : Option Date :=
  if target = 0 ∨ target ≤ bucketOrdinal ∨ dates = [] then none
  else dates[bucketOrdinal.toNat * dates.length / target.toNat]?

/-- The date on which an ordinal of a week falls. -/
def allocatedWeekDate (weekKey : Int) (startsOn : DayOfWeek) (weekdays : Finset DayOfWeek)
    (target bucketOrdinal : UInt16) : Option Date := do
  let start ← Date.ofJulianDay weekKey
  if start.weekKey startsOn ≠ weekKey ∨ start.weekday ≠ startsOn then none
  else
    let dates := (List.range 7).filterMap fun offset : ℕ => start.checkedAddDays offset
    allocatedDate (onWeekdays weekdays dates) target bucketOrdinal

/-- The dates of a month, none if the month does not exist. -/
def monthDates (year : Int) (month : ℕ) : Option (List Date) :=
  if 1 ≤ month ∧ month ≤ 12 then
    some ((List.range (monthLength year month)).filterMap fun day =>
      Date.ofCalendar year month (day + 1))
  else none

/-- The date on which an ordinal of a month falls. -/
def allocatedMonthDate (year : Int) (month : ℕ) (weekdays : Finset DayOfWeek)
    (target bucketOrdinal : UInt16) : Option Date := do
  let dates ← monthDates year month
  allocatedDate (onWeekdays weekdays dates) target bucketOrdinal

/-- The day of an ordinal of a bucket, its position on the day and the number of ordinals there. -/
structure BucketPlace where
  dayIndex : ℕ
  position : ℕ
  count : ℕ

/-- The place of an ordinal. A bucket has at most 31 days, so that no product overflows. -/
def bucketPlace (target : UInt16) (eligibleDayCount : ℕ) (bucketOrdinal : UInt16) :
    Option BucketPlace :=
  if target = 0 ∨ target ≤ bucketOrdinal ∨ eligibleDayCount = 0 then none
  else
    let dayIndex := bucketOrdinal.toNat * eligibleDayCount / target.toNat
    let first := (dayIndex * target.toNat + (eligibleDayCount - 1)) / eligibleDayCount
    let afterLast := ((dayIndex + 1) * target.toNat + (eligibleDayCount - 1)) / eligibleDayCount
    if bucketOrdinal.toNat < first ∨ afterLast < first then none
    else some ⟨dayIndex, bucketOrdinal.toNat - first, afterLast - first⟩

/-- The end of the spacing after an instant of a day, not after the day. -/
def spacingEnd (day : ZonedDayBoundary) (start : OffsetDateTime) (spacing : Minutes) :
    OffsetDateTime :=
  ((start.checkedAdd spacing.toDuration).map fun value => earlier value day.finish).getD day.finish

/-- The end of the place of an occurrence on its day, before the spacing. -/
def placeEnd (day : ZonedDayBoundary) (position count : ℕ) : Option OffsetDateTime :=
  if position + 1 = count then some day.finish else dayInstant day (position + 1) count

/-- The nominal interval of a place on its day. -/
def BucketPlace.bounds (place : BucketPlace) (day : ZonedDayBoundary) (spacing : Minutes) :
    Option Span :=
  (dayInstant day place.position place.count).bind fun start =>
    (placeEnd day place.position place.count).map fun finish =>
      ⟨start, later finish (spacingEnd day start spacing)⟩

/-- The nominal interval of an ordinal on its day: its place, and the interval of the place. -/
def calendarOccurrenceBounds (day : ZonedDayBoundary) (target : UInt16) (eligibleDayCount : ℕ)
    (bucketOrdinal : UInt16) (spacing : Minutes) : Option Span :=
  (bucketPlace target eligibleDayCount bucketOrdinal).bind fun place => place.bounds day spacing

/-- Whether the source has the nominal interval of an ordinal on its day, with the
same offsets. -/
def calendarSourceMatches : Bool :=
  let bounds := (authoritativeDayBoundary request date).bind fun day =>
    calendarOccurrenceBounds day target eligibleDayCount bucketOrdinal (minimumSpacing request item)
  bounds = some ⟨source.nominalStart, source.nominalEnd⟩

/-- Whether the source has the nominal interval of a part of a cycle of months. -/
def rollingMonthSourceMatches
    (anchor : OffsetDateTime) (cycle : Int) (index target : UInt16) (spacing : Minutes) : Bool :=
  let bounds : Option Span := do
    let startDate ← addMonths anchor.date cycle
    let endDate ← addMonths anchor.date (cycle + 1)
    let cycleStart ← authoritativeBoundaryInstant request startDate
    let cycleEnd ← authoritativeBoundaryInstant request endDate
    let span : Span := ⟨cycleStart, cycleEnd⟩
    let start ← cyclePart span index.toNat target.toNat
    let naturalEnd ← if index.toNat + 1 = target.toNat then some cycleEnd
      else cyclePart span (index.toNat + 1) target.toNat
    let finish ← occurrenceEndWithSpacing start naturalEnd spacing
    some ⟨start, finish⟩
  bounds = some ⟨source.nominalStart, source.nominalEnd⟩

/-! ### The name of a move source -/

/-- What a custom rule proves about its occurrences. -/
structure CustomMoveProof where
  ruleId : Uuid
  dates : List Date
deriving DecidableEq

/-- Whether the nominal interval of the source lies on the given local day. -/
def localDayIsPlausible : Bool :=
  source.localDate = some date ∧ source.nominalStart.date = date ∧
    (source.nominalEnd.checkedSub 1).any fun value => value.date = date

/-- The number of weekdays a weekly rule spreads its target over. -/
def eligibleWeekdays (weekdays : Finset DayOfWeek) : ℕ :=
  if weekdays = ∅ then 7 else weekdays.card

/-- The name of a source of a calendar rule, if its date and interval agree. -/
def calendarName : Option (String × Option Date) :=
  if localDayIsPlausible source date ∧
      calendarSourceMatches request item source date target eligibleDayCount bucketOrdinal then
    some (label.toText ++ ":" ++ key.toText ++ ":" ++ toString bucketOrdinal.toNat, some date)
  else none

/-- The name of a source of a rolling rule, if its anchor and interval agree. -/
def rollingName (anchor identityAnchor : OffsetDateTime) (expected : Option Span) (name : String) :
    Option (String × Option Date) :=
  if identityAnchor = anchor ∧ expected = some ⟨source.nominalStart, source.nominalEnd⟩ ∧
      source.localDate = none then
    some (name, none)
  else none

/-- The nominal interval between two instants, pushed out to the spacing. -/
def spacedInterval (start naturalEnd : Option OffsetDateTime) (spacing : Minutes) :
    Option Span := do
  let start ← start
  let naturalEnd ← naturalEnd
  let finish ← occurrenceEndWithSpacing start naturalEnd spacing
  some ⟨start, finish⟩

/-- The name from which the identifier of the source must have been derived, with
its local date; nothing if the rule has no such occurrence. -/
def validatedIdentityName : Option (String × Option Date) :=
  let calendar := request.recurrenceContext.calendar
  let spacing := minimumSpacing request item
  match recurrence, source.identity with
  | .daily timesPerDay, .calendarDay date ordinal =>
    if ordinal < timesPerDay then
      calendarName request item source .daily (.day date) date timesPerDay 1 ordinal
    else none
  | .weekly timesPerWeek weekdays, .calendarWeek weekKey ordinal => do
    let date ← allocatedWeekDate weekKey calendar.weekStartsOn weekdays timesPerWeek ordinal
    calendarName request item source .weekly (.week weekKey) date timesPerWeek
      (eligibleWeekdays weekdays) ordinal
  | .monthly timesPerMonth, .calendarMonth year month ordinal => do
    let date ← allocatedMonthDate year month ∅ timesPerMonth ordinal
    calendarName request item source .monthly (.month year month) date timesPerMonth
      (monthLength year month) ordinal
  | .everyInterval interval, .rollingMinutes index identityAnchor =>
    let anchor := effectiveRollingAnchor request item none
    let start := rollingInstant anchor interval.toDuration index
    rollingName source anchor identityAnchor
      (spacedInterval start (start.bind fun t => t.checkedAdd interval.toDuration) spacing)
      ("interval:" ++ toString anchor.nanos ++ ":" ++ toString interval.toNat ++ ":" ++
        toString index)
  | .afterCompletion interval, .afterCompletion identityAnchor =>
    let anchor := (request.recurrenceContext.completionAnchors[item.id]?).getD item.createdAt
    let due := anchor.checkedAdd (max interval spacing).toDuration
    rollingName source anchor identityAnchor
      (due.bind fun start => (start.checkedAdd interval.toDuration).map fun finish =>
        ⟨start, finish⟩)
      ("after-completion:" ++ toString anchor.nanos ++ ":" ++ toString interval.toNat)
  | .frequency target .day .calendar weekdays _ _, .calendarDay date ordinal =>
    if ordinal < target ∧ (weekdays = ∅ ∨ date.weekday ∈ weekdays) then
      calendarName request item source .frequencyCalendarDay (.day date) date target 1 ordinal
    else none
  | .frequency target .week .calendar weekdays _ _, .calendarWeek weekKey ordinal => do
    let date ← allocatedWeekDate weekKey calendar.weekStartsOn weekdays target ordinal
    calendarName request item source .frequencyCalendarWeek (.week weekKey) date target
      (eligibleWeekdays weekdays) ordinal
  | .frequency target .month .calendar weekdays _ _, .calendarMonth year month ordinal => do
    let date ← allocatedMonthDate year month weekdays target ordinal
    let dates ← monthDates year month
    calendarName request item source .frequencyCalendarMonth (.month year month) date target
      (onWeekdays weekdays dates).length ordinal
  | .frequency target .day .rolling _ _ ruleAnchor, .rollingMinutes index identityAnchor =>
    let anchor := effectiveRollingAnchor request item ruleAnchor
    let instant := rollingFrequencyInstant anchor target (24 * 60)
    rollingName source anchor identityAnchor
      (spacedInterval (instant index) (instant (index + 1)) spacing)
      ("frequency-rolling-day:" ++ toString anchor.nanos ++ ":" ++ toString target.toNat ++
        ":1440:" ++ toString index)
  | .frequency target .week .rolling _ _ ruleAnchor, .rollingMinutes index identityAnchor =>
    let anchor := effectiveRollingAnchor request item ruleAnchor
    let instant := rollingFrequencyInstant anchor target (7 * 24 * 60)
    rollingName source anchor identityAnchor
      (spacedInterval (instant index) (instant (index + 1)) spacing)
      ("frequency-rolling-week:" ++ toString anchor.nanos ++ ":" ++ toString target.toNat ++
        ":10080:" ++ toString index)
  | .frequency target .month .rolling _ _ ruleAnchor, .rollingMonth cycle index identityAnchor =>
    let anchor := effectiveRollingAnchor request item ruleAnchor
    if 0 ≤ cycle ∧ cycle ≤ 2147483647 ∧ index < target ∧ identityAnchor = anchor ∧
        rollingMonthSourceMatches request source anchor cycle index target spacing ∧
        source.localDate = none then
      some ("frequency-rolling-month:" ++ toString anchor.nanos ++ ":" ++
        toString target.toNat ++ ":" ++ toString cycle ++ ":" ++ toString index.toNat, none)
    else none
  | .custom _, .customRule ruleId sequence date => do
    let proof ← proof
    if proof.ruleId ≠ ruleId ∨ proof.dates[sequence.toNat]? ≠ some date ∨
        ¬ localDayIsPlausible source date then none
    else
      let day ← (calendar.days.find? fun boundary => boundary.localDate = date).filter
        fun _ => calendar.timeZoneId.isSome
      if source.nominalStart = customStart item day date ∧ source.nominalEnd = day.finish then
        some (customIdentityKey ruleId sequence date, some date)
      else none
  | _, _ => none

lemma localDate_of_validatedIdentityName_custom {rrule : String} {name : String × Option Date}
    (h : validatedIdentityName request item (.custom rrule) source proof = some name) :
    ∃ date, name.2 = some date := by
  cases hident : source.identity with
  | customRule id sequence date =>
    simp only [validatedIdentityName, hident, Option.bind_eq_bind, Option.bind_eq_some_iff,
      Option.ite_none_left_eq_some, Option.ite_none_right_eq_some, Option.some.injEq] at h
    obtain ⟨-, -, -, -, -, -, rfl⟩ := h
    exact ⟨date, rfl⟩
  | _ => simp [validatedIdentityName, hident] at h

/-- Whether a move is about a real occurrence of the current rule. -/
def moveSourceIsValid : Bool :=
  if id.uuid.versionNum ≠ 5 ∨ source.itemRevision ≠ item.revision ∨
      stableOrdinal source.identity ≠ some source.ordinal then false
  else
    match validatedIdentityName request item recurrence source proof with
    | none => false
    | some (key, expectedLocalDate) =>
      id = ⟨env.newV5 item.id.uuid key.toUTF8.toList⟩ ∧ source.localDate = expectedLocalDate

/-! ### Moves -/

/-- What the dates of a custom rule prove, computed only if the series has a move. -/
def customMoveProof : Except RecurrenceError (Option CustomMoveProof) :=
  let hasMove := request.recurrenceContext.exceptions.any fun exception =>
    exception.itemId = item.id ∧ exception.action ≠ .skip
  match recurrence with
  | .custom rrule =>
    if hasMove then
      match parseCustomRrule rrule with
      | .error error => .error (customRuleError item.id error)
      | .ok rule =>
        match rule.allOccurrenceDates item.createdAt.date
            request.recurrenceContext.calendar.weekStartsOn with
        | .error error => .error (customRuleError item.id error)
        | .ok dates => .ok (some ⟨rule.ruleId env, dates⟩)
    else .ok none
  | _ => .ok none

/-- Whether a generated occurrence has the nominal data of the source; cycles of
months are exempt, since their instants depend on the resolved days. -/
def nativeMetadataMatches (occurrence : Occurrence) (source : RecurrenceMoveSource) : Bool :=
  match recurrence with
  | .frequency _ .month .rolling _ _ _ => true
  | _ =>
    occurrence.nominalStart.sameInstant source.nominalStart &&
      occurrence.nominalEnd.sameInstant source.nominalEnd

/-- The occurrence with the nominal data of the source. -/
def Occurrence.withSource (occurrence : Occurrence) (source : RecurrenceMoveSource) : Occurrence :=
  { occurrence with
    identity := source.identity
    nominalStart := source.nominalStart
    nominalEnd := source.nominalEnd
    localDate := source.localDate
    ordinal := source.ordinal }

/-- The occurrence restored at its destination. -/
def movedOccurrence (start finish : OffsetDateTime)
    (source : RecurrenceMoveSource) : Occurrence where
  id := id
  seriesItemId := item.id
  identity := source.identity
  nominalStart := source.nominalStart
  nominalEnd := source.nominalEnd
  windowStart := start
  windowEnd := finish
  localDate := source.localDate
  ordinal := source.ordinal
  state := .generated

/-- The destination of a move lies in the horizon. -/
def destinationIsContained (start finish : OffsetDateTime) : Bool :=
  request.horizonStart ≤ start ∧ finish ≤ request.horizonEnd

/-- Handles one exception: the identifiers moved so far and the occurrences. -/
def appendMoved (s : Finset OccurrenceId × List Occurrence) (exception : RecurrenceException) :
    Except RecurrenceError (Finset OccurrenceId × List Occurrence) :=
  match exception.selector, exception.action with
  | .occurrence id, .move start finish source =>
    if id ∈ s.1 ∨ ¬ moveSourceIsValid env request item recurrence id source proof then
      .error (.invalidMoveSource item.id)
    else if s.2.any fun occurrence => occurrence.id = id ∧
        ¬ (occurrence.identity.same source.identity ∧ occurrence.localDate = source.localDate ∧
          nativeMetadataMatches recurrence occurrence source) then
      .error (.invalidMoveSource item.id)
    else
      let contained := destinationIsContained request start finish
      if ¬ contained ∧ start < request.horizonEnd ∧ request.horizonStart < finish then
        .error (.moveCrossesHorizon item.id)
      else if s.2.any fun occurrence => occurrence.id = id then
        .ok (insert id s.1, s.2.map fun occurrence =>
          if occurrence.id = id then occurrence.withSource source else occurrence)
      else if contained then
        .ok (insert id s.1, s.2 ++ [movedOccurrence item id start finish source])
      else .ok (insert id s.1, s.2)
  | _, _ => .ok s

/-- Restores the moved occurrences of a series whose destination is in the horizon. -/
def appendMovedOccurrencesForHorizon (occurrences : List Occurrence) :
    Except RecurrenceError (List Occurrence) := do
  let proof ← customMoveProof env request item recurrence
  match firstDuplicate ∅ (occurrences.map Occurrence.id) with
  | some id => .error (.duplicateOccurrence id)
  | none => do
    let exceptions := request.recurrenceContext.exceptions.filter
      fun exception => exception.itemId = item.id
    let final ← exceptions.foldlM (appendMoved env request item recurrence proof) (∅, occurrences)
    .ok final.2

/-! ### States -/

/-- Whether an exception is about an occurrence. -/
def RecurrenceExceptionSelector.selects (selector : RecurrenceExceptionSelector)
    (occurrence : Occurrence) : Bool :=
  match selector with
  | .occurrence id => id = occurrence.id
  | .localDate date => occurrence.localDate = some date
  | .nominalStart instant => occurrence.nominalStart.sameInstant instant

/-- Applies one exception to an occurrence. A moved occurrence belongs to the one
horizon that contains its destination. -/
def applyException (occurrence : Occurrence) (exception : RecurrenceException) : Occurrence :=
  if exception.selector.selects occurrence then
    match exception.action with
    | .skip => { occurrence with state := .skipped }
    | .move start finish _ =>
      if destinationIsContained request start finish then
        { occurrence with windowStart := start, windowEnd := finish, state := .generated }
      else { occurrence with state := .paused }
  else occurrence

/-- The final window and state of an occurrence of a series. Pauses are tested
against the moved window. -/
def settleOccurrence (itemId : ItemId) (occurrence : Occurrence) : Occurrence :=
  let context := request.recurrenceContext
  if occurrence.id ∈ context.completedOccurrenceIds then { occurrence with state := .completed }
  else
    let exceptions := context.exceptions.filter fun exception => exception.itemId = itemId
    let moved := exceptions.foldl (applyException request) occurrence
    if moved.state = .generated ∧ context.pauses.any fun pause => pause.itemId = itemId ∧
        pause.start < moved.windowEnd ∧ moved.windowStart < pause.finish then
      { moved with state := .paused }
    else moved

/-- Gives every occurrence of a series its final window and state. -/
def applyPausesAndExceptions (itemId : ItemId) (occurrences : List Occurrence) : List Occurrence :=
  occurrences.map (settleOccurrence request itemId)

end DayWeave
