import DayWeave.Recurrence.Context

/-!
The expansion of one series into the occurrences whose windows meet the horizon.

Calendar rules spread their target over the eligible days of a bucket (a day, a week or a month);
rolling rules follow an anchor in steps of minutes or months; an after-completion rule has at most
one occurrence; a custom rule has one on each of its dates. The identifier of an occurrence is
derived from its name, which does not depend on the horizon.
-/

open Std

namespace DayWeave

/-! ### Occurrences and their names -/

/-- The ordinal that an identity determines. -/
def stableOrdinal : RecurrenceOccurrenceIdentity → Option UInt32
  | .calendarDay _ ordinal | .calendarWeek _ ordinal | .calendarMonth _ _ ordinal =>
    some ordinal.toUInt32
  | .rollingMinutes index _ =>
    if 0 ≤ index ∧ index ≤ 4294967295 then some (UInt32.ofNat index.toNat) else none
  | .afterCompletion _ | .custom => some 0
  | .rollingMonth _ index _ => some index.toUInt32
  | .customRule _ sequence _ => some sequence

/-- A generated occurrence of a series; its identifier is derived from the key. -/
def makeOccurrence (env : Externals) (itemId : ItemId) (key : String)
    (identity : RecurrenceOccurrenceIdentity) (nominal window : Span)
    (localDate : Option Date) : Occurrence where
  id := ⟨env.newV5 itemId.uuid key.toUTF8.toList⟩
  seriesItemId := itemId
  identity := identity
  nominalStart := nominal.start
  nominalEnd := nominal.finish
  windowStart := window.start
  windowEnd := window.finish
  localDate := localDate
  ordinal := (stableOrdinal identity).getD 0
  state := .generated

/-- The part of a nominal interval inside the horizon. -/
def horizonWindow (request : PlanRequest) (nominal : Span) :
    Span :=
  ⟨later nominal.start request.horizonStart, earlier nominal.finish request.horizonEnd⟩

/-- The end of an occurrence, pushed out to the minimum spacing. -/
def occurrenceEndWithSpacing (start naturalEnd : OffsetDateTime) (spacing : Minutes) :
    Option OffsetDateTime :=
  (start.checkedAdd spacing.toDuration).map fun spacingEnd => later naturalEnd spacingEnd

/-! ### Calendar buckets -/

/-- The rules that count by calendar buckets. -/
inductive BucketLabel where
  | daily | weekly | monthly | frequencyCalendarDay | frequencyCalendarWeek
  | frequencyCalendarMonth
deriving DecidableEq, Repr

namespace BucketLabel

/-- The label in the name of an occurrence. -/
def toText : BucketLabel → String
  | daily => "daily"
  | weekly => "weekly"
  | monthly => "monthly"
  | frequencyCalendarDay => "frequency-calendar-day"
  | frequencyCalendarWeek => "frequency-calendar-week"
  | frequencyCalendarMonth => "frequency-calendar-month"

end BucketLabel

/-- A calendar bucket: a day, a week or a month. -/
inductive BucketKey where
  | day (date : Date)
  | week (key : Int)
  | month (year : Int) (month : ℕ)

namespace BucketKey

/-- A year padded with zeros to four characters, the sign included. -/
def paddedYear (year : Int) : String :=
  if year < 0 then "-" ++ padDecimal 3 year.natAbs else padDecimal 4 year.natAbs

/-- The bucket in the name of an occurrence. -/
def toText : BucketKey → String
  | day date => date.toText
  | week key => toString key
  | month y m => paddedYear y ++ "-" ++ padDecimal 2 m

/-- The identity of an occurrence of the bucket that is allotted to a day. -/
def identity (key : BucketKey) (date : Date) (ordinal : UInt16) : RecurrenceOccurrenceIdentity :=
  match key with
  | day _ => .calendarDay date ordinal
  | week k => .calendarWeek k ordinal
  | month _ _ => .calendarMonth date.year date.month ordinal

end BucketKey

/-- The instant a fraction of a day after its start, if it is in range. -/
def dayInstant (day : ZonedDayBoundary) (numerator denominator : ℕ) : Option OffsetDateTime :=
  ((Duration.checkedMul (day.finish.since day.start) numerator).bind
    fun d => Duration.checkedDiv d denominator).bind day.start.checkedAdd

/-- That instant; the end of the day if it is out of range. -/
def dayFraction (day : ZonedDayBoundary) (numerator denominator : ℕ) : OffsetDateTime :=
  (dayInstant day numerator denominator).getD day.finish

/-- The nominal interval of the occurrence at `position` among `count` on a day. -/
def bucketInterval (day : ZonedDayBoundary) (position count : ℕ) (spacing : Minutes) :
    Span :=
  let start := dayFraction day position count
  let finish := if position + 1 = count then day.finish else dayFraction day (position + 1) count
  let spacingEnd := ((start.checkedAdd spacing.toDuration).map
    fun value => earlier value day.finish).getD day.finish
  let effectiveEnd := later finish spacingEnd
  ⟨start, if effectiveEnd.sameInstant day.finish then day.finish else effectiveEnd⟩

/-- The ordinals of a bucket that fall on its day number `dayIndex`, when the
target is spread over `dayCount` days. -/
def allocation (target dayCount dayIndex : ℕ) : List ℕ :=
  (List.range target).filter fun index => index * dayCount / target = dayIndex

variable (env : Externals) (request : PlanRequest) (item : WorkItem) (anchor : OffsetDateTime)
  (target : UInt16) (spacing : Minutes) (days : List ZonedDayBoundary)

/-- The occurrences of one bucket whose windows meet the horizon. -/
def expandBucket (itemId : ItemId) (label : BucketLabel)
    (target : UInt16) (spacing : Minutes) (bucket : BucketKey × List ZonedDayBoundary) :
    List Occurrence :=
  let days := sortedDays bucket.2
  days.zipIdx.flatMap fun (day, dayIndex) =>
    let ordinals := allocation target.toNat days.length dayIndex
    ordinals.zipIdx.filterMap fun (ordinal, position) =>
      let nominal := bucketInterval day position ordinals.length spacing
      let window := horizonWindow request nominal
      let key := label.toText ++ ":" ++ bucket.1.toText ++ ":" ++ toString ordinal
      if window.start < window.finish then
        some (makeOccurrence env itemId key
          (bucket.1.identity day.localDate (UInt16.ofNat ordinal)) nominal window
          (some day.localDate))
      else none

def expandCalendarBuckets (itemId : ItemId)
    (label : BucketLabel) (target : UInt16) (spacing : Minutes)
    (buckets : List (BucketKey × List ZonedDayBoundary)) : List Occurrence :=
  buckets.flatMap (expandBucket env request itemId label target spacing)

/-- The day with the given date. A date without a boundary in the request takes
part in the allocation as an empty day at the nearest end of the horizon. -/
def resolvedBoundary (date : Date) : ZonedDayBoundary :=
  match days.find? fun day => day.localDate = date with
  | some day => day
  | none =>
    let instant :=
      match days.head? with
      | none => request.horizonStart
      | some first =>
        if date < first.localDate then request.horizonStart else request.horizonEnd
    ⟨date, instant, instant⟩

/-- The dates of a list on the allowed weekdays; no weekday means every weekday. -/
def onWeekdays (weekdays : Finset DayOfWeek) (dates : List Date) : List Date :=
  dates.filter fun date => weekdays = ∅ ∨ date.weekday ∈ weekdays

/-- The whole weeks that contain a resolved day. -/
def completeWeekGroups (startsOn : DayOfWeek) (weekdays : Finset DayOfWeek) :
    Except RecurrenceError (List (BucketKey × List ZonedDayBoundary)) :=
  let keys := dedupBy (fun a b => a == b)
    (sortBy compare (days.map fun day => day.localDate.weekKey startsOn))
  keys.mapM fun key =>
    match (Date.ofJulianDay key).bind fun start =>
        (List.range 7).mapM fun offset : ℕ => start.checkedAddDays offset with
    | none => .error .dateOutOfRange
    | some dates =>
      .ok (.week key, (onWeekdays weekdays dates).map (resolvedBoundary request days))

def monthGroups (weekdays : Finset DayOfWeek) :
    Except RecurrenceError (List (BucketKey × List ZonedDayBoundary)) :=
  let months := dedupBy (fun a b => a == b)
    (sortBy (compareLex (compareOn Prod.fst) (compareOn Prod.snd))
      (days.map fun day => (day.localDate.year, day.localDate.month)))
  months.mapM fun (year, month) =>
    match (List.range (monthLength year month)).mapM fun day =>
        Date.ofCalendar year month (day + 1) with
    | none => .error .dateOutOfRange
    | some dates =>
      .ok (.month year month, (onWeekdays weekdays dates).map (resolvedBoundary request days))

/-- The single days on the allowed weekdays. -/
def dayGroups (weekdays : Finset DayOfWeek) : List (BucketKey × List ZonedDayBoundary) :=
  (days.filter fun day => weekdays = ∅ ∨ day.localDate.weekday ∈ weekdays).map
    fun day => (.day day.localDate, [day])

/-! ### Rolling rules -/

def maxIndex : Int := 9223372036854775807

def nextIndex (index : Int) : Except RecurrenceError Int :=
  if index < maxIndex then .ok (index + 1) else .error .dateOutOfRange

/-- A missing instant is out of range. -/
def inRange {α : Type} : Option α → Except RecurrenceError α
  | some a => .ok a
  | none => .error .dateOutOfRange

/-- The start of the occurrence with the given index of an interval rule. -/
def rollingInstant (interval : Duration) (index : Int) : Option OffsetDateTime :=
  if -2147483648 ≤ index ∧ index ≤ 2147483647 then
    (Duration.checkedMul interval index).bind anchor.checkedAdd
  else none

/-- The start of the occurrence with the given index when `target` occurrences are
spread over a period of minutes. -/
def rollingFrequencyInstant (periodMinutes : ℕ) (index : Int) : Option OffsetDateTime :=
  if index < 0 ∨ target = 0 then none
  else
    let target : Int := target.toNat
    let offset := index / target * periodMinutes + index % target * periodMinutes / target
    if offset ≤ maxIndex then anchor.checkedAdd (Duration.minutes offset) else none

variable (keyStem : String) (instant : Int → Option OffsetDateTime)
  (naturalEnd : OffsetDateTime → Int → Option OffsetDateTime) (s : Int × List Occurrence)

/-- Moves an index up as long as the next start is not after the horizon's. -/
def advanceStep (index : Int) : Except RecurrenceError (Option Int) := do
  let next ← nextIndex index
  let start ← inRange (instant next)
  if request.horizonStart < start then .ok none else .ok (some next)

/-- Moves an index down as long as its start is after the horizon's. -/
def retreatStep (index : Int) : Except RecurrenceError (Option Int) :=
  if 0 < index then do
    let start ← inRange (instant index)
    if request.horizonStart < start then .ok (some (index - 1)) else .ok none
  else .ok none

/-- One occurrence of a rolling rule after the other, up to the end of the
horizon. The end of an occurrence is the natural end, pushed out to the spacing. -/
def rollingStep : Except RecurrenceError (Option (Int × List Occurrence)) := do
  let start ← inRange (instant s.1)
  if request.horizonEnd ≤ start then .ok none
  else if 4294967295 < s.1 then .error .dateOutOfRange
  else do
    let next ← nextIndex s.1
    let natural ← inRange (naturalEnd start next)
    let finish ← inRange (occurrenceEndWithSpacing start natural spacing)
    let nominal : Span := ⟨start, finish⟩
    let occurrence := makeOccurrence env item.id (keyStem ++ toString s.1)
      (.rollingMinutes s.1 anchor) nominal (horizonWindow request nominal) none
    .ok (some (next, s.2 ++ [occurrence]))

def expandRollingMinutes (intervalMinutes : Minutes) (spacing : Minutes) :
    Except RecurrenceError (List Occurrence) :=
  if intervalMinutes = 0 then .ok []
  else do
    let interval := intervalMinutes.toDuration
    let instant := rollingInstant anchor interval
    let elapsed := Duration.wholeMinutes (request.horizonStart.since anchor)
    let index ← Loop.runE (advanceStep request instant) (maxIndex.toNat + 1)
      (max (elapsed / intervalMinutes.toNat) 0)
    let keyStem :=
      "interval:" ++ toString anchor.nanos ++ ":" ++ toString intervalMinutes.toNat ++ ":"
    let final ← Loop.runE (rollingStep env request item anchor spacing keyStem instant
        fun start _ => start.checkedAdd interval)
      (maxIndex.toNat + 1) (index, [])
    .ok final.2

/-- The occurrences of a rolling frequency rule over a period of minutes. -/
def expandRollingFrequency (periodMinutes : ℕ) (spacing : Minutes)
    (label : String) : Except RecurrenceError (List Occurrence) :=
  if target = 0 ∨ periodMinutes < target.toNat then .ok []
  else do
    let instant := rollingFrequencyInstant anchor target periodMinutes
    let elapsed := max (Duration.wholeMinutes (request.horizonStart.since anchor)) 0
    let estimate := elapsed * target.toNat / periodMinutes
    let lower ← Loop.runE (retreatStep request instant) (estimate.toNat + 1) estimate
    let index ← Loop.runE (advanceStep request instant) (maxIndex.toNat + 1) lower
    let keyStem := label ++ ":" ++ toString anchor.nanos ++ ":" ++ toString target.toNat ++ ":" ++
      toString periodMinutes ++ ":"
    let final ← Loop.runE
      (rollingStep env request item anchor spacing keyStem instant fun _ next => instant next)
      (maxIndex.toNat + 1) (index, [])
    .ok final.2

/-- The occurrence an interval after the last completion. -/
def expandAfterCompletion
    (interval spacing : Minutes) : Except RecurrenceError (List Occurrence) := do
  let anchor := (request.recurrenceContext.completionAnchors[item.id]?).getD item.createdAt
  let due ← inRange (anchor.checkedAdd (max interval spacing).toDuration)
  let nominalEnd ← inRange (due.checkedAdd interval.toDuration)
  if request.horizonEnd ≤ due ∨ nominalEnd ≤ request.horizonStart then .ok []
  else
    let key := "after-completion:" ++ toString anchor.nanos ++ ":" ++ toString interval.toNat
    let nominal : Span := ⟨due, nominalEnd⟩
    .ok [makeOccurrence env item.id key (.afterCompletion anchor) nominal
      (horizonWindow request nominal) none]

/-! ### Rolling months -/

/-- The date a number of months later, moved to the last day of a shorter month. -/
def addMonths (date : Date) (offset : Int) : Option Date :=
  let value := date.monthIndex + offset
  let year := value / 12
  let month := (value % 12).toNat + 1
  Date.ofCalendar year month (min date.dayOfMonth (monthLength year month))

/-- The instant at which a date starts, by the resolved days if they know it. -/
def boundaryInstant (date : Date) : OffsetDateTime :=
  match days.find? fun day => day.localDate = date with
  | some day => day.start
  | none =>
    match days.find? fun day => day.localDate.nextDay = some date with
    | some previous => previous.finish
    | none => midnight date request.horizonStart

/-- The start of the part number `index` of a cycle that is cut into `target` parts. -/
def cyclePart (cycle : Span) (index target : ℕ) : Option OffsetDateTime :=
  ((Duration.checkedMul (cycle.finish.since cycle.start) index).bind
    fun d => Duration.checkedDiv d target).bind cycle.start.checkedAdd

/-- The nominal interval of the part number `index` of a cycle. -/
def cycleInterval (cycle : Span) (index target : ℕ) (spacing : Minutes) :
    Option Span := do
  let start ← if index = 0 then some cycle.start else cyclePart cycle index target
  let naturalEnd ← if index + 1 = target then some cycle.finish
    else cyclePart cycle (index + 1) target
  let finish ← occurrenceEndWithSpacing start naturalEnd spacing
  some ⟨start, finish⟩

/-- The occurrences of one cycle of months that meet the horizon. -/
def expandCycle (cycle : Int) (span : Span) : Except RecurrenceError (List Occurrence) := do
  let intervals ← (List.range target.toNat).mapM fun index =>
    inRange ((cycleInterval span index target.toNat spacing).map fun nominal => (index, nominal))
  .ok (intervals.filterMap fun (index, nominal) =>
    if nominal.start < request.horizonEnd ∧ request.horizonStart < nominal.finish then
      let key := "frequency-rolling-month:" ++ toString anchor.nanos ++ ":" ++
        toString target.toNat ++ ":" ++ toString cycle ++ ":" ++ toString index
      some (makeOccurrence env item.id key (.rollingMonth cycle (UInt16.ofNat index) anchor)
        nominal (horizonWindow request nominal) none)
    else none)

/-- One cycle after the other, up to the end of the horizon. -/
def rollingMonthStep : Except RecurrenceError (Option (Int × List Occurrence)) := do
  let startDate ← inRange (addMonths anchor.date s.1)
  let next ← nextIndex s.1
  let endDate ← inRange (addMonths anchor.date next)
  let span : Span := ⟨boundaryInstant request days startDate, boundaryInstant request days endDate⟩
  if request.horizonEnd ≤ span.start then .ok none
  else if request.horizonStart < span.finish then do
    let occurrences ← expandCycle env request item anchor target spacing s.1 span
    .ok (some (next, s.2 ++ occurrences))
  else .ok (some (next, s.2))

def expandRollingMonths : Except RecurrenceError (List Occurrence) := do
  let firstDate := (days.head?.map ZonedDayBoundary.localDate).getD request.horizonStart.date
  let cycle := max (firstDate.monthIndex - anchor.date.monthIndex - 1) 0
  let final ← Loop.runE (rollingMonthStep env request item anchor target spacing days)
    (maxIndex.toNat + 1) (cycle, [])
  .ok final.2

/-! ### Custom rules -/

/-- The name of an occurrence of a custom rule. -/
def customIdentityKey (ruleId : Uuid) (sequence : UInt32) (date : Date) : String :=
  "custom:" ++ ruleId.toText ++ ":" ++ toString sequence.toNat ++ ":" ++ date.toText

/-- The start of a custom occurrence: the start of its day, but on the day of the
anchor not before the item exists. -/
def customStart (day : ZonedDayBoundary) (date : Date) : OffsetDateTime :=
  if date = item.createdAt.date then later day.start item.createdAt else day.start

/-- The occurrence of a custom rule on one of its dates, if it meets the horizon. -/
def customOccurrence (ruleId : Uuid)
    (days : List ZonedDayBoundary) (entry : UInt32 × Date) : Option Occurrence := do
  let day ← days.find? fun day => day.localDate = entry.2
  let nominal : Span := ⟨customStart item day entry.2, day.finish⟩
  let window := horizonWindow request nominal
  if nominal.start < nominal.finish ∧ window.start < window.finish then
    some (makeOccurrence env item.id (customIdentityKey ruleId entry.1 entry.2)
      (.customRule ruleId entry.1 entry.2) nominal window (some entry.2))
  else none

/-- The occurrences of a custom rule. -/
def expandCustom (rrule : String)
    (days : List ZonedDayBoundary) : Except RecurrenceError (List Occurrence) :=
  match parseCustomRrule rrule with
  | .error error => .error (customRuleError item.id error)
  | .ok rule =>
    match days.getLast? with
    | none => .ok []
    | some last =>
      match rule.occurrenceDatesThrough item.createdAt.date last.localDate
          request.recurrenceContext.calendar.weekStartsOn with
      | .error error => .error (customRuleError item.id error)
      | .ok dates =>
        .ok (dates.filterMap (customOccurrence env request item (rule.ruleId env) days))

/-! ### Series -/

/-- The anchor of a rolling rule: its own, the one in the context, or the creation
of the item. -/
def effectiveRollingAnchor (ruleAnchor : Option OffsetDateTime) : OffsetDateTime :=
  (ruleAnchor.or request.recurrenceContext.rollingAnchors[item.id]?).getD item.createdAt

/-- The occurrences of one series. -/
def expandSeries (recurrence : Recurrence) (days : List ZonedDayBoundary) :
    Except RecurrenceError (List Occurrence) :=
  let weekStart := request.recurrenceContext.calendar.weekStartsOn
  let spacing := minimumSpacing request item
  match recurrence with
  | .daily timesPerDay =>
    .ok (expandCalendarBuckets env request item.id .daily timesPerDay spacing (dayGroups days ∅))
  | .weekly timesPerWeek weekdays =>
    (completeWeekGroups request days weekStart weekdays).map
      (expandCalendarBuckets env request item.id .weekly timesPerWeek spacing)
  | .monthly timesPerMonth =>
    (monthGroups request days ∅).map
      (expandCalendarBuckets env request item.id .monthly timesPerMonth spacing)
  | .everyInterval interval =>
    expandRollingMinutes env request item (effectiveRollingAnchor request item none) interval
      spacing
  | .afterCompletion interval => expandAfterCompletion env request item interval spacing
  | .frequency target .day .calendar weekdays _ _ =>
    .ok (expandCalendarBuckets env request item.id .frequencyCalendarDay target spacing
      (dayGroups days weekdays))
  | .frequency target .week .calendar weekdays _ _ =>
    (completeWeekGroups request days weekStart weekdays).map
      (expandCalendarBuckets env request item.id .frequencyCalendarWeek target spacing)
  | .frequency target .month .calendar weekdays _ _ =>
    (monthGroups request days weekdays).map
      (expandCalendarBuckets env request item.id .frequencyCalendarMonth target spacing)
  | .frequency target .day .rolling _ _ anchor =>
    expandRollingFrequency env request item (effectiveRollingAnchor request item anchor) target
      (24 * 60) spacing "frequency-rolling-day"
  | .frequency target .week .rolling _ _ anchor =>
    expandRollingFrequency env request item (effectiveRollingAnchor request item anchor) target
      (7 * 24 * 60) spacing "frequency-rolling-week"
  | .frequency target .month .rolling _ _ anchor =>
    expandRollingMonths env request item (effectiveRollingAnchor request item anchor) target
      spacing days
  | .custom rrule => expandCustom env request item rrule days

end DayWeave
