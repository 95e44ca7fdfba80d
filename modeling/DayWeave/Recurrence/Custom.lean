import DayWeave.Calendar
import DayWeave.Domain.Request

/-!
Custom recurrence rules: a strict, bounded subset of the RRULE grammar.

A rule has a frequency, an interval, optional lists of weekdays and days of the month, and exactly
one of a count and a final date. `parseCustomRrule` accepts a text or says what is wrong with it;
`occurrenceDatesThrough` scans the days from the anchor on and numbers those that match.
-/

open Std

namespace DayWeave

/-! ### Rules and errors -/

inductive CustomFrequency where
  | daily | weekly | monthly
deriving DecidableEq, Repr

/-- How a custom rule ends. -/
inductive CustomTermination where
  | count (n : UInt32)
  | untilDate (date : Date)
deriving DecidableEq

/-- The meaning of a custom rule. -/
structure CustomRecurrenceRule where
  frequency : CustomFrequency
  interval : UInt32
  byDay : Finset DayOfWeek
  byMonthDay : Finset Int
  termination : CustomTermination
deriving DecidableEq

inductive CustomRecurrenceRuleError where
  | empty | tooLong | invalidCharacters | malformedPart
  | duplicatePart (name : String)
  | missingFrequency
  | unsupportedFrequency (value : String)
  | invalidInterval | invalidCount | invalidByDay | unsupportedOrdinalByDay
  | duplicateByDay (token : String)
  | invalidByMonthDay
  | duplicateByMonthDay (day : Int)
  | invalidUntil | missingTermination | conflictingTermination | weeklyByMonthDay
  | unsupportedBySetPosition
  | unsupportedTimeComponent (name : String)
  | unknownPart (name : String)
  | untilBeforeAnchor | spanTooLarge | occurrenceBudgetExceeded | noOccurrences
  | countExceedsSpan | dateOutOfRange
deriving DecidableEq

namespace CustomRecurrenceRuleError

def toText : CustomRecurrenceRuleError → String
  | empty => "custom RRULE cannot be empty"
  | tooLong => "custom RRULE exceeds 1024 bytes"
  | invalidCharacters => "custom RRULE must contain printable ASCII without whitespace"
  | malformedPart => "custom RRULE contains a malformed part"
  | duplicatePart name => "custom RRULE contains duplicate part " ++ name
  | missingFrequency => "custom RRULE requires FREQ"
  | unsupportedFrequency value => "custom RRULE frequency " ++ value ++ " is unsupported"
  | invalidInterval => "custom RRULE INTERVAL must be in 1..=1200"
  | invalidCount => "custom RRULE COUNT must be in 1..=10000"
  | invalidByDay => "custom RRULE BYDAY is invalid"
  | unsupportedOrdinalByDay => "custom RRULE does not support ordinal BYDAY entries"
  | duplicateByDay token => "custom RRULE BYDAY contains duplicate " ++ token
  | invalidByMonthDay => "custom RRULE BYMONTHDAY accepts unique nonzero values in -31..=31"
  | duplicateByMonthDay day => "custom RRULE BYMONTHDAY contains duplicate " ++ toString day
  | invalidUntil => "custom RRULE UNTIL must be a valid date-only YYYYMMDD value"
  | missingTermination => "custom RRULE must define exactly one finite COUNT or UNTIL"
  | conflictingTermination => "custom RRULE cannot combine COUNT and UNTIL"
  | weeklyByMonthDay => "custom weekly RRULE cannot combine FREQ=WEEKLY with BYMONTHDAY"
  | unsupportedBySetPosition => "custom RRULE does not support BYSETPOS"
  | unsupportedTimeComponent name => "custom RRULE does not support time component " ++ name
  | unknownPart name => "custom RRULE part " ++ name ++ " is unsupported"
  | untilBeforeAnchor => "custom RRULE UNTIL precedes its item creation anchor"
  | spanTooLarge => "custom RRULE exceeds the 36600-day expansion span"
  | occurrenceBudgetExceeded => "custom RRULE exceeds the 10000-occurrence budget"
  | noOccurrences => "custom RRULE has no occurrence within the supported span"
  | countExceedsSpan => "custom RRULE COUNT cannot be reached within the supported span"
  | dateOutOfRange => "custom RRULE calendar arithmetic exceeded the supported date range"

end CustomRecurrenceRuleError

namespace CustomRecurrenceRule

def maxBytes : ℕ := 1024

def maxInterval : UInt32 := 1200

def maxOccurrences : UInt32 := 10000

/-- The longest stretch of days a rule may span. -/
def maxSpanDays : Int := 36600

/-! ### Parsing -/

def isDigit (c : Char) : Bool := '0' ≤ c && c ≤ '9'

def upper (c : Char) : Char := if 'a' ≤ c && c ≤ 'z' then Char.ofNat (c.toNat - 32) else c

def digitsValue (l : List Char) : ℕ := l.foldl (fun n c => 10 * n + (c.toNat - 48)) 0

variable (value : List Char)

/-- A number written with digits only, if it fits 32 bits. -/
def parsePlainU32 : Option UInt32 :=
  if value ≠ [] ∧ value.all isDigit then
    if digitsValue value < 4294967296 then some (UInt32.ofNat (digitsValue value)) else none
  else none

/-- The interval, between one and its largest value. -/
def parseBoundedInterval : Except CustomRecurrenceRuleError UInt32 :=
  match parsePlainU32 value with
  | some n => if 1 ≤ n ∧ n ≤ maxInterval then .ok n else .error .invalidInterval
  | none => .error .invalidInterval

/-- The count, between one and its largest value. -/
def parseBoundedCount : Except CustomRecurrenceRuleError UInt32 :=
  match parsePlainU32 value with
  | some n => if 1 ≤ n ∧ n ≤ maxOccurrences then .ok n else .error .invalidCount
  | none => .error .invalidCount

/-- The two-letter names of the weekdays. -/
def dayName : DayOfWeek → String
  | .monday => "MO"
  | .tuesday => "TU"
  | .wednesday => "WE"
  | .thursday => "TH"
  | .friday => "FR"
  | .saturday => "SA"
  | .sunday => "SU"

/-- The weekdays in order. -/
def allDays : List DayOfWeek :=
  [.monday, .tuesday, .wednesday, .thursday, .friday, .saturday, .sunday]

/-- One more weekday of a BYDAY list. -/
def addByDay (result : Finset DayOfWeek) (token : List Char) :
    Except CustomRecurrenceRuleError (Finset DayOfWeek) :=
  match allDays.find? fun day => (dayName day).toList = token with
  | some day =>
    if day ∈ result then .error (.duplicateByDay (String.ofList token)) else .ok (insert day result)
  | none =>
    if token.any fun c => isDigit c || c = '+' || c = '-' then .error .unsupportedOrdinalByDay
    else .error .invalidByDay

def parseByDay : Except CustomRecurrenceRuleError (Finset DayOfWeek) :=
  (value.splitOn ',').foldlM addByDay ∅

/-- A day of the month, from the start or from the end. -/
def parseMonthDay (token : List Char) : Option Int :=
  let value : Option Int :=
    match token with
    | [] => none
    | '-' :: digits =>
      if digits ≠ [] ∧ digits.all isDigit then some (-(digitsValue digits : Int)) else none
    | digits => if digits.all isDigit then some (digitsValue digits : Int) else none
  value.filter fun day => day ≠ 0 ∧ -31 ≤ day ∧ day ≤ 31

/-- One more day of a BYMONTHDAY list. -/
def addByMonthDay (result : Finset Int) (token : List Char) :
    Except CustomRecurrenceRuleError (Finset Int) :=
  match parseMonthDay token with
  | none => .error .invalidByMonthDay
  | some day => if day ∈ result then .error (.duplicateByMonthDay day) else .ok (insert day result)

def parseByMonthDay : Except CustomRecurrenceRuleError (Finset Int) :=
  (value.splitOn ',').foldlM addByMonthDay ∅

/-- A final date, written as YYYYMMDD. -/
def parseUntil : Except CustomRecurrenceRuleError Date :=
  if value.length ≠ 8 ∨ ¬ value.all isDigit then .error .invalidUntil
  else
    let year := digitsValue (value.take 4)
    if year = 0 then .error .invalidUntil
    else
      match Date.ofCalendar year (digitsValue ((value.drop 4).take 2))
          (digitsValue (value.drop 6)) with
      | some date => .ok date
      | none => .error .invalidUntil

/-- The parts of a rule that have been read. -/
structure Parts where
  seen : List (List Char) := []
  frequency : Option CustomFrequency := none
  interval : Option UInt32 := none
  byDay : Option (Finset DayOfWeek) := none
  byMonthDay : Option (Finset Int) := none
  count : Option UInt32 := none
  untilDate : Option Date := none

def parseFrequency : Except CustomRecurrenceRuleError CustomFrequency :=
  match String.ofList value with
  | "DAILY" => .ok .daily
  | "WEEKLY" => .ok .weekly
  | "MONTHLY" => .ok .monthly
  | other => .error (.unsupportedFrequency other)

def addPart (parts : Parts) (part : List Char) : Except CustomRecurrenceRuleError Parts :=
  let rawName := part.takeWhile (· ≠ '=')
  let rawValue := (part.dropWhile (· ≠ '=')).drop 1
  if '=' ∉ part ∨ rawName = [] ∨ rawValue = [] ∨ '=' ∈ rawValue then .error .malformedPart
  else
    let name := rawName.map upper
    let value := rawValue.map upper
    if name ∈ parts.seen then .error (.duplicatePart (String.ofList name))
    else
      let parts := { parts with seen := name :: parts.seen }
      match String.ofList name with
      | "FREQ" => (parseFrequency value).map fun v => { parts with frequency := some v }
      | "INTERVAL" => (parseBoundedInterval value).map fun v => { parts with interval := some v }
      | "BYDAY" => (parseByDay value).map fun v => { parts with byDay := some v }
      | "BYMONTHDAY" => (parseByMonthDay value).map fun v => { parts with byMonthDay := some v }
      | "COUNT" => (parseBoundedCount value).map fun v => { parts with count := some v }
      | "UNTIL" => (parseUntil value).map fun v => { parts with untilDate := some v }
      | "BYSETPOS" => .error .unsupportedBySetPosition
      | "BYHOUR" | "BYMINUTE" | "BYSECOND" =>
        .error (.unsupportedTimeComponent (String.ofList name))
      | other => .error (.unknownPart other)

/-- How the rule ends: exactly one of a count and a final date is given. -/
def Parts.termination (parts : Parts) : Except CustomRecurrenceRuleError CustomTermination :=
  match parts.count, parts.untilDate with
  | none, none => .error .missingTermination
  | some _, some _ => .error .conflictingTermination
  | some n, none => .ok (.count n)
  | none, some date => .ok (.untilDate date)

def Parts.toRule (parts : Parts) : Except CustomRecurrenceRuleError CustomRecurrenceRule :=
  match parts.frequency with
  | none => .error .missingFrequency
  | some frequency =>
    match parts.termination with
    | .error error => .error error
    | .ok termination =>
      let byMonthDay := parts.byMonthDay.getD ∅
      if frequency = .weekly ∧ byMonthDay ≠ ∅ then .error .weeklyByMonthDay
      else
        .ok ⟨frequency, parts.interval.getD 1, parts.byDay.getD ∅, byMonthDay, termination⟩

end CustomRecurrenceRule

open CustomRecurrenceRule in
def parseCustomRrule (rrule : String) : Except CustomRecurrenceRuleError CustomRecurrenceRule :=
  let chars := rrule.toList
  if chars = [] then .error .empty
  else if maxBytes < rrule.utf8ByteSize then .error .tooLong
  else if ¬ chars.all fun c => 33 ≤ c.toNat && c.toNat ≤ 126 then .error .invalidCharacters
  else
    let body := if (chars.take 6).map upper = "RRULE:".toList then chars.drop 6 else chars
    if body = [] then .error .empty
    else ((body.splitOn ';').foldlM addPart {}).bind Parts.toRule

namespace CustomRecurrenceRule

/-! ### The canonical text -/

def commaJoin (l : List String) : String := String.intercalate "," l

def frequencyName : CustomFrequency → String
  | .daily => "DAILY"
  | .weekly => "WEEKLY"
  | .monthly => "MONTHLY"

/-- The weekdays of a set, in order. -/
def weekdays (days : Finset DayOfWeek) : List DayOfWeek := allDays.filter (· ∈ days)

/-- The days of the month of a set, in order; negative ones count from the end of the month. -/
def monthDays (days : Finset Int) : List Int :=
  ((List.range 63).map fun n : ℕ => (n : Int) - 31).filter (· ∈ days)

def byDayText (days : Finset DayOfWeek) : String :=
  if days = ∅ then "" else ";BYDAY=" ++ commaJoin ((weekdays days).map dayName)

def byMonthDayText (days : Finset Int) : String :=
  if days = ∅ then "" else ";BYMONTHDAY=" ++ commaJoin ((monthDays days).map toString)

/-- How a rule ends, as text. -/
def terminationText : CustomTermination → String
  | .count n => ";COUNT=" ++ toString n.toNat
  | .untilDate date =>
    ";UNTIL=" ++ Date.yearText date.year ++ padDecimal 2 date.month ++ padDecimal 2 date.dayOfMonth

variable (rule : CustomRecurrenceRule) (anchor : Date) (weekStartsOn : DayOfWeek)

def canonical : String :=
  "FREQ=" ++ frequencyName rule.frequency ++ ";INTERVAL=" ++ toString rule.interval.toNat ++
    byDayText rule.byDay ++ byMonthDayText rule.byMonthDay ++ terminationText rule.termination

/-- The identifier of a rule, derived from its canonical text. -/
def ruleId (env : Externals) (rule : CustomRecurrenceRule) : Uuid :=
  env.newV5 (Uuid.ofNat 0x4441595745415645435553544f4d0001) rule.canonical.toUTF8.toList

/-! ### The dates of a rule -/

/-- The last day to look at, and the number of occurrences to reach, if any. -/
def searchBounds : Except CustomRecurrenceRuleError (Date × Option UInt32) :=
  match rule.termination with
  | .count n =>
    match anchor.checkedAddDays (maxSpanDays - 1) with
    | some date => .ok (date, some n)
    | none => .error .dateOutOfRange
  | .untilDate date =>
    if date < anchor then .error .untilBeforeAnchor
    else if maxSpanDays < date.toJulianDay - anchor.toJulianDay + 1 then .error .spanTooLarge
    else .ok (date, none)

/-- Whether a date is an occurrence of the rule. -/
def matchesDate (anchor date : Date) (weekStartsOn : DayOfWeek) : Bool :=
  let interval : Int := rule.interval.toNat
  let intervalMatches : Bool :=
    match rule.frequency with
    | .daily => (date.toJulianDay - anchor.toJulianDay) % interval = 0
    | .weekly =>
      Int.tdiv (date.weekKey weekStartsOn - anchor.weekKey weekStartsOn) 7 % interval = 0
    | .monthly => (date.monthIndex - anchor.monthIndex) % interval = 0
  let weekdayMatches : Bool :=
    if rule.byDay = ∅ then rule.frequency ≠ .weekly ∨ date.weekday = anchor.weekday
    else date.weekday ∈ rule.byDay
  let monthDayMatches : Bool :=
    if rule.byMonthDay = ∅ then
      rule.frequency ≠ .monthly ∨ rule.byDay ≠ ∅ ∨ date.dayOfMonth = anchor.dayOfMonth
    else
      (date.dayOfMonth : Int) ∈ rule.byMonthDay ∨
        (date.dayOfMonth : Int) - monthLength date.year date.month - 1 ∈ rule.byMonthDay
  decide (anchor ≤ date) && intervalMatches && weekdayMatches && monthDayMatches

/-- The scan must have found something, and it must not have been looking for a
number of occurrences it did not reach. -/
def validateScanResult (count : UInt32) (target : Option UInt32) :
    Except CustomRecurrenceRuleError Unit :=
  if count = 0 then .error .noOccurrences
  else if target.isSome then .error .countExceedsSpan
  else .ok ()

/-- Scans the days from `date` to the last day, `days` of them being left after
`date`; `count` occurrences have been found before. -/
def scan (rule : CustomRecurrenceRule) (anchor through : Date) (weekStartsOn : DayOfWeek)
    (target : Option UInt32) :
    ℕ → Date → UInt32 → Except CustomRecurrenceRuleError (List (UInt32 × Date))
  | days, date, count =>
    let hit := rule.matchesDate anchor date weekStartsOn
    if hit ∧ count = maxOccurrences then .error .occurrenceBudgetExceeded
    else
      let found := if hit ∧ date ≤ through then [(count, date)] else []
      let count' := if hit then count + 1 else count
      if hit ∧ target = some count' then .ok found
      else
        match days with
        | 0 => (validateScanResult count' target).map fun _ => found
        | days + 1 =>
          match date.nextDay with
          | none => .error .dateOutOfRange
          | some next =>
            (scan rule anchor through weekStartsOn target days next count').map (found ++ ·)

/-- The numbered occurrences of a rule up to the date `through`. -/
def occurrenceDatesThrough (anchor through : Date)
    (weekStartsOn : DayOfWeek) : Except CustomRecurrenceRuleError (List (UInt32 × Date)) :=
  (rule.searchBounds anchor).bind fun (final, target) =>
    rule.scan anchor through weekStartsOn target (final.day - anchor.day).toNat anchor 0

def maxDate : Date := ⟨2932896, Date.min_le_max, Int.le_refl _⟩

def allOccurrenceDates : Except CustomRecurrenceRuleError (List Date) :=
  (rule.occurrenceDatesThrough anchor maxDate weekStartsOn).map fun l => l.map Prod.snd

end CustomRecurrenceRule

end DayWeave
