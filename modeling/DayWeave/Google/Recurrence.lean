import Mathlib.Algebra.Order.BigOperators.Group.List
import Mathlib.Data.List.TakeWhile
import DayWeave.Lib.Result
import DayWeave.Lib.Text
import DayWeave.Recurrence.Custom

/-!
Recurrence properties of the provider, as lines of iCalendar text.

`unfold` joins folded lines, and `RecurrenceSet.parse` reads one property from each. Joining takes
all blanks off the start of a continuation, so folding is transparent only where the content
after a fold does not begin with a blank (`unfold_folded_iff`). A BYDAY entry is cut two bytes
before its end; `recurrenceSet_parse_iff` says when that is within a character, where the source
stops the program.
-/

namespace DayWeave.Google

open CustomRecurrenceRule (allDays dayName digitsValue isDigit upper)
open Except (bind_eq_error bind_eq_ok mapError_eq_ok map_eq_ok require require_eq_ok)
open Option (okOr_eq_ok)
open List

/-! ### Rules -/

inductive RecurrenceParseError where
  | malformed (text : List Char)
  | missingFrequency
  | duplicateRulePart (name : List Char)
  | invalidRuleValue (name : String) (value : List Char)
  | countAndUntil
deriving DecidableEq

/-- How a call fails: with an error, or because a text is cut within a character, where the
source stops the program. -/
inductive ParseFailure where
  | error (reason : RecurrenceParseError)
  | crash
deriving DecidableEq

/-- The result of a call that may stop the program. -/
abbrev Parsed := Except ParseFailure

/-- The result of a call that does not. -/
def checked {α : Type} (x : Except RecurrenceParseError α) : Parsed α := x.mapError .error

inductive Frequency where
  | secondly | minutely | hourly | daily | weekly | monthly | yearly
deriving DecidableEq

/-- A weekday, or the weekday with a number in the month or the year. -/
structure ByDay where
  ordinal : Option Int
  weekday : DayOfWeek
deriving DecidableEq

/-- Names with values; no name comes twice. They keep the order of the text where the source sorts
them by name, which no result reads. -/
abbrev Entries := List (List Char × List Char)

structure RecurrenceRule where
  frequency : Frequency
  interval : Int
  count : Option Int
  untilText : Option (List Char)
  weekStart : Option DayOfWeek
  byDay : List ByDay
  byMonthDay : List Int
  byYearDay : List Int
  byWeekNumber : List Int
  byMonth : List Int
  byHour : List Int
  byMinute : List Int
  bySecond : List Int
  bySetPosition : List Int
  extensions : Entries
deriving DecidableEq

structure DateValueList where
  timeZone : Option (List Char)
  valueType : Option (List Char)
  values : List (List Char)
  parameters : Entries
deriving DecidableEq

/-- What the lines of an event say. -/
structure RecurrenceSet where
  rules : List RecurrenceRule := []
  exceptionRules : List RecurrenceRule := []
  inclusionDates : List DateValueList := []
  exclusionDates : List DateValueList := []
  extensions : List (List Char) := []
deriving DecidableEq

/-! ### Entries and values -/

def Entries.value (entries : Entries) (name : String) : Option (List Char) :=
  (entries.find? fun entry => entry.1 = name.toList).map Prod.snd

def Entries.without (entries : Entries) (names : List String) : Entries :=
  entries.filter fun entry => names.all fun name => name.toList ≠ entry.1

/-- One more entry; `repeated` is the error if its name was there before. -/
def addEntry (repeated : List Char → List Char → RecurrenceParseError) (entries : Entries)
    (text : List Char) : Except RecurrenceParseError Entries :=
  match Text.splitOnce '=' text with
  | none => .error (.malformed text)
  | some (name, value) =>
    let name := name.map upper
    if name = [] ∨ value = [] then .error (.malformed text)
    else if entries.any fun entry => entry.1 = name then .error (repeated text name)
    else .ok (entries ++ [(name, value)])

def parseParameters (values : List (List Char)) : Except RecurrenceParseError Entries :=
  values.foldlM (addEntry fun text _ => .malformed text) []

def ruleParts (value : List Char) : Except RecurrenceParseError Entries :=
  (value.splitOn ';').foldlM (addEntry fun _ name => .duplicateRulePart name) []

/-- A number of a machine type with the given bounds: digits after a plus, or after a minus if
the type has negative numbers. -/
def parseInteger (low high : Int) (value : List Char) : Option Int :=
  let (negative, digits) :=
    match value with
    | '+' :: rest => (false, rest)
    | '-' :: rest => if low < 0 then (true, rest) else (false, value)
    | _ => (false, value)
  if digits = [] ∨ ¬ digits.all isDigit then none
  else
    (some (if negative then -digitsValue digits else digitsValue digits : Int)).filter fun n =>
      low ≤ n ∧ n ≤ high

/-- The bounds of a machine type. -/
def i8 : Int × Int := (-128, 127)

@[inherit_doc i8] def i16 : Int × Int := (-32768, 32767)

@[inherit_doc i8] def u8 : Int × Int := (0, 255)

/-- A number of a machine type between two bounds. -/
def parseRanged (error : RecurrenceParseError) (type : Int × Int) (minimum maximum : Int)
    (disallowZero : Bool) (value : List Char) : Except RecurrenceParseError Int := do
  let n ← (parseInteger type.1 type.2 value).okOr error
  require (¬ (n < minimum ∨ maximum < n ∨ (disallowZero ∧ n = 0))) error
  return n

/-- The number of a part, in thirty-two bits without a sign. -/
def optionalNumber (parts : Entries) (name : String) : Except RecurrenceParseError (Option Int) :=
  (parts.value name).mapM fun value =>
    (parseInteger 0 4294967295 value).okOr (.invalidRuleValue name value)

def optionalList {ε α : Type} (parts : Entries) (name : String) (parse : List Char → Except ε α) :
    Except ε (List α) :=
  match parts.value name with
  | none => .ok []
  | some value => (value.splitOn ',').mapM parse

/-- A list of numbers of a machine type between two bounds. -/
def rangedList (parts : Entries) (name : String) (type : Int × Int) (minimum maximum : Int)
    (disallowZero : Bool) : Except RecurrenceParseError (List Int) :=
  optionalList parts name fun value =>
    parseRanged (.invalidRuleValue name value) type minimum maximum disallowZero value

def Frequency.parse (value : List Char) : Except RecurrenceParseError Frequency :=
  match String.ofList (value.map upper) with
  | "SECONDLY" => .ok .secondly
  | "MINUTELY" => .ok .minutely
  | "HOURLY" => .ok .hourly
  | "DAILY" => .ok .daily
  | "WEEKLY" => .ok .weekly
  | "MONTHLY" => .ok .monthly
  | "YEARLY" => .ok .yearly
  | _ => .error (.invalidRuleValue "FREQ" value)

def parseWeekday (value : List Char) : Except RecurrenceParseError DayOfWeek :=
  (allDays.find? fun day => (dayName day).toList = value.map upper).okOr
    (.invalidRuleValue "weekday" value)

/-- The number of bytes of a text. -/
def byteLength (l : List Char) : ℕ := (l.map Char.utf8Size).sum

/-- A text in two at a number of bytes, if that is not within a character. -/
def splitAtBytes (n : ℕ) : List Char → Option (List Char × List Char)
  | [] => if n = 0 then some ([], []) else none
  | c :: l =>
    if n = 0 then some ([], c :: l)
    else if c.utf8Size ≤ n then (splitAtBytes (n - c.utf8Size) l).map fun (a, b) => (c :: a, b)
    else none

/-- The number of a BYDAY entry, if it has one. -/
def ByDay.parseOrdinal (value ordinal : List Char) : Except RecurrenceParseError (Option Int) :=
  if ordinal = [] then .ok none
  else (parseRanged (.invalidRuleValue "BYDAY" value) i8 (-53) 53 true ordinal).map some

/-- A BYDAY entry in its two pieces. -/
def ByDay.read (value ordinal weekday : List Char) : Except RecurrenceParseError ByDay := do
  let ordinal ← ByDay.parseOrdinal value ordinal
  let weekday ← (parseWeekday weekday).mapError fun _ => .invalidRuleValue "BYDAY" value
  return ⟨ordinal, weekday⟩

/-- A BYDAY entry: its last two bytes are the weekday. -/
def ByDay.parse (value : List Char) : Parsed ByDay :=
  if byteLength value < 2 then .error (.error (.invalidRuleValue "BYDAY" value))
  else
    match splitAtBytes (byteLength value - 2) value with
    | none => .error .crash
    | some (ordinal, weekday) => checked (ByDay.read value ordinal weekday)

/-- What is known of a rule before BYDAY is read. -/
structure RuleHead where
  frequency : Frequency
  interval : Int
  count : Option Int
  untilText : Option (List Char)
  weekStart : Option DayOfWeek

/-- Reads the parts before BYDAY. -/
def ruleHead (parts : Entries) : Except RecurrenceParseError RuleHead := do
  let name ← (parts.value "FREQ").okOr .missingFrequency
  let frequency ← Frequency.parse name
  let interval := (← optionalNumber parts "INTERVAL").getD 1
  require (interval ≠ 0) (.invalidRuleValue "INTERVAL" ['0'])
  let count ← optionalNumber parts "COUNT"
  require (count ≠ some 0) (.invalidRuleValue "COUNT" ['0'])
  let untilText := parts.value "UNTIL"
  require (¬ (count.isSome ∧ untilText.isSome)) .countAndUntil
  let weekStart ← (parts.value "WKST").mapM parseWeekday
  return ⟨frequency, interval, count, untilText, weekStart⟩

/-- Reads the lists after BYDAY and finishes the rule. -/
def ruleTail (parts : Entries) (head : RuleHead) (byDay : List ByDay) :
    Except RecurrenceParseError RecurrenceRule := do
  let byMonthDay ← rangedList parts "BYMONTHDAY" i8 (-31) 31 true
  let byYearDay ← rangedList parts "BYYEARDAY" i16 (-366) 366 true
  let byWeekNumber ← rangedList parts "BYWEEKNO" i8 (-53) 53 true
  let byMonth ← rangedList parts "BYMONTH" u8 1 12 false
  let byHour ← rangedList parts "BYHOUR" u8 0 23 false
  let byMinute ← rangedList parts "BYMINUTE" u8 0 59 false
  let bySecond ← rangedList parts "BYSECOND" u8 0 60 false
  let bySetPosition ← rangedList parts "BYSETPOS" i16 (-366) 366 true
  return ⟨head.frequency, head.interval, head.count, head.untilText, head.weekStart, byDay,
    byMonthDay, byYearDay, byWeekNumber, byMonth, byHour, byMinute, bySecond, bySetPosition,
    parts.without ["FREQ", "INTERVAL", "COUNT", "UNTIL", "WKST", "BYDAY", "BYMONTHDAY",
      "BYYEARDAY", "BYWEEKNO", "BYMONTH", "BYHOUR", "BYMINUTE", "BYSECOND", "BYSETPOS"]⟩

def RecurrenceRule.parse (value : List Char) : Parsed RecurrenceRule := do
  let parts ← checked (ruleParts value)
  let head ← checked (ruleHead parts)
  let byDay ← optionalList parts "BYDAY" ByDay.parse
  checked (ruleTail parts head byDay)

def DateValueList.parse (parameters : Entries) (value : List Char) :
    Except RecurrenceParseError DateValueList :=
  let values := value.splitOn ','
  if values.any isEmpty then .error (.malformed value)
  else .ok ⟨parameters.value "TZID", parameters.value "VALUE", values,
    parameters.without ["TZID", "VALUE"]⟩

/-! ### Properties -/

/-- Whether a character at the start of a physical line continues the line before. -/
def isFoldBlank (c : Char) : Bool := c = ' ' || c = '\t'

/-- Line breaks of two characters become one character. -/
def replaceBreaks : List Char → List Char
  | '\r' :: '\n' :: l => '\n' :: replaceBreaks l
  | c :: l => c :: replaceBreaks l
  | [] => []

/-- One more physical line of a property. -/
def addPhysical (property : List Char) (result : List (List Char)) (physical : List Char) :
    Except RecurrenceParseError (List (List Char)) :=
  if physical.head?.any isFoldBlank then
    match result.getLast? with
    | none => .error (.malformed property)
    | some previous => .ok (result.dropLast ++ [previous ++ physical.dropWhile isFoldBlank])
  else if physical = [] then .ok result
  else .ok (result ++ [physical])

/-- The lines of the properties, without folds. -/
def unfold (properties : List (List Char)) : Except RecurrenceParseError (List (List Char)) :=
  properties.foldlM (fun result property =>
    ((replaceBreaks property).splitOn '\n').foldlM (addPhysical property) result) []

/-- The meaning of one line. -/
inductive Property where
  | rule (rule : RecurrenceRule)
  | exceptionRule (rule : RecurrenceRule)
  | inclusionDates (dates : DateValueList)
  | exclusionDates (dates : DateValueList)
  | extension (line : List Char)

def Property.parse (line : List Char) : Parsed Property :=
  match Text.splitOnce ':' line with
  | none => .error (.error (.malformed line))
  | some (header, value) => do
    let parts := header.splitOn ';'
    let parameters ← checked (parseParameters parts.tail)
    let name := String.ofList ((parts.headD []).map upper)
    if name = "RRULE" then (RecurrenceRule.parse value).map .rule
    else if name = "EXRULE" then (RecurrenceRule.parse value).map .exceptionRule
    else if name = "RDATE" then
      checked ((DateValueList.parse parameters value).map .inclusionDates)
    else if name = "EXDATE" then
      checked ((DateValueList.parse parameters value).map .exclusionDates)
    else .ok (.extension line)

/-- One more property. -/
def RecurrenceSet.push (set : RecurrenceSet) : Property → RecurrenceSet
  | .rule rule => { set with rules := set.rules ++ [rule] }
  | .exceptionRule rule => { set with exceptionRules := set.exceptionRules ++ [rule] }
  | .inclusionDates dates => { set with inclusionDates := set.inclusionDates ++ [dates] }
  | .exclusionDates dates => { set with exclusionDates := set.exclusionDates ++ [dates] }
  | .extension line => { set with extensions := set.extensions ++ [line] }

/-- Reads the properties of an event, line by line. -/
def RecurrenceSet.parse (properties : List (List Char)) : Parsed RecurrenceSet := do
  let lines ← checked (unfold properties)
  return (← lines.mapM Property.parse).foldl RecurrenceSet.push {}

/-! ### Folds -/

/-- A fold of a line: the line break and the blank of the fold, and the content after it. -/
structure Fold where
  crlf : Bool
  tab : Bool
  content : List Char

/-- The physical line that a fold begins. -/
def Fold.physical (fold : Fold) : List Char := (if fold.tab then '\t' else ' ') :: fold.content

/-- A line that is folded behind its first piece. -/
def folded (first : List Char) (folds : List Fold) : List Char :=
  first ++ folds.flatMap fun fold => (if fold.crlf then ['\r', '\n'] else ['\n']) ++ fold.physical

/-- The line without its folds. -/
def content (first : List Char) (folds : List Fold) : List Char :=
  first ++ folds.flatMap Fold.content

section

variable {first l m : List Char} {folds : List Fold} {property : List Char}

lemma replaceBreaks_append (h : '\r' ∉ l) : replaceBreaks (l ++ m) = l ++ replaceBreaks m := by
  induction l with
  | nil => rfl
  | cons c l ih =>
    rw [mem_cons, not_or] at h
    rw [cons_append, replaceBreaks, ih h.2, cons_append]
    intro l' hc
    exact absurd hc.symm h.1

/-- The two forms of a line break are read alike. -/
lemma replaceBreaks_folded (h : '\r' ∉ content first folds) :
    replaceBreaks (folded first folds) = ['\n'].intercalate (first :: folds.map Fold.physical) := by
  simp only [content, mem_append, mem_flatMap, not_or, not_exists, not_and] at h
  rw [folded, replaceBreaks_append h.1, Text.intercalate_cons, flatMap_map]
  congr 1
  have hfolds := h.2
  clear h
  induction folds with
  | nil => rfl
  | cons fold folds ih =>
    have hblank : '\r' ∉ fold.physical := by
      rw [Fold.physical, mem_cons, not_or]
      exact ⟨by split <;> decide, hfolds fold mem_cons_self⟩
    rw [flatMap_cons, flatMap_cons, ← ih fun f hf => hfolds f (mem_cons_of_mem _ hf), append_assoc]
    cases fold.crlf <;> simp [replaceBreaks, replaceBreaks_append hblank]

/-- A continuation loses all the blanks it begins with. -/
lemma foldlM_addPhysical (line : List Char) :
    (folds.map Fold.physical).foldlM (addPhysical property) [line] =
      .ok [line ++ folds.flatMap fun fold => fold.content.dropWhile isFoldBlank] := by
  induction folds generalizing line with
  | nil => simp [pure, Except.pure]
  | cons fold folds ih =>
    have hblank : isFoldBlank (if fold.tab then '\t' else ' ') = true := by split <;> rfl
    have hstep : addPhysical property [line] fold.physical =
        .ok [line ++ fold.content.dropWhile isFoldBlank] := by
      simp [addPhysical, Fold.physical, hblank]
    rw [map_cons, foldlM_cons, hstep, flatMap_cons, ← append_assoc]
    exact ih _

lemma unfold_folded (hne : first ≠ []) (hfst : ¬ first.head?.any isFoldBlank)
    (hline : ∀ c ∈ content first folds, c ≠ '\r' ∧ c ≠ '\n') : unfold [folded first folds] =
      .ok [first ++ folds.flatMap fun fold => fold.content.dropWhile isFoldBlank] := by
  have hbreak : ∀ piece ∈ first :: folds.map Fold.physical, '\n' ∉ piece := by
    simp only [content, mem_append, mem_flatMap] at hline
    simp only [mem_cons, mem_map, forall_eq_or_imp, forall_exists_index, and_imp,
      forall_apply_eq_imp_iff₂, Fold.physical, not_or]
    refine ⟨fun h => (hline _ (.inl h)).2 rfl, fun fold hfold => ⟨by split <;> decide, ?_⟩⟩
    exact fun h => (hline _ (.inr ⟨fold, hfold, h⟩)).2 rfl
  rw [unfold, foldlM_cons, replaceBreaks_folded fun h => (hline _ h).1 rfl,
    splitOn_intercalate _ hbreak (cons_ne_nil _ _), foldlM_cons, addPhysical, if_neg hfst,
    if_neg hne]
  exact (congrArg (· >>= _) (foldlM_addPhysical first)).trans rfl

/-- Nothing is lost just where no piece begins with a blank. -/
lemma flatMap_dropWhile_eq_iff :
    (folds.flatMap fun fold => fold.content.dropWhile isFoldBlank) = folds.flatMap Fold.content ↔
      ∀ fold ∈ folds, ¬ fold.content.head?.any isFoldBlank := by
  have hle : ∀ folds : List Fold,
      (folds.flatMap fun fold => fold.content.dropWhile isFoldBlank).length ≤
        (folds.flatMap Fold.content).length := fun folds => by
    simp only [length_flatMap]
    exact sum_le_sum fun fold _ => (dropWhile_suffix _).length_le
  induction folds with
  | nil => simp
  | cons fold folds ih =>
    have hhead : fold.content.dropWhile isFoldBlank = fold.content ↔
        ¬ fold.content.head?.any isFoldBlank := by
      rw [dropWhile_eq_self_iff]
      cases fold.content <;> simp
    rw [flatMap_cons, flatMap_cons, forall_mem_cons]
    refine .trans ⟨fun h => append_inj h ?_, fun h => by rw [h.1, h.2]⟩ (and_congr hhead ih)
    have := hle folds
    have := congrArg length h
    have := (dropWhile_suffix (l := fold.content) isFoldBlank).length_le
    simp only [length_append] at *
    omega

/-- **Folding is transparent where no content begins with a blank.** A line is read back from its
folded form if and only if no piece after a fold begins with a space or a tab of its own; then
both have the same meaning. -/
theorem unfold_folded_iff (hne : first ≠ []) (hfst : ¬ first.head?.any isFoldBlank)
    (hline : ∀ c ∈ content first folds, c ≠ '\r' ∧ c ≠ '\n') :
    (unfold [folded first folds] = unfold [content first folds] ↔
      ∀ fold ∈ folds, ¬ fold.content.head?.any isFoldBlank) ∧
    ((∀ fold ∈ folds, ¬ fold.content.head?.any isFoldBlank) →
      RecurrenceSet.parse [folded first folds] = RecurrenceSet.parse [content first folds]) := by
  have hpn : unfold [content first folds] = .ok [content first folds] := by
    have h := @unfold_folded (content first folds) [] (by simp [content, hne])
      (by rwa [content, head?_append_of_ne_nil _ hne]) (by simpa [content] using hline)
    simpa [folded] using h
  have hiff : unfold [folded first folds] = unfold [content first folds] ↔
      ∀ fold ∈ folds, ¬ fold.content.head?.any isFoldBlank := by
    rw [unfold_folded hne hfst hline, hpn, ← flatMap_dropWhile_eq_iff]
    simp [content]
  refine ⟨hiff, fun h => ?_⟩
  rw [RecurrenceSet.parse, RecurrenceSet.parse, hiff.mpr h]

end

/-- A blank that belongs to the content is lost when it comes right after a fold. -/
theorem fold_before_blank_not_transparent :
    RecurrenceSet.parse [folded "X-NOTE:a".toList [⟨true, false, " b".toList⟩]] ≠
      RecurrenceSet.parse [content "X-NOTE:a".toList [⟨true, false, " b".toList⟩]] := by
  decide +kernel

/-- A rule folded within the name of its frequency. -/
theorem unfold_folded_iff_rule :
    RecurrenceSet.parse [folded "RRULE:FREQ=DA".toList [⟨false, true, "ILY".toList⟩]] =
      RecurrenceSet.parse ["RRULE:FREQ=DAILY".toList] :=
  (unfold_folded_iff (by decide) (by decide) (forall_iff_forall_mem.mp (by decide))).2 (by decide)

/-! ### Cuts within a character -/

/-- The parser comes to a text with a property: it has read all texts before. -/
def ComesTo {α : Type} (parse : List Char → Parsed α) (P : List Char → Prop) :
    List (List Char) → Prop
  | [] => False
  | text :: texts => P text ∨ (∃ a, parse text = .ok a) ∧ ComesTo parse P texts

/-- Two bytes before the end of an entry is within a character: the last one has three bytes or
more, or it has one and the one before it two or more. -/
def ByDay.IsCut (value : List Char) : Prop :=
  match value.reverse with
  | [] => False
  | [c] => 3 ≤ c.utf8Size
  | c :: b :: _ => 3 ≤ c.utf8Size ∨ (c.utf8Size = 1 ∧ 2 ≤ b.utf8Size)

/-- A rule with an entry that is cut within a character, and nothing wrong before it. -/
def RecurrenceRule.HasCut (value : List Char) : Prop :=
  ∃ parts head text, ruleParts value = .ok parts ∧ ruleHead parts = .ok head ∧
    parts.value "BYDAY" = some text ∧ ComesTo ByDay.parse ByDay.IsCut (text.splitOn ',')

/-- A line with such a rule. -/
def Property.HasCut (line : List Char) : Prop :=
  ∃ header value parameters, Text.splitOnce ':' line = some (header, value) ∧
    parseParameters (header.splitOn ';').tail = .ok parameters ∧
    String.ofList (((header.splitOn ';').headD []).map upper) ∈ ["RRULE", "EXRULE"] ∧
    RecurrenceRule.HasCut value

/-- The values of a rule are in the ranges of the grammar. -/
structure RecurrenceRule.InRange (rule : RecurrenceRule) : Prop where
  interval : 1 ≤ rule.interval
  termination : rule.count = none ∨ rule.untilText = none
  byDay : ∀ day ∈ rule.byDay, ∀ n ∈ day.ordinal, -53 ≤ n ∧ n ≤ 53 ∧ n ≠ 0
  byMonthDay : ∀ n ∈ rule.byMonthDay, -31 ≤ n ∧ n ≤ 31 ∧ n ≠ 0
  byYearDay : ∀ n ∈ rule.byYearDay, -366 ≤ n ∧ n ≤ 366 ∧ n ≠ 0
  byWeekNumber : ∀ n ∈ rule.byWeekNumber, -53 ≤ n ∧ n ≤ 53 ∧ n ≠ 0
  byMonth : ∀ n ∈ rule.byMonth, 1 ≤ n ∧ n ≤ 12
  byHour : ∀ n ∈ rule.byHour, 0 ≤ n ∧ n ≤ 23
  byMinute : ∀ n ∈ rule.byMinute, 0 ≤ n ∧ n ≤ 59
  bySecond : ∀ n ∈ rule.bySecond, 0 ≤ n ∧ n ≤ 60
  bySetPosition : ∀ n ∈ rule.bySetPosition, -366 ≤ n ∧ n ≤ 366 ∧ n ≠ 0

/-- The parser comes to an entry that it cuts within a character. -/
def RecurrenceSet.HasCut (properties : List (List Char)) : Prop :=
  ∃ lines, unfold properties = .ok lines ∧ ComesTo Property.parse Property.HasCut lines

section

variable {l value : List Char}

/-- What is before a cut makes no difference to it. -/
lemma splitAtBytes_append {n : ℕ} (a : List Char) :
    splitAtBytes (byteLength a + n) (a ++ l) = none ↔ splitAtBytes n l = none := by
  induction a with
  | nil => simp [byteLength]
  | cons c a ih =>
    have hpos := c.utf8Size_pos
    have hlen : byteLength (c :: a) + n = c.utf8Size + (byteLength a + n) := Nat.add_assoc ..
    rw [hlen, cons_append, splitAtBytes, if_neg (by omega), if_pos (by omega),
      Nat.add_sub_cancel_left, Option.map_eq_none_iff, ih]

/-- The cut two bytes before the end, by characters. -/
lemma isCut_iff : ByDay.IsCut value ↔
    2 ≤ byteLength value ∧ splitAtBytes (byteLength value - 2) value = none := by
  obtain ⟨r, rfl⟩ : ∃ r : List Char, value = r.reverse := ⟨_, (reverse_reverse value).symm⟩
  rw [ByDay.IsCut, reverse_reverse]
  match r with
  | [] => simp [byteLength]
  | [c] =>
    have hc := c.utf8Size_pos
    simp only [reverse_singleton, byteLength, map_singleton, sum_singleton, splitAtBytes]
    split_ifs <;> simp <;> omega
  | c :: b :: r =>
    have hc := c.utf8Size_pos
    have hb := b.utf8Size_pos
    have hlen : byteLength (c :: b :: r).reverse =
        byteLength r.reverse + (b.utf8Size + c.utf8Size) := by
      simp [byteLength]
    rw [hlen, Nat.add_sub_assoc (by omega), reverse_cons, reverse_cons, append_assoc,
      splitAtBytes_append]
    simp only [singleton_append, splitAtBytes]
    split_ifs <;> simp <;> omega

variable {α : Type} {parse : List Char → Parsed α} {P : List Char → Prop} {texts : List (List Char)}
  {line : List Char} {parts : Entries} {rule : RecurrenceRule}

@[simp] lemma checked_ne_crash (x : Except RecurrenceParseError α) : checked x ≠ .error .crash := by
  cases x <;> simp [checked, Except.mapError]

@[simp] lemma checked_eq_ok {x : Except RecurrenceParseError α} {a : α} :
    checked x = .ok a ↔ x = .ok a := mapError_eq_ok

lemma mapM_eq_crash (h : ∀ t, parse t = .error .crash ↔ P t) :
    texts.mapM parse = .error .crash ↔ ComesTo parse P texts := by
  induction texts with
  | nil => simp [ComesTo, pure, Except.pure]
  | cons t texts ih =>
    simp [mapM_cons, bind_eq_error, ComesTo, h, ih, pure, Except.pure]

lemma ByDay.parse_eq_crash : ByDay.parse value = .error .crash ↔ ByDay.IsCut value := by
  rw [isCut_iff, ByDay.parse]
  split_ifs with h
  · simp [h]
  · rw [and_iff_right (not_lt.mp h)]
    split <;> simp_all

lemma optionalList_byDay_eq_crash : optionalList parts "BYDAY" ByDay.parse = .error .crash ↔
    ∃ text, parts.value "BYDAY" = some text ∧
      ComesTo ByDay.parse ByDay.IsCut (text.splitOn ',') := by
  unfold optionalList
  split <;> simp_all [mapM_eq_crash fun _ => ByDay.parse_eq_crash]

lemma RecurrenceRule.parse_eq_crash :
    RecurrenceRule.parse value = .error .crash ↔ RecurrenceRule.HasCut value := by
  simp [RecurrenceRule.parse, bind_eq_error, optionalList_byDay_eq_crash, RecurrenceRule.HasCut]

lemma Property.parse_eq_crash : Property.parse line = .error .crash ↔ Property.HasCut line := by
  unfold Property.parse Property.HasCut
  cases Text.splitOnce ':' line with
  | none => simp
  | some pair =>
    have hmap : ∀ f : RecurrenceRule → Property,
        (RecurrenceRule.parse pair.2).map f = .error .crash ↔ RecurrenceRule.HasCut pair.2 :=
      fun f => by
        rw [← RecurrenceRule.parse_eq_crash]
        cases RecurrenceRule.parse pair.2 <;> simp [Except.map]
    simp only [bind_eq_error, checked_ne_crash, checked_eq_ok, false_or, Option.some.injEq]
    split_ifs with hrule hexception <;> simp_all [Prod.ext_iff]

section

variable {name : String} {type : Int × Int} {minimum maximum n : Int} {zero : Bool}

lemma le_of_parseInteger (h : parseInteger minimum maximum value = some n) : minimum ≤ n := by
  unfold parseInteger at h
  split at h
  split_ifs at h <;> simp_all [Option.filter_eq_some_iff]

lemma parseRanged_eq_ok {error : RecurrenceParseError}
    (h : parseRanged error type minimum maximum zero value = .ok n) :
    minimum ≤ n ∧ n ≤ maximum ∧ (zero → n ≠ 0) := by
  simp only [parseRanged, bind_eq_ok, require_eq_ok, not_or, not_lt, not_and] at h
  obtain ⟨_, -, -, hrng, hn⟩ := h
  cases hn
  exact hrng

lemma mem_of_optionalList {ε : Type} {parse : List Char → Except ε α} {l : List α} {a : α}
    (h : optionalList parts name parse = .ok l) (ha : a ∈ l) : ∃ text, parse text = .ok a := by
  unfold optionalList at h
  split at h
  · cases h
    cases ha
  · obtain ⟨text, -, htext⟩ := Except.exists_of_mem_mapM h ha
    exact ⟨text, htext⟩

lemma rangedList_eq_ok {l : List Int}
    (h : rangedList parts name type minimum maximum zero = .ok l) :
    ∀ n ∈ l, minimum ≤ n ∧ n ≤ maximum ∧ (zero → n ≠ 0) := by
  intro n hn
  obtain ⟨text, htext⟩ := mem_of_optionalList h hn
  exact parseRanged_eq_ok htext

lemma optionalNumber_nonneg {number : Option Int} (h : optionalNumber parts name = .ok number) :
    ∀ n ∈ number, 0 ≤ n := by
  unfold optionalNumber at h
  intro n hn
  cases hvl : parts.value name with
  | none =>
    rw [hvl] at h
    cases h
    cases hn
  | some value =>
    rw [hvl, Option.mapM_some, map_eq_pure_bind, bind_eq_ok] at h
    obtain ⟨m, hm, h⟩ := h
    cases h
    cases hn
    exact le_of_parseInteger (okOr_eq_ok.mp hm)

end

lemma ruleHead_eq_ok {head : RuleHead} (h : ruleHead parts = .ok head) :
    1 ≤ head.interval ∧ (head.count = none ∨ head.untilText = none) := by
  simp only [ruleHead, bind_eq_ok, require_eq_ok] at h
  obtain ⟨_, -, _, -, interval, hint, -, hzero, count, -, -, -, -, hboth, _, -, hhead⟩ := h
  cases hhead
  have hnn := optionalNumber_nonneg hint
  constructor
  · cases interval with
    | none => exact le_rfl
    | some n =>
      have := hnn n rfl
      simp only [Option.getD_some, ne_eq] at hzero ⊢
      omega
  · cases count <;> simp_all

lemma ByDay.parse_ordinal {day : ByDay} (h : ByDay.parse value = .ok day) :
    ∀ n ∈ day.ordinal, -53 ≤ n ∧ n ≤ 53 ∧ n ≠ 0 := by
  unfold ByDay.parse at h
  split_ifs at h
  split at h
  · cases h
  · simp only [checked_eq_ok, ByDay.read, bind_eq_ok] at h
    obtain ⟨ordinal, hord, _, -, hday⟩ := h
    cases hday
    intro n hn
    unfold ByDay.parseOrdinal at hord
    split_ifs at hord
    · cases hord
      cases hn
    · obtain ⟨m, hm, rfl⟩ := map_eq_ok.mp hord
      cases hn
      simpa using parseRanged_eq_ok hm

/-- **Rules that are read** are in range. -/
lemma RecurrenceRule.parse_inRange (h : RecurrenceRule.parse value = .ok rule) : rule.InRange := by
  simp only [RecurrenceRule.parse, ruleTail, bind_eq_ok, checked_eq_ok] at h
  obtain ⟨parts, -, head, hhead, days, hdays, _, h₁, _, h₂, _, h₃, _, h₄, _, h₅, _, h₆, _, h₇,
    _, h₈, hrule⟩ := h
  cases hrule
  obtain ⟨hint, hterm⟩ := ruleHead_eq_ok hhead
  have hord : ∀ day ∈ days, ∀ n ∈ day.ordinal, -53 ≤ n ∧ n ≤ 53 ∧ n ≠ 0 := by
    intro day hday
    obtain ⟨text, htext⟩ := mem_of_optionalList hdays hday
    exact ByDay.parse_ordinal htext
  refine ⟨hint, hterm, hord, ?_, ?_, ?_, ?_, ?_, ?_, ?_, ?_⟩
  · simpa using rangedList_eq_ok h₁
  · simpa using rangedList_eq_ok h₂
  · simpa using rangedList_eq_ok h₃
  · simpa using rangedList_eq_ok h₄
  · simpa using rangedList_eq_ok h₅
  · simpa using rangedList_eq_ok h₆
  · simpa using rangedList_eq_ok h₇
  · simpa using rangedList_eq_ok h₈

def Property.rules : Property → List RecurrenceRule
  | .rule r | .exceptionRule r => [r]
  | _ => []

lemma Property.parse_inRange {property : Property} (h : Property.parse line = .ok property) :
    ∀ rule ∈ property.rules, rule.InRange := by
  unfold Property.parse at h
  split at h
  · cases h
  · simp only [bind_eq_ok, checked_eq_ok] at h
    obtain ⟨_, -, h⟩ := h
    split_ifs at h
    · obtain ⟨rule, hrule, rfl⟩ := map_eq_ok.mp h
      exact forall_mem_singleton.mpr (RecurrenceRule.parse_inRange hrule)
    · obtain ⟨rule, hrule, rfl⟩ := map_eq_ok.mp h
      exact forall_mem_singleton.mpr (RecurrenceRule.parse_inRange hrule)
    · obtain ⟨dates, -, rfl⟩ := map_eq_ok.mp (checked_eq_ok.mp h)
      exact forall_mem_nil _
    · obtain ⟨dates, -, rfl⟩ := map_eq_ok.mp (checked_eq_ok.mp h)
      exact forall_mem_nil _
    · cases h
      exact forall_mem_nil _

lemma RecurrenceSet.mem_rules_push {set : RecurrenceSet} {property : Property} :
    rule ∈ (set.push property).rules ++ (set.push property).exceptionRules ↔
      rule ∈ set.rules ++ set.exceptionRules ∨ rule ∈ property.rules := by
  cases property <;> simp [push, Property.rules, or_comm, or_left_comm]

/-- **The parser and its crashes.** Reading the properties stops the program if and only if the
parser comes to a BYDAY entry that it cuts within a character; every rule that it returns has its
values in their ranges. -/
theorem recurrenceSet_parse_iff (properties : List (List Char)) :
    (RecurrenceSet.parse properties ≠ .error .crash ↔ ¬ RecurrenceSet.HasCut properties) ∧
      ∀ set, RecurrenceSet.parse properties = .ok set →
        ∀ rule ∈ set.rules ++ set.exceptionRules, rule.InRange := by
  constructor
  · refine not_congr ?_
    simp [RecurrenceSet.parse, bind_eq_error, RecurrenceSet.HasCut, pure, Except.pure,
      mapM_eq_crash fun _ => Property.parse_eq_crash]
  · intro set h
    simp only [RecurrenceSet.parse, bind_eq_ok, checked_eq_ok] at h
    obtain ⟨lines, -, parsed, hparsed, hset⟩ := h
    cases hset
    refine List.foldlRecOn (motive := fun set : RecurrenceSet =>
      ∀ rule ∈ set.rules ++ set.exceptionRules, rule.InRange) parsed RecurrenceSet.push
      (forall_mem_nil _) ?_
    intro set hset property hmem rule hrule
    obtain ⟨line, -, hline⟩ := Except.exists_of_mem_mapM hparsed hmem
    exact (RecurrenceSet.mem_rules_push.mp hrule).elim (hset rule)
      (Property.parse_inRange hline rule)

end

/-- The weekday of an entry is cut out of a character of three bytes. -/
theorem euro_day_crashes :
    RecurrenceSet.parse ["RRULE:FREQ=DAILY;BYDAY=€".toList] = .error .crash := by
  decide +kernel

end DayWeave.Google
