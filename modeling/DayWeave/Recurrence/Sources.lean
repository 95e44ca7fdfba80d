import DayWeave.Recurrence.Destinations
import DayWeave.Recurrence.Scan

/-!
Occurrences and the sources of their moves.

The source of a move repeats what the planner returned for an occurrence, and the check of a move
computes its nominal interval anew. Both agree on the bucket, the day and the place on the day
(`bucketPlace_exact`, `validatedIdentityName_calendar`); they can differ in the end of the interval
(`calendarOccurrenceBounds_eq_some_iff`), and the check reads the date of an instant with its own
offset. So a source is accepted if and only if the interval of its occurrence keeps to its day
(`moveSource_accepted_iff`).
-/

namespace DayWeave

open List Sample
open Option (bind bind_eq_bind bind_eq_some_iff bind_some getD_some ite_none_left_eq_some map_some)

open OffsetDateTime (atSecond ext lt_def nanos_later ofNanos_eq_some sameInstant)

section

variable {env : Externals} {request : PlanRequest} {item : WorkItem} {recurrence : Recurrence}
  {days : List ZonedDayBoundary} {proof : Option CustomMoveProof} {id : OccurrenceId}
  {source : RecurrenceMoveSource} {label : BucketLabel} {m : Member} {rrule : String}
  {rule : CustomRecurrenceRule} {target : UInt16} {weekdays : Finset DayOfWeek} {destination : Span}
  {ordinal : UInt16} {dates : List Date} {name : String × Option Date}

/-! ### Fractions of a day -/

variable (day : ZonedDayBoundary) (start : OffsetDateTime) (spacing : Minutes)

/-- If the spacing after an instant ends with the day, the day has one offset. -/
def SpacingFits : Prop :=
  ∀ t, start.checkedAdd spacing.toDuration = some t → t.sameInstant day.finish →
    day.start.offset = day.finish.offset

section

variable {day : ZonedDayBoundary} {position count : ℕ} {spacing : Minutes}
  {t finish : OffsetDateTime} {dayCount : ℕ}

lemma offset_of_dayInstant (h : dayInstant day position count = some t) :
    t.offset = day.start.offset := by
  obtain ⟨part, -, ht⟩ := bind_eq_some_iff.mp h
  exact (ofNanos_eq_some ht).2

lemma dayInstant_lt (hday : day.start < day.finish) (hposition : position < count)
    (h : dayInstant day position count = some t) : t < day.finish := by
  have hns := nanos_of_dayInstant hday.le h
  rw [lt_def] at hday ⊢
  have hlen : (0 : Int) < day.finish.nanos - day.start.nanos := by omega
  have hlt : (day.finish.nanos - day.start.nanos) * position / count <
      day.finish.nanos - day.start.nanos :=
    Int.ediv_lt_of_lt_mul (by omega) (Int.mul_lt_mul_of_pos_left (by exact_mod_cast hposition) hlen)
  omega

/-- The place of an occurrence ends with its day or before it. -/
lemma placeEnd_le (hday : day.start < day.finish) (hposition : position < count)
    (h : placeEnd day position count = some t) : t < day.finish ∨ t = day.finish := by
  unfold placeEnd at h
  split at h
  · cases h
    exact .inr rfl
  · exact .inl (dayInstant_lt hday (by omega) h)

/-- The spacing ends before its day or with it, and then possibly with another offset. -/
lemma spacingEnd_cases (hoff : t.offset = day.start.offset) :
    spacingEnd day t spacing < day.finish ∧ SpacingFits day t spacing ∨
      (spacingEnd day t spacing).nanos = day.finish.nanos ∧
      (spacingEnd day t spacing = day.finish ↔ SpacingFits day t spacing) := by
  unfold spacingEnd SpacingFits
  cases hadd : t.checkedAdd spacing.toDuration with
  | none => exact .inr ⟨rfl, iff_of_true rfl fun u hu => nomatch hu⟩
  | some u =>
    have hu := (ofNanos_eq_some hadd).2.trans hoff
    simp only [map_some, getD_some, Option.some.injEq, forall_eq',
      sameInstant, beq_iff_eq, earlier, lt_def]
    split_ifs with hlt
    · exact .inr ⟨rfl, iff_of_true rfl fun heq => by omega⟩
    · rcases Int.lt_or_eq_of_le (Int.not_lt.mp hlt) with hbef | hend
      · exact .inl ⟨hbef, fun heq => by omega⟩
      · refine .inr ⟨hend, ⟨fun heq _ => ?_, fun hsame => ?_⟩⟩
        · rw [← hu, heq]
        · exact ext hend (hu.trans (hsame hend))

/-- The later end of an occurrence is replaced by the end of its day if it is the same
instant; that changes it only if the spacing does not fit. -/
lemma later_eq_iff {spaced : OffsetDateTime} {P : Prop}
    (hpl : finish < day.finish ∨ finish = day.finish)
    (hspaced : spaced < day.finish ∧ P ∨ spaced.nanos = day.finish.nanos ∧
      (spaced = day.finish ↔ P)) :
    later finish spaced = (if (later finish spaced).sameInstant day.finish then day.finish
      else later finish spaced) ↔ P := by
  simp only [sameInstant, beq_iff_eq, nanos_later]
  rw [lt_def] at hspaced
  rcases hspaced with ⟨hbef, hP⟩ | ⟨hsame, hiff⟩
  · rcases hpl with hpl | rfl
    · rw [lt_def] at hpl
      rw [if_neg (by omega)]
      exact iff_of_true rfl hP
    · rw [if_pos (by omega), later, if_pos (lt_def.mpr hbef)]
      exact iff_of_true rfl hP
  · have hle : ¬ spaced < finish := by
      rw [lt_def, hsame]
      rcases hpl with hpl | rfl
      · exact Int.not_lt.mpr (lt_def.mp hpl).le
      · exact lt_irrefl _
    rw [if_pos, later, if_neg hle, hiff]
    rw [lt_def] at hle
    omega

lemma bucketPlace_eq (hord : ordinal < target) (hcnt : 0 < dayCount) :
    bucketPlace target dayCount ordinal = some ⟨ordinal.toNat * dayCount / target.toNat,
      Share.position target.toNat dayCount ordinal.toNat,
      Share.count target.toNat dayCount ordinal.toNat⟩ := by
  have hord' := UInt16.lt_iff_toNat_lt.mp hord
  have htgt := Nat.zero_lt_of_lt hord'
  have hne : ¬ (target = 0 ∨ target ≤ ordinal ∨ dayCount = 0) := by
    rintro (rfl | hle | rfl)
    · exact absurd htgt (by decide)
    · exact absurd (UInt16.le_iff_toNat_le.mp hle) (by omega)
    · exact absurd hcnt (by decide)
  obtain ⟨hfst, hlast⟩ := (Share.place_eq_iff hcnt htgt).mp
    rfl
  rw [bucketPlace, if_neg hne]
  exact if_neg (not_or.mpr ⟨Nat.not_lt.mpr hfst, Nat.not_lt.mpr (hfst.trans hlast.le)⟩)

/-- **The closed form is the enumeration**: the day, the position and the count that the check of a
move computes for an ordinal are those of the ordinal in the allocation of the bucket. -/
theorem bucketPlace_exact (target ordinal : UInt16) (dayCount : ℕ) (hord : ordinal < target)
    (hcnt : 0 < dayCount) : ∃ place, bucketPlace target dayCount ordinal = some place ∧
      (∀ day spacing, calendarOccurrenceBounds day target dayCount ordinal spacing =
        place.bounds day spacing) ∧
      place.dayIndex < dayCount ∧
      (∀ i position, (allocation target.toNat dayCount i)[position]? = some ordinal.toNat ↔
        i = place.dayIndex ∧ position = place.position) ∧
      (allocation target.toNat dayCount place.dayIndex).length = place.count := by
  have hlt := UInt16.lt_iff_toNat_lt.mp hord
  have ht := Nat.zero_lt_of_lt hlt
  have hi := Share.place_lt ht hcnt hlt
  have hpl := Share.getElem?_filter_range ht hcnt hlt
  refine ⟨_, bucketPlace_eq hord hcnt, fun day spacing => ?_, hi, fun i position =>
    ⟨fun h => ?_, ?_⟩, ?_⟩
  · rw [calendarOccurrenceBounds, bucketPlace_eq hord hcnt]
    rfl
  · obtain rfl := (mem_allocation.mp (mem_of_getElem? h)).2
    obtain ⟨hlen, -⟩ := List.getElem?_eq_some_iff.mp h
    exact ⟨rfl, (getElem?_inj hlen (nodup_range.filter _)).mp (h.trans hpl.symm)⟩
  · rintro ⟨rfl, rfl⟩
    exact hpl
  · rw [allocation, Share.filter_range ht hi, length_range']
    rfl

/-- Of five occurrences in two days the fourth is the first of two on the second day. -/
theorem bucketPlace_exact_fourthOfFive :
    bucketPlace 5 2 3 = some ⟨1, 0, 2⟩ ∧ (allocation 5 2 1).length = 2 := by
  obtain ⟨place, hpl, -, -, -, hlen⟩ := bucketPlace_exact 5 3 2 (by decide) (by decide)
  cases hpl
  exact ⟨rfl, hlen⟩

lemma bucketInterval_finish {start : OffsetDateTime}
    (hst : dayInstant day position count = some start)
    (hfin : placeEnd day position count = some finish) :
    (bucketInterval day position count spacing).finish =
      if (later finish (spacingEnd day start spacing)).sameInstant day.finish then day.finish
      else later finish (spacingEnd day start spacing) := by
  have hnat : (if position + 1 = count then day.finish
      else dayFraction day (position + 1) count) = finish := by
    unfold placeEnd at hfin
    split_ifs at hfin ⊢ with hlast
    · exact Option.some.inj hfin
    · rw [dayFraction, hfin, getD_some]
  rw [bucketInterval, hnat, dayFraction, hst]
  rfl

/-- What the check of a move expects of the interval of an occurrence of a calendar rule:
it begins and ends on its day, each instant read with its own offset, its place on the day
has an end, and where the offset changes on the day the spacing does not end with the day. -/
structure KeepsToDay (day : ZonedDayBoundary) (position count : ℕ) (spacing : Minutes)
    (nominal : Span) : Prop where
  start_date : nominal.start.date = day.localDate
  last_date : ∃ lastInstant, nominal.finish.checkedSub 1 = some lastInstant ∧
    lastInstant.date = day.localDate
  has_end : placeEnd day position count ≠ none
  spacing_fits : SpacingFits day nominal.start spacing

/-- The check of a move finds the nominal interval of an occurrence again, unless its end is
out of range or has two offsets. -/
lemma calendarOccurrenceBounds_eq_some_iff
    (hord : ordinal < target) (hcnt : 0 < dayCount) (hday : day.start < day.finish)
    (hposition : Share.position target.toNat dayCount ordinal.toNat = position)
    (hcount' : Share.count target.toNat dayCount ordinal.toNat = count)
    (hlt : (bucketInterval day position count spacing).start <
      (bucketInterval day position count spacing).finish) :
    calendarOccurrenceBounds day target dayCount ordinal spacing =
        some (bucketInterval day position count spacing) ↔
      placeEnd day position count ≠ none ∧
        SpacingFits day (bucketInterval day position count spacing).start spacing := by
  have htgt : 0 < target.toNat := Nat.zero_lt_of_lt (UInt16.lt_iff_toNat_lt.mp hord)
  have hpos : position < count := by
    rw [← hposition, ← hcount']
    exact Share.position_lt_count hcnt htgt
  rw [calendarOccurrenceBounds, bucketPlace_eq hord hcnt, hposition, hcount', bind_some,
    BucketPlace.bounds]
  cases hst : dayInstant day position count with
  | none =>
    -- an occurrence that starts with the end of its day is empty
    have hfin := (@bucketInterval_mem day position count spacing hday.le hpos).2
    have hemp : (bucketInterval day position count spacing).start = day.finish := by
      rw [bucketInterval, dayFraction, hst, Option.getD_none]
    rw [hemp] at hlt
    exact absurd hfin (not_le_of_gt hlt)
  | some start =>
    have hnom : (bucketInterval day position count spacing).start = start := by
      rw [bucketInterval, dayFraction, hst, getD_some]
    cases hend : placeEnd day position count with
    | none => exact iff_of_false (by simp) fun h => h.1 rfl
    | some finish =>
      have hint : bucketInterval day position count spacing =
          ⟨start, if (later finish (spacingEnd day start spacing)).sameInstant day.finish
            then day.finish else later finish (spacingEnd day start spacing)⟩ := by
        rw [← bucketInterval_finish hst hend]
        exact congrArg (HalfOpen.mk · _) hnom
      rw [hint, bind_some, map_some, Option.some.injEq,
        HalfOpen.mk.injEq, and_iff_right rfl, and_iff_right (Option.some_ne_none finish)]
      exact later_eq_iff (placeEnd_le hday hpos hend) (spacingEnd_cases (offset_of_dayInstant hst))

end

/-! ### The dates of a bucket -/

lemma DayOfWeek.numberDaysFromMonday_inj {a b : DayOfWeek}
    (h : a.numberDaysFromMonday = b.numberDaysFromMonday) : a = b := by
  cases a <;> cases b <;> first | rfl | cases h

lemma allocatedDate_eq_some {date : Date} : allocatedDate dates target ordinal = some date ↔
      ordinal < target ∧ dates[ordinal.toNat * dates.length / target.toNat]? = some date := by
  rw [allocatedDate, ite_none_left_eq_some, not_or, not_or, UInt16.not_le]
  constructor
  · rintro ⟨⟨-, hlt, -⟩, hdate⟩
    exact ⟨hlt, hdate⟩
  · rintro ⟨hlt, hdate⟩
    refine ⟨⟨?_, hlt, ?_⟩, hdate⟩
    · rintro rfl
      exact absurd (UInt16.lt_iff_toNat_lt.mp hlt) (Nat.not_lt_zero _)
    · rintro rfl
      cases hdate

section

variable {key : Int} {startsOn : DayOfWeek}

variable (h : (BucketKey.week key).dates = some dates)

include h

lemma bounds_of_mem_weekDates {date : Date} (hdate : date ∈ dates) :
    key ≤ date.day + 2440588 ∧ date.day + 2440588 < key + 7 := by
  obtain ⟨start, hst, hdts⟩ := bind_eq_some_iff.mp h
  have hst := Date.ofDay_eq_some hst
  obtain ⟨i, hi, heq⟩ := (Option.mapM_eq_some.mp hdts).exists_left hdate
  have hi := mem_range.mp hi
  have heq := Date.ofDay_eq_some heq
  omega

/-- A week has one date for each weekday. -/
lemma length_onWeekdays_week : (onWeekdays weekdays dates).length = eligibleWeekdays weekdays := by
  unfold onWeekdays eligibleWeekdays
  split_ifs with hnone
  · have hall : dates.filter (fun date => weekdays = ∅ ∨ date.weekday ∈ weekdays) = dates :=
      filter_eq_self.mpr fun date _ => decide_eq_true (.inl hnone)
    obtain ⟨start, -, hdts⟩ := bind_eq_some_iff.mp h
    rw [hall, ← (Option.mapM_eq_some.mp hdts).length_eq, length_range]
  · have hwday : ∀ date : Date, (date.weekday.numberDaysFromMonday : Int) = (date.day + 3) % 7 :=
      fun date => DayOfWeek.numberDaysFromMonday_ofDay date.day
    have hnd : ((dates.filter fun date => weekdays = ∅ ∨ date.weekday ∈ weekdays).map
        Date.weekday).Nodup := by
      refine List.Nodup.map_on (fun a ha b hb hab => Date.ext ?_)
        ((BucketKey.pairwise_dates h).imp ne_of_lt |>.filter _)
      have ha := bounds_of_mem_weekDates h (mem_of_mem_filter ha)
      have hb := bounds_of_mem_weekDates h (mem_of_mem_filter hb)
      have hsame := hwday a
      rw [hab, hwday b] at hsame
      omega
    rw [← length_map Date.weekday, ← toFinset_card_of_nodup hnd]
    congr 1
    ext w
    simp only [mem_toFinset, mem_map, mem_filter, decide_eq_true_eq]
    constructor
    · rintro ⟨date, ⟨-, hdate⟩, rfl⟩
      exact hdate.resolve_left hnone
    · intro hw
      obtain ⟨start, hst, hdts⟩ := bind_eq_some_iff.mp h
      have hw7 := w.numberDaysFromMonday_lt
      -- the day of the week with this weekday
      obtain ⟨date, hdate, heq⟩ := (Option.mapM_eq_some.mp hdts).exists_right
        (mem_range.mpr (by omega : ((w.numberDaysFromMonday - (start.day + 3)) % 7).toNat < 7))
      have heq := Date.ofDay_eq_some heq
      have hday := hwday date
      have hsame : date.weekday = w := DayOfWeek.numberDaysFromMonday_inj (by omega)
      exact ⟨date, ⟨hdate, .inr (by rw [hsame]; exact hw)⟩, hsame⟩

lemma allocatedWeekDate_eq_some {date : Date} :
    allocatedWeekDate key startsOn weekdays target ordinal = some date ↔
      date.weekKey startsOn = key ∧
        allocatedDate (onWeekdays weekdays dates) target ordinal = some date := by
  obtain ⟨start, hst, hdts⟩ := bind_eq_some_iff.mp h
  have hfilt := Option.filterMap_of_mapM hdts
  have hday := Date.ofDay_eq_some hst
  have hguard : start.weekKey startsOn ≠ key ∨ start.weekday ≠ startsOn ↔
      start.weekKey startsOn ≠ key := by
    refine or_iff_left_of_imp fun hne heq => hne (DayOfWeek.numberDaysFromMonday_inj ?_)
    have hwday := DayOfWeek.numberDaysFromMonday_ofDay start.day
    have hlt := startsOn.numberDaysFromMonday_lt
    rw [Date.weekKey_eq] at heq
    unfold Date.weekday
    omega
  have hsame : ∀ date ∈ dates, (date.weekKey startsOn = key ↔ start.weekKey startsOn = key) := by
    intro date hdate
    have := bounds_of_mem_weekDates h hdate
    rw [Date.weekKey_eq, Date.weekKey_eq]
    omega
  simp only [allocatedWeekDate, hst, bind_eq_bind, bind_some, hfilt, hguard,
    ite_none_left_eq_some, ne_eq, not_not]
  refine and_congr_left fun hdate => ?_
  obtain ⟨-, hpl⟩ := allocatedDate_eq_some.mp hdate
  exact (hsame date (mem_of_mem_filter (mem_of_getElem? hpl))).symm

end

section

variable {year : Int} {month : ℕ}

section

variable (hmon : 1 ≤ month ∧ month ≤ 12) (h : (BucketKey.month year month).dates = some dates)

include hmon h

lemma monthDates_eq : monthDates year month = some dates := by
  rw [monthDates, if_pos hmon, Option.filterMap_of_mapM h]

lemma allocatedMonthDate_eq : allocatedMonthDate year month weekdays target ordinal =
      allocatedDate (onWeekdays weekdays dates) target ordinal := by
  rw [allocatedMonthDate, monthDates_eq hmon h]
  rfl

end

/-! ### The name of a source -/

variable {date : Date}

lemma onWeekdays_empty (dates : List Date) : onWeekdays ∅ dates = dates :=
  filter_eq_self.mpr fun _ _ => decide_eq_true (.inl rfl)

lemma onWeekdays_singleton (hallow : weekdays = ∅ ∨ date.weekday ∈ weekdays) :
    onWeekdays weekdays [date] = [date] := by
  rw [onWeekdays, filter_cons, if_pos (decide_eq_true hallow), filter_nil]

/-- **The name of a source of a calendar rule.** The check of a move finds the date that
the ordinal is allotted to, and computes the name from the bucket of that date. -/
lemma validatedIdentityName_calendar
    (hrule : calendarRule recurrence = some (label, target, weekdays))
    (hident : source.identity =
      (label.keyOf request.recurrenceContext.calendar.weekStartsOn date).identity date ordinal)
    (hdts : (label.keyOf request.recurrenceContext.calendar.weekStartsOn date).dates = some dates)
    (hdate : allocatedDate (onWeekdays weekdays dates) target ordinal = some date) :
    validatedIdentityName request item recurrence source proof =
      calendarName request item source label
        (label.keyOf request.recurrenceContext.calendar.weekStartsOn date) date target
        (onWeekdays weekdays dates).length ordinal := by
  have hmon : 1 ≤ date.month ∧ date.month ≤ 12 := by
    have := date.month0_bounds
    unfold Date.month
    omega
  obtain ⟨hord, hpl⟩ := allocatedDate_eq_some.mp hdate
  have hallow := of_decide_eq_true (mem_filter.mp (mem_of_getElem? hpl)).2
  unfold calendarRule at hrule
  split at hrule <;> cases hrule <;>
    simp only [BucketLabel.keyOf, BucketKey.identity] at hident hdts ⊢ <;>
    simp only [validatedIdentityName, hident]
  · -- daily
    cases hdts
    rw [if_pos hord, onWeekdays_singleton hallow]
    rfl
  · -- weekly
    rw [(allocatedWeekDate_eq_some hdts).mpr ⟨rfl, hdate⟩, length_onWeekdays_week hdts]
    rfl
  · -- monthly
    rw [allocatedMonthDate_eq hmon hdts, hdate, onWeekdays_empty,
      ← (Option.mapM_eq_some.mp hdts).length_eq, length_range]
    rfl
  · -- so many times on a day
    cases hdts
    rw [if_pos ⟨hord, hallow⟩, onWeekdays_singleton hallow]
    rfl
  · -- so many times in a week
    rw [(allocatedWeekDate_eq_some hdts).mpr ⟨rfl, hdate⟩, length_onWeekdays_week hdts]
    rfl
  · -- so many times in a month
    rw [allocatedMonthDate_eq hmon hdts, hdate, monthDates_eq hmon hdts]
    rfl

lemma localDayIsPlausible_iff : localDayIsPlausible source date = true ↔
    source.localDate = some date ∧ source.nominalStart.date = date ∧
      ∃ lastInstant, source.nominalEnd.checkedSub 1 = some lastInstant ∧
        lastInstant.date = date := by
  simp only [localDayIsPlausible, decide_eq_true_eq, Option.any_eq_true]

/-- **The name of a source of a custom rule.** -/
lemma validatedIdentityName_custom {ruleId : Uuid} {key : String} :
    validatedIdentityName request item (.custom rrule) source (some ⟨ruleId, dates⟩) =
        some (key, some date) ↔
      ∃ sequence day, source.identity = .customRule ruleId sequence date ∧
        dates[sequence.toNat]? = some date ∧ localDayIsPlausible source date = true ∧
        (request.recurrenceContext.calendar.days.find? fun boundary =>
          boundary.localDate = date) = some day ∧
        request.recurrenceContext.calendar.timeZoneId ≠ none ∧
        source.nominalStart = customStart item day date ∧ source.nominalEnd = day.finish ∧
        key = customIdentityKey ruleId sequence date := by
  cases hident : source.identity with
  | customRule id sequence d =>
    simp only [validatedIdentityName, hident, bind_eq_bind, bind_some,
      ite_none_left_eq_some, bind_eq_some_iff, Option.filter_eq_some_iff,
      Option.ite_none_right_eq_some, Option.some.injEq, Prod.mk.injEq, not_or, not_not, ne_eq,
      RecurrenceOccurrenceIdentity.customRule.injEq, Option.isSome_iff_ne_none]
    constructor
    · rintro ⟨⟨rfl, hpl, hlocalDay⟩, day, ⟨hfind, hzone⟩, ⟨hst, hfin⟩, rfl, rfl⟩
      exact ⟨sequence, day, ⟨rfl, rfl, rfl⟩, hpl, hlocalDay, hfind, hzone, hst, hfin, rfl⟩
    · rintro ⟨_, day, ⟨rfl, rfl, rfl⟩, hpl, hlocalDay, hfind, hzone, hst, hfin, rfl⟩
      exact ⟨⟨rfl, hpl, hlocalDay⟩, day, ⟨hfind, hzone⟩, ⟨hst, hfin⟩, rfl, rfl⟩
  | _ =>
    refine iff_of_false (fun h => ?_) ?_
    · simp [validatedIdentityName, hident] at h
    · rintro ⟨_, _, ⟨⟩, -⟩

end

/-! ### Sources of occurrences -/

/-- The source of a move that repeats what the planner returned for an occurrence. -/
def Occurrence.moveSource (item : WorkItem) (o : Occurrence) : RecurrenceMoveSource where
  itemRevision := item.revision
  identity := o.identity
  nominalStart := o.nominalStart
  nominalEnd := o.nominalEnd
  localDate := o.localDate
  ordinal := o.ordinal

section

variable {entries : List (UInt32 × Date)}

lemma moveSourceIsValid_iff : moveSourceIsValid env request item recurrence id source proof = true ↔
      id.uuid.versionNum = 5 ∧ source.itemRevision = item.revision ∧
      stableOrdinal source.identity = some source.ordinal ∧
      ∃ key, validatedIdentityName request item recurrence source proof =
          some (key, source.localDate) ∧ id = ⟨env.newV5 item.id.uuid key.toUTF8.toList⟩ := by
  unfold moveSourceIsValid
  split_ifs with hwrong
  · refine iff_of_false not_false ?_
    rintro ⟨hver, hrev, hord, -⟩
    rcases hwrong with hwrong | hwrong | hwrong
    · exact hwrong hver
    · exact hwrong hrev
    · exact hwrong hord
  · rw [not_or, not_or, not_not, not_not, not_not] at hwrong
    obtain ⟨hver, hrev, hord⟩ := hwrong
    rw [and_iff_right hver, and_iff_right hrev, and_iff_right hord]
    cases hname : validatedIdentityName request item recurrence source proof with
    | none => exact iff_of_false Bool.false_ne_true fun ⟨key, h, _⟩ => nomatch h
    | some name =>
      obtain ⟨key, date⟩ := name
      rw [decide_eq_true_eq]
      constructor
      · rintro ⟨hid, rfl⟩
        exact ⟨key, rfl, hid⟩
      · rintro ⟨other, heq, hid⟩
        cases heq
        exact ⟨hid, rfl⟩

lemma CalendarMember.mono {days' : List ZonedDayBoundary} {startsOn : DayOfWeek} {spacing : Minutes}
    (hdays : days ⊆ days') (hm : CalendarMember days startsOn label target weekdays spacing m) :
    CalendarMember days' startsOn label target weekdays spacing m := by
  obtain ⟨day, dates, ordinal, hday, hdts, hord, hpl⟩ := hm
  exact .mk day dates ordinal (hdays hday) hdts hord hpl

lemma stableOrdinal_keyOf (label : BucketLabel) (startsOn : DayOfWeek) (date : Date)
    (ordinal : UInt16) :
    stableOrdinal ((label.keyOf startsOn date).identity date ordinal) = some ordinal.toUInt32 := by
  cases label <;> rfl

lemma calendarName_eq_some {key : BucketKey} {date : Date} {dayCount : ℕ} :
    calendarName request item source label key date target dayCount ordinal = some name ↔
      localDayIsPlausible source date ∧
      calendarSourceMatches request item source date target dayCount ordinal ∧
      name = (label.toText ++ ":" ++ key.toText ++ ":" ++ toString ordinal.toNat, some date) := by
  rw [calendarName, Option.ite_none_right_eq_some, and_assoc, Option.some.injEq,
    eq_comm (a := name)]

section

variable (hzone : request.recurrenceContext.calendar.timeZoneId ≠ none)

include hzone

/-- The calendar of the platform is the authority on its days. -/
lemma authoritativeDayBoundary_eq
    (hnd : (request.recurrenceContext.calendar.days.map (·.localDate)).Nodup)
    {day : ZonedDayBoundary} (hday : day ∈ request.recurrenceContext.calendar.days) :
    authoritativeDayBoundary request day.localDate = some day := by
  unfold authoritativeDayBoundary
  rw [if_neg (ne_nil_of_mem hday), if_neg hzone, find?_localDate hnd hday]

/-- The source of an occurrence of a calendar rule is accepted if and only if its interval
keeps to its day. Its place on the day is the share of its ordinal. -/
lemma moveSource_calendar_iff (hcal : validateZonedCalendar request = .ok ())
    (hrule : calendarRule recurrence = some (label, target, weekdays))
    (hm : CalendarMember request.recurrenceContext.calendar.days
      request.recurrenceContext.calendar.weekStartsOn label target weekdays
      (minimumSpacing request item) m) (hlt : m.nominal.start < m.nominal.finish)
    (hver : (m.occurrence env request item.id).id.uuid.versionNum = 5) :
    ∃ day ∈ request.recurrenceContext.calendar.days, ∃ dates,
      (label.keyOf request.recurrenceContext.calendar.weekStartsOn day.localDate).dates =
        some dates ∧ m.localDate = some day.localDate ∧
      let o := m.occurrence env request item.id
      let dayCount := (onWeekdays weekdays dates).length
      let position := Share.position target.toNat dayCount o.ordinal.toNat
      let count := Share.count target.toNat dayCount o.ordinal.toNat
      position < count ∧
      m.nominal = bucketInterval day position count (minimumSpacing request item) ∧
      (moveSourceIsValid env request item recurrence o.id (o.moveSource item) proof = true ↔
        KeepsToDay day position count (minimumSpacing request item) m.nominal) := by
  obtain ⟨hloc, hnd⟩ := validateZonedCalendar_days hcal
  obtain ⟨day, dates, ordinal, hday, hdts, hord, hpl⟩ := hm
  have hcnt := Nat.zero_lt_of_lt (List.getElem?_eq_some_iff.mp hpl).1
  have htoNat := toNat_ofNat_of_lt hord
  have hord' : UInt16.ofNat ordinal < target :=
    UInt16.lt_iff_toNat_lt.mpr (by rw [htoNat]; exact hord)
  have hstable := stableOrdinal_keyOf label request.recurrenceContext.calendar.weekStartsOn
    day.localDate (UInt16.ofNat ordinal)
  refine ⟨day, hday, dates, hdts, rfl, ?_⟩
  intro o dayCount position count
  have hordN : o.ordinal.toNat = ordinal := by
    show ((stableOrdinal _).getD 0).toNat = ordinal
    rw [calendarMember, hstable, getD_some, UInt16.toNat_toUInt32, htoNat]
  have hposition : position = Share.position target.toNat dayCount ordinal := by
    simp only [position, hordN]
  have hcount : count = Share.count target.toNat dayCount ordinal := by
    simp only [count, hordN]
  rw [hposition, hcount]
  refine ⟨Share.position_lt_count hcnt (Nat.zero_lt_of_lt hord), rfl, ?_⟩
  -- the ordinal in the identity is allocated to this very day
  have hname := @validatedIdentityName_calendar request item recurrence proof
    (o.moveSource item) label target weekdays (UInt16.ofNat ordinal) dates day.localDate hrule rfl
    hdts (allocatedDate_eq_some.mpr ⟨hord', by rw [htoNat]; exact hpl⟩)
  have hbds := calendarOccurrenceBounds_eq_some_iff hord' hcnt (hloc day hday).start_lt_finish
    (by rw [htoNat]) (by rw [htoNat]) hlt
  rw [moveSourceIsValid_iff, hname]
  simp only [calendarName_eq_some, localDayIsPlausible_iff, calendarSourceMatches,
    authoritativeDayBoundary_eq hzone hnd hday, bind_some, decide_eq_true_eq]
  constructor
  · rintro ⟨-, -, -, key, ⟨⟨-, hst, hlast⟩, hmatches, -⟩, -⟩
    obtain ⟨hend, hfits⟩ := hbds.mp hmatches
    exact ⟨hst, hlast, hend, hfits⟩
  · rintro ⟨hst, hlast, hend, hfits⟩
    refine ⟨hver, rfl, ?_, _, ⟨⟨rfl, hst, hlast⟩, hbds.mpr ⟨hend, hfits⟩, rfl⟩, ?_⟩
    · exact hstable.trans (congrArg some (congrArg (Option.getD · 0) hstable).symm)
    · rw [htoNat]
      rfl

end

lemma exists_of_customMoveProof
    (hmove : moveException item.id id source destination ∈ request.recurrenceContext.exceptions)
    (h : customMoveProof env request item (.custom rrule) = .ok proof) :
    ∃ rule dates, parseCustomRrule rrule = .ok rule ∧ rule.allOccurrenceDates item.createdAt.date
        request.recurrenceContext.calendar.weekStartsOn = .ok dates ∧
      proof = some ⟨rule.ruleId env, dates⟩ := by
  have hany : request.recurrenceContext.exceptions.any (fun exception =>
      exception.itemId = item.id ∧ exception.action ≠ .skip) = true :=
    List.any_eq_true.mpr ⟨_, hmove, by simp [moveException]⟩
  rw [customMoveProof, hany, if_pos rfl] at h
  split at h
  · cases h
  · rename_i rule hparse
    split at h
    · cases h
    · rename_i dates hdts
      exact ⟨rule, dates, hparse, hdts, (Except.ok.inj h).symm⟩

lemma date_customStart {day : ZonedDayBoundary} (hday : IsLocalDay day) :
    (customStart item day day.localDate).date = day.localDate := by
  unfold customStart
  split_ifs with hcreated
  · unfold later
    split_ifs
    · exact hday.start_date
    · exact hcreated.symm
  · exact hday.start_date

lemma moveSource_custom (hzone : request.recurrenceContext.calendar.timeZoneId ≠ none)
    (hcal : validateZonedCalendar request = .ok ()) {entry : UInt32 × Date}
    (hdays : days.Perm request.recurrenceContext.calendar.days)
    (hents : customEntries request item days rule = .ok entries) (hent : entry ∈ entries)
    (hm : customMember item (rule.ruleId env) days entry = some m)
    (hdts : rule.allOccurrenceDates item.createdAt.date
      request.recurrenceContext.calendar.weekStartsOn = .ok dates)
    (hver : (m.occurrence env request item.id).id.uuid.versionNum = 5) :
    moveSourceIsValid env request item (.custom rrule) (m.occurrence env request item.id).id
      ((m.occurrence env request item.id).moveSource item)
      (some ⟨rule.ruleId env, dates⟩) = true := by
  obtain ⟨hloc, hnd⟩ := validateZonedCalendar_days hcal
  obtain ⟨sequence, date⟩ := entry
  obtain ⟨day, hfind, rfl⟩ := Option.map_eq_some_iff.mp hm
  have hday := hdays.mem_iff.mp (mem_of_find?_eq_some hfind)
  obtain rfl : day.localDate = date := by simpa using find?_some hfind
  have hpl : dates[sequence.toNat]? = some day.localDate := by
    unfold customEntries at hents
    split at hents
    · cases hents
      cases hent
    · exact ((CustomRecurrenceRule.mem_occurrenceDatesThrough hdts hents).mp hent).2
  refine moveSourceIsValid_iff.mpr ⟨hver, rfl, rfl, _, ?_, rfl⟩
  exact validatedIdentityName_custom.mpr ⟨sequence, day, rfl, hpl, localDayIsPlausible_iff.mpr
      ⟨rfl, date_customStart (hloc day hday), (hloc day hday).last_date⟩,
    find?_localDate hnd hday, hzone, rfl, rfl, rfl⟩

/-- If the dates up to a day can be found, all dates can. -/
lemma exists_allOccurrenceDates (h : customEntries request item days rule = .ok entries)
    (hne : entries ≠ []) : ∃ dates, rule.allOccurrenceDates item.createdAt.date
      request.recurrenceContext.calendar.weekStartsOn = .ok dates := by
  unfold customEntries at h
  split at h
  · cases h
    exact absurd rfl hne
  · rw [CustomRecurrenceRule.occurrenceDatesThrough_eq] at h
    obtain ⟨all, hall, -⟩ := Except.map_eq_ok.mp h
    exact ⟨_, Except.map_eq_ok.mpr ⟨all, hall, rfl⟩⟩

/-- **Moving an occurrence of the planner.** With a valid calendar of the platform the source
of an occurrence of a custom rule is always accepted. The source of an occurrence of a
calendar rule is accepted if and only if its nominal interval, the share of its ordinal, keeps
to its day. -/
theorem moveSource_accepted_iff {l : List Occurrence} {o : Occurrence}
    (hcal : validateZonedCalendar request = .ok ())
    (hzone : request.recurrenceContext.calendar.timeZoneId ≠ none)
    (hexplicit : request.recurrenceContext.calendar.days ≠ [])
    (hdays : resolvedDays request = .ok days)
    (h : expandSeries env request item recurrence days = .ok l) (ho : o ∈ l)
    (hver : o.id.uuid.versionNum = 5) (destination : HalfOpen OffsetDateTime) :
    (∀ rrule, recurrence = .custom rrule → ∃ proof, customMoveProof env (request.withExceptions
        [moveException item.id o.id (o.moveSource item) destination]) item recurrence = .ok proof ∧
      moveSourceIsValid env request item recurrence o.id (o.moveSource item) proof = true) ∧
    (∀ label target weekdays, calendarRule recurrence = some (label, target, weekdays) →
      customMoveProof env (request.withExceptions
        [moveException item.id o.id (o.moveSource item) destination]) item recurrence = .ok none ∧
      ∃ day ∈ request.recurrenceContext.calendar.days, ∃ dates,
        (label.keyOf request.recurrenceContext.calendar.weekStartsOn day.localDate).dates =
          some dates ∧ o.localDate = some day.localDate ∧
        let dayCount := (onWeekdays weekdays dates).length
        let position := Share.position target.toNat dayCount o.ordinal.toNat
        let count := Share.count target.toNat dayCount o.ordinal.toNat
        position < count ∧
        ⟨o.nominalStart, o.nominalEnd⟩ =
          bucketInterval day position count (minimumSpacing request item) ∧
        (moveSourceIsValid env request item recurrence o.id (o.moveSource item) none = true ↔
          KeepsToDay day position count (minimumSpacing request item)
            ⟨o.nominalStart, o.nominalEnd⟩)) := by
  have hperm : days.Perm request.recurrenceContext.calendar.days := by
    cases (resolvedDays_calendar hexplicit).symm.trans hdays
    exact sortBy_perm _ _
  constructor
  · -- the proof of a custom rule lists all of its dates
    rintro rrule rfl
    obtain ⟨rule, entries, hparse, hents, hmem⟩ := mem_expandCustom h
    obtain ⟨entry, hent, m, hm, -, rfl⟩ := (hmem o).mp ho
    obtain ⟨dates, hdts⟩ := exists_allOccurrenceDates hents (ne_nil_of_mem hent)
    refine ⟨some ⟨rule.ruleId env, dates⟩, ?_,
      moveSource_custom hzone hcal hperm hents hent hm hdts hver⟩
    simp [customMoveProof, hparse, hdts, PlanRequest.withExceptions, moveException]
  · intro label target weekdays hrule
    have hnd := (hperm.map ZonedDayBoundary.localDate).nodup_iff.mpr
      (validateZonedCalendar_days hcal).2
    obtain ⟨m, hm, hmt, rfl⟩ := (mem_calendarSeries hrule hnd h).mp ho
    refine ⟨?_, moveSource_calendar_iff hzone hcal hrule (hm.mono hperm.subset)
      (Member.meets_iff.mp hmt).1 hver⟩
    unfold calendarRule at hrule
    split at hrule <;> first | rfl | cases hrule

end

end

namespace Sample

/-- The end of a day of 23 hours: the clocks go forward by one hour. -/
def springMidnight : OffsetDateTime := .atSecondEast 82800

def springDay : ZonedDayBoundary where
  localDate := (atSecond 0).date
  start := .atSecond 0
  finish := springMidnight

/-- A habit of every day whose identifier can be that of an occurrence. -/
def everyDay (spacing : Minutes) : WorkItem :=
  { habit (.daily 1) spacing with id := ⟨Uuid.ofNat (5 * 2 ^ 76)⟩ }

/-- A request with one day of the platform's calendar. -/
def zonedRequest (item : WorkItem) (day : ZonedDayBoundary) : PlanRequest :=
  { request [item] with
    recurrenceContext := { calendar := { timeZoneId := some "zone", days := [day] } } }

end Sample

/-- The first of two occurrences on a day of 23 hours. -/
theorem moveSource_accepted_iff_spring :
    ∃ l o, expandSeries externals (zonedRequest (everyDay 0) springDay) (everyDay 0) (.daily 2)
        [springDay] = .ok l ∧ o ∈ l ∧ o.ordinal = 0 ∧
      (moveSourceIsValid externals (zonedRequest (everyDay 0) springDay) (everyDay 0) (.daily 2)
          o.id (o.moveSource (everyDay 0)) none = true ↔
        KeepsToDay springDay 0 2 0 ⟨o.nominalStart, o.nominalEnd⟩) := by
  obtain ⟨l, o, hl, ho, hver, hord⟩ : ∃ l o, expandSeries externals
      (zonedRequest (everyDay 0) springDay) (everyDay 0) (.daily 2) [springDay] = .ok l ∧ o ∈ l ∧
      o.id.uuid.versionNum = 5 ∧ o.ordinal = 0 := by decide +kernel
  obtain ⟨-, day, hday, dates, hdts, -, -, -, hiff⟩ :=
    (moveSource_accepted_iff (by decide +kernel) (by decide) (by decide) (by decide +kernel) hl ho
      hver ⟨.atSecond 0, .atSecond 60⟩).2 _ _ _ rfl
  obtain rfl := mem_singleton.mp hday
  cases hdts
  rw [hord] at hiff
  exact ⟨l, o, hl, ho, hord, hiff⟩

/-- A habit of every day, at least 23 hours apart: the source of its occurrence on a day of 23
hours is refused, since the spacing ends with the day but with the offset of its start. -/
theorem not_moveSource_accepted_spring :
    validateZonedCalendar (zonedRequest (everyDay 1380) springDay) = .ok () ∧
    resolvedDays (zonedRequest (everyDay 1380) springDay) = .ok [springDay] ∧
    validateRule (everyDay 1380).id (.daily 1) = .ok () ∧
    1 ≤ (everyDay 1380).revision ∧
    ∃ l o, expandSeries externals (zonedRequest (everyDay 1380) springDay) (everyDay 1380)
        (.daily 1) [springDay] = .ok l ∧ o ∈ l ∧ o.id.uuid.versionNum = 5 ∧
      moveSourceIsValid externals (zonedRequest (everyDay 1380) springDay) (everyDay 1380)
        (.daily 1) o.id (o.moveSource (everyDay 1380)) none = false := by
  exact ⟨by decide +kernel, by decide +kernel, by decide, by decide, by decide +kernel⟩

end DayWeave
