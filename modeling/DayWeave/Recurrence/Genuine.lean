import DayWeave.Recurrence.Sources
import DayWeave.Recurrence.Success

/-!
Sources that are accepted are genuine.

The source of a move comes from outside, and the check of a move accepts it only if its
identifier, its nominal interval and its local date agree with the current rule. Then there
is a horizon, the first nanosecond of the nominal interval, whose expansion contains the
occurrence that the source describes (`moveSource_genuine`): a move cannot bring work into a
plan that the rule does not have.
-/

namespace DayWeave

open List Sample
open Option (bind_eq_bind bind_eq_some_iff getD_some ite_none_right_eq_some map_eq_some_iff
  map_some)

open OffsetDateTime (ext le_def lt_def nanos)

/-! ### The occurrence of a source -/

/-- The occurrence is the one that a source describes; instants are compared without their
offsets. -/
structure Occurrence.HasSource (o : Occurrence) (id : OccurrenceId)
    (source : RecurrenceMoveSource) : Prop where
  id_eq : o.id = id
  identity_eq : o.identity = source.identity
  start_eq : o.nominalStart.sameInstant source.nominalStart
  end_eq : o.nominalEnd.sameInstant source.nominalEnd
  localDate_eq : o.localDate = source.localDate
  ordinal_eq : o.ordinal = source.ordinal

/-- In some horizon the series has the occurrence that a source describes. -/
def IsGenuine (env : Externals) (request : PlanRequest) (item : WorkItem) (recurrence : Recurrence)
    (id : OccurrenceId) (source : RecurrenceMoveSource) : Prop :=
  ∃ horizon days l o, resolvedDays (request.withHorizon horizon) = .ok days ∧
    expandSeries env (request.withHorizon horizon) item recurrence days = .ok l ∧ o ∈ l ∧
    o.HasSource id source

/-- The dates that a source involves stay away from the limits of the calendar. -/
structure SourceInRange (request : PlanRequest) (source : RecurrenceMoveSource) : Prop where
  start : source.nominalStart.AwayFromLimits
  finish : source.nominalEnd.AwayFromLimits
  days : ∀ day ∈ request.recurrenceContext.calendar.days, day.start.AwayFromLimits

section

variable {env : Externals} {request : PlanRequest} {item : WorkItem} {recurrence : Recurrence}
  {days : List ZonedDayBoundary} {source : RecurrenceMoveSource} {proof : Option CustomMoveProof}
  {id : OccurrenceId} {key : String} {horizon : Span} {m : Member} {natural : OffsetDateTime}

/-- The check of a move derives the identifier from a name of the source by the rule. -/
structure IsNamed (env : Externals) (request : PlanRequest) (item : WorkItem)
    (recurrence : Recurrence) (proof : Option CustomMoveProof) (id : OccurrenceId)
    (source : RecurrenceMoveSource) (key : String) : Prop where
  ordinal : stableOrdinal source.identity = some source.ordinal
  name : validatedIdentityName request item recurrence source proof = some (key, source.localDate)
  id_eq : id = ⟨env.newV5 item.id.uuid key.toUTF8.toList⟩

lemma Member.hasSource (hid : id = ⟨env.newV5 item.id.uuid m.key.toUTF8.toList⟩)
    (hident : m.identity = source.identity)
    (hst : m.nominal.start.nanos = source.nominalStart.nanos)
    (hfin : m.nominal.finish.nanos = source.nominalEnd.nanos)
    (hdate : m.localDate = source.localDate)
    (hord : stableOrdinal source.identity = some source.ordinal) :
    (m.occurrence env request item.id).HasSource id source where
  id_eq := hid.symm
  identity_eq := hident
  start_eq := beq_iff_eq.mpr hst
  end_eq := beq_iff_eq.mpr hfin
  localDate_eq := hdate
  ordinal_eq := by
    show (stableOrdinal m.identity).getD 0 = source.ordinal
    rw [hident, hord, getD_some]

/-! ### The horizon of a source -/

/-- The horizon is the first nanosecond of the nominal interval of a source, and `days` are its
days. -/
structure SourceHorizon (request : PlanRequest) (source : RecurrenceMoveSource)
    (horizon : Span) (days : List ZonedDayBoundary) : Prop where
  start_eq : horizon.start = source.nominalStart
  finish_eq : horizon.finish.nanos = source.nominalStart.nanos + 1
  resolved : resolvedDays (request.withHorizon horizon) = .ok days

/-- There is a horizon about a source in range. -/
lemma exists_sourceHorizon (hrng : SourceInRange request source) :
    ∃ horizon days, SourceHorizon request source horizon days := by
  obtain ⟨hlow, hhigh⟩ := hrng.start
  simp only [Duration.day] at hlow hhigh
  obtain ⟨finish, -, hfin⟩ := exists_checkedAdd (t := source.nominalStart) (d := 1)
    (by simp only [Duration.day]; omega) (by simp only [Duration.day]; omega)
  obtain ⟨days, hdays⟩ := @exists_resolvedDays (request.withHorizon ⟨source.nominalStart, finish⟩)
    (le_def.mpr (show source.nominalStart.nanos ≤ finish.nanos by omega))
    (show finish.nanos ≤ _ by simp only [Duration.day]; omega)
  exact ⟨_, days, rfl, hfin, hdays⟩

namespace SourceHorizon

variable (h : SourceHorizon request source horizon days) {day : ZonedDayBoundary}

include h

lemma atInstant : AtInstant (request.withHorizon horizon) source.nominalStart where
  start_eq := congrArg nanos h.start_eq
  end_eq := h.finish_eq

/-- A member that starts with the source meets the horizon. -/
lemma meets (hst : m.nominal.start.nanos = source.nominalStart.nanos)
    (hlt : m.nominal.start < m.nominal.finish) : m.Meets (request.withHorizon horizon) := by
  obtain ⟨hfst, hlast⟩ := h.atInstant
  rw [lt_def] at hlt
  refine Member.meets_iff.mpr ⟨lt_def.mpr hlt, ?_, ?_, ?_⟩ <;>
    rw [lt_def] <;> omega

lemma horizonStart_eq : (request.withHorizon horizon).horizonStart = source.nominalStart :=
  h.start_eq

/-- Without given days the days are plain. -/
lemma plain (hnone : request.recurrenceContext.calendar.days = []) :
    ∃ last, PlainDays (request.withHorizon horizon) (last, days) ∧
      horizon.finish ≤ midnight last horizon.start :=
  resolvedDays_plain hnone h.resolved

/-- Given days are taken in their order. -/
lemma sorted (hsome : request.recurrenceContext.calendar.days ≠ []) :
    days = sortedDays request.recurrenceContext.calendar.days :=
  (Except.ok.inj ((if_neg hsome).symm.trans h.resolved)).symm

/-- The days of the horizon: those of the platform's calendar, or plain days. -/
lemma days_cases : (request.recurrenceContext.calendar.days = [] ∧
      ∃ last, PlainDays (request.withHorizon horizon) (last, days) ∧
        horizon.finish ≤ midnight last horizon.start) ∨
    (request.recurrenceContext.calendar.days ≠ [] ∧
      days = sortedDays request.recurrenceContext.calendar.days) :=
  (em _).imp (fun hnone => ⟨hnone, h.plain hnone⟩) fun hsome => ⟨hsome, h.sorted hsome⟩

lemma isLocalDay (hcal : validateZonedCalendar request = .ok ()) :
    (∀ day ∈ days, IsLocalDay day) ∧ (days.map (·.localDate)).Nodup := by
  obtain ⟨hloc, hnd⟩ := validateZonedCalendar_days hcal
  rcases h.days_cases with ⟨-, last, hpn, -⟩ | ⟨-, rfl⟩
  · exact ⟨fun day hday => (hpn.plain day hday).isLocalDay, hpn.nodup⟩
  · exact ⟨fun day hday => hloc day ((mem_sortBy _).mp hday),
      ((sortBy_perm _ _).map _).nodup_iff.mpr hnd⟩

/-- The days of the horizon are away from the limits. -/
lemma localDate_bounds (hcal : validateZonedCalendar request = .ok ())
    (hrng : SourceInRange request source) (hday : day ∈ days) :
    -4371580 ≤ day.localDate.day ∧ day.localDate.day ≤ 2932890 := by
  have hloc := (h.isLocalDay hcal).1 day hday
  have hnear := date_bounds day.start
  rw [hloc.start_date] at hnear
  rcases h.days_cases with ⟨-, last, hpn, -⟩ | ⟨-, rfl⟩
  · -- plain days start between the date of the horizon and its end
    have hbef := lt_def.mp (hpn.before_end day hday)
    obtain ⟨hst, hend⟩ := h.atInstant
    obtain ⟨i, -, hi⟩ := mem_map.mp (hpn.dates ▸ mem_map_of_mem hday)
    have hfst := date_bounds (request.withHorizon horizon).horizonStart
    obtain ⟨hlow, hhigh⟩ := hrng.start
    simp only [Duration.day] at *
    omega
  · obtain ⟨hlow, hhigh⟩ := hrng.days day ((mem_sortBy _).mp hday)
    simp only [Duration.day] at *
    omega

lemma mem_of_authoritativeDayBoundary {date : Date}
    (hday : authoritativeDayBoundary request date = some day)
    (hdate : source.nominalStart.date = date)
    (hoff : source.nominalStart.offset = day.start.offset) : day ∈ days ∧ day.localDate = date := by
  simp only [authoritativeDayBoundary] at hday
  rcases h.days_cases with ⟨hnone, last, hpn, hlast⟩ | ⟨hsome, rfl⟩
  · rw [if_pos hnone] at hday
    obtain ⟨next, hnext, rfl⟩ := map_eq_some_iff.mp hday
    have hst := h.horizonStart_eq
    have hbef : midnight date (request.withHorizon horizon).horizonStart <
        (request.withHorizon horizon).horizonEnd := by
      rw [hst, ← hdate]
      refine lt_of_le_of_lt (midnight_date_le _) (lt_def.mpr ?_)
      rw [h.atInstant.end_eq]
      omega
    obtain ⟨other, hoth, hsame⟩ := hpn.exists_day hlast (by rw [hst, hdate]) hbef
    have hplainDay : IsPlainDay request.horizonStart ⟨date, midnight date request.horizonStart,
        midnight next request.horizonStart⟩ := ⟨rfl, next, hnext, rfl⟩
    have heq := ((hpn.plain other hoth).congr (hst ▸ hoff)).eq_of_localDate_eq hplainDay hsame
    exact ⟨heq ▸ hoth, rfl⟩
  · rw [if_neg hsome] at hday
    split at hday
    · cases hday
    · exact ⟨(mem_sortBy _).mpr (mem_of_find?_eq_some hday), localDate_of_find? hday⟩

end SourceHorizon

/-! ### Calendar rules -/

section

variable {label : BucketLabel} {target ordinal : UInt16} {weekdays : Finset DayOfWeek} {date : Date}
  {startsOn : DayOfWeek} {weekKey : Int} {year : Int} {month : ℕ} {dayCount : ℕ}
  {name : String × Option Date}

lemma weekKey_of_allocatedWeekDate
    (h : allocatedWeekDate weekKey startsOn weekdays target ordinal = some date) :
    date.weekKey startsOn = weekKey := by
  obtain ⟨start, hst, h⟩ := bind_eq_some_iff.mp h
  obtain ⟨hguard, h⟩ := Option.ite_none_left_eq_some.mp h
  rw [not_or, not_not] at hguard
  obtain ⟨-, hpl⟩ := allocatedDate_eq_some.mp h
  obtain ⟨i, hi, hdate⟩ := mem_filterMap.mp (mem_of_mem_filter (mem_of_getElem? hpl))
  have hi := mem_range.mp hi
  have hday := Date.ofDay_eq_some hdate
  have hstartDay := Date.ofDay_eq_some hst
  have hkey := hguard.1
  rw [Date.weekKey_eq] at hkey ⊢
  omega

lemma month_of_allocatedMonthDate
    (h : allocatedMonthDate year month weekdays target ordinal = some date) :
    date.year = year ∧ date.month = month := by
  obtain ⟨dates, hdts, h⟩ := bind_eq_some_iff.mp h
  obtain ⟨-, hpl⟩ := allocatedDate_eq_some.mp h
  obtain ⟨-, hdts⟩ := ite_none_right_eq_some.mp hdts
  cases hdts
  obtain ⟨i, -, hdate⟩ := mem_filterMap.mp (mem_of_mem_filter (mem_of_getElem? hpl))
  have := Date.ofCalendar_eq_some hdate
  exact ⟨this.1, this.2.1⟩

/-- What a source of a calendar rule says about its place in its bucket. -/
structure CalendarSource (startsOn : DayOfWeek) (source : RecurrenceMoveSource)
    (label : BucketLabel) (target : UInt16) (weekdays : Finset DayOfWeek) (date : Date)
    (dates : List Date) (ordinal : UInt16) : Prop where
  identity : source.identity = (label.keyOf startsOn date).identity date ordinal
  dates_eq : (label.keyOf startsOn date).dates = some dates
  allotted : allocatedDate (onWeekdays weekdays dates) target ordinal = some date

lemma date_of_calendarName {bucket : BucketKey}
    (h : calendarName request item source label bucket date target dayCount ordinal = some name) :
    source.nominalStart.date = date :=
  (localDayIsPlausible_iff.mp (calendarName_eq_some.mp h).1).2.1

lemma calendarSource_day (hident : source.identity = .calendarDay date ordinal)
    (hkey : label.keyOf startsOn date = .day date) (hlt : ordinal < target)
    (hallow : weekdays = ∅ ∨ date.weekday ∈ weekdays) :
    CalendarSource startsOn source label target weekdays date [date] ordinal where
  identity := by rw [hkey]; exact hident
  dates_eq := by rw [hkey]; rfl
  allotted := by
    refine allocatedDate_eq_some.mpr ⟨hlt, ?_⟩
    rw [onWeekdays_singleton hallow, length_singleton, Nat.mul_one,
      Nat.div_eq_of_lt (UInt16.lt_iff_toNat_lt.mp hlt)]
    rfl

lemma exists_calendarSource_week (hident : source.identity = .calendarWeek weekKey ordinal)
    (hkey : ∀ date, label.keyOf startsOn date = .week (date.weekKey startsOn))
    (hdate : allocatedWeekDate weekKey startsOn weekdays target ordinal = some date)
    (hrng : source.nominalStart.AwayFromLimits) (hst : source.nominalStart.date = date) :
    ∃ date dates ordinal,
      CalendarSource startsOn source label target weekdays date dates ordinal := by
  have hweek := weekKey_of_allocatedWeekDate hdate
  obtain ⟨hlow, hhigh⟩ := hrng
  have hnear := date_bounds source.nominalStart
  simp only [Duration.day, hst] at hnear hlow hhigh
  obtain ⟨dates, hdts⟩ := @exists_weekDates date (by omega) (by omega) startsOn
  rw [hweek] at hdts
  exact ⟨date, dates, ordinal, by rw [hkey, hweek]; exact hident,
    by rw [hkey, hweek]; exact hdts, ((allocatedWeekDate_eq_some hdts).mp hdate).2⟩

lemma exists_calendarSource_month (hident : source.identity = .calendarMonth year month ordinal)
    (hkey : ∀ date, label.keyOf startsOn date = .month date.year date.month)
    (hdate : allocatedMonthDate year month weekdays target ordinal = some date) :
    ∃ date dates ordinal,
      CalendarSource startsOn source label target weekdays date dates ordinal := by
  obtain ⟨rfl, rfl⟩ := month_of_allocatedMonthDate hdate
  obtain ⟨dates, hdts⟩ := exists_monthDates date
  obtain ⟨hmon, -, -⟩ := date.month0_bounds
  rw [allocatedMonthDate_eq ⟨by unfold Date.month; omega, by unfold Date.month; omega⟩
    hdts] at hdate
  exact ⟨date, dates, ordinal, by rw [hkey]; exact hident, by rw [hkey]; exact hdts, hdate⟩

/-- A source of a calendar rule that has a name has a place in a bucket. -/
lemma exists_calendarSource (hrule : calendarRule recurrence = some (label, target, weekdays))
    (hrng : source.nominalStart.AwayFromLimits)
    (h : validatedIdentityName request item recurrence source proof = some name) :
    ∃ date dates ordinal, CalendarSource request.recurrenceContext.calendar.weekStartsOn source
      label target weekdays date dates ordinal := by
  unfold calendarRule at hrule
  split at hrule <;> cases hrule <;> cases hident : source.identity <;>
    simp only [validatedIdentityName, hident, bind_eq_bind, reduceCtorEq,
      bind_eq_some_iff, ite_none_right_eq_some] at h
  · -- daily
    exact ⟨_, _, _, calendarSource_day hident rfl h.1 (.inl rfl)⟩
  · -- weekly
    obtain ⟨date, hdate, hname⟩ := h
    exact exists_calendarSource_week hident (fun _ => rfl) hdate hrng (date_of_calendarName hname)
  · -- monthly
    obtain ⟨date, hdate, -⟩ := h
    exact exists_calendarSource_month hident (fun _ => rfl) hdate
  · -- so many times on a day
    exact ⟨_, _, _, calendarSource_day hident rfl h.1.1 h.1.2⟩
  · -- so many times in a week
    obtain ⟨date, hdate, hname⟩ := h
    exact exists_calendarSource_week hident (fun _ => rfl) hdate hrng (date_of_calendarName hname)
  · -- so many times in a month
    obtain ⟨date, hdate, -⟩ := h
    exact exists_calendarSource_month hident (fun _ => rfl) hdate

/-- The nominal interval that the check of a move computes is that of the generator, up to the
offset of its end. -/
lemma bucketInterval_of_calendarOccurrenceBounds {day : ZonedDayBoundary}
    {spacing : Minutes} {nominal : Span} (hlt : ordinal < target) (hcnt : 0 < dayCount)
    (h : calendarOccurrenceBounds day target dayCount ordinal spacing = some nominal) :
    let interval := bucketInterval day (Share.position target.toNat dayCount ordinal.toNat)
      (Share.count target.toNat dayCount ordinal.toNat) spacing
    interval.start = nominal.start ∧ interval.finish.nanos = nominal.finish.nanos ∧
      nominal.start.offset = day.start.offset := by
  rw [calendarOccurrenceBounds, bucketPlace_eq hlt hcnt, Option.bind_some] at h
  obtain ⟨start, hst, h⟩ := bind_eq_some_iff.mp h
  obtain ⟨finish, hfin, rfl⟩ := map_eq_some_iff.mp h
  refine ⟨?_, ?_, offset_of_dayInstant hst⟩
  · rw [bucketInterval, dayFraction, hst, getD_some]
  · rw [bucketInterval_finish hst hfin]
    split_ifs with hsame
    · exact (beq_iff_eq.mp hsame).symm
    · rfl

/-- Sources of calendar rules. -/
lemma isGenuine_calendar (hcal : validateZonedCalendar request = .ok ())
    (hrng : SourceInRange request source) (hlt : source.nominalStart < source.nominalEnd)
    (hrule : calendarRule recurrence = some (label, target, weekdays))
    (hnmd : IsNamed env request item recurrence proof id source key) :
    IsGenuine env request item recurrence id source := by
  obtain ⟨hord, hname, hid⟩ := hnmd
  obtain ⟨horizon, days, hhor⟩ := exists_sourceHorizon hrng
  obtain ⟨date, dates, ordinal, hsrc⟩ := exists_calendarSource hrule hrng.start hname
  rw [validatedIdentityName_calendar hrule hsrc.identity hsrc.dates_eq hsrc.allotted,
    calendarName_eq_some] at hname
  obtain ⟨hordlt, hpl⟩ := allocatedDate_eq_some.mp hsrc.allotted
  obtain ⟨hlocalDay, hmatches, hname⟩ := hname
  obtain ⟨hlocalDate, hstDate, -⟩ := localDayIsPlausible_iff.mp hlocalDay
  obtain ⟨day, hday, hbds⟩ := bind_eq_some_iff.mp (of_decide_eq_true hmatches)
  have hcnt := Nat.zero_lt_of_lt (List.getElem?_eq_some_iff.mp hpl).1
  -- the validated bounds are those of the bucket on a day of the horizon
  obtain ⟨hst, hfin, hoff⟩ := bucketInterval_of_calendarOccurrenceBounds hordlt hcnt hbds
  obtain ⟨hmem, rfl⟩ := hhor.mem_of_authoritativeDayBoundary hday hstDate hoff
  have hm : CalendarMember _ _ _ _ _ (minimumSpacing request item) _ := .mk day dates ordinal.toNat
    hmem hsrc.dates_eq (UInt16.lt_iff_toNat_lt.mp hordlt) hpl
  obtain ⟨groups, hgroups⟩ := exists_calendarGroups fun day hday =>
    hhor.localDate_bounds hcal hrng hday
  have hser : ∃ l, expandSeries env (request.withHorizon horizon) item recurrence days = .ok l := by
    rw [expandSeries_calendar hrule, hgroups]
    exact ⟨_, rfl⟩
  obtain ⟨l, hl⟩ := hser
  have hstN := congrArg nanos hst
  refine ⟨horizon, days, l, _, hhor.resolved, hl, (mem_calendarSeries hrule
    (hhor.isLocalDay hcal).2 hl).mpr ⟨_, hm, hhor.meets hstN ?_, rfl⟩,
    Member.hasSource ?_ ?_ hstN hfin hlocalDate.symm hord⟩
  · rw [lt_def] at hlt ⊢
    exact hstN ▸ hfin ▸ hlt
  · rw [hid, (Prod.mk.inj hname).1]
    rfl
  · rw [hsrc.identity]
    show BucketKey.identity _ _ (UInt16.ofNat ordinal.toNat) = _
    rw [UInt16.ofNat_toNat]

/-! ### Steps of minutes -/

variable {rule : RollingRule} {index : Int}

lemma rollingName_eq_some {anchor identityAnchor : OffsetDateTime}
    {expected : Option Span} {name : String} {result : String × Option Date} :
    rollingName source anchor identityAnchor expected name = some result ↔
      identityAnchor = anchor ∧ expected = some ⟨source.nominalStart, source.nominalEnd⟩ ∧
        source.localDate = none ∧ result = (name, none) := by
  rw [rollingName, ite_none_right_eq_some, and_assoc, and_assoc, Option.some.injEq,
    eq_comm (a := result)]

lemma of_rollingName {anchor identityAnchor : OffsetDateTime}
    {start natural : Option OffsetDateTime}
    {spacing : Minutes} {name : String}
    (h : rollingName source anchor identityAnchor (spacedInterval start natural spacing) name =
      some (key, source.localDate)) :
    identityAnchor = anchor ∧ ∃ b, start = some source.nominalStart ∧ natural = some b ∧
      occurrenceEndWithSpacing source.nominalStart b spacing = some source.nominalEnd ∧
      source.localDate = none ∧ key = name := by
  simp only [rollingName_eq_some, spacedInterval, bind_eq_bind, bind_eq_some_iff] at h
  obtain ⟨hanchor, ⟨a, ha, b, hb, finish, hfin, heq⟩, hdate, hname⟩ := h
  cases heq
  exact ⟨hanchor, b, ha, hb, hfin, hdate, (Prod.mk.inj hname).1⟩

/-- What a source says about its index. -/
structure RollingSource (rule : RollingRule) (spacing : Minutes) (source : RecurrenceMoveSource)
    (key : String) (index : Int) (natural : OffsetDateTime) : Prop where
  identity : source.identity = .rollingMinutes index rule.anchor
  instant : rule.instant index = some source.nominalStart
  natural_eq : rule.naturalEnd source.nominalStart (index + 1) = some natural
  finish : occurrenceEndWithSpacing source.nominalStart natural spacing = some source.nominalEnd
  localDate : source.localDate = none
  key_eq : key = rule.keyStem ++ toString index

lemma frequencyName_eq (anchor target label label' index : String) (period : ℕ)
    (tail : String) (hlabel : label ++ ":" = label')
    (htail : ":" ++ toString period ++ ":" = tail) :
    label' ++ anchor ++ ":" ++ target ++ tail ++ index =
      label ++ ":" ++ anchor ++ ":" ++ target ++ ":" ++ toString period ++ ":" ++ index := by
  rw [← hlabel, ← htail]
  simp only [String.append_assoc]

/-- A source of a rule that follows its anchor in steps of minutes has an index. -/
lemma exists_rollingSource (hrule : rollingRuleOf request item recurrence = some rule)
    (h : validatedIdentityName request item recurrence source proof =
      some (key, source.localDate)) :
    ∃ index natural, RollingSource rule (minimumSpacing request item) source key index natural := by
  unfold rollingRuleOf at hrule
  split at hrule <;> try cases hrule
  all_goals
    split at hrule <;> cases hrule
    cases hident : source.identity <;>
      simp only [validatedIdentityName, hident, reduceCtorEq] at h
  · obtain ⟨rfl, natural, hst, hnat, hfin, hdate, hname⟩ := of_rollingName h
    rw [hst, Option.bind_some] at hnat
    exact ⟨_, natural, hident, hst, hnat, hfin, hdate, hname⟩
  all_goals
    obtain ⟨rfl, natural, hst, hnat, hfin, hdate, hname⟩ := of_rollingName h
    exact ⟨_, natural, hident, hst, hnat, hfin, hdate,
      hname.trans (frequencyName_eq _ _ _ _ _ _ _ (by decide) (by decide))⟩

/-- A rule that follows its anchor in steps of minutes expands in the horizon of a source. -/
lemma exists_expandSeries_rolling (hhor : SourceHorizon request source horizon days)
    (hrule : rollingRuleOf request item recurrence = some rule)
    (hsrc : RollingSource rule (minimumSpacing request item) source key index natural)
    (hidx : 0 ≤ index) (hlt : index < 2147483647) :
    ∃ l, expandSeries env (request.withHorizon horizon) item recurrence days = .ok l := by
  obtain ⟨-, hinst, hnat, hfin, -, -⟩ := hsrc
  unfold rollingRuleOf at hrule
  split at hrule <;> try cases hrule
  all_goals split at hrule <;> cases hrule
  · exact exists_expandRollingMinutes hidx hlt hinst hnat ‹_› hhor.atInstant hfin
  all_goals exact exists_expandRollingFrequency ‹_› hhor.atInstant hidx (by omega) hinst hnat hfin

/-- Sources of rules with steps of minutes. -/
lemma isGenuine_rolling (hrng : SourceInRange request source)
    (hrule : rollingRuleOf request item recurrence = some rule)
    (hidx : ∀ index anchor, source.identity = .rollingMinutes index anchor → index < 2147483646)
    (hnmd : IsNamed env request item recurrence proof id source key) :
    IsGenuine env request item recurrence id source := by
  obtain ⟨hord, hname, hid⟩ := hnmd
  obtain ⟨horizon, days, hhor⟩ := exists_sourceHorizon hrng
  obtain ⟨index, natural, hsrc⟩ := exists_rollingSource hrule hname
  have hlt := hidx index rule.anchor hsrc.identity
  have hnn : 0 ≤ index := by
    rw [hsrc.identity] at hord
    exact (ite_none_right_eq_some.mp hord).1.1
  obtain ⟨l, hl⟩ := exists_expandSeries_rolling hhor hrule hsrc hnn (by omega)
  obtain ⟨first, hfst, -, hmem⟩ := @expandSeries_rolling env (request.withHorizon horizon) item
    recurrence days l rule hrule hl
  have hm := RollingRule.member_eq_some.mpr ⟨source.nominalStart, natural, source.nominalEnd,
    hsrc.instant, hsrc.natural_eq, hsrc.finish, rfl⟩
  have hopen : (request.withHorizon horizon).horizonStart < natural := by
    have := rule.lt_natural hnn hsrc.instant hsrc.natural_eq
    rw [lt_def] at this ⊢
    rw [hhor.atInstant.start_eq]
    exact this
  refine ⟨horizon, days, l, _, hhor.resolved, hl, (hmem _).mpr ⟨index, _,
    (hfst.le_iff hnn hsrc.instant hsrc.natural_eq).mpr hopen, hm, ?_, rfl⟩,
    Member.hasSource ?_ hsrc.identity.symm rfl rfl hsrc.localDate.symm hord⟩
  · rw [lt_def, hhor.atInstant.end_eq]
    exact Int.lt_succ _
  · rw [hid, hsrc.key_eq]

/-- Sources of the rule after completion. -/
lemma isGenuine_afterCompletion {interval : Minutes} (hrng : SourceInRange request source)
    (hlt : source.nominalStart < source.nominalEnd)
    (hnmd : IsNamed env request item (.afterCompletion interval) proof id source key) :
    IsGenuine env request item (.afterCompletion interval) id source := by
  obtain ⟨hord, hname, hid⟩ := hnmd
  obtain ⟨horizon, days, hhor⟩ := exists_sourceHorizon hrng
  cases hident : source.identity <;>
    simp only [validatedIdentityName, hident, reduceCtorEq] at hname
  obtain ⟨rfl, hexpected, hdate, hname⟩ := rollingName_eq_some.mp hname
  obtain ⟨due, hdue, hexpected⟩ := bind_eq_some_iff.mp hexpected
  obtain ⟨finish, hfin, heq⟩ := map_eq_some_iff.mp hexpected
  obtain ⟨rfl, rfl⟩ := HalfOpen.mk.inj heq
  obtain ⟨hst, hend⟩ := hhor.atInstant
  rw [lt_def] at hlt
  obtain ⟨l, hl⟩ : ∃ l, expandSeries env (request.withHorizon horizon) item
      (.afterCompletion interval) days = .ok l := by
    refine Except.exists_bind_eq_ok (inRange_eq_ok.mpr hdue)
      (Except.exists_bind_eq_ok (inRange_eq_ok.mpr hfin) ?_)
    split_ifs <;> exact ⟨_, rfl⟩
  -- the rule has one member, and it has the validated interval
  have hmb : completionMember (request.withHorizon horizon) item interval = some _ :=
    bind_eq_some_iff.mpr ⟨_, hdue, map_eq_some_iff.mpr ⟨_, hfin, rfl⟩⟩
  refine ⟨horizon, days, l, _, hhor.resolved, hl, (@mem_expandAfterCompletion env
    (request.withHorizon horizon) item interval l hl _).mpr ⟨_, hmb, ?_, ?_, rfl⟩,
    Member.hasSource ?_ hident.symm rfl rfl hdate.symm hord⟩
  · rw [lt_def, hend]
    exact Int.lt_succ _
  · rw [lt_def, hst]
    exact hlt
  · rw [hid, (Prod.mk.inj hname).1]
    rfl

end

/-! ### Cycles of months -/

section

variable {anchor b : OffsetDateTime} {cycle : Int} {index target : UInt16} {spacing : Minutes}
  {t : OffsetDateTime}

lemma rollingMonthSourceMatches_eq_true
    (h : rollingMonthSourceMatches request source anchor cycle index target spacing = true) :
    ∃ startDate endDate a b natural, addMonths anchor.date cycle = some startDate ∧
      addMonths anchor.date (cycle + 1) = some endDate ∧
      authoritativeBoundaryInstant request startDate = some a ∧
      authoritativeBoundaryInstant request endDate = some b ∧
      cyclePart ⟨a, b⟩ index.toNat target.toNat = some source.nominalStart ∧
      (if index.toNat + 1 = target.toNat then some b
        else cyclePart ⟨a, b⟩ (index.toNat + 1) target.toNat) = some natural ∧
      occurrenceEndWithSpacing source.nominalStart natural spacing = some source.nominalEnd := by
  simp only [rollingMonthSourceMatches, bind_eq_bind, decide_eq_true_eq, bind_eq_some_iff] at h
  obtain ⟨startDate, hstDate, endDate, hendDate, a, ha, b, hb, start, hst, h⟩ := h
  refine ⟨startDate, endDate, a, b, ?_⟩
  split_ifs at h ⊢
  all_goals
    simp only [bind_eq_some_iff] at h
    obtain ⟨natural, hnat, finish, hfin, h⟩ := h
    cases h
    exact ⟨natural, hstDate, hendDate, ha, hb, hst, hnat, hfin⟩

lemma Date.monthIndex_mono {a b : Date} (h : a ≤ b) : a.monthIndex ≤ b.monthIndex := by
  by_contra hlt
  have hmono := monthStart_mono (show b.monthIndex + 1 ≤ a.monthIndex by omega)
  have hsucc := monthStart_succ b.monthIndex
  have ha := a.day_eq_monthStart_add
  have hb := b.day_eq_monthStart_add
  have hone := a.dayOfMonth_bounds
  have hlast := b.dayOfMonth_bounds
  obtain ⟨hyear, hmon⟩ : b.monthIndex / 12 = b.year ∧ (b.monthIndex % 12).toNat + 1 = b.month := by
    have := b.month0_bounds
    unfold Date.monthIndex Date.month
    omega
  rw [hyear, hmon] at hsucc
  rw [Date.le_def] at h
  omega

/-- The boundary of which the request is the authority. -/
lemma authoritativeBoundaryInstant_cases {date : Date}
    (h : authoritativeBoundaryInstant request date = some t) :
    (request.recurrenceContext.calendar.days = [] ∧ t = midnight date request.horizonStart) ∨
      ∃ day ∈ request.recurrenceContext.calendar.days, day.localDate = date ∧ t = day.start ∨
        day.localDate.nextDay = some date ∧ t = day.finish := by
  simp only [authoritativeBoundaryInstant] at h
  split_ifs at h with hnone
  · exact .inl ⟨hnone, (Option.some.inj h).symm⟩
  · obtain ⟨day, hday, h⟩ := exists_of_findSome?_eq_some h
    refine .inr ⟨day, hday, ?_⟩
    split_ifs at h with hdate hnext <;> cases h
    · exact .inl ⟨hdate, rfl⟩
    · exact .inr ⟨hnext, rfl⟩

section

variable (h : SourceHorizon request source horizon days)
  (hcal : validateZonedCalendar request = .ok ())
  (hoff : request.recurrenceContext.calendar.days = [] →
    source.nominalStart.offset = request.horizonStart.offset)

include h hcal hoff

/-- The boundary of which the request is the authority is that of the horizon. -/
lemma SourceHorizon.boundaryInstant_eq {date : Date}
    (ht : authoritativeBoundaryInstant request date = some t) :
    (boundaryInstant (request.withHorizon horizon) days date).nanos = t.nanos := by
  obtain ⟨-, hnd⟩ := h.isLocalDay hcal
  rcases authoritativeBoundaryInstant_cases ht with ⟨hnone, rfl⟩ | ⟨day, hday, ht⟩
  · obtain ⟨last, hpn, -⟩ := h.plain hnone
    rw [boundaryInstant_plain hpn.plain, midnight_congr (h.horizonStart_eq ▸ hoff hnone)]
  · -- the day of the date, or the end of the day before it
    have hmem : ∀ day, day ∈ days ↔ day ∈ request.recurrenceContext.calendar.days := by
      rw [h.sorted (ne_nil_of_mem hday)]
      exact fun day => mem_sortBy _
    unfold boundaryInstant
    rcases ht with ⟨hdate, rfl⟩ | ⟨hnext, rfl⟩
    · rw [← hdate, find?_localDate hnd ((hmem day).mpr hday)]
    · cases hfind : days.find? fun other => other.localDate = date with
      | some other =>
        have hsame := localDate_of_find? hfind
        exact (finish_eq_start_of_nextDay hcal hday
          ((hmem other).mp (mem_of_find?_eq_some hfind)) (by rw [hsame]; exact hnext)).symm
      | none =>
        cases hprev : days.find? fun other => other.localDate.nextDay = some date with
        | none =>
          have := find?_eq_none.mp hprev day ((hmem day).mpr hday)
          simp [hnext] at this
        | some other =>
          have hoth : other.localDate.nextDay = some date := by
            simpa using find?_some hprev
          have hsame : other.localDate = day.localDate := by
            have hday := Date.nextDay_eq_some hnext
            have hoth := Date.nextDay_eq_some hoth
            exact Date.ext (by omega)
          rw [inj_on_of_nodup_map hnd (mem_of_find?_eq_some hprev) ((hmem day).mpr hday) hsame]

/-- The expansion does not start after the cycle of a source. -/
lemma SourceHorizon.firstCycle_le (hcyc : 0 ≤ cycle) {endDate : Date}
    (hend : addMonths anchor.date (cycle + 1) = some endDate)
    (hb : authoritativeBoundaryInstant request endDate = some b) (hlt : source.nominalStart < b) :
    firstCycle (request.withHorizon horizon) days anchor ≤ cycle := by
  obtain ⟨hidx, -⟩ := addMonths_eq_some hend
  -- the first day is not after the end of the cycle
  have hfst : ((days.head?.map ZonedDayBoundary.localDate).getD
      (request.withHorizon horizon).horizonStart.date) ≤ endDate := by
    rcases authoritativeBoundaryInstant_cases hb with ⟨hnone, rfl⟩ | ⟨day, hday, hb⟩
    · obtain ⟨last, hpn, -⟩ := h.plain hnone
      have hst := h.horizonStart_eq
      have hbef : source.nominalStart.date ≤ endDate := by
        by_contra hgt
        have hle :=
          (midnight_le_midnight (lt_of_not_ge hgt).le).trans (midnight_date_le source.nominalStart)
        rw [midnight_congr (hoff hnone)] at hle
        exact absurd hle (not_le_of_gt hlt)
      cases hhead : days.head? with
      | none => rwa [Option.map_none, Option.getD_none, hst]
      | some day =>
        obtain ⟨rest, rfl⟩ := head?_eq_some_iff.mp hhead
        have hdts := hpn.dates
        simp only [map_cons, length_cons, range_succ_eq_map, List.cons.injEq] at hdts
        have hfst : day.localDate = source.nominalStart.date := by
          refine Date.ext ?_
          rw [hdts.1, hst]
          simp
        rwa [map_some, getD_some, hfst]
    · have hmem : day ∈ sortedDays request.recurrenceContext.calendar.days :=
        (mem_sortBy _).mpr hday
      have hle : day.localDate ≤ endDate := by
        rcases hb with ⟨hdate, -⟩ | ⟨hnext, -⟩
        · exact hdate.le
        · have := Date.nextDay_eq_some hnext
          exact Date.le_def.mpr (by omega)
      have hpw := pairwise_sortedDays (validateZonedCalendar_days hcal).2
      rw [← h.sorted (ne_nil_of_mem hday)] at hmem hpw
      cases days with
      | nil => cases hmem
      | cons first rest =>
        refine le_trans ?_ hle
        rcases mem_cons.mp hmem with rfl | hrest
        · exact le_refl _
        · exact ((pairwise_cons.mp hpw).1 day hrest).le
  have hmono := Date.monthIndex_mono hfst
  exact max_le (by omega) hcyc

end

lemma offset_of_cyclePart {span : Span} {i n : ℕ}
    (h : cyclePart span i n = some t) : t.offset = span.start.offset := by
  obtain ⟨part, -, ht⟩ := bind_eq_some_iff.mp h
  exact (OffsetDateTime.ofNanos_eq_some ht).2

lemma cycleInterval_of_source {a : OffsetDateTime} (hab : a.nanos ≤ b.nanos)
    (hst : cyclePart ⟨a, b⟩ index.toNat target.toNat = some source.nominalStart)
    (hnat : (if index.toNat + 1 = target.toNat then some b
      else cyclePart ⟨a, b⟩ (index.toNat + 1) target.toNat) = some natural)
    (hfin : occurrenceEndWithSpacing source.nominalStart natural spacing = some source.nominalEnd) :
    cycleInterval ⟨a, b⟩ index.toNat target.toNat spacing =
      some ⟨source.nominalStart, source.nominalEnd⟩ := by
  refine cycleInterval_eq_some.mpr ⟨_, natural, _, ?_, hnat, hfin, rfl⟩
  split_ifs with hzero
  · refine congrArg some (ext ?_ (offset_of_cyclePart hst).symm)
    rw [nanos_cyclePart hab hst, hzero]
    simp
  · exact hst

/-- Sources of rules with cycles of months. -/
lemma isGenuine_months {weekdays : Finset DayOfWeek} {ruleSpacing : Minutes}
    {ruleAnchor : Option OffsetDateTime} (hcal : validateZonedCalendar request = .ok ())
    (hrng : SourceInRange request source)
    (hnmd : IsNamed env request item
      (.frequency target .month .rolling weekdays ruleSpacing ruleAnchor) proof id source key) :
    IsGenuine env request item (.frequency target .month .rolling weekdays ruleSpacing ruleAnchor)
      id source := by
  obtain ⟨hord, hname, hid⟩ := hnmd
  obtain ⟨horizon, days, hhor⟩ := exists_sourceHorizon hrng
  obtain ⟨hloc, -⟩ := hhor.isLocalDay hcal
  cases hident : source.identity <;>
    simp only [validatedIdentityName, hident, reduceCtorEq, ite_none_right_eq_some,
      Option.some.injEq, Prod.mk.injEq] at hname
  rename_i cycle index identityAnchor
  obtain ⟨⟨hcyc, -, hidx, rfl, hmatches, hdate⟩, rfl, -⟩ := hname
  obtain ⟨startDate, endDate, a, b, natural, hstDate, hendDate, ha, hb, hst, hnat, hfin⟩ :=
    rollingMonthSourceMatches_eq_true hmatches
  have hidx := UInt16.lt_iff_toNat_lt.mp hidx
  have hoff : request.recurrenceContext.calendar.days = [] →
      source.nominalStart.offset = request.horizonStart.offset := by
    intro hnone
    rw [offset_of_cyclePart hst]
    rcases authoritativeBoundaryInstant_cases ha with ⟨-, rfl⟩ | ⟨day, hday, -⟩
    · rfl
    · rw [hnone] at hday
      cases hday
  have hspan := cycleSpan_eq_some.mpr ⟨startDate, endDate, hstDate, hendDate,
    (rfl : _ = (⟨boundaryInstant (request.withHorizon horizon) days startDate,
      boundaryInstant (request.withHorizon horizon) days endDate⟩ : Span))⟩
  have hlen := cycleSpan_length hloc hspan
  have hspanStart := hhor.boundaryInstant_eq hcal hoff ha
  have hspanFinish := hhor.boundaryInstant_eq hcal hoff hb
  have hab : a.nanos < b.nanos := by
    simp only [Duration.day] at hlen
    omega
  -- the source starts in its cycle
  have hint := cycleInterval_of_source hab.le hst hnat hfin
  obtain ⟨hstN, hfinN⟩ := nanos_cycleInterval hab.le hidx hint
  have hlow : (0 : Int) ≤ (b.nanos - a.nanos) * index.toNat / target.toNat :=
    Int.ediv_nonneg (Int.mul_nonneg (by omega) (Int.natCast_nonneg _)) (Int.natCast_nonneg _)
  have hhigh : (b.nanos - a.nanos) * index.toNat / target.toNat < b.nanos - a.nanos :=
    Int.ediv_lt_of_lt_mul (by omega)
      (Int.mul_lt_mul_of_pos_left (by exact_mod_cast hidx) (by omega))
  dsimp only at hstN hfinN
  have hafterStart : boundaryInstant (request.withHorizon horizon) days startDate ≤
      source.nominalStart := le_def.mpr (by omega)
  have hbeforeFinish : source.nominalStart <
      boundaryInstant (request.withHorizon horizon) days endDate :=
    lt_def.mpr (by omega)
  have hspac : source.nominalStart.nanos + (minimumSpacing request item).toDuration ≤
      2932397 * Duration.day := by
    have hlim := hrng.finish.2
    rw [hfinN] at hlim
    exact (le_max_right _ _).trans hlim
  obtain ⟨hspanRange, hnear, -⟩ :=
    spanInRange_of_mem hloc hspan hrng.start hafterStart hbeforeFinish
  have hroom : (boundaryInstant (request.withHorizon horizon) days endDate).nanos +
      (minimumSpacing request item).toDuration ≤ 2932895 * Duration.day := by
    simp only [Duration.day] at hnear hspac ⊢
    omega
  obtain ⟨nominal, hnom⟩ := exists_cycleInterval hspanRange hroom hidx
    (by have := target.toNat_lt; omega)
  obtain ⟨hstN', hfinN'⟩ := nanos_cycleInterval hspanRange.start_le hidx hnom
  rw [hspanStart, hspanFinish, ← hstN] at hstN'
  rw [hspanStart, hspanFinish, hstN', ← hfinN] at hfinN'
  have hm := monthMember_eq_some.mpr ⟨_, nominal, hspan, hnom, rfl⟩
  have hfst := hhor.firstCycle_le hcal hoff hcyc hendDate hb (lt_def.mpr (by omega))
  obtain ⟨l, hl⟩ := exists_expandRollingMonths hloc hhor.atInstant hspan hrng.start hafterStart
    hbeforeFinish hspac hfst
  have hopen : (request.withHorizon horizon).horizonStart <
      boundaryInstant (request.withHorizon horizon) days endDate := by
    rw [lt_def, hhor.atInstant.start_eq]
    exact lt_def.mp hbeforeFinish
  have hnominalLt := (monthMember_bounds hloc hidx hm).choose_spec.2.2
  have hmt := Member.meets_iff.mp (hhor.meets hstN' hnominalLt)
  refine ⟨horizon, days, l, _, hhor.resolved, hl, ((mem_expandRollingMonths hloc hl).2 _).mpr
    ⟨cycle, _, index.toNat, _, hfst, hspan, hopen, hidx, hm, hmt.2.1, hmt.2.2.1, rfl⟩,
    Member.hasSource hid ?_ hstN' hfinN' hdate.symm (hident ▸ hord)⟩
  rw [hident, UInt16.ofNat_toNat]

end

/-! ### Custom rules -/

lemma localDate_le_getLast {last day : ZonedDayBoundary}
    (hdays : days.Pairwise fun a b => a.localDate < b.localDate)
    (hlast : days.getLast? = some last) (hday : day ∈ days) : day.localDate ≤ last.localDate := by
  obtain ⟨init, rfl⟩ := getLast?_eq_some_iff.mp hlast
  rcases mem_append.mp hday with hinit | hend
  · exact ((pairwise_append.mp hdays).2.2 day hinit last mem_cons_self).le
  · rw [mem_singleton.mp hend]

/-- Sources of custom rules. -/
lemma isGenuine_custom {rrule : String} {rule : CustomRecurrenceRule} {dates : List Date}
    (hcal : validateZonedCalendar request = .ok ()) (hrng : SourceInRange request source)
    (hlt : source.nominalStart < source.nominalEnd) (hparse : parseCustomRrule rrule = .ok rule)
    (hdts : rule.allOccurrenceDates item.createdAt.date
      request.recurrenceContext.calendar.weekStartsOn = .ok dates)
    (hnmd : IsNamed env request item (.custom rrule) (some ⟨rule.ruleId env, dates⟩) id source
      key) : IsGenuine env request item (.custom rrule) id source := by
  obtain ⟨hord, hname, hid⟩ := hnmd
  obtain ⟨horizon, days, hhor⟩ := exists_sourceHorizon hrng
  obtain ⟨-, hnd⟩ := hhor.isLocalDay hcal
  obtain ⟨date, hdate : source.localDate = some date⟩ :=
    localDate_of_validatedIdentityName_custom _ _ _ _ hname
  rw [hdate, validatedIdentityName_custom] at hname
  obtain ⟨sequence, day, hident, hpl, -, hfind, -, hst, hfin, rfl⟩ := hname
  obtain rfl := localDate_of_find? hfind
  have hmem := mem_of_find?_eq_some hfind
  have hdays := hhor.sorted (ne_nil_of_mem hmem)
  have hday : day ∈ days := by
    rw [hdays]
    exact (mem_sortBy _).mpr hmem
  -- the date is not after the last day, so the scan of the horizon finds it
  obtain ⟨last, hlast⟩ := Option.ne_none_iff_exists'.mp
    (mt getLast?_eq_none_iff.mp (ne_nil_of_mem hday))
  obtain ⟨all, hall, rfl⟩ := Except.map_eq_ok.mp hdts
  have hents : rule.occurrenceDatesThrough item.createdAt.date last.localDate
      request.recurrenceContext.calendar.weekStartsOn =
        .ok (all.filter fun entry => entry.2 ≤ last.localDate) := by
    rw [CustomRecurrenceRule.occurrenceDatesThrough_eq, hall]
    rfl
  have hle : day.localDate ≤ last.localDate := by
    refine localDate_le_getLast ?_ hlast hday
    rw [hdays]
    exact pairwise_sortedDays (validateZonedCalendar_days hcal).2
  have hent := (CustomRecurrenceRule.mem_occurrenceDatesThrough hdts hents).mpr ⟨hle, hpl⟩
  have hm : customMember item (rule.ruleId env) days (sequence, day.localDate) =
      some _ := congrArg (Option.map _) (find?_localDate hnd hday)
  obtain ⟨l, hl⟩ : ∃ l, expandSeries env (request.withHorizon horizon) item (.custom rrule) days =
      .ok l := by
    simp only [expandSeries, expandCustom, hparse, hlast, PlanRequest.withHorizon, hents]
    exact ⟨_, rfl⟩
  obtain ⟨rule', entries', hparse', hents', hmem'⟩ := mem_expandCustom hl
  cases hparse.symm.trans hparse'
  have hsame : entries' = all.filter fun entry => entry.2 ≤ last.localDate := by
    unfold customEntries at hents'
    rw [hlast] at hents'
    exact Except.ok.inj (hents'.symm.trans hents)
  refine ⟨horizon, days, l, _, hhor.resolved, hl, (hmem' _).mpr ⟨_, hsame ▸ hent, _, hm,
    hhor.meets (congrArg nanos hst.symm) ?_, rfl⟩,
    Member.hasSource hid hident.symm (congrArg nanos hst.symm)
      (congrArg nanos hfin.symm) hdate.symm hord⟩
  rw [hst, hfin] at hlt
  exact hlt

/-- **Sources that are accepted are genuine.** A source that the checks of a request let through and
that the check of a move accepts describes an occurrence of the series in some horizon. -/
theorem moveSource_genuine {destination : HalfOpen OffsetDateTime}
    (hrule : validateRule item.id recurrence = .ok ())
    (hctx : validateRecurrenceContext request = .ok ())
    (hmove : moveException item.id id source destination ∈ request.recurrenceContext.exceptions)
    (hrng : SourceInRange request source)
    (hidx : ∀ index anchor, source.identity = .rollingMinutes index anchor → index < 2147483646)
    (hproof : customMoveProof env request item recurrence = .ok proof)
    (hval : moveSourceIsValid env request item recurrence id source proof = true) :
    IsGenuine env request item recurrence id source := by
  obtain ⟨-, -, hord, key, hname, hid⟩ := moveSourceIsValid_iff.mp hval
  have hnmd : IsNamed env request item recurrence proof id source key := ⟨hord, hname, hid⟩
  have hcal := (validateRecurrenceContext_eq_ok.mp hctx).calendar
  -- the nominal interval of a move is checked before the source is
  have hlt : source.nominalStart < source.nominalEnd := by
    have hexc := (validateRecurrenceContext_eq_ok.mp hctx).exceptions _ hmove
    simp only [validateException, moveException, Except.bind_eq_ok, Except.require_eq_ok] at hexc
    obtain ⟨-, -, -, hlt, -⟩ := hexc
    exact hlt
  cases ruleForm_of_validateRule request hrule with
  | rolling hroll => exact isGenuine_rolling hrng hroll hidx hnmd
  | months => exact isGenuine_months hcal hrng hnmd
  | calendar _ hbkts => exact isGenuine_calendar hcal hrng hlt hbkts hnmd
  | afterCompletion => exact isGenuine_afterCompletion hrng hlt hnmd
  | custom rrule =>
    obtain ⟨rule, dates, hparse, hdts, rfl⟩ := exists_of_customMoveProof hmove hproof
    exact isGenuine_custom hcal hrng hlt hparse hdts hnmd

end

namespace Sample

/-- A habit of one day by a custom rule, created in the first hour of the day. -/
def onceOnly : WorkItem :=
  { habit (.custom "FREQ=DAILY;COUNT=1") 0 with
    id := ⟨Uuid.ofNat (5 * 2 ^ 76)⟩
    createdAt := .atSecond 3600 }

/-- The source of the only occurrence of the habit of one day. -/
def onceOnlySource : RecurrenceMoveSource where
  itemRevision := 1
  identity := .customRule (Uuid.ofNat 0x4441595745415645435553544f4d0001) 0 epochDay.localDate
  nominalStart := .atSecond 3600
  nominalEnd := epochDay.finish
  localDate := some epochDay.localDate
  ordinal := 0

/-- A request with a move of that occurrence. -/
def onceOnlyRequest : PlanRequest :=
  (zonedRequest onceOnly epochDay).withExceptions [moveException onceOnly.id
    ⟨Uuid.ofNat (5 * 2 ^ 76)⟩ onceOnlySource ⟨.atSecond 0, .atSecond 60⟩]

end Sample

/-- The source of a habit created in the first hour is genuine. -/
theorem moveSource_genuine_onceOnly : IsGenuine externals onceOnlyRequest onceOnly
    (.custom "FREQ=DAILY;COUNT=1") ⟨Uuid.ofNat (5 * 2 ^ 76)⟩ onceOnlySource :=
  @moveSource_genuine externals onceOnlyRequest onceOnly (.custom "FREQ=DAILY;COUNT=1")
    onceOnlySource (some ⟨Uuid.ofNat 0x4441595745415645435553544f4d0001, [epochDay.localDate]⟩)
    ⟨Uuid.ofNat (5 * 2 ^ 76)⟩ ⟨.atSecond 0, .atSecond 60⟩ (by decide +kernel) (by decide +kernel)
    (mem_singleton_self _) ⟨by decide +kernel, by decide +kernel, by decide +kernel⟩
    (fun _ _ h => nomatch h) (by decide +kernel) (by decide +kernel)

end DayWeave
