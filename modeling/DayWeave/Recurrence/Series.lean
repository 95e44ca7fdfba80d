import DayWeave.Recurrence.Complete

/-!
The members of a series, for every form of rule.

`SeriesMember` brings the members of all rules under one relation. An occurrence of an expansion
is that of a member whose nominal interval is not empty and meets the horizon
(`exists_seriesMember`).
-/

namespace DayWeave

open OffsetDateTime (le_def lt_def)

/-- The one member of an after-completion rule. -/
def completionMember (request : PlanRequest) (item : WorkItem) (interval : Minutes) :
    Option Member :=
  let anchor := (request.recurrenceContext.completionAnchors[item.id]?).getD item.createdAt
  (anchor.checkedAdd (max interval (minimumSpacing request item)).toDuration).bind fun due =>
    (due.checkedAdd interval.toDuration).map fun finish =>
      ⟨"after-completion:" ++ toString anchor.nanos ++ ":" ++ toString interval.toNat,
        .afterCompletion anchor, ⟨due, finish⟩, none⟩

section

variable {env : Externals} {request : PlanRequest} {item : WorkItem} {interval : Minutes}

lemma start_lt_finish_of_completionMember (hint : interval ≠ 0) {m : Member}
    (h : completionMember request item interval = some m) : m.nominal.start < m.nominal.finish := by
  obtain ⟨due, -, h⟩ := Option.bind_eq_some_iff.mp h
  obtain ⟨finish, hfin, rfl⟩ := Option.map_eq_some_iff.mp h
  have hpos := Minutes.toDuration_pos hint
  show due.nanos < finish.nanos
  rw [OffsetDateTime.nanos_of_checkedAdd hfin]
  omega

lemma mem_expandAfterCompletion {l : List Occurrence}
    (h : expandAfterCompletion env request item interval (minimumSpacing request item) = .ok l)
    {o : Occurrence} : o ∈ l ↔ ∃ m, completionMember request item interval = some m ∧
      m.nominal.start < request.horizonEnd ∧ request.horizonStart < m.nominal.finish ∧
      o = m.occurrence env request item.id := by
  obtain ⟨due, hdue, h⟩ := Except.bind_eq_ok.mp h
  obtain ⟨finish, hfin, h⟩ := Except.bind_eq_ok.mp h
  rw [inRange_eq_ok] at hdue hfin
  simp only [completionMember, hdue, hfin, Option.bind_some, Option.map_some, Option.some.injEq,
    exists_eq_left']
  split at h
  · rename_i hout
    cases h
    refine iff_of_false List.not_mem_nil ?_
    rintro ⟨hst, hmt, -⟩
    rcases hout with hout | hout
    · exact absurd hout (not_le_of_gt hst)
    · exact absurd hout (not_le_of_gt hmt)
  · rename_i hout
    cases h
    rw [not_or, le_def, le_def, Int.not_le, Int.not_le] at hout
    rw [List.mem_singleton]
    exact ⟨fun ho => ⟨lt_def.mpr hout.1, lt_def.mpr hout.2, ho⟩, fun ⟨_, _, ho⟩ => ho⟩

end

/-- The member of a custom rule on one of its dates. -/
def customMember (item : WorkItem) (ruleId : Uuid) (days : List ZonedDayBoundary)
    (entry : UInt32 × Date) : Option Member :=
  (days.find? fun day => day.localDate = entry.2).map fun day =>
    ⟨customIdentityKey ruleId entry.1 entry.2, .customRule ruleId entry.1 entry.2,
      ⟨customStart item day entry.2, day.finish⟩, some entry.2⟩

section

variable {env : Externals} {request : PlanRequest} {item : WorkItem} {ruleId : Uuid}
  {days : List ZonedDayBoundary}

lemma customOccurrence_eq_some {entry : UInt32 × Date} {o : Occurrence} :
    customOccurrence env request item ruleId days entry = some o ↔
      ∃ m, customMember item ruleId days entry = some m ∧ m.Meets request ∧
        o = m.occurrence env request item.id := by
  simp only [customOccurrence, Option.bind_eq_bind, Option.bind_eq_some_iff, customMember,
    Option.map_eq_some_iff]
  constructor
  · rintro ⟨day, hday, ho⟩
    obtain ⟨hmt, ho⟩ := Option.ite_none_right_eq_some.mp ho
    exact ⟨_, ⟨day, hday, rfl⟩, hmt.2, (Option.some.inj ho).symm⟩
  · rintro ⟨m, ⟨day, hday, rfl⟩, hmt, rfl⟩
    exact ⟨day, hday, if_pos ⟨(Member.meets_iff.mp hmt).1, hmt⟩⟩

end

/-- What a custom rule says about the dates up to the last resolved day. -/
def customEntries (request : PlanRequest) (item : WorkItem) (days : List ZonedDayBoundary)
    (rule : CustomRecurrenceRule) : Except CustomRecurrenceRuleError (List (UInt32 × Date)) :=
  match days.getLast? with
  | none => .ok []
  | some last =>
    rule.occurrenceDatesThrough item.createdAt.date last.localDate
      request.recurrenceContext.calendar.weekStartsOn

lemma mem_expandCustom {env : Externals} {request : PlanRequest} {item : WorkItem} {rrule : String}
    {days : List ZonedDayBoundary} {l : List Occurrence}
    (h : expandCustom env request item rrule days = .ok l) :
    ∃ rule entries, parseCustomRrule rrule = .ok rule ∧
      customEntries request item days rule = .ok entries ∧
      ∀ o, o ∈ l ↔ ∃ entry ∈ entries, ∃ m, customMember item (rule.ruleId env) days entry = some m ∧
        m.Meets request ∧ o = m.occurrence env request item.id := by
  unfold expandCustom at h
  split at h
  · cases h
  · rename_i rule hrule
    split at h
    · rename_i hlast
      cases h
      refine ⟨rule, [], hrule, by rw [customEntries, hlast], fun o => ?_⟩
      exact iff_of_false List.not_mem_nil fun ⟨_, hent, _⟩ => nomatch hent
    · rename_i last hlast
      split at h
      · cases h
      · rename_i entries hents
        cases h
        refine ⟨rule, entries, hrule, by rw [customEntries, hlast]; exact hents, fun o => ?_⟩
        rw [List.mem_filterMap]
        exact exists_congr fun entry => and_congr_right fun _ => customOccurrence_eq_some

/-- The member belongs to the rule. -/
inductive SeriesMember (env : Externals) (request : PlanRequest) (item : WorkItem)
    (days : List ZonedDayBoundary) : Recurrence → Member → Prop
  | calendar {recurrence : Recurrence} {label : BucketLabel} {target : UInt16}
      {weekdays : Finset DayOfWeek} {m : Member}
      (hrule : calendarRule recurrence = some (label, target, weekdays))
      (hm : CalendarMember days request.recurrenceContext.calendar.weekStartsOn label target
        weekdays (minimumSpacing request item) m) : SeriesMember env request item days recurrence m
  | step {recurrence : Recurrence} {rule : RollingRule} {index : Int} {m : Member}
      (hrule : rollingRuleOf request item recurrence = some rule) (hnn : 0 ≤ index)
      (hm : rule.member (minimumSpacing request item) index = some m) :
      SeriesMember env request item days recurrence m
  | part {recurrence : Recurrence} {target : UInt16} {anchor : OffsetDateTime} {cycle : Int}
      {index : ℕ} {m : Member}
      (hrule : rollingMonthsOf request item recurrence = some (target, anchor))
      (hidx : 0 ≤ cycle ∧ index < target.toNat)
      (hm : monthMember request days anchor target (minimumSpacing request item) cycle index =
        some m) : SeriesMember env request item days recurrence m
  | afterCompletion {interval : Minutes} {m : Member}
      (hm : completionMember request item interval = some m) :
      SeriesMember env request item days (.afterCompletion interval) m
  | custom {rrule : String} {rule : CustomRecurrenceRule} {entries : List (UInt32 × Date)}
      {entry : UInt32 × Date} {m : Member} (hrule : parseCustomRrule rrule = .ok rule)
      (hents : customEntries request item days rule = .ok entries) (hent : entry ∈ entries)
      (hm : customMember item (rule.ruleId env) days entry = some m) :
      SeriesMember env request item days (.custom rrule) m

section

variable {env : Externals} {request : PlanRequest} {item : WorkItem} {recurrence : Recurrence}
  {days : List ZonedDayBoundary} {l : List Occurrence} {rule : RollingRule}

namespace SeriesMember

variable {m : Member} {target : UInt16} (h : SeriesMember env request item days recurrence m)

include h

lemma of_calendarRule {label : BucketLabel} {weekdays : Finset DayOfWeek}
    (hrule : calendarRule recurrence = some (label, target, weekdays)) :
    CalendarMember days request.recurrenceContext.calendar.weekStartsOn label target weekdays
      (minimumSpacing request item) m := by
  cases h with
  | calendar hrule' hm =>
    cases hrule.symm.trans hrule'
    exact hm
  | step hroll => cases (rolling_none_of_calendarRule request item hrule).1.symm.trans hroll
  | part hmonths => cases (rolling_none_of_calendarRule request item hrule).2.symm.trans hmonths
  | afterCompletion => cases hrule
  | custom => cases hrule

lemma of_rollingRuleOf (hrule : rollingRuleOf request item recurrence = some rule) :
    ∃ index, 0 ≤ index ∧ rule.member (minimumSpacing request item) index = some m := by
  cases h with
  | calendar hbkts => cases (rolling_none_of_calendarRule request item hbkts).1.symm.trans hrule
  | step hrule' hnn hm =>
    cases hrule.symm.trans hrule'
    exact ⟨_, hnn, hm⟩
  | part hmonths => cases (rollingMonthsOf_eq_none hrule).symm.trans hmonths
  | afterCompletion => cases hrule
  | custom => cases hrule

lemma of_rollingMonthsOf {anchor : OffsetDateTime}
    (hrule : rollingMonthsOf request item recurrence = some (target, anchor)) :
    ∃ cycle index, (0 ≤ cycle ∧ index < target.toNat) ∧
      monthMember request days anchor target (minimumSpacing request item) cycle index =
        some m := by
  cases h with
  | calendar hbkts => cases (rolling_none_of_calendarRule request item hbkts).2.symm.trans hrule
  | step hroll => cases (rollingMonthsOf_eq_none hroll).symm.trans hrule
  | part hrule' hidx hm =>
    cases hrule.symm.trans hrule'
    exact ⟨_, _, hidx, hm⟩
  | afterCompletion => cases hrule
  | custom => cases hrule

omit h

lemma of_afterCompletion {interval : Minutes}
    (h : SeriesMember env request item days (.afterCompletion interval) m) :
    completionMember request item interval = some m := by
  cases h with
  | calendar hrule | step hrule | part hrule => cases hrule
  | afterCompletion hm => exact hm

lemma of_custom {rrule : String} (h : SeriesMember env request item days (.custom rrule) m) :
    ∃ rule entry, parseCustomRrule rrule = .ok rule ∧
      customMember item (rule.ruleId env) days entry = some m := by
  cases h with
  | calendar hrule | step hrule | part hrule => cases hrule
  | custom hrule _ _ hm => exact ⟨_, _, hrule, hm⟩

end SeriesMember

/-- **Occurrences are occurrences of members**: whatever the rule, an occurrence of an
expansion comes from a member that is not empty and meets the horizon. -/
theorem exists_seriesMember (hcal : validateZonedCalendar request = .ok ())
    (hdays : resolvedDays request = .ok days) (hrule : validateRule item.id recurrence = .ok ())
    (h : expandSeries env request item recurrence days = .ok l) {o : Occurrence} (ho : o ∈ l) :
    ∃ m, SeriesMember env request item days recurrence m ∧
      m.nominal.start < m.nominal.finish ∧ m.nominal.start < request.horizonEnd ∧
      request.horizonStart < m.nominal.finish ∧ o = m.occurrence env request item.id := by
  cases ruleForm_of_validateRule request hrule with
  | rolling hroll =>
    obtain ⟨first, hfst, -, hmem⟩ := expandSeries_rolling hroll h
    obtain ⟨k, m, hk, hm, hst, rfl⟩ := (hmem _).mp ho
    have hnn : 0 ≤ k := hfst.nonneg.trans hk
    obtain ⟨start, natural, finish, hinst, hnat, hfin, rfl⟩ := RollingRule.member_eq_some.mp hm
    have hopen := (hfst.le_iff hnn hinst hnat).mp hk
    exact ⟨_, .step hroll hnn hm, RollingRule.start_lt_finish hnn hm, hst,
      hopen.trans_le (RollingRule.natural_le_finish hfin), rfl⟩
  | months =>
    have hloc := isLocalDay_of_mem_resolvedDays hcal hdays
    obtain ⟨cycle, span, index, m, hfst, hspan, -, hidx, hm, hst, hfin, rfl⟩ :=
      ((mem_expandRollingMonths hloc h).2 o).mp ho
    obtain ⟨-, -, -, hlt⟩ := monthMember_bounds hloc hidx hm
    exact ⟨m, .part rfl ⟨(le_max_right _ _).trans hfst, hidx⟩ hm, hlt, hst, hfin, rfl⟩
  | calendar _ hbkts =>
    obtain ⟨m, hm, hmt, rfl⟩ := (mem_calendarSeries hbkts (nodup_resolvedDays hcal hdays) h).mp ho
    obtain ⟨hlt, hst, hfin, -⟩ := Member.meets_iff.mp hmt
    exact ⟨m, .calendar hbkts hm, hlt, hst, hfin, rfl⟩
  | afterCompletion hint =>
    obtain ⟨m, hm, hst, hfin, rfl⟩ := (mem_expandAfterCompletion h).mp ho
    exact ⟨m, .afterCompletion hm, start_lt_finish_of_completionMember hint hm, hst, hfin, rfl⟩
  | custom rrule =>
    obtain ⟨rule, entries, hparse, hents, hmem⟩ := mem_expandCustom h
    obtain ⟨entry, hent, m, hm, hmt, rfl⟩ := (hmem o).mp ho
    obtain ⟨hlt, hst, hfin, -⟩ := Member.meets_iff.mp hmt
    exact ⟨m, .custom hparse hents hent hm, hlt, hst, hfin, rfl⟩

end

end DayWeave
