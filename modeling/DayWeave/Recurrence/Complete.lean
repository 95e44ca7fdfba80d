import DayWeave.Recurrence.Months

/-!
Whether the expansion of a rolling rule is complete.

A member whose nominal interval meets the horizon should be returned exactly once
(`ReturnsAllMembers`). The expansion looks for its first member by natural intervals, but the
minimum spacing makes nominal intervals longer. It is complete if and only if no member that is
naturally over when the horizon starts is kept open by the spacing (`returnsAllMembers_iff`).
-/

namespace DayWeave

open List Sample
open Except (require_eq_ok)

open OffsetDateTime (not_le_iff)

/-- The number of a member: an index, or a cycle and a part of it. -/
inductive RollingIndex where
  | step (index : Int)
  | part (cycle : Int) (index : ℕ)

section

variable (env : Externals) (request : PlanRequest) (item : WorkItem)
  (days : List ZonedDayBoundary) (recurrence : Recurrence)

/-- The rule that follows its anchor in steps of minutes, if it is one. -/
def rollingRuleOf : Option RollingRule :=
  match recurrence with
  | .everyInterval interval =>
    if h : interval ≠ 0 then
      some (intervalRule (effectiveRollingAnchor request item none) interval h)
    else none
  | .frequency target .day .rolling _ _ anchor =>
    if h : target ≠ 0 ∧ target.toNat ≤ 24 * 60 then
      some (frequencyRule (effectiveRollingAnchor request item anchor) target (24 * 60)
        "frequency-rolling-day" h)
    else none
  | .frequency target .week .rolling _ _ anchor =>
    if h : target ≠ 0 ∧ target.toNat ≤ 7 * 24 * 60 then
      some (frequencyRule (effectiveRollingAnchor request item anchor) target (7 * 24 * 60)
        "frequency-rolling-week" h)
    else none
  | _ => none

/-- The target and the anchor of a rolling monthly rule. -/
def rollingMonthsOf : Option (UInt16 × OffsetDateTime) :=
  match recurrence with
  | .frequency target .month .rolling _ _ anchor =>
    some (target, effectiveRollingAnchor request item anchor)
  | _ => none

/-- The member of a rolling rule with the given number. -/
def rollingMember : RollingIndex → Option Member
  | .step index =>
    if 0 ≤ index then
      (rollingRuleOf request item recurrence).bind fun rule =>
        rule.member (minimumSpacing request item) index
    else none
  | .part cycle index =>
    (rollingMonthsOf request item recurrence).bind fun (target, anchor) =>
      if 0 ≤ cycle ∧ index < target.toNat then
        monthMember request days anchor target (minimumSpacing request item) cycle index
      else none

/-- Whether the member with the given number is over when the horizon starts, apart from
the minimum spacing: its natural interval has ended, or its cycle of months has ended or
lies before the first one that is looked at. -/
def naturallyOver : RollingIndex → Bool
  | .step index =>
    (rollingRuleOf request item recurrence).any fun rule =>
      ((rule.instant index).bind fun start => rule.naturalEnd start (index + 1)).any
        fun natural => natural ≤ request.horizonStart
  | .part cycle _ =>
    (rollingMonthsOf request item recurrence).any fun (_, anchor) =>
      cycle < firstCycle request days anchor ∨
        (cycleSpan request days anchor cycle).any fun span => span.finish ≤ request.horizonStart

/-- Every member of a rolling rule that meets the horizon is returned exactly once. -/
def ReturnsAllMembers (l : List Occurrence) : Prop :=
  ∀ index m, rollingMember request item days recurrence index = some m → m.Meets request →
    l.filter (fun o => o.identity = m.identity) = [m.occurrence env request item.id]

/-- No member that is naturally over meets the horizon. -/
def OverMembersMiss : Prop :=
  ∀ index m, rollingMember request item days recurrence index = some m →
    naturallyOver request item days recurrence index = true → ¬ m.Meets request

end

section

variable {env : Externals} {request : PlanRequest} {item : WorkItem} {recurrence : Recurrence}
  {days : List ZonedDayBoundary} {l : List Occurrence} {rule : RollingRule}

lemma expandSeries_rolling (hrule : rollingRuleOf request item recurrence = some rule)
    (h : expandSeries env request item recurrence days = .ok l) :
    ∃ index, FirstIndex rule request index ∧ (l.map (·.identity)).Nodup ∧
      ∀ o, o ∈ l ↔ ∃ k m, index ≤ k ∧ rule.member (minimumSpacing request item) k = some m ∧
        m.nominal.start < request.horizonEnd ∧ o = m.occurrence env request item.id := by
  have hspec : ∃ index final, FirstIndex rule request index ∧ final.2 = l ∧
      Loop.runE (rollingStep env request item rule.anchor (minimumSpacing request item) rule.keyStem
        rule.instant rule.naturalEnd) (maxIndex.toNat + 1) (index, []) = .ok final := by
    unfold rollingRuleOf at hrule
    split at hrule <;> try cases hrule
    all_goals split at hrule <;> cases hrule
    · exact expandRollingMinutes_spec ‹_› h
    all_goals exact expandRollingFrequency_spec ‹_› h
  obtain ⟨index, final, hfst, rfl, hrun⟩ := hspec
  obtain ⟨hexp, hmem⟩ := RollingRule.mem_expand hfst.nonneg hrun
  exact ⟨index, hfst, hexp.nodup, hmem⟩

/-- The members before the first index are those that are naturally over. -/
lemma FirstIndex.le_iff {index k : Int} (hfst : FirstIndex rule request index)
    (hk : 0 ≤ k) {start natural : OffsetDateTime} (hst : rule.instant k = some start)
    (hnat : rule.naturalEnd start (k + 1) = some natural) :
    index ≤ k ↔ request.horizonStart < natural := by
  obtain ⟨next, hnext, hlt⟩ := hfst.next
  constructor
  · intro hle
    refine hlt.trans_le ?_
    rcases Int.lt_or_eq_of_le hle with hgt | heq
    · have hbetween : next ≤ start := by
        rcases Int.lt_or_eq_of_le hgt with hgt' | heq'
        · exact (rule.instant_lt (by have := hfst.nonneg; omega) hgt' hnext hst).le
        · rw [heq'] at hnext
          cases hnext.symm.trans hst
          exact le_refl _
      exact hbetween.trans (rule.lt_natural hk hst hnat).le
    · rw [heq] at hnext
      exact rule.le_natural hk hst hnat hnext
  · intro hopen
    by_contra hgt
    rcases hfst.reached with hzero | ⟨reached, hrch, hle⟩
    · omega
    · have := rule.natural_le hk (Int.not_le.mp hgt) hst hnat hrch
      exact absurd (this.trans hle) (not_le_of_gt hopen)

/-- A rule follows its anchor in steps of minutes or in cycles of months. -/
lemma rollingMonthsOf_eq_none (h : rollingRuleOf request item recurrence = some rule) :
    rollingMonthsOf request item recurrence = none := by
  unfold rollingRuleOf at h
  split at h <;> first | rfl | cases h

/-- Completeness, if the members that are returned are those that are not naturally over. -/
lemma returnsAllMembers_of_mem (hnd : (l.map (·.identity)).Nodup)
    (hmem : ∀ index m, rollingMember request item days recurrence index = some m →
      m.Meets request → (m.occurrence env request item.id ∈ l ↔
        ¬ naturallyOver request item days recurrence index = true)) :
    ReturnsAllMembers env request item days recurrence l ↔
      OverMembersMiss request item days recurrence := by
  constructor
  · intro hcompl index m hm hover hmt
    have hin := mem_singleton_self (m.occurrence env request item.id)
    rw [← hcompl index m hm hmt] at hin
    exact (hmem index m hm hmt).mp (mem_filter.mp hin).1 hover
  · intro hover index m hm hmt
    exact filter_key_eq hnd ((hmem index m hm hmt).mpr fun h => hover index m hm h hmt)

lemma returnsAllMembers_rolling (hrule : rollingRuleOf request item recurrence = some rule)
    (h : expandSeries env request item recurrence days = .ok l) :
    ReturnsAllMembers env request item days recurrence l ↔
      OverMembersMiss request item days recurrence := by
  obtain ⟨first, hfst, hnd, hmem⟩ := expandSeries_rolling hrule h
  refine returnsAllMembers_of_mem hnd fun index m hm hmt => ?_
  cases index with
  | part cycle index => simp [rollingMember, rollingMonthsOf_eq_none hrule] at hm
  | step index =>
    simp only [rollingMember, hrule, Option.bind_some, Option.ite_none_right_eq_some] at hm
    obtain ⟨start, natural, finish, hst, hnat, -, -⟩ := RollingRule.member_eq_some.mp hm.2
    simp only [naturallyOver, hrule, Option.any_some, hst, hnat, Option.bind_some,
      decide_eq_true_eq, not_le_iff, ← hfst.le_iff hm.1 hst hnat, hmem]
    constructor
    · rintro ⟨k, m', hk, hm', -, heq⟩
      have hident : m.identity = m'.identity := congrArg (·.identity) heq
      rw [RollingRule.identity_of_member hm.2, RollingRule.identity_of_member hm'] at hident
      obtain ⟨rfl, -⟩ := RecurrenceOccurrenceIdentity.rollingMinutes.inj hident
      exact hk
    · intro hle
      exact ⟨index, m, hle, hm.2, (Member.meets_iff.mp hmt).2.1, rfl⟩

lemma returnsAllMembers_months {target : UInt16} {anchor : OffsetDateTime}
    (hdays : ∀ day ∈ days, IsLocalDay day) (hrule : rollingRuleOf request item recurrence = none)
    (hmonths : rollingMonthsOf request item recurrence = some (target, anchor))
    (h : expandRollingMonths env request item anchor target (minimumSpacing request item) days =
      .ok l) : ReturnsAllMembers env request item days recurrence l ↔
      OverMembersMiss request item days recurrence := by
  obtain ⟨hnd, hmem⟩ := mem_expandRollingMonths hdays h
  refine returnsAllMembers_of_mem hnd fun index m hm hmt => ?_
  cases index with
  | step index => simp [rollingMember, hrule] at hm
  | part cycle index =>
    simp only [rollingMember, hmonths, Option.bind_some, Option.ite_none_right_eq_some] at hm
    obtain ⟨span, -, hspan, -, -⟩ := monthMember_eq_some.mp hm.2
    simp only [naturallyOver, hmonths, Option.any_some, hspan, decide_eq_true_eq, not_or, not_lt,
      not_le_iff, hmem]
    constructor
    · rintro ⟨cycle', span', index', m', hfst, hspan', hopen, -, hm', -, -, heq⟩
      have hident : m.identity = m'.identity := congrArg (·.identity) heq
      rw [identity_of_monthMember hm.2, identity_of_monthMember hm'] at hident
      obtain ⟨rfl, -, -⟩ := RecurrenceOccurrenceIdentity.rollingMonth.inj hident
      cases hspan.symm.trans hspan'
      exact ⟨hfst, hopen⟩
    · rintro ⟨hrch, hopen⟩
      obtain ⟨-, hst, hfin, -⟩ := Member.meets_iff.mp hmt
      exact ⟨cycle, span, index, m, hrch, hspan, hopen, hm.1.2, hm.2, hst, hfin, rfl⟩

/-- The forms of rules that differ in how their members are found. -/
inductive RuleForm (request : PlanRequest) (item : WorkItem) : Recurrence → Prop
  | rolling {recurrence : Recurrence} {rule : RollingRule}
      (hrule : rollingRuleOf request item recurrence = some rule) : RuleForm request item recurrence
  | months {target : UInt16} (htgt : target ≠ 0) (weekdays : Finset DayOfWeek)
      (minimum : Minutes) (anchor : Option OffsetDateTime) :
      RuleForm request item (.frequency target .month .rolling weekdays minimum anchor)
  | calendar {recurrence : Recurrence} {label : BucketLabel} {target : UInt16}
      {weekdays : Finset DayOfWeek} (htgt : target ≠ 0)
      (hrule : calendarRule recurrence = some (label, target, weekdays)) :
      RuleForm request item recurrence
  | afterCompletion {interval : Minutes} (hint : interval ≠ 0) :
      RuleForm request item (.afterCompletion interval)
  | custom (rrule : String) : RuleForm request item (.custom rrule)

lemma ruleForm_of_validateRule (request : PlanRequest)
    (hrule : validateRule item.id recurrence = .ok ()) : RuleForm request item recurrence := by
  cases recurrence with
  | daily times => exact .calendar (require_eq_ok.mp hrule) rfl
  | weekly times weekdays => exact .calendar (require_eq_ok.mp hrule) rfl
  | monthly times => exact .calendar (require_eq_ok.mp hrule) rfl
  | everyInterval interval =>
    have h := require_eq_ok.mp hrule
    exact .rolling (dif_pos h)
  | afterCompletion interval => exact .afterCompletion (require_eq_ok.mp hrule)
  | frequency target period semantics weekdays minimum anchor =>
    by_cases htgt : target = 0
    · simp [validateRule, htgt] at hrule
    · simp only [validateRule, if_neg htgt] at hrule
      cases semantics with
      | rolling =>
        cases period with
        | day => exact .rolling (dif_pos ⟨htgt, require_eq_ok.mp hrule⟩)
        | week => exact .rolling (dif_pos ⟨htgt, require_eq_ok.mp hrule⟩)
        | month => exact .months htgt weekdays minimum anchor
      | calendar => cases period <;> exact .calendar htgt rfl
  | custom rrule => exact .custom rrule

lemma rolling_none_of_calendarRule {buckets : BucketLabel × UInt16 × Finset DayOfWeek}
    (request : PlanRequest) (item : WorkItem) (h : calendarRule recurrence = some buckets) :
    rollingRuleOf request item recurrence = none ∧
      rollingMonthsOf request item recurrence = none := by
  unfold calendarRule at h
  split at h <;> first | exact ⟨rfl, rfl⟩ | cases h

lemma returnsAllMembers_of_none (hrule : rollingRuleOf request item recurrence = none)
    (hmonths : rollingMonthsOf request item recurrence = none) :
    ReturnsAllMembers env request item days recurrence l ↔
      OverMembersMiss request item days recurrence := by
  have hnone : ∀ index, rollingMember request item days recurrence index = none := by
    intro index
    cases index <;> simp [rollingMember, hrule, hmonths]
  constructor <;> intro _ index m hm <;> rw [hnone index] at hm <;> cases hm

/-- **Completeness**: the expansion of a valid rule returns every member of a rolling rule
that meets the horizon exactly once, if and only if no member that is naturally over when
the horizon starts still meets it. -/
theorem returnsAllMembers_iff (hcal : validateZonedCalendar request = .ok ())
    (hdays : resolvedDays request = .ok days) (hrule : validateRule item.id recurrence = .ok ())
    (h : expandSeries env request item recurrence days = .ok l) :
    ReturnsAllMembers env request item days recurrence l ↔
      ∀ index m, rollingMember request item days recurrence index = some m →
        naturallyOver request item days recurrence index = true → ¬ m.Meets request := by
  cases ruleForm_of_validateRule request hrule with
  | rolling hroll => exact returnsAllMembers_rolling hroll h
  | months =>
    exact returnsAllMembers_months (isLocalDay_of_mem_resolvedDays hcal hdays) rfl rfl h
  | calendar _ hbkts =>
    obtain ⟨hroll, hmonths⟩ := rolling_none_of_calendarRule request item hbkts
    exact returnsAllMembers_of_none hroll hmonths
  | afterCompletion => exact returnsAllMembers_of_none rfl rfl
  | custom => exact returnsAllMembers_of_none rfl rfl

end

namespace Sample

/-- A habit of ten minutes with a recurrence. -/
def habit (recurrence : Recurrence) (spacing : Minutes) : WorkItem :=
  { task 1 10 with kind := .habit ⟨recurrence, spacing⟩ }

def hourly (spacing : Minutes) : WorkItem := habit (.everyInterval 60) spacing

/-- A request with a habit of every two hours. -/
def everyTwoHours : PlanRequest := request [habit (.everyInterval 120) 0]

/-- A request for the minutes from 100 to 200. -/
def laterRequest (items : List WorkItem) : PlanRequest :=
  { request items with horizonStart := .atSecond 6000, horizonEnd := .atSecond 12000 }

end Sample

/-- An hourly habit without spacing. -/
theorem returnsAllMembers_iff_hourly :
    ∃ l, expandSeries externals (laterRequest [hourly 0]) (hourly 0)
        (.everyInterval 60) [epochDay] = .ok l ∧ l ≠ [] ∧
      (ReturnsAllMembers externals (laterRequest [hourly 0]) (hourly 0)
          [epochDay] (.everyInterval 60) l ↔
        ∀ index m, rollingMember (laterRequest [hourly 0]) (hourly 0)
            [epochDay] (.everyInterval 60) index = some m →
          naturallyOver (laterRequest [hourly 0]) (hourly 0)
            [epochDay] (.everyInterval 60) index = true → ¬ m.Meets (laterRequest [hourly 0])) := by
  obtain ⟨l, hl, hsome⟩ : ∃ l, expandSeries externals (laterRequest [hourly 0]) (hourly 0)
      (.everyInterval 60) [epochDay] = .ok l ∧ l ≠ [] := by decide +kernel
  exact ⟨l, hl, hsome, returnsAllMembers_iff (by decide +kernel) (by decide +kernel) (by decide) hl⟩

/-- An hourly habit with three hours of spacing: its first occurrence lasts until minute 180,
and a horizon from minute 100 on does not show it. -/
theorem not_returnsAllMembers_spaced : validateZonedCalendar (laterRequest [hourly 180]) = .ok () ∧
    resolvedDays (laterRequest [hourly 180]) = .ok [epochDay] ∧
    validateRule (hourly 180).id (.everyInterval 60) = .ok () ∧
    ∃ l, expandSeries externals (laterRequest [hourly 180]) (hourly 180)
        (.everyInterval 60) [epochDay] = .ok l ∧
      ¬ ReturnsAllMembers externals (laterRequest [hourly 180])
          (hourly 180) [epochDay] (.everyInterval 60) l := by
  obtain ⟨l, hl, m, hm, hmt, hnone⟩ : ∃ l, expandSeries externals (laterRequest [hourly 180])
      (hourly 180) (.everyInterval 60) [epochDay] = .ok l ∧
      ∃ m ∈ rollingMember (laterRequest [hourly 180]) (hourly 180) [epochDay] (.everyInterval 60)
        (.step 0), m.Meets (laterRequest [hourly 180]) ∧
          l.filter (fun o => o.identity = m.identity) = [] := by decide +kernel
  refine ⟨by decide +kernel, by decide +kernel, by decide, l, hl, fun hall => ?_⟩
  have hone := hall (.step 0) m hm hmt
  rw [hnone] at hone
  cases hone

end DayWeave
