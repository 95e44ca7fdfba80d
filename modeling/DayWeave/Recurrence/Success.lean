import DayWeave.Recurrence.Stability

/-!
Expansions that succeed.

An expansion fails if a date or an instant that it computes is out of range. In a horizon
of one nanosecond that starts at an instant of a member, away from the first and the last
representable day, all of them are in range: the days of the horizon
(`exists_resolvedDays`), calendar buckets (`exists_calendarGroups`), steps of minutes
(`exists_expandRollingMinutes`, `exists_expandRollingFrequency`) and cycles of months
(`exists_expandRollingMonths`).
-/

namespace DayWeave

open Date (month monthIndex)
open Duration (day minute minutes second wholeMinutes wholeSeconds_mem)
open Except (exists_bind_eq_ok exists_mapM_eq_ok)

open OffsetDateTime (checkedAdd le_def lt_def nanos_of_checkedAdd since)

variable {env : Externals} {request : PlanRequest} {item : WorkItem} {anchor : OffsetDateTime}
  {target : UInt16} {spacing : Minutes} {days : List ZonedDayBoundary} {natural : OffsetDateTime}
  {i : Int}

/-! ### Instants away from the limits -/

/-- At least five hundred days from the first and the last representable day. -/
def OffsetDateTime.AwayFromLimits (t : OffsetDateTime) : Prop :=
  -4371087 * day ≤ t.nanos ∧ t.nanos ≤ 2932397 * day

instance (t : OffsetDateTime) : Decidable t.AwayFromLimits := inferInstanceAs (Decidable (_ ∧ _))

/-- An instant two days from the limits is representable at every offset. -/
lemma exists_checkedAdd {t : OffsetDateTime} {d : Int}
    (hlow : -4371585 * day ≤ t.nanos + d) (hhigh : t.nanos + d ≤ 2932895 * day) :
    ∃ u, t.checkedAdd d = some u ∧ u.nanos = t.nanos + d := by
  have hge := t.offset_ge
  have hle := t.offset_le
  have hrng : -4371587 * day ≤ t.nanos + d + t.offset * second ∧
      t.nanos + d + t.offset * second < 2932897 * day := by
    simp only [day, second] at *
    omega
  exact ⟨⟨t.nanos + d, t.offset, hge, hle, hrng.1, hrng.2⟩, dif_pos ⟨⟨hge, hle⟩, hrng⟩, rfl⟩

/-- The local date of an instant is near its date at Greenwich. -/
lemma date_bounds (t : OffsetDateTime) :
    (t.date.day - 2) * day ≤ t.nanos ∧ t.nanos ≤ (t.date.day + 3) * day := by
  have hge := t.offset_ge
  have hle := t.offset_le
  have hdate := t.date_day
  simp only [day, second] at hdate ⊢
  omega

lemma exists_nextDay {date : Date} (h : date.day < 2932896) :
    ∃ next, date.nextDay = some next ∧ next.day = date.day + 1 := by
  have hmin := date.min_le
  exact ⟨⟨date.day + 1, by omega, by omega⟩, dif_pos ⟨by omega, by omega⟩, rfl⟩

/-! ### The days of a horizon -/

lemma exists_resolvedDays (hle : request.horizonStart ≤ request.horizonEnd)
    (hend : request.horizonEnd.nanos ≤ 2932500 * day) :
    ∃ days, resolvedDays request = .ok days := by
  have hstep : ∀ s s', resolvedDaysStep request s = .ok (some s') → s.1.day ≤ 2932510 →
      s'.1.day ≤ 2932510 := by
    intro s s' hs _
    obtain ⟨next, hnext, hbef, heq, -⟩ := resolvedDaysStep_eq_some hs
    have hnextDay := Date.nextDay_eq_some hnext
    rw [lt_def, nanos_midnight] at hbef
    have hle := request.horizonStart.offset_le
    rw [heq]
    simp only [day, second] at hbef hend
    omega
  have hok : ∀ s : Date × List ZonedDayBoundary, s.1.day ≤ 2932510 →
      ∃ r, resolvedDaysStep request s = .ok r := by
    intro s hs
    obtain ⟨next, hnext, -⟩ := exists_nextDay (show s.1.day < 2932896 by omega)
    unfold resolvedDaysStep
    rw [hnext]
    dsimp only
    split_ifs <;> exact ⟨_, rfl⟩
  have hfst : request.horizonStart.date.day ≤ 2932510 := by
    have hbds := date_bounds request.horizonStart
    rw [le_def] at hle
    simp only [day] at hbds hend
    omega
  unfold resolvedDays
  dsimp only
  split
  · obtain ⟨final, hfnl⟩ := Loop.runE_ok _ hstep hok dateCount
      (s := (request.horizonStart.date, [])) hfst
    exact ⟨final.2, by rw [hfnl]; rfl⟩
  · exact ⟨_, rfl⟩

/-! ### Calendar buckets -/

section

variable {label : BucketLabel} {weekdays : Finset DayOfWeek}

/-- The week of a date away from the limits is complete. -/
lemma exists_weekDates {date : Date} (hlow : -4371580 ≤ date.day) (hhigh : date.day ≤ 2932890)
    (startsOn : DayOfWeek) :
    ∃ dates, (BucketKey.week (date.weekKey startsOn)).dates = some dates := by
  have hkey := date.weekKey_eq startsOn
  have hst : Date.ofJulianDay (date.weekKey startsOn) = some
      ⟨date.weekKey startsOn - 2440588, by omega, by omega⟩ := dif_pos ⟨by omega, by omega⟩
  obtain ⟨dates, hdts⟩ := Option.exists_mapM_eq_some (l := List.range 7)
    (f := fun offset : ℕ => Date.checkedAddDays
      ⟨date.weekKey startsOn - 2440588, by omega, by omega⟩
      offset) fun offset hoff => by
        have hoff := List.mem_range.mp hoff
        exact ⟨⟨date.weekKey startsOn - 2440588 + offset, by omega, by omega⟩,
          dif_pos ⟨by dsimp only; omega, by dsimp only; omega⟩⟩
  exact ⟨dates, by rw [BucketKey.dates, hst, Option.bind_some, hdts]⟩

lemma exists_monthDates (date : Date) :
    ∃ dates, (BucketKey.month date.year date.month).dates = some dates := by
  obtain ⟨hmon, -, -⟩ := date.month0_bounds
  refine Option.exists_mapM_eq_some fun day hday => ?_
  have hday := List.mem_range.mp hday
  exact Date.exists_ofCalendar date.year_range ⟨by unfold month; omega,
    by unfold month; omega⟩ ⟨by omega, by omega⟩

lemma exists_calendarGroups
    (hdays : ∀ day ∈ days, -4371580 ≤ day.localDate.day ∧ day.localDate.day ≤ 2932890) :
    ∃ groups, calendarGroups request days label weekdays = .ok groups := by
  cases label with
  | daily | frequencyCalendarDay => exact ⟨_, rfl⟩
  | weekly | frequencyCalendarWeek =>
    refine exists_mapM_eq_ok fun key hkey => ?_
    obtain ⟨d, hd, rfl⟩ := List.mem_map.mp ((mem_sortBy _).mp (mem_dedupBy_beq.mp hkey))
    obtain ⟨dates, hdts⟩ := exists_weekDates (hdays d hd).1 (hdays d hd).2
      request.recurrenceContext.calendar.weekStartsOn
    simp only [BucketKey.dates] at hdts
    rw [hdts]
    exact ⟨_, rfl⟩
  | monthly | frequencyCalendarMonth =>
    refine exists_mapM_eq_ok fun key hkey => ?_
    obtain ⟨d, hd, rfl⟩ := List.mem_map.mp ((mem_sortBy _).mp (mem_dedupBy_beq.mp hkey))
    obtain ⟨dates, hdts⟩ := exists_monthDates d.localDate
    simp only [BucketKey.dates] at hdts
    dsimp only
    rw [hdts]
    exact ⟨_, rfl⟩

end

/-! ### Steps of minutes -/

/-- The horizon is the nanosecond that starts at an instant. -/
structure AtInstant (request : PlanRequest) (t : OffsetDateTime) : Prop where
  start_eq : request.horizonStart.nanos = t.nanos
  end_eq : request.horizonEnd.nanos = t.nanos + 1

section

variable {rule : RollingRule} {index : Int} {start finish : OffsetDateTime}

/-- The search for the first index finds the index that starts with the horizon. -/
lemma runE_advanceStep (hat : AtInstant request start) {lower : Int} (hlow' : 0 ≤ lower)
    (hle : lower ≤ index) (hidx : index < maxIndex) (hst : rule.instant index = some start)
    (hinst : ∀ i, 0 ≤ i → i ≤ index + 1 → ∃ t, rule.instant i = some t) :
    Loop.runE (advanceStep request rule.instant) (maxIndex.toNat + 1) lower = .ok index := by
  have hstep : ∀ i i', advanceStep request rule.instant i = .ok (some i') → 0 ≤ i ∧ i ≤ index →
      0 ≤ i' ∧ i' ≤ index := by
    rintro i i' hi ⟨hnn, hbef⟩
    obtain ⟨-, rfl, next, hnext, hrch⟩ := advanceStep_eq_some hi
    refine ⟨by omega, ?_⟩
    by_contra haft
    have hlt := rule.instant_lt (by omega) (by omega) hst hnext
    rw [lt_def] at hlt
    rw [le_def, hat.start_eq] at hrch
    omega
  have hok : ∀ i, 0 ≤ i ∧ i ≤ index → ∃ r, advanceStep request rule.instant i = .ok r := by
    rintro i ⟨hnn, hbef⟩
    obtain ⟨t, ht⟩ := hinst (i + 1) (by omega) (by omega)
    have hnext : nextIndex i = .ok (i + 1) := if_pos (by omega)
    refine exists_bind_eq_ok hnext (exists_bind_eq_ok (inRange_eq_ok.mpr ht) ?_)
    split_ifs <;> exact ⟨_, rfl⟩
  obtain ⟨r, hr⟩ := Loop.runE_ok _ hstep hok (maxIndex.toNat + 1) ⟨hlow', hle⟩
  obtain ⟨hnn, hbef⟩ := Loop.runE_invariant _ hstep hr ⟨hlow', hle⟩
  have hstop := Loop.runE_stops _ (μ := fun i => (maxIndex - i).toNat) (fun i i' hi => by
    obtain ⟨hlt, rfl, -⟩ := advanceStep_eq_some hi
    omega) (by simp only [maxIndex]; omega) hr
  obtain ⟨next, hnext, hlt⟩ := advanceStep_eq_none hstop
  -- the loop stops where the next index starts after the horizon does
  have hrch : r = index := by
    by_contra hne
    rw [lt_def, hat.start_eq] at hlt
    rcases Int.lt_or_eq_of_le (show r + 1 ≤ index by omega) with hbetween | heq
    · have := rule.instant_lt (by omega) hbetween hnext hst
      rw [lt_def] at this
      omega
    · rw [heq, hst] at hnext
      cases hnext
      omega
  rw [hr, hrch]

/-- The expansion from the index that starts with the horizon ends with the next one. -/
lemma exists_runE_rollingStep (hat : AtInstant request start) (hnn : 0 ≤ index)
    (hidx : index ≤ 4294967295) (hst : rule.instant index = some start)
    (hnat : rule.naturalEnd start (index + 1) = some natural)
    (hfin : occurrenceEndWithSpacing start natural spacing = some finish)
    {next : OffsetDateTime} (hnext : rule.instant (index + 1) = some next) :
    ∃ final, Loop.runE (rollingStep env request item rule.anchor spacing rule.keyStem rule.instant
      rule.naturalEnd) (maxIndex.toNat + 1) (index, []) = .ok final := by
  have haft : request.horizonEnd ≤ next := by
    have := rule.instant_lt hnn (Int.lt_succ index) hst hnext
    rw [lt_def] at this
    rw [le_def, hat.end_eq]
    omega
  refine Loop.runE_ok _ (P := fun s => s.1 = index ∨ s.1 = index + 1) ?_ ?_ _ (.inl rfl)
  · rintro s s' hs (hi | hi)
    · obtain ⟨-, m, -, -, rfl⟩ := RollingRule.rollingStep_eq_some hs
      exact .inr (by rw [← hi])
    · obtain ⟨-, m, hm, hbef, hs'⟩ := RollingRule.rollingStep_eq_some hs
      obtain ⟨t, _, _, ht, -, -, rfl⟩ := RollingRule.member_eq_some.mp hm
      rw [hi, hnext] at ht
      cases ht
      exact absurd haft (not_le_of_gt hbef)
  · rintro s (hi | hi)
    · have hopen : ¬ request.horizonEnd ≤ start := by
        rw [le_def, hat.end_eq]
        omega
      have hsucc : nextIndex index = .ok (index + 1) := if_pos (by simp only [maxIndex]; omega)
      refine exists_bind_eq_ok (inRange_eq_ok.mpr (hi ▸ hst)) ?_
      rw [if_neg hopen, if_neg (by omega), hi]
      exact exists_bind_eq_ok hsucc (exists_bind_eq_ok (inRange_eq_ok.mpr hnat)
        (exists_bind_eq_ok (inRange_eq_ok.mpr hfin) ⟨_, rfl⟩))
    · refine exists_bind_eq_ok (inRange_eq_ok.mpr (hi ▸ hnext)) ⟨none, ?_⟩
      rw [if_pos haft]

end

section

variable {interval : Minutes} {index : Int} {start finish : OffsetDateTime}

/-- Earlier indices of an interval rule are representable. -/
lemma rollingInstant_of_le (hi : 0 ≤ i) (hle : i ≤ index)
    (h : rollingInstant anchor interval.toDuration index = some start) :
    ∃ t, rollingInstant anchor interval.toDuration i = some t := by
  induction hk : (index - i).toNat generalizing i with
  | zero =>
    obtain rfl : i = index := by omega
    exact ⟨start, h⟩
  | succ k ih =>
    obtain ⟨next, hnext⟩ := @ih (i + 1) (by omega) (by omega) (by omega)
    obtain ⟨t, ht, -⟩ := exists_rollingInstant hi hnext
    exact ⟨t, ht⟩

variable (hidx : 0 ≤ index) (hlt : index < 2147483647)
  (hst : rollingInstant anchor interval.toDuration index = some start)
  (hnat : start.checkedAdd interval.toDuration = some natural)

include hidx hlt hst hnat

/-- The instant after that of an index is the natural end of the index. -/
lemma rollingInstant_succ :
    rollingInstant anchor interval.toDuration (index + 1) = some natural := by
  obtain ⟨hrng, -, hadd⟩ := rollingInstant_eq_some.mp hst
  obtain ⟨hns, hoff⟩ := OffsetDateTime.ofNanos_eq_some hadd
  have hprod : interval.toDuration * (index + 1) =
      interval.toDuration * index + interval.toDuration := by
    rw [Int.mul_add, Int.mul_one]
  have hnext : anchor.checkedAdd (interval.toDuration * (index + 1)) = some natural := by
    rw [← hnat, checkedAdd, checkedAdd, hns, hoff, hprod, Int.add_assoc]
  refine rollingInstant_eq_some.mpr ⟨by omega, ?_, hnext⟩
  -- two representable instants are not that far apart
  have hnn : (0 : Int) ≤ interval.toDuration * (index + 1) :=
    Int.mul_nonneg (Minutes.toDuration_nonneg interval) (by omega)
  have hle : interval.toDuration * (index + 1) ≤ 9223372036854775807 * second := by
    rw [eq_sub_of_add_eq' (nanos_of_checkedAdd hnext).symm]
    have hlow := date_bounds anchor
    have hhigh := date_bounds natural
    have hmin := anchor.date.min_le
    have hmax := natural.date.le_max
    show natural.nanos - anchor.nanos ≤ (9223372036854775807 * 1000000000 : Int)
    simp only [day] at hlow hhigh
    omega
  exact wholeSeconds_mem hnn hle (by decide)

lemma exists_expandRollingMinutes (h : interval ≠ 0) (hat : AtInstant request start)
    (hfin : occurrenceEndWithSpacing start natural spacing = some finish) :
    ∃ l, expandRollingMinutes env request item anchor interval spacing = .ok l := by
  have hnext := rollingInstant_succ hidx hlt hst hnat
  have hlow' : max (wholeMinutes (request.horizonStart.since anchor) /
      (interval.toNat : Int)) 0 ≤ index := by
    have hpos : (0 : Int) < interval.toNat := by
      have := Minutes.toNat_pos h
      omega
    have hns := nanos_of_rollingInstant hst
    have hsince : request.horizonStart.since anchor = index * interval.toNat * minute := by
      rw [since, hat.start_eq, hns, Minutes.toDuration_eq, add_sub_cancel_left,
        Int.mul_right_comm, Int.mul_comm _ index]
    rw [hsince, wholeMinutes, Int.mul_tdiv_cancel _ (by decide), Int.mul_ediv_cancel _ hpos.ne']
    exact max_le le_rfl hidx
  have hadvance := @runE_advanceStep _ (intervalRule anchor interval h) _ _ hat _
    (le_max_right _ 0) hlow' (by simp only [maxIndex]; omega) hst
    fun i hi hle => rollingInstant_of_le hi hle hnext
  obtain ⟨final, hfnl⟩ := @exists_runE_rollingStep env _ item _ _
    (intervalRule anchor interval h) _ _ _ hat hidx (by omega) hst hnat hfin _ hnext
  unfold expandRollingMinutes
  rw [if_neg h]
  exact exists_bind_eq_ok hadvance (exists_bind_eq_ok hfnl ⟨_, rfl⟩)

end

section

variable {period : ℕ} {label : String} {index : Int} {start finish : OffsetDateTime}

/-- Earlier indices of a rolling frequency are representable. -/
lemma rollingFrequencyInstant_of_le (hi : 0 ≤ i) (hle : i ≤ index)
    (h : rollingFrequencyInstant anchor target period index = some start) :
    ∃ t, rollingFrequencyInstant anchor target period i = some t := by
  obtain ⟨-, htgt, hmax, hadd⟩ := rollingFrequencyInstant_eq_some.mp h
  have hoff : i * period / target.toNat ≤ index * period / target.toNat :=
    Int.ediv_le_ediv (toNat_pos_of_ne_zero htgt)
      (Int.mul_le_mul_of_nonneg_right hle (Int.natCast_nonneg _))
  have hnn : 0 ≤ i * period / target.toNat :=
    Int.ediv_nonneg (Int.mul_nonneg hi (Int.natCast_nonneg _)) (Int.natCast_nonneg _)
  obtain ⟨t, ht, -⟩ := @OffsetDateTime.exists_checkedAdd_of_checkedAdd anchor start _
    (minutes (i * period / target.toNat)) hadd
    (by simp only [minutes, minute]; omega)
    (by simp only [minutes, minute]; omega)
  exact ⟨t, rollingFrequencyInstant_eq_some.mpr ⟨hi, htgt, hoff.trans hmax, ht⟩⟩

lemma exists_expandRollingFrequency (h : target ≠ 0 ∧ target.toNat ≤ period)
    (hat : AtInstant request start) (hidx : 0 ≤ index) (hlt : index ≤ 4294967295)
    (hst : rollingFrequencyInstant anchor target period index = some start)
    (hnat : rollingFrequencyInstant anchor target period (index + 1) = some natural)
    (hfin : occurrenceEndWithSpacing start natural spacing = some finish) :
    ∃ l, expandRollingFrequency env request item anchor target period spacing label = .ok l := by
  obtain ⟨-, -, -, hadd⟩ := rollingFrequencyInstant_eq_some.mp hst
  have htgt := toNat_pos_of_ne_zero h.1
  have hperiod : (0 : Int) < period := by omega
  -- the search starts from an estimate that is not too late
  have hest : max (wholeMinutes (request.horizonStart.since anchor)) 0 *
      (target.toNat : Int) / (period : Int) ≤ index := by
    have hoff := Int.ediv_nonneg (Int.mul_nonneg hidx hperiod.le) htgt.le
    have hsince : request.horizonStart.since anchor = index * period / target.toNat * minute := by
      rw [since, hat.start_eq, nanos_of_checkedAdd hadd, add_sub_cancel_left, minutes]
    rw [hsince, wholeMinutes, Int.mul_tdiv_cancel _ (by decide), max_eq_left hoff]
    refine Int.ediv_le_of_le_mul hperiod ?_
    exact Int.ediv_mul_le _ htgt.ne'
  generalize hfst : max (wholeMinutes (request.horizonStart.since anchor)) 0 *
    (target.toNat : Int) / (period : Int) = estimate at hest
  have hnn : 0 ≤ estimate := by
    rw [← hfst]
    exact Int.ediv_nonneg (Int.mul_nonneg (le_max_right _ _) htgt.le) hperiod.le
  have hinst : ∀ i, 0 ≤ i → i ≤ index + 1 →
      ∃ t, rollingFrequencyInstant anchor target period i = some t :=
    fun i hi hle => rollingFrequencyInstant_of_le hi hle hnat
  have hstep : ∀ i i', retreatStep request (rollingFrequencyInstant anchor target period) i =
      .ok (some i') → 0 ≤ i ∧ i ≤ index → 0 ≤ i' ∧ i' ≤ index := by
    rintro i i' hi ⟨-, hle⟩
    obtain ⟨hpos, rfl⟩ := retreatStep_eq_some hi
    omega
  have hok : ∀ i, 0 ≤ i ∧ i ≤ index →
      ∃ r, retreatStep request (rollingFrequencyInstant anchor target period) i = .ok r := by
    rintro i ⟨hi, hle⟩
    obtain ⟨t, ht⟩ := hinst i hi (by omega)
    unfold retreatStep
    split
    · refine exists_bind_eq_ok (inRange_eq_ok.mpr ht) ?_
      split <;> exact ⟨_, rfl⟩
    · exact ⟨_, rfl⟩
  obtain ⟨lower, hlow'⟩ := Loop.runE_ok _ hstep hok (estimate.toNat + 1) ⟨hnn, hest⟩
  obtain ⟨hlowerNonneg, hlowerLe⟩ := Loop.runE_invariant _ hstep hlow' ⟨hnn, hest⟩
  have hadvance := @runE_advanceStep _ (frequencyRule anchor target period label h) _ _ hat _
    hlowerNonneg hlowerLe (by simp only [maxIndex]; omega) hst hinst
  obtain ⟨final, hfnl⟩ := @exists_runE_rollingStep env _ item _ _
    (frequencyRule anchor target period label h) _ _ _ hat hidx hlt hst hnat hfin
    _ hnat
  unfold expandRollingFrequency
  rw [if_neg (by rw [not_or, Nat.not_lt]; exact h)]
  simp only [hfst]
  exact exists_bind_eq_ok hlow' (exists_bind_eq_ok hadvance (exists_bind_eq_ok hfnl ⟨_, rfl⟩))

end

/-! ### Cycles of months -/

section

variable {date start finish : Date} {offset : Int}

lemma exists_addMonths (hoff : 0 ≤ offset) (hyear : (date.monthIndex + offset) / 12 ≤ 9999) :
    ∃ result, addMonths date offset = some result := by
  obtain ⟨hmin, -⟩ := date.year_range
  obtain ⟨hone, -⟩ := date.dayOfMonth_bounds
  have hlen := monthLength_bounds ((date.monthIndex + offset) / 12)
    (((date.monthIndex + offset) % 12).toNat + 1)
  have hidx : date.monthIndex = date.year * 12 + date.month0 := by
    unfold monthIndex month
    omega
  exact Date.exists_ofCalendar ⟨by omega, hyear⟩ ⟨by omega, by omega⟩ ⟨by omega, by omega⟩

/-- The months up to one after a month away from the limits. -/
lemma exists_addMonths_of_le {last : Int} (hfin : addMonths date last = some finish)
    (hbef : finish.day < 2932532) (hi : 0 ≤ i) (hle : i ≤ last + 1) :
    ∃ result, addMonths date i = some result := by
  refine exists_addMonths hi ?_
  obtain ⟨hidx, -⟩ := addMonths_eq_some hfin
  obtain ⟨hmon, -, -⟩ := finish.month0_bounds
  have hyear : finish.year ≤ 9998 := by
    by_contra hlast
    have hmono := daysBeforeYear_mono (show 9999 ≤ finish.year by omega)
    have hdays : daysBeforeYear 9999 = 2932532 := by decide
    have := finish.year_bounds.1
    omega
  unfold monthIndex month at hidx
  unfold monthIndex month
  omega

/-- A cycle is not longer than two months. -/
lemma addMonths_succ_le {cycle : Int} (hst : addMonths date cycle = some start)
    (hfin : addMonths date (cycle + 1) = some finish) : finish.day ≤ start.day + 62 := by
  obtain ⟨hstartIndex, -⟩ := addMonths_eq_some hst
  obtain ⟨hfinishIndex, -⟩ := addMonths_eq_some hfin
  have hstartDay := start.day_eq_monthStart_add
  have hfinishDay := finish.day_eq_monthStart_add
  have hsucc := monthStart_succ_bounds start.monthIndex
  have hlast := finish.dayOfMonth_bounds
  have hlen := monthLength_bounds finish.year finish.month
  rw [show finish.monthIndex = start.monthIndex + 1 by omega] at hfinishDay
  omega

variable {cycle : Int} {span : Span} {index n : ℕ} {t : OffsetDateTime}

/-- A span of weeks away from the limits. -/
structure SpanInRange (span : Span) : Prop where
  start_le : span.start.nanos ≤ span.finish.nanos
  length_le : span.finish.nanos - span.start.nanos ≤ 70 * day
  start_ge : -4371585 * day ≤ span.start.nanos
  finish_le : span.finish.nanos ≤ 2932895 * day

lemma exists_cyclePart (h : SpanInRange span) (hidx : index ≤ n) (hn : 0 < n)
    (hsmall : n ≤ 65535) : ∃ t, cyclePart span index n = some t ∧
      t.nanos ≤ span.finish.nanos ∧ span.start.nanos ≤ t.nanos := by
  obtain ⟨hle, hlen, hlow, hhigh⟩ := h
  generalize hspan : span.finish.nanos - span.start.nanos = length at hlen
  have hsince : span.finish.since span.start = length := hspan
  have hnn : 0 ≤ length := by omega
  have hprod : 0 ≤ length * index := Int.mul_nonneg hnn (Int.natCast_nonneg _)
  have hbound : length * index ≤ 70 * day * 65535 :=
    Int.mul_le_mul hlen (by omega) (Int.natCast_nonneg _) (by decide)
  have hpart : 0 ≤ length * index / n := Int.ediv_nonneg hprod (Int.natCast_nonneg _)
  have hpart' : length * index / n ≤ length :=
    Int.ediv_le_of_le_mul (by omega) (Int.mul_le_mul_of_nonneg_left (by exact_mod_cast hidx) hnn)
  obtain ⟨t, ht, hns⟩ := exists_checkedAdd (t := span.start) (d := length * index / n)
    (by omega) (by omega)
  refine ⟨t, OffsetDateTime.checkedPart_eq_some.mpr ?_, by omega, by omega⟩
  rw [hsince, Int.tdiv_eq_ediv_of_nonneg hprod]
  exact ⟨wholeSeconds_mem hprod hbound (by decide), by omega, ht⟩

section

variable (h : SpanInRange span) (hspac : span.finish.nanos + spacing.toDuration ≤ 2932895 * day)

include h hspac

/-- All parts of a cycle away from the limits are representable. -/
lemma exists_cycleInterval (hidx : index < n) (hsmall : n ≤ 65535) :
    ∃ nominal, cycleInterval span index n spacing = some nominal := by
  have hn : 0 < n := by omega
  obtain ⟨start, hst, hstartLe⟩ : ∃ start, (if index = 0 then some span.start
      else cyclePart span index n) = some start ∧ start.nanos ≤ span.finish.nanos ∧
        span.start.nanos ≤ start.nanos := by
    split
    · exact ⟨span.start, rfl, h.start_le, le_rfl⟩
    · exact exists_cyclePart h hidx.le hn hsmall
  obtain ⟨natural, hnat⟩ : ∃ natural, (if index + 1 = n then some span.finish
      else cyclePart span (index + 1) n) = some natural := by
    split
    · exact ⟨span.finish, rfl⟩
    · obtain ⟨t, ht, -⟩ := exists_cyclePart h (show index + 1 ≤ n by omega) hn hsmall
      exact ⟨t, ht⟩
  obtain ⟨spaced, hspaced, -⟩ := exists_checkedAdd (t := start) (d := spacing.toDuration) (by
      have := Minutes.toDuration_nonneg spacing
      have := h.start_ge
      omega) (by omega)
  exact ⟨_, cycleInterval_eq_some.mpr ⟨start, natural, _, hst, hnat,
    Option.map_eq_some_iff.mpr ⟨spaced, hspaced, rfl⟩, rfl⟩⟩

lemma exists_expandCycle :
    ∃ l, expandCycle env request item anchor target spacing cycle span = .ok l := by
  have htgt := target.toNat_lt
  obtain ⟨intervals, hintervals⟩ := exists_mapM_eq_ok (l := List.range target.toNat)
    (f := fun index => inRange ((cycleInterval span index target.toNat spacing).map
      fun nominal => (index, nominal))) fun index hidx => by
        obtain ⟨nominal, hnom⟩ := exists_cycleInterval h hspac (List.mem_range.mp hidx) (by omega)
        exact ⟨_, inRange_eq_ok.mpr (by rw [hnom, Option.map_some])⟩
  exact exists_bind_eq_ok hintervals ⟨_, rfl⟩

end

/-- A cycle around an instant away from the limits is in range. -/
lemma spanInRange_of_mem (hdays : ∀ day ∈ days, IsLocalDay day)
    (hspan : cycleSpan request days anchor cycle = some span) (ht : t.AwayFromLimits)
    (hst : span.start ≤ t) (hfin : t < span.finish) :
    SpanInRange span ∧ span.finish.nanos ≤ t.nanos + 70 * day ∧
      ∃ finish, addMonths anchor.date (cycle + 1) = some finish ∧ finish.day < 2932532 := by
  obtain ⟨startDate, endDate, hstDate, hendDate, rfl⟩ := cycleSpan_eq_some.mp hspan
  have hlow := boundaryInstant_bounds request hdays startDate
  have hhigh := boundaryInstant_bounds request hdays endDate
  have hgap := addMonths_succ_le hstDate hendDate
  obtain ⟨htlow, hthigh⟩ := ht
  rw [le_def] at hst
  rw [lt_def] at hfin
  simp only [boundaryTolerance, day, second] at *
  refine ⟨⟨?_, ?_, ?_, ?_⟩, by omega, endDate, hendDate, by omega⟩ <;> dsimp only [day] <;>
    omega

/-- A round of the expansion, by the span of its cycle. -/
lemma rollingMonthStep_eq {s : Int × List Occurrence}
    (hspan : cycleSpan request days anchor s.1 = some span)
    (hnext : nextIndex s.1 = .ok (s.1 + 1)) :
    rollingMonthStep env request item anchor target spacing days s =
      if request.horizonEnd ≤ span.start then .ok none
      else if request.horizonStart < span.finish then
        expandCycle env request item anchor target spacing s.1 span >>= fun occurrences =>
          .ok (some (s.1 + 1, s.2 ++ occurrences))
      else .ok (some (s.1 + 1, s.2)) := by
  obtain ⟨startDate, endDate, hst, hend, rfl⟩ := cycleSpan_eq_some.mp hspan
  unfold rollingMonthStep
  rw [hst, hnext]
  show inRange (addMonths anchor.date (s.1 + 1)) >>= _ = _
  rw [hend]
  rfl

lemma cycleSpan_finish_eq {next : Span} (hspan : cycleSpan request days anchor cycle = some span)
    (hnext : cycleSpan request days anchor (cycle + 1) = some next) : span.finish = next.start := by
  obtain ⟨-, endDate, -, hend, rfl⟩ := cycleSpan_eq_some.mp hspan
  obtain ⟨startDate, -, hst, -, rfl⟩ := cycleSpan_eq_some.mp hnext
  cases hend.symm.trans hst
  rfl

lemma exists_expandRollingMonths (hdays : ∀ day ∈ days, IsLocalDay day)
    (hat : AtInstant request t) (hspan : cycleSpan request days anchor cycle = some span)
    (ht : t.AwayFromLimits) (hst : span.start ≤ t) (hfin : t < span.finish)
    (hspac : t.nanos + spacing.toDuration ≤ 2932397 * day)
    (hfst : firstCycle request days anchor ≤ cycle) :
    ∃ l, expandRollingMonths env request item anchor target spacing days = .ok l := by
  have hnn : 0 ≤ firstCycle request days anchor := le_max_right _ _
  obtain ⟨hrng, hnear, finish, haddMonths, hbef⟩ :=
    spanInRange_of_mem hdays hspan ht hst hfin
  have hmonths : ∀ i, 0 ≤ i → i ≤ cycle + 1 →
      ∃ span, cycleSpan request days anchor i = some span := by
    intro i hi hle
    obtain ⟨a, ha⟩ := exists_addMonths_of_le haddMonths hbef hi (by omega)
    obtain ⟨b, hb⟩ := exists_addMonths_of_le haddMonths hbef (show 0 ≤ i + 1 by omega) (by omega)
    exact ⟨_, cycleSpan_eq_some.mpr ⟨a, b, ha, hb, rfl⟩⟩
  have hcyc : cycle < 1000000 := by
    obtain ⟨hidx, -⟩ := addMonths_eq_some haddMonths
    have hyear := anchor.date.year_range
    have hyear' := finish.year_range
    have hmonth' := finish.month0_bounds.1
    simp only [monthIndex, month] at hidx
    omega
  have hnext : ∀ i, i ≤ cycle + 1 → nextIndex i = .ok (i + 1) :=
    fun i hi => if_pos (by simp only [maxIndex]; omega)
  have haft : ∀ s : Int × List Occurrence, s.1 = cycle + 1 →
      rollingMonthStep env request item anchor target spacing days s = .ok none := by
    intro s hs
    obtain ⟨next, hnextSpan⟩ := hmonths (cycle + 1) (by omega) le_rfl
    rw [rollingMonthStep_eq (hs ▸ hnextSpan) (hnext _ hs.le), if_pos]
    rw [← cycleSpan_finish_eq hspan hnextSpan, le_def, hat.end_eq]
    exact lt_def.mp hfin
  have hstep : ∀ s s', rollingMonthStep env request item anchor target spacing days s =
      .ok (some s') → 0 ≤ s.1 ∧ s.1 ≤ cycle + 1 → 0 ≤ s'.1 ∧ s'.1 ≤ cycle + 1 := by
    rintro s s' hs ⟨hpos, hle⟩
    have hne : s.1 ≠ cycle + 1 := fun heq => by
      rw [haft s heq] at hs
      cases hs
    obtain ⟨-, -, -, heq, -⟩ := rollingMonthStep_eq_some hs
    omega
  have hok : ∀ s, 0 ≤ s.1 ∧ s.1 ≤ cycle + 1 →
      ∃ r, rollingMonthStep env request item anchor target spacing days s = .ok r := by
    rintro s ⟨hpos, hle⟩
    rcases Int.lt_trichotomy s.1 cycle with hbef | heq | hgt
    · -- the cycles before this one are over
      obtain ⟨earlier, hearlier⟩ := hmonths s.1 hpos hle
      obtain ⟨next, hnextSpan⟩ := hmonths (s.1 + 1) (by omega) (by omega)
      have hover : earlier.finish ≤ t := by
        rw [cycleSpan_finish_eq hearlier hnextSpan]
        rcases Int.lt_or_eq_of_le (show s.1 + 1 ≤ cycle by omega) with hlt | heq
        · exact (cycleSpan_lt hdays hlt hnextSpan hspan).le.trans hst
        · rw [heq, hspan] at hnextSpan
          cases hnextSpan
          exact hst
      rw [rollingMonthStep_eq hearlier (hnext _ hle)]
      split_ifs with hend hopen
      · exact ⟨_, rfl⟩
      · rw [lt_def, hat.start_eq] at hopen
        exact absurd (le_def.mp hover) (Int.not_le.mpr hopen)
      · exact ⟨_, rfl⟩
    · rw [rollingMonthStep_eq (by rw [heq]; exact hspan) (hnext _ hle)]
      split_ifs
      · exact ⟨_, rfl⟩
      · obtain ⟨l, hl⟩ := @exists_expandCycle env request item anchor target spacing s.1 span hrng
          (by simp only [day] at hnear hspac ⊢; omega)
        exact exists_bind_eq_ok hl ⟨_, rfl⟩
      · exact ⟨_, rfl⟩
    · exact ⟨none, haft s (by omega)⟩
  obtain ⟨final, hfnl⟩ := Loop.runE_ok _ hstep hok (maxIndex.toNat + 1)
    (s := (firstCycle request days anchor, [])) ⟨hnn, by dsimp only; omega⟩
  exact exists_bind_eq_ok hfnl ⟨_, rfl⟩

end

end DayWeave
