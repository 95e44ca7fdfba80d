import DayWeave.Recurrence.Context

/-!
The local days of a horizon.

Without a calendar from the platform the days are those from midnight to midnight at the offset of
the horizon (`IsPlainDay`), as long as they start before its end (`resolvedDays_plain`). A calendar
that passes its checks has one day for each date (`nodup_resolvedDays`).
-/

namespace DayWeave

open ZonedDayBoundary (localDate)
open Duration (second)
open List

open OffsetDateTime (le_def lt_def not_le_iff not_lt_iff)

lemma nanos_midnight (date : Date) (like : OffsetDateTime) :
    (midnight date like).nanos = date.day * Duration.day - like.offset * second := rfl

lemma midnight_congr {like like' : OffsetDateTime} (h : like.offset = like'.offset) (date : Date) :
    midnight date like = midnight date like' := by
  refine OffsetDateTime.ext ?_ h
  rw [nanos_midnight, nanos_midnight, h]

lemma midnight_date_le (t : OffsetDateTime) : midnight t.date t ≤ t := by
  rw [le_def, nanos_midnight]
  have := t.date_day
  simp only [Duration.day, second] at this ⊢
  omega

lemma lt_midnight_of_date_lt {t : OffsetDateTime} {date : Date} (h : t.date < date) :
    t < midnight date t := by
  rw [Date.lt_def] at h
  rw [lt_def, nanos_midnight]
  have := t.date_day
  simp only [Duration.day, second] at this ⊢
  omega

lemma midnight_le_midnight {like : OffsetDateTime} {a b : Date} (h : a ≤ b) :
    midnight a like ≤ midnight b like := by
  rw [Date.le_def] at h
  rw [le_def, nanos_midnight, nanos_midnight]
  simp only [Duration.day]
  omega

lemma Date.nextDay_eq_some {d next : Date} (h : d.nextDay = some next) : next.day = d.day + 1 :=
  Date.ofDay_eq_some h

/-- A day is not empty, and its first and last instants have its date. -/
@[mk_iff] structure IsLocalDay (day : ZonedDayBoundary) : Prop where
  start_lt_finish : day.start < day.finish
  start_date : day.start.date = day.localDate
  last_date : ∃ lastInstant, day.finish.checkedSub 1 = some lastInstant ∧
    lastInstant.date = day.localDate

lemma validateZonedDay_eq_ok {day : ZonedDayBoundary} {w : Unit} :
    validateZonedDay day = .ok w ↔ IsLocalDay day := by
  rw [isLocalDay_iff, validateZonedDay]
  cases day.finish.checkedSub 1 <;> simp

namespace IsLocalDay

variable {day : ZonedDayBoundary}

/-- A day starts within two days of the midnight of its date at Greenwich, and a bit. -/
lemma start_bounds (h : IsLocalDay day) :
    day.localDate.day * Duration.day - 93599 * second ≤ day.start.nanos ∧
      day.start.nanos < (day.localDate.day + 1) * Duration.day + 93599 * second := by
  have hdate := day.start.date_day
  rw [h.start_date] at hdate
  have hge := day.start.offset_ge
  have hle := day.start.offset_le
  simp only [Duration.day, second] at hdate ⊢
  omega

/-- A day ends within two days of the next midnight at Greenwich, and a bit. -/
lemma finish_bounds (h : IsLocalDay day) :
    day.localDate.day * Duration.day - 93599 * second < day.finish.nanos ∧
      day.finish.nanos ≤ (day.localDate.day + 1) * Duration.day + 93599 * second := by
  obtain ⟨last, hlast, hlastDate⟩ := h.last_date
  obtain ⟨hns, hoff⟩ := OffsetDateTime.ofNanos_eq_some hlast
  have hdate := last.date_day
  rw [hlastDate, hns, hoff] at hdate
  have hge := day.finish.offset_ge
  have hle := day.finish.offset_le
  simp only [Duration.day, second] at hdate ⊢
  omega

end IsLocalDay

/-- The day from midnight to midnight at the offset of `like`. -/
structure IsPlainDay (like : OffsetDateTime) (day : ZonedDayBoundary) : Prop where
  start : day.start = midnight day.localDate like
  finish : ∃ next, day.localDate.nextDay = some next ∧ day.finish = midnight next like

namespace IsPlainDay

variable {like like' : OffsetDateTime} {day day' : ZonedDayBoundary}

lemma congr (h : like.offset = like'.offset) (hday : IsPlainDay like day) :
    IsPlainDay like' day := by
  obtain ⟨next, hnext, hfin⟩ := hday.finish
  exact ⟨hday.start.trans (midnight_congr h _), next, hnext, hfin.trans (midnight_congr h _)⟩

lemma eq_of_localDate_eq (hday : IsPlainDay like day) (hday' : IsPlainDay like day')
    (h : day.localDate = day'.localDate) : day = day' := by
  obtain ⟨next, hnext, hfin⟩ := hday.finish
  obtain ⟨next', hnext', hfinish'⟩ := hday'.finish
  have hst := hday.start
  have hstart' := hday'.start
  cases day
  cases day'
  dsimp only at *
  subst h
  cases hnext.symm.trans hnext'
  rw [hst, hstart', hfin, hfinish']

lemma start_lt_finish (hday : IsPlainDay like day) : day.start < day.finish := by
  obtain ⟨next, hnext, hfin⟩ := hday.finish
  have := Date.nextDay_eq_some hnext
  rw [hday.start, hfin, lt_def, nanos_midnight, nanos_midnight, this]
  simp only [Duration.day]
  omega

lemma isLocalDay (hday : IsPlainDay like day) : IsLocalDay day where
  start_lt_finish := hday.start_lt_finish
  start_date := by
    rw [hday.start]
    refine Date.ext ((OffsetDateTime.date_day _).trans ?_)
    exact (congrArg (· / Duration.day) (Int.sub_add_cancel _ _)).trans
      (Int.mul_ediv_cancel _ (by decide))
  last_date := by
    obtain ⟨next, hnext, hfin⟩ := hday.finish
    have hnextDay := Date.nextDay_eq_some hnext
    have hmin := day.localDate.min_le
    have hmax := next.le_max
    have hns : day.finish.nanos =
        next.day * Duration.day - like.offset * second := by rw [hfin]; rfl
    have hoff : day.finish.offset = like.offset := by rw [hfin]; rfl
    have hrng : -4371587 * Duration.day ≤ day.finish.nanos - 1 + day.finish.offset * second ∧
        day.finish.nanos - 1 + day.finish.offset * second < 2932897 * Duration.day := by
      rw [hns, hoff, hnextDay]
      simp only [Duration.day, second]
      omega
    refine ⟨⟨_, _, day.finish.offset_ge, day.finish.offset_le, hrng.1, hrng.2⟩,
      dif_pos ⟨⟨day.finish.offset_ge, day.finish.offset_le⟩, hrng⟩, Date.ext ?_⟩
    have : (day.finish.nanos - 1 + day.finish.offset * second) / Duration.day =
        day.localDate.day := by
      rw [hns, hoff, hnextDay]
      simp only [Duration.day, second]
      omega
    exact this

end IsPlainDay

section

variable {request : PlanRequest} {s s' : Date × List ZonedDayBoundary}
  {days : List ZonedDayBoundary}

/-- What holds in every round of the walk over the days of the horizon. -/
structure PlainDays (request : PlanRequest) (s : Date × List ZonedDayBoundary) : Prop where
  plain : ∀ day ∈ s.2, IsPlainDay request.horizonStart day
  before_end : ∀ day ∈ s.2, day.start < request.horizonEnd
  dates : s.2.map (fun day => day.localDate.day) =
    (List.range s.2.length).map fun i : ℕ => request.horizonStart.date.day + i
  reached : s.1.day = request.horizonStart.date.day + s.2.length

lemma resolvedDaysStep_eq_some (h : resolvedDaysStep request s = .ok (some s')) :
    ∃ next, s.1.nextDay = some next ∧ midnight s.1 request.horizonStart < request.horizonEnd ∧
      s'.1 = next ∧
      (s' = (next, s.2 ++ [⟨s.1, midnight s.1 request.horizonStart,
        midnight next request.horizonStart⟩]) ∨
        (midnight next request.horizonStart ≤ request.horizonStart ∧ s' = (next, s.2))) := by
  simp only [resolvedDaysStep] at h
  split at h
  · cases h
  · rename_i next hnext
    split_ifs at h with hend hbef <;> cases h
    · exact ⟨next, hnext, not_le_iff.mp hend, rfl, .inl rfl⟩
    · exact ⟨next, hnext, not_le_iff.mp hend, rfl, .inr ⟨not_lt_iff.mp hbef, rfl⟩⟩

lemma PlainDays.step (hs : PlainDays request s)
    (h : resolvedDaysStep request s = .ok (some s')) : PlainDays request s' := by
  obtain ⟨next, hnext, hend, -, rfl | ⟨hbef, -⟩⟩ := resolvedDaysStep_eq_some h
  · have hnextDay := Date.nextDay_eq_some hnext
    refine ⟨forall_mem_append.mpr ⟨hs.plain, forall_mem_singleton.mpr ⟨rfl, next, hnext, rfl⟩⟩,
      forall_mem_append.mpr ⟨hs.before_end, forall_mem_singleton.mpr hend⟩, ?_, ?_⟩
    · rw [map_append, hs.dates, length_append, length_singleton, range_succ,
        map_append, map_singleton, map_singleton, hs.reached]
    · rw [length_append, length_singleton, hnextDay, hs.reached]
      omega
  · -- the walk starts at the date of the horizon, so no day is over before it
    have hrch := hs.reached
    have hnextDay := Date.nextDay_eq_some hnext
    have hlt : request.horizonStart < midnight next request.horizonStart :=
      lt_midnight_of_date_lt (by rw [Date.lt_def]; omega)
    exact absurd hbef (not_le_of_gt hlt)

/-- **The days at the offset of the horizon.** -/
theorem resolvedDays_plain (hnone : request.recurrenceContext.calendar.days = [])
    (h : resolvedDays request = .ok days) : ∃ last : Date, PlainDays request (last, days) ∧
      request.horizonEnd ≤ midnight last request.horizonStart := by
  simp only [resolvedDays, if_pos hnone, Except.map_eq_ok] at h
  obtain ⟨⟨last, found⟩, hrun, rfl⟩ := h
  refine ⟨last, Loop.runE_invariant _ (fun s s' hs hi => hi.step hs) hrun
    ⟨by simp, by simp, rfl, by simp⟩, ?_⟩
  have hstop := Loop.runE_stops _ (μ := fun s => (2932896 - s.1.day).toNat) ?_ ?_ hrun
  · simp only [resolvedDaysStep] at hstop
    split at hstop
    · cases hstop
    · split_ifs at hstop with hend
      · exact hend
      all_goals cases hstop
  · intro s s' hs
    obtain ⟨next, hnext, -, heq, -⟩ := resolvedDaysStep_eq_some hs
    have := Date.nextDay_eq_some hnext
    have := next.le_max
    rw [heq]
    omega
  · have := request.horizonStart.date.min_le
    simp only [dateCount]
    omega

/-- A date between the start and the end of the horizon is one of its days. -/
lemma PlainDays.exists_day {last : Date} (hs : PlainDays request (last, days))
    (hend : request.horizonEnd ≤ midnight last request.horizonStart) {date : Date}
    (hst : request.horizonStart.date ≤ date)
    (hbef : midnight date request.horizonStart < request.horizonEnd) :
    ∃ day ∈ days, day.localDate = date := by
  have hlt : date.day < last.day := by
    by_contra hle
    exact absurd (hend.trans (midnight_le_midnight (Int.not_lt.mp hle))) (not_le_of_gt hbef)
  have hrch := hs.reached
  rw [Date.le_def] at hst
  have hmem : date.day ∈ days.map (fun day => day.localDate.day) := by
    rw [hs.dates, mem_map]
    refine ⟨(date.day - request.horizonStart.date.day).toNat, mem_range.mpr ?_, ?_⟩ <;>
      dsimp only at hrch ⊢ <;> omega
  obtain ⟨day, hday, heq⟩ := mem_map.mp hmem
  exact ⟨day, hday, Date.ext heq⟩

lemma PlainDays.nodup (hs : PlainDays request s) : (s.2.map localDate).Nodup := by
  refine Nodup.of_map Date.day ?_
  rw [map_map]
  exact hs.dates ▸ nodup_range.map fun i j hij => by omega

end

lemma validateZonedDays_eq_ok {seen : Finset Date} {days : List ZonedDayBoundary} {w : Unit} :
    validateZonedDays seen days = .ok w ↔ (∀ day ∈ days, validateZonedDay day = .ok ()) ∧
      (days.map localDate).Nodup ∧ ∀ day ∈ days, day.localDate ∉ seen :=
  Keyed.check_iff (c := fun seen days => validateZonedDays seen days = .ok w) (fun _ => rfl)
    fun seen day rest => by
      simp [validateZonedDays, Unique.exists_iff]

section

variable {request : PlanRequest} {days : List ZonedDayBoundary} {left right : ZonedDayBoundary}

lemma validateZonedCalendar_days (h : validateZonedCalendar request = .ok ()) :
    (∀ day ∈ request.recurrenceContext.calendar.days, IsLocalDay day) ∧
      (request.recurrenceContext.calendar.days.map localDate).Nodup := by
  obtain ⟨⟨⟩, hdays, -⟩ := Except.bind_eq_ok.mp h
  obtain ⟨hall, hnd, -⟩ := validateZonedDays_eq_ok.mp hdays
  exact ⟨fun day hday => validateZonedDay_eq_ok.mp (hall day hday), hnd⟩

lemma pairwise_sortedDays (hnd : (days.map localDate).Nodup) :
    (sortedDays days).Pairwise fun a b => a.localDate < b.localDate := by
  have hsort := pairwise_sortBy (compareOn fun day : ZonedDayBoundary => day.localDate.day) days
  have hne : (sortedDays days).Pairwise fun a b => a.localDate ≠ b.localDate :=
    pairwise_map.mp (((sortBy_perm _ days).map _).nodup_iff.mpr hnd)
  refine (hsort.and hne).imp fun {a b} hab => lt_of_le_of_ne ?_ hab.2
  exact Int.isLE_compare.mp hab.1

/-- Days with consecutive dates are neighbours, since no date lies between them. -/
lemma mem_neighbours (hdays : days.Pairwise fun a b => a.localDate < b.localDate)
    (hleft : left ∈ days) (hrgt : right ∈ days)
    (hnext : left.localDate.nextDay = some right.localDate) : (left, right) ∈ neighbours days := by
  have hnextDay := Date.nextDay_eq_some hnext
  obtain ⟨i, hi, rfl⟩ := mem_iff_getElem.mp hleft
  obtain ⟨j, hj, rfl⟩ := mem_iff_getElem.mp hrgt
  rw [pairwise_iff_getElem] at hdays
  have hij : j = i + 1 := by
    rcases Nat.lt_trichotomy j (i + 1) with hlt | heq | hgt
    · rcases Nat.lt_or_ge j i with hji | hji
      · have := Date.lt_def.mp (hdays j i hj hi hji)
        omega
      · obtain rfl : j = i := by omega
        omega
    · exact heq
    · have hfst := Date.lt_def.mp (hdays i (i + 1) hi (by omega) (Nat.lt_succ_self i))
      have hsecond := Date.lt_def.mp (hdays (i + 1) j (by omega) hj hgt)
      omega
  subst hij
  refine mem_iff_getElem.mpr ⟨i, ?_, ?_⟩
  · rw [neighbours, length_zip, length_tail]
    omega
  · simp [neighbours]

/-- The days of a valid calendar follow each other without a gap. -/
lemma finish_eq_start_of_nextDay (h : validateZonedCalendar request = .ok ())
    (hleft : left ∈ request.recurrenceContext.calendar.days)
    (hrgt : right ∈ request.recurrenceContext.calendar.days)
    (hnext : left.localDate.nextDay = some right.localDate) :
    left.finish.nanos = right.start.nanos := by
  have hmem := mem_neighbours (pairwise_sortedDays (validateZonedCalendar_days h).2)
    ((mem_sortBy _).mpr hleft) ((mem_sortBy _).mpr hrgt) hnext
  obtain ⟨⟨⟩, -, h⟩ := Except.bind_eq_ok.mp h
  rcases Except.require_eq_ok.mp h with hnone | ⟨-, -, hall⟩
  · rw [hnone] at hleft
    cases hleft
  · have hpair := all_eq_true.mp hall _ hmem
    exact beq_iff_eq.mp (of_decide_eq_true hpair).2

lemma resolvedDays_calendar (hsome : request.recurrenceContext.calendar.days ≠ []) :
    resolvedDays request = .ok (sortedDays request.recurrenceContext.calendar.days) := if_neg hsome

variable (hcal : validateZonedCalendar request = .ok ()) (h : resolvedDays request = .ok days)

include hcal h

lemma nodup_resolvedDays : (days.map localDate).Nodup := by
  by_cases hnone : request.recurrenceContext.calendar.days = []
  · obtain ⟨last, hpn, -⟩ := resolvedDays_plain hnone h
    exact hpn.nodup
  · cases (resolvedDays_calendar hnone).symm.trans h
    exact ((sortBy_perm _ _).map _).nodup_iff.mpr (validateZonedCalendar_days hcal).2

lemma isLocalDay_of_mem_resolvedDays : ∀ day ∈ days, IsLocalDay day := by
  by_cases hnone : request.recurrenceContext.calendar.days = []
  · obtain ⟨last, hpn, -⟩ := resolvedDays_plain hnone h
    exact fun day hday => (hpn.plain day hday).isLocalDay
  · cases (resolvedDays_calendar hnone).symm.trans h
    exact fun day hday => (validateZonedCalendar_days hcal).1 day ((mem_sortBy _).mp hday)

end

end DayWeave
