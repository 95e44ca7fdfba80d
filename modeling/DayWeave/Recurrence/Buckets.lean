import DayWeave.Lib.Share
import DayWeave.Recurrence.Expand

/-!
The members of calendar rules.

A member is what a rule says about one of its occurrences, whatever the horizon; in a horizon
that it meets it gives an occurrence (`Member.occurrence`). The ordinal of a member of a bucket
determines its day and its place on that day (`mem_expandBucket`); ordinals are spread evenly over
the days, and those of a day divide it among them (`calendarBucket_fair`).
-/

namespace DayWeave

open ZonedDayBoundary (localDate)
open List Sample

open OffsetDateTime (atSecond checkedAdd_zero checkedPart_eq_some le_def lt_def nanos_earlier
  nanos_later nanos_of_checkedAdd sameInstant)

/-- What a rule says about one of its occurrences, whatever the horizon. -/
structure Member where
  key : String
  identity : RecurrenceOccurrenceIdentity
  nominal : Span
  localDate : Option Date

namespace Member

/-- The occurrence of a member in a horizon. -/
def occurrence (env : Externals) (request : PlanRequest) (itemId : ItemId) (m : Member) :
    Occurrence :=
  makeOccurrence env itemId m.key m.identity m.nominal (horizonWindow request m.nominal) m.localDate

/-- The nominal interval of the member meets the horizon. -/
def Meets (request : PlanRequest) (m : Member) : Prop :=
  (horizonWindow request m.nominal).start < (horizonWindow request m.nominal).finish

instance (request : PlanRequest) (m : Member) : Decidable (m.Meets request) :=
  inferInstanceAs (Decidable (_ < _))

lemma meets_iff {request : PlanRequest} {m : Member} :
    m.Meets request ↔ m.nominal.start < m.nominal.finish ∧ m.nominal.start < request.horizonEnd ∧
      request.horizonStart < m.nominal.finish ∧ request.horizonStart < request.horizonEnd := by
  simp only [Meets, horizonWindow, lt_def, nanos_later, nanos_earlier]
  omega

end Member

/-! ### Buckets -/

lemma toNat_ofNat_of_lt {target : UInt16} {n : ℕ} (h : n < target.toNat) :
    (UInt16.ofNat n).toNat = n :=
  UInt16.toNat_ofNat_of_lt' (h.trans target.toNat_lt)

/-- The member of a bucket with the given ordinal; `day` is the day that the ordinal is
allotted to, when the target is spread over `dayCount` days. -/
def calendarMember (label : BucketLabel) (target : UInt16) (spacing : Minutes) (key : BucketKey)
    (dayCount : ℕ) (day : ZonedDayBoundary) (ordinal : ℕ) : Member where
  key := label.toText ++ ":" ++ key.toText ++ ":" ++ toString ordinal
  identity := key.identity day.localDate (UInt16.ofNat ordinal)
  nominal := bucketInterval day (Share.position target.toNat dayCount ordinal)
    (Share.count target.toNat dayCount ordinal) spacing
  localDate := some day.localDate

section

variable {env : Externals} {request : PlanRequest} {itemId : ItemId} {label : BucketLabel}
  {target : UInt16} {spacing : Minutes} {key : BucketKey} {days : List ZonedDayBoundary}

@[simp] lemma length_sortedDays (days : List ZonedDayBoundary) :
    (sortedDays days).length = days.length := length_sortBy _ _

/-- **The occurrences of a bucket** are its members that meet the horizon. -/
theorem mem_expandBucket {o : Occurrence} :
    o ∈ expandBucket env request itemId label target spacing (key, days) ↔
      ∃ ordinal < target.toNat, ∃ day,
        (sortedDays days)[ordinal * days.length / target.toNat]? = some day ∧
        (calendarMember label target spacing key days.length day ordinal).Meets request ∧
        o = (calendarMember label target spacing key days.length day ordinal).occurrence env request
          itemId := by
  simp only [expandBucket, mem_flatMap, mem_filterMap, Prod.exists,
    mem_zipIdx_iff_getElem?, length_sortedDays]
  constructor
  · rintro ⟨day, i, hday, ordinal, position, hord, ho⟩
    have hi : i < days.length := by
      have := (List.getElem?_eq_some_iff.mp hday).1
      rwa [length_sortedDays] at this
    have ht : 0 < target.toNat := by
      by_contra hzero
      rw [Nat.eq_zero_of_not_pos hzero, allocation] at hord
      simp at hord
    have hn := Nat.zero_lt_of_lt hi
    rw [allocation, Share.filter_range ht hi] at hord ho
    have hposition := (List.getElem?_eq_some_iff.mp hord).1
    rw [length_range'] at hposition
    rw [getElem?_range' hposition, Option.some.injEq] at hord
    -- the share of the day is a range, and the ordinal lies in it
    have hpl : ordinal * days.length / target.toNat = i := by
      rw [Share.place_eq_iff hn ht]
      omega
    have hlt : ordinal < target.toNat := by
      have : Share.first target.toNat days.length (i + 1) ≤ target.toNat := Share.first_le hn hi
      omega
    split at ho
    · rename_i hmt
      have hpos : Share.position target.toNat days.length ordinal = position := by
        rw [Share.position, hpl]
        omega
      rw [length_range'] at hmt ho
      refine ⟨ordinal, hlt, day, by rw [hpl]; exact hday, ?_, ?_⟩
      · rw [Member.Meets, calendarMember, hpos, Share.count, hpl]
        exact hmt
      · rw [Member.occurrence, calendarMember, hpos, Share.count, hpl]
        exact (Option.some.inj ho).symm
    · cases ho
  · rintro ⟨ordinal, hlt, day, hday, hmt, rfl⟩
    have ht := Nat.zero_lt_of_lt hlt
    have hn : 0 < days.length := by
      have := (List.getElem?_eq_some_iff.mp hday).1
      rw [length_sortedDays] at this
      exact Nat.zero_lt_of_lt this
    refine ⟨day, _, hday, ordinal, _, Share.getElem?_filter_range ht hn hlt, ?_⟩
    rw [allocation, Share.filter_range ht (Share.place_lt ht hn hlt), length_range']
    exact if_pos hmt

end

/-! ### The interval of a member -/

section

variable {day : ZonedDayBoundary} {position count : ℕ} {spacing : Minutes}

variable (hday : day.start ≤ day.finish)

include hday

lemma nanos_of_dayInstant {t : OffsetDateTime} (h : dayInstant day position count = some t) :
    t.nanos = day.start.nanos + (day.finish.nanos - day.start.nanos) * position / count := by
  obtain ⟨-, -, ht⟩ := checkedPart_eq_some.mp h
  rw [nanos_of_checkedAdd ht, Int.tdiv_eq_ediv_of_nonneg]
  · rfl
  · exact Int.mul_nonneg (Int.sub_nonneg_of_le hday) (Int.natCast_nonneg _)

lemma dayFraction_mem (hposition : position ≤ count) :
    day.start ≤ dayFraction day position count ∧ dayFraction day position count ≤ day.finish := by
  rw [dayFraction]
  cases hinst : dayInstant day position count with
  | none => exact ⟨hday, le_rfl⟩
  | some instant =>
    have hns := nanos_of_dayInstant hday hinst
    rw [le_def] at hday
    have hlen : (0 : Int) ≤ day.finish.nanos - day.start.nanos := by omega
    have hlow := Int.ediv_nonneg (Int.mul_nonneg hlen (Int.natCast_nonneg position))
      (Int.natCast_nonneg count)
    have hhigh : (day.finish.nanos - day.start.nanos) * position / count ≤
        day.finish.nanos - day.start.nanos := by
      rcases Nat.eq_zero_or_pos count with rfl | hcnt
      · simpa using hlen
      · exact Int.ediv_le_of_le_mul (by omega)
          (Int.mul_le_mul_of_nonneg_left (by exact_mod_cast hposition) hlen)
    rw [le_def, le_def, Option.getD_some]
    omega

lemma bucketInterval_mem (hposition : position < count) :
    day.start ≤ (bucketInterval day position count spacing).start ∧
      (bucketInterval day position count spacing).finish ≤ day.finish := by
  refine ⟨(dayFraction_mem hday hposition.le).1, ?_⟩
  have hnat : (if position + 1 = count then day.finish
      else dayFraction day (position + 1) count) ≤ day.finish := by
    split
    · exact le_refl day.finish
    · exact (dayFraction_mem hday (Nat.succ_le_of_lt hposition)).2
  have hspaced : (((dayFraction day position count).checkedAdd spacing.toDuration).map
      fun value => earlier value day.finish).getD day.finish ≤ day.finish := by
    cases (dayFraction day position count).checkedAdd spacing.toDuration with
    | none => exact le_refl day.finish
    | some value =>
      rw [Option.map_some, Option.getD_some, le_def, nanos_earlier]
      exact min_le_right _ _
  unfold bucketInterval
  dsimp only
  rw [le_def] at hnat hspaced
  split_ifs at hnat ⊢ <;> rw [le_def] <;> try rw [nanos_later]
  all_goals omega

/-- An earlier fraction of a day is representable too. -/
lemma exists_dayInstant_of_le {next : ℕ} (hle : position ≤ next) {u : OffsetDateTime}
    (h : dayInstant day next count = some u) :
    ∃ t, dayInstant day position count = some t ∧ t ≤ u := by
  obtain ⟨⟨-, hhigh⟩, hcnt, hu⟩ := checkedPart_eq_some.mp h
  have hlen := Int.sub_nonneg_of_le hday
  have hnn := Int.mul_nonneg hlen (Int.natCast_nonneg position)
  have hmul := Int.mul_le_mul_of_nonneg_left (by exact_mod_cast hle : (position : Int) ≤ next) hlen
  have hdiv := Int.tdiv_le_tdiv (c := count) (by omega) hmul
  obtain ⟨t, ht, hns⟩ := OffsetDateTime.exists_checkedAdd_of_checkedAdd hu
    (Int.tdiv_nonneg hnn (Int.natCast_nonneg count)) hdiv
  refine ⟨t, checkedPart_eq_some.mpr ⟨Duration.wholeSeconds_mem hnn hmul hhigh, hcnt, ht⟩, ?_⟩
  rw [le_def, hns, nanos_of_checkedAdd hu]
  exact Int.add_le_add_left hdiv _

lemma dayFraction_le_succ (hposition : position < count) :
    dayFraction day position count ≤ dayFraction day (position + 1) count := by
  have hlast := (dayFraction_mem hday hposition.le).2
  rw [dayFraction] at hlast ⊢
  rw [dayFraction]
  cases hnext : dayInstant day (position + 1) count with
  | none => exact hlast
  | some u =>
    obtain ⟨t, ht, hle⟩ := exists_dayInstant_of_le hday position.le_succ hnext
    rw [ht]
    exact hle

/-- Without spacing the interval of an occurrence ends where the next one starts. -/
lemma bucketInterval_zero (hposition : position < count) :
    (bucketInterval day position count 0).finish.nanos =
      (if position + 1 = count then day.finish
        else dayFraction day (position + 1) count).nanos := by
  have hnext := le_def.mp (dayFraction_le_succ hday hposition)
  have hzero : (0 : Minutes).toDuration = (0 : Int) := by decide
  unfold bucketInterval
  simp only [hzero, checkedAdd_zero, Option.map_some, Option.getD_some]
  split_ifs with hlast hsame hsame <;> simp only [sameInstant, beq_iff_eq] at hsame <;>
    simp only [nanos_later, nanos_earlier] at hsame ⊢ <;> omega

end

/-! ### Fair allocation -/

/-- The intervals number 0 up to `count` follow each other without gap or overlap from the start of
a day to its end. -/
structure TilesDay (day : ZonedDayBoundary) (count : ℕ) (interval : ℕ → Span) : Prop where
  first : (interval 0).start.nanos = day.start.nanos
  ordered : ∀ position < count, (interval position).start ≤ (interval position).finish
  next : ∀ position, position + 1 < count →
    (interval position).finish.nanos = (interval (position + 1)).start.nanos
  last : (interval (count - 1)).finish.nanos = day.finish.nanos

lemma tilesDay_bucketInterval {day : ZonedDayBoundary} (hday : day.start ≤ day.finish) {count : ℕ}
    (hcnt : 0 < count) :
    TilesDay day count fun position => bucketInterval day position count 0 where
  first := by
    have hzero : dayInstant day 0 count = some day.start := by
      refine checkedPart_eq_some.mpr ?_
      rw [Nat.cast_zero, Int.mul_zero, Int.zero_tdiv]
      exact ⟨by decide, by omega, checkedAdd_zero _⟩
    show (dayFraction day 0 count).nanos = _
    rw [dayFraction, hzero, Option.getD_some]
  ordered position hposition := by
    have hlast := le_def.mp (dayFraction_mem hday hposition.le).2
    have hnext := le_def.mp (dayFraction_le_succ hday hposition)
    rw [le_def, bucketInterval_zero hday hposition]
    split_ifs
    · exact hlast
    · exact hnext
  next position hposition := by
    rw [bucketInterval_zero hday (by omega), if_neg (by omega)]
    rfl
  last := by rw [bucketInterval_zero hday (by omega), if_pos (by omega)]

lemma mem_allocation {target dayCount dayIndex ordinal : ℕ} :
    ordinal ∈ allocation target dayCount dayIndex ↔
      ordinal < target ∧ ordinal * dayCount / target = dayIndex := by
  rw [allocation, mem_filter, mem_range, decide_eq_true_eq]

/-- **Fair buckets**: every ordinal is allotted to exactly one day, in the order of the days; the
days get equally many, up to one; without spacing the nominal intervals of a day tile it; and the
occurrences of the bucket have the nominal intervals of its days that meet the horizon. -/
theorem calendarBucket_fair {target : UInt16} (htgt : target ≠ 0) {days : List ZonedDayBoundary}
    (hdays : days ≠ []) :
    (∀ ordinal < target.toNat,
      ∃! i, i < days.length ∧ ordinal ∈ allocation target.toNat days.length i) ∧
    (∀ i j, ∀ a ∈ allocation target.toNat days.length i,
      ∀ b ∈ allocation target.toNat days.length j, a ≤ b → i ≤ j) ∧
    (∀ i < days.length,
      (allocation target.toNat days.length i).length = target.toNat / days.length ∨
      (allocation target.toNat days.length i).length =
        (target.toNat + (days.length - 1)) / days.length) ∧
    (∀ i day, (sortedDays days)[i]? = some day → day.start ≤ day.finish →
      allocation target.toNat days.length i ≠ [] →
      TilesDay day (allocation target.toNat days.length i).length fun position =>
        bucketInterval day position (allocation target.toNat days.length i).length 0) ∧
    ∀ env request itemId label key nominal,
      (∃ o ∈ expandBucket env request itemId label target 0 (key, days),
        o.nominalStart = nominal.start ∧ o.nominalEnd = nominal.finish) ↔
      (horizonWindow request nominal).start < (horizonWindow request nominal).finish ∧
        ∃ i day position, (sortedDays days)[i]? = some day ∧
          position < (allocation target.toNat days.length i).length ∧
          nominal = bucketInterval day position
            (allocation target.toNat days.length i).length 0 := by
  have ht := Nat.pos_of_ne_zero fun h => htgt (UInt16.toNat_inj.mp h)
  have hn := length_pos_iff.mpr hdays
  refine ⟨fun ordinal hlt => ?_, fun i j a ha b hb hab => ?_, fun i hi => ?_,
    fun i day _ hday hsome => tilesDay_bucketInterval hday (length_pos_iff.mpr hsome),
    fun env request itemId label key nominal => ?_⟩
  · refine ⟨_, ⟨Share.place_lt ht hn hlt, mem_allocation.mpr ⟨hlt, rfl⟩⟩, fun i hi => ?_⟩
    exact (mem_allocation.mp hi.2).2.symm
  · rw [← (mem_allocation.mp ha).2, ← (mem_allocation.mp hb).2]
    exact Nat.div_le_div_right (Nat.mul_le_mul_right _ hab)
  · rw [allocation, Share.filter_range ht hi, length_range']
    exact Share.first_succ_sub_first hn
  · simp only [expandBucket, mem_flatMap, mem_filterMap, Prod.exists, mem_zipIdx_iff_getElem?,
      length_sortedDays]
    constructor
    · obtain ⟨start, finish⟩ := nominal
      rintro ⟨o, ⟨day, i, hday, ordinal, position, hord, ho⟩, hstart, hfinish⟩
      split at ho
      · rename_i hmt
        cases ho
        cases hstart
        cases hfinish
        exact ⟨hmt, i, day, position, hday, (List.getElem?_eq_some_iff.mp hord).1, rfl⟩
      · cases ho
    · rintro ⟨hmt, i, day, position, hday, hlt, rfl⟩
      exact ⟨_, ⟨day, i, hday, _, position, getElem?_eq_getElem hlt, if_pos hmt⟩, rfl, rfl⟩

namespace Sample

def epochDay : ZonedDayBoundary where
  localDate := (atSecond 0).date
  start := .atSecond 0
  finish := .atSecond 86400

/-- The day after, of twenty-three hours. -/
def shortDay : ZonedDayBoundary where
  localDate := (atSecond 86400).date
  start := .atSecond 86400
  finish := .atSecond 169200

end Sample

/-- Of three occurrences on two days, one on each half of the first day and one on all of the
second, the first occurs in a horizon of two hours. -/
theorem calendarBucket_fair_shortDay :
    (TilesDay epochDay 2 fun position => bucketInterval epochDay position 2 0) ∧
    (TilesDay shortDay 1 fun position => bucketInterval shortDay position 1 0) ∧
    ∃ o ∈ expandBucket externals (Sample.request []) (task 1 30).id .weekly 3 0
      (.week 0, [shortDay, epochDay]), o.nominalStart = .atSecond 0 ∧
        o.nominalEnd = .atSecond 43200 := by
  obtain ⟨-, -, -, htiles, hoccurs⟩ :=
    @calendarBucket_fair 3 (by decide) [shortDay, epochDay] (cons_ne_nil _ _)
  exact ⟨htiles 0 _ (by decide +kernel) (by decide) (cons_ne_nil 0 [1]),
    htiles 1 _ (by decide +kernel) (by decide) (cons_ne_nil 2 []),
    (hoccurs _ _ _ _ _ ⟨.atSecond 0, .atSecond 43200⟩).mpr
      ⟨by decide, 0, epochDay, 0, by decide +kernel, by decide, by decide +kernel⟩⟩

/-! ### Buckets of a calendar -/

namespace BucketLabel

def keyOf (label : BucketLabel) (startsOn : DayOfWeek) (date : Date) : BucketKey :=
  match label with
  | daily | frequencyCalendarDay => .day date
  | weekly | frequencyCalendarWeek => .week (date.weekKey startsOn)
  | monthly | frequencyCalendarMonth => .month date.year date.month

end BucketLabel

namespace BucketKey

/-- The dates of a bucket, if all of them are representable. -/
def dates : BucketKey → Option (List Date)
  | day date => some [date]
  | week key =>
    (Date.ofJulianDay key).bind fun start =>
      (List.range 7).mapM fun offset : ℕ => start.checkedAddDays offset
  | month y m => (List.range (monthLength y m)).mapM fun day => Date.ofCalendar y m (day + 1)

lemma pairwise_of_forall₂ {f : ℕ → Option Date} {b : Int} {n : ℕ} {dates : List Date}
    (hf : ∀ i date, f i = some date → date.day = b + i)
    (h : List.Forall₂ (fun i date => f i = some date) (List.range n) dates) :
    dates.Pairwise (· < ·) := by
  rw [pairwise_iff_getElem]
  intro i j hi hj hij
  have hlen := h.length_eq
  rw [length_range] at hlen
  have hday : ∀ k (hk : k < dates.length), (dates[k]).day = b + k := fun k hk => by
    have := h.get (by rw [length_range]; omega) hk
    simpa using hf _ _ this
  rw [Date.lt_def, hday i hi, hday j hj]
  omega

lemma pairwise_dates {key : BucketKey} {l : List Date} (h : key.dates = some l) :
    l.Pairwise (· < ·) := by
  cases key with
  | day date =>
    cases h
    exact pairwise_singleton _ _
  | week key =>
    obtain ⟨start, -, hdts⟩ := Option.bind_eq_some_iff.mp h
    exact pairwise_of_forall₂ (fun i date hi => Date.ofDay_eq_some hi)
      (Option.mapM_eq_some.mp hdts)
  | month y m =>
    refine pairwise_of_forall₂
      (b := daysBeforeYear y + daysBeforeMonth (isLeapYear y) (m - 1)) (fun i date hi => ?_)
      (Option.mapM_eq_some.mp h)
    unfold Date.ofCalendar at hi
    split at hi
    · rw [Date.ofDay_eq_some hi]
      omega
    · cases hi

lemma keyOf_eq_of_mem_dates {label : BucketLabel} {startsOn : DayOfWeek} {d date : Date}
    {l : List Date} (h : (label.keyOf startsOn d).dates = some l) (hdate : date ∈ l) :
    label.keyOf startsOn date = label.keyOf startsOn d := by
  cases label with
  | daily | frequencyCalendarDay =>
    cases h
    rw [mem_singleton.mp hdate]
  | weekly | frequencyCalendarWeek =>
    obtain ⟨start, hst, hdts⟩ := Option.bind_eq_some_iff.mp h
    obtain ⟨i, hi, heq⟩ := Option.exists_of_mem_mapM hdts hdate
    have hst := Date.ofDay_eq_some hst
    have heq := Date.ofDay_eq_some heq
    have hi := mem_range.mp hi
    refine congrArg week ?_
    rw [Date.weekKey_eq] at hst ⊢
    rw [Date.weekKey_eq]
    omega
  | monthly | frequencyCalendarMonth =>
    obtain ⟨i, -, heq⟩ := Option.exists_of_mem_mapM h hdate
    obtain ⟨hyear, hmon, -⟩ := Date.ofCalendar_eq_some heq
    simp only [BucketLabel.keyOf, hyear, hmon]

end BucketKey

/-! ### The members of a calendar rule -/

/-- The label, the target and the weekdays of a calendar rule. -/
def calendarRule : Recurrence → Option (BucketLabel × UInt16 × Finset DayOfWeek)
  | .daily timesPerDay => some (.daily, timesPerDay, ∅)
  | .weekly timesPerWeek weekdays => some (.weekly, timesPerWeek, weekdays)
  | .monthly timesPerMonth => some (.monthly, timesPerMonth, ∅)
  | .frequency target .day .calendar weekdays _ _ => some (.frequencyCalendarDay, target, weekdays)
  | .frequency target .week .calendar weekdays _ _ =>
    some (.frequencyCalendarWeek, target, weekdays)
  | .frequency target .month .calendar weekdays _ _ =>
    some (.frequencyCalendarMonth, target, weekdays)
  | _ => none

/-- The members of a calendar rule on the given days. -/
inductive CalendarMember (days : List ZonedDayBoundary) (startsOn : DayOfWeek)
    (label : BucketLabel) (target : UInt16) (weekdays : Finset DayOfWeek) (spacing : Minutes) :
    Member → Prop
  | mk (day : ZonedDayBoundary) (dates : List Date) (ordinal : ℕ) (hday : day ∈ days)
      (hdts : (label.keyOf startsOn day.localDate).dates = some dates)
      (hord : ordinal < target.toNat)
      (hpl : (onWeekdays weekdays dates)[
        ordinal * (onWeekdays weekdays dates).length / target.toNat]? = some day.localDate) :
      CalendarMember days startsOn label target weekdays spacing
        (calendarMember label target spacing (label.keyOf startsOn day.localDate)
          (onWeekdays weekdays dates).length day ordinal)

section

variable {env : Externals} {request : PlanRequest} {item : WorkItem} {rule : Recurrence}
  {days : List ZonedDayBoundary} {label : BucketLabel} {target : UInt16}
  {weekdays : Finset DayOfWeek} {dates : List Date} {day : ZonedDayBoundary}
  {groups : List (BucketKey × List ZonedDayBoundary)}

/-- The buckets of a label that contain a resolved day. -/
def calendarGroups (request : PlanRequest) (days : List ZonedDayBoundary) (label : BucketLabel)
    (weekdays : Finset DayOfWeek) :
    Except RecurrenceError (List (BucketKey × List ZonedDayBoundary)) :=
  match label with
  | .daily | .frequencyCalendarDay => .ok (dayGroups days weekdays)
  | .weekly | .frequencyCalendarWeek =>
    completeWeekGroups request days request.recurrenceContext.calendar.weekStartsOn weekdays
  | .monthly | .frequencyCalendarMonth => monthGroups request days weekdays

lemma expandSeries_calendar (hrule : calendarRule rule = some (label, target, weekdays)) :
    expandSeries env request item rule days = (calendarGroups request days label weekdays).map
        (expandCalendarBuckets env request item.id label target (minimumSpacing request item)) := by
  unfold calendarRule at hrule
  split at hrule <;> cases hrule <;> rfl

lemma localDate_resolvedBoundary (date : Date) :
    (resolvedBoundary request days date).localDate = date := by
  unfold resolvedBoundary
  split
  · rename_i day hday
    simpa using find?_some hday
  · rfl

/-- The day of a date, if the dates are distinct. -/
lemma find?_localDate (hnd : (days.map localDate).Nodup) (hday : day ∈ days) :
    days.find? (fun other => other.localDate = day.localDate) = some day := by
  cases hfind : days.find? fun other => other.localDate = day.localDate with
  | none =>
    have := find?_eq_none.mp hfind day hday
    simp at this
  | some other =>
    exact congrArg some (inj_on_of_nodup_map hnd (mem_of_find?_eq_some hfind) hday
      (by simpa using find?_some hfind))

lemma resolvedBoundary_eq (hnd : (days.map localDate).Nodup) (hday : day ∈ days) :
    resolvedBoundary request days day.localDate = day := by
  rw [resolvedBoundary, find?_localDate hnd hday]

/-- A date without a boundary stands for an empty day. -/
lemma resolvedBoundary_mem_or (date : Date) : resolvedBoundary request days date ∈ days ∨
      (resolvedBoundary request days date).start = (resolvedBoundary request days date).finish := by
  unfold resolvedBoundary
  split
  · rename_i day hday
    exact .inl (mem_of_find?_eq_some hday)
  · exact .inr rfl

lemma sortedDays_map_resolvedBoundary (h : dates.Pairwise (· < ·)) :
    sortedDays (dates.map (resolvedBoundary request days)) =
      dates.map (resolvedBoundary request days) := by
  refine sortBy_eq_self _ (pairwise_map.mpr (h.imp fun {a b} hab => ?_))
  rw [compareOn, localDate_resolvedBoundary, localDate_resolvedBoundary]
  exact Int.isLE_compare.mpr hab.le

lemma pairwise_onWeekdays (h : dates.Pairwise (· < ·)) :
    (onWeekdays weekdays dates).Pairwise (· < ·) :=
  h.sublist filter_sublist

section

variable (hnd : (days.map localDate).Nodup)
  (h : calendarGroups request days label weekdays = .ok groups)

include hnd h

/-- A bucket that is expanded belongs to a resolved day. -/
lemma exists_of_mem_calendarGroups {bucket : BucketKey × List ZonedDayBoundary}
    (hbkt : bucket ∈ groups) :
    ∃ d ∈ days, bucket.1 = label.keyOf request.recurrenceContext.calendar.weekStartsOn d.localDate ∧
      ∃ dates, bucket.1.dates = some dates ∧
        bucket.2 = (onWeekdays weekdays dates).map (resolvedBoundary request days) := by
  cases label with
  | daily | frequencyCalendarDay =>
    cases h
    obtain ⟨d, hd, rfl⟩ := mem_map.mp hbkt
    obtain ⟨hd, hallow⟩ := mem_filter.mp hd
    refine ⟨d, hd, rfl, [d.localDate], rfl, ?_⟩
    rw [onWeekdays, filter_cons, if_pos hallow, filter_nil, map_singleton,
      resolvedBoundary_eq hnd hd]
  | weekly | frequencyCalendarWeek | monthly | frequencyCalendarMonth =>
    obtain ⟨key, hkey, heq⟩ := Except.exists_of_mem_mapM h hbkt
    obtain ⟨d, hd, rfl⟩ := mem_map.mp ((mem_sortBy _).mp (mem_dedupBy_beq.mp hkey))
    try dsimp only at heq
    split at heq
    · cases heq
    · rename_i dates hdts
      cases heq
      exact ⟨d, hd, rfl, dates, hdts, rfl⟩

/-- The bucket of a resolved day is expanded, unless it has no eligible date. -/
lemma mem_calendarGroups {d : ZonedDayBoundary} (hd : d ∈ days) {key : BucketKey}
    (hkey : label.keyOf request.recurrenceContext.calendar.weekStartsOn d.localDate = key)
    (hdts : key.dates = some dates) (hne : onWeekdays weekdays dates ≠ []) :
    (key, (onWeekdays weekdays dates).map (resolvedBoundary request days)) ∈ groups := by
  subst hkey
  cases label with
  | daily | frequencyCalendarDay =>
    cases h
    cases hdts
    rw [onWeekdays, filter_cons, filter_nil] at hne ⊢
    split_ifs at hne ⊢ with hallow
    · rw [map_singleton, resolvedBoundary_eq hnd hd]
      exact mem_map.mpr ⟨d, mem_filter.mpr ⟨hd, hallow⟩, rfl⟩
    · exact absurd rfl hne
  | weekly | frequencyCalendarWeek =>
    obtain ⟨bucket, heq, hmem⟩ := Except.exists_mem_of_mapM h (a := d.localDate.weekKey
      request.recurrenceContext.calendar.weekStartsOn)
      (mem_dedupBy_beq.mpr ((mem_sortBy _).mpr (mem_map_of_mem hd)))
    simp only [BucketLabel.keyOf, BucketKey.dates] at hdts
    rw [hdts] at heq
    cases heq
    exact hmem
  | monthly | frequencyCalendarMonth =>
    obtain ⟨bucket, heq, hmem⟩ := Except.exists_mem_of_mapM h
      (mem_dedupBy_beq.mpr ((mem_sortBy _).mpr (mem_map_of_mem hd)))
    simp only [BucketLabel.keyOf, BucketKey.dates] at hdts
    dsimp only at heq
    rw [hdts] at heq
    cases heq
    exact hmem

end

/-- **The occurrences of a calendar rule** are its members that meet the horizon. -/
theorem mem_calendarSeries (hrule : calendarRule rule = some (label, target, weekdays))
    (hnd : (days.map localDate).Nodup) {l : List Occurrence}
    (h : expandSeries env request item rule days = .ok l) {o : Occurrence} :
    o ∈ l ↔ ∃ m, CalendarMember days request.recurrenceContext.calendar.weekStartsOn label target
      weekdays (minimumSpacing request item) m ∧ m.Meets request ∧
        o = m.occurrence env request item.id := by
  rw [expandSeries_calendar hrule, Except.map_eq_ok] at h
  obtain ⟨groups, hgroups, rfl⟩ := h
  rw [expandCalendarBuckets, mem_flatMap]
  constructor
  · rintro ⟨⟨key, bucket⟩, hbkt, ho⟩
    obtain ⟨d, hd, hkey, dates, hdts, rfl⟩ := exists_of_mem_calendarGroups hnd hgroups hbkt
    dsimp only at hkey hdts
    have hsort := BucketKey.pairwise_dates hdts
    obtain ⟨ordinal, hord, day, hday, hmt, rfl⟩ := mem_expandBucket.mp ho
    rw [length_map] at hday hmt ⊢
    rw [sortedDays_map_resolvedBoundary (pairwise_onWeekdays hsort), getElem?_map,
      Option.map_eq_some_iff] at hday
    obtain ⟨date, hpl, rfl⟩ := hday
    have hdate := mem_of_mem_filter (mem_of_getElem? hpl)
    have hloc : (resolvedBoundary request days date).localDate = date :=
      localDate_resolvedBoundary date
    -- a day that is not given is empty, and nothing on it meets the horizon
    have hmem : resolvedBoundary request days date ∈ days := by
      refine (resolvedBoundary_mem_or date).resolve_right fun hemp => ?_
      have hn := Nat.zero_lt_of_lt (List.getElem?_eq_some_iff.mp hpl).1
      have hmem := @bucketInterval_mem (resolvedBoundary request days date) _ _
        (minimumSpacing request item) (by rw [hemp])
        (Share.position_lt_count (x := ordinal) hn (Nat.zero_lt_of_lt hord))
      have hlt := (Member.meets_iff.mp hmt).1
      rw [hemp] at hmem
      exact absurd (hmem.2.trans hmem.1) (not_le_of_gt hlt)
    have hsame : key = label.keyOf request.recurrenceContext.calendar.weekStartsOn
        (resolvedBoundary request days date).localDate := by
      rw [hloc, hkey]
      rw [hkey] at hdts
      exact (BucketKey.keyOf_eq_of_mem_dates hdts hdate).symm
    subst hsame
    exact ⟨_, .mk _ dates ordinal hmem hdts hord (by rw [hloc]; exact hpl), hmt, rfl⟩
  · rintro ⟨m, hm, hmt, rfl⟩
    obtain ⟨day, dates, ordinal, hday, hdts, hord, hpl⟩ := hm
    have hne : onWeekdays weekdays dates ≠ [] := by
      rintro hnil
      rw [hnil] at hpl
      cases hpl
    refine ⟨_, mem_calendarGroups hnd hgroups hday rfl hdts hne, mem_expandBucket.mpr ?_⟩
    rw [length_map]
    refine ⟨ordinal, hord, day, ?_, hmt, rfl⟩
    rw [sortedDays_map_resolvedBoundary (pairwise_onWeekdays (BucketKey.pairwise_dates hdts)),
      getElem?_map, hpl, Option.map_some, resolvedBoundary_eq hnd hday]

end

end DayWeave
