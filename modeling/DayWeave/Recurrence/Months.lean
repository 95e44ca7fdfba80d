import DayWeave.Recurrence.Days
import DayWeave.Recurrence.Rolling

/-!
The members of rolling monthly rules.

The months that follow the anchor are the cycles of the rule, and every cycle is cut into as many
parts as the rule has occurrences (`monthMember`). Cycles are weeks apart (`cycleSpan_lt`); the
expansion passes over those that are over when the horizon starts (`mem_expandRollingMonths`).
-/

namespace DayWeave

open Duration (second)
open List

open Except (bind_eq_ok)

open OffsetDateTime (le_def lt_def nanos_later nanos_of_checkedAdd not_lt_iff)

variable {env : Externals} {request : PlanRequest} {item : WorkItem} {days : List ZonedDayBoundary}
  {anchor : OffsetDateTime} {cycle : Int} {span : Span} {target : UInt16} {spacing : Minutes}

/-! ### Months -/

lemma addMonths_eq_some {date result : Date} {offset : Int}
    (h : addMonths date offset = some result) :
    result.monthIndex = date.monthIndex + offset ∧ result.dayOfMonth = min date.dayOfMonth
        (monthLength ((date.monthIndex + offset) / 12)
        (((date.monthIndex + offset) % 12).toNat + 1)) := by
  obtain ⟨hyear, hmon, hday, -⟩ := Date.ofCalendar_eq_some h
  refine ⟨?_, hday⟩
  rw [Date.monthIndex, hyear, hmon]
  omega

/-- Later cycles start at least four weeks later. -/
lemma addMonths_add_le {date a b : Date} {i j : Int} (hij : i < j) (ha : addMonths date i = some a)
    (hb : addMonths date j = some b) : a.day + 28 ≤ b.day := by
  obtain ⟨haindex, haday⟩ := addMonths_eq_some ha
  obtain ⟨hbindex, hbday⟩ := addMonths_eq_some hb
  have hastart := a.day_eq_monthStart_add
  have hbstart := b.day_eq_monthStart_add
  rw [haindex] at hastart
  rw [hbindex] at hbstart
  have hmono := monthStart_mono (show date.monthIndex + i + 1 ≤ date.monthIndex + j by omega)
  have hsucc := monthStart_succ (date.monthIndex + i)
  have hlen := monthLength_bounds ((date.monthIndex + i) / 12)
    (((date.monthIndex + i) % 12).toNat + 1)
  have hlength' := monthLength_bounds ((date.monthIndex + j) / 12)
    (((date.monthIndex + j) % 12).toNat + 1)
  omega

/-! ### Boundaries -/

/-- The greatest distance of the start of a date from its midnight at Greenwich. -/
def boundaryTolerance : Int := 179999 * second

section

/-- A date starts near its midnight at Greenwich. -/
lemma boundaryInstant_bounds (request : PlanRequest) (hdays : ∀ day ∈ days, IsLocalDay day)
    (date : Date) :
    date.day * Duration.day - boundaryTolerance ≤ (boundaryInstant request days date).nanos ∧
      (boundaryInstant request days date).nanos ≤ date.day * Duration.day + boundaryTolerance := by
  unfold boundaryInstant
  split
  · rename_i day hday
    have hloc := (hdays day (mem_of_find?_eq_some hday)).start_bounds
    have hdate : day.localDate = date := by simpa using find?_some hday
    rw [hdate] at hloc
    simp only [boundaryTolerance, Duration.day, second] at hloc ⊢
    omega
  · split
    · rename_i day hday
      have hloc := (hdays day (mem_of_find?_eq_some hday)).finish_bounds
      have hnext : day.localDate.nextDay = some date := by simpa using find?_some hday
      have hnext := Date.nextDay_eq_some hnext
      simp only [boundaryTolerance, Duration.day, second] at hloc ⊢
      omega
    · have hge := request.horizonStart.offset_ge
      have hle := request.horizonStart.offset_le
      rw [nanos_midnight]
      simp only [boundaryTolerance, Duration.day, second]
      omega

def cycleSpan (request : PlanRequest) (days : List ZonedDayBoundary) (anchor : OffsetDateTime)
    (cycle : Int) : Option Span := do
  let startDate ← addMonths anchor.date cycle
  let endDate ← addMonths anchor.date (cycle + 1)
  some ⟨boundaryInstant request days startDate, boundaryInstant request days endDate⟩

lemma cycleSpan_eq_some : cycleSpan request days anchor cycle = some span ↔
      ∃ startDate endDate, addMonths anchor.date cycle = some startDate ∧
        addMonths anchor.date (cycle + 1) = some endDate ∧
        span = ⟨boundaryInstant request days startDate, boundaryInstant request days endDate⟩ := by
  simp [cycleSpan, Option.bind_eq_some_iff, eq_comm (a := span)]

lemma cycleSpan_length (hdays : ∀ day ∈ days, IsLocalDay day)
    (h : cycleSpan request days anchor cycle = some span) :
    span.start.nanos + 20 * Duration.day ≤ span.finish.nanos := by
  obtain ⟨startDate, endDate, hst, hend, rfl⟩ := cycleSpan_eq_some.mp h
  have hgap := addMonths_add_le (Int.lt_succ cycle) hst hend
  have hlow := boundaryInstant_bounds request hdays startDate
  have hhigh := boundaryInstant_bounds request hdays endDate
  simp only [boundaryTolerance, Duration.day, second] at hlow hhigh ⊢
  omega

lemma cycleSpan_lt (hdays : ∀ day ∈ days, IsLocalDay day) {i j : Int} {a b : Span} (hij : i < j)
    (ha : cycleSpan request days anchor i = some a)
    (hb : cycleSpan request days anchor j = some b) :
    a.start < b.start := by
  obtain ⟨startDate, -, hst, -, rfl⟩ := cycleSpan_eq_some.mp ha
  obtain ⟨startDate', -, hstart', -, rfl⟩ := cycleSpan_eq_some.mp hb
  have hgap := addMonths_add_le hij hst hstart'
  have hlow := boundaryInstant_bounds request hdays startDate
  have hhigh := boundaryInstant_bounds request hdays startDate'
  rw [lt_def]
  simp only [boundaryTolerance, Duration.day, second] at hlow hhigh ⊢
  omega

end

/-! ### Parts of a cycle -/

/-- The member of a rolling monthly rule with the given cycle and part. -/
def monthMember (request : PlanRequest) (days : List ZonedDayBoundary) (anchor : OffsetDateTime)
    (target : UInt16) (spacing : Minutes) (cycle : Int) (index : ℕ) : Option Member := do
  let span ← cycleSpan request days anchor cycle
  let nominal ← cycleInterval span index target.toNat spacing
  some ⟨"frequency-rolling-month:" ++ toString anchor.nanos ++ ":" ++ toString target.toNat ++
    ":" ++ toString cycle ++ ":" ++ toString index, .rollingMonth cycle (UInt16.ofNat index) anchor,
    nominal, none⟩

section

variable {index : ℕ} {m : Member} {n : ℕ} {nominal : Span}

lemma monthMember_eq_some : monthMember request days anchor target spacing cycle index = some m ↔
    ∃ span nominal, cycleSpan request days anchor cycle = some span ∧
      cycleInterval span index target.toNat spacing = some nominal ∧
      m = ⟨"frequency-rolling-month:" ++ toString anchor.nanos ++ ":" ++ toString target.toNat ++
        ":" ++ toString cycle ++ ":" ++ toString index,
        .rollingMonth cycle (UInt16.ofNat index) anchor, nominal, none⟩ := by
  simp [monthMember, Option.bind_eq_some_iff, eq_comm (a := m)]

lemma nanos_cyclePart {t : OffsetDateTime} (hspan : span.start.nanos ≤ span.finish.nanos)
    (h : cyclePart span index n = some t) :
    t.nanos = span.start.nanos + (span.finish.nanos - span.start.nanos) * index / n := by
  obtain ⟨-, -, ht⟩ := OffsetDateTime.checkedPart_eq_some.mp h
  rw [nanos_of_checkedAdd ht, Int.tdiv_eq_ediv_of_nonneg]
  · rfl
  · exact Int.mul_nonneg (Int.sub_nonneg_of_le hspan) (Int.natCast_nonneg _)

lemma cycleInterval_eq_some :
    cycleInterval span index n spacing = some nominal ↔ ∃ start natural finish,
      (if index = 0 then some span.start else cyclePart span index n) = some start ∧
      (if index + 1 = n then some span.finish else cyclePart span (index + 1) n) = some natural ∧
      occurrenceEndWithSpacing start natural spacing = some finish ∧ nominal = ⟨start, finish⟩ := by
  unfold cycleInterval
  split_ifs <;> simp [Option.bind_eq_some_iff, eq_comm (a := nominal)]

/-- The ends of a part are fractions of its cycle, but for the spacing. -/
lemma nanos_cycleInterval (hspan : span.start.nanos ≤ span.finish.nanos) (hidx : index < n)
    (h : cycleInterval span index n spacing = some nominal) :
    nominal.start.nanos = span.start.nanos + (span.finish.nanos - span.start.nanos) * index / n ∧
      nominal.finish.nanos =
        max (span.start.nanos + (span.finish.nanos - span.start.nanos) * (index + 1 : ℕ) / n)
          (nominal.start.nanos + spacing.toDuration) := by
  obtain ⟨start, natural, finish, hst, hnat, hfin, rfl⟩ := cycleInterval_eq_some.mp h
  have hn : (0 : Int) < n := by omega
  have hstN : start.nanos =
      span.start.nanos + (span.finish.nanos - span.start.nanos) * index / n := by
    split_ifs at hst with hzero
    · cases hst
      simp [hzero]
    · exact nanos_cyclePart hspan hst
  have hnaturalNanos : natural.nanos =
      span.start.nanos + (span.finish.nanos - span.start.nanos) * (index + 1 : ℕ) / n := by
    split_ifs at hnat with hlast
    · cases hnat
      rw [hlast, Int.mul_ediv_cancel _ hn.ne']
      omega
    · exact nanos_cyclePart hspan hnat
  obtain ⟨spaced, hspaced, rfl⟩ := Option.map_eq_some_iff.mp hfin
  refine ⟨hstN, ?_⟩
  rw [nanos_later, hnaturalNanos, nanos_of_checkedAdd hspaced]

/-- A part starts in its cycle and does not end before it starts. -/
lemma cycleInterval_bounds (hspan : span.start.nanos + n ≤ span.finish.nanos) (hidx : index < n)
    (h : cycleInterval span index n spacing = some nominal) :
    span.start ≤ nominal.start ∧ nominal.start < nominal.finish := by
  have hn : (0 : Int) < n := by omega
  obtain ⟨hst, hfin⟩ := nanos_cycleInterval (by omega) hidx h
  generalize hlen : span.finish.nanos - span.start.nanos = length at *
  have hlow : 0 ≤ length * index / n :=
    Int.ediv_nonneg (Int.mul_nonneg (by omega) (Int.natCast_nonneg _)) hn.le
  -- a part is not shorter than a nanosecond
  have hstep : length * index / n < length * (index + 1 : ℕ) / n := by
    have hadd : length * index + n ≤ length * (index + 1 : ℕ) := by
      push_cast
      rw [Int.mul_add, Int.mul_one]
      omega
    have := Int.ediv_le_ediv hn hadd
    rw [Int.add_ediv_of_dvd_right ⟨1, (Int.mul_one _).symm⟩, Int.ediv_self hn.ne'] at this
    omega
  refine ⟨le_def.mpr (by rw [hst]; omega), lt_def.mpr ?_⟩
  rw [hfin]
  exact lt_max_of_lt_left (by omega)

lemma monthMember_bounds (hdays : ∀ day ∈ days, IsLocalDay day) (hidx : index < target.toNat)
    (h : monthMember request days anchor target spacing cycle index = some m) :
    ∃ span, cycleSpan request days anchor cycle = some span ∧ span.start ≤ m.nominal.start ∧
      m.nominal.start < m.nominal.finish := by
  obtain ⟨span, nominal, hspan, hnom, rfl⟩ := monthMember_eq_some.mp h
  have hlen := cycleSpan_length hdays hspan
  have htgt := target.toNat_lt
  refine ⟨span, hspan, cycleInterval_bounds ?_ hidx hnom⟩
  simp only [Duration.day] at hlen
  omega

end

/-! ### One cycle after the other -/

/-- The cycle at which the expansion starts: the month before that of the first day. -/
def firstCycle (request : PlanRequest) (days : List ZonedDayBoundary) (anchor : OffsetDateTime) :
    Int :=
  let firstDate := (days.head?.map ZonedDayBoundary.localDate).getD request.horizonStart.date
  max (firstDate.monthIndex - anchor.date.monthIndex - 1) 0

section

variable {l : List Occurrence} {s s' : Int × List Occurrence}

lemma mem_expandCycle (hspan : cycleSpan request days anchor cycle = some span)
    (h : expandCycle env request item anchor target spacing cycle span = .ok l) :
    (l.map (·.identity)).Nodup ∧ ∀ o, o ∈ l ↔ ∃ index < target.toNat, ∃ m,
      monthMember request days anchor target spacing cycle index = some m ∧
      m.nominal.start < request.horizonEnd ∧ request.horizonStart < m.nominal.finish ∧
      o = m.occurrence env request item.id := by
  obtain ⟨intervals, hintervals, h⟩ := bind_eq_ok.mp h
  cases h
  have hall := Except.mapM_eq_ok.mp hintervals
  have hindices : intervals.map Prod.fst = List.range target.toNat := by
    refine (hall.map_eq fun a b hab => ?_).trans (map_id _)
    obtain ⟨nominal, -, rfl⟩ := Option.map_eq_some_iff.mp (inRange_eq_ok.mp hab)
    rfl
  have hmb : ∀ entry : ℕ × Span, entry ∈ intervals ↔
      entry.1 < target.toNat ∧ cycleInterval span entry.1 target.toNat spacing = some entry.2 := by
    intro entry
    constructor
    · intro hent
      obtain ⟨index, hidx, heq⟩ := hall.exists_left hent
      obtain ⟨nominal, hnom, rfl⟩ := Option.map_eq_some_iff.mp (inRange_eq_ok.mp heq)
      exact ⟨mem_range.mp hidx, hnom⟩
    · rintro ⟨hidx, hnom⟩
      obtain ⟨other, hoth, heq⟩ := hall.exists_right (mem_range.mpr hidx)
      rw [inRange_eq_ok, hnom] at heq
      cases heq
      exact hoth
  refine ⟨?_, fun o => ?_⟩
  · -- the parts of a cycle differ in their indices
    have hnd := hindices ▸ nodup_range
    rw [List.Nodup, pairwise_map, pairwise_filterMap]
    refine (pairwise_map.mp hnd).imp_of_mem fun {a b} ha hb hne o ho o' ho' heq => hne ?_
    obtain ⟨⟨ha, -⟩, hb, -⟩ := And.intro ((hmb a).mp ha) ((hmb b).mp hb)
    simp only [Option.ite_none_right_eq_some] at ho ho'
    rw [← Option.some.inj ho.2, ← Option.some.inj ho'.2] at heq
    have htgt := target.toNat_lt
    have hidx := (RecurrenceOccurrenceIdentity.rollingMonth.inj heq).2.1
    have := congrArg UInt16.toNat hidx
    rwa [UInt16.toNat_ofNat_of_lt' (by simp only [UInt16.size]; omega),
      UInt16.toNat_ofNat_of_lt' (by simp only [UInt16.size]; omega)] at this
  · rw [mem_filterMap]
    constructor
    · rintro ⟨⟨index, nominal⟩, hent, ho⟩
      obtain ⟨hidx, hnom⟩ := (hmb _).mp hent
      obtain ⟨hmt, ho⟩ := Option.ite_none_right_eq_some.mp ho
      cases ho
      exact ⟨index, hidx, _, monthMember_eq_some.mpr ⟨span, nominal, hspan, hnom, rfl⟩,
        hmt.1, hmt.2, rfl⟩
    · rintro ⟨index, hidx, m, hm, hst, hfin, rfl⟩
      obtain ⟨span', nominal, hspan', hnom, rfl⟩ := monthMember_eq_some.mp hm
      cases hspan.symm.trans hspan'
      exact ⟨(index, nominal), (hmb _).mpr ⟨hidx, hnom⟩, if_pos ⟨hst, hfin⟩⟩

/-- What holds in every round of the expansion from the cycle `first` on. -/
structure CyclesExpanded (env : Externals) (request : PlanRequest) (item : WorkItem)
    (anchor : OffsetDateTime) (target : UInt16) (spacing : Minutes) (days : List ZonedDayBoundary)
    (first : Int) (s : Int × List Occurrence) : Prop where
  first_le : first ≤ s.1
  nodup : (s.2.map Occurrence.identity).Nodup
  mem_iff : ∀ o, o ∈ s.2 ↔ ∃ cycle span index m, first ≤ cycle ∧ cycle < s.1 ∧
    cycleSpan request days anchor cycle = some span ∧ request.horizonStart < span.finish ∧
    index < target.toNat ∧ monthMember request days anchor target spacing cycle index = some m ∧
    m.nominal.start < request.horizonEnd ∧ request.horizonStart < m.nominal.finish ∧
    o = m.occurrence env request item.id

lemma rollingMonthStep_eq_some
    (h : rollingMonthStep env request item anchor target spacing days s = .ok (some s')) :
    s.1 < maxIndex ∧ ∃ span, cycleSpan request days anchor s.1 = some span ∧ s'.1 = s.1 + 1 ∧
      ((request.horizonStart < span.finish ∧ ∃ l,
        expandCycle env request item anchor target spacing s.1 span = .ok l ∧ s'.2 = s.2 ++ l) ∨
        (span.finish ≤ request.horizonStart ∧ s'.2 = s.2)) := by
  simp only [rollingMonthStep, bind_eq_ok, nextIndex_eq_ok, inRange_eq_ok] at h
  obtain ⟨startDate, hst, _, ⟨hlt, rfl⟩, endDate, hend, h⟩ := h
  refine ⟨hlt, _, cycleSpan_eq_some.mpr ⟨startDate, endDate, hst, hend, rfl⟩, ?_⟩
  split_ifs at h with _ hmt
  · cases h
  · obtain ⟨l, hl, h⟩ := bind_eq_ok.mp h
    cases h
    exact ⟨rfl, .inl ⟨hmt, l, hl, rfl⟩⟩
  · cases h
    exact ⟨rfl, .inr ⟨not_lt_iff.mp hmt, rfl⟩⟩

lemma rollingMonthStep_eq_none
    (h : rollingMonthStep env request item anchor target spacing days s = .ok none) :
    ∃ span, cycleSpan request days anchor s.1 = some span ∧ request.horizonEnd ≤ span.start := by
  simp only [rollingMonthStep, bind_eq_ok, nextIndex_eq_ok, inRange_eq_ok] at h
  obtain ⟨startDate, hst, _, ⟨-, rfl⟩, endDate, hend, h⟩ := h
  refine ⟨_, cycleSpan_eq_some.mpr ⟨startDate, endDate, hst, hend, rfl⟩, ?_⟩
  split_ifs at h with hlast
  · exact hlast
  · simp at h
  · cases h

lemma identity_of_monthMember {index : ℕ} {m : Member}
    (h : monthMember request days anchor target spacing cycle index = some m) :
    m.identity = .rollingMonth cycle (UInt16.ofNat index) anchor := by
  obtain ⟨span, nominal, -, -, rfl⟩ := monthMember_eq_some.mp h
  rfl

lemma CyclesExpanded.step {first : Int}
    (hs : CyclesExpanded env request item anchor target spacing days first s)
    (h : rollingMonthStep env request item anchor target spacing days s = .ok (some s')) :
    CyclesExpanded env request item anchor target spacing days first s' := by
  obtain ⟨-, span, hspan, hnext, ⟨hmt, l, hl, heq⟩ | ⟨hover, heq⟩⟩ := rollingMonthStep_eq_some h
  · obtain ⟨hnd, hmem⟩ := mem_expandCycle hspan hl
    have hfst := hs.first_le
    refine ⟨by omega, ?_, fun o => ?_⟩
    · rw [heq, map_append, nodup_append]
      refine ⟨hs.nodup, hnd, ?_⟩
      intro a ha b hb hab
      obtain ⟨o, ho, rfl⟩ := mem_map.mp ha
      obtain ⟨o', ho', rfl⟩ := mem_map.mp hb
      obtain ⟨cycle, -, index, m, -, hcyc, -, -, -, hm, -, -, rfl⟩ := (hs.mem_iff o).mp ho
      obtain ⟨index', -, m', hm', -, -, rfl⟩ := (hmem o').mp ho'
      have hident : m.identity = m'.identity := hab
      rw [identity_of_monthMember hm, identity_of_monthMember hm'] at hident
      have := (RecurrenceOccurrenceIdentity.rollingMonth.inj hident).1
      omega
    · rw [heq, mem_append, hs.mem_iff, hmem, hnext]
      constructor
      · rintro (⟨cycle, span', index, m, hfst, hlast, hrest⟩ | ⟨index, hidx, m, hm, hrest⟩)
        · exact ⟨cycle, span', index, m, hfst, by omega, hrest⟩
        · exact ⟨s.1, span, index, m, hfst, by omega, hspan, hmt, hidx, hm, hrest⟩
      · rintro ⟨cycle, span', index, m, hfst, hlast, hspan', hmeets', hidx, hm, hrest⟩
        by_cases hcyc : cycle = s.1
        · subst hcyc
          exact .inr ⟨index, hidx, m, hm, hrest⟩
        · exact .inl ⟨cycle, span', index, m, hfst, by omega, hspan', hmeets', hidx, hm, hrest⟩
  · -- the cycle is over when the horizon starts
    have hfst := hs.first_le
    refine ⟨by omega, by rw [heq]; exact hs.nodup, fun o => ?_⟩
    rw [heq, hs.mem_iff, hnext]
    constructor
    · rintro ⟨cycle, span', index, m, hfst, hlast, hrest⟩
      exact ⟨cycle, span', index, m, hfst, by omega, hrest⟩
    · rintro ⟨cycle, span', index, m, hfst, hlast, hspan', hmeets', hrest⟩
      refine ⟨cycle, span', index, m, hfst, ?_, hspan', hmeets', hrest⟩
      by_contra hge
      have hcyc : cycle = s.1 := by omega
      subst hcyc
      cases hspan.symm.trans hspan'
      exact absurd hover (not_le_of_gt hmeets')

/-- **The expansion of a rolling monthly rule** returns the parts that meet the horizon of
all cycles from the first one on that are not over when the horizon starts. -/
theorem mem_expandRollingMonths (hdays : ∀ day ∈ days, IsLocalDay day)
    (h : expandRollingMonths env request item anchor target spacing days = .ok l) :
    (l.map (·.identity)).Nodup ∧
      ∀ o, o ∈ l ↔ ∃ cycle span index m, firstCycle request days anchor ≤ cycle ∧
        cycleSpan request days anchor cycle = some span ∧ request.horizonStart < span.finish ∧
        index < target.toNat ∧
        monthMember request days anchor target spacing cycle index = some m ∧
        m.nominal.start < request.horizonEnd ∧ request.horizonStart < m.nominal.finish ∧
        o = m.occurrence env request item.id := by
  obtain ⟨final, hfnl, h⟩ := bind_eq_ok.mp h
  cases h
  have hexp : CyclesExpanded env request item anchor target spacing days
      (firstCycle request days anchor) final := by
    refine Loop.runE_invariant _ (fun s s' hs hi => hi.step hs) hfnl ⟨le_rfl, nodup_nil, ?_⟩
    intro o
    refine iff_of_false (fun ho => (nomatch ho)) ?_
    rintro ⟨cycle, -, -, -, hfst, hlast, -⟩
    exact absurd (hfst.trans_lt hlast) (lt_irrefl _)
  have hstop := Loop.runE_stops _ (μ := fun s => (maxIndex - s.1).toNat) ?_ ?_ hfnl
  · obtain ⟨last, hlast, hend⟩ := rollingMonthStep_eq_none hstop
    refine ⟨hexp.nodup, fun o => ?_⟩
    rw [hexp.mem_iff]
    constructor
    · rintro ⟨cycle, span, index, m, hfst, -, hrest⟩
      exact ⟨cycle, span, index, m, hfst, hrest⟩
    · rintro ⟨cycle, span, index, m, hfst, hspan, hmt, hidx, hm, hst, hrest⟩
      refine ⟨cycle, span, index, m, hfst, ?_, hspan, hmt, hidx, hm, hst, hrest⟩
      -- the parts of later cycles start after the end of the horizon
      by_contra hge
      obtain ⟨span', hspan', hle, -⟩ := monthMember_bounds hdays hidx hm
      cases hspan.symm.trans hspan'
      have hlat : last.start ≤ span.start := by
        rcases Int.lt_or_eq_of_le (Int.not_lt.mp hge) with hlt | heq
        · exact (cycleSpan_lt hdays hlt hlast hspan).le
        · rw [heq] at hlast
          cases hlast.symm.trans hspan
          exact le_refl _
      exact absurd (hend.trans (hlat.trans hle)) (not_le_of_gt hst)
  · intro s s' hs
    obtain ⟨hlt, -, -, heq, -⟩ := rollingMonthStep_eq_some hs
    omega
  · have : 0 ≤ firstCycle request days anchor := le_max_right _ _
    have hfst : max ((((days.head?.map (·.localDate)).getD
        request.horizonStart.date).monthIndex - anchor.date.monthIndex - 1)) 0 =
        firstCycle request days anchor := rfl
    omega

end

end DayWeave
