import DayWeave.Recurrence.Scan

/-!
What the dates of a custom rule are.

`IsOccurrence` says without a computation when a date belongs to a rule. A scan finds exactly
these dates, in order, up to where it stops (`scan_isScan`): at the final date, or with the last
date that is counted. `custom_dates_exact` adds the numbers of the dates.
-/

namespace DayWeave

open List

namespace CustomRecurrenceRule

variable {rule : CustomRecurrenceRule} {anchor through date : Date} {startsOn : DayOfWeek}
  {target : Option UInt32}

/-- The number of the week of a date, weeks starting on the given day. -/
def weekNumber (startsOn : DayOfWeek) (date : Date) : Int :=
  (date.day + 3 - startsOn.numberDaysFromMonday) / 7

/-- The days, weeks or months from the anchor to a date. -/
def elapsed (frequency : CustomFrequency) (startsOn : DayOfWeek) (anchor date : Date) : Int :=
  match frequency with
  | .daily => date.day - anchor.day
  | .weekly => weekNumber startsOn date - weekNumber startsOn anchor
  | .monthly => date.monthIndex - anchor.monthIndex

/-- The day of the month of a date, counted from its end: the last day is `-1`. -/
def dayFromEnd (date : Date) : Int := date.dayOfMonth - monthLength date.year date.month - 1

/-- The dates that belong to a rule, apart from its end. -/
structure IsOccurrence (rule : CustomRecurrenceRule) (anchor : Date) (startsOn : DayOfWeek)
    (date : Date) : Prop where
  anchor_le : anchor ≤ date
  interval : (rule.interval.toNat : Int) ∣ elapsed rule.frequency startsOn anchor date
  weekday : date.weekday ∈ rule.byDay ∨
    rule.byDay = ∅ ∧ (rule.frequency = .weekly → date.weekday = anchor.weekday)
  monthDay : ((date.dayOfMonth : Int) ∈ rule.byMonthDay ∨ dayFromEnd date ∈ rule.byMonthDay) ∨
    rule.byMonthDay = ∅ ∧ (rule.frequency = .monthly → rule.byDay = ∅ →
      date.dayOfMonth = anchor.dayOfMonth)

/-- Weeks are counted by the days on which they start. -/
lemma weekKey_sub (anchor date : Date) :
    Int.tdiv (date.weekKey startsOn - anchor.weekKey startsOn) 7 =
      weekNumber startsOn date - weekNumber startsOn anchor := by
  have hmul : date.weekKey startsOn - anchor.weekKey startsOn =
      (weekNumber startsOn date - weekNumber startsOn anchor) * 7 := by
    rw [Date.weekKey_eq, Date.weekKey_eq, weekNumber, weekNumber]
    omega
  rw [hmul, Int.mul_tdiv_cancel _ (by decide)]

lemma interval_iff : (match rule.frequency with
    | .daily => decide ((date.toJulianDay - anchor.toJulianDay) % (rule.interval.toNat : Int) = 0)
    | .weekly => decide (Int.tdiv (date.weekKey startsOn - anchor.weekKey startsOn) 7 %
        (rule.interval.toNat : Int) = 0)
    | .monthly =>
        decide ((date.monthIndex - anchor.monthIndex) % (rule.interval.toNat : Int) = 0)) = true ↔
      (rule.interval.toNat : Int) ∣ elapsed rule.frequency startsOn anchor date := by
  rw [Int.dvd_iff_emod_eq_zero]
  cases rule.frequency with
  | daily =>
    rw [decide_eq_true_eq, elapsed, Date.toJulianDay, Date.toJulianDay, Int.add_sub_add_right]
  | weekly => rw [decide_eq_true_eq, weekKey_sub, elapsed]
  | monthly => rw [decide_eq_true_eq, elapsed]

lemma matchesDate_iff :
    rule.matchesDate anchor date startsOn = true ↔ rule.IsOccurrence anchor startsOn date := by
  unfold matchesDate
  simp only [Bool.and_eq_true, decide_eq_true_eq]
  constructor
  · rintro ⟨⟨⟨hanchor, hint⟩, hwday⟩, hmday⟩
    refine ⟨hanchor, interval_iff.mp hint, ?_, ?_⟩
    · by_cases hemp : rule.byDay = ∅
      · simp only [hemp, if_true, decide_eq_true_eq] at hwday
        exact .inr ⟨hemp, fun h => hwday.resolve_left (not_not.mpr h)⟩
      · simp only [hemp, if_false, decide_eq_true_eq] at hwday
        exact .inl hwday
    · by_cases hemp : rule.byMonthDay = ∅
      · simp only [hemp, if_true, decide_eq_true_eq] at hmday
        exact .inr ⟨hemp, fun h h' =>
          (hmday.resolve_left (not_not.mpr h)).resolve_left (not_not.mpr h')⟩
      · simp only [hemp, if_false, decide_eq_true_eq] at hmday
        exact .inl hmday
  · rintro ⟨hanchor, hint, hwday, hmday⟩
    refine ⟨⟨⟨hanchor, interval_iff.mpr hint⟩, ?_⟩, ?_⟩
    · rcases hwday with hmem | ⟨hemp, hsame⟩
      · rw [if_neg (Finset.ne_empty_of_mem hmem), decide_eq_true_eq]
        exact hmem
      · rw [if_pos hemp, decide_eq_true_eq]
        by_cases hweekly : rule.frequency = .weekly
        · exact .inr (hsame hweekly)
        · exact .inl hweekly
    · rcases hmday with hmem | ⟨hemp, hsame⟩
      · have hne := hmem.elim Finset.ne_empty_of_mem Finset.ne_empty_of_mem
        rw [if_neg hne, decide_eq_true_eq]
        exact hmem
      · rw [if_pos hemp, decide_eq_true_eq]
        by_cases hmonthly : rule.frequency = .monthly
        · by_cases hday : rule.byDay = ∅
          · exact .inr (.inr (hsame hmonthly hday))
          · exact .inr (.inl hday)
        · exact .inl hmonthly

/-- The dates found by a scan that starts at a date: they belong to the rule and ascend, and
the dates that belong to the rule and are not found come after all that are found and, if the
scan does not count, after the last day. -/
structure IsScan (rule : CustomRecurrenceRule) (anchor : Date) (startsOn : DayOfWeek)
    (target : Option UInt32) (start : Date) (last : Int) (dates : List Date) : Prop where
  sound : ∀ date ∈ dates, rule.IsOccurrence anchor startsOn date ∧ start ≤ date ∧ date.day ≤ last
  ascending : dates.Pairwise (· < ·)
  before : ∀ date, rule.IsOccurrence anchor startsOn date → start ≤ date → date ∉ dates →
    ∀ found ∈ dates, found < date
  complete : target = none → ∀ date, rule.IsOccurrence anchor startsOn date → start ≤ date →
    date.day ≤ last → date ∈ dates

lemma map_snd_found (hit : Bool) (date : Date) (count : UInt32) :
    (found hit date maxDate count).map Prod.snd = if hit then [date] else [] := by
  have : date ≤ maxDate := date.le_max
  cases hit <;> simp [found, this]

section

variable {start next : Date} {last : Int} {dates : List Date} {hit : Bool}

lemma isScan_single (hhit : rule.matchesDate anchor start startsOn = hit)
    (hstop : target = none → last = start.day) (hlast : start.day ≤ last) :
    rule.IsScan anchor startsOn target start last (if hit then [start] else []) := by
  cases hit with
  | true =>
    refine ⟨fun date hdate => ?_, pairwise_singleton _ _, fun date _ hle hnot other hoth => ?_,
      fun htgt date _ hle hday => ?_⟩
    · cases mem_singleton.mp hdate
      exact ⟨matchesDate_iff.mp hhit, le_rfl, hlast⟩
    · cases mem_singleton.mp hoth
      exact lt_of_le_of_ne hle fun heq => hnot (mem_singleton.mpr heq.symm)
    · rw [hstop htgt] at hday
      exact mem_singleton.mpr (le_antisymm hday hle)
  | false =>
    refine ⟨fun date hdate => (not_mem_nil hdate).elim, List.Pairwise.nil,
      fun _ _ _ _ other hoth => (not_mem_nil hoth).elim,
      fun htgt date hocc hle hday => ?_⟩
    rw [hstop htgt] at hday
    obtain rfl : date = start := le_antisymm hday hle
    rw [matchesDate_iff.mpr hocc] at hhit
    cases hhit

lemma IsScan.cons (hhit : rule.matchesDate anchor start startsOn = hit)
    (hnext : next.day = start.day + 1) (hlast : start.day ≤ last)
    (h : rule.IsScan anchor startsOn target next last dates) :
    rule.IsScan anchor startsOn target start last ((if hit then [start] else []) ++ dates) := by
  have hlat : ∀ date, next ≤ date → start < date := fun date hdate => by
    rw [Date.lt_def]
    rw [Date.le_def] at hdate
    omega
  -- A date from the start on that belongs to the rule is the start or comes later.
  have hcases : ∀ date, rule.IsOccurrence anchor startsOn date → start ≤ date →
      (date = start ∧ hit = true) ∨ next ≤ date := by
    intro date hocc hle
    rcases hle.eq_or_lt with rfl | hlt
    · exact .inl ⟨rfl, hhit.symm.trans (matchesDate_iff.mpr hocc)⟩
    · rw [Date.lt_def] at hlt
      exact .inr (by rw [Date.le_def]; omega)
  refine ⟨fun date hdate => ?_, ?_, fun date hocc hle hnot other hoth => ?_,
    fun htgt date hocc hle hday => ?_⟩
  · rcases mem_append.mp hdate with hdate | hdate
    · split_ifs at hdate with htrue
      · cases mem_singleton.mp hdate
        exact ⟨matchesDate_iff.mp (hhit.trans htrue), le_rfl, hlast⟩
      · cases hdate
    · obtain ⟨hocc, hle, hday⟩ := h.sound date hdate
      exact ⟨hocc, (hlat date hle).le, hday⟩
  · split_ifs
    · exact pairwise_cons.mpr ⟨fun date hdate => hlat date (h.sound date hdate).2.1, h.ascending⟩
    · exact h.ascending
  · rcases hcases date hocc hle with ⟨rfl, htrue⟩ | hle
    · exact absurd (by simp [htrue]) hnot
    · rcases mem_append.mp hoth with hoth | hoth
      · split_ifs at hoth
        · cases mem_singleton.mp hoth
          exact hlat date hle
        · cases hoth
      · exact h.before date hocc hle (fun hmem => hnot (mem_append_right _ hmem)) other hoth
  · rcases hcases date hocc hle with ⟨rfl, htrue⟩ | hle
    · simp [htrue]
    · exact mem_append_right _ (h.complete htgt date hocc hle hday)

end

lemma nextDay_eq_some {next : Date} (h : date.nextDay = some next) : next.day = date.day + 1 :=
  Date.ofDay_eq_some h

variable {days : ℕ} {l : List (UInt32 × Date)} {all : List (UInt32 × Date)} {count : UInt32}

lemma scan_isScan (h : rule.scan anchor maxDate startsOn target days date count = .ok l) :
    rule.IsScan anchor startsOn target date (date.day + days) (l.map Prod.snd) := by
  induction days generalizing date count l with
  | zero =>
    have hsingle : rule.IsScan anchor startsOn target date (date.day + (0 : ℕ))
        ((found (rule.matchesDate anchor date startsOn) date maxDate count).map Prod.snd) := by
      rw [map_snd_found]
      exact isScan_single rfl (fun _ => Int.add_zero _) (by simp)
    simp only [scan_zero, Except.ite_error_eq_ok] at h
    obtain ⟨-, h⟩ := h
    split at h
    · cases h
      exact hsingle
    · obtain ⟨-, -, rfl⟩ := Except.map_eq_ok.mp h
      exact hsingle
  | succ days ih =>
    have hlast : date.day ≤ date.day + (days + 1 : ℕ) := by omega
    simp only [scan_succ, Except.ite_error_eq_ok] at h
    obtain ⟨-, h⟩ := h
    split at h
    · next hrch =>
        cases h
        rw [map_snd_found]
        exact isScan_single rfl (fun hnone => by rw [hnone] at hrch; cases hrch.2) hlast
    · split at h
      · cases h
      · next next hnext =>
          obtain ⟨rest, hrest, rfl⟩ := Except.map_eq_ok.mp h
          have hday := nextDay_eq_some hnext
          have htail := ih hrest
          rw [show next.day + (days : Int) = date.day + (days + 1 : ℕ) by omega] at htail
          rw [map_append, map_snd_found]
          exact htail.cons rfl hday hlast

/-- A scan that counts stops with the number that it was to reach. -/
lemma length_scan {n : UInt32} (hcnt : count.toNat ≤ 10000)
    (h : rule.scan anchor maxDate startsOn (some n) days date count = .ok l) :
    count.toNat + l.length = n.toNat := by
  induction days generalizing date count l with
  | zero =>
    simp only [scan_zero, Except.ite_error_eq_ok] at h
    obtain ⟨hbudget, h⟩ := h
    split at h
    · next hrch =>
        cases h
        rw [Option.some.inj hrch.2, (toNat_nextCount date hcnt hbudget).1]
    · obtain ⟨_, hval, -⟩ := Except.map_eq_ok.mp h
      simp only [validateScanResult, Option.isSome_some, if_true] at hval
      split at hval <;> cases hval
  | succ days ih =>
    simp only [scan_succ, Except.ite_error_eq_ok] at h
    obtain ⟨hbudget, h⟩ := h
    obtain ⟨hsum, hle⟩ := toNat_nextCount date hcnt hbudget
    split at h
    · next hrch =>
        cases h
        rw [Option.some.inj hrch.2, hsum]
    · split at h
      · cases h
      · obtain ⟨rest, hrest, rfl⟩ := Except.map_eq_ok.mp h
        have := ih hle hrest
        rw [length_append]
        omega

lemma eq_zipIdx_of_numbered (h : all.map (fun entry => entry.1.toNat) = List.range' 0 all.length) :
    all = (all.map Prod.snd).zipIdx.map fun entry => (UInt32.ofNat entry.2, entry.1) := by
  refine ext_getElem? fun i => ?_
  rw [getElem?_map, getElem?_zipIdx, getElem?_map]
  cases hent : all[i]? with
  | none => rfl
  | some entry =>
    simp [← toNat_eq_of_numbered h hent]

/-- **The dates of a custom rule.** The numbered dates up to a day are the places and entries
of the list of all dates that are not after the day. The list ascends. If the rule counts, it
consists of the first dates that belong to the rule, as many as are counted; otherwise of all
those that are not after the final date. -/
theorem custom_dates_exact {dates : List Date} {entries : List (UInt32 × Date)}
    (hall : rule.allOccurrenceDates anchor startsOn = .ok dates)
    (h : rule.occurrenceDatesThrough anchor through startsOn = .ok entries) :
    entries = (dates.zipIdx.filter fun entry => decide (entry.1 ≤ through)).map
        (fun entry => (UInt32.ofNat entry.2, entry.1)) ∧
      dates.Pairwise (· < ·) ∧
      match rule.termination with
      | .count n => dates.length = n.toNat ∧
          (∀ date ∈ dates, rule.IsOccurrence anchor startsOn date) ∧
          ∀ date, rule.IsOccurrence anchor startsOn date → date ∉ dates →
            ∀ found ∈ dates, found < date
      | .untilDate final =>
        ∀ date, date ∈ dates ↔ rule.IsOccurrence anchor startsOn date ∧ date ≤ final := by
  obtain ⟨all, hthrough, rfl⟩ := Except.map_eq_ok.mp hall
  obtain ⟨⟨final, target⟩, hbds, hscan⟩ := Except.bind_eq_ok.mp hthrough
  have hnumbered := eq_zipIdx_of_numbered (map_fst_scan (by decide) hscan)
  have hdts := scan_isScan hscan
  refine ⟨?_, hdts.ascending, ?_⟩
  · rw [occurrenceDatesThrough_eq, hthrough] at h
    cases h
    conv_lhs => rw [hnumbered]
    rw [filter_map]
    rfl
  · unfold searchBounds at hbds
    cases htermination : rule.termination with
    | count n =>
      rw [htermination] at hbds
      dsimp only at hbds ⊢
      split at hbds
      · cases hbds
        have hlen := length_scan (by decide) hscan
        simp only [UInt32.toNat_zero, Nat.zero_add] at hlen
        refine ⟨by rw [length_map, hlen], fun date hdate => (hdts.sound date hdate).1,
          fun date hocc => hdts.before date hocc hocc.anchor_le⟩
      · cases hbds
    | untilDate =>
      rw [htermination] at hbds
      simp only [Except.ite_error_eq_ok] at hbds ⊢
      obtain ⟨hanchor, -, heq⟩ := hbds
      cases heq
      -- the scan looks at all days up to the final date
      have hlast : anchor.day + ((final.day - anchor.day).toNat : Int) = final.day := by
        rw [Date.lt_def] at hanchor
        omega
      rw [hlast] at hdts
      intro date
      constructor
      · intro hdate
        obtain ⟨hocc, -, hday⟩ := hdts.sound date hdate
        exact ⟨hocc, hday⟩
      · rintro ⟨hocc, hday⟩
        exact hdts.complete rfl date hocc hocc.anchor_le hday

/-- Every other day of three, from 2026-11-02 to 2026-11-04. -/
def everyOtherDay : CustomRecurrenceRule where
  frequency := .daily
  interval := 2
  byDay := ∅
  byMonthDay := ∅
  termination := .untilDate ⟨20761, by decide, by decide⟩

theorem custom_dates_exact_everyOtherDay :
    everyOtherDay.occurrenceDatesThrough ⟨20759, by decide, by decide⟩
        ⟨20760, by decide, by decide⟩ .monday = .ok [(0, ⟨20759, by decide, by decide⟩)] ∧
      everyOtherDay.IsOccurrence ⟨20759, by decide, by decide⟩ .monday
        ⟨20761, by decide, by decide⟩ := by
  have hall : everyOtherDay.allOccurrenceDates ⟨20759, by decide, by decide⟩ .monday =
      .ok [⟨20759, by decide, by decide⟩, ⟨20761, by decide, by decide⟩] := by rfl
  have hthrough : everyOtherDay.occurrenceDatesThrough ⟨20759, by decide, by decide⟩
      ⟨20760, by decide, by decide⟩ .monday = .ok [(0, ⟨20759, by decide, by decide⟩)] := by rfl
  exact ⟨hthrough, (((custom_dates_exact hall hthrough).2.2 _).mp (by simp)).1⟩

end CustomRecurrenceRule

end DayWeave
