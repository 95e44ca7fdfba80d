import DayWeave.Calendar
import DayWeave.Habits.Policy
import DayWeave.Lib.Keyed

/-!
The analytics of a habit.

Occurrences that meet a pause may be taken out of the statistics. The analytics sort the pauses,
join those that touch, and go through pauses and occurrences in one pass; what they find is what
a look at all pauses finds (`pause_protection_exact`).
-/

open List Std

namespace DayWeave

open Except (bind_eq_ok checkAll mapError_eq_ok require require_eq_ok)
open OffsetDateTime (atSecond le_def lt_def)

/-! ### Inputs -/

/-- How a pause affects the statistics of an occurrence. -/
inductive HabitOccurrenceEligibility where
  | eligible
  | pausedProtected
  | pausedUnprotected
deriving DecidableEq

/-- Whether the occurrence meets a pause, and whether pauses protect. -/
def eligibilityOf : Bool → Bool → HabitOccurrenceEligibility
  | false, _ => .eligible
  | true, true => .pausedProtected
  | true, false => .pausedUnprotected

/-- An occurrence against a list of pauses. -/
def habitOccurrenceEligibility (windowStart windowEnd : OffsetDateTime)
    (pauses : List HabitPauseInterval) (preservesStatisticsWhenPaused : Bool) :
    Except HabitPolicyError HabitOccurrenceEligibility := do
  validateWindow windowStart windowEnd
  checkAll HabitPauseInterval.validate pauses
  .ok (eligibilityOf (pauses.any fun pause => pause.overlaps windowStart windowEnd)
    preservesStatisticsWhenPaused)

/-- An expected occurrence with what is recorded about it. -/
structure HabitAnalyticsOccurrence where
  occurrenceId : OccurrenceId
  localDate : Date
  windowStart : OffsetDateTime
  windowEnd : OffsetDateTime
  value : HabitOccurrenceValue

/-- What the analytics are about. -/
structure HabitAnalyticsInput where
  rangeStart : Date
  rangeEnd : Date
  asOf : OffsetDateTime
  preservesStatisticsWhenPaused : Bool
  pauses : List HabitPauseInterval
  occurrences : List HabitAnalyticsOccurrence

inductive HabitAnalyticsError where
  | invalidRange
  | rangeTooLarge
  | tooManyOccurrences
  | tooManyPauses
  | invalidOccurrenceId
  | duplicateOccurrence (id : OccurrenceId)
  | invalidOutcome (reason : HabitOccurrenceError)
  | policy (reason : HabitPolicyError)
  | arithmeticOverflow
  | calendarOverflow
deriving DecidableEq

/-- The checks of one occurrence, after those with the given identities. -/
def checkAnalyticsOccurrence (asOf : OffsetDateTime) (identities : List OccurrenceId)
    (occurrence : HabitAnalyticsOccurrence) : Except HabitAnalyticsError (List OccurrenceId) := do
  require (¬ occurrence.occurrenceId.uuid.isNil) .invalidOccurrenceId
  require (occurrence.occurrenceId ∉ identities) (.duplicateOccurrence occurrence.occurrenceId)
  (validateWindow occurrence.windowStart occurrence.windowEnd).mapError .policy
  (occurrence.value.validate asOf).mapError .invalidOutcome
  .ok (occurrence.occurrenceId :: identities)

variable (input : HabitAnalyticsInput) (effectiveEnd : Date)

def validateAnalyticsInput : Except HabitAnalyticsError Unit := do
  require (¬ input.rangeEnd < input.rangeStart) .invalidRange
  require (input.rangeEnd.toJulianDay - input.rangeStart.toJulianDay + 1 ≤ 36600) .rangeTooLarge
  require (input.occurrences.length ≤ 1000000) .tooManyOccurrences
  require (input.pauses.length ≤ 100000) .tooManyPauses
  (checkAll HabitPauseInterval.validate input.pauses).mapError .policy
  let _ ← input.occurrences.foldlM (checkAnalyticsOccurrence input.asOf) []
  .ok ()

/-! ### One pass -/

/-- A pause that goes on until both are over. -/
def HabitPauseInterval.extend (last pause : HabitPauseInterval) : HabitPauseInterval :=
  { last with
    finish := match last.finish, pause.finish with
      | some left, some right => some (if right < left then left else right)
      | _, _ => none }

/-- The next pause is joined with the last one if they touch. -/
def mergePause (merged : List HabitPauseInterval) (pause : HabitPauseInterval) :
    List HabitPauseInterval :=
  match merged.getLast? with
  | none => [pause]
  | some last =>
    if last.finish.all fun finish => pause.start ≤ finish then
      merged.dropLast ++ [last.extend pause]
    else merged ++ [pause]

/-- The pauses in order, with those that touch joined. -/
def mergedPauses (pauses : List HabitPauseInterval) : List HabitPauseInterval :=
  (sortBy (compareLex (compareOn HabitPauseInterval.start) (compareOn HabitPauseInterval.finish))
    pauses).foldl mergePause []

/-- The occurrence is in the range and its window has closed. -/
def HabitAnalyticsInput.isDue (occurrence : HabitAnalyticsOccurrence) : Bool :=
  input.rangeStart ≤ occurrence.localDate ∧ occurrence.localDate ≤ effectiveEnd ∧
    occurrence.windowEnd ≤ input.asOf

/-- The next occurrence: pauses that are over are left behind for good, and the first of the rest
decides. -/
def classifyNext (preserves : Bool)
    (s : List HabitPauseInterval × ExtTreeMap OccurrenceId HabitOccurrenceEligibility)
    (occurrence : HabitAnalyticsOccurrence) :
    List HabitPauseInterval × ExtTreeMap OccurrenceId HabitOccurrenceEligibility :=
  let rest := s.1.dropWhile fun pause =>
    pause.finish.any fun finish => finish ≤ occurrence.windowStart
  let overlaps := rest.head?.any fun pause =>
    pause.overlaps occurrence.windowStart occurrence.windowEnd
  (rest, s.2.insert occurrence.occurrenceId (eligibilityOf overlaps preserves))

/-- The eligibility of every occurrence that is due. -/
def analyticsEligibilities : ExtTreeMap OccurrenceId HabitOccurrenceEligibility :=
  ((sortBy (compareLex (compareOn HabitAnalyticsOccurrence.windowStart)
    (compareLex (compareOn HabitAnalyticsOccurrence.windowEnd)
      (compareOn HabitAnalyticsOccurrence.occurrenceId)))
    (input.occurrences.filter (input.isDue effectiveEnd))).foldl
      (classifyNext input.preservesStatisticsWhenPaused) (mergedPauses input.pauses, ∅)).2

/-! ### Joined pauses -/

lemma pairwise_sortBy_first {α : Type*} (f : α → OffsetDateTime) {cmp : α → α → Ordering}
    [TransCmp cmp] {l : List α} :
    (sortBy (compareLex (compareOn f) cmp) l).Pairwise fun a b => f a ≤ f b :=
  (pairwise_sortBy (compareLex (compareOn f) cmp) l).imp fun h =>
    Int.isLE_compare.mp (Ordering.isLE_left_of_isLE_then h)

section

variable {pauses merged rest : List HabitPauseInterval} {last pause : HabitPauseInterval}
  {start finish : OffsetDateTime}

lemma overlaps_extend (hst : last.start ≤ pause.start)
    (htouch : last.finish.all fun finish => pause.start ≤ finish) (hlt : start < finish) :
    (last.extend pause).overlaps start finish =
      (last.overlaps start finish || pause.overlaps start finish) := by
  obtain ⟨lastStart, lastEnd⟩ := last
  obtain ⟨pauseStart, pauseEnd⟩ := pause
  rw [Bool.eq_iff_iff]
  cases lastEnd <;> cases pauseEnd <;>
    simp [HabitPauseInterval.overlaps, HabitPauseInterval.extend, le_def, lt_def] at *
  · omega
  · omega
  · omega
  · split_ifs <;> omega

/-- A list of pauses in order that covers the same time as another one. -/
structure Merges (pauses merged : List HabitPauseInterval) : Prop where
  any_overlaps : ∀ ⦃start finish : OffsetDateTime⦄, start < finish →
    (merged.any fun pause => pause.overlaps start finish) =
      pauses.any fun pause => pause.overlaps start finish
  sorted : (merged.map HabitPauseInterval.start).Pairwise (· ≤ ·)
  starts : merged.map HabitPauseInterval.start ⊆ pauses.map HabitPauseInterval.start

/-- **One more pause**, which does not start before the others. -/
lemma Merges.mergePause (h : Merges pauses merged)
    (hlast : ∀ t ∈ pauses.map (·.start), t ≤ pause.start) :
    Merges (pauses ++ [pause]) (mergePause merged pause) := by
  have happend : Merges (pauses ++ [pause]) (merged ++ [pause]) := by
    refine ⟨fun start finish hlt => ?_, ?_, ?_⟩
    · rw [any_append, any_append, h.any_overlaps hlt]
    · rw [map_append, pairwise_append]
      exact ⟨h.sorted, pairwise_singleton _ _, fun a ha b hb =>
        mem_singleton.mp hb ▸ hlast a (h.starts ha)⟩
    · rw [map_append, map_append]
      exact append_subset.mpr ⟨subset_append_of_subset_left _ h.starts, subset_append_right _ _⟩
  obtain rfl | ⟨init, last, rfl⟩ := eq_nil_or_concat' merged
  · exact happend
  unfold DayWeave.mergePause
  rw [getLast?_concat, dropLast_concat]
  dsimp only
  split_ifs with htouch
  · have hst : last.start ≤ pause.start := hlast _ (h.starts (by simp))
    have hstarts : (init ++ [last.extend pause]).map (·.start) =
        (init ++ [last]).map (·.start) := by
      simp [HabitPauseInterval.extend]
    refine ⟨fun start finish hlt => ?_, hstarts ▸ h.sorted, ?_⟩
    · rw [any_append, any_append, ← h.any_overlaps hlt, any_append]
      simp [overlaps_extend hst htouch hlt, Bool.or_assoc]
    · rw [hstarts]
      exact Subset.trans h.starts (map_subset _ (subset_append_left _ _))
  · exact happend

/-- **Joined pauses** are in order and cover the time of the pauses. -/
lemma merges_mergedPauses (pauses : List HabitPauseInterval) :
    Merges pauses (mergedPauses pauses) := by
  have hrun : ∀ l : List HabitPauseInterval, (l.map (·.start)).Pairwise (· ≤ ·) →
      Merges l (l.foldl DayWeave.mergePause []) := by
    intro l
    induction l using reverseRecOn with
    | nil => exact fun _ => ⟨fun _ _ _ => rfl, .nil, Subset.refl _⟩
    | append_singleton l pause ih =>
      intro hsort
      rw [map_append, pairwise_append] at hsort
      rw [foldl_append]
      exact (ih hsort.1).mergePause fun t ht => hsort.2.2 t ht _ (mem_singleton_self _)
  have h := hrun (sortBy (compareLex (compareOn HabitPauseInterval.start)
    (compareOn HabitPauseInterval.finish)) pauses) (pairwise_map.mpr (pairwise_sortBy_first _))
  exact ⟨fun start finish hlt => (h.any_overlaps hlt).trans (sortBy_perm _ pauses).any_eq, h.sorted,
    Subset.trans h.starts ((sortBy_perm _ pauses).map _).subset⟩

/-! ### The pass -/

/-- A pause that is over meets no later window. -/
lemma overlaps_eq_false {windowStart : OffsetDateTime} (hle : windowStart ≤ start)
    (h : pause.finish.any fun finish => finish ≤ windowStart) :
    pause.overlaps start finish = false := by
  obtain ⟨pauseStart, pauseEnd⟩ := pause
  cases pauseEnd <;> simp [HabitPauseInterval.overlaps, le_def, lt_def] at *
  omega

/-- **The first pause that is not over decides**, as the pauses are in order. -/
lemma head_overlaps (hsort : (rest.map (·.start)).Pairwise (· ≤ ·)) :
    ((rest.dropWhile fun pause => pause.finish.any fun finish => finish ≤ start).head?.any
      fun pause => pause.overlaps start finish) =
        rest.any fun pause => pause.overlaps start finish := by
  induction rest with
  | nil => rfl
  | cons pause rest ih =>
    obtain ⟨hfst, hrest⟩ := pairwise_cons.mp hsort
    rw [dropWhile_cons, any_cons]
    split_ifs with hover
    · rw [ih hrest, overlaps_eq_false (Preorder.le_refl start) hover, Bool.false_or]
    · rw [head?_cons, Option.any_some, Bool.eq_iff_iff, Bool.or_eq_true, any_eq_true]
      refine ⟨.inl, Or.rec (fun h => h) ?_⟩
      rintro ⟨later, hlat, hoverlaps⟩
      have hle := hfst _ (mem_map_of_mem hlat)
      obtain ⟨pauseStart, pauseEnd⟩ := pause
      cases pauseEnd <;> simp [HabitPauseInterval.overlaps, le_def, lt_def] at * <;> omega

section

variable {occurrences : List HabitAnalyticsOccurrence} {occurrence : HabitAnalyticsOccurrence}
  {preserves : Bool} {known : ExtTreeMap OccurrenceId HabitOccurrenceEligibility}

/-- Other occurrences leave an eligibility alone. -/
lemma classified_of_notMem {id : OccurrenceId}
    (h : id ∉ occurrences.map (·.occurrenceId)) :
    (occurrences.foldl (classifyNext preserves) (rest, known)).2[id]? = known[id]? := by
  induction occurrences generalizing rest known with
  | nil => rfl
  | cons other occurrences ih =>
    rw [map_cons, mem_cons, not_or] at h
    rw [foldl_cons, classifyNext, ih h.2, ExtTreeMap.getElem?_insert,
      if_neg fun heq => h.1 (LawfulEqOrd.eq_of_compare heq).symm]

/-- **The pass over the occurrences** finds for each of them what a look at all pauses finds. -/
lemma classified (hwindows : occurrences.Pairwise fun a b => a.windowStart ≤ b.windowStart)
    (hnd : (occurrences.map (·.occurrenceId)).Nodup)
    (hsort : (rest.map (·.start)).Pairwise (· ≤ ·))
    (hmem : occurrence ∈ occurrences) :
    (occurrences.foldl (classifyNext preserves) (rest, known)).2[occurrence.occurrenceId]? =
      some (eligibilityOf (rest.any fun pause =>
        pause.overlaps occurrence.windowStart occurrence.windowEnd) preserves) := by
  induction occurrences generalizing rest known with
  | nil => cases hmem
  | cons first occurrences ih =>
    obtain ⟨hfst, hwindows⟩ := pairwise_cons.mp hwindows
    rw [map_cons, nodup_cons] at hnd
    rw [foldl_cons, classifyNext]
    rcases mem_cons.mp hmem with rfl | hmem
    · rw [classified_of_notMem hnd.1, ExtTreeMap.getElem?_insert_self, head_overlaps hsort]
    · -- the pauses that are left behind are over, so they meet no later window
      rw [ih hwindows hnd.2 (hsort.sublist ((dropWhile_sublist _).map _)) hmem,
        any_dropWhile fun pause => overlaps_eq_false (hfst _ hmem)]

end

end

variable {input effectiveEnd} {occurrence : HabitAnalyticsOccurrence}

lemma checkAnalyticsOccurrence_eq_ok {asOf : OffsetDateTime} {identities next : List OccurrenceId} :
    checkAnalyticsOccurrence asOf identities occurrence = .ok next ↔
      (¬ occurrence.occurrenceId.uuid.isNil ∧
        validateWindow occurrence.windowStart occurrence.windowEnd = .ok () ∧
        occurrence.value.validate asOf = .ok ()) ∧
      occurrence.occurrenceId ∉ identities ∧ next = occurrence.occurrenceId :: identities := by
  simp only [checkAnalyticsOccurrence, bind_eq_ok, require_eq_ok, mapError_eq_ok]
  constructor
  · rintro ⟨⟨⟩, hnil, ⟨⟩, hnew, ⟨⟩, hwin, ⟨⟩, hvl, ⟨⟩⟩
    exact ⟨⟨hnil, hwin, hvl⟩, hnew, rfl⟩
  · rintro ⟨⟨hnil, hwin, hvl⟩, hnew, rfl⟩
    exact ⟨(), hnil, (), hnew, (), hwin, (), hvl, rfl⟩

lemma validateAnalyticsInput_cases (h : validateAnalyticsInput input = .ok ()) :
    checkAll HabitPauseInterval.validate input.pauses = .ok () ∧ (∀ occurrence ∈ input.occurrences,
        validateWindow occurrence.windowStart occurrence.windowEnd = .ok () ∧
          occurrence.value.validate input.asOf = .ok ()) ∧
      (input.occurrences.map (·.occurrenceId)).Nodup := by
  simp only [validateAnalyticsInput, bind_eq_ok, mapError_eq_ok] at h
  obtain ⟨⟨⟩, -, ⟨⟩, -, ⟨⟩, -, ⟨⟩, -, ⟨⟩, hpaus, identities, hrun, -⟩ := h
  have hcases : (∃ next, input.occurrences.foldlM (checkAnalyticsOccurrence input.asOf) [] =
      .ok next) ↔ _ := Keyed.foldlM_seen_eq_ok fun _ _ _ => checkAnalyticsOccurrence_eq_ok
  obtain ⟨hgood, hnd⟩ := hcases.mp ⟨identities, hrun⟩
  exact ⟨hpaus, fun occurrence hmem => (hgood occurrence hmem).2, hnd⟩

/-- **Pause protection is exact.** -/
theorem pause_protection_exact (h : validateAnalyticsInput input = .ok ())
    (hmem : occurrence ∈ input.occurrences) (hdue : input.isDue effectiveEnd occurrence = true) :
    ∃ eligibility, habitOccurrenceEligibility occurrence.windowStart occurrence.windowEnd
        input.pauses input.preservesStatisticsWhenPaused = .ok eligibility ∧
      (analyticsEligibilities input effectiveEnd)[occurrence.occurrenceId]? = some eligibility := by
  obtain ⟨hpaus, hchecked, hnd⟩ := validateAnalyticsInput_cases h
  have hwin := (hchecked occurrence hmem).1
  obtain ⟨hany, hsort, -⟩ := merges_mergedPauses input.pauses
  refine ⟨eligibilityOf ((mergedPauses input.pauses).any fun pause =>
    pause.overlaps occurrence.windowStart occurrence.windowEnd)
    input.preservesStatisticsWhenPaused, ?_, ?_⟩
  · simp only [habitOccurrenceEligibility, bind_eq_ok]
    exact ⟨(), hwin, (), hpaus, by rw [hany (require_eq_ok.mp hwin)]⟩
  · refine classified (pairwise_sortBy_first _) ?_ hsort ((mem_sortBy _).mpr
      (mem_filter.mpr ⟨hmem, hdue⟩))
    exact ((sortBy_perm _ _).map _).nodup_iff.mpr (hnd.sublist (filter_sublist.map _))

namespace Sample

/-- An hour of a habit on the first day, with what is recorded about it. -/
def habitHour (id hour : ℕ) (value : HabitOccurrenceValue) : HabitAnalyticsOccurrence :=
  ⟨⟨Uuid.ofNat id⟩, (atSecond 0).date, .atSecond (3600 * hour),
    .atSecond (3600 * (hour + 1)), value⟩

/-- Four hours of a habit with pauses that overlap, touch and do not end. -/
def pausedHabit : HabitAnalyticsInput where
  rangeStart := (atSecond 0).date
  rangeEnd := (atSecond 0).date
  asOf := .atSecond 86399
  preservesStatisticsWhenPaused := true
  pauses := [⟨.atSecond 20000, none⟩, ⟨.atSecond 3000, some (.atSecond 3600)⟩,
    ⟨.atSecond 0, some (.atSecond 1800)⟩, ⟨.atSecond 1800, some (.atSecond 3300)⟩]
  occurrences := [habitHour 4 6 {}, habitHour 3 3 {}, habitHour 2 1 {}, habitHour 1 0 {}]

end Sample

open Sample

/-- The second hour starts when the joined pauses are over. -/
theorem pause_protection_exact_pausedHabit :
    (analyticsEligibilities pausedHabit pausedHabit.rangeEnd)[(⟨Uuid.ofNat 2⟩ : OccurrenceId)]? =
      some .eligible := by
  obtain ⟨eligibility, helig, hfnd⟩ := @pause_protection_exact pausedHabit
    pausedHabit.rangeEnd (habitHour 2 1 {}) (by decide +kernel) (by simp [pausedHabit])
    (by decide +kernel)
  cases (show habitOccurrenceEligibility _ _ _ _ = .ok .eligible by decide +kernel).symm.trans helig
  exact hfnd

end DayWeave
