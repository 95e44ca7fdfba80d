import DayWeave.Domain.Item
import DayWeave.Habits.Occurrence

/-!
Pauses and missed occurrences.

What is left undone when the window of a habit has closed is handled as the habit says. A skip
that this policy decides can be recorded at once, keeps what was recorded before, and the policy
leaves the occurrence alone from then on (`missed_skip_recordable`).
-/

namespace DayWeave

open Except (bind_eq_ok ite_error_eq_ok require_eq_ok)

/-- A stretch of time in which a habit rests; without an end it goes on. -/
structure HabitPauseInterval where
  start : OffsetDateTime
  finish : Option OffsetDateTime

inductive HabitPolicyError where
  | invalidOccurrenceWindow
  | invalidPauseInterval
  | invalidOutcome (reason : HabitOccurrenceError)
  | timestampOverflow
deriving DecidableEq

namespace HabitPauseInterval

variable (self : HabitPauseInterval)

/-- A pause is not empty. -/
def validate : Except HabitPolicyError Unit :=
  Except.require (¬ self.finish.any fun finish => finish ≤ self.start) .invalidPauseInterval

/-- Whether a pause meets a window. -/
def overlaps (start finish : OffsetDateTime) : Bool :=
  self.start < finish ∧ self.finish.all fun pauseEnd => start < pauseEnd

end HabitPauseInterval

/-- A window is not empty. -/
def validateWindow (windowStart windowEnd : OffsetDateTime) : Except HabitPolicyError Unit :=
  Except.require (windowStart < windowEnd) .invalidOccurrenceWindow

/-- Why nothing is to be done about an occurrence. -/
inductive HabitMissedNoActionReason where
  | windowOpen
  | paused
  | alreadyCompleted
  | alreadySkipped

/-- What is to be done about an occurrence. -/
inductive HabitMissedDecision where
  | noAction (reason : HabitMissedNoActionReason)
  | markSkipped (value : HabitOccurrenceValue)
  | carryForward (windowStart windowEnd : OffsetDateTime)
  | reduceFrequency (skipNextOccurrences : UInt16)
  | requestDecision

/-- The skip of an occurrence that keeps its evidence. -/
def HabitOccurrenceValue.skipped (reason : HabitSkipReason) (value : HabitOccurrenceValue)
    (occurredAt : OffsetDateTime) : HabitOccurrenceValue :=
  { value with outcome := .skipped reason, occurredAt := some occurredAt }

variable (policy : HabitMissedPolicy) (asOf windowStart windowEnd : OffsetDateTime)
  (value : HabitOccurrenceValue) (pauses : List HabitPauseInterval)

/-- What the policy says about an occurrence that was left undone. -/
def missedDecision : Except HabitPolicyError HabitMissedDecision :=
  match policy with
  | .skip => .ok (.markSkipped (value.skipped .missedPolicy asOf))
  | .carry =>
    match asOf.checkedAdd (windowEnd.since windowStart) with
    | some carriedEnd => .ok (.carryForward asOf carriedEnd)
    | none => .error .timestampOverflow
  | .reduceFrequency => .ok (.reduceFrequency 1)
  | .ask => .ok .requestDecision

/-- What is to be done about an occurrence at an instant. -/
def decideHabitMissedBehavior : Except HabitPolicyError HabitMissedDecision := do
  validateWindow windowStart windowEnd
  (value.validate asOf).mapError .invalidOutcome
  Except.checkAll HabitPauseInterval.validate pauses
  match value.outcome with
  | .completed => .ok (.noAction .alreadyCompleted)
  | .skipped _ => .ok (.noAction .alreadySkipped)
  | .pending | .inPart =>
    if pauses.any fun pause => pause.overlaps windowStart windowEnd then .ok (.noAction .paused)
    else if asOf < windowEnd then .ok (.noAction .windowOpen)
    else missedDecision policy asOf windowStart windowEnd value

section

variable {policy asOf windowStart windowEnd value pauses} {v : HabitOccurrenceValue}
  {record : HabitOccurrenceRecord}

lemma missedDecision_eq_markSkipped
    (h : missedDecision policy asOf windowStart windowEnd value = .ok (.markSkipped v)) :
    v = value.skipped .missedPolicy asOf := by
  unfold missedDecision at h
  split at h
  · cases h
    rfl
  · split at h <;> cases h
  all_goals cases h

lemma markSkipped_cases
    (h : decideHabitMissedBehavior policy asOf windowStart windowEnd value pauses =
      .ok (.markSkipped v)) :
    validateWindow windowStart windowEnd = .ok () ∧ value.validate asOf = .ok () ∧
      Except.checkAll HabitPauseInterval.validate pauses = .ok () ∧
      (value.outcome = .pending ∨ value.outcome = .inPart) ∧
      v = value.skipped .missedPolicy asOf := by
  simp only [decideHabitMissedBehavior, bind_eq_ok, Except.mapError_eq_ok] at h
  obtain ⟨⟨⟩, hwin, ⟨⟩, hvl, ⟨⟩, hpaus, h⟩ := h
  refine ⟨hwin, hvl, hpaus, ?_⟩
  cases hout : value.outcome <;> rw [hout] at h
  case completed | skipped => cases h
  all_goals
    split_ifs at h
    · cases h
    · cases h
    · exact ⟨by simp, missedDecision_eq_markSkipped h⟩

lemma validate_skipped (h : value.validate asOf = .ok ())
    (hopen : value.outcome = .pending ∨ value.outcome = .inPart) :
    (value.skipped .missedPolicy asOf).validate asOf = .ok () := by
  simp only [HabitOccurrenceValue.validate, bind_eq_ok] at h ⊢
  obtain ⟨_, hqty, _, hsecs, _, hnote, _, hprog, -⟩ := h
  refine ⟨_, hqty, _, hsecs, _, hnote, (), ?_, if_pos (le_refl asOf)⟩
  have hblw : value.progressBasisPoints < habitBasisPointsScale := by
    rcases hopen with hout | hout <;>
      simp only [HabitOccurrenceValue.validateProgress, hout, ite_error_eq_ok, not_or, not_not]
        at hprog
    · rw [hprog.1.1]
      decide
    · exact hprog.1.2
  exact if_neg (UInt16.not_le.mpr hblw)

/-- The skip keeps all evidence, so that it may be recorded. -/
lemma validateForwardRecord_skipped (hopen : value.outcome = .pending ∨ value.outcome = .inPart) :
    validateForwardRecord value (value.skipped .missedPolicy asOf) = .ok () := by
  have hkept : validateEvidencePreserved value (value.skipped .missedPolicy asOf) = .ok () := by
    simp only [validateEvidencePreserved, HabitOccurrenceValue.skipped, bind_eq_ok]
    refine ⟨(), ?_, (), ?_, ?_⟩
    · cases value.quantity <;> simp [quantityPreserved]
    · cases value.actualSeconds <;> simp [actualSecondsPreserved, UInt64.lt_irrefl]
    · cases value.note <;> simp [notePreserved]
  rcases hopen with hout | hout <;>
    simp only [validateForwardRecord, hout, HabitOccurrenceValue.skipped]
  · rfl
  · exact (if_neg (UInt16.lt_irrefl _)).trans hkept

/-- **A skip by the policy can be recorded.** -/
theorem missed_skip_recordable (hval : record.validate = .ok ())
    (hclock : record.updatedAt ≤ asOf) (hrev : record.revision.toNat + 1 < UInt64.size)
    (h : decideHabitMissedBehavior policy asOf windowStart windowEnd record.value pauses =
      .ok (.markSkipped v)) :
    (∃ transition, applyHabitOccurrenceCommand record ⟨record.revision, asOf, .record v⟩ =
        .ok transition ∧ transition.current.value = v) ∧
      v.progressBasisPoints = record.value.progressBasisPoints ∧
      v.quantity = record.value.quantity ∧ v.actualSeconds = record.value.actualSeconds ∧
      v.note = record.value.note ∧
      ∀ later, asOf ≤ later →
        decideHabitMissedBehavior policy later windowStart windowEnd v pauses =
          .ok (.noAction .alreadySkipped) := by
  obtain ⟨hwin, hvl, hpaus, hopen, rfl⟩ := markSkipped_cases h
  have hskipped := validate_skipped hvl hopen
  refine ⟨?_, rfl, rfl, rfl, rfl, fun later hlat => ?_⟩
  · have hchg : (record.value.skipped .missedPolicy asOf).same record.value = false := by
      rcases hopen with hout | hout <;>
        simp [HabitOccurrenceValue.same, HabitOccurrenceValue.skipped, hout]
    simp only [applyHabitOccurrenceCommand, nextHabitValue, bind_eq_ok, ite_error_eq_ok,
      Except.ite_eq_ok]
    exact ⟨_, ⟨(), hval, not_not.mpr rfl, not_lt_of_ge hclock, _,
      ⟨(), hskipped, (), validateForwardRecord_skipped hopen, rfl⟩,
      Bool.not_eq_true _ ▸ hchg, hrev, rfl⟩, rfl⟩
  · simp only [HabitOccurrenceValue.validate, bind_eq_ok] at hskipped
    obtain ⟨_, hqty, _, hsecs, _, hnote, _, hprog, -⟩ := hskipped
    have hlate : (record.value.skipped .missedPolicy asOf).validate later = .ok () := by
      simp only [HabitOccurrenceValue.validate, bind_eq_ok]
      exact ⟨_, hqty, _, hsecs, _, hnote, _, hprog, if_pos hlat⟩
    simp only [decideHabitMissedBehavior, bind_eq_ok, Except.mapError_eq_ok]
    exact ⟨_, hwin, _, hlate, _, hpaus, rfl⟩

end

open Sample

/-- The half-done habit is skipped when its window has closed. -/
theorem missed_skip_recordable_halfDone :
    ∃ v, decideHabitMissedBehavior .skip (.atSecond 7200) (.atSecond 0) (.atSecond 3600)
        halfDoneHabit.value [] = .ok (.markSkipped v) ∧
      v.progressBasisPoints = 5000 ∧ v.quantity = some ⟨3, "km"⟩ ∧
      decideHabitMissedBehavior .skip (.atSecond 9000) (.atSecond 0) (.atSecond 3600) v [] =
        .ok (.noAction .alreadySkipped) := by
  have h : decideHabitMissedBehavior .skip (.atSecond 7200) (.atSecond 0) (.atSecond 3600)
      halfDoneHabit.value [] =
        .ok (.markSkipped (halfDoneHabit.value.skipped .missedPolicy (.atSecond 7200))) := rfl
  obtain ⟨-, -, -, -, -, hagain⟩ :=
    missed_skip_recordable rfl (by decide) (by decide) h
  exact ⟨_, h, rfl, rfl, hagain _ (by decide)⟩

end DayWeave
