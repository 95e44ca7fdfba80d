import DayWeave.Domain.Identity
import DayWeave.Lib.Result

/-!
The record of one occurrence of a habit.

Recording goes forward only: progress and evidence stay (`validateForwardRecord`), and a completed
or skipped occurrence changes only by a correction. `record_cases` says once what recording does.
-/

namespace DayWeave

open OffsetDateTime (atSecond lt_def nanos)
open Except (bind_eq_ok ite_eq_ok ite_error_eq_ok)

/-! ### Data -/

def habitBasisPointsScale : UInt16 := 10000

def maxHabitOccurrenceNoteChars : ℕ := 10000

def maxHabitQuantityUnitChars : ℕ := 200

def maxHabitQuantity : ℕ := 1000000000000

def maxHabitActualSeconds : UInt64 := 366 * 24 * 60 * 60

/-- A quantity with its unit. -/
structure HabitQuantityProgress where
  amount : Int
  unit : String
deriving DecidableEq

/-- Why an occurrence is skipped. -/
inductive HabitSkipReason where
  | user
  | missedPolicy
deriving DecidableEq

/-- What became of an occurrence. -/
inductive HabitOccurrenceOutcome where
  | pending
  | inPart
  | completed
  | skipped (reason : HabitSkipReason)
deriving DecidableEq

/-- What is recorded about an occurrence. -/
structure HabitOccurrenceValue where
  outcome : HabitOccurrenceOutcome := .pending
  progressBasisPoints : UInt16 := 0
  quantity : Option HabitQuantityProgress := none
  actualSeconds : Option UInt64 := none
  note : Option String := none
  occurredAt : Option OffsetDateTime := none

structure HabitOccurrenceRecord where
  habitId : ItemId
  occurrenceId : OccurrenceId
  localDate : Date
  revision : UInt64
  value : HabitOccurrenceValue
  createdAt : OffsetDateTime
  updatedAt : OffsetDateTime

/-- Recording goes forward; a correction may go anywhere. -/
inductive HabitOccurrenceCommandKind where
  | record (value : HabitOccurrenceValue)
  | correct (value : HabitOccurrenceValue)

/-- A command on a record. -/
structure HabitOccurrenceCommand where
  expectedRevision : UInt64
  recordedAt : OffsetDateTime
  kind : HabitOccurrenceCommandKind

inductive HabitOccurrenceTransitionKind where
  | recorded
  | progressed
  | corrected
  | reopened

structure HabitOccurrenceTransition where
  kind : HabitOccurrenceTransitionKind
  previous : HabitOccurrenceRecord
  current : HabitOccurrenceRecord

inductive HabitOccurrenceError where
  | invalidHabitId
  | invalidOccurrenceId
  | invalidRevision
  | revisionConflict (expected actual : UInt64)
  | revisionOverflow
  | timestampRegression
  | invalidQuantity
  | invalidQuantityUnit
  | invalidActualSeconds
  | invalidNote
  | pendingHasEvidence
  | invalidPartialProgress
  | invalidCompletedProgress
  | invalidSkippedProgress
  | pendingHasOccurredTime
  | recordedOutcomeMissingOccurredTime
  | occurredTimeInFuture
  | invalidForwardTransition
  | progressDidNotAdvance
  | progressRegressed
  | quantityUnitChanged
  | quantityEvidenceChanged
  | quantityEvidenceRemoved
  | actualSecondsEvidenceRemoved
  | actualSecondsRegressed
  | noteEvidenceRemoved
  | noteEvidenceChanged
  | correctionRequiresRecordedOutcome
  | noChange
deriving DecidableEq

/-! ### Checks -/

/-- Whether a text may be stored. -/
def validText (value : String) (maxChars : ℕ) (requireTrimmed : Bool) : Bool :=
  !(trim value).isEmpty && decide (value.length ≤ maxChars) &&
    (!requireTrimmed || decide (trim value = value)) && !(value.toList.any Text.isControl)

def isValidHabitQuantityUnit (value : String) : Bool :=
  validText value maxHabitQuantityUnitChars false

def HabitQuantityProgress.validate (self : HabitQuantityProgress) :
    Except HabitOccurrenceError Unit :=
  if self.amount.natAbs > maxHabitQuantity then .error .invalidQuantity
  else if ¬ isValidHabitQuantityUnit self.unit ∨ trim self.unit ≠ self.unit then
    .error .invalidQuantityUnit
  else .ok ()

def validateQuantity (quantity : Option HabitQuantityProgress) : Except HabitOccurrenceError Unit :=
  match quantity with
  | none => .ok ()
  | some quantity => quantity.validate

def validateNote (note : Option String) : Except HabitOccurrenceError Unit :=
  match note with
  | none => .ok ()
  | some note =>
    if ¬ validText note maxHabitOccurrenceNoteChars false then .error .invalidNote else .ok ()

/-- Whether something is recorded. -/
def HabitOccurrenceOutcome.isRecorded : HabitOccurrenceOutcome → Bool
  | .pending => false
  | _ => true

namespace HabitOccurrenceValue

/-- Whether two values are equal. Times are compared as instants. -/
def same (a b : HabitOccurrenceValue) : Bool :=
  decide (a.outcome = b.outcome) && decide (a.progressBasisPoints = b.progressBasisPoints) &&
    decide (a.quantity = b.quantity) && decide (a.actualSeconds = b.actualSeconds) &&
    decide (a.note = b.note) &&
    decide (a.occurredAt.map nanos = b.occurredAt.map nanos)

variable (self : HabitOccurrenceValue) (recordedAt : OffsetDateTime)

/-- The checks of the progress and the evidence for an outcome. -/
def validateProgress : Except HabitOccurrenceError Unit :=
  match self.outcome with
  | .pending =>
    if self.progressBasisPoints ≠ 0 ∨ self.quantity.isSome ∨ self.actualSeconds.isSome ∨
        self.note.isSome then
      .error .pendingHasEvidence
    else .ok ()
  | .inPart =>
    if ¬ (1 ≤ self.progressBasisPoints ∧ self.progressBasisPoints < habitBasisPointsScale) then
      .error .invalidPartialProgress
    else .ok ()
  | .completed =>
    if self.progressBasisPoints ≠ habitBasisPointsScale then .error .invalidCompletedProgress
    else .ok ()
  | .skipped _ =>
    if self.progressBasisPoints ≥ habitBasisPointsScale then .error .invalidSkippedProgress
    else .ok ()

/-- The checks of the time of an outcome. -/
def validateTime : Except HabitOccurrenceError Unit :=
  match self.outcome, self.occurredAt with
  | .pending, none => .ok ()
  | .pending, some _ => .error .pendingHasOccurredTime
  | _, some occurredAt =>
    if occurredAt ≤ recordedAt then .ok () else .error .occurredTimeInFuture
  | _, none => .error .recordedOutcomeMissingOccurredTime

/-- The checks of a value at the time at which it is recorded. -/
def validate : Except HabitOccurrenceError Unit := do
  validateQuantity self.quantity
  Except.require (¬ (self.actualSeconds.any fun seconds =>
    decide (seconds > maxHabitActualSeconds)))
    .invalidActualSeconds
  validateNote self.note
  self.validateProgress
  self.validateTime recordedAt

end HabitOccurrenceValue

namespace HabitOccurrenceRecord

def new (habitId : ItemId) (occurrenceId : OccurrenceId) (localDate : Date)
    (createdAt : OffsetDateTime) : Except HabitOccurrenceError HabitOccurrenceRecord :=
  if habitId.uuid.isNil then .error .invalidHabitId
  else if occurrenceId.uuid.isNil then .error .invalidOccurrenceId
  else .ok ⟨habitId, occurrenceId, localDate, 1, {}, createdAt, createdAt⟩

def validate (self : HabitOccurrenceRecord) : Except HabitOccurrenceError Unit :=
  if self.habitId.uuid.isNil then .error .invalidHabitId
  else if self.occurrenceId.uuid.isNil then .error .invalidOccurrenceId
  else if self.revision = 0 then .error .invalidRevision
  else if self.updatedAt < self.createdAt then .error .timestampRegression
  else self.value.validate self.updatedAt

end HabitOccurrenceRecord

/-! ### Commands -/

/-- A recorded quantity stays. -/
def quantityPreserved (current next : Option HabitQuantityProgress) :
    Except HabitOccurrenceError Unit :=
  match current, next with
  | none, _ => .ok ()
  | some _, none => .error .quantityEvidenceRemoved
  | some previous, some next =>
    if previous.unit ≠ next.unit then .error .quantityUnitChanged
    else if previous.amount ≠ next.amount then .error .quantityEvidenceChanged
    else .ok ()

/-- The time worked does not decrease. -/
def actualSecondsPreserved (current next : Option UInt64) : Except HabitOccurrenceError Unit :=
  match current, next with
  | none, _ => .ok ()
  | some _, none => .error .actualSecondsEvidenceRemoved
  | some previous, some next =>
    if next < previous then .error .actualSecondsRegressed else .ok ()

/-- A recorded note stays. -/
def notePreserved (current next : Option String) : Except HabitOccurrenceError Unit :=
  match current, next with
  | none, _ => .ok ()
  | some _, none => .error .noteEvidenceRemoved
  | some previous, some next => if previous ≠ next then .error .noteEvidenceChanged else .ok ()

/-- What was recorded as evidence is kept. -/
def validateEvidencePreserved (current next : HabitOccurrenceValue) :
    Except HabitOccurrenceError Unit := do
  quantityPreserved current.quantity next.quantity
  actualSecondsPreserved current.actualSeconds next.actualSeconds
  notePreserved current.note next.note

/-- The steps that recording may take. -/
def validateForwardRecord (current next : HabitOccurrenceValue) :
    Except HabitOccurrenceError Unit :=
  match current.outcome, next.outcome with
  | .pending, outcome => if outcome.isRecorded then .ok () else .error .invalidForwardTransition
  | .inPart, .inPart =>
    if next.progressBasisPoints ≤ current.progressBasisPoints then .error .progressDidNotAdvance
    else validateEvidencePreserved current next
  | .inPart, .completed => validateEvidencePreserved current next
  | .inPart, .skipped _ =>
    if next.progressBasisPoints < current.progressBasisPoints then .error .progressRegressed
    else validateEvidencePreserved current next
  | _, _ => .error .invalidForwardTransition

variable (current : HabitOccurrenceRecord) (command : HabitOccurrenceCommand)

/-- The value that a command writes, and what the command is. -/
def nextHabitValue :
    Except HabitOccurrenceError (HabitOccurrenceValue × HabitOccurrenceTransitionKind) :=
  match command.kind with
  | .record value => do
    value.validate command.recordedAt
    validateForwardRecord current.value value
    return (value, if current.value.outcome = .pending then .recorded else .progressed)
  | .correct value =>
    if ¬ current.value.outcome.isRecorded then .error .correctionRequiresRecordedOutcome
    else do
      value.validate command.recordedAt
      return (value, if value.outcome = .pending then .reopened else .corrected)

def applyHabitOccurrenceCommand : Except HabitOccurrenceError HabitOccurrenceTransition := do
  current.validate
  if command.expectedRevision ≠ current.revision then
    .error (.revisionConflict command.expectedRevision current.revision)
  else if command.recordedAt < current.updatedAt then .error .timestampRegression
  else
    let (value, kind) ← nextHabitValue current command
    if value.same current.value then .error .noChange
    else if current.revision.toNat + 1 < UInt64.size then
      return ⟨kind, current, { current with
        revision := current.revision + 1
        value := value
        updatedAt := command.recordedAt }⟩
    else .error .revisionOverflow

/-! ### What recording does -/

/-- What later values keep of an earlier one. -/
structure HabitOccurrenceValue.Precedes (current next : HabitOccurrenceValue) : Prop where
  progress : current.progressBasisPoints ≤ next.progressBasisPoints
  quantity : ∀ q, current.quantity = some q → next.quantity = some q
  actualSeconds : ∀ s, current.actualSeconds = some s → ∃ t, next.actualSeconds = some t ∧ s ≤ t
  note : ∀ n, current.note = some n → next.note = some n

namespace HabitOccurrenceValue

variable {current next later : HabitOccurrenceValue}

lemma Precedes.trans (h : current.Precedes next) (h' : next.Precedes later) :
    current.Precedes later where
  progress := UInt16.le_trans h.progress h'.progress
  quantity q hq := h'.quantity q (h.quantity q hq)
  actualSeconds s hs := by
    obtain ⟨t, ht, hst⟩ := h.actualSeconds s hs
    obtain ⟨u, hu, htu⟩ := h'.actualSeconds t ht
    exact ⟨u, hu, UInt64.le_trans hst htu⟩
  note n hn := h'.note n (h.note n hn)

/-- Whether nothing more can be recorded. -/
def IsTerminal (value : HabitOccurrenceValue) : Prop :=
  value.outcome = .completed ∨ ∃ reason, value.outcome = .skipped reason

end HabitOccurrenceValue

section

lemma quantityPreserved_eq_ok {current next : Option HabitQuantityProgress}
    (h : quantityPreserved current next = .ok ()) (q : HabitQuantityProgress)
    (hq : current = some q) : next = some q := by
  subst hq
  cases next with
  | none => cases h
  | some r =>
    obtain ⟨amount, unit⟩ := q
    simp_all [quantityPreserved, ite_eq_ok]

lemma actualSecondsPreserved_eq_ok {current next : Option UInt64}
    (h : actualSecondsPreserved current next = .ok ()) (s : UInt64) (hs : current = some s) :
    ∃ t, next = some t ∧ s ≤ t := by
  subst hs
  cases next with
  | none => cases h
  | some t =>
    exact ⟨t, rfl, UInt64.not_lt.mp (ite_error_eq_ok.mp h).1⟩

lemma notePreserved_eq_ok {current next : Option String} (h : notePreserved current next = .ok ())
    (n : String) (hn : current = some n) : next = some n := by
  subst hn
  cases next with
  | none => cases h
  | some m =>
    exact congrArg some (not_not.mp (ite_error_eq_ok.mp h).1).symm

variable {current next : HabitOccurrenceValue}

lemma precedes_of_evidencePreserved (h : validateEvidencePreserved current next = .ok ())
    (hprog : current.progressBasisPoints ≤ next.progressBasisPoints) : current.Precedes next := by
  obtain ⟨_, hqty, h⟩ := bind_eq_ok.mp h
  obtain ⟨_, hsecs, hnote⟩ := bind_eq_ok.mp h
  exact ⟨hprog, quantityPreserved_eq_ok hqty, actualSecondsPreserved_eq_ok hsecs,
    notePreserved_eq_ok hnote⟩

lemma HabitOccurrenceValue.validate_eq_ok {value : HabitOccurrenceValue} {time : OffsetDateTime}
    (h : value.validate time = .ok ()) :
    value.validateProgress = .ok () ∧ value.validateTime time = .ok () := by
  simp only [HabitOccurrenceValue.validate, bind_eq_ok] at h
  obtain ⟨_, -, _, -, _, -, _, hprog, htime⟩ := h
  exact ⟨hprog, htime⟩

/-- A pending value has nothing that a later one could lose. -/
lemma precedes_of_pending (h : current.validateProgress = .ok ())
    (hpending : current.outcome = .pending) : current.Precedes next := by
  simp only [HabitOccurrenceValue.validateProgress, hpending, ite_error_eq_ok, not_or,
    Option.isSome_iff_ne_none, ne_eq, not_not] at h
  obtain ⟨⟨hprog, hqty, hsecs, hnote⟩, -⟩ := h
  refine ⟨?_, fun q hq => ?_, fun s hs => ?_, fun n hn => ?_⟩
  · rw [hprog]
    exact UInt16.le_iff_toNat_le.mpr (Nat.zero_le _)
  · rw [hqty] at hq; cases hq
  · rw [hsecs] at hs; cases hs
  · rw [hnote] at hn; cases hn

variable (hcur : current.validateProgress = .ok ()) (hnext : next.validateProgress = .ok ())

include hcur hnext

/-- Full progress is not behind partial progress. -/
lemma progress_le_of_completed (hpart : current.outcome = .inPart)
    (hcomp : next.outcome = .completed) :
    current.progressBasisPoints ≤ next.progressBasisPoints := by
  simp only [HabitOccurrenceValue.validateProgress, hpart, ite_error_eq_ok, not_not] at hcur
  simp only [HabitOccurrenceValue.validateProgress, hcomp, ite_error_eq_ok, not_not] at hnext
  rw [hnext.1]
  exact UInt16.le_of_lt hcur.1.2

/-- Recording keeps what is there, and nothing is recorded after the last outcome. -/
lemma validateForwardRecord_eq_ok (h : validateForwardRecord current next = .ok ()) :
    current.Precedes next ∧ ¬ current.IsTerminal := by
  unfold validateForwardRecord at h
  split at h
  case h_1 _ _ hpending =>
    refine ⟨precedes_of_pending hcur hpending, ?_⟩
    simp [HabitOccurrenceValue.IsTerminal, hpending]
  case h_2 _ _ hpart _ =>
    obtain ⟨hadvance, h⟩ := ite_error_eq_ok.mp h
    refine ⟨precedes_of_evidencePreserved h (UInt16.le_of_lt (UInt16.not_le.mp hadvance)), ?_⟩
    simp [HabitOccurrenceValue.IsTerminal, hpart]
  case h_3 _ _ hpart hcomp =>
    refine ⟨precedes_of_evidencePreserved h (progress_le_of_completed hcur hnext hpart hcomp), ?_⟩
    simp [HabitOccurrenceValue.IsTerminal, hpart]
  case h_4 _ _ _ hpart _ =>
    obtain ⟨hkept, h⟩ := ite_error_eq_ok.mp h
    refine ⟨precedes_of_evidencePreserved h (UInt16.not_lt.mp hkept), ?_⟩
    simp [HabitOccurrenceValue.IsTerminal, hpart]
  case h_5 => cases h

end

/-! ### Runs of recordings -/

/-- The second record is what recording something on the first one leads to. -/
def Records (current next : HabitOccurrenceRecord) : Prop :=
  ∃ (value : HabitOccurrenceValue) (command : HabitOccurrenceCommand)
    (transition : HabitOccurrenceTransition),
    command.kind = .record value ∧ applyHabitOccurrenceCommand current command = .ok transition ∧
      transition.current = next

/-- What recording does. -/
structure RecordStep (current next : HabitOccurrenceRecord) : Prop where
  validBefore : current.validate = .ok ()
  validAfter : next.validate = .ok ()
  revision : next.revision.toNat = current.revision.toNat + 1
  updatedAt : current.updatedAt ≤ next.updatedAt
  value : current.value.Precedes next.value
  openBefore : ¬ current.value.IsTerminal

section

variable {current next first : HabitOccurrenceRecord} {trace : List HabitOccurrenceRecord}

lemma HabitOccurrenceRecord.validate_eq_ok {record : HabitOccurrenceRecord} :
    record.validate = .ok () ↔
      ¬ record.habitId.uuid.isNil ∧ ¬ record.occurrenceId.uuid.isNil ∧ record.revision ≠ 0 ∧
        record.createdAt.nanos ≤ record.updatedAt.nanos ∧
        record.value.validate record.updatedAt = .ok () := by
  unfold HabitOccurrenceRecord.validate
  split_ifs <;> simp_all [lt_def]

/-- Recording is checked against the record, the revision, the clock and the value. -/
lemma record_cases {value : HabitOccurrenceValue} {command : HabitOccurrenceCommand}
    {transition : HabitOccurrenceTransition} (hkind : command.kind = .record value)
    (h : applyHabitOccurrenceCommand current command = .ok transition) :
    current.validate = .ok () ∧ current.updatedAt.nanos ≤ command.recordedAt.nanos ∧
      value.validate command.recordedAt = .ok () ∧
      validateForwardRecord current.value value = .ok () ∧
      current.revision.toNat + 1 < UInt64.size ∧
      transition.current = { current with
        revision := current.revision + 1
        value := value
        updatedAt := command.recordedAt } := by
  simp only [applyHabitOccurrenceCommand, bind_eq_ok, ite_error_eq_ok, ite_eq_ok] at h
  obtain ⟨_, hcur, -, hclock, ⟨value', kind⟩, hvl, -, hsize, h⟩ := h
  simp only [nextHabitValue, hkind, bind_eq_ok] at hvl
  obtain ⟨_, hval, _, hforward, hvl⟩ := hvl
  cases hvl
  cases h
  exact ⟨hcur, not_lt.mp hclock, hval, hforward, hsize, rfl⟩

lemma Records.step (h : Records current next) : RecordStep current next := by
  obtain ⟨value, command, transition, hkind, happly, rfl⟩ := h
  obtain ⟨hcur, hclock, hvl, hforward, hsize, hnext⟩ := record_cases hkind happly
  obtain ⟨hhabit, hocc, -, hcreated, hbef⟩ := HabitOccurrenceRecord.validate_eq_ok.mp hcur
  obtain ⟨hkept, hopen⟩ := validateForwardRecord_eq_ok
    (HabitOccurrenceValue.validate_eq_ok hbef).1 (HabitOccurrenceValue.validate_eq_ok hvl).1
    hforward
  have hrev : (current.revision + 1).toNat = current.revision.toNat + 1 := by
    exact Nat.mod_eq_of_lt hsize
  have hpos' : current.revision + 1 ≠ 0 := by
    intro hzero
    rw [hzero] at hrev
    simp at hrev
  rw [hnext]
  exact ⟨hcur, HabitOccurrenceRecord.validate_eq_ok.mpr
    ⟨hhabit, hocc, hpos', hcreated.trans hclock, hvl⟩, hrev, hclock, hkept, hopen⟩

lemma HabitOccurrenceRecord.validate_new {habitId : ItemId} {occurrenceId : OccurrenceId}
    {localDate : Date} {createdAt : OffsetDateTime}
    (h : HabitOccurrenceRecord.new habitId occurrenceId localDate createdAt = .ok first) :
    first.validate = .ok () ∧ first.revision = 1 := by
  simp only [HabitOccurrenceRecord.new, ite_error_eq_ok] at h
  obtain ⟨hhabit, hocc, h⟩ := h
  cases h
  exact ⟨HabitOccurrenceRecord.validate_eq_ok.mpr
    ⟨hhabit, hocc, (by decide : (1 : UInt64) ≠ 0), le_rfl, rfl⟩, rfl⟩

/-- The clock and the value of a later record against those of an earlier one. -/
def Follows (earlier later : HabitOccurrenceRecord) : Prop :=
  earlier.updatedAt ≤ later.updatedAt ∧ earlier.value.Precedes later.value

instance : Trans Follows Follows Follows :=
  ⟨fun h h' => ⟨h.1.trans h'.1, h.2.trans h'.2⟩⟩

lemma validate_of_run (hfst : first.validate = .ok ())
    (hrun : (first :: trace).IsChain Records) :
    ∀ record ∈ first :: trace, record.validate = .ok () := by
  induction trace generalizing first with
  | nil => exact fun record hrcd => List.mem_singleton.mp hrcd ▸ hfst
  | cons second trace ih =>
    obtain ⟨hstep, hrun⟩ := List.isChain_cons_cons.mp hrun
    intro record hrcd
    rcases List.mem_cons.mp hrcd with rfl | hrcd
    · exact hfst
    · exact ih hstep.step.validAfter hrun record hrcd

lemma revision_of_run (hrun : (first :: trace).IsChain Records) (k : ℕ)
    (record : HabitOccurrenceRecord) (hrcd : (first :: trace)[k]? = some record) :
    record.revision.toNat = first.revision.toNat + k := by
  induction trace generalizing first k with
  | nil =>
    cases k with
    | zero => cases hrcd; rfl
    | succ k => cases hrcd
  | cons second trace ih =>
    obtain ⟨hstep, hrun⟩ := List.isChain_cons_cons.mp hrun
    cases k with
    | zero => cases hrcd; rfl
    | succ k =>
      rw [ih hrun k hrcd, hstep.step.revision]
      omega

/-- **A run of recordings goes forward.** From the first record of an occurrence on, every
record of the run is valid, the `k`-th recording leads to revision `k + 1`, and every record
keeps what an earlier one holds: the clock and the progress do not go back, quantity and note
stay, and the time worked does not decrease. Nothing is recorded on a completed or skipped
occurrence. -/
theorem habit_records_forward {habitId : ItemId} {occurrenceId : OccurrenceId} {localDate : Date}
    {createdAt : OffsetDateTime}
    (hnew : HabitOccurrenceRecord.new habitId occurrenceId localDate createdAt = .ok first)
    {trace : List HabitOccurrenceRecord} (hrun : (first :: trace).IsChain Records) :
    (∀ record ∈ first :: trace, record.validate = .ok ()) ∧
      (∀ k record, (first :: trace)[k]? = some record → record.revision.toNat = 1 + k) ∧
      (first :: trace).Pairwise (fun earlier later => earlier.updatedAt ≤ later.updatedAt ∧
        earlier.value.progressBasisPoints ≤ later.value.progressBasisPoints ∧
        (∀ q, earlier.value.quantity = some q → later.value.quantity = some q) ∧
        (∀ n, earlier.value.note = some n → later.value.note = some n) ∧
        (∀ s, earlier.value.actualSeconds = some s →
          ∃ t, later.value.actualSeconds = some t ∧ s ≤ t)) ∧
      (∀ record ∈ first :: trace,
        (record.value.outcome = .completed ∨ ∃ reason, record.value.outcome = .skipped reason) →
          ∀ command value, command.kind = .record value →
            ∀ transition, applyHabitOccurrenceCommand record command ≠ .ok transition) := by
  obtain ⟨hfst, hone⟩ := HabitOccurrenceRecord.validate_new hnew
  refine ⟨validate_of_run hfst hrun, fun k record hrcd => ?_, ?_, ?_⟩
  · rw [revision_of_run hrun k record hrcd, hone]
    rfl
  · have hfollows : (first :: trace).IsChain Follows :=
      hrun.imp fun _ _ h => ⟨h.step.updatedAt, h.step.value⟩
    exact (List.isChain_iff_pairwise.mp hfollows).imp fun h =>
      ⟨h.1, h.2.progress, h.2.quantity, h.2.note, h.2.actualSeconds⟩
  · intro record _ hterm command value hkind transition happly
    exact Records.step ⟨value, command, transition, hkind, happly, rfl⟩ |>.openBefore hterm

namespace Sample

/-- A habit that is half done after its first recording and done after the second. -/
def pendingHabit : HabitOccurrenceRecord where
  habitId := ⟨Uuid.ofNat 1⟩
  occurrenceId := ⟨Uuid.ofNat 2⟩
  localDate := (atSecond 0).date
  revision := 1
  value := {}
  createdAt := atSecond 0
  updatedAt := atSecond 0

@[inherit_doc pendingHabit]
def halfDoneHabit : HabitOccurrenceRecord :=
  { pendingHabit with
    revision := 2
    value := {
      outcome := .inPart
      progressBasisPoints := 5000
      quantity := some ⟨3, "km"⟩
      actualSeconds := some 600
      occurredAt := some (atSecond 30) }
    updatedAt := atSecond 60 }

@[inherit_doc pendingHabit]
def doneHabit : HabitOccurrenceRecord :=
  { halfDoneHabit with
    revision := 3
    value := {
      outcome := .completed
      progressBasisPoints := 10000
      quantity := some ⟨3, "km"⟩
      actualSeconds := some 900
      note := some "easy"
      occurredAt := some (atSecond 90) }
    updatedAt := atSecond 120 }

lemma records_halfDone : Records pendingHabit halfDoneHabit :=
  ⟨halfDoneHabit.value, ⟨1, halfDoneHabit.updatedAt, .record halfDoneHabit.value⟩,
    ⟨.recorded, pendingHabit, halfDoneHabit⟩, rfl, rfl, rfl⟩

lemma records_done : Records halfDoneHabit doneHabit :=
  ⟨doneHabit.value, ⟨2, doneHabit.updatedAt, .record doneHabit.value⟩,
    ⟨.progressed, halfDoneHabit, doneHabit⟩, rfl, rfl, rfl⟩

end Sample

open Sample

theorem habit_records_forward_done : [pendingHabit, halfDoneHabit, doneHabit].IsChain Records ∧
      ∀ command value, command.kind = .record value → ∀ transition,
        applyHabitOccurrenceCommand doneHabit command ≠ .ok transition := by
  have hrun : [pendingHabit, halfDoneHabit, doneHabit].IsChain Records :=
    .cons_cons records_halfDone (.cons_cons records_done (.singleton _))
  have hnew : HabitOccurrenceRecord.new ⟨⟨1⟩⟩ ⟨⟨2⟩⟩ (atSecond 0).date
      (atSecond 0) = .ok pendingHabit := rfl
  exact ⟨hrun, (habit_records_forward hnew hrun).2.2.2 doneHabit (by simp) (.inl rfl)⟩

end

end DayWeave
