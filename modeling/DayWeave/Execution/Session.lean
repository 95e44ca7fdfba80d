import DayWeave.Chrono
import DayWeave.Domain.Identity
import DayWeave.Lib.Result

/-!
Execution sessions.

A session is the timer of one work unit. It starts active, is paused and resumed any number of
times, and ends completed, skipped or deferred. Every command carries the time of the protocol,
which orders the history, and that of the clock, from which worked time is counted.
`applyWithProtocolTime_cases` says once what an accepted command does.
-/

namespace DayWeave

open Except (bind_eq_ok require require_eq_ok)

/-! ### Data -/

def maxPauseSeconds : Int := 24 * 60 * 60

def maxDeferSeconds : Int := 24 * 60 * 60

def maxActualSeconds : UInt64 := 9223372036854775807

def maxReasonChars : ℕ := 500

/-- The state of a session. -/
inductive ExecutionStatus where
  | active
  | paused
  | completed
  | skipped
  | deferred
deriving DecidableEq

/-- Whether a session has not ended. -/
def ExecutionStatus.isOpen : ExecutionStatus → Bool
  | .active | .paused => true
  | .completed | .skipped | .deferred => false

/-- The timer of one work unit. -/
structure ExecutionSession where
  id : Uuid
  itemId : Uuid
  itemRevision : UInt64
  occurrenceId : Option Uuid
  sessionIndex : UInt16
  plannedBlockId : Option Uuid
  sourceDeviceId : Uuid
  status : ExecutionStatus
  revision : UInt64
  accumulatedSeconds : UInt64
  actualSeconds : Option UInt64
  startedAt : DateTime
  runningSince : Option DateTime
  observedRunningSince : Option DateTime
  pausedAt : Option DateTime
  pauseUntil : Option DateTime
  pauseReason : Option String
  moveStart : Option DateTime
  moveEnd : Option DateTime
  endedAt : Option DateTime
  createdAt : DateTime
  updatedAt : DateTime
deriving DecidableEq

/-- Starts a session. -/
structure StartExecution where
  sessionId : Uuid
  itemId : Uuid
  itemRevision : UInt64
  occurrenceId : Option Uuid
  sessionIndex : UInt16
  plannedBlockId : Option Uuid
  deviceId : Uuid

/-- Pauses a session, for a number of seconds, until an instant, or without an end. -/
structure PauseExecution where
  sessionId : Uuid
  durationSeconds : Option UInt32
  pauseUntil : Option DateTime
  reason : Option String

/-- Resumes a session. -/
structure ResumeExecution where
  sessionId : Uuid

/-- Ends a session, with the time worked if it is corrected. -/
structure FinishExecution where
  sessionId : Uuid
  actualSeconds : Option UInt64

/-- Ends a session and moves its remaining work. -/
structure DeferExecution where
  sessionId : Uuid
  moveStart : DateTime
  moveEnd : DateTime
  actualSeconds : Option UInt64
  assessmentDigest : Option String
  approvedAssessmentDigest : Option String

/-- The commands about sessions. -/
inductive ExecutionCommand where
  | start (input : StartExecution)
  | pause (input : PauseExecution)
  | resume (input : ResumeExecution)
  | complete (input : FinishExecution)
  | skip (input : FinishExecution)
  | defer (input : DeferExecution)

def ExecutionCommand.stopsClock : ExecutionCommand → Bool
  | .start _ | .resume _ => false
  | .pause _ | .complete _ | .skip _ | .defer _ => true

inductive ExecutionDomainError where
  | nilIdentifier
  | invalidItemRevision
  | invalidPause
  | invalidPauseReason
  | invalidActualDuration
  | invalidDefer
  | invalidDeferAssessment
  | invalidTransition
  | durationOverflow
deriving DecidableEq

/-- How a command fails: with an error, or because an instant is not representable, where the
source stops the program. -/
inductive ExecutionFailure where
  | error (reason : ExecutionDomainError)
  | clockOverflow
deriving DecidableEq

/-! ### Checks -/

/-- The reason of a pause is neither blank nor too long. -/
def validateReason (reason : Option String) : Except ExecutionFailure Unit :=
  require (¬ reason.any fun value => isBlank value || maxReasonChars < value.toList.length)
    (.error .invalidPauseReason)

/-- Whether a text is a digest as the server writes it. -/
def isCanonicalSha256Digest (value : String) : Bool :=
  let chars := value.toList
  let hex := chars.drop 7
  chars.take 7 = "sha256:".toList ∧ hex.length = 64 ∧
    hex.all fun c => ('0' ≤ c && c ≤ '9') || ('a' ≤ c && c ≤ 'f')

/-- Whether the digests of an assessment and of its approval do not fit together. -/
def digestsConflict (assessment approved : Option String) : Bool :=
  match assessment, approved with
  | none, some _ => true
  | some assessment, some approved => assessment ≠ approved
  | _, _ => false

/-- The window of a deferred session lies in the future and is not too long. -/
def validateDefer (input : DeferExecution) (now : DateTime) : Except ExecutionFailure Unit := do
  require (¬ input.sessionId.isNil) (.error .nilIdentifier)
  require (¬ input.actualSeconds.any fun seconds => maxActualSeconds < seconds)
    (.error .invalidActualDuration)
  require (¬ ((input.assessmentDigest.any fun digest => ¬ isCanonicalSha256Digest digest) ∨
      (input.approvedAssessmentDigest.any fun digest => ¬ isCanonicalSha256Digest digest) ∨
      digestsConflict input.assessmentDigest input.approvedAssessmentDigest))
    (.error .invalidDeferAssessment)
  require (¬ (¬ input.moveStart.hasPostgresTimestampPrecision ∨
      ¬ input.moveEnd.hasPostgresTimestampPrecision ∨ input.moveStart ≤ now ∨
      input.moveEnd ≤ input.moveStart ∨
      maxDeferSeconds * Duration.second < input.moveEnd.signedDurationSince input.moveStart))
    (.error .invalidDefer)

def nextRevision (current : UInt64) : Except ExecutionFailure UInt64 :=
  if current.toNat + 1 < UInt64.size then .ok (current + 1) else .error (.error .durationOverflow)

/-- An instant a number of seconds later. -/
def secondsAfter (t : DateTime) (seconds : Int) : Except ExecutionFailure DateTime :=
  match t.checkedAddSigned (seconds * Duration.second) with
  | some later => .ok later
  | none => .error .clockOverflow

/-- When a pause ends, if it has an end. -/
def pauseEnd (input : PauseExecution) (transitionAt : DateTime) :
    Except ExecutionFailure (Option DateTime) :=
  match input.durationSeconds, input.pauseUntil with
  | some seconds, none =>
    if 1 ≤ seconds ∧ (seconds.toNat : Int) ≤ maxPauseSeconds then
      (secondsAfter transitionAt seconds.toNat).map some
    else .error (.error .invalidPause)
  | none, some finish => do
    let maximum ← secondsAfter transitionAt maxPauseSeconds
    if ¬ finish.hasPostgresTimestampPrecision ∨ finish ≤ transitionAt ∨ maximum < finish then
      .error (.error .invalidPause)
    else .ok (some finish)
  | none, none => .ok none
  | some _, some _ => .error (.error .invalidPause)

namespace ExecutionSession

/-! ### Transitions -/

/-- A session that starts. -/
def startWithProtocolTime (input : StartExecution) (transitionAt observedAt : DateTime) :
    ExecutionSession where
  id := input.sessionId
  itemId := input.itemId
  itemRevision := input.itemRevision
  occurrenceId := input.occurrenceId
  sessionIndex := input.sessionIndex
  plannedBlockId := input.plannedBlockId
  sourceDeviceId := input.deviceId
  status := .active
  revision := 1
  accumulatedSeconds := 0
  actualSeconds := none
  startedAt := transitionAt
  runningSince := some transitionAt
  observedRunningSince := some observedAt
  pausedAt := none
  pauseUntil := none
  pauseReason := none
  moveStart := none
  moveEnd := none
  endedAt := none
  createdAt := transitionAt
  updatedAt := transitionAt

variable (session : ExecutionSession) (now : DateTime)

/-- The whole seconds that the session has been running without a break. -/
def runningSeconds : Int :=
  match session.observedRunningSince with
  | none => 0
  | some started => max (now.signedDurationSince started).wholeSeconds 0

/-- The seconds worked, up to the largest number that is recorded. -/
def elapsedSeconds : Except ExecutionFailure UInt64 :=
  let running := session.runningSeconds now
  -- the source converts to 64 bits without a sign
  if 0 ≤ running ∧ running < UInt64.size then
    let total := session.accumulatedSeconds.toNat + running.toNat
    .ok (min (if total < UInt64.size then UInt64.ofNat total else maxActualSeconds)
      maxActualSeconds)
  else .error (.error .durationOverflow)

/-- Pauses the session; the pause of a paused session gets a new end. -/
def pause (input : PauseExecution)
    (transitionAt elapsedAt : DateTime) : Except ExecutionFailure ExecutionSession := do
  require (session.id = input.sessionId ∧ session.status.isOpen) (.error .invalidTransition)
  validateReason input.reason
  let pauseUntil ← pauseEnd input transitionAt
  let accumulatedSeconds ← session.elapsedSeconds elapsedAt
  let revision ← nextRevision session.revision
  return { session with
    status := .paused
    revision := revision
    accumulatedSeconds := accumulatedSeconds
    runningSince := none
    observedRunningSince := none
    pausedAt := session.pausedAt.or (some transitionAt)
    pauseUntil := pauseUntil
    pauseReason := input.reason.or session.pauseReason
    updatedAt := transitionAt }

def resume (input : ResumeExecution)
    (transitionAt observedAt : DateTime) : Except ExecutionFailure ExecutionSession := do
  require (session.id = input.sessionId ∧ session.status = .paused) (.error .invalidTransition)
  let revision ← nextRevision session.revision
  return { session with
    status := .active
    revision := revision
    runningSince := some transitionAt
    observedRunningSince := some observedAt
    pausedAt := none
    pauseUntil := none
    pauseReason := none
    updatedAt := transitionAt }

def finish (sessionId : Uuid) (correctedActualSeconds : Option UInt64)
    (status : ExecutionStatus) (transitionAt elapsedAt : DateTime) :
    Except ExecutionFailure ExecutionSession := do
  require (session.id = sessionId ∧ session.status.isOpen ∧ ¬ status.isOpen)
    (.error .invalidTransition)
  let elapsed ← session.elapsedSeconds elapsedAt
  let actualSeconds := correctedActualSeconds.getD elapsed
  require (actualSeconds ≤ maxActualSeconds) (.error .invalidActualDuration)
  let revision ← nextRevision session.revision
  return { session with
    status := status
    revision := revision
    accumulatedSeconds := elapsed
    actualSeconds := some actualSeconds
    runningSince := none
    observedRunningSince := none
    pausedAt := session.pausedAt.or (if session.status = .paused then some transitionAt else none)
    pauseUntil := none
    pauseReason := none
    endedAt := some transitionAt
    updatedAt := transitionAt }

/-- Ends a paused session and records the window of the remaining work. -/
def defer (input : DeferExecution)
    (transitionAt elapsedAt : DateTime) : Except ExecutionFailure ExecutionSession := do
  require (session.status = .paused) (.error .invalidTransition)
  validateDefer input transitionAt
  let deferred ← session.finish input.sessionId input.actualSeconds .deferred transitionAt elapsedAt
  return { deferred with moveStart := some input.moveStart, moveEnd := some input.moveEnd }

/-- Applies a command. The time of the protocol neither goes back nor lies behind the clock. -/
def applyWithProtocolTime (command : ExecutionCommand)
    (transitionAt observedAt : DateTime) : Except ExecutionFailure ExecutionSession := do
  require (¬ (transitionAt < session.updatedAt ∨ transitionAt < observedAt))
    (.error .invalidTransition)
  match command with
  | .start _ => .error (.error .invalidTransition)
  | .pause input => session.pause input transitionAt observedAt
  | .resume input => session.resume input transitionAt observedAt
  | .complete input =>
    session.finish input.sessionId input.actualSeconds .completed transitionAt observedAt
  | .skip input =>
    session.finish input.sessionId input.actualSeconds .skipped transitionAt observedAt
  | .defer input => session.defer input transitionAt observedAt

/-! ### What an accepted command does -/

section

variable {session next : ExecutionSession} {command : ExecutionCommand}
  {transitionAt observedAt : DateTime}

lemma toNat_elapsedSeconds {now : DateTime} {elapsed : UInt64}
    (h : session.elapsedSeconds now = .ok elapsed) :
    elapsed.toNat = min (session.accumulatedSeconds.toNat + (session.runningSeconds now).toNat)
      maxActualSeconds.toNat := by
  unfold elapsedSeconds at h
  dsimp only at h
  split_ifs at h with hrng hfits
  · cases h
    rw [UInt64.toNat_min, UInt64.toNat_ofNat_of_lt' hfits]
  · cases h
    have hmax : maxActualSeconds.toNat < UInt64.size := maxActualSeconds.toNat_lt
    rw [UInt64.toNat_min, Nat.min_self, Nat.min_eq_right (by omega)]

lemma toNat_nextRevision {current revision : UInt64} (h : nextRevision current = .ok revision) :
    revision.toNat = current.toNat + 1 := by
  unfold nextRevision at h
  split_ifs at h with hlt
  cases h
  rw [UInt64.toNat_add, UInt64.toNat_one, Nat.mod_eq_of_lt hlt]

/-- What every accepted command does: it counts one revision and sets the time of the last
change, which does not go back, in a session that has not ended. -/
structure Advances (session next : ExecutionSession) (transitionAt : DateTime) : Prop where
  wasOpen : session.status.isOpen = true
  id_eq : next.id = session.id
  revision_eq : next.revision.toNat = session.revision.toNat + 1
  updatedAt_eq : next.updatedAt = transitionAt
  updatedAt_le : session.updatedAt ≤ transitionAt

/-- The clock of a session stops, and what it shows is counted. -/
structure Stops (session next : ExecutionSession) (observedAt : DateTime) : Prop where
  stopped : next.observedRunningSince = none
  notActive : next.status ≠ .active
  accumulated_eq : session.elapsedSeconds observedAt = .ok next.accumulatedSeconds

/-- The clock of a paused session runs again from an instant on. -/
structure Restarts (session next : ExecutionSession) (observedAt : DateTime) : Prop where
  wasPaused : session.status = .paused
  active : next.status = .active
  running : next.observedRunningSince = some observedAt
  accumulated_eq : next.accumulatedSeconds = session.accumulatedSeconds

lemma pause_cases {input : PauseExecution}
    (h : session.pause input transitionAt observedAt = .ok next)
    (hle : session.updatedAt ≤ transitionAt) :
    Advances session next transitionAt ∧ Stops session next observedAt := by
  obtain ⟨⟨⟩, hguard, ⟨⟩, -, finish, -, accumulated, help, revision, hrev, hnext⟩ :=
    (by simpa only [pause, bind_eq_ok] using h)
  obtain ⟨-, hopen⟩ := require_eq_ok.mp hguard
  cases hnext
  refine ⟨⟨hopen, rfl, toNat_nextRevision hrev, rfl, hle⟩, ⟨rfl, fun hact => ?_, help⟩⟩
  cases hact

lemma resume_cases {input : ResumeExecution}
    (h : session.resume input transitionAt observedAt = .ok next)
    (hle : session.updatedAt ≤ transitionAt) :
    Advances session next transitionAt ∧ Restarts session next observedAt := by
  obtain ⟨⟨⟩, hguard, revision, hrev, hnext⟩ := (by simpa only [resume, bind_eq_ok] using h)
  obtain ⟨-, hpaused⟩ := require_eq_ok.mp hguard
  cases hnext
  exact ⟨⟨by rw [hpaused]; rfl, rfl, toNat_nextRevision hrev, rfl, hle⟩, ⟨hpaused, rfl, rfl, rfl⟩⟩

lemma finish_cases {sessionId : Uuid} {corrected : Option UInt64} {status : ExecutionStatus}
    (h : session.finish sessionId corrected status transitionAt observedAt = .ok next)
    (hle : session.updatedAt ≤ transitionAt) :
    Advances session next transitionAt ∧ Stops session next observedAt := by
  obtain ⟨⟨⟩, hguard, elapsed, help, ⟨⟩, -, revision, hrev, hnext⟩ :=
    (by simpa only [finish, bind_eq_ok] using h)
  obtain ⟨-, hopen, hend'⟩ := require_eq_ok.mp hguard
  cases hnext
  refine ⟨⟨hopen, rfl, toNat_nextRevision hrev, rfl, hle⟩, ⟨rfl, ?_, help⟩⟩
  rintro rfl
  exact hend' rfl

lemma defer_cases {input : DeferExecution}
    (h : session.defer input transitionAt observedAt = .ok next)
    (hle : session.updatedAt ≤ transitionAt) :
    Advances session next transitionAt ∧ Stops session next observedAt := by
  obtain ⟨⟨⟩, -, ⟨⟩, -, deferred, hfin, hnext⟩ := (by simpa only [defer, bind_eq_ok] using h)
  obtain ⟨hadv, hstops⟩ := finish_cases hfin hle
  cases hnext
  exact ⟨⟨hadv.wasOpen, hadv.id_eq, hadv.revision_eq, hadv.updatedAt_eq, hle⟩,
    ⟨hstops.stopped, hstops.notActive, hstops.accumulated_eq⟩⟩

/-- An accepted command advances an open session; it restarts the clock if it resumes the
session, and stops it otherwise. -/
lemma applyWithProtocolTime_cases
    (h : session.applyWithProtocolTime command transitionAt observedAt = .ok next) :
    Advances session next transitionAt ∧
      ((∃ input, command = .resume input) ∧ Restarts session next observedAt ∨
        command.stopsClock ∧ Stops session next observedAt) := by
  obtain ⟨⟨⟩, hguard, h⟩ := bind_eq_ok.mp h
  have hle := le_of_not_gt fun hlt => require_eq_ok.mp hguard (.inl hlt)
  cases command with
  | start input => cases h
  | pause input => exact (pause_cases h hle).imp_right fun hstops => .inr ⟨rfl, hstops⟩
  | resume input => exact (resume_cases h hle).imp_right fun hruns => .inl ⟨⟨input, rfl⟩, hruns⟩
  | complete input | skip input =>
    exact (finish_cases h hle).imp_right fun hstops => .inr ⟨rfl, hstops⟩
  | defer input => exact (defer_cases h hle).imp_right fun hstops => .inr ⟨rfl, hstops⟩

end

end ExecutionSession

end DayWeave
