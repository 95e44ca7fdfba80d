import DayWeave.Execution.Timer

/-!
Sessions on the wire.

A session is sent without the instant from which its clock runs; the reader takes the start of
the running segment, and refuses a window that does not fit the state. `Consistent` is what every
accepted command keeps, so that every session of a run is read back (`wire_roundtrip`).
-/

namespace DayWeave

open Except (bind_eq_ok require_eq_ok)

/-- A session as it is sent. -/
structure ExecutionSessionWire where
  id : Uuid
  itemId : Uuid
  itemRevision : UInt64
  occurrenceId : Option Uuid
  sessionIndex : UInt16
  plannedBlockId : Option Uuid
  sourceDeviceId : Uuid
  status : ExecutionStatus
  revision : UInt64
  accumulatedSeconds : UInt64
  actualSeconds : Option UInt64
  startedAt : DateTime
  runningSince : Option DateTime
  pausedAt : Option DateTime
  pauseUntil : Option DateTime
  pauseReason : Option String
  moveStart : Option DateTime
  moveEnd : Option DateTime
  endedAt : Option DateTime
  createdAt : DateTime
  updatedAt : DateTime

/-- Whether the window of a session fits its state. -/
def ExecutionSessionWire.windowFits (wire : ExecutionSessionWire) : Bool :=
  match wire.status, wire.moveStart, wire.moveEnd with
  | .deferred, some start, some finish =>
    wire.endedAt = some wire.updatedAt ∧ wire.updatedAt < start ∧ start < finish ∧
      start.hasPostgresTimestampPrecision ∧ finish.hasPostgresTimestampPrecision ∧
      finish.signedDurationSince start ≤ maxDeferSeconds * Duration.second
  | .deferred, _, _ => false
  | _, none, none => true
  | _, _, _ => false

namespace ExecutionSession

/-- Sends a session. -/
def toWire (s : ExecutionSession) : ExecutionSessionWire :=
  ⟨s.id, s.itemId, s.itemRevision, s.occurrenceId, s.sessionIndex, s.plannedBlockId,
    s.sourceDeviceId, s.status, s.revision, s.accumulatedSeconds, s.actualSeconds, s.startedAt,
    s.runningSince, s.pausedAt, s.pauseUntil, s.pauseReason, s.moveStart, s.moveEnd, s.endedAt,
    s.createdAt, s.updatedAt⟩

/-- Reads a session. -/
def tryFrom (wire : ExecutionSessionWire) : Except ExecutionDomainError ExecutionSession :=
  if wire.windowFits then
    .ok ⟨wire.id, wire.itemId, wire.itemRevision, wire.occurrenceId, wire.sessionIndex,
      wire.plannedBlockId, wire.sourceDeviceId, wire.status, wire.revision,
      wire.accumulatedSeconds, wire.actualSeconds, wire.startedAt, wire.runningSince,
      wire.runningSince, wire.pausedAt, wire.pauseUntil, wire.pauseReason, wire.moveStart,
      wire.moveEnd, wire.endedAt, wire.createdAt, wire.updatedAt⟩
  else .error .invalidDefer

/-- The times of a session fit its state. -/
structure Consistent (s : ExecutionSession) : Prop where
  running : s.runningSince.isSome ↔ s.status = .active
  ended : s.endedAt = if s.status.isOpen then none else some s.updatedAt
  window : s.status = .deferred → ∃ start finish, s.moveStart = some start ∧
    s.moveEnd = some finish ∧ s.updatedAt < start ∧ start < finish ∧
    start.hasPostgresTimestampPrecision ∧ finish.hasPostgresTimestampPrecision ∧
    finish.signedDurationSince start ≤ maxDeferSeconds * Duration.second
  noWindow : s.status ≠ .deferred → s.moveStart = none ∧ s.moveEnd = none

section

variable {session next : ExecutionSession} {command : ExecutionCommand}
  {transitionAt observedAt : DateTime} {input : StartExecution} {events : List ExecutionEvent}
  {corrected : Option UInt64} {status : ExecutionStatus} {sessionId : Uuid}

lemma Consistent.windowFits (h : session.Consistent) : session.toWire.windowFits := by
  by_cases hdef : session.status = .deferred
  · obtain ⟨start, finish, hst, hfin, hwin⟩ := h.window hdef
    have hend' := h.ended
    rw [hdef, ExecutionStatus.isOpen, if_neg Bool.false_ne_true] at hend'
    simpa [ExecutionSessionWire.windowFits, toWire, hdef, hst, hfin, hend'] using hwin
  · obtain ⟨hst, hfin⟩ := h.noWindow hdef
    simp only [ExecutionSessionWire.windowFits, toWire, hst, hfin]

lemma Consistent.of_isOpen (h : session.Consistent) (hopen : session.status.isOpen) :
    session.endedAt = none ∧ session.moveStart = none ∧ session.moveEnd = none := by
  refine ⟨h.ended.trans (if_pos hopen), h.noWindow ?_⟩
  intro heq
  rw [heq] at hopen
  cases hopen

lemma finish_eq_ok
    (h : session.finish sessionId corrected status transitionAt observedAt = .ok next) :
    session.status.isOpen ∧ ¬ status.isOpen ∧ next.status = status ∧ next.runningSince = none ∧
      next.endedAt = some next.updatedAt ∧ next.updatedAt = transitionAt ∧
      next.moveStart = session.moveStart ∧ next.moveEnd = session.moveEnd := by
  simp only [finish, bind_eq_ok, require_eq_ok] at h
  obtain ⟨-, ⟨-, hopen, hend'⟩, _, -, -, -, _, -, hnext⟩ := h
  cases hnext
  exact ⟨hopen, hend', rfl, rfl, rfl, rfl, rfl, rfl⟩

lemma Consistent.finish (h : session.Consistent) (hstat : status ≠ .deferred)
    (hfin : session.finish sessionId corrected status transitionAt observedAt = .ok next) :
    next.Consistent := by
  obtain ⟨hopen, hend', rfl, hrunning, hend, -, hst, hfin⟩ := finish_eq_ok hfin
  obtain ⟨-, hwin⟩ := h.of_isOpen hopen
  refine ⟨?_, by rw [hend, if_neg hend'], fun heq => absurd heq hstat,
    fun _ => by rw [hst, hfin]; exact hwin⟩
  rw [hrunning]
  refine iff_of_false Bool.false_ne_true fun hact => hend' ?_
  rw [hact]
  rfl

/-- **One command** keeps a session consistent. -/
lemma Consistent.step (h : session.Consistent)
    (hstep : session.applyWithProtocolTime command transitionAt observedAt = .ok next) :
    next.Consistent := by
  obtain ⟨⟨⟩, -, hstep⟩ := bind_eq_ok.mp hstep
  cases command with
  | start input => cases hstep
  | pause input =>
    simp only [pause, bind_eq_ok, require_eq_ok] at hstep
    obtain ⟨-, ⟨-, hopen⟩, -, -, _, -, _, -, _, -, hnext⟩ := hstep
    obtain ⟨hend, hwin⟩ := h.of_isOpen hopen
    cases hnext
    exact ⟨by simp, hend, by simp, fun _ => hwin⟩
  | resume input =>
    simp only [resume, bind_eq_ok, require_eq_ok] at hstep
    obtain ⟨-, ⟨-, hpaused⟩, _, -, hnext⟩ := hstep
    obtain ⟨hend, hwin⟩ := h.of_isOpen (by rw [hpaused]; rfl)
    cases hnext
    exact ⟨by simp, hend, by simp, fun _ => hwin⟩
  | complete input => exact h.finish (by decide) hstep
  | skip input => exact h.finish (by decide) hstep
  | defer input =>
    simp only [defer, bind_eq_ok, require_eq_ok] at hstep
    obtain ⟨-, -, ⟨⟩, hval, deferred, hfin, hnext⟩ := hstep
    obtain ⟨-, -, hstat, hrunning, hend, hupd, -, -⟩ := finish_eq_ok hfin
    simp only [validateDefer, bind_eq_ok, require_eq_ok, not_or, not_not, not_le] at hval
    obtain ⟨-, -, -, -, -, -, hst, hprecise, hfuture, hlt, hlen⟩ := hval
    cases hnext
    refine ⟨?_, ?_, fun _ => ⟨_, _, rfl, rfl, ?_, hlt, hst, hprecise, Int.not_lt.mp hlen⟩,
      fun hne => absurd hstat hne⟩
    · simp [hrunning, hstat]
    · simp [hend, hstat, ExecutionStatus.isOpen]
    · exact hupd.symm ▸ hfuture

/-- **Sessions survive the wire.** Every session of a run is read back as it was sent, except that
its clock runs from the start of the running segment; and its times fit its state. -/
theorem wire_roundtrip
    (hrun : (startWithProtocolTime input transitionAt observedAt).run events = .ok session) :
    tryFrom session.toWire = .ok { session with observedRunningSince := session.runningSince } ∧
      (session.runningSince.isSome ↔ session.status = .active) ∧
      (session.endedAt.isSome ↔ session.status.isOpen = false) ∧
      (session.moveStart.isSome ↔ session.status = .deferred) ∧
      (session.moveEnd.isSome ↔ session.status = .deferred) := by
  have h : session.Consistent := Except.foldlM_invariant
    (fun _ _ _ _ hstep h => h.step hstep) hrun
    ⟨by simp [startWithProtocolTime], rfl, by simp [startWithProtocolTime], fun _ => ⟨rfl, rfl⟩⟩
  refine ⟨if_pos h.windowFits, h.running, ?_, ?_⟩
  · rw [h.ended]
    split <;> simp_all
  · by_cases hdef : session.status = .deferred
    · obtain ⟨start, finish, hst, hfin, -⟩ := h.window hdef
      simp [hdef, hst, hfin]
    · obtain ⟨hst, hfin⟩ := h.noWindow hdef
      simp [hdef, hst, hfin]

end

end ExecutionSession

open Sample

/-- The break, and a deferral in place of the rest. -/
def Sample.deferredBreak : List ExecutionEvent :=
  oneBreak.take 1 ++ [⟨.defer ⟨Uuid.ofNat 1, .atSecond 7200, .atSecond 9000, none, none, none⟩,
    .atSecond 4050, .atSecond 450⟩]

/-- The deferred session is read back with its window. -/
theorem wire_roundtrip_deferred :
    ∃ session, (ExecutionSession.startWithProtocolTime startInput (.atSecond 3600)
        (.atSecond 0)).run deferredBreak = .ok session ∧
      session.moveEnd = some (.atSecond 9000) ∧ ExecutionSession.tryFrom session.toWire =
        .ok { session with observedRunningSince := session.runningSince } := by
  obtain ⟨session, hrun, hend⟩ : ∃ session, (ExecutionSession.startWithProtocolTime startInput
      (.atSecond 3600) (.atSecond 0)).run deferredBreak = .ok session ∧
      session.moveEnd = some (.atSecond 9000) := by decide +kernel
  exact ⟨session, hrun, hend, (ExecutionSession.wire_roundtrip hrun).1⟩

end DayWeave
