import Mathlib.Algebra.BigOperators.Group.List.Basic
import Mathlib.Algebra.GroupWithZero.Nat
import DayWeave.Execution.Session

/-!
The timer of a session over whole runs.

What a session should have counted is said by a stopwatch that sees only the commands and the
clock. `Tracks` relates a session to its stopwatch; every accepted command keeps it
(`Tracks.step`), so it holds after every run (`tracks_run`).
-/

namespace DayWeave

/-- The start of the running segment, if there is one, and the closed segments. -/
structure Stopwatch where
  running : Option DateTime
  closed : List (DateTime × DateTime)

namespace Stopwatch

/-- A stopwatch that has not been used. -/
def unused : Stopwatch := ⟨none, []⟩

/-- A command that the clock observes at an instant. -/
def press (watch : Stopwatch) (command : ExecutionCommand) (observedAt : DateTime) : Stopwatch :=
  if command.stopsClock then
    ⟨none, watch.closed ++ (watch.running.map fun started => (started, observedAt)).toList⟩
  else { watch with running := some observedAt }

/-- The whole seconds of a segment; a clock that was set back counts for nothing. -/
def segmentSeconds (segment : DateTime × DateTime) : ℕ :=
  (max (segment.2.signedDurationSince segment.1).wholeSeconds 0).toNat

/-- The whole seconds of all closed segments. -/
def seconds (watch : Stopwatch) : ℕ := (watch.closed.map segmentSeconds).sum

lemma seconds_press_of_stopsClock {watch : Stopwatch} {command : ExecutionCommand}
    {observedAt : DateTime} (h : command.stopsClock) :
    (watch.press command observedAt).seconds = watch.seconds +
      ((watch.running.map fun started => segmentSeconds (started, observedAt)).getD 0) := by
  rw [press, if_pos h, seconds, List.map_append, List.sum_append, seconds]
  cases watch.running with
  | none => rfl
  | some started => simp

end Stopwatch

/-- A command with the time of the protocol and the time of the clock. -/
structure ExecutionEvent where
  command : ExecutionCommand
  transitionAt : DateTime
  observedAt : DateTime

namespace ExecutionSession

/-- The session after a sequence of accepted commands. -/
def run (session : ExecutionSession) (events : List ExecutionEvent) :
    Except ExecutionFailure ExecutionSession :=
  events.foldlM (fun session event =>
    session.applyWithProtocolTime event.command event.transitionAt event.observedAt) session

end ExecutionSession

/-- The stopwatch after a sequence of commands. -/
def Stopwatch.run (watch : Stopwatch) (events : List ExecutionEvent) : Stopwatch :=
  events.foldl (fun watch event => watch.press event.command event.observedAt) watch

def Stopwatch.started (input : StartExecution) (observedAt : DateTime) : Stopwatch :=
  unused.press (.start input) observedAt

/-- A session shows what its stopwatch shows. -/
structure Tracks (session : ExecutionSession) (watch : Stopwatch) : Prop where
  running_eq : session.observedRunningSince = watch.running
  active_iff : session.status = .active ↔ watch.running.isSome
  accumulated_eq : session.accumulatedSeconds.toNat = min watch.seconds maxActualSeconds.toNat

section

variable {session next : ExecutionSession} {watch : Stopwatch} {event : ExecutionEvent}
  {events : List ExecutionEvent} {input : StartExecution} {transitionAt observedAt : DateTime}

lemma Tracks.start : Tracks (.startWithProtocolTime input transitionAt observedAt)
    (.started input observedAt) where
  running_eq := rfl
  active_iff := iff_of_true rfl rfl
  accumulated_eq := rfl

/-- The clock of a session shows the segment that is running. -/
lemma Tracks.runningSeconds_eq (h : Tracks session watch) (now : DateTime) :
    (session.runningSeconds now).toNat =
      (watch.running.map fun started => Stopwatch.segmentSeconds (started, now)).getD 0 := by
  unfold ExecutionSession.runningSeconds
  rw [h.running_eq]
  cases watch.running with
  | none => rfl
  | some started => rfl

/-- An accepted command keeps the session on its stopwatch. -/
lemma Tracks.step (h : Tracks session watch)
    (hstep : session.applyWithProtocolTime event.command event.transitionAt event.observedAt =
      .ok next) : Tracks next (watch.press event.command event.observedAt) := by
  obtain ⟨-, ⟨⟨input, hresume⟩, hruns⟩ | ⟨hcmd, hstops⟩⟩ :=
    ExecutionSession.applyWithProtocolTime_cases hstep
  · have hpress : watch.press event.command event.observedAt =
        { watch with running := some event.observedAt } := by
      rw [hresume]
      rfl
    rw [hpress]
    exact ⟨hruns.running, iff_of_true hruns.active rfl, hruns.accumulated_eq ▸ h.accumulated_eq⟩
  · refine ⟨?_, ?_, ?_⟩
    · rw [Stopwatch.press, if_pos hcmd]
      exact hstops.stopped
    · rw [Stopwatch.press, if_pos hcmd]
      exact iff_of_false hstops.notActive nofun
    · rw [ExecutionSession.toNat_elapsedSeconds hstops.accumulated_eq, h.accumulated_eq,
        h.runningSeconds_eq, Stopwatch.seconds_press_of_stopsClock hcmd]
      omega

/-- A session that keeps its stopwatch keeps it over a run. -/
lemma Tracks.run (h : Tracks session watch) (hrun : session.run events = .ok next) :
    Tracks next (watch.run events) := by
  induction events generalizing session watch with
  | nil =>
    cases hrun
    exact h
  | cons event rest ih =>
    obtain ⟨middle, hstep, hrest⟩ := Except.bind_eq_ok.mp hrun
    exact ih (h.step hstep) hrest

/-- A run counts one revision for each command, and the time of the last change does not go
back. -/
lemma run_advances (hrun : session.run events = .ok next) :
    next.revision.toNat = session.revision.toNat + events.length ∧
      session.updatedAt ≤ next.updatedAt := by
  induction events generalizing session with
  | nil =>
    cases hrun
    exact ⟨rfl, le_rfl⟩
  | cons event rest ih =>
    obtain ⟨middle, hstep, hrest⟩ := Except.bind_eq_ok.mp hrun
    obtain ⟨hadv, -⟩ := ExecutionSession.applyWithProtocolTime_cases hstep
    obtain ⟨hrev, hupd⟩ := ih hrest
    constructor
    · rw [hrev, hadv.revision_eq, List.length_cons]
      omega
    · calc session.updatedAt ≤ event.transitionAt := hadv.updatedAt_le
        _ = middle.updatedAt := hadv.updatedAt_eq.symm
        _ ≤ next.updatedAt := hupd

/-- **The timer is right after every run.** It has counted the whole seconds of the closed
running segments, each once, up to the largest number that is recorded; one revision is
counted for each command; the time of the last change has not gone back since any earlier
point of the run; and a session that has ended accepts no command. -/
theorem timer_correct
    (hrun : (ExecutionSession.startWithProtocolTime input transitionAt observedAt).run events =
      .ok session) : session.accumulatedSeconds.toNat =
        min ((Stopwatch.started input observedAt).run events).seconds maxActualSeconds.toNat ∧
      session.revision.toNat = 1 + events.length ∧
      (∀ before after earlier, events = before ++ after →
        (ExecutionSession.startWithProtocolTime input transitionAt observedAt).run before =
          .ok earlier → earlier.updatedAt ≤ session.updatedAt) ∧
      (session.status.isOpen = false → ∀ command transitionAt observedAt next,
        session.applyWithProtocolTime command transitionAt observedAt ≠ .ok next) := by
  refine ⟨(Tracks.start.run hrun).accumulated_eq, ?_, ?_, ?_⟩
  · rw [(run_advances hrun).1]
    rfl
  · rintro before after earlier rfl hbef
    rw [ExecutionSession.run, List.foldlM_append, Except.bind_eq_ok] at hrun
    obtain ⟨middle, hmiddle, haft⟩ := hrun
    cases hbef.symm.trans hmiddle
    exact (run_advances haft).2
  · intro hend' command transitionAt observedAt next hstep
    have hopen := (ExecutionSession.applyWithProtocolTime_cases hstep).1.wasOpen
    rw [hend'] at hopen
    cases hopen

end

namespace Sample

def startInput : StartExecution :=
  ⟨Uuid.ofNat 1, Uuid.ofNat 2, 4, none, 0, some (Uuid.ofNat 3), Uuid.ofNat 4⟩

/-- A pause after 90 seconds, on for 300 seconds, and an end after 60 more; the time of the
protocol is an hour ahead. -/
def oneBreak : List ExecutionEvent :=
  [⟨.pause ⟨Uuid.ofNat 1, some 300, none, some "Tea"⟩, .atSecond 3690, .atSecond 90⟩,
    ⟨.resume ⟨Uuid.ofNat 1⟩, .atSecond 3990, .atSecond 390⟩,
    ⟨.complete ⟨Uuid.ofNat 1, none⟩, .atSecond 4050, .atSecond 450⟩]

end Sample

open Sample

/-- A session with one break has counted 150 seconds. -/
theorem timer_correct_oneBreak :
    ∃ session, (ExecutionSession.startWithProtocolTime startInput (.atSecond 3600)
        (.atSecond 0)).run oneBreak = .ok session ∧
      session.accumulatedSeconds.toNat = 150 ∧ session.revision.toNat = 4 ∧
      ∀ command transitionAt observedAt next,
        session.applyWithProtocolTime command transitionAt observedAt ≠ .ok next := by
  obtain ⟨session, hrun, hend'⟩ : ∃ session, (ExecutionSession.startWithProtocolTime startInput
      (.atSecond 3600) (.atSecond 0)).run oneBreak = .ok session ∧
      session.status.isOpen = false := by
    decide +kernel
  obtain ⟨hsecs, hrev, -, hnothing⟩ := timer_correct hrun
  refine ⟨session, hrun, ?_, hrev, hnothing hend'⟩
  rw [hsecs]
  decide +kernel

end DayWeave
