import DayWeave.Execution.Timer
import DayWeave.Lib.Map
import DayWeave.Lib.Order

/-!
The repository of sessions that is kept in memory.

Requests come one after the other, from any number of clients and with any values of the clock.
What a repository should hold is said by the list of the commands that were accepted
(`MemoryState.events`): every request keeps it sound for that list (`IsSound.handle`).
-/

open Std

namespace DayWeave

/-- The session that a command is about. -/
def ExecutionCommand.sessionId : ExecutionCommand → Uuid
  | .start input => input.sessionId
  | .pause input => input.sessionId
  | .resume input => input.sessionId
  | .complete input | .skip input => input.sessionId
  | .defer input => input.sessionId

namespace Execution

open Except (bind_eq_ok ite_error_eq_ok ite_eq_ok mapError_eq_ok)
open Option (okOr_eq_ok)

/-- Why a call is refused. -/
inductive ExecutionRepositoryError where
  | revisionConflict (expected actual : UInt64)
  | activeSessionConflict
  | sessionNotFound (id : Uuid)
  | duplicateSession (id : Uuid)
  | scheduleStale
  | idempotencyConflict
  | invalidCommand (failure : ExecutionFailure)
  | internal
deriving DecidableEq

/-- The answer to a call. -/
structure ExecutionMutation where
  revision : UInt64
  activeSession : Option ExecutionSession
  changedSession : ExecutionSession
  replayed : Bool
deriving DecidableEq

/-- An answer that is given again to a call with the same fingerprint, until it expires. -/
structure MemoryIdempotency where
  fingerprint : Vector UInt8 32
  expiresAt : DateTime
  mutation : ExecutionMutation

/-- The state of the repository. -/
structure MemoryState where
  revision : UInt64 := 0
  activeSessionId : Option Uuid := none
  protocolUpdatedAt : Option DateTime := none
  sessions : ExtTreeMap Uuid ExecutionSession := ∅
  idempotency : ExtTreeMap (Vector UInt8 32) MemoryIdempotency := ∅

/-- The key of a call and what tells it from other calls. -/
structure ExecutionIdempotency where
  keyHash : Vector UInt8 32
  fingerprint : Vector UInt8 32
  expiresAt : DateTime

/-- A call of a client, at a time of the clock. -/
structure Call extends ExecutionIdempotency where
  expectedRevision : UInt64
  command : ExecutionCommand
  now : DateTime

/-- What a client may send: a call, or the question for the answer to an earlier one. -/
inductive Request where
  | apply (call : Call)
  | replay (now : DateTime) (idempotency : ExecutionIdempotency)

/-- The time of the clock at a request. -/
def Request.now : Request → DateTime
  | .apply call => call.now
  | .replay now _ => now

/-- The next time of the protocol: that of the clock, or a microsecond after the last one. -/
def nextProtocolTime (now : DateTime) :
    Option DateTime → Except ExecutionRepositoryError DateTime
  | none => .ok now
  | some previous =>
    if previous < now then .ok now else (previous.checkedAddSigned 1000).okOr .internal

namespace MemoryState

variable (state : MemoryState)

/-- The newest session of the work unit that a session would be started for. -/
def newestSemanticSession (input : StartExecution) : Option ExecutionSession :=
  greatestBy (compareLex (compareOn fun session => decide (some session.id = state.activeSessionId))
      (compareLex (compareOn ExecutionSession.updatedAt) (compareOn ExecutionSession.id)))
    ((state.sessions.toList.map Prod.snd).filter fun session =>
      session.itemId = input.itemId ∧ session.itemRevision = input.itemRevision ∧
        session.occurrenceId = input.occurrenceId ∧ session.sessionIndex = input.sessionIndex)

/-- What a command makes of its session, and the session that is active then. -/
def change (command : ExecutionCommand) (transitionAt now : DateTime) :
    Except ExecutionRepositoryError (Option Uuid × ExecutionSession) :=
  match command with
  | .start input =>
    if state.activeSessionId.isSome then .error .activeSessionConflict
    else if input.sessionId ∈ state.sessions then .error (.duplicateSession input.sessionId)
    else
      match state.newestSemanticSession input with
      | some head => .error (if head.status.isOpen then .activeSessionConflict else .scheduleStale)
      | none => .ok (some input.sessionId, .startWithProtocolTime input transitionAt now)
  | command => do
    let activeId ← state.activeSessionId.okOr (.sessionNotFound command.sessionId)
    if activeId ≠ command.sessionId then .error (.sessionNotFound command.sessionId)
    else
      let current ← state.sessions[activeId]?.okOr .internal
      let updated ← (current.applyWithProtocolTime command transitionAt now).mapError
        .invalidCommand
      .ok (if updated.status.isOpen then some updated.id else none, updated)

/-- Carries out a call that was not answered before. -/
def commit (call : Call) : Except ExecutionRepositoryError (MemoryState × ExecutionMutation) :=
  if call.expectedRevision ≠ state.revision then
    .error (.revisionConflict call.expectedRevision state.revision)
  else do
    let transitionAt ← nextProtocolTime call.now state.protocolUpdatedAt
    let (activeSessionId, changed) ← state.change call.command transitionAt call.now
    if ¬ state.revision.toNat + 1 < UInt64.size then .error .internal
    else
      let sessions := state.sessions.insert changed.id changed
      let mutation : ExecutionMutation :=
        ⟨state.revision + 1, activeSessionId.bind (sessions[·]?), changed, false⟩
      .ok (⟨state.revision + 1, activeSessionId, some transitionAt, sessions,
        state.idempotency.insert call.keyHash ⟨call.fingerprint, call.expiresAt, mutation⟩⟩,
        mutation)

/-- The state without the answers that have expired. -/
def retain (now : DateTime) : MemoryState :=
  { state with
    idempotency := state.idempotency.filter fun _ entry => decide (now < entry.expiresAt) }

/-- Answers a call. A call that is refused changes nothing but that expired answers are
forgotten. -/
def apply (call : Call) : MemoryState × Except ExecutionRepositoryError ExecutionMutation :=
  let state := state.retain call.now
  match state.idempotency[call.keyHash]? with
  | some entry =>
    (state, if entry.fingerprint = call.fingerprint then
      .ok { entry.mutation with replayed := true }
      else .error .idempotencyConflict)
  | none =>
    match state.commit call with
    | .ok (next, mutation) => (next, .ok mutation)
    | .error error => (state, .error error)

/-- The answer under a key, if it has not expired. -/
def replay (now : DateTime) (idempotency : ExecutionIdempotency) :
    MemoryState × Except ExecutionRepositoryError (Option ExecutionMutation) :=
  let state := state.retain now
  match state.idempotency[idempotency.keyHash]? with
  | none => (state, .ok none)
  | some entry =>
    (state, if entry.fingerprint ≠ idempotency.fingerprint then .error .idempotencyConflict
      else .ok (some { entry.mutation with replayed := true }))

/-- The state after a request. -/
def handle : Request → MemoryState
  | .apply call => (state.apply call).1
  | .replay now idempotency => (state.replay now idempotency).1

/-- The state after some requests. -/
def after (requests : List Request) : MemoryState := requests.foldl handle state

/-- The command of a call that is accepted, with its times. -/
def accepted : Request → List ExecutionEvent
  | .apply call =>
    match (state.apply call).2 with
    | .ok mutation =>
      if mutation.replayed then []
      else [⟨call.command, mutation.changedSession.updatedAt, call.now⟩]
    | .error _ => []
  | .replay _ _ => []

/-- The commands that are accepted. -/
def events : MemoryState → List Request → List ExecutionEvent
  | _, [] => []
  | state, request :: requests =>
    state.accepted request ++ (state.handle request).events requests

end MemoryState

/-! ### One call -/

/-- The commands about a session. -/
def about (id : Uuid) (events : List ExecutionEvent) : List ExecutionEvent :=
  events.filter (·.command.sessionId = id)

/-- The session that its commands lead to. -/
def sessionAfter : List ExecutionEvent → Option ExecutionSession
  | ⟨.start input, transitionAt, observedAt⟩ :: events =>
    ((ExecutionSession.startWithProtocolTime input transitionAt observedAt).run events).toOption
  | _ => none

/-- What holds of a repository that has accepted some commands. -/
structure IsSound (events : List ExecutionEvent) (state : MemoryState) : Prop where
  revision_eq : state.revision.toNat = events.length
  increasing : events.Pairwise (·.transitionAt < ·.transitionAt)
  le_last : ∀ event ∈ events, ∃ last ∈ state.protocolUpdatedAt, event.transitionAt ≤ last
  mem_sessions : ∀ event ∈ events, event.command.sessionId ∈ state.sessions
  session_eq : ∀ id : Uuid, state.sessions[id]? = sessionAfter (about id events)
  stored : ∀ ⦃id : Uuid⦄ ⦃session : ExecutionSession⦄, state.sessions[id]? = some session →
    session.id = id ∧ (session.status.isOpen = true ↔ state.activeSessionId = some id) ∧
      ∃ last ∈ state.protocolUpdatedAt, session.updatedAt ≤ last
  active_mem : ∀ id ∈ state.activeSessionId, id ∈ state.sessions

variable {state next : MemoryState} {call : Call} {mutation : ExecutionMutation}
  {now transitionAt : DateTime} {events : List ExecutionEvent}

section

variable {previous : Option DateTime} (h : nextProtocolTime now previous = .ok transitionAt)

include h

lemma lt_nextProtocolTime : ∀ last ∈ previous, last < transitionAt := by
  rintro last rfl
  rw [nextProtocolTime] at h
  split_ifs at h with hlt
  · cases h
    exact hlt
  · rw [okOr_eq_ok, DateTime.checkedAddSigned, DateTime.ofNanos] at h
    split_ifs at h
    cases h
    exact Int.lt_add_of_pos_right _ (by decide)

/-- The time of the protocol is never behind the clock. -/
lemma le_nextProtocolTime : now ≤ transitionAt := by
  cases previous with
  | none =>
    cases h
    exact le_rfl
  | some previous =>
    have hlt := lt_nextProtocolTime h previous rfl
    rw [nextProtocolTime] at h
    split_ifs at h with hahead
    · cases h
      exact le_rfl
    · exact (le_of_not_gt hahead).trans hlt.le

end

/-- One more command about a session. -/
lemma sessionAfter_append {event : ExecutionEvent} {session next : ExecutionSession}
    (h : sessionAfter events = some session)
    (happ : session.applyWithProtocolTime event.command event.transitionAt event.observedAt =
      .ok next) : sessionAfter (events ++ [event]) = some next := by
  unfold sessionAfter at h
  split at h
  · rename_i input transitionAt observedAt events
    cases hrun : (ExecutionSession.startWithProtocolTime input transitionAt
        observedAt).run events with
    | error error => simp [hrun, Except.toOption] at h
    | ok found =>
      cases (congrArg Except.toOption hrun).symm.trans h
      rw [List.cons_append, sessionAfter, ExecutionSession.run, List.foldlM_append]
      exact congrArg Except.toOption (bind_eq_ok.mpr ⟨_, hrun, bind_eq_ok.mpr ⟨_, happ, rfl⟩⟩)
  · cases h

/-- **A command** goes to the session that is open, if there is one. -/
lemma IsSound.change (h : IsSound events state) {command : ExecutionCommand} {active : Option Uuid}
    {changed : ExecutionSession}
    (hch : state.change command transitionAt now = .ok (active, changed)) :
    active = (if changed.status.isOpen then some changed.id else none) ∧
      changed.id = command.sessionId ∧ changed.updatedAt = transitionAt ∧
      (∀ id ∈ state.activeSessionId, id = changed.id) ∧
      sessionAfter (about command.sessionId events ++ [⟨command, transitionAt, now⟩]) =
        some changed := by
  unfold MemoryState.change at hch
  split at hch
  · rename_i input
    simp only [ite_error_eq_ok] at hch
    obtain ⟨hnone, hnew, hch⟩ := hch
    -- no event is about a new session
    have hnil : about input.sessionId events = [] := by
      refine List.filter_eq_nil_iff.mpr fun event hevt heq => hnew ?_
      rw [← of_decide_eq_true heq]
      exact h.mem_sessions event hevt
    split at hch
    · cases hch
    · cases hch
      refine ⟨rfl, rfl, rfl, by simp_all, ?_⟩
      rw [ExecutionCommand.sessionId, hnil]
      rfl
  · simp only [bind_eq_ok, okOr_eq_ok, ite_error_eq_ok, mapError_eq_ok, not_not] at hch
    obtain ⟨activeId, hact, rfl, current, hcur, updated, happ, heq⟩ := hch
    cases heq
    obtain ⟨hadv, -⟩ := ExecutionSession.applyWithProtocolTime_cases happ
    have hid := hadv.id_eq.trans (h.stored hcur).1
    refine ⟨rfl, hid, hadv.updatedAt_eq, fun id hmem => ?_, ?_⟩
    · cases hact.symm.trans hmem
      exact hid.symm
    · exact sessionAfter_append ((h.session_eq _).symm.trans hcur) happ

/-- What an accepted call does. -/
lemma IsSound.commit (h : IsSound events state) (hcm : state.commit call = .ok (next, mutation)) :
    IsSound (events ++ [⟨call.command, mutation.changedSession.updatedAt, call.now⟩]) next ∧
      call.expectedRevision = state.revision ∧ mutation.replayed = false ∧
      next.idempotency =
        state.idempotency.insert call.keyHash ⟨call.fingerprint, call.expiresAt, mutation⟩ := by
  simp only [MemoryState.commit, ite_error_eq_ok, bind_eq_ok, not_not] at hcm
  obtain ⟨hrev, transitionAt, htime, ⟨active, changed⟩, hch, hfits, heq⟩ := hcm
  obtain ⟨rfl, hid, rfl, hold, hafter⟩ := h.change hch
  cases heq
  -- the protocol time moves past every earlier event
  have hbefore : ∀ event ∈ events, event.transitionAt < changed.updatedAt := fun event hevt => by
    obtain ⟨last, hlast, hle⟩ := h.le_last event hevt
    exact hle.trans_lt (lt_nextProtocolTime htime last hlast)
  have hins : ∀ id : Uuid, (state.sessions.insert changed.id changed)[id]? =
      if changed.id = id then some changed else state.sessions[id]? := by
    simp [ExtTreeMap.getElem?_insert]
  refine ⟨⟨?_, ?_, fun event hevt => ⟨_, rfl, ?_⟩, fun event hevt => ?_, fun id => ?_,
    fun id session hfnd => ?_, fun id hact => ?_⟩, hrev, rfl, rfl⟩
  · rw [List.length_append, ← h.revision_eq]
    exact Nat.mod_eq_of_lt hfits
  · exact List.pairwise_append.mpr
      ⟨h.increasing, List.pairwise_singleton _ _, by simpa using hbefore⟩
  · rcases List.mem_append.mp hevt with hevt | hevt
    · exact (hbefore event hevt).le
    · rw [List.mem_singleton.mp hevt]
  · rw [ExtTreeMap.mem_insert, Std.compare_eq_iff_eq]
    rcases List.mem_append.mp hevt with hevt | hevt
    · exact .inr (h.mem_sessions event hevt)
    · exact .inl (by rw [List.mem_singleton.mp hevt, hid])
  · refine (hins id).trans ?_
    rw [about, List.filter_append, ← about]
    by_cases heq : changed.id = id
    · cases hid.symm.trans heq
      rw [if_pos hid, List.filter_cons_of_pos (by simp)]
      exact hafter.symm
    · rw [if_neg heq, List.filter_cons_of_neg (by simpa [← hid] using heq), List.filter_nil,
        List.append_nil, h.session_eq]
  · rw [hins] at hfnd
    split_ifs at hfnd with heq
    · cases hfnd
      simp [heq]
    · obtain ⟨hkey, hopen, last, hlast, hle⟩ := h.stored hfnd
      refine ⟨hkey, hopen.trans (iff_of_false (fun hact => heq ?_) fun hact => ?_), _, rfl, ?_⟩
      · exact (hold id hact).symm
      · split_ifs at hact
        exact heq (Option.some.inj hact)
      · exact hle.trans (lt_nextProtocolTime htime last hlast).le
  · dsimp only at hact ⊢
    split_ifs at hact
    · rw [ExtTreeMap.mem_insert, Std.compare_eq_iff_eq]
      exact .inl (by cases hact; rfl)
    · cases hact

lemma IsSound.retain (h : IsSound events state) : IsSound events (state.retain now) :=
  ⟨h.revision_eq, h.increasing, h.le_last, h.mem_sessions, h.session_eq, h.stored, h.active_mem⟩

/-- **Every call** keeps a repository sound; it is accepted for the current revision, or it
changes nothing but that answers are forgotten. -/
lemma IsSound.apply (h : IsSound events state) (call : Call) :
    IsSound (events ++ state.accepted (.apply call)) (state.apply call).1 ∧
      ((∃ mutation, (state.apply call).2 = .ok mutation ∧ mutation.replayed = false ∧
        call.expectedRevision = state.revision ∧ state.accepted (.apply call) ≠ [] ∧
        (state.retain call.now).idempotency[call.keyHash]? = none ∧
        (state.apply call).1.idempotency = (state.retain call.now).idempotency.insert call.keyHash
          ⟨call.fingerprint, call.expiresAt, mutation⟩) ∨
      ((state.apply call).1 = state.retain call.now ∧
        ∀ mutation, (state.apply call).2 = .ok mutation → mutation.replayed = true)) := by
  unfold MemoryState.accepted MemoryState.apply
  dsimp only
  cases hent : (state.retain call.now).idempotency[call.keyHash]? with
  | some entry =>
    dsimp only
    split_ifs with heq
    · simp [h.retain]
    · simp [h.retain]
  | none =>
    dsimp only
    cases hcm : (state.retain call.now).commit call with
    | ok result =>
      obtain ⟨hnext, hexp, hnew, hans⟩ := h.retain.commit hcm
      simp only [hnew, Bool.false_eq_true, if_false]
      exact ⟨hnext, .inl ⟨_, rfl, hnew, hexp, List.cons_ne_nil _ _, trivial, hans⟩⟩
    | error error => simp [h.retain]

/-- The question for an answer only forgets answers. -/
lemma replay_state (now : DateTime) (idempotency : ExecutionIdempotency) :
    (state.replay now idempotency).1 = state.retain now := by
  unfold MemoryState.replay
  dsimp only
  split <;> rfl

/-- **Every request** keeps a repository sound. -/
lemma IsSound.handle (h : IsSound events state) (request : Request) :
    IsSound (events ++ state.accepted request) (state.handle request) := by
  cases request with
  | apply call => exact (h.apply call).1
  | replay now idempotency =>
    rw [MemoryState.accepted, List.append_nil, MemoryState.handle, replay_state]
    exact h.retain

/-- **Every run** keeps a repository sound. -/
lemma IsSound.after (h : IsSound events state) (requests : List Request) :
    IsSound (events ++ state.events requests) (state.after requests) := by
  induction requests generalizing state events with
  | nil => rwa [MemoryState.events, List.append_nil]
  | cons request requests ih =>
    rw [MemoryState.events, ← List.append_assoc]
    exact ih (h.handle request)

lemma isSound_empty : IsSound [] {} := by
  constructor <;> simp [about, sessionAfter]

/-- The check of the clock in `applyWithProtocolTime` refuses no command. -/
lemma IsSound.clock_ok (h : IsSound events state) {id : Uuid} {session : ExecutionSession}
    (hfnd : state.sessions[id]? = some session)
    (htime : nextProtocolTime now state.protocolUpdatedAt = .ok transitionAt) :
    ¬ (transitionAt < session.updatedAt ∨ transitionAt < now) := by
  obtain ⟨-, -, last, hlast, hle⟩ := h.stored hfnd
  have hupdated := hle.trans (lt_nextProtocolTime htime last hlast).le
  exact not_or.mpr ⟨hupdated.not_gt, (le_nextProtocolTime htime).not_gt⟩

/-- Of two calls that are accepted, the later one names the greater revision. -/
lemma IsSound.expectedRevision_lt (h : IsSound events state) {first second : Call}
    {between : List Request} {m m' : ExecutionMutation} (hfst : (state.apply first).2 = .ok m)
    (hm : m.replayed = false)
    (hsnd : (((state.apply first).1.after between).apply second).2 = .ok m')
    (hm' : m'.replayed = false) : first.expectedRevision < second.expectedRevision := by
  obtain ⟨hnext, ⟨-, -, -, hexp, hne, -⟩ | ⟨-, hold⟩⟩ := h.apply first
  · have hend := hnext.after between
    obtain ⟨-, ⟨-, -, -, hexp', -⟩ | ⟨-, hold⟩⟩ := hend.apply second
    · rw [hexp, hexp', UInt64.lt_iff_toNat_lt, h.revision_eq, hend.revision_eq]
      have hpos := List.length_pos_of_ne_nil hne
      simp only [List.length_append]
      omega
    · exact absurd (hold m' hsnd) (by simp [hm'])
  · exact absurd (hold m hfst) (by simp [hm])

/-- Before it expires, an answer is not forgotten. -/
lemma getElem?_retain {key : Vector UInt8 32} {entry : MemoryIdempotency}
    (hent : state.idempotency[key]? = some entry) (hnow : now < entry.expiresAt) :
    (state.retain now).idempotency[key]? = some entry := by
  rw [MemoryState.retain, ExtTreeMap.getElem?_filter', hent, Option.filter_some, if_pos]
  exact decide_eq_true hnow

/-- An answer is kept until it expires. -/
lemma IsSound.getElem?_after (h : IsSound events state) {key : Vector UInt8 32}
    {entry : MemoryIdempotency} (hent : state.idempotency[key]? = some entry)
    {requests : List Request} (hreqs : ∀ request ∈ requests, request.now < entry.expiresAt) :
    (state.after requests).idempotency[key]? = some entry := by
  induction requests generalizing state events with
  | nil => exact hent
  | cons request requests ih =>
    obtain ⟨hreq, hreqs⟩ := List.forall_mem_cons.mp hreqs
    have hkept := getElem?_retain hent hreq
    refine ih (h.handle request) ?_ hreqs
    cases request with
    | replay now idempotency =>
      rw [MemoryState.handle, replay_state]
      exact hkept
    | apply call =>
      obtain ⟨-, ⟨_, -, -, -, -, hnone, hans⟩ | ⟨heq, -⟩⟩ := h.apply call
      · rw [MemoryState.handle, hans, ExtTreeMap.getElem?_insert, if_neg]
        · exact hkept
        · intro heq
          rw [LawfulEqOrd.eq_of_compare heq] at hnone
          cases hkept.symm.trans hnone
      · rw [MemoryState.handle, heq]
        exact hkept

/-- A call that was accepted gets its answer again until that expires. -/
lemma IsSound.apply_again (h : IsSound events state) {call again : Call} {between : List Request}
    {m : ExecutionMutation} (hcall : (state.apply call).2 = .ok m) (hm : m.replayed = false)
    (hkey : again.keyHash = call.keyHash) (hfp : again.fingerprint = call.fingerprint)
    (hnow : ∀ other ∈ between ++ [.apply again], other.now < call.expiresAt) :
    let later := (state.apply call).1.after between
    later.apply again = (later.retain again.now, .ok { m with replayed := true }) := by
  intro later
  obtain ⟨hbetween, hagain⟩ := List.forall_mem_append.mp hnow
  obtain ⟨hnext, ⟨m', hok, -, -, -, -, hans⟩ | ⟨-, hold⟩⟩ := h.apply call
  · cases hok.symm.trans hcall
    have hkept := hnext.getElem?_after
      (by rw [hans, ExtTreeMap.getElem?_insert_self]) hbetween
    have hentry : (later.retain again.now).idempotency[again.keyHash]? =
        some ⟨call.fingerprint, call.expiresAt, m⟩ :=
      getElem?_retain (hkey ▸ hkept) (hagain _ (List.mem_singleton_self _))
    simp [MemoryState.apply, hentry, hfp]
  · exact absurd (hold m hcall) (by simp [hm])

/-! ### Runs -/

open Sample (startInput)

namespace Sample

/-- A call with a key of its own, whose answer is kept for an hour. -/
def callAt (second : ℕ) (key : UInt8) (expectedRevision : UInt64)
    (command : ExecutionCommand) : Call :=
  ⟨⟨.replicate 32 key, .replicate 32 0, .atSecond 3600⟩, expectedRevision, command,
    .atSecond second⟩

/-- A session starts. -/
def startCall : Call := callAt 60 1 0 (.start startInput)

/-- It is completed, and the clock was set back. -/
def completeCall : Call := callAt 30 2 1 (.complete ⟨startInput.sessionId, none⟩)

/-- A call for an old revision, after the answers have expired. -/
def lateCall : Call := callAt 3600 3 0 (.resume ⟨startInput.sessionId⟩)

end Sample

open Execution.Sample (startCall completeCall lateCall)

lemma after_append (before between : List Request) (call : Call) :
    state.after (before ++ .apply call :: between) =
      ((state.after before).apply call).1.after between := by
  rw [MemoryState.after, List.foldl_append, List.foldl_cons]
  rfl

/-- **At most one session is open** after any requests: the active one. -/
theorem one_open_session (requests : List Request) : let state := ({} : MemoryState).after requests
    (∀ (id : Uuid) (session : ExecutionSession), state.sessions[id]? = some session →
      (session.status.isOpen = true ↔ state.activeSessionId = some id)) ∧
      ∀ id ∈ state.activeSessionId, id ∈ state.sessions := by
  have h := isSound_empty.after requests
  exact ⟨fun _ _ hfnd => (h.stored hfnd).2.1, h.active_mem⟩

/-- **The sessions are what the accepted commands make of them**, each counted once, and the
times of the protocol increase whatever the clock shows. -/
theorem sessions_are_runs (requests : List Request) :
    let state := ({} : MemoryState).after requests
    let events := ({} : MemoryState).events requests
    state.revision.toNat = events.length ∧ events.Pairwise (·.transitionAt < ·.transitionAt) ∧
      (∀ event ∈ events, event.command.sessionId ∈ state.sessions) ∧
      ∀ id : Uuid, state.sessions[id]? = sessionAfter (about id events) := by
  have h := isSound_empty.after requests
  exact ⟨h.revision_eq, h.increasing, h.mem_sessions, h.session_eq⟩

/-- A session that was completed after the clock was set back, a microsecond after it started. -/
example : (({} : MemoryState).events [.apply startCall, .apply completeCall]).map
    (·.transitionAt.nanos) = [60000000000, 60000001000] := by
  decide +kernel

/-- **Of the calls for one revision at most one is accepted**, whatever comes between. -/
theorem accepted_once (before between : List Request) (first second : Call)
    {m m' : ExecutionMutation}
    (h : ((({} : MemoryState).after before).apply first).2 = .ok m) (hm : m.replayed = false)
    (h' : ((({} : MemoryState).after (before ++ .apply first :: between)).apply second).2 = .ok m')
    (hm' : m'.replayed = false) : first.expectedRevision < second.expectedRevision := by
  rw [after_append] at h'
  exact (isSound_empty.after before).expectedRevision_lt h hm h' hm'

theorem accepted_once_completed : startCall.expectedRevision < completeCall.expectedRevision := by
  obtain ⟨m, h, hm⟩ : ∃ m, (({} : MemoryState).apply startCall).2 = .ok m ∧ m.replayed = false := by
    decide +kernel
  obtain ⟨m', h', hm'⟩ : ∃ m', ((({} : MemoryState).after [.apply startCall]).apply
      completeCall).2 = .ok m' ∧ m'.replayed = false := by
    decide +kernel
  exact accepted_once [] [] startCall completeCall h hm h' hm'

/-- **A call that was accepted is answered again** before the answer expires, whatever comes
between, and changes no session then. -/
theorem repeated_call_replayed (before between : List Request) (call again : Call)
    {m : ExecutionMutation} (h : ((({} : MemoryState).after before).apply call).2 = .ok m)
    (hm : m.replayed = false) (hkey : again.keyHash = call.keyHash)
    (hfp : again.fingerprint = call.fingerprint)
    (hnow : ∀ other ∈ between ++ [.apply again], other.now < call.expiresAt) :
    let state := ({} : MemoryState).after (before ++ .apply call :: between)
    state.apply again = (state.retain again.now, .ok { m with replayed := true }) := by
  rw [after_append]
  exact (isSound_empty.after before).apply_again h hm hkey hfp hnow

/-- The start is repeated after the session was completed. -/
theorem repeated_call_replayed_completed : ∃ m : ExecutionMutation,
    let state := ({} : MemoryState).after [.apply startCall, .apply completeCall]
    state.apply startCall = (state.retain startCall.now, .ok { m with replayed := true }) := by
  obtain ⟨m, h, hm⟩ : ∃ m, (({} : MemoryState).apply startCall).2 = .ok m ∧ m.replayed = false := by
    decide +kernel
  exact ⟨m, repeated_call_replayed [] [.apply completeCall] startCall startCall h hm rfl rfl
    (by decide)⟩

/-- **One timer, and every command once.** After any requests at most one session is open, the
active one; the revision counts the accepted commands; the times of the protocol increase, so
that the check of the clock refuses no command; and if a call is accepted next, no later call
for the same revision is, and a repetition of it gets the same answer and changes neither
sessions nor revision, unless the clock has shown the time of expiry in between. -/
theorem commands_exactly_once (requests : List Request) :
    let state := ({} : MemoryState).after requests
    let events := ({} : MemoryState).events requests
    (∀ (id : Uuid) (session : ExecutionSession), state.sessions[id]? = some session →
      (session.status.isOpen = true ↔ state.activeSessionId = some id)) ∧
    state.revision.toNat = events.length ∧ events.Pairwise (·.transitionAt < ·.transitionAt) ∧
    (∀ (id : Uuid) (session : ExecutionSession) (now transitionAt : DateTime),
      state.sessions[id]? = some session →
      nextProtocolTime now state.protocolUpdatedAt = .ok transitionAt →
      ¬ (transitionAt < session.updatedAt ∨ transitionAt < now)) ∧
    ∀ (call : Call) (m : ExecutionMutation) (between : List Request),
      (state.apply call).2 = .ok m → m.replayed = false →
      let later := (state.apply call).1.after between
      (∀ (other : Call) (m' : ExecutionMutation), (later.apply other).2 = .ok m' →
        m'.replayed = false → other.expectedRevision ≠ call.expectedRevision) ∧
      ∀ again : Call, again.keyHash = call.keyHash → again.fingerprint = call.fingerprint →
        (∀ other ∈ between ++ [.apply again], other.now < call.expiresAt) →
        (later.apply again).2 = .ok { m with replayed := true } ∧
          (later.apply again).1.sessions = later.sessions ∧
          (later.apply again).1.revision = later.revision := by
  intro state events
  have h : IsSound events state := isSound_empty.after requests
  refine ⟨fun id session hfnd => (h.stored hfnd).2.1, h.revision_eq, h.increasing,
    fun id session now transitionAt hfnd htime => h.clock_ok hfnd htime,
    fun call m between hok hm => ⟨fun other m' hok' hm' heq => ?_,
      fun again hkey hfp hnow => ?_⟩⟩
  · have hlt := h.expectedRevision_lt hok hm hok' hm'
    rw [heq] at hlt
    exact UInt64.lt_irrefl _ hlt
  · rw [h.apply_again hok hm hkey hfp hnow]
    exact ⟨rfl, rfl, rfl⟩

/-- A call at the time of expiry makes the repository forget the answer. If the clock is set back
then, the repetition of the first call is refused, although its answer has not expired. -/
theorem not_commands_exactly_once_lateCall :
    (∃ m, (({} : MemoryState).apply startCall).2 = .ok m ∧ m.replayed = false) ∧
      startCall.now < startCall.expiresAt ∧
      ((({} : MemoryState).after [.apply startCall, .apply lateCall]).apply startCall).2 =
        .error (.revisionConflict 0 1) := by
  decide +kernel

end Execution

end DayWeave
