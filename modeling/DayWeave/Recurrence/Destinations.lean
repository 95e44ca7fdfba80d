import DayWeave.Recurrence.Confluence

/-!
The destinations of moves.

A moved occurrence is generated in the horizon that contains its destination, in exactly the
window of the move, and in no other horizon of a disjoint family; a horizon that cuts the
destination is refused (`moved_once`).
-/

open List Std

namespace DayWeave

def PlanRequest.withHorizon (request : PlanRequest) (horizon : Span) :
    PlanRequest :=
  { request with horizonStart := horizon.start, horizonEnd := horizon.finish }

def moveException (itemId : ItemId) (id : OccurrenceId) (source : RecurrenceMoveSource)
    (destination : Span) : RecurrenceException where
  itemId := itemId
  selector := .occurrence id
  action := .move destination.start destination.finish source

/-- The expansion of a request contains an occurrence as generated work, and the exception
is the only one about it. -/
def WorksOn (env : Externals) (request : PlanRequest) (exception : RecurrenceException)
    (o : Occurrence) : Prop :=
  ∃ occurrences, expandOccurrences env request = .ok occurrences ∧ o ∈ occurrences ∧
    o.state = .generated ∧ o.seriesItemId = exception.itemId ∧
    exceptionsOn request exception.itemId o = [exception]

/-- The horizon cuts the destination: they overlap, but the destination is not inside. -/
def CutsDestination (horizon destination : Span) : Prop :=
  destination.start < horizon.finish ∧ horizon.start < destination.finish ∧
    ¬ (horizon.start ≤ destination.start ∧ destination.finish ≤ horizon.finish)

/-- The exceptions with another destination for one move. -/
def redirect (exception other : RecurrenceException) (exceptions : List RecurrenceException) :
    List RecurrenceException :=
  exceptions.map fun e => if e = exception then other else e

/-- The request with another destination for one move. -/
abbrev PlanRequest.redirected (request : PlanRequest) (itemId : ItemId) (id : OccurrenceId)
    (source : RecurrenceMoveSource) (destination other : Span) : PlanRequest :=
  request.withExceptions (redirect (moveException itemId id source destination)
    (moveException itemId id source other) request.recurrenceContext.exceptions)

section

variable {env : Externals} {request : PlanRequest} {itemId : ItemId} {id : OccurrenceId}
  {source : RecurrenceMoveSource} {destination : Span}

/-! ### The horizon that contains the destination -/

/-- A moved occurrence is worked on in a horizon that contains its destination, in exactly
that window. -/
lemma WorksOn.window {o : Occurrence}
    (h : WorksOn env request (moveException itemId id source destination) o) :
    request.horizonStart ≤ destination.start ∧ destination.finish ≤ request.horizonEnd ∧
      o.windowStart = destination.start ∧ o.windowEnd = destination.finish := by
  obtain ⟨occurrences, h, ho, hsta, hser, honly⟩ := h
  obtain ⟨-, h⟩ := expandOccurrences_eq_ok.mp h
  obtain ⟨days, -, hctx, hdays, -⟩ := expandOccurrencesValidated_eq_ok.mp h
  obtain ⟨item, hitem, l, hl, u, hu, rfl⟩ := (mem_expandOccurrencesValidated hdays h).mp ho
  rw [settleOccurrence_seriesItemId, seriesItemId_of_mem_unsettledRoot hctx hdays
    (mem_rootItems hitem).1 hl hu] at hser
  obtain ⟨-, haft, -⟩ := settleOccurrence_generated hsta
  have hactn : afterExceptions request item.id u =
      applyAction request u (.move destination.start destination.finish source) := by
    obtain ⟨start, finish, state, heq⟩ := exists_settleOccurrence_eq u
    rw [← hser, heq] at honly
    change exceptionsOn request item.id u = _ at honly
    rw [afterExceptions, honly]
    rfl
  rw [haft, hactn] at hsta ⊢
  simp only [applyAction] at hsta ⊢
  split_ifs at hsta ⊢ with hctd
  · obtain ⟨hst, hfin⟩ := of_decide_eq_true hctd
    exact ⟨hst, hfin, rfl, rfl⟩

/-! ### A horizon that cuts the destination -/

variable {other : Span} {item : WorkItem} {a b : RecurrenceException} {rule : Recurrence}
  {days : List ZonedDayBoundary} {l : List Occurrence} {exceptions : List RecurrenceException}

lemma exists_unsettledRoot {series : List (List Occurrence)}
    (hser : (rootItems request).mapM (expandRoot env request days) = .ok series)
    (hitem : item ∈ rootItems request) : ∃ l, unsettledRoot env request days item = .ok l := by
  obtain ⟨settled, hset, -⟩ := Except.exists_mem_of_mapM hser hitem
  rw [expandRoot_eq, Except.map_eq_ok] at hset
  exact hset.imp fun _ h => h.1

section

variable (hmem : moveException itemId id source destination ∈ request.recurrenceContext.exceptions)

include hmem

lemma mem_movesOf_moveException :
    (⟨id, destination.start, destination.finish, source⟩ : Move) ∈ movesOf request itemId :=
  mem_filterMap.mpr ⟨_, mem_filter.mpr ⟨hmem, decide_eq_true rfl⟩, rfl⟩

/-- A horizon that cuts the destination of a move is refused. -/
lemma not_expandOccurrences_of_cuts
    (hcuts : CutsDestination ⟨request.horizonStart, request.horizonEnd⟩ destination)
    (occurrences : List Occurrence) : expandOccurrences env request ≠ .ok occurrences := by
  intro h
  obtain ⟨hfor, h⟩ := expandOccurrences_eq_ok.mp h
  obtain ⟨days, series, hctx, hdays, hmvs, hser, -⟩ := expandOccurrencesValidated_eq_ok.mp h
  have hroot := (hmvs _ hmem).resolve_left nofun
  obtain ⟨item, hitem, rule, hid, hrule⟩ := exists_rootItem hfor hroot
  obtain ⟨l, hl⟩ := exists_unsettledRoot hser hitem
  obtain ⟨native, proof, -, -, -, -, hacc, -⟩ := (unsettledRoot_eq_ok hrule).mp hl
  have hmove := mem_movesOf_moveException hmem
  rw [show itemId = item.id from hid.symm] at hmove
  rcases (hacc _ hmove).placed with hinside | houtside
  · exact hcuts.2.2 (of_decide_eq_true hinside)
  · exact houtside ⟨hcuts.1, hcuts.2.1⟩

end

/-- A move that is accepted with another destination is refused only because its own is cut. -/
lemma appendMoved_of_cuts {proof : Option CustomMoveProof}
    {s s' : Finset OccurrenceId × List Occurrence}
    (hcuts : CutsDestination ⟨request.horizonStart, request.horizonEnd⟩ destination)
    (h : appendMoved env request item rule proof s (moveException itemId id source other) =
      .ok s') :
    appendMoved env request item rule proof s (moveException itemId id source destination) =
      .error (.moveCrossesHorizon item.id) := by
  simp only [appendMoved, moveException, Except.ite_error_eq_ok] at h ⊢
  obtain ⟨hval, hmatched, -⟩ := h
  rw [if_neg hval, if_neg hmatched,
    if_pos ⟨fun h => hcuts.2.2 (of_decide_eq_true h), hcuts.1, hcuts.2.1⟩]

/-- What holds with another destination holds of all exceptions, if it holds of the move. -/
lemma forall_of_redirect {P : RecurrenceException → Prop} (h : ∀ e ∈ redirect a b exceptions, P e)
    (hab : P b → P a) : ∀ e ∈ exceptions, P e := by
  intro e he
  by_cases heq : e = a
  · rw [heq]
    exact hab (h b (mem_map.mpr ⟨e, he, if_pos heq⟩))
  · exact h e (mem_map.mpr ⟨e, he, if_neg heq⟩)

/-- Another destination stays with the same series. -/
lemma filter_redirected :
    (request.redirected itemId id source destination other).recurrenceContext.exceptions.filter
        (fun e => e.itemId = item.id) =
      redirect (moveException itemId id source destination) (moveException itemId id source other)
        (request.recurrenceContext.exceptions.filter fun e => e.itemId = item.id) := by
  refine filter_map.trans (congrArg _ (filter_congr fun e _ => ?_))
  rw [Function.comp_apply]
  split_ifs with he
  · rw [he]
    rfl
  · rfl

/-- A run over the exceptions stops at the move, if it is refused where the other is accepted. -/
lemma foldlM_of_redirect {σ : Type} {f : σ → RecurrenceException → Except RecurrenceError σ}
    {e : RecurrenceError} (hcut : ∀ s s', f s b = .ok s' → f s a = .error e) {s s' : σ}
    (hmem : a ∈ exceptions) (h : (redirect a b exceptions).foldlM f s = .ok s') :
    exceptions.foldlM f s = .error e := by
  induction exceptions generalizing s with
  | nil => cases hmem
  | cons first rest ih =>
    obtain ⟨next, hnext, h⟩ := Except.bind_eq_ok.mp h
    rw [foldlM_cons]
    dsimp only at hnext
    split_ifs at hnext with hfst
    · rw [hfst, hcut _ _ hnext]
      rfl
    · rw [hnext]
      exact ih (mem_of_ne_of_mem (Ne.symm hfst) hmem) h

lemma customMoveProof_redirect :
    customMoveProof env (request.redirected itemId id source destination other) item rule =
      customMoveProof env request item rule := by
  have hmove : ((redirect (moveException itemId id source destination)
      (moveException itemId id source other) request.recurrenceContext.exceptions).any
        fun exception => exception.itemId = item.id ∧ exception.action ≠ .skip) =
      request.recurrenceContext.exceptions.any
        fun exception => exception.itemId = item.id ∧ exception.action ≠ .skip := by
    rw [redirect, any_map]
    congr 1
    funext e
    rw [Function.comp_apply]
    split_ifs with he
    · simp [he, moveException]
    · rfl
  unfold customMoveProof
  rw [← hmove]
  rfl

/-- A root whose only fault is the destination of one move is refused for that. -/
lemma unsettledRoot_of_cuts (hrule : recurrenceOf item = some rule)
    (hmem : moveException item.id id source destination ∈ request.recurrenceContext.exceptions)
    (hcuts : CutsDestination ⟨request.horizonStart, request.horizonEnd⟩ destination)
    (h : unsettledRoot env (request.redirected item.id id source destination other) days item =
      .ok l) :
    unsettledRoot env request days item = .error (.moveCrossesHorizon item.id) := by
  simp only [unsettledRoot, hrule, appendMovedOccurrencesForHorizon, customMoveProof_redirect,
    Except.bind_eq_ok] at h ⊢
  obtain ⟨native, hnative, proof, hproof, h⟩ := h
  rw [show expandSeries env request item rule days = .ok native from hnative]
  change appendMovedOccurrencesForHorizon env request item rule native = _
  rw [appendMovedOccurrencesForHorizon, hproof]
  cases hfst : firstDuplicate ∅ (native.map Occurrence.id) <;> rw [hfst] at h
  · obtain ⟨final, hfold, -⟩ := Except.bind_eq_ok.mp h
    rw [filter_redirected] at hfold
    have hrun := foldlM_of_redirect (fun _ _ => appendMoved_of_cuts hcuts)
      (mem_filter.mpr ⟨hmem, decide_eq_true rfl⟩) hfold
    exact congrArg (fun run => run >>= fun final => .ok final.2) hrun
  · cases h

/-- Other roots do not notice the move. -/
lemma unsettledRoot_redirect (hoth : item.id ≠ itemId) :
    unsettledRoot env (request.redirected itemId id source destination other) days item =
      unsettledRoot env request days item := by
  have hfilt :
      (request.redirected itemId id source destination other).recurrenceContext.exceptions.filter
        (fun e => e.itemId = item.id) =
      request.recurrenceContext.exceptions.filter fun e => e.itemId = item.id := by
    refine filter_redirected.trans ((map_congr_left fun e he => if_neg fun heq => ?_).trans
      (map_id _))
    exact hoth ((of_decide_eq_true (mem_filter.mp he).2).symm.trans (congrArg _ heq))
  unfold unsettledRoot
  cases recurrenceOf item with
  | none => rfl
  | some rule =>
    refine bind_congr fun native => ?_
    rw [appendMovedOccurrencesForHorizon, customMoveProof_redirect]
    simp only [hfilt]
    rfl

/-- A context is valid with any destination that takes time. -/
lemma validateRecurrenceContext_redirect (hlt : destination.start < destination.finish)
    (h : validateRecurrenceContext (request.redirected itemId id source destination other) =
      .ok ()) :
    validateRecurrenceContext request = .ok () := by
  have hval := validateRecurrenceContext_eq_ok.mp h
  refine validateRecurrenceContext_eq_ok.mpr ⟨hval.calendar, hval.pauses, hval.spacing,
    forall_of_redirect hval.exceptions fun hoth => ?_, hval.items⟩
  simp only [validateException, moveException, Except.bind_eq_ok] at hoth ⊢
  obtain ⟨⟨⟩, -, hsrc⟩ := hoth
  exact ⟨(), Except.require_eq_ok.mpr hlt, hsrc⟩

/-- **A cut destination**: a request whose only fault is that its horizon cuts the
destination of a move is refused for that. -/
lemma expandOccurrences_of_cuts (hlt : destination.start < destination.finish)
    (hmem : moveException itemId id source destination ∈ request.recurrenceContext.exceptions)
    (hcuts : CutsDestination ⟨request.horizonStart, request.horizonEnd⟩ destination)
    {occurrences : List Occurrence}
    (h : expandOccurrences env (request.redirected itemId id source destination other) =
      .ok occurrences) :
    expandOccurrences env request = .error (.moveCrossesHorizon itemId) := by
  obtain ⟨hfor, h⟩ := expandOccurrences_eq_ok.mp h
  obtain ⟨days, series, hctx, hdays, hmvs, hser, -⟩ := expandOccurrencesValidated_eq_ok.mp h
  have hroots := forall_of_redirect hmvs fun hoth => .inr (hoth.resolve_left nofun)
  have hcut : ∀ item ∈ rootItems request, item.id = itemId → ∀ rule, recurrenceOf item = some rule →
        expandRoot env request days item = .error (.moveCrossesHorizon itemId) := by
    rintro item hitem rfl rule hrule
    obtain ⟨l, hl⟩ := exists_unsettledRoot hser hitem
    rw [expandRoot_eq, unsettledRoot_of_cuts hrule hmem hcuts hl]
    rfl
  obtain ⟨item, hitem, rule, hid, hrule⟩ :=
    exists_rootItem hfor ((hroots _ hmem).resolve_left nofun)
  obtain ⟨totals, htotals⟩ := rollUp_eq_ok_iff.mpr hfor
  rw [expandOccurrences, show rollUpExpectedDurations request.items = .ok totals from htotals]
  refine expandOccurrencesValidated_eq_error
    (validateRecurrenceContext_redirect hlt hctx) hdays hroots (Except.mapM_eq_error
      (fun item hitem => ?_) ⟨item, hitem, hcut item hitem hid rule hrule⟩)
  by_cases hid : item.id = itemId
  · cases hrule : recurrenceOf item with
    | none => exact .inr ⟨[], by simp only [expandRoot, hrule]⟩
    | some rule => exact .inl (hcut item hitem hid rule hrule)
  · obtain ⟨l, hl⟩ := exists_unsettledRoot hser hitem
    rw [expandRoot_eq, ← unsettledRoot_redirect hid, hl]
    exact .inr ⟨_, rfl⟩

/-! ### All horizons -/

/-- **A moved occurrence is worked on once.** Of the horizons of a disjoint family at most
one works on it, namely one that contains the destination, and there its window is exactly
the destination. A horizon that cuts the destination is refused, and it is refused for that
if the request expands with another destination. -/
theorem moved_once (env : Externals) (request : PlanRequest) (itemId : ItemId) (id : OccurrenceId)
    (source : RecurrenceMoveSource) (destination : HalfOpen OffsetDateTime)
    (hlt : destination.start < destination.finish)
    (hmem : moveException itemId id source destination ∈ request.recurrenceContext.exceptions) :
    (∀ horizon o, WorksOn env (request.withHorizon horizon)
        (moveException itemId id source destination) o →
      horizon.start ≤ destination.start ∧ destination.finish ≤ horizon.finish ∧
        o.windowStart = destination.start ∧ o.windowEnd = destination.finish) ∧
    (∀ (ι : Type) (horizons : ι → HalfOpen OffsetDateTime),
      Pairwise (fun i j => ¬ ∃ t, ((horizons i).start ≤ t ∧ t < (horizons i).finish) ∧
        (horizons j).start ≤ t ∧ t < (horizons j).finish) → ∀ i j o o',
        WorksOn env (request.withHorizon (horizons i))
          (moveException itemId id source destination) o →
        WorksOn env (request.withHorizon (horizons j))
          (moveException itemId id source destination) o' → i = j) ∧
    ∀ horizon, CutsDestination horizon destination →
      (∀ occurrences, expandOccurrences env (request.withHorizon horizon) ≠ .ok occurrences) ∧
      ∀ other occurrences,
        expandOccurrences env ((request.withHorizon horizon).withExceptions (redirect
          (moveException itemId id source destination) (moveException itemId id source other)
          request.recurrenceContext.exceptions)) = .ok occurrences →
        expandOccurrences env (request.withHorizon horizon) =
          .error (.moveCrossesHorizon itemId) := by
  refine ⟨fun horizon o h => h.window, ?_, fun horizon hcuts => ⟨?_, ?_⟩⟩
  · intro ι horizons hdisjoint i j o o' ho ho'
    obtain ⟨hst, hfin, -⟩ := ho.window
    obtain ⟨hstart', hfinish', -⟩ := ho'.window
    by_contra hne
    -- the start of the destination lies in both horizons
    exact hdisjoint hne ⟨destination.start, ⟨hst, hlt.trans_le hfin⟩, hstart',
      hlt.trans_le hfinish'⟩
  · exact fun occurrences => @not_expandOccurrences_of_cuts env (request.withHorizon horizon) itemId
      id source destination hmem hcuts occurrences
  · exact fun other occurrences h => @expandOccurrences_of_cuts env (request.withHorizon horizon)
      itemId id source destination other hlt hmem hcuts occurrences h

end

namespace Sample

/-- A habit of every Thursday whose identifier can be that of an occurrence. -/
def thursdays : WorkItem :=
  { habit (.frequency 1 .day .calendar {.thursday} 0 none) 0 with
    id := ⟨Uuid.ofNat (5 * 2 ^ 76)⟩ }

/-- What the planner returns for the first Thursday of the epoch. -/
def thursdaySource : RecurrenceMoveSource where
  itemRevision := 1
  identity := .calendarDay epochDay.localDate 0
  nominalStart := epochDay.start
  nominalEnd := epochDay.finish
  localDate := some epochDay.localDate
  ordinal := 0

/-- A request whose one habit is moved from Thursday to a few hours of Friday. -/
def fridayRequest : PlanRequest :=
  (request [thursdays]).withExceptions
    [moveException thursdays.id ⟨thursdays.id.uuid⟩ thursdaySource
      ⟨.atSecond 100000, .atSecond 110000⟩]

/-- An instant of Friday with an offset of one hour. -/
def fridayWithOffset : OffsetDateTime := .atSecondEast 90000

end Sample

open Sample

/-- An occurrence that is moved into its first hour. -/
theorem moved_once_firstHour : ∃ o, WorksOn externals
        ((exceptionRequest [moveTo (.atSecond 0) (.atSecond 3600)]).withHorizon
          ⟨.atSecond 0, .atSecond 7200⟩) (moveTo (.atSecond 0) (.atSecond 3600)) o ∧
      o.windowStart = .atSecond 0 ∧ o.windowEnd = .atSecond 3600 := by
  obtain ⟨occurrences, o, hworks⟩ : ∃ occurrences o, expandOccurrences externals
      ((exceptionRequest [moveTo (.atSecond 0) (.atSecond 3600)]).withHorizon
        ⟨.atSecond 0, .atSecond 7200⟩) = .ok occurrences ∧ o ∈ occurrences ∧
      o.state = .generated ∧ o.seriesItemId = movable.id ∧
      exceptionsOn (exceptionRequest [moveTo (.atSecond 0) (.atSecond 3600)]) movable.id o =
        [moveTo (.atSecond 0) (.atSecond 3600)] := by decide +kernel
  obtain ⟨-, -, hst, hend⟩ := (moved_once externals
    (exceptionRequest [moveTo (.atSecond 0) (.atSecond 3600)]) movable.id
    ⟨movable.id.uuid⟩ movableSource ⟨.atSecond 0, .atSecond 3600⟩ (by decide)
    mem_cons_self).1 _ o ⟨occurrences, hworks⟩
  exact ⟨o, ⟨occurrences, hworks⟩, hst, hend⟩

/-- A move from Thursday to Friday: the horizons of the same offset know it, but one that
cuts the destination and starts with another offset is refused because of the source. -/
theorem not_moved_once_otherOffset : (∃ occurrences, expandOccurrences externals
      (fridayRequest.withHorizon ⟨.atSecond 90000, .atSecond 120000⟩) = .ok occurrences ∧
      ∃ o ∈ occurrences, o.state = .generated) ∧
    CutsDestination ⟨fridayWithOffset, .atSecond 105000⟩ ⟨.atSecond 100000, .atSecond 110000⟩ ∧
    expandOccurrences externals (fridayRequest.withHorizon ⟨fridayWithOffset, .atSecond 105000⟩) =
        .error (.invalidMoveSource thursdays.id) := by
  exact ⟨by decide +kernel, ⟨by decide, by decide, by decide⟩, by decide +kernel⟩

end DayWeave
