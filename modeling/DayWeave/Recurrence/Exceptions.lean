import DayWeave.Recurrence.Materialize
import DayWeave.Recurrence.Series

/-!
Moves, skips and pauses.

The order of the moves of a series does not matter: each is accepted on its own, and the
occurrences are those of the rule with the nominal data of the moves, together with the moved ones
that the rule did not show (`appendMovedOccurrencesForHorizon_eq_ok`). Settling an occurrence
applies the actions of the exceptions that select it (`foldl_applyException`).
-/

open List Std

namespace DayWeave

/-! ### Moves -/

/-- A move of one occurrence. -/
structure Move where
  id : OccurrenceId
  start : OffsetDateTime
  finish : OffsetDateTime
  source : RecurrenceMoveSource

def RecurrenceException.move? (exception : RecurrenceException) : Option Move :=
  match exception.selector, exception.action with
  | .occurrence id, .move start finish source => some ⟨id, start, finish, source⟩
  | _, _ => none

lemma exists_of_move? {exception : RecurrenceException} {move : Move}
    (h : exception.move? = some move) :
    ∃ id start finish source, exception.selector = .occurrence id ∧
      exception.action = .move start finish source ∧ move = ⟨id, start, finish, source⟩ := by
  unfold RecurrenceException.move? at h
  split at h
  · rename_i id start finish source hsel hactn
    exact ⟨id, start, finish, source, hsel, hactn, (Option.some.inj h).symm⟩
  · cases h

variable (request : PlanRequest) (item : WorkItem) (native : List Occurrence) (moves : List Move)

/-- The moves of a series. -/
def movesOf (itemId : ItemId) : List Move :=
  (request.recurrenceContext.exceptions.filter fun exception => exception.itemId = itemId).filterMap
    RecurrenceException.move?

/-- What is checked of a move, given the occurrences that the rule shows. -/
structure Move.Accepted (env : Externals) (request : PlanRequest) (item : WorkItem)
    (recurrence : Recurrence) (proof : Option CustomMoveProof) (native : List Occurrence)
    (move : Move) : Prop where
  valid : moveSourceIsValid env request item recurrence move.id move.source proof = true
  matched : ∀ o ∈ native, o.id = move.id →
    o.identity.same move.source.identity = true ∧ o.localDate = move.source.localDate ∧
      nativeMetadataMatches recurrence o move.source = true
  placed : destinationIsContained request move.start move.finish = true ∨
    ¬ (move.start < request.horizonEnd ∧ request.horizonStart < move.finish)

/-- The occurrence with the nominal data of its move, if it has one. -/
def Occurrence.withMoves (o : Occurrence) : Occurrence :=
  (moves.find? fun move => move.id = o.id).elim o fun move => o.withSource move.source

def Move.restored (move : Move) : Occurrence :=
  movedOccurrence item move.id move.start move.finish move.source

/-- The move brings an occurrence into the horizon that the rule does not show. -/
def Move.Restores (move : Move) : Prop :=
  move.id ∉ native.map Occurrence.id ∧ destinationIsContained request move.start move.finish = true

instance (request : PlanRequest) (native : List Occurrence) :
    DecidablePred (Move.Restores request native) := fun _ => inferInstanceAs (Decidable (_ ∧ _))

/-- The occurrences of a series with its moves. -/
def withMoves : List Occurrence :=
  native.map (Occurrence.withMoves moves) ++
    (moves.filter fun move => move.Restores request native).map (Move.restored item)

section

variable {env : Externals} {request : PlanRequest} {item : WorkItem} {rule : Recurrence}
  {proof : Option CustomMoveProof} {native : List Occurrence} {moves : List Move} {o : Occurrence}
  {move : Move} {exception : RecurrenceException}

@[simp] lemma Occurrence.withMoves_id (o : Occurrence) : (o.withMoves moves).id = o.id := by
  unfold Occurrence.withMoves
  cases moves.find? fun move => move.id = o.id <;> rfl

@[simp] lemma Occurrence.withMoves_seriesItemId (o : Occurrence) :
    (o.withMoves moves).seriesItemId = o.seriesItemId := by
  unfold Occurrence.withMoves
  cases moves.find? fun move => move.id = o.id <;> rfl

lemma Occurrence.withMoves_window (o : Occurrence) :
    (o.withMoves moves).windowStart = o.windowStart ∧
    (o.withMoves moves).windowEnd = o.windowEnd := by
  unfold Occurrence.withMoves
  cases moves.find? fun move => move.id = o.id <;> exact ⟨rfl, rfl⟩

lemma find?_fresh (h : o.id ∉ moves.map Move.id) :
    (moves.find? fun move => move.id = o.id) = none := by
  rw [find?_eq_none]
  exact fun move hmove hid => h (of_decide_eq_true hid ▸ mem_map_of_mem hmove)

lemma Occurrence.withMoves_of_fresh (h : o.id ∉ moves.map Move.id) : o.withMoves moves = o := by
  rw [Occurrence.withMoves, find?_fresh h]
  rfl

lemma Occurrence.withMoves_append_of_ne (h : o.id ≠ move.id) :
    o.withMoves (moves ++ [move]) = o.withMoves moves := by
  unfold Occurrence.withMoves
  rw [find?_append, find?_cons_of_neg (by simpa using h.symm), find?_nil, Option.or_none]

/-- The first move of an occurrence replaces its nominal data. -/
lemma Occurrence.withMoves_append_self (hid : o.id = move.id) (hfr : move.id ∉ moves.map Move.id) :
    o.withMoves (moves ++ [move]) = o.withSource move.source := by
  rw [Occurrence.withMoves, find?_append, find?_fresh (hid ▸ hfr), Option.none_or,
    find?_cons_of_pos (by simp [hid])]
  rfl

/-- An occurrence with an identifier that has not been moved is one of the rule. -/
lemma mem_withMoves_of_fresh (hfr : o.id ∉ moves.map Move.id) :
    o ∈ withMoves request item native moves ↔ o ∈ native := by
  rw [withMoves, mem_append]
  constructor
  · rintro (ho | ho)
    · obtain ⟨o', ho', rfl⟩ := mem_map.mp ho
      rw [Occurrence.withMoves_id] at hfr
      rwa [Occurrence.withMoves_of_fresh hfr]
    · obtain ⟨move, hmove, rfl⟩ := mem_map.mp ho
      exact absurd (mem_map_of_mem (mem_of_mem_filter hmove)) hfr
  · exact fun ho => .inl (mem_map.mpr ⟨o, ho, Occurrence.withMoves_of_fresh hfr⟩)

lemma withMoves_append (move : Move) (hfr : move.id ∉ moves.map Move.id) :
    withMoves request item native (moves ++ [move]) =
      ((withMoves request item native moves).map fun o =>
        if o.id = move.id then o.withSource move.source else o) ++
      if move.Restores request native then [move.restored item] else [] := by
  have hnative : native.map (Occurrence.withMoves (moves ++ [move])) =
      (native.map (Occurrence.withMoves moves)).map fun o =>
        if o.id = move.id then o.withSource move.source else o := by
    rw [map_map]
    refine map_congr_left fun o _ => ?_
    rw [Function.comp_apply, Occurrence.withMoves_id]
    split_ifs with hid
    · rw [Occurrence.withMoves_append_self hid hfr, Occurrence.withMoves_of_fresh (hid ▸ hfr)]
    · exact Occurrence.withMoves_append_of_ne hid
  have hrestored : ((moves.filter fun move => move.Restores request native).map
      (Move.restored item)).map (fun o => if o.id = move.id then o.withSource move.source else o) =
      (moves.filter fun move => move.Restores request native).map (Move.restored item) := by
    rw [map_map]
    refine map_congr_left fun other hoth => if_neg fun hid => hfr ?_
    exact hid ▸ mem_map_of_mem (mem_of_mem_filter hoth)
  unfold withMoves
  rw [hnative, filter_append, map_append, map_append, hrestored, append_assoc]
  congr 2
  by_cases h : move.Restores request native <;> simp [h]

/-- A fact about an occurrence that has not been moved yet is a fact about one of the
rule. -/
lemma any_withMoves {id : OccurrenceId} (hfr : id ∉ moves.map Move.id)
    (p : Occurrence → Prop) [DecidablePred p] :
    ((withMoves request item native moves).any fun o => o.id = id ∧ p o) = true ↔
      ∃ o ∈ native, o.id = id ∧ p o := by
  simp only [any_eq_true, decide_eq_true_eq]
  refine exists_congr fun o => and_congr_left fun ⟨hid, _⟩ => ?_
  exact mem_withMoves_of_fresh (hid ▸ hfr)

lemma appendMoved_state (hfr : move.id ∉ moves.map Move.id) :
    (if move.id ∈ native.map Occurrence.id then
        .ok (insert move.id (moves.map Move.id).toFinset,
          (withMoves request item native moves).map fun o =>
            if o.id = move.id then o.withSource move.source else o)
      else if destinationIsContained request move.start move.finish = true then
        .ok (insert move.id (moves.map Move.id).toFinset,
          withMoves request item native moves ++ [move.restored item])
      else .ok (insert move.id (moves.map Move.id).toFinset, withMoves request item native moves) :
        Except RecurrenceError _) =
      .ok (((moves ++ [move]).map Move.id).toFinset,
        withMoves request item native (moves ++ [move])) := by
  have hids : ((moves ++ [move]).map Move.id).toFinset =
      insert move.id (moves.map Move.id).toFinset := by
    ext id
    simp
  rw [hids, withMoves_append move hfr]
  by_cases hin : move.id ∈ native.map Occurrence.id
  · simp [Move.Restores, hin]
  · -- no occurrence has the identifier, so the replacement does nothing
    have hsame : ((withMoves request item native moves).map fun o =>
        if o.id = move.id then o.withSource move.source else o) =
        withMoves request item native moves := by
      refine (map_congr_left fun o ho => if_neg fun hid => hin ?_).trans (map_id _)
      exact hid ▸ mem_map_of_mem ((mem_withMoves_of_fresh (hid ▸ hfr)).mp ho)
    rw [hsame, if_neg hin]
    split_ifs with hctd hrestores hrestores
    · rfl
    · exact absurd ⟨hin, hctd⟩ hrestores
    · exact absurd hrestores.2 hctd
    · rw [append_nil]

/-- One round: an exception that asks for a move is refused or adds the move. -/
lemma appendMoved_eq_ok (hmove : exception.move? = some move)
    {s' : Finset OccurrenceId × List Occurrence} : appendMoved env request item rule proof
        ((moves.map Move.id).toFinset, withMoves request item native moves) exception = .ok s' ↔
      move.Accepted env request item rule proof native ∧ move.id ∉ moves.map Move.id ∧
        s' = (((moves ++ [move]).map Move.id).toFinset,
          withMoves request item native (moves ++ [move])) := by
  obtain ⟨id, start, finish, source, hsel, hactn, rfl⟩ := exists_of_move? hmove
  by_cases hfr : id ∈ moves.map Move.id
  · rw [appendMoved, hsel, hactn]
    exact iff_of_false (by simp [hfr]) fun ⟨_, hnot, _⟩ => hnot hfr
  have hshown : ((withMoves request item native moves).any fun o => o.id = id) = true ↔
      id ∈ native.map Occurrence.id := by
    have hany := @any_withMoves request item native moves id hfr (fun _ => True) _
    simp only [and_true] at hany
    rw [hany, mem_map]
  have hsta := @appendMoved_state request item native moves ⟨id, start, finish, source⟩ hfr
  simp only [appendMoved, hsel, hactn, Except.ite_error_eq_ok, mem_toFinset, hfr,
    any_withMoves hfr, hshown, false_or, not_not]
  constructor
  · rintro ⟨hval, hmatched, hcrosses, h⟩
    refine ⟨⟨hval, fun o ho hid => ?_, ?_⟩, not_false, (Except.ok.inj (hsta.symm.trans h)).symm⟩
    · exact by_contra fun hnot => hmatched ⟨o, ho, hid, hnot⟩
    · exact (not_and_or.mp hcrosses).imp_left not_not.mp
  · rintro ⟨⟨hval, hmatched, hpld⟩, -, rfl⟩
    refine ⟨hval, ?_, fun hcrosses => hpld.elim hcrosses.1 fun hout => hout hcrosses.2, hsta⟩
    rintro ⟨o, ho, hid, hnot⟩
    exact hnot (hmatched o ho hid)

lemma appendMoved_of_none (h : exception.move? = none) (s : Finset OccurrenceId × List Occurrence) :
    appendMoved env request item rule proof s exception = .ok s := by
  unfold appendMoved
  split
  · rename_i hsel hactn
    simp [RecurrenceException.move?, hsel, hactn] at h
  · rfl

lemma withMoves_nil : withMoves request item native [] = native := by
  rw [withMoves, map_congr_left fun o _ => Occurrence.withMoves_of_fresh not_mem_nil,
    map_id', filter_nil, map_nil, append_nil]

/-- **The moves of a series** are accepted if they have distinct identifiers and each is
accepted on its own, and then the order in which they are handled does not matter. -/
theorem appendMovedOccurrencesForHorizon_eq_ok {l : List Occurrence} :
    appendMovedOccurrencesForHorizon env request item rule native = .ok l ↔
      ∃ proof, customMoveProof env request item rule = .ok proof ∧
        (native.map Occurrence.id).Nodup ∧ ((movesOf request item.id).map Move.id).Nodup ∧
        (∀ move ∈ movesOf request item.id, move.Accepted env request item rule proof native) ∧
        l = withMoves request item native (movesOf request item.id) := by
  have hfold := fun proof => @Keyed.foldlM_pick_eq_ok _ _ _ _ _ Move.id _
    RecurrenceException.move? (appendMoved env request item rule proof)
    (fun moves => ((moves.map Move.id).toFinset, withMoves request item native moves))
    (fun _ _ hnone => appendMoved_of_none hnone _) (fun _ _ _ _ hmove => appendMoved_eq_ok hmove)
  simp only [map_nil, toFinset_nil, withMoves_nil] at hfold
  rw [appendMovedOccurrencesForHorizon, Except.bind_eq_ok]
  refine exists_congr fun proof => and_congr_right fun hproof => ?_
  cases hfst : firstDuplicate ∅ (native.map Occurrence.id) with
  | some id =>
    refine iff_of_false (by simp) fun ⟨hids, _⟩ => ?_
    rw [firstDuplicate_eq_none.mpr ⟨hids, by simp⟩] at hfst
    cases hfst
  | none =>
    rw [and_iff_right (nodup_of_firstDuplicate hfst)]
    simp only [Except.bind_eq_ok, hfold, Except.ok.injEq]
    constructor
    · rintro ⟨final, ⟨hall, hnd, rfl⟩, rfl⟩
      exact ⟨hnd, hall, rfl⟩
    · rintro ⟨hnd, hall, rfl⟩
      exact ⟨_, ⟨hall, hnd, rfl⟩, rfl⟩

lemma start_lt_finish_of_mem_movesOf (h : validateRecurrenceContext request = .ok ())
    {itemId : ItemId} (hmove : move ∈ movesOf request itemId) : move.start < move.finish := by
  obtain ⟨exception, hexc, hmove⟩ := mem_filterMap.mp hmove
  obtain ⟨id, start, finish, source, -, hactn, rfl⟩ := exists_of_move? hmove
  have hval := (validateRecurrenceContext_eq_ok.mp h).exceptions exception (mem_of_mem_filter hexc)
  simp only [validateException, hactn, Except.bind_eq_ok] at hval
  obtain ⟨⟨⟩, hlt, -⟩ := hval
  exact Except.require_eq_ok.mp hlt

end

/-! ### Settlement -/

/-- What an action does to an occurrence that it is about. -/
def applyAction (request : PlanRequest) (o : Occurrence) : RecurrenceExceptionAction → Occurrence
  | .skip => { o with state := .skipped }
  | .move start finish _ =>
    if destinationIsContained request start finish then
      { o with windowStart := start, windowEnd := finish, state := .generated }
    else { o with state := .paused }

/-- The exceptions of a series that select an occurrence. -/
def exceptionsOn (request : PlanRequest) (itemId : ItemId) (o : Occurrence) :
    List RecurrenceException :=
  request.recurrenceContext.exceptions.filter fun exception =>
    exception.itemId = itemId ∧ exception.selector.selects o

/-- The occurrence after the exceptions that select it. -/
def afterExceptions (request : PlanRequest) (itemId : ItemId) (o : Occurrence) : Occurrence :=
  (exceptionsOn request itemId o).foldl
    (fun o exception => applyAction request o exception.action) o

/-- A pause of the series overlaps the window. -/
def IsPaused (request : PlanRequest) (itemId : ItemId) (o : Occurrence) : Prop :=
  ∃ pause ∈ request.recurrenceContext.pauses, pause.itemId = itemId ∧
    pause.start < o.windowEnd ∧ o.windowStart < pause.finish

instance (request : PlanRequest) (itemId : ItemId) (o : Occurrence) :
    Decidable (IsPaused request itemId o) := inferInstanceAs (Decidable (∃ _ ∈ _, _))

section

variable {request : PlanRequest} {itemId : ItemId} {o : Occurrence}

/-- Actions change windows and states only. -/
lemma applyAction_eq (o : Occurrence) (action : RecurrenceExceptionAction) :
    ∃ start finish state, applyAction request o action =
      { o with windowStart := start, windowEnd := finish, state := state } := by
  cases action with
  | skip => exact ⟨_, _, _, rfl⟩
  | move start finish source =>
    by_cases h : destinationIsContained request start finish = true
    · exact ⟨start, finish, .generated, if_pos h⟩
    · exact ⟨o.windowStart, o.windowEnd, .paused, if_neg h⟩

@[simp] lemma selects_applyAction (selector : RecurrenceExceptionSelector) (o : Occurrence)
    (action : RecurrenceExceptionAction) :
    selector.selects (applyAction request o action) = selector.selects o := by
  obtain ⟨start, finish, state, h⟩ := applyAction_eq o action
  rw [h]
  rfl

/-- Only the exceptions that select an occurrence change it. -/
lemma foldl_applyException (exceptions : List RecurrenceException) (o : Occurrence) :
    exceptions.foldl (applyException request) o =
      (exceptions.filter fun exception => exception.selector.selects o).foldl
        (fun o exception => applyAction request o exception.action) o := by
  induction exceptions generalizing o with
  | nil => rfl
  | cons exception rest ih =>
    rw [foldl_cons, filter_cons, ih]
    by_cases h : exception.selector.selects o = true
    · have hstep : applyException request o exception = applyAction request o exception.action := by
        rw [applyException, if_pos h]
        cases exception.action <;> rfl
      simp [hstep, if_pos h]
    · have hstep : applyException request o exception = o := if_neg h
      rw [hstep, if_neg h]

/-- **Settlement**: a completed occurrence stays so; any other goes through the exceptions
that select it, and then through the pauses. -/
lemma settleOccurrence_eq (o : Occurrence) : settleOccurrence request itemId o =
      if o.id ∈ request.recurrenceContext.completedOccurrenceIds then
        { o with state := .completed }
      else if (afterExceptions request itemId o).state = .generated ∧
          IsPaused request itemId (afterExceptions request itemId o) then
        { afterExceptions request itemId o with state := .paused }
      else afterExceptions request itemId o := by
  have hexcs : (request.recurrenceContext.exceptions.filter
      fun exception => exception.itemId = itemId).foldl (applyException request) o =
      afterExceptions request itemId o := by
    rw [foldl_applyException, filter_filter, afterExceptions, exceptionsOn]
    congr 1
    refine filter_congr fun exception _ => ?_
    rw [Bool.decide_and, Bool.and_comm, Bool.decide_eq_true]
  unfold settleOccurrence
  dsimp only
  rw [hexcs]
  refine if_congr Iff.rfl rfl (if_congr (and_congr_right fun _ => ?_) rfl rfl)
  simp [IsPaused]

/-- What every action preserves holds after the exceptions. -/
lemma afterExceptions_invariant {P : Occurrence → Prop}
    (hstep : ∀ exception ∈ request.recurrenceContext.exceptions, exception.itemId = itemId →
      ∀ o, P o → P (applyAction request o exception.action)) (h : P o) :
    P (afterExceptions request itemId o) := by
  refine foldlRecOn _ _ h fun o ho exception hexc => ?_
  obtain ⟨hmem, hon⟩ := mem_filter.mp hexc
  exact hstep exception hmem (of_decide_eq_true hon).1 o ho

lemma afterExceptions_eq (o : Occurrence) : ∃ start finish state, afterExceptions request itemId o =
      { o with windowStart := start, windowEnd := finish, state := state } := by
  refine afterExceptions_invariant (P := fun o' => ∃ start finish state, o' =
    { o with windowStart := start, windowEnd := finish, state := state }) ?_ ⟨_, _, _, rfl⟩
  rintro exception - - o' ⟨start, finish, state, rfl⟩
  obtain ⟨start', finish', state', h⟩ := applyAction_eq
    { o with windowStart := start, windowEnd := finish, state := state } exception.action
  exact ⟨start', finish', state', h⟩

lemma exists_settleOccurrence_eq (o : Occurrence) :
    ∃ start finish state, settleOccurrence request itemId o =
      { o with windowStart := start, windowEnd := finish, state := state } := by
  obtain ⟨start, finish, state, h⟩ := afterExceptions_eq o
  rw [settleOccurrence_eq]
  split_ifs
  · exact ⟨_, _, _, rfl⟩
  · exact ⟨start, finish, .paused, by rw [h]⟩
  · exact ⟨start, finish, state, h⟩

@[simp] lemma settleOccurrence_id (o : Occurrence) :
    (settleOccurrence request itemId o).id = o.id := by
  obtain ⟨start, finish, state, h⟩ := exists_settleOccurrence_eq o
  rw [h]

@[simp] lemma settleOccurrence_seriesItemId (o : Occurrence) :
    (settleOccurrence request itemId o).seriesItemId = o.seriesItemId := by
  obtain ⟨start, finish, state, h⟩ := exists_settleOccurrence_eq o
  rw [h]

/-- An occurrence that settles as generated is not completed, has gone through its
exceptions, and is not paused. -/
lemma settleOccurrence_generated (h : (settleOccurrence request itemId o).state = .generated) :
    o.id ∉ request.recurrenceContext.completedOccurrenceIds ∧
      settleOccurrence request itemId o = afterExceptions request itemId o ∧
      ¬ IsPaused request itemId (afterExceptions request itemId o) := by
  rw [settleOccurrence_eq] at h ⊢
  split_ifs at h ⊢ with hcomp hpaused
  exact ⟨hcomp, rfl, fun hpause => hpaused ⟨h, hpause⟩⟩

end

end DayWeave
