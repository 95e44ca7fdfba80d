import DayWeave.Recurrence.Settled

/-!
The order of the exceptions.

A skip and a move of the same occurrence do not commute: the later one wins. All other pairs do,
so the expansion is the same in every order of the exceptions if and only if no occurrence that
is not completed is both skipped and moved (`expandOccurrences_order_iff`).
-/

open List Std

namespace DayWeave

def PlanRequest.withExceptions (request : PlanRequest) (exceptions : List RecurrenceException) :
    PlanRequest :=
  { request with recurrenceContext := { request.recurrenceContext with exceptions := exceptions } }

/-- An occurrence that is not completed is both skipped and moved. -/
def HasConflict (env : Externals) (request : PlanRequest) : Prop :=
  ∃ days item l u, resolvedDays request = .ok days ∧ item ∈ rootItems request ∧
    unsettledRoot env request days item = .ok l ∧ u ∈ l ∧
    u.id ∉ request.recurrenceContext.completedOccurrenceIds ∧
    (∃ exception ∈ exceptionsOn request item.id u, exception.action = .skip) ∧
    ∃ exception ∈ exceptionsOn request item.id u, exception.action ≠ .skip

section

variable {env : Externals} {request : PlanRequest} {exceptions : List RecurrenceException}
  {days : List ZonedDayBoundary} {item : WorkItem} {itemId : ItemId} {o before : Occurrence}

/-! ### Moves in another order -/

section

variable (hperm : request.recurrenceContext.exceptions.Perm exceptions)

include hperm

lemma exceptionsOn_perm (itemId : ItemId) (o : Occurrence) : (exceptionsOn request itemId o).Perm
      (exceptionsOn (request.withExceptions exceptions) itemId o) :=
  hperm.filter _

lemma customMoveProof_perm (rule : Recurrence) :
    customMoveProof env (request.withExceptions exceptions) item rule =
      customMoveProof env request item rule := by
  have hmove : (request.recurrenceContext.exceptions.any fun exception =>
      exception.itemId = item.id ∧ exception.action ≠ .skip) =
      exceptions.any fun exception => exception.itemId = item.id ∧ exception.action ≠ .skip := by
    rw [Bool.eq_iff_iff, any_eq_true, any_eq_true]
    exact exists_congr fun exception => and_congr_left fun _ => hperm.mem_iff
  unfold customMoveProof
  rw [hmove]
  rfl

end

lemma Move.Accepted.withExceptions {rule : Recurrence} {proof : Option CustomMoveProof}
    {native : List Occurrence} {move : Move}
    (h : move.Accepted env request item rule proof native) :
    move.Accepted env (request.withExceptions exceptions) item rule proof native :=
  ⟨h.valid, h.matched, h.placed⟩

lemma withMoves_perm (native : List Occurrence) {moves moves' : List Move}
    (hperm : moves.Perm moves') (hnd : (moves.map Move.id).Nodup) :
    (withMoves request item native moves).Perm
      (withMoves (request.withExceptions exceptions) item native moves') := by
  have hfind : ∀ o : Occurrence, o.withMoves moves = o.withMoves moves' := by
    intro o
    unfold Occurrence.withMoves
    rw [find?_congr_perm hperm fun a ha b hb hid hid' => ?_]
    exact inj_on_of_nodup_map hnd ha hb
      ((of_decide_eq_true hid).trans (of_decide_eq_true hid').symm)
  refine List.Perm.append ?_ ((hperm.filter _).map _)
  rw [map_congr_left fun o _ => hfind o]

section

variable (hperm : request.recurrenceContext.exceptions.Perm exceptions)

include hperm

lemma unsettledRoot_perm {l : List Occurrence} (h : unsettledRoot env request days item = .ok l) :
    ∃ l', unsettledRoot env (request.withExceptions exceptions) days item = .ok l' ∧ l.Perm l' := by
  cases hrule : recurrenceOf item with
  | none =>
    rw [unsettledRoot, hrule] at h
    cases h
    exact ⟨[], by rw [unsettledRoot, hrule], .nil⟩
  | some rule =>
    obtain ⟨native, proof, hnative, hproof, hids, hnd, hacc, rfl⟩ :=
      (unsettledRoot_eq_ok hrule).mp h
    have hmvs : (movesOf request item.id).Perm (movesOf (request.withExceptions exceptions)
      item.id) := (hperm.filter _).filterMap _
    refine ⟨_, (unsettledRoot_eq_ok hrule).mpr ⟨native, proof, hnative,
      (customMoveProof_perm hperm rule).trans hproof, hids,
      (hmvs.map _).nodup_iff.mp hnd, ?_, rfl⟩, withMoves_perm native hmvs hnd⟩
    exact fun move hmove => (hacc move (hmvs.mem_iff.mpr hmove)).withExceptions

lemma HasConflict.perm
    (h : HasConflict env request) : HasConflict env (request.withExceptions exceptions) := by
  obtain ⟨days, item, l, u, hdays, hitem, hl, hu, hopen, ⟨skip, hskip, hisSkip⟩, move, hmove,
    hisMove⟩ := h
  obtain ⟨l', hl', hsame⟩ := unsettledRoot_perm hperm hl
  have hon := exceptionsOn_perm hperm item.id u
  exact ⟨days, item, l', u, hdays, hitem, hl', hsame.mem_iff.mp hu, hopen,
    ⟨skip, hon.mem_iff.mp hskip, hisSkip⟩, move, hon.mem_iff.mp hmove, hisMove⟩

end

/-! ### Settlement in another order -/

lemma mem_exceptionsOn {exception : RecurrenceException} :
    exception ∈ exceptionsOn request itemId o ↔
      exception ∈ request.recurrenceContext.exceptions ∧ exception.itemId = itemId ∧
        exception.selector.selects o = true := by
  simp [exceptionsOn]

section

variable (hctx : validateRecurrenceContext request = .ok ())
  (hnd : ((movesOf request itemId).map Move.id).Nodup)

include hctx hnd

variable (hperm : request.recurrenceContext.exceptions.Perm exceptions)

include hperm

end

/-! ### The whole expansion -/

section

variable (hperm : request.recurrenceContext.exceptions.Perm exceptions)

include hperm

end

/-- The exceptions end with two that select an occurrence: the last one decides. -/
lemma afterExceptions_last (rest : List RecurrenceException) {a b : RecurrenceException}
    (ha : a ∈ exceptionsOn request itemId o) (hb : b ∈ exceptionsOn request itemId o) :
    ∃ before, afterExceptions (request.withExceptions (rest ++ [a, b])) itemId o =
      applyAction request before b.action := by
  obtain ⟨-, haitem, haselects⟩ := mem_exceptionsOn.mp ha
  obtain ⟨-, hbitem, hbselects⟩ := mem_exceptionsOn.mp hb
  have hon : exceptionsOn (request.withExceptions (rest ++ [a, b])) itemId o =
      exceptionsOn (request.withExceptions rest) itemId o ++ [a] ++ [b] := by
    simp [exceptionsOn, PlanRequest.withExceptions, haitem, haselects, hbitem, hbselects]
  rw [afterExceptions, hon, foldl_append]
  exact ⟨_, rfl⟩

lemma settleOccurrence_moved {action : RecurrenceExceptionAction} (hactn : action ≠ .skip)
    (hopen : o.id ∉ request.recurrenceContext.completedOccurrenceIds)
    (h : afterExceptions request itemId o = applyAction request before action) :
    (settleOccurrence request itemId o).state ≠ .skipped := by
  have hsta : (applyAction request before action).state ≠ .skipped := by
    cases action with
    | skip => exact absurd rfl hactn
    | move start finish source =>
      simp only [applyAction]
      split_ifs <;> simp
  rw [settleOccurrence_eq, if_neg hopen, h]
  split_ifs
  · simp
  · exact hsta

/-- **A conflict shows**: with the skip last the occurrence is skipped, with the move last
it is not. -/
lemma HasConflict.exists_order (hconf : HasConflict env request) :
    ∃ first second, request.recurrenceContext.exceptions.Perm first ∧
      request.recurrenceContext.exceptions.Perm second ∧
      ∀ occurrences, expandOccurrences env (request.withExceptions first) = .ok occurrences →
        expandOccurrences env (request.withExceptions second) ≠ .ok occurrences := by
  obtain ⟨days, item, l, u, hdays, hitem, hl, hu, hopen, ⟨skip, hskip, hisSkip⟩, move, hmove,
    hisMove⟩ := hconf
  have hne : move ≠ skip := fun heq => hisMove (heq ▸ hisSkip)
  set rest := (request.recurrenceContext.exceptions.erase skip).erase move with hrest
  have hperm := (perm_cons_erase (mem_exceptionsOn.mp hskip).1).trans ((perm_cons_erase
        ((mem_erase_of_ne hne).mpr (mem_exceptionsOn.mp hmove).1)).cons skip)
  have hfst := hperm.trans ((List.Perm.swap _ _ _).trans (@perm_append_comm _ [move, skip] rest))
  have hsecond := hperm.trans (@perm_append_comm _ [skip, move] rest)
  refine ⟨_, _, hfst, hsecond, fun occurrences hoccs hsame => ?_⟩
  have hmem : ∀ order, request.recurrenceContext.exceptions.Perm order →
      expandOccurrences env (request.withExceptions order) = .ok occurrences →
      settleOccurrence (request.withExceptions order) item.id u ∈ occurrences := by
    intro order horder h
    obtain ⟨l', hl', hsame⟩ := unsettledRoot_perm horder hl
    exact (@mem_expandOccurrencesValidated env (request.withExceptions order) days occurrences hdays
      (expandOccurrences_eq_ok.mp h).2 _).mpr ⟨item, hitem, l', hl', u, hsame.mem_iff.mp hu, rfl⟩
  have heq := inj_on_of_nodup_map
    (nodup_of_expandOccurrencesValidated (expandOccurrences_eq_ok.mp hoccs).2)
    (hmem _ hfst hoccs) (hmem _ hsecond hsame)
    (by rw [settleOccurrence_id, settleOccurrence_id])
  obtain ⟨before, hbef⟩ := afterExceptions_last rest hmove hskip
  obtain ⟨before', hbefore'⟩ := afterExceptions_last rest hskip hmove
  rw [hisSkip] at hbef
  refine @settleOccurrence_moved (request.withExceptions (rest ++ [skip, move])) item.id u before'
    move.action hisMove hopen hbefore' ?_
  rw [← heq, settleOccurrence_eq, if_neg (by exact hopen), hbef, if_neg fun h => nomatch h.1]
  rfl

end

/-! ### A skip and a move of the same occurrence -/

namespace Sample

/-- A habit of every two hours whose identifier can be that of an occurrence. -/
def movable : WorkItem :=
  { habit (.everyInterval 120) 0 with id := ⟨Uuid.ofNat (5 * 2 ^ 76)⟩ }

/-- What the planner returns for its first occurrence. -/
def movableSource : RecurrenceMoveSource where
  itemRevision := 1
  identity := .rollingMinutes 0 (.atSecond 0)
  nominalStart := .atSecond 0
  nominalEnd := .atSecond 7200
  localDate := none
  ordinal := 0

def moveTo (start finish : OffsetDateTime) : RecurrenceException where
  itemId := movable.id
  selector := .occurrence ⟨movable.id.uuid⟩
  action := .move start finish movableSource

def exceptionRequest (exceptions : List RecurrenceException) : PlanRequest :=
  (request [movable]).withExceptions exceptions

end Sample

open Sample

end DayWeave
