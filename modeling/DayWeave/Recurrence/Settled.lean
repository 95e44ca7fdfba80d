import DayWeave.Recurrence.Copies
import DayWeave.Recurrence.Exceptions
import DayWeave.Recurrence.Roots

/-!
The occurrences that an expansion returns.

Every occurrence is that of a root, with its moves, in its final window and state
(`mem_expandOccurrencesValidated`). A generated one fits into the horizon, is not paused and not
completed (`expandOccurrences_generated`).
-/

open Std

namespace DayWeave

/-- The occurrences of a root with its moves, before settlement. -/
def unsettledRoot (env : Externals) (request : PlanRequest) (days : List ZonedDayBoundary)
    (item : WorkItem) : Except RecurrenceError (List Occurrence) :=
  match recurrenceOf item with
  | none => .ok []
  | some recurrence =>
    expandSeries env request item recurrence days >>=
      appendMovedOccurrencesForHorizon env request item recurrence

section

variable {env : Externals} {request : PlanRequest} {days : List ZonedDayBoundary} {item : WorkItem}
  {occurrences : List Occurrence}

lemma expandRoot_eq : expandRoot env request days item =
      (unsettledRoot env request days item).map (applyPausesAndExceptions request item.id) := by
  unfold expandRoot unsettledRoot
  cases recurrenceOf item with
  | none => rfl
  | some rule =>
    dsimp only
    cases expandSeries env request item rule days with
    | error e => rfl
    | ok native =>
      cases appendMovedOccurrencesForHorizon env request item rule native <;> rfl

lemma unsettledRoot_eq_ok {rule : Recurrence} (hrule : recurrenceOf item = some rule)
    {l : List Occurrence} : unsettledRoot env request days item = .ok l ↔
      ∃ native proof, expandSeries env request item rule days = .ok native ∧
        customMoveProof env request item rule = .ok proof ∧
        (native.map Occurrence.id).Nodup ∧ ((movesOf request item.id).map Move.id).Nodup ∧
        (∀ move ∈ movesOf request item.id, move.Accepted env request item rule proof native) ∧
        l = withMoves request item native (movesOf request item.id) := by
  simp only [unsettledRoot, hrule, Except.bind_eq_ok, appendMovedOccurrencesForHorizon_eq_ok]
  exact exists_congr fun native => exists_and_left.symm

lemma mem_rootItems (h : item ∈ rootItems request) :
    item ∈ request.items ∧ item.id ∈ recurrenceRoots request.items (itemsById request.items)
      (childMap request.items) := by
  obtain ⟨root, hroot, hitem⟩ := List.mem_filterMap.mp h
  obtain ⟨hmem, rfl⟩ := mem_of_getElem?_itemsById hitem
  exact ⟨hmem, hroot⟩

/-- A recurring root of a forest is the identifier of an item with a rule. -/
lemma exists_rootItem (hfor : IsWorkForest request.items) {root : ItemId}
    (h : root ∈ recurrenceRoots request.items (itemsById request.items) (childMap request.items)) :
    ∃ item ∈ rootItems request, ∃ rule, item.id = root ∧ recurrenceOf item = some rule := by
  obtain ⟨-, hrec, -⟩ := (mem_recurrenceRoots hfor).mp h
  obtain ⟨rule, hfnd⟩ := Option.ne_none_iff_exists'.mp hrec
  obtain ⟨item, hitem, hrule⟩ := Option.bind_eq_some_iff.mp hfnd
  obtain ⟨-, rfl⟩ := mem_of_getElem?_itemsById hitem
  exact ⟨item, List.mem_filterMap.mpr ⟨_, h, hitem⟩, rule, rfl, hrule⟩

lemma expandOccurrences_eq_ok : expandOccurrences env request = .ok occurrences ↔
      IsWorkForest request.items ∧ expandOccurrencesValidated env request = .ok occurrences := by
  rw [← rollUp_eq_ok_iff, expandOccurrences]
  cases rollUpExpectedDurations request.items with
  | error error => exact iff_of_false nofun fun ⟨⟨_, h⟩, _⟩ => nomatch h
  | ok totals => exact ⟨fun h => ⟨⟨totals, rfl⟩, h⟩, fun h => h.2⟩

/-- **The occurrences of a request** are the settled ones of its roots. -/
theorem mem_expandOccurrencesValidated (hdays : resolvedDays request = .ok days)
    (h : expandOccurrencesValidated env request = .ok occurrences) {o : Occurrence} :
    o ∈ occurrences ↔ ∃ item ∈ rootItems request, ∃ l, unsettledRoot env request days item = .ok l ∧
      ∃ u ∈ l, o = settleOccurrence request item.id u := by
  obtain ⟨days', series, -, hdays', -, hser, -, -, rfl⟩ := expandOccurrencesValidated_eq_ok.mp h
  cases hdays.symm.trans hdays'
  rw [sortOccurrences, (sortBy_perm _ _).mem_iff, List.mem_flatten]
  constructor
  · rintro ⟨settled, hset, ho⟩
    obtain ⟨item, hitem, hroot⟩ := Except.exists_of_mem_mapM hser hset
    rw [expandRoot_eq, Except.map_eq_ok] at hroot
    obtain ⟨l, hl, rfl⟩ := hroot
    obtain ⟨u, hu, rfl⟩ := List.mem_map.mp ho
    exact ⟨item, hitem, l, hl, u, hu, rfl⟩
  · rintro ⟨item, hitem, l, hl, u, hu, rfl⟩
    obtain ⟨settled, hroot, hset⟩ := Except.exists_mem_of_mapM hser hitem
    rw [expandRoot_eq, hl] at hroot
    cases hroot
    exact ⟨_, hset, List.mem_map_of_mem hu⟩

end

/-- The window of the occurrence is a nonempty part of the horizon. -/
structure Occurrence.FitsHorizon (request : PlanRequest) (o : Occurrence) : Prop where
  window_lt : o.windowStart < o.windowEnd
  start_ge : request.horizonStart ≤ o.windowStart
  end_le : o.windowEnd ≤ request.horizonEnd

section

variable {env : Externals} {request : PlanRequest} {days : List ZonedDayBoundary} {item : WorkItem}
  {l : List Occurrence} {u : Occurrence}

lemma Member.fitsHorizon {m : Member} (h : m.Meets request) :
    (m.occurrence env request item.id).FitsHorizon request := by
  refine ⟨h, ?_, ?_⟩
  · show request.horizonStart ≤ later _ _
    rw [OffsetDateTime.le_def, OffsetDateTime.nanos_later]
    exact le_max_right _ _
  · show earlier _ _ ≤ request.horizonEnd
    rw [OffsetDateTime.le_def, OffsetDateTime.nanos_earlier]
    exact min_le_right _ _

lemma fitsHorizon_of_contained {o : Occurrence} (hlt : o.windowStart < o.windowEnd)
    (h : destinationIsContained request o.windowStart o.windowEnd = true) : o.FitsHorizon request :=
  ⟨hlt, (of_decide_eq_true h).1, (of_decide_eq_true h).2⟩

lemma exists_recurrence_of_mem (h : unsettledRoot env request days item = .ok l) (hu : u ∈ l) :
    ∃ rule, recurrenceOf item = some rule := by
  cases hrule : recurrenceOf item with
  | none =>
    rw [unsettledRoot, hrule] at h
    cases h
    cases hu
  | some rule => exact ⟨rule, rfl⟩

section

variable (hctx : validateRecurrenceContext request = .ok ())
  (hdays : resolvedDays request = .ok days) (hitem : item ∈ request.items)
  (h : unsettledRoot env request days item = .ok l) (hu : u ∈ l)

include hctx hdays hitem h hu

/-- An occurrence of a root, before settlement, is that of a member of the rule, possibly
with the nominal data of a move, or it is restored by a move. -/
lemma exists_of_mem_unsettledRoot : ∃ rule, recurrenceOf item = some rule ∧
    ((∃ m, SeriesMember env request item days rule m ∧
        m.nominal.start < m.nominal.finish ∧ m.nominal.start < request.horizonEnd ∧
        request.horizonStart < m.nominal.finish ∧
        u = (m.occurrence env request item.id).withMoves (movesOf request item.id)) ∨
      ∃ move ∈ movesOf request item.id,
        destinationIsContained request move.start move.finish = true ∧ u = move.restored item) := by
  obtain ⟨rule, hrule⟩ := exists_recurrence_of_mem h hu
  refine ⟨rule, hrule, ?_⟩
  obtain ⟨native, proof, hnative, -, -, -, -, rfl⟩ := (unsettledRoot_eq_ok hrule).mp h
  have hval := validateRecurrenceContext_eq_ok.mp hctx
  rcases List.mem_append.mp hu with hu | hu
  · obtain ⟨o, ho, rfl⟩ := List.mem_map.mp hu
    obtain ⟨m, hm, hlt, hst, hfin, rfl⟩ := exists_seriesMember hval.calendar hdays
      (validateRule_of_validateItemRecurrence (hval.items item hitem) hrule) hnative ho
    exact .inl ⟨m, hm, hlt, hst, hfin, rfl⟩
  · obtain ⟨move, hmove, rfl⟩ := List.mem_map.mp hu
    obtain ⟨hmove, hrestores⟩ := List.mem_filter.mp hmove
    exact .inr ⟨move, hmove, (of_decide_eq_true hrestores).2, rfl⟩

lemma seriesItemId_of_mem_unsettledRoot : u.seriesItemId = item.id := by
  obtain ⟨-, -, ⟨m, -, -, -, -, rfl⟩ | ⟨move, -, -, rfl⟩⟩ :=
    exists_of_mem_unsettledRoot hctx hdays hitem h hu
  · exact Occurrence.withMoves_seriesItemId _
  · rfl

lemma fitsHorizon_of_mem_unsettledRoot (hhor : request.horizonStart < request.horizonEnd) :
    u.FitsHorizon request := by
  obtain ⟨-, -, ⟨m, -, hlt, hst, hfin, rfl⟩ | ⟨move, hmove, hctd, rfl⟩⟩ :=
    exists_of_mem_unsettledRoot hctx hdays hitem h hu
  · have hfits : (m.occurrence env request item.id).FitsHorizon request :=
      m.fitsHorizon (Member.meets_iff.mpr ⟨hlt, hst, hfin, hhor⟩)
    obtain ⟨hst, hend⟩ := Occurrence.withMoves_window (m.occurrence env request item.id)
    exact ⟨by rw [hst, hend]; exact hfits.window_lt, by rw [hst]; exact hfits.start_ge,
      by rw [hend]; exact hfits.end_le⟩
  · exact fitsHorizon_of_contained (start_lt_finish_of_mem_movesOf hctx hmove) hctd

end

lemma fitsHorizon_afterExceptions (hctx : validateRecurrenceContext request = .ok ())
    {itemId : ItemId} {o : Occurrence} (h : o.FitsHorizon request) :
    (afterExceptions request itemId o).FitsHorizon request := by
  refine afterExceptions_invariant (fun exception hexc _ o ho => ?_) h
  have hval := (validateRecurrenceContext_eq_ok.mp hctx).exceptions exception hexc
  cases hactn : exception.action with
  | skip => exact ⟨ho.window_lt, ho.start_ge, ho.end_le⟩
  | move start finish source =>
    simp only [validateException, hactn, Except.bind_eq_ok] at hval
    obtain ⟨⟨⟩, hlt, -⟩ := hval
    simp only [applyAction]
    split_ifs with hctd
    · exact fitsHorizon_of_contained (Except.require_eq_ok.mp hlt) hctd
    · exact ⟨ho.window_lt, ho.start_ge, ho.end_le⟩

/-- **Generated occurrences**: the occurrences have distinct identifiers, and a generated one
overlaps no pause of its item, is not completed, and fits into the horizon unless that is
empty. -/
theorem expandOccurrences_generated {occurrences : List Occurrence}
    (h : expandOccurrences env request = .ok occurrences) :
    (occurrences.map Occurrence.id).Nodup ∧ ∀ o ∈ occurrences, o.state = .generated →
        (request.horizonStart < request.horizonEnd → o.windowStart < o.windowEnd ∧
          request.horizonStart ≤ o.windowStart ∧ o.windowEnd ≤ request.horizonEnd) ∧
        (∀ pause ∈ request.recurrenceContext.pauses, pause.itemId = o.seriesItemId →
          ¬ (pause.start < o.windowEnd ∧ o.windowStart < pause.finish)) ∧
        o.id ∉ request.recurrenceContext.completedOccurrenceIds := by
  obtain ⟨-, h⟩ := expandOccurrences_eq_ok.mp h
  refine ⟨nodup_of_expandOccurrencesValidated h, fun o ho hsta => ?_⟩
  obtain ⟨days, -, hctx, hdays, -⟩ := expandOccurrencesValidated_eq_ok.mp h
  obtain ⟨item, hitem, l, hl, u, hu, rfl⟩ := (mem_expandOccurrencesValidated hdays h).mp ho
  have hmem := (mem_rootItems hitem).1
  have hser := seriesItemId_of_mem_unsettledRoot hctx hdays hmem hl hu
  obtain ⟨hcomp, haft, hpaused⟩ := settleOccurrence_generated hsta
  rw [settleOccurrence_seriesItemId, settleOccurrence_id, hser, haft]
  refine ⟨fun hhor => ?_, fun pause hpause hof hoverlap => hpaused ⟨pause, hpause, hof, hoverlap⟩,
    hcomp⟩
  -- moves may change the window, but only inside the horizon
  have hfits := fitsHorizon_of_mem_unsettledRoot hctx hdays hmem hl hu hhor
  have hfits := @fitsHorizon_afterExceptions request hctx item.id u hfits
  exact ⟨hfits.window_lt, hfits.start_ge, hfits.end_le⟩

end

namespace Sample

/-- An hourly habit with a pause in its second hour. -/
def pausedRequest : PlanRequest :=
  { request [hourly 0] with
    recurrenceContext := { pauses := [⟨(hourly 0).id, .atSecond 5400, .atSecond 6000⟩] } }

end Sample

/-- Of two occurrences one is paused, and the other one ends before the pause. -/
theorem expandOccurrences_generated_paused : ∃ occurrences o,
    expandOccurrences Sample.naming Sample.pausedRequest = .ok occurrences ∧
      occurrences.map Occurrence.state = [.generated, .paused] ∧ o ∈ occurrences ∧
      o.state = .generated ∧ o.windowStart < o.windowEnd ∧
      ¬ (OffsetDateTime.atSecond 5400 < o.windowEnd ∧ o.windowStart < .atSecond 6000) := by
  obtain ⟨occurrences, h, hstates, o, ho, hsta, hser⟩ : ∃ occurrences,
      expandOccurrences Sample.naming Sample.pausedRequest = .ok occurrences ∧
      occurrences.map Occurrence.state = [.generated, .paused] ∧ ∃ o ∈ occurrences,
        o.state = .generated ∧ (Sample.hourly 0).id = o.seriesItemId := by decide +kernel
  obtain ⟨hfits, hpause, -⟩ := (expandOccurrences_generated h).2 o ho hsta
  exact ⟨occurrences, o, h, hstates, ho, hsta, (hfits (by decide)).1,
    hpause _ (List.mem_singleton_self _) hser⟩

/-- An hourly habit in an empty horizon: its occurrence is generated with an empty
window. -/
theorem not_expandOccurrences_generated_empty : ∃ occurrences, expandOccurrences Sample.externals
        { Sample.laterRequest [Sample.hourly 0] with horizonEnd := .atSecond 6000 } =
          .ok occurrences ∧
      ∃ o ∈ occurrences, o.state = .generated ∧ ¬ o.windowStart < o.windowEnd := by
  decide +kernel

end DayWeave
