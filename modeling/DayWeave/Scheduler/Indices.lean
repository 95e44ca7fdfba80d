import DayWeave.Scheduler.Turns

/-!
The identity of sessions.

Retained blocks have the indices of reservations and of pinned blocks; execution evidence takes the
indices it claims away from the pinned blocks. Every planned block gets an index above all of them.
So sessions are told apart by their indices exactly if the pinned blocks are
(`sessions_identified_iff`): nothing else checks that two assignments of one item under different
occurrences pin different indices.
-/

open List Std

namespace DayWeave

open Sample
open PlanningState (new)

namespace PlanningState

def sessionKeys (blocks : List ScheduleBlock) : List SessionKey :=
  blocks.filterMap fun b => b.itemId.map fun id => ⟨id, b.sessionIndex⟩

/-- The identifiers of the blocks without an item. -/
def externalIds (blocks : List ScheduleBlock) : List Uuid :=
  blocks.filterMap fun b => if b.itemId = none then some b.id else none

/-- What is known about retained blocks: the sessions they are about, the indices that are not
allocated again, and where their identifiers come from. -/
structure Retention (env : Externals) (request : PlanRequest) (state : PlanningState)
    (sessions used : List SessionKey) : Prop where
  sessions : sessionKeys state.blocks = sessions
  named : ∀ b ∈ state.blocks, ∀ id ∈ b.itemId, b.id = blockId env id b.sessionIndex b.start
  external : externalIds state.blocks =
    (request.fixedBlocks.filter fun f => inHorizon request ⟨f.start, f.finish⟩).map FixedBlock.id
  bounded : ∀ key ∈ used, ∃ w, state.sessionHighWater[key.itemId]? = some w ∧ key.sessionIndex ≤ w

variable (request : PlanRequest) (item : WorkItem)

/-- The session of an event, if it is retained. -/
def eventSession : Option SessionKey :=
  match item.kind with
  | .calendarEvent event =>
    if item.status.isTerminal || item.status = .blocked then none
    else if ¬ inHorizon request ⟨event.start, event.finish⟩ then none
    else some ⟨item.id, 0⟩
  | _ => none

/-- The session of a reservation, if it meets the horizon. -/
def reservedSession (id : ItemId) (r : ExecutionReservation) : Option SessionKey :=
  if ¬ (HalfOpen.mk request.horizonStart request.horizonEnd).Overlaps ⟨r.start, r.finish⟩ then none
  else some ⟨id, r.sessionIndex⟩

def reservedSessions (items : WorkMap)
    (entry : ItemId × MaterializedExecutionWorkUnit) : List SessionKey :=
  match items[entry.1]? with
  | none => []
  | some item => entry.2.reservations.filterMap (reservedSession request item.id)

def pinnedSessions (counts : PreviousBlock → Bool) : List SessionKey :=
  request.previousAssignments.flatMap fun a =>
    if a.pinned then (a.blocks.filter counts).map fun b => ⟨a.itemId, b.sessionIndex⟩ else []

def claimedSessions (execution : MaterializedExecutionContext) : List SessionKey :=
  execution.workUnits.toList.flatMap fun entry => entry.2.claimed.map fun index => ⟨entry.1, index⟩

/-- Whether a pinned block reaches into the horizon. -/
abbrev pinnedInHorizon (b : PreviousBlock) : Bool :=
  inHorizon request ⟨b.start, b.finish⟩

/-- The order of indices and their maximum agree. -/
instance : LawfulOrderLeftLeaningMax UInt16 := .of_eq fun a b => by
  change (if a ≤ b then b else a) = _
  split <;> split <;> grind

lemma exists_max_of_mem {l : List UInt16} {i : UInt16} (h : i ∈ l) :
    ∃ w, l.max? = some w ∧ i ≤ w := by
  obtain ⟨w, hw⟩ := Option.isSome_iff_exists.mp (isSome_max?_of_mem h)
  exact ⟨w, hw, (max?_eq_some_iff.mp hw).2 i h⟩

lemma flatMap_ite_singleton {α β : Type} (l : List α) (p : α → Bool) (f : α → β) :
    l.flatMap (fun a => if p a then [f a] else []) = (l.filter p).map f := by
  induction l with
  | nil => rfl
  | cons a rest ih => by_cases h : p a <;> simp [h, ih]

namespace Retention

variable {env : Externals} {request : PlanRequest} {state t : PlanningState}
  {sessions used : List SessionKey}

section

variable (h : Retention env request state sessions used) {index : UInt16}

include h

lemma congr (hbl : t.blocks = state.blocks) (hwater : t.sessionHighWater = state.sessionHighWater) :
    Retention env request t sessions used :=
  ⟨hbl ▸ h.sessions, hbl ▸ h.named, hbl ▸ h.external, hwater ▸ h.bounded⟩

lemma adds {item : WorkItem} {kind : ScheduleBlockKind} {interval : Span}
    {explanations : List PlacementExplanation}
    (hbl : t.blocks = state.blocks ++ [itemBlock env item kind index interval explanations])
    (hwater : t.sessionHighWater = state.sessionHighWater) :
    Retention env request t (sessions ++ [⟨item.id, index⟩]) used := by
  refine ⟨?_, ?_, ?_, hwater ▸ h.bounded⟩
  · rw [hbl, ← h.sessions]
    exact filterMap_append
  · rw [hbl]
    refine forall_mem_append.mpr ⟨h.named, forall_mem_singleton.mpr fun id hid => ?_⟩
    cases hid
    rfl
  · rw [hbl, ← h.external]
    exact filterMap_append.trans (append_nil _)

lemma raise {id : ItemId} (hbl : t.blocks = state.blocks)
    (hwater : t.sessionHighWater = raiseHighWater state.sessionHighWater id index) :
    Retention env request t sessions (used ++ [⟨id, index⟩]) := by
  refine ⟨hbl ▸ h.sessions, hbl ▸ h.named, hbl ▸ h.external, ?_⟩
  have hraised : ∃ w, t.sessionHighWater[id]? = some w ∧ index ≤ w ∧
      ∀ v, state.sessionHighWater[id]? = some v → v ≤ w := by
    rw [hwater, raiseHighWater, ExtTreeMap.getElem?_insert_self]
    cases state.sessionHighWater[id]? with
    | none => exact ⟨index, rfl, UInt16.le_refl _, by rintro v ⟨⟩⟩
    | some current =>
      refine ⟨max current index, rfl, right_le_max, ?_⟩
      rintro v ⟨⟩
      exact left_le_max
  obtain ⟨w, hw, hidx, hold⟩ := hraised
  refine forall_mem_append.mpr ⟨fun key hkey => ?_, forall_mem_singleton.mpr ⟨w, hw, hidx⟩⟩
  obtain ⟨v, hv, hle⟩ := h.bounded key hkey
  by_cases hid : key.itemId = id
  · rw [hid] at hv ⊢
    exact ⟨w, hw, UInt16.le_trans hle (hold v hv)⟩
  · refine ⟨v, ?_, hle⟩
    rw [hwater, raiseHighWater, ExtTreeMap.getElem?_insert, if_neg (by simpa using Ne.symm hid)]
    exact hv

end

variable {β : Type} {l : List β} {items : WorkMap}

lemma foldl {f : PlanningState → β → PlanningState} {g u : β → List SessionKey}
    (hf : ∀ {s k v} b, b ∈ l → Retention env request s k v →
      Retention env request (f s b) (k ++ g b) (v ++ u b))
    (h : Retention env request state sessions used) :
    Retention env request (l.foldl f state) (sessions ++ l.flatMap g) (used ++ l.flatMap u) := by
  induction l generalizing state sessions used with
  | nil => simpa using h
  | cons b rest ih =>
    rw [flatMap_cons, flatMap_cons, ← append_assoc, ← append_assoc]
    exact ih (fun b hb => hf b (mem_cons_of_mem _ hb)) (hf b mem_cons_self h)

lemma foldlM {f : PlanningState → β → Except ScheduleError PlanningState} {g : β → List SessionKey}
    (hf : ∀ {s k} b {s'}, f s b = .ok s' → Retention env request s k used →
      Retention env request s' (k ++ g b) used) (hrun : l.foldlM f state = .ok t)
    (h : Retention env request state sessions used) :
    Retention env request t (sessions ++ l.flatMap g) used := by
  refine Except.foldlM_prefix_invariant
    (P := fun done s => Retention env request s (sessions ++ done.flatMap g) used)
    (fun done b s s' _ hs h => ?_) hrun (by simpa using h)
  simpa using hf b hs h

lemma foldl_addFixedBlock (l : List FixedBlock) (s : PlanningState) :
    (l.foldl (addFixedBlock request) s).blocks = s.blocks ++
        (l.filter fun f => inHorizon request ⟨f.start, f.finish⟩).map fixedBlock ∧
      (l.foldl (addFixedBlock request) s).sessionHighWater = s.sessionHighWater := by
  induction l generalizing s with
  | nil => exact ⟨by simp, rfl⟩
  | cons f rest ih =>
    obtain ⟨hbl, hwater⟩ := ih (addFixedBlock request s f)
    rw [foldl_cons, hbl, hwater, addFixedBlock]
    by_cases hin : inHorizon request ⟨f.start, f.finish⟩
    · simp [hin, retain]
    · simp [hin]

/-- External blocks are about no session, and the claimed indices are used from the start. -/
lemma addFixedBlocks (execution : MaterializedExecutionContext) :
    Retention env request ((new request execution).addExternalFixedBlocks request) []
      (claimedSessions execution) := by
  obtain ⟨hbl, hwater⟩ := foldl_addFixedBlock request.fixedBlocks (new request execution)
  have hnil : (new request execution).blocks = [] := rfl
  rw [hnil, nil_append] at hbl
  refine ⟨?_, ?_, ?_, fun key hkey => ?_⟩
  · rw [addExternalFixedBlocks, hbl, sessionKeys, filterMap_map]
    exact filterMap_eq_nil_iff.mpr fun _ _ => rfl
  · rw [addExternalFixedBlocks, hbl]
    refine forall_mem_map.mpr ?_
    rintro f - id ⟨⟩
  · rw [addExternalFixedBlocks, hbl, externalIds, filterMap_map]
    exact congrFun (filterMap_eq_map') _
  · rw [addExternalFixedBlocks, hwater]
    obtain ⟨entry, hent, hidx⟩ := mem_flatMap.mp hkey
    obtain ⟨index, hclaimed, rfl⟩ := mem_map.mp hidx
    obtain ⟨w, hw, hle⟩ := exists_max_of_mem hclaimed
    refine ⟨w, ExtTreeMap.getElem?_ofList_of_mem ReflCmp.compare_self ?_ (mem_filterMap.mpr
      ⟨entry, hent, Option.map_eq_some_iff.mpr ⟨w, hw, rfl⟩⟩), hle⟩
    refine pairwise_filterMap.mpr (ExtTreeMap.distinct_keys_toList.imp ?_)
    intro a b hne a' ha b' hb
    obtain ⟨-, -, rfl⟩ := Option.map_eq_some_iff.mp ha
    obtain ⟨-, -, rfl⟩ := Option.map_eq_some_iff.mp hb
    exact hne

/-- The session of an event. -/
lemma addCalendarEvent (item : WorkItem) (h : Retention env request state sessions used) :
    Retention env request (addCalendarEvent env request state item)
      (sessions ++ (eventSession request item).toList) (used ++ []) := by
  unfold PlanningState.addCalendarEvent eventSession
  cases item.kind with
  | calendarEvent event =>
    dsimp only
    rw [append_nil]
    split
    · rw [Option.toList_none, append_nil]
      exact h.congr rfl rfl
    · split
      · rw [Option.toList_none, append_nil]
        exact h
      · exact h.adds rfl rfl
  | _ => simpa using h

/-- The reservations of a work unit. -/
lemma addWorkUnit (entry : ItemId × MaterializedExecutionWorkUnit)
    (hadd : addWorkUnit env request items state entry = .ok t)
    (h : Retention env request state sessions used) :
    Retention env request t (sessions ++ reservedSessions request items entry) used := by
  unfold PlanningState.addWorkUnit at hadd
  unfold reservedSessions
  cases hitem : items[entry.1]? with
  | none =>
    rw [hitem] at hadd
    cases hadd
    simpa using h
  | some item =>
    rw [hitem] at hadd
    obtain ⟨s, hs, hadd⟩ := Except.bind_eq_ok.mp hadd
    have hresv : Retention env request s
        (sessions ++ entry.2.reservations.filterMap (reservedSession request item.id)) used := by
      rw [filterMap_eq_flatMap_toList]
      refine foldlM (fun {s k} r {s'} hr hk => ?_) hs h
      unfold addReservation at hr
      unfold reservedSession
      dsimp only at hr
      split at hr
      · rename_i hout
        cases hr
        rw [if_pos hout, Option.toList_none, append_nil]
        exact hk.congr rfl rfl
      · rename_i hmt
        rw [if_neg hmt]
        split at hr
        · cases hr
        · cases hr
          exact hk.adds rfl rfl
    split at hadd <;> cases hadd
    · exact hresv
    · exact hresv.congr rfl rfl

lemma addPinnedBlock (item : WorkItem) (manual : Bool) (b : PreviousBlock)
    (h : Retention env request state sessions used) :
    Retention env request (addPinnedBlock env request item manual state b)
      (sessions ++ if pinnedInHorizon request b then [⟨item.id, b.sessionIndex⟩] else [])
      (used ++ [⟨item.id, b.sessionIndex⟩]) := by
  unfold PlanningState.addPinnedBlock
  by_cases hin : pinnedInHorizon request b
  · rw [if_neg (not_not.mpr hin), if_pos hin]
    have hraised : Retention env request { state with
          sessionHighWater := raiseHighWater state.sessionHighWater item.id b.sessionIndex }
        sessions (used ++ [⟨item.id, b.sessionIndex⟩]) := h.raise rfl rfl
    exact hraised.adds rfl rfl
  · rw [if_pos hin, if_neg hin, append_nil]
    exact h.raise rfl rfl

/-- The pinned blocks of an assignment. -/
lemma addPinnedAssignment {a : PreviousAssignment} {item : WorkItem}
    (hitem : items[a.itemId]? = some item) (hid : item.id = a.itemId)
    (hflex : a.pinned → ¬ item.kind.isCalendarEvent)
    (h : Retention env request state sessions used) :
    Retention env request (addPinnedAssignment env request items state a)
      (sessions ++ if a.pinned then (a.blocks.filter (pinnedInHorizon request)).map fun b =>
        ⟨a.itemId, b.sessionIndex⟩ else [])
      (used ++ if a.pinned then (a.blocks.filter fun _ => true).map fun b =>
        ⟨a.itemId, b.sessionIndex⟩ else []) := by
  unfold PlanningState.addPinnedAssignment
  rw [hitem]
  dsimp only
  by_cases hpin : a.pinned
  · rw [if_neg (by simp [hpin, hflex hpin]), if_pos hpin, if_pos hpin, ← hid,
      ← flatMap_ite_singleton, ← flatMap_ite_singleton]
    exact (foldl (fun b _ hs => hs.addPinnedBlock item _ b) h).congr rfl rfl
  · rw [if_pos (.inl hpin), if_neg hpin, if_neg hpin, append_nil, append_nil]
    exact h

end Retention

/-! ### Retained sessions -/

variable {env : Externals} {request : PlanRequest} {key : SessionKey}

lemma eventSession_eq_some {item : WorkItem} (h : eventSession request item = some key) :
    item.kind.isCalendarEvent ∧ key.itemId = item.id := by
  unfold eventSession at h
  split at h
  · simp only [Option.ite_none_left_eq_some, Option.some.injEq] at h
    obtain ⟨-, -, rfl⟩ := h
    exact ⟨by simp [ItemKind.isCalendarEvent, *], rfl⟩
  · cases h

lemma of_mem_reservedSessions {entry : ItemId × MaterializedExecutionWorkUnit}
    (h : key ∈ reservedSessions request (itemsById request.items) entry) : key.itemId = entry.1 ∧
      key.sessionIndex ∈ entry.2.reservations.map (·.sessionIndex) := by
  unfold reservedSessions at h
  split at h
  · cases h
  · rename_i item hitem
    obtain ⟨r, hr, hkey⟩ := mem_filterMap.mp h
    obtain ⟨-, hkey⟩ := Option.ite_none_left_eq_some.mp hkey
    cases hkey
    exact ⟨(mem_of_getElem?_itemsById hitem).2, mem_map_of_mem hr⟩

lemma of_mem_pinnedSessions {counts : PreviousBlock → Bool}
    (h : key ∈ pinnedSessions request counts) : ∃ a ∈ request.previousAssignments, a.pinned ∧
      key.itemId = a.itemId ∧ ∃ b ∈ a.blocks, b.sessionIndex = key.sessionIndex := by
  obtain ⟨a, ha, hkey⟩ := mem_flatMap.mp h
  obtain ⟨hpin, hkey⟩ := mem_ite_nil_right.mp hkey
  obtain ⟨b, hb, rfl⟩ := mem_map.mp hkey
  exact ⟨a, ha, hpin, rfl, b, (mem_filter.mp hb).1, rfl⟩

/-- The sessions of the retained blocks: events, reservations and pinned blocks. -/
def retainedSessions (request : PlanRequest) (execution : MaterializedExecutionContext) :
    List SessionKey :=
  request.items.filterMap (eventSession request) ++
    execution.workUnits.toList.flatMap (reservedSessions request (itemsById request.items)) ++
    pinnedSessions request (pinnedInHorizon request)

/-- **The retained state**: which sessions are there, and which indices are used. -/
theorem retention_retained {execution : MaterializedExecutionContext} {state : PlanningState}
    (hval : ValidRequest request) (h : Planner.retained env request execution = .ok state) :
    Retention env request state (retainedSessions request execution)
      (claimedSessions execution ++ pinnedSessions request fun _ => true) := by
  obtain ⟨reserved, hresv, hdetect⟩ := Except.bind_eq_ok.mp h
  obtain ⟨violations, -, hs⟩ := Except.bind_eq_ok.mp hdetect
  cases hs
  refine Retention.congr (Retention.foldl (fun a ha hs => ?_)
    (Retention.foldlM (fun entry _ hadd hs => hs.addWorkUnit entry hadd) hresv ?_)) rfl rfl
  · obtain ⟨item, hitem, hflex⟩ := hval.assigned ha
    exact hs.addPinnedAssignment hitem (mem_of_getElem?_itemsById hitem).2 hflex
  · have hevents : Retention env request
        (((new request execution).addExternalFixedBlocks request).addCalendarEvents env
          request) _ _ :=
      Retention.foldl (fun item _ hs => hs.addCalendarEvent item)
        (Retention.addFixedBlocks execution)
    rw [nil_append, ← filterMap_eq_flatMap_toList,
      flatMap_eq_nil_iff.mpr fun _ _ => rfl, append_nil] at hevents
    exact hevents

end PlanningState

variable {env : Externals} {request : PlanRequest} {execution : ExecutionPlanningContext}
  {lifecycle : OccurrenceLifecycleContext}

section

open PlanningState

variable {prepared : Prepared}

/-- What preparation has checked about indices. -/
structure CheckedIndices (prepared : Prepared) : Prop where
  nodup : ∀ entry ∈ prepared.execution.workUnits.toList,
    (entry.2.reservations.map ExecutionReservation.sessionIndex).Nodup
  flexible : ∀ item ∈ prepared.request.items, item.kind.isCalendarEvent →
    ∀ entry ∈ prepared.execution.workUnits.toList, entry.1 = item.id → entry.2.reservations = []
  unclaimed : ∀ a ∈ prepared.request.previousAssignments,
    ∀ entry ∈ prepared.execution.workUnits.toList, entry.1 = a.itemId →
      ∀ b ∈ a.blocks, b.sessionIndex ∉ entry.2.claimed

lemma checkedIndices_of_prepare (h : prepare env request execution lifecycle = .ok prepared)
    (hnd : (prepared.request.items.map WorkItem.id).Nodup) : CheckedIndices prepared := by
  have horigin := exists_origin h hnd
  have hrq := (prepare_valid h).nodup
  simp only [prepare, Except.bind_eq_ok] at h
  obtain ⟨-, -, ⟨⟩, hexn, m, -, m', -, result, hres, h⟩ := h
  cases applyExecutionContext_ok hres
  cases h
  have hsound := validateExecutionContext_ok hexn
  refine ⟨fun entry hent => ?_, fun item hitem hevent entry hent hid => ?_,
    fun a ha entry hent hid b hb hclaimed => ?_⟩
  · obtain ⟨unit, hunit, -, heq⟩ := exists_unit_of_mem_materializeExecution hent
    rw [heq]
    exact (hsound unit hunit).nodup
  · obtain ⟨unit, hunit, hident, heq⟩ := exists_unit_of_mem_materializeExecution hent
    obtain ⟨original, hmem, ho⟩ := horigin item hitem
    have hname : unit.itemId = original.id := by
      rw [← ho.itemId, ← hid]
      exact congrArg (·.itemId) hident
    rw [heq]
    refine (hsound unit hunit).flexible original ?_ (ho.kind ▸ hevent)
    rw [hname]
    exact getElem?_itemsById hrq hmem
  · obtain ⟨source, -, hretain⟩ := mem_filterMap.mp ha
    obtain ⟨-, hretain⟩ := Option.ite_none_left_eq_some.mp hretain
    cases hretain
    rw [ExtTreeMap.mem_toList_iff_getElem?_eq_some, hid] at hent
    simp only [hent] at hb
    split at hb
    · cases hb
    · simpa [MaterializedExecutionWorkUnit.claimsSessionIndex, hclaimed] using (mem_filter.mp hb).2

/-- Events, reservations and pinned blocks do not share sessions, so only pinned blocks can. -/
lemma nodup_retainedSessions_iff (hval : ValidRequest prepared.request)
    (h : CheckedIndices prepared) : (retainedSessions prepared.request prepared.execution).Nodup ↔
      (pinnedSessions prepared.request (pinnedInHorizon prepared.request)).Nodup := by
  unfold retainedSessions
  rw [nodup_append, nodup_append]
  refine ⟨fun hall => hall.2.1, fun hnd => ⟨⟨?_, ?_, ?_⟩, hnd, ?_⟩⟩
  · -- events have different items
    refine pairwise_filterMap.mpr ((pairwise_map.mp hval.nodup).imp ?_)
    rintro a b hne key hkey _ hkey' rfl
    exact hne ((eventSession_eq_some hkey).2.symm.trans (eventSession_eq_some hkey').2)
  · -- the reservations of a work unit have different indices
    refine nodup_flatMap.mpr ⟨fun entry hent => ?_,
      ExtTreeMap.distinct_keys_toList.imp fun {e e'} hne => ?_⟩
    · unfold reservedSessions
      split
      · exact .nil
      · refine pairwise_filterMap.mpr ((pairwise_map.mp (h.nodup entry hent)).imp ?_)
        rintro r r' hne key hkey _ hkey' rfl
        obtain ⟨-, hkey⟩ := Option.ite_none_left_eq_some.mp hkey
        obtain ⟨-, hkey'⟩ := Option.ite_none_left_eq_some.mp hkey'
        exact hne (congrArg (·.sessionIndex) (Option.some.inj (hkey.trans hkey'.symm)))
    · intro key hkey hkey'
      refine hne (LawfulEqOrd.compare_eq_iff_eq.mpr ?_)
      exact (of_mem_reservedSessions hkey).1.symm.trans (of_mem_reservedSessions hkey').1
  · -- events have no reservations
    rintro key hkey _ hkey' rfl
    obtain ⟨item, hitem, hkey⟩ := mem_filterMap.mp hkey
    obtain ⟨entry, hent, hkey'⟩ := mem_flatMap.mp hkey'
    obtain ⟨hid, hidx⟩ := of_mem_reservedSessions hkey'
    obtain ⟨hkind, hevent⟩ := eventSession_eq_some hkey
    rw [h.flexible item hitem hkind entry hent (hid.symm.trans hevent)] at hidx
    cases hidx
  · -- events are not pinned, and pinned blocks with a claimed index are dropped
    rintro key hkey _ hkey' rfl
    obtain ⟨a, ha, hp, hid, b, hb, hidx⟩ := of_mem_pinnedSessions hkey'
    rcases mem_append.mp hkey with hkey | hkey
    · obtain ⟨item, hitem, hkey⟩ := mem_filterMap.mp hkey
      obtain ⟨hkind, hevent⟩ := eventSession_eq_some hkey
      obtain ⟨other, hoth, hflex⟩ := hval.assigned ha
      obtain ⟨hmem, hoth⟩ := mem_of_getElem?_itemsById hoth
      rw [← inj_on_of_nodup_map hval.nodup hitem hmem (hevent.symm.trans (hid.trans hoth.symm))]
        at hflex
      exact hflex hp hkind
    · obtain ⟨entry, hent, hkey⟩ := mem_flatMap.mp hkey
      obtain ⟨hentryId, hkey⟩ := of_mem_reservedSessions hkey
      refine h.unclaimed a ha entry hent (hentryId.symm.trans hid) b hb ?_
      exact mem_append_right _ (hidx ▸ hkey)

end

/-! ### Planned sessions -/

namespace PlanningState

variable {item : WorkItem} {edges : List Dependency} {items : WorkMap} {start t : PlanningState}

/-- Planned blocks have an index above those of the blocks of the item before them and above the
used ones. -/
structure Fresh (env : Externals) (start t : PlanningState) : Prop where
  highWater : t.sessionHighWater = start.sessionHighWater
  named : ∀ b ∈ t.blocks, ∀ id ∈ b.itemId, b.id = blockId env id b.sessionIndex b.start
  increasing : t.blocks.Pairwise fun a b =>
    b.kind = .planned → a.itemId = b.itemId → a.sessionIndex < b.sessionIndex
  above : ∀ b ∈ t.blocks, b.kind = .planned → ∀ id ∈ b.itemId,
    ∀ w ∈ start.sessionHighWater[id]?, w < b.sessionIndex

/-- The index is above all of an item. -/
def FreeIndex (start t : PlanningState) (id : ItemId) (index : UInt16) : Prop :=
  (∀ b ∈ t.blocks, b.itemId = some id → b.sessionIndex < index) ∧
    ∀ w ∈ start.sessionHighWater[id]?, w < index

lemma lt_of_nextSessionIndex {index next i : UInt16} (h : nextSessionIndex index = some next)
    (hle : i ≤ index) : i < next := by
  unfold nextSessionIndex at h
  split at h
  · cases h
  · rename_i hne
    cases h
    have hne : index.toNat ≠ 65535 := fun heq => hne (UInt16.toNat_inj.mp heq)
    have hlt := index.toNat_lt
    rw [UInt16.le_iff_toNat_le] at hle
    change i.toNat < (index.toNat + 1) % 65536
    omega

variable (h : Fresh env start t) {index : UInt16}

include h

lemma Fresh.congr {s : PlanningState} (hsame : SameTime t s) : Fresh env start s :=
  ⟨hsame.sessionHighWater.trans h.highWater, hsame.blocks ▸ h.named, hsame.blocks ▸ h.increasing,
    hsame.blocks ▸ h.above⟩

lemma Fresh.acceptCandidate (hfree : FreeIndex start t item.id index) (candidate : Candidate)
    (split : Bool) : Fresh env start (acceptCandidate env t item candidate index split) := by
  refine ⟨h.highWater, ?_, ?_, ?_⟩
  · refine forall_mem_append.mpr ⟨h.named, forall_mem_singleton.mpr ?_⟩
    rintro _ ⟨⟩
    rfl
  · refine pairwise_append.mpr ⟨h.increasing, pairwise_singleton _ _, ?_⟩
    intro a ha b hb _ hid
    rw [mem_singleton.mp hb] at hid ⊢
    exact hfree.1 a ha hid
  · refine forall_mem_append.mpr ⟨h.above, forall_mem_singleton.mpr fun _ => ?_⟩
    rintro _ ⟨⟩
    exact hfree.2

/-- The first index of an item is above all of them. -/
lemma Fresh.startSessions {remaining : UInt32}
    (hidx : (t.startSessions item remaining).sessionIndex = some index) :
    FreeIndex start t item.id index := by
  have hall : ∀ i ∈ t.sessionHighWater[item.id]?.toList ++
      (blocksOf t.blocks item.id).map (·.sessionIndex), i < index := by
    intro i hi
    obtain ⟨w, hw, hle⟩ := exists_max_of_mem hi
    unfold PlanningState.startSessions at hidx
    simp only [hw, Option.elim_some] at hidx
    exact lt_of_nextSessionIndex hidx hle
  refine ⟨fun b hb hid => hall _ (mem_append_right _ (mem_map_of_mem ?_)), fun w hw =>
    hall _ (mem_append_left _ ?_)⟩
  · exact mem_filter.mpr ⟨hb, decide_eq_true hid⟩
  · rw [h.highWater]
    exact Option.mem_toList.mpr hw

lemma Fresh.scheduleItem : Fresh env start (scheduleItem env t request item edges items).1 := by
  refine scheduleItem_invariant (J := fun s => Fresh env start s.state ∧
    ∀ index, s.sessionIndex = some index → FreeIndex start s.state item.id index)
    (fun hsame hs => hs.congr hsame) h
    (fun _ _ => ⟨h, fun _ hidx => h.startSessions hidx⟩) (fun _ _ _ hs => hs)
    (fun s index candidate _ hs hidx _ _ => hs.1.acceptCandidate (hs.2 index hidx) candidate false)
    ?_ fun _ hs => hs.1
  rintro _ _ _ _ _ _ s _ index earliest size candidate hs ⟨-, -, hidx, -, -, -, rfl⟩
  have hfree := hs.2 index hidx
  refine ⟨hs.1.acceptCandidate hfree candidate true, fun next hnext => ⟨?_, fun w hw => ?_⟩⟩
  · refine forall_mem_append.mpr ⟨fun b hb hid => ?_, forall_mem_singleton.mpr fun _ => ?_⟩
    · exact lt_of_nextSessionIndex hnext (UInt16.le_of_lt (hfree.1 b hb hid))
    · exact lt_of_nextSessionIndex hnext (UInt16.le_refl _)
  · exact lt_of_nextSessionIndex hnext (UInt16.le_of_lt (hfree.2 w hw))

end PlanningState

/-! ### The sessions of a plan -/

/-- Different sessions of a work unit have different indices. -/
def SchedulePlan.SessionsApart (plan : SchedulePlan) : Prop :=
  plan.blocks.Pairwise fun a b => a.itemId ≠ none → a.itemId = b.itemId →
    a.occurrenceId = b.occurrenceId → a.sessionIndex ≠ b.sessionIndex

/-- The bytes from which the identifier of a block is made, next to its item. -/
def blockName (b : ScheduleBlock) : List UInt8 :=
  toBeBytes 16 b.start.nanos ++ toBeBytes 2 b.sessionIndex.toNat

lemma sessionIndex_of_blockName_eq {a b : ScheduleBlock} (h : blockName a = blockName b) :
    a.sessionIndex = b.sessionIndex := by
  have hbytes := append_inj_right h (by simp [toBeBytes])
  simp only [toBeBytes, range_succ, range_zero, nil_append, singleton_append,
    reverse_cons, reverse_nil, map_cons, map_nil, List.cons.injEq, and_true,
    ← UInt8.toNat_inj, UInt8.toNat_ofNat'] at hbytes
  have ha := a.sessionIndex.toNat_lt
  have hb := b.sessionIndex.toNat_lt
  exact UInt16.toNat_inj.mp (by omega)

namespace PlanTrace

open PlanningState

variable {plan : SchedulePlan} (trace : PlanTrace env request execution lifecycle plan)

/-- Identifiers that are made from different names in a run are different, and external blocks have
identifiers of their own. -/
structure NamesApart : Prop where
  v5 : ∀ a ∈ trace.final.blocks, ∀ b ∈ trace.final.blocks, ∀ i ∈ a.itemId, ∀ j ∈ b.itemId,
    env.newV5 i.uuid (blockName a) = env.newV5 j.uuid (blockName b) →
      i = j ∧ blockName a = blockName b
  external : (trace.prepared.request.fixedBlocks.map FixedBlock.id).Nodup
  apart : ∀ b ∈ trace.final.blocks, ∀ i ∈ b.itemId, ∀ f ∈ trace.prepared.request.fixedBlocks,
    env.newV5 i.uuid (blockName b) ≠ f.id

/-- The indices of planned blocks are above those that execution evidence claims and those of
pinned blocks. -/
def SessionsAbove : Prop :=
  ∀ b ∈ plan.blocks, b.kind = .planned → ∀ key ∈ claimedSessions trace.prepared.execution ++
      pinnedSessions trace.prepared.request fun _ => true,
    b.itemId = some (trace.identity key.itemId).itemId →
      b.occurrenceId = (trace.identity key.itemId).occurrenceId → key.sessionIndex < b.sessionIndex

lemma retention : Retention env trace.prepared.request trace.start
    (retainedSessions trace.prepared.request trace.prepared.execution)
    (claimedSessions trace.prepared.execution ++
      pinnedSessions trace.prepared.request fun _ => true) :=
  retention_retained trace.valid trace.retained_eq

lemma fresh : Fresh env trace.start trace.final := by
  refine Planner.place_invariant trace.valid (fun hsame hs => hs.congr hsame)
    (fun item _ _ s hs => hs.scheduleItem) ⟨rfl, trace.retention.named, ?_, fun b hb hk =>
      absurd hk (trace.onlyRetained.kind b hb)⟩
  exact pairwise_of_forall_mem_list fun a _ b hb hk =>
    absurd hk (trace.onlyRetained.kind b hb)

lemma sessionsApart_iff : plan.SessionsApart ↔ trace.final.blocks.Pairwise fun a b =>
    a.itemId ≠ none → a.itemId = b.itemId → a.sessionIndex ≠ b.sessionIndex := by
  refine trace.pairwise_plan (fun a b h hb hid hocc heq =>
    h (hid ▸ hb) hid.symm hocc.symm heq.symm) (fun _ _ => Iff.rfl) fun a ha b hb => ?_
  cases hid : b.itemId with
  | none =>
    have hnone : (remapBlock trace.prepared.identities b).itemId = none := by
      simp [remapBlock, remapName, hid]
    rw [hnone]
    exact ⟨fun _ hne heq => absurd heq hne, fun _ hne heq => absurd heq hne⟩
  | some id =>
    have hname := trace.name_eq_iff ha id
    obtain ⟨hitem, hocc⟩ :=
      remapBlock_name trace.prepared.identities hid (trace.occurrenceId_final b hb)
    rw [hitem, hocc]
    constructor
    · intro h _ heq
      obtain ⟨hi, ho⟩ := hname.mpr heq
      exact h (by rw [hi]; exact Option.some_ne_none _) hi ho
    · intro h _ hi ho
      have heq := hname.mp ⟨hi, ho⟩
      exact h (by rw [heq]; exact Option.some_ne_none _) heq

/-- Planned sessions are told apart from all others, so only retained ones matter. -/
lemma sessionsApart_iff_nodup : plan.SessionsApart ↔
    (pinnedSessions trace.prepared.request (pinnedInHorizon trace.prepared.request)).Nodup := by
  rw [← nodup_retainedSessions_iff trace.valid
      (checkedIndices_of_prepare trace.prepare_eq trace.valid.nodup),
    ← trace.retention.sessions, trace.sessionsApart_iff]
  have hkeys : (sessionKeys trace.start.blocks).Nodup ↔ trace.start.blocks.Pairwise fun a b =>
      a.itemId ≠ none → a.itemId = b.itemId → a.sessionIndex ≠ b.sessionIndex := by
    refine pairwise_filterMap.trans (List.Pairwise.iff fun {a b} => ⟨?_, ?_⟩)
    · intro h hne hid heq
      obtain ⟨id, ha⟩ := Option.ne_none_iff_exists'.mp hne
      rw [← hid, ha] at h
      exact h _ rfl _ rfl (by rw [heq])
    · intro h key hkey key' hkey' heq
      obtain ⟨id, ha, rfl⟩ := Option.map_eq_some_iff.mp hkey
      obtain ⟨id', hb, rfl⟩ := Option.map_eq_some_iff.mp hkey'
      obtain ⟨hid, hidx⟩ := SessionKey.mk.inj heq
      exact h (ha ▸ Option.some_ne_none _) (ha.trans (hid ▸ hb.symm)) hidx
  have hfr := trace.fresh.increasing
  rw [hkeys, trace.final_blocks]
  rw [trace.final_blocks] at hfr
  obtain ⟨-, hpln, hcross⟩ := pairwise_append.mp hfr
  refine ⟨fun h => (pairwise_append.mp h).1, fun h => pairwise_append.mpr ⟨h, ?_, ?_⟩⟩
  · refine hpln.imp_of_mem fun {a b} _ hb hlt _ hid => ?_
    obtain ⟨p, -, rfl⟩ := mem_map.mp hb
    exact UInt16.ne_of_lt (hlt rfl hid)
  · intro a ha b hb _ hid
    obtain ⟨p, -, rfl⟩ := mem_map.mp hb
    exact UInt16.ne_of_lt (hcross a ha _ hb rfl hid)

lemma sessionsAbove : trace.SessionsAbove := by
  intro b hb hk key hkey hitem hocc
  obtain ⟨a, ha, hcore⟩ := trace.exists_final hb
  have hid := (trace.name_eq_iff ha key.itemId).mp
    ⟨(congrArg (·.itemId) hcore).trans hitem,
      (congrArg (·.occurrenceId) hcore).trans hocc⟩
  have hidx : b.sessionIndex = a.sessionIndex := (congrArg (·.sessionIndex) hcore).symm
  obtain ⟨w, hw, hle⟩ := trace.retention.bounded key hkey
  rw [hidx]
  exact UInt16.lt_of_le_of_lt hle (trace.fresh.above a ha
    ((ScheduleBlock.kind_eq_of_core_eq hcore).trans hk) _ hid w hw)

/-- Blocks without an item are external blocks, which have different identifiers. -/
lemma external_final (hnames : trace.NamesApart) : trace.final.blocks.Pairwise fun a b =>
    a.itemId = none → b.itemId = none → a.id ≠ b.id := by
  have hids : externalIds trace.final.blocks = externalIds trace.start.blocks := by
    rw [trace.final_blocks, externalIds, filterMap_append, filterMap_map]
    exact (congrArg _ (filterMap_eq_nil_iff.mpr fun _ _ => rfl)).trans (append_nil _)
  have hnd := hnames.external.sublist
    ((filter_sublist (p := fun f => inHorizon trace.prepared.request ⟨f.start, f.finish⟩)).map
      FixedBlock.id)
  rw [← trace.retention.external, ← hids] at hnd
  refine (pairwise_filterMap.mp hnd).imp fun {a b} hne ha hb => ?_
  exact hne _ (if_pos ha) _ (if_pos hb)

lemma exists_fixedBlock {b : ScheduleBlock} (hb : b ∈ trace.final.blocks) (hnone : b.itemId = none) :
    ∃ f ∈ trace.prepared.request.fixedBlocks, f.id = b.id := by
  rw [trace.final_blocks, mem_append] at hb
  rcases hb with hb | hb
  · have hid : b.id ∈ externalIds trace.start.blocks := mem_filterMap.mpr ⟨b, hb, if_pos hnone⟩
    rw [trace.retention.external] at hid
    obtain ⟨f, hf, heq⟩ := mem_map.mp hid
    exact ⟨f, (mem_filter.mp hf).1, heq⟩
  · obtain ⟨p, -, rfl⟩ := mem_map.mp hb
    cases hnone

/-- Blocks have different identifiers if their sessions are told apart. -/
lemma nodup_ids (hnames : trace.NamesApart) (h : plan.SessionsApart) :
    (plan.blocks.map ScheduleBlock.id).Nodup := by
  have hnmd := trace.fresh.named
  refine pairwise_map.mpr ((trace.pairwise_plan
    (fun _ _ hne => hne.symm) (fun _ _ => Iff.rfl) fun _ _ _ _ => Iff.rfl).mpr ?_)
  refine ((trace.sessionsApart_iff.mp h).and (trace.external_final hnames)).imp_of_mem ?_
  rintro a b ha hb ⟨hsessions, hnone⟩ heq
  cases hi : a.itemId with
  | none =>
    cases hj : b.itemId with
    | none => exact hnone hi hj heq
    | some j =>
      obtain ⟨f, hf, hid⟩ := trace.exists_fixedBlock ha hi
      exact hnames.apart b hb j hj f hf ((hnmd b hb j hj).symm.trans (heq.symm.trans hid.symm))
  | some i =>
    cases hj : b.itemId with
    | none =>
      obtain ⟨f, hf, hid⟩ := trace.exists_fixedBlock hb hj
      exact hnames.apart a ha i hi f hf ((hnmd a ha i hi).symm.trans (heq.trans hid.symm))
    | some j =>
      obtain ⟨rfl, hname⟩ := hnames.v5 a ha b hb i hi j hj
        ((hnmd a ha i hi).symm.trans (heq.trans (hnmd b hb j hj)))
      exact hsessions (by simp [hi]) (hi.trans hj.symm) (sessionIndex_of_blockName_eq hname)

end PlanTrace

/-- **Sessions are identified**: blocks of a work unit have different indices, all blocks have
different identifiers, and planned indices are above all that were used, exactly if no two pinned
blocks in the horizon claim the same session. -/
theorem sessions_identified_iff {env : Externals} {request : PlanRequest}
    {execution : ExecutionPlanningContext} {lifecycle : OccurrenceLifecycleContext}
    {plan : SchedulePlan} (trace : PlanTrace env request execution lifecycle plan)
    (hnames : trace.NamesApart) :
    (plan.SessionsApart ∧ (plan.blocks.map ScheduleBlock.id).Nodup ∧ trace.SessionsAbove) ↔
      (PlanningState.pinnedSessions trace.prepared.request
        (PlanningState.pinnedInHorizon trace.prepared.request)).Nodup := by
  rw [← trace.sessionsApart_iff_nodup]
  exact ⟨And.left, fun h => ⟨h, trace.nodup_ids hnames h, trace.sessionsAbove⟩⟩

namespace Sample

/-- Ninety minutes of work with two pinned half hours, both the first session: one of the task, one
of an occurrence that it does not have. -/
def pinnedTwice : PlanRequest :=
  { Sample.request [task 1 90] with
    previousAssignments :=
      [{ itemId := (task 1 90).id, occurrenceId := none, pinned := true,
         blocks := [⟨.atSecond 0, .atSecond 1800, 0⟩] },
       { itemId := (task 1 90).id, occurrenceId := some ⟨.ofNat 7⟩, pinned := true,
         blocks := [⟨.atSecond 1800, .atSecond 3600, 0⟩] }] }

end Sample

/-- The meeting, the pinned block and the planned ones are told apart. -/
theorem sessions_identified_pinnedOnce : ∃ plan,
    planWithLifecycle naming (busyRequest [task 1 60, task 2 20]) {} {} = .ok plan ∧
      plan.blocks.length = 4 ∧ plan.SessionsApart ∧ (plan.blocks.map ScheduleBlock.id).Nodup := by
  obtain ⟨plan, hplan, trace, hlen, hv5, hext, hapart, hnd⟩ :=
    @exists_trace_of_eval naming (busyRequest [task 1 60, task 2 20]) {} {}
      (fun prepared start plan =>
      let blocks := (Planner.place naming prepared.request start).blocks
      plan.blocks.length = 4 ∧ (∀ a ∈ blocks, ∀ b ∈ blocks, ∀ i ∈ a.itemId, ∀ j ∈ b.itemId,
        naming.newV5 i.uuid (blockName a) = naming.newV5 j.uuid (blockName b) →
          i = j ∧ blockName a = blockName b) ∧
      (prepared.request.fixedBlocks.map FixedBlock.id).Nodup ∧
      (∀ b ∈ blocks, ∀ i ∈ b.itemId, ∀ f ∈ prepared.request.fixedBlocks,
        naming.newV5 i.uuid (blockName b) ≠ f.id) ∧
      (PlanningState.pinnedSessions prepared.request
        (PlanningState.pinnedInHorizon prepared.request)).Nodup) (by decide +kernel)
  obtain ⟨hsessions, hids, -⟩ := (sessions_identified_iff trace ⟨hv5, hext, hapart⟩).mpr hnd
  exact ⟨plan, hplan, hlen, hsessions, hids⟩

/-- Two blocks of one task are both its first session. -/
theorem sessions_not_identified_pinnedTwice : ∃ plan, Sample.plan pinnedTwice = .ok plan ∧
    ∃ a ∈ plan.blocks, ∃ b ∈ plan.blocks, a.start ≠ b.start ∧ a.itemId = b.itemId ∧
      a.occurrenceId = b.occurrenceId ∧ a.sessionIndex = b.sessionIndex := by
  decide +kernel

end DayWeave
