import DayWeave.Scheduler.Plan
import DayWeave.Scheduler.Rules
import DayWeave.Scheduler.Sessions

/-!
What a run of the planner does to the blocks of the plan.

A run only takes candidates into the plan, one at a time, and writes reports in between (`Run`,
`reaches_place`). Every property of planned blocks starts from `Run.history`: a planned block was
the best candidate of a search when exactly the blocks before it were there.
-/

open List Std

namespace DayWeave

namespace Planner

/-- A search of the planner that finds a slot: the state before it, what is searched for
which item, and the candidate that is taken. -/
structure Placement where
  state : PlanningState
  item : WorkItem
  search : PlanningState.SessionSearch
  candidate : Candidate
  split : Bool

namespace Placement

/-- The block that is taken into the plan. -/
def block (env : Externals) (p : Placement) : ScheduleBlock :=
  PlanningState.candidateBlock env p.item p.candidate p.search.sessionIndex p.split

@[simp] lemma block_interval (env : Externals) (p : Placement) :
    (p.block env).interval = p.candidate.interval := rfl

/-- The search is one for work of an eligible item, it waits at most for the end of a block
there is and some minutes after it, and the candidate is its best. -/
structure Succeeds (request : PlanRequest) (p : Placement) : Prop where
  mem : p.item ∈ request.items
  eligible : isEligible (childMap request.items) p.item
  duration : p.search.duration ≠ 0
  waits : ∀ t ∈ p.search.earliest, ∃ b ∈ p.state.blocks, ∃ gap : Minutes,
    b.finish.checkedAdd gap.toDuration = some t
  found : p.state.bestCandidate request p.item ((edgesOf request).getD p.item.id [])
    (itemsById request.items) p.search = some p.candidate

end Placement

/-- A run with its placements: it writes a report, or takes a candidate, any number of
times. -/
inductive Run (env : Externals) (request : PlanRequest) :
    List Placement → PlanningState → PlanningState → Prop
  | refl (s : PlanningState) : Run env request [] s s
  | report {ps : List Placement} {s t u : PlanningState} (run : Run env request ps s t)
      (blocks : u.blocks = t.blocks) (busy : u.busy = t.busy) : Run env request ps s u
  | place {ps : List Placement} {p : Placement} {s u : PlanningState}
      (run : Run env request ps s p.state) (succeeds : p.Succeeds request)
      (blocks : u.blocks = p.state.blocks ++ [p.block env])
      (busy : u.busy = p.state.busy ++ [⟨p.candidate.interval, some p.item.id, false, false⟩]) :
      Run env request (ps ++ [p]) s u

/-- Some run leads from the one state to the other. -/
def Reaches (env : Externals) (request : PlanRequest) (s t : PlanningState) : Prop :=
  ∃ ps, Run env request ps s t

section

variable {env : Externals} {request : PlanRequest} {item : WorkItem} {s t u : PlanningState}

lemma Reaches.sameTime (h : Reaches env request s t) (h' : PlanningState.SameTime t u) :
    Reaches env request s u := by
  obtain ⟨ps, hrun⟩ := h
  exact ⟨ps, .report hrun h'.blocks h'.busy⟩

lemma Reaches.sessionSteps (hmem : item ∈ request.items)
    (helig : isEligible (childMap request.items) item) {x y : PlanningState.Sessions}
    (hsteps : PlanningState.SessionSteps env request item ((edgesOf request).getD item.id [])
      (itemsById request.items) x y) (hends : x.WaitsForBlock) (h : Reaches env request s x.state) :
    Reaches env request s y.state ∧ y.WaitsForBlock := by
  induction hsteps with
  | refl => exact ⟨h, hends⟩
  | tail _ hstep ih =>
    obtain ⟨ih, hends⟩ := ih
    cases hstep with
    | stop state remaining added previousEnd =>
      refine ⟨state ▸ ih, ?_⟩
      unfold PlanningState.Sessions.WaitsForBlock
      rwa [state, previousEnd]
    | accept search candidate split positive fits finishes best state remaining added waits
        previousEnd =>
      obtain ⟨ps, hrun⟩ := ih
      refine ⟨?_, fun e he => ?_⟩
      · rw [state]
        refine ⟨_, .place (p := ⟨_, item, search, candidate, split⟩) hrun
          ⟨hmem, helig, positive, fun t ht => ?_, best⟩ rfl rfl⟩
        obtain ⟨e, he, gap, hgap⟩ := waits t ht
        obtain ⟨b, hb, rfl⟩ := hends e he
        exact ⟨b, hb, gap, hgap⟩
      · rw [state]
        rcases previousEnd e he with he | rfl
        · obtain ⟨b, hb, hfin⟩ := hends e he
          exact ⟨b, mem_append_left _ hb, hfin⟩
        · exact ⟨_, mem_append_right _ (mem_singleton_self _), rfl⟩

lemma Reaches.scheduleItem (hval : ValidRequest request) (hmem : item ∈ request.items)
    (helig : isEligible (childMap request.items) item) (h : Reaches env request s t) :
    Reaches env request s
      (PlanningState.scheduleItem env t request item ((edgesOf request).getD item.id [])
        (itemsById request.items)).1 := by
  unfold PlanningState.scheduleItem
  split
  · exact h.sameTime ⟨rfl, rfl, rfl, rfl⟩
  · dsimp only
    split
    · exact h.sameTime ⟨rfl, rfl, rfl, rfl⟩
    · rename_i hrem
      have hsteps := h.sessionSteps hmem helig (PlanningState.sessionSteps_placeSessions
        hval hmem hrem) (PlanningState.waitsForBlock_startSessions t item _)
      exact hsteps.1.sameTime (PlanningState.sameTime_settleItem _ _ _)

end

lemma sameTime_classifyItem (children : ChildMap) (state : PlanningState) (item : WorkItem) :
    PlanningState.SameTime state (classifyItem children state item) := by
  unfold classifyItem
  split_ifs <;> exact ⟨rfl, rfl, rfl, rfl⟩

lemma sameTime_reportCycle (items : WorkMap) (state : PlanningState) (id : ItemId) :
    PlanningState.SameTime state (reportCycle items state id) := by
  unfold reportCycle
  split <;> exact ⟨rfl, rfl, rfl, rfl⟩

section

variable (env : Externals) (request : PlanRequest) (state : PlanningState)

abbrev turn (progress : Progress) (id : ItemId) : Progress :=
  placeItem env request (itemsById request.items) (edgesOf request) progress id

def classified : PlanningState := request.items.foldl (classifyItem (childMap request.items)) state

/-- The progress after the turns of some items. -/
def progressAfter (ids : List ItemId) : Progress :=
  ids.foldl (turn env request) { state := classified request state }

variable {env request state} {ids : List ItemId} {P : PlanningState → Prop}

section

variable (hval : ValidRequest request)

include hval

lemma nodup_eligible :
    ((request.items.filter (isEligible (childMap request.items))).map WorkItem.id).Nodup :=
  hval.nodup.sublist (filter_sublist.map _)

lemma mem_eligibleIds {item : WorkItem} (hmem : item ∈ request.items) :
    item.id ∈ (request.items.filter (isEligible (childMap request.items))).map WorkItem.id ↔
      isEligible (childMap request.items) item := by
  constructor
  · intro h
    obtain ⟨other, hoth, hid⟩ := mem_map.mp h
    obtain ⟨hoth, helig⟩ := mem_filter.mp hoth
    exact inj_on_of_nodup_map hval.nodup hoth hmem hid ▸ helig
  · exact fun h => mem_map_of_mem (mem_filter.mpr ⟨hmem, h⟩)

lemma eligible_of_mem_placementOrder {id : ItemId} (hid : id ∈ (placementOrder request).1) :
    ∀ item ∈ request.items, item.id = id → isEligible (childMap request.items) item := by
  rintro item hitem rfl
  exact (mem_eligibleIds hval hitem).mp
    (mem_eligible_of_mem_dependencyOrder (nodup_eligible hval) hid)

end

section

variable (hval : ValidRequest request) (hsame : ∀ {s t}, PlanningState.SameTime s t → P s → P t)
  (hschedule : ∀ item ∈ request.items, isEligible (childMap request.items) item → ∀ s, P s →
    P (PlanningState.scheduleItem env s request item ((edgesOf request).getD item.id [])
      (itemsById request.items)).1) (h : P state)

include hval hsame hschedule h

/-- **Invariants of the turns**: what holds before and is kept by the placement of every
eligible item holds after any turns. -/
theorem progressAfter_invariant (hids : ∀ id ∈ ids, id ∈ (placementOrder request).1) :
    P (progressAfter env request state ids).state := by
  have hclass : P (classified request state) := List.foldlRecOn _ _ h
    fun s hs item _ => hsame (sameTime_classifyItem _ s item) hs
  refine List.foldlRecOn (motive := fun progress : Progress => P progress.state) ids _ hclass
    fun progress hs id hid => ?_
  unfold turn placeItem
  split
  · exact hs
  · rename_i item hitem
    obtain ⟨hmem, rfl⟩ := mem_of_getElem?_itemsById hitem
    dsimp only
    split
    · exact @hsame progress.state _ ⟨rfl, rfl, rfl, rfl⟩ hs
    · exact hschedule item hmem
        (eligible_of_mem_placementOrder hval (hids _ hid) item hmem rfl) _ hs

/-- **Invariants of the placement.** -/
theorem place_invariant : P (place env request state) := by
  exact List.foldlRecOn _ _ (progressAfter_invariant hval hsame hschedule h fun _ hid => hid)
    fun s hs id _ => hsame (sameTime_reportCycle _ s id) hs

end

/-- **The placement phase is a run.** -/
theorem reaches_place (hval : ValidRequest request) (state : PlanningState) :
    Reaches env request state (place env request state) :=
  place_invariant hval (fun hsame hs => hs.sameTime hsame)
    (fun _ hmem helig _ hs => hs.scheduleItem hval hmem helig) ⟨[], .refl state⟩

end

def takenTime (state : PlanningState) : List Span := state.busy.map BusyBlock.interval

/-- What is known about a block when it is taken. -/
structure Placed (request : PlanRequest) (state : PlanningState) (block : ScheduleBlock)
    (item : WorkItem) (window : AvailabilityWindow) : Prop where
  mem : item ∈ request.items
  eligible : isEligible (childMap request.items) item
  itemId : block.itemId = some item.id
  occurrenceId : block.occurrenceId = none
  kind : block.kind = .planned
  nonempty : block.start < block.finish
  horizon : (planningHorizon request).Contains block.interval
  available : window ∈ request.availability
  inside : window.interval.Contains block.interval
  free : ∀ i ∈ takenTime state, i.start < i.finish → ¬ i.Overlaps block.interval
  admits : ∃ finishesItem, state.Admits request item ((edgesOf request).getD item.id [])
    (itemsById request.items) window block.interval finishesItem

/-- **A block that is taken** lies in free time of one window in which no hard rule
refuses it. -/
theorem Placement.Succeeds.placed {request : PlanRequest} {p : Placement}
    (h : p.Succeeds request) (hg : request.config.slotGranularity ≠ 0) (env : Externals) :
    ∃ window, Placed request p.state (p.block env) p.item window := by
  obtain ⟨hmem, helig, hdur, -, hfnd⟩ := h
  obtain ⟨window, tally, hslot, -, hrules⟩ := PlanningState.bestCandidate_spec hfnd
  obtain ⟨havail, hinside, hhor, hadd, -, hfree⟩ := PlanningState.candidateSlots_spec hg hslot
  refine ⟨window, hmem, helig, rfl, rfl, rfl, start_lt_finish_of_checkedAdd hdur hadd, hhor,
    havail, hinside, fun i hi hne => ?_, _, PlanningState.admits_of_evaluateRules hrules⟩
  obtain ⟨b, hb, rfl⟩ := mem_map.mp hi
  exact hfree b hb hne

namespace Run

variable {env : Externals} {request : PlanRequest} {ps : List Placement} {s t : PlanningState}

lemma blocks_eq (h : Run env request ps s t) :
    t.blocks = s.blocks ++ ps.map (Placement.block env) := by
  induction h with
  | refl => simp
  | report _ blocks _ ih => exact blocks.trans ih
  | place _ _ blocks _ ih => simp [blocks, ih]

lemma takenTime_eq (h : Run env request ps s t) :
    takenTime t = takenTime s ++ ps.map fun p => p.candidate.interval := by
  induction h with
  | refl => simp
  | report _ _ busy ih => exact (congrArg _ busy).trans ih
  | place _ _ _ busy ih =>
    unfold takenTime at *
    rw [busy, map_append, ih]
    simp

/-- **History**: a placement succeeds in the state that the placements before it have
led to. -/
theorem history (h : Run env request ps s t) {pre post : List Placement} {p : Placement}
    (hspl : ps = pre ++ p :: post) : p.Succeeds request ∧ Run env request pre s p.state := by
  induction h generalizing post with
  | refl => simp at hspl
  | report _ _ _ ih => exact ih hspl
  | @place ps q s u hrun hsucceeds _ _ ih =>
    rcases eq_nil_or_concat post with rfl | ⟨init, last, rfl⟩
    · obtain ⟨rfl, heq⟩ := append_inj' hspl rfl
      cases heq
      exact ⟨hsucceeds, hrun⟩
    · rw [concat_eq_append, ← cons_append, ← append_assoc] at hspl
      exact ih (append_inj' hspl rfl).1

end Run

end Planner

end DayWeave
