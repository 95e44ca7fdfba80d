import DayWeave.Recurrence.Copies
import DayWeave.Scheduler.Plan

/-!
Where the items of a prepared request come from.

A prepared item is an item of the request, or a copy of one for a generated occurrence; evidence
changes its status and its duration only (`exists_origin`). Its public name is the original with
the occurrence, and names are unique (`publicIdentity_injective`).
-/

open List Std

namespace DayWeave

/-- The item of the request that a prepared item stands for. -/
inductive Origin (env : Externals) (request : PlanRequest) (prepared : Prepared)
    (original item : WorkItem) : Prop
  | retained (name : prepared.identities[item.id]? = none)
      (same : item = { original with status := item.status, duration := item.duration })
  | copied (o : Occurrence) (mem : o ∈ prepared.occurrences)
      (name : prepared.identities[item.id]? = some ⟨original.id, o.id⟩)
      (copy : WorkItem) (isCopy : IsCopy env request o original copy)
      (same : item = { copy with status := item.status, duration := item.duration })

namespace Origin

variable {env : Externals} {request : PlanRequest} {prepared : Prepared} {original item : WorkItem}

variable (h : Origin env request prepared original item)

include h

lemma itemId : (publicIdentity prepared.identities item.id).itemId = original.id := by
  unfold publicIdentity
  cases h with
  | retained name same =>
    rw [name]
    exact (congrArg WorkItem.id same :)
  | copied o mem name copy isCopy same => rw [name]

lemma kind : item.kind = original.kind := by
  cases h with
  | retained name same => rw [same]
  | copied o mem name copy isCopy same =>
    obtain ⟨parentId, edges, hcopy⟩ := isCopy.rest
    rw [same, hcopy]

/-- The rules of an item are those of its original, except for the window of its
occurrence and the edges between copies. -/
lemma rules : item.energy = original.energy ∧ ∃ edges occurrenceWindow, item.constraints =
      { original.constraints with
        dependencies := edges
        occurrenceWindow := occurrenceWindow } := by
  cases h with
  | retained name same =>
    rw [same]
    exact ⟨rfl, _, _, rfl⟩
  | copied o mem name copy isCopy same =>
    obtain ⟨parentId, edges, hcopy⟩ := isCopy.rest
    rw [same, hcopy]
    exact ⟨rfl, _, _, rfl⟩

end Origin

section

variable {env : Externals} {request : PlanRequest} {execution : ExecutionPlanningContext}
  {lifecycle : OccurrenceLifecycleContext} {prepared : Prepared}

lemma applyEvidence_eq (source : ExtTreeMap WorkIdentity ExecutionWorkUnit)
    (identities : IdentityMap) (item : WorkItem) :
    ∃ status duration, applyEvidence source identities item =
      { item with status := status, duration := duration } := by
  unfold applyEvidence
  split
  · exact ⟨_, _, rfl⟩
  · unfold applyWorkUnit
    split
    · exact ⟨_, _, rfl⟩
    · exact ⟨_, _, rfl⟩

variable (h : prepare env request execution lifecycle = .ok prepared)

include h

/-- A prepared request comes from a materialised one by changes of status and
duration. -/
lemma exists_materialized : ∃ m : MaterializedPlan, materializeRecurrences env request = .ok m ∧
      prepared.identities = m.identities ∧ prepared.occurrences = m.occurrences ∧
      ∃ change : WorkItem → WorkItem, prepared.request.items = m.request.items.map change ∧
        ∀ item, ∃ status duration,
          change item = { item with status := status, duration := duration } := by
  simp only [prepare, Except.bind_eq_ok, Except.mapError_eq_ok] at h
  obtain ⟨-, -, -, -, m, hm, m', hm', result, hres, h⟩ := h
  obtain ⟨status, rfl⟩ := applyOccurrenceLifecycle_ok hm'
  cases applyExecutionContext_ok hres
  cases h
  refine ⟨m, hm, rfl, rfl, _, map_map, fun item => ?_⟩
  obtain ⟨status', duration, heq⟩ := applyEvidence_eq (unitsByIdentity execution) m.identities
    { item with status := status item }
  exact ⟨status', duration, heq⟩

/-- **Public names are unique.** -/
theorem publicIdentity_injective : Function.Injective (publicIdentity prepared.identities) := by
  obtain ⟨m, hm, hidents, -, -⟩ := exists_materialized h
  obtain ⟨trace⟩ := exists_materializeTrace hm
  rw [hidents]
  intro a b hab
  unfold publicIdentity at hab
  cases ha : m.identities[a]? with
  | none =>
    cases hb : m.identities[b]? with
    | none => simpa [ha, hb] using hab
    | some y => simp [ha, hb] at hab
  | some x =>
    cases hb : m.identities[b]? with
    | none => simp [ha, hb] at hab
    | some y =>
      obtain ⟨seriesItemId', occurrenceId'⟩ := y
      simp only [ha, hb, WorkIdentity.mk.injEq, Option.some.injEq] at hab
      obtain ⟨rfl, rfl⟩ := hab
      exact trace.eq_of_identity_eq ha hb

/-- **Origins**: every item that is planned stands for an item of the request. -/
theorem exists_origin (hnd : (prepared.request.items.map WorkItem.id).Nodup) :
    ∀ item ∈ prepared.request.items, ∃ original ∈ request.items,
      Origin env request prepared original item := by
  obtain ⟨m, hm, hidents, hoccs, change, hits, hchg⟩ := exists_materialized h
  obtain ⟨trace⟩ := exists_materializeTrace hm
  have hid : ∀ item, (change item).id = item.id := fun item => by
    obtain ⟨status, duration, heq⟩ := hchg item
    rw [heq]
  have hsame : ∀ item, change item =
      { item with status := (change item).status, duration := (change item).duration } :=
    fun item => by
      obtain ⟨status, duration, heq⟩ := hchg item
      rw [heq]
  -- no item outside of the recurring subtrees has the identifier of a copy
  have hdistinct :
      (((retainedItems request) ++ trace.copies.map Prod.fst).map WorkItem.id).Nodup := by
    have : prepared.request.items.map WorkItem.id = m.request.items.map WorkItem.id := by
      rw [hits, map_map]
      exact map_congr_left fun item _ => hid item
    rw [this, trace.request_eq] at hnd
    exact ((sortBy_perm _ _).map _).nodup_iff.mp hnd
  rw [map_append, map_map] at hdistinct
  intro item hitem
  rw [hits] at hitem
  obtain ⟨source, hsrc, rfl⟩ := mem_map.mp hitem
  rw [trace.request_eq] at hsrc
  rcases mem_append.mp ((mem_sortBy _).mp hsrc) with hret | hcopied
  · refine ⟨source, (mem_filter.mp hret).1, .retained ?_ (hsame source)⟩
    rw [hidents, hid, trace.identities_eq, identitiesOf, ExtTreeMap.getElem?_ofList_eq_none,
      map_map]
    exact fun hmem =>
      (disjoint_of_nodup_append hdistinct) (mem_map_of_mem hret) hmem
  · obtain ⟨copy, hcopy, rfl⟩ := mem_map.mp hcopied
    obtain ⟨original, hmem, o, ho, -, hname, hisCopy⟩ := trace.exists_original hcopy
    refine ⟨original, hmem, .copied o (hoccs ▸ ho) ?_ copy.1 hisCopy (hsame copy.1)⟩
    rw [hidents, hid, trace.identities_eq, identitiesOf, ← hname]
    refine ExtTreeMap.getElem?_ofList_of_nodup ?_ (mem_map.mpr ⟨copy, hcopy, rfl⟩)
    rw [map_map]
    exact (nodup_append.mp hdistinct).2.1

end

end DayWeave
