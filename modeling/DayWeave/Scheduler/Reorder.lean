import DayWeave.Recurrence.Roots
import DayWeave.Scheduler.Origin

/-!
The order of the items of a request does not matter.

The checks, the hierarchy, the recurring subtrees and the expanded occurrences do not depend on it.
The copies of recurring subtrees come in another order, but materialisation sorts all items by
identifier, so the materialised request is the same (`materializeRecurrences_perm`), and with it
the plan (`planWithLifecycle_perm`).
-/

open List Std

namespace DayWeave

open Sample
open Except (bind_eq_ok mapM_perm)

variable {env : Externals} {request : PlanRequest} {items' : List WorkItem}
  {execution : ExecutionPlanningContext} {lifecycle : OccurrenceLifecycleContext}
  {occurrences : List Occurrence} {materialized : MaterializedPlan}

lemma validateBlocks_withItems (item : WorkItem) (assignment : PreviousAssignment)
    (seen : Finset UInt16) (blocks : List PreviousBlock) :
    validateBlocks { request with items := items' } item assignment seen blocks =
      validateBlocks request item assignment seen blocks := by
  induction blocks generalizing seen with
  | nil => rfl
  | cons block rest ih => simp only [validateBlocks, ih]

lemma validateAssignments_withItems (byId : WorkMap) (children : ChildMap)
    (seen : Finset WorkIdentity) (assignments : List PreviousAssignment) :
    validateAssignments { request with items := items' } byId children seen assignments =
      validateAssignments request byId children seen assignments := by
  induction assignments generalizing seen with
  | nil => rfl
  | cons assignment rest ih => simp only [validateAssignments, validateBlocks_withItems, ih]

lemma ValidRequest.isWorkForest (h : ValidRequest request) : IsWorkForest request.items :=
  rollUp_eq_ok_iff.mp h.hierarchy

/-- The order of the items is no part of the checks. -/
lemma ValidRequest.perm (h : ValidRequest request) (hperm : request.items.Perm items') :
    ValidRequest { request with items := items' } where
  horizon := h.horizon
  granularity := h.granularity
  nodup := (hperm.map _).nodup_iff.mp h.nodup
  items item hitem := h.items item (hperm.mem_iff.mpr hitem)
  hierarchy := rollUp_eq_ok_iff.mpr (h.isWorkForest.perm hperm)
  availability := h.availability
  fixedBlocks := h.fixedBlocks
  assignments := by
    have hold := h.assignments
    unfold validatePreviousAssignments at hold ⊢
    rwa [validateAssignments_withItems, ← itemsById_perm hperm h.nodup, ← childMap_perm hperm]

lemma rootItems_perm (hperm : request.items.Perm items') (h : IsWorkForest request.items) :
    (rootItems request).Perm (rootItems { request with items := items' }) := by
  have hroots := recurrenceRoots_perm hperm h
  unfold rootItems
  rw [← itemsById_perm hperm h.nodup] at hroots ⊢
  exact hroots.filterMap _

lemma expandOccurrencesValidated_perm (hperm : request.items.Perm items')
    (hfor : IsWorkForest request.items)
    (h : expandOccurrencesValidated env request = .ok occurrences) :
    expandOccurrencesValidated env { request with items := items' } = .ok occurrences := by
  obtain ⟨days, series, hctx, hdays, hmvs, hser, hnd, hprog, rfl⟩ :=
    expandOccurrencesValidated_eq_ok.mp h
  obtain ⟨series', hser', hsame⟩ := mapM_perm (rootItems_perm hperm hfor) hser
  have hflat := hsame.flatten
  have hnd' := (hflat.map Occurrence.id).nodup_iff.mpr hnd
  refine expandOccurrencesValidated_eq_ok.mpr ⟨days, series', ?_, hdays, ?_, hser', hnd', ?_, ?_⟩
  · simp only [validateRecurrenceContext, bind_eq_ok] at hctx ⊢
    obtain ⟨⟨⟩, hcal, ⟨⟩, hpaus, ⟨⟩, hspac, ⟨⟩, hexcs, hits⟩ := hctx
    refine ⟨(), hcal, (), hpaus, (), hspac, (), hexcs, ?_⟩
    rw [Except.checkAll_eq_ok] at hits ⊢
    exact fun item hitem => hits item (hperm.mem_iff.mpr hitem)
  · intro exception hexc
    exact (hmvs exception hexc).imp_right (recurrenceRoots_perm hperm hfor).mem_iff.mp
  · intro entry hent
    have hbinds := hprog entry hent
    rwa [← itemsById_perm hperm hfor.nodup, partialProgressBinds_perm _ hflat hnd']
  · exact (sortOccurrences_perm hflat hnd').symm

section

variable (hperm : request.items.Perm items')

include hperm

section

variable (hfor : IsWorkForest request.items)

include hfor

lemma recurringSubtrees_perm :
    recurringSubtrees { request with items := items' } = recurringSubtrees request := by
  have hroots := recurrenceRoots_perm hperm hfor
  unfold recurringSubtrees
  rw [← childMap_perm hperm] at hroots ⊢
  rw [← hperm.length_eq]
  refine (ExtTreeMap.ofList_congr_perm (hroots.map _) ?_).symm
  rw [map_map, Function.comp_def, map_id']
  exact hfor.nodup.sublist (recurrenceRoots_sublist ..)

lemma retainedItems_perm :
    (retainedItems { request with items := items' }).Perm (retainedItems request) := by
  have hremoved : removedItems { request with items := items' } = removedItems request := by
    rw [removedItems, removedItems, recurringSubtrees_perm hperm hfor]
  unfold retainedItems
  rw [hremoved]
  exact hperm.symm.filter _

lemma cloneRoots_perm {copies : List (WorkItem × MaterializedIdentity)}
    (h : cloneRoots env request occurrences = .ok copies) :
    ∃ copies', cloneRoots env { request with items := items' } occurrences = .ok copies' ∧
      copies'.Perm copies := by
  obtain ⟨series, hser, heq⟩ := bind_eq_ok.mp h
  cases heq
  obtain ⟨series', hser', hsame⟩ := mapM_perm (rootItems_perm hperm hfor) hser
  refine ⟨series'.flatten, bind_eq_ok.mpr ⟨series', ?_, rfl⟩, hsame.flatten⟩
  have hclone : cloneRoot env { request with items := items' } = cloneRoot env request := by
    funext byId children occurrences root
    unfold cloneRoot
    rw [← hperm.length_eq]
    rfl
  rw [hclone]
  rwa [itemsById_perm hperm hfor.nodup, childMap_perm hperm] at hser'

/-- **The materialised request** does not depend on the order of the items, as long as
the identifiers of the copies are distinct. -/
theorem materializeRecurrences_perm (hnd : (materialized.request.items.map WorkItem.id).Nodup)
    (h : materializeRecurrences env request = .ok materialized) :
    materializeRecurrences env { request with items := items' } = .ok materialized := by
  simp only [materializeRecurrences, bind_eq_ok] at h
  obtain ⟨occurrences, hexp, ⟨⟩, hdeps, count, hcnt, copies, hcps, ⟨⟩, hmanual, h⟩ := h
  cases h
  obtain ⟨copies', hcopies', hsame⟩ := cloneRoots_perm hperm hfor hcps
  have hret := retainedItems_perm hperm hfor
  have hnd := ((sortBy_perm _ _).map _).nodup_iff.mp hnd
  have hits : sortBy (compareOn WorkItem.id)
      (retainedItems { request with items := items' } ++ copies'.map Prod.fst) =
      sortBy (compareOn WorkItem.id) (retainedItems request ++ copies.map Prod.fst) := by
    have hall := hret.append (hsame.map Prod.fst)
    refine sortBy_congr_perm _ hall fun a ha b hb hab => ?_
    exact inj_on_of_nodup_map hnd (hall.mem_iff.mp ha) (hall.mem_iff.mp hb)
      (LawfulEqOrd.eq_of_compare hab)
  have hidents : identitiesOf copies' = identitiesOf copies := by
    refine ExtTreeMap.ofList_congr_perm (hsame.map _) ?_
    rw [map_map]
    rw [map_append, map_map] at hnd
    exact ((hsame.map _).nodup_iff).mpr (nodup_append.mp hnd).2.1
  simp only [materializeRecurrences, bind_eq_ok]
  refine ⟨occurrences, expandOccurrencesValidated_perm hperm hfor hexp, (), ?_, count, ?_,
    copies', hcopies', (), ?_, ?_⟩
  · unfold validateRecurringSubtreeDependencies at hdeps ⊢
    rw [recurringSubtrees_perm hperm hfor]
    rw [Except.checkAll_eq_ok] at hdeps ⊢
    exact fun item hitem => hdeps item (hperm.mem_iff.mpr hitem)
  · rwa [hret.length_eq, recurringSubtrees_perm hperm hfor]
  · rw [hidents, removedItems, recurringSubtrees_perm hperm hfor]
    exact hmanual
  · rw [hits, hidents, removedItems, recurringSubtrees_perm hperm hfor]
    rfl

end

end

lemma map_id_prepared {projected : MaterializedPlan}
    {result : PlanRequest × MaterializedExecutionContext}
    (hlifecycle : applyOccurrenceLifecycle request execution lifecycle materialized = .ok projected)
    (hexn : applyExecutionContext projected.request projected.identities execution = .ok result) :
    result.1.items.map WorkItem.id = materialized.request.items.map WorkItem.id := by
  obtain ⟨status, rfl⟩ := applyOccurrenceLifecycle_ok hlifecycle
  rw [applyExecutionContext_ok hexn]
  rw [map_map, map_map]
  refine map_congr_left fun item _ => ?_
  obtain ⟨_, _, heq⟩ := applyEvidence_eq (unitsByIdentity execution) materialized.identities
    { item with status := status item }
  exact (congrArg WorkItem.id heq :)

/-- Preparation does not depend on the order of the items, if what is prepared is valid. -/
lemma prepare_perm {prepared : Prepared} (hperm : request.items.Perm items')
    (hval : ValidRequest prepared.request)
    (h : prepare env request execution lifecycle = .ok prepared) :
    prepare env { request with items := items' } execution lifecycle = .ok prepared := by
  have hsrc := prepare_valid h
  simp only [prepare, bind_eq_ok, Except.mapError_eq_ok] at h ⊢
  obtain ⟨⟨⟩, -, ⟨⟩, hctx, m, hm, m', hm', result, hres, h⟩ := h
  have hnd : (m.request.items.map WorkItem.id).Nodup := by
    rw [← map_id_prepared hm' hres]
    cases h
    exact hval.nodup
  refine ⟨(), validateRequest_eq_ok.mpr (hsrc.perm hperm), (), ?_, m,
    materializeRecurrences_perm hperm hsrc.isWorkForest hnd hm, m', ?_, result, hres, h⟩
  · unfold validateExecutionContext at hctx ⊢
    rwa [← itemsById_perm hperm hsrc.nodup, ← childMap_perm hperm]
  · unfold applyOccurrenceLifecycle at hm' ⊢
    rwa [← itemsById_perm hperm hsrc.nodup]

lemma planWithLifecycle_of_perm {plan : SchedulePlan} (hperm : request.items.Perm items')
    (h : planWithLifecycle env request execution lifecycle = .ok plan) :
    planWithLifecycle env { request with items := items' } execution lifecycle = .ok plan := by
  obtain ⟨prepared, hprepd, hplan⟩ := bind_eq_ok.mp h
  have hval : ValidRequest prepared.request := by
    obtain ⟨inner, hinner, -⟩ := bind_eq_ok.mp hplan
    obtain ⟨⟨⟩, hval, -⟩ := bind_eq_ok.mp hinner
    exact validateRequest_eq_ok.mp hval
  exact bind_eq_ok.mpr ⟨prepared, prepare_perm hperm hval hprepd, hplan⟩

/-- **The order of the items does not matter**: planning succeeds in one order if and only
if it succeeds in the other, and then with the same plan. -/
theorem planWithLifecycle_perm (env : Externals) (request : PlanRequest)
    (execution : ExecutionPlanningContext) (lifecycle : OccurrenceLifecycleContext)
    {items' : List WorkItem} (hperm : request.items.Perm items') (plan : SchedulePlan) :
    planWithLifecycle env request execution lifecycle = .ok plan ↔
      planWithLifecycle env { request with items := items' } execution lifecycle = .ok plan :=
  ⟨planWithLifecycle_of_perm hperm, planWithLifecycle_of_perm hperm.symm⟩

/-- Two tasks in both orders. -/
theorem planWithLifecycle_perm_twoTasks :
    ∃ plan, Sample.plan (Sample.request [task 1 30, task 2 45]) = .ok plan ∧
      plan.blocks.length = 2 ∧
      Sample.plan (Sample.request [task 2 45, task 1 30]) = .ok plan := by
  obtain ⟨plan, hplan, hlen⟩ : ∃ plan, Sample.plan (Sample.request [task 1 30, task 2 45]) =
      .ok plan ∧ plan.blocks.length = 2 := by decide +kernel
  have hswap : (Sample.request [task 1 30, task 2 45]).items.Perm
      [task 2 45, task 1 30] := List.Perm.swap _ _ []
  exact ⟨plan, hplan, hlen, (planWithLifecycle_perm externals _ {} {} hswap plan).mp hplan⟩

end DayWeave
