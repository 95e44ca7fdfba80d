import DayWeave.Scheduler.Origin
import DayWeave.Scheduler.Retained

/-!
How a plan comes about.

A successful call of the planner has a trace: the prepared request, the state with all retained
time, and the final state. The blocks of the plan are those of the final state in another order,
under public names, up to their explanations (`PlanTrace.core_perm`). What holds of the blocks of
every run is stated here once (`PlanTrace.pairwise_final`, `PlanTrace.exists_provenance`).
-/

open List Std

namespace DayWeave

open Planner (place planOf retained)
open Sample
open Except (bind_eq_ok)
open Planner.Placement (block)

namespace ScheduleBlock

def core (b : ScheduleBlock) : ScheduleBlock := { b with explanations := [] }

@[simp] lemma core_kind (b : ScheduleBlock) : b.core.kind = b.kind := rfl

@[simp] lemma core_interval (b : ScheduleBlock) : b.core.interval = b.interval := rfl

@[simp] lemma core_explainKept (b : ScheduleBlock) : (PlanningState.explainKept b).core = b.core :=
  rfl

lemma kind_eq_of_core_eq {a b : ScheduleBlock} (h : a.core = b.core) : a.kind = b.kind := by
  simpa using congrArg kind h

lemma interval_eq_of_core_eq {a b : ScheduleBlock} (h : a.core = b.core) :
    a.interval = b.interval := by
  simpa using congrArg interval h

end ScheduleBlock

open ScheduleBlock (core)

lemma remapBlock_name (identities : IdentityMap) {b : ScheduleBlock}
    {id : ItemId} (hitem : b.itemId = some id) (hocc : b.occurrenceId = none) :
    (remapBlock identities b).itemId = some (publicIdentity identities id).itemId ∧
      (remapBlock identities b).occurrenceId = (publicIdentity identities id).occurrenceId := by
  unfold remapBlock remapName publicIdentity
  rw [hitem, hocc, Option.bind_some]
  cases identities[id]? <;> exact ⟨rfl, rfl⟩

/-- The data behind a successful call of the planner. -/
structure PlanTrace (env : Externals) (request : PlanRequest) (execution : ExecutionPlanningContext)
    (lifecycle : OccurrenceLifecycleContext) (plan : SchedulePlan) where
  prepared : Prepared
  start : PlanningState
  assessments : List ManualPlacementAssessment
  prepare_eq : prepare env request execution lifecycle = .ok prepared
  valid : ValidRequest prepared.request
  demand : validateManualPlacementDemand prepared.request prepared.execution = .ok ()
  retained_eq : retained env prepared.request prepared.execution = .ok start
  placements : List Planner.Placement
  run : Planner.Run env prepared.request placements start (place env prepared.request start)
  assessments_eq : assessManualPlacements env prepared.request
    (planOf prepared.request (place env prepared.request start)) = .ok assessments
  plan_eq : plan = { remapOccurrenceOutputs prepared.identities
    { planOf prepared.request (place env prepared.request start) with
      violations := (planOf prepared.request (place env prepared.request start)).violations ++
        assessments.flatMap fun assessment =>
          assessment.violations.map ManualPlacementViolation.asPlanViolation
      manualPlacementAssessments := assessments } with
    occurrences := prepared.occurrences }

/-- The public names of the items of the planner. -/
abbrev PlanTrace.identity {env : Externals} {request : PlanRequest}
    {execution : ExecutionPlanningContext} {lifecycle : OccurrenceLifecycleContext}
    {plan : SchedulePlan} (trace : PlanTrace env request execution lifecycle plan) :
    ItemId → WorkIdentity := publicIdentity trace.prepared.identities

variable {env : Externals} {request : PlanRequest} {execution : ExecutionPlanningContext}
  {lifecycle : OccurrenceLifecycleContext} {plan : SchedulePlan}

/-- Every successful call has a trace. -/
theorem exists_planTrace (h : planWithLifecycle env request execution lifecycle = .ok plan) :
    Nonempty (PlanTrace env request execution lifecycle plan) := by
  obtain ⟨prepared, hprepare, hplan⟩ := bind_eq_ok.mp h
  obtain ⟨inner, hinner, hplan⟩ := bind_eq_ok.mp hplan
  obtain ⟨assessedPlan, hassessed, hplan⟩ := bind_eq_ok.mp hplan
  simp only [Planner.planMaterialized, bind_eq_ok] at hinner
  obtain ⟨⟨⟩, hval, ⟨⟩, hdemand, final, hrun, hinner⟩ := hinner
  obtain ⟨start, hst, hfnl⟩ := bind_eq_ok.mp hrun
  obtain ⟨assessments, hasmts, hassessed⟩ := bind_eq_ok.mp hassessed
  cases hfnl
  cases hinner
  cases hassessed
  cases hplan
  have hval := validateRequest_eq_ok.mp hval
  obtain ⟨placements, hrun⟩ := Planner.reaches_place hval start
  exact ⟨prepared, start, assessments, hprepare, hval, hdemand, hst, placements, hrun, hasmts, rfl⟩

namespace PlanTrace

variable (trace : PlanTrace env request execution lifecycle plan) {b : ScheduleBlock}
  {p : Planner.Placement}

/-- The state after the last placement. -/
def final : PlanningState := place env trace.prepared.request trace.start

/-- The final state with the dependency evidence of the plan. -/
def reconciled : PlanningState :=
  trace.final.reconcileDependencyEvidence trace.prepared.request
    (itemsById trace.prepared.request.items) (Planner.edgesOf trace.prepared.request)
    (manuallyAssessedBlocks trace.prepared.request.previousAssignments)

lemma blocks_eq : plan.blocks = (sortBy PlanningState.blockOrder trace.reconciled.blocks).map
    (remapBlock trace.prepared.identities) :=
  congrArg (·.blocks) trace.plan_eq

/-- Kept edges only add explanations. -/
lemma map_core_reconciled : trace.reconciled.blocks.map core = trace.final.blocks.map core := by
  unfold reconciled PlanningState.reconcileDependencyEvidence
  refine ext_getElem (by simp) fun i hi hj => ?_
  simp only [getElem_map, getElem_mapIdx]
  split <;> rfl

/-- The blocks of the plan are those of the final state, up to order, names and
explanations. -/
lemma core_perm : (plan.blocks.map core).Perm
    (trace.final.blocks.map fun b => (remapBlock trace.prepared.identities b).core) := by
  have hname : ∀ l : List ScheduleBlock,
      l.map (fun b => (remapBlock trace.prepared.identities b).core) =
        (l.map core).map (remapBlock trace.prepared.identities) := fun l => by
    rw [map_map]
    rfl
  rw [trace.blocks_eq, map_map, hname, ← trace.map_core_reconciled, ← hname]
  exact (sortBy_perm _ _).map _

/-- A block of the plan is a block of the final state under its public name. -/
lemma exists_final (hb : b ∈ plan.blocks) :
    ∃ a ∈ trace.final.blocks, (remapBlock trace.prepared.identities a).core = b.core :=
  mem_map.mp (trace.core_perm.mem_iff.mp (mem_map_of_mem hb))

/-- A block of the final state is in the plan, up to its name and its explanations. -/
lemma exists_plan_block (hb : b ∈ trace.final.blocks) :
    ∃ a ∈ plan.blocks, a.interval = b.interval := by
  obtain ⟨a, ha, hcore⟩ := mem_map.mp (trace.core_perm.mem_iff.mpr (mem_map_of_mem hb))
  exact ⟨a, ha, (ScheduleBlock.interval_eq_of_core_eq hcore).trans rfl⟩

/-- A symmetric relation between the blocks of the plan that does not read explanations
is one between the blocks of the final state. -/
lemma pairwise_plan {R S : ScheduleBlock → ScheduleBlock → Prop} (hsymm : ∀ a b, R a b → R b a)
    (hcore : ∀ a b, R a.core b.core ↔ R a b)
    (hname : ∀ a ∈ trace.final.blocks, ∀ b ∈ trace.final.blocks,
      (R (remapBlock trace.prepared.identities a) (remapBlock trace.prepared.identities b) ↔
        S a b)) : plan.blocks.Pairwise R ↔ trace.final.blocks.Pairwise S := by
  have hplan : plan.blocks.Pairwise R ↔ (plan.blocks.map core).Pairwise R := by
    rw [pairwise_map]
    exact ⟨fun h => h.imp fun {a b} => (hcore a b).mpr, fun h => h.imp fun {a b} => (hcore a b).mp⟩
  rw [hplan, trace.core_perm.pairwise_iff fun {a b} => hsymm a b, pairwise_map]
  exact List.Pairwise.iff_of_mem fun ha hb => (hcore _ _).trans (hname _ ha _ hb)

lemma onlyRetained : Planner.OnlyRetained trace.prepared.request trace.start :=
  Planner.onlyRetained_retained (reservations_nonempty trace.prepare_eq) trace.retained_eq

/-! ### The blocks of the final state -/

/-- **The blocks of a plan** are the retained ones and those of the placements. -/
theorem final_blocks : trace.final.blocks =
    trace.start.blocks ++ trace.placements.map (block env) :=
  trace.run.blocks_eq

lemma exists_placement (hb : b ∈ trace.final.blocks) (hk : b.kind = .planned) :
    ∃ p ∈ trace.placements, b = p.block env := by
  rw [trace.final_blocks, mem_append] at hb
  rcases hb with hb | hb
  · exact absurd hk (trace.onlyRetained.kind b hb)
  · obtain ⟨p, hp, rfl⟩ := mem_map.mp hb
    exact ⟨p, hp, rfl⟩

lemma succeeds (hp : p ∈ trace.placements) : p.Succeeds trace.prepared.request := by
  obtain ⟨pre, post, hspl⟩ := append_of_mem hp
  exact (trace.run.history hspl).1

lemma placed (hp : p ∈ trace.placements) :
    ∃ window, Planner.Placed trace.prepared.request p.state (p.block env) p.item window :=
  (trace.succeeds hp).placed trace.valid.granularity env

section

variable {pre post : List Planner.Placement} {p : Planner.Placement}

/-- A placement finds the retained blocks and those placed before. -/
lemma blocks_before (hspl : trace.placements = pre ++ p :: post) :
    p.state.blocks = trace.start.blocks ++ pre.map (block env) :=
  (trace.run.history hspl).2.blocks_eq

/-- The time that is taken before a placement is that of the blocks there are. -/
lemma takenTime_before (hspl : trace.placements = pre ++ p :: post) :
    (Planner.takenTime p.state).Perm (p.state.blocks.map ScheduleBlock.interval) := by
  have htaken := (trace.run.history hspl).2.takenTime_eq
  rw [htaken, trace.blocks_before hspl, map_append, map_map]
  exact trace.onlyRetained.taken.append_right _

end

lemma nonempty_final : ∀ b ∈ trace.final.blocks, b.start < b.finish := by
  intro b hb
  rw [trace.final_blocks, mem_append] at hb
  rcases hb with hb | hb
  · exact trace.onlyRetained.nonempty b hb
  · obtain ⟨p, hp, rfl⟩ := mem_map.mp hb
    obtain ⟨window, hpld⟩ := trace.placed hp
    exact hpld.nonempty

variable {p : Planner.Placement} {b : ScheduleBlock}

section

variable {pre post : List Planner.Placement} (hspl : trace.placements = pre ++ p :: post)
  (hb : b ∈ p.state.blocks)

include hspl hb

/-- The blocks that a placement finds stay. -/
lemma mem_final_of_before : b ∈ trace.final.blocks := by
  rw [trace.blocks_before hspl] at hb
  rw [trace.final_blocks, hspl, map_append, ← append_assoc]
  exact mem_append_left _ hb

/-- A placement keeps out of the blocks there are. -/
lemma not_overlaps_before : ¬ b.interval.Overlaps (p.block env).interval := by
  obtain ⟨window, hpld⟩ := trace.placed (hspl ▸ mem_append_right _ mem_cons_self)
  exact hpld.free b.interval ((trace.takenTime_before hspl).mem_iff.mpr (mem_map_of_mem hb))
    (trace.nonempty_final b (trace.mem_final_of_before hspl hb))

end

/-- What is not about two retained blocks holds pairwise if and only if every placement
has it to the blocks there are. -/
theorem pairwise_final_iff {S : ScheduleBlock → ScheduleBlock → Prop}
    (hret : ∀ a b, a.kind ≠ .planned → b.kind ≠ .planned → S a b) : trace.final.blocks.Pairwise S ↔
      ∀ p ∈ trace.placements, ∀ a ∈ p.state.blocks, S a (p.block env) := by
  rw [trace.final_blocks]
  constructor
  · intro h p hp a ha
    obtain ⟨pre, post, hspl⟩ := append_of_mem hp
    rw [trace.blocks_before hspl] at ha
    rw [hspl, map_append, map_cons, ← append_assoc] at h
    exact (pairwise_append.mp h).2.2 a ha _ mem_cons_self
  · intro h
    have hkind := trace.onlyRetained.kind
    have hbef : ∀ pre p post, trace.placements = pre ++ p :: post →
        ∀ a ∈ trace.start.blocks ++ pre.map (block env), S a (p.block env) :=
      fun pre p post hspl a ha => h p (by simp [hspl]) a (trace.blocks_before hspl ▸ ha)
    refine pairwise_append.mpr ⟨pairwise_of_forall_split fun pre b post hspl a ha => ?_, ?_,
      fun a ha b hb => ?_⟩
    · rw [hspl] at hkind
      exact hret a b (hkind a (mem_append_left _ ha)) (hkind b (by simp))
    · rw [pairwise_map]
      exact pairwise_of_forall_split fun pre p post hspl q hq =>
        hbef pre p post hspl _ (mem_append_right _ (mem_map_of_mem hq))
    · obtain ⟨p, hp, rfl⟩ := mem_map.mp hb
      obtain ⟨pre, post, hspl⟩ := append_of_mem hp
      exact hbef pre p post hspl a (mem_append_left _ ha)

/-- A planned block overlaps no other block of the final state. -/
theorem pairwise_final : trace.final.blocks.Pairwise fun a b =>
    (a.kind = .planned ∨ b.kind = .planned) → ¬ a.interval.Overlaps b.interval := by
  refine (trace.pairwise_final_iff fun a b ha hb hk => absurd hk (not_or.mpr ⟨ha, hb⟩)).mpr ?_
  intro p hp a ha _
  obtain ⟨pre, post, hspl⟩ := append_of_mem hp
  exact trace.not_overlaps_before hspl ha

/-! ### The planned blocks of the plan -/

/-- How a planned block of the plan came about: it was placed for an item that stands for
an item of the request, whose name the block has. -/
structure Provenance (b : ScheduleBlock) (p : Planner.Placement) (original : WorkItem)
    (window : AvailabilityWindow) : Prop where
  mem : p ∈ trace.placements
  interval : b.interval = p.candidate.interval
  original_mem : original ∈ request.items
  origin : Origin env request trace.prepared original p.item
  itemId : b.itemId = some original.id
  occurrenceId : b.occurrenceId = (trace.identity p.item.id).occurrenceId
  placed : Planner.Placed trace.prepared.request p.state (p.block env) p.item window

/-- Every placement has its origin and its block in the plan. -/
lemma provenance_of_core_eq (hp : p ∈ trace.placements)
    (hcore : (remapBlock trace.prepared.identities (p.block env)).core = b.core) :
    ∃ original window, trace.Provenance b p original window := by
  obtain ⟨window, hpld⟩ := trace.placed hp
  have hint :=
    (ScheduleBlock.interval_eq_of_core_eq hcore : (remapBlock _ (p.block env)).interval = _)
  obtain ⟨hid, hocc⟩ := remapBlock_name trace.prepared.identities hpld.itemId hpld.occurrenceId
  obtain ⟨original, hmem, horigin⟩ :=
    exists_origin trace.prepare_eq trace.valid.nodup p.item hpld.mem
  have hid' : b.itemId = _ := (congrArg (·.itemId) hcore).symm.trans hid
  exact ⟨original, window, hp, hint.symm, hmem, horigin, hid'.trans (congrArg some horigin.itemId),
    (congrArg (·.occurrenceId) hcore).symm.trans hocc, hpld⟩

/-- **Provenance**: every planned block of the plan comes from a placement. -/
theorem exists_provenance (hb : b ∈ plan.blocks) (hk : b.kind = .planned) :
    ∃ p original window, trace.Provenance b p original window := by
  obtain ⟨a, ha, hcore⟩ := trace.exists_final hb
  obtain ⟨p, hp, rfl⟩ :=
    trace.exists_placement ha ((ScheduleBlock.kind_eq_of_core_eq hcore).trans hk)
  exact ⟨p, trace.provenance_of_core_eq hp hcore⟩

/-- Every placement has its block in the plan. -/
theorem exists_block (hp : p ∈ trace.placements) :
    ∃ b ∈ plan.blocks, b.kind = .planned ∧ ∃ original window,
      trace.Provenance b p original window := by
  have hmem : p.block env ∈ trace.final.blocks := by
    rw [trace.final_blocks]
    exact mem_append_right _ (mem_map_of_mem hp)
  obtain ⟨b, hb, hcore⟩ := mem_map.mp (trace.core_perm.mem_iff.mpr (mem_map_of_mem hmem))
  exact ⟨b, hb, ScheduleBlock.kind_eq_of_core_eq hcore, trace.provenance_of_core_eq hp hcore.symm⟩

namespace Provenance

variable {trace} {b : ScheduleBlock} {p : Planner.Placement} {original : WorkItem}
  {window : AvailabilityWindow}

variable (h : trace.Provenance b p original window)

include h

lemma nonempty : b.start < b.finish := by
  change b.interval.start < b.interval.finish
  exact h.interval ▸ h.placed.nonempty

lemma available : window ∈ request.availability := by
  have := h.placed.available
  rwa [prepare_request trace.prepare_eq] at this

lemma inside : window.interval.Contains b.interval := h.interval ▸ h.placed.inside

lemma horizon : (planningHorizon request).Contains b.interval := by
  have := h.placed.horizon
  rwa [prepare_request trace.prepare_eq, Planner.Placement.block_interval, ← h.interval] at this

/-- The name of a planned block determines the item of the request. -/
lemma original_eq {other : WorkItem}
    (hoth : other ∈ request.items) (hid : b.itemId = some other.id) : original = other :=
  inj_on_of_nodup_map (prepare_valid trace.prepare_eq).nodup h.original_mem hoth
    (Option.some.inj (h.itemId.symm.trans hid))

end Provenance

end PlanTrace

/-- The trace of a plan, by evaluation. -/
lemma exists_trace_of_eval (P : Prepared → PlanningState → SchedulePlan → Prop)
    (h : ∃ prepared, prepare env request execution lifecycle = .ok prepared ∧
      ∃ start, retained env prepared.request prepared.execution = .ok start ∧
      ∃ plan, planWithLifecycle env request execution lifecycle = .ok plan ∧
        P prepared start plan) :
    ∃ plan, planWithLifecycle env request execution lifecycle = .ok plan ∧
      ∃ trace : PlanTrace env request execution lifecycle plan,
        P trace.prepared trace.start plan := by
  obtain ⟨prepared, hprepd, start, hst, plan, hplan, hP⟩ := h
  obtain ⟨trace⟩ := exists_planTrace hplan
  obtain rfl := Except.ok.inj (trace.prepare_eq.symm.trans hprepd)
  obtain rfl := Except.ok.inj (trace.retained_eq.symm.trans hst)
  exact ⟨plan, hplan, trace, hP⟩

lemma Sample.exists_trace (r : PlanRequest) (P : Prepared → PlanningState → SchedulePlan → Prop)
    (h : ∃ prepared, prepare externals r {} {} = .ok prepared ∧
      ∃ start, retained externals prepared.request prepared.execution = .ok start ∧
      ∃ plan, Sample.plan r = .ok plan ∧ P prepared start plan) :
    ∃ plan, Sample.plan r = .ok plan ∧ ∃ trace : PlanTrace externals r {} {} plan,
      P trace.prepared trace.start plan :=
  exists_trace_of_eval P h

end DayWeave
