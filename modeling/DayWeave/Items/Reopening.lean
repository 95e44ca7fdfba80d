import DayWeave.Completion.Undo
import DayWeave.Items.Effects

/-!
Reopening a leaf restores what completing it replaced.

A forest is at rest if a plan has no effects. Complete an open item and carry out the plan; give
it its open state back and carry out the plan again. All is then as it was, but for revisions and
timestamps (`reopening_restores`), provided that no open item carries a completion time.
-/

open List Std

namespace DayWeave.Server

open Option (getD_some map_none map_some)
open Except (bind_eq_ok)
open ItemCompletionEffect (afterItem afterState)
open DateTime (atSecond)

section

variable {digest : CompletionDigest} {items : List Item} {states states' : List ItemCompletionState}
  {execution : ItemCompletionExecutionEvidence} {now : DateTime} {f : Decisions} {leaf : Item}
  {g : Item → Item} {plan : ItemCompletionPlan} {item : Item} {state : ItemCompletionState}
  {time : DateTime} {revision : UInt64}

/-! ### Carrying out a plan -/

def ItemCompletionPlan.applyItems (plan : ItemCompletionPlan) (items : List Item) : List Item :=
  items.map fun item =>
    ((plan.effects.find? fun effect => decide (effect.afterItem.id = item.id)).map
      ItemCompletionEffect.afterItem).getD item

def ItemCompletionPlan.applyStates (plan : ItemCompletionPlan) (states : List ItemCompletionState) :
    List ItemCompletionState :=
  (states.filter fun state =>
      decide (∀ effect ∈ plan.effects, effect.afterState.itemId ≠ state.itemId)) ++
    plan.effects.map ItemCompletionEffect.afterState

/-- The item that a client completes. -/
def Item.completeAt (item : Item) (revision : UInt64) (now : DateTime) : Item :=
  { item with
    status := .completed
    completedAt := some now
    blockedReasonKind := none
    blockedByItemId := none
    blockedReason := none
    revision := revision
    updatedAt := now }

/-- The item to which a client gives an open state back. -/
def Item.reopenAt (item original : Item) (revision : UInt64) (now : DateTime) : Item :=
  { (ItemCompletionReopenState.ofItem original).applyTo item with
    revision := revision
    updatedAt := now }

def changeItem (items : List Item) (id : Uuid) (g : Item → Item) : List Item :=
  items.map fun item => if item.id = id then g item else item

/-- Two items are equal but for the revision and the time of the change. -/
def Item.SameContent (item item' : Item) : Prop :=
  ∃ revision updatedAt, item' = { item with revision := revision, updatedAt := updatedAt }

/-- Two states are equal but for the revision and the time of the change. -/
def ItemCompletionState.SamePolicy (state state' : ItemCompletionState) : Prop :=
  ∃ revision updatedAt, state' = { state with revision := revision, updatedAt := updatedAt }

section

def effectOn (items : List Item) (states : List ItemCompletionState)
    (execution : ItemCompletionExecutionEvidence) (now : DateTime)
    (f : Decisions) (item : Item) : Option ItemCompletionEffect :=
  (effectOf items states execution now f item).toOption.join

lemma effectOn_eq {e : Option ItemCompletionEffect}
    (h : effectOf items states execution now f item = .ok e) :
    effectOn items states execution now f item = e := by
  rw [effectOn, h]
  rfl

lemma effectOn_ids {e : ItemCompletionEffect}
    (h : effectOn items states execution now f item = some e) :
    e.afterItem.id = item.id ∧ e.afterState.itemId = item.id := by
  unfold effectOn at h
  cases heff : effectOf items states execution now f item with
  | error error =>
    rw [heff] at h
    cases h
  | ok result =>
    rw [heff] at h
    obtain ⟨provenance, after, -, haft, ⟨rfl, -⟩ | ⟨_, _, -, -, -, rfl⟩⟩ := planItem_cases heff
    · cases h
    · cases h
      refine ⟨show after.id = item.id from ?_, stateIn_itemId item.id⟩
      unfold itemAfter at haft
      split_ifs at haft
      · cases haft
        rfl
      · split at haft
        · cases haft
        · split_ifs at haft
          cases haft
          rfl
      · cases haft
        rfl

variable (h : Plans items states execution now f plan.effects)

include h

lemma Plans.find?_effects (hitem : item ∈ items) :
    (plan.effects.find? fun effect => decide (effect.afterItem.id = item.id)) =
        effectOn items states execution now f item ∧
      (plan.effects.find? fun effect => decide (effect.afterState.itemId = item.id)) =
        effectOn items states execution now f item := by
  rw [h.effects_eq]
  have hsort := (Keyed.mem_sorted h.nodup).mpr hitem
  have hnd := Keyed.nodup_sorted h.nodup
  exact ⟨List.find?_filterMap_of_nodup hnd (fun _ _ _ he => (effectOn_ids he).1) hsort,
    List.find?_filterMap_of_nodup hnd (fun _ _ _ he => (effectOn_ids he).2) hsort⟩

lemma Plans.applyItems_eq : plan.applyItems items = items.map fun item =>
      ((effectOn items states execution now f item).map afterItem).getD item :=
  map_congr_left fun item hitem => by rw [(h.find?_effects hitem).1]

lemma Plans.stateIn_applyStates (hitem : item ∈ items) : stateIn (plan.applyStates states) item.id =
      ((effectOn items states execution now f item).map afterState).getD
        (stateIn states item.id) := by
  have hfind := (h.find?_effects hitem).2
  have haft : (plan.effects.map afterState).find? (fun state => decide (state.itemId = item.id)) =
        (effectOn items states execution now f item).map afterState := by
    rw [find?_map, ← hfind]
    rfl
  unfold stateIn ItemCompletionPlan.applyStates
  rw [find?_append, haft, find?_filter]
  cases heff : effectOn items states execution now f item with
  | none =>
    rw [heff, find?_eq_none] at hfind
    rw [map_none, Option.or_none, Option.getD_none]
    congr 2
    funext state
    refine decide_eq_decide.mpr ⟨fun hboth => of_decide_eq_true hboth.2, fun hid =>
      ⟨decide_eq_true fun effect heff heq => ?_, decide_eq_true hid⟩⟩
    exact hfind effect heff (decide_eq_true (heq.trans hid))
  | some e =>
    rw [heff] at hfind
    have hid : e.afterState.itemId = item.id := by simpa using find?_some hfind
    rw [find?_eq_none.mpr, Option.none_or, map_some, getD_some, getD_some]
    intro state _ hboth
    obtain ⟨hkept, hsta⟩ := of_decide_eq_true hboth
    exact of_decide_eq_true hkept e (mem_of_find?_eq_some hfind)
      (hid.trans (of_decide_eq_true hsta).symm)

end

/-! ### A forest at rest -/

section

lemma Plans.effectOf_eq_none (h : Plans items states execution now f []) (hitem : item ∈ items) :
    effectOf items states execution now f item = .ok none := by
  obtain ⟨e, he⟩ := h.planned item hitem
  have hnone := filterMap_eq_nil_iff.mp h.effects_eq.symm item
    ((Keyed.mem_sorted h.nodup).mpr hitem)
  rw [he] at hnone ⊢
  exact congrArg Except.ok hnone

lemma Plans.node_mem {effects : List ItemCompletionEffect}
    (h : Plans items states execution now f effects) (hitem : item ∈ items) :
    completionNode item (stateIn states item.id) ∈ nodesOf items states :=
  (mem_nodesOf h.nodup).mpr ⟨item, hitem, rfl⟩

lemma Plans.executable (h : Plans items states execution now f []) (hitem : item ∈ items) :
    item.isExecutable = item.executionIsAllowed (isParentIn items item.id) :=
  (of_planItem_eq_none (h.effectOf_eq_none hitem)).2.2

/-- The provenance that is decided is the recorded one, if its kind and its open state are. -/
lemma coreProvenance_of_provenanceAfter
    {d : HierarchyCompletionDecision} (h : provenanceAfter item state d = .ok state.provenance)
    (hpri : ∀ v recorded, d.provenance = some v → state.provenance = some recorded →
      v.priorOpenStatus = coreStatus recorded.reopen.status) :
    d.provenance = state.provenance.map coreProvenance := by
  unfold provenanceAfter at h
  cases hd : d.provenance with
  | none =>
    rw [hd] at h
    rw [← Except.ok.inj h, map_none]
  | some v =>
    cases hsta : state.provenance with
    | none =>
      rw [hd, hsta] at h
      obtain ⟨_, -, h⟩ := bind_eq_ok.mp h
      cases h
    | some recorded =>
      have hpri := hpri v recorded hd hsta
      rw [hd, hsta] at h
      obtain ⟨_, hreop, h⟩ := bind_eq_ok.mp h
      cases hreop
      obtain ⟨kind, reopen⟩ := recorded
      cases v with
      | automatic status =>
        cases h
        exact congrArg (fun status => some (HierarchyCompletionProvenance.automatic status)) hpri
      | manual status =>
        cases h
        exact congrArg (fun status => some (HierarchyCompletionProvenance.manual status)) hpri

lemma completionNode_id {id : Uuid} : (completionNode item state).id = ⟨id⟩ ↔ item.id = id :=
  ⟨fun h => congrArg ItemId.uuid h, fun h => congrArg ItemId.mk h⟩

lemma completionNode_prior {recorded : ItemCompletionProvenance}
    (h : state.provenance = some recorded) :
    (completionNode item state).prior = some (coreStatus recorded.reopen.status) := by
  rw [HierarchyCompletionItem.prior_of_some (p := coreProvenance recorded)]
  · obtain ⟨kind, reopen⟩ := recorded
    cases kind <;> rfl
  · exact congrArg (Option.map coreProvenance) h

/-- **A forest at rest** has nothing left to decide. -/
lemma Plans.isSettled (h : Plans items states execution now f []) :
    IsSettled (nodesOf items states) .oneOff f := by
  have hnode : ∀ node ∈ nodesOf items states, (f node.id).status = node.status ∧
      (f node.id).provenance = node.provenance := by
    intro node hnode
    obtain ⟨item, hitem, rfl⟩ := (mem_nodesOf h.nodup).mp hnode
    obtain ⟨hstat, hprov, -⟩ := of_planItem_eq_none (h.effectOf_eq_none hitem)
    refine ⟨hstat, ?_⟩
    rcases h.evaluates.cases hnode with ⟨-, -, hsame⟩ | ⟨-, -, hsetl⟩
    · exact hsame
    · refine coreProvenance_of_provenanceAfter hprov fun v recorded hv hrecorded => ?_
      exact hsetl.priorOpenStatus_eq hv (completionNode_prior hrecorded)
  exact ⟨h.evaluates, fun node hmem => (hnode node hmem).1, fun node hmem => (hnode node hmem).2⟩

/-- A change of the items that keeps their identifiers, as a change of the nodes. -/
lemma nodesOf_map {k : HierarchyCompletionItem → HierarchyCompletionItem}
    (hnd : (items.map Item.id).Nodup) (hid : ∀ item ∈ items, (g item).id = item.id)
    (hnode : ∀ item ∈ items, completionNode (g item) (stateIn states' item.id) =
      k (completionNode item (stateIn states item.id))) :
    nodesOf (items.map g) states' = (nodesOf items states).map k := by
  rw [nodesOf, sortedItems, Keyed.sorted_map hnd hid, nodesOf, map_map, map_map]
  refine map_congr_left fun item hitem => ?_
  have hmem := (Keyed.mem_sorted hnd).mp hitem
  rw [Function.comp_apply, Function.comp_apply, hid item hmem, hnode item hmem]

lemma isParentIn_map (hpar : ∀ item ∈ items, (g item).parentId = item.parentId)
    (id : Uuid) : isParentIn (items.map g) id = isParentIn items id := by
  unfold isParentIn
  rw [filterMap_map]
  exact congrArg (fun l => decide (id ∈ l)) (filterMap_congr hpar)

end

/-! ### Completing an item -/

/-- What completing `leaf` does to an item and its state: the item itself is completed by the
client, others are left alone, or completed with their open state on record. -/
inductive Completes (leaf : Item) (revision : UInt64) (now : DateTime)
    (f : Decisions) (item : Item) (state : ItemCompletionState) :
    Item → ItemCompletionState → Prop
  | leaf (hleaf : item = leaf) : Completes leaf revision now f item state
      (leaf.completeAt revision now) state
  | kept (hid : item.id ≠ leaf.id) (hstat : (f ⟨item.id⟩).status = coreStatus item.status)
      (hprov : (f ⟨item.id⟩).provenance = state.provenance.map coreProvenance) :
      Completes leaf revision now f item state item state
  | completed (hid : item.id ≠ leaf.id) (itemRevision stateRevision : UInt64) (time : DateTime)
      (hnode : (completionNode item state).CompletesTo (f ⟨item.id⟩).status
        (f ⟨item.id⟩).provenance) :
      Completes leaf revision now f item state (item.completeAt itemRevision time)
        { state with
          provenance := some ⟨.automatic, .ofItem item⟩
          revision := stateRevision
          updatedAt := some time }

section

variable {execution' : ItemCompletionExecutionEvidence} {now' : DateTime} {f' : Decisions}

lemma coreStatus_isOpen {status : ItemStatus} :
    (coreStatus status).isOpen = !status.isTerminal := by
  cases status <;> rfl

lemma isOpen_completionNode (h : item.status.isTerminal = false) :
    (completionNode item state).status.isOpen = true :=
  coreStatus_isOpen.trans (by rw [h]; rfl)

lemma effectOf_of_completesTo {e : Option ItemCompletionEffect} {d : HierarchyCompletionDecision}
    {isParent : Bool} (hnode : (completionNode item state).CompletesTo d.status d.provenance)
    (hexec : item.isExecutable = item.executionIsAllowed isParent)
    (h : planItem execution false isParent now item item state state d = .ok e) :
    ∃ itemRevision stateRevision effect, e = some effect ∧
      effect.afterItem = item.completeAt itemRevision now ∧
      effect.afterState = { state with
        provenance := some ⟨.automatic, .ofItem item⟩
        revision := stateRevision
        updatedAt := some now } := by
  have hopen : item.status ≠ .completed := by
    intro hcomp
    have hopen := hnode.isOpen
    rw [show (completionNode item state).status = .completed from congrArg coreStatus hcomp]
      at hopen
    cases hopen
  have hsta := Option.map_eq_none_iff.mp hnode.provenance_none
  obtain ⟨provenance, after, hprov, haft, hcase⟩ := planItem_cases h
  rw [itemAfter, if_pos ⟨hnode.status_eq, hopen⟩] at haft
  cases haft
  rw [provenanceAfter, hnode.provenance_eq, hsta] at hprov
  obtain ⟨reopen, hreop, hprov⟩ := bind_eq_ok.mp hprov
  obtain ⟨⟨⟩, -, hreop⟩ := bind_eq_ok.mp hreop
  cases hreop
  cases hprov
  rcases hcase with ⟨-, -, hsame, -⟩ | ⟨itemRevision, stateRevision, -, -, -, rfl⟩
  · exact absurd (congrArg Item.status hsame).symm hopen
  · refine ⟨itemRevision, stateRevision, _, rfl, ?_, rfl⟩
    rw [Item.completeAt, hexec]
    rfl

variable (h : Plans items states execution now f []) (hleaf : leaf ∈ items)
  (hopen : leaf.status.isTerminal = false)
  (h' : Plans (changeItem items leaf.id fun item => item.completeAt revision time) states
    execution' now' f' plan.effects)

include h

lemma nodesOf_complete :
    nodesOf (changeItem items leaf.id fun item => item.completeAt revision time) states =
      (nodesOf items states).map (completeNode ⟨leaf.id⟩) := by
  refine nodesOf_map h.nodup (fun item _ => ?_) fun item _ => ?_
  · split_ifs <;> rfl
  · by_cases hid : item.id = leaf.id
    · rw [if_pos hid, completeNode, if_pos (completionNode_id.mpr hid)]
      rfl
    · rw [if_neg hid, completeNode, if_neg (mt completionNode_id.mp hid)]

include hleaf hopen h'

/-- **Completing an item**: the items and the states afterwards. -/
lemma completes_of_plans : ∃ g, (∀ item ∈ items, Completes leaf revision time f' item
      (stateIn states item.id) (g item) (stateIn (plan.applyStates states) item.id)) ∧
    plan.applyItems (changeItem items leaf.id fun item => item.completeAt revision time) =
      items.map g := by
  have hset := h.isSettled
  have hevaluates := nodesOf_complete h ▸ h'.evaluates
  have hopenNode := @isOpen_completionNode leaf (stateIn states leaf.id) hopen
  have hpar : ∀ id, isParentIn (changeItem items leaf.id fun item =>
      item.completeAt revision time) id = isParentIn items id :=
    isParentIn_map fun item _ => by split_ifs <;> rfl
  rw [h'.applyItems_eq, changeItem, map_map]
  refine ⟨_, fun item hitem => ?_, rfl⟩
  have hmem : (if item.id = leaf.id then item.completeAt revision time else item) ∈
      changeItem items leaf.id fun item => item.completeAt revision time :=
    mem_map_of_mem hitem
  obtain ⟨e, he⟩ := h'.planned _ hmem
  have hsta := h'.stateIn_applyStates hmem
  rw [effectOn_eq he] at hsta
  rw [Function.comp_apply, ← changeItem, effectOn_eq he]
  rw [effectOf, hpar] at he
  by_cases hid : item.id = leaf.id
  · -- the item that the client completes has no effect
    obtain rfl := inj_on_of_nodup_map h.nodup hitem hleaf hid
    rw [if_pos rfl] at he hsta ⊢
    obtain ⟨hstat, hprov⟩ :=
      hset.leaf_completed hevaluates (h.node_mem hitem) hopenNode
    have hnone : (stateIn states item.id).provenance = none := by
      by_contra hsome
      have hcomp := h.completed item hitem (Option.isSome_iff_ne_none.mpr hsome)
      rw [hcomp] at hopen
      cases hopen
    have hunaff : Unaffected (isParentIn items item.id) (item.completeAt revision time)
        (stateIn states item.id) (f' ⟨item.id⟩) :=
      ⟨hstat, hprov.trans (by rw [hnone]; rfl),
        show item.isExecutable = item.executionIsAllowed _ from h.executable hitem⟩
    cases he.symm.trans hunaff.planItem_eq
    exact hsta ▸ .leaf rfl
  · rw [if_neg hid] at he hsta ⊢
    rcases hset.complete_leaf hevaluates (h.node_mem hleaf) hopenNode (h.node_mem hitem)
      (mt completionNode_id.mp hid) with ⟨hstat, hprov⟩ | ⟨-, -, hcmpl⟩
    · have hunaff : Unaffected (isParentIn items item.id) item (stateIn states item.id)
          (f' ⟨item.id⟩) := ⟨hstat, hprov, h.executable hitem⟩
      cases he.symm.trans hunaff.planItem_eq
      exact hsta ▸ .kept hid hstat hprov
    · obtain ⟨itemRevision, stateRevision, effect, rfl, hit', hstate'⟩ :=
        effectOf_of_completesTo hcmpl (h.executable hitem) he
      rw [hsta, map_some, getD_some, map_some, getD_some, hit', hstate']
      exact .completed hid itemRevision stateRevision _ hcmpl

end

/-! ### Reopening it -/

section

variable {time' : DateTime} {item' : Item} {state' : ItemCompletionState} {revision' : UInt64}
  {isParent : Bool} {d : HierarchyCompletionDecision}

/-- The item with the open state of the leaf, if it is the leaf. -/
def reopenLeaf (leaf : Item) (revision : UInt64) (time : DateTime) (item : Item) : Item :=
  if item.id = leaf.id then item.reopenAt leaf revision time else item

section

variable (h : Completes leaf revision time f item state item' state')

include h

lemma Completes.ids_eq : item'.id = item.id ∧ item'.parentId = item.parentId := by
  cases h with
  | leaf hleaf => exact hleaf ▸ ⟨rfl, rfl⟩
  | kept => exact ⟨rfl, rfl⟩
  | completed => exact ⟨rfl, rfl⟩

lemma Completes.node_eq : completionNode (reopenLeaf leaf revision' time' item') state' =
      decideOthers ⟨leaf.id⟩ f (completionNode item state) := by
  rw [reopenLeaf, h.ids_eq.1]
  cases h with
  | leaf hleaf =>
    obtain rfl := hleaf
    rw [if_pos rfl, decideOthers, if_pos (completionNode_id.mpr rfl)]
    rfl
  | kept hid hstat hprov =>
    rw [if_neg hid, decideOthers, if_neg (mt completionNode_id.mp hid)]
    conv_rhs => rw [show (completionNode item state).id = ⟨item.id⟩ from rfl, hstat, hprov]
    rfl
  | completed hid _ _ _ hnode =>
    rw [if_neg hid, decideOthers, if_neg (mt completionNode_id.mp hid)]
    conv_rhs => rw [show (completionNode item state).id = ⟨item.id⟩ from rfl, hnode.status_eq,
      hnode.provenance_eq]
    rfl

end

variable {e : Option ItemCompletionEffect}

/-- An item whose open state is on record returns to it. -/
lemma planItem_reopens {itemRevision stateRevision : UInt64} (hstate' : state' = { state with
      provenance := some ⟨.automatic, .ofItem item⟩
      revision := stateRevision
      updatedAt := some time })
    (hopen : item.status ≠ .completed) (hstat : d.status = coreStatus item.status)
    (hprov : d.provenance = none)
    (hexec : item.isExecutable = item.executionIsAllowed isParent)
    (hcompAt : item.completedAt = none) (hsta : state.provenance = none)
    (h : planItem execution false isParent now (item.completeAt itemRevision time)
      (item.completeAt itemRevision time) state' state' d = .ok e) :
    ∃ effect, e = some effect ∧ item.SameContent effect.afterItem ∧
      state.SamePolicy effect.afterState := by
  subst hstate'
  obtain ⟨provenance, after, hprov', haft, hcase⟩ := planItem_cases h
  rw [provenanceAfter, hprov] at hprov'
  cases hprov'
  have hne : d.status ≠ .completed := by rwa [hstat, ne_eq, coreStatus_eq_completed]
  rw [itemAfter, if_neg fun hcomp => hne hcomp.1,
    if_pos (show d.status ≠ coreStatus (item.completeAt itemRevision time).status from hne)] at haft
  change (if coreStatus item.status ≠ d.status then _ else Except.ok _) = _ at haft
  rw [if_neg (not_not.mpr hstat.symm)] at haft
  cases haft
  rcases hcase with ⟨-, -, hsame, -⟩ | ⟨itemRevision', stateRevision', -, -, -, rfl⟩
  · exact absurd (congrArg Item.status hsame) hopen
  · refine ⟨_, rfl, ?_, ?_⟩
    · refine ⟨itemRevision', now, ?_⟩
      conv_rhs => rw [hcompAt, hexec]
      rfl
    · refine ⟨stateRevision', some now, ?_⟩
      conv_rhs => rw [hsta]

/-- **One item**: after the plan for the open leaf it is as it was. -/
lemma Completes.restores (h : Completes leaf revision time f item state item' state')
    (hstat : d.status = coreStatus item.status)
    (hprov : d.provenance = state.provenance.map coreProvenance)
    (hexec : item.isExecutable = item.executionIsAllowed isParent)
    (hcompAt : item.status.isTerminal = false → item.completedAt = none)
    (hopen : leaf.status.isTerminal = false)
    (hplan : planItem execution false isParent now (reopenLeaf leaf revision' time' item')
      (reopenLeaf leaf revision' time' item') state' state' d = .ok e) :
    item.SameContent ((e.map afterItem).getD (reopenLeaf leaf revision' time' item')) ∧
      state.SamePolicy ((e.map afterState).getD state') := by
  rw [reopenLeaf, h.ids_eq.1] at hplan ⊢
  cases h with
  | leaf hleaf =>
    obtain rfl := hleaf
    rw [if_pos rfl] at hplan ⊢
    have hunaff : Unaffected isParent ((item.completeAt revision time).reopenAt item
        revision' time') state d := ⟨hstat, hprov, hexec⟩
    cases hplan.symm.trans hunaff.planItem_eq
    refine ⟨⟨revision', time', ?_⟩, _, _, rfl⟩
    conv_rhs => rw [hcompAt hopen]
    rfl
  | kept hid =>
    rw [if_neg hid] at hplan ⊢
    have hunaff : Unaffected isParent item state d := ⟨hstat, hprov, hexec⟩
    cases hplan.symm.trans hunaff.planItem_eq
    exact ⟨⟨_, _, rfl⟩, _, _, rfl⟩
  | completed hid itemRevision stateRevision time hnode =>
    -- what was completed by itself was open before, and opens again
    rw [if_neg hid] at hplan ⊢
    have hterm : item.status.isTerminal = false := by
      have hopen : (coreStatus item.status).isOpen = true := hnode.isOpen
      simpa [coreStatus_isOpen] using hopen
    have hne : item.status ≠ .completed := by
      intro heq
      rw [heq] at hterm
      cases hterm
    have hsta := Option.map_eq_none_iff.mp hnode.provenance_none
    rw [hsta] at hprov
    obtain ⟨effect, rfl, hsame⟩ := planItem_reopens rfl hne hstat hprov hexec
      (hcompAt hterm) hsta hplan
    exact hsame

end

/-! ### The law -/

/-- A change that a client makes to one item, and the plan that follows it. -/
structure ClientChange where
  revision : UInt64
  time : DateTime
  execution : ItemCompletionExecutionEvidence
  now : DateTime

/-- Completes an item and carries out the plan. -/
def completeItem (digest : CompletionDigest) (leaf : Item) (change : ClientChange)
    (forest : List Item × List ItemCompletionState) :
    Except ItemCompletionError (List Item × List ItemCompletionState) := do
  let items := changeItem forest.1 leaf.id fun item => item.completeAt change.revision change.time
  let plan ← planItemCompletion digest items forest.2 change.execution none change.now
  return (plan.applyItems items, plan.applyStates forest.2)

/-- Gives an item its open state back and carries out the plan. -/
def reopenItem (digest : CompletionDigest) (leaf : Item) (change : ClientChange)
    (forest : List Item × List ItemCompletionState) :
    Except ItemCompletionError (List Item × List ItemCompletionState) := do
  let items := changeItem forest.1 leaf.id fun item =>
    item.reopenAt leaf change.revision change.time
  let plan ← planItemCompletion digest items forest.2 change.execution none change.now
  return (plan.applyItems items, plan.applyStates forest.2)

section

/-- A forest with the same content as one at rest is at rest. -/
lemma Plans.exists_empty_plan_of_same (h : Plans items states execution now f [])
    (hcontent : ∀ item ∈ items, item.SameContent (g item))
    (hpol : ∀ item ∈ items, (stateIn states item.id).SamePolicy (stateIn states' item.id))
    {execution' : ItemCompletionExecutionEvidence} {now' : DateTime} {hash : String}
    (hhash : itemCompletionEvidenceHash digest (items.map g) states' execution' = .ok hash) :
    ∃ plan, planItemCompletion digest (items.map g) states' execution' none now' = .ok plan ∧
      plan.effects = [] := by
  have hid : ∀ item ∈ items, (g item).id = item.id := fun item hitem => by
    obtain ⟨_, _, heq⟩ := hcontent item hitem
    rw [heq]
  have hpar : ∀ item ∈ items, (g item).parentId = item.parentId := fun item hitem => by
    obtain ⟨_, _, heq⟩ := hcontent item hitem
    rw [heq]
  have hnodes : nodesOf (items.map g) states' = nodesOf items states := by
    rw [nodesOf_map h.nodup hid (fun item hitem => ?_), map_id]
    obtain ⟨_, _, hit'⟩ := hcontent item hitem
    obtain ⟨_, _, hstate'⟩ := hpol item hitem
    rw [hit', hstate']
    rfl
  refine exists_empty_plan hhash (fun item' hit' => ?_) (hnodes ▸ h.evaluates) fun item' hit' => ?_
  · obtain ⟨item, hitem, rfl⟩ := mem_map.mp hit'
    have hcomp := h.completed item hitem
    obtain ⟨_, _, hit'⟩ := hcontent item hitem
    obtain ⟨_, _, hstate'⟩ := hpol item hitem
    rwa [hid item hitem, hit', hstate']
  · obtain ⟨item, hitem, rfl⟩ := mem_map.mp hit'
    have hnode := h.node_mem hitem
    have hstat := h.isSettled.status _ hnode
    have hprov := h.isSettled.provenance _ hnode
    have hexec := h.executable hitem
    obtain ⟨_, _, hit'⟩ := hcontent item hitem
    obtain ⟨_, _, hstate'⟩ := hpol item hitem
    rw [effectOf, hid item hitem, isParentIn_map hpar, hit', hstate']
    exact Unaffected.planItem_eq ⟨hstat, hprov, hexec⟩

variable {first second : ClientChange} {forest₁ forest₂ : List Item × List ItemCompletionState}

/-- **Reopening restores**: let a forest be at rest, with no completion time on an open item.
After an open item was completed and reopened, with the plans carried out, every item and
every state is as before but for revisions and times, and the forest is at rest. -/
theorem reopening_restores {plan : ItemCompletionPlan}
    (hplan : planItemCompletion digest items states execution none now = .ok plan)
    (hrest : plan.effects = [])
    (hcompAt : ∀ item ∈ items, item.status.isTerminal = false → item.completedAt = none)
    (hleaf : leaf ∈ items) (hopen : leaf.status.isTerminal = false)
    (hcompl : completeItem digest leaf first (items, states) = .ok forest₁)
    (hreop : reopenItem digest leaf second forest₁ = .ok forest₂) :
    List.Forall₂ Item.SameContent items forest₂.1 ∧
      (∀ item ∈ items, (stateIn states item.id).SamePolicy (stateIn forest₂.2 item.id)) ∧
      ∀ execution' now' hash,
        itemCompletionEvidenceHash digest forest₂.1 forest₂.2 execution' = .ok hash →
        ∃ plan', planItemCompletion digest forest₂.1 forest₂.2 execution' none now' = .ok plan' ∧
          plan'.effects = [] := by
  obtain ⟨f, h⟩ := plans_of_ok hplan
  rw [hrest] at h
  obtain ⟨plan₁, hplan₁, hforest₁⟩ := bind_eq_ok.mp hcompl
  cases hforest₁
  obtain ⟨f₁, h₁⟩ := plans_of_ok hplan₁
  obtain ⟨g, hg, hits⟩ := completes_of_plans h hleaf hopen h₁
  obtain ⟨plan₂, hplan₂, hforest₂⟩ := bind_eq_ok.mp hreop
  cases hforest₂
  rw [hits] at hplan₂
  simp only [hits]
  let r item := reopenLeaf leaf second.revision second.time (g item)
  have hreopened : changeItem (items.map g) leaf.id (fun item =>
      item.reopenAt leaf second.revision second.time) = items.map r := map_map
  simp only [hreopened] at hplan₂ ⊢
  obtain ⟨f₂, h₂⟩ := plans_of_ok hplan₂
  have hid : ∀ item ∈ items, (r item).id = item.id := by
    intro item hitem
    rw [← (hg item hitem).ids_eq.1]
    simp only [r, reopenLeaf]
    split_ifs <;> rfl
  have hpar : ∀ item ∈ items, (r item).parentId = item.parentId := by
    intro item hitem
    rw [← (hg item hitem).ids_eq.2]
    simp only [r, reopenLeaf]
    split_ifs <;> rfl
  -- the decisions of the second plan are those of the forest at rest
  have hnodes := nodesOf_map h.nodup hid fun item hitem => (hg item hitem).node_eq
  obtain ⟨f₃, hf₃, hsame⟩ := h.isSettled.reopen_leaf (nodesOf_complete h ▸ h₁.evaluates)
    (h.node_mem hleaf) (isOpen_completionNode hopen)
  have hf₂ : ∀ item ∈ items, f₂ ⟨item.id⟩ = f₃ ⟨item.id⟩ := by
    intro item hitem
    have hmem := mem_map_of_mem (f := decideOthers ⟨leaf.id⟩ f₁) (h.node_mem hitem)
    have huniq := Evaluates.unique (hnodes ▸ h₂.evaluates) hf₃ hmem
    rwa [(keepsShape_decideOthers ⟨leaf.id⟩).id _ (h.node_mem hitem)] at huniq
  have hrestores : ∀ item ∈ items, item.SameContent (((effectOn (items.map r)
        (plan₁.applyStates states) second.execution second.now f₂ (r item)).map
          afterItem).getD (r item)) ∧
      (stateIn states item.id).SamePolicy
        (stateIn (plan₂.applyStates (plan₁.applyStates states)) item.id) := by
    intro item hitem
    have hmem := mem_map_of_mem (f := r) hitem
    obtain ⟨e, he⟩ := h₂.planned _ hmem
    have hsta := h₂.stateIn_applyStates hmem
    rw [effectOn_eq he] at hsta ⊢
    rw [effectOf, hid item hitem, isParentIn_map hpar, hf₂ item hitem] at he
    rw [hid item hitem] at hsta
    rw [hsta]
    obtain ⟨hstat, hprov⟩ := hsame _ (h.node_mem hitem)
    exact (hg item hitem).restores hstat hprov (h.executable hitem) (hcompAt item hitem) hopen he
  rw [h₂.applyItems_eq, map_map]
  refine ⟨?_, fun item hitem => (hrestores item hitem).2, fun execution' now' hash hhash => ?_⟩
  · rw [List.forall₂_map_right_iff, List.forall₂_same]
    exact fun item hitem => (hrestores item hitem).1
  · exact h.exists_empty_plan_of_same (fun item hitem => (hrestores item hitem).1)
      (fun item hitem => (hrestores item hitem).2) hhash

end

end

namespace Sample

/-- Every payload fits, and has the same digest. -/
def digest : CompletionDigest where
  measure _ _ := .ok ()
  hash _ _ _ := .ok "sha256:0"

/-- Nothing is being worked on. -/
def idle : ItemCompletionExecutionEvidence := ⟨0, ∅⟩

/-- A task and its open parent, which may carry a completion time. -/
def project (completedAt : Option DateTime) : List Item :=
  [{ task 1 none .planned with isExecutable := false, completedAt := completedAt },
    task 2 (some 1) .planned]

/-- A change and its plan at one time. -/
def changeAt (revision : UInt64) (time : DateTime) : ClientChange := ⟨revision, time, idle, time⟩

/-- The project after its task was completed and reopened. -/
def completeAndReopen (items : List Item) :
    Except ItemCompletionError (List Item × List ItemCompletionState) := do
  let forest ← completeItem digest (task 2 (some 1) .planned)
    (changeAt 2 (atSecond 60)) (items, [])
  reopenItem digest (task 2 (some 1) .planned) (changeAt 3 (atSecond 120)) forest

end Sample

open Server.Sample (completeAndReopen idle project)

/-- A task and its parent, completed and reopened. -/
theorem reopening_restores_project : ∃ forest, completeAndReopen (project none) =
    .ok forest ∧ List.Forall₂ Item.SameContent (project none) forest.1 := by
  obtain ⟨plan, hplan, hrest⟩ : ∃ plan, planItemCompletion Sample.digest (project none) [] idle none
      (atSecond 0) = .ok plan ∧ plan.effects.isEmpty := by decide +kernel
  obtain ⟨forest, hfor, -⟩ : ∃ forest, completeAndReopen (project none) = .ok forest ∧ True := by
    decide +kernel
  obtain ⟨completed, hcompl, hreop⟩ := bind_eq_ok.mp hfor
  exact ⟨forest, hfor, (reopening_restores hplan (List.isEmpty_iff.mp hrest) (by decide)
    (by decide) rfl hcompl hreop).1⟩

/-- An open parent with a completion time is at rest, but loses the time when its task is
completed and reopened. -/
theorem not_reopening_restores_completedAt :
    (∃ plan, planItemCompletion Sample.digest (project (some (atSecond 5))) []
      idle none (atSecond 0) = .ok plan ∧ plan.effects = []) ∧
    ∃ forest, completeAndReopen (project (some (atSecond 5))) = .ok forest ∧
      (project (some (atSecond 5))).map Item.completedAt =
        [some (atSecond 5), none] ∧
      forest.1.map Item.completedAt = [none, none] := by
  decide +kernel

end DayWeave.Server
