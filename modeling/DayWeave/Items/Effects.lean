import Mathlib.Data.List.ReduceOption
import DayWeave.Completion.Exact
import DayWeave.Items.Completion

/-!
What a plan without a command does.

`plan_cases` takes a successful plan apart once: every item has the effect that `planItem` gives
it. `of_planItem_eq_none` says when an item has none.
-/

open List Std

namespace DayWeave.Server

open Except (bind_eq_ok ite_error_eq_ok mapM_eq_ok mapError_eq_ok)

/-! ### The index -/

/-- The state of an item among those that are stored. -/
def stateIn (states : List ItemCompletionState) (id : Uuid) : ItemCompletionState :=
  (states.find? fun state => decide (state.itemId = id)).getD (ItemCompletionState.empty id)

section

variable {digest : CompletionDigest} {items : List Item} {states : List ItemCompletionState}
  {byId : ExtTreeMap Uuid Item}

lemma stateIn_itemId (id : Uuid) : (stateIn states id).itemId = id := by
  unfold stateIn
  cases h : states.find? fun state => decide (state.itemId = id) with
  | none => rfl
  | some state => simpa using find?_some h

/-- An item that a forest may have. -/
structure Item.IsIndexable (item : Item) : Prop where
  id_ne_nil : item.id.isNil = false
  revision_ne_zero : item.revision ≠ 0
  revision_le : item.revision.toNat ≤ maxRevision
  active : item.deletedAt = none

/-- The forest that is indexed. -/
structure IsIndexed (items : List Item) (states : List ItemCompletionState)
    (forest : IndexedCompletionForest) : Prop where
  indexable : ∀ item ∈ items, item.IsIndexable
  nodup : (items.map Item.id).Nodup
  items_eq : forest.1 = Keyed.byKey Item.id items
  state_valid : ∀ state ∈ states, state.validate = .ok ()
  state_nodup : (states.map ItemCompletionState.itemId).Nodup
  state_mem : ∀ state ∈ states, state.itemId ∈ items.map Item.id
  stateOf_eq : ∀ item ∈ items, stateOf forest.2 item.id = stateIn states item.id

lemma indexItem_eq_ok {next : ExtTreeMap Uuid Item} {item : Item} : indexItem byId item = .ok next ↔
      item.IsIndexable ∧ item.id ∉ byId ∧ next = byId.insert item.id item := by
  simp only [indexItem, ite_error_eq_ok, not_or, Bool.not_eq_true, Nat.not_lt,
    Option.isSome_eq_false_iff, Option.isNone_iff_eq_none, Except.ok.injEq]
  constructor
  · rintro ⟨⟨hnil, hzero, hmax, hact, hnew⟩, rfl⟩
    exact ⟨⟨hnil, hzero, hmax, hact⟩, hnew, rfl⟩
  · rintro ⟨h, hnew, rfl⟩
    exact ⟨⟨h.id_ne_nil, h.revision_ne_zero, h.revision_le, h.active, hnew⟩, rfl⟩

lemma foldlM_indexState_eq_ok {s s' : List Uuid × ExtTreeMap Uuid ItemCompletionState}
    (h : states.foldlM (indexState byId) s = .ok s') :
    (∀ state ∈ states, state.validate = .ok ()) ∧ (states.map (·.itemId)).Nodup ∧
      (∀ state ∈ states, state.itemId ∈ byId ∧ state.itemId ∉ s.1) ∧
      ∀ id, stateOf s'.2 id =
        (states.find? fun state => decide (state.itemId = id)).getD (stateOf s.2 id) := by
  induction states generalizing s with
  | nil =>
    cases h
    exact ⟨by simp, nodup_nil, by simp, fun id => rfl⟩
  | cons state rest ih =>
    obtain ⟨next, hnext, hrest⟩ := bind_eq_ok.mp h
    simp only [indexState, bind_eq_ok, ite_error_eq_ok, not_or, not_not] at hnext
    obtain ⟨⟨⟩, hval, hbad, heq⟩ := hnext
    cases heq
    obtain ⟨hvalids, hnd, hmem, hsta⟩ := ih hrest
    simp only [mem_cons, not_or] at hmem
    refine ⟨forall_mem_cons.mpr ⟨hval, hvalids⟩, ?_, forall_mem_cons.mpr ⟨hbad, fun other hoth =>
        ⟨(hmem other hoth).1, (hmem other hoth).2.2⟩⟩, fun id => ?_⟩
    · refine nodup_cons.mpr ⟨fun hin => ?_, hnd⟩
      obtain ⟨other, hoth, heq⟩ := mem_map.mp hin
      exact (hmem other hoth).2.1 heq
    · rw [hsta]
      by_cases hid : state.itemId = id
      · have hnone : rest.find? (fun state => decide (state.itemId = id)) = none := by
          rw [find?_eq_none]
          intro other hoth heq
          exact (hmem other hoth).2.1 ((of_decide_eq_true heq).trans hid.symm)
        rw [hnone, find?_cons_of_pos (by simpa using hid), stateOf,
          ExtTreeMap.getD_insert, if_pos (LawfulEqOrd.compare_eq_iff_eq.mpr hid)]
        rfl
      · rw [find?_cons_of_neg (by simpa using hid), stateOf, ExtTreeMap.getD_insert,
          if_neg (mt LawfulEqOrd.compare_eq_iff_eq.mp hid)]
        rfl

/-- **The index** of a forest. -/
lemma isIndexed_of_index {forest : IndexedCompletionForest}
    (h : index digest items states = .ok forest) : IsIndexed items states forest := by
  simp only [index, ite_error_eq_ok, bind_eq_ok] at h
  obtain ⟨-, ⟨⟩, -, byId, hbyId, indexed, hixd, h⟩ := h
  cases h
  obtain ⟨hval, hnd, rfl⟩ := (Keyed.foldlM_insert_eq_ok fun _ _ _ => indexItem_eq_ok).mp hbyId
  obtain ⟨hstates, hstateNodup, hmem, hsta⟩ := foldlM_indexState_eq_ok hixd
  refine ⟨hval, hnd, rfl, hstates, hstateNodup,
    fun state hsta => Keyed.mem_byKey.mp (hmem state hsta).1, fun item hitem => ?_⟩
  rw [hsta, stateIn]
  congr 1
  rw [stateOf, ExtTreeMap.getD_eq_getD_getElem?, ExtTreeMap.getElem?_map,
    (Keyed.getElem?_byKey hnd).mpr ⟨hitem, rfl⟩]
  rfl

/-! ### The effect of one item -/

variable {execution : ItemCompletionExecutionEvidence} {isParent : Bool} {now : DateTime}
  {item : Item} {state : ItemCompletionState} {d : HierarchyCompletionDecision}

lemma coreStatus_injective : Function.Injective coreStatus := by
  intro a b h
  cases a <;> cases b <;> first | rfl | cases h

lemma coreStatus_eq_completed {status : ItemStatus} :
    coreStatus status = .completed ↔ status = .completed :=
  ⟨(coreStatus_injective ·), fun h => h ▸ rfl⟩

/-- Nothing is left to do about an item: its status and provenance are as decided, and it is
executable as it should be. -/
structure Unaffected (isParent : Bool) (item : Item) (state : ItemCompletionState)
    (d : HierarchyCompletionDecision) : Prop where
  status : d.status = coreStatus item.status
  provenance : d.provenance = state.provenance.map coreProvenance
  executable : item.isExecutable = item.executionIsAllowed isParent

lemma provenanceAfter_of_eq (h : d.provenance = state.provenance.map coreProvenance) :
    provenanceAfter item state d = .ok state.provenance := by
  unfold provenanceAfter
  cases hsta : state.provenance with
  | none => rw [h, hsta, Option.map_none]
  | some recorded =>
    rw [h, hsta, Option.map_some]
    obtain ⟨kind, reopen⟩ := recorded
    cases kind <;> rfl

lemma itemAfter_of_eq (h : d.status = coreStatus item.status) :
    itemAfter item state d now = .ok item := by
  unfold itemAfter
  rw [if_neg fun ⟨hcomp, hne⟩ => hne (coreStatus_eq_completed.mp (h ▸ hcomp)),
    if_neg (not_not.mpr h)]

/-- An item about which nothing is left to do has no effect. -/
lemma Unaffected.planItem_eq (h : Unaffected isParent item state d) :
    planItem execution false isParent now item item state state d = .ok none := by
  unfold planItem
  rw [if_neg (by simp), provenanceAfter_of_eq h.provenance, itemAfter_of_eq h.status]
  simp only [bind, Except.bind]
  rw [if_neg]
  · rfl
  · rw [← h.executable]
    simp

/-- The item of an effect, before its revision is counted. -/
def settledItem (isParent : Bool) (after : Item) : Item :=
  { after with isExecutable := after.executionIsAllowed isParent }

/-- **One item**, taken apart: it is as decided, or it has an effect that makes it so. -/
lemma planItem_cases {isCommand : Bool} {before prepared : Item}
    {beforeState requested : ItemCompletionState} {result : Option ItemCompletionEffect}
    (h : planItem execution isCommand isParent now before prepared beforeState requested d =
      .ok result) : ∃ provenance after, provenanceAfter prepared requested d = .ok provenance ∧
      itemAfter prepared requested d now = .ok after ∧
      ((result = none ∧ isCommand = false ∧ settledItem isParent after = before ∧
          { requested with provenance := provenance } = beforeState) ∨
        ∃ itemRevision stateRevision, nextRevision before.revision = .ok itemRevision ∧
          nextRevision beforeState.revision = .ok stateRevision ∧
          ItemCompletionState.validate { requested with
            provenance := provenance, revision := stateRevision, updatedAt := some now } = .ok () ∧
          result = some ⟨before,
            { settledItem isParent after with revision := itemRevision, updatedAt := now },
            beforeState, { requested with
              provenance := provenance, revision := stateRevision, updatedAt := some now },
            actionName d.action isCommand⟩) := by
  simp only [planItem, ite_error_eq_ok, bind_eq_ok] at h
  obtain ⟨-, provenance, hprov, after, haft, h⟩ := h
  refine ⟨provenance, after, hprov, haft, ?_⟩
  split_ifs at h with hchg
  · simp only [bind_eq_ok] at h
    obtain ⟨itemRevision, hitem, stateRevision, hsta, ⟨⟩, hval, h⟩ := h
    exact .inr ⟨itemRevision, stateRevision, hitem, hsta, hval, (Except.ok.inj h).symm⟩
  · simp only [not_or, not_not, Bool.not_eq_true] at hchg
    exact .inl ⟨(Except.ok.inj h).symm, hchg.2.2, hchg.1, hchg.2.1⟩

lemma of_planItem_eq_none
    (h : planItem execution false isParent now item item state state d = .ok none) :
    d.status = coreStatus item.status ∧ provenanceAfter item state d = .ok state.provenance ∧
      item.isExecutable = item.executionIsAllowed isParent := by
  obtain ⟨provenance, after, hprov, haft, ⟨-, -, hitem, hsta⟩ | ⟨_, _, -, -, -, h⟩⟩ :=
    planItem_cases h
  · have hstat := congrArg Item.status hitem
    have hexec := congrArg Item.isExecutable hitem
    have hprov' := congrArg (·.provenance) hsta
    have hdecd : d.status = coreStatus item.status := by
      unfold itemAfter at haft
      split_ifs at haft with hcomp hsame
      · cases haft
        exact absurd hstat.symm hcomp.2
      · split at haft
        · cases haft
        · split_ifs at haft with hreop
          cases haft
          exact absurd ((not_not.mp hreop).symm.trans (congrArg coreStatus hstat)) hsame
      · exact not_not.mp hsame
    cases (itemAfter_of_eq hdecd).symm.trans haft
    exact ⟨hdecd, hprov' ▸ hprov, hexec.symm⟩
  · cases h

/-! ### The whole plan -/

variable {command : Option (Uuid × ItemCompletionCommand)} {plan : ItemCompletionPlan}
  {forest : IndexedCompletionForest} {f : Decisions}

def isParentIn (items : List Item) (id : Uuid) : Bool := decide (id ∈ items.filterMap Item.parentId)

/-- The items of a forest in the order in which they are planned. -/
abbrev sortedItems (items : List Item) : List Item := Keyed.sorted Item.id items

/-- **A plan**, taken apart. -/
lemma plan_cases (h : planItemCompletion digest items states execution command now = .ok plan) :
    ∃ hash forest prepared nodes evaluation effects, IsIndexed items states forest ∧
      prepareForest (items.filterMap Item.parentId) hash forest command = .ok prepared ∧
      (prepared.1.toList.map Prod.snd).mapM
        (fun item => checkedNode item (stateOf prepared.2 item.id)) = .ok nodes ∧
      evaluateHierarchyCompletion nodes .oneOff = .ok evaluation ∧
      (sortedItems items).mapM (fun item =>
        planItem execution (command.any fun c => decide (c.1 = item.id)) (isParentIn items item.id)
          now.truncateToPostgresTimestampPrecision item (prepared.1.getD item.id item)
          (stateOf forest.2 item.id) (stateOf prepared.2 item.id)
          (evaluation.decisions.getD ⟨item.id⟩ default)) = .ok effects ∧
      plan.effects = effects.reduceOption := by
  simp only [planItemCompletion, bind_eq_ok, mapError_eq_ok] at h
  obtain ⟨hash, -, forest, hfor, prepared, hprepd, nodes, hnodes, evaluation, heval,
    effects, heffs, h⟩ := h
  have hixd := isIndexed_of_index hfor
  refine ⟨hash, forest, prepared, nodes, evaluation, effects, hixd, hprepd, hnodes,
    heval, ?_, congrArg (·.effects) (Except.ok.inj h).symm⟩
  rw [hixd.items_eq] at heffs
  exact heffs

/-! ### Plans without a command -/

def nodesOf (items : List Item) (states : List ItemCompletionState) :
    List HierarchyCompletionItem :=
  (sortedItems items).map fun item => completionNode item (stateIn states item.id)

/-- The effect on an item, given what is decided. -/
def effectOf (items : List Item) (states : List ItemCompletionState)
    (execution : ItemCompletionExecutionEvidence) (now : DateTime)
    (f : Decisions) (item : Item) :
    Except ItemCompletionError (Option ItemCompletionEffect) :=
  planItem execution false (isParentIn items item.id) now.truncateToPostgresTimestampPrecision
    item item (stateIn states item.id) (stateIn states item.id) (f ⟨item.id⟩)

/-- What a plan without a command is made from. -/
structure Plans (items : List Item) (states : List ItemCompletionState)
    (execution : ItemCompletionExecutionEvidence) (now : DateTime)
    (f : Decisions) (effects : List ItemCompletionEffect) : Prop where
  nodup : (items.map Item.id).Nodup
  indexable : ∀ item ∈ items, item.IsIndexable
  completed : ∀ item ∈ items, (stateIn states item.id).provenance.isSome → item.status = .completed
  evaluates : Evaluates (nodesOf items states) .oneOff f
  planned : ∀ item ∈ items, ∃ e, effectOf items states execution now f item = .ok e
  effects_eq : effects = (sortedItems items).filterMap fun item =>
    (effectOf items states execution now f item).toOption.join

lemma reduceOption_of_mapM {α β ε : Type} {g : α → Except ε (Option β)} {l : List α}
    {r : List (Option β)} (h : l.mapM g = .ok r) :
    r.reduceOption = l.filterMap fun a => (g a).toOption.join := by
  rw [mapM_eq_ok] at h
  induction h with
  | nil => rfl
  | @cons a b l r hab _ ih =>
    cases b with
    | none =>
      rw [reduceOption_cons_of_none, ih, filterMap_cons_none]
      rw [hab]
      rfl
    | some b =>
      rw [reduceOption_cons_of_some, ih, filterMap_cons_some]
      rw [hab]
      rfl

lemma mapM_checkedNode {nodes : List HierarchyCompletionItem} {l : List Item}
    {states : ExtTreeMap Uuid ItemCompletionState} :
    l.mapM (fun item => checkedNode item (stateOf states item.id)) = .ok nodes ↔
      (∀ item ∈ l, (stateOf states item.id).provenance.isSome → item.status = .completed) ∧
        nodes = l.map fun item => completionNode item (stateOf states item.id) := by
  rw [mapM_eq_ok]
  simp only [checkedNode, ite_error_eq_ok, not_and, not_not, Except.ok.injEq]
  rw [List.forall₂_and_left, ← List.forall₂_map_left_iff, List.forall₂_eq_eq_eq, eq_comm]

lemma IsIndexed.nodes_eq (h : IsIndexed items states forest) :
    (forest.1.toList.map Prod.snd).map
      (fun item => completionNode item (stateOf forest.2 item.id)) = nodesOf items states := by
  rw [h.items_eq]
  exact map_congr_left fun item hitem => by
    rw [h.stateOf_eq item ((Keyed.mem_sorted h.nodup).mp hitem)]

lemma mem_nodesOf (hnd : (items.map Item.id).Nodup) {node : HierarchyCompletionItem} :
    node ∈ nodesOf items states ↔
      ∃ item ∈ items, completionNode item (stateIn states item.id) = node := by
  simp [nodesOf, Keyed.mem_sorted hnd]

/-- Without a command, an item is planned as it is stored. -/
lemma IsIndexed.planItem_eq {evaluation : HierarchyCompletionEvaluation}
    (h : IsIndexed items states forest) (hfds : evaluation.Finds (nodesOf items states) .oneOff f)
    {item : Item} (hitem : item ∈ sortedItems items) :
    planItem execution ((none : Option (Uuid × ItemCompletionCommand)).any fun c =>
          decide (c.1 = item.id))
        (isParentIn items item.id) now.truncateToPostgresTimestampPrecision item
        (forest.1.getD item.id item) (stateOf forest.2 item.id) (stateOf forest.2 item.id)
        (evaluation.decisions.getD ⟨item.id⟩ default) =
      effectOf items states execution now f item := by
  have hmem := (Keyed.mem_sorted h.nodup).mp hitem
  have hfnd : forest.1.getD item.id item = item := by
    rw [h.items_eq, ExtTreeMap.getD_eq_getD_getElem?,
      (Keyed.getElem?_byKey h.nodup).mpr ⟨hmem, rfl⟩, Option.getD_some]
  have hdcn : evaluation.decisions.getD ⟨item.id⟩ default = f ⟨item.id⟩ := by
    have hfinds' : evaluation.decisions[(⟨item.id⟩ : ItemId)]? = some (f ⟨item.id⟩) :=
      hfds.decisions_eq (completionNode item (stateIn states item.id))
        ((mem_nodesOf h.nodup).mpr ⟨item, hmem, rfl⟩)
    rw [ExtTreeMap.getD_eq_getD_getElem?, hfinds', Option.getD_some]
  rw [hfnd, hdcn, h.stateOf_eq item hmem]
  rfl

/-- **A plan without a command** comes from decisions about the nodes. -/
theorem plans_of_ok (h : planItemCompletion digest items states execution none now = .ok plan) :
    ∃ f, Plans items states execution now f plan.effects := by
  obtain ⟨hash, forest, prepared, nodes, evaluation, effects, hixd, hprepd, hnodes,
    heval, heffs, hplan⟩ := plan_cases h
  cases hprepd
  obtain ⟨hcomp, rfl⟩ := mapM_checkedNode.mp hnodes
  rw [hixd.nodes_eq] at heval
  obtain ⟨f, hf, hfds⟩ := evaluates_of_ok heval
  refine ⟨f, hixd.nodup, hixd.indexable, fun item hitem => ?_, hf, fun item hitem => ?_, ?_⟩
  · rw [← hixd.stateOf_eq item hitem]
    refine hcomp item ?_
    rw [hixd.items_eq]
    exact (Keyed.mem_sorted hixd.nodup).mpr hitem
  · have hsort := (Keyed.mem_sorted hixd.nodup).mpr hitem
    obtain ⟨e, he, -⟩ := Except.exists_mem_of_mapM heffs hsort
    exact ⟨e, (hixd.planItem_eq hfds hsort).symm.trans he⟩
  · rw [hplan, reduceOption_of_mapM heffs]
    exact filterMap_congr fun item hitem => by rw [hixd.planItem_eq hfds hitem]

/-- Decisions under which no item has an effect are planned, if the forest is indexed. -/
lemma exists_empty_plan {hash : String}
    (hhash : itemCompletionEvidenceHash digest items states execution = .ok hash)
    (hcomp : ∀ item ∈ items, (stateIn states item.id).provenance.isSome → item.status = .completed)
    (hf : Evaluates (nodesOf items states) .oneOff f)
    (hnone : ∀ item ∈ items, effectOf items states execution now f item = .ok none) :
    ∃ plan, planItemCompletion digest items states execution none now = .ok plan ∧
      plan.effects = [] := by
  obtain ⟨forest, hfor, -⟩ := bind_eq_ok.mp hhash
  have hixd := isIndexed_of_index hfor
  obtain ⟨evaluation, heval, hfds⟩ := hf.exists_ok
  have hsort : ∀ item ∈ sortedItems items, item ∈ items := fun item =>
    (Keyed.mem_sorted hixd.nodup).mp
  have hnodes : (forest.1.toList.map Prod.snd).mapM
      (fun item => checkedNode item (stateOf forest.2 item.id)) = .ok (nodesOf items states) := by
    refine mapM_checkedNode.mpr ⟨fun item hitem => ?_, hixd.nodes_eq.symm⟩
    rw [hixd.items_eq] at hitem
    have hmem := hsort item hitem
    rw [hixd.stateOf_eq item hmem]
    exact hcomp item hmem
  have heff item hitem :=
    (hixd.planItem_eq hfds hitem).trans (hnone item (hsort item hitem))
  obtain ⟨effects, heffs⟩ := Except.exists_mapM_eq_ok fun item hitem =>
    ⟨none, heff item hitem⟩
  obtain ⟨byId, indexed⟩ := forest
  obtain rfl := hixd.items_eq
  simp only [planItemCompletion, bind_eq_ok, mapError_eq_ok]
  refine ⟨_, ⟨hash, hhash, _, hfor, _, rfl, _, hnodes, evaluation, heval, effects, heffs, rfl⟩, ?_⟩
  rw [reduceOption_of_mapM heffs, filterMap_eq_nil_iff]
  intro item hitem
  rw [heff item hitem]
  rfl

end

end DayWeave.Server
