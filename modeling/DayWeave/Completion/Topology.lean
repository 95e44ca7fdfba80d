import DayWeave.Completion.Decisions

/-!
Forests that differ in statuses and policies only.

Whether a forest is accepted, which nodes are unproven and which nodes have children depends
on the identifiers, the parents and the recurrence of the nodes alone (`SameTopology`).
-/

open Std Relation

namespace DayWeave

/-- Two lists of nodes have the same nodes with the same parents and recurrence. -/
def SameTopology (items items' : List HierarchyCompletionItem) : Prop :=
  ∀ id parentId recurs,
    (∃ item ∈ items, item.id = id ∧ item.parentId = parentId ∧ item.recurs = recurs) ↔
      ∃ item ∈ items', item.id = id ∧ item.parentId = parentId ∧ item.recurs = recurs

namespace SameTopology

variable {items items' : List HierarchyCompletionItem} {scope : HierarchyCompletionScope}

section

variable (h : SameTopology items items')

include h

lemma symm : SameTopology items' items := fun id parentId recurs => (h id parentId recurs).symm

lemma exists_right {item : HierarchyCompletionItem}
    (hitem : item ∈ items) : ∃ item' ∈ items', item'.id = item.id ∧
      item'.parentId = item.parentId ∧ item'.recurs = item.recurs :=
  (h item.id item.parentId item.recurs).mp ⟨item, hitem, rfl, rfl, rfl⟩

lemma parentEdge : ParentEdge items = ParentEdge items' := by
  have hmono : ∀ {items items'}, SameTopology items items' → ∀ child parent,
      ParentEdge items child parent → ParentEdge items' child parent := by
    rintro items items' h child parent ⟨item, hitem, hid, hpar⟩
    obtain ⟨item', hit', hid', hpar', -⟩ := h.exists_right hitem
    exact ⟨item', hit', hid'.trans hid, hpar'.trans hpar⟩
  funext child parent
  exact propext ⟨hmono h child parent, hmono h.symm child parent⟩

lemma unproven_iff {root : Option ItemId} {id : ItemId} :
    Unproven items root id ↔ Unproven items' root id := by
  have hmono : ∀ {items items'}, SameTopology items items' →
      Unproven items root id → Unproven items' root id := by
    rintro items items' h ⟨item, hitem, hpath, hrec, hroot⟩
    obtain ⟨item', hit', hid', -, hrecurs'⟩ := h.exists_right hitem
    rw [← hid', h.parentEdge] at hpath
    exact ⟨item', hit', hpath, hrecurs'.trans hrec, hid' ▸ hroot⟩
  exact ⟨hmono h, hmono h.symm⟩

lemma hasChildrenIn_eq (id : ItemId) : hasChildrenIn items id = hasChildrenIn items' id := by
  rw [Bool.eq_iff_iff, hasChildrenIn_iff, hasChildrenIn_iff, h.parentEdge]

lemma parentMap_eq (hnd : (items.map (·.id)).Nodup)
    (hnd' : (items'.map (·.id)).Nodup) :
    parentMap (completionItemsById items) = parentMap (completionItemsById items') := by
  refine ExtTreeMap.ext_getElem? fun {id} => Option.ext fun parent => ?_
  simp only [parentMap, ExtTreeMap.getElem?_map, Option.map_eq_some_iff,
    getElem?_completionItemsById hnd, getElem?_completionItemsById hnd']
  constructor
  · rintro ⟨item, ⟨hitem, rfl⟩, rfl⟩
    obtain ⟨item', hit', hid, hpar, -⟩ := h.exists_right hitem
    exact ⟨item', ⟨hit', hid⟩, hpar⟩
  · rintro ⟨item, ⟨hitem, rfl⟩, rfl⟩
    obtain ⟨item', hit', hid, hpar, -⟩ := h.symm.exists_right hitem
    exact ⟨item', ⟨hit', hid⟩, hpar⟩

end

/-- The scope of an occurrence names the only root, and it recurs. -/
lemma validateScope_iff (hnd : (items.map (·.id)).Nodup) {rootId : ItemId}
    {occurrenceId : OccurrenceId} :
    validateScope (completionItemsById items) (.occurrence rootId occurrenceId) =
        .ok (some rootId) ↔
      (rootId.uuid.isNil = false ∧ occurrenceId.uuid.isNil = false) ∧
      (∃ item ∈ items, item.id = rootId ∧ item.parentId = none ∧ item.recurs = true) ∧
      ∀ item ∈ items, item.parentId = none → item.id = rootId := by
  have hroot : ((completionItemsById items)[rootId]?.any fun root =>
      root.recurs && root.parentId.isNone) = true ↔
      ∃ item ∈ items, item.id = rootId ∧ item.parentId = none ∧ item.recurs = true := by
    simp only [Option.any_eq_true, getElem?_completionItemsById hnd, Bool.and_eq_true,
      Option.isNone_iff_eq_none]
    constructor
    · rintro ⟨item, ⟨hitem, hid⟩, hrec, hpar⟩
      exact ⟨item, hitem, hid, hpar, hrec⟩
    · rintro ⟨item, hitem, hid, hpar, hrec⟩
      exact ⟨item, ⟨hitem, hid⟩, hrec, hpar⟩
  have hoth : ¬ (((completionItemsById items).toList.map Prod.snd).any fun item =>
      item.parentId.isNone && decide (item.id ≠ rootId)) = true ↔
      ∀ item ∈ items, item.parentId = none → item.id = rootId := by
    simp only [List.any_eq_true, List.mem_map, Prod.exists, exists_eq_right,
      ExtTreeMap.mem_toList_iff_getElem?_eq_some, getElem?_completionItemsById hnd,
      Bool.and_eq_true, Option.isNone_iff_eq_none, decide_eq_true_eq, not_exists, not_and, not_not]
    refine ⟨fun h item hitem hpar => h item ⟨item.id, hitem, rfl⟩ hpar, ?_⟩
    rintro h item ⟨_, hitem, _⟩ hpar
    exact h item hitem hpar
  simp only [validateScope, hroot, hoth]
  split_ifs with hnil hscope
  · refine iff_of_false (by simp) ?_
    rintro ⟨⟨hroot, hocc⟩, -⟩
    simp [hroot, hocc] at hnil
  · rw [not_or, Bool.not_eq_true, Bool.not_eq_true] at hnil
    exact iff_of_true rfl ⟨hnil, hscope⟩
  · exact iff_of_false (by simp) fun h => hscope h.2

lemma isCompletionForest (h : SameTopology items items') (hfor : IsCompletionForest items scope)
    (hnd' : (items'.map (·.id)).Nodup)
    (hvalid' : ∀ item ∈ items', item.IsValid) : IsCompletionForest items' scope where
  valid := hvalid'
  nodup := hnd'
  forest := h.parentMap_eq hfor.nodup hnd' ▸ hfor.forest
  scope_ok := by
    cases scope with
    | oneOff => rfl
    | occurrence rootId occurrenceId =>
      obtain ⟨hnil, ⟨root, hroot, hid, hpar, hrec⟩, honly⟩ :=
        (validateScope_iff hfor.nodup).mp hfor.scope_ok
      refine (validateScope_iff hnd').mpr ⟨hnil, ?_, fun item' hit' hnone => ?_⟩
      · obtain ⟨root', hroot', hid', hpar', hrecurs'⟩ := h.exists_right hroot
        exact ⟨root', hroot', hid'.trans hid, hpar'.trans hpar, hrecurs'.trans hrec⟩
      · obtain ⟨item, hitem, hid, hpar, -⟩ := h.symm.exists_right hit'
        exact hid ▸ honly item hitem (hpar.trans hnone)

end SameTopology

end DayWeave
