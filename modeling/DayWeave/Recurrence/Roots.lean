import DayWeave.Domain.Forest
import DayWeave.Recurrence.Materialize

/-!
The recurring subtrees of a forest.

A root is a recurring item without a recurring ancestor (`mem_recurrenceRoots`), and its
subtree consists of the root and its descendants (`mem_collectSubtree`). Both do not
depend on the order of the items.
-/

open List Std Relation

namespace DayWeave

/-- The item with this identifier has a recurrence rule. -/
def Recurs (items : List WorkItem) (id : ItemId) : Prop :=
  ((itemsById items)[id]?).bind recurrenceOf ≠ none

variable {items items' : List WorkItem} {id : ItemId}

namespace RootSearch

/-- The children of an item, each with whether an ancestor recurs. -/
def next (byId : WorkMap) (children : ChildMap) (entry : ItemId × Bool) : List (ItemId × Bool) :=
  (((children[entry.1]?).getD []).map fun child =>
    (child, entry.2 || ((byId[entry.1]?).bind recurrenceOf).isSome)).reverse

/-- The roots among the items visited. -/
def found (byId : WorkMap) (visited : List (ItemId × Bool)) : Finset ItemId :=
  ((visited.filter fun entry =>
    ((byId[entry.1]?).bind recurrenceOf).isSome && !entry.2).map Prod.fst).toFinset

/-- The search of the source is a search with a stack. -/
lemma run_eq (byId : WorkMap) (children : ChildMap) (rounds : ℕ) (start : List (ItemId × Bool)) :
    Loop.run (step byId children) rounds ⟨start, ∅⟩ =
      ⟨(Search.run (next byId children) rounds start).1,
        found byId (Search.run (next byId children) rounds start).2⟩ := by
  refine Loop.run_map (fun s : List (ItemId × Bool) × List (ItemId × Bool) =>
    (⟨s.1, found byId s.2⟩ : State)) (fun s => ?_) rounds (start, [])
  obtain ⟨pending, visited⟩ := s
  cases pending with
  | nil => rfl
  | cons entry rest =>
    obtain ⟨id, flag⟩ := entry
    simp only [step, Search.step, Option.map_some, Option.some.injEq, State.mk.injEq]
    refine ⟨rfl, ?_⟩
    ext k
    cases flag <;> cases hrule : ((byId[id]?).bind recurrenceOf).isSome <;>
      simp [found, hrule]

/-- The walk starts with the items without a parent. -/
def tops (items : List WorkItem) : List (ItemId × Bool) :=
  ((items.filter fun item => item.parentId = none).map fun item => (item.id, false)).reverse

variable {entry : ItemId × Bool}

lemma mem_tops :
    entry ∈ tops items ↔ ∃ item ∈ items, item.parentId = none ∧ entry = (item.id, false) := by
  simp only [tops, mem_reverse, mem_map, mem_filter, decide_eq_true_eq]
  exact ⟨fun ⟨item, ⟨h, hpar⟩, heq⟩ => ⟨item, h, hpar, heq.symm⟩,
    fun ⟨item, h, hpar, heq⟩ => ⟨item, ⟨h, hpar⟩, heq.symm⟩⟩

lemma mem_next {below : ItemId × Bool} :
    below ∈ next (itemsById items) (childMap items) entry ↔ ChildOf items below.1 entry.1 ∧
      below.2 = (entry.2 || (((itemsById items)[entry.1]?).bind recurrenceOf).isSome) := by
  simp only [next, mem_reverse, mem_map, mem_getD_childMap]
  constructor
  · rintro ⟨child, hch, rfl⟩
    exact ⟨hch, rfl⟩
  · rintro ⟨hch, hflag⟩
    exact ⟨below.1, hch, by rw [← hflag]⟩

lemma isForest (hnd : (items.map WorkItem.id).Nodup) :
    Search.IsForest (next (itemsById items) (childMap items)) Prod.fst
      (fun id => ((itemsById items)[id]?).bind WorkItem.parentId) (items.map WorkItem.id)
      (tops items) where
  start_nodup := by
    rw [tops, map_reverse, nodup_reverse, List.map_map]
    exact hnd.sublist (filter_sublist.map _)
  start_mem entry hent := by
    obtain ⟨item, hitem, -, rfl⟩ := mem_tops.mp hent
    exact mem_map_of_mem hitem
  start_fresh entry _ below hblw hmem := by
    obtain ⟨top, htop, heq⟩ := mem_map.mp hmem
    obtain ⟨item, hitem, hnone, rfl⟩ := mem_tops.mp htop
    obtain ⟨other, hoth, hid, hpar⟩ := mem_childrenOf.mp (mem_next.mp hblw).1
    have : item = other := inj_on_of_nodup_map hnd hitem hoth (heq.trans hid.symm)
    rw [this, hpar] at hnone
    cases hnone
  next_nodup entry := by
    rw [next, map_reverse, nodup_reverse, List.map_map]
    simp only [Function.comp_def, map_id']
    rw [getD_childMap]
    exact (sortBy_perm _ _).nodup_iff.mpr (nodup_childrenOf hnd _)
  next_mem _ below hblw := mem_map_id_of_mem_childrenOf (mem_next.mp hblw).1
  parent_eq _ below hblw := (RollUp.bind_parentId_eq_some hnd).mpr (mem_next.mp hblw).1

lemma recurs_iff :
    (((itemsById items)[id]?).bind recurrenceOf).isSome = true ↔ Recurs items id := by
  rw [Recurs, Option.isSome_iff_ne_none]

/-- The answer that an item is visited with is right. -/
lemma flag_of_reaches (h : IsWorkForest items)
    (hrchs : Search.Reaches (next (itemsById items) (childMap items)) (tops items) entry) :
    entry.2 = true ↔ ∃ a, TransGen (ChildOf items) entry.1 a ∧ Recurs items a := by
  obtain ⟨top, htop, hpath⟩ := hrchs
  induction hpath with
  | refl =>
    obtain ⟨item, hitem, hnone, rfl⟩ := mem_tops.mp htop
    refine iff_of_false (by simp) ?_
    rintro ⟨a, ha, -⟩
    obtain ⟨p, hp, -⟩ := TransGen.head'_iff.mp ha
    obtain ⟨other, hoth, hid, hpar⟩ := mem_childrenOf.mp hp
    have : item = other := inj_on_of_nodup_map h.nodup hitem hoth hid.symm
    rw [this, hpar] at hnone
    cases hnone
  | @tail entry below _ hblw ih =>
    obtain ⟨hch, hflag⟩ := mem_next.mp hblw
    rw [hflag, Bool.or_eq_true, ih, recurs_iff]
    simp only [h.transGen_childOf_iff hch, reflTransGen_iff_eq_or_transGen]
    constructor
    · rintro (⟨a, ha, hrecurs⟩ | hrecurs)
      · exact ⟨a, .inr ha, hrecurs⟩
      · exact ⟨_, .inl rfl, hrecurs⟩
    · rintro ⟨a, rfl | ha, hrecurs⟩
      · exact .inr hrecurs
      · exact .inl ⟨a, ha, hrecurs⟩

lemma exists_reaches (h : IsWorkForest items) : ∀ id ∈ items.map WorkItem.id,
    ∃ flag, Search.Reaches (next (itemsById items) (childMap items)) (tops items) (id, flag) := by
  refine h.induction (fun item hitem hnone => ?_) fun child parent hch hpar => ?_
  · exact ⟨false, Search.reaches_start (mem_tops.mpr ⟨item, hitem, hnone, rfl⟩)⟩
  · obtain ⟨flag, hrchs⟩ := hpar
    exact ⟨_, hrchs.tail (mem_next.mpr ⟨hch, rfl⟩)⟩

end RootSearch

/-- **Recurring roots** are the recurring items without a recurring ancestor. -/
theorem mem_recurrenceRoots (h : IsWorkForest items) :
    id ∈ recurrenceRoots items (itemsById items) (childMap items) ↔
      id ∈ items.map WorkItem.id ∧ Recurs items id ∧
        ∀ a, TransGen (ChildOf items) id a → ¬ Recurs items a := by
  have hwalk := (Search.run_spec (RootSearch.isForest h.nodup)
    (items.length_map (f := WorkItem.id)).le).2.2
  simp only [recurrenceRoots, RootSearch.run_eq, RootSearch.found, mem_toFinset, mem_map,
    mem_filter, decide_eq_true_eq, Bool.and_eq_true, RootSearch.recurs_iff, Bool.not_eq_true']
  constructor
  · rintro ⟨item, ⟨hitem, ⟨k, flag⟩, ⟨hrchs, hrecurs, hflag⟩, heq⟩, rfl⟩
    obtain rfl := heq
    have hrgt := RootSearch.flag_of_reaches h ((hwalk _).mp hrchs)
    rw [hflag] at hrgt
    exact ⟨⟨item, hitem, rfl⟩, hrecurs, fun a ha hrec =>
      absurd (hrgt.mpr ⟨a, ha, hrec⟩) Bool.false_ne_true⟩
  · rintro ⟨⟨item, hitem, rfl⟩, hrecurs, hnone⟩
    obtain ⟨flag, hrchs⟩ := RootSearch.exists_reaches h _ (mem_map_of_mem hitem)
    refine ⟨item, ⟨hitem, (item.id, flag), ⟨(hwalk _).mpr hrchs, hrecurs, ?_⟩, rfl⟩, rfl⟩
    have hrgt := RootSearch.flag_of_reaches h hrchs
    refine Bool.eq_false_iff.mpr fun htrue => ?_
    obtain ⟨a, ha, hrec⟩ := hrgt.mp htrue
    exact hnone a ha hrec

lemma recurrenceRoots_sublist (items : List WorkItem) (byId : WorkMap) (children : ChildMap) :
    (recurrenceRoots items byId children).Sublist (items.map WorkItem.id) :=
  filter_sublist.map _

lemma recurrenceRoots_perm (hperm : items.Perm items') (h : IsWorkForest items) :
    (recurrenceRoots items (itemsById items) (childMap items)).Perm
      (recurrenceRoots items' (itemsById items') (childMap items')) := by
  have h' := h.perm hperm
  refine (perm_ext_iff_of_nodup (h.nodup.sublist (recurrenceRoots_sublist ..))
    (h'.nodup.sublist (recurrenceRoots_sublist ..))).mpr fun id => ?_
  have hch : ChildOf items = ChildOf items' := by
    funext child parent
    exact propext (childrenOf_perm hperm parent).mem_iff
  rw [mem_recurrenceRoots h, mem_recurrenceRoots h', (hperm.map _).mem_iff, hch]
  unfold Recurs
  rw [itemsById_perm hperm h.nodup]

end DayWeave
