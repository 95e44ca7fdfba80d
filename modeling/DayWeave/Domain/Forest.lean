import DayWeave.Lib.Postorder
import DayWeave.Lib.Search
import DayWeave.Domain.Hierarchy

/-!
The work tree as a forest.

The roll-up of durations succeeds exactly on forests: no identifier is repeated, every parent is
there, and no item is its own ancestor (`rollUp_eq_ok_iff`). So neither its success nor the maps
of items and children depend on the order of the items.
-/

open List Std Relation

namespace DayWeave

open ExtTreeMap (getElem?_eq_none mem_iff_exists ofList size_map)

/-! ### Children -/

/-- The identifiers of the children of an item, in the order of the items. -/
def childrenOf (items : List WorkItem) (parent : ItemId) : List ItemId :=
  (items.filter fun item => item.parentId = some parent).map WorkItem.id

variable {items : List WorkItem} {parent child id : ItemId}

lemma mem_childrenOf : child ∈ childrenOf items parent ↔
      ∃ item ∈ items, item.id = child ∧ item.parentId = some parent := by
  simp only [childrenOf, mem_map, mem_filter, decide_eq_true_eq]
  exact ⟨fun ⟨item, ⟨hmem, hpar⟩, hid⟩ => ⟨item, hmem, hid, hpar⟩,
    fun ⟨item, hmem, hid, hpar⟩ => ⟨item, ⟨hmem, hpar⟩, hid⟩⟩

lemma childrenOf_cons (item : WorkItem) (rest : List WorkItem) (parent : ItemId) :
    childrenOf (item :: rest) parent =
      (if item.parentId = some parent then [item.id] else []) ++ childrenOf rest parent := by
  unfold childrenOf
  by_cases h : item.parentId = some parent <;> simp [h]

lemma getElem?_foldl_addChild (items : List WorkItem) (m : ChildMap)
    (parent : ItemId) : (items.foldl addChild m)[parent]? =
      if childrenOf items parent = [] then m[parent]?
      else some (m.getD parent [] ++ childrenOf items parent) := by
  induction items generalizing m with
  | nil => rfl
  | cons item rest ih =>
    rw [foldl_cons, ih, childrenOf_cons]
    cases hpar : item.parentId with
    | none => simp [addChild, hpar]
    | some p =>
      by_cases heq : p = parent
      · subst heq
        by_cases hrest : childrenOf rest p = []
        · simp [addChild, hpar, hrest]
        · simp [addChild, hpar, hrest]
      · have hne : ¬ compare p parent = .eq := fun h => heq (LawfulEqOrd.eq_of_compare h)
        simp [addChild, hpar, heq, ExtTreeMap.getElem?_insert, ExtTreeMap.getD_insert, hne]

lemma getElem?_childMap (items : List WorkItem) (parent : ItemId) : (childMap items)[parent]? =
      if childrenOf items parent = [] then none
      else some (sortBy compare (childrenOf items parent)) := by
  rw [childMap, ExtTreeMap.getElem?_map, getElem?_foldl_addChild]
  split
  · simp
  · simp

lemma getD_childMap (items : List WorkItem) (parent : ItemId) :
    ((childMap items)[parent]?).getD [] = sortBy compare (childrenOf items parent) := by
  rw [getElem?_childMap]
  split
  · rename_i h
    rw [h]
    rfl
  · rfl

lemma mem_getD_childMap :
    child ∈ ((childMap items)[parent]?).getD [] ↔ child ∈ childrenOf items parent := by
  rw [getD_childMap, mem_sortBy]

/-! ### Forests -/

abbrev ChildOf (items : List WorkItem) (child parent : ItemId) : Prop :=
  child ∈ childrenOf items parent

/-- Every parent is an item, and no item is its own ancestor. -/
structure IsWorkForest (items : List WorkItem) : Prop where
  nodup : (items.map WorkItem.id).Nodup
  parents : ∀ item ∈ items, ∀ p ∈ item.parentId, p ∈ items.map WorkItem.id
  acyclic : Acyclic (ChildOf items)

lemma mem_itemsById : id ∈ itemsById items ↔ id ∈ items.map WorkItem.id := by
  rw [ExtTreeMap.mem_iff_isSome_getElem?, Option.isSome_iff_ne_none, ne_eq,
    getElem?_itemsById_eq_none]
  simp

lemma mem_map_id_of_mem_childrenOf (h : child ∈ childrenOf items parent) :
    child ∈ items.map WorkItem.id := by
  obtain ⟨item, hitem, rfl, -⟩ := mem_childrenOf.mp h
  exact mem_map_of_mem hitem

lemma nodup_childrenOf (h : (items.map WorkItem.id).Nodup)
    (parent : ItemId) : (childrenOf items parent).Nodup :=
  h.sublist (filter_sublist.map _)

lemma childrenOf_disjoint (h : (items.map WorkItem.id).Nodup) {p q : ItemId}
    (hp : child ∈ childrenOf items p) (hq : child ∈ childrenOf items q) : p = q := by
  obtain ⟨a, ha, hid, hpar⟩ := mem_childrenOf.mp hp
  obtain ⟨b, hb, hid', hpar'⟩ := mem_childrenOf.mp hq
  have : a = b := inj_on_of_nodup_map h ha hb (hid.trans hid'.symm)
  rw [this, hpar'] at hpar
  exact (Option.some.inj hpar).symm

namespace RollUp

variable {items : List WorkItem} {counts : ExtTreeMap ItemId ℕ} {s s' : State}

def parentsOf (items : List WorkItem) : ExtTreeMap ItemId (Option ItemId) :=
  (itemsById items).map fun _ item => item.parentId

lemma join_getElem?_parentsOf (id : ItemId) :
    ((parentsOf items)[id]?).join = ((itemsById items)[id]?).bind WorkItem.parentId := by
  rw [parentsOf, ExtTreeMap.getElem?_map]
  cases (itemsById items)[id]? <;> rfl

lemma bind_parentId_eq_some (hnd : (items.map WorkItem.id).Nodup) {k : ItemId} :
    ((itemsById items)[id]?).bind WorkItem.parentId = some k ↔ id ∈ childrenOf items k := by
  rw [mem_childrenOf, Option.bind_eq_some_iff]
  constructor
  · rintro ⟨item, hitem, hpar⟩
    obtain ⟨hmem, hid⟩ := mem_of_getElem?_itemsById hitem
    exact ⟨item, hmem, hid, hpar⟩
  · rintro ⟨item, hmem, rfl, hpar⟩
    exact ⟨item, getElem?_itemsById hnd hmem, hpar⟩

lemma childOf_parentsOf (hnd : (items.map WorkItem.id).Nodup) :
    Postorder.ChildOf (parentsOf items) = ChildOf items := by
  ext child parent
  rw [Postorder.ChildOf, ← Option.join_eq_some_iff, join_getElem?_parentsOf,
    bind_parentId_eq_some hnd]

lemma mem_parentsOf (hnd : (items.map WorkItem.id).Nodup)
    (h : ∀ item ∈ items, ∀ p ∈ item.parentId, p ∈ items.map WorkItem.id)
    (hch : Postorder.ChildOf (parentsOf items) child parent) : parent ∈ parentsOf items := by
  rw [childOf_parentsOf hnd] at hch
  obtain ⟨item, hitem, -, hp⟩ := mem_childrenOf.mp hch
  rw [parentsOf, ExtTreeMap.mem_map, mem_itemsById]
  exact h item hitem parent hp

/-! ### The number of children -/

def countChild (byId : WorkMap) (counts : ExtTreeMap ItemId ℕ)
    (item : WorkItem) : Except HierarchyError (ExtTreeMap ItemId ℕ) :=
  match item.parentId with
  | none => .ok counts
  | some parent =>
    if byId.contains parent then .ok (counts.insert parent (counts.getD parent 0 + 1))
    else .error (.missingParent item.id parent)

/-- As long as every item has a count, the children are counted as those of any forest. -/
lemma foldlM_countChild {byId : WorkMap} {m : ExtTreeMap ItemId ℕ} (hm : ∀ k, k ∈ m ↔ k ∈ byId) :
    items.foldlM (countChild byId) m = (items.map fun item => (item.id, item.parentId)).foldlM
      (Postorder.countChild .missingParent) m := by
  induction items generalizing m with
  | nil => rfl
  | cons item rest ih =>
    rw [foldlM_cons, map_cons, foldlM_cons, countChild, Postorder.countChild]
    cases hpar : item.parentId with
    | none => exact ih hm
    | some p =>
      dsimp only
      cases hcnt : m[p]? with
      | none =>
        have hp : p ∉ byId := fun hp => by
          simpa [hcnt] using mem_iff_exists.mp ((hm p).mpr hp)
        rw [if_neg (mt ExtTreeMap.mem_iff_contains.mpr hp)]
        rfl
      | some count =>
        have hp : p ∈ m := mem_iff_exists.mpr ⟨_, hcnt⟩
        rw [if_pos (ExtTreeMap.mem_iff_contains.mp ((hm p).mp hp)),
          ExtTreeMap.getD_eq_getD_getElem?, hcnt]
        refine ih fun k => ?_
        rw [ExtTreeMap.mem_insert, LawfulEqOrd.compare_eq_iff_eq, ← hm]
        exact or_iff_right_of_imp fun heq => heq ▸ hp

/-- Before the first item is counted every item has a count. -/
lemma mem_zeros {k : ItemId} :
    k ∈ (ofList ((itemsById items).keys.map fun id => (id, 0)) : ExtTreeMap ItemId ℕ) ↔
      k ∈ itemsById items := by
  simp [Function.comp_def]

lemma countChildren_eq : countChildren (itemsById items) items =
    (items.map fun item => (item.id, item.parentId)).foldlM (Postorder.countChild .missingParent)
      (ofList ((itemsById items).keys.map fun id => (id, 0))) :=
  foldlM_countChild fun _ => mem_zeros

lemma exists_countChildren_iff : (∃ counts, countChildren (itemsById items) items = .ok counts) ↔
    ∀ item ∈ items, ∀ p ∈ item.parentId, p ∈ items.map WorkItem.id := by
  rw [countChildren_eq]
  constructor
  · rintro ⟨counts, h⟩ item hitem p hp
    exact mem_itemsById.mp (mem_zeros.mp
      ((Postorder.foldlM_countChild h).1 _ (mem_map_of_mem hitem) p hp))
  · intro h
    refine Postorder.exists_foldlM_countChild fun entry hent p hp => ?_
    obtain ⟨item, hitem, rfl⟩ := mem_map.mp hent
    exact mem_zeros.mpr (mem_itemsById.mpr (h item hitem p hp))

lemma getElem?_countChildren (hnd : (items.map WorkItem.id).Nodup)
    (h : countChildren (itemsById items) items = .ok counts) (k : ItemId) : counts[k]? =
      ((parentsOf items)[k]?).map fun _ => (Postorder.children (parentsOf items) k).length := by
  have hcnt : (items.map fun item => (item.id, item.parentId)).countP
      (fun entry => entry.2 = some k) = (Postorder.children (parentsOf items) k).length := by
    rw [countP_map, countP_eq_length_filter, ← length_map WorkItem.id]
    refine List.Perm.length_eq ((perm_ext_iff_of_nodup (nodup_childrenOf hnd k)
      (Postorder.nodup_children k)).mpr fun child => ?_)
    rw [Postorder.mem_children, childOf_parentsOf hnd]
  rw [countChildren_eq] at h
  rw [(Postorder.foldlM_countChild h).2, hcnt]
  by_cases hk : k ∈ itemsById items
  · have hzero : (ofList ((itemsById items).keys.map fun id => (id, 0)))[k]? = some 0 :=
      ExtTreeMap.getElem?_ofList_of_nodup
      (by rw [List.map_map]; simpa [Function.comp_def] using ExtTreeMap.nodup_keys)
      (mem_map.mpr ⟨k, ExtTreeMap.mem_keys.mpr hk, rfl⟩)
    obtain ⟨item, hitem⟩ := mem_iff_exists.mp hk
    rw [hzero, parentsOf, ExtTreeMap.getElem?_map, hitem]
    simp
  · rw [getElem?_eq_none (mt mem_zeros.mp hk), parentsOf, ExtTreeMap.getElem?_map,
      getElem?_eq_none hk]
    rfl

/-! ### The reduction -/

/-- What holds in every round: the counts are those of the items that are done, and the items
that wait for none are on the stack. -/
structure Good (items : List WorkItem) (done : List ItemId) (s : State) : Prop where
  counts : Postorder.Counts (parentsOf items) done s.remainingChildren
  ready_nodup : s.ready.Nodup
  ready : ∀ k, k ∈ s.ready ↔ s.remainingChildren[k]? = some 0

lemma start_good (hnd : (items.map WorkItem.id).Nodup)
    (h : countChildren (itemsById items) items = .ok counts) :
    Good items [] (start (itemsById items) counts) where
  counts := .start (getElem?_countChildren hnd h)
  ready_nodup := nodup_reverse.mpr (ExtTreeMap.nodup_keys.filter _)
  ready k := by
    have hcnt := getElem?_countChildren hnd h k
    rw [parentsOf, ExtTreeMap.getElem?_map] at hcnt
    simp only [start, mem_reverse, mem_filter, ExtTreeMap.mem_keys, beq_iff_eq,
      ExtTreeMap.getD_eq_getD_getElem?, hcnt, ExtTreeMap.mem_iff_isSome_getElem?]
    cases (itemsById items)[k]? <;> simp

/-- What one round does: the item on top of the stack is done, and its parent is put there if it
waits for no other child. -/
lemma step_eq {rest : List ItemId} (hrdy : s.ready = id :: rest)
    (h : step (itemsById items) s = some s') :
    s'.remainingChildren = Postorder.settle (parentsOf items) s.remainingChildren id ∧
      s'.ready = (((parentsOf items)[id]?).join.toList.filter fun p =>
        id ≠ p ∧ (s.remainingChildren[p]?).map (· - 1) = some 0) ++ rest := by
  unfold step at h
  rw [hrdy] at h
  dsimp only at h
  rw [← join_getElem?_parentsOf] at h
  unfold Postorder.settle
  cases hpar : ((parentsOf items)[id]?).join with
  | none =>
    rw [hpar] at h
    cases h
    exact ⟨rfl, rfl⟩
  | some p =>
    rw [hpar] at h
    dsimp only at h ⊢
    have herase : (s.remainingChildren.erase id)[p]? =
        if id = p then none else s.remainingChildren[p]? := by
      simp [ExtTreeMap.getElem?_erase]
    cases hcnt : (s.remainingChildren.erase id)[p]? with
    | none =>
      rw [hcnt] at h
      cases h
      rw [hcnt] at herase
      by_cases hid : id = p
      · simp [hid]
      · simp [← (if_neg hid ▸ herase : none = _)]
    | some count =>
      rw [hcnt] at h
      cases h
      rw [hcnt] at herase
      split_ifs at herase with hid
      refine ⟨rfl, ?_⟩
      by_cases hzero : count - 1 = 0 <;> simp [hid, ← herase, hzero]

/-- A round keeps the invariant, and one more item is done. -/
lemma step_good {done : List ItemId} (h : step (itemsById items) s = some s')
    (hs : Good items done s) : ∃ id, Good items (done ++ [id]) s' := by
  obtain ⟨id, rest, hrdy⟩ : ∃ id rest, s.ready = id :: rest := by
    cases hrdy : s.ready with
    | nil =>
      rw [step, hrdy] at h
      cases h
    | cons id rest => exact ⟨id, rest, rfl⟩
  obtain ⟨hrem, hready'⟩ := step_eq hrdy h
  have hzero := (hs.ready id).mp (hrdy ▸ mem_cons_self)
  have hnew := (hs.counts.of_ready hzero).2.1
  have hnd := hs.ready_nodup
  rw [hrdy, nodup_cons] at hnd
  have hrest : ∀ k, k ∈ rest ↔ id ≠ k ∧ s.remainingChildren[k]? = some 0 := fun k => by
    rw [← hs.ready, hrdy, mem_cons]
    exact ⟨fun hk => ⟨fun heq => hnd.1 (heq ▸ hk), .inr hk⟩, fun ⟨hne, hk⟩ =>
      hk.resolve_left (Ne.symm hne)⟩
  refine ⟨id, hrem ▸ hs.counts.settle hzero, ?_, fun k => ?_⟩
  · rw [hready', nodup_append]
    refine ⟨List.Nodup.filter _ (by cases ((parentsOf items)[id]?).join <;> simp), hnd.2, ?_⟩
    rintro a ha b hb rfl
    refine hs.counts.ne_zero hnew ?_ ((hrest a).mp hb).2
    simpa using (mem_filter.mp ha).1
  · rw [hready', hrem, hs.counts.settle_eq_zero_iff hnew, mem_append, hrest,
      mem_filter, Option.mem_toList]
    by_cases hpar : ((parentsOf items)[id]?).join = some k
    · have hne := hs.counts.ne_zero hnew hpar
      cases hcnt : s.remainingChildren[k]? with
      | none => simp
      | some count =>
        rw [hcnt, ne_eq, Option.some.injEq] at hne
        simp [hpar, hne]
        omega
    · simp [hpar]

lemma exists_final (hnd : (items.map WorkItem.id).Nodup)
    (h : countChildren (itemsById items) items = .ok counts) :
    let final := Loop.run (step (itemsById items)) items.length (start (itemsById items) counts)
    ∃ done, Postorder.Counts (parentsOf items) done final.remainingChildren ∧
      ∀ k : ItemId, final.remainingChildren[k]? ≠ some 0 := by
  intro final
  have hst : ∃ done, Good items done (start (itemsById items) counts) := ⟨[], start_good hnd h⟩
  have hstep : ∀ s s', step (itemsById items) s = some s' → (∃ done, Good items done s) →
      ∃ done, Good items done s' :=
    fun s s' hs ⟨_, hgood⟩ => ⟨_, (step_good hs hgood).choose_spec⟩
  obtain ⟨done, hgood⟩ := Loop.run_invariant _ hstep items.length hst
  have hstop : step (itemsById items) final = none := by
    -- a round takes one item out of the map
    refine Loop.run_stops _ hstep (μ := fun s => s.remainingChildren.size) ?_ hst ?_
    · rintro s s' ⟨done, hs⟩ hstep
      obtain ⟨id, hs'⟩ := step_good hstep hs
      have hsize := hs.counts.size_add_length
      have hsize' := hs'.counts.size_add_length
      rw [length_append, length_singleton] at hsize'
      omega
    · refine (Nat.le.intro (start_good hnd h).counts.size_add_length).trans ?_
      rw [parentsOf, size_map, ← length_map fun item => (item.id, item)]
      exact ExtTreeMap.size_ofList_le
  have hemp : final.ready = [] := by
    cases hrdy : final.ready with
    | nil => rfl
    | cons id rest =>
      rw [step, hrdy] at hstop
      dsimp only at hstop
      split at hstop
      · cases hstop
      · split at hstop <;> cases hstop
  refine ⟨done, hgood.counts, fun k hk => ?_⟩
  have hin := (hgood.ready k).mpr hk
  rw [hemp] at hin
  cases hin

end RollUp

/-- **The roll-up succeeds exactly on forests.** -/
theorem rollUp_eq_ok_iff :
    (∃ totals, rollUpExpectedDurations items = .ok totals) ↔ IsWorkForest items := by
  unfold rollUpExpectedDurations
  dsimp only
  constructor
  · rintro ⟨totals, h⟩
    split at h
    · cases h
    · rename_i hfr
      have hnd := nodup_of_firstDuplicate hfr
      split at h
      · cases h
      · rename_i counts hcts
        split at h
        · cases h
        · rename_i hkeys
          obtain ⟨done, hdone, -⟩ := RollUp.exists_final hnd hcts
          have hparents := RollUp.exists_countChildren_iff.mp ⟨counts, hcts⟩
          have hfor := (hdone.isPostorder (head?_eq_none_iff.mp hkeys)).isForest
            fun _ _ => RollUp.mem_parentsOf hnd hparents
          exact ⟨hnd, hparents, RollUp.childOf_parentsOf hnd ▸ hfor.acyclic⟩
  · intro hfor
    have hfr : firstDuplicate ∅ (items.map WorkItem.id) = none :=
      firstDuplicate_eq_none.mpr ⟨hfor.nodup, by simp⟩
    obtain ⟨counts, hcts⟩ := RollUp.exists_countChildren_iff.mpr hfor.parents
    obtain ⟨done, hdone, hrdy⟩ := RollUp.exists_final hfor.nodup hcts
    have hkeys := hdone.keys_eq_nil hrdy ⟨fun _ _ => RollUp.mem_parentsOf hfor.nodup hfor.parents,
      RollUp.childOf_parentsOf hfor.nodup ▸ hfor.acyclic⟩
    rw [hfr, hcts]
    dsimp only
    rw [hkeys]
    exact ⟨_, rfl⟩

/-! ### The order of the items -/

section

variable {items items' : List WorkItem}

variable (h : items.Perm items')

include h

lemma itemsById_perm (hnd : (items.map WorkItem.id).Nodup) :
    itemsById items = itemsById items' := by
  refine ExtTreeMap.ofList_congr_perm (h.map _) ?_
  rwa [List.map_map]

lemma childrenOf_perm (parent : ItemId) :
    (childrenOf items parent).Perm (childrenOf items' parent) := (h.filter _).map _

lemma childMap_perm : childMap items = childMap items' := by
  refine ExtTreeMap.ext_getElem? fun {parent} => ?_
  have hperm := childrenOf_perm h parent
  have hnil : childrenOf items parent = [] ↔ childrenOf items' parent = [] := by
    rw [← length_eq_zero_iff, hperm.length_eq, length_eq_zero_iff]
  rw [getElem?_childMap, getElem?_childMap]
  simp only [hnil]
  rw [sortBy_congr_perm compare hperm fun a _ b _ hab => LawfulEqOrd.eq_of_compare hab]

lemma IsWorkForest.perm (hfor : IsWorkForest items) : IsWorkForest items' where
  nodup := (h.map _).nodup_iff.mp hfor.nodup
  parents item hitem p hp := (h.map _).mem_iff.mp (hfor.parents item (h.mem_iff.mpr hitem) p hp)
  acyclic := hfor.acyclic.mono fun _ parent hab => (childrenOf_perm h parent).mem_iff.mpr hab

end

/-! ### Ancestors -/

namespace IsWorkForest

variable {items : List WorkItem}

/-- What holds of items without a parent, and passes from an item to its children, holds
of all items. -/
lemma induction (h : IsWorkForest items) {P : ItemId → Prop}
    (htop : ∀ item ∈ items, item.parentId = none → P item.id)
    (hch : ∀ child parent, ChildOf items child parent → P parent → P child) :
    ∀ id ∈ items.map WorkItem.id, P id := by
  by_contra hnot
  push Not at hnot
  obtain ⟨bad, hbad, hP⟩ := hnot
  obtain ⟨m, ⟨hm, hPm⟩, hmin⟩ := h.acyclic.swap.exists_minimal
    (S := {id | id ∈ items.map WorkItem.id ∧ ¬ P id})
    ((finite_toSet _).subset fun _ hk => hk.1) ⟨bad, hbad, hP⟩
  obtain ⟨item, hitem, rfl⟩ := mem_map.mp hm
  cases hpar : item.parentId with
  | none => exact hPm (htop item hitem hpar)
  | some p =>
    have hchildOf := mem_childrenOf.mpr ⟨item, hitem, rfl, hpar⟩
    refine hPm (hch _ p hchildOf ?_)
    by_contra hPp
    exact hmin p ⟨h.parents item hitem p hpar, hPp⟩ hchildOf

/-- The ancestors of a child are its parent and the ancestors of the parent. -/
lemma transGen_childOf_iff (h : IsWorkForest items) {a : ItemId}
    (hch : ChildOf items child parent) :
    TransGen (ChildOf items) child a ↔ ReflTransGen (ChildOf items) parent a := by
  rw [TransGen.head'_iff]
  constructor
  · rintro ⟨p, hp, hpa⟩
    rwa [childrenOf_disjoint h.nodup hch hp]
  · exact fun hpa => ⟨parent, hch, hpa⟩

end IsWorkForest

end DayWeave
