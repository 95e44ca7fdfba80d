import DayWeave.Items.Delta
import DayWeave.Lib.Kahn

/-!
The graph of the items.

A write is accepted only if `validateDependencyGraph` accepts what is stored after it: parents and
dependencies are stored, no item is above itself, dependencies stay inside recurring subtrees, and
together with the sequences of ordered routines they have no cycle
(`validateDependencyGraph_eq_ok`). Deleting an item keeps this (`validateDependencyGraph_of_thins`).

The source goes through the items in the order of a hash map. The model takes the order of the
identifiers: the order decides only which of several errors is reported.
-/

open List Std Relation

namespace DayWeave.Server

open ExtTreeMap (keys_map length_keys mem_iff_exists toList_map)

/-- The stored items. -/
abbrev ItemsById := ExtTreeMap Uuid Item

variable (items : ItemsById) (owners : OwnersById) (successorId : Uuid) (item : Item)

def itemList : List Item := items.toList.map Prod.snd

/-- Whether an item has children that are not deleted. -/
def hasActiveChildren (itemId : Uuid) (items : ItemsById) : Bool :=
  (itemList items).any fun item => decide (item.parentId = some itemId) && item.isActive

/-! ### Recurring subtrees -/

/-- The topmost recurring item above each item that is known so far. -/
abbrev OwnersById := ExtTreeMap Uuid (Option Uuid)

/-- Goes from an item to its ancestors, up to one whose owner is known. The path has the last
item first. -/
def walkUp (items : ItemsById) (resolved : OwnersById) :
    ℕ → List Uuid → Option Uuid → Except ItemRepositoryError (List Uuid × Option Uuid)
  | _, path, none => .ok (path, none)
  | 0, _, some _ => .error .internal
  | n + 1, path, some itemId =>
    match resolved[itemId]? with
    | some cached => .ok (path, cached)
    | none =>
      if itemId ∈ path then .error .hierarchyCycle
      else
        match items[itemId]? with
        | none => .error (.parentNotFound itemId)
        | some item => walkUp items resolved n (itemId :: path) item.parentId

def recurs (itemId : Uuid) : Bool :=
  items[itemId]?.any fun item => item.recurrence.isSome

/-- Files the owners of the items on a path, from the last item back. -/
def settleOwners (resolved : OwnersById) (path : List Uuid) (owner : Option Uuid) : OwnersById :=
  (path.foldl (fun (s : OwnersById × Option Uuid) itemId =>
    let owner := if s.2.isNone && recurs items itemId then some itemId else s.2
    (s.1.insert itemId owner, owner)) (resolved, owner)).1

/-- Finds the owners of an item and of its ancestors. -/
def resolveOwner (resolved : OwnersById) (start : Uuid) : Except ItemRepositoryError OwnersById :=
  if start ∈ resolved then .ok resolved
  else do
    -- a path has no repetitions, so it ends within as many steps as there are items
    let (path, owner) ← walkUp items resolved (items.size + 1) [] (some start)
    return settleOwners items resolved path owner

/-- The topmost recurring item above each item, itself included. -/
def recurringSubtreeOwners : Except ItemRepositoryError OwnersById :=
  items.keys.foldlM (resolveOwner items) ∅

/-! ### Edges -/

def dependencyEdge (dependency : Dependency) : Except ItemRepositoryError (Uuid × Uuid) :=
  let predecessorId := dependency.itemId.uuid
  if predecessorId ∉ items then .error (.dependencyNotFound predecessorId)
  else
    match owners[predecessorId]?.join with
    | none => .ok (predecessorId, successorId)
    | some predecessorOwner =>
      if owners[successorId]?.join ≠ some predecessorOwner then
        .error (.crossRecurringSubtreeDependency successorId predecessorId)
      else .ok (predecessorId, successorId)

def itemEdges : Except ItemRepositoryError (List (Uuid × Uuid)) := do
  let dependencies ← item.dependencies.mapError ItemRepositoryError.invalidItem
  dependencies.mapM (dependencyEdge items owners successorId)

def dependencyEdges : Except ItemRepositoryError (List (Uuid × Uuid)) := do
  let edges ← items.toList.mapM fun entry => itemEdges items owners entry.1 entry.2
  return edges.flatten

/-- Whether the children of an item follow each other. -/
def Item.isOrderedRoutine : Bool :=
  item.isActive && decide (item.kind = .routine) &&
    decide (item.flexibleConstraints.routineOrdered = some true)

def siblingOrderOf : Item → Item → Ordering :=
  compareLex (compareOn Item.siblingOrder) (compareOn Item.id)

instance : TransCmp siblingOrderOf :=
  inferInstanceAs (TransCmp (compareLex (compareOn Item.siblingOrder) (compareOn Item.id)))

/-- The children of an item that are not deleted, in their order. -/
def activeChildren (parentId : Uuid) : List Item :=
  sortBy siblingOrderOf ((itemList items).filter fun item =>
    item.isActive && decide (item.parentId = some parentId))

/-- The edges between the children of ordered routines. -/
def sequenceEdges : List (Uuid × Uuid) :=
  ((itemList items).filter Item.isOrderedRoutine).flatMap fun routine =>
    let children := (activeChildren items routine.id).map Item.id
    children.zip children.tail

/-! ### The check -/

/-- Takes the least identifier that is ready. -/
def popFirst (_ : Finset Uuid) (ready : List Uuid) : Option (Uuid × List Uuid) :=
  match sortBy compare ready with
  | [] => none
  | id :: rest => some (id, rest)

/-- The predecessors of an item, each once. -/
def predecessors (edges : List (Uuid × Uuid)) (id : Uuid) : List Uuid :=
  (edges.filterMap fun edge => if edge.2 = id then some edge.1 else none).dedup

def validateDependencyGraph : Except ItemRepositoryError Unit := do
  let owners ← recurringSubtreeOwners items
  let edges ← dependencyEdges items owners
  let visited := Kahn.order popFirst (predecessors (edges ++ sequenceEdges items)) items.keys
  if visited.length = items.size then return () else .error .dependencyCycle

/-! ### Walking up -/

section

variable {items : ItemsById} {resolved : OwnersById} {n : ℕ} {path path' : List Uuid}
  {current owner : Option Uuid} {id : Uuid}

/-- An item from which the parents lead to an item without a parent. -/
inductive IsRooted (items : ItemsById) : Uuid → Prop where
  | root {id : Uuid} {item : Item} (hitem : items[id]? = some item) (hroot : item.parentId = none) :
      IsRooted items id
  | child {id parentId : Uuid} {item : Item} (hitem : items[id]? = some item)
      (hpar : item.parentId = some parentId) (h : IsRooted items parentId) : IsRooted items id

/-- A walk from an item up, with the path before and after it. -/
inductive WalksUp (items : ItemsById) (resolved : OwnersById) :
    List Uuid → Option Uuid → List Uuid → Prop where
  | stop {path : List Uuid} : WalksUp items resolved path none path
  | known {path : List Uuid} {id : Uuid} (hknown : id ∈ resolved) :
      WalksUp items resolved path (some id) path
  | up {path path' : List Uuid} {id : Uuid} {item : Item} (hitem : items[id]? = some item)
      (h : WalksUp items resolved (id :: path) item.parentId path') :
      WalksUp items resolved path (some id) path'

lemma walksUp_of_ok (h : walkUp items resolved n path current = .ok (path', owner)) :
    WalksUp items resolved path current path' := by
  induction n generalizing path current with
  | zero =>
    cases current with
    | none =>
      cases h
      exact .stop
    | some itemId => cases h
  | succ n ih =>
    cases current with
    | none =>
      cases h
      exact .stop
    | some itemId =>
      rw [walkUp] at h
      split at h
      · rename_i cached hcached
        cases h
        exact .known (mem_iff_exists.mpr ⟨_, hcached⟩)
      · split_ifs at h
        split at h
        · cases h
        · rename_i item hitem
          exact .up hitem (ih h)

lemma WalksUp.subset (h : WalksUp items resolved path current path') : path ⊆ path' := by
  induction h with
  | stop => exact List.Subset.refl _
  | known => exact List.Subset.refl _
  | up _ _ ih => exact fun id hid => ih (mem_cons_of_mem _ hid)

lemma WalksUp.isRooted (hresolved : ∀ id ∈ resolved, IsRooted items id)
    (h : WalksUp items resolved path current path')
    (hpath : (∀ id, current = some id → IsRooted items id) → ∀ id ∈ path, IsRooted items id) :
    ∀ id ∈ path', IsRooted items id := by
  induction h with
  | stop => exact hpath nofun
  | known hknown =>
    refine hpath fun id hid => ?_
    cases hid
    exact hresolved _ hknown
  | @up path path' itemId item hitem _ ih =>
    have hstep : (∀ id, item.parentId = some id → IsRooted items id) →
        IsRooted items itemId := fun hpar => by
      cases hp : item.parentId with
      | none => exact .root hitem hp
      | some parentId => exact .child hitem hp (hpar parentId hp)
    refine ih fun hpar id hid => ?_
    rcases mem_cons.mp hid with rfl | hid
    · exact hstep hpar
    · refine hpath (fun id' heq => ?_) id hid
      cases heq
      exact hstep hpar

lemma mem_settleOwners :
    id ∈ settleOwners items resolved path owner ↔ id ∈ path ∨ id ∈ resolved := by
  unfold settleOwners
  induction path generalizing resolved owner with
  | nil => simp
  | cons a rest ih =>
    rw [foldl_cons, ih, ExtTreeMap.mem_insert, LawfulEqOrd.compare_eq_iff_eq, mem_cons, eq_comm]
    tauto

/-- **The owners are found** only if every item is rooted. -/
lemma isRooted_of_owners {owners : OwnersById} (h : recurringSubtreeOwners items = .ok owners)
    (hid : id ∈ items) : IsRooted items id := by
  obtain ⟨hall, hmem⟩ := Except.foldlM_prefix_invariant (P := fun done resolved =>
      (∀ id ∈ resolved, IsRooted items id) ∧ ∀ id ∈ done, id ∈ resolved)
    (fun done start resolved next _ hnext ⟨hrooted, hdone⟩ => by
      unfold resolveOwner at hnext
      split_ifs at hnext with hknown
      · cases hnext
        exact ⟨hrooted, forall_mem_append.mpr ⟨hdone, forall_mem_singleton.mpr hknown⟩⟩
      · obtain ⟨⟨path, owner⟩, hwalk, hnext⟩ := Except.bind_eq_ok.mp hnext
        cases hnext
        have hwalks := walksUp_of_ok hwalk
        have hpath : start ∈ path := by
          cases hwalks with
          | known h => exact absurd h hknown
          | up _ h => exact h.subset mem_cons_self
        simp only [mem_settleOwners]
        exact ⟨fun id hid => hid.elim (hwalks.isRooted hrooted (fun _ _ => nofun) id) (hrooted id),
          forall_mem_append.mpr ⟨fun id hid => .inr (hdone id hid),
            forall_mem_singleton.mpr (.inl hpath)⟩⟩)
    h ⟨fun id hid => absurd hid ExtTreeMap.not_mem_empty, nofun⟩
  exact hall id (hmem id (ExtTreeMap.mem_keys.mpr hid))

def ParentOf (items : ItemsById) (childId parentId : Uuid) : Prop :=
  ∃ item, items[childId]? = some item ∧ item.parentId = some parentId

lemma IsRooted.not_transGen (h : IsRooted items id) : ¬ TransGen (ParentOf items) id id := by
  induction h with
  | root hitem hroot =>
    intro hcyc
    obtain ⟨_, ⟨item', hit', hpar⟩, -⟩ := TransGen.head'_iff.mp hcyc
    cases hitem.symm.trans hit'
    cases hroot.symm.trans hpar
  | @child id parentId item hitem hpar _ ih =>
    -- a cycle through an item goes through its parent
    intro hcyc
    obtain ⟨_, ⟨item', hit', hpar'⟩, hrest⟩ := TransGen.head'_iff.mp hcyc
    cases hitem.symm.trans hit'
    cases hpar.symm.trans hpar'
    exact ih (TransGen.tail'_iff.mpr ⟨id, hrest, item, hitem, hpar⟩)

lemma acyclic_parentOf {owners : OwnersById} (h : recurringSubtreeOwners items = .ok owners) :
    Acyclic (ParentOf items) := fun id hcyc => by
  obtain ⟨_, ⟨item, hitem, -⟩, -⟩ := TransGen.head'_iff.mp hcyc
  exact (isRooted_of_owners h (mem_iff_exists.mpr ⟨_, hitem⟩)).not_transGen hcyc

/-! ### What is accepted -/

variable {owners : OwnersById} {edges : List (Uuid × Uuid)} {a b : Uuid}

/-- Every item is stored under its identifier. -/
def IsKeyed (items : ItemsById) : Prop :=
  ∀ ⦃id : Uuid⦄ ⦃item : Item⦄, items[id]? = some item → item.id = id

lemma mem_itemList {item : Item} : item ∈ itemList items ↔ ∃ id : Uuid, items[id]? = some item := by
  simp [itemList]

lemma IsKeyed.mem_itemList (h : IsKeyed items) {item : Item} :
    item ∈ itemList items ↔ items[item.id]? = some item := by
  rw [DayWeave.Server.mem_itemList]
  exact ⟨fun ⟨id, hid⟩ => (h hid).symm ▸ hid, fun hid => ⟨_, hid⟩⟩

lemma hasActiveChildren_iff : hasActiveChildren a items = true ↔
    ∃ (id : Uuid) (item : Item), items[id]? = some item ∧ item.parentId = some a ∧
      item.isActive = true := by
  simp only [hasActiveChildren, any_eq_true, mem_itemList, Bool.and_eq_true, decide_eq_true_eq]
  exact ⟨fun ⟨item, ⟨id, hid⟩, h⟩ => ⟨id, item, hid, h⟩,
    fun ⟨id, item, hid, h⟩ => ⟨item, ⟨id, hid⟩, h⟩⟩

lemma mem_of_dependencyEdges (h : dependencyEdges items owners = .ok edges)
    (hedge : (a, b) ∈ edges) :
    a ∈ items ∧ b ∈ items := by
  obtain ⟨lists, hlists, hedges⟩ := Except.bind_eq_ok.mp h
  cases hedges
  obtain ⟨list, hlist, hedge⟩ := mem_flatten.mp hedge
  obtain ⟨⟨id, item⟩, hent, hitem⟩ := Except.exists_of_mem_mapM hlists hlist
  obtain ⟨dependencies, -, hitem⟩ := Except.bind_eq_ok.mp hitem
  obtain ⟨dependency, -, hone⟩ := Except.exists_of_mem_mapM hitem hedge
  have hid : id ∈ items :=
    mem_iff_exists.mpr ⟨_, ExtTreeMap.mem_toList_iff_getElem?_eq_some.mp hent⟩
  unfold dependencyEdge at hone
  dsimp only at hone
  split_ifs at hone with hin
  split at hone
  · cases hone
    exact ⟨hin, hid⟩
  · split_ifs at hone
    cases hone
    exact ⟨hin, hid⟩

lemma mem_sequenceEdges : (a, b) ∈ sequenceEdges items ↔ ∃ routine ∈ itemList items,
    routine.isOrderedRoutine = true ∧
      Adjacent ((activeChildren items routine.id).map Item.id) a b := by
  simp only [sequenceEdges, mem_flatMap, mem_filter, and_assoc]
  exact Iff.rfl

lemma mem_activeChildren {item : Item} : item ∈ activeChildren items a ↔
    item ∈ itemList items ∧ item.isActive = true ∧ item.parentId = some a := by
  simp [activeChildren]

lemma mem_of_sequenceEdges (hkeyed : IsKeyed items) (hedge : (a, b) ∈ sequenceEdges items) :
    a ∈ items ∧ b ∈ items := by
  obtain ⟨routine, -, -, hadj⟩ := mem_sequenceEdges.mp hedge
  have hmem : ∀ id ∈ (activeChildren items routine.id).map Item.id, id ∈ items := fun id hid => by
    obtain ⟨item, hitem, rfl⟩ := mem_map.mp hid
    exact mem_iff_exists.mpr ⟨_, hkeyed.mem_itemList.mp (mem_activeChildren.mp hitem).1⟩
  exact ⟨hmem a (of_mem_zip hadj).1, hmem b (mem_of_mem_tail (of_mem_zip hadj).2)⟩

lemma selects_popFirst : Kahn.Selects popFirst where
  perm remaining ready choice h := by
    unfold popFirst at h
    split at h
    · cases h
    · rename_i id rest hsort
      cases h
      exact hsort ▸ sortBy_perm compare ready
  nil remaining ready h := by
    unfold popFirst at h
    split at h
    · rename_i hsort
      exact length_eq_zero_iff.mp ((length_sortBy compare ready).symm.trans (hsort ▸ rfl))
    · cases h

lemma mem_predecessors : a ∈ predecessors edges b ↔ (a, b) ∈ edges := by
  simp only [predecessors, mem_dedup, mem_filterMap, Option.ite_none_right_eq_some,
    Option.some.injEq, Prod.exists]
  exact ⟨fun ⟨_, _, h, h2, h1⟩ => h1 ▸ h2 ▸ h, fun h => ⟨a, b, h, rfl, rfl⟩⟩

/-- **The graph that is accepted**: the owners are found, the dependencies are stored and stay
inside recurring subtrees, and nothing waits for itself. -/
theorem validateDependencyGraph_eq_ok (hkeyed : IsKeyed items) :
    validateDependencyGraph items = .ok () ↔ ∃ owners edges,
      recurringSubtreeOwners items = .ok owners ∧ dependencyEdges items owners = .ok edges ∧
      Acyclic fun a b => (a, b) ∈ edges ++ sequenceEdges items := by
  have hsort : ∀ {owners edges}, dependencyEdges items owners = .ok edges →
      ((Kahn.order popFirst (predecessors (edges ++ sequenceEdges items)) items.keys).length =
        items.size ↔ Acyclic fun a b => (a, b) ∈ edges ++ sequenceEdges items) := by
    intro owners edges hedges
    have hmem : ∀ {a b}, (a, b) ∈ edges ++ sequenceEdges items → a ∈ items ∧ b ∈ items :=
      fun h => (mem_append.mp h).elim (mem_of_dependencyEdges hedges) (mem_of_sequenceEdges hkeyed)
    rw [← length_keys, Kahn.length_order_eq_iff ExtTreeMap.nodup_keys selects_popFirst
      fun b _ a ha => ExtTreeMap.mem_keys.mpr (hmem (mem_predecessors.mp ha)).1]
    simp only [mem_predecessors, ExtTreeMap.mem_keys]
    exact ⟨fun h => h.mono fun a b hab => ⟨(hmem hab).2, hab⟩, fun h => h.mono fun a b hab => hab.2⟩
  unfold validateDependencyGraph
  simp only [Except.bind_eq_ok]
  constructor
  · rintro ⟨owners, hown, edges, hedges, h⟩
    split_ifs at h with hlen
    exact ⟨owners, edges, hown, hedges, (hsort hedges).mp hlen⟩
  · rintro ⟨owners, edges, hown, hedges, hacyc⟩
    refine ⟨owners, hown, edges, hedges, ?_⟩
    rw [if_pos ((hsort hedges).mpr hacyc)]
    rfl

end

/-! ### Changes that keep a graph -/

section

variable {items items' : ItemsById} {a b : Uuid}

/-- An item in the same place of the graph, which may be deleted. -/
structure Item.Thins (item item' : Item) : Prop where
  id : item'.id = item.id
  parentId : item'.parentId = item.parentId
  recurrence : item'.recurrence = item.recurrence
  flexibleConstraints : item'.flexibleConstraints = item.flexibleConstraints
  kind : item'.kind = item.kind
  siblingOrder : item'.siblingOrder = item.siblingOrder
  active : item'.isActive = true → item.isActive = true

/-- Items in the same places of the graph, some of which may be deleted. -/
def Thins (items items' : ItemsById) : Prop :=
  ∀ id : Uuid, Option.Rel Item.Thins items[id]? items'[id]?

variable (h : Thins items items')

include h

lemma Thins.eq_map : items' = items.map fun id item => items'[id]?.getD item := by
  refine ExtTreeMap.ext_getElem? fun {id} => ?_
  rw [ExtTreeMap.getElem?_map]
  have hid := h id
  generalize items[id]? = found at hid ⊢
  generalize items'[id]? = found' at hid ⊢
  cases hid <;> rfl

lemma Thins.of_getElem? {id : Uuid} {item : Item}
    (hitem : items[id]? = some item) : item.Thins (items'[id]?.getD item) := by
  have hid := h id
  rw [hitem] at hid
  generalize items'[id]? = found' at hid ⊢
  cases hid with
  | some hth => exact hth

lemma Thins.exists_before {id : Uuid} {item' : Item} (hit' : items'[id]? = some item') :
    ∃ item, items[id]? = some item ∧ item.Thins item' := by
  have hid := h id
  rw [hit'] at hid
  generalize items[id]? = found at hid ⊢
  cases hid with
  | some hth => exact ⟨_, rfl, hth⟩

lemma Thins.forall₂ : List.Forall₂ (fun entry entry' => entry'.1 = entry.1 ∧ entry.2.Thins entry'.2)
      items.toList items'.toList := by
  rw [h.eq_map, toList_map, List.forall₂_map_right_iff, List.forall₂_same]
  exact fun entry hent =>
    ⟨rfl, h.of_getElem? (ExtTreeMap.mem_toList_iff_getElem?_eq_some.mp hent)⟩

lemma Thins.keys_eq : items'.keys = items.keys := by
  rw [h.eq_map, keys_map]

lemma Thins.size_eq : items'.size = items.size := by
  rw [← length_keys, h.keys_eq, length_keys]

lemma Thins.mem_iff : a ∈ items' ↔ a ∈ items := by
  rw [← ExtTreeMap.mem_keys, h.keys_eq, ExtTreeMap.mem_keys]

lemma Thins.recurringSubtreeOwners_eq :
    recurringSubtreeOwners items' = recurringSubtreeOwners items := by
  have hwalk : ∀ resolved n path current,
      walkUp items' resolved n path current = walkUp items resolved n path current := by
    intro resolved n
    induction n with
    | zero => intro path current; cases current <;> rfl
    | succ n ih =>
      intro path current
      cases current with
      | none => rfl
      | some itemId =>
        have hid := h itemId
        rw [walkUp, walkUp]
        generalize items[itemId]? = found at hid ⊢
        generalize items'[itemId]? = found' at hid ⊢
        cases hid with
        | none => rfl
        | some hth => simp only [hth.parentId, ih]
  have hrec : recurs items' = recurs items := by
    funext itemId
    have hid := h itemId
    unfold recurs
    generalize items[itemId]? = found at hid ⊢
    generalize items'[itemId]? = found' at hid ⊢
    cases hid with
    | none => rfl
    | some hth => simp [hth.recurrence]
  have hresolve : resolveOwner items' = resolveOwner items := by
    funext resolved start
    simp only [resolveOwner, settleOwners, hwalk, hrec, h.size_eq]
  rw [recurringSubtreeOwners, recurringSubtreeOwners, h.keys_eq, hresolve]

lemma Thins.dependencyEdges_eq (owners : OwnersById) :
    dependencyEdges items' owners = dependencyEdges items owners := by
  have hedge : dependencyEdge items' = dependencyEdge items := by
    funext owners successorId dependency
    simp only [dependencyEdge, h.mem_iff]
  have hits := h.forall₂
  unfold dependencyEdges
  congr 1
  generalize items.toList = l at hits ⊢
  generalize items'.toList = l' at hits ⊢
  induction hits with
  | nil => rfl
  | @cons entry entry' rest rest' hent _ ih =>
    have hitem : itemEdges items' owners entry'.1 entry'.2 =
        itemEdges items owners entry.1 entry.2 := by
      simp only [itemEdges, Item.dependencies, hent.1, hent.2.flexibleConstraints, hedge]
    rw [mapM_cons, mapM_cons, ih, hitem]

/-- The children after the change are among the children before, in the same order. -/
lemma Thins.activeChildren_eq (hkeyed : IsKeyed items) (parentId : Uuid) :
    ∃ kept : Item → Bool, (activeChildren items' parentId).map Item.id =
      ((activeChildren items parentId).filter kept).map Item.id := by
  set after : Item → Item := fun item => items'[item.id]?.getD item with haft
  have hth : ∀ item ∈ itemList items, item.Thins (after item) := fun item hitem =>
    h.of_getElem? (hkeyed.mem_itemList.mp hitem)
  have hlist : itemList items' = (itemList items).map after := by
    conv_lhs => rw [h.eq_map]
    rw [itemList, toList_map, itemList, List.map_map, List.map_map]
    refine map_congr_left fun entry hent => ?_
    change items'[entry.1]?.getD entry.2 = items'[entry.2.id]?.getD entry.2
    rw [hkeyed (ExtTreeMap.mem_toList_iff_getElem?_eq_some.mp hent)]
  let isChild : Item → Bool := fun item => item.isActive && decide (item.parentId = some parentId)
  have hfilt : (itemList items').filter isChild =
      (((itemList items).filter isChild).filter fun item => (after item).isActive).map after := by
    rw [hlist, filter_map, filter_filter]
    refine congrArg _ (filter_congr fun item hitem => ?_)
    have := (hth item hitem).active
    simp only [isChild, Function.comp_apply, (hth item hitem).parentId]
    cases hact : (after item).isActive with
    | false => rfl
    | true => rw [this hact, Bool.true_and, Bool.true_and]
  refine ⟨fun item => (after item).isActive, ?_⟩
  have hsame : ∀ {x y}, x.Thins (after x) → y.Thins (after y) →
      siblingOrderOf (after x) (after y) = siblingOrderOf x y := fun hx hy => by
    simp only [siblingOrderOf, compareLex, compareOn, hx.siblingOrder, hy.siblingOrder, hx.id,
      hy.id]
  rw [activeChildren, hfilt, sortBy_map_of_mem _ fun x hx y hy =>
    hsame (hth x (mem_of_mem_filter (mem_of_mem_filter hx)))
      (hth y (mem_of_mem_filter (mem_of_mem_filter hy))), sortBy_filter, List.map_map]
  refine map_congr_left fun item hitem => ?_
  exact (hth item (mem_activeChildren.mp (mem_of_mem_filter hitem)).1).id

/-- **Deleting items makes no new connections.** -/
lemma Thins.transGen_sequenceEdges (hkeyed : IsKeyed items)
    (hedge : (a, b) ∈ sequenceEdges items') :
    TransGen (fun a b => (a, b) ∈ sequenceEdges items) a b := by
  obtain ⟨routine', hroutine', hordd, hadj⟩ := mem_sequenceEdges.mp hedge
  obtain ⟨id, hid⟩ := mem_itemList.mp hroutine'
  obtain ⟨routine, hfnd, hth⟩ := h.exists_before hid
  obtain ⟨kept, hkept⟩ := h.activeChildren_eq hkeyed routine'.id
  rw [hkept, adjacent_map] at hadj
  obtain ⟨x, y, hadj, rfl, rfl⟩ := hadj
  refine (transGen_of_adjacent_filter hadj).lift Item.id fun x y hxy => ?_
  refine mem_sequenceEdges.mpr ⟨routine, mem_itemList.mpr ⟨id, hfnd⟩, ?_, ?_⟩
  · simp only [Item.isOrderedRoutine, Bool.and_eq_true, decide_eq_true_eq, hth.kind,
      hth.flexibleConstraints] at hordd ⊢
    exact ⟨⟨hth.active hordd.1.1, hordd.1.2⟩, hordd.2⟩
  · rw [← hth.id]
    exact adjacent_map.mpr ⟨x, y, hxy, rfl, rfl⟩

/-- **The graph stays accepted** when items are deleted or changed without moving. -/
theorem validateDependencyGraph_of_thins (hkeyed : IsKeyed items)
    (hgraph : validateDependencyGraph items = .ok ()) :
    validateDependencyGraph items' = .ok () := by
  have hkeyed' : IsKeyed items' := fun id item' hit' => by
    obtain ⟨item, hfnd, hth⟩ := h.exists_before hit'
    exact hth.id.trans (hkeyed hfnd)
  obtain ⟨owners, edges, hown, hedges, hacyc⟩ :=
    (validateDependencyGraph_eq_ok hkeyed).mp hgraph
  refine (validateDependencyGraph_eq_ok hkeyed').mpr ⟨owners, edges,
    h.recurringSubtreeOwners_eq.trans hown, (h.dependencyEdges_eq owners).trans hedges, ?_⟩
  refine hacyc.of_transGen fun a b hedge => ?_
  rcases mem_append.mp hedge with hedge | hedge
  · exact .single (mem_append_left _ hedge)
  · exact (h.transGen_sequenceEdges hkeyed hedge).lift id fun a b h => mem_append_right _ h

end

end DayWeave.Server
