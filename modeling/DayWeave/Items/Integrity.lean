import DayWeave.Items.Effects
import DayWeave.Items.Paging
import DayWeave.Items.Repository

/-!
The repository stays intact.

Whatever requests a repository handles, its log tells its items (`replica_eq`) under numbers that
increase (`numbered`), parents of active items are active, no item is above itself, the dependency
graph is accepted, and an item is marked as executable exactly if it is. Between the write of an
item and the refresh of its parents these have stale marks; `IsIntact stale` says that all others
are right.
-/

open List Std Relation

namespace DayWeave.Server

open Except (bind_eq_ok ite_eq_ok ite_error_eq_ok mapError_eq_ok)
open Option (okOr_eq_ok)
open MemoryState (after)

/-! ### Replicas -/

/-- The identifier of the item that changed. -/
def DeltaChange.id : DeltaChange → Uuid
  | .upsert item => item.id
  | .tombstone deleted => deleted.id

/-- What is told of an item as it is. -/
def Item.change (item : Item) : DeltaChange :=
  match item.deletedAt with
  | none => .upsert item
  | some deletedAt => .tombstone ⟨item.id, item.revision, deletedAt, item.parentId⟩

/-- What a replica knows after a log: the last change of every item. -/
def replica (changes : List MemoryChange) : ExtTreeMap Uuid DeltaChange :=
  changes.foldl (fun known row => known.insert row.change.id row.change) ∅

lemma Item.change_id (item : Item) : item.change.id = item.id := by
  unfold Item.change
  split <;> rfl

lemma Item.change_of_isActive {item : Item} (h : item.isActive = true) :
    item.change = .upsert item := by
  rw [Item.change, Option.isNone_iff_eq_none.mp h]

/-! ### One write -/

/-- Everything that holds of a repository, up to the marks of some items. -/
structure IsIntact (stale : Uuid → Prop) (state : MemoryState) : Prop where
  keyed : IsKeyed state.items
  numbered : state.IsNumbered
  replica_eq : replica state.changes = state.items.map fun _ item => item.change
  parent_active : ∀ ⦃id parentId : Uuid⦄ ⦃item : Item⦄, state.items[id]? = some item →
    item.isActive = true → item.parentId = some parentId →
    ∃ parent, activeItem state.items parentId = some parent
  graph : validateDependencyGraph state.items = .ok ()
  executable : ∀ ⦃id : Uuid⦄ ⦃item : Item⦄, state.items[id]? = some item → ¬ stale id →
    item.isExecutable = item.executionIsAllowed (hasActiveChildren id state.items)

section

variable {services : Services} {env : Surroundings} {state next : MemoryState} {stale : Uuid → Prop}
  {id changeGroupId : Uuid} {item current : Item} {now : DateTime} {context : IdempotencyContext}

section

variable {stale' : Uuid → Prop} {items : ItemsById} {parentId : Uuid} {change : DeltaChange}

lemma activeItem_eq_some :
    activeItem items id = some item ↔ items[id]? = some item ∧ item.isActive = true := by
  rw [activeItem, Option.filter_eq_some_iff]

lemma getElem?_insert_items {j : Uuid} :
    (items.insert id item)[j]? = if id = j then some item else items[j]? := by
  simp [ExtTreeMap.getElem?_insert]

/-- Only what is stored and told matters. -/
lemma IsIntact.congr (h : IsIntact stale state) (hits : next.items = state.items)
    (hlog : next.toChangeLog = state.toChangeLog) : IsIntact stale next where
  keyed := hits ▸ h.keyed
  numbered := hlog ▸ h.numbered
  replica_eq := by rw [hits, hlog, h.replica_eq]
  parent_active := hits ▸ h.parent_active
  graph := hits ▸ h.graph
  executable := hits ▸ h.executable

lemma IsIntact.weaken (h : IsIntact stale state) (hstale : ∀ j, stale j → stale' j) :
    IsIntact stale' state :=
  ⟨h.keyed, h.numbered, h.replica_eq, h.parent_active, h.graph, fun j _ hfnd hj =>
    h.executable hfnd fun hj' => hj (hstale j hj')⟩

lemma write_cases (h : state.write changeGroupId id item change = .ok next) :
    next.items = state.items.insert id item ∧ state.nextSequence < next.nextSequence ∧
      next.changes = state.changes ++ [⟨next.nextSequence, some changeGroupId, change⟩] := by
  obtain ⟨hsize, heq⟩ := ite_eq_ok.mp h
  cases heq
  refine ⟨rfl, ?_, rfl⟩
  have hnext : (state.nextSequence + 1).toNat = state.nextSequence.toNat + 1 := by
    rw [UInt64.toNat_add]
    exact Nat.mod_eq_of_lt hsize
  exact UInt64.lt_iff_toNat_lt.mpr (hnext ▸ Nat.lt_succ_self _)

/-- A row with a larger number at the head of the log. -/
lemma ChangeLog.IsNumbered.append {log next : ChangeLog} {row : MemoryChange} (h : log.IsNumbered)
    (hlt : log.nextSequence < next.nextSequence) (hrow : row.sequence = next.nextSequence)
    (hchgs : next.changes = log.changes ++ [row]) : next.IsNumbered := by
  have hless : ∀ old ∈ log.changes, old.sequence < next.nextSequence := fun old hold =>
    UInt64.lt_of_le_of_lt (h.head old hold) hlt
  refine ⟨?_, fun change hin => ?_, fun change hin => ?_⟩
  · rw [hchgs, map_append, pairwise_append]
    refine ⟨h.increasing, pairwise_singleton _ _, ?_⟩
    simpa [hrow] using hless
  all_goals
    rw [hchgs, mem_append, mem_singleton] at hin
    rcases hin with hin | rfl
  · exact h.positive change hin
  · rw [hrow]
    exact UInt64.lt_of_le_of_lt UInt64.zero_le hlt
  · exact UInt64.le_of_lt (hless change hin)
  · rw [hrow]
    exact UInt64.le_refl _

/-- A stored item is a child of some item and not deleted. -/
def IsActiveChild (found : Option Item) (parentId : Uuid) : Prop :=
  ∃ item, found = some item ∧ item.parentId = some parentId ∧ item.isActive = true

/-- The children of an item change only if the item that is written was or becomes one. -/
lemma hasActiveChildren_insert
    (h : IsActiveChild (some item) parentId ↔ IsActiveChild items[id]? parentId) :
    hasActiveChildren parentId (items.insert id item) = hasActiveChildren parentId items := by
  rw [Bool.eq_iff_iff, hasActiveChildren_iff, hasActiveChildren_iff]
  constructor
  · rintro ⟨j, child, hj, hch⟩
    rw [getElem?_insert_items] at hj
    split_ifs at hj with heq
    · cases hj
      obtain ⟨child, hj, hch⟩ := h.mp ⟨_, rfl, hch⟩
      exact ⟨id, child, hj, hch⟩
    · exact ⟨j, child, hj, hch⟩
  · rintro ⟨j, child, hj, hch⟩
    by_cases heq : id = j
    · subst heq
      obtain ⟨child, heq, hch⟩ := h.mpr ⟨child, hj, hch⟩
      cases heq
      exact ⟨id, item, by rw [getElem?_insert_items, if_pos rfl], hch⟩
    · exact ⟨j, child, by rw [getElem?_insert_items, if_neg heq, hj], hch⟩

/-- **One write** keeps a repository intact, up to the marks of the items whose children
change. -/
lemma IsIntact.write (h : IsIntact stale state)
    (hwr : state.write changeGroupId id item item.change = .ok next) (hid : item.id = id)
    (hgraph : validateDependencyGraph (state.items.insert id item) = .ok ())
    (hpar : ∀ parentId, item.isActive = true → item.parentId = some parentId →
      ∃ parent, activeItem (state.items.insert id item) parentId = some parent)
    (hchn : item.isActive = true ∨ hasActiveChildren id state.items = false)
    (hexec : ¬ stale' id →
      item.isExecutable = item.executionIsAllowed
        (hasActiveChildren id (state.items.insert id item)))
    (hstale : ∀ j, j ≠ id → ¬ stale' j → ¬ stale j ∧
      (IsActiveChild (some item) j ↔ IsActiveChild state.items[id]? j)) :
    IsIntact stale' next := by
  obtain ⟨hits, hseq, hchgs⟩ := write_cases hwr
  refine ⟨fun j found hfnd => ?_, h.numbered.append hseq rfl hchgs, ?_,
    fun j parentId found hfnd hact hp => ?_, ?_, fun j found hfnd hj => ?_⟩
  · rw [hits, getElem?_insert_items] at hfnd
    split_ifs at hfnd with heq
    · cases hfnd
      exact hid.trans heq
    · exact h.keyed hfnd
  · rw [hchgs, hits, replica, foldl_append, foldl_cons, foldl_nil, ← replica,
      h.replica_eq, Item.change_id, hid]
    refine ExtTreeMap.ext_getElem? fun {j} => ?_
    rw [ExtTreeMap.getElem?_map, getElem?_insert_items, ExtTreeMap.getElem?_insert,
      ExtTreeMap.getElem?_map]
    simp only [LawfulEqOrd.compare_eq_iff_eq]
    split_ifs <;> rfl
  · -- parents
    rw [hits] at hfnd ⊢
    rw [getElem?_insert_items] at hfnd
    split_ifs at hfnd with heq
    · cases hfnd
      exact hpar parentId hact hp
    · obtain ⟨parent, hpar'⟩ := h.parent_active hfnd hact hp
      by_cases hself : id = parentId
      · -- the item that is written has a child, so it is not deleted
        subst hself
        have hitem := hchn.resolve_right fun hnone => by
          have hsome := hasActiveChildren_iff.mpr ⟨j, found, hfnd, hp, hact⟩
          rw [hnone] at hsome
          cases hsome
        exact ⟨item, activeItem_eq_some.mpr ⟨by rw [getElem?_insert_items, if_pos rfl], hitem⟩⟩
      · obtain ⟨hlook, hact'⟩ := activeItem_eq_some.mp hpar'
        exact ⟨parent, activeItem_eq_some.mpr
          ⟨by rw [getElem?_insert_items, if_neg hself, hlook], hact'⟩⟩
  · rw [hits]
    exact hgraph
  · -- marks
    rw [hits] at hfnd ⊢
    rw [getElem?_insert_items] at hfnd
    split_ifs at hfnd with heq
    · cases hfnd
      subst heq
      exact hexec hj
    · obtain ⟨hnot, hsame⟩ := hstale j (Ne.symm heq) hj
      rw [hasActiveChildren_insert hsame]
      exact h.executable hfnd hnot

end

/-! ### Changes without a move -/

/-- An item in the same place of the forest. -/
structure Item.SamePlace (item item' : Item) : Prop extends Item.Thins item item' where
  still_active : item.isActive = true → item'.isActive = true

/-- Items in the same places of the forest. -/
def SamePlaces (items items' : ItemsById) : Prop :=
  ∀ id : Uuid, Option.Rel Item.SamePlace items[id]? items'[id]?

section

variable {items items' items'' : ItemsById}

lemma Item.SamePlace.refl (item : Item) : item.SamePlace item :=
  ⟨⟨rfl, rfl, rfl, rfl, rfl, rfl, fun h => h⟩, fun h => h⟩

lemma Item.SamePlace.trans {a b c : Item} (h : a.SamePlace b) (h' : b.SamePlace c) :
    a.SamePlace c :=
  ⟨⟨h'.id.trans h.id, h'.parentId.trans h.parentId, h'.recurrence.trans h.recurrence,
    h'.flexibleConstraints.trans h.flexibleConstraints, h'.kind.trans h.kind,
    h'.siblingOrder.trans h.siblingOrder, fun hc => h.active (h'.active hc)⟩,
    fun ha => h'.still_active (h.still_active ha)⟩

lemma Item.SamePlace.symm {a b : Item} (h : a.SamePlace b) : b.SamePlace a :=
  ⟨⟨h.id.symm, h.parentId.symm, h.recurrence.symm, h.flexibleConstraints.symm, h.kind.symm,
    h.siblingOrder.symm, h.still_active⟩, h.active⟩

lemma SamePlaces.thins (h : SamePlaces items items') : Thins items items' := fun id => by
  have hid := h id
  generalize items[id]? = a at hid ⊢
  generalize items'[id]? = b at hid ⊢
  cases hid with
  | none => exact .none
  | some hab => exact .some hab.toThins

lemma SamePlaces.exists (h : SamePlaces items items') (hitem : items[id]? = some item) :
    ∃ item', items'[id]? = some item' ∧ item.SamePlace item' := by
  have hid := h id
  rw [hitem] at hid
  generalize items'[id]? = found at hid ⊢
  cases hid with
  | some hsame => exact ⟨_, rfl, hsame⟩

/-- An item that is written over is related to the one before, and all others are the same. -/
lemma rel_insert {r : Item → Item → Prop} (hr : ∀ item, r item item)
    (hcur : items[id]? = some current) (h : r current item) (j : Uuid) :
    Option.Rel r items[j]? (items.insert id item)[j]? := by
  rw [getElem?_insert_items]
  split_ifs with heq
  · rw [← heq, hcur]
    exact .some h
  · cases items[j]? with
    | none => exact .none
    | some item => exact .some (hr item)

lemma Item.SamePlace.isActiveChild_iff (h : current.SamePlace item) (parentId : Uuid) :
    IsActiveChild (some item) parentId ↔ IsActiveChild (some current) parentId := by
  constructor
  · rintro ⟨_, ⟨⟩, hpar, hact⟩
    exact ⟨current, rfl, h.parentId ▸ hpar, h.active hact⟩
  · rintro ⟨_, ⟨⟩, hpar, hact⟩
    exact ⟨item, rfl, h.parentId ▸ hpar, h.still_active hact⟩

/-- Who has children depends on the places only. -/
lemma SamePlaces.hasActiveChildren_eq (h : SamePlaces items items') :
    hasActiveChildren id items' = hasActiveChildren id items := by
  rw [Bool.eq_iff_iff, hasActiveChildren_iff, hasActiveChildren_iff]
  constructor
  · rintro ⟨j, child', hj, hpar, hact⟩
    have hrel := h j
    rw [hj] at hrel
    generalize hfnd : items[j]? = found at hrel
    cases hrel with
    | @some child _ hsame =>
      exact ⟨j, child, hfnd, hsame.parentId ▸ hpar, hsame.active hact⟩
  · rintro ⟨j, child, hj, hpar, hact⟩
    obtain ⟨child', hj', hsame⟩ := h.exists hj
    exact ⟨j, child', hj', hsame.parentId ▸ hpar, hsame.still_active hact⟩

/-- **A change without a move** that marks the item as it is. -/
lemma IsIntact.change (h : IsIntact stale state) (hcur : state.items[id]? = some current)
    (hact : current.isActive = true) (hsame : current.SamePlace item)
    (hexec : item.isExecutable = item.executionIsAllowed (hasActiveChildren id state.items))
    (hwr : state.write changeGroupId id item (.upsert item) = .ok next) :
    IsIntact (fun j => stale j ∧ j ≠ id) next ∧ SamePlaces state.items next.items := by
  have hitem := hsame.still_active hact
  have hid : item.id = id := hsame.id.trans (h.keyed hcur)
  have hpls : SamePlaces _ _ := rel_insert .refl hcur hsame
  rw [← Item.change_of_isActive hitem] at hwr
  refine ⟨h.write hwr hid ?_ (fun parentId _ hp => ?_) (.inl hitem) (fun _ => ?_)
    fun j hj hnot => ?_, (write_cases hwr).1 ▸ hpls⟩
  · exact validateDependencyGraph_of_thins hpls.thins h.keyed h.graph
  · obtain ⟨parent, hpar⟩ := h.parent_active hcur hact (hsame.parentId ▸ hp)
    obtain ⟨hlook, hparAct⟩ := activeItem_eq_some.mp hpar
    obtain ⟨parent', hlookup', hsame'⟩ := hpls.exists hlook
    exact ⟨parent', activeItem_eq_some.mpr ⟨hlookup', hsame'.still_active hparAct⟩⟩
  · rw [hpls.hasActiveChildren_eq]
    exact hexec
  · rw [hcur]
    exact ⟨fun hstale => hnot ⟨hstale, hj⟩, hsame.isActiveChild_iff j⟩

lemma refreshedExecution_cases {hasChildren : Bool}
    (h : current.refreshedExecution hasChildren now = .ok item) :
    current.SamePlace item ∧ item.isExecutable = item.executionIsAllowed hasChildren := by
  obtain ⟨revision, -, h⟩ := bind_eq_ok.mp h
  cases h
  exact ⟨⟨⟨rfl, rfl, rfl, rfl, rfl, rfl, fun h => h⟩, fun h => h⟩, rfl⟩

lemma IsIntact.refreshAll {stored : List Uuid} (h : IsIntact (· ∈ stored) state)
    (hrefr : stored.foldlM (refreshParent now changeGroupId) state = .ok next) :
    IsIntact (fun _ => False) next := by
  induction stored generalizing state with
  | nil =>
    cases hrefr
    exact h.weaken fun j hj => not_mem_nil hj
  | cons parentId rest ih =>
    simp only [foldlM_cons, refreshParent, bind_eq_ok, mapError_eq_ok, okOr_eq_ok,
      activeItem_eq_some] at hrefr
    obtain ⟨refreshed, ⟨parent, ⟨hlook, hact⟩, parent', hpar', hwr⟩, hrefr⟩ := hrefr
    obtain ⟨hsame, hexec⟩ := refreshedExecution_cases hpar'
    obtain ⟨hintact, -⟩ := h.change hlook hact hsame hexec hwr
    exact ih (hintact.weaken fun j hj => (mem_cons.mp hj.1).resolve_left hj.2) hrefr

lemma IsIntact.refreshParents {parentIds : List (Option Uuid)}
    (h : IsIntact (fun j => some j ∈ parentIds) state)
    (hrefr : refreshParents state parentIds now changeGroupId = .ok next) :
    IsIntact (fun _ => False) next := by
  refine IsIntact.refreshAll (h.weaken fun j hj => ?_) hrefr
  rw [mem_dedupBy_beq, mem_sortBy, reduceOption_mem_iff]
  exact hj

/-! ### The commands -/

variable {states : ExtTreeMap Uuid ItemCompletionState} {mutation : ItemMutation}
  {expectedRevision : UInt64} {clock : DateTime}

/-- A repository in which everything holds. -/
abbrev IsSound (state : MemoryState) : Prop := IsIntact (fun _ => False) state

lemma validateParent_cases {parentId : Option Uuid}
    (h : validateParent items states id parentId = .ok ()) {p : Uuid} (hp : parentId = some p) :
    p ≠ id ∧ ∃ parent, activeItem items p = some parent := by
  subst hp
  simp only [validateParent, ite_error_eq_ok, bind_eq_ok, okOr_eq_ok] at h
  obtain ⟨hself, parent, hpar, -⟩ := h
  exact ⟨hself, parent, hpar⟩

/-- An item that is not deleted is put into its place. Only the marks of the items that lose
or gain a child become stale. -/
lemma IsIntact.place (h : IsSound state)
    (hwr : state.write changeGroupId id item (.upsert item) = .ok next)
    (hact : item.isActive = true) (hid : item.id = id)
    (hgraph : validateDependencyGraph (state.items.insert id item) = .ok ())
    (hpar : validateParent state.items states id item.parentId = .ok ())
    (hself : ¬ IsActiveChild state.items[id]? id)
    (hexec : item.isExecutable = item.executionIsAllowed (hasActiveChildren id state.items)) :
    IsIntact (fun j => ¬ (IsActiveChild (some item) j ↔ IsActiveChild state.items[id]? j))
      next := by
  rw [← Item.change_of_isActive hact] at hwr
  refine h.write hwr hid hgraph (fun p _ hp => ?_) (.inl hact) (fun _ => ?_)
    fun j _ hsame => ⟨not_false, not_not.mp hsame⟩
  · obtain ⟨hne, parent, hlook⟩ := validateParent_cases hpar hp
    obtain ⟨hlook, hparAct⟩ := activeItem_eq_some.mp hlook
    exact ⟨parent, activeItem_eq_some.mpr
      ⟨by rw [getElem?_insert_items, if_neg (Ne.symm hne), hlook], hparAct⟩⟩
  · have hnot : ¬ IsActiveChild (some item) id := by
      rintro ⟨_, ⟨⟩, hp, -⟩
      exact (validateParent_cases hpar hp).1 rfl
    rw [hasActiveChildren_insert (iff_of_false hnot hself)]
    exact hexec

/-- Looking for an answer forgets answers only. -/
lemma IsIntact.replay {answer : Option (Except ItemRepositoryError ItemMutation)}
    (h : IsIntact stale state) (hreplay : state.replay context clock = (next, answer)) :
    IsIntact stale next := by
  unfold MemoryState.replay at hreplay
  split_ifs at hreplay <;> cases hreplay <;> exact h.congr rfl rfl

/-- A request that was answered before changes nothing. -/
lemma IsIntact.answerOnce
    {f : MemoryState → Except ItemRepositoryError (MemoryState × ItemMutation)} (h : IsSound state)
    (hf : ∀ state, IsSound state → f state = .ok (next, mutation) → IsSound next)
    (hrun : state.answerOnce context clock f = .ok (next, mutation)) : IsSound next := by
  unfold MemoryState.answerOnce at hrun
  split at hrun
  · rename_i state' answer hreplay
    obtain ⟨_, -, heq⟩ := Except.map_eq_ok.mp hrun
    cases heq
    exact h.replay hreplay
  · rename_i state' hreplay
    exact hf state' (h.replay hreplay) hrun

lemma IsIntact.createMemory (h : IsSound state) (hact : item.isActive = true)
    (hrun : createMemory env state item context = .ok (next, mutation)) : IsSound next := by
  refine h.answerOnce (fun state h hrun => ?_) hrun
  simp only [ite_error_eq_ok, bind_eq_ok] at hrun
  obtain ⟨hnew, ⟨⟩, hpar, ⟨⟩, -, ⟨⟩, hgraph, written, hwr, refreshed, hrefr, heq⟩ := hrun
  cases heq
  have hnone := ExtTreeMap.getElem?_eq_none hnew
  have hself : ∀ j, ¬ IsActiveChild state.items[item.id]? j := by
    rintro j ⟨_, hfnd, -⟩
    cases hnone.symm.trans hfnd
  -- nothing has a parent that is not stored
  have hleaf : hasActiveChildren item.id state.items = false := by
    rw [← Bool.not_eq_true, hasActiveChildren_iff]
    rintro ⟨j, child, hj, hp, hch⟩
    obtain ⟨parent, hlook⟩ := h.parent_active hj hch hp
    cases hnone.symm.trans (activeItem_eq_some.mp hlook).1
  have hpld := h.place hwr hact rfl hgraph hpar (hself _)
    (show _ = Item.executionIsAllowed _ (hasActiveChildren item.id state.items) by rw [hleaf]; rfl)
  refine ((hpld.weaken fun j hj => ?_).refreshParents hrefr).congr rfl rfl
  by_contra hoth
  refine hj (iff_of_false ?_ (hself j))
  rintro ⟨_, ⟨⟩, hp, -⟩
  exact hoth (mem_singleton.mpr hp.symm)

lemma replaced_cases {rules : ItemRules} {input : ItemFields}
    (h : current.replaced rules input now = .ok item) :
    item.id = current.id ∧ item.deletedAt = current.deletedAt := by
  obtain ⟨⟨fields, hasOwnEffort⟩, -, h⟩ := bind_eq_ok.mp h
  obtain ⟨revision, -, h⟩ := bind_eq_ok.mp h
  cases h
  exact ⟨rfl, rfl⟩

lemma IsIntact.not_isActiveChild (h : IsIntact stale state) :
    ¬ IsActiveChild state.items[id]? id := by
  rintro ⟨found, hfnd, hp, -⟩
  obtain ⟨owners, edges, hown, -⟩ := (validateDependencyGraph_eq_ok h.keyed).mp h.graph
  exact acyclic_parentOf hown id (.single ⟨found, hfnd, hp⟩)

lemma IsIntact.replaceMemory {replacement : ItemFields} (h : IsSound state)
    (hrun : replaceMemory services env state id expectedRevision replacement now context =
      .ok (next, mutation)) : IsSound next := by
  refine h.answerOnce (fun state h hrun => ?_) hrun
  simp only [ite_error_eq_ok, bind_eq_ok, mapError_eq_ok, okOr_eq_ok, activeItem_eq_some] at hrun
  obtain ⟨current, ⟨hlook, hact⟩, ⟨⟩, -, item, hitem, -, ⟨⟩, hpar, ⟨⟩, -, ⟨⟩, -, ⟨⟩, hgraph,
    written, hwr, refreshed, hrefr, heq⟩ := hrun
  cases heq
  obtain ⟨hid, hdel⟩ := replaced_cases hitem
  have hact' : (item.marked (hasActiveChildren id state.items)).isActive = true := by
    rw [Item.isActive, Item.marked, hdel]
    exact hact
  have hpld := h.place hwr hact' (hid.trans (h.keyed hlook)) hgraph hpar h.not_isActiveChild rfl
  rw [hlook] at hpld
  unfold refreshMoved at hrefr
  split_ifs at hrefr with hmoved
  · refine ((hpld.weaken fun j hj => ?_).refreshParents hrefr).congr rfl rfl
    by_contra hoth
    rw [mem_pair, not_or] at hoth
    refine hj (iff_of_false ?_ ?_)
    · rintro ⟨_, ⟨⟩, hp, -⟩
      exact hoth.2 hp.symm
    · rintro ⟨_, ⟨⟩, hp, -⟩
      exact hoth.1 hp.symm
  · cases hrefr
    rw [not_or, not_not, not_not] at hmoved
    refine (hpld.weaken fun j hj => hj ?_).congr rfl rfl
    constructor
    · rintro ⟨_, ⟨⟩, hp, -⟩
      exact ⟨current, rfl, hmoved.1.trans hp, hact⟩
    · rintro ⟨_, ⟨⟩, hp, -⟩
      exact ⟨_, rfl, hmoved.1.symm.trans hp, hact'⟩

lemma restored_cases (h : current.restored now = .ok item) :
    item.id = current.id ∧ item.deletedAt = none := by
  obtain ⟨revision, -, h⟩ := bind_eq_ok.mp h
  cases h
  exact ⟨rfl, rfl⟩

lemma IsIntact.restoreMemory (h : IsSound state)
    (hrun : restoreMemory env state id expectedRevision now context = .ok (next, mutation)) :
    IsSound next := by
  refine h.answerOnce (fun state h hrun => ?_) hrun
  simp only [ite_error_eq_ok, bind_eq_ok, mapError_eq_ok, okOr_eq_ok,
    Option.filter_eq_some_iff] at hrun
  obtain ⟨current, ⟨hlook, hinactive⟩, ⟨⟩, -, -, item, hitem, ⟨⟩, hpar, ⟨⟩, -, ⟨⟩, hgraph,
    written, hwr, refreshed, hrefr, heq⟩ := hrun
  cases heq
  obtain ⟨hid, hrestored⟩ := restored_cases hitem
  have hact' : (item.marked (hasActiveChildren id state.items)).isActive = true := by
    rw [Item.isActive, Item.marked, hrestored]
    rfl
  have hpld := h.place hwr hact' (hid.trans (h.keyed hlook)) hgraph hpar h.not_isActiveChild rfl
  refine ((hpld.weaken fun j hj => ?_).refreshParents hrefr).congr rfl rfl
  by_contra hoth
  rw [hlook] at hj
  refine hj (iff_of_false ?_ ?_)
  · rintro ⟨_, ⟨⟩, hp, -⟩
    exact hoth (mem_singleton.mpr hp.symm)
  · rintro ⟨_, ⟨⟩, -, hact⟩
    rw [hact] at hinactive
    cases hinactive

lemma trashed_cases (h : current.trashed now = .ok item) : current.Thins item ∧
    item.deletedAt = some now.truncateToPostgresTimestampPrecision ∧ item.isExecutable = false := by
  obtain ⟨revision, -, h⟩ := bind_eq_ok.mp h
  cases h
  exact ⟨⟨rfl, rfl, rfl, rfl, rfl, rfl, nofun⟩, rfl, rfl⟩

lemma IsIntact.trashMemory (h : IsSound state)
    (hrun : trashMemory env state id expectedRevision now context = .ok (next, mutation)) :
    IsSound next := by
  refine h.answerOnce (fun state h hrun => ?_) hrun
  simp only [ite_error_eq_ok, bind_eq_ok, mapError_eq_ok, okOr_eq_ok, activeItem_eq_some] at hrun
  obtain ⟨current, ⟨hlook, hact⟩, ⟨⟩, -, hchn, item, hitem, deletedAt, hdeletedAt, written,
    hwr, refreshed, hrefr, heq⟩ := hrun
  cases heq
  obtain ⟨hth, hdel, hexec⟩ := trashed_cases hitem
  cases hdel.symm.trans hdeletedAt
  have hid : item.id = id := hth.id.trans (h.keyed hlook)
  have hinactive : item.isActive = false := by rw [Item.isActive, hdel, Option.isNone_some]
  have hchg : item.change = .tombstone ⟨id, item.revision,
      now.truncateToPostgresTimestampPrecision, item.parentId⟩ := by
    rw [Item.change, hdel, hid]
  rw [← hchg] at hwr
  have hwritten : IsIntact (fun j => some j ∈ [item.parentId]) written := by
    have hths : Thins _ _ := rel_insert (fun item => (Item.SamePlace.refl item).toThins) hlook hth
    refine h.write hwr hid (validateDependencyGraph_of_thins hths h.keyed h.graph)
      (fun p hitem _ => ?_) (.inr (Bool.not_eq_true _ ▸ hchn)) (fun _ => ?_)
      fun j _ hoth => ⟨not_false, iff_of_false ?_ ?_⟩
    · rw [hinactive] at hitem
      cases hitem
    · rw [hexec, Item.executionIsAllowed, hdel]
      rfl
    · rintro ⟨_, ⟨⟩, -, hitem⟩
      rw [hinactive] at hitem
      cases hitem
    · rintro ⟨found, hfnd, hp, -⟩
      cases hlook.symm.trans hfnd
      exact hoth (mem_singleton.mpr (hth.parentId.trans hp).symm)
  exact (hwritten.refreshParents hrefr).congr rfl rfl

end

/-! ### Completion -/

section

variable {digest : CompletionDigest} {items : List Item} {states : List ItemCompletionState}
  {execution : ItemCompletionExecutionEvidence} {command : Option (Uuid × ItemCompletionCommand)}
  {plan : ItemCompletionPlan} {effect : ItemCompletionEffect} {prepared : Item} {hash : String}

lemma samePlace_applyTo (openState : ItemCompletionReopenState) (item : Item) :
    item.SamePlace (openState.applyTo item) :=
  ⟨⟨rfl, rfl, rfl, rfl, rfl, rfl, fun h => h⟩, fun h => h⟩

lemma samePlace_itemAfter {requested : ItemCompletionState} {decision : HierarchyCompletionDecision}
    (h : itemAfter prepared requested decision now = .ok item) : prepared.SamePlace item := by
  unfold itemAfter at h
  split_ifs at h
  · cases h
    exact ⟨⟨rfl, rfl, rfl, rfl, rfl, rfl, fun h => h⟩, fun h => h⟩
  · split at h
    · cases h
    · split_ifs at h
      cases h
      exact samePlace_applyTo _ prepared
  · cases h
    exact .refl item

lemma samePlace_prepareCommand {parents : List Uuid}
    {command : ItemCompletionCommand} {state state' : ItemCompletionState}
    (h : prepareCommand parents hash id command item state = .ok (prepared, state')) :
    item.SamePlace prepared := by
  unfold prepareCommand at h
  iterate 4 (split at h; cases h)
  split at h
  · cases h
    exact .refl item
  · split at h
    · cases h
    · cases h
      exact samePlace_applyTo _ item

/-- A command leaves its target where it is. -/
lemma samePlace_prepared {forest ready : IndexedCompletionForest}
    (hixd : IsIndexed items states forest)
    (h : prepareForest (items.filterMap Item.parentId) hash forest command = .ok ready)
    (hitem : item ∈ items) : item.SamePlace (ready.1.getD item.id item) := by
  have hfnd : forest.1[item.id]? = some item := by
    rw [hixd.items_eq, Keyed.getElem?_byKey hixd.nodup]
    exact ⟨hitem, rfl⟩
  cases command with
  | none =>
    cases h
    rw [ExtTreeMap.getD_eq_getD_getElem?, hfnd]
    exact .refl item
  | some target =>
    simp only [prepareForest, bind_eq_ok, okOr_eq_ok] at h
    obtain ⟨⟨⟩, -, stored, hstored, state, -, ⟨changed, state'⟩, hchgd, heq⟩ := h
    cases heq
    rw [ExtTreeMap.getD_eq_getD_getElem?, ExtTreeMap.getElem?_insert]
    split_ifs with heq
    · rw [LawfulEqOrd.compare_eq_iff_eq] at heq
      rw [heq] at hstored
      cases hfnd.symm.trans hstored
      exact samePlace_prepareCommand hchgd
    · rw [hfnd]
      exact .refl item

/-- **An effect** leaves its item where it is and marks it as it is. -/
lemma samePlace_of_mem_effects
    (h : planItemCompletion digest items states execution command now = .ok plan)
    (heff : effect ∈ plan.effects) : ∃ item ∈ items, item.SamePlace effect.afterItem ∧
      effect.afterItem.isExecutable =
        effect.afterItem.executionIsAllowed (isParentIn items item.id) := by
  obtain ⟨hash, forest, ready, nodes, evaluation, effects, hixd, hrdy, -, -, heffs,
    hplan⟩ := plan_cases h
  rw [hplan, reduceOption_mem_iff] at heff
  obtain ⟨item, hitem, hpln⟩ := Except.exists_of_mem_mapM heffs heff
  have hit' := (Keyed.mem_sorted hixd.nodup).mp hitem
  obtain ⟨provenance, after, -, haft, ⟨hnone, -⟩ | ⟨itemRevision, stateRevision, -, -, -, heq⟩⟩ :=
    planItem_cases hpln
  · cases hnone
  · cases heq
    have hsame := (samePlace_prepared hixd hrdy hit').trans (samePlace_itemAfter haft)
    exact ⟨item, hit', hsame.trans ⟨⟨rfl, rfl, rfl, rfl, rfl, rfl, fun h => h⟩, fun h => h⟩, rfl⟩

/-- The items with children, in both ways of counting them. -/
lemma isParentIn_eq {items : ItemsById} :
    isParentIn ((itemList items).filter Item.isActive) id = hasActiveChildren id items := by
  rw [Bool.eq_iff_iff, isParentIn, decide_eq_true_eq, mem_filterMap, hasActiveChildren_iff]
  simp only [mem_filter, mem_itemList]
  constructor
  · rintro ⟨item, ⟨⟨j, hj⟩, hact⟩, hp⟩
    exact ⟨j, item, hj, hp, hact⟩
  · rintro ⟨j, item, hj, hp, hact⟩
    exact ⟨item, ⟨⟨j, hj⟩, hact⟩, hp⟩

/-- An effect that fits the stored items. -/
structure ItemCompletionEffect.Fits (effect : ItemCompletionEffect) (items : ItemsById) : Prop where
  exists_current : ∃ current, items[effect.afterItem.id]? = some current ∧
    current.isActive = true ∧ current.SamePlace effect.afterItem
  executable : effect.afterItem.isExecutable =
    effect.afterItem.executionIsAllowed (hasActiveChildren effect.afterItem.id items)

lemma ItemCompletionEffect.Fits.of_samePlaces {items items' : ItemsById} (h : effect.Fits items)
    (hpls : SamePlaces items items') : effect.Fits items' where
  exists_current := by
    obtain ⟨current, hcur, hact, hsame⟩ := h.exists_current
    obtain ⟨current', hcurrent', hsame'⟩ := hpls.exists hcur
    exact ⟨current', hcurrent', hsame'.still_active hact, hsame'.symm.trans hsame⟩
  executable := by rw [hpls.hasActiveChildren_eq, h.executable]

lemma IsIntact.fits (h : IsIntact stale state) {execution : ExecutionSnapshot}
    (hplan : completionMemoryPlan services state execution command now = .ok plan)
    (heff : effect ∈ plan.effects) : effect.Fits state.items := by
  obtain ⟨item, hitem, hsame, hexec⟩ := samePlace_of_mem_effects hplan heff
  obtain ⟨hmem, hact⟩ := mem_filter.mp hitem
  rw [isParentIn_eq, ← hsame.id] at hexec
  refine ⟨⟨item, ?_, hact, hsame⟩, hexec⟩
  rw [hsame.id]
  exact h.keyed.mem_itemList.mp hmem

/-- **The changes of completion** keep a repository sound. -/
lemma IsIntact.applyCompletionMemory {groupIds : ℕ → Uuid} (h : IsSound state)
    (hfits : ∀ effect ∈ plan.effects, effect.Fits state.items)
    (hrun : applyCompletionMemory services groupIds state plan = .ok next) : IsSound next := by
  obtain ⟨result, hfold, heq⟩ := bind_eq_ok.mp hrun
  clear hrun
  cases heq
  generalize plan.effects = effects at hfits hfold
  generalize ({} : GroupFill) = fill at hfold
  induction effects generalizing state fill with
  | nil =>
    cases hfold
    exact h
  | cons effect rest ih =>
    simp only [foldlM_cons, applyEffect, bind_eq_ok, ite_error_eq_ok, mapError_eq_ok] at hfold
    obtain ⟨_, ⟨-, size, -, -, written, hwr, heq⟩, hfold⟩ := hfold
    cases heq
    have hfit := hfits effect mem_cons_self
    obtain ⟨current, hcur, hact, hsame⟩ := hfit.exists_current
    have h' : IsSound { state with
        completionStates := state.completionStates.insert effect.afterState.itemId
          effect.afterState } := h.congr rfl rfl
    obtain ⟨hintact, hpls⟩ := h'.change hcur hact hsame hfit.executable hwr
    refine ih ?_ ?_ _ hfold
    · exact (hintact.weaken fun _ hj => hj.1).congr rfl rfl
    · exact fun e he => (hfits e (mem_cons_of_mem _ he)).of_samePlaces hpls

end

/-! ### Runs -/

section

lemma IsIntact.mutateWithCompletion
    {mutation : MemoryState → ExecutionSnapshot →
      Except ItemRepositoryError (MemoryState × ItemMutation)} (h : IsSound state)
    (hmutation : ∀ state execution next result, IsSound state →
      mutation state execution = .ok (next, result) → IsSound next) :
    IsSound (mutateWithCompletion services env state context mutation).1 := by
  unfold Server.mutateWithCompletion
  split
  · rename_i state' answer hreplay
    exact h.replay hreplay
  · rename_i state' hreplay
    have h' := h.replay hreplay
    dsimp only
    split
    · rename_i next result hout
      obtain ⟨execution, -, hout⟩ := bind_eq_ok.mp hout
      obtain ⟨⟨mutated, result'⟩, hmutated, hout⟩ := bind_eq_ok.mp hout
      split_ifs at hout with hreplayed
      · cases hout
        exact h'
      · simp only [bind_eq_ok, mapError_eq_ok] at hout
        obtain ⟨plan, hplan, applied, happlied, heq⟩ := hout
        cases heq
        have hmutated' := hmutation _ _ _ _ h' hmutated
        exact hmutated'.applyCompletionMemory (fun effect he => hmutated'.fits hplan he) happlied
    · exact h'

lemma IsIntact.putCompletion {itemId : Uuid} {command : ItemCompletionCommand} (h : IsSound state) :
    IsSound (state.putCompletion services env itemId command now).1 := by
  unfold MemoryState.putCompletion
  split
  · split_ifs <;> exact h
  · dsimp only
    split
    · rename_i next result hout
      simp only [bind_eq_ok] at hout
      obtain ⟨⟨⟩, -, execution, -, plan, hplan, applied, happlied, settled, -, completion, -,
        heq⟩ := hout
      cases heq
      exact (h.applyCompletionMemory (fun effect he => h.fits hplan he) happlied).congr rfl rfl
    · exact h

/-- **One request** keeps a repository sound. -/
lemma IsIntact.handle (h : IsSound state) (request : ItemRequest × DateTime × Surroundings) :
    IsSound (state.handle services request) := by
  obtain ⟨request, now, env⟩ := request
  cases request with
  | create id input context =>
    rw [MemoryState.handle]
    cases hnew : Item.new services.rules id input now with
    | error _ => exact h
    | ok item =>
      obtain ⟨⟨fields, hasOwnEffort⟩, -, hitem⟩ := bind_eq_ok.mp hnew
      refine h.mutateWithCompletion fun state execution next result h hrun => ?_
      obtain ⟨⟨⟩, -, hrun⟩ := bind_eq_ok.mp hrun
      exact h.createMemory (by cases hitem; rfl) hrun
  | replace id expectedRevision replacement context =>
    refine h.mutateWithCompletion fun state execution next result h hrun => ?_
    simp only [bind_eq_ok] at hrun
    obtain ⟨current, -, ⟨⟩, -, ⟨⟩, -, hrun⟩ := hrun
    exact h.replaceMemory hrun
  | trash id expectedRevision context =>
    refine h.mutateWithCompletion fun state execution next result h hrun => ?_
    obtain ⟨⟨⟩, -, hrun⟩ := bind_eq_ok.mp hrun
    exact h.trashMemory hrun
  | restore id expectedRevision context =>
    refine h.mutateWithCompletion fun state execution next result h hrun => ?_
    simp only [bind_eq_ok] at hrun
    obtain ⟨current, -, ⟨⟩, -, ⟨⟩, -, hrun⟩ := hrun
    exact h.restoreMemory hrun
  | putCompletion itemId command => exact h.putCompletion

lemma isSound_empty : IsSound {} where
  keyed _ _ h := by simp at h
  numbered := by constructor <;> simp
  replica_eq := by
    refine ExtTreeMap.ext_getElem? fun {id} => ?_
    simp [replica]
  parent_active _ _ _ h := by simp at h
  graph := by decide +kernel
  executable _ _ h := by simp at h

/-- **Every run** keeps a repository sound. -/
lemma isSound_after (requests : List (ItemRequest × DateTime × Surroundings)) :
    IsSound (after services requests) :=
  List.foldlRecOn requests (MemoryState.handle services) isSound_empty
    fun _ h request _ => h.handle request

/-- **Replicas converge and the forest stays whole.** In every repository that requests lead
to, the last changes of the log are exactly the stored items and tombstones; the parent of an
item that is not deleted is not deleted, and no item is above itself; the dependency graph is
accepted; and every item is marked as executable exactly if it is. -/
theorem repository_integrity (services : Services)
    (requests : List (ItemRequest × DateTime × Surroundings)) : let state := after services requests
    replica state.changes = (state.items.map fun _ item => item.change) ∧
      (∀ (id parentId : Uuid) (item : Item), state.items[id]? = some item →
        item.deletedAt = none → item.parentId = some parentId →
        ∃ parent, state.items[parentId]? = some parent ∧ parent.deletedAt = none) ∧
      Acyclic (ParentOf state.items) ∧
      validateDependencyGraph state.items = .ok () ∧
      ∀ (id : Uuid) (item : Item), state.items[id]? = some item →
        item.isExecutable = item.executionIsAllowed (hasActiveChildren id state.items) := by
  have h : IsSound (after services requests) := isSound_after requests
  refine ⟨h.replica_eq, fun id parentId item hitem hact hp => ?_, ?_, h.graph,
    fun id item hitem => h.executable hitem not_false⟩
  · obtain ⟨parent, hpar⟩ := h.parent_active hitem (Option.isNone_iff_eq_none.mpr hact) hp
    obtain ⟨hlook, hparAct⟩ := activeItem_eq_some.mp hpar
    exact ⟨parent, hlook, Option.isNone_iff_eq_none.mp hparAct⟩
  · obtain ⟨owners, edges, hown, -⟩ := (validateDependencyGraph_eq_ok h.keyed).mp h.graph
    exact acyclic_parentOf hown

/-- **A replica that reads the log holds what is stored.** The log that requests lead to is
numbered. If its groups and rows keep their bounds, then with any limits that leave room for a
group all its pages can be read, and the last changes on them are exactly the stored items and
tombstones. -/
theorem replica_of_pages (requests : List (ItemRequest × DateTime × Surroundings))
    {limits : ℕ → ℕ}
    (hlimits : ∀ k, 1 ≤ limits k ∧ limits k + maxItemChangeGroupSize ≤ usizeMax) :
    let state := after services requests
    state.IsNumbered ∧ (state.KeepsBounds services.payloadSize → ∃ pages,
      state.readPages services.payloadSize limits (state.changes.length + 1) 0 0 = .ok pages ∧
      (pages.flatMap ItemDeltaPage.changes).foldl
        (fun known change => known.insert change.id change)
        ∅ = state.items.map fun _ item => item.change) := by
  intro state
  have hsnd : IsSound state := isSound_after requests
  refine ⟨hsnd.numbered, fun hbounds => ?_⟩
  have h : state.IsDeliverable services.payloadSize := ⟨hsnd.numbered, hbounds⟩
  have hat : state.CursorAt 0 [] state.changes :=
    ⟨rfl, by simp, h.positive, Groups.Cut.nil_left, UInt64.zero_le⟩
  obtain ⟨pages, chunks, hpages, hmap, hflat, -⟩ :=
    readPages_ok h hlimits (k := 0) hat (Nat.lt_succ_self _)
  refine ⟨pages, hpages, ?_⟩
  rw [← hsnd.replica_eq, replica, flatMap_def, hmap, ← map_flatten, hflat, foldl_map]

end

end

namespace Sample

/-- Everything is accepted and fits. -/
def services : Services where
  rules := ⟨fun input _ _ _ => .ok (input, false)⟩
  digest := ⟨fun _ _ => .ok (), fun _ _ _ => .ok "sha256:0"⟩
  payloadSize _ := some 100

/-- Nobody works on anything. Every request has a group of its own. -/
def surroundings (group : ℕ) : Surroundings :=
  ⟨.atSecond 0, some ⟨0, none⟩, Uuid.ofNat group, fun n => Uuid.ofNat (1000 * group + n)⟩

def contextFor (operation : String) (id : ℕ) : IdempotencyContext :=
  ⟨⟨operation, toString id⟩, .replicate 32 0, .atSecond 60⟩

def createTask (group id : ℕ) (parent : Option ℕ) : ItemRequest × DateTime × Surroundings :=
  (.create (Uuid.ofNat id)
    ⟨.task, .planned, details, none, {}, none, parent.map Uuid.ofNat, 0, none, none, none⟩
    (contextFor "items.create" id), .atSecond 0, surroundings group)

/-- A task with two tasks below it, the first of which is deleted. -/
def familyRequests : List (ItemRequest × DateTime × Surroundings) :=
  [createTask 100 1 none, createTask 101 2 (some 1), createTask 102 3 (some 1),
    (.trash (Uuid.ofNat 2) 1 (contextFor "items.trash" 2), .atSecond 1, surroundings 103)]

/-- The items on the pages, if one row is asked for at a time. -/
def familyPages : List (List Uuid) := [[1], [2, 1], [3, 1], [2, 1]].map (map Uuid.ofNat)

end Sample

open Server.Sample (familyPages familyRequests)

/-- A replica that is asked for one row at a time reads four pages, among them a tombstone. -/
theorem replica_of_pages_family : ∃ pages,
    (after Sample.services familyRequests).readPages Sample.services.payloadSize
      (fun _ => 1) 8 0 0 = .ok pages ∧
    (pages.flatMap ItemDeltaPage.changes).foldl (fun known change => known.insert change.id change)
      ∅ = ((after Sample.services familyRequests).items.map fun _ item => item.change) ∧
    pages.map (fun page => page.changes.map DeltaChange.id) = familyPages := by
  obtain ⟨pages, hpages, hlast⟩ := (@replica_of_pages Sample.services familyRequests
    (fun _ => 1) (fun _ => by decide)).2 {
      contiguous := by decide +kernel
      group_size _ := count_le_length.trans (by decide +kernel)
      group_bytes _ := (Sublist.sum_le_sum (filter_sublist.map _) fun _ _ => Nat.zero_le _).trans
        (by decide +kernel)
      row_bytes _ _ := ⟨100, rfl, by decide⟩ }
  have hlen : (after Sample.services familyRequests).changes.length + 1 = 8 := by
    decide +kernel
  rw [hlen] at hpages
  obtain ⟨read, hok, hids⟩ : ∃ pages, (after Sample.services familyRequests).readPages
      Sample.services.payloadSize (fun _ => 1) 8 0 0 = .ok pages ∧
      pages.map (fun page => page.changes.map DeltaChange.id) = familyPages := by
    decide +kernel
  cases hpages.symm.trans hok
  exact ⟨pages, hpages, hlast, hids⟩

end DayWeave.Server
