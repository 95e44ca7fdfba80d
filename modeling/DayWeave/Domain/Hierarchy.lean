import DayWeave.Lib.Keyed
import DayWeave.Lib.Loop
import DayWeave.Domain.Request

/-!
The work tree: lookup by identifier, the children of every item, and the roll-up of expected
durations, which is also the check that the tree is a forest.

An item is reduced into its parent when the totals of all its children have reached it. Items on
a cycle never become ready and are reported.
-/

open Std

namespace DayWeave

/-- Items by identifier. -/
abbrev WorkMap := ExtTreeMap ItemId WorkItem

abbrev ChildMap := ExtTreeMap ItemId (List ItemId)

abbrev EdgeMap := ExtTreeMap ItemId (List Dependency)

/-- The items by identifier; of two items with the same identifier the later one
counts. -/
def itemsById (items : List WorkItem) : WorkMap :=
  ExtTreeMap.ofList (items.map fun item => (item.id, item))

variable {items : List WorkItem} {id : ItemId} {item : WorkItem}

lemma mem_of_getElem?_itemsById
    (h : (itemsById items)[id]? = some item) : item ∈ items ∧ item.id = id := by
  obtain ⟨found, hfnd, heq⟩ := List.mem_map.mp (ExtTreeMap.mem_of_getElem?_ofList h)
  cases heq
  exact ⟨hfnd, rfl⟩

lemma getElem?_itemsById (hnd : (items.map WorkItem.id).Nodup) (h : item ∈ items) :
    (itemsById items)[item.id]? = some item := by
  refine ExtTreeMap.getElem?_ofList_of_nodup ?_ (List.mem_map.mpr ⟨item, h, rfl⟩)
  rwa [List.map_map]

lemma getElem?_itemsById_eq_none :
    (itemsById items)[id]? = none ↔ ∀ item ∈ items, item.id ≠ id := by
  rw [itemsById, ExtTreeMap.getElem?_ofList_eq_none]
  simp

/-- Files an item under its parent. -/
def addChild (result : ChildMap) (item : WorkItem) :
    ChildMap :=
  match item.parentId with
  | none => result
  | some parent => result.insert parent (result.getD parent [] ++ [item.id])

/-- The children of every item that has some, by ascending identifier. -/
def childMap (items : List WorkItem) : ChildMap :=
  (items.foldl addChild ∅).map fun _ children => sortBy compare children

def hasChildren (children : ChildMap) (id : ItemId) : Bool :=
  (children[id]?).any fun value => !value.isEmpty

inductive HierarchyError where
  | duplicateItem (id : ItemId)
  | missingParent (item parent : ItemId)
  | cycle (id : ItemId)
deriving DecidableEq

namespace HierarchyError

def toText : HierarchyError → String
  | duplicateItem id => "duplicate item id " ++ id.toText
  | missingParent item parent =>
    "item " ++ item.toText ++ " references missing parent " ++ parent.toText
  | cycle id => "hierarchy cycle includes item " ++ id.toText

end HierarchyError

/-- The first element that is seen for the second time. -/
def firstDuplicate {α : Type} [DecidableEq α] (seen : Finset α) : List α → Option α
  | [] => none
  | a :: rest => if a ∈ seen then some a else firstDuplicate (insert a seen) rest

variable {α : Type} {l : List α}

lemma firstDuplicate_eq_none [DecidableEq α] {seen : Finset α} :
    firstDuplicate seen l = none ↔ l.Nodup ∧ ∀ a ∈ l, a ∉ seen := by
  have hcheck := @Keyed.check_iff α α _ id (fun _ => True)
    (fun seen l => firstDuplicate seen l = none) (fun _ => rfl)
    (by simp [firstDuplicate, ite_eq_iff]) l seen
  simpa using hcheck

lemma nodup_of_firstDuplicate [DecidableEq α]
    (h : firstDuplicate ∅ l = none) : l.Nodup := (firstDuplicate_eq_none.mp h).1

namespace RollUp

/-- The state of the reduction: the number of children whose totals are still
missing, the stack of items ready to be added to their parents, and the totals. -/
structure State where
  remainingChildren : ExtTreeMap ItemId ℕ
  ready : List ItemId
  result : ExtTreeMap ItemId Minutes

variable (byId : WorkMap) (counts : ExtTreeMap ItemId ℕ)

/-- The number of children of every item; a missing parent is an error. -/
def countChildren (items : List WorkItem) : Except HierarchyError (ExtTreeMap ItemId ℕ) :=
  items.foldlM (fun counts item =>
    match item.parentId with
    | none => .ok counts
    | some parent =>
      if byId.contains parent then .ok (counts.insert parent (counts.getD parent 0 + 1))
      else .error (.missingParent item.id parent))
    (ExtTreeMap.ofList (byId.keys.map fun id => (id, 0)))

/-- The minutes an item contributes by itself. -/
def ownMinutes (item : WorkItem) : Minutes :=
  if item.occupiesTime (counts.getD item.id 0 != 0) then item.planningMinutes else 0

/-- The leaves are ready, the last one on top of the stack. -/
def start : State where
  remainingChildren := counts
  ready := (byId.keys.filter fun id => counts.getD id 0 == 0).reverse
  result := ExtTreeMap.ofList (byId.toList.map fun entry => (entry.1, ownMinutes counts entry.2))

/-- One item leaves the stack and its total is added to its parent's. -/
def step (s : State) : Option State :=
  match s.ready with
  | [] => none
  | id :: rest =>
    let pending := s.remainingChildren.erase id
    match (byId[id]?).bind WorkItem.parentId with
    | none => some { s with remainingChildren := pending, ready := rest }
    | some parent =>
      let total := (s.result.getD parent 0).satAdd (s.result.getD id 0)
      let result := s.result.insert parent total
      match pending[parent]? with
      | none => some ⟨pending, rest, result⟩
      | some count =>
        some ⟨pending.insert parent (count - 1),
          if count - 1 = 0 then parent :: rest else rest, result⟩

end RollUp

/-- The expected duration of every item, its descendants included. -/
def rollUpExpectedDurations (items : List WorkItem) :
    Except HierarchyError (ExtTreeMap ItemId Minutes) :=
  let byId := itemsById items
  match firstDuplicate ∅ (items.map WorkItem.id) with
  | some duplicate => .error (.duplicateItem duplicate)
  | none =>
    match RollUp.countChildren byId items with
    | .error error => .error error
    | .ok counts =>
      let final := Loop.run (RollUp.step byId) items.length (RollUp.start byId counts)
      match final.remainingChildren.keys.head? with
      | some id => .error (.cycle id)
      | none => .ok final.result

end DayWeave
