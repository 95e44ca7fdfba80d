import DayWeave.Lib.Kahn
import DayWeave.Scheduler.State

/-!
Dependency edges: which instants an edge compares, the edges that ordered routines add between
siblings, and the order in which items are placed.

Hard edges are kept by a topological order; items on a cycle of hard edges are never placed. Soft
edges only choose among the ready items, and are kept if they close no cycle
(`dependencyOrder_exact`).
-/

open List Std Relation

namespace DayWeave

/-- Whether the edge reads the start of the predecessor. -/
def dependencyUsesPredecessorStart : DependencyRelation → Bool
  | .startToStart | .startToFinish => true
  | _ => false

/-- Whether the edge reads the end of the successor. -/
def dependencyUsesSuccessorFinish : DependencyRelation → Bool
  | .finishToFinish | .startToFinish => true
  | _ => false

variable (unscheduled : List UnscheduledWork) (blocks : List ScheduleBlock) (items : WorkMap)
  (dependency : Dependency)

/-- The observed and the required instant of an edge, unless the required one cannot
be represented. -/
def dependencyBoundary (successor predecessor : Span) : Option (OffsetDateTime × OffsetDateTime) :=
  let observed :=
    if dependencyUsesSuccessorFinish dependency.relation then successor.finish
    else successor.start
  let reached :=
    if dependencyUsesPredecessorStart dependency.relation then predecessor.start
    else predecessor.finish
  (reached.checkedAdd dependency.minimumLag.toDuration).map fun required => (observed, required)

variable (eligible : List ItemId) (dependencies : EdgeMap) (id : ItemId)

def blocksOf : List ScheduleBlock :=
  blocks.filter fun block => block.itemId = some id

/-- The stretch from the first start to the last end of some blocks. -/
def boundsOf : Option Span :=
  HalfOpen.hull (blocks.map ScheduleBlock.interval)

/-- The bounds of a predecessor: those of its blocks, or the source time of an event
that has none in the plan. -/
def dependencyPredecessorBounds (predecessor : Option WorkItem) (blocks : List ScheduleBlock) :
    Option Span :=
  (boundsOf blocks).or (match predecessor.map WorkItem.kind with
     | some (.calendarEvent event) => some ⟨event.start, event.finish⟩
     | _ => none)

/-- Whether minutes of an item are reported as unscheduled. -/
def hasRemainingWork : Bool :=
  unscheduled.any fun work => work.itemId = id && !work.remaining.isZero

/-- The bounds of a predecessor that an edge can use: work that remains has no end. -/
def usableBounds : Option Span :=
  if hasRemainingWork unscheduled dependency.itemId &&
      !dependencyUsesPredecessorStart dependency.relation then none
  else dependencyPredecessorBounds items[dependency.itemId]? (blocksOf blocks dependency.itemId)

/-- The bounds of a predecessor in a finished run; work that is terminal or blocked has
none. -/
def finalBounds : Option Span :=
  if (items[dependency.itemId]?).any fun item =>
      item.status.isTerminal || decide (item.status = .blocked) then none
  else usableBounds unscheduled blocks items dependency

/-- The edge from a sibling to the one before it. -/
def siblingEdge (predecessor : ItemId) : Dependency where
  itemId := predecessor
  relation := .finishToStart
  minimumLag := 0
  strength := .hard

def addSiblingEdge (result : EdgeMap) (pair : ItemId × ItemId) :
    EdgeMap :=
  result.insert pair.2 (result.getD pair.2 [] ++ [siblingEdge pair.1])

/-- The children of an item by sibling order, those without one last. -/
def orderedChildren (byId : WorkMap) (children : ChildMap) (parent : ItemId) : List ItemId :=
  sortBy (compareLex (compareOn fun id => ((byId[id]?).bind WorkItem.siblingOrder).getD 4294967295)
    (compareOn fun id => id)) (children.getD parent [])

/-- Adds the edges between the children of one item, if it is an ordered routine. -/
def addRoutineEdges (byId : WorkMap) (children : ChildMap) (result : EdgeMap)
    (parent : WorkItem) : EdgeMap :=
  match parent.kind with
  | .routine spec =>
    if spec.ordered then
      let ordered := orderedChildren byId children parent.id
      (ordered.zip ordered.tail).foldl addSiblingEdge result
    else result
  | _ => result

/-- Edges by predecessor, relation and lag, without repetitions. -/
def normalizeDependencies (dependencies : List Dependency) : List Dependency :=
  dedupBy (fun a b => a == b) (sortBy (compareLex (compareOn Dependency.itemId)
      (compareLex (compareOn fun d => d.relation.rank) (compareOn Dependency.minimumLag)))
      dependencies)

/-- The edges of every item, explicit ones and those of ordered routines. -/
def dependenciesWithRoutineOrder (items : List WorkItem) (children : ChildMap) : EdgeMap :=
  let explicit : EdgeMap :=
    ExtTreeMap.ofList (items.map fun item => (item.id, item.constraints.dependencies))
  (items.foldl (addRoutineEdges (itemsById items) children) explicit).map
    fun _ dependencies => normalizeDependencies dependencies

/-- Items with a hard deadline first, then those with a soft one, the nearest first. -/
def deadlineOrder (left right : WorkItem) : Ordering :=
  match left.constraints.latestFinish, right.constraints.latestFinish with
  | some l, some r => (compare (!l.strength.isHard) (!r.strength.isHard)).then
    (compare l.value r.value)
  | some _, none => .lt
  | none, some _ => .gt
  | none, none => .eq

/-- The rank of an item by kind; goal work comes first. -/
def kindRank (item : WorkItem) : ℕ :=
  if item.goalIds ≠ ∅ then 0
  else
    match item.kind with
    | .habit _ | .routine _ | .recurringTask _ => 1
    | .break => 2
    | .task | .project | .goal => 3
    | .calendarEvent _ => 4

/-- The order of placement among ready items. -/
def scheduleOrder : WorkItem → WorkItem → Ordering :=
  compareLex deadlineOrder (compareLex (compareOn kindRank)
    (compareLex (fun left right => compare right.priority.score left.priority.score)
      (compareLex (compareOn WorkItem.createdAt) (compareOn WorkItem.id))))

/-- The order of placement, on identifiers. -/
def scheduleOrderOf (left right : ItemId) : Ordering :=
  match items[left]?, items[right]? with
  | some l, some r => scheduleOrder l r
  | _, _ => .eq

/-- The eligible predecessors of the hard edges of an item. -/
def hardPredecessors : List ItemId :=
  ((dependencies.getD id []).filter fun d =>
    d.strength.isHard && decide (d.itemId ∈ eligible)).map Dependency.itemId

/-- Whether no soft predecessor of the item is still waiting. -/
def softReady (remaining : Finset ItemId) (id : ItemId) : Bool :=
  (dependencies.getD id []).all fun d => d.strength.isHard || decide (d.itemId ∉ remaining)

/-- The first ready item without waiting soft predecessors is next, or the first ready
item if all of them wait. -/
def selectReady (remaining : Finset ItemId) (ready : List ItemId) : Option (ItemId × List ItemId) :=
  let sorted := sortBy (scheduleOrderOf items) ready
  let position := (sorted.findIdx? (softReady dependencies remaining)).getD 0
  (sorted[position]?).map fun id => (id, sorted.eraseIdx position)

/-- The eligible items in the order of placement, and those on cycles of hard edges. -/
def dependencyOrder (items : WorkMap) (dependencies : EdgeMap) : List ItemId × List ItemId :=
  let ordered := Kahn.order (selectReady items dependencies)
    (hardPredecessors eligible dependencies) eligible
  (ordered, eligible.filter fun id => id ∉ ordered)

lemma selects_selectReady (items : WorkMap) (dependencies : EdgeMap) :
    Kahn.Selects (selectReady items dependencies) where
  perm remaining ready choice h := by
    obtain ⟨id, hid, rfl⟩ := Option.map_eq_some_iff.mp h
    obtain ⟨hlt, rfl⟩ := List.getElem?_eq_some_iff.mp hid
    exact (getElem_cons_eraseIdx_perm hlt).trans (sortBy_perm _ ready)
  nil remaining ready h := by
    have hnone := Option.map_eq_none_iff.mp h
    by_contra hne
    cases hfind : (sortBy (scheduleOrderOf items) ready).findIdx?
        (softReady dependencies remaining) with
    | none =>
      rw [hfind] at hnone
      exact absurd hnone (by simpa using hne)
    | some i =>
      rw [hfind] at hnone
      have := (findIdx?_eq_some_iff_getElem.mp hfind).1
      simp at hnone this
      omega

section

variable {eligible : List ItemId} {items : WorkMap} {dependencies : EdgeMap} {id : ItemId}

lemma nodup_dependencyOrder (h : eligible.Nodup) :
    (dependencyOrder eligible items dependencies).1.Nodup :=
  (Kahn.order_spec h (selects_selectReady items dependencies)).1

lemma mem_eligible_of_mem_dependencyOrder (h : eligible.Nodup)
    (hid : id ∈ (dependencyOrder eligible items dependencies).1) : id ∈ eligible :=
  (Kahn.order_spec h (selects_selectReady items dependencies)).2.1 id hid

/-- An item is placed after its eligible hard predecessors. -/
lemma predecessor_mem_dependencyOrder (h : eligible.Nodup) {pre post : List ItemId}
    (hspl : (dependencyOrder eligible items dependencies).1 = pre ++ id :: post)
    {d : Dependency} (hd : d ∈ dependencies.getD id []) (hhard : d.strength.isHard)
    (helig : d.itemId ∈ eligible) : d.itemId ∈ pre := by
  refine (Kahn.order_spec h (selects_selectReady items dependencies)).2.2.1 pre id post hspl _ ?_
  exact mem_map_of_mem (mem_filter.mpr ⟨hd, by simp [hhard, helig]⟩)

lemma mem_hardPredecessors {p : ItemId} : p ∈ hardPredecessors eligible dependencies id ↔
      p ∈ eligible ∧ ∃ d ∈ dependencies.getD id [], d.strength.isHard ∧ d.itemId = p := by
  rw [hardPredecessors, mem_map]
  constructor
  · rintro ⟨d, hd, rfl⟩
    obtain ⟨hmem, hd⟩ := mem_filter.mp hd
    rw [Bool.and_eq_true, decide_eq_true_eq] at hd
    exact ⟨hd.2, d, hmem, hd.1, rfl⟩
  · rintro ⟨hp, d, hmem, hhard, rfl⟩
    exact ⟨d, mem_filter.mpr ⟨hmem, by rw [hhard, Bool.true_and]; exact decide_eq_true hp⟩, rfl⟩

def softPredecessors (dependencies : EdgeMap) (id : ItemId) : List ItemId :=
  ((dependencies.getD id []).filter fun d => !d.strength.isHard).map Dependency.itemId

lemma softReady_iff {remaining : Finset ItemId} : softReady dependencies remaining id = true ↔
      ∀ q ∈ softPredecessors dependencies id, q ∉ remaining := by
  simp only [softReady, softPredecessors, all_eq_true, forall_mem_map, mem_filter,
    Bool.or_eq_true, decide_eq_true_eq, Bool.not_eq_true', and_imp]
  refine forall₂_congr fun d _ => ?_
  cases d.strength.isHard <;> simp

lemma prefers_selectReady (items : WorkMap) (dependencies : EdgeMap) :
    Kahn.Prefers (selectReady items dependencies) (softPredecessors dependencies) := by
  rintro remaining ready choice h ⟨a, ha, hfree⟩
  obtain ⟨id, hid, rfl⟩ := Option.map_eq_some_iff.mp h
  cases hfind : (sortBy (scheduleOrderOf items) ready).findIdx?
      (softReady dependencies remaining) with
  | none =>
    have hnone := findIdx?_eq_none_iff.mp hfind a ((mem_sortBy _).mpr ha)
    rw [softReady_iff.mpr hfree] at hnone
    cases hnone
  | some i =>
    obtain ⟨hlt, hrdy, -⟩ := findIdx?_eq_some_iff_getElem.mp hfind
    rw [hfind, Option.getD_some, getElem?_eq_getElem hlt] at hid
    cases hid
    exact softReady_iff.mp hrdy

/-- One eligible item is the predecessor of a hard edge of another one. -/
def HardEdge (eligible : List ItemId) (dependencies : EdgeMap) (p id : ItemId) : Prop :=
  id ∈ eligible ∧ p ∈ eligible ∧ ∃ d ∈ dependencies.getD id [], d.strength.isHard ∧ d.itemId = p

/-- One eligible item is the predecessor of an edge of another one. -/
def AnyEdge (eligible : List ItemId) (dependencies : EdgeMap) (p id : ItemId) : Prop :=
  id ∈ eligible ∧ p ∈ eligible ∧ ∃ d ∈ dependencies.getD id [], d.itemId = p

/-- **The order of placement.** The ordered and the cyclic items are the eligible ones; hard
predecessors come first; the cyclic items are those on cycles of hard edges and after them; and
if there is no cycle of edges at all, soft predecessors come first too. -/
theorem dependencyOrder_exact (hnd : eligible.Nodup) (items : WorkMap) (dependencies : EdgeMap) :
    ((dependencyOrder eligible items dependencies).1 ++
        (dependencyOrder eligible items dependencies).2).Perm eligible ∧
      (∀ pre id post, (dependencyOrder eligible items dependencies).1 = pre ++ id :: post →
        ∀ d ∈ dependencies.getD id [], d.strength.isHard → d.itemId ∈ eligible → d.itemId ∈ pre) ∧
      (∀ id, id ∈ (dependencyOrder eligible items dependencies).2 ↔
        ∃ c, TransGen (HardEdge eligible dependencies) c c ∧
          ReflTransGen (HardEdge eligible dependencies) c id) ∧
      (Acyclic (AnyEdge eligible dependencies) →
        ∀ pre id post, (dependencyOrder eligible items dependencies).1 = pre ++ id :: post →
          ∀ d ∈ dependencies.getD id [], d.itemId ∈ eligible → d.itemId ∈ pre) := by
  have hselects := selects_selectReady items dependencies
  have hpreds : ∀ a ∈ eligible, ∀ p ∈ hardPredecessors eligible dependencies a, p ∈ eligible :=
    fun a _ p hp => (mem_hardPredecessors.mp hp).1
  have hedge : Kahn.Edge (hardPredecessors eligible dependencies) eligible =
      HardEdge eligible dependencies := by
    funext p a
    rw [Kahn.Edge, HardEdge, mem_hardPredecessors]
  refine ⟨?_, fun pre id post hspl d hd hhard helig =>
    predecessor_mem_dependencyOrder hnd hspl hd hhard helig, fun id => ?_, ?_⟩
  · -- the cyclic items are those that the order leaves out
    have hordd := @nodup_dependencyOrder eligible items dependencies hnd
    refine (perm_ext_iff_of_nodup (nodup_append'.mpr ⟨hordd, hnd.filter _, ?_⟩)
      hnd).mpr fun id => ?_
    · exact fun id hin hout => of_decide_eq_true (mem_filter.mp hout).2 hin
    · rw [mem_append, dependencyOrder, mem_filter, decide_eq_true_eq]
      constructor
      · rintro (hin | ⟨helig, -⟩)
        · exact mem_eligible_of_mem_dependencyOrder hnd hin
        · exact helig
      · intro helig
        exact (em _).imp_right fun hout => ⟨helig, hout⟩
  · rw [dependencyOrder, mem_filter, decide_eq_true_eq, ← hedge]
    constructor
    · rintro ⟨helig, hout⟩
      exact (Kahn.notMem_order_iff hnd hselects hpreds helig).mp hout
    · rintro ⟨c, hcyc, hreach⟩
      have helig : id ∈ eligible := by
        rcases reflTransGen_iff_eq_or_transGen.mp hreach with rfl | hreach
        · exact (TransGen.tail'_iff.mp hcyc).choose_spec.2.1
        · exact (TransGen.tail'_iff.mp hreach).choose_spec.2.1
      exact ⟨helig, (Kahn.notMem_order_iff hnd hselects hpreds helig).mpr ⟨c, hcyc, hreach⟩⟩
  · -- the selection prefers items whose soft predecessors are placed
    intro hacyc pre id post hspl d hd helig
    by_cases hhard : d.strength.isHard = true
    · exact predecessor_mem_dependencyOrder hnd hspl hd hhard helig
    · refine Kahn.order_keeps hnd hselects hpreds (prefers_selectReady items dependencies)
        (hacyc.mono ?_) hspl ?_ helig
      · rintro p a ⟨ha, hp, hedge | hedge⟩
        · obtain ⟨-, e, he, -, heq⟩ := mem_hardPredecessors.mp hedge
          exact ⟨ha, hp, e, he, heq⟩
        · obtain ⟨e, he, heq⟩ := mem_map.mp hedge
          exact ⟨ha, hp, e, mem_of_mem_filter he, heq⟩
      · exact mem_map_of_mem (mem_filter.mpr ⟨hd, by simpa using hhard⟩)

end

/-- Two items that wait for each other. -/
def Sample.cyclicEdges : EdgeMap :=
  ExtTreeMap.ofList [(ItemId.mk (Uuid.ofNat 1), [siblingEdge ⟨Uuid.ofNat 2⟩]),
    (⟨Uuid.ofNat 2⟩, [siblingEdge ⟨Uuid.ofNat 1⟩])]

theorem dependencyOrder_exact_cycle : (⟨Uuid.ofNat 1⟩ : ItemId) ∈
    (dependencyOrder [⟨Uuid.ofNat 1⟩, ⟨Uuid.ofNat 2⟩] ∅ Sample.cyclicEdges).2 := by
  refine ((dependencyOrder_exact (by decide) _ _).2.2.1 _).mpr
    ⟨⟨Uuid.ofNat 1⟩, .tail (.single (b := ⟨Uuid.ofNat 2⟩) ⟨by decide, by decide, ?_⟩)
      ⟨by decide, by decide, ?_⟩, .refl⟩
  · exact ⟨siblingEdge ⟨Uuid.ofNat 1⟩, by decide +kernel, rfl, rfl⟩
  · exact ⟨siblingEdge ⟨Uuid.ofNat 2⟩, by decide +kernel, rfl, rfl⟩

/-- Whether a hard edge cannot be kept because its predecessor is not there. -/
def hardDependencyUnavailable (dependencies : List Dependency)
    (items : WorkMap) (outcomes : ExtTreeMap ItemId Bool)
    (blocks : List ScheduleBlock) : Bool :=
  dependencies.any fun dependency =>
    dependency.strength.isHard &&
      match items[dependency.itemId]? with
      | none => true
      | some item =>
        if item.status.satisfiesPrerequisite then false
        else if item.status.isTerminal then true
        else if item.status = .blocked then true
        -- events are fixed predecessors; their blocks are compared at placement
        else if item.kind.isCalendarEvent then false
        else if dependencyUsesPredecessorStart dependency.relation ∧
            blocksOf blocks dependency.itemId ≠ [] then false
        else (outcomes[dependency.itemId]?).all fun success => !success

end DayWeave
