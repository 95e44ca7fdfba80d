import Mathlib.Algebra.BigOperators.Pi
import Mathlib.Algebra.GroupWithZero.Nat
import Mathlib.Algebra.Order.BigOperators.Group.Finset
import DayWeave.Completion.Hierarchy
import DayWeave.Lib.Keyed

/-!
The decisions of a forest as a system of equations.

What `evaluateHierarchyCompletion` finds does not depend on the order of its visits: it is a
solution of one equation for each node, which reads the decisions of the required children only
(`Evaluates`), and every solution is found (`evaluates_of_ok`, `Evaluates.exists_ok`).
-/

open List Std Relation

namespace DayWeave

open Except (bind_eq_ok ite_error_eq_ok)

/-! ### Counts as numbers -/

/-- What is counted about required descendants. -/
inductive CountCategory where
  | required
  | completed
  | incomplete
  | occurrenceEvidenceRequired

/-- The counts as numbers, by category. -/
def HierarchyCompletionCounts.tally (counts : HierarchyCompletionCounts) : CountCategory → ℕ
  | .required => counts.requiredDescendants.toNat
  | .completed => counts.completed.toNat
  | .incomplete => counts.incomplete.toNat
  | .occurrenceEvidenceRequired => counts.occurrenceEvidenceRequired.toNat

lemma HierarchyCompletionCounts.tally_injective :
    Function.Injective HierarchyCompletionCounts.tally := by
  rintro ⟨⟩ ⟨⟩ h
  simp only [mk.injEq, ← UInt64.toNat_inj]
  exact ⟨congrFun h .required, congrFun h .completed, congrFun h .incomplete,
    congrFun h .occurrenceEvidenceRequired⟩

namespace HierarchyCompletionDecision

variable (decision : HierarchyCompletionDecision)

/-- Whether a decided node counts in a category. -/
def inCategory : CountCategory → Bool
  | .required => true
  | .completed => !decision.occurrenceEvidenceRequired && decide (decision.status = .completed)
  | .incomplete => !decision.occurrenceEvidenceRequired && decide (decision.status ≠ .completed)
  | .occurrenceEvidenceRequired => decision.occurrenceEvidenceRequired

/-- The counts of a decided node itself. -/
def own (category : CountCategory) : ℕ :=
  if decision.inCategory category then 1 else 0

/-- The counts of the whole branch of a decided node. -/
def branch : CountCategory → ℕ :=
  decision.counts.tally + decision.own

end HierarchyCompletionDecision

/-- The largest total that is accepted. -/
def maxRequired : ℕ := 9223372036854775807

lemma checkedAdd64_eq_some {a b c : UInt64} :
    checkedAdd64 a b = some c ↔ c.toNat = a.toNat + b.toNat := by
  unfold checkedAdd64
  split_ifs with h
  · rw [Option.some.injEq, ← UInt64.toNat_inj, UInt64.toNat_add, Nat.mod_eq_of_lt h]
    exact eq_comm
  · refine iff_of_false nofun fun hsum => ?_
    have := c.toNat_lt
    simp only [UInt64.size] at h
    omega

lemma HierarchyCompletionCounts.tally_eq_iff {counts : HierarchyCompletionCounts}
    {t : CountCategory → ℕ} : counts.tally = t ↔
      counts.requiredDescendants.toNat = t .required ∧ counts.completed.toNat = t .completed ∧
      counts.incomplete.toNat = t .incomplete ∧
      counts.occurrenceEvidenceRequired.toNat = t .occurrenceEvidenceRequired := by
  constructor
  · rintro rfl
    exact ⟨rfl, rfl, rfl, rfl⟩
  · rintro ⟨hreq, hcomp, hinc, hevid⟩
    funext category
    cases category <;> assumption

/-- Numbers of 64 bits are the counts of some node. -/
lemma HierarchyCompletionCounts.exists_tally {t : CountCategory → ℕ}
    (h : ∀ category, t category < UInt64.size) :
    ∃ counts : HierarchyCompletionCounts, counts.tally = t := by
  refine ⟨⟨UInt64.ofNat (t .required), UInt64.ofNat (t .completed), UInt64.ofNat (t .incomplete),
    UInt64.ofNat (t .occurrenceEvidenceRequired)⟩, tally_eq_iff.mpr ?_⟩
  exact ⟨UInt64.toNat_ofNat_of_lt' (h _), UInt64.toNat_ofNat_of_lt' (h _),
    UInt64.toNat_ofNat_of_lt' (h _), UInt64.toNat_ofNat_of_lt' (h _)⟩

lemma HierarchyCompletionCounts.tally_lt (counts : HierarchyCompletionCounts)
    (category : CountCategory) : counts.tally category < UInt64.size := by
  cases category <;> exact UInt64.toNat_lt _

lemma HierarchyCompletionDecision.branchCounts_eq_some {child : HierarchyCompletionDecision}
    {counts : HierarchyCompletionCounts} :
    child.branchCounts = some counts ↔ counts.tally = child.branch := by
  obtain ⟨status, provenance, action, readiness, old, evidence⟩ := child
  obtain ⟨required, completed, incomplete, unproven⟩ := counts
  cases evidence <;> by_cases hstat : status = .completed <;>
    simp [branchCounts, HierarchyCompletionCounts.tally_eq_iff, branch, own, inCategory, hstat,
      HierarchyCompletionCounts.tally, Option.bind_eq_some_iff, checkedAdd64_eq_some,
      UInt64.toNat_inj, eq_comm (a := completed), eq_comm (a := incomplete),
      eq_comm (a := unproven)] <;>
    tauto

/-- Adding a branch adds its counts, as long as the total is accepted. -/
lemma HierarchyCompletionCounts.addBranch_eq_some {self counts : HierarchyCompletionCounts}
    {child : HierarchyCompletionDecision} : self.addBranch child = some counts ↔
      counts.tally = self.tally + child.branch ∧ counts.tally .required ≤ maxRequired := by
  simp only [addBranch, Option.bind_eq_bind, Option.bind_eq_some_iff, checkedAdd64_eq_some,
    HierarchyCompletionDecision.branchCounts_eq_some, Option.ite_none_right_eq_some]
  constructor
  · rintro ⟨branch, hbranch, required, hreq, completed, hcomp, incomplete, hinc,
      evidence, hevid, hmax, heq⟩
    cases heq
    rw [← hbranch, tally_eq_iff]
    exact ⟨⟨hreq, hcomp, hinc, hevid⟩, hmax⟩
  · rintro ⟨htal, hmax⟩
    obtain ⟨branch, hbranch⟩ := exists_tally (t := child.branch) fun category => by
      have hlt := counts.tally_lt category
      rw [htal, Pi.add_apply] at hlt
      omega
    rw [← hbranch, tally_eq_iff] at htal
    obtain ⟨hreq, hcomp, hinc, hevid⟩ := htal
    exact ⟨branch, hbranch, _, hreq, _, hcomp, _, hinc, _, hevid, hmax, rfl⟩

open HierarchyCompletionCounts (addBranch_eq_some exists_tally tally tally_eq_iff tally_injective)

/-! ### The forest -/

/-- What is checked about a node alone. -/
@[mk_iff]
structure HierarchyCompletionItem.IsValid (item : HierarchyCompletionItem) : Prop where
  id_ne_nil : item.id.uuid.isNil = false
  parent_ne_nil : ∀ parent ∈ item.parentId, parent.uuid.isNil = false
  inside : item.hasChildrenOutsidePlan = false
  provenance : ∀ provenance ∈ item.provenance,
    item.status = .completed ∧ provenance.priorOpenStatus.isOpen = true

def completionItemsById (items : List HierarchyCompletionItem) :
    ExtTreeMap ItemId HierarchyCompletionItem :=
  ExtTreeMap.ofList (items.map fun item => (item.id, item))

/-- The one node is a child of the other. -/
def ParentEdge (items : List HierarchyCompletionItem) (child parent : ItemId) : Prop :=
  ∃ item ∈ items, item.id = child ∧ item.parentId = some parent

/-- The root of the occurrence that a scope is about. -/
def HierarchyCompletionScope.qualifiedRoot : HierarchyCompletionScope → Option ItemId
  | .oneOff => none
  | .occurrence rootId _ => some rootId

/-- A node is **unproven** if it or one of its ancestors recurs and is not the root of the
occurrence. -/
def Unproven (items : List HierarchyCompletionItem) (qualifiedRoot : Option ItemId)
    (id : ItemId) : Prop :=
  ∃ item ∈ items, ReflTransGen (ParentEdge items) id item.id ∧ item.recurs = true ∧
    qualifiedRoot ≠ some item.id

section

variable {items : List HierarchyCompletionItem} {item : HierarchyCompletionItem} {id : ItemId}

lemma indexItem_eq_ok {byId next : ExtTreeMap ItemId HierarchyCompletionItem} :
    indexItem byId item = .ok next ↔
      item.IsValid ∧ item.id ∉ byId ∧ next = byId.insert item.id item := by
  obtain ⟨id, parentId, status, required, recurs, outside, override, provenance⟩ := item
  cases parentId <;> cases provenance <;>
    simp [indexItem, ite_error_eq_ok, HierarchyCompletionItem.isValid_iff, eq_comm (a := next)] <;>
    tauto

/-- The nodes are indexed exactly if each is valid and no identifier is repeated. -/
lemma indexItems_eq_ok {byId : ExtTreeMap ItemId HierarchyCompletionItem} :
    indexItems items = .ok byId ↔
      (∀ item ∈ items, item.IsValid) ∧ (items.map (·.id)).Nodup ∧
        byId = completionItemsById items :=
  Keyed.foldlM_insert_eq_ok fun _ _ _ => indexItem_eq_ok

lemma getElem?_completionItemsById (hnd : (items.map (·.id)).Nodup) :
    (completionItemsById items)[id]? = some item ↔ item ∈ items ∧ item.id = id :=
  Keyed.getElem?_byKey hnd

lemma mem_completionItemsById :
    id ∈ completionItemsById items ↔ id ∈ items.map (·.id) :=
  Keyed.mem_byKey

lemma mem_parentMap :
    id ∈ parentMap (completionItemsById items) ↔ id ∈ items.map (·.id) := by
  rw [parentMap, ExtTreeMap.mem_map, mem_completionItemsById]

lemma mem_postorder {l : List ItemId}
    (hl : Postorder.IsPostorder (parentMap (completionItemsById items)) l) :
    id ∈ l ↔ ∃ item ∈ items, item.id = id := by
  rw [hl.mem_iff, mem_parentMap, mem_map]

variable (hnd : (items.map HierarchyCompletionItem.id).Nodup)

include hnd

lemma childOf_parentMap {child parent : ItemId} :
    Postorder.ChildOf (parentMap (completionItemsById items)) child parent ↔
      ParentEdge items child parent := by
  rw [Postorder.ChildOf, parentMap, ExtTreeMap.getElem?_map, Option.map_eq_some_iff]
  simp only [getElem?_completionItemsById hnd, ParentEdge, and_assoc]

lemma parentEdge_iff (hitem : item ∈ items)
    {parent : ItemId} : ParentEdge items item.id parent ↔ item.parentId = some parent := by
  constructor
  · rintro ⟨other, hoth, hid, hpar⟩
    rwa [← inj_on_of_nodup_map hnd hoth hitem hid]
  · exact fun hpar => ⟨item, hitem, rfl, hpar⟩

lemma unproven_iff (hitem : item ∈ items) {root : Option ItemId} : Unproven items root item.id ↔
      (item.recurs = true ∧ root ≠ some item.id) ∨
        ∃ parent, item.parentId = some parent ∧ Unproven items root parent := by
  constructor
  · rintro ⟨above, habove, hpath, hrec, hroot⟩
    rcases hpath.cases_head with heq | ⟨parent, hedge, hrest⟩
    · rw [inj_on_of_nodup_map hnd hitem habove heq]
      exact .inl ⟨hrec, hroot⟩
    · exact .inr ⟨parent, (parentEdge_iff hnd hitem).mp hedge, above, habove, hrest, hrec, hroot⟩
  · rintro (⟨hrec, hroot⟩ | ⟨parent, hpar, above, habove, hpath, hrec, hroot⟩)
    · exact ⟨item, hitem, .refl, hrec, hroot⟩
    · exact ⟨above, habove, hpath.head ((parentEdge_iff hnd hitem).mpr hpar), hrec, hroot⟩

/-- The flags say which nodes are unproven. -/
lemma getD_unprovenFlags
    {l : List ItemId} (hl : Postorder.IsPostorder (parentMap (completionItemsById items)) l)
    (hfor : Postorder.IsForest (parentMap (completionItemsById items)))
    {root : Option ItemId} (hitem : item ∈ items) :
    (unprovenFlags (completionItemsById items) root l).getD item.id false = true ↔
      Unproven items root item.id := by
  -- parents come before children in the reversed list
  suffices hfold : ∀ todo done flags, l.reverse = done ++ todo →
      (∀ id ∈ done, (ExtTreeMap.getD flags id false = true ↔ Unproven items root id)) →
      ∀ id ∈ l, ((todo.foldl (flagUnproven (completionItemsById items) root) flags).getD id false =
        true ↔ Unproven items root id) by
    exact hfold l.reverse [] ∅ rfl (by simp) item.id ((mem_postorder hl).mpr ⟨item, hitem, rfl⟩)
  intro todo
  induction todo with
  | nil =>
    intro done flags heq hdone id hid
    rw [append_nil] at heq
    exact hdone id (heq ▸ mem_reverse.mpr hid)
  | cons next rest ih =>
    intro done flags heq hdone
    have hnext : next ∈ l := mem_reverse.mp (heq ▸ mem_append_right _ mem_cons_self)
    obtain ⟨found, hfnd, rfl⟩ := (mem_postorder hl).mp hnext
    rw [foldl_cons, flagUnproven, (getElem?_completionItemsById hnd).mpr ⟨hfnd, rfl⟩]
    refine ih (done ++ [found.id]) _ (by rw [heq, append_assoc, singleton_append]) fun id hid => ?_
    rw [ExtTreeMap.getD_insert]
    by_cases hsame : found.id = id
    · subst hsame
      rw [if_pos ReflOrd.compare_self, unproven_iff hnd hfnd, Bool.or_eq_true,
        Bool.and_eq_true, decide_eq_true_eq, Option.any_eq_true]
      refine or_congr_right (exists_congr fun parent => and_congr_right fun hpar => ?_)
      refine hdone parent ?_
      have hspl : l = rest.reverse ++ found.id :: done.reverse := by
        rw [← reverse_reverse l, heq]
        simp
      have hch := (childOf_parentMap hnd).mpr ⟨found, hfnd, rfl, hpar⟩
      exact mem_reverse.mp (hl.parent_mem hspl hch (hfor.mem _ _ hch))
    · rw [if_neg (mt LawfulEqOrd.eq_of_compare hsame)]
      exact hdone id ((mem_append.mp hid).resolve_right fun h => hsame (mem_singleton.mp h).symm)

end

/-! ### The equations of the decisions -/

def requiredChildren (items : List HierarchyCompletionItem) (parent : ItemId) : Finset ItemId :=
  ((items.filter fun item => item.requiredParent = some parent).map
    HierarchyCompletionItem.id).toFinset

def hasChildrenIn (items : List HierarchyCompletionItem) (id : ItemId) : Bool :=
  items.any fun item => item.parentId = some id

lemma hasChildrenIn_iff {items : List HierarchyCompletionItem} {id : ItemId} :
    hasChildrenIn items id = true ↔ ∃ child, ParentEdge items child id := by
  simp only [hasChildrenIn, any_eq_true, decide_eq_true_eq]
  constructor
  · rintro ⟨item, hitem, hpar⟩
    exact ⟨item.id, item, hitem, rfl, hpar⟩
  · rintro ⟨_, item, hitem, -, hpar⟩
    exact ⟨item, hitem, hpar⟩

/-- The equation of one node: its decision follows from the decisions of its required
children. -/
def DecidedBy (items : List HierarchyCompletionItem) (root : Option ItemId)
    (decisions : Decisions) (item : HierarchyCompletionItem) : Prop :=
  ∃ counts flag, counts.tally = ∑ child ∈ requiredChildren items item.id, (decisions child).branch ∧
    counts.tally .required ≤ maxRequired ∧ (flag = true ↔ Unproven items root item.id) ∧
    decideItem item counts flag (hasChildrenIn items item.id) = .ok (decisions item.id)

/-- A forest in which no check fails. -/
structure IsCompletionForest (items : List HierarchyCompletionItem)
    (scope : HierarchyCompletionScope) : Prop where
  valid : ∀ item ∈ items, item.IsValid
  nodup : (items.map HierarchyCompletionItem.id).Nodup
  forest : Postorder.IsForest (parentMap (completionItemsById items))
  scope_ok : validateScope (completionItemsById items) scope = .ok scope.qualifiedRoot

section

variable {items : List HierarchyCompletionItem} {item : HierarchyCompletionItem} {id : ItemId}
  {f g : Decisions} {root : Option ItemId}

lemma mem_requiredChildren {child parent : ItemId} : child ∈ requiredChildren items parent ↔
      ∃ item ∈ items, item.id = child ∧ item.requiredParent = some parent := by
  simp only [requiredChildren, mem_toFinset, mem_map, mem_filter, decide_eq_true_eq]
  exact ⟨fun ⟨item, ⟨hitem, hpar⟩, hid⟩ => ⟨item, hitem, hid, hpar⟩,
    fun ⟨item, hitem, hid, hpar⟩ => ⟨item, ⟨hitem, hpar⟩, hid⟩⟩

lemma parentId_of_requiredParent {parent : ItemId} (h : item.requiredParent = some parent) :
    item.parentId = some parent := by
  unfold HierarchyCompletionItem.requiredParent at h
  split_ifs at h
  exact h

lemma parentEdge_of_mem_requiredChildren {child parent : ItemId}
    (h : child ∈ requiredChildren items parent) : ParentEdge items child parent := by
  obtain ⟨item, hitem, hid, hpar⟩ := mem_requiredChildren.mp h
  exact ⟨item, hitem, hid, parentId_of_requiredParent hpar⟩

lemma mem_requiredChildren_iff (hnd : (items.map (·.id)).Nodup)
    (hitem : item ∈ items) {parent : ItemId} :
    item.id ∈ requiredChildren items parent ↔ item.requiredParent = some parent := by
  rw [mem_requiredChildren]
  constructor
  · rintro ⟨other, hoth, hid, hpar⟩
    rwa [← inj_on_of_nodup_map hnd hoth hitem hid]
  · exact fun hpar => ⟨item, hitem, rfl, hpar⟩

/-- The equation of a node reads the decisions of the node and of its children. -/
lemma DecidedBy.congr (h : DecidedBy items root f item) (hself : f item.id = g item.id)
    (hchn : ∀ child ∈ requiredChildren items item.id, f child = g child) :
    DecidedBy items root g item := by
  obtain ⟨counts, flag, htal, hmax, hflag, hdec⟩ := h
  refine ⟨counts, flag, htal.trans ?_, hmax, hflag, hself ▸ hdec⟩
  exact Finset.sum_congr rfl fun child hch => congrArg _ (hchn child hch)

/-- The counts and decisions after the nodes of a list. -/
structure Agrees (items : List HierarchyCompletionItem) (f : Decisions) (done : List ItemId)
    (s : ExtTreeMap ItemId HierarchyCompletionCounts ×
      ExtTreeMap ItemId HierarchyCompletionDecision) : Prop where
  decisions : ∀ id, s.2[id]? = if id ∈ done then some (f id) else none
  counts : ∀ p ∈ items.map HierarchyCompletionItem.id, ∃ c, s.1[p]? = some c ∧
    c.tally = ∑ child ∈ requiredChildren items p, (if child ∈ done then (f child).branch else 0) ∧
    c.tally .required ≤ maxRequired

variable {done : List ItemId}
  {s s' : ExtTreeMap ItemId HierarchyCompletionCounts ×
    ExtTreeMap ItemId HierarchyCompletionDecision}

lemma Agrees.congr (h : Agrees items f done s) (hfg : ∀ id ∈ done, f id = g id) :
    Agrees items g done s where
  decisions id := by
    rw [h.decisions]
    split_ifs with hid
    · rw [hfg id hid]
    · rfl
  counts p hp := by
    obtain ⟨c, hc, htal, hmax⟩ := h.counts p hp
    refine ⟨c, hc, htal.trans (Finset.sum_congr rfl fun child _ => ?_), hmax⟩
    split_ifs with hch
    · rw [hfg child hch]
    · rfl

lemma sum_append_singleton {β : Type*} [AddCommMonoid β] (R : Finset ItemId) (g : ItemId → β)
    (hid : id ∉ done) : ∑ child ∈ R, (if child ∈ done ++ [id] then g child else 0) =
      (∑ child ∈ R, if child ∈ done then g child else 0) + if id ∈ R then g id else 0 := by
  rw [← Finset.sum_ite_eq' R id g, ← Finset.sum_add_distrib]
  refine Finset.sum_congr rfl fun child _ => ?_
  by_cases hsame : child = id
  · subst hsame
    simp [hid]
  · simp [hsame]

lemma Agrees.insert (hnd : (items.map (·.id)).Nodup) (hitem : item ∈ items)
    (h : Agrees items f done s) (hnew : item.id ∉ done)
    {counts : ExtTreeMap ItemId HierarchyCompletionCounts}
    (hcts : addToParent s.1 item (f item.id) = .ok counts) :
    Agrees items f (done ++ [item.id]) (counts, s.2.insert item.id (f item.id)) where
  decisions id := by
    rw [ExtTreeMap.getElem?_insert, h.decisions]
    by_cases hsame : item.id = id
    · subst hsame
      simp
    · simp [Ne.symm hsame, mt LawfulEqOrd.eq_of_compare hsame]
  counts p hp := by
    obtain ⟨c, hc, htal, hmax⟩ := h.counts p hp
    rw [sum_append_singleton _ _ hnew, ← htal]
    simp only [mem_requiredChildren_iff hnd hitem]
    unfold addToParent at hcts
    split at hcts
    · rename_i hnone
      cases hcts
      exact ⟨c, hc, by simp [hnone], hmax⟩
    · rename_i parent hpar
      split at hcts
      · rename_i total htotal
        cases hcts
        obtain ⟨old, hold, hadd⟩ := Option.bind_eq_some_iff.mp htotal
        rw [ExtTreeMap.getElem?_insert, hpar]
        by_cases hsame : parent = p
        · subst hsame
          rw [hc] at hold
          cases hold
          obtain ⟨hsum, hbound⟩ := addBranch_eq_some.mp hadd
          exact ⟨total, if_pos ReflOrd.compare_self, by rw [if_pos rfl, hsum], hbound⟩
        · exact ⟨c, by rw [if_neg (mt LawfulEqOrd.eq_of_compare hsame), hc], by simp [hsame], hmax⟩
      · cases hcts

lemma decide_mem_parents (hnd : (items.map (·.id)).Nodup) (id : ItemId) :
    decide (id ∈ (completionItemsById items).toList.filterMap fun entry => entry.2.parentId) =
      hasChildrenIn items id := by
  rw [Bool.eq_iff_iff, decide_eq_true_eq, hasChildrenIn, any_eq_true]
  simp only [mem_filterMap, Prod.exists, ExtTreeMap.mem_toList_iff_getElem?_eq_some,
    getElem?_completionItemsById hnd, decide_eq_true_eq]
  exact ⟨fun ⟨_, item, ⟨hitem, _⟩, hpar⟩ => ⟨item, hitem, hpar⟩,
    fun ⟨item, hitem, hpar⟩ => ⟨item.id, item, ⟨hitem, rfl⟩, hpar⟩⟩

abbrev nodeTurn (items : List HierarchyCompletionItem) (root : Option ItemId) (l : List ItemId) :=
  evaluateNode (completionItemsById items) (unprovenFlags (completionItemsById items) root l)
    ((completionItemsById items).toList.filterMap fun entry => entry.2.parentId)

section

variable {scope : HierarchyCompletionScope} {l : List ItemId}
  (hfor : IsCompletionForest items scope)
  (hl : Postorder.IsPostorder (parentMap (completionItemsById items)) l) {rest : List ItemId}

include hfor hl

/-- The counts of a node are complete when its turn comes. -/
lemma Agrees.counts_complete (h : Agrees items f done s)
    (heq : l = done ++ item.id :: rest) (hitem : item ∈ items) :
    (s.1.getD item.id {}).tally = ∑ child ∈ requiredChildren items item.id, (f child).branch ∧
      (s.1.getD item.id {}).tally .required ≤ maxRequired := by
  obtain ⟨c, hc, htal, hmax⟩ := h.counts item.id (mem_map_of_mem hitem)
  rw [ExtTreeMap.getD_eq_getD_getElem?, hc, Option.getD_some]
  refine ⟨htal.trans (Finset.sum_congr rfl fun child hch => if_pos ?_), hmax⟩
  exact hl.after done item.id rest heq child
    ((childOf_parentMap hfor.nodup).mpr (parentEdge_of_mem_requiredChildren hch))

omit hfor in
lemma not_mem_done (heq : l = done ++ id :: rest) : id ∉ done := by
  intro hmem
  have hnd := hl.nodup
  rw [heq] at hnd
  exact (nodup_append.mp hnd).2.2 id hmem id mem_cons_self rfl

omit hl in
/-- If all equations hold, the branch of a node fits into the counts of its parent. -/
lemma Agrees.exists_addToParent (h : Agrees items f done s) (hnew : item.id ∉ done)
    (hitem : item ∈ items) (hdecd : ∀ item ∈ items, DecidedBy items scope.qualifiedRoot f item) :
    ∃ counts, addToParent s.1 item (f item.id) = .ok counts := by
  unfold addToParent
  split
  · exact ⟨_, rfl⟩
  · rename_i parent hpar
    have hedge : ParentEdge items item.id parent :=
      ⟨item, hitem, rfl, parentId_of_requiredParent hpar⟩
    have hp := mem_parentMap.mp (hfor.forest.mem _ _ ((childOf_parentMap hfor.nodup).mpr hedge))
    obtain ⟨c, hc, htal, -⟩ := h.counts parent hp
    obtain ⟨above, habove, rfl⟩ := mem_map.mp hp
    obtain ⟨full, -, hfull, hmax, -, -⟩ := hdecd above habove
    -- the counts so far and this branch are part of the counts of the parent
    have hle : c.tally + (f item.id).branch ≤ full.tally := by
      rw [hfull, htal]
      have hsum := sum_append_singleton (requiredChildren items above.id)
        (fun child => (f child).branch) hnew
      rw [if_pos ((mem_requiredChildren_iff hfor.nodup hitem).mpr hpar)] at hsum
      rw [← hsum]
      intro category
      rw [Finset.sum_apply, Finset.sum_apply]
      refine Finset.sum_le_sum fun child _ => ?_
      split_ifs
      · exact le_rfl
      · exact Nat.zero_le _
    obtain ⟨total, htotal⟩ := exists_tally fun category =>
        (hle category).trans_lt (full.tally_lt category)
    have hbranch := addBranch_eq_some.mpr ⟨htotal, by rw [htotal]; exact (hle .required).trans hmax⟩
    rw [hc, Option.bind_some, hbranch]
    exact ⟨_, rfl⟩

lemma Agrees.evaluateNode_ok (h : Agrees items f done s) (heq : l = done ++ item.id :: rest)
    (hitem : item ∈ items) (hdecd : ∀ item ∈ items, DecidedBy items scope.qualifiedRoot f item) :
    ∃ s', nodeTurn items scope.qualifiedRoot l s item.id = .ok s' ∧
      Agrees items f (done ++ [item.id]) s' := by
  have hnew := not_mem_done hl heq
  obtain ⟨hcts, -⟩ := h.counts_complete hfor hl heq hitem
  obtain ⟨counts, flag, htal, -, hflag, hdec⟩ := hdecd item hitem
  rw [tally_injective (htal.trans hcts.symm), Bool.eq_iff_iff.mpr
    (hflag.trans (getD_unprovenFlags hfor.nodup hl hfor.forest hitem).symm)] at hdec
  obtain ⟨total, htotal⟩ := h.exists_addToParent hfor hnew hitem hdecd
  refine ⟨_, ?_, h.insert hfor.nodup hitem hnew htotal⟩
  rw [nodeTurn, evaluateNode, (getElem?_completionItemsById hfor.nodup).mpr ⟨hitem, rfl⟩]
  simp only [decide_mem_parents hfor.nodup, bind_eq_ok]
  exact ⟨_, hdec, _, htotal, rfl⟩

/-- With the decision of one more node, the equations of the nodes so far still hold: the
children of a decided node are decided before it. -/
lemma decidedBy_update (heq : l = done ++ item.id :: rest) (hitem : item ∈ items)
    (hdecd : ∀ item ∈ items, item.id ∈ done → DecidedBy items root f item)
    {counts : HierarchyCompletionCounts} {flag : Bool} {d : HierarchyCompletionDecision}
    (htal : counts.tally = ∑ child ∈ requiredChildren items item.id, (f child).branch)
    (hmax : counts.tally .required ≤ maxRequired)
    (hflag : flag = true ↔ Unproven items root item.id)
    (hdec : decideItem item counts flag (hasChildrenIn items item.id) = .ok d) :
    ∀ item' ∈ items, item'.id ∈ done ++ [item.id] →
      DecidedBy items root (Function.update f item.id d) item' := by
  have hnew := not_mem_done hl heq
  have hdone : ∀ id ∈ done, f id = Function.update f item.id d id := fun id hid => by
    rw [Function.update_of_ne (ne_of_mem_of_not_mem hid hnew)]
  have hbef : ∀ pre node post, l = pre ++ node :: post →
      ∀ child ∈ requiredChildren items node, child ∈ pre := fun pre node post hspl child hch =>
    hl.after pre node post hspl child
      ((childOf_parentMap hfor.nodup).mpr (parentEdge_of_mem_requiredChildren hch))
  intro other hoth hmem
  rcases mem_append.mp hmem with hmem | hmem
  · refine (hdecd other hoth hmem).congr (hdone _ hmem) fun child hch => ?_
    obtain ⟨pre, post, hspl⟩ := append_of_mem hmem
    refine hdone child ?_
    have := hbef pre other.id (post ++ item.id :: rest)
      (by rw [heq, hspl, append_assoc, cons_append]) child hch
    exact hspl ▸ mem_append_left _ this
  · obtain rfl := inj_on_of_nodup_map hfor.nodup hoth hitem (mem_singleton.mp hmem)
    refine ⟨counts, flag, htal.trans (Finset.sum_congr rfl fun child hch => ?_), hmax, hflag,
      by rw [hdec, Function.update_self]⟩
    rw [hdone child (hbef done other.id rest heq child hch)]

/-- A turn that succeeds settles the equation of its node. -/
lemma Agrees.of_evaluateNode (h : Agrees items f done s)
    (heq : l = done ++ item.id :: rest) (hitem : item ∈ items)
    (hdecd : ∀ item ∈ items, item.id ∈ done → DecidedBy items scope.qualifiedRoot f item)
    (hok : nodeTurn items scope.qualifiedRoot l s item.id = .ok s') :
    ∃ g, Agrees items g (done ++ [item.id]) s' ∧ ∀ item' ∈ items, item'.id ∈ done ++ [item.id] →
        DecidedBy items scope.qualifiedRoot g item' := by
  have hnew := not_mem_done hl heq
  rw [nodeTurn, evaluateNode, (getElem?_completionItemsById hfor.nodup).mpr ⟨hitem, rfl⟩] at hok
  simp only [decide_mem_parents hfor.nodup, bind_eq_ok] at hok
  obtain ⟨decision, hdec, counts, hcts, ⟨⟩⟩ := hok
  obtain ⟨htal, hmax⟩ := h.counts_complete hfor hl heq hitem
  have hself : Function.update f item.id decision item.id = decision := Function.update_self ..
  have hagr : Agrees items (Function.update f item.id decision) done s := h.congr fun id hid => by
    rw [Function.update_of_ne (ne_of_mem_of_not_mem hid hnew)]
  rw [← hself] at hcts
  have hinsert := hagr.insert hfor.nodup hitem hnew hcts
  rw [hself] at hinsert
  exact ⟨_, hinsert, decidedBy_update hfor hl heq hitem hdecd htal hmax
    (getD_unprovenFlags hfor.nodup hl hfor.forest hitem) hdec⟩

lemma Agrees.foldlM_of_ok (h : Agrees items f [] s)
    (hok : l.foldlM (nodeTurn items scope.qualifiedRoot l) s = .ok s') :
    ∃ g, Agrees items g l s' ∧ ∀ item ∈ items, DecidedBy items scope.qualifiedRoot g item := by
  obtain ⟨g, hagr, hg⟩ := Except.foldlM_prefix_invariant (P := fun done s => ∃ g,
    Agrees items g done s ∧ ∀ item ∈ items, item.id ∈ done →
      DecidedBy items scope.qualifiedRoot g item) (fun done next s s' ⟨rest, heq⟩ hok hinv => by
      obtain ⟨item, hitem, rfl⟩ := (mem_postorder hl).mp (heq ▸ by simp : next ∈ l)
      obtain ⟨g, hagr, hg⟩ := hinv
      exact hagr.of_evaluateNode hfor hl (heq.symm.trans (append_cons ..).symm) hitem hg hok)
    hok ⟨f, h, by simp⟩
  exact ⟨g, hagr, fun item hitem => hg item hitem ((mem_postorder hl).mpr ⟨item, hitem, rfl⟩)⟩

/-- If all equations hold, the nodes of a list are decided one after the other. -/
lemma Agrees.foldlM_ok (h : Agrees items f [] s)
    (hdecd : ∀ item ∈ items, DecidedBy items scope.qualifiedRoot f item) :
    ∃ s', l.foldlM (nodeTurn items scope.qualifiedRoot l) s = .ok s' ∧ Agrees items f l s' := by
  refine Except.exists_foldlM
    (fun done next s ⟨rest, heq⟩ h => ?_) h
  obtain ⟨item, hitem, rfl⟩ := (mem_postorder hl).mp (heq ▸ by simp : next ∈ l)
  exact h.evaluateNode_ok hfor hl (heq.symm.trans (append_cons ..).symm) hitem hdecd

end

lemma Agrees.start : Agrees items f []
    ((completionItemsById items).map fun _ _ => ({} : HierarchyCompletionCounts), ∅) where
  decisions id := by simp
  counts p hp := by
    obtain ⟨item, hitem⟩ := ExtTreeMap.mem_iff_exists.mp (mem_completionItemsById.mpr hp)
    refine ⟨{}, ?_, ?_, Nat.zero_le _⟩
    · rw [ExtTreeMap.getElem?_map, hitem]
      rfl
    · simp only [not_mem_nil, if_false, Finset.sum_const_zero]
      exact tally_eq_iff.mpr ⟨rfl, rfl, rfl, rfl⟩

variable {scope : HierarchyCompletionScope}

lemma validateScope_eq_ok {byId : ExtTreeMap ItemId HierarchyCompletionItem}
    (h : validateScope byId scope = .ok root) : root = scope.qualifiedRoot := by
  cases scope with
  | oneOff => exact (Except.ok.inj h).symm
  | occurrence rootId occurrenceId =>
    simp only [validateScope] at h
    split_ifs at h
    exact (Except.ok.inj h).symm

/-- The decisions about the nodes of a forest: each satisfies its equation. -/
structure Evaluates (items : List HierarchyCompletionItem) (scope : HierarchyCompletionScope)
    (decisions : Decisions) : Prop where
  forest : IsCompletionForest items scope
  decided : ∀ item ∈ items, DecidedBy items scope.qualifiedRoot decisions item

/-- An evaluation finds these decisions, and no others. -/
structure HierarchyCompletionEvaluation.Finds (evaluation : HierarchyCompletionEvaluation)
    (items : List HierarchyCompletionItem) (scope : HierarchyCompletionScope)
    (decisions : Decisions) : Prop where
  scope_eq : evaluation.scope = scope
  decisions_eq : ∀ item ∈ items, evaluation.decisions[item.id]? = some (decisions item.id)
  keys : ∀ id, id ∈ evaluation.decisions ↔ id ∈ items.map HierarchyCompletionItem.id

lemma Agrees.finds {l : List ItemId}
    (hl : Postorder.IsPostorder (parentMap (completionItemsById items)) l)
    (h : Agrees items f l s) :
    (⟨scope, s.2⟩ : HierarchyCompletionEvaluation).Finds items scope f where
  scope_eq := rfl
  decisions_eq item hitem := by
    rw [h.decisions, if_pos ((mem_postorder hl).mpr ⟨item, hitem, rfl⟩)]
  keys id := by
    rw [ExtTreeMap.mem_iff_isSome_getElem?, h.decisions, ← mem_parentMap, ← hl.mem_iff]
    split_ifs with hid <;> simp [hid]

/-- **What an evaluation returns** is a solution of the equations of all nodes. -/
theorem evaluates_of_ok {evaluation : HierarchyCompletionEvaluation}
    (h : evaluateHierarchyCompletion items scope = .ok evaluation) :
    ∃ decisions, Evaluates items scope decisions ∧ evaluation.Finds items scope decisions := by
  simp only [evaluateHierarchyCompletion, bind_eq_ok] at h
  obtain ⟨byId, hidx, l, hl, root, hroot, final, hfnl, h⟩ := h
  cases h
  obtain ⟨hval, hnd, rfl⟩ := indexItems_eq_ok.mp hidx
  cases validateScope_eq_ok hroot
  have hfor : IsCompletionForest items scope := ⟨hval, hnd, Postorder.isForest_of_order hl, hroot⟩
  have hpost := Postorder.isPostorder_of_order hl
  have hst : Agrees items (fun _ => default) [] _ := Agrees.start
  obtain ⟨g, hagr, hg⟩ := hst.foldlM_of_ok hfor hpost hfnl
  exact ⟨g, ⟨hfor, hg⟩, hagr.finds hpost⟩

/-- **Every solution** of the equations is what the evaluation returns. -/
theorem Evaluates.exists_ok (h : Evaluates items scope f) :
    ∃ evaluation, evaluateHierarchyCompletion items scope = .ok evaluation ∧
      evaluation.Finds items scope f := by
  obtain ⟨l, hl⟩ := Postorder.exists_order HierarchyCompletionError.missingParent
    HierarchyCompletionError.cycle h.forest.forest
  have hpost := Postorder.isPostorder_of_order hl
  obtain ⟨final, hfnl, hagr⟩ := (Agrees.start).foldlM_ok h.forest hpost h.decided
  refine ⟨⟨scope, final.2⟩, ?_, hagr.finds hpost⟩
  exact bind_eq_ok.mpr ⟨_, indexItems_eq_ok.mpr ⟨h.forest.valid, h.forest.nodup, rfl⟩,
    bind_eq_ok.mpr ⟨l, hl, bind_eq_ok.mpr ⟨_, h.forest.scope_ok,
      bind_eq_ok.mpr ⟨final, hfnl, rfl⟩⟩⟩⟩

lemma Evaluates.unique (hf : Evaluates items scope f) (hg : Evaluates items scope g)
    (hitem : item ∈ items) : f item.id = g item.id := by
  obtain ⟨evaluation, heval, hfds⟩ := hf.exists_ok
  obtain ⟨evaluation', heval', hfinds'⟩ := hg.exists_ok
  cases heval.symm.trans heval'
  exact Option.some.inj ((hfds.decisions_eq item hitem).symm.trans
    (hfinds'.decisions_eq item hitem))

end

end DayWeave
