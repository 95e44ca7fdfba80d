import DayWeave.Lib.Acyclic
import DayWeave.Lib.Loop
import DayWeave.Lib.Map

/-!
Topological sorting by counting open predecessors.

A node is ready when no predecessor is open; in every round a rule `select` takes a ready node,
and the nodes that wait for it lose one open predecessor for each edge. For every rule the result
has no repetitions and predecessors come first (`order_spec`); everything is sorted if and only
if there is no cycle (`length_order_eq_iff`), and what is left out is on a cycle or after one
(`notMem_order_iff`). A rule that prefers some nodes keeps its preferences if they close no cycle
(`order_keeps`).
-/

open List Std Relation

namespace Kahn

variable {α : Type*} [DecidableEq α] [Ord α]

/-- The state of the sort. -/
structure State (α : Type*) [Ord α] where
  remaining : Finset α
  indegree : ExtTreeMap α ℕ
  ready : List α
  ordered : List α

section

variable [TransOrd α]

variable (select : Finset α → List α → Option (α × List α)) (preds : α → List α) (nodes : List α)

/-- Files a node under its predecessors, once for every edge. -/
def addSuccessor (result : ExtTreeMap α (List α)) (a : α) : ExtTreeMap α (List α) :=
  (preds a).foldl (fun result p => result.insert p (result.getD p [] ++ [a])) result

/-- The nodes that wait for each node. -/
def successors : ExtTreeMap α (List α) :=
  nodes.foldl (addSuccessor preds) ∅

/-- Takes one open predecessor away from a node; it is ready after the last. -/
def release (s : ExtTreeMap α ℕ × List α) (a : α) : ExtTreeMap α ℕ × List α :=
  match s.1[a]? with
  | none => s
  | some degree => (s.1.insert a (degree - 1), if degree - 1 = 0 then s.2 ++ [a] else s.2)

/-- One round. -/
def step (succs : ExtTreeMap α (List α)) (s : State α) : Option (State α) :=
  (select s.remaining s.ready).map fun choice =>
    let released := (succs.getD choice.1 []).foldl release (s.indegree, choice.2)
    { remaining := s.remaining.erase choice.1
      indegree := released.1
      ready := released.2
      ordered := s.ordered ++ [choice.1] }

/-- The state before the first round. -/
def start : State α :=
  let indegree : ExtTreeMap α ℕ := ExtTreeMap.ofList (nodes.map fun a => (a, (preds a).length))
  { remaining := nodes.toFinset
    indegree := indegree
    ready := indegree.toList.filterMap fun entry => if entry.2 = 0 then some entry.1 else none
    ordered := [] }

/-- The nodes in order, without those that wait for ever. -/
def order : List α :=
  (Loop.run (step select (successors preds nodes)) nodes.length (start preds nodes)).ordered

end

/-! ### Successors and releases -/

variable [TransOrd α] [LawfulEqOrd α] {a : α}

lemma getD_insert (m : ExtTreeMap α (List α)) (k a : α) (v : List α) :
    (m.insert k v).getD a [] = if k = a then v else m.getD a [] := by
  rw [ExtTreeMap.getD_insert]
  simp

/-- Each edge files its node once. -/
lemma count_addSuccessor (preds : α → List α) (m : ExtTreeMap α (List α)) (a b p : α) :
    ((addSuccessor preds m b).getD p []).count a =
      (m.getD p []).count a + if b = a then (preds b).count p else 0 := by
  unfold addSuccessor
  generalize preds b = l
  induction l generalizing m with
  | nil => simp
  | cons q rest ih =>
    rw [foldl_cons, ih, getD_insert]
    by_cases hq : q = p
    · subst hq
      by_cases hb : b = a
      · subst hb
        simp
        omega
      · simp [hb]
    · by_cases hb : b = a <;> simp [hq, hb]

lemma count_successors (preds : α → List α) {nodes : List α} (hnd : nodes.Nodup) (a p : α) :
    ((successors preds nodes).getD p []).count a =
      if a ∈ nodes then (preds a).count p else 0 := by
  suffices h : ∀ m : ExtTreeMap α (List α),
      ((nodes.foldl (addSuccessor preds) m).getD p []).count a =
        (m.getD p []).count a + if a ∈ nodes then (preds a).count p else 0 by
    rw [successors, h]
    simp
  induction nodes with
  | nil => simp
  | cons b rest ih =>
    obtain ⟨hb, hrest⟩ := nodup_cons.mp hnd
    intro m
    rw [foldl_cons, ih hrest, count_addSuccessor]
    by_cases hba : b = a
    · subst hba
      simp [hb]
    · simp [hba, Ne.symm hba]

section

variable {s : ExtTreeMap α ℕ × List α} {deg : α → ℕ} {b : α}

lemma getElem?_release (hb : s.1[b]? = some (deg b)) (a : α) :
    (release s b).1[a]? = if b = a then some (deg b - 1) else s.1[a]? := by
  rw [release, hb]
  simp [ExtTreeMap.getElem?_insert]

omit [DecidableEq α] [LawfulEqOrd α] in
lemma ready_release (hb : s.1[b]? = some (deg b)) :
    (release s b).2 = s.2 ++ if deg b - 1 = 0 then [b] else [] := by
  rw [release, hb]
  dsimp only
  split <;> simp

/-- Releasing the nodes of a list takes as many open predecessors from each node as it
occurs, and makes exactly those ready that have no other. -/
lemma foldl_release (l : List α) (s : ExtTreeMap α ℕ × List α) (deg : α → ℕ)
    (hdeg : ∀ a ∈ l, s.1[a]? = some (deg a)) (hcnt : ∀ a, l.count a ≤ deg a) :
    (∀ a, (l.foldl release s).1[a]? = (s.1[a]?).map fun n => n - l.count a) ∧
      ∃ added, (l.foldl release s).2 = s.2 ++ added ∧ added.Nodup ∧
        ∀ a, a ∈ added ↔ a ∈ l ∧ deg a = l.count a := by
  induction l generalizing s deg with
  | nil => exact ⟨fun a => by simp, [], by simp⟩
  | cons b rest ih =>
    have hb := hdeg b mem_cons_self
    have hone : 1 + rest.count b ≤ deg b := by
      have := hcnt b
      rw [count_cons_self] at this
      omega
    -- the same facts about the rest of the list, with one open predecessor less
    obtain ⟨hmap, added, hadd', hnd, hmem⟩ := ih (release s b)
      (Function.update deg b (deg b - 1)) (fun a ha => by
        rw [getElem?_release hb]
        by_cases hba : b = a
        · subst hba
          simp
        · rw [if_neg hba, hdeg a (mem_cons_of_mem _ ha), Function.update_of_ne (Ne.symm hba)])
      (fun a => by
        by_cases hba : b = a
        · subst hba
          rw [Function.update_self]
          omega
        · rw [Function.update_of_ne (Ne.symm hba)]
          have := hcnt a
          rwa [count_cons_of_ne hba] at this)
    rw [foldl_cons]
    refine ⟨fun a => ?_, (if deg b - 1 = 0 then [b] else []) ++ added, ?_, ?_, fun a => ?_⟩
    · rw [hmap, getElem?_release hb]
      by_cases hba : b = a
      · subst hba
        rw [if_pos rfl, hb, count_cons_self]
        simp only [Option.map_some, Option.some.injEq]
        omega
      · rw [if_neg hba, count_cons_of_ne hba]
    · rw [hadd', ready_release hb, append_assoc]
    · split
      · rename_i hzero
        refine nodup_cons.mpr ⟨fun hin => ?_, hnd⟩
        have := count_pos_iff.mpr ((hmem b).mp hin).1
        omega
      · exact hnd
    · rw [mem_append, hmem]
      by_cases hba : b = a
      · subst hba
        rw [Function.update_self, count_cons_self]
        have hpos : b ∈ rest ↔ 0 < rest.count b := count_pos_iff.symm
        by_cases hzero : deg b - 1 = 0
        · simp only [hzero, if_true, true_or, mem_cons, true_and, true_iff]
          omega
        · simp only [hzero, if_false, not_mem_nil, false_or, mem_cons, true_or, true_and, hpos]
          omega
      · rw [Function.update_of_ne (Ne.symm hba), count_cons_of_ne hba]
        have hno : a ∉ (if deg b - 1 = 0 then [b] else []) := by
          split <;> simp [Ne.symm hba]
        simp [hno, Ne.symm hba]

end

/-! ### The invariant of the sort -/

/-- What holds between rounds. -/
structure Good (preds : α → List α) (nodes : List α) (s : State α) : Prop where
  nodup : (s.ordered ++ s.ready).Nodup
  subset : ∀ a ∈ s.ordered ++ s.ready, a ∈ nodes
  degree : ∀ a ∈ nodes, s.indegree[a]? = some ((preds a).countP fun p => decide (p ∉ s.ordered))
  ready_iff : ∀ a ∈ nodes, a ∉ s.ordered → (a ∈ s.ready ↔ ∀ p ∈ preds a, p ∈ s.ordered)
  earlier : ∀ pre a post, s.ordered = pre ++ a :: post → ∀ p ∈ preds a, p ∈ pre

section

variable {preds : α → List α} {nodes ordered : List α}

lemma start_good (hnd : nodes.Nodup) : Good preds nodes (start preds nodes) := by
  have hkeys : ((nodes.map fun a => (a, (preds a).length)).map Prod.fst).Nodup := by
    rwa [List.map_map, show (Prod.fst ∘ fun a => (a, (preds a).length)) = id from rfl, map_id]
  have hdegree : ∀ a ∈ nodes,
      (start preds nodes).indegree[a]? = some ((preds a).length) := fun a ha =>
    ExtTreeMap.getElem?_ofList_of_nodup hkeys (mem_map.mpr ⟨a, ha, rfl⟩)
  have hmem : ∀ a, a ∈ (start preds nodes).ready ↔ a ∈ nodes ∧ preds a = [] := by
    intro a
    simp only [start, mem_filterMap]
    constructor
    · rintro ⟨⟨k, n⟩, hin, hif⟩
      rw [ExtTreeMap.mem_toList_iff_getElem?_eq_some] at hin
      obtain ⟨c, hc, heq⟩ := mem_map.mp (ExtTreeMap.mem_of_getElem?_ofList hin)
      cases heq
      split at hif
      · cases hif
        exact ⟨hc, eq_nil_of_length_eq_zero ‹_›⟩
      · cases hif
    · rintro ⟨ha, hnil⟩
      refine ⟨(a, 0), ?_, by simp⟩
      rw [ExtTreeMap.mem_toList_iff_getElem?_eq_some]
      have := hdegree a ha
      rwa [hnil] at this
  refine ⟨?_, ?_, ?_, ?_, ?_⟩
  · change ((start preds nodes).ready).Nodup
    refine List.Pairwise.filterMap _ (fun p q hne a ha b hb => ?_) ExtTreeMap.distinct_keys_toList
    split at ha <;> cases ha
    split at hb <;> cases hb
    exact fun heq => hne (heq ▸ ReflOrd.compare_self)
  · exact fun a ha => ((hmem a).mp ha).1
  · intro a ha
    rw [hdegree a ha]
    simp [start]
  · intro a ha _
    rw [hmem]
    simp [ha, start, eq_nil_iff_forall_not_mem]
  · intro pre a post h
    simp [start] at h

/-- Sorting one more node closes the edges from it. -/
lemma countP_append_singleton {b : α} (hb : b ∉ ordered) (l : List α) :
    l.countP (fun p => decide (p ∉ ordered)) =
      l.countP (fun p => decide (p ∉ ordered ++ [b])) + l.count b := by
  induction l with
  | nil => rfl
  | cons a rest ih =>
    rw [countP_cons, countP_cons, count_cons, ih]
    by_cases hab : a = b
    · subst hab
      simp [hb]
      omega
    · by_cases ha : a ∈ ordered <;> simp [ha, hab, Nat.add_right_comm]

/-- Releasing the nodes that wait for `b` counts `b` as sorted. -/
lemma release_successors (hnodes : nodes.Nodup) {s : State α} (h : Good preds nodes s) {b : α}
    (hb : b ∉ s.ordered) (rest : List α) :
    (∀ a ∈ nodes, (((successors preds nodes).getD b []).foldl release (s.indegree, rest)).1[a]? =
        some ((preds a).countP fun p => decide (p ∉ s.ordered ++ [b]))) ∧
      ∃ added, (((successors preds nodes).getD b []).foldl release (s.indegree, rest)).2 =
          rest ++ added ∧ added.Nodup ∧
        ∀ a, a ∈ added ↔ a ∈ nodes ∧ b ∈ preds a ∧ ∀ p ∈ preds a, p ∈ s.ordered ++ [b] := by
  set l := (successors preds nodes).getD b []
  have hcnt : ∀ a, l.count a = if a ∈ nodes then (preds a).count b else 0 := fun a =>
    count_successors preds hnodes a b
  have hlmem : ∀ a, a ∈ l ↔ a ∈ nodes ∧ b ∈ preds a := fun a => by
    rw [← count_pos_iff, hcnt a]
    split <;> simp_all [count_pos_iff]
  set deg : α → ℕ := fun a =>
    if a ∈ nodes then (preds a).countP (fun p => decide (p ∉ s.ordered)) else 0 with hdegdef
  -- a degree falls by the number of edges from `b`
  have hclosed : ∀ a, a ∈ nodes → deg a =
      (preds a).countP (fun p => decide (p ∉ s.ordered ++ [b])) + l.count a := fun a ha => by
    simp only [hdegdef, ha, if_true, hcnt a]
    exact countP_append_singleton hb (preds a)
  obtain ⟨hmap, added, hadd', hnd, hmem⟩ := foldl_release l (s.indegree, rest) deg
    (fun a ha => by simp [hdegdef, ((hlmem a).mp ha).1, h.degree a ((hlmem a).mp ha).1])
    (fun a => by
      by_cases ha : a ∈ nodes
      · have := hclosed a ha
        omega
      · simp [hcnt a, ha])
  refine ⟨fun a ha => ?_, added, hadd', hnd, fun a => ?_⟩
  · have hdeg : deg a = (preds a).countP fun p => decide (p ∉ s.ordered) := if_pos ha
    rw [hmap, h.degree a ha, ← hdeg, hclosed a ha, Option.map_some, Nat.add_sub_cancel]
  · rw [hmem, hlmem, and_assoc]
    refine and_congr_right fun ha => and_congr_right fun _ => ?_
    rw [hclosed a ha, Nat.add_eq_right, countP_eq_zero]
    simp [or_iff_not_imp_left]

/-- A rule takes one of the ready nodes, as long as there is one. -/
structure Selects (select : Finset α → List α → Option (α × List α)) : Prop where
  perm : ∀ remaining ready choice, select remaining ready = some choice →
    (choice.1 :: choice.2).Perm ready
  nil : ∀ remaining ready, select remaining ready = none → ready = []

omit [DecidableEq α] [Ord α] [TransOrd α] [LawfulEqOrd α] in
lemma earlier_append_singleton {b : α}
    (h : ∀ pre a post, ordered = pre ++ a :: post → ∀ p ∈ preds a, p ∈ pre)
    (hb : ∀ p ∈ preds b, p ∈ ordered) {pre post : List α}
    (heq : ordered ++ [b] = pre ++ a :: post) :
    ∀ p ∈ preds a, p ∈ pre := by
  rcases eq_nil_or_concat post with rfl | ⟨init, last, rfl⟩
  · obtain ⟨rfl, hab⟩ := append_inj' heq rfl
    cases hab
    exact hb
  · rw [concat_eq_append, ← cons_append, ← append_assoc] at heq
    exact h pre a init (append_inj' heq rfl).1

/-- The edges between nodes. -/
def Edge (preds : α → List α) (nodes : List α) (p a : α) : Prop := a ∈ nodes ∧ p ∈ preds a

omit [Ord α] [TransOrd α] [LawfulEqOrd α] in
lemma idxOf_lt_of_mem {pre post : List α} {p : α} (hnd : (pre ++ a :: post).Nodup) (hp : p ∈ pre) :
    (pre ++ a :: post).idxOf p < (pre ++ a :: post).idxOf a := by
  have hfr : a ∉ pre := fun hin => disjoint_of_nodup_append hnd hin mem_cons_self
  rw [idxOf_append_of_mem hp, idxOf_append_of_notMem hfr, idxOf_cons_self]
  exact idxOf_lt_length_iff.mpr hp

variable {select : Finset α → List α → Option (α × List α)} (hnodes : nodes.Nodup)
  (hslct : Selects select)

include hnodes hslct

/-- **One round** keeps the invariant and sorts one more node. -/
lemma step_good {s s' : State α}
    (hstep : step select (successors preds nodes) s = some s') (h : Good preds nodes s) :
    Good preds nodes s' ∧ s'.ordered.length = s.ordered.length + 1 := by
  obtain ⟨⟨b, rest⟩, hchoice, hs'⟩ := Option.map_eq_some_iff.mp hstep
  dsimp only at hs'
  have hperm := hslct.perm _ _ _ hchoice
  have hbready : b ∈ s.ready := hperm.mem_iff.mp mem_cons_self
  have hbnode : b ∈ nodes := h.subset b (mem_append_right _ hbready)
  have hbord : b ∉ s.ordered := fun hin => (nodup_append'.mp h.nodup).2.2 hin hbready
  have hbpreds := (h.ready_iff b hbnode hbord).mp hbready
  obtain ⟨hdegree, added, hadd', haddedNodup, haddedMem⟩ := release_successors hnodes h hbord rest
  -- a node that becomes ready waited for `b`, so it was neither sorted nor ready
  have hnew : ∀ a ∈ added, a ∉ s.ordered ++ s.ready := by
    intro a ha hin
    obtain ⟨hanode, hba, -⟩ := (haddedMem a).mp ha
    by_cases haord : a ∈ s.ordered
    · obtain ⟨pre, post, heq⟩ := append_of_mem haord
      exact hbord (heq ▸ mem_append_left _ (h.earlier pre a post heq b hba))
    · exact hbord ((h.ready_iff a hanode haord).mp ((mem_append.mp hin).resolve_left haord) b hba)
  have hshape : (s.ordered ++ [b] ++ (rest ++ added)).Perm (s.ordered ++ s.ready ++ added) := by
    have := (hperm.append_left s.ordered).append_right added
    simpa using this
  rw [hadd'] at hs'
  subst hs'
  refine ⟨⟨?_, fun a ha => ?_, hdegree, fun a ha hord => ?_, ?_⟩, by simp⟩
  · rw [hshape.nodup_iff, nodup_append']
    exact ⟨h.nodup, haddedNodup, fun a ha haa => hnew a haa ha⟩
  · rw [hshape.mem_iff, mem_append] at ha
    exact ha.elim (h.subset a) fun haa => ((haddedMem a).mp haa).1
  · rw [mem_append, mem_singleton, not_or] at hord
    have hrest : a ∈ rest ↔ ∀ p ∈ preds a, p ∈ s.ordered := by
      rw [← h.ready_iff a ha hord.1, ← hperm.mem_iff, mem_cons]
      simp [hord.2]
    rw [mem_append, hrest, haddedMem]
    constructor
    · rintro (hall | ⟨-, -, hall⟩)
      · exact fun p hp => mem_append_left _ (hall p hp)
      · exact hall
    · intro hall
      by_cases hba : b ∈ preds a
      · exact .inr ⟨ha, hba, hall⟩
      · refine .inl fun p hp => (mem_append.mp (hall p hp)).resolve_right fun hpb => ?_
        exact hba (mem_singleton.mp hpb ▸ hp)
  · exact fun pre a post heq => earlier_append_singleton h.earlier hbpreds heq

/-- **The sort**: no node is repeated, all predecessors of a sorted node come before it,
and a node that is left out waits for another one. -/
theorem order_spec :
    (order select preds nodes).Nodup ∧ (∀ a ∈ order select preds nodes, a ∈ nodes) ∧
      (∀ pre a post, order select preds nodes = pre ++ a :: post → ∀ p ∈ preds a, p ∈ pre) ∧
      ∀ a ∈ nodes, a ∉ order select preds nodes → ∃ p ∈ preds a, p ∉ order select preds nodes := by
  set body := step select (successors preds nodes) with hbody
  have hgood := Loop.run_invariant body
    (fun s s' hs h => (step_good hnodes hslct hs h).1) nodes.length (start_good hnodes)
  have hlength : ∀ s : State α, Good preds nodes s → s.ordered.length ≤ nodes.length := fun s h =>
    (subperm_of_subset (nodup_append'.mp h.nodup).1 fun a ha =>
      h.subset a (mem_append_left _ ha)).length_le
  have hstop := Loop.run_stops body
    (fun s s' hs h => (step_good hnodes hslct hs h).1)
    (μ := fun s => nodes.length - s.ordered.length)
    (fun s s' h hs => by
      obtain ⟨hgood', hlen⟩ := step_good hnodes hslct hs h
      have := hlength s' hgood'
      omega) (start_good hnodes) (Nat.sub_le _ _)
  have hrdy := hslct.nil _ _ (Option.map_eq_none_iff.mp hstop)
  refine ⟨(nodup_append'.mp hgood.nodup).1,
    fun a ha => hgood.subset a (mem_append_left _ ha), hgood.earlier, fun a ha hord => ?_⟩
  by_contra! hno
  have hin := (hgood.ready_iff a ha hord).mpr hno
  rw [hrdy] at hin
  cases hin

/-- What leads to a sorted node is sorted before it. -/
lemma idxOf_lt_of_transGen {p : α}
    (h : TransGen (Edge preds nodes) p a) (ha : a ∈ order select preds nodes) :
    p ∈ order select preds nodes ∧
      (order select preds nodes).idxOf p < (order select preds nodes).idxOf a := by
  obtain ⟨hnd, -, hbef, -⟩ := @order_spec _ _ _ _ _ preds nodes select hnodes hslct
  have hstep : ∀ {p a : α}, Edge preds nodes p a → a ∈ order select preds nodes →
      p ∈ order select preds nodes ∧
        (order select preds nodes).idxOf p < (order select preds nodes).idxOf a := by
    intro p a hedge ha
    obtain ⟨pre, post, hspl⟩ := append_of_mem ha
    have hpre := hbef pre a post hspl p hedge.2
    rw [hspl] at hnd ⊢
    exact ⟨mem_append_left _ hpre, idxOf_lt_of_mem hnd hpre⟩
  induction h with
  | single hedge => exact hstep hedge ha
  | tail _ hedge ih =>
    obtain ⟨hb, hlt⟩ := hstep hedge ha
    obtain ⟨hp, hlt'⟩ := ih hb
    exact ⟨hp, hlt'.trans hlt⟩

/-- **What is left out**: the nodes on cycles and the nodes that cycles lead to. -/
theorem notMem_order_iff
    (hpreds : ∀ a ∈ nodes, ∀ p ∈ preds a, p ∈ nodes) (ha : a ∈ nodes) :
    a ∉ order select preds nodes ↔
      ∃ c, TransGen (Edge preds nodes) c c ∧ ReflTransGen (Edge preds nodes) c a := by
  have hwaits := (@order_spec _ _ _ _ _ preds nodes select hnodes hslct).2.2.2
  constructor
  · intro hout
    by_contra hno
    -- what leads to the node and is left out has an element that waits for no other
    have hacyc : Acyclic fun p q => Edge preds nodes p q ∧ ReflTransGen (Edge preds nodes) q a := by
      intro c hc
      obtain ⟨q, -, -, hqa⟩ := TransGen.tail'_iff.mp hc
      exact hno ⟨c, hc.lift id fun _ _ h => h.1, hqa⟩
    obtain ⟨m, ⟨hm, hma, hmout⟩, hmin⟩ := hacyc.exists_minimal
      (S := { p | p ∈ nodes ∧ ReflTransGen (Edge preds nodes) p a ∧ p ∉ order select preds nodes })
      ((finite_toSet nodes).subset fun p hp => hp.1) ⟨a, ha, .refl, hout⟩
    obtain ⟨p, hp, hpout⟩ := hwaits m hm hmout
    exact hmin p ⟨hpreds m hm p hp, .head ⟨hm, hp⟩ hma, hpout⟩ ⟨⟨hm, hp⟩, hma⟩
  · rintro ⟨c, hcyc, hca⟩ hin
    have hc : c ∈ order select preds nodes := by
      rcases reflTransGen_iff_eq_or_transGen.mp hca with rfl | hca
      · exact hin
      · exact (idxOf_lt_of_transGen hnodes hslct hca hin).1
    exact lt_irrefl _ (idxOf_lt_of_transGen hnodes hslct hcyc hc).2

/-- **Everything is sorted** if and only if there is no cycle. -/
theorem length_order_eq_iff
    (hpreds : ∀ a ∈ nodes, ∀ p ∈ preds a, p ∈ nodes) :
    (order select preds nodes).length = nodes.length ↔
      Acyclic fun p a => a ∈ nodes ∧ p ∈ preds a := by
  obtain ⟨hnd, hsubset, -⟩ := @order_spec _ _ _ _ _ preds nodes select hnodes hslct
  have hsubperm := subperm_of_subset hnd hsubset
  constructor
  · intro hlength c hc
    obtain ⟨_, -, hnode, -⟩ := TransGen.tail'_iff.mp hc
    exact (notMem_order_iff hnodes hslct hpreds hnode).mpr ⟨c, hc, .refl⟩
      ((hsubperm.perm_of_length_le hlength.ge).mem_iff.mpr hnode)
  · intro hacyc
    refine (hsubperm.antisymm (subperm_of_subset hnodes fun a ha => ?_)).length_eq
    by_contra hout
    obtain ⟨c, hc, -⟩ := (notMem_order_iff hnodes hslct hpreds ha).mp hout
    exact hacyc c hc

/-! ### Preferences -/

/-- The rule takes a node all of whose preferences are sorted, if there is a ready one. -/
def Prefers (select : Finset α → List α → Option (α × List α)) (prefs : α → List α) : Prop :=
  ∀ remaining ready choice, select remaining ready = some choice →
    (∃ a ∈ ready, ∀ q ∈ prefs a, q ∉ remaining) → ∀ q ∈ prefs choice.1, q ∉ remaining

/-- The state while all preferences are kept. -/
structure Keeps (preds prefs : α → List α) (nodes : List α) (s : State α) : Prop where
  good : Good preds nodes s
  remaining : ∀ a, a ∈ s.remaining ↔ a ∈ nodes ∧ a ∉ s.ordered
  earlier : ∀ pre a post, s.ordered = pre ++ a :: post →
    ∀ q ∈ (prefs a).filter (fun q => q ∈ nodes), q ∈ pre

/-- **Preferences are kept** if they close no cycle together with the edges: the first of the
nodes that are left is ready and has no open preference. -/
theorem order_keeps
    (hpreds : ∀ a ∈ nodes, ∀ p ∈ preds a, p ∈ nodes) {prefs : α → List α}
    (hprefers : Prefers select prefs)
    (hacyc : Acyclic fun p a => a ∈ nodes ∧ p ∈ nodes ∧ (p ∈ preds a ∨ p ∈ prefs a))
    {pre post : List α} {q : α} (hspl : order select preds nodes = pre ++ a :: post)
    (hq : q ∈ prefs a) (hqnode : q ∈ nodes) : q ∈ pre := by
  have hkeeps := Loop.run_invariant (step select (successors preds nodes))
    (P := Keeps preds prefs nodes) ?_ nodes.length (s := start preds nodes) ?_
  · exact hkeeps.earlier pre a post hspl q (mem_filter.mpr ⟨hq, decide_eq_true hqnode⟩)
  · intro s s' hstep h
    have hgood := (step_good hnodes hslct hstep h.good).1
    obtain ⟨⟨b, rest⟩, hchoice, hs'⟩ := Option.map_eq_some_iff.mp hstep
    have hbready : b ∈ s.ready := (hslct.perm _ _ _ hchoice).mem_iff.mp mem_cons_self
    have hbord : b ∉ s.ordered := fun hin => (nodup_append'.mp h.good.nodup).2.2 hin hbready
    have hbnode := h.good.subset b (mem_append_right _ hbready)
    obtain ⟨m, ⟨hm, hmord⟩, hmin⟩ := hacyc.exists_minimal (S := { a | a ∈ nodes ∧ a ∉ s.ordered })
      ((finite_toSet nodes).subset fun a ha => ha.1) ⟨b, hbnode, hbord⟩
    have hfree := hprefers _ _ _ hchoice ⟨m, (h.good.ready_iff m hm hmord).mpr fun p hp => ?_,
      fun p hp hleft => ?_⟩
    · subst hs'
      refine ⟨hgood, fun a => ?_, fun pre a post heq => earlier_append_singleton h.earlier ?_ heq⟩
      · rw [Finset.mem_erase, h.remaining, mem_append, mem_singleton, not_or, and_comm, and_assoc]
      · intro p hp
        obtain ⟨hp, hpnode⟩ := mem_filter.mp hp
        by_contra hout
        exact hfree p hp ((h.remaining p).mpr ⟨of_decide_eq_true hpnode, hout⟩)
    · by_contra hout
      have hnode := hpreds m hm p hp
      exact hmin p ⟨hnode, hout⟩ ⟨hm, hnode, .inl hp⟩
    · have hleft := (h.remaining p).mp hleft
      exact hmin p hleft ⟨hm, hleft.1, .inr hp⟩
  · refine ⟨start_good hnodes, fun a => ?_, fun pre a post heq => ?_⟩
    · rw [start, mem_toFinset, and_iff_left not_mem_nil]
    · cases pre <;> cases heq

end

end Kahn
