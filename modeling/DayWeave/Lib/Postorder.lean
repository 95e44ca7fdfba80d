import Std.Data.ExtTreeSet
import DayWeave.Lib.Kahn
import DayWeave.Lib.Result

/-!
The nodes of a forest, children before parents.

A forest is given by the parent of every node. In every round the smallest node of which all
children are listed is listed next. The list exists exactly for forests (`exists_order`,
`isForest_of_order`), and has every node once, after its children (`isPostorder_of_order`).
-/

open List Std Relation
open ExtTreeMap (mem_iff_exists)

namespace Postorder

variable {α ε : Type*} [Ord α] [TransOrd α]

/-! ### The list -/

variable (missing : α → α → ε) (cycle : α → ε) (parents : ExtTreeMap α (Option α))

def countChild (remaining : ExtTreeMap α ℕ) (entry : α × Option α) : Except ε (ExtTreeMap α ℕ) :=
  match entry.2 with
  | none => .ok remaining
  | some parent =>
    match remaining[parent]? with
    | none => .error (missing entry.1 parent)
    | some count => .ok (remaining.insert parent (count + 1))

/-- The number of children of every node; a missing parent is an error. -/
def countChildren : Except ε (ExtTreeMap α ℕ) :=
  parents.toList.foldlM (countChild missing) (parents.map fun _ _ => 0)

/-- The number of children that are not listed, of every node that is not listed; the nodes
that are ready; and the list. -/
structure State (α : Type*) [Ord α] where
  remaining : ExtTreeMap α ℕ
  ready : ExtTreeSet α
  result : List α

/-- Before the first round the nodes without children are ready. -/
def start (remaining : ExtTreeMap α ℕ) : State α where
  remaining := remaining
  ready := ExtTreeSet.ofList
    (remaining.toList.filterMap fun entry => if entry.2 = 0 then some entry.1 else none)
  result := []

/-- Lists one node, which its parent no longer waits for. -/
def list (s : State α) (id : α) : State α :=
  let remaining := s.remaining.erase id
  let ready := s.ready.erase id
  let result := s.result ++ [id]
  match (parents[id]?).join with
  | none => ⟨remaining, ready, result⟩
  | some parent =>
    match remaining[parent]? with
    | none => ⟨remaining, ready, result⟩
    | some count =>
      ⟨remaining.insert parent (count - 1),
        if count - 1 = 0 then ready.insert parent else ready, result⟩

/-- One round. -/
def step (s : State α) : Option (State α) :=
  s.ready.toList.head?.map (list parents s)

/-- The nodes, children before parents. -/
def order : Except ε (List α) :=
  match countChildren missing parents with
  | .error error => .error error
  | .ok remaining =>
    let final := Loop.run (step parents) parents.size (start remaining)
    match final.remaining.keys.head? with
    | some id => .error (cycle id)
    | none => .ok final.result

/-! ### Forests -/

def ChildOf (child parent : α) : Prop :=
  parents[child]? = some (some parent)

/-- Every parent is a node, and no node is its own ancestor. -/
structure IsForest (parents : ExtTreeMap α (Option α)) : Prop where
  mem : ∀ child parent, ChildOf parents child parent → parent ∈ parents
  acyclic : Acyclic (ChildOf parents)

/-- Every node is listed once, and every child before its parent. -/
structure IsPostorder (parents : ExtTreeMap α (Option α)) (l : List α) : Prop where
  nodup : l.Nodup
  mem_iff : ∀ a, a ∈ l ↔ a ∈ parents
  after : ∀ pre a post, l = pre ++ a :: post → ∀ child, ChildOf parents child a → child ∈ pre

namespace IsPostorder

variable {parents : ExtTreeMap α (Option α)} {l : List α} (h : IsPostorder parents l)
  {child parent : α}

include h

lemma parent_mem {pre post : List α} (heq : l = pre ++ child :: post)
    (hch : ChildOf parents child parent) (hpar : parent ∈ parents) : parent ∈ post := by
  have hpre : child ∉ pre := fun hin =>
    disjoint_of_nodup_append (heq ▸ h.nodup) hin mem_cons_self
  rcases mem_append.mp (heq ▸ (h.mem_iff parent).mpr hpar) with hin | hin
  · obtain ⟨x, y, rfl⟩ := append_of_mem hin
    rw [append_assoc, cons_append] at heq
    exact absurd (mem_append_left _ (h.after x parent _ heq child hch)) hpre
  · refine (mem_cons.mp hin).resolve_left ?_
    rintro rfl
    exact hpre (h.after pre parent post heq parent hch)

/-- What holds of a node when it holds of its children holds of all nodes. -/
lemma induction {P : α → Prop}
    (hP : ∀ a ∈ parents, (∀ child, ChildOf parents child a → P child) → P a) :
    ∀ a ∈ parents, P a := by
  suffices hprefix : ∀ pre post, l = pre ++ post → ∀ a ∈ pre, P a by
    exact fun a ha => hprefix l [] (append_nil l).symm a ((h.mem_iff a).mpr ha)
  intro pre
  induction pre using List.reverseRecOn with
  | nil => exact fun _ _ => nofun
  | append_singleton pre b ih =>
    intro post heq a ha
    have heq' : l = pre ++ b :: post := by rw [heq, append_assoc, singleton_append]
    rcases mem_append.mp ha with ha | ha
    · exact ih (b :: post) heq' a ha
    · rw [mem_singleton.mp ha]
      refine hP b ((h.mem_iff b).mp (heq' ▸ mem_append_right _ mem_cons_self))
        fun child hch => ih (b :: post) heq' child (h.after pre b post heq' child hch)

variable [DecidableEq α]

lemma idxOf_lt (hch : ChildOf parents child parent) (hpar : parent ∈ parents) :
    l.idxOf child < l.idxOf parent := by
  obtain ⟨pre, post, heq⟩ := append_of_mem ((h.mem_iff parent).mpr hpar)
  have hnd := h.nodup
  rw [heq] at hnd ⊢
  exact Kahn.idxOf_lt_of_mem hnd (h.after pre parent post heq child hch)

lemma isForest
    (hmem : ∀ child parent, ChildOf parents child parent → parent ∈ parents) : IsForest parents :=
  ⟨hmem, acyclic_of_rank l.idxOf fun child parent hch =>
    h.idxOf_lt hch (hmem child parent hch)⟩

end IsPostorder

/-- The children of a node, in order. -/
def children [DecidableEq α] (parents : ExtTreeMap α (Option α)) (parent : α) : List α :=
  (parents.toList.filter fun entry => entry.2 = some parent).map Prod.fst

section

variable {parents : ExtTreeMap α (Option α)} {missing : α → α → ε}

lemma exists_foldlM_countChild {l : List (α × Option α)} {m : ExtTreeMap α ℕ}
    (h : ∀ entry ∈ l, ∀ p ∈ entry.2, p ∈ m) :
    ∃ counts, l.foldlM (countChild missing) m = .ok counts := by
  induction l generalizing m with
  | nil => exact ⟨m, rfl⟩
  | cons entry rest ih =>
    cases hent : entry.2 with
    | none =>
      refine Except.exists_bind_eq_ok (by rw [countChild, hent]) ?_
      exact ih fun e he => h e (mem_cons_of_mem _ he)
    | some parent =>
      obtain ⟨count, hcnt⟩ := mem_iff_exists.mp (h entry mem_cons_self parent hent)
      refine Except.exists_bind_eq_ok (a := m.insert parent (count + 1))
        (by simp only [countChild, hent, hcnt]) (ih fun e he p hp => ?_)
      exact ExtTreeMap.mem_insert.mpr (.inr (h e (mem_cons_of_mem _ he) p hp))

variable [DecidableEq α]

lemma nodup_children (parent : α) : (children parents parent).Nodup := by
  have hkeys : (parents.toList.map Prod.fst).Nodup := by
    rw [ExtTreeMap.map_fst_toList_eq_keys]
    exact ExtTreeMap.nodup_keys
  exact hkeys.sublist (filter_sublist.map _)

variable [LawfulEqOrd α] {remaining : ExtTreeMap α ℕ}

lemma mem_children {parent child : α} :
    child ∈ children parents parent ↔ ChildOf parents child parent := by
  simp [children, ChildOf]

/-! ### The number of children -/

lemma foldlM_countChild {l : List (α × Option α)} {m counts : ExtTreeMap α ℕ}
    (h : l.foldlM (countChild missing) m = .ok counts) :
    (∀ entry ∈ l, ∀ p ∈ entry.2, p ∈ m) ∧ ∀ k, counts[k]? =
      (m[k]?).map (· + l.countP fun entry => entry.2 = some k) := by
  induction l generalizing m with
  | nil =>
    cases h
    exact ⟨nofun, fun k => by simp⟩
  | cons entry rest ih =>
    obtain ⟨m', hm', hrest⟩ := Except.bind_eq_ok.mp h
    obtain ⟨hmem, hcts⟩ := ih hrest
    unfold countChild at hm'
    split at hm'
    · rename_i hnone
      cases hm'
      refine ⟨forall_mem_cons.mpr ⟨fun p hp => ?_, hmem⟩, fun k => ?_⟩
      · rw [hnone] at hp
        cases hp
      · rw [hcts, countP_cons_of_neg (by simp [hnone])]
    · rename_i parent hpar
      split at hm'
      · cases hm'
      · rename_i count hcnt
        cases hm'
        have hpm : parent ∈ m := mem_iff_exists.mpr ⟨_, hcnt⟩
        have hkey : ∀ k, k ∈ m.insert parent (count + 1) ↔ k ∈ m := fun k => by
          rw [ExtTreeMap.mem_insert, LawfulEqOrd.compare_eq_iff_eq]
          exact or_iff_right_of_imp fun heq => heq ▸ hpm
        refine ⟨forall_mem_cons.mpr ⟨fun p hp => ?_, fun e he p hp =>
          (hkey p).mp (hmem e he p hp)⟩, fun k => ?_⟩
        · rw [hpar] at hp
          cases hp
          exact hpm
        · rw [hcts, ExtTreeMap.getElem?_insert]
          by_cases heq : parent = k
          · subst heq
            rw [if_pos ReflOrd.compare_self, hcnt, countP_cons_of_pos (by simp [hpar])]
            simp only [Option.map_some, Option.some.injEq]
            omega
          · rw [if_neg (mt LawfulEqOrd.eq_of_compare heq), countP_cons_of_neg (by simp [hpar, heq])]

lemma getElem?_countChildren (h : countChildren missing parents = .ok remaining) (k : α) :
    remaining[k]? = (parents[k]?).map fun _ => (children parents k).length := by
  rw [(foldlM_countChild h).2, ExtTreeMap.getElem?_map, Option.map_map, children, length_map,
    countP_eq_length_filter]
  simp [Function.comp_def]

lemma exists_countChildren_iff : (∃ remaining, countChildren missing parents = .ok remaining) ↔
    ∀ child parent, ChildOf parents child parent → parent ∈ parents := by
  have hmem : ∀ p, p ∈ parents.map (fun _ _ => 0) ↔ p ∈ parents := fun p => ExtTreeMap.mem_map
  constructor
  · rintro ⟨remaining, h⟩ child parent hch
    exact (hmem parent).mp ((foldlM_countChild h).1 (child, some parent)
      (ExtTreeMap.mem_toList_iff_getElem?_eq_some.mpr hch) parent rfl)
  · intro h
    refine exists_foldlM_countChild fun entry hent p hp => (hmem p).mpr (h entry.1 p ?_)
    rw [ChildOf, ← Option.mem_def.mp hp]
    exact ExtTreeMap.mem_toList_iff_getElem?_eq_some.mp hent

/-! ### The rounds -/

/-- The counts after a node is listed. -/
def settle (parents : ExtTreeMap α (Option α)) (remaining : ExtTreeMap α ℕ) (id : α) :
    ExtTreeMap α ℕ :=
  match (parents[id]?).join with
  | none => remaining.erase id
  | some parent =>
    match (remaining.erase id)[parent]? with
    | none => remaining.erase id
    | some count => (remaining.erase id).insert parent (count - 1)

/-- What holds of the list and of the counts between rounds, whichever of the ready nodes is
listed first. -/
structure Counts (parents : ExtTreeMap α (Option α)) (result : List α)
    (remaining : ExtTreeMap α ℕ) : Prop where
  nodup : result.Nodup
  subset : ∀ a ∈ result, a ∈ parents
  remaining_eq : ∀ a, remaining[a]? = if a ∈ result then none else
    (parents[a]?).map fun _ => (children parents a).countP fun c => decide (c ∉ result)
  after : ∀ pre a post, result = pre ++ a :: post → ∀ c ∈ children parents a, c ∈ pre

omit [LawfulEqOrd α] in
/-- Before the first round every node waits for all of its children. -/
lemma Counts.start
    (h : ∀ k, remaining[k]? = (parents[k]?).map fun _ => (children parents k).length) :
    Counts parents [] remaining where
  nodup := nodup_nil
  subset := nofun
  remaining_eq a := (h a).trans (by simp)
  after pre a post hnil := by simp at hnil

namespace Counts

variable {result : List α} {remaining : ExtTreeMap α ℕ} {id a : α}

omit [LawfulEqOrd α] in
/-- A node that is ready is not listed, and all of its children are. -/
lemma of_ready (h : Counts parents result remaining) (hid : remaining[id]? = some 0) :
    id ∈ parents ∧ id ∉ result ∧ ∀ c ∈ children parents id, c ∈ result := by
  rw [h.remaining_eq] at hid
  split_ifs at hid with hlst
  obtain ⟨v, hv, hcnt⟩ := Option.map_eq_some_iff.mp hid
  refine ⟨mem_iff_exists.mpr ⟨v, hv⟩, hlst, fun c hc => ?_⟩
  simpa using countP_eq_zero.mp hcnt c hc

lemma count_children (a : α) :
    (children parents a).count id = if (parents[id]?).join = some a then 1 else 0 := by
  rw [(nodup_children a).count]
  simp only [mem_children, ChildOf, Option.join_eq_some_iff]

lemma getElem?_settle (remaining : ExtTreeMap α ℕ) (id a : α) :
    (settle parents remaining id)[a]? = if id = a then none else
      (remaining[a]?).map (· - if (parents[id]?).join = some a then 1 else 0) := by
  have herase : ∀ a, (remaining.erase id)[a]? = if id = a then none else remaining[a]? := by
    simp [ExtTreeMap.getElem?_erase]
  unfold settle
  split
  · rename_i hnone
    simp [herase, hnone]
  · rename_i parent hpar
    by_cases ha : parent = a
    · subst ha
      split
      · rename_i hlst
        rw [herase] at hlst ⊢
        split_ifs at hlst ⊢ <;> simp [hlst]
      · rename_i count hcnt
        rw [herase] at hcnt
        split_ifs at hcnt with hid
        simp [hpar, hid, hcnt]
    · split
      · simp [herase, hpar, ha]
      · simp [ExtTreeMap.getElem?_insert, herase, hpar, ha]

section

variable (h : Counts parents result remaining)

include h

/-- The parent of a node that is not listed waits for it. -/
lemma ne_zero (hid : id ∉ result) (hpar : (parents[id]?).join = some a) :
    remaining[a]? ≠ some 0 := fun hzero =>
  hid ((h.of_ready hzero).2.2 id (mem_children.mpr (Option.join_eq_some_iff.mp hpar)))

/-- The nodes that are ready after a node is listed: those that were, and its parent if that
waited for no other child. -/
lemma settle_eq_zero_iff (hid : id ∉ result) (a : α) :
    (settle parents remaining id)[a]? = some 0 ↔ id ≠ a ∧ (remaining[a]? = some 0 ∨
      ((parents[id]?).join = some a ∧ remaining[a]? = some 1)) := by
  rw [getElem?_settle]
  by_cases hia : id = a
  · simp [hia]
  · by_cases hpar : (parents[id]?).join = some a
    · have hne := h.ne_zero hid hpar
      cases hcnt : remaining[a]? with
      | none => simp [hia]
      | some count =>
        simp [hia, hpar]
        omega
    · simp [hia, hpar]

/-- **Listing a ready node** keeps the invariant. -/
lemma settle (hrdy : remaining[id]? = some 0) :
    Counts parents (result ++ [id]) (settle parents remaining id) := by
  obtain ⟨hid, hnew, hchn⟩ := h.of_ready hrdy
  refine ⟨?_, ?_, fun a => ?_, fun pre a post heq =>
    Kahn.earlier_append_singleton h.after hchn heq⟩
  · exact nodup_append.mpr ⟨h.nodup, nodup_singleton _, fun a ha b hb =>
      mem_singleton.mp hb ▸ fun heq => hnew (heq ▸ ha)⟩
  · intro a ha
    rcases mem_append.mp ha with ha | ha
    · exact h.subset a ha
    · exact mem_singleton.mp ha ▸ hid
  · rw [getElem?_settle, h.remaining_eq]
    by_cases hia : id = a
    · simp [hia]
    · have hmem : a ∈ result ++ [id] ↔ a ∈ result := by simp [Ne.symm hia]
      simp only [if_neg hia, hmem]
      by_cases hlst : a ∈ result
      · simp [hlst]
      · rw [if_neg hlst, if_neg hlst, Option.map_map]
        refine congrArg (Option.map · _) (funext fun _ => ?_)
        have hcnt := Kahn.countP_append_singleton hnew (children parents a)
        rw [count_children] at hcnt
        simp only [Function.comp_apply]
        omega

end

omit [LawfulEqOrd α] in
lemma mem_iff (h : Counts parents result remaining) : a ∈ remaining ↔ a ∈ parents ∧ a ∉ result := by
  rw [ExtTreeMap.mem_iff_isSome_getElem?, ExtTreeMap.mem_iff_isSome_getElem?, h.remaining_eq]
  split_ifs with hlst <;> simp [hlst]

variable (h : Counts parents result remaining)

include h

lemma size_add_length : remaining.size + result.length = parents.size := by
  rw [← ExtTreeMap.length_keys, ← ExtTreeMap.length_keys, ← length_append]
  refine List.Perm.length_eq ((perm_ext_iff_of_nodup (nodup_append'.mpr
    ⟨ExtTreeMap.nodup_keys, h.nodup, fun a ha => ?_⟩) ExtTreeMap.nodup_keys).mpr fun a => ?_)
  · exact (h.mem_iff.mp (ExtTreeMap.mem_keys.mp ha)).2
  · rw [mem_append, ExtTreeMap.mem_keys, ExtTreeMap.mem_keys, h.mem_iff]
    have := h.subset a
    tauto

lemma isPostorder (hkeys : remaining.keys = []) : IsPostorder parents result where
  nodup := h.nodup
  mem_iff a := by
    refine ⟨h.subset a, fun ha => ?_⟩
    by_contra hlst
    have hleft := ExtTreeMap.mem_keys.mpr (h.mem_iff.mpr ⟨ha, hlst⟩)
    rw [hkeys] at hleft
    cases hleft
  after pre a post heq child hch := h.after pre a post heq child (mem_children.mpr hch)

lemma keys_eq_nil (hrdy : ∀ a : α, remaining[a]? ≠ some 0)
    (hfor : IsForest parents) : remaining.keys = [] := by
  by_contra hne
  obtain ⟨first, hfst⟩ := exists_mem_of_ne_nil _ hne
  -- of the nodes that are left, one has all of its children listed
  obtain ⟨m, hm, hminimal⟩ := hfor.acyclic.exists_minimal
    ((finite_toSet remaining.keys).subset fun a (ha : a ∈ remaining) =>
      ExtTreeMap.mem_keys.mpr ha) ⟨first, ExtTreeMap.mem_keys.mp hfst⟩
  have hlst : ∀ c ∈ children parents m, c ∈ result := by
    intro c hc
    have hch := mem_children.mp hc
    have hmem : c ∈ parents := mem_iff_exists.mpr ⟨_, hch⟩
    by_contra hnot
    exact hminimal c (h.mem_iff.mpr ⟨hmem, hnot⟩) hch
  refine hrdy m ?_
  have hsome := ExtTreeMap.mem_iff_isSome_getElem?.mp hm
  rw [h.remaining_eq] at hsome ⊢
  split_ifs at hsome ⊢
  · cases hsome
  · obtain ⟨v, hv⟩ := Option.isSome_iff_exists.mp (Option.isSome_map .. ▸ hsome)
    rw [hv, Option.map_some, countP_eq_zero.mpr fun c hc => by simpa using hlst c hc]

end Counts

/-- What holds between rounds. -/
structure Good (parents : ExtTreeMap α (Option α)) (s : State α) : Prop where
  counts : Counts parents s.result s.remaining
  ready_iff : ∀ a, a ∈ s.ready ↔ s.remaining[a]? = some 0

variable {remaining : ExtTreeMap α ℕ}

lemma start_good (h : countChildren missing parents = .ok remaining) :
    Good parents (start remaining) where
  counts := .start (getElem?_countChildren h)
  ready_iff a := by
    rw [start, ExtTreeSet.mem_ofList]
    simp only [contains_iff_mem, mem_filterMap, Prod.exists,
      ExtTreeMap.mem_toList_iff_getElem?_eq_some, Option.ite_none_right_eq_some,
      Option.some.injEq]
    exact ⟨fun ⟨k, n, hk, hn, hka⟩ => hka ▸ hn ▸ hk, fun ha => ⟨a, 0, ha, rfl, rfl⟩⟩

omit [DecidableEq α] [LawfulEqOrd α] in
lemma list_eq (s : State α) (id : α) : ∃ ready, list parents s id =
    ⟨settle parents s.remaining id, ready, s.result ++ [id]⟩ := by
  unfold list settle
  dsimp only
  split
  · exact ⟨_, rfl⟩
  · split <;> exact ⟨_, rfl⟩

lemma Good.mem_ready_list {s : State α} {id : α} (h : Good parents s) (hid : id ∉ s.result)
    (a : α) :
    a ∈ (list parents s id).ready ↔ (settle parents s.remaining id)[a]? = some 0 := by
  have herase : a ∈ s.ready.erase id ↔ id ≠ a ∧ s.remaining[a]? = some 0 := by
    rw [ExtTreeSet.mem_erase, h.ready_iff, ne_eq, ne_eq, LawfulEqOrd.compare_eq_iff_eq]
  rw [h.counts.settle_eq_zero_iff hid, and_or_left, ← herase]
  unfold list
  dsimp only
  split
  · rename_i hpar
    simp [hpar]
  · rename_i parent hpar
    rw [ExtTreeMap.getElem?_erase]
    by_cases ha : parent = a
    · subst ha
      by_cases hloop : id = parent
      · simp [hloop]
      · have hne := h.counts.ne_zero hid hpar
        cases hcnt : s.remaining[parent]? with
        | none => simp [hloop]
        | some count =>
          rw [hcnt, ne_eq, Option.some.injEq] at hne
          by_cases hone : count = 1
          · simp [hloop, hpar, hone]
          · simp [hloop, hpar, hone, show ¬ count - 1 = 0 by omega]
    · split
      · simp [hpar, ha]
      · dsimp only
        split_ifs <;> simp [hpar, ha, ExtTreeSet.mem_insert]

/-- **One round** keeps the invariant and lists one more node. -/
lemma step_good {s s' : State α} (hstep : step parents s = some s') (h : Good parents s) :
    Good parents s' ∧ s'.result.length = s.result.length + 1 := by
  obtain ⟨id, hid, rfl⟩ := Option.map_eq_some_iff.mp hstep
  have hrdy := (h.ready_iff id).mp (ExtTreeSet.mem_toList.mp (mem_of_head? hid))
  have hmem := h.mem_ready_list (h.counts.of_ready hrdy).2.1
  obtain ⟨ready, heq⟩ := list_eq s id
  rw [heq] at hmem ⊢
  exact ⟨⟨h.counts.settle hrdy, hmem⟩, by simp⟩

/-- **The whole loop** keeps the invariant and ends with no node ready. -/
lemma run_good (h : countChildren missing parents = .ok remaining) :
    let final := Loop.run (step parents) parents.size (start remaining)
    Counts parents final.result final.remaining ∧ ∀ a : α, final.remaining[a]? ≠ some 0 := by
  intro final
  have hgood : Good parents final :=
    Loop.run_invariant _ (fun s s' hs hi => (step_good hs hi).1) _ (start_good h)
  have hstop := Loop.run_stops (step parents)
    (fun s s' hs hi => (step_good hs hi).1) (μ := fun s => s.remaining.size)
    (fun s s' hi hs => by
      obtain ⟨hgood, hlen⟩ := step_good hs hi
      have hsize := hi.counts.size_add_length
      have hsize' := hgood.counts.size_add_length
      omega) (start_good h) (Nat.le.intro (start_good h).counts.size_add_length)
  have hemp := head?_eq_none_iff.mp (Option.map_eq_none_iff.mp hstop)
  refine ⟨hgood.counts, fun a ha => ?_⟩
  have hin := (hgood.ready_iff a).mpr ha
  rw [← ExtTreeSet.mem_toList, hemp] at hin
  cases hin

/-! ### The list is a postorder -/

variable {cycle : α → ε} {l : List α}

omit [DecidableEq α] [LawfulEqOrd α] in
lemma order_eq_ok_iff : order missing cycle parents = .ok l ↔
    ∃ remaining, countChildren missing parents = .ok remaining ∧
      (Loop.run (step parents) parents.size (start remaining)).remaining.keys = [] ∧
      (Loop.run (step parents) parents.size (start remaining)).result = l := by
  unfold order
  cases countChildren missing parents with
  | error => simp
  | ok remaining =>
    dsimp only
    split
    · rename_i hid
      refine iff_of_false nofun ?_
      rintro ⟨_, ⟨⟩, hkeys, -⟩
      rw [hkeys] at hid
      cases hid
    · rename_i hnone
      exact ⟨fun h => ⟨remaining, rfl, head?_eq_none_iff.mp hnone, Except.ok.inj h⟩,
        fun ⟨_, hok, _, h⟩ => by cases hok; exact congrArg _ h⟩

/-- **The list**: every node once, after all of its children. -/
theorem isPostorder_of_order (h : order missing cycle parents = .ok l) : IsPostorder parents l := by
  obtain ⟨remaining, hcts, hemp, rfl⟩ := order_eq_ok_iff.mp h
  exact (run_good hcts).1.isPostorder hemp

/-- Only forests have a list. -/
theorem isForest_of_order (h : order missing cycle parents = .ok l) : IsForest parents := by
  obtain ⟨remaining, hcts, -⟩ := order_eq_ok_iff.mp h
  exact (isPostorder_of_order h).isForest (exists_countChildren_iff.mp ⟨remaining, hcts⟩)

/-- Every forest has a list. -/
theorem exists_order (missing : α → α → ε) (cycle : α → ε) (h : IsForest parents) :
    ∃ l, order missing cycle parents = .ok l := by
  obtain ⟨remaining, hcts⟩ := exists_countChildren_iff.mpr h.mem
  obtain ⟨hgood, hrdy⟩ := run_good hcts
  exact ⟨_, order_eq_ok_iff.mpr ⟨remaining, hcts, hgood.keys_eq_nil hrdy h, rfl⟩⟩

end

end Postorder
