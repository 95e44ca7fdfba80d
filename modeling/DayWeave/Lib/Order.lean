import Mathlib.Data.List.Sort
import Mathlib.Data.List.Destutter

/-!
Orders given by three-way comparisons, and stable sorting by them.

`compareOn key` and `compareLex` build the comparison of a tuple of keys. `sortBy cmp` is the
stable sort: a permutation (`sortBy_perm`), sorted (`pairwise_sortBy`), independent of the input
order where the comparison decides (`sortBy_congr_perm`), and compatible with maps and filters
(`sortBy_map_of_mem`, `sortBy_filter`). `leastBy` and `greatestBy` pick an extreme element;
`dedupBy same` drops every element that is the same as the one kept before it.
-/

open List Std

variable {α : Type*}

section

variable {β γ : Type*} [Ord β] [Ord γ] {f : α → β}

/-- Comparing by an injective key identifies only equal values. -/
lemma lawfulEqCmp_compareOn [LawfulEqOrd β] (hf : Function.Injective f) :
    LawfulEqCmp (compareOn f) where
  eq_of_compare h := hf (LawfulEqOrd.eq_of_compare h)
  compare_self := ReflOrd.compare_self

/-- Two keys that together determine the value identify only equal values. -/
lemma lawfulEqCmp_compareLex [LawfulEqOrd β] [LawfulEqOrd γ] {g : α → γ}
    (h : ∀ a b, f a = f b → g a = g b → a = b) :
    LawfulEqCmp (compareLex (compareOn f) (compareOn g)) where
  eq_of_compare {a b} hab := by
    obtain ⟨h1, h2⟩ := Ordering.then_eq_eq.mp hab
    exact h a b (LawfulEqOrd.eq_of_compare h1) (LawfulEqOrd.eq_of_compare h2)
  compare_self {a} := Ordering.then_eq_eq.mpr
    ⟨ReflOrd.compare_self, ReflOrd.compare_self⟩

end

section

variable {R : α → α → Prop}

/-- A relation of every element to those before it holds pairwise. -/
lemma pairwise_of_forall_split {l : List α}
    (h : ∀ pre b post, l = pre ++ b :: post → ∀ a ∈ pre, R a b) : l.Pairwise R := by
  rw [pairwise_iff_getElem]
  intro i j hi hj hij
  refine h (l.take j) l[j] (l.drop (j + 1)) ?_ l[i] ?_
  · rw [getElem_cons_drop, take_append_drop]
  · exact mem_take_iff_getElem.mpr ⟨i, by omega, rfl⟩

/-- A symmetric relation holds pairwise if and only if it holds at different
positions. -/
lemma pairwise_iff_getElem?_ne (hsymm : ∀ a b, R a b → R b a) {l : List α} :
    l.Pairwise R ↔ ∀ (i j : ℕ) (a b : α), l[i]? = some a → l[j]? = some b → i ≠ j → R a b := by
  refine ⟨fun h i j a b hi hj hij => ?_, fun h => ?_⟩
  · obtain ⟨hi', rfl⟩ := List.getElem?_eq_some_iff.mp hi
    obtain ⟨hj', rfl⟩ := List.getElem?_eq_some_iff.mp hj
    rcases Nat.lt_or_gt_of_ne hij with hlt | hgt
    · exact pairwise_iff_getElem.mp h i j hi' hj' hlt
    · exact hsymm _ _ (pairwise_iff_getElem.mp h j i hj' hi' hgt)
  · rw [pairwise_iff_getElem]
    intro i j hi hj hij
    exact h i j _ _ (getElem?_eq_getElem hi) (getElem?_eq_getElem hj) (Nat.ne_of_lt hij)

/-- A list without repetitions splits at an element in one way only. -/
lemma nodup_split_unique {l pre post pre' post' : List α} {a : α} (h : l.Nodup)
    (hl : l = pre ++ a :: post) (hl' : l = pre' ++ a :: post') : pre = pre' ∧ post = post' := by
  obtain ⟨hfr, -⟩ := nodup_cons.mp (nodup_middle.mp (hl ▸ h))
  obtain ⟨hpre, -, hpost⟩ := (append_cons_inj_of_notMem (mt (mem_append_left _) hfr)
    (mt (mem_append_right _) hfr)).mp (hl.symm.trans hl')
  exact ⟨hpre, hpost⟩

/-- A list splits at the last element with a property. -/
lemma exists_last_of_mem {P : α → Prop} {l : List α} {a : α} (ha : a ∈ l) (hP : P a) :
    ∃ pre b post, l = pre ++ b :: post ∧ P b ∧ ∀ c ∈ post, ¬ P c := by
  induction l generalizing a with
  | nil => cases ha
  | cons x rest ih =>
    by_cases hrest : ∃ c ∈ rest, P c
    · obtain ⟨c, hc, hPc⟩ := hrest
      obtain ⟨pre, b, post, rfl, hb⟩ := ih hc hPc
      exact ⟨x :: pre, b, post, rfl, hb⟩
    · rcases mem_cons.mp ha with rfl | hin
      · exact ⟨[], a, rest, rfl, hP, fun c hc hPc => hrest ⟨c, hc, hPc⟩⟩
      · exact absurd ⟨a, hin, hP⟩ hrest

end

/-- Elements without a property may be left behind when it is looked for. -/
lemma any_dropWhile {p q : α → Bool} (h : ∀ a, p a = true → q a = false) (l : List α) :
    (l.dropWhile p).any q = l.any q := by
  induction l with
  | nil => rfl
  | cons a rest ih =>
    rw [dropWhile_cons]
    split_ifs with ha
    · rw [ih, any_cons, h a ha, Bool.false_or]
    · rfl

/-- A key that no two elements share selects one of them. -/
lemma filter_key_eq {κ : Type*} [DecidableEq κ] {key : α → κ} {l : List α} {a : α}
    (hnd : (l.map key).Nodup) (ha : a ∈ l) : l.filter (fun b => key b = key a) = [a] := by
  induction l with
  | nil => cases ha
  | cons x rest ih =>
    rw [map_cons, nodup_cons] at hnd
    rcases mem_cons.mp ha with rfl | ha
    · rw [filter_cons_of_pos (by simp), filter_eq_nil_iff.mpr]
      intro b hb hab
      exact hnd.1 (of_decide_eq_true hab ▸ mem_map_of_mem hb)
    · rw [filter_cons_of_neg, ih hnd.2 ha]
      intro hab
      exact hnd.1 (of_decide_eq_true hab ▸ mem_map_of_mem ha)

/-- The only element with a property is found in every order. -/
lemma find?_congr_perm {p : α → Bool} {l l' : List α} (h : l.Perm l')
    (huniq : ∀ a ∈ l, ∀ b ∈ l, p a = true → p b = true → a = b) : l.find? p = l'.find? p := by
  cases hfind : l'.find? p with
  | none =>
    rw [find?_eq_none] at hfind ⊢
    exact fun a ha => hfind a (h.mem_iff.mp ha)
  | some b =>
    have hb := h.mem_iff.mpr (mem_of_find?_eq_some hfind)
    cases hoth : l.find? p with
    | none => exact absurd (find?_some hfind) (find?_eq_none.mp hoth b hb)
    | some a =>
      rw [huniq a (mem_of_find?_eq_some hoth) b hb (find?_some hoth) (find?_some hfind)]

section

variable {β : Type*} (cmp : α → α → Ordering) {l : List α}

/-- The stable sort by a three-way comparison. -/
def sortBy (l : List α) : List α := l.insertionSort fun a b => (cmp a b).isLE = true

lemma sortBy_perm (l : List α) : (sortBy cmp l).Perm l := perm_insertionSort _ l

@[simp] lemma mem_sortBy {a : α} : a ∈ sortBy cmp l ↔ a ∈ l := (sortBy_perm cmp l).mem_iff

@[simp] lemma length_sortBy (l : List α) : (sortBy cmp l).length = l.length :=
  (sortBy_perm cmp l).length_eq

lemma pairwise_sortBy [TransCmp cmp] (l : List α) :
    (sortBy cmp l).Pairwise fun a b => (cmp a b).isLE = true := by
  have : Std.Total fun a b => (cmp a b).isLE = true := ⟨fun a b => by
    rw [@OrientedCmp.eq_swap _ cmp _ b a]
    cases cmp a b <;> simp⟩
  have : IsTrans α fun a b => (cmp a b).isLE = true := ⟨fun _ _ _ => TransCmp.isLE_trans⟩
  exact pairwise_insertionSort _ l

lemma sortBy_eq_self (h : l.Pairwise fun a b => (cmp a b).isLE = true) : sortBy cmp l = l :=
  h.insertionSort_eq

/-- The sorted list does not depend on the order of the input, as long as the
comparison tells its elements apart. -/
lemma sortBy_congr_perm [TransCmp cmp] {l' : List α} (h : l.Perm l')
    (hinj : ∀ a ∈ l, ∀ b ∈ l, cmp a b = .eq → a = b) : sortBy cmp l = sortBy cmp l' := by
  refine List.Perm.eq_of_pairwise ?_ (pairwise_sortBy cmp l) (pairwise_sortBy cmp l')
    (((sortBy_perm cmp l).trans h).trans (sortBy_perm cmp l').symm)
  intro a b ha hb hab hba
  refine hinj a ((mem_sortBy cmp).mp ha) b (h.mem_iff.mpr ((mem_sortBy cmp).mp hb)) ?_
  rw [@OrientedCmp.eq_swap _ cmp _ b a] at hba
  revert hab hba
  cases cmp a b <;> simp

/-- Sorting commutes with a map that does not change the comparison of the elements. -/
lemma sortBy_map_of_mem {cmp : α → α → Ordering} {cmp' : β → β → Ordering} {f : α → β} (l : List α)
    (h : ∀ a ∈ l, ∀ b ∈ l, cmp' (f a) (f b) = cmp a b) :
    sortBy cmp' (l.map f) = (sortBy cmp l).map f :=
  (map_insertionSort _ _ f l fun a ha b hb => by rw [h a ha b hb]).symm

lemma filter_orderedInsert [TransCmp cmp] {p : α → Bool} {a : α}
    (h : l.Pairwise fun a b => (cmp a b).isLE = true) :
    (l.orderedInsert (fun a b => (cmp a b).isLE = true) a).filter p =
      if p a then (l.filter p).orderedInsert (fun a b => (cmp a b).isLE = true) a
      else l.filter p := by
  induction l with
  | nil => simp [filter_cons]
  | cons b rest ih =>
    obtain ⟨hb, hrest⟩ := pairwise_cons.mp h
    by_cases hab : (cmp a b).isLE = true
    · rw [orderedInsert_cons, if_pos hab, filter_cons]
      -- `a` also comes before what is kept of the list
      split_ifs with ha
      · cases hkept : (b :: rest).filter p with
        | nil => rfl
        | cons c kept =>
          have hc := (mem_filter.mp (hkept ▸ mem_cons_self ..)).1
          have hac := (mem_cons.mp hc).elim (fun h => h ▸ hab)
            fun hc => TransCmp.isLE_trans hab (hb c hc)
          rw [orderedInsert_cons, if_pos hac]
      · rfl
    · rw [orderedInsert_cons, if_neg hab, filter_cons, ih hrest, filter_cons]
      split_ifs with hpb ha ha
      · rw [orderedInsert_cons, if_neg hab]
      all_goals rfl

lemma sortBy_filter [TransCmp cmp] (p : α → Bool) (l : List α) :
    sortBy cmp (l.filter p) = (sortBy cmp l).filter p := by
  induction l with
  | nil => rfl
  | cons a rest ih =>
    have hinsert := filter_orderedInsert cmp (p := p) (a := a) (pairwise_sortBy cmp rest)
    change _ = List.filter p (List.orderedInsert _ a (sortBy cmp rest))
    rw [hinsert, filter_cons, ← ih]
    split_ifs <;> rfl

end

section

variable (cmp : α → α → Ordering) {l : List α}

/-- The first of the least elements of a list. -/
def leastBy : List α → Option α
  | [] => none
  | a :: rest => some (rest.foldl (fun best b => if cmp b best = .lt then b else best) a)

/-- The last of the greatest elements of a list. -/
def greatestBy : List α → Option α
  | [] => none
  | a :: rest => some (rest.foldl (fun best b => if cmp b best = .lt then best else b) a)

lemma leastBy_mem {b : α} (h : leastBy cmp l = some b) : b ∈ l := by
  cases l with
  | nil => cases h
  | cons a rest =>
    cases h
    refine foldlRecOn (motive := (· ∈ a :: rest)) rest _ mem_cons_self fun best hbest b hb => ?_
    split
    · exact mem_cons_of_mem _ hb
    · exact hbest

@[simp] lemma leastBy_eq_none : leastBy cmp l = none ↔ l = [] := by
  cases l <;> simp [leastBy]

lemma leastBy_isLE [TransCmp cmp] {b : α} (h : leastBy cmp l = some b) {a : α}
    (ha : a ∈ l) : (cmp b a).isLE = true := by
  cases l with
  | nil => cases h
  | cons c rest =>
    cases h
    induction rest generalizing c a with
    | nil =>
      rw [mem_singleton.mp ha]
      exact ReflCmp.isLE_rfl
    | cons d rest ih =>
      -- the better one of the first two is at most either of them
      have hbest : (cmp (if cmp d c = .lt then d else c) c).isLE = true ∧
          (cmp (if cmp d c = .lt then d else c) d).isLE = true := by
        split
        · rename_i hlt
          exact ⟨by rw [hlt]; rfl, ReflCmp.isLE_rfl⟩
        · rename_i hlt
          refine ⟨ReflCmp.isLE_rfl, ?_⟩
          rw [← Ordering.ne_gt_iff_isLE]
          exact fun hgt => hlt (OrientedCmp.gt_iff_lt.mp hgt)
      have hfst := ih (if cmp d c = .lt then d else c) mem_cons_self
      rcases mem_cons.mp ha with rfl | ha
      · exact TransCmp.isLE_trans hfst hbest.1
      · rcases mem_cons.mp ha with rfl | ha
        · exact TransCmp.isLE_trans hfst hbest.2
        · exact ih _ (mem_cons_of_mem _ ha)

end

/-- The list without the elements that are the same as the one kept before. -/
def dedupBy (same : α → α → Bool) (l : List α) : List α :=
  l.destutter fun a b => same a b = false

variable {l : List α} {a : α}

lemma dedupBy_sublist (same : α → α → Bool) (l : List α) : (dedupBy same l).Sublist l :=
  destutter_sublist _ l

lemma exists_mem_dedupBy (same : α → α → Bool) (h : a ∈ l) :
    ∃ b ∈ dedupBy same l, b = a ∨ same b a = true := by
  have hdestutter : ∀ (l : List α) (c : α), a ∈ c :: l →
      ∃ b ∈ l.destutter' (fun a b => same a b = false) c, b = a ∨ same b a = true := by
    intro l
    induction l with
    | nil => exact fun c hc => ⟨c, mem_singleton_self c, .inl (mem_singleton.mp hc).symm⟩
    | cons d rest ih =>
      intro c hc
      by_cases hsame : same c d = false
      · rw [destutter'_cons_pos (R := fun a b => same a b = false) _ hsame]
        rcases mem_cons.mp hc with rfl | hc
        · exact ⟨a, mem_cons_self .., .inl rfl⟩
        · obtain ⟨b, hb, hba⟩ := ih d hc
          exact ⟨b, mem_cons_of_mem _ hb, hba⟩
      · rw [destutter'_cons_neg (R := fun a b => same a b = false) _ hsame]
        rcases mem_cons.mp hc with rfl | hc
        · exact ih a mem_cons_self
        · rcases mem_cons.mp hc with rfl | hc
          · exact ⟨c, mem_destutter' _ _ _, .inr (Bool.not_eq_false _ ▸ hsame)⟩
          · exact ih c (mem_cons_of_mem _ hc)
  cases l with
  | nil => cases h
  | cons c rest => exact hdestutter rest c h

lemma mem_dedupBy_beq [BEq α] [LawfulBEq α] : a ∈ dedupBy (fun a b => a == b) l ↔ a ∈ l := by
  refine ⟨fun h => (dedupBy_sublist _ l).mem h, fun h => ?_⟩
  obtain ⟨b, hb, hba⟩ := exists_mem_dedupBy (fun a b => a == b) h
  have : b = a := hba.elim id eq_of_beq
  exact this ▸ hb

/-- Every element of a list with every later one. -/
def pairs : List α → List (α × α)
  | [] => []
  | a :: rest => rest.map (Prod.mk a) ++ pairs rest

/-- How many pairs are related by a symmetric relation does not depend on the order. -/
lemma countP_pairs_perm {r : α → α → Bool} (hr : ∀ a b, r a b = r b a) {l' : List α}
    (h : l.Perm l') :
    (pairs l).countP (fun p => r p.1 p.2) = (pairs l').countP (fun p => r p.1 p.2) := by
  induction h with
  | nil => rfl
  | cons a h ih =>
    rw [pairs, pairs, countP_append, countP_append, ih, (h.map _).countP_eq]
  | swap a b l =>
    simp only [pairs, map_cons, countP_append, countP_cons, hr b a]
    omega
  | trans _ _ ih ih' => exact ih.trans ih'
