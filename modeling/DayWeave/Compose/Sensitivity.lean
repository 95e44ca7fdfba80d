import DayWeave.Domain.Identity
import DayWeave.Lib.Keyed
import DayWeave.Lib.Loop

/-!
Sensitivity is inherited.

Every item of a snapshot is resolved together with its ancestors, up to one that is resolved
already; an ancestor that is missing or met again counts as sensitive. Whatever the parents and
the order, an item is marked exactly if it is exposed (`effective_sensitivity_exact`).
-/

open List Std Relation

namespace DayWeave.Compose

/-- What the sensitivity of an item depends on. -/
structure CanonicalItem where
  id : Uuid
  parentId : Option Uuid
  isSensitive : Bool

section

variable (byId : ExtTreeMap Uuid CanonicalItem) (resolved : ExtTreeMap Uuid Bool)

/-- Goes from an item to its parent. The path has the last item first, and its items are those that
are being visited. The walk ends above a root, and at an item that is resolved, missing or on the
path. -/
def visitParent (s : List Uuid × Option Uuid) : Option (List Uuid × Option Uuid) := do
  let id ← s.2
  if id ∈ resolved then none
  else
    let item ← byId[id]?
    if id ∈ s.1 then none else some (id :: s.1, item.parentId)

/-- What is inherited at the end of a walk. -/
def inheritedAt : Option Uuid → Bool
  | none => false
  | some id => resolved.getD id true

/-- Marks one item of a path; the mark is inherited by the next. -/
def markItem (s : ExtTreeMap Uuid Bool × Bool) (id : Uuid) : ExtTreeMap Uuid Bool × Bool :=
  let value := (byId[id]?).all fun item => item.isSensitive || s.2
  (s.1.insert id value, value)

/-- Resolves an item and its ancestors. -/
def resolveSensitivity (start : Uuid) : ExtTreeMap Uuid Bool :=
  if start ∈ resolved then resolved
  else
    -- a path has no repetitions, so that a walk ends within as many steps as there are items
    let walk := Loop.run (visitParent byId resolved) byId.size ([], some start)
    (walk.1.foldl (markItem byId) (resolved, inheritedAt resolved walk.2)).1

/-- The sensitivity of every item, that of its ancestors included. -/
def effectiveSensitivityByItem (items : List CanonicalItem) : ExtTreeMap Uuid Bool :=
  let byId := Keyed.byKey CanonicalItem.id items
  byId.keys.foldl (resolveSensitivity byId) ∅

/-- The one identifier is the parent of the other. -/
def ParentOf (id parent : Uuid) : Prop :=
  ∃ item, byId[id]? = some item ∧ item.parentId = some parent

/-- The item or an ancestor is marked, or the ancestors lead to a missing item or into a cycle. -/
def IsExposed (id : Uuid) : Prop :=
  ∃ above, ReflTransGen (ParentOf byId) id above ∧
    (byId[above]? = none ∨ (byId[above]?.any CanonicalItem.isSensitive) = true ∨
      TransGen (ParentOf byId) above above)

/-- What is resolved is resolved rightly. -/
def IsRight : Prop := ∀ id value, resolved[id]? = some value → (value = true ↔ IsExposed byId id)

/-- A path leads from its last element to the parent of the first. -/
def IsPath : List Uuid → Option Uuid → Prop
  | [], _ => True
  | id :: rest, current =>
    (∃ item, byId[id]? = some item ∧ item.parentId = current) ∧ IsPath rest (some id)

end

variable {byId : ExtTreeMap Uuid CanonicalItem} {resolved : ExtTreeMap Uuid Bool}
  {id start : Uuid} {item : CanonicalItem} {path : List Uuid} {current : Option Uuid}

lemma isExposed_of_none (h : byId[id]? = none) : IsExposed byId id := ⟨id, .refl, .inl h⟩

lemma isExposed_iff (h : byId[id]? = some item) :
    IsExposed byId id ↔ item.isSensitive = true ∨ ∃ p ∈ item.parentId, IsExposed byId p := by
  have hpar : ∀ p, ParentOf byId id p → p ∈ item.parentId := by
    rintro p ⟨other, hoth, hp⟩
    cases h.symm.trans hoth
    exact hp
  constructor
  · rintro ⟨above, hpath, habove⟩
    rcases hpath.cases_head with rfl | ⟨p, hp, hrest⟩
    · rw [h] at habove
      rcases habove with hnone | hmarked | hcyc
      · cases hnone
      · exact .inl hmarked
      · -- the parent leads back to the item
        obtain ⟨p, hp, hback⟩ := TransGen.head'_iff.mp hcyc
        exact .inr ⟨p, hpar p hp, id, hback, .inr (.inr hcyc)⟩
    · exact .inr ⟨p, hpar p hp, above, hrest, habove⟩
  · rintro (hmarked | ⟨p, hp, above, hpath, habove⟩)
    · exact ⟨id, .refl, .inr (.inl (by rw [h]; exact hmarked))⟩
    · exact ⟨above, hpath.head ⟨item, h, hp⟩, habove⟩

lemma IsPath.transGen (h : IsPath byId path current) {p : Uuid} (hp : p ∈ current) :
    ∀ id ∈ path, TransGen (ParentOf byId) id p := by
  induction path generalizing current p with
  | nil => simp
  | cons first rest ih =>
    obtain ⟨⟨item, hitem, rfl⟩, hrest⟩ := h
    have hedge : ParentOf byId first p := ⟨item, hitem, hp⟩
    exact forall_mem_cons.mpr ⟨.single hedge, fun id hid => (ih hrest rfl id hid).tail hedge⟩

/-- **The walk**: it makes a path of different items, and it stops where what is inherited is
known. -/
lemma walk_spec (h : IsRight byId resolved) (hst : start ∈ byId) (hnew : start ∉ resolved) :
    let walk := Loop.run (visitParent byId resolved) byId.size ([], some start)
    IsPath byId walk.1 walk.2 ∧ start ∈ walk.1 ∧
      (inheritedAt resolved walk.2 = true ↔ ∃ p ∈ walk.2, IsExposed byId p) := by
  have hsome : ∀ s s', visitParent byId resolved s = some s' → ∃ id item, s.2 = some id ∧
      byId[id]? = some item ∧ id ∉ s.1 ∧ s' = (id :: s.1, item.parentId) := by
    rintro ⟨path, current⟩ s' hs
    simp only [visitParent, Option.bind_eq_bind, Option.bind_eq_some_iff,
      Option.ite_none_left_eq_some, Option.some.injEq] at hs
    obtain ⟨id, hid, -, item, hitem, hfree, rfl⟩ := hs
    exact ⟨id, item, hid, hitem, hfree, rfl⟩
  let Good : List Uuid × Option Uuid → Prop := fun s => IsPath byId s.1 s.2 ∧ s.1.Nodup ∧
    s.1 ⊆ byId.keys ∧ (s = ([], some start) ∨ start ∈ s.1)
  have hstep : ∀ s s', visitParent byId resolved s = some s' → Good s → Good s' := by
    rintro s s' hs ⟨hpath, hnd, hkeys, hfrom⟩
    obtain ⟨id, item, hid, hitem, hfree, rfl⟩ := hsome s s' hs
    refine ⟨⟨⟨item, hitem, rfl⟩, hid ▸ hpath⟩, nodup_cons.mpr ⟨hfree, hnd⟩,
      cons_subset.mpr ⟨ExtTreeMap.mem_keys.mpr ?_, hkeys⟩, .inr ?_⟩
    · exact ExtTreeMap.mem_iff_exists.mpr ⟨_, hitem⟩
    · rcases hfrom with rfl | hin
      · cases hid
        exact mem_cons_self
      · exact mem_cons_of_mem _ hin
  have hgood : Good ([], some start) := ⟨trivial, nodup_nil, nil_subset _, .inl rfl⟩
  have hstop := Loop.run_stops _ hstep (μ := fun s => byId.size - s.1.length)
    (fun s s' hs hnext => by
      obtain ⟨-, hnd, hkeys, -⟩ := hstep s s' hnext hs
      obtain ⟨id, item, -, -, -, rfl⟩ := hsome s s' hnext
      have hlen := (hnd.subperm hkeys).length_le
      rw [ExtTreeMap.length_keys, length_cons] at hlen
      simp only [length_cons]
      omega) hgood (Nat.sub_le _ _)
  intro walk
  obtain ⟨hpath, -, -, hfrom⟩ := Loop.run_invariant _ hstep byId.size hgood
  change visitParent byId resolved walk = none at hstop
  change walk = _ ∨ start ∈ walk.1 at hfrom
  refine ⟨hpath, hfrom.resolve_left fun heq => ?_, ?_⟩
  · obtain ⟨item, hitem⟩ := ExtTreeMap.mem_iff_exists.mp hst
    simp [heq, visitParent, hnew, hitem] at hstop
  · cases hend : walk.2 with
    | none => simp [inheritedAt]
    | some id =>
      simp only [visitParent, hend, Option.bind_eq_bind, Option.bind_some] at hstop
      simp only [inheritedAt, Option.mem_some_iff, exists_eq_left',
        ExtTreeMap.getD_eq_getD_getElem?]
      cases hvl : resolved[id]? with
      | some value => exact h id value hvl
      | none =>
        refine iff_of_true rfl ?_
        rw [if_neg (by simp [ExtTreeMap.mem_iff_isSome_getElem?, hvl])] at hstop
        cases hitem : byId[id]? with
        | none => exact isExposed_of_none hitem
        | some item =>
          -- the walk has come back to an item of the path
          rw [hitem, Option.bind_some] at hstop
          have hin : id ∈ walk.1 := by
            by_contra hout
            simp [hout] at hstop
          exact ⟨id, .refl, .inr (.inr ((hend ▸ hpath).transGen rfl id hin))⟩

/-- **Back down the path**: every item is marked by what its parent passes on. -/
lemma foldl_markItem {inherited : Bool} (h : IsRight byId resolved)
    (hpath : IsPath byId path current)
    (hinherited : inherited = true ↔ ∃ p ∈ current, IsExposed byId p) :
    IsRight byId (path.foldl (markItem byId) (resolved, inherited)).1 ∧
      ∀ id, id ∈ (path.foldl (markItem byId) (resolved, inherited)).1 ↔ id ∈ path ∨
      id ∈ resolved := by
  induction path generalizing current resolved inherited with
  | nil => simpa using h
  | cons first rest ih =>
    obtain ⟨⟨item, hitem, rfl⟩, hrest⟩ := hpath
    have hvl : (item.isSensitive || inherited) = true ↔ IsExposed byId first := by
      rw [isExposed_iff hitem, ← hinherited, Bool.or_eq_true]
    have hmarked : IsRight byId (resolved.insert first (item.isSensitive || inherited)) := by
      intro id value hid
      rw [ExtTreeMap.getElem?_insert] at hid
      split_ifs at hid with heq
      · cases hid
        exact LawfulEqOrd.eq_of_compare heq ▸ hvl
      · exact h id value hid
    rw [foldl_cons, markItem, hitem, Option.all_some]
    obtain ⟨hrgt, hmem⟩ := ih hmarked hrest (hvl.trans (by simp))
    refine ⟨hrgt, fun id => ?_⟩
    rw [hmem, ExtTreeMap.mem_insert, LawfulEqOrd.compare_eq_iff_eq, mem_cons, eq_comm]
    tauto

/-- Resolving one item resolves it rightly, and forgets nothing. -/
lemma resolveSensitivity_spec (h : IsRight byId resolved) (hst : start ∈ byId) :
    IsRight byId (resolveSensitivity byId resolved start) ∧
      ∀ id, id = start ∨ id ∈ resolved → id ∈ resolveSensitivity byId resolved start := by
  unfold resolveSensitivity
  split_ifs with hold
  · exact ⟨h, fun id => by rintro (rfl | hid) <;> assumption⟩
  · obtain ⟨hpath, hin, hinherited⟩ := walk_spec h hst hold
    obtain ⟨hrgt, hmem⟩ := foldl_markItem h hpath hinherited
    refine ⟨hrgt, fun id => ?_⟩
    rintro (rfl | hid)
    · exact (hmem id).mpr (.inl hin)
    · exact (hmem id).mpr (.inr hid)

/-- **Sensitivity is inherited safely.** Every item is marked sensitive if it or an ancestor is
marked or its ancestors lead to a missing item or into a cycle, and not sensitive otherwise; so
nothing below a sensitive item is reported as not sensitive. -/
theorem effective_sensitivity_exact (items : List CanonicalItem) :
    (∀ id ∈ items.map CanonicalItem.id, ∃ value,
      (effectiveSensitivityByItem items)[id]? = some value ∧
        (value = true ↔ IsExposed (Keyed.byKey CanonicalItem.id items) id)) ∧
    ∀ id above, ReflTransGen (ParentOf (Keyed.byKey CanonicalItem.id items)) id above →
      ((Keyed.byKey CanonicalItem.id items)[above]?.any CanonicalItem.isSensitive) = true →
      (effectiveSensitivityByItem items)[id]? ≠ some false := by
  set byId := Keyed.byKey CanonicalItem.id items with hbyId
  have hrun : ∀ (l : List Uuid) resolved, l ⊆ byId.keys → IsRight byId resolved →
      IsRight byId (l.foldl (resolveSensitivity byId) resolved) ∧ ∀ id, id ∈ l ∨ id ∈ resolved →
        id ∈ l.foldl (resolveSensitivity byId) resolved := by
    intro l
    induction l with
    | nil => exact fun resolved _ h => ⟨h, by simp⟩
    | cons first rest ih =>
      intro resolved hkeys h
      obtain ⟨hfst, hkeys⟩ := cons_subset.mp hkeys
      obtain ⟨hrgt, hmem⟩ := resolveSensitivity_spec h (ExtTreeMap.mem_keys.mp hfst)
      obtain ⟨hall, hmem'⟩ := ih _ hkeys hrgt
      refine ⟨hall, fun id hid => hmem' id ?_⟩
      rw [mem_cons, or_assoc, or_left_comm] at hid
      exact hid.imp_right (hmem id)
  obtain ⟨hrgt, hmem⟩ := hrun byId.keys ∅ (Subset.refl _) (by simp [IsRight])
  refine ⟨fun id hid => ?_, fun id above hpath hmarked hfalse => ?_⟩
  · have hkey := hmem id (.inl (ExtTreeMap.mem_keys.mpr (Keyed.mem_byKey.mpr hid)))
    obtain ⟨value, hvl⟩ := ExtTreeMap.mem_iff_exists.mp hkey
    exact ⟨value, hvl, hrgt id value hvl⟩
  · exact Bool.false_ne_true ((hrgt id false hfalse).mpr ⟨above, hpath, .inr (.inl hmarked)⟩)

end DayWeave.Compose
