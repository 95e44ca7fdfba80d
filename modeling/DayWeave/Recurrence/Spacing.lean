import DayWeave.Recurrence.Destinations

/-!
The edges that keep the occurrences of a series apart.

The first leaves of consecutive generated occurrences get a hard edge with the minimum spacing as
its lag (`spacingEdge_iff`). Consecutive means by nominal start, which a move does not change: the
edges follow the windows exactly if these ascend in nominal order (`spacing_follows_windows_iff`).
-/

open List Std

namespace DayWeave

/-- The edges that a copy has beyond those of its original. -/
def addedEdges (original copy : WorkItem) : List Dependency :=
  copy.constraints.dependencies.drop original.constraints.dependencies.length

variable {env : Externals} {request : PlanRequest} {materialized : MaterializedPlan} {leaf : ItemId}

lemma addedEdges_of_cloneItem {root : ItemId} {subtree : List ItemId} {spacing : Minutes}
    {firstLeaf previousFirstLeaf : Option ItemId} {o : Occurrence} {original copy : WorkItem}
    (h : cloneItem env request root subtree spacing firstLeaf previousFirstLeaf o original =
      .ok copy) : copy.id = cloneId env root o original.id ∧ addedEdges original copy =
      if spacing ≠ 0 ∧ some copy.id = firstLeaf then
        (previousFirstLeaf.map fun predecessor => spacingDependency predecessor spacing).toList
      else [] := by
  obtain ⟨duration, -, h⟩ := Except.bind_eq_ok.mp h
  cases h
  exact ⟨rfl, drop_left' (length_map _)⟩

/-- The first leaf is the copy of an item of the subtree. -/
lemma exists_of_firstLeafOf {root : ItemId} {o : Occurrence}
    (h : firstLeafOf env request root o = some leaf) :
    ∃ original ∈ subtreeItems request root, leaf = cloneId env root o original.id := by
  obtain ⟨id, hid, rfl⟩ := Option.map_eq_some_iff.mp h
  obtain ⟨original, horig, rfl⟩ := mem_map.mp (mem_of_mem_head? hid)
  exact ⟨original, mem_of_mem_filter ((mem_sortBy _).mp horig), rfl⟩

lemma getElem?_of_mem_filterMap {ids : List ItemId} {item : WorkItem}
    (h : item ∈ ids.filterMap fun id => (itemsById request.items)[id]?) :
    (itemsById request.items)[item.id]? = some item := by
  obtain ⟨id, -, hitem⟩ := mem_filterMap.mp h
  rwa [(mem_of_getElem?_itemsById hitem).2]

namespace MaterializeTrace

variable (trace : MaterializeTrace env request materialized) {root : WorkItem} {o o' : Occurrence}

/-- A copy for the occurrence `o'` has got an edge to the first leaf of `o`. -/
def SpacingEdge (root : WorkItem) (o o' : Occurrence) : Prop :=
  ∃ copy ∈ trace.copies, copy.2.occurrenceId = o'.id ∧
    ∃ original ∈ (itemsById request.items)[copy.2.seriesItemId]?,
      ∃ d ∈ addedEdges original copy.1, some d.itemId = firstLeafOf env request root.id o

include trace in
/-- The first leaf of an occurrence waits for that of the occurrence before. -/
lemma exists_spaced_copy (hroot : root ∈ rootItems request)
    (hspac : minimumSpacing request root ≠ 0) {before after : List Occurrence}
    (hspl : generatedOf materialized.occurrences root.id = before ++ o :: o' :: after)
    (hleaf : firstLeafOf env request root.id o = some leaf) :
    ∃ copy ∈ trace.copies, ∃ original, (itemsById request.items)[copy.2.seriesItemId]? =
      some original ∧ copy.2.occurrenceId = o'.id ∧
      addedEdges original copy.1 = [spacingDependency leaf (minimumSpacing request root)] := by
  obtain ⟨series, hser, hflat⟩ := Except.bind_eq_ok.mp trace.copies_eq
  obtain ⟨copies, hcps, hmem⟩ := Except.exists_mem_of_mapM hser hroot
  obtain ⟨hnames, hcloned⟩ := cloneRoot_spec hcps
  have ho' : o' ∈ generatedOf materialized.occurrences root.id := by simp [hspl]
  obtain ⟨id, hid, hleaf'⟩ := Option.map_eq_some_iff.mp hleaf
  have hfst : firstLeafOf env request root.id o' = some (cloneId env root.id o' id) := by
    rw [firstLeafOf, hid, Option.map_some]
  obtain ⟨first, hitem, hclone⟩ := exists_of_firstLeafOf hfst
  -- the copy of the first leaf for the later occurrence
  obtain ⟨copy, hcopy, hname⟩ := mem_map.mp (hnames ▸ mem_flatMap.mpr
    ⟨o', ho', mem_map_of_mem hitem⟩)
  obtain ⟨before', other, after', original, hsplit', hmem', hname', hcloneItem⟩ :=
    hcloned copy hcopy
  obtain ⟨horig, hocc⟩ := MaterializedIdentity.mk.inj (hname'.symm.trans hname)
  have hoth : other ∈ generatedOf materialized.occurrences root.id := by simp [hsplit']
  obtain rfl := inj_on_of_nodup_map
    (nodup_of_expandOccurrencesValidated trace.expanded) (mem_generatedOf.mp hoth).1
    (mem_generatedOf.mp ho').1 hocc
  rw [append_cons] at hspl
  have hnd := List.Nodup.of_map _ (nodup_of_expandOccurrencesValidated trace.expanded)
  obtain rfl := (nodup_split_unique (hnd.filter _) hspl hsplit').1
  obtain ⟨hcopyId, hadd'⟩ := addedEdges_of_cloneItem hcloneItem
  have hcopyLeaf : firstLeafOf env request root.id other = some copy.1.id := by
    rw [hcopyId, horig, ← hclone, hfst]
  have hflat := Except.ok.inj hflat
  refine ⟨copy, hflat ▸ mem_flatten.mpr ⟨copies, hmem, hcopy⟩, original, ?_, ?_, ?_⟩
  · rw [hname', getElem?_of_mem_filterMap hmem']
  · rw [hname']
  · rw [hadd', if_pos ⟨hspac, hcopyLeaf.symm⟩, getLast?_concat, Option.bind_some, hleaf]
    rfl

/-- The copies of first leaves have different identifiers. -/
def LeavesDiffer (env : Externals) (request : PlanRequest) (materialized : MaterializedPlan) :
    Prop :=
  ∀ root ∈ rootItems request, ∀ o ∈ generatedOf materialized.occurrences root.id,
    ∀ o' ∈ generatedOf materialized.occurrences root.id, firstLeafOf env request root.id o ≠ none →
      firstLeafOf env request root.id o = firstLeafOf env request root.id o' → o = o'
deriving Decidable

/-- **Spacing edges** join the first leaves of consecutive generated occurrences. -/
theorem spacingEdge_iff (hnames : LeavesDiffer env request materialized)
    (hroot : root ∈ rootItems request) (ho : o ∈ generatedOf materialized.occurrences root.id)
    (ho' : o' ∈ generatedOf materialized.occurrences root.id) :
    trace.SpacingEdge root o o' ↔
      minimumSpacing request root ≠ 0 ∧ firstLeafOf env request root.id o ≠ none ∧
        ∃ before after, generatedOf materialized.occurrences root.id = before ++
        o :: o' :: after := by
  have hids := nodup_of_expandOccurrencesValidated trace.expanded
  have hgen : ∀ {root other}, other ∈ generatedOf materialized.occurrences root →
      other ∈ materialized.occurrences ∧ other.seriesItemId = root :=
    fun h => ⟨(mem_generatedOf.mp h).1, (mem_generatedOf.mp h).2.2⟩
  constructor
  · rintro ⟨copy, hcopy, hocc, original, horig, d, hd, hleaf⟩
    obtain ⟨root', hroot', copies, hcps, hcopy⟩ := trace.exists_root hcopy
    obtain ⟨before, other, after, original', hspl, hmem, hname, hitem⟩ :=
      (cloneRoot_spec hcps).2 copy hcopy
    have hoth : other ∈ generatedOf materialized.occurrences root'.id := by simp [hspl]
    rw [hname] at hocc horig
    obtain rfl := inj_on_of_nodup_map hids (hgen hoth).1 (hgen ho').1 hocc
    have hsame := getElem?_of_mem_filterMap hroot'
    rw [← (hgen hoth).2, (hgen ho').2, getElem?_of_mem_filterMap hroot] at hsame
    cases hsame
    cases horig.symm.trans (getElem?_of_mem_filterMap hmem)
    obtain ⟨-, hadd'⟩ := addedEdges_of_cloneItem hitem
    rw [hadd'] at hd
    split at hd
    · rename_i hspaced
      obtain ⟨leaf, hbef, rfl⟩ := Option.map_eq_some_iff.mp (Option.mem_toList.mp hd)
      obtain ⟨previous, hprev, hleaf'⟩ := Option.bind_eq_some_iff.mp hbef
      obtain ⟨init, rfl⟩ := getLast?_eq_some_iff.mp hprev
      have hne : firstLeafOf env request root.id o ≠ none := by simp [← hleaf]
      rw [append_assoc, singleton_append] at hspl
      -- the leaf tells which occurrence comes before
      obtain rfl := hnames root hroot o ho previous (by simp [hspl]) hne
        (hleaf.symm.trans hleaf'.symm)
      exact ⟨hspaced.1, hne, init, after, hspl⟩
    · cases hd
  · rintro ⟨hspac, hleaf, before, after, hspl⟩
    obtain ⟨leaf, hleaf⟩ := Option.ne_none_iff_exists'.mp hleaf
    obtain ⟨copy, hcopy, original, horig, hocc, hadd'⟩ :=
      trace.exists_spaced_copy hroot hspac hspl hleaf
    exact ⟨copy, hcopy, hocc, original, horig, _, hadd' ▸ mem_singleton_self _, hleaf.symm⟩

/-- **The spacing edges follow the windows** exactly if the generated occurrences of every series
with a spacing have their windows in nominal order. -/
theorem spacing_follows_windows_iff (hnames : LeavesDiffer env request materialized) :
    (∀ root ∈ rootItems request, ∀ o ∈ generatedOf materialized.occurrences root.id,
      ∀ o' ∈ generatedOf materialized.occurrences root.id, trace.SpacingEdge root o o' →
        o.windowStart ≤ o'.windowStart) ↔
    ∀ root ∈ rootItems request, minimumSpacing request root ≠ 0 → leavesOf request root.id ≠ [] →
      (generatedOf materialized.occurrences root.id).Pairwise fun o o' =>
        o.windowStart ≤ o'.windowStart := by
  refine forall₂_congr fun root hroot => ?_
  rw [← isChain_iff_pairwise, isChain_iff_forall_rel_of_append_cons_cons]
  constructor
  · intro h hspac hleaves o o' before after hspl
    have ho : o ∈ generatedOf materialized.occurrences root.id := by simp [hspl]
    have ho' : o' ∈ generatedOf materialized.occurrences root.id := by simp [hspl]
    refine h o ho o' ho' ((trace.spacingEdge_iff hnames hroot ho ho').mpr
      ⟨hspac, ?_, before, after, hspl⟩)
    simpa [firstLeafOf] using hleaves
  · intro h o ho o' ho' hedge
    obtain ⟨hspac, hleaf, before, after, hspl⟩ :=
      (trace.spacingEdge_iff hnames hroot ho ho').mp hedge
    exact h hspac (by simpa [firstLeafOf] using hleaf) hspl

end MaterializeTrace

namespace Sample

/-- Library functions that give different identifiers of version five to different names. -/
def versioned : Externals :=
  { externals with
    newV5 := fun _ name =>
      .ofNat (5 * 2 ^ 76 + name.foldl (fun n byte => (n * 31 + byte.toNat) % 2 ^ 32) 7) }

/-- An hourly habit with half an hour of spacing, whose first occurrence is moved. -/
def movedPast (destination : Span) : PlanRequest :=
  (Sample.request [hourly 30]).withExceptions [moveException (hourly 30).id
    ⟨versioned.newV5 (hourly 30).id.uuid "interval:0:60:0".toUTF8.toList⟩
    { itemRevision := 1, identity := .rollingMinutes 0 (.atSecond 0), nominalStart := .atSecond 0,
      nominalEnd := .atSecond 3600, localDate := none, ordinal := 0 } destination]

end Sample

open Sample

/-- The occurrence of the second hour waits for that of the first, which is moved past its start. -/
theorem not_spacing_follows_windows_movedPast : ∃ materialized, materializeRecurrences versioned
        (movedPast ⟨.atSecond 4800, .atSecond 7200⟩) = .ok materialized ∧
      ∃ later ∈ materialized.request.items, ∃ moved ∈ materialized.request.items,
        spacingDependency moved.id 30 ∈ later.constraints.dependencies ∧
        later.constraints.occurrenceWindow = some ⟨.atSecond 3600, .atSecond 7200⟩ ∧
        moved.constraints.occurrenceWindow = some ⟨.atSecond 4800, .atSecond 7200⟩ := by
  decide +kernel

/-- The first occurrence is moved inside of its hour, and the edge follows the windows. -/
theorem spacing_follows_windows_movedWithin : ∃ materialized, ∃ trace : MaterializeTrace versioned
        (movedPast ⟨.atSecond 1200, .atSecond 3000⟩) materialized,
      ∀ root ∈ rootItems (movedPast ⟨.atSecond 1200, .atSecond 3000⟩),
        ∀ o ∈ generatedOf materialized.occurrences root.id,
        ∀ o' ∈ generatedOf materialized.occurrences root.id, trace.SpacingEdge root o o' →
          o.windowStart ≤ o'.windowStart := by
  obtain ⟨materialized, hmaterialized, hnames, hwindows⟩ : ∃ materialized,
      materializeRecurrences versioned (movedPast ⟨.atSecond 1200, .atSecond 3000⟩) =
        .ok materialized ∧
      MaterializeTrace.LeavesDiffer versioned (movedPast ⟨.atSecond 1200, .atSecond 3000⟩)
        materialized ∧
      ∀ root ∈ rootItems (movedPast ⟨.atSecond 1200, .atSecond 3000⟩),
        (generatedOf materialized.occurrences root.id).Pairwise fun o o' =>
          o.windowStart ≤ o'.windowStart := by decide +kernel
  obtain ⟨trace⟩ := exists_materializeTrace hmaterialized
  exact ⟨materialized, trace, (trace.spacing_follows_windows_iff hnames).mpr
    fun root hroot _ _ => hwindows root hroot⟩

end DayWeave
