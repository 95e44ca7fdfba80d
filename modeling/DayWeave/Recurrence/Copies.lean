import DayWeave.Recurrence.Materialize

/-!
What materialisation makes of a request.

Every item of the materialised request is an item outside of all recurring subtrees, or the copy
of one for a generated occurrence (`cloneRoot_spec`); the pair of original and occurrence
determines the copy (`MaterializeTrace.eq_of_identity_eq`).
-/

open List Std

namespace DayWeave

open Except (bind_eq_ok)

/-- The item is the copy of an original for an occurrence: the identifier, the parent
and the dependencies are those of copies, the duration may be that of recorded progress,
and the window is that of the occurrence. -/
structure IsCopy (env : Externals) (request : PlanRequest) (occurrence : Occurrence)
    (original copy : WorkItem) : Prop where
  id : copy.id = cloneId env occurrence.seriesItemId occurrence original.id
  duration : cloneDuration request occurrence.seriesItemId occurrence original = .ok copy.duration
  rest : ∃ parentId dependencies, copy =
    { original with
      id := copy.id
      parentId := parentId
      duration := copy.duration
      constraints := { original.constraints with
        dependencies := dependencies
        occurrenceWindow := some ⟨occurrence.windowStart, occurrence.windowEnd⟩ } }

variable {env : Externals} {request : PlanRequest} {occurrences : List Occurrence} {root : ItemId}
  {l l' : List Occurrence}

lemma mem_generatedOf {o : Occurrence} : o ∈ generatedOf occurrences root ↔
      o ∈ occurrences ∧ o.state = .generated ∧ o.seriesItemId = root := by
  simp [generatedOf]

def subtreeItems (request : PlanRequest) (root : ItemId) : List WorkItem :=
  (collectSubtree request.items.length (childMap request.items) root).filterMap fun id =>
    (itemsById request.items)[id]?

/-- The leaves of a recurring subtree in sibling order. -/
def leavesOf (request : PlanRequest) (root : ItemId) : List ItemId :=
  subtreeLeaves (itemsById request.items) (childMap request.items)
    (collectSubtree request.items.length (childMap request.items) root)

/-- The copy of the first leaf of a recurring subtree for an occurrence. -/
def firstLeafOf (env : Externals) (request : PlanRequest) (root : ItemId) (o : Occurrence) :
    Option ItemId :=
  (leavesOf request root).head?.map (cloneId env root o)

/-- The copy of an item of a recurring subtree for one of the given occurrences. The first leaf is
kept apart from that of the occurrence before. -/
inductive Cloned (env : Externals) (request : PlanRequest) (root : WorkItem) (l : List Occurrence)
    (copy : WorkItem × MaterializedIdentity) : Prop
  | mk (before : List Occurrence) (o : Occurrence) (after : List Occurrence) (original : WorkItem)
      (split : l = before ++ o :: after) (mem : original ∈ subtreeItems request root.id)
      (name : copy.2 = ⟨original.id, o.id⟩)
      (item : cloneItem env request root.id
        (collectSubtree request.items.length (childMap request.items) root.id)
        (minimumSpacing request root) (firstLeafOf env request root.id o)
        (before.getLast?.bind (firstLeafOf env request root.id)) o original = .ok copy.1)

/-- **The copies of a root**: one of each item of the subtree for every generated occurrence. -/
theorem cloneRoot_spec {root : WorkItem} {copies : List (WorkItem × MaterializedIdentity)}
    (h : cloneRoot env request (itemsById request.items) (childMap request.items) occurrences root =
      .ok copies) : (copies.map Prod.snd = (generatedOf occurrences root.id).flatMap fun o =>
      (subtreeItems request root.id).map fun original => ⟨original.id, o.id⟩) ∧
    ∀ copy ∈ copies, Cloned env request root (generatedOf occurrences root.id) copy := by
  obtain ⟨final, hfnl, h⟩ := bind_eq_ok.mp h
  cases h
  refine (Except.foldlM_prefix_invariant (P := fun pre s =>
    s.2 = pre.getLast?.bind (firstLeafOf env request root.id) ∧
    (s.1.map Prod.snd = pre.flatMap fun o =>
      (subtreeItems request root.id).map fun original => ⟨original.id, o.id⟩) ∧
    ∀ copy ∈ s.1, Cloned env request root pre copy) ?_ hfnl ⟨rfl, rfl, forall_mem_nil _⟩).2
  rintro pre o s s' - hstep ⟨hprev, hnames, hcps⟩
  obtain ⟨clones, hclones, hstep⟩ := bind_eq_ok.mp hstep
  cases hstep
  refine ⟨?_, ?_, fun copy hcopy => ?_⟩
  · show (firstLeafOf env request root.id o).or s.2 = _
    rw [hprev, getLast?_concat, Option.bind_some]
    unfold firstLeafOf
    cases (leavesOf request root.id).head? <;> cases pre.getLast? <;> rfl
  · rw [map_append, hnames, flatMap_append, flatMap_singleton]
    refine congrArg _ ((Except.mapM_eq_ok.mp hclones).map_eq fun original copy hcopy => ?_)
    obtain ⟨clone, -, heq⟩ := bind_eq_ok.mp hcopy
    cases heq
    rfl
  · rcases mem_append.mp hcopy with hcopy | hcopy
    · obtain ⟨before, o', after, original, rfl, hmem, hname, hitem⟩ := hcps copy hcopy
      exact ⟨before, o', after ++ [o], original, by simp, hmem, hname, hitem⟩
    · obtain ⟨original, horig, hclone⟩ := Except.exists_of_mem_mapM hclones hcopy
      obtain ⟨clone, hitem, heq⟩ := bind_eq_ok.mp hclone
      cases heq
      rw [hprev] at hitem
      exact ⟨pre, o, [], original, rfl, horig, rfl, hitem⟩

/-- An identifier leads to the same progress in every order of distinct occurrences. -/
lemma partialProgressBinds_perm (byId : WorkMap)
    (hperm : l.Perm l') (hnd : (l.map Occurrence.id).Nodup) (id : OccurrenceId) :
    partialProgressBinds byId l id = partialProgressBinds byId l' id := by
  unfold partialProgressBinds
  rw [find?_congr_perm hperm fun a ha b hb hid hid' => ?_]
  exact inj_on_of_nodup_map hnd ha hb ((of_decide_eq_true hid).trans (of_decide_eq_true hid').symm)

lemma sortOccurrences_perm (hperm : l.Perm l')
    (hnd : (l.map Occurrence.id).Nodup) : sortOccurrences l = sortOccurrences l' := by
  refine sortBy_congr_perm _ hperm fun a ha b hb heq => ?_
  have hid := (Ordering.then_eq_eq.mp (Ordering.then_eq_eq.mp (Ordering.then_eq_eq.mp heq).2).2).2
  exact inj_on_of_nodup_map hnd ha hb (LawfulEqOrd.eq_of_compare hid)

lemma nodup_of_expandOccurrencesValidated
    (h : expandOccurrencesValidated env request = .ok occurrences) :
    (occurrences.map Occurrence.id).Nodup := by
  obtain ⟨days, series, -, -, -, -, hnd, -, rfl⟩ := expandOccurrencesValidated_eq_ok.mp h
  exact ((sortBy_perm _ _).map _).nodup_iff.mpr hnd

/-- The data behind a successful materialisation. -/
structure MaterializeTrace (env : Externals) (request : PlanRequest)
    (materialized : MaterializedPlan) where
  copies : List (WorkItem × MaterializedIdentity)
  expanded : expandOccurrencesValidated env request = .ok materialized.occurrences
  copies_eq : cloneRoots env request materialized.occurrences = .ok copies
  identities_eq : materialized.identities = identitiesOf copies
  request_eq : materialized.request =
    { request with
      items := sortBy (compareOn WorkItem.id) (retainedItems request ++ copies.map Prod.fst)
      previousAssignments := materializePreviousAssignments request materialized.occurrences
        (identitiesOf copies) (removedItems request) }

lemma exists_materializeTrace {materialized : MaterializedPlan}
    (h : materializeRecurrences env request = .ok materialized) :
    Nonempty (MaterializeTrace env request materialized) := by
  simp only [materializeRecurrences, bind_eq_ok] at h
  obtain ⟨occurrences, hexp, -, -, -, -, copies, hcps, -, -, h⟩ := h
  cases h
  exact ⟨copies, hexp, hcps, rfl, rfl⟩

namespace MaterializeTrace

variable {env : Externals} {request : PlanRequest} {materialized : MaterializedPlan}
  (trace : MaterializeTrace env request materialized) {identity : MaterializedIdentity}
  {copy : WorkItem × MaterializedIdentity}

lemma exists_root (h : copy ∈ trace.copies) :
    ∃ root ∈ rootItems request, ∃ copies, cloneRoot env request (itemsById request.items)
      (childMap request.items) materialized.occurrences root = .ok copies ∧ copy ∈ copies := by
  obtain ⟨series, hser, hflat⟩ := bind_eq_ok.mp trace.copies_eq
  have hflat := Except.ok.inj hflat
  rw [← hflat] at h
  obtain ⟨copies, hcps, hcopy⟩ := mem_flatten.mp h
  obtain ⟨root, hmem, hroot⟩ := Except.exists_of_mem_mapM hser hcps
  exact ⟨root, hmem, copies, hroot, hcopy⟩

/-- A copy belongs to an item of the request and a generated occurrence. -/
lemma exists_original (h : copy ∈ trace.copies) :
    ∃ original ∈ request.items, ∃ o ∈ materialized.occurrences, o.state = .generated ∧
      copy.2 = ⟨original.id, o.id⟩ ∧ IsCopy env request o original copy.1 := by
  obtain ⟨copy, identity⟩ := copy
  obtain ⟨root, -, copies, hcps, hcopy⟩ := trace.exists_root h
  obtain ⟨before, o, after, original, hspl, horig, hname, hclone⟩ := (cloneRoot_spec hcps).2 _ hcopy
  obtain ⟨id, -, hlook⟩ := mem_filterMap.mp horig
  obtain ⟨ho, hsta, hser⟩ := mem_generatedOf.mp
    (hspl ▸ mem_append_right before mem_cons_self)
  obtain ⟨duration, hdur, heq⟩ := bind_eq_ok.mp hclone
  cases heq
  rw [← hser] at hdur ⊢
  exact ⟨original, (mem_of_getElem?_itemsById hlook).1, o, ho, hsta, hname, rfl, hdur, _, _, rfl⟩

lemma exists_copy {id : ItemId} (h : materialized.identities[id]? = some identity) :
    ∃ copy ∈ trace.copies, copy.1.id = id ∧ copy.2 = identity := by
  rw [trace.identities_eq, identitiesOf] at h
  obtain ⟨copy, hcopy, heq⟩ := mem_map.mp (ExtTreeMap.mem_of_getElem?_ofList h)
  exact ⟨copy, hcopy, congrArg Prod.fst heq, congrArg Prod.snd heq⟩

include trace in
/-- **Public names are unique**: the original and the occurrence determine the
identifier of the copy, since no two occurrences share an identifier. -/
theorem eq_of_identity_eq {a b : ItemId} (ha : materialized.identities[a]? = some identity)
    (hb : materialized.identities[b]? = some identity) : a = b := by
  obtain ⟨copy, hcopy, rfl, rfl⟩ := trace.exists_copy ha
  obtain ⟨copy', hcopy', rfl, hsame⟩ := trace.exists_copy hb
  obtain ⟨original, -, o, ho, -, hname, hc⟩ := trace.exists_original hcopy
  obtain ⟨original', -, o', ho', -, hname', hc'⟩ := trace.exists_original hcopy'
  rw [hname, hname'] at hsame
  obtain ⟨horig, hid⟩ := MaterializedIdentity.mk.inj hsame
  have hoo : o' = o :=
    inj_on_of_nodup_map (nodup_of_expandOccurrencesValidated trace.expanded) ho' ho hid
  rw [hc.id, hc'.id, horig, hoo]

end MaterializeTrace

end DayWeave
