import DayWeave.Completion.Exact

/-!
Reopening undoes completing.

In a forest in which nothing is left to decide, completing an open leaf completes nodes with the
automatic policy and does nothing else (`IsSettled.complete_leaf`). With the leaf open again
exactly these nodes are reopened, each to the status that it had (`IsSettled.reopen_leaf`).
-/

open Std Relation

namespace DayWeave

section

variable {item : HierarchyCompletionItem} {ready ready' : Prop} {status : HierarchyProgressStatus}
  {provenance : Option HierarchyCompletionProvenance} {p : HierarchyCompletionProvenance}

/-- A node is completed by itself, from the open status that it has. -/
structure HierarchyCompletionItem.CompletesTo (item : HierarchyCompletionItem)
    (status : HierarchyProgressStatus) (provenance : Option HierarchyCompletionProvenance) :
    Prop where
  mode : item.manualOverride = .automatic
  provenance_none : item.provenance = none
  isOpen : item.status.isOpen = true
  status_eq : status = .completed
  provenance_eq : provenance = some (.automatic item.status)

/-- Without all of its descendants completed, it is reopened to that status. -/
lemma HierarchyCompletionItem.CompletesTo.reopens (h : item.CompletesTo status provenance)
    (hrdy : ¬ ready) :
    Settles { item with status := .completed, provenance := some (.automatic item.status) } ready
      item.status none :=
  @Settles.reopened { item with status := .completed, provenance := some (.automatic item.status) }
    ready (.automatic item.status) h.mode hrdy rfl

lemma HierarchyCompletionItem.prior_of_none (h : item.provenance = none) :
    item.prior = if item.status.isOpen then some item.status else none := by
  rw [prior, h, Option.map_none, Option.none_or]

lemma HierarchyCompletionItem.prior_of_some
    (h : item.provenance = some p) : item.prior = some p.priorOpenStatus := by
  rw [prior, h, Option.map_some, Option.some_or]

open HierarchyCompletionItem (prior_of_none prior_of_some)

/-- A provenance that is decided returns to the status from before. -/
lemma Settles.priorOpenStatus_eq
    {prior : HierarchyProgressStatus} (h : Settles item ready status provenance)
    (hp : provenance = some p) (hpri : item.prior = some prior) : p.priorOpenStatus = prior := by
  cases h with
  | completed _ _ hpri' | manual _ hpri' =>
    cases hp
    exact Option.some.inj (hpri'.symm.trans hpri)
  | ended | unchanged =>
    rw [prior_of_some hp] at hpri
    exact Option.some.inj hpri
  | reopened | keptOpen => cases hp

/-- **One node**: if nothing is left to decide about it, then with more descendants completed
it stays as it is or completes by itself. -/
lemma Settles.mono (h : Settles item ready item.status item.provenance) (hrdy : ready → ready')
    (h' : Settles item ready' status provenance) :
    (status = item.status ∧ provenance = item.provenance) ∨
      (¬ ready ∧ item.CompletesTo status provenance) := by
  -- by the rules that apply before and after; most pairs exclude each other
  generalize hs : item.status = s at h
  generalize hp : item.provenance = p at h
  cases h with
  | completed hmode hr hpri =>
    rw [prior_of_some hp] at hpri
    cases h' with
    | completed _ _ hpri' =>
      rw [prior_of_some hp, hpri] at hpri'
      cases hpri'
      exact .inl ⟨rfl, rfl⟩
    | ended _ _ hpri' =>
      rw [prior_of_some hp] at hpri'
      cases hpri'
    | reopened _ hnot | unchanged _ hnot => exact absurd (hrdy hr) hnot
    | keptOpen hmode' | manual hmode' => cases hmode'.symm.trans hmode
  | ended hmode hr hpri =>
    cases h' with
    | completed _ _ hpri' => cases hpri.symm.trans hpri'
    | ended => exact .inl ⟨hs, hp⟩
    | reopened _ hnot | unchanged _ hnot => exact absurd (hrdy hr) hnot
    | keptOpen hmode' | manual hmode' => cases hmode'.symm.trans hmode
  | reopened hmode hr hprov => cases hp.symm.trans hprov
  | unchanged hmode hr hprov =>
    cases h' with
    | completed _ _ hpri' =>
      rw [prior_of_none hprov] at hpri'
      split_ifs at hpri' with hopen
      cases hpri'
      exact .inr ⟨hr, hmode, hprov, hopen, rfl, rfl⟩
    | ended | unchanged => exact .inl ⟨hs, hp⟩
    | reopened _ _ hprov' => cases hprov.symm.trans hprov'
    | keptOpen hmode' | manual hmode' => cases hmode'.symm.trans hmode
  | keptOpen hmode hpri =>
    cases h' with
    | keptOpen _ hpri' =>
      cases hpri.symm.trans hpri'
      exact .inl ⟨rfl, rfl⟩
    | completed hmode' | ended hmode' | reopened hmode' | unchanged hmode' | manual hmode' =>
      cases hmode'.symm.trans hmode
  | manual hmode hpri =>
    cases h' with
    | manual _ hpri' =>
      cases hpri.symm.trans hpri'
      exact .inl ⟨rfl, rfl⟩
    | completed hmode' | ended hmode' | reopened hmode' | unchanged hmode' | keptOpen hmode' =>
      cases hmode'.symm.trans hmode

end

/-- A node, completed if it is the leaf. -/
def completeNode (leaf : ItemId) (item : HierarchyCompletionItem) : HierarchyCompletionItem :=
  if item.id = leaf then { item with status := .completed } else item

/-- A node with what is decided about it, except for the leaf, which is left alone. -/
def decideOthers (leaf : ItemId) (f : Decisions)
    (item : HierarchyCompletionItem) : HierarchyCompletionItem :=
  if item.id = leaf then item
  else { item with status := (f item.id).status, provenance := (f item.id).provenance }

/-- A forest in which nothing is left to decide. -/
structure IsSettled (items : List HierarchyCompletionItem) (scope : HierarchyCompletionScope)
    (f : Decisions) : Prop extends Evaluates items scope f where
  status : ∀ item ∈ items, (f item.id).status = item.status
  provenance : ∀ item ∈ items, (f item.id).provenance = item.provenance

section

variable {items : List HierarchyCompletionItem} {item leaf : HierarchyCompletionItem}
  {scope : HierarchyCompletionScope} {f f' : Decisions}

lemma keepsShape_completeNode (id : ItemId) : KeepsShape items (completeNode id) := by
  refine ⟨fun item _ => ?_, fun item _ => ?_, fun item _ => ?_, fun item _ => ?_⟩ <;>
    (unfold completeNode; split_ifs <;> rfl)

lemma keepsShape_decideOthers (id : ItemId) : KeepsShape items (decideOthers id f) := by
  refine ⟨fun item _ => ?_, fun item _ => ?_, fun item _ => ?_, fun item _ => ?_⟩ <;>
    (unfold decideOthers; split_ifs <;> rfl)

/-- The equation of a proven node, and of an unproven one. -/
lemma Evaluates.cases (h : Evaluates items scope f) (hitem : item ∈ items) :
    (Unproven items scope.qualifiedRoot item.id ∧ (f item.id).status = item.status ∧
      (f item.id).provenance = item.provenance) ∨
    (¬ Unproven items scope.qualifiedRoot item.id ∧ ¬ item.Ambiguous (hasChildrenIn items item.id) ∧
      Settles item (IsReady (f item.id).counts) (f item.id).status (f item.id).provenance) := by
  have hdec := h.decideItem_eq hitem
  have hflag := h.flag_iff hitem
  cases hflagged : (f item.id).occurrenceEvidenceRequired <;> rw [hflagged] at hdec hflag
  · exact .inr ⟨fun hunp => Bool.false_ne_true (hflag.mpr hunp), settles_of_decideItem hdec⟩
  · rw [decideItem_unproven] at hdec
    refine .inl ⟨hflag.mp rfl, ?_⟩
    rw [← Except.ok.inj hdec]
    exact ⟨rfl, rfl⟩

lemma mem_of_completeNode (hid : item.id ≠ leaf.id) (hitem : item ∈ items) :
    item ∈ items.map (completeNode leaf.id) :=
  List.mem_map.mpr ⟨item, hitem, if_neg hid⟩

lemma Evaluates.inCategory_completed_iff (h : Evaluates items scope f) (hitem : item ∈ items) :
    (f item.id).inCategory .completed = true ↔
      ¬ Unproven items scope.qualifiedRoot item.id ∧ (f item.id).status = .completed := by
  rw [← h.flag_iff hitem]
  simp [HierarchyCompletionDecision.inCategory]

variable (h : IsSettled items scope f) (h' : Evaluates (items.map (completeNode leaf.id)) scope f')

include h h'

/-- **One node** other than the leaf: it stays as it is or completes by itself, if what is
completed below it stays completed. -/
lemma IsSettled.node_change (hitem : item ∈ items) (hid : item.id ≠ leaf.id)
    (hblw : ∀ x, RequiredDescendant items x item.id →
      (f x).inCategory .completed = true → (f' x).inCategory .completed = true) :
    ((f' item.id).status = item.status ∧ (f' item.id).provenance = item.provenance) ∨
      (¬ Unproven items scope.qualifiedRoot item.id ∧ ¬ IsReady (f item.id).counts ∧
        item.CompletesTo (f' item.id).status (f' item.id).provenance) := by
  have hshape : KeepsShape items (completeNode leaf.id) := keepsShape_completeNode leaf.id
  have hit' := mem_of_completeNode hid hitem
  rcases h'.cases hit' with ⟨-, hsame⟩ | ⟨hprvn, -, hsettles'⟩
  · exact .inl hsame
  · rw [← hshape.sameTopology.unproven_iff] at hprvn
    rcases h.toEvaluates.cases hitem with ⟨hunp, -⟩ | ⟨-, -, hsetl⟩
    · exact absurd hunp hprvn
    · rw [h.status item hitem, h.provenance item hitem] at hsetl
      have hrdy : IsReady (f item.id).counts → IsReady (f' item.id).counts := by
        rw [h.toEvaluates.isReady_iff hitem, h'.isReady_iff hit', RequiredDescendant,
          RequiredDescendant, hshape.requiredEdge]
        rintro ⟨hsome, hall⟩
        exact ⟨hsome, fun x hx => hblw x hx (hall x hx)⟩
      exact (hsetl.mono hrdy hsettles').imp_right (And.intro hprvn)

variable (hleaf : leaf ∈ items) (hopen : leaf.status.isOpen = true)

include hleaf hopen

/-- Completing the leaf leaves every completed node completed. -/
lemma IsSettled.completed_mono (hitem : item ∈ items) :
    (f item.id).inCategory .completed = true → (f' item.id).inCategory .completed = true := by
  refine h.forest.descendant_induction (P := fun id =>
    (f id).inCategory .completed = true → (f' id).inCategory .completed = true)
    (fun item hitem hblw hcomp => ?_) item hitem
  obtain ⟨hprvn, hstat⟩ := (h.toEvaluates.inCategory_completed_iff hitem).mp hcomp
  rw [h.status item hitem] at hstat
  have hid : item.id ≠ leaf.id := by
    intro heq
    rw [← List.inj_on_of_nodup_map h.forest.nodup hitem hleaf heq, hstat] at hopen
    cases hopen
  refine (h'.inCategory_completed_iff (mem_of_completeNode hid hitem)).mpr ⟨?_, ?_⟩
  · rwa [← (keepsShape_completeNode leaf.id).sameTopology.unproven_iff]
  · rcases h.node_change h' hitem hid hblw with ⟨hsame, -⟩ | ⟨-, -, hcmpl⟩
    · exact hsame.trans hstat
    · exact hcmpl.status_eq

/-- **Completing a leaf** completes nodes with the automatic policy and changes nothing
else. -/
lemma IsSettled.complete_leaf (hitem : item ∈ items) (hid : item.id ≠ leaf.id) :
    ((f' item.id).status = item.status ∧ (f' item.id).provenance = item.provenance) ∨
      (¬ Unproven items scope.qualifiedRoot item.id ∧ ¬ IsReady (f item.id).counts ∧
        item.CompletesTo (f' item.id).status (f' item.id).provenance) := by
  refine h.node_change h' hitem hid fun x hx => ?_
  obtain ⟨below, hblw, rfl⟩ := mem_ids_of_requiredDescendant hx
  exact h.completed_mono h' hleaf hopen hblw

/-- The leaf itself stays completed, without a provenance. -/
lemma IsSettled.leaf_completed :
    (f' leaf.id).status = .completed ∧ (f' leaf.id).provenance = none := by
  have hnone : leaf.provenance = none := by
    by_contra hsome
    obtain ⟨p, hp⟩ := Option.ne_none_iff_exists'.mp hsome
    rw [((h.forest.valid leaf hleaf).provenance p hp).1] at hopen
    cases hopen
  have hmem : { leaf with status := .completed } ∈ items.map (completeNode leaf.id) :=
    List.mem_map.mpr ⟨leaf, hleaf, if_pos rfl⟩
  have hpri : ({ leaf with status := .completed } : HierarchyCompletionItem).prior = none := by
    refine (HierarchyCompletionItem.prior_of_none ?_).trans rfl
    exact hnone
  rcases h'.cases hmem with ⟨-, hstat, hprov⟩ | ⟨-, -, hsetl⟩
  · exact ⟨hstat, hprov.trans hnone⟩
  · generalize hs : (f' leaf.id).status = s at hsetl
    generalize hp : (f' leaf.id).provenance = p at hsetl
    cases hsetl with
    | completed _ _ hsome | keptOpen _ hsome | manual _ hsome => cases hpri.symm.trans hsome
    | ended | unchanged => exact ⟨rfl, hnone⟩
    | reopened _ _ hsome => cases hnone.symm.trans hsome

/-- **One node** is decided as it was at first, by the counts that it had at first. -/
lemma IsSettled.exists_reopens (hitem : item ∈ items) : (decideOthers leaf.id f' item).IsValid ∧
      ∃ d, decideItem (decideOthers leaf.id f' item) (f item.id).counts
          (f item.id).occurrenceEvidenceRequired (hasChildrenIn items item.id) = .ok d ∧
        d.status = item.status ∧ d.provenance = item.provenance := by
  have hval := h.forest.valid item hitem
  by_cases hkeep : decideOthers leaf.id f' item = item
  · rw [hkeep]
    exact ⟨hval, _, h.decideItem_eq hitem, h.status item hitem, h.provenance item hitem⟩
  · have hid : item.id ≠ leaf.id := fun heq => hkeep (if_pos heq)
    rcases h.complete_leaf h' hleaf hopen hitem hid with
      ⟨hstat, hprov⟩ | ⟨hprvn, hnot, hcmpl⟩
    · exact absurd (by rw [decideOthers, if_neg hid, hstat, hprov]) hkeep
    · have hnode : decideOthers leaf.id f' item =
          { item with status := .completed, provenance := some (.automatic item.status) } := by
        rw [decideOthers, if_neg hid, hcmpl.status_eq, hcmpl.provenance_eq]
      obtain ⟨action, hactn, -⟩ := (hcmpl.reopens hnot).exists_decideItem
        (fun hamb => Option.some_ne_none _ hamb.2.2.1)
      rw [hnode, Bool.eq_false_iff.mpr (mt (h.flag_iff hitem).mp hprvn)]
      refine ⟨⟨hval.id_ne_nil, hval.parent_ne_nil, hval.inside, ?_⟩, _, hactn, rfl,
        hcmpl.provenance_none.symm⟩
      rintro p ⟨⟩
      exact ⟨rfl, hcmpl.isOpen⟩

/-- **Reopening the leaf** reopens the nodes that were completed and changes nothing else:
every node is decided as it was at first. -/
lemma IsSettled.reopen_leaf : ∃ f'', Evaluates (items.map (decideOthers leaf.id f')) scope f'' ∧
    ∀ item ∈ items, (f'' item.id).status = item.status ∧
      (f'' item.id).provenance = item.provenance := by
  have hreopens := fun item (hitem : item ∈ items) => h.exists_reopens h' hleaf hopen hitem
  obtain ⟨f'', hf''⟩ := Keyed.exists_forall_key h.forest.nodup fun item hitem =>
    (hreopens item hitem).2
  refine ⟨f'', (keepsShape_decideOthers leaf.id).evaluates h.toEvaluates
    (fun item hitem => (hreopens item hitem).1) (fun item hitem => (hf'' item hitem).1)
    fun item hitem => ?_, fun item hitem => (hf'' item hitem).2⟩
  rw [(hf'' item hitem).2.1, h.status item hitem]

end

end DayWeave
