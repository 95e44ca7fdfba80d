import DayWeave.Completion.Existence
import DayWeave.Routine.Occurrence

/-!
What the checks of an occurrence amount to.

Each check is an equivalence: a member passes if it fits (`checkMember_eq_ok`), a manifest if it
is accepted (`validateManifest_eq_ok`), an aggregate if its members fit and are as decided
(`validateAggregate_eq_ok`).
-/

open Std

namespace DayWeave.Server

open Except (bind_eq_ok ite_eq_ok ite_error_eq_ok mapError_eq_ok)
open RoutineOccurrenceMemberDefinition (itemId)

variable {zones : TimeZones} {digest : OccurrenceDigest} {manifest : RoutineOccurrenceManifest}
  {definitions : MemberDefinitions}

section

variable {status : ItemStatus}

@[simp] lemma itemStatus_coreStatus : itemStatus (coreStatus status) = status := by
  cases status <;> rfl

@[simp] lemma coreStatus_itemStatus {status : HierarchyProgressStatus} :
    coreStatus (itemStatus status) = status := by
  cases status <;> rfl

lemma isOpen_coreStatus (h : status.isMemberStatus = true) :
    (coreStatus status).isOpen = status.isOpen := by
  cases status <;> first | rfl | cases h

lemma isTerminal_eq (h : status.isMemberStatus = true) : status.isTerminal = !status.isOpen := by
  cases status <;> first | rfl | cases h

lemma isMemberStatus_of_isOpen (h : status.isOpen = true) : status.isMemberStatus = true := by
  cases status <;> first | rfl | cases h

lemma ItemCompletionReopenState.isOpen_of_validate {self : ItemCompletionReopenState}
    {itemId : Uuid}
    (h : self.validate itemId = .ok ()) : self.status.isOpen = true := by
  unfold validate at h
  split_ifs at h with hstat
  revert hstat
  cases self.status <;> simp [ItemStatus.isOpen]

variable {member : RoutineOccurrenceMemberState} {isParent : Bool} {revision : UInt64}
  {parents : List Uuid}

/-- What holds of a member whatever its policy is. -/
structure PreparedFits (isParent : Bool) (member : RoutineOccurrenceMemberState) : Prop where
  openState_valid : member.openState.validate member.itemId = .ok ()
  status : member.status.isMemberStatus = true
  open_eq : member.status.isOpen = true → member.status = member.openState.status
  leaf : isParent = false → member.mode = .automatic ∧ member.provenance = none
  parent : isParent = true → member.status.isTerminal = true → member.provenance ≠ none
  provenance : ∀ p ∈ member.provenance, member.status = .completed ∧ p.reopen = member.openState

/-- A member whose completion fits its policy. -/
structure StateFits (isParent : Bool) (member : RoutineOccurrenceMemberState) : Prop
    extends PreparedFits isParent member where
  modeFits : ∀ p ∈ member.provenance, ItemCompletionState.modeFits member.mode p.kind = true
  complete : member.mode = .complete → member.provenance ≠ none

/-- A member of an aggregate with the given revision. -/
structure MemberFits (isParent : Bool) (revision : UInt64) (member : RoutineOccurrenceMemberState) :
    Prop extends StateFits isParent member where
  revision_valid : validRevision member.revision = true
  revision_le : member.revision ≤ revision
  updatedAt_valid : validInstant member.updatedAt = true
  completedAt_isSome : member.completedAt.isSome = decide (member.status = .completed)
  completedAt_valid : ∀ instant ∈ member.completedAt, validInstant instant = true

/-- **A member passes** if it is defined, fits and has not been seen. -/
lemma checkMember_eq_ok {seen seen' : List Uuid} :
    checkMember definitions parents revision seen member = .ok seen' ↔
      (member.itemId ∈ definitions ∧
       MemberFits (decide (member.itemId ∈ parents)) revision member) ∧
        member.itemId ∉ seen ∧ seen' = member.itemId :: seen := by
  simp only [checkMember, ite_error_eq_ok, bind_eq_ok, mapError_eq_ok, not_or, not_and, not_not,
    Bool.not_eq_true, Bool.not_eq_false, Option.any_eq_false, Bool.not_eq_false', ne_eq,
    UInt64.not_lt, Option.isSome_eq_false_iff, Option.isNone_iff_eq_none]
  constructor
  · rintro ⟨⟨hdefined, hnew, hrev, hle, hupd, hstat, hcomp, hinst, hopen, hleaf, hpar⟩, ⟨⟩, hval, h⟩
    obtain ⟨hprov, hcompl, hseen⟩ : (∀ p ∈ member.provenance,
        (member.status = .completed ∧ p.reopen = member.openState) ∧
          ItemCompletionState.modeFits member.mode p.kind = true) ∧
        (member.mode = .complete → member.provenance ≠ none) ∧ seen' = member.itemId :: seen := by
      cases hprov : member.provenance with
      | none =>
        rw [hprov] at h
        obtain ⟨hmode, h⟩ := ite_error_eq_ok.mp h
        exact ⟨by simp, fun hcompl => absurd hcompl hmode, (Except.ok.inj h).symm⟩
      | some p =>
        simp only [hprov, ite_error_eq_ok, not_or, not_not, Bool.not_eq_false] at h
        refine ⟨fun q hq => ?_, fun _ => Option.some_ne_none p, (Except.ok.inj h.2).symm⟩
        cases hq
        exact ⟨⟨h.1.1, h.1.2.1⟩, h.1.2.2⟩
    exact ⟨⟨hdefined,
      { openState_valid := hval
        status := hstat
        open_eq := hopen
        leaf := fun hnot => hleaf (of_decide_eq_false hnot)
        parent := fun hin => hpar (of_decide_eq_true hin)
        provenance := fun p hp => (hprov p hp).1
        modeFits := fun p hp => (hprov p hp).2
        complete := hcompl
        revision_valid := hrev
        revision_le := hle
        updatedAt_valid := hupd
        completedAt_isSome := hcomp.symm
        completedAt_valid := hinst }⟩, hnew, hseen⟩
  · rintro ⟨⟨hdefined, h⟩, hnew, rfl⟩
    refine ⟨⟨hdefined, hnew, h.revision_valid, h.revision_le, h.updatedAt_valid, h.status,
      h.completedAt_isSome.symm, h.completedAt_valid, h.open_eq,
      fun hnot => h.leaf (decide_eq_false hnot), fun hin => h.parent (decide_eq_true hin)⟩, (),
      h.openState_valid, ?_⟩
    cases hprov : member.provenance with
    | none => exact if_neg fun hcompl => h.complete hcompl hprov
    | some p =>
      obtain ⟨hcomp, hreop⟩ := h.provenance p hprov
      exact if_neg (by simp [hcomp, hreop, h.modeFits p hprov])

lemma exists_foldlM_checkMember {l : List RoutineOccurrenceMemberState} :
    (∃ seen, l.foldlM (checkMember definitions parents revision) [] = .ok seen) ↔
      (∀ member ∈ l, member.itemId ∈ definitions ∧
        MemberFits (decide (member.itemId ∈ parents)) revision member) ∧
      (l.map (·.itemId)).Nodup :=
  Keyed.foldlM_seen_eq_ok fun _ _ _ => checkMember_eq_ok

end

section

variable {member : RoutineOccurrenceMemberDefinition}

lemma hashValue_eq_ok {payload : OccurrencePayload} {hash : String} :
    hashValue digest payload = .ok hash ↔
      digest.size payload ≤ maxRoutineOccurrenceBytes ∧ digest.digest payload = hash := by
  rw [hashValue, ite_error_eq_ok, Nat.not_lt, Except.ok.injEq]

/-- A definition that passes for itself. -/
structure DefinitionFits (member : RoutineOccurrenceMemberDefinition) : Prop where
  wellFormed : member.isWellFormed = true
  initialOpen_valid : member.initialOpen.validate member.itemId = .ok ()

lemma insertDefinition_eq_ok {next : MemberDefinitions} :
    insertDefinition definitions member = .ok next ↔ DefinitionFits member ∧
      member.itemId ∉ definitions ∧ next = definitions.insert member.itemId member := by
  simp only [insertDefinition, ite_error_eq_ok, bind_eq_ok, mapError_eq_ok, not_or, not_not]
  constructor
  · rintro ⟨⟨hformed, hnew⟩, ⟨⟩, hopen, h⟩
    exact ⟨⟨hformed, hopen⟩, hnew, (Except.ok.inj h).symm⟩
  · rintro ⟨hfits, hnew, rfl⟩
    exact ⟨⟨hfits.wellFormed, hnew⟩, (), hfits.initialOpen_valid, rfl⟩

lemma foldlM_insertDefinition_eq_ok {l : List RoutineOccurrenceMemberDefinition} :
    l.foldlM insertDefinition ∅ = .ok definitions ↔ (∀ member ∈ l, DefinitionFits member) ∧
      (l.map (·.itemId)).Nodup ∧
      definitions = Keyed.byKey itemId l :=
  Keyed.foldlM_insert_eq_ok fun _ _ _ => insertDefinition_eq_ok

/-- A manifest that passes. -/
structure ManifestAccepted (zones : TimeZones) (digest : OccurrenceDigest)
    (manifest : RoutineOccurrenceManifest) : Prop where
  length_le : manifest.members.length ≤ maxRoutineOccurrenceMembers
  size_le : digest.size (.manifest manifest) ≤ maxRoutineOccurrenceBytes
  fields : manifestFieldsAreValid zones manifest = true
  definitions : ∀ member ∈ manifest.members, DefinitionFits member
  nodup : (manifest.members.map itemId).Nodup
  root : ∃ root ∈ manifest.members, root.itemId = manifest.seriesItemId ∧
    (root.kind = .task ∨ root.kind = .routine) ∧ root.recurs = true ∧ root.parentId = none
  evaluates : ∃ f, Evaluates (manifest.members.map initialNode) (occurrenceScope manifest) f

/-- **A manifest passes** if it is accepted; its definitions are found by identifier. -/
lemma validateManifest_eq_ok : validateManifest zones digest manifest = .ok definitions ↔
    ManifestAccepted zones digest manifest ∧
      definitions = Keyed.byKey itemId manifest.members := by
  simp only [validateManifest, ite_error_eq_ok, bind_eq_ok, hashValue_eq_ok, not_not, Nat.not_lt,
    foldlM_insertDefinition_eq_ok]
  constructor
  · rintro ⟨hlen, _, ⟨hsize, -⟩, hfields, _, ⟨hfits, hnd, rfl⟩, h⟩
    split at h
    · cases h
    · rename_i root hroot
      simp only [ite_error_eq_ok, bind_eq_ok, mapError_eq_ok, not_or, not_and_or, ne_eq, not_not,
        Bool.not_eq_false, Option.not_isSome_iff_eq_none] at h
      obtain ⟨hval, evaluation, heval, h⟩ := h
      obtain ⟨f, hf, -⟩ := evaluates_of_ok heval
      obtain ⟨hmem, hid⟩ := (Keyed.getElem?_byKey hnd).mp hroot
      exact ⟨⟨hlen, hsize, hfields, hfits, hnd, ⟨root, hmem, hid, hval⟩, f, hf⟩,
        (Except.ok.inj h).symm⟩
  · rintro ⟨h, rfl⟩
    obtain ⟨root, hmem, hid, hkind, hrec, hpar⟩ := h.root
    obtain ⟨f, hf⟩ := h.evaluates
    obtain ⟨evaluation, heval, -⟩ := hf.exists_ok
    refine ⟨h.length_le, _, ⟨h.size_le, rfl⟩, h.fields, _, ⟨h.definitions, h.nodup, rfl⟩, ?_⟩
    rw [(Keyed.getElem?_byKey h.nodup).mpr ⟨hmem, hid⟩]
    simp only [ite_error_eq_ok, bind_eq_ok, mapError_eq_ok, not_or, not_and_or, ne_eq, not_not,
      Bool.not_eq_false, Option.not_isSome_iff_eq_none]
    exact ⟨⟨hkind, hrec, hpar⟩, evaluation, heval, rfl⟩

lemma ManifestAccepted.perm (h : ManifestAccepted zones digest manifest)
    {members : List RoutineOccurrenceMemberDefinition} (hperm : manifest.members.Perm members)
    (hsize : digest.size (.manifest { manifest with members := members }) ≤
      maxRoutineOccurrenceBytes) :
    ManifestAccepted zones digest { manifest with members := members } where
  length_le := hperm.length_eq ▸ h.length_le
  size_le := hsize
  fields := h.fields
  definitions member hmb := h.definitions member (hperm.mem_iff.mpr hmb)
  nodup := (hperm.map _).nodup_iff.mp h.nodup
  root := by
    obtain ⟨root, hmem, hroot⟩ := h.root
    exact ⟨root, hperm.mem_iff.mp hmem, hroot⟩
  evaluates := by
    obtain ⟨f, hf⟩ := h.evaluates
    exact ⟨f, hf.perm (hperm.map _)⟩

end

/-- The node of a member, with the parent and the recurrence that the manifest gives it. -/
def nodeIn (manifest : RoutineOccurrenceManifest) (member : RoutineOccurrenceMemberState) :
    HierarchyCompletionItem :=
  let definition := (Keyed.byKey itemId
    manifest.members)[member.itemId]?
  { id := ⟨member.itemId⟩
    parentId := (definition.bind RoutineOccurrenceMemberDefinition.parentId).map ItemId.mk
    status := coreStatus member.status
    requiredForParent := member.requiredForParent
    recurs := definition.any RoutineOccurrenceMemberDefinition.recurs
    hasChildrenOutsidePlan := false
    manualOverride := coreMode member.mode
    provenance := member.provenance.map coreProvenance }

section

variable {member : RoutineOccurrenceMemberState}

@[simp] lemma nodeIn_id : (nodeIn manifest member).id = ⟨member.itemId⟩ := rfl

@[simp] lemma nodeIn_status : (nodeIn manifest member).status = coreStatus member.status := rfl

@[simp] lemma nodeIn_provenance :
    (nodeIn manifest member).provenance = member.provenance.map coreProvenance := rfl

variable {members : List RoutineOccurrenceMemberState} {aggregate : RoutineOccurrenceAggregate}
  {evaluation : HierarchyCompletionEvaluation}

/-- The tree is decided by the nodes of its members. -/
lemma evaluateMembers_eq_ok (hdefined : ∀ member ∈ members, member.itemId ∈
      manifest.members.map (·.itemId)) :
    evaluateMembers manifest members = .ok evaluation ↔
      evaluateHierarchyCompletion (members.map (nodeIn manifest)) (occurrenceScope manifest) =
        .ok evaluation := by
  unfold evaluateMembers
  dsimp only
  rw [(Except.mapM_eq_ok).mpr]
  · exact mapError_eq_ok
  · rw [List.forall₂_map_right_iff, List.forall₂_same]
    intro member hmb
    obtain ⟨definition, hdefn⟩ := ExtTreeMap.mem_iff_exists.mp
      (Keyed.mem_byKey.mpr (hdefined member hmb))
    rw [Option.okOr_eq_ok, nodeIn, hdefn]
    rfl

lemma mem_parents (hnd : (manifest.members.map (·.itemId)).Nodup)
    (id : Uuid) :
    decide (id ∈ (Keyed.byKey itemId manifest.members).toList.filterMap
      fun entry => entry.2.parentId) = manifest.isParent id := by
  rw [RoutineOccurrenceManifest.isParent, Bool.eq_iff_iff, decide_eq_true_eq, List.any_eq_true]
  simp only [List.mem_filterMap, Prod.exists, ExtTreeMap.mem_toList_iff_getElem?_eq_some,
    Keyed.getElem?_byKey hnd, decide_eq_true_eq]
  exact ⟨fun ⟨_, member, ⟨hmb, _⟩, hpar⟩ => ⟨member, hmb, hpar⟩,
    fun ⟨member, hmb, hpar⟩ => ⟨member.itemId, member, ⟨hmb, rfl⟩, hpar⟩⟩

/-- An aggregate that passes, with the decisions about its members. -/
structure AggregateAccepted (zones : TimeZones) (digest : OccurrenceDigest)
    (aggregate : RoutineOccurrenceAggregate) (evaluation : HierarchyCompletionEvaluation) :
    Prop where
  length_le : aggregate.members.length ≤ maxRoutineOccurrenceMembers
  size_le : digest.size (.aggregate aggregate) ≤ maxRoutineOccurrenceBytes
  manifest : ManifestAccepted zones digest aggregate.manifest
  revision_valid : validRevision aggregate.revision = true
  length_eq : aggregate.members.length = aggregate.manifest.members.length
  defined : ∀ member ∈ aggregate.members, member.itemId ∈
    aggregate.manifest.members.map itemId
  fits : ∀ member ∈ aggregate.members,
    MemberFits (aggregate.manifest.isParent member.itemId) aggregate.revision member
  nodup : (aggregate.members.map RoutineOccurrenceMemberState.itemId).Nodup
  evaluation_eq : evaluateHierarchyCompletion (aggregate.members.map (nodeIn aggregate.manifest))
    (occurrenceScope aggregate.manifest) = .ok evaluation
  reconciled : ∀ member ∈ aggregate.members, isReconciled evaluation member = true

/-- **An aggregate passes** if it is accepted. -/
lemma validateAggregate_eq_ok : validateAggregate zones digest aggregate = .ok evaluation ↔
    AggregateAccepted zones digest aggregate evaluation := by
  simp only [validateAggregate, ite_error_eq_ok, ite_eq_ok, bind_eq_ok, hashValue_eq_ok,
    validateManifest_eq_ok, not_or, not_not, ne_eq, Nat.not_lt, List.all_eq_true]
  constructor
  · rintro ⟨hlen, _, ⟨hsize, -⟩, _, ⟨hman, rfl⟩, ⟨hrev, hcnt⟩, seen, hseen,
      evaluation', heval, hall, h⟩
    cases h
    obtain ⟨hmbs, hnd⟩ := exists_foldlM_checkMember.mp ⟨seen, hseen⟩
    simp only [mem_parents hman.nodup, Keyed.mem_byKey] at hmbs
    have hdefined := fun member hmb => (hmbs member hmb).1
    exact ⟨hlen, hsize, hman, hrev, Keyed.size_byKey hman.nodup ▸ hcnt, hdefined,
      fun member hmb => (hmbs member hmb).2, hnd,
      (evaluateMembers_eq_ok hdefined).mp heval, hall⟩
  · intro h
    obtain ⟨seen, hseen⟩ := exists_foldlM_checkMember.mpr
      ⟨fun member hmb => ⟨Keyed.mem_byKey.mpr (h.defined member hmb),
        (mem_parents h.manifest.nodup member.itemId).symm ▸ h.fits member hmb⟩, h.nodup⟩
    exact ⟨h.length_le, _, ⟨h.size_le, rfl⟩, _, ⟨h.manifest, rfl⟩,
      ⟨h.revision_valid, (Keyed.size_byKey h.manifest.nodup).symm ▸ h.length_eq⟩, seen, hseen,
      evaluation, (evaluateMembers_eq_ok h.defined).mpr h.evaluation_eq, h.reconciled, rfl⟩

end

end DayWeave.Server
