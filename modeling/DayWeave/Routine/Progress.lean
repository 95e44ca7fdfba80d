import DayWeave.Routine.Members

/-!
Commands on an occurrence have no dead ends.

A command that was made on the strength of the current state, on a proven member that it suits, is
carried out: the tree is decided with the command in it (`exists_evaluates`), and with the
decisions written back the aggregate passes its checks again (`Evaluates.again`). Members other
than the target and its ancestors stay as they are. Together, `occurrence_progress`.
-/

open List Relation Std

namespace DayWeave.Server

open Except (bind_eq_ok bind_ne_error ite_error_eq_ok mapM_eq_ok)
open RoutineOccurrenceManifest (isParent)
open Uuid (ofNat)
open DateTime (atSecond)

section

variable {zones : TimeZones} {digest : OccurrenceDigest} {aggregate : RoutineOccurrenceAggregate}
  {evaluation : HierarchyCompletionEvaluation} {evidence : RoutineOccurrenceEvidence}
  {before : RoutineOccurrenceSnapshot} {itemId : Uuid} {command : RoutineOccurrenceCommand}
  {now : DateTime} {prep : RoutineOccurrenceMemberState → RoutineOccurrenceMemberState}
  {f f' : Decisions} {member : RoutineOccurrenceMemberState}

/-! ### The tree -/

/-- A member above another one. -/
def RoutineOccurrenceManifest.IsAncestor (manifest : RoutineOccurrenceManifest)
    (ancestor id : Uuid) : Prop :=
  TransGen (fun child parent => ∃ member ∈ manifest.members,
    member.itemId = child ∧ member.parentId = some parent) id ancestor

section

/-- The nodes of the members. -/
abbrev RoutineOccurrenceAggregate.nodes (aggregate : RoutineOccurrenceAggregate) :
    List HierarchyCompletionItem :=
  aggregate.members.map (nodeIn aggregate.manifest)

section

variable (h : AggregateAccepted zones digest aggregate evaluation)

include h

lemma AggregateAccepted.ids_perm : (aggregate.members.map (·.itemId)).Perm
      (aggregate.manifest.members.map (·.itemId)) := by
  have hsubset := List.forall_mem_map.mpr h.defined
  refine (h.nodup.subperm (hsubset ·)).perm_of_length_le ?_
  rw [length_map, length_map, h.length_eq]

/-- The edges between the nodes are those of the manifest. -/
lemma AggregateAccepted.parentEdge_iff
    {child parent : Uuid} : ParentEdge aggregate.nodes ⟨child⟩ ⟨parent⟩ ↔
      ∃ member ∈ aggregate.manifest.members,
        member.itemId = child ∧ member.parentId = some parent := by
  constructor
  · rintro ⟨node, hnode, hid, hpar⟩
    obtain ⟨member, hmb, rfl⟩ := mem_map.mp hnode
    obtain ⟨parent', hpar', heq⟩ := Option.map_eq_some_iff.mp hpar
    obtain ⟨definition, hdefn, hparent''⟩ := Option.bind_eq_some_iff.mp hpar'
    obtain ⟨hmem, hid'⟩ := (Keyed.getElem?_byKey h.manifest.nodup).mp hdefn
    cases heq
    cases hid
    exact ⟨definition, hmem, hid', hparent''⟩
  · rintro ⟨definition, hmem, rfl, hpar⟩
    obtain ⟨member, hmb, hid⟩ := mem_map.mp (h.ids_perm.mem_iff.mpr (mem_map_of_mem hmem))
    refine ⟨nodeIn aggregate.manifest member, mem_map_of_mem hmb, congrArg ItemId.mk hid, ?_⟩
    rw [nodeIn, hid, (Keyed.getElem?_byKey h.manifest.nodup).mpr ⟨hmem, rfl⟩]
    exact congrArg (Option.map ItemId.mk) hpar

lemma AggregateAccepted.hasChildrenIn_eq
    (id : Uuid) : hasChildrenIn aggregate.nodes ⟨id⟩ = aggregate.manifest.isParent id := by
  rw [Bool.eq_iff_iff, hasChildrenIn_iff, isParent, any_eq_true]
  constructor
  · rintro ⟨⟨child⟩, hedge⟩
    obtain ⟨definition, hmem, -, hpar⟩ := h.parentEdge_iff.mp hedge
    exact ⟨definition, hmem, decide_eq_true hpar⟩
  · rintro ⟨definition, hmem, hpar⟩
    exact ⟨⟨definition.itemId⟩, h.parentEdge_iff.mpr
      ⟨definition, hmem, rfl, of_decide_eq_true hpar⟩⟩

end

/-- The members with the command in the target: the identifiers are kept, only the target
changes, and every member can be decided. -/
structure Prepares (aggregate : RoutineOccurrenceAggregate) (itemId : Uuid)
    (prep : RoutineOccurrenceMemberState → RoutineOccurrenceMemberState) : Prop where
  id : ∀ member ∈ aggregate.members, (prep member).itemId = member.itemId
  other : ∀ member ∈ aggregate.members, member.itemId ≠ itemId → prep member = member
  fits : ∀ member ∈ aggregate.members,
    PreparedFits (aggregate.manifest.isParent member.itemId) (prep member)

/-- The nodes with the command in the target. -/
abbrev preparedNodes (aggregate : RoutineOccurrenceAggregate)
    (prep : RoutineOccurrenceMemberState → RoutineOccurrenceMemberState) :
    List HierarchyCompletionItem :=
  (aggregate.members.map prep).map (nodeIn aggregate.manifest)

lemma mem_preparedNodes (hmb : member ∈ aggregate.members) :
    nodeIn aggregate.manifest (prep member) ∈ preparedNodes aggregate prep :=
  mem_map_of_mem (mem_map_of_mem hmb)

lemma Prepares.sameTopology (h : Prepares aggregate itemId prep) :
    SameTopology aggregate.nodes (preparedNodes aggregate prep) := by
  intro id parentId recurs
  simp only [mem_map, exists_exists_and_eq_and]
  refine exists_congr fun member => and_congr_right fun hmb => ?_
  simp [nodeIn, h.id member hmb]

variable (h : AggregateAccepted zones digest aggregate evaluation)
  (hprepares : Prepares aggregate itemId prep)

include h hprepares

lemma Prepares.hasChildrenIn_eq (id : Uuid) :
    hasChildrenIn (preparedNodes aggregate prep) ⟨id⟩ = aggregate.manifest.isParent id := by
  rw [← hprepares.sameTopology.hasChildrenIn_eq, h.hasChildrenIn_eq]

/-- **The tree is decided** with the command in the target. -/
lemma Prepares.exists_evaluates
    (hf : Evaluates aggregate.nodes (occurrenceScope aggregate.manifest) f) :
    ∃ f', Evaluates (preparedNodes aggregate prep) (occurrenceScope aggregate.manifest) f' := by
  have hids : (preparedNodes aggregate prep).map (·.id) =
      aggregate.nodes.map (·.id) := by
    rw [List.map_map, List.map_map, List.map_map]
    exact map_congr_left fun member hmb => congrArg ItemId.mk (hprepares.id member hmb)
  refine DayWeave.exists_evaluates (hprepares.sameTopology.isCompletionForest hf.forest
    (hids ▸ hf.forest.nodup) fun node hnode => ?_) (fun node hnode _ => ?_) ?_
  · obtain ⟨_, hprep, rfl⟩ := mem_map.mp hnode
    obtain ⟨member, hmb, rfl⟩ := mem_map.mp hprep
    have hval := hf.forest.valid _ (mem_map_of_mem hmb)
    have hfits := hprepares.fits member hmb
    refine ⟨?_, ?_, rfl, fun p hp => ?_⟩
    · rw [nodeIn_id, hprepares.id member hmb]
      exact hval.id_ne_nil
    · simpa only [nodeIn, hprepares.id member hmb] using hval.parent_ne_nil
    · obtain ⟨provenance, hprov, rfl⟩ := Option.map_eq_some_iff.mp hp
      obtain ⟨hcomp, hreop⟩ := hfits.provenance provenance hprov
      refine ⟨congrArg coreStatus hcomp, ?_⟩
      have hopen := ItemCompletionReopenState.isOpen_of_validate hfits.openState_valid
      rw [priorOpenStatus_coreProvenance, hreop, isOpen_coreStatus (isMemberStatus_of_isOpen hopen),
        hopen]
  · obtain ⟨_, hprep, rfl⟩ := mem_map.mp hnode
    obtain ⟨member, hmb, rfl⟩ := mem_map.mp hprep
    rw [nodeIn_id, hprepares.hasChildrenIn_eq h, hprepares.id member hmb]
    exact (hprepares.fits member hmb).isDecidable
  · rw [length_map, length_map]
    exact h.length_le.trans (by decide)

variable (hprvn : ¬ Unproven aggregate.nodes (some ⟨aggregate.manifest.seriesItemId⟩) ⟨itemId⟩)
  (hf' : Evaluates (preparedNodes aggregate prep) (occurrenceScope aggregate.manifest) f')
  (hmb : member ∈ aggregate.members)

include hprvn hf' hmb

/-- **Every member** fits its policy with what is decided about it, and its node is the
decided one. -/
lemma Prepares.settled : StateFits (aggregate.manifest.isParent member.itemId)
        (settledMember now member (prep member) (f' ⟨member.itemId⟩)) ∧
      nodeIn aggregate.manifest (settledMember now member (prep member) (f' ⟨member.itemId⟩)) =
        decideNode f' (nodeIn aggregate.manifest (prep member)) := by
  have hid := hprepares.id member hmb
  have hcases := hf'.cases (mem_preparedNodes hmb)
  rw [nodeIn_id, hid] at hcases
  rcases hcases with ⟨hunp, hstat, hprov⟩ | ⟨-, -, hsetl⟩
  · -- an unproven member is not the target, and is left alone
    rw [← hprepares.sameTopology.unproven_iff] at hunp
    have hne : member.itemId ≠ itemId := by
      rintro rfl
      exact hprvn hunp
    rw [hprepares.other member hmb hne] at hstat hprov ⊢
    rw [(h.fits member hmb).settledMember_eq hstat hprov]
    refine ⟨(h.fits member hmb).toStateFits, ?_⟩
    rw [decideNode, nodeIn_id, hstat, hprov]
    rfl
  · have hfits := hprepares.fits member hmb
    refine ⟨hfits.settled hsetl fun hrdy => ?_, ?_⟩
    · have hchn := hf'.hasChildrenIn_of_isReady (mem_preparedNodes hmb) (by rwa [nodeIn_id, hid])
      rwa [nodeIn_id, hprepares.hasChildrenIn_eq h, hid] at hchn
    · have hdcn : f' (nodeIn aggregate.manifest (prep member)).id = f' ⟨member.itemId⟩ :=
        congrArg f' (congrArg ItemId.mk hid)
      rw [nodeIn_settledMember fun v hv => hfits.priorOpenStatus_eq hsetl hv, decideNode, hdcn]

/-- **Members away from the target** stay as they are. -/
lemma Prepares.settledMember_eq_self
    (hf : Evaluates aggregate.nodes (occurrenceScope aggregate.manifest) f)
    (hstat : (f ⟨member.itemId⟩).status = coreStatus member.status)
    (hprov : (f ⟨member.itemId⟩).provenance = member.provenance.map coreProvenance)
    (haway : ¬ (member.itemId = itemId ∨ aggregate.manifest.IsAncestor member.itemId itemId)) :
    settledMember now member (prep member) (f' ⟨member.itemId⟩) = member := by
  rw [not_or] at haway
  have hsame : f ⟨member.itemId⟩ = f' ⟨member.itemId⟩ := by
    refine hf.eq_of_unaffected hf' hprepares.sameTopology
      (U := fun id => ¬ (id.uuid = itemId ∨ aggregate.manifest.IsAncestor id.uuid itemId))
      (fun child parent hedge hpar => ?_) (fun node hnode hU => ?_)
      (mem_map_of_mem hmb) (not_or.mpr haway)
    · -- above a member that is reached, all members are reached
      have hedge' := h.parentEdge_iff.mp hedge
      rintro (rfl | hancestor)
      · exact hpar (.inr (.single hedge'))
      · exact hpar (.inr (hancestor.tail hedge'))
    · obtain ⟨other, hoth, rfl⟩ := mem_map.mp hnode
      have heq := hprepares.other other hoth fun heq => hU (.inl heq)
      exact heq ▸ mem_preparedNodes hoth
  rw [hprepares.other member hmb haway.1]
  exact (h.fits member hmb).settledMember_eq (hsame ▸ hstat) (hsame ▸ hprov)

end

/-! ### Writing back -/

/-- A settled member with its new revision, if it changed or is the target. -/
def changedMember (itemId : Uuid) (now : DateTime)
    (original settled : RoutineOccurrenceMemberState) : RoutineOccurrenceMemberState :=
  if settled ≠ original ∨ settled.itemId = itemId then
    { settled with revision := original.revision + 1, updatedAt := now }
  else settled

section

variable {occurrenceId : Uuid} {action : RoutineOccurrenceAction} {isParent : Bool}
  {original settled : RoutineOccurrenceMemberState} {d : HierarchyCompletionDecision}
  {revision : UInt64}

lemma toNat_add_one (h : revision.toNat < maxRevision) :
    (revision + 1).toNat = revision.toNat + 1 := by
  have hsize : revision.toNat + 1 < 2 ^ 64 := by
    unfold maxRevision at h
    omega
  exact Nat.mod_eq_of_lt hsize

lemma nextOccurrenceRevision_eq (h : revision.toNat < maxRevision) :
    nextOccurrenceRevision revision = .ok (revision + 1) :=
  if_pos h

/-- A member is written back unless it is being worked on. -/
lemma exists_settleMember (hrev : original.revision.toNat < maxRevision)
    (hlive : settledMember now original member d ≠ original ∨
      (settledMember now original member d).itemId = itemId →
        ⟨(settledMember now original member d).itemId, occurrenceId⟩ ∉ evidence.liveWorkUnits) :
    ∃ effect, settleMember evidence occurrenceId itemId action now original member d =
      .ok (changedMember itemId now original (settledMember now original member d), effect) := by
  unfold settleMember changedMember
  by_cases hchgd : settledMember now original member d ≠ original ∨
      (settledMember now original member d).itemId = itemId
  · rw [if_pos hchgd, if_pos hchgd, if_neg (hlive hchgd), nextOccurrenceRevision_eq hrev]
    exact ⟨_, rfl⟩
  · rw [if_neg hchgd, if_neg hchgd]
    exact ⟨none, rfl⟩

lemma nodeIn_changedMember {manifest : RoutineOccurrenceManifest} :
    nodeIn manifest (changedMember itemId now original settled) = nodeIn manifest settled := by
  unfold changedMember
  split_ifs <;> rfl

lemma changedMember_itemId :
    (changedMember itemId now original settled).itemId = settled.itemId := by
  unfold changedMember
  split_ifs <;> rfl

/-- What is written back fits the next revision of the aggregate. -/
lemma MemberFits.changedMember (h : MemberFits isParent revision original)
    (hset : StateFits isParent (settledMember now original member d))
    (hnow : validInstant now = true) (hmax : revision.toNat < maxRevision) :
    MemberFits isParent (revision + 1)
      (changedMember itemId now original (settledMember now original member d)) := by
  have hle := UInt64.le_iff_toNat_le.mp h.revision_le
  have horig := toNat_add_one (hle.trans_lt hmax)
  have hagg := toNat_add_one hmax
  have hcomp : (settledMember now original member d).completedAt.isSome =
      decide ((settledMember now original member d).status = .completed) := by
    unfold settledMember
    split_ifs with hstat
    · rw [hstat, Option.isSome_or, Option.isSome_some, Bool.or_true]
      rfl
    · rw [decide_eq_false hstat]
      rfl
  have hinst : ∀ instant ∈ (settledMember now original member d).completedAt,
      validInstant instant = true := by
    intro instant hinst
    unfold settledMember at hinst
    split_ifs at hinst
    · rcases Option.or_eq_some_iff.mp hinst with hsome | ⟨-, hsome⟩
      · exact h.completedAt_valid instant hsome
      · cases hsome
        exact hnow
    · cases hinst
  unfold Server.changedMember
  split_ifs with hchgd
  · exact
      { hset with
        revision_valid := decide_eq_true (by rw [horig]; omega)
        revision_le := UInt64.le_iff_toNat_le.mpr (by rw [horig, hagg]; omega)
        updatedAt_valid := hnow
        completedAt_isSome := hcomp
        completedAt_valid := hinst }
  · rw [not_or, not_not] at hchgd
    rw [hchgd.1]
    exact { h with
      revision_le := UInt64.le_iff_toNat_le.mpr (by rw [hagg]; omega) }

end

/-! ### The next aggregate -/

/-- A member after the command. -/
abbrev memberAfter (itemId : Uuid) (now : DateTime)
    (prep : RoutineOccurrenceMemberState → RoutineOccurrenceMemberState)
    (f : Decisions) (member : RoutineOccurrenceMemberState) :
    RoutineOccurrenceMemberState :=
  changedMember itemId now member (settledMember now member (prep member) (f ⟨member.itemId⟩))

/-- The aggregate after the command. -/
abbrev aggregateAfter (aggregate : RoutineOccurrenceAggregate) (itemId : Uuid) (now : DateTime)
    (prep : RoutineOccurrenceMemberState → RoutineOccurrenceMemberState) (f : Decisions) :
    RoutineOccurrenceAggregate :=
  ⟨aggregate.normalized.manifest, aggregate.revision + 1,
    aggregate.normalized.members.map (memberAfter itemId now prep f)⟩

section

lemma normalized_members_perm : aggregate.normalized.members.Perm aggregate.members :=
  sortBy_perm _ _

lemma normalized_definitions_perm :
    aggregate.normalized.manifest.members.Perm aggregate.manifest.members :=
  sortBy_perm _ _

lemma isParent_normalized (id : Uuid) :
    aggregate.normalized.manifest.isParent id = aggregate.manifest.isParent id := by
  rw [Bool.eq_iff_iff, isParent, isParent,
    any_eq_true, any_eq_true]
  exact exists_congr fun member => and_congr_left fun _ => normalized_definitions_perm.mem_iff

section

variable (h : Prepares aggregate itemId prep)

include h

lemma Prepares.memberAfter_itemId :
    ∀ member ∈ aggregate.members, (memberAfter itemId now prep f member).itemId = member.itemId :=
  fun member hmb => changedMember_itemId.trans (h.id member hmb)

lemma Prepares.ids_aggregateAfter : ((aggregateAfter aggregate itemId now prep f).members.map
      RoutineOccurrenceMemberState.itemId).Perm
        (aggregate.members.map (·.itemId)) := by
  rw [List.map_map]
  refine .trans (.of_eq (map_congr_left fun member hmb => ?_)) (normalized_members_perm.map _)
  exact h.memberAfter_itemId member (normalized_members_perm.mem_iff.mp hmb)

lemma Prepares.normalized_eq_self : (aggregateAfter aggregate itemId now prep f).normalized =
      aggregateAfter aggregate itemId now prep f := by
  have hdefinitions : sortBy (compareOn RoutineOccurrenceMemberDefinition.itemId)
      aggregate.normalized.manifest.members = aggregate.normalized.manifest.members :=
    sortBy_eq_self _ (pairwise_sortBy _ _)
  have hmbs : sortBy (compareOn RoutineOccurrenceMemberState.itemId)
      (aggregate.normalized.members.map (memberAfter itemId now prep f)) =
        aggregate.normalized.members.map (memberAfter itemId now prep f) := by
    refine sortBy_eq_self _ (pairwise_map.mpr ?_)
    refine (pairwise_sortBy (compareOn RoutineOccurrenceMemberState.itemId)
      aggregate.members).imp_of_mem fun {a b} ha hb hab => ?_
    rw [compareOn, h.memberAfter_itemId a ((mem_sortBy _).mp ha),
      h.memberAfter_itemId b ((mem_sortBy _).mp hb)]
    exact hab
  rw [RoutineOccurrenceAggregate.normalized, hdefinitions, hmbs]

end

variable (h : AggregateAccepted zones digest aggregate evaluation)

include h

lemma AggregateAccepted.nodeIn_normalized :
    nodeIn aggregate.normalized.manifest = nodeIn aggregate.manifest := by
  funext member
  rw [nodeIn, nodeIn, Keyed.byKey_perm h.manifest.nodup normalized_definitions_perm.symm]

lemma AggregateAccepted.exists_applyCommand (hmb : member ∈ aggregate.members)
    (hcmd : command.validate member.itemId = .ok ())
    (hsuits : command.action.Suits (aggregate.manifest.isParent member.itemId)) :
    ∃ prep, Prepares aggregate member.itemId prep ∧
      applyCommand (aggregate.manifest.isParent member.itemId) command.action member.itemId
        aggregate.normalized.members = .ok (aggregate.normalized.members.map prep) := by
  obtain ⟨target, htgt, hfits, hid⟩ :=
    (h.fits member hmb).toStateFits.exists_applyAction hcmd hsuits
  have huniq : ∀ other ∈ aggregate.members, other.itemId = member.itemId → other = member :=
    fun other hoth heq => inj_on_of_nodup_map h.nodup hoth hmb heq
  refine ⟨fun other => if other.itemId = member.itemId then target else other,
    ⟨fun other hoth => ?_, fun other _ hne => if_neg hne, fun other hoth => ?_⟩, ?_⟩
  · split_ifs with heq
    · exact hid.trans heq.symm
    · rfl
  · split_ifs with heq
    · exact heq ▸ hfits
    · exact (h.fits other hoth).toPreparedFits
  · unfold applyCommand
    rw [if_pos (mem_map_of_mem (normalized_members_perm.mem_iff.mpr hmb)),
      mapM_eq_ok, List.forall₂_map_right_iff, List.forall₂_same]
    intro other hoth
    split_ifs with heq
    · rw [huniq other (normalized_members_perm.mem_iff.mp hoth) heq]
      exact htgt
    · rfl

variable (hprepares : Prepares aggregate itemId prep)
  (hf' : Evaluates (preparedNodes aggregate prep) (occurrenceScope aggregate.manifest) f')

include hprepares hf'

lemma Prepares.exists_evaluateMembers : ∃ evaluation',
    evaluateMembers aggregate.normalized.manifest (aggregate.normalized.members.map prep) =
        .ok evaluation' ∧
      ∀ member ∈ aggregate.members,
        evaluation'.decisions.getD ⟨member.itemId⟩ default = f' ⟨member.itemId⟩ := by
  have hperm : (preparedNodes aggregate prep).Perm
      ((aggregate.normalized.members.map prep).map (nodeIn aggregate.manifest)) :=
    (normalized_members_perm.symm.map prep).map _
  obtain ⟨evaluation', heval, hfds⟩ := (hf'.perm hperm).exists_ok
  refine ⟨evaluation', (evaluateMembers_eq_ok fun member hmb => ?_).mpr ?_, fun member hmb => ?_⟩
  · obtain ⟨other, hoth, rfl⟩ := mem_map.mp hmb
    have hoth' := normalized_members_perm.mem_iff.mp hoth
    rw [hprepares.id other hoth', (normalized_definitions_perm.map _).mem_iff]
    exact h.defined other hoth'
  · rw [h.nodeIn_normalized]
    exact heval
  · have hfnd := hfds.decisions_eq _ (hperm.mem_iff.mp (mem_preparedNodes hmb))
    rw [nodeIn_id, hprepares.id member hmb] at hfnd
    rw [ExtTreeMap.getD_eq_getD_getElem?, hfnd, Option.getD_some]

/-- **The command is carried out** on the members. -/
lemma Prepares.exists_nextAggregate {action : RoutineOccurrenceAction}
    (happly : applyCommand (aggregate.manifest.isParent itemId) action itemId
      aggregate.normalized.members = .ok (aggregate.normalized.members.map prep))
    (hmax : aggregate.revision.toNat < maxRevision)
    (hlive : ∀ member ∈ aggregate.members,
      settledMember now member (prep member) (f' ⟨member.itemId⟩) ≠ member ∨
        member.itemId = itemId →
      ⟨member.itemId, aggregate.manifest.occurrenceId⟩ ∉ evidence.liveWorkUnits) :
    ∃ effects, nextAggregate aggregate evidence itemId action now =
      .ok (aggregateAfter aggregate itemId now prep f', effects) := by
  obtain ⟨evaluation', heval, hdecisions⟩ := hprepares.exists_evaluateMembers h hf'
  -- every member settles alone, since none that changes has live work
  have hsettle : ∀ member ∈ aggregate.normalized.members, ∃ effect,
      settleMember evidence aggregate.manifest.occurrenceId itemId action now
        ((Keyed.byKey RoutineOccurrenceMemberState.itemId aggregate.members).getD
          (prep member).itemId (prep member)) (prep member)
        (evaluation'.decisions.getD ⟨(prep member).itemId⟩ default) =
      .ok (memberAfter itemId now prep f' member, effect) := by
    intro member hmb
    have hmb' := normalized_members_perm.mem_iff.mp hmb
    have hid := hprepares.id member hmb'
    have horig : (Keyed.byKey RoutineOccurrenceMemberState.itemId aggregate.members).getD
        (prep member).itemId (prep member) = member := by
      rw [hid, ExtTreeMap.getD_eq_getD_getElem?,
        (Keyed.getElem?_byKey h.nodup).mpr ⟨hmb', rfl⟩, Option.getD_some]
    rw [horig, hid, hdecisions member hmb']
    have hle := UInt64.le_iff_toNat_le.mp (h.fits member hmb').revision_le
    refine exists_settleMember (hle.trans_lt hmax) ?_
    rw [show (settledMember now member (prep member) (f' ⟨member.itemId⟩)).itemId =
      (prep member).itemId from rfl, hid]
    exact hlive member hmb'
  obtain ⟨settled, hset, hfst⟩ : ∃ settled, settleMembers aggregate evidence itemId action now
      evaluation' (aggregate.normalized.members.map prep) = .ok settled ∧
        settled.map Prod.fst =
          aggregate.normalized.members.map (memberAfter itemId now prep f') := by
    choose! effect heff using hsettle
    refine ⟨aggregate.normalized.members.map fun member =>
      (memberAfter itemId now prep f' member, effect member), ?_, ?_⟩
    · unfold settleMembers
      rw [mapM_eq_ok, List.forall₂_map_left_iff, List.forall₂_map_right_iff, List.forall₂_same]
      exact heff
    · rw [List.map_map]
      rfl
  refine ⟨settled.filterMap Prod.snd, bind_eq_ok.mpr ⟨_, happly, bind_eq_ok.mpr
    ⟨_, heval, bind_eq_ok.mpr ⟨_, hset, bind_eq_ok.mpr ⟨_, nextOccurrenceRevision_eq hmax, ?_⟩⟩⟩⟩⟩
  rw [hfst]
  rfl

variable (hprvn : ¬ Unproven aggregate.nodes (some ⟨aggregate.manifest.seriesItemId⟩) ⟨itemId⟩)

include hprvn

/-- **The next aggregate passes** its checks, if its payloads are not too large. -/
lemma Prepares.exists_accepted (hnow : validInstant now = true)
    (hmax : aggregate.revision.toNat < maxRevision)
    (hsize : digest.size (.aggregate (aggregateAfter aggregate itemId now prep f')) ≤
      maxRoutineOccurrenceBytes)
    (hsize' : digest.size (.manifest aggregate.normalized.manifest) ≤ maxRoutineOccurrenceBytes) :
    ∃ evaluation', AggregateAccepted zones digest (aggregateAfter aggregate itemId now prep f')
      evaluation' := by
  have hsort : ∀ member ∈ aggregate.normalized.members, member ∈ aggregate.members :=
    fun member => normalized_members_perm.mem_iff.mp
  have hset : ∀ member ∈ aggregate.members, StateFits (aggregate.manifest.isParent member.itemId)
        (settledMember now member (prep member) (f' ⟨member.itemId⟩)) ∧
      nodeIn aggregate.manifest (memberAfter itemId now prep f' member) =
        decideNode f' (nodeIn aggregate.manifest (prep member)) := fun member hmb =>
    (hprepares.settled h hprvn hf' hmb).imp_right nodeIn_changedMember.trans
  have hnodes : (aggregate.normalized.members.map (memberAfter itemId now prep f')).map
      (nodeIn aggregate.manifest) =
      ((aggregate.normalized.members.map prep).map (nodeIn aggregate.manifest)).map
        (decideNode f') := by
    rw [List.map_map, List.map_map, List.map_map]
    exact map_congr_left fun member hmb => (hset member (hsort member hmb)).2
  -- settled decisions are decided in the same way again
  have hagain := (hf'.perm ((normalized_members_perm.symm.map prep).map _)).again
  rw [← hnodes] at hagain
  obtain ⟨evaluation', heval, hfds⟩ := hagain.exists_ok
  refine ⟨evaluation', ?_⟩
  exact
    { length_le := by
        rw [length_map, normalized_members_perm.length_eq]
        exact h.length_le
      size_le := hsize
      manifest := h.manifest.perm normalized_definitions_perm.symm hsize'
      revision_valid := decide_eq_true (by rw [toNat_add_one hmax]; omega)
      length_eq := by
        rw [length_map, normalized_members_perm.length_eq, normalized_definitions_perm.length_eq]
        exact h.length_eq
      defined := fun member hmb => by
        obtain ⟨other, hoth, rfl⟩ := mem_map.mp hmb
        rw [hprepares.memberAfter_itemId other (hsort other hoth),
          (normalized_definitions_perm.map _).mem_iff]
        exact h.defined other (hsort other hoth)
      fits := fun member hmb => by
        obtain ⟨other, hoth, rfl⟩ := mem_map.mp hmb
        have hoth' := hsort other hoth
        rw [hprepares.memberAfter_itemId other hoth', isParent_normalized]
        exact (h.fits other hoth').changedMember (hset other hoth').1 hnow hmax
      nodup := hprepares.ids_aggregateAfter.nodup_iff.mpr h.nodup
      evaluation_eq := by
        rw [h.nodeIn_normalized]
        exact heval
      reconciled := fun member hmb => by
        obtain ⟨other, hoth, rfl⟩ := mem_map.mp hmb
        have hnode := (hset other (hsort other hoth)).2
        have hfnd := hfds.decisions_eq _ (mem_map_of_mem hmb)
        have hdcn : f' (nodeIn aggregate.manifest (prep other)).id =
            f' ⟨(memberAfter itemId now prep f' other).itemId⟩ :=
          congrArg f' (congrArg (·.id) hnode).symm
        have hstat := congrArg (·.status) hnode
        have hprov := congrArg (·.provenance) hnode
        rw [isReconciled, ExtTreeMap.getD_eq_getD_getElem?, ← nodeIn_id, hfnd, Option.getD_some]
        refine decide_eq_true ⟨?_, ?_⟩
        · rw [← nodeIn_status, hstat, decideNode, hdcn]
          rfl
        · rw [← nodeIn_provenance, hprov, decideNode, hdcn]
          rfl }

end

/-! ### The plan -/

section

variable {next : RoutineOccurrenceAggregate} {evaluation' : HierarchyCompletionEvaluation}
  {sources : SourcesById}

lemma hashValue_ne_tooLarge {payload : OccurrencePayload} :
    hashValue digest payload ≠ .error .tooLarge ↔
      hashValue digest payload = .ok (digest.digest payload) := by
  unfold hashValue
  split_ifs <;> simp

lemma snapshot_cases (h : routineOccurrenceSnapshot zones digest aggregate evidence = .ok before) :
    ∃ evaluation sources, AggregateAccepted zones digest aggregate evaluation ∧
      validateEvidence digest aggregate evidence = .ok sources ∧
      before.freshEditEligible = (decide (evidence.currentDefinitionHash =
        aggregate.manifest.definitionHash) &&
          (sources.toList.map Prod.snd).all RoutineOccurrenceSourceEvidence.eligible) ∧
      before.members = memberEvaluations evaluation := by
  obtain ⟨evaluation, heval, h⟩ := bind_eq_ok.mp h
  obtain ⟨sources, hsrcs, h⟩ := bind_eq_ok.mp h
  obtain ⟨hash, -, h⟩ := bind_eq_ok.mp h
  obtain ⟨_, -, h⟩ := bind_eq_ok.mp h
  cases h
  exact ⟨evaluation, sources, validateAggregate_eq_ok.mp heval, hsrcs, rfl, rfl⟩

section

variable (hsrcs : validateEvidence digest aggregate evidence = .ok sources)
  (hnd : (aggregate.manifest.members.map (·.itemId)).Nodup)
  (hman : next.manifest = aggregate.normalized.manifest)

include hsrcs hnd hman

/-- The evidence about an aggregate is evidence about the next one, if it is not too large. -/
lemma validateEvidence_next : validateEvidence digest next evidence =
      hashValue digest (.request next evidence) >>= fun _ => .ok sources := by
  rw [validateEvidence, ite_error_eq_ok, bind_eq_ok] at hsrcs
  obtain ⟨hbound, _, -, hsrcs⟩ := hsrcs
  rw [validateEvidence, if_neg hbound, hman, normalized_definitions_perm.length_eq,
    ← Keyed.byKey_perm hnd normalized_definitions_perm.symm]
  exact bind_congr fun _ => hsrcs

/-- **The snapshot of the next aggregate**: nothing but the size of a payload stands in its
way. -/
lemma exists_snapshot
    (hsize : routineOccurrenceSnapshot zones digest next evidence ≠ .error .tooLarge)
    (hlen : next.members.length ≤ maxRoutineOccurrenceMembers)
    (hlength' : next.manifest.members.length ≤ maxRoutineOccurrenceMembers)
    (hacc : digest.size (.aggregate next) ≤ maxRoutineOccurrenceBytes →
      digest.size (.manifest next.manifest) ≤ maxRoutineOccurrenceBytes →
      ∃ evaluation', AggregateAccepted zones digest next evaluation') :
    ∃ snapshot evaluation', routineOccurrenceSnapshot zones digest next evidence = .ok snapshot ∧
      AggregateAccepted zones digest next evaluation' ∧ snapshot.aggregate = next.normalized := by
  simp only [routineOccurrenceSnapshot, bind_ne_error, hashValue_ne_tooLarge] at hsize
  obtain ⟨hvalidate, hsize⟩ := hsize
  -- the aggregate and its manifest are not too large
  rw [validateAggregate, if_neg (Nat.not_lt.mpr hlen), bind_ne_error, hashValue_ne_tooLarge]
    at hvalidate
  obtain ⟨hagg, hvalidate⟩ := hvalidate
  have hchecked := (bind_ne_error.mp (hvalidate _ hagg)).1
  rw [validateManifest, if_neg (Nat.not_lt.mpr hlength'), bind_ne_error, hashValue_ne_tooLarge]
    at hchecked
  obtain ⟨evaluation', haccepted'⟩ :=
    hacc (hashValue_eq_ok.mp hagg).1 (hashValue_eq_ok.mp hchecked.1).1
  have hval := validateAggregate_eq_ok.mpr haccepted'
  -- nor are the evidence and the snapshot
  obtain ⟨hevid, hsize⟩ := hsize _ hval
  have hnext := validateEvidence_next hsrcs hnd hman
  rw [hnext, bind_ne_error, hashValue_ne_tooLarge] at hevid
  rw [hevid.1] at hnext
  obtain ⟨hhash, hsize⟩ := hsize _ hnext
  exact ⟨_, evaluation', bind_eq_ok.mpr ⟨_, hval, bind_eq_ok.mpr ⟨_, hnext, bind_eq_ok.mpr
    ⟨_, hhash, bind_eq_ok.mpr ⟨_, (hsize _ hhash).1, rfl⟩⟩⟩⟩, haccepted', rfl⟩

end

/-- A member that is found is proven if its evaluation says so. -/
lemma not_unproven_of_evaluations (h : AggregateAccepted zones digest aggregate evaluation)
    (hmb : itemId ∈ aggregate.members.map (·.itemId))
    (hprvn : ∀ member ∈ memberEvaluations evaluation, member.itemId = itemId →
      member.occurrenceEvidenceRequired = false) :
    ¬ Unproven aggregate.nodes (some ⟨aggregate.manifest.seriesItemId⟩) ⟨itemId⟩ := by
  obtain ⟨member, hmem, rfl⟩ := mem_map.mp hmb
  obtain ⟨f, hf, hfds⟩ := evaluates_of_ok h.evaluation_eq
  have hnode : nodeIn aggregate.manifest member ∈ aggregate.nodes := mem_map_of_mem hmem
  intro hunp
  have hflag := (hf.flag_iff hnode).mpr hunp
  have hfnd := hfds.decisions_eq _ hnode
  have hnot := hprvn _ (mem_map.mpr
    ⟨_, ExtTreeMap.mem_toList_iff_getElem?_eq_some.mpr hfnd, rfl⟩) rfl
  exact Bool.false_ne_true (hnot.symm.trans hflag)

/-- A command that was made on the strength of the current state is let through. -/
lemma reviewCommand_eq_ok (hnd : (aggregate.members.map (·.itemId)).Nodup)
    (hmb : member ∈ aggregate.members)
    (hinstance : aggregate.revision = command.expectedInstanceRevision)
    (hrev : member.revision = command.expectedMemberRevision)
    (hhash : before.evidenceHash = command.expectedEvidenceHash)
    (hdefn : evidence.currentDefinitionHash = aggregate.manifest.definitionHash)
    (helig : before.freshEditEligible = true)
    (hprvn : ∀ m ∈ before.members, m.itemId = member.itemId →
      m.occurrenceEvidenceRequired = false) :
    reviewCommand aggregate evidence member.itemId command before = .ok () := by
  have hfind : aggregate.members.find? (fun m => decide (m.itemId = member.itemId)) =
      some member := by
    obtain ⟨old, hold⟩ := Option.isSome_iff_exists.mp (find?_isSome.mpr
      ⟨member, hmb, decide_eq_true rfl⟩ :
        (aggregate.members.find? fun m => decide (m.itemId = member.itemId)).isSome)
    have hid : old.itemId = member.itemId := by simpa using find?_some hold
    rw [hold, inj_on_of_nodup_map hnd (mem_of_find?_eq_some hold) hmb hid]
  unfold reviewCommand
  rw [if_neg (not_not.mpr hinstance), hfind]
  change (if _ then _ else _) = _
  rw [if_neg (not_not.mpr hrev), if_neg (not_not.mpr hhash), if_neg (not_not.mpr hdefn),
    if_neg (not_not.mpr helig), if_neg]
  rw [any_eq_true]
  rintro ⟨m, hm, hboth⟩
  rw [Bool.and_eq_true, decide_eq_true_eq] at hboth
  rw [hprvn m hm hboth.1] at hboth
  cases hboth.2

end

/-! ### No dead ends -/

/-- Two states of a member that differ in the revision and the time of the change only. -/
def RoutineOccurrenceMemberState.SameState (member member' : RoutineOccurrenceMemberState) : Prop :=
  ∃ revision updatedAt, member' = { member with revision := revision, updatedAt := updatedAt }

/-- The members that a command writes: the target, and those for which something else is
decided with the command in the target. -/
def IsAffected (aggregate : RoutineOccurrenceAggregate) (itemId : Uuid)
    (action : RoutineOccurrenceAction) (now : DateTime) (original : RoutineOccurrenceMemberState) :
    Prop :=
  original.itemId = itemId ∨ ∃ prepared evaluation member,
    applyCommand (aggregate.manifest.isParent itemId) action itemId aggregate.normalized.members =
        .ok prepared ∧
      evaluateMembers aggregate.normalized.manifest prepared = .ok evaluation ∧
      member ∈ prepared ∧ member.itemId = original.itemId ∧
      settledMember now original member
        (evaluation.decisions.getD ⟨member.itemId⟩ default) ≠ original

section

lemma Prepares.memberAfter_cases (hprepares : Prepares aggregate itemId prep)
    (hmb : member ∈ aggregate.members) (hrev : member.revision.toNat < maxRevision) :
    (memberAfter itemId now prep f' member = member ∧ member.itemId ≠ itemId) ∨
      ((memberAfter itemId now prep f' member).revision.toNat = member.revision.toNat + 1 ∧
        (member.itemId = itemId ∨ ¬ member.SameState (memberAfter itemId now prep f' member))) := by
  have hid : (settledMember now member (prep member) (f' ⟨member.itemId⟩)).itemId = member.itemId :=
    hprepares.id member hmb
  unfold memberAfter changedMember
  split_ifs with hchgd
  · refine .inr ⟨toNat_add_one hrev, ?_⟩
    rw [hid] at hchgd
    by_cases htgt : member.itemId = itemId
    · exact .inl htgt
    · refine .inr fun ⟨revision, updatedAt, heq⟩ => hchgd.resolve_right htgt ?_
      rw [hprepares.other member hmb htgt] at heq ⊢
      -- both sides have the revision and the time of the member
      exact congrArg (fun m : RoutineOccurrenceMemberState =>
        { m with revision := member.revision, updatedAt := member.updatedAt }) heq
  · rw [not_or, not_not, hid] at hchgd
    exact .inl hchgd

/-- **Commands have no dead ends and touch only what they must.** Let an aggregate and the
evidence about it pass their checks, and let a valid command be made on the strength of the
current state, on a proven member that it suits, at a valid instant, with a revision left and
with no work in progress on the members that it writes. Unless a payload of the result is too
large, the command is carried out; the next aggregate passes its checks and has the next
revision; a member that changes is the target or an ancestor of it; and exactly the target
and the members that change get their next revision. -/
theorem occurrence_progress
    (hbef : routineOccurrenceSnapshot zones digest aggregate evidence = .ok before)
    (hcmd : command.validate itemId = .ok ())
    (hinstance : aggregate.revision = command.expectedInstanceRevision)
    (hmb : ∃ member ∈ aggregate.members,
      member.itemId = itemId ∧ member.revision = command.expectedMemberRevision)
    (hhash : before.evidenceHash = command.expectedEvidenceHash)
    (helig : before.freshEditEligible = true)
    (hprvn : ∀ member ∈ before.members, member.itemId = itemId →
      member.occurrenceEvidenceRequired = false)
    (hsuits : command.action.Suits (aggregate.manifest.isParent itemId))
    (hnow : validInstant now.truncateToPostgresTimestampPrecision = true)
    (hmax : aggregate.revision.toNat < maxRevision)
    (hlive : ∀ member ∈ aggregate.members, IsAffected aggregate itemId command.action
      now.truncateToPostgresTimestampPrecision member →
        ⟨member.itemId, aggregate.manifest.occurrenceId⟩ ∉ evidence.liveWorkUnits)
    (hsize : ∀ next effects, nextAggregate aggregate evidence itemId command.action
      now.truncateToPostgresTimestampPrecision = .ok (next, effects) →
        routineOccurrenceSnapshot zones digest next evidence ≠ .error .tooLarge) :
    ∃ plan, planRoutineOccurrence zones digest aggregate evidence itemId command now = .ok plan ∧
      (∃ evaluation, validateAggregate zones digest plan.snapshot.aggregate = .ok evaluation) ∧
      plan.snapshot.aggregate.revision.toNat = aggregate.revision.toNat + 1 ∧
      (plan.snapshot.aggregate.members.map RoutineOccurrenceMemberState.itemId).Perm
        (aggregate.members.map RoutineOccurrenceMemberState.itemId) ∧
      ∀ member ∈ aggregate.members, ∃ member' ∈ plan.snapshot.aggregate.members,
        member'.itemId = member.itemId ∧
        (member' ≠ member →
          member.itemId = itemId ∨ aggregate.manifest.IsAncestor member.itemId itemId) ∧
        ((member' = member ∧ member.itemId ≠ itemId) ∨
          (member'.revision.toNat = member.revision.toNat + 1 ∧
            (member.itemId = itemId ∨ ¬ member.SameState member'))) := by
  obtain ⟨target, htgt, rfl, hrev⟩ := hmb
  obtain ⟨evaluation, sources, h, hsrcs, hfr, hmbs⟩ := snapshot_cases hbef
  have hdefn : evidence.currentDefinitionHash = aggregate.manifest.definitionHash := by
    rw [hfr, Bool.and_eq_true] at helig
    exact of_decide_eq_true helig.1
  have hreview := reviewCommand_eq_ok h.nodup htgt hinstance hrev hhash hdefn helig hprvn
  rw [hmbs] at hprvn
  have hproven' := not_unproven_of_evaluations h (mem_map_of_mem htgt) hprvn
  -- the tree is decided with the command in the target
  obtain ⟨f, hf, hfds⟩ := evaluates_of_ok h.evaluation_eq
  obtain ⟨prep, hprepares, happly⟩ := h.exists_applyCommand htgt hcmd hsuits
  obtain ⟨f', hf'⟩ := hprepares.exists_evaluates h hf
  obtain ⟨evaluation', heval', hdecisions⟩ := hprepares.exists_evaluateMembers h hf'
  obtain ⟨effects, hnext⟩ := hprepares.exists_nextAggregate h hf' happly hmax fun member hmb
    hchgd => hlive member hmb (hchgd.elim (fun hne => .inr ⟨_, evaluation', prep member,
      happly, heval', mem_map_of_mem (normalized_members_perm.mem_iff.mpr hmb),
      hprepares.id member hmb, by
        rw [hprepares.id member hmb, hdecisions member hmb]
        exact hne⟩) .inl)
  -- what is written back passes the checks
  obtain ⟨snapshot, evaluation'', hsnapshot, hacc, hnormalized⟩ := exists_snapshot
    hsrcs h.manifest.nodup (by rfl) (hsize _ effects hnext)
    (by rw [length_map, normalized_members_perm.length_eq]; exact h.length_le)
    (normalized_definitions_perm.length_eq.trans_le h.manifest.length_le)
    (hprepares.exists_accepted h hf' hproven' hnow hmax)
  rw [hprepares.normalized_eq_self] at hnormalized
  refine ⟨⟨snapshot.withReasons effects, effects⟩, ?_, ?_, ?_, ?_, fun member hmb => ?_⟩
  · refine bind_eq_ok.mpr ⟨(), hcmd, bind_eq_ok.mpr ⟨before, hbef,
      bind_eq_ok.mpr ⟨(), hreview, ?_⟩⟩⟩
    rw [if_neg (not_not.mpr hnow)]
    exact bind_eq_ok.mpr ⟨_, hnext, bind_eq_ok.mpr ⟨_, hsnapshot, rfl⟩⟩
  all_goals
    rw [show (RoutineOccurrencePlan.mk (snapshot.withReasons effects) effects).snapshot.aggregate =
      _ from hnormalized]
  · exact ⟨evaluation'', validateAggregate_eq_ok.mpr hacc⟩
  · exact toNat_add_one hmax
  · exact hprepares.ids_aggregateAfter
  · have hle := UInt64.le_iff_toNat_le.mp (h.fits member hmb).revision_le
    have hnode : nodeIn aggregate.manifest member ∈ aggregate.nodes := mem_map_of_mem hmb
    have hfnd := hfds.decisions_eq _ hnode
    have hrecon := h.reconciled member hmb
    rw [isReconciled, ExtTreeMap.getD_eq_getD_getElem?, ← nodeIn_id, hfnd, Option.getD_some,
      decide_eq_true_eq] at hrecon
    refine ⟨_, mem_map_of_mem (normalized_members_perm.mem_iff.mpr hmb),
      hprepares.memberAfter_itemId member hmb, fun hne => ?_,
      hprepares.memberAfter_cases hmb (hle.trans_lt hmax)⟩
    by_contra haway
    refine hne ?_
    rw [memberAfter, hprepares.settledMember_eq_self h hproven' hf' hmb hf hrecon.1
      hrecon.2 haway, changedMember, if_neg]
    rw [not_or, not_not]
    exact ⟨rfl, fun heq => haway (.inl heq)⟩

end

end

namespace Sample

/-- A hash of the right form. -/
def hash : String := "sha256:0000000000000000000000000000000000000000000000000000000000000000"

/-- Every payload fits, and has the same hash. -/
def occurrenceDigest : OccurrenceDigest := ⟨fun _ => 0, fun _ => hash⟩

/-- One time zone, in which it is always the same day. -/
def zones : TimeZones := ⟨Unit, fun _ => some (), fun _ _ => ⟨1970, 1, 1⟩⟩

def step (id : ℕ) (parent : Option ℕ) : RoutineOccurrenceMemberDefinition where
  itemId := ofNat id
  parentId := parent.map ofNat
  sourceRevision := 1
  title := "Tidy up"
  kind := .task
  recurs := parent.isNone
  siblingOrder := 0
  requiredForParent := true
  initialOpen := ⟨.planned, none, none, none⟩

def plannedStep (id : ℕ) : RoutineOccurrenceMemberState where
  itemId := ofNat id
  revision := 1
  status := .planned
  requiredForParent := true
  mode := .automatic
  openState := ⟨.planned, none, none, none⟩
  provenance := none
  completedAt := none
  updatedAt := atSecond 0

def routine : RoutineOccurrenceAggregate where
  manifest := {
    schemaVersion := 1
    id := ofNat 3
    seriesItemId := ofNat 1
    occurrenceId := ofNat (5 * 2 ^ 76 + 2 * 2 ^ 62)
    identity := .afterCompletion (OffsetDateTime.atSecond 0)
    nominalStart := atSecond 0
    nominalEnd := atSecond 60
    windowStart := atSecond 0
    windowEnd := atSecond 60
    timezoneName := "UTC"
    definitionHash := hash
    members := [step 1 none, step 2 (some 1)] }
  revision := 1
  members := [plannedStep 1, plannedStep 2]

/-- The routine is as it was published, and nobody works on it. -/
def routineEvidence : RoutineOccurrenceEvidence :=
  ⟨hash, [⟨ofNat 1, some 1, true⟩, ⟨ofNat 2, some 1, true⟩], 0, ∅⟩

def finishStep : RoutineOccurrenceCommand := ⟨1, ofNat 9, 1, 1, hash, .setOutcome .completed⟩

end Sample

open Server.Sample (finishStep hash occurrenceDigest plannedStep routine routineEvidence)

/-- The step of a routine is completed. -/
theorem occurrence_progress_routine : ∃ plan,
    planRoutineOccurrence Sample.zones occurrenceDigest routine routineEvidence
      (ofNat 2) finishStep (atSecond 60) = .ok plan ∧
    plan.snapshot.aggregate.revision.toNat = 2 := by
  obtain ⟨before, hbef, hhash, helig, hprvn⟩ : ∃ before,
      routineOccurrenceSnapshot Sample.zones occurrenceDigest routine routineEvidence = .ok before ∧
      before.evidenceHash = hash ∧ before.freshEditEligible ∧
      ∀ member ∈ before.members, member.occurrenceEvidenceRequired = false := by decide +kernel
  obtain ⟨result, hres, snapshot, hok, -⟩ : ∃ next, nextAggregate routine routineEvidence
      (ofNat 2) (.setOutcome .completed)
      (atSecond 60).truncateToPostgresTimestampPrecision = .ok next ∧ ∃ snapshot,
      routineOccurrenceSnapshot Sample.zones occurrenceDigest next.1 routineEvidence =
        .ok snapshot ∧ True := by decide +kernel
  have hcmd : finishStep.validate (ofNat 2) = .ok () := by decide +kernel
  have hnow : validInstant (atSecond 60).truncateToPostgresTimestampPrecision = true := by
    decide +kernel
  obtain ⟨plan, hplan, -, hrev, -⟩ := occurrence_progress hbef hcmd rfl
    ⟨plannedStep 2, by decide, rfl, rfl⟩ hhash helig
    (fun member hmb _ => hprvn member hmb) (by decide +kernel :
      routine.manifest.isParent (ofNat 2) = false) hnow (by decide)
    (fun member _ _ => Finset.notMem_empty _) fun next effects heq htoo => by
      cases heq.symm.trans hres
      cases htoo.symm.trans hok
  exact ⟨plan, hplan, hrev⟩

end DayWeave.Server
