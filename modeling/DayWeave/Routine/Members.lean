import DayWeave.Routine.Checks

/-!
One member of an occurrence under a command.

A member that fits can be decided whatever its descendants are (`PreparedFits.isDecidable`), also
with a command that suits it (`StateFits.exists_applyAction`); then it fits again
(`PreparedFits.settled`), and its node is the decided node (`nodeIn_settledMember`).
-/

open Std

namespace DayWeave.Server

open ItemCompletionReopenState (isOpen_of_validate)

section

variable {manifest : RoutineOccurrenceManifest} {member original : RoutineOccurrenceMemberState}
  {isParent : Bool} {now : DateTime} {d : HierarchyCompletionDecision} {revision : UInt64}
  {completedAt : Option DateTime}

lemma priorOpenStatus_coreProvenance (p : ItemCompletionProvenance) :
    (coreProvenance p).priorOpenStatus = coreStatus p.reopen.status := by
  obtain ⟨kind, reopen⟩ := p
  cases kind <;> rfl

section

variable (h : PreparedFits isParent member)

include h

lemma PreparedFits.prior_eq {prior : HierarchyProgressStatus}
    (hpri : (nodeIn manifest member).prior = some prior) :
    prior = coreStatus member.openState.status := by
  cases hprov : member.provenance with
  | none =>
    rw [HierarchyCompletionItem.prior_of_none
      (by rw [nodeIn_provenance, hprov]; rfl)]
      at hpri
    split_ifs at hpri with hopen
    rw [nodeIn_status, isOpen_coreStatus h.status] at hopen
    rw [nodeIn_status] at hpri
    rw [← Option.some.inj hpri, ← h.open_eq hopen]
  | some p =>
    rw [HierarchyCompletionItem.prior_of_some
      (by
        rw [nodeIn_provenance, hprov]; rfl), priorOpenStatus_coreProvenance,
      (h.provenance p hprov).2] at hpri
    exact (Option.some.inj hpri).symm

lemma PreparedFits.prior_ne_none (hpar : isParent = true) :
    (nodeIn manifest member).prior ≠ none := by
  intro hnone
  obtain ⟨hprov, hstat⟩ := Option.or_eq_none_iff.mp hnone
  have hprov' := Option.map_eq_none_iff.mp (Option.map_eq_none_iff.mp hprov)
  have hopen : member.status.isOpen = true := by
    have hterm := mt (h.parent hpar) (not_not.mpr hprov')
    rw [isTerminal_eq h.status] at hterm
    simpa using hterm
  rw [nodeIn_status, isOpen_coreStatus h.status, if_pos hopen] at hstat
  cases hstat

lemma PreparedFits.isDecidable : (nodeIn manifest member).IsDecidable isParent where
  unambiguous := by
    rintro ⟨hpar, hend', hnone, -⟩
    refine h.parent hpar ?_ (Option.map_eq_none_iff.mp hnone)
    rw [nodeIn_status, isOpen_coreStatus h.status] at hend'
    simpa [isTerminal_eq h.status] using hend'
  prior hmode := by
    refine h.prior_ne_none (Bool.not_eq_false _ ▸ fun hleaf => hmode ?_)
    exact congrArg coreMode (h.leaf hleaf).1

lemma PreparedFits.fits_completed (hpar : isParent = true) (kind : ItemCompletionProvenanceKind)
    (hmode : ItemCompletionState.modeFits member.mode kind = true) :
    StateFits isParent { member with
      status := .completed
      provenance := some ⟨kind, member.openState⟩
      completedAt := completedAt } where
  openState_valid := h.openState_valid
  status := rfl
  open_eq := nofun
  leaf hleaf := nomatch hpar.symm.trans hleaf
  parent _ _ := Option.some_ne_none _
  provenance p hp := by
    cases hp
    exact ⟨rfl, rfl⟩
  modeFits p hp := by
    cases hp
    exact hmode
  complete _ := Option.some_ne_none _

lemma PreparedFits.fits_open (hmode : member.mode ≠ .complete) :
    StateFits isParent { member with
      status := member.openState.status
      provenance := none
      completedAt := completedAt } where
  openState_valid := h.openState_valid
  status := isMemberStatus_of_isOpen (isOpen_of_validate h.openState_valid)
  open_eq _ := rfl
  leaf hleaf := ⟨(h.leaf hleaf).1, rfl⟩
  parent _ hterm := by
    have hopen := isOpen_of_validate h.openState_valid
    rw [isTerminal_eq (isMemberStatus_of_isOpen hopen), hopen] at hterm
    cases hterm
  provenance _ hp := nomatch hp
  modeFits _ hp := nomatch hp
  complete hcompl := absurd hcompl hmode

/-- A member that is left alone, without a provenance. -/
lemma PreparedFits.fits_unchanged (hnone : member.provenance = none)
    (hmode : member.mode ≠ .complete) :
    StateFits isParent { member with provenance := none, completedAt := completedAt } where
  openState_valid := h.openState_valid
  status := h.status
  open_eq := h.open_eq
  leaf hleaf := ⟨(h.leaf hleaf).1, rfl⟩
  parent hpar hterm := absurd hnone (h.parent hpar hterm)
  provenance _ hp := nomatch hp
  modeFits _ hp := nomatch hp
  complete hcompl := absurd hcompl hmode

end

lemma coreMode_injective : Function.Injective coreMode := by
  intro a b h
  cases a <;> cases b <;> first | rfl | cases h

/-- **One member**: with what is decided about it, a member fits its policy. -/
lemma PreparedFits.settled (h : PreparedFits isParent member) {ready : Prop}
    (hsetl : Settles (nodeIn manifest member) ready d.status d.provenance)
    (hrdy : ready → isParent = true) :
    StateFits isParent (settledMember now original member d) := by
  obtain ⟨status, provenance, action, readiness, counts, flag⟩ := d
  dsimp only at hsetl
  have hauto : (nodeIn manifest member).manualOverride = .automatic →
      member.mode = .automatic := (coreMode_injective ·)
  have hparentOf : member.mode ≠ .automatic → isParent = true := fun hmode => by
    rw [← Bool.not_eq_false]
    exact fun hleaf => hmode (h.leaf hleaf).1
  unfold settledMember
  cases hsetl with
  | completed hmode hr hpri =>
    refine h.fits_completed (hrdy hr) .automatic ?_
    rw [hauto hmode]
    rfl
  | ended hmode hr hpri => exact absurd hpri (h.prior_ne_none (hrdy hr))
  | reopened hmode hr hprov =>
    rw [h.prior_eq (HierarchyCompletionItem.prior_of_some hprov), itemStatus_coreStatus]
    exact h.fits_open (by simp [hauto hmode])
  | unchanged hmode hr hprov =>
    rw [hprov, nodeIn_status, itemStatus_coreStatus]
    exact h.fits_unchanged (Option.map_eq_none_iff.mp hprov) (by simp [hauto hmode])
  | keptOpen hmode hpri =>
    have hmode' : member.mode = .keepOpen := coreMode_injective hmode
    rw [h.prior_eq hpri, itemStatus_coreStatus]
    exact h.fits_open (by simp [hmode'])
  | manual hmode hpri =>
    have hmode' : member.mode = .complete := coreMode_injective hmode
    refine h.fits_completed (hparentOf (by simp [hmode'])) .manual ?_
    rw [hmode']
    rfl

lemma nodeIn_settledMember
    (hpri : ∀ v, d.provenance = some v → v.priorOpenStatus = coreStatus member.openState.status) :
    nodeIn manifest (settledMember now original member d) =
      { nodeIn manifest member with status := d.status, provenance := d.provenance } := by
  have hprov : ((settledMember now original member d).provenance).map coreProvenance =
      d.provenance := by
    unfold settledMember
    cases hd : d.provenance with
    | none => rfl
    | some v =>
      have hv := hpri v hd
      cases v with
      | automatic status =>
        exact congrArg (fun s => some (HierarchyCompletionProvenance.automatic s)) hv.symm
      | manual status =>
        exact congrArg (fun s => some (HierarchyCompletionProvenance.manual s)) hv.symm
  have hstat : coreStatus (settledMember now original member d).status = d.status :=
    coreStatus_itemStatus
  unfold nodeIn
  rw [hprov, hstat]
  rfl

lemma MemberFits.settledMember_eq (h : MemberFits isParent revision member)
    (hstat : d.status = coreStatus member.status)
    (hprov : d.provenance = member.provenance.map coreProvenance) :
    settledMember now member member d = member := by
  have hstatus' : (settledMember now member member d).status = member.status :=
    (congrArg itemStatus hstat).trans itemStatus_coreStatus
  have hprov' : (settledMember now member member d).provenance = member.provenance := by
    unfold settledMember
    rw [hprov]
    cases hp : member.provenance with
    | none => rfl
    | some p =>
      have hreop := (h.provenance p hp).2
      obtain ⟨kind, reopen⟩ := p
      cases hreop
      cases kind <;> rfl
  have hcompAt : (settledMember now member member d).completedAt = member.completedAt := by
    have hsome := h.completedAt_isSome
    unfold settledMember
    rw [hstat, itemStatus_coreStatus]
    split_ifs with hcomp
    · rw [hcomp] at hsome
      obtain ⟨instant, hinst⟩ := Option.isSome_iff_exists.mp (hsome.trans (decide_eq_true rfl))
      rw [hinst, Option.some_or]
    · rw [decide_eq_false hcomp, Option.isSome_eq_false_iff, Option.isNone_iff_eq_none] at hsome
      exact hsome.symm
  calc settledMember now member member d
      = { member with
          status := (settledMember now member member d).status
          provenance := (settledMember now member member d).provenance
          completedAt := (settledMember now member member d).completedAt } := rfl
    _ = member := by rw [hstatus', hprov', hcompAt]

end

section

variable {member target : RoutineOccurrenceMemberState} {isParent : Bool}
  {command : RoutineOccurrenceCommand}

/-- Outcomes and reopening are for leaves, policies of their own for parents. -/
def RoutineOccurrenceAction.Suits (isParent : Bool) : RoutineOccurrenceAction → Prop
  | .setOutcome _ | .reopen _ => isParent = false
  | .setPolicy _ mode => mode ≠ .automatic → isParent = true

/-- A command that suits the target leaves a member that can be decided. -/
lemma StateFits.exists_applyAction (h : StateFits isParent member)
    (hcmd : command.validate member.itemId = .ok ()) (hsuits : command.action.Suits isParent) :
    ∃ target, applyAction isParent command.action member = .ok target ∧
      PreparedFits isParent target ∧ target.itemId = member.itemId := by
  unfold RoutineOccurrenceCommand.validate at hcmd
  split at hcmd
  · cases hcmd
  · cases hactn : command.action with
    | setOutcome status =>
      rw [hactn] at hcmd hsuits
      dsimp only at hcmd
      split_ifs at hcmd with hstat
      have hleaf : isParent = false := hsuits
      have hend' : status.isMemberStatus = true ∧ ¬ status.isOpen = true := by
        revert hstat
        cases status <;> simp [ItemStatus.isMemberStatus, ItemStatus.isOpen]
      refine ⟨_, if_neg (by simp [hleaf]), ?_, rfl⟩
      exact
        { openState_valid := h.openState_valid
          status := hend'.1
          open_eq := fun hopen => absurd hopen hend'.2
          leaf := fun _ => ⟨(h.leaf hleaf).1, rfl⟩
          parent := fun hpar => by cases hleaf.symm.trans hpar
          provenance := fun _ hp => by cases hp }
    | reopen openState =>
      rw [hactn] at hcmd hsuits
      have hval := Except.mapError_eq_ok.mp hcmd
      have hleaf : isParent = false := hsuits
      refine ⟨_, if_neg (by simp [hleaf]), ?_, rfl⟩
      exact
        { openState_valid := hval
          status := isMemberStatus_of_isOpen (isOpen_of_validate hval)
          open_eq := fun _ => rfl
          leaf := fun _ => ⟨(h.leaf hleaf).1, rfl⟩
          parent := fun hpar => by cases hleaf.symm.trans hpar
          provenance := fun _ hp => by cases hp }
    | setPolicy requiredForParent mode =>
      rw [hactn] at hsuits
      have hmode : isParent = false → mode = .automatic := fun hleaf => by
        by_contra hne
        cases hleaf.symm.trans (hsuits hne)
      refine ⟨_, if_neg fun hbad => hbad.2 (hmode hbad.1), ?_, rfl⟩
      exact
        { openState_valid := h.openState_valid
          status := h.status
          open_eq := h.open_eq
          leaf := fun hleaf => ⟨hmode hleaf, (h.leaf hleaf).2⟩
          parent := h.parent
          provenance := h.provenance }

/-- What is decided about a member returns to its recorded open status. -/
lemma PreparedFits.priorOpenStatus_eq {manifest : RoutineOccurrenceManifest} {ready : Prop}
    {d : HierarchyCompletionDecision} {v : HierarchyCompletionProvenance}
    (h : PreparedFits isParent member)
    (hsetl : Settles (nodeIn manifest member) ready d.status d.provenance)
    (hv : d.provenance = some v) : v.priorOpenStatus = coreStatus member.openState.status := by
  cases hpri : (nodeIn manifest member).prior with
  | some prior => rw [hsetl.priorOpenStatus_eq hv hpri, h.prior_eq hpri]
  | none =>
    have hnone := Option.map_eq_none_iff.mp (Option.or_eq_none_iff.mp hpri).1
    obtain ⟨status, provenance, action, readiness, counts, flag⟩ := d
    cases hsetl with
    | completed _ _ hsome | keptOpen _ hsome | manual _ hsome => cases hpri.symm.trans hsome
    | ended | unchanged => cases hnone.symm.trans hv
    | reopened => cases hv

end

end DayWeave.Server
