import DayWeave.Scheduler.Evaluate

/-!
What the rules of a candidate enforce.

A rule that a candidate passes has checked its condition if it is hard (`Enforces`).
`admits_of_evaluateRules` collects the result for all rules of an item.
-/

open Std

namespace DayWeave

open Option (bind_eq_some_iff)

/-- The rule lets a candidate pass only if the condition holds. -/
def Enforces (rule : Tally → Option Tally) (condition : Prop) : Prop :=
  ∀ ⦃tally result⦄, rule tally = some result → condition

namespace Enforces

variable {rule : Tally → Option Tally} {α : Type} {check : α → Tally → Option Tally} {p : α → Prop}
  {request : PlanRequest} {itemId : ItemId} {interval : Span} {strength : ConstraintStrength}
  {kind : ViolationKind} {magnitude : UInt32} {message : String}

lemma mono {p q : Prop} (h : Enforces rule p) (hpq : p → q) :
    Enforces rule q := fun _ _ hr => hpq (h hr)

lemma map {p : Prop} (h : Enforces rule p) (f : Tally → Tally) :
    Enforces (fun tally => (rule tally).map f) p := fun tally result hr => by
  obtain ⟨t, ht, -⟩ := Option.map_eq_some_iff.mp hr
  exact h ht

/-- A hard rule passes only if it is satisfied. -/
lemma test {satisfied : Bool} :
    Enforces (Tally.test request itemId interval satisfied strength kind magnitude message)
      (strength.isHard → satisfied) := fun tally result hr hhard => by
  unfold Tally.test at hr
  split at hr
  · assumption
  · cases hr

lemma decided {q : Prop} [Decidable q] :
    Enforces (Tally.test request itemId interval q strength kind magnitude message)
      (strength.isHard → q) :=
  test.mono fun h hhard => of_decide_eq_true (h hhard)

lemma optionalRule {rule : Option α} (h : ∀ a, Enforces (check a) (p a)) :
    Enforces (optionalRule rule check) (∀ a ∈ rule, p a) := fun tally result hr a ha => by
  rw [Option.mem_def.mp ha] at hr
  exact h a hr

lemma repeatedRule {rules : List α} (h : ∀ a, Enforces (check a) (p a)) :
    Enforces (repeatedRule rules check) (∀ a ∈ rules, p a) := fun tally result hr => by
  unfold DayWeave.repeatedRule at hr
  induction rules generalizing tally with
  | nil => exact fun a ha => nomatch ha
  | cons b rest ih =>
    obtain ⟨t, ht, hrest⟩ := bind_eq_some_iff.mp hr
    exact List.forall_mem_cons.mpr ⟨h b ht, ih t hrest⟩

end Enforces

open Enforces (decided test)

/-- The hard rules of an item that concern one slot in one window. -/
structure KeepsHardRules (request : PlanRequest) (item : WorkItem) (window : AvailabilityWindow)
    (slot : Span) : Prop where
  earliestStart : ∀ q ∈ item.constraints.earliestStart, q.strength.isHard → q.value ≤ slot.start
  latestFinish : ∀ q ∈ item.constraints.latestFinish, q.strength.isHard → slot.finish ≤ q.value
  minimumNotice : ∀ q ∈ item.constraints.minimumNotice, q.strength.isHard →
    request.asOf.nanos + q.value.toDuration ≤ slot.start.nanos
  allowedWeekdays : ∀ q ∈ item.constraints.allowedWeekdays, q.strength.isHard →
    slot.start.weekday ∈ q.value
  dailyWindows : (∃ q ∈ item.constraints.preferredDailyWindows, q.strength.isHard) →
    ∃ q ∈ item.constraints.preferredDailyWindows, q.strength.isHard ∧
      q.value.contains slot.start slot.finish
  absoluteWindows : (∃ q ∈ item.constraints.preferredAbsoluteWindows, q.strength.isHard) →
    ∃ q ∈ item.constraints.preferredAbsoluteWindows, q.strength.isHard ∧
      (HalfOpen.mk q.value.start q.value.finish).Contains slot
  requiredContexts : ∀ q ∈ item.constraints.requiredContexts, q.strength.isHard →
    q.value ∈ window.contexts
  requiredLocation : ∀ q ∈ item.constraints.requiredLocation, q.strength.isHard →
    window.location = some q.value
  energy : ∀ q ∈ item.energy, q.strength.isHard → window.energy.satisfies q.value

/-- The rules of an item in one slot depend on neither its edges nor the window of its
occurrence, and of the request only on the present. -/
lemma KeepsHardRules.congr {request request' : PlanRequest} {item original : WorkItem}
    {window : AvailabilityWindow} {slot : Span} (h : KeepsHardRules request item window slot)
    (hasOf : request.asOf = request'.asOf) (henergy : item.energy = original.energy)
    {edges : List Dependency} {occurrenceWindow : Option AbsoluteWindow}
    (hcons : item.constraints = { original.constraints with
        dependencies := edges
        occurrenceWindow := occurrenceWindow }) : KeepsHardRules request' original window slot := by
  obtain ⟨h1, h2, h3, h4, h5, h6, h7, h8, h9⟩ := h
  rw [hcons] at h1 h2 h3 h4 h5 h6 h7 h8
  exact ⟨h1, h2, hasOf ▸ h3, h4, h5, h6, h7, h8, henergy ▸ h9⟩

section

variable {request : PlanRequest} {item : WorkItem} {window : AvailabilityWindow} {slot : Span}

lemma enforces_occurrenceRule : Enforces (occurrenceRule item slot)
    (∀ w ∈ item.constraints.occurrenceWindow, (HalfOpen.mk w.start w.finish).Contains slot) := by
  intro tally result h w hw
  simp only [occurrenceRule, Option.mem_def.mp hw, Option.ite_none_right_eq_some] at h
  exact h.1

lemma enforces_minimumNoticeRule (q : Qualified Minutes) :
    Enforces (minimumNoticeRule request item slot q)
      (q.strength.isHard → request.asOf.nanos + q.value.toDuration ≤ slot.start.nanos) := by
  intro tally result h hhard
  obtain ⟨required, hreq, htest⟩ := bind_eq_some_iff.mp h
  have hle := decided htest hhard
  rwa [OffsetDateTime.le_def, OffsetDateTime.nanos_of_checkedAdd hreq] at hle

lemma of_hardWindowsAccept {α : Type} {windows : List (Qualified α)} {accepts : α → Bool}
    (h : hardWindowsAccept windows accepts) (hhard : ∃ q ∈ windows, q.strength.isHard) :
    ∃ q ∈ windows, q.strength.isHard ∧ accepts q.value := by
  obtain ⟨q, hq, hqh⟩ := hhard
  rcases Bool.or_eq_true_iff.mp h with hemp | hany
  · have hmem : q ∈ windows.filter fun window => window.strength.isHard :=
      List.mem_filter.mpr ⟨hq, hqh⟩
    rw [List.isEmpty_iff.mp hemp] at hmem
    cases hmem
  · obtain ⟨r, hr, haccepts⟩ := List.any_eq_true.mp hany
    exact ⟨r, (List.mem_filter.mp hr).1, (List.mem_filter.mp hr).2, haccepts⟩

lemma enforces_evaluatePreferredWindows : Enforces (evaluatePreferredWindows request item slot)
    (hardWindowsAccept item.constraints.preferredDailyWindows
        (fun w => w.contains slot.start slot.finish) ∧
      hardWindowsAccept item.constraints.preferredAbsoluteWindows
        (fun w => (HalfOpen.mk w.start w.finish).Contains slot)) := by
  intro tally result h
  simp only [evaluatePreferredWindows] at h
  split at h
  · exact Bool.and_eq_true_iff.mp ‹_›
  · cases h

lemma scalarRules_spec {tally result : Tally}
    (h : scalarRules request item window slot tally = some result) :
    (∀ w ∈ item.constraints.occurrenceWindow, (HalfOpen.mk w.start w.finish).Contains slot) ∧
    (∀ q ∈ item.constraints.earliestStart, q.strength.isHard → q.value ≤ slot.start) ∧
    (∀ q ∈ item.constraints.latestFinish, q.strength.isHard → slot.finish ≤ q.value) ∧
    (∀ q ∈ item.constraints.minimumNotice, q.strength.isHard →
      request.asOf.nanos + q.value.toDuration ≤ slot.start.nanos) ∧
    (∀ q ∈ item.constraints.allowedWeekdays, q.strength.isHard → slot.start.weekday ∈ q.value) ∧
    (∀ q ∈ item.constraints.forbiddenWindows, q.strength.isHard →
      overlapMinutes slot ⟨q.value.start, q.value.finish⟩ = 0) ∧
    (∀ q ∈ item.constraints.requiredContexts, q.strength.isHard → q.value ∈ window.contexts) ∧
    (∀ q ∈ item.constraints.requiredLocation, q.strength.isHard → window.location = some q.value) ∧
    ∀ q ∈ item.energy, q.strength.isHard → window.energy.satisfies q.value := by
  simp only [scalarRules, Option.bind_eq_bind, bind_eq_some_iff] at h
  obtain ⟨_, h1, _, h2, _, h3, _, h4, _, h5, _, h6, _, h7, _, h8, h9⟩ := h
  exact ⟨enforces_occurrenceRule h1, Enforces.optionalRule (fun _ => decided) h2,
    Enforces.optionalRule (fun _ => decided.map _) h3,
    Enforces.optionalRule enforces_minimumNoticeRule h4,
    Enforces.optionalRule (fun _ => decided) h5,
    Enforces.repeatedRule (fun _ => decided) h6,
    Enforces.repeatedRule (fun _ => decided.map _) h7,
    Enforces.optionalRule (fun _ => decided) h8,
    Enforces.optionalRule (fun _ => test.map _) h9⟩

end

namespace PlanningState

/-- Whether an edge is kept by the bounds of the successor. -/
def EdgeKept (state : PlanningState) (items : WorkMap) (successor : Span)
    (dependency : Dependency) : Prop :=
  ∃ predecessor, usableBounds state.unscheduled state.blocks items dependency = some predecessor ∧
    ∃ boundary, dependencyBoundary dependency successor predecessor = some boundary ∧
      boundary.2 ≤ boundary.1

lemma enforces_dependencyRule (state : PlanningState) (request : PlanRequest) (item : WorkItem)
    (items : WorkMap) (slot successor : Span) (d : Dependency) :
    Enforces (state.dependencyRule request item items slot successor d)
      (d.strength.isHard → state.EdgeKept items successor d) := by
  intro tally result h hhard
  unfold dependencyRule at h
  split at h
  · exact absurd (test h hhard) (by simp)
  · rename_i predecessor hpred
    have hsat := test.map _ h hhard
    obtain ⟨boundary, hb, hle⟩ := (Option.any_eq_true _ _).mp hsat
    exact ⟨predecessor, hpred, boundary, hb, by simpa using hle⟩

lemma enforces_evaluateBuffers (state : PlanningState) (request : PlanRequest) (item : WorkItem)
    (window : AvailabilityWindow) (slot : Span) :
    Enforces (state.evaluateBuffers request item window slot)
      (∀ strength ∈ item.constraints.buffers.strength, strength.isHard →
        ∃ expanded, checkedBufferedInterval slot item.constraints.buffers.before
            item.constraints.buffers.after = some expanded ∧
          state.compressedMinutes ⟨window.start, window.finish⟩ expanded = 0) := by
  refine Enforces.optionalRule fun strength tally result h hhard => ?_
  split at h
  · exact absurd (test h hhard) (by simp)
  · rename_i expanded hexp
    exact ⟨expanded, hexp, by simpa using test h hhard⟩

/-- What the rules have found about a candidate that they let pass. -/
structure Admits (state : PlanningState) (request : PlanRequest) (item : WorkItem)
    (dependencies : List Dependency) (items : WorkMap)
    (window : AvailabilityWindow) (slot : Span) (finishesItem : Bool) : Prop where
  occurrence : ∀ w ∈ item.constraints.occurrenceWindow, (HalfOpen.mk w.start w.finish).Contains slot
  rules : KeepsHardRules request item window slot
  forbidden : ∀ q ∈ item.constraints.forbiddenWindows, q.strength.isHard →
    overlapMinutes slot ⟨q.value.start, q.value.finish⟩ = 0
  edges : ∀ d ∈ dependencies,
    dependencyApplies items finishesItem (state.establishesStart item slot) d →
      d.strength.isHard → state.EdgeKept items (state.successorBounds item slot) d
  buffers : ∀ strength ∈ item.constraints.buffers.strength, strength.isHard →
    ∃ expanded, checkedBufferedInterval slot item.constraints.buffers.before
        item.constraints.buffers.after = some expanded ∧
      state.compressedMinutes ⟨window.start, window.finish⟩ expanded = 0

/-- **Hard rules refuse**: a candidate that passes keeps all of them. -/
theorem admits_of_evaluateRules {state : PlanningState} {request : PlanRequest} {item : WorkItem}
    {edges : List Dependency} {items : WorkMap}
    {window : AvailabilityWindow} {slot : Span} {finishesItem : Bool} {tally : Tally}
    (h : state.evaluateRules request item edges items window slot finishesItem = some tally) :
    state.Admits request item edges items window slot finishesItem := by
  simp only [evaluateRules, Option.bind_eq_bind, bind_eq_some_iff] at h
  obtain ⟨_, h1, _, h2, _, h3, _, -, h5⟩ := h
  obtain ⟨hocc, hearl, hlatest, hnotice, hwday, hforbidden, hcontexts, hlocation, henergy⟩ :=
    scalarRules_spec h1
  obtain ⟨hdaily, habsolute⟩ := enforces_evaluatePreferredWindows h2
  refine ⟨hocc, ⟨hearl, hlatest, hnotice, hwday, of_hardWindowsAccept hdaily,
    fun hhard => ?_, hcontexts, hlocation, henergy⟩, hforbidden, fun d hd happlies => ?_,
    enforces_evaluateBuffers state request item window slot h5⟩
  · obtain ⟨q, hq, hqh, hqa⟩ := of_hardWindowsAccept habsolute hhard
    exact ⟨q, hq, hqh, by simpa using hqa⟩
  · exact Enforces.repeatedRule (enforces_dependencyRule state request item items slot _) h3 d
      (List.mem_filter.mpr ⟨hd, happlies⟩)

end PlanningState

end DayWeave
