import DayWeave.Scheduler.Conservation

/-!
The sessions of splittable work.

What a split policy asks of the sessions of an item is a property of their stretches
(`KeepsPolicy`), the invariant of the loop over sessions (`Splits`). `splitPolicy_kept_iff` carries
it to the plan, together with the balance of the minutes.
-/

open List Std

namespace DayWeave

open Sample
open OffsetDateTime (le_def nanos_of_checkedAdd)

section

variable {env : Externals} {request : PlanRequest} {item : WorkItem} {low high : Minutes}
  {most : UInt16} {gap : Minutes} {days : Option UInt16} {duration : DurationEstimate}

/-- The second stretch starts at least the gap after the first. -/
def Gap (gap : Minutes) (a b : Span) : Prop :=
  a.finish.nanos + gap.toDuration ≤ b.start.nanos

/-- The days on which stretches start. -/
def startDays (l : List Span) : Finset Date := (l.map fun a => a.start.date).toFinset

/-- New sessions next to retained ones keep the policy: their sizes are in bounds, except that
work too short for a session is one session; they start after what is retained, a gap apart; and
neither sessions nor days are too many. -/
structure KeepsPolicy (minimumSession maximumSession : Minutes) (maximumSessions : UInt16)
    (minimumGap : Minutes) (maximumDays : Option UInt16) (live work : ℕ)
    (retained new : List Span) : Prop where
  sizes : ∀ a ∈ new, (Span.minutes a).toNat ≤ maximumSession.toNat ∧
    (minimumSession.toNat ≤ (Span.minutes a).toNat ∨
      work < minimumSession.toNat ∧ new.length = 1 ∧ (Span.minutes a).toNat = work)
  after : ∀ e ∈ retained, ∀ a ∈ new, Gap minimumGap e a
  apart : new.Pairwise fun a b => Gap minimumGap a b ∨ Gap minimumGap b a
  count : new ≠ [] → live + new.length ≤ maximumSessions.toNat
  days : ∀ limit ∈ maximumDays,
    (startDays (retained ++ new)).card ≤ max limit.toNat (startDays retained).card

section

variable {live work : ℕ}

lemma KeepsPolicy.nil (retained : List Span) : KeepsPolicy low high most gap days live work
      retained [] :=
  ⟨by simp, by simp, .nil, by simp, by simp⟩

lemma startDays_perm {l l' : List Span} (h : l.Perm l') : startDays l = startDays l' :=
  toFinset_eq_of_perm _ _ (h.map _)

lemma KeepsPolicy.perm {retained retained' new new' : List Span}
    (h : KeepsPolicy low high most gap days live work retained new) (hret : retained.Perm retained')
    (hnew : new.Perm new') : KeepsPolicy low high most gap days live work retained' new' := by
  refine ⟨fun a ha => ?_, fun e he a ha => ?_, ?_, fun hne => ?_, fun limit hlim => ?_⟩
  · rw [← hnew.length_eq]
    exact h.sizes a (hnew.mem_iff.mpr ha)
  · exact h.after e (hret.mem_iff.mpr he) a (hnew.mem_iff.mpr ha)
  · exact (hnew.pairwise_iff fun hgap => hgap.symm).mp h.apart
  · rw [← hnew.length_eq]
    exact h.count fun hnil => hne (hnil ▸ hnew).nil_eq.symm
  · rw [← startDays_perm hret, ← startDays_perm (hret.append hnew)]
    exact h.days limit hlim

lemma KeepsPolicy.snoc {retained new : List Span}
    (h : KeepsPolicy low high most gap days live work retained new) {a : Span}
    (hlong : ∀ b ∈ new, low.toNat ≤ (Span.minutes b).toNat)
    (hmax : (Span.minutes a).toNat ≤ high.toNat)
    (hmin : low.toNat ≤ (Span.minutes a).toNat ∨
      work < low.toNat ∧ new = [] ∧ (Span.minutes a).toNat = work)
    (hgap : ∀ e ∈ retained ++ new, Gap gap e a) (hcnt : live + new.length < most.toNat)
    (hday : ∀ limit ∈ days, a.start.date ∈ startDays (retained ++ new) ∨
      (startDays (retained ++ new)).card < limit.toNat) :
    KeepsPolicy low high most gap days live work retained (new ++ [a]) := by
  refine ⟨?_, fun e he => ?_, ?_, fun _ => ?_, fun limit hlim => ?_⟩
  · refine forall_mem_append.mpr ⟨fun b hb => ⟨(h.sizes b hb).1, .inl (hlong b hb)⟩,
      forall_mem_singleton.mpr ⟨hmax, ?_⟩⟩
    rcases hmin with hmin | ⟨hshort, rfl, hwork⟩
    · exact .inl hmin
    · exact .inr ⟨hshort, rfl, hwork⟩
  · exact forall_mem_append.mpr ⟨h.after e he, forall_mem_singleton.mpr
      (hgap e (mem_append_left _ he))⟩
  · refine pairwise_append.mpr ⟨h.apart, pairwise_singleton _ _, fun b hb c hc => ?_⟩
    rw [mem_singleton.mp hc]
    exact .inl (hgap b (mem_append_right _ hb))
  · rw [length_append, length_singleton]
    omega
  · have hdays : startDays (retained ++ (new ++ [a])) =
        insert a.start.date (startDays (retained ++ new)) := by
      ext d
      simp [startDays]
    have hold := h.days limit hlim
    rw [hdays]
    rcases hday limit hlim with hin | hlt
    · rwa [Finset.insert_eq_of_mem hin]
    · have := Finset.card_insert_le a.start.date (startDays (retained ++ new))
      omega

end

namespace PlanningState

variable {edges : List Dependency} {items : WorkMap}

abbrev spans (blocks : List ScheduleBlock) : List Span := blocks.map ScheduleBlock.interval

/-- What the sessions taken so far have kept, and what the next one starts from: all blocks of the
item end by `previousEnd`, and what remains is enough for a session, unless none was taken. -/
structure Splits (item : WorkItem) (minimumSession maximumSession : Minutes)
    (maximumSessions : UInt16) (minimumGap : Minutes) (maximumDays : Option UInt16)
    (s₀ s : Sessions) (new : List ScheduleBlock) : Prop where
  accounts : Accounts item s₀ s new
  existing : s.existing = s₀.existing
  usedDays : s.usedDays = startDays (spans (blocksOf s₀.state.blocks item.id ++ new))
  latest : ∀ b ∈ blocksOf s₀.state.blocks item.id ++ new, ∃ t, s.previousEnd = some t ∧ b.finish ≤ t
  left : s.remaining = 0 ∨ minimumSession ≤ s.remaining ∨ new = []
  policy : KeepsPolicy minimumSession maximumSession maximumSessions minimumGap maximumDays
    s₀.existing s₀.remaining.toNat (spans (blocksOf s₀.state.blocks item.id)) (spans new)

/-- The sessions of an item start after its retained blocks. -/
lemma splits_startSessions (state : PlanningState) (item : WorkItem) (remaining : UInt32) :
    Splits item low high most gap days
      (state.startSessions item remaining) (state.startSessions item remaining) [] := by
  refine ⟨⟨by simp, by simp, rfl, rfl, rfl, by simp [blockMinutes], rfl⟩, rfl, ?_, ?_,
    .inr (.inr rfl), .nil _⟩
  · rw [append_nil, startDays, map_map]
    rfl
  · intro b hb
    rw [append_nil] at hb
    have hmem : b.interval ∈ spans (blocksOf state.blocks item.id) := mem_map_of_mem hb
    cases hbds : boundsOf (blocksOf state.blocks item.id) with
    | none =>
      rw [boundsOf, HalfOpen.hull_eq_none] at hbds
      rw [spans, hbds] at hmem
      cases hmem
    | some bounds =>
      refine ⟨bounds.finish, ?_, (HalfOpen.hull_contains hbds hmem).2⟩
      change (boundsOf (blocksOf state.blocks item.id)).map HalfOpen.finish = _
      rw [hbds]
      rfl

section

variable {s₀ s s' : Sessions} {new : List ScheduleBlock} {index : UInt16}
  {earliest : Option OffsetDateTime} {size : Minutes} {candidate : Candidate}

/-- A session starts a gap after all blocks of its item. -/
lemma TakesSession.start_ge (hg : request.config.slotGranularity ≠ 0)
    (htakes : TakesSession env request item edges items low high
      most gap days s s' index earliest size candidate) {t : OffsetDateTime}
    (ht : s.previousEnd = some t) : t.nanos + gap.toDuration ≤ candidate.interval.start.nanos := by
  have hearl := htakes.notBefore
  rw [ht] at hearl
  obtain ⟨u, hu, rfl⟩ := Option.map_eq_some_iff.mp hearl
  obtain ⟨window, tally, hslot, -, -⟩ := bestCandidate_spec htakes.found
  obtain ⟨-, -, -, -, hbound, -⟩ := candidateSlots_spec hg hslot
  have hle := le_def.mp (hbound u rfl)
  rwa [nanos_of_checkedAdd hu] at hle

/-- **A round keeps the policy.** -/
lemma Splits.takes (hval : ValidRequest request) (hle : low ≤ high)
    (h : Splits item low high most gap days s₀ s new)
    (htakes : TakesSession env request item edges items low high
      most gap days s s' index earliest size candidate) : Splits item low high most gap days s₀ s'
      (new ++ [candidateBlock env item candidate index true]) := by
  obtain ⟨hlow', hupper, hmax, haft⟩ := bounds_of_mem_sessionSizes hle htakes.offered
  have hgap := fun t => htakes.start_ge (t := t) hval.granularity
  obtain ⟨hrem, hblw, -, -, -, hfnd, rfl⟩ := htakes
  have hrem := Minutes.toNat_pos hrem
  have hmins := minutes_of_bestCandidate hval.granularity hfnd
  obtain ⟨window, tally, hslot, hday, -⟩ := bestCandidate_spec hfnd
  obtain ⟨-, -, -, hadd, -, -⟩ := candidateSlots_spec hval.granularity hslot
  have hends : candidate.interval.start.nanos ≤ candidate.interval.finish.nanos := by
    have hfin := nanos_of_checkedAdd hadd
    have hnn := Minutes.toDuration_nonneg size
    dsimp only at hfin
    omega
  have hsize : (Span.minutes candidate.interval).toNat = size.toNat := congrArg _ hmins
  have hbalance := h.accounts.minutes
  have hgapNonneg := Minutes.toDuration_nonneg gap
  have hearlier : ∀ b ∈ blocksOf s₀.state.blocks item.id ++ new,
      Gap gap b.interval candidate.interval := by
    intro b hb
    obtain ⟨t, ht, hle⟩ := h.latest b hb
    exact (Int.add_le_add_right (le_def.mp hle) _).trans (hgap t ht)
  refine ⟨h.accounts.accept (UInt32.le_iff_toNat_le.mpr hupper) hmins rfl rfl rfl, h.existing,
    ?_, ?_, ?_, ?_⟩
  · change insert candidate.interval.start.date s.usedDays = _
    rw [h.usedDays]
    ext d
    simp only [startDays, spans, map_append, map_cons, map_nil, toFinset_append,
      Finset.mem_insert, Finset.mem_union, mem_toFinset, mem_singleton]
    tauto
  · rw [← append_assoc]
    refine forall_mem_append.mpr ⟨fun b hb => ⟨_, rfl, ?_⟩,
      forall_mem_singleton.mpr ⟨_, rfl, le_rfl⟩⟩
    have hb := hearlier b hb
    change b.finish.nanos + gap.toDuration ≤ _ at hb
    rw [le_def]
    omega
  · change UInt32.satSub s.remaining size = 0 ∨ low ≤ UInt32.satSub s.remaining size ∨ _
    rw [← UInt32.toNat_inj, UInt32.le_iff_toNat_le, UInt32.toNat_satSub]
    exact haft.imp id .inl
  · have hnone : new = [] → s.remaining = s₀.remaining := by
      rintro rfl
      exact UInt32.toNat_inj.mp (by simpa [blockMinutes] using hbalance)
    have hspans : spans (new ++ [candidateBlock env item candidate index true]) =
        spans new ++ [candidate.interval] := map_append
    rw [hspans]
    refine h.policy.snoc (fun a ha => ?_) (by omega) ?_ ?_ ?_ fun limit hlim => ?_
    · -- a session that is too short is all of the work, and then nothing remains
      refine (h.policy.sizes a ha).2.resolve_right fun hshort => ?_
      obtain ⟨-, hone, hwork⟩ := hshort
      obtain ⟨b, rfl⟩ := length_eq_one_iff.mp ((length_map _).symm.trans hone)
      obtain rfl := mem_singleton.mp ha
      rw [blockMinutes, map_singleton, sum_singleton] at hbalance
      omega
    · rcases h.left with hzero | hleft | hnil
      · rw [hzero, UInt32.toNat_zero] at hrem
        omega
      · rw [UInt32.le_iff_toNat_le] at hleft
        exact .inl (by omega)
      · have hall := hnone hnil
        rw [hall] at hlow' hupper haft
        rw [hnil]
        by_cases hshort : s₀.remaining.toNat < low.toNat
        · exact .inr ⟨hshort, rfl, by omega⟩
        · exact .inl (by omega)
    · rw [← map_append]
      exact forall_mem_map.mpr hearlier
    · rw [length_map, ← h.existing]
      have := h.accounts.added
      omega
    · have hlimit' := (Option.all_eq_true _ _).mp hday limit hlim
      rw [← map_append, ← h.usedDays]
      simpa using hlimit'

end

/-- The sessions of an item that count before the first new one. -/
def liveSessions (state : PlanningState) (id : ItemId) : ℕ :=
  (state.liveSessionIndices.getD id ∅ ∪
    ((blocksOf state.blocks id).map ScheduleBlock.sessionIndex).toFinset).card

variable (env edges items) in
/-- **The sessions of one item** keep its policy. -/
theorem scheduleItem_keepsPolicy (hval : ValidRequest request) (hmem : item ∈ request.items)
    (hpol : item.splitPolicy = .splittable low high most gap days)
    (hdur : item.duration = some duration) (state : PlanningState) :
    ∃ new, (scheduleItem env state request item edges items).1.blocks = state.blocks ++ new ∧
      KeepsPolicy low high most gap days
        (state.liveSessions item.id) (state.uncovered item duration.planningMinutes).toNat
        (spans (blocksOf state.blocks item.id)) (spans new) := by
  refine scheduleItem_invariant (P := fun t => ∃ new, t.blocks = state.blocks ++ new ∧
    KeepsPolicy low high most gap days
      (state.liveSessions item.id) (state.uncovered item duration.planningMinutes).toNat
      (spans (blocksOf state.blocks item.id)) (spans new))
    (J := fun s => ∃ new, Splits item low high most gap
      days (state.startSessions item (state.uncovered item duration.planningMinutes)) s new)
    ?_ ?_ ?_ ?_ ?_ ?_ ?_
  · rintro s t hsame ⟨new, hbl, hnew⟩
    exact ⟨new, hsame.blocks.trans hbl, hnew⟩
  · exact ⟨[], (append_nil _).symm, .nil _⟩
  · intro other hoth
    obtain rfl := Option.some.inj (hdur.symm.trans hoth)
    exact ⟨[], splits_startSessions state item _⟩
  · rintro s _ _ ⟨new, h⟩
    obtain ⟨hbl, hown, hunsch, hpin, hresv, hmins, hadd'⟩ := h.accounts
    exact ⟨new, ⟨hbl, hown, hunsch, hpin, hresv, hmins, hadd'⟩, h.existing,
      h.usedDays, h.latest, h.left, h.policy⟩
  · intro s index candidate hindiv
    cases hpol.symm.trans hindiv
  · rintro _ _ _ _ _ hoth s s' index earliest size candidate ⟨new, h⟩ htakes
    cases hpol.symm.trans hoth
    exact ⟨_, h.takes hval (hval.splittable hmem hpol).2.1 htakes⟩
  · rintro s ⟨new, h⟩
    exact ⟨new, h.accounts.blocks, h.policy⟩

/-- The placement of items does not change which indices are live. -/
lemma liveSessionIndices_scheduleItem (state : PlanningState) :
    (scheduleItem env state request item edges items).1.liveSessionIndices =
      state.liveSessionIndices := by
  refine scheduleItem_invariant
    (fun hsame h => hsame.liveSessionIndices.trans h) rfl (fun _ _ => rfl) (fun _ _ _ h => h)
    (fun _ _ _ _ h _ _ _ => h) ?_ fun _ h => h
  rintro _ _ _ _ _ _ s s' index earliest size candidate h ⟨-, -, -, -, -, -, rfl⟩
  exact h

end PlanningState

open PlanningState (blockMinutes liveSessions spans uncovered)

namespace Planner

variable {state : PlanningState}

/-- The blocks that are placed for an item keep its policy. -/
lemma place_keepsPolicy (hval : ValidRequest request) (h : Demands request item)
    (hear : ¬ ExitsEarly env request state item) (hdur : item.duration = some duration)
    (hpol : item.splitPolicy = .splittable low high most gap days) :
    ∃ new, blocksOf (place env request state).blocks item.id =
        blocksOf state.blocks item.id ++ new ∧
      KeepsPolicy low high most gap days
        (state.liveSessions item.id) (state.uncovered item duration.planningMinutes).toNat
        (spans (blocksOf state.blocks item.id)) (spans new) := by
  obtain ⟨pre, new, reports, hpre, hbef, scheduled, haft⟩ :=
    exists_turn_of_not_exitsEarly hval h hear
  obtain ⟨new', hbl, hkeeps⟩ := PlanningState.scheduleItem_keepsPolicy env
    ((edgesOf request).getD item.id []) (itemsById request.items) hval h.mem hpol hdur
    (progressAfter env request state pre).state
  obtain rfl := append_cancel_left (hbl.symm.trans scheduled.blocks)
  have hlive : (progressAfter env request state pre).state.liveSessionIndices =
      state.liveSessionIndices :=
    progressAfter_invariant hval
      (fun hsame h => hsame.liveSessionIndices.trans h)
      (fun item _ _ s hs => (PlanningState.liveSessionIndices_scheduleItem s).trans hs) rfl hpre
  refine ⟨new', blocksOf_place_eq hbef haft scheduled.blocks scheduled.own, ?_⟩
  rwa [liveSessions, uncovered, hlive, hbef.blocks,
    hbef.pinnedMinutes, hbef.executionReservedMinutes] at hkeeps

end Planner

/-! ### The plan -/

variable {execution : ExecutionPlanningContext} {lifecycle : OccurrenceLifecycleContext}
  {plan : SchedulePlan}

namespace SchedulePlan

variable (plan : SchedulePlan) (name : WorkIdentity)

/-- The stretches that are planned for a name. -/
def plannedSpans : List Span :=
  spans ((plan.blocksNamed name).filter fun b => b.kind = .planned)

/-- The stretches that are retained for a name. -/
def retainedSpans : List Span :=
  spans ((plan.blocksNamed name).filter fun b => ¬ b.kind = .planned)

def reportedMinutes : ℕ :=
  ((plan.reportsNamed name).map fun w => w.remaining.toNat).sum

end SchedulePlan

namespace PlanTrace

variable (trace : PlanTrace env request execution lifecycle plan)

lemma spansNamed_perm (id : ItemId) (kind : ScheduleBlockKind → Bool) :
    (spans ((plan.blocksNamed (trace.identity id)).filter fun b => kind b.kind)).Perm
      (spans ((blocksOf trace.final.blocks id).filter fun b => kind b.kind)) := by
  have hperm := ((trace.blocksNamed_perm id).filter fun b : ScheduleBlock => kind b.kind).map
    ScheduleBlock.interval
  rw [filter_map, filter_map, map_map, map_map] at hperm
  exact hperm

lemma reportedMinutes_eq (id : ItemId) : plan.reportedMinutes (trace.identity id) =
    ((reportsOf trace.final.unscheduled id).map fun w => w.remaining.toNat).sum := by
  have hsum := ((trace.reportsNamed_perm id).map fun w => w.remaining.toNat).sum_nat
  rw [map_map] at hsum
  refine hsum.trans (congrArg List.sum (map_congr_left fun w _ => ?_))
  rw [Function.comp_apply, remapWork_remaining]

end PlanTrace

/-- **Split policies**: the sessions that are planned for splittable work keep its policy and, with
what is reported, add up to the work that retained time does not cover, exactly if the item is not
turned away early or nothing of it is retained. -/
theorem splitPolicy_kept_iff (trace : PlanTrace env request execution lifecycle plan)
    {item : WorkItem} (h : Planner.Demands trace.prepared.request item)
    {duration : DurationEstimate} (hdur : item.duration = some duration)
    {minimumSession maximumSession : Minutes} {maximumSessions : UInt16} {minimumGap : Minutes}
    {maximumDays : Option UInt16}
    (hpol : item.splitPolicy =
      .splittable minimumSession maximumSession maximumSessions minimumGap maximumDays)
    (hwork : 0 < duration.planningMinutes.toNat - trace.retainedMinutes item) :
    (KeepsPolicy minimumSession maximumSession maximumSessions minimumGap maximumDays
        (trace.start.liveSessions item.id)
        (duration.planningMinutes.toNat - trace.retainedMinutes item)
        (plan.retainedSpans (trace.identity item.id)) (plan.plannedSpans (trace.identity item.id)) ∧
      (((plan.plannedSpans (trace.identity item.id)).map fun a => (Span.minutes a).toNat).sum : ℤ) =
        (duration.planningMinutes.toNat - trace.retainedMinutes item : ℕ) -
          (plan.reportedMinutes (trace.identity item.id) : ℤ)) ↔
    ¬ Planner.ExitsEarly env trace.prepared.request trace.start item ∨
      trace.retainedMinutes item = 0 := by
  have hpln := trace.spansNamed_perm item.id fun kind => kind = .planned
  have hret := trace.spansNamed_perm item.id fun kind => ¬ kind = .planned
  rw [trace.reportedMinutes_eq]
  by_cases hear : Planner.ExitsEarly env trace.prepared.request trace.start item
  · -- turned away, the item is reported in full, whatever is retained
    obtain ⟨hnone, w, hreps, hfull⟩ := trace.turnedAway h hdur hear
    rw [hnone] at hpln
    have hnone : plan.plannedSpans (trace.identity item.id) = [] := hpln.eq_nil
    rw [hnone, hreps, map_singleton, sum_singleton, hfull]
    simp only [hear, not_true_eq_false, false_or, map_nil, sum_nil]
    exact ⟨fun hkeeps => by omega, fun hzero => ⟨.nil _, by omega⟩⟩
  · obtain ⟨new, left, hbl, hown, hbalance, hreport⟩ := trace.balanced h hdur hear
    obtain ⟨new', hblocks', hkeeps⟩ := Planner.place_keepsPolicy trace.valid h hear hdur hpol
    obtain rfl := append_cancel_left (hblocks'.symm.trans hbl)
    rw [trace.toNat_uncovered] at hkeeps
    have hleft : ((reportsOf trace.final.unscheduled item.id).map
        fun w => w.remaining.toNat).sum = left.toNat := by
      rcases hreport with ⟨rfl, hreps⟩ | ⟨-, reason, message, hreps⟩ <;> rw [hreps]
      · rfl
      · simp
    -- what was there before is retained, and what was added is planned
    have hkept : (blocksOf trace.start.blocks item.id).filter (fun b => ¬ b.kind = .planned) =
        blocksOf trace.start.blocks item.id := filter_eq_self.mpr fun b hb =>
      decide_eq_true (trace.onlyRetained.kind b (mem_filter.mp hb).1)
    have hnew := filter_eq_self.mpr fun b hb => decide_eq_true (hown b hb).2.2
    have hnone : new'.filter (fun b => ¬ b.kind = .planned) = [] :=
      filter_eq_nil_iff.mpr fun b hb => by simp [(hown b hb).2.2]
    rw [hbl, filter_append] at hpln hret
    rw [Planner.planned_start trace.onlyRetained, hnew, nil_append] at hpln
    rw [hkept, hnone, append_nil] at hret
    have hmins : ((plan.plannedSpans (trace.identity item.id)).map
        fun a => (Span.minutes a).toNat).sum = blockMinutes new' := by
      refine (hpln.map fun a => (Span.minutes a).toNat).sum_nat.trans ?_
      rw [map_map]
      rfl
    refine iff_of_true ⟨hkeeps.perm hret.symm hpln.symm, ?_⟩ (.inl hear)
    omega

end

namespace Sample

/-- An hour of work in sessions that has to wait for blocked work. -/
def waitingHour : WorkItem := inSessions { waitingTask with duration := some (.exact 60) }

def waitingRequest : PlanRequest :=
  { Sample.request [blockedTask, waitingHour] with
    previousAssignments := pinnedRequest.previousAssignments }

end Sample

/-- Work that waits for blocked work is reported in full, although half of it is pinned. -/
theorem splitPolicy_broken_waitingHour : ∃ plan, Sample.plan waitingRequest = .ok plan ∧
    ∃ trace : PlanTrace externals waitingRequest {} {} plan,
      Planner.Demands trace.prepared.request waitingHour ∧ trace.retainedMinutes waitingHour = 30 ∧
        (((plan.plannedSpans (trace.identity waitingHour.id)).map
          fun a => (Span.minutes a).toNat).sum : ℤ) ≠
            (60 - 30 : ℕ) - (plan.reportedMinutes (trace.identity waitingHour.id) : ℤ) := by
  obtain ⟨plan, hplan, trace, hits, hret, hsum⟩ := exists_trace waitingRequest
    (fun prepared start plan => prepared.request.items = [blockedTask, waitingHour] ∧
      (start.pinnedMinutes.getD waitingHour.id 0).toNat +
        (start.executionReservedMinutes.getD waitingHour.id 0).toNat = 30 ∧
      (((plan.plannedSpans (publicIdentity prepared.identities waitingHour.id)).map
        fun a => (Span.minutes a).toNat).sum : ℤ) ≠ (60 - 30 : ℕ) -
          (plan.reportedMinutes (publicIdentity prepared.identities waitingHour.id) : ℤ))
    (by decide +kernel)
  exact ⟨plan, hplan, trace, ⟨by rw [hits]; simp, by decide, by decide,
    by rw [hits]; decide +kernel⟩, hret, hsum⟩

/-- An hour of work in two sessions. -/
theorem splitPolicy_kept_inSessions : ∃ plan,
    Sample.plan (Sample.request [inSessions (task 1 60)]) = .ok plan ∧ ∃ trace : PlanTrace externals
          (Sample.request [inSessions (task 1 60)]) {} {} plan,
        (plan.plannedSpans (trace.identity (task 1 60).id)).length = 2 ∧
          KeepsPolicy 20 30 3 10 none (trace.start.liveSessions (task 1 60).id) 60
            (plan.retainedSpans (trace.identity (task 1 60).id))
            (plan.plannedSpans (trace.identity (task 1 60).id)) := by
  obtain ⟨plan, hplan, trace, hits, hzero, htwo⟩ := exists_trace
    (Sample.request [inSessions (task 1 60)])
    (fun prepared start plan => prepared.request.items = [inSessions (task 1 60)] ∧
      (start.pinnedMinutes.getD (task 1 60).id 0).toNat +
        (start.executionReservedMinutes.getD (task 1 60).id 0).toNat = 0 ∧
      (plan.plannedSpans (publicIdentity prepared.identities (task 1 60).id)).length = 2)
    (by decide +kernel)
  have hzero : trace.retainedMinutes (inSessions (task 1 60)) = 0 := hzero
  have hdemands : Planner.Demands trace.prepared.request (inSessions (task 1 60)) :=
    ⟨by rw [hits]; exact mem_singleton_self _, by decide, by decide, by rw [hits]; decide +kernel⟩
  have hkeeps := ((splitPolicy_kept_iff trace hdemands rfl rfl
    (by rw [hzero]; decide)).mpr (.inr hzero)).1
  rw [hzero] at hkeeps
  exact ⟨plan, hplan, trace, htwo, hkeeps⟩

end DayWeave
