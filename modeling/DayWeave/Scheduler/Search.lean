import DayWeave.Scheduler.Place

/-!
The search for a slot is complete.

With whole seconds the slots that `bestCandidate` tries are exactly the stretches of the asked
length that start on the grid, lie in a window and in the part of the horizon that is not past,
meet nothing busy and do not start too early (`mem_candidateSlots_iff`). So the search finds a
candidate whenever there is one, and the one it takes comes before all others
(`bestCandidate_exact`).

The rules of an item read local dates, so offsets matter: the slots of a free segment have the
offset of its start, or that of the earliest start of the session if it is later.
-/

open Std

namespace DayWeave

open OffsetDateTime (exists_checkedAdd_of_le ext le_def lt_def nanos_later ofNanos_eq_some offset
  since)

section

variable {step duration : Minutes} {earliest : Option OffsetDateTime} {t u : OffsetDateTime}
  {limit start : OffsetDateTime} {slot : Span}

/-- Of two grid instants less than a step apart the one is not after the other. -/
lemma le_of_onGrid (hg : step ≠ 0) (ht : OnGrid step t) (hu : OnGrid step u)
    (hlt : t.nanos < u.nanos + step.toDuration) : t.nanos ≤ u.nanos := by
  obtain ⟨a, ha⟩ := Int.dvd_of_emod_eq_zero ht
  obtain ⟨b, hb⟩ := Int.dvd_of_emod_eq_zero hu
  have hpos := Minutes.toDuration_pos hg
  rw [ha, hb] at hlt ⊢
  have hab : a < b + 1 := by
    refine Int.lt_of_mul_lt_mul_left ?_ hpos.le
    rwa [Int.mul_add, Int.mul_one]
  exact Int.mul_le_mul_of_nonneg_left (by omega) hpos.le

lemma second_dvd_toDuration (step : Minutes) : (Duration.second : Int) ∣ step.toDuration := by
  refine Dvd.intro (step.toNat * 60 : Int) ?_
  change (1000000000 : Int) * (step.toNat * 60) = step.toNat * 60000000000
  omega

lemma OnGrid.wholeSecond (h : OnGrid step t) : WholeSecond t :=
  Int.emod_eq_zero_of_dvd ((second_dvd_toDuration _).trans (Int.dvd_of_emod_eq_zero h))

lemma onGrid_of_alignUp {value : OffsetDateTime} (hg : step ≠ 0) (h : alignUp value step = some t)
    (hwh : WholeSecond value) : OnGrid step t :=
  (alignUp_spec hg h).2.2.2.trans hwh

lemma wholeSecond_later (ht : WholeSecond t) (hu : WholeSecond u) : WholeSecond (later t u) := by
  unfold later
  split <;> assumption

/-- The first slot start is on the grid, and no grid instant that would do is before it. -/
lemma firstSlotStart_spec (hg : step ≠ 0) (hst : WholeSecond start)
    (hearl : ∀ e ∈ earliest, WholeSecond e) (h : firstSlotStart step earliest start = some t) :
    OnGrid step t ∧ ∀ u, OnGrid step u → start ≤ u → (∀ e ∈ earliest, e ≤ u) →
      t.nanos ≤ u.nanos := by
  obtain ⟨aligned, halign, h⟩ := Option.bind_eq_some_iff.mp h
  have hgrid := onGrid_of_alignUp hg halign hst
  have hleast : ∀ u, OnGrid step u → start ≤ u → aligned.nanos ≤ u.nanos := by
    intro u hu hle
    refine le_of_onGrid hg hgrid hu ?_
    have hlt := (alignUp_spec hg halign).2.2.1
    rw [le_def] at hle
    omega
  cases earliest with
  | none =>
    cases h
    exact ⟨hgrid, fun u hu hle _ => hleast u hu hle⟩
  | some e =>
    have hlat := wholeSecond_later hgrid.wholeSecond (hearl e rfl)
    refine ⟨onGrid_of_alignUp hg h hlat, fun u hu hle hbound => ?_⟩
    refine le_of_onGrid hg (onGrid_of_alignUp hg h hlat) hu ?_
    have hlt := (alignUp_spec hg h).2.2.1
    have halign := hleast u hu hle
    have he := le_def.mp (hbound e rfl)
    rw [nanos_later] at hlt
    omega

lemma mem_slotsFrom {k rounds : ℕ} (hk : k < rounds) (hoff : slot.start.offset = start.offset)
    (hst : slot.start.nanos = start.nanos + step.toDuration * k)
    (hadd : slot.start.checkedAdd duration.toDuration = some slot.finish)
    (hlim : slot.finish ≤ limit) : slot ∈ slotsFrom step duration limit rounds start := by
  obtain ⟨hfin, hfinishOffset⟩ := ofNanos_eq_some hadd
  have hstep := Minutes.toDuration_nonneg step
  induction k generalizing start rounds with
  | zero =>
    obtain ⟨rounds, rfl⟩ := Nat.exists_eq_add_of_lt hk
    obtain rfl := ext (by simpa using hst.symm) hoff.symm
    rw [Nat.zero_add, slotsFrom, hadd]
    dsimp only
    rw [if_neg fun hlt => lt_irrefl _ (hlim.trans_lt hlt)]
    exact List.mem_cons_self ..
  | succ k ih =>
    obtain ⟨rounds, rfl⟩ := Nat.exists_eq_add_of_lt hk
    rw [Nat.cast_succ, Int.mul_add, Int.mul_one] at hst
    have hpart : (0 : Int) ≤ step.toDuration * k := Int.mul_nonneg hstep (by omega)
    obtain ⟨finish, hend, -⟩ := exists_checkedAdd_of_le
      (Minutes.toDuration_nonneg duration) (by omega) (hfinishOffset.trans hoff)
    obtain ⟨next, hnext, -⟩ := exists_checkedAdd_of_le hstep
      (by omega) hoff
    obtain ⟨hendNanos, -⟩ := ofNanos_eq_some hend
    obtain ⟨hnextNanos, hnextOffset⟩ := ofNanos_eq_some hnext
    rw [slotsFrom, hend]
    dsimp only
    rw [le_def] at hlim
    rw [if_neg (by rw [lt_def]; omega), hnext]
    exact List.mem_cons_of_mem _ (ih (by omega) (hoff.trans hnextOffset.symm) (by omega))

/-- The slots of a free segment are those on the grid. -/
lemma mem_slotsIn (hg : step ≠ 0) {free : Span} (hfree : WholeSecond free.start)
    (hearl : ∀ e ∈ earliest, WholeSecond e) (hin : free.Contains slot)
    (hgrid : OnGrid step slot.start) (hnotBefore : ∀ e ∈ earliest, e ≤ slot.start)
    (hadd : slot.start.checkedAdd duration.toDuration = some slot.finish)
    (hoff : (firstSlotStart step earliest free.start).map offset = some slot.start.offset) :
    slot ∈ slotsIn step duration earliest free := by
  obtain ⟨t, ht, htOffset⟩ := Option.map_eq_some_iff.mp hoff
  obtain ⟨htGrid, hleast⟩ := firstSlotStart_spec hg hfree hearl ht
  have hle := hleast slot.start hgrid hin.1 hnotBefore
  obtain ⟨a, ha⟩ := Int.dvd_of_emod_eq_zero htGrid
  obtain ⟨b, hb⟩ := Int.dvd_of_emod_eq_zero hgrid
  have hpos := Minutes.toDuration_pos hg
  have hab : a ≤ b := Int.le_of_mul_le_mul_left (ha ▸ hb ▸ hle) hpos
  obtain ⟨k, hk⟩ := Int.eq_ofNat_of_zero_le (Int.sub_nonneg_of_le hab)
  have hsteps : slot.start.nanos = t.nanos + step.toDuration * k := by
    rw [← hk, Int.mul_sub, ← ha, ← hb]
    omega
  unfold slotsIn
  rw [ht]
  refine mem_slotsFrom ?_ htOffset.symm hsteps hadd hin.2
  have hfin := OffsetDateTime.nanos_of_checkedAdd hadd
  have hdur := Minutes.toDuration_nonneg duration
  have hrounds : (k : Int) ≤ free.finish.since t / step.toDuration := by
    refine (Int.le_ediv_iff_mul_le hpos).mpr ?_
    have hend := le_def.mp hin.2
    rw [since, Int.mul_comm]
    omega
  unfold slotRounds
  omega

/-- The slots of a free segment have the offset of the first one, and its place on the grid. -/
lemma slotsIn_start {free : Span} (h : slot ∈ slotsIn step duration earliest free) :
    ∃ t, firstSlotStart step earliest free.start = some t ∧ slot.start.offset = t.offset ∧
      slot.start.nanos % step.toDuration = t.nanos % step.toDuration := by
  unfold slotsIn at h
  split at h
  · cases h
  · rename_i t ht
    exact ⟨t, ht, (slotsFrom_spec h).2.2.2⟩

end

namespace PlanningState

variable {state : PlanningState} {request : PlanRequest} {item : WorkItem}
  {dependencies : List Dependency} {items : WorkMap} {search : SessionSearch}
  {window : AvailabilityWindow} {duration : Minutes} {earliest : Option OffsetDateTime}
  {slot a : Span}

/-- The instants from which slots are counted have no fraction of a second. -/
structure WholeSeconds (state : PlanningState) (request : PlanRequest)
    (earliest : Option OffsetDateTime) : Prop where
  horizonStart : WholeSecond request.horizonStart
  asOf : WholeSecond request.asOf
  availability : ∀ w ∈ request.availability, WholeSecond w.start
  busy : ∀ b ∈ state.busy, WholeSecond b.interval.finish
  earliest : ∀ e ∈ earliest, WholeSecond e

/-- A stretch is a slot for a session: it has the asked length, starts on the grid and not before
the session may, lies in a window and in the part of the horizon that is not past, and meets
nothing busy; it is written at the offset of its free time. -/
structure IsSlot (state : PlanningState) (request : PlanRequest) (duration : Minutes)
    (earliest : Option OffsetDateTime) (window : AvailabilityWindow) (slot : Span) : Prop where
  available : window ∈ request.availability
  inside : window.interval.Contains slot
  horizon : (planningHorizon request).Contains slot
  length : slot.start.checkedAdd duration.toDuration = some slot.finish
  onGrid : OnGrid request.config.slotGranularity slot.start
  notBefore : ∀ e ∈ earliest, e ≤ slot.start
  free : ∀ b ∈ state.busy, ¬ b.interval.Meets slot
  written : ∀ segment ∈ state.freeTime request window, segment.Contains slot →
    (firstSlotStart request.config.slotGranularity earliest segment.start).map offset =
      some slot.start.offset

lemma WholeSeconds.freeTime (h : WholeSeconds state request earliest)
    (hwin : window ∈ request.availability) {free : Span}
    (hfree : free ∈ state.freeTime request window) : WholeSecond free.start := by
  obtain ⟨available, hav, hfree⟩ := mem_freeTime.mp hfree
  rcases start_of_mem_freeSegments hfree with hst | ⟨interval, hint, hst⟩
  · rw [hst, (HalfOpen.clipped_eq_some hav).1]
    exact wholeSecond_later (h.availability window hwin) (wholeSecond_later h.horizonStart h.asOf)
  · obtain ⟨b, hb, rfl⟩ := List.mem_map.mp hint
    exact hst ▸ h.busy b hb

lemma freeTime_unique {g g' : Span} (ha : a.start < a.finish)
    (hg : g ∈ state.freeTime request window) (hg' : g' ∈ state.freeTime request window)
    (hga : g.Contains a) (hga' : g'.Contains a) : g = g' := by
  obtain ⟨available, hav, hg⟩ := mem_freeTime.mp hg
  obtain ⟨available', havailable', hg'⟩ := mem_freeTime.mp hg'
  cases hav.symm.trans havailable'
  exact freeSegment_unique ha hg hg' hga hga'

/-- A stretch of a window and of the horizon that meets nothing busy lies in free time. -/
lemma exists_freeTime (ha : a.start < a.finish) (hinside : window.interval.Contains a)
    (hhor : (planningHorizon request).Contains a) (hbusy : ∀ b ∈ state.busy, ¬ b.interval.Meets a) :
    ∃ free ∈ state.freeTime request window, free.Contains a := by
  obtain ⟨available, hav, hcont⟩ : ∃ available,
      window.interval.clipped (planningHorizon request) = some available ∧
        available.Contains a := by
    have hst : later window.interval.start (planningHorizon request).start ≤ a.start := by
      unfold later
      split
      · exact hinside.1
      · exact hhor.1
    have hfin : a.finish ≤ earlier window.interval.finish (planningHorizon request).finish := by
      unfold earlier
      split
      · exact hhor.2
      · exact hinside.2
    exact ⟨_, if_pos (hst.trans_lt (ha.trans_le hfin)), hst, hfin⟩
  obtain ⟨free, hfree, hin⟩ := exists_freeSegment ha hcont (List.forall_mem_map.mpr hbusy)
  exact ⟨free, mem_freeTime.mpr ⟨available, hav, hfree⟩, hin⟩

/-- **The slots of a search** are the slots there are. -/
theorem mem_candidateSlots_iff (hg : request.config.slotGranularity ≠ 0) (hdur : duration ≠ 0)
    (hwh : WholeSeconds state request earliest) :
    (window, slot) ∈ state.candidateSlots request duration earliest ↔
      IsSlot state request duration earliest window slot := by
  constructor
  · intro h
    obtain ⟨hwin, hinside, hhor, hadd, hearl, hfree⟩ := candidateSlots_spec hg h
    obtain ⟨-, free, hmem, hslot⟩ := mem_candidateSlots.mp h
    obtain ⟨t, ht, hoff, hmod⟩ := slotsIn_start hslot
    have hlt := start_lt_finish_of_checkedAdd hdur hadd
    refine ⟨hwin, hinside, hhor, hadd, ?_, hearl, fun b hb hmt => ?_,
      fun segment hsegment hcont => ?_⟩
    · exact hmod.trans (firstSlotStart_spec hg (hwh.freeTime hwin hmem) hwh.earliest ht).1
    · obtain ⟨u, ⟨hbs, hbf⟩, hss, hsf⟩ := hmt
      exact hfree b hb (hbs.trans_lt hbf) ⟨hbs.trans_lt hsf, hss.trans_lt hbf⟩
    · rw [freeTime_unique hlt hsegment hmem hcont (slotsIn_spec hg hslot).1, ht, Option.map_some,
        hoff]
  · intro h
    obtain ⟨free, hmem, hcont⟩ := exists_freeTime
      (start_lt_finish_of_checkedAdd hdur h.length) h.inside h.horizon h.free
    exact mem_candidateSlots.mpr ⟨h.available, free, hmem,
      mem_slotsIn hg (hwh.freeTime h.available hmem) hwh.earliest hcont h.onGrid h.notBefore
        h.length (h.written free hmem hcont)⟩

instance : TransCmp Candidate.order :=
  inferInstanceAs (TransCmp (compareLex (compareOn Candidate.penalty)
    (compareLex (compareOn fun c => c.interval.start) (compareOn fun c => c.interval.finish))))

/-- The candidate is that of a slot on an allowed day that no hard rule of the item refuses. -/
structure IsCandidate (state : PlanningState) (request : PlanRequest) (item : WorkItem)
    (dependencies : List Dependency) (items : WorkMap) (search : SessionSearch)
    (window : AvailabilityWindow) (candidate : Candidate) : Prop where
  slot : IsSlot state request search.duration search.earliest window candidate.interval
  day : search.dayAllowed candidate.interval
  passes : state.evaluateCandidate request item dependencies items window candidate.interval
    search.finishesItem search.sessionIndex = some candidate

lemma mem_candidates (hg : request.config.slotGranularity ≠ 0) (hdur : search.duration ≠ 0)
    (hwh : WholeSeconds state request search.earliest) {candidate : Candidate} :
    candidate ∈ state.candidates request item dependencies items search ↔
      ∃ window, IsCandidate state request item dependencies items search window candidate := by
  rw [candidates, List.mem_filterMap]
  constructor
  · rintro ⟨⟨window, slot⟩, hslot, h⟩
    obtain ⟨hday, heval⟩ := Option.ite_none_right_eq_some.mp h
    obtain rfl : candidate.interval = slot := by
      obtain ⟨tally, -, rfl⟩ := Option.map_eq_some_iff.mp heval
      rfl
    exact ⟨window, (mem_candidateSlots_iff hg hdur hwh).mp hslot, hday, heval⟩
  · rintro ⟨window, hslot, hday, heval⟩
    exact ⟨(window, candidate.interval), (mem_candidateSlots_iff hg hdur hwh).mpr hslot,
      Option.ite_none_right_eq_some.mpr ⟨hday, heval⟩⟩

/-- **The search is complete and takes the best**: it finds a candidate if and only if there is
one, and the candidate it takes comes before all others by penalty, start and end. -/
theorem bestCandidate_exact (hg : request.config.slotGranularity ≠ 0)
    (hdur : search.duration ≠ 0) (hwh : WholeSeconds state request search.earliest) :
    ((state.bestCandidate request item dependencies items search).isSome ↔ ∃ window candidate,
      IsCandidate state request item dependencies items search window candidate) ∧
    ∀ best, state.bestCandidate request item dependencies items search = some best →
      (∃ window, IsCandidate state request item dependencies items search window best) ∧
      ∀ window other, IsCandidate state request item dependencies items search window other →
        (Candidate.order best other).isLE := by
  constructor
  · rw [Option.isSome_iff_ne_none, ne_eq, bestCandidate, leastBy_eq_none,
      List.eq_nil_iff_forall_not_mem, not_forall_not, exists_comm]
    exact exists_congr fun candidate => mem_candidates hg hdur hwh
  · intro best hbest
    refine ⟨(mem_candidates hg hdur hwh).mp (leastBy_mem _ hbest), ?_⟩
    intro window other hoth
    exact leastBy_isLE _ hbest ((mem_candidates hg hdur hwh).mpr ⟨window, hoth⟩)

/-- The search for half an hour beside a meeting finds a slot, and the best one starts when the
meeting ends. -/
theorem bestCandidate_exact_busy :
    ∃ window slot, slot.start = Sample.meeting.finish ∧
      IsSlot (addExternalFixedBlocks {} (Sample.busyRequest [Sample.task 1 30]))
        (Sample.busyRequest [Sample.task 1 30]) 30 none window slot := by
  have hexact := @bestCandidate_exact
    (addExternalFixedBlocks {} (Sample.busyRequest [Sample.task 1 30]))
    (Sample.busyRequest [Sample.task 1 30]) (Sample.task 1 30) [] ∅ ⟨30, true, 0, none, ∅, none⟩
    (by decide) (by decide) ⟨by decide, by decide, by decide, by decide +kernel, by decide⟩
  obtain ⟨best, hbest, hstart⟩ : ∃ best,
      bestCandidate (addExternalFixedBlocks {} (Sample.busyRequest [Sample.task 1 30]))
        (Sample.busyRequest [Sample.task 1 30]) (Sample.task 1 30) [] ∅
        ⟨30, true, 0, none, ∅, none⟩ = some best ∧
      best.interval.start = Sample.meeting.finish := by decide +kernel
  obtain ⟨window, h⟩ := (hexact.2 best hbest).1
  exact ⟨window, best.interval, hstart, h.slot⟩

end PlanningState

end DayWeave
