import DayWeave.Scheduler.Output

/-!
The arithmetic of stretches of time: lengths and overlaps in whole minutes, the scheduling grid,
buffers around a placement, and the stretches of availability that existing blocks leave free.

The busy intervals are clipped to the window, sorted and merged, and what is left between them is
free (`freeSegments_spec`); all free time is found (`exists_freeSegment`, `freeSegments_exact`).
-/

open Std

namespace DayWeave

open HalfOpen (clipped_contains clipped_eq_some finish gaps lt_of_mem_merge merge start)
open OffsetDateTime (lt_def nanos_earlier nanos_later nanosecond since)
open Duration (minute second wholeMinutes)

/-- The whole minutes of a duration, zero if it is negative. -/
def positiveMinutes (d : Duration) : UInt32 := UInt32.clamp d.wholeMinutes.toNat

/-- The minutes of a duration, rounded up, zero if it is negative. -/
def ceilDurationMinutes (d : Duration) : UInt32 :=
  UInt32.clamp ((max d 0 + (minute - 1)) / minute).toNat

/-- The whole minutes of a stretch. -/
def Span.minutes (s : Span) : UInt32 := positiveMinutes (s.finish.since s.start)

/-- The whole minutes two stretches share. -/
def overlapMinutes (left right : Span) : UInt32 :=
  if left.Overlaps right then
    Span.minutes ⟨later left.start right.start, earlier left.finish right.finish⟩
  else 0

/-- The nanoseconds two stretches share; not positive if they share none. -/
def sharedTime (left right : Span) : Int :=
  min left.finish.nanos right.finish.nanos - max left.start.nanos right.start.nanos

lemma positiveMinutes_eq_zero {d : Int} : positiveMinutes d = 0 ↔ d < 60000000000 := by
  rw [← UInt32.toNat_inj, positiveMinutes, UInt32.toNat_clamp, UInt32.toNat_zero]
  have hnn : 0 ≤ d → wholeMinutes d = d / 60000000000 := fun h =>
    Int.tdiv_eq_ediv_of_nonneg h
  have hneg : d < 0 → wholeMinutes d ≤ 0 := fun h => by
    have hflip : wholeMinutes d = -Int.tdiv (-d) 60000000000 := by
      rw [Int.neg_tdiv, Int.neg_neg]
      rfl
    have := Int.tdiv_nonneg (a := -d) (b := 60000000000) (by omega) (by decide)
    omega
  omega

/-- The shared minutes are those of the shared time, rounded down. -/
lemma overlapMinutes_eq_zero {left right : Span} :
    overlapMinutes left right = 0 ↔ sharedTime left right < 60000000000 := by
  unfold overlapMinutes sharedTime
  split
  · rw [Span.minutes, since, nanos_later, nanos_earlier]
    exact positiveMinutes_eq_zero
  · rename_i h
    rw [HalfOpen.Overlaps, lt_def, lt_def] at h
    refine iff_of_true rfl ?_
    omega

/-- The stretch with the buffers before and after it. -/
def checkedBufferedInterval (s : Span) (before after : Minutes) : Option Span :=
  (s.start.checkedSub before.toDuration).bind fun start =>
    (s.finish.checkedAdd after.toDuration).map fun finish => ⟨start, finish⟩

/-- The first instant of the grid that is not before `value`, up to the fraction
of a second that `value` carries. -/
def alignUp (value : OffsetDateTime) (granularity : Minutes) : Option OffsetDateTime :=
  let step : Int := granularity.toNat * 60
  let remainder := value.unixTimestamp % step
  if remainder = 0 then some value else value.checkedAdd ((step - remainder) * second)

/-- The Monday of the local week of an instant. -/
def mondayOf (value : OffsetDateTime) : Date :=
  (value.date.checkedAddDays (-value.weekday.numberDaysFromMonday)).getD
    ⟨-4371587, Int.le_refl _, Date.min_le_max⟩

/-- The instant is a whole number of grid steps after 1970. -/
def OnGrid (granularity : Minutes) (t : OffsetDateTime) : Prop :=
  t.nanos % granularity.toDuration = 0

instance (granularity : Minutes) : DecidablePred (OnGrid granularity) :=
  fun t => inferInstanceAs (Decidable (t.nanos % granularity.toDuration = 0))

/-- The instant has no fraction of a second. -/
def WholeSecond (t : OffsetDateTime) : Prop := t.nanosecond = 0

instance : DecidablePred WholeSecond := fun t => inferInstanceAs (Decidable (t.nanosecond = 0))

section

variable {value t : OffsetDateTime} {granularity : Minutes}

/-- **Alignment**: less than one step later, at the same offset, with the same fraction of a
second after a whole number of steps. -/
lemma alignUp_spec (hg : granularity ≠ 0) (h : alignUp value granularity = some t) :
    t.offset = value.offset ∧ value.nanos ≤ t.nanos ∧
      t.nanos < value.nanos + granularity.toDuration ∧
      t.nanos % granularity.toDuration = value.nanosecond := by
  have hpos := Minutes.toDuration_pos hg
  have hstep : granularity.toDuration = second * (granularity.toNat * 60) := by
    change (granularity.toNat : Int) * 60000000000 = 1000000000 * (granularity.toNat * 60)
    omega
  have hrng : (0 : Int) < granularity.toNat * 60 := by
    have := Minutes.toNat_pos hg
    omega
  have hfrac : 0 ≤ value.nanosecond ∧ value.nanosecond < second := by
    unfold nanosecond second
    omega
  have hns : second * value.unixTimestamp + value.nanosecond = value.nanos :=
    Int.mul_ediv_add_emod _ _
  unfold alignUp at h
  dsimp only at h
  rw [hstep] at hpos ⊢
  generalize (granularity.toNat * 60 : Int) = step at *
  have hdiv := Int.mul_ediv_add_emod value.unixTimestamp step
  have hlt := Int.emod_lt_of_pos value.unixTimestamp hrng
  have hge := Int.emod_nonneg value.unixTimestamp hrng.ne'
  generalize value.unixTimestamp % step = remainder at *
  generalize value.unixTimestamp / step = quotient at *
  -- with whole steps and the fraction apart, what is left is linear
  have hmod (q : Int) (ht : t.nanos = second * (step * q) + value.nanosecond) :
      t.nanos % (second * step) = value.nanosecond := by
    rw [ht, ← Int.mul_assoc, Int.mul_add_emod_self_left, Int.emod_eq_of_lt hfrac.1]
    unfold second at *
    omega
  split at h
  · cases h
    refine ⟨rfl, le_rfl, by omega, hmod quotient ?_⟩
    rw [← hns]
    congr 2
    omega
  · obtain ⟨ht, hoff⟩ := OffsetDateTime.ofNanos_eq_some h
    have hnext : step * (quotient + 1) = step * quotient + step := by
      rw [Int.mul_add, Int.mul_one]
    refine ⟨hoff, ?_, ?_, hmod (quotient + 1) ?_⟩ <;>
    · unfold second at *
      omega

lemma le_of_alignUp (h : alignUp value granularity = some t) (hg : granularity ≠ 0) : value ≤ t :=
  OffsetDateTime.le_def.mpr (alignUp_spec hg h).2.1

end

/-- The stretches of `available` that the busy intervals leave free. -/
def freeSegments (available : Span) (busy : List Span) : List Span :=
  let intersections := busy.filterMap fun b => b.clipped available
  let sorted := sortBy (compareLex (compareOn start) (compareOn finish)) intersections
  gaps available.start available.finish (merge sorted)

lemma sortedByStart_sortBy (l : List Span) :
    HalfOpen.SortedByStart (sortBy (compareLex (compareOn start) (compareOn finish)) l) := by
  refine (pairwise_sortBy _ l).imp fun {a b} h => ?_
  have hle := Ordering.isLE_left_of_isLE_then h
  exact Int.isLE_compare.mp hle

section

variable {available a c g m : Span} {busy : List Span} {t : OffsetDateTime}

/-- The busy parts of a window, sorted. -/
abbrev busyParts (available : Span) (busy : List Span) : List Span :=
  sortBy (compareLex (compareOn start) (compareOn finish))
    (busy.filterMap fun b => b.clipped available)

lemma mem_busyParts : c ∈ busyParts available busy ↔ ∃ b ∈ busy, b.clipped available = some c := by
  rw [mem_sortBy, List.mem_filterMap]

lemma lt_of_mem_mergedParts (hm : m ∈ merge (busyParts available busy)) : m.start < m.finish := by
  refine lt_of_mem_merge (fun i hi => ?_) hm
  obtain ⟨b, -, hb⟩ := mem_busyParts.mp hi
  exact (clipped_eq_some hb).2

lemma exists_busy_of_mem_mergedParts (hm : m ∈ merge (busyParts available busy))
    (ht : m.start ≤ t ∧ t < m.finish) : ∃ b ∈ busy, b.start ≤ t ∧ t < b.finish := by
  obtain ⟨c, hc, htc⟩ := HalfOpen.exists_mem_of_mem_merge hm ht
  obtain ⟨b, hb, hclip⟩ := mem_busyParts.mp hc
  obtain ⟨hcont, -⟩ := clipped_contains hclip
  exact ⟨b, hb, hcont.1.trans htc.1, htc.2.trans_le hcont.2⟩

/-- **Free segments are free**: a free segment is not empty, lies in the window,
and meets no non-empty busy interval. -/
theorem freeSegments_spec (hg : g ∈ freeSegments available busy) :
    g.start < g.finish ∧ available.Contains g ∧
      ∀ b ∈ busy, b.start < b.finish → ¬ b.Overlaps g := by
  have hs : HalfOpen.SortedByStart (busyParts available busy) := sortedByStart_sortBy _
  have hin : ∀ m ∈ merge (busyParts available busy), m.start ≤ available.finish := by
    intro m hmem
    obtain ⟨i, hi, hst⟩ := (HalfOpen.exists_ends_of_mem_merge hmem).1
    obtain ⟨b, -, hb⟩ := mem_busyParts.mp hi
    exact hst ▸ (clipped_eq_some hb).2.le.trans (clipped_contains hb).2.2
  obtain ⟨hne, hfin⟩ := HalfOpen.gaps_bounds hin hg
  have hwin : available.Contains g := ⟨HalfOpen.le_start_of_mem_gaps hg, hfin⟩
  refine ⟨hne, hwin, fun b hb hbne hov => ?_⟩
  -- an overlap would already show in the part of `b` inside the window
  obtain ⟨c, hc, hcg⟩ := HalfOpen.exists_clipped_of_overlaps hov hwin hne hbne
  obtain ⟨m, hmem, hcov⟩ := HalfOpen.merge_covers hs (mem_busyParts.mpr ⟨b, hb, hc⟩)
  exact HalfOpen.not_overlaps_of_mem_gaps (HalfOpen.sortedByStart_merge hs) hg hmem
    ((HalfOpen.overlaps_comm.mp hcg).mono hcov)

/-- **All free time is found**: a part of the window that meets nothing busy lies in a free
segment. -/
theorem exists_freeSegment (ha : a.start < a.finish) (hin : available.Contains a)
    (hfree : ∀ b ∈ busy, ¬ b.Meets a) : ∃ g ∈ freeSegments available busy, g.Contains a := by
  refine HalfOpen.exists_gap_contains ha hin.1 hin.2 fun m hm hov => ?_
  obtain ⟨b, hb, htb⟩ := exists_busy_of_mem_mergedParts hm
    ⟨le_later_left m.start a.start, later_lt (lt_of_mem_mergedParts hm) hov.2⟩
  exact hfree b hb ⟨later m.start a.start, htb, le_later_right _ _, later_lt hov.1 ha⟩

lemma pairwise_freeSegments :
    (freeSegments available busy).Pairwise fun x y => x.finish < y.start :=
  HalfOpen.pairwise_gaps fun _ hm => lt_of_mem_mergedParts hm

/-- **Free time is exact**: the free segments follow each other with busy time in between, none
is empty, and an instant lies in one of them exactly if it lies in the window and in no busy
interval. -/
theorem freeSegments_exact (available : Span) (busy : List Span) :
    ((freeSegments available busy).Pairwise fun x y => x.finish < y.start) ∧
      (∀ g ∈ freeSegments available busy, g.start < g.finish) ∧
      ∀ t, (∃ g ∈ freeSegments available busy, g.start ≤ t ∧ t < g.finish) ↔
        (available.start ≤ t ∧ t < available.finish) ∧
          ∀ b ∈ busy, ¬ (b.start ≤ t ∧ t < b.finish) := by
  refine ⟨pairwise_freeSegments, fun g hg => (freeSegments_spec hg).1, fun t => ⟨?_, ?_⟩⟩
  · rintro ⟨g, hg, hst, hfin⟩
    obtain ⟨-, hwin, hfree⟩ := freeSegments_spec hg
    refine ⟨⟨hwin.1.trans hst, hfin.trans_le hwin.2⟩, fun b hb ht => ?_⟩
    exact hfree b hb (ht.1.trans_lt ht.2) ⟨ht.1.trans_lt hfin, hst.trans_lt ht.2⟩
  · rintro ⟨⟨hst, hfin⟩, hfree⟩
    refine HalfOpen.exists_gap_mem hst hfin fun m hm ht => ?_
    obtain ⟨b, hb, htb⟩ := exists_busy_of_mem_mergedParts hm ht
    exact hfree b hb htb

/-- A stretch of time lies in one free segment at most. -/
lemma freeSegment_unique {g' : Span} (ha : a.start < a.finish)
    (hg : g ∈ freeSegments available busy) (hg' : g' ∈ freeSegments available busy)
    (hga : g.Contains a) (hga' : g'.Contains a) : g = g' := by
  have hpw : (freeSegments available busy).Pairwise
      fun x y => x.finish ≤ y.start ∨ y.finish ≤ x.start :=
    pairwise_freeSegments.imp fun h => .inl h.le
  have : Std.Symm fun x y : Span => x.finish ≤ y.start ∨ y.finish ≤ x.start := ⟨fun _ _ => Or.symm⟩
  by_contra hne
  have hor := hpw.forall hg hg' hne
  have hfst := ha.trans_le hga.2
  have hsecond := ha.trans_le hga'.2
  rcases hor with h | h
  · exact lt_irrefl _ (hfst.trans_le (h.trans hga'.1))
  · exact lt_irrefl _ (hsecond.trans_le (h.trans hga.1))

lemma start_of_mem_freeSegments (hg : g ∈ freeSegments available busy) :
    g.start = available.start ∨ ∃ b ∈ busy, g.start = b.finish := by
  obtain ⟨hne, hwin, -⟩ := freeSegments_spec hg
  rcases HalfOpen.start_of_mem_gaps hg with hst | ⟨m, hm, hst⟩
  · exact .inl hst
  · obtain ⟨c, hc, hfinish⟩ := (HalfOpen.exists_ends_of_mem_merge hm).2
    obtain ⟨b, hb, hclip⟩ := mem_busyParts.mp hc
    obtain ⟨rfl, -⟩ := clipped_eq_some hclip
    rw [hfinish] at hst
    dsimp only [earlier] at hst
    split at hst
    · -- a busy interval up to the end of the window leaves nothing after it
      exact absurd (hne.trans_le hwin.2) (hst ▸ lt_irrefl _)
    · exact .inr ⟨b, hb, hst⟩

end

end DayWeave
