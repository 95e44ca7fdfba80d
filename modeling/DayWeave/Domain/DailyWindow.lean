import DayWeave.Domain.Item

/-!
What a daily window accepts.

`DailyTimeWindow.contains` looks at the minutes of the two ends of a stretch only. It agrees with
what it means that all of the stretch lies in the window (`insideAt_all_iff`) exactly if
`ReadsExactly`: the end is not inside the last minute of the window, a window up to midnight is
not left at midnight, and one across midnight is not left through its gap.
-/

namespace DayWeave

open Duration (day minute)
open OffsetDateTime (atSecond le_def localNanos lt_def minuteOfDay since)

namespace DailyTimeWindow

variable (w : DailyTimeWindow) (t : OffsetDateTime)

/-- The window may be used on the local weekday of an instant. -/
def AcceptsDay : Prop :=
  w.weekdays = ∅ ∨ t.weekday ∈ w.weekdays

/-- The local time of day of an instant lies in the window. -/
def InsideAt : Prop :=
  if w.endMinute < w.startMinute then
    w.startMinute.toNat ≤ t.minuteOfDay ∨ t.minuteOfDay < w.endMinute.toNat
  else w.startMinute.toNat ≤ t.minuteOfDay ∧ t.minuteOfDay < w.endMinute.toNat

instance (w : DailyTimeWindow) : DecidablePred w.InsideAt := fun t => by
  unfold InsideAt
  infer_instance

/-- The start of a window, as a time of day. -/
def opens : Int := w.startMinute.toNat * minute

/-- The end of a window, as a time of day. -/
def closes : Int := w.endMinute.toNat * minute

lemma opens_closes_nonneg (w : DailyTimeWindow) : 0 ≤ w.opens ∧ 0 ≤ w.closes := by
  unfold opens closes minute
  omega

/-- A time of day lies in the window. -/
def Inside (time : Int) : Prop :=
  if w.closes < w.opens then w.opens ≤ time ∨ time < w.closes
  else w.opens ≤ time ∧ time < w.closes

end DailyTimeWindow

/-- The time from the local midnight before an instant. -/
def startOfDay (t : OffsetDateTime) : Int := t.localNanos % day

/-- The end of a stretch, counted from the local midnight before its start. -/
def endOfDay (start finish : OffsetDateTime) : Int := startOfDay start + finish.since start

/-- The stretches about which the two ends tell everything. -/
def DailyTimeWindow.ReadsExactly (w : DailyTimeWindow) (start finish : OffsetDateTime) : Prop :=
  if w.opens < w.closes then
    w.opens ≤ startOfDay start →
      (endOfDay start finish < w.closes + minute → endOfDay start finish < day →
        endOfDay start finish ≤ w.closes) ∧
      (w.closes = day → day ≤ endOfDay start finish → endOfDay start finish ≠ day ∧ w.opens ≠ 0)
  else
    (w.opens ≤ startOfDay start → w.closes < w.opens ∧ endOfDay start finish ≤ day + w.closes) ∧
    (startOfDay start < w.opens → endOfDay start finish % day < w.closes + minute →
      w.closes < w.opens ∧ endOfDay start finish ≤ w.closes)

section

variable {w : DailyTimeWindow} {start finish : OffsetDateTime} {t : OffsetDateTime}

lemma minuteOfDay_eq (t : OffsetDateTime) : (t.minuteOfDay : Int) = startOfDay t / minute := by
  unfold minuteOfDay startOfDay day minute
  omega

lemma startOfDay_bounds (t : OffsetDateTime) : 0 ≤ startOfDay t ∧ startOfDay t < day := by
  unfold startOfDay day
  omega

lemma endOfDay_bounds (hlt : start < finish) (hday : finish.since start ≤ day) :
    startOfDay start < endOfDay start finish ∧ endOfDay start finish ≤ startOfDay start + day := by
  exact ⟨Int.lt_add_of_pos_right _ (Int.sub_pos_of_lt hlt), Int.add_le_add_left hday _⟩

lemma localNanos_eq (h : t.offset = start.offset) :
    t.localNanos = start.localNanos + (t.nanos - start.nanos) := by
  rw [localNanos, localNanos, h]
  omega

lemma startOfDay_eq (h : t.offset = start.offset) :
    startOfDay t = (startOfDay start + t.since start) % day := by
  unfold startOfDay since
  rw [localNanos_eq h, Int.emod_add_emod]

/-- What holds of the times of day of all instants of a stretch; every instant between two
representable ones is representable. -/
lemma forall_between_iff (hoff : finish.offset = start.offset) {p : Int → Prop} :
    (∀ t : OffsetDateTime, t.offset = start.offset → start ≤ t → t < finish → p (startOfDay t)) ↔
      ∀ d, startOfDay start ≤ d → d < endOfDay start finish → p (d % day) := by
  have hend : endOfDay start finish = startOfDay start + (finish.nanos - start.nanos) := rfl
  constructor
  · intro h d hd hlt
    have hge := start.local_ge
    have hfin := finish.local_lt
    rw [hoff] at hfin
    obtain ⟨t, hns, ht⟩ : ∃ t : OffsetDateTime, t.nanos = start.nanos + (d - startOfDay start) ∧
        t.offset = start.offset :=
      ⟨⟨_, start.offset, start.offset_ge, start.offset_le, by omega, by omega⟩, rfl, rfl⟩
    have htime := h t ht (le_def.mpr (by omega)) (lt_def.mpr (by omega))
    rwa [startOfDay_eq ht, since, hns, show startOfDay start +
      (start.nanos + (d - startOfDay start) - start.nanos) = d by omega] at htime
  · intro h t ht hle hlt
    rw [startOfDay_eq ht]
    exact h _ (Int.le_add_of_nonneg_right (Int.sub_nonneg_of_le hle))
      (Int.add_lt_add_left (Int.sub_lt_sub_right hlt _) _)

lemma minute_lt_iff {a b : UInt16} : a < b ↔ (a.toNat : Int) * minute < b.toNat * minute := by
  rw [UInt16.lt_iff_toNat_lt, minute]
  omega

lemma insideAt_iff : w.InsideAt t ↔ w.Inside (startOfDay t) := by
  have hminute := minuteOfDay_eq t
  have hswap : w.endMinute < w.startMinute ↔ w.closes < w.opens := minute_lt_iff
  rw [DailyTimeWindow.InsideAt, DailyTimeWindow.Inside, if_congr hswap rfl rfl]
  unfold DailyTimeWindow.closes DailyTimeWindow.opens minute at *
  split_ifs <;> omega

/-- All of a stretch of at most a day lies in the window, said by its two ends. -/
lemma forall_inside_iff (hopens : w.opens < day) (hcloses : w.closes ≤ day)
    {s e : Int} (hs : 0 ≤ s ∧ s < day) (hlt : s < e) (hday : e ≤ s + day) :
    (∀ d, s ≤ d → d < e → w.Inside (d % day)) ↔
      if w.closes < w.opens then (w.opens ≤ s ∧ e ≤ day + w.closes) ∨ e ≤ w.closes
      else (w.opens ≤ s ∧ e ≤ w.closes) ∨ (w.opens = 0 ∧ w.closes = day) := by
  have hnn := w.opens_closes_nonneg
  unfold DailyTimeWindow.Inside
  unfold day at *
  generalize w.closes = c at *
  generalize w.opens = o at *
  constructor
  · intro h
    -- the first instant, and the end of the window on both days
    have hfst := h s
    have hclose := h c
    have hnext := h (86400000000000 + c)
    split_ifs at * <;> omega
  · intro h d hd hde
    split_ifs at * <;> omega

lemma contains_iff (hoff : finish.offset = start.offset) (hlt : start < finish)
    (hday : finish.since start ≤ day) : w.contains start finish = true ↔ w.AcceptsDay start ∧
      if w.opens < w.closes then
        w.opens ≤ startOfDay start ∧ endOfDay start finish < day ∧
          endOfDay start finish < w.closes + minute
      else w.opens ≤ startOfDay start ∨ endOfDay start finish % day < w.closes + minute := by
  have hs := startOfDay_bounds start
  have hend := (endOfDay_bounds hlt hday).1
  have hst := minuteOfDay_eq start
  have hfinish := minuteOfDay_eq finish
  rw [startOfDay_eq hoff] at hfinish
  have hdate : finish.date = start.date ↔ endOfDay start finish < day := by
    have hloc := localNanos_eq hoff
    rw [lt_def] at hlt
    rw [Date.ext_iff]
    change finish.localNanos / day = start.localNanos / day ↔
      start.localNanos % day + (finish.nanos - start.nanos) < day
    unfold since day at *
    omega
  have hswap : w.startMinute < w.endMinute ↔ w.opens < w.closes := minute_lt_iff
  have hopens : w.startMinute.toNat ≤ start.minuteOfDay ↔ w.opens ≤ startOfDay start := by
    unfold DailyTimeWindow.opens
    unfold minute at *
    omega
  have hcloses : finish.minuteOfDay ≤ w.endMinute.toNat ↔
      endOfDay start finish % day < w.closes + minute := by
    change (finish.minuteOfDay : Int) = endOfDay start finish % day / minute at hfinish
    unfold DailyTimeWindow.closes
    unfold minute at *
    omega
  unfold DailyTimeWindow.contains DailyTimeWindow.AcceptsDay
  rw [Bool.if_false_left, Bool.and_eq_true, Bool.not_eq_true', decide_eq_false_iff_not, not_and_or,
    not_not, not_not]
  refine and_congr_right fun _ => ?_
  by_cases hcross : w.opens < w.closes
  · -- a window within one day
    have hsame (hlt' : endOfDay start finish < day) :
        endOfDay start finish % day = endOfDay start finish :=
      Int.emod_eq_of_lt (hs.1.trans hend.le) hlt'
    rw [if_pos hcross, if_pos (hswap.mpr hcross), Bool.and_eq_true, Bool.and_eq_true,
      decide_eq_true_eq, decide_eq_true_eq, decide_eq_true_eq, hopens, hdate, hcloses, and_assoc]
    exact and_congr_right fun _ => and_congr_right fun hlt' => by rw [hsame hlt']
  · rw [if_neg hcross, if_neg (hcross ∘ hswap.mp), Bool.or_eq_true, decide_eq_true_eq,
      decide_eq_true_eq, hopens, hcloses]

/-- **Daily windows.** The check of the two ends says whether all of a stretch lies in the
window exactly for the stretches that `ReadsExactly` describes. -/
theorem contains_exact_iff (hopens : w.startMinute.toNat < 1440)
    (hcloses : w.endMinute.toNat ≤ 1440)
    (hoff : finish.offset = start.offset) (hlt : start < finish)
    (hday : finish.since start ≤ day) :
    (w.contains start finish = true ↔ w.AcceptsDay start ∧
        ∀ t : OffsetDateTime, t.offset = start.offset → start ≤ t → t < finish → w.InsideAt t) ↔
      (w.AcceptsDay start → w.ReadsExactly start finish) := by
  have hs := startOfDay_bounds start
  obtain ⟨hend, hend'⟩ := endOfDay_bounds hlt hday
  have hopens' : w.opens < day := by
    unfold DailyTimeWindow.opens minute day
    omega
  have hcloses' : w.closes ≤ day := by
    unfold DailyTimeWindow.closes minute day
    omega
  simp only [contains_iff hoff hlt hday, insideAt_iff, forall_between_iff hoff]
  rw [forall_inside_iff hopens' hcloses' hs hend hend', and_congr_right_iff]
  refine imp_congr_right fun _ => ?_
  unfold DailyTimeWindow.ReadsExactly
  unfold day minute at *
  generalize w.closes = c at *
  generalize w.opens = o at *
  generalize startOfDay start = s at *
  generalize endOfDay start finish = e at *
  split_ifs <;> omega

end

namespace Sample

/-- From 22:00 to 02:00. -/
def night : DailyTimeWindow := ⟨∅, 1320, 120⟩

end Sample

open Sample

/-- The two ends of the hour from 23:00 to midnight tell everything. -/
theorem contains_exact_iff_night : (night.contains (.atSecond 82800) (.atSecond 86400) = true ↔
        night.AcceptsDay (.atSecond 82800) ∧
        ∀ t : OffsetDateTime, t.offset = 0 → .atSecond 82800 ≤ t → t < .atSecond 86400 →
          night.InsideAt t) ↔
      (night.AcceptsDay (.atSecond 82800) →
        night.ReadsExactly (.atSecond 82800) (.atSecond 86400)) :=
  contains_exact_iff (by decide) (by decide) rfl (by decide) (by decide)

/-- The stretch from 23:00 to 05:00 is accepted, and at 03:00 it is outside. -/
theorem night_contains_not_inside : night.contains (.atSecond 82800) (.atSecond 104400) = true ∧
      (atSecond 82800 ≤ .atSecond 97200 ∧ atSecond 97200 < .atSecond 104400) ∧
      ¬ night.InsideAt (.atSecond 97200) := by
  refine ⟨by decide, ⟨by decide, by decide⟩, by decide⟩

end DayWeave
