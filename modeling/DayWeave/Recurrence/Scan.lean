import DayWeave.Lib.Result
import DayWeave.Recurrence.Custom

/-!
The dates of a custom rule.

The dates up to a day are a part of all dates (`occurrenceDatesThrough_eq`), and the number
of a date is its place among all dates (`mem_occurrenceDatesThrough`).
-/

namespace DayWeave

open Except (ok)
open List

namespace CustomRecurrenceRule

variable {rule : CustomRecurrenceRule} {anchor through : Date} {startsOn : DayOfWeek}
  {target : Option UInt32} {count : UInt32} {date : Date}

/-- What one day of a scan finds. -/
def found (hit : Bool) (date through : Date) (count : UInt32) : List (UInt32 × Date) :=
  if hit ∧ date ≤ through then [(count, date)] else []

/-- The number of occurrences found after one day of a scan. -/
def nextCount (hit : Bool) (count : UInt32) : UInt32 := if hit then count + 1 else count

lemma scan_zero (date : Date) (count : UInt32) :
    rule.scan anchor through startsOn target 0 date count =
      let hit := rule.matchesDate anchor date startsOn
      if hit ∧ count = maxOccurrences then .error .occurrenceBudgetExceeded
      else if hit ∧ target = some (nextCount hit count) then .ok (found hit date through count)
      else (validateScanResult (nextCount hit count) target).map fun _ =>
        found hit date through count := by
  rfl

lemma scan_succ (days : ℕ) (date : Date) (count : UInt32) :
    rule.scan anchor through startsOn target (days + 1) date count =
      let hit := rule.matchesDate anchor date startsOn
      if hit ∧ count = maxOccurrences then .error .occurrenceBudgetExceeded
      else if hit ∧ target = some (nextCount hit count) then .ok (found hit date through count)
      else
        match date.nextDay with
        | none => .error .dateOutOfRange
        | some next =>
          (rule.scan anchor through startsOn target days next (nextCount hit count)).map
            (found hit date through count ++ ·) := by
  rfl

lemma filter_found (hit : Bool) (date : Date) (count : UInt32) :
    (found hit date maxDate count).filter (fun entry => entry.2 ≤ through) =
      found hit date through count := by
  have : date ≤ maxDate := date.le_max
  cases hit <;> simp [found, this, filter_cons]

lemma scan_through (days : ℕ) (date : Date) (count : UInt32) :
    rule.scan anchor through startsOn target days date count =
      (rule.scan anchor maxDate startsOn target days date count).map
        (List.filter fun entry => entry.2 ≤ through) := by
  induction days generalizing date count with
  | zero =>
    simp only [scan_zero, apply_ite (Except.map _)]
    refine if_congr Iff.rfl rfl (if_congr Iff.rfl ?_ ?_)
    · exact congrArg ok (filter_found _ date count).symm
    · cases validateScanResult _ target with
      | error e => rfl
      | ok => exact congrArg ok (filter_found _ date count).symm
  | succ days ih =>
    simp only [scan_succ, apply_ite (Except.map _)]
    refine if_congr Iff.rfl rfl (if_congr Iff.rfl ?_ ?_)
    · exact congrArg ok (filter_found _ date count).symm
    · cases date.nextDay with
      | none => rfl
      | some next =>
        dsimp only
        rw [ih]
        cases rule.scan anchor maxDate startsOn target days next _ with
        | error e => rfl
        | ok rest =>
          refine congrArg ok ?_
          rw [filter_append, filter_found]

lemma map_fst_found (hit : Bool) (date : Date) (count : UInt32) :
    (found hit date maxDate count).map (fun entry => entry.1.toNat) =
      List.range' count.toNat (found hit date maxDate count).length := by
  unfold found
  split <;> rfl

/-- The number grows with what is found, up to the largest number. -/
lemma toNat_nextCount {hit : Bool} (date : Date) (hcnt : count.toNat ≤ 10000)
    (hbudget : ¬ (hit = true ∧ count = maxOccurrences)) :
    (nextCount hit count).toNat = count.toNat + (found hit date maxDate count).length ∧
      (nextCount hit count).toNat ≤ 10000 := by
  have hmax : date ≤ maxDate := date.le_max
  cases hit with
  | false => exact ⟨rfl, hcnt⟩
  | true =>
    have hne : count.toNat ≠ 10000 := fun heq => hbudget ⟨rfl, UInt32.toNat_inj.mp heq⟩
    have hlen : (found true date maxDate count).length = 1 := by simp [found, hmax]
    have hsucc : (nextCount true count).toNat = count.toNat + 1 := by
      rw [nextCount, if_pos rfl, UInt32.toNat_add, UInt32.toNat_one]
      omega
    omega

/-- The dates that a scan finds are numbered one after the other. -/
lemma map_fst_scan {days : ℕ} {l : List (UInt32 × Date)} (hcnt : count.toNat ≤ 10000)
    (h : rule.scan anchor maxDate startsOn target days date count = .ok l) :
    l.map (fun entry => entry.1.toNat) = List.range' count.toNat l.length := by
  induction days generalizing date count l with
  | zero =>
    simp only [scan_zero, Except.ite_error_eq_ok] at h
    obtain ⟨-, h⟩ := h
    split at h
    · cases h
      exact map_fst_found _ date count
    · obtain ⟨-, -, rfl⟩ := Except.map_eq_ok.mp h
      exact map_fst_found _ date count
  | succ days ih =>
    simp only [scan_succ, Except.ite_error_eq_ok] at h
    obtain ⟨hbudget, h⟩ := h
    split at h
    · cases h
      exact map_fst_found _ date count
    · split at h
      · cases h
      · obtain ⟨rest, hrest, rfl⟩ := Except.map_eq_ok.mp h
        obtain ⟨hsum, hle⟩ := toNat_nextCount date hcnt hbudget
        have hnumbers := ih hle hrest
        rw [map_append, hnumbers, map_fst_found, hsum, length_append, ← range'_append_1]

lemma toNat_eq_of_numbered {all : List (UInt32 × Date)}
    (h : all.map (fun entry => entry.1.toNat) = List.range' 0 all.length) {i : ℕ}
    {entry : UInt32 × Date} (hent : all[i]? = some entry) : entry.1.toNat = i := by
  have hi := (List.getElem?_eq_some_iff.mp hent).1
  have hmap : (all.map fun entry => entry.1.toNat)[i]? = some entry.1.toNat := by
    rw [getElem?_map, hent, Option.map_some]
  rw [h, getElem?_range' hi] at hmap
  have := Option.some.inj hmap
  omega

lemma occurrenceDatesThrough_eq : rule.occurrenceDatesThrough anchor through startsOn =
    (rule.occurrenceDatesThrough anchor maxDate startsOn).map
      (List.filter fun entry => entry.2 ≤ through) := by
  unfold occurrenceDatesThrough
  cases rule.searchBounds anchor with
  | error e => rfl
  | ok bounds => exact scan_through _ _ _

/-- **The numbers of the dates** of a custom rule are their places among all its dates. -/
lemma mem_occurrenceDatesThrough {dates : List Date} {entries : List (UInt32 × Date)}
    (hall : rule.allOccurrenceDates anchor startsOn = .ok dates)
    (h : rule.occurrenceDatesThrough anchor through startsOn = .ok entries) {sequence : UInt32} :
    (sequence, date) ∈ entries ↔ date ≤ through ∧ dates[sequence.toNat]? = some date := by
  obtain ⟨all, hscan, rfl⟩ := Except.map_eq_ok.mp hall
  rw [occurrenceDatesThrough_eq, hscan] at h
  cases h
  obtain ⟨bounds, -, hscan⟩ := Except.bind_eq_ok.mp hscan
  have hnumbers := map_fst_scan (by decide) hscan
  rw [mem_filter, decide_eq_true_eq, and_comm, getElem?_map, Option.map_eq_some_iff]
  refine and_congr_right fun _ => ⟨fun hmem => ?_, ?_⟩
  · obtain ⟨i, hi⟩ := mem_iff_getElem?.mp hmem
    have := toNat_eq_of_numbered hnumbers hi
    exact ⟨(sequence, date), by rw [this]; exact hi, rfl⟩
  · rintro ⟨⟨other, _⟩, hent, rfl⟩
    have heq := UInt32.toNat_inj.mp (toNat_eq_of_numbered hnumbers hent)
    exact heq ▸ mem_of_getElem? hent

end CustomRecurrenceRule

end DayWeave
