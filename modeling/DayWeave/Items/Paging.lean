import DayWeave.Items.Delta

/-!
Paging delivers the log.

In a log whose groups stand together and are not too large, every call of `delta` at the end of a
page succeeds (`delta_ok`): the page is not empty unless the log ends, keeps its bounds, and parts
no group. So page after page delivers the whole log in order (`paging_complete`).
-/

open Groups

namespace DayWeave.Server

open Prod (fst snd)
open Option (any_some getD_some map_some okOr)
open List Server.Sample
open MemoryChange (changeGroupId)

/-! ### Arithmetic -/

lemma checkedAdd_of_le {a b : ℕ} (h : a + b ≤ usizeMax) : checkedAdd a b = some (a + b) := if_pos h

lemma foldlM_checkedAdd {l : List ℕ} {a : ℕ} (h : a + l.sum ≤ usizeMax) :
    l.foldlM checkedAdd a = some (a + l.sum) := by
  induction l generalizing a with
  | nil => simp
  | cons b rest ih =>
    rw [sum_cons] at h ⊢
    rw [foldlM_cons, checkedAdd_of_le (by omega), Option.bind_eq_bind, Option.bind_some,
      ih (by omega), Nat.add_assoc]

lemma page_le_usizeMax :
    maxItemDeltaPagePayloadBytes + maxItemDeltaPagePayloadBytes ≤ usizeMax := by
  decide

lemma group_le_usizeMax : maxItemChangeGroupSize ≤ usizeMax := by decide

/-! ### The end of the group -/

section

variable {ids : List (Option Uuid)} {limit : ℕ}

/-- The rows that are read ahead are enough to find the end of a group. -/
lemma atomicDeltaPrefixLen_ok (hcontiguous : Contiguous ids)
    (hsize : ∀ g, ids.count (some g) ≤ maxItemChangeGroupSize) (hlim : 1 ≤ limit)
    (hmax : limit + maxItemChangeGroupSize ≤ usizeMax) :
    ∃ n, atomicDeltaPrefixLen (ids.take (limit + maxItemChangeGroupSize)) limit = .ok n ∧
      n ≤ ids.length ∧ n ≤ limit + (maxItemChangeGroupSize - 1) ∧ (ids ≠ [] → 0 < n) ∧
      Cut (ids.take n) (ids.drop n) := by
  have hpage : maxExpandedDeltaPageSize limit = .ok (limit + (maxItemChangeGroupSize - 1)) := by
    rw [maxExpandedDeltaPageSize, if_neg (by omega), checkedAdd_of_le (by omega), okOr]
  have h300 : maxItemChangeGroupSize = 300 := rfl
  simp only [atomicDeltaPrefixLen, hpage, Except.bind_eq_ok, Except.ok.injEq, exists_eq_left']
  by_cases hshort : (ids.take (limit + maxItemChangeGroupSize)).length ≤ limit
  · -- the whole rest of the log fits
    have hlen : ids.length ≤ limit := by
      rw [length_take] at hshort
      omega
    refine ⟨ids.length, ?_, le_rfl, by omega, length_pos_iff.mpr, ?_⟩
    · rw [if_pos hshort, take_of_length_le (by omega)]
    · rw [drop_length]
      exact Cut.nil_right
  · have hlong : limit < ids.length := by
      rw [length_take] at hshort
      omega
    rw [if_neg hshort, getElem?_take_of_lt (by omega)]
    obtain ⟨last, rfl⟩ : ∃ last, limit = last + 1 := ⟨limit - 1, by omega⟩
    rw [Nat.add_sub_cancel]
    obtain ⟨id, hid⟩ : ∃ id, ids[last]? = some id := ⟨_, getElem?_eq_getElem (by omega)⟩
    rw [hid]
    cases id with
    | none =>
      exact ⟨last + 1, rfl, hlong.le, by omega, fun _ => last.succ_pos,
        hcontiguous.cut_take hid fun _ heq => by cases heq⟩
    | some g =>
      simp only [Option.join_some]
      -- the run of the group before and after the last row asked for
      set before := run (some g) (ids.take (last + 1)).reverse with hbef
      set after := run (some g) (ids.drop (last + 1))
      have hbeforeLe : before ≤ (ids.take (last + 1)).count (some g) := by
        have := run_le_count (x := some g) (l := (ids.take (last + 1)).reverse)
        rwa [count_reverse] at this
      have hone : 1 ≤ (ids.take (last + 1)).count (some g) := by
        refine count_pos_iff.mpr (mem_of_getElem? (i := last) ?_)
        rw [getElem?_take_of_lt (by omega), hid]
      have htotal : (ids.take (last + 1)).count (some g) + after ≤ maxItemChangeGroupSize := by
        have hcnt : (ids.take (last + 1)).count (some g) + (ids.drop (last + 1)).count (some g) =
            ids.count (some g) := by
          rw [← count_append, take_append_drop]
        have := run_le_count (x := some g) (l := ids.drop (last + 1))
        have := hsize g
        omega
      have hrun : run (some g)
          ((ids.take (last + 1 + maxItemChangeGroupSize)).drop (last + 1)) = after := by
        rw [drop_take, Nat.add_sub_cancel_left, run_take]
        omega
      have htake : (ids.take (last + 1 + maxItemChangeGroupSize)).take (last + 1) =
          ids.take (last + 1) := by
        rw [take_take, min_eq_left (by omega)]
      have hlen : after ≤ ids.length - (last + 1) := by
        rw [← length_drop]
        exact run_le_length
      rw [hrun, htake, ← hbef]
      refine ⟨last + 1 + after, if_neg (by omega), by omega, by omega, fun _ => by omega, ?_⟩
      rw [Nat.add_right_comm]
      exact hcontiguous.cut_run hid

/-! ### The groups of the prefix -/

variable {rows done : List (Option Uuid × ℕ)} {scan : GroupScan} {row : Option Uuid × ℕ}

/-- What is known after a number of rows. -/
structure GroupScan.Tells (scan : GroupScan) (done : List (Option Uuid × ℕ)) : Prop where
  current : scan.currentGroupId = (done.getLast?.map fst).join
  completed : ∀ g ∈ scan.completed, some g ∈ done.map fst ∧ scan.currentGroupId ≠ some g
  count : ∀ g, scan.currentGroupId = some g →
    scan.currentCount = (done.map fst).count (some g) ∧ scan.currentPayloadBytes = weight done g

/-- Every group of some rows is small enough. -/
structure GroupsFit (rows : List (Option Uuid × ℕ)) : Prop where
  contiguous : Contiguous (rows.map fst)
  size : ∀ g, (rows.map fst).count (some g) ≤ maxItemChangeGroupSize
  bytes : ∀ g, weight rows g ≤ maxItemChangeGroupPayloadBytes

lemma GroupsFit.sublist (h : GroupsFit rows) (hsub : done.Sublist rows) : GroupsFit done where
  contiguous := h.contiguous.sublist (hsub.map fst)
  size g := ((hsub.map fst).count_le _).trans (h.size g)
  bytes g := (weight_le_of_sublist hsub).trans (h.bytes g)

lemma GroupScan.Tells.finishGroup_ok (h : scan.Tells done) (hfit : GroupsFit done) :
    finishGroup scan.currentGroupId scan.currentCount scan.currentPayloadBytes = .ok () := by
  refine if_neg fun ⟨hsome, hlarge⟩ => ?_
  obtain ⟨g, hg⟩ := Option.isSome_iff_exists.mp hsome
  obtain ⟨hcnt, hbytes⟩ := h.count g hg
  have := hfit.size g
  have := hfit.bytes g
  omega

/-- A group that is past does not come again. -/
lemma GroupScan.Tells.not_mem_completed (h : scan.Tells done)
    (hfit : GroupsFit (done ++ [row])) {g : Uuid} (hg : row.1 = some g)
    (hne : row.1 ≠ scan.currentGroupId) : some g ∉ done.map fst := by
  intro hin
  rcases eq_nil_or_concat done with rfl | ⟨init, last, rfl⟩
  · cases hin
  · have hlast : last.1 ≠ some g := by
      rw [h.current, hg] at hne
      simpa using hne.symm
    have hinit : some g ∈ init.map fst := by
      simp only [concat_eq_append, map_append, map_cons, map_nil, mem_append, mem_singleton] at hin
      exact hin.resolve_right (Ne.symm hlast)
    refine hlast (hfit.contiguous g (init.map fst) [last.1] [row.1] (by simp) hinit ?_ last.1
      (mem_singleton_self _))
    rw [hg]
    exact mem_singleton_self _

/-- **One row** is scanned. -/
lemma GroupScan.Tells.row_ok (h : scan.Tells done) (hfit : GroupsFit (done ++ [row])) :
    ∃ next, scan.row row = .ok next ∧ next.Tells (done ++ [row]) := by
  have hcur : ((done ++ [row]).getLast?.map fst).join = row.1 := by
    simp
  -- the rows and the bytes of the group of the row, before it
  obtain ⟨entered, henter, hgroup, hcomp, hcnt⟩ : ∃ entered, scan.enter row.1 = .ok entered ∧
      entered.currentGroupId = row.1 ∧
      (∀ g ∈ entered.completed, some g ∈ done.map fst ∧ row.1 ≠ some g) ∧
      ∀ g, row.1 = some g → entered.currentCount = (done.map fst).count (some g) ∧
        entered.currentPayloadBytes = weight done g := by
    unfold GroupScan.enter
    by_cases hsame : row.1 = scan.currentGroupId
    · rw [if_pos hsame]
      exact ⟨scan, rfl, hsame.symm, fun g hg => hsame ▸ h.completed g hg,
        fun g hg => h.count g (hsame ▸ hg)⟩
    · rw [if_neg hsame, h.finishGroup_ok (hfit.sublist (sublist_append_left _ _))]
      have hpast : ∀ g ∈ scan.currentGroupId.toList ++ scan.completed, some g ∈ done.map fst := by
        intro g hg
        rcases mem_append.mp hg with hg | hg
        · rw [Option.mem_toList, h.current] at hg
          obtain ⟨last, hlast, heq⟩ := Option.map_eq_some_iff.mp (Option.join_eq_some_iff.mp hg)
          exact mem_map.mpr ⟨last, mem_of_getLast? hlast, heq⟩
        · exact (h.completed g hg).1
      refine ⟨⟨scan.currentGroupId.toList ++ scan.completed, row.1, 0, 0⟩, if_neg ?_, rfl,
        fun g hg => ⟨hpast g hg, fun hrow => h.not_mem_completed hfit hrow hsame (hpast g hg)⟩,
        fun g hg => ?_⟩
      · rw [Option.any_eq_true]
        rintro ⟨g, hg, hin⟩
        exact h.not_mem_completed hfit hg hsame (hpast g (of_decide_eq_true hin))
      · have hnew := h.not_mem_completed hfit hg hsame
        refine ⟨(count_eq_zero.mpr hnew).symm, ?_⟩
        rw [weight, filter_eq_nil_iff.mpr fun r hr heq =>
          hnew (mem_map.mpr ⟨r, hr, of_decide_eq_true heq⟩)]
        rfl
  simp only [GroupScan.row, henter, Except.bind_eq_ok, Except.ok.injEq, exists_eq_left']
  cases hrow : row.1 with
  | none =>
    refine ⟨entered, rfl, ?_, fun g hg => ?_, fun g hg => ?_⟩
    · rw [hcur, hgroup]
    · rw [map_append, mem_append]
      exact ⟨.inl (hcomp g hg).1, by rw [hgroup]; exact (hcomp g hg).2⟩
    · rw [hgroup, hrow] at hg
      cases hg
  | some g =>
    obtain ⟨hrows, hbytes⟩ := hcnt g hrow
    have hsize := hfit.size g
    have hweight := hfit.bytes g
    have hrowCount : ((done ++ [row]).map fst).count (some g) = entered.currentCount + 1 := by
      rw [map_append, count_append, hrows]
      simp [hrow]
    have hrowWeight : weight (done ++ [row]) g = entered.currentPayloadBytes + row.2 := by
      rw [weight_append, hbytes,
        weight_eq_sum (forall_mem_singleton.mpr hrow)]
      simp
    have hgroupMax := group_le_usizeMax
    have hpageMax := page_le_usizeMax
    unfold maxItemChangeGroupPayloadBytes at hweight
    simp only [Option.isSome_some, if_true, Option.okOr_eq_ok, Except.bind_eq_ok]
    refine ⟨_, ⟨_, checkedAdd_of_le (by omega), _, checkedAdd_of_le (by omega), rfl⟩, ?_,
      fun g' hg => ?_, fun g' hg => ?_⟩
    · rw [hcur]
      exact hgroup
    · rw [map_append, mem_append]
      refine ⟨.inl (hcomp g' hg).1, fun heq => (hcomp g' hg).2 ?_⟩
      rw [← hgroup]
      exact heq
    · cases (hrow.symm.trans (hgroup.symm.trans hg) : some g = some g')
      exact ⟨hrowCount.symm, hrowWeight.symm⟩

lemma validateAtomicDeltaGroups_ok (hfit : GroupsFit rows) :
    validateAtomicDeltaGroups (rows.map fst) (rows.map snd) = .ok () := by
  have hst : GroupScan.Tells {} [] := ⟨rfl, nofun, nofun⟩
  obtain ⟨final, hfnl, htells⟩ := Except.exists_foldlM (P := fun done s => GroupScan.Tells s done)
    (fun done row scan hpre h => h.row_ok (hfit.sublist hpre.sublist)) hst
  have hzip : (rows.map fst).zip (rows.map snd) = rows := by
    rw [zip_map']
    exact map_id rows
  rw [validateAtomicDeltaGroups, if_neg (by simp), hzip, hfnl]
  exact htells.finishGroup_ok hfit

/-! ### The units of a page -/

variable {left : List (Option Uuid × ℕ)}

/-- Rows that can be delivered: the groups fit, and so does every row by itself. -/
structure RowsFit (rows : List (Option Uuid × ℕ)) : Prop extends GroupsFit rows where
  row : ∀ row ∈ rows, row.2 ≤ maxItemDeltaPagePayloadBytes

lemma RowsFit.sublist (h : RowsFit rows) (hsub : left.Sublist rows) : RowsFit left where
  toGroupsFit := h.toGroupsFit.sublist hsub
  row r hr := h.row r (hsub.subset hr)

/-- A page that has some bytes already may end behind a number of rows: no group is parted there,
and the rows before it fit. -/
structure EndsPage (rows : List (Option Uuid × ℕ)) (bytes k : ℕ) : Prop where
  le : k ≤ rows.length
  cut : Cut ((rows.take k).map fst) ((rows.drop k).map fst)
  fits : bytes + ((rows.take k).map snd).sum ≤ maxItemDeltaPagePayloadBytes

section

variable {bytes k n : ℕ}

lemma EndsPage.zero (h : bytes ≤ maxItemDeltaPagePayloadBytes) : EndsPage rows bytes 0 :=
  ⟨Nat.zero_le _, Cut.nil_left, by simpa using h⟩

lemma EndsPage.add (h : EndsPage rows bytes n)
    (h' : EndsPage (rows.drop n) (bytes + ((rows.take n).map snd).sum) k) :
    EndsPage rows bytes (n + k) := by
  have hle := h'.le
  have hfits := h'.fits
  rw [length_drop] at hle
  refine ⟨by have := h.le; omega, ?_, ?_⟩
  · rw [take_add, ← drop_drop, map_append]
    refine h'.cut.append_left ?_
    rw [← map_append, take_append_drop]
    exact h.cut
  · rw [take_add, map_append, sum_append]
    omega

lemma EndsPage.of_take (h : EndsPage (rows.take n) bytes k)
    (hcut : Cut ((rows.take n).map fst) ((rows.drop n).map fst)) : EndsPage rows bytes k := by
  have hle := h.le
  rw [length_take, Nat.le_min] at hle
  have htake : (rows.take n).take k = rows.take k := by rw [take_take, min_eq_left hle.1]
  refine ⟨hle.2, ?_, htake ▸ h.fits⟩
  have hdrop : rows.drop k = (rows.take n).drop k ++ rows.drop n := by
    rw [← drop_append_of_le_length h.le, take_append_drop]
  rw [hdrop, map_append, ← htake]
  refine h.cut.append_right ?_
  rw [← map_append, take_append_drop]
  exact hcut

end

/-- **The first unit** is not empty, parts no group, and fits on a page. -/
lemma unitLen_spec (hfit : RowsFit rows) (hne : rows ≠ []) :
    0 < unitLen (rows.map fst) ∧ EndsPage rows 0 (unitLen (rows.map fst)) := by
  cases rows with
  | nil => exact absurd rfl hne
  | cons row rest =>
    rw [map_cons]
    cases hrow : row.1 with
    | none =>
      refine ⟨Nat.one_pos, Nat.succ_pos _, ?_, ?_⟩
      · rw [map_take, map_drop]
        have hid : ((row :: rest).map fst)[0]? = some none := by simp [hrow]
        exact hfit.contiguous.cut_take hid nofun
      · simpa [unitLen] using hfit.row row mem_cons_self
    | some g =>
      have hlen : run (some g) (rest.map fst) ≤ rest.length := by
        simpa using run_le_length (l := rest.map fst)
      refine ⟨Nat.succ_pos _, Nat.succ_le_succ hlen, ?_, ?_⟩
      · rw [map_take, map_drop]
        have hid : ((row :: rest).map fst)[0]? = some (some g) := by simp [hrow]
        simpa [unitLen] using hfit.contiguous.cut_run hid
      · rw [Nat.zero_add, ← weight_eq_sum fun r hr => ?_]
        · exact (weight_le_of_sublist (take_sublist _ _)).trans (hfit.bytes g)
        rcases mem_cons.mp hr with rfl | hr
        · exact hrow
        · have := mem_map_of_mem (f := fst) hr
          rw [map_take] at this
          exact mem_take_run this

/-- **The units of a page**: some units from the front that fit, and at least one. -/
lemma selectUnits_ok {rounds selected bytes : ℕ} (hfit : RowsFit rows)
    (hrounds : rows.length ≤ rounds) (hbytes : bytes ≤ maxItemDeltaPagePayloadBytes) :
    ∃ k, selectUnits rounds (rows.map fst) (rows.map snd) selected bytes =
        .ok (selected + k) ∧ EndsPage rows bytes k ∧ (bytes = 0 → rows ≠ [] → 0 < k) := by
  have hpage := page_le_usizeMax
  induction rounds generalizing rows selected bytes with
  | zero =>
    obtain rfl := length_eq_zero_iff.mp (Nat.le_zero.mp hrounds)
    exact ⟨0, rfl, .zero hbytes, fun _ hne => absurd rfl hne⟩
  | succ rounds ih =>
    rw [selectUnits]
    by_cases hnil : rows = []
    · rw [if_pos (by rw [hnil]; rfl)]
      exact ⟨0, rfl, .zero hbytes, fun _ hne => absurd hnil hne⟩
    · obtain ⟨hpos, hunit⟩ := unitLen_spec hfit hnil
      have hsum := hunit.fits
      set n := unitLen (rows.map fst)
      rw [if_neg (by simpa using hnil)]
      dsimp only
      rw [← map_take, foldlM_checkedAdd (by omega), Nat.zero_add, okOr]
      simp only [bind, Except.bind]
      rw [if_neg (by omega), checkedAdd_of_le (by omega)]
      simp only [okOr]
      split_ifs with hlarge
      · exact ⟨0, rfl, .zero hbytes, fun hzero => by omega⟩
      · obtain ⟨k, hk, hends, -⟩ := @ih (rows.drop n) (selected + n)
          (bytes + ((rows.take n).map snd).sum)
          (hfit.sublist (drop_sublist n rows))
          (by rw [length_drop]; omega) (by omega)
        refine ⟨n + k, ?_, EndsPage.add ⟨hunit.le, hunit.cut, by omega⟩ hends, fun _ _ => by omega⟩
        rw [← map_drop, ← map_drop, hk, Nat.add_assoc]

/-- The rows of a page: at least one, not too many, small enough, and no group parted. -/
lemma deliveryBoundedDeltaPrefixLen_ok {limit : ℕ} (hfit : RowsFit rows) (hlim : 1 ≤ limit)
    (hmax : limit + maxItemChangeGroupSize ≤ usizeMax) :
    ∃ k, deliveryBoundedDeltaPrefixLen ((rows.take (limit + maxItemChangeGroupSize)).map fst)
        ((rows.take (limit + maxItemChangeGroupSize)).map snd) limit = .ok k ∧
      EndsPage rows 0 k ∧ k ≤ limit + (maxItemChangeGroupSize - 1) ∧ (rows ≠ [] → 0 < k) := by
  obtain ⟨n, hn, hlen, hle, hpos, hcut⟩ :=
    atomicDeltaPrefixLen_ok hfit.contiguous hfit.size hlim hmax
  rw [length_map] at hlen
  have htake : (rows.take (limit + maxItemChangeGroupSize)).take n = rows.take n := by
    rw [take_take, min_eq_left (by omega)]
  have hprefix := hfit.sublist (take_sublist n rows)
  have hrows : (rows.take n).length = n := by rw [length_take, min_eq_left hlen]
  obtain ⟨k, hk, hends, hkpos⟩ := selectUnits_ok hprefix hrows.le (Nat.zero_le _)
  have hkn := hends.le
  rw [Nat.zero_add] at hk
  have hselected : rows ≠ [] → 0 < k := fun hne =>
    hkpos rfl (ne_nil_of_length_pos (by rw [hrows]; exact hpos (by simpa using hne)))
  refine ⟨k, ?_, hends.of_take (by rwa [map_take, map_drop]), by omega, hselected⟩
  rw [deliveryBoundedDeltaPrefixLen, if_neg (by simp), map_take, hn]
  simp only [bind, Except.bind]
  rw [← map_take, ← map_take, ← map_take, htake,
    validateAtomicDeltaGroups_ok hprefix.toGroupsFit, hk]
  refine if_neg fun ⟨hnpos, hzero⟩ => ?_
  have := hselected (ne_nil_of_length_pos (by omega))
  omega

end

/-! ### Whole groups -/

section

variable {payloadSize : DeltaChange → Option ℕ} {log : ChangeLog}

/-- The size of a row. -/
def MemoryChange.bytes (payloadSize : DeltaChange → Option ℕ) (change : MemoryChange) : ℕ :=
  (payloadSize change.change).getD 0

open MemoryChange (bytes)

/-- The rows as the checks see them. -/
def deltaRows (payloadSize : DeltaChange → Option ℕ) (changes : List MemoryChange) :
    List (Option Uuid × ℕ) :=
  changes.map fun change => (change.changeGroupId, change.bytes payloadSize)

/-- The sequence numbers increase from one on and end with the head of the log. -/
structure ChangeLog.IsNumbered (log : ChangeLog) : Prop where
  increasing : (log.changes.map MemoryChange.sequence).Pairwise (· < ·)
  positive : ∀ change ∈ log.changes, 0 < change.sequence
  head : ∀ change ∈ log.changes, change.sequence ≤ log.nextSequence

/-- The rows of every group stand together, and groups and rows keep their bounds. -/
structure ChangeLog.KeepsBounds (payloadSize : DeltaChange → Option ℕ) (log : ChangeLog) :
    Prop where
  contiguous : Contiguous (log.changes.map MemoryChange.changeGroupId)
  group_size : ∀ g, (log.changes.map MemoryChange.changeGroupId).count (some g) ≤
    maxItemChangeGroupSize
  group_bytes : ∀ g, ((log.changes.filter fun change => change.changeGroupId = some g).map
    (bytes payloadSize)).sum ≤ maxItemChangeGroupPayloadBytes
  row_bytes : ∀ change ∈ log.changes, ∃ size, payloadSize change.change = some size ∧
    size ≤ maxItemDeltaPagePayloadBytes

/-- A log that can be delivered. -/
structure ChangeLog.IsDeliverable (payloadSize : DeltaChange → Option ℕ) (log : ChangeLog) :
    Prop extends log.IsNumbered, log.KeepsBounds payloadSize

variable {changes : List MemoryChange}

@[simp] lemma map_fst_deltaRows :
    (deltaRows payloadSize changes).map fst = changes.map (·.changeGroupId) := by
  rw [deltaRows, map_map]
  rfl

@[simp] lemma map_snd_deltaRows :
    (deltaRows payloadSize changes).map snd = changes.map (bytes payloadSize) := by
  rw [deltaRows, map_map]
  rfl

section

variable (h : log.IsDeliverable payloadSize) {pre selected post : List MemoryChange}

include h

lemma ChangeLog.IsDeliverable.rowsFit : RowsFit (deltaRows payloadSize log.changes) where
  contiguous := map_fst_deltaRows ▸ h.contiguous
  size g := by
    rw [map_fst_deltaRows]
    exact h.group_size g
  bytes g := by
    rw [weight, deltaRows, filter_map, map_map]
    exact h.group_bytes g
  row r hr := by
    obtain ⟨change, hchg, rfl⟩ := mem_map.mp hr
    obtain ⟨size, hsize, hle⟩ := h.row_bytes change hchg
    rw [bytes, hsize, getD_some]
    exact hle

lemma ChangeLog.IsDeliverable.mapM_payloadSize
    {ι : Type} {l : List ι} (f : ι → MemoryChange) (hl : ∀ a ∈ l, f a ∈ log.changes) :
    l.mapM (fun a => payloadSize (f a).change) = some (l.map fun a => (f a).bytes payloadSize) := by
  rw [Option.mapM_eq_some, List.forall₂_map_right_iff, List.forall₂_same]
  intro a ha
  obtain ⟨size, hsize, -⟩ := h.row_bytes (f a) (hl a ha)
  rw [bytes, hsize, getD_some]

/-- A group that is cut off on both sides is selected whole. -/
lemma validateMemoryGroup_ok (hlog : log.changes = pre ++ selected ++ post) {g : Uuid}
    (hg : some g ∈ selected.map changeGroupId) (hpre : some g ∉ pre.map changeGroupId)
    (hpost : some g ∉ post.map changeGroupId) :
    validateMemoryGroup payloadSize log.changes selected g = .ok () := by
  -- the rows of the group are one run
  obtain ⟨a, n, b, hids, ha, hb⟩ := h.contiguous.exists_run (by
    rw [hlog, map_append, map_append]
    exact mem_append_left _ (mem_append_right _ hg))
  obtain ⟨rows, rows', hrows, hab, hb'⟩ := map_eq_append_iff.mp hids
  obtain ⟨before, group, rfl, rfl, hgroup⟩ := map_eq_append_iff.mp hab
  subst hb'
  have hlen : group.length = n + 1 := by
    rw [← length_map, hgroup, length_replicate]
  have hall : ∀ change ∈ group, change.changeGroupId = some g := fun change hchg =>
    eq_of_mem_replicate (hgroup ▸ mem_map_of_mem hchg)
  have hnone : ∀ l : List MemoryChange, some g ∉ l.map changeGroupId → ∀ k,
      (l.zipIdx k).filter (fun entry => entry.1.changeGroupId = some g) = [] := by
    intro l hl k
    refine filter_eq_nil_iff.mpr fun entry hent heq => hl ?_
    exact mem_map.mpr ⟨entry.1, fst_mem_of_mem_zipIdx hent, of_decide_eq_true heq⟩
  have hmatching : log.changes.zipIdx.filter (fun entry => entry.1.changeGroupId = some g) =
      group.zipIdx before.length := by
    rw [hrows, zipIdx_append, zipIdx_append, filter_append, filter_append,
      hnone _ ha, hnone _ hb, nil_append, append_nil, Nat.zero_add]
    exact filter_eq_self.mpr fun entry hent =>
      decide_eq_true (hall _ (fst_mem_of_mem_zipIdx hent))
  have hfilt : log.changes.filter (fun change => change.changeGroupId = some g) = group := by
    rw [← zipIdx_map_fst 0 log.changes, filter_map]
    exact (congrArg (map fst) hmatching).trans (zipIdx_map_fst _ _)
  have hbytes := h.group_bytes g
  rw [hfilt] at hbytes
  have htotal : (log.changes.map changeGroupId).count (some g) = n + 1 := by
    rw [hids, count_append, count_append, count_eq_zero.mpr ha,
      count_eq_zero.mpr hb, count_replicate_self]
    omega
  have hsize := h.group_size g
  have hcnt : (selected.map changeGroupId).count (some g) = n + 1 := by
    rw [hlog, map_append, map_append, count_append, count_append,
      count_eq_zero.mpr hpre, count_eq_zero.mpr hpost] at htotal
    omega
  have hpage := page_le_usizeMax
  unfold maxItemChangeGroupPayloadBytes at hbytes
  have hsum : ((group.zipIdx before.length).map fun entry => entry.1.bytes payloadSize) =
      group.map (bytes payloadSize) := by
    rw [← zipIdx_map_fst before.length group, map_map]
    simp [Function.comp_def]
  unfold validateMemoryGroup
  simp only [hmatching]
  rw [h.mapM_payloadSize fst fun entry hent => by
    rw [hrows]
    exact mem_append_left _ (mem_append_right _ (fst_mem_of_mem_zipIdx hent)), hsum]
  simp only [okOr, bind, Except.bind]
  rw [foldlM_checkedAdd (by omega)]
  dsimp only
  rw [length_zipIdx, hlen, hcnt, Nat.zero_add, if_neg (by
    unfold maxItemChangeGroupPayloadBytes
    omega)]
  refine if_neg (not_or.mpr ⟨not_not.mpr rfl, not_not.mpr ?_⟩)
  obtain ⟨first, rest, rfl⟩ := exists_cons_of_length_eq_add_one hlen
  rw [zipIdx_cons, head?_cons, any_some, ← zipIdx_cons, getLast?_zipIdx, hlen]
  obtain ⟨last, hlast⟩ := Option.isSome_iff_exists.mp (getLast?_isSome.mpr (cons_ne_nil first rest))
  rw [hlast, map_some, any_some, decide_eq_true_eq]
  omega

lemma validateMemoryGroupCompleteness_ok (hlog : log.changes = pre ++ selected ++ post)
    (hpre : Cut (pre.map changeGroupId) ((selected ++ post).map changeGroupId))
    (hpost : Cut (selected.map changeGroupId) (post.map changeGroupId)) :
    validateMemoryGroupCompleteness payloadSize log.changes selected = .ok () := by
  refine Except.checkAll_eq_ok.mpr fun g hg => ?_
  obtain ⟨change, hchg, hkey⟩ := mem_filterMap.mp (mem_dedup.mp hg)
  have hin := mem_map.mpr ⟨change, hchg, hkey⟩
  refine validateMemoryGroup_ok h hlog hin (fun hbef => hpre g hbef ?_) (hpost g hin)
  rw [map_append]
  exact mem_append_left _ hin

end

/-! ### One page -/

/-- A cursor stands between two parts of the log, and no group is parted there. -/
structure ChangeLog.CursorAt (log : ChangeLog) (after : UInt64) (pre rest : List MemoryChange) :
    Prop where
  split : log.changes = pre ++ rest
  before : ∀ change ∈ pre, change.sequence ≤ after
  behind : ∀ change ∈ rest, after < change.sequence
  cut : Cut (pre.map MemoryChange.changeGroupId) (rest.map MemoryChange.changeGroupId)
  head : after ≤ log.nextSequence

variable {after : UInt64} {pre rest : List MemoryChange} {limit : ℕ}

/-- **One page**: the call succeeds, the page keeps its bounds, it is not empty unless the log
is at its end, and the watermark is the cursor behind it. -/
lemma delta_ok (h : log.IsDeliverable payloadSize) (hat : log.CursorAt after pre rest)
    (hlim : 1 ≤ limit) (hmax : limit + maxItemChangeGroupSize ≤ usizeMax) :
    ∃ page k, log.delta payloadSize after limit = .ok page ∧
      page.changes = (rest.take k).map (·.change) ∧ k ≤ rest.length ∧
      page.hasMore = decide (k < rest.length) ∧
      (rest ≠ [] → 0 < k) ∧ k ≤ limit + (maxItemChangeGroupSize - 1) ∧
      ((rest.take k).map (bytes payloadSize)).sum ≤ maxItemDeltaPagePayloadBytes ∧
      log.CursorAt page.watermark (pre ++ rest.take k) (rest.drop k) := by
  have hfit : RowsFit (deltaRows payloadSize rest) := by
    refine h.rowsFit.sublist (.map _ ?_)
    rw [hat.split]
    exact sublist_append_right _ _
  obtain ⟨k, hk, ⟨hlen, hcut, hsum⟩, hle, hpos⟩ := deliveryBoundedDeltaPrefixLen_ok hfit hlim hmax
  simp only [map_take, map_drop, map_fst_deltaRows, map_snd_deltaRows, Nat.zero_add] at hk hcut hsum
  simp only [← map_take, ← map_drop] at hk hcut hsum
  rw [deltaRows, length_map] at hlen
  replace hpos : rest ≠ [] → 0 < k := fun hne => hpos (by simpa [deltaRows] using hne)
  have hspl : log.changes = pre ++ rest.take k ++ rest.drop k := by
    rw [append_assoc, take_append_drop, hat.split]
  have hfst : (log.changes.takeWhile fun change => decide (change.sequence ≤ after)) = pre := by
    rw [hat.split, takeWhile_append_of_pos fun change hchg =>
      decide_eq_true (hat.before change hchg)]
    cases hrest : rest with
    | nil => simp
    | cons first others =>
      have := hat.behind first (hrest ▸ mem_cons_self)
      rw [takeWhile_cons_of_neg (by simpa using this), append_nil]
  have hdropFirst : log.changes.drop pre.length = rest := by rw [hat.split, drop_left]
  have hselected : (rest.take (limit + maxItemChangeGroupSize)).take k = rest.take k := by
    rw [take_take, min_eq_left (by omega)]
  have hszs : (rest.take (limit + maxItemChangeGroupSize)).mapM
      (fun change => payloadSize change.change) =
      some ((rest.take (limit + maxItemChangeGroupSize)).map (bytes payloadSize)) :=
    h.mapM_payloadSize id fun change hchg =>
      hat.split ▸ mem_append_right _ (mem_of_mem_take hchg)
  have hcompl := validateMemoryGroupCompleteness_ok h hspl
    (by rw [take_append_drop]; exact hat.cut) hcut
  refine ⟨⟨(rest.take k).map (·.change),
    (((rest.take (limit + maxItemChangeGroupSize))[k - 1]?).map (·.sequence)).getD after,
    decide (k < rest.length)⟩, k, ?_, rfl, hlen, rfl, hpos, hle, hsum, ?_⟩
  · unfold ChangeLog.delta
    rw [if_neg (UInt64.not_lt.mpr hat.head), hfst, if_neg, hdropFirst, checkedAdd_of_le hmax]
    · simp only [okOr, bind, Except.bind]
      rw [hszs]
      dsimp only
      rw [hk]
      dsimp only
      rw [hselected, hcompl]
      rfl
    · -- the cursor does not part a group
      rintro ⟨hpre, -, hsome, heq⟩
      dsimp only at hsome heq
      obtain ⟨g, hg⟩ := Option.isSome_iff_exists.mp hsome
      rw [hg] at heq
      rw [hat.split, getElem?_append_right le_rfl] at hg
      rw [hat.split, getElem?_append_left (by omega)] at heq
      obtain ⟨next, hnext, hkey⟩ := Option.bind_eq_some_iff.mp hg
      obtain ⟨last, hlast, hkey'⟩ := Option.bind_eq_some_iff.mp heq.symm
      exact hat.cut g (mem_map.mpr ⟨last, mem_of_getElem? hlast, hkey'⟩)
        (mem_map.mpr ⟨next, mem_of_getElem? hnext, hkey⟩)
  · have hcutAll : Cut ((pre ++ rest.take k).map changeGroupId)
        ((rest.drop k).map changeGroupId) := by
      rw [map_append]
      refine hcut.append_left ?_
      rw [← map_append, take_append_drop]
      exact hat.cut
    rw [getElem?_take_of_lt (by omega)]
    cases k with
    | zero =>
      -- the end of the log
      have hnil : rest = [] := by
        by_contra hne
        exact absurd (hpos hne) (lt_irrefl 0)
      subst hnil
      exact ⟨hspl, by simpa using hat.before, by simp, hcutAll, hat.head⟩
    | succ m =>
      have hlast : m < rest.length := by omega
      have hkeep := take_succ_eq_append_getElem hlast
      rw [hkeep, ← append_assoc] at hspl hcutAll ⊢
      have hpair := pairwise_map.mp h.increasing
      rw [hspl, pairwise_append, pairwise_append] at hpair
      obtain ⟨⟨-, -, hbef⟩, -, hbehind⟩ := hpair
      have hin : rest[m] ∈ pre ++ rest.take m ++ [rest[m]] :=
        mem_append_right _ (mem_singleton_self _)
      rw [Nat.add_sub_cancel, getElem?_eq_getElem hlast, map_some, getD_some]
      refine ⟨hspl, fun change hchg => ?_, hbehind _ hin, hcutAll,
        h.head _ (hspl ▸ mem_append_left _ hin)⟩
      rcases mem_append.mp hchg with hbefore' | hlast'
      · exact UInt64.le_of_lt (hbef change hbefore' _ (mem_singleton_self _))
      · exact mem_singleton.mp hlast' ▸ UInt64.le_refl _

/-! ### All pages -/

/-- **Paging from a cursor** delivers the rest of the log. -/
lemma readPages_ok (h : log.IsDeliverable payloadSize) {limits : ℕ → ℕ}
    (hlimits : ∀ k, 1 ≤ limits k ∧ limits k + maxItemChangeGroupSize ≤ usizeMax)
    {calls k : ℕ} (hat : log.CursorAt after pre rest) (hcalls : rest.length < calls) :
    ∃ pages, ∃ chunks : List (List MemoryChange),
      log.readPages payloadSize limits calls k after = .ok pages ∧
      pages.map (·.changes) = chunks.map (List.map (·.change)) ∧
      chunks.flatten = rest ∧ (rest ≠ [] → ∀ chunk ∈ chunks, chunk ≠ []) ∧
      (∃ init last, pages = init ++ [last] ∧ last.hasMore = false ∧
        ∀ page ∈ init, page.hasMore = true) ∧
      (∀ i chunk, chunks[i]? = some chunk →
        chunk.length ≤ limits (k + i) + (maxItemChangeGroupSize - 1) ∧
        (chunk.map (bytes payloadSize)).sum ≤ maxItemDeltaPagePayloadBytes) ∧
      chunks.Pairwise fun a b =>
        Cut (a.map changeGroupId) (b.map changeGroupId) := by
  induction calls generalizing k after pre rest with
  | zero => omega
  | succ calls ih =>
    obtain ⟨page, n, hpage, hchgs, hn, hmore, hpos, hle, hsum, hnext⟩ :=
      delta_ok h hat (hlimits k).1 (hlimits k).2
    have hrows : (rest.take n).length ≤ limits k + (maxItemChangeGroupSize - 1) := by
      rw [length_take]
      omega
    rw [ChangeLog.readPages, hpage]
    simp only [bind, Except.bind]
    by_cases hend : n < rest.length
    · -- the page ends inside the log: the other calls go on from its cursor
      have hne : rest ≠ [] := ne_nil_of_length_pos (by omega)
      have hnpos := hpos hne
      obtain ⟨pages, chunks, hpages, hmap, hflatten, hchunks, ⟨init, last, rfl, hlast, hinit⟩,
        hbds, hpw⟩ := ih hnext (by rw [length_drop]; omega)
      have hdropNe : rest.drop n ≠ [] := ne_nil_of_length_pos (by rw [length_drop]; omega)
      rw [hmore, if_pos (decide_eq_true hend), hpages]
      refine ⟨page :: (init ++ [last]), rest.take n :: chunks, rfl, ?_, ?_, fun _ => ?_,
        ⟨page :: init, last, rfl, hlast, ?_⟩, fun i chunk hchunk => ?_, ?_⟩
      · rw [map_cons, map_cons, hmap, hchgs]
      · rw [flatten_cons, hflatten, take_append_drop]
      · refine forall_mem_cons.mpr ⟨fun hnil => ?_, hchunks hdropNe⟩
        have := congrArg List.length hnil
        rw [length_take, length_nil] at this
        omega
      · exact forall_mem_cons.mpr ⟨by rw [hmore, decide_eq_true hend], hinit⟩
      · cases i with
        | zero =>
          cases hchunk
          exact ⟨hrows, hsum⟩
        | succ i =>
          rw [show k + (i + 1) = k + 1 + i by omega]
          exact hbds i chunk hchunk
      · refine pairwise_cons.mpr ⟨fun chunk hchunk g hg hin => ?_, hpw⟩
        refine hnext.cut g ?_ ?_
        · rw [map_append]
          exact mem_append_right _ hg
        · obtain ⟨change, hchg, hkey⟩ := mem_map.mp hin
          exact mem_map.mpr ⟨change, hflatten ▸ mem_flatten_of_mem hchunk hchg, hkey⟩
    · -- the page is the last one
      have hall : rest.take n = rest := take_of_length_le (by omega)
      rw [hmore, if_neg (by simpa using hend)]
      refine ⟨[page], [rest.take n], rfl, by rw [map_singleton, map_singleton, hchgs],
        by simp [hall], fun hne => ?_, ⟨[], page, rfl, by rw [hmore, decide_eq_false hend], nofun⟩,
        fun i chunk hchunk => ?_, pairwise_singleton _ _⟩
      · rw [hall]
        exact forall_mem_singleton.mpr hne
      · cases i with
        | zero =>
          cases hchunk
          exact ⟨hrows, hsum⟩
        | succ i => cases hchunk

/-- **Paging is complete, atomic and makes progress.** Read from cursor `0` with any limits
from `1` on that leave room for a group, the pages of a deliverable log are exactly the log
in order: it is cut into chunks, one for every page, none of which is empty unless the log
is; all calls succeed, and the last page alone says that there is no more. The chunk of a
call keeps its bounds, and no group has rows in two chunks. -/
theorem paging_complete (h : log.IsDeliverable payloadSize) {limits : ℕ → ℕ}
    (hlimits : ∀ k, 1 ≤ limits k ∧ limits k + maxItemChangeGroupSize ≤ usizeMax) :
    ∃ pages, ∃ chunks : List (List MemoryChange),
      log.readPages payloadSize limits (log.changes.length + 1) 0 0 = .ok pages ∧
      pages.map ItemDeltaPage.changes = chunks.map (List.map MemoryChange.change) ∧
      chunks.flatten = log.changes ∧ (log.changes ≠ [] → ∀ chunk ∈ chunks, chunk ≠ []) ∧
      (∃ init last, pages = init ++ [last] ∧ last.hasMore = false ∧
        ∀ page ∈ init, page.hasMore = true) ∧
      (∀ i chunk, chunks[i]? = some chunk → chunk.length ≤ limits i + (maxItemChangeGroupSize - 1) ∧
        (chunk.map (bytes payloadSize)).sum ≤ maxItemDeltaPagePayloadBytes) ∧
      chunks.Pairwise fun a b =>
        Cut (a.map MemoryChange.changeGroupId) (b.map MemoryChange.changeGroupId) := by
  have hst : log.CursorAt 0 [] log.changes :=
    ⟨rfl, by simp, h.positive, Cut.nil_left, UInt64.zero_le⟩
  have hpages := readPages_ok h hlimits (k := 0) hst (Nat.lt_succ_self log.changes.length)
  simp only [Nat.zero_add] at hpages
  exact hpages

end

namespace Sample

def hundredBytes : DeltaChange → Option ℕ := fun _ => some 100

/-- A task is created, then one below it, and the second is deleted. The rows of a request
form a group; the last row is of no group. -/
def familyLog : ChangeLog where
  changes := [⟨1, some (Uuid.ofNat 7), .upsert (task 1 none .planned)⟩,
    ⟨2, some (Uuid.ofNat 8), .upsert (task 2 (some 1) .planned)⟩,
    ⟨3, some (Uuid.ofNat 8), .upsert (task 1 none .planned)⟩,
    ⟨4, some (Uuid.ofNat 9), .tombstone ⟨Uuid.ofNat 2, 2, .atSecond 60, some (Uuid.ofNat 1)⟩⟩,
    ⟨5, some (Uuid.ofNat 9), .upsert (task 1 none .planned)⟩,
    ⟨6, none, .upsert (task 3 none .planned)⟩]
  nextSequence := 6

lemma familyLog_isDeliverable : familyLog.IsDeliverable hundredBytes where
  increasing := by decide
  positive := by decide
  head := by decide
  contiguous := by decide
  group_size g := le_trans count_le_length (by decide)
  group_bytes g := le_trans (List.Sublist.sum_le_sum (filter_sublist.map _)
    fun _ _ => Nat.zero_le _) (by decide)
  row_bytes _ _ := ⟨100, rfl, by decide⟩

end Sample

/-- Asked for one row at a time, a log of four groups comes on four pages, and no group is on
two of them. -/
theorem paging_complete_familyLog : ∃ pages, ∃ chunks : List (List MemoryChange),
    familyLog.readPages hundredBytes (fun _ => 1) 7 0 0 = .ok pages ∧
      pages.map ItemDeltaPage.changes = chunks.map (List.map MemoryChange.change) ∧
      chunks.flatten = familyLog.changes ∧
      pages.map (fun page => (page.changes.length, page.hasMore)) =
        [(1, true), (2, true), (2, true), (1, false)] := by
  obtain ⟨pages, chunks, hpages, hmap, hflat, -⟩ := paging_complete familyLog_isDeliverable
    (fun _ => (by decide : 1 ≤ 1 ∧ 1 + maxItemChangeGroupSize ≤ usizeMax))
  have hread : ∃ pages, familyLog.readPages hundredBytes (fun _ => 1) 7 0 0 = .ok pages ∧
      pages.map (fun page => (page.changes.length, page.hasMore)) =
        [(1, true), (2, true), (2, true), (1, false)] := by
    decide +kernel
  obtain ⟨read, hok, hsizes⟩ := hread
  cases hpages.symm.trans hok
  exact ⟨pages, chunks, hpages, hmap, hflat, hsizes⟩

/-- A limit near the largest machine word is refused, although the log can be delivered. -/
theorem not_paging_hugeLimit : familyLog.IsDeliverable hundredBytes ∧ 1 ≤ usizeMax ∧
    familyLog.delta hundredBytes 0 usizeMax = .error .internal :=
  ⟨familyLog_isDeliverable, by decide, by decide +kernel⟩

end DayWeave.Server
