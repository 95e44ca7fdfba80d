import Mathlib.Data.Finset.Insert
import DayWeave.Lib.Map
import DayWeave.Lib.Result

/-!
Lists of records with distinct keys, and the same records sorted by key.
-/

open List Std

namespace Keyed

/-- A loop over some records that refuses a key that it has met: `f done` is its state after the
records `done`. -/
lemma foldlM_pick_eq_ok {κ β ε α σ : Type*} {key : α → κ} {good : α → Prop} {p : β → Option α}
    {step : σ → β → Except ε σ} {f : List α → σ}
    (hskip : ∀ done b, p b = none → step (f done) b = .ok (f done))
    (hstep : ∀ done b a s, p b = some a → (step (f done) b = .ok s ↔
      good a ∧ key a ∉ done.map key ∧ s = f (done ++ [a]))) {l : List β} {s : σ} :
    l.foldlM step (f []) = .ok s ↔ (∀ a ∈ l.filterMap p, good a) ∧
      ((l.filterMap p).map key).Nodup ∧ s = f (l.filterMap p) := by
  induction l using reverseRecOn generalizing s with
  | nil => simp [eq_comm, pure, Except.pure]
  | append_singleton init b ih =>
    have hlast : ∀ t, [b].foldlM step t = step t b := fun t => by simp
    simp only [foldlM_append, hlast, Except.bind_eq_ok, ih, filterMap_append, and_assoc,
      exists_and_left, exists_eq_left]
    cases hb : p b with
    | none => simp [filterMap_cons_none hb, hskip _ b hb, eq_comm]
    | some a =>
      rw [hstep _ b a s hb, filterMap_cons_some hb, filterMap_nil, forall_mem_append,
        forall_mem_singleton, map_append, map_singleton, (perm_append_singleton _ _).nodup_iff,
        nodup_cons]
      tauto

lemma check_iff {κ α : Type*} [DecidableEq κ] {key : α → κ} {good : α → Prop}
    {c : Finset κ → List α → Prop} (hnil : ∀ seen, c seen [])
    (hcons : ∀ seen a rest, c seen (a :: rest) ↔
      good a ∧ key a ∉ seen ∧ c (insert (key a) seen) rest) {l : List α} {seen : Finset κ} :
    c seen l ↔ (∀ a ∈ l, good a) ∧ (l.map key).Nodup ∧ ∀ a ∈ l, key a ∉ seen := by
  induction l generalizing seen with
  | nil => simp [hnil]
  | cons a rest ih =>
    rw [hcons, ih]
    simp only [forall_mem_cons, map_cons, nodup_cons, mem_map, Finset.mem_insert, not_or,
      not_exists, not_and]
    constructor
    · rintro ⟨hgood, hnew, hall, hnd, hfr⟩
      exact ⟨⟨hgood, hall⟩, ⟨fun b hb => (hfr b hb).1, hnd⟩, hnew, fun b hb => (hfr b hb).2⟩
    · rintro ⟨⟨hgood, hall⟩, ⟨hhead, hnd⟩, hnew, hfr⟩
      exact ⟨hgood, hnew, hall, hnd, fun b hb => ⟨hhead b hb, hfr b hb⟩⟩

variable {κ α β : Type*} [Ord κ] [TransOrd κ] (key : α → κ)

/-- The records by key. -/
def byKey (l : List α) : ExtTreeMap κ α := ExtTreeMap.ofList (l.map fun a => (key a, a))

def sorted (l : List α) : List α := (byKey key l).toList.map Prod.snd

variable {key} {l : List α} {a : α} {k : κ}

lemma foldl_insert_eq_byKey :
    l.foldl (fun m a => m.insert (key a) a) (∅ : ExtTreeMap κ α) = byKey key l := by
  rw [byKey, ExtTreeMap.ofList_eq_foldl, foldl_map]

lemma byKey_concat : byKey key (l ++ [a]) = (byKey key l).insert (key a) a := by
  simp [← foldl_insert_eq_byKey]

variable [LawfulEqOrd κ] {ε : Type*} {good : α → Prop}

lemma mem_byKey : k ∈ byKey key l ↔ k ∈ l.map key := by
  rw [ExtTreeMap.mem_iff_isSome_getElem?, Option.isSome_iff_ne_none, ne_eq, byKey,
    ExtTreeMap.getElem?_ofList_eq_none, map_map, not_not]
  exact Iff.rfl

/-- A loop that checks records one by one and refuses a key that it has seen. -/
lemma foldlM_insert_eq_ok {step : ExtTreeMap κ α → α → Except ε (ExtTreeMap κ α)}
    (hstep : ∀ m a m', step m a = .ok m' ↔ good a ∧ key a ∉ m ∧ m' = m.insert (key a) a)
    {r : ExtTreeMap κ α} : l.foldlM step ∅ = Except.ok r ↔
      (∀ a ∈ l, good a) ∧ (l.map key).Nodup ∧ r = byKey key l := by
  have hrun := @foldlM_pick_eq_ok κ α ε α _ key good some step (byKey key) (by simp)
    (fun done _ a m' h => by
      cases h
      rw [hstep, mem_byKey, byKey_concat]) l r
  rwa [filterMap_some] at hrun

omit [Ord κ] [TransOrd κ] [LawfulEqOrd κ] in
/-- A loop that checks records one by one and keeps the keys that it has seen. -/
lemma foldlM_seen_eq_ok {step : List κ → α → Except ε (List κ)}
    (hstep : ∀ seen a seen', step seen a = .ok seen' ↔
      good a ∧ key a ∉ seen ∧ seen' = key a :: seen) :
    (∃ r, l.foldlM step [] = Except.ok r) ↔ (∀ a ∈ l, good a) ∧ (l.map key).Nodup := by
  have hrun := fun r => @foldlM_pick_eq_ok κ α ε α _ key good some step
    (fun done => (done.map key).reverse) (by simp) (fun done _ a seen h => by
      cases h
      simp [hstep]) l r
  simp only [filterMap_some, map_nil, reverse_nil] at hrun
  simp [hrun]

variable (hnd : (l.map key).Nodup)

include hnd

lemma getElem?_byKey : (byKey key l)[k]? = some a ↔ a ∈ l ∧ key a = k := by
  constructor
  · intro h
    obtain ⟨found, hfnd, heq⟩ := mem_map.mp (ExtTreeMap.mem_of_getElem?_ofList h)
    cases heq
    exact ⟨hfnd, rfl⟩
  · rintro ⟨ha, rfl⟩
    refine ExtTreeMap.getElem?_ofList_of_nodup ?_ (mem_map.mpr ⟨a, ha, rfl⟩)
    rwa [map_map]

lemma mem_sorted : a ∈ sorted key l ↔ a ∈ l := by
  simp [sorted, getElem?_byKey hnd]

lemma byKey_perm {l' : List α} (hperm : l.Perm l') : byKey key l = byKey key l' := by
  refine ExtTreeMap.ext_getElem? fun {k} => Option.ext fun a => ?_
  rw [getElem?_byKey hnd, getElem?_byKey ((hperm.map key).nodup_iff.mp hnd), hperm.mem_iff]

lemma size_byKey : (byKey key l).size = l.length := by
  rw [byKey, ExtTreeMap.size_ofList, length_map]
  rw [pairwise_map]
  exact (pairwise_map.mp hnd).imp fun hne heq => hne (LawfulEqOrd.eq_of_compare heq)

lemma nodup_sorted : ((sorted key l).map key).Nodup := by
  have hkeys : (sorted key l).map key = (byKey key l).keys := by
    rw [sorted, map_map, ← ExtTreeMap.map_fst_toList_eq_keys]
    refine map_congr_left fun entry hent => ?_
    exact ((getElem?_byKey hnd).mp (ExtTreeMap.mem_toList_iff_getElem?_eq_some.mp hent)).2
  rw [hkeys]
  exact ExtTreeMap.nodup_keys

/-- A change of the records that keeps their keys keeps their order. -/
lemma sorted_map {g : α → α} (hg : ∀ a ∈ l, key (g a) = key a) :
    sorted key (l.map g) = (sorted key l).map g := by
  have hmap : byKey key (l.map g) = (byKey key l).map fun _ a => g a := by
    have hkeys : ((l.map g).map key).Nodup := by
      have hcongr : (l.map g).map key = l.map key := by
        rw [map_map]
        exact map_congr_left hg
      exact hcongr ▸ hnd
    refine ExtTreeMap.ext_getElem? fun {k} => Option.ext fun b => ?_
    rw [getElem?_byKey hkeys, ExtTreeMap.getElem?_map, Option.map_eq_some_iff]
    simp only [getElem?_byKey hnd, mem_map]
    constructor
    · rintro ⟨⟨a, ha, rfl⟩, hk⟩
      exact ⟨a, ⟨ha, (hg a ha).symm.trans hk⟩, rfl⟩
    · rintro ⟨a, ⟨ha, hk⟩, rfl⟩
      exact ⟨⟨a, ha, rfl⟩, (hg a ha).trans hk⟩
  rw [sorted, hmap, ExtTreeMap.toList_map, map_map, sorted, map_map]
  rfl

omit [Ord κ] [TransOrd κ] [LawfulEqOrd κ] in
lemma exists_forall_key {r : α → β → Prop} [Inhabited β] (h : ∀ a ∈ l, ∃ b, r a b) :
    ∃ f : κ → β, ∀ a ∈ l, r a (f (key a)) := by
  classical
  choose! g hg using h
  refine ⟨fun k => if hk : ∃ a ∈ l, key a = k then g hk.choose else default, fun a ha => ?_⟩
  have hk : ∃ a' ∈ l, key a' = key a := ⟨a, ha, rfl⟩
  dsimp only
  rw [dif_pos hk, inj_on_of_nodup_map hnd hk.choose_spec.1 ha hk.choose_spec.2]
  exact hg a ha

end Keyed

/-- In a list with distinct keys, what a record is mapped to is found by its key. -/
lemma List.find?_filterMap_of_nodup {α β κ : Type*} [DecidableEq κ] {key : α → κ} {l : List α}
    {f : α → Option β} {key' : β → κ} (hnd : (l.map key).Nodup)
    (hkey : ∀ a ∈ l, ∀ b ∈ f a, key' b = key a) {a : α} (ha : a ∈ l) :
    (l.filterMap f).find? (fun b => decide (key' b = key a)) = f a := by
  rw [find?_filterMap]
  cases hfind : l.find? fun c => (f c).any fun b => decide (key' b = key a) with
  | none =>
    have hnone := find?_eq_none.mp hfind a ha
    cases hf : f a with
    | none => rfl
    | some b => simp [hf, hkey a ha b hf] at hnone
  | some c =>
    have hc := mem_of_find?_eq_some hfind
    obtain ⟨b, hb, hkb⟩ := (Option.any_eq_true ..).mp (find?_some (p := fun c => (f c).any _) hfind)
    rw [← inj_on_of_nodup_map hnd hc ha ((hkey c hc b hb).symm.trans (of_decide_eq_true hkb))]
    rfl
