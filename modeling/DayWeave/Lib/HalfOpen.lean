import Mathlib.Order.Basic
import Mathlib.Data.List.Basic

/-!
Half-open intervals over a total preorder, and the gaps that they leave free.

Two endpoints may be equivalent without being equal, so `later` and `earlier` say which one is
kept. `merge` joins the intervals of a list sorted by start (`merge_covers`), and `gaps` lists
what they leave of a stretch (`not_overlaps_of_mem_gaps`, `gaps_bounds`). `hull` is the stretch
from the first start to the last end of a family.
-/

section

variable {α : Type*} [Preorder α] [DecidableLT α]

/-- The later of two values, the second one if they are equivalent. -/
def later (a b : α) : α := if b < a then a else b

/-- The earlier of two values, the first one if they are equivalent. -/
def earlier (a b : α) : α := if b < a then b else a

lemma le_later_right (a b : α) : b ≤ later a b := by
  unfold later
  split
  · exact le_of_lt ‹_›
  · exact le_rfl

lemma later_lt {a b c : α} (ha : a < c) (hb : b < c) : later a b < c := by
  unfold later
  split <;> assumption

lemma later_le {a b c : α} (ha : a ≤ c) (hb : b ≤ c) : later a b ≤ c := by
  unfold later
  split <;> assumption

lemma earlier_le_left (a b : α) : earlier a b ≤ a := by
  unfold earlier
  split
  · exact le_of_lt ‹_›
  · exact le_rfl

lemma lt_earlier {a b c : α} (ha : c < a) (hb : c < b) : c < earlier a b := by
  unfold earlier
  split <;> assumption

variable [@Std.Total α (· ≤ ·)]

lemma le_later_left (a b : α) : a ≤ later a b := by
  unfold later
  split
  · exact le_rfl
  · exact Std.not_lt.mp ‹_›

lemma earlier_le_right (a b : α) : earlier a b ≤ b := by
  unfold earlier
  split
  · exact le_rfl
  · exact Std.not_lt.mp ‹_›

end

/-- The stretch from `start`, included, to `finish`, excluded. -/
structure HalfOpen (α : Type*) where
  start : α
  finish : α
deriving DecidableEq

namespace HalfOpen

open List

variable {α : Type*} [Preorder α] {a b c : HalfOpen α}

/-- Two intervals share a stretch. -/
def Overlaps (a b : HalfOpen α) : Prop := a.start < b.finish ∧ b.start < a.finish

/-- The second interval lies in the first one. -/
def Contains (a b : HalfOpen α) : Prop := a.start ≤ b.start ∧ b.finish ≤ a.finish

instance [DecidableLT α] (a b : HalfOpen α) : Decidable (a.Overlaps b) :=
  inferInstanceAs (Decidable (_ ∧ _))

instance [DecidableLE α] (a b : HalfOpen α) : Decidable (a.Contains b) :=
  inferInstanceAs (Decidable (_ ∧ _))

lemma overlaps_comm : a.Overlaps b ↔ b.Overlaps a := and_comm

lemma Overlaps.mono (h : a.Overlaps b) (hc : c.Contains b) : a.Overlaps c :=
  ⟨lt_of_lt_of_le h.1 hc.2, lt_of_le_of_lt hc.1 h.2⟩

lemma Contains.trans (h : a.Contains b) (h' : b.Contains c) : a.Contains c :=
  ⟨h.1.trans h'.1, h'.2.trans h.2⟩

/-! ### Clipping -/

variable [DecidableLT α] {a bounds c : HalfOpen α}

/-- The part of an interval inside the bounds, if there is any. -/
def clipped (a bounds : HalfOpen α) : Option (HalfOpen α) :=
  if later a.start bounds.start < earlier a.finish bounds.finish then
    some ⟨later a.start bounds.start, earlier a.finish bounds.finish⟩
  else none

lemma clipped_eq_some (h : a.clipped bounds = some c) :
    c = ⟨later a.start bounds.start, earlier a.finish bounds.finish⟩ ∧ c.start < c.finish := by
  unfold clipped at h
  split at h
  · cases h
    exact ⟨rfl, ‹_›⟩
  · cases h

/-- What meets a non-empty interval inside the bounds meets it in its clipped
part. -/
lemma exists_clipped_of_overlaps (h : a.Overlaps b) (hb : bounds.Contains b)
    (hne : b.start < b.finish) (ha : a.start < a.finish) :
    ∃ c, a.clipped bounds = some c ∧ c.Overlaps b := by
  have hs := later_lt h.1 (lt_of_le_of_lt hb.1 hne)
  have hf := lt_earlier h.2 (lt_of_lt_of_le hne hb.2)
  have hlt := lt_earlier (later_lt ha (lt_of_le_of_lt hb.1 h.2)) (lt_of_lt_of_le hs hb.2)
  exact ⟨_, if_pos hlt, hs, hf⟩

lemma clipped_contains [@Std.Total α (· ≤ ·)]
    (h : a.clipped bounds = some c) : a.Contains c ∧ bounds.Contains c := by
  obtain ⟨rfl, -⟩ := clipped_eq_some h
  exact ⟨⟨le_later_left _ _, earlier_le_left _ _⟩, ⟨le_later_right _ _, earlier_le_right _ _⟩⟩

/-! ### Common points -/

omit [DecidableLT α] in
/-- Two intervals have a point in common. -/
def Meets (a b : HalfOpen α) : Prop :=
  ∃ t, (a.start ≤ t ∧ t < a.finish) ∧ b.start ≤ t ∧ t < b.finish

lemma meets_iff [@Std.Total α (· ≤ ·)] :
    a.Meets b ↔ later a.start b.start < earlier a.finish b.finish := by
  constructor
  · rintro ⟨t, ⟨has, haf⟩, hbs, hbf⟩
    exact lt_of_le_of_lt (later_le has hbs) (lt_earlier haf hbf)
  · intro h
    exact ⟨later a.start b.start, ⟨le_later_left _ _, h.trans_le (earlier_le_left _ _)⟩,
      le_later_right _ _, h.trans_le (earlier_le_right _ _)⟩

instance [@Std.Total α (· ≤ ·)] (a b : HalfOpen α) : Decidable (a.Meets b) :=
  decidable_of_iff _ meets_iff.symm

/-! ### Merging -/

section

variable [DecidableLE α] {l : List (HalfOpen α)}

/-- Joins the intervals of a list to `last` as long as they start before it
ends. -/
def mergeInto (last : HalfOpen α) : List (HalfOpen α) → List (HalfOpen α)
  | [] => [last]
  | i :: rest =>
    if i.start ≤ last.finish then mergeInto ⟨last.start, later last.finish i.finish⟩ rest
    else last :: mergeInto i rest

/-- The maximal stretches covered by the intervals of a list sorted by start. -/
def merge : List (HalfOpen α) → List (HalfOpen α)
  | [] => []
  | i :: rest => mergeInto i rest

/-- The intervals of a list follow each other by start. -/
abbrev SortedByStart (l : List (HalfOpen α)) : Prop := l.Pairwise fun a b => a.start ≤ b.start

lemma exists_ends_of_mem_mergeInto {last m : HalfOpen α} (hm : m ∈ mergeInto last l) :
    (∃ i ∈ last :: l, m.start = i.start) ∧ ∃ i ∈ last :: l, m.finish = i.finish := by
  induction l generalizing last with
  | nil =>
    rw [mem_singleton.mp hm]
    exact ⟨⟨last, mem_cons_self .., rfl⟩, ⟨last, mem_cons_self .., rfl⟩⟩
  | cons i rest ih =>
    rw [mergeInto] at hm
    split at hm
    · obtain ⟨hst, hfin⟩ := ih hm
      simp only [exists_mem_cons_iff] at hst hfin ⊢
      refine ⟨hst.imp_right .inr, ?_⟩
      unfold later at hfin
      split at hfin
      · exact hfin.imp_right .inr
      · exact .inr hfin
    · rcases mem_cons.mp hm with rfl | hm
      · exact ⟨⟨m, mem_cons_self .., rfl⟩, ⟨m, mem_cons_self .., rfl⟩⟩
      · exact (ih hm).imp exists_mem_cons_of_exists exists_mem_cons_of_exists

lemma exists_ends_of_mem_merge {m : HalfOpen α} (hm : m ∈ merge l) :
    (∃ i ∈ l, m.start = i.start) ∧ ∃ i ∈ l, m.finish = i.finish := by
  cases l with
  | nil => cases hm
  | cons i rest => exact exists_ends_of_mem_mergeInto hm

lemma sortedByStart_mergeInto {last : HalfOpen α}
    (hl : SortedByStart (last :: l)) : SortedByStart (mergeInto last l) := by
  induction l generalizing last with
  | nil => exact pairwise_singleton _ _
  | cons i rest ih =>
    obtain ⟨hlast, hrest⟩ := pairwise_cons.mp hl
    rw [mergeInto]
    split
    · refine ih (pairwise_cons.mpr ⟨fun j hj => ?_, (pairwise_cons.mp hrest).2⟩)
      exact hlast j (mem_cons_of_mem _ hj)
    · refine pairwise_cons.mpr ⟨fun m hm => ?_, ih hrest⟩
      obtain ⟨j, hj, hst⟩ := (exists_ends_of_mem_mergeInto hm).1
      exact hst ▸ hlast j hj

lemma sortedByStart_merge (hl : SortedByStart l) : SortedByStart (merge l) := by
  cases l with
  | nil => exact List.Pairwise.nil
  | cons i rest => exact sortedByStart_mergeInto hl

variable [@Std.Total α (· ≤ ·)] {l : List (HalfOpen α)} {i : HalfOpen α} {last m : HalfOpen α}
  {t : α}

lemma mergeInto_covers (hl : SortedByStart (last :: l)) (hi : i ∈ last :: l) :
    ∃ m ∈ mergeInto last l, m.Contains i := by
  induction l generalizing last i with
  | nil =>
    rw [mem_singleton] at hi
    exact ⟨last, mem_singleton_self _, hi ▸ ⟨le_rfl, le_rfl⟩⟩
  | cons j rest ih =>
    obtain ⟨hlast, hrest⟩ := pairwise_cons.mp hl
    rw [mergeInto]
    split
    · have hsort : SortedByStart (⟨last.start, later last.finish j.finish⟩ :: rest) :=
        pairwise_cons.mpr ⟨fun k hk => hlast k (mem_cons_of_mem _ hk), (pairwise_cons.mp hrest).2⟩
      -- `last` and `j` are both swallowed by the joined interval
      rcases mem_cons.mp hi with rfl | hi
      · obtain ⟨m, hm, hc⟩ := ih hsort mem_cons_self
        exact ⟨m, hm, hc.trans ⟨le_rfl, le_later_left _ _⟩⟩
      · rcases mem_cons.mp hi with rfl | hi
        · obtain ⟨m, hm, hc⟩ := ih hsort mem_cons_self
          exact ⟨m, hm, hc.trans ⟨hlast i mem_cons_self, le_later_right _ _⟩⟩
        · exact ih hsort (mem_cons_of_mem _ hi)
    · rcases mem_cons.mp hi with rfl | hi
      · exact ⟨i, mem_cons_self .., le_rfl, le_rfl⟩
      · obtain ⟨m, hm, hc⟩ := ih hrest hi
        exact ⟨m, mem_cons_of_mem _ hm, hc⟩

/-- Every interval of a list sorted by start lies in a merged one. -/
theorem merge_covers (hl : SortedByStart l) (hi : i ∈ l) : ∃ m ∈ merge l, m.Contains i := by
  cases l with
  | nil => cases hi
  | cons j rest => exact mergeInto_covers hl hi

lemma lt_of_mem_mergeInto
    (hl : ∀ i ∈ last :: l, i.start < i.finish) (hm : m ∈ mergeInto last l) :
    m.start < m.finish := by
  induction l generalizing last with
  | nil => exact mem_singleton.mp hm ▸ hl last mem_cons_self
  | cons j rest ih =>
    obtain ⟨hlast, hrest⟩ := forall_mem_cons.mp hl
    rw [mergeInto] at hm
    split at hm
    · refine ih (forall_mem_cons.mpr ⟨?_, (forall_mem_cons.mp hrest).2⟩) hm
      exact hlast.trans_le (le_later_left _ _)
    · rcases mem_cons.mp hm with rfl | hm
      · exact hlast
      · exact ih hrest hm

lemma lt_of_mem_merge (hl : ∀ i ∈ l, i.start < i.finish) (hm : m ∈ merge l) :
    m.start < m.finish := by
  cases l with
  | nil => cases hm
  | cons i rest => exact lt_of_mem_mergeInto hl hm

lemma exists_mem_of_mem_mergeInto (hm : m ∈ mergeInto last l) (ht : m.start ≤ t ∧ t < m.finish) :
    ∃ i ∈ last :: l, i.start ≤ t ∧ t < i.finish := by
  induction l generalizing last with
  | nil => exact ⟨last, mem_cons_self .., mem_singleton.mp hm ▸ ht⟩
  | cons j rest ih =>
    rw [mergeInto] at hm
    split at hm
    · rename_i hjoin
      rcases (exists_mem_cons_iff ..).mp (ih hm) with ⟨hst, hlt⟩ | hrest
      · -- after the end of `last` it is the joined interval that goes on
        by_cases hlast : t < last.finish
        · exact ⟨last, mem_cons_self .., hst, hlast⟩
        · refine ⟨j, mem_cons_of_mem _ mem_cons_self, hjoin.trans (Std.not_lt.mp hlast), ?_⟩
          unfold later at hlt
          split at hlt
          · exact absurd hlt hlast
          · exact hlt
      · exact exists_mem_cons_of_exists (exists_mem_cons_of_exists hrest)
    · rcases mem_cons.mp hm with rfl | hm
      · exact ⟨m, mem_cons_self .., ht⟩
      · exact exists_mem_cons_of_exists (ih hm)

lemma exists_mem_of_mem_merge (hm : m ∈ merge l) (ht : m.start ≤ t ∧ t < m.finish) :
    ∃ i ∈ l, i.start ≤ t ∧ t < i.finish := by
  cases l with
  | nil => cases hm
  | cons i rest => exact exists_mem_of_mem_mergeInto hm ht

end

/-! ### Gaps -/

/-- What the intervals of a list sorted by start leave of the stretch from
`cursor` to `finish`. -/
def gaps (cursor finish : α) : List (HalfOpen α) → List (HalfOpen α)
  | [] => if cursor < finish then [⟨cursor, finish⟩] else []
  | i :: rest =>
    (if cursor < i.start then [⟨cursor, i.start⟩] else []) ++
      gaps (later cursor i.finish) finish rest

variable {l : List (HalfOpen α)} {cursor finish : α} {g : HalfOpen α}

@[simp] lemma mem_gaps_nil :
    g ∈ gaps cursor finish [] ↔ cursor < finish ∧ g = ⟨cursor, finish⟩ := by
  rw [gaps]
  split <;> simp [*]

@[simp] lemma mem_gaps_cons {i : HalfOpen α} : g ∈ gaps cursor finish (i :: l) ↔
    (cursor < i.start ∧ g = ⟨cursor, i.start⟩) ∨ g ∈ gaps (later cursor i.finish) finish l := by
  rw [gaps, mem_append]
  split <;> simp [*]

/-- A gap is not empty and ends in the stretch. -/
theorem gaps_bounds (hl : ∀ i ∈ l, i.start ≤ finish) (hg : g ∈ gaps cursor finish l) :
    g.start < g.finish ∧ g.finish ≤ finish := by
  induction l generalizing cursor with
  | nil =>
    obtain ⟨hlt, rfl⟩ := mem_gaps_nil.mp hg
    exact ⟨hlt, le_rfl⟩
  | cons i rest ih =>
    obtain ⟨hi, hrest⟩ := forall_mem_cons.mp hl
    rcases mem_gaps_cons.mp hg with ⟨hlt, rfl⟩ | hg
    · exact ⟨hlt, hi⟩
    · exact ih hrest hg

/-- A gap starts with the stretch or with the end of an interval. -/
lemma start_of_mem_gaps
    (hg : g ∈ gaps cursor finish l) : g.start = cursor ∨ ∃ i ∈ l, g.start = i.finish := by
  induction l generalizing cursor with
  | nil => exact .inl ((mem_gaps_nil.mp hg).2 ▸ rfl)
  | cons i rest ih =>
    rcases mem_gaps_cons.mp hg with ⟨-, rfl⟩ | hg
    · exact .inl rfl
    · rcases ih hg with hst | ⟨j, hj, hst⟩
      · rw [hst, later]
        split
        · exact .inl rfl
        · exact .inr ⟨i, mem_cons_self .., rfl⟩
      · exact .inr ⟨j, mem_cons_of_mem _ hj, hst⟩

variable [@Std.Total α (· ≤ ·)] {l : List (HalfOpen α)} {cursor finish : α} {h : HalfOpen α}

/-- A part of the stretch that meets none of the intervals lies in a gap. -/
theorem exists_gap_contains (ha : a.start < a.finish) (hst : cursor ≤ a.start)
    (hfin : a.finish ≤ finish) (hl : ∀ i ∈ l, ¬ i.Overlaps a) :
    ∃ g ∈ gaps cursor finish l, g.Contains a := by
  induction l generalizing cursor with
  | nil =>
    rw [gaps, if_pos (hst.trans_lt (ha.trans_le hfin))]
    exact ⟨_, mem_singleton_self _, hst, hfin⟩
  | cons i rest ih =>
    rw [gaps]
    by_cases hbef : a.finish ≤ i.start
    · rw [if_pos (hst.trans_lt (ha.trans_le hbef))]
      exact ⟨_, mem_append_left _ (mem_singleton_self _), hst, hbef⟩
    · have haft := Std.not_lt.mp fun hlt =>
        hl i mem_cons_self ⟨Std.not_le.mp hbef, hlt⟩
      obtain ⟨g, hg, hga⟩ := ih (later_le hst haft) fun j hj => hl j (mem_cons_of_mem _ hj)
      exact ⟨g, mem_append_right _ hg, hga⟩

/-- A point of the stretch that is in none of the intervals lies in a gap. -/
theorem exists_gap_mem {t : α} (hst : cursor ≤ t) (hfin : t < finish)
    (hl : ∀ i ∈ l, ¬ (i.start ≤ t ∧ t < i.finish)) :
    ∃ g ∈ gaps cursor finish l, g.start ≤ t ∧ t < g.finish := by
  induction l generalizing cursor with
  | nil => exact ⟨_, mem_gaps_nil.mpr ⟨hst.trans_lt hfin, rfl⟩, hst, hfin⟩
  | cons i rest ih =>
    obtain ⟨hi, hrest⟩ := forall_mem_cons.mp hl
    by_cases hbef : t < i.start
    · exact ⟨_, mem_gaps_cons.mpr (.inl ⟨hst.trans_lt hbef, rfl⟩), hst, hbef⟩
    · have haft := Std.not_lt.mp fun hlt => hi ⟨Std.not_lt.mp hbef, hlt⟩
      obtain ⟨g, hg, ht⟩ := ih (later_le hst haft) hrest
      exact ⟨g, mem_gaps_cons.mpr (.inr hg), ht⟩

lemma le_start_of_mem_gaps (hg : g ∈ gaps cursor finish l) : cursor ≤ g.start := by
  induction l generalizing cursor with
  | nil => exact (mem_gaps_nil.mp hg).2 ▸ le_rfl
  | cons i rest ih =>
    rcases mem_gaps_cons.mp hg with ⟨-, rfl⟩ | hg
    · exact le_rfl
    · exact (le_later_left _ _).trans (ih hg)

/-- Gaps follow each other, with an interval in between. -/
lemma pairwise_gaps (hl : ∀ i ∈ l, i.start < i.finish) :
    (gaps cursor finish l).Pairwise fun a b => a.finish < b.start := by
  induction l generalizing cursor with
  | nil =>
    rw [gaps]
    split
    · exact pairwise_singleton _ _
    · exact List.Pairwise.nil
  | cons i rest ih =>
    obtain ⟨hi, hrest⟩ := forall_mem_cons.mp hl
    rw [gaps]
    split
    · refine pairwise_cons.mpr ⟨fun g hg => ?_, ih hrest⟩
      exact hi.trans_le ((le_later_right cursor i.finish).trans (le_start_of_mem_gaps hg))
    · exact ih hrest

/-- A gap meets none of the intervals. -/
theorem not_overlaps_of_mem_gaps {i : HalfOpen α} (hl : SortedByStart l)
    (hg : g ∈ gaps cursor finish l) (hi : i ∈ l) : ¬ g.Overlaps i := by
  induction l generalizing cursor with
  | nil => cases hi
  | cons j rest ih =>
    obtain ⟨hj, hrest⟩ := pairwise_cons.mp hl
    rcases mem_gaps_cons.mp hg with ⟨-, rfl⟩ | hg
    · -- the gap before `j` ends where `j`, the first of the rest, starts
      rintro ⟨-, h⟩
      rcases mem_cons.mp hi with rfl | hi
      · exact lt_irrefl _ h
      · exact lt_irrefl _ (lt_of_le_of_lt (hj i hi) h)
    · rcases mem_cons.mp hi with rfl | hi
      · rintro ⟨h, -⟩
        have hle := (le_later_right cursor i.finish).trans (le_start_of_mem_gaps hg)
        exact lt_irrefl _ (lt_of_le_of_lt hle h)
      · exact ih hrest hg hi

/-! ### Hulls -/

omit [@Std.Total α (· ≤ ·)]

/-- The stretch from the earlier start to the later end. -/
def join (a b : HalfOpen α) : HalfOpen α := ⟨earlier a.start b.start, later a.finish b.finish⟩

/-- The stretch from the earliest start to the latest end of a family. -/
def hull : List (HalfOpen α) → Option (HalfOpen α)
  | [] => none
  | a :: rest => some (rest.foldl join a)

@[simp] lemma hull_eq_none : hull l = none ↔ l = [] := by
  cases l <;> simp [hull]

lemma exists_mem_of_foldl_join (l : List (HalfOpen α)) (a : HalfOpen α) :
    (∃ b ∈ a :: l, (l.foldl join a).start = b.start) ∧
      ∃ b ∈ a :: l, (l.foldl join a).finish = b.finish := by
  refine foldlRecOn (motive := fun h : HalfOpen α => (∃ b ∈ a :: l, h.start = b.start) ∧
    ∃ b ∈ a :: l, h.finish = b.finish) l join ⟨⟨a, mem_cons_self, rfl⟩, ⟨a, mem_cons_self, rfl⟩⟩ ?_
  rintro h ⟨hst, hfin⟩ c hc
  simp only [join, earlier, later]
  constructor <;> split
  · exact ⟨c, mem_cons_of_mem _ hc, rfl⟩
  · exact hst
  · exact hfin
  · exact ⟨c, mem_cons_of_mem _ hc, rfl⟩

/-- A hull starts and ends with members of the family. -/
lemma exists_ends_of_hull (hh : hull l = some h) :
    (∃ a ∈ l, h.start = a.start) ∧ ∃ a ∈ l, h.finish = a.finish := by
  cases l with
  | nil => cases hh
  | cons a rest =>
    cases hh
    exact exists_mem_of_foldl_join rest a

variable [@Std.Total α (· ≤ ·)]

lemma foldl_join_contains (l : List (HalfOpen α)) (a : HalfOpen α) (hb : b ∈ a :: l) :
    (l.foldl join a).Contains b := by
  induction l generalizing a b with
  | nil =>
    rw [mem_singleton.mp hb]
    exact ⟨le_rfl, le_rfl⟩
  | cons c rest ih =>
    have hjoin := ih (join a c) mem_cons_self
    rcases mem_cons.mp hb with rfl | hb
    · exact hjoin.trans ⟨earlier_le_left _ _, le_later_left _ _⟩
    · rcases mem_cons.mp hb with rfl | hb
      · exact hjoin.trans ⟨earlier_le_right _ _, le_later_right _ _⟩
      · exact ih (join a c) (mem_cons_of_mem _ hb)

/-- A hull contains the family. -/
theorem hull_contains (hh : hull l = some h) (ha : a ∈ l) : h.Contains a := by
  cases l with
  | nil => cases ha
  | cons b rest =>
    cases hh
    exact foldl_join_contains rest b ha

end HalfOpen
