import Mathlib.Data.Set.Finite.Basic
import Mathlib.Order.WellFounded

/-!
Relations without cycles.

A relation that a rank respects has no cycle (`acyclic_of_rank`). Without cycles every finite set
has an element with no predecessor in the set (`Acyclic.exists_minimal`). Dropping elements of a
list connects no new neighbours (`transGen_of_adjacent_filter`).
-/

namespace Relation

open List

variable {α β : Type*} {r : α → α → Prop} {l : List α} {s : α → α → Prop} {a b : α}

/-- No element comes before itself. -/
def Acyclic (r : α → α → Prop) : Prop := ∀ a, ¬ TransGen r a a

/-- Steps that go up cannot come back. -/
lemma acyclic_of_rank [Preorder β] (rank : α → β) (h : ∀ a b, r a b → rank a < rank b) :
    Acyclic r := by
  intro a ha
  have hlt := ha.lift rank h
  rw [transGen_eq_self] at hlt
  exact lt_irrefl _ hlt

lemma Acyclic.mono (h : Acyclic s) (hrs : ∀ a b, r a b → s a b) : Acyclic r :=
  fun a ha => h a (ha.lift id hrs)

/-- Steps that lead nowhere new close no cycle. -/
lemma Acyclic.of_transGen (h : Acyclic s) (hrs : ∀ a b, r a b → TransGen s a b) : Acyclic r :=
  fun a ha => h a (TransGen.closed hrs a a ha)

lemma Acyclic.swap (h : Acyclic r) : Acyclic fun a b => r b a :=
  fun a ha => h a (transGen_swap.mp ha)

/-- A finite set has an element without predecessors in the set. -/
lemma Acyclic.exists_minimal (h : Acyclic r) {S : Set α} (hfinite : S.Finite) (hne : S.Nonempty) :
    ∃ m ∈ S, ∀ a ∈ S, ¬ r a m := by
  have : Finite S := hfinite
  have : Std.Irrefl fun a b : S => TransGen r a.1 b.1 := ⟨fun a => h a.1⟩
  have hwf : WellFounded fun a b : S => TransGen r a.1 b.1 :=
    Finite.wellFounded_of_trans_of_irrefl _
  obtain ⟨a, ha⟩ := hne
  obtain ⟨m, -, hm⟩ := hwf.has_min Set.univ ⟨⟨a, ha⟩, Set.mem_univ _⟩
  exact ⟨m.1, m.2, fun b hb hr => hm ⟨b, hb⟩ (Set.mem_univ _) (.single hr)⟩

/-- One element stands right before another one. -/
def Adjacent (l : List α) (a b : α) : Prop := (a, b) ∈ l.zip l.tail

lemma Adjacent.cons {c : α} (h : Adjacent l a b) : Adjacent (c :: l) a b := by
  cases l with
  | nil => cases h
  | cons d rest => exact mem_cons_of_mem _ h

lemma adjacent_map {f : α → β} {b b' : β} :
    Adjacent (l.map f) b b' ↔ ∃ a a', Adjacent l a a' ∧ f a = b ∧ f a' = b' := by
  rw [Adjacent, ← map_tail, zip_map, mem_map]
  simp only [Prod.exists, Prod.map_apply, Prod.mk.injEq]
  exact Iff.rfl

lemma transGen_adjacent_cons (h : b ∈ l) : TransGen (Adjacent (a :: l)) a b := by
  induction l generalizing a with
  | nil => cases h
  | cons c rest ih =>
    have hfst : Adjacent (a :: c :: rest) a c := mem_cons_self ..
    rcases mem_cons.mp h with rfl | h
    · exact .single hfst
    · exact .head hfst ((ih h).lift id fun _ _ => Adjacent.cons)

/-- Dropping elements makes no new connections. -/
lemma transGen_of_adjacent_filter {p : α → Bool}
    (h : Adjacent (l.filter p) a b) : TransGen (Adjacent l) a b := by
  induction l with
  | nil => cases h
  | cons c rest ih =>
    rw [filter_cons] at h
    split_ifs at h with hc
    · cases hkept : rest.filter p with
      | nil =>
        rw [hkept] at h
        cases h
      | cons d kept =>
        rw [hkept] at h ih
        rcases mem_cons.mp h with heq | h
        · cases heq
          exact transGen_adjacent_cons (mem_filter.mp (hkept ▸ mem_cons_self ..)).1
        · exact (ih h).lift id fun _ _ => Adjacent.cons
    · exact (ih h).lift id fun _ _ => Adjacent.cons

end Relation
