import Mathlib.Data.List.Nodup
import Mathlib.Data.List.Perm.Subperm
import DayWeave.Lib.Loop

/-!
Searches with a stack.

A round visits the element on top of the stack and pushes its successors. If every element has at
most one predecessor no element is visited twice, as many rounds as there are elements are enough,
and in the end exactly the reachable elements have been visited (`run_spec`).
-/

open List Relation

namespace Search

variable {α β : Type*} {next : β → List β} {start : List β} {a : β}

/-- One round; the state is the stack and the list of the elements visited. -/
def step (next : β → List β) (s : List β × List β) : Option (List β × List β) :=
  match s.1 with
  | [] => none
  | b :: rest => some (next b ++ rest, s.2 ++ [b])

/-- The search from some elements. -/
def run (next : β → List β) (rounds : ℕ) (start : List β) : List β × List β :=
  Loop.run (step next) rounds (start, [])

/-- The element is reachable from some elements. -/
def Reaches (next : β → List β) (start : List β) (b : β) : Prop :=
  ∃ a ∈ start, ReflTransGen (fun a b => b ∈ next a) a b

lemma reaches_start (h : a ∈ start) : Reaches next start a := ⟨a, h, .refl⟩

lemma Reaches.tail {b : β} (h : Reaches next start a) (hb : b ∈ next a) : Reaches next start b := by
  obtain ⟨c, hc, hca⟩ := h
  exact ⟨c, hc, hca.tail hb⟩

/-- Every element has at most one predecessor, and the first elements have none: `key`
names elements, and `parent` is the name of the predecessor. -/
structure IsForest (next : β → List β) (key : β → α) (parent : α → Option α) (nodes : List α)
    (start : List β) : Prop where
  start_nodup : (start.map key).Nodup
  start_mem : ∀ a ∈ start, key a ∈ nodes
  start_fresh : ∀ a, Reaches next start a → ∀ b ∈ next a, key b ∉ start.map key
  next_nodup : ∀ a, ((next a).map key).Nodup
  next_mem : ∀ a, ∀ b ∈ next a, key b ∈ nodes
  parent_eq : ∀ a, ∀ b ∈ next a, parent (key b) = some (key a)

/-- What holds in every round of a walk. -/
structure Invariant (next : β → List β) (key : β → α) (parent : α → Option α) (nodes : List α)
    (start : List β) (s : List β × List β) : Prop where
  nodup : ((s.2 ++ s.1).map key).Nodup
  mem : ∀ b ∈ s.2 ++ s.1, key b ∈ nodes
  origin : ∀ b ∈ s.2 ++ s.1, key b ∈ start.map key ∨ ∃ a ∈ s.2, parent (key b) = some (key a)
  sound : ∀ b ∈ s.2 ++ s.1, Reaches next start b
  first : ∀ a ∈ start, a ∈ s.2 ++ s.1
  closed : ∀ a ∈ s.2, ∀ b ∈ next a, b ∈ s.2 ++ s.1

section

variable {next : β → List β} {key : β → α} {parent : α → Option α} {nodes : List α} {start : List β}

section

variable (h : IsForest next key parent nodes start)

include h

lemma Invariant.init : Invariant next key parent nodes start (start, []) where
  nodup := h.start_nodup
  mem := h.start_mem
  origin _ hb := .inl (mem_map_of_mem hb)
  sound _ hb := reaches_start hb
  first _ ha := ha
  closed _ ha := nomatch ha

/-- A successor of the element on top of the stack is new. -/
lemma Invariant.fresh {rest visited : List β}
    (hi : Invariant next key parent nodes start (a :: rest, visited)) :
    ∀ b ∈ next a, key b ∉ (visited ++ a :: rest).map key := by
  intro b hb hmem
  obtain ⟨c, hc, hkey⟩ := mem_map.mp hmem
  have ha : a ∈ visited ++ a :: rest := mem_append_right _ mem_cons_self
  rcases hi.origin c hc with hst | ⟨d, hd, hpar⟩
  · exact h.start_fresh a (hi.sound a ha) b hb (hkey ▸ hst)
  · -- the predecessor has been visited, but it is on the stack
    have hda : key d = key a := by
      rw [hkey, h.parent_eq a b hb] at hpar
      exact (Option.some.inj hpar).symm
    have hnd := hi.nodup
    rw [map_append, nodup_append] at hnd
    exact hnd.2.2 _ (mem_map_of_mem hd) _ (mem_map_of_mem mem_cons_self) hda

lemma Invariant.step {s s' : List β × List β} (hs : Search.step next s = some s')
    (hi : Invariant next key parent nodes start s) : Invariant next key parent nodes start s' := by
  obtain ⟨pending, visited⟩ := s
  cases pending with
  | nil => cases hs
  | cons a rest =>
    cases hs
    have hfr := hi.fresh h
    have hperm : (visited ++ [a] ++ (next a ++ rest)).Perm (next a ++ (visited ++ a :: rest)) := by
      have : visited ++ [a] ++ (next a ++ rest) = (visited ++ [a]) ++ next a ++ rest := by simp
      rw [this]
      exact (perm_append_comm.append_right rest).trans (List.Perm.of_eq (by simp))
    have ha : a ∈ visited ++ a :: rest := mem_append_right _ mem_cons_self
    have hmem : ∀ b, b ∈ visited ++ [a] ++ (next a ++ rest) ↔
        b ∈ next a ∨ b ∈ visited ++ a :: rest := fun b => by
      rw [hperm.mem_iff, mem_append]
    refine ⟨?_, ?_, ?_, ?_, ?_, ?_⟩
    · rw [(hperm.map key).nodup_iff, map_append, nodup_append]
      refine ⟨h.next_nodup a, hi.nodup, ?_⟩
      rintro k hk l hl rfl
      obtain ⟨b, hb, rfl⟩ := mem_map.mp hk
      exact hfr b hb hl
    · intro b hb
      rcases (hmem b).mp hb with hb | hb
      · exact h.next_mem a b hb
      · exact hi.mem b hb
    · intro b hb
      rcases (hmem b).mp hb with hb | hb
      · exact .inr ⟨a, by simp, h.parent_eq a b hb⟩
      · exact (hi.origin b hb).imp_right fun ⟨c, hc, hpar⟩ =>
          ⟨c, mem_append_left _ hc, hpar⟩
    · intro b hb
      rcases (hmem b).mp hb with hb | hb
      · exact (hi.sound a ha).tail hb
      · exact hi.sound b hb
    · exact fun b hb => (hmem b).mpr (.inr (hi.first b hb))
    · intro c hc b hb
      rcases mem_append.mp hc with hc | hc
      · exact (hmem b).mpr (.inr (hi.closed c hc b hb))
      · rw [mem_singleton.mp hc] at hb
        exact (hmem b).mpr (.inl hb)

end

lemma Invariant.length_le {s : List β × List β} (hi : Invariant next key parent nodes start s) :
    s.2.length + s.1.length ≤ nodes.length := by
  have hsub : ((s.2 ++ s.1).map key) ⊆ nodes := fun k hk => by
    obtain ⟨b, hb, rfl⟩ := mem_map.mp hk
    exact hi.mem b hb
  have := (subperm_of_subset hi.nodup hsub).length_le
  simpa using this

/-- **The walk** visits exactly the reachable elements, each of them once. -/
theorem run_spec (h : IsForest next key parent nodes start) {rounds : ℕ}
    (hrounds : nodes.length ≤ rounds) :
    (run next rounds start).1 = [] ∧ ((run next rounds start).2.map key).Nodup ∧
      ∀ b, b ∈ (run next rounds start).2 ↔ Reaches next start b := by
  have hinit := Invariant.init h
  have hfnl : Invariant next key parent nodes start (run next rounds start) :=
    Loop.run_invariant _ (fun s s' hs hi => hi.step h hs) rounds hinit
  -- every round visits one more of the nodes
  have hstop : Search.step next (run next rounds start) = none := by
    refine Loop.run_stops _
      (fun s s' hs hi => hi.step h hs) (μ := fun s => nodes.length - s.2.length) ?_ hinit
      (by simpa using hrounds)
    intro s s' hi hs
    have hlen := hi.length_le
    obtain ⟨pending, visited⟩ := s
    cases pending with
    | nil => cases hs
    | cons a rest =>
      cases hs
      simp only [length_cons, length_append] at hlen ⊢
      omega
  have hemp : (run next rounds start).1 = [] := by
    unfold Search.step at hstop
    split at hstop
    · assumption
    · cases hstop
  rw [show run next rounds start = ((run next rounds start).1, (run next rounds start).2) from rfl,
    hemp] at hfnl
  refine ⟨hemp, by simpa using hfnl.nodup, fun b => ⟨fun hb => hfnl.sound b (by simpa), ?_⟩⟩
  rintro ⟨a, ha, hab⟩
  induction hab with
  | refl => simpa using hfnl.first a ha
  | tail _ hcb ih => simpa using hfnl.closed _ ih _ hcb

end

end Search
