import Mathlib.Data.List.Induction
import Mathlib.Data.List.Perm.Basic
import Mathlib.Order.Basic

/-!
Computations that may fail.

`require` and `checkAll` are the two forms in which inputs are checked; a chain of checks is taken
apart by `bind_eq_ok`. `foldlM_invariant` carries an invariant through a loop that may fail.
-/

open List

namespace List.Forall₂

variable {α β : Type*} {R : α → β → Prop} {l : List α} {r : List β}

lemma exists_left (h : Forall₂ R l r) {b : β} (hb : b ∈ r) : ∃ a ∈ l, R a b := by
  induction h with
  | nil => cases hb
  | cons hab _ ih =>
    rcases mem_cons.mp hb with rfl | hb
    · exact ⟨_, mem_cons_self .., hab⟩
    · obtain ⟨a, ha, hR⟩ := ih hb
      exact ⟨a, mem_cons_of_mem _ ha, hR⟩

lemma exists_right (h : Forall₂ R l r) {a : α} (ha : a ∈ l) : ∃ b ∈ r, R a b :=
  h.flip.exists_left ha

/-- Functions that agree on partners agree on the lists. -/
lemma map_eq {γ : Type*} {f : α → γ} {g : β → γ} (h : Forall₂ R l r)
    (hR : ∀ a b, R a b → g b = f a) : r.map g = l.map f := by
  induction h with
  | nil => rfl
  | cons hab _ ih => rw [map_cons, map_cons, ih, hR _ _ hab]

lemma exists_of_forall (h : ∀ a ∈ l, ∃ b, R a b) : ∃ r, Forall₂ R l r := by
  induction l with
  | nil => exact ⟨[], .nil⟩
  | cons a rest ih =>
    obtain ⟨b, hb⟩ := h a mem_cons_self
    obtain ⟨r, hr⟩ := ih fun a ha => h a (mem_cons_of_mem _ ha)
    exact ⟨b :: r, .cons hb hr⟩

end List.Forall₂

namespace Except

universe u

variable {ε ι : Type*} {α β σ : Type u} {x : Except ε α} {l : List ι} {f : ι → Except ε α}
  {r : List α} {p : Prop} {s : σ}

section

variable {f : α → Except ε β}

@[simp] lemma bind_eq_ok {b : β} : (x >>= f) = .ok b ↔ ∃ a, x = .ok a ∧ f a = .ok b := by
  cases x <;> simp [bind, Except.bind]

lemma bind_eq_error {error : ε} : (x >>= f) = .error error ↔
    x = .error error ∨ ∃ a, x = .ok a ∧ f a = .error error := by
  cases x <;> simp [bind, Except.bind]

lemma bind_ne_error {error : ε} : (x >>= f) ≠ .error error ↔
    x ≠ .error error ∧ ∀ a, x = .ok a → f a ≠ .error error := by
  cases x <;> simp [bind, Except.bind]

lemma exists_bind_eq_ok {a : α} (hx : x = .ok a) (h : ∃ b, f a = .ok b) : ∃ b, x >>= f = .ok b := by
  obtain ⟨b, hb⟩ := h
  exact ⟨b, bind_eq_ok.mpr ⟨a, hx, hb⟩⟩

end

@[simp] lemma map_eq_ok {f : α → β} {b : β} : x.map f = .ok b ↔ ∃ a, x = .ok a ∧ f a = b := by
  cases x <;> simp [Except.map]

lemma ite_error_eq_ok [Decidable p] {error : ε} {a : α} :
    (if p then .error error else x) = .ok a ↔ ¬ p ∧ x = .ok a := by
  split <;> simp_all

lemma ite_eq_ok [Decidable p] {error : ε} {a : α} :
    (if p then x else .error error) = .ok a ↔ p ∧ x = .ok a := by
  split <;> simp_all

/-- Fails with the given error unless the condition holds. -/
def require (p : Prop) [Decidable p] (error : ε) : Except ε Unit :=
  if p then .ok () else .error error

@[simp] lemma require_eq_ok {p : Prop} [Decidable p] {error : ε} {w : Unit} :
    require p error = .ok w ↔ p := by
  unfold require
  split <;> simp_all

/-- Runs a check on every element of a list, up to the first that fails. -/
def checkAll (check : ι → Except ε Unit) : List ι → Except ε Unit
  | [] => .ok ()
  | a :: rest => check a >>= fun _ => checkAll check rest

@[simp] lemma checkAll_eq_ok {check : ι → Except ε Unit} {w : Unit} :
    checkAll check l = .ok w ↔ ∀ a ∈ l, check a = .ok () := by
  induction l with
  | nil => simp [checkAll]
  | cons a rest ih =>
    rw [checkAll, bind_eq_ok, forall_mem_cons]
    exact ⟨fun ⟨_, ha, hrest⟩ => ⟨ha, ih.mp hrest⟩, fun ⟨ha, hrest⟩ => ⟨(), ha, ih.mpr hrest⟩⟩

/-- Whether a computation succeeds with a value that passes a test. -/
def isOkAnd (x : Except ε α) (p : α → Bool) : Bool :=
  match x with
  | .ok a => p a
  | .error _ => false

lemma isOkAnd_eq_true {p : α → Bool} : x.isOkAnd p = true ↔ ∃ a, x = .ok a ∧ p a = true := by
  cases x <;> simp [isOkAnd]

section

variable {P : α → Prop} {Q : α → β → Prop}

lemma exists_of_isOkAnd [DecidablePred P] :
    x.isOkAnd (fun a => P a) = true ↔ ∃ a, x = .ok a ∧ P a := by
  simp [isOkAnd_eq_true]

lemma exists_exists_ok : (∃ a, x = .ok a ∧ ∃ b, Q a b) ↔ ∃ a b, x = .ok a ∧ Q a b := by
  simp

/-- Whether a computation succeeds with a value that has a property can be evaluated. -/
instance decidableExistsOk [DecidablePred P] : Decidable (∃ a, x = .ok a ∧ P a) :=
  decidable_of_iff _ exists_of_isOkAnd

instance decidableExistsExistsOk [∀ a, Decidable (∃ b, Q a b)] :
    Decidable (∃ a b, x = .ok a ∧ Q a b) :=
  decidable_of_iff _ exists_exists_ok

end

@[simp] lemma mapError_eq_ok {ε' : Type*} {f : ε → ε'} {a : α} :
    x.mapError f = .ok a ↔ x = .ok a := by
  cases x <;> simp [Except.mapError]

lemma mapM_eq_ok : l.mapM f = .ok r ↔ Forall₂ (fun a b => f a = .ok b) l r := by
  induction l generalizing r with
  | nil => simp [pure, Except.pure, eq_comm]
  | cons a rest ih =>
    simp only [mapM_cons, bind_eq_ok, ih, forall₂_cons_left_iff, pure, Except.pure, ok.injEq]
    grind

lemma exists_mapM_eq_ok (h : ∀ a ∈ l, ∃ b, f a = .ok b) : ∃ r, l.mapM f = .ok r := by
  simpa only [mapM_eq_ok] using Forall₂.exists_of_forall h

lemma exists_of_mem_mapM (h : l.mapM f = .ok r) {b : α} (hb : b ∈ r) : ∃ a ∈ l, f a = .ok b :=
  (mapM_eq_ok.mp h).exists_left hb

lemma exists_mem_of_mapM
    (h : l.mapM f = .ok r) {a : ι} (ha : a ∈ l) : ∃ b, f a = .ok b ∧ b ∈ r := by
  obtain ⟨b, hb, hab⟩ := (mapM_eq_ok.mp h).exists_right ha
  exact ⟨b, hab, hb⟩

/-- The order of a list is the order of the values of a successful map. -/
lemma mapM_perm {l' : List ι} (hperm : l.Perm l') (h : l.mapM f = .ok r) :
    ∃ r', l'.mapM f = .ok r' ∧ r'.Perm r := by
  obtain ⟨r', hall, hr⟩ := perm_comp_forall₂ hperm.symm (mapM_eq_ok.mp h)
  exact ⟨r', mapM_eq_ok.mpr hall, hr⟩

/-- A map that fails in one way only fails in that way. -/
lemma mapM_eq_error {e : ε} (hall : ∀ a ∈ l, f a = .error e ∨ ∃ b, f a = .ok b)
    (hfails : ∃ a ∈ l, f a = .error e) : l.mapM f = .error e := by
  induction l with
  | nil => exact absurd hfails (by simp)
  | cons a rest ih =>
    obtain ⟨hhead, htail⟩ := forall_mem_cons.mp hall
    rw [mapM_cons]
    obtain hhead | ⟨b, hb⟩ := hhead
    · rw [hhead]
      rfl
    · have hrest : rest.mapM f = .error e := by
        refine ih htail ?_
        obtain ⟨a', ha', hfails⟩ := hfails
        rcases mem_cons.mp ha' with rfl | ha'
        · cases hb.symm.trans hfails
        · exact ⟨a', ha', hfails⟩
      rw [hb, hrest]
      rfl

variable {f : σ → ι → Except ε σ}

/-- What every successful round of a loop preserves, about the rounds so far, holds after it
succeeded. -/
theorem foldlM_prefix_invariant {P : List ι → σ → Prop}
    (hstep : ∀ pre a s s', (pre ++ [a]) <+: l → f s a = .ok s' → P pre s → P (pre ++ [a]) s')
    {s' : σ} (hrun : l.foldlM f s = .ok s') (h : P [] s) : P l s' := by
  induction l using reverseRecOn generalizing s' with
  | nil =>
    cases hrun
    exact h
  | append_singleton rest a ih =>
    rw [foldlM_append, bind_eq_ok] at hrun
    obtain ⟨t, ht, hlast⟩ := hrun
    refine hstep rest a t s' prefix_rfl (by simpa using hlast) (ih (fun pre b s s' hpre => ?_) ht)
    exact hstep pre b s s' (hpre.trans (prefix_append _ _))

/-- What every successful round of a loop preserves holds after it succeeded. -/
theorem foldlM_invariant {P : σ → Prop} (hstep : ∀ s a s', a ∈ l → f s a = .ok s' → P s → P s')
    {s' : σ} (hrun : l.foldlM f s = .ok s') (h : P s) : P s' := by
  refine foldlM_prefix_invariant (P := fun _ => P) (fun pre a s s' hpre => ?_) hrun h
  exact hstep s a s' (hpre.subset (mem_append_right _ (mem_singleton_self a)))

/-- A loop whose rounds succeed and preserve what is known about the rounds so far succeeds. -/
theorem exists_foldlM {P : List ι → σ → Prop}
    (hstep : ∀ pre a s, (pre ++ [a]) <+: l → P pre s → ∃ s', f s a = .ok s' ∧ P (pre ++ [a]) s')
    (h : P [] s) : ∃ s', l.foldlM f s = .ok s' ∧ P l s' := by
  induction l using reverseRecOn with
  | nil => exact ⟨s, rfl, h⟩
  | append_singleton rest a ih =>
    obtain ⟨t, ht, hP⟩ := ih fun pre b s hpre => hstep pre b s (hpre.trans (prefix_append _ _))
    obtain ⟨s', hs', hP'⟩ := hstep rest a t prefix_rfl hP
    exact ⟨s', by simp [foldlM_append, ht, hs'], hP'⟩

/-- What one round of a loop establishes and every round preserves holds after it
succeeded. -/
theorem foldlM_establishes {P : σ → Prop} (hstep : ∀ s a s', f s a = .ok s' → P s → P s') {a : ι}
    (ha : a ∈ l) (hround : ∀ s s', f s a = .ok s' → P s') {s' : σ} (hrun : l.foldlM f s = .ok s') :
    P s' := by
  obtain ⟨pre, post, rfl⟩ := append_of_mem ha
  rw [foldlM_append, bind_eq_ok] at hrun
  obtain ⟨t, -, hrun⟩ := hrun
  rw [foldlM_cons, bind_eq_ok] at hrun
  obtain ⟨u, hu, hrun⟩ := hrun
  exact foldlM_invariant (fun s b s' _ => hstep s b s') hrun (hround t u hu)

end Except

namespace Option

variable {ι : Type*} {α ε : Type*} {f : ι → Option α} {l : List ι} {r : List α}

/-- The value, or an error where there is none. -/
def okOr (x : Option α) (error : ε) : Except ε α :=
  match x with
  | some a => .ok a
  | none => .error error

@[simp] lemma okOr_eq_ok {x : Option α} {error : ε} {a : α} :
    x.okOr error = .ok a ↔ x = some a := by
  cases x <;> simp [okOr]

lemma mapM_eq_some : l.mapM f = some r ↔ Forall₂ (fun a b => f a = some b) l r := by
  induction l generalizing r with
  | nil => simp [eq_comm]
  | cons a rest ih =>
    simp only [mapM_cons, bind_eq_bind, bind_eq_some_iff, ih, forall₂_cons_left_iff, pure_def,
      some.injEq]
    grind

lemma exists_of_mem_mapM (h : l.mapM f = some r) {b : α} (hb : b ∈ r) : ∃ a ∈ l, f a = some b :=
  (mapM_eq_some.mp h).exists_left hb

lemma exists_mapM_eq_some (h : ∀ a ∈ l, ∃ b, f a = some b) : ∃ r, l.mapM f = some r := by
  simpa only [mapM_eq_some] using Forall₂.exists_of_forall h

lemma filterMap_of_mapM (h : l.mapM f = some r) : l.filterMap f = r := by
  rw [mapM_eq_some] at h
  induction h with
  | nil => rfl
  | cons hab _ ih => rw [filterMap_cons_some hab, ih]

end Option
