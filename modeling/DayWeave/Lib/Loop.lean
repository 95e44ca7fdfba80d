import Mathlib.Order.Basic
import Mathlib.Tactic.Common

/-!
While loops as iterations of a partial step.

The body of a loop maps a state to the next one, or to `none` when the loop stops. What one round
preserves the run preserves (`run_invariant`); if a measure falls in every round, as many rounds
reach the end of the loop (`run_stops`).
-/

namespace Loop

variable {σ : Type*} (body : σ → Option σ)

/-- At most `n` rounds of the loop. -/
def run : ℕ → σ → σ
  | 0, s => s
  | n + 1, s =>
    match body s with
    | none => s
    | some s' => run n s'

lemma run_of_stop {s : σ} (h : body s = none) (n : ℕ) : run body n s = s := by
  cases n with
  | zero => rfl
  | succ n => rw [run, h]

lemma run_succ_of_step {s s' : σ} (h : body s = some s') (n : ℕ) :
    run body (n + 1) s = run body n s' := by
  rw [run, h]

/-- What every round preserves, the loop preserves. -/
theorem run_invariant {P : σ → Prop} (hstep : ∀ s s', body s = some s' → P s → P s')
    (n : ℕ) {s : σ} (h : P s) : P (run body n s) := by
  induction n generalizing s with
  | zero => exact h
  | succ n ih =>
    cases hb : body s with
    | none => rwa [run_of_stop body hb]
    | some s' =>
      rw [run_succ_of_step body hb]
      exact ih (hstep s s' hb h)

/-- A loop whose rounds are those of another one under a map. -/
lemma run_map {τ : Type*} {body : σ → Option σ} {body' : τ → Option τ} (f : σ → τ)
    (h : ∀ s, body' (f s) = (body s).map f) (n : ℕ) (s : σ) :
    run body' n (f s) = f (run body n s) := by
  induction n generalizing s with
  | zero => rfl
  | succ n ih =>
    cases hb : body s with
    | none =>
      have hb' : body' (f s) = none := by rw [h, hb]; rfl
      rw [run_of_stop _ hb, run_of_stop _ hb']
    | some t =>
      have hb' : body' (f s) = some (f t) := by rw [h, hb]; rfl
      rw [run_succ_of_step _ hb, run_succ_of_step _ hb', ih]

section

variable {P : σ → Prop} (hP : ∀ s s', body s = some s' → P s → P s') {μ : σ → ℕ}
  (hμ : ∀ s s', P s → body s = some s' → μ s' < μ s)

include hP hμ

/-- A loop whose measure falls has stopped after as many rounds as the measure
allows. -/
theorem run_stops {n : ℕ} {s : σ} (h : P s) (hn : μ s ≤ n) : body (run body n s) = none := by
  induction n generalizing s with
  | zero =>
    cases hb : body s with
    | none => exact hb
    | some s' =>
      have := hμ s s' h hb
      omega
  | succ n ih =>
    cases hb : body s with
    | none => rw [run_of_stop body hb, hb]
    | some s' =>
      rw [run_succ_of_step body hb]
      exact ih (hP s s' hb h) (by have := hμ s s' h hb; omega)

end

section

variable {ε : Type*} (body : σ → Except ε (Option σ)) {P : σ → Prop} {n : ℕ} {s r : σ}

/-- At most `n` rounds of a loop whose rounds may fail. -/
def runE : ℕ → σ → Except ε σ
  | 0, s => .ok s
  | n + 1, s =>
    match body s with
    | .error e => .error e
    | .ok none => .ok s
    | .ok (some s') => runE n s'

lemma runE_succ_of_step {s' : σ} (h : body s = .ok (some s')) (n : ℕ) :
    runE body (n + 1) s = runE body n s' := by
  rw [runE, h]

/-- What every round preserves, a loop that succeeds preserves. -/
theorem runE_invariant (hstep : ∀ s s', body s = .ok (some s') → P s → P s')
    (hrun : runE body n s = .ok r) (h : P s) : P r := by
  induction n generalizing s with
  | zero =>
    cases hrun
    exact h
  | succ n ih =>
    rw [runE] at hrun
    split at hrun
    · cases hrun
    · cases hrun
      exact h
    · exact ih hrun (hstep s _ ‹_› h)

/-- A loop succeeds if no round fails under what every round preserves. -/
theorem runE_ok (hstep : ∀ s s', body s = .ok (some s') → P s → P s')
    (hok : ∀ s, P s → ∃ r, body s = .ok r) (n : ℕ) (h : P s) : ∃ r, runE body n s = .ok r := by
  induction n generalizing s with
  | zero => exact ⟨s, rfl⟩
  | succ n ih =>
    obtain ⟨r, hr⟩ := hok s h
    cases r with
    | none => exact ⟨s, by rw [runE, hr]⟩
    | some s' =>
      rw [runE_succ_of_step body hr]
      exact ih (hstep s s' hr h)

/-- A loop that succeeds and whose measure falls has come to its end. -/
theorem runE_stops {μ : σ → ℕ} (hμ : ∀ s s', body s = .ok (some s') → μ s' < μ s) (hn : μ s < n)
    (hrun : runE body n s = .ok r) : body r = .ok none := by
  induction n generalizing s with
  | zero => omega
  | succ n ih =>
    rw [runE] at hrun
    split at hrun
    · cases hrun
    · cases hrun
      assumption
    · rename_i s' hs
      exact ih (by have := hμ s s' hs; omega) hrun

end

end Loop
