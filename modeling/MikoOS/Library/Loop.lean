import Mathlib

/-!
# Loops with an exit value

A body maps a state to the next state or to the value with which the loop is left. `run` iterates it
a bounded number of times. The measure rule turns a step lemma into termination together with a
postcondition of the exit value, for every sufficient bound.
-/

namespace Loop

variable {σ ρ : Type} {body : σ → σ ⊕ ρ}

def run (body : σ → σ ⊕ ρ) : ℕ → σ → Option ρ
  | 0, _ => none
  | fuel + 1, s =>
    match body s with
    | .inl s' => run body fuel s'
    | .inr r => some r

theorem run_continue {fuel : ℕ} {s s' : σ} (h : body s = .inl s') :
    run body (fuel + 1) s = run body fuel s' := by
  rw [run, h]

theorem run_exit {fuel : ℕ} {s : σ} {r : ρ} (h : body s = .inr r) :
    run body (fuel + 1) s = some r := by
  rw [run, h]

/-- More iterations than needed change nothing. -/
theorem run_mono {fuel more : ℕ} (hle : fuel ≤ more) {s : σ} {r : ρ} (h : run body fuel s = some r) :
    run body more s = some r := by
  induction fuel generalizing more s with
  | zero => simp [run] at h
  | succ fuel ih =>
    obtain ⟨k, rfl⟩ : ∃ k, more = k + 1 := ⟨more - 1, by omega⟩
    cases hbody : body s with
    | inl s' =>
      rw [run_continue hbody] at h ⊢
      exact ih (by omega) h
    | inr r' =>
      rw [run_exit hbody] at h ⊢
      exact h

/-- An invariant that every iteration keeps while it lowers `measure` ends in `Q`. -/
theorem run_of_measure (I : σ → Prop) (Q : ρ → Prop) (measure : σ → ℕ)
    (hstep : ∀ s, I s → (body s).elim (fun s' => I s' ∧ measure s' < measure s) Q)
    {fuel : ℕ} {s : σ} (hs : I s) (hfuel : measure s < fuel) : ∃ r, run body fuel s = some r ∧ Q r := by
  induction fuel generalizing s with
  | zero => exact absurd hfuel (Nat.not_lt_zero _)
  | succ fuel ih =>
    have hbody := hstep s hs
    cases h : body s with
    | inl s' =>
      rw [h] at hbody
      obtain ⟨hs', hlt⟩ := hbody
      rw [run_continue h]
      exact ih hs' (by omega)
    | inr r =>
      rw [h] at hbody
      exact ⟨r, run_exit h, hbody⟩

/-- Partial correctness: an invariant and what it gives at the exit. -/
theorem run_of_invariant (I : σ → Prop) (Q : ρ → Prop)
    (hstep : ∀ s, I s → (body s).elim I Q) {fuel : ℕ} {s : σ} {r : ρ} (hs : I s)
    (hr : run body fuel s = some r) : Q r := by
  induction fuel generalizing s with
  | zero => simp [run] at hr
  | succ fuel ih =>
    have hbody := hstep s hs
    cases h : body s with
    | inl s' =>
      rw [h] at hbody
      rw [run_continue h] at hr
      exact ih hbody hr
    | inr r' =>
      rw [h] at hbody
      rw [run_exit h, Option.some.injEq] at hr
      exact hr ▸ hbody

/-- `k` iterations that do not leave the loop lead from one state to another. -/
def Steps (body : σ → σ ⊕ ρ) : ℕ → σ → σ → Prop
  | 0, s, t => s = t
  | k + 1, s, t => ∃ u, body s = .inl u ∧ Steps body k u t

theorem Steps.append {j k : ℕ} {s t u : σ} (h : Steps body j s t) (hrest : Steps body k t u) :
    Steps body (j + k) s u := by
  induction j generalizing s with
  | zero =>
    rw [Nat.zero_add, h]
    exact hrest
  | succ j ih =>
    obtain ⟨v, hbody, hsteps⟩ := h
    rw [Nat.add_right_comm]
    exact ⟨v, hbody, ih hsteps⟩

theorem Steps.single {s t : σ} (h : body s = .inl t) : Steps body 1 s t := ⟨t, h, rfl⟩

theorem run_of_steps {k fuel : ℕ} {s t : σ} (h : Steps body k s t) :
    run body (k + fuel) s = run body fuel t := by
  induction k generalizing s with
  | zero => rw [Nat.zero_add, h]
  | succ k ih =>
    obtain ⟨u, hbody, hrest⟩ := h
    rw [Nat.add_right_comm, run_continue hbody, ih hrest]

end Loop
