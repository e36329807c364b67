import Mathlib

/-!
# Reference counts over a history

An object is taken from free by its first holder, shared with further ones and dropped by one holder at a
time. A trail is the history of its count, newest entry first. The count of a held object is one for the
movement that took it, plus the shares and minus the drops since. Objects pooled under one total move
that total by as much as their own count.
-/

namespace ReferenceCount

inductive Movement
  | take
  | share
  | drop
  | keep
  deriving DecidableEq, Repr

namespace Movement

/-- The count before and after a movement. -/
def Moves : Movement → ℕ → ℕ → Prop
  | take, m, n => m = 0 ∧ n = 1
  | share, m, n => 0 < m ∧ n = m + 1
  | drop, m, n => m = n + 1
  | keep, m, n => n = m

def gain : Movement → ℕ
  | take => 1
  | share => 1
  | drop => 0
  | keep => 0

def loss : Movement → ℕ
  | take => 0
  | share => 0
  | drop => 1
  | keep => 0

/-- The count after a movement from `m`. -/
def after (v : Movement) (m : ℕ) : ℕ := m + v.gain - v.loss

theorem Moves.balance {v : Movement} {m n : ℕ} (h : v.Moves m n) : n + v.loss = m + v.gain := by
  cases v <;> simp only [Moves, gain, loss] at h ⊢ <;> omega

/-- An object is freed by the drop of its last reference only. -/
theorem Moves.freed_iff {v : Movement} {m n : ℕ} (h : v.Moves m n) (hm : 0 < m) :
    n = 0 ↔ v = drop ∧ m = 1 := by
  cases v <;> simp only [Moves] at h <;> simp <;> omega

end Movement

/-- Counts with the movements made from them, from `first` up to the present count. -/
inductive Trail (first : ℕ) : List (ℕ × Movement) → ℕ → Prop
  | start : Trail first [] first
  | move {l : List (ℕ × Movement)} {m n : ℕ} (v : Movement) (h : Trail first l m)
      (hv : v.Moves m n) : Trail first ((m, v) :: l) n

/-- An object held now was taken from free once, stayed held since then, and has one reference for
that, one for each share and one less for each drop. -/
theorem Trail.tenure {l : List (ℕ × Movement)} {n : ℕ} (h : Trail 0 l n) (hn : 0 < n) :
    ∃ later earlier, l = later ++ (0, .take) :: earlier ∧ (∀ e ∈ later, 0 < e.1) ∧
      n + later.countP (·.2 = .drop) = 1 + later.countP (·.2 = .share) := by
  induction h with
  | start => exact absurd hn (lt_irrefl 0)
  | @move l m n v h hv ih =>
    by_cases hm : 0 < m
    · obtain ⟨later, earlier, rfl, hheld, hcount⟩ := ih hm
      refine ⟨(m, v) :: later, earlier, rfl, ?_, ?_⟩
      · intro e he
        rcases List.mem_cons.mp he with rfl | he
        · exact hm
        · exact hheld e he
      · rw [List.countP_cons, List.countP_cons]
        cases v <;> simp only [Movement.Moves] at hv <;> simp <;> omega
    · obtain rfl : m = 0 := by omega
      cases v with
      | take =>
        obtain ⟨-, rfl⟩ := hv
        exact ⟨[], l, rfl, by simp, rfl⟩
      | share => exact absurd hv.1 hm
      | drop => exact absurd hv (by simp [Movement.Moves])
      | keep =>
        obtain rfl : n = 0 := hv
        exact absurd hn hm

section Pool

variable {ι : Type} {pool : Finset ι} {f g : ι → ℕ} {i : ι} {v : Movement}

/-- One object of a pool moves the total by as much as its own count. -/
theorem sum_moves [DecidableEq ι] (hi : i ∈ pool) (hv : v.Moves (f i) (g i)) (hsame : ∀ j ≠ i, g j = f j) :
    ∑ j ∈ pool, g j = v.after (∑ j ∈ pool, f j) := by
  have hrest : ∑ j ∈ pool.erase i, g j = ∑ j ∈ pool.erase i, f j := by
    apply Finset.sum_congr rfl
    intro j hj
    exact hsame j (Finset.ne_of_mem_erase hj)
  have hmove := hv.balance
  rw [Movement.after, ← Finset.add_sum_erase pool g hi, ← Finset.add_sum_erase pool f hi, hrest]
  omega

end Pool

end ReferenceCount
