import MikoOS.Library.ByteMemory

/-!
# Comparing blocks of bytes

The difference of the first two bytes that differ orders blocks of one length lexicographically.
-/

namespace ByteMemory

/-- The `n` bytes from `a` on. -/
def block (m : Memory) (a : ℕ) : ℕ → List (BitVec 8)
  | 0 => []
  | n + 1 => m a :: block m (a + 1) n

theorem length_block (m : Memory) (a n : ℕ) : (block m a n).length = n := by
  induction n generalizing a with
  | zero => rfl
  | succ n ih => rw [block, List.length_cons, ih]

/-- The first difference, 0 if there is none. -/
def difference : List (BitVec 8) → List (BitVec 8) → ℤ
  | x :: xs, y :: ys => if x = y then difference xs ys else (x.toNat : ℤ) - y.toNat
  | _, _ => 0

section

variable {x y : BitVec 8} {xs ys : List (BitVec 8)}

theorem difference_same : difference (x :: xs) (x :: ys) = difference xs ys := if_pos rfl

theorem difference_of_ne (h : x ≠ y) : difference (x :: xs) (y :: ys) = (x.toNat : ℤ) - y.toNat := if_neg h

theorem difference_eq_zero (hlength : xs.length = ys.length) : difference xs ys = 0 ↔ xs = ys := by
  induction xs generalizing ys with
  | nil =>
    obtain rfl := List.length_eq_zero_iff.mp hlength.symm
    exact iff_of_true rfl rfl
  | cons x xs ih =>
    cases ys with
    | nil => cases hlength
    | cons y ys =>
      by_cases hxy : x = y
      · subst hxy
        rw [difference_same, ih (Nat.succ.inj hlength), List.cons_inj_right]
      · rw [difference_of_ne hxy]
        have hne : x.toNat ≠ y.toNat := fun h => hxy (BitVec.eq_of_toNat_eq h)
        constructor
        · intro hzero
          omega
        · intro hsame
          exact absurd (List.cons.inj hsame).1 hxy

theorem difference_neg (hlength : xs.length = ys.length) : difference xs ys < 0 ↔ xs < ys := by
  induction xs generalizing ys with
  | nil =>
    obtain rfl := List.length_eq_zero_iff.mp hlength.symm
    exact iff_of_false (lt_irrefl 0) (List.lt_irrefl [])
  | cons x xs ih =>
    cases ys with
    | nil => cases hlength
    | cons y ys =>
      rw [List.cons_lt_cons_iff, BitVec.lt_def]
      by_cases hxy : x = y
      · subst hxy
        rw [difference_same, ih (Nat.succ.inj hlength)]
        constructor
        · exact fun h => .inr ⟨rfl, h⟩
        · rintro (h | ⟨-, h⟩)
          · exact absurd h (lt_irrefl _)
          · exact h
      · rw [difference_of_ne hxy]
        constructor
        · intro h
          exact .inl (by omega)
        · rintro (h | ⟨h, -⟩)
          · omega
          · exact absurd h hxy

theorem difference_bounds (xs ys : List (BitVec 8)) : -256 < difference xs ys ∧ difference xs ys < 256 := by
  induction xs generalizing ys with
  | nil => exact ⟨show (-256 : ℤ) < 0 by decide, show (0 : ℤ) < 256 by decide⟩
  | cons x xs ih =>
    cases ys with
    | nil => exact ⟨show (-256 : ℤ) < 0 by decide, show (0 : ℤ) < 256 by decide⟩
    | cons y ys =>
      by_cases hxy : x = y
      · subst hxy
        rw [difference_same]
        exact ih ys
      · rw [difference_of_ne hxy]
        have hx := x.isLt
        have hy := y.isLt
        omega

end

end ByteMemory
