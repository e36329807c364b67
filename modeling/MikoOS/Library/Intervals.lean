import Mathlib

/-!
# Half-open intervals and alignment

`clearLow x a` is `x & !(a - 1)` on a 64-bit word; for a power of two it rounds down to a multiple.
The packing bound says that pairwise disjoint intervals below a bound have total length at most
that bound.
-/

namespace Intervals

def clearLow (x alignment : ℕ) : ℕ :=
  (BitVec.ofNat 64 x &&& ~~~BitVec.ofNat 64 (alignment - 1)).toNat

theorem clearLow_eq {x : ℕ} (k : ℕ) (hx : x < 2 ^ 64) : clearLow x (2 ^ k) = x / 2 ^ k * 2 ^ k := by
  refine Nat.eq_of_testBit_eq fun j => ?_
  change (BitVec.ofNat 64 x &&& ~~~BitVec.ofNat 64 (2 ^ k - 1)).getLsbD j = _
  rw [BitVec.getLsbD_and, BitVec.getLsbD_not, BitVec.getLsbD_ofNat, BitVec.getLsbD_ofNat,
    Nat.testBit_two_pow_sub_one, Nat.testBit_mul_two_pow, Nat.testBit_div_two_pow]
  by_cases hj : j < 64
  · by_cases hk : k ≤ j
    · simp [hj, hk, Nat.not_lt.mpr hk]
    · simp [hj, hk, Nat.not_le.mp hk]
  · have hhigh : x.testBit j = false :=
      Nat.testBit_lt_two_pow (hx.trans_le (Nat.pow_le_pow_right (by decide) (by omega)))
    by_cases hk : k ≤ j
    · simp [hj, hk, hhigh]
    · simp [hj, hk]

variable {ι : Type} {lower upper : ι → ℕ} {xs : List ι} {bound : ℕ}

theorem exists_union_of_pairwise_disjoint
    (h : xs.Pairwise fun a b =>
      Disjoint (Finset.Ico (lower a) (upper a)) (Finset.Ico (lower b) (upper b))) :
    ∃ S : Finset ℕ, S.card = (xs.map fun a => upper a - lower a).sum ∧
      ∀ x ∈ S, ∃ a ∈ xs, x ∈ Finset.Ico (lower a) (upper a) := by
  induction xs with
  | nil => exact ⟨∅, rfl, by simp⟩
  | cons a rest ih =>
    obtain ⟨hhead, htail⟩ := List.pairwise_cons.mp h
    obtain ⟨S, hcard, hS⟩ := ih htail
    refine ⟨Finset.Ico (lower a) (upper a) ∪ S, ?_, fun x hx => ?_⟩
    · rw [Finset.card_union_of_disjoint, Nat.card_Ico, hcard, List.map_cons, List.sum_cons]
      rw [Finset.disjoint_left]
      intro x hx hxS
      obtain ⟨b, hb, hxb⟩ := hS x hxS
      exact Finset.disjoint_left.mp (hhead b hb) hx hxb
    · rcases Finset.mem_union.mp hx with hx | hx
      · exact ⟨a, by simp, hx⟩
      · obtain ⟨b, hb, hxb⟩ := hS x hx
        exact ⟨b, by simp [hb], hxb⟩

/-- Disjoint intervals that all end by `bound` have total length at most `bound`. -/
theorem sum_lengths_le
    (h : xs.Pairwise fun a b =>
      Disjoint (Finset.Ico (lower a) (upper a)) (Finset.Ico (lower b) (upper b)))
    (hbound : ∀ a ∈ xs, upper a ≤ bound) : (xs.map fun a => upper a - lower a).sum ≤ bound := by
  obtain ⟨S, hcard, hS⟩ := exists_union_of_pairwise_disjoint h
  have hsub : S ⊆ Finset.range bound := fun x hx => by
    obtain ⟨a, ha, hxa⟩ := hS x hx
    exact Finset.mem_range.mpr ((Finset.mem_Ico.mp hxa).2.trans_le (hbound a ha))
  have hle := Finset.card_le_card hsub
  rwa [hcard, Finset.card_range] at hle

end Intervals
