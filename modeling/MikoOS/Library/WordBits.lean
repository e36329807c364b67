import Mathlib

/-!
# Bit sets held in 64-bit words

Bit `i` of a list of words is bit `i % 64` of word `i / 64`. Or-ing a one-bit mask sets exactly
that bit, and-ing its complement clears exactly that bit, and two lists of one length with the
same bits are equal.
-/

namespace WordBits

abbrev Words := List (BitVec 64)

def testBit (ws : Words) (i : ℕ) : Bool := (ws.getD (i / 64) 0).getLsbD (i % 64)

def mask (i : ℕ) : BitVec 64 := 1#64 <<< (i % 64)

/-- The words of `ws` with every bit of `B` replaced by `value`. -/
def assign (ws : Words) (B : Finset ℕ) (value : Bool) : Words :=
  ws.mapIdx fun w word => BitVec.ofFnLE fun k : Fin 64 =>
    if 64 * w + k ∈ B then value else word.getLsbD k

variable {ws ws' : Words} {i j : ℕ}

theorem mask_eq_twoPow (i : ℕ) : mask i = BitVec.twoPow 64 (i % 64) :=
  (BitVec.twoPow_eq 64 (i % 64)).symm

theorem getLsbD_mask (i k : ℕ) : (mask i).getLsbD k = decide (i % 64 = k) := by
  rw [mask_eq_twoPow, BitVec.getLsbD_twoPow]
  simp [Nat.mod_lt]

/-- The test `word & (1 << k) != 0`. -/
theorem and_mask_ne_zero (word : BitVec 64) (i : ℕ) :
    (word &&& mask i != 0#64) = word.getLsbD (i % 64) := by
  have hi : i % 64 < 64 := Nat.mod_lt i (by omega)
  have hpow : BitVec.twoPow 64 (i % 64) ≠ 0#64 := fun h => by
    have hb := congrArg (BitVec.getLsbD · (i % 64)) h
    simp [hi] at hb
  rw [mask_eq_twoPow, BitVec.and_twoPow]
  cases word.getLsbD (i % 64) with
  | true => simpa using hpow
  | false => simp

theorem getD_set (word : BitVec 64) {w v : ℕ} (hw : w < ws.length) :
    (ws.set w word).getD v 0 = if v = w then word else ws.getD v 0 := by
  simp only [List.getD_eq_getElem?_getD, List.getElem?_set]
  by_cases h : w = v
  · subst h
    simp [hw]
  · simp [h, Ne.symm h]

theorem testBit_set_word {word : BitVec 64} {w : ℕ} (hw : w < ws.length) :
    testBit (ws.set w word) j = if j / 64 = w then word.getLsbD (j % 64) else testBit ws j := by
  rw [testBit, getD_set word hw]
  split <;> rfl

theorem testBit_set (hi : i / 64 < ws.length) :
    testBit (ws.set (i / 64) (ws.getD (i / 64) 0 ||| mask i)) j =
      if j = i then true else testBit ws j := by
  rw [testBit_set_word hi]
  by_cases hw : j / 64 = i / 64
  · rw [if_pos hw, BitVec.getLsbD_or, getLsbD_mask, ← hw, ← testBit]
    by_cases hji : j = i
    · simp [hji]
    · have : ¬ i % 64 = j % 64 := by omega
      simp [hji, this]
  · rw [if_neg hw, if_neg (by rintro rfl; exact hw rfl)]

theorem testBit_clear (hi : i / 64 < ws.length) :
    testBit (ws.set (i / 64) (ws.getD (i / 64) 0 &&& ~~~mask i)) j =
      if j = i then false else testBit ws j := by
  have hj : j % 64 < 64 := Nat.mod_lt j (by omega)
  rw [testBit_set_word hi]
  by_cases hw : j / 64 = i / 64
  · rw [if_pos hw, BitVec.getLsbD_and, BitVec.getLsbD_not, getLsbD_mask, ← hw, ← testBit]
    by_cases hji : j = i
    · simp [hji]
    · have : ¬ i % 64 = j % 64 := by omega
      simp [hji, this, hj]
  · rw [if_neg hw, if_neg (by rintro rfl; exact hw rfl)]

theorem ext (hlen : ws.length = ws'.length) (h : ∀ i < 64 * ws.length, testBit ws i = testBit ws' i) :
    ws = ws' := by
  refine List.ext_getElem hlen fun w hw hw' => ?_
  refine BitVec.eq_of_getLsbD_eq fun k hk => ?_
  have hbit := h (64 * w + k) (by omega)
  have hdiv : (64 * w + k) / 64 = w := by omega
  have hmod : (64 * w + k) % 64 = k := by omega
  rwa [testBit, testBit, hdiv, hmod, List.getD_eq_getElem _ _ hw,
    List.getD_eq_getElem _ _ hw'] at hbit

@[simp] theorem length_assign (ws : Words) (B : Finset ℕ) (value : Bool) :
    (assign ws B value).length = ws.length := List.length_mapIdx

theorem testBit_assign (B : Finset ℕ) (value : Bool) (hi : i < 64 * ws.length) :
    testBit (assign ws B value) i = if i ∈ B then value else testBit ws i := by
  have hw : i / 64 < ws.length := by omega
  have hk : i % 64 < 64 := Nat.mod_lt i (by omega)
  have hi' : 64 * (i / 64) + i % 64 = i := by omega
  rw [testBit, testBit, List.getD_eq_getElem _ _ (by simpa using hw), List.getD_eq_getElem _ _ hw]
  simp only [assign, List.getElem_mapIdx, BitVec.getLsbD_ofFnLE, hk, dif_pos, hi']

theorem testBit_replicate_ones {n : ℕ} (hi : i < 64 * n) :
    testBit (List.replicate n (BitVec.allOnes 64)) i = true := by
  have hw : i / 64 < n := by omega
  rw [testBit, List.getD_eq_getElem _ _ (by simpa using hw), List.getElem_replicate,
    BitVec.getLsbD_allOnes, decide_eq_true (Nat.mod_lt i (by omega))]

theorem testBit_of_length_le (hi : 64 * ws.length ≤ i) : testBit ws i = false := by
  have hw : ws.length ≤ i / 64 := by omega
  rw [testBit, List.getD_eq_default _ _ hw]
  simp

end WordBits
