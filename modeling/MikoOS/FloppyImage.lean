import MikoOS.Library.ByteString

/-!
# The FAT12 entries of the boot floppy

`build_image.py`: the layout of the 1.44 MiB image, the reader `fat_entry` and the update `main` makes
of one entry. Entry `c` occupies the bits `12c` to `12c + 11` of the table, whatever its parity; a
read sees exactly these bits and an update changes no others.
-/

namespace MikoOS.Floppy

open ByteString

def sectorSize : ℕ := 512
def fatSize : ℕ := 9 * sectorSize
def rootStart : ℕ := 19 * sectorSize
def dataStart : ℕ := 33 * sectorSize
def imageSize : ℕ := 2880 * sectorSize

/-- The first cluster number behind those of the data area. -/
def clusterEnd : ℕ := 2849

def fatEntry (fat : Bytes) (cluster : ℕ) : ℕ :=
  let offset := cluster * 3 / 2
  let pair := fromLittle (slice fat offset (offset + 2))
  (if cluster &&& 1 ≠ 0 then pair >>> 4 else pair) &&& 0xfff

/-- The update of one entry in `main`. -/
def setEntry (fat : Bytes) (cluster link : ℕ) : Bytes :=
  let offset := cluster * 3 / 2
  let pair := fromLittle (slice fat offset (offset + 2))
  let pair := if cluster &&& 1 ≠ 0 then pair &&& 0x000f ||| link <<< 4 else pair &&& 0xf000 ||| link
  splice fat offset (offset + 2) (toLittle 2 pair)

variable {fat : Bytes} {cluster link c i : ℕ}

theorem mask_twelve : (0xfff : ℕ) = 2 ^ 12 - 1 := rfl

theorem bit_pair (fat : Bytes) (cluster : ℕ) (hi : i < 16) :
    (fromLittle (slice fat (cluster * 3 / 2) (cluster * 3 / 2 + 2))).testBit i =
    bit fat (8 * (cluster * 3 / 2) + i) := by
  rw [testBit_fromLittle, bit_slice, decide_eq_true (by omega), Bool.true_and]

theorem testBit_fatEntry :
    (fatEntry fat cluster).testBit i = (decide (i < 12) && bit fat (12 * cluster + i)) := by
  have hmask : (0xfff : ℕ).testBit i = decide (i < 12) := by
    rw [mask_twelve, Nat.testBit_two_pow_sub_one]
  rw [fatEntry, Nat.testBit_and, hmask, Bool.and_comm]
  by_cases hi : i < 12
  · rw [decide_eq_true hi, Bool.true_and, Bool.true_and, Nat.and_one_is_mod]
    by_cases hodd : cluster % 2 ≠ 0
    · rw [if_pos hodd, Nat.testBit_shiftRight, bit_pair fat cluster (by omega)]
      congr 1
      omega
    · rw [if_neg hodd, bit_pair fat cluster (by omega)]
      congr 1
      omega
  · rw [decide_eq_false hi, Bool.false_and, Bool.false_and]

theorem fatEntry_lt : fatEntry fat cluster < 2 ^ 12 := by
  rw [fatEntry, mask_twelve, Nat.and_two_pow_sub_one_eq_mod]
  exact Nat.mod_lt _ (by decide)

theorem length_setEntry (h : cluster * 3 / 2 + 2 ≤ fat.length) :
    (setEntry fat cluster link).length = fat.length := by
  apply length_splice _ _ h
  · omega
  · rw [length_toLittle]

theorem bit_setEntry (h : cluster * 3 / 2 + 2 ≤ fat.length) (hlink : link < 2 ^ 12) :
    bit (setEntry fat cluster link) i =
      if 12 * cluster ≤ i ∧ i < 12 * cluster + 12 then link.testBit (i - 12 * cluster)
      else bit fat i := by
  have hout : ∀ k, 12 ≤ k → link.testBit k = false := by
    intro k hk
    exact Nat.testBit_lt_two_pow (hlink.trans_le (Nat.pow_le_pow_right (by decide) hk))
  rw [setEntry, bit_splice (by rw [length_toLittle]) h]
  by_cases hin : 8 * (cluster * 3 / 2) ≤ i ∧ i < 8 * (cluster * 3 / 2 + 2)
  · have hback : 8 * (cluster * 3 / 2) + (i - 8 * (cluster * 3 / 2)) = i := by omega
    have hpair := bit_pair fat cluster (i := i - 8 * (cluster * 3 / 2)) (by omega)
    rw [hback] at hpair
    rw [if_pos hin, bit_toLittle (by omega), Nat.and_one_is_mod]
    by_cases hodd : cluster % 2 ≠ 0
    · have hlow : (0x000f : ℕ).testBit (i - 8 * (cluster * 3 / 2)) = decide (i < 12 * cluster) := by
        rw [show (0x000f : ℕ) = 2 ^ 4 - 1 from rfl, Nat.testBit_two_pow_sub_one]
        apply decide_eq_decide.mpr
        omega
      rw [if_pos hodd, Nat.testBit_or, Nat.testBit_and, hpair, hlow, Nat.testBit_shiftLeft]
      by_cases hfield : 12 * cluster ≤ i
      · have hsub : i - 8 * (cluster * 3 / 2) - 4 = i - 12 * cluster := by omega
        rw [if_pos (by omega), decide_eq_false (by omega), decide_eq_true (by omega), hsub]
        simp
      · rw [if_neg (by omega), decide_eq_true (by omega), decide_eq_false (by omega)]
        simp
    · have hhigh : (0xf000 : ℕ).testBit (i - 8 * (cluster * 3 / 2)) =
          decide (12 * cluster + 12 ≤ i) := by
        rw [show (0xf000 : ℕ) = (2 ^ 4 - 1) <<< 12 from rfl, Nat.testBit_shiftLeft,
          Nat.testBit_two_pow_sub_one, ← Bool.decide_and]
        apply decide_eq_decide.mpr
        omega
      have hsub : i - 8 * (cluster * 3 / 2) = i - 12 * cluster := by omega
      rw [if_neg hodd, Nat.testBit_or, Nat.testBit_and, hpair, hhigh]
      by_cases hfield : i < 12 * cluster + 12
      · rw [if_pos (by omega), decide_eq_false (by omega), hsub]
        simp
      · rw [if_neg (by omega), decide_eq_true (by omega), hout _ (by omega)]
        simp
  · rw [if_neg hin, if_neg (by omega)]

/-- An update is seen by reads of its own entry only. -/
theorem fatEntry_setEntry (h : cluster * 3 / 2 + 2 ≤ fat.length) (hlink : link < 2 ^ 12) :
    fatEntry (setEntry fat cluster link) c = if c = cluster then link else fatEntry fat c := by
  apply Nat.eq_of_testBit_eq
  intro i
  rw [testBit_fatEntry, bit_setEntry h hlink]
  by_cases hi : i < 12
  · by_cases hc : c = cluster
    · rw [if_pos hc, if_pos (by omega), decide_eq_true hi, hc, Nat.add_sub_cancel_left, Bool.true_and]
    · rw [if_neg hc, if_neg (by omega), testBit_fatEntry]
  · rw [decide_eq_false hi, Bool.false_and]
    symm
    have hpow : 2 ^ 12 ≤ 2 ^ i := Nat.pow_le_pow_right (by decide) (by omega)
    by_cases hc : c = cluster
    · rw [if_pos hc]
      exact Nat.testBit_lt_two_pow (hlink.trans_le hpow)
    · rw [if_neg hc]
      exact Nat.testBit_lt_two_pow (fatEntry_lt.trans_le hpow)

end MikoOS.Floppy
