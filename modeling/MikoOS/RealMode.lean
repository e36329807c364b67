import MikoOS.Library.ByteString

/-!
# Real mode

What Boot and Loader have in common: addresses of `segment:offset` and the floppy behind INT 13h.
`Drive` is the medium as the BIOS shows it: addresses on the floppy give its bytes, for any other
address the answer is arbitrary, and `none` is a read that fails for ever.
-/

namespace MikoOS

open ByteMemory ByteString

/-- The linear address of `segment:offset`. -/
def linear (segment offset : BitVec 16) : ℕ := segment.toNat * 16 + offset.toNat

structure Drive where
  disk : Memory
  outside : ℕ → ℕ → ℕ → ℕ → Option Bytes

/-- INT 13h function 2 after its retries: 80 cylinders, 2 heads, 18 sectors a track. -/
def Drive.read (drive : Drive) (cylinder head sector count : ℕ) : Option Bytes :=
  if cylinder < 80 ∧ head < 2 ∧ 1 ≤ sector ∧ sector + count ≤ 19 then
    some ((List.range (512 * count)).map fun i =>
      drive.disk (512 * ((cylinder * 2 + head) * 18 + (sector - 1)) + i))
  else drive.outside cylinder head sector count

variable {drive : Drive} {ram : Memory}

/-- The sectors `first` to `first + count - 1` of the drive at address `a`. -/
def placeSectors (drive : Drive) (first count a : ℕ) (ram : Memory) : Memory :=
  write ram a ((List.range (512 * count)).map fun i => drive.disk (512 * first + i))

theorem placeSectors_inside {first count a i : ℕ} (hi : i < 512 * count) :
    placeSectors drive first count a ram (a + i) = drive.disk (512 * first + i) := by
  have hlength : ((List.range (512 * count)).map fun i => drive.disk (512 * first + i)).length =
      512 * count := by
    rw [List.length_map, List.length_range]
  rw [placeSectors, write_inside (by omega), Nat.add_sub_cancel_left,
    List.getD_eq_getElem _ _ (by omega), List.getElem_map, List.getElem_range]

theorem placeSectors_outside {first count a x : ℕ} (hx : x < a ∨ a + 512 * count ≤ x) :
    placeSectors drive first count a ram x = ram x := by
  apply write_outside
  rwa [List.length_map, List.length_range]

end MikoOS
