import MikoOS.Library.ByteOrder
import MikoOS.MemoryFunctions

/-!
# `memset` and `memcmp`

The other two functions of `arch.rs` that the compiler calls. `memset` executes `rep stosb`; `memcmp` reads
both blocks upwards and returns the first difference.
-/

namespace MikoOS.Memory

open Rust ByteMemory X86

def memset (dst : BitVec 64) (byte : BitVec 32) (len : BitVec 64) : Exec Cpu (BitVec 64) := do
  modify fun s => (((s.set .rdi dst).set .rax ((byte.setWidth 8).setWidth 64)).set .rcx len).repStosb
  return dst

/-- One iteration of `memcmp`; the difference of two bytes fits in an `i32`. -/
def memcmpByte (a b : BitVec 64) (i : ℕ) : Exec Cpu (Unit ⊕ ℤ) := do
  let x := (← get).ram (a + BitVec.ofNat 64 i).toNat
  let y := (← get).ram (b + BitVec.ofNat 64 i).toNat
  if x ≠ y then return .inr ((x.toNat : ℤ) - y.toNat)
  return .inl ()

def memcmp (a b len : BitVec 64) : Exec Cpu ℤ := do
  let found ← searchRange 0 len.toNat () fun i _ => memcmpByte a b i
  return found.getD 0

section

variable {s : Cpu} {dst a b len : BitVec 64}

theorem memset_fills (byte : BitVec 32) (hdst : dst.toNat + len.toNat ≤ 2 ^ 64)
    (hdf : s.flags &&& directionFlag = 0) : ∃ t, (memset dst byte len).run s = .ok dst t ∧
      t.ram = fill s.ram dst.toNat len.toNat (byte.setWidth 8) ∧ t.flags = s.flags := by
  rw [memset, run_modify_bind, EStateM.run_pure]
  refine ⟨_, rfl, ?_, (Cpu.iterateFill_rest _).1⟩
  have hfill := Cpu.iterate_fill
    (s := ((s.set .rdi dst).set .rax ((byte.setWidth 8).setWidth 64)).set .rcx len) hdf hdst le_rfl
  have hlow : ((byte.setWidth 8).setWidth 64).setWidth 8 = byte.setWidth 8 := by
    apply BitVec.eq_of_toNat_eq
    simp
  change _ = fill s.ram dst.toNat len.toNat (((byte.setWidth 8).setWidth 64).setWidth 8) at hfill
  rw [hlow] at hfill
  exact hfill

theorem memcmpByte_run {i : ℕ} (ha : (a + BitVec.ofNat 64 i).toNat = a.toNat + i)
    (hb : (b + BitVec.ofNat 64 i).toNat = b.toNat + i) : (memcmpByte a b i).run s =
      .ok (if s.ram (a.toNat + i) = s.ram (b.toNat + i) then .inl ()
        else .inr (((s.ram (a.toNat + i)).toNat : ℤ) - (s.ram (b.toNat + i)).toNat)) s := by
  unfold memcmpByte
  rw [run_get_bind, run_get_bind, ha, hb]
  dsimp only
  by_cases hsame : s.ram (a.toNat + i) = s.ram (b.toNat + i)
  · rw [if_neg (not_not_intro hsame), if_pos hsame]
    rfl
  · rw [if_pos hsame, if_neg hsame]
    rfl

/-- The loop from the byte `i` on. -/
theorem memcmpLoop_run (ha : a.toNat + len.toNat ≤ 2 ^ 64) (hb : b.toNat + len.toNat ≤ 2 ^ 64) (n i : ℕ)
    (hi : i + n ≤ len.toNat) : ∃ found, (searchCount (fun i _ => memcmpByte a b i) i n ()).run s =
      .ok found s ∧
        found.getD 0 = difference (block s.ram (a.toNat + i) n) (block s.ram (b.toNat + i) n) := by
  induction n generalizing i with
  | zero => exact ⟨none, rfl, rfl⟩
  | succ n ih =>
    have haddress : ∀ c : BitVec 64, c.toNat + len.toNat ≤ 2 ^ 64 →
        (c + BitVec.ofNat 64 i).toNat = c.toNat + i := by
      intro c hc
      rw [BitVec.toNat_add, BitVec.toNat_ofNat]
      omega
    have hrun := memcmpByte_run (s := s) (haddress a ha) (haddress b hb)
    rw [searchCount, block, block]
    by_cases hsame : s.ram (a.toNat + i) = s.ram (b.toNat + i)
    · rw [if_pos hsame] at hrun
      obtain ⟨found, hrest, hvalue⟩ := ih (i + 1) (by omega)
      rw [run_bind_ok hrun, hsame, difference_same]
      exact ⟨found, hrest, hvalue⟩
    · rw [if_neg hsame] at hrun
      rw [run_bind_ok hrun, difference_of_ne hsame]
      exact ⟨some _, rfl, rfl⟩

theorem memcmp_difference (ha : a.toNat + len.toNat ≤ 2 ^ 64) (hb : b.toNat + len.toNat ≤ 2 ^ 64) :
    (memcmp a b len).run s =
      .ok (difference (block s.ram a.toNat len.toNat) (block s.ram b.toNat len.toNat)) s := by
  obtain ⟨found, hrun, hvalue⟩ := memcmpLoop_run (s := s) ha hb len.toNat 0 (by omega)
  unfold memcmp searchRange
  rw [Nat.sub_zero, run_bind_ok hrun, EStateM.run_pure, hvalue]
  rfl

end

/-- Both functions for ranges that do not wrap around: `memset` writes its block and nothing else, `memcmp`
orders two blocks lexicographically and leaves the state alone. -/
theorem memory_blocks (s : Cpu) (dst a b len : BitVec 64) (byte : BitVec 32)
    (hdst : dst.toNat + len.toNat ≤ 2 ^ 64) (ha : a.toNat + len.toNat ≤ 2 ^ 64)
    (hb : b.toNat + len.toNat ≤ 2 ^ 64) (hdf : s.flags &&& directionFlag = 0) :
    (∃ t, (memset dst byte len).run s = .ok dst t ∧
      t.ram = fill s.ram dst.toNat len.toNat (byte.setWidth 8) ∧ t.flags = s.flags) ∧
    ∃ r, (memcmp a b len).run s = .ok r s ∧ -2 ^ 31 ≤ r ∧ r < 2 ^ 31 ∧
      (r = 0 ↔ block s.ram a.toNat len.toNat = block s.ram b.toNat len.toNat) ∧
      (r < 0 ↔ block s.ram a.toNat len.toNat < block s.ram b.toNat len.toNat) := by
  have hlength : (block s.ram a.toNat len.toNat).length = (block s.ram b.toNat len.toNat).length := by
    rw [length_block, length_block]
  obtain ⟨hlow, hhigh⟩ := difference_bounds (block s.ram a.toNat len.toNat) (block s.ram b.toNat len.toNat)
  exact ⟨memset_fills byte hdst hdf, _, memcmp_difference ha hb, by omega, by omega,
    difference_eq_zero hlength, difference_neg hlength⟩

theorem memory_blocks_sample :
    (∃ t, (memset 0x2000 0x1ff 4).run numbered = .ok 0x2000 t ∧ t.ram = fill numbered.ram 0x2000 4 0xff) ∧
      ∃ r, (memcmp 0x1000 0x1001 4).run numbered = .ok r numbered ∧ r < 0 := by
  obtain ⟨⟨t, hset, hfilled, -⟩, r, hrun, -, -, -, hneg⟩ := memory_blocks numbered 0x2000 0x1000 0x1001 4 0x1ff
    (by decide) (by decide) (by decide) (by decide)
  exact ⟨⟨t, hset, hfilled⟩, r, hrun, hneg.mpr (by decide)⟩

end MikoOS.Memory
