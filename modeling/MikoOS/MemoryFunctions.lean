import MikoOS.Library.RustExec
import MikoOS.Library.StringMove

/-!
# `memcpy` and `memmove`

`arch.rs`: the functions the compiler calls for memory copies. Each loads RDI, RSI and RCX and
executes `rep movsb`; `memmove` copies from the end when the destination lies above the source and
inside it.
-/

namespace MikoOS.Memory

open Rust ByteMemory X86

/-- The operands of the `asm!` blocks. -/
def operands (dst src len : BitVec 64) (s : Cpu) : Cpu :=
  ((s.set .rdi dst).set .rsi src).set .rcx len

def memcpy (dst src len : BitVec 64) : Exec Cpu (BitVec 64) := do
  modify fun s => (operands dst src len s).repMovsb
  return dst

/-- The second comparison is only made when the first holds. -/
def overlapsAbove (p : Profile) (dst src len : BitVec 64) : Exec Cpu Bool := do
  if src.toNat < dst.toNat then
    let distance ← p.sub dst.toNat src.toNat
    return distance < len.toNat
  else return false

def memmove (p : Profile) (dst src len : BitVec 64) : Exec Cpu (BitVec 64) := do
  if ← overlapsAbove p dst src len then
    let last := BitVec.ofNat 64 (← p.sub len.toNat 1)
    modify fun s => (operands (dst + last) (src + last) len s).std.repMovsb.cld
    return dst
  else memcpy dst src len

/-- The call returns `dst`, with the block moved, nothing else written and DF clear. -/
def Moves (s : Cpu) (dst src len : BitVec 64) (result : EStateM.Result Panic Cpu (BitVec 64)) :
    Prop :=
  ∃ t, result = .ok dst t ∧
    (∀ i < len.toNat, t.ram (dst.toNat + i) = s.ram (src.toNat + i)) ∧
    (∀ x, x < dst.toNat ∨ dst.toNat + len.toNat ≤ x → t.ram x = s.ram x) ∧
    t.flags &&& directionFlag = 0

section

variable {p : Profile} {s t : Cpu} {dst src len : BitVec 64}

theorem moves_of_copy (hram : t.ram = copy s.ram dst.toNat src.toNat len.toNat)
    (hdf : t.flags &&& directionFlag = 0) : Moves s dst src len (.ok dst t) := by
  refine ⟨t, rfl, ?_, ?_, hdf⟩
  · intro i hi
    rw [hram, copy_inside (by omega), Nat.add_sub_cancel_left]
  · intro x hx
    rw [hram, copy_outside hx]

/-- Upwards is right when the destination starts at or below the source, or above its end. -/
theorem memcpy_moves (hdst : dst.toNat + len.toNat ≤ 2 ^ 64) (hsrc : src.toNat + len.toNat ≤ 2 ^ 64)
    (hsafe : src.toNat + len.toNat ≤ dst.toNat ∨ dst.toNat ≤ src.toNat)
    (hdf : s.flags &&& directionFlag = 0) : Moves s dst src len ((memcpy dst src len).run s) := by
  rw [memcpy, run_modify_bind, EStateM.run_pure]
  apply moves_of_copy
  · exact Cpu.iterate_forward (s := operands dst src len s) hdf hdst hsrc hsafe le_rfl
  · rw [Cpu.repMovsb, Cpu.iterate_flags]
    exact hdf

theorem overlapsAbove_run : (overlapsAbove p dst src len).run s =
    .ok (decide (src.toNat < dst.toNat ∧ dst.toNat < src.toNat + len.toNat)) s := by
  unfold overlapsAbove
  by_cases habove : src.toNat < dst.toNat
  · rw [if_pos habove, run_bind_ok (run_sub p (by omega) s), EStateM.run_pure]
    congr 1
    apply decide_eq_decide.mpr
    omega
  · rw [if_neg habove, EStateM.run_pure]
    congr 1
    symm
    exact decide_eq_false fun h => habove h.1

theorem std_df : s.std.flags &&& directionFlag ≠ 0 := by
  change (s.flags ||| directionFlag) &&& directionFlag ≠ 0
  intro hzero
  have hbit := congrArg (fun v => v.getLsbD 10) hzero
  simp [directionFlag] at hbit

theorem cld_df : s.cld.flags &&& directionFlag = 0 := by
  change s.flags &&& ~~~directionFlag &&& directionFlag = 0
  rw [BitVec.and_assoc, BitVec.and_comm (~~~directionFlag)]
  simp

theorem memmove_backward (hsrc : src.toNat < dst.toNat) (hdst : dst.toNat < src.toNat + len.toNat)
    (hwrap : dst.toNat + len.toNat ≤ 2 ^ 64) : Moves s dst src len ((memmove p dst src len).run s) := by
  have hlen : 1 ≤ len.toNat := by omega
  rw [memmove, run_bind_ok overlapsAbove_run, if_pos (decide_eq_true ⟨hsrc, hdst⟩),
    run_bind_ok (run_sub p hlen s), run_modify_bind, EStateM.run_pure]
  apply moves_of_copy
  · have hlast : ∀ a : BitVec 64, a.toNat + len.toNat ≤ 2 ^ 64 →
        (a + BitVec.ofNat 64 (len.toNat - 1)).toNat + 1 = a.toNat + len.toNat := by
      intro a ha
      rw [BitVec.toNat_add, BitVec.toNat_ofNat]
      omega
    have hback := Cpu.iterate_backward (s := (operands (dst + BitVec.ofNat 64 (len.toNat - 1))
      (src + BitVec.ofNat 64 (len.toNat - 1)) len s).std) std_df (hlast dst hwrap)
      (hlast src (by omega)) hsrc.le le_rfl
    rw [Nat.sub_self] at hback
    exact hback
  · exact cld_df

end

/-- `memmove` for all ranges that do not wrap around, `memcpy` for those that do not overlap. -/
theorem memory_functions (p : Profile) (s : Cpu) (dst src len : BitVec 64)
    (hdst : dst.toNat + len.toNat ≤ 2 ^ 64) (hsrc : src.toNat + len.toNat ≤ 2 ^ 64)
    (hdf : s.flags &&& directionFlag = 0) :
    Moves s dst src len ((memmove p dst src len).run s) ∧
      (src.toNat + len.toNat ≤ dst.toNat ∨ dst.toNat + len.toNat ≤ src.toNat →
        Moves s dst src len ((memcpy dst src len).run s)) := by
  constructor
  · by_cases hover : src.toNat < dst.toNat ∧ dst.toNat < src.toNat + len.toNat
    · exact memmove_backward hover.1 hover.2 hdst
    · rw [memmove, run_bind_ok overlapsAbove_run, if_neg (by simpa using hover)]
      exact memcpy_moves hdst hsrc (by omega) hdf
  · intro hdisjoint
    exact memcpy_moves hdst hsrc (by omega) hdf

/-- A processor with the address modulo 256 in every byte. -/
def numbered : Cpu where
  reg _ := 0
  rip := 0x100000
  flags := 2
  cs := 8
  ss := 0x10
  ds := 0x10
  es := 0x10
  fs := 0x10
  gs := 0x10
  sysenterCs := 0
  sysenterEsp := 0
  sysenterEip := 0
  ram a := BitVec.ofNat 8 a

/-- Four bytes moved up by one and down by one, over each other. -/
theorem memory_functions_overlap :
    Moves numbered 0x1001 0x1000 4 ((memmove .dev 0x1001 0x1000 4).run numbered) ∧
      Moves numbered 0x1000 0x1001 4 ((memmove .dev 0x1000 0x1001 4).run numbered) :=
  ⟨(memory_functions .dev numbered 0x1001 0x1000 4 (by decide) (by decide) (by decide)).1,
    (memory_functions .dev numbered 0x1000 0x1001 4 (by decide) (by decide) (by decide)).1⟩

end MikoOS.Memory
