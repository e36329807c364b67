import MikoOS.Library.X86

/-!
# `rep movsb` and `rep stosb`

The string move copies one byte and steps both pointers, upwards or downwards with the direction
flag; the prefix repeats it RCX times. The memory after `k` bytes is a block copy of the original
memory as long as no byte is read after it was overwritten, which fixes the direction. The string store fills.
-/

namespace ByteMemory

variable {m : Memory} {dst src k : ℕ}

theorem copy_zero : copy m dst src 0 = m := by
  funext x
  exact copy_outside (by omega)

/-- One more byte above the block: its source is not among the bytes already written. -/
theorem copy_above (h : src + k < dst ∨ dst ≤ src) :
    store8 (copy m dst src k) (dst + k) (copy m dst src k (src + k)) = copy m dst src (k + 1) := by
  rw [copy_outside (x := src + k) (by omega)]
  funext x
  by_cases hx : x = dst + k
  · rw [hx, store8_self, copy_inside (by omega), Nat.add_sub_cancel_left]
  · rw [store8_outside hx]
    by_cases hin : dst ≤ x ∧ x < dst + k
    · rw [copy_inside hin, copy_inside (by omega)]
    · rw [copy_outside (by omega), copy_outside (by omega)]

/-- One more byte below the block. -/
theorem copy_below (h : src ≤ dst) : store8 (copy m (dst + 1) (src + 1) k) dst
    (copy m (dst + 1) (src + 1) k src) = copy m dst src (k + 1) := by
  rw [copy_outside (x := src) (by omega)]
  funext x
  by_cases hx : x = dst
  · rw [hx, store8_self, copy_inside (by omega), Nat.sub_self, Nat.add_zero]
  · rw [store8_outside hx]
    by_cases hin : dst + 1 ≤ x ∧ x < dst + 1 + k
    · rw [copy_inside hin, copy_inside (by omega)]
      congr 1
      omega
    · rw [copy_outside (by omega), copy_outside (by omega)]

/-- One more byte of a fill. -/
theorem fill_above {a : ℕ} {b : BitVec 8} : store8 (fill m a k b) (a + k) b = fill m a (k + 1) b := by
  funext x
  by_cases hx : x = a + k
  · rw [hx, store8_self, fill_inside (by omega)]
  · rw [store8_outside hx]
    by_cases hin : a ≤ x ∧ x < a + k
    · rw [fill_inside hin, fill_inside (by omega)]
    · rw [fill_outside (by omega), fill_outside (by omega)]

end ByteMemory

namespace X86

open ByteMemory

namespace Cpu

def std (s : Cpu) : Cpu := { s with flags := s.flags ||| directionFlag }

/-- What a string instruction adds to its pointers. -/
def stride (s : Cpu) : BitVec 64 := if s.flags &&& directionFlag = 0 then 1 else -1

def movsb (s : Cpu) : Cpu :=
  let s' := { s with ram := store8 s.ram (s.reg .rdi).toNat (s.ram (s.reg .rsi).toNat) }
  (s'.set .rdi (s.reg .rdi + s.stride)).set .rsi (s.reg .rsi + s.stride)

/-- One iteration of the prefix. -/
def repStep (s : Cpu) : Cpu := s.movsb.set .rcx (s.reg .rcx - 1)

def repMovsb (s : Cpu) : Cpu := repStep^[(s.reg .rcx).toNat] s

variable {s : Cpu}

@[simp] theorem repStep_flags : s.repStep.flags = s.flags := rfl

theorem repStep_ram : s.repStep.ram =
    store8 s.ram (s.reg .rdi).toNat (s.ram (s.reg .rsi).toNat) := rfl

theorem repStep_rdi : s.repStep.reg .rdi = s.reg .rdi + s.stride := rfl

theorem repStep_rsi : s.repStep.reg .rsi = s.reg .rsi + s.stride := rfl

theorem iterate_flags (k : ℕ) : (repStep^[k] s).flags = s.flags := by
  induction k with
  | zero => rfl
  | succ k ih => rw [Function.iterate_succ_apply', repStep_flags, ih]

theorem iterate_pointers (k : ℕ) :
    (repStep^[k] s).reg .rdi = s.reg .rdi + BitVec.ofNat 64 k * s.stride ∧
      (repStep^[k] s).reg .rsi = s.reg .rsi + BitVec.ofNat 64 k * s.stride := by
  induction k with
  | zero => exact ⟨by simp, by simp⟩
  | succ k ih =>
    have hstride : (repStep^[k] s).stride = s.stride := by rw [stride, iterate_flags, stride]
    have hmul : BitVec.ofNat 64 (k + 1) * s.stride = BitVec.ofNat 64 k * s.stride + s.stride := by
      rw [BitVec.ofNat_add, add_mul]
      congr 1
      exact one_mul _
    rw [Function.iterate_succ_apply', repStep_rdi, repStep_rsi, ih.1, ih.2, hstride, hmul,
      BitVec.add_assoc, BitVec.add_assoc]
    exact ⟨rfl, rfl⟩

theorem iterate_forward (hdf : s.flags &&& directionFlag = 0) {n : ℕ}
    (hdst : (s.reg .rdi).toNat + n ≤ 2 ^ 64) (hsrc : (s.reg .rsi).toNat + n ≤ 2 ^ 64)
    (hsafe : (s.reg .rsi).toNat + n ≤ (s.reg .rdi).toNat ∨ (s.reg .rdi).toNat ≤ (s.reg .rsi).toNat)
    {k : ℕ} (hk : k ≤ n) :
    (repStep^[k] s).ram = copy s.ram (s.reg .rdi).toNat (s.reg .rsi).toNat k := by
  induction k with
  | zero => exact copy_zero.symm
  | succ k ih =>
    obtain ⟨hrdi, hrsi⟩ := iterate_pointers (s := s) k
    rw [stride, if_pos hdf, mul_one] at hrdi hrsi
    have hto : ((repStep^[k] s).reg .rdi).toNat = (s.reg .rdi).toNat + k := by
      rw [hrdi, BitVec.toNat_add, BitVec.toNat_ofNat]
      omega
    have hfrom : ((repStep^[k] s).reg .rsi).toNat = (s.reg .rsi).toNat + k := by
      rw [hrsi, BitVec.toNat_add, BitVec.toNat_ofNat]
      omega
    rw [Function.iterate_succ_apply', repStep_ram, ih (by omega), hto, hfrom]
    exact copy_above (by omega)

/-- Backwards from the last of the `n` bytes at `dst` and `src`. -/
theorem iterate_backward (hdf : s.flags &&& directionFlag ≠ 0) {dst src n : ℕ}
    (hdst : (s.reg .rdi).toNat + 1 = dst + n) (hsrc : (s.reg .rsi).toNat + 1 = src + n)
    (hle : src ≤ dst) {k : ℕ} (hk : k ≤ n) :
    (repStep^[k] s).ram = copy s.ram (dst + (n - k)) (src + (n - k)) k := by
  induction k with
  | zero => exact copy_zero.symm
  | succ k ih =>
    obtain ⟨hrdi, hrsi⟩ := iterate_pointers (s := s) k
    rw [stride, if_neg hdf, mul_neg_one, ← BitVec.sub_eq_add_neg] at hrdi hrsi
    have hto : ((repStep^[k] s).reg .rdi).toNat = dst + (n - (k + 1)) := by
      rw [hrdi, BitVec.toNat_sub, BitVec.toNat_ofNat]
      omega
    have hfrom : ((repStep^[k] s).reg .rsi).toNat = src + (n - (k + 1)) := by
      rw [hrsi, BitVec.toNat_sub, BitVec.toNat_ofNat]
      omega
    have hdown : n - k = n - (k + 1) + 1 := by omega
    rw [Function.iterate_succ_apply', repStep_ram, ih (by omega), hto, hfrom, hdown,
      ← Nat.add_assoc, ← Nat.add_assoc]
    exact copy_below (by omega)

/-- `stosb` stores AL. -/
def stosb (s : Cpu) : Cpu :=
  let s' := { s with ram := store8 s.ram (s.reg .rdi).toNat ((s.reg .rax).setWidth 8) }
  s'.set .rdi (s.reg .rdi + s.stride)

def fillStep (s : Cpu) : Cpu := s.stosb.set .rcx (s.reg .rcx - 1)

def repStosb (s : Cpu) : Cpu := fillStep^[(s.reg .rcx).toNat] s

theorem fillStep_ram : s.fillStep.ram = store8 s.ram (s.reg .rdi).toNat ((s.reg .rax).setWidth 8) := rfl

theorem iterateFill_rest (k : ℕ) :
    (fillStep^[k] s).flags = s.flags ∧ (fillStep^[k] s).reg .rax = s.reg .rax := by
  induction k with
  | zero => exact ⟨rfl, rfl⟩
  | succ k ih =>
    rw [Function.iterate_succ_apply']
    exact ⟨ih.1, ih.2⟩

theorem iterateFill_pointer (hdf : s.flags &&& directionFlag = 0) (k : ℕ) :
    (fillStep^[k] s).reg .rdi = s.reg .rdi + BitVec.ofNat 64 k := by
  induction k with
  | zero => exact (BitVec.add_zero _).symm
  | succ k ih =>
    have hstride : (fillStep^[k] s).stride = 1 := by
      rw [stride, (iterateFill_rest k).1, if_pos hdf]
    rw [Function.iterate_succ_apply']
    change (fillStep^[k] s).reg .rdi + (fillStep^[k] s).stride = _
    rw [ih, hstride, BitVec.add_assoc, BitVec.ofNat_add]
    rfl

theorem iterate_fill (hdf : s.flags &&& directionFlag = 0) {n : ℕ}
    (hdst : (s.reg .rdi).toNat + n ≤ 2 ^ 64) {k : ℕ} (hk : k ≤ n) :
    (fillStep^[k] s).ram = fill s.ram (s.reg .rdi).toNat k ((s.reg .rax).setWidth 8) := by
  induction k with
  | zero =>
    funext x
    exact (fill_outside (by omega)).symm
  | succ k ih =>
    have hto : ((fillStep^[k] s).reg .rdi).toNat = (s.reg .rdi).toNat + k := by
      rw [iterateFill_pointer hdf, BitVec.toNat_add, BitVec.toNat_ofNat]
      omega
    rw [Function.iterate_succ_apply', fillStep_ram, ih (by omega), hto, (iterateFill_rest k).2]
    exact fill_above

end Cpu

end X86
