import MikoOS.PhysicalPages
import MikoOS.Library.PageWalk

/-!
# The boot page tables

`head.S` lays three tables at fixed addresses of the kernel image: `__PML4E` with one entry for the
low and one for the high half, `__PDPTE`, and `__PDE` with five 2 MiB pages of RAM. `_start` then
writes eight entries for the framebuffer whose physical base the Loader left at 0x8228. Through the
high half, the first 10 MiB and the framebuffer window translate linearly.
-/

namespace MikoOS

open ByteMemory PageWalk

def pml4Address : ℕ := 0x101000
def pdptAddress : ℕ := 0x102000
def pdeAddress : ℕ := 0x103000

/-- Where the VBE mode block holds the physical base of the framebuffer. -/
def framebufferField : ℕ := 0x8228

/-- Quadword `i` of `__PML4E`, `__PDPTE` and `__PDE` as assembled. -/
def headQuad (i : ℕ) : BitVec 64 :=
  if i = 0 ∨ i = 256 then 0x102003
  else if i = 512 then 0x103003
  else if 1024 ≤ i ∧ i < 1029 then BitVec.ofNat 64 ((i - 1024) * 0x200000 + 0x83)
  else 0

/-- The kernel image, as loaded, holds the assembled tables. -/
def HeadLoaded (ram : Memory) : Prop := ∀ i < 1536, load64 ram (pml4Address + 8 * i) = headQuad i

/-- Memory with the assembled tables at their place in the kernel image. -/
def layHead (ram : Memory) : Memory := fun x =>
  if pml4Address ≤ x ∧ x < pml4Address + 8 * 1536 then
    BitVec.ofNat 8 ((headQuad ((x - pml4Address) / 8)).toNat / 256 ^ ((x - pml4Address) % 8))
  else ram x

theorem headLoaded_layHead (ram : Memory) : HeadLoaded (layHead ram) := fun i hi => by
  rw [← load64_store64 ram (pml4Address + 8 * i) (headQuad i)]
  refine load64_congr fun k hk => ?_
  rw [layHead, store64, store, if_pos (by omega), if_pos (by omega),
    show (pml4Address + 8 * i + k - pml4Address) / 8 = i by omega,
    show (pml4Address + 8 * i + k - pml4Address) % 8 = k by omega,
    show pml4Address + 8 * i + k - (pml4Address + 8 * i) = k by omega]

/-- `movl 0x8228, %eax; andl $0xffe00000, %eax; orq $0x83, %rax`. -/
def framebufferEntry (base : BitVec 32) : BitVec 64 :=
  (base &&& 0xffe00000#32).setWidth 64 ||| 0x83#64

/-- The loop of `_start`: `n` more entries from `rdi`, the next one being `rax`. -/
def writePdes : ℕ → BitVec 64 → ℕ → Memory → Memory
  | 0, _, _, ram => ram
  | n + 1, rax, rdi, ram => writePdes n (rax + 0x200000#64) (rdi + 8) (store64 ram rdi rax)

def start (ram : Memory) : Memory :=
  writePdes 8 (framebufferEntry (load32 ram framebufferField)) (pdeAddress + 40) ram

/-- The tables for a first entry `low` of the root and a framebuffer field `base`. -/
structure BootTables (low : BitVec 64) (base : BitVec 32) (ram : Memory) : Prop where
  pml4_low : entryAt ram pml4Address 0 = low
  pml4_high : entryAt ram pml4Address 256 = 0x102003#64
  pml4_other : ∀ i < 512, i ≠ 0 → i ≠ 256 → entryAt ram pml4Address i = 0
  pdpt_first : entryAt ram pdptAddress 0 = 0x103003#64
  pdpt_other : ∀ i < 512, i ≠ 0 → entryAt ram pdptAddress i = 0
  pde_ram : ∀ i < 5, entryAt ram pdeAddress i = BitVec.ofNat 64 (i * 0x200000 + 0x83)
  pde_framebuffer : ∀ i < 8,
    entryAt ram pdeAddress (5 + i) = framebufferEntry base + BitVec.ofNat 64 (i * 0x200000)
  pde_other : ∀ i < 512, 13 ≤ i → entryAt ram pdeAddress i = 0

theorem load64_writePdes_outside (n : ℕ) (rax : BitVec 64) (rdi a : ℕ) (ram : Memory)
    (h : a + 8 ≤ rdi ∨ rdi + 8 * n ≤ a) : load64 (writePdes n rax rdi ram) a = load64 ram a := by
  induction n generalizing rax rdi ram with
  | zero => rfl
  | succ n ih => rw [writePdes, ih _ _ _ (by omega), load64_store64_outside (by omega)]

theorem load64_writePdes (n : ℕ) (rax : BitVec 64) (rdi : ℕ) (ram : Memory) {j : ℕ} (hj : j < n) :
    load64 (writePdes n rax rdi ram) (rdi + 8 * j) = rax + BitVec.ofNat 64 (j * 0x200000) := by
  induction n generalizing rax rdi ram j with
  | zero => exact absurd hj (Nat.not_lt_zero j)
  | succ n ih =>
    rw [writePdes]
    cases j with
    | zero =>
      rw [show rdi + 8 * 0 = rdi from rfl, load64_writePdes_outside _ _ _ _ _ (by omega),
        load64_store64, Nat.zero_mul]
      exact (BitVec.add_zero rax).symm
    | succ j =>
      rw [show rdi + 8 * (j + 1) = rdi + 8 + 8 * j by omega, ih _ _ _ (by omega), BitVec.add_assoc,
        ← BitVec.ofNat_add, show 0x200000 + j * 0x200000 = (j + 1) * 0x200000 by omega]

theorem start_bootTables {ram : Memory} (h : HeadLoaded ram) :
    BootTables 0x102003 (load32 ram framebufferField) (start ram) := by
  have hframe : ∀ a, a + 8 ≤ pdeAddress + 40 ∨ pdeAddress + 40 + 64 ≤ a →
      load64 (start ram) a = load64 ram a := fun a ha =>
    load64_writePdes_outside 8 _ _ a ram ha
  have hquad : ∀ table i, table + 8 * i + 8 ≤ pdeAddress + 40 ∨ pdeAddress + 40 + 64 ≤ table + 8 * i →
      ∀ j < 1536, table + 8 * i = pml4Address + 8 * j → entryAt (start ram) table i = headQuad j :=
    fun table i houtside j hj heq => by
      rw [entryAt, hframe _ houtside, heq, h j hj]
  simp only [pdeAddress, pml4Address] at hquad
  exact {
    pml4_low := hquad _ 0 (by decide) 0 (by decide) rfl
    pml4_high := hquad _ 256 (by decide) 256 (by decide) rfl
    pml4_other := fun i hi h0 h256 => by
      rw [pml4Address, hquad _ i (by omega) i (by omega) rfl, headQuad, if_neg (by omega),
        if_neg (by omega), if_neg (by omega)]
    pdpt_first := hquad _ 0 (by decide) 512 (by decide) rfl
    pdpt_other := fun i hi h0 => by
      rw [pdptAddress, hquad _ i (by omega) (512 + i) (by omega) (by omega), headQuad,
        if_neg (by omega), if_neg (by omega), if_neg (by omega)]
    pde_ram := fun i hi => by
      rw [pdeAddress, hquad _ i (by omega) (1024 + i) (by omega) (by omega), headQuad,
        if_neg (by omega), if_neg (by omega), if_pos (by omega), Nat.add_sub_cancel_left]
    pde_framebuffer := fun i hi => by
      rw [entryAt, start, show pdeAddress + 8 * (5 + i) = pdeAddress + 40 + 8 * i by omega,
        load64_writePdes 8 _ _ ram hi]
    pde_other := fun i hi h13 => by
      rw [pdeAddress, hquad _ i (by omega) (1024 + i) (by omega) (by omega), headQuad,
        if_neg (by omega), if_neg (by omega), if_neg (by omega)] }

variable {low : BitVec 64} {base : BitVec 32} {ram : Memory}

theorem BootTables.walk_window (h : BootTables low base ram) {x : ℕ} (hx : x < 0x1a00000)
    {e : BitVec 64} (he : entryAt ram pdeAddress (x / 2 ^ 21) = e) (hp : present e = true)
    (hl : large e = true) :
    walk ram pml4Address (pageOffset + x) =
      some ⟨frame e / 2 ^ 21 * 2 ^ 21 + x % 2 ^ 21,
        (Rights.mk false true false).meet (.ofEntry e)⟩ := by
  have h4 : lookup ram 3 pml4Address (pageOffset + x) = 0x102003#64 := by
    rw [lookup, ← h.pml4_high, pageOffset, spanOf]
    congr 1
    omega
  have h3 : lookup ram 2 pdptAddress (pageOffset + x) = 0x103003#64 := by
    rw [lookup, ← h.pdpt_first, pageOffset, spanOf]
    congr 1
    omega
  have h2 : lookup ram 1 pdeAddress (pageOffset + x) = e := by
    rw [lookup, ← he, pageOffset, spanOf]
    congr 1
    omega
  rw [walk, walkFrom_table h4 (by decide) (by decide), show frame 0x102003#64 = pdptAddress by decide,
    walkFrom_table h3 (by decide) (by decide), show frame 0x103003#64 = pdeAddress by decide,
    walkFrom_large h2 hp hl (by decide), page, spanOf]
  congr 2
  rw [pageOffset]
  omega

/-- The first 10 MiB of RAM at their high-half addresses. -/
theorem BootTables.walk_ram (h : BootTables low base ram) {x : ℕ} (hx : x < directRamEnd) :
    walk ram pml4Address (pageOffset + x) = some ⟨x, ⟨false, true, false⟩⟩ := by
  rw [directRamEnd] at hx
  obtain ⟨i, hi⟩ : ∃ i, i = x / 2 ^ 21 := ⟨_, rfl⟩
  have hlt : i < 5 := by omega
  have hentry := h.pde_ram i hlt
  have hmod := Nat.div_add_mod x (2 ^ 21)
  rw [← hi] at hmod
  rw [hi] at hentry
  rw [h.walk_window (by omega) hentry]
  · rw [← hi]
    interval_cases i <;> congr 2
  · rw [← hi]
    interval_cases i <;> decide
  · rw [← hi]
    interval_cases i <;> decide

/-- Where the framebuffer window begins in physical memory. -/
def framebufferBase (base : BitVec 32) : ℕ := base.toNat / 2 ^ 21 * 2 ^ 21

theorem framebufferEntry_toNat (base : BitVec 32) :
    (framebufferEntry base).toNat = framebufferBase base + 0x83 := by
  have hand : (base &&& 0xffe00000#32).toNat = 2 ^ 21 * (base.toNat / 2 ^ 21) := by
    refine Nat.eq_of_testBit_eq fun j => ?_
    rw [BitVec.toNat_and, Nat.testBit_and, Nat.testBit_two_pow_mul, Nat.testBit_div_two_pow,
      show (0xffe00000#32).toNat = (2 ^ 11 - 1) <<< 21 by decide, Nat.testBit_shiftLeft,
      Nat.testBit_two_pow_sub_one]
    by_cases hj : 21 ≤ j
    · by_cases hhigh : j < 32
      · simp [hj, show j - 21 < 11 by omega]
      · have : base.toNat.testBit j = false :=
          Nat.testBit_lt_two_pow (base.isLt.trans_le (Nat.pow_le_pow_right (by decide) (by omega)))
        simp [this, hj]
    · simp [hj]
  rw [framebufferEntry, BitVec.toNat_or, BitVec.toNat_setWidth, hand, Nat.mod_eq_of_lt (by omega),
    framebufferBase, Nat.mul_comm (base.toNat / 2 ^ 21)]
  exact (Nat.two_pow_add_eq_or_of_lt (by decide) _).symm

/-- The framebuffer window behind the first 10 MiB. -/
theorem BootTables.walk_framebuffer (h : BootTables low base ram) {x : ℕ} (hx : x < 0x1000000) :
    walk ram pml4Address (pageOffset + directRamEnd + x) =
      some ⟨framebufferBase base + x, ⟨false, true, false⟩⟩ := by
  have hlt := base.isLt
  have hbase := framebufferEntry_toNat base
  rw [framebufferBase] at hbase
  obtain ⟨i, hi⟩ : ∃ i, i = x / 2 ^ 21 := ⟨_, rfl⟩
  have hentry := h.pde_framebuffer i (by omega)
  obtain ⟨e, he⟩ : ∃ e, e = framebufferEntry base + BitVec.ofNat 64 (i * 0x200000) := ⟨_, rfl⟩
  have hnat : e.toNat = base.toNat / 2 ^ 21 * 2 ^ 21 + 0x83 + i * 0x200000 := by
    rw [he, BitVec.toNat_add, hbase, BitVec.toNat_ofNat, Nat.mod_eq_of_lt (a := i * _) (by omega),
      Nat.mod_eq_of_lt (by omega)]
  have hbit : ∀ j, e.getLsbD j = e.toNat.testBit j := fun _ => rfl
  have hlow : e.toNat = 2 ^ 21 * (base.toNat / 2 ^ 21 + i) + 0x83 := by omega
  have hbits : ∀ j < 21, e.getLsbD j = Nat.testBit 0x83 j := fun j hj => by
    rw [hbit, hlow, Nat.testBit_two_pow_mul_add _ (by decide), if_pos hj]
  have hnx : e.getLsbD 63 = false := by
    rw [hbit]
    exact Nat.testBit_lt_two_pow (by omega)
  have hright : Rights.ofEntry e = ⟨false, true, false⟩ := by
    rw [Rights.ofEntry, hbits 2 (by decide), hbits 1 (by decide), hnx]
    rfl
  rw [show pageOffset + directRamEnd + x = pageOffset + (directRamEnd + x) by omega,
    h.walk_window (e := e) (by rw [directRamEnd]; omega)]
  · have hphysical : e.toNat / 2 ^ 12 * 2 ^ 12 / 2 ^ 21 * 2 ^ 21 +
        (10 * 1024 * 1024 + x) % 2 ^ 21 = base.toNat / 2 ^ 21 * 2 ^ 21 + x := by omega
    rw [frame_of_lt (by omega), hright, directRamEnd, framebufferBase, hphysical]
    rfl
  · rw [he, ← hentry, directRamEnd]
    congr 1
    omega
  · exact hbits 0 (by decide)
  · exact hbits 7 (by decide)

end MikoOS
