import MikoOS.Library.Modes
import MikoOS.PhysicalPages

/-!
# The Loader enters 64-bit mode

The end of `loader.asm`: protected mode, the test for long mode, three temporary tables at 0x90000 and
the switch to IA-32e mode. The tables map the first 12 MiB twice, at their own addresses and in the
high half, and nothing else; so every instruction of the switch is fetched from where it was loaded,
before and after paging is enabled.
-/

namespace MikoOS.Loader

open ByteMemory PageWalk X86

/-- Where the assembler put code and tables; `real` and `flat` are the addresses of the instructions
in 16-bit and 32-bit code. -/
structure Places where
  gdt : ℕ
  gdtPtr : ℕ
  gdt64 : ℕ
  gdtPtr64 : ℕ
  real : ℕ → ℕ
  flat : ℕ → ℕ

/-- From `cli` to the jump to GO_TO_TMP_Protect; 16-bit code has 16 bits of an address. -/
def enterProtected (l : Places) : List Placed :=
  placeCode l.real l.real 0 [.cli, .lgdt (l.gdtPtr % 2 ^ 16) 4, .orCr0 1#64, .jump 0x8 (l.flat 0)]

structure Leaf where
  eax : BitVec 32
  edx : BitVec 32

def supportLongMode (cpuid : BitVec 32 → Leaf) : Bool :=
  if (cpuid 0x80000000).eax < 0x80000001 then false else (cpuid 0x80000001).edx.getLsbD 29

/-- GO_TO_TMP_Protect up to the call of `support_long_mode`, which leaves its return address. -/
def enterFlat (l : Places) : List Placed :=
  placeCode l.flat l.flat 0 [.setSegments [.ds, .es, .fs, .ss] 0x10, .setStack 0x7e00,
    .store .ss 0x7dfc 4 (l.flat 3)]

def temporaryStores : List (ℕ × ℕ) :=
  [(0x90000, 0x91007), (0x90800, 0x91007), (0x91000, 0x92007), (0x92000, 0x000083),
    (0x92008, 0x200083), (0x92010, 0x400083), (0x92018, 0x600083), (0x92020, 0x800083),
    (0x92028, 0xa00083)]

def temporaryTables : List Instr :=
  .cld :: .clear 0x90000 (3 * 4096) :: temporaryStores.map fun s => .store .ds s.1 4 s.2

/-- From the descriptor table for 64-bit code to the jump into `head.S`. -/
def activate (l : Places) : List Instr :=
  [.lgdt l.gdtPtr64 3, .setSegments [.ds, .es, .fs, .gs, .ss] 0x10, .setStack 0x7e00,
    .orCr4 (1#64 <<< 5), .setCr3 0x90000, .orEfer (1#64 <<< 8), .orCr0 (1#64 ||| 1#64 <<< 31),
    .jump 0x8 0x100000]

/-- What follows the test of the answer, the fourth instruction of GO_TO_TMP_Protect. -/
def enterLong (l : Places) : List Placed := placeCode l.flat l.flat 4 (temporaryTables ++ activate l)

/-- The Loader ends in the loop `no_support` or in `head.S`; `none` is a fault on the way. -/
def leave (l : Places) (cpuid : BitVec 32 → Leaf) (m : ModeCpu) : Option (Bool × ModeCpu) := do
  let m ← runCode 16 (enterProtected l) m
  let m ← enterCode 32 (enterFlat l) m
  if supportLongMode cpuid then return (true, ← runCode 32 (enterLong l) m) else return (false, m)

structure TemporaryTables (ram : Memory) : Prop where
  pml4_low : entryAt ram 0x90000 0 = 0x91007
  pml4_high : entryAt ram 0x90000 256 = 0x91007
  pml4_other : ∀ i < 512, i ≠ 0 → i ≠ 256 → entryAt ram 0x90000 i = 0
  pdpt_first : entryAt ram 0x91000 0 = 0x92007
  pdpt_other : ∀ i < 512, i ≠ 0 → entryAt ram 0x91000 i = 0
  pde_first : ∀ i < 6, entryAt ram 0x92000 i = BitVec.ofNat 64 (i * 0x200000 + 0x83)
  pde_other : ∀ i < 512, 6 ≤ i → entryAt ram 0x92000 i = 0

def writeTables (ram : Memory) : Memory := storeAll temporaryStores (fill ram 0x90000 (3 * 4096) 0)

variable {ram : Memory} {v x : ℕ}

theorem writeTables_outside (h : x < 0x90000 ∨ 0x93000 ≤ x) : writeTables ram x = ram x := by
  simp (disch := omega) only [writeTables, storeAll, temporaryStores, List.foldl_cons, List.foldl_nil,
        store_outside, fill_outside]

/-- A quadword whose low half was stored over zeros. -/
theorem load64_low {a w : ℕ} (hlow : load ram a 4 = w) (hhigh : ∀ i < 4, ram (a + 4 + i) = 0) :
    load64 ram a = BitVec.ofNat 64 w := by
  have hzero : load ram (a + 4) 4 = 0 := load_eq_zero hhigh
  have hsplit : load ram a (4 + 4) = load ram a 4 + 256 ^ 4 * load ram (a + 4) 4 := load_add ram a 4 4
  rw [load64, hsplit, hlow, hzero, Nat.mul_zero, Nat.add_zero]

def temporaryQuad (a : ℕ) : ℕ :=
  if a = 0x90000 ∨ a = 0x90800 then 0x91007
  else if a = 0x91000 then 0x92007
  else if 0x92000 ≤ a ∧ a < 0x92030 then (a - 0x92000) / 8 * 0x200000 + 0x83
  else 0

theorem load64_writeTables {a : ℕ} (hlow : 0x90000 ≤ a) (hhigh : a + 8 ≤ 0x93000) (hmod : a % 8 = 0) :
    load64 (writeTables ram) a = BitVec.ofNat 64 (temporaryQuad a) := by
  apply load64_low
  · by_cases hstored : a ∈ [0x90000, 0x90800, 0x91000, 0x92000, 0x92008, 0x92010, 0x92018, 0x92020,
        0x92028]
    · simp only [List.mem_cons, List.not_mem_nil, or_false] at hstored
      rcases hstored with rfl | rfl | rfl | rfl | rfl | rfl | rfl | rfl | rfl <;>
        simp (disch := omega) only [writeTables, storeAll, temporaryStores, List.foldl_cons, List.foldl_nil,
        load_store_outside, load_store_same] <;> rfl
    · simp only [List.mem_cons, List.not_mem_nil, or_false, not_or] at hstored
      have hquad : temporaryQuad a = 0 := by
        rw [temporaryQuad, if_neg (by omega), if_neg (by omega), if_neg (by omega)]
      rw [hquad]
      apply load_eq_zero
      intro i hi
      simp (disch := omega) only [writeTables, storeAll, temporaryStores, List.foldl_cons, List.foldl_nil,
        store_outside]
      exact fill_inside (by omega)
  · intro i hi
    simp (disch := omega) only [writeTables, storeAll, temporaryStores, List.foldl_cons, List.foldl_nil,
        store_outside]
    exact fill_inside (by omega)

theorem writeTables_temporary (ram : Memory) : TemporaryTables (writeTables ram) := by
  have hentry : ∀ table i, 0x90000 ≤ table → table + 8 * i + 8 ≤ 0x93000 → table % 8 = 0 →
      entryAt (writeTables ram) table i = BitVec.ofNat 64 (temporaryQuad (table + 8 * i)) :=
    fun table i hlow hhigh hmod => load64_writeTables (by omega) hhigh (by omega)
  have hzero : ∀ table i, 0x90000 ≤ table → table + 8 * i + 8 ≤ 0x93000 → table % 8 = 0 →
      temporaryQuad (table + 8 * i) = 0 → entryAt (writeTables ram) table i = 0 := by
    intro table i hlow hhigh hmod hquad
    rw [hentry table i hlow hhigh hmod, hquad]
    rfl
  constructor
  · exact hentry _ 0 (by decide) (by decide) (by decide)
  · exact hentry _ 256 (by decide) (by decide) (by decide)
  · intro i hi h0 h256
    apply hzero _ i (by decide) (by omega) (by decide)
    rw [temporaryQuad, if_neg (by omega), if_neg (by omega), if_neg (by omega)]
  · exact hentry _ 0 (by decide) (by decide) (by decide)
  · intro i hi h0
    apply hzero _ i (by decide) (by omega) (by decide)
    rw [temporaryQuad, if_neg (by omega), if_neg (by omega), if_neg (by omega)]
  · intro i hi
    rw [hentry _ i (by decide) (by omega) (by decide), temporaryQuad, if_neg (by omega), if_neg (by omega),
      if_pos (by omega), Nat.add_sub_cancel_left, Nat.mul_div_cancel_left i (by decide)]
  · intro i hi h6
    apply hzero _ i (by decide) (by omega) (by decide)
    rw [temporaryQuad, if_neg (by omega), if_neg (by omega), if_neg (by omega)]

/-- Descriptor tables and code as assembled, within the 64 KiB from 0x10000. -/
structure Assembled (l : Places) (ram : Memory) : Prop where
  code32 : load64 ram (l.gdt + 8) = 0x00cf9a000000ffff
  data32 : load64 ram (l.gdt + 16) = 0x00cf92000000ffff
  limit : load ram l.gdtPtr 2 = 31
  base : load ram (l.gdtPtr + 2) 4 = l.gdt
  code64 : load64 ram (l.gdt64 + 8) = 0x0020980000000000
  data64 : load64 ram (l.gdt64 + 16) = 0x0000920000000000
  limit64 : load ram l.gdtPtr64 2 = 23
  base64 : load ram (l.gdtPtr64 + 2) 4 = l.gdt64
  inside : ∀ a ∈ [l.gdt, l.gdtPtr, l.gdt64, l.gdtPtr64], 0x10000 ≤ a ∧ a + 32 ≤ 0x20000
  flat_inside : ∀ i, 0x10000 ≤ l.flat i ∧ l.flat i < 0x20000

/-- Real mode with a 16-bit code segment, the Loader's own DS = 0x1000, and no request for five levels. -/
structure RealMode (m : ModeCpu) : Prop where
  unprotected : m.protectedMode = false
  unpaged : m.paging = false
  inactive : m.longActive = false
  short : m.long = false
  narrow : m.big = false
  data : m.base .ds = 0x10000
  fourLevel : m.fiveLevel = false

variable {l : Places} {m : ModeCpu}

theorem Assembled.congr {ram' : Memory} (h : Assembled l ram)
    (hsame : ∀ x, 0x10000 ≤ x → x < 0x20000 → ram' x = ram x) : Assembled l ram' := by
  have hquad : ∀ a, 0x10000 ≤ a → a + 8 ≤ 0x20000 → load64 ram' a = load64 ram a :=
    fun a hlow hhigh => load64_congr fun i hi => hsame _ (by omega) (by omega)
  have hload : ∀ a n, 0x10000 ≤ a → a + n ≤ 0x20000 → load ram' a n = load ram a n :=
    fun a n hlow hhigh => load_congr fun i hi => hsame _ (by omega) (by omega)
  have hinside := h.inside
  simp only [List.forall_mem_cons, List.not_mem_nil, false_implies, implies_true, and_true] at hinside
  obtain ⟨hgdt, hgdtPtr, hgdt64, hgdtPtr64⟩ := hinside
  constructor
  · rw [hquad _ (by omega) (by omega), h.code32]
  · rw [hquad _ (by omega) (by omega), h.data32]
  · rw [hload _ _ (by omega) (by omega), h.limit]
  · rw [hload _ _ (by omega) (by omega), h.base]
  · rw [hquad _ (by omega) (by omega), h.code64]
  · rw [hquad _ (by omega) (by omega), h.data64]
  · rw [hload _ _ (by omega) (by omega), h.limit64]
  · rw [hload _ _ (by omega) (by omega), h.base64]
  · exact h.inside
  · exact h.flat_inside

def protectedState (l : Places) (m : ModeCpu) : ModeCpu :=
  { m with
    flags := m.flags &&& ~~~interruptFlag
    gdtLimit := 31
    gdtBase := l.gdt
    cr0 := m.cr0 ||| 1#64
    cs := 8
    long := false
    big := true
    rip := l.flat 0 }

/-- The state `support_long_mode` is called in, with its return address on the stack. -/
def calledState (l : Places) (m : ModeCpu) : ModeCpu :=
  { protectedState l m with
    seg := fun s => if s ∈ [.ds, .es, .fs, .ss] then 0x10 else m.seg s
    base := fun s => if s ∈ [.ds, .es, .fs, .ss] then 0 else m.base s
    rsp := 0x7e00
    ram := store m.ram 0x7dfc 4 (l.flat 3) }

def longState (l : Places) (m : ModeCpu) : ModeCpu where
  cr0 := m.cr0 ||| 1#64 ||| (1#64 ||| 1#64 <<< 31)
  cr3 := 0x90000
  cr4 := m.cr4 ||| 1#64 <<< 5
  efer := m.efer ||| 1#64 <<< 8 ||| 1#64 <<< 10
  gdtBase := l.gdt64
  gdtLimit := 23
  cs := 8
  long := true
  big := false
  seg := fun _ => 0x10
  base := fun _ => 0
  rip := 0x100000
  rsp := 0x7e00
  flags := m.flags &&& ~~~interruptFlag &&& ~~~directionFlag
  ram := writeTables (store m.ram 0x7dfc 4 (l.flat 3))

def tabledState (l : Places) (m : ModeCpu) : ModeCpu :=
  { calledState l m with
    flags := m.flags &&& ~~~interruptFlag &&& ~~~directionFlag
    ram := writeTables (store m.ram 0x7dfc 4 (l.flat 3)) }

def readyState (l : Places) (m : ModeCpu) : ModeCpu :=
  { tabledState l m with
    gdtLimit := 23
    gdtBase := l.gdt64
    seg := fun _ => 0x10
    base := fun _ => 0
    rsp := 0x7e00
    cr4 := m.cr4 ||| 1#64 <<< 5
    cr3 := 0x90000
    efer := m.efer ||| 1#64 <<< 8 }

theorem readyState_fourLevel (hreal : RealMode m) : (readyState l m).fiveLevel = false := by
  have hfour : m.cr4.getLsbD 12 = false := hreal.fourLevel
  rw [ModeCpu.fiveLevel, readyState, BitVec.getLsbD_or, hfour]
  decide

theorem clear_interruptFlag (flags : BitVec 64) :
    (flags &&& ~~~interruptFlag).getLsbD 9 = false := by
  rw [BitVec.getLsbD_and]
  exact Bool.and_false _

def samplePlaces : Places where
  gdt := 0x10010
  gdtPtr := 0x10030
  gdt64 := 0x10040
  gdtPtr64 := 0x10058
  real := fun i => 0x10100 + i
  flat := fun i => 0x10200 + i % 0x100

def sampleLoader : Memory :=
  let ram := store64 (store64 (fun _ => 0) 0x10018 0x00cf9a000000ffff) 0x10020 0x00cf92000000ffff
  let ram := store (store ram 0x10030 2 31) 0x10032 4 0x10010
  let ram := store64 (store64 ram 0x10048 0x0020980000000000) 0x10050 0x0000920000000000
  store (store ram 0x10058 2 23) 0x1005a 4 0x10040

def sampleReal : ModeCpu where
  cr0 := 0x10
  cr3 := 0
  cr4 := 0
  efer := 0
  gdtBase := 0
  gdtLimit := 0xffff
  cs := 0x1000
  long := false
  big := false
  seg := fun s => if s = .ss then 0 else 0x1000
  base := fun s => if s = .ss then 0 else 0x10000
  rip := 0x100
  rsp := 0x7c00
  flags := 0x602
  ram := sampleLoader

def sampleCpuid (leaf : BitVec 32) : Leaf :=
  if leaf = 0x80000000 then ⟨0x80000008, 0⟩ else ⟨0, 0x2c100800⟩

end MikoOS.Loader
