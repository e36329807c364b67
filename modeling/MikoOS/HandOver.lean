import MikoOS.LongMode
import MikoOS.Head
import MikoOS.EntryCode
import MikoOS.PageAllocator

/-!
# `head.S` and the processor mode

The kernel's first instructions, which still run at 1 MiB: they complete the kernel's own tables,
switch to them in place, and return into the high half; there the BSS is cleared and the kernel
stack taken before `Start_Kernel` is called. `processor.rs` then compares the processor with what
this start must have left.
-/

namespace MikoOS.HandOver

open ByteMemory PageWalk X86 Loader Rust

/-- Where the linker put what `head.S` names: distances from the high half, which are the physical
addresses. `low` numbers the instructions from `_start`, `high` those from `entry64`. -/
structure KernelPlaces where
  gdtTable : ℕ
  gdtPointer : ℕ
  bss : ℕ
  endbss : ℕ
  stackTop : ℕ
  startKernel : ℕ
  low : ℕ → ℕ
  high : ℕ → ℕ

/-- The stack `Start_Kernel` is called on. -/
def bootStack (k : KernelPlaces) : BitVec 64 := BitVec.ofNat 64 (pageOffset + k.stackTop) &&& -16

/-- What `kernel.lds` and the assembler fix: code and tables of `head.S` first, then the data with the
descriptor table, the BSS with the stack last, and all below 10 MiB. -/
structure Linked (k : KernelPlaces) : Prop where
  first : k.low 0 = 0x100000
  low_inside : ∀ i, 0x100000 ≤ k.low i ∧ k.low i < 0x101000
  high_inside : ∀ i, 0x100000 ≤ k.high i ∧ k.high i < 0x101000
  gdtTable_inside : 0x104000 ≤ k.gdtTable ∧ k.gdtTable + 80 ≤ k.bss
  gdtPointer_inside : 0x104000 ≤ k.gdtPointer ∧ k.gdtPointer + 10 ≤ k.bss
  stack_inside : k.bss + 65536 ≤ k.stackTop ∧ k.stackTop ≤ k.endbss
  endbss_lt : k.endbss < directRamEnd
  startKernel_lt : k.startKernel < directRamEnd

/-- The kernel image, as loaded. -/
structure KernelLoaded (k : KernelPlaces) (ram : Memory) : Prop where
  tables : HeadLoaded ram
  code64 : load64 ram (k.gdtTable + 8) = 0x0020980000000000
  data64 : load64 ram (k.gdtTable + 16) = 0x0000920000000000
  limit : load ram k.gdtPointer 2 = 79
  base : load ram (k.gdtPointer + 2) 8 = pageOffset + k.gdtTable

variable {k : KernelPlaces} {m : ModeCpu} {ram ram' : Memory} {base : BitVec 32} {x : ℕ}

theorem bootTables_congr {low : BitVec 64} (h : BootTables low base ram)
    (hsame : ∀ x, 0x101000 ≤ x → x < 0x104000 → ram' x = ram x) : BootTables low base ram' := by
  have hentry : ∀ table i, i < 512 → 0x101000 ≤ table → table ≤ 0x103000 →
      entryAt ram' table i = entryAt ram table i := by
    intro table i hi hlow hhigh
    apply load64_congr
    intro j hj
    exact hsame _ (by omega) (by omega)
  constructor
  · rw [hentry _ _ (by decide) (by decide) (by decide), h.pml4_low]
  · rw [hentry _ _ (by decide) (by decide) (by decide), h.pml4_high]
  · intro i hi h0 h256
    rw [hentry _ _ hi (by decide) (by decide), h.pml4_other i hi h0 h256]
  · rw [hentry _ _ (by decide) (by decide) (by decide), h.pdpt_first]
  · intro i hi h0
    rw [hentry _ _ hi (by decide) (by decide), h.pdpt_other i hi h0]
  · intro i hi
    rw [hentry _ _ (by omega) (by decide) (by decide), h.pde_ram i hi]
  · intro i hi
    rw [hentry _ _ (by omega) (by decide) (by decide), h.pde_framebuffer i hi]
  · intro i hi h13
    rw [hentry _ _ hi (by decide) (by decide), h.pde_other i hi h13]

/-- The processor runs on the kernel's own tables. -/
structure OnBootTables (base : BitVec 32) (m : ModeCpu) : Prop where
  paging : m.paging = true
  active : m.longActive = true
  fourLevel : m.fiveLevel = false
  root : m.cr3 = 0x101000
  tables : BootTables 0x102003 base m.ram

theorem OnBootTables.frame_eq (h : OnBootTables base m) : frame m.cr3 = pml4Address := by
  rw [h.root]
  decide

theorem OnBootTables.translate_high (h : OnBootTables base m) (hx : x < directRamEnd) :
    m.translate (pageOffset + x) = some x := by
  have hwalk := h.tables.walk_ram hx
  rw [← h.frame_eq] at hwalk
  exact translate_walk h.paging h.active h.fourLevel hwalk

theorem OnBootTables.place_high (h : OnBootTables base m) {n : ℕ} (hn : 0 < n)
    (hx : x + n ≤ directRamEnd) : m.place (pageOffset + x) n = some x := by
  apply place_of_translate hn
  intro i hi
  rw [Nat.add_assoc]
  exact h.translate_high (by omega)

/-- What the Loader leaves to `_start`. -/
structure AtStart (m : ModeCpu) : Prop where
  paging : m.paging = true
  active : m.longActive = true
  fourLevel : m.fiveLevel = false
  protectedMode : m.protectedMode = true
  long : m.long = true
  root : m.cr3 = 0x90000
  tables : TemporaryTables m.ram
  rip : m.rip = 0x100000
  rsp : m.rsp = 0x7e00

theorem start_outside (hx : x < 0x103028 ∨ 0x103068 ≤ x) : start ram x = ram x := by
  have hwrite : ∀ n rax rdi (ram : Memory), x < rdi ∨ rdi + 8 * n ≤ x → writePdes n rax rdi ram x = ram x := by
    intro n
    induction n with
    | zero =>
      intro rax rdi ram h
      rfl
    | succ n ih =>
      intro rax rdi ram h
      rw [writePdes, ih _ _ _ (by omega), store64_outside (by omega)]
  exact hwrite 8 _ _ ram (by rw [pdeAddress]; omega)

/-- Memory with the two words `lretq` pops. -/
def pushReturn (k : KernelPlaces) (ram : Memory) : Memory :=
  store64 (store64 ram (0x7df0 + 8) ((0x8 : BitVec 16).setWidth 64)) 0x7df0
    (BitVec.ofNat 64 (pageOffset + k.high 0))

/-- The state on the kernel's own tables, before the far return. -/
def lowState (k : KernelPlaces) (m : ModeCpu) : ModeCpu :=
  { m with
    flags := m.flags &&& ~~~interruptFlag &&& ~~~directionFlag
    cr3 := 0x101000
    gdtLimit := 79
    gdtBase := pageOffset + k.gdtTable
    ram := start m.ram }

/-- The state at `entry64`. -/
def highState (k : KernelPlaces) (m : ModeCpu) : ModeCpu :=
  { lowState k m with
    cs := 8
    long := true
    big := false
    rip := pageOffset + k.high 0
    ram := pushReturn k (start m.ram) }

/-- The state with the data segments loaded and the BSS cleared. -/
def clearState (k : KernelPlaces) (m : ModeCpu) : ModeCpu :=
  { highState k m with
    seg := fun _ => 0x10
    base := fun _ => 0
    ram := fill (pushReturn k (start m.ram)) k.bss (k.endbss - k.bss) 0 }

/-- The state at the first instruction of `Start_Kernel`. -/
def kernelState (k : KernelPlaces) (m : ModeCpu) : ModeCpu :=
  { clearState k m with
    rsp := bootStack k - 8
    rip := pageOffset + k.startKernel
    ram := store64 (clearState k m).ram (k.stackTop / 16 * 16 - 8) (BitVec.ofNat 64 (pageOffset + k.high 4)) }

theorem bootStack_toNat (hk : Linked k) : (bootStack k).toNat = pageOffset + k.stackTop / 16 * 16 := by
  have hstack := hk.stack_inside
  have hend := hk.endbss_lt
  rw [directRamEnd] at hend
  rw [bootStack, Entry.alignDown_toNat, BitVec.toNat_ofNat, pageOffset]
  omega

/-- Descriptor `n` of the kernel's table through the high half. -/
theorem OnBootTables.descriptor_eq (h : OnBootTables base m) (hk : Linked k)
    (hbase : m.gdtBase = pageOffset + k.gdtTable) (hlimit : m.gdtLimit = 79) {selector : BitVec 16}
    {n : ℕ} {d : BitVec 64} (hselector : selector &&& 0xfffc ≠ 0 ∧ selector.toNat / 8 * 8 = n)
    (hn : n < 80) (hmod : n % 8 = 0) (hd : load64 m.ram (k.gdtTable + n) = d) :
    m.descriptor selector = some d := by
  have hgdt := hk.gdtTable_inside
  have hstack := hk.stack_inside
  have hend := hk.endbss_lt
  have hplace : m.place (m.gdtBase + n) 8 = some (k.gdtTable + n) := by
    rw [hbase, Nat.add_assoc]
    exact h.place_high (by decide) (by omega)
  exact X86.descriptor_eq hselector (by omega) hplace hd

theorem pushReturn_outside (hx : x < 0x7df0 ∨ 0x7e00 ≤ x) : pushReturn k ram x = ram x := by
  rw [pushReturn, store64_outside (by omega), store64_outside (by omega)]

/-- The kernel image above `head.S` keeps what it holds until the BSS is cleared. -/
theorem pushReturn_start {n : ℕ} (hn : 0x104000 ≤ n) : load64 (pushReturn k (start ram)) n = load64 ram n := by
  apply load64_congr
  intro i hi
  rw [pushReturn_outside (Or.inr (by omega)), start_outside (Or.inr (by omega))]

theorem lowState_tables (hloaded : KernelLoaded k m.ram) (hm : AtStart m) :
    OnBootTables (load32 m.ram framebufferField) (lowState k m) :=
  ⟨hm.paging, hm.active, hm.fourLevel, rfl, start_bootTables hloaded.tables⟩

theorem highState_tables (hloaded : KernelLoaded k m.ram) (hm : AtStart m) :
    OnBootTables (load32 m.ram framebufferField) (highState k m) :=
  ⟨hm.paging, hm.active, hm.fourLevel, rfl, bootTables_congr (lowState_tables hloaded hm).tables fun x hlow _ =>
    pushReturn_outside (Or.inr (by omega))⟩

theorem bootStack_call (hk : Linked k) :
    (bootStack k - 8).toNat = pageOffset + (k.stackTop / 16 * 16 - 8) := by
  have hstack := hk.stack_inside
  have hrsp := bootStack_toNat hk
  have height : (8 : BitVec 64).toNat = 8 := rfl
  rw [BitVec.toNat_sub_of_le (BitVec.le_def.mpr (by omega)), height, hrsp]
  omega

end MikoOS.HandOver
