import MikoOS.HandOver
import MikoOS.Library.RustExec

/-!
# The processor mode check

`processor.rs` reads the control registers, EFER, CS and its descriptor and compares them with the
mode the start must have left. It accepts exactly the states in which 64-bit code runs on the
kernel's four-level tables, in ring 0 and in the high half, without interrupts; and it accepts every
state the Loader and `head.S` lead to.
-/

namespace MikoOS.Processor

open ByteMemory PageWalk X86 Rust

def cr0PE : BitVec 64 := 1
def cr0PG : BitVec 64 := 1 <<< 31
def cr4PAE : BitVec 64 := 1 <<< 5
def cr4LA57 : BitVec 64 := 1 <<< 12
def eferLME : BitVec 64 := 1 <<< 8
def eferLMA : BitVec 64 := 1 <<< 10

/-- Present code of ring 0 with L and without D, in the layout of LAR. -/
def code64 : BitVec 32 := 1 <<< 21 ||| 1 <<< 15 ||| 1 <<< 12 ||| 1 <<< 11
def codeMask : BitVec 32 := code64 ||| 1 <<< 22 ||| 3 <<< 13

def canonicalAddress (address : ℕ) : Bool := address ≤ 0x00007fffffffffff || 0xffff800000000000 ≤ address

def verifyHighHalf (address : ℕ) : Exec ModeCpu Unit := do
  require (canonicalAddress address)
    "assertion failed: address <= 0x0000_7fff_ffff_ffff || address >= 0xffff_8000_0000_0000"
  require (pageOffset ≤ address) "expected high-half execution"

/-- `verify_boot_mode` up to its report, `rip` and `rsp` being those of the reading instructions. -/
def verifyBootMode : Exec ModeCpu Unit := do
  let m ← get
  require (!m.flags.getLsbD 9) "assertion failed: !arch::interrupts_enabled()"
  require (m.cr0 &&& (cr0PE ||| cr0PG) = cr0PE ||| cr0PG) equalAssertion
  require (m.cr4 &&& cr4PAE ≠ 0) "assertion `left != right` failed"
  require (m.cr4 &&& cr4LA57 = 0) "bootstrap requires four-level paging"
  require (m.efer &&& (eferLME ||| eferLMA) = eferLME ||| eferLMA) equalAssertion
  require (m.cs = 0x08) "expected kernel GDT selector and CPL0"
  let attributes ← expect (m.lar m.cs) "cannot query current code descriptor"
  require (attributes &&& codeMask = code64) "expected present ring0 L=1 D=0 code"
  require (m.cr3 &&& 0x000ffffffffff000 = 0x101000) equalAssertion
  [m.rip, m.rsp.toNat].forM verifyHighHalf

/-- What a far transfer to 64-bit code takes from the descriptor. -/
def Code64 (d : BitVec 64) : Prop := ModeCpu.Code d ∧ d.getLsbD 53 = true

/-- The mode contract between the start and the kernel. -/
structure BootMode (m : ModeCpu) : Prop where
  interrupts : m.flags.getLsbD 9 = false
  protectedMode : m.protectedMode = true
  paging : m.paging = true
  extension : m.physicalExtension = true
  fourLevel : m.fiveLevel = false
  requested : m.longRequested = true
  active : m.longActive = true
  selector : m.cs = 0x08
  descriptor : ∃ d, m.descriptor 0x08 = some d ∧ Code64 d
  root : frame m.cr3 = 0x101000
  rip : pageOffset ≤ m.rip
  rsp : pageOffset ≤ m.rsp.toNat

variable {m : ModeCpu} {d : BitVec 64}

theorem ring0_iff : d.extractLsb' 45 2 = 0#2 ↔ d.getLsbD 45 = false ∧ d.getLsbD 46 = false := by
  have hbit : ∀ i < 2, (d.extractLsb' 45 2).getLsbD i = d.getLsbD (45 + i) := by
    intro i hi
    rw [BitVec.getLsbD_extractLsb', decide_eq_true hi, Bool.true_and]
  constructor
  · intro h
    rw [← hbit 0 (by decide), ← hbit 1 (by decide), h]
    decide
  · intro h
    apply BitVec.eq_of_getLsbD_eq
    intro i hi
    rw [hbit i hi]
    interval_cases i
    · exact h.1
    · exact h.2

/-- The masked answer of LAR says exactly what the transfer needs. -/
theorem attributes_iff : (d.extractLsb' 32 32 &&& 0x00f0ff00) &&& codeMask = code64 ↔ Code64 d := by
  have hmask : ∀ i < 32, ((d.extractLsb' 32 32 &&& 0x00f0ff00) &&& codeMask).getLsbD i =
      (d.getLsbD (32 + i) && (0x00f0ff00 &&& codeMask : BitVec 32).getLsbD i) := by
    intro i hi
    rw [BitVec.and_assoc, BitVec.getLsbD_and, BitVec.getLsbD_extractLsb', decide_eq_true hi, Bool.true_and]
  rw [Code64, ModeCpu.Code, ring0_iff]
  constructor
  · intro h
    have hbit : ∀ i < 32, (0x00f0ff00 &&& codeMask : BitVec 32).getLsbD i = true →
        d.getLsbD (32 + i) = code64.getLsbD i := by
      intro i hi htested
      have hmasked := hmask i hi
      rw [h, htested, Bool.and_true] at hmasked
      exact hmasked.symm
    have hpresent := hbit 15 (by decide) (by decide)
    have hsegment := hbit 12 (by decide) (by decide)
    have hcode := hbit 11 (by decide) (by decide)
    have hlow := hbit 13 (by decide) (by decide)
    have hhigh := hbit 14 (by decide) (by decide)
    have hlong := hbit 21 (by decide) (by decide)
    have hbig := hbit 22 (by decide) (by decide)
    exact ⟨⟨hpresent, hsegment, hcode, ⟨hlow, hhigh⟩, fun hboth => Bool.false_ne_true (hbig.symm.trans hboth.2)⟩,
      hlong⟩
  · rintro ⟨⟨hpresent, hsegment, hcode, ⟨hlow, hhigh⟩, hboth⟩, hlong⟩
    have hbig : d.getLsbD 54 = false := Bool.eq_false_iff.mpr fun hbig => hboth ⟨hlong, hbig⟩
    apply BitVec.eq_of_getLsbD_eq
    intro i hi
    rw [hmask i hi]
    by_cases htested : i ∈ [11, 12, 13, 14, 15, 21, 22]
    · simp only [List.mem_cons, List.not_mem_nil, or_false] at htested
      rcases htested with rfl | rfl | rfl | rfl | rfl | rfl | rfl
      · rw [hcode]
        decide
      · rw [hsegment]
        decide
      · rw [hlow]
        decide
      · rw [hhigh]
        decide
      · rw [hpresent]
        decide
      · rw [hlong]
        decide
      · rw [hbig]
        decide
    · have hclear : (0x00f0ff00 &&& codeMask : BitVec 32).getLsbD i = false ∧ code64.getLsbD i = false := by
        revert htested
        interval_cases i <;> decide
      rw [hclear.1, hclear.2, Bool.and_false]

/-- Every code descriptor of ring 0 is one LAR answers for. -/
theorem Code64.readable (h : Code64 d) : ModeCpu.Readable 0x08 d := by
  obtain ⟨⟨hpresent, hsegment, hcode, hring, -⟩, -⟩ := h
  have hlevel : (0x08 : BitVec 16).toNat % 4 = 0 := by decide
  exact ⟨Or.inl hsegment, Or.inr (by omega)⟩

theorem lar_iff : (∃ attributes, m.lar 0x08 = some attributes ∧ attributes &&& codeMask = code64) ↔
    ∃ d, m.descriptor 0x08 = some d ∧ Code64 d := by
  constructor
  · rintro ⟨attributes, hlar, hcode⟩
    rw [ModeCpu.lar] at hlar
    obtain ⟨d, hd, hreadable⟩ := Option.bind_eq_some_iff.mp hlar
    split at hreadable
    · cases hreadable
      exact ⟨d, hd, attributes_iff.mp hcode⟩
    · cases hreadable
  · rintro ⟨d, hd, hcode⟩
    refine ⟨_, ?_, attributes_iff.mpr hcode⟩
    rw [ModeCpu.lar, hd, Option.bind_some, if_pos hcode.readable]

/-- All the bits of a mask are set. -/
theorem and_eq_self_iff (a mask : BitVec 64) :
    a &&& mask = mask ↔ ∀ i < 64, mask.getLsbD i = true → a.getLsbD i = true := by
  constructor
  · intro h i hi hmask
    have hand : (a &&& mask).getLsbD i = true := by rw [h, hmask]
    rw [BitVec.getLsbD_and] at hand
    exact (Bool.and_eq_true_iff.mp hand).1
  · intro h
    apply BitVec.eq_of_getLsbD_eq
    intro i hi
    rw [BitVec.getLsbD_and]
    cases hmask : mask.getLsbD i with
    | true => rw [h i hi hmask, Bool.and_true]
    | false => rw [Bool.and_false]

theorem cr0_iff (a : BitVec 64) : a &&& (cr0PE ||| cr0PG) = cr0PE ||| cr0PG ↔
    a.getLsbD 0 = true ∧ a.getLsbD 31 = true := by
  have hbits : ∀ i < 64, (cr0PE ||| cr0PG).getLsbD i = true → i = 0 ∨ i = 31 := by decide
  rw [and_eq_self_iff]
  constructor
  · intro h
    exact ⟨h 0 (by decide) (by decide), h 31 (by decide) (by decide)⟩
  · rintro ⟨hprotected, hpaging⟩ i hi hmask
    rcases hbits i hi hmask with rfl | rfl
    · exact hprotected
    · exact hpaging

theorem efer_iff (a : BitVec 64) : a &&& (eferLME ||| eferLMA) = eferLME ||| eferLMA ↔
    a.getLsbD 8 = true ∧ a.getLsbD 10 = true := by
  have hbits : ∀ i < 64, (eferLME ||| eferLMA).getLsbD i = true → i = 8 ∨ i = 10 := by decide
  rw [and_eq_self_iff]
  constructor
  · intro h
    exact ⟨h 8 (by decide) (by decide), h 10 (by decide) (by decide)⟩
  · rintro ⟨hrequested, hactive⟩ i hi hmask
    rcases hbits i hi hmask with rfl | rfl
    · exact hrequested
    · exact hactive

theorem pae_iff (a : BitVec 64) : a &&& cr4PAE ≠ 0 ↔ a.getLsbD 5 = true := by
  have hbit := WordBits.and_mask_ne_zero a 5
  rw [← bne_iff_ne]
  exact Eq.congr_left hbit

theorem la57_iff (a : BitVec 64) : a &&& cr4LA57 = 0 ↔ a.getLsbD 12 = false := by
  have hbit := WordBits.and_mask_ne_zero a 12
  rw [← not_iff_not, Bool.not_eq_false, ← ne_eq, ← bne_iff_ne]
  exact Eq.congr_left hbit

theorem root_iff (a : BitVec 64) : a &&& 0x000ffffffffff000 = 0x101000 ↔ frame a = 0x101000 := by
  rw [frame, ← BitVec.toNat_inj]
  rfl

/-- An address in the high half passes both tests. -/
theorem canonical_of_high {address : ℕ} (h : pageOffset ≤ address) : canonicalAddress address = true := by
  rw [pageOffset] at h
  rw [canonicalAddress, decide_eq_true h, Bool.or_true]

theorem verifyHighHalf_bind_iff {f : Unit → Exec ModeCpu Unit} {address : ℕ} {m t : ModeCpu} :
    (verifyHighHalf address >>= f).run m = .ok () t ↔ pageOffset ≤ address ∧ (f ()).run m = .ok () t := by
  rw [verifyHighHalf, bind_assoc, require_bind_eq_ok, require_bind_eq_ok, decide_eq_true_eq]
  constructor
  · intro h
    exact h.2
  · intro h
    exact ⟨canonical_of_high h.1, h⟩

/-- The check accepts the mode contract and nothing else, and changes nothing. -/
theorem verifyBootMode_iff (m t : ModeCpu) :
    verifyBootMode.run m = .ok () t ↔ BootMode m ∧ t = m := by
  have hdone : (pure () : Exec ModeCpu Unit).run m = .ok () t ↔ t = m := by
    constructor
    · intro h
      cases h
      rfl
    · intro h
      rw [h]
      rfl
  rw [verifyBootMode, run_get_bind]
  simp only [require_bind_eq_ok, expect_bind_eq_ok, decide_eq_true_eq, Bool.not_eq_true', List.forM_eq_forM,
    List.forM_cons, List.forM_nil, verifyHighHalf_bind_iff, hdone, cr0_iff, efer_iff, pae_iff, la57_iff,
    root_iff]
  constructor
  · rintro ⟨hinterrupts, ⟨hprotected, hpaging⟩, hextension, hfourLevel, ⟨hrequested, hactive⟩, hselector,
      attributes, hlar, hcode, hroot, hrip, hrsp, heq⟩
    rw [hselector] at hlar
    exact ⟨⟨hinterrupts, hprotected, hpaging, hextension, hfourLevel, hrequested, hactive, hselector,
      lar_iff.mp ⟨attributes, hlar, hcode⟩, hroot, hrip, hrsp⟩, heq⟩
  · rintro ⟨h, heq⟩
    obtain ⟨attributes, hlar, hcode⟩ := lar_iff.mpr h.descriptor
    rw [← h.selector] at hlar
    exact ⟨h.interrupts, ⟨h.protectedMode, h.paging⟩, h.extension, h.fourLevel, ⟨h.requested, h.active⟩,
      h.selector, attributes, hlar, hcode, h.root, h.rip, h.rsp, heq⟩

/-- What the check accepts and what acceptance is good for: it returns exactly in the states of the mode
contract, without changing them. In these the processor decodes 64-bit code exactly if CS was loaded from
the descriptor that LAR reads, and translates every address through the tables at 0x101000, which have
the RAM in the high half as soon as they are those of `head.S`. -/
theorem accepted_executes (m t : ModeCpu) :
    (verifyBootMode.run m = .ok () t ↔ BootMode m ∧ t = m) ∧
      (BootMode m →
        (m.decodes 64 = true ↔ ∀ d, m.descriptor 0x08 = some d → m.long = d.getLsbD 53) ∧
        (∀ v, m.translate v = (walk m.ram 0x101000 v).map Translation.physical) ∧
        ∀ low base, BootTables low base m.ram → ∀ x < directRamEnd, m.translate (pageOffset + x) = some x) := by
  refine ⟨verifyBootMode_iff m t, fun h => ?_⟩
  have htranslate : ∀ v, m.translate v = (walk m.ram 0x101000 v).map Translation.physical := by
    intro v
    rw [ModeCpu.translate, h.paging, h.active, h.fourLevel, h.root]
    rfl
  refine ⟨?_, htranslate, ?_⟩
  · obtain ⟨d, hd, hcode⟩ := h.descriptor
    constructor
    · intro hdecodes d' hd'
      rw [hd'] at hd
      cases hd
      rw [hcode.2]
      by_contra hshort
      rw [ModeCpu.decodes, Bool.eq_false_iff.mpr hshort, Bool.and_false, if_neg Bool.false_ne_true] at hdecodes
      split at hdecodes <;> cases hdecodes
    · intro hcached
      exact decodes_long h.active ((hcached d hd).trans hcode.2)
  · intro low base htables x hx
    have hwalk := htables.walk_ram hx
    rw [pml4Address] at hwalk
    rw [htranslate, hwalk]
    rfl

section Start

open Loader HandOver

variable {l : Places} {k : KernelPlaces} {t : ModeCpu} {ram ram' : Memory} {base : BitVec 32}

/-- The kernel before the check: RIP and RSP move within the high half, the tables and the code
descriptor keep their bytes, and no control register changes. -/
structure Since (k : KernelPlaces) (m t : ModeCpu) : Prop where
  cr0 : t.cr0 = m.cr0
  cr3 : t.cr3 = m.cr3
  cr4 : t.cr4 = m.cr4
  efer : t.efer = m.efer
  cs : t.cs = m.cs
  gdtBase : t.gdtBase = m.gdtBase
  gdtLimit : t.gdtLimit = m.gdtLimit
  interrupts : t.flags.getLsbD 9 = m.flags.getLsbD 9
  rip : pageOffset ≤ t.rip
  rsp : pageOffset ≤ t.rsp.toNat
  tables : ∀ x, 0x101000 ≤ x → x < 0x104000 → t.ram x = m.ram x
  descriptor : ∀ x, k.gdtTable + 8 ≤ x → x < k.gdtTable + 16 → t.ram x = m.ram x

theorem Since.refl (hrip : pageOffset ≤ m.rip) (hrsp : pageOffset ≤ m.rsp.toNat) : Since k m m :=
  ⟨rfl, rfl, rfl, rfl, rfl, rfl, rfl, rfl, hrip, hrsp, fun _ _ _ => rfl, fun _ _ _ => rfl⟩

theorem kernelLoaded_congr (hk : Linked k) (h : KernelLoaded k ram)
    (hsame : ∀ x, 0x100000 ≤ x → x < directRamEnd → ram' x = ram x) : KernelLoaded k ram' := by
  have hgdt := hk.gdtTable_inside
  have hpointer := hk.gdtPointer_inside
  have hstack := hk.stack_inside
  have hend := hk.endbss_lt
  constructor
  · intro i hi
    rw [← h.tables i hi]
    apply load64_congr
    intro j hj
    exact hsame _ (by rw [pml4Address]; omega) (by rw [pml4Address, directRamEnd]; omega)
  · rw [← h.code64]
    exact load64_congr fun j hj => hsame _ (by omega) (by omega)
  · rw [← h.data64]
    exact load64_congr fun j hj => hsame _ (by omega) (by omega)
  · rw [← h.limit]
    exact load_congr fun j hj => hsame _ (by omega) (by omega)
  · rw [← h.base]
    exact load_congr fun j hj => hsame _ (by omega) (by omega)

/-- Besides its tables and one stack slot the Loader leaves memory alone. -/
theorem longState_ram {x : ℕ} (htables : x < 0x90000 ∨ 0x93000 ≤ x) (hslot : x < 0x7dfc ∨ 0x7e00 ≤ x) :
    (longState l m).ram x = m.ram x := by
  have hwritten : (longState l m).ram x = store m.ram 0x7dfc 4 (l.flat 3) x := writeTables_outside htables
  rw [hwritten, store_outside hslot]

theorem longState_atStart (l : Places) (hreal : RealMode m) : AtStart (longState l m) := by
  have hor : ∀ (a b : BitVec 64) (i : ℕ), b.getLsbD i = true → (a ||| b).getLsbD i = true := by
    intro a b i hb
    rw [BitVec.getLsbD_or, hb, Bool.or_true]
  constructor
  · exact hor _ _ _ (by decide)
  · exact hor _ _ _ (by decide)
  · exact readyState_fourLevel (l := l) hreal
  · exact hor _ _ _ (by decide)
  · rfl
  · rfl
  · exact writeTables_temporary _
  · rfl
  · rfl

/-- Clearing the BSS and calling `Start_Kernel` change nothing below the BSS. -/
theorem kernelState_below (hk : Linked k) {x : ℕ} (hx : x < k.bss) :
    (kernelState k m).ram x = pushReturn k (start m.ram) x := by
  have hstack := hk.stack_inside
  have hcleared : (clearState k m).ram x = pushReturn k (start m.ram) x := fill_outside (Or.inl hx)
  rw [← hcleared]
  exact store64_outside (Or.inl (by omega))

/-- The state of `Start_Kernel` and every later one before the check meet the contract. -/
theorem kernelState_bootMode (hk : Linked k) (hloaded : KernelLoaded k m.ram) (hm : AtStart m)
    (hextension : m.physicalExtension = true) (hrequested : m.longRequested = true)
    (ht : Since k (kernelState k m) t) : BootMode t := by
  have hgdt := hk.gdtTable_inside
  have hstack := hk.stack_inside
  have hend := hk.endbss_lt
  have hpaging : t.paging = true := by
    rw [ModeCpu.paging, ht.cr0]
    exact hm.paging
  have hactive : t.longActive = true := by
    rw [ModeCpu.longActive, ht.efer]
    exact hm.active
  have hfour : t.fiveLevel = false := by
    rw [ModeCpu.fiveLevel, ht.cr4]
    exact hm.fourLevel
  have hbelow : ∀ x, x < k.bss → (kernelState k m).ram x = pushReturn k (start m.ram) x :=
    fun x hx => kernelState_below hk hx
  have htables : OnBootTables (load32 m.ram framebufferField) t := by
    refine ⟨hpaging, hactive, hfour, ht.cr3, bootTables_congr (highState_tables hloaded hm).tables ?_⟩
    intro x hlow hhigh
    rw [ht.tables x hlow hhigh, hbelow x (by omega)]
    rfl
  have hcode : load64 t.ram (k.gdtTable + 8) = 0x0020980000000000 := by
    have hpushed : load64 (pushReturn k (start m.ram)) (k.gdtTable + 8) = load64 m.ram (k.gdtTable + 8) :=
      pushReturn_start (by omega)
    rw [← hloaded.code64, ← hpushed]
    apply load64_congr
    intro j hj
    rw [ht.descriptor _ (by omega) (by omega), hbelow _ (by omega)]
  have hdescriptor : t.descriptor 0x08 = some 0x0020980000000000 :=
    htables.descriptor_eq hk ht.gdtBase ht.gdtLimit (by decide) (by decide) (by decide) hcode
  constructor
  · rw [ht.interrupts]
    have hcleared : (m.flags &&& ~~~interruptFlag &&& ~~~directionFlag).getLsbD 9 = false := by
      rw [BitVec.getLsbD_and, clear_interruptFlag, Bool.false_and]
    exact hcleared
  · rw [ModeCpu.protectedMode, ht.cr0]
    exact hm.protectedMode
  · exact hpaging
  · rw [ModeCpu.physicalExtension, ht.cr4]
    exact hextension
  · exact hfour
  · rw [ModeCpu.longRequested, ht.efer]
    exact hrequested
  · exact hactive
  · exact ht.cs
  · exact ⟨_, hdescriptor, by decide, by decide⟩
  · exact htables.frame_eq
  · exact ht.rip
  · exact ht.rsp

def sampleKernel : KernelPlaces where
  gdtTable := 0x110000
  gdtPointer := 0x110050
  bss := 0x120000
  endbss := 0x140000
  stackTop := 0x13fff8
  startKernel := 0x104100
  low := fun i => if i = 0 then 0x100000 else 0x100010 + i % 0x100
  high := fun i => 0x100200 + i % 0x100

/-- Both images. -/
def sampleImages : Memory :=
  let ram := store64 (store64 (layHead sampleLoader) 0x110008 0x0020980000000000) 0x110010 0x0000920000000000
  store (store ram 0x110050 2 79) 0x110052 8 (pageOffset + 0x110000)

theorem sampleKernel_linked : Linked sampleKernel where
  first := rfl
  low_inside := by
    intro i
    rw [sampleKernel]
    dsimp only
    split
    · decide
    · omega
  high_inside := by
    intro i
    rw [sampleKernel]
    dsimp only
    omega
  gdtTable_inside := by decide
  gdtPointer_inside := by decide
  stack_inside := by decide
  endbss_lt := by decide
  startKernel_lt := by decide

theorem sampleImages_outside {x : ℕ} (h : x < 0x110000 ∨ 0x110100 ≤ x) :
    sampleImages x = layHead sampleLoader x := by
  simp (disch := omega) only [sampleImages, store_outside, store64_outside]

theorem sampleImages_kernel : KernelLoaded sampleKernel sampleImages where
  tables := by
    intro i hi
    rw [← headLoaded_layHead sampleLoader i hi]
    apply load64_congr
    intro j hj
    exact sampleImages_outside (Or.inl (by rw [pml4Address]; omega))
  code64 := by decide
  data64 := by decide
  limit := by decide
  base := by decide

def sampleBoot : ModeCpu := { sampleReal with ram := sampleImages }

theorem sampleBoot_realMode : RealMode sampleBoot where
  unprotected := by decide
  unpaged := by decide
  inactive := by decide
  short := rfl
  narrow := rfl
  data := rfl
  fourLevel := by decide

/-- The state of `Start_Kernel` after the two images. -/
def sampleStarted : ModeCpu := kernelState sampleKernel (longState samplePlaces sampleBoot)

theorem sampleStarted_bootMode : BootMode sampleStarted := by
  have hkernel : KernelLoaded sampleKernel (longState samplePlaces sampleBoot).ram :=
    kernelLoaded_congr sampleKernel_linked sampleImages_kernel
      fun x _ _ => longState_ram (Or.inr (by omega)) (Or.inr (by omega))
  have hrsp : sampleStarted.rsp.toNat = pageOffset + (sampleKernel.stackTop / 16 * 16 - 8) :=
    bootStack_call sampleKernel_linked
  have hsince : Since sampleKernel sampleStarted sampleStarted := by
    apply Since.refl (Nat.le_add_right _ _)
    rw [hrsp]
    exact Nat.le_add_right _ _
  exact kernelState_bootMode sampleKernel_linked hkernel (longState_atStart _ sampleBoot_realMode) (by decide)
    (by decide) hsince

theorem accepted_executes_sample :
    verifyBootMode.run sampleStarted = .ok () sampleStarted ∧ sampleStarted.decodes 64 = true := by
  have hboot := sampleStarted_bootMode
  have hcached : ∀ d, sampleStarted.descriptor 0x08 = some d → sampleStarted.long = d.getLsbD 53 := by
    intro d hd
    obtain ⟨d', hd', hcode⟩ := hboot.descriptor
    rw [hd'] at hd
    cases hd
    exact hcode.2.symm
  obtain ⟨hreturns, hexecutes⟩ := accepted_executes sampleStarted sampleStarted
  exact ⟨hreturns.mpr ⟨hboot, rfl⟩, (hexecutes hboot).1.mpr hcached⟩

end Start

end MikoOS.Processor
