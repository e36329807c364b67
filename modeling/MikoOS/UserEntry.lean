import MikoOS.SystemCallEntry

/-!
# Entering user mode

`demonstrate` cut at its call of `user_enter`, and `user_enter` itself. At the call the two pages hold
the payload followed by zeros whatever they held before, and the SYSENTER registers lead to
RETURN_STACK; at the first user instruction no register holds anything but the two arguments.
-/

namespace MikoOS.UserMode

open ByteMemory PageWalk Rust

/-- The old kernel stack, once system calls and the completion gate lead to RETURN_STACK. -/
def armProgram (u : UserImage) : Exec Demo ℕ := do
  let oldStack := (← get).current.kernelStack
  writeQuad u.returnStack canary
  let top := u.returnStack + returnStackSize
  record (setKernelStack top)
  record (enable u top)
  record (modify fun s => { s with returnGate := some u.userReturnEntry })
  record (modify fun s => { s with active := true })
  return oldStack

/-- `demonstrate` up to the call of `user_enter`. -/
def launch (p : Profile) (cpu : Cpuid) (u : UserImage) : Exec Demo (PageRun × ℕ) := do
  let run ← backProgram p cpu u
  installMapping p u run.physicalAddress
  return (run, ← armProgram u)

/-- `demonstrate` from the return of `user_enter` on. -/
def conclude (p : Profile) (u : UserImage) (run : PageRun) (oldStack : ℕ) (value : BitVec 64) :
    Exec Demo Unit := do
  require (value = result) equalAssertion
  require (!(← get).current.interruptsEnabled) interruptAssertion
  require ((← readQuad u.returnStack) = canary) equalAssertion
  record (modify fun s => { s with active := false })
  record disable
  record (modify fun s => { s with returnGate := none })
  record (setKernelStack oldStack)
  removeMapping p run

theorem demonstrate_eq (p : Profile) (cpu : Cpuid) (u : UserImage) (program : UserProgram) :
    demonstrate p cpu u program = (do
      let (run, oldStack) ← launch p cpu u
      conclude p u run oldStack (← userEnter u program)) := by
  simp only [demonstrate, runProgram, launch, armProgram, conclude, bind_assoc, pure_bind]

/-- The two pages hold the payload that `ram` has at its linked place, and zeros. -/
structure Loaded (u : UserImage) (ram : Memory) (run : PageRun) (s : Session) : Prop where
  codePage : ∀ i < pageSize, s.ram (run.physicalAddress + i) =
    if i < u.userEnd - u.userStart then ram (directPhysical u.userStart + i) else 0
  stackPage : ∀ i < pageSize, s.ram (run.physicalAddress + pageSize + i) = 0

/-- The session in which `user_enter` is called. -/
structure Launched (u : UserImage) (image : KernelImage) (s₀ : MemoryDescriptor) (ram : Memory)
    (run : PageRun) (x : Session) : Prop where
  mapped : Mapped u s₀ run x
  backs : Backs image run
  loaded : Loaded u ram run x
  active : x.active = true
  interrupts : x.interruptsEnabled = false
  kernelStack : x.kernelStack = u.returnStack + returnStackSize
  sysenterCs : x.msr 0x174 = 8
  sysenterEsp : x.msr 0x175 = BitVec.ofNat 64 (u.returnStack + returnStackSize)
  aligned : (u.returnStack + returnStackSize) % 16 = 0

/-- The payload lies in the kernel image. -/
structure UserImage.Inside (u : UserImage) (image : KernelImage) : Prop where
  payload : u.Payload
  userStart : pageOffset ≤ u.userStart
  userEnd : u.userEnd ≤ image.kernelEnd

section Launch

variable {u : UserImage} {image : KernelImage} {run : PageRun} {s₀ : MemoryDescriptor} {m : Memory}
  {p : Profile}

theorem onLedger_ram {α : Type} (x : Exec Ledger α) (s : Session) :
    Satisfies ((onLedger x).run s) (fun _ t => t.ram = s.ram) fun _ _ => True := by
  have hany : Satisfies (x.run s.ledger) (fun _ _ => True) fun _ _ => True := by
    cases x.run s.ledger with
    | ok a t => exact satisfies_ok.mpr trivial
    | error e t => exact satisfies_error.mpr trivial
  refine hany.zoom.mono ?_ fun _ _ _ => trivial
  intro a t ht
  obtain ⟨ledger, -, rfl⟩ := ht
  rfl

theorem blind_ram : Blind fun s => s.ram = m := by
  intro s t _ _ hram h
  rw [hram, h]

/-- What `back_program` leaves in memory, when the direct map of the run does not wrap. -/
theorem backProgram_ram (hu : u.Payload) (p : Profile) (cpu : Cpuid) (r : Demo) :
    Satisfies ((backProgram p cpu u).run r) (fun run r' => pageOffset + run.physicalAddress < 2 ^ 64 →
      r'.current.ram = copy (fill r.current.ram run.physicalAddress (pageSize * 2) 0)
        run.physicalAddress (directPhysical u.userStart) (u.userEnd - u.userStart))
      fun _ _ => True := by
  rw [backProgram, run_get_bind]
  apply (satisfies_require fun _ => trivial).bind
  rintro _ r ⟨rfl, -⟩
  rw [run_get_bind]
  apply (satisfies_require fun _ => trivial).bind
  rintro _ r ⟨rfl, -⟩
  have hprepare : Satisfies ((prepareCpu cpu).run r.current) (fun _ s => s.ram = r.current.ram)
      fun _ _ => True :=
    (prepareCpu_stays blind_ram cpu r.current rfl).mono (fun _ _ h => h) fun _ _ _ => trivial
  apply (hprepare.record.mono (fun _ _ h => h) fun _ _ _ => trivial).bind
  rintro _ _ ⟨s, hs, rfl⟩
  apply ((onLedger_ram _ s).record.mono (fun _ _ h => h) fun _ _ _ => trivial).bind
  rintro answer _ ⟨s', hs', rfl⟩
  apply (satisfies_expect fun _ => trivial).bind
  rintro run _ ⟨rfl, -⟩
  have hram : s'.ram = r.current.ram := hs'.trans hs
  apply (satisfies_add_value p fun _ => trivial).bind
  rintro backing _ ⟨rfl, hbacking⟩
  rw [run_bind_ok (run_record_modify _ _), run_bind_ok (run_sub p hu.start_le _)]
  apply (satisfies_require fun _ => trivial).bind
  rintro _ _ ⟨rfl, -⟩
  apply (satisfies_require fun _ => trivial).bind
  rintro _ _ ⟨rfl, -⟩
  rw [run_bind_ok (run_record_modify _ _)]
  apply satisfies_ok.mpr
  intro hlt
  have hphysical : directPhysical backing = run.physicalAddress := by
    rw [hbacking hlt]
    exact Nat.add_sub_cancel_left _ _
  rw [← hram, ← hphysical, Session.onRam_ram, Session.onRam_ram]

theorem Backs.lt (hrun : Backs image run) : pageOffset + run.physicalAddress < 2 ^ 64 := by
  have hlt := hrun.mapped
  unfold directRamEnd page2MSize at hlt
  unfold pageOffset
  omega

theorem loaded_of_copy (hu : u.Inside image) (hrun : Backs image run) {s : Session}
    (hs : s.ram = copy (fill m run.physicalAddress (pageSize * 2) 0) run.physicalAddress
      (directPhysical u.userStart) (u.userEnd - u.userStart)) : Loaded u m run s := by
  have hsize := hu.payload.size_le
  have hend := hu.userEnd
  have hbehind := hrun.behind
  constructor
  · intro i hi
    rw [hs]
    by_cases hpayload : i < u.userEnd - u.userStart
    · rw [if_pos hpayload, copy_inside (by omega), Nat.add_sub_cancel_left, fill_outside]
      left
      have hstart := hu.userStart
      unfold directPhysical
      omega
    · rw [if_neg hpayload, copy_outside (by omega), fill_inside (by omega)]
  · intro i hi
    rw [hs, copy_outside (by omega), fill_inside (by omega)]

/-- From `a` on, memory is `m`. -/
def Keeps (a : ℕ) (m : Memory) (r : Demo) : Prop :=
  frame r.current.cr3 = pml4Address ∧ ∀ y, a ≤ y → r.current.ram y = m y

theorem stays_readQuad {P : Demo → Prop} (a : ℕ) : Stays P (readQuad a) :=
  Stays.get_bind fun _ => stays_pure _

theorem keeps_writeQuad {b a : ℕ} (ha : directPhysical a + 8 ≤ b) (v : BitVec 64) :
    Stays (Keeps b m) (writeQuad a v) := by
  intro r hr
  rw [run_writeQuad]
  apply satisfies_ok.mpr
  constructor
  · rw [Session.onRam_cr3]
    exact hr.1
  · intro y hy
    rw [Session.onRam_ram, ← hr.2 y hy]
    exact store64_outside (by omega)

/-- An entry of a table lies below the run. -/
theorem keeps_entry (himage : image.Linked) (hu : u.Linked image) (hrun : Backs image run)
    (k : Table) {a b i : ℕ} (hb : directPhysical b = u.place k) (ha : a = b + 8 * i) (hi : i < 512)
    (v : BitVec 64) : Stays (Keeps run.physicalAddress m) (writeQuad a v) := by
  apply keeps_writeQuad
  have hle := (hu.place_le himage k).2
  have hbehind := hrun.behind
  have hadd : directPhysical a ≤ directPhysical b + 8 * i := by
    unfold directPhysical
    omega
  omega

theorem keeps_installMapping (himage : image.Linked) (hu : u.Linked image) (hrun : Backs image run)
    (p : Profile) (m : Memory) :
    Stays (Keeps run.physicalAddress m) (installMapping p u run.physicalAddress) := by
  intro r hr
  unfold installMapping
  rw [run_bind_ok (run_root p hr.1)]
  revert r
  apply Stays.bind (stays_readQuad _)
  intro _
  apply Stays.bind (stays_require _ _)
  intro _
  apply Stays.bind (stays_readQuad _)
  intro _
  apply Stays.bind (stays_require _ _)
  intro _
  apply Stays.bind (stays_sub p _ _)
  intro _
  apply Stays.bind (keeps_entry himage hu hrun .pdpt (b := u.pdpt) (i := 0) rfl rfl (by decide) _)
  intro _
  apply Stays.bind (stays_sub p _ _)
  intro _
  apply Stays.bind (keeps_entry himage hu hrun .pd (b := u.pd) (i := 4) rfl rfl (by decide) _)
  intro _
  apply Stays.bind (keeps_entry himage hu hrun .pt (b := u.pt) (i := 0) rfl rfl (by decide) _)
  intro _
  apply Stays.bind (stays_add p _ _)
  intro _
  apply Stays.bind (keeps_entry himage hu hrun .pt (b := u.pt) (i := 511) rfl rfl (by decide) _)
  intro _
  apply Stays.bind (stays_readQuad _)
  intro _
  apply Stays.bind (stays_require _ _)
  intro _
  apply Stays.bind (stays_readQuad _)
  intro _
  apply Stays.bind (stays_require _ _)
  intro _
  apply Stays.bind (stays_sub p _ _)
  intro _
  exact keeps_entry himage hu hrun .pml4 (b := pageOffset + pml4Address) (i := 0)
    (Nat.add_sub_cancel_left _ _) rfl (by decide) _

/-- The set-up of the kernel stack and the MSRs leaves these alone. -/
structure Same (s t : Session) : Prop where
  ledger : t.ledger = s.ledger
  cr3 : t.cr3 = s.cr3
  ram : t.ram = s.ram
  interrupts : t.interruptsEnabled = s.interruptsEnabled

theorem setKernelStack_sets (top : ℕ) (s : Session) :
    Satisfies ((setKernelStack top).run s) (fun _ t => Same s t ∧ s.interruptsEnabled = false ∧
      top % 16 = 0 ∧ t.kernelStack = top) fun _ _ => True := by
  unfold setKernelStack
  rw [run_get_bind]
  apply (satisfies_require fun _ => trivial).bind
  rintro _ s ⟨rfl, hflag⟩
  apply (satisfies_require fun _ => trivial).bind
  rintro _ s ⟨rfl, htop⟩
  exact satisfies_ok.mpr ⟨⟨rfl, rfl, rfl, rfl⟩, by simpa using hflag, of_decide_eq_true htop, rfl⟩

theorem writeMsr_run (index : ℕ) (value : BitVec 64) (s : Session) :
    (writeMsr index value).run s = .ok () { s with msr := Function.update s.msr index value } := by
  unfold writeMsr
  rw [run_modify_bind, run_get_bind]
  apply run_require
  apply decide_eq_true
  exact Function.update_self index value s.msr

theorem enable_sets (top : ℕ) (s : Session) :
    Satisfies ((enable u top).run s) (fun _ t => Same s t ∧ t.kernelStack = s.kernelStack ∧
      t.msr 0x174 = 8 ∧ t.msr 0x175 = BitVec.ofNat 64 top) fun _ _ => True := by
  unfold enable
  rw [run_get_bind]
  apply (satisfies_require fun _ => trivial).bind
  rintro _ s ⟨rfl, -⟩
  apply (satisfies_require fun _ => trivial).bind
  rintro _ s ⟨rfl, -⟩
  rw [run_bind_ok (writeMsr_run _ _ _), run_bind_ok (writeMsr_run _ _ _), writeMsr_run]
  apply satisfies_ok.mpr
  dsimp only
  refine ⟨⟨rfl, rfl, rfl, rfl⟩, rfl, Function.update_self 0x174 8 _, ?_⟩
  rw [Function.update_of_ne (by decide), Function.update_of_ne (by decide), Function.update_self]

theorem Loaded.congr {s t : Session} (h : Loaded u m run s)
    (hram : ∀ y, run.physicalAddress ≤ y → t.ram y = s.ram y) : Loaded u m run t := by
  constructor
  · intro i hi
    rw [hram _ (by omega)]
    exact h.codePage i hi
  · intro i hi
    rw [hram _ (by omega)]
    exact h.stackPage i hi

/-- RETURN_STACK lies below the run. -/
theorem Backs.returnStack_le (himage : image.Linked) (hu : u.Linked image) (hrun : Backs image run) :
    directPhysical u.returnStack + returnStackSize ≤ run.physicalAddress := by
  have hbehind := hrun.behind
  obtain ⟨hstart, hend⟩ := hu.returnStack
  rw [himage.text] at hstart
  unfold directPhysical pageOffset at *
  omega

theorem armProgram_run (himage : image.Linked) (hu : u.Linked image) (hrun : Backs image run)
    {r : Demo} (hmapped : Mapped u s₀ run r.current) (hloaded : Loaded u m run r.current) :
    Satisfies ((armProgram u).run r) (fun _ r' => Launched u image s₀ m run r'.current)
      fun _ _ => True := by
  have hcanary := hmapped.push himage hu canary
  have hloaded' : Loaded u m run
      (r.current.onRam fun m => store64 m (directPhysical u.returnStack) canary) := by
    apply hloaded.congr
    intro y hy
    have hle := hrun.returnStack_le himage hu
    unfold returnStackSize at hle
    rw [Session.onRam_ram, store64_outside (by omega)]
  unfold armProgram
  rw [run_get_bind, run_bind_ok (run_writeQuad _ _ _)]
  generalize (r.current.onRam fun m => store64 m (directPhysical u.returnStack) canary) = y
    at hcanary hloaded' ⊢
  apply ((setKernelStack_sets _ _).record.mono (fun _ _ h => h) fun _ _ _ => trivial).bind
  rintro _ _ ⟨y₁, ⟨hsame₁, hinterrupts, haligned, hstack⟩, rfl⟩
  apply ((enable_sets _ _).record.mono (fun _ _ h => h) fun _ _ _ => trivial).bind
  rintro _ _ ⟨y₂, ⟨hsame₂, hkept, hcs, hesp⟩, rfl⟩
  rw [run_bind_ok (run_record_modify _ _), run_bind_ok (run_record_modify _ _)]
  have hram : y₂.ram = y.ram := hsame₂.ram.trans hsame₁.ram
  apply satisfies_ok.mpr
  exact {
    mapped := blind_mapped y _ (hsame₂.ledger.trans hsame₁.ledger) (hsame₂.cr3.trans hsame₁.cr3) hram
      hcanary
    backs := hrun
    loaded := hloaded'.congr fun a _ => congrFun hram a
    active := rfl
    interrupts := (hsame₂.interrupts.trans hsame₁.interrupts).trans hinterrupts
    kernelStack := hkept.trans hstack
    sysenterCs := hcs
    sysenterEsp := hesp
    aligned := haligned }

/-- Whatever `s` is, a demonstration that gets as far has set up the same call. -/
theorem launch_run {map : MemoryMap} {base : BitVec 32} {t : Kernel} (himage : image.Linked)
    (hu : u.Linked image) (hinside : u.Inside image) (ht : t.Running image map base) (p : Profile)
    (cpu : Cpuid) {s : Session} (hs : Unmapped u t.memory s) :
    Satisfies ((launch p cpu u).run ⟨s, [s]⟩)
      (fun a r => Launched u image t.memory s.ram a.1 r.current) fun _ _ => True := by
  have hback := (backProgram_run himage hu ht p cpu (extends_next [] hs)).and
    (backProgram_ram hinside.payload p cpu ⟨s, [s]⟩)
  unfold launch
  apply (hback.mono (fun _ _ h => h) fun _ _ _ => trivial).bind
  rintro run r ⟨⟨hr, hbacks, hheld⟩, hram⟩
  have hloaded : Loaded u s.ram run r.current := loaded_of_copy hinside hbacks (hram hbacks.lt)
  obtain ⟨r', x, hinstall, -, hmapped⟩ := installMapping_run himage hu hbacks p hr hheld
  have hkeeps : Keeps run.physicalAddress r.current.ram ⟨x, r'.trace ++ [x]⟩ := by
    obtain ⟨e, -, htabled⟩ := hr.1
    have hinstalled := keeps_installMapping himage hu hbacks p r.current.ram r
      ⟨htabled.cr3, fun _ _ => rfl⟩
    rwa [hinstall, satisfies_ok] at hinstalled
  rw [run_bind_ok hinstall]
  apply (armProgram_run himage hu hbacks hmapped (hloaded.congr hkeeps.2)).bind
  intro oldStack r hr
  exact satisfies_ok.mpr hr

end Launch

end MikoOS.UserMode

namespace MikoOS.Entry

open ByteMemory PageWalk X86 Cpu UserMode

/-- What the C ABI obliges `user_enter` to keep, in the order of its pushes. -/
def calleeSaved : List Reg := [.rbp, .rbx, .r12, .r13, .r14, .r15]

def clearedRegisters : List Reg :=
  [.rax, .rbx, .rbp, .rdi, .rsi, .r8, .r9, .r10, .r11, .r12, .r13, .r14, .r15]

/-- `userKernelRsp` is the address of the static that keeps RSP. -/
def userEnter (userKernelRsp : BitVec 64) (s : Cpu) : Option Cpu :=
  let s := pushRegs calleeSaved s
  let s := s.store userKernelRsp (s.reg .rsp)
  let s := s.set .rdx (s.reg .rdi)
  let s := s.set .rcx (s.reg .rsi)
  let s := userSegments s
  let s := s.clear .rax
  let s := { s with fs := ax s, gs := ax s }
  let s := clearRegs clearedRegisters s
  ((s.push 2).popFlags).sysexit

/-- The first user instruction. -/
structure FirstUser (entry stackPointer : BitVec 64) (t : Cpu) : Prop where
  rip : t.rip = entry
  rdx : t.reg .rdx = entry
  rcx : t.reg .rcx = stackPointer
  rsp : t.reg .rsp = stackPointer
  reg : ∀ r ∈ clearedRegisters, t.reg r = 0
  flags : t.flags = 2
  cs : t.cs = 0x2b
  ss : t.ss = 0x33
  ds : t.ds = 0x33
  es : t.es = 0x33
  fs : t.fs = 0
  gs : t.gs = 0

section Enter

variable {s t : Cpu} {k : BitVec 64}

/-- The caller suspended and the two arguments in place. -/
def suspended (k : BitVec 64) (s : Cpu) : Cpu :=
  let s := pushRegs calleeSaved s
  let s := s.store k (s.reg .rsp)
  let s := s.set .rdx (s.reg .rdi)
  s.set .rcx (s.reg .rsi)

/-- The state before the flags are set. -/
def scrubbed (s : Cpu) : Cpu :=
  let s := (userSegments s).clear .rax
  clearRegs clearedRegisters { s with fs := ax s, gs := ax s }

theorem userEnter_eq :
    userEnter k s = (((scrubbed (suspended k s)).push 2).popFlags).sysexit := rfl

theorem calleeSaved_reg {r : Reg} (hr : r ≠ .rsp) : (pushRegs calleeSaved s).reg r = s.reg r :=
  pushRegs_reg hr

theorem suspended_rdx : (suspended k s).reg .rdx = s.reg .rdi := by
  rw [suspended, set_of_ne (by decide), set_self, store_reg, calleeSaved_reg (by decide)]

theorem suspended_rcx : (suspended k s).reg .rcx = s.reg .rsi := by
  rw [suspended, set_self, set_of_ne (by decide), store_reg, calleeSaved_reg (by decide)]

theorem suspended_rsp : (suspended k s).reg .rsp = s.reg .rsp - 48 := by
  rw [suspended, set_of_ne (by decide), set_of_ne (by decide), store_reg, pushRegs_rsp]
  rfl

theorem suspended_system (k : BitVec 64) (s : Cpu) : (suspended k s).cs = s.cs ∧
    (suspended k s).sysenterCs = s.sysenterCs ∧ (suspended k s).sysenterEsp = s.sysenterEsp := by
  unfold suspended
  rw [pushRegs_eq]
  exact ⟨rfl, rfl, rfl⟩

theorem suspended_outside {x : ℕ} (hroom : 48 ≤ (s.reg .rsp).toNat)
    (hx : x + 48 < (s.reg .rsp).toNat ∨ (s.reg .rsp).toNat ≤ x)
    (hk : x < k.toNat ∨ k.toNat + 8 ≤ x) : (suspended k s).ram x = s.ram x := by
  change store64 (pushRegs calleeSaved s).ram k.toNat _ x = s.ram x
  rw [store64_outside hk]
  exact pushRegs_outside hroom hx

theorem scrubbed_of_ne {r : Reg} (hr : r ∉ clearedRegisters) : (scrubbed s).reg r = s.reg r := by
  have hrax : r ≠ .rax := by
    rintro rfl
    exact hr (by decide)
  unfold scrubbed
  rw [clearRegs_reg, if_neg hr]
  change Function.update (userSegments s).reg .rax 0 r = s.reg r
  rw [Function.update_of_ne hrax, userSegments_reg hrax]

theorem scrubbed_self {r : Reg} (hr : r ∈ clearedRegisters) : (scrubbed s).reg r = 0 := by
  unfold scrubbed
  rw [clearRegs_reg, if_pos hr]

theorem ax_clear : ax (s.clear .rax) = 0 := by
  unfold ax
  change (Function.update s.reg .rax 0 .rax).setWidth 16 = 0
  rw [Function.update_self]
  rfl

theorem scrubbed_segments (s : Cpu) : (scrubbed s).ds = 0x33 ∧ (scrubbed s).es = 0x33 ∧
    (scrubbed s).fs = 0 ∧ (scrubbed s).gs = 0 := by
  unfold scrubbed
  rw [clearRegs_eq]
  exact ⟨ax_setLow 0x33 s, ax_setLow 0x33 s, ax_clear, ax_clear⟩

theorem scrubbed_system (s : Cpu) : (scrubbed s).cs = s.cs ∧ (scrubbed s).sysenterCs = s.sysenterCs ∧
    (scrubbed s).sysenterEsp = s.sysenterEsp ∧ (scrubbed s).ram = s.ram := by
  unfold scrubbed
  rw [clearRegs_eq]
  exact ⟨rfl, rfl, rfl, rfl⟩

/-- The state SYSEXIT starts from, with the flags set. -/
def readied (k : BitVec 64) (s : Cpu) : Cpu := ((scrubbed (suspended k s)).push 2).popFlags

theorem readied_reg : (readied k s).reg = (scrubbed (suspended k s)).reg := push_popFlags_reg

theorem readied_arguments (k : BitVec 64) (s : Cpu) :
    (readied k s).reg .rdx = s.reg .rdi ∧ (readied k s).reg .rcx = s.reg .rsi := by
  rw [readied_reg, scrubbed_of_ne (by decide), scrubbed_of_ne (by decide), suspended_rdx, suspended_rcx]
  exact ⟨rfl, rfl⟩

theorem readied_system (k : BitVec 64) (s : Cpu) : (readied k s).cs = s.cs ∧
    (readied k s).sysenterCs = s.sysenterCs ∧ (readied k s).sysenterEsp = s.sysenterEsp := by
  obtain ⟨hcs, hsysenter, hesp, -⟩ := scrubbed_system (suspended k s)
  obtain ⟨hcs', hsysenter', hesp'⟩ := suspended_system k s
  exact ⟨hcs.trans hcs', hsysenter.trans hsysenter', hesp.trans hesp'⟩

theorem readied_outside {x : ℕ} (hroom : 56 ≤ (s.reg .rsp).toNat)
    (hx : x + 56 < (s.reg .rsp).toNat ∨ (s.reg .rsp).toNat ≤ x)
    (hk : x < k.toNat ∨ k.toNat + 8 ≤ x) : (readied k s).ram x = s.ram x := by
  obtain ⟨-, -, -, hram⟩ := scrubbed_system (suspended k s)
  have hrsp : ((scrubbed (suspended k s)).reg .rsp).toNat = (s.reg .rsp).toNat - 48 := by
    have height : (48 : BitVec 64).toNat = 48 := rfl
    rw [scrubbed_of_ne (by decide), suspended_rsp,
      BitVec.toNat_sub_of_le (BitVec.le_def.mpr (by omega)), height]
  change ((scrubbed (suspended k s)).push 2).ram x = s.ram x
  rw [push_outside (by omega) (by omega), hram]
  exact suspended_outside (by omega) (by omega) hk

theorem readied_segments (k : BitVec 64) (s : Cpu) : (readied k s).ds = 0x33 ∧
    (readied k s).es = 0x33 ∧ (readied k s).fs = 0 ∧ (readied k s).gs = 0 :=
  scrubbed_segments (suspended k s)

theorem readied_flags : (readied k s).flags = 2 := push_popFlags_flags

theorem readied_cleared {r : Reg} (hr : r ∈ clearedRegisters) : (readied k s).reg r = 0 := by
  rw [readied_reg, scrubbed_self hr]

/-- From a supervisor state with canonical arguments the first user instruction is reached. -/
theorem userEnter_run (k : BitVec 64) (hsysenter : s.sysenterCs = 8) (hcs : s.cs = 8)
    (hentry : Canonical (s.reg .rdi).toNat) (hstack : Canonical (s.reg .rsi).toNat) :
    userEnter k s = some (exited (readied k s)) ∧
      FirstUser (s.reg .rdi) (s.reg .rsi) (exited (readied k s)) := by
  obtain ⟨hcs', hsysenter', -⟩ := readied_system k s
  obtain ⟨hrdx, hrcx⟩ := readied_arguments k s
  obtain ⟨hds, hes, hfs, hgs⟩ := readied_segments k s
  have hflags := readied_flags (k := k) (s := s)
  have hcleared := fun r => readied_cleared (k := k) (s := s) (r := r)
  rw [userEnter_eq, ← readied]
  rw [hcs] at hcs'
  rw [hsysenter] at hsysenter'
  generalize readied k s = w at *
  constructor
  · apply sysexit_eq hsysenter' hcs'
    · rwa [hrdx]
    · rwa [hrcx]
  · exact {
      rip := hrdx
      rdx := (exited_reg (by decide)).trans hrdx
      rcx := (exited_reg (by decide)).trans hrcx
      rsp := exited_rsp.trans hrcx
      reg := by
        intro r hr
        have hrsp : r ≠ .rsp := by
          rintro rfl
          exact absurd hr (by decide)
        rw [exited_reg hrsp]
        exact hcleared r hr
      flags := hflags
      cs := rfl
      ss := rfl
      ds := hds
      es := hes
      fs := hfs
      gs := hgs }

end Enter

end MikoOS.Entry
