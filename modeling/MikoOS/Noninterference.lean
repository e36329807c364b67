import MikoOS.UserEntry

/-!
# Noninterference of the user demonstration

What CPL 3 can observe is its registers, flags and selectors and the bytes it can reach. Two
demonstrations with the same payload begin with the same observation, and a system call takes equal
observations to equal ones: the answer depends on the frame and the two user pages only, and nothing
of the kernel reaches the state that SYSEXIT leaves.
-/

namespace MikoOS.UserMode

open ByteMemory PageWalk Rust X86

/-- The session whose memory is what the processor sees through the direct map. -/
def Session.seen (x : Session) (c : Cpu) : Session := x.onRam fun _ y => c.ram (pageOffset + y)

/-- The tables and the two user pages. -/
def Guarded (u : UserImage) (run : PageRun) (y : ℕ) : Prop :=
  (∃ k, u.place k ≤ y ∧ y < u.place k + 4096) ∨
    run.physicalAddress ≤ y ∧ y < run.physicalAddress + 2 * pageSize

/-- `n` bytes of the kernel image from `a`, apart from the tables. -/
structure KernelData (u : UserImage) (image : KernelImage) (a n : ℕ) : Prop where
  inside : image.text + 0x4000 ≤ a ∧ a + n ≤ image.kernelEnd
  apart : ∀ b ∈ [u.pdpt, u.pd, u.pt], b + pageSize ≤ a ∨ a + n ≤ b

/-- What user code can observe. -/
@[ext] structure UserState where
  reg : Reg → BitVec 64
  rip : BitVec 64
  flags : BitVec 64
  cs : BitVec 16
  ss : BitVec 16
  ds : BitVec 16
  es : BitVec 16
  fs : BitVec 16
  gs : BitVec 16
  memory : ℕ → Option (BitVec 8 × Rights)

def userMemory (x : Session) (v : ℕ) : Option (BitVec 8 × Rights) :=
  if Canonical v then (userTranslation x v).map fun t => (x.ram t.physical, t.rights) else none

def userState (x : Session) (c : Cpu) : UserState where
  reg := c.reg
  rip := c.rip
  flags := c.flags
  cs := c.cs
  ss := c.ss
  ds := c.ds
  es := c.es
  fs := c.fs
  gs := c.gs
  memory := userMemory (x.seen c)

section Memory

variable {u : UserImage} {image : KernelImage} {run : PageRun} {s₀ : MemoryDescriptor} {x y : Session}

theorem KernelData.of_returnStack (hu : u.Linked image) :
    KernelData u image u.returnStack returnStackSize :=
  ⟨hu.returnStack, hu.returnStack_apart⟩

/-- The kernel's own data is neither a table nor a user page. -/
theorem KernelData.outside (himage : image.Linked) (hrun : Backs image run) {a n : ℕ}
    (h : KernelData u image a n) {z : ℕ} (hz : Guarded u run z) :
    pageOffset + z < a ∨ a + n ≤ pageOffset + z := by
  have htext := himage.text
  obtain ⟨hlow, hhigh⟩ := h.inside
  rcases hz with ⟨k, h1, h2⟩ | ⟨h1, -⟩
  · have hpdpt := h.apart u.pdpt (by simp)
    have hpd := h.apart u.pd (by simp)
    have hpt := h.apart u.pt (by simp)
    rw [htext] at hlow
    rw [pageSize] at hpdpt hpd hpt
    cases k <;> simp only [UserImage.place, directPhysical, pml4Address, pageOffset] at h1 h2 ⊢ <;>
      omega
  · have hbehind := hrun.behind
    omega

/-- Guarded bytes decide what is mapped. -/
theorem Mapped.of_guarded (h : Mapped u s₀ run x) (hledger : y.ledger = x.ledger)
    (hcr3 : y.cr3 = x.cr3) (hram : ∀ z, Guarded u run z → y.ram z = x.ram z) : Mapped u s₀ run y := by
  apply h.congr hledger hcr3
  intro k z h1 h2
  exact hram z (.inl ⟨k, h1, h2⟩)

theorem userByte_eq (x : Session) {v : ℕ} (hv : InUserPage v 1) :
    userByte x v = (userMemory x v).elim 0 Prod.fst := by
  have hcanonical : Canonical v := by
    unfold InUserPage code stack stackTop pageSize at hv
    left
    omega
  unfold userByte userMemory
  rw [if_pos hcanonical]
  cases userTranslation x v <;> rfl

section Window

variable (himage : image.Linked) (hu : u.Linked image) (hrun : Backs image run)

include himage hu hrun

theorem userMemory_mapped (h : Mapped u s₀ run x) (v : ℕ) : userMemory x v =
    if Canonical v then (window run.physicalAddress v).map fun t => (x.ram t.physical, t.rights)
    else none := by
  unfold userMemory
  by_cases hv : Canonical v
  · rw [if_pos hv, if_pos hv, h.window himage hu hrun hv]
  · rw [if_neg hv, if_neg hv]

/-- Guarded bytes decide what user code sees. -/
theorem userMemory_congr (hx : Mapped u s₀ run x) (hy : Mapped u s₀ run y)
    (hram : ∀ z, Guarded u run z → y.ram z = x.ram z) : userMemory y = userMemory x := by
  funext v
  rw [userMemory_mapped himage hu hrun hx, userMemory_mapped himage hu hrun hy]
  by_cases hv : Canonical v
  · rw [if_pos hv, if_pos hv]
    cases hwindow : window run.physicalAddress v with
    | none => rfl
    | some t =>
      rw [Option.map_some, Option.map_some, hram t.physical (.inr (window_inside hwindow))]
  · rw [if_neg hv, if_neg hv]

end Window

/-- The first view of memory: the payload of `ram` padded with zeros, and a zero stack. -/
def firstMemory (u : UserImage) (ram : Memory) (v : ℕ) : Option (BitVec 8 × Rights) :=
  if code ≤ v ∧ v < code + pageSize then
    some (if v - code < u.userEnd - u.userStart then ram (directPhysical u.userStart + (v - code))
      else 0, ⟨true, false, false⟩)
  else if stack ≤ v ∧ v < stackTop then some (0, ⟨true, true, true⟩)
  else none

theorem Loaded.userMemory (himage : image.Linked) (hu : u.Linked image) (hrun : Backs image run)
    {ram : Memory} (hx : Mapped u s₀ run x) (h : Loaded u ram run x) :
    UserMode.userMemory x = firstMemory u ram := by
  funext v
  rw [userMemory_mapped himage hu hrun hx]
  unfold firstMemory window
  by_cases hcode : code ≤ v ∧ v < code + pageSize
  · have hcanonical : Canonical v := by
      unfold code pageSize at hcode
      left
      omega
    rw [if_pos hcanonical, if_pos hcode, if_pos hcode, Option.map_some, h.codePage _ (by omega)]
  · rw [if_neg hcode, if_neg hcode]
    by_cases hstack : stack ≤ v ∧ v < stackTop
    · have hoffset : v - stack < pageSize := by
        unfold stack stackTop at hstack
        unfold stack pageSize
        omega
      have hcanonical : Canonical v := by
        unfold stack stackTop at hstack
        left
        omega
      rw [if_pos hcanonical, if_pos hstack, if_pos hstack, Option.map_some, h.stackPage _ hoffset]
    · rw [if_neg hstack, if_neg hstack, Option.map_none, ite_self]

theorem firstMemory_congr {ram ram' : Memory}
    (h : ∀ i < u.userEnd - u.userStart,
      ram (directPhysical u.userStart + i) = ram' (directPhysical u.userStart + i)) :
    firstMemory u ram = firstMemory u ram' := by
  funext v
  unfold firstMemory
  by_cases hpayload : v - code < u.userEnd - u.userStart
  · rw [if_pos hpayload, if_pos hpayload, h _ hpayload]
  · rw [if_neg hpayload, if_neg hpayload]

end Memory

end MikoOS.UserMode

namespace MikoOS.Entry

open ByteMemory PageWalk Rust X86 Cpu UserMode

/-- What the caller of a C function provides. -/
def Called (c : Cpu) : Prop := c.flags &&& directionFlag = 0 ∧ (c.reg .rsp + 8).toNat % 16 = 0

/-- Compiled code for `system_call_dispatch` in the demonstration `x`: it obeys the C ABI, returns
what the function returns, and stores to kernel data only. -/
structure Serves (p : Profile) (u : UserImage) (run : PageRun) (x : Session)
    (dispatch : Cpu → Option Cpu) : Prop where
  callee : Callee 15 dispatch
  value : ∀ c d, Called c → dispatch c = some d →
    ∃ r, (systemCallDispatch p u (c.reg .rdi).toNat (readFrame c.ram (c.reg .rdi))).run
      ⟨x.seen c, [], []⟩ = .ok (d.reg .rax) r
  guarded : ∀ c d, Called c → dispatch c = some d → ∀ y, Guarded u run y →
    d.ram (pageOffset + y) = c.ram (pageOffset + y)
  segments : ∀ c d, Called c → dispatch c = some d → d.fs = c.fs ∧ d.gs = c.gs

/-- From SYSENTER to SYSEXIT, with what is left open in the code around the dispatcher. -/
def SystemCall (p : Profile) (u : UserImage) (run : PageRun) (x : Session) (s t : Cpu) : Prop :=
  ∃ dispatch returnTo, Serves p u run x dispatch ∧ systemCall dispatch returnTo s = some t

/-- User code runs: its stores go where it may store, and the SYSENTER registers are not its own. -/
structure UserPhase (x : Session) (s t : Cpu) : Prop where
  sysenterCs : t.sysenterCs = s.sysenterCs
  sysenterEsp : t.sysenterEsp = s.sysenterEsp
  stores : ∀ y, t.ram (pageOffset + y) ≠ s.ram (pageOffset + y) → ∃ v tr, Canonical v ∧
    userTranslation (x.seen s) v = some tr ∧ tr.rights.writable = true ∧ tr.physical = y

/-- The demonstration is set up for system calls. -/
structure SetUp (u : UserImage) (s₀ : MemoryDescriptor) (run : PageRun) (x : Session) (c : Cpu) :
    Prop where
  mapped : Mapped u s₀ run (x.seen c)
  entering : Entering (BitVec.ofNat 64 (u.returnStack + returnStackSize)) c

section Stack

variable {u : UserImage} {s t : Cpu} {dispatch : Cpu → Option Cpu} {returnTo top : BitVec 64}

theorem systemCall_some (h : Entering top s) (ht : systemCall dispatch returnTo s = some t) :
    ∃ d, dispatch (dispatched returnTo s) = some d ∧
      systemCallEpilogue ((dispatched returnTo s).within d) = some t := by
  rw [systemCall_eq _ _ h] at ht
  exact Option.bind_eq_some_iff.mp ht

/-- The stack below the frame that the entry code saves. -/
theorem saved_rsp (h : Entering top s) (htop : 120 ≤ top.toNat) :
    ((saveRegisters (entered s).cld).reg .rsp).toNat = top.toNat - 120 := by
  have hlength : BitVec.ofNat 64 (8 * savedRegisters.length) = 120 := rfl
  have hvalue : (120 : BitVec 64).toNat = 120 := rfl
  have hrsp : (entered s).cld.reg .rsp = top := by
    change Function.update s.reg .rsp s.sysenterEsp .rsp = top
    rw [Function.update_self, h.esp]
  rw [saveRegisters, pushRegs_rsp, hrsp, hlength,
    BitVec.toNat_sub_of_le (BitVec.le_def.mpr (by omega)), hvalue]

theorem saved_outside (h : Entering top s) (htop : 120 ≤ top.toNat) {a : ℕ}
    (ha : a + 120 < top.toNat ∨ top.toNat ≤ a) :
    (saveRegisters (entered s).cld).ram a = s.ram a := by
  have hlength : savedRegisters.length = 15 := rfl
  have hrsp : (entered s).cld.reg .rsp = top := by
    change Function.update s.reg .rsp s.sysenterEsp .rsp = top
    rw [Function.update_self, h.esp]
  exact pushRegs_outside (by rw [hrsp, hlength]; omega) (by rw [hrsp, hlength]; omega)

theorem call_outside {w : Cpu} (htop : 144 ≤ top.toNat)
    (hrsp : (w.reg .rsp).toNat = top.toNat - 120) {a : ℕ} (ha : a + 144 < top.toNat ∨ top.toNat ≤ a) :
    (anchoredCall returnTo (kernelSegments w)).ram a = w.ram a := by
  have hcall := anchor_toNat (show 16 ≤ (w.reg .rsp).toNat by omega)
  rw [anchoredCall_ram, kernelSegments_reg (by decide)]
  apply store64_outside
  omega

/-- On the way in only the 144 bytes below the top of the stack are written. -/
theorem dispatched_outside (h : Entering top s) (htop : 144 ≤ top.toNat) {a : ℕ}
    (ha : a + 144 < top.toNat ∨ top.toNat ≤ a) : (dispatched returnTo s).ram a = s.ram a := by
  have hrsp := saved_rsp h (by omega)
  have hsaved := saved_outside (a := a) h (by omega) (by omega)
  unfold dispatched systemCallPrologue
  rw [call_outside htop hrsp ha, hsaved]

theorem sysexit_some (h : s.sysexit = some t) : t.ram = s.ram ∧ t.fs = s.fs ∧ t.gs = s.gs ∧
    t.sysenterCs = s.sysenterCs ∧ t.sysenterEsp = s.sysenterEsp := by
  unfold sysexit at h
  split at h
  · obtain rfl := Option.some.inj h
    exact ⟨rfl, rfl, rfl, rfl, rfl⟩
  · cases h

/-- On the way out the frame and the word below it are written. -/
theorem systemCallEpilogue_some (h : systemCallEpilogue s = some t) :
    t.fs = s.fs ∧ t.gs = s.gs ∧ t.sysenterCs = s.sysenterCs ∧ t.sysenterEsp = s.sysenterEsp ∧
      ∀ a, 8 ≤ (s.reg .rbx).toNat → (s.reg .rbx).toNat + 120 < 2 ^ 64 →
        a + 8 < (s.reg .rbx).toNat ∨ (s.reg .rbx).toNat + 120 ≤ a → t.ram a = s.ram a := by
  rw [systemCallEpilogue_eq] at h
  obtain ⟨hram, hfs, hgs, hcs, hesp⟩ := sysexit_some h
  rw [restored_eq] at hram hfs hgs hcs hesp
  refine ⟨hfs, hgs, hcs, hesp, ?_⟩
  intro a hlow hhigh ha
  have hoffset : (112 : BitVec 64).toNat = 112 := rfl
  have hanchor : (anchorBack s).reg .rsp = s.reg .rbx := set_self
  have hslot : (s.reg .rbx + 112).toNat = (s.reg .rbx).toNat + 112 := by
    rw [BitVec.toNat_add, hoffset, Nat.mod_eq_of_lt (by omega)]
  have hrsp : (userSegments ((anchorBack s).store ((anchorBack s).reg .rsp + 112)
      (s.reg .rax))).reg .rsp = s.reg .rbx := by
    rw [userSegments_reg (by decide), store_reg, hanchor]
  rw [hram]
  change ((userSegments ((anchorBack s).store ((anchorBack s).reg .rsp + 112)
    (s.reg .rax))).push 2).ram a = s.ram a
  rw [push_outside (by rw [hrsp]; exact hlow) (by rw [hrsp]; omega)]
  change store64 s.ram ((anchorBack s).reg .rsp + 112).toNat (s.reg .rax) a = s.ram a
  rw [hanchor, hslot, store64_outside (by omega)]

theorem ax_clearLow : ax (s.clearLow .rax) = 0 := ax_setLow 0 s

theorem call_system (returnTo : BitVec 64) (w : Cpu) : (anchoredCall returnTo (kernelSegments w)).fs = 0 ∧
    (anchoredCall returnTo (kernelSegments w)).gs = 0 ∧
    (anchoredCall returnTo (kernelSegments w)).sysenterCs = w.sysenterCs ∧
    (anchoredCall returnTo (kernelSegments w)).sysenterEsp = w.sysenterEsp ∧
    (anchoredCall returnTo (kernelSegments w)).reg .rbx = w.reg .rsp ∧
    (anchoredCall returnTo (kernelSegments w)).reg .rdi = w.reg .rsp := by
  refine ⟨ax_clearLow, ax_clearLow, rfl, rfl, ?_, ?_⟩
  · rw [anchoredCall_rbx, kernelSegments_reg (by decide)]
  · rw [anchoredCall_rdi, kernelSegments_reg (by decide)]

theorem saved_system (s : Cpu) : (saveRegisters (entered s).cld).sysenterCs = s.sysenterCs ∧
    (saveRegisters (entered s).cld).sysenterEsp = s.sysenterEsp := by
  rw [saveRegisters, pushRegs_eq]
  exact ⟨rfl, rfl⟩

/-- What the dispatcher is called with besides the frame. -/
theorem dispatched_system (returnTo : BitVec 64) (h : Entering top s) (htop : 120 ≤ top.toNat) :
    (dispatched returnTo s).fs = 0 ∧ (dispatched returnTo s).gs = 0 ∧
      Entering top (dispatched returnTo s) ∧
      ((dispatched returnTo s).reg .rbx).toNat = top.toNat - 120 ∧
      ((dispatched returnTo s).reg .rdi).toNat = top.toNat - 120 := by
  have hrsp := saved_rsp h htop
  obtain ⟨hcs, hesp⟩ := saved_system s
  obtain ⟨hfs, hgs, hcs', hesp', hrbx, hrdi⟩ := call_system returnTo (saveRegisters (entered s).cld)
  refine ⟨hfs, hgs, ⟨?_, ?_⟩, ?_, ?_⟩
  · exact (hcs'.trans hcs).trans h.cs
  · exact (hesp'.trans hesp).trans h.esp
  · unfold dispatched systemCallPrologue
    rw [hrbx, hrsp]
  · unfold dispatched systemCallPrologue
    rw [hrdi, hrsp]

end Stack

section Call

variable {p : Profile} {u : UserImage} {image : KernelImage} {run : PageRun} {s₀ : MemoryDescriptor}
  {m : Memory} {x : Session} {s t : Cpu}

theorem top_toNat (hu : u.Payload) : (BitVec.ofNat 64 (u.returnStack + returnStackSize)).toNat =
    u.returnStack + returnStackSize := by
  have hlt := hu.returnStack
  rw [BitVec.toNat_ofNat, Nat.mod_eq_of_lt hlt]

theorem SetUp.active (himage : image.Linked) (hu : u.Linked image)
    (hx : Launched u image s₀ m run x) (hs : SetUp u s₀ run x s) : Active u run (x.seen s) :=
  ⟨hx.active, hx.interrupts, hx.kernelStack, hs.mapped.isOpened himage hu hx.backs⟩

/-- Equal views of memory give equal answers. -/
theorem answer_of_memory {y : Session} (h : userMemory y = userMemory x) (f : Frame) :
    answer y f = answer x f := by
  apply answer_congr
  intro v hv
  rw [userByte_eq y hv, userByte_eq x hv, h]

/-- A dispatcher that returns has accepted the frame and answers what the model of it answers. -/
theorem Serves.accepted {dispatch : Cpu → Option Cpu} {c d : Cpu} (hu : u.Payload)
    (hserves : Serves p u run x dispatch) (hc : Active u run (x.seen c)) (hcalled : Called c)
    (hd : dispatch c = some d) :
    checkedDispatch p u (x.seen c) dispatch c = some d ∧
      d.reg .rax = (answer (x.seen c) (readFrame c.ram (c.reg .rdi))).value := by
  obtain ⟨r, hvalue⟩ := hserves.value c d hcalled hd
  by_cases haccepts : Accepts u (x.seen c) (c.reg .rdi).toNat (readFrame c.ram (c.reg .rdi))
  · constructor
    · unfold checkedDispatch
      rw [validSyscall_run p hu, decide_eq_true haccepts]
      exact hd
    · have hanswer := systemCallDispatch_accepted (r := ⟨x.seen c, [], []⟩) p hu hc haccepts
      exact (EStateM.Result.ok.inj (hvalue.symm.trans hanswer)).1
  · have hrejected := systemCallDispatch_rejected (r := ⟨x.seen c, [], []⟩) p hu hc haccepts
    have hconflict := hvalue.symm.trans hrejected
    simp only [reduceCtorEq] at hconflict

/-- The state the dispatcher is called in: the entry code has written to RETURN_STACK only. -/
theorem SetUp.dispatched (himage : image.Linked) (hu : u.Linked image) (hinside : u.Inside image)
    (hx : Launched u image s₀ m run x) (hs : SetUp u s₀ run x s) (returnTo : BitVec 64) :
    SetUp u s₀ run x (dispatched returnTo s) ∧
      ∀ y, Guarded u run y →
        (Entry.dispatched returnTo s).ram (pageOffset + y) = s.ram (pageOffset + y) := by
  have htop := top_toNat hinside.payload
  have hsize : returnStackSize = 32768 := rfl
  have hin : ∀ y, Guarded u run y →
      (Entry.dispatched returnTo s).ram (pageOffset + y) = s.ram (pageOffset + y) := by
    intro y hy
    have hout := (KernelData.of_returnStack hu).outside himage hx.backs hy
    exact dispatched_outside hs.entering (by omega) (by omega)
  obtain ⟨-, -, hentering, -⟩ := dispatched_system returnTo hs.entering (by omega)
  exact ⟨⟨hs.mapped.of_guarded rfl rfl hin, hentering⟩, hin⟩

theorem top_aligned (hinside : u.Inside image) (hx : Launched u image s₀ m run x) :
    Aligned (BitVec.ofNat 64 (u.returnStack + returnStackSize)) := by
  have hsixteen := hx.aligned
  rw [Aligned, top_toNat hinside.payload]
  omega

/-- A system call answers from the frame and the user pages, and leaves no trace besides. -/
theorem systemCall_run (himage : image.Linked) (hu : u.Linked image) (hinside : u.Inside image)
    (hx : Launched u image s₀ m run x) (hs : SetUp u s₀ run x s) (h : SystemCall p u run x s t) :
    SetUp u s₀ run x t ∧ Returned s (answer (x.seen s) (userFrame s)).value t ∧ t.fs = 0 ∧
      t.gs = 0 ∧ userMemory (x.seen t) = userMemory (x.seen s) := by
  obtain ⟨dispatch, returnTo, hserves, ht⟩ := h
  obtain ⟨d, hd, hepilogue⟩ := systemCall_some hs.entering ht
  have htop := top_toNat hinside.payload
  have hsize : returnStackSize = 32768 := rfl
  obtain ⟨hdirection, hcall, hframe, hreturns⟩ := systemCall_step p hinside.payload
    (x.seen (dispatched returnTo s)) hserves.callee returnTo (top_aligned hinside hx) hs.entering
  obtain ⟨hfs, hgs, hentering, hrbx, -⟩ :=
    dispatched_system returnTo hs.entering (by omega)
  obtain ⟨hsetup, hin⟩ := hs.dispatched himage hu hinside hx returnTo
  have hchecked := systemCall_eq (checkedDispatch p u (x.seen (dispatched returnTo s)) dispatch)
    returnTo hs.entering
  generalize dispatched returnTo s = c at *
  obtain ⟨haccepted, hvalue⟩ := hserves.accepted hinside.payload (hsetup.active himage hu hx)
    ⟨hdirection, hcall⟩ hd
  obtain ⟨-, t', ht', hreturned⟩ := hreturns d haccepted
  obtain rfl : t' = t := by
    rw [hchecked, haccepted] at ht'
    exact Option.some.inj (ht'.symm.trans hepilogue)
  rw [hframe, answer_of_memory (userMemory_congr himage hu hx.backs hs.mapped hsetup.mapped hin)]
    at hvalue
  rw [hvalue] at hreturned
  have hdrbx : d.reg .rbx = c.reg .rbx := hserves.callee.rbx c d hdirection hcall hd
  obtain ⟨hfs', hgs', hcs', hesp', hout'⟩ := systemCallEpilogue_some hepilogue
  obtain ⟨hdfs, hdgs⟩ := hserves.segments c d ⟨hdirection, hcall⟩ hd
  have hguarded : ∀ y, Guarded u run y → t'.ram (pageOffset + y) = s.ram (pageOffset + y) := by
    intro y hy
    have hout := (KernelData.of_returnStack hu).outside himage hx.backs hy
    have hword : ((c.within d).reg .rbx).toNat = u.returnStack + returnStackSize - 120 := by
      change (d.reg .rbx).toNat = _
      rw [hdrbx, hrbx, htop]
    rw [hout' _ (by omega) (by omega) (by omega)]
    exact (hserves.guarded c d ⟨hdirection, hcall⟩ hd y hy).trans (hin y hy)
  have hmapped : Mapped u s₀ run (x.seen t') := hs.mapped.of_guarded rfl rfl hguarded
  refine ⟨⟨hmapped, hcs'.trans hentering.cs, hesp'.trans hentering.esp⟩, hreturned, ?_, ?_, ?_⟩
  · exact (hfs'.trans hdfs).trans hfs
  · exact (hgs'.trans hdgs).trans hgs
  · exact userMemory_congr himage hu hx.backs hs.mapped hmapped hguarded

/-- The dispatcher with no code around the model of it. -/
def serve (p : Profile) (u : UserImage) (x : Session) (c : Cpu) : Option Cpu :=
  match (systemCallDispatch p u (c.reg .rdi).toNat (readFrame c.ram (c.reg .rdi))).run
    ⟨x.seen c, [], []⟩ with
  | .ok v _ => some (c.set .rax v)
  | .error _ _ => none

theorem serve_some {c d : Cpu} (h : serve p u x c = some d) : ∃ v r,
    (systemCallDispatch p u (c.reg .rdi).toNat (readFrame c.ram (c.reg .rdi))).run
      ⟨x.seen c, [], []⟩ = .ok v r ∧ d = c.set .rax v := by
  unfold serve at h
  split at h
  · next v r heq => exact ⟨v, r, heq, (Option.some.inj h).symm⟩
  · cases h

theorem serve_serves (p : Profile) (u : UserImage) (run : PageRun) (x : Session) :
    Serves p u run x (serve p u x) where
  callee := by
    constructor
    · intro c d _ _ hd
      obtain ⟨v, _, -, rfl⟩ := serve_some hd
      exact set_of_ne (by decide)
    · intro c d _ _ hd i _
      obtain ⟨v, _, -, rfl⟩ := serve_some hd
      rfl
  value := by
    intro c d _ hd
    obtain ⟨v, r, hv, rfl⟩ := serve_some hd
    exact ⟨r, by rw [set_self]; exact hv⟩
  guarded := by
    intro c d _ hd y _
    obtain ⟨v, _, -, rfl⟩ := serve_some hd
    rfl
  segments := by
    intro c d _ hd
    obtain ⟨v, _, -, rfl⟩ := serve_some hd
    exact ⟨rfl, rfl⟩

/-- A call with a valid return context can return. -/
theorem exists_served (himage : image.Linked) (hu : u.Linked image) (hinside : u.Inside image)
    (hx : Launched u image s₀ m run x) (hs : SetUp u s₀ run x s) (p : Profile)
    (hvalid : ValidReturn u (userFrame s)) : ∃ t, systemCall (serve p u x) 0 s = some t := by
  have htop := top_toNat hinside.payload
  have hsize : returnStackSize = 32768 := rfl
  obtain ⟨-, -, hframe, hreturns⟩ := systemCall_step p hinside.payload (x.seen (dispatched 0 s))
    (serve_serves p u run x).callee 0 (top_aligned hinside hx) hs.entering
  obtain ⟨-, -, -, -, hrdi⟩ := dispatched_system 0 hs.entering (by omega)
  obtain ⟨hsetup, -⟩ := hs.dispatched himage hu hinside hx 0
  have hchecked := systemCall_eq (checkedDispatch p u (x.seen (dispatched 0 s)) (serve p u x)) 0
    hs.entering
  have hserved := systemCall_eq (serve p u x) 0 hs.entering
  generalize dispatched 0 s = c at *
  have haccepts : Accepts u (x.seen c) (c.reg .rdi).toNat (readFrame c.ram (c.reg .rdi)) := by
    rw [hframe, hrdi, htop]
    apply (hsetup.active himage hu hx).accepts_iff (r := ⟨x.seen c, [], []⟩) |>.mpr
    exact hvalid
  have haccepted := systemCallDispatch_accepted (r := ⟨x.seen c, [], []⟩) p hinside.payload
    (hsetup.active himage hu hx) haccepts
  obtain ⟨d, hd⟩ : ∃ d, serve p u x c = some d := by
    unfold serve
    rw [haccepted]
    exact ⟨_, rfl⟩
  have hcheck : checkedDispatch p u (x.seen c) (serve p u x) c = some d := by
    unfold checkedDispatch
    rw [validSyscall_run p hinside.payload, decide_eq_true haccepts]
    exact hd
  obtain ⟨-, t, ht, -⟩ := hreturns d hcheck
  refine ⟨t, ?_⟩
  rw [hserved, hd, ← ht, hchecked, hcheck]

theorem exists_systemCall (himage : image.Linked) (hu : u.Linked image) (hinside : u.Inside image)
    (hx : Launched u image s₀ m run x) (hs : SetUp u s₀ run x s) (p : Profile)
    (hvalid : ValidReturn u (userFrame s)) : ∃ t, SystemCall p u run x s t := by
  obtain ⟨t, ht⟩ := exists_served himage hu hinside hx hs p hvalid
  exact ⟨t, serve p u x, 0, serve_serves p u run x, ht⟩

theorem UserPhase.setUp (himage : image.Linked) (hu : u.Linked image) (hrun : Backs image run)
    (h : UserPhase x s t) (hs : SetUp u s₀ run x s) : SetUp u s₀ run x t where
  mapped := by
    refine hs.mapped.congr (t := x.seen t) rfl rfl ?_
    intro k y _ hy
    by_contra hne
    obtain ⟨v, tr, hv, htranslation, -, rfl⟩ := h.stores y hne
    rw [hs.mapped.window himage hu hrun hv] at htranslation
    have hinside := (window_inside htranslation).1
    have hbelow := hrun.outside himage hu k hy
    omega
  entering := ⟨h.sysenterCs.trans hs.entering.cs, h.sysenterEsp.trans hs.entering.esp⟩

end Call

/-- The calls of a user program that begins in `first`, each with its state at SYSENTER and after
SYSEXIT, and the state it has come to. -/
inductive UserRun (p : Profile) (u : UserImage) (run : PageRun) (x : Session) (first : Cpu) :
    Cpu → List (Cpu × Cpu) → Prop
  | start : UserRun p u run x first first []
  | call (c s t : Cpu) (calls : List (Cpu × Cpu)) : UserRun p u run x first c calls →
      UserPhase x c s → SystemCall p u run x s t → UserRun p u run x first t (calls ++ [(s, t)])

section Agree

variable {p p' : Profile} {u : UserImage} {image : KernelImage} {run run' : PageRun}
  {s₀ s₀' : MemoryDescriptor} {m m' : Memory} {x x' : Session} {s s' t t' : Cpu}

/-- Every call of a run is made from a set-up state. -/
theorem UserRun.calls {first c : Cpu} {calls : List (Cpu × Cpu)} (himage : image.Linked)
    (hu : u.Linked image) (hinside : u.Inside image) (hx : Launched u image s₀ m run x)
    (hfirst : SetUp u s₀ run x first) (h : UserRun p u run x first c calls) :
    SetUp u s₀ run x c ∧ ∀ a ∈ calls, SetUp u s₀ run x a.1 ∧ SystemCall p u run x a.1 a.2 := by
  induction h with
  | start => exact ⟨hfirst, fun a ha => absurd ha List.not_mem_nil⟩
  | call c s t calls _ hphase hcall ih =>
    have hs := hphase.setUp himage hu hx.backs ih.1
    constructor
    · exact (systemCall_run himage hu hinside hx hs hcall).1
    · intro a ha
      rcases List.mem_append.mp ha with ha | ha
      · exact ih.2 a ha
      · obtain rfl := List.mem_singleton.mp ha
        exact ⟨hs, hcall⟩

theorem userFrame_congr (h : s.reg = s'.reg) : userFrame s = userFrame s' := by
  unfold userFrame
  rw [h]

theorem Returned.agree {v : BitVec 64} (h : Returned s v t) (h' : Returned s' v t')
    (hreg : s.reg = s'.reg) (hfs : t.fs = 0 ∧ t.gs = 0) (hfs' : t'.fs = 0 ∧ t'.gs = 0)
    (hmemory : userMemory (x.seen t) = userMemory (x'.seen t')) : userState x t = userState x' t' := by
  apply UserState.ext
  · funext r
    change t.reg r = t'.reg r
    by_cases hrax : r = .rax
    · rw [hrax, h.rax, h'.rax]
    · by_cases hrsp : r = .rsp
      · rw [hrsp, h.rsp, h'.rsp, hreg]
      · rw [h.reg r hrax hrsp, h'.reg r hrax hrsp, hreg]
  · exact (h.rip.trans (congrFun hreg .rdx)).trans h'.rip.symm
  · exact h.flags.trans h'.flags.symm
  · exact h.cs.trans h'.cs.symm
  · exact h.ss.trans h'.ss.symm
  · exact h.ds.trans h'.ds.symm
  · exact h.es.trans h'.es.symm
  · exact hfs.1.trans hfs'.1.symm
  · exact hfs.2.trans hfs'.2.symm
  · exact hmemory

/-- A call takes equal observations to equal ones. -/
theorem systemCall_agree (himage : image.Linked) (hu : u.Linked image) (hinside : u.Inside image)
    (hx : Launched u image s₀ m run x) (hx' : Launched u image s₀' m' run' x')
    (hs : SetUp u s₀ run x s) (hs' : SetUp u s₀' run' x' s') (h : SystemCall p u run x s t)
    (h' : SystemCall p' u run' x' s' t') (heq : userState x s = userState x' s') :
    userState x t = userState x' t' := by
  obtain ⟨-, hreturned, hfs, hgs, hmemory⟩ := systemCall_run himage hu hinside hx hs h
  obtain ⟨-, hreturned', hfs', hgs', hmemory'⟩ := systemCall_run himage hu hinside hx' hs' h'
  have hreg : s.reg = s'.reg := congrArg UserState.reg heq
  have hsame : userMemory (x.seen s) = userMemory (x'.seen s') := congrArg UserState.memory heq
  rw [answer_of_memory hsame, userFrame_congr hreg] at hreturned
  apply hreturned.agree hreturned' hreg ⟨hfs, hgs⟩ ⟨hfs', hgs'⟩
  rw [hmemory, hmemory', hsame]

theorem FirstUser.agree {entry stackPointer : BitVec 64} (h : FirstUser entry stackPointer t)
    (h' : FirstUser entry stackPointer t')
    (hmemory : userMemory (x.seen t) = userMemory (x'.seen t')) : userState x t = userState x' t' := by
  apply UserState.ext
  · funext r
    change t.reg r = t'.reg r
    by_cases hr : r ∈ clearedRegisters
    · rw [h.reg r hr, h'.reg r hr]
    · cases r with
      | rdx => exact h.rdx.trans h'.rdx.symm
      | rcx => exact h.rcx.trans h'.rcx.symm
      | rsp => exact h.rsp.trans h'.rsp.symm
      | _ => exact absurd (by decide) hr
  · exact h.rip.trans h'.rip.symm
  · exact h.flags.trans h'.flags.symm
  · exact h.cs.trans h'.cs.symm
  · exact h.ss.trans h'.ss.symm
  · exact h.ds.trans h'.ds.symm
  · exact h.es.trans h'.es.symm
  · exact h.fs.trans h'.fs.symm
  · exact h.gs.trans h'.gs.symm
  · exact hmemory

end Agree

/-- A demonstration at its call of `user_enter`, after a boot and any use of the allocator. Memory
besides the tables and the user pages, and the registers besides the two arguments, are arbitrary. -/
structure Demonstration (image : KernelImage) (u : UserImage) where
  profile : Profile
  cpuid : Cpuid
  before : Session
  run : PageRun
  oldStack : ℕ
  session : Session
  trace : List Session
  cpu : Cpu
  userKernelRsp : BitVec 64
  booted : ∃ (base : BitVec 32) (k t : Kernel) (ops : List Operation) (l : Ledger),
    k.Booted base ∧ (init profile image).run k = .ok () t ∧
    (history profile ops).run ⟨t.memory, []⟩ = .ok () l ∧ before.Ready u t l
  launched : (launch profile cpuid u).run ⟨before, [before]⟩ = .ok (run, oldStack) ⟨session, trace⟩
  ram : ∀ y, Guarded u run y → cpu.ram (pageOffset + y) = session.ram y
  cs : cpu.cs = 8
  sysenterCs : cpu.sysenterCs = session.msr 0x174
  sysenterEsp : cpu.sysenterEsp = session.msr 0x175
  entry : cpu.reg .rdi = BitVec.ofNat 64 code
  stackPointer : cpu.reg .rsi = BitVec.ofNat 64 (stackTop - 8)
  kernelStack : KernelData u image ((cpu.reg .rsp).toNat - 56) 56
  kept : KernelData u image userKernelRsp.toNat 8

namespace Demonstration

variable {image : KernelImage} {u : UserImage}

theorem exists_launched (himage : image.Linked) (hu : u.Linked image) (hinside : u.Inside image)
    (d : Demonstration image u) : ∃ s₀, Launched u image s₀ d.before.ram d.run d.session := by
  obtain ⟨base, k, t, ops, l, hk, ht, hl, hready⟩ := d.booted
  obtain ⟨map, hrunning, hunmapped⟩ := ready_unmapped himage hk ht hl hready
  have hlaunch := launch_run himage hu hinside hrunning d.profile d.cpuid hunmapped
  rw [d.launched, satisfies_ok] at hlaunch
  exact ⟨t.memory, hlaunch⟩

/-- The first user state is set up, and shows the payload and zeros. -/
theorem enters (himage : image.Linked) (hu : u.Linked image) (d : Demonstration image u)
    {s₀ : MemoryDescriptor} (hx : Launched u image s₀ d.before.ram d.run d.session) :
    ∃ c, userEnter d.userKernelRsp d.cpu = some c ∧
      FirstUser (BitVec.ofNat 64 code) (BitVec.ofNat 64 (stackTop - 8)) c ∧
      SetUp u s₀ d.run d.session c ∧ userMemory (d.session.seen c) = firstMemory u d.before.ram := by
  have hcode : Canonical (d.cpu.reg .rdi).toNat := by
    rw [d.entry]
    decide
  have hstack : Canonical (d.cpu.reg .rsi).toNat := by
    rw [d.stackPointer]
    decide
  obtain ⟨hrun, hfirst⟩ := userEnter_run d.userKernelRsp (d.sysenterCs.trans hx.sysenterCs) d.cs hcode
    hstack
  rw [d.entry, d.stackPointer] at hfirst
  have hroom : 56 ≤ (d.cpu.reg .rsp).toNat := by
    have hlow := d.kernelStack.inside.1
    omega
  obtain ⟨-, hcs, hesp⟩ := readied_system d.userKernelRsp d.cpu
  have hguarded : ∀ y, Guarded u d.run y →
      (readied d.userKernelRsp d.cpu).ram (pageOffset + y) = d.session.ram y := by
    intro y hy
    have hframe := d.kernelStack.outside himage hx.backs hy
    have hkept := d.kept.outside himage hx.backs hy
    rw [readied_outside hroom (by omega) hkept]
    exact d.ram y hy
  generalize readied d.userKernelRsp d.cpu = w at *
  have hmapped : Mapped u s₀ d.run (d.session.seen (exited w)) :=
    hx.mapped.of_guarded rfl rfl hguarded
  refine ⟨exited w, hrun, hfirst, ⟨hmapped, ?_, ?_⟩, ?_⟩
  · exact hcs.trans (d.sysenterCs.trans hx.sysenterCs)
  · exact hesp.trans (d.sysenterEsp.trans hx.sysenterEsp)
  · exact (userMemory_congr himage hu hx.backs hx.mapped hmapped hguarded).trans
      (hx.loaded.userMemory himage hu hx.backs hx.mapped)

end Demonstration

/-- Two demonstrations of the same payload begin with the same observation, and any call of one that
begins with the observation some call of the other begins with ends with the same observation too. -/
theorem user_noninterference (image : KernelImage) (himage : image.Linked) (u : UserImage)
    (hu : u.Linked image) (hinside : u.Inside image) (d d' : Demonstration image u)
    (hpayload : ∀ i < u.userEnd - u.userStart, d.before.ram (directPhysical u.userStart + i) =
      d'.before.ram (directPhysical u.userStart + i)) :
    ∃ c c', userEnter d.userKernelRsp d.cpu = some c ∧ userEnter d'.userKernelRsp d'.cpu = some c' ∧
      userState d.session c = userState d'.session c' ∧
      ∀ last last' calls calls', UserRun d.profile u d.run d.session c last calls →
        UserRun d'.profile u d'.run d'.session c' last' calls' → ∀ a ∈ calls, ∀ b ∈ calls',
          userState d.session a.1 = userState d'.session b.1 →
          userState d.session a.2 = userState d'.session b.2 := by
  obtain ⟨s₀, hx⟩ := d.exists_launched himage hu hinside
  obtain ⟨s₀', hx'⟩ := d'.exists_launched himage hu hinside
  obtain ⟨c, henter, hfirst, hsetup, hmemory⟩ := d.enters himage hu hx
  obtain ⟨c', henter', hfirst', hsetup', hmemory'⟩ := d'.enters himage hu hx'
  refine ⟨c, c', henter, henter', hfirst.agree hfirst' ?_, ?_⟩
  · rw [hmemory, hmemory', firstMemory_congr hpayload]
  · intro last last' calls calls' hcalls hcalls' a ha b hb heq
    obtain ⟨hs, hcall⟩ := (hcalls.calls himage hu hinside hx hsetup).2 a ha
    obtain ⟨hs', hcall'⟩ := (hcalls'.calls himage hu hinside hx' hsetup').2 b hb
    exact systemCall_agree himage hu hinside hx hx' hs hs' hcall hcall' heq

theorem sampleUser_inside : sampleUser.Inside sampleImage :=
  ⟨sampleUser_payload, by unfold sampleUser pageOffset; decide, by unfold sampleUser sampleImage; decide⟩

/-- The sample session with `stale` in all memory from 2 MiB on. -/
def staleSession (stale : BitVec 8) (t : Kernel) : Session :=
  (sampleSession t).onRam fun m y => if 0x200000 ≤ y then stale else m y

theorem staleSession_below {stale : BitVec 8} {t : Kernel} {y : ℕ} (h : ¬0x200000 ≤ y) :
    (staleSession stale t).ram y = (sampleSession t).ram y := if_neg h

theorem staleSession_above {stale : BitVec 8} {t : Kernel} {y : ℕ} (h : 0x200000 ≤ y) :
    (staleSession stale t).ram y = stale := if_pos h

theorem staleSession_ready (stale : BitVec 8) (t : Kernel) :
    (staleSession stale t).Ready sampleUser t ⟨t.memory, []⟩ := by
  have hsample := sampleSession_ready t
  have hentry : ∀ a i, a + 8 * i + 8 ≤ 0x200000 →
      entryAt (staleSession stale t).ram a i = entryAt (sampleSession t).ram a i := by
    intro a i ha
    apply load64_congr
    intro j hj
    exact staleSession_below (by omega)
  have hplace : directPhysical sampleUser.pdpt = 0x104000 ∧ directPhysical sampleUser.pd = 0x105000 ∧
      directPhysical sampleUser.pt = 0x106000 := by
    unfold directPhysical sampleUser pageOffset
    decide
  obtain ⟨hpdpt, hpd, hpt⟩ := hplace
  refine ⟨hsample.ledger, hsample.cr3, ?_, ?_, ?_, ?_⟩
  · intro y hlow hhigh
    have hbelow : ¬0x200000 ≤ y := by
      unfold pml4Address pageSize at hhigh
      omega
    exact (staleSession_below hbelow).trans (hsample.root y hlow hhigh)
  · intro i hi h0
    rw [hentry _ _ (by omega)]
    exact hsample.pdpt i hi h0
  · intro i hi h4
    rw [hentry _ _ (by omega)]
    exact hsample.pd i hi h4
  · intro i hi h0 h511
    rw [hentry _ _ (by omega)]
    exact hsample.pt i hi h0 h511

/-- The sample image leaves room behind its payload. -/
theorem sample_kernelData {a n : ℕ} (h : 0xffff800000112000 ≤ a ∧ a + n ≤ 0xffff800000200000) :
    KernelData sampleUser sampleImage a n := by
  constructor
  · unfold sampleImage
    dsimp only
    omega
  · simp only [sampleUser, List.forall_mem_cons, pageSize]
    refine ⟨by omega, by omega, by omega, ?_⟩
    intro b hb
    exact absurd hb List.not_mem_nil

/-- The processor at the call of `user_enter`, with `junk` in the other registers. -/
def staleCpu (junk : BitVec 64) (x : Session) : Cpu where
  reg r := match r with
    | .rdi => BitVec.ofNat 64 code
    | .rsi => BitVec.ofNat 64 (stackTop - 8)
    | .rsp => 0xffff800000118000
    | _ => junk
  rip := 0xffff800000112000
  flags := junk
  cs := 8
  ss := 0x10
  ds := junk.setWidth 16
  es := 0x10
  fs := 0
  gs := 0
  sysenterCs := x.msr 0x174
  sysenterEsp := x.msr 0x175
  sysenterEip := x.msr 0x176
  ram a := x.ram (a - pageOffset)

/-- Whether the demonstration reaches `user_enter` on the booted kernel. -/
def launches (stale : BitVec 8) (t : Kernel) : Bool :=
  returns (fun _ _ => true) ((launch .dev sampleCpuid sampleUser).run
    ⟨staleSession stale t, [staleSession stale t]⟩)

theorem exists_staleDemonstration (stale : BitVec 8) (junk : BitVec 64) {t : Kernel}
    (ht : (init .dev sampleImage).run sampleKernel = .ok () t) (hlaunch : launches stale t = true) :
    ∃ d : Demonstration sampleImage sampleUser, d.before = staleSession stale t ∧
      d.cpu = staleCpu junk d.session ∧ d.userKernelRsp = 0xffff800000119000 := by
  cases hrun : (launch .dev sampleCpuid sampleUser).run
      ⟨staleSession stale t, [staleSession stale t]⟩ with
  | error e r =>
    rw [launches, hrun] at hlaunch
    cases hlaunch
  | ok a r =>
    refine ⟨{
      profile := .dev
      cpuid := sampleCpuid
      before := staleSession stale t
      run := a.1
      oldStack := a.2
      session := r.current
      trace := r.trace
      cpu := staleCpu junk r.current
      userKernelRsp := 0xffff800000119000
      booted := ⟨_, sampleKernel, t, [], ⟨t.memory, []⟩, sampleKernel_booted, ht, rfl,
        staleSession_ready stale t⟩
      launched := hrun
      ram := fun y _ => congrArg r.current.ram (Nat.add_sub_cancel_left pageOffset y)
      cs := rfl
      sysenterCs := rfl
      sysenterEsp := rfl
      entry := rfl
      stackPointer := rfl
      kernelStack := sample_kernelData (a := (0xffff800000118000 : BitVec 64).toNat - 56) (by decide)
      kept := sample_kernelData (by decide) }, rfl, rfl, rfl⟩

/-- The registers of a user program about to ask for service 15. -/
def askingReg (reg : Reg → BitVec 64) : Reg → BitVec 64
  | .rax => 15
  | .rdx => 0x800010
  | .rcx => 0x9ffff0
  | r => reg r

def asking (c : Cpu) : Cpu := { c with reg := askingReg c.reg }

theorem userState_asking (x : Session) (c : Cpu) :
    userState x (asking c) = { userState x c with reg := askingReg (userState x c).reg } := rfl

/-- A demonstration of the sample makes a first call. -/
theorem exists_sampleRun (d : Demonstration sampleImage sampleUser) {c : Cpu}
    (hc : userEnter d.userKernelRsp d.cpu = some c) : ∃ t,
      UserRun d.profile sampleUser d.run d.session c t [(asking c, t)] := by
  obtain ⟨s₀, hx⟩ := d.exists_launched sampleImage_linked sampleUser_linked sampleUser_inside
  obtain ⟨c', hc', -, hsetup, -⟩ := d.enters sampleImage_linked sampleUser_linked hx
  obtain rfl : c' = c := Option.some.inj (hc'.symm.trans hc)
  have hphase : UserPhase d.session c' (asking c') := ⟨rfl, rfl, fun _ hne => absurd rfl hne⟩
  have hvalid : ValidReturn sampleUser (userFrame (asking c')) := by
    have hreturn : ValidReturn sampleUser sampleFrame := by decide
    exact hreturn
  obtain ⟨t, ht⟩ := exists_systemCall sampleImage_linked sampleUser_linked sampleUser_inside hx
    (hphase.setUp sampleImage_linked sampleUser_linked hx.backs hsetup) d.profile hvalid
  exact ⟨t, .call c' (asking c') t [] .start hphase ht⟩

/-- Different residues in the allocated page and in the registers, and a call of each run. -/
theorem user_noninterference_sample : ∃ (d d' : Demonstration sampleImage sampleUser) (c c' t t' : Cpu),
    d.before.ram 0x200000 ≠ d'.before.ram 0x200000 ∧ d.cpu.reg .rbx ≠ d'.cpu.reg .rbx ∧
      UserRun d.profile sampleUser d.run d.session c t [(asking c, t)] ∧
      UserRun d'.profile sampleUser d'.run d'.session c' t' [(asking c', t')] ∧
      userState d.session c = userState d'.session c' ∧
      userState d.session t = userState d'.session t' := by
  obtain ⟨t, ht⟩ := sample_init_ok
  have hboth : returns (fun _ t => launches 0x00 t && launches 0x55 t)
      ((init .dev sampleImage).run sampleKernel) = true := by decide +kernel
  rw [ht, returns, Bool.and_eq_true] at hboth
  obtain ⟨d, hd, hjunk, -⟩ := exists_staleDemonstration 0x00 0x1111 ht hboth.1
  obtain ⟨d', hd', hjunk', -⟩ := exists_staleDemonstration 0x55 0x2222 ht hboth.2
  obtain ⟨c, c', hc, hc', hfirst, hcalls⟩ := user_noninterference sampleImage sampleImage_linked
    sampleUser sampleUser_linked sampleUser_inside d d' (by
      intro i hi
      have hbelow : ¬0x200000 ≤ directPhysical sampleUser.userStart + i := by
        unfold sampleUser at hi
        unfold directPhysical sampleUser pageOffset
        dsimp only at hi ⊢
        omega
      rw [hd, hd', staleSession_below hbelow, staleSession_below hbelow])
  obtain ⟨t₁, hrun⟩ := exists_sampleRun d hc
  obtain ⟨t₂, hrun'⟩ := exists_sampleRun d' hc'
  refine ⟨d, d', c, c', t₁, t₂, ?_, ?_, hrun, hrun', hfirst, ?_⟩
  · rw [hd, hd', staleSession_above le_rfl, staleSession_above le_rfl]
    decide
  · rw [hjunk, hjunk']
    change (0x1111 : BitVec 64) ≠ 0x2222
    decide
  · apply hcalls t₁ t₂ _ _ hrun hrun' (asking c, t₁) List.mem_cons_self (asking c', t₂)
      List.mem_cons_self
    rw [userState_asking, userState_asking, hfirst]

end MikoOS.Entry
