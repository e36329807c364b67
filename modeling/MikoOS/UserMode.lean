import MikoOS.AllocatorHistory
import MikoOS.Library.Trace

/-!
# The user demonstration

`usermode.rs`: two 4 KiB pages of one mapped run become the code and the stack of a program at
CPL 3, behind three static tables hung into entry 0 of the root; afterwards the root entry is
cleared and the run released. The user program is any sequence of byte stores and any frame at the
completion gate, and what the kernel writes while it serves the program stays on RETURN_STACK.
Console output, the other kernel stacks, the accessed and dirty bits and the TLB are left out.
-/

namespace MikoOS.UserMode

open ByteMemory PageWalk Rust

def code : ℕ := 0x800000
def stack : ℕ := 0x9ff000
def stackTop : ℕ := 0xa00000
def pageSize : ℕ := 4096
def presentFlag : BitVec 64 := 1#64
def writeFlag : BitVec 64 := 1#64 <<< 1
def userFlag : BitVec 64 := 1#64 <<< 2
def nx : BitVec 64 := 1#64 <<< 63
def branch : BitVec 64 := presentFlag ||| writeFlag ||| userFlag
def canary : BitVec 64 := 0x4d494b4f55534552#64
def input : BitVec 64 := 0x1020304050607080#64
def result : BitVec 64 := (input + 17#64).rotateLeft 7
def returnStackSize : ℕ := 32768

/-- The statics of `usermode.rs`, the linker symbols around the payload and the two assembly
entries, at their high-half addresses. -/
structure UserImage where
  pdpt : ℕ
  pd : ℕ
  pt : ℕ
  returnStack : ℕ
  userStart : ℕ
  userEnd : ℕ
  userDemo : ℕ
  userReturnEntry : ℕ
  systemCallEntry : ℕ

/-- The machine as far as the demonstration reads and writes it. `kernelStack` is RSP0 of the TSS
and `returnGate` the handler of vector 0x80. -/
structure Session where
  ledger : Ledger
  ram : Memory
  cr3 : BitVec 64
  cr0 : BitVec 64
  msr : ℕ → BitVec 64
  interruptsEnabled : Bool
  kernelStack : ℕ
  returnGate : Option ℕ
  active : Bool

def Session.onRam (s : Session) (f : Memory → Memory) : Session := { s with ram := f s.ram }

@[simp] theorem Session.onRam_ledger (s : Session) (f : Memory → Memory) :
    (s.onRam f).ledger = s.ledger := rfl

@[simp] theorem Session.onRam_cr3 (s : Session) (f : Memory → Memory) : (s.onRam f).cr3 = s.cr3 := rfl

@[simp] theorem Session.onRam_ram (s : Session) (f : Memory → Memory) : (s.onRam f).ram = f s.ram := rfl

abbrev Demo := Recorded Session

def onLedger {α : Type} (x : Exec Ledger α) : Exec Session α :=
  zoom Session.ledger (fun ledger s => { s with ledger := ledger }) x

/-- A volatile read of the quadword at a high-half address. -/
def readQuad (a : ℕ) : Exec Demo (BitVec 64) := do
  return load64 (← get).current.ram (directPhysical a)

def writeQuad (a : ℕ) (v : BitVec 64) : Exec Demo Unit :=
  record (modify fun s => s.onRam fun m => store64 m (directPhysical a) v)

def root (p : Profile) : Exec Demo ℕ := do
  p.add pageOffset (frame (← get).current.cr3)

def interruptAssertion : String := "assertion failed: !arch::interrupts_enabled()"

/-- What CPUID answers: EBX, EDX and ECX of leaf 0, EDX of leaf 1, EAX of leaf 0x80000000 and EDX
of leaf 0x80000001. -/
structure Cpuid where
  vendor : BitVec 32 × BitVec 32 × BitVec 32
  features : BitVec 32
  extendedLeaves : BitVec 32
  extendedFeatures : BitVec 32

def eferMsr : ℕ := 0xc0000080

/-- The processor must be an Intel one with SEP and NX; then EFER.NXE and CR0.WP are set. -/
def prepareCpu (cpu : Cpuid) : Exec Session Unit := do
  require (cpu.vendor = (0x756e6547#32, 0x49656e69#32, 0x6c65746e#32))
    (equalAssertion ++ ": SYSEXIT64 demo requires GenuineIntel")
  require (cpu.features &&& 1#32 <<< 11 ≠ 0) (unequalAssertion ++ ": missing SEP")
  require (0x80000001#32 ≤ cpu.extendedLeaves)
    "assertion failed: core::arch::x86_64::__cpuid(0x8000_0000).eax >= 0x8000_0001"
  require (cpu.extendedFeatures &&& 1#32 <<< 20 ≠ 0) (unequalAssertion ++ ": missing NX")
  modify fun s =>
    { s with msr := Function.update s.msr eferMsr (s.msr eferMsr ||| 1#64 <<< 11) }
  modify fun s => { s with cr0 := s.cr0 ||| 1#64 <<< 16 }

def setKernelStack (stackTop : ℕ) : Exec Session Unit := do
  require (!(← get).interruptsEnabled) interruptAssertion
  require (stackTop % 16 = 0) equalAssertion
  modify fun s => { s with kernelStack := stackTop }

def writeMsr (index : ℕ) (value : BitVec 64) : Exec Session Unit := do
  modify fun s => { s with msr := Function.update s.msr index value }
  require ((← get).msr index = value) equalAssertion

/-- `syscall::enable`. -/
def enable (u : UserImage) (stackTop : ℕ) : Exec Session Unit := do
  require (!(← get).interruptsEnabled) interruptAssertion
  require (stackTop % 16 = 0) equalAssertion
  writeMsr 0x175 (BitVec.ofNat 64 stackTop)
  writeMsr 0x176 (BitVec.ofNat 64 u.systemCallEntry)
  writeMsr 0x174 8

/-- `syscall::disable`. -/
def disable : Exec Session Unit := do
  writeMsr 0x174 0
  writeMsr 0x175 0
  writeMsr 0x176 0

/-- `trap::InterruptFrame`; register `k` is r15..r8, rsi, rdi, rbp, rdx, rcx, rbx, rax. -/
structure InterruptFrame where
  registers : ℕ → BitVec 64
  vector : BitVec 64
  error : BitVec 64
  rip : BitVec 64
  cs : BitVec 64
  rflags : BitVec 64
  rsp : BitVec 64
  ss : BitVec 64

/-- `store` is a byte store at CPL 3; `serve` is a byte the kernel stores on RETURN_STACK. -/
inductive UserEvent
  | store (address : ℕ) (value : BitVec 8)
  | serve (offset : ℕ) (value : BitVec 8)

/-- What a user program does, the frame it leaves at the completion gate and the kernel RSP there. -/
structure UserProgram where
  events : List UserEvent
  frame : InterruptFrame
  rsp : ℕ

def pageFault : String := "#PF"
def generalProtection : String := "#GP"

def userTranslation (s : Session) (v : ℕ) : Option Translation :=
  (walk s.ram (frame s.cr3) v).filter fun t => t.rights.user

def userEvent (u : UserImage) : UserEvent → Exec Session Unit
  | .store v value => do
    require (Canonical v) generalProtection
    match userTranslation (← get) v with
    | none => raise pageFault
    | some t =>
      require t.rights.writable pageFault
      modify fun s => s.onRam fun m => store8 m t.physical value
  | .serve offset value =>
    if offset < returnStackSize then
      modify fun s => s.onRam fun m => store8 m (directPhysical u.returnStack + offset) value
    else pure ()

def userEvents (u : UserImage) : List UserEvent → Exec Demo Unit
  | [] => return ()
  | event :: events => do
    record (userEvent u event)
    userEvents u events

def assertUserFrame (f : InterruptFrame) : Exec Demo Unit := do
  require (f.cs = 0x2b ∧ f.ss = 0x33) equalAssertion
  require (f.rflags &&& (3#64 <<< 12 ||| 1#64 <<< 9 ||| 1#64 <<< 10) = 0) equalAssertion
  require (stack ≤ f.rsp.toNat ∧ f.rsp.toNat < stackTop)
    "assertion failed: (STACK..STACK_TOP).contains(&frame.rsp)"

/-- `user_return_dispatch`: the completion gate checks the frame and returns RAX. -/
def userReturnDispatch (u : UserImage) (f : InterruptFrame) (rsp : ℕ) : Exec Demo (BitVec 64) := do
  require (← get).current.active "assertion failed: ptr::addr_of!(ACTIVE).read()"
  assertUserFrame f
  require (f.vector = 0x80) equalAssertion
  require (f.error = 0) equalAssertion
  require (code ≤ f.rip.toNat ∧ f.rip.toNat < code + pageSize)
    "assertion failed: (CODE..CODE + PAGE as u64).contains(&frame.rip)"
  let top := u.returnStack + returnStackSize
  require (u.returnStack + 8 ≤ rsp ∧ rsp < top) "assertion failed: (bottom + 8..top).contains(&rsp)"
  require ((← get).current.kernelStack = top) equalAssertion
  require (f.registers 9 = 0x2b ∧ f.registers 8 = 0x33) equalAssertion
  require (f.registers 14 = result) equalAssertion
  require (f.registers 11 = 0) (equalAssertion ++ ": user syscall checks failed")
  return f.registers 14

/-- `user_enter`: the program runs at CPL 3 until the completion gate. -/
def userEnter (u : UserImage) (program : UserProgram) : Exec Demo (BitVec 64) := do
  userEvents u program.events
  userReturnDispatch u program.frame program.rsp

/-- Whether `length` bytes from `address` lie in one of the two pages. -/
def readable (address length : BitVec 64) : Bool :=
  match checkedAdd address.toNat length.toNat with
  | none => false
  | some stop => (code ≤ address.toNat && stop ≤ code + pageSize) ||
      (stack ≤ address.toNat && stop ≤ stackTop)

def installMapping (p : Profile) (u : UserImage) (physical : ℕ) : Exec Demo Unit := do
  let root ← root p
  require ((← readQuad root) = 0) equalAssertion
  require ((← readQuad (root + 8 * 256)) &&& userFlag = 0) equalAssertion
  writeQuad u.pdpt (BitVec.ofNat 64 (← p.sub u.pd pageOffset) ||| branch)
  writeQuad (u.pd + 8 * 4) (BitVec.ofNat 64 (← p.sub u.pt pageOffset) ||| branch)
  writeQuad u.pt (BitVec.ofNat 64 physical ||| presentFlag ||| userFlag)
  writeQuad (u.pt + 8 * 511)
    (BitVec.ofNat 64 (← p.add physical pageSize) ||| presentFlag ||| writeFlag ||| userFlag ||| nx)
  require ((← readQuad (u.pt + 8 * 510)) = 0) equalAssertion
  require ((← readQuad (u.pt + 8 * 1)) = 0) equalAssertion
  writeQuad root (BitVec.ofNat 64 (← p.sub u.pdpt pageOffset) ||| branch)

/-- The beginning of `demonstrate`: a run whose first two small pages hold the payload and zeros. -/
def backProgram (p : Profile) (cpu : Cpuid) (u : UserImage) : Exec Demo PageRun := do
  require (!(← get).current.interruptsEnabled) interruptAssertion
  require (!(← get).current.active) "assertion failed: !ptr::addr_of!(ACTIVE).read()"
  record (prepareCpu cpu)
  let answer ← record (onLedger (allocatePages p .mapped 1))
  let run ← expect answer.toOption "no mapped page for user demo"
  let backing ← p.add pageOffset run.physicalAddress
  record (modify fun s => s.onRam fun m => fill m (directPhysical backing) (pageSize * 2) 0)
  let size ← p.sub u.userEnd u.userStart
  require (1 ≤ size ∧ size ≤ pageSize) "assertion failed: (1..=PAGE).contains(&size)"
  require (u.userDemo = u.userStart) equalAssertion
  record (modify fun s => s.onRam fun m =>
    copy m (directPhysical backing) (directPhysical u.userStart) size)
  return run

/-- From the installed mapping to the last step before it is removed. -/
def runProgram (u : UserImage) (program : UserProgram) : Exec Demo Unit := do
  let oldStack := (← get).current.kernelStack
  writeQuad u.returnStack canary
  let top := u.returnStack + returnStackSize
  record (setKernelStack top)
  record (enable u top)
  record (modify fun s => { s with returnGate := some u.userReturnEntry })
  record (modify fun s => { s with active := true })
  let answer ← userEnter u program
  require (answer = result) equalAssertion
  require (!(← get).current.interruptsEnabled) interruptAssertion
  require ((← readQuad u.returnStack) = canary) equalAssertion
  record (modify fun s => { s with active := false })
  record disable
  record (modify fun s => { s with returnGate := none })
  record (setKernelStack oldStack)

/-- The end of `demonstrate`: the root entry is cleared before the run is released. -/
def removeMapping (p : Profile) (run : PageRun) : Exec Demo Unit := do
  let root ← root p
  writeQuad root 0
  require ((← readQuad root) = 0) equalAssertion
  record (onLedger (freePages p run))

def demonstrate (p : Profile) (cpu : Cpuid) (u : UserImage) (program : UserProgram) :
    Exec Demo Unit := do
  let run ← backProgram p cpu u
  installMapping p u run.physicalAddress
  runProgram u program
  removeMapping p run

end MikoOS.UserMode
