import MikoOS.TaskSwitch
import MikoOS.AllocatorHistory

/-!
# Kernel threads

The descriptors of `task.rs`, the two halves of `switch_to` around the stack switch, `task_trampoline`
and `create_kernel_thread`. A machine is these data together with the processor, the task whose code
it executes, and for every task the point its code has reached.
-/

namespace MikoOS.Tasks

open ByteMemory Rust X86 Cpu

inductive State
  | ready
  | running
  | zombie
  deriving DecidableEq, Repr

structure Task where
  pid : ℕ
  state : State
  stackBottom : ℕ
  stackTop : ℕ
  pageTable : ℕ
  entry : Option ℕ
  argument : ℕ
  progress : ℕ
  exitCode : Option ℕ
  deriving DecidableEq, Repr

def linkedTask : Task where
  pid := 0
  state := .ready
  stackBottom := 0
  stackTop := 0
  pageTable := 0
  entry := none
  argument := 0
  progress := 0
  exitCode := none

/-- The statics of `task.rs`, RSP0 of the TSS, CR3 and the page allocator. -/
structure Statics (image : KernelImage) where
  tasks : TaskPointer image → Option Task
  current : Option (TaskPointer image)
  nextPid : ℕ
  kernelStack : ℕ
  cr3 : ℕ
  ledger : Ledger

structure KernelThread (image : KernelImage) where
  task : TaskPointer image
  backing : PageRun

variable {image : KernelImage}

def interruptsEnabled (c : Cpu) : Bool := c.flags &&& interruptFlag != 0

def interruptAssertion : String := "assertion failed: !arch::interrupts_enabled()"

def readTask (q : TaskPointer image) : Exec (Statics image) Task := do
  match (← get).tasks q with
  | some d => return d
  | none => throw .outOfBounds

def Statics.put (q : TaskPointer image) (d : Task) (s : Statics image) : Statics image :=
  { s with tasks := Function.update s.tasks q (some d) }

def updateTask (q : TaskPointer image) (f : Task → Task) : Exec (Statics image) Unit := do
  let d ← readTask q
  modify (Statics.put q (f d))

def setKernelStack (c : Cpu) (stackTop : ℕ) : Exec (Statics image) Unit := do
  require (!interruptsEnabled c) "assertion failed: !crate::arch::interrupts_enabled()"
  require (stackTop % 16 = 0) equalAssertion
  modify fun s => { s with kernelStack := stackTop }

/-- A raw pointer that is read through next. -/
def currentTask : Exec (Statics image) (TaskPointer image) := do
  match (← get).current with
  | some task => return task
  | none => throw .outOfBounds

/-- `rsp` is the stack pointer in the function. -/
def assertCurrentStack (rsp : ℕ) : Exec (Statics image) Unit := do
  let task ← expect (← get).current "assertion failed: !task.is_null()"
  let d ← readTask task
  require (d.stackBottom ≤ rsp ∧ rsp < d.stackTop)
    "assertion failed: ((*task).stack_bottom..(*task).stack_top).contains(&rsp)"
  require ((← get).kernelStack = d.stackTop) equalAssertion
  require ((← get).cr3 = d.pageTable) equalAssertion
  require (d.state = .running) equalAssertion

def giveUp (previous : TaskPointer image) : Exec (Statics image) Unit := do
  let q ← readTask previous
  if q.state = .running then
    updateTask previous fun d => { d with state := .ready }
  else
    require (q.state = .zombie) equalAssertion

/-- `switch_to` up to the stack switch; the result is `previous`. -/
def switchOut (c : Cpu) (next : TaskPointer image) : Exec (Statics image) (TaskPointer image) := do
  require (!interruptsEnabled c) interruptAssertion
  let previous ← expect ((← get).current.filter (· ≠ next))
    "assertion failed: !previous.is_null() && !next.is_null() && previous != next"
  let n ← readTask next
  require (n.state = .ready) equalAssertion
  let q ← readTask previous
  require (q.pageTable = n.pageTable) equalAssertion
  giveUp previous
  updateTask next fun d => { d with state := .running }
  setKernelStack c n.stackTop
  modify fun s => { s with current := some next }
  return previous

/-- `switch_to` behind the stack switch. -/
def switchBack (previous : TaskPointer image) (rsp : ℕ) : Exec (Statics image) Unit := do
  require ((← get).current = some previous) equalAssertion
  assertCurrentStack rsp

/-- `task_trampoline` up to the call of the entry function: the task, the function and its argument. -/
def trampolineEntry (c : Cpu) (rsp : ℕ) : Exec (Statics image) (TaskPointer image × ℕ × ℕ) := do
  require (!interruptsEnabled c) interruptAssertion
  assertCurrentStack rsp
  let task ← currentTask
  let d ← readTask task
  let entry ← expect d.entry "kernel thread has no entry"
  return (task, entry, d.argument)

/-- `task_trampoline` behind the call, up to its `switch_to`. -/
def trampolineExit (task : TaskPointer image) (code : ℕ) : Exec (Statics image) Unit := do
  updateTask task fun d => { d with exitCode := some code }
  updateTask task fun d => { d with state := .zombie }

def threadPage (image : KernelImage) (index : ℕ) : Option (ThreadPage image) :=
  if h : image.kernelEnd ≤ pageOffset + index * page2MSize ∧
      pageOffset + (index + 1) * page2MSize ≤ 2 ^ 64 then
    some ⟨index, h.1, h.2⟩
  else none

def onLedger {α : Type} (x : Exec Ledger α) : Exec (Statics image) α :=
  zoom Statics.ledger (fun ledger s => { s with ledger := ledger }) x

/-- The stores to the `Context` and to the stack are those of `createFrame`. -/
def createKernelThread (p : Profile) (entry argument : ℕ) :
    Exec (Statics image) (KernelThread image) := do
  let answer ← onLedger (allocatePages p .mapped 1)
  let backing ← expect answer.toOption "no mapped page for kernel thread"
  match threadPage image backing.first with
  | none => throw .outOfBounds
  | some page =>
    let task := TaskPointer.thread page
    let pid := (← get).nextPid
    let next ← expect (checkedAdd pid 1) "PID overflow"
    modify fun s => { s with nextPid := next }
    let cr3 := (← get).cr3
    modify (Statics.put task {
      pid := pid
      state := .ready
      stackBottom := page.base + descriptorArea + 8
      stackTop := page.base + taskRegionSize
      pageTable := cr3
      entry := some entry
      argument := argument
      progress := 0
      exitCode := none })
    return ⟨task, backing⟩

/-- The beginning of `demonstrate`. -/
def enterBootTask (b : BootObjects image) (c : Cpu) (rsp : ℕ) : Exec (Statics image) Unit := do
  require (!interruptsEnabled c) interruptAssertion
  require ((← get).current.isNone) "assertion failed: CURRENT.is_null()"
  updateTask .boot fun d => { d with stackBottom := b.bootStack }
  updateTask .boot fun d => { d with stackTop := b.bootStackTop }
  let cr3 := (← get).cr3
  updateTask .boot fun d => { d with pageTable := cr3 }
  updateTask .boot fun d => { d with state := .running }
  modify fun s => { s with current := some .boot }
  setKernelStack c b.bootStackTop
  assertCurrentStack rsp

def setProgress (progress : ℕ) : Exec (Statics image) Unit := do
  let task ← currentTask
  updateTask task fun d => { d with progress := progress }

/-- How far the code of a task has come. `task` and `previous` are the local variables of
`task_trampoline` and of `switch_to`. -/
inductive Stage (image : KernelImage)
  | unstarted
  | code (task : TaskPointer image)
  | switching (task previous : TaskPointer image)
  | leaving (task : TaskPointer image)
  | left (previous : TaskPointer image)

/-- `resuming` holds from a stack switch to the end of the checks that follow it. -/
structure Machine (image : KernelImage) where
  statics : Statics image
  cpu : Cpu
  executing : TaskPointer image
  resuming : Bool
  stage : TaskPointer image → Stage image
  history : List (Event (TaskPointer image))
  threads : List (KernelThread image)
  calls : List (TaskPointer image × ℕ × ℕ)

namespace Machine

def continueAt (s : Statics image) (stage : Stage image) (calls : List (TaskPointer image × ℕ × ℕ))
    (x : Machine image) : Machine image :=
  { x with
    statics := s
    resuming := false
    stage := Function.update x.stage x.executing stage
    calls := calls }

/-- The stack switch in a call of `switch_to` that suspends the running code at `stage`. -/
def switchStack (s : Statics image) (next : TaskPointer image) (returnTo : BitVec 64) (stage : Stage image)
    (x : Machine image) : Machine image :=
  let cpu := taskContextSwitch (x.cpu.push returnTo)
  { x with
    statics := s
    cpu := cpu
    executing := next
    resuming := true
    stage := Function.update x.stage x.executing stage
    history := .switch x.executing next x.cpu returnTo cpu :: x.history }

def rspBelow (depth : ℕ) (x : Machine image) : ℕ := (x.cpu.reg .rsp).toNat - depth

/-- The processor at the call of `task_context_switch`, on the stack of the running task. -/
structure AtSwitch (a : Layout (TaskPointer image)) (x : Machine image) (previous next : TaskPointer image) :
    Prop where
  rdi : (x.cpu.reg .rdi).toNat = a.context previous
  rsi : (x.cpu.reg .rsi).toNat = a.context next
  bottom_le : a.bottom x.executing + 56 ≤ (x.cpu.reg .rsp).toNat
  lt_top : (x.cpu.reg .rsp).toNat < a.top x.executing

def boot (s : Statics image) (c : Cpu) : Machine image where
  statics := s
  cpu := c
  executing := .boot
  resuming := false
  stage := Function.update (fun _ => .unstarted) .boot (.code .boot)
  history := []
  threads := []
  calls := []

end Machine

def linkedStatics (image : KernelImage) (kernelStack cr3 : ℕ) (ledger : Ledger) : Statics image where
  tasks := Function.update (fun _ => none) .boot (some linkedTask)
  current := none
  nextPid := 1
  kernelStack := kernelStack
  cr3 := cr3
  ledger := ledger

/-- One step of the running code. Between its calls into this file it is arbitrary, but for the frames of
suspended tasks and the pages of the threads; the checks behind a stack switch run anywhere on its stack. -/
inductive Step (p : Profile) (l : Links) (a : Layout (TaskPointer image)) : Machine image → Machine image → Prop
  | work (x : Machine image) (cpu : Cpu) : x.resuming = false → Leaves l a x.history x.executing x.cpu cpu →
      Step p l a x { x with cpu := cpu, history := .work :: x.history }
  | progress (x : Machine image) (progress : ℕ) (s : Statics image) : x.resuming = false →
      (setProgress progress).run x.statics = .ok () s → Step p l a x { x with statics := s }
  | pages (x : Machine image) (ops : List Operation) (ledger : Ledger) : x.resuming = false →
      (history p ops).run x.statics.ledger = .ok () ledger →
      (∀ thread ∈ x.threads, ⟨.mapped, thread.backing⟩ ∈ ledger.outstanding) →
      Step p l a x { x with statics := { x.statics with ledger := ledger } }
  | create (x : Machine image) (task : TaskPointer image) (entry argument : ℕ) (thread : KernelThread image)
      (s : Statics image) : x.resuming = false → x.stage x.executing = .code task →
      (createKernelThread p entry argument).run x.statics = .ok thread s →
      Step p l a x
        { x with
          statics := s
          cpu := { x.cpu with
            ram := createFrame l (a.context thread.task) (a.top thread.task) x.cpu.ram }
          history := .create thread.task :: x.history
          threads := thread :: x.threads }
  | switch (x : Machine image) (task previous next : TaskPointer image) (returnTo : BitVec 64)
      (s : Statics image) : x.resuming = false → x.stage x.executing = .code task →
      (switchOut x.cpu next).run x.statics = .ok previous s → x.AtSwitch a previous next →
      Step p l a x (x.switchStack s next returnTo (.switching task previous))
  | exit (x : Machine image) (task : TaskPointer image) (code : ℕ) (s : Statics image) : x.resuming = false →
      x.stage x.executing = .code task → x.executing ≠ .boot →
      (trampolineExit task code).run x.statics = .ok () s →
      Step p l a x (x.continueAt s (.leaving task) x.calls)
  | leave (x : Machine image) (task previous : TaskPointer image) (returnTo : BitVec 64) (s : Statics image) :
      x.resuming = false → x.stage x.executing = .leaving task →
      (switchOut x.cpu .boot).run x.statics = .ok previous s → x.AtSwitch a previous .boot →
      Step p l a x (x.switchStack s .boot returnTo (.left previous))
  | resume (x : Machine image) (task previous : TaskPointer image) (depth : ℕ) (s : Statics image) :
      x.resuming = true → x.stage x.executing = .switching task previous →
      a.bottom x.executing + depth ≤ (x.cpu.reg .rsp).toNat →
      (switchBack previous (x.rspBelow depth)).run x.statics = .ok () s →
      Step p l a x (x.continueAt s (.code task) x.calls)
  | start (x : Machine image) (depth : ℕ) (call : TaskPointer image × ℕ × ℕ) (s : Statics image) :
      x.resuming = true → x.stage x.executing = .unstarted →
      a.bottom x.executing + depth ≤ (x.cpu.reg .rsp).toNat →
      (trampolineEntry x.cpu (x.rspBelow depth)).run x.statics = .ok call s →
      Step p l a x (x.continueAt s (.code call.1) ((x.executing, call.2) :: x.calls))

end MikoOS.Tasks
