import MikoOS.Keyboard
import MikoOS.Library.Process

/-!
# The cascaded 8259As and the code that drives them

A chip latches edges in IRR, masks lines with IMR and keeps the lines in service in ISR. Kernel code
is a process whose actions are the port accesses, the interrupt flag, HLT and the statics shared
with the handler; `irqDispatch` is the handler of the sixteen vectors and `body` the main flow from
`interrupt::init` to the keyboard loop, cut at its loop heads.
-/

namespace MikoOS.Interrupt

open Rust Process

def vectorBase : ℕ := 0x20
def irqCount : ℕ := 16
def masterCommand : ℕ := 0x20
def masterData : ℕ := 0x21
def slaveCommand : ℕ := 0xa0
def slaveData : ℕ := 0xa1

/-- `words` is the number of initialization words still expected; `readsIsr` is the register that
OCW3 has selected for reading. -/
structure Chip where
  irr : BitVec 8
  imr : BitVec 8
  isr : BitVec 8
  base : BitVec 8
  words : ℕ
  readsIsr : Bool

namespace Chip

/-- ICW1 with ICW4 in cascade mode, the register selection of OCW3, or the specific EOI of OCW2;
the kernel issues no other command. -/
def command (value : BitVec 8) (c : Chip) : Chip :=
  if value &&& 0x10 ≠ 0 then
    { irr := 0, imr := 0, isr := 0, base := c.base, words := 3, readsIsr := false }
  else if value &&& 0x08 ≠ 0 then
    if value &&& 0x02 ≠ 0 then { c with readsIsr := value &&& 0x01 ≠ 0 } else c
  else if value &&& 0xe0 = 0x60 then
    { c with isr := c.isr &&& ~~~(1#8 <<< (value &&& 0x07).toNat) }
  else c

/-- ICW2, ICW3 and ICW4 in turn, then the mask. -/
def data (value : BitVec 8) (c : Chip) : Chip :=
  match c.words with
  | 0 => { c with imr := value }
  | 3 => { c with base := value &&& 0xf8, words := 2 }
  | n + 1 => { c with words := n }

def status (c : Chip) : BitVec 8 := if c.readsIsr then c.isr else c.irr

/-- Line `n` is latched, not masked, and no line of the same or a higher priority is in service. -/
def requests (c : Chip) (n : ℕ) : Bool :=
  c.irr.getLsbD n && !c.imr.getLsbD n && (List.range (n + 1)).all fun i => !c.isr.getLsbD i

def highest (c : Chip) : Option ℕ := (List.range 8).find? c.requests

def serve (n : ℕ) (c : Chip) : Chip :=
  { c with irr := c.irr &&& ~~~(1#8 <<< n), isr := c.isr ||| 1#8 <<< n }

end Chip

structure Machine where
  master : Chip
  slave : Chip
  enabled : Bool
  timerIrqs : ℕ
  receiver : Keyboard.Receiver

/-- Where a vector came from: a line the controllers put in service, one of the two vectors given
out when the request has vanished, or an INT instruction. -/
inductive Origin
  | device (line : ℕ)
  | spuriousMaster
  | spuriousSlave
  | software (vector : ℕ)
  deriving DecidableEq, Repr

namespace Machine

def out (port : ℕ) (value : BitVec 8) (m : Machine) : Machine :=
  if port = masterCommand then { m with master := m.master.command value }
  else if port = masterData then { m with master := m.master.data value }
  else if port = slaveCommand then { m with slave := m.slave.command value }
  else if port = slaveData then { m with slave := m.slave.data value }
  else m

/-- The ports of the two chips; every other device answers with an arbitrary byte. -/
def Reads (m : Machine) (port : ℕ) (value : BitVec 8) : Prop :=
  (port = masterCommand → value = m.master.status) ∧ (port = masterData → value = m.master.imr) ∧
    (port = slaveCommand → value = m.slave.status) ∧ (port = slaveData → value = m.slave.imr)

/-- The acknowledge cycle: line 2 of the master passes it on to the slave, and a chip without a
request answers with its last vector. -/
def acknowledge (m : Machine) : Origin × ℕ × Machine :=
  match m.master.highest with
  | none => (.spuriousMaster, m.master.base.toNat + 7, m)
  | some 2 =>
    let m := { m with master := m.master.serve 2 }
    match m.slave.highest with
    | none => (.spuriousSlave, m.slave.base.toNat + 7, m)
    | some n => (.device (8 + n), m.slave.base.toNat + n, { m with slave := m.slave.serve n })
  | some n => (.device n, m.master.base.toNat + n, { m with master := m.master.serve n })

/-- The lines of `service`, numbered from `first`. -/
def lines (first : ℕ) (service : BitVec 8) : List ℕ :=
  ((List.range 8).filter fun n => service.getLsbD n).map (first + ·)

/-- The lines whose in-service bit is set in `m` and clear in `t`. -/
def cleared (m t : Machine) : List ℕ :=
  lines 0 (m.master.isr &&& ~~~t.master.isr) ++ lines 8 (m.slave.isr &&& ~~~t.slave.isr)

end Machine

inductive Op
  | out (port : ℕ) (value : BitVec 8)
  | read (port : ℕ)
  | setInterrupts (enabled : Bool)
  | halt
  | interruptsEnabled
  | loadTimer
  | countTimer
  | receive (x : Exec Keyboard.Receiver Unit)

abbrev Op.Answer : Op → Type
  | .out _ _ => Unit
  | .read _ => BitVec 8
  | .setInterrupts _ => Unit
  | .halt => Unit
  | .interruptsEnabled => Bool
  | .loadTimer => ℕ
  | .countTimer => ℕ
  | .receive _ => Except Panic Unit

abbrev Code := Process Op Op.Answer

def Op.issue (i : Op) : Code i.Answer := Process.issue i

def perform : (i : Op) → Machine → i.Answer → Machine → Prop
  | .out port value, m, _, t => t = m.out port value
  | .read port, m, value, t => m.Reads port value ∧ t = m
  | .setInterrupts enabled, m, _, t => t = { m with enabled := enabled }
  | .halt, m, _, t => t = m
  | .interruptsEnabled, m, enabled, t => enabled = m.enabled ∧ t = m
  | .loadTimer, m, n, t => n = m.timerIrqs ∧ t = m
  | .countTimer, m, n, t => n = m.timerIrqs ∧ t = { m with timerIrqs := (n + 1) % 2 ^ 64 }
  | .receive x, m, r, t =>
    match x.run m.receiver with
    | .ok _ u => r = .ok () ∧ t = { m with receiver := u }
    | .error e u => r = .error e ∧ t = { m with receiver := u }

def out8 (port : ℕ) (value : BitVec 8) : Code Unit := (Op.out port value).issue

def in8 (port : ℕ) : Code (BitVec 8) := (Op.read port).issue

def interruptsEnabled : Code Bool := Op.interruptsEnabled.issue

/-- STI, HLT, CLI. -/
def waitForInterrupt : Code Unit := do
  (Op.setInterrupts true).issue
  Op.halt.issue
  (Op.setInterrupts false).issue

def overflowText : String := "attempt to add with overflow"

def panicText : Panic → String
  | .message text => text
  | .overflow => overflowText
  | .outOfBounds => "index out of bounds"

def receive (x : Exec Keyboard.Receiver Unit) : Code Unit := do
  match ← (Op.receive x).issue with
  | .ok _ => return ()
  | .error e => fail (panicText e)

def addWords (p : Profile) (a b : ℕ) : Code ℕ :=
  if a + b < 2 ^ 64 then return a + b
  else match p with
    | .dev => fail overflowText
    | .release => return (a + b) % 2 ^ 64

def equalAssertion : String := "assertion `left == right` failed"

def maskAll : Code Unit := do
  out8 masterData 0xff
  out8 slaveData 0xff

def writeInitialization (port : ℕ) (value : BitVec 8) : Code Unit := do
  out8 port value
  out8 0x80 0

def picInit : Code Unit := do
  maskAll
  writeInitialization masterCommand 0x11
  writeInitialization slaveCommand 0x11
  writeInitialization masterData 0x20
  writeInitialization slaveData 0x28
  writeInitialization masterData 0x04
  writeInitialization slaveData 0x02
  writeInitialization masterData 0x01
  writeInitialization slaveData 0x01
  maskAll
  require ((← in8 masterData) = 0xff) equalAssertion
  require ((← in8 slaveData) = 0xff) equalAssertion

def unmaskTimer : Code Unit := out8 masterData 0xfe

def unmaskKeyboard : Code Unit := out8 masterData 0xfd

def inService : Code (BitVec 16) := do
  out8 masterCommand 0x0b
  out8 slaveCommand 0x0b
  let master ← in8 masterCommand
  let slave ← in8 slaveCommand
  return master.setWidth 16 ||| slave.setWidth 16 <<< 8

def countAssertion : String := "assertion failed: irq < IRQ_COUNT"

def isSpurious (irq : ℕ) : Code Bool := do
  require (irq < irqCount) countAssertion
  if irq = 7 ∨ irq = 15 then
    let service ← inService
    if service &&& 1#16 <<< irq = 0 then
      if irq = 15 then
        out8 masterCommand (0x60 ||| 2)
        return true
      else return true
    else return false
  else return false

def endOfInterrupt (irq : ℕ) : Code Unit := do
  require (irq < irqCount) countAssertion
  if 8 ≤ irq then
    out8 slaveCommand (0x60 ||| BitVec.ofNat 8 (irq - 8))
    out8 masterCommand (0x60 ||| 2)
  else out8 masterCommand (0x60 ||| BitVec.ofNat 8 irq)

/-- `keyboard::on_interrupt`: the data port is read only when the output buffer is full. -/
def keyboardInterrupt (p : Profile) : Code Unit := do
  let status ← in8 0x64
  if status &&& Keyboard.outputFull = 0 then
    receive (Keyboard.onQueue (Keyboard.onInterrupt p ⟨status, 0⟩))
  else
    let data ← in8 0x60
    receive (Keyboard.onQueue (Keyboard.onInterrupt p ⟨status, data⟩))

/-- The handler of line 0: the second interrupt masks all lines. -/
def timerInterrupt (p : Profile) : Code Unit := do
  let count ← addWords p (← Op.countTimer.issue) 1
  require (count ≤ 2) "assertion failed: count <= 2"
  if count = 2 then maskAll else return ()

def irqDispatch (p : Profile) (vector : ℕ) : Code Unit := do
  require (!(← interruptsEnabled)) "IRQ handler must not nest"
  if vectorBase ≤ vector ∧ vector - vectorBase < irqCount then
    let irq := vector - vectorBase
    if ← isSpurious irq then return ()
    else
      require (irq ≤ 1) "device IRQ has no driver yet"
      require ((← inService) &&& 1#16 <<< irq ≠ 0) "IRQ must come from PIC"
      if irq = 0 then timerInterrupt p else keyboardInterrupt p
      endOfInterrupt irq
      require ((← inService) &&& 1#16 <<< irq = 0) "EOI must clear ISR"
  else fail "invalid PIC vector"

def inputFull : BitVec 8 := 1 <<< 1
def pollBudget : ℕ := 100000

def waitForInputEmpty : ℕ → Code Unit
  | 0 => fail "8042 input buffer timeout"
  | budget + 1 => do
    if (← in8 0x64) &&& inputFull = 0 then return () else waitForInputEmpty budget

def command (value : BitVec 8) : Code Unit := do
  waitForInputEmpty pollBudget
  out8 0x64 value

def writeData (value : BitVec 8) : Code Unit := do
  waitForInputEmpty pollBudget
  out8 0x60 value

def pollReply : ℕ → Code (BitVec 8)
  | 0 => fail "8042 output buffer timeout"
  | budget + 1 => do
    let status ← in8 0x64
    if status &&& Keyboard.outputFull ≠ 0 then
      let byte ← in8 0x60
      require (status &&& (Keyboard.auxiliary ||| Keyboard.badData) = 0) "invalid 8042 reply"
      return byte
    else pollReply budget

def readReply : Code (BitVec 8) := pollReply pollBudget

/-- The attempts of `keyboard_command`. -/
def sendByte (value : BitVec 8) : ℕ → Code Unit
  | 0 => fail "PS/2 keyboard keeps requesting resend"
  | attempts + 1 => do
    writeData value
    let reply ← readReply
    if reply = 0xfa then return ()
    else if reply = 0xfe then sendByte value attempts
    else fail "unexpected PS/2 ACK"

def keyboardCommand (value : BitVec 8) : Code Unit := sendByte value 3

def drainOutput : ℕ → Code Unit
  | 0 => return ()
  | n + 1 => do
    if (← in8 0x64) &&& Keyboard.outputFull = 0 then return ()
    else
      let _ ← in8 0x60
      drainOutput n

def flagAssertion : String := "assertion failed: !arch::interrupts_enabled()"

def keyboardInit : Code Unit := do
  require (!(← interruptsEnabled)) flagAssertion
  command 0xad
  command 0xa7
  drainOutput Keyboard.queueCapacity
  require ((← in8 0x64) &&& Keyboard.outputFull = 0) "8042 stale output did not drain"
  command 0x20
  let configuration ← readReply
  let configuration := (configuration ||| 0x40 ||| 0x20) &&& ~~~(0x01 ||| 0x02 ||| 0x10)
  command 0x60
  writeData configuration
  command 0xae
  keyboardCommand 0xf5
  keyboardCommand 0xf0
  keyboardCommand 0x02
  keyboardCommand 0xf4
  command 0x60
  writeData (configuration ||| 1)
  require (!(← interruptsEnabled)) flagAssertion
  unmaskKeyboard

/-- The places the main flow is cut at: `interrupt::init`, `demonstrate_timer`, its loop,
`keyboard::init`, and the loop of `keyboard::run`. The task and user demos between the timer and
the keyboard run with IF clear and touch neither the controllers nor the handler's statics. -/
inductive Label
  | boot
  | timer
  | timerLoop
  | keyboard
  | keyboardLoop
  deriving DecidableEq, Repr

def Label.AfterTimer : Label → Prop
  | .keyboard | .keyboardLoop => True
  | _ => False

def body (p : Profile) : Label → Code Label
  | .boot => do
    require (!(← interruptsEnabled)) flagAssertion
    picInit
    require ((← inService) = 0) equalAssertion
    return .timer
  | .timer => do
    require (!(← interruptsEnabled)) flagAssertion
    require ((← Op.loadTimer.issue) = 0) equalAssertion
    out8 0x43 0x34
    out8 0x40 (BitVec.ofNat 8 11932)
    out8 0x40 (BitVec.ofNat 8 (11932 / 2 ^ 8))
    unmaskTimer
    return .timerLoop
  | .timerLoop => do
    if (← Op.loadTimer.issue) < 2 then
      waitForInterrupt
      return .timerLoop
    else
      maskAll
      require ((← inService) = 0) equalAssertion
      require (!(← interruptsEnabled)) flagAssertion
      return .keyboard
  | .keyboard => do
    keyboardInit
    return .keyboardLoop
  | .keyboardLoop => do
    receive (Keyboard.consume p)
    waitForInterrupt
    return .keyboardLoop

/-- A running handler; `cleared` collects the in-service bits cleared since the vector was taken. -/
structure Activation where
  origin : Origin
  vector : ℕ
  resumeEnabled : Bool
  cleared : List ℕ
  code : Code Unit

/-- `shadow` is the instruction after STI, `halted` the state HLT leaves until the next vector. -/
structure System where
  machine : Machine
  phase : Label
  main : Code Label
  handler : Option Activation
  shadow : Bool
  halted : Bool

def System.enter (s : System) (origin : Origin) (vector : ℕ) (p : Profile) (m : Machine) : System :=
  { s with
    machine := { m with enabled := false }
    handler := some ⟨origin, vector, s.machine.enabled, [], irqDispatch p vector⟩
    shadow := false
    halted := false }

inductive Step (p : Profile) : System → System → Prop
  /-- Edges are latched and requests vanish at any time. -/
  | request (s : System) (irr irr' : BitVec 8) : Step p s { s with machine := { s.machine with
      master := { s.machine.master with irr := irr }, slave := { s.machine.slave with irr := irr' } } }
  | main (s : System) (i : Op) (next : i.Answer → Code Label) (r : i.Answer) (m : Machine) :
      s.handler = none → s.halted = false → s.main = .act i next → perform i s.machine r m →
      Step p s { s with
        machine := m, main := next r, shadow := i matches .setInterrupts true, halted := i matches .halt }
  | jump (s : System) (l : Label) : s.handler = none → s.halted = false → s.main = .done l →
      Step p s { s with phase := l, main := body p l }
  | accept (s : System) : s.handler = none → s.machine.enabled = true → s.shadow = false →
      Step p s (s.enter s.machine.acknowledge.1 s.machine.acknowledge.2.1 p
        s.machine.acknowledge.2.2)
  /-- A request of the slave that vanishes after the master has passed it on, whatever the masks. -/
  | cascade (s : System) : s.handler = none → s.machine.enabled = true → s.shadow = false →
      Step p s (s.enter .spuriousSlave (s.machine.slave.base.toNat + 7) p
        { s.machine with master := s.machine.master.serve 2 })
  /-- INT 0x27 or INT 0x2f, once the gates and controllers are set up. -/
  | software (s : System) (vector : ℕ) : s.handler = none → s.halted = false → s.phase ≠ .boot →
      vector = 0x27 ∨ vector = 0x2f → Step p s (s.enter (.software vector) vector p s.machine)
  | handle (s : System) (a : Activation) (i : Op) (next : i.Answer → Code Unit) (r : i.Answer)
      (m : Machine) : s.handler = some a → a.code = .act i next → perform i s.machine r m →
      Step p s { s with
        machine := m
        handler := some { a with
          code := next r, cleared := a.cleared ++ s.machine.cleared m } }
  | iret (s : System) (a : Activation) : s.handler = some a → a.code = .done () →
      Step p s { s with machine := { s.machine with enabled := a.resumeEnabled }, handler := none }

/-- The chips are as the firmware left them. -/
structure System.Starting (p : Profile) (s : System) : Prop where
  phase : s.phase = .boot
  main : s.main = body p .boot
  handler : s.handler = none
  enabled : s.machine.enabled = false
  timerIrqs : s.machine.timerIrqs = 0
  halted : s.halted = false

inductive Reachable (p : Profile) : System → Prop
  | start (s : System) : s.Starting p → Reachable p s
  | step (s t : System) : Reachable p s → Step p s t → Reachable p t

end MikoOS.Interrupt
