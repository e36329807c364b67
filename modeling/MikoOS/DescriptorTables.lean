import MikoOS.Library.Gates
import MikoOS.Library.RustExec

/-!
# The descriptor tables of the kernel

`gate.rs` and `trap.rs`: the task state with its stacks, its descriptor in slots 8 and 9 of the global
table, and 256 gates. `TableSpec` says what the tables are for, a gate for every vector and the stack
for entries from CPL 3; memory holds it after the start-up and after every later update. The entry
points of the assembly code and the addresses of the statics are parameters.
-/

namespace MikoOS.Trap

open ByteMemory Rust X86

/-- The linked addresses; the two tables of entry points lie in read-only data. -/
structure TableImage where
  idt : ℕ
  tss : ℕ
  gdt : ℕ
  exceptionStack : ℕ
  doubleFaultStack : ℕ
  irqStack : ℕ
  bootStackTop : BitVec 64
  exceptionEntries : ℕ → BitVec 64
  irqEntries : ℕ → BitVec 64
  exception255 : BitVec 64

/-- Memory, the registers that point into it and IF. -/
structure Descriptors where
  ram : Memory
  registers : TableRegisters
  enabled : Bool

structure Gate where
  offsetLow : BitVec 16
  selector : BitVec 16
  ist : BitVec 8
  attributes : BitVec 8
  offsetMiddle : BitVec 16
  offsetHigh : BitVec 32
  reserved : BitVec 32

def Gate.new (address : BitVec 64) (attributes ist : BitVec 8) : Gate where
  offsetLow := address.setWidth 16
  selector := 8
  ist := ist &&& 7
  attributes := attributes
  offsetMiddle := (address >>> 16).setWidth 16
  offsetHigh := (address >>> 32).setWidth 32
  reserved := 0

/-- `repr(C, packed)`, at `a`. -/
def Gate.write (g : Gate) (a : ℕ) (ram : Memory) : Memory :=
  let ram := store16 ram a g.offsetLow
  let ram := store16 ram (a + 2) g.selector
  let ram := store8 ram (a + 4) g.ist
  let ram := store8 ram (a + 5) g.attributes
  let ram := store16 ram (a + 6) g.offsetMiddle
  let ram := store32 ram (a + 8) g.offsetHigh
  store32 ram (a + 12) g.reserved

def TableImage.exceptionTop (d : TableImage) : BitVec 64 := BitVec.ofNat 64 (d.exceptionStack + 32768)
def TableImage.doubleTop (d : TableImage) : BitVec 64 := BitVec.ofNat 64 (d.doubleFaultStack + 16384)
def TableImage.irqTop (d : TableImage) : BitVec 64 := BitVec.ofNat 64 (d.irqStack + 32768)

/-- The writes of `gate::init` to the task state. -/
def writeTaskState (d : TableImage) (ram : Memory) : Memory :=
  let ram := [4, 12, 20, 36, 52, 60, 68, 76, 84].foldl
    (fun ram offset => store64 ram (d.tss + offset) d.exceptionTop) ram
  let ram := store64 ram (d.tss + 4) d.bootStackTop
  let ram := store64 ram (d.tss + 44) d.doubleTop
  let ram := store64 ram (d.tss + 52) d.irqTop
  store16 ram (d.tss + 102) 104

/-- The lower half of the descriptor of a task state at `base`. -/
def taskLow (base : BitVec 64) : BitVec 64 :=
  103#64 ||| (base &&& 0xffffff#64) <<< 16 ||| 0x89#64 <<< 40 ||| (base >>> 24 &&& 0xff#64) <<< 56

def writeTaskDescriptor (d : TableImage) (ram : Memory) : Memory :=
  let base := BitVec.ofNat 64 d.tss
  let ram := store64 ram (d.gdt + 8 * 8) (taskLow base)
  store64 ram (d.gdt + 8 * 9) (base >>> 32)

def generalProtection : String := "#GP"

/-- `gate::init`. -/
def initTask (d : TableImage) : Exec Descriptors Unit := do
  modify fun s => { s with ram := writeTaskDescriptor d (writeTaskState d s.ram) }
  match loadTask d.gdt 0x40 (← get).ram with
  | none => raise generalProtection
  | some (segment, ram) =>
    modify fun s => { s with ram, registers := { s.registers with tss := segment.base.toNat } }

def setKernelStack (d : TableImage) (stackTop : BitVec 64) : Exec Descriptors Unit := do
  require (!(← get).enabled) "assertion failed: !crate::arch::interrupts_enabled()"
  require (stackTop.toNat % 16 == 0) "assertion `left == right` failed"
  modify fun s => { s with ram := store64 s.ram (d.tss + 4) stackTop }

def kernelStack (d : TableImage) (s : Descriptors) : BitVec 64 := load64 s.ram (d.tss + 4)

def writeGate (d : TableImage) (vector : ℕ) (g : Gate) : Exec Descriptors Unit :=
  modify fun s => { s with ram := g.write (d.idt + 16 * vector) s.ram }

/-- The gate of `trap::init`. -/
def initialGate (d : TableImage) (vector : ℕ) : Gate :=
  let entry := if vector < 32 then d.exceptionEntries vector else d.exception255
  let attributes := if 3 ≤ vector ∧ vector ≤ 5 then 0xef else if vector = 2 then 0x8e else 0x8f
  Gate.new entry attributes (if vector = 8 then 2 else 1)

/-- `trap::init`. -/
def initGates (d : TableImage) : Exec Descriptors Unit := do
  forRange 0 256 () fun vector _ => writeGate d vector (initialGate d vector)
  modify fun s => { s with registers := { s.registers with idt := d.idt, limit := 16 * 256 - 1 } }

def installIrq (d : TableImage) (vector : ℕ) (handler : BitVec 64) : Exec Descriptors Unit := do
  require (32 ≤ vector && vector < 48) "assertion failed: (32..48).contains(&vector)"
  writeGate d vector (Gate.new handler 0x8e 3)

def setUserReturnGate (d : TableImage) (handler : Option (BitVec 64)) : Exec Descriptors Unit :=
  writeGate d 0x80 (match handler with
    | some address => Gate.new address 0xee 0
    | none => Gate.new d.exception255 0x8f 1)

/-- What `interrupt::init` does before it programs the controllers. -/
def installIrqs (d : TableImage) : Exec Descriptors Unit := do
  require (!(← get).enabled) "assertion failed: !arch::interrupts_enabled()"
  forRange 0 16 () fun irq _ => installIrq d (32 + irq) (d.irqEntries irq)

/-- A gate for every vector and the stack for entries from CPL 3. -/
structure TableSpec where
  gates : ℕ → GateView
  rsp0 : BitVec 64

/-- The view of a ring 0 code segment gate. -/
def gateTo (handler : BitVec 64) (ist : BitVec 3) (dpl : BitVec 2) (trap : Bool) : GateView :=
  ⟨handler, 8, ist, dpl, trap⟩

def trapGate (d : TableImage) (vector : ℕ) : GateView :=
  if 32 ≤ vector then gateTo d.exception255 1 0 true
  else if vector = 2 then gateTo (d.exceptionEntries 2) 1 0 false
  else if vector = 8 then gateTo (d.exceptionEntries 8) 2 0 true
  else gateTo (d.exceptionEntries vector) 1 (if 3 ≤ vector ∧ vector ≤ 5 then 3 else 0) true

/-- The gates with those of the first `n` interrupt requests. -/
def TableSpec.withIrqs (d : TableImage) (n : ℕ) : TableSpec where
  gates vector :=
    if 32 ≤ vector ∧ vector < 32 + n then gateTo (d.irqEntries (vector - 32)) 3 0 false
    else trapGate d vector
  rsp0 := d.bootStackTop

def TableSpec.initial (d : TableImage) : TableSpec := .withIrqs d 16

def TableSpec.setGate (vector : ℕ) (g : GateView) (spec : TableSpec) : TableSpec :=
  { spec with gates := Function.update spec.gates vector g }

@[simp] theorem TableSpec.setGate_self (vector : ℕ) (g : GateView) (spec : TableSpec) :
    (spec.setGate vector g).gates vector = g := Function.update_self ..

theorem TableSpec.setGate_of_ne {vector v : ℕ} (h : v ≠ vector) (g : GateView) (spec : TableSpec) :
    (spec.setGate vector g).gates v = spec.gates v := Function.update_of_ne h ..

/-- The updates behind the start-up. -/
inductive TableCall
  | installIrq (vector : ℕ) (handler : BitVec 64)
  | setUserReturnGate (handler : Option (BitVec 64))
  | setKernelStack (stackTop : BitVec 64)

namespace TableCall

def perform (d : TableImage) : TableCall → Exec Descriptors Unit
  | installIrq vector handler => Trap.installIrq d vector handler
  | setUserReturnGate handler => Trap.setUserReturnGate d handler
  | setKernelStack stackTop => Trap.setKernelStack d stackTop

def applyTo (d : TableImage) (spec : TableSpec) : TableCall → TableSpec
  | installIrq vector handler => spec.setGate vector (gateTo handler 3 0 false)
  | setUserReturnGate (some handler) => spec.setGate 0x80 (gateTo handler 0 3 false)
  | setUserReturnGate none => spec.setGate 0x80 (gateTo d.exception255 1 0 true)
  | setKernelStack stackTop => { spec with rsp0 := stackTop }

def Allowed (enabled : Bool) : TableCall → Prop
  | installIrq vector _ => 32 ≤ vector ∧ vector < 48
  | setUserReturnGate _ => True
  | setKernelStack stackTop => enabled = false ∧ stackTop.toNat % 16 = 0

end TableCall

def TableSpec.after (d : TableImage) (calls : List TableCall) : TableSpec :=
  calls.foldl (TableCall.applyTo d) (.initial d)

/-- The start-up and then the updates, as in `Start_Kernel`. -/
def tableRun (d : TableImage) (calls : List TableCall) : Exec Descriptors Unit := do
  initTask d
  initGates d
  installIrqs d
  calls.forM (TableCall.perform d)

variable {d : TableImage} {m ram : Memory} {a b x : ℕ}

theorem Gate.write_outside (g : Gate) (h : x < a ∨ a + 16 ≤ x) : g.write a m x = m x := by
  simp (disch := omega) only [Gate.write, store16, store8, store32, store_outside]

theorem readGate_write_other (g : Gate) (h : b + 16 ≤ a ∨ a + 16 ≤ b) :
    readGate (g.write a m) b = readGate m b :=
  readGate_congr fun i hi => g.write_outside (by omega)

/-- The processor finds in a gate what `Gate::new` was given. -/
theorem readGate_new (address : BitVec 64) {attributes : BitVec 8} (ist : BitVec 8)
    (h : attributes &&& 0x9e#8 = 0x8e#8) :
    readGate ((Gate.new address attributes ist).write a m) a =
      some ⟨address, 8, (ist &&& 7).setWidth 3, attributes.extractLsb' 5 2, attributes.getLsbD 0⟩ := by
  obtain ⟨ram, hram⟩ : ∃ ram, (Gate.new address attributes ist).write a m = ram := ⟨_, rfl⟩
  have hattributes : ram (a + 5) = attributes := by
    rw [← hram]
    simp (disch := omega) only [Gate.write, Gate.new, store16, store32, store_outside]
    rw [store8_self]
  have hist : ram (a + 4) = ist &&& 7 := by
    rw [← hram]
    simp (disch := omega) only [Gate.write, Gate.new, store16, store32, store_outside, store8_outside]
    rw [store8_self]
  have hlow : load16 ram a = address.setWidth 16 := by
    rw [← hram, ← load16_store16 m a (address.setWidth 16)]
    simp (disch := omega) only [Gate.write, Gate.new, load16, store16, store8, store32, load_store_outside]
  have hselector : load16 ram (a + 2) = 8 := by
    rw [← hram, ← load16_store16 m (a + 2) 8]
    simp (disch := omega) only [Gate.write, Gate.new, load16, store16, store8, store32,
      load_store_outside, load_store_same]
  have hmiddle : load16 ram (a + 6) = (address >>> 16).setWidth 16 := by
    rw [← hram, ← load16_store16 m (a + 6) ((address >>> 16).setWidth 16)]
    simp (disch := omega) only [Gate.write, Gate.new, load16, store16, store8, store32,
      load_store_outside, load_store_same]
  have hhigh : load32 ram (a + 8) = (address >>> 32).setWidth 32 := by
    rw [← hram, ← load32_store32 m (a + 8) ((address >>> 32).setWidth 32)]
    simp (disch := omega) only [Gate.write, Gate.new, load32, store16, store8, store32,
      load_store_outside, load_store_same]
  rw [hram, readGate, hattributes, if_pos h, hist, hlow, hselector, hmiddle, hhigh, append_parts]

theorem initialGate_view (d : TableImage) (vector : ℕ) :
    readGate ((initialGate d vector).write a m) a = some (trapGate d vector) := by
  unfold initialGate trapGate
  by_cases huser : 3 ≤ vector ∧ vector ≤ 5
  · obtain ⟨hlow, hhigh⟩ := huser
    simp only [if_pos (And.intro hlow hhigh), show vector ≠ 2 by omega, show vector ≠ 8 by omega,
      show vector < 32 by omega, show ¬ 32 ≤ vector by omega, if_true, if_false]
    exact readGate_new _ 1 (by decide)
  · by_cases hnmi : vector = 2
    · subst hnmi
      exact readGate_new _ 1 (by decide)
    · by_cases hdouble : vector = 8
      · subst hdouble
        exact readGate_new _ 2 (by decide)
      · simp only [huser, hnmi, hdouble, if_false]
        by_cases hlow : vector < 32
        · rw [if_pos hlow, if_neg (by omega)]
          exact readGate_new _ 1 (by decide)
        · rw [if_neg hlow, if_pos (by omega)]
          exact readGate_new _ 1 (by decide)

def TableImage.istTop (d : TableImage) (i : ℕ) : BitVec 64 :=
  if i = 2 then d.doubleTop else if i = 3 then d.irqTop else d.exceptionTop

theorem writeTaskState_outside (h : x < d.tss ∨ d.tss + 104 ≤ x) : writeTaskState d m x = m x := by
  simp (disch := omega) only [writeTaskState, List.foldl, store16, store64, store_outside]

theorem writeTaskState_rsp0 : rsp0 (writeTaskState d m) d.tss = d.bootStackTop := by
  obtain ⟨ram, hram⟩ : ∃ ram, [4, 12, 20, 36, 52, 60, 68, 76, 84].foldl
    (fun ram offset => store64 ram (d.tss + offset) d.exceptionTop) m = ram := ⟨_, rfl⟩
  rw [rsp0, writeTaskState, hram]
  simp (disch := omega) only [load64, store16, store64, load_store_outside]
  exact load64_store64 ram (d.tss + 4) d.bootStackTop

theorem writeTaskState_ist {i : ℕ} (hlow : 1 ≤ i) (hhigh : i ≤ 7) :
    istPointer (writeTaskState d m) d.tss i = d.istTop i := by
  have hstore : ∀ v : BitVec 64, v = BitVec.ofNat 64 (v.toNat % 256 ^ 8) := by
    intro v
    rw [Nat.mod_eq_of_lt (show v.toNat < 256 ^ 8 from v.isLt), BitVec.ofNat_toNat, BitVec.setWidth_eq]
  rw [hstore (d.istTop i)]
  interval_cases i <;>
    simp (disch := omega) only [istPointer, writeTaskState, List.foldl, load64, store16, store64,
      load_store_outside, Nat.add_assoc, Nat.reduceMul, Nat.reduceAdd, load_store_same] <;> rfl

/-- The fields of the lower half do not overlap. -/
theorem taskLow_toNat (base : BitVec 64) : (taskLow base).toNat =
    103 + 2 ^ 16 * (base.toNat % 2 ^ 24) + 2 ^ 40 * 0x89 + 2 ^ 56 * (base.toNat / 2 ^ 24 % 2 ^ 8) := by
  have hlow : ((base &&& 0xffffff#64) <<< 16).toNat = 2 ^ 16 * (base.toNat % 2 ^ 24) := by
    have hand : (base &&& 0xffffff#64).toNat = base.toNat % 2 ^ 24 :=
      Nat.and_two_pow_sub_one_eq_mod base.toNat 24
    rw [BitVec.toNat_shiftLeft, hand, Nat.shiftLeft_eq]
    omega
  have hhigh : ((base >>> 24 &&& 0xff#64) <<< 56).toNat = 2 ^ 56 * (base.toNat / 2 ^ 24 % 2 ^ 8) := by
    have hand : (base >>> 24 &&& 0xff#64).toNat = base.toNat / 2 ^ 24 % 2 ^ 8 := by
      rw [BitVec.toNat_and, BitVec.toNat_ushiftRight, Nat.shiftRight_eq_div_pow]
      exact Nat.and_two_pow_sub_one_eq_mod _ 8
    rw [BitVec.toNat_shiftLeft, hand, Nat.shiftLeft_eq]
    omega
  have hmiddle : (0x89#64 <<< 40).toNat = 2 ^ 40 * 0x89 := by decide
  rw [taskLow, BitVec.toNat_or, BitVec.toNat_or, BitVec.toNat_or, hlow, hmiddle, hhigh,
    show (103#64).toNat = 103 from rfl, Nat.or_comm 103,
    ← Nat.two_pow_add_eq_or_of_lt (show 103 < 2 ^ 16 by decide), Nat.or_comm,
    Nat.or_comm _ (2 ^ 40 * 0x89),
    ← Nat.two_pow_add_eq_or_of_lt (show 2 ^ 16 * (base.toNat % 2 ^ 24) + 103 < 2 ^ 40 by omega),
    ← Nat.two_pow_add_eq_or_of_lt (by omega)]
  omega

theorem readSegment_task (d : TableImage) :
    readSegment (writeTaskDescriptor d m) (d.gdt + 8 * 8) =
      ⟨BitVec.ofNat 64 d.tss, 103, 9, 0, true⟩ := by
  obtain ⟨base, hbase⟩ : ∃ base, BitVec.ofNat 64 d.tss = base := ⟨_, rfl⟩
  have hlow : load64 (writeTaskDescriptor d m) (d.gdt + 8 * 8) = taskLow base := by
    simp only [writeTaskDescriptor, hbase]
    rw [load64_store64_outside (by omega), load64_store64]
  have hhigh : load64 (writeTaskDescriptor d m) (d.gdt + 8 * 8 + 8) = base >>> 32 := by
    simp only [writeTaskDescriptor, hbase]
    exact load64_store64 _ _ _
  have hnat := taskLow_toNat base
  have htop : (taskLow base).toNat / 2 ^ 56 % 2 ^ 8 = base.toNat / 2 ^ 24 % 2 ^ 8 := by omega
  have hmiddle : (taskLow base).toNat / 2 ^ 16 % 2 ^ 24 = base.toNat % 2 ^ 24 := by omega
  rw [readSegment, hlow, hhigh, hbase, SegmentView.mk.injEq]
  refine ⟨?_, ?_, ?_, ?_, ?_⟩
  · apply BitVec.eq_of_toNat_eq
    simp only [BitVec.toNat_append, BitVec.toNat_setWidth, BitVec.extractLsb'_toNat,
      BitVec.toNat_ushiftRight, Nat.shiftRight_eq_div_pow, htop, hmiddle]
    rw [Nat.shiftLeft_eq, Nat.shiftLeft_eq, Nat.mul_comm _ (2 ^ 8), Nat.mul_comm _ (2 ^ 24),
      ← Nat.two_pow_add_eq_or_of_lt (by omega), ← Nat.two_pow_add_eq_or_of_lt (by omega)]
    have hdiv : base.toNat / 2 ^ 24 / 2 ^ 8 = base.toNat / 2 ^ 32 := Nat.div_div_eq_div_mul _ _ _
    have hlt := base.isLt
    clear hnat htop hmiddle
    omega
  · apply BitVec.eq_of_toNat_eq
    simp only [BitVec.toNat_append, BitVec.extractLsb'_toNat, Nat.shiftRight_eq_div_pow, hnat]
    rw [Nat.shiftLeft_eq, Nat.mul_comm _ (2 ^ 16), ← Nat.two_pow_add_eq_or_of_lt (by omega)]
    change _ = 103
    omega
  · apply BitVec.eq_of_toNat_eq
    simp only [BitVec.extractLsb'_toNat, Nat.shiftRight_eq_div_pow, hnat]
    change _ = 9
    omega
  · apply BitVec.eq_of_toNat_eq
    simp only [BitVec.extractLsb'_toNat, Nat.shiftRight_eq_div_pow, hnat]
    change _ = 0
    omega
  · rw [BitVec.getLsbD, hnat, Nat.testBit_eq_decide_div_mod_eq]
    apply decide_eq_true
    omega

end MikoOS.Trap
