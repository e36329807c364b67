import MikoOS.Library.X86
import MikoOS.UserMode

/-!
# Entry code

`entry.S` and `irq.S`: SAVE_REGISTERS and RESTORE_REGISTERS, the call anchored in RBX, and the entry
of the sixteen interrupt vectors. The addresses CALL pushes are parameters.
-/

namespace MikoOS.Entry

open ByteMemory X86 Cpu UserMode

def savedRegisters : List Reg :=
  [.rax, .rbx, .rcx, .rdx, .rbp, .rdi, .rsi, .r8, .r9, .r10, .r11, .r12, .r13, .r14, .r15]

def restoredRegisters : List Reg :=
  [.r15, .r14, .r13, .r12, .r11, .r10, .r9, .r8, .rsi, .rdi, .rbp, .rdx, .rcx, .rbx, .rax]

def saveRegisters : Cpu → Cpu := pushRegs savedRegisters

def restoreRegisters : Cpu → Cpu := popRegs restoredRegisters

/-- RDI and RBX take RSP, which is then aligned, and the call pushes its return address. -/
def anchoredCall (returnTo : BitVec 64) (s : Cpu) : Cpu :=
  let s := s.set .rdi (s.reg .rsp)
  let s := s.set .rbx (s.reg .rsp)
  let s := s.andImmediate .rsp (-16)
  s.push returnTo

/-- `movq %rbx, %rsp`. -/
def anchorBack (s : Cpu) : Cpu := s.set .rsp (s.reg .rbx)

/-- `irq_32` to `irq_47`. -/
def irqEntry (vector : ℕ) (s : Cpu) : Cpu := (s.push 0).push (BitVec.ofNat 64 vector)

/-- `irq_common` up to its call of `irq_dispatch`. -/
def irqCall (returnTo : BitVec 64) (s : Cpu) : Cpu := anchoredCall returnTo (saveRegisters s.cld)

/-- `irq_common` after the call. -/
def irqReturn (s : Cpu) : Cpu := ((restoreRegisters (anchorBack s)).addImmediate .rsp 16).iretq

def irqCommon (dispatch : Cpu → Option Cpu) (returnTo : BitVec 64) (s : Cpu) : Option Cpu :=
  (dispatch (irqCall returnTo s)).map irqReturn

/-- `repr(C)`: the field at a byte offset. -/
def field (ram : Memory) (a : BitVec 64) (offset : ℕ) : BitVec 64 :=
  load64 ram (a + BitVec.ofNat 64 offset).toNat

def readInterruptFrame (ram : Memory) (a : BitVec 64) : InterruptFrame where
  registers k := field ram a (8 * k)
  vector := field ram a 120
  error := field ram a 128
  rip := field ram a 136
  cs := field ram a 144
  rflags := field ram a 152
  rsp := field ram a 160
  ss := field ram a 168

/-- What the indexes of `InterruptFrame::registers` stand for. -/
def frameRegisters : List Reg :=
  [.r15, .r14, .r13, .r12, .r11, .r10, .r9, .r8, .rsi, .rdi, .rbp, .rdx, .rcx, .rbx, .rax]

theorem savedRegisters_reverse : savedRegisters.reverse = restoredRegisters := rfl

theorem saved_no_rsp : Reg.rsp ∉ savedRegisters := by decide

theorem restored_no_rsp : Reg.rsp ∉ restoredRegisters := by decide

theorem mem_restoredRegisters {r : Reg} (h : r ≠ .rsp) : r ∈ restoredRegisters := by
  cases r <;> first | exact absurd rfl h | decide

section Saved

variable {s : Cpu} {ws : List (BitVec 64)}

theorem saveRegisters_stack (h : s.Stack ws) (hroom : ws.length < 2 ^ 60) :
    (saveRegisters s).Stack (restoredRegisters.map s.reg ++ ws) := by
  have hlength : savedRegisters.length = 15 := rfl
  have hpush := h.pushRegs saved_no_rsp (by omega)
  rwa [← List.map_reverse, savedRegisters_reverse] at hpush

theorem restoreRegisters_stack {f : Reg → BitVec 64}
    (h : s.Stack (restoredRegisters.map f ++ ws)) :
    (restoreRegisters s).Stack ws ∧ ∀ r ≠ .rsp, (restoreRegisters s).reg r = f r := by
  obtain ⟨hstack, hreg⟩ := h.popRegs restored_no_rsp
  refine ⟨hstack, fun r hr => ?_⟩
  rw [restoreRegisters, hreg r hr, if_pos (mem_restoredRegisters hr)]

end Saved

section Call

variable {s t : Cpu} {ws : List (BitVec 64)} {returnTo : BitVec 64}

theorem anchoredCall_rsp :
    (anchoredCall returnTo s).reg .rsp = (s.reg .rsp &&& -16) - 8 := rfl

theorem anchoredCall_ram : (anchoredCall returnTo s).ram =
    store64 s.ram ((s.reg .rsp &&& -16) - 8).toNat returnTo := rfl

theorem anchoredCall_rdi : (anchoredCall returnTo s).reg .rdi = s.reg .rsp := rfl

theorem anchoredCall_rbx : (anchoredCall returnTo s).reg .rbx = s.reg .rsp := rfl

theorem anchorBack_ram : (anchorBack s).ram = s.ram := rfl

theorem anchorBack_call_rsp :
    (anchorBack (anchoredCall returnTo s)).reg .rsp = (anchoredCall returnTo s).reg .rdi := rfl

theorem anchoredCall_direction (returnTo : BitVec 64) (h : s.flags &&& directionFlag = 0) :
    (anchoredCall returnTo s).flags &&& directionFlag = 0 := by
  change withArithmetic s.flags _ &&& directionFlag = 0
  rw [withArithmetic_and (by decide), h]

theorem alignDown_toNat (a : BitVec 64) : (a &&& -16).toNat = a.toNat / 16 * 16 := by
  have hclear := Intervals.clearLow_eq 4 a.isLt
  rw [Intervals.clearLow, BitVec.ofNat_toNat, BitVec.setWidth_eq] at hclear
  exact hclear

theorem anchor_toNat {a : BitVec 64} (h : 16 ≤ a.toNat) :
    ((a &&& -16) - 8).toNat = a.toNat / 16 * 16 - 8 := by
  have height : (8 : BitVec 64).toNat = 8 := rfl
  have hdown := alignDown_toNat a
  rw [BitVec.toNat_sub_of_le (BitVec.le_def.mpr (by omega)), height, hdown]

theorem anchoredCall_aligned : ((anchoredCall returnTo s).reg .rsp + 8).toNat % 16 = 0 := by
  rw [anchoredCall_rsp, BitVec.sub_add_cancel, alignDown_toNat]
  exact Nat.mul_mod_left _ _

/-- The return address lies below the words on the stack, with or without an alignment gap. -/
theorem anchoredCall_word (h : Aligned (s.reg .rsp)) {i : ℕ} (hi : i < 2 ^ 60) :
    load64 (anchoredCall returnTo s).ram (slot (s.reg .rsp) i).toNat =
      load64 s.ram (slot (s.reg .rsp) i).toNat := by
  have hgap : ∃ k, 0 < k ∧ k ≤ 2 ∧ slot ((s.reg .rsp &&& -16) - 8) k = s.reg .rsp := by
    have hdown := alignDown_toNat (s.reg .rsp)
    rw [Aligned] at h
    by_cases hsixteen : (s.reg .rsp).toNat % 16 = 0
    · refine ⟨1, by decide, by decide, ?_⟩
      rw [slot_sub_eight _ 0, slot_zero]
      apply BitVec.eq_of_toNat_eq
      omega
    · refine ⟨2, by decide, le_rfl, ?_⟩
      rw [slot_sub_eight _ 1]
      apply BitVec.eq_of_toNat_eq
      rw [slot, BitVec.toNat_add, hdown, show (BitVec.ofNat 64 (8 * 1)).toNat = 8 from rfl]
      omega
  obtain ⟨k, hpos, hk, hslot⟩ := hgap
  have haligned : Aligned ((s.reg .rsp &&& -16) - 8) := by
    apply Aligned.sub_eight
    rw [Aligned, alignDown_toNat]
    omega
  rw [anchoredCall_ram, ← hslot, slot_slot, hslot]
  apply load64_store64_ne haligned (haligned.slot _)
  rw [← slot_zero ((s.reg .rsp &&& -16) - 8), slot_slot]
  exact slot_ne (by omega) (by omega)

theorem anchoredCall_stack (returnTo : BitVec 64) (h : s.Stack ws) (hws : ws.length < 2 ^ 60) :
    (anchorBack (anchoredCall returnTo s)).Stack ws := by
  apply h.congr
  · rfl
  · intro i hi
    exact anchoredCall_word h.aligned (by omega)

/-- After an anchored call the stack is what it was before. -/
theorem anchored_stack {f : Cpu → Option Cpu} {n : ℕ} (hf : Callee n f) (hn : n < 2 ^ 60)
    (h : s.Stack ws) (hws : ws.length ≤ n) (hdirection : s.flags &&& directionFlag = 0)
    (ht : f (anchoredCall returnTo s) = some t) : (anchorBack t).Stack ws := by
  have hdf := anchoredCall_direction returnTo hdirection
  have hrbx := hf.rbx _ _ hdf anchoredCall_aligned ht
  have hwords := hf.words _ _ hdf anchoredCall_aligned ht
  rw [anchoredCall_rbx] at hrbx
  apply h.congr
  · rw [anchorBack, set_self, hrbx]
  · intro i hi
    have hword := hwords i (by omega)
    rw [anchoredCall_rdi, anchoredCall_word h.aligned (by omega)] at hword
    exact hword

end Call

/-- The frame describes the interrupted state. -/
structure Describes (frame : InterruptFrame) (vector : ℕ) (s : Cpu) : Prop where
  registers : ∀ k r, frameRegisters[k]? = some r → frame.registers k = s.reg r
  vector : frame.vector = BitVec.ofNat 64 vector
  error : frame.error = 0
  rip : frame.rip = s.rip
  cs : frame.cs = s.cs.setWidth 64
  rflags : frame.rflags = s.flags
  rsp : frame.rsp = s.reg .rsp
  ss : frame.ss = s.ss.setWidth 64

/-- `t` continues as `s` would have. -/
structure Resumes (s t : Cpu) : Prop where
  reg : t.reg = s.reg
  rip : t.rip = s.rip
  flags : t.flags = s.flags
  cs : t.cs = s.cs
  ss : t.ss = s.ss

def hardwareWords (s : Cpu) : List (BitVec 64) :=
  [s.rip, s.cs.setWidth 64, s.flags, s.reg .rsp, s.ss.setWidth 64]

/-- The 22 words of an `InterruptFrame`. -/
def frameWords (vector : ℕ) (s : Cpu) : List (BitVec 64) :=
  restoredRegisters.map s.reg ++ (BitVec.ofNat 64 vector :: 0 :: hardwareWords s)

section Irq

variable {s t : Cpu} {base handler returnTo : BitVec 64} {vector : ℕ}

theorem interrupt_stack (s : Cpu) (handler : BitVec 64) (hbase : Aligned base) :
    (s.interrupt base handler).Stack (hardwareWords s) := by
  have hnil : (s.set .rsp base).Stack [] := by
    apply stack_nil
    rwa [set_self]
  have hss := hnil.push (v := s.ss.setWidth 64) (by simp)
  have hrsp := hss.push (v := s.reg .rsp) (by simp)
  have hflags := hrsp.push (v := s.flags) (by simp)
  have hcs := hflags.push (v := s.cs.setWidth 64) (by simp)
  have hrip := hcs.push (v := s.rip) (by simp)
  exact hrip.congr rfl fun _ _ => rfl

theorem interrupt_reg {r : Reg} (hr : r ≠ .rsp) : (s.interrupt base handler).reg r = s.reg r := by
  change Cpu.reg (Cpu.push s.rip (Cpu.push (s.cs.setWidth 64) (Cpu.push s.flags
    (Cpu.push (s.reg .rsp) (Cpu.push (s.ss.setWidth 64) (s.set .rsp base)))))) r = s.reg r
  rw [push_reg hr, push_reg hr, push_reg hr, push_reg hr, push_reg hr, set_of_ne hr]

theorem irq_saved_stack (s : Cpu) (handler : BitVec 64) (vector : ℕ) (hbase : Aligned base) :
    (saveRegisters (irqEntry vector (s.interrupt base handler)).cld).Stack (frameWords vector s) := by
  have hhardware := interrupt_stack s handler hbase
  have herror := hhardware.push (v := 0) (by simp [hardwareWords])
  have hvector := herror.push (v := BitVec.ofNat 64 vector) (by simp [hardwareWords])
  have hcld : (irqEntry vector (s.interrupt base handler)).cld.Stack
      (BitVec.ofNat 64 vector :: 0 :: hardwareWords s) := hvector.congr rfl fun _ _ => rfl
  have hsaved := saveRegisters_stack hcld (by simp [hardwareWords])
  have hreg : restoredRegisters.map (irqEntry vector (s.interrupt base handler)).cld.reg =
      restoredRegisters.map s.reg := by
    apply List.map_congr_left
    intro r hr
    have hne : r ≠ .rsp := by
      rintro rfl
      exact restored_no_rsp hr
    change (((s.interrupt base handler).push 0).push (BitVec.ofNat 64 vector)).reg r = s.reg r
    rw [push_reg hne, push_reg hne, interrupt_reg hne]
  rwa [hreg] at hsaved

theorem saved_direction (s : Cpu) : (saveRegisters s.cld).flags &&& directionFlag = 0 := by
  rw [saveRegisters, pushRegs_eq]
  change s.flags &&& ~~~directionFlag &&& directionFlag = 0
  rw [BitVec.and_assoc, BitVec.and_comm (~~~directionFlag), BitVec.and_not_self]
  exact BitVec.and_zero

theorem describes_of_stack {t : Cpu} (h : t.Stack (frameWords vector s)) :
    Describes (readInterruptFrame t.ram (t.reg .rsp)) vector s where
  registers := by
    intro k r hr
    apply h.get k
    have hk : k < restoredRegisters.length := (List.getElem?_eq_some_iff.mp hr).1
    rw [frameWords, List.getElem?_append_left (by rwa [List.length_map]), List.getElem?_map]
    exact congrArg (Option.map s.reg) hr
  vector := h.get 15 _ rfl
  error := h.get 16 _ rfl
  rip := h.get 17 _ rfl
  cs := h.get 18 _ rfl
  rflags := h.get 19 _ rfl
  rsp := h.get 20 _ rfl
  ss := h.get 21 _ rfl

/-- Past the two software words IRETQ takes the interrupted state. -/
theorem iretq_resumes {v e : BitVec 64} (h : t.Stack (v :: e :: hardwareWords s))
    (hreg : ∀ r ≠ .rsp, t.reg r = s.reg r) : Resumes s (t.addImmediate .rsp 16).iretq := by
  have hhardware : (t.addImmediate .rsp 16).Stack (hardwareWords s) :=
    h.discard [v, e] (by rw [addImmediate_reg, Function.update_self]; rfl) rfl
  have hword : ∀ i w, (hardwareWords s)[i]? = some w → (t.addImmediate .rsp 16).word i = w :=
    hhardware.get
  have hwidth : ∀ v : BitVec 16, (v.setWidth 64).setWidth 16 = v := by
    intro v
    rw [BitVec.setWidth_setWidth_of_le _ (by decide), BitVec.setWidth_eq]
  exact {
    reg := by
      funext r
      by_cases hr : r = .rsp
      · rw [hr, iretq_reg, Function.update_self]
        exact hword 3 _ rfl
      · rw [iretq_reg, Function.update_of_ne hr, addImmediate_reg, Function.update_of_ne hr, hreg r hr]
    rip := hword 0 _ rfl
    flags := hword 2 _ rfl
    cs := (congrArg (BitVec.setWidth 16) (hword 1 _ rfl)).trans (hwidth s.cs)
    ss := (congrArg (BitVec.setWidth 16) (hword 4 _ rfl)).trans (hwidth s.ss) }

/-- From any state that still holds the frame, the interrupted one is resumed. -/
theorem irqReturn_resumes (h : (anchorBack t).Stack (frameWords vector s)) :
    Resumes s (irqReturn t) := by
  obtain ⟨hstack, hreg⟩ := restoreRegisters_stack h
  exact iretq_resumes hstack hreg

theorem irq_call (returnTo : BitVec 64) {dispatch : Cpu → Option Cpu} (hdispatch : Callee 22 dispatch) {w : Cpu}
    (hw : w.Stack (frameWords vector s)) (hdirection : w.flags &&& directionFlag = 0) :
    Describes (readInterruptFrame (anchoredCall returnTo w).ram ((anchoredCall returnTo w).reg .rdi))
        vector s ∧
      ∀ u, dispatch (anchoredCall returnTo w) = some u → Resumes s (irqReturn u) := by
  have hlength : (frameWords vector s).length = 22 := rfl
  constructor
  · have hdescribes := describes_of_stack (anchoredCall_stack returnTo hw (by omega))
    rwa [anchorBack_ram, anchorBack_call_rsp] at hdescribes
  · intro u hu
    exact irqReturn_resumes (anchored_stack hdispatch (by decide) hw hlength.le hdirection hu)

/-- Every vector of the controllers is transparent: the dispatcher is called with DF clear, on an
aligned stack and with the frame of the interrupted state, and when it returns IRETQ resumes that
state, whatever the parity of the stack it was taken on; the processor itself aligns `base` to
sixteen bytes. -/
theorem irq_transparent {dispatch : Cpu → Option Cpu} (hdispatch : Callee 22 dispatch)
    (s : Cpu) (vector : ℕ) (base handler returnTo : BitVec 64)
    (hbase : Aligned base) :
    let called := irqCall returnTo (irqEntry vector (s.interrupt base handler))
    called.flags &&& directionFlag = 0 ∧ (called.reg .rsp + 8).toNat % 16 = 0 ∧
      Describes (readInterruptFrame called.ram (called.reg .rdi)) vector s ∧
      ∀ u, dispatch called = some u →
        ∃ t, irqCommon dispatch returnTo (irqEntry vector (s.interrupt base handler)) = some t ∧
          Resumes s t := by
  have hsaved := irq_saved_stack s handler vector hbase
  have hdirection := saved_direction (irqEntry vector (s.interrupt base handler))
  obtain ⟨hdescribes, hresumes⟩ := irq_call returnTo hdispatch hsaved hdirection
  refine ⟨anchoredCall_direction returnTo hdirection, anchoredCall_aligned, hdescribes, ?_⟩
  intro u hu
  exact ⟨irqReturn u, congrArg (Option.map irqReturn) hu, hresumes u hu⟩

end Irq

def sampleDispatch (s : Cpu) : Option Cpu := some ((s.set .rax 5).set .rsp (s.reg .rsp + 8))

theorem sampleDispatch_callee (n : ℕ) : Callee n sampleDispatch where
  rbx := by
    intro s t _ _ ht
    obtain rfl := Option.some.inj ht
    rw [set_of_ne (by decide), set_of_ne (by decide)]
  words := by
    intro s t _ _ ht
    obtain rfl := Option.some.inj ht
    exact fun _ _ => rfl

/-- A state with DF set and a stack pointer that is not even aligned to words. -/
def sampleCpu : Cpu where
  reg _ := 0x1235
  rip := 0xffff800000100000
  flags := 0x647
  cs := 8
  ss := 0x10
  ds := 0x10
  es := 0x10
  fs := 0
  gs := 0
  sysenterCs := 0
  sysenterEsp := 0
  sysenterEip := 0
  ram _ := 0

theorem irq_transparent_sample :
    ∃ t, irqCommon sampleDispatch 0x2000 (irqEntry 33 (sampleCpu.interrupt 0x9008 0x1000)) = some t ∧
      Resumes sampleCpu t := by
  obtain ⟨_, _, _, hreturns⟩ := irq_transparent (sampleDispatch_callee 22) sampleCpu 33 0x9008 0x1000
    0x2000 (by decide)
  exact hreturns _ rfl

end MikoOS.Entry
