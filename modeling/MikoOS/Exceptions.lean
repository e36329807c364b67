import MikoOS.TableCalls
import MikoOS.UserReturn

/-!
# Exceptions

`entry.S`: the stubs of the exceptions and `exception_common` up to its call of `exception_dispatch`.
Some exceptions come with an error code and some without; behind the stub every one has the same
frame, on the stack its gate names, and frames on different stacks do not disturb one another.
-/

namespace MikoOS.Entry

open ByteMemory X86 Cpu UserMode Trap

/-- The stubs `EXCEPTION n,1`. -/
def withError : List ℕ := [8, 10, 11, 12, 13, 14, 17, 21, 29, 30]

def exceptionEntry (vector : ℕ) (s : Cpu) : Cpu :=
  (if vector ∈ withError then s else s.push 0).push (BitVec.ofNat 64 vector)

/-- `exception_common` up to its call of `exception_dispatch`, which does not return. -/
def exceptionCall (returnTo : BitVec 64) (s : Cpu) : Cpu :=
  alignedCall returnTo (saveRegisters s.cli.cld)

structure Reports (frame : InterruptFrame) (vector : ℕ) (error : BitVec 64) (s : Cpu) : Prop where
  registers : ∀ k r, frameRegisters[k]? = some r → frame.registers k = s.reg r
  vector : frame.vector = BitVec.ofNat 64 vector
  error : frame.error = error
  rip : frame.rip = s.rip
  cs : frame.cs = s.cs.setWidth 64
  rflags : frame.rflags = s.flags
  rsp : frame.rsp = s.reg .rsp
  ss : frame.ss = s.ss.setWidth 64

def faultWords (vector : ℕ) (error : BitVec 64) (s : Cpu) : List (BitVec 64) :=
  restoredRegisters.map s.reg ++ (BitVec.ofNat 64 vector :: error :: hardwareWords s)

def Cause.reported (cause : Cause) (vector : ℕ) : BitVec 64 := (cause.pushed vector).getD 0

/-- INT n never pushes an error code, so its vector must be one whose stub expects none. -/
def Expected (cause : Cause) (vector : ℕ) : Prop := cause = .software → vector ∉ withError

instance (cause : Cause) (vector : ℕ) : Decidable (Expected cause vector) :=
  inferInstanceAs (Decidable (cause = .software → vector ∉ withError))

def labelled (vector : ℕ) (error : BitVec 64) (s : Cpu) : Cpu :=
  (s.push error).push (BitVec.ofNat 64 vector)

section Words

variable {s t : Cpu} {base returnTo : BitVec 64} {gate : GateView} {vector : ℕ} {error : BitVec 64}

/-- Behind the stub it does not matter who pushed the error code. -/
theorem exceptionEntry_eq {cause : Cause} (h : Expected cause vector) (gate : GateView)
    (base : BitVec 64) (s : Cpu) : exceptionEntry vector (enterGate gate base (cause.pushed vector) s) =
      labelled vector (Cause.reported cause vector) (enterGate gate base none s) := by
  unfold exceptionEntry Cause.reported labelled
  by_cases hv : vector ∈ withError
  · rw [if_pos hv]
    cases cause with
    | software => exact absurd hv (h rfl)
    | hardware error =>
      have hpushed : (Cause.hardware error).pushed vector = some error := if_pos hv
      rw [hpushed]
      rfl
  · have hpushed : cause.pushed vector = none := by
      cases cause with
      | software => rfl
      | hardware error => exact if_neg hv
    rw [if_neg hv, hpushed]
    rfl

theorem keepInterrupts_reg (trap : Bool) (flags : BitVec 64) (s : Cpu) :
    (keepInterrupts trap flags s).reg = s.reg ∧ (keepInterrupts trap flags s).ram = s.ram := by
  unfold keepInterrupts
  cases trap <;> exact ⟨rfl, rfl⟩

theorem enterGate_none (gate : GateView) (base : BitVec 64) (s : Cpu) :
    (enterGate gate base none s).reg = (s.interrupt base gate.handler).reg ∧
      (enterGate gate base none s).ram = (s.interrupt base gate.handler).ram :=
  keepInterrupts_reg _ _ _

theorem labelled_stack (s : Cpu) (gate : GateView) (hbase : base.toNat % 16 = 0) (vector : ℕ)
    (error : BitVec 64) {w : Cpu}
    (hreg : w.reg = (labelled vector error (enterGate gate base none s)).reg)
    (hram : w.ram = (labelled vector error (enterGate gate base none s)).ram) :
    (saveRegisters w).Stack (faultWords vector error s) := by
  obtain ⟨hentered, hmemory⟩ := enterGate_none gate base s
  have hhardware : (enterGate gate base none s).Stack (hardwareWords s) := by
    have hstack := interrupt_stack s gate.handler (show Aligned base by rw [Aligned]; omega)
    exact hstack.congr (by rw [hentered]) fun _ _ => by rw [hmemory]
  have herror := hhardware.push (v := error) (by simp [hardwareWords])
  have hvector := herror.push (v := BitVec.ofNat 64 vector) (by simp [hardwareWords])
  have hw : w.Stack (BitVec.ofNat 64 vector :: error :: hardwareWords s) :=
    hvector.congr (by rw [hreg]; rfl) fun _ _ => by rw [hram]; rfl
  have hsaved := saveRegisters_stack hw (by simp [hardwareWords])
  have hregs : restoredRegisters.map w.reg = restoredRegisters.map s.reg := by
    apply List.map_congr_left
    intro r hr
    have hne : r ≠ .rsp := by
      rintro rfl
      exact restored_no_rsp hr
    rw [hreg]
    change (((enterGate gate base none s).push error).push (BitVec.ofNat 64 vector)).reg r = s.reg r
    rw [push_reg hne, push_reg hne, hentered, interrupt_reg hne]
  rwa [hregs] at hsaved

theorem reports_of_stack {t : Cpu} (h : t.Stack (faultWords vector error s)) :
    Reports (readInterruptFrame t.ram (t.reg .rsp)) vector error s where
  registers := by
    intro k r hr
    apply h.get k
    have hk : k < restoredRegisters.length := (List.getElem?_eq_some_iff.mp hr).1
    rw [faultWords, List.getElem?_append_left (by rwa [List.length_map]), List.getElem?_map]
    exact congrArg (Option.map s.reg) hr
  vector := h.get 15 _ rfl
  error := h.get 16 _ rfl
  rip := h.get 17 _ rfl
  cs := h.get 18 _ rfl
  rflags := h.get 19 _ rfl
  rsp := h.get 20 _ rfl
  ss := h.get 21 _ rfl

/-- The labelled stack in numbers: the frame lies in the 176 bytes below `base`. -/
theorem labelled_rsp (hroom : 56 ≤ base.toNat) :
    ((labelled vector error (enterGate gate base none s)).reg .rsp).toNat = base.toNat - 56 := by
  obtain ⟨hentered, -⟩ := enterGate_none gate base s
  have h₀ : ((enterGate gate base none s).reg .rsp).toNat = base.toNat - 40 := by
    rw [hentered]
    exact interrupt_rsp (by omega)
  have h₁ := push_rsp_toNat (v := error) (s := enterGate gate base none s) (by omega)
  have h₂ := push_rsp_toNat (v := BitVec.ofNat 64 vector) (s := (enterGate gate base none s).push error)
    (by omega)
  rw [labelled]
  omega

theorem labelled_outside {x : ℕ} (hroom : 56 ≤ base.toNat)
    (hx : x + 56 < base.toNat ∨ base.toNat ≤ x) :
    (labelled vector error (enterGate gate base none s)).ram x = s.ram x := by
  obtain ⟨hentered, hmemory⟩ := enterGate_none gate base s
  have h₀ : ((enterGate gate base none s).reg .rsp).toNat = base.toNat - 40 := by
    rw [hentered]
    exact interrupt_rsp (by omega)
  have h₁ := push_rsp_toNat (v := error) (s := enterGate gate base none s) (by omega)
  rw [labelled, push_outside (by omega) (by omega), push_outside (by omega) (by omega), hmemory]
  exact interrupt_outside (by omega) (by omega)

end Words

/-- The code behind the gate of a vector, up to the call of its dispatcher. -/
def entryCode (returnTo : BitVec 64) (vector : ℕ) (s : Cpu) : Cpu :=
  if vector < 32 then exceptionCall returnTo (exceptionEntry vector s)
  else if vector < 48 then irqCall returnTo (irqEntry vector s)
  else exceptionCall returnTo (exceptionEntry 255 s)

def label (vector : ℕ) : ℕ := if vector < 48 then vector else 255

def stackOf (vector : ℕ) : ℕ := if vector = 8 then 2 else if 32 ≤ vector ∧ vector < 48 then 3 else 1

def entryPoint (d : TableImage) (vector : ℕ) : BitVec 64 :=
  if vector < 32 then d.exceptionEntries vector
  else if vector < 48 then d.irqEntries (vector - 32)
  else d.exception255

def stackTop (d : TableImage) (vector : ℕ) : ℕ := (d.istTop (stackOf vector)).toNat

section Entries

variable {d : TableImage} {s t : Cpu} {vector : ℕ} {returnTo error : BitVec 64}

theorem initial_gate (d : TableImage) (vector : ℕ) : ∃ dpl,
    (TableSpec.initial d).gates vector = gateTo (entryPoint d vector) (BitVec.ofNat 3 (stackOf vector)) dpl
      (decide (vector ≠ 2 ∧ ¬ (32 ≤ vector ∧ vector < 48))) := by
  have hgates : (TableSpec.initial d).gates vector = if 32 ≤ vector ∧ vector < 32 + 16 then
    gateTo (d.irqEntries (vector - 32)) 3 0 false else trapGate d vector := rfl
  rw [hgates, entryPoint, stackOf]
  by_cases hirq : 32 ≤ vector ∧ vector < 48
  · refine ⟨0, ?_⟩
    simp only [hirq, show ¬ vector < 32 by omega,
      show vector ≠ 8 by omega, and_true, and_false, not_true, if_true, if_false, decide_false]
    rfl
  · simp only [hirq, trapGate, not_false_iff, and_true, if_false]
    by_cases hhigh : 32 ≤ vector
    · refine ⟨0, ?_⟩
      simp only [hhigh, show ¬ vector < 32 by omega, show ¬ vector < 48 by omega,
        show vector ≠ 8 by omega, show vector ≠ 2 by omega, if_true, if_false, ne_eq, not_false_iff,
        decide_true]
      rfl
    · by_cases hnmi : vector = 2
      · subst hnmi
        exact ⟨0, rfl⟩
      · by_cases hdouble : vector = 8
        · subst hdouble
          exact ⟨0, rfl⟩
        · simp only [hhigh, hnmi, hdouble, show vector < 32 by omega, if_true, if_false, ne_eq,
            not_false_iff, decide_true]
          exact ⟨_, rfl⟩

theorem stackTop_eq (hd : d.Linked) (vector : ℕ) :
    stackTop d vector % 16 = 0 ∧ stackTop d vector =
      if stackOf vector = 2 then d.doubleFaultStack + 16384
      else if stackOf vector = 3 then d.irqStack + 32768 else d.exceptionStack + 32768 := by
  obtain ⟨hexception, hdouble, hirq⟩ := hd.aligned
  have hbelow := hd.below
  simp only [TableImage.statics, List.mem_cons, forall_eq_or_imp] at hbelow
  obtain ⟨-, -, -, hexceptionBelow, hdoubleBelow, hirqBelow, -⟩ := hbelow
  rw [stackTop, TableImage.istTop]
  by_cases htwo : stackOf vector = 2
  · rw [if_pos htwo, if_pos htwo, TableImage.doubleTop, BitVec.toNat_ofNat, Nat.mod_eq_of_lt hdoubleBelow]
    exact ⟨by omega, rfl⟩
  · rw [if_neg htwo, if_neg htwo]
    by_cases hthree : stackOf vector = 3
    · rw [if_pos hthree, if_pos hthree, TableImage.irqTop, BitVec.toNat_ofNat, Nat.mod_eq_of_lt hirqBelow]
      exact ⟨by omega, rfl⟩
    · rw [if_neg hthree, if_neg hthree, TableImage.exceptionTop, BitVec.toNat_ofNat,
        Nat.mod_eq_of_lt hexceptionBelow]
      exact ⟨by omega, rfl⟩

/-- The tables as the kernel leaves them after `calls`, in the memory of a state. -/
def Tabled (d : TableImage) (calls : List TableCall) (s : Cpu) : Prop :=
  Trap.Holds d (.after d calls) ⟨s.ram, d.loaded, false⟩

/-- A vector whose gate is one of the start-up. -/
def Settled (calls : List TableCall) (vector : ℕ) : Prop :=
  vector < 256 ∧ (vector ≠ 0x80 ∨ armed calls = none)

def frameAddress (d : TableImage) (vector : ℕ) : BitVec 64 := BitVec.ofNat 64 (stackTop d vector - 176)

theorem stackTop_room (hd : d.Linked) (vector : ℕ) : 16384 ≤ stackTop d vector := by
  obtain ⟨-, htop⟩ := stackTop_eq hd vector
  rw [htop]
  split
  · omega
  · split <;> omega

theorem frameAddress_toNat (d : TableImage) (vector : ℕ) :
    (frameAddress d vector).toNat = stackTop d vector - 176 := by
  have hlt : stackTop d vector < 2 ^ 64 := BitVec.isLt _
  exact Nat.mod_eq_of_lt (by omega)

/-- Every vector the tables let through starts from the top of its own stack. -/
theorem deliver_settled (hd : d.Linked) {calls : List TableCall} (hcalls : ∀ c ∈ calls, c.Later)
    (hs : Tabled d calls s) (hv : Settled calls vector) {cause : Cause}
    (ht : deliver d.loaded cause vector s = some t) :
    ∃ gate, gate.handler = entryPoint d vector ∧
      (32 ≤ vector ∧ vector < 48 → gate.trap = false) ∧
      t = enterGate gate (d.istTop (stackOf vector)) (cause.pushed vector) s := by
  obtain ⟨-, gate, hgate, -, -, rfl⟩ := deliver_some ht
  obtain ⟨dpl, hinitial⟩ := initial_gate d vector
  have hview : gate = gateTo (entryPoint d vector) (BitVec.ofNat 3 (stackOf vector)) dpl
      (decide (vector ≠ 2 ∧ ¬ (32 ≤ vector ∧ vector < 48))) := by
    rw [← hinitial, ← after_gates_later d hcalls hv.2]
    exact Option.some.inj (hgate.symm.trans (hs.gates vector hv.1))
  have hrange : 1 ≤ stackOf vector ∧ stackOf vector ≤ 3 := by
    unfold stackOf
    split
    · omega
    · split <;> omega
  have hist : gate.ist.toNat = stackOf vector := by
    rw [hview]
    exact Nat.mod_eq_of_lt (by omega)
  have hnonzero : gate.ist ≠ 0 := by
    intro hzero
    rw [hzero] at hist
    have hval : (0 : BitVec 3).toNat = 0 := rfl
    omega
  have hstack : entryStack d.loaded gate s &&& -16 = d.istTop (stackOf vector) := by
    have hpointer : entryStack d.loaded gate s = d.istTop (stackOf vector) := by
      rw [entryStack, if_pos hnonzero, hist]
      exact hs.ist _ hrange.1 (by omega)
    have haligned := (stackTop_eq hd vector).1
    rw [stackTop] at haligned
    rw [hpointer]
    apply BitVec.eq_of_toNat_eq
    rw [alignDown_toNat]
    omega
  refine ⟨gate, by rw [hview]; rfl, fun hirq => ?_, by rw [hstack]⟩
  rw [hview]
  exact decide_eq_false fun h => h.2 hirq

structure Entered (d : TableImage) (vector : ℕ) (error : BitVec 64) (s c : Cpu) : Prop where
  frame : Reports (readInterruptFrame c.ram (c.reg .rdi)) (label vector) error s
  address : c.reg .rdi = frameAddress d vector
  aligned : (c.reg .rsp + 8).toNat % 16 = 0
  direction : c.flags &&& directionFlag = 0
  interrupts : c.flags &&& interruptFlag = 0
  outside : ∀ x, x + 184 < stackTop d vector ∨ stackTop d vector ≤ x → c.ram x = s.ram x

theorem anchoredCall_interrupts (returnTo : BitVec 64) (h : s.flags &&& interruptFlag = 0) :
    (anchoredCall returnTo s).flags &&& interruptFlag = 0 := by
  change withArithmetic s.flags _ &&& interruptFlag = 0
  rw [withArithmetic_and (by decide), h]

theorem entered_of_labelled (hd : d.Linked) {g : GateView} {w c : Cpu}
    (hreg : w.reg =
      (labelled (label vector) error (enterGate g (d.istTop (stackOf vector)) none s)).reg)
    (hram : w.ram =
      (labelled (label vector) error (enterGate g (d.istTop (stackOf vector)) none s)).ram)
    (hdirection : w.flags &&& directionFlag = 0) (hinterrupts : w.flags &&& interruptFlag = 0)
    (hcram : c.ram = (anchoredCall returnTo (saveRegisters w)).ram)
    (hcrsp : c.reg .rsp = (anchoredCall returnTo (saveRegisters w)).reg .rsp)
    (hcrdi : c.reg .rdi = (anchoredCall returnTo (saveRegisters w)).reg .rdi)
    (hcflags : c.flags = (anchoredCall returnTo (saveRegisters w)).flags) :
    Entered d vector error s c := by
  have hroom := stackTop_room hd vector
  obtain ⟨hmod, -⟩ := stackTop_eq hd vector
  have htop : (d.istTop (stackOf vector)).toNat = stackTop d vector := rfl
  have hlength : savedRegisters.length = 15 := rfl
  have hsaved : (saveRegisters w).Stack (faultWords (label vector) error s) :=
    labelled_stack s g (by rw [htop]; exact hmod) _ _ hreg hram
  have hw : (w.reg .rsp).toNat = stackTop d vector - 56 := by
    rw [hreg, labelled_rsp (by omega), htop]
  have hrsp : ((saveRegisters w).reg .rsp).toNat = stackTop d vector - 176 := by
    have height : (BitVec.ofNat 64 (8 * savedRegisters.length)).toNat = 120 := rfl
    rw [saveRegisters, pushRegs_rsp, BitVec.toNat_sub_of_le (BitVec.le_def.mpr (by omega)), height]
    omega
  have hflags : (saveRegisters w).flags = w.flags := by rw [saveRegisters, pushRegs_eq]
  have hcallRsp := anchor_toNat (show 16 ≤ ((saveRegisters w).reg .rsp).toNat by omega)
  constructor
  · have hreports := reports_of_stack (anchoredCall_stack returnTo hsaved (by simp [faultWords,
      hardwareWords, restoredRegisters]))
    rw [hcram, hcrdi]
    rwa [anchorBack_ram, anchorBack_call_rsp] at hreports
  · rw [hcrdi, anchoredCall_rdi]
    apply BitVec.eq_of_toNat_eq
    rw [hrsp, frameAddress_toNat d]
  · rw [hcrsp]
    exact anchoredCall_aligned
  · rw [hcflags]
    exact anchoredCall_direction returnTo (by rw [hflags]; exact hdirection)
  · rw [hcflags]
    exact anchoredCall_interrupts returnTo (by rw [hflags]; exact hinterrupts)
  · intro x hx
    rw [hcram, anchoredCall_ram, store64_outside (by omega), saveRegisters,
      pushRegs_outside (by omega) (by omega), hram, labelled_outside (by omega) (by omega)]

theorem and_not_self_flags (flags mask : BitVec 64) : flags &&& ~~~mask &&& mask = 0 := by
  rw [BitVec.and_assoc, BitVec.and_comm (~~~mask), BitVec.and_not_self]
  exact BitVec.and_zero

theorem cleared_flags (flags : BitVec 64) :
    flags &&& ~~~interruptFlag &&& ~~~directionFlag &&& directionFlag = 0 ∧
      flags &&& ~~~interruptFlag &&& ~~~directionFlag &&& interruptFlag = 0 := by
  refine ⟨and_not_self_flags _ _, ?_⟩
  rw [BitVec.and_assoc, BitVec.and_comm (~~~directionFlag), ← BitVec.and_assoc, and_not_self_flags]
  exact BitVec.zero_and

theorem exceptionCall_entered (hd : d.Linked) (returnTo : BitVec 64) {g : GateView} {w : Cpu}
    (hw : w = labelled (label vector) error (enterGate g (d.istTop (stackOf vector)) none s)) :
    Entered d vector error s (exceptionCall returnTo w) := by
  obtain ⟨hram, hflags, hrsp, hrdi, -⟩ := alignedCall_anchored returnTo (saveRegisters w.cli.cld)
  obtain ⟨hdirection, hinterrupts⟩ := cleared_flags w.flags
  apply entered_of_labelled hd (g := g) (w := w.cli.cld)
  · rw [← hw]
    rfl
  · rw [← hw]
    rfl
  · exact hdirection
  · exact hinterrupts
  · exact hram
  · exact hrsp
  · exact hrdi
  · exact hflags

theorem irqCall_entered (hd : d.Linked) (returnTo : BitVec 64) {gate : GateView} {w : Cpu}
    (hgate : gate.trap = false)
    (hw : w = labelled (label vector) error (enterGate gate (d.istTop (stackOf vector)) none s)) :
    Entered d vector error s (irqCall returnTo w) := by
  have hflags : w.flags = s.flags &&& ~~~(interruptFlag ||| gateFlags) := by
    rw [hw]
    change (keepInterrupts gate.trap s.flags _).flags = _
    rw [hgate]
    rfl
  apply entered_of_labelled hd (g := gate) (w := w.cld)
  · rw [← hw]
    rfl
  · rw [← hw]
    rfl
  · exact and_not_self_flags _ _
  · change w.flags &&& ~~~directionFlag &&& interruptFlag = 0
    rw [hflags, BitVec.and_assoc, BitVec.and_assoc]
    have hmask : ~~~(interruptFlag ||| gateFlags) &&& (~~~directionFlag &&& interruptFlag) = 0 := by
      decide
    rw [hmask]
    exact BitVec.and_zero
  · rfl
  · rfl
  · rfl
  · rfl

theorem pushed_none {cause : Cause} (hv : 32 ≤ vector) : cause.pushed vector = none := by
  cases cause with
  | software => rfl
  | hardware error =>
    apply if_neg
    simp only [errorVectors, List.mem_cons, List.not_mem_nil, or_false]
    omega

theorem hardware_delivered {calls : List TableCall} (hcalls : ∀ c ∈ calls, c.Later)
    (hs : Tabled d calls s) (hv : Settled calls vector) (error : BitVec 64) :
    (deliver d.loaded (.hardware error) vector s).isSome := by
  obtain ⟨hselector, -⟩ := after_gates d (fun c hc => (hcalls c hc).allowed) vector
  have hlimit : 16 * vector + 15 ≤ d.loaded.limit := by
    have hlt := hv.1
    change 16 * vector + 15 ≤ 4095
    omega
  have hcause : Cause.hardware error = .software → (s.cs &&& 3).toNat ≤
      ((TableSpec.after d calls).gates vector).dpl.toNat := nofun
  rw [deliver_eq hlimit (hs.gates vector hv.1) hselector hcause]
  rfl

/-- Every vector that is let through enters by its own stub. -/
theorem settled_entered (hd : d.Linked) {calls : List TableCall} (hcalls : ∀ c ∈ calls, c.Later)
    (hs : Tabled d calls s) (hv : Settled calls vector) (returnTo : BitVec 64) {cause : Cause}
    (hexpected : Expected cause vector) (ht : deliver d.loaded cause vector s = some t) :
    t.rip = entryPoint d vector ∧
      Entered d vector (Cause.reported cause vector) s (entryCode returnTo vector t) := by
  obtain ⟨gate, hhandler, hirq, rfl⟩ := deliver_settled hd hcalls hs hv ht
  refine ⟨(enterGate_eq _ _ _ s).2.trans hhandler, ?_⟩
  unfold entryCode
  by_cases hlow : vector < 32
  · have hlabel : label vector = vector := if_pos (by omega)
    rw [if_pos hlow, exceptionEntry_eq hexpected]
    exact exceptionCall_entered hd returnTo (by rw [hlabel])
  · have hpushed : cause.pushed vector = none := pushed_none (by omega)
    have hreported : Cause.reported cause vector = 0 := by rw [Cause.reported, hpushed]; rfl
    rw [if_neg hlow, hpushed, hreported]
    by_cases hrequest : vector < 48
    · have hlabel : label vector = vector := if_pos hrequest
      rw [if_pos hrequest]
      exact irqCall_entered hd returnTo (hirq ⟨by omega, hrequest⟩) (by rw [hlabel]; rfl)
    · have hlabel : label vector = 255 := if_neg hrequest
      rw [if_neg hrequest]
      exact exceptionCall_entered hd returnTo (g := gate) (by rw [hlabel]; rfl)

/-- After the start-up and the updates of the kernel a vector that an exception or a device raises is
always taken, and so is every INT n the gates admit, each by its own stub. Whatever the vector, the
privilege and the stack it came from, the dispatcher is called with IF and DF clear, on an aligned
stack, with one and the same frame at the top of the vector's own stack; nothing else is written. -/
theorem entry_reported (hd : d.Linked) {calls : List TableCall} (hcalls : ∀ c ∈ calls, c.Later)
    (hs : Tabled d calls s) (hv : Settled calls vector) (returnTo : BitVec 64) :
    (∀ error, (deliver d.loaded (.hardware error) vector s).isSome) ∧
      ∀ cause t, Expected cause vector → deliver d.loaded cause vector s = some t →
        t.rip = entryPoint d vector ∧
          Entered d vector (Cause.reported cause vector) s (entryCode returnTo vector t) := by
  constructor
  · exact hardware_delivered hcalls hs hv
  · intro cause t hexpected ht
    exact settled_entered hd hcalls hs hv returnTo hexpected ht

/-- An entry whose handler has not returned: the state it interrupted and what its frame says. -/
structure Activation where
  vector : ℕ
  error : BitVec 64
  interrupted : Cpu

def Activation.Covers (d : TableImage) (a : Activation) (x : ℕ) : Prop :=
  stackTop d a.vector - 176 ≤ x ∧ x < stackTop d a.vector

/-- The entries in progress, the newest first. Between two entries the kernel runs, which leaves the
tables and the frames alone. -/
inductive Nested (d : TableImage) (calls : List TableCall) : List Activation → Cpu → Prop
  | start {s : Cpu} (h : Tabled d calls s) : Nested d calls [] s
  | run {l : List Activation} {s t : Cpu} (h : Nested d calls l s)
      (hkept : ∀ x, d.Table x ∨ (∃ a ∈ l, a.Covers d x) → t.ram x = s.ram x) : Nested d calls l t
  | enter {l : List Activation} {s t : Cpu} {vector : ℕ} {cause : Cause} (returnTo : BitVec 64)
      (h : Nested d calls l s) (hv : Settled calls vector) (hexpected : Expected cause vector)
      (ht : deliver d.loaded cause vector s = some t) :
      Nested d calls (⟨vector, Cause.reported cause vector, s⟩ :: l) (entryCode returnTo vector t)

theorem readInterruptFrame_congr {m m' : Memory} {a : BitVec 64} (hroom : a.toNat + 176 ≤ 2 ^ 64)
    (h : ∀ x, a.toNat ≤ x → x < a.toNat + 176 → m' x = m x) {frame frame' : InterruptFrame}
    (hframe : frame = readInterruptFrame m a) (hframe' : frame' = readInterruptFrame m' a)
    (hs : Reports frame vector error s) : Reports frame' vector error s := by
  subst hframe hframe'
  have hfield : ∀ offset, offset + 8 ≤ 176 → field m' a offset = field m a offset := by
    intro offset hoffset
    have hplace : (a + BitVec.ofNat 64 offset).toNat = a.toNat + offset := by
      rw [BitVec.toNat_add, BitVec.toNat_ofNat, Nat.mod_eq_of_lt (show offset < 2 ^ 64 by omega),
        Nat.mod_eq_of_lt (by omega)]
    rw [field, field, hplace]
    exact load64_congr fun i hi => h _ (by omega) (by omega)
  constructor
  · intro k r hr
    rw [← hs.registers k r hr]
    have hk : k < 15 := (List.getElem?_eq_some_iff.mp hr).1
    exact hfield (8 * k) (by omega)
  · exact (hfield 120 (by decide)).trans hs.vector
  · exact (hfield 128 (by decide)).trans hs.error
  · exact (hfield 136 (by decide)).trans hs.rip
  · exact (hfield 144 (by decide)).trans hs.cs
  · exact (hfield 152 (by decide)).trans hs.rflags
  · exact (hfield 160 (by decide)).trans hs.rsp
  · exact (hfield 168 (by decide)).trans hs.ss

theorem stackTop_cases (hd : d.Linked) (v : ℕ) :
    stackOf v = 2 ∧ stackTop d v = d.doubleFaultStack + 16384 ∨
      stackOf v = 3 ∧ stackTop d v = d.irqStack + 32768 ∨
      stackOf v = 1 ∧ stackTop d v = d.exceptionStack + 32768 := by
  obtain ⟨-, hv⟩ := stackTop_eq hd v
  rw [hv]
  unfold stackOf
  by_cases hdouble : v = 8
  · exact .inl ⟨if_pos hdouble, by rw [if_pos hdouble, if_pos rfl]⟩
  · rw [if_neg hdouble]
    by_cases hirq : 32 ≤ v ∧ v < 48
    · exact .inr (.inl ⟨if_pos hirq, by rw [if_pos hirq]; rfl⟩)
    · exact .inr (.inr ⟨if_neg hirq, by rw [if_neg hirq]; rfl⟩)

theorem stackTop_apart (hd : d.Linked) {v w : ℕ} (hne : stackOf v ≠ stackOf w) :
    stackTop d v ≤ stackTop d w - 16384 ∨ stackTop d w ≤ stackTop d v - 16384 := by
  have hapart := hd.apart
  simp only [TableImage.statics, List.pairwise_cons, List.mem_cons, forall_eq_or_imp] at hapart
  obtain ⟨-, -, -, ⟨hdouble, hirq, -⟩, ⟨hboth, -⟩, -⟩ := hapart
  rcases stackTop_cases hd v with ⟨hv, htop⟩ | ⟨hv, htop⟩ | ⟨hv, htop⟩ <;>
    rcases stackTop_cases hd w with ⟨hw, htop'⟩ | ⟨hw, htop'⟩ | ⟨hw, htop'⟩ <;>
    first | exact absurd (hv.trans hw.symm) hne | (rw [htop, htop']; clear htop htop'; omega)

theorem stack_outside_tables (hd : d.Linked) (v : ℕ) {x : ℕ} (hx : d.Table x) :
    x < stackTop d v - 16384 ∨ stackTop d v ≤ x := by
  have hapart := hd.apart
  simp only [TableImage.statics, List.pairwise_cons, List.mem_cons, forall_eq_or_imp] at hapart
  obtain ⟨⟨-, -, hidt, hidt', hidt'', -⟩, ⟨-, htss, htss', htss'', -⟩, ⟨hgdt, hgdt', hgdt'', -⟩, -⟩ := hapart
  rw [TableImage.Table] at hx
  rcases stackTop_cases hd v with ⟨-, htop⟩ | ⟨-, htop⟩ | ⟨-, htop⟩
  · clear hidt hidt'' htss htss'' hgdt hgdt''
    omega
  · clear hidt hidt' htss htss' hgdt hgdt'
    omega
  · clear hidt' hidt'' htss' htss'' hgdt' hgdt''
    omega

theorem frameAddress_iff (hd : d.Linked) (v w : ℕ) :
    frameAddress d v = frameAddress d w ↔ stackOf v = stackOf w := by
  constructor
  · intro heq
    by_contra hne
    have hnat := congrArg BitVec.toNat heq
    rw [frameAddress_toNat, frameAddress_toNat] at hnat
    have hv := stackTop_room hd v
    have hw := stackTop_room hd w
    have hapart := stackTop_apart hd hne
    omega
  · intro heq
    rw [frameAddress, frameAddress, stackTop, stackTop, heq]

/-- Over every sequence of entries and kernel code the tables stay what they are, and as long as no
interrupt stack is entered twice every entry in progress keeps its frame: a device interrupt the
exception in its handler, and both the double fault behind that. Two entries on one stack, on the
other hand, put their frames at one address. -/
theorem nested_frames (hd : d.Linked) {calls : List TableCall} (hcalls : ∀ c ∈ calls, c.Later)
    {l : List Activation} (h : Nested d calls l s) :
    Tabled d calls s ∧
      ((l.map fun a => stackOf a.vector).Nodup → ∀ a ∈ l,
        Reports (readInterruptFrame s.ram (frameAddress d a.vector)) (label a.vector) a.error
          a.interrupted) ∧
      ∀ a ∈ l, ∀ b ∈ l, frameAddress d a.vector = frameAddress d b.vector ↔
        stackOf a.vector = stackOf b.vector := by
  refine (?_ : _ ∧ _ ∧ _)
  induction h with
  | start hs => exact ⟨hs, fun _ a ha => absurd ha List.not_mem_nil, fun a ha => absurd ha List.not_mem_nil⟩
  | @run l s t _ hkept ih =>
    obtain ⟨htabled, hframes, haddress⟩ := ih
    refine ⟨htabled.of_tables fun x hx => hkept x (.inl hx), fun hnodup a ha => ?_, haddress⟩
    have hroom := stackTop_room hd a.vector
    have hlt : stackTop d a.vector < 2 ^ 64 := BitVec.isLt _
    have hplace := frameAddress_toNat d a.vector
    apply readInterruptFrame_congr (by omega) _ rfl rfl (hframes hnodup a ha)
    intro x hlow hhigh
    refine hkept x (.inr ⟨a, ha, ?_, ?_⟩)
    · omega
    · omega
  | @enter l s t vector cause returnTo _ hv hexpected ht ih =>
    obtain ⟨htabled, hframes, -⟩ := ih
    have hentered := (settled_entered hd hcalls htabled hv returnTo hexpected ht).2
    refine ⟨htabled.of_tables fun x hx => ?_, fun hnodup a ha => ?_,
      fun a _ b _ => frameAddress_iff hd a.vector b.vector⟩
    · have houtside := stack_outside_tables hd vector hx
      exact hentered.outside x (by omega)
    · rw [List.map_cons, List.nodup_cons] at hnodup
      rcases List.mem_cons.mp ha with rfl | ha
      · rw [← hentered.address]
        exact hentered.frame
      · have hne : stackOf a.vector ≠ stackOf vector := by
          intro heq
          exact hnodup.1 (List.mem_map.mpr ⟨a, ha, heq⟩)
        have hapart := stackTop_apart hd hne
        have hroom := stackTop_room hd a.vector
        have hroom' := stackTop_room hd vector
        have hlt : stackTop d a.vector < 2 ^ 64 := BitVec.isLt _
        have hplace := frameAddress_toNat d a.vector
        apply readInterruptFrame_congr (by omega) _ rfl rfl (hframes hnodup.2 a ha)
        intro x hlow hhigh
        exact hentered.outside x (by omega)

end Entries

/-- A page fault with an error code, taken in the middle of anything. -/
theorem entry_reported_sample : ∃ t c : Cpu,
    deliver sampleTables.loaded (.hardware 5) 14 (userCaller t.ram) ≠ none ∧
      (readInterruptFrame c.ram (c.reg .rdi)).error = 5 := by
  obtain ⟨m, hm⟩ := exists_holds sampleTables_linked (fun c hc => (sampleCalls_later c hc).allowed)
    fun _ => 0xff
  have htabled : Tabled sampleTables sampleCalls (userCaller m) := hm
  have hsettled : Settled sampleCalls 14 := ⟨by decide, .inl (by decide)⟩
  obtain ⟨hdelivered, hentered⟩ := entry_reported sampleTables_linked sampleCalls_later htabled hsettled 0
  obtain ⟨t, ht⟩ := Option.isSome_iff_exists.mp (hdelivered 5)
  refine ⟨userCaller m, entryCode 0 14 t, ?_, (hentered _ t (by decide) ht).2.frame.error⟩
  rw [show (userCaller m).ram = m from rfl, ht]
  exact Option.some_ne_none t

/-- A timer interrupt, a page fault in its handler and a double fault behind that. -/
theorem nested_frames_sample : ∃ l s, Nested sampleTables sampleCalls l s ∧ l.length = 3 ∧
    ∀ a ∈ l, Reports (readInterruptFrame s.ram (frameAddress sampleTables a.vector)) (label a.vector)
      a.error a.interrupted := by
  obtain ⟨m, hm⟩ := exists_holds sampleTables_linked (fun c hc => (sampleCalls_later c hc).allowed)
    fun _ => 0xff
  have hstart : Nested sampleTables sampleCalls [] (userCaller m) := .start hm
  have hsettled : ∀ v, v < 0x80 → Settled sampleCalls v := fun v hv => ⟨by omega, .inl (by omega)⟩
  have henter : ∀ l s v, Nested sampleTables sampleCalls l s → v < 0x80 → ∃ t,
      Nested sampleTables sampleCalls (⟨v, Cause.reported (.hardware 5) v, s⟩ :: l) t := by
    intro l s v hl hv
    obtain ⟨htabled, -⟩ := nested_frames sampleTables_linked sampleCalls_later hl
    obtain ⟨t, ht⟩ := Option.isSome_iff_exists.mp
      (hardware_delivered sampleCalls_later htabled (hsettled v hv) 5)
    exact ⟨_, hl.enter 0 (hsettled v hv) nofun ht⟩
  obtain ⟨s₁, h₁⟩ := henter _ _ 32 hstart (by decide)
  obtain ⟨s₂, h₂⟩ := henter _ _ 14 h₁ (by decide)
  obtain ⟨s₃, h₃⟩ := henter _ _ 8 h₂ (by decide)
  obtain ⟨-, hframes, -⟩ := nested_frames sampleTables_linked sampleCalls_later h₃
  have hnodup : ([8, 14, 32].map stackOf).Nodup := by decide
  exact ⟨_, s₃, h₃, rfl, hframes hnodup⟩

end MikoOS.Entry
