import MikoOS.EntryCode
import MikoOS.SystemCalls

/-!
# The SYSENTER entry

`syscall.S` around a dispatcher that is known to obey the C ABI only, behind the check of the return
context it starts with. The user program may leave anything in its registers, and anything may happen
between two calls except to the registers SYSENTER loads from.
-/

namespace MikoOS.Entry

open ByteMemory PageWalk Rust X86 Cpu UserMode

/-- The register file as `Frame` names it. -/
def userFrame (s : Cpu) : Frame where
  r15 := s.reg .r15
  r14 := s.reg .r14
  r13 := s.reg .r13
  r12 := s.reg .r12
  r11 := s.reg .r11
  r10 := s.reg .r10
  r9 := s.reg .r9
  r8 := s.reg .r8
  rsi := s.reg .rsi
  rdi := s.reg .rdi
  rbp := s.reg .rbp
  rdx := s.reg .rdx
  rcx := s.reg .rcx
  rbx := s.reg .rbx
  rax := s.reg .rax

/-- The frame that a reference at `a` stands for. -/
def readFrame (ram : Memory) (a : BitVec 64) : Frame where
  r15 := field ram a 0
  r14 := field ram a 8
  r13 := field ram a 16
  r12 := field ram a 24
  r11 := field ram a 32
  r10 := field ram a 40
  r9 := field ram a 48
  r8 := field ram a 56
  rsi := field ram a 64
  rdi := field ram a 72
  rbp := field ram a 80
  rdx := field ram a 88
  rcx := field ram a 96
  rbx := field ram a 104
  rax := field ram a 112

def ax (s : Cpu) : BitVec 16 := (s.reg .rax).setWidth 16

/-- The moves to the segment registers on the way in. -/
def kernelSegments (s : Cpu) : Cpu :=
  let s := s.setLow .rax 0x10
  let s := { s with ds := ax s, es := ax s }
  let s := s.clearLow .rax
  { s with fs := ax s, gs := ax s }

/-- The moves to the segment registers on the way out. -/
def userSegments (s : Cpu) : Cpu :=
  let s := s.setLow .rax 0x33
  { s with ds := ax s, es := ax s }

/-- `system_call_entry` up to its call of `system_call_dispatch`. -/
def systemCallPrologue (returnTo : BitVec 64) (s : Cpu) : Cpu :=
  anchoredCall returnTo (kernelSegments (saveRegisters s.cld))

/-- `system_call_entry` after the call. -/
def systemCallEpilogue (s : Cpu) : Option Cpu :=
  let s := anchorBack s
  let s := s.store (s.reg .rsp + 112) (s.reg .rax)
  let s := userSegments s
  let s := (s.push 2).popFlags
  (restoreRegisters s).sysexit

def systemCallEntry (dispatch : Cpu → Option Cpu) (returnTo : BitVec 64) (s : Cpu) : Option Cpu := do
  let called := systemCallPrologue returnTo s
  systemCallEpilogue (called.within (← dispatch called))

/-- From SYSENTER to SYSEXIT. -/
def systemCall (dispatch : Cpu → Option Cpu) (returnTo : BitVec 64) (s : Cpu) : Option Cpu := do
  systemCallEntry dispatch returnTo (← s.sysenter)

/-- `system_call_dispatch` in a kernel state: past the check of the frame RDI points to, `service`. -/
def checkedDispatch (p : Profile) (u : UserImage) (x : Session) (service : Cpu → Option Cpu)
    (s : Cpu) : Option Cpu :=
  match (validSyscall p u (s.reg .rdi).toNat (readFrame s.ram (s.reg .rdi))).run ⟨x, [], []⟩ with
  | .ok true _ => service s
  | _ => none

def callWords (s : Cpu) : List (BitVec 64) := restoredRegisters.map s.reg

section Entry

variable {s t : Cpu} {top returnTo : BitVec 64}

/-- What `enable` has put into the SYSENTER registers. -/
structure Entering (top : BitVec 64) (s : Cpu) : Prop where
  cs : s.sysenterCs = 8
  esp : s.sysenterEsp = top

def entered (s : Cpu) : Cpu :=
  { s.set .rsp s.sysenterEsp with
    rip := s.sysenterEip
    cs := 8
    ss := 0x10
    flags := s.flags &&& ~~~(interruptFlag ||| virtualFlag) }

theorem sysenter_eq (h : Entering top s) : s.sysenter = some (entered s) := by
  unfold sysenter entered
  rw [h.cs, if_neg (by decide)]
  rfl

theorem kernelSegments_reg {r : Reg} (hr : r ≠ .rax) : (kernelSegments s).reg r = s.reg r := by
  change Function.update (Function.update s.reg .rax _) .rax _ r = s.reg r
  rw [Function.update_of_ne hr, Function.update_of_ne hr]

theorem kernelSegments_direction (h : s.flags &&& directionFlag = 0) :
    (kernelSegments s).flags &&& directionFlag = 0 := by
  change withArithmetic s.flags _ &&& directionFlag = 0
  rw [withArithmetic_and (by decide), h]

theorem entered_saved_stack (htop : Aligned top) (h : Entering top s) :
    (saveRegisters (entered s).cld).Stack (callWords s) := by
  have hnil : (entered s).cld.Stack [] := by
    apply stack_nil
    change Aligned (Function.update s.reg .rsp s.sysenterEsp .rsp)
    rw [Function.update_self, h.esp]
    exact htop
  have hsaved := saveRegisters_stack hnil (by simp)
  have hreg : restoredRegisters.map (entered s).cld.reg = restoredRegisters.map s.reg := by
    apply List.map_congr_left
    intro r hr
    have hne : r ≠ .rsp := by
      rintro rfl
      exact restored_no_rsp hr
    exact set_of_ne hne
  rw [hreg, List.append_nil] at hsaved
  exact hsaved

theorem kernelSegments_stack {ws : List (BitVec 64)} (h : s.Stack ws) :
    (kernelSegments s).Stack ws :=
  h.congr (kernelSegments_reg (by decide)) fun _ _ => rfl

theorem readFrame_of_stack (h : t.Stack (callWords s)) :
    readFrame t.ram (t.reg .rsp) = userFrame s := by
  have hword : ∀ k r, restoredRegisters[k]? = some r →
      field t.ram (t.reg .rsp) (8 * k) = s.reg r := by
    intro k r hr
    apply h.get k
    rw [callWords, List.getElem?_map, hr]
    rfl
  unfold readFrame userFrame
  rw [hword 0 .r15 rfl, hword 1 .r14 rfl, hword 2 .r13 rfl, hword 3 .r12 rfl, hword 4 .r11 rfl,
    hword 5 .r10 rfl, hword 6 .r9 rfl, hword 7 .r8 rfl, hword 8 .rsi rfl, hword 9 .rdi rfl,
    hword 10 .rbp rfl, hword 11 .rdx rfl, hword 12 .rcx rfl, hword 13 .rbx rfl, hword 14 .rax rfl]

end Entry

/-- User code continues as it asked to, with `v` as the answer. -/
structure Returned (s : Cpu) (v : BitVec 64) (t : Cpu) : Prop where
  rip : t.rip = s.reg .rdx
  rsp : t.reg .rsp = s.reg .rcx
  rax : t.reg .rax = v
  flags : t.flags = 2
  reg : ∀ r, r ≠ .rax → r ≠ .rsp → t.reg r = s.reg r
  cs : t.cs = 0x2b
  ss : t.ss = 0x33
  ds : t.ds = 0x33
  es : t.es = 0x33

section Exit

variable {s t : Cpu}

theorem callWords_set (s : Cpu) (v : BitVec 64) :
    (callWords s).set 14 v = restoredRegisters.map (Function.update s.reg .rax v) := rfl

theorem userSegments_reg {r : Reg} (hr : r ≠ .rax) : (userSegments s).reg r = s.reg r :=
  Function.update_of_ne hr ..

def exited (s : Cpu) : Cpu :=
  { s.set .rsp (s.reg .rcx) with
    rip := s.reg .rdx
    cs := 0x2b
    ss := 0x33 }

theorem exited_rsp : (exited s).reg .rsp = s.reg .rcx := Function.update_self Reg.rsp _ s.reg

theorem exited_reg {r : Reg} (hr : r ≠ .rsp) : (exited s).reg r = s.reg r :=
  Function.update_of_ne hr _ s.reg

theorem sysexit_eq (hcs : s.sysenterCs = 8) (hcpl : s.cs = 8) (hrdx : Canonical (s.reg .rdx).toNat)
    (hrcx : Canonical (s.reg .rcx).toNat) : s.sysexit = some (exited s) := by
  unfold sysexit exited
  rw [hcs, hcpl, if_pos ⟨by decide, by decide, hrdx, hrcx⟩]
  rfl

/-- A move to the low half word of RAX is what AX reads. -/
theorem ax_setLow (v : BitVec 16) (s : Cpu) : ax (s.setLow .rax v) = v := by
  unfold ax setLow
  rw [set_self]
  apply BitVec.eq_of_getLsbD_eq
  intro i hi
  simp [hi]

def beforeRestore (t : Cpu) : Cpu :=
  ((userSegments ((anchorBack t).store ((anchorBack t).reg .rsp + 112) (t.reg .rax))).push 2).popFlags

theorem systemCallEpilogue_eq :
    systemCallEpilogue t = (restoreRegisters (beforeRestore t)).sysexit := rfl

theorem beforeRestore_stack (h : (anchorBack t).Stack (callWords s)) :
    (beforeRestore t).Stack
      (restoredRegisters.map (Function.update s.reg .rax (t.reg .rax)) ++ []) := by
  have hset := h.set (i := 14) (v := t.reg .rax) (by simp [callWords, restoredRegisters])
    (by simp [callWords, restoredRegisters])
  have hsegments : (userSegments ((anchorBack t).store ((anchorBack t).reg .rsp + 112)
      (t.reg .rax))).Stack (callWords s |>.set 14 (t.reg .rax)) :=
    hset.congr (userSegments_reg (by decide)) fun _ _ => rfl
  rw [callWords_set] at hsegments
  rw [List.append_nil]
  exact hsegments.push_popFlags (by simp [restoredRegisters])

theorem beforeRestore_ds : (beforeRestore t).ds = 0x33 := ax_setLow 0x33 _

theorem beforeRestore_es : (beforeRestore t).es = 0x33 := ax_setLow 0x33 _

theorem beforeRestore_flags : (beforeRestore t).flags = 2 := push_popFlags_flags

theorem restored_eq (t : Cpu) : restoreRegisters t = { t with reg := (restoreRegisters t).reg } :=
  popRegs_eq _ t

theorem returned_of_exited {v : BitVec 64}
    (hreg : ∀ r ≠ .rsp, t.reg r = Function.update s.reg .rax v r) (hflags : t.flags = 2)
    (hds : t.ds = 0x33) (hes : t.es = 0x33) : Returned s v (exited t) where
  rip := by
    have hrdx := hreg .rdx (by decide)
    rwa [Function.update_of_ne (by decide)] at hrdx
  rsp := by
    have hrcx := hreg .rcx (by decide)
    rw [Function.update_of_ne (by decide)] at hrcx
    rw [exited_rsp, hrcx]
  rax := by
    rw [exited_reg (by decide), hreg .rax (by decide), Function.update_self]
  flags := hflags
  reg := by
    intro r hrax hrsp
    rw [exited_reg hrsp, hreg r hrsp, Function.update_of_ne hrax]
  cs := rfl
  ss := rfl
  ds := hds
  es := hes

/-- From any state that still holds the frame, SYSEXIT returns with RAX replaced. -/
theorem systemCallEpilogue_returns (h : (anchorBack t).Stack (callWords s))
    (hsysenter : t.sysenterCs = 8) (hcs : t.cs = 8) (hrdx : Canonical (s.reg .rdx).toNat)
    (hrcx : Canonical (s.reg .rcx).toNat) :
    systemCallEpilogue t = some (exited (restoreRegisters (beforeRestore t))) ∧
      Returned s (t.reg .rax) (exited (restoreRegisters (beforeRestore t))) := by
  obtain ⟨-, hreg⟩ := restoreRegisters_stack (beforeRestore_stack h)
  have hrestored := restored_eq (beforeRestore t)
  have hbefore : (beforeRestore t).sysenterCs = 8 ∧ (beforeRestore t).cs = 8 := ⟨hsysenter, hcs⟩
  have hflags := beforeRestore_flags (t := t)
  have hds := beforeRestore_ds (t := t)
  have hes := beforeRestore_es (t := t)
  rw [systemCallEpilogue_eq]
  generalize beforeRestore t = w at hreg hrestored hbefore hflags hds hes ⊢
  have hvalue : ∀ r, r ≠ .rax → r ≠ .rsp → (restoreRegisters w).reg r = s.reg r := by
    intro r hrax hrsp
    rw [hreg r hrsp, Function.update_of_ne hrax]
  constructor
  · apply sysexit_eq
    · rw [hrestored]
      exact hbefore.1
    · rw [hrestored]
      exact hbefore.2
    · rwa [hvalue .rdx (by decide) (by decide)]
    · rwa [hvalue .rcx (by decide) (by decide)]
  · apply returned_of_exited hreg
    · rw [hrestored]
      exact hflags
    · rw [hrestored]
      exact hds
    · rw [hrestored]
      exact hes

end Exit

/-- Consecutive calls, each with its state at SYSENTER and after SYSEXIT. -/
inductive Calls (top : BitVec 64) (call : Cpu → Option Cpu) : List (Cpu × Cpu) → Prop
  | nil : Calls top call []
  | next (calls : List (Cpu × Cpu)) (s t : Cpu) : Calls top call calls → Entering top s →
      call s = some t → Calls top call (calls ++ [(s, t)])

section Call

variable {p : Profile} {u : UserImage} {x : Session} {service : Cpu → Option Cpu} {s d : Cpu}
  {top returnTo : BitVec 64}

/-- The state `system_call_dispatch` is called in. -/
def dispatched (returnTo : BitVec 64) (s : Cpu) : Cpu := systemCallPrologue returnTo (entered s)

theorem systemCall_eq (dispatch : Cpu → Option Cpu) (returnTo : BitVec 64) (h : Entering top s) :
    systemCall dispatch returnTo s = (dispatch (dispatched returnTo s)).bind fun d =>
      systemCallEpilogue ((dispatched returnTo s).within d) := by
  unfold systemCall
  rw [sysenter_eq h]
  rfl

theorem checkedDispatch_accepts (hu : u.Payload) (h : checkedDispatch p u x service s = some d) :
    service s = some d ∧ ValidReturn u (readFrame s.ram (s.reg .rdi)) := by
  unfold checkedDispatch at h
  rw [validSyscall_run p hu] at h
  by_cases haccepts : Accepts u x (s.reg .rdi).toNat (readFrame s.ram (s.reg .rdi))
  · rw [decide_eq_true haccepts] at h
    exact ⟨h, haccepts.2.2⟩
  · rw [decide_eq_false haccepts] at h
    cases h

theorem canonical_of_validReturn {f : Frame} (hu : u.Payload) (h : ValidReturn u f) :
    Canonical f.rdx.toNat ∧ Canonical f.rcx.toNat := by
  have hsize := hu.size_le
  unfold ValidReturn code stack stackTop at h
  unfold pageSize at hsize
  constructor <;> left <;> omega

/-- What the dispatcher finds, and where it leads when it returns. -/
theorem systemCall_step (p : Profile) (hu : u.Payload) (x : Session) (hservice : Callee 15 service)
    (returnTo : BitVec 64) (htop : Aligned top) (h : Entering top s) :
    (dispatched returnTo s).flags &&& directionFlag = 0 ∧
      ((dispatched returnTo s).reg .rsp + 8).toNat % 16 = 0 ∧
      readFrame (dispatched returnTo s).ram ((dispatched returnTo s).reg .rdi) = userFrame s ∧
      ∀ d, checkedDispatch p u x service (dispatched returnTo s) = some d →
        ValidReturn u (userFrame s) ∧
          ∃ t, systemCall (checkedDispatch p u x service) returnTo s = some t ∧
            Returned s (d.reg .rax) t := by
  have hsaved := kernelSegments_stack (entered_saved_stack htop h)
  have hdirection := kernelSegments_direction (saved_direction (entered s))
  have hcs : (kernelSegments (saveRegisters (entered s).cld)).cs = 8 ∧
      (kernelSegments (saveRegisters (entered s).cld)).sysenterCs = 8 := by
    rw [saveRegisters, pushRegs_eq]
    exact ⟨rfl, h.cs⟩
  have hcall := systemCall_eq (checkedDispatch p u x service) returnTo h
  unfold dispatched systemCallPrologue at hcall ⊢
  generalize kernelSegments (saveRegisters (entered s).cld) = w at hsaved hdirection hcs hcall ⊢
  have hframe : readFrame (anchoredCall returnTo w).ram ((anchoredCall returnTo w).reg .rdi) =
      userFrame s := by
    have hread := readFrame_of_stack (anchoredCall_stack returnTo hsaved (by
      simp [callWords, restoredRegisters]))
    rwa [anchorBack_ram, anchorBack_call_rsp] at hread
  refine ⟨anchoredCall_direction returnTo hdirection, anchoredCall_aligned, hframe, ?_⟩
  intro d hd
  obtain ⟨hservice', hvalid⟩ := checkedDispatch_accepts hu hd
  rw [hframe] at hvalid
  have hcanonical := canonical_of_validReturn hu hvalid
  have hstack : (anchorBack ((anchoredCall returnTo w).within d)).Stack (callWords s) := by
    have hd := anchored_stack hservice (by decide) hsaved (by simp [callWords, restoredRegisters])
      hdirection hservice'
    exact hd.congr rfl fun _ _ => rfl
  have hexit := systemCallEpilogue_returns hstack hcs.2 hcs.1 hcanonical.1 hcanonical.2
  refine ⟨hvalid, _, ?_, hexit.2⟩
  rw [hcall, hd]
  exact hexit.1

/-- Each call of a sequence has been answered by the dispatcher and returned to user code. -/
theorem calls_returned (hu : u.Payload) (hservice : Callee 15 service)
    (htop : Aligned top) {calls : List (Cpu × Cpu)}
    (h : Calls top (systemCall (checkedDispatch p u x service) returnTo) calls) :
    ∀ c ∈ calls, ∃ d, checkedDispatch p u x service (dispatched returnTo c.1) = some d ∧
      Returned c.1 (d.reg .rax) c.2 := by
  induction h with
  | nil => exact fun c hc => absurd hc List.not_mem_nil
  | next calls s t _ hs hcall ih =>
    intro c hc
    rcases List.mem_append.mp hc with hc | hc
    · exact ih c hc
    · obtain rfl := List.mem_singleton.mp hc
      obtain ⟨-, -, -, hreturns⟩ := systemCall_step p hu x hservice returnTo htop hs
      cases hd : checkedDispatch p u x service (dispatched returnTo s) with
      | none =>
        rw [systemCall_eq _ _ hs, hd] at hcall
        cases hcall
      | some d =>
        obtain ⟨-, t', ht', hreturned⟩ := hreturns d hd
        obtain rfl : t' = t := Option.some.inj (ht'.symm.trans hcall)
        exact ⟨d, rfl, hreturned⟩

/-- Every call finds its registers in the fields of their names, and a call that the dispatcher
answers with RAX returns to the RDX and RCX that were checked with nothing else changed, however many
calls came before. -/
theorem system_call_transparent (p : Profile) (u : UserImage) (hu : u.Payload) (x : Session)
    (service : Cpu → Option Cpu) (hservice : Callee 15 service) (returnTo top : BitVec 64)
    (htop : top.toNat % 16 = 0) :
    (∀ s, Entering top s → (dispatched returnTo s).flags &&& directionFlag = 0 ∧
        ((dispatched returnTo s).reg .rsp + 8).toNat % 16 = 0 ∧
        readFrame (dispatched returnTo s).ram ((dispatched returnTo s).reg .rdi) = userFrame s ∧
        ∀ d, checkedDispatch p u x service (dispatched returnTo s) = some d →
          ValidReturn u (userFrame s) ∧
            ∃ t, systemCall (checkedDispatch p u x service) returnTo s = some t ∧
              Returned s (d.reg .rax) t) ∧
      ∀ calls, Calls top (systemCall (checkedDispatch p u x service) returnTo) calls → ∀ c ∈ calls,
        ∃ d, checkedDispatch p u x service (dispatched returnTo c.1) = some d ∧
          Returned c.1 (d.reg .rax) c.2 := by
  have haligned : Aligned top := by
    rw [Aligned]
    omega
  constructor
  · intro s hs
    exact systemCall_step p hu x hservice returnTo haligned hs
  · intro calls hcalls
    exact calls_returned hu hservice haligned hcalls

end Call

/-- User code about to call, with DF and the arithmetic flags set. -/
def sampleCaller : Cpu where
  reg r := match r with
    | .rax => 1
    | .rdx => 0x800010
    | .rcx => 0x9ffff0
    | _ => 0x1234
  rip := 0x80000e
  flags := 0x447
  cs := 0x2b
  ss := 0x33
  ds := 0x33
  es := 0x33
  fs := 0
  gs := 0
  sysenterCs := 8
  sysenterEsp := 0xffff800000110000
  sysenterEip := 0xffff800000111100
  ram _ := 0

theorem sampleCaller_rdi : (dispatched 0x2000 sampleCaller).reg .rdi = 0xffff80000010ff88 := rfl

theorem system_call_transparent_sample : ∃ x t,
    systemCall (checkedDispatch .dev sampleUser x sampleDispatch) 0x2000 sampleCaller = some t ∧
      Returned sampleCaller 5 t := by
  obtain ⟨run, x, hx⟩ := sample_active
  have htransparent := system_call_transparent .dev sampleUser sampleUser_payload x sampleDispatch
    (sampleDispatch_callee 15) 0x2000 0xffff800000110000 (by decide)
  obtain ⟨-, -, hframe, hreturns⟩ := htransparent.1 sampleCaller ⟨rfl, rfl⟩
  have haccepts : Accepts sampleUser x ((dispatched 0x2000 sampleCaller).reg .rdi).toNat
      (userFrame sampleCaller) := by
    rw [sampleCaller_rdi]
    exact (Active.accepts_iff (r := ⟨x, [], []⟩) hx).mpr
      (show ValidReturn sampleUser (userFrame sampleCaller) by decide)
  have hdispatch : checkedDispatch .dev sampleUser x sampleDispatch (dispatched 0x2000 sampleCaller) =
      sampleDispatch (dispatched 0x2000 sampleCaller) := by
    unfold checkedDispatch
    rw [hframe, validSyscall_run .dev sampleUser_payload, decide_eq_true haccepts]
  obtain ⟨-, t, ht, hreturned⟩ := hreturns _ hdispatch
  exact ⟨x, t, ht, hreturned⟩

end MikoOS.Entry
