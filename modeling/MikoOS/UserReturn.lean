import MikoOS.Noninterference

/-!
# The return from user mode

INT 0x80 and `user_return_entry`: the completion gate leads to the top of RETURN_STACK, and behind the
call of `user_return_dispatch` the stack pointer that `user_enter` left in its static takes the kernel
back to the suspended caller. The suspended words are out of reach of the user program, and the frames
of both entries and the handlers stay on RETURN_STACK.
-/

namespace MikoOS.UserMode

open Rust

theorem KernelData.sub {u : UserImage} {image : KernelImage} {a b n k : ℕ}
    (h : KernelData u image b n) (hlow : b ≤ a) (hhigh : a + k ≤ b + n) : KernelData u image a k := by
  obtain ⟨hstart, hend⟩ := h.inside
  constructor
  · omega
  · intro c hc
    have hapart := h.apart c hc
    omega

theorem satisfies_any {σ α : Type} (r : EStateM.Result Panic σ α) :
    Satisfies r (fun _ _ => True) fun _ _ => True := by
  cases r with
  | ok a t => exact satisfies_ok.mpr trivial
  | error e t => exact satisfies_error.mpr trivial

/-- The call of `user_enter` comes behind the installation of the gate. -/
theorem armProgram_gate (u : UserImage) (r : Demo) : Satisfies ((armProgram u).run r)
    (fun _ t => t.current.returnGate = some u.userReturnEntry) fun _ _ => True := by
  unfold armProgram
  rw [run_get_bind, run_bind_ok (run_writeQuad _ _ _)]
  apply (satisfies_any _).bind
  intro _ t _
  apply (satisfies_any _).bind
  intro _ t _
  rw [run_bind_ok (run_record_modify _ _), run_bind_ok (run_record_modify _ _)]
  exact satisfies_ok.mpr rfl

theorem launch_gate (p : Profile) (cpu : Cpuid) (u : UserImage) (r : Demo) :
    Satisfies ((launch p cpu u).run r)
      (fun _ t => t.current.returnGate = some u.userReturnEntry) fun _ _ => True := by
  unfold launch
  apply (satisfies_any _).bind
  intro run t _
  apply (satisfies_any _).bind
  intro _ t _
  apply (armProgram_gate u t).bind
  intro oldStack t ht
  exact satisfies_ok.mpr ht

end MikoOS.UserMode

namespace MikoOS.Entry

open ByteMemory PageWalk Rust X86 Cpu UserMode

/-- INT 0x80: the interrupt gate of the session, on RSP0 of the TSS. -/
def int80 (x : Session) (s : Cpu) : Option Cpu :=
  x.returnGate.map fun handler =>
    s.interrupt (BitVec.ofNat 64 x.kernelStack) (BitVec.ofNat 64 handler)

/-- The moves to all data segment registers. -/
def returnSegments (s : Cpu) : Cpu :=
  let s := s.setLow .rax 0x10
  { s with ss := ax s, ds := ax s, es := ax s, fs := ax s, gs := ax s }

/-- RDI takes RSP, which is then aligned, and the call pushes its return address. -/
def alignedCall (returnTo : BitVec 64) (s : Cpu) : Cpu :=
  let s := s.set .rdi (s.reg .rsp)
  let s := s.andImmediate .rsp (-16)
  s.push returnTo

/-- `user_return_entry` up to its call of `user_return_dispatch`. -/
def userReturnPrologue (returnTo : BitVec 64) (s : Cpu) : Cpu :=
  let s := s.cld
  let s := (s.push 0).push 0x80
  alignedCall returnTo (returnSegments (saveRegisters s))

/-- `user_return_entry` after the call. -/
def userReturnEpilogue (userKernelRsp : BitVec 64) (s : Cpu) : Cpu :=
  let s := s.set .rsp (load64 s.ram userKernelRsp.toNat)
  (popRegs [.r15, .r14, .r13, .r12, .rbx, .rbp] s).ret

def userReturnEntry (dispatch : Cpu → Option Cpu) (userKernelRsp returnTo : BitVec 64) (s : Cpu) :
    Option Cpu := do
  let called := userReturnPrologue returnTo s
  return userReturnEpilogue userKernelRsp (called.within (← dispatch called))

/-- Compiled code stores to RETURN_STACK, which it does not overflow, and to data of its own. -/
def Confined (u : UserImage) (own : ℕ → Prop) (dispatch : Cpu → Option Cpu) : Prop :=
  ∀ c d, Called c → dispatch c = some d → ∀ a, d.ram a ≠ c.ram a →
    u.returnStack ≤ a ∧ a < u.returnStack + returnStackSize ∨ own a

/-- A system call whose dispatcher is confined. -/
def HandledCall (p : Profile) (u : UserImage) (own : ℕ → Prop) (run : PageRun) (x : Session)
    (s t : Cpu) : Prop :=
  ∃ dispatch returnTo, Serves p u run x dispatch ∧ Confined u own dispatch ∧
    systemCall dispatch returnTo s = some t

/-- A user program and its system calls. -/
inductive HandledRun (p : Profile) (u : UserImage) (own : ℕ → Prop) (run : PageRun) (x : Session)
    (first : Cpu) : Cpu → Prop
  | start : HandledRun p u own run x first first
  | call (c s t : Cpu) : HandledRun p u own run x first c → UserPhase x c s →
      HandledCall p u own run x s t → HandledRun p u own run x first t

/-- Compiled code for `user_return_dispatch`: DF is clear when it returns. -/
structure Completes (u : UserImage) (own : ℕ → Prop) (dispatch : Cpu → Option Cpu) : Prop where
  confined : Confined u own dispatch
  direction : ∀ c d, Called c → dispatch c = some d → d.flags &&& directionFlag = 0

namespace Demonstration

variable {image : KernelImage} {u : UserImage}

/-- The words of the suspended caller: the registers and the return address, and the static. -/
def Suspended (d : Demonstration image u) (a : ℕ) : Prop :=
  (d.cpu.reg .rsp).toNat - 48 ≤ a ∧ a < (d.cpu.reg .rsp).toNat + 8 ∨
    d.userKernelRsp.toNat ≤ a ∧ a < d.userKernelRsp.toNat + 8

/-- How the suspended words lie: the boot stack, the static, RETURN_STACK and the data of the
handlers are different objects. -/
structure Placed (d : Demonstration image u) (own : ℕ → Prop) : Prop where
  aligned : Aligned (d.cpu.reg .rsp)
  returnAddress : KernelData u image (d.cpu.reg .rsp).toNat 8
  static : d.userKernelRsp.toNat + 8 ≤ (d.cpu.reg .rsp).toNat - 56 ∨
    (d.cpu.reg .rsp).toNat + 8 ≤ d.userKernelRsp.toNat
  returnStack : ∀ a, d.Suspended a → a < u.returnStack ∨ u.returnStack + returnStackSize ≤ a
  own : ∀ a, own a → ¬d.Suspended a

end Demonstration

/-- `t` is back behind the call that `s` is at the target of, with the value `v`. -/
structure Resumed (s : Cpu) (v : BitVec 64) (t : Cpu) : Prop where
  rax : t.reg .rax = v
  rip : t.rip = load64 s.ram (s.reg .rsp).toNat
  rsp : t.reg .rsp = s.reg .rsp + 8
  reg : ∀ r ∈ calleeSaved, t.reg r = s.reg r
  direction : t.flags &&& directionFlag = 0
  cs : t.cs = 8

section Kept

variable {p : Profile} {u : UserImage} {image : KernelImage} {own : ℕ → Prop} {s₀ : MemoryDescriptor}
  {m : Memory} {run : PageRun} {x : Session} {s t first : Cpu} {dispatch : Cpu → Option Cpu} {a : ℕ}

/-- The suspended words are kernel data. -/
theorem Demonstration.Placed.kernelData {d : Demonstration image u} (hplaced : d.Placed own)
    (ha : d.Suspended a) : KernelData u image a 1 := by
  rcases ha with ⟨hlow, hhigh⟩ | ⟨hlow, hhigh⟩
  · by_cases hbelow : a < (d.cpu.reg .rsp).toNat
    · have hstart := d.kernelStack.inside.1
      exact d.kernelStack.sub (by omega) (by omega)
    · exact hplaced.returnAddress.sub (by omega) (by omega)
  · exact d.kept.sub hlow (by omega)

/-- User code does not reach kernel data. -/
theorem userPhase_kept (himage : image.Linked) (hu : u.Linked image) (hrun : Backs image run)
    (hs : SetUp u s₀ run x s) (h : UserPhase x s t) (ha : KernelData u image a 1) :
    t.ram a = s.ram a := by
  by_contra hne
  have hstart := ha.inside.1
  have htext := himage.text
  obtain ⟨y, rfl⟩ : ∃ y, a = pageOffset + y := by
    refine ⟨a - pageOffset, ?_⟩
    unfold pageOffset
    omega
  obtain ⟨v, tr, hv, htranslation, -, hphysical⟩ := h.stores y hne
  rw [hs.mapped.window himage hu hrun hv] at htranslation
  have hguarded : Guarded u run y := by
    rw [← hphysical]
    exact Or.inr (window_inside htranslation)
  have hout := ha.outside himage hrun hguarded
  omega

/-- What lies outside RETURN_STACK and belongs to no handler. -/
def Spared (u : UserImage) (own : ℕ → Prop) (a : ℕ) : Prop :=
  (a < u.returnStack ∨ u.returnStack + returnStackSize ≤ a) ∧ ¬own a

theorem Confined.spares (h : Confined u own dispatch) {c e : Cpu} (hc : Called c)
    (he : dispatch c = some e) (ha : Spared u own a) : e.ram a = c.ram a := by
  by_contra hne
  obtain ⟨hout, hown⟩ := ha
  rcases h c e hc he a hne with hinside | hself
  · omega
  · exact hown hself

/-- A system call writes to RETURN_STACK and to the data of the dispatcher. -/
theorem handledCall_kept (hinside : u.Inside image)
    (hx : Launched u image s₀ m run x) (hs : SetUp u s₀ run x s) (h : HandledCall p u own run x s t)
    (ha : Spared u own a) : t.ram a = s.ram a := by
  obtain ⟨dispatch, returnTo, hserves, hconfined, ht⟩ := h
  obtain ⟨e, he, hepilogue⟩ := systemCall_some hs.entering ht
  have htop := top_toNat hinside.payload
  have hsize : returnStackSize = 32768 := rfl
  have hout := ha.1
  obtain ⟨hdirection, hcall, -⟩ := systemCall_step p hinside.payload
    (x.seen (dispatched returnTo s)) hserves.callee returnTo (top_aligned hinside hx) hs.entering
  obtain ⟨-, -, -, hrbx, -⟩ := dispatched_system returnTo hs.entering (by omega)
  have hway : (dispatched returnTo s).ram a = s.ram a :=
    dispatched_outside hs.entering (by omega) (by omega)
  generalize dispatched returnTo s = c at *
  have hword : ((c.within e).reg .rbx).toNat = u.returnStack + returnStackSize - 120 := by
    change (e.reg .rbx).toNat = _
    rw [hserves.callee.rbx c e hdirection hcall he, hrbx, htop]
  obtain ⟨-, -, -, -, hback⟩ := systemCallEpilogue_some hepilogue
  calc
    t.ram a = e.ram a := hback a (by omega) (by omega) (by omega)
    _ = c.ram a := hconfined.spares ⟨hdirection, hcall⟩ he ha
    _ = s.ram a := hway

/-- A whole run keeps spared kernel data. -/
theorem handledRun_kept (himage : image.Linked) (hu : u.Linked image) (hinside : u.Inside image)
    (hx : Launched u image s₀ m run x) (hfirst : SetUp u s₀ run x first)
    (h : HandledRun p u own run x first t) :
    SetUp u s₀ run x t ∧ ∀ a, KernelData u image a 1 → Spared u own a → t.ram a = first.ram a := by
  induction h with
  | start => exact ⟨hfirst, fun _ _ _ => rfl⟩
  | call c s t _ hphase hcall ih =>
    obtain ⟨hc, hkept⟩ := ih
    have hs := hphase.setUp himage hu hx.backs hc
    constructor
    · obtain ⟨dispatch, returnTo, hserves, -, ht⟩ := hcall
      exact (systemCall_run himage hu hinside hx hs ⟨dispatch, returnTo, hserves, ht⟩).1
    · intro a ha hspared
      rw [handledCall_kept hinside hx hs hcall hspared,
        userPhase_kept himage hu hx.backs hc hphase ha, hkept a ha hspared]

end Kept

section Frames

variable {s w : Cpu} {base handler returnTo : BitVec 64} {a : ℕ}

theorem interrupt_rsp (hroom : 40 ≤ base.toNat) :
    ((s.interrupt base handler).reg .rsp).toNat = base.toNat - 40 := by
  have hforty : (40 : BitVec 64).toNat = 40 := rfl
  have hrsp : (s.interrupt base handler).reg .rsp = base - 40 := by
    change Cpu.reg (Cpu.push s.rip (Cpu.push (s.cs.setWidth 64) (Cpu.push s.flags
      (Cpu.push (s.reg .rsp) (Cpu.push (s.ss.setWidth 64) (s.set .rsp base)))))) .rsp = base - 40
    rw [push_rsp, push_rsp, push_rsp, push_rsp, push_rsp, set_self]
    simp only [BitVec.sub_sub]
    rfl
  rw [hrsp, BitVec.toNat_sub_of_le (BitVec.le_def.mpr (by omega)), hforty]

theorem interrupt_outside (hroom : 40 ≤ base.toNat) (ha : a + 40 < base.toNat ∨ base.toNat ≤ a) :
    (s.interrupt base handler).ram a = s.ram a := by
  have h₀ : ((s.set .rsp base).reg .rsp).toNat = base.toNat := by rw [set_self]
  have h₁ := push_rsp_toNat (v := s.ss.setWidth 64) (s := s.set .rsp base) (by omega)
  have h₂ := push_rsp_toNat (v := s.reg .rsp) (s := (s.set .rsp base).push (s.ss.setWidth 64)) (by omega)
  have h₃ := push_rsp_toNat (v := s.flags)
    (s := ((s.set .rsp base).push (s.ss.setWidth 64)).push (s.reg .rsp)) (by omega)
  have h₄ := push_rsp_toNat (v := s.cs.setWidth 64)
    (s := (((s.set .rsp base).push (s.ss.setWidth 64)).push (s.reg .rsp)).push s.flags) (by omega)
  change Cpu.ram (Cpu.push s.rip (Cpu.push (s.cs.setWidth 64) (Cpu.push s.flags
    (Cpu.push (s.reg .rsp) (Cpu.push (s.ss.setWidth 64) (s.set .rsp base)))))) a = s.ram a
  rw [push_outside (by omega) (by omega), push_outside (by omega) (by omega),
    push_outside (by omega) (by omega), push_outside (by omega) (by omega),
    push_outside (by omega) (by omega)]
  rfl

/-- The state with the whole frame of INT 0x80. -/
def framed (s : Cpu) : Cpu := saveRegisters (irqEntry 0x80 s).cld

theorem framed_rsp (hroom : 136 ≤ (s.reg .rsp).toNat) :
    ((framed s).reg .rsp).toNat = (s.reg .rsp).toNat - 136 := by
  have hlength : BitVec.ofNat 64 (8 * savedRegisters.length) = 120 := rfl
  have hvalue : (120 : BitVec 64).toNat = 120 := rfl
  have h₁ := push_rsp_toNat (v := 0) (s := s) (by omega)
  have h₂ := push_rsp_toNat (v := BitVec.ofNat 64 0x80) (s := s.push 0) (by omega)
  have hrsp : (framed s).reg .rsp = ((s.push 0).push (BitVec.ofNat 64 0x80)).reg .rsp - 120 := by
    rw [framed, saveRegisters, pushRegs_rsp, hlength]
    rfl
  rw [hrsp, BitVec.toNat_sub_of_le (BitVec.le_def.mpr (by omega)), hvalue]
  omega

theorem framed_outside (hroom : 136 ≤ (s.reg .rsp).toNat)
    (ha : a + 136 < (s.reg .rsp).toNat ∨ (s.reg .rsp).toNat ≤ a) : (framed s).ram a = s.ram a := by
  have hlength : savedRegisters.length = 15 := rfl
  have h₁ := push_rsp_toNat (v := 0) (s := s) (by omega)
  have h₂ := push_rsp_toNat (v := BitVec.ofNat 64 0x80) (s := s.push 0) (by omega)
  have hsaved : (framed s).ram a = ((s.push 0).push (BitVec.ofNat 64 0x80)).ram a := by
    apply pushRegs_outside
    · change 8 * savedRegisters.length ≤ (((s.push 0).push (BitVec.ofNat 64 0x80)).reg .rsp).toNat
      omega
    · change a + 8 * savedRegisters.length < (((s.push 0).push (BitVec.ofNat 64 0x80)).reg .rsp).toNat ∨
        (((s.push 0).push (BitVec.ofNat 64 0x80)).reg .rsp).toNat ≤ a
      omega
  rw [hsaved, push_outside (by omega) (by omega), push_outside (by omega) (by omega)]

theorem returnSegments_reg {r : Reg} (hr : r ≠ .rax) : (returnSegments s).reg r = s.reg r :=
  set_of_ne hr

theorem returnSegments_rest (s : Cpu) : (returnSegments s).ram = s.ram ∧
    (returnSegments s).flags = s.flags ∧ (returnSegments s).cs = s.cs := ⟨rfl, rfl, rfl⟩

theorem userReturnPrologue_eq (returnTo : BitVec 64) (s : Cpu) :
    userReturnPrologue returnTo s = alignedCall returnTo (returnSegments (framed s)) := rfl

/-- The call differs from an anchored one in RBX. -/
theorem alignedCall_anchored (returnTo : BitVec 64) (s : Cpu) :
    (alignedCall returnTo s).ram = (anchoredCall returnTo s).ram ∧
      (alignedCall returnTo s).flags = (anchoredCall returnTo s).flags ∧
      (alignedCall returnTo s).reg .rsp = (anchoredCall returnTo s).reg .rsp ∧
      (alignedCall returnTo s).reg .rdi = (anchoredCall returnTo s).reg .rdi ∧
      (alignedCall returnTo s).cs = s.cs := ⟨rfl, rfl, rfl, rfl, rfl⟩

theorem framed_cs (s : Cpu) : (framed s).cs = s.cs := by
  rw [framed, saveRegisters, pushRegs_eq]
  rfl

theorem userReturnPrologue_called (returnTo : BitVec 64) (s : Cpu) :
    Called (userReturnPrologue returnTo s) := by
  obtain ⟨-, hflags, hrsp, -⟩ := alignedCall_anchored returnTo (returnSegments (framed s))
  obtain ⟨-, hsegments, -⟩ := returnSegments_rest (framed s)
  have hdirection : (returnSegments (framed s)).flags &&& directionFlag = 0 := by
    rw [hsegments]
    exact saved_direction (irqEntry 0x80 s)
  rw [userReturnPrologue_eq]
  constructor
  · rw [hflags]
    exact anchoredCall_direction returnTo hdirection
  · rw [hrsp]
    exact anchoredCall_aligned

/-- The 160 bytes below the stack pointer take the frame and the return address. -/
theorem userReturnPrologue_outside (hroom : 160 ≤ (s.reg .rsp).toNat)
    (ha : a + 160 < (s.reg .rsp).toNat ∨ (s.reg .rsp).toNat ≤ a) :
    (userReturnPrologue returnTo s).ram a = s.ram a := by
  obtain ⟨hram, -⟩ := alignedCall_anchored returnTo (returnSegments (framed s))
  obtain ⟨hsegments, -⟩ := returnSegments_rest (framed s)
  have hrsp := framed_rsp (s := s) (by omega)
  have hcall := anchor_toNat (show 16 ≤ ((framed s).reg .rsp).toNat by omega)
  rw [userReturnPrologue_eq, hram, anchoredCall_ram, returnSegments_reg (by decide),
    store64_outside (by omega), hsegments]
  exact framed_outside (by omega) (by omega)

end Frames

section Back

variable {s w : Cpu} {k : BitVec 64} {a : ℕ}

theorem slot_toNat {b : BitVec 64} {i : ℕ} (h : b.toNat + 8 * i < 2 ^ 64) :
    (slot b i).toNat = b.toNat + 8 * i := by
  rw [slot, BitVec.toNat_add, BitVec.toNat_ofNat, Nat.mod_eq_of_lt (show 8 * i < 2 ^ 64 by omega),
    Nat.mod_eq_of_lt h]

/-- The words `user_enter` leaves on the stack of its caller. -/
def suspendedWords (s : Cpu) : List (BitVec 64) :=
  [.r15, .r14, .r13, .r12, .rbx, .rbp].map s.reg ++ [load64 s.ram (s.reg .rsp).toNat]

theorem calleeSaved_stack (haligned : Aligned (s.reg .rsp)) :
    (pushRegs calleeSaved s).Stack (suspendedWords s) := by
  have hreturn : s.Stack [load64 s.ram (s.reg .rsp).toNat] := by
    refine ⟨haligned, ?_⟩
    intro i w hw
    cases i with
    | zero =>
      rw [slot_zero]
      exact Option.some.inj hw
    | succ i => cases hw
  have hsmall : 8 * (6 + 1) < 2 ^ 64 := by decide
  exact hreturn.pushRegs (by decide) hsmall

theorem suspended_ram : (suspended k s).ram =
    store64 (pushRegs calleeSaved s).ram k.toNat (s.reg .rsp - 48) := by
  change store64 (pushRegs calleeSaved s).ram k.toNat ((pushRegs calleeSaved s).reg .rsp) = _
  rw [pushRegs_rsp]
  rfl

theorem base_toNat (hroom : 48 ≤ (s.reg .rsp).toNat) :
    (s.reg .rsp - 48).toNat = (s.reg .rsp).toNat - 48 := by
  have hvalue : (48 : BitVec 64).toNat = 48 := rfl
  rw [BitVec.toNat_sub_of_le (BitVec.le_def.mpr (by omega)), hvalue]

/-- The push of the flags lies below the suspended words. -/
theorem readied_above (hroom : 56 ≤ (s.reg .rsp).toNat)
    (ha : a + 56 < (s.reg .rsp).toNat ∨ (s.reg .rsp).toNat ≤ a + 48) :
    (readied k s).ram a = (suspended k s).ram a := by
  obtain ⟨-, -, -, hram⟩ := scrubbed_system (suspended k s)
  have hrsp : ((scrubbed (suspended k s)).reg .rsp).toNat = (s.reg .rsp).toNat - 48 := by
    rw [scrubbed_of_ne (by decide), suspended_rsp, base_toNat (by omega)]
  change ((scrubbed (suspended k s)).push 2).ram a = _
  rw [push_outside (by omega) (by omega), hram]

/-- Memory that still has the suspended words. -/
structure Holds (k : BitVec 64) (s : Cpu) (m : Memory) : Prop where
  static : load64 m k.toNat = s.reg .rsp - 48
  words : ∀ i v, (suspendedWords s)[i]? = some v →
    load64 m (slot (s.reg .rsp - 48) i).toNat = v

theorem readied_holds {m : Memory} (haligned : Aligned (s.reg .rsp))
    (hroom : 56 ≤ (s.reg .rsp).toNat) (hend : (s.reg .rsp).toNat + 8 < 2 ^ 64)
    (hstatic : k.toNat + 8 ≤ (s.reg .rsp).toNat - 56 ∨ (s.reg .rsp).toNat + 8 ≤ k.toNat)
    (hm : ∀ a, (s.reg .rsp).toNat - 48 ≤ a ∧ a < (s.reg .rsp).toNat + 8 ∨
      k.toNat ≤ a ∧ a < k.toNat + 8 → m a = (readied k s).ram a) : Holds k s m where
  static := by
    have hsame : load64 m k.toNat = load64 (suspended k s).ram k.toNat := by
      apply load64_congr
      intro j hj
      rw [hm _ (Or.inr ⟨by omega, by omega⟩), readied_above hroom (by omega)]
    rw [hsame, suspended_ram, load64_store64]
  words := by
    intro i v hv
    have hi : i < 7 := (List.getElem?_eq_some_iff.mp hv).1
    have hbase := base_toNat (s := s) (by omega)
    have hplace := slot_toNat (b := s.reg .rsp - 48) (i := i) (by omega)
    have hsaved := (calleeSaved_stack haligned).get i v hv
    have hrsp : (pushRegs calleeSaved s).reg .rsp = s.reg .rsp - 48 := by
      rw [pushRegs_rsp]
      rfl
    rw [hrsp] at hsaved
    rw [← hsaved]
    apply load64_congr
    intro j hj
    rw [hm _ (Or.inl ⟨by omega, by omega⟩), readied_above hroom (by omega), suspended_ram,
      store64_outside (by omega)]

/-- From memory that has the words, whatever the registers are. -/
theorem userReturnEpilogue_resumes (haligned : Aligned (s.reg .rsp)) (h : Holds k s w.ram)
    (hdirection : w.flags &&& directionFlag = 0) (hcs : w.cs = 8) :
    Resumed s (w.reg .rax) (userReturnEpilogue k w) ∧ (userReturnEpilogue k w).ram = w.ram := by
  obtain ⟨v, hv⟩ : ∃ v, v = w.set .rsp (load64 w.ram k.toNat) := ⟨_, rfl⟩
  have hrsp : v.reg .rsp = s.reg .rsp - 48 := by
    rw [hv, set_self, h.static]
  have hstack : v.Stack (suspendedWords s) := by
    constructor
    · have hbase : (pushRegs calleeSaved s).reg .rsp = s.reg .rsp - 48 := by
        rw [pushRegs_rsp]
        rfl
      rw [hrsp, ← hbase]
      exact (calleeSaved_stack haligned).aligned
    · intro i word hword
      rw [hrsp, hv]
      exact h.words i word hword
  have hno : Reg.rsp ∉ [.r15, .r14, .r13, .r12, .rbx, .rbp] := by decide
  obtain ⟨hreturn, hreg⟩ := hstack.popRegs hno
  have hpopped : (popRegs [.r15, .r14, .r13, .r12, .rbx, .rbp] v).reg .rsp = s.reg .rsp := by
    rw [popRegs_rsp hno, hrsp]
    exact BitVec.sub_add_cancel (s.reg .rsp) 48
  have hrest := popRegs_eq [.r15, .r14, .r13, .r12, .rbx, .rbp] v
  have hepilogue : userReturnEpilogue k w = (popRegs [.r15, .r14, .r13, .r12, .rbx, .rbp] v).ret := by
    rw [hv]
    rfl
  rw [hepilogue]
  generalize popRegs [.r15, .r14, .r13, .r12, .rbx, .rbp] v = y at *
  have hother : ∀ r ≠ .rsp, y.ret.reg r = y.reg r := fun r hr => set_of_ne hr
  constructor
  · exact {
      rax := by
        rw [hother _ (by decide), hreg .rax (by decide), if_neg (by decide), hv, set_of_ne (by decide)]
      rip := hreturn.top
      rsp := by
        change (y.set .rsp (y.reg .rsp + 8)).reg .rsp = _
        rw [set_self, hpopped]
      reg := by
        intro r hr
        have hne : r ≠ .rsp := by
          intro hsame
          rw [hsame] at hr
          exact absurd hr (by decide)
        have hmem : r ∈ [.r15, .r14, .r13, .r12, .rbx, .rbp] := by
          revert hr
          cases r <;> decide
        rw [hother r hne, hreg r hne, if_pos hmem]
      direction := by
        rw [hrest, hv]
        exact hdirection
      cs := by
        rw [hrest, hv]
        exact hcs }
  · rw [hrest, hv]
    rfl

end Back

section Return

variable {image : KernelImage} {u : UserImage} {own : ℕ → Prop} {d : Demonstration image u}

theorem Demonstration.gate (d : Demonstration image u) :
    d.session.returnGate = some u.userReturnEntry := by
  have hlaunch := launch_gate d.profile d.cpuid u ⟨d.before, [d.before]⟩
  rw [d.launched, satisfies_ok] at hlaunch
  exact hlaunch

/-- Suspended words are spared. -/
theorem Demonstration.Placed.spared (hplaced : d.Placed own) {a : ℕ} (ha : d.Suspended a) :
    Spared u own a :=
  ⟨hplaced.returnStack a ha, fun hown => hplaced.own a hown ha⟩

/-- At the first user instruction memory is what `user_enter` has left. -/
theorem Demonstration.first_ram {s₀ : MemoryDescriptor} (hx : Launched u image s₀ d.before.ram d.run d.session)
    {c : Cpu} (henter : userEnter d.userKernelRsp d.cpu = some c) :
    c.ram = (readied d.userKernelRsp d.cpu).ram := by
  have hcode : Canonical (d.cpu.reg .rdi).toNat := by
    rw [d.entry]
    decide
  have hstack : Canonical (d.cpu.reg .rsi).toNat := by
    rw [d.stackPointer]
    decide
  obtain ⟨hrun, -⟩ := userEnter_run d.userKernelRsp (d.sysenterCs.trans hx.sysenterCs) d.cs hcode hstack
  rw [henter, Option.some.injEq] at hrun
  rw [hrun]
  rfl

/-- The call shows `user_return_dispatch` the frame of the interrupted state. -/
theorem userReturn_describes {s : Cpu} {base : BitVec 64} (handler returnTo : BitVec 64)
    (hbase : Aligned base) :
    Describes (readInterruptFrame (userReturnPrologue returnTo (s.interrupt base handler)).ram
      ((userReturnPrologue returnTo (s.interrupt base handler)).reg .rdi)) 0x80 s := by
  obtain ⟨hram, -, -, hrdi, -⟩ :=
    alignedCall_anchored returnTo (returnSegments (framed (s.interrupt base handler)))
  have hframe : (framed (s.interrupt base handler)).Stack (frameWords 0x80 s) :=
    irq_saved_stack s handler 0x80 hbase
  obtain ⟨hsegments, -⟩ := returnSegments_rest (framed (s.interrupt base handler))
  have hmoved : (returnSegments (framed (s.interrupt base handler))).Stack (frameWords 0x80 s) := by
    apply hframe.congr
    · exact returnSegments_reg (by decide)
    · intro i _
      rw [hsegments]
  have hlength : (frameWords 0x80 s).length < 2 ^ 60 := by
    change 22 < 2 ^ 60
    decide
  have hdescribes := describes_of_stack (anchoredCall_stack returnTo hmoved hlength)
  rw [anchorBack_ram, anchorBack_call_rsp] at hdescribes
  rw [userReturnPrologue_eq, hram, hrdi]
  exact hdescribes

theorem userReturnPrologue_cs (returnTo : BitVec 64) (s : Cpu) :
    (userReturnPrologue returnTo s).cs = s.cs := by
  obtain ⟨-, -, -, -, hcs⟩ := alignedCall_anchored returnTo (returnSegments (framed s))
  obtain ⟨-, -, hsegments⟩ := returnSegments_rest (framed s)
  rw [userReturnPrologue_eq, hcs, hsegments, framed_cs]

theorem userReturnEntry_some {dispatch : Cpu → Option Cpu} {returnTo : BitVec 64} {s e : Cpu}
    (k : BitVec 64) (he : dispatch (userReturnPrologue returnTo s) = some e) :
    userReturnEntry dispatch k returnTo s =
      some (userReturnEpilogue k ((userReturnPrologue returnTo s).within e)) := by
  unfold userReturnEntry
  dsimp only
  rw [he]
  rfl

/-- The frame of INT 0x80 stays on RETURN_STACK. -/
theorem userReturn_spares {s : Cpu} (hinside : u.Inside image) (handler returnTo : BitVec 64) {a : ℕ}
    (ha : Spared u own a) :
    (userReturnPrologue returnTo
      (s.interrupt (BitVec.ofNat 64 (u.returnStack + returnStackSize)) handler)).ram a = s.ram a := by
  have htop := top_toNat hinside.payload
  have hsize : returnStackSize = 32768 := rfl
  have hout := ha.1
  have hrsp : ((s.interrupt (BitVec.ofNat 64 (u.returnStack + returnStackSize)) handler).reg .rsp).toNat =
      (BitVec.ofNat 64 (u.returnStack + returnStackSize)).toNat - 40 := interrupt_rsp (by omega)
  rw [userReturnPrologue_outside (by omega) (by omega), interrupt_outside (by omega) (by omega)]

/-- Whatever the user program has in its registers, its flags and its pages at INT 0x80, and however
many system calls it has made: `user_return_dispatch` is called with the frame of that state, and with
the value it returns `user_enter` returns to its caller; no suspended word has changed since the first
user instruction. -/
theorem user_return (image : KernelImage) (himage : image.Linked) (u : UserImage)
    (hu : u.Linked image) (hinside : u.Inside image) (own : ℕ → Prop) (d : Demonstration image u)
    (hplaced : d.Placed own) {c last s : Cpu} (henter : userEnter d.userKernelRsp d.cpu = some c)
    (hrun : HandledRun d.profile u own d.run d.session c last) (hphase : UserPhase d.session last s)
    {dispatch : Cpu → Option Cpu} (hdispatch : Completes u own dispatch) (returnTo : BitVec 64) :
    ∃ g, int80 d.session s = some g ∧ g.rip = BitVec.ofNat 64 u.userReturnEntry ∧
      let called := userReturnPrologue returnTo g
      Called called ∧ Describes (readInterruptFrame called.ram (called.reg .rdi)) 0x80 s ∧
      ∀ e, dispatch called = some e →
        ∃ t, userReturnEntry dispatch d.userKernelRsp returnTo g = some t ∧
          Resumed d.cpu (e.reg .rax) t ∧ ∀ a, d.Suspended a → t.ram a = c.ram a := by
  obtain ⟨s₀, hx⟩ := d.exists_launched himage hu hinside
  obtain ⟨c', henter', -, hsetup, -⟩ := d.enters himage hu hx
  obtain rfl : c' = c := Option.some.inj (henter'.symm.trans henter)
  obtain ⟨hlast, hkept⟩ := handledRun_kept himage hu hinside hx hsetup hrun
  have hfirst := d.first_ram hx henter
  -- up to the call of the dispatcher
  have hbefore : ∀ a, d.Suspended a → s.ram a = c'.ram a := by
    intro a ha
    have hdata := hplaced.kernelData ha
    rw [userPhase_kept himage hu hx.backs hlast hphase hdata, hkept a hdata (hplaced.spared ha)]
  refine ⟨s.interrupt (BitVec.ofNat 64 d.session.kernelStack) (BitVec.ofNat 64 u.userReturnEntry), ?_, rfl, ?_⟩
  · rw [int80, d.gate, Option.map_some]
  rw [hx.kernelStack]
  refine ⟨userReturnPrologue_called _ _, userReturn_describes _ _ (top_aligned hinside hx), ?_⟩
  intro e he
  have hcalled := userReturnPrologue_called returnTo
    (s.interrupt (BitVec.ofNat 64 (u.returnStack + returnStackSize)) (BitVec.ofNat 64 u.userReturnEntry))
  have hafter : ∀ a, d.Suspended a → e.ram a = c'.ram a := by
    intro a ha
    rw [hdispatch.confined.spares hcalled he (hplaced.spared ha),
      userReturn_spares hinside _ _ (hplaced.spared ha), hbefore a ha]
  have hdirection := hdispatch.direction _ _ hcalled he
  have hcs := userReturnPrologue_cs returnTo
    (s.interrupt (BitVec.ofNat 64 (u.returnStack + returnStackSize)) (BitVec.ofNat 64 u.userReturnEntry))
  have hroom := d.kernelStack.inside.1
  have htext := himage.text
  have hholds : Holds d.userKernelRsp d.cpu e.ram := by
    apply readied_holds hplaced.aligned (by omega)
    · have hend := hplaced.returnAddress.inside.2
      have hbelow := himage.kernelEnd_lt
      omega
    · exact hplaced.static
    · intro a ha
      rw [hafter a ha, hfirst]
  have hentry := userReturnEntry_some d.userKernelRsp he
  generalize userReturnPrologue returnTo (s.interrupt
    (BitVec.ofNat 64 (u.returnStack + returnStackSize)) (BitVec.ofNat 64 u.userReturnEntry)) = called at *
  obtain ⟨hresumed, hram⟩ := userReturnEpilogue_resumes (w := called.within e) hplaced.aligned hholds
    hdirection hcs
  refine ⟨_, hentry, hresumed, ?_⟩
  intro a ha
  rw [hram]
  exact hafter a ha

end Return

/-- The model of the dispatcher stores nothing. -/
theorem serve_confined (p : Profile) (u : UserImage) (own : ℕ → Prop) (x : Session) :
    Confined u own (serve p u x) := by
  intro c e _ he a hne
  obtain ⟨v, _, -, rfl⟩ := serve_some he
  exact absurd rfl hne

/-- The value `user_return_dispatch` returns for the frame of a program that has passed its checks: the
RAX it saved. -/
def completing (c : Cpu) : Option Cpu :=
  some ((c.set .rax (field c.ram (c.reg .rdi) 112)).set .rsp (c.reg .rsp + 8))

theorem completing_completes (u : UserImage) (own : ℕ → Prop) : Completes u own completing where
  confined := by
    intro c e _ he a hne
    obtain rfl := Option.some.inj he
    exact absurd rfl hne
  direction := by
    intro c e hc he
    obtain rfl := Option.some.inj he
    exact hc.1

/-- The registers of a user program at its completion. -/
def finishingReg (reg : Reg → BitVec 64) : Reg → BitVec 64
  | .rax => result
  | .rdi => 0x2b
  | .rsi => 0x33
  | .rdx => 0
  | r => reg r

def finishing (c : Cpu) : Cpu := { c with reg := finishingReg c.reg }

theorem exists_returnDemonstration : ∃ d : Demonstration sampleImage sampleUser,
    d.Placed fun _ => False := by
  obtain ⟨t, ht⟩ := sample_init_ok
  have hlaunch : returns (fun _ => launches 0x00) ((init .dev sampleImage).run sampleKernel) = true := by
    decide +kernel
  rw [ht, returns] at hlaunch
  obtain ⟨d, -, hcpu, hstatic⟩ := exists_staleDemonstration 0x00 0x1111 ht hlaunch
  have hrsp : (d.cpu.reg .rsp).toNat = 0xffff800000118000 := by
    rw [hcpu]
    rfl
  have hkept : d.userKernelRsp.toNat = 0xffff800000119000 := by
    rw [hstatic]
    rfl
  have hbottom : sampleUser.returnStack + returnStackSize = 0xffff800000110000 := rfl
  refine ⟨d, ?_, ?_, ?_, ?_, ?_⟩
  · rw [Aligned, hrsp]
  · rw [hrsp]
    exact sample_kernelData (by omega)
  · omega
  · intro a ha
    rcases ha with ha | ha
    · omega
    · omega
  · intro a ha
    exact ha.elim

/-- A system call, then the completion: the caller of `user_enter` gets the result. -/
theorem user_return_sample : ∃ (d : Demonstration sampleImage sampleUser) (s t : Cpu),
    (∃ g, int80 d.session s = some g ∧
      userReturnEntry completing d.userKernelRsp 0x2000 g = some t) ∧ Resumed d.cpu result t := by
  obtain ⟨d, hplaced⟩ := exists_returnDemonstration
  obtain ⟨s₀, hx⟩ := d.exists_launched sampleImage_linked sampleUser_linked sampleUser_inside
  obtain ⟨c, henter, -, hsetup, -⟩ := d.enters sampleImage_linked sampleUser_linked hx
  have hphase : UserPhase d.session c (asking c) := ⟨rfl, rfl, fun _ hne => absurd rfl hne⟩
  have hvalid : ValidReturn sampleUser (userFrame (asking c)) := by
    have hreturn : ValidReturn sampleUser sampleFrame := by decide
    exact hreturn
  obtain ⟨w, hw⟩ := exists_served sampleImage_linked sampleUser_linked sampleUser_inside hx
    (hphase.setUp sampleImage_linked sampleUser_linked hx.backs hsetup) d.profile hvalid
  have hrun : HandledRun d.profile sampleUser (fun _ => False) d.run d.session c w :=
    .call c (asking c) w .start hphase
      ⟨_, _, serve_serves _ _ _ _, serve_confined _ _ _ _, hw⟩
  have hlast : UserPhase d.session w (finishing w) := ⟨rfl, rfl, fun _ hne => absurd rfl hne⟩
  obtain ⟨g, hint, -, -, hdescribes, hreturns⟩ := user_return sampleImage sampleImage_linked sampleUser
    sampleUser_linked sampleUser_inside (fun _ => False) d hplaced henter hrun hlast
    (completing_completes sampleUser _) 0x2000
  obtain ⟨t, ht, hresumed, -⟩ := hreturns _ rfl
  refine ⟨d, finishing w, t, ⟨g, hint, ht⟩, ?_⟩
  have hvalue := hdescribes.registers 14 .rax rfl
  rw [Cpu.set_of_ne (by decide), Cpu.set_self] at hresumed
  rwa [show field _ _ 112 = result from hvalue] at hresumed

end MikoOS.Entry
