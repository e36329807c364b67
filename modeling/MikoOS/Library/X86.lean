import MikoOS.Library.PageWalk

/-!
# Stacks and privilege changes of an x86-64 processor

The instructions entry code consists of, on the sixteen general registers, the flags, the selectors
and a byte memory. Addresses are 64-bit words, so a stack may also wrap around. `Stack` describes the
words from the stack pointer up; pushing a list of registers and popping it in the reverse order
restores them, whatever lies between.
-/

namespace X86

open ByteMemory PageWalk

inductive Reg
  | rax
  | rbx
  | rcx
  | rdx
  | rsi
  | rdi
  | rbp
  | rsp
  | r8
  | r9
  | r10
  | r11
  | r12
  | r13
  | r14
  | r15
  deriving DecidableEq, Repr

structure Cpu where
  reg : Reg → BitVec 64
  rip : BitVec 64
  flags : BitVec 64
  cs : BitVec 16
  ss : BitVec 16
  ds : BitVec 16
  es : BitVec 16
  fs : BitVec 16
  gs : BitVec 16
  sysenterCs : BitVec 64
  sysenterEsp : BitVec 64
  sysenterEip : BitVec 64
  ram : Memory

def interruptFlag : BitVec 64 := 1#64 <<< 9
def directionFlag : BitVec 64 := 1#64 <<< 10
def virtualFlag : BitVec 64 := 1#64 <<< 17

/-- TF, NT and RF. -/
def gateFlags : BitVec 64 := 1#64 <<< 8 ||| 1#64 <<< 14 ||| 1#64 <<< 16

/-- CF, PF, AF, ZF, SF and OF. -/
def arithmeticFlags : BitVec 64 := 0x8d5#64

/-- PF, ZF and SF of a result; the logic instructions clear the other arithmetic flags. -/
def resultFlags (v : BitVec 64) : BitVec 64 :=
  (if (List.range 8).countP (fun i => v.getLsbD i) % 2 = 0 then 1#64 <<< 2 else 0#64) |||
    (if v = 0 then 1#64 <<< 6 else 0#64) ||| (if v.msb then 1#64 <<< 7 else 0#64)

/-- CF, AF and OF of a sum, next to those of the result. -/
def sumFlags (a b : BitVec 64) : BitVec 64 :=
  resultFlags (a + b) ||| (if 2 ^ 64 ≤ a.toNat + b.toNat then 1#64 else 0#64) |||
    (if 16 ≤ a.toNat % 16 + b.toNat % 16 then 1#64 <<< 4 else 0#64) |||
    (if a.msb = b.msb ∧ (a + b).msb ≠ a.msb then 1#64 <<< 11 else 0#64)

def withArithmetic (flags new : BitVec 64) : BitVec 64 :=
  flags &&& ~~~arithmeticFlags ||| new &&& arithmeticFlags

theorem withArithmetic_and {mask : BitVec 64} (h : arithmeticFlags &&& mask = 0)
    (flags new : BitVec 64) : withArithmetic flags new &&& mask = flags &&& mask := by
  apply BitVec.eq_of_getLsbD_eq
  intro i hi
  have hbit := congrArg (fun v => v.getLsbD i) h
  simp only [BitVec.getLsbD_and] at hbit
  simp only [withArithmetic, BitVec.getLsbD_and, BitVec.getLsbD_or, BitVec.getLsbD_not, hi]
  cases hmask : mask.getLsbD i with
  | false => simp
  | true =>
    rw [hmask, Bool.and_true] at hbit
    simp [hbit]

namespace Cpu

def set (r : Reg) (v : BitVec 64) (s : Cpu) : Cpu := { s with reg := Function.update s.reg r v }

def setLow (r : Reg) (v : BitVec 16) (s : Cpu) : Cpu :=
  s.set r (s.reg r &&& ~~~0xffff#64 ||| v.setWidth 64)

def cld (s : Cpu) : Cpu := { s with flags := s.flags &&& ~~~directionFlag }

def push (v : BitVec 64) (s : Cpu) : Cpu :=
  { s with
    reg := Function.update s.reg .rsp (s.reg .rsp - 8)
    ram := store64 s.ram (s.reg .rsp - 8).toNat v }

def top (s : Cpu) : BitVec 64 := load64 s.ram (s.reg .rsp).toNat

def pop (r : Reg) (s : Cpu) : Cpu := (s.set .rsp (s.reg .rsp + 8)).set r s.top

def ret (s : Cpu) : Cpu := { s.set .rsp (s.reg .rsp + 8) with rip := s.top }

def popFlags (s : Cpu) : Cpu := { s.set .rsp (s.reg .rsp + 8) with flags := s.top }

def andImmediate (r : Reg) (v : BitVec 64) (s : Cpu) : Cpu :=
  { s.set r (s.reg r &&& v) with flags := withArithmetic s.flags (resultFlags (s.reg r &&& v)) }

def addImmediate (r : Reg) (v : BitVec 64) (s : Cpu) : Cpu :=
  { s.set r (s.reg r + v) with flags := withArithmetic s.flags (sumFlags (s.reg r) v) }

/-- `xor` of a register with itself. -/
def clear (r : Reg) (s : Cpu) : Cpu :=
  { s.set r 0 with flags := withArithmetic s.flags (resultFlags 0) }

/-- `xor` of the low sixteen bits of a register with themselves. -/
def clearLow (r : Reg) (s : Cpu) : Cpu :=
  { s.setLow r 0 with flags := withArithmetic s.flags (resultFlags 0) }

def store (a v : BitVec 64) (s : Cpu) : Cpu := { s with ram := store64 s.ram a.toNat v }

def pushRegs : List Reg → Cpu → Cpu
  | [], s => s
  | r :: rs, s => pushRegs rs (s.push (s.reg r))

def popRegs : List Reg → Cpu → Cpu
  | [], s => s
  | r :: rs, s => popRegs rs (s.pop r)

def clearRegs : List Reg → Cpu → Cpu
  | [], s => s
  | r :: rs, s => clearRegs rs (s.clear r)

/-- A vector taken through an interrupt gate of code segment 8 on the stack at `base`. -/
def interrupt (base handler : BitVec 64) (s : Cpu) : Cpu :=
  let old := s.reg .rsp
  let s' := s.set .rsp base
  let s' := s'.push (s.ss.setWidth 64)
  let s' := s'.push old
  let s' := s'.push s.flags
  let s' := s'.push (s.cs.setWidth 64)
  let s' := s'.push s.rip
  { s' with
    rip := handler
    cs := 8
    ss := if s.cs &&& 3 = 0 then s.ss else 0
    flags := s.flags &&& ~~~(interruptFlag ||| gateFlags) }

/-- The word `i` above the stack pointer. -/
def word (i : ℕ) (s : Cpu) : BitVec 64 := load64 s.ram (s.reg .rsp + BitVec.ofNat 64 (8 * i)).toNat

def iretq (s : Cpu) : Cpu :=
  { s.set .rsp (s.word 3) with
    rip := s.word 0
    cs := (s.word 1).setWidth 16
    flags := s.word 2
    ss := (s.word 4).setWidth 16 }

/-- `none` is a general-protection fault. -/
def sysenter (s : Cpu) : Option Cpu :=
  if s.sysenterCs &&& 0xfffc = 0 then none
  else some { s.set .rsp s.sysenterEsp with
    rip := s.sysenterEip
    cs := (s.sysenterCs &&& 0xfffc).setWidth 16
    ss := ((s.sysenterCs &&& 0xfffc) + 8).setWidth 16
    flags := s.flags &&& ~~~(interruptFlag ||| virtualFlag) }

/-- SYSEXIT to 64-bit code: RDX becomes RIP and RCX becomes RSP. -/
def sysexit (s : Cpu) : Option Cpu :=
  if s.sysenterCs &&& 0xfffc ≠ 0 ∧ s.cs &&& 3 = 0 ∧ Canonical (s.reg .rdx).toNat ∧
      Canonical (s.reg .rcx).toNat then
    some { s.set .rsp (s.reg .rcx) with
      rip := s.reg .rdx
      cs := (s.sysenterCs + 32).setWidth 16 ||| 3
      ss := (s.sysenterCs + 40).setWidth 16 ||| 3 }
  else none

end Cpu

/-- The word at distance `i` above `a`. -/
def slot (a : BitVec 64) (i : ℕ) : BitVec 64 := a + BitVec.ofNat 64 (8 * i)

def Aligned (a : BitVec 64) : Prop := a.toNat % 8 = 0

instance (a : BitVec 64) : Decidable (Aligned a) := inferInstanceAs (Decidable (a.toNat % 8 = 0))

theorem slot_zero (a : BitVec 64) : slot a 0 = a := BitVec.add_zero a

theorem slot_slot (a : BitVec 64) (i j : ℕ) : slot (slot a i) j = slot a (i + j) := by
  rw [slot, slot, slot, BitVec.add_assoc, ← BitVec.ofNat_add, Nat.mul_add]

theorem slot_sub_eight (a : BitVec 64) (i : ℕ) : slot (a - 8) (i + 1) = slot a i := by
  have hsub : slot (a - 8) 1 = a := BitVec.sub_add_cancel a 8
  rw [Nat.add_comm, ← slot_slot, hsub]

theorem slot_ne {a : BitVec 64} {i j : ℕ} (hij : i < j) (hj : 8 * j < 2 ^ 64) :
    slot a i ≠ slot a j := by
  intro heq
  have hnat := congrArg BitVec.toNat heq
  simp only [slot, BitVec.toNat_add, BitVec.toNat_ofNat] at hnat
  omega

theorem Aligned.slot {a : BitVec 64} (h : Aligned a) (i : ℕ) : Aligned (slot a i) := by
  rw [Aligned] at h ⊢
  simp only [X86.slot, BitVec.toNat_add, BitVec.toNat_ofNat]
  omega

theorem Aligned.sub_eight {a : BitVec 64} (h : Aligned a) : Aligned (a - 8) := by
  rw [Aligned] at h ⊢
  rw [BitVec.toNat_sub, show (8 : BitVec 64).toNat = 8 from rfl]
  omega

theorem load64_store64_ne {a b : BitVec 64} (ha : Aligned a) (hb : Aligned b) (hne : a ≠ b)
    (m : Memory) (v : BitVec 64) : load64 (store64 m a.toNat v) b.toNat = load64 m b.toNat := by
  have hnat : a.toNat ≠ b.toNat := fun h => hne (BitVec.eq_of_toNat_eq h)
  apply load64_store64_outside
  rw [Aligned] at ha hb
  omega

namespace Cpu

/-- The words from the stack pointer up. -/
structure Stack (s : Cpu) (words : List (BitVec 64)) : Prop where
  aligned : Aligned (s.reg .rsp)
  get : ∀ i w, words[i]? = some w → load64 s.ram (slot (s.reg .rsp) i).toNat = w

variable {s : Cpu} {v w : BitVec 64} {ws : List (BitVec 64)} {r : Reg} {rs : List Reg}

theorem stack_nil (h : Aligned (s.reg .rsp)) : s.Stack [] := ⟨h, nofun⟩

@[simp] theorem set_self : (s.set r v).reg r = v := Function.update_self ..

theorem set_of_ne {q : Reg} (h : q ≠ r) : (s.set r v).reg q = s.reg q := Function.update_of_ne h ..

@[simp] theorem store_reg {a : BitVec 64} : (s.store a v).reg = s.reg := rfl

@[simp] theorem push_rsp : (s.push v).reg .rsp = s.reg .rsp - 8 := by
  simp [push]

theorem push_reg (h : r ≠ .rsp) : (s.push v).reg r = s.reg r := Function.update_of_ne h ..

theorem Stack.push (h : s.Stack ws) (hroom : 8 * ws.length < 2 ^ 64) : (s.push v).Stack (v :: ws) where
  aligned := by
    rw [push_rsp]
    exact h.aligned.sub_eight
  get := by
    intro i w hw
    have hbase : slot (s.reg .rsp - 8) 0 = s.reg .rsp - 8 := slot_zero _
    rw [push_rsp]
    change load64 (store64 s.ram (s.reg .rsp - 8).toNat v) _ = w
    cases i with
    | zero =>
      obtain rfl := Option.some.inj hw
      rw [hbase, load64_store64]
    | succ i =>
      rw [List.getElem?_cons_succ] at hw
      have hi : i < ws.length := (List.getElem?_eq_some_iff.mp hw).1
      have hne : s.reg .rsp - 8 ≠ slot (s.reg .rsp - 8) (i + 1) := by
        rw [← hbase]
        nth_rewrite 2 [hbase]
        exact slot_ne (Nat.succ_pos i) (by omega)
      rw [load64_store64_ne h.aligned.sub_eight (h.aligned.sub_eight.slot _) hne, slot_sub_eight]
      exact h.get i w hw

theorem Stack.top (h : s.Stack (w :: ws)) : s.top = w := by
  have hget := h.get 0 w rfl
  rwa [slot_zero] at hget

theorem addImmediate_reg :
    (s.addImmediate r v).reg = Function.update s.reg r (s.reg r + v) := rfl

theorem iretq_reg : s.iretq.reg = Function.update s.reg .rsp (s.word 3) := rfl

theorem pop_rsp (h : r ≠ .rsp) : (s.pop r).reg .rsp = s.reg .rsp + 8 := by
  rw [pop, set_of_ne h.symm, set_self]

theorem pop_self : (s.pop r).reg r = s.top := set_self

theorem pop_of_ne {q : Reg} (hr : q ≠ r) (hq : q ≠ .rsp) : (s.pop r).reg q = s.reg q := by
  rw [pop, set_of_ne hr, set_of_ne hq]

/-- Raising the stack pointer discards words. -/
theorem Stack.discard (vs : List (BitVec 64)) (h : s.Stack (vs ++ ws)) {t : Cpu}
    (hrsp : t.reg .rsp = slot (s.reg .rsp) vs.length) (hram : t.ram = s.ram) : t.Stack ws where
  aligned := by
    rw [hrsp]
    exact h.aligned.slot _
  get := by
    intro i w hw
    rw [hrsp, hram, slot_slot]
    apply h.get
    rwa [List.getElem?_append_right (Nat.le_add_right _ _), Nat.add_sub_cancel_left]

theorem Stack.pop (h : s.Stack (w :: ws)) (hr : r ≠ .rsp) : (s.pop r).Stack ws :=
  h.discard [w] (pop_rsp hr) rfl

theorem Stack.set (h : s.Stack ws) {i : ℕ} (hi : i < ws.length) (hroom : 8 * ws.length < 2 ^ 64) :
    (s.store (slot (s.reg .rsp) i) v).Stack (ws.set i v) where
  aligned := h.aligned
  get := by
    intro j w hw
    change load64 (store64 s.ram (slot (s.reg .rsp) i).toNat v) (slot (s.reg .rsp) j).toNat = w
    by_cases hij : i = j
    · subst hij
      rw [List.getElem?_set_self hi] at hw
      rw [load64_store64]
      exact Option.some.inj hw
    · rw [List.getElem?_set_ne hij] at hw
      have hj : j < ws.length := (List.getElem?_eq_some_iff.mp hw).1
      have hne : slot (s.reg .rsp) i ≠ slot (s.reg .rsp) j := by
        rcases Nat.lt_or_gt_of_ne hij with hlt | hlt
        · exact slot_ne hlt (by omega)
        · exact (slot_ne hlt (by omega)).symm
      rw [load64_store64_ne (h.aligned.slot i) (h.aligned.slot j) hne]
      exact h.get j w hw

/-- Pushing a word and popping it into the flags. -/
theorem push_popFlags_reg : ((s.push v).popFlags).reg = s.reg := by
  change Function.update (s.push v).reg .rsp ((s.push v).reg .rsp + 8) = s.reg
  rw [push_rsp, BitVec.sub_add_cancel]
  funext r
  by_cases hr : r = .rsp
  · rw [hr, Function.update_self]
  · rw [Function.update_of_ne hr, push_reg hr]

theorem push_popFlags_flags : ((s.push v).popFlags).flags = v := by
  change load64 (store64 s.ram (s.reg .rsp - 8).toNat v) ((s.push v).reg .rsp).toNat = v
  rw [push_rsp, load64_store64]

theorem Stack.push_popFlags (h : s.Stack ws) (hroom : 8 * ws.length < 2 ^ 64) :
    ((s.push v).popFlags).Stack ws := by
  apply (h.push (v := v) hroom).discard [v]
  · rw [push_popFlags_reg, push_rsp, List.length_singleton, slot_sub_eight, slot_zero]
  · rfl

theorem Stack.congr (h : s.Stack ws) {t : Cpu} (hrsp : t.reg .rsp = s.reg .rsp)
    (hram : ∀ i < ws.length, load64 t.ram (slot (s.reg .rsp) i).toNat =
      load64 s.ram (slot (s.reg .rsp) i).toNat) : t.Stack ws where
  aligned := by
    rw [hrsp]
    exact h.aligned
  get := by
    intro i w hw
    rw [hrsp, hram i (List.getElem?_eq_some_iff.mp hw).1]
    exact h.get i w hw

theorem pushRegs_eq (rs : List Reg) (s : Cpu) :
    pushRegs rs s = { s with reg := (pushRegs rs s).reg, ram := (pushRegs rs s).ram } := by
  induction rs generalizing s with
  | nil => rfl
  | cons r rs ih =>
    rw [pushRegs, ih]
    rfl

theorem popRegs_eq (rs : List Reg) (s : Cpu) :
    popRegs rs s = { s with reg := (popRegs rs s).reg } := by
  induction rs generalizing s with
  | nil => rfl
  | cons r rs ih =>
    rw [popRegs, ih]
    rfl

theorem pushRegs_reg (hr : r ≠ .rsp) : (pushRegs rs s).reg r = s.reg r := by
  induction rs generalizing s with
  | nil => rfl
  | cons q rs ih => rw [pushRegs, ih, push_reg hr]

theorem pushRegs_rsp : (pushRegs rs s).reg .rsp = s.reg .rsp - BitVec.ofNat 64 (8 * rs.length) := by
  induction rs generalizing s with
  | nil => simp [pushRegs]
  | cons q rs ih =>
    rw [pushRegs, ih, push_rsp, List.length_cons, Nat.mul_succ, Nat.add_comm, BitVec.ofNat_add,
      BitVec.sub_sub]
    rfl

theorem Stack.pushRegs (h : s.Stack ws) (hrs : .rsp ∉ rs)
    (hroom : 8 * (rs.length + ws.length) < 2 ^ 64) :
    (pushRegs rs s).Stack ((rs.map s.reg).reverse ++ ws) := by
  induction rs generalizing s ws with
  | nil => exact h
  | cons r rs ih =>
    rw [List.mem_cons, not_or] at hrs
    rw [List.length_cons] at hroom
    have hnext := ih (h.push (v := s.reg r) (by omega)) hrs.2 (by rw [List.length_cons]; omega)
    have hmap : rs.map (s.push (s.reg r)).reg = rs.map s.reg := by
      apply List.map_congr_left
      intro q hq
      apply push_reg
      rintro rfl
      exact hrs.2 hq
    rw [hmap] at hnext
    rw [List.map_cons, List.reverse_cons, List.append_assoc, List.singleton_append]
    exact hnext

/-- Popping words that are the values of `f` gives every register its value of `f`. -/
theorem Stack.popRegs {f : Reg → BitVec 64} (h : s.Stack (rs.map f ++ ws)) (hrs : .rsp ∉ rs) :
    (popRegs rs s).Stack ws ∧
      ∀ r ≠ .rsp, (popRegs rs s).reg r = if r ∈ rs then f r else s.reg r := by
  induction rs generalizing s with
  | nil => exact ⟨h, fun r _ => by rw [if_neg List.not_mem_nil]; rfl⟩
  | cons q rs ih =>
    rw [List.mem_cons, not_or] at hrs
    have htop : s.top = f q := h.top
    obtain ⟨hstack, hreg⟩ := ih (h.pop (Ne.symm hrs.1)) hrs.2
    refine ⟨hstack, fun r hr => ?_⟩
    rw [Cpu.popRegs, hreg r hr]
    by_cases hmem : r ∈ rs
    · rw [if_pos hmem, if_pos (List.mem_cons_of_mem q hmem)]
    · rw [if_neg hmem]
      by_cases hq : r = q
      · rw [hq, pop_self, htop, if_pos List.mem_cons_self]
      · rw [pop_of_ne hq hr, if_neg (by simp [hq, hmem])]

theorem popRegs_rsp (hrs : .rsp ∉ rs) :
    (popRegs rs s).reg .rsp = slot (s.reg .rsp) rs.length := by
  induction rs generalizing s with
  | nil => rw [popRegs, List.length_nil, slot_zero]
  | cons q rs ih =>
    rw [List.mem_cons, not_or] at hrs
    rw [popRegs, ih hrs.2, pop_rsp (Ne.symm hrs.1),
      show s.reg .rsp + 8 = slot (s.reg .rsp) 1 from rfl, slot_slot, List.length_cons, Nat.add_comm]

theorem clearRegs_eq (rs : List Reg) (s : Cpu) :
    clearRegs rs s = { s with reg := (clearRegs rs s).reg, flags := (clearRegs rs s).flags } := by
  induction rs generalizing s with
  | nil => rfl
  | cons r rs ih =>
    rw [clearRegs, ih]
    rfl

theorem clearRegs_reg : (clearRegs rs s).reg r = if r ∈ rs then 0 else s.reg r := by
  induction rs generalizing s with
  | nil => rw [clearRegs, if_neg List.not_mem_nil]
  | cons q rs ih =>
    rw [clearRegs, ih]
    by_cases hmem : r ∈ rs
    · rw [if_pos hmem, if_pos (List.mem_cons_of_mem q hmem)]
    · rw [if_neg hmem]
      change Function.update s.reg q 0 r = _
      by_cases hq : r = q
      · rw [hq, Function.update_self, if_pos List.mem_cons_self]
      · rw [Function.update_of_ne hq, if_neg (by simp [hq, hmem])]

theorem push_rsp_toNat (hroom : 8 ≤ (s.reg .rsp).toNat) :
    ((s.push v).reg .rsp).toNat = (s.reg .rsp).toNat - 8 := by
  have height : (8 : BitVec 64).toNat = 8 := rfl
  rw [push_rsp, BitVec.toNat_sub_of_le (BitVec.le_def.mpr (height ▸ hroom)), height]

theorem push_outside {x : ℕ} (hroom : 8 ≤ (s.reg .rsp).toNat)
    (hx : x + 8 < (s.reg .rsp).toNat ∨ (s.reg .rsp).toNat ≤ x) : (s.push v).ram x = s.ram x := by
  have hrsp := push_rsp_toNat (v := v) hroom
  rw [push_rsp] at hrsp
  apply store64_outside
  omega

theorem pushRegs_outside {x : ℕ} (hroom : 8 * rs.length ≤ (s.reg .rsp).toNat)
    (hx : x + 8 * rs.length < (s.reg .rsp).toNat ∨ (s.reg .rsp).toNat ≤ x) :
    (pushRegs rs s).ram x = s.ram x := by
  induction rs generalizing s with
  | nil => rfl
  | cons r rs ih =>
    rw [List.length_cons] at hroom hx
    have hrsp := push_rsp_toNat (s := s) (v := s.reg r) (by omega)
    rw [pushRegs, ih (by omega) (by omega), push_outside (by omega) (by omega)]

end Cpu

/-- A near call runs in the caller's code segment and leaves the SYSENTER registers alone. -/
def Cpu.within (s t : Cpu) : Cpu :=
  { t with
    cs := s.cs
    ss := s.ss
    sysenterCs := s.sysenterCs
    sysenterEsp := s.sysenterEsp
    sysenterEip := s.sysenterEip }

/-- A function in the C ABI, as far as entry code relies on it: called with DF clear and the stack
aligned below the return address, it keeps RBX and the `n` words that RDI points to. `none` is a
call that does not return. -/
structure Callee (n : ℕ) (f : Cpu → Option Cpu) : Prop where
  rbx : ∀ s t, s.flags &&& directionFlag = 0 → (s.reg .rsp + 8).toNat % 16 = 0 → f s = some t →
    t.reg .rbx = s.reg .rbx
  words : ∀ s t, s.flags &&& directionFlag = 0 → (s.reg .rsp + 8).toNat % 16 = 0 → f s = some t →
    ∀ i < n, load64 t.ram (slot (s.reg .rdi) i).toNat = load64 s.ram (slot (s.reg .rdi) i).toNat

end X86
