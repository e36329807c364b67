import MikoOS.Library.X86

/-!
# Descriptor tables of an x86-64 processor

An interrupt descriptor table holds gates of sixteen bytes, a task state segment the stack pointers
for entries, a global descriptor table the place of the segment. `deliver` takes a vector as the
processor does: the gate, the stack and the words pushed are read from and written to memory. Targets
other than the ring 0 code segment 8 are left out, and so are page faults of the pushes.
-/

namespace X86

open ByteMemory

def Cpu.cli (s : Cpu) : Cpu := { s with flags := s.flags &&& ~~~interruptFlag }

structure GateView where
  handler : BitVec 64
  selector : BitVec 16
  ist : BitVec 3
  dpl : BitVec 2
  trap : Bool
  deriving DecidableEq, Repr

/-- The gate in the sixteen bytes at `a`; `none` is an absent one or one of another type. -/
def readGate (ram : Memory) (a : ℕ) : Option GateView :=
  let attributes := ram (a + 5)
  if attributes &&& 0x9e#8 = 0x8e#8 then
    some {
      handler := load32 ram (a + 8) ++ load16 ram (a + 6) ++ load16 ram a
      selector := load16 ram (a + 2)
      ist := (ram (a + 4)).setWidth 3
      dpl := attributes.extractLsb' 5 2
      trap := attributes.getLsbD 0 }
  else none

theorem readGate_congr {m m' : Memory} {a : ℕ} (h : ∀ i < 16, m (a + i) = m' (a + i)) :
    readGate m a = readGate m' a := by
  have hattributes := h 5 (by decide)
  have hist := h 4 (by decide)
  have hlow : load16 m a = load16 m' a := load16_congr fun i hi => h i (by omega)
  have hselector : load16 m (a + 2) = load16 m' (a + 2) := load16_congr fun i hi => by
    rw [Nat.add_assoc]
    exact h _ (by omega)
  have hmiddle : load16 m (a + 6) = load16 m' (a + 6) := load16_congr fun i hi => by
    rw [Nat.add_assoc]
    exact h _ (by omega)
  have hhigh : load32 m (a + 8) = load32 m' (a + 8) := load32_congr fun i hi => by
    rw [Nat.add_assoc]
    exact h _ (by omega)
  rw [readGate, readGate, hattributes, hist, hlow, hselector, hmiddle, hhigh]

theorem append_parts (v : BitVec 64) :
    (v >>> 32).setWidth 32 ++ (v >>> 16).setWidth 16 ++ v.setWidth 16 = v := by
  apply BitVec.eq_of_getLsbD_eq
  intro i hi
  simp only [BitVec.getLsbD_append, BitVec.getLsbD_setWidth, BitVec.getLsbD_ushiftRight]
  by_cases hlow : i < 16
  · simp [hlow]
  · by_cases hmiddle : i - 16 < 16
    · simp [hlow, hmiddle, show 16 + (i - 16) = i by omega]
    · simp [hlow, hmiddle, show i - 16 - 16 < 32 by omega, show 32 + (i - 16 - 16) = i by omega]

structure SegmentView where
  base : BitVec 64
  limit : BitVec 20
  type : BitVec 4
  dpl : BitVec 2
  present : Bool
  deriving DecidableEq, Repr

def readSegment (ram : Memory) (a : ℕ) : SegmentView :=
  let low := load64 ram a
  let high := load64 ram (a + 8)
  { base := high.setWidth 32 ++ low.extractLsb' 56 8 ++ low.extractLsb' 16 24
    limit := low.extractLsb' 48 4 ++ low.extractLsb' 0 16
    type := low.extractLsb' 40 4
    dpl := low.extractLsb' 45 2
    present := low.getLsbD 47 }

/-- LTR with the selector `selector`: the segment, which becomes busy. `none` is a fault. -/
def loadTask (gdt : ℕ) (selector : BitVec 16) (ram : Memory) : Option (SegmentView × Memory) :=
  let a := gdt + selector.toNat / 8 * 8
  let segment := readSegment ram a
  if selector &&& 0xfffc = 0 ∨ segment.type ≠ 9 ∨ segment.present = false then none
  else some (segment, store64 ram a (load64 ram a ||| 1#64 <<< 41))

structure TableRegisters where
  idt : ℕ
  limit : ℕ
  tss : ℕ
  deriving DecidableEq, Repr

/-- `software` is INT n. The processor pushes the error code of some exceptions only. -/
inductive Cause
  | software
  | hardware (error : BitVec 64)
  deriving DecidableEq, Repr

def errorVectors : List ℕ := [8, 10, 11, 12, 13, 14, 17, 21, 29, 30]

def Cause.pushed (cause : Cause) (vector : ℕ) : Option (BitVec 64) :=
  match cause with
  | .software => none
  | .hardware error => if vector ∈ errorVectors then some error else none

def rsp0 (ram : Memory) (tss : ℕ) : BitVec 64 := load64 ram (tss + 4)

def istPointer (ram : Memory) (tss i : ℕ) : BitVec 64 := load64 ram (tss + 28 + 8 * i)

/-- The stack pointer an entry starts from, before it is aligned. -/
def entryStack (t : TableRegisters) (gate : GateView) (s : Cpu) : BitVec 64 :=
  if gate.ist ≠ 0 then istPointer s.ram t.tss gate.ist.toNat
  else if s.cs &&& 3 ≠ 0 then rsp0 s.ram t.tss
  else s.reg .rsp

/-- A trap gate leaves IF alone. -/
def keepInterrupts (trap : Bool) (flags : BitVec 64) (s : Cpu) : Cpu :=
  if trap then { s with flags := flags &&& ~~~gateFlags } else s

/-- The entry through `gate` on the stack at `base`. -/
def enterGate (gate : GateView) (base : BitVec 64) (error : Option (BitVec 64)) (s : Cpu) : Cpu :=
  let t := keepInterrupts gate.trap s.flags (s.interrupt base gate.handler)
  error.elim t t.push

/-- The first instruction of the handler; `none` is another exception in its place. -/
def deliver (t : TableRegisters) (cause : Cause) (vector : ℕ) (s : Cpu) : Option Cpu :=
  if t.limit < 16 * vector + 15 then none
  else (readGate s.ram (t.idt + 16 * vector)).bind fun gate =>
    if gate.selector ≠ 8 then none
    else if cause = .software ∧ gate.dpl.toNat < (s.cs &&& 3).toNat then none
    else some (enterGate gate (entryStack t gate s &&& -16) (cause.pushed vector) s)

theorem deliver_eq {t : TableRegisters} {cause : Cause} {vector : ℕ} {s : Cpu} {gate : GateView}
    (hlimit : 16 * vector + 15 ≤ t.limit) (hgate : readGate s.ram (t.idt + 16 * vector) = some gate)
    (hselector : gate.selector = 8)
    (hcause : cause = .software → (s.cs &&& 3).toNat ≤ gate.dpl.toNat) :
    deliver t cause vector s =
      some (enterGate gate (entryStack t gate s &&& -16) (cause.pushed vector) s) := by
  rw [deliver, if_neg (by omega), hgate, Option.bind_some, if_neg (by rw [hselector]; decide),
    if_neg]
  rintro ⟨hsoftware, hlt⟩
  have hle := hcause hsoftware
  omega

theorem deliver_some {t : TableRegisters} {cause : Cause} {vector : ℕ} {s u : Cpu}
    (h : deliver t cause vector s = some u) :
    16 * vector + 15 ≤ t.limit ∧ ∃ gate, readGate s.ram (t.idt + 16 * vector) = some gate ∧
      gate.selector = 8 ∧ (cause = .software → (s.cs &&& 3).toNat ≤ gate.dpl.toNat) ∧
      u = enterGate gate (entryStack t gate s &&& -16) (cause.pushed vector) s := by
  rw [deliver] at h
  by_cases hlimit : t.limit < 16 * vector + 15
  · rw [if_pos hlimit] at h
    cases h
  · rw [if_neg hlimit] at h
    obtain ⟨gate, hgate, hentered⟩ := Option.bind_eq_some_iff.mp h
    by_cases hselector : gate.selector ≠ 8
    · rw [if_pos hselector] at hentered
      cases hentered
    · rw [if_neg hselector] at hentered
      by_cases hrefused : cause = .software ∧ gate.dpl.toNat < (s.cs &&& 3).toNat
      · rw [if_pos hrefused] at hentered
        cases hentered
      · rw [if_neg hrefused] at hentered
        refine ⟨by omega, gate, hgate, not_not.mp hselector, fun hcause => ?_,
          (Option.some.inj hentered).symm⟩
        exact not_lt.mp fun hlt => hrefused ⟨hcause, hlt⟩

theorem enterGate_eq (gate : GateView) (base : BitVec 64) (error : Option (BitVec 64)) (s : Cpu) :
    (enterGate gate base error s).cs = 8 ∧ (enterGate gate base error s).rip = gate.handler := by
  unfold enterGate keepInterrupts
  cases error <;> cases gate.trap <;> exact ⟨rfl, rfl⟩

/-- INT n gets through a gate exactly when its privilege admits the caller. -/
theorem deliver_software_isSome {t : TableRegisters} {vector : ℕ} {s : Cpu} {gate : GateView}
    (hlimit : 16 * vector + 15 ≤ t.limit) (hgate : readGate s.ram (t.idt + 16 * vector) = some gate)
    (hselector : gate.selector = 8) :
    (deliver t .software vector s).isSome = decide ((s.cs &&& 3).toNat ≤ gate.dpl.toNat) := by
  by_cases hle : (s.cs &&& 3).toNat ≤ gate.dpl.toNat
  · rw [deliver_eq hlimit hgate hselector fun _ => hle, decide_eq_true hle]
    rfl
  · rw [deliver, if_neg (by omega), hgate, Option.bind_some, if_neg (by rw [hselector]; decide),
      if_pos ⟨rfl, by omega⟩, decide_eq_false hle]
    rfl

end X86
