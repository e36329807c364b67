import MikoOS.Library.X86

/-!
# Processor modes and paging

A processor on its way from real mode to 64-bit mode: control registers, the hidden bases of the segment
registers, the descriptor table and physical memory. An instruction is fetched by way of the address
translation in force and decoded at the width of the mode; `none` is a fault, code that is not decoded as
it was assembled, or paging that is not modelled. The accesses of one instruction, of a repeated one or of
a loop are translated by the tables in force before it. Paging outside IA-32e mode and with five levels,
segment limits, the TLB and privilege changes are left out.
-/

namespace X86

open ByteMemory PageWalk

inductive Seg
  | ds
  | es
  | ss
  | fs
  | gs
  deriving DecidableEq, Repr

/-- CS holds the selector `cs` and, of its descriptor, the bits L and D; `base` is the hidden base of the
other segment registers. -/
structure ModeCpu where
  cr0 : BitVec 64
  cr3 : BitVec 64
  cr4 : BitVec 64
  efer : BitVec 64
  gdtBase : ℕ
  gdtLimit : ℕ
  cs : BitVec 16
  long : Bool
  big : Bool
  seg : Seg → BitVec 16
  base : Seg → ℕ
  rip : ℕ
  rsp : BitVec 64
  flags : BitVec 64
  ram : Memory

namespace ModeCpu

variable (m : ModeCpu)

def protectedMode : Bool := m.cr0.getLsbD 0
def paging : Bool := m.cr0.getLsbD 31
def physicalExtension : Bool := m.cr4.getLsbD 5
def fiveLevel : Bool := m.cr4.getLsbD 12
def longRequested : Bool := m.efer.getLsbD 8
def longActive : Bool := m.efer.getLsbD 10

/-- Code assembled with BITS `bits` is decoded as such. -/
def decodes (bits : ℕ) : Bool :=
  if m.longActive && m.long then bits == 64
  else if m.protectedMode && m.big then bits == 32
  else bits == 16

/-- The linear address of an offset; 64-bit code takes DS, ES and SS as flat. -/
def linear (s : Seg) (a : ℕ) : ℕ :=
  if m.longActive && m.long then a else (m.base s + a) % 2 ^ 32

def translate (v : ℕ) : Option ℕ :=
  if m.paging then
    if m.longActive && !m.fiveLevel then (walk m.ram (frame m.cr3) v).map Translation.physical else none
  else some v

/-- The physical place of `n` bytes that lie together there too. -/
def place (a n : ℕ) : Option ℕ :=
  (m.translate a).bind fun p => if ∀ i < n, m.translate (a + i) = some (p + i) then some p else none

def fetches (bits linear physical : ℕ) : Bool :=
  m.decodes bits && m.translate linear == some physical

def descriptor (selector : BitVec 16) : Option (BitVec 64) :=
  let offset := selector.toNat / 8 * 8
  if selector &&& 0xfffc = 0 ∨ m.gdtLimit < offset + 7 then none
  else (m.place (m.gdtBase + offset) 8).map (load64 m.ram)

def descriptorBase (d : BitVec 64) : ℕ := (d.extractLsb' 16 24).toNat + 2 ^ 24 * (d.extractLsb' 56 8).toNat

/-- Present code of ring 0, not both long and big. -/
def Code (d : BitVec 64) : Prop :=
  d.getLsbD 47 = true ∧ d.getLsbD 44 = true ∧ d.getLsbD 43 = true ∧ d.extractLsb' 45 2 = 0#2 ∧
    ¬ (d.getLsbD 53 = true ∧ d.getLsbD 54 = true)

/-- Present writable data of ring 0. -/
def Data (d : BitVec 64) : Prop :=
  d.getLsbD 47 = true ∧ d.getLsbD 44 = true ∧ d.getLsbD 43 = false ∧ d.getLsbD 41 = true ∧
    d.extractLsb' 45 2 = 0#2

instance (d : BitVec 64) : Decidable (Code d) := inferInstanceAs (Decidable (_ ∧ _ ∧ _ ∧ _ ∧ _))
instance (d : BitVec 64) : Decidable (Data d) := inferInstanceAs (Decidable (_ ∧ _ ∧ _ ∧ _ ∧ _))

/-- A far transfer in protected mode to a flat segment: CS takes the descriptor. -/
def transfer (selector : BitVec 16) (offset : ℕ) : Option ModeCpu :=
  (m.descriptor selector).bind fun d =>
    if Code d ∧ descriptorBase d = 0 ∧ m.protectedMode ∧ Canonical offset then
      some { m with cs := selector, long := d.getLsbD 53, big := d.getLsbD 54, rip := offset }
    else none

/-- The descriptors LAR answers for: segments, and the system types with access rights. -/
def Readable (selector : BitVec 16) (d : BitVec 64) : Prop :=
  (d.getLsbD 44 = true ∨ (d.extractLsb' 40 4).toNat ∈ [2, 9, 11, 12]) ∧
    ((d.getLsbD 44 = true ∧ d.getLsbD 43 = true ∧ d.getLsbD 42 = true) ∨
      selector.toNat % 4 ≤ (d.extractLsb' 45 2).toNat)

instance (selector : BitVec 16) (d : BitVec 64) : Decidable (Readable selector d) :=
  inferInstanceAs (Decidable (_ ∧ _))

/-- LAR without its undefined bits 19:16; `none` leaves ZF clear. -/
def lar (selector : BitVec 16) : Option (BitVec 32) :=
  (m.descriptor selector).bind fun d =>
    if Readable selector d then some (d.extractLsb' 32 32 &&& 0x00f0ff00) else none

end ModeCpu

inductive Instr
  | cli
  | cld
  | lgdt (offset width : ℕ)
  | setSegments (segments : List Seg) (selector : BitVec 16)
  | setStack (address : BitVec 64)
  | orCr0 (bits : BitVec 64)
  | setCr3 (root : BitVec 64)
  | orCr4 (bits : BitVec 64)
  | orEfer (bits : BitVec 64)
  | access (ranges : List (Seg × ℕ × ℕ)) (f : List ℕ → Memory → Memory)
  | jump (selector : BitVec 16) (offset : ℕ)
  | farReturn (selector : BitVec 16) (offset : ℕ)
  | call (returnTo : BitVec 64) (target : ℕ)

namespace Instr

def store (s : Seg) (a n v : ℕ) : Instr :=
  access [(s, a, n)] fun places ram => ByteMemory.store ram (places.getD 0 0) n v

/-- `rep stos` of zero. -/
def clear (a n : ℕ) : Instr := access [(.es, a, n)] fun places ram => fill ram (places.getD 0 0) n 0

/-- Setting PG with LME activates IA-32e mode, which PAE and a CS without L must precede. -/
def writeCr0 (v : BitVec 64) (m : ModeCpu) : Option ModeCpu :=
  if v.getLsbD 31 = true ∧ m.paging = false then
    if v.getLsbD 0 = true ∧ m.longRequested = true ∧ m.physicalExtension = true ∧ m.long = false then
      some { m with cr0 := v, efer := m.efer ||| 1#64 <<< 10 }
    else none
  else some { m with cr0 := v }

/-- LME is fixed while paging is on. -/
def writeEfer (v : BitVec 64) (m : ModeCpu) : Option ModeCpu :=
  if m.paging = true ∧ v.getLsbD 8 ≠ m.longRequested then none else some { m with efer := v }

def execute : Instr → ModeCpu → Option ModeCpu
  | cli, m => some { m with flags := m.flags &&& ~~~interruptFlag }
  | cld, m => some { m with flags := m.flags &&& ~~~directionFlag }
  | lgdt a width, m => (m.place (m.linear .ds a) (2 + width)).map fun p =>
      { m with gdtLimit := load m.ram p 2, gdtBase := load m.ram (p + 2) width }
  | setSegments segments selector, m =>
    (m.descriptor selector).bind fun d =>
      if ModeCpu.Data d then
        some { m with
          seg := fun s => if s ∈ segments then selector else m.seg s
          base := fun s => if s ∈ segments then ModeCpu.descriptorBase d else m.base s }
      else none
  | setStack a, m => some { m with rsp := a }
  | orCr0 bits, m => writeCr0 (m.cr0 ||| bits) m
  | setCr3 root, m => some { m with cr3 := root }
  | orCr4 bits, m => some { m with cr4 := m.cr4 ||| bits }
  | orEfer bits, m => writeEfer (m.efer ||| bits) m
  | access ranges f, m =>
    (ranges.mapM fun r => m.place (m.linear r.1 r.2.1) r.2.2).map fun places => { m with ram := f places m.ram }
  | jump selector offset, m => m.transfer selector offset
  | farReturn selector offset, m =>
    (m.place (m.linear .ss (m.rsp - 16).toNat) 16).bind fun p =>
      let ram := store64 m.ram (p + 8) (selector.setWidth 64)
      ModeCpu.transfer { m with ram := store64 ram p (BitVec.ofNat 64 offset) } selector offset
  | call returnTo target, m =>
    (m.place (m.linear .ss (m.rsp - 8).toNat) 8).map fun p =>
      { m with ram := store64 m.ram p returnTo, rsp := m.rsp - 8, rip := target }

end Instr

/-- An instruction and where it was assembled for and loaded. -/
structure Placed where
  linear : ℕ
  physical : ℕ
  instr : Instr

/-- Instructions in the order of their numbers. -/
def placeCode (linear physical : ℕ → ℕ) (first : ℕ) : List Instr → List Placed
  | [] => []
  | i :: code => ⟨linear first, physical first, i⟩ :: placeCode linear physical (first + 1) code

/-- Straight code assembled with BITS `bits`, every instruction fetched in the mode it finds. -/
def runCode (bits : ℕ) : List Placed → ModeCpu → Option ModeCpu
  | [], m => some m
  | i :: code, m =>
    if m.fetches bits i.linear i.physical then (i.instr.execute m).bind (runCode bits code) else none

def enterCode (bits : ℕ) (code : List Placed) (m : ModeCpu) : Option ModeCpu :=
  if (code.head?.map Placed.linear) = some m.rip then runCode bits code m else none

section Rules

variable {bits : ℕ} {i : Placed} {code : List Placed} {m m' : ModeCpu} {r : Option ModeCpu}

theorem decodes_long (hactive : m.longActive = true) (hlong : m.long = true) : m.decodes 64 = true := by
  rw [ModeCpu.decodes, hactive, hlong]
  rfl

theorem translate_walk (hpaging : m.paging = true) (hlong : m.longActive = true)
    (hfour : m.fiveLevel = false) {v : ℕ} {t : Translation} (h : walk m.ram (frame m.cr3) v = some t) :
    m.translate v = some t.physical := by
  rw [ModeCpu.translate, hpaging, hlong, hfour, h]
  rfl

theorem place_of_translate {a p n : ℕ} (hn : 0 < n) (h : ∀ i < n, m.translate (a + i) = some (p + i)) :
    m.place a n = some p := by
  have hfirst : m.translate a = some p := h 0 hn
  rw [ModeCpu.place, hfirst, Option.bind_some, if_pos h]

theorem descriptor_eq {selector : BitVec 16} {k p : ℕ} {d : BitVec 64}
    (hselector : selector &&& 0xfffc ≠ 0 ∧ selector.toNat / 8 * 8 = k) (hlimit : k + 7 ≤ m.gdtLimit)
    (hplace : m.place (m.gdtBase + k) 8 = some p) (hd : load64 m.ram p = d) :
    m.descriptor selector = some d := by
  obtain ⟨hnull, rfl⟩ := hselector
  have hpresent : ¬ (selector &&& 0xfffc = 0 ∨ m.gdtLimit < selector.toNat / 8 * 8 + 7) := by
    rintro (h | h)
    · exact hnull h
    · omega
  rw [ModeCpu.descriptor, if_neg hpresent, hplace, Option.map_some, hd]

def storeAll (stores : List (ℕ × ℕ)) (ram : Memory) : Memory :=
  stores.foldl (fun ram s => ByteMemory.store ram s.1 4 s.2) ram

end Rules

end X86
