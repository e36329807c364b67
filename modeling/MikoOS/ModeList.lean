import MikoOS.Library.Loop
import MikoOS.RealMode

/-!
# The list of VBE modes

`Label_SVGA_Mode_Info_Get`: Loader walks the mode list of the controller block and stores one
ModeInfo block for each mode behind 0x8200. Function 4F01h answers as it likes. The limit of ES, which
an earlier excursion into protected mode may have raised to 4 GiB, is a parameter. The hexadecimal
display of the numbers is left out.
-/

namespace MikoOS

open ByteMemory ByteString

namespace Loader

def loaderPhysicalBase : BitVec 32 := 0x10000

/-- Function 4F01h: AX, and what it writes at ES:DI. -/
structure ModeAnswer where
  ax : BitVec 16
  block : Bytes
  size : block.length = 256

/-- Registers and memory of the loop, the list words read with their addresses, and the modes
queried with the places of their blocks. -/
structure Enumeration where
  esi : BitVec 32
  edi : BitVec 32
  ram : Memory
  reads : List (ℕ × BitVec 16)
  queries : List (BitVec 16 × ℕ)

inductive Exit
  | finished
  | failed
  | fault
  deriving DecidableEq

/-- One pass from the label; ES is zero. -/
def svgaModeInfoGet (limit : ℕ) (answer : ℕ → ModeAnswer) (s : Enumeration) :
    Enumeration ⊕ (Exit × Enumeration) :=
  if limit < s.esi.toNat + 1 then .inr (.fault, s)
  else
    let cx := load16 s.ram s.esi.toNat
    let s := { s with reads := s.reads ++ [(s.esi.toNat, cx)] }
    if cx = 0xffff then .inr (.finished, s)
    else if loaderPhysicalBase - 0x100 < s.edi then .inr (.failed, s)
    else
      let place := linear 0 (s.edi.setWidth 16)
      let reply := answer s.queries.length
      let s := { s with ram := write s.ram place reply.block, queries := s.queries ++ [(cx, place)] }
      if reply.ax ≠ 0x004f then .inr (.failed, s)
      else .inl { s with esi := s.esi + 2, edi := s.edi + 0x100 }

/-- The state at the label: ESI takes the pointer of the controller block as one number. -/
def Enumeration.first (ram : Memory) : Enumeration := ⟨load32 ram 0x800e, 0x8200, ram, [], []⟩

def modeListOffset (ram : Memory) : BitVec 16 := load16 ram 0x800e
def modeListSegment (ram : Memory) : BitVec 16 := load16 ram 0x8010

/-- Where word `k` of the list is. -/
def modeListAddress (ram : Memory) (k : ℕ) : ℕ :=
  linear (modeListSegment ram) (modeListOffset ram) + 2 * k

def modeNumber (ram : Memory) (k : ℕ) : BitVec 16 := load16 ram (modeListAddress ram k)

def modeInfo (k : ℕ) : ℕ := 0x8200 + 0x100 * k

/-- The list is read word by word, every mode in it is queried once, up to a failing query or the
end of the room below Loader, and each block has its own 256 bytes. -/
structure Enumerates (answer : ℕ → ModeAnswer) (ram : Memory) (exit : Exit) (s : Enumeration) :
    Prop where
  reads : s.reads = (List.range s.reads.length).map fun k => (modeListAddress ram k, modeNumber ram k)
  readsBound : s.reads.length ≤ 127
  queries : s.queries = (List.range s.queries.length).map fun k => (modeNumber ram k, modeInfo k)
  modes : ∀ k < s.queries.length, modeNumber ram k ≠ 0xffff
  room : ∀ k < s.queries.length, modeInfo k + 256 ≤ loaderPhysicalBase.toNat
  finished : exit = .finished →
    modeNumber ram s.queries.length = 0xffff ∧ ∀ k < s.queries.length, (answer k).ax = 0x004f
  failed : exit = .failed → s.queries.length = 126 ∨
    ∃ k, s.queries.length = k + 1 ∧ (answer k).ax ≠ 0x004f
  left : exit ≠ .fault
  blocks : ∀ k < s.queries.length, ∀ i < 256, s.ram (modeInfo k + i) = (answer k).block.getD i 0
  rest : ∀ x, x < 0x8200 ∨ modeInfo s.queries.length ≤ x → s.ram x = ram x

/-- Memory with the blocks of the first `k` answers. -/
def placeBlocks (answer : ℕ → ModeAnswer) (ram : Memory) : ℕ → Memory
  | 0 => ram
  | k + 1 => write (placeBlocks answer ram k) (modeInfo k) (answer k).block

/-- Word `k` is within the limit of ES and not changed by the first `k` blocks. -/
structure Kept (limit : ℕ) (answer : ℕ → ModeAnswer) (ram : Memory) (k : ℕ) : Prop where
  within : modeListAddress ram k + 1 ≤ limit
  word : load16 (placeBlocks answer ram k) (modeListAddress ram k) = modeNumber ram k

/-- The segment is zero, and each word up to the end of the list is kept until it is read. -/
structure FlatList (limit : ℕ) (answer : ℕ → ModeAnswer) (ram : Memory) : Prop where
  segment : modeListSegment ram = 0
  kept : ∀ k ≤ 126, (∀ i < k, modeNumber ram i ≠ 0xffff ∧ (answer i).ax = 0x004f) →
    Kept limit answer ram k

variable {limit : ℕ} {answer : ℕ → ModeAnswer} {ram : Memory} {s : Enumeration} {k : ℕ}

theorem placeBlocks_outside {x : ℕ} (hx : x < 0x8200 ∨ modeInfo k ≤ x) :
    placeBlocks answer ram k x = ram x := by
  induction k with
  | zero => rfl
  | succ k ih =>
    unfold modeInfo at hx ih
    rw [placeBlocks, write_outside (by rw [(answer k).size, modeInfo]; omega), ih (by omega)]

theorem placeBlocks_inside {j i : ℕ} (hj : j < k) (hi : i < 256) :
    placeBlocks answer ram k (modeInfo j + i) = (answer j).block.getD i 0 := by
  induction k with
  | zero => exact absurd hj (Nat.not_lt_zero j)
  | succ k ih =>
    by_cases hlast : j = k
    · subst hlast
      rw [placeBlocks, write_inside (by rw [(answer j).size]; omega), Nat.add_sub_cancel_left]
    · rw [placeBlocks, write_outside (by rw [(answer k).size]; unfold modeInfo; omega),
        ih (by omega)]

/-- The loop is about to read word `k`, and all before it went well. -/
structure Enumeration.At (answer : ℕ → ModeAnswer) (ram : Memory) (k : ℕ) (s : Enumeration) :
    Prop where
  esi : s.esi.toNat = modeListAddress ram k
  edi : s.edi.toNat = modeInfo k
  reads : s.reads = (List.range k).map fun i => (modeListAddress ram i, modeNumber ram i)
  queries : s.queries = (List.range k).map fun i => (modeNumber ram i, modeInfo i)
  memory : s.ram = placeBlocks answer ram k
  earlier : ∀ i < k, modeNumber ram i ≠ 0xffff ∧ (answer i).ax = 0x004f
  bound : k ≤ 126

theorem load32_halves (ram : Memory) (a : ℕ) :
    (load32 ram a).toNat = (load16 ram (a + 2)).toNat * 65536 + (load16 ram a).toNat := by
  have hlow := load_lt ram a 2
  have hall : load ram a 4 = load ram a 2 + 65536 * load ram (a + 2) 2 := by
    simp only [load]
    ring
  rw [load32, load16, load16, BitVec.toNat_ofNat, BitVec.toNat_ofNat, BitVec.toNat_ofNat, hall]
  omega

theorem Enumeration.at_first (hsegment : modeListSegment ram = 0) :
    (Enumeration.first ram).At answer ram 0 where
  esi := by
    have hhigh : load16 ram (0x800e + 2) = 0 := hsegment
    have hzero : (0 : BitVec 16).toNat = 0 := rfl
    change (load32 ram 0x800e).toNat = _
    rw [load32_halves, hhigh, modeListAddress, linear, hsegment, hzero, modeListOffset]
    omega
  edi := rfl
  reads := rfl
  queries := rfl
  memory := rfl
  earlier := fun i hi => absurd hi (Nat.not_lt_zero i)
  bound := Nat.zero_le 126

theorem Enumeration.At.length_queries (h : s.At answer ram k) : s.queries.length = k := by
  rw [h.queries, List.length_map, List.length_range]

/-- The place of a block while there is room for it. -/
theorem Enumeration.At.place (h : s.At answer ram k) (hroom : k ≤ 125) :
    linear 0 (s.edi.setWidth 16) = modeInfo k := by
  have hzero : (0 : BitVec 16).toNat = 0 := rfl
  rw [linear, BitVec.toNat_setWidth, h.edi, hzero]
  unfold modeInfo
  omega

theorem Enumeration.At.room (h : s.At answer ram k) :
    loaderPhysicalBase - 0x100 < s.edi ↔ k = 126 := by
  have hbound := h.bound
  have hroom : (loaderPhysicalBase - 0x100).toNat = 0xff00 := by decide
  rw [BitVec.lt_def, h.edi, hroom, modeInfo]
  omega

/-- The state after word `k` was read. -/
def Enumeration.listed (s : Enumeration) (ram : Memory) (k : ℕ) : Enumeration :=
  { s with reads := s.reads ++ [(modeListAddress ram k, modeNumber ram k)] }

/-- The state after mode `k` was queried. -/
def Enumeration.asked (s : Enumeration) (answer : ℕ → ModeAnswer) (ram : Memory) (k : ℕ) : Enumeration :=
  { s.listed ram k with
    ram := write s.ram (modeInfo k) (answer k).block
    queries := s.queries ++ [(modeNumber ram k, modeInfo k)] }

theorem Enumeration.At.step (h : s.At answer ram k) (hkept : Kept limit answer ram k) :
    svgaModeInfoGet limit answer s =
      if modeNumber ram k = 0xffff then .inr (.finished, s.listed ram k)
      else if k = 126 then .inr (.failed, s.listed ram k)
      else if (answer k).ax ≠ 0x004f then .inr (.failed, s.asked answer ram k)
      else .inl { s.asked answer ram k with esi := s.esi + 2, edi := s.edi + 0x100 } := by
  have hword : load16 s.ram s.esi.toNat = modeNumber ram k := by
    rw [h.memory, h.esi, hkept.word]
  unfold svgaModeInfoGet
  rw [if_neg (by rw [h.esi]; exact Nat.not_lt.mpr hkept.within)]
  dsimp only
  rw [hword, h.esi, h.length_queries]
  by_cases hlast : modeNumber ram k = 0xffff
  · rw [if_pos hlast, if_pos hlast]
    rfl
  · rw [if_neg hlast, if_neg hlast]
    by_cases hroom : k = 126
    · rw [if_pos (h.room.mpr hroom), if_pos hroom]
      rfl
    · have hplace := h.place (Nat.lt_succ_iff.mp (Nat.lt_of_le_of_ne h.bound hroom))
      rw [if_neg (mt h.room.mp hroom), if_neg hroom, hplace]
      rfl

theorem map_range_succ {α : Type} (f : ℕ → α) (k : ℕ) :
    (List.range k).map f ++ [f k] = (List.range (k + 1)).map f := by
  rw [List.range_succ, List.map_append, List.map_singleton]

theorem Enumeration.At.listed_reads (h : s.At answer ram k) : (s.listed ram k).reads =
    (List.range (k + 1)).map fun i => (modeListAddress ram i, modeNumber ram i) := by
  rw [← map_range_succ, ← h.reads]
  rfl

theorem Enumeration.At.asked_queries (h : s.At answer ram k) : (s.asked answer ram k).queries =
    (List.range (k + 1)).map fun i => (modeNumber ram i, modeInfo i) := by
  rw [← map_range_succ, ← h.queries]
  rfl

theorem Enumeration.At.asked_ram (h : s.At answer ram k) :
    (s.asked answer ram k).ram = placeBlocks answer ram (k + 1) := by
  rw [placeBlocks, ← h.memory]
  rfl

variable (ram) in
theorem modeListAddress_lt (hk : k ≤ 126) : modeListAddress ram k < 2 ^ 21 := by
  have hsegment := (modeListSegment ram).isLt
  have hoffset := (modeListOffset ram).isLt
  rw [modeListAddress, linear]
  omega

/-- The state before word `k + 1` is read. -/
def Enumeration.next (s : Enumeration) (answer : ℕ → ModeAnswer) (ram : Memory) (k : ℕ) : Enumeration :=
  { s.asked answer ram k with esi := s.esi + 2, edi := s.edi + 0x100 }

theorem Enumeration.At.next (h : s.At answer ram k) (hnumber : modeNumber ram k ≠ 0xffff)
    (hax : (answer k).ax = 0x004f) (hroom : k ≠ 126) : (s.next answer ram k).At answer ram (k + 1) where
  esi := by
    have haddress := modeListAddress_lt ram h.bound
    have htwo : (2 : BitVec 32).toNat = 2 := rfl
    change (s.esi + 2).toNat = _
    rw [BitVec.toNat_add, h.esi, htwo, Nat.mod_eq_of_lt (by omega), modeListAddress, modeListAddress,
      Nat.mul_succ, Nat.add_assoc]
  edi := by
    have hbound := h.bound
    have hblock : (0x100 : BitVec 32).toNat = 0x100 := rfl
    change (s.edi + 0x100).toNat = _
    rw [BitVec.toNat_add, h.edi, hblock]
    unfold modeInfo
    omega
  reads := h.listed_reads
  queries := h.asked_queries
  memory := h.asked_ram
  earlier := by
    intro i hi
    by_cases hlast : i = k
    · subst hlast
      exact ⟨hnumber, hax⟩
    · exact h.earlier i (by omega)
  bound := by
    have hbound := h.bound
    omega

/-- What `q` queries of the list leave behind. -/
theorem Enumerates.of_prefix {exit : Exit} {r q : ℕ} (hr : r ≤ 127) (hq : q ≤ 126)
    (hreads : s.reads = (List.range r).map fun i => (modeListAddress ram i, modeNumber ram i))
    (hqueries : s.queries = (List.range q).map fun i => (modeNumber ram i, modeInfo i))
    (hmemory : s.ram = placeBlocks answer ram q) (hmodes : ∀ i < q, modeNumber ram i ≠ 0xffff)
    (hfinished : exit = .finished →
      modeNumber ram q = 0xffff ∧ ∀ i < q, (answer i).ax = 0x004f)
    (hfailed : exit = .failed → q = 126 ∨ ∃ i, q = i + 1 ∧ (answer i).ax ≠ 0x004f)
    (hleft : exit ≠ .fault) : Enumerates answer ram exit s := by
  have hreadsLength : s.reads.length = r := by
    rw [hreads, List.length_map, List.length_range]
  have hlength : s.queries.length = q := by
    rw [hqueries, List.length_map, List.length_range]
  have hbase : loaderPhysicalBase.toNat = 0x10000 := rfl
  constructor
  · rw [hreadsLength, hreads]
  · rwa [hreadsLength]
  · rw [hlength, hqueries]
  · rwa [hlength]
  · intro i hi
    rw [hlength] at hi
    rw [hbase, modeInfo]
    omega
  · rwa [hlength]
  · rwa [hlength]
  · exact hleft
  · intro i hi j hj
    rw [hlength] at hi
    rw [hmemory, placeBlocks_inside hi hj]
  · intro x hx
    rw [hlength] at hx
    rw [hmemory, placeBlocks_outside hx]

/-- One pass at word `k` of a list that is kept. -/
theorem Enumeration.At.pass (h : s.At answer ram k) (hkept : Kept limit answer ram k) :
    (svgaModeInfoGet limit answer s).elim (fun t => t.At answer ram (k + 1))
      fun r => Enumerates answer ram r.1 r.2 := by
  have hbound := h.bound
  rw [h.step hkept]
  by_cases hlast : modeNumber ram k = 0xffff
  · rw [if_pos hlast]
    change Enumerates answer ram .finished (s.listed ram k)
    apply Enumerates.of_prefix (by omega) hbound h.listed_reads h.queries h.memory
    · intro i hi
      exact (h.earlier i hi).1
    · intro _
      exact ⟨hlast, fun i hi => (h.earlier i hi).2⟩
    · intro hfailed
      exact absurd hfailed (by decide)
    · decide
  · rw [if_neg hlast]
    by_cases hroom : k = 126
    · rw [if_pos hroom]
      change Enumerates answer ram .failed (s.listed ram k)
      apply Enumerates.of_prefix (by omega) hbound h.listed_reads h.queries h.memory
      · intro i hi
        exact (h.earlier i hi).1
      · intro hfinished
        exact absurd hfinished (by decide)
      · intro _
        exact Or.inl hroom
      · decide
    · rw [if_neg hroom]
      by_cases hax : (answer k).ax = 0x004f
      · rw [if_neg (not_not_intro hax)]
        exact h.next hlast hax hroom
      · rw [if_pos hax]
        have hmodes : ∀ i < k + 1, modeNumber ram i ≠ 0xffff := by
          intro i hi
          by_cases hsame : i = k
          · rwa [hsame]
          · exact (h.earlier i (by omega)).1
        change Enumerates answer ram .failed (s.asked answer ram k)
        apply Enumerates.of_prefix (s := s.asked answer ram k) (by omega) (by omega)
          h.listed_reads h.asked_queries h.asked_ram hmodes
        · intro hfinished
          exact absurd hfinished (by decide)
        · intro _
          exact Or.inr ⟨k, rfl, hax⟩
        · decide

/-- The word read goes to the end of the record. -/
theorem pass_reads (answer : ℕ → ModeAnswer) (hwithin : s.esi.toNat + 1 ≤ limit) :
    (svgaModeInfoGet limit answer s).elim Enumeration.reads (fun r => r.2.reads) =
      s.reads ++ [(s.esi.toNat, load16 s.ram s.esi.toNat)] := by
  unfold svgaModeInfoGet
  rw [if_neg (Nat.not_lt.mpr hwithin)]
  dsimp only
  split_ifs
  · rfl
  · rfl
  · rfl
  · rfl

theorem run_prefix {fuel : ℕ} {exit : Exit} {t : Enumeration}
    (h : Loop.run (svgaModeInfoGet limit answer) fuel s = some (exit, t)) : s.reads <+: t.reads := by
  apply Loop.run_of_invariant (fun u => s.reads <+: u.reads) (fun r => s.reads <+: r.2.reads) _
    (List.prefix_refl _) h
  intro u hu
  by_cases hwithin : u.esi.toNat + 1 ≤ limit
  · have hpass := pass_reads answer hwithin
    have hlonger := hu.trans (List.prefix_append u.reads [(u.esi.toNat, load16 u.ram u.esi.toNat)])
    rw [← hpass] at hlonger
    cases hbody : svgaModeInfoGet limit answer u with
    | inl v =>
      rw [hbody] at hlonger
      exact hlonger
    | inr r =>
      rw [hbody] at hlonger
      exact hlonger
  · unfold svgaModeInfoGet
    rw [if_pos (Nat.not_le.mp hwithin)]
    exact hu

/-- A run that does not fault reads the word at ESI next. -/
theorem run_reads {fuel : ℕ} {exit : Exit} {t : Enumeration}
    (h : Loop.run (svgaModeInfoGet limit answer) (fuel + 1) s = some (exit, t)) (hleft : exit ≠ .fault) :
    s.esi.toNat + 1 ≤ limit ∧ s.reads ++ [(s.esi.toNat, load16 s.ram s.esi.toNat)] <+: t.reads := by
  by_cases hwithin : s.esi.toNat + 1 ≤ limit
  · refine ⟨hwithin, ?_⟩
    have hpass := pass_reads answer hwithin
    cases hbody : svgaModeInfoGet limit answer s with
    | inl u =>
      rw [hbody] at hpass
      rw [Loop.run_continue hbody] at h
      rw [← hpass]
      exact run_prefix h
    | inr r =>
      rw [hbody] at hpass
      rw [Loop.run_exit hbody, Option.some.injEq] at h
      rw [← hpass, h]
      exact List.prefix_refl _
  · have hbody : svgaModeInfoGet limit answer s = .inr (.fault, s) := if_pos (Nat.not_le.mp hwithin)
    rw [Loop.run_exit hbody, Option.some.injEq, Prod.mk.injEq] at h
    exact absurd h.1.symm hleft

/-- What the record of a correct run has at its place `k`. -/
theorem Enumerates.word {exit : Exit} (h : Enumerates answer ram exit s) {reads : List (ℕ × BitVec 16)}
    {x : ℕ × BitVec 16} (hinitial : reads ++ [x] <+: s.reads) :
    x = (modeListAddress ram reads.length, modeNumber ram reads.length) := by
  have hlt := hinitial.length_le
  rw [List.length_append, List.length_singleton] at hlt
  have hget : s.reads[reads.length]? = some x := by
    obtain ⟨rest, hrest⟩ := hinitial
    rw [← hrest, List.append_assoc, List.getElem?_append_right (Nat.le_refl _), Nat.sub_self]
    rfl
  rw [h.reads, List.getElem?_map, List.getElem?_range (by omega), Option.map_some,
    Option.some.injEq] at hget
  exact hget.symm

theorem Enumerates.segment {exit : Exit} (h : Enumerates answer ram exit s)
    (hrun : Loop.run (svgaModeInfoGet limit answer) 127 (Enumeration.first ram) = some (exit, s)) :
    modeListSegment ram = 0 := by
  obtain ⟨-, hinitial⟩ := run_reads hrun h.left
  have hplace := congrArg Prod.fst (h.word hinitial)
  change (load32 ram 0x800e).toNat = modeListAddress ram 0 at hplace
  rw [load32_halves, modeListAddress, linear] at hplace
  apply BitVec.eq_of_toNat_eq
  change (load16 ram 0x8010).toNat * 65536 + (load16 ram 0x800e).toNat =
    (load16 ram 0x8010).toNat * 16 + (load16 ram 0x800e).toNat + 2 * 0 at hplace
  change (load16 ram 0x8010).toNat = 0
  omega

theorem Enumerates.kept {exit : Exit} {t : Enumeration} {fuel : ℕ} (h : Enumerates answer ram exit t)
    (hat : s.At answer ram k)
    (hrun : Loop.run (svgaModeInfoGet limit answer) (fuel + 1) s = some (exit, t)) :
    Kept limit answer ram k := by
  obtain ⟨hwithin, hinitial⟩ := run_reads hrun h.left
  have hlength : s.reads.length = k := by
    rw [hat.reads, List.length_map, List.length_range]
  have hword := congrArg Prod.snd (h.word hinitial)
  rw [hat.esi, hat.memory, hlength] at hword
  rw [hat.esi] at hwithin
  exact ⟨hwithin, hword⟩

theorem Enumerates.reaches {exit : Exit} (h : Enumerates answer ram exit s)
    (hrun : Loop.run (svgaModeInfoGet limit answer) 127 (Enumeration.first ram) = some (exit, s))
    (hk : k ≤ 126) (hearlier : ∀ i < k, modeNumber ram i ≠ 0xffff ∧ (answer i).ax = 0x004f) :
    ∃ t, t.At answer ram k ∧
      Loop.run (svgaModeInfoGet limit answer) (126 - k + 1) t = some (exit, s) := by
  induction k with
  | zero => exact ⟨_, Enumeration.at_first (h.segment hrun), hrun⟩
  | succ k ih =>
    obtain ⟨t, hat, hrest⟩ := ih (by omega) fun i hi => hearlier i (by omega)
    obtain ⟨hnumber, hax⟩ := hearlier k (Nat.lt_succ_self k)
    have hstep := hat.step (h.kept hat hrest)
    rw [if_neg hnumber, if_neg (by omega), if_neg (not_not_intro hax)] at hstep
    refine ⟨_, hat.next hnumber hax (by omega), ?_⟩
    rw [Loop.run_continue hstep] at hrest
    have hfuel : 126 - (k + 1) + 1 = 126 - k := by omega
    rw [hfuel]
    exact hrest

/-- The enumeration takes the far pointer for a linear address, which is the same for segment zero
only. -/
theorem enumerates_iff (limit : ℕ) (answer : ℕ → ModeAnswer) (ram : Memory) :
    (∃ exit s, Loop.run (svgaModeInfoGet limit answer) 127 (Enumeration.first ram) = some (exit, s) ∧
      Enumerates answer ram exit s) ↔ FlatList limit answer ram := by
  constructor
  · intro hexists
    obtain ⟨exit, s, hrun, h⟩ := hexists
    refine ⟨h.segment hrun, ?_⟩
    intro k hk hearlier
    obtain ⟨t, hat, hrest⟩ := h.reaches hrun hk hearlier
    exact h.kept hat hrest
  · intro hflat
    have hpass : ∀ s : Enumeration, (∃ k, s.At answer ram k) → (svgaModeInfoGet limit answer s).elim
        (fun t => (∃ k, t.At answer ram k) ∧ 126 - t.queries.length < 126 - s.queries.length)
        fun r => Enumerates answer ram r.1 r.2 := by
      intro s hs
      obtain ⟨k, hat⟩ := hs
      have hpass := hat.pass (hflat.kept k hat.bound hat.earlier)
      cases hbody : svgaModeInfoGet limit answer s with
      | inl t =>
        rw [hbody] at hpass
        have hnext : t.At answer ram (k + 1) := hpass
        have hbound := hnext.bound
        refine ⟨⟨k + 1, hnext⟩, ?_⟩
        rw [hnext.length_queries, hat.length_queries]
        omega
      | inr r =>
        rw [hbody] at hpass
        exact hpass
    obtain ⟨r, hrun, hr⟩ := Loop.run_of_measure (fun s : Enumeration => ∃ k, s.At answer ram k)
      (fun r : Exit × Enumeration => Enumerates answer ram r.1 r.2) (fun s => 126 - s.queries.length)
      hpass ⟨0, Enumeration.at_first hflat.segment⟩ (Nat.lt_succ_of_le (Nat.sub_le 126 _))
    exact ⟨r.1, r.2, hrun, hr⟩

def blankAnswer (_ : ℕ) : ModeAnswer := ⟨0x004f, List.replicate 256 0, List.length_replicate⟩

/-- The pointer 0000:7C00 to a list of the modes 0x118 and 0x115. -/
def nearList : Memory :=
  write (write (fun _ => 0) 0x800e [0x00, 0x7c, 0, 0]) 0x7c00 [0x18, 0x01, 0x15, 0x01, 0xff, 0xff]

theorem nearList_flat : FlatList 0xffff blankAnswer nearList where
  segment := by decide
  kept := by
    intro k _ hearlier
    have hk : k ≤ 2 := by
      by_contra hlt
      exact (hearlier 2 (by omega)).1 (by decide)
    have hstart : linear (modeListSegment nearList) (modeListOffset nearList) = 0x7c00 := by decide
    have haddress : modeListAddress nearList k = 0x7c00 + 2 * k := by rw [modeListAddress, hstart]
    constructor
    · rw [haddress]
      omega
    · rw [modeNumber]
      apply load16_congr
      intro i hi
      rw [haddress]
      exact placeBlocks_outside (Or.inl (by omega))

/-- A list in the first 64 KiB is read to its end, both modes of it being queried. -/
theorem enumerates_near : ∃ s,
    Loop.run (svgaModeInfoGet 0xffff blankAnswer) 127 (Enumeration.first nearList) = some (.finished, s) ∧
      s.queries = [(0x118, 0x8200), (0x115, 0x8300)] := by
  obtain ⟨exit, s, hrun, h⟩ := (enumerates_iff 0xffff blankAnswer nearList).mpr nearList_flat
  have hmodes : s.queries.length ≤ 2 := by
    by_contra hlt
    exact h.modes 2 (by omega) (by decide)
  have hexit : exit = .finished := by
    cases exit with
    | finished => rfl
    | failed =>
      rcases h.failed rfl with hfull | ⟨k, -, hax⟩
      · omega
      · exact absurd rfl hax
    | fault => exact absurd rfl h.left
  subst hexit
  have hend := (h.finished rfl).1
  have htwo : s.queries.length = 2 := by
    interval_cases hn : s.queries.length
    · exact absurd hend (by decide)
    · exact absurd hend (by decide)
    · rfl
  refine ⟨s, hrun, ?_⟩
  rw [h.queries, htwo]
  decide

/-- The pointer C000:0000 to a list of the one mode 0x118. -/
def farList : Memory := write (write (fun _ => 0xff) 0x800e [0, 0, 0, 0xc0]) 0xc0000 [0x18, 0x01]

/-- The word behind 0xC0000000 is taken for the end of the list, and mode 0x118 is not queried. -/
theorem enumeration_far :
    modeListAddress farList 0 = 0xc0000 ∧ modeNumber farList 0 = 0x118 ∧
      (∃ s, Loop.run (svgaModeInfoGet 0xffffffff blankAnswer) 127 (Enumeration.first farList) =
        some (.finished, s) ∧ s.reads = [(0xc0000000, 0xffff)] ∧ s.queries = []) ∧
      ¬∃ exit s, Loop.run (svgaModeInfoGet 0xffffffff blankAnswer) 127 (Enumeration.first farList) =
        some (exit, s) ∧ Enumerates blankAnswer farList exit s := by
  have hstep : svgaModeInfoGet 0xffffffff blankAnswer (Enumeration.first farList) =
      .inr (.finished, { Enumeration.first farList with reads := [(0xc0000000, 0xffff)] }) := by rfl
  refine ⟨by decide, by decide, ⟨_, Loop.run_exit hstep, rfl, rfl⟩, ?_⟩
  intro hexists
  obtain ⟨exit, s, hrun, h⟩ := hexists
  exact absurd (h.segment hrun) (by decide)

end Loader

end MikoOS
