import MikoOS.BootInfo
import MikoOS.Library.Loop
import MikoOS.RealMode

/-!
# Collecting the memory map in the Loader

`_Get_Mem_Struct` of `loader.asm` asks the firmware for one range per call and publishes the
normalised ranges at the addresses `read_memory_map` decodes. A firmware answer is arbitrary in its
carry flag, EAX, ECX, EBX and 24 bytes of scratch; the continuation token in EBX is only passed back.
`Handoff` says which header and entries memory holds. Messages on the screen are left out.
-/

namespace MikoOS

open ByteMemory

def scratchOffset : BitVec 16 := 0x5300
def countOffset : BitVec 16 := 0x4ff8
def smap : BitVec 32 := 0x534d4150

/-- The stack pointer of the Loader, in segment 0. -/
def loaderStack : ℕ := 0x7c00

/-- What one `int 0x15` leaves: flags, registers and the bytes at ES:DI. -/
structure Answer where
  carry : Bool
  eax : BitVec 32
  ecx : BitVec 32
  ebx : BitVec 32
  scratch : Vector (BitVec 8) 24

/-- The header before the first call; the old table and flag are cleared first. -/
def initialise (ram : Memory) : Memory :=
  let ram := fill ram headerAddress (16 + maxEntries * 20) 0
  let ram := store32 ram headerAddress headerMagic
  let ram := store16 ram (headerAddress + 4) 1
  let ram := store16 ram (headerAddress + 6) 20
  store16 ram (headerAddress + 10) 32

/-- Scratch, the saved segments and DI, and `int 0x15` with its answer. -/
def callFirmware (ds : BitVec 16) (a : Answer) (ram : Memory) : Memory :=
  let ram := fill ram (linear 0 scratchOffset) 24 0
  let ram := store32 ram (linear 0 (scratchOffset + 20)) 1
  let ram := store16 ram (loaderStack - 2) ds
  let ram := store16 ram (loaderStack - 4) 0
  let ram := store16 ram (loaderStack - 6) scratchOffset
  write ram (linear 0 scratchOffset) a.scratch.toList

/-- A 24-byte answer whose attribute bit 0 is clear loses its length. -/
def disable (es di : BitVec 16) (ram : Memory) : Memory :=
  if load32 ram (linear es (di + 20)) &&& 1 = 0 then
    store32 (store32 ram (linear es (di + 8)) 0) (linear es (di + 12)) 0
  else ram

/-- `.attributes`: any other attribute makes the range reserved. -/
def reserve (es di : BitVec 16) (ram : Memory) : Memory :=
  if load32 ram (linear es (di + 20)) &&& 0xfffffffe = 0 then ram
  else store32 ram (linear es (di + 16)) 2

/-- `.copy` on a table with a free slot. -/
def copyEntry (ds es : BitVec 16) (ram : Memory) : Memory :=
  let di := load16 ram (linear es countOffset) * 20 + 0x5000
  let ram := store16 ram (loaderStack - 2) ds
  let ram := copyForward ram (linear es di) (linear es scratchOffset) 20
  store16 ram (linear es countOffset) (load16 ram (linear es countOffset) + 1)

/-- `_Get_Mem_Complete`. -/
def publish (es : BitVec 16) (ram : Memory) : Memory := store32 ram (linear es 0x4ffc) 1

inductive Exit
  | complete
  | fail
  deriving DecidableEq, Repr

/-- How the collection ended, after how many calls, and memory then. -/
structure Collected where
  calls : ℕ
  exit : Exit
  ram : Memory

/-- One round; the state is the number of calls so far and memory. -/
def getMemStruct (ds : BitVec 16) (answers : ℕ → Answer) (s : ℕ × Memory) :
    (ℕ × Memory) ⊕ Collected :=
  let a := answers s.1
  let ram := callFirmware ds a s.2
  let di := load16 ram (loaderStack - 6)
  let es := load16 ram (loaderStack - 4)
  if a.carry then
    if load16 ram (linear es countOffset) = 0 then .inr ⟨s.1 + 1, .fail, ram⟩
    else .inr ⟨s.1 + 1, .complete, publish es ram⟩
  else if a.eax ≠ smap then .inr ⟨s.1 + 1, .fail, ram⟩
  else if a.ecx ≠ 20 ∧ a.ecx ≠ 24 then .inr ⟨s.1 + 1, .fail, ram⟩
  else
    let ram := if a.ecx = 20 then ram else reserve es di (disable es di ram)
    if maxEntries ≤ (load16 ram (linear es countOffset)).toNat then .inr ⟨s.1 + 1, .fail, ram⟩
    else
      let ram := copyEntry ds es ram
      if a.ebx ≠ 0 then .inl (s.1 + 1, ram) else .inr ⟨s.1 + 1, .complete, publish es ram⟩

/-- The whole collection, with at most `fuel` calls. -/
def collect (ds : BitVec 16) (answers : ℕ → Answer) (fuel : ℕ) (ram : Memory) : Option Collected :=
  Loop.run (getMemStruct ds answers) fuel (0, initialise ram)

namespace Answer

/-- The scratch bytes as a memory of their own. -/
def bytes (a : Answer) : Memory := fun i => a.scratch.toList.getD i 0

def attributes (a : Answer) : BitVec 32 := load32 a.bytes 20

/-- A successful answer of a known length. -/
def Accepted (a : Answer) : Prop :=
  a.carry = false ∧ a.eax = smap ∧ (a.ecx = 20 ∨ a.ecx = 24)

instance (a : Answer) : Decidable a.Accepted := inferInstanceAs (Decidable (_ ∧ _ ∧ (_ ∨ _)))

/-- A successful answer after which the firmware has more to tell. -/
def Continued (a : Answer) : Prop := a.Accepted ∧ a.ebx ≠ 0

/-- The 20-byte entry an accepted answer stands for. -/
def normalised (a : Answer) : E820Entry :=
  let e := E820Entry.read a.bytes 0
  if a.ecx = 20 then e
  else {
    address := e.address
    length := if a.attributes &&& 1 = 0 then 0 else e.length
    kind := if a.attributes &&& 0xfffffffe = 0 then e.kind else 2 }

end Answer

theorem Header.read_congr {m m' : Memory} {a b : ℕ} (h : ∀ i < 16, m (a + i) = m' (b + i)) :
    Header.read m a = Header.read m' b := by
  have hbyte : ∀ k n, k + n ≤ 16 → ∀ i < n, m (a + k + i) = m' (b + k + i) := by
    intro k n hk i hi
    rw [Nat.add_assoc, Nat.add_assoc]
    exact h (k + i) (by omega)
  rw [read, read, load32_congr fun i hi => h i (by omega), load16_congr (hbyte 4 2 (by omega)),
    load16_congr (hbyte 6 2 (by omega)), load16_congr (hbyte 8 2 (by omega)),
    load16_congr (hbyte 10 2 (by omega)), load32_congr (hbyte 12 4 (by omega))]

theorem E820Entry.read_congr {m m' : Memory} {a b : ℕ} (h : ∀ i < 20, m (a + i) = m' (b + i)) :
    E820Entry.read m a = E820Entry.read m' b := by
  have hbyte : ∀ k n, k + n ≤ 20 → ∀ i < n, m (a + k + i) = m' (b + k + i) := by
    intro k n hk i hi
    rw [Nat.add_assoc, Nat.add_assoc]
    exact h (k + i) (by omega)
  rw [read, read, load64_congr fun i hi => h i (by omega), load64_congr (hbyte 8 8 (by omega)),
    load32_congr (hbyte 16 4 (by omega))]

theorem Header.read_count (m : Memory) (a : ℕ) (v : BitVec 16) :
    Header.read (store16 m (a + 8) v) a = { Header.read m a with count := v } := by
  simp only [read]
  rw [load32_store16_outside (by omega), load16_store16_outside (by omega),
    load16_store16_outside (by omega), load16_store16, load16_store16_outside (by omega),
    load32_store16_outside (by omega)]

theorem Header.read_flags (m : Memory) (a : ℕ) (v : BitVec 32) :
    Header.read (store32 m (a + 12) v) a = { Header.read m a with flags := v } := by
  simp only [read]
  rw [load32_store32_outside (by omega), load16_store32_outside (by omega),
    load16_store32_outside (by omega), load16_store32_outside (by omega),
    load16_store32_outside (by omega), load32_store32]

/-- Memory holds a header with these flags and exactly these entries. -/
structure Handoff (flags : BitVec 32) (entries : List E820Entry) (ram : Memory) : Prop where
  header : Header.read ram headerAddress =
    ⟨headerMagic, 1, 20, BitVec.ofNat 16 entries.length, 32, flags⟩
  entry : ∀ i e, entries[i]? = some e → E820Entry.read ram (entriesAddress + i * 20) = e
  length_le : entries.length ≤ maxEntries

variable {ds : BitVec 16} {a : Answer} {ram : Memory} {x : ℕ}

theorem linear_scratch : linear 0 scratchOffset = 0x5300 := rfl

theorem length_scratch (a : Answer) : a.scratch.toList.length = 24 := Vector.length_toList

theorem callFirmware_outside (h : x < 0x5300 ∨ 0x5318 ≤ x ∧ x < 0x7bfa ∨ 0x7c00 ≤ x) :
    callFirmware ds a ram x = ram x := by
  have hlen := length_scratch a
  simp only [callFirmware, linear_scratch, store16, store32, loaderStack]
  rw [write_outside (by omega), store_outside (by omega), store_outside (by omega),
    store_outside (by omega), store_outside (by change x < 0x5314 ∨ 0x5314 + 4 ≤ x; omega),
    fill_outside (by omega)]

theorem callFirmware_scratch {i : ℕ} (hi : i < 24) :
    callFirmware ds a ram (0x5300 + i) = a.bytes i := by
  have hlen := length_scratch a
  simp only [callFirmware, linear_scratch]
  rw [write_inside (by omega), Nat.add_sub_cancel_left, Answer.bytes]

theorem callFirmware_di : load16 (callFirmware ds a ram) (loaderStack - 6) = scratchOffset := by
  have hlen := length_scratch a
  simp only [callFirmware, linear_scratch]
  rw [load16_congr fun i hi => write_outside (by rw [loaderStack]; omega), load16_store16]

theorem callFirmware_es : load16 (callFirmware ds a ram) (loaderStack - 4) = 0 := by
  have hlen := length_scratch a
  simp only [callFirmware, linear_scratch]
  rw [load16_congr fun i hi => write_outside (by rw [loaderStack]; omega),
    load16_store16_outside (by rw [loaderStack]; omega), load16_store16]

theorem Handoff.congr {flags : BitVec 32} {entries : List E820Entry} {ram' : Memory}
    (h : Handoff flags entries ram)
    (hframe : ∀ x, headerAddress ≤ x → x < entriesAddress + entries.length * 20 → ram' x = ram x) :
    Handoff flags entries ram' where
  header := by
    rw [← h.header]
    apply Header.read_congr
    intro i hi
    exact hframe _ (by omega) (by rw [headerAddress, entriesAddress]; omega)
  entry := by
    intro i e he
    rw [← h.entry i e he]
    have hlt := (List.getElem?_eq_some_iff.mp he).1
    apply E820Entry.read_congr
    intro k hk
    exact hframe _ (by rw [headerAddress, entriesAddress]; omega) (by omega)
  length_le := h.length_le

theorem Handoff.call {flags : BitVec 32} {entries : List E820Entry} (h : Handoff flags entries ram) :
    Handoff flags entries (callFirmware ds a ram) := by
  have hle := h.length_le
  apply h.congr
  intro x _ hx
  rw [maxEntries] at hle
  rw [entriesAddress] at hx
  exact callFirmware_outside (by omega)

theorem Handoff.count_eq {flags : BitVec 32} {entries : List E820Entry}
    (h : Handoff flags entries ram) :
    load16 ram (linear 0 countOffset) = BitVec.ofNat 16 entries.length :=
  congrArg Header.count h.header

theorem Handoff.count_toNat {flags : BitVec 32} {entries : List E820Entry}
    (h : Handoff flags entries ram) :
    (load16 ram (linear 0 countOffset)).toNat = entries.length := by
  have hle : entries.length ≤ 32 := h.length_le
  rw [h.count_eq, BitVec.toNat_ofNat, Nat.mod_eq_of_lt (by omega)]

theorem initialise_handoff (ram : Memory) : Handoff 0 [] (initialise ram) where
  header := by
    simp only [initialise, Header.read, maxEntries, headerAddress, Header.mk.injEq]
    refine ⟨?_, ?_, ?_, ?_, ?_, ?_⟩
    · rw [load32_store16_outside (by omega), load32_store16_outside (by omega),
        load32_store16_outside (by omega), load32_store32]
    · rw [load16_store16_outside (by omega), load16_store16_outside (by omega), load16_store16]
    · rw [load16_store16_outside (by omega), load16_store16]
    · rw [load16_store16_outside (by omega), load16_store16_outside (by omega),
        load16_store16_outside (by omega), load16_store32_outside (by omega),
        load16_fill_zero (by omega)]
      rfl
    · rw [load16_store16]
    · rw [load32_store16_outside (by omega), load32_store16_outside (by omega),
        load32_store16_outside (by omega), load32_store32_outside (by omega),
        load32_fill_zero (by omega)]
  entry := fun i e he => by simp at he
  length_le := Nat.zero_le _

theorem E820Entry.read_disabled (m : Memory) (b : ℕ) :
    E820Entry.read (store32 (store32 m (b + 8) 0) (b + 12) 0) b =
      { E820Entry.read m b with length := 0 } := by
  have hzero : load64 (store32 (store32 m (b + 8) 0) (b + 12) 0) (b + 8) = 0 := by
    rw [load64, load_eq_zero]
    · rfl
    · intro i hi
      rw [store32, store32, store]
      split
      · rw [show (0 : BitVec 32).toNat = 0 from rfl, Nat.zero_div]
        rfl
      · rw [store, if_pos (by omega), show (0 : BitVec 32).toNat = 0 from rfl, Nat.zero_div]
        rfl
  simp only [read]
  rw [load64_store32_outside (by omega), load64_store32_outside (by omega), hzero,
    load32_store32_outside (by omega), load32_store32_outside (by omega)]

theorem E820Entry.read_reserved (m : Memory) (b : ℕ) :
    E820Entry.read (store32 m (b + 16) 2) b = { E820Entry.read m b with kind := 2 } := by
  simp only [read]
  rw [load64_store32_outside (by omega), load64_store32_outside (by omega), load32_store32]

theorem disable_outside (h : x < 0x5300 ∨ 0x5318 ≤ x) : disable 0 scratchOffset ram x = ram x := by
  have h8 : linear 0 (scratchOffset + 8) = 0x5308 := rfl
  have h12 : linear 0 (scratchOffset + 12) = 0x530c := rfl
  rw [disable, h8, h12]
  split
  · rw [store32, store_outside (by omega), store32, store_outside (by omega)]
  · rfl

theorem reserve_outside (h : x < 0x5300 ∨ 0x5318 ≤ x) : reserve 0 scratchOffset ram x = ram x := by
  have h16 : linear 0 (scratchOffset + 16) = 0x5310 := rfl
  rw [reserve, h16]
  split
  · rfl
  · rw [store32, store_outside (by omega)]

theorem read_disable {attributes : BitVec 32} (h : load32 ram 0x5314 = attributes) :
    load32 (disable 0 scratchOffset ram) 0x5314 = attributes ∧
      E820Entry.read (disable 0 scratchOffset ram) 0x5300 =
        { E820Entry.read ram 0x5300 with
          length := if attributes &&& 1 = 0 then 0 else (E820Entry.read ram 0x5300).length } := by
  have h8 : linear 0 (scratchOffset + 8) = 0x5300 + 8 := rfl
  have h12 : linear 0 (scratchOffset + 12) = 0x5300 + 12 := rfl
  have h20 : linear 0 (scratchOffset + 20) = 0x5314 := rfl
  rw [disable, h20, h, h8, h12]
  by_cases hbit : attributes &&& 1 = 0
  · rw [if_pos hbit, if_pos hbit, load32_store32_outside (by omega),
      load32_store32_outside (by omega)]
    exact ⟨h, E820Entry.read_disabled ram 0x5300⟩
  · rw [if_neg hbit, if_neg hbit]
    exact ⟨h, rfl⟩

theorem read_reserve {attributes : BitVec 32} (h : load32 ram 0x5314 = attributes) :
    E820Entry.read (reserve 0 scratchOffset ram) 0x5300 =
      { E820Entry.read ram 0x5300 with
        kind := if attributes &&& 0xfffffffe = 0 then (E820Entry.read ram 0x5300).kind else 2 } := by
  have h16 : linear 0 (scratchOffset + 16) = 0x5300 + 16 := rfl
  have h20 : linear 0 (scratchOffset + 20) = 0x5314 := rfl
  rw [reserve, h20, h, h16]
  by_cases hother : attributes &&& 0xfffffffe = 0
  · rw [if_pos hother, if_pos hother]
  · rw [if_neg hother, if_neg hother]
    exact E820Entry.read_reserved ram 0x5300

/-- On the scratch bytes of an answer of 24 bytes, the two adjustments make the entry it stands
for. -/
theorem read_normalise (hscratch : ∀ i < 24, ram (0x5300 + i) = a.bytes i) (hlength : a.ecx ≠ 20) :
    E820Entry.read (reserve 0 scratchOffset (disable 0 scratchOffset ram)) 0x5300 =
      a.normalised := by
  have hread : E820Entry.read ram 0x5300 = E820Entry.read a.bytes 0 := by
    apply E820Entry.read_congr
    intro i hi
    rw [hscratch i (by omega), Nat.zero_add]
  have hattributes : load32 ram 0x5314 = a.attributes := by
    apply load32_congr
    intro i hi
    rw [show 0x5314 + i = 0x5300 + (20 + i) by omega, hscratch (20 + i) (by omega)]
  obtain ⟨hkeep, hdisable⟩ := read_disable hattributes
  rw [read_reserve hkeep, hdisable, hread, Answer.normalised, if_neg hlength]

theorem read_short (hscratch : ∀ i < 24, ram (0x5300 + i) = a.bytes i) (hlength : a.ecx = 20) :
    E820Entry.read ram 0x5300 = a.normalised := by
  rw [Answer.normalised, if_pos hlength]
  apply E820Entry.read_congr
  intro i hi
  rw [hscratch i (by omega), Nat.zero_add]

/-- Memory as `.copy` finds it, after an answer of either length. -/
def adjusted (a : Answer) (ram : Memory) : Memory :=
  if a.ecx = 20 then ram else reserve 0 scratchOffset (disable 0 scratchOffset ram)

theorem adjusted_outside (h : x < 0x5300) : adjusted a ram x = ram x := by
  unfold adjusted
  split
  · rfl
  · rw [reserve_outside (.inl h), disable_outside (.inl h)]

theorem read_adjusted (hscratch : ∀ i < 24, ram (0x5300 + i) = a.bytes i) :
    E820Entry.read (adjusted a ram) 0x5300 = a.normalised := by
  unfold adjusted
  by_cases hshort : a.ecx = 20
  · rw [if_pos hshort]
    exact read_short hscratch hshort
  · rw [if_neg hshort]
    exact read_normalise hscratch hshort

theorem Handoff.adjusted {flags : BitVec 32} {entries : List E820Entry} (h : Handoff flags entries ram) :
    Handoff flags entries (adjusted a ram) := by
  have hle := h.length_le
  rw [maxEntries] at hle
  apply h.congr
  intro x _ hx
  rw [entriesAddress] at hx
  exact adjusted_outside (by omega)

/-- Copying appends the scratch entry to the table and counts it. -/
theorem Handoff.push {entries : List E820Entry} {e : E820Entry} (h : Handoff 0 entries ram)
    (he : E820Entry.read ram 0x5300 = e) (hroom : entries.length < maxEntries) :
    Handoff 0 (entries ++ [e]) (copyEntry ds 0 ram) := by
  have hlt : entries.length < 32 := hroom
  have hcount := h.count_eq
  have hslot : linear 0 (load16 ram (linear 0 countOffset) * 20 + 0x5000) =
      entriesAddress + entries.length * 20 := by
    rw [hcount, linear, BitVec.toNat_add, BitVec.toNat_mul, BitVec.toNat_ofNat, entriesAddress,
      Nat.mod_eq_of_lt (a := entries.length) (by omega)]
    change 0 * 16 + ((entries.length * 20 % 2 ^ 16) + 20480) % 2 ^ 16 = _
    omega
  obtain ⟨slot, hslotEq⟩ : ∃ slot, slot = entriesAddress + entries.length * 20 := ⟨_, rfl⟩
  have hslotVal : slot = 0x5000 + entries.length * 20 := hslotEq
  obtain ⟨table, htable⟩ : ∃ table, table =
      copyForward (store16 ram (loaderStack - 2) ds) slot 0x5300 20 := ⟨_, rfl⟩
  have hcopy : copyEntry ds 0 ram = store16 table 0x4ff8 (load16 table 0x4ff8 + 1) := by
    rw [htable, hslotEq, ← hslot]
    rfl
  have houtside : ∀ x, x < 0x5300 → (x < slot ∨ slot + 20 ≤ x) → table x = ram x := by
    intro x hx hslot
    rw [htable, copyForward_eq_copy (by omega), copy_outside (by omega), store16, loaderStack,
      store_outside (by omega)]
  have hinside : ∀ i < 20, table (slot + i) = ram (0x5300 + i) := by
    intro i hi
    rw [htable, copyForward_eq_copy (by omega), copy_inside (by omega), Nat.add_sub_cancel_left,
      store16, loaderStack, store_outside (by omega)]
  have hheader : Header.read table headerAddress = Header.read ram headerAddress := by
    apply Header.read_congr
    intro i hi
    rw [headerAddress]
    exact houtside _ (by omega) (by omega)
  have hload : load16 table 0x4ff8 = BitVec.ofNat 16 entries.length := by
    have hfield : load16 table 0x4ff8 = (Header.read table headerAddress).count := rfl
    rw [hfield, hheader, h.header]
  have hframe : ∀ x, 0x5000 ≤ x → store16 table 0x4ff8 (load16 table 0x4ff8 + 1) x = table x := by
    intro x hx
    rw [store16, store_outside (by omega)]
  rw [hcopy]
  exact {
    header := by
      have hread := Header.read_count table headerAddress (load16 table 0x4ff8 + 1)
      rw [hheader, h.header, hload] at hread
      rw [hload, List.length_append, List.length_singleton, BitVec.ofNat_add]
      exact hread
    entry := by
      intro i f hf
      rcases Nat.lt_or_ge i entries.length with hi | hi
      · rw [List.getElem?_append_left hi] at hf
        rw [← h.entry i f hf]
        apply E820Entry.read_congr
        intro k hk
        rw [entriesAddress, hframe _ (by omega), houtside _ (by omega) (by omega)]
      · rw [List.getElem?_append_right hi, List.getElem?_singleton] at hf
        split at hf
        · obtain rfl := Option.some.inj hf
          obtain rfl : i = entries.length := by omega
          rw [← he, ← hslotEq]
          apply E820Entry.read_congr
          intro k hk
          rw [hframe _ (by omega), hinside k hk]
        · cases hf
    length_le := by
      rw [List.length_append, List.length_singleton]
      exact hroom }

theorem Handoff.publish {entries : List E820Entry} (h : Handoff 0 entries ram) :
    Handoff 1 entries (publish 0 ram) := by
  have hpublish : MikoOS.publish 0 ram = store32 ram (headerAddress + 12) 1 := rfl
  rw [hpublish]
  exact {
    header := by rw [Header.read_flags, h.header]
    entry := by
      intro i e he
      rw [← h.entry i e he]
      apply E820Entry.read_congr
      intro k hk
      rw [store32, store_outside (by rw [headerAddress, entriesAddress]; omega)]
    length_le := h.length_le }

/-- The entries that the first `n` answers stand for. -/
def collected (answers : ℕ → Answer) (n : ℕ) : List E820Entry :=
  (List.range n).map fun i => (answers i).normalised

theorem length_collected (answers : ℕ → Answer) (n : ℕ) : (collected answers n).length = n := by
  rw [collected, List.length_map, List.length_range]

theorem collected_succ (answers : ℕ → Answer) (n : ℕ) :
    collected answers (n + 1) = collected answers n ++ [(answers n).normalised] := by
  rw [collected, List.range_succ, List.map_append]
  rfl

/-- What holds when the loop is left: either a published table of accepted answers, after the last of them
or a call that found no more, or a reason to fail and an unset complete flag. -/
def Finished (answers : ℕ → Answer) (c : Collected) : Prop :=
  match c.exit with
  | .complete => ∃ n, 0 < n ∧ (∀ i < n, (answers i).Accepted) ∧
      (∀ i, i + 1 < c.calls → (answers i).ebx ≠ 0) ∧
      ((c.calls = n + 1 ∧ (answers n).carry = true) ∨ (c.calls = n ∧ (answers (n - 1)).ebx = 0)) ∧
      Handoff 1 (collected answers n) c.ram
  | .fail => ∃ n, c.calls = n + 1 ∧ (∀ i < n, (answers i).Continued) ∧
      ((n = 0 ∧ (answers n).carry = true) ∨
        ((answers n).carry = false ∧ (answers n).eax ≠ smap) ∨
        ((answers n).carry = false ∧ (answers n).ecx ≠ 20 ∧ (answers n).ecx ≠ 24) ∨
        (n = maxEntries ∧ (answers n).Accepted)) ∧
      Handoff 0 (collected answers n) c.ram

/-- The loop before call `n`: a table of the answers so far, each of which asked for the next call. -/
structure Collecting (answers : ℕ → Answer) (n : ℕ) (ram : Memory) : Prop where
  continued : ∀ i < n, (answers i).Continued
  handoff : Handoff 0 (collected answers n) ram

section Round

variable {answers : ℕ → Answer} {n : ℕ} {entries : List E820Entry}

/-- A round with the segments and DI as they come back from the stack. -/
theorem getMemStruct_eq (ds : BitVec 16) (answers : ℕ → Answer) (n : ℕ) (ram : Memory) :
    getMemStruct ds answers (n, ram) =
      let a := answers n
      let m := callFirmware ds a ram
      if a.carry then
        if load16 m (linear 0 countOffset) = 0 then .inr ⟨n + 1, .fail, m⟩
        else .inr ⟨n + 1, .complete, publish 0 m⟩
      else if a.eax ≠ smap then .inr ⟨n + 1, .fail, m⟩
      else if a.ecx ≠ 20 ∧ a.ecx ≠ 24 then .inr ⟨n + 1, .fail, m⟩
      else if maxEntries ≤ (load16 (adjusted a m) (linear 0 countOffset)).toNat then
        .inr ⟨n + 1, .fail, adjusted a m⟩
      else if a.ebx ≠ 0 then .inl (n + 1, copyEntry ds 0 (adjusted a m))
      else .inr ⟨n + 1, .complete, publish 0 (copyEntry ds 0 (adjusted a m))⟩ := by
  simp only [getMemStruct, callFirmware_di, callFirmware_es]
  rfl

/-- A set carry flag ends the list, or says that there is none. -/
theorem Collecting.ended (ds : BitVec 16) (h : Collecting answers n ram)
    (hcarry : (answers n).carry = true) :
    ∃ c, getMemStruct ds answers (n, ram) = .inr c ∧ c.calls = n + 1 ∧ Finished answers c := by
  have hcall : Handoff 0 (collected answers n) (callFirmware ds (answers n) ram) := h.handoff.call
  have hcount := hcall.count_toNat
  rw [length_collected] at hcount
  rw [getMemStruct_eq]
  dsimp only
  rw [if_pos hcarry]
  by_cases hzero : load16 (callFirmware ds (answers n) ram) (linear 0 countOffset) = 0
  · have hn : n = 0 := by
      rw [← hcount, hzero]
      rfl
    rw [if_pos hzero]
    exact ⟨_, rfl, rfl, n, rfl, h.continued, .inl ⟨hn, hcarry⟩, hcall⟩
  · have hn : 0 < n := by
      apply Nat.pos_of_ne_zero
      intro hn
      apply hzero
      rw [← BitVec.toNat_inj, hcount, hn]
      rfl
    rw [if_neg hzero]
    exact ⟨_, rfl, rfl, n, hn, fun i hi => (h.continued i hi).1,
      fun i hi => (h.continued i (Nat.lt_of_succ_lt_succ hi)).2, .inl ⟨rfl, hcarry⟩, hcall.publish⟩

/-- An answer with a wrong signature or length is refused. -/
theorem Collecting.refused (ds : BitVec 16) (h : Collecting answers n ram)
    (hcarry : (answers n).carry = false) (hbad : ¬ (answers n).Accepted) :
    ∃ c, getMemStruct ds answers (n, ram) = .inr c ∧ c.calls = n + 1 ∧ Finished answers c := by
  have hcall : Handoff 0 (collected answers n) (callFirmware ds (answers n) ram) := h.handoff.call
  rw [getMemStruct_eq]
  dsimp only
  rw [if_neg (by rw [hcarry]; exact Bool.false_ne_true)]
  by_cases hsmap : (answers n).eax ≠ smap
  · rw [if_pos hsmap]
    exact ⟨_, rfl, rfl, n, rfl, h.continued, .inr (.inl ⟨hcarry, hsmap⟩), hcall⟩
  · have hlength : (answers n).ecx ≠ 20 ∧ (answers n).ecx ≠ 24 := by
      constructor
      · intro hshort
        exact hbad ⟨hcarry, not_not.mp hsmap, .inl hshort⟩
      · intro hlong
        exact hbad ⟨hcarry, not_not.mp hsmap, .inr hlong⟩
    rw [if_neg hsmap, if_pos hlength]
    exact ⟨_, rfl, rfl, n, rfl, h.continued, .inr (.inr (.inl ⟨hcarry, hlength⟩)), hcall⟩

/-- An accepted answer goes through the room check to the copy. -/
theorem getMemStruct_accepted (h : Handoff 0 entries ram) (ha : (answers n).Accepted) :
    getMemStruct ds answers (n, ram) =
      let m := adjusted (answers n) (callFirmware ds (answers n) ram)
      if maxEntries ≤ entries.length then .inr ⟨n + 1, .fail, m⟩
      else if (answers n).ebx ≠ 0 then .inl (n + 1, copyEntry ds 0 m)
      else .inr ⟨n + 1, .complete, publish 0 (copyEntry ds 0 m)⟩ := by
  obtain ⟨hcarry, hsmap, hlength⟩ := ha
  have hadjusted : Handoff 0 entries (adjusted (answers n) (callFirmware ds (answers n) ram)) :=
    h.call.adjusted
  have hcount := hadjusted.count_toNat
  rw [getMemStruct_eq]
  dsimp only
  rw [if_neg (by rw [hcarry]; exact Bool.false_ne_true), if_neg (not_not.mpr hsmap),
    if_neg (by tauto), hcount]

/-- The table with one more answer. -/
theorem Collecting.pushed (ds : BitVec 16) (h : Collecting answers n ram) (hroom : n < maxEntries) :
    Handoff 0 (collected answers (n + 1))
      (copyEntry ds 0 (adjusted (answers n) (callFirmware ds (answers n) ram))) := by
  have hread : E820Entry.read (adjusted (answers n) (callFirmware ds (answers n) ram)) 0x5300 =
      (answers n).normalised := read_adjusted fun i hi => callFirmware_scratch hi
  rw [collected_succ]
  exact h.handoff.call.adjusted.push hread (by rwa [length_collected])

theorem Collecting.taken (ds : BitVec 16) (h : Collecting answers n ram) (ha : (answers n).Accepted) :
    (getMemStruct ds answers (n, ram)).elim
      (fun s => s.1 = n + 1 ∧ n < maxEntries ∧ Collecting answers (n + 1) s.2)
      fun c => c.calls = n + 1 ∧ Finished answers c := by
  rw [getMemStruct_accepted h.handoff ha, length_collected]
  dsimp only
  by_cases hfull : maxEntries ≤ n
  · have hle := h.handoff.length_le
    rw [length_collected] at hle
    rw [if_pos hfull]
    exact ⟨rfl, n, rfl, h.continued, .inr (.inr (.inr ⟨by omega, ha⟩)), h.handoff.call.adjusted⟩
  · have hpushed := h.pushed ds (Nat.lt_of_not_le hfull)
    rw [if_neg hfull]
    by_cases htoken : (answers n).ebx ≠ 0
    · rw [if_pos htoken]
      refine ⟨rfl, Nat.lt_of_not_le hfull, fun i hi => ?_, hpushed⟩
      rcases Nat.lt_succ_iff_lt_or_eq.mp hi with hi | rfl
      · exact h.continued i hi
      · exact ⟨ha, htoken⟩
    · have haccepted : ∀ i < n + 1, (answers i).Accepted := by
        intro i hi
        rcases Nat.lt_succ_iff_lt_or_eq.mp hi with hi | rfl
        · exact (h.continued i hi).1
        · exact ha
      rw [if_neg htoken]
      exact ⟨rfl, n + 1, Nat.succ_pos n, haccepted,
        fun i hi => (h.continued i (Nat.lt_of_succ_lt_succ hi)).2, .inr ⟨rfl, not_not.mp htoken⟩,
        hpushed.publish⟩

/-- One round keeps the table of the answers so far, or leaves the loop as it should be left. -/
theorem getMemStruct_step (ds : BitVec 16) (h : Collecting answers n ram) :
    (getMemStruct ds answers (n, ram)).elim
      (fun s => s.1 = n + 1 ∧ n < maxEntries ∧ Collecting answers (n + 1) s.2)
      fun c => c.calls = n + 1 ∧ Finished answers c := by
  by_cases ha : (answers n).Accepted
  · exact h.taken ds ha
  · cases hcarry : (answers n).carry with
    | true =>
      obtain ⟨c, hround, hc⟩ := h.ended ds hcarry
      rw [hround]
      exact hc
    | false =>
      obtain ⟨c, hround, hc⟩ := h.refused ds hcarry ha
      rw [hround]
      exact hc

end Round

theorem collect_run (ds : BitVec 16) (answers : ℕ → Answer) (ram : Memory) :
    ∃ c, collect ds answers 33 ram = some c ∧ c.calls ≤ 33 ∧ Finished answers c := by
  rw [collect]
  refine Loop.run_of_measure (fun s => s.1 ≤ maxEntries ∧ Collecting answers s.1 s.2)
    (fun c => c.calls ≤ 33 ∧ Finished answers c) (fun s => maxEntries - s.1) ?_ ?_
    (Nat.lt_succ_self 32)
  · rintro ⟨n, ram⟩ ⟨hle, h⟩
    have hstep := getMemStruct_step ds h
    have hle : n ≤ 32 := hle
    cases hbody : getMemStruct ds answers (n, ram) with
    | inl s =>
      rw [hbody] at hstep
      obtain ⟨hn, hlt, hnext⟩ := hstep
      have hlt : n < 32 := hlt
      rw [← hn] at hnext
      exact ⟨⟨by rw [hn]; exact hlt, hnext⟩, by simp only [maxEntries]; omega⟩
    | inr c =>
      rw [hbody] at hstep
      exact ⟨by rw [hstep.1]; omega, hstep.2⟩
  · exact ⟨Nat.zero_le _, fun i hi => absurd hi (Nat.not_lt_zero i), initialise_handoff ram⟩

theorem eq_one_of_attributes {w : BitVec 32} (hbit : w &&& 1 ≠ 0) (hother : w &&& 0xfffffffe = 0) :
    w = 1 := by
  have hmask : (0xfffffffe : BitVec 32) = ~~~1#32 := by decide
  have hhigh : ∀ i, i < 32 → i ≠ 0 → w.getLsbD i = false := by
    intro i hi h0
    have h : (w &&& ~~~1#32).getLsbD i = false := by
      rw [← hmask, hother]
      exact BitVec.getLsbD_zero
    rw [BitVec.getLsbD_and, BitVec.getLsbD_not] at h
    have h1 : (1#32).getLsbD i = false := by simp [BitVec.getLsbD_one, h0]
    simpa only [h1, hi, decide_true, Bool.not_false, Bool.and_true] using h
  have hlow : w.getLsbD 0 = true := by
    by_contra hnot
    have hw : w.getLsbD 0 = false := Bool.eq_false_iff.mpr hnot
    apply hbit
    refine BitVec.eq_of_getLsbD_eq fun i hi => ?_
    rw [BitVec.getLsbD_and]
    by_cases h0 : i = 0
    · rw [h0, hw, Bool.false_and]
      rfl
    · rw [hhigh i hi h0, Bool.false_and]
      exact BitVec.getLsbD_zero.symm
  refine BitVec.eq_of_getLsbD_eq fun i hi => ?_
  by_cases h0 : i = 0
  · rw [h0, hlow]
    rfl
  · rw [hhigh i hi h0]
    exact (by simp [BitVec.getLsbD_one, h0] : (1#32).getLsbD i = false).symm

/-- Only a type-1 answer without special attributes stands for ordinary RAM. -/
theorem Answer.ram_of_normalised {a : Answer} (h : a.normalised.Ram) :
    (E820Entry.read a.bytes 0).kind = 1 ∧ (a.ecx = 20 ∨ a.attributes = 1) := by
  rw [normalised] at h
  by_cases hshort : a.ecx = 20
  · rw [if_pos hshort] at h
    exact ⟨h.1, .inl hshort⟩
  · rw [if_neg hshort] at h
    obtain ⟨hkind, hlength⟩ := h
    by_cases hother : a.attributes &&& 0xfffffffe = 0
    · simp only [if_pos hother] at hkind
      refine ⟨hkind, .inr (eq_one_of_attributes (fun hbit => ?_) hother)⟩
      simp only [if_pos hbit] at hlength
      exact hlength rfl
    · simp only [if_neg hother] at hkind
      exact absurd hkind (by decide)

theorem Handoff.validate {entries : List E820Entry} (h : Handoff 1 entries ram)
    (hpos : 0 < entries.length) :
    (Header.read ram headerAddress).validate = .ok entries.length := by
  have hle : entries.length ≤ 32 := h.length_le
  rw [h.header, Header.validate_eq_ok]
  refine ⟨rfl, rfl, rfl, rfl, rfl, ?_, hpos, h.length_le⟩
  rw [BitVec.toNat_ofNat, Nat.mod_eq_of_lt (by omega)]

theorem Handoff.used_decodeMap {flags : BitVec 32} {entries : List E820Entry}
    (h : Handoff flags entries ram) : (decodeMap ram entries.length).used = entries := by
  have hle := h.length_le
  refine List.ext_getElem? fun i => ?_
  rcases Nat.lt_or_ge i entries.length with hi | hi
  · have hread := h.entry i entries[i] (List.getElem?_eq_getElem hi)
    have hlt : i < maxEntries := by omega
    have hvector : (decodeMap ram entries.length).entries.toList[i]? =
        some (E820Entry.read ram (entriesAddress + i * 20)) := by
      rw [Vector.getElem?_toList, decodeMap, Vector.getElem?_ofFn]
      simp only [hlt, dif_pos, hi, if_true]
    rw [MemoryMap.used, List.getElem?_take_of_lt (by exact hi), hvector, hread,
      List.getElem?_eq_getElem hi]
  · rw [List.getElem?_eq_none hi, MemoryMap.used]
    apply List.getElem?_eq_none
    rw [List.length_take]
    exact (min_le_left _ _).trans hi

/-- For every memory and every firmware the collection ends within 33 calls, each of which but the last
was answered and asked for the next. Either the last answer or a set carry flag behind it ended the list,
and the kernel accepts the header and decodes exactly the normalised answers in order; or one of the four
reasons to fail arose, and the complete flag is unset. -/
theorem collect_handoff (ds : BitVec 16) (answers : ℕ → Answer) (ram : Memory) :
    ∃ c, collect ds answers 33 ram = some c ∧ c.calls ≤ 33 ∧
      match c.exit with
      | .complete => ∃ n, 0 < n ∧ n ≤ 32 ∧ (∀ i < n, (answers i).Accepted) ∧
          (∀ i, i + 1 < c.calls → (answers i).ebx ≠ 0) ∧
          ((c.calls = n + 1 ∧ (answers n).carry = true) ∨ (c.calls = n ∧ (answers (n - 1)).ebx = 0)) ∧
          (Header.read c.ram headerAddress).validate = .ok n ∧
          (decodeMap c.ram n).used = (List.range n).map (fun i => (answers i).normalised) ∧
          ∀ i e, (decodeMap c.ram n).used[i]? = some e → e.Ram →
            (E820Entry.read (answers i).bytes 0).kind = 1 ∧
              ((answers i).ecx = 20 ∨ (answers i).attributes = 1)
      | .fail => (Header.read c.ram headerAddress).flags = 0 ∧
          (∃ text, (Header.read c.ram headerAddress).validate = .error text) ∧
          ∃ n, c.calls = n + 1 ∧ (∀ i < n, (answers i).Accepted ∧ (answers i).ebx ≠ 0) ∧
            ((n = 0 ∧ (answers n).carry = true) ∨
              ((answers n).carry = false ∧ (answers n).eax ≠ smap) ∨
              ((answers n).carry = false ∧ (answers n).ecx ≠ 20 ∧ (answers n).ecx ≠ 24) ∨
              (n = 32 ∧ (answers n).Accepted)) := by
  obtain ⟨c, hrun, hcalls, hfinished⟩ := collect_run ds answers ram
  refine ⟨c, hrun, hcalls, ?_⟩
  rw [Finished] at hfinished
  cases hexit : c.exit with
  | complete =>
    rw [hexit] at hfinished
    obtain ⟨n, hpos, haccepted, htokens, hend, h⟩ := hfinished
    have hlen := length_collected answers n
    have hle := h.length_le
    have hvalidate := h.validate (by omega)
    have hused := h.used_decodeMap
    rw [hlen] at hle hvalidate hused
    refine ⟨n, hpos, hle, haccepted, htokens, hend, hvalidate, hused, fun i e he hram => ?_⟩
    rw [hused, collected, List.getElem?_map, Option.map_eq_some_iff] at he
    obtain ⟨j, hj, rfl⟩ := he
    obtain ⟨hlt, rfl⟩ := List.getElem?_eq_some_iff.mp hj
    rw [List.getElem_range] at hram
    exact Answer.ram_of_normalised hram
  | fail =>
    rw [hexit] at hfinished
    obtain ⟨n, hn, hcontinued, hreason, h⟩ := hfinished
    have hzero : (0 : BitVec 32) ≠ 1 := by decide
    refine ⟨by rw [h.header], ?_, n, hn, hcontinued, hreason⟩
    rw [h.header, Header.validate, if_pos (.inr (.inr (.inr (.inr hzero))))]
    exact ⟨_, rfl⟩

end MikoOS
