import MikoOS.UserMode

/-!
# The page tables of the user demonstration

Four tables decide what CPL 3 can reach: the root, whose high half hangs behind a supervisor entry,
and the three static tables. `Entries` are the five entries of them that are ever set. With the
first one zero nothing is reachable; with all five as `install_mapping` leaves them exactly two
small pages of the run are. The tables lie inside the kernel image and the run behind its metadata,
so neither the program nor the kernel's own stores change them.
-/

namespace MikoOS.UserMode

open ByteMemory PageWalk Rust

inductive Table
  | pml4
  | pdpt
  | pd
  | pt
  deriving DecidableEq

def UserImage.place (u : UserImage) : Table → ℕ
  | .pml4 => pml4Address
  | .pdpt => directPhysical u.pdpt
  | .pd => directPhysical u.pd
  | .pt => directPhysical u.pt

/-- The static tables and RETURN_STACK as the linker places them, behind the tables of `head.S`. -/
structure UserImage.Linked (u : UserImage) (image : KernelImage) : Prop where
  aligned : ∀ a ∈ [u.pdpt, u.pd, u.pt], pageSize ∣ a
  inside : ∀ a ∈ [u.pdpt, u.pd, u.pt], image.text + 0x4000 ≤ a ∧ a + pageSize ≤ image.kernelEnd
  apart : [u.pdpt, u.pd, u.pt].Pairwise fun a b => a + pageSize ≤ b ∨ b + pageSize ≤ a
  returnStack : image.text + 0x4000 ≤ u.returnStack ∧
    u.returnStack + returnStackSize ≤ image.kernelEnd
  returnStack_apart : ∀ a ∈ [u.pdpt, u.pd, u.pt],
    a + pageSize ≤ u.returnStack ∨ u.returnStack + returnStackSize ≤ a

/-- Entry 0 of the root and the entries of the static tables that `install_mapping` writes. -/
structure Entries where
  low : BitVec 64
  pdpt : BitVec 64
  pd : BitVec 64
  code : BitVec 64
  stack : BitVec 64

def Entries.tables (e : Entries) : Table → ℕ → BitVec 64
  | .pml4, i => if i = 0 then e.low else if i = 256 then 0x102003#64 else 0#64
  | .pdpt, i => if i = 0 then e.pdpt else 0#64
  | .pd, i => if i = 4 then e.pd else 0#64
  | .pt, i => if i = 0 then e.code else if i = 511 then e.stack else 0#64

/-- The entries with the two small pages from `physical` mapped. -/
def opened (u : UserImage) (physical : ℕ) : Entries where
  low := entryFor (directPhysical u.pdpt) 7#64
  pdpt := entryFor (directPhysical u.pd) 7#64
  pd := entryFor (directPhysical u.pt) 7#64
  code := entryFor physical 5#64
  stack := entryFor (physical + pageSize) 0x8000000000000007#64

/-- What CPL 3 reaches while the pages from `physical` are mapped. -/
def window (physical v : ℕ) : Option Translation :=
  if code ≤ v ∧ v < code + pageSize then some ⟨physical + (v - code), ⟨true, false, false⟩⟩
  else if stack ≤ v ∧ v < stackTop then
    some ⟨physical + pageSize + (v - stack), ⟨true, true, true⟩⟩
  else none

section Writes

variable (e : Entries) (x : BitVec 64)

theorem Entries.set_low : setEntry e.tables .pml4 0 x = { e with low := x }.tables := by
  funext k i
  cases k <;> simp [setEntry, tables]
  split <;> simp_all

theorem Entries.set_pdpt : setEntry e.tables .pdpt 0 x = { e with pdpt := x }.tables := by
  funext k i
  cases k <;> simp [setEntry, tables]
  split <;> simp_all

theorem Entries.set_pd : setEntry e.tables .pd 4 x = { e with pd := x }.tables := by
  funext k i
  cases k <;> simp [setEntry, tables]
  split <;> simp_all

theorem Entries.set_code : setEntry e.tables .pt 0 x = { e with code := x }.tables := by
  funext k i
  cases k <;> simp [setEntry, tables]
  split <;> simp_all

theorem Entries.set_stack : setEntry e.tables .pt 511 x = { e with stack := x }.tables := by
  funext k i
  cases k <;> simp [setEntry, tables]
  by_cases h0 : i = 0
  · simp [h0]
  · by_cases h511 : i = 511
    · simp [h511]
    · simp [h0, h511]

end Writes

variable {u : UserImage} {e : Entries} {ram : Memory} {v physical : ℕ}

/-- Outside the lowest 512 GiB nothing is reachable from CPL 3, whatever the first entry is. -/
theorem walk_supervisor (h : Holds u.place e.tables ram) (hv : v / spanOf 3 % 512 ≠ 0)
    {t : Translation} (ht : walk ram pml4Address v = some t) : t.rights.user = false := by
  have hentry : lookup ram 3 pml4Address v = e.tables .pml4 (v / spanOf 3 % 512) :=
    h.lookup .pml4 3 v
  by_cases h256 : v / spanOf 3 % 512 = 256
  · have hvalue : e.tables .pml4 256 = 0x102003#64 := rfl
    rw [h256, hvalue] at hentry
    cases huser : t.rights.user with
    | false => rfl
    | true =>
      have := (user_of_walkFrom ht huser).2
      rw [hentry] at this
      exact absurd this (by decide)
  · have hvalue : e.tables .pml4 (v / spanOf 3 % 512) = 0#64 := by
      rw [Entries.tables, if_neg hv, if_neg h256]
    rw [hvalue] at hentry
    rw [walk, walkFrom_absent hentry (by decide)] at ht
    cases ht

theorem walk_closed (h : Holds u.place e.tables ram) (hlow : e.low = 0#64) (v : ℕ) :
    (walk ram pml4Address v).filter (fun t => t.rights.user) = none := by
  rw [Option.filter_eq_none_iff]
  intro t ht huser
  by_cases hv : v / spanOf 3 % 512 = 0
  · have hentry : lookup ram 3 pml4Address v = e.tables .pml4 (v / spanOf 3 % 512) :=
      h.lookup .pml4 3 v
    have hvalue : e.tables .pml4 (v / spanOf 3 % 512) = 0#64 := by
      rw [Entries.tables, if_pos hv, hlow]
    rw [hvalue] at hentry
    rw [walk, walkFrom_absent hentry (by decide)] at ht
    cases ht
  · rw [walk_supervisor h hv ht] at huser
    cases huser

theorem walkFrom_branch {table a level : ℕ}
    (h : lookup ram (level + 1) table v = entryFor a 7#64) (ha : Framed a) :
    walkFrom ram v (level + 1) table .full = walkFrom ram v level a .full := by
  have hpresent : present (entryFor a 7#64) = true := (present_entryFor ha).trans (by decide)
  have hlarge : large (entryFor a 7#64) = false := (large_entryFor ha).trans (by decide)
  have hrights : Rights.full.meet (.ofEntry (entryFor a 7#64)) = .full := by
    rw [ofEntry_entryFor ha]
    decide
  rw [walkFrom_table h hpresent hlarge, frame_entryFor ha (by decide), hrights]

/-- A small page through one of the two leaf entries. -/
theorem walkFrom_leaf {table a : ℕ} {flags : BitVec 64} (h : lookup ram 0 table v = entryFor a flags)
    (ha : Framed a) (hflags : flags &&& 0x000ffffffffff000#64 = 0#64) (hpresent : present flags = true) :
    walkFrom ram v 0 table .full =
      some ⟨a + v % 2 ^ 12, Rights.full.meet (.ofEntry flags)⟩ := by
  rw [walkFrom_page h ((present_entryFor ha).trans hpresent), page, frame_entryFor ha hflags,
    ofEntry_entryFor ha, spanOf, Nat.div_mul_cancel ha.1]

/-- The three upper levels lead every address of 8..10 MiB to the last table. -/
theorem walk_opened_table (h : Holds u.place (opened u physical).tables ram)
    (hframed : ∀ k ≠ Table.pml4, Framed (u.place k)) (h3 : v / spanOf 3 % 512 = 0)
    (h2 : v / spanOf 2 % 512 = 0) (h1 : v / spanOf 1 % 512 = 4) :
    walk ram pml4Address v = walkFrom ram v 0 (u.place .pt) .full := by
  have hroot : lookup ram 3 (u.place .pml4) v = entryFor (u.place .pdpt) 7#64 := by
    rw [h.lookup, h3]
    rfl
  have hpdpt : lookup ram 2 (u.place .pdpt) v = entryFor (u.place .pd) 7#64 := by
    rw [h.lookup, h2]
    rfl
  have hpd : lookup ram 1 (u.place .pd) v = entryFor (u.place .pt) 7#64 := by
    rw [h.lookup, h1]
    rfl
  calc walk ram pml4Address v = walkFrom ram v 3 (u.place .pml4) .full := rfl
    _ = walkFrom ram v 2 (u.place .pdpt) .full := walkFrom_branch hroot (hframed .pdpt (by decide))
    _ = walkFrom ram v 1 (u.place .pd) .full := walkFrom_branch hpdpt (hframed .pd (by decide))
    _ = walkFrom ram v 0 (u.place .pt) .full := walkFrom_branch hpd (hframed .pt (by decide))

/-- Below 512 GiB the walk ends without a translation unless the address is in 8..10 MiB. -/
theorem walk_opened_outside (h : Holds u.place (opened u physical).tables ram)
    (hframed : ∀ k ≠ Table.pml4, Framed (u.place k)) (h3 : v / spanOf 3 % 512 = 0)
    (hout : ¬ (v / spanOf 2 % 512 = 0 ∧ v / spanOf 1 % 512 = 4)) : walk ram pml4Address v = none := by
  have hroot : lookup ram 3 (u.place .pml4) v = entryFor (u.place .pdpt) 7#64 := by
    rw [h.lookup, h3]
    rfl
  rw [walk]
  change walkFrom ram v 3 (u.place .pml4) .full = none
  rw [walkFrom_branch hroot (hframed .pdpt (by decide))]
  by_cases h2 : v / spanOf 2 % 512 = 0
  · have hpdpt : lookup ram 2 (u.place .pdpt) v = entryFor (u.place .pd) 7#64 := by
      rw [h.lookup, h2]
      rfl
    rw [walkFrom_branch hpdpt (hframed .pd (by decide))]
    have hpd : lookup ram 1 (u.place .pd) v = 0#64 := by
      rw [h.lookup]
      exact if_neg fun h1 => hout ⟨h2, h1⟩
    exact walkFrom_absent hpd (by decide)
  · have hpdpt : lookup ram 2 (u.place .pdpt) v = 0#64 := by
      rw [h.lookup]
      exact if_neg h2
    exact walkFrom_absent hpdpt (by decide)

theorem walk_opened (h : Holds u.place (opened u physical).tables ram)
    (hframed : ∀ k ≠ Table.pml4, Framed (u.place k)) (hphysical : Framed physical)
    (hnext : Framed (physical + pageSize)) (hv : Canonical v) :
    (walk ram pml4Address v).filter (fun t => t.rights.user) = window physical v := by
  have hhigh : v / spanOf 3 % 512 = 0 → v < 2 ^ 39 := by
    rw [spanOf]
    rcases hv with hv | hv <;> omega
  have houtside : v < code ∨ stackTop ≤ v → window physical v = none := by
    intro hout
    unfold code stackTop at hout
    unfold window code stack stackTop pageSize
    rw [if_neg (by omega), if_neg (by omega)]
  by_cases h3 : v / spanOf 3 % 512 = 0
  · by_cases hin : v / spanOf 2 % 512 = 0 ∧ v / spanOf 1 % 512 = 4
    · obtain ⟨h2, h1⟩ := hin
      rw [walk_opened_table h hframed h3 h2 h1]
      have hrange : code ≤ v ∧ v < stackTop := by
        have hlt := hhigh h3
        rw [spanOf] at h1 h2
        unfold code stackTop
        omega
      obtain ⟨i, hi⟩ : ∃ i, i = v / spanOf 0 % 512 := ⟨_, rfl⟩
      have hentry : lookup ram 0 (u.place .pt) v = (opened u physical).tables .pt i := by
        rw [h.lookup, hi]
      rw [spanOf] at hi
      unfold code stackTop at hrange
      unfold window code stack stackTop
      by_cases hcode : i = 0
      · have hleaf : lookup ram 0 (u.place .pt) v = entryFor physical 5#64 := by
          rw [hentry, hcode]
          rfl
        rw [walkFrom_leaf hleaf hphysical (by decide) (by decide), pageSize, if_pos (by omega),
          show v % 2 ^ 12 = v - 0x800000 by omega]
        rfl
      · by_cases hstack : i = 511
        · have hleaf : lookup ram 0 (u.place .pt) v =
              entryFor (physical + pageSize) 0x8000000000000007#64 := by
            rw [hentry, hstack]
            rfl
          rw [walkFrom_leaf hleaf hnext (by decide) (by decide), if_neg (by rw [pageSize]; omega),
            if_pos (by omega), show v % 2 ^ 12 = v - 0x9ff000 by omega]
          rfl
        · have hzero : lookup ram 0 (u.place .pt) v = 0#64 := by
            rw [hentry, Entries.tables, if_neg hcode, if_neg hstack]
          rw [walkFrom_absent hzero (by decide), pageSize, if_neg (by omega), if_neg (by omega)]
          rfl
    · rw [walk_opened_outside h hframed h3 hin, houtside]
      · rfl
      · have hlt := hhigh h3
        rw [spanOf, spanOf] at hin
        unfold code stackTop
        omega
  · rw [houtside]
    · rw [Option.filter_eq_none_iff]
      intro t ht huser
      rw [walk_supervisor h h3 ht] at huser
      cases huser
    · rw [spanOf] at h3
      unfold stackTop
      omega

/-- A run of one page between the kernel image and the end of the direct map. -/
structure Backs (image : KernelImage) (run : PageRun) : Prop where
  count : run.count = 1
  behind : image.kernelEnd - pageOffset ≤ run.physicalAddress
  mapped : run.physicalAddress + page2MSize ≤ directRamEnd

theorem backs_of_fits {image : KernelImage} {map : MemoryMap} {base : BitVec 32} {t : Kernel}
    (ht : t.Running image map base) {run : PageRun} (hcount : run.count = 1)
    (hfits : Fits t.memory ⟨.mapped, run⟩) : Backs image run := by
  have hpage : run.count * page2MSize = page2MSize := by rw [hcount, Nat.one_mul]
  have hmetadata := hfits.metadata_le ht.memory
  have hend := ht.memory.kernelEnd
  have hlast := (hfits.directlyMapped ht rfl (x := run.physicalAddress + (page2MSize - 1)) (by
    change _ < run.physicalAddress + run.count * page2MSize
    rw [hpage, page2MSize]
    omega)).1
  refine ⟨hcount, ?_, ?_⟩
  · change _ ≤ run.physicalAddress at hmetadata
    omega
  · rw [page2MSize] at hlast ⊢
    omega

theorem Backs.framed {image : KernelImage} {run : PageRun} (h : Backs image run) :
    Framed run.physicalAddress ∧ Framed (run.physicalAddress + pageSize) := by
  have hlt := h.mapped
  unfold page2MSize directRamEnd at hlt
  have hdvd : 2 ^ 12 ∣ run.physicalAddress := ⟨run.first * 2 ^ 9, by
    rw [PageRun.physicalAddress, page2MSize]
    omega⟩
  refine ⟨⟨hdvd, by omega⟩, Nat.dvd_add hdvd ⟨1, rfl⟩, ?_⟩
  rw [pageSize]
  omega

namespace UserImage.Linked

variable {image : KernelImage} (himage : image.Linked) (hu : u.Linked image)

include himage hu

/-- Each table ends inside the kernel image. -/
theorem place_le (k : Table) :
    pml4Address ≤ u.place k ∧ u.place k + 4096 ≤ image.kernelEnd - pageOffset := by
  have htext := himage.text
  have h1 := hu.inside u.pdpt (by simp)
  have h2 := hu.inside u.pd (by simp)
  have h3 := hu.inside u.pt (by simp)
  rw [htext, pageSize] at h1 h2 h3
  cases k <;> simp only [UserImage.place, directPhysical, pml4Address, pageOffset] <;> omega

theorem framed {k : Table} (hk : k ≠ .pml4) : Framed (u.place k) := by
  have hlt := (hu.place_le himage k).2
  have hend := himage.kernelEnd_lt
  have htext := himage.text
  have haligned : ∀ a ∈ [u.pdpt, u.pd, u.pt], 2 ^ 12 ∣ directPhysical a := by
    intro a ha
    obtain ⟨n, hn⟩ := hu.aligned a ha
    have hle := (hu.inside a ha).1
    refine ⟨n - 0xffff800000000, ?_⟩
    rw [htext] at hle
    rw [pageSize] at hn
    rw [directPhysical, pageOffset]
    omega
  refine ⟨?_, by rw [pageOffset] at hlt; omega⟩
  cases k with
  | pml4 => exact absurd rfl hk
  | pdpt => exact haligned _ (by simp)
  | pd => exact haligned _ (by simp)
  | pt => exact haligned _ (by simp)

theorem apart_place : Apart u.place := by
  have htext := himage.text
  have hpairs := hu.apart
  simp only [List.pairwise_cons, List.mem_cons, List.not_mem_nil, or_false, forall_eq_or_imp,
    forall_eq, pageSize] at hpairs
  have h1 := hu.inside u.pdpt (by simp)
  have h2 := hu.inside u.pd (by simp)
  have h3 := hu.inside u.pt (by simp)
  rw [htext] at h1 h2 h3
  intro j k hjk
  cases j <;> cases k <;>
    simp only [UserImage.place, directPhysical, pml4Address, pageOffset, ne_eq, not_true_eq_false,
      reduceCtorEq, not_false_eq_true] at hjk ⊢ <;> omega

/-- RETURN_STACK overlaps no table. -/
theorem returnStack_outside (k : Table) {x : ℕ} (h1 : u.place k ≤ x) (h2 : x < u.place k + 4096) :
    x < directPhysical u.returnStack ∨ directPhysical u.returnStack + returnStackSize ≤ x := by
  have htext := himage.text
  have hstack := hu.returnStack.1
  have ha := hu.inside u.pdpt (by simp)
  have hb := hu.inside u.pd (by simp)
  have hc := hu.inside u.pt (by simp)
  have hd := hu.returnStack_apart u.pdpt (by simp)
  have he := hu.returnStack_apart u.pd (by simp)
  have hf := hu.returnStack_apart u.pt (by simp)
  rw [htext] at hstack ha hb hc
  rw [pageSize] at hd he hf
  cases k <;> simp only [UserImage.place, directPhysical, pml4Address, pageOffset] at h1 h2 ⊢ <;>
    omega

end UserImage.Linked

/-- The tables hold the entries `e`, and the ledger accounts for the allocator. -/
structure Tabled (u : UserImage) (s₀ : MemoryDescriptor) (e : Entries) (s : Session) : Prop where
  cr3 : frame s.cr3 = pml4Address
  tables : Holds u.place e.tables s.ram
  accounted : Accounted s₀ s.ledger

/-- Nothing is mapped for CPL 3. -/
def Unmapped (u : UserImage) (s₀ : MemoryDescriptor) (s : Session) : Prop :=
  ∃ e : Entries, e.low = 0#64 ∧ Tabled u s₀ e s

/-- The first two small pages of `run` are mapped, and the run is outstanding. -/
structure Mapped (u : UserImage) (s₀ : MemoryDescriptor) (run : PageRun) (s : Session) : Prop where
  tabled : Tabled u s₀ (opened u run.physicalAddress) s
  held : ⟨.mapped, run⟩ ∈ s.ledger.outstanding

variable {image : KernelImage} {s₀ : MemoryDescriptor} {run : PageRun} {s t : Session}

theorem Tabled.congr (h : Tabled u s₀ e s) (hledger : Accounted s₀ t.ledger) (hcr3 : t.cr3 = s.cr3)
    (hram : ∀ k x, u.place k ≤ x → x < u.place k + 4096 → t.ram x = s.ram x) : Tabled u s₀ e t :=
  ⟨hcr3 ▸ h.cr3, h.tables.congr hram, hledger⟩

/-- Writing one entry. -/
theorem Tabled.store {e' : Entries} (h : Tabled u s₀ e s) (hapart : Apart u.place) {k : Table}
    {i : ℕ} (hi : i < 512) {x : BitVec 64} {a : ℕ} (ha : a = u.place k + 8 * i)
    (he : setEntry e.tables k i x = e'.tables) :
    Tabled u s₀ e' (s.onRam fun m => store64 m a x) := by
  refine ⟨?_, ?_, ?_⟩
  · rw [Session.onRam_cr3]
    exact h.cr3
  · rw [Session.onRam_ram, ha, ← he]
    exact h.tables.store64 hapart k hi x
  · rw [Session.onRam_ledger]
    exact h.accounted

theorem Unmapped.congr (h : Unmapped u s₀ s) (hledger : Accounted s₀ t.ledger) (hcr3 : t.cr3 = s.cr3)
    (hram : ∀ k x, u.place k ≤ x → x < u.place k + 4096 → t.ram x = s.ram x) : Unmapped u s₀ t := by
  obtain ⟨e, hlow, he⟩ := h
  exact ⟨e, hlow, he.congr hledger hcr3 hram⟩

theorem Mapped.congr (h : Mapped u s₀ run s) (hledger : t.ledger = s.ledger) (hcr3 : t.cr3 = s.cr3)
    (hram : ∀ k x, u.place k ≤ x → x < u.place k + 4096 → t.ram x = s.ram x) :
    Mapped u s₀ run t :=
  ⟨h.tabled.congr (hledger ▸ h.tabled.accounted) hcr3 hram, hledger ▸ h.held⟩

theorem Unmapped.onRam (h : Unmapped u s₀ s) {f : Memory → Memory}
    (hram : ∀ k x, u.place k ≤ x → x < u.place k + 4096 → f s.ram x = s.ram x) :
    Unmapped u s₀ (s.onRam f) := by
  have haccounted : Accounted s₀ s.ledger := by
    obtain ⟨_, _, he⟩ := h
    exact he.accounted
  refine h.congr ?_ (s.onRam_cr3 f) ?_
  · rw [Session.onRam_ledger]
    exact haccounted
  · rw [Session.onRam_ram]
    exact hram

theorem Mapped.onRam (h : Mapped u s₀ run s) {f : Memory → Memory}
    (hram : ∀ k x, u.place k ≤ x → x < u.place k + 4096 → f s.ram x = s.ram x) :
    Mapped u s₀ run (s.onRam f) := by
  refine h.congr (s.onRam_ledger f) (s.onRam_cr3 f) ?_
  rw [Session.onRam_ram]
  exact hram

theorem Tabled.entry (h : Tabled u s₀ e s) (k : Table) {i : ℕ} (hi : i < 512) :
    load64 s.ram (u.place k + 8 * i) = e.tables k i :=
  h.tables k i hi

theorem Unmapped.closed (h : Unmapped u s₀ s) (v : ℕ) : userTranslation s v = none := by
  obtain ⟨e, hlow, he⟩ := h
  rw [userTranslation, he.cr3]
  exact walk_closed he.tables hlow v

section Image

variable (himage : image.Linked) (hu : u.Linked image)

include himage hu

theorem Mapped.window (h : Mapped u s₀ run s) (hrun : Backs image run) (hv : Canonical v) :
    userTranslation s v = UserMode.window run.physicalAddress v := by
  rw [userTranslation, h.tabled.cr3]
  exact walk_opened h.tabled.tables (fun _ hk => hu.framed himage hk) hrun.framed.1 hrun.framed.2 hv

/-- A store inside the run leaves the tables alone. -/
theorem Backs.outside (hrun : Backs image run) (k : Table) {x : ℕ} (hx : x < u.place k + 4096) :
    x < run.physicalAddress := by
  have hle := (hu.place_le himage k).2
  have hbehind := hrun.behind
  omega

end Image

/-- A property that reads only the ledger, CR3 and memory. -/
def Blind (P : Session → Prop) : Prop :=
  ∀ s t : Session, t.ledger = s.ledger → t.cr3 = s.cr3 → t.ram = s.ram → P s → P t

theorem blind_unmapped : Blind (Unmapped u s₀) := by
  intro s t hledger hcr3 hram h
  obtain ⟨e, hlow, he⟩ := h
  exact ⟨e, hlow, he.congr (hledger ▸ he.accounted) hcr3 fun _ _ _ _ => congrFun hram _⟩

theorem blind_mapped : Blind (Mapped u s₀ run) := by
  intro s t hledger hcr3 hram h
  exact h.congr hledger hcr3 fun _ _ _ _ => congrFun hram _

section Blind

variable {P : Session → Prop} (hP : Blind P)

include hP

theorem prepareCpu_stays (cpu : Cpuid) : Stays P (prepareCpu cpu) := by
  unfold prepareCpu
  refine (stays_require _ _).bind fun _ => (stays_require _ _).bind fun _ =>
    (stays_require _ _).bind fun _ => (stays_require _ _).bind fun _ => ?_
  apply Stays.bind
  · exact stays_modify fun s hs => hP s _ rfl rfl rfl hs
  · intro _
    exact stays_modify fun s hs => hP s _ rfl rfl rfl hs

theorem setKernelStack_stays (top : ℕ) : Stays P (setKernelStack top) := by
  unfold setKernelStack
  refine Stays.get_bind fun _ => (stays_require _ _).bind fun _ => (stays_require _ _).bind fun _ => ?_
  exact stays_modify fun s hs => hP s _ rfl rfl rfl hs

theorem writeMsr_stays (index : ℕ) (value : BitVec 64) : Stays P (writeMsr index value) := by
  unfold writeMsr
  apply Stays.bind
  · exact stays_modify fun s hs => hP s _ rfl rfl rfl hs
  · intro _
    exact Stays.get_bind fun _ => stays_require _ _

theorem enable_stays (top : ℕ) : Stays P (enable u top) := by
  unfold enable
  exact Stays.get_bind fun _ => (stays_require _ _).bind fun _ => (stays_require _ _).bind fun _ =>
    (writeMsr_stays hP _ _).bind fun _ => (writeMsr_stays hP _ _).bind fun _ => writeMsr_stays hP _ _

theorem disable_stays : Stays P disable := by
  unfold disable
  exact (writeMsr_stays hP _ _).bind fun _ => (writeMsr_stays hP _ _).bind fun _ =>
    writeMsr_stays hP _ _

end Blind

theorem userReturnDispatch_stays {l : List Session} {P : Session → Prop} (f : InterruptFrame)
    (rsp : ℕ) : Stays (Extends l P) (userReturnDispatch u f rsp) := by
  unfold userReturnDispatch assertUserFrame
  refine Stays.get_bind fun _ => (stays_require _ _).bind fun _ => Stays.bind ?_ fun _ => ?_
  · exact (stays_require _ _).bind fun _ => (stays_require _ _).bind fun _ => stays_require _ _
  · exact (stays_require _ _).bind fun _ => (stays_require _ _).bind fun _ =>
      (stays_require _ _).bind fun _ => (stays_require _ _).bind fun _ => Stays.get_bind fun _ =>
      (stays_require _ _).bind fun _ => (stays_require _ _).bind fun _ =>
      (stays_require _ _).bind fun _ => (stays_require _ _).bind fun _ => stays_pure _

section Mapped

variable (himage : image.Linked) (hu : u.Linked image) (hrun : Backs image run) {l : List Session}

include himage hu

theorem Mapped.serve (h : Mapped u s₀ run s) {offset : ℕ} (ho : offset < returnStackSize)
    (value : BitVec 8) :
    Mapped u s₀ run (s.onRam fun m => store8 m (directPhysical u.returnStack + offset) value) := by
  apply h.onRam
  intro k x h1 h2
  have hout := hu.returnStack_outside himage k h1 h2
  exact store8_outside (by omega)

theorem Mapped.push (h : Mapped u s₀ run s) (value : BitVec 64) :
    Mapped u s₀ run (s.onRam fun m => store64 m (directPhysical u.returnStack) value) := by
  apply h.onRam
  intro k x h1 h2
  have hout := hu.returnStack_outside himage k h1 h2
  have hquad : x < directPhysical u.returnStack ∨ directPhysical u.returnStack + 8 ≤ x := by
    rw [returnStackSize] at hout
    omega
  exact store64_outside hquad

include hrun

/-- The program can only store into the second small page. -/
theorem userEvent_stays (event : UserEvent) : Stays (Mapped u s₀ run) (userEvent u event) := by
  intro s h
  cases event with
  | store v value =>
    rw [userEvent]
    refine (satisfies_require fun _ => h).bind ?_
    rintro _ t ⟨rfl, hv⟩
    rw [run_get_bind, h.window himage hu hrun (of_decide_eq_true hv)]
    cases ht : window run.physicalAddress v with
    | none => exact satisfies_error.mpr h
    | some tr =>
      simp only
      refine (satisfies_require fun _ => h).bind ?_
      rintro _ s ⟨rfl, hwritable⟩
      refine satisfies_ok.mpr (h.onRam ?_)
      intro k x _ hx
      have hbelow := hrun.outside himage hu k hx
      have htr : run.physicalAddress ≤ tr.physical := by
        unfold window at ht
        split at ht
        · rw [← Option.some.inj ht]
          exact Nat.le_add_right _ _
        · split at ht
          · rw [← Option.some.inj ht]
            change _ ≤ _ + pageSize + _
            omega
          · cases ht
      exact store8_outside (by omega)
  | serve offset value =>
    rw [userEvent]
    split
    · exact satisfies_ok.mpr (h.serve himage hu ‹_› value)
    · exact satisfies_ok.mpr h

theorem userEvents_stays (events : List UserEvent) :
    Stays (Extends l (Mapped u s₀ run)) (userEvents u events) := by
  induction events with
  | nil => exact stays_pure ()
  | cons event events ih =>
    rw [userEvents]
    exact (Stays.record (userEvent_stays himage hu hrun event)).bind fun _ => ih

theorem runProgram_stays (program : UserProgram) :
    Stays (Extends l (Mapped u s₀ run)) (runProgram u program) := by
  have hblind : Blind (Mapped u s₀ run) := blind_mapped
  have hmodify : ∀ f : Session → Session, (∀ s, (f s).ledger = s.ledger) → (∀ s, (f s).cr3 = s.cr3) →
      (∀ s, (f s).ram = s.ram) → Stays (Extends l (Mapped u s₀ run)) (record (modify f)) := by
    intro f hledger hcr3 hram
    exact Stays.record (stays_modify fun s h => hblind s _ (hledger s) (hcr3 s) (hram s) h)
  unfold runProgram userEnter
  apply Stays.get_bind
  intro before
  apply Stays.bind
  · exact Stays.record (stays_modify fun s h => h.push himage hu canary)
  intro _
  apply Stays.bind (Stays.record (setKernelStack_stays hblind _))
  intro _
  apply Stays.bind (Stays.record (enable_stays hblind _))
  intro _
  apply Stays.bind
  · exact hmodify _ (fun _ => rfl) (fun _ => rfl) fun _ => rfl
  intro _
  apply Stays.bind
  · exact hmodify _ (fun _ => rfl) (fun _ => rfl) fun _ => rfl
  intro _
  apply Stays.bind
  · exact (userEvents_stays himage hu hrun _).bind fun _ => userReturnDispatch_stays _ _
  intro _
  apply Stays.bind (stays_require _ _)
  intro _
  apply Stays.get_bind
  intro _
  apply Stays.bind (stays_require _ _)
  intro _
  apply Stays.bind (Stays.get_bind fun _ => stays_pure _)
  intro _
  apply Stays.bind (stays_require _ _)
  intro _
  apply Stays.bind
  · exact hmodify _ (fun _ => rfl) (fun _ => rfl) fun _ => rfl
  intro _
  apply Stays.bind (Stays.record (disable_stays hblind))
  intro _
  apply Stays.bind
  · exact hmodify _ (fun _ => rfl) (fun _ => rfl) fun _ => rfl
  intro _
  exact Stays.record (setKernelStack_stays hblind _)

end Mapped

theorem run_readQuad (a : ℕ) (r : Demo) :
    (readQuad a).run r = .ok (load64 r.current.ram (directPhysical a)) r := rfl

theorem run_writeQuad (a : ℕ) (v : BitVec 64) (r : Demo) :
    (writeQuad a v).run r = .ok () ⟨r.current.onRam fun m => store64 m (directPhysical a) v,
      r.trace ++ [r.current.onRam fun m => store64 m (directPhysical a) v]⟩ := rfl

theorem run_root (p : Profile) {r : Demo} (h : frame r.current.cr3 = pml4Address) :
    (root p).run r = .ok (pageOffset + pml4Address) r := by
  rw [root, run_get_bind, h]
  exact run_add p (by decide) r

section Mapping

variable (himage : image.Linked) (hu : u.Linked image) (hrun : Backs image run) {l : List Session}

include himage hu hrun

omit himage hu hrun in
/-- A store into one entry while the root entry stays clear. -/
theorem writeQuad_run (hapart : Apart u.place) {e e' : Entries} {r : Demo}
    (hr : Extends l (Unmapped u s₀) r) (h : Tabled u s₀ e r.current) {k : Table} {i : ℕ}
    (hi : i < 512) {a : ℕ} {x : BitVec 64} (ha : directPhysical a = u.place k + 8 * i)
    (he : setEntry e.tables k i x = e'.tables) (hlow : e'.low = 0#64) :
    ∃ r', (writeQuad a x).run r = .ok () r' ∧ Extends l (Unmapped u s₀) r' ∧
      Tabled u s₀ e' r'.current ∧ r'.current.ledger = r.current.ledger := by
  have hnext := h.store hapart hi ha he
  exact ⟨_, run_writeQuad a x r, hr.snoc ⟨e', hlow, hnext⟩, hnext, Session.onRam_ledger _ _⟩

/-- The checks of `install_mapping` hold, four stores leave CPL 3 without a mapping, and the fifth
makes the two pages reachable. -/
theorem installMapping_run (p : Profile) {r : Demo} (hr : Extends l (Unmapped u s₀) r)
    (hheld : ⟨.mapped, run⟩ ∈ r.current.ledger.outstanding) :
    ∃ t s, (installMapping p u run.physicalAddress).run r = .ok () ⟨s, t.trace ++ [s]⟩ ∧
      Extends l (Unmapped u s₀) t ∧ Mapped u s₀ run s := by
  have hapart := hu.apart_place himage
  have hsub : ∀ a ∈ [u.pdpt, u.pd, u.pt], pageOffset ≤ a := by
    intro a ha
    have hle := (hu.inside a ha).1
    have htext := himage.text
    rw [pageOffset]
    omega
  have hpdpt := hsub u.pdpt (by simp)
  have hpd := hsub u.pd (by simp)
  have hpt := hsub u.pt (by simp)
  have hnext : run.physicalAddress + pageSize < 2 ^ 64 := hrun.framed.2.2.trans (by decide)
  have hpd4 : directPhysical (u.pd + 8 * 4) = u.place .pd + 8 * 4 := Nat.sub_add_comm hpd
  have hpt511 : directPhysical (u.pt + 8 * 511) = u.place .pt + 8 * 511 := Nat.sub_add_comm hpt
  have hpt510 : directPhysical (u.pt + 8 * 510) = u.place .pt + 8 * 510 := Nat.sub_add_comm hpt
  have hpt1 : directPhysical (u.pt + 8 * 1) = u.place .pt + 8 * 1 := Nat.sub_add_comm hpt
  have hroot : directPhysical (pageOffset + pml4Address) = u.place .pml4 + 8 * 0 :=
    Nat.add_sub_cancel_left _ _
  have hhigh : directPhysical (pageOffset + pml4Address + 8 * 256) = u.place .pml4 + 8 * 256 := by
    rw [Nat.add_assoc]
    exact Nat.add_sub_cancel_left _ _
  have hfirst : ∀ k, u.place k = u.place k + 8 * 0 := fun _ => by rw [Nat.mul_zero, Nat.add_zero]
  obtain ⟨⟨low, epdpt, epd, ecode, estack⟩, hlow, h0⟩ := hr.1
  obtain rfl : low = 0#64 := hlow
  -- the entries written
  obtain ⟨xpdpt, hxpdpt⟩ : ∃ x, x = BitVec.ofNat 64 (u.pd - pageOffset) ||| branch := ⟨_, rfl⟩
  obtain ⟨xpd, hxpd⟩ : ∃ x, x = BitVec.ofNat 64 (u.pt - pageOffset) ||| branch := ⟨_, rfl⟩
  obtain ⟨xcode, hxcode⟩ :
    ∃ x, x = BitVec.ofNat 64 run.physicalAddress ||| presentFlag ||| userFlag := ⟨_, rfl⟩
  obtain ⟨xstack, hxstack⟩ : ∃ x, x = BitVec.ofNat 64 (run.physicalAddress + pageSize) |||
    presentFlag ||| writeFlag ||| userFlag ||| nx := ⟨_, rfl⟩
  obtain ⟨xlow, hxlow⟩ : ∃ x, x = BitVec.ofNat 64 (u.pdpt - pageOffset) ||| branch := ⟨_, rfl⟩
  have hopened : (⟨xlow, xpdpt, xpd, xcode, xstack⟩ : Entries) = opened u run.physicalAddress := by
    rw [hxlow, hxpdpt, hxpd, hxcode, hxstack, BitVec.or_assoc, BitVec.or_assoc, BitVec.or_assoc,
      BitVec.or_assoc]
    rfl
  -- the five stores, one after the other
  obtain ⟨r1, hrun1, hr1, h1, hl1⟩ := writeQuad_run hapart hr h0 (k := .pdpt) (i := 0) (by decide)
    (hfirst .pdpt) (Entries.set_pdpt _ xpdpt) rfl
  obtain ⟨r2, hrun2, hr2, h2, hl2⟩ := writeQuad_run hapart hr1 h1 (k := .pd) (i := 4) (by decide)
    hpd4 (Entries.set_pd _ xpd) rfl
  obtain ⟨r3, hrun3, hr3, h3, hl3⟩ := writeQuad_run hapart hr2 h2 (k := .pt) (i := 0) (by decide)
    (hfirst .pt) (Entries.set_code _ xcode) rfl
  obtain ⟨r4, hrun4, hr4, h4, hl4⟩ := writeQuad_run hapart hr3 h3 (k := .pt) (i := 511) (by decide)
    hpt511 (Entries.set_stack _ xstack) rfl
  have h5 := h4.store hapart (k := .pml4) (i := 0) (by decide) hroot (Entries.set_low _ xlow)
  refine ⟨r4, _, ?_, hr4, hopened ▸ h5, ?_⟩
  · have hzero : load64 r.current.ram (directPhysical (pageOffset + pml4Address)) = 0 := by
      rw [hroot]
      exact h0.entry .pml4 (by decide)
    have hsuper : load64 r.current.ram (directPhysical (pageOffset + pml4Address + 8 * 256)) =
        0x102003#64 := by
      rw [hhigh]
      exact h0.entry .pml4 (by decide)
    have hguard : load64 r4.current.ram (directPhysical (u.pt + 8 * 510)) = 0 := by
      rw [hpt510]
      exact h4.entry .pt (by decide)
    have hafter : load64 r4.current.ram (directPhysical (u.pt + 8 * 1)) = 0 := by
      rw [hpt1]
      exact h4.entry .pt (by decide)
    rw [installMapping, run_bind_ok (run_root p h0.cr3), run_bind_ok (run_readQuad _ r),
      run_bind_ok (run_require (decide_eq_true hzero) _ r), run_bind_ok (run_readQuad _ r), hsuper,
      run_bind_ok (run_require (by decide) _ r), run_bind_ok (run_sub p hpd r), ← hxpdpt,
      run_bind_ok hrun1, run_bind_ok (run_sub p hpt r1), ← hxpd, run_bind_ok hrun2, ← hxcode,
      run_bind_ok hrun3, run_bind_ok (run_add p hnext r3), ← hxstack, run_bind_ok hrun4,
      run_bind_ok (run_readQuad _ r4), run_bind_ok (run_require (decide_eq_true hguard) _ r4),
      run_bind_ok (run_readQuad _ r4), run_bind_ok (run_require (decide_eq_true hafter) _ r4),
      run_bind_ok (run_sub p hpdpt r4), ← hxlow, run_writeQuad]
  · rw [Session.onRam_ledger, hl4, hl3, hl2, hl1]
    exact hheld

/-- Stores into the run change no table. -/
theorem Unmapped.storeRun (h : Unmapped u s₀ s) {f : Memory → Memory}
    (hram : ∀ x < run.physicalAddress, f s.ram x = s.ram x) : Unmapped u s₀ (s.onRam f) := by
  apply h.onRam
  intro k x _ hx
  exact hram x (hrun.outside himage hu k hx)

omit hrun in
/-- Once the root entry is clear the run can be released. -/
theorem removeMapping_run (p : Profile) (hs : s₀.Consistent) {r : Demo}
    (hr : Mapped u s₀ run r.current) :
    ∃ r' m, (removeMapping p run).run r = .ok () r' ∧ r'.trace = r.trace ++ m ∧
      (∀ x ∈ m, Unmapped u s₀ x) ∧ m ≠ [] := by
  have hroot : directPhysical (pageOffset + pml4Address) = u.place .pml4 + 8 * 0 :=
    Nat.add_sub_cancel_left _ _
  obtain ⟨s, hsdef⟩ : ∃ s, s = r.current.onRam fun m =>
    store64 m (directPhysical (pageOffset + pml4Address)) 0 := ⟨_, rfl⟩
  have hcleared := hr.tabled.store (hu.apart_place himage) (k := .pml4) (i := 0) (by decide) hroot
    (Entries.set_low _ 0)
  rw [← hsdef] at hcleared
  have hunmapped : Unmapped u s₀ s := ⟨_, rfl, hcleared⟩
  have hzero : load64 s.ram (directPhysical (pageOffset + pml4Address)) = 0 := by
    rw [hroot]
    exact hcleared.entry .pml4 (by decide)
  have hheld : ⟨.mapped, run⟩ ∈ s.ledger.outstanding := by
    rw [hsdef, Session.onRam_ledger]
    exact hr.held
  obtain ⟨ledger, hfree, haccounted, -⟩ := hcleared.accounted.freePages hs p hheld
  have honLedger : (onLedger (freePages p run)).run s = .ok () { s with ledger := ledger } :=
    run_zoom_ok hfree
  have hlast : Unmapped u s₀ { s with ledger := ledger } :=
    Unmapped.congr hunmapped haccounted rfl fun _ _ _ _ => rfl
  have hrecord : (record (onLedger (freePages p run))).run ⟨s, r.trace ++ [s]⟩ =
      .ok () ⟨{ s with ledger := ledger }, r.trace ++ [s] ++ [{ s with ledger := ledger }]⟩ :=
    run_zoom_ok honLedger
  refine ⟨⟨{ s with ledger := ledger }, r.trace ++ [s] ++ [{ s with ledger := ledger }]⟩,
    [s, { s with ledger := ledger }], ?_, ?_, ?_, List.cons_ne_nil _ _⟩
  · rw [removeMapping, run_bind_ok (run_root p hr.tabled.cr3),
      run_bind_ok (run_writeQuad _ _ r), ← hsdef, run_bind_ok (run_readQuad _ _),
      run_bind_ok (run_require (decide_eq_true hzero) _ _), hrecord]
  · rw [List.append_assoc]
    rfl
  · intro x hx
    rcases List.mem_cons.mp hx with rfl | hx
    · exact hunmapped
    · rwa [List.mem_singleton.mp hx]

end Mapping

/-- `backProgram` maps nothing and ends with an outstanding run of one page. -/
theorem backProgram_run {map : MemoryMap} {base : BitVec 32} {t : Kernel}
    (himage : image.Linked) (hu : u.Linked image) (ht : t.Running image map base) (p : Profile)
    (cpu : Cpuid) {l : List Session} {r : Demo} (hr : Extends l (Unmapped u t.memory) r) :
    Satisfies ((backProgram p cpu u).run r) (fun run r' => Extends l (Unmapped u t.memory) r' ∧
        Backs image run ∧ ⟨.mapped, run⟩ ∈ r'.current.ledger.outstanding)
      fun _ r' => Extends l (Unmapped u t.memory) r' := by
  have hs := ht.memory.consistent
  have hx := ht.memory.exclusive
  rw [backProgram, run_get_bind]
  refine (satisfies_require fun _ => hr).bind ?_
  rintro _ _ ⟨rfl, -⟩
  rw [run_get_bind]
  refine (satisfies_require fun _ => hr).bind ?_
  rintro _ r ⟨rfl, -⟩
  refine (Stays.record (prepareCpu_stays blind_unmapped cpu) _ hr).bind ?_
  intro _ r1 hr1
  obtain ⟨e, hlow, htabled⟩ := hr1.1
  have hallocate : Satisfies ((record (onLedger (allocatePages p .mapped 1))).run r1) _ _ :=
    Satisfies.record (htabled.accounted.allocatePages hs hx p .mapped 1).zoom
  refine (hallocate.mono (fun _ _ h => h) ?_).bind ?_
  · rintro _ _ ⟨_, ⟨_, hfalse, _⟩, _⟩
    exact hfalse.elim
  rintro answer _ ⟨_, ⟨ledger, ⟨haccounted, -, -, hgranted⟩, rfl⟩, rfl⟩
  have hr2 : Extends l (Unmapped u t.memory)
      ⟨{ r1.current with ledger := ledger }, r1.trace ++ [{ r1.current with ledger := ledger }]⟩ :=
    hr1.snoc (Unmapped.congr hr1.1 haccounted rfl fun _ _ _ _ => rfl)
  refine (satisfies_expect fun _ => hr2).bind ?_
  rintro run _ ⟨rfl, hrun⟩
  obtain rfl : answer = .ok run := by
    cases answer with
    | error e => cases hrun
    | ok run' =>
      cases hrun
      rfl
  obtain ⟨hcount, houtstanding⟩ := hgranted run rfl
  have hmem : ⟨.mapped, run⟩ ∈ ledger.outstanding := by
    rw [houtstanding]
    exact List.mem_append_right _ (List.mem_singleton.mpr rfl)
  have hbacks : Backs image run := backs_of_fits ht hcount (haccounted.fits _ hmem)
  have hback : directPhysical (pageOffset + run.physicalAddress) = run.physicalAddress :=
    Nat.add_sub_cancel_left _ _
  have hlt := hbacks.mapped
  have hadd : pageOffset + run.physicalAddress < 2 ^ 64 := by
    unfold directRamEnd page2MSize at hlt
    unfold pageOffset
    omega
  rw [run_bind_ok (run_add p hadd _)]
  -- zeroing the two pages and copying the payload stay inside the run
  have hkeep : ∀ f : Memory → Memory, (∀ m, ∀ x < run.physicalAddress, f m x = m x) →
      ∀ r : Demo, Extends l (Unmapped u t.memory) r ∧
          ⟨.mapped, run⟩ ∈ r.current.ledger.outstanding →
        Extends l (Unmapped u t.memory) ⟨r.current.onRam f, r.trace ++ [r.current.onRam f]⟩ ∧
          ⟨.mapped, run⟩ ∈ (r.current.onRam f).ledger.outstanding := by
    rintro f hf r ⟨hr, hmem⟩
    refine ⟨hr.snoc (Unmapped.storeRun himage hu hbacks hr.1 (hf _)), ?_⟩
    rw [Session.onRam_ledger]
    exact hmem
  have hr3 := hkeep (fun m => fill m (directPhysical (pageOffset + run.physicalAddress))
    (pageSize * 2) 0) (fun m x hx => fill_outside (.inl (by rw [hback]; exact hx))) _ ⟨hr2, hmem⟩
  rw [run_bind_ok (run_record_modify _ _)]
  have hsize : Stays (fun r => Extends l (Unmapped u t.memory) r ∧
      ⟨.mapped, run⟩ ∈ r.current.ledger.outstanding) (p.sub u.userEnd u.userStart) := stays_sub p _ _
  refine ((hsize _ hr3).mono (fun _ _ h => h) fun _ _ h => h.1).bind ?_
  rintro size r4 hr4
  refine (satisfies_require fun _ => hr4.1).bind ?_
  rintro _ _ ⟨rfl, -⟩
  refine (satisfies_require fun _ => hr4.1).bind ?_
  rintro _ r ⟨rfl, -⟩
  have hr5 := hkeep (fun m => copy m (directPhysical (pageOffset + run.physicalAddress))
    (directPhysical u.userStart) size) (fun m x hx => copy_outside (.inl (by rw [hback]; exact hx))) _
    hr4
  rw [run_bind_ok (run_record_modify _ _)]
  exact satisfies_ok.mpr ⟨hr5.1, hbacks, hr5.2⟩

end MikoOS.UserMode
