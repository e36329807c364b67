import MikoOS.BootInfo
import MikoOS.Library.WordBits

/-!
# Page descriptors, zones and the three redundant records

`memory.rs`: the bitmap, the `Page` array and the `Zone` counters, and the primitives `set_used`,
`init_page` and `clean_page` that update them one page at a time. A raw pointer field becomes the
array it points to together with its address; a zone pointer becomes the index of the zone.

`mark` and `clear` are the bulk updates the allocator is meant to perform. The step lemmas say that
on a free page `init_page` marks exactly that page, and that `clean_page` clears a page on which the
last reference is dropped.
-/

namespace MikoOS

open ByteMemory Rust

def pageOffset : ℕ := 0xffff800000000000
def page2MSize : ℕ := 2 ^ 21
def page4KSize : ℕ := 2 ^ 12
def directRamEnd : ℕ := 10 * 1024 * 1024
def maxZones : ℕ := maxEntries

namespace Flags

def pageTableMapped : BitVec 64 := 1 <<< 0
def kernelInit : BitVec 64 := 1 <<< 1
def referenced : BitVec 64 := 1 <<< 2
def active : BitVec 64 := 1 <<< 4
def kernel : BitVec 64 := 1 <<< 7
def kernelShareToUser : BitVec 64 := 1 <<< 8

end Flags

structure Page where
  zone : Option ℕ
  physicalAddress : ℕ
  attributes : BitVec 64
  referenceCount : ℕ
  createTime : BitVec 64
  deriving DecidableEq, Repr

def Page.zero : Page := ⟨none, 0, 0, 0, 0⟩

/-- `pages` is the index of the zone's first descriptor; the back pointer to the one global
descriptor is never read and is left out. -/
structure Zone where
  pages : ℕ
  numberPages : ℕ
  startAddress : ℕ
  endAddress : ℕ
  attributes : BitVec 64
  length : ℕ
  pageUsingCount : ℕ
  pageFreeCount : ℕ
  totalPagesRefCount : ℕ
  deriving DecidableEq, Repr

def Zone.zero : Zone := ⟨0, 0, 0, 0, 0, 0, 0, 0, 0⟩

structure MemoryDescriptor where
  e820 : Vector E820Entry maxEntries
  numberEntries : ℕ
  bitsMapAddress : ℕ
  bitsMap : WordBits.Words
  bitsSize : ℕ
  bitsLength : ℕ
  pagesAddress : ℕ
  pages : List Page
  pagesLength : ℕ
  zonesAddress : ℕ
  zones : List Zone
  zonesSize : ℕ
  endOfStruct : ℕ
  globalCr3 : BitVec 64

/-- The static `MEMORY` before `init`. -/
def MemoryDescriptor.zero : MemoryDescriptor where
  e820 := Vector.replicate maxEntries .empty
  numberEntries := 0
  bitsMapAddress := 0
  bitsMap := []
  bitsSize := 0
  bitsLength := 0
  pagesAddress := 0
  pages := []
  pagesLength := 0
  zonesAddress := 0
  zones := []
  zonesSize := 0
  endOfStruct := 0
  globalCr3 := 0

def indexAssertion : String := "assertion failed: index < self.bits_size"

def setUsed (index : ℕ) (used : Bool) : Exec MemoryDescriptor Unit := do
  require (index < (← get).bitsSize) indexAssertion
  let word ← element (← get).bitsMap (index / 64)
  let mask := WordBits.mask index
  modify fun s => { s with
    bitsMap := s.bitsMap.set (index / 64) (if used then word ||| mask else word &&& ~~~mask) }

def setPage (index : ℕ) (page : Page) : Exec MemoryDescriptor Unit :=
  modify fun s => { s with pages := s.pages.set index page }

def updateZone (z : ℕ) (f : Zone → Exec MemoryDescriptor Zone) : Exec MemoryDescriptor Unit :=
  updateElement MemoryDescriptor.zones (fun s zones => { s with zones := zones }) z f

def initPage (p : Profile) (index : ℕ) (attributes : BitVec 64) : Exec MemoryDescriptor Unit := do
  require (index < (← get).bitsSize) indexAssertion
  let page ← element (← get).pages index
  if page.attributes = 0 then
    setPage index { page with attributes := attributes, referenceCount := 1 }
    match page.zone with
    | none => pure ()
    | some z => updateZone z fun zone => do
      require (0 < zone.pageFreeCount) "assertion failed: zone.page_free_count > 0"
      let pageUsingCount ← p.add zone.pageUsingCount 1
      let pageFreeCount ← p.sub zone.pageFreeCount 1
      let totalPagesRefCount ← p.add zone.totalPagesRefCount 1
      pure { zone with
        pageUsingCount := pageUsingCount
        pageFreeCount := pageFreeCount
        totalPagesRefCount := totalPagesRefCount }
  else if (page.attributes ||| attributes) &&& (Flags.referenced ||| Flags.kernelShareToUser) ≠ 0 then
    setPage index { page with attributes := page.attributes ||| attributes }
    let referenceCount ← p.add page.referenceCount 1
    setPage index { page with
      attributes := page.attributes ||| attributes, referenceCount := referenceCount }
    match page.zone with
    | none => pure ()
    | some z => updateZone z fun zone => do
      let totalPagesRefCount ← p.add zone.totalPagesRefCount 1
      pure { zone with totalPagesRefCount := totalPagesRefCount }
  else
    setPage index { page with attributes := page.attributes ||| attributes }
  setUsed index true

def cleanAssertion : String :=
  "assertion failed: !page.zone.is_null() && page.attribute & flags::KERNEL_INIT == 0"

def cleanPage (p : Profile) (index : ℕ) : Exec MemoryDescriptor Unit := do
  require (index < (← get).bitsSize) indexAssertion
  let page ← element (← get).pages index
  let z ← expect page.zone cleanAssertion
  require (page.attributes &&& Flags.kernelInit = 0) cleanAssertion
  if page.attributes = 0 then return
  require (0 < page.referenceCount) "assertion failed: page.reference_count > 0"
  let referenceCount ← p.sub page.referenceCount 1
  setPage index { page with referenceCount := referenceCount }
  updateZone z fun zone => do
    let totalPagesRefCount ← p.sub zone.totalPagesRefCount 1
    pure { zone with totalPagesRefCount := totalPagesRefCount }
  if referenceCount = 0 then
    setPage index { page with attributes := 0, referenceCount := 0 }
    updateZone z fun zone => do
      let pageUsingCount ← p.sub zone.pageUsingCount 1
      let pageFreeCount ← p.add zone.pageFreeCount 1
      pure { zone with pageUsingCount := pageUsingCount, pageFreeCount := pageFreeCount }
    setUsed index false

namespace MemoryDescriptor

/-- Bit `i` of the bitmap: the page is in use or not allocatable. -/
def used (s : MemoryDescriptor) (i : ℕ) : Bool := WordBits.testBit s.bitsMap i

def zoneOf (s : MemoryDescriptor) (i : ℕ) : Option ℕ := (s.pages[i]?).bind Page.zone

/-- How many pages of `B` belong to zone `z`. -/
def share (s : MemoryDescriptor) (B : Finset ℕ) (z : ℕ) : ℕ := {i ∈ B | s.zoneOf i = some z}.card

/-- Rewrites the bits and descriptors of the pages in `B`, and every zone by its share of `B`. -/
def overlay (s : MemoryDescriptor) (B : Finset ℕ) (used : Bool) (page : ℕ → Page → Page)
    (zone : ℕ → Zone → Zone) : MemoryDescriptor :=
  { s with
    bitsMap := WordBits.assign s.bitsMap B used
    pages := s.pages.mapIdx fun i pg => if i ∈ B then page i pg else pg
    zones := s.zones.mapIdx fun z zn => zone (s.share B z) zn }

end MemoryDescriptor

def Page.take (attributes : BitVec 64) (page : Page) : Page :=
  { page with attributes := attributes, referenceCount := 1 }

def Page.give (page : Page) : Page := { page with attributes := 0, referenceCount := 0 }

def Zone.take (n : ℕ) (zone : Zone) : Zone :=
  { zone with
    pageUsingCount := zone.pageUsingCount + n
    pageFreeCount := zone.pageFreeCount - n
    totalPagesRefCount := zone.totalPagesRefCount + n }

def Zone.give (n : ℕ) (zone : Zone) : Zone :=
  { zone with
    pageUsingCount := zone.pageUsingCount - n
    pageFreeCount := zone.pageFreeCount + n
    totalPagesRefCount := zone.totalPagesRefCount - n }

namespace MemoryDescriptor

/-- The pages of `B` taken by one exclusive owner, page `i` with attributes `attributes i`. -/
def mark (s : MemoryDescriptor) (attributes : ℕ → BitVec 64) (B : Finset ℕ) : MemoryDescriptor :=
  s.overlay B true (fun i => Page.take (attributes i)) Zone.take

/-- The pages of `B` given back by their only owner. -/
def clear (s : MemoryDescriptor) (B : Finset ℕ) : MemoryDescriptor :=
  s.overlay B false (fun _ => Page.give) Zone.give

variable {s : MemoryDescriptor} {B C : Finset ℕ} {i z : ℕ} {attributes : ℕ → BitVec 64}

/-- Two descriptors that agree outside the three records are equal when the records are. -/
theorem records_ext {bits bits' : WordBits.Words} {pages pages' : List Page}
    {zones zones' : List Zone} (hb : bits = bits') (hp : pages = pages') (hz : zones = zones') :
    ({ s with bitsMap := bits, pages := pages, zones := zones } : MemoryDescriptor) =
      { s with bitsMap := bits', pages := pages', zones := zones' } := by
  rw [hb, hp, hz]

section Overlay

variable {u : Bool} {page : ℕ → Page → Page} {zone : ℕ → Zone → Zone}

theorem getElem?_pages_overlay (i : ℕ) :
    (s.overlay B u page zone).pages[i]? =
      (s.pages[i]?).map fun pg => if i ∈ B then page i pg else pg := by
  simp only [overlay, List.getElem?_mapIdx]

theorem getElem?_zones_overlay (z : ℕ) :
    (s.overlay B u page zone).zones[z]? = (s.zones[z]?).map (zone (s.share B z)) := by
  simp only [overlay, List.getElem?_mapIdx]

theorem used_overlay (hi : i < 64 * s.bitsMap.length) :
    (s.overlay B u page zone).used i = if i ∈ B then u else s.used i :=
  WordBits.testBit_assign B u hi

theorem zoneOf_overlay (hpage : ∀ i pg, (page i pg).zone = pg.zone) (i : ℕ) :
    (s.overlay B u page zone).zoneOf i = s.zoneOf i := by
  rw [zoneOf, zoneOf, getElem?_pages_overlay]
  cases s.pages[i]? with
  | none => rfl
  | some pg =>
    simp only [Option.map_some, Option.bind_some]
    split
    · exact hpage i pg
    · rfl

theorem share_congr {t : MemoryDescriptor} (h : ∀ i, t.zoneOf i = s.zoneOf i) (B : Finset ℕ) (z : ℕ) :
    t.share B z = s.share B z := by
  simp only [share, h]

end Overlay

theorem zoneOf_mark (i : ℕ) : (s.mark attributes B).zoneOf i = s.zoneOf i := by
  rw [mark]
  apply zoneOf_overlay
  intros
  rfl

theorem zoneOf_clear (i : ℕ) : (s.clear B).zoneOf i = s.zoneOf i := by
  rw [clear]
  apply zoneOf_overlay
  intros
  rfl

theorem share_empty (z : ℕ) : s.share ∅ z = 0 := by
  rw [share, Finset.filter_empty, Finset.card_empty]

theorem share_union (h : Disjoint B C) (z : ℕ) : s.share (B ∪ C) z = s.share B z + s.share C z := by
  rw [share, share, share, Finset.filter_union, Finset.card_union_of_disjoint]
  exact Finset.disjoint_filter_filter h

theorem share_sdiff (h : C ⊆ B) (z : ℕ) : s.share (B \ C) z + s.share C z = s.share B z := by
  rw [← share_union Finset.sdiff_disjoint z, Finset.sdiff_union_of_subset h]

theorem share_singleton (i z : ℕ) : s.share {i} z = if s.zoneOf i = some z then 1 else 0 := by
  rw [share, Finset.filter_singleton]
  split <;> simp

section Portions

variable {u : Bool} {page : ℕ → Page → Page} {f : ℕ → Zone → Zone}

theorem overlay_empty (hf : ∀ zone, f 0 zone = zone) : s.overlay ∅ u page f = s := by
  have hb : WordBits.assign s.bitsMap ∅ u = s.bitsMap :=
    WordBits.ext (WordBits.length_assign _ _ _) fun i hi => by
      rw [WordBits.length_assign] at hi
      rw [WordBits.testBit_assign ∅ u hi, if_neg (Finset.notMem_empty i)]
  refine records_ext hb (List.ext_getElem? fun i => ?_) (List.ext_getElem? fun z => ?_)
  · simp [List.getElem?_mapIdx]
  · simp [List.getElem?_mapIdx, share_empty, hf]

/-- One update carried out in two portions is the update of their union. -/
theorem overlay_overlay
    (hshare : ∀ z zone, f ((s.overlay B u page f).share C z) zone = f (s.share C z) zone)
    (hf : ∀ m n zone, f n (f m zone) = f (m + n) zone) (h : Disjoint B C) :
    (s.overlay B u page f).overlay C u page f = s.overlay (B ∪ C) u page f := by
  have hb : WordBits.assign (WordBits.assign s.bitsMap B u) C u =
      WordBits.assign s.bitsMap (B ∪ C) u := by
    refine WordBits.ext (by simp) fun i hi => ?_
    simp only [WordBits.length_assign] at hi
    rw [WordBits.testBit_assign _ _ (by simpa using hi), WordBits.testBit_assign _ _ hi,
      WordBits.testBit_assign _ _ hi]
    by_cases hB : i ∈ B <;> by_cases hC : i ∈ C <;> simp [hB, hC]
  refine records_ext hb (List.ext_getElem? fun i => ?_) (List.ext_getElem? fun z => ?_)
  · rw [List.getElem?_mapIdx, List.getElem?_mapIdx, getElem?_pages_overlay, Option.map_map]
    congr 1
    funext pg
    have hnot : i ∈ B → i ∉ C := fun hB hC => Finset.disjoint_left.mp h hB hC
    by_cases hB : i ∈ B
    · simp [hB, hnot hB]
    · by_cases hC : i ∈ C <;> simp [hB, hC]
  · rw [List.getElem?_mapIdx, List.getElem?_mapIdx, getElem?_zones_overlay, Option.map_map,
      share_union h]
    congr 1
    funext zn
    rw [Function.comp_apply, hshare, hf]

end Portions

theorem mark_empty : s.mark attributes ∅ = s := overlay_empty fun _ => rfl

theorem clear_empty : s.clear ∅ = s := overlay_empty fun _ => rfl

theorem mark_mark (h : Disjoint B C) :
    (s.mark attributes B).mark attributes C = s.mark attributes (B ∪ C) := by
  refine overlay_overlay (fun z zone => ?_) (fun m n zone => ?_) h
  · rw [← mark, share_congr zoneOf_mark]
  · simp only [Zone.take, Nat.add_assoc, Nat.sub_sub]

theorem clear_clear (h : Disjoint B C) : (s.clear B).clear C = s.clear (B ∪ C) := by
  refine overlay_overlay (fun z zone => ?_) (fun m n zone => ?_) h
  · rw [← clear, share_congr zoneOf_clear]
  · simp only [Zone.give, Nat.add_assoc, Nat.sub_sub]

theorem set_pages_eq {page : Page} {f : ℕ → Page → Page} (hp : s.pages[i]? = some page) :
    s.pages.set i (f i page) =
      s.pages.mapIdx fun j pg => if j ∈ ({i} : Finset ℕ) then f j pg else pg := by
  refine List.ext_getElem? fun j => ?_
  rw [List.getElem?_set, List.getElem?_mapIdx]
  by_cases hj : i = j
  · subst hj
    obtain ⟨hlt, rfl⟩ := List.getElem?_eq_some_iff.mp hp
    simp [hlt]
  · simp [hj, Ne.symm hj]

theorem set_zones_eq {zone : Zone} {f : ℕ → Zone → Zone} (hz : s.zoneOf i = some z)
    (hzone : s.zones[z]? = some zone) (hf : f 0 = id) :
    s.zones.set z (f 1 zone) = s.zones.mapIdx fun w zn => f (s.share {i} w) zn := by
  refine List.ext_getElem? fun w => ?_
  rw [List.getElem?_set, List.getElem?_mapIdx, share_singleton, hz]
  by_cases hw : z = w
  · subst hw
    obtain ⟨hlt, rfl⟩ := List.getElem?_eq_some_iff.mp hzone
    simp [hlt]
  · simp [hw, hf]

theorem mapIdx_zones_of_none {f : ℕ → Zone → Zone} (hz : s.zoneOf i = none) (hf : f 0 = id) :
    (s.zones.mapIdx fun w zn => f (s.share {i} w) zn) = s.zones := by
  refine List.ext_getElem? fun w => ?_
  rw [List.getElem?_mapIdx, share_singleton, hz]
  simp [hf]

theorem setUsed_run {b : Bool} (hi : i < s.bitsSize) (hw : i / 64 < s.bitsMap.length) :
    (setUsed i b).run s =
      .ok () { s with bitsMap := WordBits.assign s.bitsMap {i} b } := by
  have hword : s.bitsMap[i / 64]? = some (s.bitsMap.getD (i / 64) 0) := by
    rw [List.getElem?_eq_getElem hw, List.getD_eq_getElem _ _ hw]
  have hbits : s.bitsMap.set (i / 64) (if b then s.bitsMap.getD (i / 64) 0 ||| WordBits.mask i
      else s.bitsMap.getD (i / 64) 0 &&& ~~~WordBits.mask i) = WordBits.assign s.bitsMap {i} b := by
    refine WordBits.ext (by simp) fun j hj => ?_
    rw [List.length_set] at hj
    rw [WordBits.testBit_assign {i} b hj]
    cases b with
    | true => simp only [if_true, WordBits.testBit_set hw, Finset.mem_singleton]
    | false => simp only [Bool.false_eq_true, if_false, WordBits.testBit_clear hw,
        Finset.mem_singleton]
  rw [setUsed]
  simp only [EStateM.run_bind, EStateM.run_get, run_require (decide_eq_true hi),
    run_element hword, EStateM.run_modify, hbits]

theorem updateZone_run {t : MemoryDescriptor} {f : Zone → Exec MemoryDescriptor Zone}
    (zone zone' : Zone) (hz : t.zones[z]? = some zone) (hf : (f zone).run t = .ok zone' t) :
    (updateZone z f).run t = .ok () { t with zones := t.zones.set z zone' } :=
  run_updateElement hz hf

/-- On a page nobody holds, `init_page` takes that page and nothing else. -/
theorem initPage_run_free (p : Profile) {page : Page} (hi : i < s.bitsSize)
    (hw : i / 64 < s.bitsMap.length) (hp : s.pages[i]? = some page) (hfree : page.attributes = 0)
    (hzone : ∀ z, page.zone = some z → ∃ zone, s.zones[z]? = some zone ∧ 0 < zone.pageFreeCount ∧
      zone.pageUsingCount + 1 < 2 ^ 64 ∧ zone.totalPagesRefCount + 1 < 2 ^ 64) :
    (initPage p i (attributes i)).run s = .ok () (s.mark attributes {i}) := by
  obtain ⟨owner, physicalAddress, _, referenceCount, createTime⟩ := page
  have hz : s.zoneOf i = owner := by rw [zoneOf, hp, Option.bind_some]
  have hpages := set_pages_eq (f := fun j => Page.take (attributes j)) hp
  rw [initPage]
  simp only [EStateM.run_bind, EStateM.run_get, run_require (decide_eq_true hi), run_element hp,
    if_pos hfree, setPage, EStateM.run_modify]
  cases owner with
  | none =>
    simp only
    rw [setUsed_run ?_ ?_]
    · refine congrArg (EStateM.Result.ok ()) (records_ext rfl hpages ?_)
      exact (mapIdx_zones_of_none (f := Zone.take) hz rfl).symm
    · exact hi
    · exact hw
  | some z =>
    obtain ⟨zone, hzn, hpos, husing, hrefs⟩ := hzone z rfl
    simp only [EStateM.run_bind]
    rw [updateZone_run zone (Zone.take 1 zone) ?_ ?_]
    · simp only
      rw [setUsed_run ?_ ?_]
      · refine congrArg (EStateM.Result.ok ()) (records_ext rfl hpages ?_)
        exact set_zones_eq (f := Zone.take) hz hzn rfl
      · exact hi
      · exact hw
    · exact hzn
    · simp only [EStateM.run_bind, run_require (decide_eq_true hpos), run_add p husing,
        run_sub p hpos, run_add p hrefs, EStateM.run_pure, Zone.take]

/-- The last reference to an ordinary page frees that page and nothing else. -/
theorem cleanPage_run_last (p : Profile) {page : Page} {zone : Zone} (hi : i < s.bitsSize)
    (hw : i / 64 < s.bitsMap.length) (hp : s.pages[i]? = some page) (hz : page.zone = some z)
    (hheld : page.attributes ≠ 0) (hordinary : page.attributes &&& Flags.kernelInit = 0)
    (hone : page.referenceCount = 1) (hzone : s.zones[z]? = some zone)
    (husing : 1 ≤ zone.pageUsingCount) (hrefs : 1 ≤ zone.totalPagesRefCount)
    (hfree : zone.pageFreeCount + 1 < 2 ^ 64) :
    (cleanPage p i).run s = .ok () (s.clear {i}) := by
  obtain ⟨owner, physicalAddress, attributes, referenceCount, createTime⟩ := page
  obtain rfl : referenceCount = 1 := hone
  obtain rfl : owner = some z := hz
  have hz : s.zoneOf i = some z := by rw [zoneOf, hp, Option.bind_some]
  have hpages := set_pages_eq (f := fun _ => Page.give) hp
  have hzones := set_zones_eq (f := Zone.give) hz hzone rfl
  have hlt : z < s.zones.length := (List.getElem?_eq_some_iff.mp hzone).1
  rw [cleanPage]
  simp only [EStateM.run_bind, EStateM.run_get, run_require (decide_eq_true hi), run_element hp,
    run_expect rfl, run_require (decide_eq_true hordinary), if_neg hheld,
    run_require (decide_eq_true Nat.one_pos), run_sub p le_rfl, setPage, EStateM.run_modify]
  rw [updateZone_run zone { zone with totalPagesRefCount := zone.totalPagesRefCount - 1 } ?_ ?_]
  · simp only [Nat.sub_self, if_true, EStateM.run_bind, EStateM.run_modify, List.set_set]
    rw [updateZone_run { zone with totalPagesRefCount := zone.totalPagesRefCount - 1 }
      (Zone.give 1 zone) ?_ ?_]
    · simp only [List.set_set]
      rw [setUsed_run ?_ ?_]
      · exact congrArg (EStateM.Result.ok ()) (records_ext rfl hpages hzones)
      · exact hi
      · exact hw
    · simp [hlt]
    · simp only [EStateM.run_bind, run_sub p husing, run_add p hfree, EStateM.run_pure, Zone.give]
  · exact hzone
  · simp only [EStateM.run_bind, run_sub p hrefs, EStateM.run_pure]

end MemoryDescriptor

end MikoOS
