import MikoOS.AllocatorInvariant

/-!
# First-fit allocation and release of page runs

`allocator.rs`. `allocate` scans each zone for `count` consecutive free bits and only then takes
the pages; `release` validates the whole run before it frees the first page. On a consistent
descriptor with no shared page, `allocate` returns the lowest window of the first zone that has one
and marks exactly its pages, and `release` of an exclusively held run clears exactly its pages.
-/

namespace MikoOS

open Rust

inductive AllocationArea
  | mapped
  | any
  deriving DecidableEq, Repr

inductive AllocationError
  | invalidCount
  | outOfMemory
  deriving DecidableEq, Repr

structure PageRun where
  first : ℕ
  count : ℕ
  deriving DecidableEq, Repr

def PageRun.physicalAddress (run : PageRun) : ℕ := run.first * page2MSize

def isUsed (index : ℕ) : Exec MemoryDescriptor Bool := do
  require (index < (← get).bitsSize) indexAssertion
  let word ← element (← get).bitsMap (index / 64)
  pure (word &&& WordBits.mask index != 0)

/-- The attributes `allocate` gives to page `page`. -/
def runAttributes (page : ℕ) : BitVec 64 :=
  if page < directRamEnd / page2MSize then
    Flags.active ||| Flags.kernel ||| Flags.pageTableMapped
  else Flags.active ||| Flags.kernel

/-- One index of the scan; `consecutive` free pages end just before it. -/
def scanPage (p : Profile) (count index consecutive : ℕ) :
    Exec MemoryDescriptor (ℕ ⊕ PageRun) := do
  if ← isUsed index then return .inl 0
  let consecutive ← p.add consecutive 1
  if consecutive ≠ count then return .inl consecutive
  let first ← p.sub (← p.add index 1) count
  forRange first (index + 1) () fun page _ => initPage p page (runAttributes page)
  return .inr ⟨first, count⟩

def AllocationArea.endAddress (area : AllocationArea) (zone : Zone) : ℕ :=
  match area with
  | .mapped => min zone.endAddress directRamEnd
  | .any => zone.endAddress

def searchZone (p : Profile) (area : AllocationArea) (count i : ℕ) :
    Exec MemoryDescriptor (Unit ⊕ PageRun) := do
  let zone ← element (← get).zones i
  let start := zone.startAddress / page2MSize
  let stop := area.endAddress zone / page2MSize
  if stop - start < count ∨ zone.pageFreeCount < count then return .inl ()
  match ← searchRange start stop 0 (scanPage p count) with
  | none => return .inl ()
  | some run => return .inr run

def allocate (p : Profile) (area : AllocationArea) (count : ℕ) :
    Exec MemoryDescriptor (Except AllocationError PageRun) := do
  if count = 0 then return .error .invalidCount
  match ← searchRange 0 (← get).zonesSize () fun i _ => searchZone p area count i with
  | none => return .error .outOfMemory
  | some run => return .ok run

def equalAssertion : String := "assertion `left == right` failed"

/-- One index of the validation pass of `release`. -/
def validatePage (zone : Option ℕ) (index : ℕ) : Exec MemoryDescriptor Unit := do
  let page ← element (← get).pages index
  require (page.zone = zone) equalAssertion
  require (← isUsed index) "assertion failed: self.is_used(index)"
  require (page.attributes ≠ 0 ∧ page.attributes &&& Flags.kernelInit = 0)
    "assertion failed: page.attribute != 0 && page.attribute & flags::KERNEL_INIT == 0"
  require (page.referenceCount = 1) equalAssertion

def release (p : Profile) (run : PageRun) : Exec MemoryDescriptor Unit := do
  let stop ← expect (checkedAdd run.first run.count) "page range overflow"
  require (0 < run.count ∧ stop ≤ (← get).bitsSize)
    "assertion failed: run.count > 0 && end <= self.bits_size"
  let page ← element (← get).pages run.first
  require page.zone.isSome "assertion failed: !zone.is_null()"
  forRange run.first stop () fun index _ => validatePage page.zone index
  forRange run.first stop () fun index _ => cleanPage p index

def PageRun.pages (run : PageRun) : Finset ℕ := Finset.Ico run.first (run.first + run.count)

theorem PageRun.mem_pages {run : PageRun} {i : ℕ} :
    i ∈ run.pages ↔ run.first ≤ i ∧ i < run.first + run.count := Finset.mem_Ico

theorem runAttributes_ne_zero (i : ℕ) : runAttributes i ≠ 0 := by
  unfold runAttributes
  split <;> decide

theorem runAttributes_ordinary (i : ℕ) : runAttributes i &&& Flags.kernelInit = 0 := by
  unfold runAttributes
  split <;> decide

namespace MemoryDescriptor

variable {s : MemoryDescriptor} {B C : Finset ℕ} {i z : ℕ} {attributes : ℕ → BitVec 64}

theorem isUsed_run (hs : s.Consistent) (hi : i < s.bitsSize) :
    (isUsed i).run s = .ok (s.used i) s := by
  have hw := hs.lt_words hi
  rw [isUsed]
  simp only [EStateM.run_bind, EStateM.run_get, run_require (decide_eq_true hi),
    run_element (List.getElem?_eq_getElem hw), EStateM.run_pure]
  rw [used, WordBits.testBit, List.getD_eq_getElem _ _ hw, ← WordBits.and_mask_ne_zero]
  rfl

theorem Exclusive.mark (hx : s.Exclusive) (hB : ∀ i ∈ B, i < s.pages.length) :
    (s.mark attributes B).Exclusive := fun i => by
  rw [references_mark hB]
  split
  · exact le_rfl
  · exact hx i

theorem Exclusive.clear (hx : s.Exclusive) : (s.clear B).Exclusive := fun i => by
  rw [references_clear]
  split
  · exact Nat.zero_le 1
  · exact hx i

theorem initPage_run_unclaimed (p : Profile) (hs : s.Consistent) (hx : s.Exclusive)
    (hi : i < s.bitsSize) (hattr : s.attributesOf i = 0) :
    (initPage p i (attributes i)).run s = .ok () (s.mark attributes {i}) := by
  obtain ⟨page, hpage⟩ := hs.exists_page hi
  refine initPage_run_free p hi (hs.lt_words hi) hpage ((attributesOf_eq hpage).symm.trans hattr)
    fun z hz => ?_
  have hzi : s.zoneOf i = some z := (zoneOf_eq hpage).trans hz
  obtain ⟨zone, hzone, hmem⟩ := (hs.zone_pages i z).mp hzi
  have hunused : s.used i = false := by
    rw [Bool.eq_false_iff]
    intro hu
    rcases (hs.used_iff i hi).mp hu with h | h
    · exact h hattr
    · rw [hzi] at h
      cases h
  have husing := hs.using_le hzone
  have hrefs := hs.refs_le hx hzone
  exact ⟨zone, hzone.2, hs.free_pos hzone hmem hunused, by omega, by omega⟩

/-- The loop of `allocate` and of `init` that takes a range of unclaimed pages. -/
theorem markRange_run (p : Profile) (hs : s.Consistent) (hx : s.Exclusive) {first stop : ℕ}
    (hle : first ≤ stop)
    (hfree : ∀ i, first ≤ i → i < stop → i < s.bitsSize ∧ s.attributesOf i = 0)
    (hattr : ∀ i, first ≤ i → i < stop → attributes i ≠ 0) :
    (forRange first stop () fun page _ => initPage p page (attributes page)).run s =
      .ok () (s.mark attributes (Finset.Ico first stop)) := by
  have hloop : Satisfies ((forRange first stop () fun page _ =>
      initPage p page (attributes page)).run s)
      (fun _ t => t = s.mark attributes (Finset.Ico first stop)) fun _ _ => False := by
    refine forRange_satisfies (fun i _ t => t = s.mark attributes (Finset.Ico first i)) hle ?_ ?_
    · rintro i - t hi hlt rfl
      have hB : ∀ j ∈ Finset.Ico first i, j < s.bitsSize ∧ s.attributesOf j = 0 := fun j hj => by
        obtain ⟨h1, h2⟩ := Finset.mem_Ico.mp hj
        exact hfree j h1 (h2.trans hlt)
      have hBp : ∀ j ∈ Finset.Ico first i, j < s.pages.length := fun j hj => by
        rw [hs.length_pages]
        exact (hB j hj).1
      have hs' := hs.mark hB fun j hj => by
        obtain ⟨h1, h2⟩ := Finset.mem_Ico.mp hj
        exact hattr j h1 (h2.trans hlt)
      rw [initPage_run_unclaimed p hs' (hx.mark hBp) (hfree i hi hlt).1]
      · rw [satisfies_ok, mark_mark (by simp), ← Finset.Ico_union_Ico_eq_Ico hi (Nat.le_succ i)]
        congr
        simp
      · rw [attributesOf_mark hBp, if_neg (by simp)]
        exact (hfree i hi hlt).2
    · rw [Finset.Ico_self, mark_empty]
  obtain ⟨_, t, hrun, rfl⟩ := hloop.exists_ok
  exact hrun

/-- The `count` pages from `first` are free. -/
def FreeFrom (s : MemoryDescriptor) (first count : ℕ) : Prop :=
  ∀ i, first ≤ i → i < first + count → s.used i = false

/-- `first` starts `count` free pages inside zone `z`, below the end of the area. -/
def Window (s : MemoryDescriptor) (area : AllocationArea) (count z first : ℕ) : Prop :=
  ∃ zone, s.HasZone z zone ∧ zone.first ≤ first ∧
    first + count ≤ area.endAddress zone / page2MSize ∧ s.FreeFrom first count

/-- `first` is the lowest window of the first zone that has one. -/
structure FirstFit (s : MemoryDescriptor) (area : AllocationArea) (count z first : ℕ) : Prop where
  window : s.Window area count z first
  lowest : ∀ w < first, ¬ s.Window area count z w
  earliest : ∀ y < z, ∀ w, ¬ s.Window area count y w

theorem Window.eq_zone {area : AllocationArea} {count w : ℕ} {zone : Zone}
    (h : s.Window area count z w) (hzone : s.HasZone z zone) : zone.first ≤ w ∧
      w + count ≤ area.endAddress zone / page2MSize ∧ s.FreeFrom w count := by
  obtain ⟨zone', hzone', hrest⟩ := h
  rwa [Option.some.inj (hzone.2.symm.trans hzone'.2)]

/-- The state of the scan before `index`: the last `consecutive` pages are free, the page before
them is not, and no window ends earlier. -/
structure Scanned (s : MemoryDescriptor) (start count index consecutive : ℕ) : Prop where
  short : consecutive < count
  inside : consecutive ≤ index - start
  free : s.FreeFrom (index - consecutive) consecutive
  blocked : ∀ w, start ≤ w → w < index - consecutive → ¬ s.FreeFrom w count

theorem Scanned.used {start count index consecutive : ℕ}
    (h : s.Scanned start count index consecutive) (hi : s.used index = true) :
    s.Scanned start count (index + 1) 0 where
  short := (Nat.zero_le _).trans_lt h.short
  inside := Nat.zero_le _
  free := fun i h1 h2 => absurd h2 (by omega)
  blocked := fun w hw hlt hfree => by
    by_cases hin : w < index - consecutive
    · exact h.blocked w hw hin hfree
    · have := hfree index (by omega) (by have := h.short; omega)
      rw [hi] at this
      cases this

theorem Scanned.next {start count index consecutive : ℕ}
    (h : s.Scanned start count index consecutive) (hle : start ≤ index) (hi : s.used index = false)
    (hne : consecutive + 1 ≠ count) : s.Scanned start count (index + 1) (consecutive + 1) where
  short := by have := h.short; omega
  inside := by have := h.inside; omega
  free := fun i h1 h2 => by
    have := h.inside
    by_cases hlast : i = index
    · rw [hlast, hi]
    · exact h.free i (by omega) (by omega)
  blocked := fun w hw hlt => h.blocked w hw (by omega)

theorem scanPage_run (p : Profile) (hs : s.Consistent) (hx : s.Exclusive)
    {start count index consecutive : ℕ} (hle : start ≤ index) (hi : index < s.bitsSize)
    (h : s.Scanned start count index consecutive) :
    Satisfies ((scanPage p count index consecutive).run s)
      (fun r t => r.elim (fun c => t = s ∧ s.Scanned start count (index + 1) c) fun run =>
        t = s.mark runAttributes run.pages ∧ run.count = count ∧ start ≤ run.first ∧
          run.first + count = index + 1 ∧ s.FreeFrom run.first count ∧
          ∀ w, start ≤ w → w < run.first → ¬ s.FreeFrom w count)
      fun _ _ => False := by
  have hshort := h.short
  have hinside := h.inside
  have hsmall := hs.bitsSize_le
  rw [scanPage]
  simp only [EStateM.run_bind, isUsed_run hs hi]
  cases hu : s.used index with
  | true => exact satisfies_ok.mpr ⟨rfl, h.used hu⟩
  | false =>
    simp only [Bool.false_eq_true, if_false, EStateM.run_bind]
    rw [run_add p (by omega)]
    by_cases hne : consecutive + 1 ≠ count
    · simp only [if_pos hne, EStateM.run_pure]
      exact satisfies_ok.mpr ⟨rfl, h.next hle hu hne⟩
    · obtain rfl : consecutive + 1 = count := not_not.mp hne
      have hfree : s.FreeFrom (index - consecutive) (consecutive + 1) := fun i h1 h2 => by
        by_cases hlast : i = index
        · rw [hlast, hu]
        · exact h.free i h1 (by omega)
      simp only [ne_eq, not_true_eq_false, if_false, EStateM.run_bind]
      rw [run_add p (by omega)]
      simp only
      rw [run_sub p (by omega), Nat.add_sub_add_right]
      simp only
      rw [markRange_run p hs hx (by omega)]
      · have hfirst : start ≤ index - consecutive := by omega
        have hlast : index - consecutive + (consecutive + 1) = index + 1 := by omega
        refine satisfies_ok.mpr ⟨?_, rfl, hfirst, hlast, hfree, h.blocked⟩
        rw [PageRun.pages, hlast]
      · intro i h1 h2
        have hlt : i < s.bitsSize := by omega
        exact ⟨hlt, hs.free_attributes ⟨hlt, hfree i h1 (by omega)⟩⟩
      · exact fun i _ _ => runAttributes_ne_zero i

theorem Consistent.count_le_free (hs : s.Consistent) {area : AllocationArea} {count w : ℕ}
    {zone : Zone} (hzone : s.HasZone z zone) (h : s.Window area count z w) :
    count ≤ zone.pageFreeCount ∧ area.endAddress zone / page2MSize ≤ zone.last := by
  obtain ⟨hfirst, hstop, hfree⟩ := h.eq_zone hzone
  have harea : area.endAddress zone / page2MSize ≤ zone.last := by
    refine Nat.div_le_div_right ?_
    cases area with
    | mapped => exact min_le_left _ _
    | any => exact le_rfl
  refine ⟨?_, harea⟩
  have hcount : zone.pageFreeCount = {i ∈ zone.range | s.used i = false}.card :=
    congrArg (·.2.1) (hs.counts z zone hzone)
  calc count = (Finset.Ico w (w + count)).card := by rw [Nat.card_Ico, Nat.add_sub_cancel_left]
    _ ≤ {i ∈ zone.range | s.used i = false}.card := Finset.card_le_card fun i hi => by
      obtain ⟨h1, h2⟩ := Finset.mem_Ico.mp hi
      exact Finset.mem_filter.mpr ⟨Finset.mem_Ico.mpr ⟨by omega, by omega⟩, hfree i h1 h2⟩
    _ = zone.pageFreeCount := hcount.symm

theorem searchZone_run (p : Profile) (hs : s.Consistent) (hx : s.Exclusive) {count : ℕ}
    (hcount : 0 < count) (area : AllocationArea) (hz : z < s.zonesSize) :
    Satisfies ((searchZone p area count z).run s)
      (fun r t => r.elim (fun _ => t = s ∧ ∀ w, ¬ s.Window area count z w) fun run =>
        t = s.mark runAttributes run.pages ∧ run.count = count ∧
          s.Window area count z run.first ∧ ∀ w < run.first, ¬ s.Window area count z w)
      fun _ _ => False := by
  obtain ⟨zone, hzone⟩ : ∃ zone, s.zones[z]? = some zone :=
    ⟨_, List.getElem?_eq_getElem (by rw [hs.length_zones]; exact hz.trans_le hs.zonesSize_le)⟩
  have hzone : s.HasZone z zone := ⟨hz, hzone⟩
  rw [searchZone]
  simp only [EStateM.run_bind, EStateM.run_get, run_element hzone.2]
  by_cases hskip : area.endAddress zone / page2MSize - zone.startAddress / page2MSize < count ∨
      zone.pageFreeCount < count
  · rw [if_pos hskip, EStateM.run_pure]
    refine satisfies_ok.mpr ⟨rfl, fun w hw => ?_⟩
    obtain ⟨hfirst, hstop, -⟩ := hw.eq_zone hzone
    have hfree := (hs.count_le_free hzone hw).1
    rw [Zone.first] at hfirst
    omega
  · rw [if_neg hskip]
    simp only [not_or, not_lt] at hskip
    refine Satisfies.bind (searchRange_satisfies
      (fun index consecutive t => t = s ∧ s.Scanned zone.first count index consecutive)
      (fun run t => t = s.mark runAttributes run.pages ∧ run.count = count ∧
        s.Window area count z run.first ∧ ∀ w < run.first, ¬ s.Window area count z w)
      ?_ ?_ ?_) ?_
    · omega
    · rintro index consecutive t hle hlt ⟨rfl, hscan⟩
      have hlast : area.endAddress zone / page2MSize ≤ zone.last := by
        refine Nat.div_le_div_right ?_
        cases area with
        | mapped => exact min_le_left _ _
        | any => exact le_rfl
      have hbits := hs.zone_last z zone hzone
      refine (scanPage_run p hs hx hle (by omega) hscan).mono ?_ fun _ _ h => h
      rintro (c | run) u hr
      · exact hr
      · obtain ⟨rfl, hrun, hfirst, hstop, hfree, hlowest⟩ := hr
        refine ⟨rfl, hrun, ⟨zone, hzone, hfirst, by omega, hfree⟩, fun w hw h => ?_⟩
        obtain ⟨h1, -, h3⟩ := h.eq_zone hzone
        exact hlowest w h1 hw h3
    · refine ⟨rfl, hcount, Nat.zero_le _, fun i h1 h2 => ?_, fun w h1 h2 => ?_⟩
      · omega
      · rw [Zone.first] at h1
        omega
    · rintro (_ | run) t hr
      · obtain ⟨c, rfl, hscan⟩ := hr
        refine satisfies_ok.mpr ⟨rfl, fun w hw => ?_⟩
        obtain ⟨h1, h2, h3⟩ := hw.eq_zone hzone
        have hshort := hscan.short
        exact hscan.blocked w h1 (by omega) h3
      · exact satisfies_ok.mpr hr

/-- What `allocate` may answer, and the state it leaves. -/
def Answers (s : MemoryDescriptor) (area : AllocationArea) (count : ℕ) :
    Except AllocationError PageRun → MemoryDescriptor → Prop
  | .error .invalidCount, t => count = 0 ∧ t = s
  | .error .outOfMemory, t => 0 < count ∧ t = s ∧ ∀ z w, ¬ s.Window area count z w
  | .ok run, t => 0 < count ∧ run.count = count ∧ (∃ z, s.FirstFit area count z run.first) ∧
      t = s.mark runAttributes run.pages

/-- `allocate` is first fit by zone and then by address, takes the whole window or nothing, and
never panics. -/
theorem allocate_run (p : Profile) (hs : s.Consistent) (hx : s.Exclusive) (area : AllocationArea)
    (count : ℕ) :
    Satisfies ((allocate p area count).run s) (s.Answers area count) fun _ _ => False := by
  rw [allocate]
  by_cases hcount : count = 0
  · rw [if_pos hcount, EStateM.run_pure]
    exact satisfies_ok.mpr ⟨hcount, rfl⟩
  · have hpos := Nat.pos_of_ne_zero hcount
    rw [if_neg hcount]
    simp only [EStateM.run_bind, EStateM.run_get]
    refine Satisfies.bind (searchRange_satisfies
      (fun i _ t => t = s ∧ ∀ y < i, ∀ w, ¬ s.Window area count y w)
      (fun run t => t = s.mark runAttributes run.pages ∧ run.count = count ∧
        ∃ z, s.FirstFit area count z run.first) (Nat.zero_le _) ?_ ?_) ?_
    · rintro z - t - hz ⟨rfl, hnone⟩
      refine (searchZone_run p hs hx hpos area hz).mono ?_ fun _ _ h => h
      rintro (_ | run) u hr
      · refine ⟨hr.1, fun y hy => ?_⟩
        rcases Nat.lt_succ_iff_lt_or_eq.mp hy with h | rfl
        · exact hnone y h
        · exact hr.2
      · obtain ⟨rfl, hrun, hwindow, hlowest⟩ := hr
        exact ⟨rfl, hrun, z, hwindow, hlowest, hnone⟩
    · exact ⟨rfl, fun y hy => absurd hy (Nat.not_lt_zero y)⟩
    · rintro (_ | run) t hr
      · obtain ⟨_, rfl, hnone⟩ := hr
        refine satisfies_ok.mpr ⟨hpos, rfl, fun z w hw => ?_⟩
        obtain ⟨zone, hzone, -⟩ := id hw
        exact hnone z hzone.1 w hw
      · obtain ⟨rfl, hrun, hfit⟩ := hr
        exact satisfies_ok.mpr ⟨hpos, hrun, hfit, rfl⟩

/-- `run` is a non-empty run of ordinary pages of one zone, each held exactly once. -/
structure Held (s : MemoryDescriptor) (run : PageRun) : Prop where
  count_pos : 0 < run.count
  zone : ∃ z, ∀ i ∈ run.pages, s.zoneOf i = some z
  held : ∀ i ∈ run.pages, s.attributesOf i ≠ 0
  ordinary : ∀ i ∈ run.pages, s.attributesOf i &&& Flags.kernelInit = 0
  references : ∀ i ∈ run.pages, s.references i = 1

theorem Consistent.exists_zone (hs : s.Consistent) (hz : s.zoneOf i = some z) :
    ∃ zone, s.HasZone z zone ∧ i ∈ zone.range := (hs.zone_pages i z).mp hz

theorem Consistent.zone_le_using (hs : s.Consistent) (hz : s.zoneOf i = some z)
    (hattr : s.attributesOf i ≠ 0) :
    ∃ zone, s.HasZone z zone ∧ 1 ≤ zone.pageUsingCount ∧ 1 ≤ zone.totalPagesRefCount := by
  obtain ⟨zone, hzone, hmem⟩ := hs.exists_zone hz
  have hlt := hs.lt_of_zoneOf hz
  have hcounts := hs.counts z zone hzone
  simp only [recount, Prod.mk.injEq] at hcounts
  refine ⟨zone, hzone, ?_, ?_⟩
  · rw [hcounts.1]
    exact Finset.card_pos.mpr ⟨i, Finset.mem_filter.mpr ⟨hmem, (hs.used_iff i hlt).mpr (.inl hattr)⟩⟩
  · rw [hcounts.2.2]
    exact ((hs.held_iff i).mp hattr).trans_le
      (Finset.single_le_sum (f := s.references) (fun j _ => Nat.zero_le _) hmem)

theorem cleanPage_run_held (p : Profile) (hs : s.Consistent) (hz : s.zoneOf i = some z)
    (hattr : s.attributesOf i ≠ 0) (hordinary : s.attributesOf i &&& Flags.kernelInit = 0)
    (href : s.references i = 1) : (cleanPage p i).run s = .ok () (s.clear {i}) := by
  have hi := hs.lt_of_zoneOf hz
  obtain ⟨page, hpage⟩ := hs.exists_page hi
  obtain ⟨zone, hzone, husing, hrefs⟩ := hs.zone_le_using hz hattr
  have hfree := hs.free_le hzone
  rw [attributesOf_eq hpage] at hattr hordinary
  rw [references_eq hpage] at href
  rw [zoneOf_eq hpage] at hz
  exact cleanPage_run_last p hi (hs.lt_words hi) hpage hz hattr hordinary href hzone.2 husing hrefs
    (by omega)

theorem clearRange_run (p : Profile) (hs : s.Consistent) {run : PageRun} (h : s.Held run) :
    (forRange run.first (run.first + run.count) () fun index _ => cleanPage p index).run s =
      .ok () (s.clear run.pages) := by
  obtain ⟨z, hzone⟩ := h.zone
  have hloop : Satisfies ((forRange run.first (run.first + run.count) () fun index _ =>
      cleanPage p index).run s)
      (fun _ t => t = s.clear run.pages) fun _ _ => False := by
    refine forRange_satisfies (fun i _ t => t = s.clear (Finset.Ico run.first i))
      (Nat.le_add_right _ _) ?_ ?_
    · rintro i - t hi hlt rfl
      have hsub : ∀ j ∈ Finset.Ico run.first i, j ∈ run.pages := fun j hj => by
        obtain ⟨h1, h2⟩ := Finset.mem_Ico.mp hj
        exact PageRun.mem_pages.mpr ⟨h1, h2.trans hlt⟩
      have hmem : i ∈ run.pages := PageRun.mem_pages.mpr ⟨hi, hlt⟩
      have hnot : i ∉ Finset.Ico run.first i := by simp
      have hs' : (s.clear (Finset.Ico run.first i)).Consistent := hs.clear fun j hj =>
        ⟨by rw [hzone j (hsub j hj)]; simp, h.references j (hsub j hj)⟩
      have hattr := attributesOf_clear (s := s) (B := Finset.Ico run.first i) i
      rw [if_neg hnot] at hattr
      rw [cleanPage_run_held p hs' (z := z)]
      · rw [satisfies_ok, clear_clear (by simp), ← Finset.Ico_union_Ico_eq_Ico hi (Nat.le_succ i)]
        congr
        simp
      · rw [zoneOf_clear, hzone i hmem]
      · rw [hattr]
        exact h.held i hmem
      · rw [hattr]
        exact h.ordinary i hmem
      · rw [references_clear, if_neg hnot]
        exact h.references i hmem
    · rw [Finset.Ico_self, clear_empty]
  obtain ⟨_, t, hrun, rfl⟩ := hloop.exists_ok
  exact hrun

theorem validatePage_run (hs : s.Consistent) {run : PageRun} (h : s.Held run)
    (hz : s.zoneOf i = some z) (hi : i ∈ run.pages) :
    (validatePage (some z) i).run s = .ok () s := by
  have hlt := hs.lt_of_zoneOf hz
  obtain ⟨page, hpage⟩ := hs.exists_page hlt
  have hheld := h.held i hi
  have hordinary := h.ordinary i hi
  have href := h.references i hi
  have hused := (hs.used_iff i hlt).mpr (.inl hheld)
  rw [attributesOf_eq hpage] at hheld hordinary
  rw [references_eq hpage] at href
  rw [zoneOf_eq hpage] at hz
  rw [validatePage]
  simp only [EStateM.run_bind, EStateM.run_get, run_element hpage, run_require (decide_eq_true hz),
    isUsed_run hs hlt, run_require hused,
    run_require (decide_eq_true (And.intro hheld hordinary)), run_require (decide_eq_true href)]

/-- `release` of a held run frees exactly its pages and never panics. -/
theorem release_run (p : Profile) (hs : s.Consistent) {run : PageRun} (h : s.Held run) :
    (release p run).run s = .ok () (s.clear run.pages) := by
  obtain ⟨z, hzone⟩ := h.zone
  have hpos := h.count_pos
  have hfirst : run.first ∈ run.pages := PageRun.mem_pages.mpr ⟨le_rfl, by omega⟩
  have hlast : run.first + run.count - 1 ∈ run.pages :=
    PageRun.mem_pages.mpr ⟨by omega, by omega⟩
  have hstop := hs.lt_of_zoneOf (hzone _ hlast)
  have hsmall := hs.bitsSize_le
  have hstop : run.first + run.count ≤ s.bitsSize := by omega
  obtain ⟨page, hpage⟩ := hs.exists_page (hs.lt_of_zoneOf (hzone _ hfirst))
  have hz : page.zone = some z := (zoneOf_eq hpage).symm.trans (hzone _ hfirst)
  have hvalidate : (forRange run.first (run.first + run.count) () fun index _ =>
      validatePage (some z) index).run s = .ok () s := by
    have hloop : Satisfies ((forRange run.first (run.first + run.count) () fun index _ =>
        validatePage (some z) index).run s) (fun _ t => t = s) fun _ _ => False := by
      refine forRange_satisfies (fun _ _ t => t = s) (Nat.le_add_right _ _) ?_ rfl
      rintro i - t hi hlt rfl
      have hmem : i ∈ run.pages := PageRun.mem_pages.mpr ⟨hi, hlt⟩
      rw [validatePage_run hs h (hzone i hmem) hmem, satisfies_ok]
    obtain ⟨_, t, hrun, rfl⟩ := hloop.exists_ok
    exact hrun
  rw [release]
  simp only [EStateM.run_bind, EStateM.run_get,
    run_expect (checkedAdd_of_lt (show run.first + run.count < 2 ^ 64 by omega)),
    run_require (decide_eq_true (And.intro hpos hstop)), run_element hpage, hz,
    run_require Option.isSome_some, hvalidate, clearRange_run p hs h]

end MemoryDescriptor

end MikoOS
