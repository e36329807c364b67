import MikoOS.AllocatorHistory
import MikoOS.Library.Profiles

/-!
# The metadata arrays are never left and no operator wraps

`Embedded` places the three arrays in memory by the number of their elements. Every access of the
model to an element outside its array is a panic of its own, as is every overflow of an unchecked
operator in the `dev` profile; neither occurs in `init` or in any history of allocations and
releases, and there the release profile computes exactly the same.
-/

namespace MikoOS

open Rust

variable {σ : Type}

section Agreement

theorem overlapsPrevious_agrees (entry : E820Entry) (stop : ℕ) (seen : List E820Entry) :
    Agrees fun p => (overlapsPrevious p entry stop seen : Exec σ Bool) := by
  induction seen with
  | nil => exact agrees_const _
  | cons previous rest ih =>
    apply (agrees_add _ _).bind
    intro previousEnd
    exact (agrees_const _).ite ih

theorem validateFrom_agrees (seen rest : List E820Entry) :
    Agrees fun p => (validateFrom p seen rest : Exec σ (Except String Unit)) := by
  induction rest generalizing seen with
  | nil => exact agrees_const _
  | cons entry rest ih =>
    simp only [validateFrom]
    cases checkedAdd entry.address.toNat entry.length.toNat with
    | none => exact agrees_const _
    | some stop =>
      apply (ih _).ite
      apply (overlapsPrevious_agrees entry stop seen).bind
      intro overlaps
      exact (agrees_const _).ite (ih _)

theorem anyUsable_agrees (start stop : ℕ) (entries : List E820Entry) :
    Agrees fun p => (anyUsable p start stop entries : Exec σ Bool) := by
  induction entries with
  | nil => exact agrees_const _
  | cons entry rest ih =>
    refine Agrees.ite ?_ ih
    apply (agrees_add _ _).bind
    intro last
    exact (agrees_const _).ite ih

theorem containsUsable_agrees (map : MemoryMap) (start stop : ℕ) :
    Agrees fun p => (map.containsUsable p start stop : Exec σ Bool) :=
  (anyUsable_agrees start stop map.used).ite (agrees_const _)

theorem readMemoryMap_agrees (ram : ByteMemory.Memory) :
    Agrees fun p => (readMemoryMap p ram : Exec σ MemoryMap) := by
  unfold readMemoryMap
  apply (agrees_const _).bind
  intro count
  apply (validateFrom_agrees [] _).bind
  intro valid
  apply (agrees_const _).bind
  intro _
  refine Agrees.bind (Agrees.forM fun range => ?_) fun _ => agrees_const _
  apply (containsUsable_agrees _ _ _).bind
  intro usable
  exact agrees_const _

theorem surveyEntry_agrees (map : MemoryMap) (i : ℕ) (acc : Survey) :
    Agrees fun p => (surveyEntry p map i acc : Exec σ Survey) := by
  unfold surveyEntry
  apply (agrees_const _).bind
  intro entry
  refine Agrees.ite (agrees_const _) ?_
  apply (agrees_const _).bind
  intro last
  apply (agrees_const _).bind
  intro totalRam
  apply (agrees_const _).bind
  intro range
  cases range with
  | none => exact agrees_const _
  | some range =>
    apply (agrees_sub _ _).bind
    intro bytes
    exact (agrees_add _ _).bind fun _ => agrees_const _

theorem survey_agrees (map : MemoryMap) : Agrees fun p => (survey p map : Exec σ Survey) :=
  (Agrees.forRange (surveyEntry_agrees map)).bind fun _ => agrees_const _

theorem planLayout_agrees (image : KernelImage) (map : MemoryMap) (physicalEnd : ℕ) :
    Agrees fun p => (planLayout p image map physicalEnd : Exec σ Layout) := by
  unfold planLayout
  iterate 10
    apply (agrees_const _).bind
    intro _
  apply (agrees_sub _ _).bind
  intro physicalMetadataEnd
  apply (agrees_const _).bind
  intro _
  apply (agrees_sub _ _).bind
  intro text
  apply (containsUsable_agrees _ _ _).bind
  intro usable
  exact agrees_const _

theorem setPhysicalAddress_agrees (i : ℕ) : Agrees fun p => setPhysicalAddress p i := by
  unfold setPhysicalAddress
  apply (agrees_const _).bind
  intro s
  apply (agrees_const _).bind
  intro page
  exact (agrees_mul _ _).bind fun _ => agrees_const _

theorem buildZone_agrees (i : ℕ) : Agrees fun p => buildZone p i := by
  unfold buildZone
  apply (agrees_const _).bind
  intro s
  apply (agrees_const _).bind
  intro entry
  apply (agrees_const _).bind
  intro range
  cases range with
  | none => exact agrees_const _
  | some range =>
    apply (agrees_const _).bind
    intro s
    apply (agrees_const _).bind
    intro _
    apply (agrees_add _ _).bind
    intro zonesSize
    apply (agrees_const _).bind
    intro _
    apply (agrees_sub _ _).bind
    intro bytes
    apply (agrees_const _).bind
    intro _
    exact (agrees_add _ _).bind fun _ => agrees_const _

theorem initPage_agrees (index : ℕ) (attributes : BitVec 64) :
    Agrees fun p => initPage p index attributes := by
  unfold initPage
  apply (agrees_const _).bind
  intro s
  apply (agrees_const _).bind
  intro _
  apply (agrees_const _).bind
  intro s
  apply (agrees_const _).bind
  intro page
  refine Agrees.ite ?_ (Agrees.ite ?_ (agrees_const _))
  · apply (agrees_const _).bind
    intro _
    cases page.zone with
    | none => exact agrees_const _
    | some z =>
      refine Agrees.bind (Agrees.updateElement ?_) fun _ => agrees_const _
      intro zone
      apply (agrees_const _).bind
      intro _
      apply (agrees_add _ _).bind
      intro pageUsingCount
      apply (agrees_sub _ _).bind
      intro pageFreeCount
      exact (agrees_add _ _).bind fun _ => agrees_const _
  · apply (agrees_const _).bind
    intro _
    apply (agrees_add _ _).bind
    intro referenceCount
    apply (agrees_const _).bind
    intro _
    cases page.zone with
    | none => exact agrees_const _
    | some z =>
      refine Agrees.bind (Agrees.updateElement ?_) fun _ => agrees_const _
      intro zone
      exact (agrees_add _ _).bind fun _ => agrees_const _

theorem cleanPage_agrees (index : ℕ) : Agrees fun p => cleanPage p index := by
  unfold cleanPage
  apply (agrees_const _).bind
  intro s
  apply (agrees_const _).bind
  intro _
  apply (agrees_const _).bind
  intro s
  apply (agrees_const _).bind
  intro page
  apply (agrees_const _).bind
  intro z
  apply (agrees_const _).bind
  intro _
  refine Agrees.ite (agrees_const _) ?_
  apply (agrees_const _).bind
  intro _
  apply (agrees_sub _ _).bind
  intro referenceCount
  apply (agrees_const _).bind
  intro _
  refine Agrees.bind (Agrees.updateElement fun zone => ?_) fun _ => ?_
  · exact (agrees_sub _ _).bind fun _ => agrees_const _
  · refine Agrees.ite ?_ (agrees_const _)
    apply (agrees_const _).bind
    intro _
    refine Agrees.bind (Agrees.updateElement fun zone => ?_) fun _ => agrees_const _
    apply (agrees_sub _ _).bind
    intro pageUsingCount
    exact (agrees_add _ _).bind fun _ => agrees_const _

theorem checkPage_agrees (j : ℕ) (acc : ℕ × ℕ) : Agrees fun p => checkPage p j acc := by
  unfold checkPage
  iterate 5
    apply (agrees_const _).bind
    intro _
  refine Agrees.ite ?_ ?_
  · exact (agrees_const _).bind fun _ => (agrees_add _ _).bind fun _ => agrees_const _
  · exact (agrees_add _ _).bind fun _ => (agrees_add _ _).bind fun _ => agrees_const _

theorem checkZone_agrees (i freePages : ℕ) : Agrees fun p => checkZone p i freePages := by
  unfold checkZone
  apply (agrees_const _).bind
  intro s
  apply (agrees_const _).bind
  intro zone
  apply (Agrees.forRange checkPage_agrees).bind
  intro counts
  apply (agrees_const _).bind
  intro _
  apply (agrees_add _ _).bind
  intro total
  apply (agrees_const _).bind
  intro _
  apply (agrees_const _).bind
  intro _
  exact agrees_add _ _

theorem describeMemory_agrees (image : KernelImage) (map : MemoryMap) :
    Agrees fun p => describeMemory p image map := by
  unfold describeMemory
  apply (survey_agrees map).bind
  intro found
  apply (planLayout_agrees image map found.physicalEnd).bind
  intro layout
  apply (agrees_const _).bind
  intro _
  apply (Agrees.forRange fun i _ => setPhysicalAddress_agrees i).bind
  intro _
  apply (Agrees.forRange fun i _ => buildZone_agrees i).bind
  intro _
  apply (Agrees.forRange fun i _ => initPage_agrees i reservedAttributes).bind
  intro _
  apply (agrees_const _).bind
  intro s
  exact (Agrees.forRange checkZone_agrees).bind fun _ => agrees_const _

theorem init_agrees (image : KernelImage) : Agrees fun p => init p image := by
  unfold init
  apply (agrees_const _).bind
  intro k
  apply (readMemoryMap_agrees k.ram).bind
  intro map
  refine Agrees.bind (describeMemory_agrees image map).zoom fun _ => ?_
  unfold removeIdentityMapping
  apply (agrees_const _).bind
  intro k
  apply (agrees_const _).bind
  intro _
  apply (agrees_add _ _).bind
  intro pml4
  apply (agrees_const _).bind
  intro k
  exact (agrees_add _ _).bind fun _ => agrees_const _

theorem allocate_agrees (area : AllocationArea) (count : ℕ) :
    Agrees fun p => allocate p area count := by
  have hscan : ∀ index consecutive, Agrees fun p => scanPage p count index consecutive := by
    intro index consecutive
    unfold scanPage
    apply (agrees_const _).bind
    intro inUse
    refine Agrees.ite (agrees_const _) ?_
    apply (agrees_add _ _).bind
    intro consecutive
    refine Agrees.ite (agrees_const _) ?_
    apply (agrees_add _ _).bind
    intro next
    apply (agrees_sub _ _).bind
    intro first
    apply (Agrees.forRange fun page _ => initPage_agrees page (runAttributes page)).bind
    intro _
    exact agrees_const _
  have hzone : ∀ i, Agrees fun p => searchZone p area count i := by
    intro i
    unfold searchZone
    apply (agrees_const _).bind
    intro s
    apply (agrees_const _).bind
    intro zone
    refine Agrees.ite (agrees_const _) ?_
    apply (Agrees.searchRange hscan).bind
    intro found
    exact agrees_const _
  unfold allocate
  refine Agrees.ite (agrees_const _) ?_
  apply (agrees_const _).bind
  intro s
  apply (Agrees.searchRange fun i _ => hzone i).bind
  intro found
  exact agrees_const _

theorem release_agrees (run : PageRun) : Agrees fun p => release p run := by
  unfold release
  iterate 6
    apply (agrees_const _).bind
    intro _
  apply (agrees_const _).bind
  intro _
  exact Agrees.forRange fun index _ => cleanPage_agrees index

theorem history_agrees (ops : List Operation) : Agrees fun p => history p ops := by
  induction ops with
  | nil => exact agrees_const _
  | cons op ops ih =>
    refine Agrees.bind ?_ fun _ => ih
    cases op with
    | allocate area count =>
      refine Agrees.bind ?_ fun _ => agrees_const _
      apply (allocate_agrees area count).zoom.bind
      intro answer
      exact agrees_const _
    | release index =>
      apply (agrees_const _).bind
      intro l
      cases l.outstanding[index]? with
      | none => exact agrees_const _
      | some holding => exact (release_agrees holding.run).zoom.bind fun _ => agrees_const _

end Agreement

/-- `init` on the descriptor up to its last containment check. -/
def containmentChecks (p : Profile) (image : KernelImage) (map : MemoryMap) :
    Exec MemoryDescriptor Layout := do
  let found ← survey p map
  planLayout p image map found.physicalEnd

/-- The rest of `init` on the descriptor, which fills the arrays. -/
def fillMetadata (p : Profile) (map : MemoryMap) (layout : Layout) :
    Exec MemoryDescriptor Unit := do
  modify fun s => s.blank map layout
  forRange 0 layout.bitsSize () fun i _ => setPhysicalAddress p i
  forRange 0 map.count () fun i _ => buildZone p i
  let reservedPages := (layout.physicalMetadataEnd + (page2MSize - 1)) / page2MSize
  forRange 0 reservedPages () fun index _ => initPage p index reservedAttributes
  let _ ← forRange 0 (← get).zonesSize 0 (checkZone p)

theorem describeMemory_eq (p : Profile) (image : KernelImage) (map : MemoryMap) :
    describeMemory p image map = containmentChecks p image map >>= fillMetadata p map := by
  rw [describeMemory, containmentChecks, bind_assoc]
  rfl

theorem containmentChecks_final (p : Profile) (image : KernelImage) (map : MemoryMap)
    (s : MemoryDescriptor) : final ((containmentChecks p image map).run s) = s := by
  have hchecks : Stays (· = s) (containmentChecks p image map) := by
    apply (survey_stays p map).bind
    intro found
    exact planLayout_stays p image map found.physicalEnd
  exact (hchecks s rfl).final

namespace MemoryDescriptor

variable {image : KernelImage} {map : MemoryMap} {s : MemoryDescriptor}

/-- The virtual addresses of the bitmap words, the `Page` and the `Zone` elements. -/
def arrays (s : MemoryDescriptor) : List (ℕ × ℕ) :=
  [(s.bitsMapAddress, s.bitsMapAddress + s.bitsMap.length * 8),
    (s.pagesAddress, s.pagesAddress + s.pages.length * sizeOfPage),
    (s.zonesAddress, s.zonesAddress + s.zones.length * sizeOfZone)]

/-- The arrays are disjoint, behind the kernel image and inside the initial mapping, and one entry
of ordinary RAM holds the physical bytes of all three. -/
structure Embedded (image : KernelImage) (map : MemoryMap) (s : MemoryDescriptor) : Prop where
  disjoint : s.arrays.Pairwise fun a b => a.2 ≤ b.1
  inside : ∀ r ∈ s.arrays, image.kernelEnd ≤ r.1 ∧ r.2 ≤ pageOffset + directRamEnd
  entry : ∃ e ∈ map.used, e.Ram ∧ ∀ r ∈ s.arrays, e.Covers (r.1 - pageOffset) (r.2 - pageOffset)

theorem Placed.embedded (himage : image.Linked) (hs : s.Consistent) (h : Placed image map s) :
    Embedded image map s := by
  have hwords : s.bitsMap.length * 8 = s.bitsLength := by rw [hs.length_bitsMap, h.bitsLength]
  have hpages : s.pages.length * sizeOfPage = s.pagesLength := by rw [hs.length_pages, h.pagesLength]
  have htext := himage.text_le
  have h1 := h.bitmap
  have h2 := h.pages
  have h3 := h.zones
  have h4 := h.endOfStruct
  have h5 := h.mapped
  have harrays : s.arrays = [(s.bitsMapAddress, s.bitsMapAddress + s.bitsLength),
      (s.pagesAddress, s.pagesAddress + s.pagesLength),
      (s.zonesAddress, s.zonesAddress + maxZones * sizeOfZone)] := by
    rw [arrays, hwords, hpages, hs.length_zones]
  have hbounds : ∀ r ∈ s.arrays, image.kernelEnd ≤ r.1 ∧ r.2 ≤ s.endOfStruct := by
    rw [harrays]
    intro r hr
    simp only [List.mem_cons, List.not_mem_nil, or_false] at hr
    rcases hr with rfl | rfl | rfl
    · exact ⟨h1, by simp only; omega⟩
    · exact ⟨by simp only; omega, by simp only; omega⟩
    · exact ⟨by simp only; omega, by simp only; omega⟩
  obtain ⟨-, e, he, hram, hcovers⟩ := h.usable
  refine ⟨?_, ?_, e, he, hram, ?_⟩
  · rw [harrays]
    simp only [List.pairwise_cons, List.mem_cons, List.not_mem_nil, or_false, forall_eq_or_imp,
      forall_eq, IsEmpty.forall_iff, implies_true, List.Pairwise.nil, and_true]
    omega
  · intro r hr
    exact ⟨(hbounds r hr).1, (hbounds r hr).2.trans h5⟩
  · intro r hr
    obtain ⟨hlow, hhigh⟩ := hbounds r hr
    exact ⟨hcovers.1.trans (Nat.sub_le_sub_right (htext.trans hlow) _),
      (Nat.sub_le_sub_right hhigh _).trans hcovers.2⟩

end MemoryDescriptor

/-- The containment checks of `init` write nothing, and a map they reject leaves the machine as it
was. On every other accepted map the arrays are embedded, then and after every history, no access
leaves an array, no operator overflows, and all profiles compute the same. -/
theorem init_metadata_safe (image : KernelImage) (himage : image.Linked) (base : BitVec 32)
    (k : Kernel) (hk : k.Booted base) (map : MemoryMap) (q : Profile)
    (hmap : (readMemoryMap q k.ram : Exec Kernel MemoryMap).run k = .ok map k) :
    (∀ p, (readMemoryMap p k.ram : Exec Kernel MemoryMap).run k = .ok map k) ∧
    (∀ p, describeMemory p image map = containmentChecks p image map >>= fillMetadata p map) ∧
    (∀ p s, final ((containmentChecks p image map).run s) = s) ∧
    (∀ p, (init p image).run k = (init .dev image).run k) ∧
    match (init .dev image).run k with
    | .error e t => (∃ text ∈ layoutRejections, e = .message text) ∧ t = k
    | .ok _ t => t.memory.Embedded image map ∧
        ∀ ops, ∃ l, (∀ p, (history p ops).run ⟨t.memory, []⟩ = .ok () l) ∧
          l.memory.Embedded image map := by
  have hread : ∀ p, (readMemoryMap p k.ram : Exec Kernel MemoryMap).run k = .ok map k :=
    fun p => readMemoryMap_eq_ok.mpr (readMemoryMap_eq_ok.mp hmap)
  have hrun := init_run .dev himage hk (hread .dev)
  refine ⟨hread, fun p => describeMemory_eq p image map, fun p s => containmentChecks_final p image map s,
    init_agrees image k (hrun.noOverflow fun t h => h.1), ?_⟩
  cases hr : (init .dev image).run k with
  | error e t =>
    rw [hr, satisfies_error] at hrun
    obtain ⟨hreject, rfl⟩ := hrun
    refine ⟨?_, rfl⟩
    cases e with
    | message text => exact ⟨text, hreject, rfl⟩
    | overflow => exact hreject.elim
    | outOfBounds => exact hreject.elim
  | ok u t =>
    rw [hr, satisfies_ok] at hrun
    have hs := hrun.memory.consistent
    have hplaced := hrun.memory.placed
    refine ⟨hplaced.embedded himage hs, ?_⟩
    intro ops
    obtain ⟨l, hl, hacc⟩ := (Accounted.initial t.memory).run hs hrun.memory.exclusive .dev ops
    have hno : NoOverflow (history .dev ops) ⟨t.memory, []⟩ := by
      intro u hu
      rw [hl] at hu
      cases hu
    have hlayout : t.memory.SameLayout l.memory := by
      rw [hacc.memory]
      rfl
    refine ⟨l, ?_, (hplaced.sameLayout hlayout).embedded himage (hacc.consistent hs)⟩
    intro p
    rw [history_agrees ops _ hno p, hl]

theorem init_metadata_safe_sample : ∃ t, (∀ p, (init p sampleImage).run sampleKernel = .ok () t) ∧
    t.memory.Embedded sampleImage sampleMap ∧
      ∀ ops, ∃ l, (∀ p, (history p ops).run ⟨t.memory, []⟩ = .ok () l) ∧
        l.memory.Embedded sampleImage sampleMap := by
  obtain ⟨t, ht⟩ := sample_init_ok
  obtain ⟨-, -, -, hagrees, hembedded⟩ := init_metadata_safe sampleImage sampleImage_linked _ sampleKernel
    sampleKernel_booted sampleMap .release (sampleMap_read .release)
  rw [ht] at hembedded
  exact ⟨t, fun p => (hagrees p).trans ht, hembedded⟩

end MikoOS
