import MikoOS.Head
import MikoOS.InitialState

/-!
# `memory::init` on the machine

The kernel state holds the memory descriptor, physical memory and CR3. `init` reads the handoff map
from memory, builds the descriptor and removes the low-half alias from the page tables. High-half
addresses of the first 10 MiB are read and written at the physical address behind them.
-/

namespace MikoOS

open ByteMemory PageWalk Rust

structure Kernel where
  memory : MemoryDescriptor
  ram : Memory
  cr3 : BitVec 64

def onMemory {α : Type} (x : Exec MemoryDescriptor α) : Exec Kernel α :=
  zoom Kernel.memory (fun memory k => { k with memory := memory }) x

/-- The physical address behind a high-half address of the first 10 MiB. -/
def directPhysical (v : ℕ) : ℕ := v - pageOffset

def unequalAssertion : String := "assertion `left != right` failed"

/-- The end of `init`: the low half loses its mapping. The value at `pdpt` is only printed. -/
def removeIdentityMapping (p : Profile) : Exec Kernel Unit := do
  let cr3 := (← get).cr3
  modify fun k => { k with memory := { k.memory with globalCr3 := cr3 } }
  let pml4 ← p.add pageOffset cr3.toNat
  let _ ← p.add pageOffset (frame (load64 (← get).ram (directPhysical pml4)))
  modify fun k => { k with ram := store64 k.ram (directPhysical pml4) 0 }
  require (load64 (← get).ram (directPhysical pml4) = 0) equalAssertion
  require (load64 (← get).ram (directPhysical pml4 + 8 * 256) ≠ 0) unequalAssertion

def init (p : Profile) (image : KernelImage) : Exec Kernel Unit := do
  let map ← readMemoryMap p (← get).ram
  onMemory (describeMemory p image map)
  removeIdentityMapping p

/-- The machine when `Start_Kernel` calls `init`. -/
structure Kernel.Booted (base : BitVec 32) (k : Kernel) : Prop where
  memory : k.memory = .zero
  cr3 : k.cr3 = BitVec.ofNat 64 pml4Address
  tables : BootTables 0x102003 base k.ram

theorem BootTables.clear_low {low : BitVec 64} {base : BitVec 32} {ram : Memory}
    (h : BootTables low base ram) (v : BitVec 64) :
    BootTables v base (store64 ram pml4Address v) := by
  have hframe : ∀ table i, pml4Address + 8 ≤ table + 8 * i →
      entryAt (store64 ram pml4Address v) table i = entryAt ram table i := fun table i hi =>
    load64_store64_outside (by omega)
  simp only [pml4Address] at hframe
  exact {
    pml4_low := load64_store64 ram pml4Address v
    pml4_high := (hframe _ 256 (by decide)).trans h.pml4_high
    pml4_other := fun i hi h0 h256 =>
      (hframe _ i (by rw [pml4Address]; omega)).trans (h.pml4_other i hi h0 h256)
    pdpt_first := (hframe _ 0 (by decide)).trans h.pdpt_first
    pdpt_other := fun i hi h0 =>
      (hframe _ i (by rw [pdptAddress]; omega)).trans (h.pdpt_other i hi h0)
    pde_ram := fun i hi => (hframe _ i (by rw [pdeAddress]; omega)).trans (h.pde_ram i hi)
    pde_framebuffer := fun i hi =>
      (hframe _ (5 + i) (by rw [pdeAddress]; omega)).trans (h.pde_framebuffer i hi)
    pde_other := fun i hi h13 => (hframe _ i (by rw [pdeAddress]; omega)).trans (h.pde_other i hi h13) }

theorem removeIdentityMapping_run (p : Profile) {base : BitVec 32} {k : Kernel}
    (hcr3 : k.cr3 = BitVec.ofNat 64 pml4Address) (h : BootTables 0x102003 base k.ram) :
    (removeIdentityMapping p).run k = .ok () { k with
      memory := { k.memory with globalCr3 := k.cr3 }
      ram := store64 k.ram pml4Address 0 } := by
  have hcleared := h.clear_low 0
  have hroot : pageOffset + k.cr3.toNat = pageOffset + pml4Address := by rw [hcr3]; rfl
  have hphysical : directPhysical (pageOffset + k.cr3.toNat) = pml4Address := by rw [hroot]; rfl
  have hlow : load64 k.ram pml4Address = 0x102003#64 := h.pml4_low
  have hzero : load64 (store64 k.ram pml4Address 0) pml4Address = 0 := hcleared.pml4_low
  have hhigh : load64 (store64 k.ram pml4Address 0) (pml4Address + 8 * 256) ≠ 0 := by
    rw [show load64 (store64 k.ram pml4Address 0) (pml4Address + 8 * 256) = 0x102003#64 from
      hcleared.pml4_high]
    decide
  rw [removeIdentityMapping, run_get_bind, run_modify_bind,
    run_bind_ok (run_add p (by rw [hroot]; decide) _), run_get_bind]
  simp only [hphysical, hlow]
  rw [run_bind_ok (run_add p (by decide) _), run_modify_bind, run_get_bind,
    run_bind_ok (run_require (decide_eq_true hzero) _ _), run_get_bind,
    run_require (decide_eq_true hhigh)]

/-- The state `init` leaves from a booted machine. -/
structure Kernel.Running (image : KernelImage) (map : MemoryMap) (base : BitVec 32) (k : Kernel) :
    Prop where
  memory : k.memory.Initial image map
  cr3 : k.cr3 = BitVec.ofNat 64 pml4Address
  tables : BootTables 0 base k.ram

/-- The saved root plays no part in the records. -/
theorem MemoryDescriptor.Initial.setGlobalCr3 {image : KernelImage} {map : MemoryMap}
    {s : MemoryDescriptor} (h : s.Initial image map) (cr3 : BitVec 64) :
    ({ s with globalCr3 := cr3 } : MemoryDescriptor).Initial image map where
  consistent := {
    length_bitsMap := h.consistent.length_bitsMap
    length_pages := h.consistent.length_pages
    length_zones := h.consistent.length_zones
    zonesSize_le := h.consistent.zonesSize_le
    bitsSize_le := h.consistent.bitsSize_le
    zone_aligned := h.consistent.zone_aligned
    zone_last := h.consistent.zone_last
    zone_pages := h.consistent.zone_pages
    physical := h.consistent.physical
    used_iff := h.consistent.used_iff
    held_iff := h.consistent.held_iff
    counts := h.consistent.counts }
  exclusive := h.exclusive
  entries := h.entries
  metadata := h.metadata
  kernelEnd := h.kernelEnd
  placed := {
    bitsLength := h.placed.bitsLength
    pagesLength := h.placed.pagesLength
    bitmap := h.placed.bitmap
    pages := h.placed.pages
    zones := h.placed.zones
    endOfStruct := h.placed.endOfStruct
    mapped := h.placed.mapped
    usable := h.placed.usable }
  zone := h.zone
  free_iff := h.free_iff
  reserved := h.reserved

theorem init_run (p : Profile) {image : KernelImage} (himage : image.Linked) {base : BitVec 32}
    {k : Kernel} (hk : k.Booted base) {map : MemoryMap}
    (hmap : (readMemoryMap p k.ram : Exec Kernel MemoryMap).run k = .ok map k) :
    Satisfies ((init p image).run k) (fun _ t => t.Running image map base)
      fun e t => Rejection e ∧ t = k := by
  have haccepted := (readMemoryMap_eq_ok.mp hmap).2.2
  rw [init, run_get_bind, run_bind_ok hmap]
  have hdescribe := MemoryDescriptor.describeMemory_run p himage haccepted
  rw [← hk.memory] at hdescribe
  have hzoom : Satisfies ((onMemory (describeMemory p image map)).run k)
      (fun _ t => ∃ memory, memory.Initial image map ∧ t = { k with memory := memory })
      fun e t => Rejection e ∧ t = k := by
    refine hdescribe.zoom.mono (fun _ _ h => h) ?_
    rintro e _ ⟨_, ⟨he, rfl⟩, rfl⟩
    exact ⟨he, rfl⟩
  refine hzoom.bind ?_
  rintro _ _ ⟨memory, hmemory, rfl⟩
  have hrun := removeIdentityMapping_run p (k := { k with memory := memory }) hk.cr3 hk.tables
  rw [hrun, satisfies_ok]
  exact {
    memory := hmemory.setGlobalCr3 k.cr3
    cr3 := hk.cr3
    tables := hk.tables.clear_low 0 }

theorem init_ok {p : Profile} {image : KernelImage} (himage : image.Linked) {base : BitVec 32}
    {k t : Kernel} (hk : k.Booted base) (ht : (init p image).run k = .ok () t) :
    ∃ map, map.Accepted ∧ t.Running image map base := by
  cases hr : (readMemoryMap p k.ram : Exec Kernel MemoryMap).run k with
  | error e u =>
    rw [init, run_get_bind, EStateM.run_bind, hr] at ht
    cases ht
  | ok map u =>
    obtain ⟨rfl, hdecoded, haccepted⟩ := readMemoryMap_eq_ok.mp hr
    have hrun := init_run p himage hk hr
    rw [ht, satisfies_ok] at hrun
    exact ⟨map, haccepted, hrun⟩

/-- On an accepted map `init` stops at a layout rejection or leaves page `i` free exactly when it
lies in one entry of ordinary RAM behind the metadata; no other check fires. -/
theorem init_free_pages (p : Profile) (image : KernelImage) (himage : image.Linked)
    (base : BitVec 32) (k : Kernel) (hk : k.Booted base) (map : MemoryMap)
    (hmap : (readMemoryMap p k.ram : Exec Kernel MemoryMap).run k = .ok map k) :
    match (init p image).run k with
    | .ok () t => ∃ physicalMetadataEnd, t.memory.endOfStruct = physicalMetadataEnd + pageOffset ∧
        ∀ i, t.memory.Free i ↔
          (∃ e ∈ map.used, e.Ram ∧ e.Covers (i * page2MSize) ((i + 1) * page2MSize)) ∧
            (physicalMetadataEnd + (page2MSize - 1)) / page2MSize ≤ i
    | .error e _ => ∃ text ∈ layoutRejections, e = .message text := by
  have hrun := init_run p himage hk hmap
  cases hr : (init p image).run k with
  | ok u t =>
    rw [hr, satisfies_ok] at hrun
    obtain ⟨n, hn, -⟩ := hrun.memory.metadata
    refine ⟨n, hn, fun i => ?_⟩
    have hfree := hrun.memory.free_iff i
    rwa [hn, Nat.add_sub_cancel] at hfree
  | error e t =>
    rw [hr, satisfies_error] at hrun
    cases e with
    | message text => exact ⟨text, hrun.1, rfl⟩
    | overflow => exact hrun.1.elim
    | outOfBounds => exact hrun.1.elim

/-- A handoff of one entry: 8 MiB of ordinary RAM. -/
def sampleHandoff : Memory :=
  let header := store32 (store16 (store16 (store16 (store16 (store32 (fun _ => 0)
    0x4ff0 headerMagic) 0x4ff4 1) 0x4ff6 20) 0x4ff8 1) 0x4ffa 32) 0x4ffc 1
  store32 (store64 (store64 header 0x5000 0) 0x5008 0x800000) 0x5010 1

def sampleKernel : Kernel := ⟨.zero, start (layHead sampleHandoff), BitVec.ofNat 64 pml4Address⟩

def sampleImage : KernelImage := ⟨0xffff800000100000, 0xffff800000200000⟩

theorem sampleImage_linked : sampleImage.Linked := ⟨rfl, by decide, by decide, by decide⟩

theorem sampleKernel_booted : sampleKernel.Booted (load32 (layHead sampleHandoff) framebufferField) :=
  ⟨rfl, rfl, start_bootTables (headLoaded_layHead _)⟩

def sampleMap : MemoryMap := decodeMap sampleKernel.ram 1

theorem sampleMap_read (p : Profile) :
    (readMemoryMap p sampleKernel.ram : Exec Kernel MemoryMap).run sampleKernel =
      .ok sampleMap sampleKernel :=
  readMemoryMap_eq_ok.mpr ⟨rfl, ⟨1, by decide +kernel, rfl⟩, by decide +kernel, by decide +kernel,
    by decide +kernel, by decide +kernel⟩

theorem sample_init_ok : ∃ t, (init .dev sampleImage).run sampleKernel = .ok () t := by
  have h : (match (init .dev sampleImage).run sampleKernel with
    | .ok _ _ => true
    | .error _ _ => false) = true := by decide +kernel
  cases hr : (init .dev sampleImage).run sampleKernel with
  | ok u t => exact ⟨t, rfl⟩
  | error e t => rw [hr] at h; cases h

theorem init_free_pages_sample : ∃ t, (init .dev sampleImage).run sampleKernel = .ok () t ∧
    ∃ physicalMetadataEnd, t.memory.endOfStruct = physicalMetadataEnd + pageOffset ∧
      ∀ i, t.memory.Free i ↔
        (∃ e ∈ sampleMap.used, e.Ram ∧ e.Covers (i * page2MSize) ((i + 1) * page2MSize)) ∧
          (physicalMetadataEnd + (page2MSize - 1)) / page2MSize ≤ i := by
  obtain ⟨t, ht⟩ := sample_init_ok
  have hfree := init_free_pages .dev sampleImage sampleImage_linked _ sampleKernel sampleKernel_booted
    sampleMap (sampleMap_read .dev)
  rw [ht] at hfree
  exact ⟨t, ht, hfree⟩

end MikoOS
