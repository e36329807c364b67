import MikoOS.PageAllocator
import MikoOS.Library.Intervals

/-!
# Building the allocator's records from the memory map

`memory::init`: a survey of the map, the metadata layout behind the kernel image with its
rejections, the zone of every whole 2 MiB page of ordinary RAM, the reservation of everything below
the end of the metadata, and the consistency check. Printing is left out. The descriptor fields set
between two rejections are set after both, since a rejection halts the machine.
-/

namespace MikoOS

open ByteMemory Intervals Rust

variable {σ : Type}

/-- The linker symbols `_text` and `_end`. -/
structure KernelImage where
  text : ℕ
  kernelEnd : ℕ

/-- The addresses `kernel.lds` admits. -/
structure KernelImage.Linked (image : KernelImage) : Prop where
  text : image.text = 0xffff800000100000
  aligned : page4KSize ∣ image.kernelEnd
  text_le : image.text ≤ image.kernelEnd
  kernelEnd_lt : image.kernelEnd < 0xffff800000a00000

def alignUp (address alignment : ℕ) : Exec σ ℕ := do
  require (2 ^ alignment.log2 = alignment) "assertion failed: alignment.is_power_of_two()"
  let last ← expect (checkedAdd address (alignment - 1)) "alignment overflow"
  return clearLow last alignment

/-- `E820Entry::end`. -/
def E820Entry.endAddress (e : E820Entry) : Exec σ ℕ :=
  expect (checkedAdd e.address.toNat e.length.toNat) "E820 address overflow"

def E820Entry.usableRange (e : E820Entry) : Exec σ (Option (ℕ × ℕ)) := do
  if e.kind ≠ 1 ∨ e.length = 0 then return none
  let start ← alignUp e.address.toNat page2MSize
  let stop := clearLow (← e.endAddress) page2MSize
  return if start < stop then some (start, stop) else none

structure Survey where
  physicalEnd : ℕ
  totalRam : ℕ
  totalPages : ℕ

/-- `total_ram` after an entry of this kind. -/
def addRam (total : ℕ) (entry : E820Entry) : Exec σ ℕ :=
  if entry.kind = 1 then expect (checkedAdd total entry.length.toNat) "RAM sum overflow"
  else pure total

def surveyEntry (p : Profile) (map : MemoryMap) (i : ℕ) (acc : Survey) : Exec σ Survey := do
  let entry ← element map.entries.toList i
  if entry.length = 0 then return acc
  let physicalEnd := max acc.physicalEnd (← entry.endAddress)
  let totalRam ← addRam acc.totalRam entry
  match ← entry.usableRange with
  | none => return ⟨physicalEnd, totalRam, acc.totalPages⟩
  | some (start, stop) =>
    let totalPages ← p.add acc.totalPages ((← p.sub stop start) / page2MSize)
    return ⟨physicalEnd, totalRam, totalPages⟩

def survey (p : Profile) (map : MemoryMap) : Exec σ Survey := do
  let found ← forRange 0 map.count ⟨0, 0, 0⟩ (surveyEntry p map)
  require (0 < found.totalPages) "no usable 2 MiB pages"
  return found

/-- `size_of::<Page>()` and `size_of::<Zone>()`. -/
def sizeOfPage : ℕ := 40
def sizeOfZone : ℕ := 80

structure Layout where
  bitsSize : ℕ
  bitsLength : ℕ
  pagesLength : ℕ
  bitmap : ℕ
  pages : ℕ
  zones : ℕ
  metadataEnd : ℕ
  physicalMetadataEnd : ℕ

def planLayout (p : Profile) (image : KernelImage) (map : MemoryMap) (physicalEnd : ℕ) :
    Exec σ Layout := do
  let bitsSize := (← alignUp physicalEnd page2MSize) / page2MSize
  let bitsLength ← expect (checkedMul ((bitsSize + 63) / 64) 8) "bitmap overflow"
  let pagesLength ← expect (checkedMul bitsSize sizeOfPage) "Page array overflow"
  let bitmap ← alignUp image.kernelEnd page4KSize
  let pages ← alignUp (← expect (checkedAdd bitmap bitsLength) "bitmap end overflow") page4KSize
  let zones ← alignUp (← expect (checkedAdd pages pagesLength) "Page end overflow") page4KSize
  let metadataEnd ←
    alignUp (← expect (checkedAdd zones (maxZones * sizeOfZone)) "Zone end overflow") 256
  let physicalMetadataEnd ← p.sub metadataEnd pageOffset
  require (physicalMetadataEnd ≤ directRamEnd) "metadata exceeds initial 10 MiB RAM mapping"
  require (← map.containsUsable p (← p.sub image.text pageOffset) physicalMetadataEnd)
    "kernel and metadata are not contained in usable RAM"
  return ⟨bitsSize, bitsLength, pagesLength, bitmap, pages, zones, metadataEnd, physicalMetadataEnd⟩

/-- The descriptor after the three arrays have been filled, the bitmap with ones. -/
def MemoryDescriptor.blank (s : MemoryDescriptor) (map : MemoryMap) (l : Layout) :
    MemoryDescriptor :=
  { s with
    e820 := map.entries
    numberEntries := map.count
    bitsMapAddress := l.bitmap
    bitsMap := List.replicate (l.bitsLength / 8) (BitVec.allOnes 64)
    bitsSize := l.bitsSize
    bitsLength := l.bitsLength
    pagesAddress := l.pages
    pages := List.replicate l.bitsSize Page.zero
    pagesLength := l.pagesLength
    zonesAddress := l.zones
    zones := List.replicate maxZones Zone.zero
    endOfStruct := l.metadataEnd }

def setPhysicalAddress (p : Profile) (i : ℕ) : Exec MemoryDescriptor Unit := do
  let page ← element (← get).pages i
  let physicalAddress ← p.mul i page2MSize
  setPage i { page with physicalAddress := physicalAddress }

def Zone.spanning (first start stop number : ℕ) : Zone where
  pages := first
  numberPages := number
  startAddress := start
  endAddress := stop
  attributes := 0
  length := stop - start
  pageUsingCount := 0
  pageFreeCount := number
  totalPagesRefCount := 0

/-- Page `j` becomes a free page of zone `z`. -/
def claimPage (z j : ℕ) : Exec MemoryDescriptor Unit := do
  let page ← element (← get).pages j
  require page.zone.isNone "overlapping E820 RAM zones"
  setPage j { page with zone := some z }
  setUsed j false

def buildZone (p : Profile) (i : ℕ) : Exec MemoryDescriptor Unit := do
  let entry ← element (← get).e820.toList i
  match ← entry.usableRange with
  | none => return ()
  | some (start, stop) =>
    let z := (← get).zonesSize
    require (z < maxZones) "assertion failed: memory.zones_size < MAX_ZONES"
    let zonesSize ← p.add z 1
    modify fun s => { s with zonesSize := zonesSize }
    let first := start / page2MSize
    let number := (← p.sub stop start) / page2MSize
    updateZone z fun _ => pure (Zone.spanning first start stop number)
    forRange first (← p.add first number) () fun j _ => claimPage z j

def reservedAttributes : BitVec 64 :=
  Flags.pageTableMapped ||| Flags.kernelInit ||| Flags.active ||| Flags.kernel

/-- One page of the final check; `acc` holds the free pages and references counted so far. -/
def checkPage (p : Profile) (j : ℕ) (acc : ℕ × ℕ) : Exec MemoryDescriptor (ℕ × ℕ) := do
  let word ← element (← get).bitsMap (j / 64)
  let used : Bool := word &&& WordBits.mask j != 0
  let page ← element (← get).pages j
  require (used = decide (page.attributes ≠ 0)) equalAssertion
  let free ← if used then pure acc.1 else p.add acc.1 1
  return (free, ← p.add acc.2 page.referenceCount)

def checkZone (p : Profile) (i freePages : ℕ) : Exec MemoryDescriptor ℕ := do
  let zone ← element (← get).zones i
  let (free, references) ← forRange (zone.startAddress / page2MSize) (zone.endAddress / page2MSize)
    (0, 0) (checkPage p)
  require (free = zone.pageFreeCount) equalAssertion
  require ((← p.add zone.pageUsingCount free) = zone.numberPages) equalAssertion
  require (references = zone.totalPagesRefCount) equalAssertion
  p.add freePages free

/-- The part of `init` that works on the descriptor. -/
def describeMemory (p : Profile) (image : KernelImage) (map : MemoryMap) :
    Exec MemoryDescriptor Unit := do
  let found ← survey p map
  let layout ← planLayout p image map found.physicalEnd
  modify fun s => s.blank map layout
  forRange 0 layout.bitsSize () fun i _ => setPhysicalAddress p i
  forRange 0 map.count () fun i _ => buildZone p i
  let reservedPages := (layout.physicalMetadataEnd + (page2MSize - 1)) / page2MSize
  forRange 0 reservedPages () fun index _ => initPage p index reservedAttributes
  let _ ← forRange 0 (← get).zonesSize 0 (checkZone p)

end MikoOS
