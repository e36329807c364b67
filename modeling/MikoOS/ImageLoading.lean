import MikoOS.ImageBuilder
import MikoOS.LoadLoops
import MikoOS.RootSearch

/-!
# Loading files from a built image

Boot and Loader search the root directory and run their load loops on a medium that holds what
`build_image.main` wrote. The run lemma of the loops carries the bytes stored so far: `Copied` says
which bytes of a file have arrived and that nothing besides them and the buffers has changed, so that
the programs' own text, variables and stack stay as they are. BX and EDI are the destination of the
next sector, BX as a number without wrapping around.
-/

namespace MikoOS

open ByteMemory ByteString

/-- From the search to `_File_Loaded`. The inner `none` is a program that never gets there, the outer
one a bound that was too small to tell. -/
def loadFile {π : Type} (bpb : Bpb) (drive : Drive) (name : Bytes)
    (goOnLoadingFile : Loading π → Loading π ⊕ (Bool × Loading π)) (place : π) (fuel : ℕ)
    (ram : Memory) : Option (Option (Loading π)) := do
  let (ended, s) ← Loop.run (searchStep bpb drive name) fuel (Search.first bpb ram)
  if ended = .fileNameFound then
    let (loaded, t) ← Loop.run goOnLoadingFile fuel (Loading.first bpb s.firstCluster place s.ram)
    return if loaded then some t else none
  else return none

namespace Boot

def loaderFileName : Bytes := [0x4c, 0x4f, 0x41, 0x44, 0x45, 0x52, 0x20, 0x20, 0x42, 0x49, 0x4e, 0]

def offsetOfLoader : BitVec 16 := 0

def loadLoader (fuel : ℕ) (drive : Drive) (ram : Memory) : Option (Option (Loading (BitVec 16))) :=
  loadFile bpb drive loaderFileName (goOnLoadingFile drive) offsetOfLoader fuel ram

end Boot

namespace Loader

def kernelFileName : Bytes := [0x4b, 0x45, 0x52, 0x4e, 0x45, 0x4c, 0x20, 0x20, 0x42, 0x49, 0x4e, 0]

def offsetOfKernelFile : BitVec 32 := 0x100000

def loadKernel (a20 : Bool) (fuel : ℕ) (drive : Drive) (ram : Memory) :
    Option (Option (Loading (BitVec 32))) :=
  loadFile bpb drive kernelFileName (goOnLoadingFile a20 drive) offsetOfKernelFile fuel ram

end Loader

structure Drive.HoldsImage (drive : Drive) (image : Bytes) : Prop where
  bytes : ∀ i < Floppy.imageSize, drive.disk i = image.getD i 0

variable {drive : Drive} {boot image fat name content : Bytes} {files : List (Bytes × Bytes)}
  {index first k n : ℕ} {ram ram' : Memory}

theorem Drive.HoldsImage.holdsFat (h : drive.HoldsImage image)
    (hbuilt : Floppy.Built boot files image fat) :
    drive.HoldsFat fat where
  length := hbuilt.table
  bytes := by
    intro i hi
    have hlayout := Floppy.layout
    have hsector : Floppy.sectorSize = 512 := rfl
    rw [h.bytes _ (by omega), List.getD_eq_getElem?_getD, List.getD_eq_getElem?_getD, ← hbuilt.first,
      getElem?_slice, if_pos (by omega)]

section Filed

variable (h : drive.HoldsImage image) (hfiled : Floppy.Filed image fat index name content first)
  (hindex : index < 224) (hname : name.length = 11)
include h hfiled hindex

/-- The directory entry of a file as the programs read it. -/
theorem Floppy.Filed.entry_byte {i : ℕ} (hi : i < 32) : drive.disk (9728 + 32 * index + i) =
    (Floppy.directoryEntry name first content.length).getD i 0 := by
  have hlayout := Floppy.layout
  have haddress : 9728 + 32 * index + i = Floppy.rootStart + index * 32 + i := by omega
  rw [haddress, h.bytes _ (by omega), ← hfiled.entry, List.getD_eq_getElem?_getD,
    List.getD_eq_getElem?_getD, getElem?_slice, if_pos (by omega)]

include hname

theorem Floppy.Filed.named_iff (title : Bytes) :
    drive.Named title index ↔ ∀ i < 11, title.getD i 0 = name.getD i 0 := by
  have hbyte : ∀ i < 11, drive.disk (9728 + 32 * index + i) = name.getD i 0 := by
    intro i hi
    have hslice : name[i]? = (Floppy.directoryEntry name first content.length)[i]? := by
      rw [← Floppy.slice_name hname first content.length, getElem?_slice, if_pos (by omega), Nat.zero_add,
        Floppy.slice_name hname]
    rw [hfiled.entry_byte h hindex (by omega), List.getD_eq_getElem?_getD, ← hslice,
      List.getD_eq_getElem?_getD]
  constructor
  · intro hnamed i hi
    rw [hnamed i hi, hbyte i hi]
  · intro hnamed i hi
    rw [hnamed i hi, hbyte i hi]

theorem Floppy.Filed.first_cluster (hfirst : first < 65536) :
    load drive.disk (9728 + 32 * index + 26) 2 = first := by
  have hlength := Floppy.length_directoryEntry hname first content.length
  have hbytes : ∀ i < 2, drive.disk (9728 + 32 * index + 26 + i) =
      (Floppy.directoryEntry name first content.length).getD (26 + i) 0 := by
    intro i hi
    rw [Nat.add_assoc, hfiled.entry_byte h hindex (by omega)]
  rw [load_eq_fromLittle (by omega) hbytes, Floppy.slice_cluster hname hfirst]

end Filed

/-- A sector of a file, behind the 31 sectors in front of cluster 0. -/
theorem Floppy.Filed.sector_byte (h : drive.HoldsImage image)
    (hfiled : Floppy.Filed image fat index name content first) (hlow : 2 ≤ first)
    (hhigh : first + Floppy.clusterCount content ≤ Floppy.clusterEnd)
    (hk : k < Floppy.clusterCount content) {i : ℕ} (hi : i < 512) :
    drive.disk (512 * (first + k + 31) + i) = content.getD (512 * k + i) 0 := by
  have hlayout := Floppy.layout
  have hstart := Floppy.clusterStart_eq first
  have haddress : 512 * (first + k + 31) + i = Floppy.clusterStart first + (512 * k + i) := by omega
  rw [haddress, h.bytes _ (by omega), List.getD_eq_getElem?_getD, hfiled.bytes _ (by omega),
    Option.getD_some]

/-- The first `k` sectors of a file lie from `base` on. Besides them and the buffers, from `low` to
0x83FF, memory is as it was. -/
structure Copied (low base k : ℕ) (content : Bytes) (ram ram' : Memory) : Prop where
  bytes : ∀ i < 512 * k, ram' (base + i) = content.getD i 0
  frame : ∀ x, x < low ∨ 0x8400 ≤ x → x < base ∨ base + 512 * k ≤ x → ram' x = ram x

theorem Copied.step {low base : ℕ} {next : Memory} (h : Copied low base k content ram ram')
    (hbase : 0x8400 ≤ base)
    (hsector : ∀ i < 512, next (base + 512 * k + i) = content.getD (512 * k + i) 0)
    (hkeep : ∀ x, x < low ∨ 0x8400 ≤ x → x < base + 512 * k ∨ base + 512 * k + 512 ≤ x →
      next x = ram' x) :
    Copied low base (k + 1) content ram next := by
  constructor
  · intro i hi
    by_cases hold : i < 512 * k
    · rw [hkeep _ (by omega) (by omega), h.bytes i hold]
    · have hback : 512 * k + (i - 512 * k) = i := by omega
      have hlast := hsector (i - 512 * k) (by omega)
      rwa [Nat.add_assoc, hback] at hlast
  · intro x hscratch hx
    rw [hkeep x hscratch (by omega), h.frame x hscratch (by omega)]

theorem placeEntry_outside (drive : Drive) (c : ℕ) {x : ℕ} (hx : x < 0x8000 ∨ 0x8400 ≤ x) :
    placeEntry drive c ram x = ram x :=
  placeSectors_outside hx

section Run

variable {π : Type} {transfer : BitVec 16 → π → Memory → Option (π × Memory)} {advance : π → π}
  {s : Loading π}

/-- `before k` holds when `k` sectors are stored and the next one is about to be read, `after k` when
the last of `k` sectors is stored and its entry read. The loop stops behind the last cluster of the
file. -/
theorem load_run (before after : ℕ → π → Memory → Prop) (hfat : drive.HoldsFat fat)
    (hlink : ∀ i < n, Floppy.fatEntry fat (first + i) = if i = n - 1 then 0xfff else first + i + 1)
    (hhigh : first + n ≤ Floppy.clusterEnd)
    (hstore : ∀ k < n, ∀ place ram, before k place ram → ∃ place' ram',
      transfer (BitVec.ofNat 16 (first + k + 31)) place ram = some (place', ram') ∧
        after (k + 1) place' (placeEntry drive (first + k) ram'))
    (hadvance : ∀ k < n, ∀ place ram, after k place ram → before k (advance place) ram)
    (hk : k < n) (hs : s.At (first + k)) (hbefore : before k s.place s.ram) :
    ∃ t, (∀ fuel ≥ n - k, Loop.run (loadStep Boot.bpb drive transfer advance) fuel s = some (true, t)) ∧
      t.sectors = s.sectors ++ (List.range' (first + k) (n - k)).map (fun c => BitVec.ofNat 16 (c + 31)) ∧
      after n t.place t.ram := by
  obtain ⟨m, hm⟩ : ∃ m, n - k = m + 1 := ⟨n - k - 1, by omega⟩
  induction m generalizing k s with
  | zero =>
    obtain ⟨place, ram, htransfer, hafter⟩ := hstore k hk s.place s.ram hbefore
    have hstep := loadStep_eq advance hfat hs (by omega) htransfer
    have hcount : k + 1 = n := by omega
    rw [hlink k hk, if_pos (show k = n - 1 by omega), if_pos rfl] at hstep
    refine ⟨s.stored drive (first + k) place ram, ?_, ?_, ?_⟩
    · intro fuel hfuel
      obtain ⟨rest, rfl⟩ : ∃ rest, fuel = rest + 1 := ⟨fuel - 1, by omega⟩
      exact Loop.run_exit hstep
    · rw [hm]
      rfl
    · rw [← hcount]
      exact hafter
  | succ m ih =>
    obtain ⟨place, ram, htransfer, hafter⟩ := hstore k hk s.place s.ram hbefore
    have hstep := loadStep_eq advance hfat hs (by omega) htransfer
    have hclusterEnd : Floppy.clusterEnd = 2849 := rfl
    rw [hlink k hk, if_neg (show ¬k = n - 1 by omega),
      if_neg (show ¬first + k + 1 = 0xfff by omega), Nat.add_assoc] at hstep
    obtain ⟨t, hrun, hsectors, ht⟩ := ih (k := k + 1) (by omega)
      ((s.stored drive (first + k) place ram).at_goOn advance (first + (k + 1)))
      (hadvance (k + 1) (by omega) place _ hafter) (by omega)
    refine ⟨t, ?_, ?_, ht⟩
    · intro fuel hfuel
      obtain ⟨rest, rfl⟩ : ∃ rest, fuel = rest + 1 := ⟨fuel - 1, by omega⟩
      rw [Loop.run_continue hstep]
      exact hrun rest (by omega)
    · have hrest : n - (k + 1) = m + 1 := by omega
      rw [hsectors, hm, hrest]
      change (s.sectors ++ [BitVec.ofNat 16 (first + k + 31)]) ++ _ = _
      rw [List.append_assoc, List.range'_succ (s := first + k), List.map_cons, List.singleton_append,
        Nat.add_assoc first k 1]

end Run

theorem copied_zero (low base : ℕ) (content : Bytes) (ram : Memory) : Copied low base 0 content ram ram :=
  ⟨fun _ hi => absurd hi (Nat.not_lt_zero _), fun _ _ _ => rfl⟩

section File

variable (h : drive.HoldsImage image) (hfat : drive.HoldsFat fat)
  (hfiled : Floppy.Filed image fat index name content first) (hlow : 2 ≤ first)
  (hhigh : first + Floppy.clusterCount content ≤ Floppy.clusterEnd)
  (hpos : 0 < Floppy.clusterCount content)
include h hfiled hlow hhigh

/-- One sector of Boot, BX not near its end. -/
theorem Boot.store (hk : k < Floppy.clusterCount content) {bx : BitVec 16} (hbx : bx.toNat = 512 * k)
    (hcopied : Copied 0x8000 0x10000 k content ram ram') :
    ∃ next, Boot.readSector drive (BitVec.ofNat 16 (first + k + 31)) bx ram' = some (bx, next) ∧
      Copied 0x8000 0x10000 (k + 1) content ram (placeEntry drive (first + k) next) := by
  have hlayout := Floppy.layout
  have htrack : (first + k + 31) % 18 + (1 : BitVec 8).toNat ≤ 18 := by
    change (first + k + 31) % 18 + 1 ≤ 18
    omega
  have hlba : first + k + 31 < 2880 := by omega
  have hread := readOneSectorFunc_eq drive ram' hlba htrack Boot.baseOfLoader bx
  have haddress : linear Boot.baseOfLoader bx = 0x10000 + 512 * k := by
    rw [linear, hbx]
    rfl
  rw [haddress] at hread
  replace hread : readOneSectorFunc Boot.bpb drive (BitVec.ofNat 16 (first + k + 31)) 1 Boot.baseOfLoader
      bx ram' = some (placeSectors drive (first + k + 31) 1 (0x10000 + 512 * k) ram') := hread
  refine ⟨placeSectors drive (first + k + 31) 1 (0x10000 + 512 * k) ram', ?_, ?_⟩
  · rw [Boot.readSector, hread]
    rfl
  apply hcopied.step (by decide)
  · intro i hi
    rw [placeEntry_outside _ _ (by omega), placeSectors_inside (by omega),
      hfiled.sector_byte h hlow hhigh hk hi]
  · intro x hscratch hx
    rw [placeEntry_outside _ _ hscratch, placeSectors_outside hx]

include hfat hpos in
theorem Boot.load_file (hshort : content.length < 65536) (ram : Memory) :
    ∃ t, (∀ fuel ≥ Floppy.clusterCount content, Loop.run (Boot.goOnLoadingFile drive) fuel
        (Loading.first Boot.bpb (BitVec.ofNat 16 first) Boot.offsetOfLoader ram) = some (true, t)) ∧
      t.sectors =
        (List.range' first (Floppy.clusterCount content)).map (fun c => BitVec.ofNat 16 (c + 31)) ∧
      t.place.toNat + 512 = 512 * Floppy.clusterCount content ∧
      Copied 0x8000 0x10000 (Floppy.clusterCount content) content ram t.ram := by
  have hcount := Floppy.clusterCount_bounds content
  have hstore : ∀ k < Floppy.clusterCount content, ∀ bx m,
      (bx.toNat = 512 * k ∧ Copied 0x8000 0x10000 k content ram m) → ∃ bx' m',
        Boot.readSector drive (BitVec.ofNat 16 (first + k + 31)) bx m = some (bx', m') ∧
          bx'.toNat + 512 = 512 * (k + 1) ∧
          Copied 0x8000 0x10000 (k + 1) content ram (placeEntry drive (first + k) m') := by
    intro k hk bx m hbefore
    obtain ⟨hbx, hcopied⟩ := hbefore
    obtain ⟨next, hread, hnext⟩ := Boot.store h hfiled hlow hhigh hk hbx hcopied
    refine ⟨bx, next, hread, ?_, hnext⟩
    rw [hbx, Nat.mul_succ]
  have hadvance : ∀ k < Floppy.clusterCount content, ∀ (bx : BitVec 16) m,
      (bx.toNat + 512 = 512 * k ∧ Copied 0x8000 0x10000 k content ram m) →
        (bx + Boot.bpb.bytesPerSector).toNat = 512 * k ∧ Copied 0x8000 0x10000 k content ram m := by
    intro k hk bx m hafter
    obtain ⟨hbx, hcopied⟩ := hafter
    refine ⟨?_, hcopied⟩
    -- fewer than 128 sectors come before: the sum stays below 65536
    change (bx + 512).toNat = _
    rw [BitVec.toNat_add]
    change (bx.toNat + 512) % 65536 = _
    omega
  exact load_run (fun k bx m => bx.toNat = 512 * k ∧ Copied 0x8000 0x10000 k content ram m)
    (fun k bx m => bx.toNat + 512 = 512 * k ∧ Copied 0x8000 0x10000 k content ram m)
    hfat hfiled.link hhigh hstore hadvance hpos (Loading.first_at first Boot.offsetOfLoader ram)
    ⟨rfl, copied_zero _ _ _ _⟩

/-- One sector of Loader: the buffer at 0x7E00, the probe and the copy above 1 MiB. -/
theorem Loader.store (hk : k < Floppy.clusterCount content) {destination : BitVec 32}
    (hdestination : destination.toNat = 0x100000 + 512 * k)
    (hcopied : Copied 0x7e00 0x100000 k content ram ram') :
    ∃ next, Loader.readSector true drive (BitVec.ofNat 16 (first + k + 31)) destination ram' =
        some (destination + 512, next) ∧
      Copied 0x7e00 0x100000 (k + 1) content ram (placeEntry drive (first + k) next) := by
  have hlayout := Floppy.layout
  have htrack : (first + k + 31) % 18 + (1 : BitVec 8).toNat ≤ 18 := by
    change (first + k + 31) % 18 + 1 ≤ 18
    omega
  have hlba : first + k + 31 < 2880 := by omega
  have hread := readOneSectorFunc_eq drive ram' hlba htrack 0 Loader.offsetTempOfKernelFile
  have hplace : placeSectors drive (first + k + 31) (1 : BitVec 8).toNat
      (linear 0 Loader.offsetTempOfKernelFile) ram' =
        placeSectors drive (first + k + 31) 1 0x7e00 ram' := rfl
  have hbuffer : Loader.offsetTempOfKernelFile.toNat = 0x7e00 := rfl
  refine ⟨copy (placeSectors drive (first + k + 31) 1 0x7e00 ram') (0x100000 + 512 * k) 0x7e00 512,
    ?_, ?_⟩
  · rw [Loader.readSector]
    change readOneSectorFunc Boot.bpb drive _ 1 0 _ ram' >>= _ = _
    rw [hread, hplace, Option.bind_eq_bind, Option.bind_some, Loader.copyKernelSector_open, hdestination,
      hbuffer, copyForward_eq_copy (by omega)]
  · apply hcopied.step (by decide)
    · intro i hi
      rw [placeEntry_outside _ _ (by omega), copy_inside (by omega), Nat.add_sub_cancel_left]
      rw [placeSectors_inside (by omega), hfiled.sector_byte h hlow hhigh hk hi]
    · intro x hscratch hx
      rw [placeEntry_outside _ _ (by omega), copy_outside (by omega)]
      exact placeSectors_outside (by omega)

include hfat hpos in
theorem Loader.load_file (ram : Memory) :
    ∃ t, (∀ fuel ≥ Floppy.clusterCount content, Loop.run (Loader.goOnLoadingFile true drive) fuel
        (Loading.first Loader.bpb (BitVec.ofNat 16 first) Loader.offsetOfKernelFile ram) =
          some (true, t)) ∧
      t.sectors =
        (List.range' first (Floppy.clusterCount content)).map (fun c => BitVec.ofNat 16 (c + 31)) ∧
      t.place.toNat = 0x100000 + 512 * Floppy.clusterCount content ∧
      Copied 0x7e00 0x100000 (Floppy.clusterCount content) content ram t.ram := by
  have hlayout := Floppy.layout
  have hstore : ∀ k < Floppy.clusterCount content, ∀ edi m,
      (edi.toNat = 0x100000 + 512 * k ∧ Copied 0x7e00 0x100000 k content ram m) → ∃ edi' m',
        Loader.readSector true drive (BitVec.ofNat 16 (first + k + 31)) edi m = some (edi', m') ∧
          edi'.toNat = 0x100000 + 512 * (k + 1) ∧
          Copied 0x7e00 0x100000 (k + 1) content ram (placeEntry drive (first + k) m') := by
    intro k hk edi m hbefore
    obtain ⟨hedi, hcopied⟩ := hbefore
    obtain ⟨next, hread, hnext⟩ := Loader.store h hfiled hlow hhigh hk hedi hcopied
    refine ⟨edi + 512, next, hread, ?_, hnext⟩
    rw [BitVec.toNat_add]
    change (edi.toNat + 512) % 2 ^ 32 = _
    omega
  exact load_run (fun k edi m => edi.toNat = 0x100000 + 512 * k ∧ Copied 0x7e00 0x100000 k content ram m)
    (fun k edi m => edi.toNat = 0x100000 + 512 * k ∧ Copied 0x7e00 0x100000 k content ram m)
    hfat hfiled.link hhigh hstore (fun _ _ _ _ hafter => hafter) hpos
    (Loading.first_at first Loader.offsetOfKernelFile ram) ⟨rfl, copied_zero _ _ _ _⟩

end File

theorem Copied.behind {low base : ℕ} {next : Memory} (hlow : low ≤ 0x8000)
    (hsearch : ∀ x, x < 0x8000 ∨ 0x8200 ≤ x → ram' x = ram x) (h : Copied low base n content ram' next) :
    Copied low base n content ram next where
  bytes := h.bytes
  frame := by
    intro x hscratch hx
    rw [h.frame x hscratch hx, hsearch x (by omega)]

theorem loadFile_eq {π : Type} {goOn : Loading π → Loading π ⊕ (Bool × Loading π)} {place : π}
    {fuel : ℕ} {s : Search} {t : Loading π}
    (hsearch : Loop.run (searchStep Boot.bpb drive name) fuel (Search.first Boot.bpb ram) =
      some (.fileNameFound, s))
    (hload : Loop.run goOn fuel (Loading.first Boot.bpb s.firstCluster place s.ram) = some (true, t)) :
    loadFile Boot.bpb drive name goOn place fuel ram = some (some t) := by
  rw [loadFile, hsearch, Option.bind_eq_bind, Option.bind_some]
  dsimp only
  rw [if_pos rfl, hload]
  rfl

theorem clusterCount_pos (h : content ≠ []) : 0 < Floppy.clusterCount content := by
  have hcount := Floppy.clusterCount_bounds content
  have hlength := List.length_pos_of_ne_nil h
  omega

section Programs

variable {loader kernel : Bytes} (h : drive.HoldsImage image)
  (hbuilt : Floppy.Built boot (Floppy.filesOf loader kernel) image fat)
  (haccepted : Floppy.Accepted boot loader kernel)
include h hbuilt haccepted

theorem Boot.loadLoader_eq (ram : Memory) :
    ∃ t, (∀ fuel ≥ 3200, Boot.loadLoader fuel drive ram = some (some t)) ∧
      t.sectors = (List.range' 2 (Floppy.clusterCount loader)).map (fun c => BitVec.ofNat 16 (c + 31)) ∧
      t.place.toNat + 512 = 512 * Floppy.clusterCount loader ∧
      Copied 0x8000 0x10000 (Floppy.clusterCount loader) loader ram t.ram := by
  have hlayout := Floppy.layout
  have hfits := haccepted.fits
  obtain ⟨hfiled, -⟩ := hbuilt.files
  have hnamed : drive.Named Boot.loaderFileName 0 :=
    (hfiled.named_iff h (by decide) rfl _).mpr (by decide)
  obtain ⟨s, hsearch, hcluster, hram⟩ := search_found ram (by decide)
    (fun i hi => absurd hi (Nat.not_lt_zero i)) hnamed
  rw [hfiled.first_cluster h (by decide) rfl (by decide)] at hcluster
  obtain ⟨t, hrun, hsectors, hbx, hcopied⟩ := Boot.load_file h (h.holdsFat hbuilt) hfiled le_rfl
    (by omega) (clusterCount_pos haccepted.loader_ne) haccepted.loader_lt s.ram
  refine ⟨t, ?_, hsectors, hbx, hcopied.behind le_rfl hram⟩
  intro fuel hfuel
  apply loadFile_eq (hsearch fuel hfuel)
  rw [hcluster]
  exact hrun fuel (by omega)

theorem Loader.loadKernel_eq (ram : Memory) :
    ∃ t, (∀ fuel ≥ 3200, Loader.loadKernel true fuel drive ram = some (some t)) ∧
      t.sectors = (List.range' (2 + Floppy.clusterCount loader) (Floppy.clusterCount kernel)).map
        (fun c => BitVec.ofNat 16 (c + 31)) ∧
      Copied 0x7e00 0x100000 (Floppy.clusterCount kernel) kernel ram t.ram := by
  have hlayout := Floppy.layout
  have hfits := haccepted.fits
  obtain ⟨hother, hfiled, -⟩ := hbuilt.files
  have hnamed : drive.Named Loader.kernelFileName 1 :=
    (hfiled.named_iff h (by decide) rfl _).mpr (by decide)
  -- the entry of LOADER.BIN comes first and has another name
  have hbefore : ∀ i < 1, ¬drive.Named Loader.kernelFileName i := by
    intro i hi
    obtain rfl : i = 0 := by omega
    rw [hother.named_iff h (by decide) rfl]
    decide
  obtain ⟨s, hsearch, hcluster, hram⟩ := search_found ram (by decide) hbefore hnamed
  rw [hfiled.first_cluster h (by decide) rfl (by omega)] at hcluster
  obtain ⟨t, hrun, hsectors, -, hcopied⟩ := Loader.load_file h (h.holdsFat hbuilt) hfiled (by omega)
    (by omega) (clusterCount_pos haccepted.kernel_ne) s.ram
  refine ⟨t, ?_, hsectors, hcopied.behind (by decide) hram⟩
  intro fuel hfuel
  apply loadFile_eq (hsearch fuel hfuel)
  rw [hcluster]
  exact hrun fuel (by omega)

end Programs

/-- Every pair of files `main` accepts comes back: the check goes through, Boot leaves the Loader at
0x10000 and Loader leaves the kernel at 0x100000, zeros behind the last byte up to the end of its
sector. Both stop at the end of the chain, BX as a number being 512 times the sectors before the last
one, and the two bytes of the probe are as they were unless the image covers them. -/
theorem image_loads (boot loader kernel : Bytes) (h : Floppy.Accepted boot loader kernel) :
    ∃ image : Bytes,
      (∀ fuel ≥ 2848, Floppy.main fuel boot loader kernel = some image) ∧
      (∀ fuel ≥ 2848, ∃ seen,
        Floppy.check fuel image (Floppy.filesOf loader kernel) = some ⟨true, seen⟩) ∧
      ∀ (drive : Drive) (ram : Memory), drive.HoldsImage image →
        (∃ t, (∀ fuel ≥ 3200, Boot.loadLoader fuel drive ram = some (some t)) ∧
          t.sectors = (List.range' 2 (Floppy.clusterCount loader)).map
            (fun c => BitVec.ofNat 16 (c + 31)) ∧
          t.place.toNat + 512 = 512 * Floppy.clusterCount loader ∧
          Copied 0x8000 0x10000 (Floppy.clusterCount loader) loader ram t.ram) ∧
        ∃ t, (∀ fuel ≥ 3200, Loader.loadKernel true fuel drive ram = some (some t)) ∧
          t.sectors = (List.range' (2 + Floppy.clusterCount loader) (Floppy.clusterCount kernel)).map
            (fun c => BitVec.ofNat 16 (c + 31)) ∧
          Copied 0x7e00 0x100000 (Floppy.clusterCount kernel) kernel ram t.ram ∧
          t.ram 0x500 = ram 0x500 ∧
          t.ram 0x100500 = if 0x500 < 512 * Floppy.clusterCount kernel then kernel.getD 0x500 0
            else ram 0x100500 := by
  obtain ⟨image, fat, hbuilt, hcheck, hmain⟩ := Floppy.main_eq h
  refine ⟨image, hmain, hcheck, ?_⟩
  intro drive ram hdrive
  refine ⟨Boot.loadLoader_eq hdrive hbuilt h ram, ?_⟩
  obtain ⟨t, hrun, hsectors, hcopied⟩ := Loader.loadKernel_eq hdrive hbuilt h ram
  refine ⟨t, hrun, hsectors, hcopied, ?_, ?_⟩
  · exact hcopied.frame 0x500 (by decide) (Or.inl (by decide))
  · by_cases hinside : 0x500 < 512 * Floppy.clusterCount kernel
    · rw [if_pos hinside]
      exact hcopied.bytes 0x500 hinside
    · rw [if_neg hinside]
      exact hcopied.frame 0x100500 (by decide) (by omega)

def bareBpb : Bytes :=
  [0x00, 0x02, 0x01, 0x01, 0x00, 0x02, 0xe0, 0x00, 0x40, 0x0b, 0xf0, 0x09, 0x00, 0x12, 0x00, 0x02, 0x00]

/-- A boot sector with nothing but its parameter block and its signature. -/
def bareBoot : Bytes := List.replicate 11 0 ++ bareBpb ++ List.replicate 482 0 ++ [0x55, 0xaa]

theorem length_bareBpb :
    (List.replicate 11 (0 : BitVec 8) ++ bareBpb ++ List.replicate 482 0).length = 510 := by
  rw [List.length_append, List.length_append, List.length_replicate, List.length_replicate]
  rfl

/-- Files of two and of four sectors, the last one in part. -/
def twoSectors : Bytes := List.replicate 1000 0x90
def fourSectors : Bytes := List.replicate 1600 0xf4

theorem twoSectors_clusters : Floppy.clusterCount twoSectors = 2 := by
  rw [Floppy.clusterCount, twoSectors, List.length_replicate]
  rfl

theorem fourSectors_clusters : Floppy.clusterCount fourSectors = 4 := by
  rw [Floppy.clusterCount, fourSectors, List.length_replicate]
  rfl

theorem bareBoot_accepted : Floppy.Accepted bareBoot twoSectors fourSectors where
  length := by
    rw [bareBoot, List.length_append, length_bareBpb]
    rfl
  signature := by
    rw [bareBoot, slice, List.drop_left' length_bareBpb]
    rfl
  bpb := by decide
  loader_ne := List.ne_nil_of_length_pos (by rw [twoSectors, List.length_replicate]; decide)
  loader_lt := by
    rw [twoSectors, List.length_replicate]
    decide
  kernel_ne := List.ne_nil_of_length_pos (by rw [fourSectors, List.length_replicate]; decide)
  fits := by
    rw [twoSectors_clusters, fourSectors_clusters]
    decide

/-- The last byte of each file, the first byte of its padding, and the byte of the probe, which the kernel
covers. -/
theorem image_loads_bytes :
    ∃ image, Floppy.main 2848 bareBoot twoSectors fourSectors = some image ∧
      ∀ (drive : Drive) (ram : Memory), drive.HoldsImage image →
        (∃ t, Boot.loadLoader 3200 drive ram = some (some t) ∧ t.sectors = [33, 34] ∧
          t.ram 0x103e7 = 0x90 ∧ t.ram 0x103e8 = 0) ∧
        ∃ t, Loader.loadKernel true 3200 drive ram = some (some t) ∧ t.sectors = [35, 36, 37, 38] ∧
          t.ram 0x10063f = 0xf4 ∧ t.ram 0x100640 = 0 ∧ t.ram 0x500 = ram 0x500 ∧ t.ram 0x100500 = 0xf4 := by
  have hbyte : ∀ (n i : ℕ) (b : BitVec 8), (List.replicate n b).getD i 0 = if i < n then b else 0 := by
    intro n i b
    rw [List.getD_eq_getElem?_getD, List.getElem?_replicate]
    split <;> rfl
  obtain ⟨image, hmain, -, hload⟩ := image_loads bareBoot twoSectors fourSectors bareBoot_accepted
  refine ⟨image, hmain 2848 le_rfl, ?_⟩
  intro drive ram hdrive
  obtain ⟨⟨t, hboot, hsectors, -, hcopied⟩, u, hloader, husectors, hkernel, hlow, hhigh⟩ :=
    hload drive ram hdrive
  rw [twoSectors_clusters] at hsectors hcopied husectors
  rw [fourSectors_clusters] at husectors hkernel hhigh
  refine ⟨⟨t, hboot 3200 le_rfl, hsectors, ?_, ?_⟩, u, hloader 3200 le_rfl, husectors, ?_, ?_, hlow, ?_⟩
  · exact (hcopied.bytes 0x3e7 (by decide)).trans (hbyte _ _ _)
  · exact (hcopied.bytes 0x3e8 (by decide)).trans (hbyte _ _ _)
  · exact (hkernel.bytes 0x63f (by decide)).trans (hbyte _ _ _)
  · exact (hkernel.bytes 0x640 (by decide)).trans (hbyte _ _ _)
  · exact hhigh.trans (hbyte _ _ _)

end MikoOS
