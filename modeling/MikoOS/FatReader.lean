import MikoOS.FloppyImage
import MikoOS.RealMode

/-!
# Reading FAT entries in Boot and Loader

`_ReadOneSectorFunc` turns a sector number into cylinder, head and sector for INT 13h and
`_GetFATEntryFunc` reads the two sectors around an entry. Boot and Loader assemble the same text with
their own copies of the disk parameters. A routine that does not come back, because of a division
fault or a read that fails for ever, is `none`.
-/

namespace MikoOS

open ByteMemory ByteString

/-- The disk parameters the reading code uses. -/
structure Bpb where
  bytesPerSector : BitVec 16
  sectorsPerTrack : BitVec 16
  sectorNumOfFAT1Start : BitVec 16
  rootDirSectors : BitVec 16
  sectorBalance : BitVec 16
  sectorNumOfRootDirStart : BitVec 16

def Boot.bpb : Bpb := ⟨512, 18, 1, 14, 17, 19⟩
def Loader.bpb : Bpb := ⟨512, 18, 1, 14, 17, 19⟩

/-- The buffer of FAT and directory sectors. -/
def sectorBuffer : BitVec 16 := 0x8000

/-- Sector AX of the drive, CL sectors to ES:BX. -/
def readOneSectorFunc (bpb : Bpb) (drive : Drive) (ax : BitVec 16) (cl : BitVec 8)
    (es bx : BitVec 16) (ram : Memory) : Option Memory := do
  -- `div bl`: quotient in AL, remainder in AH
  let bl := bpb.sectorsPerTrack.setWidth 8
  let quotient := ax.toNat / bl.toNat
  let remainder := ax.toNat % bl.toNat
  if 256 ≤ quotient then none
  let sector := BitVec.ofNat 8 remainder + 1
  let dh := BitVec.ofNat 8 quotient &&& 1
  let ch := BitVec.ofNat 8 quotient >>> 1
  let bytes ← drive.read ch.toNat dh.toNat sector.toNat cl.toNat
  return write ram (linear es bx) bytes

/-- The entry of cluster AX, with memory after the read. -/
def getFATEntryFunc (bpb : Bpb) (drive : Drive) (ax : BitVec 16) (ram : Memory) :
    Option (BitVec 16 × Memory) := do
  -- `mul bx` and `div bx`: DX:AX times 3, divided by 2
  let product := ax.toNat * 3
  let offset := product / 2
  if 2 ^ 16 ≤ offset then none
  let odd : Bool := product % 2 ≠ 0
  let dx := BitVec.ofNat 16 (offset % bpb.bytesPerSector.toNat)
  let ax := BitVec.ofNat 16 (offset / bpb.bytesPerSector.toNat) + bpb.sectorNumOfFAT1Start
  let ram ← readOneSectorFunc bpb drive ax 2 0 sectorBuffer ram
  let ax := load16 ram (linear 0 (sectorBuffer + dx))
  let ax := if odd then ax >>> 4 else ax
  return (ax &&& 0x0fff, ram)

namespace Boot

def getFATEntryFunc : Drive → BitVec 16 → Memory → Option (BitVec 16 × Memory) :=
  MikoOS.getFATEntryFunc bpb

end Boot

namespace Loader

def getFATEntryFunc : Drive → BitVec 16 → Memory → Option (BitVec 16 × Memory) :=
  MikoOS.getFATEntryFunc bpb

end Loader

variable {drive : Drive} {ram : Memory}

/-- Cylinder, head and sector address the sector they were computed from. -/
theorem readOneSectorFunc_eq (drive : Drive) (ram : Memory) {lba : ℕ} (hlba : lba < 2880)
    {cl : BitVec 8} (htrack : lba % 18 + cl.toNat ≤ 18) (es bx : BitVec 16) :
    readOneSectorFunc Boot.bpb drive (BitVec.ofNat 16 lba) cl es bx ram =
      some (placeSectors drive lba cl.toNat (linear es bx) ram) := by
  have hax : (BitVec.ofNat 16 lba).toNat = lba := by
    rw [BitVec.toNat_ofNat]
    omega
  have hbl : (Boot.bpb.sectorsPerTrack.setWidth 8).toNat = 18 := rfl
  have hquotient : lba / 18 < 160 := by omega
  have hch : (BitVec.ofNat 8 (lba / 18) >>> 1).toNat = lba / 18 / 2 := by
    rw [BitVec.toNat_ushiftRight, BitVec.toNat_ofNat, Nat.shiftRight_eq_div_pow, pow_one]
    omega
  have hdh : (BitVec.ofNat 8 (lba / 18) &&& 1).toNat = lba / 18 % 2 := by
    rw [BitVec.toNat_and, BitVec.toNat_ofNat]
    change lba / 18 % 256 &&& 1 = _
    rw [Nat.and_one_is_mod]
    omega
  have hsector : (BitVec.ofNat 8 (lba % 18) + 1).toNat = lba % 18 + 1 := by
    rw [BitVec.toNat_add, BitVec.toNat_ofNat]
    change (lba % 18 % 256 + 1) % 256 = _
    omega
  have hread : drive.read (lba / 18 / 2) (lba / 18 % 2) (lba % 18 + 1) cl.toNat =
      some ((List.range (512 * cl.toNat)).map fun i => drive.disk (512 * lba + i)) := by
    have hlinear : (lba / 18 / 2 * 2 + lba / 18 % 2) * 18 + (lba % 18 + 1 - 1) = lba := by omega
    rw [Drive.read, if_pos (by omega), hlinear]
  unfold readOneSectorFunc
  simp only [hax, hbl]
  rw [if_neg (by omega), hch, hdh, hsector, hread]
  rfl

/-- Sectors 1 to 9 of the medium are `fat`. -/
structure Drive.HoldsFat (drive : Drive) (fat : Bytes) : Prop where
  length : fat.length = Floppy.fatSize
  bytes : ∀ i < Floppy.fatSize, drive.disk (Floppy.sectorSize + i) = fat.getD i 0

variable {fat : Bytes} {c : ℕ}

/-- The two sectors read for cluster `c`. -/
def placeEntry (drive : Drive) (c : ℕ) (ram : Memory) : Memory :=
  placeSectors drive (c * 3 / 2 / 512 + 1) 2 sectorBuffer.toNat ram

theorem load_pair (h : drive.HoldsFat fat) (hc : c * 3 / 2 + 2 ≤ fat.length) :
    load (placeEntry drive c ram) (sectorBuffer.toNat + c * 3 / 2 % 512) 2 =
      fromLittle (slice fat (c * 3 / 2) (c * 3 / 2 + 2)) := by
  apply load_eq_fromLittle hc
  intro i hi
  have hlength := h.length
  have hin : c * 3 / 2 % 512 + i < 512 * 2 := by omega
  have hdisk : 512 * (c * 3 / 2 / 512 + 1) + (c * 3 / 2 % 512 + i) =
      Floppy.sectorSize + (c * 3 / 2 + i) := by
    rw [Floppy.sectorSize]
    omega
  rw [placeEntry, Nat.add_assoc, placeSectors_inside hin, hdisk, h.bytes _ (by omega)]

theorem getFATEntryFunc_eq (h : drive.HoldsFat fat) (ram : Memory) (hc : c * 3 / 2 + 2 ≤ fat.length) :
    getFATEntryFunc Boot.bpb drive (BitVec.ofNat 16 c) ram =
      some (BitVec.ofNat 16 (Floppy.fatEntry fat c), placeEntry drive c ram) := by
  have hlength := h.length
  have hsize : Floppy.fatSize = 4608 := rfl
  have hax : (BitVec.ofNat 16 c).toNat = c := by
    rw [BitVec.toNat_ofNat]
    omega
  have hbytes : Boot.bpb.bytesPerSector.toNat = 512 := rfl
  have hstart : BitVec.ofNat 16 (c * 3 / 2 / 512) + Boot.bpb.sectorNumOfFAT1Start =
      BitVec.ofNat 16 (c * 3 / 2 / 512 + 1) := (BitVec.ofNat_add _ _).symm
  have htrack : (c * 3 / 2 / 512 + 1) % 18 + (2 : BitVec 8).toNat ≤ 18 := by
    have hsector : c * 3 / 2 / 512 + 1 < 18 := by omega
    rw [Nat.mod_eq_of_lt hsector]
    change c * 3 / 2 / 512 + 1 + 2 ≤ 18
    omega
  have hread := readOneSectorFunc_eq drive ram (by omega) htrack 0 sectorBuffer
  have haddress : linear 0 (sectorBuffer + BitVec.ofNat 16 (c * 3 / 2 % 512)) =
      sectorBuffer.toNat + c * 3 / 2 % 512 := by
    have hbuffer : sectorBuffer.toNat = 0x8000 := rfl
    rw [linear, BitVec.toNat_add, BitVec.toNat_ofNat, hbuffer]
    change 0 * 16 + _ = _
    omega
  have hword : (load16 (placeEntry drive c ram) (sectorBuffer.toNat + c * 3 / 2 % 512)).toNat =
      fromLittle (slice fat (c * 3 / 2) (c * 3 / 2 + 2)) := by
    rw [load16, BitVec.toNat_ofNat, load_pair h hc]
    apply Nat.mod_eq_of_lt
    have hlt := fromLittle_lt (slice fat (c * 3 / 2) (c * 3 / 2 + 2))
    rwa [length_slice_of_le hc, Nat.add_sub_cancel_left] at hlt
  have hplace : placeSectors drive (c * 3 / 2 / 512 + 1) (2 : BitVec 8).toNat (linear 0 sectorBuffer) ram =
      placeEntry drive c ram := rfl
  unfold getFATEntryFunc
  simp only [hax, hbytes]
  rw [if_neg (by omega), hstart, hread, hplace]
  simp only [Option.bind_eq_bind, Option.bind_some, haddress, Option.pure_def, Option.some.injEq,
    Prod.mk.injEq, and_true]
  apply BitVec.eq_of_toNat_eq
  have hentry : Floppy.fatEntry fat c < 2 ^ 16 := Floppy.fatEntry_lt.trans (by decide)
  have hparity : c * 3 % 2 = c % 2 := by omega
  rw [BitVec.toNat_and, BitVec.toNat_ofNat, Nat.mod_eq_of_lt hentry, Floppy.fatEntry,
    Nat.and_one_is_mod, hparity]
  by_cases hodd : c % 2 ≠ 0
  · rw [if_pos hodd, if_pos (decide_eq_true hodd), BitVec.toNat_ushiftRight, hword]
    rfl
  · rw [if_neg hodd, if_neg (by simpa using hodd), hword]
    rfl

/-- A file allocation table of nine sectors. -/
structure Fat where
  bytes : Bytes
  length : bytes.length = Floppy.fatSize

/-- One update of the builder. -/
structure Link where
  cluster : Fin Floppy.clusterEnd
  link : Fin 0x1000

theorem Link.inside (l : Link) (fat : Fat) : l.cluster.val * 3 / 2 + 2 ≤ fat.bytes.length := by
  have hcluster : l.cluster.val < 2849 := l.cluster.isLt
  have hsize : fat.bytes.length = 4608 := fat.length
  omega

def Fat.set (fat : Fat) (l : Link) : Fat where
  bytes := Floppy.setEntry fat.bytes l.cluster l.link
  length := (Floppy.length_setEntry (l.inside fat)).trans fat.length

/-- The last link written to `cluster`, or `original`. -/
def lastLink (links : List Link) (cluster original : ℕ) : ℕ :=
  ((links.reverse.find? fun l => l.cluster = cluster).map fun l => l.link.val).getD original

/-- The drive with `fat` in sectors 1 to 9. -/
def Drive.insert (drive : Drive) (fat : Fat) : Drive :=
  { drive with disk := write drive.disk Floppy.sectorSize fat.bytes }

theorem Drive.insert_holds (drive : Drive) (fat : Fat) : (drive.insert fat).HoldsFat fat.bytes where
  length := fat.length
  bytes := by
    intro i hi
    have hlength := fat.length
    change write drive.disk Floppy.sectorSize fat.bytes (Floppy.sectorSize + i) = _
    rw [write_inside (by omega), Nat.add_sub_cancel_left]

theorem fatEntry_set (fat : Fat) (l : Link) (c : ℕ) :
    Floppy.fatEntry (fat.set l).bytes c =
      if c = l.cluster then l.link.val else Floppy.fatEntry fat.bytes c :=
  Floppy.fatEntry_setEntry (l.inside fat) l.link.isLt

theorem fatEntry_links (fat : Fat) (links : List Link) (c : ℕ) :
    Floppy.fatEntry (links.foldl Fat.set fat).bytes c =
      lastLink links c (Floppy.fatEntry fat.bytes c) := by
  induction links using List.reverseRecOn with
  | nil => rfl
  | append_singleton links l ih =>
    rw [List.foldl_append, List.foldl_cons, List.foldl_nil, fatEntry_set, ih, lastLink, lastLink,
      List.reverse_append, List.reverse_singleton, List.singleton_append, List.find?_cons]
    by_cases hc : c = l.cluster
    · rw [if_pos hc, decide_eq_true hc.symm]
      rfl
    · rw [if_neg hc, decide_eq_false (Ne.symm hc)]

/-- After any updates the builder's reader, Boot and Loader agree on every cluster, whatever the table
was and whatever follows it on the medium; an update is seen at its own cluster only. -/
theorem entry_codec (fat : Fat) (links : List Link) (drive : Drive) (ram : Memory)
    (c : Fin Floppy.clusterEnd) :
    Floppy.fatEntry (links.foldl Fat.set fat).bytes c =
        lastLink links c (Floppy.fatEntry fat.bytes c) ∧
      (∃ ram', Boot.getFATEntryFunc (drive.insert (links.foldl Fat.set fat)) (BitVec.ofNat 16 c) ram =
        some (BitVec.ofNat 16 (lastLink links c (Floppy.fatEntry fat.bytes c)), ram')) ∧
      (∃ ram', Loader.getFATEntryFunc (drive.insert (links.foldl Fat.set fat)) (BitVec.ofNat 16 c) ram =
        some (BitVec.ofNat 16 (lastLink links c (Floppy.fatEntry fat.bytes c)), ram')) ∧
      ∀ (l : Link) (other : ℕ), other ≠ l.cluster →
        Floppy.fatEntry (fat.set l).bytes other = Floppy.fatEntry fat.bytes other := by
  have hlinks := fatEntry_links fat links c
  have hread := getFATEntryFunc_eq (drive.insert_holds (links.foldl Fat.set fat)) ram
    (Link.inside ⟨c, 0⟩ _)
  rw [hlinks] at hread
  refine ⟨hlinks, ⟨_, hread⟩, ⟨_, hread⟩, fun l other hother => ?_⟩
  rw [fatEntry_set, if_neg hother]

end MikoOS
