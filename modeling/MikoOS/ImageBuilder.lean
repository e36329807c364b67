import MikoOS.ImageCheck

/-!
# The image builder

`build_image.main`: the directory entry, the links and the blocks of every file, then two copies of
the table and the check. A failed assertion is `none`. Files take consecutive clusters; `Filed` says
where a reader finds one of them, and every later step of the builder leaves it there.
-/

namespace MikoOS.Floppy

open ByteString

def loaderName : Bytes := [0x4c, 0x4f, 0x41, 0x44, 0x45, 0x52, 0x20, 0x20, 0x42, 0x49, 0x4e]
def kernelName : Bytes := [0x4b, 0x45, 0x52, 0x4e, 0x45, 0x4c, 0x20, 0x20, 0x42, 0x49, 0x4e]

/-- The parameter block at offset 11 of the boot sector, field by field. -/
def unpackBpb (boot : Bytes) : List ℕ :=
  [slice boot 11 13, slice boot 13 14, slice boot 14 16, slice boot 16 17, slice boot 17 19,
    slice boot 19 21, slice boot 21 22, slice boot 22 24, slice boot 24 26, slice boot 26 28].map
      fromLittle

/-- The variables of the loop over the files. -/
structure Building where
  image : Bytes
  fat : Bytes
  nextCluster : ℕ

/-- `clusters` of a file. -/
def clusterCount (content : Bytes) : ℕ := (content.length + sectorSize - 1) / sectorSize

/-- Where the sector of a cluster starts. -/
def clusterStart (cluster : ℕ) : ℕ := dataStart + (cluster - 2) * sectorSize

def directoryEntry (name : Bytes) (cluster size : ℕ) : Bytes :=
  let directory := List.replicate 32 0
  let directory := splice directory 0 11 name
  let directory := splice directory 11 12 [0x20]
  splice directory 26 32 (toLittle 2 cluster ++ toLittle 4 size)

/-- The link and the block of cluster `i` of a file. -/
def addCluster (content : Bytes) (b : Building) (i : ℕ) : Building :=
  let cluster := b.nextCluster + i
  let link := if i = clusterCount content - 1 then 0xfff else cluster + 1
  let block := slice content (i * sectorSize) ((i + 1) * sectorSize)
  let start := clusterStart cluster
  { b with
    image := splice b.image start (start + block.length) block
    fat := setEntry b.fat cluster link }

def addFile (b : Building) (index : ℕ) (file : Bytes × Bytes) : Option Building :=
  let (name, content) := file
  let clusters := clusterCount content
  if content = [] ∨ clusterEnd < b.nextCluster + clusters then none
  else
    let directory := directoryEntry name b.nextCluster content.length
    let b := { b with
      image := splice b.image (rootStart + index * 32) (rootStart + (index + 1) * 32) directory }
    let b := (List.range clusters).foldl (addCluster content) b
    some { b with nextCluster := b.nextCluster + clusters }

def addFiles : ℕ → List (Bytes × Bytes) → Building → Option Building
  | _, [], b => some b
  | index, file :: files, b => do
    let b ← addFile b index file
    addFiles (index + 1) files b

/-- The image before the check. -/
def build (boot : Bytes) (files : List (Bytes × Bytes)) : Option Bytes := do
  let image := splice (List.replicate imageSize 0) 0 sectorSize boot
  let fat := splice (List.replicate fatSize 0) 0 3 [0xf0, 0xff, 0xff]
  let b ← addFiles 0 files ⟨image, fat, 2⟩
  let image := splice b.image sectorSize (sectorSize + fatSize) b.fat
  return splice image (sectorSize + fatSize) (sectorSize + 2 * fatSize) b.fat

/-- What `main` writes to `boot.img`. -/
def main (fuel : ℕ) (boot loader kernel : Bytes) : Option Bytes := do
  let files := [(loaderName, loader), (kernelName, kernel)]
  if boot.length = sectorSize ∧ slice boot (boot.length - 2) boot.length = [0x55, 0xaa] ∧
      unpackBpb boot = [512, 1, 1, 2, 224, 2880, 0xf0, 9, 18, 2] ∧
      0 < loader.length ∧ loader.length < 65536 then
    let image ← build boot files
    let verdict ← check fuel image files
    if verdict.passed then return image else none
  else none

variable {image fat boot name content : Bytes} {b b' : Building} {index first i k size : ℕ}

theorem length_named (hname : name.length = 11) :
    (splice (List.replicate 32 (0 : BitVec 8)) 0 11 name).length = 32 := by
  rw [length_splice (by simp) (by omega) (by simp), List.length_replicate]

theorem length_marked (hname : name.length = 11) :
    (splice (splice (List.replicate 32 (0 : BitVec 8)) 0 11 name) 11 12 [0x20]).length = 32 := by
  have hnamed := length_named hname
  rw [length_splice (by omega) (by rfl) (by omega), hnamed]

theorem length_directoryEntry (hname : name.length = 11) (cluster size : ℕ) :
    (directoryEntry name cluster size).length = 32 := by
  have hmarked := length_marked hname
  rw [directoryEntry, length_splice (by omega) (by simp) (by omega), hmarked]

/-- The name of an entry read back. -/
theorem slice_name (hname : name.length = 11) (cluster size : ℕ) :
    slice (directoryEntry name cluster size) 0 11 = name := by
  have hnamed := length_named hname
  have hmarked := length_marked hname
  rw [directoryEntry, slice_splice_outside (by simp) (by omega) (by omega),
    slice_splice_outside (by rfl) (by omega) (by omega), slice_splice_same (by omega) (by simp)]

theorem slice_numbers (hname : name.length = 11) (cluster size : ℕ) {c d : ℕ} (hd : d ≤ 6) :
    slice (directoryEntry name cluster size) (26 + c) (26 + d) =
      slice (toLittle 2 cluster ++ toLittle 4 size) c d := by
  have hmarked := length_marked hname
  have hnumbers : slice (directoryEntry name cluster size) 26 32 =
      toLittle 2 cluster ++ toLittle 4 size :=
    slice_splice_same (by simp) (by omega)
  rw [← hnumbers, slice_slice (by omega)]

theorem slice_cluster (hname : name.length = 11) {cluster : ℕ} (hcluster : cluster < 65536) (size : ℕ) :
    fromLittle (slice (directoryEntry name cluster size) 26 28) = cluster := by
  rw [slice_numbers hname cluster size (c := 0) (d := 2) (by decide)]
  exact fromLittle_toLittle (n := 2) hcluster

theorem slice_size (hname : name.length = 11) (cluster : ℕ) (hsize : size < 2 ^ 32) :
    fromLittle (slice (directoryEntry name cluster size) 28 32) = size := by
  rw [slice_numbers hname cluster size (c := 2) (d := 6) le_rfl]
  exact fromLittle_toLittle (n := 4) hsize

theorem layout : fatSize = 4608 ∧ rootStart = 9728 ∧ imageSize = 1474560 ∧ clusterEnd = 2849 :=
  ⟨rfl, rfl, rfl, rfl⟩

theorem clusterCount_bounds (content : Bytes) : content.length ≤ 512 * clusterCount content ∧
    512 * clusterCount content < content.length + 512 := by
  rw [clusterCount, sectorSize]
  omega

theorem clusterStart_eq (cluster : ℕ) : clusterStart cluster = 16896 + (cluster - 2) * 512 := rfl

theorem clusterStart_add (hfirst : 2 ≤ first) (i : ℕ) :
    clusterStart (first + i) = clusterStart first + 512 * i := by
  rw [clusterStart_eq, clusterStart_eq]
  omega

/-- The builder after `k` clusters of a file, started in `b`. -/
structure Placed (b : Building) (content : Bytes) (k : ℕ) (b' : Building) : Prop where
  next : b'.nextCluster = b.nextCluster
  image : b'.image = splice b.image (clusterStart b.nextCluster)
    (clusterStart b.nextCluster + (content.take (k * 512)).length) (content.take (k * 512))
  length : b'.fat.length = fatSize
  entry : ∀ c, fatEntry b'.fat c =
    if b.nextCluster ≤ c ∧ c < b.nextCluster + k then
      if c - b.nextCluster = clusterCount content - 1 then 0xfff else c + 1
    else fatEntry b.fat c

theorem Placed.step (h : Placed b content k b') (himage : b.image.length = imageSize)
    (hlow : 2 ≤ b.nextCluster) (hhigh : b.nextCluster + clusterCount content ≤ clusterEnd)
    (hk : k < clusterCount content) : Placed b content (k + 1) (addCluster content b' k) := by
  have hlayout := layout
  have hcount := clusterCount_bounds content
  have hstart := clusterStart_eq b.nextCluster
  have hbefore : (content.take (k * 512)).length = k * 512 := by
    rw [List.length_take]
    omega
  have hblock : content.take (k * 512) ++ slice content (k * 512) ((k + 1) * 512) =
      content.take ((k + 1) * 512) := take_append_slice (by omega)
  have hinside : (b.nextCluster + k) * 3 / 2 + 2 ≤ b'.fat.length := by
    rw [h.length]
    omega
  constructor
  · exact h.next
  · -- the new block continues the bytes placed so far
    have hmiddle : clusterStart (b.nextCluster + k) =
        clusterStart b.nextCluster + (content.take (k * 512)).length := by
      rw [clusterStart_add hlow, hbefore, Nat.mul_comm]
    have hlength : (content.take (k * 512)).length +
        (slice content (k * 512) ((k + 1) * 512)).length ≤ content.length := by
      rw [← List.length_append, hblock, List.length_take]
      omega
    change splice b'.image (clusterStart (b'.nextCluster + k)) (clusterStart (b'.nextCluster + k) +
      (slice content (k * 512) ((k + 1) * 512)).length) (slice content (k * 512) ((k + 1) * 512)) = _
    rw [h.next, h.image, ← hblock, List.length_append, ← Nat.add_assoc, hmiddle]
    exact splice_splice rfl rfl (by omega)
  · exact (length_setEntry (by rwa [h.next])).trans h.length
  · intro c
    have hlink : (if k = clusterCount content - 1 then 0xfff else b.nextCluster + k + 1) < 2 ^ 12 := by
      split <;> omega
    change fatEntry (setEntry b'.fat (b'.nextCluster + k) _) c = _
    rw [h.next, fatEntry_setEntry hinside hlink, h.entry]
    by_cases hc : c = b.nextCluster + k
    · have hnew : b.nextCluster ≤ c ∧ c < b.nextCluster + (k + 1) := by omega
      rw [if_pos hc, if_pos hnew, hc, Nat.add_sub_cancel_left]
    · by_cases hold : b.nextCluster ≤ c ∧ c < b.nextCluster + k
      · have hstill : b.nextCluster ≤ c ∧ c < b.nextCluster + (k + 1) := by omega
        rw [if_neg hc, if_pos hold, if_pos hstill]
      · rw [if_neg hc, if_neg hold, if_neg (by omega)]

theorem placed (content : Bytes) (himage : b.image.length = imageSize) (hfat : b.fat.length = fatSize)
    (hlow : 2 ≤ b.nextCluster) (hhigh : b.nextCluster + clusterCount content ≤ clusterEnd)
    (hk : k ≤ clusterCount content) :
    Placed b content k ((List.range k).foldl (addCluster content) b) := by
  induction k with
  | zero =>
    constructor
    · rfl
    · rw [Nat.zero_mul, List.take_zero, List.length_nil, Nat.add_zero, splice, List.append_nil,
        List.take_append_drop]
      rfl
    · exact hfat
    · intro c
      rw [if_neg (by omega)]
      rfl
  | succ k ih =>
    rw [List.range_succ, List.foldl_append, List.foldl_cons, List.foldl_nil]
    exact (ih (by omega)).step himage hlow hhigh hk

/-- File `index` lies under its name in the clusters from `first` on, its last sector filled up with
zeros. -/
structure Filed (image fat : Bytes) (index : ℕ) (name content : Bytes) (first : ℕ) : Prop where
  entry : slice image (rootStart + index * 32) (rootStart + (index + 1) * 32) =
    directoryEntry name first content.length
  link : ∀ i < clusterCount content, fatEntry fat (first + i) =
    if i = clusterCount content - 1 then 0xfff else first + i + 1
  bytes : ∀ i < 512 * clusterCount content, image[clusterStart first + i]? = some (content.getD i 0)

/-- Between two files: what is behind the clusters given out so far is zero. -/
structure Sound (boot : Bytes) (b : Building) : Prop where
  image : b.image.length = imageSize
  fat : b.fat.length = fatSize
  low : 2 ≤ b.nextCluster
  boot : slice b.image 0 512 = boot
  free : ∀ i < imageSize, clusterStart b.nextCluster ≤ i → b.image[i]? = some 0

/-- One file after `b`. -/
structure Added (b : Building) (index : ℕ) (name content : Bytes) (b' : Building) : Prop where
  next : b'.nextCluster = b.nextCluster + clusterCount content
  image : b'.image = splice (splice b.image (rootStart + index * 32) (rootStart + (index + 1) * 32)
      (directoryEntry name b.nextCluster content.length))
    (clusterStart b.nextCluster) (clusterStart b.nextCluster + content.length) content
  length : b'.fat.length = fatSize
  entry : ∀ c, fatEntry b'.fat c =
    if b.nextCluster ≤ c ∧ c < b.nextCluster + clusterCount content then
      if c - b.nextCluster = clusterCount content - 1 then 0xfff else c + 1
    else fatEntry b.fat c

theorem Sound.length_entered (h : Sound boot b) (hname : name.length = 11) (hindex : index < 224)
    (content : Bytes) :
    (splice b.image (rootStart + index * 32) (rootStart + (index + 1) * 32)
      (directoryEntry name b.nextCluster content.length)).length = imageSize := by
  have hlayout := layout
  have himage := h.image
  have hdirectory := length_directoryEntry hname b.nextCluster content.length
  rw [length_splice (by omega) (by omega) (by omega), himage]

theorem addFile_eq (h : Sound boot b) (hname : name.length = 11) (hindex : index < 224)
    (hne : content ≠ []) (hhigh : b.nextCluster + clusterCount content ≤ clusterEnd) :
    ∃ b', addFile b index (name, content) = some b' ∧ Added b index name content b' := by
  have hcount := clusterCount_bounds content
  have hlength := h.length_entered hname hindex content
  have hplaced := placed (b := { b with
    image := splice b.image (rootStart + index * 32) (rootStart + (index + 1) * 32)
      (directoryEntry name b.nextCluster content.length) }) content hlength h.fat h.low hhigh le_rfl
  have htake : content.take (clusterCount content * 512) = content := List.take_of_length_le (by omega)
  have hcontinue : ¬(content = [] ∨ clusterEnd < b.nextCluster + clusterCount content) := by
    rw [not_or]
    exact ⟨hne, Nat.not_lt.mpr hhigh⟩
  refine ⟨_, if_neg hcontinue, ?_, ?_, ?_, ?_⟩
  · exact congrArg (· + clusterCount content) hplaced.next
  · have hbytes := hplaced.image
    rw [htake] at hbytes
    exact hbytes
  · exact hplaced.length
  · exact hplaced.entry

section Added

variable (hadded : Added b index name content b') (h : Sound boot b) (hname : name.length = 11)
  (hindex : index < 224) (hhigh : b.nextCluster + clusterCount content ≤ clusterEnd)
include hadded h hname hindex hhigh

/-- Every byte of the image after the file. -/
theorem Added.getElem? (i : ℕ) : b'.image[i]? =
    if clusterStart b.nextCluster ≤ i ∧ i < clusterStart b.nextCluster + content.length then
      content[i - clusterStart b.nextCluster]?
    else if rootStart + index * 32 ≤ i ∧ i < rootStart + (index + 1) * 32 then
      (directoryEntry name b.nextCluster content.length)[i - (rootStart + index * 32)]?
    else b.image[i]? := by
  have hlayout := layout
  have himage := h.image
  have hlow := h.low
  have hcount := clusterCount_bounds content
  have hstart := clusterStart_eq b.nextCluster
  have hdirectory := length_directoryEntry hname b.nextCluster content.length
  have hlength := h.length_entered hname hindex content
  rw [hadded.image, getElem?_splice rfl (by omega), getElem?_splice (by omega) (by omega)]

theorem Added.length_image : b'.image.length = imageSize := by
  have hlayout := layout
  have hlow := h.low
  have hcount := clusterCount_bounds content
  have hstart := clusterStart_eq b.nextCluster
  have hlength := h.length_entered hname hindex content
  rw [hadded.image, length_splice (by omega) rfl (by omega), hlength]

theorem Added.sound : Sound boot b' := by
  have hlayout := layout
  have hlow := h.low
  have hcount := clusterCount_bounds content
  have hstart := clusterStart_eq b.nextCluster
  have hnext := clusterStart_add hlow (clusterCount content)
  constructor
  · exact hadded.length_image h hname hindex hhigh
  · exact hadded.length
  · rw [hadded.next]
    omega
  · rw [← h.boot]
    apply List.ext_getElem?
    intro i
    rw [getElem?_slice, getElem?_slice]
    by_cases hi : i < 512 - 0
    · rw [if_pos hi, if_pos hi, hadded.getElem? h hname hindex hhigh, if_neg (by omega),
        if_neg (by omega)]
    · rw [if_neg hi, if_neg hi]
  · intro i hi hfree
    rw [hadded.next, hnext] at hfree
    rw [hadded.getElem? h hname hindex hhigh, if_neg (by omega), if_neg (by omega)]
    exact h.free i hi (by omega)

theorem Added.filed : Filed b'.image b'.fat index name content b.nextCluster := by
  have hlayout := layout
  have hlow := h.low
  have hcount := clusterCount_bounds content
  have hstart := clusterStart_eq b.nextCluster
  have hdirectory := length_directoryEntry hname b.nextCluster content.length
  constructor
  · apply List.ext_getElem?
    intro i
    rw [getElem?_slice]
    by_cases hi : i < 32
    · rw [if_pos (by omega), hadded.getElem? h hname hindex hhigh, if_neg (by omega),
        if_pos (by omega), Nat.add_sub_cancel_left]
    · rw [if_neg (by omega), List.getElem?_eq_none (by omega)]
  · intro i hi
    have hinside : b.nextCluster ≤ b.nextCluster + i ∧
        b.nextCluster + i < b.nextCluster + clusterCount content := by omega
    rw [hadded.entry, if_pos hinside, Nat.add_sub_cancel_left]
  · intro i hi
    rw [hadded.getElem? h hname hindex hhigh]
    by_cases hcontent : i < content.length
    · rw [if_pos (by omega), Nat.add_sub_cancel_left, List.getElem?_eq_getElem hcontent,
        List.getD_eq_getElem _ _ hcontent]
    · rw [if_neg (by omega), if_neg (by omega), List.getD_eq_default _ _ (by omega)]
      exact h.free _ (by omega) (by omega)

/-- A file in front of the new one stays where it is. -/
theorem Added.keeps {other : ℕ} {title data : Bytes} (hother : other < index) (hfirst : 2 ≤ first)
    (hbelow : first + clusterCount data ≤ b.nextCluster)
    (hfiled : Filed b.image b.fat other title data first) :
    Filed b'.image b'.fat other title data first := by
  have hlayout := layout
  have hstart := clusterStart_eq b.nextCluster
  have hnext := clusterStart_eq first
  constructor
  · rw [← hfiled.entry]
    apply List.ext_getElem?
    intro i
    rw [getElem?_slice, getElem?_slice]
    by_cases hi : i < 32
    · rw [if_pos (by omega), if_pos (by omega), hadded.getElem? h hname hindex hhigh,
        if_neg (by omega), if_neg (by omega)]
    · rw [if_neg (by omega), if_neg (by omega)]
  · intro i hi
    rw [hadded.entry, if_neg (by omega)]
    exact hfiled.link i hi
  · intro i hi
    rw [hadded.getElem? h hname hindex hhigh, if_neg (by omega), if_neg (by omega)]
    exact hfiled.bytes i hi

end Added

/-- The files from `index` on, in consecutive clusters from `first` on. -/
def AllFiled (image fat : Bytes) : ℕ → ℕ → List (Bytes × Bytes) → Prop
  | _, _, [] => True
  | index, first, (name, content) :: files =>
    Filed image fat index name content first ∧
      AllFiled image fat (index + 1) (first + clusterCount content) files

def clustersOf (files : List (Bytes × Bytes)) : ℕ := (files.map fun file => clusterCount file.2).sum

theorem clustersOf_cons (name content : Bytes) (files : List (Bytes × Bytes)) :
    clustersOf ((name, content) :: files) = clusterCount content + clustersOf files := by
  rw [clustersOf, List.map_cons, List.sum_cons]
  rfl

theorem addFiles_eq {files : List (Bytes × Bytes)} (h : Sound boot b)
    (hnames : ∀ file ∈ files, file.1.length = 11) (hne : ∀ file ∈ files, file.2 ≠ [])
    (hindex : index + files.length ≤ 224) (hhigh : b.nextCluster + clustersOf files ≤ clusterEnd) :
    ∃ b', addFiles index files b = some b' ∧ Sound boot b' ∧
      AllFiled b'.image b'.fat index b.nextCluster files ∧
      ∀ other title data first, other < index → 2 ≤ first → first + clusterCount data ≤ b.nextCluster →
        Filed b.image b.fat other title data first → Filed b'.image b'.fat other title data first := by
  induction files generalizing index b with
  | nil => exact ⟨b, rfl, h, trivial, fun _ _ _ _ _ _ _ hfiled => hfiled⟩
  | cons file files ih =>
    obtain ⟨name, content⟩ := file
    rw [clustersOf_cons] at hhigh
    rw [List.length_cons] at hindex
    have hlow := h.low
    have hname : name.length = 11 := hnames (name, content) List.mem_cons_self
    have hcontent : content ≠ [] := hne (name, content) List.mem_cons_self
    have hfit : b.nextCluster + clusterCount content ≤ clusterEnd := by omega
    have hentry : index < 224 := by omega
    obtain ⟨b₁, hfirst, hadded⟩ := addFile_eq h hname hentry hcontent hfit
    have hnext : b₁.nextCluster = b.nextCluster + clusterCount content := hadded.next
    obtain ⟨b', hrest, hsound, hfiles, hkeeps⟩ := ih
      (hadded.sound h hname hentry hfit)
      (fun file hfile => hnames file (List.mem_cons_of_mem _ hfile))
      (fun file hfile => hne file (List.mem_cons_of_mem _ hfile))
      (show index + 1 + files.length ≤ 224 by omega) (by omega)
    refine ⟨b', ?_, hsound, ⟨?_, ?_⟩, ?_⟩
    · rw [addFiles, hfirst]
      exact hrest
    · exact hkeeps index name content b.nextCluster (by omega) hlow (by omega)
        (hadded.filed h hname hentry hfit)
    · rwa [hnext] at hfiles
    · intro other title data first hother hfirst hbelow hfiled
      apply hkeeps other title data first (by omega) hfirst (by omega)
      exact hadded.keeps h hname hentry hfit hother hfirst hbelow hfiled

theorem foldl_addCluster_next (content : Bytes) (b : Building) (is : List ℕ) :
    (is.foldl (addCluster content) b).nextCluster = b.nextCluster := by
  induction is generalizing b with
  | nil => rfl
  | cons i is ih => exact ih (addCluster content b i)

/-- The assertions of the loop have held when it comes to its end. -/
theorem addFiles_some {files : List (Bytes × Bytes)} (hlow : b.nextCluster ≤ clusterEnd)
    (h : addFiles index files b = some b') :
    (∀ file ∈ files, file.2 ≠ []) ∧ b.nextCluster + clustersOf files ≤ clusterEnd := by
  induction files generalizing index b with
  | nil => exact ⟨fun _ hfile => absurd hfile List.not_mem_nil, hlow⟩
  | cons file files ih =>
    obtain ⟨name, content⟩ := file
    rw [addFiles, Option.bind_eq_bind, Option.bind_eq_some_iff] at h
    obtain ⟨b₁, hfirst, hrest⟩ := h
    by_cases hstop : content = [] ∨ clusterEnd < b.nextCluster + clusterCount content
    · have hnone : addFile b index (name, content) = none := if_pos hstop
      rw [hnone] at hfirst
      cases hfirst
    · have hnext : b₁.nextCluster = b.nextCluster + clusterCount content := by
        have hsome : addFile b index (name, content) = some _ := if_neg hstop
        rw [hsome, Option.some.injEq] at hfirst
        rw [← hfirst]
        exact congrArg (· + clusterCount content) (foldl_addCluster_next content _ _)
      rw [not_or, Nat.not_lt] at hstop
      obtain ⟨hne, hsum⟩ := ih (by omega) hrest
      refine ⟨?_, ?_⟩
      · intro file hfile
        rcases List.mem_cons.mp hfile with hhead | htail
        · rw [hhead]
          exact hstop.1
        · exact hne file htail
      · rw [clustersOf_cons]
        omega

/-- An image with its table: the boot sector, two copies of the table, the files. -/
structure Built (boot : Bytes) (files : List (Bytes × Bytes)) (image fat : Bytes) : Prop where
  length : image.length = imageSize
  boot : slice image 0 512 = boot
  table : fat.length = fatSize
  first : slice image sectorSize (sectorSize + fatSize) = fat
  second : slice image (sectorSize + fatSize) (sectorSize + 2 * fatSize) = fat
  files : AllFiled image fat 0 2 files

theorem AllFiled.above {files : List (Bytes × Bytes)} {image' : Bytes}
    (h : AllFiled image fat index first files) (himage : ∀ i, rootStart ≤ i → image'[i]? = image[i]?) :
    AllFiled image' fat index first files := by
  induction files generalizing index first with
  | nil => trivial
  | cons file files ih =>
    obtain ⟨hfiled, hrest⟩ := h
    refine ⟨⟨?_, hfiled.link, ?_⟩, ih hrest⟩
    · rw [← hfiled.entry]
      apply List.ext_getElem?
      intro i
      rw [getElem?_slice, getElem?_slice, himage _ (by omega)]
    · intro i hi
      have hlayout := layout
      have hstart := clusterStart_eq first
      rw [himage _ (by omega)]
      exact hfiled.bytes i hi

theorem sound_start (hboot : boot.length = 512) : Sound boot
    ⟨splice (List.replicate imageSize 0) 0 sectorSize boot,
      splice (List.replicate fatSize 0) 0 3 [0xf0, 0xff, 0xff], 2⟩ := by
  have hlayout := layout
  have hsize : (List.replicate imageSize (0 : BitVec 8)).length = imageSize := List.length_replicate
  have htable : (List.replicate fatSize (0 : BitVec 8)).length = fatSize := List.length_replicate
  have hsector : sectorSize = 512 := rfl
  constructor
  · exact (length_splice (by omega) (by omega) (by omega)).trans hsize
  · exact (length_splice (by omega) (by rfl) (by omega)).trans htable
  · exact le_rfl
  · exact slice_splice_same (by omega) (by omega)
  · intro i hi hfree
    have hstart := clusterStart_eq 2
    replace hfree : clusterStart 2 ≤ i := hfree
    change (splice (List.replicate imageSize 0) 0 sectorSize boot)[i]? = _
    rw [getElem?_splice (by omega) (by omega), if_neg (by omega), List.getElem?_replicate, if_pos hi]

theorem build_eq {files : List (Bytes × Bytes)} (hboot : boot.length = 512)
    (hnames : ∀ file ∈ files, file.1.length = 11) (hne : ∀ file ∈ files, file.2 ≠ [])
    (hindex : files.length ≤ 224) (hhigh : 2 + clustersOf files ≤ clusterEnd) :
    ∃ image fat, build boot files = some image ∧ Built boot files image fat := by
  have hlayout := layout
  have hsector : sectorSize = 512 := rfl
  have hentries : 0 + files.length ≤ 224 := by omega
  obtain ⟨b, hrun, hsound, hfiles, -⟩ := addFiles_eq (sound_start hboot) hnames hne hentries hhigh
  have himage := hsound.image
  have hfat := hsound.fat
  have hlength : (splice b.image sectorSize (sectorSize + fatSize) b.fat).length = imageSize := by
    rw [length_splice (by omega) (by omega) (by omega), himage]
  refine ⟨_, b.fat, by rw [build, hrun]; rfl, ?_⟩
  constructor
  · rw [length_splice (by omega) (by omega) (by omega), hlength]
  · rw [slice_splice_outside (by omega) (by omega) (by omega),
      slice_splice_outside (by omega) (by omega) (by omega), hsound.boot]
  · exact hfat
  · rw [slice_splice_outside (by omega) (by omega) (by omega), slice_splice_same (by omega) (by omega)]
  · rw [slice_splice_same (by omega) (by omega)]
  · apply hfiles.above
    intro i hi
    rw [getElem?_splice (by omega) (by omega), if_neg (by omega), getElem?_splice (by omega) (by omega),
      if_neg (by omega)]

section Check

variable (hfiled : Filed image fat index name content first) (himage : image.length = imageSize)
  (hlow : 2 ≤ first) (hhigh : first + clusterCount content ≤ clusterEnd)

include hfiled hlow hhigh in
/-- One visit of a cluster of the file, behind all clusters seen so far. -/
theorem Filed.walkStep (hi : i < clusterCount content) :
    walkStep image fat ⟨first + i, List.range' 2 (first + i - 2),
        slice image (clusterStart first) (clusterStart first + 512 * i)⟩ =
      .inl ⟨if i = clusterCount content - 1 then 0xfff else first + (i + 1),
        List.range' 2 (first + (i + 1) - 2),
        slice image (clusterStart first) (clusterStart first + 512 * (i + 1))⟩ := by
  have hlayout := layout
  have hnew : first + i ∉ List.range' 2 (first + i - 2) := by
    rw [List.mem_range'_1]
    omega
  have hseen : List.range' 2 (first + i - 2) ++ [first + i] = List.range' 2 (first + (i + 1) - 2) := by
    have hcount : first + (i + 1) - 2 = first + i - 2 + 1 := by omega
    have hlast : 2 + (first + i - 2) = first + i := by omega
    rw [hcount, List.range'_1_concat, hlast]
  have hsector : sectorOf image (first + i) =
      slice image (clusterStart first + 512 * i) (clusterStart first + 512 * (i + 1)) := by
    have hstart := clusterStart_add hlow i
    change slice image (clusterStart (first + i)) (clusterStart (first + i) + 512) = _
    rw [hstart, Nat.mul_succ, Nat.add_assoc]
  have hmark : first + i < 0xff8 := by omega
  have hinside : 2 ≤ first + i ∧ first + i < clusterEnd ∧ first + i ∉ List.range' 2 (first + i - 2) := by
    refine ⟨?_, ?_, hnew⟩ <;> omega
  unfold Floppy.walkStep
  dsimp only
  rw [if_pos hmark, if_pos hinside, hfiled.link i hi, hseen, hsector,
    slice_append (by omega) (by omega), Nat.add_assoc]

include hfiled hlow hhigh in
/-- The rest of the chain, `k` clusters. -/
theorem Filed.walk (hk : i + k = clusterCount content) (hpos : 0 < k) {fuel : ℕ} (hfuel : k < fuel) :
    Loop.run (Floppy.walkStep image fat) fuel ⟨first + i, List.range' 2 (first + i - 2),
        slice image (clusterStart first) (clusterStart first + 512 * i)⟩ =
      some (true, ⟨0xfff, List.range' 2 (first + clusterCount content - 2),
        slice image (clusterStart first) (clusterStart first + 512 * clusterCount content)⟩) := by
  induction k generalizing i fuel with
  | zero => exact absurd hpos (Nat.lt_irrefl 0)
  | succ k ih =>
    obtain ⟨fuel, rfl⟩ : ∃ f, fuel = f + 1 := ⟨fuel - 1, by omega⟩
    have hstep := hfiled.walkStep hlow hhigh (i := i) (by omega)
    rw [Loop.run_continue hstep]
    by_cases hlast : i = clusterCount content - 1
    · obtain ⟨fuel, rfl⟩ : ∃ f, fuel = f + 1 := ⟨fuel - 1, by omega⟩
      have hcount : i + 1 = clusterCount content := by omega
      rw [if_pos hlast, hcount]
      have hend : ¬(0xfff : ℕ) < 0xff8 := by decide
      exact Loop.run_exit (if_neg hend)
    · rw [if_neg hlast]
      exact ih (by omega) (by omega) (by omega)

include hfiled himage hlow hhigh in
/-- The bytes of the clusters begin with the file. -/
theorem Filed.sectors : (slice image (clusterStart first)
      (clusterStart first + 512 * clusterCount content)).take content.length = content ∧
    (slice image (clusterStart first) (clusterStart first + 512 * clusterCount content)).length =
      512 * clusterCount content := by
  have hlayout := layout
  have hcount := clusterCount_bounds content
  have hstart := clusterStart_eq first
  constructor
  · apply List.ext_getElem?
    intro i
    rw [List.getElem?_take, getElem?_slice]
    by_cases hi : i < content.length
    · rw [if_pos hi, if_pos (by omega), hfiled.bytes i (by omega), List.getElem?_eq_getElem hi,
        List.getD_eq_getElem _ _ hi]
    · rw [if_neg hi, List.getElem?_eq_none (by omega)]
  · rw [length_slice_of_le (by omega), Nat.add_sub_cancel_left]

include hfiled himage hlow hhigh in
theorem Filed.checkFile (hname : name.length = 11) (hne : content ≠ []) {fuel : ℕ}
    (hfuel : 2848 ≤ fuel) :
    checkFile fuel image fat index (name, content) (List.range' 2 (first - 2)) =
      some ⟨true, List.range' 2 (first + clusterCount content - 2)⟩ := by
  have hlayout := layout
  have hcount := clusterCount_bounds content
  have hpos := List.length_pos_of_ne_nil hne
  have htitle := slice_name hname first content.length
  have hcluster := slice_cluster hname (show first < 65536 by omega) content.length
  have hsize := slice_size hname first (show content.length < 2 ^ 32 by omega)
  have hlength := length_directoryEntry hname first content.length
  have hfuel' : clusterCount content < fuel := by omega
  have hwalk := hfiled.walk hlow hhigh (i := 0) (by omega) (by omega) hfuel'
  have hempty : slice image (clusterStart first) (clusterStart first + 512 * 0) = [] := by
    rw [slice, Nat.mul_zero, Nat.add_zero, Nat.sub_self, List.take_zero]
  rw [hempty, Nat.add_zero] at hwalk
  obtain ⟨hbytes, hsectors⟩ := hfiled.sectors himage hlow hhigh
  have hmultiple : 512 * clusterCount content =
      (content.length + sectorSize - 1) / sectorSize * sectorSize :=
    Nat.mul_comm _ _
  unfold Floppy.checkFile
  dsimp only
  rw [hfiled.entry, htitle, hcluster, hsize, hlength, if_neg (by simp), if_neg (by simp), hwalk,
    Option.bind_eq_bind, Option.bind_some]
  dsimp only
  rw [if_neg (by decide), hbytes, if_neg (by simp), hsectors, decide_eq_true hmultiple]
  rfl

end Check

theorem AllFiled.checkFiles {files : List (Bytes × Bytes)} (h : AllFiled image fat index first files)
    (himage : image.length = imageSize) (hlow : 2 ≤ first) (hhigh : first + clustersOf files ≤ clusterEnd)
    (hnames : ∀ file ∈ files, file.1.length = 11) (hne : ∀ file ∈ files, file.2 ≠ [])
    {fuel : ℕ} (hfuel : 2848 ≤ fuel) :
    checkFiles fuel image fat index files (List.range' 2 (first - 2)) =
      some ⟨true, List.range' 2 (first + clustersOf files - 2)⟩ := by
  induction files generalizing index first with
  | nil => rfl
  | cons file files ih =>
    obtain ⟨name, content⟩ := file
    obtain ⟨hfiled, hrest⟩ := h
    rw [clustersOf_cons] at hhigh
    have hfirst := hfiled.checkFile himage hlow (by omega) (hnames _ List.mem_cons_self)
      (hne _ List.mem_cons_self) hfuel
    have hothers := ih hrest (by omega) (by omega)
      (fun file hfile => hnames file (List.mem_cons_of_mem _ hfile))
      fun file hfile => hne file (List.mem_cons_of_mem _ hfile)
    rw [Floppy.checkFiles, hfirst, Option.bind_eq_bind, Option.bind_some, if_pos rfl, hothers,
      clustersOf_cons, Nat.add_assoc]

/-- The check accepts what the builder built, having visited every cluster given out. -/
theorem Built.check {files : List (Bytes × Bytes)} (h : Built boot files image fat)
    (hboot : slice boot 510 512 = [0x55, 0xaa]) (hhigh : 2 + clustersOf files ≤ clusterEnd)
    (hnames : ∀ file ∈ files, file.1.length = 11) (hne : ∀ file ∈ files, file.2 ≠ [])
    {fuel : ℕ} (hfuel : 2848 ≤ fuel) :
    check fuel image files = some ⟨true, List.range' 2 (clustersOf files)⟩ := by
  have hmark : slice image 510 512 = [0x55, 0xaa] := by
    rw [← hboot, ← h.boot, slice_slice (by omega)]
  have hfiles := h.files.checkFiles h.length le_rfl hhigh hnames hne hfuel
  rw [Nat.add_sub_cancel_left] at hfiles
  rw [Floppy.check, if_pos ⟨h.length, hmark⟩]
  dsimp only
  rw [h.first, h.second, if_pos rfl]
  exact hfiles

/-- The assertions of `main`. -/
structure Accepted (boot loader kernel : Bytes) : Prop where
  length : boot.length = 512
  signature : slice boot 510 512 = [0x55, 0xaa]
  bpb : unpackBpb boot = [512, 1, 1, 2, 224, 2880, 0xf0, 9, 18, 2]
  loader_ne : loader ≠ []
  loader_lt : loader.length < 65536
  kernel_ne : kernel ≠ []
  fits : 2 + clusterCount loader + clusterCount kernel ≤ clusterEnd

def filesOf (loader kernel : Bytes) : List (Bytes × Bytes) :=
  [(loaderName, loader), (kernelName, kernel)]

variable {loader kernel : Bytes}

theorem clustersOf_filesOf (loader kernel : Bytes) :
    clustersOf (filesOf loader kernel) = clusterCount loader + clusterCount kernel := by
  rw [filesOf, clustersOf_cons, clustersOf_cons]
  rfl

theorem filesOf_names (loader kernel : Bytes) : ∀ file ∈ filesOf loader kernel, file.1.length = 11 := by
  simp [filesOf, loaderName, kernelName]

theorem Accepted.nonempty (h : Accepted boot loader kernel) :
    ∀ file ∈ filesOf loader kernel, file.2 ≠ [] := by
  simp [filesOf, h.loader_ne, h.kernel_ne]

/-- Accepted files are built, and the check goes through. -/
theorem main_eq (h : Accepted boot loader kernel) :
    ∃ image fat, Built boot (filesOf loader kernel) image fat ∧
      (∀ fuel ≥ 2848, ∃ seen, check fuel image (filesOf loader kernel) = some ⟨true, seen⟩) ∧
      ∀ fuel ≥ 2848, main fuel boot loader kernel = some image := by
  have hhigh : 2 + clustersOf (filesOf loader kernel) ≤ clusterEnd := by
    rw [clustersOf_filesOf, ← Nat.add_assoc]
    exact h.fits
  obtain ⟨image, fat, hbuild, hbuilt⟩ := build_eq h.length (filesOf_names loader kernel) h.nonempty
    (by simp [filesOf]) hhigh
  have hcheck : ∀ fuel ≥ 2848, check fuel image (filesOf loader kernel) =
      some ⟨true, List.range' 2 (clustersOf (filesOf loader kernel))⟩ := by
    intro fuel hfuel
    exact hbuilt.check h.signature hhigh (filesOf_names loader kernel) h.nonempty hfuel
  have hasserts : boot.length = sectorSize ∧ slice boot (boot.length - 2) boot.length = [0x55, 0xaa] ∧
      unpackBpb boot = [512, 1, 1, 2, 224, 2880, 0xf0, 9, 18, 2] ∧
      0 < loader.length ∧ loader.length < 65536 := by
    refine ⟨h.length, ?_, h.bpb, List.length_pos_of_ne_nil h.loader_ne, h.loader_lt⟩
    rw [h.length]
    exact h.signature
  refine ⟨image, fat, hbuilt, fun fuel hfuel => ⟨_, hcheck fuel hfuel⟩, fun fuel hfuel => ?_⟩
  rw [filesOf] at hbuild hcheck
  rw [main, if_pos hasserts, hbuild, Option.bind_eq_bind, Option.bind_some, hcheck fuel hfuel]
  rfl

theorem main_some {fuel : ℕ} (h : main fuel boot loader kernel = some image) :
    Accepted boot loader kernel := by
  rw [main] at h
  split_ifs at h with hasserts
  obtain ⟨hlength, hsignature, hbpb, hpos, hshort⟩ := hasserts
  rw [Option.bind_eq_bind, Option.bind_eq_some_iff] at h
  obtain ⟨built, hbuild, -⟩ := h
  rw [build, Option.bind_eq_bind, Option.bind_eq_some_iff] at hbuild
  obtain ⟨b, hrun, -⟩ := hbuild
  obtain ⟨hne, hhigh⟩ := addFiles_some (show 2 ≤ clusterEnd by decide) hrun
  have hsum := clustersOf_filesOf loader kernel
  rw [filesOf] at hsum
  rw [hsum, ← Nat.add_assoc] at hhigh
  constructor
  · exact hlength
  · rw [hlength] at hsignature
    exact hsignature
  · exact hbpb
  · exact List.ne_nil_of_length_pos hpos
  · exact hshort
  · exact hne (kernelName, kernel) (by simp)
  · exact hhigh

/-- `main` writes an image exactly if its assertions before the check hold. -/
theorem main_iff :
    (∃ image, main 2848 boot loader kernel = some image) ↔ Accepted boot loader kernel := by
  constructor
  · intro h
    obtain ⟨image, himage⟩ := h
    exact main_some himage
  · intro h
    obtain ⟨image, fat, -, -, hmain⟩ := main_eq h
    exact ⟨image, hmain 2848 le_rfl⟩

end MikoOS.Floppy
