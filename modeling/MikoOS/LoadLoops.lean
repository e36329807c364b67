import MikoOS.FatReader
import MikoOS.ImageCheck

/-!
# The load loops of Boot and Loader

`_Go_On_Loading_File`: the sector of the current cluster is read and stored away, then the entry of
the cluster decides whether the loop goes on. Boot stores at ES:BX behind the last sector; Loader reads
into a fixed buffer and `_CopyKernelSector` moves it above 1 MiB, after a probe of the A20 gate. The
loops stop at the entry 0xFFF only, while the check of the image stops at every entry from 0xFF8 on.
-/

namespace MikoOS

open ByteMemory ByteString

/-- The loop's variables: the sector number in AX, the cluster on the stack, where the next sector
goes, memory, and the sectors read so far. -/
structure Loading (π : Type) where
  ax : BitVec 16
  cluster : BitVec 16
  place : π
  ram : Memory
  sectors : List (BitVec 16)

/-- One iteration; `false` is an iteration that does not come back. -/
def loadStep {π : Type} (bpb : Bpb) (drive : Drive)
    (transfer : BitVec 16 → π → Memory → Option (π × Memory)) (advance : π → π) (s : Loading π) :
    Loading π ⊕ (Bool × Loading π) :=
  let s := { s with sectors := s.sectors ++ [s.ax] }
  match transfer s.ax s.place s.ram with
  | none => .inr (false, s)
  | some (place, ram) =>
    match getFATEntryFunc bpb drive s.cluster ram with
    | none => .inr (false, { s with place := place, ram := ram })
    | some (ax, ram) =>
      if ax = 0x0fff then .inr (true, { s with place := place, ram := ram })
      else .inl { s with
        ax := ax + bpb.rootDirSectors + bpb.sectorBalance
        cluster := ax
        place := advance place
        ram := ram }

/-- The state at the label, for a file that starts at `cluster`. -/
def Loading.first {π : Type} (bpb : Bpb) (cluster : BitVec 16) (place : π) (ram : Memory) : Loading π :=
  ⟨cluster + bpb.rootDirSectors + bpb.sectorBalance, cluster, place, ram, []⟩

namespace Boot

def baseOfLoader : BitVec 16 := 0x1000

def readSector (drive : Drive) (ax bx : BitVec 16) (ram : Memory) : Option (BitVec 16 × Memory) := do
  let ram ← readOneSectorFunc bpb drive ax 1 baseOfLoader bx ram
  return (bx, ram)

/-- BX moves on before the next iteration. -/
def goOnLoadingFile (drive : Drive) :
    Loading (BitVec 16) → Loading (BitVec 16) ⊕ (Bool × Loading (BitVec 16)) :=
  loadStep bpb drive (readSector drive) fun bx => bx + bpb.bytesPerSector

end Boot

namespace Loader

def offsetTempOfKernelFile : BitVec 16 := 0x7e00

/-- The physical address behind `address` with the A20 gate open or closed. -/
def gated (a20 : Bool) (address : ℕ) : ℕ :=
  if a20 = false ∧ address.testBit 20 then address - 2 ^ 20 else address

/-- The probe and the copy; `none` is the halt after a closed gate was found. The value is the
destination of the next sector. -/
def copyKernelSector (a20 : Bool) (destination : BitVec 32) (ram : Memory) :
    Option (BitVec 32 × Memory) :=
  let bl := ram (gated a20 0x500)
  let bh := ram (gated a20 0x100500)
  let ram := store8 ram (gated a20 0x500) 0
  let ram := store8 ram (gated a20 0x100500) 0xff
  let dl := ram (gated a20 0x500)
  let ram := store8 ram (gated a20 0x100500) bh
  let ram := store8 ram (gated a20 0x500) bl
  if dl ≠ 0 then none
  else some (destination + 512, copyForward ram destination.toNat offsetTempOfKernelFile.toNat 512)

def readSector (a20 : Bool) (drive : Drive) (ax : BitVec 16) (destination : BitVec 32) (ram : Memory) :
    Option (BitVec 32 × Memory) := do
  let ram ← readOneSectorFunc bpb drive ax 1 0 offsetTempOfKernelFile ram
  copyKernelSector a20 destination ram

def goOnLoadingFile (a20 : Bool) (drive : Drive) :
    Loading (BitVec 32) → Loading (BitVec 32) ⊕ (Bool × Loading (BitVec 32)) :=
  loadStep bpb drive (readSector a20 drive) id

theorem gated_open (address : ℕ) : gated true address = address := if_neg (by simp)

/-- With the gate open the probe changes nothing. -/
theorem copyKernelSector_open (destination : BitVec 32) (ram : Memory) :
    copyKernelSector true destination ram =
      some (destination + 512, copyForward ram destination.toNat offsetTempOfKernelFile.toNat 512) := by
  have hlow : store8 (store8 ram 0x500 0) 0x100500 0xff 0x500 = 0 := by
    rw [store8_outside (by decide), store8_self]
  have hram : store8 (store8 (store8 (store8 ram 0x500 0) 0x100500 0xff) 0x100500 (ram 0x100500)) 0x500
      (ram 0x500) = ram := by
    funext x
    by_cases hx : x = 0x500
    · rw [hx, store8_self]
    · rw [store8_outside hx]
      by_cases hy : x = 0x100500
      · rw [hy, store8_self]
      · rw [store8_outside hy, store8_outside hy, store8_outside hx]
  simp only [copyKernelSector, gated_open]
  rw [hlow, hram, if_neg (by simp)]

/-- With the gate closed the two probed bytes are one. -/
theorem copyKernelSector_closed (destination : BitVec 32) (ram : Memory) :
    copyKernelSector false destination ram = none := by
  have hlow : gated false 0x500 = 0x500 := by decide
  have hhigh : gated false 0x100500 = 0x500 := by decide
  simp only [copyKernelSector, hlow, hhigh]
  rw [store8_self]
  exact if_pos (by decide)

end Loader

section Loop

variable {π : Type} {drive : Drive} {fat : Bytes}
  {transfer : BitVec 16 → π → Memory → Option (π × Memory)} {advance : π → π} {s : Loading π}
  {c : ℕ}

/-- The loop is about to read the sector of cluster `c`. -/
structure Loading.At (s : Loading π) (c : ℕ) : Prop where
  ax : s.ax = BitVec.ofNat 16 (c + 31)
  cluster : s.cluster = BitVec.ofNat 16 c

/-- The state after the sector of `c` was stored and its entry read. -/
def Loading.stored (s : Loading π) (drive : Drive) (c : ℕ) (place : π) (ram : Memory) : Loading π :=
  { s with
    place := place
    ram := placeEntry drive c ram
    sectors := s.sectors ++ [BitVec.ofNat 16 (c + 31)] }

/-- The state before the sector of cluster `next` is read. -/
def Loading.goOn (s : Loading π) (advance : π → π) (next : ℕ) : Loading π :=
  { s with
    ax := BitVec.ofNat 16 (next + 31)
    cluster := BitVec.ofNat 16 next
    place := advance s.place }

theorem Loading.at_goOn (s : Loading π) (advance : π → π) (next : ℕ) : (s.goOn advance next).At next :=
  ⟨rfl, rfl⟩

/-- An iteration at a cluster of the data area reads its sector and stops at the entry 0xFFF only. -/
theorem loadStep_eq (advance : π → π) (hfat : drive.HoldsFat fat) (hs : s.At c)
    (hc : c < Floppy.clusterEnd) {place : π} {ram : Memory}
    (hplace : transfer (BitVec.ofNat 16 (c + 31)) s.place s.ram = some (place, ram)) :
    loadStep Boot.bpb drive transfer advance s =
      if Floppy.fatEntry fat c = 0xfff then .inr (true, s.stored drive c place ram)
      else .inl ((s.stored drive c place ram).goOn advance (Floppy.fatEntry fat c)) := by
  have hc' : c < 2849 := hc
  have hlength : fat.length = 4608 := hfat.length
  have hentry := getFATEntryFunc_eq hfat ram (c := c) (by omega)
  have hlt : Floppy.fatEntry fat c < 2 ^ 12 := Floppy.fatEntry_lt
  have hmark : BitVec.ofNat 16 (Floppy.fatEntry fat c) = 0x0fff ↔ Floppy.fatEntry fat c = 0xfff := by
    constructor
    · intro heq
      have hnat := congrArg BitVec.toNat heq
      rw [BitVec.toNat_ofNat, Nat.mod_eq_of_lt (hlt.trans (by decide))] at hnat
      exact hnat
    · intro heq
      rw [heq]
      rfl
  have hax : BitVec.ofNat 16 (Floppy.fatEntry fat c) + Boot.bpb.rootDirSectors +
      Boot.bpb.sectorBalance = BitVec.ofNat 16 (Floppy.fatEntry fat c + 31) := by
    rw [BitVec.ofNat_add, BitVec.add_assoc]
    rfl
  unfold loadStep
  simp only [hs.ax, hplace, hs.cluster, hentry, hmark, hax]
  rw [Loading.goOn, Loading.stored, hs.ax, hs.cluster]

/-- Whatever happens, an iteration reads a sector. -/
theorem loadStep_reads (drive : Drive)
    (transfer : BitVec 16 → π → Memory → Option (π × Memory)) (advance : π → π) (s : Loading π) :
    (loadStep Boot.bpb drive transfer advance s).elim (fun t => t.sectors = s.sectors ++ [s.ax])
      fun r => r.2.sectors = s.sectors ++ [s.ax] := by
  unfold loadStep
  dsimp only
  split
  · exact rfl
  · split
    · exact rfl
    · split
      · exact rfl
      · exact rfl

theorem run_reads {fuel : ℕ} {r : Bool × Loading π}
    (h : Loop.run (loadStep Boot.bpb drive transfer advance) fuel s = some r) :
    s.sectors.length < r.2.sectors.length := by
  cases fuel with
  | zero => simp [Loop.run] at h
  | succ fuel =>
    have hreads := loadStep_reads drive transfer advance s
    cases hbody : loadStep Boot.bpb drive transfer advance s with
    | inl t =>
      rw [hbody] at hreads
      rw [Loop.run_continue hbody] at h
      have hle : t.sectors.length ≤ r.2.sectors.length := by
        apply Loop.run_of_invariant (fun u : Loading π => t.sectors.length ≤ u.sectors.length)
          (fun r => t.sectors.length ≤ r.2.sectors.length) _ le_rfl h
        intro u hu
        have hnext := loadStep_reads drive transfer advance u
        cases hstep : loadStep Boot.bpb drive transfer advance u with
        | inl v =>
          rw [hstep] at hnext
          change v.sectors = _ at hnext
          change _ ≤ v.sectors.length
          rw [hnext, List.length_append]
          omega
        | inr v =>
          rw [hstep] at hnext
          change v.2.sectors = _ at hnext
          change _ ≤ v.2.sectors.length
          rw [hnext, List.length_append]
          omega
      change t.sectors = _ at hreads
      rw [hreads, List.length_append, List.length_singleton] at hle
      omega
    | inr u =>
      rw [hbody] at hreads
      rw [Loop.run_exit hbody, Option.some.injEq] at h
      change u.2.sectors = _ at hreads
      rw [← h, hreads, List.length_append, List.length_singleton]
      omega

/-- The loop reads the sectors of exactly these clusters, in this order, and then stops. -/
def Reads (step : Loading π → Loading π ⊕ (Bool × Loading π)) (s : Loading π) (clusters : List ℕ) :
    Prop :=
  ∃ fuel t, Loop.run step fuel s = some (true, t) ∧
    t.sectors.map BitVec.toNat = s.sectors.map BitVec.toNat ++ clusters.map (· + 31)

/-- Every sector of the medium can be stored away. -/
def Transfers (transfer : BitVec 16 → π → Memory → Option (π × Memory)) : Prop :=
  ∀ lba < 2880, ∀ place ram, ∃ stored, transfer (BitVec.ofNat 16 lba) place ram = some stored

/-- Along a path through the data area the loop reads one cluster after the other. Behind the last one
it stops if the path ends in 0xFFF, and otherwise goes on. -/
theorem load_path (advance : π → π) (hfat : drive.HoldsFat fat) (htransfer : Transfers transfer)
    {clusters : List ℕ} {stop : ℕ} (hs : s.At c) (hpath : Floppy.Path fat c clusters stop)
    (hne : clusters ≠ []) (hinside : ∀ c ∈ clusters, c < Floppy.clusterEnd) :
    ∃ t : Loading π, t.sectors.map BitVec.toNat = s.sectors.map BitVec.toNat ++ clusters.map (· + 31) ∧
      ∀ fuel, Loop.run (loadStep Boot.bpb drive transfer advance) (clusters.length + fuel) s =
        if stop = 0xfff then some (true, t)
        else Loop.run (loadStep Boot.bpb drive transfer advance) fuel t := by
  induction clusters generalizing s c with
  | nil => exact absurd rfl hne
  | cons cluster clusters ih =>
    obtain ⟨rfl, hpath⟩ := hpath
    have hc : c < 2849 := hinside c List.mem_cons_self
    obtain ⟨stored, hstored⟩ := htransfer (c + 31) (by omega) s.place s.ram
    have hstep := loadStep_eq advance hfat hs hc hstored
    have hsector : (BitVec.ofNat 16 (c + 31)).toNat = c + 31 := by
      rw [BitVec.toNat_ofNat]
      omega
    have hread : (s.stored drive c stored.1 stored.2).sectors.map BitVec.toNat =
        s.sectors.map BitVec.toNat ++ [c + 31] := by
      change (s.sectors ++ [BitVec.ofNat 16 (c + 31)]).map BitVec.toNat = _
      rw [List.map_append, List.map_singleton, hsector]
    have hcount : ∀ fuel, (c :: clusters).length + fuel = clusters.length + fuel + 1 := by
      intro fuel
      rw [List.length_cons]
      omega
    cases clusters with
    | nil =>
      have hstop : Floppy.fatEntry fat c = stop := hpath
      rw [hstop] at hstep
      by_cases hmark : stop = 0xfff
      · refine ⟨s.stored drive c stored.1 stored.2, hread, fun fuel => ?_⟩
        rw [if_pos hmark] at hstep ⊢
        rw [hcount, Loop.run_exit hstep]
      · refine ⟨(s.stored drive c stored.1 stored.2).goOn advance stop, hread, fun fuel => ?_⟩
        rw [if_neg hmark] at hstep ⊢
        rw [hcount, Loop.run_continue hstep, List.length_nil, Nat.zero_add]
    | cons next clusters =>
      have hnext : Floppy.fatEntry fat c = next := hpath.1
      have hlt : next < 2849 := hinside next (List.mem_cons_of_mem c List.mem_cons_self)
      rw [hnext, if_neg (by omega)] at hstep
      rw [hnext] at hpath
      obtain ⟨t, ht, hrun⟩ := ih ((s.stored drive c stored.1 stored.2).at_goOn advance next) hpath
        (List.cons_ne_nil _ _) fun a ha => hinside a (List.mem_cons_of_mem c ha)
      refine ⟨t, ?_, fun fuel => ?_⟩
      · rw [ht]
        change (s.stored drive c stored.1 stored.2).sectors.map BitVec.toNat ++ _ = _
        rw [hread, List.append_assoc, List.singleton_append, ← List.map_cons (f := (· + 31))]
      · rw [hcount, Loop.run_continue hstep]
        exact hrun fuel

theorem reads_iff (hfat : drive.HoldsFat fat) (htransfer : Transfers transfer) {clusters : List ℕ}
    {stop : ℕ} (hs : s.At c) (hpath : Floppy.Path fat c clusters stop) (hne : clusters ≠ [])
    (hinside : ∀ c ∈ clusters, c < Floppy.clusterEnd) :
    Reads (loadStep Boot.bpb drive transfer advance) s clusters ↔ stop = 0xfff := by
  obtain ⟨t, ht, hrun⟩ := load_path advance hfat htransfer hs hpath hne hinside
  constructor
  · intro hreads
    obtain ⟨fuel, u, hu, hsectors⟩ := hreads
    by_contra hmark
    -- the loop is still running behind the chain, so it reads at least one more sector
    have hmore := Loop.run_mono (Nat.le_add_left fuel clusters.length) hu
    rw [hrun, if_neg hmark] at hmore
    have hlt := run_reads hmore
    have hlength := congrArg List.length (hsectors.trans ht.symm)
    rw [List.length_map, List.length_map] at hlength
    dsimp only at hlt
    omega
  · intro hmark
    refine ⟨clusters.length + 0, t, ?_, ht⟩
    rw [hrun, if_pos hmark]

end Loop

theorem Boot.transfers (drive : Drive) : Transfers (Boot.readSector drive) := by
  intro lba hlba bx ram
  have hread := readOneSectorFunc_eq drive ram hlba (show lba % 18 + (1 : BitVec 8).toNat ≤ 18 by
    change lba % 18 + 1 ≤ 18
    omega) Boot.baseOfLoader bx
  rw [Boot.readSector, hread]
  exact ⟨_, rfl⟩

theorem Loader.transfers (drive : Drive) : Transfers (Loader.readSector true drive) := by
  intro lba hlba destination ram
  have hread := readOneSectorFunc_eq drive ram hlba (show lba % 18 + (1 : BitVec 8).toNat ≤ 18 by
    change lba % 18 + 1 ≤ 18
    omega) 0 Loader.offsetTempOfKernelFile
  rw [Loader.readSector]
  change ∃ stored, (readOneSectorFunc Boot.bpb drive _ 1 0 _ ram >>= _) = some stored
  rw [hread, Option.bind_eq_bind, Option.bind_some, Loader.copyKernelSector_open]
  exact ⟨_, rfl⟩

theorem Floppy.Path.getLast {fat : Bytes} {start stop : ℕ} {clusters : List ℕ}
    (h : Floppy.Path fat start clusters stop) (hne : clusters ≠ []) :
    Floppy.fatEntry fat (clusters.getLast hne) = stop := by
  induction clusters generalizing start with
  | nil => exact absurd rfl hne
  | cons cluster clusters ih =>
    cases clusters with
    | nil => exact h.2
    | cons next clusters =>
      rw [List.getLast_cons (List.cons_ne_nil _ _)]
      exact ih h.2 (List.cons_ne_nil _ _)

theorem Loading.first_at {π : Type} (c : ℕ) (place : π) (ram : Memory) :
    (Loading.first Boot.bpb (BitVec.ofNat 16 c) place ram).At c := by
  refine ⟨?_, rfl⟩
  change BitVec.ofNat 16 c + 14 + 17 = _
  rw [BitVec.ofNat_add, BitVec.add_assoc]
  rfl

section Agreement

variable (fat : Fat) (drive : Drive) (ram : Memory)

/-- Both loops from the start of a file, the gate being open or closed for the Loader. -/
def BothRead (a20 : Bool) (start : ℕ) (bx : BitVec 16) (destination : BitVec 32) (clusters : List ℕ) : Prop :=
  Reads (Boot.goOnLoadingFile (drive.insert fat))
      (Loading.first Boot.bpb (BitVec.ofNat 16 start) bx ram) clusters ∧
    Reads (Loader.goOnLoadingFile a20 (drive.insert fat))
      (Loading.first Loader.bpb (BitVec.ofNat 16 start) destination ram) clusters

theorem path_reads_iff {start stop : ℕ} {clusters : List ℕ}
    (hpath : Floppy.Path fat.bytes start clusters stop) (hne : clusters ≠ [])
    (hinside : ∀ c ∈ clusters, c < Floppy.clusterEnd) (bx : BitVec 16) (destination : BitVec 32) :
    (Reads (Boot.goOnLoadingFile (drive.insert fat))
        (Loading.first Boot.bpb (BitVec.ofNat 16 start) bx ram) clusters ↔ stop = 0xfff) ∧
      (Reads (Loader.goOnLoadingFile true (drive.insert fat))
        (Loading.first Loader.bpb (BitVec.ofNat 16 start) destination ram) clusters ↔ stop = 0xfff) :=
  ⟨reads_iff (drive.insert_holds fat) (Boot.transfers _) (Loading.first_at start bx ram) hpath hne
      hinside,
    reads_iff (drive.insert_holds fat) (Loader.transfers _) (Loading.first_at start destination ram)
      hpath hne hinside⟩

/-- Behind a closed gate the Loader does not get past its first sector. -/
theorem Loader.not_reads_closed (drive : Drive) (s : Loading (BitVec 32)) (clusters : List ℕ) :
    ¬Reads (Loader.goOnLoadingFile false drive) s clusters := by
  intro hreads
  obtain ⟨fuel, t, hrun, -⟩ := hreads
  have htransfer : ∀ ax destination ram, Loader.readSector false drive ax destination ram = none := by
    intro ax destination ram
    rw [Loader.readSector, Option.bind_eq_bind, Option.bind_eq_none_iff]
    intro ram' _
    exact Loader.copyKernelSector_closed _ _
  have hstep : Loader.goOnLoadingFile false drive s =
      .inr (false, { s with sectors := s.sectors ++ [s.ax] }) := by
    rw [Loader.goOnLoadingFile, loadStep]
    simp only [htransfer]
  cases fuel with
  | zero => simp [Loop.run] at hrun
  | succ fuel =>
    rw [Loop.run_exit hstep] at hrun
    cases hrun

/-- A chain the check walks to its end is loaded exactly if the entry of its last cluster is 0xFFF and, for
the Loader, the gate is open. -/
theorem load_chain_iff (a20 : Bool) (image : Bytes) (fuel start : ℕ) (seen : List ℕ) (w : Floppy.Walk)
    (hwalk : Loop.run (Floppy.walkStep image fat.bytes) fuel ⟨start, seen, []⟩ = some (true, w))
    (clusters : List ℕ) (hseen : w.seen = seen ++ clusters) (hne : clusters ≠ [])
    (bx : BitVec 16) (destination : BitVec 32) :
    BothRead fat drive ram a20 start bx destination clusters ↔
      Floppy.fatEntry fat.bytes (clusters.getLast hne) = 0xfff ∧ a20 = true := by
  obtain ⟨walked, hpath, hsplit, hinside, -⟩ := Floppy.walk_ended hwalk
  obtain rfl : walked = clusters := List.append_cancel_left (hsplit.symm.trans hseen)
  obtain ⟨hboot, hloader⟩ := path_reads_iff fat drive ram hpath hne (fun c hc => (hinside c hc).2) bx
    destination
  rw [BothRead, hboot, hpath.getLast hne]
  cases a20 with
  | true => rw [hloader, and_self, and_iff_left rfl]
  | false =>
    have hclosed := Loader.not_reads_closed (drive.insert fat)
      (Loading.first Loader.bpb (BitVec.ofNat 16 start) destination ram) walked
    simp only [hclosed, and_false, Bool.false_eq_true]

end Agreement

/-- A table whose only chain is cluster 2 with the given end mark. -/
def singleCluster (mark : Fin 0x1000) : Fat :=
  Fat.set ⟨List.replicate Floppy.fatSize 0, List.length_replicate⟩ ⟨⟨2, by decide⟩, mark⟩

def blankDrive : Drive := ⟨fun _ => 0, fun _ _ _ _ => none⟩

theorem singleCluster_entry (mark : Fin 0x1000) :
    Floppy.fatEntry (singleCluster mark).bytes 2 = mark := by
  rw [singleCluster, fatEntry_set, if_pos rfl]

theorem singleCluster_walk (mark : Fin 0x1000) (hmark : 0xff8 ≤ mark.val) (image : Bytes) :
    Loop.run (Floppy.walkStep image (singleCluster mark).bytes) 2 ⟨2, [], []⟩ =
      some (true, ⟨mark, [2], Floppy.sectorOf image 2⟩) := by
  have hfirst : Floppy.walkStep image (singleCluster mark).bytes ⟨2, [], []⟩ =
      .inl ⟨mark, [2], Floppy.sectorOf image 2⟩ := by
    rw [Floppy.walkStep, if_pos (by decide), if_pos (by decide), singleCluster_entry]
    rfl
  have hsecond : Floppy.walkStep image (singleCluster mark).bytes
      ⟨mark, [2], Floppy.sectorOf image 2⟩ = .inr (true, ⟨mark, [2], Floppy.sectorOf image 2⟩) := by
    rw [Floppy.walkStep, if_neg (Nat.not_lt.mpr hmark)]
  rw [Loop.run_continue hfirst, Loop.run_exit hsecond]

/-- A file in the clusters 2, 5 and 3. -/
def threeClusters : Fat :=
  ((singleCluster 5).set ⟨⟨5, by decide⟩, 3⟩).set ⟨⟨3, by decide⟩, 0xfff⟩

theorem threeClusters_entries : Floppy.fatEntry threeClusters.bytes 2 = 5 ∧
    Floppy.fatEntry threeClusters.bytes 5 = 3 ∧ Floppy.fatEntry threeClusters.bytes 3 = 0xfff := by
  refine ⟨?_, ?_, ?_⟩
  · rw [threeClusters, fatEntry_set, if_neg (by decide), fatEntry_set, if_neg (by decide)]
    exact singleCluster_entry 5
  · rw [threeClusters, fatEntry_set, if_neg (by decide), fatEntry_set]
    rfl
  · rw [threeClusters, fatEntry_set]
    rfl

theorem threeClusters_walk : ∃ data,
    Loop.run (Floppy.walkStep [] threeClusters.bytes) 4 ⟨2, [], []⟩ = some (true, ⟨0xfff, [2, 5, 3], data⟩) := by
  obtain ⟨hfirst, hsecond, hthird⟩ := threeClusters_entries
  have hstep : ∀ c seen data, c < 0xff8 → 2 ≤ c ∧ c < Floppy.clusterEnd ∧ c ∉ seen →
      Floppy.walkStep [] threeClusters.bytes ⟨c, seen, data⟩ = .inl
        ⟨Floppy.fatEntry threeClusters.bytes c, seen ++ [c], data ++ Floppy.sectorOf [] c⟩ := by
    intro c seen data hmark hinside
    rw [Floppy.walkStep, if_pos hmark, if_pos hinside]
  rw [Loop.run_continue (hstep 2 [] [] (by decide) (by decide)), hfirst,
    Loop.run_continue (hstep 5 _ _ (by decide) (by decide)), hsecond,
    Loop.run_continue (hstep 3 _ _ (by decide) (by decide)), hthird]
  have hlast : ∀ data, Floppy.walkStep [] threeClusters.bytes ⟨0xfff, [2, 5, 3], data⟩ =
      .inr (true, ⟨0xfff, [2, 5, 3], data⟩) := by
    intro data
    rw [Floppy.walkStep, if_neg (show ¬ 0xfff < 0xff8 by decide)]
  exact ⟨_, Loop.run_exit (hlast _)⟩

theorem load_chain_marked :
    BothRead threeClusters blankDrive (fun _ => 0) true 2 0 0x100000 [2, 5, 3] := by
  obtain ⟨data, hwalk⟩ := threeClusters_walk
  have hchain := load_chain_iff threeClusters blankDrive (fun _ => 0) true [] 4 2 [] _ hwalk [2, 5, 3] rfl
    (List.cons_ne_nil _ _) 0 0x100000
  exact hchain.mpr ⟨threeClusters_entries.2.2, rfl⟩

/-- The end mark 0xFF8: the check ends after cluster 2, neither loop stops there. -/
theorem load_chain_early :
    Loop.run (Floppy.walkStep [] (singleCluster 0xff8).bytes) 2 ⟨2, [], []⟩ =
        some (true, ⟨0xff8, [2], Floppy.sectorOf [] 2⟩) ∧
      ¬Reads (Boot.goOnLoadingFile (blankDrive.insert (singleCluster 0xff8)))
        (Loading.first Boot.bpb 2 0 fun _ => 0) [2] ∧
      ¬Reads (Loader.goOnLoadingFile true (blankDrive.insert (singleCluster 0xff8)))
        (Loading.first Loader.bpb 2 0x100000 fun _ => 0) [2] := by
  have hpath : Floppy.Path (singleCluster 0xff8).bytes 2 [2] 0xff8 := ⟨rfl, singleCluster_entry 0xff8⟩
  obtain ⟨hboot, hloader⟩ := path_reads_iff (singleCluster 0xff8) blankDrive (fun _ => 0) hpath
    (List.cons_ne_nil _ _) (by simp [Floppy.clusterEnd]) 0 0x100000
  refine ⟨singleCluster_walk 0xff8 (by decide) [], fun h => ?_, fun h => ?_⟩
  · exact absurd (hboot.mp h) (by decide)
  · exact absurd (hloader.mp h) (by decide)

end MikoOS
