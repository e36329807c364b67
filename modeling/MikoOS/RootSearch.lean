import MikoOS.FatReader
import MikoOS.Library.Loop

/-!
# The search of the root directory in Boot and Loader

`_Search_In_Root_Dir_Begin` to `_FileName_Found`: the fourteen sectors of the directory are read one
after the other into the same buffer, the sixteen entries of each are compared with the name byte by
byte. Both programs assemble the same text, each with a name of its own. The search ends at the first
entry of the name, or without one behind the last sector.
-/

namespace MikoOS

open ByteMemory ByteString

inductive SearchLabel where
  | searchInRootDirBegin
  | searchForBin
  | cmpFileName
  deriving DecidableEq

/-- The variables and registers of the search. SI counts from the start of the name, which is part of
the program text. -/
structure Search where
  label : SearchLabel
  sectorNo : BitVec 16
  rootDirSizeForLoop : BitVec 16
  dx : BitVec 16
  cx : BitVec 16
  si : BitVec 16
  di : BitVec 16
  ram : Memory

inductive SearchEnd where
  | fileNameFound
  | noBin
  | notRead
  deriving DecidableEq

def searchStep (bpb : Bpb) (drive : Drive) (name : Bytes) (s : Search) : Search ⊕ (SearchEnd × Search) :=
  match s.label with
  | .searchInRootDirBegin =>
    if s.rootDirSizeForLoop = 0 then .inr (.noBin, s)
    else
      let s := { s with rootDirSizeForLoop := s.rootDirSizeForLoop - 1 }
      match readOneSectorFunc bpb drive s.sectorNo 1 0 sectorBuffer s.ram with
      | none => .inr (.notRead, s)
      | some ram => .inl { s with
          label := .searchForBin
          dx := 0x10
          si := 0
          di := sectorBuffer
          ram := ram }
  | .searchForBin =>
    if s.dx = 0 then .inl { s with label := .searchInRootDirBegin, sectorNo := s.sectorNo + 1 }
    else .inl { s with label := .cmpFileName, dx := s.dx - 1, cx := 11 }
  | .cmpFileName =>
    if s.cx = 0 then .inr (.fileNameFound, s)
    else
      let al := name.getD s.si.toNat 0
      let s := { s with cx := s.cx - 1, si := s.si + 1 }
      if al = s.ram (linear 0 s.di) then .inl { s with di := s.di + 1 }
      else .inl { s with label := .searchForBin, si := 0, di := (s.di &&& 0xffe0) + 0x20 }

/-- The state at the first label; what the registers hold before is never read. -/
def Search.first (bpb : Bpb) (ram : Memory) : Search where
  label := .searchInRootDirBegin
  sectorNo := bpb.sectorNumOfRootDirStart
  rootDirSizeForLoop := bpb.rootDirSectors
  dx := 0
  cx := 0
  si := 0
  di := 0
  ram := ram

def Search.firstCluster (s : Search) : BitVec 16 := load16 s.ram (linear 0 ((s.di &&& 0xffe0) + 0x1a))

variable {drive : Drive} {name : Bytes} {s t : Search} {ram : Memory} {e j k : ℕ}

theorem ofNat_lt {n : ℕ} (hn : n < 65536) : (BitVec.ofNat 16 n).toNat = n := by
  rw [BitVec.toNat_ofNat]
  omega

theorem ofNat_pred {n : ℕ} (hn : 0 < n) : BitVec.ofNat 16 n - 1 = BitVec.ofNat 16 (n - 1) :=
  BitVec.ofNat_sub_ofNat_of_le n 1 (by decide) hn

theorem ofNat_ne_zero {n : ℕ} (hpos : 0 < n) (hn : n < 65536) : BitVec.ofNat 16 n ≠ 0 := by
  intro h
  have hnat := congrArg BitVec.toNat h
  rw [ofNat_lt hn] at hnat
  change n = 0 at hnat
  omega

theorem mask_entry (hj : j < 16) (hk : k < 32) :
    BitVec.ofNat 16 (0x8000 + 32 * j + k) &&& 0xffe0 = BitVec.ofNat 16 (0x8000 + 32 * j) := by
  have hmask : ∀ i < 16, (0xffe0 : BitVec 16).getLsbD i = decide (5 ≤ i) := by decide
  have hshift : BitVec.ofNat 16 (0x8000 + 32 * j + k) &&& (0xffe0 : BitVec 16) =
      (BitVec.ofNat 16 (0x8000 + 32 * j + k) >>> 5) <<< 5 := by
    apply BitVec.eq_of_getLsbD_eq
    intro i hi
    rw [BitVec.getLsbD_and, hmask i hi, BitVec.getLsbD_shiftLeft, BitVec.getLsbD_ushiftRight]
    by_cases hlow : i < 5
    · simp [hlow, Nat.not_le.mpr hlow]
    · have hback : 5 + (i - 5) = i := by omega
      simp [hi, hlow, hback, Nat.not_lt.mp hlow]
  rw [hshift]
  apply BitVec.eq_of_toNat_eq
  rw [BitVec.toNat_shiftLeft, BitVec.toNat_ushiftRight, ofNat_lt (by omega), ofNat_lt (by omega),
    Nat.shiftRight_eq_div_pow, Nat.shiftLeft_eq]
  omega

structure Search.Kept (s t : Search) : Prop where
  sectorNo : t.sectorNo = s.sectorNo
  rootDirSizeForLoop : t.rootDirSizeForLoop = s.rootDirSizeForLoop
  ram : t.ram = s.ram

theorem Search.Kept.trans {u : Search} (h : s.Kept t) (hrest : t.Kept u) : s.Kept u :=
  ⟨hrest.sectorNo.trans h.sectorNo, hrest.rootDirSizeForLoop.trans h.rootDirSizeForLoop,
    hrest.ram.trans h.ram⟩

structure Search.AtEntry (s : Search) (j : ℕ) : Prop where
  label : s.label = .searchForBin
  dx : s.dx = BitVec.ofNat 16 (16 - j)
  si : s.si = 0
  di : s.di = BitVec.ofNat 16 (0x8000 + 32 * j)

/-- The first `k` bytes of entry `j` are those of the name. -/
structure Search.Comparing (s : Search) (j k : ℕ) : Prop where
  label : s.label = .cmpFileName
  dx : s.dx = BitVec.ofNat 16 (16 - (j + 1))
  cx : s.cx = BitVec.ofNat 16 (11 - k)
  si : s.si = BitVec.ofNat 16 k
  di : s.di = BitVec.ofNat 16 (0x8000 + 32 * j + k)

theorem Search.AtEntry.step (h : s.AtEntry j) (drive : Drive) (name : Bytes) (hj : j < 16) :
    ∃ t, searchStep Boot.bpb drive name s = .inl t ∧ t.Comparing j 0 ∧ s.Kept t := by
  have hdx : s.dx ≠ 0 := by
    rw [h.dx]
    exact ofNat_ne_zero (by omega) (by omega)
  have hstep : searchStep Boot.bpb drive name s =
      .inl { s with label := .cmpFileName, dx := s.dx - 1, cx := 11 } := by
    rw [searchStep, h.label]
    exact if_neg hdx
  refine ⟨_, hstep, ⟨rfl, ?_, rfl, h.si, h.di⟩, ⟨rfl, rfl, rfl⟩⟩
  change s.dx - 1 = _
  rw [h.dx, ofNat_pred (by omega), Nat.sub_sub]

theorem Search.Comparing.step (h : s.Comparing j k) (drive : Drive) (name : Bytes) (hj : j < 16)
    (hk : k < 11) :
    searchStep Boot.bpb drive name s =
      if name.getD k 0 = s.ram (0x8000 + 32 * j + k) then
        .inl { s with cx := s.cx - 1, si := s.si + 1, di := s.di + 1 }
      else .inl { s with
        label := .searchForBin
        cx := s.cx - 1
        si := 0
        di := (s.di &&& 0xffe0) + 0x20 } := by
  have hcx : s.cx ≠ 0 := by
    rw [h.cx]
    exact ofNat_ne_zero (by omega) (by omega)
  have hsi : s.si.toNat = k := by
    rw [h.si, ofNat_lt (by omega)]
  have haddress : linear 0 s.di = 0x8000 + 32 * j + k := by
    rw [h.di, linear, ofNat_lt (by omega)]
    change 0 * 16 + _ = _
    omega
  rw [searchStep, h.label]
  dsimp only
  rw [if_neg hcx, hsi, haddress]

theorem Search.Comparing.equal (h : s.Comparing j k) (drive : Drive) (hj : j < 16) (hk : k < 11)
    (hbyte : name.getD k 0 = s.ram (0x8000 + 32 * j + k)) :
    ∃ t, searchStep Boot.bpb drive name s = .inl t ∧ t.Comparing j (k + 1) ∧ s.Kept t := by
  have hstep := h.step drive name hj hk
  rw [if_pos hbyte] at hstep
  refine ⟨_, hstep, ⟨h.label, h.dx, ?_, ?_, ?_⟩, ⟨rfl, rfl, rfl⟩⟩
  · change s.cx - 1 = _
    rw [h.cx, ofNat_pred (by omega), Nat.sub_sub]
  · change s.si + 1 = _
    rw [h.si, BitVec.ofNat_add]
    rfl
  · change s.di + 1 = _
    rw [h.di, ← Nat.add_assoc, BitVec.ofNat_add (0x8000 + 32 * j + k)]
    rfl

theorem Search.Comparing.differs (h : s.Comparing j k) (drive : Drive) (hj : j < 16) (hk : k < 11)
    (hbyte : name.getD k 0 ≠ s.ram (0x8000 + 32 * j + k)) :
    ∃ t, searchStep Boot.bpb drive name s = .inl t ∧ t.AtEntry (j + 1) ∧ s.Kept t := by
  have hstep := h.step drive name hj hk
  rw [if_neg hbyte] at hstep
  refine ⟨_, hstep, ⟨rfl, h.dx, rfl, ?_⟩, ⟨rfl, rfl, rfl⟩⟩
  change (s.di &&& 0xffe0) + 0x20 = _
  rw [h.di, mask_entry hj (by omega), Nat.mul_succ, ← Nat.add_assoc,
    BitVec.ofNat_add (0x8000 + 32 * j)]
  rfl

/-- As long as the bytes agree the comparison goes on. -/
theorem Search.AtEntry.compare (h : s.AtEntry j) (drive : Drive) (hj : j < 16) (hk : k ≤ 11)
    (hbytes : ∀ i < k, name.getD i 0 = s.ram (0x8000 + 32 * j + i)) :
    ∃ t, Loop.Steps (searchStep Boot.bpb drive name) (k + 1) s t ∧ t.Comparing j k ∧ s.Kept t := by
  induction k with
  | zero =>
    obtain ⟨t, hstep, ht, hkept⟩ := h.step drive name hj
    exact ⟨t, Loop.Steps.single hstep, ht, hkept⟩
  | succ k ih =>
    obtain ⟨t, hsteps, ht, hkept⟩ := ih (by omega) fun i hi => hbytes i (by omega)
    have hbyte := hbytes k (Nat.lt_succ_self k)
    rw [← hkept.ram] at hbyte
    obtain ⟨u, hstep, hu, hnext⟩ := ht.equal drive hj (by omega) hbyte
    exact ⟨u, hsteps.append (Loop.Steps.single hstep), hu, hkept.trans hnext⟩

/-- The first byte that differs leads to the next entry. -/
theorem Search.AtEntry.different (h : s.AtEntry j) (drive : Drive) (hj : j < 16)
    (hname : ¬∀ i < 11, name.getD i 0 = s.ram (0x8000 + 32 * j + i)) :
    ∃ k t, k ≤ 12 ∧ Loop.Steps (searchStep Boot.bpb drive name) k s t ∧ t.AtEntry (j + 1) ∧ s.Kept t := by
  have hexists : ∃ i, i < 11 ∧ name.getD i 0 ≠ s.ram (0x8000 + 32 * j + i) := by
    by_contra hall
    apply hname
    intro i hi
    by_contra hbyte
    exact hall ⟨i, hi, hbyte⟩
  obtain ⟨k, ⟨hk, hbyte⟩, hfirst⟩ := Nat.findX hexists
  have hbefore : ∀ i < k, name.getD i 0 = s.ram (0x8000 + 32 * j + i) := by
    intro i hi
    by_contra hdiffers
    exact hfirst i hi ⟨by omega, hdiffers⟩
  obtain ⟨t, hsteps, ht, hkept⟩ := h.compare drive hj (by omega) hbefore
  rw [← hkept.ram] at hbyte
  obtain ⟨u, hstep, hu, hnext⟩ := ht.differs drive hj hk hbyte
  exact ⟨_, u, by omega, hsteps.append (Loop.Steps.single hstep), hu, hkept.trans hnext⟩

theorem Search.AtEntry.found (h : s.AtEntry j) (drive : Drive) (hj : j < 16)
    (hname : ∀ i < 11, name.getD i 0 = s.ram (0x8000 + 32 * j + i)) :
    ∃ t, Loop.Steps (searchStep Boot.bpb drive name) 12 s t ∧
      searchStep Boot.bpb drive name t = .inr (.fileNameFound, t) ∧
      t.firstCluster = load16 s.ram (0x8000 + 32 * j + 26) ∧ s.Kept t := by
  obtain ⟨t, hsteps, ht, hkept⟩ := h.compare drive hj le_rfl hname
  have hstep : searchStep Boot.bpb drive name t = .inr (.fileNameFound, t) := by
    rw [searchStep, ht.label]
    exact if_pos ht.cx
  have haddress : linear 0 (BitVec.ofNat 16 (0x8000 + 32 * j) + 0x1a) = 0x8000 + 32 * j + 26 := by
    have hsum : BitVec.ofNat 16 (0x8000 + 32 * j) + 0x1a = BitVec.ofNat 16 (0x8000 + 32 * j + 26) :=
      (BitVec.ofNat_add _ _).symm
    rw [hsum, linear, ofNat_lt (by omega)]
    change 0 * 16 + _ = _
    omega
  refine ⟨t, hsteps, hstep, ?_, hkept⟩
  rw [Search.firstCluster, ht.di, mask_entry hj (by decide), haddress, hkept.ram]

def Drive.Named (drive : Drive) (name : Bytes) (e : ℕ) : Prop :=
  ∀ i < 11, name.getD i 0 = drive.disk (9728 + 32 * e + i)

structure Search.AtSector (ram : Memory) (s : Search) (q : ℕ) : Prop where
  label : s.label = .searchInRootDirBegin
  sectorNo : s.sectorNo = BitVec.ofNat 16 (19 + q)
  remaining : s.rootDirSizeForLoop = BitVec.ofNat 16 (14 - q)
  frame : ∀ x, x < 0x8000 ∨ 0x8200 ≤ x → s.ram x = ram x

/-- About to look at entry `e` of the directory, its sector in the buffer. -/
structure Search.Reached (drive : Drive) (ram : Memory) (s : Search) (e : ℕ) : Prop where
  entry : s.AtEntry (e % 16)
  sectorNo : s.sectorNo = BitVec.ofNat 16 (19 + e / 16)
  remaining : s.rootDirSizeForLoop = BitVec.ofNat 16 (13 - e / 16)
  buffer : ∀ i < 512, s.ram (0x8000 + i) = drive.disk (512 * (19 + e / 16) + i)
  frame : ∀ x, x < 0x8000 ∨ 0x8200 ≤ x → s.ram x = ram x

theorem Search.first_atSector (ram : Memory) : (Search.first Boot.bpb ram).AtSector ram 0 :=
  ⟨rfl, rfl, rfl, fun _ _ => rfl⟩

theorem Search.AtSector.step {q : ℕ} (h : s.AtSector ram q) (drive : Drive) (name : Bytes)
    (hq : q < 14) :
    ∃ t, searchStep Boot.bpb drive name s = .inl t ∧ t.Reached drive ram (16 * q) := by
  have hsize : s.rootDirSizeForLoop ≠ 0 := by
    rw [h.remaining]
    exact ofNat_ne_zero (by omega) (by omega)
  have htrack : (19 + q) % 18 + (1 : BitVec 8).toNat ≤ 18 := by
    change (19 + q) % 18 + 1 ≤ 18
    omega
  have hlba : 19 + q < 2880 := by omega
  have hread := readOneSectorFunc_eq drive s.ram hlba htrack 0 sectorBuffer
  have hplace : placeSectors drive (19 + q) (1 : BitVec 8).toNat (linear 0 sectorBuffer) s.ram =
      placeSectors drive (19 + q) 1 0x8000 s.ram := rfl
  have hstep : searchStep Boot.bpb drive name s = .inl { s with
      label := .searchForBin
      rootDirSizeForLoop := s.rootDirSizeForLoop - 1
      dx := 0x10
      si := 0
      di := sectorBuffer
      ram := placeSectors drive (19 + q) 1 0x8000 s.ram } := by
    rw [searchStep, h.label]
    dsimp only
    rw [if_neg hsize, h.sectorNo, hread, hplace]
  have hmod : 16 * q % 16 = 0 := Nat.mul_mod_right 16 q
  have hdiv : 16 * q / 16 = q := Nat.mul_div_cancel_left q (by decide)
  refine ⟨_, hstep, ?_⟩
  constructor
  · rw [hmod]
    exact ⟨rfl, rfl, rfl, rfl⟩
  · rw [hdiv]
    exact h.sectorNo
  · change s.rootDirSizeForLoop - 1 = _
    have hpred : 14 - q - 1 = 13 - q := by omega
    rw [h.remaining, ofNat_pred (by omega), hdiv, hpred]
  · intro i hi
    rw [hdiv]
    exact placeSectors_inside (by omega)
  · intro x hx
    change placeSectors drive (19 + q) 1 0x8000 s.ram x = _
    rw [placeSectors_outside (by omega), h.frame x hx]

theorem Search.AtSector.last (h : s.AtSector ram 14) :
    searchStep Boot.bpb drive name s = .inr (.noBin, s) := by
  rw [searchStep, h.label]
  exact if_pos h.remaining

theorem Search.Reached.byte (h : s.Reached drive ram e) {i : ℕ} (hi : i < 32) :
    s.ram (0x8000 + 32 * (e % 16) + i) = drive.disk (9728 + 32 * e + i) := by
  have haddress : 512 * (19 + e / 16) + (32 * (e % 16) + i) = 9728 + 32 * e + i := by omega
  rw [Nat.add_assoc, h.buffer _ (by omega), haddress]

theorem Search.Reached.named_iff (h : s.Reached drive ram e) :
    (∀ i < 11, name.getD i 0 = s.ram (0x8000 + 32 * (e % 16) + i)) ↔ drive.Named name e := by
  constructor
  · intro hname i hi
    rw [hname i hi, h.byte (by omega)]
  · intro hname i hi
    rw [hname i hi, h.byte (by omega)]

/-- Behind an entry of another name comes the next one, in this sector or in the next one. -/
theorem Search.Reached.next (h : s.Reached drive ram e) (hname : ¬drive.Named name e) :
    ∃ k t, k ≤ 14 ∧ Loop.Steps (searchStep Boot.bpb drive name) k s t ∧
      (e + 1 < 224 → t.Reached drive ram (e + 1)) ∧ (e + 1 = 224 → t.AtSector ram 14) := by
  rw [← h.named_iff] at hname
  obtain ⟨k, t, hk, hsteps, ht, hkept⟩ := h.entry.different drive (by omega) hname
  have hframe : ∀ x, x < 0x8000 ∨ 0x8200 ≤ x → t.ram x = ram x := by
    intro x hx
    rw [hkept.ram, h.frame x hx]
  by_cases hlast : e % 16 = 15
  · -- DX is used up: one step to the next sector, one more to read it
    have hdx : t.dx = 0 := by
      rw [ht.dx, hlast]
      rfl
    have hmove : searchStep Boot.bpb drive name t =
        .inl { t with label := .searchInRootDirBegin, sectorNo := t.sectorNo + 1 } := by
      rw [searchStep, ht.label]
      exact if_pos hdx
    have hsector : Search.AtSector ram
        { t with label := .searchInRootDirBegin, sectorNo := t.sectorNo + 1 } (e / 16 + 1) := by
      refine ⟨rfl, ?_, ?_, hframe⟩
      · change t.sectorNo + 1 = _
        rw [hkept.sectorNo, h.sectorNo, ← Nat.add_assoc, BitVec.ofNat_add (19 + e / 16)]
        rfl
      · have hremaining : 14 - (e / 16 + 1) = 13 - e / 16 := by omega
        change t.rootDirSizeForLoop = _
        rw [hkept.rootDirSizeForLoop, h.remaining, hremaining]
    have hmoved := hsteps.append (Loop.Steps.single hmove)
    by_cases hend : e + 1 < 224
    · obtain ⟨u, hread, hu⟩ := hsector.step drive name (by omega)
      have hentry : 16 * (e / 16 + 1) = e + 1 := by omega
      rw [hentry] at hu
      exact ⟨_, u, by omega, hmoved.append (Loop.Steps.single hread), fun _ => hu, fun _ => by omega⟩
    · refine ⟨_, _, by omega, hmoved, fun h => absurd h hend, fun h => ?_⟩
      have hcount : e / 16 + 1 = 14 := by omega
      rw [← hcount]
      exact hsector
  · have hmod : (e + 1) % 16 = e % 16 + 1 := by omega
    have hdiv : (e + 1) / 16 = e / 16 := by omega
    refine ⟨k, t, by omega, hsteps, fun _ => ?_, fun _ => by omega⟩
    constructor
    · rw [hmod]
      exact ht
    · rw [hdiv, hkept.sectorNo, h.sectorNo]
    · rw [hdiv, hkept.rootDirSizeForLoop, h.remaining]
    · intro i hi
      rw [hdiv, hkept.ram, h.buffer i hi]
    · exact hframe

/-- As long as the entries have other names the search goes through them. -/
theorem search_reaches (ram : Memory) (he : e < 224) (hbefore : ∀ i < e, ¬drive.Named name i) :
    ∃ k t, k ≤ 14 * e + 1 ∧
      Loop.Steps (searchStep Boot.bpb drive name) k (Search.first Boot.bpb ram) t ∧
      t.Reached drive ram e := by
  induction e with
  | zero =>
    obtain ⟨t, hstep, ht⟩ := (Search.first_atSector ram).step drive name (by decide)
    exact ⟨1, t, le_rfl, Loop.Steps.single hstep, ht⟩
  | succ e ih =>
    obtain ⟨k, t, hk, hsteps, ht⟩ := ih (by omega) fun i hi => hbefore i (by omega)
    obtain ⟨l, u, hl, hrest, hu, -⟩ := ht.next (hbefore e (Nat.lt_succ_self e))
    exact ⟨k + l, u, by omega, hsteps.append hrest, hu he⟩

/-- The search finds the first entry of the name and leaves memory outside the buffer alone. -/
theorem search_found (ram : Memory) (he : e < 224) (hbefore : ∀ i < e, ¬drive.Named name i)
    (hname : drive.Named name e) :
    ∃ t, (∀ fuel ≥ 3200, Loop.run (searchStep Boot.bpb drive name) fuel (Search.first Boot.bpb ram) =
        some (.fileNameFound, t)) ∧
      t.firstCluster = BitVec.ofNat 16 (load drive.disk (9728 + 32 * e + 26) 2) ∧
      ∀ x, x < 0x8000 ∨ 0x8200 ≤ x → t.ram x = ram x := by
  obtain ⟨k, s, hk, hsteps, hs⟩ := search_reaches ram he hbefore
  obtain ⟨t, hcompare, hfound, hcluster, hkept⟩ := hs.entry.found drive (by omega)
    (hs.named_iff.mpr hname)
  refine ⟨t, ?_, ?_, ?_⟩
  · intro fuel hfuel
    obtain ⟨rest, rfl⟩ : ∃ rest, fuel = k + 12 + (rest + 1) := ⟨fuel - (k + 12 + 1), by omega⟩
    rw [Loop.run_of_steps (hsteps.append hcompare), Loop.run_exit hfound]
  · rw [hcluster, load16]
    congr 1
    apply load_congr
    intro i hi
    rw [Nat.add_assoc, Nat.add_assoc (9728 + 32 * e), hs.byte (by omega)]
  · intro x hx
    rw [hkept.ram, hs.frame x hx]

/-- Without an entry of the name the search ends behind the last sector. -/
theorem search_none (ram : Memory) (hnone : ∀ i < 224, ¬drive.Named name i) :
    ∃ t, ∀ fuel ≥ 3200, Loop.run (searchStep Boot.bpb drive name) fuel (Search.first Boot.bpb ram) =
      some (.noBin, t) := by
  obtain ⟨k, s, hk, hsteps, hs⟩ := search_reaches (e := 223) ram (by decide)
    fun i hi => hnone i (by omega)
  obtain ⟨l, t, hl, hrest, -, ht⟩ := hs.next (hnone 223 (by decide))
  refine ⟨t, ?_⟩
  intro fuel hfuel
  obtain ⟨rest, rfl⟩ : ∃ rest, fuel = k + l + (rest + 1) := ⟨fuel - (k + l + 1), by omega⟩
  rw [Loop.run_of_steps (hsteps.append hrest), Loop.run_exit (ht rfl).last]

end MikoOS
