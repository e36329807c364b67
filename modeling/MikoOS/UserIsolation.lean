import MikoOS.UserMapping

/-!
# Isolation of the user demonstration

From a kernel that has started, every state the demonstration passes through gives CPL 3 either nothing
or exactly the two small pages of its run, and the range test of the kernel accepts no address that CPL
3 could not read itself.
-/

namespace MikoOS.UserMode

open ByteMemory PageWalk Rust

variable {u : UserImage} {e : Entries} {ram : Memory} {v physical : ℕ}

variable {image : KernelImage} {s₀ : MemoryDescriptor} {run : PageRun} {s t : Session}

/-- What a session has to be when `demonstrate` is called: the allocator and the root as the kernel
left them, and no entry of the static tables set but the ones that are always set again. -/
structure Session.Ready (u : UserImage) (t : Kernel) (l : Ledger) (s : Session) : Prop where
  ledger : s.ledger = l
  cr3 : s.cr3 = t.cr3
  root : ∀ x, pml4Address ≤ x → x < pml4Address + pageSize → s.ram x = t.ram x
  pdpt : ∀ i < 512, i ≠ 0 → entryAt s.ram (directPhysical u.pdpt) i = 0
  pd : ∀ i < 512, i ≠ 4 → entryAt s.ram (directPhysical u.pd) i = 0
  pt : ∀ i < 512, i ≠ 0 → i ≠ 511 → entryAt s.ram (directPhysical u.pt) i = 0

theorem Session.Ready.unmapped {map : MemoryMap} {base : BitVec 32} {t : Kernel} {l : Ledger}
    (ht : t.Running image map base) (hl : Accounted t.memory l) (h : s.Ready u t l) :
    Unmapped u t.memory s := by
  have hroot : ∀ i < 512, entryAt s.ram pml4Address i = entryAt t.ram pml4Address i := by
    intro i hi
    apply load64_congr
    intro j hj
    exact h.root _ (by omega) (by rw [pageSize]; omega)
  refine ⟨⟨0, entryAt s.ram (directPhysical u.pdpt) 0, entryAt s.ram (directPhysical u.pd) 4,
    entryAt s.ram (directPhysical u.pt) 0, entryAt s.ram (directPhysical u.pt) 511⟩, rfl, ?_, ?_, ?_⟩
  · rw [h.cr3, ht.cr3]
    decide
  · intro k i hi
    cases k with
    | pml4 =>
      change entryAt s.ram pml4Address i = _
      rw [hroot i hi, Entries.tables]
      split
      · rename_i h0
        rw [h0]
        exact ht.tables.pml4_low
      · split
        · rename_i h256
          rw [h256]
          exact ht.tables.pml4_high
        · exact ht.tables.pml4_other i hi ‹_› ‹_›
    | pdpt =>
      rw [Entries.tables]
      split
      · rename_i h0
        rw [h0]
        rfl
      · exact h.pdpt i hi ‹_›
    | pd =>
      rw [Entries.tables]
      split
      · rename_i h4
        rw [h4]
        rfl
      · exact h.pd i hi ‹_›
    | pt =>
      rw [Entries.tables]
      split
      · rename_i h0
        rw [h0]
        rfl
      · split
        · rename_i h511
          rw [h511]
          rfl
        · exact h.pt i hi ‹_› ‹_›
  · rw [h.ledger]
    exact hl

/-- The root entry of the low half. -/
def rootEntry (s : Session) : BitVec 64 := load64 s.ram (frame s.cr3)

/-- CPL 3 reaches nothing. -/
structure Closed (s : Session) : Prop where
  root : rootEntry s = 0
  nothing : ∀ v, Canonical v → userTranslation s v = none

/-- CPL 3 reaches the two small pages of the outstanding `run` and nothing else. -/
structure Opened (run : PageRun) (s : Session) : Prop where
  root : rootEntry s ≠ 0
  count : run.count = 1
  held : ⟨.mapped, run⟩ ∈ s.ledger.outstanding
  window : ∀ v, Canonical v → userTranslation s v = window run.physicalAddress v
  inside : ∀ v, Canonical v → ∀ t, userTranslation s v = some t →
    run.physicalAddress ≤ t.physical ∧ t.physical < run.physicalAddress + run.count * page2MSize

theorem Unmapped.isClosed (h : Unmapped u s₀ s) : Closed s := by
  refine ⟨?_, fun v _ => h.closed v⟩
  obtain ⟨e, hlow, he⟩ := h
  rw [rootEntry, he.cr3]
  exact (he.entry .pml4 (i := 0) (by decide)).trans hlow

theorem window_inside {physical v : ℕ} {t : Translation} (h : window physical v = some t) :
    physical ≤ t.physical ∧ t.physical < physical + 2 * pageSize := by
  unfold window code stack stackTop at h
  unfold pageSize at h ⊢
  split at h
  · rw [← Option.some.inj h]
    dsimp only
    omega
  · split at h
    · rw [← Option.some.inj h]
      dsimp only
      omega
    · cases h

theorem Mapped.isOpened (himage : image.Linked) (hu : u.Linked image) (hrun : Backs image run)
    (h : Mapped u s₀ run s) : Opened run s := by
  have hwindow : ∀ v, Canonical v → userTranslation s v = UserMode.window run.physicalAddress v :=
    fun v hv => h.window himage hu hrun hv
  refine ⟨?_, hrun.count, h.held, hwindow, ?_⟩
  · intro hzero
    have hentry : rootEntry s = entryFor (directPhysical u.pdpt) 7#64 := by
      rw [rootEntry, h.tabled.cr3]
      exact h.tabled.entry .pml4 (i := 0) (by decide)
    have hpresent : present (entryFor (directPhysical u.pdpt) 7#64) = present 7#64 :=
      present_entryFor (hu.framed himage (k := .pdpt) (by decide))
    have hfalse : present (0#64) = present (7#64) := by
      rw [← hpresent]
      exact congrArg present (hzero.symm.trans hentry)
    exact absurd hfalse (by decide)
  · intro v hv t ht
    rw [hwindow v hv] at ht
    have hin := window_inside ht
    unfold pageSize at hin
    rw [hrun.count, page2MSize]
    omega

/-- The states before, during and after the mapping; a demonstration that is `done` has all three. -/
def Isolated (u : UserImage) (image : KernelImage) (s₀ : MemoryDescriptor) (done : Prop)
    (trace : List Session) : Prop :=
  ∃ before during after run, trace = before ++ during ++ after ∧
    (∀ x ∈ before ++ after, Unmapped u s₀ x) ∧
    (∀ x ∈ during, Mapped u s₀ run x ∧ Backs image run) ∧ (done → during ≠ [] ∧ after ≠ [])

theorem Isolated.undone {done : Prop} {trace : List Session} (h : Isolated u image s₀ done trace) :
    Isolated u image s₀ False trace := by
  obtain ⟨before, during, after, run, htrace, hout, hin, -⟩ := h
  exact ⟨before, during, after, run, htrace, hout, hin, False.elim⟩

theorem demonstrate_run {map : MemoryMap} {base : BitVec 32} {t : Kernel} (himage : image.Linked)
    (hu : u.Linked image) (ht : t.Running image map base) (p : Profile) (cpu : Cpuid)
    (program : UserProgram) (hs : Unmapped u t.memory s) :
    Satisfies ((demonstrate p cpu u program).run ⟨s, [s]⟩)
      (fun _ r => Isolated u image t.memory True r.trace)
      fun _ r => Isolated u image t.memory False r.trace := by
  have hbefore : ∀ r : Demo, Extends [] (Unmapped u t.memory) r →
      Isolated u image t.memory False r.trace := by
    rintro r ⟨-, m, htrace, -, hm⟩
    exact ⟨m, [], [], ⟨0, 0⟩, by simp [htrace], by simpa using hm, by simp, False.elim⟩
  rw [demonstrate]
  refine ((backProgram_run himage hu ht p cpu (extends_next [] hs)).mono (fun _ _ h => h)
    fun _ r h => hbefore r h).bind ?_
  rintro run r1 ⟨hr1, hbacks, hmem⟩
  obtain ⟨r2, s3, hinstall, ⟨-, before, hr2, -, hbefore2⟩, hmapped⟩ :=
    installMapping_run himage hu hbacks p hr1 hmem
  rw [List.nil_append] at hr2
  rw [run_bind_ok hinstall, hr2]
  have hduring : ∀ r : Demo, Extends before (Mapped u t.memory run) r →
      Isolated u image t.memory False r.trace := by
    rintro r ⟨-, m, htrace, -, hm⟩
    exact ⟨before, m, [], run, by simp [htrace], by simpa using hbefore2,
      fun x hx => ⟨hm x hx, hbacks⟩, False.elim⟩
  refine ((runProgram_stays himage hu hbacks program _ (extends_next before hmapped)).mono
    (fun _ _ h => h) fun _ r h => hduring r h).bind ?_
  rintro _ r4 ⟨hr4, during, htrace, hnonempty, hduring4⟩
  obtain ⟨r5, after, hremove, hr5, hafter, hlast⟩ :=
    removeMapping_run himage hu p ht.memory.consistent hr4
  rw [hremove, satisfies_ok]
  refine ⟨before, during, after, run, by rw [hr5, htrace], ?_, fun x hx => ⟨hduring4 x hx, hbacks⟩,
    fun _ => ⟨hnonempty, hlast⟩⟩
  intro x hx
  rcases List.mem_append.mp hx with hx | hx
  · exact hbefore2 x hx
  · exact hafter x hx

theorem ready_unmapped {p : Profile} {image : KernelImage} (himage : image.Linked) {base : BitVec 32}
    {k t : Kernel} (hk : k.Booted base) (ht : (init p image).run k = .ok () t) {ops : List Operation}
    {l : Ledger} (hl : (history p ops).run ⟨t.memory, []⟩ = .ok () l) {u : UserImage} {s : Session}
    (hs : s.Ready u t l) : ∃ map, t.Running image map base ∧ Unmapped u t.memory s := by
  obtain ⟨map, -, hrunning⟩ := init_ok himage hk ht
  have h := Accounted.of_run hrunning.memory.consistent hrunning.memory.exclusive p hl
  exact ⟨map, hrunning, hs.unmapped hrunning h⟩

/-- Wherever the root entry is set, the two pages of one run are mapped. -/
theorem installed_mapped {p : Profile} (himage : image.Linked) {base : BitVec 32} {k t : Kernel}
    (hk : k.Booted base) (ht : (init p image).run k = .ok () t) {ops : List Operation} {l : Ledger}
    (hl : (history p ops).run ⟨t.memory, []⟩ = .ok () l) (hu : u.Linked image) (hs : s.Ready u t l)
    {cpu : Cpuid} {program : UserProgram} {x : Session}
    (hx : x ∈ (final ((demonstrate p cpu u program).run ⟨s, [s]⟩)).trace)
    (hinstalled : rootEntry x ≠ 0) : ∃ run, Mapped u t.memory run x ∧ Backs image run := by
  obtain ⟨map, hrunning, hunmapped⟩ := ready_unmapped himage hk ht hl hs
  have hdemo := (demonstrate_run himage hu hrunning p cpu program hunmapped).mono
    (fun _ _ h => h.undone) fun _ _ h => h
  obtain ⟨before, during, after, run, htrace, hout, hin, -⟩ := hdemo.final
  rw [htrace, List.mem_append, List.mem_append] at hx
  rcases hx with (hx | hx) | hx
  · exact absurd (hout x (List.mem_append_left _ hx)).isClosed.root hinstalled
  · exact ⟨run, hin x hx⟩
  · exact absurd (hout x (List.mem_append_right _ hx)).isClosed.root hinstalled

theorem installed_opened {p : Profile} (himage : image.Linked) {base : BitVec 32} {k t : Kernel}
    (hk : k.Booted base) (ht : (init p image).run k = .ok () t) {ops : List Operation} {l : Ledger}
    (hl : (history p ops).run ⟨t.memory, []⟩ = .ok () l) (hu : u.Linked image) (hs : s.Ready u t l)
    {cpu : Cpuid} {program : UserProgram} {x : Session}
    (hx : x ∈ (final ((demonstrate p cpu u program).run ⟨s, [s]⟩)).trace)
    (hinstalled : rootEntry x ≠ 0) : ∃ run, Opened run x := by
  obtain ⟨run, hmapped, hbacks⟩ := installed_mapped himage hk ht hl hu hs hx hinstalled
  exact ⟨run, hmapped.isOpened himage hu hbacks⟩

/-- Whatever the user program does and wherever the demonstration stops, the states it goes through
are closed to CPL 3 up to the store of the root entry and from its removal on; in between exactly
the two small pages of one outstanding run are reachable, each with its own rights. -/
theorem demonstrate_isolated (p : Profile) (image : KernelImage) (himage : image.Linked)
    (base : BitVec 32) (k t : Kernel) (hk : k.Booted base) (ht : (init p image).run k = .ok () t)
    (ops : List Operation) (l : Ledger) (hl : (history p ops).run ⟨t.memory, []⟩ = .ok () l)
    (u : UserImage) (hu : u.Linked image) (s : Session) (hs : s.Ready u t l) (cpu : Cpuid)
    (program : UserProgram) :
    ∃ before during after run,
      (final ((demonstrate p cpu u program).run ⟨s, [s]⟩)).trace = before ++ during ++ after ∧
        (∀ x ∈ before ++ after, Closed x) ∧ (∀ x ∈ during, Opened run x) ∧
        ∀ r, (demonstrate p cpu u program).run ⟨s, [s]⟩ = .ok () r → during ≠ [] ∧ after ≠ [] := by
  obtain ⟨map, hrunning, hunmapped⟩ := ready_unmapped himage hk ht hl hs
  have hdemo := demonstrate_run himage hu hrunning p cpu program hunmapped
  cases hresult : (demonstrate p cpu u program).run ⟨s, [s]⟩ with
  | ok _ r =>
    rw [hresult, satisfies_ok] at hdemo
    obtain ⟨before, during, after, run, htrace, hout, hin, hdone⟩ := hdemo
    exact ⟨before, during, after, run, htrace, fun x hx => (hout x hx).isClosed,
      fun x hx => (hin x hx).1.isOpened himage hu (hin x hx).2, fun _ _ => hdone trivial⟩
  | error e r =>
    rw [hresult, satisfies_error] at hdemo
    obtain ⟨before, during, after, run, htrace, hout, hin, -⟩ := hdemo
    refine ⟨before, during, after, run, htrace, fun x hx => (hout x hx).isClosed,
      fun x hx => (hin x hx).1.isOpened himage hu (hin x hx).2, fun _ hok => ?_⟩
    cases hok

def sampleUser : UserImage where
  pdpt := 0xffff800000104000
  pd := 0xffff800000105000
  pt := 0xffff800000106000
  returnStack := 0xffff800000108000
  userStart := 0xffff800000110000
  userEnd := 0xffff800000110020
  userDemo := 0xffff800000110000
  userReturnEntry := 0xffff800000111000
  systemCallEntry := 0xffff800000111100

theorem sampleUser_linked : sampleUser.Linked sampleImage := by
  refine ⟨?_, ?_, ?_, ?_, ?_⟩
  · simp only [sampleUser, List.forall_mem_cons, pageSize]
    decide
  · simp only [sampleUser, sampleImage, List.forall_mem_cons, pageSize]
    decide
  · simp only [sampleUser, pageSize]
    decide
  · simp only [sampleUser, sampleImage, returnStackSize]
    decide
  · simp only [sampleUser, List.forall_mem_cons, pageSize, returnStackSize]
    decide

def sampleCpuid : Cpuid :=
  ⟨(0x756e6547#32, 0x49656e69#32, 0x6c65746e#32), 1#32 <<< 11, 0x80000008#32, 1#32 <<< 20⟩

/-- A program that stores once on its stack and finishes at the completion gate. -/
def sampleProgram : UserProgram where
  events := [.store 0x9ffff8 1, .serve 0x7f00 2]
  frame := {
    registers := fun k => if k = 14 then result else if k = 9 then 0x2b else if k = 8 then 0x33 else 0
    vector := 0x80
    error := 0
    rip := 0x800010
    cs := 0x2b
    rflags := 2
    rsp := 0x9ffff0
    ss := 0x33 }
  rsp := 0xffff80000010ff00

/-- The session right after `init`, with zeros everywhere but in the root. -/
def sampleSession (t : Kernel) : Session where
  ledger := ⟨t.memory, []⟩
  ram := fun x => if pml4Address ≤ x ∧ x < pml4Address + pageSize then t.ram x else 0
  cr3 := t.cr3
  cr0 := 0x80000011
  msr := fun _ => 0
  interruptsEnabled := false
  kernelStack := 0xffff800000120000
  returnGate := none
  active := false

theorem sampleSession_ready (t : Kernel) :
    (sampleSession t).Ready sampleUser t ⟨t.memory, []⟩ := by
  have hzero : ∀ a i, pml4Address + pageSize ≤ a → entryAt (sampleSession t).ram a i = 0 := by
    intro a i ha
    have hbytes : ∀ j < 8, (sampleSession t).ram (a + 8 * i + j) = 0 := by
      intro j _
      exact if_neg (by omega)
    rw [entryAt, load64, load_eq_zero hbytes]
    rfl
  exact {
    ledger := rfl
    cr3 := rfl
    root := fun x h1 h2 => if_pos ⟨h1, h2⟩
    pdpt := fun i _ _ => hzero _ i (by decide)
    pd := fun i _ _ => hzero _ i (by decide)
    pt := fun i _ _ _ => hzero _ i (by decide) }

theorem sample_completes (t : Kernel) (ht : (init .dev sampleImage).run sampleKernel = .ok () t) :
    ∃ r, (demonstrate .dev sampleCpuid sampleUser sampleProgram).run
      ⟨sampleSession t, [sampleSession t]⟩ = .ok () r := by
  have h : (match (init .dev sampleImage).run sampleKernel with
    | .ok _ t => match (demonstrate .dev sampleCpuid sampleUser sampleProgram).run
        ⟨sampleSession t, [sampleSession t]⟩ with
      | .ok _ _ => true
      | .error _ _ => false
    | .error _ _ => false) = true := by decide +kernel
  rw [ht] at h
  cases hr : (demonstrate .dev sampleCpuid sampleUser sampleProgram).run
      ⟨sampleSession t, [sampleSession t]⟩ with
  | ok u r => exact ⟨r, rfl⟩
  | error e r =>
    dsimp only at h
    rw [hr] at h
    cases h

theorem demonstrate_isolated_sample : ∃ t, (init .dev sampleImage).run sampleKernel = .ok () t ∧
    ∃ before during after run,
      (final ((demonstrate .dev sampleCpuid sampleUser sampleProgram).run
          ⟨sampleSession t, [sampleSession t]⟩)).trace = before ++ during ++ after ∧
        (∀ x ∈ before ++ after, Closed x) ∧ (∀ x ∈ during, Opened run x) ∧ during ≠ [] ∧ after ≠ [] := by
  obtain ⟨t, ht⟩ := sample_init_ok
  obtain ⟨r, hr⟩ := sample_completes t ht
  obtain ⟨before, during, after, run, htrace, hclosed, hopened, hstates⟩ :=
    demonstrate_isolated .dev sampleImage sampleImage_linked _ sampleKernel t sampleKernel_booted ht []
      ⟨t.memory, []⟩ rfl sampleUser sampleUser_linked (sampleSession t) (sampleSession_ready t) sampleCpuid
      sampleProgram
  exact ⟨t, ht, before, during, after, run, htrace, hclosed, hopened, hstates r hr⟩

/-- CPL 3 can read the byte at `v`. -/
def UserReadable (s : Session) (v : ℕ) : Prop := Canonical v ∧ ∃ t, userTranslation s v = some t

theorem readable_eq_true {address length : BitVec 64} : readable address length = true ↔
    address.toNat + length.toNat < 2 ^ 64 ∧
      (code ≤ address.toNat ∧ address.toNat + length.toNat ≤ code + pageSize ∨
        stack ≤ address.toNat ∧ address.toNat + length.toNat ≤ stackTop) := by
  unfold readable
  by_cases h : address.toNat + length.toNat < 2 ^ 64
  · rw [checkedAdd_of_lt h]
    simp only [Bool.or_eq_true, Bool.and_eq_true, decide_eq_true_eq]
    exact ⟨fun hin => ⟨h, hin⟩, fun hin => hin.2⟩
  · have hnone : checkedAdd address.toNat length.toNat = none := if_neg h
    rw [hnone]
    constructor
    · intro hfalse
      cases hfalse
    · rintro ⟨hlt, -⟩
      exact absurd hlt h

theorem window_isSome {physical v : ℕ} : (∃ t, window physical v = some t) ↔
    code ≤ v ∧ v < code + pageSize ∨ stack ≤ v ∧ v < stackTop := by
  unfold window
  split
  · simp_all
  · split <;> simp_all

theorem Opened.readable_iff (h : Opened run s) {v : ℕ} :
    UserReadable s v ↔ code ≤ v ∧ v < code + pageSize ∨ stack ≤ v ∧ v < stackTop := by
  constructor
  · rintro ⟨hv, ht⟩
    rw [h.window v hv] at ht
    exact window_isSome.mp ht
  · intro hrange
    have hv : Canonical v := by
      unfold code pageSize stack stackTop at hrange
      left
      omega
    refine ⟨hv, ?_⟩
    rw [h.window v hv]
    exact window_isSome.mpr hrange

/-- A non-empty range meets both pages only by covering the hole between them. -/
theorem Opened.range_iff (h : Opened run s) {first length : ℕ} (hpos : 0 < length) :
    (∀ v, first ≤ v → v < first + length → UserReadable s v) ↔
      code ≤ first ∧ first + length ≤ code + pageSize ∨ stack ≤ first ∧ first + length ≤ stackTop := by
  constructor
  · intro hall
    have hfirst := h.readable_iff.mp (hall first le_rfl (by omega))
    have hlast := h.readable_iff.mp (hall (first + length - 1) (by omega) (by omega))
    have hhole := fun h1 h2 => h.readable_iff.mp (hall (code + pageSize) h1 h2)
    unfold code pageSize stack stackTop at *
    omega
  · intro hrange v h1 h2
    apply h.readable_iff.mpr
    omega

/-- In every state of the demonstration in which the mapping is installed, `readable` accepts a
non-empty range exactly when it does not wrap and CPL 3 can read each of its bytes. -/
theorem readable_iff_translated (p : Profile) (image : KernelImage) (himage : image.Linked)
    (base : BitVec 32) (k t : Kernel) (hk : k.Booted base) (ht : (init p image).run k = .ok () t)
    (ops : List Operation) (l : Ledger) (hl : (history p ops).run ⟨t.memory, []⟩ = .ok () l)
    (u : UserImage) (hu : u.Linked image) (s : Session) (hs : s.Ready u t l) (cpu : Cpuid)
    (program : UserProgram) (x : Session)
    (hx : x ∈ (final ((demonstrate p cpu u program).run ⟨s, [s]⟩)).trace)
    (hinstalled : rootEntry x ≠ 0) (address length : BitVec 64) (hlength : length ≠ 0) :
    readable address length = true ↔ address.toNat + length.toNat ≤ 2 ^ 64 - 1 ∧
      ∀ v, address.toNat ≤ v → v < address.toNat + length.toNat → UserReadable x v := by
  obtain ⟨run, hopened⟩ := installed_opened himage hk ht hl hu hs hx hinstalled
  have hpos : 0 < length.toNat := by
    apply Nat.pos_of_ne_zero
    intro hzero
    exact hlength (BitVec.eq_of_toNat_eq hzero)
  rw [readable_eq_true, hopened.range_iff hpos]
  constructor
  · rintro ⟨hlt, hin⟩
    exact ⟨by omega, hin⟩
  · rintro ⟨hle, hin⟩
    exact ⟨by omega, hin⟩

theorem sample_installed (t : Kernel) (ht : (init .dev sampleImage).run sampleKernel = .ok () t) :
    ∃ x ∈ (final ((demonstrate .dev sampleCpuid sampleUser sampleProgram).run
      ⟨sampleSession t, [sampleSession t]⟩)).trace, rootEntry x ≠ 0 ∧ x.active = true := by
  have h : (match (init .dev sampleImage).run sampleKernel with
    | .ok _ t => (final ((demonstrate .dev sampleCpuid sampleUser sampleProgram).run
        ⟨sampleSession t, [sampleSession t]⟩)).trace.any fun x => decide (rootEntry x ≠ 0) && x.active
    | .error _ _ => false) = true := by decide +kernel
  rw [ht] at h
  obtain ⟨x, hx, hboth⟩ := List.any_eq_true.mp h
  obtain ⟨hroot, hactive⟩ := Bool.and_eq_true_iff.mp hboth
  exact ⟨x, hx, of_decide_eq_true hroot, hactive⟩

theorem readable_iff_translated_sample : ∃ t, (init .dev sampleImage).run sampleKernel = .ok () t ∧
    ∃ x ∈ (final ((demonstrate .dev sampleCpuid sampleUser sampleProgram).run
      ⟨sampleSession t, [sampleSession t]⟩)).trace, rootEntry x ≠ 0 ∧
      (readable 0x800ff0#64 16#64 = true ↔
        (0x800ff0#64).toNat + (16#64).toNat ≤ 2 ^ 64 - 1 ∧
          ∀ v, (0x800ff0#64).toNat ≤ v → v < (0x800ff0#64).toNat + (16#64).toNat →
            UserReadable x v) := by
  obtain ⟨t, ht⟩ := sample_init_ok
  obtain ⟨x, hx, hroot, -⟩ := sample_installed t ht
  exact ⟨t, ht, x, hx, hroot, readable_iff_translated .dev sampleImage sampleImage_linked _ sampleKernel
    t sampleKernel_booted ht [] ⟨t.memory, []⟩ rfl sampleUser sampleUser_linked (sampleSession t)
    (sampleSession_ready t) sampleCpuid sampleProgram x hx hroot _ _ (by decide)⟩

end MikoOS.UserMode
