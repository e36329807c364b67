import MikoOS.AllocatorHistory

/-!
# First fit over histories

In every reachable state `allocate` is decided by which pages are outstanding: it answers with the
lowest window of the first zone that has one, or with an error that leaves the descriptor alone.
Since requests only shrink the set of free pages, a run that is released is found again by the
request it was granted for.
-/

namespace MikoOS

open Rust

namespace MemoryDescriptor

variable {s t : MemoryDescriptor} {area : AllocationArea} {count z y first w : ℕ}

theorem FirstFit.unique (h : s.FirstFit area count z first) (h' : s.FirstFit area count y w) :
    z = y ∧ first = w := by
  have hz : z = y := by
    rcases Nat.lt_trichotomy z y with hlt | heq | hlt
    · exact absurd h.window (h'.earliest z hlt first)
    · exact heq
    · exact absurd h'.window (h.earliest y hlt w)
  subst hz
  refine ⟨rfl, ?_⟩
  rcases Nat.lt_trichotomy first w with hlt | heq | hlt
  · exact absurd h.window (h'.lowest first hlt)
  · exact heq
  · exact absurd h'.window (h.lowest w hlt)

/-- A first fit is one in every state with fewer windows that still has it. -/
theorem FirstFit.of_window_mono (h : s.FirstFit area count z first)
    (hwindow : t.Window area count z first)
    (hmono : ∀ y w, t.Window area count y w → s.Window area count y w) :
    t.FirstFit area count z first where
  window := hwindow
  lowest := fun w hw hin => h.lowest w hw (hmono z w hin)
  earliest := fun y hy w hin => h.earliest y hy w (hmono y w hin)

end MemoryDescriptor

section Accounted

variable {s₀ : MemoryDescriptor} {l l' : Ledger} (hs : s₀.Consistent)

include hs

/-- A window of a reachable state is a window of the initial one without an outstanding page. -/
theorem Accounted.window_iff (h : Accounted s₀ l) {area : AllocationArea} {count z w : ℕ} :
    l.memory.Window area count z w ↔ s₀.Window area count z w ∧
      ∀ i, w ≤ i → i < w + count → i ∉ heldPages l.outstanding := by
  have hend : ∀ zone, AllocationArea.endAddress area zone / page2MSize ≤ zone.last := fun zone =>
    Nat.div_le_div_right (area.endAddress_le zone)
  have htake : ∀ zone n, (Zone.take n zone).first = zone.first ∧
      area.endAddress (Zone.take n zone) = area.endAddress zone := by
    intro zone n
    cases area <;> exact ⟨rfl, rfl⟩
  have hused : ∀ zone, s₀.HasZone z zone → w + count ≤ area.endAddress zone / page2MSize →
      ∀ i, i < w + count → l.memory.used i =
        if i ∈ heldPages l.outstanding then true else s₀.used i := by
    intro zone hzone hstop i hi
    have hlast := hend zone
    have hbits := hs.zone_last z zone hzone
    exact h.used_eq hs (by omega)
  constructor
  · rintro ⟨zone', hzone', hfirst, hstop, hfree⟩
    rw [h.memory] at hzone'
    obtain ⟨zone, hzone, rfl⟩ := MemoryDescriptor.hasZone_overlay.mp hzone'
    rw [(htake zone _).1] at hfirst
    rw [(htake zone _).2] at hstop
    have hboth : ∀ i, w ≤ i → i < w + count → i ∉ heldPages l.outstanding ∧ s₀.used i = false := by
      intro i h1 h2
      have hunused := hfree i h1 h2
      rw [hused zone hzone hstop i h2] at hunused
      split at hunused
      · cases hunused
      · exact ⟨‹_›, hunused⟩
    exact ⟨⟨zone, hzone, hfirst, hstop, fun i h1 h2 => (hboth i h1 h2).2⟩,
      fun i h1 h2 => (hboth i h1 h2).1⟩
  · rintro ⟨⟨zone, hzone, hfirst, hstop, hfree⟩, hnot⟩
    refine ⟨Zone.take (s₀.share (heldPages l.outstanding) z) zone, ?_, ?_, ?_, ?_⟩
    · rw [h.memory]
      exact MemoryDescriptor.hasZone_overlay.mpr ⟨zone, hzone, rfl⟩
    · rw [(htake zone _).1]
      exact hfirst
    · rw [(htake zone _).2]
      exact hstop
    · intro i h1 h2
      rw [hused zone hzone hstop i h2, if_neg (hnot i h1 h2)]
      exact hfree i h1 h2

/-- What was first fit before further requests is first fit again once its pages are free. -/
theorem Accounted.firstFit_again (h : Accounted s₀ l) (h' : Accounted s₀ l') {area : AllocationArea}
    {count z first : ℕ} (hfit : l.memory.FirstFit area count z first)
    (hsub : heldPages l.outstanding ⊆ heldPages l'.outstanding)
    (hfree : ∀ i, first ≤ i → i < first + count → i ∉ heldPages l'.outstanding) :
    l'.memory.FirstFit area count z first := by
  apply hfit.of_window_mono
  · exact (h'.window_iff hs).mpr ⟨((h.window_iff hs).mp hfit.window).1, hfree⟩
  · intro y w hin
    obtain ⟨hin, hnot⟩ := (h'.window_iff hs).mp hin
    exact (h.window_iff hs).mpr ⟨hin, fun i h1 h2 hi => hnot i h1 h2 (hsub hi)⟩

end Accounted

/-- In every reachable state `allocate` returns `InvalidCount` exactly for the count zero, the lowest
window of the first zone with one if there is a window, and otherwise `OutOfMemory`; an error leaves
the whole descriptor as it was. -/
theorem allocate_outcome (p : Profile) (image : KernelImage) (himage : image.Linked)
    (base : BitVec 32) (k t : Kernel) (hk : k.Booted base) (ht : (init p image).run k = .ok () t)
    (ops : List Operation) (l : Ledger) (hl : (history p ops).run ⟨t.memory, []⟩ = .ok () l)
    (area : AllocationArea) (count : ℕ) :
    ∃ r s, (allocate p area count).run l.memory = .ok r s ∧
      (r = .error .invalidCount ↔ count = 0) ∧
      ((∃ run, r = .ok run) ↔ 0 < count ∧ ∃ z w, l.memory.Window area count z w) ∧
      (∀ run, r = .ok run → run.count = count ∧ ∃ z, l.memory.FirstFit area count z run.first) ∧
      (r = .error .outOfMemory ↔ 0 < count ∧ ∀ z w, ¬ l.memory.Window area count z w) ∧
      ∀ e, r = .error e → s = l.memory := by
  obtain ⟨map, -, hrunning⟩ := init_ok himage hk ht
  have hs := hrunning.memory.consistent
  have hx := hrunning.memory.exclusive
  have h := Accounted.of_run hs hx p hl
  obtain ⟨r, s, hallocate, hanswer⟩ := (MemoryDescriptor.allocate_run p (h.consistent hs)
    (h.exclusive hs hx) area count).exists_ok
  refine ⟨r, s, hallocate, ?_⟩
  match r, hanswer with
  | .error .invalidCount, ⟨hzero, hsame⟩ =>
    subst hzero
    simp [hsame]
  | .error .outOfMemory, ⟨hpos, hsame, hnone⟩ =>
    have hne : count ≠ 0 := Nat.pos_iff_ne_zero.mp hpos
    simp [hsame, hpos, hnone, hne]
  | .ok run, ⟨hpos, hcount, ⟨z, hfit⟩, _⟩ =>
    have hne : count ≠ 0 := Nat.pos_iff_ne_zero.mp hpos
    have hwindow : ∃ z w, l.memory.Window area count z w := ⟨z, run.first, hfit.window⟩
    refine ⟨by simp [hne], by simp [hpos, hwindow], ?_, ?_, by simp⟩
    · intro run' hrun'
      cases hrun'
      exact ⟨hcount, z, hfit⟩
    · simp only [reduceCtorEq, false_iff]
      exact fun hnone => hnone.2 z run.first hfit.window

theorem allocate_outcome_sample : ∃ t, (init .dev sampleImage).run sampleKernel = .ok () t ∧
    ∃ r s, (allocate .dev .mapped 1).run t.memory = .ok r s ∧
      (r = .error .invalidCount ↔ 1 = 0) ∧
      ((∃ run, r = .ok run) ↔ 0 < 1 ∧ ∃ z w, t.memory.Window .mapped 1 z w) ∧
      (∀ run, r = .ok run → run.count = 1 ∧ ∃ z, t.memory.FirstFit .mapped 1 z run.first) ∧
      (r = .error .outOfMemory ↔ 0 < 1 ∧ ∀ z w, ¬ t.memory.Window .mapped 1 z w) ∧
      ∀ e, r = .error e → s = t.memory := by
  obtain ⟨t, ht⟩ := sample_init_ok
  exact ⟨t, ht, allocate_outcome .dev sampleImage sampleImage_linked _ sampleKernel t
    sampleKernel_booted ht [] ⟨t.memory, []⟩ rfl .mapped 1⟩

def requests (rs : List (AllocationArea × ℕ)) : List Operation := rs.map fun r => .allocate r.1 r.2

/-- Requests keep what is outstanding. -/
theorem Accounted.requests_run {s₀ : MemoryDescriptor} {l : Ledger} (hs : s₀.Consistent)
    (hx : s₀.Exclusive) (p : Profile) (h : Accounted s₀ l) (rs : List (AllocationArea × ℕ)) :
    ∃ l', (history p (requests rs)).run l = .ok () l' ∧ Accounted s₀ l' ∧
      l.outstanding ⊆ l'.outstanding := by
  induction rs generalizing l with
  | nil => exact ⟨l, rfl, h, List.Subset.refl _⟩
  | cons r rs ih =>
    obtain ⟨answer, l₁, hallocate, h₁, -, herror, hgrant⟩ := (h.allocatePages hs hx p r.1 r.2).exists_ok
    have hsub : l.outstanding ⊆ l₁.outstanding := by
      cases answer with
      | error e =>
        rw [herror e rfl]
        exact List.Subset.refl _
      | ok run =>
        rw [(hgrant run rfl).2]
        exact List.subset_append_left _ _
    obtain ⟨l₂, hrest, h₂, hsub₂⟩ := ih h₁
    have hstep : (perform p (.allocate r.1 r.2)).run l = .ok () l₁ := run_bind_ok hallocate
    exact ⟨l₂, (run_bind_ok hstep).trans hrest, h₂, List.Subset.trans hsub hsub₂⟩

theorem heldPages_mono {a b : List Holding} (h : a ⊆ b) : heldPages a ⊆ heldPages b := by
  intro i hi
  obtain ⟨holding, hmem, hi⟩ := mem_heldPages.mp hi
  exact mem_heldPages.mpr ⟨holding, h hmem, hi⟩

/-- A granted run that is released after any further requests is granted again from its first page
to the same request. -/
theorem allocate_reuse (p : Profile) (image : KernelImage) (himage : image.Linked)
    (base : BitVec 32) (k t : Kernel) (hk : k.Booted base) (ht : (init p image).run k = .ok () t)
    (ops : List Operation) (l : Ledger) (hl : (history p ops).run ⟨t.memory, []⟩ = .ok () l)
    (area : AllocationArea) (count : ℕ) (run : PageRun) (l₁ : Ledger)
    (hgranted : (allocatePages p area count).run l = .ok (.ok run) l₁)
    (rs : List (AllocationArea × ℕ)) :
    ∃ l₂ l₃ l₄ run', (history p (requests rs)).run l₁ = .ok () l₂ ∧
      (freePages p run).run l₂ = .ok () l₃ ∧
      (allocatePages p area count).run l₃ = .ok (.ok run') l₄ ∧ run'.first = run.first := by
  obtain ⟨map, -, hrunning⟩ := init_ok himage hk ht
  have hs := hrunning.memory.consistent
  have hx := hrunning.memory.exclusive
  have h := Accounted.of_run hs hx p hl
  -- the request that was granted
  have hfirst := h.allocatePages hs hx p area count
  rw [hgranted, satisfies_ok] at hfirst
  obtain ⟨h₁, ⟨hpos, hcount, ⟨z, hfit⟩, -⟩, -, hgrant⟩ := hfirst
  have houtstanding := (hgrant run rfl).2
  have hheld : ⟨area, run⟩ ∈ l₁.outstanding := by
    rw [houtstanding]
    exact List.mem_append_right _ (List.mem_singleton.mpr rfl)
  -- the requests in between and the release
  obtain ⟨l₂, hrequests, h₂, hsub⟩ := h₁.requests_run hs hx p rs
  obtain ⟨l₃, hfree, h₃, hpages⟩ := h₂.freePages hs p (hsub hheld)
  have hmem : ∀ i, run.first ≤ i → i < run.first + count → i ∈ run.pages := by
    intro i h1 h2
    exact PageRun.mem_pages.mpr ⟨h1, by omega⟩
  have hkept : heldPages l.outstanding ⊆ heldPages l₃.outstanding := by
    intro i hi
    rw [hpages, Finset.mem_sdiff]
    have hin : i ∈ heldPages l₁.outstanding := by
      rw [houtstanding, heldPages_append]
      exact Finset.mem_union_left _ hi
    refine ⟨heldPages_mono hsub hin, fun hi' => ?_⟩
    have hrun : i ∈ run.pages := hi'
    obtain ⟨h1, h2⟩ := PageRun.mem_pages.mp hrun
    exact ((h.window_iff hs).mp hfit.window).2 i h1 (by omega) hi
  have hfit₃ : l₃.memory.FirstFit area count z run.first := by
    refine h.firstFit_again hs h₃ hfit hkept fun i h1 h2 hi => ?_
    rw [hpages, Finset.mem_sdiff] at hi
    exact hi.2 (hmem i h1 h2)
  -- the same request again
  obtain ⟨answer, l₄, hagain, -, hanswer, -⟩ := (h₃.allocatePages hs hx p area count).exists_ok
  match answer, hanswer, hagain with
  | .error .invalidCount, hanswer, _ => exact absurd hanswer.1 (Nat.pos_iff_ne_zero.mp hpos)
  | .error .outOfMemory, hanswer, _ => exact absurd hfit₃.window (hanswer.2.2 z run.first)
  | .ok run', ⟨_, _, ⟨y, hfit'⟩, _⟩, hagain =>
    exact ⟨l₂, l₃, l₄, run', hrequests, hfree, hagain, (hfit'.unique hfit₃).2⟩

theorem allocate_reuse_sample : ∃ t l₁ run, (init .dev sampleImage).run sampleKernel = .ok () t ∧
    (allocatePages .dev .mapped 1).run ⟨t.memory, []⟩ = .ok (.ok run) l₁ ∧
    ∃ l₂ l₃ l₄ run', (history .dev (requests [(.any, 1), (.mapped, 2)])).run l₁ = .ok () l₂ ∧
      (freePages .dev run).run l₂ = .ok () l₃ ∧
      (allocatePages .dev .mapped 1).run l₃ = .ok (.ok run') l₄ ∧ run'.first = run.first := by
  have h : (match (init .dev sampleImage).run sampleKernel with
    | .ok _ t => (match (allocatePages .dev .mapped 1).run ⟨t.memory, []⟩ with
      | .ok (.ok _) _ => true
      | _ => false)
    | .error _ _ => false) = true := by decide +kernel
  obtain ⟨t, ht⟩ := sample_init_ok
  rw [ht] at h
  cases hgranted : (allocatePages .dev .mapped 1).run ⟨t.memory, []⟩ with
  | error e l₁ =>
    simp only [hgranted, Bool.false_eq_true] at h
  | ok answer l₁ =>
    cases answer with
    | error e => simp only [hgranted, Bool.false_eq_true] at h
    | ok run =>
      exact ⟨t, l₁, run, ht, hgranted, allocate_reuse .dev sampleImage sampleImage_linked _ sampleKernel
        t sampleKernel_booted ht [] ⟨t.memory, []⟩ rfl .mapped 1 run l₁ hgranted _⟩

end MikoOS
