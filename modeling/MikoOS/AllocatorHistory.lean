import MikoOS.KernelInit

/-!
# Histories of allocations and releases

A ledger is the descriptor together with the page runs handed out and not yet released, each with
the area it was requested for. `perform` is one operation of a caller that releases only runs it
holds. After every history the descriptor is the initial one with exactly the pages of the
outstanding runs marked, so it depends only on which runs are outstanding.
-/

namespace MikoOS

open PageWalk Rust

/-- A page run with the area it was requested for. -/
structure Holding where
  area : AllocationArea
  run : PageRun
  deriving DecidableEq, Repr

structure Ledger where
  memory : MemoryDescriptor
  outstanding : List Holding

inductive Operation
  | allocate (area : AllocationArea) (count : ℕ)
  | release (index : ℕ)
  deriving DecidableEq, Repr

def onDescriptor {α : Type} (x : Exec MemoryDescriptor α) : Exec Ledger α :=
  zoom Ledger.memory (fun memory l => { l with memory := memory }) x

/-- `memory::allocate_pages`: a failed request hands out nothing. -/
def allocatePages (p : Profile) (area : AllocationArea) (count : ℕ) :
    Exec Ledger (Except AllocationError PageRun) := do
  match ← onDescriptor (allocate p area count) with
  | .error e => return .error e
  | .ok run =>
    modify fun l => { l with outstanding := l.outstanding ++ [⟨area, run⟩] }
    return .ok run

/-- `memory::free_pages` of a run the caller holds. -/
def freePages (p : Profile) (run : PageRun) : Exec Ledger Unit := do
  onDescriptor (release p run)
  modify fun l =>
    { l with outstanding := l.outstanding.eraseIdx (l.outstanding.findIdx (·.run = run)) }

/-- An index without a holding releases nothing. -/
def perform (p : Profile) : Operation → Exec Ledger Unit
  | .allocate area count => do
    let _ ← allocatePages p area count
  | .release index => do
    match (← get).outstanding[index]? with
    | none => return ()
    | some holding =>
      onDescriptor (release p holding.run)
      modify fun l => { l with outstanding := l.outstanding.eraseIdx index }

def history (p : Profile) : List Operation → Exec Ledger Unit
  | [] => return ()
  | op :: ops => do
    perform p op
    history p ops

/-- The pages of a list of holdings. -/
def heldPages (holdings : List Holding) : Finset ℕ :=
  holdings.foldr (fun h pages => h.run.pages ∪ pages) ∅

theorem mem_heldPages {holdings : List Holding} {i : ℕ} :
    i ∈ heldPages holdings ↔ ∃ h ∈ holdings, i ∈ h.run.pages := by
  induction holdings with
  | nil => simp [heldPages]
  | cons h rest ih =>
    rw [heldPages, List.foldr_cons, Finset.mem_union, ← heldPages, ih]
    simp

theorem heldPages_append (holdings : List Holding) (h : Holding) :
    heldPages (holdings ++ [h]) = heldPages holdings ∪ h.run.pages := by
  ext i
  simp only [mem_heldPages, Finset.mem_union, List.mem_append, List.mem_singleton, or_and_right,
    exists_or, exists_eq_left]

/-- A holding is a non-empty run of initially free pages of one zone, inside its area. -/
structure Fits (s₀ : MemoryDescriptor) (h : Holding) : Prop where
  count_pos : 0 < h.run.count
  zone : ∃ z zone, s₀.HasZone z zone ∧ zone.first ≤ h.run.first ∧
    h.run.first + h.run.count ≤ h.area.endAddress zone / page2MSize
  free : ∀ i ∈ h.run.pages, s₀.Free i

/-- The descriptor is the initial one with the outstanding pages marked. -/
structure Accounted (s₀ : MemoryDescriptor) (l : Ledger) : Prop where
  memory : l.memory = s₀.mark runAttributes (heldPages l.outstanding)
  fits : ∀ h ∈ l.outstanding, Fits s₀ h
  disjoint : l.outstanding.Pairwise fun a b => Disjoint a.run.pages b.run.pages

theorem AllocationArea.endAddress_le (area : AllocationArea) (zone : Zone) :
    area.endAddress zone ≤ zone.endAddress := by
  cases area with
  | mapped => exact min_le_left _ _
  | any => exact le_rfl

theorem heldPages_eraseIdx {holdings : List Holding} {k : ℕ} {h : Holding}
    (hk : holdings[k]? = some h)
    (hdisjoint : holdings.Pairwise fun a b => Disjoint a.run.pages b.run.pages) :
    heldPages (holdings.eraseIdx k) = heldPages holdings \ h.run.pages := by
  induction holdings generalizing k with
  | nil => simp at hk
  | cons first rest ih =>
    obtain ⟨hfirst, hrest⟩ := List.pairwise_cons.mp hdisjoint
    have hcons : ∀ hs : List Holding, heldPages (first :: hs) = first.run.pages ∪ heldPages hs :=
      fun _ => rfl
    cases k with
    | zero =>
      obtain rfl : first = h := by simpa using hk
      have hout : Disjoint (heldPages rest) first.run.pages := by
        rw [Finset.disjoint_left]
        intro i hi
        obtain ⟨other, hother, hmem⟩ := mem_heldPages.mp hi
        exact Finset.disjoint_right.mp (hfirst other hother) hmem
      rw [List.eraseIdx_cons_zero, hcons, Finset.union_sdiff_distrib, Finset.sdiff_self,
        Finset.empty_union, Finset.sdiff_eq_self_of_disjoint hout]
    | succ k =>
      have hk' : rest[k]? = some h := by simpa using hk
      rw [List.eraseIdx_cons_succ, hcons, hcons, ih hk' hrest, Finset.union_sdiff_distrib,
        Finset.sdiff_eq_self_of_disjoint (hfirst h (List.mem_of_getElem? hk'))]

namespace Accounted

variable {s₀ : MemoryDescriptor} {l : Ledger} (hs : s₀.Consistent) (hx : s₀.Exclusive)

theorem initial (s₀ : MemoryDescriptor) : Accounted s₀ ⟨s₀, []⟩ where
  memory := MemoryDescriptor.mark_empty.symm
  fits := fun _ h => absurd h List.not_mem_nil
  disjoint := List.Pairwise.nil

theorem held_free (h : Accounted s₀ l) : ∀ i ∈ heldPages l.outstanding, s₀.Free i := fun i hi => by
  obtain ⟨holding, hmem, hi⟩ := mem_heldPages.mp hi
  exact (h.fits holding hmem).free i hi

include hs

theorem consistent (h : Accounted s₀ l) : l.memory.Consistent := by
  rw [h.memory]
  exact hs.mark (fun i hi => ⟨(h.held_free i hi).1, hs.free_attributes (h.held_free i hi)⟩)
    fun i _ => runAttributes_ne_zero i

theorem held_lt (h : Accounted s₀ l) : ∀ i ∈ heldPages l.outstanding, i < s₀.pages.length :=
  fun i hi => by
    rw [hs.length_pages]
    exact (h.held_free i hi).1

theorem used_eq (h : Accounted s₀ l) {i : ℕ} (hi : i < s₀.bitsSize) :
    l.memory.used i = if i ∈ heldPages l.outstanding then true else s₀.used i := by
  rw [h.memory, hs.used_mark hi]

/-- A granted request keeps the account. -/
theorem grant (h : Accounted s₀ l) {area : AllocationArea} {run : PageRun} {z : ℕ}
    (hpos : 0 < run.count) (hfit : l.memory.FirstFit area run.count z run.first) :
    Accounted s₀ ⟨l.memory.mark runAttributes run.pages, l.outstanding ++ [⟨area, run⟩]⟩ := by
  obtain ⟨zone', hzone', hfirst, hstop, hfree⟩ := hfit.window
  rw [h.memory] at hzone'
  obtain ⟨zone, hzone, rfl⟩ := MemoryDescriptor.hasZone_overlay.mp hzone'
  have hfirst : zone.first ≤ run.first := hfirst
  have hstop : run.first + run.count ≤ area.endAddress zone / page2MSize := by
    cases area with
    | mapped => exact hstop
    | any => exact hstop
  have hlast : area.endAddress zone / page2MSize ≤ zone.last :=
    Nat.div_le_div_right (area.endAddress_le zone)
  have hbits := hs.zone_last z zone hzone
  have hnew : ∀ i ∈ run.pages, i ∉ heldPages l.outstanding ∧ s₀.Free i := fun i hi => by
    obtain ⟨h1, h2⟩ := PageRun.mem_pages.mp hi
    have hlt : i < s₀.bitsSize := by omega
    have hunused := hfree i h1 h2
    rw [h.used_eq hs hlt] at hunused
    split at hunused
    · cases hunused
    · exact ⟨‹_›, hlt, hunused⟩
  have hdisjoint : Disjoint (heldPages l.outstanding) run.pages :=
    Finset.disjoint_right.mpr fun i hi => (hnew i hi).1
  refine ⟨?_, fun other hother => ?_, ?_⟩
  · rw [heldPages_append, ← MemoryDescriptor.mark_mark hdisjoint, ← h.memory]
  · rcases List.mem_append.mp hother with hother | hother
    · exact h.fits other hother
    · rw [List.mem_singleton.mp hother]
      exact ⟨hpos, ⟨z, zone, hzone, hfirst, hstop⟩, fun i hi => (hnew i hi).2⟩
  · refine List.pairwise_append.mpr ⟨h.disjoint, List.pairwise_singleton _ _, fun a ha b hb => ?_⟩
    rw [List.mem_singleton.mp hb]
    exact Finset.disjoint_left.mpr fun i hi hrun =>
      (hnew i hrun).1 (mem_heldPages.mpr ⟨a, ha, hi⟩)

/-- Every outstanding run can be released. -/
theorem held (h : Accounted s₀ l) {holding : Holding} (hmem : holding ∈ l.outstanding) :
    l.memory.Held holding.run := by
  have hfits := h.fits holding hmem
  obtain ⟨z, zone, hzone, hfirst, hstop⟩ := hfits.zone
  have hlast : holding.area.endAddress zone / page2MSize ≤ zone.last :=
    Nat.div_le_div_right (holding.area.endAddress_le zone)
  have hin : ∀ i ∈ holding.run.pages, i ∈ heldPages l.outstanding := fun i hi =>
    mem_heldPages.mpr ⟨holding, hmem, hi⟩
  have hattr : ∀ i ∈ holding.run.pages, l.memory.attributesOf i = runAttributes i := fun i hi => by
    rw [h.memory, MemoryDescriptor.attributesOf_mark (h.held_lt hs), if_pos (hin i hi)]
  exact {
    count_pos := hfits.count_pos
    zone := ⟨z, fun i hi => by
      obtain ⟨h1, h2⟩ := PageRun.mem_pages.mp hi
      rw [h.memory, MemoryDescriptor.zoneOf_mark]
      exact hs.zone_of_mem hzone (Finset.mem_Ico.mpr ⟨by omega, by omega⟩)⟩
    held := fun i hi => by
      rw [hattr i hi]
      exact runAttributes_ne_zero i
    ordinary := fun i hi => by
      rw [hattr i hi]
      exact runAttributes_ordinary i
    references := fun i hi => by
      rw [h.memory, MemoryDescriptor.references_mark (h.held_lt hs), if_pos (hin i hi)] }

/-- Releasing an outstanding run keeps the account. -/
theorem giveBack (h : Accounted s₀ l) {k : ℕ} {holding : Holding}
    (hk : l.outstanding[k]? = some holding) :
    Accounted s₀ ⟨l.memory.clear holding.run.pages, l.outstanding.eraseIdx k⟩ := by
  have hmem := List.mem_of_getElem? hk
  have hsub : holding.run.pages ⊆ heldPages l.outstanding := fun i hi =>
    mem_heldPages.mpr ⟨holding, hmem, hi⟩
  refine ⟨?_, fun other hother => h.fits other (List.mem_of_mem_eraseIdx hother), ?_⟩
  · rw [heldPages_eraseIdx hk h.disjoint, h.memory]
    exact hs.clear_mark h.held_free hsub
  · exact h.disjoint.sublist (List.eraseIdx_sublist _ _)

include hx

theorem exclusive (h : Accounted s₀ l) : l.memory.Exclusive := by
  rw [h.memory]
  exact hx.mark (h.held_lt hs)

/-- A request keeps the account; a granted run is outstanding from then on. -/
theorem allocatePages (p : Profile) (h : Accounted s₀ l) (area : AllocationArea) (count : ℕ) :
    Satisfies ((MikoOS.allocatePages p area count).run l) (fun r t => Accounted s₀ t ∧
        l.memory.Answers area count r t.memory ∧ (∀ e, r = .error e → t = l) ∧
        ∀ run, r = .ok run → run.count = count ∧ t.outstanding = l.outstanding ++ [⟨area, run⟩])
      fun _ _ => False := by
  have hanswer : Satisfies ((onDescriptor (allocate p area count)).run l)
      (fun r t => ∃ memory, l.memory.Answers area count r memory ∧ t = { l with memory := memory })
      fun _ _ => False :=
    (MemoryDescriptor.allocate_run p (h.consistent hs) (h.exclusive hs hx) area count).zoom.mono
      (fun _ _ h => h) fun _ _ ⟨_, hfalse, _⟩ => hfalse
  refine hanswer.bind ?_
  rintro r _ ⟨memory, hmemory, rfl⟩
  match r, hmemory with
  | .error .invalidCount, hmemory =>
    refine satisfies_ok.mpr ⟨?_, hmemory, ?_, fun _ hr => nomatch hr⟩
    · rw [hmemory.2]
      exact h
    · rw [hmemory.2]
      exact fun _ _ => rfl
  | .error .outOfMemory, hmemory =>
    refine satisfies_ok.mpr ⟨?_, hmemory, ?_, fun _ hr => nomatch hr⟩
    · rw [hmemory.2.1]
      exact h
    · rw [hmemory.2.1]
      exact fun _ _ => rfl
  | .ok run, hmemory =>
    obtain ⟨hpos, hcount, ⟨z, hfit⟩, hmark⟩ := hmemory
    subst hcount
    refine satisfies_ok.mpr ⟨?_, ⟨hpos, rfl, ⟨z, hfit⟩, hmark⟩, ?_, ?_⟩
    · rw [hmark]
      exact h.grant hs hpos hfit
    · intro e he
      cases he
    · intro run' hr
      cases hr
      exact ⟨rfl, rfl⟩

omit hx in
/-- An outstanding run is released without a panic, and with it exactly its pages. -/
theorem freePages (p : Profile) (h : Accounted s₀ l) {holding : Holding}
    (hmem : holding ∈ l.outstanding) :
    ∃ t, (MikoOS.freePages p holding.run).run l = .ok () t ∧ Accounted s₀ t ∧
      heldPages t.outstanding = heldPages l.outstanding \ holding.run.pages := by
  have hlt : l.outstanding.findIdx (·.run = holding.run) < l.outstanding.length :=
    List.findIdx_lt_length_of_exists ⟨holding, hmem, by simp⟩
  have hrun := List.findIdx_getElem (w := hlt)
  rw [decide_eq_true_eq] at hrun
  have hrelease := MemoryDescriptor.release_run p (h.consistent hs) (h.held hs hmem)
  have hzoom : (onDescriptor (release p holding.run)).run l =
      .ok () { l with memory := l.memory.clear holding.run.pages } := run_zoom_ok hrelease
  have hback := h.giveBack hs (List.getElem?_eq_getElem hlt)
  have hpages := heldPages_eraseIdx (List.getElem?_eq_getElem hlt) h.disjoint
  rw [hrun] at hback hpages
  exact ⟨_, run_bind_ok hzoom, hback, hpages⟩

/-- One operation keeps the account and never panics. -/
theorem step (p : Profile) (h : Accounted s₀ l) (op : Operation) :
    Satisfies ((perform p op).run l) (fun _ l' => Accounted s₀ l') fun _ _ => False := by
  cases op with
  | allocate area count =>
    apply (h.allocatePages hs hx p area count).bind
    intro r t ht
    exact satisfies_ok.mpr ht.1
  | release index =>
    rw [perform, run_get_bind]
    cases hk : l.outstanding[index]? with
    | none => exact satisfies_ok.mpr h
    | some holding =>
      have hrelease := MemoryDescriptor.release_run p (h.consistent hs)
        (h.held hs (List.mem_of_getElem? hk))
      have hzoom : (onDescriptor (release p holding.run)).run l =
          .ok () { l with memory := l.memory.clear holding.run.pages } := run_zoom_ok hrelease
      simp only
      rw [run_bind_ok hzoom]
      exact satisfies_ok.mpr (h.giveBack hs hk)

/-- Every history keeps the account and never panics. -/
theorem run (p : Profile) (h : Accounted s₀ l) (ops : List Operation) :
    ∃ l', (history p ops).run l = .ok () l' ∧ Accounted s₀ l' := by
  induction ops generalizing l with
  | nil => exact ⟨l, rfl, h⟩
  | cons op ops ih =>
    obtain ⟨_, l₁, hstep, h₁⟩ := (h.step hs hx p op).exists_ok
    obtain ⟨l₂, hrest, h₂⟩ := ih h₁
    exact ⟨l₂, (run_bind_ok hstep).trans hrest, h₂⟩

/-- The account of a history that has run. -/
theorem of_run (p : Profile) {ops : List Operation} (hl : (history p ops).run ⟨s₀, []⟩ = .ok () l) :
    Accounted s₀ l := by
  obtain ⟨l', hrun, h⟩ := (initial s₀).run hs hx p ops
  rw [hl] at hrun
  cases hrun
  exact h

end Accounted

/-- `s` is `s₀` with exactly the pages of `B` handed out. -/
structure HandedOut (s₀ s : MemoryDescriptor) (B : Finset ℕ) : Prop where
  held : ∀ i ∈ B, s.used i = true ∧ ∃ page, s₀.pages[i]? = some page ∧ s.pages[i]? = some { page with
    attributes := Flags.active ||| Flags.kernel |||
      (if i < directRamEnd / page2MSize then Flags.pageTableMapped else 0)
    referenceCount := 1 }
  other : ∀ i, i ∉ B → s.used i = s₀.used i ∧ s.pages[i]? = s₀.pages[i]?
  counters : ∀ z zone, s₀.HasZone z zone → ∃ zone', s.zones[z]? = some zone' ∧ zone' = { zone with
    pageUsingCount := (s.recount zone).1
    pageFreeCount := (s.recount zone).2.1
    totalPagesRefCount := (s.recount zone).2.2 } ∧
      zone'.pageUsingCount + zone'.pageFreeCount = zone'.numberPages
  unusedZones : ∀ z, ¬ z < s₀.zonesSize → s.zones[z]? = s₀.zones[z]?
  rest : s = { s₀ with bitsMap := s.bitsMap, pages := s.pages, zones := s.zones }

theorem runAttributes_eq (i : ℕ) : runAttributes i = Flags.active ||| Flags.kernel |||
    (if i < directRamEnd / page2MSize then Flags.pageTableMapped else 0) := by
  unfold runAttributes
  split <;> rfl

theorem Accounted.handedOut {s₀ : MemoryDescriptor} {l : Ledger} (hs : s₀.Consistent)
    (h : Accounted s₀ l) : HandedOut s₀ l.memory (heldPages l.outstanding) where
  held := fun i hi => by
    obtain ⟨page, hpage⟩ := hs.exists_page (h.held_free i hi).1
    refine ⟨by rw [h.used_eq hs (h.held_free i hi).1, if_pos hi], page, hpage, ?_⟩
    rw [h.memory, MemoryDescriptor.mark, MemoryDescriptor.getElem?_pages_overlay, hpage,
      Option.map_some, if_pos hi, ← runAttributes_eq]
    rfl
  other := fun i hi => by
    rw [h.memory]
    refine ⟨?_, ?_⟩
    · by_cases hlt : i < 64 * s₀.bitsMap.length
      · rw [MemoryDescriptor.mark, MemoryDescriptor.used_overlay hlt, if_neg hi]
      · have hlen : 64 * (WordBits.assign s₀.bitsMap (heldPages l.outstanding) true).length ≤ i := by
          rw [WordBits.length_assign]
          omega
        exact (WordBits.testBit_of_length_le hlen).trans
          (WordBits.testBit_of_length_le (Nat.le_of_not_lt hlt)).symm
    · rw [MemoryDescriptor.mark, MemoryDescriptor.getElem?_pages_overlay]
      cases s₀.pages[i]? <;> simp [hi]
  counters := fun z zone hzone => by
    have hnew : l.memory.HasZone z (zone.take (s₀.share (heldPages l.outstanding) z)) := by
      rw [h.memory]
      exact MemoryDescriptor.hasZone_overlay.mpr ⟨zone, hzone, rfl⟩
    have hcounts := (h.consistent hs).counts z _ hnew
    have hsum := (h.consistent hs).using_add_free hnew
    refine ⟨_, hnew.2, ?_, hsum⟩
    change _ = l.memory.recount zone at hcounts
    rw [← hcounts]
    rfl
  unusedZones := fun z hz => by
    rw [h.memory, MemoryDescriptor.mark, MemoryDescriptor.getElem?_zones_overlay,
      hs.share_of_not_lt hz]
    exact Option.map_id'
  rest := by
    rw [h.memory]
    rfl

theorem Accounted.memory_congr {s₀ : MemoryDescriptor} {l l' : Ledger} (h : Accounted s₀ l)
    (h' : Accounted s₀ l')
    (heq : ∀ run, run ∈ l.outstanding.map Holding.run ↔ run ∈ l'.outstanding.map Holding.run) :
    l'.memory = l.memory := by
  have hpages : heldPages l'.outstanding = heldPages l.outstanding := by
    ext i
    rw [mem_heldPages, mem_heldPages]
    simp only [List.mem_map] at heq
    constructor
    · rintro ⟨a, ha, hi⟩
      obtain ⟨b, hb, hrun⟩ := (heq a.run).mpr ⟨a, ha, rfl⟩
      exact ⟨b, hb, hrun ▸ hi⟩
    · rintro ⟨a, ha, hi⟩
      obtain ⟨b, hb, hrun⟩ := (heq a.run).mp ⟨a, ha, rfl⟩
      exact ⟨b, hb, hrun ▸ hi⟩
  rw [h.memory, h'.memory, hpages]

/-- After `init`, no history of allocations and releases panics; the descriptor it leaves is the
initial one with the pages of the outstanding runs handed out, whatever the order. -/
theorem history_state (p : Profile) (image : KernelImage) (himage : image.Linked)
    (base : BitVec 32) (k t : Kernel) (hk : k.Booted base)
    (ht : (init p image).run k = .ok () t) (ops : List Operation) :
    ∃ l, (history p ops).run ⟨t.memory, []⟩ = .ok () l ∧
      HandedOut t.memory l.memory (heldPages l.outstanding) ∧
      (l.outstanding = [] → l.memory = t.memory) ∧
      ∀ ops' l', (history p ops').run ⟨t.memory, []⟩ = .ok () l' →
        (∀ run, run ∈ l.outstanding.map Holding.run ↔ run ∈ l'.outstanding.map Holding.run) →
        l'.memory = l.memory := by
  obtain ⟨map, -, hrunning⟩ := init_ok himage hk ht
  have hs := hrunning.memory.consistent
  have hx := hrunning.memory.exclusive
  obtain ⟨l, hrun, h⟩ := (Accounted.initial t.memory).run hs hx p ops
  refine ⟨l, hrun, h.handedOut hs, fun hempty => ?_, fun ops' l' hrun' heq => ?_⟩
  · rw [h.memory, hempty]
    exact MemoryDescriptor.mark_empty
  · exact h.memory_congr (Accounted.of_run hs hx p hrun') heq

theorem history_state_sample : ∃ t, (init .dev sampleImage).run sampleKernel = .ok () t ∧
    ∃ l, (history .dev [.allocate .mapped 1, .allocate .any 1, .release 0]).run ⟨t.memory, []⟩ =
        .ok () l ∧
      HandedOut t.memory l.memory (heldPages l.outstanding) ∧
      (l.outstanding = [] → l.memory = t.memory) ∧
      ∀ ops' l', (history .dev ops').run ⟨t.memory, []⟩ = .ok () l' →
        (∀ run, run ∈ l.outstanding.map Holding.run ↔ run ∈ l'.outstanding.map Holding.run) →
        l'.memory = l.memory := by
  obtain ⟨t, ht⟩ := sample_init_ok
  exact ⟨t, ht, history_state .dev sampleImage sampleImage_linked _ sampleKernel t
    sampleKernel_booted ht _⟩

/-- Every byte of `run` is ordinary RAM of one entry and of no other non-empty entry. -/
def InOneEntry (entries : List E820Entry) (run : PageRun) : Prop :=
  ∃ (j : ℕ) (e : E820Entry), entries[j]? = some e ∧ e.Ram ∧
    e.Covers run.physicalAddress (run.physicalAddress + run.count * page2MSize) ∧
    ∀ (j' : ℕ) (e' : E820Entry), entries[j']? = some e' → j' ≠ j → e'.length ≠ 0 →
      e'.stop ≤ run.physicalAddress ∨
        run.physicalAddress + run.count * page2MSize ≤ e'.address.toNat

/-- The byte at `x` is reached at its high-half address through one of the first five PDEs. -/
def DirectlyMapped (k : Kernel) (x : ℕ) : Prop :=
  x < directRamEnd ∧ (pageOffset + x) / 2 ^ 21 % 512 < 5 ∧
    walk k.ram k.cr3.toNat (pageOffset + x) = some ⟨x, ⟨false, true, false⟩⟩

theorem E820Entry.covers_of_span {e : E820Entry} {first last a b : ℕ}
    (h : e.span = some (first, last)) (ha : first ≤ a) (hb : b ≤ last) :
    e.Covers (a * page2MSize) (b * page2MSize) := by
  obtain ⟨-, hlt, heq⟩ := E820Entry.span_eq_some.mp h
  simp only [Prod.mk.injEq] at heq
  obtain ⟨rfl, rfl⟩ := heq
  have hlow := (E820Entry.covers_page.mpr ⟨le_rfl, hlt⟩).1
  have hhigh := Nat.div_mul_le_self e.stop page2MSize
  have h1 := Nat.mul_le_mul_right page2MSize ha
  have h2 := Nat.mul_le_mul_right page2MSize hb
  exact ⟨hlow.trans h1, h2.trans hhigh⟩

theorem Fits.inOneEntry {image : KernelImage} {map : MemoryMap} {s₀ : MemoryDescriptor}
    (hmap : map.Accepted) (hs : s₀.Initial image map) {h : Holding} (hfits : Fits s₀ h) :
    InOneEntry map.used h.run := by
  obtain ⟨z, zone, hzone, hfirst, hstop⟩ := hfits.zone
  obtain ⟨e, he, hspan⟩ := hs.zone z zone hzone
  have hlast : h.area.endAddress zone / page2MSize ≤ zone.last :=
    Nat.div_le_div_right (h.area.endAddress_le zone)
  have hcovers := E820Entry.covers_of_span hspan hfirst (hstop.trans hlast)
  obtain ⟨j, hj⟩ := List.getElem?_of_mem he
  have hram := (E820Entry.span_eq_some.mp hspan).1
  rw [Nat.add_mul] at hcovers
  refine ⟨j, e, hj, hram, hcovers, fun j' e' hj' hne hlength => ?_⟩
  obtain ⟨hlt, rfl⟩ := List.getElem?_eq_some_iff.mp hj
  obtain ⟨hlt', rfl⟩ := List.getElem?_eq_some_iff.mp hj'
  have hapart : E820Entry.Apart map.used[j'] map.used[j] := by
    rcases Nat.lt_or_gt_of_ne hne with h | h
    · exact List.pairwise_iff_getElem.mp hmap.valid.2 j' j hlt' hlt h
    · exact (List.pairwise_iff_getElem.mp hmap.valid.2 j j' hlt hlt' h).symm
  obtain ⟨h1, h2⟩ := hcovers
  rw [PageRun.physicalAddress]
  rcases hapart hlength hram.2 with h | h
  · exact .inl (h.trans h1)
  · exact .inr (h2.trans h)

theorem Fits.metadata_le {image : KernelImage} {map : MemoryMap} {s₀ : MemoryDescriptor}
    (hs : s₀.Initial image map) {h : Holding} (hfits : Fits s₀ h) :
    s₀.endOfStruct - pageOffset ≤ h.run.physicalAddress := by
  have hfirst : h.run.first ∈ h.run.pages :=
    PageRun.mem_pages.mpr ⟨le_rfl, Nat.lt_add_of_pos_right hfits.count_pos⟩
  have hle := ((hs.free_iff _).mp (hfits.free _ hfirst)).2
  rw [PageRun.physicalAddress]
  rw [Nat.div_le_iff_le_mul (by decide)] at hle
  omega

theorem Fits.directlyMapped {image : KernelImage} {map : MemoryMap} {base : BitVec 32} {t : Kernel}
    (ht : t.Running image map base) {h : Holding} (hfits : Fits t.memory h)
    (harea : h.area = .mapped) {x : ℕ}
    (hx : x < h.run.physicalAddress + h.run.count * page2MSize) : DirectlyMapped t x := by
  obtain ⟨z, zone, hzone, hfirst, hstop⟩ := hfits.zone
  rw [harea] at hstop
  have harea : AllocationArea.mapped.endAddress zone / page2MSize ≤ directRamEnd / page2MSize :=
    Nat.div_le_div_right (min_le_right _ _)
  have hlt : x < directRamEnd := by
    rw [PageRun.physicalAddress, ← Nat.add_mul] at hx
    have hle := Nat.mul_le_mul_right page2MSize (hstop.trans harea)
    exact hx.trans_le (hle.trans (Nat.div_mul_le_self _ _))
  refine ⟨hlt, ?_, ?_⟩
  · rw [directRamEnd] at hlt
    rw [pageOffset]
    omega
  · rw [ht.cr3]
    exact ht.tables.walk_ram hlt

/-- After every history the outstanding runs are pairwise disjoint; each lies in one zone and one
entry of ordinary RAM, behind the metadata and outside every page without a zone, and the runs
requested as mapped are reached at their high-half addresses. -/
theorem history_outstanding (p : Profile) (image : KernelImage) (himage : image.Linked)
    (base : BitVec 32) (k t : Kernel) (hk : k.Booted base) (map : MemoryMap)
    (hmap : (readMemoryMap p k.ram : Exec Kernel MemoryMap).run k = .ok map k)
    (ht : (init p image).run k = .ok () t) (ops : List Operation) :
    ∃ l, (history p ops).run ⟨t.memory, []⟩ = .ok () l ∧
      (l.outstanding.Pairwise fun a b => Disjoint a.run.pages b.run.pages) ∧
      ∀ h ∈ l.outstanding,
        (∃ z zone, t.memory.HasZone z zone ∧ h.run.pages ⊆ zone.range) ∧
        InOneEntry map.used h.run ∧
        t.memory.endOfStruct - pageOffset ≤ h.run.physicalAddress ∧
        (∀ i ∈ h.run.pages, t.memory.zoneOf i ≠ none) ∧
        (h.area = .mapped → ∀ x, h.run.physicalAddress ≤ x →
          x < h.run.physicalAddress + h.run.count * page2MSize → DirectlyMapped t x) := by
  have haccepted := (readMemoryMap_eq_ok.mp hmap).2.2
  have hrunning := init_run p himage hk hmap
  rw [ht, satisfies_ok] at hrunning
  have hs := hrunning.memory.consistent
  obtain ⟨l, hrun, hl⟩ := (Accounted.initial t.memory).run hs hrunning.memory.exclusive p ops
  refine ⟨l, hrun, hl.disjoint, fun h hmem => ?_⟩
  have hfits := hl.fits h hmem
  refine ⟨?_, hfits.inOneEntry haccepted hrunning.memory, hfits.metadata_le hrunning.memory, ?_, ?_⟩
  · obtain ⟨z, zone, hzone, hfirst, hstop⟩ := hfits.zone
    have hlast : h.area.endAddress zone / page2MSize ≤ zone.last :=
      Nat.div_le_div_right (h.area.endAddress_le zone)
    refine ⟨z, zone, hzone, fun i hi => ?_⟩
    obtain ⟨h1, h2⟩ := PageRun.mem_pages.mp hi
    exact Finset.mem_Ico.mpr ⟨by omega, by omega⟩
  · intro i hi hnone
    obtain ⟨z, _, hz, -⟩ := hs.free_zone (hfits.free i hi)
    rw [hnone] at hz
    cases hz
  · exact fun harea x _ hx => hfits.directlyMapped hrunning harea hx

theorem history_outstanding_sample : ∃ t, (init .dev sampleImage).run sampleKernel = .ok () t ∧
    ∃ l, (history .dev [.allocate .mapped 1, .allocate .any 1, .release 1]).run ⟨t.memory, []⟩ =
        .ok () l ∧
      (l.outstanding.Pairwise fun a b => Disjoint a.run.pages b.run.pages) ∧
      ∀ h ∈ l.outstanding,
        (∃ z zone, t.memory.HasZone z zone ∧ h.run.pages ⊆ zone.range) ∧
        InOneEntry sampleMap.used h.run ∧
        t.memory.endOfStruct - pageOffset ≤ h.run.physicalAddress ∧
        (∀ i ∈ h.run.pages, t.memory.zoneOf i ≠ none) ∧
        (h.area = .mapped → ∀ x, h.run.physicalAddress ≤ x →
          x < h.run.physicalAddress + h.run.count * page2MSize → DirectlyMapped t x) := by
  obtain ⟨t, ht⟩ := sample_init_ok
  exact ⟨t, ht, history_outstanding .dev sampleImage sampleImage_linked _ sampleKernel t
    sampleKernel_booted sampleMap (sampleMap_read .dev) ht _⟩

end MikoOS
