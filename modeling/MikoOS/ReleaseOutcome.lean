import MikoOS.KernelInit

/-!
# `release` of any page run

A caller may hand `release` a run it never got. Whatever the run, the validation pass decides before
the first page is freed: it aborts with the descriptor untouched, or the second pass frees the whole
run. Pages outside every zone and pages of the kernel's initial region never pass.
-/

namespace MikoOS

open Rust

/-- The checks of `release`; the value is the end of the run. -/
def validateRun (run : PageRun) : Exec MemoryDescriptor ℕ := do
  let stop ← expect (checkedAdd run.first run.count) "page range overflow"
  require (0 < run.count ∧ stop ≤ (← get).bitsSize)
    "assertion failed: run.count > 0 && end <= self.bits_size"
  let page ← element (← get).pages run.first
  require page.zone.isSome "assertion failed: !zone.is_null()"
  forRange run.first stop () fun index _ => validatePage page.zone index
  return stop

theorem release_eq (p : Profile) (run : PageRun) : release p run = (do
    let stop ← validateRun run
    forRange run.first stop () fun index _ => cleanPage p index) := by
  simp only [release, validateRun, bind_assoc, pure_bind]

namespace MemoryDescriptor

/-- What the validation pass asks of page `i`, next to a nonzero attribute. -/
structure Passes (s : MemoryDescriptor) (zone : Option ℕ) (i : ℕ) : Prop where
  zone : s.zoneOf i = zone
  used : s.used i = true
  ordinary : s.attributesOf i &&& Flags.kernelInit = 0
  references : s.references i = 1

/-- The runs `release` frees. -/
structure Releasable (s : MemoryDescriptor) (run : PageRun) : Prop where
  count_pos : 0 < run.count
  no_overflow : run.first + run.count < 2 ^ 64
  inside : run.first + run.count ≤ s.bitsSize
  pages : ∃ z, ∀ i ∈ run.pages, s.Passes (some z) i

/-- `t` is `s` with the pages of `run`, all of zone `z`, free. -/
structure Freed (s t : MemoryDescriptor) (run : PageRun) (z : ℕ) : Prop where
  rest : t = { s with bitsMap := t.bitsMap, pages := t.pages, zones := t.zones }
  length : t.bitsMap.length = s.bitsMap.length
  bits : ∀ i < 64 * s.bitsMap.length, t.used i = if i ∈ run.pages then false else s.used i
  pages : ∀ i, t.pages[i]? = (s.pages[i]?).map fun page =>
    if i ∈ run.pages then { page with attributes := 0, referenceCount := 0 } else page
  zones : ∀ y ≠ z, t.zones[y]? = s.zones[y]?
  counters : ∃ zone, s.zones[z]? = some zone ∧ run.count ≤ zone.pageUsingCount ∧
    run.count ≤ zone.totalPagesRefCount ∧
    t.zones[z]? = some { zone with
      pageUsingCount := zone.pageUsingCount - run.count
      pageFreeCount := zone.pageFreeCount + run.count
      totalPagesRefCount := zone.totalPagesRefCount - run.count }

variable {s t : MemoryDescriptor} {run : PageRun} {i z : ℕ}

theorem Releasable.held (h : s.Releasable run) (hs : s.Consistent) : s.Held run where
  count_pos := h.count_pos
  zone := h.pages.imp fun _ hz i hi => (hz i hi).zone
  held := by
    obtain ⟨z, hz⟩ := h.pages
    intro i hi
    apply (hs.held_iff i).mpr
    rw [(hz i hi).references]
    exact Nat.one_pos
  ordinary := by
    obtain ⟨z, hz⟩ := h.pages
    exact fun i hi => (hz i hi).ordinary
  references := by
    obtain ⟨z, hz⟩ := h.pages
    exact fun i hi => (hz i hi).references

/-- A failed check: a message, and nothing written. -/
def Aborts (s : MemoryDescriptor) (e : Panic) (t : MemoryDescriptor) : Prop :=
  t = s ∧ ∃ text, e = .message text

theorem validatePage_outcome (hs : s.Consistent) (hi : i < s.bitsSize) (zone : Option ℕ) :
    Satisfies ((validatePage zone i).run s) (fun _ t => t = s ∧ s.Passes zone i)
      fun e t => s.Aborts e t ∧ ¬s.Passes zone i := by
  obtain ⟨page, hpage⟩ := hs.exists_page hi
  have hattr := attributesOf_eq hpage
  have hrefs := references_eq hpage
  have hzone := zoneOf_eq hpage
  unfold validatePage
  rw [run_get_bind, run_bind_ok (run_element hpage s)]
  apply (satisfies_require ?_).bind
  · intro _ t ht
    obtain ⟨rfl, hz⟩ := ht
    rw [run_bind_ok (isUsed_run hs hi)]
    apply (satisfies_require ?_).bind
    · intro _ u hu
      obtain ⟨rfl, hused⟩ := hu
      apply (satisfies_require ?_).bind
      · intro _ v hv
        obtain ⟨rfl, hheld⟩ := hv
        apply (satisfies_require ?_).mono
        · intro _ w hw
          obtain ⟨rfl, hone⟩ := hw
          refine ⟨rfl, hzone.trans (of_decide_eq_true hz), hused, ?_, hrefs.trans (of_decide_eq_true hone)⟩
          rw [hattr]
          exact (of_decide_eq_true hheld).2
        · exact fun _ _ h => h
        · intro hone
          refine ⟨⟨rfl, _, rfl⟩, fun h => of_decide_eq_false hone ?_⟩
          exact hrefs.symm.trans h.references
      · intro hheld
        refine ⟨⟨rfl, _, rfl⟩, fun h => of_decide_eq_false hheld ?_⟩
        rw [← hattr]
        refine ⟨(hs.held_iff i).mpr ?_, h.ordinary⟩
        rw [h.references]
        exact Nat.one_pos
    · intro hused
      refine ⟨⟨rfl, _, rfl⟩, fun h => ?_⟩
      rw [h.used] at hused
      cases hused
  · intro hz
    refine ⟨⟨rfl, _, rfl⟩, fun h => of_decide_eq_false hz ?_⟩
    exact hzone.symm.trans h.zone

theorem validateRun_outcome (hs : s.Consistent) (run : PageRun) :
    Satisfies ((validateRun run).run s)
      (fun stop t => t = s ∧ stop = run.first + run.count ∧ s.Releasable run)
      fun e t => s.Aborts e t ∧ ¬s.Releasable run := by
  unfold validateRun
  apply (satisfies_expect ?_).bind
  · intro stop t ht
    obtain ⟨rfl, hadd⟩ := ht
    obtain ⟨rfl, hsum⟩ := checkedAdd_eq_some.mp hadd
    rw [run_get_bind]
    apply (satisfies_require ?_).bind
    · intro _ u hu
      obtain ⟨rfl, hbounds⟩ := hu
      obtain ⟨hpos, hinside⟩ := of_decide_eq_true hbounds
      obtain ⟨page, hpage⟩ := hs.exists_page (show run.first < u.bitsSize by omega)
      have hfirst : run.first ∈ run.pages := PageRun.mem_pages.mpr ⟨le_rfl, by omega⟩
      rw [run_get_bind, run_bind_ok (run_element hpage u)]
      apply (satisfies_require ?_).bind
      · intro _ v hv
        obtain ⟨rfl, hsome⟩ := hv
        obtain ⟨z, hz⟩ := Option.isSome_iff_exists.mp hsome
        rw [hz]
        have hloop : Satisfies ((forRange run.first (run.first + run.count) () fun index _ =>
            validatePage (some z) index).run v)
            (fun _ t => t = v ∧ ∀ i, run.first ≤ i → i < run.first + run.count → v.Passes (some z) i)
            fun e t => v.Aborts e t ∧ ¬v.Releasable run := by
          apply forRange_satisfies
            (fun j _ t => t = v ∧ ∀ i, run.first ≤ i → i < j → v.Passes (some z) i)
            (Nat.le_add_right run.first run.count) ?_
            ⟨rfl, fun i hle hlt => absurd hlt (Nat.not_lt.mpr hle)⟩
          intro j _ t hle hlt ht
          obtain ⟨rfl, hall⟩ := ht
          apply (validatePage_outcome hs (show j < t.bitsSize by omega) (some z)).mono
          · intro _ w hw
            refine ⟨hw.1, fun i hi hij => ?_⟩
            by_cases hlast : i = j
            · rw [hlast]
              exact hw.2
            · exact hall i hi (by omega)
          · intro e w hw
            refine ⟨hw.1, fun h => hw.2 ?_⟩
            obtain ⟨y, hy⟩ := h.pages
            have hzone : some y = some z := by
              rw [← (hy _ hfirst).zone, zoneOf_eq hpage, hz]
            rw [← hzone]
            exact hy j (PageRun.mem_pages.mpr ⟨hle, hlt⟩)
        · apply hloop.bind
          intro _ w hw
          obtain ⟨rfl, hall⟩ := hw
          refine satisfies_ok.mpr ⟨rfl, rfl, hpos, hsum, hinside, z, fun i hi => ?_⟩
          obtain ⟨hle, hlt⟩ := PageRun.mem_pages.mp hi
          exact hall i hle hlt
      · intro hnone
        refine ⟨⟨rfl, _, rfl⟩, fun h => ?_⟩
        obtain ⟨y, hy⟩ := h.pages
        rw [← zoneOf_eq hpage, (hy _ hfirst).zone] at hnone
        cases hnone
    · intro hbounds
      exact ⟨⟨rfl, _, rfl⟩, fun h => of_decide_eq_false hbounds ⟨h.count_pos, h.inside⟩⟩
  · intro hnone
    refine ⟨⟨rfl, _, rfl⟩, fun h => ?_⟩
    rw [checkedAdd_of_lt h.no_overflow] at hnone
    cases hnone

theorem share_run (hz : ∀ i ∈ run.pages, s.zoneOf i = some z) (y : ℕ) :
    s.share run.pages y = if y = z then run.count else 0 := by
  unfold share
  by_cases hy : y = z
  · have hall : {i ∈ run.pages | s.zoneOf i = some y} = run.pages := by
      apply Finset.filter_true_of_mem
      intro i hi
      rw [hy, hz i hi]
    rw [hall, if_pos hy, PageRun.pages, Nat.card_Ico, Nat.add_sub_cancel_left]
  · have hnone : {i ∈ run.pages | s.zoneOf i = some y} = ∅ := by
      apply Finset.filter_false_of_mem
      intro i hi heq
      rw [hz i hi] at heq
      exact hy (Option.some.inj heq).symm
    rw [hnone, if_neg hy, Finset.card_empty]

/-- The counters of a zone cover every part of it that is in use. -/
theorem Consistent.count_le_using (hs : s.Consistent) {zone : Zone} (hzone : s.HasZone z zone)
    {B : Finset ℕ} (hB : ∀ i ∈ B, s.zoneOf i = some z ∧ s.used i = true ∧ s.references i = 1) :
    B.card ≤ zone.pageUsingCount ∧ B.card ≤ zone.totalPagesRefCount := by
  have hcounts := hs.counts z zone hzone
  simp only [recount, Prod.mk.injEq] at hcounts
  have hrange : ∀ i ∈ B, i ∈ zone.range := by
    intro i hi
    obtain ⟨zone', hzone', hmem⟩ := hs.exists_zone (hB i hi).1
    rwa [Option.some.inj (hzone.2.symm.trans hzone'.2)]
  constructor
  · rw [hcounts.1]
    apply Finset.card_le_card
    intro i hi
    exact Finset.mem_filter.mpr ⟨hrange i hi, (hB i hi).2.1⟩
  · rw [hcounts.2.2]
    calc B.card = ∑ i ∈ B, s.references i := by
          rw [Finset.card_eq_sum_ones]
          exact Finset.sum_congr rfl fun i hi => (hB i hi).2.2.symm
      _ ≤ ∑ i ∈ zone.range, s.references i := by
          apply Finset.sum_le_sum_of_subset
          exact hrange

theorem Releasable.freed (h : s.Releasable run) (hs : s.Consistent) :
    ∃ z, s.Freed (s.clear run.pages) run z := by
  obtain ⟨z, hz⟩ := h.pages
  have hzone : ∀ i ∈ run.pages, s.zoneOf i = some z := fun i hi => (hz i hi).zone
  have hshare := share_run hzone
  have hfirst : run.first ∈ run.pages :=
    PageRun.mem_pages.mpr ⟨le_rfl, Nat.lt_add_of_pos_right h.count_pos⟩
  obtain ⟨zone, hhas, -⟩ := hs.exists_zone (hzone _ hfirst)
  have hcard : run.pages.card = run.count := by
    rw [PageRun.pages, Nat.card_Ico, Nat.add_sub_cancel_left]
  obtain ⟨husing, hrefs⟩ := hs.count_le_using hhas (B := run.pages) fun i hi =>
    ⟨hzone i hi, (hz i hi).used, (hz i hi).references⟩
  rw [hcard] at husing hrefs
  refine ⟨z, {
    rest := rfl
    length := WordBits.length_assign _ _ _
    bits := fun i hi => used_overlay hi
    pages := fun i => getElem?_pages_overlay i
    zones := ?_
    counters := ⟨zone, hhas.2, husing, hrefs, ?_⟩ }⟩
  · intro y hy
    rw [clear, getElem?_zones_overlay, hshare, if_neg hy]
    exact Option.map_id'
  · rw [clear, getElem?_zones_overlay, hhas.2, hshare, if_pos rfl]
    rfl

/-- Page `i` lies in no zone or belongs to the kernel's initial region. -/
def Barred (s : MemoryDescriptor) (i : ℕ) : Prop :=
  i < s.bitsSize ∧ (s.zoneOf i = none ∨ s.attributesOf i &&& Flags.kernelInit ≠ 0)

theorem Barred.used (h : s.Barred i) (hs : s.Consistent) : s.used i = true := by
  apply (hs.used_iff i h.1).mpr
  apply h.2.symm.imp_left
  intro hinit hzero
  rw [hzero] at hinit
  exact hinit (BitVec.zero_and)

theorem Barred.not_mem (h : s.Barred i) (hrun : s.Releasable run) : i ∉ run.pages := by
  intro hi
  obtain ⟨z, hz⟩ := hrun.pages
  rcases h.2 with hnone | hinit
  · rw [(hz i hi).zone] at hnone
    cases hnone
  · exact hinit (hz i hi).ordinary

theorem Barred.clear (h : s.Barred i) {B : Finset ℕ} (hB : i ∉ B) : (s.clear B).Barred i := by
  refine ⟨h.1, ?_⟩
  rw [zoneOf_clear, attributesOf_clear, if_neg hB]
  exact h.2

theorem Barred.mark (h : s.Barred i) {attributes : ℕ → BitVec 64} {B : Finset ℕ}
    (hlt : ∀ j ∈ B, j < s.pages.length) (hB : i ∉ B) : (s.mark attributes B).Barred i := by
  refine ⟨h.1, ?_⟩
  rw [zoneOf_mark, attributesOf_mark hlt, if_neg hB]
  exact h.2

theorem release_outcome_run (p : Profile) (hs : s.Consistent) (run : PageRun) :
    (s.Releasable run ∧ (release p run).run s = .ok () (s.clear run.pages)) ∨
      (¬s.Releasable run ∧ ∃ text, (validateRun run).run s = .error (.message text) s ∧
        (release p run).run s = .error (.message text) s) := by
  have hrun := validateRun_outcome hs run
  cases hr : (validateRun run).run s with
  | ok stop t =>
    rw [hr, satisfies_ok] at hrun
    exact .inl ⟨hrun.2.2, release_run p hs (hrun.2.2.held hs)⟩
  | error e t =>
    rw [hr, satisfies_error] at hrun
    obtain ⟨⟨rfl, text, rfl⟩, hnot⟩ := hrun
    refine .inr ⟨hnot, text, rfl, ?_⟩
    rw [release_eq, EStateM.run_bind, hr]

/-- A call of the allocator; the run of a release need not come from it. -/
inductive Request
  | allocate (area : AllocationArea) (count : ℕ)
  | release (run : PageRun)

def serve (p : Profile) : Request → Exec MemoryDescriptor Unit
  | .allocate area count => do
    let _ ← MikoOS.allocate p area count
  | .release run => MikoOS.release p run

/-- The records agree, no page is shared, and what was barred in `s` still is. -/
structure Guards (s t : MemoryDescriptor) : Prop where
  consistent : t.Consistent
  exclusive : t.Exclusive
  barred : ∀ i, s.Barred i → t.Barred i

theorem Guards.not_free (h : s.Guards t) (hi : s.Barred i) : ¬t.Free i := by
  intro hfree
  have hused := (h.barred i hi).used h.consistent
  rw [hfree.2] at hused
  cases hused

theorem Guards.serve (h : s.Guards t) (p : Profile) (request : Request) :
    Satisfies ((MemoryDescriptor.serve p request).run t) (fun _ u => s.Guards u)
      fun _ u => s.Guards u := by
  cases request with
  | allocate area count =>
    have hanswer := allocate_run p h.consistent h.exclusive area count
    apply (hanswer.mono (fun _ _ h => h) fun _ _ hfalse => hfalse.elim).bind
    intro answer u hu
    apply satisfies_ok.mpr
    cases answer with
    | error e =>
      have hsame : u = t := by
        cases e with
        | invalidCount => exact hu.2
        | outOfMemory => exact hu.2.1
      rw [hsame]
      exact h
    | ok run =>
      obtain ⟨-, rfl, ⟨z, hfit⟩, rfl⟩ := hu
      obtain ⟨zone, hzone, -, hstop, hfree⟩ := hfit.window
      have hlast := (h.consistent.count_le_free hzone hfit.window).2
      have hbits := h.consistent.zone_last z zone hzone
      have hrun : ∀ i ∈ run.pages, t.Free i := by
        intro i hi
        obtain ⟨hle, hlt⟩ := PageRun.mem_pages.mp hi
        exact ⟨by omega, hfree i hle hlt⟩
      have hpages : ∀ i ∈ run.pages, i < t.pages.length := by
        intro i hi
        rw [h.consistent.length_pages]
        exact (hrun i hi).1
      refine ⟨h.consistent.mark ?_ fun i _ => runAttributes_ne_zero i, h.exclusive.mark hpages, ?_⟩
      · intro i hi
        exact ⟨(hrun i hi).1, h.consistent.free_attributes (hrun i hi)⟩
      · intro i hi
        apply (h.barred i hi).mark hpages
        intro hmem
        exact h.not_free hi (hrun i hmem)
  | release run =>
    change Satisfies ((MikoOS.release p run).run t) _ _
    rcases release_outcome_run p h.consistent run with ⟨hrun, hr⟩ | ⟨-, text, -, hr⟩
    · rw [hr, satisfies_ok]
      obtain ⟨z, hz⟩ := hrun.pages
      refine ⟨h.consistent.clear ?_, h.exclusive.clear, ?_⟩
      · intro i hi
        exact ⟨by rw [(hz i hi).zone]; exact Option.some_ne_none z, (hz i hi).references⟩
      · intro i hi
        exact (h.barred i hi).clear ((h.barred i hi).not_mem hrun)
    · rw [hr, satisfies_error]
      exact h

theorem Guards.serves (h : s.Guards t) (p : Profile) (requests : List Request) :
    Satisfies ((requests.forM (MemoryDescriptor.serve p)).run t) (fun _ u => s.Guards u)
      fun _ u => s.Guards u := by
  induction requests generalizing t with
  | nil => exact satisfies_ok.mpr h
  | cons request requests ih =>
    apply Satisfies.bind (h.serve p request)
    intro _ u hu
    exact ih hu

/-- After `init` the pages below the end of the metadata and the pages outside the zones are barred. -/
theorem Initial.barred {image : KernelImage} {map : MemoryMap} (h : Initial image map s)
    (hi : i < s.bitsSize) (hwhere : s.zoneOf i = none ∨
      i < (s.endOfStruct - pageOffset + (page2MSize - 1)) / page2MSize) : s.Barred i := by
  refine ⟨hi, hwhere.imp_right fun hlt => ?_⟩
  rw [h.reserved i hlt]
  decide

/-- On any consistent descriptor and any run, issued or not, `release` frees exactly the run or
aborts before the first page; whatever is requested later, a barred page is never free. -/
theorem release_outcome (p : Profile) (s : MemoryDescriptor) (hs : s.Consistent) :
    (∀ run, (s.Releasable run ∧ ∃ z t, (release p run).run s = .ok () t ∧ s.Freed t run z) ∨
      (¬s.Releasable run ∧ ∃ text, (validateRun run).run s = .error (.message text) s ∧
        (release p run).run s = .error (.message text) s)) ∧
      (∀ run i, s.Barred i → ∀ t, (release p run).run s = .ok () t → t.Barred i ∧ ¬t.Free i) ∧
      (s.Exclusive → ∀ requests : List Request,
        Satisfies ((requests.forM (serve p)).run s) (fun _ t => ∀ i, s.Barred i → ¬t.Free i)
          fun _ t => ∀ i, s.Barred i → ¬t.Free i) ∧
      ∀ image map, Initial image map s → s.Exclusive ∧ ∀ i < s.bitsSize,
        s.zoneOf i = none ∨ i < (s.endOfStruct - pageOffset + (page2MSize - 1)) / page2MSize →
          s.Barred i := by
  refine ⟨?_, ?_, ?_, ?_⟩
  · intro run
    apply (release_outcome_run p hs run).imp_left
    intro ⟨hrun, hr⟩
    obtain ⟨z, hfreed⟩ := hrun.freed hs
    exact ⟨hrun, z, _, hr, hfreed⟩
  · intro run i hi t ht
    rcases release_outcome_run p hs run with ⟨hrun, hr⟩ | ⟨-, text, -, hr⟩
    · rw [hr] at ht
      obtain rfl := (EStateM.Result.ok.inj ht).2
      have hnot := hi.not_mem hrun
      refine ⟨hi.clear hnot, fun hfree => ?_⟩
      have hused := hi.used hs
      rw [← hs.used_clear hi.1 |>.trans (if_neg hnot), hfree.2] at hused
      cases hused
    · rw [hr] at ht
      simp only [reduceCtorEq] at ht
  · intro hx requests
    have hserves := Guards.serves (s := s) ⟨hs, hx, fun _ hi => hi⟩ p requests
    exact hserves.mono (fun _ _ h i hi => h.not_free hi) fun _ _ h i hi => h.not_free hi
  · intro image map h
    exact ⟨h.exclusive, fun i hi hwhere => h.barred hi hwhere⟩

/-- All of this after `init` on the sample map. -/
theorem release_outcome_sample : ∃ t map, (init .dev sampleImage).run sampleKernel = .ok () t ∧
    Initial sampleImage map t.memory ∧
    (∀ run, (t.memory.Releasable run ∧
        ∃ z u, (release .dev run).run t.memory = .ok () u ∧ t.memory.Freed u run z) ∨
      (¬t.memory.Releasable run ∧ ∃ text, (validateRun run).run t.memory = .error (.message text) t.memory ∧
        (release .dev run).run t.memory = .error (.message text) t.memory)) ∧
    (∀ run i, t.memory.Barred i → ∀ u, (release .dev run).run t.memory = .ok () u → u.Barred i ∧ ¬u.Free i) ∧
    (∀ requests : List Request, Satisfies ((requests.forM (serve .dev)).run t.memory)
      (fun _ u => ∀ i, t.memory.Barred i → ¬u.Free i) fun _ u => ∀ i, t.memory.Barred i → ¬u.Free i) ∧
    ∀ i < t.memory.bitsSize, t.memory.zoneOf i = none ∨
      i < (t.memory.endOfStruct - pageOffset + (page2MSize - 1)) / page2MSize → t.memory.Barred i := by
  obtain ⟨t, ht⟩ := sample_init_ok
  obtain ⟨map, -, hrunning⟩ := init_ok sampleImage_linked sampleKernel_booted ht
  obtain ⟨hrelease, hbarred, hrequests, hinitial⟩ :=
    release_outcome .dev t.memory hrunning.memory.consistent
  obtain ⟨hexclusive, hmetadata⟩ := hinitial _ _ hrunning.memory
  exact ⟨t, map, ht, hrunning.memory, hrelease, hbarred, hrequests hexclusive, hmetadata⟩

end MemoryDescriptor

end MikoOS
