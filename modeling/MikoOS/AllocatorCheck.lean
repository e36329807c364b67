import MikoOS.FirstFit

/-!
# The allocator's own check

With the feature `memory-check` the kernel compares bitmap, descriptors and zone counters page by
page, and drives the allocator through refusals, a run across a bitmap word, reuse, fragmentation and
exhaustion. On consistent records the comparison passes; the whole check passes exactly on the layout
it was written for, and then hands back every page.
-/

namespace MikoOS

open ByteMemory PageWalk Rust

/-- The using pages, free pages and references counted so far. -/
structure Totals where
  inUse : ℕ
  free : ℕ
  references : ℕ
  deriving DecidableEq, Repr

def countPage (p : Profile) (used : Bool) (counts : Totals) : Exec MemoryDescriptor Totals :=
  if used then do return { counts with inUse := ← p.add counts.inUse 1 }
  else do return { counts with free := ← p.add counts.free 1 }

/-- One page of `check_allocation_state`. -/
def checkAllocationPage (p : Profile) (z index : ℕ) (counts : Totals) : Exec MemoryDescriptor Totals := do
  let page ← element (← get).pages index
  require (page.zone = some z) equalAssertion
  require (page.physicalAddress = (← p.mul index page2MSize)) equalAssertion
  require ((← isUsed index) = decide (page.attributes ≠ 0)) equalAssertion
  require (decide (page.attributes ≠ 0) = decide (0 < page.referenceCount)) equalAssertion
  let counts ← countPage p (← isUsed index) counts
  return { counts with references := ← p.add counts.references page.referenceCount }

def checkAllocationZone (p : Profile) (z : ℕ) (totals : Totals) : Exec MemoryDescriptor Totals := do
  let zone ← element (← get).zones z
  let counts ← forRange (zone.startAddress / page2MSize) (zone.endAddress / page2MSize) ⟨0, 0, 0⟩
    (checkAllocationPage p z)
  require (counts = ⟨zone.pageUsingCount, zone.pageFreeCount, zone.totalPagesRefCount⟩) equalAssertion
  require ((← p.add counts.inUse counts.free) = zone.numberPages) equalAssertion
  return ⟨← p.add totals.inUse counts.inUse, ← p.add totals.free counts.free,
    ← p.add totals.references counts.references⟩

def checkReserved (index : ℕ) : Exec MemoryDescriptor Unit := do
  let page ← element (← get).pages index
  if page.zone = none ∨ page.attributes &&& Flags.kernelInit ≠ 0 then
    require (← isUsed index) "reserved page became free"

def checkAllocationState (p : Profile) : Exec MemoryDescriptor Totals := do
  let totals ← forRange 0 (← get).zonesSize ⟨0, 0, 0⟩ (checkAllocationZone p)
  forRange 0 (← get).bitsSize () fun index _ => checkReserved index
  return totals

namespace MemoryDescriptor

variable {s : MemoryDescriptor} {z : ℕ}

/-- The pages of `first..last` by their state, and their references. -/
def counted (s : MemoryDescriptor) (first last : ℕ) : Totals where
  inUse := ∑ j ∈ Finset.Ico first last, if s.used j = true then 1 else 0
  free := (s.tally first last).1
  references := (s.tally first last).2

/-- The sums over the zones below `n`. -/
def zoneTotals (s : MemoryDescriptor) (n : ℕ) : Totals where
  inUse := ∑ z ∈ Finset.range n, ((s.zones[z]?).map Zone.pageUsingCount).getD 0
  free := ∑ z ∈ Finset.range n, ((s.zones[z]?).map Zone.pageFreeCount).getD 0
  references := ∑ z ∈ Finset.range n, ((s.zones[z]?).map Zone.totalPagesRefCount).getD 0

def totals (s : MemoryDescriptor) : Totals := s.zoneTotals s.zonesSize

theorem counted_succ {first last : ℕ} (h : first ≤ last) :
    s.counted first (last + 1) = ⟨(s.counted first last).inUse + (if s.used last = true then 1 else 0),
      (s.counted first last).free + (if s.used last = false then 1 else 0),
      (s.counted first last).references + s.references last⟩ := by
  simp only [counted, tally_succ h, Finset.sum_Ico_succ_top h]

theorem counted_le (hx : s.Exclusive) (first last : ℕ) :
    (s.counted first last).inUse ≤ last - first ∧ (s.counted first last).free ≤ last - first ∧
      (s.counted first last).references ≤ last - first := by
  obtain ⟨hfree, hreferences⟩ := tally_le hx first last
  refine ⟨?_, hfree, hreferences⟩
  have hones : ∑ j ∈ Finset.Ico first last, (if s.used j = true then 1 else 0) ≤
      ∑ _j ∈ Finset.Ico first last, 1 := by
    apply Finset.sum_le_sum
    intro j _
    split
    · exact le_rfl
    · exact Nat.zero_le 1
  rw [← Nat.card_Ico, Finset.card_eq_sum_ones]
  exact hones

theorem Consistent.counted_eq (hs : s.Consistent) {zone : Zone} (hzone : s.HasZone z zone) :
    s.counted zone.first zone.last = ⟨zone.pageUsingCount, zone.pageFreeCount, zone.totalPagesRefCount⟩ := by
  have hcounts := hs.counts z zone hzone
  simp only [recount, Prod.mk.injEq] at hcounts
  rw [counted, hs.tally_eq hzone, hcounts.1, Zone.range, Finset.card_filter]

theorem checkAllocationPage_run (p : Profile) (hs : s.Consistent) {zone : Zone} (hzone : s.HasZone z zone)
    {j : ℕ} (hj : j ∈ zone.range) {counts : Totals} (hinUse : counts.inUse + 1 < 2 ^ 64)
    (hfree : counts.free + 1 < 2 ^ 64) (hrefs : counts.references + s.references j < 2 ^ 64) :
    (checkAllocationPage p z j counts).run s =
      .ok ⟨counts.inUse + (if s.used j = true then 1 else 0), counts.free + (if s.used j = false then 1 else 0),
        counts.references + s.references j⟩ s := by
  have howner := hs.zone_of_mem hzone hj
  have hlt := hs.lt_of_zoneOf howner
  have hsmall := hs.bitsSize_le
  obtain ⟨page, hpage⟩ := hs.exists_page hlt
  have hz : page.zone = some z := (zoneOf_eq hpage).symm.trans howner
  have hphysical := hs.physical j page hpage
  have hattributes := attributesOf_eq hpage
  have hreferences := references_eq hpage
  have hused : s.used j = decide (page.attributes ≠ 0) := by
    rw [Bool.eq_iff_iff, decide_eq_true_eq, hs.used_iff j hlt, howner, hattributes]
    simp
  have hheld : decide (page.attributes ≠ 0) = decide (0 < page.referenceCount) := by
    rw [decide_eq_decide, ← hattributes, ← hreferences]
    exact hs.held_iff j
  have hmul : j * page2MSize < 2 ^ 64 := by
    rw [page2MSize]
    omega
  rw [checkAllocationPage, run_get_bind, run_bind_ok (run_element hpage s),
    run_bind_ok (run_require (decide_eq_true hz) _ s), run_bind_ok (run_mul p hmul s),
    run_bind_ok (run_require (decide_eq_true hphysical) _ s), run_bind_ok (isUsed_run hs hlt),
    run_bind_ok (run_require (decide_eq_true hused) _ s), run_bind_ok (run_require (decide_eq_true hheld) _ s),
    run_bind_ok (isUsed_run hs hlt)]
  rw [hreferences] at hrefs ⊢
  have hcount : (countPage p (s.used j) counts).run s =
      .ok ⟨counts.inUse + (if s.used j = true then 1 else 0), counts.free + (if s.used j = false then 1 else 0),
        counts.references⟩ s := by
    cases s.used j with
    | true => exact run_bind_ok (run_add p hinUse s)
    | false => exact run_bind_ok (run_add p hfree s)
  rw [run_bind_ok hcount, run_bind_ok (run_add p hrefs s)]
  rfl

theorem checkAllocationZone_run (p : Profile) (hs : s.Consistent) (hx : s.Exclusive) {zone : Zone}
    (hzone : s.HasZone z zone) {totals : Totals} (hinUse : totals.inUse + 2 ^ 43 < 2 ^ 64)
    (hfree : totals.free + 2 ^ 43 < 2 ^ 64) (hrefs : totals.references + 2 ^ 43 < 2 ^ 64) :
    (checkAllocationZone p z totals).run s = .ok ⟨totals.inUse + zone.pageUsingCount,
      totals.free + zone.pageFreeCount, totals.references + zone.totalPagesRefCount⟩ s := by
  have hlast := (hs.zone_last z zone hzone).trans hs.bitsSize_le
  have husingLe := hs.using_le hzone
  have hfreeLe := hs.free_le hzone
  have hrefsLe := hs.refs_le hx hzone
  have hloop : Satisfies ((forRange zone.first zone.last ⟨0, 0, 0⟩ (checkAllocationPage p z)).run s)
      (fun counts t => t = s ∧ counts = ⟨zone.pageUsingCount, zone.pageFreeCount, zone.totalPagesRefCount⟩)
      fun _ _ => False := by
    rw [← hs.counted_eq hzone]
    by_cases hle : zone.first ≤ zone.last
    · refine forRange_satisfies (fun j counts t => t = s ∧ counts = s.counted zone.first j) hle ?_ ?_
      · rintro j counts t hj hlt ⟨rfl, rfl⟩
        obtain ⟨h1, h2, h3⟩ := counted_le hx zone.first j
        have href := hx j
        rw [checkAllocationPage_run p hs hzone (Finset.mem_Ico.mpr ⟨hj, hlt⟩) (by omega) (by omega)
          (by omega), satisfies_ok, counted_succ hj]
        exact ⟨rfl, rfl⟩
      · refine ⟨rfl, ?_⟩
        rw [counted, tally, Finset.Ico_self]
        rfl
    · rw [forRange, Nat.sub_eq_zero_of_le (Nat.le_of_not_le hle), forCount, EStateM.run_pure, satisfies_ok,
        counted, tally, Finset.Ico_eq_empty_of_le (Nat.le_of_not_le hle)]
      exact ⟨rfl, rfl⟩
  obtain ⟨_, t, hrun, rfl, rfl⟩ := hloop.exists_ok
  rw [Zone.first, Zone.last] at hrun
  rw [checkAllocationZone, run_get_bind, run_bind_ok (run_element hzone.2 t), run_bind_ok hrun,
    run_bind_ok (run_require (decide_eq_true rfl) _ t)]
  dsimp only
  rw [run_bind_ok (run_add p (by omega) t),
    run_bind_ok (run_require (decide_eq_true (hs.using_add_free hzone)) _ t),
    run_bind_ok (run_add p (by omega) t), run_bind_ok (run_add p (by omega) t),
    run_bind_ok (run_add p (by omega) t)]
  rfl

theorem checkReserved_run (hs : s.Consistent) {j : ℕ} (hj : j < s.bitsSize) :
    (checkReserved j).run s = .ok () s := by
  obtain ⟨page, hpage⟩ := hs.exists_page hj
  rw [checkReserved, run_get_bind, run_bind_ok (run_element hpage s)]
  by_cases hreserved : page.zone = none ∨ page.attributes &&& Flags.kernelInit ≠ 0
  · have hused : s.used j = true := by
      apply (hs.used_iff j hj).mpr
      rcases hreserved with hz | hattr
      · exact .inr ((zoneOf_eq hpage).trans hz)
      · left
        intro hzero
        rw [attributesOf_eq hpage] at hzero
        rw [hzero] at hattr
        exact hattr (BitVec.zero_and)
    rw [if_pos hreserved, run_bind_ok (isUsed_run hs hj), run_require hused]
  · rw [if_neg hreserved]
    rfl

theorem zoneTotals_succ {zone : Zone} {n : ℕ} (hzone : s.zones[n]? = some zone) :
    s.zoneTotals (n + 1) = ⟨(s.zoneTotals n).inUse + zone.pageUsingCount,
      (s.zoneTotals n).free + zone.pageFreeCount, (s.zoneTotals n).references + zone.totalPagesRefCount⟩ := by
  simp only [zoneTotals, Finset.sum_range_succ, hzone, Option.map_some, Option.getD_some]

/-- On consistent records the comparison passes, changes nothing and returns the zone counters. -/
theorem checkAllocationState_run (p : Profile) (hs : s.Consistent) (hx : s.Exclusive) :
    (checkAllocationState p).run s = .ok s.totals s := by
  have hzones : s.zonesSize ≤ 32 := hs.zonesSize_le
  have hloop : Satisfies ((forRange 0 s.zonesSize ⟨0, 0, 0⟩ (checkAllocationZone p)).run s)
      (fun totals t => t = s ∧ totals = s.totals) fun _ _ => False := by
    refine (forRange_satisfies (fun i totals t => t = s ∧ totals = s.zoneTotals i ∧
      totals.inUse ≤ i * 2 ^ 43 ∧ totals.free ≤ i * 2 ^ 43 ∧ totals.references ≤ i * 2 ^ 43)
      (Nat.zero_le _) ?_ ?_).mono ?_ fun _ _ h => h
    · rintro i totals t - hi ⟨rfl, rfl, hinUse, hfree, hrefs⟩
      obtain ⟨zone, hzone⟩ : ∃ zone, t.HasZone i zone :=
        ⟨_, hi, List.getElem?_eq_getElem (by rw [hs.length_zones]; exact hi.trans_le hs.zonesSize_le)⟩
      have husingLe := hs.using_le hzone
      have hfreeLe := hs.free_le hzone
      have hrefsLe := hs.refs_le hx hzone
      rw [checkAllocationZone_run p hs hx hzone (by omega) (by omega) (by omega), satisfies_ok,
        zoneTotals_succ hzone.2]
      dsimp only
      exact ⟨rfl, rfl, by omega, by omega, by omega⟩
    · exact ⟨rfl, rfl, Nat.zero_le _, Nat.zero_le _, Nat.zero_le _⟩
    · exact fun _ _ h => ⟨h.1, h.2.1⟩
  obtain ⟨_, t, hrun, rfl, rfl⟩ := hloop.exists_ok
  have hreserved : Satisfies ((forRange 0 t.bitsSize () fun index _ => checkReserved index).run t)
      (fun _ u => u = t) fun _ _ => False := by
    refine forRange_satisfies (fun _ _ u => u = t) (Nat.zero_le _) ?_ rfl
    rintro i - u - hi rfl
    rw [checkReserved_run hs hi, satisfies_ok]
  obtain ⟨_, u, hreservedRun, rfl⟩ := hreserved.exists_ok
  rw [checkAllocationState, run_get_bind, run_bind_ok hrun, run_get_bind, run_bind_ok hreservedRun]
  rfl

/-- The free pages. -/
def freeSet (s : MemoryDescriptor) : Finset ℕ := {i ∈ Finset.range s.bitsSize | s.used i = false}

theorem mem_freeSet {i : ℕ} : i ∈ s.freeSet ↔ s.Free i := by
  rw [freeSet, Finset.mem_filter, Finset.mem_range]
  rfl

/-- The free counters together count the free pages. -/
theorem Consistent.free_total (hs : s.Consistent) : s.totals.free = s.freeSet.card := by
  have hmaps : ∀ i ∈ s.freeSet, (s.zoneOf i).getD 0 ∈ Finset.range s.zonesSize := by
    intro i hi
    obtain ⟨z, zone, hz, hzone, -⟩ := hs.free_zone (mem_freeSet.mp hi)
    rw [hz]
    exact Finset.mem_range.mpr hzone.1
  have hsum : s.totals.free =
      ∑ z ∈ Finset.range s.zonesSize, ((s.zones[z]?).map Zone.pageFreeCount).getD 0 := rfl
  rw [Finset.card_eq_sum_card_fiberwise hmaps, hsum]
  apply Finset.sum_congr rfl
  intro z hz
  obtain ⟨zone, hzone⟩ : ∃ zone, s.HasZone z zone := by
    have hlt := Finset.mem_range.mp hz
    exact ⟨_, hlt, List.getElem?_eq_getElem (by rw [hs.length_zones]; exact hlt.trans_le hs.zonesSize_le)⟩
  have hcount : zone.pageFreeCount = {i ∈ zone.range | s.used i = false}.card :=
    congrArg (·.2.1) (hs.counts z zone hzone)
  rw [hzone.2, Option.map_some, Option.getD_some, hcount]
  congr 1
  ext i
  rw [Finset.mem_filter, Finset.mem_filter, mem_freeSet]
  constructor
  · rintro ⟨hmem, hunused⟩
    have howner := hs.zone_of_mem hzone hmem
    refine ⟨⟨hs.lt_of_zoneOf howner, hunused⟩, ?_⟩
    rw [howner]
    rfl
  · rintro ⟨hfree, howner⟩
    obtain ⟨y, zone', hy, hzone', hmem⟩ := hs.free_zone hfree
    rw [hy] at howner
    have hsame : y = z := howner
    subst hsame
    have hzones : zone' = zone := Option.some.inj (hzone'.2.symm.trans hzone.2)
    rw [← hzones]
    exact ⟨hmem, hfree.2⟩

/-- The layout the check is written for: one zone of at least 66 pages, none of them in use, and two
of the free pages below 10 MiB. -/
structure Checkable (s : MemoryDescriptor) : Prop where
  zones : s.zonesSize = 1
  unused : s.totals.inUse = 0
  many : 66 ≤ s.freeSet.card
  mapped : 2 ≤ {i ∈ s.freeSet | i < directRamEnd / page2MSize}.card

/-- Its zone holds exactly the free pages. -/
theorem Consistent.single_zone (hs : s.Consistent) (hzones : s.zonesSize = 1)
    (hunused : s.totals.inUse = 0) : ∃ zone, s.HasZone 0 zone ∧ s.freeSet = zone.range := by
  have hlt : 0 < s.zonesSize := by omega
  obtain ⟨zone, hzone⟩ : ∃ zone, s.HasZone 0 zone :=
    ⟨_, hlt, List.getElem?_eq_getElem (by rw [hs.length_zones]; exact hlt.trans_le hs.zonesSize_le)⟩
  refine ⟨zone, hzone, ?_⟩
  have hcount : zone.pageUsingCount = {i ∈ zone.range | s.used i = true}.card :=
    congrArg (·.1) (hs.counts 0 zone hzone)
  have hnone : {i ∈ zone.range | s.used i = true}.card = 0 := by
    rw [totals, hzones, zoneTotals_succ hzone.2] at hunused
    dsimp only at hunused
    omega
  rw [Finset.card_eq_zero, Finset.filter_eq_empty_iff] at hnone
  ext i
  rw [mem_freeSet]
  constructor
  · intro hfree
    obtain ⟨y, zone', hy, hzone', hmem⟩ := hs.free_zone hfree
    obtain rfl : y = 0 := by
      have hlast := hzone'.1
      omega
    rwa [← Option.some.inj (hzone'.2.symm.trans hzone.2)]
  · intro hmem
    exact ⟨hs.lt_of_zoneOf (hs.zone_of_mem hzone hmem), Bool.eq_false_iff.mpr (hnone hmem)⟩

end MemoryDescriptor

/-- `check_allocation_state` of the descriptor behind the ledger. -/
def checkedTotals (p : Profile) : Exec Ledger Totals := onDescriptor (checkAllocationState p)

/-- `Result::expect` and `unwrap`. -/
def granted (answer : Except AllocationError PageRun) (text : String) : Exec Ledger PageRun :=
  match answer with
  | .ok run => pure run
  | .error _ => raise text

/-- `assert_eq!(answer.unwrap_err(), error)`. -/
def refused (answer : Except AllocationError PageRun) (error : AllocationError) : Exec Ledger Unit :=
  match answer with
  | .ok _ => raise "called `Result::unwrap_err()` on an `Ok` value"
  | .error e => require (e = error) equalAssertion

/-- `while let Ok(run) = allocate(Mapped, 1)`, with `slots` elements of `held` left. -/
def holdMapped (p : Profile) : ℕ → List PageRun → Exec Ledger (List PageRun)
  | 0, held => do
    match ← allocatePages p .mapped 1 with
    | .error _ => return held
    | .ok run =>
      require (run.physicalAddress + page2MSize ≤ directRamEnd)
        "assertion failed: run.physical_address() + PAGE_2M_SIZE <= DIRECT_RAM_END"
      throw .outOfBounds
  | slots + 1, held => do
    match ← allocatePages p .mapped 1 with
    | .error _ => return held
    | .ok run =>
      require (run.physicalAddress + page2MSize ≤ directRamEnd)
        "assertion failed: run.physical_address() + PAGE_2M_SIZE <= DIRECT_RAM_END"
      holdMapped p slots (held ++ [run])

/-- `for run in held.into_iter().flatten()`. -/
def releaseAll (p : Profile) : List PageRun → Exec Ledger Unit
  | [] => return ()
  | run :: runs => do
    freePages p run
    let _ ← checkedTotals p
    releaseAll p runs

def unwrapError : String := "called `Result::unwrap()` on an `Err` value"

/-- Requests that cannot be served. -/
def verifyRefusals (p : Profile) (baseline : Totals) : Exec Ledger Unit := do
  refused (← allocatePages p .any 0) .invalidCount
  refused (← allocatePages p .any (2 ^ 64 - 1)) .outOfMemory
  require ((← checkedTotals p) = baseline) equalAssertion

/-- `other.first < large.first || other.first >= large.first + large.count`. -/
def isApart (p : Profile) (other large : PageRun) : Exec Ledger Bool :=
  if other.first < large.first then return true
  else do return decide ((← p.add large.first large.count) ≤ other.first)

/-- A run of 65 pages, across a word of the bitmap, and its reuse. -/
def verifyReuse (p : Profile) (baseline : Totals) : Exec Ledger Unit := do
  let large ← granted (← allocatePages p .any 65) "verification needs 65 contiguous pages"
  require (large.count = 65) equalAssertion
  require ((← checkedTotals p).free = (← p.sub baseline.free 65)) equalAssertion
  let other ← granted (← allocatePages p .any 1) unwrapError
  require (← isApart p other large)
    "assertion failed: other.first < large.first || other.first >= large.first + large.count"
  let _ ← checkedTotals p
  freePages p large
  let _ ← checkedTotals p
  let reused ← granted (← allocatePages p .any 65) unwrapError
  require (reused.first = large.first) equalAssertion
  freePages p reused
  freePages p other
  require ((← checkedTotals p) = baseline) equalAssertion

/-- One mapped page given back among those held: one page fits there, two do not. -/
def verifyHole (p : Profile) (baseline : Totals) (hole : PageRun) (others : List PageRun) :
    Exec Ledger Unit := do
  freePages p hole
  let fragmented ← checkedTotals p
  refused (← allocatePages p .mapped 2) .outOfMemory
  require ((← checkedTotals p) = fragmented) equalAssertion
  let again ← granted (← allocatePages p .mapped 1) unwrapError
  require (again.first = hole.first) equalAssertion
  releaseAll p (again :: others)
  require ((← checkedTotals p) = baseline) equalAssertion

/-- The mapped pages taken one by one, and a hole among them. -/
def verifyFragments (p : Profile) (baseline : Totals) : Exec Ledger Unit := do
  match ← holdMapped p (directRamEnd / page2MSize) [] with
  | hole :: second :: rest => verifyHole p baseline hole (second :: rest)
  | _ => raise "verification needs two mapped free pages"

/-- All pages of the one zone. -/
def verifyExhaustion (p : Profile) (baseline : Totals) : Exec Ledger Unit := do
  require ((← get).memory.zonesSize = 1) "exhaustion verification requires the default single RAM zone"
  require (baseline.inUse = 0) "exhaustion verification requires an unreserved RAM zone"
  let entire ← granted (← allocatePages p .any baseline.free) unwrapError
  let exhausted ← checkedTotals p
  require (exhausted.free = 0) equalAssertion
  refused (← allocatePages p .any 1) .outOfMemory
  require ((← checkedTotals p) = exhausted) equalAssertion
  freePages p entire
  require ((← checkedTotals p) = baseline) equalAssertion

/-- `verify` of the allocator. -/
def verifyAllocator (p : Profile) : Exec Ledger Unit := do
  let baseline ← checkedTotals p
  verifyRefusals p baseline
  verifyReuse p baseline
  verifyFragments p baseline
  verifyExhaustion p baseline

/-- The ledger holds `runs`, all requested for `area`, and nothing else. -/
structure HoldsRuns (s : MemoryDescriptor) (area : AllocationArea) (runs : List PageRun) (l : Ledger) : Prop where
  accounted : Accounted s l
  outstanding : l.outstanding.Perm (runs.map (Holding.mk area))

namespace HoldsRuns

variable {s : MemoryDescriptor} {l : Ledger} {area : AllocationArea} {runs : List PageRun} {run : PageRun}
  {count z w : ℕ}

theorem start (s : MemoryDescriptor) (area : AllocationArea) : HoldsRuns s area [] ⟨s, []⟩ :=
  ⟨Accounted.initial s, List.Perm.nil⟩

theorem perm (h : HoldsRuns s area runs l) {others : List PageRun} (hperm : runs.Perm others) :
    HoldsRuns s area others l := ⟨h.accounted, h.outstanding.trans (hperm.map _)⟩

theorem mem_heldPages (h : HoldsRuns s area runs l) {i : ℕ} :
    i ∈ heldPages l.outstanding ↔ ∃ run ∈ runs, i ∈ run.pages := by
  rw [MikoOS.mem_heldPages]
  constructor
  · rintro ⟨holding, hmem, hi⟩
    obtain ⟨run, hrun, rfl⟩ := List.mem_map.mp (h.outstanding.mem_iff.mp hmem)
    exact ⟨run, hrun, hi⟩
  · rintro ⟨run, hrun, hi⟩
    exact ⟨⟨area, run⟩, h.outstanding.mem_iff.mpr (List.mem_map_of_mem hrun), hi⟩

/-- With nothing held the descriptor is the one before. -/
theorem eq_start (h : HoldsRuns s area [] l) : l = ⟨s, []⟩ := by
  have hnone : l.outstanding = [] := List.Perm.eq_nil h.outstanding
  have hmemory := h.accounted.memory
  rw [hnone] at hmemory
  have hsame : l.memory = s := hmemory.trans MemoryDescriptor.mark_empty
  cases l
  simp only at hsame hnone
  rw [hsame, hnone]

theorem run_free (h : HoldsRuns s area runs l) (hrun : run ∈ runs) {i : ℕ} (hi : i ∈ run.pages) : s.Free i :=
  h.accounted.held_free i (h.mem_heldPages.mpr ⟨run, hrun, hi⟩)

variable (hs : s.Consistent)

include hs

theorem window_iff (h : HoldsRuns s area runs l) {area' : AllocationArea} :
    l.memory.Window area' count z w ↔ s.Window area' count z w ∧
      ∀ i, w ≤ i → i < w + count → ∀ run ∈ runs, i ∉ run.pages := by
  rw [h.accounted.window_iff hs]
  apply and_congr_right
  intro _
  apply forall₃_congr
  intro i _ _
  rw [h.mem_heldPages]
  constructor
  · exact fun hnot run hrun hi => hnot ⟨run, hrun, hi⟩
  · rintro hnot ⟨run, hrun, hi⟩
    exact hnot run hrun hi

/-- The free pages are those of the start that are not held. -/
theorem freeSet_eq (h : HoldsRuns s area runs l) :
    l.memory.freeSet = s.freeSet \ heldPages l.outstanding := by
  have hsize : l.memory.bitsSize = s.bitsSize := by
    rw [h.accounted.memory]
    rfl
  ext i
  rw [Finset.mem_sdiff, MemoryDescriptor.mem_freeSet, MemoryDescriptor.mem_freeSet, MemoryDescriptor.Free,
    MemoryDescriptor.Free, hsize]
  constructor
  · rintro ⟨hi, hunused⟩
    rw [h.accounted.used_eq hs hi] at hunused
    split at hunused
    · cases hunused
    · exact ⟨⟨hi, hunused⟩, ‹_›⟩
  · rintro ⟨⟨hi, hunused⟩, hnot⟩
    refine ⟨hi, ?_⟩
    rw [h.accounted.used_eq hs hi, if_neg hnot, hunused]

variable (hx : s.Exclusive) (p : Profile)

include hx

theorem check (h : HoldsRuns s area runs l) : (checkedTotals p).run l = .ok l.memory.totals l :=
  run_zoom_ok (MemoryDescriptor.checkAllocationState_run p (h.accounted.consistent hs)
    (h.accounted.exclusive hs hx))

theorem invalid (h : HoldsRuns s area runs l) (area' : AllocationArea) :
    (allocatePages p area' 0).run l = .ok (.error .invalidCount) l := by
  obtain ⟨r, t, hrun, -, hanswer, hsame, -⟩ := (h.accounted.allocatePages hs hx p area' 0).exists_ok
  match r, hanswer with
  | .error .invalidCount, _ =>
    rw [hrun, hsame _ rfl]
  | .error .outOfMemory, hanswer => exact absurd hanswer.1 (Nat.lt_irrefl 0)
  | .ok run, hanswer => exact absurd hanswer.1 (Nat.lt_irrefl 0)

theorem outOfMemory (h : HoldsRuns s area runs l) {area' : AllocationArea} (hpos : 0 < count)
    (hnone : ∀ z w, ¬ l.memory.Window area' count z w) :
    (allocatePages p area' count).run l = .ok (.error .outOfMemory) l := by
  obtain ⟨r, t, hrun, -, hanswer, hsame, -⟩ := (h.accounted.allocatePages hs hx p area' count).exists_ok
  match r, hanswer with
  | .error .invalidCount, hanswer => exact absurd hanswer.1 (Nat.pos_iff_ne_zero.mp hpos)
  | .error .outOfMemory, _ => rw [hrun, hsame _ rfl]
  | .ok run, ⟨_, _, ⟨z, hfit⟩, _⟩ => exact absurd hfit.window (hnone z run.first)

theorem grant (h : HoldsRuns s area runs l) (hpos : 0 < count) (hwindow : l.memory.Window area count z w) :
    ∃ run t y, (allocatePages p area count).run l = .ok (.ok run) t ∧ HoldsRuns s area (run :: runs) t ∧
      run.count = count ∧ l.memory.FirstFit area count y run.first := by
  obtain ⟨r, t, hrun, ht, hanswer, -, hgrant⟩ := (h.accounted.allocatePages hs hx p area count).exists_ok
  match r, hanswer with
  | .error .invalidCount, hanswer => exact absurd hanswer.1 (Nat.pos_iff_ne_zero.mp hpos)
  | .error .outOfMemory, hanswer => exact absurd hwindow (hanswer.2.2 z w)
  | .ok run, ⟨_, hcount, ⟨y, hfit⟩, _⟩ =>
    refine ⟨run, t, y, hrun, ⟨ht, ?_⟩, hcount, hfit⟩
    rw [(hgrant run rfl).2]
    exact (h.outstanding.append_right _).trans (List.perm_append_singleton _ _)

omit hx in
theorem release (h : HoldsRuns s area (run :: runs) l) :
    ∃ t, (freePages p run).run l = .ok () t ∧ HoldsRuns s area runs t := by
  have hmem : ⟨area, run⟩ ∈ l.outstanding := h.outstanding.mem_iff.mpr List.mem_cons_self
  have hlt : l.outstanding.findIdx (·.run = run) < l.outstanding.length :=
    List.findIdx_lt_length_of_exists ⟨_, hmem, by simp⟩
  obtain ⟨k, hk⟩ : ∃ k, l.outstanding.findIdx (·.run = run) = k := ⟨_, rfl⟩
  have hfound := List.findIdx_getElem (w := hlt)
  rw [decide_eq_true_eq] at hfound
  simp only [hk] at hlt hfound
  have hholding : l.outstanding[k] = ⟨area, run⟩ := by
    obtain ⟨run', -, heq⟩ := List.mem_map.mp (h.outstanding.mem_iff.mp (List.getElem_mem hlt))
    rw [← heq] at hfound ⊢
    rw [← hfound]
  have hget : l.outstanding[k]? = some ⟨area, run⟩ := by rw [List.getElem?_eq_getElem hlt, hholding]
  have hrelease := MemoryDescriptor.release_run p (h.accounted.consistent hs) (h.accounted.held hs hmem)
  have hzoom : (onDescriptor (MikoOS.release p run)).run l =
      .ok () { l with memory := l.memory.clear run.pages } := run_zoom_ok hrelease
  have hperm : (l.outstanding[k] :: l.outstanding.eraseIdx k).Perm l.outstanding :=
    List.getElem_cons_eraseIdx_perm hlt
  rw [hholding] at hperm
  subst hk
  have hback := h.accounted.giveBack hs hget
  have hrest := (hperm.trans h.outstanding).cons_inv
  refine ⟨⟨l.memory.clear run.pages, _⟩, ?_, ⟨hback, hrest⟩⟩
  exact run_bind_ok hzoom

end HoldsRuns

section Verify

variable {s : MemoryDescriptor} {l : Ledger} {area : AllocationArea} {runs : List PageRun} {run : PageRun}
  {count z w : ℕ} (hs : s.Consistent) (hx : s.Exclusive) (p : Profile)

theorem run_granted (run : PageRun) (text : String) (l : Ledger) :
    (granted (.ok run) text).run l = .ok run l := rfl

theorem satisfies_denied {α : Type} {e : AllocationError} {text : String} {f : PageRun → Exec Ledger α}
    {post : α → Ledger → Prop} {stop : Panic → Ledger → Prop} :
    Satisfies ((granted (.error e) text >>= f).run l) post stop ↔ stop (.message text) l := by
  rw [granted, EStateM.run_bind, run_raise, satisfies_error]

theorem run_refused (e : AllocationError) (l : Ledger) : (refused (.error e) e).run l = .ok () l :=
  run_require (decide_eq_true rfl) _ l

theorem mem_pages_single {i : ℕ} (hcount : run.count = 1) : i ∈ run.pages ↔ i = run.first := by
  rw [PageRun.mem_pages]
  omega

include hs

/-- A free page is a window of one page. -/
theorem exists_window_one {i : ℕ} (hi : s.Free i) : ∃ z, s.Window .any 1 z i := by
  obtain ⟨z, zone, -, hzone, hmem⟩ := hs.free_zone hi
  have hrange := Finset.mem_Ico.mp hmem
  refine ⟨z, zone, hzone, hrange.1, hrange.2, ?_⟩
  intro j h1 h2
  obtain rfl : j = i := by omega
  exact hi.2

/-- A window consists of free pages. -/
theorem window_free (h : s.Window area count z w) {i : ℕ} (h1 : w ≤ i) (h2 : i < w + count) : s.Free i := by
  obtain ⟨zone, hzone, hfirst, hlast, hfree⟩ := h
  have hend : area.endAddress zone / page2MSize ≤ zone.last := Nat.div_le_div_right (area.endAddress_le zone)
  have hbits := hs.zone_last z zone hzone
  exact ⟨by omega, hfree i h1 h2⟩

/-- The mapped pages among the free ones. -/
def mappedSet (s : MemoryDescriptor) : Finset ℕ := {i ∈ s.freeSet | i < directRamEnd / page2MSize}

theorem window_mapped_iff {i : ℕ} : (∃ z, s.Window .mapped 1 z i) ↔ i ∈ mappedSet s := by
  rw [mappedSet, Finset.mem_filter, MemoryDescriptor.mem_freeSet]
  constructor
  · rintro ⟨z, h⟩
    refine ⟨window_free hs h le_rfl (Nat.lt_succ_self i), ?_⟩
    obtain ⟨zone, -, -, hlast, -⟩ := h
    have hend : AllocationArea.mapped.endAddress zone / page2MSize ≤ directRamEnd / page2MSize :=
      Nat.div_le_div_right (min_le_right _ _)
    omega
  · rintro ⟨hfree, hlow⟩
    obtain ⟨z, zone, -, hzone, hmem⟩ := hs.free_zone hfree
    have hrange := Finset.mem_Ico.mp hmem
    have haligned := (hs.zone_aligned z zone hzone).2.1
    refine ⟨z, zone, hzone, hrange.1, ?_, ?_⟩
    · have hend : (i + 1) * page2MSize ≤ AllocationArea.mapped.endAddress zone := by
        have hzoneEnd : (i + 1) * page2MSize ≤ zone.endAddress := by
          rw [haligned]
          exact Nat.mul_le_mul_right _ hrange.2
        have hdirect : (i + 1) * page2MSize ≤ directRamEnd := by
          rw [directRamEnd, page2MSize] at hlow ⊢
          omega
        exact le_min hzoneEnd hdirect
      exact (Nat.le_div_iff_mul_le (by decide)).mpr hend
    · intro j h1 h2
      obtain rfl : j = i := by omega
      exact hfree.2

/-- What the first part needs: 65 pages in a row, and one page more. -/
def Roomy (s : MemoryDescriptor) : Prop := (∃ z w, s.Window .any 65 z w) ∧ 66 ≤ s.freeSet.card

/-- One run held takes its pages from the free ones. -/
theorem HoldsRuns.freeSet_single (h : HoldsRuns s area [run] l) : l.memory.freeSet = s.freeSet \ run.pages := by
  rw [h.freeSet_eq hs]
  congr 1
  ext i
  rw [h.mem_heldPages]
  simp

theorem HoldsRuns.free_single (h : HoldsRuns s area [run] l) :
    l.memory.totals.free + run.count = s.totals.free := by
  have hsub : run.pages ⊆ s.freeSet := by
    intro i hi
    exact MemoryDescriptor.mem_freeSet.mpr (h.run_free List.mem_cons_self hi)
  have hcard : run.pages.card = run.count := by
    rw [PageRun.pages, Nat.card_Ico]
    omega
  have hle := Finset.card_le_card hsub
  rw [(h.accounted.consistent hs).free_total, hs.free_total, h.freeSet_single hs,
    Finset.card_sdiff_of_subset hsub, hcard]
  omega

include hx

theorem verifyRefusals_run : (verifyRefusals p s.totals).run ⟨s, []⟩ = .ok () ⟨s, []⟩ := by
  have hstart := HoldsRuns.start s .any
  have hbits := hs.bitsSize_le
  have hhuge : ∀ z w, ¬ s.Window .any (2 ^ 64 - 1) z w := by
    intro z w h
    have hlast := window_free hs h (Nat.le_add_right w (2 ^ 64 - 2)) (by omega)
    have hlt := hlast.1
    omega
  rw [verifyRefusals, run_bind_ok (hstart.invalid hs hx p .any), run_bind_ok (run_refused _ _),
    run_bind_ok (hstart.outOfMemory hs hx p (by decide) hhuge), run_bind_ok (run_refused _ _),
    run_bind_ok (hstart.check hs hx p), run_require (decide_eq_true rfl)]

omit hs hx in
theorem isApart_run {other large : PageRun} (hother : other.first ∉ large.pages)
    (hend : large.first + large.count < 2 ^ 64) (l : Ledger) :
    (isApart p other large).run l = .ok true l := by
  rw [PageRun.mem_pages] at hother
  by_cases hlt : other.first < large.first
  · rw [isApart, if_pos hlt]
    rfl
  · rw [isApart, if_neg hlt, run_bind_ok (run_add p hend l)]
    have hle : large.first + large.count ≤ other.first := by omega
    rw [decide_eq_true hle]
    rfl

theorem verifyReuse_run : Satisfies ((verifyReuse p s.totals).run ⟨s, []⟩)
    (fun _ t => t = ⟨s, []⟩ ∧ Roomy s) fun _ _ => ¬ Roomy s := by
  have hstart := HoldsRuns.start s .any
  by_cases hwindow : ∃ z w, s.Window .any 65 z w
  · obtain ⟨z, w, hwindow⟩ := hwindow
    obtain ⟨large, l₁, y, hlarge, h₁, hcount, hfit⟩ := hstart.grant hs hx p (by decide) hwindow
    have hfree := h₁.free_single hs
    have hconsistent := h₁.accounted.consistent hs
    rw [hcount] at hfree
    have hle : 65 ≤ s.totals.free := by omega
    have hsame : l₁.memory.totals.free = s.totals.free - 65 := by omega
    rw [verifyReuse, run_bind_ok hlarge, run_bind_ok (run_granted _ _ _),
      run_bind_ok (run_require (decide_eq_true hcount) _ _), run_bind_ok (h₁.check hs hx p),
      run_bind_ok (run_sub p hle l₁), run_bind_ok (run_require (decide_eq_true hsame) _ _)]
    have hcard : l₁.memory.freeSet.card + 65 = s.freeSet.card := by
      rw [← hconsistent.free_total, ← hs.free_total]
      exact hfree
    rcases Finset.eq_empty_or_nonempty l₁.memory.freeSet with hempty | ⟨i, hi⟩
    · -- the 65 pages were all
      have hnone : ∀ z w, ¬ l₁.memory.Window .any 1 z w := by
        intro z w h
        have hmem := MemoryDescriptor.mem_freeSet.mpr (window_free hconsistent h le_rfl (Nat.lt_succ_self w))
        rw [hempty] at hmem
        exact absurd hmem (Finset.notMem_empty w)
      rw [hempty, Finset.card_empty] at hcard
      rw [run_bind_ok (h₁.outOfMemory hs hx p (by decide) hnone), satisfies_denied]
      intro hroomy
      have hmany := hroomy.2
      omega
    · obtain ⟨v, hone⟩ := exists_window_one hconsistent (MemoryDescriptor.mem_freeSet.mp hi)
      have hpos : 0 < l₁.memory.freeSet.card := Finset.card_pos.mpr ⟨i, hi⟩
      obtain ⟨other, l₂, y', hother, h₂, hsingle, hfit'⟩ := h₁.grant hs hx p (by decide) hone
      have hout : other.first ∉ large.pages := by
        have hlow := ((h₁.window_iff hs).mp hfit'.window).2 other.first le_rfl (Nat.lt_succ_self _)
        exact hlow large List.mem_cons_self
      have hend : large.first + large.count < 2 ^ 64 := by
        have hlast : large.first + 64 ∈ large.pages := PageRun.mem_pages.mpr (by omega)
        have hlt := (h₁.run_free List.mem_cons_self hlast).1
        have hbits := hs.bitsSize_le
        omega
      obtain ⟨l₃, hrelease, h₃⟩ := (h₂.perm (List.Perm.swap large other [])).release hs p
      have hagain : l₃.memory.FirstFit .any 65 y large.first := by
        apply (Accounted.initial s).firstFit_again hs h₃.accounted hfit
        · exact Finset.empty_subset _
        · intro j h1 h2 hj
          obtain ⟨run, hrun, hmem⟩ := h₃.mem_heldPages.mp hj
          obtain rfl := List.mem_singleton.mp hrun
          obtain rfl := (mem_pages_single hsingle).mp hmem
          exact hout (PageRun.mem_pages.mpr ⟨h1, by omega⟩)
      obtain ⟨reused, l₄, v', hreused, h₄, -, hfit''⟩ := h₃.grant hs hx p (by decide) hagain.window
      have hfirst : reused.first = large.first := (hfit''.unique hagain).2
      obtain ⟨l₅, hrelease', h₅⟩ := h₄.release hs p
      obtain ⟨l₆, hrelease'', h₆⟩ := h₅.release hs p
      obtain rfl := h₆.eq_start
      rw [run_bind_ok hother, run_bind_ok (run_granted _ _ _), run_bind_ok (isApart_run p hout hend l₂),
        run_bind_ok (run_require rfl _ _), run_bind_ok (h₂.check hs hx p), run_bind_ok hrelease,
        run_bind_ok (h₃.check hs hx p), run_bind_ok hreused, run_bind_ok (run_granted _ _ _),
        run_bind_ok (run_require (decide_eq_true hfirst) _ _), run_bind_ok hrelease',
        run_bind_ok hrelease'', run_bind_ok (h₆.check hs hx p), run_require (decide_eq_true rfl),
        satisfies_ok]
      exact ⟨rfl, ⟨z, w, hwindow⟩, by omega⟩
  · have hnone : ∀ z w, ¬ s.Window .any 65 z w := fun z w h => hwindow ⟨z, w, h⟩
    rw [verifyReuse, run_bind_ok (hstart.outOfMemory hs hx p (by decide) hnone), satisfies_denied]
    exact fun h : Roomy s => hwindow h.1

omit hx in
theorem HoldsRuns.mem_mappedSet (h : HoldsRuns s area runs l) {i : ℕ} :
    i ∈ mappedSet l.memory ↔ i ∈ mappedSet s ∧ ∀ run ∈ runs, i ∉ run.pages := by
  rw [mappedSet, mappedSet, Finset.mem_filter, Finset.mem_filter, h.freeSet_eq hs, Finset.mem_sdiff,
    h.mem_heldPages]
  push Not
  tauto

omit hs hx in
theorem HoldsRuns.pairwise (h : HoldsRuns s area runs l) :
    runs.Pairwise fun a b => Disjoint a.pages b.pages := by
  have hsymm : ∀ {a b : Holding}, Disjoint a.run.pages b.run.pages → Disjoint b.run.pages a.run.pages :=
    fun hab => hab.symm
  have hruns := (h.outstanding.pairwise_iff hsymm).mp h.accounted.disjoint
  rwa [List.pairwise_map] at hruns

/-- Single runs taken from the mapped pages. -/
structure HoldsMapped (s : MemoryDescriptor) (runs : List PageRun) (l : Ledger) : Prop where
  holds : HoldsRuns s .mapped runs l
  single : ∀ run ∈ runs, run.count = 1

omit hs hx in
theorem HoldsMapped.nodup (h : HoldsMapped s runs l) : (runs.map PageRun.first).Nodup := by
  apply List.pairwise_map.mpr
  apply h.holds.pairwise.imp_of_mem
  intro a b ha hb hab heq
  have hmem := (mem_pages_single (h.single a ha)).mpr rfl
  exact Finset.disjoint_left.mp hab hmem ((mem_pages_single (h.single b hb)).mpr heq)

omit hx in
/-- Every mapped page is free or one of those held. -/
theorem HoldsMapped.card_add (h : HoldsMapped s runs l) :
    (mappedSet l.memory).card + runs.length = (mappedSet s).card := by
  have hsub : (runs.map PageRun.first).toFinset ⊆ mappedSet s := by
    intro i hi
    obtain ⟨run, hrun, rfl⟩ := List.mem_map.mp (List.mem_toFinset.mp hi)
    have hmem := (mem_pages_single (h.single run hrun)).mpr rfl
    obtain ⟨-, ⟨z, zone, hzone, hfirst, hlast⟩, hfree⟩ :=
      h.holds.accounted.fits ⟨.mapped, run⟩ (h.holds.outstanding.mem_iff.mpr (List.mem_map_of_mem hrun))
    have hend : AllocationArea.mapped.endAddress zone / page2MSize ≤ directRamEnd / page2MSize :=
      Nat.div_le_div_right (min_le_right _ _)
    have hcount := h.single run hrun
    dsimp only at hlast
    rw [mappedSet, Finset.mem_filter, MemoryDescriptor.mem_freeSet]
    exact ⟨hfree run.first hmem, by omega⟩
  have heq : mappedSet l.memory = mappedSet s \ (runs.map PageRun.first).toFinset := by
    ext i
    rw [h.holds.mem_mappedSet hs, Finset.mem_sdiff, List.mem_toFinset, List.mem_map]
    push Not
    apply and_congr_right
    intro _
    apply forall₂_congr
    intro run hrun
    rw [mem_pages_single (h.single run hrun)]
    exact ne_comm
  have hle := Finset.card_le_card hsub
  have hlength : (runs.map PageRun.first).toFinset.card = runs.length := by
    rw [List.toFinset_card_of_nodup h.nodup, List.length_map]
  rw [hlength] at hle
  rw [heq, Finset.card_sdiff_of_subset hsub, hlength]
  omega

omit hs hx in
theorem card_mappedSet_le : (mappedSet s).card ≤ directRamEnd / page2MSize := by
  have hsub : mappedSet s ⊆ Finset.range (directRamEnd / page2MSize) := by
    intro i hi
    exact Finset.mem_range.mpr (Finset.mem_filter.mp hi).2
  calc (mappedSet s).card ≤ (Finset.range (directRamEnd / page2MSize)).card := Finset.card_le_card hsub
    _ = directRamEnd / page2MSize := Finset.card_range _

omit hx in
theorem no_window_of_mappedSet_empty (hempty : mappedSet s = ∅) : ∀ z w, ¬ s.Window .mapped 1 z w := by
  intro z w h
  have hmem := (window_mapped_iff hs).mp ⟨z, h⟩
  rw [hempty] at hmem
  exact absurd hmem (Finset.notMem_empty w)

/-- One page more from the mapped ones, while there is one. -/
theorem HoldsMapped.take (h : HoldsMapped s runs l) {i : ℕ} (hi : i ∈ mappedSet l.memory) :
    ∃ run t, (allocatePages p .mapped 1).run l = .ok (.ok run) t ∧ HoldsMapped s (run :: runs) t ∧
      run.first ∈ mappedSet l.memory := by
  have hconsistent := h.holds.accounted.consistent hs
  obtain ⟨z, hwindow⟩ := (window_mapped_iff hconsistent).mpr hi
  obtain ⟨run, t, y, hrun, ht, hcount, hfit⟩ := h.holds.grant hs hx p (by decide) hwindow
  refine ⟨run, t, hrun, ⟨ht, ?_⟩, (window_mapped_iff hconsistent).mp ⟨y, hfit.window⟩⟩
  intro other hother
  rcases List.mem_cons.mp hother with rfl | hold
  · exact hcount
  · exact h.single other hold

/-- The slots suffice, and the loop ends with every mapped page held. -/
theorem holdMapped_run (slots : ℕ) (h : HoldsMapped s runs l)
    (hslots : runs.length + slots = directRamEnd / page2MSize) :
    ∃ held t, (holdMapped p slots runs).run l = .ok held t ∧ HoldsMapped s held t ∧
      mappedSet t.memory = ∅ := by
  induction slots generalizing runs l with
  | zero =>
    have hcard := h.card_add hs
    have hle := card_mappedSet_le (s := s)
    have hempty : mappedSet l.memory = ∅ := Finset.card_eq_zero.mp (by omega)
    have hnone := no_window_of_mappedSet_empty (h.holds.accounted.consistent hs) hempty
    refine ⟨runs, l, ?_, h, hempty⟩
    rw [holdMapped, run_bind_ok (h.holds.outOfMemory hs hx p (by decide) hnone)]
    rfl
  | succ slots ih =>
    rcases Finset.eq_empty_or_nonempty (mappedSet l.memory) with hempty | ⟨i, hi⟩
    · have hnone := no_window_of_mappedSet_empty (h.holds.accounted.consistent hs) hempty
      refine ⟨runs, l, ?_, h, hempty⟩
      rw [holdMapped, run_bind_ok (h.holds.outOfMemory hs hx p (by decide) hnone)]
      rfl
    · obtain ⟨run, t, hrun, ht, hlow⟩ := h.take hs hx p hi
      have hbelow := (Finset.mem_filter.mp hlow).2
      have hend : run.physicalAddress + page2MSize ≤ directRamEnd := by
        rw [PageRun.physicalAddress]
        rw [directRamEnd, page2MSize] at *
        omega
      have hperm : (run :: runs).Perm (runs ++ [run]) := (List.perm_append_singleton run runs).symm
      have ht' : HoldsMapped s (runs ++ [run]) t :=
        ⟨ht.holds.perm hperm, fun other hother => ht.single other (hperm.mem_iff.mpr hother)⟩
      obtain ⟨held, t', hrest, hheld, hempty⟩ := ih ht' (by rw [List.length_append, List.length_singleton]; omega)
      refine ⟨held, t', ?_, hheld, hempty⟩
      rw [holdMapped, run_bind_ok hrun]
      exact (run_bind_ok (run_require (decide_eq_true hend) _ t)).trans hrest

theorem releaseAll_run (h : HoldsRuns s area runs l) : (releaseAll p runs).run l = .ok () ⟨s, []⟩ := by
  induction runs generalizing l with
  | nil =>
    obtain rfl := h.eq_start
    rfl
  | cons run runs ih =>
    obtain ⟨t, hrelease, ht⟩ := h.release hs p
    rw [releaseAll, run_bind_ok hrelease, run_bind_ok (ht.check hs hx p)]
    exact ih ht

omit hx in
theorem mem_mappedSet_of_window (h : s.Window .mapped count z w) {i : ℕ}
    (h1 : w ≤ i) (h2 : i < w + count) : i ∈ mappedSet s := by
  obtain ⟨zone, hzone, hfirst, hlast, hfree⟩ := h
  apply (window_mapped_iff hs).mp
  refine ⟨z, zone, hzone, hfirst.trans h1, by omega, ?_⟩
  intro j hj1 hj2
  exact hfree j (by omega) (by omega)

theorem verifyHole_run {hole : PageRun} (h : HoldsMapped s (hole :: runs) l)
    (hempty : mappedSet l.memory = ∅) : (verifyHole p s.totals hole runs).run l = .ok () ⟨s, []⟩ := by
  obtain ⟨l₁, hrelease, h₁⟩ := h.holds.release hs p
  have hconsistent := h₁.accounted.consistent hs
  have hsingle := h.single hole List.mem_cons_self
  -- the page of the hole is the only free one
  have hhole : ∀ i, i ∈ mappedSet l₁.memory → i = hole.first := by
    intro i hi
    obtain ⟨hi, hnot⟩ := (h₁.mem_mappedSet hs).mp hi
    by_contra hne
    have hmem : i ∈ mappedSet l.memory := by
      apply (h.holds.mem_mappedSet hs).mpr
      refine ⟨hi, List.forall_mem_cons.mpr ⟨?_, hnot⟩⟩
      exact fun hin => hne ((mem_pages_single hsingle).mp hin)
    rw [hempty] at hmem
    exact absurd hmem (Finset.notMem_empty i)
  have hrest : HoldsMapped s runs l₁ := ⟨h₁, fun run hrun => h.single run (List.mem_cons_of_mem _ hrun)⟩
  have hone : hole.first ∈ mappedSet l₁.memory := by
    have hcard := h.card_add hs
    have hcard₁ := hrest.card_add hs
    rw [hempty, Finset.card_empty, List.length_cons] at hcard
    obtain ⟨i, hi⟩ := Finset.card_pos.mp (by omega : 0 < (mappedSet l₁.memory).card)
    rwa [← hhole i hi]
  have hnone : ∀ z w, ¬ l₁.memory.Window .mapped 2 z w := by
    intro z w hwindow
    have hlow := hhole _ (mem_mappedSet_of_window hconsistent hwindow le_rfl (by omega))
    have hnext := hhole _ (mem_mappedSet_of_window hconsistent hwindow (Nat.le_succ w) (by omega))
    omega
  obtain ⟨again, l₂, hagain, h₂, hmem⟩ := hrest.take hs hx p hone
  have hsame : again.first = hole.first := hhole _ hmem
  rw [verifyHole, run_bind_ok hrelease, run_bind_ok (h₁.check hs hx p),
    run_bind_ok (h₁.outOfMemory hs hx p (by decide) hnone), run_bind_ok (run_refused _ _),
    run_bind_ok (h₁.check hs hx p), run_bind_ok (run_require (decide_eq_true rfl) _ _), run_bind_ok hagain,
    run_bind_ok (run_granted _ _ _), run_bind_ok (run_require (decide_eq_true hsame) _ _),
    run_bind_ok (releaseAll_run hs hx p h₂.holds), run_bind_ok ((HoldsRuns.start s .any).check hs hx p),
    run_require (decide_eq_true rfl)]

theorem verifyFragments_run : Satisfies ((verifyFragments p s.totals).run ⟨s, []⟩)
    (fun _ t => t = ⟨s, []⟩ ∧ 2 ≤ (mappedSet s).card) fun _ _ => ¬ 2 ≤ (mappedSet s).card := by
  have hnothing : HoldsMapped s [] ⟨s, []⟩ := ⟨HoldsRuns.start s .mapped, fun run hrun => by cases hrun⟩
  obtain ⟨held, l₁, hhold, h₁, hempty⟩ := holdMapped_run hs hx p (directRamEnd / page2MSize) hnothing
    (Nat.zero_add _)
  have hcard := h₁.card_add hs
  rw [hempty, Finset.card_empty, Nat.zero_add] at hcard
  rw [verifyFragments, run_bind_ok hhold, ← hcard]
  match held, h₁ with
  | [], _ | [_], _ =>
    dsimp only
    rw [run_raise, satisfies_error]
    simp
  | hole :: second :: rest, h₁ =>
    dsimp only
    rw [verifyHole_run hs hx p h₁ hempty, satisfies_ok, List.length_cons, List.length_cons]
    exact ⟨rfl, by omega⟩

theorem verifyExhaustion_run (hpos : 0 < s.freeSet.card) :
    Satisfies ((verifyExhaustion p s.totals).run ⟨s, []⟩)
      (fun _ t => t = ⟨s, []⟩ ∧ s.zonesSize = 1 ∧ s.totals.inUse = 0)
      fun _ _ => ¬ (s.zonesSize = 1 ∧ s.totals.inUse = 0) := by
  have hstart := HoldsRuns.start s .any
  by_cases hdefault : s.zonesSize = 1 ∧ s.totals.inUse = 0
  · obtain ⟨hzones, hunused⟩ := hdefault
    obtain ⟨zone, hzone, hfreeSet⟩ := hs.single_zone hzones hunused
    have htotal := hs.free_total
    have hlength : s.freeSet.card = zone.last - zone.first := by rw [hfreeSet, Zone.range, Nat.card_Ico]
    have hwindow : s.Window .any s.totals.free 0 zone.first := by
      have hlast : zone.first + s.totals.free ≤ zone.last := by omega
      refine ⟨zone, hzone, le_rfl, hlast, ?_⟩
      intro i h1 h2
      have hmem : i ∈ s.freeSet := by
        rw [hfreeSet]
        exact Finset.mem_Ico.mpr ⟨h1, by omega⟩
      exact (MemoryDescriptor.mem_freeSet.mp hmem).2
    obtain ⟨entire, l₁, y, hentire, h₁, hcount, -⟩ := hstart.grant hs hx p (by omega) hwindow
    have hfree := h₁.free_single hs
    have hconsistent := h₁.accounted.consistent hs
    have hzero : l₁.memory.totals.free = 0 := by omega
    have hnone : ∀ z w, ¬ l₁.memory.Window .any 1 z w := by
      intro z w h
      have hmem := MemoryDescriptor.mem_freeSet.mpr (window_free hconsistent h le_rfl (Nat.lt_succ_self w))
      rw [hconsistent.free_total, Finset.card_eq_zero] at hzero
      rw [hzero] at hmem
      exact absurd hmem (Finset.notMem_empty w)
    obtain ⟨l₂, hrelease, h₂⟩ := h₁.release hs p
    obtain rfl := h₂.eq_start
    rw [verifyExhaustion, run_get_bind, run_bind_ok (run_require (decide_eq_true hzones) _ _),
      run_bind_ok (run_require (decide_eq_true hunused) _ _), run_bind_ok hentire,
      run_bind_ok (run_granted _ _ _), run_bind_ok (h₁.check hs hx p),
      run_bind_ok (run_require (decide_eq_true hzero) _ _),
      run_bind_ok (h₁.outOfMemory hs hx p (by decide) hnone), run_bind_ok (run_refused _ _),
      run_bind_ok (h₁.check hs hx p), run_bind_ok (run_require (decide_eq_true rfl) _ _),
      run_bind_ok hrelease, run_bind_ok (h₂.check hs hx p), run_require (decide_eq_true rfl), satisfies_ok]
    exact ⟨rfl, hzones, hunused⟩
  · rw [verifyExhaustion, run_get_bind]
    refine Satisfies.bind (satisfies_require fun _ => hdefault) ?_
    rintro _ t ⟨rfl, hzones⟩
    refine Satisfies.bind (satisfies_require fun _ => hdefault) ?_
    rintro _ t ⟨rfl, hunused⟩
    exact absurd ⟨of_decide_eq_true hzones, of_decide_eq_true hunused⟩ hdefault

end Verify

/-- A free zone of 66 pages has room. -/
theorem MemoryDescriptor.Checkable.roomy {s : MemoryDescriptor} (hs : s.Consistent) (h : s.Checkable) :
    Roomy s := by
  obtain ⟨zone, hzone, hfreeSet⟩ := hs.single_zone h.zones h.unused
  have hmany := h.many
  have hlength : s.freeSet.card = zone.last - zone.first := by rw [hfreeSet, Zone.range, Nat.card_Ico]
  refine ⟨⟨0, zone.first, zone, hzone, le_rfl, ?_, ?_⟩, hmany⟩
  · have hlast : zone.first + 65 ≤ zone.last := by omega
    exact hlast
  · intro i h1 h2
    have hmem : i ∈ s.freeSet := by
      rw [hfreeSet]
      exact Finset.mem_Ico.mpr ⟨h1, by omega⟩
    exact (MemoryDescriptor.mem_freeSet.mp hmem).2

/-- On consistent records the check returns exactly on the layout it is written for, with every record
as before; in every other layout it stops. -/
theorem verifyAllocator_run (p : Profile) {s : MemoryDescriptor} (hs : s.Consistent) (hx : s.Exclusive) :
    Satisfies ((verifyAllocator p).run ⟨s, []⟩) (fun _ t => t = ⟨s, []⟩ ∧ s.Checkable)
      fun _ _ => ¬ s.Checkable := by
  rw [verifyAllocator, run_bind_ok ((HoldsRuns.start s .any).check hs hx p),
    run_bind_ok (verifyRefusals_run hs hx p)]
  refine Satisfies.bind ((verifyReuse_run hs hx p).mono (fun _ _ h => h) ?_) ?_
  · exact fun _ _ hnot hcheckable => hnot (hcheckable.roomy hs)
  rintro _ _ ⟨rfl, hroomy⟩
  refine Satisfies.bind ((verifyFragments_run hs hx p).mono (fun _ _ h => h) ?_) ?_
  · exact fun _ _ hnot hcheckable => hnot hcheckable.mapped
  rintro _ _ ⟨rfl, hmapped⟩
  refine (verifyExhaustion_run hs hx p (by have hmany := hroomy.2; omega)).mono ?_ ?_
  · rintro _ _ ⟨rfl, hzones, hunused⟩
    exact ⟨rfl, hzones, hunused, hroomy.2, hmapped⟩
  · exact fun _ _ hnot hcheckable => hnot ⟨hcheckable.zones, hcheckable.unused⟩

/-- In every reachable state the comparison passes, changes nothing and counts the free pages; the whole
check returns exactly if one unused zone of at least 66 pages, two of them mapped, is all there is, and
it then leaves the descriptor as it was. -/
theorem verify_outcome (p : Profile) (image : KernelImage) (himage : image.Linked)
    (base : BitVec 32) (k t : Kernel) (hk : k.Booted base) (ht : (init p image).run k = .ok () t)
    (ops : List Operation) (l : Ledger) (hl : (history p ops).run ⟨t.memory, []⟩ = .ok () l) :
    (checkAllocationState p).run l.memory = .ok l.memory.totals l.memory ∧
      l.memory.totals.free = l.memory.freeSet.card ∧
      ((∃ u, (verifyAllocator p).run ⟨l.memory, []⟩ = .ok () u) ↔ l.memory.Checkable) ∧
      ∀ u, (verifyAllocator p).run ⟨l.memory, []⟩ = .ok () u → u = ⟨l.memory, []⟩ := by
  obtain ⟨map, -, hrunning⟩ := init_ok himage hk ht
  have hs₀ := hrunning.memory.consistent
  have hx₀ := hrunning.memory.exclusive
  have h := Accounted.of_run hs₀ hx₀ p hl
  have hs := h.consistent hs₀
  have hx := h.exclusive hs₀ hx₀
  have hverify := verifyAllocator_run p hs hx
  refine ⟨MemoryDescriptor.checkAllocationState_run p hs hx, hs.free_total, ?_, ?_⟩
  · constructor
    · rintro ⟨u, hu⟩
      rw [hu, satisfies_ok] at hverify
      exact hverify.2
    · intro hcheckable
      have hpasses := hverify.mono (fun _ _ h => h) fun _ _ hnot => hnot hcheckable
      obtain ⟨_, u, hu, -⟩ := hpasses.exists_ok
      exact ⟨u, hu⟩
  · intro u hu
    rw [hu, satisfies_ok] at hverify
    exact hverify.1

/-- A handoff of two entries: the low memory, and 66 pages behind the kernel. -/
def wideHandoff : Memory :=
  let header := store32 (store16 (store16 (store16 (store16 (store32 (fun _ => 0)
    0x4ff0 headerMagic) 0x4ff4 1) 0x4ff6 20) 0x4ff8 2) 0x4ffa 32) 0x4ffc 1
  let low := store32 (store64 (store64 header 0x5000 0) 0x5008 0x9f000) 0x5010 1
  store32 (store64 (store64 low 0x5014 0x100000) 0x501c 0x8500000) 0x5024 1

def wideKernel : Kernel := ⟨.zero, start (layHead wideHandoff), BitVec.ofNat 64 pml4Address⟩

def wideImage : KernelImage := ⟨0xffff800000100000, 0xffff8000001c0000⟩

theorem wideKernel_booted : wideKernel.Booted (load32 (layHead wideHandoff) framebufferField) :=
  ⟨rfl, rfl, start_bootTables (headLoaded_layHead _)⟩

theorem verify_outcome_sample : ∃ t, (init .dev wideImage).run wideKernel = .ok () t ∧
    t.memory.Checkable ∧ (verifyAllocator .dev).run ⟨t.memory, []⟩ = .ok () ⟨t.memory, []⟩ := by
  have h : (match (init .dev wideImage).run wideKernel with
    | .ok _ t => (match (verifyAllocator .dev).run ⟨t.memory, []⟩ with
      | .ok _ _ => true
      | .error _ _ => false)
    | .error _ _ => false) = true := by decide +kernel
  cases ht : (init .dev wideImage).run wideKernel with
  | error e t => simp only [ht, Bool.false_eq_true] at h
  | ok u t =>
    cases hu : (verifyAllocator .dev).run ⟨t.memory, []⟩ with
    | error e v => simp only [ht, hu, Bool.false_eq_true] at h
    | ok u v =>
      obtain ⟨-, -, hiff, hsame⟩ := verify_outcome .dev wideImage ⟨rfl, by decide, by decide, by decide⟩ _
        wideKernel t wideKernel_booted ht [] ⟨t.memory, []⟩ rfl
      obtain rfl := hsame v hu
      exact ⟨t, rfl, hiff.mp ⟨_, hu⟩, hu⟩

end MikoOS
