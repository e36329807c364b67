import MikoOS.KernelInit
import MikoOS.SharedPages

/-!
# Reference counts over histories of calls

Any sequence of `init_page` and `clean_page` calls. A page is taken from free by one call, later calls
take further references as far as a sharing flag is among the flags accumulated so far, and
`clean_page` drops one at a time. After every sequence the bitmap, the attributes and the zone totals
agree with the references counted from the calls, up to the range of `usize`.
-/

namespace MikoOS

open Rust ReferenceCount

/-- A call with the descriptor it was made on. -/
structure PageEvent where
  before : MemoryDescriptor
  call : PageCall

namespace PageEvent

/-- The call that takes page `i` from free. -/
def takes (i : ℕ) (e : PageEvent) : Bool :=
  match e.call with
  | .initPage j _ => j = i ∧ e.before.attributesOf i = 0
  | .cleanPage _ => false

/-- An `init_page` of page `i` whose old or new attributes contain a sharing flag. -/
def shares (i : ℕ) (e : PageEvent) : Bool :=
  match e.call with
  | .initPage j attributes => j = i ∧ (e.before.attributesOf i ||| attributes) &&& sharingFlags ≠ 0
  | .cleanPage _ => false

def cleans (i : ℕ) (e : PageEvent) : Bool := e.call = .cleanPage i

/-- The event as a movement of the count of page `i`. -/
def entry (i : ℕ) (e : PageEvent) : ℕ × Movement := (e.before.references i, e.call.movementAt e.before i)

end PageEvent

/-- Completed calls from `s₀` to the present descriptor, newest first, each of them allowed. -/
inductive PageHistory (p : Profile) (s₀ : MemoryDescriptor) : List PageEvent → MemoryDescriptor → Prop
  | start : PageHistory p s₀ [] s₀
  | call {h : List PageEvent} {s t : MemoryDescriptor} (c : PageCall) (hrun : PageHistory p s₀ h s)
      (hc : c.Allowed s) (ht : (c.perform p).run s = .ok () t) : PageHistory p s₀ (⟨s, c⟩ :: h) t

namespace MemoryDescriptor

/-- Page `i` has a zone and is free. -/
def StartsFree (s : MemoryDescriptor) (i : ℕ) : Prop := s.zoneOf i ≠ none ∧ s.attributesOf i = 0

/-- The pages of zone `z`. -/
def pagesOf (s : MemoryDescriptor) (z : ℕ) : Finset ℕ := {i ∈ Finset.range s.bitsSize | s.zoneOf i = some z}

theorem Consistent.pagesOf_eq {s : MemoryDescriptor} (hs : s.Consistent) {z : ℕ} {zone : Zone}
    (hzone : s.HasZone z zone) : s.pagesOf z = zone.range := by
  ext i
  rw [pagesOf, Finset.mem_filter, Finset.mem_range]
  constructor
  · rintro ⟨-, hz⟩
    obtain ⟨zone', hzone', hmem⟩ := (hs.zone_pages i z).mp hz
    obtain rfl : zone = zone' := Option.some.inj (hzone.2.symm.trans hzone'.2)
    exact hmem
  · intro hmem
    have hz := hs.zone_of_mem hzone hmem
    exact ⟨hs.lt_of_zoneOf hz, hz⟩

end MemoryDescriptor

/-- What a history keeps: consistency throughout, the zones of the pages, and every page's count as
a trail of movements. -/
structure Tracked (s₀ : MemoryDescriptor) (h : List PageEvent) (t : MemoryDescriptor) : Prop where
  consistent : t.Consistent
  zoneOf : ∀ i, t.zoneOf i = s₀.zoneOf i
  events : ∀ e ∈ h, e.before.Consistent
  trail : ∀ i, Trail (s₀.references i) (h.map (PageEvent.entry i)) (t.references i)
  last : ∀ e earlier, h = e :: earlier → Outcome e.before e.call t

theorem Tracked.call {s₀ s t : MemoryDescriptor} {h : List PageEvent} {c : PageCall}
    (hs : Tracked s₀ h s) (ht : Outcome s c t) : Tracked s₀ (⟨s, c⟩ :: h) t := by
  constructor
  · exact ht.consistent
  · intro i
    exact (ht.zoneOf i).trans (hs.zoneOf i)
  · intro e he
    rcases List.mem_cons.mp he with rfl | he
    · exact hs.consistent
    · exact hs.events e he
  · intro i
    exact Trail.move _ (hs.trail i) (ht.moves i)
  · intro e earlier heq
    obtain ⟨rfl, rfl⟩ := List.cons.inj heq
    exact ht

theorem PageHistory.tracked {p : Profile} {s₀ t : MemoryDescriptor} {h : List PageEvent}
    (hrun : PageHistory p s₀ h t) (hs : s₀.Consistent)
    (hroom : p = .release → ∀ e ∈ h, e.call.Room e.before) : Tracked s₀ h t := by
  induction hrun with
  | start =>
    constructor
    · exact hs
    · intro i
      rfl
    · intro e he
      cases he
    · intro i
      exact Trail.start
    · intro e earlier heq
      cases heq
  | @call h s t c hrun hc ht ih =>
    have htracked := ih (fun hp e he => hroom hp e (List.mem_cons_of_mem _ he))
    have hr : c.Room s := by
      cases p with
      | release => exact hroom rfl _ (List.mem_cons_self)
      | dev =>
        by_contra hfull
        obtain ⟨u, hu⟩ := htracked.consistent.overflows hc hfull
        rw [hu] at ht
        cases ht
    obtain ⟨u, hu, houtcome⟩ := htracked.consistent.performs hc hr
    obtain rfl : t = u := by
      have := ht.symm.trans (hu p)
      cases this
      rfl
    exact htracked.call houtcome

namespace PageEvent

variable {i : ℕ} {e : PageEvent}

theorem drop_iff_cleans (hheld : e.before.attributesOf i ≠ 0) :
    (e.entry i).2 = .drop ↔ e.cleans i = true := by
  obtain ⟨s, c⟩ := e
  cases c with
  | initPage j attributes =>
    simp only [entry, PageCall.movementAt, PageCall.movement, cleans]
    split_ifs <;> simp
  | cleanPage j =>
    have hmove : (PageCall.cleanPage j).movement (s.attributesOf i) = .drop := if_neg hheld
    simp only [entry, PageCall.movementAt, hmove, PageCall.index, cleans]
    split_ifs with hj <;> simp [hj]

theorem share_iff_shares (hheld : e.before.attributesOf i ≠ 0) :
    (e.entry i).2 = .share ↔ e.shares i = true := by
  obtain ⟨s, c⟩ := e
  cases c with
  | initPage j attributes =>
    simp only [entry, PageCall.movementAt, PageCall.movement, PageCall.index, if_neg hheld, shares]
    split_ifs with hj hshare
    · exact iff_of_true rfl (decide_eq_true ⟨hj, hshare⟩)
    · exact iff_of_false (by simp) fun h => hshare (of_decide_eq_true h).2
    · exact iff_of_false (by simp) fun h => hj (of_decide_eq_true h).1
  | cleanPage j =>
    simp only [entry, PageCall.movementAt, PageCall.movement, shares]
    split_ifs <;> simp

theorem takes_of_take (he : (e.entry i).2 = .take) : e.takes i = true := by
  obtain ⟨s, c⟩ := e
  cases c with
  | initPage j attributes =>
    simp only [entry, PageCall.movementAt, PageCall.movement, PageCall.index] at he
    split_ifs at he with hj hfree
    simp [takes, hj, hfree]
  | cleanPage j =>
    simp only [entry, PageCall.movementAt, PageCall.movement] at he
    split_ifs at he

end PageEvent

/-- What the records say after the history `h` from `s₀`. A page that started free is marked in the bitmap
iff it has attributes iff it has references; while it is held its references are those of the calls since
it was taken; it is freed by the `clean_page` of its last reference; and the totals of a zone are the sums
over its pages. -/
structure Accounts (s₀ : MemoryDescriptor) (h : List PageEvent) (t : MemoryDescriptor) : Prop where
  held : ∀ i, s₀.StartsFree i → (t.used i = true ↔ t.attributesOf i ≠ 0) ∧
    (t.attributesOf i ≠ 0 ↔ 0 < t.references i)
  counted : ∀ i, s₀.StartsFree i → t.attributesOf i ≠ 0 → ∃ later first earlier,
    h = later ++ first :: earlier ∧ first.takes i = true ∧
      (∀ e ∈ later, e.before.attributesOf i ≠ 0) ∧
      t.references i + later.countP (PageEvent.cleans i) = 1 + later.countP (PageEvent.shares i)
  freed : ∀ i, s₀.StartsFree i → ∀ e earlier, h = e :: earlier → e.before.attributesOf i ≠ 0 →
    (t.used i = false ↔ e.call = .cleanPage i ∧ e.before.references i = 1) ∧
      (t.used i = false → t.attributesOf i = 0)
  totals : ∀ z zone, t.HasZone z zone →
    zone.pageUsingCount = {i ∈ t.pagesOf z | t.used i = true}.card ∧
      zone.pageFreeCount = {i ∈ t.pagesOf z | t.used i = false}.card ∧
      zone.totalPagesRefCount = ∑ i ∈ t.pagesOf z, t.references i

namespace Tracked

variable {s₀ t : MemoryDescriptor} {h : List PageEvent} (ht : Tracked s₀ h t) {i : ℕ}

include ht

theorem used_iff_attributes (hz : s₀.zoneOf i ≠ none) :
    t.used i = true ↔ t.attributesOf i ≠ 0 := by
  rw [← ht.zoneOf i] at hz
  obtain ⟨z, hz⟩ := Option.ne_none_iff_exists'.mp hz
  rw [ht.consistent.used_iff i (ht.consistent.lt_of_zoneOf hz), hz]
  simp

theorem counted (hs : s₀.Consistent) (hfree : s₀.attributesOf i = 0) (hheld : t.attributesOf i ≠ 0) :
    ∃ later first earlier, h = later ++ first :: earlier ∧ first.takes i = true ∧
      (∀ e ∈ later, e.before.attributesOf i ≠ 0) ∧
      t.references i + later.countP (PageEvent.cleans i) = 1 + later.countP (PageEvent.shares i) := by
  have htrail := ht.trail i
  rw [hs.references_of_free hfree] at htrail
  obtain ⟨moves, before, hmoves, hpos, hcount⟩ := htrail.tenure (ht.consistent.references_pos hheld)
  obtain ⟨later, rest, rfl, rfl, hrest⟩ := List.map_eq_append_iff.mp hmoves
  obtain ⟨first, earlier, rfl, hfirst, rfl⟩ := List.map_eq_cons_iff.mp hrest
  have hlater : ∀ e ∈ later, e.before.attributesOf i ≠ 0 := by
    intro e he
    have hconsistent := ht.events e (List.mem_append_left _ he)
    exact (hconsistent.held_iff i).mpr (hpos _ (List.mem_map_of_mem he))
  refine ⟨later, first, earlier, rfl, ?_, hlater, ?_⟩
  · apply PageEvent.takes_of_take
    rw [hfirst]
  · have hdrops : later.countP (fun e => (e.entry i).2 = .drop) = later.countP (PageEvent.cleans i) := by
      apply List.countP_congr
      intro e he
      rw [decide_eq_true_iff]
      exact PageEvent.drop_iff_cleans (hlater e he)
    have hshares : later.countP (fun e => (e.entry i).2 = .share) = later.countP (PageEvent.shares i) := by
      apply List.countP_congr
      intro e he
      rw [decide_eq_true_iff]
      exact PageEvent.share_iff_shares (hlater e he)
    rw [← hdrops, ← hshares]
    rw [List.countP_map, List.countP_map] at hcount
    exact hcount

theorem freed (hz : s₀.zoneOf i ≠ none) {e : PageEvent} {earlier : List PageEvent}
    (hlast : h = e :: earlier) (hheld : e.before.attributesOf i ≠ 0) :
    t.used i = false ↔ e.call = .cleanPage i ∧ e.before.references i = 1 := by
  have hbefore := ht.events e (by rw [hlast]; exact List.mem_cons_self)
  have hmoves := (ht.last e earlier hlast).moves i
  have hzero : t.used i = false ↔ t.references i = 0 := by
    rw [← Bool.not_eq_true, ht.used_iff_attributes hz, ht.consistent.held_iff]
    omega
  rw [hzero, hmoves.freed_iff (hbefore.references_pos hheld)]
  have hdrop : e.call.movementAt e.before i = .drop ↔ e.cleans i = true :=
    PageEvent.drop_iff_cleans hheld
  rw [hdrop, PageEvent.cleans, decide_eq_true_iff]

theorem totals {z : ℕ} {zone : Zone} (hzone : t.HasZone z zone) :
    zone.pageUsingCount = {i ∈ t.pagesOf z | t.used i = true}.card ∧
      zone.pageFreeCount = {i ∈ t.pagesOf z | t.used i = false}.card ∧
      zone.totalPagesRefCount = ∑ i ∈ t.pagesOf z, t.references i := by
  have hcounts := ht.consistent.counts z zone hzone
  rw [ht.consistent.pagesOf_eq hzone]
  simp only [MemoryDescriptor.recount, Prod.ext_iff] at hcounts
  exact hcounts

end Tracked

/-- Every history of allowed calls keeps the accounts, in `release` as long as a call that takes a
reference finds its counters below the largest `usize`; the next allowed call then completes alike in
either profile, and one without room panics in `dev`. -/
theorem page_accounts (p : Profile) {s₀ t : MemoryDescriptor} {h : List PageEvent}
    (hs : s₀.Consistent) (hrun : PageHistory p s₀ h t)
    (hroom : p = .release → ∀ e ∈ h, e.call.Room e.before) :
    Accounts s₀ h t ∧ ∀ c : PageCall, c.Allowed t →
      (c.Room t → ∃ u, ∀ q, (c.perform q).run t = .ok () u) ∧
        (¬ c.Room t → ∃ u, (c.perform .dev).run t = .error .overflow u) := by
  have ht := hrun.tracked hs hroom
  refine ⟨⟨?_, ?_, ?_, ?_⟩, ?_⟩
  · intro i hi
    exact ⟨ht.used_iff_attributes hi.1, ht.consistent.held_iff i⟩
  · intro i hi hheld
    exact ht.counted hs hi.2 hheld
  · intro i hi e earlier hlast hheld
    refine ⟨ht.freed hi.1 hlast hheld, ?_⟩
    intro hunused
    by_contra hattr
    rw [(ht.used_iff_attributes hi.1).mpr hattr] at hunused
    cases hunused
  · intro z zone hzone
    exact ht.totals hzone
  · intro c hc
    constructor
    · intro hr
      obtain ⟨u, hu, -⟩ := ht.consistent.performs hc hr
      exact ⟨u, hu⟩
    · intro hfull
      exact ht.consistent.overflows hc hfull

theorem MemoryDescriptor.Consistent.room_of_exclusive {s : MemoryDescriptor} (hs : s.Consistent)
    (hx : s.Exclusive) (c : PageCall) : c.Room s := by
  intro _
  constructor
  · exact lt_of_le_of_lt (Nat.add_le_add_right (hx c.index) 1) (by norm_num)
  · intro z zone _ hzone
    exact lt_of_le_of_lt (Nat.add_le_add_right (hs.refs_le hx hzone) 1) (by norm_num)

/-- Taking a free page shares nothing. -/
theorem Outcome.exclusive {s t : MemoryDescriptor} {i : ℕ} {attributes : BitVec 64}
    (h : Outcome s (.initPage i attributes) t) (hfree : s.attributesOf i = 0) (hx : s.Exclusive) :
    t.Exclusive := by
  intro j
  have hmoves := h.moves j
  by_cases hj : j = i
  · subst hj
    have htake : (PageCall.initPage j attributes).movementAt s j = .take :=
      PageCall.movementAt_self.trans (if_pos hfree)
    rw [htake] at hmoves
    exact hmoves.2.le
  · rw [PageCall.movementAt_of_ne hj] at hmoves
    exact hmoves.le.trans (hx j)

/-- The sample map leaves page 2 free. -/
theorem sample_free_page : ∃ t, (init .release sampleImage).run sampleKernel = .ok () t ∧
    t.memory.Consistent ∧ t.memory.Exclusive ∧ 2 < t.memory.bitsSize ∧ t.memory.StartsFree 2 := by
  have h : returns (fun _ t => decide (2 < t.memory.bitsSize ∧ t.memory.zoneOf 2 = some 0 ∧
      t.memory.attributesOf 2 = 0)) ((init .release sampleImage).run sampleKernel) = true := by
    decide +kernel
  obtain ⟨_, t, ht, hpage⟩ := exists_of_returns h
  obtain ⟨hlt, hz, hfree⟩ := of_decide_eq_true hpage
  obtain ⟨map, -, hrunning⟩ := init_ok sampleImage_linked sampleKernel_booted ht
  refine ⟨t, ht, hrunning.memory.consistent, hrunning.memory.exclusive, hlt, ?_, hfree⟩
  rw [hz]
  exact Option.some_ne_none 0

theorem page_accounts_sample : ∃ (t : Kernel) (h : List PageEvent) (u : MemoryDescriptor),
    (init .release sampleImage).run sampleKernel = .ok () t ∧
      h.map PageEvent.call =
        [.cleanPage 2, .initPage 2 Flags.active, .initPage 2 Flags.referenced] ∧
      PageHistory .release t.memory h u ∧ Accounts t.memory h u := by
  obtain ⟨t, ht, hs, hx, hlt, hz, hfree⟩ := sample_free_page
  have htakes : (PageCall.initPage 2 Flags.referenced).Allowed t.memory := ⟨hlt, by decide⟩
  have hroom := hs.room_of_exclusive hx
  obtain ⟨u, hu, hfirst⟩ := hs.performs htakes (hroom _)
  have hshares : (PageCall.initPage 2 Flags.active).Allowed u := ⟨hfirst.bitsSize ▸ hlt, by decide⟩
  have hroom₁ := hfirst.consistent.room_of_exclusive (hfirst.exclusive hfree hx)
  obtain ⟨v, hv, hsecond⟩ := hfirst.consistent.performs hshares (hroom₁ _)
  have hattr : v.attributesOf 2 = 0 ||| Flags.referenced ||| Flags.active := by
    have h₁ : u.attributesOf 2 = t.memory.attributesOf 2 ||| Flags.referenced := hfirst.attributes
    have h₂ : v.attributesOf 2 = u.attributesOf 2 ||| Flags.active := hsecond.attributes
    rw [h₂, h₁, hfree]
  have hcleans : (PageCall.cleanPage 2).Allowed v := by
    constructor
    · rw [hsecond.zoneOf, hfirst.zoneOf]
      exact hz
    · rw [hattr]
      decide
  have hnone : (PageCall.cleanPage 2).Room v := by
    intro hgain
    rw [PageCall.gain_cleanPage] at hgain
    cases hgain
  obtain ⟨w, hw, -⟩ := hsecond.consistent.performs hcleans hnone
  have hrun := ((PageHistory.start.call _ htakes (hu .release)).call _ hshares (hv .release)).call _
    hcleans (hw .release)
  refine ⟨t, _, w, ht, rfl, hrun, (page_accounts .release hs hrun ?_).1⟩
  intro _ e he
  simp only [List.mem_cons, List.not_mem_nil, or_false] at he
  obtain rfl | rfl | rfl := he
  · exact hnone
  · exact hroom₁ _
  · exact hroom _

/-- Page `i` has been taken and shared with `REFERENCED` only, `n` times in all. -/
structure SharedPage (i n : ℕ) (s : MemoryDescriptor) : Prop where
  lt : i < s.bitsSize
  word : i / 64 < s.bitsMap.length
  page : ∃ page, s.pages[i]? = some page ∧ page.attributes = Flags.referenced ∧
    page.referenceCount = n % 2 ^ 64 ∧ ∀ z, page.zone = some z → z < s.zones.length

theorem SharedPage.share {i n : ℕ} {s : MemoryDescriptor} (h : SharedPage i n s) :
    ∃ t, (initPage .release i Flags.referenced).run s = .ok () t ∧ SharedPage i (n + 1) t := by
  obtain ⟨hi, hw, ⟨owner, physicalAddress, found, referenceCount, createTime⟩, hp, hfound, hcount,
    hzones⟩ := h
  obtain rfl : found = Flags.referenced := hfound
  have hheld : Flags.referenced ≠ 0 := by decide
  have hshare : (Flags.referenced ||| Flags.referenced) &&&
      (Flags.referenced ||| Flags.kernelShareToUser) ≠ 0 := by decide
  have hnext : (referenceCount + 1) % 2 ^ 64 = (n + 1) % 2 ^ 64 := by
    change referenceCount = n % 2 ^ 64 at hcount
    rw [hcount, Nat.mod_add_mod]
  have hplace : i < s.pages.length := (List.getElem?_eq_some_iff.mp hp).1
  have hshared : ∀ zones : List Zone, zones.length = s.zones.length →
      SharedPage i (n + 1) { s with
        bitsMap := WordBits.assign s.bitsMap {i} true
        pages := s.pages.set i ⟨owner, physicalAddress, Flags.referenced ||| Flags.referenced,
          (referenceCount + 1) % 2 ^ 64, createTime⟩
        zones := zones } := by
    intro zones hlength
    refine ⟨hi, ?_, _, List.getElem?_set_self hplace, ?_, hnext, ?_⟩
    · rw [WordBits.length_assign]
      exact hw
    · exact BitVec.or_self
    · intro z hz
      rw [hlength]
      exact hzones z hz
  cases owner with
  | none =>
    refine ⟨_, ?_, hshared s.zones rfl⟩
    rw [initPage]
    simp only [EStateM.run_bind, EStateM.run_get, run_require (decide_eq_true hi), run_element hp,
      if_neg hheld, if_pos hshare, run_add_release, setPage, EStateM.run_modify, List.set_set]
    rw [MemoryDescriptor.setUsed_run ?_ ?_]
    · exact hi
    · exact hw
  | some z =>
    have hz := hzones z rfl
    refine ⟨_, ?_, hshared (s.zones.set z { s.zones[z] with
      totalPagesRefCount := (s.zones[z].totalPagesRefCount + 1) % 2 ^ 64 }) List.length_set⟩
    rw [initPage]
    simp only [EStateM.run_bind, EStateM.run_get, run_require (decide_eq_true hi), run_element hp,
      if_neg hheld, if_pos hshare, run_add_release, setPage, EStateM.run_modify, List.set_set]
    rw [MemoryDescriptor.updateZone_run s.zones[z] { s.zones[z] with
      totalPagesRefCount := (s.zones[z].totalPagesRefCount + 1) % 2 ^ 64 } ?_ ?_]
    · simp only
      rw [MemoryDescriptor.setUsed_run ?_ ?_]
      · exact hi
      · exact hw
    · exact List.getElem?_eq_getElem hz
    · simp only [EStateM.run_bind, run_add_release, EStateM.run_pure]

/-- Any number of references can be taken on a page of the sample map. -/
theorem shared_history {s : MemoryDescriptor} (hs : s.Consistent) (hx : s.Exclusive)
    (hlt : 2 < s.bitsSize) (hfree : s.attributesOf 2 = 0) {n : ℕ} (hn : 1 ≤ n) :
    ∃ h u, PageHistory .release s h u ∧
      h.map PageEvent.call = List.replicate n (.initPage 2 Flags.referenced) ∧ SharedPage 2 n u := by
  induction n, hn using Nat.le_induction with
  | base =>
    have htakes : (PageCall.initPage 2 Flags.referenced).Allowed s := ⟨hlt, by decide⟩
    obtain ⟨u, hu, hfirst⟩ := hs.performs htakes (hs.room_of_exclusive hx _)
    have hin : 2 < u.bitsSize := hfirst.bitsSize ▸ hlt
    obtain ⟨page, hp⟩ := hfirst.consistent.exists_page hin
    refine ⟨_, u, PageHistory.start.call _ htakes (hu .release), rfl, hin,
      hfirst.consistent.lt_words hin, page, hp, ?_, ?_, ?_⟩
    · have hattr : u.attributesOf 2 = s.attributesOf 2 ||| Flags.referenced := hfirst.attributes
      rw [← MemoryDescriptor.attributesOf_eq hp, hattr, hfree]
      decide
    · have hmoves := hfirst.moves 2
      have htake : (PageCall.initPage 2 Flags.referenced).movementAt s 2 = .take :=
        PageCall.movementAt_self.trans (if_pos hfree)
      rw [htake] at hmoves
      rw [← MemoryDescriptor.references_eq hp, hmoves.2]
      norm_num
    · intro z hz
      obtain ⟨zone, hzone, -⟩ := hfirst.consistent.zone_at hp hz
      exact (List.getElem?_eq_some_iff.mp hzone.2).1
  | succ n hn ih =>
    obtain ⟨h, u, hrun, hcalls, hshared⟩ := ih
    obtain ⟨v, hv, hnext⟩ := hshared.share
    have hc : (PageCall.initPage 2 Flags.referenced).Allowed u := ⟨hshared.lt, by decide⟩
    refine ⟨_, v, hrun.call _ hc hv, ?_, hnext⟩
    rw [List.map_cons, hcalls, List.replicate_succ]

/-- Taken 2^64 times in `release`, a page is held without any reference. -/
theorem page_references_wrap : ∃ (t : Kernel) (h : List PageEvent) (u : MemoryDescriptor),
    (init .release sampleImage).run sampleKernel = .ok () t ∧
      h.map PageEvent.call = List.replicate (2 ^ 64) (.initPage 2 Flags.referenced) ∧
      PageHistory .release t.memory h u ∧ ¬ Accounts t.memory h u := by
  obtain ⟨t, ht, hs, hx, hlt, hfree⟩ := sample_free_page
  obtain ⟨h, u, hrun, hcalls, hshared⟩ := shared_history hs hx hlt hfree.2
    (Nat.one_le_two_pow (n := 64))
  refine ⟨t, h, u, ht, hcalls, hrun, ?_⟩
  intro haccounts
  obtain ⟨page, hp, hattr, hcount, -⟩ := hshared.page
  have hpos := (haccounts.held 2 hfree).2.mp (by
    rw [MemoryDescriptor.attributesOf_eq hp, hattr]
    decide)
  rw [MemoryDescriptor.references_eq hp, hcount, Nat.mod_self] at hpos
  cases hpos

end MikoOS
