import MikoOS.AllocatorInvariant
import MikoOS.Library.ReferenceCount

/-!
# Shared pages

`init_page` on a page that is held already and `clean_page` on a page with several references, which
the allocator never asks for. Every allowed call with room in the counters completes, moves the count
of its page by one or not at all and keeps the three records consistent; without room it panics in
`dev`.
-/

namespace MikoOS

open Rust ReferenceCount

/-- The flags with which a held page takes a further reference. -/
def sharingFlags : BitVec 64 := Flags.referenced ||| Flags.kernelShareToUser

inductive PageCall
  | initPage (index : ℕ) (attributes : BitVec 64)
  | cleanPage (index : ℕ)
  deriving DecidableEq, Repr

namespace PageCall

def index : PageCall → ℕ
  | initPage i _ => i
  | cleanPage i => i

def perform (p : Profile) : PageCall → Exec MemoryDescriptor Unit
  | initPage i attributes => MikoOS.initPage p i attributes
  | cleanPage i => MikoOS.cleanPage p i

/-- `init_page` names a page and some attribute, `clean_page` a page with a zone that is not the
kernel's own. -/
def Allowed (s : MemoryDescriptor) : PageCall → Prop
  | initPage i attributes => i < s.bitsSize ∧ attributes ≠ 0
  | cleanPage i => s.zoneOf i ≠ none ∧ s.attributesOf i &&& Flags.kernelInit = 0

/-- What a call does to the reference count of its page, by the attributes found there. -/
def movement (found : BitVec 64) : PageCall → Movement
  | initPage _ attributes =>
    if found = 0 then .take
    else if (found ||| attributes) &&& sharingFlags ≠ 0 then .share
    else .keep
  | cleanPage _ => if found = 0 then .keep else .drop

/-- The attributes left on the page of the call. -/
def attributesAfter (found : BitVec 64) (references : ℕ) : PageCall → BitVec 64
  | initPage _ attributes => found ||| attributes
  | cleanPage _ => if references ≤ 1 then 0 else found

def movementAt (s : MemoryDescriptor) (i : ℕ) (c : PageCall) : Movement :=
  if c.index = i then c.movement (s.attributesOf i) else .keep

/-- A call that takes a reference finds the count of its page and the total of its zone below the
largest `usize`. -/
def Room (s : MemoryDescriptor) (c : PageCall) : Prop :=
  (c.movement (s.attributesOf c.index)).gain = 1 →
    s.references c.index + 1 < 2 ^ 64 ∧
      ∀ z zone, s.zoneOf c.index = some z → s.HasZone z zone → zone.totalPagesRefCount + 1 < 2 ^ 64

end PageCall

def Page.reissue (attributes : BitVec 64) (v : Movement) (page : Page) : Page :=
  { page with attributes := attributes, referenceCount := v.after page.referenceCount }

/-- The zone of `n` pages on which the movement is made. -/
def Zone.reissue (v : Movement) (n : ℕ) (zone : Zone) : Zone :=
  { zone with totalPagesRefCount := v.after^[n] zone.totalPagesRefCount }

namespace MemoryDescriptor

/-- Page `i` stays held, with the given attributes and a reference more, less or as many. -/
def reissue (s : MemoryDescriptor) (i : ℕ) (attributes : BitVec 64) (v : Movement) :
    MemoryDescriptor :=
  s.overlay {i} true (fun _ => Page.reissue attributes v) (Zone.reissue v)

variable {s : MemoryDescriptor} {i z : ℕ} {attributes : BitVec 64} {v : Movement}

theorem zoneOf_reissue (j : ℕ) : (s.reissue i attributes v).zoneOf j = s.zoneOf j := by
  rw [reissue]
  apply zoneOf_overlay
  intros
  rfl

theorem getElem?_pages_reissue (j : ℕ) :
    (s.reissue i attributes v).pages[j]? =
      (s.pages[j]?).map fun page => if j = i then page.reissue attributes v else page := by
  rw [reissue, getElem?_pages_overlay]
  simp only [Finset.mem_singleton]

theorem attributesOf_reissue_self {page : Page} (hp : s.pages[i]? = some page) :
    (s.reissue i attributes v).attributesOf i = attributes := by
  rw [attributesOf, getElem?_pages_reissue, hp]
  simp [Page.reissue]

theorem references_reissue_self {page : Page} (hp : s.pages[i]? = some page) :
    (s.reissue i attributes v).references i = v.after (s.references i) := by
  rw [references_eq hp, references, getElem?_pages_reissue, hp]
  simp [Page.reissue]

theorem attributesOf_reissue_of_ne {j : ℕ} (hj : j ≠ i) :
    (s.reissue i attributes v).attributesOf j = s.attributesOf j := by
  rw [attributesOf, attributesOf, getElem?_pages_reissue]
  simp [hj]

theorem references_reissue_of_ne {j : ℕ} (hj : j ≠ i) :
    (s.reissue i attributes v).references j = s.references j := by
  rw [references, references, getElem?_pages_reissue]
  simp [hj]

namespace Consistent

variable (hs : s.Consistent)

include hs

theorem used_of_held (hi : i < s.bitsSize) (hheld : s.attributesOf i ≠ 0) : s.used i = true :=
  (hs.used_iff i hi).mpr (Or.inl hheld)

theorem used_reissue (hi : i < s.bitsSize) (hheld : s.attributesOf i ≠ 0) {j : ℕ}
    (hj : j < s.bitsSize) : (s.reissue i attributes v).used j = s.used j := by
  rw [reissue, used_overlay (hs.lt_bits hj)]
  by_cases hji : j = i
  · rw [if_pos (Finset.mem_singleton.mpr hji), hji, hs.used_of_held hi hheld]
  · rw [if_neg (fun h => hji (Finset.mem_singleton.mp h))]

/-- Over a zone only the reference total can move. -/
theorem recount_reissue {zone : Zone} (hzone : s.HasZone z zone) (hi : i < s.bitsSize)
    (hheld : s.attributesOf i ≠ 0) (hv : v.Moves (s.references i) (v.after (s.references i))) :
    (s.reissue i attributes v).recount zone = ((s.recount zone).1, (s.recount zone).2.1,
      v.after^[s.share {i} z] (s.recount zone).2.2) := by
  obtain ⟨page, hp⟩ := hs.exists_page hi
  have hused : ∀ j ∈ zone.range, (s.reissue i attributes v).used j = s.used j := by
    intro j hj
    exact hs.used_reissue hi hheld (hs.lt_of_zoneOf (hs.zone_of_mem hzone hj))
  have hbit : ∀ b : Bool, {j ∈ zone.range | (s.reissue i attributes v).used j = b} =
      {j ∈ zone.range | s.used j = b} := by
    intro b
    apply Finset.filter_congr
    intro j hj
    rw [hused j hj]
  have htotal : ∑ j ∈ zone.range, (s.reissue i attributes v).references j =
      v.after^[s.share {i} z] (∑ j ∈ zone.range, s.references j) := by
    rw [share_singleton]
    by_cases hz : s.zoneOf i = some z
    · obtain ⟨zone', hzone', hmem⟩ := (hs.zone_pages i z).mp hz
      obtain rfl : zone = zone' := Option.some.inj (hzone.2.symm.trans hzone'.2)
      rw [if_pos hz, Function.iterate_one]
      apply sum_moves hmem
      · rw [references_reissue_self hp]
        exact hv
      · intro j hj
        exact references_reissue_of_ne hj
    · rw [if_neg hz, Function.iterate_zero, id]
      apply Finset.sum_congr rfl
      intro j hj
      apply references_reissue_of_ne
      rintro rfl
      exact hz (hs.zone_of_mem hzone hj)
  simp only [recount, hbit, htotal]

/-- A movement that leaves a held page held keeps the records consistent. -/
theorem reissue (hi : i < s.bitsSize) (hheld : s.attributesOf i ≠ 0) (hattr : attributes ≠ 0)
    (hv : v.Moves (s.references i) (v.after (s.references i)))
    (hpos : 0 < v.after (s.references i)) : (s.reissue i attributes v).Consistent := by
  obtain ⟨page, hp⟩ := hs.exists_page hi
  have hself : (s.reissue i attributes v).attributesOf i ≠ 0 := by
    rw [attributesOf_reissue_self hp]
    exact hattr
  apply hs.overlay
  · intro j page
    exact ⟨rfl, rfl⟩
  · intro n zone
    exact ⟨rfl, rfl, rfl⟩
  · intro j hj
    change (s.reissue i attributes v).used j = true ↔
      (s.reissue i attributes v).attributesOf j ≠ 0 ∨ _
    rw [hs.used_reissue hi hheld hj, hs.used_iff j hj]
    by_cases hji : j = i
    · subst hji
      exact iff_of_true (Or.inl hheld) (Or.inl hself)
    · rw [attributesOf_reissue_of_ne hji]
  · intro j
    change (s.reissue i attributes v).attributesOf j ≠ 0 ↔
      0 < (s.reissue i attributes v).references j
    by_cases hji : j = i
    · subst hji
      rw [references_reissue_self hp]
      exact iff_of_true hself hpos
    · rw [attributesOf_reissue_of_ne hji, references_reissue_of_ne hji]
      exact hs.held_iff j
  · intro z zone hzone
    change _ = (s.reissue i attributes v).recount zone
    rw [hs.recount_reissue hzone hi hheld hv, ← hs.counts z zone hzone]
    rfl

end Consistent

theorem zones_reissue_keep :
    (s.zones.mapIdx fun w zone => zone.reissue .keep (s.share {i} w)) = s.zones := by
  have hzone : ∀ n (zone : Zone), zone.reissue .keep n = zone := by
    intro n zone
    have hid : Movement.after .keep = id := rfl
    rw [Zone.reissue, hid, Function.iterate_id, id]
  apply List.ext_getElem?
  intro w
  rw [List.getElem?_mapIdx]
  cases s.zones[w]? with
  | none => rfl
  | some zone => rw [Option.map_some, hzone]

theorem assign_of_used (hused : s.used i = true) : WordBits.assign s.bitsMap {i} true = s.bitsMap := by
  apply WordBits.ext (WordBits.length_assign _ _ _)
  intro j hj
  rw [WordBits.length_assign] at hj
  rw [WordBits.testBit_assign {i} true hj]
  by_cases hji : j = i
  · rw [if_pos (Finset.mem_singleton.mpr hji), hji]
    exact hused.symm
  · rw [if_neg (fun h => hji (Finset.mem_singleton.mp h))]

theorem updateZone_error {t u : MemoryDescriptor} {f : Zone → Exec MemoryDescriptor Zone} {e : Panic}
    (zone : Zone) (hz : t.zones[z]? = some zone) (hf : (f zone).run t = .error e u) :
    (updateZone z f).run t = .error e u := by
  simp only [updateZone, updateElement, EStateM.run_bind, EStateM.run_get, run_element hz, hf]

section Branches

variable {page : Page} (hp : s.pages[i]? = some page)

include hp

/-- The zone array with the total of the page's zone moved. -/
theorem set_zone_reissue {zone : Zone} (hz : page.zone = some z) (hzone : s.zones[z]? = some zone) :
    s.zones.set z (zone.reissue v 1) =
      s.zones.mapIdx fun w zone => zone.reissue v (s.share {i} w) := by
  apply set_zones_eq (f := Zone.reissue v)
  · rw [zoneOf_eq hp, hz]
  · exact hzone
  · rfl

theorem zones_reissue_of_none (hz : page.zone = none) :
    s.zones = s.zones.mapIdx fun w zone => zone.reissue v (s.share {i} w) := by
  symm
  apply mapIdx_zones_of_none (f := Zone.reissue v)
  · rw [zoneOf_eq hp, hz]
  · rfl

theorem set_page_reissue (attributes : BitVec 64) (v : Movement) : s.pages.set i (page.reissue attributes v) =
    (s.reissue i attributes v).pages :=
  set_pages_eq (f := fun _ => Page.reissue attributes v) hp

/-- A held page with a sharing flag, old or new, takes a further reference. -/
theorem initPage_run_share (p : Profile) (hi : i < s.bitsSize) (hw : i / 64 < s.bitsMap.length)
    (hheld : page.attributes ≠ 0) (hshare : (page.attributes ||| attributes) &&& sharingFlags ≠ 0)
    (hrefs : page.referenceCount + 1 < 2 ^ 64)
    (hzone : ∀ z, page.zone = some z → ∃ zone, s.zones[z]? = some zone ∧
      zone.totalPagesRefCount + 1 < 2 ^ 64) :
    (initPage p i attributes).run s =
      .ok () (s.reissue i (page.attributes ||| attributes) .share) := by
  obtain ⟨owner, physicalAddress, found, referenceCount, createTime⟩ := page
  have hpages := set_page_reissue hp (found ||| attributes) .share
  rw [sharingFlags] at hshare
  rw [initPage]
  simp only [EStateM.run_bind, EStateM.run_get, run_require (decide_eq_true hi), run_element hp,
    if_neg hheld, if_pos hshare, run_add p hrefs, setPage, EStateM.run_modify, List.set_set]
  cases owner with
  | none =>
    simp only
    rw [setUsed_run ?_ ?_]
    · exact congrArg (EStateM.Result.ok ())
        (records_ext rfl hpages (zones_reissue_of_none hp rfl))
    · exact hi
    · exact hw
  | some z =>
    obtain ⟨zone, hzn, htotal⟩ := hzone z rfl
    simp only [EStateM.run_bind]
    rw [updateZone_run zone (zone.reissue .share 1) ?_ ?_]
    · simp only
      rw [setUsed_run ?_ ?_]
      · exact congrArg (EStateM.Result.ok ())
          (records_ext rfl hpages (set_zone_reissue hp rfl hzn))
      · exact hi
      · exact hw
    · exact hzn
    · simp only [EStateM.run_bind, run_add p htotal, EStateM.run_pure]
      rfl

/-- A held page without any sharing flag only collects the new flags. -/
theorem initPage_run_keep (p : Profile) (hi : i < s.bitsSize) (hw : i / 64 < s.bitsMap.length)
    (hheld : page.attributes ≠ 0) (hshare : (page.attributes ||| attributes) &&& sharingFlags = 0) :
    (initPage p i attributes).run s =
      .ok () (s.reissue i (page.attributes ||| attributes) .keep) := by
  have hpages := set_page_reissue hp (page.attributes ||| attributes) .keep
  have hzones := zones_reissue_keep (s := s) (i := i)
  rw [sharingFlags] at hshare
  rw [initPage]
  simp only [EStateM.run_bind, EStateM.run_get, run_require (decide_eq_true hi), run_element hp,
    if_neg hheld, if_neg (not_not_intro hshare), setPage, EStateM.run_modify]
  rw [setUsed_run ?_ ?_]
  · exact congrArg (EStateM.Result.ok ()) (records_ext rfl hpages hzones.symm)
  · exact hi
  · exact hw

/-- Dropping one of several references leaves the bitmap alone. -/
theorem cleanPage_run_drop (p : Profile) {zone : Zone} (hi : i < s.bitsSize)
    (hused : s.used i = true)
    (hz : page.zone = some z) (hheld : page.attributes ≠ 0)
    (hordinary : page.attributes &&& Flags.kernelInit = 0) (hmany : 1 < page.referenceCount)
    (hzone : s.zones[z]? = some zone) (htotal : 1 ≤ zone.totalPagesRefCount) :
    (cleanPage p i).run s = .ok () (s.reissue i page.attributes .drop) := by
  have hpages := set_page_reissue hp page.attributes .drop
  have hbits : s.bitsMap = (s.reissue i page.attributes .drop).bitsMap := by
    symm
    exact assign_of_used hused
  rw [cleanPage]
  simp only [EStateM.run_bind, EStateM.run_get, run_require (decide_eq_true hi), run_element hp,
    run_expect hz, run_require (decide_eq_true hordinary), if_neg hheld,
    run_require (decide_eq_true (Nat.zero_lt_of_lt hmany)), run_sub p hmany.le, setPage,
    EStateM.run_modify]
  rw [updateZone_run zone (zone.reissue .drop 1) ?_ ?_]
  · have hleft : page.referenceCount - 1 ≠ 0 := by omega
    simp only [if_neg hleft, EStateM.run_pure]
    exact congrArg (EStateM.Result.ok ()) (records_ext hbits hpages (set_zone_reissue hp hz hzone))
  · exact hzone
  · simp only [EStateM.run_bind, run_sub p htotal, EStateM.run_pure]
    rfl

/-- In `dev` the page's own count panics at its end. -/
theorem initPage_run_references (hi : i < s.bitsSize) (hheld : page.attributes ≠ 0)
    (hshare : (page.attributes ||| attributes) &&& sharingFlags ≠ 0)
    (hfull : 2 ^ 64 ≤ page.referenceCount + 1) :
    ∃ t, (initPage .dev i attributes).run s = .error .overflow t := by
  rw [sharingFlags] at hshare
  exists { s with pages := s.pages.set i { page with attributes := page.attributes ||| attributes } }
  rw [initPage]
  simp only [EStateM.run_bind, EStateM.run_get, run_require (decide_eq_true hi), run_element hp,
    if_neg hheld, if_pos hshare, setPage, EStateM.run_modify, run_add_overflow hfull]

/-- In `dev` the zone's total panics at its end, when a shared page takes a further reference. -/
theorem initPage_run_total (hi : i < s.bitsSize) (hheld : page.attributes ≠ 0)
    (hshare : (page.attributes ||| attributes) &&& sharingFlags ≠ 0)
    (hrefs : page.referenceCount + 1 < 2 ^ 64) {zone : Zone} (hz : page.zone = some z)
    (hzone : s.zones[z]? = some zone) (hfull : 2 ^ 64 ≤ zone.totalPagesRefCount + 1) :
    ∃ t, (initPage .dev i attributes).run s = .error .overflow t := by
  rw [sharingFlags] at hshare
  obtain ⟨owner, physicalAddress, found, referenceCount, createTime⟩ := page
  obtain rfl : owner = some z := hz
  exists { s with
    pages := s.pages.set i
      ⟨some z, physicalAddress, found ||| attributes, referenceCount + 1, createTime⟩ }
  rw [initPage]
  simp only [EStateM.run_bind, EStateM.run_get, run_require (decide_eq_true hi), run_element hp,
    if_neg hheld, if_pos hshare, run_add .dev hrefs, setPage, EStateM.run_modify, List.set_set]
  rw [updateZone_error zone ?_ ?_]
  · exact hzone
  · simp only [EStateM.run_bind, run_add_overflow hfull]

/-- The same for a page taken from free. -/
theorem initPage_run_taken (hi : i < s.bitsSize) (hfree : page.attributes = 0) {zone : Zone}
    (hz : page.zone = some z) (hzone : s.zones[z]? = some zone) (hpos : 0 < zone.pageFreeCount)
    (husing : zone.pageUsingCount + 1 < 2 ^ 64) (hfull : 2 ^ 64 ≤ zone.totalPagesRefCount + 1) :
    ∃ t, (initPage .dev i attributes).run s = .error .overflow t := by
  obtain ⟨owner, physicalAddress, found, referenceCount, createTime⟩ := page
  obtain rfl : owner = some z := hz
  exists { s with pages := s.pages.set i ⟨some z, physicalAddress, attributes, 1, createTime⟩ }
  rw [initPage]
  simp only [EStateM.run_bind, EStateM.run_get, run_require (decide_eq_true hi), run_element hp,
    if_pos hfree, setPage, EStateM.run_modify]
  rw [updateZone_error zone ?_ ?_]
  · exact hzone
  · simp only [EStateM.run_bind, run_require (decide_eq_true hpos), run_add .dev husing,
      run_sub .dev hpos, run_add_overflow hfull]

end Branches

theorem cleanPage_run_free (p : Profile) {page : Page} (hp : s.pages[i]? = some page)
    (hi : i < s.bitsSize) (hz : page.zone = some z) (hfree : page.attributes = 0) :
    (cleanPage p i).run s = .ok () s := by
  have hordinary : page.attributes &&& Flags.kernelInit = 0 := by
    rw [hfree]
    exact BitVec.zero_and
  rw [cleanPage]
  simp only [EStateM.run_bind, EStateM.run_get, run_require (decide_eq_true hi), run_element hp,
    run_expect hz, run_require (decide_eq_true hordinary), if_pos hfree, EStateM.run_pure]

end MemoryDescriptor

/-- What a completed call leaves: only the page it names has new attributes and a count that moved. -/
structure Outcome (s : MemoryDescriptor) (c : PageCall) (t : MemoryDescriptor) : Prop where
  consistent : t.Consistent
  bitsSize : t.bitsSize = s.bitsSize
  zoneOf : ∀ i, t.zoneOf i = s.zoneOf i
  moves : ∀ i, (c.movementAt s i).Moves (s.references i) (t.references i)
  attributes : t.attributesOf c.index = c.attributesAfter (s.attributesOf c.index) (s.references c.index)
  others : ∀ i ≠ c.index, t.attributesOf i = s.attributesOf i

namespace PageCall

variable {s : MemoryDescriptor} {c : PageCall} {i : ℕ}

theorem movementAt_self : c.movementAt s c.index = c.movement (s.attributesOf c.index) := if_pos rfl

theorem gain_cleanPage (found : BitVec 64) : ((cleanPage i).movement found).gain = 0 := by
  rw [movement]
  split <;> rfl

theorem movementAt_of_ne (hi : i ≠ c.index) : c.movementAt s i = .keep := if_neg hi.symm

end PageCall

namespace MemoryDescriptor.Consistent

variable {s : MemoryDescriptor} (hs : s.Consistent) {c : PageCall} {i : ℕ}

include hs

theorem references_pos (hheld : s.attributesOf i ≠ 0) : 0 < s.references i := (hs.held_iff i).mp hheld

theorem references_of_free (hfree : s.attributesOf i = 0) : s.references i = 0 := by
  by_contra h
  exact (hs.held_iff i).mpr (Nat.pos_of_ne_zero h) hfree

theorem outcome_reissue {v : Movement} (hi : c.index < s.bitsSize)
    (hheld : s.attributesOf c.index ≠ 0) (hv : c.movement (s.attributesOf c.index) = v)
    (hmoves : v.Moves (s.references c.index) (v.after (s.references c.index)))
    (hpos : 0 < v.after (s.references c.index))
    (hattr : c.attributesAfter (s.attributesOf c.index) (s.references c.index) ≠ 0) :
    Outcome s c (s.reissue c.index
      (c.attributesAfter (s.attributesOf c.index) (s.references c.index)) v) := by
  obtain ⟨page, hp⟩ := hs.exists_page hi
  constructor
  · exact hs.reissue hi hheld hattr hmoves hpos
  · rfl
  · intro i
    exact MemoryDescriptor.zoneOf_reissue i
  · intro i
    by_cases hic : i = c.index
    · subst hic
      rw [PageCall.movementAt_self, hv, MemoryDescriptor.references_reissue_self hp]
      exact hmoves
    · rw [PageCall.movementAt_of_ne hic]
      exact MemoryDescriptor.references_reissue_of_ne hic
  · exact MemoryDescriptor.attributesOf_reissue_self hp
  · intro i hic
    exact MemoryDescriptor.attributesOf_reissue_of_ne hic

theorem outcome_take {attributes : BitVec 64} (hi : i < s.bitsSize) (hfree : s.attributesOf i = 0)
    (hattr : attributes ≠ 0) :
    Outcome s (.initPage i attributes) (s.mark (fun _ => attributes) {i}) := by
  have hlt : ∀ j ∈ ({i} : Finset ℕ), j < s.pages.length := by
    intro j hj
    rw [Finset.mem_singleton.mp hj, hs.length_pages]
    exact hi
  have hmove : (PageCall.initPage i attributes).movement (s.attributesOf i) = .take := if_pos hfree
  constructor
  · apply hs.mark
    · intro j hj
      rw [Finset.mem_singleton.mp hj]
      exact ⟨hi, hfree⟩
    · intro j _
      exact hattr
  · rfl
  · intro j
    exact MemoryDescriptor.zoneOf_mark j
  · intro j
    rw [MemoryDescriptor.references_mark hlt]
    by_cases hji : j = i
    · subst hji
      rw [if_pos (Finset.mem_singleton_self j), hs.references_of_free hfree]
      rw [show (PageCall.initPage j attributes).movementAt s j = .take from
        PageCall.movementAt_self.trans hmove]
      exact ⟨rfl, rfl⟩
    · rw [if_neg (Finset.notMem_singleton.mpr hji),
        PageCall.movementAt_of_ne (c := .initPage i attributes) hji]
      rfl
  · rw [MemoryDescriptor.attributesOf_mark hlt]
    simp [PageCall.index, PageCall.attributesAfter, hfree]
  · intro j hji
    have hout : j ∉ ({i} : Finset ℕ) := Finset.notMem_singleton.mpr hji
    rw [MemoryDescriptor.attributesOf_mark hlt, if_neg hout]

theorem outcome_last (hz : s.zoneOf i ≠ none) (hheld : s.attributesOf i ≠ 0)
    (hone : s.references i = 1) : Outcome s (.cleanPage i) (s.clear {i}) := by
  have hmove : (PageCall.cleanPage i).movement (s.attributesOf i) = .drop := if_neg hheld
  constructor
  · apply hs.clear
    intro j hj
    rw [Finset.mem_singleton.mp hj]
    exact ⟨hz, hone⟩
  · rfl
  · intro j
    exact MemoryDescriptor.zoneOf_clear j
  · intro j
    rw [MemoryDescriptor.references_clear]
    by_cases hji : j = i
    · subst hji
      rw [if_pos (Finset.mem_singleton_self j), hone]
      rw [show (PageCall.cleanPage j).movementAt s j = .drop from
        PageCall.movementAt_self.trans hmove]
      rfl
    · rw [if_neg (Finset.notMem_singleton.mpr hji),
        PageCall.movementAt_of_ne (c := .cleanPage i) hji]
      rfl
  · rw [MemoryDescriptor.attributesOf_clear]
    simp [PageCall.index, PageCall.attributesAfter, hone]
  · intro j hji
    have hout : j ∉ ({i} : Finset ℕ) := Finset.notMem_singleton.mpr hji
    rw [MemoryDescriptor.attributesOf_clear, if_neg hout]

/-- A clean_page on a free page changes nothing. -/
theorem outcome_free (hfree : s.attributesOf i = 0) : Outcome s (.cleanPage i) s := by
  have hmove : ∀ j, (PageCall.cleanPage i).movementAt s j = .keep := by
    intro j
    by_cases hji : j = i
    · subst hji
      exact PageCall.movementAt_self.trans (if_pos hfree)
    · exact PageCall.movementAt_of_ne hji
  constructor
  · exact hs
  · rfl
  · intro j
    rfl
  · intro j
    rw [hmove j]
    rfl
  · simp [PageCall.index, PageCall.attributesAfter, hs.references_of_free hfree, hfree]
  · intro j _
    rfl

/-- What the code finds at a page: its descriptor, and its zone with counts in range. -/
theorem zone_at {page : Page} {z : ℕ} (hp : s.pages[i]? = some page) (hz : page.zone = some z) :
    ∃ zone, s.HasZone z zone ∧ i ∈ zone.range ∧ zone.pageUsingCount + 1 < 2 ^ 64 ∧
      zone.pageFreeCount + 1 < 2 ^ 64 := by
  obtain ⟨zone, hzone, hmem⟩ := (hs.zone_pages i z).mp ((MemoryDescriptor.zoneOf_eq hp).trans hz)
  have husing := hs.using_le hzone
  have hfree := hs.free_le hzone
  exact ⟨zone, hzone, hmem, by omega, by omega⟩

theorem free_pos_of_attributes {zone : Zone} {z : ℕ} (hzone : s.HasZone z zone) (hi : i ∈ zone.range)
    (hfree : s.attributesOf i = 0) : 0 < zone.pageFreeCount := by
  have hz := hs.zone_of_mem hzone hi
  apply hs.free_pos hzone hi
  rw [Bool.eq_false_iff]
  intro hused
  rcases (hs.used_iff i (hs.lt_of_zoneOf hz)).mp hused with h | h
  · exact h hfree
  · rw [hz] at h
    cases h

theorem references_le_total {zone : Zone} {z : ℕ} (hzone : s.HasZone z zone) (hi : i ∈ zone.range) :
    s.references i ≤ zone.totalPagesRefCount := by
  have htotal : zone.totalPagesRefCount = ∑ j ∈ zone.range, s.references j :=
    congrArg (·.2.2) (hs.counts z zone hzone)
  rw [htotal]
  exact Finset.single_le_sum (fun _ _ => Nat.zero_le _) hi

theorem performs_initPage {attributes : BitVec 64} (hi : i < s.bitsSize) (hattr : attributes ≠ 0)
    (hroom : (PageCall.initPage i attributes).Room s) :
    ∃ t, (∀ p, (initPage p i attributes).run s = .ok () t) ∧ Outcome s (.initPage i attributes) t := by
  obtain ⟨page, hp⟩ := hs.exists_page hi
  have hw := hs.lt_words hi
  have hfound := MemoryDescriptor.attributesOf_eq hp
  by_cases hfree : s.attributesOf i = 0
  · have hmove : (PageCall.initPage i attributes).movement (s.attributesOf i) = .take := if_pos hfree
    obtain ⟨-, htotal⟩ := hroom (congrArg Movement.gain hmove)
    refine ⟨_, ?_, hs.outcome_take hi hfree hattr⟩
    intro p
    apply MemoryDescriptor.initPage_run_free p hi hw hp (hfound.symm.trans hfree)
    intro z hz
    obtain ⟨zone, hzone, hmem, husing, -⟩ := hs.zone_at hp hz
    exact ⟨zone, hzone.2, hs.free_pos_of_attributes hzone hmem hfree, husing,
      htotal z zone (hs.zone_of_mem hzone hmem) hzone⟩
  · have hpos := hs.references_pos hfree
    have hkept : s.attributesOf i ||| attributes ≠ 0 := by
      intro h
      exact hfree (BitVec.or_eq_zero_iff.mp h).1
    by_cases hshare : (s.attributesOf i ||| attributes) &&& sharingFlags ≠ 0
    · have hmove : (PageCall.initPage i attributes).movement (s.attributesOf i) = .share := by
        rw [PageCall.movement, if_neg hfree, if_pos hshare]
      obtain ⟨hrefs, htotal⟩ := hroom (congrArg Movement.gain hmove)
      refine ⟨_, ?_, hs.outcome_reissue (c := .initPage i attributes) hi hfree hmove ⟨hpos, rfl⟩
        (Nat.succ_pos _) hkept⟩
      intro p
      change _ = EStateM.Result.ok () (s.reissue i (s.attributesOf i ||| attributes) .share)
      rw [hfound] at hfree hshare ⊢
      apply MemoryDescriptor.initPage_run_share hp p hi hw hfree hshare
      · rw [← MemoryDescriptor.references_eq hp]
        exact hrefs
      · intro z hz
        obtain ⟨zone, hzone, hmem, -⟩ := hs.zone_at hp hz
        exact ⟨zone, hzone.2, htotal z zone (hs.zone_of_mem hzone hmem) hzone⟩
    · have hmove : (PageCall.initPage i attributes).movement (s.attributesOf i) = .keep := by
        rw [PageCall.movement, if_neg hfree, if_neg hshare]
      refine ⟨_, ?_, hs.outcome_reissue (c := .initPage i attributes) hi hfree hmove rfl hpos hkept⟩
      intro p
      change _ = EStateM.Result.ok () (s.reissue i (s.attributesOf i ||| attributes) .keep)
      rw [hfound] at hfree hshare ⊢
      exact MemoryDescriptor.initPage_run_keep hp p hi hw hfree (not_not.mp hshare)

theorem performs_cleanPage (hz : s.zoneOf i ≠ none)
    (hordinary : s.attributesOf i &&& Flags.kernelInit = 0) :
    ∃ t, (∀ p, (cleanPage p i).run s = .ok () t) ∧ Outcome s (.cleanPage i) t := by
  obtain ⟨z, hz⟩ := Option.ne_none_iff_exists'.mp hz
  have hi := hs.lt_of_zoneOf hz
  obtain ⟨page, hp⟩ := hs.exists_page hi
  have hw := hs.lt_words hi
  have hzone := MemoryDescriptor.zoneOf_eq hp
  have hfound := MemoryDescriptor.attributesOf_eq hp
  have hcount := MemoryDescriptor.references_eq hp
  obtain ⟨zone, hzn, hmem, -, hfreeCount⟩ := hs.zone_at hp (hzone.symm.trans hz)
  by_cases hfree : s.attributesOf i = 0
  · refine ⟨s, ?_, hs.outcome_free hfree⟩
    intro p
    exact MemoryDescriptor.cleanPage_run_free p hp hi (hzone.symm.trans hz) (hfound.symm.trans hfree)
  · have hpos := hs.references_pos hfree
    have htotal : 1 ≤ zone.totalPagesRefCount := hpos.trans_le (hs.references_le_total hzn hmem)
    by_cases hone : s.references i = 1
    · refine ⟨_, ?_, hs.outcome_last (by rw [hz]; exact Option.some_ne_none z) hfree hone⟩
      intro p
      have husing : 1 ≤ zone.pageUsingCount := by
        have hcard : zone.pageUsingCount = {j ∈ zone.range | s.used j = true}.card :=
          congrArg Prod.fst (hs.counts z zone hzn)
        rw [hcard]
        apply Finset.card_pos.mpr
        exact ⟨i, Finset.mem_filter.mpr ⟨hmem, hs.used_of_held hi hfree⟩⟩
      rw [hfound] at hfree hordinary
      exact MemoryDescriptor.cleanPage_run_last p hi hw hp (hzone.symm.trans hz) hfree hordinary
        (hcount.symm.trans hone) hzn.2 husing htotal hfreeCount
    · have hmany : 1 < s.references i := by omega
      have hleft : (PageCall.cleanPage i).attributesAfter (s.attributesOf i) (s.references i) =
          s.attributesOf i := if_neg (by omega)
      refine ⟨_, ?_, hs.outcome_reissue (c := .cleanPage i) hi hfree (if_neg hfree) ?_ ?_ ?_⟩
      · intro p
        change _ = EStateM.Result.ok () (s.reissue i
          ((PageCall.cleanPage i).attributesAfter (s.attributesOf i) (s.references i)) .drop)
        rw [hleft, hfound]
        rw [hfound] at hordinary
        exact MemoryDescriptor.cleanPage_run_drop hp p hi (hs.used_of_held hi hfree)
          (hzone.symm.trans hz) (hfound ▸ hfree) hordinary (hcount ▸ hmany) hzn.2 htotal
      · change s.references i = s.references i - 1 + 1
        omega
      · change 0 < s.references i - 1
        omega
      · change (PageCall.cleanPage i).attributesAfter (s.attributesOf i) (s.references i) ≠ 0
        rw [hleft]
        exact hfree

/-- With room an allowed call completes, alike in either profile. -/
theorem performs (hc : c.Allowed s) (hroom : c.Room s) :
    ∃ t, (∀ p, (c.perform p).run s = .ok () t) ∧ Outcome s c t := by
  cases c with
  | initPage i attributes => exact hs.performs_initPage hc.1 hc.2 hroom
  | cleanPage i => exact hs.performs_cleanPage hc.1 hc.2

/-- Without room the call stops at the checked addition of `dev`. -/
theorem overflows (hc : c.Allowed s) (hroom : ¬ c.Room s) :
    ∃ t, (c.perform .dev).run s = .error .overflow t := by
  obtain ⟨hgain, hfull⟩ := Classical.not_imp.mp hroom
  cases c with
  | cleanPage i =>
    rw [PageCall.gain_cleanPage] at hgain
    cases hgain
  | initPage i attributes =>
    obtain ⟨hi, hattr⟩ := hc
    obtain ⟨page, hp⟩ := hs.exists_page hi
    have hfound := MemoryDescriptor.attributesOf_eq hp
    have hcount := MemoryDescriptor.references_eq hp
    have htotal : s.references i + 1 < 2 ^ 64 →
        ∃ z zone, page.zone = some z ∧ s.HasZone z zone ∧ 2 ^ 64 ≤ zone.totalPagesRefCount + 1 := by
      intro hrefs
      by_contra hnone
      apply hfull
      refine ⟨hrefs, ?_⟩
      intro z zone hz hzone
      by_contra h
      exact hnone ⟨z, zone, (MemoryDescriptor.zoneOf_eq hp).symm.trans hz, hzone, Nat.not_lt.mp h⟩
    by_cases hfree : s.attributesOf i = 0
    · obtain ⟨z, zone, hz, hzone, hover⟩ := htotal (by rw [hs.references_of_free hfree]; norm_num)
      obtain ⟨zone', hzone', hmem, husing, -⟩ := hs.zone_at hp hz
      obtain rfl : zone = zone' := Option.some.inj (hzone.2.symm.trans hzone'.2)
      exact MemoryDescriptor.initPage_run_taken hp hi (hfound.symm.trans hfree) hz hzone.2
        (hs.free_pos_of_attributes hzone hmem hfree) husing hover
    · by_cases hshare : (s.attributesOf i ||| attributes) &&& sharingFlags = 0
      · have hmove : (PageCall.initPage i attributes).movement (s.attributesOf i) = .keep := by
          rw [PageCall.movement, if_neg hfree, if_neg (not_not_intro hshare)]
        have hzero : (0 : ℕ) = 1 := (congrArg Movement.gain hmove).symm.trans hgain
        cases hzero
      · rw [hfound] at hfree hshare
        by_cases hrefs : s.references i + 1 < 2 ^ 64
        · obtain ⟨z, zone, hz, hzone, hover⟩ := htotal hrefs
          rw [hcount] at hrefs
          exact MemoryDescriptor.initPage_run_total hp hi hfree hshare hrefs hz hzone.2 hover
        · rw [hcount, Nat.not_lt] at hrefs
          exact MemoryDescriptor.initPage_run_references hp hi hfree hshare hrefs

end MemoryDescriptor.Consistent

end MikoOS
