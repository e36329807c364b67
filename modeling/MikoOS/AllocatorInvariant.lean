import MikoOS.PhysicalPages

/-!
# The consistency of bitmap, page descriptors and zone counters

`Consistent` is the relation between the three records that `init` establishes and
`check_allocation_state` re-checks: array sizes, the zone of every page, the bit of every page and
the counters of every zone. Marking free pages and clearing exclusively held pages preserve it,
and clearing undoes marking exactly.
-/

namespace MikoOS

def Zone.first (zone : Zone) : ℕ := zone.startAddress / page2MSize
def Zone.last (zone : Zone) : ℕ := zone.endAddress / page2MSize

/-- The page indices of a zone, as `start_address / PAGE_2M_SIZE..end_address / PAGE_2M_SIZE`. -/
def Zone.range (zone : Zone) : Finset ℕ := Finset.Ico zone.first zone.last

namespace MemoryDescriptor

def attributesOf (s : MemoryDescriptor) (i : ℕ) : BitVec 64 :=
  ((s.pages[i]?).map Page.attributes).getD 0

def references (s : MemoryDescriptor) (i : ℕ) : ℕ :=
  ((s.pages[i]?).map Page.referenceCount).getD 0

/-- The using, free and reference totals of a zone counted over its pages. -/
def recount (s : MemoryDescriptor) (zone : Zone) : ℕ × ℕ × ℕ :=
  ({i ∈ zone.range | s.used i = true}.card, {i ∈ zone.range | s.used i = false}.card,
    ∑ i ∈ zone.range, s.references i)

/-- Zone `z` is in use and described by `zone`. -/
def HasZone (s : MemoryDescriptor) (z : ℕ) (zone : Zone) : Prop :=
  z < s.zonesSize ∧ s.zones[z]? = some zone

structure Consistent (s : MemoryDescriptor) : Prop where
  length_bitsMap : s.bitsMap.length = (s.bitsSize + 63) / 64
  length_pages : s.pages.length = s.bitsSize
  length_zones : s.zones.length = maxZones
  zonesSize_le : s.zonesSize ≤ maxZones
  bitsSize_le : s.bitsSize ≤ 2 ^ 43
  zone_aligned : ∀ z zone, s.HasZone z zone → zone.startAddress = zone.first * page2MSize ∧
    zone.endAddress = zone.last * page2MSize ∧ zone.numberPages = zone.last - zone.first
  zone_last : ∀ z zone, s.HasZone z zone → zone.last ≤ s.bitsSize
  zone_pages : ∀ i z, s.zoneOf i = some z ↔ ∃ zone, s.HasZone z zone ∧ i ∈ zone.range
  physical : ∀ i page, s.pages[i]? = some page → page.physicalAddress = i * page2MSize
  used_iff : ∀ i < s.bitsSize, s.used i = true ↔ s.attributesOf i ≠ 0 ∨ s.zoneOf i = none
  held_iff : ∀ i, s.attributesOf i ≠ 0 ↔ 0 < s.references i
  counts : ∀ z zone, s.HasZone z zone →
    (zone.pageUsingCount, zone.pageFreeCount, zone.totalPagesRefCount) = s.recount zone

/-- No page is shared. -/
def Exclusive (s : MemoryDescriptor) : Prop := ∀ i, s.references i ≤ 1

/-- Page `i` is free. -/
def Free (s : MemoryDescriptor) (i : ℕ) : Prop := i < s.bitsSize ∧ s.used i = false

instance (s : MemoryDescriptor) (i : ℕ) : Decidable (s.Free i) :=
  inferInstanceAs (Decidable (_ ∧ _))

variable {s : MemoryDescriptor} {B C : Finset ℕ} {i z : ℕ} {attributes : ℕ → BitVec 64}

theorem attributesOf_eq {page : Page} (h : s.pages[i]? = some page) :
    s.attributesOf i = page.attributes := by rw [attributesOf, h]; rfl

theorem references_eq {page : Page} (h : s.pages[i]? = some page) :
    s.references i = page.referenceCount := by rw [references, h]; rfl

theorem zoneOf_eq {page : Page} (h : s.pages[i]? = some page) : s.zoneOf i = page.zone := by
  rw [zoneOf, h]; rfl

namespace Consistent

variable (hs : s.Consistent)

include hs

theorem exists_page (hi : i < s.bitsSize) : ∃ page, s.pages[i]? = some page :=
  ⟨_, List.getElem?_eq_getElem (by rw [hs.length_pages]; exact hi)⟩

theorem lt_words (hi : i < s.bitsSize) : i / 64 < s.bitsMap.length := by
  rw [hs.length_bitsMap]; omega

theorem lt_bits (hi : i < s.bitsSize) : i < 64 * s.bitsMap.length := by
  rw [hs.length_bitsMap]; omega

theorem lt_of_zoneOf (hz : s.zoneOf i = some z) : i < s.bitsSize := by
  obtain ⟨zone, hzone, hi⟩ := (hs.zone_pages i z).mp hz
  exact (Finset.mem_Ico.mp hi).2.trans_le (hs.zone_last z zone hzone)

theorem free_attributes (hi : s.Free i) : s.attributesOf i = 0 := by
  by_contra h
  have := (hs.used_iff i hi.1).mpr (.inl h)
  rw [hi.2] at this
  cases this

theorem free_references (hi : s.Free i) : s.references i = 0 := by
  by_contra h
  exact (hs.held_iff i).mpr (Nat.pos_of_ne_zero h) (hs.free_attributes hi)

theorem free_zone (hi : s.Free i) : ∃ z zone, s.zoneOf i = some z ∧ s.HasZone z zone ∧
    i ∈ zone.range := by
  cases hz : s.zoneOf i with
  | none =>
    have := (hs.used_iff i hi.1).mpr (.inr hz)
    rw [hi.2] at this
    cases this
  | some z =>
    obtain ⟨zone, hzone, hmem⟩ := (hs.zone_pages i z).mp hz
    exact ⟨z, zone, rfl, hzone, hmem⟩

theorem zone_of_mem {zone : Zone} (hzone : s.HasZone z zone) (hi : i ∈ zone.range) :
    s.zoneOf i = some z := (hs.zone_pages i z).mpr ⟨zone, hzone, hi⟩

/-- A share of `B` is the part of `B` inside the zone's range. -/
theorem share_eq {zone : Zone} (hzone : s.HasZone z zone) (B : Finset ℕ) :
    s.share B z = {i ∈ zone.range | i ∈ B}.card := by
  rw [share]
  congr 1
  ext i
  simp only [Finset.mem_filter]
  constructor
  · rintro ⟨hB, hz⟩
    obtain ⟨zone', hzone', hmem⟩ := (hs.zone_pages i z).mp hz
    obtain rfl : zone = zone' := Option.some.inj (hzone.2.symm.trans hzone'.2)
    exact ⟨hmem, hB⟩
  · rintro ⟨hmem, hB⟩
    exact ⟨hB, hs.zone_of_mem hzone hmem⟩

theorem card_range_le {zone : Zone} (hzone : s.HasZone z zone) : zone.range.card ≤ 2 ^ 43 := by
  rw [Zone.range, Nat.card_Ico]
  exact (Nat.sub_le _ _).trans ((hs.zone_last z zone hzone).trans hs.bitsSize_le)

theorem using_le {zone : Zone} (hzone : s.HasZone z zone) : zone.pageUsingCount ≤ 2 ^ 43 := by
  have h := congrArg Prod.fst (hs.counts z zone hzone)
  exact h.trans_le ((Finset.card_filter_le _ _).trans (hs.card_range_le hzone))

theorem free_le {zone : Zone} (hzone : s.HasZone z zone) : zone.pageFreeCount ≤ 2 ^ 43 := by
  have h := congrArg (·.2.1) (hs.counts z zone hzone)
  exact h.trans_le ((Finset.card_filter_le _ _).trans (hs.card_range_le hzone))

theorem refs_le (hx : s.Exclusive) {zone : Zone} (hzone : s.HasZone z zone) :
    zone.totalPagesRefCount ≤ 2 ^ 43 := by
  have h := congrArg (·.2.2) (hs.counts z zone hzone)
  refine h.trans_le (le_trans ?_ (hs.card_range_le hzone))
  calc ∑ i ∈ zone.range, s.references i ≤ ∑ _i ∈ zone.range, 1 := Finset.sum_le_sum fun i _ => hx i
    _ = zone.range.card := by simp

theorem free_pos {zone : Zone} (hzone : s.HasZone z zone) (hi : i ∈ zone.range)
    (hfree : s.used i = false) : 0 < zone.pageFreeCount := by
  have h : zone.pageFreeCount = {i ∈ zone.range | s.used i = false}.card :=
    congrArg (·.2.1) (hs.counts z zone hzone)
  rw [h]
  exact Finset.card_pos.mpr ⟨i, Finset.mem_filter.mpr ⟨hi, hfree⟩⟩

end Consistent

/-- `t` differs from `s` over a zone by one more reference on each page of `B`, free in `s`. -/
structure Takes (s t : MemoryDescriptor) (B : Finset ℕ) (zone : Zone) : Prop where
  inside : ∀ i ∈ zone.range, i ∈ B → s.used i = false ∧ t.used i = true ∧
    t.references i = s.references i + 1
  outside : ∀ i ∈ zone.range, i ∉ B → t.used i = s.used i ∧ t.references i = s.references i

theorem Takes.recount {t : MemoryDescriptor} {zone : Zone} (h : Takes s t B zone) :
    (t.recount zone).1 = (s.recount zone).1 + {i ∈ zone.range | i ∈ B}.card ∧
      (s.recount zone).2.1 = (t.recount zone).2.1 + {i ∈ zone.range | i ∈ B}.card ∧
      (t.recount zone).2.2 = (s.recount zone).2.2 + {i ∈ zone.range | i ∈ B}.card := by
  simp only [MemoryDescriptor.recount, Finset.card_filter, ← Finset.sum_add_distrib]
  refine ⟨Finset.sum_congr rfl ?_, Finset.sum_congr rfl ?_, Finset.sum_congr rfl ?_⟩ <;>
    intro i hi <;> by_cases hB : i ∈ B
  · simp [h.inside i hi hB, hB]
  · simp [h.outside i hi hB, hB]
  · simp [h.inside i hi hB, hB]
  · simp [h.outside i hi hB, hB]
  · simp [h.inside i hi hB, hB]
  · simp [h.outside i hi hB, hB]

theorem hasZone_overlay {u : Bool} {page : ℕ → Page → Page} {f : ℕ → Zone → Zone} {zone' : Zone} :
    (s.overlay B u page f).HasZone z zone' ↔
      ∃ zone, s.HasZone z zone ∧ zone' = f (s.share B z) zone := by
  rw [HasZone, getElem?_zones_overlay, Option.map_eq_some_iff]
  constructor
  · rintro ⟨hz, zone, hzone, rfl⟩
    exact ⟨zone, ⟨hz, hzone⟩, rfl⟩
  · rintro ⟨zone, hzone, rfl⟩
    exact ⟨hzone.1, zone, hzone.2, rfl⟩

theorem attributesOf_mark (hB : ∀ i ∈ B, i < s.pages.length) (i : ℕ) :
    (s.mark attributes B).attributesOf i = if i ∈ B then attributes i else s.attributesOf i := by
  rw [attributesOf, attributesOf, mark, getElem?_pages_overlay, Option.map_map]
  by_cases hi : i ∈ B
  · rw [List.getElem?_eq_getElem (hB i hi)]
    simp [hi, Page.take]
  · cases s.pages[i]? <;> simp [hi]

theorem references_mark (hB : ∀ i ∈ B, i < s.pages.length) (i : ℕ) :
    (s.mark attributes B).references i = if i ∈ B then 1 else s.references i := by
  rw [references, references, mark, getElem?_pages_overlay, Option.map_map]
  by_cases hi : i ∈ B
  · rw [List.getElem?_eq_getElem (hB i hi)]
    simp [hi, Page.take]
  · cases s.pages[i]? <;> simp [hi]

theorem attributesOf_clear (i : ℕ) :
    (s.clear B).attributesOf i = if i ∈ B then 0 else s.attributesOf i := by
  rw [attributesOf, attributesOf, clear, getElem?_pages_overlay, Option.map_map]
  cases s.pages[i]? <;> by_cases hi : i ∈ B <;> simp [hi, Page.give]

theorem references_clear (i : ℕ) :
    (s.clear B).references i = if i ∈ B then 0 else s.references i := by
  rw [references, references, clear, getElem?_pages_overlay, Option.map_map]
  cases s.pages[i]? <;> by_cases hi : i ∈ B <;> simp [hi, Page.give]

namespace Consistent

variable (hs : s.Consistent)

include hs

theorem used_mark (hi : i < s.bitsSize) :
    (s.mark attributes B).used i = if i ∈ B then true else s.used i :=
  used_overlay (hs.lt_bits hi)

theorem used_clear (hi : i < s.bitsSize) :
    (s.clear B).used i = if i ∈ B then false else s.used i :=
  used_overlay (hs.lt_bits hi)

/-- An overlay that leaves the layout alone is consistent once its bits, references and counters
are. -/
theorem overlay {u : Bool} {page : ℕ → Page → Page} {f : ℕ → Zone → Zone}
    (hpage : ∀ i pg, (page i pg).zone = pg.zone ∧ (page i pg).physicalAddress = pg.physicalAddress)
    (hzone : ∀ n zone, (f n zone).startAddress = zone.startAddress ∧
      (f n zone).endAddress = zone.endAddress ∧ (f n zone).numberPages = zone.numberPages)
    (hused : ∀ i < s.bitsSize, (s.overlay B u page f).used i = true ↔
      (s.overlay B u page f).attributesOf i ≠ 0 ∨ s.zoneOf i = none)
    (hheld : ∀ i, (s.overlay B u page f).attributesOf i ≠ 0 ↔
      0 < (s.overlay B u page f).references i)
    (hcounts : ∀ z zone, s.HasZone z zone →
      ((f (s.share B z) zone).pageUsingCount, (f (s.share B z) zone).pageFreeCount,
        (f (s.share B z) zone).totalPagesRefCount) = (s.overlay B u page f).recount zone) :
    (s.overlay B u page f).Consistent := by
  have hzoneOf : ∀ i, (s.overlay B u page f).zoneOf i = s.zoneOf i :=
    zoneOf_overlay fun i pg => (hpage i pg).1
  have hfirst : ∀ n zone, (f n zone).first = zone.first := fun n zone => by
    rw [Zone.first, Zone.first, (hzone n zone).1]
  have hlast : ∀ n zone, (f n zone).last = zone.last := fun n zone => by
    rw [Zone.last, Zone.last, (hzone n zone).2.1]
  have hrange : ∀ n zone, (f n zone).range = zone.range := fun n zone => by
    rw [Zone.range, Zone.range, hfirst, hlast]
  exact {
    length_bitsMap := (WordBits.length_assign _ _ _).trans hs.length_bitsMap
    length_pages := List.length_mapIdx.trans hs.length_pages
    length_zones := List.length_mapIdx.trans hs.length_zones
    zonesSize_le := hs.zonesSize_le
    bitsSize_le := hs.bitsSize_le
    zone_aligned := fun z zone' h => by
      obtain ⟨zone, hz, rfl⟩ := hasZone_overlay.mp h
      obtain ⟨hstart, hend, hnumber⟩ := hzone (s.share B z) zone
      rw [hstart, hend, hnumber, hfirst, hlast]
      exact hs.zone_aligned z zone hz
    zone_last := fun z zone' h => by
      obtain ⟨zone, hz, rfl⟩ := hasZone_overlay.mp h
      rw [hlast]
      exact hs.zone_last z zone hz
    zone_pages := fun i z => by
      rw [hzoneOf, hs.zone_pages]
      constructor
      · rintro ⟨zone, hz, hi⟩
        exact ⟨_, hasZone_overlay.mpr ⟨zone, hz, rfl⟩, by rwa [hrange]⟩
      · rintro ⟨zone', hz', hi⟩
        obtain ⟨zone, hz, rfl⟩ := hasZone_overlay.mp hz'
        exact ⟨zone, hz, by rwa [hrange] at hi⟩
    physical := fun i pg h => by
      rw [getElem?_pages_overlay, Option.map_eq_some_iff] at h
      obtain ⟨pg, hpg, rfl⟩ := h
      have := hs.physical i pg hpg
      split
      · rw [(hpage i pg).2, this]
      · exact this
    used_iff := fun i hi => by rw [hzoneOf]; exact hused i hi
    held_iff := hheld
    counts := fun z zone' h => by
      obtain ⟨zone, hz, rfl⟩ := hasZone_overlay.mp h
      rw [hcounts z zone hz, recount, recount, hrange] }

/-- Marking unclaimed pages, whether free or outside every zone, keeps the records consistent. -/
theorem mark (hB : ∀ i ∈ B, i < s.bitsSize ∧ s.attributesOf i = 0)
    (hattr : ∀ i ∈ B, attributes i ≠ 0) : (s.mark attributes B).Consistent := by
  have hBp : ∀ i ∈ B, i < s.pages.length := fun i hi => by rw [hs.length_pages]; exact (hB i hi).1
  have hrefs : ∀ i ∈ B, s.references i = 0 := fun i hi => by
    by_contra h
    exact (hs.held_iff i).mpr (Nat.pos_of_ne_zero h) (hB i hi).2
  refine hs.overlay (fun _ _ => ⟨rfl, rfl⟩) (fun _ _ => ⟨rfl, rfl, rfl⟩) (fun i hi => ?_)
    (fun i => ?_) fun z zone hzone => ?_
  · change (s.mark attributes B).used i = true ↔ (s.mark attributes B).attributesOf i ≠ 0 ∨ _
    rw [hs.used_mark hi, attributesOf_mark hBp]
    by_cases hiB : i ∈ B
    · simpa [hiB] using Or.inl (hattr i hiB)
    · simpa [hiB] using hs.used_iff i hi
  · change (s.mark attributes B).attributesOf i ≠ 0 ↔ 0 < (s.mark attributes B).references i
    rw [attributesOf_mark hBp, references_mark hBp]
    by_cases hiB : i ∈ B
    · simpa [hiB] using hattr i hiB
    · simpa [hiB] using hs.held_iff i
  · have htakes : Takes s (s.mark attributes B) B zone := by
      refine ⟨fun i hi hiB => ?_, fun i hi hiB => ?_⟩
      · have hlt := (hB i hiB).1
        have hunused : s.used i = false := by
          rw [Bool.eq_false_iff]
          intro hu
          rcases (hs.used_iff i hlt).mp hu with h | h
          · exact h (hB i hiB).2
          · rw [hs.zone_of_mem hzone hi] at h
            cases h
        exact ⟨hunused, by rw [hs.used_mark hlt, if_pos hiB],
          by rw [references_mark hBp, if_pos hiB, hrefs i hiB]⟩
      · have hlt := hs.lt_of_zoneOf (hs.zone_of_mem hzone hi)
        exact ⟨by rw [hs.used_mark hlt, if_neg hiB], by rw [references_mark hBp, if_neg hiB]⟩
    obtain ⟨h1, h2, h3⟩ := htakes.recount
    have hcounts := hs.counts z zone hzone
    simp only [Prod.ext_iff] at hcounts ⊢
    obtain ⟨c1, c2, c3⟩ := hcounts
    rw [hs.share_eq hzone]
    change zone.pageUsingCount + _ = ((s.mark attributes B).recount zone).1 ∧
      zone.pageFreeCount - _ = ((s.mark attributes B).recount zone).2.1 ∧
      zone.totalPagesRefCount + _ = ((s.mark attributes B).recount zone).2.2
    omega

/-- Clearing pages with a single reference in some zone keeps the records consistent. -/
theorem clear (hB : ∀ i ∈ B, s.zoneOf i ≠ none ∧ s.references i = 1) : (s.clear B).Consistent := by
  refine hs.overlay (fun _ _ => ⟨rfl, rfl⟩) (fun _ _ => ⟨rfl, rfl, rfl⟩) (fun i hi => ?_)
    (fun i => ?_) fun z zone hzone => ?_
  · change (s.clear B).used i = true ↔ (s.clear B).attributesOf i ≠ 0 ∨ _
    rw [hs.used_clear hi, attributesOf_clear]
    by_cases hiB : i ∈ B
    · simpa [hiB] using (hB i hiB).1
    · simpa [hiB] using hs.used_iff i hi
  · change (s.clear B).attributesOf i ≠ 0 ↔ 0 < (s.clear B).references i
    rw [attributesOf_clear, references_clear]
    by_cases hiB : i ∈ B
    · simp [hiB]
    · simpa [hiB] using hs.held_iff i
  · have htakes : Takes (s.clear B) s B zone := by
      refine ⟨fun i hi hiB => ?_, fun i hi hiB => ?_⟩
      · have hlt := hs.lt_of_zoneOf (hs.zone_of_mem hzone hi)
        have hheld : s.attributesOf i ≠ 0 :=
          (hs.held_iff i).mpr (by rw [(hB i hiB).2]; exact Nat.one_pos)
        exact ⟨by rw [hs.used_clear hlt, if_pos hiB], (hs.used_iff i hlt).mpr (.inl hheld),
          by rw [references_clear, if_pos hiB, (hB i hiB).2]⟩
      · have hlt := hs.lt_of_zoneOf (hs.zone_of_mem hzone hi)
        exact ⟨by rw [hs.used_clear hlt, if_neg hiB], by rw [references_clear, if_neg hiB]⟩
    obtain ⟨h1, h2, h3⟩ := htakes.recount
    have hcounts := hs.counts z zone hzone
    simp only [Prod.ext_iff] at hcounts ⊢
    obtain ⟨c1, c2, c3⟩ := hcounts
    rw [hs.share_eq hzone]
    change zone.pageUsingCount - _ = ((s.clear B).recount zone).1 ∧
      zone.pageFreeCount + _ = ((s.clear B).recount zone).2.1 ∧
      zone.totalPagesRefCount - _ = ((s.clear B).recount zone).2.2
    omega

theorem share_of_not_lt (hz : ¬ z < s.zonesSize) (B : Finset ℕ) : s.share B z = 0 := by
  have hempty : {i ∈ B | s.zoneOf i = some z} = (∅ : Finset ℕ) := by
    refine Finset.filter_eq_empty_iff.mpr fun i _ hi => ?_
    obtain ⟨_, hzone, _⟩ := (hs.zone_pages i z).mp hi
    exact hz hzone.1
  rw [share, hempty, Finset.card_empty]

theorem share_le_free (hB : ∀ i ∈ B, s.Free i) {zone : Zone} (hzone : s.zones[z]? = some zone) :
    s.share B z ≤ zone.pageFreeCount := by
  by_cases hz : z < s.zonesSize
  · have hcount : zone.pageFreeCount = {i ∈ zone.range | s.used i = false}.card :=
      congrArg (·.2.1) (hs.counts z zone ⟨hz, hzone⟩)
    rw [hs.share_eq ⟨hz, hzone⟩, hcount]
    refine Finset.card_le_card fun i hi => ?_
    obtain ⟨hrange, hiB⟩ := Finset.mem_filter.mp hi
    exact Finset.mem_filter.mpr ⟨hrange, (hB i hiB).2⟩
  · rw [hs.share_of_not_lt hz]
    exact Nat.zero_le _

/-- Clearing part of what was marked leaves exactly the rest marked. -/
theorem clear_mark (hB : ∀ i ∈ B, s.Free i) (hC : C ⊆ B) :
    (s.mark attributes B).clear C = s.mark attributes (B \ C) := by
  have hb : WordBits.assign (WordBits.assign s.bitsMap B true) C false =
      WordBits.assign s.bitsMap (B \ C) true := by
    refine WordBits.ext (by simp) fun i hi => ?_
    simp only [WordBits.length_assign] at hi
    rw [WordBits.testBit_assign _ _ (by simpa using hi), WordBits.testBit_assign _ _ hi,
      WordBits.testBit_assign _ _ hi]
    by_cases hiC : i ∈ C
    · have hfree : WordBits.testBit s.bitsMap i = false := (hB i (hC hiC)).2
      simp [hiC, hfree]
    · simp [hiC]
  refine records_ext hb (List.ext_getElem? fun i => ?_) (List.ext_getElem? fun z => ?_)
  · rw [List.getElem?_mapIdx, List.getElem?_mapIdx, MemoryDescriptor.mark, getElem?_pages_overlay,
      Option.map_map]
    cases hpg : s.pages[i]? with
    | none => rfl
    | some pg =>
      rw [Option.map_some, Option.map_some]
      by_cases hiC : i ∈ C
      · have hattr := (attributesOf_eq hpg).symm.trans (hs.free_attributes (hB i (hC hiC)))
        have href := (references_eq hpg).symm.trans (hs.free_references (hB i (hC hiC)))
        have hpage : (Page.take (attributes i) pg).give = pg := by
          rw [Page.take, Page.give, ← hattr, ← href]
        simp [hiC, hC hiC, hpage]
      · simp [hiC]
  · rw [List.getElem?_mapIdx, List.getElem?_mapIdx, share_congr zoneOf_mark, MemoryDescriptor.mark,
      getElem?_zones_overlay, Option.map_map]
    cases hzone : s.zones[z]? with
    | none => rfl
    | some zone =>
      have hsplit := share_sdiff (s := s) hC z
      have hle := hs.share_le_free hB hzone
      simp only [Option.map_some, Function.comp_apply, Zone.take, Zone.give]
      congr 2 <;> omega

end Consistent

end MemoryDescriptor

end MikoOS
