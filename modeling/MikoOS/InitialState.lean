import MikoOS.MemorySurvey

/-!
# The state `memory::init` leaves

On an accepted map `init` either stops at one of its layout rejections or leaves consistent records
whose free pages are the whole pages of one entry of ordinary RAM beyond the metadata. `Built` is
the invariant of the zone-building loop: the zones are the page spans of the entries so far, and a
page is free exactly when it has a zone.
-/

namespace MikoOS

open ByteMemory Intervals Rust

namespace MemoryDescriptor

variable {s t base : MemoryDescriptor} {B C : Finset ℕ} {i j z : ℕ} {spans : List (ℕ × ℕ)}

theorem mapIdx_self {α : Type} (xs : List α) : (xs.mapIdx fun _ a => a) = xs :=
  List.ext_getElem? fun i => by simp [List.getElem?_mapIdx]

/-- The descriptor of a page without owner. -/
def unclaimed (i : ℕ) : Page := { Page.zero with physicalAddress := i * page2MSize }

/-- `t` is `base` up to the three records. -/
def SameLayout (base t : MemoryDescriptor) : Prop :=
  t = { base with bitsMap := t.bitsMap, pages := t.pages, zones := t.zones, zonesSize := t.zonesSize }

theorem physicalAddresses_run (p : Profile) (hsize : s.bitsSize ≤ 2 ^ 43)
    (hpages : s.pages = List.replicate s.bitsSize Page.zero) :
    Satisfies ((forRange 0 s.bitsSize () fun i _ => setPhysicalAddress p i).run s)
      (fun _ t => t = { s with pages := (List.range s.bitsSize).map unclaimed })
      fun _ _ => False := by
  have hlen : s.pages.length = s.bitsSize := by rw [hpages, List.length_replicate]
  refine (forRange_satisfies (fun i _ t => t = { s with
      pages := s.pages.mapIdx fun j page => if j < i then unclaimed j else page })
    (Nat.zero_le _) ?_ ?_).mono ?_ fun _ _ h => h
  · rintro i - t - hi rfl
    have hpage : (s.pages.mapIdx fun j page => if j < i then unclaimed j else page)[i]? =
        some Page.zero := by
      rw [List.getElem?_mapIdx, hpages, List.getElem?_replicate, if_pos hi]
      simp
    have hmul : i * page2MSize < 2 ^ 64 := by
      rw [page2MSize]
      omega
    rw [setPhysicalAddress, run_get_bind, run_bind_ok (run_element hpage _),
      run_bind_ok (run_mul p hmul _), setPage, EStateM.run_modify, satisfies_ok]
    congr 1
    refine List.ext_getElem? fun j => ?_
    rw [List.getElem?_set, List.length_mapIdx, hlen, List.getElem?_mapIdx, List.getElem?_mapIdx,
      hpages, List.getElem?_replicate]
    rcases lt_trichotomy i j with h | rfl | h
    · simp [show ¬ i = j by omega, show ¬ j < i by omega, show ¬ j < i + 1 by omega]
    · simp [hi, unclaimed]
    · simp [show ¬ i = j by omega, h, show j < i + 1 by omega]
  · simp [mapIdx_self]
  · rintro _ t rfl
    congr 1
    refine List.ext_getElem? fun j => ?_
    rw [List.getElem?_mapIdx, hpages, List.getElem?_replicate, List.getElem?_map]
    by_cases hj : j < s.bitsSize
    · simp [hj]
    · simp [hj]

/-- The pages of `B` become free pages of zone `z`. -/
def claim (s : MemoryDescriptor) (z : ℕ) (B : Finset ℕ) : MemoryDescriptor :=
  s.overlay B false (fun _ page => { page with zone := some z }) fun _ zone => zone

theorem claim_empty : s.claim z ∅ = s := overlay_empty fun _ => rfl

theorem claim_claim (h : Disjoint B C) : (s.claim z B).claim z C = s.claim z (B ∪ C) :=
  overlay_overlay (fun _ _ => rfl) (fun _ _ _ => rfl) h

theorem claimPage_run {page : Page} (hj : j < s.bitsSize) (hw : j / 64 < s.bitsMap.length)
    (hp : s.pages[j]? = some page) (hz : page.zone = none) :
    (claimPage z j).run s = .ok () (s.claim z {j}) := by
  have hpages := set_pages_eq (f := fun _ page => { page with zone := some z }) hp
  have hnone : page.zone.isNone = true := by rw [hz]; rfl
  rw [claimPage, run_get_bind, run_bind_ok (run_element hp s),
    run_bind_ok (run_require hnone _ s), setPage, run_modify_bind, setUsed_run ?_ ?_]
  · exact congrArg (EStateM.Result.ok ()) (records_ext rfl hpages (mapIdx_self _).symm)
  · exact hj
  · exact hw

theorem claimRange_run {first last : ℕ} (hle : first ≤ last) (hlast : last ≤ s.bitsSize)
    (hwords : s.bitsMap.length = (s.bitsSize + 63) / 64)
    (hfree : ∀ j, first ≤ j → j < last → ∃ page, s.pages[j]? = some page ∧ page.zone = none) :
    Satisfies ((forRange first last () fun j _ => claimPage z j).run s)
      (fun _ t => t = s.claim z (Finset.Ico first last)) fun _ _ => False := by
  refine forRange_satisfies (fun j _ t => t = s.claim z (Finset.Ico first j)) hle ?_ ?_
  · rintro j - t hj hlt rfl
    obtain ⟨page, hpage, hz⟩ := hfree j hj hlt
    have hclaimed : (s.claim z (Finset.Ico first j)).pages[j]? = some page := by
      rw [claim, getElem?_pages_overlay, hpage]
      simp
    rw [claimPage_run ?_ ?_ hclaimed hz, satisfies_ok, claim_claim (by simp),
      ← Finset.Ico_union_Ico_eq_Ico hj (Nat.le_succ j)]
    · congr
      simp
    · exact hlt.trans_le hlast
    · rw [claim, overlay, WordBits.length_assign, hwords]
      omega
  · rw [Finset.Ico_self, claim_empty]

/-- The zone of page `i`, the spans being numbered in order. -/
def owner (spans : List (ℕ × ℕ)) (i : ℕ) : Option ℕ :=
  spans.findIdx? fun span => span.1 ≤ i ∧ i < span.2

def zoneOfSpan (span : ℕ × ℕ) : Zone :=
  Zone.spanning span.1 (span.1 * page2MSize) (span.2 * page2MSize) (span.2 - span.1)

/-- Disjoint non-empty spans of pages below `bound`. -/
structure Spans (bound : ℕ) (spans : List (ℕ × ℕ)) : Prop where
  inside : ∀ span ∈ spans, span.1 < span.2 ∧ span.2 ≤ bound
  disjoint : spans.Pairwise fun a b => Disjoint (Finset.Ico a.1 a.2) (Finset.Ico b.1 b.2)

/-- `t` is `base` with one zone for each span, all of its pages free. -/
structure Built (base : MemoryDescriptor) (spans : List (ℕ × ℕ)) (t : MemoryDescriptor) : Prop where
  layout : base.SameLayout t
  valid : Spans base.bitsSize spans
  length_bitsMap : t.bitsMap.length = (base.bitsSize + 63) / 64
  length_pages : t.pages.length = base.bitsSize
  length_zones : t.zones.length = maxZones
  zonesSize : t.zonesSize = spans.length
  zone : ∀ (z : ℕ) (span : ℕ × ℕ), spans[z]? = some span → t.zones[z]? = some (zoneOfSpan span)
  page : ∀ i < base.bitsSize, t.pages[i]? = some { unclaimed i with zone := owner spans i }
  used : ∀ i < base.bitsSize, t.used i = (owner spans i).isNone

theorem owner_append (spans : List (ℕ × ℕ)) (span : ℕ × ℕ) (i : ℕ) :
    owner (spans ++ [span]) i = (owner spans i).or
      (if span.1 ≤ i ∧ i < span.2 then some spans.length else none) := by
  rw [owner, owner, List.findIdx?_append]
  congr 1
  by_cases h : span.1 ≤ i ∧ i < span.2 <;> simp [h]

theorem owner_eq_none {bound : ℕ} {span : ℕ × ℕ} (h : Spans bound (spans ++ [span]))
    (h1 : span.1 ≤ i) (h2 : i < span.2) : owner spans i = none := by
  rw [owner, List.findIdx?_eq_none_iff]
  intro other hother
  have hcross := (List.pairwise_append.mp h.disjoint).2.2 other hother span (by simp)
  rw [decide_eq_false_iff_not]
  exact fun hi => Finset.disjoint_left.mp hcross (Finset.mem_Ico.mpr hi) (Finset.mem_Ico.mpr ⟨h1, h2⟩)

theorem owner_eq_some {bound : ℕ} (h : Spans bound spans) :
    owner spans i = some z ↔ ∃ span, spans[z]? = some span ∧ i ∈ Finset.Ico span.1 span.2 := by
  rw [owner, List.findIdx?_eq_some_iff_getElem]
  constructor
  · rintro ⟨hz, hi, -⟩
    exact ⟨spans[z], List.getElem?_eq_getElem hz, Finset.mem_Ico.mpr (of_decide_eq_true hi)⟩
  · rintro ⟨span, hspan, hi⟩
    obtain ⟨hz, rfl⟩ := List.getElem?_eq_some_iff.mp hspan
    refine ⟨hz, decide_eq_true (Finset.mem_Ico.mp hi), fun y hy => ?_⟩
    rw [Bool.not_eq_true, decide_eq_false_iff_not]
    intro hiy
    have hpair := List.pairwise_iff_getElem.mp h.disjoint y z (by omega) hz hy
    exact Finset.disjoint_left.mp hpair (Finset.mem_Ico.mpr hiy) hi

/-- The descriptor once `buildZone` has written zone `spans.length`, before its pages. -/
def pushZone (t : MemoryDescriptor) (span : ℕ × ℕ) : MemoryDescriptor :=
  { t with zonesSize := t.zonesSize + 1, zones := t.zones.set t.zonesSize (zoneOfSpan span) }

theorem Built.push {span : ℕ × ℕ} (h : Built base spans t) (hroom : spans.length < maxZones)
    (hvalid : Spans base.bitsSize (spans ++ [span])) :
    Built base (spans ++ [span])
      ((t.pushZone span).claim spans.length (Finset.Ico span.1 span.2)) := by
  refine {
    layout := ?_
    valid := hvalid
    length_bitsMap := (WordBits.length_assign _ _ _).trans h.length_bitsMap
    length_pages := List.length_mapIdx.trans h.length_pages
    length_zones := List.length_mapIdx.trans ((List.length_set).trans h.length_zones)
    zonesSize := ?_
    zone := fun z other hother => ?_
    page := fun i hi => ?_
    used := fun i hi => ?_ }
  · have hlayout := h.layout
    rw [SameLayout] at hlayout ⊢
    rw [hlayout]
    rfl
  · change t.zonesSize + 1 = _
    rw [h.zonesSize, List.length_append, List.length_singleton]
  · rw [claim, getElem?_zones_overlay, Option.map_id']
    change (t.zones.set t.zonesSize _)[z]? = _
    rw [h.zonesSize, List.getElem?_set]
    rcases Nat.lt_or_ge z spans.length with hz | hz
    · rw [List.getElem?_append_left hz] at hother
      rw [if_neg (by omega), h.zone z other hother]
    · rw [List.getElem?_append_right hz, List.getElem?_singleton] at hother
      split at hother
      · obtain rfl : z = spans.length := by omega
        rw [if_pos rfl, if_pos (by rw [h.length_zones]; exact hroom), Option.some.inj hother]
      · cases hother
  · rw [claim, getElem?_pages_overlay]
    change (t.pages[i]?).map _ = _
    rw [h.page i hi, Option.map_some, owner_append]
    by_cases hmem : span.1 ≤ i ∧ i < span.2
    · rw [if_pos (Finset.mem_Ico.mpr hmem), if_pos hmem, owner_eq_none hvalid hmem.1 hmem.2]
      rfl
    · rw [if_neg (by rwa [Finset.mem_Ico]), if_neg hmem, Option.or_none]
  · rw [claim, used_overlay (by change i < 64 * t.bitsMap.length; rw [h.length_bitsMap]; omega)]
    change (if _ then _ else t.used i) = _
    rw [h.used i hi, owner_append]
    by_cases hmem : span.1 ≤ i ∧ i < span.2
    · rw [if_pos (Finset.mem_Ico.mpr hmem), if_pos hmem]
      cases owner spans i <;> rfl
    · rw [if_neg (by rwa [Finset.mem_Ico]), if_neg hmem, Option.or_none]

theorem buildZone_run (p : Profile) {e : E820Entry} (he : base.e820.toList[i]? = some e)
    (hstop : e.stop < 2 ^ 64) (haligned : e.Ram → e.address.toNat + (page2MSize - 1) < 2 ^ 64)
    (hsize : base.bitsSize ≤ 2 ^ 43) (hroom : spans.length < maxZones)
    (hvalid : Spans base.bitsSize (spans ++ e.span.toList)) (h : Built base spans t) :
    Satisfies ((buildZone p i).run t) (fun _ t' => Built base (spans ++ e.span.toList) t')
      fun _ _ => False := by
  have he' : t.e820.toList[i]? = some e := by rwa [h.layout]
  rw [buildZone, run_get_bind, run_bind_ok (run_element he' t)]
  refine ((usableRange_run hstop t).mono (fun _ _ h => h) ?_).bind ?_
  · rintro _ _ ⟨hram, hle, -⟩
    exact absurd (haligned hram) (Nat.not_lt_of_le hle)
  rintro _ t ⟨rfl, rfl⟩
  cases hspan : e.span with
  | none =>
    simp only [Option.map_none, Option.toList_none, List.append_nil, EStateM.run_pure, satisfies_ok]
    exact h
  | some span =>
    rw [hspan, Option.toList_some] at hvalid
    obtain ⟨hlt, hle⟩ := hvalid.inside span (by simp)
    have hpos : 0 < page2MSize := by decide
    have hz : t.zonesSize < maxZones := by rwa [h.zonesSize]
    have hz' : t.zonesSize + 1 < 2 ^ 64 := Nat.lt_of_le_of_lt hz (by decide)
    have hsub : span.1 * page2MSize ≤ span.2 * page2MSize := Nat.mul_le_mul_right _ hlt.le
    have hfirst : span.1 * page2MSize / page2MSize = span.1 := Nat.mul_div_cancel _ hpos
    have hnumber : (span.2 * page2MSize - span.1 * page2MSize) / page2MSize = span.2 - span.1 := by
      rw [← Nat.sub_mul, Nat.mul_div_cancel _ hpos]
    have hsum : span.1 + (span.2 - span.1) = span.2 := by omega
    have hadd : span.1 + (span.2 - span.1) < 2 ^ 64 := by omega
    obtain ⟨zone, hzone⟩ : ∃ zone, t.zones[t.zonesSize]? = some zone :=
      ⟨_, List.getElem?_eq_getElem (by rwa [h.length_zones])⟩
    have hwrite : (updateZone t.zonesSize fun _ => pure (Zone.spanning span.1 (span.1 * page2MSize)
        (span.2 * page2MSize) (span.2 - span.1))).run { t with zonesSize := t.zonesSize + 1 } =
        .ok () (t.pushZone span) := updateZone_run zone (zoneOfSpan span) hzone rfl
    simp only [Option.map_some, Option.toList_some]
    rw [run_get_bind, run_bind_ok (run_require (decide_eq_true hz) _ t),
      run_bind_ok (run_add p hz' t), run_modify_bind, run_bind_ok (run_sub p hsub _), hnumber,
      hfirst, run_bind_ok hwrite, run_bind_ok (run_add p hadd _), hsum]
    have hpush := h.push hroom hvalid
    have hwords := h.length_bitsMap
    have hbits : t.bitsSize = base.bitsSize := by rw [h.layout]
    rw [h.zonesSize]
    refine (claimRange_run (s := t.pushZone span) hlt.le ?_ ?_ fun j h1 h2 => ?_).mono ?_ ?_
    · exact hle.trans_eq hbits.symm
    · exact hwords.trans (by rw [← hbits]; rfl)
    · have hj := h.page j (h2.trans_le hle)
      exact ⟨_, hj, owner_eq_none hvalid h1 h2⟩
    · rintro _ _ rfl
      exact hpush
    · exact fun _ _ h => h

namespace Built

variable (h : Built base spans t)

include h

theorem bitsSize_eq : t.bitsSize = base.bitsSize := by rw [h.layout]

theorem zoneOf_owner (i : ℕ) : t.zoneOf i = owner spans i := by
  by_cases hi : i < base.bitsSize
  · rw [zoneOf_eq (h.page i hi)]
  · have hnone : t.pages[i]? = none :=
      List.getElem?_eq_none (by rw [h.length_pages]; exact Nat.le_of_not_lt hi)
    rw [zoneOf, hnone, Option.bind_none]
    symm
    rw [owner, List.findIdx?_eq_none_iff]
    intro span hspan
    have := (h.valid.inside span hspan).2
    rw [decide_eq_false_iff_not]
    omega

theorem attributesOf_zero (i : ℕ) : t.attributesOf i = 0 := by
  by_cases hi : i < base.bitsSize
  · rw [attributesOf_eq (h.page i hi)]
    rfl
  · have hnone : t.pages[i]? = none :=
      List.getElem?_eq_none (by rw [h.length_pages]; exact Nat.le_of_not_lt hi)
    rw [attributesOf, hnone]
    rfl

theorem references_zero (i : ℕ) : t.references i = 0 := by
  by_cases hi : i < base.bitsSize
  · rw [references_eq (h.page i hi)]
    rfl
  · have hnone : t.pages[i]? = none :=
      List.getElem?_eq_none (by rw [h.length_pages]; exact Nat.le_of_not_lt hi)
    rw [references, hnone]
    rfl

theorem hasZone_iff {zone : Zone} :
    t.HasZone z zone ↔ ∃ span, spans[z]? = some span ∧ zone = zoneOfSpan span := by
  rw [HasZone, h.zonesSize]
  constructor
  · rintro ⟨hz, hzone⟩
    have hspan := List.getElem?_eq_getElem hz
    exact ⟨_, hspan, Option.some.inj (hzone.symm.trans (h.zone z _ hspan))⟩
  · rintro ⟨span, hspan, rfl⟩
    exact ⟨(List.getElem?_eq_some_iff.mp hspan).1, h.zone z span hspan⟩

end Built

theorem range_zoneOfSpan (span : ℕ × ℕ) : (zoneOfSpan span).range = Finset.Ico span.1 span.2 := by
  have hpos : 0 < page2MSize := by decide
  rw [Zone.range, Zone.first, Zone.last, zoneOfSpan, Zone.spanning, Nat.mul_div_cancel _ hpos,
    Nat.mul_div_cancel _ hpos]

theorem Built.consistent (h : Built base spans t) (hsize : base.bitsSize ≤ 2 ^ 43)
    (hroom : spans.length ≤ maxZones) : t.Consistent where
  length_bitsMap := by rw [h.bitsSize_eq]; exact h.length_bitsMap
  length_pages := by rw [h.bitsSize_eq]; exact h.length_pages
  length_zones := h.length_zones
  zonesSize_le := by rw [h.zonesSize]; exact hroom
  bitsSize_le := by rw [h.bitsSize_eq]; exact hsize
  zone_aligned := fun z zone hzone => by
    obtain ⟨span, -, rfl⟩ := h.hasZone_iff.mp hzone
    have hpos : 0 < page2MSize := by decide
    rw [Zone.first, Zone.last, zoneOfSpan, Zone.spanning, Nat.mul_div_cancel _ hpos,
      Nat.mul_div_cancel _ hpos]
    exact ⟨rfl, rfl, rfl⟩
  zone_last := fun z zone hzone => by
    obtain ⟨span, hspan, rfl⟩ := h.hasZone_iff.mp hzone
    have hmem := List.mem_of_getElem? hspan
    rw [Zone.last, zoneOfSpan, Zone.spanning, Nat.mul_div_cancel _ (by decide), h.bitsSize_eq]
    exact (h.valid.inside span hmem).2
  zone_pages := fun i z => by
    rw [h.zoneOf_owner, owner_eq_some h.valid]
    constructor
    · rintro ⟨span, hspan, hi⟩
      exact ⟨_, h.hasZone_iff.mpr ⟨span, hspan, rfl⟩, by rwa [range_zoneOfSpan]⟩
    · rintro ⟨zone, hzone, hi⟩
      obtain ⟨span, hspan, rfl⟩ := h.hasZone_iff.mp hzone
      exact ⟨span, hspan, by rwa [range_zoneOfSpan] at hi⟩
  physical := fun i page hpage => by
    have hi : i < base.bitsSize := h.length_pages ▸ (List.getElem?_eq_some_iff.mp hpage).1
    rw [← Option.some.inj ((h.page i hi).symm.trans hpage)]
    rfl
  used_iff := fun i hi => by
    rw [h.bitsSize_eq] at hi
    rw [h.used i hi, h.attributesOf_zero, h.zoneOf_owner, Option.isNone_iff_eq_none]
    simp
  held_iff := fun i => by
    rw [h.attributesOf_zero, h.references_zero]
    simp
  counts := fun z zone hzone => by
    obtain ⟨span, hspan, rfl⟩ := h.hasZone_iff.mp hzone
    have hmem := List.mem_of_getElem? hspan
    have hfree : ∀ i ∈ Finset.Ico span.1 span.2, t.used i = false := fun i hi => by
      have hlt := (Finset.mem_Ico.mp hi).2.trans_le (h.valid.inside span hmem).2
      rw [h.used i hlt, (owner_eq_some h.valid).mpr ⟨span, hspan, hi⟩]
      rfl
    rw [recount, range_zoneOfSpan, Finset.filter_true_of_mem hfree,
      Finset.filter_false_of_mem (fun i hi => by rw [hfree i hi]; decide),
      Finset.sum_eq_zero fun i _ => h.references_zero i, Nat.card_Ico]
    rfl

theorem Built.exclusive (h : Built base spans t) : t.Exclusive := fun i => by
  rw [h.references_zero]
  exact Nat.zero_le 1

theorem checkPage_run (p : Profile) (hs : s.Consistent) {zone : Zone} (hzone : s.HasZone z zone)
    (hj : j ∈ zone.range) {acc : ℕ × ℕ} (hfree : acc.1 + 1 < 2 ^ 64)
    (hrefs : acc.2 + s.references j < 2 ^ 64) :
    (checkPage p j acc).run s =
      .ok (acc.1 + (if s.used j = false then 1 else 0), acc.2 + s.references j) s := by
  have hz := hs.zone_of_mem hzone hj
  have hlt := hs.lt_of_zoneOf hz
  have hw := hs.lt_words hlt
  obtain ⟨page, hpage⟩ := hs.exists_page hlt
  have hword : (s.bitsMap[j / 64] &&& WordBits.mask j != 0) = s.used j := by
    rw [used, WordBits.testBit, List.getD_eq_getElem _ _ hw, ← WordBits.and_mask_ne_zero]
    rfl
  have hused : decide (s.used j = decide (page.attributes ≠ 0)) = true := by
    have := hs.used_iff j hlt
    rw [attributesOf_eq hpage, hz] at this
    simp only [reduceCtorEq, or_false] at this
    rw [decide_eq_true_eq, Bool.eq_iff_iff, this, decide_eq_true_eq]
  rw [references_eq hpage] at hrefs ⊢
  rw [checkPage, run_get_bind, run_bind_ok (run_element (List.getElem?_eq_getElem hw) s),
    run_get_bind, run_bind_ok (run_element hpage s), hword, run_bind_ok (run_require hused _ s)]
  cases hu : s.used j with
  | true =>
    rw [if_pos rfl, run_bind_ok (EStateM.run_pure _ s), run_bind_ok (run_add p hrefs s),
      EStateM.run_pure, if_neg (by decide), Nat.add_zero]
  | false =>
    rw [if_neg (by decide), run_bind_ok (run_add p hfree s), run_bind_ok (run_add p hrefs s),
      EStateM.run_pure, if_pos rfl]

/-- The free pages and references of the first pages of a zone. -/
def tally (s : MemoryDescriptor) (first last : ℕ) : ℕ × ℕ :=
  (∑ j ∈ Finset.Ico first last, if s.used j = false then 1 else 0,
    ∑ j ∈ Finset.Ico first last, s.references j)

theorem tally_succ {first last : ℕ} (h : first ≤ last) :
    s.tally first (last + 1) = ((s.tally first last).1 + (if s.used last = false then 1 else 0),
      (s.tally first last).2 + s.references last) := by
  rw [tally, Finset.sum_Ico_succ_top h, Finset.sum_Ico_succ_top h]
  rfl

theorem tally_le (hx : s.Exclusive) (first last : ℕ) :
    (s.tally first last).1 ≤ last - first ∧ (s.tally first last).2 ≤ last - first := by
  rw [← Nat.card_Ico, Finset.card_eq_sum_ones, tally]
  have hfree : ∑ j ∈ Finset.Ico first last, (if s.used j = false then 1 else 0) ≤
      ∑ _j ∈ Finset.Ico first last, 1 := Finset.sum_le_sum fun j _ => by
    split
    · exact le_rfl
    · exact Nat.zero_le 1
  have hrefs : ∑ j ∈ Finset.Ico first last, s.references j ≤ ∑ _j ∈ Finset.Ico first last, 1 :=
    Finset.sum_le_sum fun j _ => hx j
  exact ⟨hfree, hrefs⟩

theorem Consistent.tally_eq (hs : s.Consistent) {zone : Zone} (hzone : s.HasZone z zone) :
    s.tally zone.first zone.last = (zone.pageFreeCount, zone.totalPagesRefCount) := by
  have hcounts := hs.counts z zone hzone
  simp only [recount, Prod.mk.injEq] at hcounts
  rw [tally, hcounts.2.1, hcounts.2.2, Zone.range, Finset.card_filter]

theorem Consistent.using_add_free (hs : s.Consistent) {zone : Zone} (hzone : s.HasZone z zone) :
    zone.pageUsingCount + zone.pageFreeCount = zone.numberPages := by
  have hcounts := hs.counts z zone hzone
  simp only [recount, Prod.mk.injEq] at hcounts
  have hsplit := Finset.card_filter_add_card_filter_not (s := zone.range) fun i => s.used i = true
  rw [hcounts.1, hcounts.2.1, (hs.zone_aligned z zone hzone).2.2, ← Nat.card_Ico, ← Zone.range,
    ← hsplit]
  simp only [Bool.not_eq_true]

theorem checkZone_run (p : Profile) (hs : s.Consistent) (hx : s.Exclusive) {zone : Zone}
    (hzone : s.HasZone z zone) {freePages : ℕ} (hsum : freePages + 2 ^ 43 < 2 ^ 64) :
    (checkZone p z freePages).run s = .ok (freePages + zone.pageFreeCount) s := by
  have hlast := (hs.zone_last z zone hzone).trans hs.bitsSize_le
  have hfree := hs.free_le hzone
  have husing := hs.using_le hzone
  have hloop : Satisfies ((forRange zone.first zone.last (0, 0) (checkPage p)).run s)
      (fun acc t => t = s ∧ acc = (zone.pageFreeCount, zone.totalPagesRefCount))
      fun _ _ => False := by
    by_cases hle : zone.first ≤ zone.last
    · rw [← hs.tally_eq hzone]
      refine forRange_satisfies (fun j acc t => t = s ∧ acc = s.tally zone.first j) hle ?_ ?_
      · rintro j acc t hj hlt ⟨rfl, rfl⟩
        obtain ⟨h1, h2⟩ := tally_le hx zone.first j
        have href := hx j
        rw [checkPage_run p hs hzone (Finset.mem_Ico.mpr ⟨hj, hlt⟩) (by omega) (by omega),
          satisfies_ok, tally_succ hj]
        exact ⟨rfl, rfl⟩
      · refine ⟨rfl, ?_⟩
        rw [tally, Finset.Ico_self]
        rfl
    · rw [← hs.tally_eq hzone, forRange, Nat.sub_eq_zero_of_le (Nat.le_of_not_le hle), forCount,
        EStateM.run_pure, satisfies_ok, tally, Finset.Ico_eq_empty_of_le (Nat.le_of_not_le hle)]
      exact ⟨rfl, rfl⟩
  obtain ⟨_, t, hrun, rfl, rfl⟩ := hloop.exists_ok
  rw [checkZone, run_get_bind, run_bind_ok (run_element hzone.2 t)]
  rw [Zone.first, Zone.last] at hrun
  rw [run_bind_ok hrun]
  simp only
  rw [run_bind_ok (run_require (decide_eq_true trivial) _ t), run_bind_ok (run_add p (by omega) t),
    run_bind_ok (run_require (decide_eq_true (hs.using_add_free hzone)) _ t),
    run_bind_ok (run_require (decide_eq_true trivial) _ t), run_add p (by omega)]

/-- On consistent records without shared pages the final check passes and changes nothing. -/
theorem checkZones_run (p : Profile) (hs : s.Consistent) (hx : s.Exclusive) :
    Satisfies ((forRange 0 s.zonesSize 0 (checkZone p)).run s) (fun _ t => t = s)
      fun _ _ => False := by
  have hzones : s.zonesSize ≤ 32 := hs.zonesSize_le
  refine (forRange_satisfies (fun i n t => t = s ∧ n ≤ i * 2 ^ 43) (Nat.zero_le _) ?_ ?_).mono ?_
    fun _ _ h => h
  · rintro i n t - hi ⟨rfl, hn⟩
    obtain ⟨zone, hzone⟩ : ∃ zone, t.HasZone i zone :=
      ⟨_, hi, List.getElem?_eq_getElem (by rw [hs.length_zones]; exact hi.trans_le hs.zonesSize_le)⟩
    have hfree := hs.free_le hzone
    rw [checkZone_run p hs hx hzone (by omega), satisfies_ok]
    exact ⟨rfl, by omega⟩
  · exact ⟨rfl, Nat.zero_le _⟩
  · exact fun _ _ h => h.1

theorem Built.first (p : Profile) {l : Layout} (hsize : l.bitsSize ≤ 2 ^ 43)
    (hlength : l.bitsLength = (l.bitsSize + 63) / 64 * 8) (map : MemoryMap) :
    Satisfies ((forRange 0 l.bitsSize () fun i _ => setPhysicalAddress p i).run
      (MemoryDescriptor.zero.blank map l))
      (fun _ t => Built (MemoryDescriptor.zero.blank map l) [] t) fun _ _ => False := by
  have hwords : l.bitsLength / 8 = (l.bitsSize + 63) / 64 := by omega
  refine (physicalAddresses_run (s := MemoryDescriptor.zero.blank map l) p hsize rfl).mono ?_
    fun _ _ h => h
  rintro _ t rfl
  exact {
    layout := rfl
    valid := ⟨fun _ h => absurd h List.not_mem_nil, List.Pairwise.nil⟩
    length_bitsMap := (List.length_replicate).trans hwords
    length_pages := List.length_map _ |>.trans List.length_range
    length_zones := List.length_replicate
    zonesSize := rfl
    zone := fun z span h => by simp at h
    page := fun i hi => by
      change ((List.range l.bitsSize).map unclaimed)[i]? = _
      change i < l.bitsSize at hi
      rw [List.getElem?_map, List.getElem?_range hi]
      rfl
    used := fun i hi => by
      have hi : i < 64 * (l.bitsLength / 8) := by
        change i < l.bitsSize at hi
        omega
      exact WordBits.testBit_replicate_ones hi }

theorem spans_of_map {map : MemoryMap} (hmap : map.Accepted) {found : Survey}
    (hfound : Surveyed map.used found) (n : ℕ) :
    Spans ((found.physicalEnd + (page2MSize - 1)) / page2MSize)
      ((map.used.take n).filterMap E820Entry.span) where
  inside := fun span hspan => by
    obtain ⟨e, he, hspan⟩ := List.mem_filterMap.mp hspan
    obtain ⟨hram, hlt, rfl⟩ := E820Entry.span_eq_some.mp hspan
    have hreach := hfound.reach e (List.mem_of_mem_take he) hram.2
    exact ⟨hlt, Nat.div_le_div_right (hreach.trans (Nat.le_add_right _ _))⟩
  disjoint := by
    rw [List.pairwise_filterMap]
    refine (hmap.valid.2.sublist (List.take_sublist _ _)).imp fun h => ?_
    exact fun _ hr _ hq => h.disjoint_spans hr hq

theorem buildZones_run (p : Profile) {map : MemoryMap} (hmap : map.Accepted) {found : Survey}
    (hfound : Surveyed map.used found) (hentries : base.e820 = map.entries)
    (haligned : found.physicalEnd + (page2MSize - 1) < 2 ^ 64)
    (hsize : base.bitsSize = (found.physicalEnd + (page2MSize - 1)) / page2MSize)
    (h : Built base [] t) :
    Satisfies ((forRange 0 map.count () fun i _ => buildZone p i).run t)
      (fun _ t' => Built base (map.used.filterMap E820Entry.span) t') fun _ _ => False := by
  have hlen := map.length_used hmap.count_le
  have hsmall : base.bitsSize ≤ 2 ^ 43 := by
    rw [hsize, page2MSize]
    omega
  refine (forRange_satisfies (fun i _ t => Built base ((map.used.take i).filterMap E820Entry.span) t)
    (Nat.zero_le _) ?_ ?_).mono ?_ fun _ _ h => h
  · intro i _ t _ hi ht
    have hlt : i < map.used.length := by omega
    have he : base.e820.toList[i]? = some map.used[i] := by
      rw [hentries, ← map.getElem?_used hi, List.getElem?_eq_getElem hlt]
    have hstop := hmap.valid.1 map.used[i] (List.getElem_mem hlt)
    have hreach : map.used[i].Ram → map.used[i].address.toNat + (page2MSize - 1) < 2 ^ 64 := by
      intro hram
      have h1 := hfound.reach map.used[i] (List.getElem_mem hlt) hram.2
      have h2 : map.used[i].address.toNat ≤ map.used[i].stop := Nat.le_add_right _ _
      omega
    have hstep : (map.used.take (i + 1)).filterMap E820Entry.span =
        (map.used.take i).filterMap E820Entry.span ++ map.used[i].span.toList := by
      rw [← List.take_append_getElem hlt, List.filterMap_append]
      cases hspan : map.used[i].span <;> simp [hspan]
    have hroom : ((map.used.take i).filterMap E820Entry.span).length < maxZones := by
      have h1 := List.length_filterMap_le E820Entry.span (map.used.take i)
      rw [List.length_take] at h1
      have h2 : map.count ≤ maxZones := hmap.count_le
      omega
    have hvalid := spans_of_map hmap hfound (i + 1)
    rw [← hsize, hstep] at hvalid
    rw [hstep]
    exact buildZone_run p he hstop hreach hsmall hroom hvalid ht
  · simpa using h
  · intro _ t ht
    rwa [← hlen, List.take_length] at ht

theorem owner_isNone_eq_false {entries : List E820Entry} :
    (owner (entries.filterMap E820Entry.span) i).isNone = false ↔
      ∃ e ∈ entries, e.Ram ∧ e.Covers (i * page2MSize) ((i + 1) * page2MSize) := by
  rw [← Option.not_isSome, Bool.not_eq_false', owner, List.findIdx?_isSome, List.any_eq_true]
  simp only [List.mem_filterMap, decide_eq_true_eq]
  constructor
  · rintro ⟨span, ⟨e, he, hspan⟩, hi⟩
    obtain ⟨hram, -, rfl⟩ := E820Entry.span_eq_some.mp hspan
    exact ⟨e, he, hram, E820Entry.covers_page.mpr hi⟩
  · rintro ⟨e, he, hram, hcovers⟩
    have hi := E820Entry.covers_page.mp hcovers
    exact ⟨_, ⟨e, he, E820Entry.span_eq_some.mpr ⟨hram, by omega, rfl⟩⟩, hi⟩

/-- The three arrays lie one behind the other, behind the kernel image, inside the initial mapping
and, together with the image, in one entry of ordinary RAM. -/
structure Placed (image : KernelImage) (map : MemoryMap) (s : MemoryDescriptor) : Prop where
  bitsLength : s.bitsLength = (s.bitsSize + 63) / 64 * 8
  pagesLength : s.pagesLength = s.bitsSize * sizeOfPage
  bitmap : image.kernelEnd ≤ s.bitsMapAddress
  pages : s.bitsMapAddress + s.bitsLength ≤ s.pagesAddress
  zones : s.pagesAddress + s.pagesLength ≤ s.zonesAddress
  endOfStruct : s.zonesAddress + maxZones * sizeOfZone ≤ s.endOfStruct
  mapped : s.endOfStruct ≤ pageOffset + directRamEnd
  usable : Usable map.used (image.text - pageOffset) (s.endOfStruct - pageOffset)

/-- What `init` guarantees about the descriptor it leaves. -/
structure Initial (image : KernelImage) (map : MemoryMap) (s : MemoryDescriptor) : Prop where
  consistent : s.Consistent
  exclusive : s.Exclusive
  entries : s.e820 = map.entries ∧ s.numberEntries = map.count
  metadata : ∃ n, s.endOfStruct = n + pageOffset ∧ n ≤ directRamEnd
  kernelEnd : image.kernelEnd ≤ s.endOfStruct
  placed : Placed image map s
  zone : ∀ z zone, s.HasZone z zone →
    ∃ e ∈ map.used, e.span = some (zone.first, zone.last)
  free_iff : ∀ i, s.Free i ↔
    (∃ e ∈ map.used, e.Ram ∧ e.Covers (i * page2MSize) ((i + 1) * page2MSize)) ∧
      (s.endOfStruct - pageOffset + (page2MSize - 1)) / page2MSize ≤ i
  reserved : ∀ i < (s.endOfStruct - pageOffset + (page2MSize - 1)) / page2MSize,
    s.attributesOf i = reservedAttributes

theorem Placed.sameLayout {image : KernelImage} {map : MemoryMap} (h : Placed image map s)
    (ht : s.SameLayout t) : Placed image map t := by
  rw [SameLayout] at ht
  rw [ht]
  exact {
    bitsLength := h.bitsLength
    pagesLength := h.pagesLength
    bitmap := h.bitmap
    pages := h.pages
    zones := h.zones
    endOfStruct := h.endOfStruct
    mapped := h.mapped
    usable := h.usable }

theorem Planned.placed {image : KernelImage} {map : MemoryMap} {physicalEnd : ℕ} {l : Layout}
    (hl : Planned image map physicalEnd l) :
    Placed image map (MemoryDescriptor.zero.blank map l) := by
  have hphysical := hl.physical
  have hmapped := hl.mapped
  have hzones := hl.zones
  rw [← hl.pagesLength] at hzones
  refine {
    bitsLength := hl.bitsLength
    pagesLength := hl.pagesLength
    bitmap := hl.bitmap
    pages := hl.pages
    zones := hzones
    endOfStruct := hl.metadataEnd
    mapped := ?_
    usable := ?_ }
  · change l.metadataEnd ≤ _
    omega
  · change Usable map.used _ (l.metadataEnd - pageOffset)
    rw [hphysical, Nat.add_sub_cancel]
    exact hl.usable

theorem Built.initial {image : KernelImage} {map : MemoryMap} {found : Survey} {l : Layout}
    (hl : Planned image map found.physicalEnd l) (hfound : Surveyed map.used found)
    (h : Built (MemoryDescriptor.zero.blank map l) (map.used.filterMap E820Entry.span) t)
    (hs : t.Consistent) {reserved : ℕ}
    (hreserved : reserved = (l.physicalMetadataEnd + (page2MSize - 1)) / page2MSize) :
    reserved ≤ t.bitsSize ∧
      Initial image map (t.mark (fun _ => reservedAttributes) (Finset.Ico 0 reserved)) := by
  have hbits : t.bitsSize = l.bitsSize := h.bitsSize_eq
  have hle : reserved ≤ t.bitsSize := by
    obtain ⟨-, e, he, hram, hcovers⟩ := hl.usable
    rw [hbits, hl.bitsSize, hreserved]
    exact Nat.div_le_div_right (by have := hfound.reach e he hram.2; have := hcovers.2; omega)
  have hB : ∀ i ∈ Finset.Ico 0 reserved, i < t.bitsSize ∧ t.attributesOf i = 0 := fun i hi =>
    ⟨(Finset.mem_Ico.mp hi).2.trans_le hle, h.attributesOf_zero i⟩
  have hBp : ∀ i ∈ Finset.Ico 0 reserved, i < t.pages.length := fun i hi => by
    rw [hs.length_pages]
    exact (hB i hi).1
  have hend : t.endOfStruct = l.metadataEnd := by rw [h.layout]; rfl
  have hphysical : l.metadataEnd - pageOffset = l.physicalMetadataEnd := by
    rw [hl.physical, Nat.add_sub_cancel]
  refine ⟨hle, {
    consistent := hs.mark hB fun _ _ => by decide
    exclusive := h.exclusive.mark hBp
    entries := ⟨?_, ?_⟩
    metadata := ⟨l.physicalMetadataEnd, hend.trans hl.physical, hl.mapped⟩
    kernelEnd := ?_
    placed := ?_
    zone := fun z zone hzone => ?_
    free_iff := fun i => ?_
    reserved := fun i hi => ?_ }⟩
  · change t.e820 = _
    rw [h.layout]
    rfl
  · change t.numberEntries = _
    rw [h.layout]
    rfl
  · change _ ≤ t.endOfStruct
    have h1 := hl.bitmap
    have h2 := hl.pages
    have h3 := hl.zones
    have h4 := hl.metadataEnd
    omega
  · exact (Planned.placed hl |>.sameLayout h.layout).sameLayout rfl
  · obtain ⟨zone', hzone', rfl⟩ := hasZone_overlay.mp hzone
    obtain ⟨span, hspan, rfl⟩ := h.hasZone_iff.mp hzone'
    obtain ⟨e, he, hspan⟩ := List.mem_filterMap.mp (List.mem_of_getElem? hspan)
    have hpos : 0 < page2MSize := by decide
    refine ⟨e, he, ?_⟩
    rw [Zone.first, Zone.last, Zone.take, zoneOfSpan, Zone.spanning, Nat.mul_div_cancel _ hpos,
      Nat.mul_div_cancel _ hpos, hspan]
  · change (i < t.bitsSize ∧ _) ↔ _ ∧ (t.endOfStruct - _ + _) / _ ≤ i
    rw [hend, hphysical, ← hreserved, ← owner_isNone_eq_false]
    constructor
    · rintro ⟨hi, hfree⟩
      rw [hs.used_mark hi] at hfree
      split at hfree
      · cases hfree
      · rename_i hout
        rw [h.used i (hi.trans_eq hbits)] at hfree
        rw [Finset.mem_Ico] at hout
        exact ⟨hfree, by omega⟩
    · rintro ⟨hfree, hi⟩
      obtain ⟨z, hz⟩ : ∃ z, owner (map.used.filterMap E820Entry.span) i = some z := by
        cases hz : owner (map.used.filterMap E820Entry.span) i with
        | none => rw [hz] at hfree; cases hfree
        | some z => exact ⟨z, rfl⟩
      have hlt : i < t.bitsSize := hs.lt_of_zoneOf ((h.zoneOf_owner i).trans hz)
      refine ⟨hlt, ?_⟩
      rw [hs.used_mark hlt, if_neg (by rw [Finset.mem_Ico]; omega), h.used i (hlt.trans_eq hbits), hfree]
  · change i < (t.endOfStruct - _ + _) / _ at hi
    rw [hend, hphysical, ← hreserved] at hi
    rw [attributesOf_mark hBp, if_pos (Finset.mem_Ico.mpr ⟨Nat.zero_le i, hi⟩)]

/-- A rejected layout leaves the descriptor as it was: nothing is written before the checks. -/
theorem describeMemory_run (p : Profile) {image : KernelImage} (himage : image.Linked)
    {map : MemoryMap} (hmap : map.Accepted) :
    Satisfies ((describeMemory p image map).run .zero) (fun _ t => Initial image map t)
      fun err t => Rejection err ∧ t = .zero := by
  rw [describeMemory]
  have hsurvey := (survey_run p hmap MemoryDescriptor.zero).and
    (survey_stays (P := (· = MemoryDescriptor.zero)) p map _ rfl)
  refine (hsurvey.mono (fun _ _ h => h.1) fun _ _ h => h).bind ?_
  rintro found _ ⟨rfl, -, hfound⟩
  have hplan := (planLayout_run p himage hmap hfound.physicalEnd_lt MemoryDescriptor.zero).and
    (planLayout_stays (P := (· = MemoryDescriptor.zero)) p image map found.physicalEnd _ rfl)
  refine (hplan.mono (fun _ _ h => h.1) fun _ _ h => h).bind ?_
  rintro l _ ⟨rfl, hl⟩
  have hend := hfound.physicalEnd_lt
  have hsmall : l.bitsSize ≤ 2 ^ 43 := by
    rw [hl.bitsSize, page2MSize]
    omega
  rw [run_modify_bind]
  refine ((Built.first p hsmall hl.bitsLength map).mono (fun _ _ h => h)
    fun _ _ h => h.elim).bind ?_
  intro _ t ht
  refine ((buildZones_run p hmap hfound rfl hl.aligned hl.bitsSize ht).mono (fun _ _ h => h)
    fun _ _ h => h.elim).bind ?_
  intro _ t ht
  have hcount : (map.used.filterMap E820Entry.span).length ≤ maxZones := by
    refine (List.length_filterMap_le _ _).trans ?_
    rw [map.length_used hmap.count_le]
    exact hmap.count_le
  have hs := ht.consistent hsmall hcount
  obtain ⟨reserved, hreserved⟩ :
      ∃ n, n = (l.physicalMetadataEnd + (page2MSize - 1)) / page2MSize := ⟨_, rfl⟩
  obtain ⟨hle, hinitial⟩ := ht.initial hl hfound hs hreserved
  have hmark : (forRange 0 reserved () fun index _ => initPage p index reservedAttributes).run t =
      .ok () (t.mark (fun _ => reservedAttributes) (Finset.Ico 0 reserved)) :=
    markRange_run p hs ht.exclusive (Nat.zero_le _)
      (fun i _ hi => ⟨hi.trans_le hle, ht.attributesOf_zero i⟩) fun _ _ _ => by decide
  simp only
  rw [← hreserved, run_bind_ok hmark, run_get_bind]
  refine ((checkZones_run p hinitial.consistent hinitial.exclusive).mono (fun _ _ h => h)
    fun _ _ h => h.elim).bind ?_
  rintro _ _ rfl
  exact satisfies_ok.mpr hinitial

end MemoryDescriptor

end MikoOS
