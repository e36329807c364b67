import MikoOS.MemoryInit
import MikoOS.Library.Trace

/-!
# The survey of the memory map and the metadata layout

The first half of `memory::init` on an accepted map: the whole pages of each entry of ordinary RAM
(`span`), the totals of the survey, and the placement of the metadata. Its only panics are the
layout rejections; the total of ordinary RAM cannot overflow because the entries are disjoint.
-/

namespace MikoOS

open ByteMemory Intervals Rust

variable {σ : Type}

namespace E820Entry

/-- The entry's first whole page. -/
def firstPage (e : E820Entry) : ℕ := (e.address.toNat + (page2MSize - 1)) / page2MSize

/-- The page after the entry's last whole page. -/
def lastPage (e : E820Entry) : ℕ := e.stop / page2MSize

/-- The whole pages of an entry of ordinary RAM. -/
def span (e : E820Entry) : Option (ℕ × ℕ) :=
  if e.Ram ∧ e.firstPage < e.lastPage then some (e.firstPage, e.lastPage) else none

def ramBytes (e : E820Entry) : ℕ := if e.Ram then e.length.toNat else 0

theorem covers_page {e : E820Entry} {i : ℕ} :
    e.Covers (i * page2MSize) ((i + 1) * page2MSize) ↔ e.firstPage ≤ i ∧ i < e.lastPage := by
  have hsize : 0 < page2MSize := by decide
  rw [Covers, firstPage, lastPage, Nat.lt_iff_add_one_le, Nat.le_div_iff_mul_le hsize,
    ← Nat.lt_add_one_iff (m := _) (n := i), Nat.div_lt_iff_lt_mul hsize]
  rw [Nat.add_mul]
  omega

theorem span_eq_some {e : E820Entry} {r : ℕ × ℕ} :
    e.span = some r ↔ e.Ram ∧ e.firstPage < e.lastPage ∧ r = (e.firstPage, e.lastPage) := by
  unfold span
  split
  · rename_i h
    simp [h, eq_comm]
  · rename_i h
    simp only [reduceCtorEq, false_iff]
    exact fun hr => h ⟨hr.1, hr.2.1⟩

theorem Apart.disjoint_spans {e f : E820Entry} {r q : ℕ × ℕ} (h : e.Apart f) (hr : e.span = some r)
    (hq : f.span = some q) : Disjoint (Finset.Ico r.1 r.2) (Finset.Ico q.1 q.2) := by
  obtain ⟨hram, -, rfl⟩ := span_eq_some.mp hr
  obtain ⟨hram', -, rfl⟩ := span_eq_some.mp hq
  rw [Finset.disjoint_left]
  intro i hi hi'
  obtain ⟨h1, h2⟩ := covers_page.mpr (Finset.mem_Ico.mp hi)
  obtain ⟨h3, h4⟩ := covers_page.mpr (Finset.mem_Ico.mp hi')
  have hsize : 0 < page2MSize := by decide
  rw [Nat.add_mul] at h2 h4
  rcases h hram.2 hram'.2 with h | h <;> omega

theorem Apart.disjoint_ramBytes {e f : E820Entry} (h : e.Apart f) :
    Disjoint (Finset.Ico e.address.toNat (e.address.toNat + e.ramBytes))
      (Finset.Ico f.address.toNat (f.address.toNat + f.ramBytes)) := by
  rw [Finset.disjoint_left]
  intro x hx hx'
  obtain ⟨h1, h2⟩ := Finset.mem_Ico.mp hx
  obtain ⟨h3, h4⟩ := Finset.mem_Ico.mp hx'
  unfold ramBytes at h2 h4
  split at h2
  · split at h4
    · rename_i he hf
      have := h he.2 hf.2
      unfold stop at this
      omega
    · omega
  · omega

theorem span_le_ramBytes {e : E820Entry} {r : ℕ × ℕ} (hr : e.span = some r) :
    r.2 - r.1 ≤ e.ramBytes := by
  obtain ⟨hram, hlt, rfl⟩ := span_eq_some.mp hr
  rw [ramBytes, if_pos hram]
  simp only [firstPage, lastPage, stop, page2MSize] at hlt ⊢
  omega

end E820Entry

/-- The ordinary RAM of a valid map fits in a 64-bit count. -/
theorem EntriesValid.sum_ramBytes_lt {entries : List E820Entry} (h : EntriesValid entries) :
    (entries.map E820Entry.ramBytes).sum < 2 ^ 64 := by
  have hsum : (entries.map fun e => e.address.toNat + e.ramBytes - e.address.toNat).sum ≤
      2 ^ 64 - 1 := by
    refine sum_lengths_le (h.2.imp E820Entry.Apart.disjoint_ramBytes) fun e he => ?_
    have hstop := h.1 e he
    unfold E820Entry.ramBytes
    unfold E820Entry.stop at hstop
    split <;> omega
  simp only [Nat.add_sub_cancel_left] at hsum
  exact Nat.lt_of_le_pred (by decide) hsum

theorem alignUp_run (k x : ℕ) (s : σ) :
    Satisfies ((alignUp x (2 ^ k) : Exec σ ℕ).run s)
      (fun r t => t = s ∧ x + (2 ^ k - 1) < 2 ^ 64 ∧ r = (x + (2 ^ k - 1)) / 2 ^ k * 2 ^ k)
      fun e t => t = s ∧ 2 ^ 64 ≤ x + (2 ^ k - 1) ∧ e = .message "alignment overflow" := by
  rw [alignUp]
  simp only [EStateM.run_bind, run_require (decide_eq_true (congrArg (2 ^ ·) (Nat.log2_two_pow)))]
  by_cases hlt : x + (2 ^ k - 1) < 2 ^ 64
  · simp only [run_expect (checkedAdd_of_lt hlt), EStateM.run_pure, satisfies_ok, true_and]
    exact ⟨hlt, clearLow_eq k hlt⟩
  · have hnone : checkedAdd x (2 ^ k - 1) = none := if_neg hlt
    simp only [hnone, expect, run_raise, satisfies_error]
    exact ⟨trivial, Nat.le_of_not_lt hlt, trivial⟩

theorem endAddress_run {e : E820Entry} (h : e.stop < 2 ^ 64) (s : σ) :
    (e.endAddress : Exec σ ℕ).run s = .ok e.stop s := run_expect (checkedAdd_of_lt h) _ s

theorem usableRange_run {e : E820Entry} (h : e.stop < 2 ^ 64) (s : σ) :
    Satisfies ((e.usableRange : Exec σ _).run s)
      (fun r t => t = s ∧ r = e.span.map fun q => (q.1 * page2MSize, q.2 * page2MSize))
      fun err _ => e.Ram ∧ 2 ^ 64 ≤ e.address.toNat + (page2MSize - 1) ∧
        err = .message "alignment overflow" := by
  rw [E820Entry.usableRange]
  by_cases hskip : e.kind ≠ 1 ∨ e.length = 0
  · have hspan : e.span = none := by
      rw [E820Entry.span, if_neg]
      rintro ⟨⟨h1, h2⟩, -⟩
      rcases hskip with h | h
      · exact h h1
      · exact h2 h
    rw [if_pos hskip, EStateM.run_pure, satisfies_ok, hspan]
    exact ⟨rfl, rfl⟩
  · have hram : e.Ram := by
      simp only [not_or, not_not] at hskip
      exact hskip
    rw [if_neg hskip]
    refine ((alignUp_run 21 e.address.toNat s).mono (fun _ _ h => h) ?_).bind ?_
    · rintro _ _ ⟨-, hle, herr⟩
      exact ⟨hram, hle, herr⟩
    rintro start t ⟨rfl, -, rfl⟩
    simp only [EStateM.run_bind, endAddress_run h, EStateM.run_pure, satisfies_ok, true_and]
    have hstop : clearLow e.stop page2MSize = e.lastPage * page2MSize := clearLow_eq 21 h
    rw [hstop]
    change (if e.firstPage * page2MSize < e.lastPage * page2MSize then _ else _) = _
    have hsize : 0 < page2MSize := by decide
    rw [E820Entry.span]
    simp only [Nat.mul_lt_mul_right hsize, hram, true_and]
    split <;> rfl

/-- The messages with which `init` may stop on an accepted map. -/
def layoutRejections : List String :=
  ["alignment overflow", "no usable 2 MiB pages", "bitmap end overflow", "Page end overflow",
    "Zone end overflow", "metadata exceeds initial 10 MiB RAM mapping",
    "kernel and metadata are not contained in usable RAM"]

def Rejection : Panic → Prop
  | .message text => text ∈ layoutRejections
  | _ => False

theorem rejection_of_mem {text : String} (h : text ∈ layoutRejections) :
    Rejection (.message text) := h

theorem rejection_alignment {e : Panic} (h : e = .message "alignment overflow") : Rejection e := by
  rw [h]
  exact rejection_of_mem (by decide)

theorem MemoryMap.getElem?_used {map : MemoryMap} {i : ℕ} (hi : i < map.count) :
    map.used[i]? = map.entries.toList[i]? := List.getElem?_take_of_lt hi

/-- What the survey has found in `entries`. -/
structure Surveyed (entries : List E820Entry) (found : Survey) : Prop where
  reach : ∀ e ∈ entries, e.length ≠ 0 → e.stop ≤ found.physicalEnd
  physicalEnd_lt : found.physicalEnd < 2 ^ 64
  totalRam : found.totalRam = (entries.map E820Entry.ramBytes).sum
  totalPages : found.totalPages ≤ found.totalRam

theorem addRam_run {e : E820Entry} {total : ℕ} (hlength : e.length ≠ 0)
    (h : total + e.ramBytes < 2 ^ 64) (s : σ) :
    (addRam total e : Exec σ ℕ).run s = .ok (total + e.ramBytes) s := by
  unfold addRam
  by_cases hkind : e.kind = 1
  · have heq : e.ramBytes = e.length.toNat := if_pos ⟨hkind, hlength⟩
    rw [heq] at h ⊢
    rw [if_pos hkind]
    exact run_expect (checkedAdd_of_lt h) _ s
  · have heq : e.ramBytes = 0 := if_neg fun hr => hkind hr.1
    rw [if_neg hkind, heq, EStateM.run_pure, Nat.add_zero]

theorem surveyEntry_run (p : Profile) {map : MemoryMap} (hvalid : EntriesValid map.used)
    {seen rest : List E820Entry} {e : E820Entry} (hsplit : map.used = seen ++ e :: rest)
    (he : map.entries.toList[seen.length]? = some e) {acc : Survey} (h : Surveyed seen acc) (s : σ) :
    Satisfies ((surveyEntry p map seen.length acc : Exec σ Survey).run s)
      (fun found t => t = s ∧ Surveyed (seen ++ [e]) found) fun err _ => Rejection err := by
  have hstop : e.stop < 2 ^ 64 := hvalid.1 e (by simp [hsplit])
  have hram : acc.totalRam + e.ramBytes < 2 ^ 64 := by
    have hsum := hvalid.sum_ramBytes_lt
    rw [hsplit, List.map_append, List.sum_append, List.map_cons, List.sum_cons, ← h.totalRam] at hsum
    omega
  have hlast : ∀ {n : ℕ}, n = acc.totalRam + e.ramBytes →
      n = ((seen ++ [e]).map E820Entry.ramBytes).sum := fun hn => by
    rw [List.map_append, List.sum_append, ← h.totalRam, hn, List.map_singleton, List.sum_singleton]
  rw [surveyEntry, run_bind_ok (run_element he s)]
  by_cases hzero : e.length = 0
  · rw [if_pos hzero, EStateM.run_pure, satisfies_ok]
    have hbytes : e.ramBytes = 0 := if_neg fun hr => hr.2 hzero
    refine ⟨rfl, fun f hf hne => ?_, h.physicalEnd_lt, hlast (by omega), h.totalPages⟩
    rcases List.mem_append.mp hf with hf | hf
    · exact h.reach f hf hne
    · rw [List.mem_singleton.mp hf] at hne
      exact absurd hzero hne
  · rw [if_neg hzero, run_bind_ok (endAddress_run hstop s), run_bind_ok (addRam_run hzero hram s)]
    have hreach : ∀ f ∈ seen ++ [e], f.length ≠ 0 → f.stop ≤ max acc.physicalEnd e.stop :=
      fun f hf hne => by
        rcases List.mem_append.mp hf with hf | hf
        · exact (h.reach f hf hne).trans (le_max_left _ _)
        · rw [List.mem_singleton.mp hf]
          exact le_max_right _ _
    have hend : max acc.physicalEnd e.stop < 2 ^ 64 := max_lt h.physicalEnd_lt hstop
    refine ((usableRange_run hstop s).mono (fun _ _ h => h) fun _ _ h =>
      rejection_alignment h.2.2).bind ?_
    rintro _ t ⟨rfl, rfl⟩
    cases hspan : e.span with
    | none =>
      simp only [Option.map_none, EStateM.run_pure, satisfies_ok]
      have := h.totalPages
      exact ⟨trivial, hreach, hend, hlast rfl, by simp only; omega⟩
    | some r =>
      have hpages := E820Entry.span_le_ramBytes hspan
      obtain ⟨-, hlt, hr⟩ := E820Entry.span_eq_some.mp hspan
      have hle : r.1 * page2MSize ≤ r.2 * page2MSize := by
        rw [hr]
        exact Nat.mul_le_mul_right _ hlt.le
      have hdiv : (r.2 * page2MSize - r.1 * page2MSize) / page2MSize = r.2 - r.1 := by
        rw [← Nat.sub_mul, Nat.mul_div_cancel _ (by decide)]
      have := h.totalPages
      simp only [Option.map_some]
      rw [run_bind_ok (run_sub p hle t), hdiv, run_bind_ok (run_add p (by omega) t),
        EStateM.run_pure, satisfies_ok]
      exact ⟨rfl, hreach, hend, hlast rfl, by simp only; omega⟩

theorem survey_run (p : Profile) {map : MemoryMap} (hmap : map.Accepted) (s : σ) :
    Satisfies ((survey p map : Exec σ Survey).run s)
      (fun found t => t = s ∧ 0 < found.totalPages ∧ Surveyed map.used found)
      fun err _ => Rejection err := by
  have hlen := map.length_used hmap.count_le
  rw [survey]
  refine Satisfies.bind (forRange_satisfies
    (fun i found t => t = s ∧ Surveyed (map.used.take i) found) (Nat.zero_le _) ?_ ?_) ?_
  · rintro i acc t - hi ⟨rfl, h⟩
    have hlt : i < map.used.length := by omega
    have hseen : (map.used.take i).length = i := by rw [List.length_take]; omega
    have hsplit : map.used = map.used.take i ++ map.used[i] :: map.used.drop (i + 1) := by
      rw [List.cons_getElem_drop_succ, List.take_append_drop]
    have he : map.entries.toList[(map.used.take i).length]? = some map.used[i] := by
      rw [hseen, ← map.getElem?_used hi, List.getElem?_eq_getElem hlt]
    have hrun := surveyEntry_run p hmap.valid hsplit he h t
    rwa [hseen, List.take_append_getElem hlt] at hrun
  · exact ⟨rfl, by simp, by decide, by simp, le_rfl⟩
  · rintro found t ⟨rfl, h⟩
    rw [← hlen, List.take_length] at h
    refine (satisfies_require fun _ => rejection_of_mem (by decide)).bind ?_
    rintro _ t ⟨rfl, hpos⟩
    exact satisfies_ok.mpr ⟨rfl, of_decide_eq_true hpos, h⟩

/-- The layout `init` goes on with. -/
structure Planned (image : KernelImage) (map : MemoryMap) (physicalEnd : ℕ) (l : Layout) :
    Prop where
  aligned : physicalEnd + (page2MSize - 1) < 2 ^ 64
  bitsSize : l.bitsSize = (physicalEnd + (page2MSize - 1)) / page2MSize
  bitsLength : l.bitsLength = (l.bitsSize + 63) / 64 * 8
  pagesLength : l.pagesLength = l.bitsSize * sizeOfPage
  bitmap : image.kernelEnd ≤ l.bitmap
  pages : l.bitmap + l.bitsLength ≤ l.pages
  zones : l.pages + l.bitsSize * sizeOfPage ≤ l.zones
  metadataEnd : l.zones + maxZones * sizeOfZone ≤ l.metadataEnd
  physical : l.metadataEnd = l.physicalMetadataEnd + pageOffset
  mapped : l.physicalMetadataEnd ≤ directRamEnd
  usable : Usable map.used (image.text - pageOffset) l.physicalMetadataEnd

theorem alignUp_rejection (k x : ℕ) (s : σ) :
    Satisfies ((alignUp x (2 ^ k) : Exec σ ℕ).run s)
      (fun r t => t = s ∧ x + (2 ^ k - 1) < 2 ^ 64 ∧ r = (x + (2 ^ k - 1)) / 2 ^ k * 2 ^ k)
      fun e _ => Rejection e :=
  (alignUp_run k x s).mono (fun _ _ h => h) fun _ _ h => rejection_alignment h.2.2

theorem checkedAdd_rejection (a b : ℕ) {text : String} (h : text ∈ layoutRejections) (s : σ) :
    Satisfies ((expect (checkedAdd a b) text : Exec σ ℕ).run s)
      (fun r t => t = s ∧ r = a + b) fun e _ => Rejection e := by
  refine (satisfies_expect fun _ => rejection_of_mem h).mono ?_ fun _ _ h => h
  rintro r t ⟨rfl, hr⟩
  exact ⟨rfl, (checkedAdd_eq_some.mp hr).1.symm⟩

theorem le_roundUp (x k : ℕ) : x ≤ (x + (2 ^ k - 1)) / 2 ^ k * 2 ^ k := by
  have hdiv := Nat.div_add_mod (x + (2 ^ k - 1)) (2 ^ k)
  rw [Nat.mul_comm] at hdiv
  omega

theorem planLayout_run (p : Profile) {image : KernelImage} (himage : image.Linked)
    {map : MemoryMap} (hmap : map.Accepted) {physicalEnd : ℕ} (hend : physicalEnd < 2 ^ 64)
    (s : σ) :
    Satisfies ((planLayout p image map physicalEnd : Exec σ Layout).run s)
      (fun l t => t = s ∧ Planned image map physicalEnd l) fun e _ => Rejection e := by
  have htext : pageOffset ≤ image.text := by rw [himage.text]; decide
  have hkernel : pageOffset ≤ image.kernelEnd := htext.trans himage.text_le
  rw [planLayout]
  refine (alignUp_rejection 21 physicalEnd s).bind ?_
  rintro _ t ⟨rfl, haligned, rfl⟩
  have hsize : (physicalEnd + (2 ^ 21 - 1)) / 2 ^ 21 * 2 ^ 21 / page2MSize =
      (physicalEnd + (page2MSize - 1)) / page2MSize := Nat.mul_div_cancel _ (by decide)
  obtain ⟨bitsSize, hbits⟩ : ∃ n, n = (physicalEnd + (page2MSize - 1)) / page2MSize := ⟨_, rfl⟩
  have hsmall : bitsSize ≤ 2 ^ 43 := by
    rw [hbits, page2MSize]
    omega
  rw [hsize, ← hbits]
  rw [run_bind_ok (run_expect (checkedMul_of_lt (by omega)) _ _),
    run_bind_ok (run_expect (checkedMul_of_lt (by rw [sizeOfPage]; omega)) _ _)]
  refine (alignUp_rejection 12 image.kernelEnd t).bind ?_
  rintro bitmap t ⟨rfl, -, rfl⟩
  refine (checkedAdd_rejection _ _ (by decide) t).bind ?_
  rintro _ t ⟨rfl, rfl⟩
  refine (alignUp_rejection 12 _ t).bind ?_
  rintro pages t ⟨rfl, -, hpages⟩
  refine (checkedAdd_rejection _ _ (by decide) t).bind ?_
  rintro _ t ⟨rfl, rfl⟩
  refine (alignUp_rejection 12 _ t).bind ?_
  rintro zones t ⟨rfl, -, hzones⟩
  refine (checkedAdd_rejection _ _ (by decide) t).bind ?_
  rintro _ t ⟨rfl, rfl⟩
  refine (alignUp_rejection 8 _ t).bind ?_
  rintro metadataEnd t ⟨rfl, -, hmetadata⟩
  have h1 := le_roundUp image.kernelEnd 12
  have h2 := (le_roundUp _ 12).trans hpages.ge
  have h3 := (le_roundUp _ 12).trans hzones.ge
  have h4 := (le_roundUp _ 8).trans hmetadata.ge
  have hoffset : pageOffset ≤ metadataEnd := by omega
  rw [run_bind_ok (run_sub p hoffset t)]
  refine (satisfies_require fun _ => rejection_of_mem (by decide)).bind ?_
  rintro _ t ⟨rfl, hmapped⟩
  rw [run_bind_ok (run_sub p htext t),
    run_bind_ok (map.containsUsable_run p _ _ t hmap.valid.1)]
  refine (satisfies_require fun _ => rejection_of_mem (by decide)).bind ?_
  rintro _ t ⟨rfl, husable⟩
  exact satisfies_ok.mpr ⟨rfl, {
    aligned := haligned
    bitsSize := hbits
    bitsLength := rfl
    pagesLength := rfl
    bitmap := h1
    pages := h2
    zones := h3
    metadataEnd := h4
    physical := (Nat.sub_add_cancel hoffset).symm
    mapped := of_decide_eq_true hmapped
    usable := of_decide_eq_true husable }⟩

section Stays

variable {P : σ → Prop}

theorem alignUp_stays (address alignment : ℕ) : Stays P (alignUp address alignment) := by
  unfold alignUp
  exact (stays_require _ _).bind fun _ => (stays_expect _ _).bind fun _ => stays_pure _

theorem usableRange_stays (e : E820Entry) : Stays P e.usableRange := by
  unfold E820Entry.usableRange
  split
  · exact stays_pure _
  · refine (alignUp_stays _ _).bind fun _ => (stays_expect _ _).bind fun _ => ?_
    exact stays_pure _

theorem surveyEntry_stays (p : Profile) (map : MemoryMap) (i : ℕ) (acc : Survey) :
    Stays P (surveyEntry p map i acc) := by
  unfold surveyEntry addRam
  apply (stays_element _ _).bind
  intro entry
  split
  · exact stays_pure _
  · apply Stays.bind (stays_expect _ _)
    intro _
    apply Stays.bind
    · split
      · exact stays_expect _ _
      · exact stays_pure _
    · intro _
      apply Stays.bind (usableRange_stays entry)
      intro range
      cases range with
      | none => exact stays_pure _
      | some range => exact (stays_sub p _ _).bind fun _ => (stays_add p _ _).bind fun _ => stays_pure _

theorem survey_stays (p : Profile) (map : MemoryMap) : Stays P (survey p map) := by
  unfold survey
  apply Stays.bind (stays_forRange (surveyEntry_stays p map))
  intro _
  exact (stays_require _ _).bind fun _ => stays_pure _

theorem anyUsable_stays (p : Profile) (start stop : ℕ) (entries : List E820Entry) :
    Stays P (anyUsable p start stop entries) := by
  induction entries with
  | nil => exact stays_pure _
  | cons entry rest ih =>
    rw [anyUsable]
    split
    · apply Stays.bind (stays_add p _ _)
      intro _
      split
      · exact stays_pure _
      · exact ih
    · exact ih

theorem planLayout_stays (p : Profile) (image : KernelImage) (map : MemoryMap) (physicalEnd : ℕ) :
    Stays P (planLayout p image map physicalEnd) := by
  unfold planLayout MemoryMap.containsUsable
  refine (alignUp_stays _ _).bind fun _ => (stays_expect _ _).bind fun _ =>
    (stays_expect _ _).bind fun _ => (alignUp_stays _ _).bind fun _ => ?_
  refine (stays_expect _ _).bind fun _ => (alignUp_stays _ _).bind fun _ =>
    (stays_expect _ _).bind fun _ => (alignUp_stays _ _).bind fun _ => ?_
  refine (stays_expect _ _).bind fun _ => (alignUp_stays _ _).bind fun _ =>
    (stays_sub p _ _).bind fun _ => (stays_require _ _).bind fun _ => (stays_sub p _ _).bind fun _ => ?_
  apply Stays.bind
  · split
    · exact anyUsable_stays p _ _ _
    · exact stays_pure _
  · intro _
    exact (stays_require _ _).bind fun _ => stays_pure _

end Stays

end MikoOS
