import MikoOS.Library.RustExec
import MikoOS.Library.ByteMemory

/-!
# The E820 handoff as the kernel reads it

`bootinfo.rs`: the 16-byte header at `0x4ff0`, the packed 20-byte entries at `0x5000`, and the
checks made before any entry is trusted. The handoff buffer is read through the high-half alias of
low memory, so the model reads physical memory directly. An accepted map has no overflowing entry,
no two overlapping non-empty entries, and covers the fixed bootstrap ranges.
-/

namespace MikoOS

open ByteMemory Rust

variable {σ : Type}

def maxEntries : ℕ := 32
def headerAddress : ℕ := 0x4ff0
def entriesAddress : ℕ := 0x5000
def headerMagic : BitVec 32 := 0x30323845#32

structure Header where
  magic : BitVec 32
  version : BitVec 16
  entrySize : BitVec 16
  count : BitVec 16
  capacity : BitVec 16
  flags : BitVec 32
  deriving DecidableEq, Repr

structure E820Entry where
  address : BitVec 64
  length : BitVec 64
  kind : BitVec 32
  deriving DecidableEq, Repr

def E820Entry.empty : E820Entry := ⟨0, 0, 0⟩

structure MemoryMap where
  entries : Vector E820Entry maxEntries
  count : ℕ

def Header.read (ram : Memory) (a : ℕ) : Header where
  magic := load32 ram a
  version := load16 ram (a + 4)
  entrySize := load16 ram (a + 6)
  count := load16 ram (a + 8)
  capacity := load16 ram (a + 10)
  flags := load32 ram (a + 12)

def E820Entry.read (ram : Memory) (a : ℕ) : E820Entry where
  address := load64 ram a
  length := load64 ram (a + 8)
  kind := load32 ram (a + 16)

def Header.validate (h : Header) : Except String ℕ :=
  if h.magic ≠ headerMagic ∨ h.version ≠ 1 ∨ h.entrySize ≠ 20 ∨
      h.capacity.toNat ≠ maxEntries ∨ h.flags ≠ 1 then
    .error "invalid or incomplete E820 handoff"
  else if h.count = 0 ∨ maxEntries < h.count.toNat then
    .error "invalid E820 count"
  else .ok h.count.toNat

/-- The inner loop over the entries before `entry`, whose end is `stop`. -/
def overlapsPrevious (p : Profile) (entry : E820Entry) (stop : ℕ) : List E820Entry → Exec σ Bool
  | [] => pure false
  | previous :: rest => do
    let previousEnd ← p.add previous.address.toNat previous.length.toNat
    if previous.length ≠ 0 ∧ entry.address.toNat < previousEnd ∧ previous.address.toNat < stop then
      pure true
    else overlapsPrevious p entry stop rest

/-- The outer loop; `seen` is `entries[..index]`. -/
def validateFrom (p : Profile) (seen : List E820Entry) :
    List E820Entry → Exec σ (Except String Unit)
  | [] => pure (.ok ())
  | entry :: rest => do
    match checkedAdd entry.address.toNat entry.length.toNat with
    | none => pure (.error "E820 address overflow")
    | some stop =>
      if entry.length = 0 then validateFrom p (seen ++ [entry]) rest
      else if ← overlapsPrevious p entry stop seen then pure (.error "overlapping E820 ranges")
      else validateFrom p (seen ++ [entry]) rest

def validateEntries (p : Profile) (entries : List E820Entry) : Exec σ (Except String Unit) :=
  validateFrom p [] entries

/-- `entries[..count]`. -/
def MemoryMap.used (map : MemoryMap) : List E820Entry := map.entries.toList.take map.count

def anyUsable (p : Profile) (start stop : ℕ) : List E820Entry → Exec σ Bool
  | [] => pure false
  | entry :: rest => do
    if entry.kind = 1 ∧ entry.length ≠ 0 ∧ entry.address.toNat ≤ start then
      if stop ≤ (← p.add entry.address.toNat entry.length.toNat) then pure true
      else anyUsable p start stop rest
    else anyUsable p start stop rest

def MemoryMap.containsUsable (p : Profile) (map : MemoryMap) (start stop : ℕ) : Exec σ Bool :=
  if start < stop then anyUsable p start stop map.used else pure false

/-- Handoff buffers, early stack and VBE scratch, Loader, temporary page tables. -/
def bootstrapRanges : List (ℕ × ℕ) :=
  [(headerAddress, 0x5318), (0x6000, 0x10000), (0x10000, 0x20000), (0x90000, 0x93000)]

/-- `Result::expect` on a `Result<_, &str>`. -/
def expectOk {α : Type} (r : Except String α) (text : String) : Exec σ α :=
  match r with
  | .ok a => pure a
  | .error e => raise (text ++ ": " ++ e.quote)

def decodeMap (ram : Memory) (count : ℕ) : MemoryMap where
  entries := Vector.ofFn fun index =>
    if index.val < count then E820Entry.read ram (entriesAddress + index.val * 20) else .empty
  count := count

def readMemoryMap (p : Profile) (ram : Memory) : Exec σ MemoryMap := do
  let count ← expectOk (Header.read ram headerAddress).validate "E820 handoff rejected"
  let map := decodeMap ram count
  expectOk (← validateEntries p map.used) "E820 map rejected"
  bootstrapRanges.forM fun range => do
    require (← map.containsUsable p range.1 range.2) "bootstrap layout is not usable RAM"
  pure map

namespace E820Entry

/-- The end of the entry as an unbounded number. -/
def stop (e : E820Entry) : ℕ := e.address.toNat + e.length.toNat

/-- Two entries share no byte; an empty entry shares none with any. -/
def Apart (a b : E820Entry) : Prop :=
  a.length ≠ 0 → b.length ≠ 0 → a.stop ≤ b.address.toNat ∨ b.stop ≤ a.address.toNat

instance (a b : E820Entry) : Decidable (a.Apart b) :=
  inferInstanceAs (Decidable (_ → _ → _ ∨ _))

/-- A non-empty entry of ordinary RAM. -/
def Ram (e : E820Entry) : Prop := e.kind = 1 ∧ e.length ≠ 0

instance (e : E820Entry) : Decidable e.Ram := inferInstanceAs (Decidable (_ ∧ _))

def Covers (e : E820Entry) (start stop : ℕ) : Prop := e.address.toNat ≤ start ∧ stop ≤ e.stop

instance (e : E820Entry) (a b : ℕ) : Decidable (e.Covers a b) :=
  inferInstanceAs (Decidable (_ ∧ _))

theorem Apart.symm {a b : E820Entry} (h : a.Apart b) : b.Apart a :=
  fun hb ha => (h ha hb).symm

end E820Entry

/-- The entries on which `validateEntries` succeeds. -/
def EntriesValid (entries : List E820Entry) : Prop :=
  (∀ e ∈ entries, e.stop < 2 ^ 64) ∧ entries.Pairwise E820Entry.Apart

instance (entries : List E820Entry) : Decidable (EntriesValid entries) :=
  inferInstanceAs (Decidable (_ ∧ _))

/-- `start..stop` lies in one non-empty type-1 entry. -/
def Usable (entries : List E820Entry) (start stop : ℕ) : Prop :=
  start < stop ∧ ∃ e ∈ entries, e.Ram ∧ e.Covers start stop

instance (entries : List E820Entry) (a b : ℕ) : Decidable (Usable entries a b) :=
  inferInstanceAs (Decidable (_ ∧ _))

/-- What `readMemoryMap` has checked about a map it returns. -/
structure MemoryMap.Accepted (map : MemoryMap) : Prop where
  count_pos : 0 < map.count
  count_le : map.count ≤ maxEntries
  valid : EntriesValid map.used
  bootstrap : ∀ range ∈ bootstrapRanges, Usable map.used range.1 range.2

theorem MemoryMap.length_used {map : MemoryMap} (h : map.count ≤ maxEntries) :
    map.used.length = map.count := by
  rw [used, List.length_take, Vector.length_toList, Nat.min_eq_left h]

theorem overlapsPrevious_run (p : Profile) (entry : E820Entry) (seen : List E820Entry) (s : σ)
    (hseen : ∀ e ∈ seen, e.stop < 2 ^ 64) (hentry : entry.length ≠ 0) :
    (overlapsPrevious p entry entry.stop seen : Exec σ Bool).run s =
      .ok (decide (¬ ∀ e ∈ seen, e.Apart entry)) s := by
  induction seen with
  | nil => simp [overlapsPrevious]
  | cons previous rest ih =>
    have hsum : previous.address.toNat + previous.length.toNat < 2 ^ 64 :=
      hseen previous (by simp)
    simp only [overlapsPrevious, EStateM.run_bind, run_add p hsum]
    by_cases hover : previous.length ≠ 0 ∧ entry.address.toNat < previous.stop ∧
        previous.address.toNat < entry.stop
    · have hnot : ¬ previous.Apart entry := fun h => by
        have := h hover.1 hentry
        omega
      rw [if_pos (by exact hover), EStateM.run_pure]
      simp [hnot]
    · have hapart : previous.Apart entry := fun hp _ => by
        simp only [not_and_or, not_not] at hover
        rcases hover with h | h | h
        · exact absurd h hp
        · exact .inl (by omega)
        · exact .inr (by omega)
      rw [if_neg (by exact hover), ih fun e he => hseen e (by simp [he])]
      simp [hapart]

/-- The answer depends on the entries alone. -/
theorem validateFrom_run (seen rest : List E820Entry) (hseen : EntriesValid seen) :
    ∃ r, (∀ (p : Profile) (s : σ), (validateFrom p seen rest : Exec σ _).run s = .ok r s) ∧
      (r = .ok () ↔ EntriesValid (seen ++ rest)) := by
  induction rest generalizing seen with
  | nil => exact ⟨.ok (), fun _ _ => rfl, by simpa using hseen⟩
  | cons entry rest ih =>
    have hsplit : seen ++ entry :: rest = (seen ++ [entry]) ++ rest := by simp
    by_cases hend : entry.stop < 2 ^ 64
    · have hchecked : checkedAdd entry.address.toNat entry.length.toNat = some entry.stop :=
        checkedAdd_of_lt hend
      by_cases hzero : entry.length = 0
      · obtain ⟨r, hrun, hr⟩ := ih (seen ++ [entry]) ⟨by simpa [or_imp, forall_and] using ⟨hseen.1, hend⟩, by
          rw [List.pairwise_append]
          exact ⟨hseen.2, List.pairwise_singleton _ _, fun a _ b hb _ hb' => by
            rw [List.mem_singleton.mp hb] at hb'
            exact absurd hzero hb'⟩⟩
        rw [hsplit]
        refine ⟨r, fun p s => ?_, hr⟩
        rw [validateFrom, hchecked]
        simp only [if_pos hzero]
        exact hrun p s
      · by_cases hall : ∀ e ∈ seen, e.Apart entry
        · obtain ⟨r, hrun, hr⟩ := ih (seen ++ [entry])
            ⟨by simpa [or_imp, forall_and] using ⟨hseen.1, hend⟩, by
              rw [List.pairwise_append]
              exact ⟨hseen.2, List.pairwise_singleton _ _, by simpa using hall⟩⟩
          rw [hsplit]
          refine ⟨r, fun p s => ?_, hr⟩
          rw [validateFrom, hchecked]
          simp only [if_neg hzero]
          rw [run_bind_ok (overlapsPrevious_run p entry seen s hseen.1 hzero),
            decide_eq_false (not_not.mpr hall)]
          exact hrun p s
        · refine ⟨.error "overlapping E820 ranges", fun p s => ?_, ?_⟩
          · rw [validateFrom, hchecked]
            simp only [if_neg hzero]
            rw [run_bind_ok (overlapsPrevious_run p entry seen s hseen.1 hzero), decide_eq_true hall]
            rfl
          · simp only [reduceCtorEq, false_iff]
            intro hvalid
            have hcross := (List.pairwise_append.mp hvalid.2).2.2
            exact hall fun e he => hcross e he entry (by simp)
    · have hnone : checkedAdd entry.address.toNat entry.length.toNat = none := if_neg hend
      refine ⟨.error "E820 address overflow", fun p s => ?_, ?_⟩
      · rw [validateFrom, hnone]
        rfl
      · simp only [reduceCtorEq, false_iff]
        exact fun hvalid => hend (hvalid.1 entry (by simp))

theorem validateEntries_run (entries : List E820Entry) :
    ∃ r, (∀ (p : Profile) (s : σ), (validateEntries p entries : Exec σ _).run s = .ok r s) ∧
      (r = .ok () ↔ EntriesValid entries) :=
  validateFrom_run [] entries ⟨by simp, List.Pairwise.nil⟩

namespace E820Entry

/-- The entry holds the byte at `x`. -/
def HasByte (e : E820Entry) (x : ℕ) : Prop := e.address.toNat ≤ x ∧ x < e.stop

/-- Some byte lies in both entries. -/
def SharesByte (a b : E820Entry) : Prop := ∃ x, a.HasByte x ∧ b.HasByte x

theorem length_pos {e : E820Entry} (h : e.length ≠ 0) : 0 < e.length.toNat := by
  apply Nat.pos_of_ne_zero
  intro hzero
  exact h (BitVec.eq_of_toNat_eq hzero)

theorem apart_iff {a b : E820Entry} :
    a.Apart b ↔ (a.length ≠ 0 → b.length ≠ 0 → ¬ a.SharesByte b) := by
  constructor
  · rintro h ha hb ⟨x, ⟨h1, h2⟩, h3, h4⟩
    have := h ha hb
    omega
  · intro h ha hb
    by_contra hnot
    apply h ha hb
    have hapos := length_pos ha
    have hbpos := length_pos hb
    refine ⟨max a.address.toNat b.address.toNat, ⟨le_max_left _ _, ?_⟩, le_max_right _ _, ?_⟩ <;>
      unfold stop at hnot ⊢ <;> omega

theorem apart_empty {a e : E820Entry} (h : e.length = 0) : a.Apart e := fun _ he => absurd h he

end E820Entry

/-- Validity by positions: no entry wraps and no two non-empty ones share a byte. -/
theorem entriesValid_iff {entries : List E820Entry} : EntriesValid entries ↔
    (∀ e ∈ entries, e.address.toNat + e.length.toNat < 2 ^ 64) ∧
      ∀ (i j : ℕ) (a b : E820Entry), i ≠ j → entries[i]? = some a → entries[j]? = some b →
        a.length ≠ 0 → b.length ≠ 0 → ¬ a.SharesByte b := by
  unfold EntriesValid
  apply and_congr Iff.rfl
  rw [List.pairwise_iff_getElem]
  constructor
  · intro h i j a b hij ha hb
    obtain ⟨hi, rfl⟩ := List.getElem?_eq_some_iff.mp ha
    obtain ⟨hj, rfl⟩ := List.getElem?_eq_some_iff.mp hb
    rcases Nat.lt_or_gt_of_ne hij with hlt | hlt
    · exact E820Entry.apart_iff.mp (h i j hi hj hlt)
    · exact E820Entry.apart_iff.mp (h j i hj hi hlt).symm
  · intro h i j hi hj hlt
    apply E820Entry.apart_iff.mpr
    exact h i j _ _ (Nat.ne_of_lt hlt) (List.getElem?_eq_getElem hi) (List.getElem?_eq_getElem hj)

theorem EntriesValid.perm {entries entries' : List E820Entry} (h : entries.Perm entries') :
    EntriesValid entries ↔ EntriesValid entries' := by
  unfold EntriesValid
  rw [h.pairwise_iff E820Entry.Apart.symm]
  apply and_congr_left
  intro _
  exact forall_congr' fun e => by rw [h.mem_iff]

theorem EntriesValid.insert_empty {first rest : List E820Entry} {e : E820Entry} (he : e.length = 0) :
    EntriesValid (first ++ e :: rest) ↔ EntriesValid (first ++ rest) := by
  rw [EntriesValid.perm (List.perm_middle (a := e))]
  have hstop : e.stop < 2 ^ 64 := by
    rw [E820Entry.stop, he]
    exact e.address.isLt
  unfold EntriesValid
  rw [List.forall_mem_cons, List.pairwise_cons]
  constructor
  · rintro ⟨⟨-, h1⟩, -, h2⟩
    exact ⟨h1, h2⟩
  · rintro ⟨h1, h2⟩
    exact ⟨⟨hstop, h1⟩, fun a _ => (E820Entry.apart_empty he).symm, h2⟩

/-- Types play no part. -/
theorem EntriesValid.congr_ranges {entries entries' : List E820Entry}
    (h : entries.map (fun e => (e.address, e.length)) = entries'.map fun e => (e.address, e.length)) :
    EntriesValid entries ↔ EntriesValid entries' := by
  have hpairs : ∀ l : List E820Entry, EntriesValid l ↔
      (∀ r ∈ l.map fun e => (e.address, e.length), r.1.toNat + r.2.toNat < 2 ^ 64) ∧
        (l.map fun e => (e.address, e.length)).Pairwise fun r q =>
          E820Entry.Apart ⟨r.1, r.2, 0⟩ ⟨q.1, q.2, 0⟩ := by
    intro l
    unfold EntriesValid
    rw [List.pairwise_map, List.forall_mem_map]
    exact Iff.rfl
  rw [hpairs, hpairs, h]

/-- `validate_entries` returns on every list, in either profile, so its unchecked addition never
wraps. It accepts exactly the lists without a wrapping entry and without a byte in two non-empty
entries, whatever the order, the empty entries and the types; touching ranges are accepted. -/
theorem validateEntries_accepts (entries : List E820Entry) :
    ∃ r, (∀ (p : Profile) (s : σ), (validateEntries p entries : Exec σ _).run s = .ok r s) ∧
      (r = .ok () ↔ (∀ e ∈ entries, e.address.toNat + e.length.toNat < 2 ^ 64) ∧
        ∀ (i j : ℕ) (a b : E820Entry), i ≠ j → entries[i]? = some a → entries[j]? = some b →
          a.length ≠ 0 → b.length ≠ 0 → ¬ a.SharesByte b) ∧
      (∀ (p : Profile) (s : σ) (entries' : List E820Entry), entries.Perm entries' ∨
          (∃ first rest e, e.length = 0 ∧ (entries = first ++ rest ∧ entries' = first ++ e :: rest ∨
            entries = first ++ e :: rest ∧ entries' = first ++ rest)) ∨
          entries.map (fun e => (e.address, e.length)) =
            entries'.map (fun e => (e.address, e.length)) →
        ((validateEntries p entries' : Exec σ _).run s = .ok (.ok ()) s ↔ r = .ok ())) ∧
      ((∀ e ∈ entries, e.address.toNat + e.length.toNat < 2 ^ 64) →
        entries.Pairwise (fun a b => a.stop ≤ b.address.toNat ∨ b.stop ≤ a.address.toNat) →
        r = .ok ()) := by
  obtain ⟨r, hrun, hr⟩ := validateEntries_run entries
  refine ⟨r, hrun, hr.trans entriesValid_iff, ?_, ?_⟩
  · intro p s entries' hchange
    have hsame : EntriesValid entries ↔ EntriesValid entries' := by
      rcases hchange with h | ⟨first, rest, e, he, ⟨rfl, rfl⟩ | ⟨rfl, rfl⟩⟩ | h
      · exact EntriesValid.perm h
      · exact (EntriesValid.insert_empty he).symm
      · exact EntriesValid.insert_empty he
      · exact EntriesValid.congr_ranges h
    obtain ⟨r', hrun', hr'⟩ := validateEntries_run entries'
    rw [hrun' p s, hr, hsame, ← hr']
    constructor
    · intro h
      cases h
      rfl
    · intro h
      rw [h]
  · intro hstop htouching
    exact hr.mpr ⟨hstop, htouching.imp fun h _ _ => h⟩

theorem anyUsable_run (p : Profile) (start stop : ℕ) (entries : List E820Entry) (s : σ)
    (h : ∀ e ∈ entries, e.stop < 2 ^ 64) :
    (anyUsable p start stop entries : Exec σ Bool).run s =
      .ok (decide (∃ e ∈ entries, e.Ram ∧ e.Covers start stop)) s := by
  induction entries with
  | nil => simp [anyUsable]
  | cons entry rest ih =>
    have hsum : entry.address.toNat + entry.length.toNat < 2 ^ 64 := h entry (by simp)
    have hrest := ih fun e he => h e (by simp [he])
    rw [anyUsable]
    by_cases hlow : entry.kind = 1 ∧ entry.length ≠ 0 ∧ entry.address.toNat ≤ start
    · simp only [if_pos hlow, EStateM.run_bind, run_add p hsum]
      by_cases hstop : stop ≤ entry.stop
      · have hc : entry.Ram ∧ entry.Covers start stop :=
          ⟨⟨hlow.1, hlow.2.1⟩, hlow.2.2, hstop⟩
        rw [if_pos (by exact hstop), EStateM.run_pure]
        simp [hc]
      · have hc : ¬ (entry.Ram ∧ entry.Covers start stop) := fun hc => hstop hc.2.2
        rw [if_neg (by exact hstop), hrest]
        simp [hc]
    · have hc : ¬ (entry.Ram ∧ entry.Covers start stop) :=
        fun hc => hlow ⟨hc.1.1, hc.1.2, hc.2.1⟩
      rw [if_neg hlow, hrest]
      simp [hc]

theorem MemoryMap.containsUsable_run (p : Profile) (map : MemoryMap) (start stop : ℕ) (s : σ)
    (h : ∀ e ∈ map.used, e.stop < 2 ^ 64) :
    (map.containsUsable p start stop : Exec σ Bool).run s =
      .ok (decide (Usable map.used start stop)) s := by
  rw [containsUsable]
  by_cases hlt : start < stop
  · rw [if_pos hlt, anyUsable_run p start stop map.used s h]
    simp [Usable, hlt]
  · rw [if_neg hlt, EStateM.run_pure]
    simp [Usable, hlt]

theorem Header.validate_eq_ok {h : Header} {n : ℕ} :
    h.validate = .ok n ↔ h.magic = headerMagic ∧ h.version = 1 ∧ h.entrySize = 20 ∧
      h.capacity.toNat = maxEntries ∧ h.flags = 1 ∧ h.count.toNat = n ∧ 0 < n ∧ n ≤ maxEntries := by
  have hcount : h.count = 0 ↔ h.count.toNat = 0 := by
    rw [← BitVec.toNat_inj]
    rfl
  unfold validate
  split_ifs with h1 h2
  · refine iff_of_false (by simp) ?_
    rintro ⟨a, b, c, d, e, -⟩
    simp [a, b, c, d, e] at h1
  · refine iff_of_false (by simp) ?_
    rintro ⟨-, -, -, -, -, a, b, c⟩
    rw [hcount] at h2
    omega
  · simp only [not_or, not_not] at h1
    rw [hcount, not_or] at h2
    simp only [Except.ok.injEq]
    constructor
    · rintro rfl
      exact ⟨h1.1, h1.2.1, h1.2.2.1, h1.2.2.2.1, h1.2.2.2.2, rfl, by omega, by omega⟩
    · exact fun h => h.2.2.2.2.2.1

theorem bootstrap_run (p : Profile) (map : MemoryMap) (ranges : List (ℕ × ℕ)) (s : σ)
    (h : ∀ e ∈ map.used, e.stop < 2 ^ 64) :
    (ranges.forM fun range => do
        require (← map.containsUsable p range.1 range.2)
          "bootstrap layout is not usable RAM" : Exec σ Unit).run s =
      if ∀ range ∈ ranges, Usable map.used range.1 range.2 then .ok () s
      else .error (.message "bootstrap layout is not usable RAM") s := by
  induction ranges with
  | nil => rfl
  | cons range rest ih =>
    rw [List.forM, EStateM.run_bind, EStateM.run_bind,
      map.containsUsable_run p range.1 range.2 s h]
    by_cases hrange : Usable map.used range.1 range.2
    · simp only [hrange, decide_true, run_require, List.forall_mem_cons, true_and]
      exact ih
    · simp only [hrange, decide_false, List.forall_mem_cons, false_and, if_false]
      rfl

/-- The kernel goes on exactly with the maps whose header and entries pass every check, and
reading them changes no state. -/
theorem readMemoryMap_eq_ok {p : Profile} {ram : Memory} {s t : σ} {map : MemoryMap} :
    (readMemoryMap p ram : Exec σ MemoryMap).run s = .ok map t ↔
      t = s ∧ (∃ n, (Header.read ram headerAddress).validate = .ok n ∧ map = decodeMap ram n) ∧
        map.Accepted := by
  rw [readMemoryMap, EStateM.run_bind]
  cases hv : (Header.read ram headerAddress).validate with
  | error e =>
    refine iff_of_false (by simp [expectOk]) ?_
    rintro ⟨-, ⟨n, hn, -⟩, -⟩
    cases hn
  | ok n =>
    obtain ⟨-, -, -, -, -, -, hpos, hle⟩ := Header.validate_eq_ok.mp hv
    obtain ⟨r, hall, hiff⟩ := validateEntries_run (decodeMap ram n).used
    have hr : (validateEntries p (decodeMap ram n).used : Exec σ _).run s = .ok r s := hall p s
    simp only [expectOk, EStateM.run_pure, EStateM.run_bind, hr]
    cases r with
    | error e =>
      refine iff_of_false (by simp) ?_
      rintro ⟨-, ⟨m, hm, rfl⟩, hacc⟩
      rw [← Except.ok.inj hm] at hacc
      exact absurd (hiff.mpr hacc.valid) (by simp)
    | ok u =>
      have hvalid := hiff.mp rfl
      simp only [EStateM.run_pure, bootstrap_run p _ bootstrapRanges s hvalid.1]
      by_cases hboot : ∀ range ∈ bootstrapRanges, Usable (decodeMap ram n).used range.1 range.2
      · rw [if_pos hboot]
        simp only [EStateM.Result.ok.injEq]
        constructor
        · rintro ⟨rfl, rfl⟩
          exact ⟨rfl, ⟨n, rfl, rfl⟩, hpos, hle, hvalid, hboot⟩
        · rintro ⟨rfl, ⟨m, hm, rfl⟩, -⟩
          rw [Except.ok.inj hm]
          exact ⟨rfl, rfl⟩
      · rw [if_neg hboot]
        refine iff_of_false (by simp) ?_
        rintro ⟨-, ⟨m, hm, rfl⟩, hacc⟩
        rw [← Except.ok.inj hm] at hacc
        exact hboot hacc.bootstrap

end MikoOS
