import MikoOS.Library.ByteMemory

/-!
# Four-level page translation

`walk ram root v` translates the virtual address `v` through the x86-64 tables rooted at `root` in
byte memory: present, user and writable are conjunctions over the levels, no-execute is a
disjunction, and a large entry ends the walk at 2 MiB or 1 GiB. Reserved bits and the TLB are left
out.
-/

namespace PageWalk

open ByteMemory

def present (e : BitVec 64) : Bool := e.getLsbD 0
def large (e : BitVec 64) : Bool := e.getLsbD 7

/-- Bits 51..12 of an entry. -/
def frame (e : BitVec 64) : ℕ := (e &&& 0x000ffffffffff000#64).toNat

structure Rights where
  user : Bool
  writable : Bool
  noExecute : Bool
  deriving DecidableEq, Repr

def Rights.full : Rights := ⟨true, true, false⟩

def Rights.ofEntry (e : BitVec 64) : Rights := ⟨e.getLsbD 2, e.getLsbD 1, e.getLsbD 63⟩

def Rights.meet (r q : Rights) : Rights :=
  ⟨r.user && q.user, r.writable && q.writable, r.noExecute || q.noExecute⟩

structure Translation where
  physical : ℕ
  rights : Rights
  deriving DecidableEq, Repr

/-- The bytes an entry of table level `level` spans, the page tables being level 0. -/
def spanOf (level : ℕ) : ℕ := 2 ^ (12 + 9 * level)

def entryAt (ram : Memory) (table index : ℕ) : BitVec 64 := load64 ram (table + 8 * index)

def lookup (ram : Memory) (level table v : ℕ) : BitVec 64 :=
  entryAt ram table (v / spanOf level % 512)

def page (e : BitVec 64) (level v : ℕ) (r : Rights) : Translation :=
  ⟨frame e / spanOf level * spanOf level + v % spanOf level, r.meet (.ofEntry e)⟩

def walkFrom (ram : Memory) (v : ℕ) : ℕ → ℕ → Rights → Option Translation
  | 0, table, r =>
    let e := lookup ram 0 table v
    if present e then some (page e 0 v r) else none
  | level + 1, table, r =>
    let e := lookup ram (level + 1) table v
    if present e then
      if large e ∧ level < 2 then some (page e (level + 1) v r)
      else walkFrom ram v level (frame e) (r.meet (.ofEntry e))
    else none

/-- The translation of `v` under the tables rooted at physical address `root`. -/
def walk (ram : Memory) (root v : ℕ) : Option Translation := walkFrom ram v 3 root .full

/-- A 48-bit address, sign-extended. -/
def Canonical (v : ℕ) : Prop := v < 2 ^ 47 ∨ 2 ^ 64 - 2 ^ 47 ≤ v ∧ v < 2 ^ 64

instance : DecidablePred Canonical := fun v =>
  inferInstanceAs (Decidable (v < 2 ^ 47 ∨ 2 ^ 64 - 2 ^ 47 ≤ v ∧ v < 2 ^ 64))

variable {ram : Memory} {v level table : ℕ} {r : Rights} {e : BitVec 64}

theorem frame_of_lt (h : e.toNat < 2 ^ 52) : frame e = e.toNat / 2 ^ 12 * 2 ^ 12 := by
  refine Nat.eq_of_testBit_eq fun j => ?_
  rw [frame, BitVec.toNat_and, Nat.testBit_and, Nat.testBit_mul_two_pow, Nat.testBit_div_two_pow,
    show (0x000ffffffffff000#64).toNat = (2 ^ 40 - 1) <<< 12 by decide, Nat.testBit_shiftLeft,
    Nat.testBit_two_pow_sub_one]
  by_cases hj : 12 ≤ j
  · by_cases hhigh : j < 52
    · simp [hj, show j - 12 < 40 by omega]
    · have : e.toNat.testBit j = false :=
        Nat.testBit_lt_two_pow (h.trans_le (Nat.pow_le_pow_right (by decide) (by omega)))
      simp [this, hj]
  · simp [hj]

theorem walkFrom_absent (h : lookup ram level table v = e) (hp : present e = false) :
    walkFrom ram v level table r = none := by
  cases level with
  | zero => rw [walkFrom, h, if_neg (by simp [hp])]
  | succ level => rw [walkFrom, h, if_neg (by simp [hp])]

theorem walkFrom_table (h : lookup ram (level + 1) table v = e) (hp : present e = true)
    (hl : large e = false) :
    walkFrom ram v (level + 1) table r = walkFrom ram v level (frame e) (r.meet (.ofEntry e)) := by
  rw [walkFrom, h, if_pos hp, if_neg (by simp [hl])]

theorem walkFrom_large (h : lookup ram (level + 1) table v = e) (hp : present e = true)
    (hl : large e = true) (hlevel : level < 2) :
    walkFrom ram v (level + 1) table r = some (page e (level + 1) v r) := by
  rw [walkFrom, h, if_pos hp, if_pos ⟨hl, hlevel⟩]

theorem walkFrom_page (h : lookup ram 0 table v = e) (hp : present e = true) :
    walkFrom ram v 0 table r = some (page e 0 v r) := by
  rw [walkFrom, h, if_pos hp]

theorem meet_user {r q : Rights} (h : (r.meet q).user = true) :
    r.user = true ∧ q.user = true := by simpa [Rights.meet] using h

theorem user_of_walkFrom {t : Translation} (h : walkFrom ram v level table r = some t)
    (hu : t.rights.user = true) :
    r.user = true ∧ (Rights.ofEntry (lookup ram level table v)).user = true := by
  induction level generalizing table r with
  | zero =>
    rw [walkFrom] at h
    split at h
    · rw [← Option.some.inj h] at hu
      exact meet_user hu
    · cases h
  | succ level ih =>
    rw [walkFrom] at h
    split at h
    · split at h
      · rw [← Option.some.inj h] at hu
        exact meet_user hu
      · exact meet_user (ih h).1
    · cases h

/-- The entry for the frame at `a` with the bits `flags` besides. -/
def entryFor (a : ℕ) (flags : BitVec 64) : BitVec 64 := BitVec.ofNat 64 a ||| flags

/-- A frame address an entry can hold. -/
def Framed (a : ℕ) : Prop := 2 ^ 12 ∣ a ∧ a < 2 ^ 52

variable {a : ℕ} {flags : BitVec 64}

theorem frame_entryFor (h : Framed a) (hflags : flags &&& 0x000ffffffffff000#64 = 0#64) :
    frame (entryFor a flags) = a := by
  have hlt : a < 2 ^ 64 := h.2.trans (by decide)
  have hnat : (BitVec.ofNat 64 a).toNat = a := by rw [BitVec.toNat_ofNat, Nat.mod_eq_of_lt hlt]
  have hself : frame (BitVec.ofNat 64 a) = a := by
    rw [frame_of_lt (by rw [hnat]; exact h.2), hnat]
    exact Nat.div_mul_cancel h.1
  have hor : entryFor a flags &&& 0x000ffffffffff000#64 =
      BitVec.ofNat 64 a &&& 0x000ffffffffff000#64 := by
    rw [entryFor, BitVec.and_comm, BitVec.and_or_distrib_left, BitVec.and_comm _ flags, hflags,
      BitVec.or_zero, BitVec.and_comm]
  rw [frame, hor]
  exact hself

/-- Outside the frame an entry has the bits of its flags. -/
theorem getLsbD_entryFor (h : Framed a) {j : ℕ} (hj : j < 12 ∨ 52 ≤ j) :
    (entryFor a flags).getLsbD j = flags.getLsbD j := by
  obtain ⟨⟨n, rfl⟩, hlt⟩ := h
  have hbit : (BitVec.ofNat 64 (2 ^ 12 * n)).getLsbD j = false := by
    rw [BitVec.getLsbD_ofNat]
    rcases hj with hj | hj
    · rw [Nat.testBit_two_pow_mul]
      simp [show ¬ 12 ≤ j by omega]
    · rw [Nat.testBit_lt_two_pow (hlt.trans_le (Nat.pow_le_pow_right (by decide) hj)),
        Bool.and_false]
  rw [entryFor, BitVec.getLsbD_or, hbit, Bool.false_or]

theorem present_entryFor (h : Framed a) : present (entryFor a flags) = present flags :=
  getLsbD_entryFor h (by decide)

theorem large_entryFor (h : Framed a) : large (entryFor a flags) = large flags :=
  getLsbD_entryFor h (by decide)

theorem ofEntry_entryFor (h : Framed a) : Rights.ofEntry (entryFor a flags) = .ofEntry flags := by
  unfold Rights.ofEntry
  rw [getLsbD_entryFor h (by decide), getLsbD_entryFor h (by decide),
    getLsbD_entryFor h (by decide)]

section Tables

variable {ι : Type} {place : ι → ℕ} {T : ι → ℕ → BitVec 64}

/-- Table `k` lies at `place k` and holds the entries `T k`. -/
def Holds (place : ι → ℕ) (T : ι → ℕ → BitVec 64) (ram : Memory) : Prop :=
  ∀ k, ∀ i < 512, entryAt ram (place k) i = T k i

/-- The contents `T` with entry `i` of table `k` replaced by `e`. -/
def setEntry [DecidableEq ι] (T : ι → ℕ → BitVec 64) (k : ι) (i : ℕ) (e : BitVec 64) :
    ι → ℕ → BitVec 64 :=
  fun j n => if j = k ∧ n = i then e else T j n

def Apart (place : ι → ℕ) : Prop :=
  ∀ j k, j ≠ k → place j + 4096 ≤ place k ∨ place k + 4096 ≤ place j

theorem Holds.lookup (h : Holds place T ram) (k : ι) (level v : ℕ) :
    lookup ram level (place k) v = T k (v / spanOf level % 512) :=
  h k _ (Nat.mod_lt _ (by decide))

theorem Holds.congr (h : Holds place T ram) {ram' : Memory}
    (hsame : ∀ k x, place k ≤ x → x < place k + 4096 → ram' x = ram x) :
    Holds place T ram' := by
  intro k i hi
  rw [← h k i hi]
  apply load64_congr
  intro j hj
  exact hsame k _ (by omega) (by omega)

theorem Holds.store64 [DecidableEq ι] (h : Holds place T ram) (hapart : Apart place) (k : ι) {i : ℕ}
    (hi : i < 512) (e : BitVec 64) :
    Holds place (setEntry T k i e) (store64 ram (place k + 8 * i) e) := by
  intro j n hn
  unfold setEntry
  by_cases hjk : j = k
  · subst hjk
    by_cases hni : n = i
    · subst hni
      rw [if_pos ⟨rfl, rfl⟩]
      exact load64_store64 ram _ e
    · rw [if_neg fun h => hni h.2, ← h j n hn]
      exact load64_store64_outside (by omega)
  · rw [if_neg fun h => hjk h.1, ← h j n hn]
    have := hapart j k hjk
    exact load64_store64_outside (by omega)

end Tables

end PageWalk
