import Mathlib

/-!
# Byte-addressed memory

A memory maps every natural address to a byte. Wider values are little-endian: `load m a n` is the
number held in the `n` bytes from `a`, and `store` is its inverse on those bytes. Every writer has
the same frame: addresses outside its range keep their byte.
-/

namespace ByteMemory

abbrev Memory := ℕ → BitVec 8

/-- The little-endian number in the `n` bytes starting at `a`. -/
def load (m : Memory) (a : ℕ) : ℕ → ℕ
  | 0 => 0
  | n + 1 => (m a).toNat + 256 * load m (a + 1) n

def store (m : Memory) (a n v : ℕ) : Memory := fun x =>
  if a ≤ x ∧ x < a + n then BitVec.ofNat 8 (v / 256 ^ (x - a)) else m x

def fill (m : Memory) (a n : ℕ) (b : BitVec 8) : Memory := fun x =>
  if a ≤ x ∧ x < a + n then b else m x

/-- The `n` bytes from `src` placed at `dst`, the source being read before any byte changes. -/
def copy (m : Memory) (dst src n : ℕ) : Memory := fun x =>
  if dst ≤ x ∧ x < dst + n then m (src + (x - dst)) else m x

/-- `rep movsb` with the direction flag clear: one byte after the other. -/
def copyForward (m : Memory) (dst src : ℕ) : ℕ → Memory
  | 0 => m
  | n + 1 => copyForward (store m dst 1 (m src).toNat) (dst + 1) (src + 1) n

def write (m : Memory) (a : ℕ) (bytes : List (BitVec 8)) : Memory := fun x =>
  if a ≤ x ∧ x < a + bytes.length then bytes.getD (x - a) 0 else m x

variable {m m' : Memory} {a b n k v x : ℕ}

theorem store_outside (h : x < a ∨ a + n ≤ x) : store m a n v x = m x :=
  if_neg (by omega)

theorem fill_outside {c : BitVec 8} (h : x < a ∨ a + n ≤ x) : fill m a n c x = m x :=
  if_neg (by omega)

theorem copy_outside (h : x < a ∨ a + n ≤ x) : copy m a b n x = m x :=
  if_neg (by omega)

theorem write_outside {bytes : List (BitVec 8)} (h : x < a ∨ a + bytes.length ≤ x) :
    write m a bytes x = m x :=
  if_neg (by omega)

theorem fill_inside {c : BitVec 8} (h : a ≤ x ∧ x < a + n) : fill m a n c x = c := if_pos h

theorem copy_inside (h : a ≤ x ∧ x < a + n) : copy m a b n x = m (b + (x - a)) := if_pos h

theorem write_inside {bytes : List (BitVec 8)} (h : a ≤ x ∧ x < a + bytes.length) :
    write m a bytes x = bytes.getD (x - a) 0 := if_pos h

theorem store_byte (m : Memory) (a : ℕ) (v : BitVec 8) : store m a 1 v.toNat a = v := by
  rw [store, if_pos (by omega), Nat.sub_self, pow_zero, Nat.div_one, BitVec.ofNat_toNat,
    BitVec.setWidth_eq]

/-- Between disjoint ranges the order of the bytes does not matter. -/
theorem copyForward_eq_copy (h : b + n ≤ a ∨ a + n ≤ b) : copyForward m a b n = copy m a b n := by
  induction n generalizing m a b with
  | zero =>
    funext x
    rw [copyForward, copy, if_neg (by omega)]
  | succ n ih =>
    funext x
    rw [copyForward, ih (by omega)]
    by_cases hx : a + 1 ≤ x ∧ x < a + 1 + n
    · rw [copy_inside hx, copy_inside (by omega), store_outside (by omega)]
      congr 1
      omega
    · rw [copy_outside (by omega)]
      by_cases hxa : x = a
      · rw [hxa, store_byte, copy_inside (by omega), Nat.sub_self, Nat.add_zero]
      · rw [store_outside (by omega), copy_outside (by omega)]

theorem load_congr (h : ∀ i < n, m (a + i) = m' (b + i)) : load m a n = load m' b n := by
  induction n generalizing a b with
  | zero => rfl
  | succ n ih =>
    have h0 : m a = m' b := h 0 (Nat.succ_pos n)
    have hrest : load m (a + 1) n = load m' (b + 1) n := ih fun i hi => by
      have := h (i + 1) (by omega)
      rwa [← Nat.add_assoc, ← Nat.add_assoc, Nat.add_right_comm, Nat.add_right_comm b] at this
    rw [load, load, h0, hrest]

theorem load_lt (m : Memory) (a n : ℕ) : load m a n < 256 ^ n := by
  induction n generalizing a with
  | zero => exact Nat.one_pos
  | succ n ih =>
    have hb : (m a).toNat < 256 := (m a).isLt
    have := ih (a + 1)
    rw [load, pow_succ]
    omega

theorem load_eq_zero (h : ∀ i < n, m (a + i) = 0) : load m a n = 0 := by
  induction n generalizing a with
  | zero => rfl
  | succ n ih =>
    have h0 : m a = 0 := h 0 (Nat.succ_pos n)
    have hrest : load m (a + 1) n = 0 := ih fun i hi => by
      have := h (i + 1) (by omega)
      rwa [← Nat.add_assoc, Nat.add_right_comm] at this
    rw [load, h0, hrest]
    rfl

/-- Reading back the range just written gives the value, cut to the range's width. -/
theorem load_store_same (m : Memory) (a n v : ℕ) : load (store m a n v) a n = v % 256 ^ n := by
  induction n generalizing m a v with
  | zero => rw [load, pow_zero, Nat.mod_one]
  | succ n ih =>
    have hbyte : store m a (n + 1) v a = BitVec.ofNat 8 v := by
      rw [store, if_pos (by omega), Nat.sub_self, pow_zero, Nat.div_one]
    have hrest : load (store m a (n + 1) v) (a + 1) n = v / 256 % 256 ^ n := by
      rw [← ih m (a + 1) (v / 256)]
      refine load_congr fun i hi => ?_
      rw [store, store, if_pos (by omega), if_pos (by omega), Nat.div_div_eq_div_mul,
        show a + 1 + i - a = (a + 1 + i - (a + 1)) + 1 by omega, pow_succ']
    rw [load, hbyte, hrest, BitVec.toNat_ofNat, pow_succ' 256 n, Nat.mod_mul]

theorem load_store_outside (h : b + k ≤ a ∨ a + n ≤ b) : load (store m a n v) b k = load m b k :=
  load_congr fun i hi => store_outside (by omega)

/-- A number is its low bytes and its high bytes. -/
theorem load_add (m : Memory) (a n k : ℕ) :
    load m a (n + k) = load m a n + 256 ^ n * load m (a + n) k := by
  induction n generalizing a with
  | zero => rw [Nat.zero_add, load, pow_zero, Nat.zero_add, Nat.one_mul, Nat.add_zero]
  | succ n ih =>
    have hplace : a + (n + 1) = a + 1 + n := by omega
    rw [Nat.add_right_comm, load, ih, load, hplace, pow_succ']
    ring

def load16 (m : Memory) (a : ℕ) : BitVec 16 := BitVec.ofNat 16 (load m a 2)
def load32 (m : Memory) (a : ℕ) : BitVec 32 := BitVec.ofNat 32 (load m a 4)
def load64 (m : Memory) (a : ℕ) : BitVec 64 := BitVec.ofNat 64 (load m a 8)

def store8 (m : Memory) (a : ℕ) (v : BitVec 8) : Memory := store m a 1 v.toNat
def store16 (m : Memory) (a : ℕ) (v : BitVec 16) : Memory := store m a 2 v.toNat
def store32 (m : Memory) (a : ℕ) (v : BitVec 32) : Memory := store m a 4 v.toNat
def store64 (m : Memory) (a : ℕ) (v : BitVec 64) : Memory := store m a 8 v.toNat

@[simp] theorem load16_store16 (m : Memory) (a : ℕ) (v : BitVec 16) :
    load16 (store16 m a v) a = v := by
  rw [load16, store16, load_store_same, Nat.mod_eq_of_lt (show v.toNat < 256 ^ 2 from v.isLt),
    BitVec.ofNat_toNat, BitVec.setWidth_eq]

@[simp] theorem load32_store32 (m : Memory) (a : ℕ) (v : BitVec 32) :
    load32 (store32 m a v) a = v := by
  rw [load32, store32, load_store_same, Nat.mod_eq_of_lt (show v.toNat < 256 ^ 4 from v.isLt),
    BitVec.ofNat_toNat, BitVec.setWidth_eq]

@[simp] theorem load64_store64 (m : Memory) (a : ℕ) (v : BitVec 64) :
    load64 (store64 m a v) a = v := by
  rw [load64, store64, load_store_same, Nat.mod_eq_of_lt (show v.toNat < 256 ^ 8 from v.isLt),
    BitVec.ofNat_toNat, BitVec.setWidth_eq]

theorem load64_congr (h : ∀ i < 8, m (a + i) = m' (b + i)) : load64 m a = load64 m' b := by
  rw [load64, load64, load_congr h]

theorem load32_congr (h : ∀ i < 4, m (a + i) = m' (b + i)) : load32 m a = load32 m' b := by
  rw [load32, load32, load_congr h]

theorem load16_congr (h : ∀ i < 2, m (a + i) = m' (b + i)) : load16 m a = load16 m' b := by
  rw [load16, load16, load_congr h]

theorem load64_store64_outside {v : BitVec 64} (h : b + 8 ≤ a ∨ a + 8 ≤ b) :
    load64 (store64 m a v) b = load64 m b :=
  load64_congr fun i hi => store_outside (by omega)

theorem load64_store32_outside {v : BitVec 32} (h : b + 8 ≤ a ∨ a + 4 ≤ b) :
    load64 (store32 m a v) b = load64 m b :=
  load64_congr fun i hi => store_outside (by omega)

theorem load32_store32_outside {v : BitVec 32} (h : b + 4 ≤ a ∨ a + 4 ≤ b) :
    load32 (store32 m a v) b = load32 m b :=
  load32_congr fun i hi => store_outside (by omega)

theorem load32_store16_outside {v : BitVec 16} (h : b + 4 ≤ a ∨ a + 2 ≤ b) :
    load32 (store16 m a v) b = load32 m b :=
  load32_congr fun i hi => store_outside (by omega)

theorem load16_store32_outside {v : BitVec 32} (h : b + 2 ≤ a ∨ a + 4 ≤ b) :
    load16 (store32 m a v) b = load16 m b :=
  load16_congr fun i hi => store_outside (by omega)

theorem load16_store16_outside {v : BitVec 16} (h : b + 2 ≤ a ∨ a + 2 ≤ b) :
    load16 (store16 m a v) b = load16 m b :=
  load16_congr fun i hi => store_outside (by omega)

theorem store64_outside {v : BitVec 64} (h : x < a ∨ a + 8 ≤ x) : store64 m a v x = m x :=
  store_outside h

theorem load32_fill_zero (h : a ≤ b ∧ b + 4 ≤ a + n) : load32 (fill m a n 0) b = 0 := by
  rw [load32, load_eq_zero fun i hi => fill_inside (by omega)]
  rfl

theorem load16_fill_zero (h : a ≤ b ∧ b + 2 ≤ a + n) : load16 (fill m a n 0) b = 0 := by
  rw [load16, load_eq_zero fun i hi => fill_inside (by omega)]
  rfl

theorem store8_self (m : Memory) (a : ℕ) (v : BitVec 8) : store8 m a v a = v := by
  rw [store8, store_byte]

theorem store8_outside {v : BitVec 8} (h : x ≠ a) : store8 m a v x = m x :=
  store_outside (by omega)

end ByteMemory
