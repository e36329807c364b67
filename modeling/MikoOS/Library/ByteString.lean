import MikoOS.Library.ByteMemory

/-!
# Byte strings

Slices, slice assignment and little-endian numbers of byte strings, as a scripting language has
them: a slice that runs past the end is cut. Bit `i` of a string is bit `i % 8` of byte `i / 8`, so
a field of any width at any offset is a range of bits.
-/

namespace ByteString

abbrev Bytes := List (BitVec 8)

/-- `xs[a:b]`. -/
def slice {α : Type} (xs : List α) (a b : ℕ) : List α := (xs.drop a).take (b - a)

/-- `xs` after `xs[a:b] = ys`. -/
def splice {α : Type} (xs : List α) (a b : ℕ) (ys : List α) : List α := xs.take a ++ ys ++ xs.drop b

def fromLittle : Bytes → ℕ
  | [] => 0
  | b :: bs => b.toNat + 256 * fromLittle bs

/-- The `n` low bytes of `v`. -/
def toLittle : ℕ → ℕ → Bytes
  | 0, _ => []
  | n + 1, v => BitVec.ofNat 8 v :: toLittle n (v / 256)

def bit (xs : Bytes) (i : ℕ) : Bool := (xs.getD (i / 8) 0).getLsbD (i % 8)

variable {α : Type} {xs ys : List α} {bs : Bytes} {a b i n v : ℕ}

theorem getElem?_slice : (slice xs a b)[i]? = if i < b - a then xs[a + i]? else none := by
  rw [slice, List.getElem?_take, List.getElem?_drop]

theorem length_slice : (slice xs a b).length = min (b - a) (xs.length - a) := by
  rw [slice, List.length_take, List.length_drop]

theorem length_slice_of_le (h : b ≤ xs.length) : (slice xs a b).length = b - a := by
  rw [length_slice]
  omega

theorem slice_slice {c d : ℕ} (h : a + d ≤ b) : slice (slice xs a b) c d = slice xs (a + c) (a + d) := by
  apply List.ext_getElem?
  intro i
  rw [getElem?_slice, getElem?_slice, getElem?_slice]
  by_cases hi : i < d - c
  · rw [if_pos hi, if_pos (by omega), if_pos (by omega), Nat.add_assoc]
  · rw [if_neg hi, if_neg (by omega)]

theorem length_splice (ha : a ≤ xs.length) (hb : a + ys.length = b) (hle : b ≤ xs.length) :
    (splice xs a b ys).length = xs.length := by
  rw [splice, List.length_append, List.length_append, List.length_take, List.length_drop]
  omega

/-- Assigning a slice of the same length. -/
theorem getElem?_splice (hb : a + ys.length = b) (hle : b ≤ xs.length) :
    (splice xs a b ys)[i]? = if a ≤ i ∧ i < b then ys[i - a]? else xs[i]? := by
  have htake : (xs.take a).length = a := by
    rw [List.length_take]
    omega
  rw [splice, List.append_assoc, List.getElem?_append, htake]
  by_cases hlow : i < a
  · rw [if_pos hlow, if_neg (by omega), List.getElem?_take, if_pos hlow]
  · rw [if_neg hlow, List.getElem?_append]
    by_cases hin : i < b
    · rw [if_pos (by omega), if_pos (by omega)]
    · rw [if_neg (by omega), if_neg (by omega), List.getElem?_drop]
      congr 1
      omega

theorem slice_splice_same (hb : a + ys.length = b) (hle : b ≤ xs.length) :
    slice (splice xs a b ys) a b = ys := by
  apply List.ext_getElem?
  intro i
  rw [getElem?_slice, getElem?_splice hb hle]
  by_cases hi : i < b - a
  · rw [if_pos hi, if_pos (by omega), Nat.add_sub_cancel_left]
  · rw [if_neg hi, List.getElem?_eq_none (by omega)]

theorem slice_splice_outside {c d : ℕ} (hb : a + ys.length = b) (hle : b ≤ xs.length)
    (h : d ≤ a ∨ b ≤ c) : slice (splice xs a b ys) c d = slice xs c d := by
  apply List.ext_getElem?
  intro i
  rw [getElem?_slice, getElem?_slice]
  by_cases hi : i < d - c
  · rw [if_pos hi, if_pos hi, getElem?_splice hb hle, if_neg (by omega)]
  · rw [if_neg hi, if_neg hi]

theorem slice_append {c : ℕ} (hab : a ≤ b) (hbc : b ≤ c) : slice xs a b ++ slice xs b c = slice xs a c := by
  have hlength : c - a = (b - a) + (c - b) := by omega
  have hdrop : (xs.drop a).drop (b - a) = xs.drop b := by
    rw [List.drop_drop, Nat.add_sub_cancel' hab]
  rw [slice, slice, slice, hlength, List.take_add, hdrop]

theorem take_append_slice (h : a ≤ b) : xs.take a ++ slice xs a b = xs.take b := by
  have hwhole : slice xs 0 a ++ slice xs a b = slice xs 0 b := slice_append (Nat.zero_le a) h
  have hzero : ∀ k, slice xs 0 k = xs.take k := by
    intro k
    rw [slice, List.drop_zero, Nat.sub_zero]
  rwa [hzero, hzero] at hwhole

/-- Two assignments to neighbouring ranges. -/
theorem splice_splice {zs : List α} {c : ℕ} (hb : a + ys.length = b) (hc : b + zs.length = c)
    (hle : c ≤ xs.length) : splice (splice xs a b ys) b c zs = splice xs a c (ys ++ zs) := by
  have hlength : (splice xs a b ys).length = xs.length := length_splice (by omega) hb (by omega)
  apply List.ext_getElem?
  intro i
  rw [getElem?_splice hc (by omega), getElem?_splice hb (by omega),
    getElem?_splice (by rw [List.length_append]; omega) hle]
  by_cases hfirst : a ≤ i ∧ i < b
  · rw [if_neg (by omega), if_pos hfirst, if_pos (by omega), List.getElem?_append_left (by omega)]
  · by_cases hsecond : b ≤ i ∧ i < c
    · rw [if_pos hsecond, if_pos (by omega), List.getElem?_append_right (by omega)]
      congr 1
      omega
    · rw [if_neg hsecond, if_neg hfirst, if_neg (by omega)]

theorem testBit_fromLittle : (fromLittle bs).testBit i = bit bs i := by
  induction bs generalizing i with
  | nil => simp [fromLittle, bit]
  | cons b bs ih =>
    have hsum : fromLittle (b :: bs) = 2 ^ 8 * fromLittle bs + b.toNat := by
      rw [fromLittle]
      omega
    rw [hsum, Nat.testBit_two_pow_mul_add _ b.isLt]
    by_cases hi : i < 8
    · rw [if_pos hi, bit, Nat.div_eq_of_lt hi, Nat.mod_eq_of_lt hi]
      rfl
    · have hdiv : i / 8 = (i - 8) / 8 + 1 := by omega
      have hmod : i % 8 = (i - 8) % 8 := by omega
      rw [if_neg hi, ih, bit, bit, hdiv, hmod, List.getD_cons_succ]

theorem fromLittle_lt (bs : Bytes) : fromLittle bs < 256 ^ bs.length := by
  induction bs with
  | nil => exact Nat.one_pos
  | cons b bs ih =>
    have hb := b.isLt
    rw [fromLittle, List.length_cons, pow_succ]
    omega

@[simp] theorem length_toLittle : (toLittle n v).length = n := by
  induction n generalizing v with
  | zero => rfl
  | succ n ih => rw [toLittle, List.length_cons, ih]

theorem bit_toLittle (h : i < 8 * n) : bit (toLittle n v) i = v.testBit i := by
  induction n generalizing v i with
  | zero => omega
  | succ n ih =>
    rw [toLittle, bit]
    by_cases hi : i < 8
    · rw [Nat.div_eq_of_lt hi, Nat.mod_eq_of_lt hi, List.getD_cons_zero, BitVec.getLsbD_ofNat]
      simp [hi]
    · have hdiv : i / 8 = (i - 8) / 8 + 1 := by omega
      have hmod : i % 8 = (i - 8) % 8 := by omega
      have hrest := ih (v := v / 256) (i := i - 8) (by omega)
      rw [bit] at hrest
      rw [hdiv, hmod, List.getD_cons_succ, hrest, show 256 = 2 ^ 8 from rfl, Nat.testBit_div_two_pow]
      congr 1
      omega

theorem bit_slice : bit (slice bs a b) i = (decide (i < 8 * (b - a)) && bit bs (8 * a + i)) := by
  have hdiv : (8 * a + i) / 8 = a + i / 8 := by omega
  have hmod : (8 * a + i) % 8 = i % 8 := by omega
  simp only [bit, List.getD_eq_getElem?_getD, getElem?_slice, hdiv, hmod]
  by_cases hi : i < 8 * (b - a)
  · rw [if_pos (by omega), decide_eq_true hi, Bool.true_and]
  · rw [if_neg (by omega), decide_eq_false hi, Bool.false_and]
    simp

theorem bit_splice {ys : Bytes} (hb : a + ys.length = b) (hle : b ≤ bs.length) :
    bit (splice bs a b ys) i = if 8 * a ≤ i ∧ i < 8 * b then bit ys (i - 8 * a) else bit bs i := by
  simp only [bit, List.getD_eq_getElem?_getD, getElem?_splice hb hle]
  by_cases hi : 8 * a ≤ i ∧ i < 8 * b
  · have hdiv : (i - 8 * a) / 8 = i / 8 - a := by omega
    have hmod : (i - 8 * a) % 8 = i % 8 := by omega
    rw [if_pos hi, if_pos (by omega), hdiv, hmod]
  · rw [if_neg hi, if_neg (by omega)]

theorem fromLittle_toLittle (h : v < 256 ^ n) : fromLittle (toLittle n v) = v := by
  induction n generalizing v with
  | zero =>
    rw [pow_zero] at h
    rw [toLittle, fromLittle]
    omega
  | succ n ih =>
    rw [pow_succ] at h
    rw [toLittle, fromLittle, ih (by omega), BitVec.toNat_ofNat]
    omega

theorem fromLittle_slice_succ (h : a + n < bs.length) : fromLittle (slice bs a (a + (n + 1))) =
    (bs.getD a 0).toNat + 256 * fromLittle (slice bs (a + 1) (a + 1 + n)) := by
  have hdrop : bs.drop a = bs.getD a 0 :: bs.drop (a + 1) := by
    rw [List.getD_eq_getElem _ _ (by omega), List.drop_eq_getElem_cons (by omega)]
  rw [slice, slice, Nat.add_sub_cancel_left, Nat.add_sub_cancel_left, hdrop, List.take_succ_cons,
    fromLittle]

/-- A number read from memory that holds the string. -/
theorem load_eq_fromLittle {m : ByteMemory.Memory} {k : ℕ} (h : k + n ≤ bs.length)
    (hbytes : ∀ i < n, m (a + i) = bs.getD (k + i) 0) :
    ByteMemory.load m a n = fromLittle (slice bs k (k + n)) := by
  induction n generalizing a k with
  | zero =>
    rw [slice, Nat.add_zero, Nat.sub_self, List.take_zero]
    rfl
  | succ n ih =>
    have hrest : ∀ i < n, m (a + 1 + i) = bs.getD (k + 1 + i) 0 := by
      intro i hi
      have hnext := hbytes (i + 1) (by omega)
      rwa [← Nat.add_assoc, ← Nat.add_assoc, Nat.add_right_comm, Nat.add_right_comm k] at hnext
    have hfirst := hbytes 0 (Nat.succ_pos n)
    rw [Nat.add_zero, Nat.add_zero] at hfirst
    rw [ByteMemory.load, ih (by omega) hrest, fromLittle_slice_succ (by omega), hfirst]

end ByteString
