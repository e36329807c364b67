import Mathlib.Data.List.TakeWhile
import Mathlib.Data.Nat.Digits.Defs

/-!
# Numbers as text

A number is printed most significant digit first, padded with zeros on the left. Reading the digits
gives it back, whatever the width. Texts that are put together from numbers and separators can be
taken apart again: digits end at the first character that is none.
-/

namespace Numerals

/-- The value of one of the digits 0-9 and a-f. -/
def digitValue (c : Char) : ℕ := if c.isDigit then c.toNat - 48 else c.toNat - 87

def isDigit (c : Char) : Bool := c.isDigit || ('a' ≤ c && c ≤ 'f')

/-- Reads digits from the left, on top of what is read. -/
def readOn (base n : ℕ) (cs : List Char) : ℕ := cs.foldl (fun n c => base * n + digitValue c) n

def read (base : ℕ) (cs : List Char) : ℕ := readOn base 0 cs

/-- The digits of `n`, zeros in front up to `width` characters. -/
def padded (base width n : ℕ) : List Char :=
  List.replicate (width - (Nat.toDigits base n).length) '0' ++ Nat.toDigits base n

variable {base n m d width : ℕ}

theorem digitValue_digitChar : ∀ d < 16, digitValue d.digitChar = d := by decide

theorem isDigit_digitChar : ∀ d < 16, isDigit d.digitChar = true := by decide

theorem read_append_digit (cs : List Char) (h : d < 16) :
    read base (cs ++ [d.digitChar]) = base * read base cs + d := by
  rw [read, readOn, List.foldl_append]
  change base * read base cs + digitValue d.digitChar = _
  rw [digitValue_digitChar d h]

/-- Printing and reading in the same base. -/
theorem read_toDigits (hbase : 1 < base) (hle : base ≤ 16) : read base (Nat.toDigits base n) = n := by
  induction n using Nat.strong_induction_on with
  | _ n ih =>
    rw [Nat.toDigits_eq_if hbase]
    by_cases h : n < base
    · rw [if_pos h]
      have hdigit : read base ([] ++ [n.digitChar]) = base * read base [] + n :=
        read_append_digit [] (h.trans_le hle)
      rw [List.nil_append] at hdigit
      rw [hdigit]
      exact Nat.zero_add n
    · rw [if_neg h, read_append_digit _ ((Nat.mod_lt n (by omega)).trans_le hle),
        ih (n / base) (Nat.div_lt_self (by omega) hbase)]
      exact Nat.div_add_mod n base

theorem readOn_zeros (k : ℕ) (cs : List Char) : read base (List.replicate k '0' ++ cs) = read base cs := by
  induction k with
  | zero => rfl
  | succ k ih =>
    rw [← ih, List.replicate_succ, List.cons_append, read, readOn, List.foldl_cons]
    rfl

theorem read_padded (hbase : 1 < base) (hle : base ≤ 16) : read base (padded base width n) = n := by
  rw [padded, readOn_zeros, read_toDigits hbase hle]

theorem padded_inj (hbase : 1 < base) (hle : base ≤ 16) :
    padded base width n = padded base width m ↔ n = m := by
  constructor
  · intro h
    have hn : read base (padded base width n) = n := read_padded hbase hle
    rw [← hn, h, read_padded hbase hle]
  · rintro rfl
    rfl

theorem isDigit_toDigits (hbase : 1 < base) (hle : base ≤ 16) :
    ∀ c ∈ Nat.toDigits base n, isDigit c = true := by
  induction n using Nat.strong_induction_on with
  | _ n ih =>
    rw [Nat.toDigits_eq_if hbase]
    by_cases h : n < base
    · rw [if_pos h]
      intro c hc
      rw [List.mem_singleton.mp hc]
      exact isDigit_digitChar _ (h.trans_le hle)
    · rw [if_neg h]
      intro c hc
      rcases List.mem_append.mp hc with hc | hc
      · exact ih (n / base) (Nat.div_lt_self (by omega) hbase) c hc
      · rw [List.mem_singleton.mp hc]
        exact isDigit_digitChar _ ((Nat.mod_lt n (by omega)).trans_le hle)

theorem isDigit_padded (hbase : 1 < base) (hle : base ≤ 16) :
    ∀ c ∈ padded base width n, isDigit c = true := by
  intro c hc
  rcases List.mem_append.mp hc with hc | hc
  · rw [List.eq_of_mem_replicate hc]
    rfl
  · exact isDigit_toDigits hbase hle c hc

/-- The parts of a formatted text. -/
inductive Piece
  | literal (text : List Char)
  | number (base width n : ℕ)
  | flag (b : Bool)
  deriving DecidableEq

def Piece.chars : Piece → List Char
  | .literal text => text
  | .number base width n => padded base width n
  | .flag b => if b then "true".toList else "false".toList

def render (l : List Piece) : List Char := l.flatMap Piece.chars

/-- A text that does not begin with a digit. -/
def Ends (rest : List Char) : Prop := ∀ c ∈ rest.head?, isDigit c = false

theorem takeWhile_append {a rest : List Char} (ha : ∀ c ∈ a, isDigit c = true) (hrest : Ends rest) :
    (a ++ rest).takeWhile isDigit = a := by
  induction a with
  | nil =>
    cases rest with
    | nil => rfl
    | cons c rest =>
      have hc := hrest c rfl
      rw [List.nil_append, List.takeWhile_cons, hc]
      rfl
  | cons c a ih =>
    obtain ⟨hc, ha⟩ := List.forall_mem_cons.mp ha
    rw [List.cons_append, List.takeWhile_cons, hc, ih ha]
    rfl

/-- A number and what follows it can be told apart. -/
theorem padded_append_inj (hbase : 1 < base) (hle : base ≤ 16) {rest rest' : List Char} (hrest : Ends rest)
    (hrest' : Ends rest') (h : padded base width n ++ rest = padded base width m ++ rest') :
    n = m ∧ rest = rest' := by
  have hsame : padded base width n = padded base width m := by
    rw [← takeWhile_append (isDigit_padded hbase hle) hrest, h,
      takeWhile_append (isDigit_padded hbase hle) hrest']
  rw [hsame] at h
  exact ⟨(padded_inj hbase hle).mp hsame, List.append_cancel_left h⟩

theorem flag_append_inj {b c : Bool} {rest rest' : List Char}
    (h : (Piece.flag b).chars ++ rest = (Piece.flag c).chars ++ rest') : b = c ∧ rest = rest' := by
  cases b <;> cases c
  · exact ⟨rfl, List.append_cancel_left h⟩
  · cases h
  · cases h
  · exact ⟨rfl, List.append_cancel_left h⟩

/-- Two texts of one form: a literal may depend on the values before it, and behind a number there is
no digit. -/
inductive SameForm : List Piece → List Piece → Prop
  | nil : SameForm [] []
  | literal (text : List Char) {l l' : List Piece} : SameForm l l' →
      SameForm (.literal text :: l) (.literal text :: l')
  | number {base : ℕ} (width : ℕ) {n m : ℕ} {l l' : List Piece} : 1 < base → base ≤ 16 → Ends (render l) →
      Ends (render l') → (n = m → SameForm l l') →
      SameForm (.number base width n :: l) (.number base width m :: l')
  | flag {b c : Bool} {l l' : List Piece} : (b = c → SameForm l l') →
      SameForm (.flag b :: l) (.flag c :: l')

/-- Texts of one form are equal only with equal values. -/
theorem SameForm.render_inj {l l' : List Piece} (h : SameForm l l') (heq : render l = render l') : l = l' := by
  induction h with
  | nil => rfl
  | literal text _ ih => rw [ih (List.append_cancel_left heq)]
  | number width hbase hle hrest hrest' _ ih =>
    obtain ⟨hvalue, htail⟩ := padded_append_inj hbase hle hrest hrest' heq
    rw [ih hvalue htail, hvalue]
  | flag _ ih =>
    obtain ⟨hvalue, htail⟩ := flag_append_inj heq
    rw [ih hvalue htail, hvalue]

end Numerals
