import Mathlib

/-!
# First-in first-out contents of a circular array

`contents cells head length` are the `length` elements from position `head` on, with the positions
taken modulo the capacity. Writing behind the last element appends it; moving the head forward drops
the first one.
-/

namespace RingBuffer

variable {α : Type} {n : ℕ} [NeZero n]

def contents (cells : Vector α n) (head length : ℕ) : List α :=
  (List.range length).map fun i => cells.get (Fin.ofNat n (head + i))

theorem contents_succ (cells : Vector α n) (head length : ℕ) :
    contents cells head (length + 1) =
      cells.get (Fin.ofNat n head) :: contents cells ((head + 1) % n) length := by
  rw [contents, contents, List.range_succ_eq_map, List.map_cons, List.map_map]
  congr 1
  apply List.map_congr_left
  intro i _
  apply congrArg cells.get
  apply Fin.ext
  change (head + (i + 1)) % n = ((head + 1) % n + i) % n
  rw [Nat.mod_add_mod]
  congr 1
  omega

omit [NeZero n] in
/-- Offsets below the capacity name different positions. -/
theorem offset_injective {head i j : ℕ} (hi : i < n) (hj : j < n)
    (h : (head + i) % n = (head + j) % n) : i = j := by
  have hmod : i ≡ j [MOD n] := Nat.ModEq.add_left_cancel' head h
  rwa [Nat.ModEq, Nat.mod_eq_of_lt hi, Nat.mod_eq_of_lt hj] at hmod

theorem contents_set (cells : Vector α n) (head length : ℕ) {i : ℕ} (hroom : length < n) (hi : i < n)
    (htail : i = (head + length) % n) (a : α) :
    contents (cells.set i a hi) head (length + 1) = contents cells head length ++ [a] := by
  subst htail
  rw [contents, contents, List.range_succ, List.map_append]
  congr 1
  · apply List.map_congr_left
    intro j hj
    have hlt := List.mem_range.mp hj
    apply Vector.getElem_set_ne
    intro heq
    have := offset_injective hroom (hlt.trans hroom) heq
    omega
  · exact congrArg (· :: []) (Vector.getElem_set_self _)

end RingBuffer
