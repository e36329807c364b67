import MikoOS.Library.X86

/-!
# Saved registers

Lists of words at an address of a byte memory. Pushed registers are such a list below the stack pointer,
and from any state whose stack pointer is back at the list, popping in the reverse order restores them.
Addresses are numbers here: the stack does not wrap around.
-/

namespace X86

open ByteMemory

/-- The memory has the words from `a` up. -/
def WordsAt (m : Memory) : ℕ → List (BitVec 64) → Prop
  | _, [] => True
  | a, w :: ws => load64 m a = w ∧ WordsAt m (a + 8) ws

def writeWords (m : Memory) : ℕ → List (BitVec 64) → Memory
  | _, [] => m
  | a, w :: ws => store64 (writeWords m (a + 8) ws) a w

section Words

variable {m m' : Memory} {a x : ℕ} {us ws : List (BitVec 64)}

theorem WordsAt.congr (h : WordsAt m a ws)
    (hsame : ∀ x, a ≤ x → x < a + 8 * ws.length → m' x = m x) : WordsAt m' a ws := by
  induction ws generalizing a with
  | nil => trivial
  | cons w ws ih =>
    obtain ⟨hfirst, hrest⟩ := h
    rw [List.length_cons] at hsame
    constructor
    · rw [← hfirst]
      apply load64_congr
      intro i hi
      exact hsame _ (by omega) (by omega)
    · apply ih hrest
      intro x hlow hhigh
      exact hsame x (by omega) (by omega)

theorem wordsAt_append :
    WordsAt m a (us ++ ws) ↔ WordsAt m a us ∧ WordsAt m (a + 8 * us.length) ws := by
  induction us generalizing a with
  | nil => simp [WordsAt]
  | cons u us ih =>
    have hplace : a + 8 + 8 * us.length = a + 8 * (us.length + 1) := by omega
    rw [List.cons_append, WordsAt, WordsAt, ih, List.length_cons, hplace, and_assoc]

theorem writeWords_outside (h : x < a ∨ a + 8 * ws.length ≤ x) : writeWords m a ws x = m x := by
  induction ws generalizing a with
  | nil => rfl
  | cons w ws ih =>
    rw [List.length_cons] at h
    rw [writeWords, store64_outside (by omega), ih (by omega)]

theorem writeWords_wordsAt (m : Memory) (a : ℕ) (ws : List (BitVec 64)) :
    WordsAt (writeWords m a ws) a ws := by
  induction ws generalizing a with
  | nil => trivial
  | cons w ws ih =>
    constructor
    · exact load64_store64 _ _ _
    · apply (ih (a + 8)).congr
      intro x hlow _
      exact store64_outside (by omega)

end Words

namespace Cpu

variable {s : Cpu} {v w : BitVec 64} {ws : List (BitVec 64)} {r : Reg} {rs : List Reg}

theorem push_wordsAt (hroom : 8 ≤ (s.reg .rsp).toNat) (h : WordsAt s.ram (s.reg .rsp).toNat ws) :
    WordsAt (s.push v).ram ((s.push v).reg .rsp).toNat (v :: ws) := by
  have hrsp := push_rsp_toNat (v := v) hroom
  constructor
  · rw [push_rsp]
    exact load64_store64 _ _ _
  · rw [hrsp, Nat.sub_add_cancel hroom]
    apply h.congr
    intro x hlow _
    exact push_outside hroom (Or.inr hlow)

theorem pushRegs_rsp_toNat (hroom : 8 * rs.length ≤ (s.reg .rsp).toNat) :
    ((pushRegs rs s).reg .rsp).toNat = (s.reg .rsp).toNat - 8 * rs.length := by
  induction rs generalizing s with
  | nil => rfl
  | cons r rs ih =>
    rw [List.length_cons] at hroom ⊢
    have hrsp := push_rsp_toNat (s := s) (v := s.reg r) (by omega)
    rw [pushRegs, ih (by omega), hrsp]
    omega

theorem pushRegs_wordsAt (hno : .rsp ∉ rs) (hroom : 8 * rs.length ≤ (s.reg .rsp).toNat)
    (h : WordsAt s.ram (s.reg .rsp).toNat ws) :
    WordsAt (pushRegs rs s).ram ((pushRegs rs s).reg .rsp).toNat ((rs.map s.reg).reverse ++ ws) := by
  induction rs generalizing s ws with
  | nil => exact h
  | cons r rs ih =>
    rw [List.mem_cons, not_or] at hno
    rw [List.length_cons] at hroom
    have hrsp := push_rsp_toNat (s := s) (v := s.reg r) (by omega)
    have hnext := ih hno.2 (by omega) (push_wordsAt (v := s.reg r) (by omega) h)
    have hmap : rs.map (s.push (s.reg r)).reg = rs.map s.reg := by
      apply List.map_congr_left
      intro q hq
      apply push_reg
      intro hsame
      rw [hsame] at hq
      exact hno.2 hq
    rw [hmap] at hnext
    rw [List.map_cons, List.reverse_cons, List.append_assoc, List.singleton_append]
    exact hnext

theorem pop_rsp_toNat (hr : r ≠ .rsp) (hroom : (s.reg .rsp).toNat + 8 < 2 ^ 64) :
    ((s.pop r).reg .rsp).toNat = (s.reg .rsp).toNat + 8 := by
  have height : (8 : BitVec 64).toNat = 8 := rfl
  rw [pop_rsp hr, BitVec.toNat_add, height, Nat.mod_eq_of_lt hroom]

theorem popRegs_rsp_toNat (hno : .rsp ∉ rs) (hroom : (s.reg .rsp).toNat + 8 * rs.length < 2 ^ 64) :
    ((popRegs rs s).reg .rsp).toNat = (s.reg .rsp).toNat + 8 * rs.length := by
  induction rs generalizing s with
  | nil => rfl
  | cons r rs ih =>
    rw [List.mem_cons, not_or] at hno
    rw [List.length_cons] at hroom ⊢
    have hrsp := pop_rsp_toNat (Ne.symm hno.1) (show (s.reg .rsp).toNat + 8 < 2 ^ 64 by omega)
    rw [popRegs, ih hno.2 (by omega), hrsp]
    omega

theorem popRegs_flags : (popRegs rs s).flags = s.flags := by
  rw [popRegs_eq]

theorem popRegs_ram : (popRegs rs s).ram = s.ram := by
  rw [popRegs_eq]

/-- Popping words that are the values of `f` gives every register its value of `f`. -/
theorem popRegs_wordsAt {f : Reg → BitVec 64} (hno : .rsp ∉ rs)
    (hroom : (s.reg .rsp).toNat + 8 * rs.length < 2 ^ 64)
    (h : WordsAt s.ram (s.reg .rsp).toNat (rs.map f)) :
    ∀ r ≠ .rsp, (popRegs rs s).reg r = if r ∈ rs then f r else s.reg r := by
  induction rs generalizing s with
  | nil =>
    intro r _
    rw [if_neg List.not_mem_nil]
    rfl
  | cons q rs ih =>
    rw [List.mem_cons, not_or] at hno
    rw [List.length_cons] at hroom
    obtain ⟨hfirst, hrest⟩ := h
    have htop : s.top = f q := hfirst
    have hrsp := pop_rsp_toNat (Ne.symm hno.1) (show (s.reg .rsp).toNat + 8 < 2 ^ 64 by omega)
    rw [← hrsp] at hrest
    have hnext := ih (s := s.pop q) hno.2 (by omega) hrest
    intro r hr
    rw [Cpu.popRegs, hnext r hr]
    by_cases hmem : r ∈ rs
    · rw [if_pos hmem, if_pos (List.mem_cons_of_mem q hmem)]
    · rw [if_neg hmem]
      by_cases hq : r = q
      · rw [hq, pop_self, htop, if_pos List.mem_cons_self]
      · rw [pop_of_ne hq hr, if_neg (by simp [hq, hmem])]

end Cpu

end X86
