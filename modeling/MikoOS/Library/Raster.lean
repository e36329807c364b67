import MikoOS.Library.ByteMemory

/-!
# Rasters in byte memory

A raster is an area of 32-bit pixels in rows of equal length. A memory shows a picture when every pixel of
the rows has its value there. Plotting a block of pixels shows the picture with that block replaced.
-/

open ByteMemory

structure Raster where
  base : ℕ
  stride : ℕ

namespace Raster

variable {r : Raster} {m : Memory} {px py qx qy : ℕ}

def address (r : Raster) (px py : ℕ) : ℕ := r.base + 4 * (py * r.stride + px)

theorem address_apart (hp : px < r.stride) (hq : qx < r.stride) (hne : (px, py) ≠ (qx, qy)) :
    r.address px py + 4 ≤ r.address qx qy ∨ r.address qx qy + 4 ≤ r.address px py := by
  have hindex : py * r.stride + px ≠ qy * r.stride + qx := by
    intro h
    have hx := congrArg (· % r.stride) h
    simp only [Nat.mul_add_mod', Nat.mod_eq_of_lt hp, Nat.mod_eq_of_lt hq] at hx
    have hy : py * r.stride = qy * r.stride := by omega
    have hrow := Nat.eq_of_mul_eq_mul_right (Nat.zero_lt_of_lt hp) hy
    exact hne (by rw [hx, hrow])
  unfold address
  omega

abbrev Picture := ℕ → ℕ → BitVec 32

/-- The memory shows the picture in the rows of the raster. -/
def Shows (r : Raster) (m : Memory) (picture : Picture) : Prop :=
  ∀ px < r.stride, ∀ py, load32 m (r.address px py) = picture px py

theorem Shows.store {picture : Picture} (h : r.Shows m picture) (hq : qx < r.stride) (qy : ℕ)
    (value : BitVec 32) :
    r.Shows (store32 m (r.address qx qy) value)
      fun px py => if (px, py) = (qx, qy) then value else picture px py := by
  intro px hp py
  dsimp only
  by_cases hsame : (px, py) = (qx, qy)
  · obtain ⟨rfl, rfl⟩ := Prod.mk.inj hsame
    rw [if_pos rfl, load32_store32]
  · rw [if_neg hsame, load32_store32_outside (address_apart hp hq hsame)]
    exact h px hp py

def plot (r : Raster) (m : Memory) (points : List ((ℕ × ℕ) × BitVec 32)) : Memory :=
  points.foldl (fun m q => store32 m (r.address q.1.1 q.1.2) q.2) m

theorem Shows.plot {picture : Picture} {places : List (ℕ × ℕ)} {f : ℕ × ℕ → BitVec 32}
    (h : r.Shows m picture) (hplaces : ∀ q ∈ places, q.1 < r.stride) :
    r.Shows (r.plot m (places.map fun q => (q, f q)))
      fun px py => if (px, py) ∈ places then f (px, py) else picture px py := by
  induction places generalizing m picture with
  | nil =>
    intro px hp py
    dsimp only
    rw [if_neg List.not_mem_nil]
    exact h px hp py
  | cons q places ih =>
    have hrest := ih (h.store (hplaces q List.mem_cons_self) q.2 (f q))
      fun p hp => hplaces p (List.mem_cons_of_mem _ hp)
    intro px hp py
    refine (hrest px hp py).trans ?_
    dsimp only
    by_cases hin : (px, py) ∈ places
    · rw [if_pos hin, if_pos (List.mem_cons_of_mem _ hin)]
    · by_cases hq : (px, py) = q
      · subst hq
        rw [if_neg hin, if_pos List.mem_cons_self]
        exact if_pos rfl
      · rw [if_neg hin, if_neg (fun hmem => (List.mem_cons.mp hmem).elim hq hin)]
        exact if_neg hq

/-- A block of `w` by `h` pixels at `(x, y)`, row by row. -/
def block (x y w h : ℕ) (f : ℕ → ℕ → BitVec 32) : List ((ℕ × ℕ) × BitVec 32) :=
  (List.range h).flatMap fun row => (List.range w).map fun column => ((x + column, y + row), f row column)

def blockPlaces (x y w h : ℕ) : List (ℕ × ℕ) :=
  (List.range h).flatMap fun row => (List.range w).map fun column => (x + column, y + row)

theorem mem_blockPlaces {x y w h : ℕ} :
    (px, py) ∈ blockPlaces x y w h ↔ x ≤ px ∧ px < x + w ∧ y ≤ py ∧ py < y + h := by
  simp only [blockPlaces, List.mem_flatMap, List.mem_map, List.mem_range, Prod.mk.injEq]
  constructor
  · intro hmem
    obtain ⟨row, hrow, column, hcolumn, rfl, rfl⟩ := hmem
    omega
  · intro hin
    exact ⟨py - y, by omega, px - x, by omega, by omega, by omega⟩

theorem block_eq (x y w h : ℕ) (f : ℕ → ℕ → BitVec 32) :
    block x y w h f = (blockPlaces x y w h).map fun q => (q, f (q.2 - y) (q.1 - x)) := by
  simp only [block, blockPlaces, List.map_flatMap, List.map_map, Function.comp_def,
    Nat.add_sub_cancel_left]

/-- Plotting a block replaces it in the picture and nothing else. -/
theorem Shows.plot_block {picture : Picture} {x y w h : ℕ} {f : ℕ → ℕ → BitVec 32}
    (hm : r.Shows m picture) (hw : x + w ≤ r.stride) :
    r.Shows (r.plot m (block x y w h f)) fun px py =>
      if x ≤ px ∧ px < x + w ∧ y ≤ py ∧ py < y + h then f (py - y) (px - x) else picture px py := by
  rw [block_eq]
  have hplaces : ∀ q ∈ blockPlaces x y w h, q.1 < r.stride := by
    intro q hq
    have := mem_blockPlaces.mp hq
    omega
  have hplot := hm.plot (f := fun q => f (q.2 - y) (q.1 - x)) hplaces
  simp only [mem_blockPlaces] at hplot
  exact hplot

end Raster
