import MikoOS.Console
import MikoOS.Head
import MikoOS.Library.Raster

/-!
# The console as a text grid

An abstract grid of character cells with a cursor, in which every cell holds the last byte drawn there and
its colour, and its rendering as a picture. The stores of the console go through the page tables of
`head.S` into video memory, which shows the rendering of the grid after every sequence of writes.
-/

namespace MikoOS

open ByteMemory PageWalk Rust

structure TextGrid where
  columns : ℕ
  rows : ℕ
  x : ℕ
  y : ℕ
  cells : ℕ → ℕ → Option (BitVec 8 × BitVec 32)

namespace TextGrid

/-- Nothing drawn yet. -/
def empty (columns rows : ℕ) : TextGrid := ⟨columns, rows, 0, 0, fun _ _ => none⟩

/-- The cell at the cursor takes the byte. -/
def draw (byte : BitVec 8) (color : BitVec 32) (g : TextGrid) : TextGrid :=
  { g with cells := fun cx cy => if cx = g.x ∧ cy = g.y then some (byte, color) else g.cells cx cy }

def newline (g : TextGrid) : TextGrid := { g with x := 0, y := (g.y + 1) % g.rows }

def advance (g : TextGrid) : TextGrid :=
  if g.x + 1 < g.columns then { g with x := g.x + 1 } else g.newline

def type (byte : BitVec 8) (color : BitVec 32) (g : TextGrid) : TextGrid := (g.draw byte color).advance

/-- The cell before the cursor; the first cell of all has none. -/
def back (g : TextGrid) : TextGrid :=
  if 0 < g.x then { g with x := g.x - 1 }
  else if 0 < g.y then { g with x := g.columns - 1, y := g.y - 1 }
  else g

def write (byte : BitVec 8) (color : BitVec 32) (g : TextGrid) : TextGrid :=
  if byte = 0x0a then g.newline
  else if byte = 0x0d then { g with x := 0 }
  else if byte = 0x09 then (type 0x20 color)^[8 - g.x % 8] g
  else if byte = 0x08 then g.back.draw 0x20 color
  else g.type byte color

def writeAll (writes : List (BitVec 8 × BitVec 32)) (g : TextGrid) : TextGrid :=
  writes.foldl (fun g w => g.write w.1 w.2) g

/-- The picture of the grid over an earlier one: cells of 8 by 16 pixels, black where the glyph has no
bit. Cells that were never drawn and pixels outside the grid are those of the earlier picture. -/
def render (font : Font) (g : TextGrid) (earlier : Raster.Picture) : Raster.Picture := fun px py =>
  if px / 8 < g.columns ∧ py / 16 < g.rows then
    match g.cells (px / 8) (py / 16) with
    | some (byte, color) => if font byte (py % 16) &&& (0x80#8 >>> (px % 8)) ≠ 0 then color else 0
    | none => earlier px py
  else earlier px py

/-- The cursor is inside the grid. -/
structure Valid (g : TextGrid) : Prop where
  x : g.x < g.columns
  y : g.y < g.rows

variable {font : Font} {g : TextGrid} {earlier : Raster.Picture}

theorem render_empty (columns rows : ℕ) : (empty columns rows).render font earlier = earlier := by
  funext px py
  unfold render empty
  split <;> rfl

/-- Drawing replaces the block of the cell at the cursor. -/
theorem render_draw (hg : g.Valid) (byte : BitVec 8) (color : BitVec 32) (px py : ℕ) :
    (g.draw byte color).render font earlier px py =
      if g.x * 8 ≤ px ∧ px < g.x * 8 + 8 ∧ g.y * 16 ≤ py ∧ py < g.y * 16 + 16 then
        Console.glyphPixel font byte color (py - g.y * 16) (px - g.x * 8)
      else g.render font earlier px py := by
  by_cases hcell : px / 8 = g.x ∧ py / 16 = g.y
  · have hcolumn : px % 8 = px - g.x * 8 := by omega
    have hrow : py % 16 = py - g.y * 16 := by omega
    rw [if_pos (by omega), render, if_pos (by rw [hcell.1, hcell.2]; exact ⟨hg.x, hg.y⟩)]
    have hdrawn : (g.draw byte color).cells (px / 8) (py / 16) = some (byte, color) := if_pos hcell
    rw [hdrawn, hcolumn, hrow]
    rfl
  · have hkept : (g.draw byte color).cells (px / 8) (py / 16) = g.cells (px / 8) (py / 16) :=
      if_neg hcell
    rw [if_neg (by omega), render, render, hkept]
    rfl

theorem Valid.back (hg : g.Valid) : g.back.Valid := by
  have hx := hg.x
  have hy := hg.y
  unfold TextGrid.back
  split_ifs
  · exact ⟨by change g.x - 1 < g.columns; omega, hy⟩
  · exact ⟨by change g.columns - 1 < g.columns; omega, by change g.y - 1 < g.rows; omega⟩
  · exact hg

theorem Valid.newline (hg : g.Valid) : g.newline.Valid :=
  ⟨Nat.zero_lt_of_lt hg.x, Nat.mod_lt _ (Nat.zero_lt_of_lt hg.y)⟩

theorem Valid.advance (hg : g.Valid) : g.advance.Valid := by
  unfold TextGrid.advance
  split_ifs with hx
  · exact ⟨hx, hg.y⟩
  · exact hg.newline

end TextGrid

theorem writePdes_outside (n : ℕ) (rax : BitVec 64) (rdi : ℕ) (ram : Memory) {x : ℕ}
    (h : x < rdi ∨ rdi + 8 * n ≤ x) : writePdes n rax rdi ram x = ram x := by
  induction n generalizing rax rdi ram with
  | zero => rfl
  | succ n ih => rw [writePdes, ih _ _ _ (by omega), store64_outside (by omega)]

/-- Every byte of the rows is translated into the framebuffer at `physical`. -/
def Console.Mapped (tables : Memory) (physical : ℕ) (c : Console) : Prop :=
  ∀ x < 4 * c.stride * c.height,
    walk tables pml4Address (c.buffer + x) = some ⟨physical + x, ⟨false, true, false⟩⟩

/-- `init` and `_start` split the physical base in the same way. -/
theorem Console.Accepted.mapped {low : BitVec 64} {tables ram : Memory} (hc : (ofMode ram).Accepted)
    (htables : BootTables low (load32 ram framebufferField) tables) :
    (ofMode ram).Mapped tables (load32 ram framebufferField).toNat := by
  obtain ⟨offset, -, hbuffer, hwindow⟩ := hc.window
  have hoffset : offset = (load32 ram framebufferField).toNat % page2MSize := by
    have hmode : (ofMode ram).buffer =
        pageOffset + 0xa00000 + (load32 ram framebufferField).toNat % page2MSize := rfl
    omega
  intro x hx
  have hplace : (ofMode ram).buffer + x = pageOffset + directRamEnd + (offset + x) := by
    have hend : directRamEnd = 0xa00000 := rfl
    omega
  have hphysical : framebufferBase (load32 ram framebufferField) + (offset + x) =
      (load32 ram framebufferField).toNat + x := by
    have hsize : page2MSize = 2 ^ 21 := rfl
    rw [framebufferBase, hoffset, hsize]
    omega
  rw [hplace, htables.walk_framebuffer (by omega), hphysical]

/-- Video memory behind a store of four bytes. -/
def stored (tables video : Memory) (w : ℕ × BitVec 32) : Memory :=
  match walk tables pml4Address w.1 with
  | some t => store32 video t.physical w.2
  | none => video

def shown (tables video : Memory) (stores : List (ℕ × BitVec 32)) : Memory :=
  stores.foldl (stored tables) video

theorem shown_append (tables video : Memory) (first second : List (ℕ × BitVec 32)) :
    shown tables video (first ++ second) = shown tables (shown tables video first) second :=
  List.foldl_append

/-- The four bytes of a store all land in the framebuffer. -/
def Lands (tables : Memory) (physical size address : ℕ) : Prop :=
  ∀ k < 4, ∃ place, walk tables pml4Address (address + k) = some ⟨place, ⟨false, true, false⟩⟩ ∧
    physical ≤ place ∧ place < physical + size

namespace Console

variable {tables video : Memory} {physical : ℕ} {c : Console} {px py : ℕ}

theorem pixel_inside (hx : px < c.stride) (hy : py < c.height) :
    4 * (py * c.stride + px) + 4 ≤ 4 * c.stride * c.height := by
  have hrows : (py + 1) * c.stride ≤ c.height * c.stride := Nat.mul_le_mul_right _ hy
  rw [Nat.mul_assoc, Nat.mul_comm c.stride]
  rw [Nat.succ_mul] at hrows
  omega

theorem Mapped.walk_pixel (hc : c.Mapped tables physical) (hx : px < c.stride) (hy : py < c.height) :
    walk tables pml4Address (c.pixelAddress px py) =
      some ⟨Raster.address ⟨physical, c.stride⟩ px py, ⟨false, true, false⟩⟩ := by
  have hinside := pixel_inside hx hy
  exact hc _ (by omega)

theorem Mapped.lands (hc : c.Mapped tables physical) (hx : px < c.stride) (hy : py < c.height) :
    Lands tables physical (4 * c.stride * c.height) (c.pixelAddress px py) := by
  have hinside := pixel_inside hx hy
  intro k hk
  refine ⟨physical + (4 * (py * c.stride + px) + k), ?_, ?_, ?_⟩
  · rw [pixelAddress, Nat.add_assoc]
    exact hc _ (by omega)
  · omega
  · omega

/-- Stores to pixels of the rows plot them in video memory. -/
theorem Mapped.shown_points (hc : c.Mapped tables physical) {points : List ((ℕ × ℕ) × BitVec 32)}
    (hpoints : ∀ q ∈ points, q.1.1 < c.stride ∧ q.1.2 < c.height) :
    shown tables video (points.map fun q => (c.pixelAddress q.1.1 q.1.2, q.2)) =
      Raster.plot ⟨physical, c.stride⟩ video points := by
  induction points generalizing video with
  | nil => rfl
  | cons q points ih =>
    obtain ⟨hx, hy⟩ := hpoints q List.mem_cons_self
    have hfirst : stored tables video (c.pixelAddress q.1.1 q.1.2, q.2) =
        store32 video (Raster.address ⟨physical, c.stride⟩ q.1.1 q.1.2) q.2 := by
      rw [stored, hc.walk_pixel hx hy]
    rw [List.map_cons, shown, List.foldl_cons, hfirst]
    exact ih fun p hp => hpoints p (List.mem_cons_of_mem _ hp)

theorem glyphStores_eq (c : Console) (font : Font) (byte : BitVec 8) (color : BitVec 32) :
    c.glyphStores font byte color =
      (Raster.block (c.x * 8) (c.y * 16) 8 16 (glyphPixel font byte color)).map fun q =>
        (c.pixelAddress q.1.1 q.1.2, q.2) := by
  simp only [glyphStores, Raster.block, List.map_flatMap, List.map_map, Function.comp_def]

/-- A cell inside the grid lies in the rows. -/
theorem Valid.block_inside (hc : c.Valid) (f : ℕ → ℕ → BitVec 32) :
    ∀ q ∈ Raster.block (c.x * 8) (c.y * 16) 8 16 f, q.1.1 < c.stride ∧ q.1.2 < c.height := by
  intro q hq
  have hx := hc.x
  have hy := hc.y
  have hstride := hc.accepted.stride
  rw [columns] at hx
  rw [rows] at hy
  simp only [Raster.block, List.mem_flatMap, List.mem_map, List.mem_range] at hq
  obtain ⟨row, hrow, column, hcolumn, rfl⟩ := hq
  dsimp only
  omega

end Console

/-- The screen has the cursor of the grid, the stores behind `past` land in the framebuffer, and video
memory shows the rendering of the grid over what it showed before. -/
structure Displays (c₀ : Console) (font : Font) (tables video : Memory) (physical : ℕ)
    (past : List (ℕ × BitVec 32)) (s : Screen) (g : TextGrid) : Prop where
  console : s.console = { c₀ with x := g.x, y := g.y }
  columns : g.columns = c₀.columns
  rows : g.rows = c₀.rows
  valid : g.Valid
  drawn : ∃ new, s.stores = past ++ new ∧
    (∀ w ∈ new, Lands tables physical (4 * c₀.stride * c₀.height) w.1) ∧
    Raster.Shows ⟨physical, c₀.stride⟩ (shown tables video new)
      (g.render font fun px py => load32 video (Raster.address ⟨physical, c₀.stride⟩ px py))

namespace Displays

variable {c₀ : Console} {font : Font} {tables video : Memory} {physical : ℕ}
  {past : List (ℕ × BitVec 32)} {s : Screen} {g : TextGrid} {p : Profile}

theorem start (hc : c₀.Valid) (hcorner : c₀ = { c₀ with x := 0, y := 0 }) (hs : s.console = c₀) :
    Displays c₀ font tables video physical s.stores s (.empty c₀.columns c₀.rows) where
  console := hs.trans hcorner
  columns := rfl
  rows := rfl
  valid := ⟨Nat.zero_lt_of_lt hc.x, Nat.zero_lt_of_lt hc.y⟩
  drawn := by
    refine ⟨[], (List.append_nil _).symm, ?_, ?_⟩
    · intro w hw
      cases hw
    · rw [TextGrid.render_empty]
      intro px _ py
      rfl

variable (h : Displays c₀ font tables video physical past s g)

include h

theorem console_valid (hc : c₀.Accepted) : s.console.Valid := by
  rw [h.console]
  exact {
    accepted := ⟨hc.width, hc.height, hc.stride, hc.narrow, hc.window⟩
    x := by
      have hx := h.valid.x
      rw [h.columns] at hx
      exact hx
    y := by
      have hy := h.valid.y
      rw [h.rows] at hy
      exact hy }

/-- Only the cursor moves. -/
theorem move {x y : ℕ} (hg : TextGrid.Valid { g with x := x, y := y }) :
    Displays c₀ font tables video physical past { s with console := { s.console with x := x, y := y } }
      { g with x := x, y := y } where
  console := by rw [h.console]
  columns := h.columns
  rows := h.rows
  valid := hg
  drawn := h.drawn

theorem moveColumn {x : ℕ} (hx : x < g.columns) :
    Displays c₀ font tables video physical past { s with console := { s.console with x := x } }
      { g with x := x } := by
  have hmoved := h.move (x := x) (y := g.y) ⟨hx, h.valid.y⟩
  have hsame : { s.console with x := x, y := g.y } = { s.console with x := x } := by rw [h.console]
  rw [hsame] at hmoved
  exact hmoved

theorem draw (hc : c₀.Accepted) (hmap : c₀.Mapped tables physical) (byte : BitVec 8) (color : BitVec 32) :
    Displays c₀ font tables video physical past
      { s with stores := s.stores ++ s.console.glyphStores font byte color } (g.draw byte color) := by
  have hvalid := h.console_valid hc
  have hinside := hvalid.block_inside (Console.glyphPixel font byte color)
  have hmapped : s.console.Mapped tables physical := by
    rw [h.console]
    exact hmap
  have hsize : s.console.stride = c₀.stride ∧ s.console.height = c₀.height := by
    rw [h.console]
    exact ⟨rfl, rfl⟩
  have hcursor : s.console.x = g.x ∧ s.console.y = g.y := by
    rw [h.console]
    exact ⟨rfl, rfl⟩
  obtain ⟨new, hstores, hlands, hshows⟩ := h.drawn
  constructor
  · exact h.console
  · exact h.columns
  · exact h.rows
  · exact ⟨h.valid.x, h.valid.y⟩
  · refine ⟨new ++ s.console.glyphStores font byte color, ?_, ?_, ?_⟩
    · rw [hstores, List.append_assoc]
    · intro w hw
      rcases List.mem_append.mp hw with hw | hw
      · exact hlands w hw
      · rw [Console.glyphStores_eq] at hw
        obtain ⟨q, hq, rfl⟩ := List.mem_map.mp hw
        obtain ⟨hx, hy⟩ := hinside q hq
        rw [← hsize.1, ← hsize.2]
        exact hmapped.lands hx hy
    · have hwidth : g.x * 8 + 8 ≤ c₀.stride := by
        have hlast := hvalid.x
        have hrow := hvalid.accepted.stride
        rw [Console.columns] at hlast
        omega
      rw [shown_append, Console.glyphStores_eq, hmapped.shown_points hinside, hsize.1, hcursor.1,
        hcursor.2]
      have hblock := hshows.plot_block (f := Console.glyphPixel font byte color) (h := 16)
        (y := g.y * 16) hwidth
      intro px hpx py
      rw [TextGrid.render_draw h.valid]
      exact hblock px hpx py

theorem advance : Displays c₀ font tables video physical past
    { s with console := s.console.advance } g.advance := by
  have hvalid := h.valid.advance
  have hconsole : s.console.advance = { s.console with x := g.advance.x, y := g.advance.y } := by
    unfold Console.advance TextGrid.advance TextGrid.newline
    rw [h.console, h.columns, h.rows]
    change (if g.x + 1 < c₀.columns then _ else _) = _
    split_ifs <;> rfl
  have hgrid : g.advance = { g with x := g.advance.x, y := g.advance.y } := by
    unfold TextGrid.advance TextGrid.newline
    split_ifs <;> rfl
  rw [hgrid] at hvalid
  rw [hconsole, hgrid]
  exact h.move hvalid

/-- A byte of the last branch, in the code and in the grid. -/
theorem printable (hc : c₀.Accepted) (hmap : c₀.Mapped tables physical) (byte : BitVec 8)
    (color : BitVec 32) : ∃ t, (MikoOS.printable p font byte color).run s = .ok () t ∧
      Displays c₀ font tables video physical past t (g.type byte color) := by
  refine ⟨_, printable_run (h.console_valid hc) byte color, ?_⟩
  exact (h.draw hc hmap byte color).advance

theorem newline (hc : c₀.Accepted) : ∃ t, (MikoOS.newline p).run s = .ok () t ∧
    Displays c₀ font tables video physical past t g.newline := by
  have hvalid := h.console_valid hc
  refine ⟨_, newline_run hvalid.y hvalid.small.2, ?_⟩
  have hmoved := h.move h.valid.newline
  have hsame : (s.console.y + 1) % s.console.rows = (g.y + 1) % g.rows := by
    rw [h.console, h.rows]
    rfl
  rw [hsame]
  exact hmoved

theorem blanks (hc : c₀.Accepted) (hmap : c₀.Mapped tables physical) (color : BitVec 32) (n : ℕ) :
    Satisfies ((forRange 0 n () fun _ _ => blank p font color).run s)
      (fun _ t => Displays c₀ font tables video physical past t ((TextGrid.type 0x20 color)^[n] g))
      fun _ _ => False := by
  apply forRange_satisfies (fun (i : ℕ) (_ : Unit) (t : Screen) =>
    Displays c₀ font tables video physical past t ((TextGrid.type 0x20 color)^[i] g)) (Nat.zero_le n)
  · intro i _ t _ _ ht
    have hvalid := ht.console_valid hc
    obtain ⟨u, hu, hnext⟩ := ht.printable (p := p) hc hmap 0x20 color
    rw [blank, run_get_bind, if_neg hvalid.accepted.buffer_ne_zero, hu, satisfies_ok,
      Function.iterate_succ_apply']
    exact hnext
  · exact h

theorem glyph (hc : c₀.Accepted) (hmap : c₀.Mapped tables physical) (byte : BitVec 8)
    (color : BitVec 32) : ∃ t, (MikoOS.glyph p font byte color).run s = .ok () t ∧
      Displays c₀ font tables video physical past t (g.draw byte color) :=
  ⟨_, glyph_run (h.console_valid hc) byte color, h.draw hc hmap byte color⟩

/-- A backspace goes one cell back, from the start of a row to the end of the row above, and blanks the
cell there. -/
theorem backspace (hc : c₀.Accepted) (hmap : c₀.Mapped tables physical) (color : BitVec 32) :
    ∃ t, (MikoOS.byte p font 0x08 color).run s = .ok () t ∧
      Displays c₀ font tables video physical past t (g.back.draw 0x20 color) := by
  have hvalid := h.console_valid hc
  have hx : s.console.x = g.x := by rw [h.console]
  have hy : s.console.y = g.y := by rw [h.console]
  have hcolumns : s.console.columns = g.columns := by
    rw [h.columns, h.console]
    rfl
  have hback := h.valid.back
  unfold MikoOS.byte onConsole
  rw [run_get_bind, if_neg hvalid.accepted.buffer_ne_zero, if_neg (by decide), if_neg (by decide),
    if_neg (by decide), if_pos rfl]
  dsimp only
  by_cases hcolumn : 0 < s.console.x
  · have hgrid : g.back = { g with x := g.x - 1 } := if_pos (by omega)
    rw [hgrid] at hback ⊢
    rw [if_pos hcolumn, run_modify_bind, hx]
    exact (h.moveColumn hback.x).glyph hc hmap 0x20 color
  · by_cases hrow : 0 < s.console.y
    · have hgrid : g.back = { g with x := g.columns - 1, y := g.y - 1 } := by
        rw [TextGrid.back, if_neg (by omega), if_pos (by omega)]
      rw [hgrid] at hback ⊢
      have hmoved := h.move hback
      have hone : 1 ≤ s.console.columns := Nat.zero_lt_of_lt hvalid.x
      rw [if_neg hcolumn, if_pos hrow, run_modify_bind, run_bind_ok (run_sub p hone _),
        run_modify_bind, hcolumns, hy]
      exact hmoved.glyph hc hmap 0x20 color
    · have hgrid : g.back = g := by
        rw [TextGrid.back, if_neg (by omega), if_neg (by omega)]
      rw [hgrid, if_neg hcolumn, if_neg hrow]
      exact h.glyph hc hmap 0x20 color

/-- Every byte does to the screen what it does to the grid. -/
theorem byte (hc : c₀.Accepted) (hmap : c₀.Mapped tables physical) (b : BitVec 8) (color : BitVec 32) :
    ∃ t, (MikoOS.byte p font b color).run s = .ok () t ∧
      Displays c₀ font tables video physical past t (g.write b color) := by
  have hvalid := h.console_valid hc
  have hx : s.console.x = g.x := by rw [h.console]
  by_cases hback : b = 0x08
  · subst hback
    exact h.backspace hc hmap color
  · unfold MikoOS.byte
    rw [run_get_bind, if_neg hvalid.accepted.buffer_ne_zero]
    unfold TextGrid.write
    by_cases hline : b = 0x0a
    · rw [if_pos hline, if_pos hline]
      exact h.newline hc
    · rw [if_neg hline, if_neg hline]
      by_cases hreturn : b = 0x0d
      · rw [if_pos hreturn, if_pos hreturn]
        exact ⟨_, rfl, h.moveColumn (Nat.zero_lt_of_lt h.valid.x)⟩
      · rw [if_neg hreturn, if_neg hreturn]
        by_cases htab : b = 0x09
        · rw [if_pos htab, if_pos htab, run_bind_ok (run_sub p (by omega) _), hx]
          obtain ⟨_, t, hrun, ht⟩ := (h.blanks (p := p) hc hmap color (8 - g.x % 8)).exists_ok
          exact ⟨t, hrun, ht⟩
        · rw [if_neg htab, if_neg htab, if_neg hback, if_neg hback]
          exact h.printable hc hmap b color

theorem writes (hc : c₀.Accepted) (hmap : c₀.Mapped tables physical)
    (ws : List (BitVec 8 × BitVec 32)) :
    ∃ t, (ws.forM fun w => MikoOS.byte p font w.1 w.2).run s = .ok () t ∧
      Displays c₀ font tables video physical past t (g.writeAll ws) := by
  induction ws generalizing s g with
  | nil => exact ⟨s, rfl, h⟩
  | cons w ws ih =>
    obtain ⟨t, ht, hfirst⟩ := h.byte (p := p) hc hmap w.1 w.2
    obtain ⟨u, hu, hrest⟩ := ih hfirst
    exact ⟨u, (run_bind_ok ht).trans hu, hrest⟩

end Displays

/-- The fields of the mode block. -/
def modeWidth (ram : Memory) : ℕ := (load16 ram (modeBlock + 18)).toNat
def modeHeight (ram : Memory) : ℕ := (load16 ram (modeBlock + 20)).toNat
def modePitch (ram : Memory) : ℕ := (load16 ram (modeBlock + 16)).toNat
def modeBase (ram : Memory) : ℕ := (load32 ram (modeBlock + 40)).toNat

/-- The cells of the mode, nothing drawn. -/
def modeGrid (ram : Memory) : TextGrid := .empty (modeWidth ram / 8) (modeHeight ram / 16)

/-- The video memory of the mode as a picture. -/
def modePicture (ram video : Memory) : Raster.Picture := fun px py =>
  load32 video (modeBase ram + modePitch ram * py + 4 * px)

/-- For every mode block that `init` accepts and all writes: the writes complete, the cursor is that of the
grid and inside it, video memory shows the rendering of the grid over what it showed before, and every
store lands in the framebuffer. -/
theorem console_grid (p : Profile) (font : Font) (ram video : Memory) (hhead : HeadLoaded ram)
    (s t : Screen) (hinit : (Console.init (start ram)).run s = .ok () t)
    (writes : List (BitVec 8 × BitVec 32)) :
    ∃ u new g, (writes.forM fun w => byte p font w.1 w.2).run t = .ok () u ∧
      u.stores = t.stores ++ new ∧ g = (modeGrid (start ram)).writeAll writes ∧
      u.console.x = g.x ∧ u.console.y = g.y ∧
      g.x < modeWidth (start ram) / 8 ∧ g.y < modeHeight (start ram) / 16 ∧
      (∀ px py, 4 * px < modePitch (start ram) →
        modePicture (start ram) (shown (start ram) video new) px py =
          g.render font (modePicture (start ram) video) px py) ∧
      ∀ w ∈ new, Lands (start ram) (modeBase (start ram))
        (modePitch (start ram) * modeHeight (start ram)) w.1 := by
  have hrun := Console.init_run (start ram) s
  rw [hinit, satisfies_ok] at hrun
  obtain ⟨rfl, hvalid, hpitch⟩ := hrun
  have hfield : load32 (start ram) framebufferField = load32 ram framebufferField := by
    apply load32_congr
    intro k hk
    apply writePdes_outside
    rw [framebufferField, pdeAddress]
    omega
  have htables := start_bootTables hhead
  rw [← hfield] at htables
  have hmapped := hvalid.accepted.mapped htables
  obtain ⟨c₀, hc₀⟩ : ∃ c₀, c₀ = Console.ofMode (start ram) := ⟨_, rfl⟩
  have hstart : Displays c₀ font (start ram) video (modeBase (start ram)) s.stores
      { s with console := c₀ } (modeGrid (start ram)) := by
    rw [hc₀]
    exact Displays.start (s := { s with console := .ofMode (start ram) }) hvalid rfl rfl
  rw [← hc₀] at hvalid hmapped hpitch ⊢
  obtain ⟨u, hu, hdisplays⟩ := hstart.writes (p := p) hvalid.accepted hmapped writes
  obtain ⟨new, hstores, hlands, hshows⟩ := hdisplays.drawn
  -- the pixels of the raster are those of the mode
  have hpixel : ∀ px py, Raster.address ⟨modeBase (start ram), c₀.stride⟩ px py =
      modeBase (start ram) + modePitch (start ram) * py + 4 * px := by
    intro px py
    change modeBase (start ram) + 4 * (py * c₀.stride + px) = _
    rw [modePitch, ← hpitch, Nat.mul_add, Nat.mul_comm py, Nat.mul_assoc, Nat.add_assoc]
  have hcursor := hdisplays.console
  have hx := hdisplays.valid.x
  have hy := hdisplays.valid.y
  rw [hdisplays.columns, hc₀] at hx
  rw [hdisplays.rows, hc₀] at hy
  refine ⟨u, new, _, hu, hstores, rfl, ?_, ?_, hx, hy, ?_, ?_⟩
  · rw [hcursor]
  · rw [hcursor]
  · intro px py hpx
    simp only [Raster.Shows, hpixel] at hshows
    apply hshows
    rw [modePitch, ← hpitch] at hpx
    exact Nat.lt_of_mul_lt_mul_left hpx
  · intro w hw
    have hland := hlands w hw
    rw [hpitch] at hland
    rw [hc₀] at hland
    exact hland

/-- The sample mode block behind `_start`. -/
def wideRam : Memory := start (layHead wideMode)

/-- A letter, a tab and a backspace over it. -/
def sampleWrites : List (BitVec 8 × BitVec 32) := [(0x41, 0xff8000), (0x09, 0xff), (0x08, 0xff)]

theorem console_grid_sample : ∃ (t u : Screen) (new : List (ℕ × BitVec 32)) (g : TextGrid),
    (Console.init wideRam).run ⟨⟨0, 0, 0, 0, 0, 0⟩, []⟩ = .ok () t ∧
    (sampleWrites.forM fun w => byte .release (fun _ _ => 0x18) w.1 w.2).run t = .ok () u ∧
    u.stores = t.stores ++ new ∧ g = (modeGrid wideRam).writeAll sampleWrites ∧
    u.console.x = g.x ∧ u.console.y = g.y ∧
    (∀ px py, 4 * px < modePitch wideRam →
      modePicture wideRam (shown wideRam (fun _ => 0) new) px py =
        g.render (fun _ _ => 0x18) (modePicture wideRam fun _ => 0) px py) ∧
    ∀ w ∈ new, Lands wideRam (modeBase wideRam) (modePitch wideRam * modeHeight wideRam) w.1 := by
  have hreturns : returns (fun _ _ => true)
      ((Console.init wideRam).run ⟨⟨0, 0, 0, 0, 0, 0⟩, []⟩) = true := by decide +kernel
  obtain ⟨_, t, hinit, -⟩ := exists_of_returns hreturns
  obtain ⟨u, new, g, hu, hstores, hg, hx, hy, -, -, hshows, hlands⟩ := console_grid .release
    (fun _ _ => 0x18) (layHead wideMode) (fun _ => 0) (headLoaded_layHead wideMode) _ t hinit sampleWrites
  exact ⟨t, u, new, g, hinit, hu, hstores, hg, hx, hy, hshows, hlands⟩

end MikoOS
