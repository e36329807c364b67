import MikoOS.PhysicalPages

/-!
# The framebuffer console

`console.rs`: `init` takes a VBE mode block, `byte` draws glyphs of 8 by 16 pixels and moves a cursor
counted in character cells. Volatile writes are kept as the list of the stores issued, oldest first,
each with its virtual address. The glyph table `FONT` is a parameter. A tab draws blanks up to the next
multiple of eight, each of which may wrap to the next row.
-/

namespace MikoOS

open ByteMemory Rust

structure Console where
  buffer : ℕ
  width : ℕ
  height : ℕ
  stride : ℕ
  x : ℕ
  y : ℕ

/-- The console, and the pixels stored so far. -/
structure Screen where
  console : Console
  stores : List (ℕ × BitVec 32)

/-- The rows of the glyphs, highest bit leftmost. -/
abbrev Font := BitVec 8 → ℕ → BitVec 8

/-- The address of the mode block in the direct mapping, as an offset of physical memory. -/
def modeBlock : ℕ := 0x8200

namespace Console

def init (ram : Memory) : Exec Screen Unit := do
  let width := (load16 ram (modeBlock + 18)).toNat
  let height := (load16 ram (modeBlock + 20)).toNat
  let pitch := (load16 ram (modeBlock + 16)).toNat
  let physical := (load32 ram (modeBlock + 40)).toNat
  require (load16 ram modeBlock &&& 0x81 = 0x81) "VBE mode lacks linear framebuffer"
  require (ram (modeBlock + 25) = 32 ∧ ram (modeBlock + 27) = 6)
    "assertion failed: info.add(25).read() == 32 && info.add(27).read() == 6"
  require (ram (modeBlock + 31) = 8 ∧ ram (modeBlock + 32) = 16)
    "assertion failed: info.add(31).read() == 8 && info.add(32).read() == 16"
  require (ram (modeBlock + 33) = 8 ∧ ram (modeBlock + 34) = 8)
    "assertion failed: info.add(33).read() == 8 && info.add(34).read() == 8"
  require (ram (modeBlock + 35) = 8 ∧ ram (modeBlock + 36) = 0)
    "assertion failed: info.add(35).read() == 8 && info.add(36).read() == 0"
  require (8 ≤ width ∧ 16 ≤ height ∧ width * 4 ≤ pitch ∧ pitch % 4 = 0)
    "assertion failed: width >= 8 && height >= 16 && pitch >= width * 4 && pitch % 4 == 0"
  let offset := physical % page2MSize
  require (physical ≠ 0 ∧ offset + pitch * height ≤ 16 * 1024 * 1024)
    "assertion failed: physical != 0 && offset + pitch * height <= 16 * 1024 * 1024"
  modify fun s => { s with
    console := ⟨pageOffset + 0xa00000 + offset, width, height, pitch / 4, 0, 0⟩ }

def columns (c : Console) : ℕ := c.width / 8
def rows (c : Console) : ℕ := c.height / 16

end Console

open Console

/-- `%` with a divisor that may be zero. -/
def remainder {σ : Type} (a b : ℕ) : Exec σ ℕ := do
  require (b ≠ 0) "attempt to calculate the remainder with a divisor of zero"
  return a % b

def onConsole (f : Console → Console) : Exec Screen Unit :=
  modify fun s => { s with console := f s.console }

def newline (p : Profile) : Exec Screen Unit := do
  onConsole fun c => { c with x := 0 }
  let y ← p.add (← get).console.y 1
  let y ← remainder y (← get).console.rows
  onConsole fun c => { c with y := y }

/-- One pixel of a glyph; the index counts pixels of four bytes. -/
def drawPixel (p : Profile) (bits : BitVec 8) (color : BitVec 32) (row column : ℕ) : Exec Screen Unit := do
  let pixel := if bits &&& (0x80#8 >>> column) ≠ 0 then color else 0
  let c := (← get).console
  let line ← p.mul (← p.add (← p.mul c.y 16) row) c.stride
  let index ← p.add (← p.add line (← p.mul c.x 8)) column
  modify fun s => { s with stores := s.stores ++ [(c.buffer + 4 * index, pixel)] }

def glyph (p : Profile) (font : Font) (byte : BitVec 8) (color : BitVec 32) : Exec Screen Unit :=
  forRange 0 16 () fun row _ =>
    forRange 0 8 () fun column _ => drawPixel p (font byte row) color row column

/-- The last branch of `byte`. -/
def printable (p : Profile) (font : Font) (byte : BitVec 8) (color : BitVec 32) : Exec Screen Unit := do
  glyph p font byte color
  let x ← p.add (← get).console.x 1
  onConsole fun c => { c with x := x }
  let c := (← get).console
  if c.columns ≤ c.x then newline p

/-- `byte` of a space, which a tab repeats. -/
def blank (p : Profile) (font : Font) (color : BitVec 32) : Exec Screen Unit := do
  if (← get).console.buffer = 0 then return
  else printable p font 0x20 color

def byte (p : Profile) (font : Font) (byte : BitVec 8) (color : BitVec 32) : Exec Screen Unit := do
  let c := (← get).console
  if c.buffer = 0 then return
  else if byte = 0x0a then newline p
  else if byte = 0x0d then onConsole fun c => { c with x := 0 }
  else if byte = 0x09 then
    let count ← p.sub 8 (c.x % 8)
    forRange 0 count () fun _ _ => blank p font color
  else if byte = 0x08 then
    if 0 < c.x then onConsole fun c => { c with x := c.x - 1 }
    else if 0 < c.y then
      onConsole fun c => { c with y := c.y - 1 }
      let x ← p.sub c.columns 1
      onConsole fun c => { c with x := x }
    glyph p font 0x20 color
  else printable p font byte color

theorem byte_space (p : Profile) (font : Font) (color : BitVec 32) :
    byte p font 0x20 color = blank p font color := by
  apply EStateM.ext
  intro s
  unfold byte blank
  rw [run_get_bind, run_get_bind]
  by_cases hbuffer : s.console.buffer = 0
  · rw [if_pos hbuffer, if_pos hbuffer]
  · rw [if_neg hbuffer, if_neg hbuffer, if_neg (by decide), if_neg (by decide), if_neg (by decide),
      if_neg (by decide)]

/-- What `init` checks of the dimensions: the pixels of all rows lie in the 16 MiB behind the base of the
framebuffer window. -/
structure Console.Accepted (c : Console) : Prop where
  width : 8 ≤ c.width
  height : 16 ≤ c.height
  stride : c.width ≤ c.stride
  narrow : c.stride < 2 ^ 14
  window : ∃ offset < page2MSize, c.buffer = pageOffset + 0xa00000 + offset ∧
    offset + 4 * c.stride * c.height ≤ 16 * 1024 * 1024

/-- The cursor is inside the grid. -/
structure Console.Valid (c : Console) : Prop where
  accepted : c.Accepted
  x : c.x < c.columns
  y : c.y < c.rows

theorem Console.Accepted.buffer_ne_zero {c : Console} (h : c.Accepted) : c.buffer ≠ 0 := by
  obtain ⟨offset, -, hbuffer, -⟩ := h.window
  have hplace : 0 < pageOffset := by decide
  omega

/-- The console that `init` leaves for a mode block. -/
def Console.ofMode (ram : Memory) : Console where
  buffer := pageOffset + 0xa00000 + (load32 ram (modeBlock + 40)).toNat % page2MSize
  width := (load16 ram (modeBlock + 18)).toNat
  height := (load16 ram (modeBlock + 20)).toNat
  stride := (load16 ram (modeBlock + 16)).toNat / 4
  x := 0
  y := 0

theorem Console.init_run (ram : Memory) (s : Screen) :
    Satisfies ((Console.init ram).run s) (fun _ t => t = { s with console := .ofMode ram } ∧
        (Console.ofMode ram).Valid ∧
        4 * (Console.ofMode ram).stride = (load16 ram (modeBlock + 16)).toNat)
      fun e t => t = s ∧ ∃ text, e = .message text := by
  unfold Console.init
  -- the checks come one after another and leave the state alone
  apply (satisfies_require fun _ => ⟨rfl, _, rfl⟩).bind
  intro _ t ht
  obtain ⟨rfl, -⟩ := ht
  apply (satisfies_require fun _ => ⟨rfl, _, rfl⟩).bind
  intro _ t ht
  obtain ⟨rfl, -⟩ := ht
  apply (satisfies_require fun _ => ⟨rfl, _, rfl⟩).bind
  intro _ t ht
  obtain ⟨rfl, -⟩ := ht
  apply (satisfies_require fun _ => ⟨rfl, _, rfl⟩).bind
  intro _ t ht
  obtain ⟨rfl, -⟩ := ht
  apply (satisfies_require fun _ => ⟨rfl, _, rfl⟩).bind
  intro _ t ht
  obtain ⟨rfl, -⟩ := ht
  apply (satisfies_require fun _ => ⟨rfl, _, rfl⟩).bind
  intro _ t ht
  obtain ⟨rfl, hsize⟩ := ht
  obtain ⟨hwidth, hheight, hpitch, hunit⟩ := of_decide_eq_true hsize
  apply (satisfies_require fun _ => ⟨rfl, _, rfl⟩).bind
  intro _ t ht
  obtain ⟨rfl, hplace⟩ := ht
  obtain ⟨-, hwindow⟩ := of_decide_eq_true hplace
  rw [EStateM.run_modify, satisfies_ok]
  have hoffset : (load32 ram (modeBlock + 40)).toNat % page2MSize < page2MSize :=
    Nat.mod_lt _ (by decide)
  have hstride : 4 * ((load16 ram (modeBlock + 16)).toNat / 4) = (load16 ram (modeBlock + 16)).toNat := by
    omega
  refine ⟨rfl, {
    accepted := {
      width := hwidth
      height := hheight
      stride := ?_
      narrow := ?_
      window := ⟨_, hoffset, rfl, ?_⟩ }
    x := Nat.div_pos hwidth (by decide)
    y := Nat.div_pos hheight (by decide) }, hstride⟩
  · change (load16 ram (modeBlock + 18)).toNat ≤ (load16 ram (modeBlock + 16)).toNat / 4
    omega
  · change (load16 ram (modeBlock + 16)).toNat / 4 < _
    omega
  · change _ + 4 * ((load16 ram (modeBlock + 16)).toNat / 4) * _ ≤ _
    rw [hstride]
    exact hwindow

namespace Console

/-- The address of pixel `(px, py)`. -/
def pixelAddress (c : Console) (px py : ℕ) : ℕ := c.buffer + 4 * (py * c.stride + px)

/-- The colour of a pixel of a glyph, with a black background. -/
def glyphPixel (font : Font) (byte : BitVec 8) (color : BitVec 32) (row column : ℕ) : BitVec 32 :=
  if font byte row &&& (0x80#8 >>> column) ≠ 0 then color else 0

/-- The stores of a glyph at the cursor, row by row. -/
def glyphStores (c : Console) (font : Font) (byte : BitVec 8) (color : BitVec 32) :
    List (ℕ × BitVec 32) :=
  (List.range 16).flatMap fun row => (List.range 8).map fun column =>
    (c.pixelAddress (c.x * 8 + column) (c.y * 16 + row), glyphPixel font byte color row column)

/-- The next cell in reading order; behind the last one comes the first. -/
def advance (c : Console) : Console :=
  if c.x + 1 < c.columns then { c with x := c.x + 1 }
  else { c with x := 0, y := (c.y + 1) % c.rows }

end Console

variable {p : Profile} {font : Font} {s : Screen}

theorem Console.Valid.small {c : Console} (h : c.Valid) : c.x < 2 ^ 14 ∧ c.y < 2 ^ 22 := by
  have hx := h.x
  have hy := h.y
  have hwidth := h.accepted.stride
  have hnarrow := h.accepted.narrow
  have hfirst := h.accepted.width
  obtain ⟨offset, -, -, hwindow⟩ := h.accepted.window
  rw [columns] at hx
  rw [rows] at hy
  have hheight : c.height ≤ 4 * c.stride * c.height := Nat.le_mul_of_pos_left _ (by omega)
  constructor
  · omega
  · omega

theorem drawPixel_run (h : s.console.Valid) (bits : BitVec 8) (color : BitVec 32) {row column : ℕ}
    (hrow : row < 16) (hcolumn : column < 8) :
    (drawPixel p bits color row column).run s = .ok () { s with
      stores := s.stores ++ [(s.console.pixelAddress (s.console.x * 8 + column) (s.console.y * 16 + row),
        if bits &&& (0x80#8 >>> column) ≠ 0 then color else 0)] } := by
  obtain ⟨hx, hy⟩ := h.small
  have hline : (s.console.y * 16 + row) * s.console.stride ≤ 2 ^ 27 * 2 ^ 14 :=
    Nat.mul_le_mul (by omega) h.accepted.narrow.le
  unfold drawPixel
  rw [run_get_bind]
  dsimp only
  rw [run_bind_ok (run_mul p (by omega) s), run_bind_ok (run_add p (by omega) s),
    run_bind_ok (run_mul p (by omega) s), run_bind_ok (run_mul p (by omega) s),
    run_bind_ok (run_add p (by omega) s), run_bind_ok (run_add p (by omega) s), EStateM.run_modify,
    Console.pixelAddress, Nat.add_assoc ((s.console.y * 16 + row) * s.console.stride)]

theorem glyph_run (h : s.console.Valid) (byte : BitVec 8) (color : BitVec 32) :
    (glyph p font byte color).run s =
      .ok () { s with stores := s.stores ++ s.console.glyphStores font byte color } := by
  obtain ⟨pixel, hpixel⟩ : ∃ pixel : ℕ → ℕ → ℕ × BitVec 32, pixel = fun row column =>
      (s.console.pixelAddress (s.console.x * 8 + column) (s.console.y * 16 + row),
        Console.glyphPixel font byte color row column) := ⟨_, rfl⟩
  -- one row, up to a column
  have hrow : ∀ row < 16, ∀ stores, Satisfies ((forRange 0 8 () fun column _ =>
      drawPixel p (font byte row) color row column).run { s with stores := stores })
      (fun _ t => t = { s with stores := stores ++ (List.range 8).map (pixel row) })
      fun _ _ => False := by
    intro row hrow stores
    apply forRange_satisfies (fun (column : ℕ) (_ : Unit) (t : Screen) =>
      t = { s with stores := stores ++ (List.range column).map (pixel row) }) (Nat.zero_le 8)
    · intro column _ t _ hcolumn ht
      have hdraw := drawPixel_run (p := p) (s := t) (by rw [ht]; exact h) (font byte row) color
        hrow hcolumn
      rw [hdraw, satisfies_ok, List.range_succ, List.map_append, List.map_singleton,
        ← List.append_assoc, hpixel, ht, hpixel]
      rfl
    · rw [List.range_zero, List.map_nil, List.append_nil]
  -- the rows, up to a row
  have hrows : Satisfies ((glyph p font byte color).run s)
      (fun _ t => t = { s with
        stores := s.stores ++ (List.range 16).flatMap fun row => (List.range 8).map (pixel row) })
      fun _ _ => False := by
    apply forRange_satisfies (fun (row : ℕ) (_ : Unit) (t : Screen) => t = { s with
      stores := s.stores ++ (List.range row).flatMap fun row => (List.range 8).map (pixel row) })
      (Nat.zero_le 16)
    · intro row _ t _ hlt ht
      subst ht
      apply (hrow row hlt _).mono
      · intro _ u hu
        rw [hu, List.range_succ (n := row), List.flatMap_append, List.flatMap_singleton,
          List.append_assoc]
      · intro _ _ h
        exact h
    · rw [List.range_zero, List.flatMap_nil, List.append_nil]
  obtain ⟨_, t, hrun, ht⟩ := hrows.exists_ok
  rw [hrun, ht, hpixel]
  rfl

namespace Console

/-- The cursor `n` cells further in reading order. -/
def moved (c : Console) (n : ℕ) : Console :=
  { c with x := (c.x + n) % c.columns, y := (c.y + (c.x + n) / c.columns) % c.rows }

theorem Valid.moved_zero {c : Console} (h : c.Valid) : c.moved 0 = c := by
  rw [moved, Nat.add_zero, Nat.mod_eq_of_lt h.x, Nat.div_eq_of_lt h.x, Nat.add_zero,
    Nat.mod_eq_of_lt h.y]

theorem Valid.moved {c : Console} (h : c.Valid) (n : ℕ) : (c.moved n).Valid where
  accepted := ⟨h.accepted.width, h.accepted.height, h.accepted.stride, h.accepted.narrow,
    h.accepted.window⟩
  x := Nat.mod_lt _ (Nat.zero_lt_of_lt h.x)
  y := Nat.mod_lt _ (Nat.zero_lt_of_lt h.y)

theorem advance_moved {c : Console} (h : c.Valid) (n : ℕ) :
    (c.moved n).advance = c.moved (n + 1) := by
  have hcolumns : 0 < c.columns := Nat.zero_lt_of_lt h.x
  have hsplit := Nat.div_add_mod (c.x + n) c.columns
  have hlt := Nat.mod_lt (c.x + n) hcolumns
  change (if (c.x + n) % c.columns + 1 < c.columns
    then { c.moved n with x := (c.x + n) % c.columns + 1 }
    else { c.moved n with x := 0, y := ((c.y + (c.x + n) / c.columns) % c.rows + 1) % c.rows }) = _
  by_cases hrow : (c.x + n) % c.columns + 1 < c.columns
  · -- the quotient stays
    have hnext : c.x + (n + 1) = ((c.x + n) % c.columns + 1) + c.columns * ((c.x + n) / c.columns) := by
      omega
    rw [if_pos hrow, Console.moved, Console.moved, hnext, Nat.add_mul_mod_self_left,
      Nat.mod_eq_of_lt hrow, Nat.add_mul_div_left _ _ hcolumns, Nat.div_eq_of_lt hrow, Nat.zero_add]
  · have hnext : c.x + (n + 1) = c.columns * ((c.x + n) / c.columns + 1) := by
      rw [Nat.mul_add, Nat.mul_one]
      omega
    rw [if_neg hrow, Console.moved, Console.moved, hnext, Nat.mul_mod_right,
      Nat.mul_div_cancel_left _ hcolumns, Nat.mod_add_mod, Nat.add_assoc]

end Console

theorem run_remainder {σ : Type} {a b : ℕ} (h : b ≠ 0) (s : σ) :
    (remainder a b).run s = .ok (a % b) s := by
  unfold remainder
  rw [run_bind_ok (run_require (decide_eq_true h) _ s), EStateM.run_pure]

theorem newline_run (hy : s.console.y < s.console.rows) (hsmall : s.console.y < 2 ^ 22) :
    (newline p).run s = .ok () { s with
      console := { s.console with x := 0, y := (s.console.y + 1) % s.console.rows } } := by
  have hrows : s.console.rows ≠ 0 := Nat.ne_of_gt (Nat.zero_lt_of_lt hy)
  unfold newline onConsole
  rw [run_modify_bind, run_get_bind]
  dsimp only
  rw [run_bind_ok (run_add p (by omega) _), run_get_bind]
  exact run_bind_ok (run_remainder hrows _)

theorem printable_run (h : s.console.Valid) (byte : BitVec 8) (color : BitVec 32) :
    (printable p font byte color).run s = .ok () {
      console := s.console.advance
      stores := s.stores ++ s.console.glyphStores font byte color } := by
  obtain ⟨hx, hy⟩ := h.small
  unfold printable onConsole
  rw [run_bind_ok (glyph_run h byte color), run_get_bind]
  dsimp only
  rw [run_bind_ok (run_add p (by omega) _), run_modify_bind, run_get_bind]
  dsimp only
  by_cases hrow : s.console.x + 1 < s.console.columns
  · rw [if_neg (by exact Nat.not_le.mpr hrow), Console.advance, if_pos hrow]
    rfl
  · rw [if_pos (by exact Nat.not_lt.mp hrow), Console.advance, if_neg hrow]
    apply newline_run
    · exact h.y
    · exact hy

theorem blank_run (h : s.console.Valid) (color : BitVec 32) :
    (blank p font color).run s = .ok () {
      console := s.console.advance
      stores := s.stores ++ s.console.glyphStores font 0x20 color } := by
  unfold blank
  rw [run_get_bind, if_neg h.accepted.buffer_ne_zero, printable_run h]

variable (p font) in
theorem blanks_run (h : s.console.Valid) (color : BitVec 32) (n : ℕ) :
    Satisfies ((forRange 0 n () fun _ _ => blank p font color).run s)
      (fun _ t => t.console = s.console.moved n) fun _ _ => False := by
  apply forRange_satisfies (fun (i : ℕ) (_ : Unit) (t : Screen) => t.console = s.console.moved i)
    (Nat.zero_le n)
  · intro i _ t _ _ ht
    have hvalid : t.console.Valid := by
      rw [ht]
      exact h.moved i
    rw [blank_run hvalid, satisfies_ok, ← Console.advance_moved h, ← ht]
  · exact h.moved_zero.symm

namespace Console

/-- The next multiple of eight. -/
def tabStop (c : Console) : ℕ := c.x + (8 - c.x % 8)

/-- The cursor at the next tab stop of the row, else at the start of the next row. -/
def tabbed (c : Console) : Console :=
  if c.tabStop < c.columns then { c with x := c.tabStop }
  else { c with x := 0, y := (c.y + 1) % c.rows }

theorem eight_dvd_tabStop (c : Console) : 8 ∣ c.tabStop := by
  unfold tabStop
  omega

end Console

variable (p font) in
theorem tab_run (h : s.console.Valid) (color : BitVec 32) :
    ∃ t, (byte p font 0x09 color).run s = .ok () t ∧
      t.console = s.console.moved (8 - s.console.x % 8) := by
  obtain ⟨_, t, hrun, ht⟩ := (blanks_run p font h color _).exists_ok
  refine ⟨t, ?_, ht⟩
  unfold byte
  rw [run_get_bind, if_neg h.accepted.buffer_ne_zero, if_neg (by decide), if_neg (by decide),
    if_pos rfl, run_bind_ok (run_sub p (by omega) s), hrun]

/-- The blanks are counted from the starting column: past the end of the row they stop at a multiple of
eight only where the row ends at one. -/
theorem tab_iff (h : s.console.Valid) (color : BitVec 32) :
    (∃ t, (byte p font 0x09 color).run s = .ok () t ∧ t.console = s.console.tabbed ∧
        8 ∣ t.console.x) ↔
      (s.console.tabStop < s.console.columns ∨
        s.console.columns ∣ s.console.tabStop ∧
          s.console.tabStop / s.console.columns % s.console.rows = 1 % s.console.rows) := by
  obtain ⟨t, hrun, ht⟩ := tab_run p font h color
  -- where the blanks leave the cursor
  have hx : t.console.x = s.console.tabStop % s.console.columns := by
    rw [ht]
    rfl
  have hy : t.console.y = (s.console.y + s.console.tabStop / s.console.columns) % s.console.rows := by
    rw [ht]
    rfl
  constructor
  · intro hmeets
    obtain ⟨u, hu, hcursor, -⟩ := hmeets
    rw [hrun] at hu
    injection hu with _ hu
    subst hu
    by_cases hfits : s.console.tabStop < s.console.columns
    · exact Or.inl hfits
    · rw [Console.tabbed, if_neg hfits] at hcursor
      rw [hcursor] at hx hy
      refine Or.inr ⟨Nat.dvd_of_mod_eq_zero hx.symm, ?_⟩
      have hsame : s.console.y + s.console.tabStop / s.console.columns ≡ s.console.y + 1
          [MOD s.console.rows] := hy.symm
      exact Nat.ModEq.add_left_cancel' _ hsame
  · intro hcondition
    have hcursor : t.console = s.console.tabbed := by
      rw [ht, Console.tabbed]
      by_cases hfits : s.console.tabStop < s.console.columns
      · rw [if_pos hfits, Console.moved, ← Console.tabStop, Nat.mod_eq_of_lt hfits,
          Nat.div_eq_of_lt hfits, Nat.add_zero, Nat.mod_eq_of_lt h.y]
      · obtain ⟨hends, hrows⟩ := hcondition.resolve_left hfits
        have hsame : s.console.tabStop / s.console.columns ≡ 1 [MOD s.console.rows] := hrows
        rw [if_neg hfits, Console.moved, ← Console.tabStop, Nat.mod_eq_zero_of_dvd hends,
          hsame.add_left s.console.y]
    refine ⟨t, hrun, hcursor, ?_⟩
    rw [hcursor, Console.tabbed]
    by_cases hfits : s.console.tabStop < s.console.columns
    · rw [if_pos hfits]
      exact Console.eight_dvd_tabStop _
    · rw [if_neg hfits]
      exact Nat.dvd_zero 8

/-- A mode block of 1440 by 900 pixels with its framebuffer at 3.5 GiB. -/
def wideMode : Memory := write (fun _ => 0) modeBlock
  [0xbb, 0, 0, 0, 0, 0, 0, 0, 0, 0, 0, 0, 0, 0, 0, 0, 0x80, 0x16, 0xa0, 0x05, 0x84, 0x03, 8, 16, 1, 32,
    1, 6, 0, 0, 0, 8, 16, 8, 8, 8, 0, 8, 24, 0, 0, 0, 0, 0xe0]

def wideConsole : Console := ⟨pageOffset + 0xa00000, 1440, 900, 1440, 0, 0⟩

theorem wideConsole_valid : wideConsole.Valid where
  accepted := ⟨by decide, by decide, by decide, by decide, 0, by decide, rfl, by decide⟩
  x := by decide
  y := by decide

/-- A mode of 1024 by 768 pixels, in the last row and the last eight of its 128 columns. -/
def cornerConsole : Console := ⟨pageOffset + 0xa00000, 1024, 768, 1024, 124, 47⟩

theorem cornerConsole_valid : cornerConsole.Valid where
  accepted := ⟨by decide, by decide, by decide, by decide, 0, by decide, rfl, by decide⟩
  x := by decide
  y := by decide

/-- A tab inside the first row, and one that ends the last row at a multiple of eight. -/
theorem tab_sample :
    (∃ t, (byte .dev (fun _ _ => 0) 0x09 0).run ⟨wideConsole, []⟩ = .ok () t ∧
      t.console = wideConsole.tabbed ∧ 8 ∣ t.console.x ∧ t.console.x = 8) ∧
    ∃ t, (byte .dev (fun _ _ => 0) 0x09 0).run ⟨cornerConsole, []⟩ = .ok () t ∧
      t.console = cornerConsole.tabbed ∧ 8 ∣ t.console.x ∧ t.console.x = 0 ∧ t.console.y = 0 := by
  have hfirst : ∃ t, (byte .dev (fun _ _ => 0) 0x09 0).run ⟨wideConsole, []⟩ = .ok () t ∧
      t.console = wideConsole.tabbed ∧ 8 ∣ t.console.x :=
    (tab_iff (s := ⟨wideConsole, []⟩) wideConsole_valid 0).mpr (Or.inl (by decide))
  have hlast : ∃ t, (byte .dev (fun _ _ => 0) 0x09 0).run ⟨cornerConsole, []⟩ = .ok () t ∧
      t.console = cornerConsole.tabbed ∧ 8 ∣ t.console.x :=
    (tab_iff (s := ⟨cornerConsole, []⟩) cornerConsole_valid 0).mpr (Or.inr (by decide))
  obtain ⟨t, hrun, htabbed, hstop⟩ := hfirst
  obtain ⟨u, hcorner, hwrapped, hzero⟩ := hlast
  refine ⟨⟨t, hrun, htabbed, hstop, ?_⟩, u, hcorner, hwrapped, hzero, ?_, ?_⟩
  · rw [htabbed]
    rfl
  · rw [hwrapped]
    rfl
  · rw [hwrapped]
    rfl

/-- A row of 180 cells: behind 176 spaces a tab ends at column 4 of the next row. -/
theorem tab_wraps : ∃ s t u : Screen,
    (Console.init wideMode).run ⟨⟨0, 0, 0, 0, 0, 0⟩, []⟩ = .ok () s ∧
      (forRange 0 176 () fun _ _ => byte .dev (fun _ _ => 0) 0x20 0).run s = .ok () t ∧
      (byte .dev (fun _ _ => 0) 0x09 0).run t = .ok () u ∧
      u.console.x = 4 ∧ u.console.y = 1 ∧ u.console ≠ t.console.tabbed := by
  have hinit : (Console.init wideMode).run ⟨⟨0, 0, 0, 0, 0, 0⟩, []⟩ = .ok () ⟨wideConsole, []⟩ := rfl
  obtain ⟨_, t, hspaces, ht⟩ :=
    (blanks_run .dev (fun _ _ => 0) (s := ⟨wideConsole, []⟩) wideConsole_valid 0 176).exists_ok
  have hvalid : t.console.Valid := by
    rw [ht]
    exact wideConsole_valid.moved 176
  obtain ⟨u, htab, hu⟩ := tab_run .dev (fun _ _ => 0) hvalid 0
  have hx : u.console.x = 4 := by
    rw [hu, ht]
    rfl
  refine ⟨_, t, u, hinit, ?_, htab, hx, ?_, ?_⟩
  · simp only [byte_space]
    exact hspaces
  · rw [hu, ht]
    rfl
  · intro hsame
    rw [hsame, ht] at hx
    exact absurd hx (by decide)

end MikoOS
