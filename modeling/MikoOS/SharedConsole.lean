import MikoOS.Library.NestedOutput
import MikoOS.TextGrid

/-!
# The console lock

`console::print` may be interrupted by an exception or an interrupt that prints in turn. Each call
writes its whole text to the debug port first and then tries `BUSY`; with it the text is drawn, and
without it the call returns. Whatever calls interrupt each other, the screen shows whole texts in a
row, the port holds every text in full, and no call waits.
-/

namespace MikoOS.SharedConsole

open ByteMemory Rust NestedOutput

def draw (p : Profile) (font : Font) (color : BitVec 32) (b : BitVec 8) (screen : Screen) : Option Screen :=
  match (byte p font b color).run screen with
  | .ok () screen => some screen
  | .error _ _ => none

/-- The kernel's prints: every `call` is an entry of `print` with its color and formatted text. -/
abbrev Prints := NestedOutput.State (BitVec 8) (BitVec 32) Screen

def booted (screen : Screen) : Prints := .start screen

variable {p : Profile} {font : Font} {tables video : Memory} {physical : ℕ} {c₀ : Console}
  {past : List (ℕ × BitVec 32)} {screen screen' : Screen} {g : TextGrid}

theorem displays_drawAll (hc : c₀.Accepted) (hmap : c₀.Mapped tables physical)
    (h : Displays c₀ font tables video physical past screen g) {ws : List (BitVec 32 × BitVec 8)}
    (hdraw : drawAll (draw p font) ws screen = some screen') :
    Displays c₀ font tables video physical past screen' (g.writeAll (ws.map Prod.swap)) := by
  induction ws generalizing screen g with
  | nil =>
    cases hdraw
    exact h
  | cons w ws ih =>
    obtain ⟨t, ht, hrest⟩ := Option.bind_eq_some_iff.mp hdraw
    obtain ⟨u, hu, hdisplays⟩ := h.byte (p := p) hc hmap w.2 w.1
    rw [draw, hu] at ht
    cases ht
    exact ih hdisplays hrest

theorem draw_isSome (hc : c₀.Accepted) (hmap : c₀.Mapped tables physical)
    (h : Displays c₀ font tables video physical past screen g) (color : BitVec 32) (b : BitVec 8) :
    ∃ screen', draw p font color b screen = some screen' := by
  obtain ⟨t, ht, -⟩ := h.byte (p := p) hc hmap b color
  exact ⟨t, by rw [draw, ht]⟩

/-- The console that `init` leaves, empty in the top left corner, with its pixels at the mode's places. -/
theorem displays_init (font : Font) {ram : Memory} (hhead : HeadLoaded ram) {s : Screen}
    (hinit : (Console.init (start ram)).run s = .ok () screen) (video : Memory) :
    ∃ c₀ : Console, c₀.Accepted ∧ c₀.Mapped (start ram) (modeBase (start ram)) ∧
      c₀.stride * 4 = modePitch (start ram) ∧
      Displays c₀ font (start ram) video (modeBase (start ram)) screen.stores screen (modeGrid (start ram)) := by
  have hrun := Console.init_run (start ram) s
  rw [hinit, satisfies_ok] at hrun
  obtain ⟨rfl, hvalid, hpitch⟩ := hrun
  have hfield : load32 (start ram) framebufferField = load32 ram framebufferField := by
    apply load32_congr
    intro k hk
    apply writePdes_outside
    rw [framebufferField, pdeAddress]
    omega
  have htables := start_bootTables hhead
  rw [← hfield] at htables
  have hstride : (Console.ofMode (start ram)).stride * 4 = modePitch (start ram) := by
    rw [modePitch, ← hpitch, Nat.mul_comm]
  exact ⟨.ofMode (start ram), hvalid.accepted, hvalid.accepted.mapped htables, hstride,
    Displays.start (s := { s with console := .ofMode (start ram) }) hvalid rfl rfl⟩

/-- For all prints and every way they interrupt each other, in every state reached: at most one call
draws, and `BUSY` is set exactly then; every call that has come to the lock has all its text on the
port; the screen shows the texts of the calls that got the lock, whole and in this order, but for the
rest of the one that draws; and the innermost call can go on, with fewer steps left. -/
theorem prints_whole (p : Profile) (font : Font) (ram video : Memory) (hhead : HeadLoaded ram)
    (s screen : Screen) (hinit : (Console.init (start ram)).run s = .ok () screen)
    (actions : List (Action (BitVec 8) (BitVec 32))) {t : Prints}
    (hrun : run (draw p font) actions (booted screen) = some t) :
    ((t.frames.filter Frame.isDrawing).length = if t.busy then 1 else 0) ∧
      (∀ i c, t.asked[i]? = some c → (∀ f ∈ t.frames, f.number = i → f.isDrawing = true) →
        reported i t.port = c.2) ∧
      (∃ drawn new, whole t.taken = drawn ++ undrawn t.frames ∧ t.output.stores = screen.stores ++ new ∧
        ∀ px py, 4 * px < modePitch (start ram) →
          modePicture (start ram) (shown (start ram) video new) px py =
            ((modeGrid (start ram)).writeAll (drawn.map Prod.swap)).render font
              (modePicture (start ram) video) px py) ∧
      (t.frames ≠ [] → ∃ u, proceed (draw p font) t = some u ∧ work u.frames < work t.frames) := by
  obtain ⟨c₀, hc, hmap, hstride, hstart⟩ := displays_init font hhead hinit video
  have hinvariant : Invariant (draw p font) screen t := (invariant_start screen).run hrun
  obtain ⟨drawn, hwhole, hdrawn⟩ := hinvariant.output
  have hdisplays := displays_drawAll hc hmap hstart hdrawn
  obtain ⟨new, hstores, -, hshows⟩ := hdisplays.drawn
  have hpixel : ∀ px py, Raster.address ⟨modeBase (start ram), c₀.stride⟩ px py =
      modeBase (start ram) + modePitch (start ram) * py + 4 * px := by
    intro px py
    change modeBase (start ram) + 4 * (py * c₀.stride + px) = _
    rw [← hstride]
    ring
  refine ⟨hinvariant.lock, fun i c => hinvariant.reported_eq, ⟨drawn, new, hwhole, hstores, ?_⟩, ?_⟩
  · intro px py hpx
    simp only [Raster.Shows, hpixel] at hshows
    apply hshows
    rw [← hstride] at hpx
    omega
  · exact proceed_work (draw_isSome hc hmap hdisplays)

def sampleActions : List (Action (BitVec 8) (BitVec 32)) :=
  [.call 0xff [0x41, 0x42], .proceed, .call 0xff00 [0x43], .proceed, .proceed]

def samplePrints (screen : Screen) : Prints where
  frames := [⟨1, 0xff00, [0x43], .drawing [0x43]⟩, ⟨0, 0xff, [0x41, 0x42], .reporting [0x42]⟩]
  busy := true
  port := [(0, 0x41), (1, 0x43)]
  output := screen
  asked := [(0xff, [0x41, 0x42]), (0xff00, [0x43])]
  taken := [(0xff00, [0x43])]

theorem prints_whole_sample : ∃ screen : Screen,
    (Console.init wideRam).run ⟨⟨0, 0, 0, 0, 0, 0⟩, []⟩ = .ok () screen ∧
    run (draw .release fun _ _ => 0x18) sampleActions (booted screen) = some (samplePrints screen) ∧
    reported 1 (samplePrints screen).port = [0x43] ∧
    ∃ u, proceed (draw .release fun _ _ => 0x18) (samplePrints screen) = some u ∧
      work u.frames < work (samplePrints screen).frames := by
  have hreturns : returns (fun _ _ => true)
      ((Console.init wideRam).run ⟨⟨0, 0, 0, 0, 0, 0⟩, []⟩) = true := by decide +kernel
  obtain ⟨_, screen, hinit, -⟩ := exists_of_returns hreturns
  have hrun : run (draw .release fun _ _ => 0x18) sampleActions (booted screen) = some (samplePrints screen) :=
    rfl
  obtain ⟨-, hport, -, hwork⟩ := prints_whole .release (fun _ _ => 0x18) (layHead wideMode) (fun _ => 0)
    (headLoaded_layHead wideMode) _ screen hinit sampleActions hrun
  have hdrawing : ∀ f ∈ (samplePrints screen).frames, f.number = 1 → f.isDrawing = true := by
    intro f hf hnumber
    rw [samplePrints, List.mem_pair] at hf
    rcases hf with rfl | rfl
    · rfl
    · cases hnumber
  exact ⟨screen, hinit, hrun, hport 1 _ rfl hdrawing, hwork (List.cons_ne_nil _ _)⟩

end MikoOS.SharedConsole
