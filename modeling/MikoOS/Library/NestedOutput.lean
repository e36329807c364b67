import Mathlib

/-!
# Output under a lock that nobody waits for

Calls interrupt one another on one processor, so only the innermost one runs and every one it
interrupted is still on the stack. A call first reports its text item by item on a port of its own,
then tries a lock; with the lock it draws the text on shared output, and without it returns at once.
The shared output therefore only ever shows whole texts, one after the other, and no call blocks.
-/

namespace NestedOutput

variable {ε κ σ : Type}

inductive Phase (ε : Type)
  | reporting (rest : List ε)
  | drawing (rest : List ε)

/-- A call that has not returned. -/
structure Frame (ε κ : Type) where
  number : ℕ
  color : κ
  text : List ε
  phase : Phase ε

/-- `frames` is innermost first. `asked` holds all calls so far by their number, `taken` those that got
the lock, in this order, and `port` every item reported with the number of its call. -/
structure State (ε κ σ : Type) where
  frames : List (Frame ε κ)
  busy : Bool
  port : List (ℕ × ε)
  output : σ
  asked : List (κ × List ε)
  taken : List (κ × List ε)

/-- A new call interrupts, or the innermost one goes on. -/
inductive Action (ε κ : Type)
  | call (color : κ) (text : List ε)
  | proceed

def State.start (output : σ) : State ε κ σ := ⟨[], false, [], output, [], []⟩

/-- One step of the innermost call; `draw` may fail. -/
def proceed (draw : κ → ε → σ → Option σ) (s : State ε κ σ) : Option (State ε κ σ) :=
  match s.frames with
  | [] => none
  | f :: fs =>
    match f.phase with
    | .reporting (b :: rest) =>
      some { s with frames := { f with phase := .reporting rest } :: fs, port := s.port ++ [(f.number, b)] }
    | .reporting [] =>
      if s.busy then some { s with frames := fs }
      else some { s with
        frames := { f with phase := .drawing f.text } :: fs
        busy := true
        taken := s.taken ++ [(f.color, f.text)] }
    | .drawing (b :: rest) => (draw f.color b s.output).map fun output =>
      { s with frames := { f with phase := .drawing rest } :: fs, output := output }
    | .drawing [] => some { s with frames := fs, busy := false }

def step (draw : κ → ε → σ → Option σ) (s : State ε κ σ) : Action ε κ → Option (State ε κ σ)
  | .call color text => some { s with
      frames := ⟨s.asked.length, color, text, .reporting text⟩ :: s.frames
      asked := s.asked ++ [(color, text)] }
  | .proceed => proceed draw s

def run (draw : κ → ε → σ → Option σ) : List (Action ε κ) → State ε κ σ → Option (State ε κ σ)
  | [], s => some s
  | a :: as, s => (step draw s a).bind (run draw as)

def Frame.isDrawing (f : Frame ε κ) : Bool :=
  match f.phase with
  | .reporting _ => false
  | .drawing _ => true

/-- The items of call `i` on the port. -/
def reported (i : ℕ) (port : List (ℕ × ε)) : List ε := (port.filter fun e => e.1 = i).map Prod.snd

/-- What call `i` has still to report. -/
def pending (i : ℕ) : List (Frame ε κ) → List ε
  | [] => []
  | f :: fs =>
    if f.number = i then
      match f.phase with
      | .reporting rest => rest
      | .drawing _ => []
    else pending i fs

/-- The part of the output that is still to be drawn. -/
def undrawn : List (Frame ε κ) → List (κ × ε)
  | [] => []
  | f :: fs =>
    match f.phase with
    | .reporting _ => undrawn fs
    | .drawing rest => rest.map (f.color, ·)

def whole (calls : List (κ × List ε)) : List (κ × ε) := calls.flatMap fun c => c.2.map (c.1, ·)

def drawAll (draw : κ → ε → σ → Option σ) : List (κ × ε) → σ → Option σ
  | [], s => some s
  | w :: ws, s => (draw w.1 w.2 s).bind (drawAll draw ws)

/-- Steps the open calls have still to make at most. -/
def work : List (Frame ε κ) → ℕ
  | [] => 0
  | f :: fs =>
    (match f.phase with
    | .reporting rest => rest.length + f.text.length + 2
    | .drawing rest => rest.length + 1) + work fs

variable {draw : κ → ε → σ → Option σ} {s t : State ε κ σ} {i : ℕ} {fs : List (Frame ε κ)}

theorem whole_append (a b : List (κ × List ε)) : whole (a ++ b) = whole a ++ whole b := List.flatMap_append

theorem drawAll_append (a b : List (κ × ε)) (o : σ) :
    drawAll draw (a ++ b) o = (drawAll draw a o).bind (drawAll draw b) := by
  induction a generalizing o with
  | nil => rfl
  | cons w a ih =>
    rw [List.cons_append, drawAll, drawAll]
    cases draw w.1 w.2 o with
    | none => rfl
    | some o' => exact ih o'

theorem reported_append (i : ℕ) (a b : List (ℕ × ε)) :
    reported i (a ++ b) = reported i a ++ reported i b := by
  rw [reported, List.filter_append, List.map_append]
  rfl

theorem pending_of_not_mem (h : ∀ f ∈ fs, f.number ≠ i) : pending i fs = [] := by
  induction fs with
  | nil => rfl
  | cons f fs ih =>
    rw [pending, if_neg (h f List.mem_cons_self)]
    exact ih fun g hg => h g (List.mem_cons_of_mem f hg)

/-- `o` is the output before the first call. -/
structure Invariant (draw : κ → ε → σ → Option σ) (o : σ) (s : State ε κ σ) : Prop where
  numbers : s.frames.Pairwise fun f g => g.number < f.number
  asked : ∀ f ∈ s.frames, s.asked[f.number]? = some (f.color, f.text)
  lock : (s.frames.filter Frame.isDrawing).length = if s.busy then 1 else 0
  port : ∀ i c, s.asked[i]? = some c → reported i s.port ++ pending i s.frames = c.2
  fresh : ∀ e ∈ s.port, e.1 < s.asked.length
  output : ∃ drawn, whole s.taken = drawn ++ undrawn s.frames ∧ drawAll draw drawn o = some s.output

theorem invariant_start (o : σ) : Invariant draw o (State.start o : State ε κ σ) where
  numbers := List.Pairwise.nil
  asked := by simp [State.start]
  lock := rfl
  port := by simp [State.start]
  fresh := by simp [State.start]
  output := ⟨[], rfl, rfl⟩

/-- What the innermost call can do. -/
inductive Proceeds (draw : κ → ε → σ → Option σ) : State ε κ σ → State ε κ σ → Prop
  | report (s : State ε κ σ) (f : Frame ε κ) (fs : List (Frame ε κ)) (b : ε) (rest : List ε)
      (hframes : s.frames = f :: fs) (hphase : f.phase = .reporting (b :: rest)) :
      Proceeds draw s { s with
        frames := { f with phase := .reporting rest } :: fs
        port := s.port ++ [(f.number, b)] }
  | skip (s : State ε κ σ) (f : Frame ε κ) (fs : List (Frame ε κ)) (hframes : s.frames = f :: fs)
      (hphase : f.phase = .reporting []) (hbusy : s.busy = true) : Proceeds draw s { s with frames := fs }
  | take (s : State ε κ σ) (f : Frame ε κ) (fs : List (Frame ε κ)) (hframes : s.frames = f :: fs)
      (hphase : f.phase = .reporting []) (hbusy : s.busy = false) :
      Proceeds draw s { s with
        frames := { f with phase := .drawing f.text } :: fs
        busy := true
        taken := s.taken ++ [(f.color, f.text)] }
  | draw (s : State ε κ σ) (f : Frame ε κ) (fs : List (Frame ε κ)) (b : ε) (rest : List ε) (output : σ)
      (hframes : s.frames = f :: fs) (hphase : f.phase = .drawing (b :: rest))
      (hdraw : draw f.color b s.output = some output) :
      Proceeds draw s { s with frames := { f with phase := .drawing rest } :: fs, output := output }
  | release (s : State ε κ σ) (f : Frame ε κ) (fs : List (Frame ε κ)) (hframes : s.frames = f :: fs)
      (hphase : f.phase = .drawing []) : Proceeds draw s { s with frames := fs, busy := false }

theorem proceeds_of_proceed (h : proceed draw s = some t) : Proceeds draw s t := by
  rw [proceed] at h
  cases hframes : s.frames with
  | nil =>
    rw [hframes] at h
    cases h
  | cons f fs =>
    rw [hframes] at h
    dsimp only at h
    cases hphase : f.phase with
    | reporting rest =>
      rw [hphase] at h
      cases rest with
      | cons b rest =>
        cases h
        exact .report s f fs b rest hframes hphase
      | nil =>
        dsimp only at h
        by_cases hbusy : s.busy = true
        · rw [if_pos hbusy] at h
          cases h
          exact .skip s f fs hframes hphase hbusy
        · rw [if_neg hbusy] at h
          cases h
          exact .take s f fs hframes hphase (Bool.eq_false_iff.mpr hbusy)
    | drawing rest =>
      rw [hphase] at h
      cases rest with
      | cons b rest =>
        obtain ⟨output, hdraw, rfl⟩ := Option.map_eq_some_iff.mp h
        exact .draw s f fs b rest output hframes hphase hdraw
      | nil =>
        cases h
        exact .release s f fs hframes hphase

theorem pending_head {f : Frame ε κ} (h : f.number = i) {rest : List ε} (hphase : f.phase = .reporting rest) :
    pending i (f :: fs) = rest := by
  rw [pending, if_pos h, hphase]

theorem pending_drawing {f : Frame ε κ} (h : f.number = i) {rest : List ε}
    (hphase : f.phase = .drawing rest) : pending i (f :: fs) = [] := by
  rw [pending, if_pos h, hphase]

theorem pending_tail {f : Frame ε κ} (h : f.number ≠ i) : pending i (f :: fs) = pending i fs := by
  rw [pending, if_neg h]

theorem undrawn_of_free (h : (fs.filter Frame.isDrawing).length = 0) : undrawn fs = [] := by
  induction fs with
  | nil => rfl
  | cons f fs ih =>
    cases hphase : f.phase with
    | reporting rest =>
      have hidle : f.isDrawing = false := by rw [Frame.isDrawing, hphase]
      rw [List.filter_cons_of_neg (by simp [hidle])] at h
      rw [undrawn, hphase]
      exact ih h
    | drawing rest =>
      have hactive : f.isDrawing = true := by rw [Frame.isDrawing, hphase]
      rw [List.filter_cons_of_pos hactive] at h
      cases h

variable {o : σ}

theorem Invariant.call (h : Invariant draw o s) (color : κ) (text : List ε) :
    Invariant draw o { s with
      frames := ⟨s.asked.length, color, text, .reporting text⟩ :: s.frames
      asked := s.asked ++ [(color, text)] } := by
  have hbelow : ∀ f ∈ s.frames, f.number < s.asked.length := by
    intro f hf
    exact (List.getElem?_eq_some_iff.mp (h.asked f hf)).1
  constructor
  · exact List.pairwise_cons.mpr ⟨fun f hf => hbelow f hf, h.numbers⟩
  · intro f hf
    rcases List.mem_cons.mp hf with rfl | hf
    · simp
    · have hasked := h.asked f hf
      rw [List.getElem?_append_left (hbelow f hf), hasked]
  · exact h.lock
  · intro i c hc
    dsimp only at hc ⊢
    by_cases hi : i < s.asked.length
    · rw [List.getElem?_append_left hi] at hc
      rw [pending_tail (Nat.ne_of_gt hi), h.port i c hc]
    · have hnew : i = s.asked.length := by
        have hlt := (List.getElem?_eq_some_iff.mp hc).1
        rw [List.length_append, List.length_singleton] at hlt
        omega
      subst hnew
      rw [List.getElem?_concat_length] at hc
      cases hc
      have hnone : reported s.asked.length s.port = [] := by
        rw [reported, List.filter_eq_nil_iff.mpr, List.map_nil]
        intro e he
        have hlt := h.fresh e he
        simp only [decide_eq_true_eq]
        omega
      rw [hnone, List.nil_append, pending, if_pos rfl]
  · intro e he
    have hlt := h.fresh e he
    rw [List.length_append]
    omega
  · exact h.output

/-- The phase of the innermost frame changes within reporting, or from reporting nothing to drawing. -/
theorem Invariant.head_ne (h : Invariant draw o s) {f : Frame ε κ} (hframes : s.frames = f :: fs) :
    ∀ g ∈ fs, g.number ≠ f.number := by
  have hnumbers := h.numbers
  rw [hframes, List.pairwise_cons] at hnumbers
  intro g hg
  exact Nat.ne_of_lt (hnumbers.1 g hg)

theorem Invariant.asked_head (h : Invariant draw o s) {f : Frame ε κ} (hframes : s.frames = f :: fs) :
    s.asked[f.number]? = some (f.color, f.text) := h.asked f (hframes ▸ List.mem_cons_self)

theorem isDrawing_reporting {f : Frame ε κ} {rest : List ε} (h : f.phase = .reporting rest) :
    f.isDrawing = false := by rw [Frame.isDrawing, h]

theorem isDrawing_drawing {f : Frame ε κ} {rest : List ε} (h : f.phase = .drawing rest) :
    f.isDrawing = true := by rw [Frame.isDrawing, h]

theorem filter_reporting {f : Frame ε κ} {rest : List ε} (h : f.phase = .reporting rest) :
    ((f :: fs).filter Frame.isDrawing).length = (fs.filter Frame.isDrawing).length := by
  rw [List.filter_cons_of_neg (by simp [isDrawing_reporting h])]

theorem filter_drawing {f : Frame ε κ} {rest : List ε} (h : f.phase = .drawing rest) :
    ((f :: fs).filter Frame.isDrawing).length = (fs.filter Frame.isDrawing).length + 1 := by
  rw [List.filter_cons_of_pos (isDrawing_drawing h), List.length_cons]

theorem undrawn_reporting {f : Frame ε κ} {rest : List ε} (h : f.phase = .reporting rest) :
    undrawn (f :: fs) = undrawn fs := by rw [undrawn, h]

theorem undrawn_drawing {f : Frame ε κ} {rest : List ε} (h : f.phase = .drawing rest) :
    undrawn (f :: fs) = rest.map (f.color, ·) := by rw [undrawn, h]

/-- The numbers and texts of the frames after the innermost one changed its phase. -/
theorem Invariant.rephase (h : Invariant draw o s) {f : Frame ε κ} (hframes : s.frames = f :: fs)
    (phase : Phase ε) :
    ({ f with phase := phase } :: fs).Pairwise (fun f g => g.number < f.number) ∧
      ∀ g ∈ ({ f with phase := phase } : Frame ε κ) :: fs, s.asked[g.number]? = some (g.color, g.text) := by
  have hnumbers := h.numbers
  rw [hframes, List.pairwise_cons] at hnumbers
  constructor
  · exact List.pairwise_cons.mpr hnumbers
  · intro g hg
    have hhead := h.asked_head hframes
    rcases List.mem_cons.mp hg with rfl | hg
    · exact hhead
    · exact h.asked g (hframes ▸ List.mem_cons_of_mem f hg)

/-- The same when it returns. -/
theorem Invariant.return (h : Invariant draw o s) {f : Frame ε κ} (hframes : s.frames = f :: fs) :
    fs.Pairwise (fun f g => g.number < f.number) ∧
      ∀ g ∈ fs, s.asked[g.number]? = some (g.color, g.text) := by
  have hnumbers := h.numbers
  rw [hframes, List.pairwise_cons] at hnumbers
  exact ⟨hnumbers.2, fun g hg => h.asked g (hframes ▸ List.mem_cons_of_mem f hg)⟩

/-- A call that has reported everything leaves nothing pending, whatever becomes of its frame. -/
theorem Invariant.pending_return (h : Invariant draw o s) {f : Frame ε κ} (hframes : s.frames = f :: fs)
    (hdone : pending f.number (f :: fs) = []) (i : ℕ) : pending i s.frames = pending i fs := by
  rw [hframes]
  by_cases hi : f.number = i
  · subst hi
    rw [hdone, pending_of_not_mem (h.head_ne hframes)]
  · exact pending_tail hi

theorem Invariant.report (h : Invariant draw o s) {f : Frame ε κ} {b : ε} {rest : List ε}
    (hframes : s.frames = f :: fs) (hphase : f.phase = .reporting (b :: rest)) :
    Invariant draw o { s with
      frames := { f with phase := .reporting rest } :: fs
      port := s.port ++ [(f.number, b)] } := by
  obtain ⟨hnumbers, hasked⟩ := h.rephase hframes (.reporting rest)
  obtain ⟨drawn, hwhole, hdrawn⟩ := h.output
  refine ⟨hnumbers, hasked, ?_, ?_, ?_, drawn, ?_, hdrawn⟩
  · have hlock := h.lock
    rw [hframes, filter_reporting hphase] at hlock
    exact (filter_reporting rfl).trans hlock
  · intro i c hc
    have hport := h.port i c hc
    rw [hframes] at hport
    dsimp only
    rw [reported_append]
    by_cases hi : f.number = i
    · rw [pending_head hi hphase] at hport
      have hown : reported i [(f.number, b)] = [b] := by simp [reported, hi]
      rw [hown, pending, if_pos hi, List.append_assoc]
      exact hport
    · rw [pending_tail hi] at hport
      have hother : reported i [(f.number, b)] = [] := by simp [reported, hi]
      rw [hother, List.append_nil, pending, if_neg hi]
      exact hport
  · intro e he
    rcases List.mem_append.mp he with he | he
    · exact h.fresh e he
    · rw [List.mem_singleton.mp he]
      exact (List.getElem?_eq_some_iff.mp (h.asked_head hframes)).1
  · rw [hwhole, hframes, undrawn_reporting hphase]
    rfl

theorem Invariant.skip (h : Invariant draw o s) {f : Frame ε κ} (hframes : s.frames = f :: fs)
    (hphase : f.phase = .reporting []) : Invariant draw o { s with frames := fs } := by
  obtain ⟨hnumbers, hasked⟩ := h.return hframes
  obtain ⟨drawn, hwhole, hdrawn⟩ := h.output
  refine ⟨hnumbers, hasked, ?_, ?_, h.fresh, drawn, ?_, hdrawn⟩
  · have hlock := h.lock
    rw [hframes, filter_reporting hphase] at hlock
    exact hlock
  · intro i c hc
    have hport := h.port i c hc
    rw [h.pending_return hframes (pending_head rfl hphase)] at hport
    exact hport
  · rw [hwhole, hframes, undrawn_reporting hphase]

theorem Invariant.take (h : Invariant draw o s) {f : Frame ε κ} (hframes : s.frames = f :: fs)
    (hphase : f.phase = .reporting []) (hbusy : s.busy = false) :
    Invariant draw o { s with
      frames := { f with phase := .drawing f.text } :: fs
      busy := true
      taken := s.taken ++ [(f.color, f.text)] } := by
  obtain ⟨hnumbers, hasked⟩ := h.rephase hframes (.drawing f.text)
  obtain ⟨drawn, hwhole, hdrawn⟩ := h.output
  have hlock := h.lock
  rw [hframes, filter_reporting hphase, hbusy] at hlock
  have hfree : (fs.filter Frame.isDrawing).length = 0 := hlock
  refine ⟨hnumbers, hasked, ?_, ?_, h.fresh, drawn, ?_, hdrawn⟩
  · dsimp only
    rw [filter_drawing rfl, hfree]
    rfl
  · intro i c hc
    have hport := h.port i c hc
    rw [h.pending_return hframes (pending_head rfl hphase), ← hport] at *
    by_cases hi : f.number = i
    · subst hi
      rw [pending, if_pos rfl, pending_of_not_mem (h.head_ne hframes)]
    · rw [pending, if_neg hi]
  · rw [hframes, undrawn_reporting hphase, undrawn_of_free hfree, List.append_nil] at hwhole
    dsimp only
    rw [whole_append, hwhole, undrawn]
    simp [whole]

theorem Invariant.paint (h : Invariant draw o s) {f : Frame ε κ} {b : ε} {rest : List ε} {output : σ}
    (hframes : s.frames = f :: fs) (hphase : f.phase = .drawing (b :: rest))
    (hdraw : draw f.color b s.output = some output) :
    Invariant draw o { s with frames := { f with phase := .drawing rest } :: fs, output := output } := by
  obtain ⟨hnumbers, hasked⟩ := h.rephase hframes (.drawing rest)
  obtain ⟨drawn, hwhole, hdrawn⟩ := h.output
  refine ⟨hnumbers, hasked, ?_, ?_, h.fresh, drawn ++ [(f.color, b)], ?_, ?_⟩
  · have hlock := h.lock
    rw [hframes, filter_drawing hphase] at hlock
    exact (filter_drawing rfl).trans hlock
  · intro i c hc
    have hport := h.port i c hc
    rw [hframes] at hport
    by_cases hi : f.number = i
    · rw [pending_drawing hi hphase] at hport
      dsimp only
      rw [pending, if_pos hi]
      exact hport
    · rw [pending_tail hi] at hport
      dsimp only
      rw [pending, if_neg hi]
      exact hport
  · rw [hwhole, hframes, undrawn_drawing hphase, List.append_assoc]
    rfl
  · rw [drawAll_append, hdrawn, Option.bind_some, drawAll, hdraw]
    rfl

theorem Invariant.release (h : Invariant draw o s) {f : Frame ε κ} (hframes : s.frames = f :: fs)
    (hphase : f.phase = .drawing []) : Invariant draw o { s with frames := fs, busy := false } := by
  obtain ⟨hnumbers, hasked⟩ := h.return hframes
  obtain ⟨drawn, hwhole, hdrawn⟩ := h.output
  have hlock := h.lock
  rw [hframes, filter_drawing hphase] at hlock
  have hfree : (fs.filter Frame.isDrawing).length = 0 := by
    by_cases hbusy : s.busy = true
    · rw [if_pos hbusy] at hlock
      omega
    · rw [if_neg hbusy] at hlock
      omega
  refine ⟨hnumbers, hasked, hfree, ?_, h.fresh, drawn, ?_, hdrawn⟩
  · intro i c hc
    have hport := h.port i c hc
    rw [h.pending_return hframes (pending_drawing rfl hphase)] at hport
    exact hport
  · rw [hframes, undrawn_drawing hphase] at hwhole
    rw [hwhole, undrawn_of_free hfree]
    rfl

theorem Invariant.step (h : Invariant draw o s) {a : Action ε κ} (hstep : step draw s a = some t) :
    Invariant draw o t := by
  cases a with
  | call color text =>
    cases hstep
    exact h.call color text
  | proceed =>
    cases proceeds_of_proceed hstep with
    | report f fs b rest hframes hphase => exact h.report hframes hphase
    | skip f fs hframes hphase hbusy => exact h.skip hframes hphase
    | take f fs hframes hphase hbusy => exact h.take hframes hphase hbusy
    | draw f fs b rest output hframes hphase hdraw => exact h.paint hframes hphase hdraw
    | release f fs hframes hphase => exact h.release hframes hphase

theorem Invariant.run (h : Invariant draw o s) {as : List (Action ε κ)} (hrun : run draw as s = some t) :
    Invariant draw o t := by
  induction as generalizing s with
  | nil =>
    cases hrun
    exact h
  | cons a as ih =>
    obtain ⟨u, hstep, hrest⟩ := Option.bind_eq_some_iff.mp hrun
    exact ih (h.step hstep) hrest

/-- A port shows a call's text from the start, and all of it once the call tries the lock. -/
theorem Invariant.reported_eq (h : Invariant draw o s) {c : κ × List ε} (hc : s.asked[i]? = some c)
    (hdone : ∀ f ∈ s.frames, f.number = i → f.isDrawing = true) : reported i s.port = c.2 := by
  have hport := h.port i c hc
  have hnone : ∀ fs : List (Frame ε κ), (∀ f ∈ fs, f.number = i → f.isDrawing = true) → pending i fs = [] := by
    intro fs
    induction fs with
    | nil =>
      intro _
      rfl
    | cons f fs ih =>
      intro hfs
      by_cases hi : f.number = i
      · have hdrawing := hfs f List.mem_cons_self hi
        cases hphase : f.phase with
        | reporting rest =>
          rw [isDrawing_reporting hphase] at hdrawing
          cases hdrawing
        | drawing rest => exact pending_drawing hi hphase
      · rw [pending_tail hi]
        exact ih fun g hg => hfs g (List.mem_cons_of_mem f hg)
  rw [hnone s.frames hdone, List.append_nil] at hport
  exact hport

/-- An open call never blocks, and it has finitely many steps to make. -/
theorem proceed_work (hdraw : ∀ color b, ∃ output, draw color b s.output = some output)
    (hopen : s.frames ≠ []) : ∃ t, proceed draw s = some t ∧ work t.frames < work s.frames := by
  cases hframes : s.frames with
  | nil => exact absurd hframes hopen
  | cons f fs =>
    rw [proceed, hframes]
    dsimp only
    cases hphase : f.phase with
    | reporting rest =>
      cases rest with
      | cons b rest =>
        refine ⟨_, rfl, ?_⟩
        simp only [work, hphase, List.length_cons]
        omega
      | nil =>
        by_cases hbusy : s.busy = true
        · refine ⟨{ s with frames := fs }, if_pos hbusy, ?_⟩
          simp only [work, hphase]
          omega
        · refine ⟨_, if_neg hbusy, ?_⟩
          simp only [work, hphase, List.length_nil]
          omega
    | drawing rest =>
      cases rest with
      | cons b rest =>
        obtain ⟨output, houtput⟩ := hdraw f.color b
        refine ⟨_, congrArg (Option.map _) houtput, ?_⟩
        simp only [work, hphase, List.length_cons]
        omega
      | nil =>
        refine ⟨_, rfl, ?_⟩
        simp only [work, hphase]
        omega

end NestedOutput
