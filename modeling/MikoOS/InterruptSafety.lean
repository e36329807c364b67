import MikoOS.InterruptHandler
import MikoOS.InterruptMain

/-!
# The interrupt system in every interleaving

The main flow keeps ISR empty; in an open window it additionally relies on `Window`, which every
activation of the handler restores. From one step of the system follows every run of it.
-/

namespace MikoOS.Interrupt

open Rust Process

section System

variable {p : Profile} {l : Label}

theorem Machine.Like.entry {m v : Machine} (h : m.Like v) (hv : Entry l v) : Entry l m where
  enabled := h.enabled.trans hv.enabled
  idle := fun hl => h.idle (hv.idle hl)
  masked := h.masked hv.masked

theorem Machine.Like.window {m v : Machine} (h : m.Like v) (hv : Window l v) : Window l m where
  loop := hv.loop
  enabled := h.enabled.trans hv.enabled
  idle := h.idle hv.idle
  masked := h.masked hv.masked

/-- The main flow may continue with `code` from `m`: with the flag clear from a machine like one it
relies on, in a window from all that the window allows. -/
inductive Suspended (l : Label) (code : Code Label) (m : Machine) : Prop
  | closed (v : Machine) : m.enabled = false → m.Like v → Holds (mainRules l) Entry code v →
      Suspended l code m
  | window : Window l m → (∀ v, Window l v → Holds (mainRules l) Entry code v) → Suspended l code m

theorem Suspended.like {code : Code Label} {m v : Machine} (h : m.Like v)
    (hv : Suspended l code v) : Suspended l code m := by
  cases hv with
  | closed w he hw hcode => exact .closed w (h.enabled.trans he) (h.trans hw) hcode
  | window hw hcode => exact .window (h.window hw) hcode

theorem Suspended.holds {code : Code Label} {m : Machine} (h : Suspended l code m) :
    ∃ v, m.Like v ∧ Holds (mainRules l) Entry code v := by
  cases h with
  | closed v _ hv hcode => exact ⟨v, hv, hcode⟩
  | window hw hcode => exact ⟨m, .refl m, hcode m hw⟩

theorem Suspended.idle {code : Code Label} {m : Machine} (h : Suspended l code m)
    (hl : l ≠ .boot) : Idle m := by
  obtain ⟨v, hv, hcode⟩ := h.holds
  exact hv.idle (hcode.always.1 hl)

theorem Suspended.counted {code : Code Label} {m : Machine} (h : Suspended l code m) :
    Counted l m := by
  obtain ⟨v, hv, hcode⟩ := h.holds
  rw [Counted, hv.timerIrqs]
  exact hcode.always.2

theorem viewStep_enabled {i : Op} {v w : Machine} {r : i.Answer} (hi : i.opens = false)
    (hmay : v.enabled = false ∨ i = .setInterrupts false) (h : viewStep i v r w) :
    w.enabled = false := by
  cases i with
  | setInterrupts enabled =>
    obtain rfl : enabled = false := hi
    rw [show w = { v with enabled := false } from h]
  | out port value =>
    rw [show w = v.out port value from h, Machine.out_enabled]
    exact hmay.resolve_right nofun
  | read port =>
    rw [show w = v from h.2]
    exact hmay.resolve_right nofun
  | halt => cases hi
  | interruptsEnabled =>
    rw [show w = v from h.2]
    exact hmay.resolve_right nofun
  | loadTimer =>
    rw [show w = v from h.2]
    exact hmay.resolve_right nofun
  | countTimer =>
    rw [show w = { v with timerIrqs := (r + 1) % 2 ^ 64 } from h.2]
    exact hmay.resolve_right nofun
  | receive x =>
    rw [show w = v from h.2]
    exact hmay.resolve_right nofun

/-- STI and HLT lead into the window or leave it open. -/
theorem perform_opens {i : Op} {m t : Machine} {r : i.Answer} (hi : i.opens = true)
    (hhalt : i = .halt → m.enabled = true) (h : perform i m r t) :
    t = { m with enabled := true } := by
  cases i with
  | setInterrupts enabled =>
    obtain rfl : enabled = true := hi
    exact h
  | halt =>
    obtain rfl : t = m := h
    rw [← hhalt rfl]
  | _ => cases hi

/-- One action of the main flow. -/
theorem Suspended.act {i : Op} {next : i.Answer → Code Label} {m t : Machine} {r : i.Answer}
    (h : Suspended l (.act i next) m) (hstep : perform i m r t) : Suspended l (next r) t := by
  obtain ⟨v, hv, hcode⟩ := h.holds
  obtain ⟨-, hmay, hnext⟩ := hcode
  change if i.opens then _ else _ at hmay
  by_cases hi : i.opens = true
  · rw [if_pos hi] at hmay
    obtain rfl := perform_opens hi (fun hhalt => hv.enabled.trans (hmay.1 hhalt)) hstep
    have hwindow : Window l { m with enabled := true } := (hv.setEnabled true).window hmay.2
    apply Suspended.window hwindow
    intro w hw
    apply hnext
    change if i.opens then _ else _
    rw [if_pos hi]
    exact hw
  · rw [if_neg hi] at hmay
    obtain ⟨w, hview, hw⟩ := perform_like hv hstep
    have he : w.enabled = false := viewStep_enabled (by simpa using hi) hmay hview
    apply Suspended.closed w (hw.enabled.trans he) hw
    apply hnext
    change if i.opens then _ else _
    rw [if_neg hi]
    exact hview

/-- The next part of the main flow. -/
theorem Suspended.jump {l' : Label} {m : Machine} (h : Suspended l (.done l') m) :
    Suspended l' (body p l') m := by
  obtain ⟨v, hv, -, hentry⟩ := h.holds
  have hentry : Entry l' m := hv.entry hentry
  exact .closed m hentry.enabled (.refl m) (body_holds p hentry)

theorem Chip.highest_spec {c : Chip} {n : ℕ} (h : c.highest = some n) :
    n < 8 ∧ c.imr.getLsbD n = false := by
  have hrequests := List.find?_some h
  have hmem := List.mem_of_find?_eq_some h
  simp only [Chip.requests, Bool.and_eq_true, Bool.not_eq_true'] at hrequests
  exact ⟨List.mem_range.mp hmem, hrequests.1.2⟩

/-- In a window only the line of its loop is accepted, and line 0 at most twice. -/
theorem Window.acknowledge {m : Machine} (h : Window l m) :
    m.acknowledge = (.spuriousMaster, 0x27, m) ∨
      ∃ n ≤ 1, m.acknowledge = (.device n, vectorBase + n, { m with master := m.master.serve n }) ∧
        (n = 0 → l = .timerLoop ∧ m.timerIrqs < 2) ∧ (n ≠ 0 → l = .keyboardLoop) := by
  have hbase : m.master.base.toNat = vectorBase := by
    rw [h.idle.masterBase]
    rfl
  unfold Machine.acknowledge
  cases hhighest : m.master.highest with
  | none =>
    left
    simp only [hbase]
    rfl
  | some n =>
    right
    obtain ⟨hn, hmask⟩ := Chip.highest_spec hhighest
    have hfe : ∀ n < 8, (0xfe#8).getLsbD n = false → n = 0 := by decide
    have hfd : ∀ n < 8, (0xfd#8).getLsbD n = false → n = 1 := by decide
    have hff : ∀ n < 8, (0xff#8).getLsbD n ≠ false := by decide
    have hmasked := h.masked
    rcases h.loop with rfl | rfl
    · rcases hmasked.2 with ⟨himr, hlt⟩ | ⟨himr, -⟩
      · rw [himr] at hmask
        obtain rfl := hfe n hn hmask
        exact ⟨0, by decide, by simp only [hbase], fun _ => ⟨rfl, hlt⟩, fun h => absurd rfl h⟩
      · rw [himr] at hmask
        exact absurd hmask (hff n hn)
    · rw [hmasked.2.1] at hmask
      obtain rfl := hfd n hn hmask
      exact ⟨1, le_rfl, by simp only [hbase], nofun, fun _ => rfl⟩

theorem Window.serving {m : Machine} (h : Window l m) {n : ℕ} :
    Serving n l { m with master := m.master.serve n, enabled := false } where
  masterWords := h.idle.masterWords
  slaveWords := h.idle.slaveWords
  masterBase := h.idle.masterBase
  slaveBase := h.idle.slaveBase
  masterService := by
    change m.master.isr ||| 1#8 <<< n = 1#8 <<< n
    rw [h.idle.masterService]
    exact BitVec.zero_or
  slaveService := h.idle.slaveService
  enabled := rfl
  masked := by
    have hmasked := h.masked
    cases l <;> exact hmasked

/-- What a handler leaves when it returns. -/
def Returns (s : System) (a : Activation) (_ : Unit) (t : Machine × List ℕ) : Prop :=
  Expected a.origin t.2 ∧ Suspended s.phase s.main { t.1 with enabled := a.resumeEnabled }

/-- The invariant of the system. -/
structure Safe (p : Profile) (s : System) : Prop where
  running : s.handler = none → Suspended s.phase s.main s.machine
  handling : ∀ a, s.handler = some a → ∃ v, s.machine.Like v ∧
    Holds (handlerRules p s.phase) (Returns s a) a.code (v, a.cleared)

theorem safe_start {s : System} (h : s.Starting p) : Safe p s where
  running := by
    intro _
    have hentry : Entry .boot s.machine := ⟨h.enabled, fun hl => absurd rfl hl, h.timerIrqs⟩
    rw [h.phase, h.main]
    exact .closed s.machine h.enabled (.refl _) (body_holds p hentry)
  handling := by
    intro a ha
    rw [h.handler] at ha
    cases ha

theorem safe_enter {s : System} {origin : Origin} {vector : ℕ} {m : Machine}
    (h : Holds (handlerRules p s.phase) (fun _ t => Expected origin t.2 ∧
      Suspended s.phase s.main { t.1 with enabled := s.machine.enabled }) (irqDispatch p vector)
      ({ m with enabled := false }, [])) : Safe p (s.enter origin vector p m) where
  running := nofun
  handling := by
    intro a ha
    obtain rfl := Option.some.inj ha
    exact ⟨_, .refl _, h⟩

theorem safe_accept {s : System} (h : Safe p s) (hhandler : s.handler = none)
    (he : s.machine.enabled = true) : Safe p (s.enter s.machine.acknowledge.1
      s.machine.acknowledge.2.1 p s.machine.acknowledge.2.2) := by
  apply safe_enter
  cases h.running hhandler with
  | closed v hclosed =>
    rw [hclosed] at he
    cases he
  | window hw hcode =>
    rcases hw.acknowledge with hack | ⟨n, hn, hack, htimer, hkeyboard⟩
    · rw [hack]
      apply irqDispatch_spurious (s := ({ s.machine with enabled := false }, [])) (.inl rfl)
        hw.masked.counted rfl (hw.idle.setEnabled false)
      intro m hm
      have hlike : ({ m with enabled := s.machine.enabled } : Machine).Like s.machine :=
        hm.setEnabled _
      exact ⟨rfl, .window (hlike.window hw) hcode⟩
    · rw [hack]
      apply irqDispatch_device (s := ({ s.machine with
        master := s.machine.master.serve n, enabled := false }, [])) hn hw.serving htimer hkeyboard
      intro m _ hidle hmasked
      refine ⟨rfl, .window ?_ hcode⟩
      exact ⟨hw.loop, he, hidle.setEnabled _, hmasked.setEnabled _⟩

theorem safe_cascade {s : System} (h : Safe p s) (hhandler : s.handler = none)
    (he : s.machine.enabled = true) : Safe p (s.enter .spuriousSlave
      (s.machine.slave.base.toNat + 7) p { s.machine with master := s.machine.master.serve 2 }) := by
  apply safe_enter
  cases h.running hhandler with
  | closed v hclosed =>
    rw [hclosed] at he
    cases he
  | window hw hcode =>
    have hvector : s.machine.slave.base.toNat + 7 = 0x2f := by
      rw [hw.idle.slaveBase]
      rfl
    rw [hvector]
    apply irqDispatch_cascade (s := ({ s.machine with
      master := s.machine.master.serve 2, enabled := false }, [])) hw.serving
    intro m _ hidle hmasked
    refine ⟨.inr rfl, .window ?_ hcode⟩
    exact ⟨hw.loop, he, hidle.setEnabled _, hmasked.setEnabled _⟩

theorem safe_software {s : System} {vector : ℕ} (h : Safe p s) (hhandler : s.handler = none)
    (hphase : s.phase ≠ .boot) (hvector : vector = 0x27 ∨ vector = 0x2f) :
    Safe p (s.enter (.software vector) vector p s.machine) := by
  have hmain := h.running hhandler
  have hidle := hmain.idle hphase
  apply safe_enter
  apply irqDispatch_spurious (s := ({ s.machine with enabled := false }, [])) hvector
    hmain.counted rfl (hidle.setEnabled false)
  intro m hm
  have hlike : ({ m with enabled := s.machine.enabled } : Machine).Like s.machine :=
    hm.setEnabled _
  exact ⟨.inl rfl, hmain.like hlike⟩

theorem safe_handle {s : System} {a : Activation} {i : Op} {next : i.Answer → Code Unit}
    {r : i.Answer} {m : Machine} (h : Safe p s) (ha : s.handler = some a)
    (hcode : a.code = .act i next) (hstep : perform i s.machine r m) :
    Safe p { s with
      machine := m
      handler := some { a with code := next r, cleared := a.cleared ++ s.machine.cleared m } } where
  running := nofun
  handling := by
    intro b hb
    obtain rfl := Option.some.inj hb
    obtain ⟨v, hv, hholds⟩ := h.handling a ha
    rw [hcode] at hholds
    obtain ⟨-, -, hnext⟩ := hholds
    obtain ⟨w, hview, hw⟩ := perform_like hv hstep
    rw [hv.cleared hw]
    exact ⟨w, hw, hnext r (w, a.cleared ++ v.cleared w) ⟨hview, rfl⟩⟩

theorem safe_iret {s : System} {a : Activation} (h : Safe p s) (ha : s.handler = some a)
    (hcode : a.code = .done ()) :
    Safe p { s with machine := { s.machine with enabled := a.resumeEnabled }, handler := none } where
  running := by
    intro _
    obtain ⟨v, hv, hholds⟩ := h.handling a ha
    rw [hcode] at hholds
    obtain ⟨-, -, hmain⟩ := hholds
    exact hmain.like (hv.setEnabled a.resumeEnabled)
  handling := nofun

/-- Edges and vanishing requests change IRR alone. -/
theorem safe_request {s : System} {m : Machine} (h : Safe p s) (hm : m.Like s.machine) :
    Safe p { s with machine := m } where
  running := fun hhandler => (h.running hhandler).like hm
  handling := by
    intro a ha
    obtain ⟨v, hv, hholds⟩ := h.handling a ha
    exact ⟨v, hm.trans hv, hholds⟩

/-- Every step preserves the invariant. -/
theorem safe_step {s t : System} (h : Safe p s) (hstep : Step p s t) : Safe p t := by
  cases hstep with
  | request irr irr' =>
    apply safe_request h
    exact ⟨⟨rfl, rfl, rfl, rfl, id⟩, ⟨rfl, rfl, rfl, rfl, id⟩, rfl, rfl⟩
  | main i next r m hhandler _ hmain hperform =>
    refine ⟨fun _ => ?_, fun a ha => ?_⟩
    · have hsuspended := h.running hhandler
      rw [hmain] at hsuspended
      exact hsuspended.act hperform
    · change s.handler = some a at ha
      rw [hhandler] at ha
      cases ha
  | jump l hhandler _ hmain =>
    refine ⟨fun _ => ?_, fun a ha => ?_⟩
    · have hsuspended := h.running hhandler
      rw [hmain] at hsuspended
      exact hsuspended.jump
    · change s.handler = some a at ha
      rw [hhandler] at ha
      cases ha
  | accept hhandler he _ => exact safe_accept h hhandler he
  | cascade hhandler he _ => exact safe_cascade h hhandler he
  | software vector hhandler _ hphase hvector => exact safe_software h hhandler hphase hvector
  | handle a i next r m ha hcode hperform => exact safe_handle h ha hcode hperform
  | iret a ha hcode => exact safe_iret h ha hcode

theorem safe_reachable {s : System} (h : Reachable p s) : Safe p s := by
  induction h with
  | start s hs => exact safe_start hs
  | step s t _ hstep ih => exact safe_step ih hstep

theorem Safe.counted {s : System} (h : Safe p s) : Counted s.phase s.machine := by
  cases ha : s.handler with
  | none => exact (h.running ha).counted
  | some a =>
    obtain ⟨v, hv, hholds⟩ := h.handling a ha
    rw [Counted, hv.timerIrqs]
    exact hholds.always

/-- With the count at 2, no window accepts line 0. -/
theorem Safe.vector_ne {s t : System} {a : Activation} (h : Safe p s) (hstep : Step p s t)
    (hhandler : s.handler = none) (hcount : s.machine.timerIrqs = 2) (ha : t.handler = some a) :
    a.vector ≠ vectorBase := by
  have hwindow : s.machine.enabled = true → Window s.phase s.machine := by
    intro he
    cases h.running hhandler with
    | closed v hclosed =>
      rw [hclosed] at he
      cases he
    | window hw _ => exact hw
  cases hstep with
  | request irr irr' =>
    change s.handler = some a at ha
    rw [hhandler] at ha
    cases ha
  | main i next r m =>
    change s.handler = some a at ha
    rw [hhandler] at ha
    cases ha
  | jump l =>
    change s.handler = some a at ha
    rw [hhandler] at ha
    cases ha
  | accept _ he _ =>
    obtain rfl := Option.some.inj ha
    rcases (hwindow he).acknowledge with hack | ⟨n, hn, hack, htimer, _⟩
    · change s.machine.acknowledge.2.1 ≠ vectorBase
      rw [hack]
      exact show (0x27 : ℕ) ≠ vectorBase by decide
    · change s.machine.acknowledge.2.1 ≠ vectorBase
      rw [hack]
      intro heq
      have hlt := (htimer (Nat.add_eq_left.mp heq)).2
      omega
  | cascade _ he _ =>
    obtain rfl := Option.some.inj ha
    change s.machine.slave.base.toNat + 7 ≠ vectorBase
    rw [(hwindow he).idle.slaveBase]
    decide
  | software vector _ _ _ hvector =>
    obtain rfl := Option.some.inj ha
    change vector ≠ vectorBase
    rw [vectorBase]
    omega
  | handle a' i next r m ha' =>
    rw [hhandler] at ha'
    cases ha'
  | iret a' ha' =>
    rw [hhandler] at ha'
    cases ha'

/-- In every run no assertion of the handler or of the timer demonstration fails, every vector ends
exactly the service it began, nothing is in service while the main flow runs, and line 0 is delivered
exactly twice. The one panic left to the handler is the wrap of a counter of received bytes. -/
theorem interrupts_safe {s : System} (h : Reachable p s) :
    (∀ a text, s.handler = some a → a.code = .fail text →
        p = .dev ∧ text = overflowText ∧ s.phase = .keyboardLoop) ∧
      (∀ a, s.handler = some a → a.code = .done () → Expected a.origin a.cleared) ∧
      (s.handler = none → s.phase ≠ .boot → s.machine.master.isr = 0 ∧ s.machine.slave.isr = 0) ∧
      (∀ text, s.handler = none → s.main = .fail text → s.phase.AfterTimer) ∧
      s.machine.timerIrqs ≤ 2 ∧
      (s.phase.AfterTimer → s.machine.timerIrqs = 2) ∧
      (∀ t a, Step p s t → s.handler = none → s.machine.timerIrqs = 2 → t.handler = some a →
        a.vector ≠ vectorBase) := by
  have hsafe := safe_reachable h
  refine ⟨?_, ?_, ?_, ?_, hsafe.counted.1, hsafe.counted.2, ?_⟩
  · intro a text ha hcode
    obtain ⟨v, _, hholds⟩ := hsafe.handling a ha
    rw [hcode] at hholds
    exact hholds.2
  · intro a ha hcode
    obtain ⟨v, _, hholds⟩ := hsafe.handling a ha
    rw [hcode] at hholds
    exact hholds.2.1
  · intro hhandler hphase
    have hidle := (hsafe.running hhandler).idle hphase
    exact ⟨hidle.masterService, hidle.slaveService⟩
  · intro text hhandler hmain
    obtain ⟨v, _, hholds⟩ := (hsafe.running hhandler).holds
    rw [hmain] at hholds
    exact hholds.2
  · intro t a hstep hhandler hcount ha
    exact hsafe.vector_ne hstep hhandler hcount ha

/-- The system at reset, with every line of the master pending and a service left over. -/
def System.reset : System where
  machine := {
    master := ⟨0xff, 0, 0x80, 0x08, 0, false⟩
    slave := ⟨0, 0, 0, 0x70, 0, false⟩
    enabled := false
    timerIrqs := 0
    receiver := .initial }
  phase := .boot
  main := body .release .boot
  handler := none
  shadow := false
  halted := false

/-- One of the answers an action may get: every port but those of the controllers reads zero. -/
def Op.respond : (i : Op) → Machine → i.Answer × Machine
  | .out port value, m => ((), m.out port value)
  | .read port, m =>
    (if port = masterCommand then m.master.status
      else if port = masterData then m.master.imr
      else if port = slaveCommand then m.slave.status
      else if port = slaveData then m.slave.imr
      else 0, m)
  | .setInterrupts enabled, m => ((), { m with enabled := enabled })
  | .halt, m => ((), m)
  | .interruptsEnabled, m => (m.enabled, m)
  | .loadTimer, m => (m.timerIrqs, m)
  | .countTimer, m => (m.timerIrqs, { m with timerIrqs := (m.timerIrqs + 1) % 2 ^ 64 })
  | .receive x, m =>
    match x.run m.receiver with
    | .ok _ u => (.ok (), { m with receiver := u })
    | .error e u => (.error e, { m with receiver := u })

theorem Op.respond_performs (i : Op) (m : Machine) : perform i m (Op.respond i m).1 (Op.respond i m).2 := by
  cases i with
  | read port =>
    refine ⟨⟨?_, ?_, ?_, ?_⟩, rfl⟩ <;>
      · rintro rfl
        rfl
  | interruptsEnabled => exact ⟨rfl, rfl⟩
  | loadTimer => exact ⟨rfl, rfl⟩
  | countTimer => exact ⟨rfl, rfl⟩
  | receive x =>
    simp only [perform, Op.respond]
    cases EStateM.run x m.receiver with
    | ok _ u => exact ⟨rfl, rfl⟩
    | error e u => exact ⟨rfl, rfl⟩
  | _ => rfl

/-- The steps of a run that is written down. -/
inductive Move
  | request (irr irr' : BitVec 8)
  | main
  | jump
  | accept
  | software (vector : ℕ)
  | handle
  | iret

def System.move (p : Profile) (s : System) : Move → Option System
  | .request irr irr' => some { s with machine := { s.machine with
      master := { s.machine.master with irr := irr }, slave := { s.machine.slave with irr := irr' } } }
  | .main =>
    if s.handler.isNone ∧ s.halted = false then
      match s.main with
      | .act i next =>
        let r := Op.respond i s.machine
        some { s with
          machine := r.2
          main := next r.1
          shadow := i matches .setInterrupts true
          halted := i matches .halt }
      | _ => none
    else none
  | .jump =>
    if s.handler.isNone ∧ s.halted = false then
      match s.main with
      | .done l => some { s with phase := l, main := body p l }
      | _ => none
    else none
  | .accept =>
    if s.handler.isNone ∧ s.machine.enabled = true ∧ s.shadow = false then
      some (s.enter s.machine.acknowledge.1 s.machine.acknowledge.2.1 p s.machine.acknowledge.2.2)
    else none
  | .software vector =>
    if s.handler.isNone ∧ s.halted = false ∧ s.phase ≠ .boot ∧ (vector = 0x27 ∨ vector = 0x2f) then
      some (s.enter (.software vector) vector p s.machine)
    else none
  | .handle =>
    match s.handler with
    | some ⟨origin, vector, resumeEnabled, cleared, .act i next⟩ =>
      let r := Op.respond i s.machine
      some { s with
        machine := r.2
        handler := some ⟨origin, vector, resumeEnabled, cleared ++ s.machine.cleared r.2, next r.1⟩ }
    | _ => none
  | .iret =>
    match s.handler with
    | some ⟨_, _, resumeEnabled, _, .done ()⟩ =>
      some { s with machine := { s.machine with enabled := resumeEnabled }, handler := none }
    | _ => none

theorem System.move_step {s t : System} {a : Move} (h : s.move p a = some t) : Step p s t := by
  cases a with
  | request irr irr' =>
    cases h
    exact .request s irr irr'
  | main =>
    rw [System.move] at h
    split at h
    · rename_i hfree
      split at h
      · rename_i i next hmain
        cases h
        have hstep := Step.main (p := p) s i next _ _ (Option.isNone_iff_eq_none.mp hfree.1) hfree.2 hmain
          (Op.respond_performs i s.machine)
        cases i with
        | setInterrupts enabled => cases enabled <;> exact hstep
        | _ => exact hstep
      · cases h
    · cases h
  | jump =>
    rw [System.move] at h
    split at h
    · rename_i hfree
      split at h
      · rename_i l hmain
        cases h
        exact .jump s l (Option.isNone_iff_eq_none.mp hfree.1) hfree.2 hmain
      · cases h
    · cases h
  | accept =>
    rw [System.move] at h
    split at h
    · rename_i hopen
      cases h
      exact .accept s (Option.isNone_iff_eq_none.mp hopen.1) hopen.2.1 hopen.2.2
    · cases h
  | software vector =>
    rw [System.move] at h
    split at h
    · rename_i hfree
      cases h
      exact .software s vector (Option.isNone_iff_eq_none.mp hfree.1) hfree.2.1 hfree.2.2.1 hfree.2.2.2
    · cases h
  | handle =>
    rw [System.move] at h
    split at h
    · rename_i origin vector resumeEnabled cleared i next hhandler
      cases h
      exact .handle s _ i next _ _ hhandler rfl (Op.respond_performs i _)
    · cases h
  | iret =>
    rw [System.move] at h
    split at h
    · rename_i origin vector resumeEnabled cleared hhandler
      cases h
      exact .iret s _ hhandler rfl
    · cases h

def System.play (p : Profile) : List Move → System → Option System
  | [], s => some s
  | a :: moves, s => (s.move p a).bind (System.play p moves)

theorem System.play_reachable {moves : List Move} {s t : System} (hs : Reachable p s)
    (h : System.play p moves s = some t) : Reachable p t := by
  induction moves generalizing s with
  | nil =>
    cases h
    exact hs
  | cons a moves ih =>
    obtain ⟨u, hu, hrest⟩ := Option.bind_eq_some_iff.mp h
    exact ih (.step s u hs (System.move_step hu)) hrest

/-- The handler is about to return. -/
def System.returning (s : System) : Bool :=
  match s.handler with
  | some ⟨_, _, _, _, .done ()⟩ => true
  | _ => false

theorem System.returning_code {s : System} (h : s.returning = true) :
    ∃ a, s.handler = some a ∧ a.code = .done () := by
  unfold System.returning at h
  split at h
  · rename_i hhandler
    exact ⟨_, hhandler, rfl⟩
  · cases h

theorem System.reset_reachable : Reachable .release System.reset :=
  .start _ ⟨rfl, rfl, rfl, rfl, rfl, rfl⟩

/-- From reset into the first window of the timer loop. -/
def toWindow : List Move :=
  List.replicate 27 .main ++ [.jump] ++ List.replicate 6 .main ++ [.jump, .main, .main, .main]

/-- The first interrupt of the timer, up to the return of its handler. -/
def firstTick : List Move := toWindow ++ [.request 1 0, .accept] ++ List.replicate 11 .handle

/-- The second one, which is taken in the window of the next round and masks all lines. -/
def secondTick : List Move :=
  firstTick ++ [.iret, .main, .jump, .main, .main, .main, .request 1 0, .accept] ++
    List.replicate 13 .handle ++ [.iret]

/-- A third edge of the timer is answered with the spurious vector, and the loop ends. -/
def toKeyboard : List Move :=
  secondTick ++ [.request 1 0, .accept] ++ List.replicate 5 .handle ++ [.iret, .main, .jump] ++
    List.replicate 8 .main ++ [.jump]

/-- The state a run from reset leads to. -/
def System.after (moves : List Move) : System :=
  (System.play .release moves System.reset).getD System.reset

theorem System.after_reachable {moves : List Move}
    (h : (System.play .release moves System.reset).isSome = true) : Reachable .release (System.after moves) := by
  obtain ⟨s, hs⟩ := Option.isSome_iff_exists.mp h
  rw [System.after, hs]
  exact System.play_reachable System.reset_reachable hs

/-- At the end of the first activation the handler has ended the service of line 0 and nothing else;
between the second activation and the next vector nothing is in service, and an edge latched on line 0
is not delivered again; the timer demonstration ends with the count at 2. -/
theorem interrupts_safe_sample :
    (∃ a, (System.after firstTick).handler = some a ∧ a.origin = .device 0 ∧ a.vector = vectorBase ∧
      a.code = .done () ∧ a.cleared = [0] ∧ (System.after firstTick).machine.timerIrqs = 1) ∧
    ((System.after secondTick).handler = none ∧ (System.after secondTick).phase = .timerLoop ∧
      (System.after secondTick).machine.enabled = true ∧ (System.after secondTick).machine.master.isr = 0 ∧
      (System.after secondTick).machine.slave.isr = 0) ∧
    (∃ t a, Step .release (System.after (secondTick ++ [.request 1 0])) t ∧ t.handler = some a ∧
      a.vector ≠ vectorBase) ∧
    (System.after toKeyboard).phase = .keyboard ∧ (System.after toKeyboard).machine.timerIrqs = 2 := by
  have hfirst : Reachable .release (System.after firstTick) := System.after_reachable (by decide +kernel)
  have hsecond : Reachable .release (System.after secondTick) := System.after_reachable (by decide +kernel)
  have hthird : Reachable .release (System.after (secondTick ++ [.request 1 0])) :=
    System.after_reachable (by decide +kernel)
  have hkeyboard : Reachable .release (System.after toKeyboard) := System.after_reachable (by decide +kernel)
  have hphase : (System.after toKeyboard).phase = .keyboard := by decide +kernel
  refine ⟨?_, ?_, ?_, hphase, ?_⟩
  · obtain ⟨a, ha, hcode⟩ := System.returning_code (s := System.after firstTick) (by decide +kernel)
    have horigin : (System.after firstTick).handler.map (·.origin) = some (.device 0) := by decide +kernel
    have hvector : (System.after firstTick).handler.map (·.vector) = some vectorBase := by decide +kernel
    rw [ha] at horigin hvector
    have horigin : a.origin = .device 0 := Option.some.inj horigin
    obtain ⟨_, hcleared, _⟩ := interrupts_safe hfirst
    have hlines := hcleared a ha hcode
    rw [horigin] at hlines
    exact ⟨a, ha, horigin, Option.some.inj hvector, hcode, hlines, by decide +kernel⟩
  · obtain ⟨_, _, hservice, _⟩ := interrupts_safe hsecond
    have hidle : (System.after secondTick).handler = none :=
      Option.isNone_iff_eq_none.mp (by decide +kernel)
    have hloop : (System.after secondTick).phase = .timerLoop := by decide +kernel
    exact ⟨hidle, hloop, by decide +kernel, hservice hidle (by rw [hloop]; decide)⟩
  · obtain ⟨_, _, _, _, _, _, hdelivered⟩ := interrupts_safe hthird
    have hidle : (System.after (secondTick ++ [.request 1 0])).handler = none :=
      Option.isNone_iff_eq_none.mp (by decide +kernel)
    have hstep := Step.accept (p := .release) _ hidle (by decide +kernel) (by decide +kernel)
    exact ⟨_, _, hstep, rfl, hdelivered _ _ hstep hidle (by decide +kernel) rfl⟩
  · obtain ⟨_, _, _, _, _, hcount, _⟩ := interrupts_safe hkeyboard
    exact hcount (by rw [hphase]; trivial)

end System

end MikoOS.Interrupt
