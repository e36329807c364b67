import MikoOS.Pic

/-!
# The interrupt controllers up to pending requests

Device requests only ever change IRR, and an INT instruction between two steps of the main flow only
selects ISR for reading, so the code is checked against a machine known up to those two (`Like`). The
main flow and the handler are two disciplines over these machines; both see the ports alike.
-/

namespace MikoOS.Interrupt

open Rust Process

/-- `c` is `d` up to IRR, and reads ISR at least when `d` does. -/
structure Chip.Like (c d : Chip) : Prop where
  imr : c.imr = d.imr
  isr : c.isr = d.isr
  base : c.base = d.base
  words : c.words = d.words
  readsIsr : d.readsIsr = true → c.readsIsr = true

structure Machine.Like (m v : Machine) : Prop where
  master : m.master.Like v.master
  slave : m.slave.Like v.slave
  enabled : m.enabled = v.enabled
  timerIrqs : m.timerIrqs = v.timerIrqs

theorem Chip.Like.refl (c : Chip) : c.Like c := ⟨rfl, rfl, rfl, rfl, id⟩

theorem Chip.Like.trans {b c d : Chip} (h : b.Like c) (h' : c.Like d) : b.Like d where
  imr := h.imr.trans h'.imr
  isr := h.isr.trans h'.isr
  base := h.base.trans h'.base
  words := h.words.trans h'.words
  readsIsr := fun hd => h.readsIsr (h'.readsIsr hd)

theorem Chip.Like.command {c d : Chip} (h : c.Like d) (value : BitVec 8) :
    (c.command value).Like (d.command value) := by
  unfold Chip.command
  split
  · exact ⟨rfl, rfl, h.base, rfl, id⟩
  · split
    · split
      · exact ⟨h.imr, h.isr, h.base, h.words, id⟩
      · exact h
    · split
      · exact ⟨h.imr, by rw [h.isr], h.base, h.words, h.readsIsr⟩
      · exact h

theorem Chip.Like.data {c d : Chip} (h : c.Like d) (value : BitVec 8) :
    (c.data value).Like (d.data value) := by
  unfold Chip.data
  rw [h.words]
  split
  · exact ⟨rfl, h.isr, h.base, rfl, h.readsIsr⟩
  · exact ⟨h.imr, h.isr, rfl, rfl, h.readsIsr⟩
  · exact ⟨h.imr, h.isr, h.base, rfl, h.readsIsr⟩

namespace Machine

theorem Like.refl (m : Machine) : m.Like m := ⟨.refl _, .refl _, rfl, rfl⟩

theorem Like.trans {m v w : Machine} (h : m.Like v) (h' : v.Like w) : m.Like w where
  master := h.master.trans h'.master
  slave := h.slave.trans h'.slave
  enabled := h.enabled.trans h'.enabled
  timerIrqs := h.timerIrqs.trans h'.timerIrqs

theorem Like.setEnabled {m v : Machine} (h : m.Like v) (enabled : Bool) :
    ({ m with enabled := enabled } : Machine).Like { v with enabled := enabled } :=
  ⟨h.master, h.slave, rfl, h.timerIrqs⟩

theorem Like.out {m v : Machine} (h : m.Like v) (port : ℕ) (value : BitVec 8) :
    (m.out port value).Like (v.out port value) := by
  unfold Machine.out
  split
  · exact ⟨h.master.command value, h.slave, h.enabled, h.timerIrqs⟩
  · split
    · exact ⟨h.master.data value, h.slave, h.enabled, h.timerIrqs⟩
    · split
      · exact ⟨h.master, h.slave.command value, h.enabled, h.timerIrqs⟩
      · split
        · exact ⟨h.master, h.slave.data value, h.enabled, h.timerIrqs⟩
        · exact h

theorem Like.cleared {m v t w : Machine} (h : m.Like v) (h' : t.Like w) :
    m.cleared t = v.cleared w := by
  rw [Machine.cleared, Machine.cleared, h.master.isr, h.slave.isr, h'.master.isr, h'.slave.isr]

/-- What a read may return on a machine whose pending requests are unknown. -/
def MayRead (v : Machine) (port : ℕ) (value : BitVec 8) : Prop :=
  (port = masterCommand → v.master.readsIsr = true → value = v.master.isr) ∧
    (port = masterData → value = v.master.imr) ∧
    (port = slaveCommand → v.slave.readsIsr = true → value = v.slave.isr) ∧
    (port = slaveData → value = v.slave.imr)

theorem Like.mayRead {m v : Machine} (h : m.Like v) {port : ℕ} {value : BitVec 8}
    (hread : m.Reads port value) : v.MayRead port value := by
  obtain ⟨h1, h2, h3, h4⟩ := hread
  refine ⟨fun hport hisr => ?_, fun hport => ?_, fun hport hisr => ?_, fun hport => ?_⟩
  · rw [h1 hport, Chip.status, h.master.readsIsr hisr, if_pos rfl, h.master.isr]
  · rw [h2 hport, h.master.imr]
  · rw [h3 hport, Chip.status, h.slave.readsIsr hisr, if_pos rfl, h.slave.isr]
  · rw [h4 hport, h.slave.imr]

end Machine

/-- `perform` on a machine known up to `Like`. -/
def viewStep : (i : Op) → Machine → i.Answer → Machine → Prop
  | .out port value, v, _, t => t = v.out port value
  | .read port, v, value, t => v.MayRead port value ∧ t = v
  | .setInterrupts enabled, v, _, t => t = { v with enabled := enabled }
  | .halt, v, _, t => t = v
  | .interruptsEnabled, v, enabled, t => enabled = v.enabled ∧ t = v
  | .loadTimer, v, n, t => n = v.timerIrqs ∧ t = v
  | .countTimer, v, n, t => n = v.timerIrqs ∧ t = { v with timerIrqs := (n + 1) % 2 ^ 64 }
  | .receive x, v, r, t => (∀ e, r = .error e → ∃ u u', x.run u = .error e u') ∧ t = v

theorem perform_like {i : Op} {m v t : Machine} {r : i.Answer} (h : m.Like v)
    (hstep : perform i m r t) : ∃ w, viewStep i v r w ∧ t.Like w := by
  cases i with
  | out port value =>
    obtain rfl := hstep
    exact ⟨_, rfl, h.out port value⟩
  | read port =>
    obtain ⟨hread, rfl⟩ := hstep
    exact ⟨v, ⟨h.mayRead hread, rfl⟩, h⟩
  | setInterrupts enabled =>
    obtain rfl := hstep
    exact ⟨_, rfl, h.setEnabled enabled⟩
  | halt =>
    obtain rfl := hstep
    exact ⟨v, rfl, h⟩
  | interruptsEnabled =>
    obtain ⟨hr, rfl⟩ := hstep
    exact ⟨v, ⟨hr.trans h.enabled, rfl⟩, h⟩
  | loadTimer =>
    obtain ⟨hr, rfl⟩ := hstep
    exact ⟨v, ⟨hr.trans h.timerIrqs, rfl⟩, h⟩
  | countTimer =>
    obtain ⟨hr, rfl⟩ := hstep
    exact ⟨_, ⟨hr.trans h.timerIrqs, rfl⟩, ⟨h.master, h.slave, h.enabled, rfl⟩⟩
  | receive x =>
    cases hx : x.run m.receiver with
    | ok a u =>
      simp only [perform, hx] at hstep
      obtain ⟨rfl, rfl⟩ := hstep
      exact ⟨v, ⟨fun e he => absurd he (by simp), rfl⟩, ⟨h.master, h.slave, h.enabled, h.timerIrqs⟩⟩
    | error e u =>
      simp only [perform, hx] at hstep
      obtain ⟨rfl, rfl⟩ := hstep
      refine ⟨v, ⟨fun e' he => ?_, rfl⟩, ⟨h.master, h.slave, h.enabled, h.timerIrqs⟩⟩
      cases he
      exact ⟨_, _, hx⟩

/-- Both chips are initialized and nothing is in service. -/
structure Idle (v : Machine) : Prop where
  masterWords : v.master.words = 0
  slaveWords : v.slave.words = 0
  masterBase : v.master.base = 0x20
  slaveBase : v.slave.base = 0x28
  masterService : v.master.isr = 0
  slaveService : v.slave.isr = 0

theorem Machine.Like.idle {m v : Machine} (h : m.Like v) (hv : Idle v) : Idle m where
  masterWords := h.master.words.trans hv.masterWords
  slaveWords := h.slave.words.trans hv.slaveWords
  masterBase := h.master.base.trans hv.masterBase
  slaveBase := h.slave.base.trans hv.slaveBase
  masterService := h.master.isr.trans hv.masterService
  slaveService := h.slave.isr.trans hv.slaveService

/-- The masks and the count at the head of each part. -/
def Masked : Label → Machine → Prop
  | .boot, v => v.timerIrqs = 0
  | .timer, v => v.slave.imr = 0xff ∧ v.master.imr = 0xff ∧ v.timerIrqs = 0
  | .timerLoop, v => v.slave.imr = 0xff ∧
      ((v.master.imr = 0xfe ∧ v.timerIrqs < 2) ∨ (v.master.imr = 0xff ∧ v.timerIrqs = 2))
  | .keyboard, v => v.slave.imr = 0xff ∧ v.master.imr = 0xff ∧ v.timerIrqs = 2
  | .keyboardLoop, v => v.slave.imr = 0xff ∧ v.master.imr = 0xfd ∧ v.timerIrqs = 2

theorem Machine.Like.masked {m v : Machine} (h : m.Like v) {l : Label} (hv : Masked l v) :
    Masked l m := by
  cases l <;> simpa only [Masked, h.master.imr, h.slave.imr, h.timerIrqs] using hv

/-- The count is at most 2, and exactly 2 once the demonstration is over. -/
def Counted (l : Label) (v : Machine) : Prop :=
  v.timerIrqs ≤ 2 ∧ (l.AfterTimer → v.timerIrqs = 2)

theorem Masked.counted {l : Label} {v : Machine} (h : Masked l v) : Counted l v := by
  cases l with
  | boot => exact ⟨by rw [h]; decide, fun h => h.elim⟩
  | timer => exact ⟨by rw [h.2.2]; decide, fun h => h.elim⟩
  | timerLoop =>
    refine ⟨?_, fun h => h.elim⟩
    rcases h.2 with h | h
    · omega
    · omega
  | keyboard => exact ⟨by rw [h.2.2], fun _ => h.2.2⟩
  | keyboardLoop => exact ⟨by rw [h.2.2], fun _ => h.2.2⟩

/-- The head of a part. -/
structure Entry (l : Label) (v : Machine) : Prop where
  enabled : v.enabled = false
  idle : l ≠ .boot → Idle v
  masked : Masked l v

/-- The main flow is between STI and CLI. -/
structure Window (l : Label) (v : Machine) : Prop where
  loop : l = .timerLoop ∨ l = .keyboardLoop
  enabled : v.enabled = true
  idle : Idle v
  masked : Masked l v

/-- The actions during which the window is open. -/
def Op.opens : Op → Bool
  | .setInterrupts enabled => enabled
  | .halt => true
  | _ => false

def mainRules (l : Label) : Discipline Op Op.Answer Machine where
  always v := (l ≠ .boot → Idle v) ∧ Counted l v
  may i v := if i.opens then (i = .halt → v.enabled = true) ∧ Window l { v with enabled := true }
    else v.enabled = false ∨ i = .setInterrupts false
  step i v r t := if i.opens then Window l t else viewStep i v r t
  stop _ := l.AfterTimer

/-- The second component collects the in-service bits cleared so far. -/
def handlerRules (p : Profile) (l : Label) : Discipline Op Op.Answer (Machine × List ℕ) where
  always s := Counted l s.1
  may i _ := i.opens = false
  step i s r t := viewStep i s.1 r t.1 ∧ t.2 = s.2 ++ s.1.cleared t.1
  stop text := p = .dev ∧ text = overflowText ∧ l = .keyboardLoop

section Ports

variable {σ : Type} {D : Discipline Op Op.Answer σ} {view : σ → Machine}
  {put : ℕ → BitVec 8 → σ → σ}

/-- `D` treats port accesses as the chips do. -/
structure Ported (D : Discipline Op Op.Answer σ) (view : σ → Machine) (put : ℕ → BitVec 8 → σ → σ) :
    Prop where
  may_out : ∀ port value s, (view s).enabled = false → D.may (.out port value) s
  may_read : ∀ port s, (view s).enabled = false → D.may (.read port) s
  step_out : ∀ port value s r t, D.step (.out port value) s r t → t = put port value s
  step_read : ∀ port s value t, D.step (.read port) s value t → t = s ∧ (view s).MayRead port value
  view_put : ∀ port value s, view (put port value s) = (view s).out port value

theorem ported_main (l : Label) : Ported (mainRules l) id Machine.out where
  may_out := fun _ _ _ h => .inl h
  may_read := fun _ _ h => .inl h
  step_out := fun _ _ _ _ _ h => h
  step_read := fun _ _ _ _ h => ⟨h.2, h.1⟩
  view_put := fun _ _ _ => rfl

/-- A write in the handler, with the in-service bits it clears. -/
def logged (port : ℕ) (value : BitVec 8) (s : Machine × List ℕ) : Machine × List ℕ :=
  (s.1.out port value, s.2 ++ s.1.cleared (s.1.out port value))

theorem Machine.cleared_of_isr {m t : Machine} (h1 : t.master.isr = m.master.isr)
    (h2 : t.slave.isr = m.slave.isr) : m.cleared t = [] := by
  have hnone : ∀ (first : ℕ) (service : BitVec 8), Machine.lines first (service &&& ~~~service) = [] := by
    intro first service
    rw [BitVec.and_not_self]
    rfl
  rw [Machine.cleared, h1, h2, hnone, hnone, List.append_nil]

theorem Machine.cleared_self (m : Machine) : m.cleared m = [] := cleared_of_isr rfl rfl

theorem logged_of_isr {port : ℕ} {value : BitVec 8} {s : Machine × List ℕ}
    (h1 : (s.1.out port value).master.isr = s.1.master.isr)
    (h2 : (s.1.out port value).slave.isr = s.1.slave.isr) :
    logged port value s = (s.1.out port value, s.2) := by
  rw [logged, Machine.cleared_of_isr h1 h2, List.append_nil]

theorem ported_handler (p : Profile) (l : Label) : Ported (handlerRules p l) Prod.fst logged where
  may_out := fun _ _ _ _ => rfl
  may_read := fun _ _ _ => rfl
  step_out := by
    rintro port value s r ⟨t, cleared⟩ ⟨h1, h2⟩
    obtain rfl : t = s.1.out port value := h1
    obtain rfl : cleared = s.2 ++ s.1.cleared (s.1.out port value) := h2
    rfl
  step_read := by
    rintro port s value ⟨t, cleared⟩ ⟨⟨hread, h1⟩, h2⟩
    obtain rfl : t = s.1 := h1
    rw [Machine.cleared_self, List.append_nil] at h2
    exact ⟨Prod.ext rfl h2, hread⟩
  view_put := fun _ _ _ => rfl

variable (hD : Ported D view put) {s : σ}

include hD

theorem out8_holds {post : Unit → σ → Prop} (port : ℕ) (value : BitVec 8) (hs : D.always s)
    (he : (view s).enabled = false) (ht : D.always (put port value s))
    (h : post () (put port value s)) : Holds D post (out8 port value) s := by
  apply holds_issue hs (hD.may_out port value s he)
  intro r t hstep
  rw [hD.step_out port value s r t hstep]
  exact ⟨ht, h⟩

theorem in8_holds {post : BitVec 8 → σ → Prop} (port : ℕ) (hs : D.always s)
    (he : (view s).enabled = false) (h : ∀ value, (view s).MayRead port value → post value s) :
    Holds D post (in8 port) s := by
  apply holds_issue hs (hD.may_read port s he)
  intro value t hstep
  obtain ⟨rfl, hread⟩ := hD.step_read port s value t hstep
  exact ⟨hs, h value hread⟩

end Ports

/-- Both chips with ISR selected for reading. -/
def Machine.select (m : Machine) : Machine :=
  { m with
    master := { m.master with readsIsr := true }
    slave := { m.slave with readsIsr := true } }

def Machine.service (m : Machine) : BitVec 16 :=
  m.master.isr.setWidth 16 ||| m.slave.isr.setWidth 16 <<< 8

theorem Machine.service_eq_zero {m : Machine} (h1 : m.master.isr = 0) (h2 : m.slave.isr = 0) :
    m.service = 0 := by
  rw [Machine.service, h1, h2]
  rfl

theorem Machine.out_select (m : Machine) :
    (m.out masterCommand 0x0b).out slaveCommand 0x0b = m.select := rfl

theorem Machine.select_like (m : Machine) : m.select.Like m where
  master := ⟨rfl, rfl, rfl, rfl, fun _ => rfl⟩
  slave := ⟨rfl, rfl, rfl, rfl, fun _ => rfl⟩
  enabled := rfl
  timerIrqs := rfl

/-- Every line masked. -/
def Machine.allMasked (m : Machine) : Machine :=
  { m with master := { m.master with imr := 0xff }, slave := { m.slave with imr := 0xff } }

/-- Nothing of the master in service. -/
def Machine.ended (m : Machine) : Machine := { m with master := { m.master with isr := 0 } }

theorem Chip.data_mask {c : Chip} (h : c.words = 0) (value : BitVec 8) :
    c.data value = { c with imr := value } := by
  cases c
  obtain rfl := h
  rfl

theorem Machine.out_masterMask {m : Machine} (h : m.master.words = 0) (value : BitVec 8) :
    m.out masterData value = { m with master := { m.master with imr := value } } := by
  rw [← Chip.data_mask h]
  rfl

theorem Machine.out_slaveMask {m : Machine} (h : m.slave.words = 0) (value : BitVec 8) :
    m.out slaveData value = { m with slave := { m.slave with imr := value } } := by
  rw [← Chip.data_mask h]
  rfl

theorem Machine.out_allMasked {m : Machine} (h1 : m.master.words = 0) (h2 : m.slave.words = 0) :
    (m.out masterData 0xff).out slaveData 0xff = m.allMasked := by
  rw [out_masterMask h1, out_slaveMask (by exact h2)]
  rfl

section Shared

variable {σ : Type} {D : Discipline Op Op.Answer σ} {view : σ → Machine}
  {put : ℕ → BitVec 8 → σ → σ} (hD : Ported D view put) {s : σ}

include hD

theorem inService_holds {post : BitVec 16 → σ → Prop} (hs : D.always s)
    (hs' : D.always (put masterCommand 0x0b s))
    (ht : D.always (put slaveCommand 0x0b (put masterCommand 0x0b s)))
    (he : (view s).enabled = false)
    (h : post (view s).service (put slaveCommand 0x0b (put masterCommand 0x0b s))) :
    Holds D post inService s := by
  have hview : view (put slaveCommand 0x0b (put masterCommand 0x0b s)) = (view s).select := by
    rw [hD.view_put, hD.view_put, Machine.out_select]
  apply Holds.bind
  apply out8_holds hD _ _ hs he hs'
  apply Holds.bind
  apply out8_holds hD _ _ hs' (by rw [hD.view_put]; exact he) ht
  apply Holds.bind
  apply in8_holds hD _ ht (by rw [hview]; exact he)
  intro master hmaster
  apply Holds.bind
  apply in8_holds hD _ ht (by rw [hview]; exact he)
  intro slave hslave
  rw [hview] at hmaster hslave
  obtain rfl : master = (view s).master.isr := hmaster.1 rfl rfl
  obtain rfl : slave = (view s).slave.isr := hslave.2.2.1 rfl rfl
  exact holds_done ht h

theorem maskAll_holds {post : Unit → σ → Prop} (hs : D.always s)
    (hs' : D.always (put masterData 0xff s))
    (ht : D.always (put slaveData 0xff (put masterData 0xff s)))
    (he : (view s).enabled = false) (h : post () (put slaveData 0xff (put masterData 0xff s))) :
    Holds D post maskAll s := by
  apply Holds.bind
  apply out8_holds hD _ _ hs he hs'
  apply out8_holds hD _ _ hs' (by rw [hD.view_put]; exact he) ht
  exact h

end Shared

end MikoOS.Interrupt
