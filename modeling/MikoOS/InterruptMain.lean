import MikoOS.InterruptViews

/-!
# The main flow between interrupts

`interrupt::init`, `demonstrate_timer` and `keyboard::init` keep the discipline of the main flow, from
the entry of every part to the next one. In the open windows only what `Window` says is relied on.
-/

namespace MikoOS.Interrupt

open Rust Process

section Main

variable {l : Label} {v : Machine}

@[simp] theorem Machine.out_enabled (port : ℕ) (value : BitVec 8) (m : Machine) :
    (m.out port value).enabled = m.enabled := by
  unfold Machine.out
  split_ifs <;> rfl

@[simp] theorem Machine.out_timerIrqs (port : ℕ) (value : BitVec 8) (m : Machine) :
    (m.out port value).timerIrqs = m.timerIrqs := by
  unfold Machine.out
  split_ifs <;> rfl

theorem Entry.always (h : Entry l v) : (mainRules l).always v := ⟨h.idle, h.masked.counted⟩

theorem Window.always (h : Window l v) : (mainRules l).always v := ⟨fun _ => h.idle, h.masked.counted⟩

theorem Masked.setEnabled (h : Masked l v) (enabled : Bool) :
    Masked l { v with enabled := enabled } := by
  cases l <;> exact h

theorem Idle.setEnabled (h : Idle v) (enabled : Bool) : Idle { v with enabled := enabled } :=
  ⟨h.masterWords, h.slaveWords, h.masterBase, h.slaveBase, h.masterService, h.slaveService⟩

theorem issue_main {i : Op} {post : i.Answer → Machine → Prop} (hi : i.opens = false)
    (hs : (mainRules l).always v) (he : v.enabled = false)
    (h : ∀ r t, viewStep i v r t → (mainRules l).always t ∧ post r t) :
    Holds (mainRules l) post i.issue v := by
  apply holds_issue hs
  · change if i.opens then _ else _
    rw [hi]
    exact .inl he
  · intro r t hstep
    change if i.opens then _ else _ at hstep
    rw [hi] at hstep
    exact h r t hstep

/-- The window opens on a state it allows and closes on another. -/
theorem waitForInterrupt_holds {post : Unit → Machine → Prop} (hs : (mainRules l).always v)
    (hw : Window l { v with enabled := true })
    (h : ∀ t, Window l t → post () { t with enabled := false }) :
    Holds (mainRules l) post waitForInterrupt v := by
  have hopen : ∀ t, Window l t → Window l { t with enabled := true } := by
    intro t ht
    exact ⟨ht.loop, rfl, ht.idle.setEnabled true, ht.masked.setEnabled true⟩
  have hsti : (mainRules l).may (.setInterrupts true) v := ⟨nofun, hw⟩
  apply Holds.bind
  apply holds_issue hs hsti
  intro _ t ht
  refine ⟨Window.always ht, ?_⟩
  apply Holds.bind
  have hhlt : (mainRules l).may .halt t := ⟨fun _ => Window.enabled ht, hopen t ht⟩
  apply holds_issue (Window.always ht) hhlt
  intro _ u hu
  refine ⟨Window.always hu, ?_⟩
  have hcli : (mainRules l).may (.setInterrupts false) u := .inr rfl
  apply holds_issue (Window.always hu) hcli
  intro _ w hw
  obtain rfl : w = { u with enabled := false } := hw
  have hu : Window l u := hu
  refine ⟨⟨fun _ => hu.idle.setEnabled false, (hu.masked.setEnabled false).counted⟩, ?_⟩
  exact h u hu

theorem Holds.seq {α β : Type} {post : β → Machine → Prop} {x : Code α} {f : α → Code β}
    (hx : Holds (mainRules l) (fun _ t => t = v) x v)
    (hf : ∀ a, Holds (mainRules l) post (f a) v) : Holds (mainRules l) post (x >>= f) v := by
  apply Holds.bind
  apply hx.mono
  rintro a t - rfl
  exact hf a

/-- The ports of the other devices. -/
def Device (port : ℕ) : Prop := port ∉ [masterCommand, masterData, slaveCommand, slaveData]

instance (port : ℕ) : Decidable (Device port) :=
  inferInstanceAs (Decidable (port ∉ [masterCommand, masterData, slaveCommand, slaveData]))

theorem Machine.out_device {port : ℕ} (hport : Device port) (value : BitVec 8) (m : Machine) :
    m.out port value = m := by
  simp only [Device, List.mem_cons, List.not_mem_nil, or_false, not_or] at hport
  obtain ⟨h1, h2, h3, h4⟩ := hport
  rw [Machine.out, if_neg h1, if_neg h2, if_neg h3, if_neg h4]

theorem out8_device {post : Unit → Machine → Prop} {port : ℕ} (hport : Device port)
    (value : BitVec 8) (hs : (mainRules l).always v) (he : v.enabled = false) (h : post () v) :
    Holds (mainRules l) post (out8 port value) v := by
  have hout : v.out port value = v := Machine.out_device hport value v
  apply out8_holds (ported_main l) port value hs he
  · rw [hout]
    exact hs
  · rw [hout]
    exact h

theorem boot_always (ht : v.timerIrqs = 0) : (mainRules .boot).always v :=
  ⟨fun h => absurd rfl h, by rw [ht]; decide, fun h => h.elim⟩

theorem out8_boot {post : Unit → Machine → Prop} (port : ℕ) (value : BitVec 8)
    (he : v.enabled = false) (ht : v.timerIrqs = 0) (h : post () (v.out port value)) :
    Holds (mainRules .boot) post (out8 port value) v := by
  apply out8_holds (ported_main .boot) _ _ (boot_always ht) he _ h
  exact boot_always (by rw [Machine.out_timerIrqs]; exact ht)

theorem writeInitialization_boot {post : Unit → Machine → Prop} (port : ℕ) (value : BitVec 8)
    (he : v.enabled = false) (ht : v.timerIrqs = 0) (h : post () (v.out port value)) :
    Holds (mainRules .boot) post (writeInitialization port value) v := by
  apply Holds.bind
  apply out8_boot port value he ht
  apply out8_boot 0x80 0 (by simpa using he) (by simpa using ht)
  exact h

theorem maskAll_boot {post : Unit → Machine → Prop} (he : v.enabled = false)
    (ht : v.timerIrqs = 0) (h : post () ((v.out masterData 0xff).out slaveData 0xff)) :
    Holds (mainRules .boot) post maskAll v := by
  apply Holds.bind
  apply out8_boot masterData 0xff he ht
  exact out8_boot slaveData 0xff (by simpa using he) (by simpa using ht) h

/-- The chips after the initialization words, whatever the firmware left. -/
def Machine.initialized (m : Machine) : Machine :=
  { m with master := ⟨0, 0xff, 0, 0x20, 0, false⟩, slave := ⟨0, 0xff, 0, 0x28, 0, false⟩ }

theorem picInit_boot {post : Unit → Machine → Prop} (he : v.enabled = false)
    (ht : v.timerIrqs = 0) (h : post () v.initialized) :
    Holds (mainRules .boot) post picInit v := by
  apply Holds.bind
  apply maskAll_boot he ht
  apply Holds.bind
  apply writeInitialization_boot _ _ (by simpa using he) (by simpa using ht)
  apply Holds.bind
  apply writeInitialization_boot _ _ (by simpa using he) (by simpa using ht)
  apply Holds.bind
  apply writeInitialization_boot _ _ (by simpa using he) (by simpa using ht)
  apply Holds.bind
  apply writeInitialization_boot _ _ (by simpa using he) (by simpa using ht)
  apply Holds.bind
  apply writeInitialization_boot _ _ (by simpa using he) (by simpa using ht)
  apply Holds.bind
  apply writeInitialization_boot _ _ (by simpa using he) (by simpa using ht)
  apply Holds.bind
  apply writeInitialization_boot _ _ (by simpa using he) (by simpa using ht)
  apply Holds.bind
  apply writeInitialization_boot _ _ (by simpa using he) (by simpa using ht)
  apply Holds.bind
  apply maskAll_boot (by simpa using he) (by simpa using ht)
  have hchips : v.initialized = ((((((((((((v.out masterData 0xff).out slaveData 0xff).out
      masterCommand 0x11).out slaveCommand 0x11).out masterData 0x20).out slaveData 0x28).out
      masterData 0x04).out slaveData 0x02).out masterData 0x01).out slaveData 0x01).out
      masterData 0xff).out slaveData 0xff) := rfl
  rw [← hchips]
  have hs : (mainRules .boot).always v.initialized := boot_always ht
  apply Holds.bind
  apply in8_holds (ported_main .boot) _ hs he
  rintro value ⟨-, hvalue, -⟩
  apply Holds.bind
  apply holds_require hs (decide_eq_true (hvalue rfl))
  apply Holds.bind
  apply in8_holds (ported_main .boot) _ hs he
  rintro value ⟨-, -, -, hvalue⟩
  exact holds_require hs (decide_eq_true (hvalue rfl)) h

theorem boot_holds (p : Profile) (h : Entry .boot v) : Holds (mainRules .boot) Entry (body p .boot) v := by
  have ht : v.timerIrqs = 0 := h.masked
  apply Holds.bind
  apply issue_main rfl h.always h.enabled
  rintro enabled t ⟨rfl, heq⟩
  obtain rfl : t = v := heq
  refine ⟨h.always, ?_⟩
  apply Holds.bind
  apply holds_require h.always (by rw [h.enabled]; rfl)
  apply Holds.bind
  apply picInit_boot h.enabled ht
  have hs : (mainRules .boot).always t.initialized := boot_always ht
  apply Holds.bind
  have hnext : (mainRules .boot).always t.initialized.select := boot_always ht
  apply inService_holds (ported_main .boot) hs (boot_always ht) hnext h.enabled
  apply Holds.bind
  have hzero : t.initialized.service = 0 := Machine.service_eq_zero rfl rfl
  apply holds_require hnext (decide_eq_true hzero)
  refine ⟨hnext, ?_⟩
  exact {
    enabled := h.enabled
    idle := fun _ => ⟨rfl, rfl, rfl, rfl, rfl, rfl⟩
    masked := ⟨rfl, rfl, ht⟩ }

theorem timer_holds (p : Profile) (h : Entry .timer v) :
    Holds (mainRules .timer) Entry (body p .timer) v := by
  have hidle := h.idle (by decide)
  obtain ⟨hslave, hmaster, ht⟩ := h.masked
  apply Holds.bind
  apply issue_main rfl h.always h.enabled
  rintro enabled t ⟨rfl, heq⟩
  obtain rfl : t = v := heq
  refine ⟨h.always, ?_⟩
  apply Holds.bind
  apply holds_require h.always (by rw [h.enabled]; rfl)
  apply Holds.bind
  apply issue_main rfl h.always h.enabled
  rintro n u ⟨rfl, heq⟩
  obtain rfl : u = t := heq
  refine ⟨h.always, ?_⟩
  apply Holds.bind
  apply holds_require h.always (decide_eq_true ht)
  apply Holds.bind
  apply out8_device (by decide) _ h.always h.enabled
  apply Holds.bind
  apply out8_device (by decide) _ h.always h.enabled
  apply Holds.bind
  apply out8_device (by decide) _ h.always h.enabled
  have hnext : Entry .timerLoop (u.out masterData 0xfe) := by
    rw [Machine.out_masterMask hidle.masterWords]
    exact {
      enabled := h.enabled
      idle := fun _ => ⟨hidle.masterWords, hidle.slaveWords, hidle.masterBase, hidle.slaveBase,
        hidle.masterService, hidle.slaveService⟩
      masked := ⟨hslave, .inl ⟨rfl, by rw [ht]; decide⟩⟩ }
  have hs : (mainRules .timer).always (u.out masterData 0xfe) :=
    ⟨fun _ => hnext.idle (by decide), hnext.masked.counted.1, fun h => h.elim⟩
  apply Holds.bind
  apply out8_holds (ported_main .timer) _ _ h.always h.enabled hs
  exact ⟨hs, hnext⟩

/-- The loop either opens a window or ends with the count at 2 and every line masked. -/
theorem timerLoop_holds (p : Profile) (h : Entry .timerLoop v) :
    Holds (mainRules .timerLoop) Entry (body p .timerLoop) v := by
  have hidle := h.idle (by decide)
  obtain ⟨hslave, hmaster⟩ := h.masked
  apply Holds.bind
  apply issue_main rfl h.always h.enabled
  rintro n t ⟨rfl, heq⟩
  obtain rfl : t = v := heq
  refine ⟨h.always, ?_⟩
  by_cases hlt : t.timerIrqs < 2
  · rw [if_pos hlt]
    have hwindow : Window .timerLoop { t with enabled := true } :=
      ⟨.inl rfl, rfl, hidle.setEnabled true, h.masked.setEnabled true⟩
    apply Holds.bind
    apply waitForInterrupt_holds h.always hwindow
    intro u hu
    have hnext : Entry .timerLoop { u with enabled := false } :=
      ⟨rfl, fun _ => hu.idle.setEnabled false, hu.masked.setEnabled false⟩
    exact ⟨hnext.always, hnext⟩
  · rw [if_neg hlt]
    obtain ⟨hmask, htwo⟩ : t.master.imr = 0xff ∧ t.timerIrqs = 2 := by
      rcases hmaster with hm | hm
      · exact absurd hm.2 hlt
      · exact hm
    have hnext : Entry .keyboard t.allMasked :=
      ⟨h.enabled, fun _ => ⟨hidle.masterWords, hidle.slaveWords, hidle.masterBase, hidle.slaveBase,
        hidle.masterService, hidle.slaveService⟩, rfl, rfl, htwo⟩
    have hs : ∀ u : Machine, u.Like t.allMasked → (mainRules .timerLoop).always u := by
      intro u hu
      have hcount := (hu.masked hnext.masked).counted
      exact ⟨fun _ => hu.idle (hnext.idle (by decide)), hcount.1, fun h => h.elim⟩
    have hmid : (mainRules .timerLoop).always (t.out masterData 0xff) := by
      rw [Machine.out_masterMask hidle.masterWords]
      exact ⟨fun _ => ⟨hidle.masterWords, hidle.slaveWords, hidle.masterBase, hidle.slaveBase,
        hidle.masterService, hidle.slaveService⟩, h.masked.counted.1, fun h => h.elim⟩
    have hselect := Machine.select_like t.allMasked
    have hout := Machine.out_allMasked hidle.masterWords hidle.slaveWords
    apply Holds.bind
    apply maskAll_holds (ported_main .timerLoop) h.always hmid
    · rw [hout]
      exact hs _ (.refl _)
    · exact h.enabled
    · rw [hout]
      have hbetween : (mainRules .timerLoop).always (t.allMasked.out masterCommand 0x0b) := by
        apply hs
        exact ⟨⟨rfl, rfl, rfl, rfl, fun _ => rfl⟩, .refl _, rfl, rfl⟩
      have hservice : t.allMasked.service = 0 :=
        Machine.service_eq_zero hidle.masterService hidle.slaveService
      apply Holds.bind
      apply inService_holds (ported_main .timerLoop) (hs _ (.refl _)) hbetween (hs _ hselect)
        h.enabled
      apply Holds.bind
      apply holds_require (hs _ hselect) (decide_eq_true hservice)
      apply Holds.bind
      apply issue_main rfl (hs _ hselect) h.enabled
      rintro enabled u ⟨rfl, heq⟩
      obtain rfl : u = t.allMasked.select := heq
      refine ⟨hs _ hselect, ?_⟩
      apply Holds.bind
      apply holds_require (hs _ hselect)
      · change (!t.enabled) = true
        rw [h.enabled]
        rfl
      · refine ⟨hs _ hselect, ?_⟩
        exact ⟨h.enabled, fun _ => hselect.idle (hnext.idle (by decide)), hselect.masked hnext.masked⟩

/-- `x` leaves the two chips, the flag and the count as they are. -/
def Untouched {α : Type} (v : Machine) (x : Code α) : Prop :=
  Holds (mainRules .keyboard) (fun _ t => t = v) x v

section Untouched

variable {α β : Type} {v : Machine} (hs : (mainRules .keyboard).always v)

theorem Untouched.bind {x : Code α} {f : α → Code β} (hx : Untouched v x)
    (hf : ∀ a, Untouched v (f a)) : Untouched v (x >>= f) := by
  apply Holds.bind
  apply hx.mono
  intro a t _ ht
  rw [ht]
  exact hf a

include hs

theorem untouched_done (a : α) : Untouched v (done a) := ⟨hs, rfl⟩

/-- A time-out or a wrong reply stops the initialization. -/
theorem untouched_fail (text : String) : Untouched v (fail text : Code α) := ⟨hs, trivial⟩

theorem untouched_require (condition : Bool) (text : String) :
    Untouched v (Process.require condition text : Code Unit) := by
  cases condition with
  | true => exact ⟨hs, rfl⟩
  | false => exact ⟨hs, trivial⟩

variable (he : v.enabled = false)

include he

theorem untouched_in8 (port : ℕ) : Untouched v (in8 port) :=
  in8_holds (ported_main .keyboard) port hs he fun _ _ => rfl

theorem untouched_out8 {port : ℕ} (hport : Device port) (value : BitVec 8) :
    Untouched v (out8 port value) :=
  out8_device hport value hs he rfl

theorem untouched_waitForInputEmpty (budget : ℕ) : Untouched v (waitForInputEmpty budget) := by
  induction budget with
  | zero => exact untouched_fail hs _
  | succ budget ih =>
    apply (untouched_in8 hs he 0x64).bind
    intro status
    split
    · exact untouched_done hs ()
    · exact ih

theorem untouched_command (value : BitVec 8) : Untouched v (command value) := by
  apply (untouched_waitForInputEmpty hs he _).bind
  intro _
  exact untouched_out8 hs he (by decide) value

theorem untouched_writeData (value : BitVec 8) : Untouched v (writeData value) := by
  apply (untouched_waitForInputEmpty hs he _).bind
  intro _
  exact untouched_out8 hs he (by decide) value

theorem untouched_pollReply (budget : ℕ) : Untouched v (pollReply budget) := by
  induction budget with
  | zero => exact untouched_fail hs _
  | succ budget ih =>
    apply (untouched_in8 hs he 0x64).bind
    intro status
    split
    · apply (untouched_in8 hs he 0x60).bind
      intro byte
      apply (untouched_require hs _ _).bind
      intro _
      exact untouched_done hs byte
    · exact ih

theorem untouched_sendByte (value : BitVec 8) (attempts : ℕ) :
    Untouched v (sendByte value attempts) := by
  induction attempts with
  | zero => exact untouched_fail hs _
  | succ attempts ih =>
    apply (untouched_writeData hs he value).bind
    intro _
    apply (untouched_pollReply hs he _).bind
    intro reply
    split
    · exact untouched_done hs ()
    · split
      · exact ih
      · exact untouched_fail hs _

theorem untouched_drainOutput (n : ℕ) : Untouched v (drainOutput n) := by
  induction n with
  | zero => exact untouched_done hs ()
  | succ n ih =>
    apply (untouched_in8 hs he 0x64).bind
    intro status
    split
    · exact untouched_done hs ()
    · apply (untouched_in8 hs he 0x60).bind
      intro _
      exact ih

end Untouched

/-- The initialization ends with only the keyboard line open. -/
theorem keyboard_holds (p : Profile) (h : Entry .keyboard v) :
    Holds (mainRules .keyboard) Entry (body p .keyboard) v := by
  have hs : (mainRules .keyboard).always v := h.always
  have he : v.enabled = false := h.enabled
  have hidle := h.idle (by decide)
  obtain ⟨hslave, hmaster, ht⟩ := h.masked
  have hnext : Entry .keyboardLoop (v.out masterData 0xfd) := by
    rw [Machine.out_masterMask hidle.masterWords]
    exact {
      enabled := he
      idle := fun _ => ⟨hidle.masterWords, hidle.slaveWords, hidle.masterBase, hidle.slaveBase,
        hidle.masterService, hidle.slaveService⟩
      masked := ⟨hslave, rfl, ht⟩ }
  have ht : (mainRules .keyboard).always (v.out masterData 0xfd) :=
    ⟨fun _ => hnext.idle (by decide), hnext.masked.counted⟩
  apply Holds.bind
  apply Holds.bind
  apply issue_main rfl hs he
  rintro enabled t ⟨rfl, heq⟩
  obtain rfl : t = v := heq
  refine ⟨hs, ?_⟩
  apply Holds.seq (untouched_require hs _ _)
  intro _
  apply Holds.seq (untouched_command hs he _)
  intro _
  apply Holds.seq (untouched_command hs he _)
  intro _
  apply Holds.seq (untouched_drainOutput hs he _)
  intro _
  apply Holds.seq (untouched_in8 hs he _)
  intro status
  apply Holds.seq (untouched_require hs _ _)
  intro _
  apply Holds.seq (untouched_command hs he _)
  intro _
  apply Holds.seq (untouched_pollReply hs he _)
  intro configuration
  apply Holds.seq (untouched_command hs he _)
  intro _
  apply Holds.seq (untouched_writeData hs he _)
  intro _
  apply Holds.seq (untouched_command hs he _)
  intro _
  apply Holds.seq (untouched_sendByte hs he _ _)
  intro _
  apply Holds.seq (untouched_sendByte hs he _ _)
  intro _
  apply Holds.seq (untouched_sendByte hs he _ _)
  intro _
  apply Holds.seq (untouched_sendByte hs he _ _)
  intro _
  apply Holds.seq (untouched_command hs he _)
  intro _
  apply Holds.seq (untouched_writeData hs he _)
  intro _
  apply Holds.bind
  apply issue_main rfl hs he
  rintro enabled u ⟨rfl, heq⟩
  obtain rfl : u = t := heq
  refine ⟨hs, ?_⟩
  apply Holds.seq (untouched_require hs _ _)
  intro _
  apply out8_holds (ported_main .keyboard) _ _ hs he ht
  exact ⟨ht, hnext⟩

theorem keyboardLoop_holds (p : Profile) (h : Entry .keyboardLoop v) :
    Holds (mainRules .keyboardLoop) Entry (body p .keyboardLoop) v := by
  have hs := h.always
  have hwindow : Window .keyboardLoop { v with enabled := true } :=
    ⟨.inr rfl, rfl, (h.idle (by decide)).setEnabled true, h.masked.setEnabled true⟩
  apply Holds.bind
  apply Holds.bind
  apply issue_main rfl hs h.enabled
  rintro r t ⟨-, heq⟩
  obtain rfl : t = v := heq
  refine ⟨hs, ?_⟩
  cases r with
  | error e => exact ⟨hs, trivial⟩
  | ok _ =>
    refine ⟨hs, ?_⟩
    apply Holds.bind
    apply waitForInterrupt_holds hs hwindow
    intro u hu
    have hnext : Entry .keyboardLoop { u with enabled := false } :=
      ⟨rfl, fun _ => hu.idle.setEnabled false, hu.masked.setEnabled false⟩
    exact ⟨hnext.always, hnext⟩

theorem body_holds (p : Profile) (h : Entry l v) : Holds (mainRules l) Entry (body p l) v := by
  cases l with
  | boot => exact boot_holds p h
  | timer => exact timer_holds p h
  | timerLoop => exact timerLoop_holds p h
  | keyboard => exact keyboard_holds p h
  | keyboardLoop => exact keyboardLoop_holds p h

end Main

end MikoOS.Interrupt
