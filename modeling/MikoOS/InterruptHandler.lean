import MikoOS.InterruptViews

/-!
# The interrupt handler

Each kind of request, genuine or spurious on either chip, is followed from the entry of the handler to
its end: which in-service bits it clears, and what it leaves behind for the main flow.
-/

namespace MikoOS.Interrupt

open Rust Process

theorem Machine.out_eoi_idle {m : Machine} (h : m.master.isr = 0) :
    m.out masterCommand (0x60 ||| 2) = m := by
  have hchip : m.master.command (0x60 ||| 2) = m.master := by
    change { m.master with isr := m.master.isr &&& ~~~(1#8 <<< 2) } = m.master
    rw [h, show (0 : BitVec 8) &&& ~~~(1#8 <<< 2) = 0 from rfl, ← h]
  change { m with master := m.master.command (0x60 ||| 2) } = m
  rw [hchip]

section Handler

variable {p : Profile} {l : Label} {s : Machine × List ℕ}

/-- What the handler must have cleared when it returns. -/
def Expected : Origin → List ℕ → Prop
  | .device line, cleared => cleared = [line]
  | .spuriousMaster, cleared => cleared = []
  | .spuriousSlave, cleared => cleared = [] ∨ cleared = [2]
  | .software vector, cleared => cleared = [] ∨ (vector = 0x2f ∧ cleared = [2])

theorem require_holds {D : Discipline Op Op.Answer (Machine × List ℕ)} {c : Prop} [Decidable c]
    {text : String} {post : Unit → Machine × List ℕ → Prop} (hs : D.always s) (hc : c)
    (h : post () s) : Holds D post (Process.require (decide c) text) s :=
  holds_require hs (decide_eq_true hc) h

/-- An action that leaves ISR alone clears nothing. -/
theorem issue_handler {i : Op} {post : i.Answer → Machine × List ℕ → Prop} (hi : i.opens = false)
    (hs : Counted l s.1) (h : ∀ r t, viewStep i s.1 r t → t.master.isr = s.1.master.isr ∧
      t.slave.isr = s.1.slave.isr ∧ Counted l t ∧ post r (t, s.2)) :
    Holds (handlerRules p l) post i.issue s := by
  apply holds_issue hs hi
  rintro r ⟨t, cleared⟩ ⟨hstep, hcleared⟩
  obtain ⟨hmaster, hslave, ht, hpost⟩ := h r t hstep
  have hnone : cleared = s.2 := by
    rwa [Machine.cleared_of_isr hmaster hslave, List.append_nil] at hcleared
  rw [hnone]
  exact ⟨ht, hpost⟩

theorem inService_handler {post : BitVec 16 → Machine × List ℕ → Prop} (hs : Counted l s.1)
    (he : s.1.enabled = false) (h : post s.1.service (s.1.select, s.2)) :
    Holds (handlerRules p l) post inService s := by
  have hput : logged slaveCommand 0x0b (logged masterCommand 0x0b s) = (s.1.select, s.2) := by
    rw [logged_of_isr (s := s) rfl rfl, logged_of_isr rfl rfl]
    rfl
  apply inService_holds (ported_handler p l) hs hs hs he
  rw [hput]
  exact h

/-- The first check of the handler. -/
theorem disabled_handler {α : Type} {text : String} {next : Unit → Code α} {post : α → Machine × List ℕ → Prop}
    (hs : Counted l s.1) (he : s.1.enabled = false) (h : Holds (handlerRules p l) post (next ()) s) :
    Holds (handlerRules p l) post
      (interruptsEnabled >>= fun enabled => Process.require (!enabled) text >>= next) s := by
  apply Holds.bind
  apply issue_handler rfl hs
  rintro enabled t ⟨rfl, ht⟩
  obtain rfl : t = s.1 := ht
  refine ⟨rfl, rfl, hs, ?_⟩
  apply Holds.bind
  exact holds_require hs (by rw [he]; rfl) h

/-- A vector 7 or 15 with nothing in service is recognized as such and leaves the machine alone. -/
theorem irqDispatch_spurious {post : Unit → Machine × List ℕ → Prop} {vector : ℕ}
    (hvector : vector = 0x27 ∨ vector = 0x2f) (hs : Counted l s.1) (he : s.1.enabled = false)
    (hidle : Idle s.1) (h : ∀ m, m.Like s.1 → post () (m, s.2)) :
    Holds (handlerRules p l) post (irqDispatch p vector) s := by
  have hselect : Counted l s.1.select := hs
  have hservice : s.1.service = 0 :=
    Machine.service_eq_zero hidle.masterService hidle.slaveService
  apply disabled_handler hs he
  rcases hvector with rfl | rfl
  · apply Holds.bind
    apply Holds.bind
    apply require_holds hs (by decide)
    apply Holds.bind
    apply inService_handler hs he
    rw [hservice]
    exact ⟨hs, hs, h _ s.1.select_like⟩
  · apply Holds.bind
    apply Holds.bind
    apply require_holds hs (by decide)
    apply Holds.bind
    apply inService_handler hs he
    rw [hservice]
    have hout := Machine.out_eoi_idle (m := s.1.select) hidle.masterService
    have hlogged : logged masterCommand (0x60 ||| 2) (s.1.select, s.2) = (s.1.select, s.2) := by
      rw [logged_of_isr (by rw [hout]) (by rw [hout]), hout]
    apply Holds.bind
    apply out8_holds (ported_handler p l) (s := (s.1.select, s.2)) _ _ hselect he
    · rw [hlogged]
      exact hs
    · rw [hlogged]
      exact ⟨hs, hs, h _ s.1.select_like⟩

/-- Line `n` of the master alone is in service. -/
structure Serving (n : ℕ) (l : Label) (m : Machine) : Prop where
  masterWords : m.master.words = 0
  slaveWords : m.slave.words = 0
  masterBase : m.master.base = 0x20
  slaveBase : m.slave.base = 0x28
  masterService : m.master.isr = 1#8 <<< n
  slaveService : m.slave.isr = 0
  enabled : m.enabled = false
  masked : Masked l m

theorem Serving.like {n : ℕ} {m v : Machine} (h : Serving n l v) (hm : m.Like v) : Serving n l m where
  masterWords := hm.master.words.trans h.masterWords
  slaveWords := hm.slave.words.trans h.slaveWords
  masterBase := hm.master.base.trans h.masterBase
  slaveBase := hm.slave.base.trans h.slaveBase
  masterService := hm.master.isr.trans h.masterService
  slaveService := hm.slave.isr.trans h.slaveService
  enabled := hm.enabled.trans h.enabled
  masked := hm.masked h.masked

theorem maskAll_handler {post : Unit → Machine × List ℕ → Prop} (hs : Counted l s.1)
    (he : s.1.enabled = false) (h1 : s.1.master.words = 0) (h2 : s.1.slave.words = 0)
    (h : post () (s.1.allMasked, s.2)) :
    Holds (handlerRules p l) post maskAll s := by
  have hmaster : logged masterData 0xff s =
      ({ s.1 with master := { s.1.master with imr := 0xff } }, s.2) := by
    have hout := Machine.out_masterMask h1 0xff
    rw [logged_of_isr (by rw [hout]) (by rw [hout]), hout]
  have hslave : logged slaveData 0xff (logged masterData 0xff s) = (s.1.allMasked, s.2) := by
    have hout : Machine.out slaveData 0xff { s.1 with master := { s.1.master with imr := 0xff } } =
        s.1.allMasked := by
      rw [Machine.out_slaveMask (by exact h2)]
      rfl
    rw [hmaster, logged_of_isr (by rw [hout]; rfl) (by rw [hout]; rfl), hout]
  apply maskAll_holds (ported_handler p l) hs
  · rw [hmaster]
    exact hs
  · rw [hslave]
    exact hs
  · exact he
  · rw [hslave]
    exact h

/-- The second interrupt masks all lines, the first leaves the timer open. -/
theorem timerInterrupt_holds {post : Unit → Machine × List ℕ → Prop}
    (h : Serving 0 .timerLoop s.1) (hlt : s.1.timerIrqs < 2)
    (hpost : ∀ m, Serving 0 .timerLoop m → post () (m, s.2)) :
    Holds (handlerRules p .timerLoop) post (timerInterrupt p) s := by
  have hs : Counted .timerLoop s.1 := h.masked.counted
  have hmask : s.1.master.imr = 0xfe := by
    rcases h.masked.2 with hm | hm
    · exact hm.1
    · omega
  have ht : Counted .timerLoop { s.1 with timerIrqs := s.1.timerIrqs + 1 } :=
    ⟨hlt, fun h => h.elim⟩
  apply Holds.bind
  apply issue_handler rfl hs
  rintro n t ⟨rfl, rfl⟩
  rw [Nat.mod_eq_of_lt (by omega)]
  refine ⟨rfl, rfl, ht, ?_⟩
  apply Holds.bind
  unfold addWords
  rw [if_pos (show s.1.timerIrqs + 1 < 2 ^ 64 by omega)]
  refine ⟨ht, ?_⟩
  apply Holds.bind
  apply require_holds ht (Nat.succ_le_of_lt hlt)
  by_cases htwo : s.1.timerIrqs + 1 = 2
  · rw [if_pos htwo]
    apply maskAll_handler (s := ({ s.1 with timerIrqs := s.1.timerIrqs + 1 }, s.2)) ht h.enabled
      h.masterWords h.slaveWords
    apply hpost
    exact {
      masterWords := h.masterWords
      slaveWords := h.slaveWords
      masterBase := h.masterBase
      slaveBase := h.slaveBase
      masterService := h.masterService
      slaveService := h.slaveService
      enabled := h.enabled
      masked := ⟨rfl, .inr ⟨rfl, htwo⟩⟩ }
  · rw [if_neg htwo]
    refine ⟨ht, ?_⟩
    apply hpost
    exact {
      masterWords := h.masterWords
      slaveWords := h.slaveWords
      masterBase := h.masterBase
      slaveBase := h.slaveBase
      masterService := h.masterService
      slaveService := h.slaveService
      enabled := h.enabled
      masked := ⟨h.masked.1, .inl ⟨hmask, by simp only; omega⟩⟩ }

theorem keyboardInterrupt_holds {post : Unit → Machine × List ℕ → Prop}
    (hs : Counted .keyboardLoop s.1) (he : s.1.enabled = false) (h : post () s) :
    Holds (handlerRules p .keyboardLoop) post (keyboardInterrupt p) s := by
  have hreceive : ∀ d, Holds (handlerRules p .keyboardLoop) post
      (receive (Keyboard.onQueue (Keyboard.onInterrupt p d))) s := by
    intro d
    apply Holds.bind
    apply issue_handler rfl hs
    rintro r t ⟨hr, ht⟩
    obtain rfl : t = s.1 := ht
    refine ⟨rfl, rfl, hs, ?_⟩
    cases r with
    | ok _ => exact ⟨hs, h⟩
    | error e =>
      obtain ⟨u, u', hrun⟩ := hr e rfl
      have hstop : Satisfies ((Keyboard.onQueue (Keyboard.onInterrupt p d)).run u) (fun _ _ => True)
          fun e _ => p = .dev ∧ e = .overflow :=
        (Keyboard.onInterrupt_stop p d u.queue).zoom.mono (fun _ _ _ => trivial)
          fun _ _ ⟨_, h, _⟩ => h
      rw [hrun, satisfies_error] at hstop
      obtain ⟨hp, rfl⟩ := hstop
      exact ⟨hs, hp, rfl, rfl⟩
  apply Holds.bind
  apply in8_holds (ported_handler p .keyboardLoop) _ hs he
  intro status _
  by_cases hfull : status &&& Keyboard.outputFull = 0
  · rw [if_pos hfull]
    exact hreceive _
  · rw [if_neg hfull]
    apply Holds.bind
    apply in8_holds (ported_handler p .keyboardLoop) _ hs he
    intro data _
    exact hreceive _

theorem logged_eoi {n : ℕ} (hn : n < 8) (h : s.1.master.isr = 1#8 <<< n) :
    logged masterCommand (0x60 ||| BitVec.ofNat 8 n) s =
      (s.1.ended, s.2 ++ [n]) := by
  have hout : s.1.out masterCommand (0x60 ||| BitVec.ofNat 8 n) = { s.1 with
      master := { s.1.master with isr := s.1.master.isr &&& ~~~(1#8 <<< n) } } := by
    interval_cases n <;> rfl
  have hclear : (1#8 <<< n) &&& ~~~(1#8 <<< n) = 0 := BitVec.and_not_self _
  have hlines : Machine.lines 0 (1#8 <<< n &&& ~~~0) = [n] := by
    interval_cases n <;> rfl
  have hslave : Machine.lines 8 (s.1.slave.isr &&& ~~~s.1.slave.isr) = [] := by
    rw [BitVec.and_not_self]
    rfl
  rw [h, hclear] at hout
  rw [logged, Machine.cleared, hout]
  simp only [h, hlines, hslave, List.append_nil]
  rfl

theorem Serving.ended {n : ℕ} {m : Machine} (h : Serving n l m) :
    m.ended.enabled = false ∧ Idle m.ended ∧ Masked l m.ended := by
  refine ⟨h.enabled, ⟨h.masterWords, h.slaveWords, h.masterBase, h.slaveBase, rfl, h.slaveService⟩, ?_⟩
  have hmasked := h.masked
  cases l <;> exact hmasked

/-- The specific EOI, and the second look at ISR. -/
theorem endOfInterrupt_device {n : ℕ} (hn : n ≤ 1) {m : Machine} {cleared : List ℕ} (h : Serving n l m)
    {post : Unit → Machine × List ℕ → Prop}
    (hpost : ∀ m, m.enabled = false → Idle m → Masked l m → post () (m, cleared ++ [n])) :
    Holds (handlerRules p l) post (endOfInterrupt n >>= fun _ => inService >>= fun service =>
      Process.require (service &&& 1#16 <<< n = 0) "EOI must clear ISR") (m, cleared) := by
  have hcount : Counted l m := h.masked.counted
  apply Holds.bind
  apply Holds.bind
  apply require_holds hcount (by rw [irqCount]; omega)
  rw [if_neg (show ¬ 8 ≤ n by omega)]
  have hlogged := logged_eoi (s := (m, cleared)) (by omega) h.masterService
  apply out8_holds (ported_handler p l) (s := (m, cleared)) _ _ hcount h.enabled
  · rw [hlogged]
    exact hcount
  · rw [hlogged]
    obtain ⟨henabled, hidle, hmasked⟩ := h.ended
    apply Holds.bind
    apply inService_handler hcount h.enabled
    have hzero : m.ended.service &&& 1#16 <<< n = 0 := by
      rw [Machine.service_eq_zero (m := m.ended) rfl h.slaveService]
      exact BitVec.zero_and
    apply require_holds hcount hzero
    apply hpost
    · exact henabled
    · exact ⟨hidle.masterWords, hidle.slaveWords, hidle.masterBase, hidle.slaveBase, hidle.masterService,
        hidle.slaveService⟩
    · exact (Machine.select_like _).masked hmasked

theorem service_device {n : ℕ} (hn : n ≤ 1) {m : Machine} (h : Serving n l m) :
    m.service &&& 1#16 <<< n ≠ 0 := by
  rw [Machine.service, h.masterService, h.slaveService]
  interval_cases n <;> decide

/-- A genuine vector has exactly its own in-service bit cleared. -/
theorem irqDispatch_device {n : ℕ} (hn : n ≤ 1) (h : Serving n l s.1)
    (htimer : n = 0 → l = .timerLoop ∧ s.1.timerIrqs < 2) (hkeyboard : n ≠ 0 → l = .keyboardLoop)
    {post : Unit → Machine × List ℕ → Prop}
    (hpost : ∀ m, m.enabled = false → Idle m → Masked l m → post () (m, s.2 ++ [n])) :
    Holds (handlerRules p l) post (irqDispatch p (vectorBase + n)) s := by
  have hs : Counted l s.1 := h.masked.counted
  apply disabled_handler hs h.enabled
  have hvalid : vectorBase ≤ vectorBase + n ∧ vectorBase + n - vectorBase < irqCount := by
    rw [Nat.add_sub_cancel_left, irqCount]
    omega
  rw [if_pos hvalid]
  simp only [Nat.add_sub_cancel_left]
  -- vectors 0 and 1 are never spurious
  apply Holds.bind
  apply Holds.bind
  apply require_holds hs (by rw [irqCount]; omega)
  rw [if_neg (show ¬ (n = 7 ∨ n = 15) by omega)]
  refine ⟨hs, ?_⟩
  simp only [Bool.false_eq_true, if_false]
  apply Holds.bind
  apply require_holds hs hn
  apply Holds.bind
  apply inService_handler hs h.enabled
  apply Holds.bind
  apply require_holds (s := (s.1.select, s.2)) hs (service_device hn h)
  have hselect : Serving n l s.1.select := h.like s.1.select_like
  by_cases hzero : n = 0
  · subst hzero
    obtain ⟨rfl, hlt⟩ := htimer rfl
    rw [if_pos rfl]
    apply Holds.bind
    apply timerInterrupt_holds (s := (s.1.select, s.2)) hselect hlt
    intro m hm
    exact endOfInterrupt_device hn hm hpost
  · rw [if_neg hzero]
    obtain rfl := hkeyboard hzero
    apply Holds.bind
    apply keyboardInterrupt_holds (s := (s.1.select, s.2)) hs h.enabled
    exact endOfInterrupt_device hn hselect hpost

/-- A spurious vector 15 whose request the master had passed on clears the cascade line only. -/
theorem irqDispatch_cascade {post : Unit → Machine × List ℕ → Prop} (h : Serving 2 l s.1)
    (hpost : ∀ m, m.enabled = false → Idle m → Masked l m → post () (m, s.2 ++ [2])) :
    Holds (handlerRules p l) post (irqDispatch p 0x2f) s := by
  have hs : Counted l s.1 := h.masked.counted
  apply disabled_handler hs h.enabled
  apply Holds.bind
  apply Holds.bind
  apply require_holds hs (by decide)
  apply Holds.bind
  apply inService_handler hs h.enabled
  have hservice : s.1.service &&& 1#16 <<< (0x2f - vectorBase) = 0 := by
    rw [Machine.service, h.masterService, h.slaveService]
    decide
  rw [if_pos hservice]
  have hselect : Serving 2 l s.1.select := h.like s.1.select_like
  have hlogged := logged_eoi (s := (s.1.select, s.2)) (by decide) hselect.masterService
  apply Holds.bind
  apply out8_holds (ported_handler p l) (s := (s.1.select, s.2)) _ _ hs h.enabled
  · exact (congrArg (fun t => Counted l t.1) hlogged).mpr hs
  · obtain ⟨henabled, hidle, hmasked⟩ := hselect.ended
    have hended : post () (s.1.select.ended, s.2 ++ [2]) := hpost _ henabled hidle hmasked
    have hcount : Counted l s.1.select.ended := hs
    change Holds (handlerRules p l) _ (done true) (logged masterCommand (0x60 ||| BitVec.ofNat 8 2)
      (s.1.select, s.2))
    rw [hlogged]
    exact ⟨hcount, hcount, hended⟩

end Handler

end MikoOS.Interrupt
