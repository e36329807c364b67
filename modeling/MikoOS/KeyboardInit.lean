import MikoOS.Library.Interaction
import MikoOS.Pic

/-!
# The initialization of the keyboard

`keyboard::init` against an 8042 that answers as it likes. The transcript of an interaction is what
goes over the two ports apart from the polling of the status: the bytes written and the bytes read.
-/

namespace MikoOS.Interrupt

open Process Keyboard

abbrev Event : Type := Process.Event Op Op.Answer

/-- A byte to the controller or the keyboard. -/
def IsWrite : Event → Prop
  | ⟨.out port _, _⟩ => port = 0x60 ∨ port = 0x64
  | _ => False

def IsData : Event → Prop
  | ⟨.read port, _⟩ => port = 0x60
  | _ => False

/-- A status that allows a write. -/
def Clear : Event → Prop
  | ⟨.read port, status⟩ => port = 0x64 ∧ status &&& inputFull = 0
  | _ => False

/-- A status that announces a byte. -/
def Full : Event → Prop
  | ⟨.read port, status⟩ => port = 0x64 ∧ status &&& outputFull ≠ 0
  | _ => False

/-- A status that announces a byte of the keyboard or the controller without an error. -/
def Sound : Event → Prop
  | ⟨.read port, status⟩ =>
    port = 0x64 ∧ status &&& outputFull ≠ 0 ∧ status &&& (auxiliary ||| badData) = 0
  | _ => False

inductive Message
  | write (port : ℕ) (value : BitVec 8)
  | reply (value : BitVec 8)

def message : Event → Option Message
  | ⟨.out port value, _⟩ => some (.write port value)
  | ⟨.read port, value⟩ => if port = 0x60 then some (.reply value) else none
  | _ => none

def transcript (t : List Event) : List Message := t.filterMap message

/-- A byte for the keyboard: up to two answers ask for it again, the last one acknowledges it. -/
def Acknowledged (value : BitVec 8) (messages : List Message) : Prop :=
  ∃ n ≤ 2, messages = (List.replicate n [.write 0x60 value, .reply 0xfe]).flatten ++
    [.write 0x60 value, .reply 0xfa]

def firstConfiguration (c : BitVec 8) : BitVec 8 := (c ||| 0x60) &&& ~~~0x13

/-- The conversation from command 0x20 on: `c` is the configuration byte found, and the line of the
keyboard is unmasked last. -/
def Configured (messages : List Message) : Prop :=
  ∃ (c : BitVec 8) (a₁ a₂ a₃ a₄ : List Message),
    Acknowledged 0xf5 a₁ ∧ Acknowledged 0xf0 a₂ ∧ Acknowledged 0x02 a₃ ∧ Acknowledged 0xf4 a₄ ∧
      messages = [.write 0x64 0x20, .reply c, .write 0x64 0x60, .write 0x60 (firstConfiguration c),
        .write 0x64 0xae] ++ a₁ ++ a₂ ++ a₃ ++ a₄ ++
        [.write 0x64 0x60, .write 0x60 (firstConfiguration c ||| 1), .write masterData 0xfd]

/-- The rules of the 8042 hold throughout; bytes read before command 0x20 are thrown away. A run that
returns has had the whole conversation. -/
structure Protocol (trace : List Event) (outcome : Except String Unit) : Prop where
  bounded : trace.length ≤ 33 * pollBudget + 165
  writes : Preceded IsWrite Clear trace
  reads : Preceded IsData Full trace
  replies : ∀ before e after, trace = before ++ e :: after → IsData e →
    ⟨.out 0x64 0x20, ()⟩ ∈ before →
    (∃ earlier y, before = earlier ++ [y] ∧ Sound y) ∨
      after = [] ∧ outcome = .error "invalid 8042 reply"
  returned : outcome = .ok () → ∃ (stale : List (BitVec 8)) (messages : List Message),
    stale.length ≤ queueCapacity ∧ Configured messages ∧
      transcript trace = [.write 0x64 0xad, .write 0x64 0xa7] ++ stale.map .reply ++ messages

/-- A part of at most `n` events in which writes follow a clear status and reads one with `q`. -/
structure Polite (n : ℕ) (q : Event → Prop) (t : List Event) : Prop where
  writes : Preceded IsWrite Clear t
  reads : Preceded IsData q t
  short : t.length ≤ n

variable {m n : ℕ} {q : Event → Prop} {t u : List Event}

theorem Polite.append (ht : Polite m q t) (hu : Polite n q u) : Polite (m + n) q (t ++ u) where
  writes := ht.writes.append hu.writes
  reads := ht.reads.append hu.reads
  short := by
    rw [List.length_append]
    exact Nat.add_le_add ht.short hu.short

theorem Polite.mono (ht : Polite m q t) (hn : m ≤ n) {q' : Event → Prop} (hq : ∀ e, q e → q' e) :
    Polite n q' t :=
  ⟨ht.writes, ht.reads.mono hq, ht.short.trans hn⟩

theorem Polite.nil : Polite n q [] where
  writes := preceded_of_none fun _ he => absurd he List.not_mem_nil
  reads := preceded_of_none fun _ he => absurd he List.not_mem_nil
  short := Nat.zero_le n

theorem Sound.full {e : Event} (h : Sound e) : Full e := by
  obtain ⟨i, r⟩ := e
  cases i with
  | read port => exact ⟨h.1, h.2.1⟩
  | _ => exact h

theorem transcript_append (t u : List Event) : transcript (t ++ u) = transcript t ++ transcript u :=
  List.filterMap_append

/-- Reads of the status port. -/
def Polls (t : List Event) : Prop := ∀ e ∈ t, ∃ status : BitVec 8, e = ⟨.read 0x64, status⟩

theorem Polls.cons (ht : Polls t) (status : BitVec 8) : Polls (⟨.read 0x64, status⟩ :: t) := by
  intro e he
  rcases List.mem_cons.mp he with he | he
  · exact ⟨status, he⟩
  · exact ht e he

theorem Polls.polite (ht : Polls t) : Polite t.length q t where
  writes := by
    apply preceded_of_none
    intro e he hwrite
    obtain ⟨status, rfl⟩ := ht e he
    exact hwrite
  reads := by
    apply preceded_of_none
    intro e he hdata
    obtain ⟨status, rfl⟩ := ht e he
    have hport : (0x64 : ℕ) = 0x60 := hdata
    exact absurd hport (by decide)
  short := Nat.le_refl _

theorem Polls.transcript (ht : Polls t) : transcript t = [] := by
  apply List.filterMap_eq_nil_iff.mpr
  intro e he
  obtain ⟨status, rfl⟩ := ht e he
  rfl

/-- Polling that ended with a status with `q`. -/
structure Polled (n : ℕ) (q : Event → Prop) (t : List Event) : Prop where
  polls : Polls t
  last : ∃ u y, t = u ++ [y] ∧ q y
  short : t.length ≤ n

theorem Polled.cons (ht : Polled n q t) (status : BitVec 8) :
    Polled (n + 1) q (⟨.read 0x64, status⟩ :: t) where
  polls := ht.polls.cons status
  last := by
    obtain ⟨u, y, hu, hy⟩ := ht.last
    exact ⟨⟨.read 0x64, status⟩ :: u, y, by rw [hu, List.cons_append], hy⟩
  short := Nat.succ_le_succ ht.short

theorem Polls.nil : Polls [] := fun _ he => absurd he List.not_mem_nil

theorem polled_single {status : BitVec 8} (h : q ⟨.read 0x64, status⟩) :
    Polled (n + 1) q [⟨.read 0x64, status⟩] :=
  ⟨Polls.nil.cons status, ⟨[], _, rfl, h⟩, Nat.succ_le_succ (Nat.zero_le n)⟩

theorem waitForInputEmpty_yields (budget : ℕ) : Yields (fun t _ => Polled budget Clear t)
    (fun t _ => Polls t ∧ t.length ≤ budget) (waitForInputEmpty budget) := by
  induction budget with
  | zero => exact ⟨Polls.nil, Nat.le_refl 0⟩
  | succ budget ih =>
    apply yields_issue_bind
    intro status
    by_cases hclear : status &&& inputFull = 0
    · rw [if_pos hclear]
      exact polled_single ⟨rfl, hclear⟩
    · rw [if_neg hclear]
      apply ih.mono
      · intro t _ ht
        exact ht.cons status
      · intro t _ ht
        exact ⟨ht.1.cons status, Nat.succ_le_succ ht.2⟩

/-- A write behind a poll for an empty input buffer. -/
theorem Polled.write (ht : Polled n Clear t) {port : ℕ} (value : BitVec 8) :
    Polite (n + 1) q (t ++ [⟨.out port value, ()⟩]) ∧
      transcript (t ++ [⟨.out port value, ()⟩]) = [.write port value] := by
  have hpolite : Polite t.length q t := ht.polls.polite
  have hshort := ht.short
  obtain ⟨u, y, rfl, hy⟩ := ht.last
  refine ⟨⟨hpolite.writes.snoc hy, ?_, ?_⟩, ?_⟩
  · apply hpolite.reads.append
    apply preceded_of_none
    intro e he hdata
    rw [List.mem_singleton.mp he] at hdata
    exact hdata
  · rw [List.length_append, List.length_singleton]
    omega
  · rw [transcript_append, ht.polls.transcript]
    rfl

/-- `command` and `write_data`. -/
theorem send_yields (port : ℕ) (value : BitVec 8) : Yields
    (fun t _ => Polite (pollBudget + 1) q t ∧ transcript t = [.write port value])
    (fun t _ => Polite (pollBudget + 1) q t ∧ transcript t = [])
    (waitForInputEmpty pollBudget >>= fun _ => out8 port value) := by
  apply (waitForInputEmpty_yields pollBudget).bind
  · intro t _ ht
    exact yields_issue (i := Op.out port value) fun _ => ht.write value
  · intro t _ ht
    exact ⟨ht.1.polite.mono (Nat.le_succ_of_le ht.2) fun _ h => h, ht.1.transcript⟩

section Talks

/-- Parts of an interaction in which a measured property holds, and those a panic may leave. -/
class Graded (good : ℕ → List Event → Prop) (broken : ℕ → List Event → String → Prop) : Prop where
  nil (n : ℕ) : good n []
  append {m n : ℕ} {t u : List Event} : good m t → good n u → good (m + n) (t ++ u)
  mono {m n : ℕ} {t : List Event} : good m t → m ≤ n → good n t
  nil_broken (n : ℕ) (text : String) : broken n [] text
  append_broken {m n : ℕ} {t u : List Event} {text : String} :
    good m t → broken n u text → broken (m + n) (t ++ u) text
  mono_broken {m n : ℕ} {t : List Event} {text : String} : broken m t text → m ≤ n → broken n t text

variable {α β : Type} {good : ℕ → List Event → Prop} {broken : ℕ → List Event → String → Prop}
  {said said' : List Message → α → Prop}

/-- A routine with its part of the conversation. -/
def Talks (good : ℕ → List Event → Prop) (broken : ℕ → List Event → String → Prop) (n : ℕ)
    (said : List Message → α → Prop) (x : Code α) : Prop :=
  Yields (fun t a => good n t ∧ said (transcript t) a) (broken n) x

variable [Graded good broken]

theorem Talks.mono {x : Code α} (h : Talks good broken m said x) (hn : m ≤ n)
    (hsaid : ∀ u a, said u a → said' u a) : Talks good broken n said' x := by
  apply Yields.mono h
  · intro t a ht
    exact ⟨Graded.mono broken ht.1 hn, hsaid _ a ht.2⟩
  · intro t e ht
    exact Graded.mono_broken good ht hn

theorem Talks.bind {x : Code α} {f : α → Code β} {said' : List Message → β → Prop}
    (h : Talks good broken m said x)
    (hf : ∀ u a, said u a → Talks good broken n (fun v => said' (u ++ v)) (f a)) :
    Talks good broken (m + n) said' (x >>= f) := by
  apply Yields.bind h
  · intro t a ht
    apply Yields.mono (hf _ a ht.2)
    · intro u b hu
      rw [transcript_append]
      exact ⟨Graded.append broken ht.1 hu.1, hu.2⟩
    · intro u e hu
      exact Graded.append_broken ht.1 hu
  · intro t e ht
    exact Graded.mono_broken good ht (Nat.le_add_right m n)

theorem talks_done {a : α} (h : said [] a) : Talks good broken n said (done a) :=
  ⟨Graded.nil broken n, h⟩

theorem talks_fail (text : String) : Talks good broken n said (fail text) :=
  Graded.nil_broken good n text

end Talks

/-- What a panic leaves: a polite part, with an invalid reply at its end where that is the reason. -/
def Broken (n : ℕ) (t : List Event) (text : String) : Prop :=
  Polite n Sound t ∨ text = "invalid 8042 reply" ∧ ∃ (u : List Event) (status byte : BitVec 8),
    Polite (n - 2) Sound u ∧ 2 ≤ n ∧ status &&& outputFull ≠ 0 ∧
      t = u ++ [⟨.read 0x64, status⟩, ⟨.read 0x60, byte⟩]

theorem Broken.append {text : String} (hu : Broken n u text) (ht : Polite m Sound t) :
    Broken (m + n) (t ++ u) text := by
  rcases hu with hu | ⟨htext, v, status, byte, hv, hn, hstatus, rfl⟩
  · exact Or.inl (ht.append hu)
  · refine Or.inr ⟨htext, t ++ v, status, byte, ?_, by omega, hstatus, (List.append_assoc t v _).symm⟩
    apply (ht.append hv).mono (by omega)
    intro e he
    exact he

theorem Broken.mono {text : String} (ht : Broken m t text) (hn : m ≤ n) : Broken n t text := by
  rcases ht with ht | ⟨htext, v, status, byte, hv, hm, hrest⟩
  · exact Or.inl (ht.mono hn fun _ h => h)
  · exact Or.inr ⟨htext, v, status, byte, hv.mono (by omega) fun _ h => h, by omega, hrest⟩

instance : Graded (fun n => Polite n Sound) Broken where
  nil := fun _ => Polite.nil
  append := Polite.append
  mono := fun ht hn => ht.mono hn fun _ h => h
  nil_broken := fun _ _ => Or.inl Polite.nil
  append_broken := fun ht hu => hu.append ht
  mono_broken := Broken.mono

/-- A part before command 0x20: bytes that are there may be read whatever their status. -/
structure Prepared (n : ℕ) (t : List Event) : Prop where
  polite : Polite n Full t
  before : .write 0x64 0x20 ∉ transcript t

theorem Prepared.append (ht : Prepared m t) (hu : Prepared n u) : Prepared (m + n) (t ++ u) := by
  refine ⟨ht.polite.append hu.polite, ?_⟩
  rw [transcript_append, List.mem_append]
  exact not_or.mpr ⟨ht.before, hu.before⟩

theorem Prepared.mono (ht : Prepared m t) (hn : m ≤ n) : Prepared n t :=
  ⟨ht.polite.mono hn fun _ h => h, ht.before⟩

instance : Graded Prepared fun n t _ => Prepared n t where
  nil := fun _ => ⟨Polite.nil, List.not_mem_nil⟩
  append := Prepared.append
  mono := Prepared.mono
  nil_broken := fun _ _ => ⟨Polite.nil, List.not_mem_nil⟩
  append_broken := Prepared.append
  mono_broken := Prepared.mono

abbrev Speaks {α : Type} : ℕ → (List Message → α → Prop) → Code α → Prop :=
  Talks (fun n => Polite n Sound) Broken

abbrev Prepares {α : Type} : ℕ → (List Message → α → Prop) → Code α → Prop :=
  Talks Prepared fun n t _ => Prepared n t

theorem speaks_command (value : BitVec 8) :
    Speaks (pollBudget + 1) (fun u _ => u = [.write 0x64 value]) (command value) := by
  apply (send_yields 0x64 value).mono
  · intro t _ ht
    exact ht
  · intro t e ht
    exact Or.inl ht.1

theorem speaks_writeData (value : BitVec 8) :
    Speaks (pollBudget + 1) (fun u _ => u = [.write 0x60 value]) (writeData value) := by
  apply (send_yields 0x60 value).mono
  · intro t _ ht
    exact ht
  · intro t e ht
    exact Or.inl ht.1

theorem polite_reply (hn : 2 ≤ n) {status byte : BitVec 8} (h : q ⟨.read 0x64, status⟩) :
    Polite n q [⟨.read 0x64, status⟩, ⟨.read 0x60, byte⟩] where
  writes := by
    apply preceded_of_none
    intro e he hwrite
    rcases List.mem_pair.mp he with rfl | rfl
    · exact hwrite
    · exact hwrite
  reads := by
    have hpolls : Polls [⟨.read 0x64, status⟩] := Polls.nil.cons status
    exact (Preceded.snoc (t := []) hpolls.polite.reads h)
  short := hn

theorem speaks_pollReply (budget : ℕ) :
    Speaks (budget + 1) (fun u byte => u = [.reply byte]) (pollReply budget) := by
  induction budget with
  | zero => exact Or.inl Polite.nil
  | succ budget ih =>
    apply yields_issue_bind
    intro status
    by_cases hfull : status &&& outputFull ≠ 0
    · rw [if_pos hfull]
      apply yields_issue_bind
      intro byte
      by_cases hsound : status &&& (auxiliary ||| badData) = 0
      · rw [decide_eq_true hsound]
        exact ⟨polite_reply (Nat.le_add_left 2 budget) ⟨rfl, hfull, hsound⟩, rfl⟩
      · rw [decide_eq_false hsound]
        exact Or.inr ⟨rfl, [], status, byte, Polite.nil, Nat.le_add_left 2 budget, hfull, rfl⟩
    · rw [if_neg hfull]
      have hpolls : Polls [⟨.read 0x64, status⟩] := Polls.nil.cons status
      apply Yields.mono ih
      · intro t byte ht
        exact ⟨(hpolls.polite.append ht.1).mono (by simp; omega) fun _ h => h, ht.2⟩
      · intro t e ht
        exact (ht.append hpolls.polite).mono (by simp; omega)

theorem speaks_readReply : Speaks (pollBudget + 1) (fun u byte => u = [.reply byte]) readReply :=
  speaks_pollReply pollBudget

/-- The conversation of one of several attempts to send a byte. -/
def AcknowledgedWithin (attempts : ℕ) (value : BitVec 8) (messages : List Message) : Prop :=
  ∃ n < attempts, messages = (List.replicate n [.write 0x60 value, .reply 0xfe]).flatten ++
    [.write 0x60 value, .reply 0xfa]

theorem speaks_sendByte (value : BitVec 8) (attempts : ℕ) :
    Speaks (attempts * (2 * pollBudget + 2)) (fun u _ => AcknowledgedWithin attempts value u)
      (sendByte value attempts) := by
  induction attempts with
  | zero => exact talks_fail _
  | succ attempts ih =>
    have hbind : Speaks ((pollBudget + 1) + ((pollBudget + 1) + attempts * (2 * pollBudget + 2)))
        (fun u _ => AcknowledgedWithin (attempts + 1) value u) (sendByte value (attempts + 1)) := by
      apply (speaks_writeData value).bind
      intro u _ hu
      apply speaks_readReply.bind
      intro v reply hv
      subst hu hv
      by_cases hack : reply = 0xfa
      · rw [if_pos hack, hack]
        exact talks_done ⟨0, Nat.zero_lt_succ attempts, rfl⟩
      · rw [if_neg hack]
        by_cases hresend : reply = 0xfe
        · rw [if_pos hresend, hresend]
          apply ih.mono (Nat.le_refl _)
          intro w _ hw
          obtain ⟨n, hn, rfl⟩ := hw
          refine ⟨n + 1, Nat.succ_lt_succ hn, ?_⟩
          rw [List.replicate_succ, List.flatten_cons, List.append_assoc]
          rfl
        · rw [if_neg hresend]
          exact talks_fail _
    exact hbind.mono (by ring_nf; exact Nat.le_refl _) fun _ _ h => h

theorem speaks_keyboardCommand (value : BitVec 8) : Speaks (6 * pollBudget + 6)
    (fun u _ => Acknowledged value u) (keyboardCommand value) := by
  apply (speaks_sendByte value 3).mono (by omega)
  intro u _ hu
  obtain ⟨n, hn, hmessages⟩ := hu
  exact ⟨n, Nat.le_of_lt_succ hn, hmessages⟩

/-- An event outside the two ports of the 8042. -/
theorem polite_single {e : Event} (hwrite : ¬IsWrite e) (hdata : ¬IsData e) : Polite 1 q [e] where
  writes := preceded_of_none fun _ he => by rwa [List.mem_singleton.mp he]
  reads := preceded_of_none fun _ he => by rwa [List.mem_singleton.mp he]
  short := Nat.le_refl 1

theorem speaks_checkFlag : Speaks 1 (fun u _ => u = [])
    (interruptsEnabled >>= fun enabled => require (!enabled) flagAssertion) := by
  apply yields_issue_bind
  intro enabled
  have hpolite : Polite 1 Sound [(⟨.interruptsEnabled, enabled⟩ : Event)] :=
    polite_single (fun h => h) fun h => h
  apply yields_require
  · intro _
    exact ⟨hpolite, rfl⟩
  · intro _
    exact Or.inl hpolite

theorem speaks_unmaskKeyboard :
    Speaks 1 (fun u _ => u = [.write masterData 0xfd]) unmaskKeyboard := by
  have hpolite : Polite 1 Sound [(⟨.out masterData 0xfd, ()⟩ : Event)] :=
    polite_single (by unfold IsWrite; decide) fun h => h
  exact yields_issue (i := Op.out masterData 0xfd) fun _ => ⟨hpolite, rfl⟩

/-- `init` from command 0x20 on. -/
def configure : Code Unit := do
  command 0x20
  let configuration ← readReply
  let configuration := (configuration ||| 0x40 ||| 0x20) &&& ~~~(0x01 ||| 0x02 ||| 0x10)
  command 0x60
  writeData configuration
  command 0xae
  keyboardCommand 0xf5
  keyboardCommand 0xf0
  keyboardCommand 0x02
  keyboardCommand 0xf4
  command 0x60
  writeData (configuration ||| 1)
  require (!(← interruptsEnabled)) flagAssertion
  unmaskKeyboard

theorem firstConfiguration_eq (c : BitVec 8) :
    (c ||| 0x40 ||| 0x20) &&& ~~~(0x01 ||| 0x02 ||| 0x10) = firstConfiguration c := by
  rw [BitVec.or_assoc]
  rfl

theorem speaks_configure :
    Speaks (31 * pollBudget + 33) (fun u _ => Configured u) configure := by
  have hbind : Speaks (pollBudget + 1 + (pollBudget + 1 + (pollBudget + 1 + (pollBudget + 1 +
      (pollBudget + 1 + (6 * pollBudget + 6 + (6 * pollBudget + 6 + (6 * pollBudget + 6 +
      (6 * pollBudget + 6 + (pollBudget + 1 + (pollBudget + 1 + (1 + 1))))))))))))
      (fun u _ => Configured u) configure := by
    apply (speaks_command 0x20).bind
    intro _ _ h₁
    apply speaks_readReply.bind
    intro _ c h₂
    apply (speaks_command 0x60).bind
    intro _ _ h₃
    apply (speaks_writeData _).bind
    intro _ _ h₄
    apply (speaks_command 0xae).bind
    intro _ _ h₅
    apply (speaks_keyboardCommand 0xf5).bind
    intro a₁ _ ha₁
    apply (speaks_keyboardCommand 0xf0).bind
    intro a₂ _ ha₂
    apply (speaks_keyboardCommand 0x02).bind
    intro a₃ _ ha₃
    apply (speaks_keyboardCommand 0xf4).bind
    intro a₄ _ ha₄
    apply (speaks_command 0x60).bind
    intro _ _ h₆
    apply (speaks_writeData _).bind
    intro _ _ h₇
    apply speaks_checkFlag.bind
    intro _ _ h₈
    apply speaks_unmaskKeyboard.mono (Nat.le_refl 1)
    intro u _ h₉
    subst h₁ h₂ h₃ h₄ h₅ h₆ h₇ h₈ h₉
    refine ⟨c, a₁, a₂, a₃, a₄, ha₁, ha₂, ha₃, ha₄, ?_⟩
    rw [firstConfiguration_eq]
    simp only [List.append_assoc, List.cons_append, List.nil_append]
  apply hbind.mono (by omega)
  intro u _ hu
  exact hu

theorem prepares_command {value : BitVec 8} (hvalue : value ≠ 0x20) :
    Prepares (pollBudget + 1) (fun u _ => u = [.write 0x64 value]) (command value) := by
  apply (send_yields 0x64 value).mono
  · intro t _ ht
    refine ⟨⟨ht.1, ?_⟩, ht.2⟩
    rw [ht.2, List.mem_singleton]
    intro hsame
    injection hsame with _ hsame
    exact hvalue hsame.symm
  · intro t _ ht
    refine ⟨ht.1, ?_⟩
    rw [ht.2]
    exact List.not_mem_nil

/-- The bytes thrown away. -/
def Stale (n : ℕ) (messages : List Message) : Prop :=
  ∃ bytes : List (BitVec 8), bytes.length ≤ n ∧ messages = bytes.map .reply

theorem Polls.prepared (ht : Polls t) : Prepared t.length t := by
  refine ⟨ht.polite, ?_⟩
  rw [ht.transcript]
  exact List.not_mem_nil

theorem prepares_drainOutput (k : ℕ) :
    Prepares (2 * k) (fun u _ => Stale k u) (drainOutput k) := by
  induction k with
  | zero => exact talks_done ⟨[], Nat.le_refl 0, rfl⟩
  | succ k ih =>
    apply yields_issue_bind
    intro status
    by_cases hempty : status &&& outputFull = 0
    · rw [if_pos hempty]
      have hpolls : Polls [⟨.read 0x64, status⟩] := Polls.nil.cons status
      exact ⟨hpolls.prepared.mono (by simp; omega), [], Nat.zero_le _, rfl⟩
    · rw [if_neg hempty]
      apply yields_issue_bind
      intro byte
      have hpair : Prepared 2 [⟨.read 0x64, status⟩, ⟨.read 0x60, byte⟩] := by
        refine ⟨polite_reply (Nat.le_refl 2) ⟨rfl, hempty⟩, ?_⟩
        intro hmem
        rcases List.mem_singleton.mp hmem
      apply Yields.mono ih
      · intro t _ ht
        obtain ⟨bytes, hbytes, htranscript⟩ := ht.2
        refine ⟨(hpair.append ht.1).mono (by omega), byte :: bytes, Nat.succ_le_succ hbytes, ?_⟩
        rw [List.map_cons, ← htranscript]
        rfl
      · intro t _ ht
        exact (hpair.append ht).mono (by omega)

theorem prepares_checkFlag : Prepares 1 (fun u _ => u = [])
    (interruptsEnabled >>= fun enabled => require (!enabled) flagAssertion) := by
  apply yields_issue_bind
  intro enabled
  have hprepared : Prepared 1 [(⟨.interruptsEnabled, enabled⟩ : Event)] :=
    ⟨polite_single (fun h => h) fun h => h, List.not_mem_nil⟩
  apply yields_require
  · intro _
    exact ⟨hprepared, rfl⟩
  · intro _
    exact hprepared

theorem prepares_checkOutput : Prepares 1 (fun u _ => u = [])
    (in8 0x64 >>= fun status => require (status &&& outputFull = 0) "8042 stale output did not drain") := by
  apply yields_issue_bind
  intro status
  have hpolls : Polls [⟨.read 0x64, status⟩] := Polls.nil.cons status
  apply yields_require
  · intro _
    exact ⟨hpolls.prepared, rfl⟩
  · intro _
    exact hpolls.prepared

/-- `init` up to command 0x20. -/
def prepare : Code Unit := do
  require (!(← interruptsEnabled)) flagAssertion
  command 0xad
  command 0xa7
  drainOutput Keyboard.queueCapacity
  require ((← in8 0x64) &&& Keyboard.outputFull = 0) "8042 stale output did not drain"

theorem keyboardInit_eq : keyboardInit = (prepare >>= fun _ => configure) := by
  unfold prepare
  simp only [Process.bind_assoc]
  rfl

theorem prepares_prepare : Prepares (2 * pollBudget + 132)
    (fun u _ => ∃ stale : List (BitVec 8), stale.length ≤ queueCapacity ∧
      u = [.write 0x64 0xad, .write 0x64 0xa7] ++ stale.map .reply) prepare := by
  have hcapacity : queueCapacity = 64 := rfl
  have hbind : Prepares (1 + (pollBudget + 1 + (pollBudget + 1 + (2 * queueCapacity + 1))))
      (fun u _ => ∃ stale : List (BitVec 8), stale.length ≤ queueCapacity ∧
        u = [.write 0x64 0xad, .write 0x64 0xa7] ++ stale.map .reply) prepare := by
    unfold prepare
    rw [← Process.bind_assoc]
    apply prepares_checkFlag.bind
    intro _ _ h₁
    apply (prepares_command (by decide)).bind
    intro _ _ h₂
    apply (prepares_command (by decide)).bind
    intro _ _ h₃
    apply (prepares_drainOutput queueCapacity).bind
    intro _ _ h₄
    obtain ⟨stale, hstale, h₄⟩ := h₄
    apply prepares_checkOutput.mono (Nat.le_refl 1)
    intro u _ h₅
    subst h₁ h₂ h₃ h₄ h₅
    refine ⟨stale, hstale, ?_⟩
    simp only [List.cons_append, List.nil_append, List.append_nil]
  apply hbind.mono (by omega)
  intro u _ hu
  exact hu

theorem Broken.full {text : String} (h : Broken n u text) : Polite n Full u := by
  rcases h with h | ⟨-, v, status, byte, hv, hn, hstatus, rfl⟩
  · exact h.mono (Nat.le_refl n) fun _ => Sound.full
  · have hpair : Polite 2 Full [⟨.read 0x64, status⟩, ⟨.read 0x60, byte⟩] :=
      polite_reply (Nat.le_refl 2) ⟨rfl, hstatus⟩
    exact ((hv.mono (Nat.le_refl _) fun _ => Sound.full).append hpair).mono (by omega) fun _ h => h

theorem Prepared.not_mem (ht : Prepared n t) : ⟨.out 0x64 0x20, ()⟩ ∉ t := by
  intro hmem
  apply ht.before
  exact List.mem_filterMap.mpr ⟨_, hmem, rfl⟩

/-- A reply of the second part. -/
theorem Prepared.split (ht : Prepared n t) {before after : List Event} {e : Event}
    (h : t ++ u = before ++ e :: after) (hmem : ⟨.out 0x64 0x20, ()⟩ ∈ before) :
    ∃ middle, before = t ++ middle ∧ u = middle ++ e :: after := by
  obtain ⟨middle, hmiddle⟩ | ⟨middle, hmiddle⟩ := List.append_eq_append_iff.mp h
  · exact ⟨middle, hmiddle⟩
  · refine absurd ?_ ht.not_mem
    rw [hmiddle.1]
    exact List.mem_append_left middle hmem

theorem Broken.reply {text : String} (hu : Broken n u text) {middle after : List Event} {e : Event}
    (h : u = middle ++ e :: after) (hdata : IsData e) :
    (∃ earlier y, middle = earlier ++ [y] ∧ Sound y) ∨ after = [] ∧ text = "invalid 8042 reply" := by
  rcases hu with hu | ⟨htext, v, status, byte, hv, -, -, rfl⟩
  · exact Or.inl (hu.reads middle e after h hdata)
  · rcases List.eq_nil_or_concat after with rfl | ⟨rest, z, rfl⟩
    · exact Or.inr ⟨rfl, htext⟩
    · -- the status that announces the invalid reply is no data
      have hpolls : Polls [⟨.read 0x64, status⟩] := Polls.nil.cons status
      have hreads : Preceded IsData Sound (v ++ [⟨.read 0x64, status⟩]) :=
        hv.reads.append hpolls.polite.reads
      have hinit : v ++ [⟨.read 0x64, status⟩] ++ [⟨.read 0x60, byte⟩] =
          (middle ++ e :: rest) ++ [z] := by
        rw [List.concat_eq_append] at h
        simpa only [List.append_assoc, List.cons_append, List.nil_append] using h
      exact Or.inl (hreads middle e rest (List.append_inj' hinit rfl).1 hdata)

theorem protocol_yields : Yields (fun t _ => Protocol t (.ok ())) (fun t e => Protocol t (.error e))
    keyboardInit := by
  rw [keyboardInit_eq]
  apply Yields.bind prepares_prepare
  · intro t _ ht
    obtain ⟨hprepared, stale, hstale, hbefore⟩ := ht
    apply Yields.mono speaks_configure
    · intro u _ hu
      obtain ⟨hpolite, hconfigured⟩ := hu
      have hfull : Polite _ Full u := hpolite.mono (Nat.le_refl _) fun _ => Sound.full
      have hwhole := hprepared.polite.append hfull
      refine ⟨by have := hwhole.short; omega, hwhole.writes, hwhole.reads, ?_, ?_⟩
      · intro before e after h hdata hmem
        obtain ⟨middle, hmiddle, hu⟩ := hprepared.split h hmem
        obtain ⟨earlier, y, hearlier, hy⟩ := hpolite.reads middle e after hu hdata
        exact Or.inl ⟨t ++ earlier, y, by rw [hmiddle, hearlier, List.append_assoc], hy⟩
      · intro _
        exact ⟨stale, _, hstale, hconfigured, by rw [transcript_append, hbefore]⟩
    · intro u text hu
      have hwhole := hprepared.polite.append hu.full
      refine ⟨by have := hwhole.short; omega, hwhole.writes, hwhole.reads, ?_, ?_⟩
      · intro before e after h hdata hmem
        obtain ⟨middle, hmiddle, hsplit⟩ := hprepared.split h hmem
        rcases hu.reply hsplit hdata with ⟨earlier, y, hearlier, hy⟩ | ⟨hlast, htext⟩
        · exact Or.inl ⟨t ++ earlier, y, by rw [hmiddle, hearlier, List.append_assoc], hy⟩
        · exact Or.inr ⟨hlast, by rw [htext]⟩
      · intro hok
        cases hok
  · intro t text ht
    refine ⟨by have := ht.polite.short; omega, ht.polite.writes, ht.polite.reads, ?_, ?_⟩
    · intro before e after h _ hmem
      refine absurd ?_ ht.not_mem
      rw [h]
      exact List.mem_append_left _ hmem
    · intro hok
      cases hok

/-- Whatever the 8042 and the keyboard answer. -/
theorem init_protocol (answer : ℕ → (i : Op) → i.Answer) :
    Protocol (play answer keyboardInit 0).1 (play answer keyboardInit 0).2 := by
  rcases protocol_yields.play answer 0 with ⟨_, houtcome, h⟩ | ⟨text, houtcome, h⟩
  · rw [houtcome]
    exact h
  · rw [houtcome]
    exact h

end MikoOS.Interrupt
