import MikoOS.Library.SavedRegisters
import MikoOS.UserEntry

/-!
# Switches between tasks

`task_context_switch`, the first frame of `create_kernel_thread`, and the runs of any number of tasks
that switch among themselves. A suspended task is a saved frame on its own stack and the saved RSP in
its `Context`; every switch leaves one and takes up another, so that a task continues where its own
last call left it.
-/

namespace MikoOS.Tasks

open ByteMemory X86 Cpu Entry

/-- The order of the pops. -/
def poppedRegisters : List Reg := [.r15, .r14, .r13, .r12, .rbx, .rbp]

/-- RDI points to the `Context` of the task that leaves, RSI to the one that continues. -/
def taskContextSwitch (s : Cpu) : Cpu :=
  let s := pushRegs calleeSaved s
  let s := s.store (s.reg .rdi) (s.reg .rsp)
  let s := s.set .rsp (load64 s.ram (s.reg .rsi).toNat)
  (popRegs poppedRegisters s).ret

/-- The addresses of `task_trampoline` and `task_returned`. -/
structure Links where
  taskTrampoline : BitVec 64
  taskReturned : BitVec 64

/-- The words of the first frame. -/
def frameWords (l : Links) : List (BitVec 64) :=
  [0, 0, 0, 0, 0, 0, l.taskTrampoline, l.taskReturned]

/-- What `create_kernel_thread` stores for the first switch: the saved RSP and the frame. -/
def createFrame (l : Links) (context top : ℕ) (m : Memory) : Memory :=
  writeWords (store64 m context (BitVec.ofNat 64 (top - 64))) (top - 64) (frameWords l)

/-- A list of words at an address. -/
structure Saved where
  base : ℕ
  words : List (BitVec 64)

namespace Saved

/-- The frame of a call that returns to `returnTo`. -/
def ofCall (s : Cpu) (returnTo : BitVec 64) : Saved :=
  ⟨(s.reg .rsp).toNat - 56, poppedRegisters.map s.reg ++ [returnTo]⟩

def first (l : Links) (top : ℕ) : Saved := ⟨top - 64, frameWords l⟩

/-- The bytes of the frame and of the `Context`. -/
def Covers (f : Saved) (context x : ℕ) : Prop :=
  context ≤ x ∧ x < context + 8 ∨ f.base ≤ x ∧ x < f.base + 8 * f.words.length

/-- Memory that has the frame, and its address in the `Context`. -/
structure Holds (f : Saved) (context : ℕ) (m : Memory) : Prop where
  rsp : load64 m context = BitVec.ofNat 64 f.base
  words : WordsAt m f.base f.words

/-- The frame lies in a stack. -/
structure Within (f : Saved) (bottom top : ℕ) : Prop where
  bottom_le : bottom ≤ f.base
  le_top : f.base + 8 * f.words.length ≤ top

variable {f : Saved} {context : ℕ} {m m' : Memory}

theorem Holds.congr (h : f.Holds context m) (hsame : ∀ x, f.Covers context x → m' x = m x) :
    f.Holds context m' where
  rsp := by
    rw [← h.rsp]
    apply load64_congr
    intro i hi
    exact hsame _ (Or.inl ⟨by omega, by omega⟩)
  words := by
    apply h.words.congr
    intro x hlow hhigh
    exact hsame x (Or.inr ⟨hlow, hhigh⟩)

end Saved

/-- `t` continues behind the call that `s` made. -/
structure Continues (s : Cpu) (returnTo : BitVec 64) (t : Cpu) : Prop where
  rip : t.rip = returnTo
  rsp : t.reg .rsp = s.reg .rsp
  reg : ∀ r ∈ calleeSaved, t.reg r = s.reg r

/-- `t` is at the first instruction of a new task. -/
structure Starts (l : Links) (top : ℕ) (t : Cpu) : Prop where
  rip : t.rip = l.taskTrampoline
  rsp : (t.reg .rsp).toNat = top - 8
  aligned : (t.reg .rsp).toNat % 16 = 8
  reg : ∀ r ∈ calleeSaved, t.reg r = 0
  returned : t.top = l.taskReturned

/-- The state at the stack switch. -/
def parked (s : Cpu) : Cpu :=
  let s := pushRegs calleeSaved s
  s.store (s.reg .rdi) (s.reg .rsp)

/-- From the stack switch on. -/
def unparked (s : Cpu) : Cpu :=
  (popRegs poppedRegisters (s.set .rsp (load64 s.ram (s.reg .rsi).toNat))).ret

theorem taskContextSwitch_eq (s : Cpu) : taskContextSwitch s = unparked (parked s) := rfl

section Step

variable {s t : Cpu} {returnTo : BitVec 64} {f : Saved} {x : ℕ}

theorem unparked_ram (s : Cpu) : (unparked s).ram = s.ram := by
  have hreturn : ∀ v : Cpu, v.ret.ram = v.ram := fun v => rfl
  rw [unparked, hreturn, popRegs_ram]
  rfl

theorem taskContextSwitch_flags (s : Cpu) : (taskContextSwitch s).flags = s.flags := by
  have hreturn : ∀ v : Cpu, v.ret.flags = v.flags := fun v => rfl
  rw [taskContextSwitch_eq, unparked, hreturn, popRegs_flags]
  change (pushRegs calleeSaved s).flags = s.flags
  rw [pushRegs_eq]

theorem parked_reg {r : Reg} (hr : r ≠ .rsp) : (parked s).reg r = s.reg r := by
  change (pushRegs calleeSaved s).reg r = s.reg r
  exact pushRegs_reg hr

/-- The bytes a call of `task_context_switch` writes. -/
theorem parked_outside (hroom : 56 ≤ (s.reg .rsp).toNat)
    (hstack : x + 56 < (s.reg .rsp).toNat ∨ (s.reg .rsp).toNat ≤ x)
    (hcontext : x < (s.reg .rdi).toNat ∨ (s.reg .rdi).toNat + 8 ≤ x) :
    (parked (s.push returnTo)).ram x = s.ram x := by
  have hlength : calleeSaved.length = 6 := rfl
  have hrdi : (pushRegs calleeSaved (s.push returnTo)).reg .rdi = s.reg .rdi := by
    rw [pushRegs_reg (by decide), push_reg (by decide)]
  have hrsp := push_rsp_toNat (v := returnTo) (s := s) (by omega)
  change store64 _ ((pushRegs calleeSaved (s.push returnTo)).reg .rdi).toNat _ x = s.ram x
  rw [hrdi, store64_outside hcontext, pushRegs_outside (by omega) (by omega),
    push_outside (by omega) (by omega)]

/-- The frame of the call is in place. -/
theorem parked_holds (hroom : 56 ≤ (s.reg .rsp).toNat)
    (hcontext : (s.reg .rdi).toNat + 8 ≤ (s.reg .rsp).toNat - 56 ∨
      (s.reg .rsp).toNat ≤ (s.reg .rdi).toNat) :
    (Saved.ofCall s returnTo).Holds (s.reg .rdi).toNat (parked (s.push returnTo)).ram := by
  have hlength : calleeSaved.length = 6 := rfl
  have hrdi : (pushRegs calleeSaved (s.push returnTo)).reg .rdi = s.reg .rdi := by
    rw [pushRegs_reg (by decide), push_reg (by decide)]
  have hpush := push_rsp_toNat (v := returnTo) (s := s) (by omega)
  have hroom' : 8 * calleeSaved.length ≤ ((s.push returnTo).reg .rsp).toNat := by omega
  have hrsp := pushRegs_rsp_toNat hroom'
  have hreturn : WordsAt (s.push returnTo).ram ((s.push returnTo).reg .rsp).toNat [returnTo] :=
    push_wordsAt (by omega) trivial
  have hwords := pushRegs_wordsAt (by decide) hroom' hreturn
  have hbase : ((pushRegs calleeSaved (s.push returnTo)).reg .rsp).toNat = (s.reg .rsp).toNat - 56 := by
    omega
  have hsaved : (calleeSaved.map (s.push returnTo).reg).reverse = poppedRegisters.map s.reg := rfl
  rw [hsaved, hbase] at hwords
  constructor
  · change load64 (store64 _ ((pushRegs calleeSaved (s.push returnTo)).reg .rdi).toNat _) _ = _
    rw [hrdi, load64_store64]
    apply BitVec.eq_of_toNat_eq
    rw [hbase, BitVec.toNat_ofNat, Nat.mod_eq_of_lt]
    · rfl
    · change (s.reg .rsp).toNat - 56 < 2 ^ 64
      omega
  · apply hwords.congr
    intro x hlow hhigh
    change store64 _ ((pushRegs calleeSaved (s.push returnTo)).reg .rdi).toNat _ x = _
    rw [hrdi]
    rw [List.length_append, List.length_map, List.length_singleton] at hhigh
    have hsix : poppedRegisters.length = 6 := rfl
    apply store64_outside
    omega

/-- Behind the switch the registers are those of the frame that RSI leads to. -/
theorem unparked_words {g : Reg → BitVec 64} {rest : List (BitVec 64)}
    (hf : f.Holds (s.reg .rsi).toNat s.ram) (hwords : f.words = poppedRegisters.map g ++ returnTo :: rest)
    (hend : f.base + 56 < 2 ^ 64) :
    (unparked s).rip = returnTo ∧ ((unparked s).reg .rsp).toNat = f.base + 56 ∧
      (∀ r ∈ calleeSaved, (unparked s).reg r = g r) ∧ WordsAt (unparked s).ram (f.base + 56) rest := by
  obtain ⟨v, hv⟩ : ∃ v, v = s.set .rsp (load64 s.ram (s.reg .rsi).toNat) := ⟨_, rfl⟩
  have hsix : poppedRegisters.length = 6 := rfl
  have hno : Reg.rsp ∉ poppedRegisters := by decide
  have hram : v.ram = s.ram := by
    rw [hv]
    rfl
  have hrsp : (v.reg .rsp).toNat = f.base := by
    rw [hv, set_self, hf.rsp, BitVec.toNat_ofNat, Nat.mod_eq_of_lt (by omega)]
  have hsaved := hf.words
  rw [hwords, wordsAt_append, List.length_map, hsix] at hsaved
  obtain ⟨hregs, hreturn, hrest⟩ := hsaved
  rw [← hrsp, ← hram] at hregs
  have hpopped := popRegs_wordsAt hno (by omega) hregs
  have hpop := popRegs_rsp_toNat hno (show (v.reg .rsp).toNat + 8 * poppedRegisters.length < 2 ^ 64 by omega)
  have hunparked : unparked s = (popRegs poppedRegisters v).ret := by
    rw [hv]
    rfl
  have hmemory := unparked_ram s
  have hback : (popRegs poppedRegisters v).ram = s.ram := by
    rw [popRegs_ram, hram]
  rw [hmemory, hunparked]
  generalize popRegs poppedRegisters v = y at *
  refine ⟨?_, ?_, ?_, hrest⟩
  · change load64 y.ram (y.reg .rsp).toNat = returnTo
    rw [hpop, hback, hrsp, hsix]
    exact hreturn
  · change ((y.set .rsp (y.reg .rsp + 8)).reg .rsp).toNat = _
    have height : (8 : BitVec 64).toNat = 8 := rfl
    rw [set_self, BitVec.toNat_add, height, hpop, Nat.mod_eq_of_lt (by omega)]
    omega
  · intro r hr
    have hne : r ≠ .rsp := by
      intro hsame
      rw [hsame] at hr
      exact absurd hr (by decide)
    have hmem : r ∈ poppedRegisters := by
      revert hr
      cases r <;> decide
    change (y.set .rsp (y.reg .rsp + 8)).reg r = g r
    rw [set_of_ne hne, hpopped r hne, if_pos hmem]

/-- A switch to the frame of a call continues behind the call. -/
theorem unparked_continues {c : Cpu} (hroom : 56 ≤ (c.reg .rsp).toNat)
    (hf : (Saved.ofCall c returnTo).Holds (s.reg .rsi).toNat s.ram) :
    Continues c returnTo (unparked s) := by
  have hbase : (Saved.ofCall c returnTo).base = (c.reg .rsp).toNat - 56 := rfl
  obtain ⟨hrip, hrsp, hreg, -⟩ := unparked_words hf rfl (by omega)
  constructor
  · exact hrip
  · apply BitVec.eq_of_toNat_eq
    omega
  · exact hreg

/-- A switch to a first frame starts the task. -/
theorem unparked_starts {l : Links} {top : ℕ} (hroom : 64 ≤ top) (hlt : top < 2 ^ 64)
    (haligned : top % 16 = 0) (hf : (Saved.first l top).Holds (s.reg .rsi).toNat s.ram) :
    Starts l top (unparked s) := by
  have hbase : (Saved.first l top).base = top - 64 := rfl
  have hwords : (Saved.first l top).words =
      poppedRegisters.map (fun _ => 0) ++ l.taskTrampoline :: [l.taskReturned] := rfl
  obtain ⟨hrip, hrsp, hreg, hreturned⟩ := unparked_words hf hwords (by omega)
  constructor
  · exact hrip
  · omega
  · omega
  · exact hreg
  · rw [Cpu.top, hrsp]
    exact hreturned.1

end Step

/-- Where the tasks lie. -/
structure Layout (ι : Type) where
  boot : ι
  context : ι → ℕ
  bottom : ι → ℕ
  top : ι → ℕ
  top_lt : ∀ i, top i < 2 ^ 64
  context_lt : ∀ i, context i + 8 ≤ 2 ^ 64
  disjoint : Pairwise fun i j => top i ≤ bottom j ∨ top j ≤ bottom i
  distinct : Pairwise fun i j => context i + 8 ≤ context j ∨ context j + 8 ≤ context i
  apart : ∀ i j, context i + 8 ≤ bottom j ∨ top j ≤ context i

/-- A switch has the states at the call and behind it. -/
inductive Event (ι : Type)
  | work
  | create (j : ι)
  | switch (i j : ι) (s : Cpu) (returnTo : BitVec 64) (t : Cpu)

/-! Histories have the newest event first. -/

section Histories

variable {ι : Type}

/-- The last call of a task, and where it returns to. -/
def lastCall [DecidableEq ι] (j : ι) : List (Event ι) → Option (Cpu × BitVec 64)
  | [] => none
  | .switch i _ s returnTo _ :: h => if i = j then some (s, returnTo) else lastCall j h
  | .work :: h => lastCall j h
  | .create _ :: h => lastCall j h

def Created (a : Layout ι) (j : ι) (h : List (Event ι)) : Prop := j = a.boot ∨ Event.create j ∈ h

/-- The task has been switched to, or has booted. -/
def Ran (a : Layout ι) (j : ι) (h : List (Event ι)) : Prop :=
  j = a.boot ∨ ∃ i s returnTo t, Event.switch i j s returnTo t ∈ h

section Cons

variable {a : Layout ι} {i j : ι} {e : Event ι} {h : List (Event ι)}

theorem Created.cons (hj : Created a j h) : Created a j (e :: h) := by
  rcases hj with hboot | hcreate
  · exact Or.inl hboot
  · exact Or.inr (List.mem_cons_of_mem e hcreate)

theorem Created.of_cons (hj : Created a j (e :: h)) : e = .create j ∨ Created a j h := by
  rcases hj with hboot | hmem
  · exact Or.inr (Or.inl hboot)
  · rcases List.mem_cons.mp hmem with hhead | hmem
    · exact Or.inl hhead.symm
    · exact Or.inr (Or.inr hmem)

theorem Ran.cons (hj : Ran a j h) : Ran a j (e :: h) := by
  rcases hj with hboot | ⟨i, s, returnTo, t, hmem⟩
  · exact Or.inl hboot
  · exact Or.inr ⟨i, s, returnTo, t, List.mem_cons_of_mem e hmem⟩

theorem Ran.of_cons (hj : Ran a j (e :: h)) : (∃ i s returnTo t, e = .switch i j s returnTo t) ∨ Ran a j h := by
  rcases hj with hboot | ⟨i, s, returnTo, t, hmem⟩
  · exact Or.inr (Or.inl hboot)
  · rcases List.mem_cons.mp hmem with hhead | hmem
    · exact Or.inl ⟨i, s, returnTo, t, hhead.symm⟩
    · exact Or.inr (Or.inr ⟨i, s, returnTo, t, hmem⟩)

end Cons

/-- The frame that a suspended task has left, or its first one. -/
def savedFrame [DecidableEq ι] (l : Links) (a : Layout ι) (j : ι) (h : List (Event ι)) : Saved :=
  match lastCall j h with
  | some (s, returnTo) => .ofCall s returnTo
  | none => .first l (a.top j)

/-- A call of the running task on its own stack. -/
structure Calls (a : Layout ι) (i j : ι) (s : Cpu) : Prop where
  rdi : (s.reg .rdi).toNat = a.context i
  rsi : (s.reg .rsi).toNat = a.context j
  bottom_le : a.bottom i + 56 ≤ (s.reg .rsp).toNat
  le_top : (s.reg .rsp).toNat ≤ a.top i

/-- The running task `i` writes to no saved frame and to no `Context` of a suspended task. -/
def Leaves [DecidableEq ι] (l : Links) (a : Layout ι) (h : List (Event ι)) (i : ι) (c t : Cpu) : Prop :=
  ∀ j, Created a j h → j ≠ i → ∀ x, (savedFrame l a j h).Covers (a.context j) x → t.ram x = c.ram x

/-- The histories of a task `i` that runs in the state `c`. Other code is arbitrary, but for what it
leaves alone. -/
inductive Run [DecidableEq ι] (l : Links) (a : Layout ι) : List (Event ι) → ι → Cpu → Prop
  | boot (c : Cpu) : Run l a [] a.boot c
  | work (h : List (Event ι)) (i : ι) (c t : Cpu) : Run l a h i c → Leaves l a h i c t →
      Run l a (.work :: h) i t
  | create (h : List (Event ι)) (i : ι) (c : Cpu) (j : ι) : Run l a h i c → ¬Created a j h →
      a.top j % 16 = 0 → a.bottom j + 64 ≤ a.top j →
      Run l a (.create j :: h) i { c with ram := createFrame l (a.context j) (a.top j) c.ram }
  | switch (h : List (Event ι)) (i : ι) (c : Cpu) (j : ι) (returnTo : BitVec 64) : Run l a h i c →
      Created a j h → j ≠ i → Calls a i j c →
      Run l a (.switch i j c returnTo (taskContextSwitch (c.push returnTo)) :: h) j
        (taskContextSwitch (c.push returnTo))

end Histories

section Runs

variable {ι : Type} [DecidableEq ι] {l : Links} {a : Layout ι} {h : List (Event ι)} {i j : ι} {c : Cpu}

/-- A suspended task: its frame is in place on its own stack. -/
structure Suspended (l : Links) (a : Layout ι) (j : ι) (h : List (Event ι)) (m : Memory) : Prop where
  holds : (savedFrame l a j h).Holds (a.context j) m
  within : (savedFrame l a j h).Within (a.bottom j) (a.top j)

/-- What every history leads to. -/
structure Accounted (l : Links) (a : Layout ι) (h : List (Event ι)) (i : ι) (c : Cpu) : Prop where
  running : Created a i h ∧ Ran a i h
  calls : ∀ j, lastCall j h ≠ none → Created a j h ∧ Ran a j h
  called : ∀ j, j ≠ i → Ran a j h → lastCall j h ≠ none
  room : ∀ j s returnTo, lastCall j h = some (s, returnTo) → 56 ≤ (s.reg .rsp).toNat
  aligned : ∀ j, Created a j h → j ≠ a.boot → a.top j % 16 = 0
  suspended : ∀ j, Created a j h → j ≠ i → Suspended l a j h c.ram

theorem savedFrame_some {s : Cpu} {returnTo : BitVec 64} (hcall : lastCall j h = some (s, returnTo)) :
    savedFrame l a j h = .ofCall s returnTo := by
  rw [savedFrame, hcall]

theorem savedFrame_none (hcall : lastCall j h = none) : savedFrame l a j h = .first l (a.top j) := by
  rw [savedFrame, hcall]

theorem savedFrame_congr {h' : List (Event ι)} (hsame : lastCall j h' = lastCall j h) :
    savedFrame l a j h' = savedFrame l a j h := by
  rw [savedFrame, savedFrame, hsame]

/-- Stores outside the frame and the `Context` keep a task suspended. -/
theorem Suspended.congr {h' : List (Event ι)} {m m' : Memory} (hj : Suspended l a j h m)
    (hsame : lastCall j h' = lastCall j h)
    (hmemory : ∀ x, (savedFrame l a j h).Covers (a.context j) x → m' x = m x) :
    Suspended l a j h' m' where
  holds := by
    rw [savedFrame_congr hsame]
    exact hj.holds.congr hmemory
  within := by
    rw [savedFrame_congr hsame]
    exact hj.within

theorem accounted_boot (c : Cpu) : Accounted l a [] a.boot c where
  running := ⟨Or.inl rfl, Or.inl rfl⟩
  calls := by
    intro j hcall
    exact absurd rfl hcall
  called := by
    intro j hne hj
    rcases hj with hboot | ⟨i, s, r, t, hmem⟩
    · exact absurd hboot hne
    · exact absurd hmem List.not_mem_nil
  room := by
    intro j s r hcall
    cases hcall
  aligned := by
    intro j hj hne
    rcases hj with hboot | hmem
    · exact absurd hboot hne
    · exact absurd hmem List.not_mem_nil
  suspended := by
    intro j hj hne
    rcases hj with hboot | hmem
    · exact absurd hboot hne
    · exact absurd hmem List.not_mem_nil

/-- Another task's stack and `Context` are away from what a suspended task has saved. -/
theorem Suspended.away {k : ι} {m : Memory} {x : ℕ} (hk : Suspended l a k h m) (hne : j ≠ k)
    (hx : (savedFrame l a k h).Covers (a.context k) x) :
    (x < a.context j ∨ a.context j + 8 ≤ x) ∧ (x < a.bottom j ∨ a.top j ≤ x) := by
  have hdistinct := a.distinct hne
  have hdisjoint := a.disjoint hne
  have hhere := a.apart j k
  have hthere := a.apart k j
  have hlow := hk.within.bottom_le
  have hhigh := hk.within.le_top
  rcases hx with hx | hx
  · omega
  · omega

theorem accounted_work {t : Cpu} (hc : Accounted l a h i c) (hkept : Leaves l a h i c t) :
    Accounted l a (.work :: h) i t where
  running := ⟨hc.running.1.cons, hc.running.2.cons⟩
  calls := by
    intro j hcall
    obtain ⟨hcreated, hran⟩ := hc.calls j hcall
    exact ⟨hcreated.cons, hran.cons⟩
  called := by
    intro j hne hj
    rcases hj.of_cons with ⟨_, _, _, _, hhead⟩ | hbefore
    · cases hhead
    · exact hc.called j hne hbefore
  room := hc.room
  aligned := by
    intro j hj hne
    rcases hj.of_cons with hhead | hbefore
    · cases hhead
    · exact hc.aligned j hbefore hne
  suspended := by
    intro j hj hne
    rcases hj.of_cons with hhead | hbefore
    · cases hhead
    · exact (hc.suspended j hbefore hne).congr rfl (hkept j hbefore hne)

theorem createFrame_outside {context top x : ℕ} {m : Memory} (hroom : 64 ≤ top)
    (hcontext : x < context ∨ context + 8 ≤ x) (hframe : x < top - 64 ∨ top ≤ x) :
    createFrame l context top m x = m x := by
  have hlength : 8 * (frameWords l).length = 64 := rfl
  rw [createFrame, writeWords_outside (by omega), store64_outside hcontext]

theorem createFrame_holds {context top : ℕ} {m : Memory} (hroom : 64 ≤ top)
    (hcontext : context + 8 ≤ top - 64 ∨ top ≤ context) :
    (Saved.first l top).Holds context (createFrame l context top m) where
  rsp := by
    have hlength : 8 * (frameWords l).length = 64 := rfl
    have hsaved : load64 (createFrame l context top m) context =
        load64 (store64 m context (BitVec.ofNat 64 (top - 64))) context := by
      apply load64_congr
      intro k hk
      exact writeWords_outside (by omega)
    rw [hsaved, load64_store64]
    rfl
  words := writeWords_wordsAt _ _ _

theorem accounted_create (hc : Accounted l a h i c) (hnew : ¬Created a j h) (haligned : a.top j % 16 = 0)
    (hroom : a.bottom j + 64 ≤ a.top j) :
    Accounted l a (.create j :: h) i
      { c with ram := createFrame l (a.context j) (a.top j) c.ram } where
  running := ⟨hc.running.1.cons, hc.running.2.cons⟩
  calls := by
    intro k hcall
    obtain ⟨hcreated, hran⟩ := hc.calls k hcall
    exact ⟨hcreated.cons, hran.cons⟩
  called := by
    intro k hne hk
    rcases hk.of_cons with ⟨_, _, _, _, hhead⟩ | hbefore
    · cases hhead
    · exact hc.called k hne hbefore
  room := hc.room
  aligned := by
    intro k hk hne
    rcases hk.of_cons with hhead | hbefore
    · cases hhead
      exact haligned
    · exact hc.aligned k hbefore hne
  suspended := by
    intro k hk hne
    change Suspended l a k (.create j :: h) (createFrame l (a.context j) (a.top j) c.ram)
    rcases hk.of_cons with hhead | hbefore
    · cases hhead
      have hnone : lastCall j h = none := by
        by_contra hcall
        exact hnew (hc.calls j hcall).1
      have hfirst : savedFrame l a j (.create j :: h) = .first l (a.top j) := savedFrame_none hnone
      have hapart := a.apart j j
      have hbase : (Saved.first l (a.top j)).base = a.top j - 64 := rfl
      have hlength : 8 * (Saved.first l (a.top j)).words.length = 64 := rfl
      constructor
      · rw [hfirst]
        exact createFrame_holds (by omega) (by omega)
      · rw [hfirst]
        constructor
        · omega
        · omega
    · have hsuspended := hc.suspended k hbefore hne
      have hself : j ≠ k := by
        intro hsame
        rw [hsame] at hnew
        exact hnew hbefore
      have hsame : lastCall k (.create j :: h) = lastCall k h := rfl
      apply hsuspended.congr hsame
      intro x hx
      obtain ⟨hcontext, hstack⟩ := hsuspended.away hself hx
      exact createFrame_outside (by omega) hcontext (by omega)

/-- A call writes nothing that another task has saved. -/
theorem Calls.spares {k : ι} {m : Memory} {x : ℕ} {returnTo : BitVec 64} (hcalls : Calls a i j c)
    (hk : Suspended l a k h m) (hne : i ≠ k) (hx : (savedFrame l a k h).Covers (a.context k) x) :
    (parked (c.push returnTo)).ram x = c.ram x := by
  obtain ⟨hcontext, hstack⟩ := hk.away hne hx
  have hrdi := hcalls.rdi
  have hlow := hcalls.bottom_le
  have hhigh := hcalls.le_top
  apply parked_outside
  · omega
  · omega
  · omega

theorem lastCall_switch_self {s t : Cpu} {returnTo : BitVec 64} :
    lastCall i (.switch i j s returnTo t :: h) = some (s, returnTo) := if_pos rfl

theorem lastCall_switch_ne {k : ι} {s t : Cpu} {returnTo : BitVec 64} (hne : i ≠ k) :
    lastCall k (.switch i j s returnTo t :: h) = lastCall k h := if_neg hne

theorem accounted_switch {returnTo : BitVec 64} (hc : Accounted l a h i c) (hj : Created a j h)
    (hcalls : Calls a i j c) :
    Accounted l a (.switch i j c returnTo (taskContextSwitch (c.push returnTo)) :: h) j
      (taskContextSwitch (c.push returnTo)) where
  running := ⟨hj.cons, Or.inr ⟨_, _, _, _, List.mem_cons_self⟩⟩
  calls := by
    intro k hcall
    by_cases hself : i = k
    · rw [← hself]
      exact ⟨hc.running.1.cons, hc.running.2.cons⟩
    · rw [lastCall_switch_ne hself] at hcall
      obtain ⟨hcreated, hran⟩ := hc.calls k hcall
      exact ⟨hcreated.cons, hran.cons⟩
  called := by
    intro k hne hk
    by_cases hself : i = k
    · rw [hself, lastCall_switch_self]
      exact Option.some_ne_none _
    · rw [lastCall_switch_ne hself]
      rcases hk.of_cons with ⟨_, _, _, _, hhead⟩ | hbefore
      · cases hhead
        exact absurd rfl hne
      · exact hc.called k (Ne.symm hself) hbefore
  room := by
    intro k s r hcall
    by_cases hself : i = k
    · rw [← hself, lastCall_switch_self] at hcall
      cases hcall
      have hlow := hcalls.bottom_le
      omega
    · rw [lastCall_switch_ne hself] at hcall
      exact hc.room k s r hcall
  aligned := by
    intro k hk hne
    rcases hk.of_cons with hhead | hbefore
    · cases hhead
    · exact hc.aligned k hbefore hne
  suspended := by
    intro k hk hne
    have hlow := hcalls.bottom_le
    have hhigh := hcalls.le_top
    have hrdi := hcalls.rdi
    rw [taskContextSwitch_eq, unparked_ram]
    by_cases hself : i = k
    · subst hself
      have hframe : savedFrame l a i (.switch i j c returnTo (unparked (parked (c.push returnTo))) :: h) =
          .ofCall c returnTo := savedFrame_some lastCall_switch_self
      have hapart := a.apart i i
      have hbase : (Saved.ofCall c returnTo).base = (c.reg .rsp).toNat - 56 := rfl
      have hlength : 8 * (Saved.ofCall c returnTo).words.length = 56 := rfl
      constructor
      · rw [hframe, ← hrdi]
        exact parked_holds (by omega) (by omega)
      · rw [hframe]
        constructor
        · omega
        · omega
    · rcases hk.of_cons with hhead | hbefore
      · cases hhead
      · have hsuspended := hc.suspended k hbefore (Ne.symm hself)
        apply hsuspended.congr (lastCall_switch_ne hself)
        intro x hx
        exact hcalls.spares hsuspended hself hx

theorem Run.accounted (hrun : Run l a h i c) : Accounted l a h i c := by
  induction hrun with
  | boot c => exact accounted_boot c
  | work h i c t _ hkept ih => exact accounted_work ih hkept
  | create h i c j _ hnew haligned hroom ih => exact accounted_create ih hnew haligned hroom
  | switch h i c j returnTo _ hj _ hcalls ih => exact accounted_switch ih hj hcalls

/-- A part of a history. -/
theorem Run.earlier {later : List (Event ι)} (hrun : Run l a (later ++ h) i c) :
    ∃ i' c', Run l a h i' c' := by
  induction later generalizing i c with
  | nil => exact ⟨i, c, hrun⟩
  | cons e later ih =>
    cases hrun with
    | work _ _ c _ hbefore => exact ih hbefore
    | create _ _ c _ hbefore => exact ih hbefore
    | switch _ i c _ _ hbefore => exact ih hbefore

section Switch

variable {s s₀ : Cpu} {returnTo returnTo₀ : BitVec 64} (hc : Accounted l a h i s) (hj : Created a j h)
  (hne : j ≠ i) (hcalls : Calls a i j s)

include hc hj hne hcalls

/-- The frame is still in place when the stack pointer is switched to it. -/
theorem Accounted.frame : (savedFrame l a j h).Holds ((parked (s.push returnTo)).reg .rsi).toNat
    (parked (s.push returnTo)).ram := by
  have hsuspended := hc.suspended j hj hne
  rw [parked_reg (by decide), push_reg (by decide), hcalls.rsi]
  apply hsuspended.holds.congr
  intro x hx
  exact hcalls.spares hsuspended (Ne.symm hne) hx

theorem Accounted.continues (hcall : lastCall j h = some (s₀, returnTo₀)) :
    Continues s₀ returnTo₀ (taskContextSwitch (s.push returnTo)) := by
  have hholds : (savedFrame l a j h).Holds ((parked (s.push returnTo)).reg .rsi).toNat
      (parked (s.push returnTo)).ram := hc.frame hj hne hcalls
  rw [savedFrame_some hcall] at hholds
  exact unparked_continues (hc.room j s₀ returnTo₀ hcall) hholds

theorem Accounted.starts (hcall : lastCall j h = none) (hboot : j ≠ a.boot) :
    Starts l (a.top j) (taskContextSwitch (s.push returnTo)) := by
  have hholds : (savedFrame l a j h).Holds ((parked (s.push returnTo)).reg .rsi).toNat
      (parked (s.push returnTo)).ram := hc.frame hj hne hcalls
  have hwithin := (hc.suspended j hj hne).within.le_top
  rw [savedFrame_none hcall] at hholds hwithin
  have hbase : (Saved.first l (a.top j)).base = a.top j - 64 := rfl
  have hlength : 8 * (Saved.first l (a.top j)).words.length = 64 := rfl
  exact unparked_starts (by omega) (a.top_lt j) (hc.aligned j hj hboot) hholds

end Switch

/-- However the tasks switch: a task that ran before continues behind its own last call, and one that did
not starts on the frame it was created with. -/
theorem task_switches (l : Links) (a : Layout ι) (hrun : Run l a h i c) (later earlier : List (Event ι))
    {previous next : ι} {s t : Cpu} {returnTo : BitVec 64}
    (hevent : h = later ++ .switch previous next s returnTo t :: earlier) :
    (Ran a next earlier → ∃ s₀ returnTo₀, lastCall next earlier = some (s₀, returnTo₀) ∧
      Continues s₀ returnTo₀ t) ∧
    (¬Ran a next earlier → Starts l (a.top next) t) ∧
    ∀ between, Ran a next (between ++ .switch previous next s returnTo t :: earlier) := by
  rw [hevent] at hrun
  obtain ⟨i', c', hswitch⟩ := hrun.earlier
  cases hswitch with
  | switch _ _ _ _ _ hbefore hnext hne hcalls =>
    have haccount := hbefore.accounted
    refine ⟨?_, ?_, ?_⟩
    · intro hran
      obtain ⟨⟨s₀, returnTo₀⟩, hcall⟩ := Option.ne_none_iff_exists'.mp (haccount.called next hne hran)
      exact ⟨s₀, returnTo₀, hcall, haccount.continues hnext hne hcalls hcall⟩
    · intro hfresh
      apply haccount.starts hnext hne hcalls
      · by_contra hcall
        exact hfresh (haccount.calls next hcall).2
      · intro hboot
        exact hfresh (Or.inl hboot)
    · intro between
      exact Or.inr ⟨_, _, _, _, List.mem_append_right between List.mem_cons_self⟩

end Runs

def taskRegionSize : ℕ := 32 * 1024
def descriptorArea : ℕ := 4096

theorem kernelEnd_lt_word {image : KernelImage} (himage : image.Linked) : image.kernelEnd < 2 ^ 64 :=
  lt_trans himage.kernelEnd_lt (by decide)

/-- `BOOT_TASK` and the boot stack, two objects of the image. -/
structure BootObjects (image : KernelImage) where
  task : ℕ
  bootStack : ℕ
  bootStackTop : ℕ
  task_le : task + 8 ≤ image.kernelEnd
  top_le : bootStackTop ≤ image.kernelEnd
  apart : task + 8 ≤ bootStack ∨ bootStackTop ≤ task

/-- A page behind the image. -/
structure ThreadPage (image : KernelImage) where
  index : ℕ
  image_le : image.kernelEnd ≤ pageOffset + index * page2MSize
  le_top : pageOffset + (index + 1) * page2MSize ≤ 2 ^ 64
  deriving DecidableEq

namespace ThreadPage

variable {image : KernelImage}

/-- The address of the descriptor. -/
def base (p : ThreadPage image) : ℕ := pageOffset + p.index * page2MSize

theorem base_apart {p q : ThreadPage image} (hne : p ≠ q) :
    p.base + page2MSize ≤ q.base ∨ q.base + page2MSize ≤ p.base := by
  have hindex : p.index ≠ q.index := by
    intro hsame
    apply hne
    cases p
    cases q
    cases hsame
    rfl
  unfold base page2MSize
  omega

theorem base_le (p : ThreadPage image) :
    image.kernelEnd ≤ p.base ∧ p.base + page2MSize ≤ 2 ^ 64 := by
  have hle := p.le_top
  have himage := p.image_le
  unfold base
  unfold page2MSize at *
  omega

end ThreadPage

/-- `BOOT_TASK`, or the descriptor at the start of a page. -/
inductive TaskPointer (image : KernelImage)
  | boot
  | thread (page : ThreadPage image)
  deriving DecidableEq

section KernelLayout

variable {image : KernelImage} (b : BootObjects image)

def contextOf : TaskPointer image → ℕ
  | .boot => b.task
  | .thread p => p.base

def stackBottom : TaskPointer image → ℕ
  | .boot => b.bootStack
  | .thread p => p.base + descriptorArea + 8

def stackTop : TaskPointer image → ℕ
  | .boot => b.bootStackTop
  | .thread p => p.base + taskRegionSize

/-- The image, or the page of the thread. -/
def area : TaskPointer image → ℕ × ℕ
  | .boot => (0, image.kernelEnd)
  | .thread p => (p.base, p.base + page2MSize)

theorem area_apart {i j : TaskPointer image} (hne : i ≠ j) :
    (area i).2 ≤ (area j).1 ∨ (area j).2 ≤ (area i).1 := by
  cases i with
  | boot =>
    cases j with
    | boot => exact absurd rfl hne
    | thread q => exact Or.inl q.base_le.1
  | thread p =>
    cases j with
    | boot => exact Or.inr p.base_le.1
    | thread q => exact ThreadPage.base_apart fun hsame => hne (congrArg TaskPointer.thread hsame)

theorem area_le_word (himage : image.Linked) (i : TaskPointer image) : (area i).2 ≤ 2 ^ 64 := by
  cases i with
  | boot => exact le_of_lt (kernelEnd_lt_word himage)
  | thread p => exact p.base_le.2

theorem contextOf_inside (i : TaskPointer image) :
    (area i).1 ≤ contextOf b i ∧ contextOf b i + 8 ≤ (area i).2 := by
  cases i with
  | boot => exact ⟨Nat.zero_le _, b.task_le⟩
  | thread p =>
    change p.base ≤ p.base ∧ p.base + 8 ≤ p.base + 2 ^ 21
    omega

theorem stack_inside (i : TaskPointer image) : (area i).1 ≤ stackBottom b i ∧ stackTop b i ≤ (area i).2 := by
  cases i with
  | boot => exact ⟨Nat.zero_le _, b.top_le⟩
  | thread p =>
    change p.base ≤ p.base + 4096 + 8 ∧ p.base + 32 * 1024 ≤ p.base + 2 ^ 21
    omega

theorem stackTop_lt_word (himage : image.Linked) (i : TaskPointer image) : stackTop b i < 2 ^ 64 := by
  cases i with
  | boot => exact lt_of_le_of_lt b.top_le (kernelEnd_lt_word himage)
  | thread p =>
    have hp := p.base_le.2
    change p.base + 2 ^ 21 ≤ 2 ^ 64 at hp
    change p.base + 32 * 1024 < 2 ^ 64
    omega

/-- No stack covers the descriptor of its own task. -/
theorem contextOf_apart (i : TaskPointer image) :
    contextOf b i + 8 ≤ stackBottom b i ∨ stackTop b i ≤ contextOf b i := by
  cases i with
  | boot => exact b.apart
  | thread p =>
    change p.base + 8 ≤ p.base + 4096 + 8 ∨ p.base + 32 * 1024 ≤ p.base
    omega

/-- The boot task, and kernel threads that each have a page. -/
def kernelLayout (himage : image.Linked) : Layout (TaskPointer image) where
  boot := .boot
  context := contextOf b
  bottom := stackBottom b
  top := stackTop b
  top_lt := stackTop_lt_word b himage
  context_lt := by
    intro i
    exact le_trans (contextOf_inside b i).2 (area_le_word himage i)
  disjoint := by
    intro i j hne
    have hi := stack_inside b i
    have hj := stack_inside b j
    rcases area_apart hne with hbelow | habove
    · exact Or.inl (by omega)
    · exact Or.inr (by omega)
  distinct := by
    intro i j hne
    have hi := contextOf_inside b i
    have hj := contextOf_inside b j
    rcases area_apart hne with hbelow | habove
    · exact Or.inl (by omega)
    · exact Or.inr (by omega)
  apart := by
    intro i j
    by_cases hsame : i = j
    · rw [hsame]
      exact contextOf_apart b j
    · have hi := contextOf_inside b i
      have hj := stack_inside b j
      rcases area_apart hsame with hbelow | habove
      · exact Or.inl (by omega)
      · exact Or.inr (by omega)

end KernelLayout

def sampleLinks : Links := ⟨0xffff800000104000, 0xffff800000104100⟩

def sampleBoot : BootObjects sampleImage where
  task := 0xffff80000011a000
  bootStack := 0xffff800000110000
  bootStackTop := 0xffff800000118000
  task_le := by decide
  top_le := by decide
  apart := by decide

def samplePage : ThreadPage sampleImage where
  index := 1
  image_le := by decide
  le_top := by decide

def sampleLayout : Layout (TaskPointer sampleImage) := kernelLayout sampleBoot sampleImage_linked

def idle : Cpu where
  reg _ := 0
  rip := 0
  flags := 2
  cs := 8
  ss := 0x10
  ds := 0x10
  es := 0x10
  fs := 0x10
  gs := 0x10
  sysenterCs := 0
  sysenterEsp := 0
  sysenterEip := 0
  ram _ := 0

/-- A call with the arguments and the stack pointer. -/
def callingReg (previous next rsp : BitVec 64) : Reg → BitVec 64
  | .rdi => previous
  | .rsi => next
  | .rsp => rsp
  | .rbx => 0x1111
  | _ => 0x2222

def calling (previous next rsp : BitVec 64) (c : Cpu) : Cpu :=
  { c with reg := callingReg previous next rsp }

theorem calling_thread (c : Cpu) : Calls sampleLayout .boot (.thread samplePage)
    (calling 0xffff80000011a000 0xffff800000200000 0xffff800000117000 c) where
  rdi := rfl
  rsi := rfl
  bottom_le := by
    change 0xffff800000110000 + 56 ≤ 0xffff800000117000
    decide
  le_top := by
    change 0xffff800000117000 ≤ 0xffff800000118000
    decide

theorem calling_boot (c : Cpu) : Calls sampleLayout (.thread samplePage) .boot
    (calling 0xffff800000200000 0xffff80000011a000 0xffff800000207000 c) where
  rdi := rfl
  rsi := rfl
  bottom_le := by
    change 0xffff800000201008 + 56 ≤ 0xffff800000207000
    decide
  le_top := by
    change 0xffff800000207000 ≤ 0xffff800000208000
    decide

/-- The boot task starts a thread, which gives way to it again. -/
theorem task_switches_sample : ∃ (c t c' t' : Cpu),
    Run sampleLinks sampleLayout
      [.switch (.thread samplePage) .boot c' 0x2000 t', .work, .switch .boot (.thread samplePage) c 0x1000 t, .work,
        .create (.thread samplePage)] .boot t' ∧
    Starts sampleLinks (stackTop sampleBoot (.thread samplePage)) t ∧ Continues c 0x1000 t' := by
  obtain ⟨c₀, hc₀⟩ : ∃ c₀ : Cpu, c₀ = { idle with
    ram := createFrame sampleLinks samplePage.base (stackTop sampleBoot (.thread samplePage)) idle.ram } :=
    ⟨_, rfl⟩
  have hcreated : Run sampleLinks sampleLayout [.create (.thread samplePage)] .boot c₀ := by
    rw [hc₀]
    apply Run.create _ _ _ _ (.boot idle)
    · intro hmem
      rcases hmem with hboot | hmem
      · cases hboot
      · exact absurd hmem List.not_mem_nil
    · decide
    · decide
  have hcalling : Run sampleLinks sampleLayout [.work, .create (.thread samplePage)] .boot
      (calling 0xffff80000011a000 0xffff800000200000 0xffff800000117000 c₀) := by
    apply Run.work _ _ _ _ hcreated
    intro j _ _ x _
    rfl
  have hthere := Run.switch _ _ _ (.thread samplePage) 0x1000 hcalling
    (Or.inr (List.mem_cons_of_mem _ List.mem_cons_self)) (by decide) (calling_thread c₀)
  have hworking := Run.work _ _ _ (calling 0xffff800000200000 0xffff80000011a000 0xffff800000207000
    (taskContextSwitch ((calling 0xffff80000011a000 0xffff800000200000 0xffff800000117000 c₀).push 0x1000)))
    hthere (by
      intro j _ _ x _
      rfl)
  have hback := Run.switch _ _ _ .boot 0x2000 hworking (Or.inl rfl) (by decide) (calling_boot _)
  refine ⟨_, _, _, _, hback, ?_, ?_⟩
  · obtain ⟨-, hstarts, -⟩ := task_switches sampleLinks sampleLayout hback [_, _] _ rfl
    apply hstarts
    intro hran
    rcases hran with hboot | ⟨_, _, _, _, hmem⟩
    · cases hboot
    · rcases List.mem_cons.mp hmem with hhead | hmem
      · cases hhead
      · cases List.mem_singleton.mp hmem
  · obtain ⟨hcontinues, -⟩ := task_switches sampleLinks sampleLayout hback [] _ rfl
    obtain ⟨s₀, returnTo₀, hcall, hresumed⟩ := hcontinues (Or.inl rfl)
    cases hcall
    exact hresumed

end MikoOS.Tasks
