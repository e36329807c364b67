import MikoOS.Library.PageFaults
import MikoOS.UserIsolation
import MikoOS.ExceptionReport

/-!
# The protection experiments

The four `fault-user-*` builds let `user_demo` end in a forbidden instruction, and `exception_dispatch`
asks `verify_expected_fault` whether the processor refused it as it should. While the pages are mapped
each experiment raises its exception, and the check accepts the frame that arrives.
-/

namespace MikoOS.UserMode

open ByteMemory PageWalk Rust X86

/-- The features `fault-user-kernel`, `-write`, `-exec` and `-privileged`. -/
inductive Experiment
  | kernel
  | write
  | exec
  | privileged
  deriving DecidableEq, Repr

structure ExpectedFault where
  vector : ℕ
  error : BitVec 64
  address : BitVec 64
  label : String

def Experiment.expected : Experiment → ExpectedFault
  | .kernel => ⟨14, 5, BitVec.ofNat 64 (pageOffset + 0x100000), "kernel read denied"⟩
  | .write => ⟨14, 7, BitVec.ofNat 64 code, "code write denied"⟩
  | .exec => ⟨14, 21, BitVec.ofNat 64 stack, "stack execute denied"⟩
  | .privileged => ⟨13, 0, 0, "privileged HLT denied"⟩

/-- `verify_expected_fault` with the label of the line it prints. -/
def verifyExpectedFault (e : Experiment) (cr2 : BitVec 64) (f : InterruptFrame) : Exec Demo String := do
  require (← get).current.active "assertion failed: ptr::addr_of!(ACTIVE).read()"
  assertUserFrame f
  require (f.vector = BitVec.ofNat 64 e.expected.vector ∧ f.error = e.expected.error) equalAssertion
  if e.expected.vector = 14 then
    require (cr2 = e.expected.address) equalAssertion
  if e = .exec then
    require (f.rip = BitVec.ofNat 64 stack) equalAssertion
  else
    require (code ≤ f.rip.toNat ∧ f.rip.toNat < code + pageSize)
      "assertion failed: (CODE..CODE + PAGE as u64).contains(&frame.rip)"
  return e.expected.label

/-- An exception: its vector and error code, CR2 where it is written, and the state it is taken from. -/
structure Fault where
  vector : ℕ
  error : BitVec 64
  cr2 : Option (BitVec 64)
  state : Cpu

/-- An access at CPL 3 in the tables of a session. -/
def Session.access (x : Session) (c : Cpu) (v : ℕ) (access : Access) : Option Fault :=
  match userAccess x.ram (frame x.cr3) v access with
  | .ok _ => none
  | .error error => some ⟨14, error, some (BitVec.ofNat 64 v), c⟩

/-- The last instruction of `user_demo`; the jump itself succeeds, the fetch behind it does not. -/
def Experiment.attempt (x : Session) (c : Cpu) : Experiment → Option Fault
  | .kernel => x.access c (pageOffset + 0x100000) .read
  | .write => x.access c code .write
  | .exec => x.access { c with rip := BitVec.ofNat 64 stack } stack .fetch
  | .privileged => if c.cs &&& 3 = 0 then none else some ⟨13, 0, none, c⟩

/-- IOPL 0, and IF and DF clear; of these CPL 3 can only set DF. -/
def PlainFlags (flags : BitVec 64) : Prop := flags &&& (3#64 <<< 12 ||| 1#64 <<< 9 ||| 1#64 <<< 10) = 0

instance (flags : BitVec 64) : Decidable (PlainFlags flags) := inferInstanceAs (Decidable (_ = _))

/-- The program runs at CPL 3 in its code page, on its stack page. -/
structure InProgram (c : Cpu) : Prop where
  cs : c.cs = 0x2b
  ss : c.ss = 0x33
  rip : code ≤ c.rip.toNat ∧ c.rip.toNat < code + pageSize
  rsp : stack ≤ (c.reg .rsp).toNat ∧ (c.reg .rsp).toNat < stackTop

/-- The state an experiment faults in. -/
def Experiment.faulting (c : Cpu) (e : Experiment) : Cpu :=
  if e = .exec then { c with rip := BitVec.ofNat 64 stack } else c

variable {run : PageRun} {x : Session} {v : ℕ} {access : Access} {c : Cpu} {f : InterruptFrame}

theorem access_window {t : Translation} (h : userTranslation x v = some t) :
    userAccess x.ram (frame x.cr3) v access =
      if t.rights.admits access then .ok t.physical else .error (faultCode true access) := by
  obtain ⟨hwalk, huser⟩ := Option.filter_eq_some_iff.mp h
  exact userAccess_user hwalk huser

theorem access_outside (h : userTranslation x v = none) : userAccess x.ram (frame x.cr3) v access =
    .error (faultCode (walk x.ram (frame x.cr3) v).isSome access) := by
  apply userAccess_closed
  intro t ht
  rw [userTranslation, ht, Option.filter_eq_none_iff] at h
  exact Bool.eq_false_iff.mpr (h t rfl)

/-- What becomes of every access at CPL 3. -/
theorem Opened.userAccess_eq (h : Opened run x) (hv : Canonical v) (access : Access) :
    userAccess x.ram (frame x.cr3) v access =
      if code ≤ v ∧ v < code + pageSize then
        if access = .write then .error 7 else .ok (run.physicalAddress + (v - code))
      else if stack ≤ v ∧ v < stackTop then
        if access = .fetch then .error 21 else .ok (run.physicalAddress + pageSize + (v - stack))
      else .error (faultCode (walk x.ram (frame x.cr3) v).isSome access) := by
  have hwindow := h.window v hv
  unfold UserMode.window at hwindow
  by_cases hcode : code ≤ v ∧ v < code + pageSize
  · rw [if_pos hcode] at hwindow ⊢
    rw [access_window hwindow]
    cases access <;> rfl
  · rw [if_neg hcode] at hwindow ⊢
    by_cases hstack : stack ≤ v ∧ v < stackTop
    · rw [if_pos hstack] at hwindow ⊢
      rw [access_window hwindow]
      cases access <;> rfl
    · rw [if_neg hstack] at hwindow ⊢
      exact access_outside hwindow

/-- Every experiment faults; only for the kernel read does the error code depend on the tables. -/
theorem Opened.attempt (h : Opened run x) (hc : InProgram c) (e : Experiment) : ∃ error cr2,
    e.attempt x c = some ⟨e.expected.vector, error, cr2, e.faulting c⟩ ∧
      (e.expected.vector = 14 → cr2 = some e.expected.address) ∧
      (error = e.expected.error ↔
        (e = .kernel → (walk x.ram (frame x.cr3) (pageOffset + 0x100000)).isSome = true)) := by
  cases e with
  | kernel =>
    have haccess := h.userAccess_eq (v := pageOffset + 0x100000) (by decide) .read
    rw [if_neg (by decide), if_neg (by decide)] at haccess
    have hcode : faultCode (walk x.ram (frame x.cr3) (pageOffset + 0x100000)).isSome .read =
        faultCode true .read ↔ (walk x.ram (frame x.cr3) (pageOffset + 0x100000)).isSome = true ∧
          Access.read = .read := faultCode_inj
    refine ⟨_, some _, ?_, fun _ => rfl,
      hcode.trans ⟨fun hsome _ => hsome.1, fun hsome => ⟨hsome rfl, rfl⟩⟩⟩
    rw [Experiment.attempt, Session.access, haccess]
    rfl
  | write =>
    have haccess := h.userAccess_eq (v := code) (by decide) .write
    rw [if_pos (by decide), if_pos rfl] at haccess
    refine ⟨7, _, ?_, fun _ => rfl, iff_of_true rfl nofun⟩
    rw [Experiment.attempt, Session.access, haccess]
    rfl
  | exec =>
    have haccess := h.userAccess_eq (v := stack) (by decide) .fetch
    rw [if_neg (by decide), if_pos (by decide), if_pos rfl] at haccess
    refine ⟨21, _, ?_, fun _ => rfl, iff_of_true rfl nofun⟩
    rw [Experiment.attempt, Session.access, haccess]
    rfl
  | privileged =>
    refine ⟨0, none, ?_, fun hfault => absurd hfault (by decide), iff_of_true rfl nofun⟩
    rw [Experiment.attempt, hc.cs, if_neg (by decide)]
    rfl

theorem InProgram.faulting_reg (c : Cpu) (e : Experiment) : (e.faulting c).reg = c.reg ∧
    (e.faulting c).ram = c.ram ∧ (e.faulting c).cs = c.cs ∧ (e.faulting c).ss = c.ss ∧
      (e.faulting c).flags = c.flags := by
  unfold Experiment.faulting
  split <;> exact ⟨rfl, rfl, rfl, rfl, rfl⟩

/-- Of the three assertions only the one on the flags may fail. -/
theorem assertUserFrame_run (hc : InProgram c) {vector : ℕ} {error : BitVec 64} {s : Cpu}
    (hf : Entry.Reports f vector error s) (hcs : s.cs = c.cs) (hss : s.ss = c.ss)
    (hflags : s.flags = c.flags) (hreg : s.reg = c.reg) (r : Demo) :
    (assertUserFrame f).run r =
      if PlainFlags c.flags then .ok () r else .error (.message equalAssertion) r := by
  have hselectors : f.cs = 0x2b ∧ f.ss = 0x33 := by
    rw [hf.cs, hf.ss, hcs, hss, hc.cs, hc.ss]
    decide
  have hrflags : f.rflags = c.flags := hf.rflags.trans hflags
  have hrsp : stack ≤ f.rsp.toNat ∧ f.rsp.toNat < stackTop := by
    rw [hf.rsp, hreg]
    exact hc.rsp
  unfold assertUserFrame
  rw [run_bind_ok (run_require (decide_eq_true hselectors) _ r), hrflags]
  by_cases hplain : PlainFlags c.flags
  · have hclear : c.flags &&& (3#64 <<< 12 ||| 1#64 <<< 9 ||| 1#64 <<< 10) = 0 := hplain
    rw [if_pos hplain, run_bind_ok (run_require (decide_eq_true hclear) _ r)]
    exact run_require (decide_eq_true hrsp) _ r
  · have hset : ¬ c.flags &&& (3#64 <<< 12 ||| 1#64 <<< 9 ||| 1#64 <<< 10) = 0 := hplain
    rw [if_neg hplain, decide_eq_false hset]
    rfl

/-- The last assertion, on the instruction the frame names. -/
theorem accepts_place {e : Experiment} {error : BitVec 64} (hc : InProgram c)
    (hf : Entry.Reports f e.expected.vector error (e.faulting c)) (r : Demo) :
    (if e = .exec then do
        require (f.rip = BitVec.ofNat 64 stack) equalAssertion
        return e.expected.label
      else do
        require (code ≤ f.rip.toNat ∧ f.rip.toNat < code + pageSize)
          "assertion failed: (CODE..CODE + PAGE as u64).contains(&frame.rip)"
        return e.expected.label : Exec Demo String).run r = .ok e.expected.label r := by
  have hrip := hf.rip
  unfold Experiment.faulting at hrip
  by_cases hexec : e = .exec
  · rw [if_pos hexec] at hrip ⊢
    rw [run_bind_ok (run_require (decide_eq_true hrip) _ r)]
    rfl
  · rw [if_neg hexec] at hrip ⊢
    have hplace : code ≤ f.rip.toNat ∧ f.rip.toNat < code + pageSize := by
      rw [hrip]
      exact hc.rip
    rw [run_bind_ok (run_require (decide_eq_true hplace) _ r)]
    rfl

/-- Of a frame from the program the check only decides on the flags and the error code. -/
theorem verifyExpectedFault_run (e : Experiment) (hc : InProgram c) {cr2 error : BitVec 64} {r : Demo}
    (hactive : r.current.active = true)
    (hf : Entry.Reports f e.expected.vector error (e.faulting c))
    (hcr2 : e.expected.vector = 14 → cr2 = e.expected.address) :
    (verifyExpectedFault e cr2 f).run r =
      if PlainFlags c.flags ∧ error = e.expected.error then .ok e.expected.label r
      else .error (.message equalAssertion) r := by
  obtain ⟨hreg, -, hcs, hss, hflags⟩ := InProgram.faulting_reg c e
  have hframe := assertUserFrame_run hc hf hcs hss hflags hreg r
  unfold verifyExpectedFault
  rw [run_get_bind, run_bind_ok (run_require hactive _ r)]
  by_cases hplain : PlainFlags c.flags
  · rw [if_pos hplain] at hframe
    rw [run_bind_ok hframe]
    by_cases herror : error = e.expected.error
    · have hlabel : f.vector = BitVec.ofNat 64 e.expected.vector ∧ f.error = e.expected.error :=
        ⟨hf.vector, hf.error.trans herror⟩
      have haccepted : PlainFlags c.flags ∧ error = e.expected.error := ⟨hplain, herror⟩
      rw [if_pos haccepted, run_bind_ok (run_require (decide_eq_true hlabel) _ r)]
      by_cases hvector : e.expected.vector = 14
      · dsimp only
        rw [if_pos hvector, run_bind_ok (run_require (decide_eq_true (hcr2 hvector)) _ r)]
        exact accepts_place hc hf r
      · dsimp only
        rw [if_neg hvector]
        exact accepts_place hc hf r
    · have hlabel : ¬(f.vector = BitVec.ofNat 64 e.expected.vector ∧ f.error = e.expected.error) :=
        fun h => herror (hf.error.symm.trans h.2)
      rw [if_neg (not_and_of_not_right _ herror), decide_eq_false hlabel]
      rfl
  · rw [if_neg hplain] at hframe
    rw [if_neg (not_and_of_not_left _ hplain), EStateM.run_bind, hframe]

theorem label_expected (e : Experiment) : Entry.label e.expected.vector = e.expected.vector := by
  cases e <;> rfl

theorem reported_expected (e : Experiment) (error : BitVec 64) :
    Entry.Cause.reported (.hardware error) e.expected.vector = error := by
  cases e <;> rfl

theorem settled_expected (calls : List Trap.TableCall) (e : Experiment) :
    Entry.Settled calls e.expected.vector := by
  cases e <;> exact ⟨by decide, .inl (by decide)⟩

/-- While the mapping is installed and the demonstration active, every experiment ends in its exception,
which arrives whatever the program has done, and the check prints the label of the experiment exactly if
the flags are plain and, for the kernel read, the kernel is mapped at that place. -/
theorem protection_checked (p : Profile) (image : KernelImage) (himage : image.Linked)
    (base : BitVec 32) (k t : Kernel) (hk : k.Booted base) (ht : (init p image).run k = .ok () t)
    (ops : List Operation) (l : Ledger) (hl : (history p ops).run ⟨t.memory, []⟩ = .ok () l)
    (u : UserImage) (hu : u.Linked image) (s : Session) (hs : s.Ready u t l) (cpu : Cpuid)
    (program : UserProgram) (x : Session)
    (hx : x ∈ (final ((demonstrate p cpu u program).run ⟨s, [s]⟩)).trace)
    (hinstalled : rootEntry x ≠ 0) (hactive : x.active = true) (d : Trap.TableImage) (hd : d.Linked)
    (calls : List Trap.TableCall) (hcalls : ∀ call ∈ calls, call.Later) (c : Cpu)
    (hc : InProgram c) (htables : Entry.Tabled d calls c) (e : Experiment) (returnTo cr2 : BitVec 64)
    (trace : List Session) :
    ∃ fault entered, e.attempt x c = some fault ∧
      deliver d.loaded (.hardware fault.error) fault.vector fault.state = some entered ∧
      entered.rip = Entry.entryPoint d fault.vector ∧
      ((verifyExpectedFault e (fault.cr2.getD cr2)
          (Entry.reportedFrame returnTo fault.vector entered)).run ⟨x, trace⟩ =
          .ok e.expected.label ⟨x, trace⟩ ↔ PlainFlags c.flags ∧
        (e = .kernel → (walk x.ram (frame x.cr3) (pageOffset + 0x100000)).isSome = true)) := by
  obtain ⟨run, hopened⟩ := installed_opened himage hk ht hl hu hs hx hinstalled
  obtain ⟨error, address, hattempt, haddress, herror⟩ := hopened.attempt hc e
  obtain ⟨-, hram, -⟩ := InProgram.faulting_reg c e
  have htabled : Entry.Tabled d calls (e.faulting c) := by
    unfold Entry.Tabled
    rw [hram]
    exact htables
  have hsettled := settled_expected calls e
  obtain ⟨entered, hentered⟩ :=
    Option.isSome_iff_exists.mp (Entry.hardware_delivered hcalls htabled hsettled error)
  obtain ⟨hrip, harrived⟩ := Entry.settled_entered hd hcalls htabled hsettled returnTo
    (show Entry.Expected (.hardware error) e.expected.vector from nofun) hentered
  refine ⟨_, entered, hattempt, hentered, hrip, ?_⟩
  have hframe := harrived.frame
  rw [label_expected, reported_expected] at hframe
  have hcr2 : e.expected.vector = 14 → address.getD cr2 = e.expected.address := by
    intro hvector
    rw [haddress hvector]
    rfl
  have hchecked := verifyExpectedFault_run e hc (r := ⟨x, trace⟩) hactive hframe hcr2
  rw [← herror]
  constructor
  · intro hok
    by_contra hne
    rw [if_neg hne] at hchecked
    cases hchecked.symm.trans hok
  · intro heq
    rw [if_pos heq] at hchecked
    exact hchecked

/-- The store into the code page. -/
theorem protection_checked_sample : ∃ (x : Session) (c : Cpu) (fault : Fault) (entered : Cpu),
    Experiment.write.attempt x c = some fault ∧
      (verifyExpectedFault .write (fault.cr2.getD 0) (Entry.reportedFrame 0 fault.vector entered)).run
        ⟨x, []⟩ = .ok "code write denied" ⟨x, []⟩ := by
  obtain ⟨t, ht⟩ := sample_init_ok
  obtain ⟨x, hx, hroot, hactive⟩ := sample_installed t ht
  obtain ⟨m, hm⟩ := Trap.exists_holds Trap.sampleTables_linked
    (fun call hcall => (Trap.sampleCalls_later call hcall).allowed) fun _ => 0xff
  have hc : InProgram { Trap.userCaller m with flags := 2 } := {
    cs := rfl
    ss := rfl
    rip := show code ≤ (0x800000#64).toNat ∧ (0x800000#64).toNat < code + pageSize by decide
    rsp := show stack ≤ (0x9fff00#64).toNat ∧ (0x9fff00#64).toNat < stackTop by decide }
  obtain ⟨fault, entered, hattempt, -, -, hchecked⟩ := protection_checked .dev sampleImage
    sampleImage_linked _ sampleKernel t sampleKernel_booted ht [] ⟨t.memory, []⟩ rfl sampleUser
    sampleUser_linked (sampleSession t) (sampleSession_ready t) sampleCpuid sampleProgram x hx hroot
    hactive _ Trap.sampleTables_linked _ Trap.sampleCalls_later _ hc hm .write 0 0 []
  exact ⟨x, _, fault, entered, hattempt, hchecked.mpr ⟨(by decide : PlainFlags 2#64), nofun⟩⟩

end MikoOS.UserMode
