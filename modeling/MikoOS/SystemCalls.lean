import MikoOS.UserIsolation

/-!
# System calls

`syscall.rs`: the check of the return context, the table of 128 services and `write_text`, on the
frame that the entry code leaves on RETURN_STACK. Every value in it comes from the user program.
The colours of the text and its rendering are left out; the debug port is what the kernel sends first.
-/

namespace MikoOS.UserMode

open ByteMemory PageWalk Rust

def write : ℕ := 1
def maxWrite : ℕ := 256
def enosys : BitVec 64 := -38
def efault : BitVec 64 := -14
def einval : BitVec 64 := -22

structure Frame where
  r15 : BitVec 64
  r14 : BitVec 64
  r13 : BitVec 64
  r12 : BitVec 64
  r11 : BitVec 64
  r10 : BitVec 64
  r9 : BitVec 64
  r8 : BitVec 64
  rsi : BitVec 64
  rdi : BitVec 64
  rbp : BitVec 64
  rdx : BitVec 64
  rcx : BitVec 64
  rbx : BitVec 64
  rax : BitVec 64

def frameSize : ℕ := 120

/-- A call in progress, with the user addresses read and the bytes sent to the debug port so far. -/
structure Served where
  session : Session
  reads : List ℕ
  output : List (BitVec 8)

/-- `ptr::read_volatile` at CPL 0. -/
def readVolatile (a : ℕ) : Exec Served (BitVec 8) := do
  require (Canonical a) generalProtection
  modify fun s => { s with reads := s.reads ++ [a] }
  let s ← get
  match walk s.session.ram (frame s.session.cr3) a with
  | none => raise pageFault
  | some t => return s.session.ram t.physical

def kprint (text : List (BitVec 8)) : Exec Served Unit :=
  modify fun s => { s with output := s.output ++ text }

def utf8 (text : String) : List (BitVec 8) := text.toUTF8.toList.map UInt8.toBitVec

/-- `arch::halt` does not return. -/
def haltText : String := "kernel_halt"

def userCodeSize (p : Profile) (u : UserImage) : Exec Served ℕ := p.sub u.userEnd u.userStart

def validSyscall (p : Profile) (u : UserImage) (address : ℕ) (f : Frame) : Exec Served Bool := do
  let top ← p.add u.returnStack returnStackSize
  let s := (← get).session
  if s.active ∧ s.kernelStack = top then
    let first ← p.add u.returnStack 8
    let last ← p.sub top frameSize
    if first ≤ address ∧ address ≤ last then
      let codeEnd ← p.add code (← userCodeSize p u)
      return decide (code ≤ f.rdx.toNat ∧ f.rdx.toNat < codeEnd ∧
        stack ≤ f.rcx.toNat ∧ f.rcx.toNat < stackTop)
    else return false
  else return false

def bytesOf (bytes : List (BitVec 8)) : ByteArray := ⟨(bytes.map UInt8.ofBitVec).toArray⟩

def unimplemented (_ : Frame) : Exec Served (BitVec 64) := return enosys

def copyByte (first offset : ℕ) (copy : List (BitVec 8)) : Exec Served (List (BitVec 8)) := do
  return copy.set offset (← readVolatile (first + offset))

def writeText (f : Frame) : Exec Served (BitVec 64) := do
  let length := f.rsi.toNat
  if maxWrite < length then return einval
  else if length = 0 then return 0
  else if ¬readable f.rdi f.rsi then return efault
  else
    let copy ← forRange 0 length (List.replicate maxWrite 0) (copyByte f.rdi.toNat)
    if (bytesOf (copy.take length)).IsValidUTF8 then
      kprint (copy.take length)
      return f.rsi
    else return einval

def services : List (Frame → Exec Served (BitVec 64)) :=
  (List.replicate 128 unimplemented).set write writeText

/-- `address` is where the frame lies. -/
def systemCallDispatch (p : Profile) (u : UserImage) (address : ℕ) (f : Frame) :
    Exec Served (BitVec 64) := do
  require (!(← get).session.interruptsEnabled) interruptAssertion
  if ← validSyscall p u address f then (services[f.rax.toNat]?.getD unimplemented) f
  else
    kprint (utf8 "SYSENTER rejected invalid return context\n")
    raise haltText

/-- RDX and RCX lead back into the copied code and the user stack. -/
def ValidReturn (u : UserImage) (f : Frame) : Prop :=
  code ≤ f.rdx.toNat ∧ f.rdx.toNat < code + (u.userEnd - u.userStart) ∧
    stack ≤ f.rcx.toNat ∧ f.rcx.toNat < stackTop

instance (u : UserImage) (f : Frame) : Decidable (ValidReturn u f) := by
  unfold ValidReturn
  infer_instance

/-- What `valid_syscall` accepts. -/
def Accepts (u : UserImage) (s : Session) (address : ℕ) (f : Frame) : Prop :=
  (s.active = true ∧ s.kernelStack = u.returnStack + returnStackSize) ∧
    (u.returnStack + 8 ≤ address ∧ address ≤ u.returnStack + returnStackSize - frameSize) ∧
    ValidReturn u f

instance (u : UserImage) (s : Session) (address : ℕ) (f : Frame) : Decidable (Accepts u s address f) := by
  unfold Accepts
  infer_instance

/-- `length` bytes from `first` lie wholly in one of the two user pages. -/
def InUserPage (first length : ℕ) : Prop :=
  code ≤ first ∧ first + length ≤ code + pageSize ∨ stack ≤ first ∧ first + length ≤ stackTop

instance (first length : ℕ) : Decidable (InUserPage first length) := by
  unfold InUserPage
  infer_instance

def userByte (s : Session) (v : ℕ) : BitVec 8 := (userTranslation s v).elim 0 fun t => s.ram t.physical

def userBytes (s : Session) (first length : ℕ) : List (BitVec 8) :=
  (List.range length).map fun i => userByte s (first + i)

/-- A returned value, the user addresses read for it and the bytes sent to the debug port. -/
structure Answer where
  value : BitVec 64
  reads : List ℕ
  output : List (BitVec 8)

def answer (s : Session) (f : Frame) : Answer :=
  let first := f.rdi.toNat
  let length := f.rsi.toNat
  if f.rax ≠ 1 then ⟨-38, [], []⟩
  else if 256 < length then ⟨-22, [], []⟩
  else if length = 0 then ⟨0, [], []⟩
  else if ¬InUserPage first length then ⟨-14, [], []⟩
  else if (bytesOf (userBytes s first length)).IsValidUTF8 then
    ⟨f.rsi, List.range' first length, userBytes s first length⟩
  else ⟨-22, List.range' first length, []⟩

def Served.answered (r : Served) (a : Answer) : Served :=
  ⟨r.session, r.reads ++ a.reads, r.output ++ a.output⟩

/-- The payload fits its page, as `demonstrate` checks, and RETURN_STACK does not end the address
space. -/
structure UserImage.Payload (u : UserImage) : Prop where
  start_le : u.userStart ≤ u.userEnd
  size_le : u.userEnd ≤ u.userStart + pageSize
  returnStack : u.returnStack + returnStackSize < 2 ^ 64

/-- The user demonstration is active: its pages are mapped and system calls run on RETURN_STACK. -/
structure Active (u : UserImage) (run : PageRun) (s : Session) : Prop where
  active : s.active = true
  interrupts : s.interruptsEnabled = false
  kernelStack : s.kernelStack = u.returnStack + returnStackSize
  opened : Opened run s

/-- Where the entry code leaves its frame. -/
def UserImage.frameAddress (u : UserImage) : ℕ := u.returnStack + returnStackSize - frameSize

section Dispatch

variable {u : UserImage} {run : PageRun} {r : Served} {f : Frame}

theorem validSyscall_run (p : Profile) (hu : u.Payload) (address : ℕ) (f : Frame) (r : Served) :
    (validSyscall p u address f).run r = .ok (decide (Accepts u r.session address f)) r := by
  have hstack := hu.returnStack
  have hsize := hu.size_le
  unfold returnStackSize at hstack
  unfold pageSize at hsize
  unfold validSyscall userCodeSize
  rw [run_bind_ok (run_add p hu.returnStack r), run_get_bind]
  by_cases hactive : r.session.active = true ∧ r.session.kernelStack = u.returnStack + returnStackSize
  · rw [if_pos hactive, run_bind_ok (run_add p (by omega) r),
      run_bind_ok (run_sub p (by unfold returnStackSize frameSize; omega) r)]
    by_cases haddress : u.returnStack + 8 ≤ address ∧
        address ≤ u.returnStack + returnStackSize - frameSize
    · rw [if_pos haddress, run_bind_ok (run_sub p hu.start_le r),
        run_bind_ok (run_add p (by unfold code; omega) r), EStateM.run_pure]
      congr 1
      apply decide_eq_decide.mpr
      exact ⟨fun hvalid => ⟨hactive, haddress, hvalid⟩, fun haccepts => haccepts.2.2⟩
    · rw [if_neg haddress, decide_eq_false fun haccepts => haddress haccepts.2.1]
      rfl
  · rw [if_neg hactive, decide_eq_false fun haccepts => hactive haccepts.1]
    rfl

/-- With the demonstration active only the return context is left to check. -/
theorem Active.accepts_iff (h : Active u run r.session) :
    Accepts u r.session u.frameAddress f ↔ ValidReturn u f := by
  have haddress : u.returnStack + 8 ≤ u.frameAddress ∧
      u.frameAddress ≤ u.returnStack + returnStackSize - frameSize := by
    unfold UserImage.frameAddress returnStackSize frameSize
    omega
  exact ⟨fun haccepts => haccepts.2.2, fun hvalid => ⟨⟨h.active, h.kernelStack⟩, haddress, hvalid⟩⟩

theorem readVolatile_run (h : Active u run r.session) {a : ℕ} (ha : InUserPage a 1) :
    (readVolatile a).run r = .ok (userByte r.session a) { r with reads := r.reads ++ [a] } := by
  have hrange : code ≤ a ∧ a < code + pageSize ∨ stack ≤ a ∧ a < stackTop := by
    unfold InUserPage at ha
    omega
  obtain ⟨hcanonical, t, ht⟩ := h.opened.readable_iff.mpr hrange
  have hwalk : walk r.session.ram (frame r.session.cr3) a = some t :=
    (Option.filter_eq_some_iff.mp ht).1
  have hbyte : userByte r.session a = r.session.ram t.physical := by
    rw [userByte, ht]
    rfl
  unfold readVolatile
  rw [run_bind_ok (run_require (decide_eq_true hcanonical) _ r), run_modify_bind, run_get_bind]
  simp only [hwalk, hbyte]
  rfl

theorem userBytes_succ (s : Session) (first length : ℕ) :
    userBytes s first (length + 1) = userBytes s first length ++ [userByte s (first + length)] := by
  rw [userBytes, List.range_succ, List.map_append]
  rfl

/-- `n` bytes from `first` have been read in order, each once, into `copy`. -/
def Copied (r : Served) (first n : ℕ) (copy : List (BitVec 8)) (t : Served) : Prop :=
  t = { r with reads := r.reads ++ List.range' first n } ∧ copy.length = maxWrite ∧
    copy.take n = userBytes r.session first n

theorem copied_zero (r : Served) (first : ℕ) :
    Copied r first 0 (List.replicate maxWrite 0) r :=
  ⟨by simp, List.length_replicate .., by simp [userBytes]⟩

theorem copied_succ (h : Active u run r.session) {first i : ℕ} (hpage : InUserPage (first + i) 1)
    (hi : i < maxWrite) {copy : List (BitVec 8)} {t : Served} (hcopied : Copied r first i copy t) :
    Satisfies ((copyByte first i copy).run t) (Copied r first (i + 1)) fun _ _ => False := by
  obtain ⟨rfl, hcopy, htake⟩ := hcopied
  have hread := readVolatile_run (r := { r with reads := r.reads ++ List.range' first i }) h hpage
  unfold copyByte
  rw [run_bind_ok hread]
  apply satisfies_ok.mpr
  refine ⟨?_, by rw [List.length_set, hcopy], ?_⟩
  · rw [List.append_assoc, List.range'_1_concat]
  · rw [userBytes_succ, ← htake, List.take_add_one, List.getElem?_set_self (by omega),
      List.take_set_of_le le_rfl]
    rfl

theorem copy_run (h : Active u run r.session) {first length : ℕ} (hlength : length ≤ maxWrite)
    (hpage : InUserPage first length) :
    ∃ copy, (forRange 0 length (List.replicate maxWrite 0) (copyByte first)).run r =
        .ok copy { r with reads := r.reads ++ List.range' first length } ∧
      copy.take length = userBytes r.session first length := by
  have hloop : Satisfies ((forRange 0 length (List.replicate maxWrite 0) (copyByte first)).run r)
      (Copied r first length) fun _ _ => False := by
    apply forRange_satisfies (Copied r first) (Nat.zero_le _)
    · intro i copy t _ hi hcopied
      have hbyte : InUserPage (first + i) 1 := by
        unfold InUserPage at hpage ⊢
        omega
      exact copied_succ h hbyte (by omega) hcopied
    · exact copied_zero r first
  obtain ⟨copy, t, hrun, rfl, -, htake⟩ := hloop.exists_ok
  exact ⟨copy, hrun, htake⟩

theorem readable_iff_inUserPage {address length : BitVec 64} :
    readable address length = true ↔ InUserPage address.toNat length.toNat := by
  rw [readable_eq_true]
  constructor
  · exact fun h => h.2
  · intro h
    refine ⟨?_, h⟩
    unfold InUserPage code stack stackTop pageSize at h
    omega

theorem writeText_run (h : Active u run r.session) (hrax : f.rax = 1) :
    (writeText f).run r = .ok (answer r.session f).value (r.answered (answer r.session f)) := by
  have hquiet : ∀ v, r.answered ⟨v, [], []⟩ = r := by
    intro v
    rw [Served.answered, List.append_nil, List.append_nil]
  unfold writeText answer
  rw [if_neg (not_not.mpr hrax)]
  by_cases hmax : maxWrite < f.rsi.toNat
  · rw [if_pos hmax, if_pos (show 256 < f.rsi.toNat from hmax), hquiet]
    rfl
  rw [if_neg hmax, if_neg (show ¬256 < f.rsi.toNat from hmax)]
  by_cases hzero : f.rsi.toNat = 0
  · rw [if_pos hzero, if_pos hzero, hquiet]
    rfl
  rw [if_neg hzero, if_neg hzero]
  by_cases hpage : InUserPage f.rdi.toNat f.rsi.toNat
  · rw [if_neg (not_not.mpr (readable_iff_inUserPage.mpr hpage)), if_neg (not_not.mpr hpage)]
    obtain ⟨copy, hcopy, htake⟩ := copy_run h (not_lt.mp hmax) hpage
    rw [run_bind_ok hcopy, htake]
    by_cases hutf8 : (bytesOf (userBytes r.session f.rdi.toNat f.rsi.toNat)).IsValidUTF8
    · rw [if_pos hutf8, if_pos hutf8]
      rfl
    · rw [if_neg hutf8, if_neg hutf8]
      rw [Served.answered, List.append_nil]
      rfl
  · have hreadable : ¬readable f.rdi f.rsi = true := fun hr => hpage (readable_iff_inUserPage.mp hr)
    rw [if_pos hreadable, if_pos hpage, hquiet]
    rfl

/-- Only slot 1 of the table is implemented. -/
theorem services_get {n : ℕ} (hn : n ≠ 1) : services[n]?.getD unimplemented = unimplemented := by
  unfold services write
  rw [List.getElem?_set_ne hn.symm]
  by_cases hlt : n < 128
  · rw [List.getElem?_replicate_of_lt hlt]
    rfl
  · rw [List.getElem?_eq_none (by rw [List.length_replicate]; omega)]
    rfl

theorem services_write : services[1]?.getD unimplemented = writeText := rfl

/-- Past the check of the return context, wherever the frame lies. -/
theorem systemCallDispatch_accepted (p : Profile) (hu : u.Payload) (h : Active u run r.session)
    {address : ℕ} (haccepts : Accepts u r.session address f) :
    (systemCallDispatch p u address f).run r =
      .ok (answer r.session f).value (r.answered (answer r.session f)) := by
  have hflag : (!r.session.interruptsEnabled) = true := by
    rw [h.interrupts]
    rfl
  unfold systemCallDispatch
  rw [run_get_bind, run_bind_ok (run_require hflag _ r), run_bind_ok (validSyscall_run p hu _ f r),
    if_pos (decide_eq_true haccepts)]
  by_cases hrax : f.rax = 1
  · have hslot : f.rax.toNat = 1 := by rw [hrax]; rfl
    rw [hslot, services_write]
    exact writeText_run h hrax
  · have hslot : f.rax.toNat ≠ 1 := fun heq => hrax (BitVec.eq_of_toNat_eq heq)
    rw [services_get hslot, answer, if_pos hrax, Served.answered, List.append_nil, List.append_nil]
    rfl

theorem systemCallDispatch_rejected (p : Profile) (hu : u.Payload) (h : Active u run r.session)
    {address : ℕ} (haccepts : ¬Accepts u r.session address f) :
    (systemCallDispatch p u address f).run r = .error (.message haltText)
      { r with output := r.output ++ utf8 "SYSENTER rejected invalid return context\n" } := by
  have hflag : (!r.session.interruptsEnabled) = true := by
    rw [h.interrupts]
    rfl
  unfold systemCallDispatch
  rw [run_get_bind, run_bind_ok (run_require hflag _ r), run_bind_ok (validSyscall_run p hu _ f r),
    if_neg (by rw [decide_eq_true_eq]; exact haccepts)]
  rfl

/-- A call with a valid return context answers, any other halts without reading user memory. -/
theorem systemCallDispatch_answers (p : Profile) (u : UserImage) (hu : u.Payload) (run : PageRun)
    (r : Served) (h : Active u run r.session) (f : Frame) :
    (ValidReturn u f → (systemCallDispatch p u u.frameAddress f).run r =
        .ok (answer r.session f).value (r.answered (answer r.session f))) ∧
      (¬ValidReturn u f → ∃ t, (systemCallDispatch p u u.frameAddress f).run r =
        .error (.message haltText) t ∧ t.session = r.session ∧ t.reads = r.reads) := by
  constructor
  · intro hvalid
    exact systemCallDispatch_accepted p hu h (h.accepts_iff.mpr hvalid)
  · intro hvalid
    have haccepts : ¬Accepts u r.session u.frameAddress f := fun ha => hvalid (h.accepts_iff.mp ha)
    exact ⟨_, systemCallDispatch_rejected p hu h haccepts, rfl, rfl⟩

theorem userBytes_congr {s t : Session} {first length : ℕ} (hpage : InUserPage first length)
    (h : ∀ v, InUserPage v 1 → userByte s v = userByte t v) :
    userBytes s first length = userBytes t first length := by
  apply List.map_congr_left
  intro i hi
  apply h
  have hlt := List.mem_range.mp hi
  unfold InUserPage at hpage ⊢
  omega

/-- An answer depends on the frame and on the two user pages only. -/
theorem answer_congr {s t : Session} (h : ∀ v, InUserPage v 1 → userByte s v = userByte t v)
    (f : Frame) : answer s f = answer t f := by
  unfold answer
  dsimp only
  by_cases hpage : InUserPage f.rdi.toNat f.rsi.toNat
  · rw [userBytes_congr hpage h]
  · rw [if_pos hpage, if_pos hpage]

end Dispatch

theorem sampleUser_payload : sampleUser.Payload := by
  refine ⟨by decide, ?_, ?_⟩
  · unfold sampleUser pageSize
    decide
  · unfold sampleUser returnStackSize
    decide

def sampleTrace : List Session :=
  let s := sampleSession (final ((init .dev sampleImage).run sampleKernel))
  (final ((demonstrate .dev sampleCpuid sampleUser sampleProgram).run ⟨s, [s]⟩)).trace

/-- One of them in which the program runs on its pages. -/
theorem sample_mapped : ∃ s₀ run x, Mapped sampleUser s₀ run x ∧ Backs sampleImage run ∧
    x.active = true ∧ x.interruptsEnabled = false ∧
      x.kernelStack = sampleUser.returnStack + returnStackSize := by
  have hany : (sampleTrace.any fun x => x.active && !x.interruptsEnabled &&
      decide (x.kernelStack = sampleUser.returnStack + returnStackSize) && decide (rootEntry x ≠ 0)) =
      true := by decide +kernel
  obtain ⟨t, ht⟩ := sample_init_ok
  obtain ⟨x, hx, hstate⟩ := List.any_eq_true.mp hany
  rw [sampleTrace, ht] at hx
  simp only [Bool.and_eq_true, Bool.not_eq_true', decide_eq_true_eq] at hstate
  obtain ⟨⟨⟨hactive, hflag⟩, hstack⟩, hroot⟩ := hstate
  obtain ⟨run, hmapped, hbacks⟩ := installed_mapped sampleImage_linked sampleKernel_booted ht
    (show (history .dev []).run ⟨t.memory, []⟩ = .ok () _ from rfl) sampleUser_linked
    (sampleSession_ready t) hx hroot
  exact ⟨t.memory, run, x, hmapped, hbacks, hactive, hflag, hstack⟩

theorem sample_active : ∃ run x, Active sampleUser run x := by
  obtain ⟨s₀, run, x, hmapped, hbacks, hactive, hflag, hstack⟩ := sample_mapped
  exact ⟨run, x, hactive, hflag, hstack, hmapped.isOpened sampleImage_linked sampleUser_linked hbacks⟩

/-- `write` of three bytes at the start of the code page. -/
def sampleFrame : Frame where
  r15 := 0
  r14 := 0
  r13 := 0
  r12 := 0
  r11 := 0
  r10 := 0
  r9 := 0
  r8 := 0
  rsi := 3
  rdi := 0x800000
  rbp := 0
  rdx := 0x800010
  rcx := 0x9ffff0
  rbx := 0
  rax := 1

theorem systemCallDispatch_answers_sample : ∃ run x, Active sampleUser run x ∧
    (systemCallDispatch .dev sampleUser sampleUser.frameAddress sampleFrame).run ⟨x, [], []⟩ =
      .ok (answer x sampleFrame).value (Served.answered ⟨x, [], []⟩ (answer x sampleFrame)) := by
  obtain ⟨run, x, hx⟩ := sample_active
  have hanswers := systemCallDispatch_answers .dev sampleUser sampleUser_payload run ⟨x, [], []⟩ hx
    sampleFrame
  exact ⟨run, x, hx, hanswers.1 (by decide)⟩

end MikoOS.UserMode
