import MikoOS.SystemCalls

/-!
# The system calls of the user program

The calls `user_demo` makes and what it expects of each, in the default build and with `syscall-check`.
Whatever the program does between them, every expectation is met, and exactly the texts of the accepted
writes are printed.
-/

namespace MikoOS.UserMode

open PageWalk Rust

/-- `failures |= (request(number, first, second) != expected)`, with the bytes the program has put at
`first` before. -/
structure Check where
  number : BitVec 64
  first : BitVec 64
  second : BitVec 64
  expected : BitVec 64
  bytes : List (BitVec 8)

def writeNumber : BitVec 64 := BitVec.ofNat 64 write

/-- `b"Hello World! %s %n\n"`. -/
def helloBytes : List (BitVec 8) :=
  [0x48, 0x65, 0x6c, 0x6c, 0x6f, 0x20, 0x57, 0x6f, 0x72, 0x6c, 0x64, 0x21, 0x20, 0x25, 0x73, 0x20, 0x25,
    0x6e, 0x0a]

/-- The buffer of `MAX_WRITE` bytes. -/
def maximumBytes : List (BitVec 8) := List.replicate (maxWrite - 1) 0x20 ++ [0x0a]

theorem length_maximumBytes : maximumBytes.length = 256 := by
  rw [maximumBytes, List.length_append, List.length_replicate]
  rfl

def helloChecks (message : BitVec 64) : List Check :=
  [⟨15, 0, 0, enosys, []⟩, ⟨128, 0, 0, enosys, []⟩, ⟨writeNumber, message, 19, 19, helloBytes⟩]

/-- The calls of the `syscall-check` build. -/
def boundaryChecks (message buffer bad : BitVec 64) : List Check :=
  [⟨0, 0, 0, enosys, []⟩, ⟨127, 0, 0, enosys, []⟩, ⟨-1, 0, 0, enosys, []⟩, ⟨writeNumber, 0, 0, 0, []⟩,
    ⟨writeNumber, 0, 1, efault, []⟩,
    ⟨writeNumber, BitVec.ofNat 64 (pageOffset + 0x100000), 1, efault, []⟩,
    ⟨writeNumber, BitVec.ofNat 64 (code + pageSize), 1, efault, []⟩,
    ⟨writeNumber, BitVec.ofNat 64 (stack - 1), 2, efault, []⟩,
    ⟨writeNumber, BitVec.ofNat 64 (stackTop - 1), 2, efault, []⟩, ⟨writeNumber, -1, 2, efault, []⟩,
    ⟨writeNumber, message, 257, einval, []⟩, ⟨writeNumber, 0, -1, einval, []⟩,
    ⟨writeNumber, buffer, 256, 256, maximumBytes⟩, ⟨writeNumber, bad, 1, einval, [0xff]⟩]

def userChecks (syscallCheck : Bool) (message buffer bad : BitVec 64) : List Check :=
  helloChecks message ++ if syscallCheck then boundaryChecks message buffer bad else []

/-- A call as it arrives: the session the program has come to, and its other registers. -/
structure Call where
  session : Session
  caller : Frame
  check : Check

def Call.frame (call : Call) : Frame :=
  { call.caller with
    rax := call.check.number
    rdi := call.check.first
    rsi := call.check.second }

/-- `request`, seen from the kernel. -/
def performCall (p : Profile) (u : UserImage) (call : Call) : Exec Served (BitVec 64) := do
  modify fun s => { s with session := call.session }
  systemCallDispatch p u u.frameAddress call.frame

def failures (p : Profile) (u : UserImage) : List Call → BitVec 64 → Exec Served (BitVec 64)
  | [], failed => return failed
  | call :: calls, failed => do
    let result ← performCall p u call
    failures p u calls (failed ||| if result ≠ call.check.expected then 1 else 0)

/-- The program runs on its two pages and has placed the bytes of the check. -/
structure Call.Placed (u : UserImage) (run : PageRun) (call : Call) : Prop where
  active : Active u run call.session
  context : ValidReturn u call.frame
  inside : call.check.bytes ≠ [] → InUserPage call.check.first.toNat call.check.bytes.length
  bytes : userBytes call.session call.check.first.toNat call.check.bytes.length = call.check.bytes

/-- The answer is the one expected, and `text` is printed. -/
structure Call.Met (call : Call) (text : List (BitVec 8)) : Prop where
  value : (answer call.session call.frame).value = call.check.expected
  output : (answer call.session call.frame).output = text

theorem Call.met_of_answer {call : Call} {value : BitVec 64} {reads : List ℕ} {text : List (BitVec 8)}
    (h : answer call.session call.frame = ⟨value, reads, text⟩) (hvalue : value = call.check.expected) :
    call.Met text := ⟨by rw [h]; exact hvalue, by rw [h]⟩

/-- Every call with this check is answered as expected. -/
def Check.Passes (u : UserImage) (run : PageRun) (check : Check) (text : List (BitVec 8)) : Prop :=
  ∀ call : Call, call.check = check → call.Placed u run → call.Met text

section Runs

variable {u : UserImage} {run : PageRun} {p : Profile} {call : Call} {calls : List Call} {r : Served}
  {text : List (BitVec 8)} {failed : BitVec 64}

theorem performCall_run (hu : u.Payload) (h : call.Placed u run) : (performCall p u call).run r =
    .ok (answer call.session call.frame).value
      (Served.answered { r with session := call.session } (answer call.session call.frame)) := by
  unfold performCall
  rw [run_modify_bind]
  exact systemCallDispatch_accepted p hu (r := { r with session := call.session }) h.active
    (h.active.accepts_iff.mpr h.context)

/-- A call that is answered as expected leaves `failures` as it is. -/
theorem failures_cons (hu : u.Payload) (h : call.Placed u run) (hmet : call.Met text) :
    ∃ t : Served, t.output = r.output ++ text ∧
      (failures p u (call :: calls) failed).run r = (failures p u calls failed).run t := by
  refine ⟨Served.answered { r with session := call.session } (answer call.session call.frame), ?_, ?_⟩
  · rw [Served.answered, hmet.output]
  · rw [failures, run_bind_ok (performCall_run hu h), hmet.value, if_neg (not_not_intro rfl),
      show failed ||| (0 : BitVec 64) = failed from BitVec.or_zero]

theorem failures_run (hu : u.Payload) {texts : List (List (BitVec 8))}
    (hcalls : ∀ call ∈ calls, call.Placed u run)
    (hpass : List.Forall₂ (Check.Passes u run) (calls.map Call.check) texts) :
    ∃ t : Served, (failures p u calls failed).run r = .ok failed t ∧
      t.output = r.output ++ texts.flatten := by
  induction calls generalizing r texts with
  | nil =>
    cases hpass
    exact ⟨r, rfl, (List.append_nil _).symm⟩
  | cons call calls ih =>
    obtain ⟨hplaced, hothers⟩ := List.forall_mem_cons.mp hcalls
    cases hpass with
    | cons hfirst hrest =>
      obtain ⟨s, hs, hstep⟩ : ∃ t : Served, t.output = r.output ++ _ ∧
          (failures p u (call :: calls) failed).run r = (failures p u calls failed).run t :=
        failures_cons hu hplaced (hfirst call rfl hplaced)
      obtain ⟨t, ht, houtput⟩ := ih (r := s) hothers hrest
      refine ⟨t, hstep.trans ht, ?_⟩
      rw [houtput, hs, List.append_assoc, List.flatten_cons]

end Runs

section Checks

variable {u : UserImage} {run : PageRun} {number first second : BitVec 64} {bytes : List (BitVec 8)}

theorem passes_unknown (hnumber : number ≠ 1) : Check.Passes u run ⟨number, first, second, enosys, []⟩ [] := by
  rintro ⟨x, caller, _⟩ rfl -
  refine Call.met_of_answer (?_ : answer _ _ = ⟨-38, [], []⟩) rfl
  unfold Call.frame answer
  dsimp only
  rw [if_pos hnumber]

theorem passes_long (hlong : 256 < second.toNat) :
    Check.Passes u run ⟨writeNumber, first, second, einval, []⟩ [] := by
  rintro ⟨x, caller, _⟩ rfl -
  refine Call.met_of_answer (?_ : answer _ _ = ⟨-22, [], []⟩) rfl
  unfold Call.frame answer
  dsimp only
  rw [if_neg (show ¬writeNumber ≠ 1 by decide), if_pos hlong]

theorem passes_empty : Check.Passes u run ⟨writeNumber, first, 0, 0, []⟩ [] := by
  rintro ⟨x, caller, _⟩ rfl -
  exact ⟨rfl, rfl⟩

theorem passes_fault (hpos : second.toNat ≠ 0) (hle : ¬256 < second.toNat)
    (houtside : ¬InUserPage first.toNat second.toNat) :
    Check.Passes u run ⟨writeNumber, first, second, efault, []⟩ [] := by
  rintro ⟨x, caller, _⟩ rfl -
  refine Call.met_of_answer (?_ : answer _ _ = ⟨-14, [], []⟩) rfl
  unfold Call.frame answer
  dsimp only
  rw [if_neg (show ¬writeNumber ≠ 1 by decide), if_neg hle, if_neg hpos, if_pos houtside]

/-- A text on the user pages is printed as it is. -/
theorem passes_text (hpos : second.toNat ≠ 0) (hle : ¬256 < second.toNat)
    (hlength : bytes.length = second.toNat) (hvalid : (bytesOf bytes).IsValidUTF8) :
    Check.Passes u run ⟨writeNumber, first, second, second, bytes⟩ bytes := by
  rintro ⟨x, caller, _⟩ rfl hplaced
  have hinside := hplaced.inside (by rintro rfl; exact hpos hlength.symm)
  have hbytes := hplaced.bytes
  dsimp only at hinside hbytes
  rw [hlength] at hinside hbytes
  refine Call.met_of_answer (?_ : answer _ _ = ⟨second, List.range' first.toNat second.toNat, bytes⟩) rfl
  unfold Call.frame answer
  dsimp only
  rw [if_neg (show ¬writeNumber ≠ 1 by decide), if_neg hle, if_neg hpos,
    if_neg (not_not_intro hinside), hbytes, if_pos hvalid]

/-- Anything else there is refused. -/
theorem passes_garbage (hpos : second.toNat ≠ 0) (hle : ¬256 < second.toNat)
    (hlength : bytes.length = second.toNat) (hvalid : ¬(bytesOf bytes).IsValidUTF8) :
    Check.Passes u run ⟨writeNumber, first, second, einval, bytes⟩ [] := by
  rintro ⟨x, caller, _⟩ rfl hplaced
  have hinside := hplaced.inside (by rintro rfl; exact hpos hlength.symm)
  have hbytes := hplaced.bytes
  dsimp only at hinside hbytes
  rw [hlength] at hinside hbytes
  refine Call.met_of_answer (?_ : answer _ _ = ⟨-22, List.range' first.toNat second.toNat, []⟩) rfl
  unfold Call.frame answer
  dsimp only
  rw [if_neg (show ¬writeNumber ≠ 1 by decide), if_neg hle, if_neg hpos,
    if_neg (not_not_intro hinside), hbytes, if_neg hvalid]

variable (message buffer bad : BitVec 64)

theorem helloChecks_pass : List.Forall₂ (Check.Passes u run) (helloChecks message) [[], [], helloBytes] := by
  have hhello : Check.Passes u run ⟨writeNumber, message, 19, 19, helloBytes⟩ helloBytes :=
    passes_text (by decide) (by decide) (by decide) (by decide +kernel)
  exact .cons (passes_unknown (by decide)) (.cons (passes_unknown (by decide)) (.cons hhello .nil))

theorem boundaryChecks_pass : List.Forall₂ (Check.Passes u run) (boundaryChecks message buffer bad)
    (List.replicate 12 [] ++ [maximumBytes, []]) := by
  have hlength : maximumBytes.length = (256 : BitVec 64).toNat := length_maximumBytes
  have hmaximum : Check.Passes u run ⟨writeNumber, buffer, 256, 256, maximumBytes⟩ maximumBytes :=
    passes_text (by decide) (by decide) hlength (by decide +kernel)
  have hbad : Check.Passes u run ⟨writeNumber, bad, 1, einval, [0xff]⟩ [] :=
    passes_garbage (by decide) (by decide) (by decide) (by decide +kernel)
  refine .cons (passes_unknown (by decide)) (.cons (passes_unknown (by decide))
    (.cons (passes_unknown (by decide)) (.cons passes_empty ?_)))
  refine .cons (passes_fault (by decide) (by decide) (by decide)) (.cons (passes_fault (by decide) (by decide)
    (by decide)) (.cons (passes_fault (by decide) (by decide) (by decide)) ?_))
  refine .cons (passes_fault (by decide) (by decide) (by decide)) (.cons (passes_fault (by decide) (by decide)
    (by decide)) (.cons (passes_fault (by decide) (by decide) (by decide)) ?_))
  exact .cons (passes_long (by decide)) (.cons (passes_long (by decide)) (.cons hmaximum (.cons hbad .nil)))

end Checks

theorem userChecks_pass {u : UserImage} {run : PageRun} (syscallCheck : Bool)
    (message buffer bad : BitVec 64) :
    List.Forall₂ (Check.Passes u run) (userChecks syscallCheck message buffer bad)
      ([[], [], helloBytes] ++ if syscallCheck then List.replicate 12 [] ++ [maximumBytes, []] else []) := by
  unfold userChecks
  refine List.rel_append (helloChecks_pass message) ?_
  cases syscallCheck with
  | false => exact .nil
  | true => exact boundaryChecks_pass message buffer bad

/-- Wherever the user program has its texts and whatever it does between the calls, none of its checks
fails, and what is printed is its message, followed by the buffer in the `syscall-check` build. -/
theorem user_checks (p : Profile) (u : UserImage) (hu : u.Payload) (run : PageRun) (syscallCheck : Bool)
    (message buffer bad : BitVec 64) (calls : List Call)
    (hchecks : calls.map Call.check = userChecks syscallCheck message buffer bad)
    (hplaced : ∀ call ∈ calls, call.Placed u run) (r : Served) :
    ∃ t : Served, (failures p u calls 0).run r = .ok 0 t ∧
      t.output = r.output ++ (helloBytes ++ if syscallCheck then maximumBytes else []) := by
  have hpass : List.Forall₂ (Check.Passes u run) _ _ := userChecks_pass syscallCheck message buffer bad
  rw [← hchecks] at hpass
  obtain ⟨t, ht, houtput⟩ : ∃ t : Served, (failures p u calls 0).run r = .ok 0 t ∧
      t.output = r.output ++ _ := failures_run hu hplaced hpass
  refine ⟨t, ht, houtput.trans (congrArg (r.output ++ ·) ?_)⟩
  cases syscallCheck <;>
    simp only [if_true, if_false, Bool.false_eq_true, List.flatten_append, List.flatten_cons,
      List.flatten_nil, List.flatten_replicate_nil, List.nil_append, List.append_nil]

/-- A text in the second small page. -/
theorem userBytes_eq {run : PageRun} {x : Session} (hx : Opened run x) (first : ℕ) (bytes : List (BitVec 8))
    (hinside : stack ≤ first ∧ first + bytes.length ≤ stackTop)
    (hram : ∀ i < bytes.length, x.ram (run.physicalAddress + pageSize + (first - stack) + i) = bytes.getD i 0) :
    userBytes x first bytes.length = bytes := by
  apply List.ext_getElem
  · rw [userBytes, List.length_map, List.length_range]
  · intro i _ hi
    have hcanonical : Canonical (first + i) := by
      unfold stackTop at hinside
      left
      omega
    have hcode : ¬(code ≤ first + i ∧ first + i < code + pageSize) := by
      unfold stack at hinside
      unfold code pageSize
      omega
    have hstack : stack ≤ first + i ∧ first + i < stackTop := by omega
    have hplace : run.physicalAddress + pageSize + (first + i - stack) =
        run.physicalAddress + pageSize + (first - stack) + i := by omega
    have hbyte : bytes.getD i 0 = bytes[i] := by
      rw [List.getD_eq_getElem?_getD, List.getElem?_eq_getElem hi, Option.getD_some]
    have hwindow := hx.window (first + i) hcanonical
    unfold UserMode.window at hwindow
    rw [if_neg hcode, if_pos hstack] at hwindow
    simp only [userBytes, List.getElem_map, List.getElem_range, userByte, hwindow, Option.elim_some]
    rw [hplace, hram i hi, hbyte]

/-- The three texts of the checks in the second small page. -/
def typedRam (physical : ℕ) (m : ByteMemory.Memory) : ByteMemory.Memory :=
  ByteMemory.write (ByteMemory.write (ByteMemory.write m (physical + 0x1f00) helloBytes) (physical + 0x1d00)
    maximumBytes) (physical + 0x1c00) [0xff]

section Typed

variable {physical i : ℕ} {m : ByteMemory.Memory}

theorem typedRam_outside {a : ℕ} (ha : a < physical) : typedRam physical m a = m a := by
  rw [typedRam, ByteMemory.write_outside (by omega), ByteMemory.write_outside (by omega),
    ByteMemory.write_outside (by omega)]

theorem typedRam_hello (hi : i < 19) : typedRam physical m (physical + 0x1f00 + i) = helloBytes.getD i 0 := by
  have hhello : helloBytes.length = 19 := rfl
  have hmaximum := length_maximumBytes
  have hbad : ([0xff] : List (BitVec 8)).length = 1 := rfl
  rw [typedRam, ByteMemory.write_outside (by omega), ByteMemory.write_outside (by omega),
    ByteMemory.write_inside (by omega), Nat.add_sub_cancel_left]

theorem typedRam_maximum (hi : i < 256) :
    typedRam physical m (physical + 0x1d00 + i) = maximumBytes.getD i 0 := by
  have hmaximum := length_maximumBytes
  have hbad : ([0xff] : List (BitVec 8)).length = 1 := rfl
  rw [typedRam, ByteMemory.write_outside (by omega), ByteMemory.write_inside (by omega),
    Nat.add_sub_cancel_left]

theorem typedRam_bad : typedRam physical m (physical + 0x1c00) = 0xff := by
  rw [typedRam, ByteMemory.write_inside ⟨le_rfl, Nat.lt_succ_self _⟩, Nat.sub_self]
  rfl

end Typed

theorem typed_bytes {run : PageRun} {x : Session} (hx : Opened run (x.onRam (typedRam run.physicalAddress))) :
    userBytes (x.onRam (typedRam run.physicalAddress)) 0x9fff00 19 = helloBytes ∧
      userBytes (x.onRam (typedRam run.physicalAddress)) 0x9ffd00 256 = maximumBytes ∧
      userBytes (x.onRam (typedRam run.physicalAddress)) 0x9ffc00 1 = [0xff] := by
  have hmaximum := length_maximumBytes
  have hoffset : pageSize + (0x9fff00 - stack) = 0x1f00 ∧ pageSize + (0x9ffd00 - stack) = 0x1d00 ∧
      pageSize + (0x9ffc00 - stack) = 0x1c00 := by decide
  refine ⟨?_, ?_, ?_⟩
  · apply userBytes_eq hx 0x9fff00 helloBytes (by decide)
    intro i hi
    rw [Nat.add_assoc run.physicalAddress pageSize, hoffset.1]
    exact typedRam_hello hi
  · rw [← hmaximum]
    apply userBytes_eq hx 0x9ffd00 maximumBytes (by rw [hmaximum]; decide)
    intro i hi
    rw [hmaximum] at hi
    rw [Nat.add_assoc run.physicalAddress pageSize, hoffset.2.1]
    exact typedRam_maximum hi
  · apply userBytes_eq hx 0x9ffc00 [0xff] (by decide)
    intro i hi
    obtain rfl : i = 0 := Nat.lt_one_iff.mp hi
    rw [Nat.add_assoc run.physicalAddress pageSize, hoffset.2.2, Nat.add_zero,
      Session.onRam_ram, typedRam_bad]
    rfl

def sampleCalls (syscallCheck : Bool) (x : Session) : List Call :=
  (userChecks syscallCheck 0x9fff00 0x9ffd00 0x9ffc00).map fun check => ⟨x, sampleFrame, check⟩

theorem sampleCalls_placed {run : PageRun} {x : Session} (hx : Active sampleUser run x)
    (hhello : userBytes x 0x9fff00 19 = helloBytes) (hmaximum : userBytes x 0x9ffd00 256 = maximumBytes)
    (hbad : userBytes x 0x9ffc00 1 = [0xff]) (syscallCheck : Bool) :
    ∀ call ∈ sampleCalls syscallCheck x, call.Placed sampleUser run := by
  have hcontext : ∀ check, ValidReturn sampleUser (Call.frame ⟨x, sampleFrame, check⟩) :=
    fun _ => show ValidReturn sampleUser sampleFrame by decide
  have hsilent : ∀ number first second expected,
      Call.Placed sampleUser run ⟨x, sampleFrame, number, first, second, expected, []⟩ :=
    fun _ _ _ _ => ⟨hx, hcontext _, fun h => absurd rfl h, rfl⟩
  have hlength := length_maximumBytes
  have hinside : InUserPage 0x9fff00 19 ∧ InUserPage 0x9ffd00 256 ∧ InUserPage 0x9ffc00 1 := by decide
  obtain ⟨hmessageInside, hbufferInside, hbadInside⟩ := hinside
  have hfirst : ∀ call ∈ (helloChecks 0x9fff00).map fun check => (⟨x, sampleFrame, check⟩ : Call),
      call.Placed sampleUser run := by
    unfold helloChecks
    simp only [List.map_cons, List.map_nil, List.forall_mem_cons]
    exact ⟨hsilent _ _ _ _, hsilent _ _ _ _, ⟨hx, hcontext _, fun _ => hmessageInside, hhello⟩,
      List.forall_mem_nil _⟩
  unfold sampleCalls userChecks
  rw [List.map_append, List.forall_mem_append]
  refine ⟨hfirst, ?_⟩
  cases syscallCheck with
  | false => exact List.forall_mem_nil _
  | true =>
    have hbuffer : Call.Placed sampleUser run ⟨x, sampleFrame, writeNumber, 0x9ffd00, 256, 256, maximumBytes⟩ :=
      ⟨hx, hcontext _, fun _ => by rw [hlength]; exact hbufferInside, by rw [hlength]; exact hmaximum⟩
    simp only [if_true, boundaryChecks, List.map_cons, List.map_nil, List.forall_mem_cons]
    exact ⟨hsilent _ _ _ _, hsilent _ _ _ _, hsilent _ _ _ _, hsilent _ _ _ _, hsilent _ _ _ _,
      hsilent _ _ _ _, hsilent _ _ _ _, hsilent _ _ _ _, hsilent _ _ _ _, hsilent _ _ _ _,
      hsilent _ _ _ _, hsilent _ _ _ _, hbuffer, ⟨hx, hcontext _, fun _ => hbadInside, hbad⟩,
      List.forall_mem_nil _⟩

theorem sampleCalls_check (syscallCheck : Bool) (x : Session) :
    (sampleCalls syscallCheck x).map Call.check = userChecks syscallCheck 0x9fff00 0x9ffd00 0x9ffc00 := by
  unfold sampleCalls
  rw [List.map_map]
  exact List.map_id _

/-- A running program whose page holds the three texts of `sampleCalls`. -/
theorem exists_typed : ∃ run x, Active sampleUser run x ∧ userBytes x 0x9fff00 19 = helloBytes ∧
    userBytes x 0x9ffd00 256 = maximumBytes ∧ userBytes x 0x9ffc00 1 = [0xff] := by
  obtain ⟨s₀, run, x, hmapped, hbacks, hactive, hflag, hstack⟩ := sample_mapped
  have htyped : Mapped sampleUser s₀ run (x.onRam (typedRam run.physicalAddress)) :=
    hmapped.onRam fun k a _ hlt =>
      typedRam_outside (hbacks.outside sampleImage_linked sampleUser_linked k hlt)
  have hopened := htyped.isOpened sampleImage_linked sampleUser_linked hbacks
  have hrunning : ∀ f, Opened run (x.onRam f) → Active sampleUser run (x.onRam f) :=
    fun _ hf => ⟨hactive, hflag, hstack, hf⟩
  exact ⟨run, x.onRam (typedRam run.physicalAddress), hrunning _ hopened, typed_bytes hopened⟩

/-- The calls of both builds. -/
theorem user_checks_sample : ∃ x, ∀ syscallCheck, ∃ t,
    (failures .dev sampleUser (sampleCalls syscallCheck x) 0).run ⟨x, [], []⟩ = .ok 0 t ∧
      t.output = [] ++ (helloBytes ++ if syscallCheck then maximumBytes else []) := by
  obtain ⟨run, x, hrunning, hhello, hmaximum, hbad⟩ := exists_typed
  refine ⟨x, fun syscallCheck => ?_⟩
  have hplaced := sampleCalls_placed hrunning hhello hmaximum hbad syscallCheck
  exact user_checks .dev sampleUser sampleUser_payload run syscallCheck 0x9fff00 0x9ffd00 0x9ffc00
    (sampleCalls syscallCheck x) (sampleCalls_check syscallCheck x) hplaced ⟨x, [], []⟩

end MikoOS.UserMode
