import MikoOS.TaskStates
import MikoOS.AllocatorCheck

/-!
# The thread demonstration

`task::demonstrate` with the code of the `init` thread, in the order in which the stack switches let the
processor execute it: the boot task creates the thread, the thread yields once, is resumed, exits, and the
boot task gives its page back.
-/

namespace MikoOS.Tasks

open Rust X86

variable {image : KernelImage}

/-- `STACK_CANARY`. -/
def stackCanary : BitVec 64 := 0x4d494b4f5354414b

/-- `init` up to its `switch_to`. -/
def initYields (argument rsp : ℕ) : Exec (Statics image) Unit := do
  assertCurrentStack rsp
  let d ← readTask (← currentTask)
  require (d.pid = 1) equalAssertion
  require (argument = 10) equalAssertion
  setProgress 1

/-- The assertions on the thread after it gave the processor back. -/
def assertThread (task : TaskPointer image) (state : State) (progress : ℕ) (exitCode : Option ℕ) :
    Exec (Statics image) Unit := do
  let d ← readTask task
  require (d.state = state) equalAssertion
  require (d.progress = progress) equalAssertion
  require (d.exitCode = exitCode) equalAssertion

/-- The thread's page is freed, allocated again and freed. -/
def reclaimPage (p : Profile) (backing : PageRun) : Exec Ledger Unit := do
  freePages p backing
  let recycled ← granted (← allocatePages p .mapped 1) unwrapError
  require (recycled.physicalAddress = backing.physicalAddress) equalAssertion
  freePages p recycled

/-- Of the processor only IF is read here, the same in both tasks. `entry` is the address of `init`, `rsp`
the stack pointer in each check of the current stack, counted for each task, and `guard` the word below the
thread's stack when it has exited. -/
def demonstrate (p : Profile) (b : BootObjects image) (c : Cpu) (entry : ℕ)
    (rsp : TaskPointer image → ℕ → ℕ) (guard : BitVec 64) : Exec (Statics image) Unit := do
  enterBootTask b c (rsp .boot 0)
  let child ← createKernelThread p entry 10
  let bootTask ← switchOut c child.task
  let (task, _, argument) ← trampolineEntry c (rsp child.task 0)
  initYields argument (rsp child.task 1)
  let initTask ← switchOut c .boot
  switchBack bootTask (rsp .boot 1)
  assertThread child.task .ready 1 none
  let bootTask ← switchOut c child.task
  switchBack initTask (rsp child.task 2)
  setProgress 2
  trampolineExit task 1
  let _ ← switchOut c .boot
  switchBack bootTask (rsp .boot 2)
  assertThread child.task .zombie 2 (some 1)
  require (guard = stackCanary) "kernel thread stack overflow"
  require ((← get).current = some .boot) equalAssertion
  assertCurrentStack (rsp .boot 3)
  onLedger (reclaimPage p child.backing)

/-- The statics with the boot task and one thread, of which `executing` has the stack of the TSS. -/
def paired (b : BootObjects image) (page : ThreadPage image) (cr3 entry : ℕ) (ledger : Ledger)
    (executing : TaskPointer image) (boot child : State) (progress : ℕ) (exitCode : Option ℕ) :
    Statics image where
  tasks := Function.update (Function.update (fun _ => none) .boot
    (some { bootDescriptor b cr3 with state := boot })) (.thread page) (some {
      pid := 1
      state := child
      stackBottom := page.base + descriptorArea + 8
      stackTop := page.base + taskRegionSize
      pageTable := cr3
      entry := some entry
      argument := 10
      progress := progress
      exitCode := exitCode })
  current := some executing
  nextPid := 2
  kernelStack := stackTop b executing
  cr3 := cr3
  ledger := ledger

section Runs

variable {s : Statics image} {c : Cpu} {q next previous : TaskPointer image} {d n : Task} {top : ℕ}

theorem setKernelStack_run (hc : interruptsEnabled c = false) (haligned : top % 16 = 0) :
    (setKernelStack c top).run s = .ok () { s with kernelStack := top } := by
  unfold setKernelStack
  rw [run_bind_ok (run_require (by rw [hc]; rfl) _ _),
    run_bind_ok (run_require (decide_eq_true haligned) _ _)]
  rfl

theorem setProgress_run (progress : ℕ) (hcurrent : s.current = some q) (hd : s.tasks q = some d) :
    (setProgress progress).run s = .ok () (s.put q { d with progress := progress }) := by
  unfold setProgress
  rw [run_bind_ok (currentTask_run hcurrent)]
  exact updateTask_run _ hd

theorem trampolineExit_run (code : ℕ) (hd : s.tasks q = some d) : (trampolineExit q code).run s =
    .ok () (s.put q { d with exitCode := some code, state := .zombie }) := by
  unfold trampolineExit
  rw [run_bind_ok (updateTask_run _ hd), updateTask_run _ (put_self _ _ _)]
  unfold Statics.put
  rw [Function.update_idem]

/-- A switch that every assertion lets through. -/
theorem switchOut_ok (hc : interruptsEnabled c = false) (hcurrent : s.current = some previous)
    (hne : previous ≠ next) (hn : s.tasks next = some n) (hready : n.state = .ready)
    (hd : s.tasks previous = some d) (hpage : d.pageTable = n.pageTable) (hstate : d.state ≠ .ready)
    (haligned : n.stackTop % 16 = 0) : (switchOut c next).run s = .ok previous
      { (s.put previous { d with state := if d.state = .running then .ready else d.state }).put next
          { n with state := .running } with
        kernelStack := n.stackTop
        current := some next } := by
  have hfilter : s.current.filter (· ≠ next) = some previous := by
    rw [hcurrent, Option.filter_some, if_pos (decide_eq_true hne)]
  have hgive : (giveUp previous).run s = .ok ()
      (s.put previous { d with state := if d.state = .running then .ready else d.state }) := by
    unfold giveUp
    rw [run_bind_ok (readTask_run hd)]
    by_cases hrunning : d.state = .running
    · rw [if_pos hrunning, updateTask_run _ hd, if_pos hrunning]
    · have hzombie : d.state = .zombie := by
        cases hvalue : d.state with
        | ready => exact absurd hvalue hstate
        | running => exact absurd hvalue hrunning
        | zombie => rfl
      have hsame : s.put previous d = s := by
        unfold Statics.put
        rw [← hd, Function.update_eq_self]
      rw [if_neg hrunning, if_neg hrunning, run_require (decide_eq_true hzombie)]
      exact congrArg _ hsame.symm
  have hn' : (s.put previous { d with
      state := if d.state = .running then .ready else d.state }).tasks next = some n := by
    rw [put_of_ne (Ne.symm hne), hn]
  unfold switchOut
  rw [run_bind_ok (run_require (by rw [hc]; rfl) _ _), run_get_bind, run_bind_ok (run_expect hfilter _ _),
    run_bind_ok (readTask_run hn), run_bind_ok (run_require (decide_eq_true hready) _ _),
    run_bind_ok (readTask_run hd), run_bind_ok (run_require (decide_eq_true hpage) _ _), run_bind_ok hgive,
    run_bind_ok (updateTask_run _ hn'), run_bind_ok (setKernelStack_run hc haligned)]
  rfl

end Runs

section Paired

variable {b : BootObjects image} {page : ThreadPage image} {cr3 entry : ℕ} {ledger : Ledger} {c : Cpu}
  {executing : TaskPointer image} {boot child : State} {progress : ℕ} {exitCode : Option ℕ}

theorem paired_boot : (paired b page cr3 entry ledger executing boot child progress exitCode).tasks .boot =
    some { bootDescriptor b cr3 with state := boot } := by
  unfold paired
  dsimp only
  rw [Function.update_of_ne (show TaskPointer.boot ≠ .thread page from nofun), Function.update_self]

theorem paired_thread : (paired b page cr3 entry ledger executing boot child progress exitCode).tasks
    (.thread page) = some ⟨1, child, page.base + descriptorArea + 8, page.base + taskRegionSize, cr3,
      some entry, 10, progress, exitCode⟩ := by
  unfold paired
  dsimp only
  rw [Function.update_self]

theorem paired_put_boot (state : State) :
    (paired b page cr3 entry ledger executing boot child progress exitCode).put .boot
        { bootDescriptor b cr3 with state := state } =
      paired b page cr3 entry ledger executing state child progress exitCode := by
  unfold Statics.put paired
  dsimp only
  rw [Function.update_comm (show TaskPointer.thread page ≠ .boot from nofun), Function.update_idem]

theorem paired_put_thread (state : State) (progress' : ℕ) (exitCode' : Option ℕ) :
    (paired b page cr3 entry ledger executing boot child progress exitCode).put (.thread page)
        ⟨1, state, page.base + descriptorArea + 8, page.base + taskRegionSize, cr3, some entry, 10,
          progress', exitCode'⟩ =
      paired b page cr3 entry ledger executing boot state progress' exitCode' := by
  unfold Statics.put paired
  dsimp only
  rw [Function.update_idem]

theorem page_aligned (page : ThreadPage image) : (page.base + taskRegionSize) % 16 = 0 := by
  unfold ThreadPage.base pageOffset page2MSize taskRegionSize
  omega

/-- The boot task lets the thread run. -/
theorem paired_switch (hc : interruptsEnabled c = false) :
    (switchOut c (.thread page)).run
        (paired b page cr3 entry ledger .boot .running .ready progress exitCode) =
      .ok .boot (paired b page cr3 entry ledger (.thread page) .ready .running progress exitCode) := by
  rw [switchOut_ok (s := paired b page cr3 entry ledger .boot .running .ready progress exitCode) hc rfl
    (show TaskPointer.boot ≠ .thread page from nofun) paired_thread rfl paired_boot rfl
    (show State.running ≠ .ready from nofun) (page_aligned page)]
  dsimp only
  rw [if_pos rfl, paired_put_boot, paired_put_thread]
  rfl

/-- The thread lets the boot task run; a zombie stays one. -/
theorem paired_return (hc : interruptsEnabled c = false) (hb : b.bootStackTop % 16 = 0)
    (hchild : child ≠ .ready) :
    (switchOut c .boot).run (paired b page cr3 entry ledger (.thread page) .ready child progress exitCode) =
      .ok (.thread page) (paired b page cr3 entry ledger .boot .running
        (if child = .running then .ready else child) progress exitCode) := by
  rw [switchOut_ok (s := paired b page cr3 entry ledger (.thread page) .ready child progress exitCode) hc
    rfl (show TaskPointer.thread page ≠ .boot from nofun) paired_boot rfl paired_thread rfl hchild hb]
  dsimp only
  rw [paired_put_thread, paired_put_boot]
  rfl

theorem paired_onBoot {rsp : ℕ} (hrsp : stackBottom b .boot ≤ rsp ∧ rsp < stackTop b .boot) :
    (assertCurrentStack rsp).run (paired b page cr3 entry ledger .boot .running child progress exitCode) =
      .ok () (paired b page cr3 entry ledger .boot .running child progress exitCode) :=
  assertCurrentStack_run rfl paired_boot hrsp rfl rfl rfl

theorem paired_onThread {rsp : ℕ}
    (hrsp : stackBottom b (.thread page) ≤ rsp ∧ rsp < stackTop b (.thread page)) :
    (assertCurrentStack rsp).run
        (paired b page cr3 entry ledger (.thread page) boot .running progress exitCode) =
      .ok () (paired b page cr3 entry ledger (.thread page) boot .running progress exitCode) :=
  assertCurrentStack_run rfl paired_thread hrsp rfl rfl rfl

theorem paired_assertThread (state : State) (progress : ℕ) (exitCode : Option ℕ) :
    (assertThread (.thread page) state progress exitCode).run
        (paired b page cr3 entry ledger executing boot state progress exitCode) =
      .ok () (paired b page cr3 entry ledger executing boot state progress exitCode) := by
  unfold assertThread
  rw [run_bind_ok (readTask_run paired_thread), run_bind_ok (run_require (decide_eq_true rfl) _ _),
    run_bind_ok (run_require (decide_eq_true rfl) _ _), run_require (decide_eq_true rfl)]

end Paired

section Demonstration

variable {b : BootObjects image} {c : Cpu} {cr3 kernelStack entry argument : ℕ} {ledger : Ledger}
  {s : Statics image} {page : ThreadPage image} {run : PageRun} {p : Profile} {m : MemoryDescriptor}
  {rsp : TaskPointer image → ℕ → ℕ}

theorem enterBootTask_ok {rsp : ℕ} (hc : interruptsEnabled c = false) (hb : b.bootStackTop % 16 = 0)
    (hrsp : stackBottom b .boot ≤ rsp ∧ rsp < stackTop b .boot) :
    (enterBootTask b c rsp).run (linkedStatics image kernelStack cr3 ledger) =
      .ok () { linkedStatics image b.bootStackTop cr3 ledger with
        tasks := Function.update (fun _ => none) .boot (some (bootDescriptor b cr3))
        current := some .boot } := by
  have hlinked : (linkedStatics image kernelStack cr3 ledger).tasks .boot = some linkedTask := by
    unfold linkedStatics
    dsimp only
    rw [Function.update_self]
  have hboot : (Function.update (fun _ => none) .boot (some (bootDescriptor b cr3)) :
      TaskPointer image → Option Task) .boot = some (bootDescriptor b cr3) := Function.update_self _ _ _
  have hnone : (linkedStatics image kernelStack cr3 ledger).current.isNone = true := rfl
  unfold enterBootTask
  rw [run_bind_ok (run_require (by rw [hc]; rfl) _ _), run_get_bind, run_bind_ok (run_require hnone _ _),
    run_bind_ok (updateTask_run _ hlinked), run_bind_ok (updateTask_run _ (put_self _ _ _)), run_get_bind,
    run_bind_ok (updateTask_run _ (put_self _ _ _)), run_bind_ok (updateTask_run _ (put_self _ _ _)),
    run_modify_bind, run_bind_ok (setKernelStack_run hc hb)]
  unfold Statics.put linkedStatics
  dsimp only
  rw [Function.update_idem, Function.update_idem, Function.update_idem, Function.update_idem]
  exact assertCurrentStack_run rfl hboot hrsp rfl rfl rfl

theorem onLedger_run {α : Type} {x : Exec Ledger α} {r : α} (h : x.run s.ledger = .ok r ledger) :
    (onLedger x).run s = .ok r { s with ledger := ledger } := run_zoom_ok h

theorem createKernelThread_ok
    (hgranted : (allocatePages p .mapped 1).run s.ledger = .ok (.ok run) ledger)
    (hpage : threadPage image run.first = some page) (hpid : s.nextPid + 1 < 2 ^ 64) :
    (createKernelThread p entry argument).run s = .ok ⟨.thread page, run⟩
      { s with
        tasks := Function.update s.tasks (.thread page) (some (newTask s page entry argument))
        nextPid := s.nextPid + 1
        ledger := ledger } := by
  have hbacking : (Except.ok run : Except AllocationError PageRun).toOption = some run := rfl
  unfold createKernelThread
  rw [run_bind_ok (onLedger_run hgranted), run_bind_ok (run_expect hbacking _ _), hpage]
  dsimp only
  rw [run_get_bind, run_bind_ok (run_expect (checkedAdd_of_lt hpid) _ _)]
  rfl

theorem createKernelThread_denied {e : AllocationError}
    (hdenied : (allocatePages p .mapped 1).run s.ledger = .ok (.error e) ledger) :
    (createKernelThread p entry argument).run s =
      .error (.message "no mapped page for kernel thread") { s with ledger := ledger } := by
  unfold createKernelThread
  rw [run_bind_ok (onLedger_run hdenied)]
  rfl

/-- First fit hands out the page that has just been freed. -/
theorem reclaimPage_run (hm : m.Consistent) (hx : m.Exclusive) {z : ℕ}
    (hfit : m.FirstFit .mapped 1 z run.first) (h : HoldsRuns m .mapped [run] ledger) :
    (reclaimPage p run).run ledger = .ok () ⟨m, []⟩ := by
  obtain ⟨l, hrelease, hl⟩ := h.release hm p
  obtain rfl := hl.eq_start
  obtain ⟨recycled, l', y, hgrant, hl', -, hfit'⟩ := hl.grant hm hx p Nat.one_pos hfit.window
  have hfirst : recycled.first = run.first := (hfit'.unique hfit).2
  have hsame : recycled.physicalAddress = run.physicalAddress := by
    rw [PageRun.physicalAddress, PageRun.physicalAddress, hfirst]
  obtain ⟨l'', hrelease', hl''⟩ := hl'.release hm p
  obtain rfl := hl''.eq_start
  unfold reclaimPage
  rw [run_bind_ok hrelease, run_bind_ok hgrant, run_bind_ok (run_granted _ _ _),
    run_bind_ok (run_require (decide_eq_true hsame) _ _), hrelease']

theorem initYields_run {rsp : ℕ}
    (hrsp : stackBottom b (.thread page) ≤ rsp ∧ rsp < stackTop b (.thread page)) {boot : State}
    {exitCode : Option ℕ} {progress : ℕ} : (initYields 10 rsp).run
      (paired b page cr3 entry ledger (.thread page) boot .running progress exitCode) =
    .ok () (paired b page cr3 entry ledger (.thread page) boot .running 1 exitCode) := by
  unfold initYields
  rw [run_bind_ok (paired_onThread hrsp), run_bind_ok (currentTask_run rfl),
    run_bind_ok (readTask_run paired_thread), run_bind_ok (run_require (decide_eq_true rfl) _ _),
    run_bind_ok (run_require (decide_eq_true rfl) _ _), setProgress_run 1 rfl paired_thread,
    paired_put_thread]

variable (hc : interruptsEnabled c = false) (hb : b.bootStackTop % 16 = 0)
  (hrsp : ∀ q n, stackBottom b q ≤ rsp q n ∧ rsp q n < stackTop b q)

include hc hb hrsp

/-- With a page granted, only the guard word can stop the demonstration. -/
theorem demonstrate_eq_ok (entry kernelStack cr3 : ℕ) (guard : BitVec 64) (hm : m.Consistent)
    (hx : m.Exclusive) {z : ℕ} (hfit : m.FirstFit .mapped 1 z run.first)
    (h : HoldsRuns m .mapped [run] ledger)
    (hgranted : (allocatePages p .mapped 1).run ⟨m, []⟩ = .ok (.ok run) ledger)
    (hpage : threadPage image run.first = some page) :
    (demonstrate p b c entry rsp guard).run (linkedStatics image kernelStack cr3 ⟨m, []⟩) = .ok () s ↔
      guard = stackCanary ∧ s = paired b page cr3 entry ⟨m, []⟩ .boot .running .zombie 2 (some 1) := by
  have hcreate : (createKernelThread p entry 10).run { linkedStatics image b.bootStackTop cr3 ⟨m, []⟩ with
        tasks := Function.update (fun _ => none) .boot (some (bootDescriptor b cr3))
        current := some .boot } = .ok ⟨.thread page, run⟩
      (paired b page cr3 entry ledger .boot .running .ready 0 none) :=
    createKernelThread_ok hgranted hpage (show 1 + 1 < 2 ^ 64 by decide)
  have hentry : (trampolineEntry c (rsp (.thread page) 0)).run
        (paired b page cr3 entry ledger (.thread page) .ready .running 0 none) =
      .ok (.thread page, entry, 10)
        (paired b page cr3 entry ledger (.thread page) .ready .running 0 none) :=
    trampolineEntry_run hc rfl paired_thread (hrsp (.thread page) 0) rfl rfl rfl rfl
  have hback : ∀ n child progress exitCode, (switchBack .boot (rsp .boot n)).run
        (paired b page cr3 entry ledger .boot .running child progress exitCode) =
      .ok () (paired b page cr3 entry ledger .boot .running child progress exitCode) :=
    fun n _ _ _ => switchBack_run rfl paired_boot (hrsp .boot n) rfl rfl rfl
  have hresume : (switchBack (.thread page) (rsp (.thread page) 2)).run
        (paired b page cr3 entry ledger (.thread page) .ready .running 1 none) =
      .ok () (paired b page cr3 entry ledger (.thread page) .ready .running 1 none) :=
    switchBack_run rfl paired_thread (hrsp (.thread page) 2) rfl rfl rfl
  have hyield : (switchOut c .boot).run
        (paired b page cr3 entry ledger (.thread page) .ready .running 1 none) =
      .ok (.thread page) (paired b page cr3 entry ledger .boot .running .ready 1 none) :=
    paired_return hc hb (show State.running ≠ .ready from nofun)
  have hexit : (switchOut c .boot).run
        (paired b page cr3 entry ledger (.thread page) .ready .zombie 2 (some 1)) =
      .ok (.thread page) (paired b page cr3 entry ledger .boot .running .zombie 2 (some 1)) :=
    paired_return hc hb (show State.zombie ≠ .ready from nofun)
  have hcurrent : (paired b page cr3 entry ledger .boot .running .zombie 2 (some 1)).current =
      some .boot := rfl
  unfold demonstrate
  rw [run_bind_ok (enterBootTask_ok hc hb (hrsp _ 0)), run_bind_ok hcreate,
    run_bind_ok (paired_switch hc), run_bind_ok hentry, run_bind_ok (initYields_run (hrsp _ 1)),
    run_bind_ok hyield, run_bind_ok (hback 1 _ _ _),
    run_bind_ok (paired_assertThread _ _ _), run_bind_ok (paired_switch hc), run_bind_ok hresume,
    run_bind_ok (setProgress_run 2 rfl paired_thread), paired_put_thread,
    run_bind_ok (trampolineExit_run 1 paired_thread), paired_put_thread,
    run_bind_ok hexit, run_bind_ok (hback 2 _ _ _),
    run_bind_ok (paired_assertThread _ _ _), require_bind_eq_ok, run_get_bind,
    run_bind_ok (run_require (decide_eq_true hcurrent) _ _), run_bind_ok (paired_onBoot (hrsp _ 3)),
    onLedger_run (reclaimPage_run hm hx hfit h), decide_eq_true_eq]
  apply and_congr_right
  intro _
  constructor
  · intro hok
    cases hok
    rfl
  · rintro rfl
    rfl

/-- Without a mapped page there is no thread. -/
theorem demonstrate_denied (p : Profile) (entry kernelStack cr3 : ℕ) (guard : BitVec 64)
    (hm : m.Consistent) (hx : m.Exclusive) (hnone : mappedSet m = ∅) :
    ∃ u, (demonstrate p b c entry rsp guard).run (linkedStatics image kernelStack cr3 ⟨m, []⟩) =
      .error (.message "no mapped page for kernel thread") u := by
  have hdenied : (allocatePages p .mapped 1).run ⟨m, []⟩ = .ok (.error .outOfMemory) ⟨m, []⟩ := by
    apply (HoldsRuns.start m .mapped).outOfMemory hm hx p Nat.one_pos
    intro z i hwindow
    have hmem := (window_mapped_iff hm).mp ⟨z, hwindow⟩
    rw [hnone] at hmem
    exact absurd hmem (Finset.notMem_empty i)
  unfold demonstrate
  rw [run_bind_ok (enterBootTask_ok hc hb (hrsp _ 0)), EStateM.run_bind, createKernelThread_denied hdenied]
  exact ⟨_, rfl⟩

end Demonstration

/-- The tasks that were switched to, the last one first. -/
def switchedTo : List (Event (TaskPointer image)) → List (TaskPointer image)
  | [] => []
  | .switch _ j _ _ _ :: h => j :: switchedTo h
  | .work :: h => switchedTo h
  | .create _ :: h => switchedTo h

/-- After switches to the tasks of `order` the code of `i` is at `stage`, with the statics `s`. -/
structure Reaches (p : Profile) (l : Links) (a : Layout (TaskPointer image)) (x₀ : Machine image)
    (order : List (TaskPointer image)) (i : TaskPointer image) (stage : Stage image) (s : Statics image)
    (x : Machine image) : Prop where
  steps : Relation.ReflTransGen (Step p l a) x₀ x
  switched : switchedTo x.history = order
  executing : x.executing = i
  resuming : x.resuming = false
  stage : x.stage i = stage
  statics : x.statics = s
  disabled : interruptsEnabled x.cpu = false

section Order

variable {p : Profile} {l : Links} {himage : image.Linked} {b : BootObjects image} {s₀ : MemoryDescriptor}
  {x₀ x : Machine image} {order : List (TaskPointer image)} {i j : TaskPointer image} {stage : Stage image}
  {s t : Statics image}

/-- Behind a stack switch only the code of the new task goes on. -/
theorem Coherent.goes_on (hx : Coherent l (kernelLayout b himage) s₀ x) (hresuming : x.resuming = true) :
    ∃ calls, Step p l (kernelLayout b himage) x (x.continueAt x.statics (.code x.executing) calls) := by
  obtain ⟨-, hwaits, -, hstack, -⟩ := hx.resumed hresuming
  rcases hwaits with hstage | hstage
  · obtain ⟨call, hrun⟩ := hx.trampolineEntry_run rfl hresuming hstage hstack
    exact ⟨_, .start x 56 (x.executing, call) x.statics hresuming hstage hstack hrun⟩
  · obtain ⟨-, hrun⟩ := hx.switchBack_run hresuming hstage hstack
    exact ⟨_, .resume x x.executing x.executing 56 x.statics hresuming hstage hstack hrun⟩

theorem Reaches.progress (h : Reaches p l (kernelLayout b himage) x₀ order i stage s x) {progress : ℕ}
    (hs : (setProgress progress).run s = .ok () t) :
    ∃ y, Reaches p l (kernelLayout b himage) x₀ order i stage t y := by
  have hstep := Step.progress (l := l) (a := kernelLayout b himage) (p := p) x progress t h.resuming
    (by rw [h.statics]; exact hs)
  exact ⟨_, h.steps.tail hstep, h.switched, h.executing, h.resuming, h.stage, rfl, h.disabled⟩

theorem Reaches.exit (h : Reaches p l (kernelLayout b himage) x₀ order i (.code i) s x) (hi : i ≠ .boot)
    {code : ℕ} (hs : (trampolineExit i code).run s = .ok () t) :
    ∃ y, Reaches p l (kernelLayout b himage) x₀ order i (.leaving i) t y := by
  obtain ⟨hsteps, hswitched, rfl, hresuming, hstage, rfl, hdisabled⟩ := h
  have hstep : Step p l (kernelLayout b himage) x _ := .exit x x.executing code t hresuming hstage hi hs
  exact ⟨_, hsteps.tail hstep, hswitched, rfl, rfl, continueAt_self _ _ _, rfl, hdisabled⟩

theorem Reaches.create (h : Reaches p l (kernelLayout b himage) x₀ order i (.code i) s x)
    {entry argument : ℕ} {thread : KernelThread image}
    (hs : (createKernelThread p entry argument).run s = .ok thread t) :
    ∃ y, Reaches p l (kernelLayout b himage) x₀ order i (.code i) t y := by
  obtain ⟨hsteps, hswitched, rfl, hresuming, hstage, rfl, hdisabled⟩ := h
  have hstep : Step p l (kernelLayout b himage) x _ :=
    .create x x.executing entry argument thread t hresuming hstage hs
  exact ⟨_, hsteps.tail hstep, hswitched, rfl, hresuming, hstage, rfl, hdisabled⟩

/-- The running code comes to its call of `task_context_switch`. -/
theorem Reaches.call (h : Reaches p l (kernelLayout b himage) x₀ order i stage s x)
    (hroom : stackBottom b i + 56 < stackTop b i) (j : TaskPointer image) :
    ∃ y, Reaches p l (kernelLayout b himage) x₀ order i stage s y ∧
      y.AtSwitch (kernelLayout b himage) i j := by
  obtain ⟨hsteps, hswitched, rfl, hresuming, hstage, rfl, hdisabled⟩ := h
  have hcontext : ∀ k, (BitVec.ofNat 64 (contextOf b k)).toNat = contextOf b k := by
    intro k
    have hlt := (kernelLayout b himage).context_lt k
    change contextOf b k + 8 ≤ 2 ^ 64 at hlt
    rw [BitVec.toNat_ofNat, Nat.mod_eq_of_lt (by omega)]
  have hrsp : (BitVec.ofNat 64 (stackBottom b x.executing + 56)).toNat = stackBottom b x.executing + 56 := by
    have hlt := stackTop_lt_word b himage x.executing
    rw [BitVec.toNat_ofNat, Nat.mod_eq_of_lt (by omega)]
  have hstep : Step p l (kernelLayout b himage) x _ := .work x
    (calling (BitVec.ofNat 64 (contextOf b x.executing)) (BitVec.ofNat 64 (contextOf b j))
      (BitVec.ofNat 64 (stackBottom b x.executing + 56)) x.cpu) hresuming fun _ _ _ _ _ => rfl
  refine ⟨_, ⟨hsteps.tail hstep, hswitched, rfl, hresuming, hstage, rfl, hdisabled⟩, ?_⟩
  exact {
    rdi := hcontext x.executing
    rsi := hcontext j
    bottom_le := le_of_eq hrsp.symm
    lt_top := lt_of_eq_of_lt hrsp hroom }

variable (hx₀ : Coherent l (kernelLayout b himage) s₀ x₀) (hconsistent : s₀.Consistent)
  (hexclusive : s₀.Exclusive)

include hx₀ hconsistent hexclusive

theorem reaches_resumed (hx : Relation.ReflTransGen (Step p l (kernelLayout b himage)) x₀ x)
    (hresuming : x.resuming = true) : ∃ y, Reaches p l (kernelLayout b himage) x₀
      (switchedTo x.history) x.executing (.code x.executing) x.statics y := by
  have hcoherent := hx₀.steps hconsistent hexclusive hx
  obtain ⟨calls, hstep⟩ := hcoherent.goes_on (p := p) hresuming
  exact ⟨_, hx.tail hstep, rfl, rfl, rfl, continueAt_self _ _ _, rfl, (hcoherent.resumed hresuming).2.2.1⟩

theorem Reaches.switch (h : Reaches p l (kernelLayout b himage) x₀ order i (.code i) s x)
    (hroom : stackBottom b i + 56 < stackTop b i)
    (hs : ∀ c, interruptsEnabled c = false → (switchOut c j).run s = .ok i t) :
    ∃ y, Reaches p l (kernelLayout b himage) x₀ (j :: order) j (.code j) t y := by
  obtain ⟨y, ⟨hsteps, rfl, rfl, hresuming, hstage, rfl, hdisabled⟩, hat⟩ := h.call hroom j
  have hstep : Step p l (kernelLayout b himage) y _ :=
    .switch y y.executing y.executing j 0 t hresuming hstage (hs _ hdisabled) hat
  exact reaches_resumed hx₀ hconsistent hexclusive (hsteps.tail hstep) rfl

theorem Reaches.leave (h : Reaches p l (kernelLayout b himage) x₀ order i (.leaving i) s x)
    (hroom : stackBottom b i + 56 < stackTop b i)
    (hs : ∀ c, interruptsEnabled c = false → (switchOut c .boot).run s = .ok i t) :
    ∃ y, Reaches p l (kernelLayout b himage) x₀ (.boot :: order) .boot (.code .boot) t y := by
  obtain ⟨y, ⟨hsteps, rfl, rfl, hresuming, hstage, rfl, hdisabled⟩, hat⟩ := h.call hroom .boot
  have hstep : Step p l (kernelLayout b himage) y _ :=
    .leave y y.executing y.executing 0 t hresuming hstage (hs _ hdisabled) hat
  exact reaches_resumed hx₀ hconsistent hexclusive (hsteps.tail hstep) rfl

end Order

section Steps

variable {p : Profile} {l : Links} {b : BootObjects image} {c : Cpu} {page : ThreadPage image} {run : PageRun}
  {m : MemoryDescriptor} {ledger : Ledger}

theorem demonstrate_reaches (himage : image.Linked) (hc : interruptsEnabled c = false)
    (hb : b.bootStackTop % 16 = 0) (hroom : b.bootStack + 56 < b.bootStackTop) (entry cr3 : ℕ)
    (hm : m.Consistent) (hx : m.Exclusive)
    (hgranted : (allocatePages p .mapped 1).run ⟨m, []⟩ = .ok (.ok run) ledger)
    (hpage : threadPage image run.first = some page) :
    ∃ x, Reaches p l (kernelLayout b himage) (Machine.boot (bootStatics b cr3 ⟨m, []⟩) c)
      [.boot, .thread page, .boot, .thread page] .boot (.code .boot)
      (paired b page cr3 entry ledger .boot .running .zombie 2 (some 1)) x := by
  have henter : (enterBootTask b c b.bootStack).run (linkedStatics image 0 cr3 ⟨m, []⟩) =
      .ok () (bootStatics b cr3 ⟨m, []⟩) := by
    apply enterBootTask_ok hc hb
    change b.bootStack ≤ b.bootStack ∧ b.bootStack < b.bootStackTop
    omega
  have hempty : (history p []).run ⟨m, []⟩ = .ok () ⟨m, []⟩ := rfl
  have hboot : Coherent l (kernelLayout b himage) m (Machine.boot (bootStatics b cr3 ⟨m, []⟩) c) :=
    Coherent.boot (MikoOS.Accounted.of_run hm hx p hempty) henter
  have hstart : Reaches p l (kernelLayout b himage) (Machine.boot (bootStatics b cr3 ⟨m, []⟩) c) [] .boot
      (.code .boot) (bootStatics b cr3 ⟨m, []⟩) (Machine.boot (bootStatics b cr3 ⟨m, []⟩) c) :=
    ⟨.refl, rfl, rfl, rfl, boot_stage_self _, rfl, hc⟩
  have hthread : stackBottom b (.thread page) + 56 < stackTop b (.thread page) := by
    change page.base + 4096 + 8 + 56 < page.base + 32 * 1024
    omega
  have hcreate : (createKernelThread p entry 10).run (bootStatics b cr3 ⟨m, []⟩) = .ok ⟨.thread page, run⟩
      (paired b page cr3 entry ledger .boot .running .ready 0 none) :=
    createKernelThread_ok hgranted hpage (show 1 + 1 < 2 ^ 64 by decide)
  have hprogress : ∀ progress progress', (setProgress progress').run
      (paired b page cr3 entry ledger (.thread page) .ready .running progress none) =
      .ok () (paired b page cr3 entry ledger (.thread page) .ready .running progress' none) := by
    intro progress progress'
    rw [setProgress_run progress' rfl paired_thread, paired_put_thread]
  have hexit : (trampolineExit (.thread page) 1).run
      (paired b page cr3 entry ledger (.thread page) .ready .running 2 none) =
      .ok () (paired b page cr3 entry ledger (.thread page) .ready .zombie 2 (some 1)) := by
    rw [trampolineExit_run 1 paired_thread, paired_put_thread]
  obtain ⟨x, hcreated⟩ := hstart.create hcreate
  obtain ⟨x, hentered⟩ := hcreated.switch hboot hm hx hroom fun c hc => paired_switch hc
  obtain ⟨x, hinit⟩ := hentered.progress (hprogress 0 1)
  obtain ⟨x, hyielded⟩ := hinit.switch hboot hm hx hthread fun c hc =>
    paired_return hc hb (show State.running ≠ .ready from nofun)
  obtain ⟨x, hresumed⟩ := hyielded.switch hboot hm hx hroom fun c hc => paired_switch hc
  obtain ⟨x, hended⟩ := hresumed.progress (hprogress 1 2)
  obtain ⟨x, hexited⟩ := hended.exit nofun hexit
  exact hexited.leave hboot hm hx hthread fun c hc =>
    paired_return hc hb (show State.zombie ≠ .ready from nofun)

end Steps

/-- Outstanding runs only take pages. -/
theorem free_of_accounted {m : MemoryDescriptor} {l : Ledger} (h : MikoOS.Accounted m l)
    (hm : m.Consistent) {i : ℕ} (hi : l.memory.Free i) : m.Free i := by
  have hsize : l.memory.bitsSize = m.bitsSize := by
    rw [h.memory]
    rfl
  have hlt : i < m.bitsSize := by
    rw [← hsize]
    exact hi.1
  have hunused := hi.2
  rw [h.used_eq hm hlt] at hunused
  split at hunused
  · cases hunused
  · exact ⟨hlt, hunused⟩

/-- The free mapped pages lie behind the kernel. -/
theorem exists_threadPage {map : MemoryMap} {m : MemoryDescriptor} (hm : m.Initial image map) {i : ℕ}
    (hfree : m.Free i) (hlow : i < directRamEnd / page2MSize) :
    ∃ page, threadPage image i = some page ∧ page.index = i := by
  have hbehind := ((hm.free_iff i).mp hfree).2
  have hkernel := hm.kernelEnd
  rw [Nat.div_le_iff_le_mul (by decide)] at hbehind
  have hroom : image.kernelEnd ≤ pageOffset + i * page2MSize ∧
      pageOffset + (i + 1) * page2MSize ≤ 2 ^ 64 := by
    unfold directRamEnd at hlow
    unfold pageOffset page2MSize at *
    omega
  unfold threadPage
  rw [dif_pos hroom]
  exact ⟨_, rfl, rfl⟩

/-- With a free mapped page a thread is created in the first fitting one. -/
theorem exists_thread {map : MemoryMap} {m : MemoryDescriptor} {l : Ledger} (hm : m.Initial image map)
    (h : MikoOS.Accounted m l) (hsome : (mappedSet l.memory).Nonempty) (p : Profile) :
    ∃ run ledger z page, (allocatePages p .mapped 1).run ⟨l.memory, []⟩ = .ok (.ok run) ledger ∧
      HoldsRuns l.memory .mapped [run] ledger ∧ l.memory.FirstFit .mapped 1 z run.first ∧
      threadPage image run.first = some page ∧ page.index = run.first := by
  have hs := h.consistent hm.consistent
  obtain ⟨i, hi⟩ := hsome
  obtain ⟨z, hwindow⟩ := (window_mapped_iff hs).mpr hi
  obtain ⟨run, ledger, y, hgranted, hholds, -, hfit⟩ := (HoldsRuns.start l.memory .mapped).grant hs
    (h.exclusive hm.consistent hm.exclusive) p Nat.one_pos hwindow
  obtain ⟨hfree, hlow⟩ := Finset.mem_filter.mp ((window_mapped_iff hs).mp ⟨y, hfit.window⟩)
  obtain ⟨page, hpage, hindex⟩ := exists_threadPage hm
    (free_of_accounted h hm.consistent (MemoryDescriptor.mem_freeSet.mp hfree)) hlow
  exact ⟨run, ledger, y, page, hgranted, hholds, hfit, hpage, hindex⟩

/-- A demonstration that succeeds is a run of the machine, whose steps decide at each stack switch which
code goes on, up to the reclaim of the page. -/
theorem demonstrate_steps (p : Profile) (l : Links) (image : KernelImage) (himage : image.Linked)
    (base : BitVec 32) (k t : Kernel) (hk : k.Booted base) (ht : (MikoOS.init p image).run k = .ok () t)
    (ops : List Operation) (before : Ledger) (hbefore : (history p ops).run ⟨t.memory, []⟩ = .ok () before)
    (b : BootObjects image) (hb : b.bootStackTop % 16 = 0) (hroom : b.bootStack + 56 < b.bootStackTop)
    (c : Cpu) (hc : interruptsEnabled c = false) (rsp : TaskPointer image → ℕ → ℕ)
    (hrsp : ∀ q n, stackBottom b q ≤ rsp q n ∧ rsp q n < stackTop b q) (entry kernelStack cr3 : ℕ)
    (guard : BitVec 64) (s : Statics image)
    (hs : (demonstrate p b c entry rsp guard).run (linkedStatics image kernelStack cr3 ⟨before.memory, []⟩) =
      .ok () s) :
    ∃ page run ledger x, Reaches p l (kernelLayout b himage)
        (Machine.boot (bootStatics b cr3 ⟨before.memory, []⟩) c)
        [.boot, .thread page, .boot, .thread page] .boot (.code .boot)
        (paired b page cr3 entry ledger .boot .running .zombie 2 (some 1)) x ∧
      (onLedger (reclaimPage p run)).run x.statics = .ok () s := by
  obtain ⟨map, -, hrunning⟩ := init_ok himage hk ht
  have h := MikoOS.Accounted.of_run hrunning.memory.consistent hrunning.memory.exclusive p hbefore
  have hm := h.consistent hrunning.memory.consistent
  have hx := h.exclusive hrunning.memory.consistent hrunning.memory.exclusive
  rcases Finset.eq_empty_or_nonempty (mappedSet before.memory) with hnone | hsome
  · obtain ⟨u, hdenied⟩ := demonstrate_denied hc hb hrsp p entry kernelStack cr3 guard hm hx hnone
    rw [hdenied] at hs
    cases hs
  · obtain ⟨run, ledger, z, page, hgranted, hholds, hfit, hpage, -⟩ := exists_thread hrunning.memory h hsome p
    obtain ⟨-, rfl⟩ := (demonstrate_eq_ok hc hb hrsp entry kernelStack cr3 guard hm hx hfit hholds hgranted
      hpage).mp hs
    obtain ⟨x, hreaches⟩ := demonstrate_reaches (l := l) himage hc hb hroom entry cr3 hm hx hgranted
      hpage
    refine ⟨page, run, ledger, x, hreaches, ?_⟩
    rw [hreaches.statics, onLedger_run (reclaimPage_run hm hx hfit hholds)]
    rfl

/-- In every reachable state of the allocator the demonstration runs to its end exactly if a mapped page
is free and the guard word is whole; the thread is then a zombie with exit code 1 in the first fitting
page, the boot task runs on its own stack, and the allocator is as it was. -/
theorem demonstration_outcome (p : Profile) (image : KernelImage) (himage : image.Linked)
    (base : BitVec 32) (k t : Kernel) (hk : k.Booted base) (ht : (MikoOS.init p image).run k = .ok () t)
    (ops : List Operation) (l : Ledger) (hl : (history p ops).run ⟨t.memory, []⟩ = .ok () l)
    (b : BootObjects image) (hb : b.bootStackTop % 16 = 0) (c : Cpu) (hc : interruptsEnabled c = false)
    (rsp : TaskPointer image → ℕ → ℕ)
    (hrsp : ∀ q n, stackBottom b q ≤ rsp q n ∧ rsp q n < stackTop b q) (entry kernelStack cr3 : ℕ)
    (guard : BitVec 64) :
    ((∃ s, (demonstrate p b c entry rsp guard).run (linkedStatics image kernelStack cr3 ⟨l.memory, []⟩) =
        .ok () s) ↔ (mappedSet l.memory).Nonempty ∧ guard = stackCanary) ∧
      ∀ s, (demonstrate p b c entry rsp guard).run (linkedStatics image kernelStack cr3 ⟨l.memory, []⟩) =
          .ok () s → ∃ page z, l.memory.FirstFit .mapped 1 z page.index ∧
        s = paired b page cr3 entry ⟨l.memory, []⟩ .boot .running .zombie 2 (some 1) := by
  obtain ⟨map, -, hrunning⟩ := init_ok himage hk ht
  have hs₀ := hrunning.memory.consistent
  have hx₀ := hrunning.memory.exclusive
  have h := MikoOS.Accounted.of_run hs₀ hx₀ p hl
  have hm := h.consistent hs₀
  have hx := h.exclusive hs₀ hx₀
  rcases Finset.eq_empty_or_nonempty (mappedSet l.memory) with hnone | ⟨i, hi⟩
  · obtain ⟨u, hdenied⟩ := demonstrate_denied hc hb hrsp p entry kernelStack cr3 guard hm hx hnone
    rw [hdenied, hnone]
    constructor
    · constructor
      · rintro ⟨s, hok⟩
        cases hok
      · rintro ⟨hsome, -⟩
        exact absurd hsome Finset.not_nonempty_empty
    · intro s hok
      cases hok
  · obtain ⟨run, ledger, y, page, hgranted, hholds, hfit, hpage, hindex⟩ :=
      exists_thread hrunning.memory h ⟨i, hi⟩ p
    have hends := fun s => demonstrate_eq_ok (s := s) hc hb hrsp entry kernelStack cr3 guard hm hx hfit
      hholds hgranted hpage
    constructor
    · constructor
      · rintro ⟨s, hok⟩
        exact ⟨⟨i, hi⟩, ((hends s).mp hok).1⟩
      · rintro ⟨-, hguard⟩
        exact ⟨_, (hends _).mpr ⟨hguard, rfl⟩⟩
    · intro s hok
      refine ⟨page, y, ?_, ((hends s).mp hok).2⟩
      rw [hindex]
      exact hfit

theorem demonstration_outcome_sample : ∃ t, (MikoOS.init .dev sampleImage).run sampleKernel = .ok () t ∧
    ∃ s, (demonstrate .dev sampleBoot idle 0xffff800000101000 (fun q _ => stackBottom sampleBoot q)
      stackCanary).run (linkedStatics sampleImage 0 pml4Address ⟨t.memory, []⟩) = .ok () s := by
  obtain ⟨t, ht⟩ := sample_init_ok
  have hstack : ∀ q, stackBottom sampleBoot q < stackTop sampleBoot q := by
    intro q
    cases q with
    | boot => decide
    | thread page =>
      change page.base + 4096 + 8 < page.base + 32 * 1024
      omega
  have hmapped : (match (MikoOS.init .dev sampleImage).run sampleKernel with
    | .ok _ t => decide (mappedSet t.memory).Nonempty
    | .error _ _ => false) = true := by decide +kernel
  rw [ht] at hmapped
  have houtcome := demonstration_outcome .dev sampleImage sampleImage_linked _ sampleKernel t
    sampleKernel_booted ht [] ⟨t.memory, []⟩ rfl sampleBoot (by decide) idle (by decide)
    (fun q _ => stackBottom sampleBoot q) (fun q _ => ⟨le_rfl, hstack q⟩) 0xffff800000101000 0 pml4Address
    stackCanary
  exact ⟨t, ht, houtcome.1.mpr ⟨of_decide_eq_true hmapped, rfl⟩⟩

end MikoOS.Tasks
