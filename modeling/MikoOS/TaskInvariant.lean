import MikoOS.TaskFunctions

/-!
# The invariant of the tasks

`Coherent` joins what the descriptors say to the point every task's code has reached and to the frames
of suspended tasks. Every step of the machine keeps it.
-/

namespace MikoOS.Tasks

open ByteMemory Rust X86 Cpu

variable {image : KernelImage}

/-- The stack pointer of a call leaves room for the frame and for the caller. -/
def InStack (a : Layout (TaskPointer image)) (j : TaskPointer image) (c : Cpu) : Prop :=
  a.bottom j + 56 ≤ (c.reg .rsp).toNat ∧ (c.reg .rsp).toNat < a.top j

/-- A task at a stage at which `switch_to` may be called for it. -/
def Stage.Waits (j : TaskPointer image) (stage : Stage image) : Prop :=
  stage = .unstarted ∨ stage = .switching j j

/-- The processor is where the code of the executing task goes on: at its first instruction or behind its
own call. -/
def Machine.Resumes (l : Links) (a : Layout (TaskPointer image)) (x : Machine image) : Prop :=
  x.stage x.executing = .unstarted ∧ Starts l (a.top x.executing) x.cpu ∨
    x.stage x.executing = .switching x.executing x.executing ∧
      ∃ s returnTo, lastCall x.executing x.history = some (s, returnTo) ∧ Continues s returnTo x.cpu

structure Coherent (l : Links) (a : Layout (TaskPointer image)) (s₀ : MemoryDescriptor) (x : Machine image) :
    Prop where
  run : Run l a x.history x.executing x.cpu
  account : MikoOS.Accounted s₀ x.statics.ledger
  held : ∀ thread ∈ x.threads, ⟨.mapped, thread.backing⟩ ∈ x.statics.ledger.outstanding
  backed : ∀ page, Created a (.thread page) x.history →
    ∃ thread ∈ x.threads, page.index ∈ thread.backing.pages
  current : x.statics.current = some x.executing
  kernelStack : x.statics.kernelStack = a.top x.executing
  listed : Listed a x.history x.statics
  code : x.resuming = false → ∀ d, x.statics.tasks x.executing = some d →
    x.stage x.executing = .code x.executing ∧ d.state = .running ∨
      x.stage x.executing = .leaving x.executing ∧ d.state = .zombie
  resumed : x.resuming = true → (∀ d, x.statics.tasks x.executing = some d → d.state = .running) ∧
    (x.stage x.executing).Waits x.executing ∧ interruptsEnabled x.cpu = false ∧ InStack a x.executing x.cpu
  continuation : x.resuming = true → x.Resumes l a
  waiting : ∀ j d, j ≠ x.executing → x.statics.tasks j = some d →
    (x.stage j).Waits j ∧ d.state = .ready ∨ (∃ q, x.stage j = .left q) ∧ d.state = .zombie
  frames : ∀ j task previous, x.stage j = .switching task previous →
    ∃ s returnTo, lastCall j x.history = some (s, returnTo) ∧ InStack a j s
  unstarted : ∀ j, x.stage j = .unstarted → lastCall j x.history = none ∧ j ≠ a.boot
  fresh : ∀ j, ¬Created a j x.history → x.stage j = .unstarted
  calls : (x.calls.map Prod.fst).Nodup
  called : ∀ j ∈ x.calls.map Prod.fst, x.stage j ≠ .unstarted

section Steps

variable {p : Profile} {l : Links} {a : Layout (TaskPointer image)} {s₀ : MemoryDescriptor}
  {x : Machine image} {s : Statics image} {d : Task}

theorem created_cons {e : Event (TaskPointer image)} {h : List (Event (TaskPointer image))}
    (hne : ∀ j, e ≠ .create j) (j : TaskPointer image) : Created a j (e :: h) ↔ Created a j h := by
  constructor
  · intro hj
    exact hj.of_cons.resolve_left (hne j)
  · exact Created.cons

theorem Coherent.executing (hx : Coherent l a s₀ x) : ∃ d, x.statics.tasks x.executing = some d :=
  (hx.listed.created _).mp hx.run.accounted.running.1

theorem Coherent.work (hx : Coherent l a s₀ x) (hcode : x.resuming = false) {cpu : Cpu}
    (hleaves : Leaves l a x.history x.executing x.cpu cpu) :
    Coherent l a s₀ { x with cpu := cpu, history := .work :: x.history } where
  run := .work _ _ _ _ hx.run hleaves
  account := hx.account
  held := hx.held
  backed := by
    intro page hpage
    exact hx.backed page ((created_cons (by simp) _).mp hpage)
  current := hx.current
  kernelStack := hx.kernelStack
  listed := hx.listed.kept ⟨fun j d hd => ⟨d, hd, rfl⟩, fun j d hd => ⟨d, hd, rfl⟩, rfl, rfl⟩
    (created_cons (by simp))
  code := hx.code
  resumed := by
    intro hresuming
    rw [hcode] at hresuming
    cases hresuming
  continuation := by
    intro hresuming
    rw [hcode] at hresuming
    cases hresuming
  waiting := hx.waiting
  frames := hx.frames
  unstarted := hx.unstarted
  fresh := by
    intro j hj
    apply hx.fresh j
    intro hbefore
    exact hj hbefore.cons
  calls := hx.calls
  called := hx.called

/-- A store to the descriptor of the running task that keeps its state. -/
theorem Coherent.progress (hx : Coherent l a s₀ x) (hcode : x.resuming = false) {progress : ℕ}
    (hs : (setProgress progress).run x.statics = .ok () s) : Coherent l a s₀ { x with statics := s } := by
  have hsatisfies := setProgress_satisfies (s := x.statics) progress
  rw [hs, satisfies_ok] at hsatisfies
  obtain ⟨q, d, hcurrent, hd, rfl⟩ := hsatisfies
  obtain rfl : x.executing = q := Option.some.inj (hx.current.symm.trans hcurrent)
  exact {
    run := hx.run
    account := hx.account
    held := hx.held
    backed := hx.backed
    current := hx.current
    kernelStack := hx.kernelStack
    listed := hx.listed.kept (kept_put hd rfl) fun _ => Iff.rfl
    code := by
      intro _ e he
      rw [put_self, Option.some.injEq] at he
      rw [← he]
      exact hx.code hcode d hd
    resumed := by
      intro hresuming
      rw [hcode] at hresuming
      cases hresuming
    continuation := by
      intro hresuming
      rw [hcode] at hresuming
      cases hresuming
    waiting := by
      intro j e hj he
      rw [put_of_ne hj] at he
      exact hx.waiting j e hj he
    frames := hx.frames
    unstarted := hx.unstarted
    fresh := hx.fresh
    calls := hx.calls
    called := hx.called }

theorem Coherent.pages (hx : Coherent l a s₀ x) (hs : s₀.Consistent) (hexclusive : s₀.Exclusive)
    {ops : List Operation} {ledger : Ledger} (hrun : (history p ops).run x.statics.ledger = .ok () ledger)
    (hheld : ∀ thread ∈ x.threads, ⟨.mapped, thread.backing⟩ ∈ ledger.outstanding) :
    Coherent l a s₀ { x with statics := { x.statics with ledger := ledger } } where
  run := hx.run
  account := by
    obtain ⟨ledger', hrun', haccount⟩ := hx.account.run hs hexclusive p ops
    rw [hrun] at hrun'
    cases hrun'
    exact haccount
  held := hheld
  backed := hx.backed
  current := hx.current
  kernelStack := hx.kernelStack
  listed := hx.listed.kept ⟨fun j d hd => ⟨d, hd, rfl⟩, fun j d hd => ⟨d, hd, rfl⟩, rfl, rfl⟩ fun _ => Iff.rfl
  code := hx.code
  resumed := hx.resumed
  continuation := hx.continuation
  waiting := hx.waiting
  frames := hx.frames
  unstarted := hx.unstarted
  fresh := hx.fresh
  calls := hx.calls
  called := hx.called

theorem continueAt_self (s : Statics image) (stage : Stage image)
    (calls : List (TaskPointer image × ℕ × ℕ)) :
    (x.continueAt s stage calls).stage x.executing = stage := Function.update_self _ _ _

theorem continueAt_of_ne (s : Statics image) (stage : Stage image) (calls : List (TaskPointer image × ℕ × ℕ))
    {j : TaskPointer image} (hj : j ≠ x.executing) : (x.continueAt s stage calls).stage j = x.stage j :=
  Function.update_of_ne hj _ _

theorem continueAt_before {stage stage' : Stage image} {calls : List (TaskPointer image × ℕ × ℕ)}
    {j : TaskPointer image} (hstage : stage = .code x.executing ∨ stage = .leaving x.executing)
    (hj : (x.continueAt s stage calls).stage j = stage') (hcode : stage' ≠ .code x.executing)
    (hleaving : stage' ≠ .leaving x.executing) : x.stage j = stage' := by
  by_cases hself : j = x.executing
  · rw [hself, continueAt_self] at hj
    rw [hj] at hstage
    rcases hstage with hstage | hstage
    · exact absurd hstage hcode
    · exact absurd hstage hleaving
  · rwa [continueAt_of_ne _ _ _ hself] at hj

/-- The running code moves on, and changes at most the descriptor of its own task. -/
theorem Coherent.continueAt (hx : Coherent l a s₀ x) {stage : Stage image}
    {calls : List (TaskPointer image × ℕ × ℕ)} (hkept : Kept x.statics s)
    (hothers : ∀ j, j ≠ x.executing → s.tasks j = x.statics.tasks j)
    (hsame : s.current = x.statics.current ∧ s.kernelStack = x.statics.kernelStack ∧
      s.ledger = x.statics.ledger)
    (hstage : ∀ d, s.tasks x.executing = some d → stage = .code x.executing ∧ d.state = .running ∨
      stage = .leaving x.executing ∧ d.state = .zombie)
    (hcalls : (calls.map Prod.fst).Nodup)
    (hcalled : ∀ j ∈ calls.map Prod.fst, j = x.executing ∨ j ∈ x.calls.map Prod.fst) :
    Coherent l a s₀ (x.continueAt s stage calls) := by
  obtain ⟨hcurrent, hstack, hledger⟩ := hsame
  have hnow : stage = .code x.executing ∨ stage = .leaving x.executing := by
    obtain ⟨d, hd⟩ := hx.executing
    obtain ⟨e, he, -⟩ := hkept.forth _ d hd
    rcases hstage e he with ⟨hcode, -⟩ | ⟨hleaving, -⟩
    · exact Or.inl hcode
    · exact Or.inr hleaving
  exact {
    run := hx.run
    account := by
      change MikoOS.Accounted s₀ s.ledger
      rw [hledger]
      exact hx.account
    held := by
      change ∀ thread ∈ x.threads, _ ∈ s.ledger.outstanding
      rw [hledger]
      exact hx.held
    backed := hx.backed
    current := hcurrent.trans hx.current
    kernelStack := hstack.trans hx.kernelStack
    listed := hx.listed.kept hkept fun _ => Iff.rfl
    code := by
      intro _ d hd
      change (x.continueAt s stage calls).stage x.executing = _ ∧ _ ∨
        (x.continueAt s stage calls).stage x.executing = _ ∧ _
      rw [continueAt_self]
      exact hstage d hd
    resumed := by
      intro hresuming
      cases hresuming
    continuation := by
      intro hresuming
      cases hresuming
    waiting := by
      intro j d hj hd
      change j ≠ x.executing at hj
      change s.tasks j = some d at hd
      rw [continueAt_of_ne _ _ _ hj]
      rw [hothers j hj] at hd
      exact hx.waiting j d hj hd
    frames := by
      intro j task previous hj
      exact hx.frames j task previous (continueAt_before hnow hj (by simp) (by simp))
    unstarted := by
      intro j hj
      exact hx.unstarted j (continueAt_before hnow hj (by simp) (by simp))
    fresh := by
      intro j hj
      rw [continueAt_of_ne]
      · exact hx.fresh j hj
      · intro hself
        rw [hself] at hj
        exact hj hx.run.accounted.running.1
    calls := hcalls
    called := by
      intro j hmem hj
      rcases hcalled j hmem with hself | hbefore
      · rw [hself, continueAt_self] at hj
        rw [hj] at hnow
        rcases hnow with hnow | hnow
        · cases hnow
        · cases hnow
      · exact hx.called j hbefore (continueAt_before hnow hj (by simp) (by simp)) }

/-- The running task leaves its code. -/
theorem Coherent.exit (hx : Coherent l a s₀ x) (hcode : x.resuming = false) {task : TaskPointer image}
    (htask : x.stage x.executing = .code task) {code : ℕ}
    (hs : (trampolineExit task code).run x.statics = .ok () s) :
    Coherent l a s₀ (x.continueAt s (.leaving task) x.calls) := by
  have hsatisfies := trampolineExit_satisfies (s := x.statics) (q := task) code
  rw [hs, satisfies_ok] at hsatisfies
  obtain ⟨d, hd, rfl⟩ := hsatisfies
  obtain ⟨d', hd'⟩ := hx.executing
  have hself : task = x.executing := by
    rcases hx.code hcode d' hd' with ⟨hstage, -⟩ | ⟨hstage, -⟩
    · rw [htask] at hstage
      exact Stage.code.inj hstage
    · rw [htask] at hstage
      cases hstage
  subst hself
  have halike : Alike d { d with exitCode := some code, state := .zombie } := rfl
  apply hx.continueAt (kept_put hd halike)
  · intro j hj
    exact put_of_ne hj
  · exact ⟨rfl, rfl, rfl⟩
  · intro e he
    rw [put_self, Option.some.injEq] at he
    rw [← he]
    exact Or.inr ⟨rfl, rfl⟩
  · exact hx.calls
  · intro j hmem
    exact Or.inr hmem

/-- The checks behind a stack switch see what they expect. -/
theorem Coherent.checks (hx : Coherent l a s₀ x) (hresuming : x.resuming = true) {depth : ℕ}
    (hdepth : a.bottom x.executing + depth ≤ (x.cpu.reg .rsp).toNat) {d : Task}
    (hd : x.statics.tasks x.executing = some d) :
    (d.stackBottom ≤ x.rspBelow depth ∧ x.rspBelow depth < d.stackTop) ∧
      x.statics.kernelStack = d.stackTop ∧ x.statics.cr3 = d.pageTable ∧ d.state = .running := by
  obtain ⟨hstate, -, -, hlow, hhigh⟩ := hx.resumed hresuming
  obtain ⟨hbottom, htop⟩ := hx.listed.stack _ d hd
  have hbelow : x.rspBelow depth = (x.cpu.reg .rsp).toNat - depth := rfl
  refine ⟨⟨?_, ?_⟩, ?_, ?_, hstate d hd⟩
  · omega
  · omega
  · rw [hx.kernelStack, htop]
  · rw [hx.listed.pageTable _ d hd]

theorem Coherent.switchBack_run (hx : Coherent l a s₀ x) (hresuming : x.resuming = true)
    {task previous : TaskPointer image} (hstage : x.stage x.executing = .switching task previous) {depth : ℕ}
    (hdepth : a.bottom x.executing + depth ≤ (x.cpu.reg .rsp).toNat) : task = x.executing ∧
      (switchBack previous (x.rspBelow depth)).run x.statics = .ok () x.statics := by
  obtain ⟨d, hd⟩ := hx.executing
  obtain ⟨hrsp, hstack, hcr3, hstate⟩ := hx.checks hresuming hdepth hd
  obtain ⟨-, hwaits, -⟩ := hx.resumed hresuming
  rw [hstage] at hwaits
  rcases hwaits with hwaits | hwaits
  · cases hwaits
  · cases hwaits
    exact ⟨rfl, Tasks.switchBack_run hx.current hd hrsp hstack hcr3 hstate⟩

theorem Coherent.trampolineEntry_run (hx : Coherent l a s₀ x) (ha : a.boot = .boot)
    (hresuming : x.resuming = true) (hstage : x.stage x.executing = .unstarted) {depth : ℕ}
    (hdepth : a.bottom x.executing + depth ≤ (x.cpu.reg .rsp).toNat) :
    ∃ call, (trampolineEntry x.cpu (x.rspBelow depth)).run x.statics = .ok (x.executing, call) x.statics := by
  obtain ⟨d, hd⟩ := hx.executing
  obtain ⟨hrsp, hstack, hcr3, hstate⟩ := hx.checks hresuming hdepth hd
  obtain ⟨-, -, hdisabled, -⟩ := hx.resumed hresuming
  have hboot := (hx.unstarted _ hstage).2
  rw [ha] at hboot
  obtain ⟨entry, hentry⟩ := hx.listed.entry _ d hd hboot
  exact ⟨_, Tasks.trampolineEntry_run hdisabled hx.current hd hrsp hstack hcr3 hstate hentry⟩

theorem Coherent.resume (hx : Coherent l a s₀ x) (hresuming : x.resuming = true)
    {task previous : TaskPointer image} (hstage : x.stage x.executing = .switching task previous) {depth : ℕ}
    (hdepth : a.bottom x.executing + depth ≤ (x.cpu.reg .rsp).toNat)
    (hs : (switchBack previous (x.rspBelow depth)).run x.statics = .ok () s) :
    Coherent l a s₀ (x.continueAt s (.code task) x.calls) := by
  obtain ⟨rfl, hrun⟩ := hx.switchBack_run hresuming hstage hdepth
  rw [hrun] at hs
  cases hs
  apply hx.continueAt ⟨fun j d hd => ⟨d, hd, rfl⟩, fun j d hd => ⟨d, hd, rfl⟩, rfl, rfl⟩
  · intro j _
    rfl
  · exact ⟨rfl, rfl, rfl⟩
  · intro d hd
    exact Or.inl ⟨rfl, (hx.resumed hresuming).1 d hd⟩
  · exact hx.calls
  · intro j hmem
    exact Or.inr hmem

theorem Coherent.start (hx : Coherent l a s₀ x) (ha : a.boot = .boot) (hresuming : x.resuming = true)
    (hstage : x.stage x.executing = .unstarted) {depth : ℕ}
    (hdepth : a.bottom x.executing + depth ≤ (x.cpu.reg .rsp).toNat)
    {call : TaskPointer image × ℕ × ℕ}
    (hs : (trampolineEntry x.cpu (x.rspBelow depth)).run x.statics = .ok call s) :
    Coherent l a s₀ (x.continueAt s (.code call.1) ((x.executing, call.2) :: x.calls)) := by
  obtain ⟨call', hrun⟩ := hx.trampolineEntry_run ha hresuming hstage hdepth
  rw [hrun] at hs
  cases hs
  apply hx.continueAt ⟨fun j d hd => ⟨d, hd, rfl⟩, fun j d hd => ⟨d, hd, rfl⟩, rfl, rfl⟩
  · intro j _
    rfl
  · exact ⟨rfl, rfl, rfl⟩
  · intro d hd
    exact Or.inl ⟨rfl, (hx.resumed hresuming).1 d hd⟩
  · rw [List.map_cons, List.nodup_cons]
    constructor
    · intro hmem
      exact hx.called _ hmem hstage
    · exact hx.calls
  · intro j hmem
    rw [List.map_cons, List.mem_cons] at hmem
    exact hmem

/-- A switch to a waiting task goes on where its code is. -/
theorem Coherent.goesOn (hx : Coherent l a s₀ x) {next : TaskPointer image} (hnext : Created a next x.history)
    (hne : next ≠ x.executing) (hcalls : Calls a x.executing next x.cpu) (hwaits : (x.stage next).Waits next)
    (returnTo : BitVec 64) : InStack a next (taskContextSwitch (x.cpu.push returnTo)) ∧
      (x.stage next = .unstarted ∧ Starts l (a.top next) (taskContextSwitch (x.cpu.push returnTo)) ∨
        x.stage next = .switching next next ∧ ∃ s returnTo₀, lastCall next x.history = some (s, returnTo₀) ∧
          Continues s returnTo₀ (taskContextSwitch (x.cpu.push returnTo))) := by
  have haccount := hx.run.accounted
  rcases hwaits with hstage | hstage
  · obtain ⟨hcall, hboot⟩ := hx.unstarted next hstage
    have hstarts : Starts l (a.top next) (taskContextSwitch (x.cpu.push returnTo)) :=
      haccount.starts hnext hne hcalls hcall hboot
    have hwithin := (haccount.suspended next hnext hne).within
    rw [savedFrame_none hcall] at hwithin
    have hbase : (Saved.first l (a.top next)).base = a.top next - 64 := rfl
    have hlength : 8 * (Saved.first l (a.top next)).words.length = 64 := rfl
    have hlow := hwithin.bottom_le
    have hhigh := hwithin.le_top
    have hrsp := hstarts.rsp
    refine ⟨⟨?_, ?_⟩, Or.inl ⟨hstage, hstarts⟩⟩
    · omega
    · omega
  · obtain ⟨s, returnTo₀, hcall, hstack⟩ := hx.frames next next next hstage
    have hcontinues : Continues s returnTo₀ (taskContextSwitch (x.cpu.push returnTo)) :=
      haccount.continues hnext hne hcalls hcall
    constructor
    · rw [InStack, hcontinues.rsp]
      exact hstack
    · exact Or.inr ⟨hstage, s, returnTo₀, hcall, hcontinues⟩

section Switch

variable {next : TaskPointer image} {returnTo : BitVec 64} {stage : Stage image}

theorem switchStack_self : (x.switchStack s next returnTo stage).stage x.executing = stage :=
  Function.update_self _ _ _

theorem switchStack_of_ne {j : TaskPointer image} (hj : j ≠ x.executing) :
    (x.switchStack s next returnTo stage).stage j = x.stage j :=
  Function.update_of_ne hj _ _

theorem Coherent.waits (hx : Coherent l a s₀ x) (hne : next ≠ x.executing)
    (hd : x.statics.tasks next = some d) (hready : d.state = .ready) : (x.stage next).Waits next := by
  rcases hx.waiting next d hne hd with ⟨hwaits, -⟩ | ⟨-, hzombie⟩
  · exact hwaits
  · rw [hready] at hzombie
    cases hzombie

/-- The task left is ready behind its call, or a zombie. -/
theorem Handover.left (hout : Handover x.cpu next x.statics x.executing s)
    (hstage : ∀ d, x.statics.tasks x.executing = some d →
      stage = .switching x.executing x.executing ∧ d.state = .running ∨
        (∃ q, stage = .left q) ∧ d.state = .zombie)
    (hd : s.tasks x.executing = some d) :
    stage.Waits x.executing ∧ d.state = .ready ∨ (∃ q, stage = .left q) ∧ d.state = .zombie := by
  obtain ⟨q, hq, hgives⟩ := hout.gives
  rcases hgives with ⟨hrunning, hgive⟩ | ⟨hzombie, hgive⟩
  · rw [hgive, Option.some.injEq] at hd
    rcases hstage q hq with ⟨hswitching, -⟩ | ⟨-, hzombie⟩
    · rw [hswitching, ← hd]
      exact Or.inl ⟨Or.inr rfl, rfl⟩
    · rw [hrunning] at hzombie
      cases hzombie
  · rw [hgive, Option.some.injEq] at hd
    rcases hstage q hq with ⟨-, hrunning⟩ | ⟨hleft, -⟩
    · rw [hzombie] at hrunning
      cases hrunning
    · rw [← hd]
      exact Or.inr ⟨hleft, hzombie⟩

theorem switchStack_unstarted
    (hstage : stage = .switching x.executing x.executing ∨ ∃ q, stage = .left q) {j : TaskPointer image}
    (hj : (x.switchStack s next returnTo stage).stage j = .unstarted) :
    j ≠ x.executing ∧ x.stage j = .unstarted := by
  by_cases hself : j = x.executing
  · rw [hself, switchStack_self] at hj
    rw [hj] at hstage
    rcases hstage with hstage | ⟨q, hstage⟩
    · cases hstage
    · cases hstage
  · exact ⟨hself, (switchStack_of_ne hself).symm.trans hj⟩

/-- The call of the task left is its last one. -/
theorem Coherent.switchStack_frames (hx : Coherent l a s₀ x) (hat : x.AtSwitch a x.executing next)
    {j task previous : TaskPointer image}
    (hj : (x.switchStack s next returnTo stage).stage j = .switching task previous) :
    ∃ c r, lastCall j (x.switchStack s next returnTo stage).history = some (c, r) ∧ InStack a j c := by
  by_cases hself : j = x.executing
  · subst hself
    exact ⟨x.cpu, returnTo, lastCall_switch_self, hat.bottom_le, hat.lt_top⟩
  · obtain ⟨c, r, hcall, hstack⟩ := hx.frames j task previous ((switchStack_of_ne hself).symm.trans hj)
    exact ⟨c, r, (lastCall_switch_ne (Ne.symm hself)).trans hcall, hstack⟩

/-- The new task goes on where its code is. -/
theorem Coherent.switchStack_resumes (hx : Coherent l a s₀ x) (hat : x.AtSwitch a x.executing next)
    (hnext : Created a next x.history) (hne : next ≠ x.executing) (hwaits : (x.stage next).Waits next) :
    (x.switchStack s next returnTo stage).Resumes l a := by
  have hcalls : Calls a x.executing next x.cpu := ⟨hat.rdi, hat.rsi, hat.bottom_le, le_of_lt hat.lt_top⟩
  obtain ⟨-, hresumes⟩ := hx.goesOn hnext hne hcalls hwaits returnTo
  change (x.switchStack s next returnTo stage).stage next = .unstarted ∧ _ ∨
    (x.switchStack s next returnTo stage).stage next = .switching next next ∧
      ∃ c r, lastCall next (.switch x.executing next x.cpu returnTo _ :: x.history) = some (c, r) ∧ _
  rw [switchStack_of_ne hne, lastCall_switch_ne (Ne.symm hne)]
  exact hresumes

/-- The stack switch to a ready task. -/
theorem Coherent.switchStack (hx : Coherent l a s₀ x) {previous : TaskPointer image}
    (hs : (switchOut x.cpu next).run x.statics = .ok previous s) (hat : x.AtSwitch a previous next)
    (hstage : ∀ d, x.statics.tasks x.executing = some d →
      stage = .switching x.executing previous ∧ d.state = .running ∨
        (∃ q, stage = .left q) ∧ d.state = .zombie) :
    Coherent l a s₀ (x.switchStack s next returnTo stage) := by
  have hout := switchOut_run x.cpu next x.statics
  rw [hs, satisfies_ok] at hout
  obtain rfl : x.executing = previous := Option.some.inj (hx.current.symm.trans hout.current)
  obtain ⟨n, hn, hready, -, hnew, hkernelStack⟩ := hout.ready
  obtain ⟨-, -, hledger⟩ := hout.rest
  have hne : next ≠ x.executing := Ne.symm hout.ne
  have hnext : Created a next x.history := (hx.listed.created next).mpr ⟨n, hn⟩
  have hcalls : Calls a x.executing next x.cpu := ⟨hat.rdi, hat.rsi, hat.bottom_le, le_of_lt hat.lt_top⟩
  have hwaits := hx.waits hne hn hready
  have hnow : stage = .switching x.executing x.executing ∨ ∃ q, stage = .left q := by
    obtain ⟨q, hq⟩ := hx.executing
    rcases hstage q hq with ⟨hswitching, -⟩ | ⟨hleft, -⟩
    · exact Or.inl hswitching
    · exact Or.inr hleft
  exact {
    run := .switch _ _ _ _ returnTo hx.run hnext hne hcalls
    account := by
      change MikoOS.Accounted s₀ s.ledger
      rw [hledger]
      exact hx.account
    held := by
      change ∀ thread ∈ x.threads, _ ∈ s.ledger.outstanding
      rw [hledger]
      exact hx.held
    backed := by
      intro page hpage
      exact hx.backed page ((created_cons (by simp) _).mp hpage)
    current := hout.entered
    kernelStack := by
      change s.kernelStack = a.top next
      rw [hkernelStack, (hx.listed.stack next n hn).2]
    listed := hx.listed.kept hout.kept (created_cons (by simp))
    code := by
      intro hresuming
      cases hresuming
    resumed := by
      intro _
      refine ⟨?_, ?_, ?_, (hx.goesOn hnext hne hcalls hwaits returnTo).1⟩
      · intro d hd
        change s.tasks next = some d at hd
        rw [hnew, Option.some.injEq] at hd
        rw [← hd]
      · change ((x.switchStack s next returnTo stage).stage next).Waits next
        rw [switchStack_of_ne hne]
        exact hwaits
      · change interruptsEnabled (taskContextSwitch (x.cpu.push returnTo)) = false
        rw [interruptsEnabled, taskContextSwitch_flags]
        exact hout.disabled
    continuation := by
      intro _
      exact hx.switchStack_resumes hat hnext hne hwaits
    waiting := by
      intro j d hj hd
      change j ≠ next at hj
      change s.tasks j = some d at hd
      by_cases hself : j = x.executing
      · subst hself
        rw [switchStack_self]
        exact hout.left hstage hd
      · rw [switchStack_of_ne hself]
        rw [hout.others j hself hj] at hd
        exact hx.waiting j d hself hd
    frames := by
      intro j task previous hj
      exact hx.switchStack_frames hat hj
    unstarted := by
      intro j hj
      obtain ⟨hself, hbefore⟩ := switchStack_unstarted hnow hj
      obtain ⟨hcall, hboot⟩ := hx.unstarted j hbefore
      exact ⟨(lastCall_switch_ne (Ne.symm hself)).trans hcall, hboot⟩
    fresh := by
      intro j hj
      have hbefore : ¬Created a j x.history := fun hbefore => hj hbefore.cons
      rw [switchStack_of_ne]
      · exact hx.fresh j hbefore
      · intro hself
        rw [hself] at hbefore
        exact hbefore hx.run.accounted.running.1
    calls := hx.calls
    called := by
      intro j hmem hj
      exact hx.called j hmem (switchStack_unstarted hnow hj).2 }

end Switch

end Steps

section Creation

variable {p : Profile} {l : Links} {himage : image.Linked} {b : BootObjects image} {s₀ : MemoryDescriptor}
  {x : Machine image} {s : Statics image} {thread : KernelThread image} {entry argument : ℕ}

/-- The granted page is not the page of another thread. -/
theorem Coherent.grants (hx : Coherent l (kernelLayout b himage) s₀ x) (hconsistent : s₀.Consistent)
    (hexclusive : s₀.Exclusive) (hspawned : Spawned p entry argument x.statics thread s) :
    MikoOS.Accounted s₀ s.ledger ∧
      s.ledger.outstanding = x.statics.ledger.outstanding ++ [⟨.mapped, thread.backing⟩] ∧
      thread.backing.first ∈ thread.backing.pages ∧
      ∀ page : ThreadPage image, page.index = thread.backing.first →
        ¬Created (kernelLayout b himage) (.thread page) x.history := by
  have hgranted := hx.account.allocatePages hconsistent hexclusive p .mapped 1
  rw [hspawned.granted, satisfies_ok] at hgranted
  obtain ⟨haccount, -, -, hrun⟩ := hgranted
  obtain ⟨hcount, houtstanding⟩ := hrun thread.backing rfl
  have hfirst : thread.backing.first ∈ thread.backing.pages := by
    apply PageRun.mem_pages.mpr
    omega
  refine ⟨haccount, houtstanding, hfirst, ?_⟩
  intro page hindex hcreated
  obtain ⟨other, hmem, hpage⟩ := hx.backed page hcreated
  have hdisjoint := haccount.disjoint
  rw [houtstanding, List.pairwise_append] at hdisjoint
  have hapart := hdisjoint.2.2 _ (hx.held other hmem) _ (List.mem_singleton_self _)
  rw [hindex] at hpage
  exact Finset.disjoint_left.mp hapart hpage hfirst

theorem created_create {a : Layout (TaskPointer image)} {h : List (Event (TaskPointer image))}
    {i j : TaskPointer image} : Created a j (.create i :: h) ↔ j = i ∨ Created a j h := by
  constructor
  · intro hj
    rcases hj.of_cons with hhead | hbefore
    · cases hhead
      exact Or.inl rfl
    · exact Or.inr hbefore
  · intro hj
    rcases hj with hself | hbefore
    · rw [hself]
      exact Or.inr List.mem_cons_self
    · exact hbefore.cons

/-- A descriptor is that of the new thread or was there before. -/
theorem tasks_create {page : ThreadPage image} {s t : Statics image}
    (htasks : t.tasks = Function.update s.tasks (.thread page) (some (newTask s page entry argument)))
    {j : TaskPointer image} {d : Task} (hd : t.tasks j = some d) :
    j = .thread page ∧ d = newTask s page entry argument ∨ j ≠ .thread page ∧ s.tasks j = some d := by
  rw [htasks] at hd
  by_cases hj : j = .thread page
  · rw [hj, Function.update_self, Option.some.injEq] at hd
    exact Or.inl ⟨hj, hd.symm⟩
  · rw [Function.update_of_ne hj] at hd
    exact Or.inr ⟨hj, hd⟩

theorem Listed.create {h : List (Event (TaskPointer image))} {page : ThreadPage image} {s t : Statics image}
    (hs : Listed (kernelLayout b himage) h s)
    (htasks : t.tasks = Function.update s.tasks (.thread page) (some (newTask s page entry argument)))
    (hnextPid : t.nextPid = s.nextPid + 1) (hcr3 : t.cr3 = s.cr3) :
    Listed (kernelLayout b himage) (.create (.thread page) :: h) t := by
  constructor
  · intro j
    rw [created_create, htasks]
    by_cases hj : j = .thread page
    · rw [hj, Function.update_self]
      exact ⟨fun _ => ⟨_, rfl⟩, fun _ => Or.inl rfl⟩
    · rw [Function.update_of_ne hj, hs.created]
      exact ⟨fun h => h.resolve_left hj, Or.inr⟩
  · intro j d hd
    rcases tasks_create htasks hd with ⟨rfl, rfl⟩ | ⟨-, hbefore⟩
    · exact ⟨rfl, rfl⟩
    · exact hs.stack j d hbefore
  · intro j d hd
    rw [hcr3]
    rcases tasks_create htasks hd with ⟨-, rfl⟩ | ⟨-, hbefore⟩
    · rfl
    · exact hs.pageTable j d hbefore
  · intro j d hd hboot
    rcases tasks_create htasks hd with ⟨-, rfl⟩ | ⟨-, hbefore⟩
    · exact ⟨entry, rfl⟩
    · exact hs.entry j d hbefore hboot
  · intro j d hd
    rw [hnextPid]
    rcases tasks_create htasks hd with ⟨-, rfl⟩ | ⟨-, hbefore⟩
    · exact Nat.lt_succ_self _
    · exact Nat.lt_succ_of_lt (hs.pid_lt j d hbefore)
  · intro i j d e hd he hpid
    -- the new PID is above those in use
    rcases tasks_create htasks hd with ⟨rfl, rfl⟩ | ⟨-, hd⟩
    · rcases tasks_create htasks he with ⟨rfl, -⟩ | ⟨-, he⟩
      · rfl
      · have hlt := hs.pid_lt j e he
        rw [← hpid] at hlt
        exact absurd hlt (lt_irrefl _)
    · rcases tasks_create htasks he with ⟨-, rfl⟩ | ⟨-, he⟩
      · have hlt := hs.pid_lt i d hd
        rw [hpid] at hlt
        exact absurd hlt (lt_irrefl _)
      · exact hs.pid_inj i j d e hd he hpid

theorem Coherent.create (hx : Coherent l (kernelLayout b himage) s₀ x) (hconsistent : s₀.Consistent)
    (hexclusive : s₀.Exclusive) (hcode : x.resuming = false)
    (hs : (createKernelThread p entry argument).run x.statics = .ok thread s) :
    Coherent l (kernelLayout b himage) s₀
      { x with
        statics := s
        cpu := { x.cpu with
          ram := createFrame l ((kernelLayout b himage).context thread.task)
            ((kernelLayout b himage).top thread.task) x.cpu.ram }
        history := .create thread.task :: x.history
        threads := thread :: x.threads } := by
  have hspawned := createKernelThread_run p entry argument x.statics
  rw [hs, satisfies_ok] at hspawned
  obtain ⟨haccount, houtstanding, hfirst, hnew⟩ := hx.grants hconsistent hexclusive hspawned
  obtain ⟨page, htask, hindex, htasks⟩ := hspawned.described
  obtain ⟨hcurrent, hstack, hcr3⟩ := hspawned.rest
  have hfresh := hnew page hindex
  have hne : x.executing ≠ .thread page := by
    intro hself
    rw [← hself] at hfresh
    exact hfresh hx.run.accounted.running.1
  have htop : (kernelLayout b himage).top (.thread page) = page.base + 32 * 1024 := rfl
  have hbottom : (kernelLayout b himage).bottom (.thread page) = page.base + 4096 + 8 := rfl
  have hbase : page.base = 0xffff800000000000 + page.index * 2 ^ 21 := rfl
  rw [htask]
  exact {
    run := .create _ _ _ _ hx.run hfresh (by omega) (by omega)
    account := haccount
    held := by
      intro thread' hmem
      rw [houtstanding, List.mem_append]
      rcases List.mem_cons.mp hmem with hhead | hbefore
      · rw [hhead]
        exact Or.inr (List.mem_singleton_self _)
      · exact Or.inl (hx.held thread' hbefore)
    backed := by
      intro page' hpage
      rcases created_create.mp hpage with hsame | hbefore
      · cases hsame
        rw [hindex]
        exact ⟨thread, List.mem_cons_self, hfirst⟩
      · obtain ⟨thread', hmem, hpages⟩ := hx.backed page' hbefore
        exact ⟨thread', List.mem_cons_of_mem _ hmem, hpages⟩
    current := hcurrent.trans hx.current
    kernelStack := hstack.trans hx.kernelStack
    listed := hx.listed.create htasks hspawned.nextPid hcr3
    code := by
      intro _ d hd
      change s.tasks x.executing = some d at hd
      rw [htasks, Function.update_of_ne hne] at hd
      exact hx.code hcode d hd
    resumed := by
      intro hresuming
      rw [hcode] at hresuming
      cases hresuming
    continuation := by
      intro hresuming
      rw [hcode] at hresuming
      cases hresuming
    waiting := by
      intro j d hj hd
      rcases tasks_create htasks hd with ⟨rfl, rfl⟩ | ⟨-, hbefore⟩
      · exact Or.inl ⟨Or.inl (hx.fresh _ hfresh), rfl⟩
      · exact hx.waiting j d hj hbefore
    frames := hx.frames
    unstarted := hx.unstarted
    fresh := by
      intro j hj
      apply hx.fresh j
      intro hbefore
      exact hj hbefore.cons
    calls := hx.calls
    called := hx.called }

end Creation

end MikoOS.Tasks
