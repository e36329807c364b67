import MikoOS.TaskInvariant

/-!
# States of tasks

In every run of the machine the task whose code runs is CURRENT and the only running one, RSP0 is the top
of its stack, and the checks behind a stack switch pass.
-/

namespace MikoOS.Tasks

open ByteMemory Rust X86 Cpu

variable {image : KernelImage}

section Runs

variable {p : Profile} {l : Links} {himage : image.Linked} {b : BootObjects image} {s₀ : MemoryDescriptor}
  {x y : Machine image}

theorem Coherent.step (hx : Coherent l (kernelLayout b himage) s₀ x) (hconsistent : s₀.Consistent)
    (hexclusive : s₀.Exclusive) (hstep : Step p l (kernelLayout b himage) x y) :
    Coherent l (kernelLayout b himage) s₀ y := by
  cases hstep with
  | work cpu hcode hleaves => exact hx.work hcode hleaves
  | progress progress s hcode hs => exact hx.progress hcode hs
  | pages ops ledger hcode hrun hheld => exact hx.pages hconsistent hexclusive hrun hheld
  | create task entry argument thread s hcode htask hs => exact hx.create hconsistent hexclusive hcode hs
  | switch task previous next returnTo s hcode htask hs hat =>
    apply hx.switchStack hs hat
    intro d hd
    rcases hx.code hcode d hd with ⟨hstage, hstate⟩ | ⟨hstage, -⟩
    · rw [htask] at hstage
      rw [Stage.code.inj hstage]
      exact Or.inl ⟨rfl, hstate⟩
    · rw [htask] at hstage
      cases hstage
  | exit task code s hcode htask hboot hs => exact hx.exit hcode htask hs
  | leave task previous returnTo s hcode htask hs hat =>
    apply hx.switchStack hs hat
    intro d hd
    rcases hx.code hcode d hd with ⟨hstage, -⟩ | ⟨-, hstate⟩
    · rw [htask] at hstage
      cases hstage
    · exact Or.inr ⟨⟨previous, rfl⟩, hstate⟩
  | resume task previous depth s hresuming hstage hdepth hs => exact hx.resume hresuming hstage hdepth hs
  | start depth call s hresuming hstage hdepth hs => exact hx.start rfl hresuming hstage hdepth hs

theorem Coherent.steps (hx : Coherent l (kernelLayout b himage) s₀ x) (hconsistent : s₀.Consistent)
    (hexclusive : s₀.Exclusive) (hsteps : Relation.ReflTransGen (Step p l (kernelLayout b himage)) x y) :
    Coherent l (kernelLayout b himage) s₀ y := by
  induction hsteps with
  | refl => exact hx
  | tail _ hstep ih => exact ih.step hconsistent hexclusive hstep

def Statics.Zombie (j : TaskPointer image) (s : Statics image) : Prop :=
  ∃ d, s.tasks j = some d ∧ d.state = .zombie

theorem zombie_put {s : Statics image} {q j : TaskPointer image} {d e : Task} (hd : s.tasks q = some d)
    (hstate : d.state = .zombie → e.state = .zombie) (hj : s.Zombie j) : (s.put q e).Zombie j := by
  obtain ⟨d', hd', hzombie⟩ := hj
  by_cases hself : j = q
  · rw [hself, hd, Option.some.injEq] at hd'
    rw [hself]
    exact ⟨e, put_self _ _ _, hstate (hd' ▸ hzombie)⟩
  · exact ⟨d', by rw [put_of_ne hself, hd'], hzombie⟩

theorem Handover.zombie {c : Cpu} {next previous j : TaskPointer image} {s t : Statics image}
    (hout : Handover c next s previous t) (hj : s.Zombie j) : t.Zombie j ∧ next ≠ j := by
  obtain ⟨d, hd, hzombie⟩ := hj
  obtain ⟨n, hn, hready, -⟩ := hout.ready
  obtain ⟨q, hq, hgives⟩ := hout.gives
  have hne : next ≠ j := by
    intro hsame
    rw [hsame, hd, Option.some.injEq] at hn
    rw [← hn, hzombie] at hready
    cases hready
  refine ⟨?_, hne⟩
  by_cases hself : j = previous
  · rw [hself, hq, Option.some.injEq] at hd
    rw [hself]
    rcases hgives with ⟨hrunning, -⟩ | ⟨-, hgive⟩
    · rw [hd, hzombie] at hrunning
      cases hrunning
    · exact ⟨q, hgive, hd ▸ hzombie⟩
  · exact ⟨d, by rw [hout.others j hself (Ne.symm hne), hd], hzombie⟩

/-- A zombie stays one, and is not switched to. -/
theorem Coherent.zombie_step (hx : Coherent l (kernelLayout b himage) s₀ x) (hconsistent : s₀.Consistent)
    (hexclusive : s₀.Exclusive) (hstep : Step p l (kernelLayout b himage) x y) {j : TaskPointer image}
    (hj : x.statics.Zombie j) : y.statics.Zombie j ∧ (x.executing ≠ j → y.executing ≠ j) := by
  cases hstep with
  | work cpu hcode hleaves => exact ⟨hj, fun hne => hne⟩
  | progress progress s hcode hs =>
    have hsatisfies := setProgress_satisfies (s := x.statics) progress
    rw [hs, satisfies_ok] at hsatisfies
    obtain ⟨q, d, -, hd, rfl⟩ := hsatisfies
    exact ⟨zombie_put hd (fun hstate => hstate) hj, fun hne => hne⟩
  | pages ops ledger hcode hrun hheld => exact ⟨hj, fun hne => hne⟩
  | create task entry argument thread s hcode htask hs =>
    have hspawned := createKernelThread_run p entry argument x.statics
    rw [hs, satisfies_ok] at hspawned
    obtain ⟨-, -, -, hnew⟩ := hx.grants hconsistent hexclusive hspawned
    obtain ⟨page, -, hindex, htasks⟩ := hspawned.described
    obtain ⟨d, hd, hzombie⟩ := hj
    have hne : j ≠ .thread page := by
      intro hself
      rw [hself] at hd
      exact hnew page hindex ((hx.listed.created _).mpr ⟨d, hd⟩)
    refine ⟨⟨d, ?_, hzombie⟩, fun hne => hne⟩
    change s.tasks j = some d
    rw [htasks, Function.update_of_ne hne, hd]
  | switch task previous next returnTo s hcode htask hs hat =>
    have hout := switchOut_run x.cpu next x.statics
    rw [hs, satisfies_ok] at hout
    obtain ⟨hzombie, hne⟩ := hout.zombie hj
    exact ⟨hzombie, fun _ => hne⟩
  | exit task code s hcode htask hboot hs =>
    have hsatisfies := trampolineExit_satisfies (s := x.statics) (q := task) code
    rw [hs, satisfies_ok] at hsatisfies
    obtain ⟨d, hd, rfl⟩ := hsatisfies
    exact ⟨zombie_put hd (fun _ => rfl) hj, fun hne => hne⟩
  | leave task previous returnTo s hcode htask hs hat =>
    have hout := switchOut_run x.cpu .boot x.statics
    rw [hs, satisfies_ok] at hout
    obtain ⟨hzombie, hne⟩ := hout.zombie hj
    exact ⟨hzombie, fun _ => hne⟩
  | resume task previous depth s hresuming hstage hdepth hs =>
    obtain ⟨-, hrun⟩ := hx.switchBack_run hresuming hstage hdepth
    rw [hrun] at hs
    cases hs
    exact ⟨hj, fun hne => hne⟩
  | start depth call s hresuming hstage hdepth hs =>
    obtain ⟨call', hrun⟩ := hx.trampolineEntry_run rfl hresuming hstage hdepth
    rw [hrun] at hs
    cases hs
    exact ⟨hj, fun hne => hne⟩

theorem Coherent.zombie_steps (hx : Coherent l (kernelLayout b himage) s₀ x) (hconsistent : s₀.Consistent)
    (hexclusive : s₀.Exclusive) (hsteps : Relation.ReflTransGen (Step p l (kernelLayout b himage)) x y)
    {j : TaskPointer image} (hj : x.statics.Zombie j) :
    y.statics.Zombie j ∧ (x.executing ≠ j → y.executing ≠ j) := by
  induction hsteps with
  | refl => exact ⟨hj, fun hne => hne⟩
  | tail hbefore hstep ih =>
    obtain ⟨hzombie, hstays⟩ := ih
    have hcoherent := hx.steps hconsistent hexclusive hbefore
    obtain ⟨hnext, hnot⟩ := hcoherent.zombie_step hconsistent hexclusive hstep hzombie
    exact ⟨hnext, fun hne => hnot (hstays hne)⟩

theorem assertCurrentStack_keeps {s : Statics image} (rsp : ℕ) :
    Satisfies ((assertCurrentStack rsp).run s) (fun _ t => t = s) fun _ _ => True := by
  unfold assertCurrentStack
  rw [run_get_bind]
  apply (satisfies_expect fun _ => trivial).bind
  intro task t hexpect
  obtain ⟨rfl, -⟩ := hexpect
  apply readTask_satisfies.bind
  intro d t hread
  obtain ⟨rfl, -⟩ := hread
  apply (satisfies_require fun _ => trivial).bind
  intro _ t hrequire
  obtain ⟨rfl, -⟩ := hrequire
  rw [run_get_bind]
  apply (satisfies_require fun _ => trivial).bind
  intro _ t hrequire
  obtain ⟨rfl, -⟩ := hrequire
  rw [run_get_bind]
  apply (satisfies_require fun _ => trivial).bind
  intro _ t hrequire
  obtain ⟨rfl, -⟩ := hrequire
  have hlast : Satisfies ((require (d.state = .running) equalAssertion : Exec (Statics image) Unit).run t)
      (fun _ u => u = t ∧ decide (d.state = .running) = true) fun _ _ => True :=
    satisfies_require fun _ => trivial
  exact hlast.mono (fun _ _ h => h.1) fun _ _ h => h

/-- The descriptor of the boot task. -/
def bootDescriptor (b : BootObjects image) (cr3 : ℕ) : Task :=
  { linkedTask with
    state := .running
    stackBottom := b.bootStack
    stackTop := b.bootStackTop
    pageTable := cr3 }

/-- The statics `enter_boot_task` leaves. -/
def bootStatics (b : BootObjects image) (cr3 : ℕ) (ledger : Ledger) : Statics image :=
  { linkedStatics image b.bootStackTop cr3 ledger with
    tasks := Function.update (fun _ => none) .boot (some (bootDescriptor b cr3))
    current := some .boot }

theorem enterBootTask_run (b : BootObjects image) (c : Cpu) (rsp kernelStack cr3 : ℕ) (ledger : Ledger) :
    Satisfies ((enterBootTask b c rsp).run (linkedStatics image kernelStack cr3 ledger))
      (fun _ t => t = bootStatics b cr3 ledger) fun _ _ => True := by
  unfold enterBootTask
  apply (satisfies_require fun _ => trivial).bind
  intro _ t hrequire
  obtain ⟨rfl, -⟩ := hrequire
  rw [run_get_bind]
  apply (satisfies_require fun _ => trivial).bind
  intro _ t hrequire
  obtain ⟨rfl, -⟩ := hrequire
  have hlinked : (linkedStatics image kernelStack cr3 ledger).tasks .boot = some linkedTask := by
    unfold linkedStatics
    dsimp only
    rw [Function.update_self]
  rw [run_bind_ok (updateTask_run _ hlinked), run_bind_ok (updateTask_run _ (put_self _ _ _)), run_get_bind,
    run_bind_ok (updateTask_run _ (put_self _ _ _)), run_bind_ok (updateTask_run _ (put_self _ _ _)),
    run_modify_bind]
  apply (setKernelStack_satisfies c b.bootStackTop).bind
  intro _ t hstack
  obtain ⟨-, rfl⟩ := hstack
  apply (assertCurrentStack_keeps rsp).mono
  · intro _ t ht
    rw [ht]
    unfold bootStatics Statics.put linkedStatics
    dsimp only
    rw [Function.update_idem, Function.update_idem, Function.update_idem, Function.update_idem]
    rfl
  · intro _ _ _
    trivial

section Boot

variable {c : Cpu} {cr3 : ℕ} {ledger : Ledger}

theorem bootStatics_boot : (bootStatics b cr3 ledger).tasks .boot = some (bootDescriptor b cr3) := by
  unfold bootStatics
  dsimp only
  rw [Function.update_self]

theorem bootStatics_tasks {j : TaskPointer image} {d : Task} (hd : (bootStatics b cr3 ledger).tasks j = some d) :
    j = .boot ∧ d = bootDescriptor b cr3 := by
  by_cases hj : j = .boot
  · rw [hj, bootStatics_boot, Option.some.injEq] at hd
    exact ⟨hj, hd.symm⟩
  · unfold bootStatics at hd
    dsimp only at hd
    rw [Function.update_of_ne hj] at hd
    cases hd

theorem created_nil (j : TaskPointer image) : Created (kernelLayout b himage) j [] ↔ j = .boot := by
  constructor
  · intro hj
    exact hj.resolve_right List.not_mem_nil
  · exact Or.inl

theorem boot_listed : Listed (kernelLayout b himage) [] (bootStatics b cr3 ledger) where
  created := by
    intro j
    rw [created_nil]
    constructor
    · intro hj
      rw [hj]
      exact ⟨_, bootStatics_boot⟩
    · intro hd
      obtain ⟨d, hd⟩ := hd
      exact (bootStatics_tasks hd).1
  stack := by
    intro j d hd
    obtain ⟨rfl, rfl⟩ := bootStatics_tasks hd
    exact ⟨rfl, rfl⟩
  pageTable := by
    intro j d hd
    obtain ⟨rfl, rfl⟩ := bootStatics_tasks hd
    rfl
  entry := by
    intro j d hd hj
    exact absurd (bootStatics_tasks hd).1 hj
  pid_lt := by
    intro j d hd
    obtain ⟨rfl, rfl⟩ := bootStatics_tasks hd
    exact Nat.one_pos
  pid_inj := by
    intro i j d e hd he _
    rw [(bootStatics_tasks hd).1, (bootStatics_tasks he).1]

theorem boot_stage_self (s : Statics image) : (Machine.boot s c).stage .boot = .code .boot := by
  unfold Machine.boot
  dsimp only
  rw [Function.update_self]

theorem boot_stage_of_ne (s : Statics image) {j : TaskPointer image} (hj : j ≠ .boot) :
    (Machine.boot s c).stage j = .unstarted := by
  unfold Machine.boot
  dsimp only
  rw [Function.update_of_ne hj]

/-- At the boot task every other stage is unstarted. -/
theorem boot_stage (s : Statics image) (j : TaskPointer image) :
    (Machine.boot s c).stage j = .code .boot ∧ j = .boot ∨
      (Machine.boot s c).stage j = .unstarted ∧ j ≠ .boot := by
  by_cases hj : j = .boot
  · rw [hj]
    exact Or.inl ⟨boot_stage_self s, rfl⟩
  · exact Or.inr ⟨boot_stage_of_ne s hj, hj⟩

theorem Coherent.boot {rsp kernelStack : ℕ} (hledger : MikoOS.Accounted s₀ ledger) {s : Statics image}
    (hs : (enterBootTask b c rsp).run (linkedStatics image kernelStack cr3 ledger) = .ok () s) :
    Coherent l (kernelLayout b himage) s₀ (Machine.boot s c) := by
  have hrun := enterBootTask_run b c rsp kernelStack cr3 ledger
  rw [hs, satisfies_ok] at hrun
  subst hrun
  exact {
    run := .boot c
    account := hledger
    held := by
      intro thread hmem
      cases hmem
    backed := by
      intro page hpage
      cases (created_nil _).mp hpage
    current := rfl
    kernelStack := rfl
    listed := boot_listed
    code := by
      intro _ d hd
      obtain ⟨-, rfl⟩ := bootStatics_tasks hd
      exact Or.inl ⟨boot_stage_self _, rfl⟩
    resumed := by
      intro hresuming
      cases hresuming
    continuation := by
      intro hresuming
      cases hresuming
    waiting := by
      intro j d hj hd
      exact absurd (bootStatics_tasks hd).1 hj
    frames := by
      intro j task previous hj
      rcases boot_stage (c := c) _ j with ⟨hstage, -⟩ | ⟨hstage, -⟩
      · rw [hstage] at hj
        cases hj
      · rw [hstage] at hj
        cases hj
    unstarted := by
      intro j hj
      rcases boot_stage (c := c) _ j with ⟨hstage, -⟩ | ⟨-, hne⟩
      · rw [hstage] at hj
        cases hj
      · exact ⟨rfl, hne⟩
    fresh := by
      intro j hj
      apply boot_stage_of_ne
      intro hself
      exact hj ((created_nil j).mpr hself)
    calls := List.nodup_nil
    called := by
      intro j hmem
      cases hmem }

end Boot

/-- Task code runs as the one current task. -/
structure Machine.Sound (x : Machine image) : Prop where
  current : x.statics.current = some x.executing
  executing : ∃ d, x.statics.tasks x.executing = some d ∧ x.statics.kernelStack = d.stackTop ∧
    (d.state = .running ∨ d.state = .zombie ∧ x.stage x.executing = .leaving x.executing)
  others : ∀ j d, j ≠ x.executing → x.statics.tasks j = some d → d.state = .ready ∨ d.state = .zombie

theorem Coherent.sound (hx : Coherent l (kernelLayout b himage) s₀ x) (hcode : x.resuming = false) :
    x.Sound where
  current := hx.current
  executing := by
    obtain ⟨d, hd⟩ := hx.executing
    refine ⟨d, hd, ?_, ?_⟩
    · rw [hx.kernelStack, (hx.listed.stack _ d hd).2]
    · rcases hx.code hcode d hd with ⟨-, hstate⟩ | ⟨hstage, hstate⟩
      · exact Or.inl hstate
      · exact Or.inr ⟨hstate, hstage⟩
  others := by
    intro j d hj hd
    rcases hx.waiting j d hj hd with ⟨-, hstate⟩ | ⟨-, hstate⟩
    · exact Or.inl hstate
    · exact Or.inr hstate

/-- Every run from the beginning of `demonstrate`, with any threads and any switches: where task code runs
it is that of CURRENT, the one running task or a zombie on its way out, with RSP0 at the top of its stack;
zombies stay zombies and do not run again; pids differ, entry functions are called once; and the checks
behind a stack switch pass, on the processor state that the code of the executing task left. -/
theorem task_states (p : Profile) (image : KernelImage) (himage : image.Linked) (b : BootObjects image)
    (l : Links) (base : BitVec 32) (k t : Kernel) (hk : k.Booted base) (ht : (init p image).run k = .ok () t)
    (ops : List Operation) (ledger : Ledger) (hledger : (history p ops).run ⟨t.memory, []⟩ = .ok () ledger)
    (c : Cpu) (rsp kernelStack cr3 : ℕ) (s : Statics image)
    (hs : (enterBootTask b c rsp).run (linkedStatics image kernelStack cr3 ledger) = .ok () s)
    (x : Machine image)
    (hx : Relation.ReflTransGen (Step p l (kernelLayout b himage)) (Machine.boot s c) x) :
    (x.resuming = false → x.Sound) ∧
    (∀ y j, Relation.ReflTransGen (Step p l (kernelLayout b himage)) x y → x.statics.Zombie j →
      y.statics.Zombie j ∧ (x.executing ≠ j → y.executing ≠ j)) ∧
    (∀ i j d e, x.statics.tasks i = some d → x.statics.tasks j = some e → d.pid = e.pid → i = j) ∧
    (x.calls.map Prod.fst).Nodup ∧
    (x.resuming = true → x.Resumes l (kernelLayout b himage) ∧
      InStack (kernelLayout b himage) x.executing x.cpu ∧
      (∀ task previous depth, x.stage x.executing = .switching task previous →
        (kernelLayout b himage).bottom x.executing + depth ≤ (x.cpu.reg .rsp).toNat →
        (switchBack previous (x.rspBelow depth)).run x.statics = .ok () x.statics) ∧
      ∀ depth, x.stage x.executing = .unstarted →
        (kernelLayout b himage).bottom x.executing + depth ≤ (x.cpu.reg .rsp).toNat → ∃ call,
        (trampolineEntry x.cpu (x.rspBelow depth)).run x.statics = .ok (x.executing, call) x.statics) := by
  obtain ⟨map, -, hrunning⟩ := init_ok himage hk ht
  have hconsistent := hrunning.memory.consistent
  have hexclusive := hrunning.memory.exclusive
  have haccount : MikoOS.Accounted t.memory ledger :=
    MikoOS.Accounted.of_run hconsistent hexclusive p hledger
  have hcoherent : Coherent l (kernelLayout b himage) t.memory x :=
    (Coherent.boot haccount hs).steps hconsistent hexclusive hx
  refine ⟨hcoherent.sound, ?_, hcoherent.listed.pid_inj, hcoherent.calls, ?_⟩
  · intro y j hsteps hzombie
    exact hcoherent.zombie_steps hconsistent hexclusive hsteps hzombie
  · intro hresuming
    refine ⟨hcoherent.continuation hresuming, (hcoherent.resumed hresuming).2.2.2, ?_, ?_⟩
    · intro task previous depth hstage hdepth
      exact (hcoherent.switchBack_run hresuming hstage hdepth).2
    · intro depth hstage hdepth
      exact hcoherent.trampolineEntry_run rfl hresuming hstage hdepth

end Runs

theorem switchOut_congr (c c' : Cpu) (hflags : c.flags = c'.flags) (next : TaskPointer image) :
    switchOut c next = switchOut c' next := by
  unfold switchOut setKernelStack interruptsEnabled
  rw [hflags]

def sampleStatics (t : Kernel) : Statics sampleImage := linkedStatics sampleImage 0 0x101000 ⟨t.memory, []⟩

def sampleThread : ThreadPage sampleImage where
  index := 2
  image_le := by decide
  le_top := by decide

/-- Whether a thread is created and the boot task can switch to it. -/
def sampleStarts (t : Kernel) : Bool :=
  returns (fun _ s => returns (fun _ u =>
      returns (fun previous _ => previous = .boot) ((switchOut idle (.thread sampleThread)).run u))
    ((createKernelThread .dev 0xffff800000105000 10).run s))
    ((enterBootTask sampleBoot idle 0xffff800000117000).run (sampleStatics t))

theorem sample_starts : returns (fun _ => sampleStarts) ((init .dev sampleImage).run sampleKernel) = true := by
  decide +kernel

abbrev SampleStep (x y : Machine sampleImage) : Prop :=
  Step .dev sampleLinks (kernelLayout sampleBoot sampleImage_linked) x y

/-- The boot task up to its call of `task_context_switch`, and the switch to the new thread. -/
theorem sample_switch {s u v : Statics sampleImage} {thread : KernelThread sampleImage}
    (hu : (createKernelThread .dev 0xffff800000105000 10).run s = .ok thread u)
    (hv : (switchOut idle (.thread sampleThread)).run u = .ok .boot v) :
    ∃ x, Relation.ReflTransGen SampleStep (Machine.boot s idle) x ∧ x.resuming = true ∧
      x.executing = .thread sampleThread ∧ x.stage (.thread sampleThread) = .unstarted := by
  have hstage : (Machine.boot s idle).stage .boot = .code .boot := by
    unfold Machine.boot
    dsimp only
    rw [Function.update_self]
  have hcreate : SampleStep (Machine.boot s idle) _ :=
    Step.create (Machine.boot s idle) .boot 0xffff800000105000 10 thread u rfl hstage hu
  have hwork : ∀ x : Machine sampleImage, x.resuming = false → SampleStep x
      { x with
        cpu := calling 0xffff80000011a000 0xffff800000400000 0xffff800000117000 x.cpu
        history := .work :: x.history } := by
    intro x hx
    apply Step.work x _ hx
    intro j _ _ y _
    rfl
  have hswitch : ∀ c : Cpu, c.flags = idle.flags →
      (switchOut c (.thread sampleThread)).run u = .ok .boot v := by
    intro c hflags
    rw [switchOut_congr c idle hflags]
    exact hv
  have hcalls := (Relation.ReflTransGen.single hcreate).tail (hwork _ rfl)
  refine ⟨_, hcalls.tail (Step.switch _ .boot .boot (.thread sampleThread) 0x1000 v rfl hstage ?_ ?_),
    rfl, rfl, ?_⟩
  · exact hswitch _ rfl
  · constructor
    · rfl
    · rfl
    · change 0xffff800000110000 + 56 ≤ 0xffff800000117000
      decide
    · change 0xffff800000117000 < 0xffff800000118000
      decide
  · unfold Machine.switchStack Machine.boot
    dsimp only
    rw [Function.update_of_ne (by decide), Function.update_of_ne (by decide)]

/-- The boot task creates a thread and switches to it, and its entry function is called. -/
theorem task_states_sample : ∃ (t : Kernel) (s : Statics sampleImage) (x y : Machine sampleImage),
    (init .dev sampleImage).run sampleKernel = .ok () t ∧
    (enterBootTask sampleBoot idle 0xffff800000117000).run (sampleStatics t) = .ok () s ∧
    Relation.ReflTransGen SampleStep (Machine.boot s idle) x ∧
    x.Resumes sampleLinks (kernelLayout sampleBoot sampleImage_linked) ∧
    SampleStep x y ∧ y.executing = .thread sampleThread ∧ y.Sound := by
  obtain ⟨t, ht⟩ := sample_init_ok
  have hstarts := sample_starts
  rw [ht, returns] at hstarts
  obtain ⟨_, s, hs, hcreates⟩ := exists_of_returns hstarts
  obtain ⟨thread, u, hu, hswitches⟩ := exists_of_returns hcreates
  obtain ⟨previous, v, hv, hprevious⟩ := exists_of_returns hswitches
  obtain rfl := of_decide_eq_true hprevious
  obtain ⟨x, hx, hresuming, hexecuting, hunstarted⟩ := sample_switch hu hv
  have hstates := task_states .dev sampleImage sampleImage_linked sampleBoot sampleLinks _ sampleKernel t
    sampleKernel_booted ht [] ⟨t.memory, []⟩ rfl idle _ _ _ s hs
  obtain ⟨-, -, -, -, hchecks⟩ := hstates x hx
  obtain ⟨hresumes, ⟨hroom, -⟩, -, hentry⟩ := hchecks hresuming
  rw [← hexecuting] at hunstarted
  obtain ⟨call, hcall⟩ := hentry 56 hunstarted hroom
  have hstart : SampleStep x _ := Step.start x 56 _ _ hresuming hunstarted hroom hcall
  obtain ⟨hsound, -⟩ := hstates _ (hx.tail hstart)
  exact ⟨t, s, x, _, ht, hs, hx, hresumes, hstart, hexecuting, hsound rfl⟩

end MikoOS.Tasks
