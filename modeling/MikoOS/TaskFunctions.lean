import MikoOS.Tasks

/-!
# The functions on tasks

What each function of the task code does when it returns, and which descriptors it keeps alike: a store
changes the state, the progress or the exit code of one descriptor and nothing else.
-/

namespace MikoOS.Tasks

open ByteMemory Rust X86 Cpu

variable {image : KernelImage}

section Functions

variable {s t : Statics image} {c : Cpu} {q next previous : TaskPointer image} {d : Task} {rsp : ℕ}

theorem readTask_run (hd : s.tasks q = some d) : (readTask q).run s = .ok d s := by
  unfold readTask
  rw [run_get_bind, hd]
  rfl

theorem readTask_satisfies : Satisfies ((readTask q).run s) (fun d t => t = s ∧ s.tasks q = some d)
    fun _ _ => True := by
  cases hd : s.tasks q with
  | some d =>
    rw [readTask_run hd]
    exact satisfies_ok.mpr ⟨rfl, rfl⟩
  | none =>
    unfold readTask
    rw [run_get_bind, hd]
    exact satisfies_error.mpr trivial

theorem updateTask_run (f : Task → Task) (hd : s.tasks q = some d) :
    (updateTask q f).run s = .ok () (s.put q (f d)) := by
  unfold updateTask
  rw [run_bind_ok (readTask_run hd)]
  rfl

theorem updateTask_satisfies (f : Task → Task) : Satisfies ((updateTask q f).run s)
    (fun _ t => ∃ d, s.tasks q = some d ∧ t = s.put q (f d)) fun _ _ => True := by
  unfold updateTask
  apply readTask_satisfies.bind
  intro d t hread
  obtain ⟨rfl, hd⟩ := hread
  exact satisfies_ok.mpr ⟨d, hd, rfl⟩

theorem put_self (s : Statics image) (q : TaskPointer image) (d : Task) : (s.put q d).tasks q = some d :=
  Function.update_self _ _ _

theorem put_of_ne {j : TaskPointer image} (hne : j ≠ q) : (s.put q d).tasks j = s.tasks j :=
  Function.update_of_ne hne _ _

theorem currentTask_run (hcurrent : s.current = some q) : currentTask.run s = .ok q s := by
  unfold currentTask
  rw [run_get_bind, hcurrent]
  rfl

/-- The descriptor of the running task agrees with the processor. -/
theorem assertCurrentStack_run (hcurrent : s.current = some q) (hd : s.tasks q = some d)
    (hrsp : d.stackBottom ≤ rsp ∧ rsp < d.stackTop) (hstack : s.kernelStack = d.stackTop)
    (hcr3 : s.cr3 = d.pageTable) (hstate : d.state = .running) :
    (assertCurrentStack rsp).run s = .ok () s := by
  unfold assertCurrentStack
  rw [run_get_bind, run_bind_ok (run_expect hcurrent _ _), run_bind_ok (readTask_run hd),
    run_bind_ok (run_require (by simpa using hrsp) _ _), run_get_bind,
    run_bind_ok (run_require (by simpa using hstack) _ _), run_get_bind,
    run_bind_ok (run_require (by simpa using hcr3) _ _)]
  exact run_require (by simpa using hstate) _ _

theorem switchBack_run (hcurrent : s.current = some q) (hd : s.tasks q = some d)
    (hrsp : d.stackBottom ≤ rsp ∧ rsp < d.stackTop) (hstack : s.kernelStack = d.stackTop)
    (hcr3 : s.cr3 = d.pageTable) (hstate : d.state = .running) :
    (switchBack q rsp).run s = .ok () s := by
  unfold switchBack
  rw [run_get_bind, run_bind_ok (run_require (by simpa using hcurrent) _ _)]
  exact assertCurrentStack_run hcurrent hd hrsp hstack hcr3 hstate

theorem trampolineEntry_run {entry : ℕ} (hc : interruptsEnabled c = false)
    (hcurrent : s.current = some q) (hd : s.tasks q = some d)
    (hrsp : d.stackBottom ≤ rsp ∧ rsp < d.stackTop) (hstack : s.kernelStack = d.stackTop)
    (hcr3 : s.cr3 = d.pageTable) (hstate : d.state = .running) (hentry : d.entry = some entry) :
    (trampolineEntry c rsp).run s = .ok (q, entry, d.argument) s := by
  unfold trampolineEntry
  rw [run_bind_ok (run_require (by rw [hc]; rfl) _ _),
    run_bind_ok (assertCurrentStack_run hcurrent hd hrsp hstack hcr3 hstate),
    run_bind_ok (currentTask_run hcurrent), run_bind_ok (readTask_run hd), run_bind_ok (run_expect hentry _ _)]
  rfl

theorem giveUp_satisfies : Satisfies ((giveUp previous).run s)
    (fun _ t => ∃ q e, s.tasks previous = some q ∧ t = s.put previous e ∧
      (q.state = .running ∧ e = { q with state := .ready } ∨ q.state = .zombie ∧ e = q))
    fun _ _ => True := by
  unfold giveUp
  apply readTask_satisfies.bind
  intro q t hread
  obtain ⟨rfl, hq⟩ := hread
  by_cases hstate : q.state = .running
  · rw [if_pos hstate, updateTask_run _ hq]
    exact satisfies_ok.mpr ⟨q, _, hq, rfl, Or.inl ⟨hstate, rfl⟩⟩
  · rw [if_neg hstate]
    have hcheck : Satisfies ((require (q.state = .zombie) equalAssertion : Exec (Statics image) Unit).run t)
        (fun _ u => u = t ∧ decide (q.state = .zombie) = true) fun _ _ => True :=
      satisfies_require fun _ => trivial
    apply hcheck.mono
    · intro _ u hrequire
      obtain ⟨rfl, hzombie⟩ := hrequire
      have hsame : u.put previous q = u := by
        unfold Statics.put
        rw [← hq, Function.update_eq_self]
      exact ⟨q, q, hq, hsame.symm, Or.inr ⟨by simpa using hzombie, rfl⟩⟩
    · intro _ _ _
      trivial

theorem setKernelStack_satisfies (c : Cpu) (stackTop : ℕ) : Satisfies ((setKernelStack c stackTop).run s)
    (fun _ t => stackTop % 16 = 0 ∧ t = { s with kernelStack := stackTop }) fun _ _ => True := by
  unfold setKernelStack
  apply (satisfies_require fun _ => trivial).bind
  intro _ t hrequire
  obtain ⟨rfl, -⟩ := hrequire
  apply (satisfies_require fun _ => trivial).bind
  intro _ t hrequire
  obtain ⟨rfl, haligned⟩ := hrequire
  exact satisfies_ok.mpr ⟨by simpa using haligned, rfl⟩

/-- What `switch_to` does before the stack switch. -/
structure Handover (c : Cpu) (next : TaskPointer image) (s : Statics image) (previous : TaskPointer image)
    (t : Statics image) : Prop where
  disabled : interruptsEnabled c = false
  current : s.current = some previous
  ne : previous ≠ next
  ready : ∃ n, s.tasks next = some n ∧ n.state = .ready ∧ n.stackTop % 16 = 0 ∧
    t.tasks next = some { n with state := .running } ∧ t.kernelStack = n.stackTop
  gives : ∃ q, s.tasks previous = some q ∧
    (q.state = .running ∧ t.tasks previous = some { q with state := .ready } ∨
      q.state = .zombie ∧ t.tasks previous = some q)
  others : ∀ j, j ≠ previous → j ≠ next → t.tasks j = s.tasks j
  entered : t.current = some next
  rest : t.nextPid = s.nextPid ∧ t.cr3 = s.cr3 ∧ t.ledger = s.ledger

theorem switchOut_run (c : Cpu) (next : TaskPointer image) (s : Statics image) :
    Satisfies ((switchOut c next).run s) (Handover c next s) fun _ _ => True := by
  unfold switchOut
  apply (satisfies_require fun _ => trivial).bind
  intro _ t hrequire
  obtain ⟨rfl, hdisabled⟩ := hrequire
  rw [run_get_bind]
  apply (satisfies_expect fun _ => trivial).bind
  intro previous t hexpect
  obtain ⟨rfl, hfilter⟩ := hexpect
  obtain ⟨hcurrent, hne⟩ := Option.filter_eq_some_iff.mp hfilter
  have hne' : previous ≠ next := by simpa using hne
  apply readTask_satisfies.bind
  intro n t hread
  obtain ⟨rfl, hn⟩ := hread
  apply (satisfies_require fun _ => trivial).bind
  intro _ t hrequire
  obtain ⟨rfl, hready⟩ := hrequire
  apply readTask_satisfies.bind
  intro q t hread
  obtain ⟨rfl, hq⟩ := hread
  apply (satisfies_require fun _ => trivial).bind
  intro _ t hrequire
  obtain ⟨rfl, -⟩ := hrequire
  apply giveUp_satisfies.bind
  intro _ u hgive
  obtain ⟨q', e, hq', rfl, hgives⟩ := hgive
  rw [hq, Option.some.injEq] at hq'
  subst hq'
  have hn' : (t.put previous e).tasks next = some n := by
    rw [put_of_ne (Ne.symm hne'), hn]
  rw [run_bind_ok (updateTask_run _ hn')]
  apply (setKernelStack_satisfies c n.stackTop).bind
  intro _ u hstack
  obtain ⟨haligned, rfl⟩ := hstack
  apply satisfies_ok.mpr
  exact {
    disabled := by simpa using hdisabled
    current := hcurrent
    ne := hne'
    ready := ⟨n, hn, by simpa using hready, haligned, put_self _ _ _, rfl⟩
    gives := by
      refine ⟨q, hq, ?_⟩
      have hprevious : ((t.put previous e).put next { n with state := .running }).tasks previous = some e := by
        rw [put_of_ne hne', put_self]
      rcases hgives with ⟨hstate, rfl⟩ | ⟨hstate, rfl⟩
      · exact Or.inl ⟨hstate, hprevious⟩
      · exact Or.inr ⟨hstate, hprevious⟩
    others := by
      intro j hprevious hnext
      change ((t.put previous e).put next { n with state := .running }).tasks j = t.tasks j
      rw [put_of_ne hnext, put_of_ne hprevious]
    entered := rfl
    rest := ⟨rfl, rfl, rfl⟩ }

theorem onLedger_satisfies {α : Type} (x : Exec Ledger α) : Satisfies ((onLedger x).run s)
    (fun r t => ∃ ledger, x.run s.ledger = .ok r ledger ∧ t = { s with ledger := ledger })
    fun _ _ => True := by
  unfold onLedger
  cases hx : x.run s.ledger with
  | ok r ledger =>
    rw [run_zoom_ok hx]
    exact satisfies_ok.mpr ⟨ledger, rfl, rfl⟩
  | error e ledger =>
    rw [run_zoom_error hx]
    exact satisfies_error.mpr trivial

/-- The descriptor of a new thread. -/
def newTask (s : Statics image) (page : ThreadPage image) (entry argument : ℕ) : Task where
  pid := s.nextPid
  state := .ready
  stackBottom := page.base + descriptorArea + 8
  stackTop := page.base + taskRegionSize
  pageTable := s.cr3
  entry := some entry
  argument := argument
  progress := 0
  exitCode := none

/-- What `create_kernel_thread` does. -/
structure Spawned (p : Profile) (entry argument : ℕ) (s : Statics image) (thread : KernelThread image)
    (t : Statics image) : Prop where
  granted : (allocatePages p .mapped 1).run s.ledger = .ok (.ok thread.backing) t.ledger
  described : ∃ page, thread.task = .thread page ∧ page.index = thread.backing.first ∧
    t.tasks = Function.update s.tasks (.thread page) (some (newTask s page entry argument))
  nextPid : t.nextPid = s.nextPid + 1
  rest : t.current = s.current ∧ t.kernelStack = s.kernelStack ∧ t.cr3 = s.cr3

theorem createKernelThread_run (p : Profile) (entry argument : ℕ) (s : Statics image) :
    Satisfies ((createKernelThread p entry argument).run s) (Spawned p entry argument s)
      fun _ _ => True := by
  unfold createKernelThread
  apply (onLedger_satisfies _).bind
  intro answer t hledger
  obtain ⟨ledger, hgranted, rfl⟩ := hledger
  apply (satisfies_expect fun _ => trivial).bind
  intro backing t hexpect
  obtain ⟨rfl, hanswer⟩ := hexpect
  have hok : answer = .ok backing := by
    cases answer with
    | error e => cases hanswer
    | ok run => exact congrArg Except.ok (Option.some.inj hanswer)
  rw [hok] at hgranted
  cases hpage : threadPage image backing.first with
  | none => exact satisfies_error.mpr trivial
  | some page =>
    have hindex : page.index = backing.first := by
      unfold threadPage at hpage
      split at hpage
      · rw [← Option.some.inj hpage]
      · cases hpage
    dsimp only
    rw [run_get_bind]
    apply (satisfies_expect fun _ => trivial).bind
    intro next t hexpect
    obtain ⟨rfl, hnext⟩ := hexpect
    obtain ⟨hvalue, -⟩ := checkedAdd_eq_some.mp hnext
    apply satisfies_ok.mpr
    exact {
      granted := hgranted
      described := ⟨page, rfl, hindex, rfl⟩
      nextPid := hvalue.symm
      rest := ⟨rfl, rfl, rfl⟩ }

theorem trampolineExit_satisfies (code : ℕ) : Satisfies ((trampolineExit q code).run s)
    (fun _ t => ∃ d, s.tasks q = some d ∧
      t = s.put q { d with exitCode := some code, state := .zombie }) fun _ _ => True := by
  unfold trampolineExit
  apply (updateTask_satisfies _).bind
  intro _ t hupdate
  obtain ⟨d, hd, rfl⟩ := hupdate
  rw [updateTask_run _ (put_self _ _ _)]
  apply satisfies_ok.mpr
  refine ⟨d, hd, ?_⟩
  unfold Statics.put
  rw [Function.update_idem]

theorem setProgress_satisfies (progress : ℕ) : Satisfies ((setProgress progress).run s)
    (fun _ t => ∃ q d, s.current = some q ∧ s.tasks q = some d ∧
      t = s.put q { d with progress := progress }) fun _ _ => True := by
  unfold setProgress
  cases hcurrent : s.current with
  | none =>
    have htask : currentTask.run s = .error .outOfBounds s := by
      unfold currentTask
      rw [run_get_bind, hcurrent]
      rfl
    rw [EStateM.run_bind, htask]
    exact satisfies_error.mpr trivial
  | some q =>
    rw [run_bind_ok (currentTask_run hcurrent)]
    apply (updateTask_satisfies _).mono
    · intro _ t hupdate
      obtain ⟨d, hd, hput⟩ := hupdate
      exact ⟨q, d, rfl, hd, hput⟩
    · intro _ _ _
      trivial

end Functions

/-- The fields of a descriptor that no function changes later. -/
def Alike (d e : Task) : Prop :=
  e = { d with state := e.state, progress := e.progress, exitCode := e.exitCode }

/-- The same tasks, with the same fields but for their states. -/
structure Kept (s t : Statics image) : Prop where
  forth : ∀ j d, s.tasks j = some d → ∃ e, t.tasks j = some e ∧ Alike d e
  back : ∀ j e, t.tasks j = some e → ∃ d, s.tasks j = some d ∧ Alike d e
  cr3 : t.cr3 = s.cr3
  nextPid : t.nextPid = s.nextPid

/-- What the descriptors of existing tasks say. -/
structure Listed (a : Layout (TaskPointer image)) (h : List (Event (TaskPointer image)))
    (s : Statics image) : Prop where
  created : ∀ j, Created a j h ↔ ∃ d, s.tasks j = some d
  stack : ∀ j d, s.tasks j = some d → d.stackBottom = a.bottom j ∧ d.stackTop = a.top j
  pageTable : ∀ j d, s.tasks j = some d → d.pageTable = s.cr3
  entry : ∀ j d, s.tasks j = some d → j ≠ .boot → ∃ entry, d.entry = some entry
  pid_lt : ∀ j d, s.tasks j = some d → d.pid < s.nextPid
  pid_inj : ∀ i j d e, s.tasks i = some d → s.tasks j = some e → d.pid = e.pid → i = j

section Descriptors

variable {s t : Statics image} {q : TaskPointer image} {d e : Task} {a : Layout (TaskPointer image)}
  {h h' : List (Event (TaskPointer image))}

theorem kept_put (hd : s.tasks q = some d) (halike : Alike d e) : Kept s (s.put q e) where
  forth := by
    intro j d' hd'
    by_cases hj : j = q
    · subst hj
      rw [hd, Option.some.injEq] at hd'
      subst hd'
      exact ⟨e, put_self _ _ _, halike⟩
    · exact ⟨d', by rw [put_of_ne hj, hd'], rfl⟩
  back := by
    intro j e' he'
    by_cases hj : j = q
    · subst hj
      rw [put_self, Option.some.injEq] at he'
      subst he'
      exact ⟨d, hd, halike⟩
    · rw [put_of_ne hj] at he'
      exact ⟨e', he', rfl⟩
  cr3 := rfl
  nextPid := rfl

theorem Handover.kept {c : Cpu} {next previous : TaskPointer image} (hout : Handover c next s previous t) :
    Kept s t := by
  obtain ⟨n, hn, -, -, hnext, -⟩ := hout.ready
  obtain ⟨q, hq, hgives⟩ := hout.gives
  have hprevious : ∃ e, t.tasks previous = some e ∧ Alike q e := by
    rcases hgives with ⟨-, hgive⟩ | ⟨-, hgive⟩
    · exact ⟨_, hgive, rfl⟩
    · exact ⟨q, hgive, rfl⟩
  constructor
  · intro j d hd
    by_cases hj : j = next
    · subst hj
      rw [hn, Option.some.injEq] at hd
      subst hd
      exact ⟨_, hnext, rfl⟩
    · by_cases hj' : j = previous
      · subst hj'
        rw [hq, Option.some.injEq] at hd
        subst hd
        exact hprevious
      · exact ⟨d, by rw [hout.others j hj' hj, hd], rfl⟩
  · intro j e he
    by_cases hj : j = next
    · subst hj
      rw [hnext, Option.some.injEq] at he
      subst he
      exact ⟨n, hn, rfl⟩
    · by_cases hj' : j = previous
      · subst hj'
        obtain ⟨e', he', halike⟩ := hprevious
        rw [he', Option.some.injEq] at he
        subst he
        exact ⟨q, hq, halike⟩
      · rw [hout.others j hj' hj] at he
        exact ⟨e, he, rfl⟩
  · exact hout.rest.2.1
  · exact hout.rest.1

theorem Listed.kept (hs : Listed a h s) (hkept : Kept s t) (hcreated : ∀ j, Created a j h' ↔ Created a j h) :
    Listed a h' t where
  created := by
    intro j
    rw [hcreated, hs.created]
    constructor
    · intro hd
      obtain ⟨d, hd⟩ := hd
      obtain ⟨e, he, -⟩ := hkept.forth j d hd
      exact ⟨e, he⟩
    · intro he
      obtain ⟨e, he⟩ := he
      obtain ⟨d, hd, -⟩ := hkept.back j e he
      exact ⟨d, hd⟩
  stack := by
    intro j e he
    obtain ⟨d, hd, halike⟩ := hkept.back j e he
    rw [halike]
    exact hs.stack j d hd
  pageTable := by
    intro j e he
    obtain ⟨d, hd, halike⟩ := hkept.back j e he
    rw [halike, hkept.cr3]
    exact hs.pageTable j d hd
  entry := by
    intro j e he
    obtain ⟨d, hd, halike⟩ := hkept.back j e he
    rw [halike]
    exact hs.entry j d hd
  pid_lt := by
    intro j e he
    obtain ⟨d, hd, halike⟩ := hkept.back j e he
    rw [halike, hkept.nextPid]
    exact hs.pid_lt j d hd
  pid_inj := by
    intro i j e e' he he' hpid
    obtain ⟨d, hd, halike⟩ := hkept.back i e he
    obtain ⟨d', hd', halike'⟩ := hkept.back j e' he'
    rw [halike, halike'] at hpid
    exact hs.pid_inj i j d d' hd hd' hpid

end Descriptors

end MikoOS.Tasks
