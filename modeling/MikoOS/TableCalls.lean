import MikoOS.DescriptorTables

/-!
# The tables over the start-up and its updates

Memory holds `TableSpec.after`: the gates and the stack the start-up sets, changed by every later call.
The statics of the tables and the stacks lie apart. From the gates follows which vectors INT n reaches
at CPL 3.
-/

namespace MikoOS.Trap

open ByteMemory Rust X86

variable {d : TableImage} {m ram : Memory} {a b x : ℕ}

/-- The statics the processor writes to or reads from. -/
def TableImage.statics (d : TableImage) : List (ℕ × ℕ) :=
  [(d.idt, 4096), (d.tss, 104), (d.gdt, 80), (d.exceptionStack, 32768), (d.doubleFaultStack, 16384),
    (d.irqStack, 32768)]

/-- What the linker guarantees. -/
structure TableImage.Linked (d : TableImage) : Prop where
  apart : d.statics.Pairwise fun r q => r.1 + r.2 ≤ q.1 ∨ q.1 + q.2 ≤ r.1
  below : ∀ r ∈ d.statics, r.1 + r.2 < 2 ^ 64
  aligned : d.exceptionStack % 16 = 0 ∧ d.doubleFaultStack % 16 = 0 ∧ d.irqStack % 16 = 0

/-- The bytes the functions of `gate.rs` and `trap.rs` write. -/
def TableImage.Table (d : TableImage) (x : ℕ) : Prop :=
  d.idt ≤ x ∧ x < d.idt + 4096 ∨ d.tss ≤ x ∧ x < d.tss + 104 ∨ d.gdt + 64 ≤ x ∧ x < d.gdt + 80

/-- Memory and registers hold `spec`. -/
structure Holds (d : TableImage) (spec : TableSpec) (t : Descriptors) : Prop where
  gates : ∀ v < 256, readGate t.ram (d.idt + 16 * v) = some (spec.gates v)
  rsp0 : rsp0 t.ram d.tss = spec.rsp0
  ist : ∀ i, 1 ≤ i → i ≤ 7 → istPointer t.ram d.tss i = d.istTop i
  registers : t.registers = ⟨d.idt, 4095, d.tss⟩

/-- Nothing but the tables changed since `s`. -/
structure OnlyTables (d : TableImage) (s t : Descriptors) : Prop where
  ram : ∀ x, ¬ d.Table x → t.ram x = s.ram x
  enabled : t.enabled = s.enabled

section Tables

variable {spec : TableSpec} {s t : Descriptors}

theorem TableImage.Linked.idt_tss (hd : d.Linked) : d.idt + 4096 ≤ d.tss ∨ d.tss + 104 ≤ d.idt := by
  have h := hd.apart
  simp only [TableImage.statics, List.pairwise_cons, List.mem_cons, forall_eq_or_imp] at h
  exact h.1.1

theorem OnlyTables.refl (d : TableImage) (s : Descriptors) : OnlyTables d s s := ⟨fun _ _ => rfl, rfl⟩

theorem OnlyTables.trans {u : Descriptors} (h : OnlyTables d s t) (h' : OnlyTables d t u) :
    OnlyTables d s u :=
  ⟨fun x hx => (h'.ram x hx).trans (h.ram x hx), h'.enabled.trans h.enabled⟩

theorem Holds.congr {spec' : TableSpec} (h : Holds d spec t)
    (hgates : ∀ v < 256, spec.gates v = spec'.gates v) (hrsp0 : spec.rsp0 = spec'.rsp0) :
    Holds d spec' t where
  gates v hv := by rw [h.gates v hv, hgates v hv]
  rsp0 := h.rsp0.trans hrsp0
  ist := h.ist
  registers := h.registers

/-- Only the bytes of the tables matter. -/
theorem Holds.of_tables (h : Holds d spec t) {m : Memory} (hm : ∀ x, d.Table x → m x = t.ram x) :
    Holds d spec { t with ram := m } where
  gates v hv := by
    rw [← h.gates v hv]
    exact readGate_congr fun i hi => hm _ (.inl (by omega))
  rsp0 := by
    apply Eq.trans _ h.rsp0
    exact load64_congr fun i hi => hm _ (.inr (.inl (by omega)))
  ist i hlow hhigh := by
    rw [← h.ist i hlow hhigh]
    exact load64_congr fun j hj => hm _ (.inr (.inl (by omega)))
  registers := h.registers

theorem onlyTables_writeGate {vector : ℕ} (hv : vector < 256) (g : Gate) (t : Descriptors) :
    OnlyTables d t { t with ram := g.write (d.idt + 16 * vector) t.ram } := by
  refine ⟨fun x hx => ?_, rfl⟩
  rw [TableImage.Table] at hx
  exact g.write_outside (by omega)

theorem Holds.writeGate (hd : d.Linked) (h : Holds d spec t) {vector : ℕ} (hv : vector < 256)
    {g : Gate} {view : GateView} (hg : ∀ m a, readGate (g.write a m) a = some view) :
    Holds d (spec.setGate vector view) { t with ram := g.write (d.idt + 16 * vector) t.ram } where
  gates v hlt := by
    by_cases hvv : v = vector
    · subst hvv
      rw [hg, TableSpec.setGate_self]
    · rw [readGate_write_other g (by omega), h.gates v hlt, TableSpec.setGate_of_ne hvv]
  rsp0 := by
    have hapart := hd.idt_tss
    apply Eq.trans _ h.rsp0
    exact load64_congr fun i hi => g.write_outside (by omega)
  ist i hlow hhigh := by
    have hapart := hd.idt_tss
    rw [← h.ist i hlow hhigh]
    exact load64_congr fun j hj => g.write_outside (by omega)
  registers := h.registers

theorem Holds.setKernelStack (hd : d.Linked) (h : Holds d spec t) (stackTop : BitVec 64) :
    Holds d { spec with rsp0 := stackTop }
      { t with ram := store64 t.ram (d.tss + 4) stackTop } where
  gates v hv := by
    have hapart := hd.idt_tss
    rw [← h.gates v hv]
    exact readGate_congr fun i hi => store64_outside (by omega)
  rsp0 := load64_store64 _ _ _
  ist i hlow hhigh := by
    rw [← h.ist i hlow hhigh]
    exact load64_store64_outside (by omega)
  registers := h.registers

theorem initTask_run (hd : d.Linked) (s : Descriptors) :
    ∃ t, (initTask d).run s = .ok () t ∧ OnlyTables d s t ∧ rsp0 t.ram d.tss = d.bootStackTop ∧
      (∀ i, 1 ≤ i → i ≤ 7 → istPointer t.ram d.tss i = d.istTop i) ∧ t.registers.tss = d.tss := by
  obtain ⟨ram, hram⟩ : ∃ ram, writeTaskDescriptor d (writeTaskState d s.ram) = ram := ⟨_, rfl⟩
  obtain ⟨ram', hram'⟩ : ∃ ram', store64 ram (d.gdt + 64) (load64 ram (d.gdt + 64) ||| 1#64 <<< 41) =
    ram' := ⟨_, rfl⟩
  have hsegment : readSegment ram (d.gdt + 8 * 8) = ⟨BitVec.ofNat 64 d.tss, 103, 9, 0, true⟩ := by
    rw [← hram]
    exact readSegment_task d
  have hload : loadTask d.gdt 0x40 ram = some (⟨BitVec.ofNat 64 d.tss, 103, 9, 0, true⟩, ram') := by
    have hplace : d.gdt + (0x40 : BitVec 16).toNat / 8 * 8 = d.gdt + 8 * 8 := rfl
    rw [loadTask, hplace, hsegment, ← hram']
    rfl
  have hbase : (BitVec.ofNat 64 d.tss).toNat = d.tss := by
    have hlt := hd.below (d.tss, 104) (by simp [TableImage.statics])
    exact Nat.mod_eq_of_lt (by omega)
  have hapart : d.tss + 104 ≤ d.gdt ∨ d.gdt + 80 ≤ d.tss := by
    have h := hd.apart
    simp only [TableImage.statics, List.pairwise_cons, List.mem_cons, forall_eq_or_imp] at h
    exact h.2.1.1
  have houtside : ∀ x, x < d.gdt + 64 ∨ d.gdt + 80 ≤ x → ram' x = writeTaskState d s.ram x := by
    intro x hx
    rw [← hram', ← hram, writeTaskDescriptor]
    simp (disch := omega) only [store64_outside]
  refine ⟨{ s with ram := ram', registers := { s.registers with tss := d.tss } }, ?_, ⟨?_, rfl⟩, ?_, ?_, rfl⟩
  · rw [initTask, run_modify_bind, run_get_bind]
    simp only [hram, hload, hbase]
    rfl
  · intro x hx
    rw [TableImage.Table] at hx
    exact (houtside x (by omega)).trans (writeTaskState_outside (by omega))
  · rw [← writeTaskState_rsp0 (d := d) (m := s.ram)]
    exact load64_congr fun i hi => houtside _ (by omega)
  · intro i hlow hhigh
    rw [← writeTaskState_ist (m := s.ram) hlow hhigh]
    exact load64_congr fun j hj => houtside _ (by omega)

theorem initGates_run (hd : d.Linked) (hrsp0 : rsp0 s.ram d.tss = d.bootStackTop)
    (hist : ∀ i, 1 ≤ i → i ≤ 7 → istPointer s.ram d.tss i = d.istTop i)
    (htss : s.registers.tss = d.tss) :
    ∃ t, (initGates d).run s = .ok () t ∧ OnlyTables d s t ∧ Holds d (.withIrqs d 0) t := by
  have hapart := hd.idt_tss
  have hloop : Satisfies ((forRange 0 256 () fun vector _ => writeGate d vector (initialGate d vector)).run s)
      (fun _ t => t.registers = s.registers ∧ t.enabled = s.enabled ∧
        (∀ x, x < d.idt ∨ d.idt + 4096 ≤ x → t.ram x = s.ram x) ∧
        ∀ v < 256, readGate t.ram (d.idt + 16 * v) = some (trapGate d v)) fun _ _ => False := by
    refine forRange_satisfies (fun n _ (t : Descriptors) => t.registers = s.registers ∧ t.enabled = s.enabled ∧
      (∀ x, x < d.idt ∨ d.idt + 4096 ≤ x → t.ram x = s.ram x) ∧
      ∀ v < n, readGate t.ram (d.idt + 16 * v) = some (trapGate d v)) (Nat.zero_le 256) ?_ ?_
    · intro n _ t _ hn ⟨hregisters, henabled, hram, hgates⟩
      refine satisfies_ok.mpr ⟨hregisters, henabled, fun x hx => ?_, fun v hv => ?_⟩
      · exact (Gate.write_outside _ (by omega)).trans (hram x hx)
      · by_cases hvn : v = n
        · subst hvn
          exact initialGate_view d v
        · exact (readGate_write_other _ (by omega)).trans (hgates v (by omega))
    · exact ⟨rfl, rfl, fun _ _ => rfl, fun v hv => absurd hv (Nat.not_lt_zero v)⟩
  obtain ⟨_, t, ht, hregisters, henabled, hram, hgates⟩ := hloop.exists_ok
  refine ⟨{ t with registers := { t.registers with idt := d.idt, limit := 4095 } }, ?_, ⟨?_, henabled⟩,
    { gates := ?_, rsp0 := ?_, ist := ?_, registers := ?_ }⟩
  · rw [initGates, run_bind_ok ht]
    rfl
  · intro x hx
    rw [TableImage.Table] at hx
    exact hram x (by omega)
  · intro v hv
    have hnone : ¬ (32 ≤ v ∧ v < 32 + 0) := by omega
    change _ = some (if 32 ≤ v ∧ v < 32 + 0 then _ else trapGate d v)
    rw [if_neg hnone]
    exact hgates v hv
  · apply Eq.trans _ hrsp0
    exact load64_congr fun i hi => hram _ (by omega)
  · intro i hlow hhigh
    apply Eq.trans _ (hist i hlow hhigh)
    exact load64_congr fun j hj => hram _ (by omega)
  · change TableRegisters.mk _ _ t.registers.tss = _
    rw [hregisters, htss]

/-- One update that the assertions admit. -/
theorem installIrq_run (hd : d.Linked) (h : Holds d spec t) {vector : ℕ} (handler : BitVec 64)
    (hlow : 32 ≤ vector) (hhigh : vector < 48) :
    ∃ u, (installIrq d vector handler).run t = .ok () u ∧ OnlyTables d t u ∧
      Holds d (spec.setGate vector (gateTo handler 3 0 false)) u := by
  refine ⟨_, ?_, onlyTables_writeGate (by omega) (Gate.new handler 0x8e 3) t,
    h.writeGate hd (by omega) fun m a => readGate_new handler 3 (by decide)⟩
  rw [installIrq, run_bind_ok (run_require (by simp [hlow, hhigh]) _ _)]
  rfl

theorem withIrqs_succ (d : TableImage) (n v : ℕ) :
    ((TableSpec.withIrqs d n).setGate (32 + n) (gateTo (d.irqEntries n) 3 0 false)).gates v =
      (TableSpec.withIrqs d (n + 1)).gates v := by
  have hgates : ∀ k, (TableSpec.withIrqs d k).gates v = if 32 ≤ v ∧ v < 32 + k then
    gateTo (d.irqEntries (v - 32)) 3 0 false else trapGate d v := fun _ => rfl
  by_cases hv : v = 32 + n
  · subst hv
    rw [TableSpec.setGate_self, hgates, if_pos (by omega), Nat.add_sub_cancel_left]
  · have hiff : (32 ≤ v ∧ v < 32 + n) ↔ (32 ≤ v ∧ v < 32 + (n + 1)) := by omega
    rw [TableSpec.setGate_of_ne hv, hgates, hgates]
    simp only [hiff]

theorem installIrqs_run (hd : d.Linked) (h : Holds d (.withIrqs d 0) t) (henabled : t.enabled = false) :
    ∃ u, (installIrqs d).run t = .ok () u ∧ OnlyTables d t u ∧ Holds d (.initial d) u := by
  have hloop : Satisfies
      ((forRange 0 16 () fun irq _ => installIrq d (32 + irq) (d.irqEntries irq)).run t)
      (fun _ u => OnlyTables d t u ∧ Holds d (.withIrqs d 16) u) fun _ _ => False := by
    refine forRange_satisfies (fun n _ u => OnlyTables d t u ∧ Holds d (.withIrqs d n) u)
      (Nat.zero_le 16) ?_ ?_
    · intro n _ u _ hn ⟨honly, hu⟩
      obtain ⟨w, hw, hnext, hholds⟩ := installIrq_run hd hu (d.irqEntries n) (Nat.le_add_right 32 n)
        (by omega)
      rw [hw]
      exact satisfies_ok.mpr ⟨honly.trans hnext, hholds.congr (fun v _ => withIrqs_succ d n v) rfl⟩
    · exact ⟨.refl d t, h⟩
  obtain ⟨_, u, hu, honly, hholds⟩ := hloop.exists_ok
  refine ⟨u, ?_, honly, hholds⟩
  rw [installIrqs, run_get_bind, run_bind_ok (run_require (by rw [henabled]; rfl) _ _)]
  exact hu

/-- One update: done when its assertions hold, and else a panic that leaves the tables alone. -/
theorem perform_satisfies (hd : d.Linked) (h : Holds d spec t) (c : TableCall) :
    Satisfies ((c.perform d).run t)
      (fun _ u => c.Allowed t.enabled ∧ OnlyTables d t u ∧ Holds d (c.applyTo d spec) u)
      fun _ u => ¬ c.Allowed t.enabled ∧ u = t := by
  cases c with
  | installIrq vector handler =>
    by_cases hv : 32 ≤ vector ∧ vector < 48
    · obtain ⟨u, hu, honly, hholds⟩ := installIrq_run hd h handler hv.1 hv.2
      rw [TableCall.perform, hu]
      exact satisfies_ok.mpr ⟨hv, honly, hholds⟩
    · have hfail : (decide (32 ≤ vector) && decide (vector < 48)) = false := by
        rw [← Bool.decide_and]
        exact decide_eq_false hv
      change Satisfies ((do
        require (decide (32 ≤ vector) && decide (vector < 48)) _
        writeGate d vector (Gate.new handler 0x8e 3) : Exec Descriptors Unit).run t) _ _
      rw [hfail]
      exact satisfies_error.mpr ⟨hv, rfl⟩
  | setUserReturnGate handler =>
    cases handler with
    | some address =>
      exact satisfies_ok.mpr ⟨trivial, onlyTables_writeGate (by decide) _ t,
        h.writeGate hd (by decide) fun m a => readGate_new address 0 (by decide)⟩
    | none =>
      exact satisfies_ok.mpr ⟨trivial, onlyTables_writeGate (by decide) _ t,
        h.writeGate hd (by decide) fun m a => readGate_new d.exception255 1 (by decide)⟩
  | setKernelStack stackTop =>
    change Satisfies ((do
      require (!t.enabled) _
      require (stackTop.toNat % 16 == 0) _
      modify fun s => { s with ram := store64 s.ram (d.tss + 4) stackTop } :
        Exec Descriptors Unit).run t) _ _
    apply (satisfies_require _).bind
    · rintro _ _ ⟨rfl, henabled⟩
      apply (satisfies_require _).bind
      · rintro _ _ ⟨rfl, hmod⟩
        refine satisfies_ok.mpr ⟨⟨by simpa using henabled, by simpa using hmod⟩, ⟨fun x hx => ?_, rfl⟩,
          h.setKernelStack hd stackTop⟩
        rw [TableImage.Table] at hx
        exact store64_outside (by omega)
      · intro hmod
        exact ⟨fun hallowed => by simp [hallowed.2] at hmod, rfl⟩
    · intro henabled
      exact ⟨fun hallowed => by simp [hallowed.1] at henabled, rfl⟩

theorem started_run (hd : d.Linked) (s : Descriptors) :
    ∃ t, OnlyTables d s t ∧ Holds d (.withIrqs d 0) t ∧
      ∀ calls, (tableRun d calls).run s =
        (do installIrqs d; calls.forM (TableCall.perform d) : Exec Descriptors Unit).run t := by
  obtain ⟨t, ht, honly, hrsp0, hist, htss⟩ := initTask_run hd s
  obtain ⟨u, hu, hnext, hholds⟩ := initGates_run hd hrsp0 hist htss
  refine ⟨u, honly.trans hnext, hholds, fun calls => ?_⟩
  rw [tableRun, run_bind_ok ht, run_bind_ok hu]

theorem after_append (d : TableImage) (calls : List TableCall) (c : TableCall) :
    TableSpec.after d (calls ++ [c]) = c.applyTo d (.after d calls) := by
  rw [TableSpec.after, List.foldl_append]
  rfl

/-- A list of updates stops at the first one whose assertions fail. -/
theorem updates_satisfies (hd : d.Linked) (h : Holds d (.initial d) t) (henabled : t.enabled = false)
    (calls : List TableCall) :
    Satisfies ((calls.forM (TableCall.perform d)).run t)
      (fun _ u => (∀ c ∈ calls, c.Allowed false) ∧ OnlyTables d t u ∧ Holds d (.after d calls) u)
      fun _ u => ∃ before c after, calls = before ++ c :: after ∧ ¬ c.Allowed false ∧
        OnlyTables d t u ∧ Holds d (.after d before) u := by
  change Satisfies _ (fun _ u => (∀ c ∈ [] ++ calls, c.Allowed false) ∧ OnlyTables d t u ∧
    Holds d (.after d ([] ++ calls)) u) _
  refine forM_satisfies (fun done u => (∀ c ∈ done, c.Allowed false) ∧ OnlyTables d t u ∧
    Holds d (.after d done) u) ?_ ?_
  · intro before after c u hsplit ⟨hdone, honly, hholds⟩
    have hclosed : u.enabled = false := honly.enabled.trans henabled
    apply (perform_satisfies hd hholds c).mono
    · rintro _ w ⟨hallowed, hnext, hw⟩
      rw [hclosed] at hallowed
      refine ⟨fun e he => ?_, honly.trans hnext, by rw [after_append]; exact hw⟩
      rcases List.mem_append.mp he with he | he
      · exact hdone e he
      · exact List.mem_singleton.mp he ▸ hallowed
    · rintro _ w ⟨hrefused, rfl⟩
      rw [hclosed] at hrefused
      exact ⟨before, c, after, hsplit, hrefused, honly, hholds⟩
  · exact ⟨fun c hc => absurd hc List.not_mem_nil, .refl d t, h⟩

/-- The tables of any updates are reached from any memory. -/
theorem exists_holds (hd : d.Linked) {calls : List TableCall} (hcalls : ∀ c ∈ calls, c.Allowed false)
    (ram : Memory) : ∃ m, Holds d (.after d calls) ⟨m, ⟨d.idt, 4095, d.tss⟩, false⟩ := by
  obtain ⟨t, honly, hholds, -⟩ := started_run hd ⟨ram, ⟨0, 0, 0⟩, false⟩
  obtain ⟨u, -, hnext, hinitial⟩ := installIrqs_run hd hholds honly.enabled
  have hupdates := updates_satisfies hd hinitial (hnext.enabled.trans honly.enabled) calls
  have hrun : Satisfies ((calls.forM (TableCall.perform d)).run u)
      (fun _ w => Holds d (.after d calls) w) fun _ _ => False := by
    apply hupdates.mono
    · exact fun _ _ hw => hw.2.2
    · rintro _ _ ⟨before, c, after, hsplit, hrefused, -⟩
      exact hrefused (hcalls c (by rw [hsplit]; exact List.mem_append_right _ List.mem_cons_self))
  obtain ⟨_, w, -, hw⟩ := hrun.exists_ok
  exact ⟨w.ram, hw.gates, hw.rsp0, hw.ist, rfl⟩

/-- Whatever memory held, the tables are what they are for after the start-up and every list of
updates; the run ends early at an enabled interrupt flag or at the first update whose assertions fail,
with the tables of the updates before, and writes no other byte. -/
theorem tableRun_holds (hd : d.Linked) (s : Descriptors) (calls : List TableCall) :
    Satisfies ((tableRun d calls).run s)
      (fun _ t => s.enabled = false ∧ (∀ c ∈ calls, c.Allowed false) ∧ OnlyTables d s t ∧
        Holds d (.after d calls) t)
      fun _ t => OnlyTables d s t ∧ (s.enabled = true ∨
        ∃ before c after, calls = before ++ c :: after ∧ ¬ c.Allowed false ∧
          Holds d (.after d before) t) := by
  obtain ⟨t, honly, hholds, hrun⟩ := started_run hd s
  rw [hrun]
  cases henabled : s.enabled with
  | true =>
    have hopen : t.enabled = true := honly.enabled.trans henabled
    have hstop : (installIrqs d).run t =
        .error (.message "assertion failed: !arch::interrupts_enabled()") t := by
      rw [installIrqs, run_get_bind, EStateM.run_bind, hopen]
      rfl
    rw [EStateM.run_bind, hstop]
    exact satisfies_error.mpr ⟨honly, .inl rfl⟩
  | false =>
    have hclosed : t.enabled = false := honly.enabled.trans henabled
    obtain ⟨u, hu, hnext, hinitial⟩ := installIrqs_run hd hholds hclosed
    rw [run_bind_ok hu]
    apply (updates_satisfies hd hinitial (hnext.enabled.trans hclosed) calls).mono
    · rintro _ w ⟨hallowed, hlast, hw⟩
      exact ⟨rfl, hallowed, (honly.trans hnext).trans hlast, hw⟩
    · rintro _ w ⟨before, c, after, hsplit, hrefused, hlast, hw⟩
      exact ⟨(honly.trans hnext).trans hlast, .inr ⟨before, c, after, hsplit, hrefused, hw⟩⟩

end Tables

/-- The handler the completion gate was last given. -/
def armed (calls : List TableCall) : Option (BitVec 64) :=
  calls.foldl (fun handler c => match c with
    | .setUserReturnGate h => h
    | _ => handler) none

theorem armed_append (calls : List TableCall) (c : TableCall) :
    armed (calls ++ [c]) = match c with
      | .setUserReturnGate h => h
      | _ => armed calls := by
  rw [armed, List.foldl_append]
  rfl

/-- Every gate leads into ring 0; the ones open to CPL 3 are three traps and the armed gate. -/
theorem after_gates (d : TableImage) {calls : List TableCall} (hcalls : ∀ c ∈ calls, c.Allowed false)
    (v : ℕ) : ((TableSpec.after d calls).gates v).selector = 8 ∧
      (((TableSpec.after d calls).gates v).dpl =
        if 3 ≤ v ∧ v ≤ 5 ∨ v = 0x80 ∧ (armed calls).isSome then 3 else 0) := by
  induction calls using List.reverseRecOn with
  | nil =>
    have hnone : (armed []).isSome = false := rfl
    have hinitial : TableSpec.after d [] = .withIrqs d 16 := rfl
    rw [hinitial, hnone]
    unfold TableSpec.withIrqs trapGate
    simp only [Bool.false_eq_true, and_false, or_false]
    by_cases hirq : 32 ≤ v ∧ v < 32 + 16
    · rw [if_pos hirq, if_neg (by omega)]
      exact ⟨rfl, rfl⟩
    · rw [if_neg hirq]
      by_cases hhigh : 32 ≤ v
      · rw [if_pos hhigh, if_neg (by omega)]
        exact ⟨rfl, rfl⟩
      · rw [if_neg hhigh]
        by_cases hnmi : v = 2
        · subst hnmi
          exact ⟨rfl, rfl⟩
        · rw [if_neg hnmi]
          by_cases hdouble : v = 8
          · subst hdouble
            exact ⟨rfl, rfl⟩
          · rw [if_neg hdouble]
            exact ⟨rfl, rfl⟩
  | append_singleton calls c ih =>
    obtain ⟨hselector, hdpl⟩ := ih fun e he => hcalls e (List.mem_append_left _ he)
    have hallowed := hcalls c (List.mem_append_right _ (List.mem_singleton_self c))
    rw [after_append, armed_append]
    cases c with
    | installIrq vector handler =>
      have hrange : 32 ≤ vector ∧ vector < 48 := hallowed
      by_cases hv : v = vector
      · subst hv
        simp only [TableCall.applyTo, TableSpec.setGate_self]
        rw [if_neg (by omega)]
        exact ⟨rfl, rfl⟩
      · simp only [TableCall.applyTo, TableSpec.setGate_of_ne hv]
        exact ⟨hselector, hdpl⟩
    | setUserReturnGate handler =>
      by_cases hv : v = 0x80
      · subst hv
        cases handler with
        | some address => exact ⟨rfl, rfl⟩
        | none => exact ⟨rfl, rfl⟩
      · have hother : (TableCall.applyTo d (.after d calls) (.setUserReturnGate handler)).gates v =
            (TableSpec.after d calls).gates v := by
          cases handler with
          | some address => exact TableSpec.setGate_of_ne hv _ _
          | none => exact TableSpec.setGate_of_ne hv _ _
        rw [hother]
        simp only [hv, false_and, or_false] at hdpl ⊢
        exact ⟨hselector, hdpl⟩
    | setKernelStack stackTop => exact ⟨hselector, hdpl⟩

/-- The updates the kernel makes behind `interrupt::init`. -/
def TableCall.Later : TableCall → Prop
  | installIrq _ _ => False
  | setUserReturnGate _ => True
  | setKernelStack stackTop => stackTop.toNat % 16 = 0

theorem TableCall.Later.allowed {c : TableCall} (h : c.Later) : c.Allowed false := by
  cases c with
  | installIrq vector handler => exact h.elim
  | setUserReturnGate handler => trivial
  | setKernelStack stackTop => exact ⟨rfl, h⟩

/-- The gates stay those of the start-up, apart from the armed one. -/
theorem after_gates_later (d : TableImage) {calls : List TableCall} (hcalls : ∀ c ∈ calls, c.Later)
    {v : ℕ} (hv : v ≠ 0x80 ∨ armed calls = none) :
    (TableSpec.after d calls).gates v = (TableSpec.initial d).gates v := by
  induction calls using List.reverseRecOn with
  | nil => rfl
  | append_singleton calls c ih =>
    have hbefore := ih fun e he => hcalls e (List.mem_append_left _ he)
    have hlater := hcalls c (List.mem_append_right _ (List.mem_singleton_self c))
    rw [after_append]
    rw [armed_append] at hv
    cases c with
    | installIrq vector handler => exact hlater.elim
    | setUserReturnGate handler =>
      by_cases hgate : v = 0x80
      · obtain rfl : handler = none := hv.resolve_left (not_not.mpr hgate)
        subst hgate
        rfl
      · rw [← hbefore (.inl hgate)]
        cases handler with
        | some address => exact TableSpec.setGate_of_ne hgate _ _
        | none => exact TableSpec.setGate_of_ne hgate _ _
    | setKernelStack stackTop => exact hbefore hv

/-- The registers the start-up loads. -/
def TableImage.loaded (d : TableImage) : TableRegisters := ⟨d.idt, 4095, d.tss⟩

/-- After every list of updates INT n at CPL 3 gets through exactly the breakpoint, overflow and bounds
vectors and, while it is armed, the completion gate; it goes to the handler of that vector in ring 0. -/
theorem user_vectors {calls : List TableCall} (hcalls : ∀ c ∈ calls, c.Allowed false) {s : X86.Cpu}
    {enabled : Bool} (hs : Holds d (.after d calls) ⟨s.ram, d.loaded, enabled⟩) (hcpl : s.cs &&& 3 = 3)
    {v : ℕ} (hv : v < 256) :
    ((deliver d.loaded .software v s).isSome ↔ v = 3 ∨ v = 4 ∨ v = 5 ∨ v = 0x80 ∧ (armed calls).isSome) ∧
      ∀ t, deliver d.loaded .software v s = some t →
        t.cs = 8 ∧ t.rip = ((TableSpec.after d calls).gates v).handler := by
  obtain ⟨hselector, hdpl⟩ := after_gates d hcalls v
  have hlimit : 16 * v + 15 ≤ d.loaded.limit := by
    change 16 * v + 15 ≤ 4095
    omega
  constructor
  · rw [deliver_software_isSome hlimit (hs.gates v hv) hselector, hcpl, hdpl, decide_eq_true_iff]
    cases (armed calls).isSome with
    | true =>
      simp only [and_true]
      by_cases hdoor : 3 ≤ v ∧ v ≤ 5 ∨ v = 0x80
      · rw [if_pos hdoor]
        exact iff_of_true (by decide) (by omega)
      · rw [if_neg hdoor]
        exact iff_of_false (by decide) (by omega)
    | false =>
      simp only [Bool.false_eq_true, and_false, or_false]
      by_cases hdoor : 3 ≤ v ∧ v ≤ 5
      · rw [if_pos hdoor]
        exact iff_of_true (by decide) (by omega)
      · rw [if_neg hdoor]
        exact iff_of_false (by decide) (by omega)
  · intro t ht
    obtain ⟨-, gate, hgate, -, -, rfl⟩ := deliver_some ht
    obtain rfl : (TableSpec.after d calls).gates v = gate := Option.some.inj ((hs.gates v hv).symm.trans hgate)
    exact enterGate_eq _ _ _ s

/-- Statics laid out one after the other. -/
def sampleTables : TableImage where
  idt := 0xffff800000110000
  tss := 0xffff800000112000
  gdt := 0xffff800000113000
  exceptionStack := 0xffff800000120000
  doubleFaultStack := 0xffff800000130000
  irqStack := 0xffff800000140000
  bootStackTop := 0xffff800000160000
  exceptionEntries v := BitVec.ofNat 64 (0xffff800000100000 + 16 * v)
  irqEntries v := BitVec.ofNat 64 (0xffff800000100400 + 16 * v)
  exception255 := 0xffff800000100800

theorem sampleTables_linked : sampleTables.Linked where
  apart := by decide
  below := by decide
  aligned := by decide

/-- Memory full of ones and registers that hold nothing of use. -/
def sampleDescriptors : Descriptors := ⟨fun _ => 0xff, ⟨0, 0, 0⟩, false⟩

/-- The calls around the user demonstration, left at its start. -/
def sampleCalls : List TableCall :=
  [.setKernelStack 0xffff800000170000, .setUserReturnGate (some 0xffff800000100900)]

theorem tableRun_holds_sample :
    Satisfies ((tableRun sampleTables sampleCalls).run sampleDescriptors)
      (fun _ t => sampleDescriptors.enabled = false ∧ (∀ c ∈ sampleCalls, c.Allowed false) ∧
        OnlyTables sampleTables sampleDescriptors t ∧ Holds sampleTables (.after sampleTables sampleCalls) t)
      fun _ t => OnlyTables sampleTables sampleDescriptors t ∧ (sampleDescriptors.enabled = true ∨
        ∃ before c after, sampleCalls = before ++ c :: after ∧ ¬ c.Allowed false ∧
          Holds sampleTables (.after sampleTables before) t) :=
  tableRun_holds sampleTables_linked sampleDescriptors sampleCalls

theorem sampleCalls_later : ∀ c ∈ sampleCalls, c.Later := by
  simp [sampleCalls, TableCall.Later]

/-- A state at CPL 3 above the memory `m`. -/
def userCaller (m : Memory) : X86.Cpu where
  reg _ := 0x9fff00
  rip := 0x800000
  flags := 0x402
  cs := 0x2b
  ss := 0x33
  ds := 0x33
  es := 0x33
  fs := 0
  gs := 0
  sysenterCs := 8
  sysenterEsp := 0
  sysenterEip := 0
  ram := m

theorem user_vectors_sample : ∃ m, (deliver sampleTables.loaded .software 0x80 (userCaller m)).isSome = true ∧
    (deliver sampleTables.loaded .software 14 (userCaller m)).isSome = false := by
  have hcalls : ∀ c ∈ sampleCalls, c.Allowed false := fun c hc => (sampleCalls_later c hc).allowed
  obtain ⟨m, hm⟩ := exists_holds sampleTables_linked hcalls fun _ => 0xff
  have hcpl : (userCaller m).cs &&& 3 = 3 := (show (0x2b : BitVec 16) &&& 3 = 3 by decide)
  have hgate := (user_vectors hcalls (s := userCaller m) hm hcpl (show 0x80 < 256 by decide)).1
  have hfault := (user_vectors hcalls (s := userCaller m) hm hcpl (show 14 < 256 by decide)).1
  refine ⟨m, hgate.mpr (.inr (.inr (.inr ⟨rfl, rfl⟩))), ?_⟩
  rw [← Bool.not_eq_true, hfault]
  decide

end MikoOS.Trap
