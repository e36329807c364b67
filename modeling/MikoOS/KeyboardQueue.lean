import MikoOS.Keyboard

/-!
# The keyboard queue as a bounded list

`ByteQueue` under any interleaving of `push` and `pop`, whoever calls them. Next to the queue a run
keeps the bytes pushed while there was room and the bytes popped; the queue holds what the first has
beyond the second. The counter of dropped bytes is a word: it wraps in the release profile, and the
dev profile panics instead.
-/

namespace MikoOS.Keyboard

open Rust

inductive QueueOp
  | push (byte : BitVec 8)
  | pop

/-- A queue in use, with the bytes pushed below the capacity and the bytes popped so far. -/
structure QueueRun where
  queue : ByteQueue
  accepted : List (BitVec 8)
  popped : List (BitVec 8)

def QueueRun.initial : QueueRun := ⟨.new, [], []⟩

def onRun {α : Type} (x : Exec ByteQueue α) : Exec QueueRun α :=
  zoom QueueRun.queue (fun queue r => { r with queue := queue }) x

def queueOp (p : Profile) : QueueOp → Exec QueueRun Unit
  | .push byte => do
    let length := (← get).queue.length
    onRun (push p byte)
    if length < queueCapacity then modify fun r => { r with accepted := r.accepted ++ [byte] }
  | .pop => do
    match ← onRun (pop p) with
    | none => return ()
    | some byte => modify fun r => { r with popped := r.popped ++ [byte] }

/-- First in, first out: what was accepted is what was popped and what is queued, in order. -/
structure QueueRun.Fifo (r : QueueRun) : Prop where
  word : r.queue.dropped < 2 ^ 64
  holds : ∃ bytes, r.queue.Holds bytes r.queue.dropped r.queue.errors ∧
    r.accepted = r.popped ++ bytes

/-- A push that would count the `2 ^ 64`-th lost byte in the profile that checks additions. -/
def Overflows (p : Profile) (queue : ByteQueue) : Prop := p = .dev ∧ queue.dropped = 2 ^ 64 - 1

instance (p : Profile) (queue : ByteQueue) : Decidable (Overflows p queue) := by
  unfold Overflows
  infer_instance

section Steps

variable {p : Profile} {queue : ByteQueue} {r : QueueRun} {bytes : List (BitVec 8)}

theorem push_full_run (hfull : queue.length = queueCapacity) (hword : queue.dropped < 2 ^ 64)
    (byte : BitVec 8) : (push p byte).run queue =
      if Overflows p queue then .error .overflow queue
      else .ok () { queue with dropped := (queue.dropped + 1) % 2 ^ 64 } := by
  rw [push, run_get_bind, if_pos hfull]
  by_cases hover : Overflows p queue
  · obtain ⟨rfl, hlast⟩ := hover
    rw [if_pos ⟨rfl, hlast⟩, hlast]
    rfl
  · rw [if_neg hover]
    have hcount : Countable p (queue.dropped + 1) := by
      cases p with
      | release => exact .inl rfl
      | dev =>
        right
        have hne : queue.dropped ≠ 2 ^ 64 - 1 := fun heq => hover ⟨rfl, heq⟩
        omega
    have hadd := run_count (n := queue.dropped) p hcount queue
    rw [Nat.mod_eq_of_lt hword] at hadd
    rw [run_bind_ok hadd, EStateM.run_modify]

theorem pop_run (h : queue.Holds bytes queue.dropped queue.errors) :
    ∃ next, (pop p).run queue = .ok bytes.head? next ∧
      next.Holds bytes.tail queue.dropped queue.errors := by
  cases bytes with
  | nil => exact ⟨queue, h.pop_nil p, h⟩
  | cons byte bytes =>
    obtain ⟨o, next, hrun, rfl, hnext⟩ := (h.pop_cons p).exists_ok
    exact ⟨next, hrun, hnext⟩

theorem ByteQueue.Holds.own {dropped errors : ℕ} (h : queue.Holds bytes dropped errors) :
    queue.Holds bytes queue.dropped queue.errors := by
  rw [h.dropped, h.errors]
  exact h

theorem push_full_spec (h : queue.Holds bytes queue.dropped queue.errors)
    (hfull : queue.length = queueCapacity) (hword : queue.dropped < 2 ^ 64) (byte : BitVec 8) :
    Satisfies ((push p byte).run queue)
      (fun _ next => next.Holds bytes next.dropped next.errors ∧ next.dropped < 2 ^ 64)
      fun e next => e = .overflow ∧ next = queue ∧ Overflows p queue := by
  rw [push_full_run hfull hword]
  by_cases hover : Overflows p queue
  · rw [if_pos hover]
    exact satisfies_error.mpr ⟨rfl, rfl, hover⟩
  · rw [if_neg hover]
    apply satisfies_ok.mpr
    exact ⟨⟨h.head_lt, h.length, h.length_le, h.contents, rfl, rfl⟩, Nat.mod_lt _ (by decide)⟩

/-- One push or pop. -/
theorem QueueRun.Fifo.step (h : r.Fifo) (op : QueueOp) :
    Satisfies ((queueOp p op).run r) (fun _ t => t.Fifo)
      fun e t => e = .overflow ∧ t = r ∧ r.queue.length = queueCapacity ∧ Overflows p r.queue := by
  obtain ⟨bytes, hholds, haccepted⟩ := h.holds
  cases op with
  | push byte =>
    unfold queueOp
    rw [run_get_bind]
    by_cases hroom : r.queue.length < queueCapacity
    · have hpush : Satisfies ((onRun (push p byte)).run r) _ _ :=
        (hholds.push p (hholds.length ▸ hroom) byte).zoom
      apply (hpush.mono (fun _ _ h => h) fun _ _ ⟨_, hfalse, _⟩ => hfalse.elim).bind
      intro _ t ht
      obtain ⟨queue, hqueue, rfl⟩ := ht
      rw [if_pos hroom, EStateM.run_modify, satisfies_ok]
      constructor
      · exact hqueue.dropped ▸ h.word
      · exact ⟨bytes ++ [byte], hqueue.own, by rw [haccepted, List.append_assoc]⟩
    · have hfull : r.queue.length = queueCapacity := by
        have hlength := hholds.length
        have hle := hholds.length_le
        omega
      have hpush : Satisfies ((onRun (push p byte)).run r) _ _ :=
        (push_full_spec hholds hfull h.word byte).zoom
      apply (hpush.mono (fun _ _ h => h) ?_).bind
      · intro _ t ht
        obtain ⟨queue, ⟨hqueue, hword⟩, rfl⟩ := ht
        rw [if_neg hroom]
        exact satisfies_ok.mpr ⟨hword, bytes, hqueue, haccepted⟩
      · intro e t ht
        obtain ⟨queue, ⟨he, rfl, hover⟩, rfl⟩ := ht
        exact ⟨he, rfl, hfull, hover⟩
  | pop =>
    obtain ⟨next, hrun, hnext⟩ := pop_run (p := p) hholds
    have hpop : (onRun (pop p)).run r = .ok bytes.head? { r with queue := next } := run_zoom_ok hrun
    unfold queueOp
    dsimp only
    rw [run_bind_ok hpop]
    have hword : next.dropped < 2 ^ 64 := hnext.dropped ▸ h.word
    cases bytes with
    | nil => exact satisfies_ok.mpr ⟨hword, [], hnext.own, haccepted⟩
    | cons byte bytes =>
      apply satisfies_ok.mpr
      exact ⟨hword, bytes, hnext.own, by rw [haccepted, List.append_assoc]; rfl⟩

end Steps

/-- What the queue of `r` shows, and what the next call does. -/
structure Behaves (p : Profile) (r : QueueRun) : Prop where
  head_lt : r.queue.head < queueCapacity
  length_le : r.queue.length ≤ queueCapacity
  fifo : r.popped ++ RingBuffer.contents r.queue.bytes r.queue.head r.queue.length = r.accepted
  push_full : ∀ byte, r.queue.length = queueCapacity → (push p byte).run r.queue =
    if Overflows p r.queue then .error .overflow r.queue
    else .ok () { r.queue with dropped := (r.queue.dropped + 1) % 2 ^ 64 }
  pop : ∃ o next, (pop p).run r.queue = .ok o next ∧ (o = none ↔ r.queue.length = 0) ∧
    next.dropped = r.queue.dropped ∧ next.errors = r.queue.errors

theorem QueueRun.Fifo.behaves {r : QueueRun} (h : r.Fifo) (p : Profile) : Behaves p r := by
  obtain ⟨bytes, hholds, haccepted⟩ := h.holds
  obtain ⟨next, hrun, hnext⟩ := pop_run (p := p) hholds
  refine {
    head_lt := hholds.head_lt
    length_le := hholds.length ▸ hholds.length_le
    fifo := by rw [hholds.contents, haccepted]
    push_full := fun byte hfull => push_full_run hfull h.word byte
    pop := ⟨_, next, hrun, ?_, hnext.dropped, hnext.errors⟩ }
  rw [hholds.length, List.head?_eq_none_iff, List.length_eq_zero_iff]

theorem QueueRun.fifo_initial : QueueRun.initial.Fifo := ⟨by decide, [], ByteQueue.holds_new, rfl⟩

/-- Every interleaving of pushes and pops is that of a list bounded at 64. It is cut short by nothing
but the count of the `2 ^ 64`-th lost byte in the dev profile; the release profile wraps there. -/
theorem queue_fifo (p : Profile) (ops : List QueueOp) :
    Satisfies ((ops.forM (queueOp p)).run .initial) (fun _ r => Behaves p r)
      fun e r => e = .overflow ∧ r.queue.length = queueCapacity ∧ Overflows p r.queue ∧
        Behaves p r := by
  have hrun : Satisfies ((ops.forM (queueOp p)).run .initial) (fun _ r => r.Fifo)
      fun e r => e = .overflow ∧ r.queue.length = queueCapacity ∧ Overflows p r.queue ∧
        Behaves p r := by
    apply @forM_satisfies _ _ _ (fun _ r => QueueRun.Fifo r) _ [] ops _ _ QueueRun.fifo_initial
    intro _ _ op r _ hr
    apply (hr.step op).mono (fun _ _ h => h)
    intro e t ht
    obtain ⟨he, rfl, hfull, hover⟩ := ht
    exact ⟨he, hfull, hover, hr.behaves p⟩
  exact hrun.mono (fun _ r hr => hr.behaves p) fun _ _ h => h

/-- A release kernel that has pushed `n` bytes and popped none. -/
theorem run_pushes (n : ℕ) : Satisfies (((List.replicate n (.push 0)).forM (queueOp .release)).run
    .initial) (fun _ r => r.queue.Holds (List.replicate (min n queueCapacity) 0)
      ((n - queueCapacity) % 2 ^ 64) 0) fun _ _ => False := by
  have hinitial : QueueRun.initial.queue.Holds (List.replicate (min 0 queueCapacity) 0)
      ((0 - queueCapacity) % 2 ^ 64) 0 := ByteQueue.holds_new
  have hrun := @forM_satisfies _ _ (queueOp .release) (fun before r => r.queue.Holds
      (List.replicate (min before.length queueCapacity) 0)
      ((before.length - queueCapacity) % 2 ^ 64) 0) (fun _ _ => False) []
      (List.replicate n (.push 0)) ?_ .initial hinitial
  · rw [List.nil_append, List.length_replicate] at hrun
    exact hrun
  · intro before after op r hsplit hr
    obtain rfl : op = .push 0 := by
      have hmem : op ∈ List.replicate n (QueueOp.push 0) := by
        rw [← List.nil_append (List.replicate n _), hsplit]
        exact List.mem_append_right _ List.mem_cons_self
      exact List.eq_of_mem_replicate hmem
    rw [List.length_append, List.length_singleton]
    unfold queueOp
    rw [run_get_bind]
    have hlength : r.queue.length = min before.length queueCapacity := by
      rw [hr.length, List.length_replicate]
    by_cases hroom : before.length < queueCapacity
    · have hpush : Satisfies ((onRun (push .release 0)).run r) _ _ :=
        (hr.push .release (by rw [List.length_replicate]; omega) 0).zoom
      apply (hpush.mono (fun _ _ h => h) fun _ _ ⟨_, hfalse, _⟩ => hfalse).bind
      intro _ t ht
      obtain ⟨queue, hqueue, rfl⟩ := ht
      rw [if_pos (by omega), EStateM.run_modify, satisfies_ok]
      have hmin : min (before.length + 1) queueCapacity = min before.length queueCapacity + 1 := by omega
      have hzero : before.length + 1 - queueCapacity = before.length - queueCapacity := by omega
      rw [hmin, hzero, List.replicate_succ']
      exact hqueue
    · have hpush : Satisfies ((onRun (push .release 0)).run r) _ _ :=
        (hr.push_full .release (by rw [List.length_replicate]; omega) (.inl rfl) 0).zoom
      apply (hpush.mono (fun _ _ h => h) fun _ _ ⟨_, hfalse, _⟩ => hfalse).bind
      intro _ t ht
      obtain ⟨queue, hqueue, rfl⟩ := ht
      rw [if_neg (by omega)]
      apply satisfies_ok.mpr
      have hmin : min (before.length + 1) queueCapacity = min before.length queueCapacity := by omega
      have hnext : before.length + 1 - queueCapacity = before.length - queueCapacity + 1 := by omega
      rw [hmin, hnext]
      exact hqueue

/-- After `2 ^ 64 - 1` lost bytes the next one sets the counter to zero. -/
theorem dropped_wraps : ¬∀ (ops : List QueueOp) r, (ops.forM (queueOp .release)).run .initial = .ok () r →
    r.queue.length = queueCapacity → ∀ byte next, (push .release byte).run r.queue = .ok () next →
      next.dropped = r.queue.dropped + 1 := by
  intro h
  -- the number of pushes stays a variable: it must not be evaluated
  obtain ⟨n, hn⟩ : ∃ n, n = queueCapacity + (2 ^ 64 - 1) := ⟨_, rfl⟩
  obtain ⟨_, r, hrun, hr⟩ := (run_pushes n).exists_ok
  have hfull : r.queue.length = queueCapacity := by
    rw [hr.length, List.length_replicate, hn]
    exact Nat.min_eq_right (Nat.le_add_right _ _)
  have hdropped : r.queue.dropped = 2 ^ 64 - 1 := by
    rw [hr.dropped, hn, Nat.add_sub_cancel_left]
    exact Nat.mod_eq_of_lt (by omega)
  have hpush := push_full_run (p := .release) hfull (by omega) 0
  rw [if_neg (by simp [Overflows])] at hpush
  have hnext := h _ r hrun hfull 0 _ hpush
  dsimp only at hnext
  rw [hdropped] at hnext
  omega

end MikoOS.Keyboard
