import MikoOS.Library.Profiles
import MikoOS.Library.RingBuffer

/-!
# The keyboard queue between IRQ1 and the receiving loop

`keyboard.rs`: the interrupt handler reads the 8042 and queues the byte, the loop of `run` drains
the queue, reports what was lost and opens the next window. A window is the list of IRQ1 deliveries
between STI and CLI, each with the status and data byte the controller shows. `Received` relates the
queue to the deliveries of the current window: its first 64 good bytes in order, and the two
counters, which are 64-bit words.
-/

namespace MikoOS.Keyboard

open Rust

def outputFull : BitVec 8 := 1
def auxiliary : BitVec 8 := 1 <<< 5
def badData : BitVec 8 := (1 <<< 6) ||| (1 <<< 7)
def queueCapacity : ℕ := 64

instance : NeZero queueCapacity := ⟨by decide⟩

structure ByteQueue where
  bytes : Vector (BitVec 8) queueCapacity
  head : ℕ
  length : ℕ
  dropped : ℕ
  errors : ℕ

def ByteQueue.new : ByteQueue := ⟨Vector.replicate queueCapacity 0, 0, 0, 0, 0⟩

/-- The slot `position % QUEUE_CAPACITY` set to `byte`. -/
def ByteQueue.store (queue : ByteQueue) (position : ℕ) (byte : BitVec 8) : ByteQueue :=
  { queue with bytes :=
      queue.bytes.set (position % queueCapacity) byte (Nat.mod_lt _ (NeZero.pos queueCapacity)) }

def push (p : Profile) (byte : BitVec 8) : Exec ByteQueue Unit := do
  let queue ← get
  if queue.length = queueCapacity then
    let dropped ← p.add queue.dropped 1
    modify fun queue => { queue with dropped := dropped }
  else
    let position ← p.add queue.head queue.length
    modify fun queue => queue.store position byte
    let length ← p.add queue.length 1
    modify fun queue => { queue with length := length }

def pop (p : Profile) : Exec ByteQueue (Option (BitVec 8)) := do
  let queue ← get
  if queue.length = 0 then return none
  let byte ← expect queue.bytes[queue.head]? "index out of bounds"
  let next ← p.add queue.head 1
  modify fun queue => { queue with head := next % queueCapacity }
  let length ← p.sub queue.length 1
  modify fun queue => { queue with length := length }
  return some byte

/-- What the two ports show when IRQ1 is delivered. -/
structure Delivery where
  status : BitVec 8
  data : BitVec 8

def countError (p : Profile) : Exec ByteQueue Unit := do
  let errors ← p.add (← get).errors 1
  modify fun queue => { queue with errors := errors }

/-- The data port is read only when the output buffer is full. -/
def onInterrupt (p : Profile) (delivery : Delivery) : Exec ByteQueue Unit :=
  if delivery.status &&& outputFull = 0 then countError p
  else if delivery.status &&& (auxiliary ||| badData) ≠ 0 then countError p
  else push p delivery.data

/-- The interrupt side only panics on an overflow of the unchecked additions. -/
theorem onInterrupt_stop (p : Profile) (delivery : Delivery) (queue : ByteQueue) :
    Satisfies ((onInterrupt p delivery).run queue) (fun _ _ => True)
      fun e _ => p = .dev ∧ e = .overflow := by
  have hadd : ∀ (a b : ℕ) (f : ℕ → Exec ByteQueue Unit) (s : ByteQueue),
      (∀ n, Satisfies ((f n).run s) (fun _ _ => True) fun e _ => p = .dev ∧ e = .overflow) →
      Satisfies ((p.add a b >>= f).run s) (fun _ _ => True) fun e _ => p = .dev ∧ e = .overflow := by
    intro a b f s hf
    apply (satisfies_add p a b fun hp => ⟨hp, rfl⟩).bind
    rintro n t rfl
    exact hf n
  have herror : Satisfies ((countError p).run queue) (fun _ _ => True)
      fun e _ => p = .dev ∧ e = .overflow := by
    rw [countError, run_get_bind]
    apply hadd
    intro n
    exact satisfies_ok.mpr trivial
  unfold onInterrupt
  split
  · exact herror
  · split
    · exact herror
    · rw [push, run_get_bind]
      split
      · apply hadd
        intro n
        exact satisfies_ok.mpr trivial
      · apply hadd
        intro n
        rw [run_modify_bind]
        apply hadd
        intro m
        exact satisfies_ok.mpr trivial

/-- The two lines `run` prints: a scan byte, or the totals of lost input. -/
inductive Line
  | scan (byte : BitVec 8)
  | lost (dropped errors : ℕ)
  deriving DecidableEq, Repr

structure Receiver where
  queue : ByteQueue
  printed : List Line

def onQueue {α : Type} (x : Exec ByteQueue α) : Exec Receiver α :=
  zoom Receiver.queue (fun queue r => { r with queue := queue }) x

def kprint (line : Line) : Exec Receiver Unit :=
  modify fun r => { r with printed := r.printed ++ [line] }

/-- The body of the loop up to the call of `wait`; a full queue is empty after 65 tests. -/
def consume (p : Profile) : Exec Receiver Unit := do
  whileSome (onQueue (pop p)) (fun byte => kprint (.scan byte)) (queueCapacity + 1)
  let queue := (← get).queue
  if queue.dropped ≠ 0 ∨ queue.errors ≠ 0 then
    kprint (.lost queue.dropped queue.errors)
    modify fun r => { r with queue := { r.queue with dropped := 0, errors := 0 } }

/-- `run` up to the call of `wait` that follows the given windows. -/
def run (p : Profile) : List (List Delivery) → Exec Receiver Unit
  | [] => consume p
  | window :: windows => do
    consume p
    onQueue (window.forM (onInterrupt p))
    run p windows

/-- `queue` holds `bytes`, oldest first, and the two totals. -/
structure ByteQueue.Holds (queue : ByteQueue) (bytes : List (BitVec 8)) (dropped errors : ℕ) :
    Prop where
  head_lt : queue.head < queueCapacity
  length : queue.length = bytes.length
  length_le : bytes.length ≤ queueCapacity
  contents : RingBuffer.contents queue.bytes queue.head queue.length = bytes
  dropped : queue.dropped = dropped
  errors : queue.errors = errors

/-- A counter of 64 bits that the profile lets reach `n`. -/
def Countable (p : Profile) (n : ℕ) : Prop := p = .release ∨ n < 2 ^ 64

theorem run_count (p : Profile) {σ : Type} {n : ℕ} (h : Countable p (n + 1)) (s : σ) :
    (p.add (n % 2 ^ 64) 1 : Exec σ ℕ).run s = .ok ((n + 1) % 2 ^ 64) s := by
  rcases h with rfl | hlt
  · by_cases hsum : n % 2 ^ 64 + 1 < 2 ^ 64
    · rw [run_add .release hsum]
      congr 1
      omega
    · rw [Profile.add, if_neg hsum]
      change EStateM.Result.ok _ s = _
      congr 1
      omega
  · have hn : n % 2 ^ 64 = n := Nat.mod_eq_of_lt (by omega)
    rw [hn, run_add p hlt, Nat.mod_eq_of_lt hlt]

namespace ByteQueue

variable {queue : ByteQueue} {bytes : List (BitVec 8)} {dropped errors : ℕ}

theorem holds_new : ByteQueue.new.Holds [] 0 0 where
  head_lt := by decide
  length := rfl
  length_le := Nat.zero_le _
  contents := rfl
  dropped := rfl
  errors := rfl

theorem Holds.push (p : Profile) (h : queue.Holds bytes dropped errors)
    (hroom : bytes.length < queueCapacity) (byte : BitVec 8) :
    Satisfies ((Keyboard.push p byte).run queue)
      (fun _ t => t.Holds (bytes ++ [byte]) dropped errors) fun _ _ => False := by
  have hhead := h.head_lt
  have hlength := h.length
  rw [queueCapacity] at hhead hroom
  rw [Keyboard.push, run_get_bind, if_neg (by rw [hlength, queueCapacity]; omega),
    run_bind_ok (run_add p (by omega) _), run_modify_bind, run_bind_ok (run_add p (by omega) _),
    EStateM.run_modify, satisfies_ok]
  refine {
    head_lt := h.head_lt
    length := by simp [hlength]
    length_le := by simp [queueCapacity]; omega
    contents := ?_
    dropped := h.dropped
    errors := h.errors }
  have hset := RingBuffer.contents_set queue.bytes queue.head queue.length
    (by rw [hlength]; exact hroom) (Nat.mod_lt _ (NeZero.pos queueCapacity)) rfl byte
  rwa [h.contents] at hset

theorem Holds.push_full (p : Profile) {n : ℕ} (h : queue.Holds bytes (n % 2 ^ 64) errors)
    (hfull : bytes.length = queueCapacity) (hcount : Countable p (n + 1)) (byte : BitVec 8) :
    Satisfies ((Keyboard.push p byte).run queue)
      (fun _ t => t.Holds bytes ((n + 1) % 2 ^ 64) errors) fun _ _ => False := by
  rw [Keyboard.push, run_get_bind, if_pos (h.length.trans hfull), h.dropped,
    run_bind_ok (run_count p hcount _), EStateM.run_modify, satisfies_ok]
  exact ⟨h.head_lt, h.length, h.length_le, h.contents, rfl, h.errors⟩

theorem Holds.countError (p : Profile) {n : ℕ} (h : queue.Holds bytes dropped (n % 2 ^ 64))
    (hcount : Countable p (n + 1)) :
    Satisfies ((Keyboard.countError p).run queue)
      (fun _ t => t.Holds bytes dropped ((n + 1) % 2 ^ 64)) fun _ _ => False := by
  rw [Keyboard.countError, run_get_bind, h.errors, run_bind_ok (run_count p hcount _),
    EStateM.run_modify, satisfies_ok]
  exact ⟨h.head_lt, h.length, h.length_le, h.contents, h.dropped, rfl⟩

theorem Holds.pop_nil (p : Profile) (h : queue.Holds [] dropped errors) :
    (Keyboard.pop p).run queue = .ok none queue := by
  have hlength : queue.length = 0 := h.length
  rw [Keyboard.pop, run_get_bind, if_pos hlength]
  rfl

theorem Holds.pop_cons (p : Profile) {byte : BitVec 8}
    (h : queue.Holds (byte :: bytes) dropped errors) :
    Satisfies ((Keyboard.pop p).run queue)
      (fun o t => o = some byte ∧ t.Holds bytes dropped errors) fun _ _ => False := by
  have hhead := h.head_lt
  have hlength := h.length
  have hle := h.length_le
  have hcontents := h.contents
  rw [List.length_cons] at hlength hle
  rw [hlength, RingBuffer.contents_succ, List.cons.injEq] at hcontents
  have hbyte : queue.bytes[queue.head]? = some byte := by
    rw [Vector.getElem?_eq_getElem hhead, ← hcontents.1]
    congr 1
    simp only [Vector.get_eq_getElem, Fin.val_ofNat, Nat.mod_eq_of_lt hhead]
  rw [queueCapacity] at hhead hle
  rw [Keyboard.pop, run_get_bind, if_neg (by omega), run_bind_ok (run_expect hbyte _ _),
    run_bind_ok (run_add p (by omega) _), run_modify_bind, run_bind_ok (run_sub p (by omega) _),
    run_modify_bind, EStateM.run_pure, satisfies_ok]
  refine ⟨rfl, {
    head_lt := Nat.mod_lt _ (by decide)
    length := by simp [hlength]
    length_le := by rw [queueCapacity]; omega
    contents := ?_
    dropped := h.dropped
    errors := h.errors }⟩
  simp only [hlength, Nat.add_sub_cancel]
  exact hcontents.2

end ByteQueue

/-- The byte counts as input: the buffer is full, neither auxiliary nor bad. -/
def Delivery.Good (delivery : Delivery) : Prop :=
  delivery.status &&& outputFull ≠ 0 ∧ delivery.status &&& (auxiliary ||| badData) = 0

instance (delivery : Delivery) : Decidable delivery.Good := inferInstanceAs (Decidable (_ ∧ _))

def scanBytes (window : List Delivery) : List (BitVec 8) :=
  (window.filter fun delivery => decide delivery.Good).map Delivery.data

/-- The good bytes of a window for which the queue has no room. -/
def droppedTotal (window : List Delivery) : ℕ := (scanBytes window).length - queueCapacity

def errorTotal (window : List Delivery) : ℕ :=
  (window.filter fun delivery => decide ¬ delivery.Good).length

theorem onInterrupt_eq (p : Profile) (delivery : Delivery) :
    onInterrupt p delivery = if delivery.Good then push p delivery.data else countError p := by
  unfold onInterrupt
  by_cases hfull : delivery.status &&& outputFull = 0
  · have hbad : ¬ delivery.Good := fun h => h.1 hfull
    rw [if_pos hfull, if_neg hbad]
  · by_cases hclean : delivery.status &&& (auxiliary ||| badData) = 0
    · have hgood : delivery.Good := ⟨hfull, hclean⟩
      rw [if_neg hfull, if_neg (not_not.mpr hclean), if_pos hgood]
    · have hbad : ¬ delivery.Good := fun h => hclean h.2
      rw [if_neg hfull, if_pos hclean, if_neg hbad]

theorem scanBytes_append (window : List Delivery) (delivery : Delivery) :
    scanBytes (window ++ [delivery]) =
      scanBytes window ++ if delivery.Good then [delivery.data] else [] := by
  rw [scanBytes, scanBytes, List.filter_append, List.map_append]
  by_cases h : delivery.Good
  · simp [h]
  · simp [h]

theorem errorTotal_append (window : List Delivery) (delivery : Delivery) :
    errorTotal (window ++ [delivery]) =
      errorTotal window + if delivery.Good then 0 else 1 := by
  rw [errorTotal, errorTotal, List.filter_append, List.length_append]
  by_cases h : delivery.Good
  · simp [h]
  · simp [h]

/-- The counters of every initial part of the window stay countable. -/
def CountableWindow (p : Profile) (window : List Delivery) : Prop :=
  Countable p (droppedTotal window) ∧ Countable p (errorTotal window)

theorem Countable.mono {p : Profile} {m n : ℕ} (h : Countable p n) (hle : m ≤ n) : Countable p m :=
  h.imp_right hle.trans_lt

theorem CountableWindow.of_append {p : Profile} {window rest : List Delivery}
    (h : CountableWindow p (window ++ rest)) : CountableWindow p window := by
  refine ⟨h.1.mono ?_, h.2.mono ?_⟩
  · unfold droppedTotal scanBytes
    rw [List.filter_append, List.map_append, List.length_append]
    omega
  · unfold errorTotal
    rw [List.filter_append, List.length_append]
    omega

/-- The queue after the deliveries of a window that began with an empty queue. -/
def ByteQueue.Received (queue : ByteQueue) (window : List Delivery) : Prop :=
  queue.Holds ((scanBytes window).take queueCapacity) (droppedTotal window % 2 ^ 64)
    (errorTotal window % 2 ^ 64)

/-- One delivery. -/
theorem ByteQueue.Received.step (p : Profile) {queue : ByteQueue} {window : List Delivery}
    (h : queue.Received window) (delivery : Delivery)
    (hcount : CountableWindow p (window ++ [delivery])) :
    Satisfies ((onInterrupt p delivery).run queue)
      (fun _ t => t.Received (window ++ [delivery])) fun _ _ => False := by
  unfold ByteQueue.Received at h ⊢
  obtain ⟨hdropped, herrors⟩ := hcount
  unfold droppedTotal at h hdropped ⊢
  rw [scanBytes_append] at hdropped ⊢
  rw [errorTotal_append] at herrors ⊢
  rw [onInterrupt_eq]
  by_cases hgood : delivery.Good
  · simp only [if_pos hgood, Nat.add_zero] at hdropped herrors ⊢
    rw [List.length_append, List.length_singleton] at hdropped ⊢
    rcases Nat.lt_or_ge (scanBytes window).length queueCapacity with hlt | hge
    · have htake : (scanBytes window).take queueCapacity = scanBytes window :=
        List.take_of_length_le hlt.le
      have hzero : (scanBytes window).length - queueCapacity = 0 := Nat.sub_eq_zero_of_le hlt.le
      have hzero' : (scanBytes window).length + 1 - queueCapacity = 0 := Nat.sub_eq_zero_of_le hlt
      rw [htake, hzero] at h
      rw [hzero', List.take_of_length_le (by rw [List.length_append]; exact hlt)]
      exact h.push p hlt delivery.data
    · have hfull : ((scanBytes window).take queueCapacity).length = queueCapacity := by
        rw [List.length_take, Nat.min_eq_left hge]
      rw [Nat.sub_add_comm hge] at hdropped ⊢
      rw [List.take_append_of_le_length hge]
      exact h.push_full p hfull hdropped delivery.data
  · simp only [if_neg hgood, List.append_nil] at hdropped herrors ⊢
    exact h.countError p herrors

/-- A whole window. -/
theorem ByteQueue.Received.run (p : Profile) {queue : ByteQueue} (h : queue.Received [])
    {window : List Delivery} (hcount : CountableWindow p window) :
    Satisfies ((window.forM (onInterrupt p)).run queue) (fun _ t => t.Received window)
      fun _ _ => False := by
  refine forM_satisfies (fun seen (t : ByteQueue) => t.Received seen) ?_ h
  intro before after delivery s hsplit hs
  apply hs.step p delivery
  rw [List.nil_append] at hsplit
  have hwhole : CountableWindow p (before ++ [delivery] ++ after) := by
    rwa [List.append_assoc, List.singleton_append, ← hsplit]
  exact hwhole.of_append

/-- The line on lost input, when there is any. -/
def lostLine (dropped errors : ℕ) : List Line :=
  if dropped ≠ 0 ∨ errors ≠ 0 then [.lost dropped errors] else []

/-- What the queue gives rise to when the loop drains it. -/
theorem consume_run (p : Profile) {r : Receiver} {bytes : List (BitVec 8)} {dropped errors : ℕ}
    (h : r.queue.Holds bytes dropped errors) :
    Satisfies ((consume p).run r) (fun _ t => t.queue.Holds [] 0 0 ∧
      t.printed = r.printed ++ (bytes.map .scan ++ lostLine dropped errors)) fun _ _ => False := by
  have hloop : Satisfies ((whileSome (onQueue (pop p)) (fun byte => kprint (.scan byte))
      (queueCapacity + 1)).run r) (fun _ t => t.queue.Holds [] dropped errors ∧
        t.printed = r.printed ++ bytes.map .scan) fun _ _ => False := by
    refine whileSome_satisfies (fun t => ∃ rest, t.queue.Holds rest dropped errors ∧
      t.printed ++ rest.map .scan = r.printed ++ bytes.map .scan) (fun t => t.queue.length) ?_
      ⟨bytes, h, rfl⟩ ?_
    · rintro t ⟨rest, hrest, hprinted⟩
      cases rest with
      | nil =>
        have hpop : (onQueue (pop p)).run t = .ok none t := run_zoom_ok (hrest.pop_nil p)
        rw [hpop, satisfies_ok]
        exact ⟨hrest, by simpa using hprinted⟩
      | cons byte rest =>
        refine (hrest.pop_cons p).zoom.mono ?_ fun _ _ ⟨_, hfalse, _⟩ => hfalse
        rintro _ _ ⟨queue, ⟨rfl, hqueue⟩, rfl⟩
        change Satisfies (EStateM.run (modify _) _) _ _
        rw [EStateM.run_modify, satisfies_ok]
        refine ⟨⟨rest, hqueue, by simpa using hprinted⟩, ?_⟩
        change queue.length < t.queue.length
        rw [hqueue.length, hrest.length, List.length_cons]
        exact Nat.lt_succ_self _
    · rw [h.length]
      exact Nat.lt_succ_of_le h.length_le
  refine hloop.bind ?_
  rintro _ t ⟨hqueue, hprinted⟩
  rw [run_get_bind]
  simp only [hqueue.dropped, hqueue.errors]
  by_cases hlost : dropped ≠ 0 ∨ errors ≠ 0
  · rw [if_pos hlost, kprint, run_modify_bind, EStateM.run_modify, satisfies_ok]
    refine ⟨⟨hqueue.head_lt, hqueue.length, hqueue.length_le, hqueue.contents, rfl, rfl⟩, ?_⟩
    simp only [hprinted, lostLine, if_pos hlost, List.append_assoc]
  · rw [if_neg hlost, EStateM.run_pure, satisfies_ok]
    simp only [not_or, not_not] at hlost
    obtain ⟨rfl, rfl⟩ := hlost
    refine ⟨hqueue, ?_⟩
    rw [hprinted]
    simp [lostLine]

/-- The lines a window gives rise to, `total` being what is reported of a count. -/
def windowLines (total : ℕ → ℕ) (window : List Delivery) : List Line :=
  ((scanBytes window).take queueCapacity).map .scan ++
    lostLine (total (droppedTotal window)) (total (errorTotal window))

/-- Whenever the loop calls `wait`, it has printed exactly the lines of the windows so far and
nothing is left in the queue or the counters. -/
def Quiet (lines : List Line) (r : Receiver) : Prop :=
  r.queue.length = 0 ∧ r.queue.dropped = 0 ∧ r.queue.errors = 0 ∧ r.printed = lines

theorem run_lines (p : Profile) (windows : List (List Delivery))
    (hcount : ∀ window ∈ windows, CountableWindow p window) {r : Receiver}
    {bytes : List (BitVec 8)} {dropped errors : ℕ} (h : r.queue.Holds bytes dropped errors) :
    Satisfies ((run p windows).run r) (fun _ t => Quiet (r.printed ++
      (bytes.map .scan ++ lostLine dropped errors) ++ windows.flatMap (windowLines (· % 2 ^ 64))) t)
      fun _ _ => False := by
  induction windows generalizing r bytes dropped errors with
  | nil =>
    refine (consume_run p h).mono ?_ fun _ _ h => h
    rintro _ t ⟨hqueue, hprinted⟩
    refine ⟨hqueue.length, hqueue.dropped, hqueue.errors, ?_⟩
    rw [hprinted, List.flatMap_nil, List.append_nil]
  | cons window windows ih =>
    refine (consume_run p h).bind ?_
    rintro _ t ⟨hqueue, hprinted⟩
    have hreceived := ByteQueue.Received.run p hqueue (hcount window List.mem_cons_self)
    refine (hreceived.zoom.mono (fun _ _ h => h) fun _ _ ⟨_, hfalse, _⟩ => hfalse).bind ?_
    rintro _ _ ⟨queue, hqueue, rfl⟩
    have hrest := ih (fun w hw => hcount w (List.mem_cons_of_mem _ hw))
      (r := { t with queue := queue }) hqueue
    refine hrest.mono ?_ fun _ _ h => h
    rintro _ u ⟨h1, h2, h3, h4⟩
    refine ⟨h1, h2, h3, ?_⟩
    rw [h4, List.flatMap_cons, windowLines]
    simp only [hprinted, List.append_assoc]

theorem pop_agrees : Agrees pop := by
  unfold pop
  apply (agrees_const _).bind
  intro queue
  refine Agrees.ite (agrees_const _) ?_
  apply (agrees_const _).bind
  intro byte
  apply (agrees_add _ _).bind
  intro next
  apply (agrees_const _).bind
  intro _
  exact (agrees_sub _ _).bind fun _ => agrees_const _

theorem onInterrupt_agrees (delivery : Delivery) : Agrees fun p => onInterrupt p delivery := by
  have herror : Agrees countError := by
    apply (agrees_const _).bind
    intro queue
    exact (agrees_add _ _).bind fun _ => agrees_const _
  refine Agrees.ite herror (Agrees.ite herror ?_)
  unfold push
  apply (agrees_const _).bind
  intro queue
  apply Agrees.ite
  · exact (agrees_add _ _).bind fun _ => agrees_const _
  · apply (agrees_add _ _).bind
    intro position
    apply (agrees_const _).bind
    intro _
    exact (agrees_add _ _).bind fun _ => agrees_const _

theorem run_agrees (windows : List (List Delivery)) : Agrees fun p => run p windows := by
  have hconsume : Agrees fun p => consume p := by
    unfold consume
    refine Agrees.bind (Agrees.whileSome pop_agrees.zoom fun byte => ?_) fun _ => agrees_const _
    exact agrees_const _
  induction windows with
  | nil => exact hconsume
  | cons window windows ih =>
    apply hconsume.bind
    intro _
    exact (Agrees.forM onInterrupt_agrees).zoom.bind fun _ => ih

/-- The machine when `run` is entered: nothing queued, nothing printed. -/
def Receiver.initial : Receiver := ⟨.new, []⟩

/-- Every window is printed as it arrived, with the exact totals of what was lost. -/
def Conserved (p : Profile) (windows : List (List Delivery)) : Prop :=
  ∃ t, (run p windows).run .initial = .ok () t ∧ Quiet (windows.flatMap (windowLines id)) t

theorem run_release (windows : List (List Delivery)) :
    ∃ t, (run .release windows).run .initial = .ok () t ∧
      Quiet (windows.flatMap (windowLines (· % 2 ^ 64))) t := by
  have hrun := run_lines .release windows (r := .initial)
    (fun _ _ => ⟨.inl rfl, .inl rfl⟩) ByteQueue.holds_new
  obtain ⟨_, t, hok, ht⟩ := hrun.exists_ok
  exact ⟨t, hok, ht⟩

theorem conserved_of_small (p : Profile) {windows : List (List Delivery)}
    (hsmall : ∀ window ∈ windows, droppedTotal window < 2 ^ 64 ∧ errorTotal window < 2 ^ 64) :
    Conserved p windows := by
  have hrun := run_lines p windows (r := .initial)
    (fun window hw => ⟨.inr (hsmall window hw).1, .inr (hsmall window hw).2⟩) ByteQueue.holds_new
  obtain ⟨_, t, hok, ht⟩ := hrun.exists_ok
  refine ⟨t, hok, ?_⟩
  have hlines : windows.flatMap (windowLines (· % 2 ^ 64)) = windows.flatMap (windowLines id) := by
    apply List.flatMap_congr
    intro window hw
    simp only [windowLines, id_eq, Nat.mod_eq_of_lt (hsmall window hw).1,
      Nat.mod_eq_of_lt (hsmall window hw).2]
  rwa [hlines] at ht

theorem mem_windowLines {total : ℕ → ℕ} {window : List Delivery} {dropped errors : ℕ} :
    Line.lost dropped errors ∈ windowLines total window ↔
      (dropped ≠ 0 ∨ errors ≠ 0) ∧ dropped = total (droppedTotal window) ∧
        errors = total (errorTotal window) := by
  unfold windowLines lostLine
  rw [List.mem_append]
  split
  · simp only [List.mem_map, reduceCtorEq, and_false, exists_false, false_or, List.mem_singleton,
      Line.lost.injEq]
    constructor
    · rintro ⟨rfl, rfl⟩
      exact ⟨‹_›, rfl, rfl⟩
    · exact fun h => h.2
  · simp only [List.mem_map, reduceCtorEq, and_false, exists_false, List.not_mem_nil, or_self,
      false_iff]
    rintro ⟨hne, rfl, rfl⟩
    exact absurd hne ‹_›

/-- A window whose totals exceed a word is not reported exactly. -/
theorem small_of_conserved {p : Profile} {windows : List (List Delivery)}
    (h : Conserved p windows) :
    ∀ window ∈ windows, droppedTotal window < 2 ^ 64 ∧ errorTotal window < 2 ^ 64 := by
  obtain ⟨t, hok, -, -, -, hprinted⟩ := h
  obtain ⟨u, hrelease, -, -, -, hwrapped⟩ := run_release windows
  have hsame : t.printed = u.printed := by
    cases p with
    | release =>
      rw [hok] at hrelease
      cases hrelease
      rfl
    | dev =>
      have hno : NoOverflow (run .dev windows) .initial := by
        intro s hs
        rw [hok] at hs
        cases hs
      have hagree := run_agrees windows _ hno .release
      rw [hok, hrelease] at hagree
      cases hagree
      rfl
  rw [hprinted, hwrapped] at hsame
  intro window hw
  by_contra hlarge
  have hne : droppedTotal window ≠ 0 ∨ errorTotal window ≠ 0 := by omega
  have hmem : Line.lost (droppedTotal window) (errorTotal window) ∈
      windows.flatMap (windowLines id) :=
    List.mem_flatMap.mpr ⟨window, hw, mem_windowLines.mpr ⟨hne, rfl, rfl⟩⟩
  rw [hsame] at hmem
  obtain ⟨other, -, hother⟩ := List.mem_flatMap.mp hmem
  obtain ⟨-, h1, h2⟩ := mem_windowLines.mp hother
  omega

/-- Input is conserved exactly, in either profile, on precisely the runs in which no window loses
`2 ^ 64` bytes or has `2 ^ 64` errors; in the release profile every run prints its bytes the same
way and reports the totals modulo `2 ^ 64`, the width of the counters. -/
theorem run_conserved_iff (p : Profile) (windows : List (List Delivery)) :
    (Conserved p windows ↔
      ∀ window ∈ windows, droppedTotal window < 2 ^ 64 ∧ errorTotal window < 2 ^ 64) ∧
    ∃ t, (run .release windows).run .initial = .ok () t ∧
      Quiet (windows.flatMap (windowLines (· % 2 ^ 64))) t :=
  ⟨⟨small_of_conserved, conserved_of_small p⟩, run_release windows⟩

theorem errorTotal_replicate (n : ℕ) (delivery : Delivery) (h : ¬ delivery.Good) :
    errorTotal (List.replicate n delivery) = n := by
  rw [errorTotal, List.filter_replicate, if_pos (decide_eq_true h), List.length_replicate]

/-- A window of `2 ^ 64` deliveries with an empty output buffer. -/
theorem not_conserved_empty_buffer :
    ¬ Conserved .release [List.replicate (2 ^ 64) ⟨0, 0⟩] := by
  intro h
  have hsmall := (small_of_conserved h _ List.mem_cons_self).2
  rw [errorTotal_replicate _ _ (by decide)] at hsmall
  exact Nat.lt_irrefl _ hsmall

end MikoOS.Keyboard
