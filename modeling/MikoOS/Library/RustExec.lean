import Mathlib

/-!
# Panicking computations over an explicit state

`Exec σ α` is a Rust computation on a state `σ`: it returns a value and the new state, or panics
and leaves the state as it was at the panic. The unchecked operators follow the Cargo profile:
`dev` panics on overflow, `release` wraps. `Satisfies` is the corresponding two-outcome
postcondition, and the range rules turn a step lemma into a statement about a whole loop.
-/

namespace Rust

/-- Cargo profiles differ in the unchecked integer operators. -/
inductive Profile
  | dev
  | release
  deriving DecidableEq, Repr

/-- `message` is the text of an `assert!` or `expect`; `outOfBounds` is an access outside the
array a raw pointer was derived from. -/
inductive Panic
  | message (text : String)
  | overflow
  | outOfBounds
  deriving DecidableEq, Repr

abbrev Exec (σ α : Type) := EStateM Panic σ α

variable {σ α β ρ : Type}

def raise (text : String) : Exec σ α := throw (.message text)

def require (condition : Bool) (text : String) : Exec σ Unit :=
  if condition then pure () else raise text

/-- `Option::expect`. -/
def expect (value : Option α) (text : String) : Exec σ α :=
  match value with
  | some a => pure a
  | none => raise text

/-- A raw pointer read of element `index`. -/
def element (xs : List α) (index : ℕ) : Exec σ α :=
  match xs[index]? with
  | some a => pure a
  | none => throw .outOfBounds

/-- Reads field `xs` of the state at `index`, applies `f` and writes the element back. -/
def updateElement (view : σ → List α) (put : σ → List α → σ) (index : ℕ) (f : α → Exec σ α) :
    Exec σ Unit := do
  let a ← f (← element (view (← get)) index)
  modify fun s => put s ((view s).set index a)

/-- Runs a computation on one component of the state. -/
def zoom {τ : Type} (view : σ → τ) (put : τ → σ → σ) (x : Exec τ α) : Exec σ α := fun s =>
  match x.run (view s) with
  | .ok a t => .ok a (put t s)
  | .error e t => .error e (put t s)

/-- Whether a run returns a value and a state that pass the test. -/
def returns (test : α → σ → Bool) : EStateM.Result Panic σ α → Bool
  | .ok a t => test a t
  | .error _ _ => false

theorem exists_of_returns {test : α → σ → Bool} {r : EStateM.Result Panic σ α} (h : returns test r = true) :
    ∃ a t, r = .ok a t ∧ test a t = true := by
  cases r with
  | ok a t => exact ⟨a, t, rfl, h⟩
  | error e t => cases h

def Profile.overflowing : Profile → ℕ → Exec σ ℕ
  | .dev, _ => throw .overflow
  | .release, wrapped => pure wrapped

def Profile.add (p : Profile) (a b : ℕ) : Exec σ ℕ :=
  if a + b < 2 ^ 64 then pure (a + b) else p.overflowing ((a + b) % 2 ^ 64)

def Profile.sub (p : Profile) (a b : ℕ) : Exec σ ℕ :=
  if b ≤ a then pure (a - b) else p.overflowing ((a + 2 ^ 64 - b) % 2 ^ 64)

def Profile.mul (p : Profile) (a b : ℕ) : Exec σ ℕ :=
  if a * b < 2 ^ 64 then pure (a * b) else p.overflowing (a * b % 2 ^ 64)

def checkedAdd (a b : ℕ) : Option ℕ := if a + b < 2 ^ 64 then some (a + b) else none

def checkedMul (a b : ℕ) : Option ℕ := if a * b < 2 ^ 64 then some (a * b) else none

def forCount (body : ℕ → α → Exec σ α) : ℕ → ℕ → α → Exec σ α
  | _, 0, acc => pure acc
  | i, n + 1, acc => do forCount body (i + 1) n (← body i acc)

/-- `for i in start..stop`, with the loop-carried variables in `acc`. -/
def forRange (start stop : ℕ) (acc : α) (body : ℕ → α → Exec σ α) : Exec σ α :=
  forCount body start (stop - start) acc

def searchCount (body : ℕ → α → Exec σ (α ⊕ ρ)) : ℕ → ℕ → α → Exec σ (Option ρ)
  | _, 0, _ => pure none
  | i, n + 1, acc => do
    match ← body i acc with
    | .inl acc' => searchCount body (i + 1) n acc'
    | .inr r => pure (some r)

/-- `for i in start..stop` whose body may `return` from the enclosing function. -/
def searchRange (start stop : ℕ) (acc : α) (body : ℕ → α → Exec σ (α ⊕ ρ)) : Exec σ (Option ρ) :=
  searchCount body start (stop - start) acc

/-- `while let Some(a) = next`, with at most `fuel` tests of the condition. -/
def whileSome (next : Exec σ (Option α)) (body : α → Exec σ Unit) : ℕ → Exec σ Unit
  | 0 => raise "loop bound exceeded"
  | fuel + 1 => do
    match ← next with
    | none => return ()
    | some a =>
      body a
      whileSome next body fuel

@[simp] theorem run_raise (text : String) (s : σ) :
    (raise text : Exec σ α).run s = .error (.message text) s := rfl

theorem run_bind_ok {x : Exec σ α} {f : α → Exec σ β} {s s' : σ} {a : α}
    (h : x.run s = .ok a s') : (x >>= f).run s = (f a).run s' := by
  rw [EStateM.run_bind, h]

theorem run_get_bind (f : σ → Exec σ β) (s : σ) : (get >>= f).run s = (f s).run s := rfl

theorem run_modify_bind (g : σ → σ) (f : Unit → Exec σ β) (s : σ) :
    (modify g >>= f).run s = (f ()).run (g s) := rfl

theorem run_zoom_ok {τ : Type} {view : σ → τ} {put : τ → σ → σ} {x : Exec τ α} {s : σ} {a : α}
    {t : τ} (h : x.run (view s) = .ok a t) : (zoom view put x).run s = .ok a (put t s) := by
  change (match x.run (view s) with
    | .ok a t => .ok a (put t s)
    | .error e t => .error e (put t s) : EStateM.Result Panic σ α) = _
  rw [h]

theorem run_zoom_error {τ : Type} {view : σ → τ} {put : τ → σ → σ} {x : Exec τ α} {s : σ}
    {e : Panic} {t : τ} (h : x.run (view s) = .error e t) :
    (zoom view put x).run s = .error e (put t s) := by
  change (match x.run (view s) with
    | .ok a t => .ok a (put t s)
    | .error e t => .error e (put t s) : EStateM.Result Panic σ α) = _
  rw [h]

theorem run_require {c : Bool} (h : c = true) (text : String) (s : σ) :
    (require c text : Exec σ Unit).run s = .ok () s := by
  simp [require, h]

theorem run_expect {o : Option α} {a : α} (h : o = some a) (text : String) (s : σ) :
    (expect o text : Exec σ α).run s = .ok a s := by
  simp [expect, h]

theorem require_bind_eq_ok {c : Bool} {text : String} {f : Unit → Exec σ α} {s t : σ} {a : α} :
    (require c text >>= f).run s = .ok a t ↔ c = true ∧ (f ()).run s = .ok a t := by
  cases c with
  | true =>
    rw [run_bind_ok (run_require rfl text s)]
    exact (and_iff_right rfl).symm
  | false =>
    constructor
    · intro h
      cases h
    · intro h
      cases h.1

theorem expect_bind_eq_ok {o : Option α} {text : String} {f : α → Exec σ β} {s t : σ} {b : β} :
    (expect o text >>= f).run s = .ok b t ↔ ∃ a, o = some a ∧ (f a).run s = .ok b t := by
  cases o with
  | some a =>
    rw [run_bind_ok (run_expect rfl text s)]
    constructor
    · intro h
      exact ⟨a, rfl, h⟩
    · intro h
      obtain ⟨a', ha, h⟩ := h
      cases ha
      exact h
  | none =>
    constructor
    · intro h
      cases h
    · intro h
      obtain ⟨a', ha, h⟩ := h
      cases ha

theorem run_element {xs : List α} {i : ℕ} {a : α} (h : xs[i]? = some a) (s : σ) :
    (element xs i : Exec σ α).run s = .ok a s := by
  simp [element, h]

theorem run_updateElement {view : σ → List α} {put : σ → List α → σ} {i : ℕ}
    {f : α → Exec σ α} {a b : α} {s : σ} (ha : (view s)[i]? = some a)
    (hf : (f a).run s = .ok b s) :
    (updateElement view put i f).run s = .ok () (put s ((view s).set i b)) := by
  simp only [updateElement, EStateM.run_bind, EStateM.run_get, run_element ha, hf,
    EStateM.run_modify]

theorem run_add (p : Profile) {a b : ℕ} (h : a + b < 2 ^ 64) (s : σ) :
    (p.add a b : Exec σ ℕ).run s = .ok (a + b) s := by
  rw [Profile.add, if_pos h, EStateM.run_pure]

theorem run_add_overflow {a b : ℕ} (h : 2 ^ 64 ≤ a + b) (s : σ) :
    (Profile.dev.add a b : Exec σ ℕ).run s = .error .overflow s := by
  rw [Profile.add, if_neg (Nat.not_lt.mpr h)]
  rfl

theorem run_add_release (a b : ℕ) (s : σ) :
    (Profile.release.add a b : Exec σ ℕ).run s = .ok ((a + b) % 2 ^ 64) s := by
  by_cases h : a + b < 2 ^ 64
  · rw [run_add .release h, Nat.mod_eq_of_lt h]
  · rw [Profile.add, if_neg h]
    rfl

theorem run_sub (p : Profile) {a b : ℕ} (h : b ≤ a) (s : σ) :
    (p.sub a b : Exec σ ℕ).run s = .ok (a - b) s := by
  rw [Profile.sub, if_pos h, EStateM.run_pure]

theorem run_mul (p : Profile) {a b : ℕ} (h : a * b < 2 ^ 64) (s : σ) :
    (p.mul a b : Exec σ ℕ).run s = .ok (a * b) s := by
  rw [Profile.mul, if_pos h, EStateM.run_pure]

theorem checkedAdd_of_lt {a b : ℕ} (h : a + b < 2 ^ 64) : checkedAdd a b = some (a + b) :=
  if_pos h

theorem checkedAdd_eq_some {a b c : ℕ} :
    checkedAdd a b = some c ↔ a + b = c ∧ a + b < 2 ^ 64 := by
  unfold checkedAdd
  split <;> simp only [Option.some.injEq, reduceCtorEq, false_iff] <;> omega

theorem checkedMul_of_lt {a b : ℕ} (h : a * b < 2 ^ 64) : checkedMul a b = some (a * b) :=
  if_pos h

/-- `post` holds of a normal result, `stop` of a panic. -/
def Satisfies (r : EStateM.Result Panic σ α) (post : α → σ → Prop) (stop : Panic → σ → Prop) :
    Prop :=
  match r with
  | .ok a s => post a s
  | .error e s => stop e s

@[simp] theorem satisfies_ok {a : α} {s : σ} {post : α → σ → Prop} {stop : Panic → σ → Prop} :
    Satisfies (.ok a s) post stop ↔ post a s := Iff.rfl

@[simp] theorem satisfies_error {e : Panic} {s : σ} {post : α → σ → Prop}
    {stop : Panic → σ → Prop} : Satisfies (.error e s) post stop ↔ stop e s := Iff.rfl

theorem Satisfies.mono {r : EStateM.Result Panic σ α} {post post' : α → σ → Prop}
    {stop stop' : Panic → σ → Prop} (h : Satisfies r post stop)
    (hpost : ∀ a s, post a s → post' a s) (hstop : ∀ e s, stop e s → stop' e s) :
    Satisfies r post' stop' := by
  cases r with
  | ok a s => exact hpost a s h
  | error e s => exact hstop e s h

theorem Satisfies.bind {x : Exec σ α} {f : α → Exec σ β} {s : σ} {post : β → σ → Prop}
    {mid : α → σ → Prop} {stop : Panic → σ → Prop} (hx : Satisfies (x.run s) mid stop)
    (hf : ∀ a s', mid a s' → Satisfies ((f a).run s') post stop) :
    Satisfies ((x >>= f).run s) post stop := by
  rw [EStateM.run_bind]
  cases hr : x.run s with
  | ok a s' => exact hf a s' (by rwa [hr] at hx)
  | error e s' => rwa [hr] at hx

theorem Satisfies.and {r : EStateM.Result Panic σ α} {post post' : α → σ → Prop}
    {stop stop' : Panic → σ → Prop} (h : Satisfies r post stop) (h' : Satisfies r post' stop') :
    Satisfies r (fun a s => post a s ∧ post' a s) fun e s => stop e s ∧ stop' e s := by
  cases r with
  | ok a s => exact ⟨h, h'⟩
  | error e s => exact ⟨h, h'⟩

/-- With no panic allowed, a postcondition is a returned value. -/
theorem Satisfies.exists_ok {r : EStateM.Result Panic σ α} {post : α → σ → Prop}
    (h : Satisfies r post fun _ _ => False) : ∃ a s, r = .ok a s ∧ post a s := by
  cases r with
  | ok a s => exact ⟨a, s, rfl, h⟩
  | error e s => exact h.elim

theorem Satisfies.zoom {τ : Type} {view : σ → τ} {put : τ → σ → σ} {x : Exec τ α} {s : σ}
    {post : α → τ → Prop} {stop : Panic → τ → Prop} (h : Satisfies (x.run (view s)) post stop) :
    Satisfies ((zoom view put x).run s) (fun a t => ∃ u, post a u ∧ t = put u s)
      fun e t => ∃ u, stop e u ∧ t = put u s := by
  change Satisfies (match x.run (view s) with
    | .ok a t => .ok a (put t s)
    | .error e t => .error e (put t s) : EStateM.Result Panic σ α) _ _
  cases hr : x.run (view s) with
  | ok a t => exact ⟨t, by rwa [hr] at h, rfl⟩
  | error e t => exact ⟨t, by rwa [hr] at h, rfl⟩

theorem satisfies_require {c : Bool} {text : String} {s : σ} {stop : Panic → σ → Prop}
    (hfail : c = false → stop (.message text) s) :
    Satisfies ((require c text : Exec σ Unit).run s) (fun _ t => t = s ∧ c = true) stop := by
  cases c with
  | true => exact ⟨rfl, rfl⟩
  | false => exact hfail rfl

theorem satisfies_expect {o : Option α} {text : String} {s : σ} {stop : Panic → σ → Prop}
    (hfail : o = none → stop (.message text) s) :
    Satisfies ((expect o text : Exec σ α).run s) (fun a t => t = s ∧ o = some a) stop := by
  cases o with
  | some a => exact ⟨rfl, rfl⟩
  | none => exact hfail rfl

theorem satisfies_add (p : Profile) (a b : ℕ) {s : σ} {stop : Panic → σ → Prop}
    (hfail : p = .dev → stop .overflow s) :
    Satisfies ((p.add a b : Exec σ ℕ).run s) (fun _ t => t = s) stop := by
  unfold Profile.add
  split
  · exact rfl
  · cases p with
    | dev => exact hfail rfl
    | release => exact rfl

theorem satisfies_add_value (p : Profile) {a b : ℕ} {s : σ} {stop : Panic → σ → Prop}
    (hfail : p = .dev → stop .overflow s) :
    Satisfies ((p.add a b : Exec σ ℕ).run s) (fun c t => t = s ∧ (a + b < 2 ^ 64 → c = a + b)) stop := by
  by_cases h : a + b < 2 ^ 64
  · rw [run_add p h]
    exact ⟨rfl, fun _ => rfl⟩
  · apply (satisfies_add p a b hfail).mono
    · intro c t ht
      exact ⟨ht, fun hlt => absurd hlt h⟩
    · exact fun _ _ hstop => hstop

theorem forCount_satisfies {body : ℕ → α → Exec σ α} {I : ℕ → α → σ → Prop}
    {stop : Panic → σ → Prop} (first n : ℕ)
    (hstep : ∀ i acc s, first ≤ i → i < first + n → I i acc s →
      Satisfies ((body i acc).run s) (I (i + 1)) stop)
    {acc : α} {s : σ} (h0 : I first acc s) :
    Satisfies ((forCount body first n acc).run s) (I (first + n)) stop := by
  induction n generalizing first acc s with
  | zero => exact h0
  | succ n ih =>
    refine Satisfies.bind (hstep first acc s le_rfl (by omega) h0) fun acc' s' h1 => ?_
    have hrest := ih (first + 1) (fun i a t hi hlt => hstep i a t (by omega) (by omega)) h1
    rwa [Nat.add_right_comm] at hrest

/-- The invariant rule for `for i in start..stop`. -/
theorem forRange_satisfies {body : ℕ → α → Exec σ α} (I : ℕ → α → σ → Prop)
    {stop : Panic → σ → Prop} {first last : ℕ} (hle : first ≤ last)
    (hstep : ∀ i acc s, first ≤ i → i < last → I i acc s →
      Satisfies ((body i acc).run s) (I (i + 1)) stop)
    {acc : α} {s : σ} (h0 : I first acc s) :
    Satisfies ((forRange first last acc body).run s) (I last) stop := by
  have h := forCount_satisfies (I := I) first (last - first)
    (fun i a t hi hlt => hstep i a t hi (by omega)) h0
  rwa [Nat.add_sub_cancel' hle] at h

theorem searchCount_satisfies {body : ℕ → α → Exec σ (α ⊕ ρ)} {I : ℕ → α → σ → Prop}
    {found : ρ → σ → Prop} {stop : Panic → σ → Prop} (first n : ℕ)
    (hstep : ∀ i acc s, first ≤ i → i < first + n → I i acc s →
      Satisfies ((body i acc).run s) (fun r t => r.elim (fun a => I (i + 1) a t) (found · t)) stop)
    {acc : α} {s : σ} (h0 : I first acc s) :
    Satisfies ((searchCount body first n acc).run s)
      (fun r t => r.elim (∃ a, I (first + n) a t) (found · t)) stop := by
  induction n generalizing first acc s with
  | zero => exact ⟨acc, h0⟩
  | succ n ih =>
    refine Satisfies.bind (hstep first acc s le_rfl (by omega) h0) fun r s' h1 => ?_
    cases r with
    | inl acc' =>
      have hrest := ih (first + 1) (fun i a t hi hlt => hstep i a t (by omega) (by omega)) h1
      rwa [Nat.add_right_comm] at hrest
    | inr r => exact h1

/-- The invariant rule for a `for` loop with an early `return`: either some iteration returned,
or every iteration continued and the invariant holds at the end. -/
theorem searchRange_satisfies {body : ℕ → α → Exec σ (α ⊕ ρ)} (I : ℕ → α → σ → Prop)
    (found : ρ → σ → Prop) {stop : Panic → σ → Prop} {first last : ℕ} (hle : first ≤ last)
    (hstep : ∀ i acc s, first ≤ i → i < last → I i acc s →
      Satisfies ((body i acc).run s) (fun r t => r.elim (fun a => I (i + 1) a t) (found · t)) stop)
    {acc : α} {s : σ} (h0 : I first acc s) :
    Satisfies ((searchRange first last acc body).run s)
      (fun r t => r.elim (∃ a, I last a t) (found · t)) stop := by
  have h := searchCount_satisfies (I := I) first (last - first)
    (fun i a t hi hlt => hstep i a t hi (by omega)) h0
  rwa [Nat.add_sub_cancel' hle] at h

/-- The invariant rule for `while let`: `measure` bounds the number of iterations left. -/
theorem whileSome_satisfies {next : Exec σ (Option α)} {body : α → Exec σ Unit} (I : σ → Prop)
    (measure : σ → ℕ) {post : σ → Prop} {stop : Panic → σ → Prop}
    (hstep : ∀ s, I s → Satisfies (next.run s) (fun o t => o.elim (post t) fun a =>
      Satisfies ((body a).run t) (fun _ u => I u ∧ measure u < measure s) stop) stop)
    {fuel : ℕ} {s : σ} (hs : I s) (hfuel : measure s < fuel) :
    Satisfies ((whileSome next body fuel).run s) (fun _ t => post t) stop := by
  induction fuel generalizing s with
  | zero => exact absurd hfuel (Nat.not_lt_zero _)
  | succ fuel ih =>
    refine Satisfies.bind (hstep s hs) fun o t ht => ?_
    cases o with
    | none => exact ht
    | some a =>
      refine Satisfies.bind ht fun _ u hu => ?_
      exact ih hu.1 (by omega)

/-- A list traversed with an effect: the invariant speaks of the elements already visited. -/
theorem forM_satisfies {body : α → Exec σ PUnit} (I : List α → σ → Prop)
    {stop : Panic → σ → Prop} {seen rest : List α}
    (hstep : ∀ (before after : List α) (a : α) (s : σ), seen ++ rest = before ++ a :: after →
      I before s → Satisfies ((body a).run s) (fun _ t => I (before ++ [a]) t) stop)
    {s : σ} (hs : I seen s) :
    Satisfies ((rest.forM body).run s) (fun _ t => I (seen ++ rest) t) stop := by
  induction rest generalizing seen s with
  | nil =>
    rw [List.append_nil]
    exact hs
  | cons a rest ih =>
    have hsplit : seen ++ a :: rest = (seen ++ [a]) ++ rest := by rw [List.append_assoc]; rfl
    refine Satisfies.bind (hstep seen rest a s rfl hs) fun _ t ht => ?_
    rw [hsplit] at hstep ⊢
    exact ih hstep ht

attribute [irreducible] Satisfies

end Rust
