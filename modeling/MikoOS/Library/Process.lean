import Mathlib

/-!
# Sequential code over an interface

A process issues one action after another, each answered by the machine it runs on, and ends with a
value or a panic. A discipline says which actions are allowed in which states, what an action may
answer and lead to, and which panics are tolerated; a state may change between two actions only as
the discipline's steps allow for. `Holds` is the resulting postcondition of a process.
-/

variable {ι : Type} {ρ : ι → Type} {σ α β : Type}

inductive Process (ι : Type) (ρ : ι → Type) (α : Type)
  | done (a : α)
  | act (i : ι) (next : ρ i → Process ι ρ α)
  | fail (text : String)

namespace Process

protected def bind (x : Process ι ρ α) (f : α → Process ι ρ β) : Process ι ρ β :=
  match x with
  | done a => f a
  | act i next => act i fun r => (next r).bind f
  | fail text => fail text

instance : Monad (Process ι ρ) where
  pure := done
  bind := Process.bind

/-- A single action. -/
def issue (i : ι) : Process ι ρ (ρ i) := act i done

def require (condition : Bool) (text : String) : Process ι ρ Unit :=
  if condition then done () else fail text

/-- The rules under which a process runs. -/
structure Discipline (ι : Type) (ρ : ι → Type) (σ : Type) where
  always : σ → Prop
  may : ι → σ → Prop
  step : (i : ι) → σ → ρ i → σ → Prop
  stop : String → Prop

variable {D : Discipline ι ρ σ} {post : α → σ → Prop}

/-- From `s`, every action is allowed, `always` holds at each point, every panic is tolerated and
every value is returned with `post`. -/
def Holds (D : Discipline ι ρ σ) (post : α → σ → Prop) : Process ι ρ α → σ → Prop
  | done a, s => D.always s ∧ post a s
  | act i next, s => D.always s ∧ D.may i s ∧ ∀ r t, D.step i s r t → Holds D post (next r) t
  | fail text, s => D.always s ∧ D.stop text

theorem Holds.always {x : Process ι ρ α} {s : σ} (h : Holds D post x s) : D.always s := by
  cases x with
  | done a => exact h.1
  | act i next => exact h.1
  | fail text => exact h.1

theorem Holds.mono {post' : α → σ → Prop} {x : Process ι ρ α} {s : σ} (h : Holds D post x s)
    (hpost : ∀ a t, D.always t → post a t → post' a t) : Holds D post' x s := by
  induction x generalizing s with
  | done a => exact ⟨h.1, hpost a s h.1 h.2⟩
  | act i next ih => exact ⟨h.1, h.2.1, fun r t ht => ih r (h.2.2 r t ht)⟩
  | fail text => exact h

theorem Holds.bind {f : α → Process ι ρ β} {post : β → σ → Prop} {x : Process ι ρ α} {s : σ}
    (h : Holds D (fun a t => Holds D post (f a) t) x s) : Holds D post (x >>= f) s := by
  induction x generalizing s with
  | done a => exact h.2
  | act i next ih => exact ⟨h.1, h.2.1, fun r t ht => ih r (h.2.2 r t ht)⟩
  | fail text => exact h

theorem holds_done {a : α} {s : σ} (hs : D.always s) (ha : post a s) :
    Holds D post (done a) s := ⟨hs, ha⟩

theorem holds_require {c : Bool} {text : String} {post : Unit → σ → Prop} {s : σ}
    (hs : D.always s) (hc : c = true) (h : post () s) : Holds D post (require c text) s := by
  rw [require, hc]
  exact ⟨hs, h⟩

theorem holds_issue {i : ι} {s : σ} {post : ρ i → σ → Prop} (hs : D.always s) (hi : D.may i s)
    (h : ∀ r t, D.step i s r t → D.always t ∧ post r t) : Holds D post (issue i) s :=
  ⟨hs, hi, h⟩

end Process
