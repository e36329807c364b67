import MikoOS.Library.RustExec

/-!
# Where no operator wraps

A computation with unchecked operators is a family over the Cargo profiles. `Agrees` says that every
profile behaves exactly as `dev` on the states from which `dev` does not stop at an overflow: there
no operator wraps, whatever the profile. The rules follow the constructions of `Exec`.
-/

namespace Rust

variable {σ α β ρ : Type}

/-- The run of `x` from `s` does not stop at an overflow. -/
def NoOverflow (x : Exec σ α) (s : σ) : Prop := ∀ t, x.run s ≠ .error .overflow t

def Agrees (x : Profile → Exec σ α) : Prop :=
  ∀ s, NoOverflow (x .dev) s → ∀ p, (x p).run s = (x .dev).run s

theorem Satisfies.noOverflow {x : Exec σ α} {s : σ} {post : α → σ → Prop} {stop : Panic → σ → Prop}
    (h : Satisfies (x.run s) post stop) (hstop : ∀ t, ¬ stop .overflow t) : NoOverflow x s := by
  intro t ht
  rw [ht, satisfies_error] at h
  exact hstop t h

theorem agrees_const (x : Exec σ α) : Agrees fun _ => x := by
  intro s _ p
  rfl

theorem Agrees.bind {x : Profile → Exec σ α} {f : Profile → α → Exec σ β} (hx : Agrees x)
    (hf : ∀ a, Agrees fun p => f p a) : Agrees fun p => x p >>= f p := by
  intro s hs p
  have hfirst : NoOverflow (x .dev) s := by
    intro t ht
    apply hs t
    rw [EStateM.run_bind, ht]
  rw [EStateM.run_bind, EStateM.run_bind, hx s hfirst p]
  cases hr : (x .dev).run s with
  | error e t => rfl
  | ok a t =>
    apply hf a t
    intro u hu
    apply hs u
    rw [run_bind_ok hr, hu]

theorem Agrees.ite {c : Prop} [Decidable c] {x y : Profile → Exec σ α} (hx : Agrees x)
    (hy : Agrees y) : Agrees fun p => if c then x p else y p := by
  by_cases hc : c
  · simp only [if_pos hc]
    exact hx
  · simp only [if_neg hc]
    exact hy

theorem Agrees.zoom {τ : Type} {view : σ → τ} {put : τ → σ → σ} {x : Profile → Exec τ α}
    (hx : Agrees x) : Agrees fun p => Rust.zoom view put (x p) := by
  intro s hs p
  have hinner : NoOverflow (x .dev) (view s) := by
    intro t ht
    apply hs (put t s)
    exact run_zoom_error ht
  have hsame := hx (view s) hinner p
  cases hr : (x .dev).run (view s) with
  | ok a t =>
    rw [hr] at hsame
    rw [run_zoom_ok hsame, run_zoom_ok hr]
  | error e t =>
    rw [hr] at hsame
    rw [run_zoom_error hsame, run_zoom_error hr]

theorem agrees_checked {c : Prop} [Decidable c] (a b : ℕ) :
    Agrees fun p => (if c then pure a else p.overflowing b : Exec σ ℕ) := by
  intro s hs p
  by_cases hc : c
  · simp only [if_pos hc]
  · exact absurd (by simp only [if_neg hc]; rfl) (hs s)

theorem agrees_add (a b : ℕ) : Agrees fun p => (p.add a b : Exec σ ℕ) := agrees_checked _ _

theorem agrees_sub (a b : ℕ) : Agrees fun p => (p.sub a b : Exec σ ℕ) := agrees_checked _ _

theorem agrees_mul (a b : ℕ) : Agrees fun p => (p.mul a b : Exec σ ℕ) := agrees_checked _ _

theorem Agrees.updateElement {view : σ → List α} {put : σ → List α → σ} {index : ℕ}
    {f : Profile → α → Exec σ α} (hf : ∀ a, Agrees fun p => f p a) :
    Agrees fun p => Rust.updateElement view put index (f p) := by
  unfold Rust.updateElement
  apply (agrees_const get).bind
  intro s
  apply (agrees_const _).bind
  intro a
  apply (hf a).bind
  intro b
  exact agrees_const _

theorem Agrees.forRange {first last : ℕ} {acc : α} {body : Profile → ℕ → α → Exec σ α}
    (hbody : ∀ i a, Agrees fun p => body p i a) :
    Agrees fun p => Rust.forRange first last acc (body p) := by
  unfold Rust.forRange
  generalize last - first = n
  induction n generalizing first acc with
  | zero => exact agrees_const _
  | succ n ih => exact (hbody first acc).bind fun a => ih

theorem Agrees.searchRange {first last : ℕ} {acc : α} {body : Profile → ℕ → α → Exec σ (α ⊕ ρ)}
    (hbody : ∀ i a, Agrees fun p => body p i a) :
    Agrees fun p => Rust.searchRange first last acc (body p) := by
  unfold Rust.searchRange
  generalize last - first = n
  induction n generalizing first acc with
  | zero => exact agrees_const _
  | succ n ih =>
    apply (hbody first acc).bind
    intro r
    cases r with
    | inl acc' => exact ih
    | inr r => exact agrees_const _

theorem Agrees.forM {xs : List α} {body : Profile → α → Exec σ PUnit}
    (hbody : ∀ a, Agrees fun p => body p a) : Agrees fun p => xs.forM (body p) := by
  induction xs with
  | nil => exact agrees_const _
  | cons a rest ih => exact (hbody a).bind fun _ => ih

theorem Agrees.whileSome {next : Profile → Exec σ (Option α)} {body : Profile → α → Exec σ Unit}
    (hnext : Agrees next) (hbody : ∀ a, Agrees fun p => body p a) {fuel : ℕ} :
    Agrees fun p => Rust.whileSome (next p) (body p) fuel := by
  induction fuel with
  | zero => exact agrees_const _
  | succ fuel ih =>
    apply hnext.bind
    intro o
    cases o with
    | none => exact agrees_const _
    | some a => exact (hbody a).bind fun _ => ih

end Rust
