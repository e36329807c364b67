import MikoOS.Library.RustExec

/-!
# Computations that record the states they go through

`record` runs one step on the current state and appends the state it leaves, whether it returns or
panics. `Extends l I` says that the trace is `l` followed by states with `I`, the current one
included; a computation that stays in such a phase does so on both outcomes.
-/

namespace Rust

variable {σ α β : Type}

structure Recorded (σ : Type) where
  current : σ
  trace : List σ

def record (x : Exec σ α) : Exec (Recorded σ) α :=
  zoom Recorded.current (fun s r => ⟨s, r.trace ++ [s]⟩) x

/-- The state a computation ends in, returned or panicked. -/
def final : EStateM.Result Panic σ α → σ
  | .ok _ s => s
  | .error _ s => s

theorem Satisfies.final {r : EStateM.Result Panic σ α} {P : σ → Prop}
    (h : Satisfies r (fun _ s => P s) fun _ s => P s) : P (Rust.final r) := by
  cases r with
  | ok a s => exact satisfies_ok.mp h
  | error e s => exact satisfies_error.mp h

/-- From a state with `P` every outcome has `P` again. -/
def Stays (P : σ → Prop) (x : Exec σ α) : Prop :=
  ∀ s, P s → Satisfies (x.run s) (fun _ t => P t) fun _ t => P t

variable {P : σ → Prop}

theorem Stays.bind {x : Exec σ α} {f : α → Exec σ β} (hx : Stays P x) (hf : ∀ a, Stays P (f a)) :
    Stays P (x >>= f) := by
  intro s hs
  apply (hx s hs).bind
  intro a t ht
  exact hf a t ht

theorem Stays.get_bind {f : σ → Exec σ β} (hf : ∀ s, Stays P (f s)) : Stays P (get >>= f) := by
  intro s hs
  rw [run_get_bind]
  exact hf s s hs

theorem stays_pure (a : α) : Stays P (pure a : Exec σ α) := by
  intro s hs
  exact satisfies_ok.mpr hs

theorem stays_raise (text : String) : Stays P (raise text : Exec σ α) := by
  intro s hs
  exact satisfies_error.mpr hs

theorem stays_require (c : Bool) (text : String) : Stays P (require c text) := by
  cases c with
  | true => exact stays_pure ()
  | false => exact stays_raise text

theorem stays_expect (o : Option α) (text : String) : Stays P (expect o text : Exec σ α) := by
  cases o with
  | some a => exact stays_pure a
  | none => exact stays_raise text

theorem stays_modify {f : σ → σ} (hf : ∀ s, P s → P (f s)) : Stays P (modify f : Exec σ Unit) := by
  intro s hs
  exact satisfies_ok.mpr (hf s hs)

theorem stays_overflowing (p : Profile) (n : ℕ) : Stays P (p.overflowing n : Exec σ ℕ) := by
  intro s hs
  cases p with
  | dev => exact satisfies_error.mpr hs
  | release => exact satisfies_ok.mpr hs

theorem stays_add (p : Profile) (a b : ℕ) : Stays P (p.add a b : Exec σ ℕ) := by
  rw [Profile.add]
  split
  · exact stays_pure _
  · exact stays_overflowing p _

theorem stays_sub (p : Profile) (a b : ℕ) : Stays P (p.sub a b : Exec σ ℕ) := by
  rw [Profile.sub]
  split
  · exact stays_pure _
  · exact stays_overflowing p _

theorem stays_element (xs : List α) (i : ℕ) : Stays P (element xs i : Exec σ α) := by
  intro s hs
  unfold element
  cases xs[i]? with
  | none => exact satisfies_error.mpr hs
  | some a => exact satisfies_ok.mpr hs

theorem stays_forRange {first last : ℕ} {acc : α} {body : ℕ → α → Exec σ α}
    (hbody : ∀ i a, Stays P (body i a)) : Stays P (forRange first last acc body) := by
  unfold forRange
  generalize last - first = n
  induction n generalizing first acc with
  | zero => exact stays_pure acc
  | succ n ih => exact (hbody first acc).bind fun a => ih

/-- The trace is `l` followed by at least one state, all of them with `I`. -/
def Extends (l : List σ) (I : σ → Prop) (r : Recorded σ) : Prop :=
  I r.current ∧ ∃ m, r.trace = l ++ m ∧ m ≠ [] ∧ ∀ s ∈ m, I s

variable {l : List σ} {I : σ → Prop} {r : Recorded σ}

theorem Extends.snoc (h : Extends l I r) {s : σ} (hs : I s) : Extends l I ⟨s, r.trace ++ [s]⟩ := by
  obtain ⟨-, m, htrace, -, hm⟩ := h
  refine ⟨hs, m ++ [s], by rw [htrace, List.append_assoc], by simp, fun t ht => ?_⟩
  rcases List.mem_append.mp ht with ht | ht
  · exact hm t ht
  · rwa [List.mem_singleton.mp ht]

/-- The step that begins the next phase. -/
theorem extends_next (l : List σ) {s : σ} (hs : I s) : Extends l I ⟨s, l ++ [s]⟩ := by
  refine ⟨hs, [s], rfl, List.cons_ne_nil s [], fun t ht => ?_⟩
  rwa [List.mem_singleton.mp ht]

theorem Satisfies.record {x : Exec σ α} {post : α → σ → Prop} {stop : Panic → σ → Prop}
    (h : Satisfies (x.run r.current) post stop) :
    Satisfies ((record x).run r) (fun a t => ∃ s, post a s ∧ t = ⟨s, r.trace ++ [s]⟩)
      fun e t => ∃ s, stop e s ∧ t = ⟨s, r.trace ++ [s]⟩ :=
  h.zoom

theorem Stays.record {x : Exec σ α} (hx : Stays I x) : Stays (Extends l I) (Rust.record x) := by
  intro r hr
  refine (Satisfies.record (hx r.current hr.1)).mono ?_ ?_
  · rintro a _ ⟨s, hs, rfl⟩
    exact hr.snoc hs
  · rintro e _ ⟨s, hs, rfl⟩
    exact hr.snoc hs

theorem run_record_modify (f : σ → σ) (r : Recorded σ) :
    (record (modify f) : Exec (Recorded σ) Unit).run r =
      .ok () ⟨f r.current, r.trace ++ [f r.current]⟩ := rfl

end Rust
