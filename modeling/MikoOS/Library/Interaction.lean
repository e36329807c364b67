import MikoOS.Library.Process

/-!
# Interactions

The events of a process against a machine that answers as it likes. `play` runs it against given
answers; `Yields` is the postcondition of the events and the value, or the panic, over all answers.
-/

variable {ι : Type} {ρ : ι → Type} {α β : Type}

namespace Process

/-- An action with its answer. -/
abbrev Event (ι : Type) (ρ : ι → Type) : Type := (i : ι) × ρ i

/-- The events and the outcome when action `n` is answered by `answer n`. -/
def play (answer : ℕ → (i : ι) → ρ i) : Process ι ρ α → ℕ → List (Event ι ρ) × Except String α
  | done a, _ => ([], .ok a)
  | act i next, n =>
    let rest := play answer (next (answer n i)) (n + 1)
    (⟨i, answer n i⟩ :: rest.1, rest.2)
  | fail text, _ => ([], .error text)

def Yields (post : List (Event ι ρ) → α → Prop) (stop : List (Event ι ρ) → String → Prop) :
    Process ι ρ α → Prop
  | done a => post [] a
  | act i next => ∀ r, Yields (fun t => post (⟨i, r⟩ :: t)) (fun t => stop (⟨i, r⟩ :: t)) (next r)
  | fail text => stop [] text

variable {post post' : List (Event ι ρ) → α → Prop} {stop stop' : List (Event ι ρ) → String → Prop}
  {x : Process ι ρ α}

theorem Yields.mono (h : Yields post stop x) (hpost : ∀ t a, post t a → post' t a)
    (hstop : ∀ t e, stop t e → stop' t e) : Yields post' stop' x := by
  induction x generalizing post post' stop stop' with
  | done a => exact hpost [] a h
  | act i next ih => exact fun r => ih r (h r) (fun t => hpost (⟨i, r⟩ :: t)) fun t => hstop (⟨i, r⟩ :: t)
  | fail text => exact hstop [] text h

theorem Yields.bind {f : α → Process ι ρ β} {post' : List (Event ι ρ) → β → Prop}
    (h : Yields post stop x)
    (hf : ∀ t a, post t a → Yields (fun u => post' (t ++ u)) (fun u => stop' (t ++ u)) (f a))
    (hstop : ∀ t e, stop t e → stop' t e) : Yields post' stop' (x >>= f) := by
  induction x generalizing post post' stop stop' with
  | done a => exact hf [] a h
  | act i next ih =>
    intro r
    exact ih r (h r) (fun t => hf (⟨i, r⟩ :: t)) fun t => hstop (⟨i, r⟩ :: t)
  | fail text => exact hstop [] text h

theorem bind_assoc {γ : Type} (x : Process ι ρ α) (f : α → Process ι ρ β) (g : β → Process ι ρ γ) :
    ((x >>= f) >>= g) = (x >>= fun a => f a >>= g) := by
  induction x with
  | done a => rfl
  | act i next ih => exact congrArg (act i) (funext ih)
  | fail text => rfl

theorem yields_issue {i : ι} {post : List (Event ι ρ) → ρ i → Prop} (h : ∀ r, post [⟨i, r⟩] r) :
    Yields post stop (issue i) := h

theorem yields_issue_bind {i : ι} {f : ρ i → Process ι ρ β} {post : List (Event ι ρ) → β → Prop}
    (h : ∀ r, Yields (fun t => post (⟨i, r⟩ :: t)) (fun t => stop (⟨i, r⟩ :: t)) (f r)) :
    Yields post stop (issue i >>= f) := h

theorem yields_require {c : Bool} {text : String} {post : List (Event ι ρ) → Unit → Prop}
    (hpost : c = true → post [] ()) (hstop : c = false → stop [] text) :
    Yields post stop (require c text) := by
  cases c with
  | false => exact hstop rfl
  | true => exact hpost rfl

theorem Yields.play (h : Yields post stop x) (answer : ℕ → (i : ι) → ρ i) (n : ℕ) :
    (∃ a, (play answer x n).2 = .ok a ∧ post (play answer x n).1 a) ∨
      ∃ e, (play answer x n).2 = .error e ∧ stop (play answer x n).1 e := by
  induction x generalizing post stop n with
  | done a => exact Or.inl ⟨a, rfl, h⟩
  | act i next ih => exact ih (answer n i) (h (answer n i)) (n + 1)
  | fail text => exact Or.inr ⟨text, rfl, h⟩

variable {ε : Type} {p q q' : ε → Prop} {t u : List ε} {e : ε}

/-- Every event with `p` comes right after one with `q`. -/
def Preceded (p q : ε → Prop) (t : List ε) : Prop :=
  ∀ before e after, t = before ++ e :: after → p e → ∃ earlier y, before = earlier ++ [y] ∧ q y

theorem preceded_of_none (h : ∀ e ∈ t, ¬p e) : Preceded p q t := by
  intro before e after ht he
  refine absurd he (h e ?_)
  rw [ht]
  exact List.mem_append_right before List.mem_cons_self

theorem Preceded.mono (h : Preceded p q t) (hq : ∀ e, q e → q' e) : Preceded p q' t := by
  intro before e after ht he
  obtain ⟨earlier, y, hbefore, hy⟩ := h before e after ht he
  exact ⟨earlier, y, hbefore, hq y hy⟩

theorem Preceded.append (ht : Preceded p q t) (hu : Preceded p q u) : Preceded p q (t ++ u) := by
  intro before e after h he
  obtain ⟨middle, hmiddle⟩ | ⟨middle, hmiddle⟩ := List.append_eq_append_iff.mp h
  · -- the event is in the second part
    obtain ⟨earlier, y, hearlier, hy⟩ := hu middle e after hmiddle.2 he
    exact ⟨t ++ earlier, y, by rw [hmiddle.1, hearlier, List.append_assoc], hy⟩
  · cases middle with
    | nil =>
      obtain ⟨earlier, y, hearlier, -⟩ := hu [] e after (by simpa using hmiddle.2.symm) he
      exact absurd hearlier.symm (List.append_ne_nil_of_right_ne_nil earlier (List.cons_ne_nil y []))
    | cons x rest =>
      rw [List.cons_append, List.cons.injEq] at hmiddle
      exact ht before e rest (by rw [hmiddle.1, hmiddle.2.1]) he

/-- A last event right after one with `q`. -/
theorem Preceded.snoc {y : ε} (h : Preceded p q (t ++ [y])) (hy : q y) :
    Preceded p q (t ++ [y] ++ [e]) := by
  intro before x after heq hx
  rcases List.eq_nil_or_concat after with rfl | ⟨rest, z, rfl⟩
  · obtain ⟨hbefore, -⟩ := List.append_inj' heq rfl
    exact ⟨t, y, hbefore.symm, hy⟩
  · rw [List.concat_eq_append, ← List.cons_append, ← List.append_assoc] at heq
    obtain ⟨hinit, -⟩ := List.append_inj' heq rfl
    exact h before x rest hinit hx

end Process
