import MikoOS.Library.PageWalk

/-!
# Page faults of user accesses

What the rights of a user page admit, and the error code of the page fault that any other access at
CPL 3 raises. EFER.NXE is set; reserved bits and protection keys are left out.
-/

namespace PageWalk

open ByteMemory

inductive Access
  | read
  | write
  | fetch
  deriving DecidableEq, Repr

/-- What a page that is open to CPL 3 can be used for. -/
def Rights.admits (r : Rights) : Access → Bool
  | .read => true
  | .write => r.writable
  | .fetch => !r.noExecute

/-- The error code at CPL 3: P, W/R, U/S and I/D. -/
def faultCode (translated : Bool) (access : Access) : BitVec 64 :=
  (if translated then 1 else 0) ||| (if access = .write then 2 else 0) ||| 4 |||
    if access = .fetch then 16 else 0

/-- The physical address an access at CPL 3 reaches, or the error code of its page fault. -/
def userAccess (ram : Memory) (root v : ℕ) (access : Access) : Except (BitVec 64) ℕ :=
  match walk ram root v with
  | none => .error (faultCode false access)
  | some t =>
    if t.rights.user && t.rights.admits access then .ok t.physical else .error (faultCode true access)

variable {ram : Memory} {root v : ℕ} {access : Access} {t : Translation}

theorem userAccess_user (h : walk ram root v = some t) (huser : t.rights.user = true) :
    userAccess ram root v access =
      if t.rights.admits access then .ok t.physical else .error (faultCode true access) := by
  rw [userAccess, h]
  dsimp only
  rw [huser, Bool.true_and]

/-- No page, or one of the supervisor: only the present bit tells them apart. -/
theorem userAccess_closed (h : ∀ t, walk ram root v = some t → t.rights.user = false) :
    userAccess ram root v access = .error (faultCode (walk ram root v).isSome access) := by
  rw [userAccess]
  cases hwalk : walk ram root v with
  | none => rfl
  | some t =>
    dsimp only
    rw [h t hwalk, Bool.false_and]
    rfl

theorem faultCode_inj {translated translated' : Bool} {access access' : Access} :
    faultCode translated access = faultCode translated' access' ↔
      translated = translated' ∧ access = access' := by
  constructor
  · intro h
    cases translated <;> cases translated' <;> cases access <;> cases access' <;>
      first | exact ⟨rfl, rfl⟩ | exact absurd h (by decide)
  · rintro ⟨rfl, rfl⟩
    rfl

end PageWalk
