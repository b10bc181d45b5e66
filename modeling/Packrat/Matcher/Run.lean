import Packrat.Session

/-!
# Runs

The evaluation of a node calls itself on other nodes, and nothing in the form of a grammar bounds how
deep these calls go. So it is given a bound from outside, and a run that meets the bound says so: it
is then neither a match nor an error.
-/

namespace Packrat

inductive Run (α : Type) where
  | done (a : α)
  /-- An error, and the session as it was left then. -/
  | fault (e : MatchError) (s : Session)
  /-- The bound on the depth of calls, or on the rounds of a loop, was too small. -/
  | exhausted

namespace Run

variable {α β γ : Type}

@[inline] def bind (r : Run α) (f : α → Run β) : Run β :=
  match r with
  | .done a => f a
  | .fault e s => .fault e s
  | .exhausted => .exhausted

instance : Monad Run where
  pure := .done
  bind := bind

@[simp] theorem done_bind (a : α) (f : α → Run β) : (Run.done a >>= f) = f a := rfl

@[simp] theorem fault_bind (e : MatchError) (s : Session) (f : α → Run β) :
    (Run.fault e s >>= f) = .fault e s := rfl

@[simp] theorem exhausted_bind (f : α → Run β) : (Run.exhausted >>= f) = .exhausted := rfl

@[simp] theorem pure_eq_done (a : α) : (pure a : Run α) = .done a := rfl

theorem bind_eq_done_iff {r : Run α} {f : α → Run β} {b : β} :
    (r >>= f) = .done b ↔ ∃ a, r = .done a ∧ f a = .done b := by
  cases r with
  | done a => simp
  | fault e s => simp
  | exhausted => simp

instance : LawfulMonad Run := LawfulMonad.mk' Run
  (fun r => by cases r <;> rfl)
  (fun _ _ => rfl)
  (fun r _ _ => by cases r <;> rfl)

end Run

abbrev Answer := Run (Match × Session)

abbrev Evaluator := NodeId → Session → Answer

/-- Moves the cursor as part of a run; a move that is refused leaves the session as it is. -/
def Session.moveToR (s : Session) (position : Nat) : Run Session :=
  match s.moveTo position with
  | .ok t => .done t
  | .error e => .fault e s

end Packrat
