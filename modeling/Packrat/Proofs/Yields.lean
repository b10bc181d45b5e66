import Packrat.Matcher.Run

/-!
# What runs yield

A statement about a run says what holds of its value, and which of the two other endings it allows.
Where neither is allowed the run is known to end with a value. Such statements are composed along the
steps of a run, so that one proof serves a run that may exceed its bound and one that may not.
-/

namespace Packrat

namespace Run

variable {α β : Type} {fault fault' exhausted exhausted' : Prop}

/-- The value of the run has the property `Q`; the run ends with a fault only if `fault` holds, and at
its bound only if `exhausted` holds. -/
def Yields (fault exhausted : Prop) (r : Run α) (Q : α → Prop) : Prop :=
  match r with
  | .done a => Q a
  | .fault _ _ => fault
  | .exhausted => exhausted

@[simp] theorem yields_done {a : α} {Q : α → Prop} :
    (Run.done a).Yields fault exhausted Q ↔ Q a := Iff.rfl

@[simp] theorem yields_fault {e : MatchError} {s : Session} {Q : α → Prop} :
    (Run.fault e s).Yields fault exhausted Q ↔ fault := Iff.rfl

@[simp] theorem yields_exhausted {Q : α → Prop} :
    (Run.exhausted : Run α).Yields fault exhausted Q ↔ exhausted := Iff.rfl

instance {r : Run α} {Q : α → Prop} [Decidable fault] [Decidable exhausted] [DecidablePred Q] :
    Decidable (r.Yields fault exhausted Q) :=
  match r with
  | .done a => inferInstanceAs (Decidable (Q a))
  | .fault _ _ => inferInstanceAs (Decidable fault)
  | .exhausted => inferInstanceAs (Decidable exhausted)

theorem Yields.mono {r : Run α} {P Q : α → Prop} (h : r.Yields fault exhausted P)
    (hQ : ∀ a, P a → Q a) : r.Yields fault exhausted Q := by
  cases r with
  | done a => exact hQ a h
  | fault e s => exact h
  | exhausted => exact h

theorem Yields.bind {r : Run α} {f : α → Run β} {P : α → Prop} {Q : β → Prop}
    (h : r.Yields fault exhausted P) (hf : ∀ a, P a → (f a).Yields fault exhausted Q) :
    (r >>= f).Yields fault exhausted Q := by
  cases r with
  | done a => exact hf a h
  | fault e s => exact h
  | exhausted => exact h

theorem Yields.of_done {r : Run α} {a : α} {Q : α → Prop} (h : r.Yields fault exhausted Q)
    (hr : r = .done a) : Q a := by
  subst hr
  exact h

theorem Yields.exists_done {r : Run α} {Q : α → Prop} (h : r.Yields False False Q) :
    ∃ a, r = .done a ∧ Q a := by
  cases r with
  | done a => exact ⟨a, rfl, h⟩
  | fault e s => exact h.elim
  | exhausted => exact h.elim

theorem Yields.ne_fault {r : Run α} {Q : α → Prop} (h : r.Yields False exhausted Q)
    (e : MatchError) (s : Session) : r ≠ .fault e s := by
  rintro rfl
  exact h

end Run

end Packrat
