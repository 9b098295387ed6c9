/-!
This module contains failures with the activities that were under way: the cause is what happened,
and every activity that passes the failure on puts its name in front of it.
-/

namespace Steward

universe u v

structure Failure (ε : Type u) where
  /-- The activities, the outermost first. -/
  doing : List String
  cause : ε
deriving DecidableEq

namespace Failure

variable {ε : Type u}

def of (cause : ε) : Failure ε := ⟨[], cause⟩

/--
The failure as the given activity passes it on.
-/
def during (f : Failure ε) (activity : String) : Failure ε :=
  ⟨activity :: f.doing, f.cause⟩

/--
The activities and the cause in one line.
-/
def message (text : ε → String) (f : Failure ε) : String :=
  ": ".intercalate (f.doing ++ [text f.cause])

def mapCause {δ : Type v} (g : ε → δ) (f : Failure ε) : Failure δ := ⟨f.doing, g f.cause⟩

end Failure

/--
The result, with the activity put in front if it is a failure.
-/
def during {ε α : Type u} (activity : String) : Except (Failure ε) α → Except (Failure ε) α
  | .ok a => .ok a
  | .error f => .error (f.during activity)

@[simp]
theorem during_eq_ok {ε α : Type u} {activity : String} {e : Except (Failure ε) α} {a : α} :
    during activity e = .ok a ↔ e = .ok a := by
  cases e <;> simp [during]

theorem bind_eq_ok {ε α β : Type u} {e : Except ε α} {f : α → Except ε β} {b : β} :
    (e >>= f) = .ok b ↔ ∃ a, e = .ok a ∧ f a = .ok b := by
  constructor
  · intro h
    cases e with
    | error x => cases h
    | ok a => exact ⟨a, rfl, h⟩
  · rintro ⟨a, rfl, h⟩
    exact h

end Steward
