import Steward.Time.Agenda

/-!
This module contains crews, whose members work by an agenda under a clock: one after the other goes
on until it has to wait. Time passes only when everybody waits, and then up to the next alarm.

Whoever is in the foreground is no member. When an alarm rings at a moment that the foreground waits
for as well, the foreground goes on first.
-/

namespace Steward

class Crew (σ : Type) (ι κ : outParam Type) where
  clock : σ → Nat
  setClock : Nat → σ → σ
  agenda : σ → Agenda ι κ
  setAgenda : Agenda ι κ → σ → σ
  /-- One move of a member, unless it has to wait. -/
  move? : ι → σ → Option σ
  /-- What a member leaves behind when it has to wait. -/
  rest : ι → σ → σ

namespace Crew

variable {σ ι κ : Type} [Crew σ ι κ]

/--
Lets a member move until it has to wait, at most `fuel` times.
-/
def turn (fuel : Nat) (who : ι) (s : σ) : σ :=
  match fuel with
  | 0 => rest who s
  | fuel + 1 =>
    match move? who s with
    | some s => turn fuel who s
    | none => rest who s

/--
More moves than a member makes in one turn, and more turns than there are at one moment, unless
somebody never has to wait.
-/
def manyMoves : Nat := 1000000

/--
Lets everybody who stands in line have a turn, in at most `fuel` turns.
-/
def run (fuel : Nat) (s : σ) : σ :=
  match fuel with
  | 0 => s
  | fuel + 1 =>
    match (agenda s).next? with
    | some (who, a) => run fuel (turn manyMoves who (setAgenda a s))
    | none => s

def settle (s : σ) : σ := run manyMoves s

section Alarms

variable [DecidableEq ι]

/--
The crew at a time that has come, with those called whose alarms ring then. The clock never goes
back.
-/
def advance (time : Nat) (s : σ) : σ :=
  setClock (max (clock s) time) (setAgenda ((agenda s).ring time) s)

/--
Lets the crew work and time pass, for at most `fuel` moments, until there is what the foreground
waits for, or the time is there until which it waits.
-/
def wait (fuel : Nat) (isThere : σ → Bool) (deadline : Option Nat) (s : σ) : σ :=
  match fuel with
  | 0 => s
  | fuel + 1 =>
    if isThere s || deadline.any (· ≤ clock s) then s
    else
      let s := settle s
      if isThere s then s
      else
        match ((agenda s).due?.toList ++ deadline.toList).min? with
        | some time => wait fuel isThere deadline (advance time s)
        | none => s

/--
More moments than anybody waits for.
-/
def manyMoments : Nat := 10000000

/--
Lets the crew work and time pass until there is what the foreground waits for, but no longer than
to the given time, if there is one.
-/
def await (isThere : σ → Bool) (deadline : Option Nat) (s : σ) : σ :=
  wait manyMoments isThere deadline s

/--
Lets the crew work and time pass until the given time. What is due at that time itself is left for
later, and nothing happens if the time is there already.
-/
def passUntil (time : Nat) (s : σ) : σ := await (fun _ => false) (some time) s

/--
Lets the crew work and time pass until nobody waits for a time.
-/
def finish (s : σ) : σ := await (fun _ => false) none s

end Alarms

section Stable

variable {P : σ → Prop} {s : σ}

/--
Whatever the members do and whenever they do it, this stays true. Nobody has to wait for that, so
that it holds however much fuel there is.
-/
structure Stable (P : σ → Prop) : Prop where
  clock (time : Nat) {s : σ} (h : P s) : P (setClock time s)
  agenda (a : Agenda ι κ) {s : σ} (h : P s) : P (setAgenda a s)
  move {who : ι} {s s' : σ} (h : P s) (hmove : move? who s = some s') : P s'
  rest (who : ι) {s : σ} (h : P s) : P (rest who s)

namespace Stable

variable (hP : Stable P)
include hP

theorem turn (fuel : Nat) (who : ι) (h : P s) : P (turn fuel who s) := by
  induction fuel generalizing s with
  | zero => exact hP.rest who h
  | succ fuel ih =>
    unfold Crew.turn
    split
    · next hmove => exact ih (hP.move h hmove)
    · exact hP.rest who h

theorem run (fuel : Nat) (h : P s) : P (run fuel s) := by
  induction fuel generalizing s with
  | zero => exact h
  | succ fuel ih =>
    unfold Crew.run
    split
    · exact ih (hP.turn _ _ (hP.agenda _ h))
    · exact h

theorem settle (h : P s) : P (settle s) := hP.run manyMoves h

section Alarms

variable [DecidableEq ι]

theorem advance (time : Nat) (h : P s) : P (advance time s) := hP.clock _ (hP.agenda _ h)

theorem wait (fuel : Nat) (isThere : σ → Bool) (deadline : Option Nat) (h : P s) :
    P (wait fuel isThere deadline s) := by
  induction fuel generalizing s with
  | zero => exact h
  | succ fuel ih =>
    have hsettled := hP.settle h
    unfold Crew.wait
    dsimp only
    split
    · exact h
    · split
      · exact hsettled
      · split
        · exact ih (hP.advance _ hsettled)
        · exact hsettled

theorem passUntil (time : Nat) (h : P s) : P (passUntil time s) := hP.wait _ _ _ h

theorem finish (h : P s) : P (finish s) := hP.wait _ _ _ h

end Alarms

end Stable

end Stable

end Crew

end Steward
