import Steward.Sql.Dialogue
import Steward.Time.Crew

/-!
This module contains desks, at which several dialogues are held at a time: they share a pool, a
state and a clock. Each is held under a label. One that waits for an answer is kept until the answer
is there and it is the turn of its label.
-/

namespace Steward.Sql

/--
What an alarm at a desk is set for.
-/
inductive Cue (τ : Type) where
  /-- The answer to a statement is there. -/
  | answer
  | tick (t : τ)
deriving DecidableEq, Repr

/--
A dialogue that is held at a desk.
-/
inductive Held (σ α : Type) where
  /-- It has not begun. -/
  | fresh (t : Dialogue σ α)
  | waiting (p : Pending σ α)

structure Desk (σ ι τ α : Type) where
  pool : Pool
  state : σ
  /-- Milliseconds since the desk is there. -/
  clock : Nat
  /-- What the wall clock showed when the clock was at zero, in milliseconds since the epoch. -/
  epoch : Int
  agenda : Agenda ι (Cue τ)
  held : List (ι × Held σ α)
  /-- How many dialogues were left to be begun later. -/
  spawned : Nat

namespace Desk

variable {σ ι τ α β : Type}

def ofState (s : σ) (epoch : Int) : Desk σ ι τ α := ⟨.idle, s, 0, epoch, .empty, [], 0⟩

def now (d : Desk σ ι τ α) : Now := ⟨d.clock, .ofMillis (d.epoch + d.clock)⟩

/--
The desk with another pool and another state.
-/
def put (d : Desk σ ι τ α) (r : β × σ × Pool) : β × Desk σ ι τ α :=
  (r.1, { d with state := r.2.1, pool := r.2.2 })

/--
Holds a dialogue until it ends or waits; if it waits, whoever began it has to come back.
-/
def hold (d : Desk σ ι τ α) (t : Dialogue σ β) : Dialogue.Standing σ β × Desk σ ι τ α :=
  d.put (t.advance d.now d.state d.pool)

/--
Goes on with a dialogue that waited.
-/
def resume (d : Desk σ ι τ α) (p : Pending σ β) : Dialogue.Standing σ β × Desk σ ι τ α :=
  d.put (p.resume d.now d.state d.pool)

/--
Keeps a dialogue under a label if it waits, and returns its result if it has ended.
-/
def keep (label : ι) (r : Dialogue.Standing σ α × Desk σ ι τ α) : Option α × Desk σ ι τ α :=
  match r with
  | (.ended a, d) => (some a, d)
  | (.waiting p, d) =>
    (none, { d with
      held := (label, .waiting p) :: d.held
      agenda := d.agenda.set p.due label .answer })

def begin (d : Desk σ ι τ α) (label : ι) (t : Dialogue σ α) : Option α × Desk σ ι τ α :=
  keep label (d.hold t)

section Labels

variable [DecidableEq ι]

/--
Leaves a dialogue to be begun when it is the turn of its label, which may be made of the number of
dialogues that were left so before.
-/
def spawn (d : Desk σ ι τ α) (label : Nat → ι) (t : Dialogue σ α) : Desk σ ι τ α :=
  let who := label d.spawned
  { d with
    held := (who, .fresh t) :: d.held
    agenda := d.agenda.call who
    spawned := d.spawned + 1 }

/--
Is a dialogue held under the label?
-/
def isHeld (d : Desk σ ι τ α) (label : ι) : Bool := d.held.any (·.1 = label)

/--
Goes on with the dialogue under a label, unless there is none or its answer is not there yet.
Returns its result if it has ended.
-/
def proceed? (d : Desk σ ι τ α) (label : ι) : Option (Option α × Desk σ ι τ α) :=
  let others : Desk σ ι τ α := { d with held := d.held.filter (·.1 ≠ label) }
  match d.held.lookup label with
  | none => none
  | some (.fresh t) => some (others.begin label t)
  | some (.waiting p) => if p.due ≤ d.clock then some (keep label (others.resume p)) else none

/--
Sets an alarm, unless it is set already.
-/
def arm [DecidableEq τ] (d : Desk σ ι τ α) (time : Nat) (who : ι) (t : τ) : Desk σ ι τ α :=
  if d.agenda.isSet who (.tick t) then d
  else { d with agenda := d.agenda.set time who (.tick t) }

/--
Where there are no ticks, there is nothing to do but the dialogues. Nobody asks for their results.
-/
instance : Crew (Desk σ ι Empty α) ι (Cue Empty) where
  clock d := d.clock
  setClock clock d := { d with clock }
  agenda d := d.agenda
  setAgenda agenda d := { d with agenda }
  move? who d := (d.proceed? who).map (·.2)
  rest _ d := d

end Labels

end Desk

end Steward.Sql
