import Steward.Runaway.Action
import Steward.Sql.Statement

/-!
This module contains watches: which queries of a group are quarantined, for how long, and what is
done about them. A watch with an id is a row of the watch table.
-/

namespace Steward.Runaway

open Sql (Row Value Trouble)

structure Watch where
  /-- Zero as long as the watch is no row. -/
  id : Int
  group : String
  start : Moment
  /-- There is no end to a watch without one. -/
  stop : Option Moment
  target : Target
  text : String
  source : String
  action : Action
  switchGroup : String
  cause : String
deriving DecidableEq, Repr, Inhabited

/--
How long a watch goes on.
-/
inductive Lifetime where
  | unbounded
  | remaining (left : Span)
  | ended
deriving DecidableEq, Repr

namespace Watch

/--
The key that watches of a text in a group are found by.
-/
def keyOf (group text : String) : String := group ++ "/" ++ text

def key (w : Watch) : String := keyOf w.group w.text

/--
Is the watch a row of the watch table?
-/
def isDurable (w : Watch) : Bool := w.id != 0

/--
Was the watch put there by an operator?
-/
def isManual (w : Watch) : Bool := w.source == "manual"

def lifetime (w : Watch) (now : Moment) : Lifetime :=
  match w.stop with
  | none => .unbounded
  | some stop => if now < stop then .remaining ⟨(stop.nanos - now.nanos).toNat⟩ else .ended

/--
The values of the columns after the id.
-/
def params (w : Watch) : List Value := [
  .text w.group, .time w.start, .ofTime? w.stop, .int w.target.number, .text w.text,
  .text w.source, .int w.action.number, .text w.switchGroup, .text w.cause]

/--
The watch in a row, whose first column is the id.
-/
def ofRow (r : Row) : Except Trouble Watch := do
  return {
    id := ← Trouble.ofRead (r.int64 0)
    group := ← Trouble.ofRead (r.text 1)
    start := ← Trouble.ofRead (r.time 2)
    stop := ← Trouble.ofRead (r.time? 3)
    target := ← word (Target.ofNumber (← Trouble.ofRead (r.int64 4)))
    text := ← Trouble.ofRead (r.text 5)
    source := ← Trouble.ofRead (r.text 6)
    action := ← word (Action.ofNumber (← Trouble.ofRead (r.int64 7)))
    switchGroup := ← Trouble.ofRead (r.text 8)
    cause := ← Trouble.ofRead (r.text 9) }
where
  word {α : Type} : Except String α → Except Trouble α
    | .ok a => .ok a
    | .error text => .error (.of text)

end Watch

end Steward.Runaway
