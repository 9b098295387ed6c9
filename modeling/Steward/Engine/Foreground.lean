import Steward.Engine.Running

/-!
This module contains steps that are taken by hand. While such a step waits for rows, time passes,
and the worker of the same node goes on.
-/

namespace Steward.Engine

open Change (Trouble)

/--
Begins a step of the oldest job by hand.
-/
def beginStep (e : Engine) (handlers : Step.Registry) : Standing × Engine :=
  let (s, node) := e.node.beginStep handlers
  (s, { e with node })

/--
More answers than a step waits for.
-/
def manyAnswers : Nat := 1000

/--
Follows a step for at most `fuel` answers, until it ends or the given moment has come. An answer that
is due at that moment itself is left for later.
-/
def follow (fuel : Nat) (limit : Option Nat) (e : Engine) (s : Standing) : Standing × Engine :=
  match fuel, s with
  | fuel + 1, .flying f =>
    match limit.filter (· ≤ f.due) with
    | some time => (.flying f, Crew.passUntil time e)
    | none =>
      let e := Crew.passUntil f.due e
      let (s, node) := e.node.land f
      follow fuel limit { e with node } s
  | _, s => (s, e)

/--
Follows a step to its end; it is lost if the node stopped being the owner before the answer was
there.
-/
def followToEnd (e : Engine) (s : Standing) : Standing × Engine :=
  match s with
  | .flying f =>
    if f.due ≤ e.node.clock || e.node.isOwner then e.follow manyAnswers none s
    else
      let (s, node) := e.node.lose f
      { e with node }.follow manyAnswers none s
  | s => (s, e)

namespace Standing

/--
Was there a job, unless its step failed?
-/
def ran : Standing → Except Trouble Bool
  | idle => .ok false
  | ended _ => .ok true
  | flying _ => .ok true
  | failed t => .error t

end Standing

/--
Takes a step of the oldest job by hand, and says whether there was one.
-/
def takeStep (e : Engine) (handlers : Step.Registry) : Except Trouble Bool × Engine :=
  let (s, e) := e.beginStep handlers
  let (s, e) := e.followToEnd s
  (s.ran, e)

end Steward.Engine
