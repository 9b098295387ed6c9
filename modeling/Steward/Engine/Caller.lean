import Steward.Engine.Basic

/-!
This module contains the callers of an engine. A caller submits its statement when it is its turn.
Then it looks for the job among those that are over, at once, whenever it is told that one is, and
now and then without being told, until it finds the job or has waited long enough.
-/

namespace Steward.Engine

open Change (Job Trouble)

/--
The engine after a caller has got its result.
-/
def leave (e : Engine) (n : Nat) (result : Except Trouble (Option Job)) : Engine :=
  { e with
    callers := e.callers.set n (.ended result)
    agenda := e.agenda.cancel (·.who = .caller n) }

/--
A caller waits until it is told something or the time has come to look again.
-/
def watch (e : Engine) (n : Nat) (id : Int) (deadline : Option Nat) : Engine :=
  let look := e.node.clock + e.node.settings.pollInterval.millis
  let agenda := e.agenda.cancel fun alarm => alarm.who = .caller n ∧ alarm.what = .look
  { e with
    callers := e.callers.set n (.waiting ⟨id, deadline, look, false⟩)
    agenda := agenda.set look (.caller n) .look }

/--
A caller submits its statement, and is about to look for the job.
-/
def submitFor (e : Engine) (n : Nat) (st : Statement) (patience : Option Nat) : Engine :=
  match e.node.submit st with
  | .error t => e.leave n (.error t)
  | .ok (id, node) =>
    let e := { e with node }.notify
    let now := e.node.clock
    let deadline := patience.map (now + ·)
    { e with
      callers := e.callers.set n (.waiting ⟨id, deadline, now, true⟩)
      agenda := deadline.elim e.agenda fun time => e.agenda.set time (.caller n) .deadline }

/--
One move of a caller, if it can make one now.
-/
def moveCaller? (e : Engine) (n : Nat) : Option Engine :=
  match e.callers[n]? with
  | some (.fresh st patience) => some (e.submitFor n st patience)
  | some (.waiting w) =>
    if w.told || w.look ≤ e.node.clock then
      match e.node.store.snapshot.history.get? w.id with
      | some job => some (e.leave n ((verdict job).map some))
      | none => some (e.watch n w.id w.deadline)
    else if w.deadline.any (· ≤ e.node.clock) then some (e.leave n (.ok none))
    else none
  | _ => none

end Steward.Engine
