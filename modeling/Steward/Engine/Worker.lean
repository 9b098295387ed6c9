import Steward.Engine.Basic

/-!
This module contains the worker of an engine. As long as there are jobs and the node is the owner,
it takes one step after the other; when there is nothing to do, it looks again after the poll
interval, or as soon as a job is submitted.
-/

namespace Steward.Engine

open Step (Ending)

def rest (e : Engine) : Engine :=
  let wake := e.node.clock + e.node.settings.pollInterval.millis
  { e with worker := some (.resting wake), agenda := e.agenda.set wake .worker .rested }

/--
The worker goes on to something else and waits no longer.
-/
def turnTo (e : Engine) (a : Activity) : Engine :=
  { e with worker := some a, agenda := e.agenda.cancel (·.who = .worker) }

/--
The engine after a step that ended so.
-/
def report (e : Engine) : Ending → Engine
  | .committed _ job => if job.isFinished then e.announce else e
  | .abandoned => e

/--
The worker after a step. It looks for the next one at once unless there is no job or it failed.
-/
def after (e : Engine) (s : Standing) (node : Node) : Engine :=
  let e := { e with node }
  match s with
  | .flying f =>
    { e with worker := some (.stepping f), agenda := e.agenda.set f.due .worker .answer }
  | .ended ending => { e.report ending with worker := some .ready }
  | .idle => e.rest
  | .failed _ => e.rest

/--
One move of the worker, if it can make one now.
-/
def moveWorker? (e : Engine) : Option Engine :=
  match e.worker with
  | none => none
  | some .stopped => none
  | some .ready =>
    if e.stopping then some (e.turnTo .stopped)
    else if e.node.isOwner then
      let (s, node) := e.node.beginStep e.handlers
      some (e.after s node)
    else some e.rest
  | some (.resting wake) =>
    if e.stopping then some (e.turnTo .stopped)
    else if e.called then some { e.turnTo .ready with called := false }
    else if wake ≤ e.node.clock then some (e.turnTo .ready)
    else none
  | some (.stepping f) =>
    if f.due ≤ e.node.clock then
      let (s, node) := e.node.land f
      some ((e.turnTo .ready).after s node)
    else if e.node.isOwner then none
    else
      let (s, node) := e.node.lose f
      some ((e.turnTo .ready).after s node)

end Steward.Engine
