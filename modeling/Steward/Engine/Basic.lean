import Steward.Engine.Statement
import Steward.Time.Crew

/-!
This module contains engines. An engine is a node together with those who go on by themselves: the
worker that takes the steps of the jobs, and callers, who submit a statement each and wait for its
end.
-/

namespace Steward

namespace Engine

open Change (Job Trouble)

inductive Member where
  | worker
  | caller (n : Nat)
deriving DecidableEq, Repr

inductive Cue where
  /-- The answer to the statement of a step is there. -/
  | answer
  /-- The worker has rested. -/
  | rested
  /-- It is time to look whether a job is over. -/
  | look
  /-- A caller has waited long enough. -/
  | deadline
deriving DecidableEq, Repr

inductive Activity where
  /-- It is about to look for a job. -/
  | ready
  /-- It looks for a job again at the given time. -/
  | resting (wake : Nat)
  | stepping (f : Flight)
  | stopped

/--
What a caller waits for who has submitted a job.
-/
structure Watch where
  id : Int
  deadline : Option Nat
  /-- When the caller looks whether the job is over, if nobody tells it before. -/
  look : Nat
  /-- Some job is over since the caller looked, or it did not look yet. -/
  told : Bool
deriving DecidableEq, Repr

inductive Caller where
  /-- It is about to submit a statement, and will wait for so many milliseconds at most. -/
  | fresh (st : Statement) (patience : Option Nat)
  | waiting (w : Watch)
  /-- There is no job if it was too late. -/
  | ended (result : Except Trouble (Option Job))

namespace Caller

def isWaiting : Caller → Bool
  | waiting _ => true
  | _ => false

def hasEnded : Caller → Bool
  | ended _ => true
  | _ => false

/--
The caller after it was told that a job is over.
-/
def tell : Caller → Caller
  | waiting w => waiting { w with told := true }
  | c => c

end Caller

end Engine

structure Engine where
  node : Engine.Node
  handlers : Step.Registry
  /-- There may be no worker. -/
  worker : Option Engine.Activity
  /-- A job was submitted since the worker looked for one. -/
  called : Bool
  /-- The worker is to stop after its step. -/
  stopping : Bool
  /-- The callers, by their numbers. -/
  callers : List Engine.Caller
  agenda : Agenda Engine.Member Engine.Cue

namespace Engine

/--
An engine without a worker.
-/
def ofNode (node : Node) : Engine :=
  ⟨node, Step.Registry.standard, none, false, false, [], .empty⟩

def callWorker (e : Engine) : Engine := { e with agenda := e.agenda.call .worker }

/--
Tells the worker that a job was submitted.
-/
def notify (e : Engine) : Engine := { e with called := true }.callWorker

/--
Makes the node the owner, or takes that from it. A step that is in flight may be lost by that.
-/
def setOwner (e : Engine) (isOwner : Bool) : Engine :=
  { e with node := { e.node with isOwner } }.callWorker

/--
Tells those who wait for jobs that one is over.
-/
def announce (e : Engine) : Engine :=
  let numbered := e.callers.zipIdx.filter (·.1.isWaiting)
  { e with
    callers := e.callers.map Caller.tell
    agenda := e.agenda.callAll (numbered.map fun c => .caller c.2) }

end Engine

end Steward
