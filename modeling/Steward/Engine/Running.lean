import Steward.Engine.Caller
import Steward.Engine.Worker

/-!
This module contains running engines: how time passes for the worker and the callers, and what may
be asked of them in the foreground.
-/

namespace Steward

namespace Engine

open Change (Job Trouble)

instance : Crew Engine Member Cue where
  clock e := e.node.clock
  setClock clock e := { e with node := { e.node with clock } }
  agenda e := e.agenda
  setAgenda agenda e := { e with agenda }
  move? who e :=
    match who with
    | .worker => e.moveWorker?
    | .caller n => e.moveCaller? n
  rest _ e := e

/--
Starts the worker of a node with the given handlers. It needs the tables that hold the jobs in their
current version.
-/
def start (node : Node) (handlers : Step.Registry) : Except Trouble Engine := do
  let t := node.store.begin
  let node ←
    if 1 ≤ t.jobTablesVersion then pure node
    else
      during "start ddl worker"
        (during "upgrade ddl table version" (node.commit (t.setJobTablesVersion 1)))
  return { ofNode node with handlers, worker := some .ready }.callWorker

/--
Submits the job of a statement in the foreground, and returns its id.
-/
def submit (e : Engine) (st : Statement) : Except Trouble (Int × Engine) := do
  let (id, node) ← e.node.submit st
  return (id, { e with node }.notify)

/--
Waits for the end of a job, up to the given time if there is one. Returns the job if it is over.
-/
def awaitJob (e : Engine) (id : Int) (deadline : Option Nat) : Option Job × Engine :=
  let ended? (e : Engine) := e.node.store.snapshot.history.get? id
  let e := Crew.await (fun e => (ended? e).isSome) deadline e
  (ended? e, e)

/--
Lets callers submit their statements, one after the other, and waits until the last of them has got
its result. There is no job for those who waited too long.
-/
def callTogether (e : Engine) (cs : List (Statement × Option Nat)) :
    List (Except Trouble (Option Job)) × Engine :=
  let numbers := (List.range cs.length).map Member.caller
  let e := { e with
    callers := cs.map fun (st, patience) => Caller.fresh st patience
    agenda := e.agenda.callAll numbers }
  let e := Crew.await (fun e => e.callers.all Caller.hasEnded) none (Crew.settle e)
  let results := e.callers.map fun c =>
    match c with
    | Caller.ended result => result
    | _ => .ok none
  (results, { e with callers := [] })

/--
Is there a worker that goes on?
-/
def isAtWork (e : Engine) : Bool :=
  match e.worker with
  | none => false
  | some .stopped => false
  | some _ => true

/--
Stops the worker, if there is one, after its step.
-/
def shutdown (e : Engine) : Engine :=
  let e := Crew.await (fun e => !e.isAtWork) none { e with stopping := true }.callWorker
  { e with worker := none }

end Engine

end Steward
