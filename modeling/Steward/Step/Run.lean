import Steward.Ledger.Store
import Steward.Step.Registry

/-!
This module contains the run of one step: the oldest job takes it on a draft, and the draft is
committed together with the job. A step that fails loses its draft, and the job alone is written
with what went wrong. A step is given up without a trace if the node stopped being the owner or if
another commit was in its way.
-/

namespace Steward.Step

open Catalog (Stage)
open Change (Job Trouble)
open Ledger (Store)

structure Begun where
  /-- The stage of the job before the step. -/
  source : Stage
  work : Work Result

/--
Begins a step of the oldest job, if there is one.
-/
def begin (store : Store) (handlers : Registry) (s : Surroundings) : Option Begun :=
  store.snapshot.firstJob?.map fun job =>
    ⟨job.stage, handlers job.kind s ⟨store.begin, job.started⟩⟩

/--
The result of a handler, unless it moved the job out of order.
-/
def guardOrder (source : Stage) (result : Result) : Result :=
  match result with
  | (.ok version, d) =>
    if d.job.kind.allows source d.job.stage d.job.status then (.ok version, d)
    else
      (.error (.ofFault (.invalidState s!"{d.job.kind.display} job" d.job.stage)),
        { d with job := { d.job with stage := source } })
  | failed => failed

/--
Is the trouble a sign that the job can never succeed?
-/
def isHopeless (t : Trouble) : Bool :=
  match t.kept with
  | .invalidState _ _ => true
  | _ => false

/--
The job after one more failure: it tries again until it has failed more than `limit` times, unless
it can never succeed.
-/
def countFailure (limit : Nat) (job : Job) (t : Trouble) : Job :=
  if isHopeless t ∨ limit < job.errorCount + 1 then
    { job with errorCount := job.errorCount + 1 }.turnBack
  else { job with errorCount := job.errorCount + 1 }

/--
The job with what went wrong. One that is cancelled by that is over.
-/
def withError (job : Job) (f : Catalog.Fault) : Job :=
  { job with
    error := some f
    finished :=
      if job.status = .cancelled ∧ job.finished = none then some ⟨job.schemaVersion, none⟩
      else job.finished }

/--
The job of a step that failed. The failure counts unless the job is cancelled or goes back.
-/
def blame (limit : Nat) (job : Job) (t : Trouble) : Job :=
  match job.status with
  | .cancelled | .rollingBack => withError job t.kept
  | _ => withError (countFailure limit job t) t.kept

inductive Ending where
  /-- Nothing was written. -/
  | abandoned
  | committed (store : Store) (job : Job)

/--
Commits a draft with its job; a conflict with another commit abandons the step.
-/
def commit (store : Store) (what : String) (d : Draft) : Except Trouble Ending := do
  let txn ← d.txn.persistJob d.job
  match store.commit txn with
  | .ok store => return .committed store d.job
  | .error t =>
    if t.isTransient then return .abandoned
    else throw (t.during s!"{what} of job {d.job.id}")

/--
What a step whose handler is through is going to commit, and how that is called. `owned` says that
the node was the owner all the time.
-/
def settle (limit : Nat) (store : Store) (owned : Bool) (source : Stage) (result : Result) :
    Option (String × Draft) :=
  match guardOrder source result with
  | (.ok version, d) =>
    if owned then
      let job := { d.job with
        schemaVersion := version
        error := if d.job.isDone then none else d.job.error }
      some ("commit step", { d with job })
    else none
  | (.error t, d) =>
    if t.isTransient then none
    else some ("persist failed job", ⟨store.begin, blame limit d.job t⟩)

/--
Ends a step whose handler is through.
-/
def conclude (limit : Nat) (store : Store) (owned : Bool) (source : Stage) (result : Result) :
    Except Trouble Ending :=
  match settle limit store owned source result with
  | some (what, d) => commit store what d
  | none => .ok .abandoned

end Steward.Step
