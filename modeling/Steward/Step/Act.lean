import Steward.Step.Work

/-!
This module contains the actions that steps are made of. An action that fails keeps what it did to
the job of the draft, so that a failed step can cancel its job or send it back.
-/

namespace Steward.Step

open Catalog (Fault ForeignKey Stage Table)
open Change (Args Job Status Trouble)
open Ledger (Txn)

abbrev Act := ExceptT Trouble (StateM Draft)

namespace Act

def job : Act Job := return (← get).job

def setStatus (status : Status) : Act Unit :=
  modify fun d => { d with job := { d.job with status } }

def setStage (stage : Stage) : Act Unit :=
  modify fun d => { d with job := { d.job with stage } }

def fail {α : Type} (f : Fault) : Act α := throw (.ofFault f)

/--
Cancels the job because of a fault.
-/
def cancel {α : Type} (f : Fault) : Act α := do
  setStatus .cancelled
  fail f

/--
Cancels the job because of the fault, unless the condition holds.
-/
def ensure (ok : Bool) (f : Fault) : Act Unit := if ok then pure () else cancel f

def ofExcept {α : Type} (e : Except Trouble α) : Act α := ExceptT.mk (pure e)

/--
Goes on after a check that found no fault, and cancels the job otherwise.
-/
def orCancel (check : Except Fault Unit) : Act Unit :=
  match check with
  | .ok () => pure ()
  | .error f => cancel f

/--
Cancels the job because its arguments are those of another kind.
-/
def wrongArgs {α : Type} : Act α := do
  cancel (.invalidJobArgs (← job).kind.display)

/--
The table of the job in any stage.
-/
def anyTable : Act Table := fun d =>
  let (found, job) := d.txn.loadTable d.job
  (found, { d with job })

/--
The table of the job, which has to be public.
-/
def publicTable : Act Table := fun d =>
  let (found, job) := d.txn.loadPublicTable d.job
  (found, { d with job })

def inTxn (f : Txn → Except Trouble Txn) : Act Unit := fun d =>
  match f d.txn with
  | .ok txn => (.ok (), { d with txn })
  | .error t => (.error t, d)

def version : Act Int := return (← get).txn.schemaVersion

def newVersion : Act Int := modifyGet fun d =>
  let (version, txn) := d.txn.newVersion
  (version, { d with txn })

/--
Writes the table in a new schema version, and returns the version and the table as it was written.
-/
def write (s : Surroundings) (table : Table) : Act (Int × Table) := fun d =>
  match d.txn.writeTable d.job table s.stamp true with
  | .ok (version, table, txn) => (.ok (version, table), { d with txn })
  | .error t => (.error t, d)

def finish (status : Status) (stage : Stage) (version : Int) (table : Option Table) : Act Int := do
  modify fun d => { d with job := d.job.finish status stage version table }
  return version

/--
Writes the table and moves the job on to the stage.
-/
def advance (s : Surroundings) (table : Table) (stage : Stage) : Act Int := do
  let (version, _) ← write s table
  setStage stage
  return version

/--
Writes the table and ends the job with it.
-/
def complete (s : Surroundings) (table : Table) (status : Status) (stage : Stage) : Act Int := do
  let (version, table) ← write s table
  finish status stage version (some table)

/--
The work of a step that asks nothing.
-/
def toWork (a : Act Int) (d : Draft) : Work Result := .done (a.run d)

end Act

end Steward.Step

/-!
### Hiding

The steps by which a table or a part of one disappears: it is hidden from readers, then from
writers, and then it goes.
-/

namespace Steward.Step

open Catalog

/--
A table or a part of one that is to disappear.
-/
structure Hiding where
  /-- What it is called in messages. -/
  what : String
  /-- Is it public? -/
  isLive : Bool
  /-- The table with it in another stage. -/
  withStage : Stage → Table
  /-- May it disappear? -/
  check : Except Fault Unit
  /-- The step after which it is gone. -/
  last : Act Int

/--
The next step by which something disappears from a table. A job that goes back makes it public
again.
-/
def hide (s : Surroundings) (table : Table) (h : Hiding) : Act Int := do
  let job ← Act.job
  if job.isRollingBack then
    if h.isLive then
      return ← Act.finish .rollbackDone .live (← Act.version) (some table)
    return ← Act.complete s (h.withStage .live) .rollbackDone .live
  match job.stage with
  | .live =>
    Act.orCancel h.check
    Act.advance s (h.withStage .writeOnly) .writeOnly
  | .writeOnly => Act.advance s (h.withStage .deleteOnly) .deleteOnly
  | .deleteOnly => h.last
  | other => Act.fail (.invalidState h.what other)

end Steward.Step
