import Steward.Constraint.Definition
import Steward.Step.Act

/-!
This module contains the steps of the jobs that add and drop foreign keys. A constraint is staged
first, so that new rows obey it; then the rows that were there already are checked; and then it is
made public. To drop it takes one step.
-/

namespace Steward.Step

open Catalog
open Change (Args)

/--
The table with the constraint at a position in another stage.
-/
def setForeignKeyStage (t : Table) (pos : Nat) (stage : Stage) : Table :=
  { t with foreignKeys := t.foreignKeys.modify pos fun fk => { fk with stage } }

/--
Removes a constraint and ends the job with that, which undoes an addition as well.
-/
def removeForeignKey (s : Surroundings) (table : Table) (name : String) : Act Int := do
  let rollingBack := (← Act.job).isRollingBack
  match table.foreignKeyPosition? name with
  | some pos =>
    Act.complete s { table with foreignKeys := table.foreignKeys.eraseIdx pos }
      (if rollingBack then .rollbackDone else .done) .absent
  | none =>
    if rollingBack then
      return ← Act.finish .rollbackDone .absent (← Act.version) (some table)
    Act.cancel (.cantDropFieldOrKey name)

def dropForeignKey (s : Surroundings) : Act Int := do
  let job ← Act.job
  let .dropForeignKey name := job.args | Act.wrongArgs
  let table ← Act.publicTable
  if job.isRollingBack then
    return ← Act.finish .rollbackDone .live (← Act.version) (some table)
  match job.stage with
  | .live => removeForeignKey s table name
  | other => Act.fail (.invalidState "foreign key" other)

/--
The position of a constraint that is in the expected stage.
-/
def stagedPosition (table : Table) (name : String) (expected : Stage) : Act Nat :=
  match table.foreignKeyPosition? name with
  | none => Act.fail (.invalidState "foreign key" .absent)
  | some pos =>
    match table.foreignKeys[pos]? with
    | none => Act.fail (.invalidState "foreign key" .absent)
    | some fk =>
      if fk.stage = expected then pure pos else Act.fail (.invalidState "foreign key" fk.stage)

/--
The constraint, if the table has it staged already because an earlier step came so far.
-/
def stagedAlready? (table : Table) (fk : ForeignKey) : Option ForeignKey :=
  (table.findForeignKey? fk.name).filter fun existing =>
    existing.stage != .live && existing.sameDefinition fk

/--
Puts the constraint into the table in its first stage.
-/
def stageForeignKey (s : Surroundings) (table : Table) (fk : ForeignKey) (check : Bool) :
    Act Int := do
  let job ← Act.job
  match stagedAlready? table fk with
  | some existing =>
    Act.setStage existing.stage
    Act.version
  | none =>
    Act.orCancel
      (Constraint.checkAdded s.checksForeignKeys s.view job.schemaName table fk check)
    let id := table.maxForeignKeyId + 1
    let fk := { fk with id, stage := .writeOnly }
    modify fun d => { d with job := { d.job with args := .addForeignKey fk check } }
    Act.advance s { table with
      maxForeignKeyId := id, foreignKeys := table.foreignKeys ++ [fk] } .writeOnly

/--
A staged constraint whose rows are to be checked.
-/
structure Staged where
  table : Table
  pos : Nat
  fk : ForeignKey
  check : Bool

/--
A step that adds a constraint, up to the check of the rows.
-/
def beginAddition (s : Surroundings) : Act (Int ⊕ Staged) := do
  let job ← Act.job
  let .addForeignKey fk check := job.args | Act.wrongArgs
  let table ← Act.publicTable
  if job.isRollingBack then
    return .inl (← removeForeignKey s table fk.name)
  match job.stage with
  | .absent => return .inl (← stageForeignKey s table fk check)
  | .writeOnly =>
    let pos ← stagedPosition table fk.name .writeOnly
    return .inr ⟨table, pos, table.foreignKeys[pos]?.getD fk, check⟩
  | .writeReorg =>
    let pos ← stagedPosition table fk.name .writeReorg
    return .inl (← Act.complete s (setForeignKeyStage table pos .live) .done .live)
  | other => Act.fail (.invalidState "foreign key" other)

/--
The rest of the step after the check of the rows: the constraint goes on, or the job goes back.
-/
def endRowCheck (s : Surroundings) (staged : Staged)
    (verdict : Except Change.Trouble Unit) : Act Int :=
  match verdict with
  | .ok () =>
    Act.advance s (setForeignKeyStage staged.table staged.pos .writeReorg) .writeReorg
  | .error t => do
    if !t.isTransient then Act.setStatus .rollingBack
    throw t

def addForeignKey : Handler := fun s d =>
  match (beginAddition s).run d with
  | (.error t, d) => .done (.error t, d)
  | (.ok (.inl version), d) => .done (.ok version, d)
  | (.ok (.inr staged), d) =>
    (checkRows s d.job.schemaName staged.table.name staged.fk staged.check).map
      fun r => (endRowCheck r.1 staged r.2).run d

end Steward.Step
