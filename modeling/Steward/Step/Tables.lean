import Steward.Constraint.Removal
import Steward.Step.Act

/-!
This module contains the steps of the jobs that create, drop and truncate tables.
-/

namespace Steward.Step

open Catalog

/--
A table that a job declares, as it is created.
-/
def createdTable (job : Change.Job) (table : Table) : Table :=
  { table with
    id := job.tableId
    stage := .live
    foreignKeys := table.foreignKeys.map fun fk => { fk with stage := .live } }

/--
A table is created in one step.
-/
def createTable (s : Surroundings) : Act Int := do
  let job ← Act.job
  let .createTable table check := job.args | Act.wrongArgs
  if job.isRollingBack then
    return ← Act.finish .rollbackDone .absent (← Act.version) none
  match job.stage with
  | .absent =>
    let txn := (← get).txn
    Act.ensure (txn.schema? job.schemaId).isSome (.databaseNotExists job.schemaName)
    let tables ← Act.ofExcept (txn.tables job.schemaId)
    Act.ensure (!tables.any fun t => Text.same t.name table.name) (.tableExists table.name)
    Act.orCancel (Constraint.checkDeclared s.checksForeignKeys s.view job.schemaName table check)
    let table := createdTable job table
    Act.inTxn fun txn =>
      during s!"create table {table.name}" (txn.createTable job.schemaId table)
    Act.complete s table .done .live
  | other => Act.fail (.invalidState "table" other)

/--
A table that is to disappear because of a job.
-/
def Hiding.ofTable (s : Surroundings) (job : Change.Job) (table : Table) (check : Bool) :
    Hiding where
  what := "table"
  isLive := table.stage = .live
  withStage stage := { table with stage }
  check := Constraint.checkUnreferred s.checksForeignKeys s.view job.schemaName table.name check
  last := do
    Act.inTxn fun txn =>
      during s!"drop table {table.name}" (txn.dropTable job.schemaId table.id)
    let version ← Act.newVersion
    Act.finish .done .absent version (some { table with stage := .absent })

def dropTable (s : Surroundings) : Act Int := do
  let job ← Act.job
  let .dropTable check := job.args | Act.wrongArgs
  let table ← Act.anyTable
  hide s table (.ofTable s job table check)

/--
A table is truncated in one step: the table goes, and one like it comes with a new id.
-/
def truncateTable (s : Surroundings) : Act Int := do
  let job ← Act.job
  let .truncateTable newId check := job.args | Act.wrongArgs
  let table ← Act.publicTable
  if job.isRollingBack then
    return ← Act.finish .rollbackDone .absent (← Act.version) (some table)
  match job.stage with
  | .absent =>
    Act.orCancel
      (Constraint.checkUnreferred s.checksForeignKeys s.view job.schemaName table.name check)
    Act.inTxn fun txn => txn.dropTable job.schemaId table.id
    let fresh := { table with id := newId }
    Act.inTxn fun txn =>
      during s!"recreate table {fresh.name}" (txn.createTable job.schemaId fresh)
    Act.complete s fresh .done .live
  | other => Act.fail (.invalidState "table" other)

end Steward.Step
