import Steward.Constraint.Removal
import Steward.Step.Act

/-!
This module contains the steps of the jobs that drop an index or a column.
-/

namespace Steward.Step

open Catalog

/--
The table with the index at a position in another stage.
-/
def setIndexStage (t : Table) (pos : Nat) (stage : Stage) : Table :=
  { t with indices := t.indices.modify pos fun ix => { ix with stage } }

/--
The table with the column at a position in another stage.
-/
def setColumnStage (t : Table) (pos : Nat) (stage : Stage) : Table :=
  { t with columns := t.columns.modify pos fun c => { c with stage } }

namespace Hiding

/--
An index that is to disappear because of a job, at its position in the table.
-/
def ofIndex (s : Surroundings) (job : Change.Job) (table : Table) (name : String) (pos : Nat) :
    Hiding where
  what := "index"
  isLive := (table.indices[pos]?.map (·.stage)) = some .live
  withStage := setIndexStage table pos
  check := Constraint.checkIndexUnneeded s.checksForeignKeys s.view job.schemaName table name
  last := Act.complete s { table with indices := table.indices.eraseIdx pos } .done .absent

/--
A column that is to disappear because of a job, at its position in the table.
-/
def ofColumn (s : Surroundings) (job : Change.Job) (table : Table) (name : String) (pos : Nat) :
    Hiding where
  what := "column"
  isLive := (table.columns[pos]?.map (·.stage)) = some .live
  withStage := setColumnStage table pos
  check := Constraint.checkColumnUnneeded s.checksForeignKeys s.view job.schemaName table name
  last := Act.complete s (table.dropColumn pos) .done .absent

end Hiding

def dropIndex (s : Surroundings) : Act Int := do
  let job ← Act.job
  let .dropIndex name := job.args | Act.wrongArgs
  let table ← Act.publicTable
  let some pos := table.indexPosition? name | Act.cancel (.cantDropFieldOrKey name)
  hide s table (.ofIndex s job table name pos)

def dropColumn (s : Surroundings) : Act Int := do
  let job ← Act.job
  let .dropColumn name := job.args | Act.wrongArgs
  let table ← Act.publicTable
  let some pos := table.columnPosition? name | Act.cancel (.cantDropFieldOrKey name)
  hide s table (.ofColumn s job table name pos)

end Steward.Step
