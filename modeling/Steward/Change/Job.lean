import Steward.Catalog.Fault
import Steward.Catalog.Table
import Steward.Change.Kind

/-!
This module contains jobs: a job carries one schema change from its submission to its end, one
stage in a step.
-/

namespace Steward.Change

open Catalog

/--
What a job of each kind needs to know.
-/
inductive Args where
  | createTable (table : Table) (check : Bool)
  | dropTable (check : Bool)
  | truncateTable (newId : Int) (check : Bool)
  | addForeignKey (fk : ForeignKey) (check : Bool)
  | dropForeignKey (name : String)
  | dropIndex (name : String)
  | dropColumn (name : String)
deriving DecidableEq, Repr

namespace Args

def kind : Args → Kind
  | createTable .. => .createTable
  | dropTable .. => .dropTable
  | truncateTable .. => .truncateTable
  | addForeignKey .. => .addForeignKey
  | dropForeignKey .. => .dropForeignKey
  | dropIndex .. => .dropIndex
  | dropColumn .. => .dropColumn

end Args

/--
What a finished job tells those who wait for it.
-/
structure Outcome where
  schemaVersion : Int
  table : Option Table
deriving DecidableEq, Repr

structure Job where
  id : Int
  kind : Kind
  schemaId : Int
  tableId : Int
  schemaName : String
  tableName : String
  stage : Stage
  status : Status
  args : Args
  /-- The version that the last committed step made. -/
  schemaVersion : Int
  error : Option Fault
  errorCount : Nat
  rowCount : Nat
  finished : Option Outcome
deriving DecidableEq, Repr

namespace Job

/--
A job that was not submitted yet.
-/
def ofArgs (schemaId tableId : Int) (schemaName tableName : String) (args : Args) : Job where
  id := 0
  kind := args.kind
  schemaId := schemaId
  tableId := tableId
  schemaName := schemaName
  tableName := tableName
  stage := args.kind.initial
  status := .queued
  args := args
  schemaVersion := 0
  error := none
  errorCount := 0
  rowCount := 0
  finished := none

def isRollingBack (j : Job) : Bool := j.status == .rollingBack

def isDone (j : Job) : Bool := j.status == .done

def isFinished (j : Job) : Bool := j.status.isTerminal

/--
The job as it takes a step.
-/
def started (j : Job) : Job := if j.status = .queued then { j with status := .running } else j

def finish (j : Job) (status : Status) (stage : Stage) (schemaVersion : Int)
    (table : Option Table) : Job :=
  { j with status, stage, finished := some ⟨schemaVersion, table⟩ }

/--
Turns a job that cannot go on: it is cancelled if it changed nothing yet, and else undone.
-/
def turnBack (j : Job) : Job :=
  { j with status := if j.stage = j.kind.initial then .cancelled else .rollingBack }

def display (j : Job) : String :=
  s!"ID:{j.id}, Type:{j.kind.display}, State:{j.status.display}, " ++
    s!"SchemaState:{j.stage.display}, SchemaID:{j.schemaId}, TableID:{j.tableId}, " ++
    s!"ErrCount:{j.errorCount}"

end Job

end Steward.Change
