import Steward.Engine.Node

/-!
This module contains the statements that change the schema. A statement checks what its session
sees, submits a job, and waits for its end; the worker checks everything again, so a statement that
gets so far may still fail.
-/

namespace Steward.Engine

open Catalog (Fault ForeignKey Schema Table)
open Change (Args Job Trouble)
open Ledger (Txn)

inductive Statement where
  | createTable (schema : String) (table : Table) (check : Bool)
  | addForeignKey (schema table : String) (fk : ForeignKey) (check : Bool)
  | dropForeignKey (schema table name : String)
  | dropTable (schema table : String) (check : Bool)
  | truncateTable (schema table : String) (check : Bool)
  | dropIndex (schema table name : String)
  | dropColumn (schema table name : String)

/--
A table that a statement names, and the id of its schema.
-/
def resolve (v : View) (schema table : String) : Except Fault (Int × Table) :=
  match v.schema? schema with
  | none => .error (.databaseNotExists schema)
  | some s => do return (s.id, ← v.table schema table)

/--
The fault, unless there is a part with the name.
-/
def orMissing (found : Bool) (name : String) : Except Fault Unit :=
  if found then .ok () else .error (.cantDropFieldOrKey name)

namespace Statement

/--
How the job of a statement is made in a transaction, if the statement passes the checks.
-/
def plan (checksForeignKeys : Bool) (v : View) : Statement → Except Fault (Txn → Job × Txn)
  | createTable schema table check =>
    match v.schema? schema with
    | none => .error (.databaseNotExists schema)
    | some s =>
      if v.hasTable schema table.name then .error (.tableExists table.name)
      else
        .ok fun t =>
          let (id, t) := t.newId
          (Job.ofArgs s.id id s.name table.name (.createTable table check), t)
  | addForeignKey schema table fk check => do
    let (schemaId, target) ← resolve v schema table
    Constraint.checkAdded checksForeignKeys v schema target fk check
    return submit schemaId target schema (.addForeignKey fk check)
  | dropForeignKey schema table name => do
    let (schemaId, target) ← resolve v schema table
    orMissing (target.findForeignKey? name).isSome name
    return submit schemaId target schema (.dropForeignKey name)
  | dropTable schema table check => do
    let (schemaId, target) ← resolve v schema table
    return submit schemaId target schema (.dropTable check)
  | truncateTable schema table check => do
    let (schemaId, target) ← resolve v schema table
    return fun t =>
      let (newId, t) := t.newId
      (Job.ofArgs schemaId target.id schema target.name (.truncateTable newId check), t)
  | dropIndex schema table name => do
    let (schemaId, target) ← resolve v schema table
    orMissing (target.findIndex? name).isSome name
    return submit schemaId target schema (.dropIndex name)
  | dropColumn schema table name => do
    let (schemaId, target) ← resolve v schema table
    orMissing (target.findColumn? name).isSome name
    return submit schemaId target schema (.dropColumn name)
where
  submit (schemaId : Int) (target : Table) (schema : String) (args : Args) (t : Txn) : Job × Txn :=
    (Job.ofArgs schemaId target.id schema target.name args, t)

end Statement

/--
The answer of a statement whose job is over: the job itself if it is done, and else what went
wrong.
-/
def verdict (job : Job) : Except Trouble Job :=
  if job.status = .done then .ok job
  else
    match job.error with
    | some f => .error (.ofFault f)
    | none =>
      .error (.ofFault (.internal s!"job {job.id} ended {job.status.display} without error"))

/--
Makes the job of a statement in a transaction and puts it into the queue.
-/
def enlist (plan : Txn → Job × Txn) (t : Txn) : Int × Txn :=
  let (job, t) := plan t
  t.enqueue job

/--
Submits the job of a statement, and returns its id.
-/
def Node.submit (n : Node) (st : Statement) : Except Trouble (Int × Node) := do
  let plan ← Change.ofFault (st.plan n.settings.checksForeignKeys n.view)
  let (id, t) := enlist plan n.store.begin
  return (id, ← during "enqueue ddl job" (n.commit t))

end Steward.Engine
