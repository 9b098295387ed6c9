import Steward.Change.Trouble
import Steward.Ledger.Snapshot

/-!
This module contains transactions: a working copy of the snapshot that was there when the
transaction began, and the operations on it.
-/

namespace Steward.Ledger

open Catalog (Schema Stage Table)
open Change (Job Trouble)

structure Txn where
  base : Snapshot
  working : Snapshot
deriving DecidableEq, Inhabited

namespace Txn

def begin (s : Snapshot) : Txn := ⟨s, s⟩

/--
The transaction with another catalog in its working copy.
-/
def withCatalog (t : Txn) (catalog : Description) : Txn :=
  { t with working := { t.working with catalog } }

/--
The transaction with other tables in the schema.
-/
def withTables (t : Txn) (schemaId : Int) (tables : IdMap Table) : Txn :=
  t.withCatalog
    { t.working.catalog with tables := t.working.catalog.tables.insert schemaId tables }

def schema? (t : Txn) (schemaId : Int) : Option Schema := t.working.catalog.schemas.get? schemaId

def schemas (t : Txn) : List Schema := t.working.catalog.schemas.values

def table? (t : Txn) (schemaId tableId : Int) : Option Table := t.working.table? schemaId tableId

def tables (t : Txn) (schemaId : Int) : Except Trouble (List Table) :=
  match t.working.catalog.tables.get? schemaId with
  | some ts => .ok ts.values
  | none => .error (.ofFault (.databaseNotExists (toString schemaId)))

/--
The tables of a schema that is there.
-/
def writableTables (t : Txn) (schemaId : Int) : Except Trouble (IdMap Table) :=
  if t.working.catalog.schemas.contains schemaId then
    .ok ((t.working.catalog.tables.get? schemaId).getD ∅)
  else .error (.ofFault (.databaseNotExists (toString schemaId)))

/--
The transaction with a place for the tables of a schema that is there. Every change of a table
makes that place first, also one that fails then.
-/
def makePlace (t : Txn) (schemaId : Int) : Txn :=
  if t.working.catalog.schemas.contains schemaId && !t.working.catalog.tables.contains schemaId then
    t.withTables schemaId ∅
  else t

def createSchema (t : Txn) (s : Schema) : Except Trouble Txn :=
  if t.working.catalog.schemas.contains s.id then
    .error (.ofFault (.databaseExists s.name))
  else
    let catalog := t.working.catalog
    let tables :=
      if catalog.tables.contains s.id then catalog.tables else catalog.tables.insert s.id ∅
    .ok (t.withCatalog { catalog with schemas := catalog.schemas.insert s.id s, tables })

def createTable (t : Txn) (schemaId : Int) (table : Table) : Except Trouble Txn := do
  let tables ← t.writableTables schemaId
  if tables.contains table.id then .error (.ofFault (.tableExists table.name))
  else .ok (t.withTables schemaId (tables.insert table.id table))

def notFound (schemaId tableId : Int) : Trouble :=
  .ofText s!"table id {tableId} not found in schema {schemaId}"

def updateTable (t : Txn) (schemaId : Int) (table : Table) : Except Trouble Txn := do
  let tables ← t.writableTables schemaId
  if tables.contains table.id then .ok (t.withTables schemaId (tables.insert table.id table))
  else .error (notFound schemaId table.id)

def dropTable (t : Txn) (schemaId tableId : Int) : Except Trouble Txn := do
  let tables ← t.writableTables schemaId
  if tables.contains tableId then .ok (t.withTables schemaId (tables.erase tableId))
  else .error (notFound schemaId tableId)

/--
Gives out an id that was never given out before.
-/
def newId (t : Txn) : Int × Txn :=
  let id := t.working.lastId + 1
  (id, { t with working := { t.working with lastId := id } })

def schemaVersion (t : Txn) : Int := t.working.catalog.schemaVersion

def newVersion (t : Txn) : Int × Txn :=
  let version := t.schemaVersion + 1
  (version, t.withCatalog { t.working.catalog with schemaVersion := version })

/--
Creates a public schema under a new id in a new schema version, unless there is one of that name.
-/
def foundSchema (t : Txn) (name : String) : Except Trouble (Int × Txn) := do
  if t.schemas.any fun schema => Text.same schema.name name then
    throw (.ofFault (.databaseExists name))
  let (id, t) := t.newId
  let t ← t.createSchema ⟨id, name, .live⟩
  return (id, t.newVersion.2)

def jobTablesVersion (t : Txn) : Int := t.working.catalog.jobTablesVersion

def setJobTablesVersion (t : Txn) (version : Int) : Txn :=
  t.withCatalog { t.working.catalog with jobTablesVersion := version }

/--
Gives the job an id and puts it at the end of the queue.
-/
def enqueue (t : Txn) (job : Job) : Int × Txn :=
  let (id, t) := t.newId
  let job := { job with id, status := .queued }
  (id, { t with working := { t.working with jobs := t.working.jobs.insert id job } })

def notQueued (id : Int) : Trouble := .ofText s!"job {id} is not queued"

def updateJob (t : Txn) (job : Job) : Except Trouble Txn :=
  if t.working.jobs.contains job.id then
    .ok { t with working := { t.working with jobs := t.working.jobs.insert job.id job } }
  else .error (notQueued job.id)

/--
Moves the job from the queue to the history.
-/
def finishJob (t : Txn) (job : Job) : Except Trouble Txn :=
  if t.working.jobs.contains job.id then
    .ok { t with
      working := { t.working with
        jobs := t.working.jobs.erase job.id
        history := t.working.history.insert job.id job } }
  else .error (notQueued job.id)

/--
Puts the job where it belongs: in the history if it is over, and else back in the queue.
-/
def persistJob (t : Txn) (job : Job) : Except Trouble Txn :=
  if job.isFinished then t.finishJob job else t.updateJob job

def queuedJobs (t : Txn) : List Job := t.working.jobs.values

def firstJob? (t : Txn) : Option Job := t.working.firstJob?

def historyJob? (t : Txn) (id : Int) : Option Job := t.working.history.get? id

/--
The table of a job, in any stage. The job is cancelled if its schema or its table is gone.
-/
def loadTable (t : Txn) (job : Job) : Except Trouble Table × Job :=
  let cancelled := { job with status := .cancelled }
  if (t.schema? job.schemaId).isNone then
    (.error (.ofFault (.databaseNotExists job.schemaName)), cancelled)
  else
    match t.table? job.schemaId job.tableId with
    | some table => (.ok table, job)
    | none => (.error (.ofFault (.noSuchTable job.schemaName job.tableName)), cancelled)

/--
The table of a job, if it is public. The job is cancelled if there is no such table.
-/
def loadPublicTable (t : Txn) (job : Job) : Except Trouble Table × Job :=
  match t.loadTable job with
  | (.ok table, job) =>
    if table.stage = .live then (.ok table, job)
    else
      (.error (.ofFault (.invalidState s!"table {table.name}" table.stage)),
        { job with status := .cancelled })
  | failed => failed

/--
Writes the table of a job with the given stamp, in a new schema version if asked, and returns the
version that shows the change.
-/
def writeTable (t : Txn) (job : Job) (table : Table) (stamp : Nat) (bump : Bool) :
    Except Trouble (Int × Table × Txn) := do
  let (version, t) := if bump then t.newVersion else (t.schemaVersion, t)
  let table := { table with updated := stamp }
  let t ← during s!"update table {table.name} for job {job.id}"
    (t.updateTable job.schemaId table)
  return (version, table, t)

end Txn

end Steward.Ledger
