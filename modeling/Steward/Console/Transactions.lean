import Steward.Console.Jobs
import Steward.Ledger.Encoding
import Steward.Ledger.Txn

/-!
This module contains the commands on a transaction, and how the console writes a snapshot in short.
-/

namespace Steward.Console

open Catalog (Schema Table)
open Change (Job Trouble)
open Ledger (Snapshot Txn)

/--
The first job in the queue that bears the id.
-/
def jobNumbered (s : Snapshot) (id : Int) : Option Job := s.jobs.values.find? (·.id == id)

/--
The answer to a command on a transaction, and the transaction after it. `stamp` is the present.
-/
def txnCommand (stamp : Nat) (j : Json) : Command Txn Json := fun t =>
  let answered (a : Ask Json) : Ask Json × Txn := (a, t)
  let changed (a : Ask Txn) : Ask Json × Txn :=
    match a with
    | .ok t => (.ok .null, t)
    | .error r => (.error r, t)
  let onTables (f : Int → Ask (Except Trouble Txn)) : Ask Json × Txn :=
    match (do let id ← needInt j "schema_id"; return (id, ← f id) : Ask (Int × _)) with
    | .error r => (.error r, t)
    | .ok (_, .ok t) => (.ok .null, t)
    | .ok (id, .error e) => (.error (.ofTrouble e), t.makePlace id)
  let numbered (r : Int × Txn) : Ask Json × Txn := (.ok (.int r.1), r.2)
  let schemaId := needInt j "schema_id"
  let tableId := needInt j "table_id"
  let table := decode j "table" Table.ofJson?
  let job := decode j "job" Job.ofJson?
  let patched : Ask Job := do
    overwritten j (← orMalformed (jobNumbered t.working (← needInt j "id")))
  let loaded (load : Job → Except Trouble Table × Job) : Ask Json := do
    let (result, job) := load (← job)
    return .obj [("result", answer ((orTrouble result).map Table.toJson)),
      ("job_state", job.status.toJson)]
  match needStr j "call" with
  | .error r => (.error r, t)
  | .ok "get_schema" => answered do return Json.ofOption Schema.toJson (t.schema? (← schemaId))
  | .ok "list_schemas" => answered (.ok (Json.ofList Schema.toJson t.schemas))
  | .ok "create_schema" =>
    changed do orTrouble (t.createSchema (← decode j "info" Schema.ofJson?))
  | .ok "list_tables" =>
    answered do return Json.ofList Table.toJson (← orTrouble (t.tables (← schemaId)))
  | .ok "get_table" =>
    answered do return Json.ofOption Table.toJson (t.table? (← schemaId) (← tableId))
  | .ok "create_table" => onTables fun id => return t.createTable id (← table)
  | .ok "update_table" => onTables fun id => return t.updateTable id (← table)
  | .ok "drop_table" => onTables fun id => return t.dropTable id (← tableId)
  | .ok "gen_global_id" => numbered t.newId
  | .ok "gen_schema_version" => numbered t.newVersion
  | .ok "schema_version" => answered (.ok (.int t.schemaVersion))
  | .ok "ddl_table_version" => answered (.ok (.int t.jobTablesVersion))
  | .ok "set_ddl_table_version" => changed do return t.setJobTablesVersion (← needInt j "v")
  | .ok "enqueue_job" =>
    match job with
    | .ok job => numbered (t.enqueue job)
    | .error r => (.error r, t)
  | .ok "update_job" => changed do orTrouble (t.updateJob (← job))
  | .ok "finish_job" => changed do orTrouble (t.finishJob (← job))
  | .ok "patch_job" => changed do orTrouble (t.updateJob (← patched))
  | .ok "patch_finish" => changed do orTrouble (t.finishJob (← patched))
  | .ok "queued_jobs" => answered (.ok (Json.ofList (.int ·.id) t.queuedJobs))
  | .ok "first_queued" => answered (.ok (Json.ofOption (.str ·.display) t.firstJob?))
  | .ok "history_job" =>
    answered do return Json.ofOption (.str ·.display) (t.historyJob? (← needInt j "id"))
  | .ok "load_table" => answered (loaded t.loadTable)
  | .ok "load_public_table" => answered (loaded t.loadPublicTable)
  | .ok "update_version" =>
    match (do return (← job, ← table, ← boolOr j "bump" true) : Ask (Job × Table × Bool)) with
    | .error r => (.error r, t)
    | .ok (job, table, bump) =>
      match t.writeTable job table stamp bump with
      | .ok (version, table, t) =>
        (.ok (.obj [("version", .int version), ("update_ts", .nat table.updated)]), t)
      | .error e =>
        (.error (.ofTrouble e), (if bump then t.newVersion.2 else t).makePlace job.schemaId)
  | .ok _ => (.error .malformed, t)

def brief (s : Snapshot) : Json :=
  let table (t : Table) : Json := .arr [.int t.id, .str t.name, t.stage.toJson]
  .obj [
    ("revision", .nat s.revision), ("schema_version", .int s.catalog.schemaVersion),
    ("next_global_id", .int s.lastId), ("ddl_table_version", .int s.catalog.jobTablesVersion),
    ("queue", Json.ofList jobLine s.jobs.values),
    ("history", Json.ofList jobLine s.history.values),
    ("tables", Json.ofList (fun e => .arr [.int e.1, Json.ofList table e.2.values])
      s.catalog.tables.entries)]

/--
Where a snapshot has a job, and the job.
-/
def jobRecord (s : Snapshot) (id : Int) : Json :=
  match s.record id with
  | (some job, _) => .obj [("queued", job.toJson)]
  | (none, some job) => .obj [("history", job.toJson)]
  | (none, none) => .null

/--
The table of a schema that has exactly this name.
-/
def tableNamed (s : Snapshot) (schemaId : Int) (name : String) : Option Table :=
  ((s.catalog.tables.get? schemaId).getD ∅).values.find? (·.name == name)

/--
The table that is filed under an id in a schema.
-/
def tableFiled (s : Snapshot) (schemaId id : Int) : Option Table :=
  (s.catalog.tables.get? schemaId).bind (·.get? id)

def schemaIdNamed (s : Snapshot) (name : String) : Option Int :=
  (s.catalog.schemas.values.find? (·.name == name)).map (·.id)

end Steward.Console
