import Steward.Change.Encoding
import Steward.Json.Reader
import Steward.Json.Writer
import Steward.Ledger.Snapshot

/-!
This module contains the JSON form of snapshots, and the text that is kept of it in a file.
-/

namespace Steward.Ledger

open Catalog (Schema Table)
open Change (Job)

namespace Snapshot

def toJson (s : Snapshot) : Json := .obj [
  ("revision", .nat s.revision), ("schema_version", .int s.catalog.schemaVersion),
  ("ddl_table_version", .int s.catalog.jobTablesVersion), ("next_global_id", .int s.lastId),
  ("schemas", Json.ofIdMap Schema.toJson s.catalog.schemas),
  ("tables", Json.ofIdMap (Json.ofIdMap Table.toJson) s.catalog.tables),
  ("jobs", Json.ofIdMap Job.toJson s.jobs), ("history", Json.ofIdMap Job.toJson s.history)]

/--
The snapshot in a value, given how its jobs are read.
-/
def read? (job? : Json → Option Job) (j : Json) : Option Snapshot := do
  match ← j.fields? ["revision", "schema_version", "ddl_table_version", "next_global_id",
      "schemas", "tables", "jobs", "history"] with
  | [revision, schemaVersion, jobTablesVersion, lastId, schemas, tables, jobs, history] =>
    return {
      revision := ← revision.need Json.nat64?
      catalog := {
        schemaVersion := ← schemaVersion.need Json.int64?
        jobTablesVersion := ← jobTablesVersion.need Json.int64?
        schemas := ← schemas.need (Json.idMap? Schema.ofJson?)
        tables := ← tables.need (Json.idMap? (Json.idMap? Table.ofJson?)) }
      lastId := ← lastId.need Json.int64?
      jobs := ← jobs.need (Json.idMap? job?)
      history := ← history.need (Json.idMap? job?) }
  | _ => none

def ofJson? (j : Json) : Option Snapshot := read? Job.ofJson? j

/--
The text that a file keeps of a snapshot.
-/
def text (s : Snapshot) : String := s.toJson.pretty

def ofText? (text : String) : Option Snapshot := (Json.readFile? text).bind (read? Job.ofFileJson?)

end Snapshot

end Steward.Ledger
