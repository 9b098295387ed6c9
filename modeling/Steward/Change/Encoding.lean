import Steward.Catalog.Encoding
import Steward.Change.Job
import Steward.Json.Basic

/-!
This module contains the JSON forms of jobs. The arguments carry their kind as a member, or as the
first item if they are given as an array; they are held until their kind is known.
-/

namespace Steward.Change

open Catalog

namespace Kind

def toJson (k : Kind) : Json := nameIn names k

def ofJson? (j : Json) : Option Kind := j.oneOf? names

end Kind

namespace Status

def toJson (s : Status) : Json := nameIn names s

def ofJson? (j : Json) : Option Status := j.oneOf? names

end Status

namespace Args

def fields : Args → List (String × Json)
  | createTable table check => [("table", table.toJson), ("fk_check", .bool check)]
  | dropTable check => [("fk_check", .bool check)]
  | truncateTable newId check => [("new_table_id", .int newId), ("fk_check", .bool check)]
  | addForeignKey fk check => [("fk", fk.toJson), ("fk_check", .bool check)]
  | dropForeignKey name => [("fk_name", .str name)]
  | dropIndex name => [("index_name", .str name)]
  | dropColumn name => [("column_name", .str name)]

def toJson (a : Args) : Json := .obj (("kind", a.kind.toJson) :: a.fields)

/--
The kind of the arguments, and the arguments without it.
-/
def splitKind? : Json → Option (Kind × Json)
  | .obj ms =>
    match ms.filter (·.1 == "kind") with
    | [m] => do return (← Kind.names.lookup (← m.2.str?), .obj (ms.filter (·.1 != "kind")))
    | _ => none
  | .arr (kind :: js) => do return (← Kind.names.lookup (← kind.str?), .arr js)
  | _ => none

def ofJson? (j : Json) : Option Args := do
  let (kind, j) ← splitKind? (← j.held?)
  match kind with
  | .createTable =>
    match ← j.fields? ["table", "fk_check"] with
    | [table, check] => return createTable (← table.need Table.ofJson?) (← check.need Json.bool?)
    | _ => none
  | .dropTable =>
    match ← j.fields? ["fk_check"] with
    | [check] => return dropTable (← check.need Json.bool?)
    | _ => none
  | .truncateTable =>
    match ← j.fields? ["new_table_id", "fk_check"] with
    | [newId, check] => return truncateTable (← newId.need Json.int64?) (← check.need Json.bool?)
    | _ => none
  | .addForeignKey =>
    match ← j.fields? ["fk", "fk_check"] with
    | [fk, check] => return addForeignKey (← fk.need ForeignKey.ofJson?) (← check.need Json.bool?)
    | _ => none
  | .dropForeignKey =>
    match ← j.fields? ["fk_name"] with
    | [name] => return dropForeignKey (← name.need Json.str?)
    | _ => none
  | .dropIndex =>
    match ← j.fields? ["index_name"] with
    | [name] => return dropIndex (← name.need Json.str?)
    | _ => none
  | .dropColumn =>
    match ← j.fields? ["column_name"] with
    | [name] => return dropColumn (← name.need Json.str?)
    | _ => none

end Args

namespace Outcome

def toJson (o : Outcome) : Json := .obj [
  ("schema_version", .int o.schemaVersion), ("table", Json.ofOption Table.toJson o.table)]

def ofJson? (j : Json) : Option Outcome := do
  match ← j.fields? ["schema_version", "table"] with
  | [schemaVersion, table] =>
    return ⟨← schemaVersion.need Json.int64?, ← table.optional Table.ofJson?⟩
  | _ => none

end Outcome

namespace Job

def members (j : Job) : List (String × Json) := [
  ("id", .int j.id), ("job_type", j.kind.toJson), ("schema_id", .int j.schemaId),
  ("table_id", .int j.tableId), ("schema_name", .str j.schemaName),
  ("table_name", .str j.tableName), ("schema_state", j.stage.toJson),
  ("state", j.status.toJson), ("args", j.args.toJson), ("schema_version", .int j.schemaVersion),
  ("error", Json.ofOption Fault.toJson j.error), ("error_count", .nat j.errorCount),
  ("row_count", .nat j.rowCount), ("finished", Json.ofOption Outcome.toJson j.finished)]

def toJson (j : Job) : Json := .obj j.members

/--
The job in a value, given how its fault is read.
-/
def read? (fault? : Json → Option Fault) (j : Json) : Option Job := do
  match ← j.fields? ["id", "job_type", "schema_id", "table_id", "schema_name", "table_name",
      "schema_state", "state", "args", "schema_version", "error", "error_count", "row_count",
      "finished"] with
  | [id, kind, schemaId, tableId, schemaName, tableName, stage, status, args, schemaVersion,
      error, errorCount, rowCount, finished] =>
    return {
      id := ← id.need Json.int64?
      kind := ← kind.need Kind.ofJson?
      schemaId := ← schemaId.need Json.int64?
      tableId := ← tableId.need Json.int64?
      schemaName := ← schemaName.need Json.str?
      tableName := ← tableName.need Json.str?
      stage := ← stage.need Stage.ofJson?
      status := ← status.need Status.ofJson?
      args := ← args.need Args.ofJson?
      schemaVersion := ← schemaVersion.orElse 0 Json.int64?
      error := ← error.orElse none (Json.nullable? fault?)
      errorCount := ← errorCount.orElse 0 Json.nat64?
      rowCount := ← rowCount.orElse 0 Json.nat64?
      finished := ← finished.orElse none (Json.nullable? Outcome.ofJson?) }
  | _ => none

def ofJson? (j : Json) : Option Job := read? Fault.ofJson? j

/--
The job in the text of a file.
-/
def ofFileJson? (j : Json) : Option Job := read? Fault.ofFileJson? j

/--
The job with some of its fields written anew, if the result is a job.
-/
def overwrite? (j : Job) (changes : List (String × Json)) : Option Job :=
  ofJson? (.obj (changes.foldl (fun ms m => Json.putMember m.1 m.2 ms) j.members))

end Job

end Steward.Change
