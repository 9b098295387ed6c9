import Steward.Console.Request
import Steward.Constraint.Removal
import Steward.Ledger.Setup
import Steward.View

/-!
This module contains the commands on a view: what it shows, and which changes it allows.
-/

namespace Steward.Console

open Catalog (Fault ForeignKey Schema Table)
open Ledger (Store)

def viewCommand (v : View) (j : Json) : Ask Json := do
  let table : Ask (String × String) := return (← needStr j "schema", ← needStr j "table")
  match ← needStr j "fn" with
  | "version" => return .int v.schemaVersion
  | "schema" => return Json.ofOption Schema.toJson (v.schema? (← needStr j "schema"))
  | "table" =>
    let (schema, name) ← table
    return (← orFault (v.table schema name)).toJson
  | "exists" =>
    let (schema, name) ← table
    return .bool (v.hasTable schema name)
  | "simple" =>
    return Json.ofList (fun t => .obj [("id", .int t.id), ("name", .str t.name)])
      (v.tables (← needStr j "schema"))
  | "referred" =>
    let (schema, name) ← table
    return Json.ofList
      (fun r => .obj [("cols", Json.ofStrings r.cols), ("child_schema", .str r.childSchema),
        ("child_table", .str r.childTable), ("child_fk_name", .str r.name)])
      (v.referred schema name)
  | _ => .error .malformed

/--
Does a view allow a change? `enabled` says that foreign keys are checked at all.
-/
def checkCommand (enabled : Bool) (v : View) (j : Json) : Ask Json := do
  let schema ← strOr j "schema" "test"
  let check ← boolOr j "fk_check" true
  let table := decode j "table" Table.ofJson?
  let fk := decode j "fk" ForeignKey.ofJson?
  let passed (r : Except Fault Unit) : Ask Json := do
    orFault r
    return .str "ok"
  match ← needStr j "fn" with
  | "columns" =>
    passed (Constraint.checkColumns enabled (← decode j "refer" Table.ofJson?) (← table) (← fk))
  | "valid" => passed (Constraint.checkReference enabled v schema (← table) (← fk) check)
  | "add" | "add_owner" => passed (Constraint.checkAdded enabled v schema (← table) (← fk) check)
  | "create_owner" => passed (Constraint.checkDeclared enabled v schema (← table) check)
  | "dup_name" => passed (Constraint.checkName (← table) (← needStr j "name"))
  | "drop_table" | "truncate" =>
    passed (Constraint.checkUnreferred enabled v schema (← needStr j "name") check)
  | "drop_index" =>
    passed (Constraint.checkIndexUnneeded enabled v schema (← table) (← needStr j "name"))
  | "drop_column" =>
    passed (Constraint.checkColumnUnneeded enabled v schema (← table) (← needStr j "name"))
  | _ => .error .malformed

/--
The ledger with more schemas in it.
-/
def addSchemas (s : Store) (js : List Json) : Ask Store :=
  js.foldlM (fun s j => do
    let tables ← (← needList j "tables").mapM fun t => orUndecodable (Table.ofJson? t)
    orTrouble (s.addSchema (← needStr j "name") tables (← boolOr j "keep_state" false))) s

end Steward.Console
