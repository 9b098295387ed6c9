import Steward.Catalog.Encoding
import Steward.Console.Request
import Steward.Step.Parts

/-!
This module contains the building of tables by commands: each command adds a part to a table or
changes one, and asks for nothing. Other commands look at the table.
-/

namespace Steward.Console

open Catalog (Column ColumnType FieldType ForeignKey Index Stage Table Temporary)

/--
The type of a column. It is that of a kind of columns, or one of three types by name.
-/
def fieldType (j : Json) : Ask FieldType := do
  let type : FieldType ←
    match ← needStr j "tp" with
    | "bigint()" => pure .bigint
    | "int()" => pure .int
    | "varchar()" => do pure (.varchar (← needNat j "len"))
    | name => do pure (.ofType (← orUndecodable (ColumnType.ofJson? (.str name))))
  let length ← maybe j "flen" fun v => orMalformed v.nat32?
  return { type with
    unsigned := type.unsigned || (← boolOr j "unsigned" false)
    length := length <|> type.length
    charset := ← strOr j "charset" type.charset
    collation := ← strOr j "collation" type.collation }

def newForeignKey (j : Json) : Ask ForeignKey := do
  return .ofNames (← needStr j "name") (← needStrings j "cols") (← needStr j "ref_schema")
    (← needStr j "ref_table") (← needStrings j "ref_cols")

def newColumn (j : Json) : Ask Column := do
  let c := Column.ofName (← needStr j "name") (← fieldType (← need j "type"))
  match ← maybeStr j "expr" with
  | some expr => return { c with generated := some ⟨expr, ← boolOr j "stored" false⟩ }
  | none => return c

def newIndex (j : Json) : Ask Index := do
  let ix := Index.ofNames (← needStr j "name") (← needStrings j "cols")
  let ix := { ix with unique := ix.unique || (← boolOr j "unique" false) }
  match ← maybe j "prefix" pure with
  | some p => return ix.withLength (← needStr p "column") (← needNat p "len")
  | none => return ix

def build (t : Table) (j : Json) : Ask Table := do
  match ← needStr j "fn" with
  | "column" => return t.withColumn (← newColumn j)
  | "handle_pk" => return t.withHandle (← needStr j "column")
  | "index" => return t.withIndex (← newIndex j)
  | "fk" => return t.withForeignKey (← newForeignKey j)
  | "temp" => return { t with temporary := ← decode j "v" Temporary.ofJson? }
  | "ttl" => return { t with expiry := some ⟨← needStr j "column", ← needStr j "expr"⟩ }
  | "partition" => return { t with partitioning := some ⟨← needStr j "expr", ← needNat j "num"⟩ }
  | "alloc_fk_id" => return { t with maxForeignKeyId := t.maxForeignKeyId + 1 }
  | "remove_column" =>
    let pos ← needNat j "pos"
    if pos < t.columns.length then return { t with columns := t.columns.eraseIdx pos }
    else .error .malformed
  | "reindex" => return t.renumber
  | "index_state" =>
    let pos ← needNat j "pos"
    let stage ← decode j "state" Stage.ofJson?
    if pos < t.indices.length then return Step.setIndexStage t pos stage
    else .error .malformed
  | _ => .error .malformed

def tableCommand (t : Table) (j : Json) : Ask Json := do
  match ← needStr j "fn" with
  | "find_column" => return Json.ofOption (.int ·.id) (t.findColumn? (← needStr j "name"))
  | "raw_find_column" =>
    return Json.ofOption (.nat ·.offset) (Column.find? t.columns (← needStr j "name"))
  | "is_virtual" => return Json.ofOption (.bool ·.isVirtual) (t.findColumn? (← needStr j "name"))
  | "is_integer" =>
    return Json.ofOption (.bool ·.fieldType.type.isInteger) (t.findColumn? (← needStr j "name"))
  | "find_index" => return Json.ofOption (.int ·.id) (t.findIndex? (← needStr j "name"))
  | "find_fk" => return Json.ofOption (.int ·.id) (t.findForeignKey? (← needStr j "name"))
  | "fk_position" => return Json.ofOption .nat (t.foreignKeyPosition? (← needStr j "name"))
  | "pk_handle" => return Json.ofOption (.str ·.name) t.handle?
  | "covered" =>
    let cols ← needStrings j "cols"
    return Json.ofOption (fun ix => .bool (t.covers ix cols)) (t.findIndex? (← needStr j "index"))
  | "covering" => return Json.ofOption .str (t.coveringIndex? (← needStrings j "cols"))
  | _ => .error .malformed

end Steward.Console
