import Steward.Catalog.Fault
import Steward.Catalog.Table
import Steward.Json.Shape

/-!
This module contains the JSON forms of the objects of the catalog and of the faults. Writing puts
down every field in the order of the declarations; reading fills in the fields that may be left
out.
-/

namespace Steward.Catalog

/--
The name that a choice is written with.
-/
def nameIn {α : Type} [DecidableEq α] (names : List (String × α)) (a : α) : Json :=
  match names.find? fun p => p.2 == a with
  | some p => .str p.1
  | none => .null

namespace Stage

def toJson (s : Stage) : Json := nameIn names s

def ofJson? (j : Json) : Option Stage := j.oneOf? names

end Stage

namespace ColumnType

def toJson (t : ColumnType) : Json := nameIn names t

def ofJson? (j : Json) : Option ColumnType := j.oneOf? names

end ColumnType

namespace RefAction

def toJson (a : RefAction) : Json := nameIn names a

def ofJson? (j : Json) : Option RefAction := j.oneOf? names

end RefAction

namespace Temporary

def toJson (t : Temporary) : Json := nameIn names t

def ofJson? (j : Json) : Option Temporary := j.oneOf? names

end Temporary

namespace FieldType

def toJson (f : FieldType) : Json := .obj [
  ("tp", f.type.toJson), ("unsigned", .bool f.unsigned), ("charset", .str f.charset),
  ("collation", .str f.collation), ("flen", Json.ofOption .nat f.length)]

def ofJson? (j : Json) : Option FieldType := do
  match ← j.fields? ["tp", "unsigned", "charset", "collation", "flen"] with
  | [type, unsigned, charset, collation, length] =>
    return {
      type := ← type.need ColumnType.ofJson?
      unsigned := ← unsigned.need Json.bool?
      charset := ← charset.need Json.str?
      collation := ← collation.need Json.str?
      length := ← length.optional Json.nat32? }
  | _ => none

end FieldType

namespace Generated

def toJson (g : Generated) : Json := .obj [("expr", .str g.expr), ("stored", .bool g.stored)]

def ofJson? (j : Json) : Option Generated := do
  match ← j.fields? ["expr", "stored"] with
  | [expr, stored] => return ⟨← expr.need Json.str?, ← stored.need Json.bool?⟩
  | _ => none

end Generated

namespace Column

def toJson (c : Column) : Json := .obj [
  ("id", .int c.id), ("name", .str c.name), ("offset", .nat c.offset),
  ("field_type", c.fieldType.toJson), ("generated", Json.ofOption Generated.toJson c.generated),
  ("not_null", .bool c.notNull), ("primary_key", .bool c.primaryKey), ("state", c.stage.toJson)]

def ofJson? (j : Json) : Option Column := do
  match ← j.fields? ["id", "name", "offset", "field_type", "generated", "not_null",
      "primary_key", "state"] with
  | [id, name, offset, fieldType, generated, notNull, primaryKey, stage] =>
    return {
      id := ← id.need Json.int64?
      name := ← name.need Json.str?
      offset := ← offset.need Json.nat64?
      fieldType := ← fieldType.need FieldType.ofJson?
      generated := ← generated.orElse none (Json.nullable? Generated.ofJson?)
      notNull := ← notNull.orElse false Json.bool?
      primaryKey := ← primaryKey.orElse false Json.bool?
      stage := ← stage.need Stage.ofJson? }
  | _ => none

end Column

namespace IndexColumn

def toJson (c : IndexColumn) : Json := .obj [
  ("name", .str c.name), ("offset", .nat c.offset), ("length", Json.ofOption .nat c.length)]

def ofJson? (j : Json) : Option IndexColumn := do
  match ← j.fields? ["name", "offset", "length"] with
  | [name, offset, length] =>
    return {
      name := ← name.need Json.str?
      offset := ← offset.need Json.nat64?
      length := ← length.orElse none (Json.nullable? Json.nat32?) }
  | _ => none

end IndexColumn

namespace Index

def toJson (ix : Index) : Json := .obj [
  ("id", .int ix.id), ("name", .str ix.name),
  ("columns", Json.ofList IndexColumn.toJson ix.columns), ("unique", .bool ix.unique),
  ("primary", .bool ix.primary), ("state", ix.stage.toJson)]

def ofJson? (j : Json) : Option Index := do
  match ← j.fields? ["id", "name", "columns", "unique", "primary", "state"] with
  | [id, name, columns, unique, primary, stage] =>
    return {
      id := ← id.need Json.int64?
      name := ← name.need Json.str?
      columns := ← columns.need (Json.list? IndexColumn.ofJson?)
      unique := ← unique.need Json.bool?
      primary := ← primary.need Json.bool?
      stage := ← stage.need Stage.ofJson? }
  | _ => none

end Index

namespace ForeignKey

def toJson (fk : ForeignKey) : Json := .obj [
  ("id", .int fk.id), ("name", .str fk.name), ("ref_schema", .str fk.refSchema),
  ("ref_table", .str fk.refTable), ("ref_cols", Json.ofStrings fk.refCols),
  ("cols", Json.ofStrings fk.cols), ("on_delete", fk.onDelete.toJson),
  ("on_update", fk.onUpdate.toJson), ("state", fk.stage.toJson), ("version", .nat fk.version)]

def ofJson? (j : Json) : Option ForeignKey := do
  match ← j.fields? ["id", "name", "ref_schema", "ref_table", "ref_cols", "cols", "on_delete",
      "on_update", "state", "version"] with
  | [id, name, refSchema, refTable, refCols, cols, onDelete, onUpdate, stage, version] =>
    return {
      id := ← id.need Json.int64?
      name := ← name.need Json.str?
      refSchema := ← refSchema.need Json.str?
      refTable := ← refTable.need Json.str?
      refCols := ← refCols.need (Json.list? Json.str?)
      cols := ← cols.need (Json.list? Json.str?)
      onDelete := ← onDelete.orElse .noAction RefAction.ofJson?
      onUpdate := ← onUpdate.orElse .noAction RefAction.ofJson?
      stage := ← stage.need Stage.ofJson?
      version := ← version.orElse 0 Json.nat32? }
  | _ => none

end ForeignKey

namespace Expiry

def toJson (e : Expiry) : Json := .obj [
  ("column_name", .str e.column), ("interval_expr", .str e.interval)]

def ofJson? (j : Json) : Option Expiry := do
  match ← j.fields? ["column_name", "interval_expr"] with
  | [column, interval] => return ⟨← column.need Json.str?, ← interval.need Json.str?⟩
  | _ => none

end Expiry

namespace Partitioning

def toJson (p : Partitioning) : Json := .obj [("expr", .str p.expr), ("num", .nat p.count)]

def ofJson? (j : Json) : Option Partitioning := do
  match ← j.fields? ["expr", "num"] with
  | [expr, count] => return ⟨← expr.need Json.str?, ← count.need Json.nat32?⟩
  | _ => none

end Partitioning

namespace Table

def members (t : Table) : List (String × Json) := [
  ("id", .int t.id), ("name", .str t.name), ("columns", Json.ofList Column.toJson t.columns),
  ("indices", Json.ofList Index.toJson t.indices),
  ("foreign_keys", Json.ofList ForeignKey.toJson t.foreignKeys),
  ("max_column_id", .int t.maxColumnId), ("max_index_id", .int t.maxIndexId),
  ("max_foreign_key_id", .int t.maxForeignKeyId), ("pk_is_handle", .bool t.pkIsHandle),
  ("temp_table", t.temporary.toJson), ("ttl", Json.ofOption Expiry.toJson t.expiry),
  ("partition", Json.ofOption Partitioning.toJson t.partitioning), ("state", t.stage.toJson),
  ("update_ts", .nat t.updated)]

def toJson (t : Table) : Json := .obj t.members

def ofJson? (j : Json) : Option Table := do
  match ← j.fields? ["id", "name", "columns", "indices", "foreign_keys", "max_column_id",
      "max_index_id", "max_foreign_key_id", "pk_is_handle", "temp_table", "ttl", "partition",
      "state", "update_ts"] with
  | [id, name, columns, indices, foreignKeys, maxColumnId, maxIndexId, maxForeignKeyId,
      pkIsHandle, temporary, expiry, partitioning, stage, updated] =>
    return {
      id := ← id.need Json.int64?
      name := ← name.need Json.str?
      columns := ← columns.need (Json.list? Column.ofJson?)
      indices := ← indices.orElse [] (Json.list? Index.ofJson?)
      foreignKeys := ← foreignKeys.orElse [] (Json.list? ForeignKey.ofJson?)
      maxColumnId := ← maxColumnId.orElse 0 Json.int64?
      maxIndexId := ← maxIndexId.orElse 0 Json.int64?
      maxForeignKeyId := ← maxForeignKeyId.orElse 0 Json.int64?
      pkIsHandle := ← pkIsHandle.orElse false Json.bool?
      temporary := ← temporary.orElse .none Temporary.ofJson?
      expiry := ← expiry.orElse none (Json.nullable? Expiry.ofJson?)
      partitioning := ← partitioning.orElse none (Json.nullable? Partitioning.ofJson?)
      stage := ← stage.need Stage.ofJson?
      updated := ← updated.orElse 0 Json.nat64? }
  | _ => none

/--
The table with some of its fields written anew, if the result is a table.
-/
def overwrite? (t : Table) (changes : List (String × Json)) : Option Table :=
  ofJson? (.obj (changes.foldl (fun ms m => Json.putMember m.1 m.2 ms) t.members))

end Table

namespace Schema

def toJson (s : Schema) : Json := .obj [
  ("id", .int s.id), ("name", .str s.name), ("state", s.stage.toJson)]

def ofJson? (j : Json) : Option Schema := do
  match ← j.fields? ["id", "name", "state"] with
  | [id, name, stage] =>
    return ⟨← id.need Json.int64?, ← name.need Json.str?, ← stage.need Stage.ofJson?⟩
  | _ => none

end Schema

namespace Fault

/--
What a fault is about, as it is written after the name of the fault.
-/
def contents : Fault → Json
  | cannotAddForeign | ttlReferencedByForeignKey | foreignKeyOnPartitioned | ownerLost => .null
  | foreignKeyDuplicateName a | foreignKeyCannotOpenParent a | operationOnTemporaryTable a
  | keyColumnDoesNotExist a | noReferencedRow a | truncateIllegalForeignKey a
  | dropIndexNeededInForeignKey a | cantDropFieldOrKey a | tableExists a | databaseNotExists a
  | databaseExists a | invalidJobArgs a | internal a => .str a
  | foreignKeyCannotUseVirtualColumn a b | foreignKeyNoIndexInParent a b
  | foreignKeyNoIndexInChild a b | foreignKeyColumnCannotDrop a b | noSuchTable a b =>
    Json.ofStrings [a, b]
  | foreignKeyColumnNotMatch a b c | foreignKeyColumnCannotDropChild a b c =>
    Json.ofStrings [a, b, c]
  | invalidState object stage => .arr [.str object, stage.toJson]
  | writeConflict base current => .obj [("base", .nat base), ("current", .nat current)]

def toJson (f : Fault) : Json :=
  match f.contents with
  | .null => .str f.kind
  | j => .obj [(f.kind, j)]

def bareNames : List (String × Fault) :=
  [cannotAddForeign, ttlReferencedByForeignKey, foreignKeyOnPartitioned, ownerLost].map
    fun f => (f.kind, f)

def ofText? (kind a : String) : Option Fault :=
  [foreignKeyDuplicateName a, foreignKeyCannotOpenParent a, operationOnTemporaryTable a,
    keyColumnDoesNotExist a, noReferencedRow a, truncateIllegalForeignKey a,
    dropIndexNeededInForeignKey a, cantDropFieldOrKey a, tableExists a, databaseNotExists a,
    databaseExists a, invalidJobArgs a, internal a].find? fun f => f.kind == kind

def ofPair? (kind a b : String) : Option Fault :=
  [foreignKeyCannotUseVirtualColumn a b, foreignKeyNoIndexInParent a b,
    foreignKeyNoIndexInChild a b, foreignKeyColumnCannotDrop a b, noSuchTable a b].find?
    fun f => f.kind == kind

def ofTriple? (kind a b c : String) : Option Fault :=
  [foreignKeyColumnNotMatch a b c, foreignKeyColumnCannotDropChild a b c].find?
    fun f => f.kind == kind

/--
The fault about the two revisions of a conflict.
-/
def ofConflict? (j : Json) : Option Fault := do
  match ← j.fields? ["base", "current"] with
  | [base, current] => return writeConflict (← base.need Json.nat64?) (← current.need Json.nat64?)
  | _ => none

def ofJson? (j : Json) : Option Fault :=
  match j with
  | .str kind => bareNames.lookup kind
  | .obj [(kind, .null)] => bareNames.lookup kind
  | .obj [(kind, .str a)] => ofText? kind a
  | .obj [(kind, .arr [.str a, b])] =>
    if kind = "InvalidDdlState" then (Stage.ofJson? b).map (invalidState a)
    else b.str?.bind (ofPair? kind a)
  | .obj [(kind, .arr [.str a, .str b, .str c])] => ofTriple? kind a b c
  | .obj [("WriteConflict", .obj ms)] => ofConflict? (.obj ms)
  | _ => none

/--
The fault in the text of a file, where the revisions of a conflict may also stand in an array.
-/
def ofFileJson? : Json → Option Fault
  | .obj [("WriteConflict", .arr js)] => ofConflict? (.arr js)
  | j => ofJson? j

end Fault

end Steward.Catalog
