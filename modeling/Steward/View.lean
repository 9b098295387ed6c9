import Steward.Ledger.Snapshot
import Steward.Catalog.Fault

/-!
This module contains views: what a snapshot shows to statements. Only public schemas and tables are
seen, and they are found by their names in capitals or small letters.
-/

namespace Steward

open Catalog (Schema Table Fault ForeignKey)
open Ledger (Snapshot)

/--
A constraint of some table, as seen from the table that it refers to.
-/
structure Referred where
  /-- The columns that the constraint refers to. -/
  cols : List String
  childSchema : String
  childTable : String
  name : String
deriving DecidableEq, Repr

/--
A schema and its tables by their folded names.
-/
structure SchemaView where
  schema : Schema
  tables : SortedMap String Table
deriving DecidableEq

structure View where
  schemaVersion : Int
  /-- The schemas by their folded names. -/
  schemas : SortedMap String SchemaView
  /-- The enforced constraints by the folded names of the schema and table that they refer to. -/
  references : SortedMap (String × String) (List Referred)
deriving DecidableEq

namespace SchemaView

def ofTables (schema : Schema) (tables : List Table) : SchemaView where
  schema := schema
  tables := .ofList <| (tables.filter fun t => t.stage == .live).map fun t => (Text.fold t.name, t)

/--
The enforced constraints of the tables, each behind the folded names of what it refers to.
-/
def references (s : SchemaView) : List ((String × String) × Referred) :=
  s.tables.values.flatMap fun t =>
    (t.foreignKeys.filter (·.isEnforced)).map fun fk =>
      ((Text.fold fk.refSchema, Text.fold fk.refTable),
        ⟨fk.refCols, s.schema.name, t.name, fk.name⟩)

end SchemaView

namespace View

def ofSchemas (schemaVersion : Int) (schemas : SortedMap String SchemaView) : View where
  schemaVersion := schemaVersion
  schemas := schemas
  references := .collect (schemas.values.flatMap (·.references))

def ofSnapshot (s : Snapshot) : View :=
  .ofSchemas s.catalog.schemaVersion <| .ofList <|
    (s.catalog.schemas.values.filter fun schema => schema.stage == .live).map fun schema =>
      (Text.fold schema.name,
        .ofTables schema (((s.catalog.tables.get? schema.id).getD ∅).values))

def schemaView? (v : View) (schema : String) : Option SchemaView :=
  v.schemas.get? (Text.fold schema)

def schema? (v : View) (schema : String) : Option Schema := (v.schemaView? schema).map (·.schema)

def table (v : View) (schema table : String) : Except Fault Table :=
  match (v.schemaView? schema).bind fun s => s.tables.get? (Text.fold table) with
  | some t => .ok t
  | none => .error (.noSuchTable schema table)

def hasTable (v : View) (schema table : String) : Bool := (v.table schema table).isOk

/--
The tables of a schema in the order of their folded names.
-/
def tables (v : View) (schema : String) : List Table :=
  match v.schemaView? schema with
  | some s => s.tables.values
  | none => []

/--
The enforced constraints that refer to a table, in the order of the folded names of their schemas
and tables.
-/
def referred (v : View) (schema table : String) : List Referred :=
  (v.references.get? (Text.fold schema, Text.fold table)).getD []

/--
The view after a look at the last snapshot: an older schema version never takes the place of a
newer one.
-/
def reload (v : View) (s : Snapshot) : View :=
  if v.schemaVersion ≤ s.catalog.schemaVersion then ofSnapshot s else v

end View

end Steward
