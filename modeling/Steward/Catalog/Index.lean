import Steward.Catalog.Column

/-!
This module contains indices.
-/

namespace Steward.Catalog

structure IndexColumn where
  name : String
  /-- The position of the column in the table. -/
  offset : Nat
  /-- How much of the column is indexed, unless all of it is. -/
  length : Option Nat
deriving DecidableEq, Repr, Inhabited

structure Index where
  id : Int
  name : String
  columns : List IndexColumn
  unique : Bool
  primary : Bool
  stage : Stage
deriving DecidableEq, Repr, Inhabited

namespace Index

/--
An index on whole columns, whose offsets are not known yet.
-/
def ofNames (name : String) (columns : List String) : Index :=
  ⟨0, name, columns.map fun c => ⟨c, 0, none⟩, false, false, .live⟩

/--
The index with only so much of the given column indexed.
-/
def withLength (ix : Index) (column : String) (length : Nat) : Index :=
  { ix with
    columns := ix.columns.map fun c =>
      if Text.same c.name column then { c with length := some length } else c }

/--
The index with the offsets that its columns have in a table.
-/
def withOffsets (ix : Index) (columns : List Column) : Index :=
  { ix with
    columns := ix.columns.map fun c =>
      match Column.find? columns c.name with
      | some info => { c with offset := info.offset }
      | none => c }

end Index

end Steward.Catalog
