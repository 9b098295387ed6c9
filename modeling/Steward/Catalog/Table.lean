import Steward.Catalog.ForeignKey
import Steward.Catalog.Index

/-!
This module contains tables: how they are put together, how their parts are found, which columns an
index covers, and the removal of a column.
-/

namespace Steward.Catalog

inductive Temporary where
  | none
  | session
  | global
deriving DecidableEq, Repr, Inhabited

namespace Temporary

def names : List (String × Temporary) := [
  ("none", none), ("local", session), ("global", global)]

end Temporary

/--
The column that rows expire by, and after which interval.
-/
structure Expiry where
  column : String
  interval : String
deriving DecidableEq, Repr

structure Partitioning where
  expr : String
  count : Nat
deriving DecidableEq, Repr

structure Table where
  id : Int
  name : String
  columns : List Column
  indices : List Index
  foreignKeys : List ForeignKey
  maxColumnId : Int
  maxIndexId : Int
  maxForeignKeyId : Int
  /-- The integer column that is the primary key is also the handle of the rows. -/
  pkIsHandle : Bool
  temporary : Temporary
  expiry : Option Expiry
  partitioning : Option Partitioning
  stage : Stage
  /-- When the table was last changed, in milliseconds since the epoch. -/
  updated : Nat
deriving DecidableEq, Repr, Inhabited

namespace Table

def ofName (name : String) : Table :=
  ⟨0, name, [], [], [], 0, 0, 0, false, .none, none, none, .absent, 0⟩

def withColumn (t : Table) (c : Column) : Table :=
  let id := t.maxColumnId + 1
  { t with
    maxColumnId := id
    columns := t.columns ++ [{ c with id, offset := t.columns.length }] }

/--
Makes a column the primary key, and the handle of the rows if it holds integers.
-/
def withHandle (t : Table) (column : String) : Table :=
  { t with
    columns := t.columns.map fun c =>
      if Text.same c.name column then { c with primaryKey := true, notNull := true } else c
    pkIsHandle :=
      match t.columns.reverse.find? fun c => Text.same c.name column with
      | some c => c.fieldType.type.isInteger
      | none => t.pkIsHandle }

def withIndex (t : Table) (ix : Index) : Table :=
  let id := t.maxIndexId + 1
  { t with
    maxIndexId := id
    indices := t.indices ++ [{ ix with id }.withOffsets t.columns] }

def withForeignKey (t : Table) (fk : ForeignKey) : Table :=
  let id := t.maxForeignKeyId + 1
  { t with
    maxForeignKeyId := id
    foreignKeys := t.foreignKeys ++ [{ fk with id, stage := .live }] }

def findColumn? (t : Table) (name : String) : Option Column := Column.find? t.columns name

def findIndex? (t : Table) (name : String) : Option Index :=
  t.indices.find? fun ix => Text.same ix.name name

def findForeignKey? (t : Table) (name : String) : Option ForeignKey :=
  t.foreignKeys.find? fun fk => Text.same fk.name name

def columnPosition? (t : Table) (name : String) : Option Nat :=
  t.columns.findIdx? fun c => Text.same c.name name

def indexPosition? (t : Table) (name : String) : Option Nat :=
  t.indices.findIdx? fun ix => Text.same ix.name name

def foreignKeyPosition? (t : Table) (name : String) : Option Nat :=
  t.foreignKeys.findIdx? fun fk => Text.same fk.name name

/--
The column that is the handle of the rows.
-/
def handle? (t : Table) : Option Column :=
  if t.pkIsHandle then t.columns.find? (·.primaryKey) else none

/--
Is the one column of the list the handle of the rows?
-/
def isHandle (t : Table) (cols : List String) : Bool :=
  match cols with
  | [col] => t.handle?.any fun pk => Text.same pk.name col
  | _ => false

/--
Does an index column index the whole of the given column?
-/
def indexesWhole (t : Table) (col : String) (ic : IndexColumn) : Bool :=
  Text.same ic.name col &&
    match t.columns[ic.offset]? with
    | none => false
    | some c =>
      match ic.length, c.fieldType.length with
      | none, _ => true
      | some length, some whole => whole ≤ length
      | some _, none => false

/--
Are the columns, in order, the first ones of the index, each indexed as a whole?
-/
def covers (t : Table) (ix : Index) (cols : List String) : Bool :=
  cols.length ≤ ix.columns.length &&
    (cols.zip ix.columns).all fun p => t.indexesWhole p.1 p.2

/--
The name of an index that can look up the columns. The handle of the rows is such an index too.
-/
def coveringIndex? (t : Table) (cols : List String) : Option String :=
  match t.indices.find? fun ix => ix.stage == .live && t.covers ix cols with
  | some ix => some ix.name
  | none => if t.isHandle cols then some "PRIMARY" else none

/--
The table with the offsets of its columns, and those in the indices, as the columns now stand.
-/
def renumber (t : Table) : Table :=
  let columns := t.columns.mapIdx fun i c => { c with offset := i }
  { t with columns, indices := t.indices.map fun ix => ix.withOffsets columns }

/--
The table without the column at a position. The column leaves every index, and an index that is
left without columns goes with it.
-/
def dropColumn (t : Table) (pos : Nat) : Table :=
  match t.columns[pos]? with
  | none => t
  | some c =>
    let shrunk := t.indices.map fun ix =>
      { ix with columns := ix.columns.filter fun ic => !Text.same ic.name c.name }
    { t with
      columns := t.columns.eraseIdx pos
      pkIsHandle := if c.primaryKey then false else t.pkIsHandle
      indices := shrunk.filter fun ix => !ix.columns.isEmpty }.renumber

end Table

structure Schema where
  id : Int
  name : String
  stage : Stage
deriving DecidableEq, Repr, Inhabited

end Steward.Catalog
