import Steward.Catalog.Stage
import Steward.Text.Fold

/-!
This module contains columns and their types.
-/

namespace Steward.Catalog

inductive ColumnType where
  | tiny
  | short
  | long
  | longLong
  | float
  | double
  | decimal
  | varchar
  | char
  | blob
  | date
  | datetime
  | timestamp
  | json
deriving DecidableEq, Repr, Inhabited

namespace ColumnType

def isInteger : ColumnType → Bool
  | tiny | short | long | longLong => true
  | _ => false

/--
Do the values hold text or bytes?
-/
def isString : ColumnType → Bool
  | varchar | char | blob => true
  | _ => false

def names : List (String × ColumnType) := [
  ("tiny", tiny), ("short", short), ("long", long), ("long_long", longLong), ("float", float),
  ("double", double), ("new_decimal", decimal), ("varchar", varchar), ("char", char),
  ("blob", blob), ("date", date), ("datetime", datetime), ("timestamp", timestamp),
  ("json", json)]

end ColumnType

structure FieldType where
  type : ColumnType
  unsigned : Bool
  charset : String
  collation : String
  /-- The declared length. -/
  length : Option Nat
deriving DecidableEq, Repr, Inhabited

namespace FieldType

/--
A type without a declared length, and with the charset and collation of its kind.
-/
def ofType (type : ColumnType) : FieldType :=
  if type.isString then ⟨type, false, "utf8mb4", "utf8mb4_bin", none⟩
  else ⟨type, false, "binary", "binary", none⟩

def bigint : FieldType := ofType .longLong

def int : FieldType := ofType .long

def varchar (length : Nat) : FieldType := { ofType .varchar with length := some length }

/--
Values of the two types can refer to each other.
-/
def compatible (a b : FieldType) : Bool :=
  a.type == b.type && a.unsigned == b.unsigned && Text.same a.charset b.charset &&
    Text.same a.collation b.collation

end FieldType

/--
How the values of a column are computed, and whether they are stored.
-/
structure Generated where
  expr : String
  stored : Bool
deriving DecidableEq, Repr

structure Column where
  id : Int
  name : String
  /-- The position in the table. -/
  offset : Nat
  fieldType : FieldType
  generated : Option Generated
  notNull : Bool
  primaryKey : Bool
  stage : Stage
deriving DecidableEq, Repr, Inhabited

namespace Column

def ofName (name : String) (fieldType : FieldType) : Column :=
  ⟨0, name, 0, fieldType, none, false, false, .live⟩

/--
Is the column computed whenever it is read?
-/
def isVirtual (c : Column) : Bool := c.generated.any fun g => !g.stored

/--
The first column of that name.
-/
def find? (columns : List Column) (name : String) : Option Column :=
  columns.find? fun c => Text.same c.name name

end Column

end Steward.Catalog
