import Steward.Sql.Value

/-!
This module contains the rows that statements return, and the reading of typed values from their
columns. Drivers differ in how they deliver a number or a moment, so each reading accepts every
form that has one meaning.
-/

namespace Steward.Sql

structure Row where
  values : List Value
deriving DecidableEq, Repr, Inhabited

/--
What stands in a column instead of an integer.
-/
inductive NoInteger where
  | digits (fault : Text.DecimalFault)
  | value (v : Value)
deriving DecidableEq, Repr

inductive ReadFault where
  | missing (columns column : Nat)
  | overflows (column value : Nat)
  | negative (column : Nat) (value : Int)
  | notInteger (column : Nat) (got : NoInteger)
  | notUnsigned (column : Nat) (got : NoInteger)
  | notText (column : Nat) (got : Value)
  | notTime (column : Nat) (got : Value)
  | noTime (column : Nat)
deriving DecidableEq, Repr

namespace NoInteger

def message : NoInteger → String
  | .digits fault => fault.message
  | .value v => v.display

end NoInteger

namespace ReadFault

def message : ReadFault → String
  | .missing columns column => s!"row has {columns} columns, column {column} requested"
  | .overflows column value => s!"column {column} value {value} overflows i64"
  | .negative column value => s!"column {column} value {value} is negative"
  | .notInteger column got => s!"column {column} is not an integer: {got.message}"
  | .notUnsigned column got => s!"column {column} is not an unsigned integer: {got.message}"
  | .notText column got => s!"column {column} is not text: {got.display}"
  | .notTime column got => s!"column {column} is not a timestamp: {got.display}"
  | .noTime column => s!"column {column} is NULL, timestamp expected"

end ReadFault

namespace Row

def get (r : Row) (column : Nat) : Except ReadFault Value :=
  match r.values[column]? with
  | some v => .ok v
  | none => .error (.missing r.values.length column)

def int64 (r : Row) (column : Nat) : Except ReadFault Int := do
  match ← r.get column with
  | .int n => .ok n
  | .uint n => if n ≤ Text.maxInt64 then .ok n else .error (.overflows column n)
  | .text s =>
    match Text.readInt64 s with
    | .ok n => .ok n
    | .error fault => .error (.notInteger column (.digits fault))
  | v => .error (.notInteger column (.value v))

def nat64 (r : Row) (column : Nat) : Except ReadFault Nat := do
  match ← r.get column with
  | .uint n => .ok n
  | .int n => if 0 ≤ n then .ok n.toNat else .error (.negative column n)
  | .text s =>
    match Text.readNat64 s with
    | .ok n => .ok n
    | .error fault => .error (.notUnsigned column (.digits fault))
  | v => .error (.notUnsigned column (.value v))

/--
A text; null reads as the empty one.
-/
def text (r : Row) (column : Nat) : Except ReadFault String := do
  match ← r.get column with
  | .text s => .ok s
  | .null => .ok ""
  | .int n => .ok (toString n)
  | .uint n => .ok (toString n)
  | v => .error (.notText column v)

/--
A moment, which an integer gives in milliseconds since the epoch, or nothing for null.
-/
def time? (r : Row) (column : Nat) : Except ReadFault (Option Moment) := do
  match ← r.get column with
  | .null => .ok none
  | .time m => .ok (some m)
  | .int n =>
    if 0 ≤ n then .ok (some (Moment.ofMillis n)) else .error (.notTime column (.int n))
  | .uint n => .ok (some (Moment.ofMillis n))
  | v => .error (.notTime column v)

def time (r : Row) (column : Nat) : Except ReadFault Moment := do
  match ← r.time? column with
  | some m => .ok m
  | none => .error (.noTime column)

end Row

end Steward.Sql
