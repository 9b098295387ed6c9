import Steward.Text.Escape
import Steward.Time.Moment

/-!
This module contains the values that statements take as parameters and return in rows.
-/

namespace Steward.Sql

inductive Value where
  | null
  /-- An integer of 64 bits with a sign. -/
  | int (n : Int)
  /-- An integer of 64 bits without a sign. -/
  | uint (n : Nat)
  | text (s : String)
  | time (m : Moment)
deriving DecidableEq, Repr, Inhabited

namespace Value

/--
A moment, or null if there is none.
-/
def ofTime? : Option Moment → Value
  | some m => .time m
  | none => .null

def isNull : Value → Bool
  | .null => true
  | _ => false

/--
A value as it stands in messages.
-/
def display : Value → String
  | .null => "Null"
  | .int n => s!"Int({n})"
  | .uint n => s!"UInt({n})"
  | .text s => "Text(" ++ Text.display s ++ ")"
  | .time m => "Timestamp(" ++ m.display ++ ")"

end Value

end Steward.Sql
