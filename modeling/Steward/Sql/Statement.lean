import Steward.Failure
import Steward.Sql.Row

/-!
This module contains statements with placeholders, and the answers to them.
-/

namespace Steward.Sql

/--
A statement and the values for its placeholders.
-/
structure Statement where
  sql : String
  params : List Value
deriving DecidableEq, Repr, Inhabited

structure Reply where
  rows : List Row
  affected : Nat
  /-- The id of the inserted row. -/
  inserted : Option Nat
deriving DecidableEq, Repr, Inhabited

namespace Reply

def nothing : Reply := ⟨[], 0, none⟩

def ofRows (rows : List Row) : Reply := ⟨rows, 0, none⟩

def ofAffected (n : Nat) : Reply := ⟨[], n, none⟩

def ofInserted (id : Nat) : Reply := ⟨[], 1, some id⟩

end Reply

/--
A statement or a session that failed, with the activities that needed it.
-/
abbrev Trouble := Failure String

namespace Trouble

def text (t : Trouble) : String := t.message id

/--
The value of a column, or the trouble of reading it.
-/
def ofRead {α : Type} : Except ReadFault α → Except Trouble α
  | .ok a => .ok a
  | .error fault => .error (.of fault.message)

end Trouble

end Steward.Sql
