import Steward.Catalog.Fault
import Steward.Failure

/-!
This module contains what can go wrong in a schema change: a fault of the catalog, or trouble that
is only known by its text.
-/

namespace Steward.Change

open Catalog (Fault)

inductive Cause where
  | fault (f : Fault)
  | plain (text : String)
deriving DecidableEq

namespace Cause

def message : Cause → String
  | fault f => f.message
  | plain text => text

end Cause

abbrev Trouble := Failure Cause

namespace Trouble

def ofFault (f : Fault) : Trouble := .of (.fault f)

def ofText (text : String) : Trouble := .of (.plain text)

/--
The activities and the cause in one line.
-/
def text (t : Trouble) : String := t.message Cause.message

/--
The fault that a job keeps for the trouble. Trouble that is no fault is kept by its whole text.
-/
def kept (t : Trouble) : Fault :=
  match t.cause with
  | .fault f => f
  | .plain _ => .internal t.text

/--
Trouble that leaves the job as it was.
-/
def isTransient (t : Trouble) : Bool :=
  match t.cause with
  | .fault f => f.isTransient
  | .plain _ => false

/--
The name of the fault, or the word for any other trouble.
-/
def kind (t : Trouble) : String :=
  match t.cause with
  | .fault f => f.kind
  | .plain _ => "Error"

end Trouble

/--
The result, or the fault as trouble.
-/
def ofFault {α : Type} : Except Fault α → Except Trouble α
  | .ok a => .ok a
  | .error f => .error (.ofFault f)

end Steward.Change
