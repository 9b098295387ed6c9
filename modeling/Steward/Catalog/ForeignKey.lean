import Steward.Catalog.Stage
import Steward.Text.Fold
import Steward.Text.Quoted

/-!
This module contains foreign keys.
-/

namespace Steward.Catalog

/--
What happens to a row when the row it refers to goes or changes.
-/
inductive RefAction where
  | restrict
  | cascade
  | setNull
  | noAction
  | setDefault
deriving DecidableEq, Repr, Inhabited

namespace RefAction

def names : List (String × RefAction) := [
  ("restrict", restrict), ("cascade", cascade), ("set_null", setNull), ("no_action", noAction),
  ("set_default", setDefault)]

end RefAction

structure ForeignKey where
  id : Int
  name : String
  refSchema : String
  refTable : String
  refCols : List String
  cols : List String
  onDelete : RefAction
  onUpdate : RefAction
  stage : Stage
  /-- Constraints of version zero are from before there were checks. -/
  version : Nat
deriving DecidableEq, Repr, Inhabited

namespace ForeignKey

def ofNames (name : String) (cols : List String) (refSchema refTable : String)
    (refCols : List String) : ForeignKey :=
  ⟨0, name, refSchema, refTable, refCols, cols, .noAction, .noAction, .absent, 1⟩

def isEnforced (fk : ForeignKey) : Bool := 1 ≤ fk.version

/--
The two constraints are the same one, whatever their ids, stages and actions.
-/
def sameDefinition (a b : ForeignKey) : Bool :=
  Text.same a.name b.name && Text.same a.refSchema b.refSchema &&
    Text.same a.refTable b.refTable && Text.sameAll a.cols b.cols &&
    Text.sameAll a.refCols b.refCols

/--
Does the constraint refer to the given table?
-/
def refersTo (fk : ForeignKey) (schema table : String) : Bool :=
  Text.same fk.refSchema schema && Text.same fk.refTable table

/--
The constraint of a table as it stands in messages.
-/
def describe (fk : ForeignKey) (schema table : String) : String :=
  Text.quote schema ++ "." ++ Text.quote table ++ ", CONSTRAINT " ++ Text.quote fk.name ++
    " FOREIGN KEY (" ++ Text.quoteAll fk.cols ++ ") REFERENCES " ++ Text.quote fk.refSchema ++
    "." ++ Text.quote fk.refTable ++ " (" ++ Text.quoteAll fk.refCols ++ ")"

end ForeignKey

end Steward.Catalog
