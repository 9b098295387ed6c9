import Steward.View

/-!
This module contains the checks of the definition of a foreign key: that its columns fit together,
that the tables on both sides may have one, and that both sides have an index for it. The checks
stop at the first fault. Nothing but the name is checked while the checks are switched off.
-/

namespace Steward.Constraint

open Catalog

/--
The fault, unless the condition holds.
-/
def orElse (ok : Bool) (fault : Fault) : Except Fault Unit :=
  if ok then .ok () else .error fault

def find (t : Table) (column : String) : Except Fault Column :=
  match t.findColumn? column with
  | some c => .ok c
  | none => .error (.keyColumnDoesNotExist column)

/--
One column of a constraint and the one that it refers to: both are there, neither is virtual, and
their types are compatible.
-/
def checkPair (parent child : Table) (fk : ForeignKey) (col refCol : String) :
    Except Fault Unit := do
  let ref ← find parent refCol
  orElse (!ref.isVirtual) (.foreignKeyCannotUseVirtualColumn fk.name refCol)
  let own ← find child col
  orElse (!own.isVirtual) (.foreignKeyCannotUseVirtualColumn fk.name col)
  orElse (own.fieldType.compatible ref.fieldType) (.foreignKeyColumnNotMatch col refCol fk.name)

def checkPairs (parent child : Table) (fk : ForeignKey) : List (String × String) → Except Fault Unit
  | [] => .ok ()
  | p :: ps => do
    checkPair parent child fk p.1 p.2
    checkPairs parent child fk ps

/--
The columns of a constraint against the table that it refers to.
-/
def checkColumns (enabled : Bool) (parent child : Table) (fk : ForeignKey) :
    Except Fault Unit := do
  if enabled then
    checkPairs parent child fk (fk.cols.zip fk.refCols)
    orElse (parent.coveringIndex? fk.refCols).isSome
      (.foreignKeyNoIndexInParent fk.name fk.refTable)

/--
The table that a constraint refers to, which may be the table of the constraint. A table that is
not there is a fault only if rows are to be checked.
-/
def parent? (v : View) (schema : String) (child : Table) (fk : ForeignKey) (check : Bool) :
    Except Fault (Option Table) :=
  if fk.refersTo schema child.name then .ok (some child)
  else
    match v.table fk.refSchema fk.refTable with
    | .ok t => .ok (some t)
    | .error _ => if check then .error (.foreignKeyCannotOpenParent fk.refTable) else .ok none

/--
A constraint of a table, the index of that table apart.
-/
def checkReference (enabled : Bool) (v : View) (schema : String) (child : Table) (fk : ForeignKey)
    (check : Bool) : Except Fault Unit := do
  orElse (!fk.cols.isEmpty && fk.cols.length == fk.refCols.length) .cannotAddForeign
  orElse (!(fk.refersTo schema child.name && Text.sameAll fk.cols fk.refCols)) .cannotAddForeign
  orElse (child.temporary == .none) (.operationOnTemporaryTable "foreign key")
  orElse child.partitioning.isNone .foreignKeyOnPartitioned
  match ← parent? v schema child fk check with
  | none => return ()
  | some parent =>
    orElse (parent.temporary == .none) (.operationOnTemporaryTable "foreign key")
    orElse parent.expiry.isNone .ttlReferencedByForeignKey
    orElse parent.partitioning.isNone .foreignKeyOnPartitioned
    checkColumns enabled parent child fk

/--
A constraint of a table, and the index that the table needs for it.
-/
def checkSides (enabled : Bool) (v : View) (schema : String) (child : Table) (fk : ForeignKey)
    (check : Bool) : Except Fault Unit := do
  checkReference enabled v schema child fk check
  orElse (child.coveringIndex? fk.cols).isSome (.foreignKeyNoIndexInChild fk.name child.name)

/--
The name of a constraint that is added to a table.
-/
def checkName (t : Table) (name : String) : Except Fault Unit :=
  orElse (t.findForeignKey? name).isNone (.foreignKeyDuplicateName name)

/--
A constraint that is added to a table.
-/
def checkAdded (enabled : Bool) (v : View) (schema : String) (child : Table) (fk : ForeignKey)
    (check : Bool) : Except Fault Unit := do
  checkName child fk.name
  if enabled then checkSides enabled v schema child fk check

/--
The constraints of a new table after those that were checked already.
-/
def checkDeclaredAfter (v : View) (schema : String) (child : Table) (check : Bool)
    (before : List ForeignKey) : List ForeignKey → Except Fault Unit
  | [] => .ok ()
  | fk :: fks => do
    orElse (!before.any fun prev => Text.same prev.name fk.name) (.foreignKeyDuplicateName fk.name)
    checkSides true v schema child fk check
    checkDeclaredAfter v schema child check (before ++ [fk]) fks

/--
The constraints that a new table declares.
-/
def checkDeclared (enabled : Bool) (v : View) (schema : String) (child : Table) (check : Bool) :
    Except Fault Unit :=
  if enabled then checkDeclaredAfter v schema child check [] child.foreignKeys else .ok ()

end Steward.Constraint
