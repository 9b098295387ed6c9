import Steward.Constraint.Definition

/-!
This module contains the checks that nothing goes away while a foreign key needs it: a table, the
rows of a table, an index or a column.
-/

namespace Steward.Constraint

open Catalog

/--
A constraint as it stands in the message that refuses to drop or truncate its parent.
-/
def Referred.detail (r : Referred) : String :=
  Text.quote r.childSchema ++ "." ++ Text.quote r.childTable ++ " CONSTRAINT " ++ Text.quote r.name

/--
A table that is dropped or truncated: no other table may refer to it. Its own constraints do not
matter, since they go or stay with it.
-/
def checkUnreferred (enabled : Bool) (v : View) (schema table : String) (check : Bool) :
    Except Fault Unit :=
  if enabled && check then
    match (v.referred schema table).find? fun r =>
        !(Text.same r.childSchema schema && Text.same r.childTable table) with
    | some r => .error (.truncateIllegalForeignKey (Referred.detail r))
    | none => .ok ()
  else .ok ()

/--
Does the table serve the columns without the index?
-/
def servedWithout (t : Table) (ix : Index) (cols : List String) : Bool :=
  t.isHandle cols ||
    (t.indices.filter fun other => other.id != ix.id && other.stage == .live).any
      fun other => t.covers other cols

/--
An index that is dropped: every constraint on either side keeps an index.
-/
def checkIndexUnneeded (enabled : Bool) (v : View) (schema : String) (t : Table) (name : String) :
    Except Fault Unit :=
  match t.findIndex? name with
  | some ix =>
    if enabled then
      let needs := (t.foreignKeys.filter (·.isEnforced)).map (·.cols) ++
        (v.referred schema t.name).map (·.cols)
      orElse (needs.all fun cols => !t.covers ix cols || servedWithout t ix cols)
        (.dropIndexNeededInForeignKey ix.name)
    else .ok ()
  | none => .ok ()

def mentions (cols : List String) (column : String) : Bool :=
  cols.any fun col => Text.same col column

/--
A column that is dropped: no constraint uses it on either side.
-/
def checkColumnUnneeded (enabled : Bool) (v : View) (schema : String) (t : Table)
    (column : String) : Except Fault Unit :=
  if enabled then
    match t.foreignKeys.find? fun fk => mentions fk.cols column with
    | some fk => .error (.foreignKeyColumnCannotDrop column fk.name)
    | none =>
      match (v.referred schema t.name).find? fun r => mentions r.cols column with
      | some r => .error (.foreignKeyColumnCannotDropChild column r.name r.childTable)
      | none => .ok ()
  else .ok ()

end Steward.Constraint
