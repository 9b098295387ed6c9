import Steward.Catalog.ForeignKey

/-!
This module contains the query for rows whose parent is missing. A column of the parent that is
null never matches, so it hides no such row, and a row with a null of its own refers to nothing.
-/

namespace Steward.Constraint

open Catalog

def notNull (col : String) : String := "fk_child." ++ Text.quote col ++ " IS NOT NULL"

def matching (pair : String × String) : String :=
  "fk_parent." ++ Text.quote pair.2 ++ " = fk_child." ++ Text.quote pair.1

/--
The query for one row of the table that refers to a row which is not there.
-/
def orphanQuery (schema table : String) (fk : ForeignKey) : String :=
  "SELECT 1 FROM " ++ Text.quote schema ++ "." ++ Text.quote table ++ " AS fk_child WHERE " ++
    " AND ".intercalate (fk.cols.map notNull) ++ " AND NOT EXISTS (SELECT 1 FROM " ++
    Text.quote fk.refSchema ++ "." ++ Text.quote fk.refTable ++ " AS fk_parent WHERE " ++
    " AND ".intercalate ((fk.cols.zip fk.refCols).map matching) ++ ") LIMIT 1"

end Steward.Constraint
