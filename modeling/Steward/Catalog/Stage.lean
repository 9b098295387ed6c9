/-!
This module contains the stages that an object of the catalog passes through while it appears or
disappears, so that nodes one stage apart can work on it side by side.
-/

namespace Steward.Catalog

inductive Stage where
  | absent
  | deleteOnly
  | writeOnly
  | writeReorg
  | live
deriving DecidableEq, Repr, Inhabited

namespace Stage

/--
How far an object has come.
-/
def rank : Stage → Nat
  | absent => 0
  | deleteOnly => 1
  | writeOnly => 2
  | writeReorg => 3
  | live => 4

instance : LT Stage := ⟨fun a b => a.rank < b.rank⟩

instance (a b : Stage) : Decidable (a < b) := inferInstanceAs (Decidable (a.rank < b.rank))

/--
The stage as it stands in messages.
-/
def display : Stage → String
  | absent => "none"
  | deleteOnly => "delete only"
  | writeOnly => "write only"
  | writeReorg => "write reorganization"
  | live => "public"

def names : List (String × Stage) := [
  ("none", absent), ("delete_only", deleteOnly), ("write_only", writeOnly),
  ("write_reorganization", writeReorg), ("public", live)]

end Stage

end Steward.Catalog
