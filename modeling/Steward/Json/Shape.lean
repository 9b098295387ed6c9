import Steward.Json.Reader
import Steward.Data.SortedMap

/-!
This module contains the reading of typed values from JSON. A record is an object, whose unknown
members are ignored, or an array of its fields in order. A choice without contents is its name, or
an object that has the name with `null`.
-/

namespace Steward.Json

def bool? : Json → Option Bool
  | .bool b => some b
  | _ => none

def str? : Json → Option String
  | .str s => some s
  | _ => none

def intIn? (lo hi : Int) : Json → Option Int
  | .int n => if lo ≤ n ∧ n ≤ hi then some n else none
  | _ => none

def int64? (j : Json) : Option Int := j.intIn? Text.minInt64 Text.maxInt64

def nat64? (j : Json) : Option Nat := (j.intIn? 0 Text.maxNat64).map Int.toNat

def nat32? (j : Json) : Option Nat := (j.intIn? 0 Text.maxNat32).map Int.toNat

def list? (item : Json → Option α) : Json → Option (List α)
  | .arr js => js.mapM item
  | _ => none

/--
`null`, or a value.
-/
def nullable? (value : Json → Option α) : Json → Option (Option α)
  | .null => some none
  | j => (value j).map some

/--
An object with an id for every name; of two members with one id the later counts.
-/
def idMap? (value : Json → Option α) : Json → Option (IdMap α)
  | .obj ms => do
    let entries ← ms.mapM fun (m : String × Json) => do return (← id? m.1, ← value m.2)
    return SortedMap.ofList entries
  | _ => none

def oneOf? (choices : List (String × α)) : Json → Option α
  | .str s => choices.lookup s
  | .obj [(s, .null)] => choices.lookup s
  | _ => none

/--
How a field of a record is given.
-/
inductive Field where
  | given (j : Json)
  /-- The record is an object without that member. -/
  | absent
  /-- The record is an array that ends before that field. -/
  | cut

namespace Field

/--
A field that has to be there.
-/
def need (value : Json → Option α) : Field → Option α
  | given j => value j
  | _ => none

/--
A field that may be `null`, and whose member may be left out.
-/
def optional (value : Json → Option α) : Field → Option (Option α)
  | given j => j.nullable? value
  | absent => some none
  | cut => none

/--
A field that may be left out, and then has the value `default`.
-/
def orElse (default : α) (value : Json → Option α) : Field → Option α
  | given j => value j
  | _ => some default

end Field

/--
The fields of a record with these names. No known member may be there twice, and an array may not
have more items than there are fields.
-/
def fields? (names : List String) : Json → Option (List Field)
  | .obj ms =>
    names.mapM fun name =>
      match ms.filter (·.1 == name) with
      | [] => some .absent
      | [m] => some (.given m.2)
      | _ => none
  | .arr js =>
    if names.length < js.length then none
    else some (js.map .given ++ List.replicate (names.length - js.length) .cut)
  | _ => none

def ofOption (value : α → Json) : Option α → Json
  | none => .null
  | some a => value a

def ofList (item : α → Json) (as : List α) : Json := .arr (as.map item)

def ofStrings (ss : List String) : Json := ofList .str ss

def ofIdMap (value : α → Json) (m : IdMap α) : Json :=
  .obj (m.entries.map fun e => (toString e.1, value e.2))

end Steward.Json
