/-!
This module contains JSON values. Members of an object keep their order and may repeat a name; a
number is either an integer of 64 bits or only known to be none. A text may also hold something that
keeps to the grammar and yet has no value.
-/

namespace Steward

inductive Json where
  | null
  | bool (b : Bool)
  /-- An integer of 64 bits, with or without a sign. -/
  | int (n : Int)
  /-- A number with a fraction or an exponent, or outside 64 bits. -/
  | real
  /-- Something in a text that is written by the rules and has no value. No type is read from it. -/
  | unreadable
  | str (s : String)
  | arr (items : List Json)
  | obj (members : List (String × Json))
deriving Inhabited

namespace Json

def nat (n : Nat) : Json := .int n

/--
The last member with this name.
-/
def member? (name : String) : Json → Option Json
  | .obj ms => (ms.reverse.find? fun m => m.1 == name).map (·.2)
  | _ => none

/--
The members with the given one instead of those with its name, or at the end if there is none.
-/
def putMember (name : String) (value : Json) : List (String × Json) → List (String × Json)
  | [] => [(name, value)]
  | m :: ms => if m.1 == name then (name, value) :: ms else m :: putMember name value ms

/--
Every object with the last of the members of one name only.
-/
def lastMembers : Json → Json
  | .arr items => .arr (lastItems items)
  | .obj members => .obj (lastOf members)
  | j => j
where
  lastItems : List Json → List Json
    | [] => []
    | j :: js => j.lastMembers :: lastItems js
  lastOf : List (String × Json) → List (String × Json)
    | [] => []
    | (name, j) :: ms =>
      let rest := lastOf ms
      if rest.any (·.1 == name) then rest else (name, j.lastMembers) :: rest

/--
Has every part of it a value?
-/
def isReadable : Json → Bool
  | .unreadable => false
  | .arr items => readableItems items
  | .obj members => readableMembers members
  | _ => true
where
  readableItems : List Json → Bool
    | [] => true
    | j :: js => j.isReadable && readableItems js
  readableMembers : List (String × Json) → Bool
    | [] => true
    | (_, j) :: ms => j.isReadable && readableMembers ms

end Json

end Steward

/-!
### Held values

A value may be held until it is known what it is to be read as. By then its text is gone, so every
part of it must have a value; and the contents of a choice without contents may be the empty object
as well as `null`.
-/

namespace Steward.Json

/--
Every object that names something with an empty object as its contents, with `null` instead. A record
with a single member has no such member, so only choices are read otherwise.
-/
def emptyAsNull : Json → Json
  | .arr items => .arr (emptyItems items)
  | .obj [(name, .obj [])] => .obj [(name, .null)]
  | .obj members => .obj (emptyMembers members)
  | j => j
where
  emptyItems : List Json → List Json
    | [] => []
    | j :: js => j.emptyAsNull :: emptyItems js
  emptyMembers : List (String × Json) → List (String × Json)
    | [] => []
    | (name, j) :: ms => (name, j.emptyAsNull) :: emptyMembers ms

/--
The value as it is held.
-/
def held? (j : Json) : Option Json := if j.isReadable then some j.emptyAsNull else none

end Steward.Json
