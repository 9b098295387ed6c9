import Steward.Console.Refusal

/-!
This module contains the reading of what a command carries: members that it needs, members that it
may leave out, and members in the form of a type of the library.
-/

namespace Steward.Console

variable {α : Type}

def need (j : Json) (name : String) : Ask Json := orMalformed (j.member? name)

def needStr (j : Json) (name : String) : Ask String := do orMalformed (← need j name).str?

def needInt (j : Json) (name : String) : Ask Int := do orMalformed (← need j name).int64?

def needNat (j : Json) (name : String) : Ask Nat := do orMalformed (← need j name).nat64?

def needBool (j : Json) (name : String) : Ask Bool := do orMalformed (← need j name).bool?

def needList (j : Json) (name : String) : Ask (List Json) := do
  orMalformed ((← need j name).list? some)

def needStrings (j : Json) (name : String) : Ask (List String) := do
  orMalformed ((← need j name).list? Json.str?)

/--
A member that may be left out or `null`.
-/
def maybe (j : Json) (name : String) (f : Json → Ask α) : Ask (Option α) :=
  match j.member? name with
  | none => .ok none
  | some .null => .ok none
  | some v => return some (← f v)

def strOr (j : Json) (name default : String) : Ask String := do
  return (← maybe j name fun v => orMalformed v.str?).getD default

def boolOr (j : Json) (name : String) (default : Bool) : Ask Bool := do
  return (← maybe j name fun v => orMalformed v.bool?).getD default

def intOr (j : Json) (name : String) (default : Int) : Ask Int := do
  return (← maybe j name fun v => orMalformed v.int64?).getD default

def natOr (j : Json) (name : String) (default : Nat) : Ask Nat := do
  return (← maybe j name fun v => orMalformed v.nat64?).getD default

def maybeNat (j : Json) (name : String) : Ask (Option Nat) :=
  maybe j name fun v => orMalformed v.nat64?

def maybeInt (j : Json) (name : String) : Ask (Option Int) :=
  maybe j name fun v => orMalformed v.int64?

def maybeStr (j : Json) (name : String) : Ask (Option String) :=
  maybe j name fun v => orMalformed v.str?

/--
The items of a list that may be left out.
-/
def listOr (j : Json) (name : String) : Ask (List Json) := do
  return (← maybe j name fun v => orMalformed (v.list? some)).getD []

/--
A member in the form of a type.
-/
def decode (j : Json) (name : String) (f : Json → Option α) : Ask α := do
  orUndecodable (f (← need j name))

def decodeOr (j : Json) (name : String) (default : α) (f : Json → Option α) : Ask α :=
  match j.member? name with
  | none => .ok default
  | some v => orUndecodable (f v)

def maybeDecode (j : Json) (name : String) (f : Json → Option α) : Ask (Option α) :=
  maybe j name fun v => orUndecodable (f v)

def members : Json → Ask (List (String × Json))
  | .obj ms => .ok ms
  | _ => .error .malformed

end Steward.Console
