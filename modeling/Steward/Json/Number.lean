import Steward.Json.Basic
import Steward.Text.Decimal

/-!
This module contains the numbers in a JSON text. An integer of 64 bits has its value. All that counts
of another number is whether a double can hold it: its digits are taken as an integer of 64 bits times
a power of ten, and both are rounded before they are multiplied.
-/

namespace Steward.Json

def digit (c : Char) : Nat := c.toNat - '0'.toNat

def splitDigits (cs : List Char) : List Char × List Char :=
  (cs.takeWhile Char.isDigit, cs.dropWhile Char.isDigit)

theorem splitDigits_append (cs : List Char) : (splitDigits cs).1 ++ (splitDigits cs).2 = cs :=
  List.takeWhile_append_dropWhile

/--
A number without its sign: an integer of 64 bits times a power of ten.
-/
structure Magnitude where
  significand : Nat
  exponent : Int
  /-- The integer has no room for more digits. -/
  full : Bool

namespace Magnitude

def zero : Magnitude := ⟨0, 0, false⟩

/--
One more digit before the point. A digit that has no room still counts as a place.
-/
def pushWhole (m : Magnitude) (c : Char) : Magnitude :=
  let next := 10 * m.significand + digit c
  if m.full || Text.maxNat64 < next then { m with exponent := m.exponent + 1, full := true }
  else { m with significand := next }

/--
One more digit after the point. A digit that has no room does not count.
-/
def pushFraction (m : Magnitude) (c : Char) : Magnitude :=
  let next := 10 * m.significand + digit c
  if m.full || Text.maxNat64 < next then { m with full := true }
  else { m with significand := next, exponent := m.exponent - 1 }

/--
The magnitude with these digits before and after the point and this exponent.
-/
def ofDigits (whole fraction : List Char) (power : Int) : Magnitude :=
  let m := whole.foldl pushWhole zero
  let m := fraction.foldl pushFraction { m with full := false }
  { m with exponent := m.exponent + power }

/--
A natural number with its first 53 bits, rounded to the nearest; a tie goes to the even neighbour.
-/
def nearest (n : Nat) : Nat :=
  let unit := Nat.pow 2 (n.log2 - 52)
  let count := n / unit
  let rest := n % unit
  if unit < 2 * rest ∨ (2 * rest = unit ∧ count % 2 = 1) then (count + 1) * unit else count * unit

/--
The least number that is too large for a double.
-/
def tooLarge : Nat := Nat.pow 2 1024 - Nat.pow 2 970

/--
Can a double hold the magnitude?
-/
def isDouble (m : Magnitude) : Bool :=
  m.significand = 0 || m.exponent < 0 ||
    (m.exponent ≤ 308 && nearest m.significand * nearest (Nat.pow 10 m.exponent.toNat) < tooLarge)

def toJson (m : Magnitude) : Json := if m.isDouble then .real else .unreadable

end Magnitude

namespace Number

/--
The digits after the point, if there is a point.
-/
def fraction : List Char → Option (List Char × List Char)
  | '.' :: cs =>
    let (ds, cs) := splitDigits cs
    if ds.isEmpty then none else some (ds, cs)
  | cs => some ([], cs)

/--
The digits after the mark of an exponent and its sign.
-/
def power (negative : Bool) (cs : List Char) : Option (Option Int × List Char) :=
  let (ds, cs) := splitDigits cs
  let n : Int := (ds.foldl (fun n c => 10 * n + digit c) 0 : Nat)
  if ds.isEmpty then none else some (some (if negative then -n else n), cs)

def exponent : List Char → Option (Option Int × List Char)
  | 'e' :: '+' :: cs => power false cs
  | 'e' :: '-' :: cs => power true cs
  | 'E' :: '+' :: cs => power false cs
  | 'E' :: '-' :: cs => power true cs
  | 'e' :: cs => power false cs
  | 'E' :: cs => power false cs
  | cs => some (none, cs)

/--
The integer with these digits, if it is one of 64 bits. Zero has no negative.
-/
def integer? (negative : Bool) (digits : List Char) : Option Int :=
  let n := digits.foldl (fun n c => 10 * n + digit c) 0
  if negative then if n = 0 then none else if Text.minInt64 ≤ -(n : Int) then some (-n) else none
  else if n ≤ Text.maxNat64 then some n
  else none

/--
A number after its sign, and the characters after it.
-/
def read (negative : Bool) (cs : List Char) : Option (Json × List Char) := do
  let (whole, cs) := splitDigits cs
  match whole with
  | [] => none
  | '0' :: _ :: _ => none
  | whole =>
    let (fraction, cs) ← fraction cs
    let (power?, cs) ← exponent cs
    let m := Magnitude.ofDigits whole fraction (power?.getD 0)
    if fraction.isEmpty && power?.isNone then
      match integer? negative whole with
      | some n => return (.int n, cs)
      | none => return (m.toJson, cs)
    else return (m.toJson, cs)

end Number

/--
The id that the name of a member writes, as JSON writes integers.
-/
def id? (name : String) : Option Int :=
  let number := match name.toList with
    | '-' :: cs => Number.read true cs
    | cs => Number.read false cs
  match number with
  | some (.int n, []) => if Text.minInt64 ≤ n ∧ n ≤ Text.maxInt64 then some n else none
  | _ => none

end Steward.Json
