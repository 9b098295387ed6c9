/-!
This module contains the reading of decimal integers between two limits. Digits are taken from the
left, so the first place at which a text stops being such a number decides the fault.
-/

namespace Steward.Text

/--
Why a text is not a decimal integer within the limits.
-/
inductive DecimalFault where
  | empty
  | invalidDigit
  | tooLarge
  | tooSmall
deriving DecidableEq, Repr

namespace DecimalFault

def message : DecimalFault → String
  | .empty => "cannot parse integer from empty string"
  | .invalidDigit => "invalid digit found in string"
  | .tooLarge => "number too large to fit in target type"
  | .tooSmall => "number too small to fit in target type"

end DecimalFault

namespace Decimal

/--
Reads digits after the number `sofar`, which counts upwards or, if `negative`, downwards.
-/
def digits (lo hi : Int) (negative : Bool) (sofar : Int) : List Char → Except DecimalFault Int
  | [] => .ok sofar
  | c :: cs =>
    if c.isDigit then
      let d : Int := (c.toNat - '0'.toNat : Nat)
      let next := if negative then 10 * sofar - d else 10 * sofar + d
      if hi < next then .error .tooLarge
      else if next < lo then .error .tooSmall
      else digits lo hi negative next cs
    else .error .invalidDigit

/--
Reads a decimal integer from `lo` to `hi`. A plus sign is allowed, a minus sign only if `lo` is
negative, and at least one digit is needed.
-/
def read (lo hi : Int) (s : String) : Except DecimalFault Int :=
  match s.toList with
  | [] => .error .empty
  | ['+'] => .error .invalidDigit
  | ['-'] => .error .invalidDigit
  | '+' :: cs => digits lo hi false 0 cs
  | '-' :: cs => if lo < 0 then digits lo hi true 0 cs else digits lo hi false 0 ('-' :: cs)
  | cs => digits lo hi false 0 cs

end Decimal

/--
Limits of a signed number of 64 bits.
-/
def minInt64 : Int := -9223372036854775808

def maxInt64 : Int := 9223372036854775807

/--
Limits of unsigned numbers of 32 and 64 bits.
-/
def maxNat32 : Nat := 4294967295

def maxNat64 : Nat := 18446744073709551615

def readInt64 (s : String) : Except DecimalFault Int :=
  Decimal.read minInt64 maxInt64 s

def readNat64 (s : String) : Except DecimalFault Nat :=
  (Decimal.read 0 maxNat64 s).map Int.toNat

end Steward.Text
