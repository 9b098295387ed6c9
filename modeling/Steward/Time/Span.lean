import Steward.Text.Decimal

/-!
This module contains spans of time with nanoseconds, and their display: a number of seconds,
milliseconds, microseconds or nanoseconds, whichever is the largest unit that fits once, with as
many decimals as it takes.
-/

namespace Steward

/--
A span of time, counted in nanoseconds.
-/
structure Span where
  nanos : Nat
deriving DecidableEq, Repr, Inhabited

namespace Span

instance : LE Span := ⟨fun a b => a.nanos ≤ b.nanos⟩

instance : LT Span := ⟨fun a b => a.nanos < b.nanos⟩

instance (a b : Span) : Decidable (a ≤ b) := inferInstanceAs (Decidable (a.nanos ≤ b.nanos))

instance (a b : Span) : Decidable (a < b) := inferInstanceAs (Decidable (a.nanos < b.nanos))

def perSecond : Nat := 1000000000

def perMilli : Nat := 1000000

def zero : Span := ⟨0⟩

def add (a b : Span) : Span := ⟨a.nanos + b.nanos⟩

def ofMillis (n : Nat) : Span := ⟨n * perMilli⟩

def ofSeconds (n : Nat) : Span := ⟨n * perSecond⟩

/--
A span of whole seconds and further nanoseconds, which may be more than a second. There is none
whose seconds do not fit in 64 bits.
-/
def ofParts? (seconds nanos : Nat) : Option Span :=
  let total := seconds * perSecond + nanos
  if total / perSecond ≤ Text.maxNat64 then some ⟨total⟩ else none

def seconds (s : Span) : Nat := s.nanos / perSecond

def subsecond (s : Span) : Nat := s.nanos % perSecond

def millis (s : Span) : Nat := s.nanos / perMilli

/--
The decimals of `part / unit`, for `part < unit` and a power of ten `unit`, up to the last one that
is not zero.
-/
def decimals (fuel unit part : Nat) : List Char :=
  match fuel with
  | 0 => []
  | fuel + 1 =>
    if part = 0 then []
    else
      let unit := unit / 10
      Nat.digitChar (part / unit) :: decimals fuel unit (part % unit)

/--
`nanos` in a unit of `unit` nanoseconds.
-/
def inUnit (nanos unit : Nat) (name : String) : String :=
  let whole := toString (nanos / unit)
  let part := decimals 9 unit (nanos % unit)
  if part.isEmpty then whole ++ name else whole ++ "." ++ String.ofList part ++ name

def display (s : Span) : String :=
  if perSecond ≤ s.nanos then inUnit s.nanos perSecond "s"
  else if perMilli ≤ s.nanos then inUnit s.nanos perMilli "ms"
  else if 1000 ≤ s.nanos then inUnit s.nanos 1000 "µs"
  else inUnit s.nanos 1 "ns"

end Span

end Steward
