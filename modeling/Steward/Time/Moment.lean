import Steward.Time.Span

/-!
This module contains moments on the wall clock, counted from the start of the year 1970, and the
present: the time of the timers, which never goes back, and that of the wall clock, which may be
set. The timers go by whole milliseconds. There is no last moment: that a moment and a span may lead
out of the range of a clock is left out.
-/

namespace Steward

/--
A moment: nanoseconds since the epoch, negative before it.
-/
structure Moment where
  nanos : Int
deriving DecidableEq, Repr, Inhabited

namespace Moment

instance : LE Moment := ⟨fun a b => a.nanos ≤ b.nanos⟩

instance : LT Moment := ⟨fun a b => a.nanos < b.nanos⟩

instance (a b : Moment) : Decidable (a ≤ b) := inferInstanceAs (Decidable (a.nanos ≤ b.nanos))

instance (a b : Moment) : Decidable (a < b) := inferInstanceAs (Decidable (a.nanos < b.nanos))

def epoch : Moment := ⟨0⟩

def ofMillis (n : Int) : Moment := ⟨n * Span.perMilli⟩

/--
Whole seconds since the epoch, rounded down, and the nanoseconds after them.
-/
def seconds (m : Moment) : Int := m.nanos.fdiv Span.perSecond

def subsecond (m : Moment) : Nat := (m.nanos.fmod Span.perSecond).toNat

/--
Whole milliseconds between the epoch and the moment, negative before the epoch.
-/
def millis (m : Moment) : Int := m.nanos.tdiv Span.perMilli

/--
Milliseconds since the epoch, as a stamp: moments before the epoch are stamped zero.
-/
def stamp (m : Moment) : Nat := m.millis.toNat

def add (m : Moment) (s : Span) : Moment := ⟨m.nanos + s.nanos⟩

/--
The moment that lies a span before. There is none whose seconds do not fit in 64 bits.
-/
def sub? (m : Moment) (s : Span) : Option Moment :=
  let before : Moment := ⟨m.nanos - s.nanos⟩
  if Text.minInt64 ≤ before.seconds then some before else none

def display (m : Moment) : String :=
  s!"SystemTime \x7b tv_sec: {m.seconds}, tv_nsec: {m.subsecond} \x7d"

end Moment

end Steward

namespace Steward

structure Now where
  /-- Milliseconds on the clock of the timers. -/
  clock : Nat
  wall : Moment
deriving DecidableEq, Repr, Inhabited

namespace Now

/--
The time on the clock as a span.
-/
def elapsed (n : Now) : Span := .ofMillis n.clock

end Now

end Steward
