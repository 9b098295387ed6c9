import Steward.Time.Span

/-!
This module contains tickers: what a loop does again and again at an interval. A tick that is taken
late puts the following ones off, so that two ticks are never much less than an interval apart.
-/

namespace Steward

structure Ticker where
  /-- Milliseconds between two ticks. -/
  period : Nat
  /-- When the next tick is due, in milliseconds on the clock. -/
  due : Nat
deriving DecidableEq, Repr, Inhabited

namespace Ticker

/--
A ticker that starts at the given time.
-/
def start (now : Nat) (period : Span) : Ticker := ⟨period.millis, now + period.millis⟩

/--
How many milliseconds late a tick may be taken without putting the following ones off.
-/
def tolerance : Nat := 5

/--
The ticker after its tick was taken, unless it is not due yet.
-/
def tick? (t : Ticker) (now : Nat) : Option Ticker :=
  if t.due ≤ now then
    some { t with due := (if t.due + tolerance < now then now else t.due) + t.period }
  else none

end Ticker

end Steward
