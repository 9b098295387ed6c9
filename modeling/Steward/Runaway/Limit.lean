import Steward.Runaway.Action
import Steward.Time.Span

/-!
This module contains the limits of a resource group, and what is said about a query that exceeds
one of them.
-/

namespace Steward.Runaway

/--
The watch that is made of a query which exceeds a limit.
-/
structure WatchSetting where
  target : Target
  /-- Zero is for ever. -/
  duration : Span
deriving DecidableEq, Repr

structure Limit where
  elapsed : Option Span
  keys : Option Nat
  units : Option Nat
  action : Action
  switchGroup : String
  watch : Option WatchSetting
deriving DecidableEq, Repr

structure Progress where
  elapsed : Span
  keys : Nat
  units : Nat
deriving DecidableEq, Repr

namespace Limit

/--
Which limit the progress exceeds: of several the first one counts.
-/
def exceeded (l : Limit) (p : Progress) : Option String :=
  (l.elapsed.filter fun limit => limit < p.elapsed).map
      (fun limit => "ElapsedTime = " ++ p.elapsed.display ++ "(" ++ limit.display ++ ")")
    <|> (l.keys.filter fun limit => limit < p.keys).map
      (fun limit => s!"ProcessedKeys = {p.keys}({limit})")
    <|> (l.units.filter fun limit => limit < p.units).map
      (fun limit => s!"RequestUnit = {p.units}({limit})")

end Limit

end Steward.Runaway
