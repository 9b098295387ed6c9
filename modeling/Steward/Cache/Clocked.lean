import Steward.Cache.Basic
import Steward.Time.Moment
import Steward.Time.Ticker

/-!
This module contains caches under a clock of their own, which may be purged at an interval.
-/

namespace Steward

universe u v

structure ClockedCache (κ : Type u) (α : Type v) [Ord κ] where
  cache : Cache κ α
  /-- Milliseconds since the cache is there. -/
  clock : Nat
  /-- When the cache is purged by itself, if it is. -/
  ticker : Option Ticker

namespace ClockedCache

variable {κ : Type u} {α : Type v} [Ord κ]

def start (capacity : Nat) (interval : Option Span) : ClockedCache κ α :=
  ⟨.empty capacity, 0, interval.map (Ticker.start 0)⟩

def now (c : ClockedCache κ α) : Span := .ofMillis c.clock

/--
Lets time pass until the given moment, with at most `fuel` purges on the way. What is due at that
moment itself is still done.
-/
def pass (fuel : Nat) (c : ClockedCache κ α) (target : Nat) :
    List (Cache.Event κ α) × ClockedCache κ α :=
  let rest := ([], { c with clock := target })
  match fuel with
  | 0 => rest
  | fuel + 1 =>
    match c.ticker with
    | none => rest
    | some t =>
      let time := max c.clock t.due
      if target < time then rest
      else
        let (first, cache) := c.cache.purge (.ofMillis time)
        let (rest, c) := pass fuel ⟨cache, time, t.tick? time⟩ target
        (first ++ rest, c)

/--
Lets time pass; the cache is purged at most once in a millisecond.
-/
def sleep (c : ClockedCache κ α) (millis : Nat) : List (Cache.Event κ α) × ClockedCache κ α :=
  c.pass (millis + 1) (c.clock + millis)

end ClockedCache

end Steward
