import Steward.Cache.Clocked
import Steward.Console.Request
import Steward.Json.Writer

/-!
This module contains the commands to a cache of texts, whose answers tell what came and what left.
-/

namespace Steward.Console

open Cache (Event Reason)

structure CacheSession where
  cache : ClockedCache String String
  /-- The answers tell what came and what left. -/
  observed : Bool

def reasonName : Reason → String
  | .deleted => "Deleted"
  | .superseded => "Superseded"
  | .expired => "Expired"
  | .capacityReached => "CapacityReached"

def reason (j : Json) : Ask Reason := do
  let name ← needStr j "reason"
  orMalformed <|
    [Reason.deleted, .superseded, .expired, .capacityReached].find? (reasonName · == name)

def ofEvent : Event String String → Json
  | .came k v => .arr [.str "insert", .str k, .str v]
  | .left k v r => .arr [.str (reasonName r), .str k, .str v]

namespace CacheSession

/--
The answer to a command, what came and left, and the cache after it. Of several entries that leave
at a time it does not matter which is the first.
-/
def run (c : ClockedCache String String) (j : Json) :
    Ask (Json × List Json × ClockedCache String String) := do
  let texts := Json.ofOption Json.str
  let told (a : Json) (r : List (Event String String) × Cache String String) :
      Json × List Json × ClockedCache String String :=
    (a, r.1.map ofEvent, { c with cache := r.2 })
  match ← needStr j "do" with
  | "set" =>
    let (old, r) := c.cache.set c.now (← needStr j "k") (← needStr j "v")
      ((← maybeNat j "ttl_ms").map .ofMillis)
    return told (texts old) r
  | "get" => return (texts (c.cache.get? c.now (← needStr j "k")), [], c)
  | "delete" =>
    let (old, r) := c.cache.delete (← needStr j "k")
    return told (texts old) r
  | "remove" =>
    let (old, r) := c.cache.remove (← needStr j "k") (← reason j)
    return told (texts old) r
  | "purge" =>
    let (events, cache) := c.cache.purge c.now
    return (.nat events.length, Json.inOrder (events.map ofEvent), { c with cache })
  | "len" => return (.arr [.nat c.cache.size, .bool (c.cache.size == 0)], [], c)
  | "sleep" =>
    let (events, c) := c.sleep (← needNat j "ms")
    return (.nat c.clock, Json.inOrder (events.map ofEvent), c)
  | "stop" => return (.null, [], { c with ticker := none })
  | _ => .error .malformed

def command (j : Json) : Command CacheSession Json := do
  let s ← get
  let (a, events, cache) ← ask (run s.cache j)
  set { s with cache }
  return .obj [("r", a), ("len", .nat cache.cache.size),
    ("events", .arr (if s.observed then events else []))]

end CacheSession

end Steward.Console
