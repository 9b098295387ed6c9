import Steward.Cache.Basic
import Steward.Runaway.Watch
import Steward.Time.Moment

/-!
This module contains the list of the watches that a server knows: a cache by group and text, and
the number of its entries for every group. Watches that leave the list are retired, unless they
were deleted: their rows are to be cleaned up.
-/

namespace Steward.Runaway

/--
How many watches each group has; groups without any are left out.
-/
abbrev GroupCounts := SortedMap String Nat

namespace GroupCounts

def join (groups : GroupCounts) (group : String) : GroupCounts :=
  groups.insert group ((groups.get? group).getD 0 + 1)

/--
One watch less for a group. A group that has none is left alone.
-/
def leave (groups : GroupCounts) (group : String) : GroupCounts :=
  match groups.get? group with
  | some count => if 1 < count then groups.insert group (count - 1) else groups.erase group
  | none => groups

end GroupCounts

abbrev WatchEvent := Cache.Event String Watch

namespace WatchEvent

def count (groups : GroupCounts) : WatchEvent → GroupCounts
  | .came _ w => groups.join w.group
  | .left _ w _ => groups.leave w.group

/--
The watch that an event retires.
-/
def retired? : WatchEvent → Option Watch
  | .came _ _ => none
  | .left _ _ .deleted => none
  | .left _ w _ => some w

end WatchEvent

/--
What happened to a watch that was to be added.
-/
inductive Outcome where
  | inserted
  /-- It took the place of a provisional watch, or an operator put it there by force. -/
  | replaced
  /-- It is there already. -/
  | unchanged
  /-- Another row has its key, or it has ended. -/
  | stale
deriving DecidableEq, Repr

structure WatchList where
  cache : Cache String Watch
  groups : GroupCounts

namespace WatchList

def ofCapacity (capacity : Nat) : WatchList := ⟨.empty capacity, ∅⟩

/--
The list after something was done to its cache, and the watches that were retired.
-/
def observe (l : WatchList) (cache : Cache String Watch) (events : List WatchEvent) :
    List Watch × WatchList :=
  (events.filterMap WatchEvent.retired?, ⟨cache, events.foldl WatchEvent.count l.groups⟩)

def set (l : WatchList) (now : Span) (w : Watch) (ttl : Option Span) : List Watch × WatchList :=
  let (_, events, cache) := l.cache.set now w.key w ttl
  l.observe cache events

/--
Removes what has a key, because another watch is to take it, and says whether there was anything.
-/
def supersede (l : WatchList) (key : String) : Bool × List Watch × WatchList :=
  let (removed, events, cache) := l.cache.remove key .superseded
  (removed.isSome, l.observe cache events)

def get? (l : WatchList) (now : Span) (key : String) : Option Watch := l.cache.get? now key

/--
The watch for a text in a group.
-/
def watch? (l : WatchList) (now : Span) (group text : String) : Option Watch :=
  l.get? now (Watch.keyOf group text)

/--
Puts a provisional watch into the list. A row that has its key is retired.
-/
def quarantine (l : WatchList) (now : Span) (w : Watch) (ttl : Option Span) :
    List Watch × WatchList :=
  if (l.get? now w.key).any Watch.isDurable then
    let (_, first, l) := l.supersede w.key
    let (rest, l) := l.set now w ttl
    (first ++ rest, l)
  else l.set now w ttl

/--
Puts a watch into the list by force.
-/
def force (l : WatchList) (now : Span) (w : Watch) (ttl : Option Span) :
    Outcome × List Watch × WatchList :=
  if (l.get? now w.key).any (·.id == w.id) then (.unchanged, [], l)
  else
    let (existed, first, l) := l.supersede w.key
    let (rest, l) := l.set now w ttl
    (if existed then .replaced else .inserted, first ++ rest, l)

/--
Puts a watch into the list, unless another row has its key: then the watch itself is retired.
-/
def add (l : WatchList) (now : Span) (w : Watch) (ttl : Option Span) :
    Outcome × List Watch × WatchList :=
  match l.get? now w.key with
  | none => (.inserted, l.set now w ttl)
  | some old =>
    if old.id = w.id then (.unchanged, [], l)
    else if old.isDurable then (.stale, [w], l)
    else (.replaced, l.set now w ttl)

/--
Puts a row of the watch table into the list. Rows that have ended are retired at once, and rows of
an operator take the place of whatever has their key.
-/
def addRow (l : WatchList) (now : Now) (w : Watch) : Outcome × List Watch × WatchList :=
  let put (ttl : Option Span) :=
    if w.isManual then l.force now.elapsed w ttl else l.add now.elapsed w ttl
  match w.lifetime now.wall with
  | .ended => (.stale, [w], l)
  | .unbounded => put none
  | .remaining left => put (some left)

/--
Deletes a watch if the list has it as the same row.
-/
def remove (l : WatchList) (now : Span) (w : Watch) : Bool × List Watch × WatchList :=
  if (l.get? now w.key).any (·.id == w.id) then
    let (_, events, cache) := l.cache.delete w.key
    (true, l.observe cache events)
  else (false, [], l)

/--
Removes all watches that have expired, and returns their number.
-/
def purge (l : WatchList) (now : Span) : Nat × List Watch × WatchList :=
  let (events, cache) := l.cache.purge now
  (events.length, l.observe cache events)

end WatchList

end Steward.Runaway
