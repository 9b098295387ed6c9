import Steward.Runaway.Channel
import Steward.Runaway.Record
import Steward.Runaway.Settings
import Steward.Runaway.WatchList

/-!
This module contains the manager of a server: its watch list, and the channels to the loops that
write down what it finds. Nothing here waits; what a channel has no room for is dropped and counted.
-/

/-! ### The counters of a server -/

namespace Steward.Runaway

structure Metrics where
  /-- Records that found no room in their channel. -/
  recordsDropped : Nat
  /-- Watches to be inserted that found no room in their channel. -/
  quarantinesDropped : Nat
  /-- Stale watches that found no room in their channel. -/
  staleDropped : Nat
  /-- Records that were written. -/
  recordsFlushed : Nat
  /-- Batches of records that could not be written and are lost. -/
  flushFailures : Nat
  /-- Watches of the watch table that were put into the watch list. -/
  watchesSynced : Nat
  /-- Stale watches that were moved to the done table. -/
  staleCleanups : Nat
  /-- Stale watches that could not be moved. -/
  staleCleanupFailures : Nat
  /-- Old records that were deleted. -/
  recordsCollected : Nat
deriving DecidableEq, Repr

namespace Metrics

def zero : Metrics := ⟨0, 0, 0, 0, 0, 0, 0, 0, 0⟩

end Metrics

end Steward.Runaway

namespace Steward.Runaway

structure Manager where
  settings : Settings
  list : WatchList
  /-- Records to be written. -/
  records : Channel Record
  /-- Watches to be inserted into the watch table. -/
  quarantined : Channel Watch
  /-- Rows to be moved to the done table. -/
  stale : Channel Watch
  metrics : Metrics

/--
What is known about a query that hit a watch.
-/
structure Hit where
  action : Action
  switchGroup : String
  cause : String
deriving DecidableEq, Repr

/--
What a query did, and what is to be done about it.
-/
structure Mark where
  group : String
  text : String
  target : Target
  action : Action
  switchGroup : String
  /-- Zero is for ever. -/
  duration : Span
  start : Moment
  cause : String
deriving DecidableEq, Repr

namespace Manager

def ofSettings (s : Settings) : Manager where
  settings := s
  list := .ofCapacity s.watchCapacity
  records := .ofCapacity s.channelCapacity
  quarantined := .ofCapacity s.channelCapacity
  stale := .ofCapacity s.channelCapacity
  metrics := .zero

/--
Is there somebody to receive from every channel?
-/
def isOpen (m : Manager) : Bool := m.records.isOpen && m.quarantined.isOpen && m.stale.isOpen

def closed (m : Manager) : Manager :=
  { m with records := m.records.closed, quarantined := m.quarantined.closed, stale := m.stale.closed }

def count (m : Manager) (f : Metrics → Metrics) : Manager := { m with metrics := f m.metrics }

/--
Sends a retired watch to cleanup, if it is a row.
-/
def retireOne (m : Manager) (w : Watch) : Manager :=
  if w.isDurable then
    match m.stale.send? w with
    | some stale => { m with stale }
    | none => m.count fun c => { c with staleDropped := c.staleDropped + 1 }
  else m

def retire (m : Manager) (ws : List Watch) : Manager := ws.foldl retireOne m

/--
The manager with another list, after some watches left it.
-/
def keep (m : Manager) (r : List Watch × WatchList) : Manager := { m with list := r.2 }.retire r.1

/--
Sends a record of a runaway query to be written.
-/
def markRunaway (m : Manager) (q : Query) (action : Action) (detection : Detection) (start : Moment)
    (cause : String) : Manager :=
  let r : Record := {
    group := q.group, start, detection, action, sample := q.sql, sqlDigest := q.sqlDigest
    planDigest := q.planDigest, source := m.settings.serverId, cause, repeats := 1 }
  match m.records.send? r with
  | some records => { m with records }
  | none => m.count fun c => { c with recordsDropped := c.recordsDropped + 1 }

/--
The provisional watch that is made of a mark.
-/
def watchOf (m : Manager) (mark : Mark) : Watch where
  id := 0
  group := mark.group
  start := mark.start
  stop := if mark.duration = .zero then none else some (mark.start.add mark.duration)
  target := mark.target
  text := mark.text
  source := m.settings.serverId
  action := mark.action
  switchGroup := mark.switchGroup
  cause := mark.cause

/--
Watches for a text from now on, and sends the watch to be inserted.
-/
def markQuarantine (m : Manager) (now : Now) (mark : Mark) : Manager :=
  let w := m.watchOf mark
  let ttl := if mark.duration = .zero then none else some mark.duration
  let m := m.keep (m.list.quarantine now.elapsed w ttl)
  match m.quarantined.send? w with
  | some quarantined => { m with quarantined }
  | none => m.count fun c => { c with quarantinesDropped := c.quarantinesDropped + 1 }

/--
Takes a row of the watch table over.
-/
def addWatch (m : Manager) (now : Now) (w : Watch) : Outcome × Manager :=
  let (outcome, r) := m.list.addRow now w
  (outcome, m.keep r)

/--
Puts a watch into the list for a given time, by force or only if no other row has its key.
-/
def addToList (m : Manager) (now : Now) (w : Watch) (ttl : Option Span) (force : Bool) :
    Outcome × Manager :=
  let (outcome, r) :=
    if force then m.list.force now.elapsed w ttl else m.list.add now.elapsed w ttl
  (outcome, m.keep r)

def removeWatch (m : Manager) (now : Now) (w : Watch) : Bool × Manager :=
  let (removed, r) := m.list.remove now.elapsed w
  (removed, m.keep r)

def watch? (m : Manager) (now : Now) (group text : String) : Option Watch :=
  m.list.watch? now.elapsed group text

def examine (m : Manager) (now : Now) (group text : String) : Option Hit :=
  (m.watch? now group text).map fun w => ⟨w.action, w.switchGroup, w.cause⟩

/--
The number of watches of a group.
-/
def active (m : Manager) (group : String) : Nat := (m.list.groups.get? group).getD 0

def purge (m : Manager) (now : Now) : Nat × Manager :=
  let (purged, r) := m.list.purge now.elapsed
  (purged, m.keep r)

end Manager

end Steward.Runaway
