import Steward.Runaway.Monitor
import Steward.Sql.Desk
import Steward.Time.Ticker

/-!
This module contains the pipeline, the loops that work in the background of a server:
- records are gathered and written in batches, and old ones are swept away,
- watches that were found here are inserted into the watch table,
- stale rows are moved to the done table,
- rows of other servers are taken over,
- expired watches are purged.

What has to be sent to the database is an errand. A loop waits for the end of its errand, or leaves
the errand to a member of its own and goes on: so are old records swept away, one sweep at a time,
and watches inserted, any number at a time.
-/

namespace Steward.Runaway

open Sql (Desk Dialogue)

/--
Who works in the background.
-/
inductive Member where
  | flush
  | insert
  | cleanup
  | sync
  | purge
  | sweep
  /-- The insertion of one watch, with a number of its own. -/
  | insertion (n : Nat)
deriving DecidableEq, Repr

/--
The members that are there as long as the pipeline, in the order in which they begin.
-/
def Member.loops : List Member := [flush, insert, cleanup, sync, purge]

/--
What a loop waits for that happens at a time.
-/
inductive Tick where
  | flush
  | sweep
  | sync
  | purge
  | retry
deriving DecidableEq, Repr

/--
A dialogue that says whether it succeeded.
-/
abbrev Errand := Dialogue Monitor Bool

namespace Errand

def count (f : Metrics → Metrics) : Dialogue Monitor Unit :=
  Dialogue.update fun _ s => ((), { s with manager := s.manager.count f })

/--
Writes a batch of records; if that fails they are lost.
-/
def writeRecords (rs : List Record) : Errand := do
  if rs.isEmpty then return true
  match ← (Storage.flushRecords rs).run with
  | .ok n =>
    count fun c => { c with recordsFlushed := c.recordsFlushed + n }
    return true
  | .error _ =>
    count fun c => { c with flushFailures := c.flushFailures + 1 }
    return false

def sweepRecords (before : Moment) (batch : Nat) : Errand := do
  match ← (Storage.deleteExpired before batch).run with
  | .ok n =>
    count fun c => { c with recordsCollected := c.recordsCollected + n }
    return true
  | .error _ => return false

def insertWatch (w : Watch) : Errand :=
  return (← (Storage.addWatch w).run).isOk

def syncWatches : Errand := return (← Monitor.sync.run).isOk

def moveWatch (w : Watch) : Errand :=
  .look fun now _ => do
    match ← (Storage.moveToDone w now.wall).run with
    | .ok () =>
      count fun c => { c with staleCleanups := c.staleCleanups + 1 }
      return true
    | .error _ => return false

end Errand

abbrev Post := Desk Monitor Member Tick Bool

namespace Post

def manager (d : Post) : Manager := d.state.manager

def setManager (d : Post) (manager : Manager) : Post :=
  { d with state := { d.state with manager } }

end Post

/--
The move of a stale row, which is tried for the given time.
-/
structure Move where
  watch : Watch
  attempt : Nat
  /-- When it is tried, in milliseconds on the clock. -/
  due : Nat
deriving DecidableEq, Repr

structure Pipeline where
  /-- The records that were gathered and not written yet. -/
  buffer : Buffer
  flushTick : Ticker
  sweepTick : Ticker
  syncTick : Ticker
  purgeTick : Ticker
  /-- What the loop that cleans up is at. -/
  move : Option Move
  /-- The loops are to end. -/
  stopping : Bool
  /-- The records that were there at the end have been gathered. -/
  drained : Bool

namespace Pipeline

/--
The pipeline that starts at the given time.
-/
def start (s : Settings) (now : Nat) : Pipeline where
  buffer := .empty
  flushTick := .start now s.flushInterval
  sweepTick := .start now s.sweepInterval
  syncTick := .start now s.syncInterval
  purgeTick := .start now s.purgeInterval
  move := none
  stopping := false
  drained := false

/--
Goes on with the errand of a member who does not mind its outcome.
-/
def proceed? (p : Pipeline) (d : Post) (who : Member) : Option (Pipeline × Post) :=
  (d.proceed? who).map fun r => (p, r.2)

def flush (p : Pipeline) (d : Post) : Pipeline × Post :=
  ({ p with buffer := .empty }, (d.begin .flush (Errand.writeRecords p.buffer.batch)).2)

/--
Takes a record out of its channel; enough different ones are written at once.
-/
def gather? (p : Pipeline) (d : Post) : Option (Pipeline × Post) :=
  match d.manager.records.receive? with
  | none => none
  | some (r, records) =>
    let d := d.setManager { d.manager with records }
    let p := { p with buffer := p.buffer.add r }
    if d.manager.settings.flushThreshold ≤ p.buffer.size then some (p.flush d) else some (p, d)

/--
Writes all records that are left, once.
-/
def gatherLast? (p : Pipeline) (d : Post) : Option (Pipeline × Post) :=
  if p.drained then none
  else
    let m := d.manager
    let p := { p with buffer := m.records.items.foldl Buffer.add p.buffer, drained := true }
    some (p.flush (d.setManager { m with records := m.records.drained }))

/--
Has old records swept away, unless that is still being done. If they are to be kept for longer than
the clock can tell, those go that started before the epoch.
-/
def sweep (p : Pipeline) (d : Post) : Pipeline × Post :=
  if d.isHeld .sweep then (p, d)
  else
    let s := d.manager.settings
    let before := (d.now.wall.sub? s.retention).getD .epoch
    (p, d.spawn (fun _ => .sweep) (Errand.sweepRecords before s.sweepBatch))

/--
A move of the loop that gathers records, which waits for its batches to be written.
-/
def flushLoop? (p : Pipeline) (d : Post) : Option (Pipeline × Post) :=
  if d.isHeld .flush then p.proceed? d .flush
  else if p.stopping then p.gatherLast? d
  else
    p.gather? d
    <|> (p.flushTick.tick? d.clock).map (fun flushTick => { p with flushTick }.flush d)
    <|> (p.sweepTick.tick? d.clock).map (fun sweepTick => { p with sweepTick }.sweep d)

/--
A move of the loop that inserts watches.
-/
def insertLoop? (p : Pipeline) (d : Post) : Option (Pipeline × Post) :=
  if p.stopping then none
  else
    match d.manager.quarantined.receive? with
    | none => none
    | some (w, quarantined) =>
      let d := d.setManager { d.manager with quarantined }
      some (p, d.spawn .insertion (Errand.insertWatch w))

/--
The pipeline after the move of a stale row was begun or went on. A move that failed is tried again
after a while, until it was tried often enough; nothing is tried again when the loops are to end.
-/
def conclude (p : Pipeline) (m : Move) (r : Option Bool × Post) : Pipeline × Post :=
  match r with
  | (none, d) => (p, d)
  | (some true, d) => ({ p with move := none }, d)
  | (some false, d) =>
    let s := d.manager.settings
    if m.attempt < max s.cleanupAttempts 1 then
      let next : Move := ⟨m.watch, m.attempt + 1, d.clock + s.cleanupBackoff.millis⟩
      ({ p with move := if p.stopping then none else some next }, d)
    else
      ({ p with move := none }, d.setManager <| d.manager.count fun c =>
        { c with staleCleanupFailures := c.staleCleanupFailures + 1 })

/--
A move of the loop that cleans up stale rows, one at a time. At its end it takes no more of them.
-/
def cleanupLoop? (p : Pipeline) (d : Post) : Option (Pipeline × Post) :=
  match p.move with
  | some m =>
    if d.isHeld .cleanup then (d.proceed? .cleanup).map (p.conclude m)
    else if p.stopping then some ({ p with move := none }, d)
    else if m.due ≤ d.clock then
      some (p.conclude m (d.begin .cleanup (Errand.moveWatch m.watch)))
    else none
  | none =>
    let stale := d.manager.stale
    if p.stopping then
      if stale.isOpen then some (p, d.setManager { d.manager with stale := stale.closed }) else none
    else
      stale.receive?.map fun (w, stale) =>
        ({ p with move := some ⟨w, 1, d.clock⟩ }, d.setManager { d.manager with stale })

/--
A move of the loop that takes rows over.
-/
def syncLoop? (p : Pipeline) (d : Post) : Option (Pipeline × Post) :=
  if d.isHeld .sync then p.proceed? d .sync
  else if p.stopping then none
  else
    (p.syncTick.tick? d.clock).map fun syncTick =>
      ({ p with syncTick }, (d.begin .sync Errand.syncWatches).2)

/--
A move of the loop that purges expired watches.
-/
def purgeLoop? (p : Pipeline) (d : Post) : Option (Pipeline × Post) :=
  if p.stopping then none
  else
    (p.purgeTick.tick? d.clock).map fun purgeTick =>
      ({ p with purgeTick }, d.setManager (d.manager.purge d.now).2)

/--
A move of a member, if it can make one now.
-/
def move? (p : Pipeline) (d : Post) : Member → Option (Pipeline × Post)
  | .flush => p.flushLoop? d
  | .insert => p.insertLoop? d
  | .cleanup => p.cleanupLoop? d
  | .sync => p.syncLoop? d
  | .purge => p.purgeLoop? d
  | who => p.proceed? d who

/--
The desk after a member made its last move for now: if it is on no errand, it sets an alarm for
each time that it waits for.
-/
def rest (p : Pipeline) (d : Post) (who : Member) : Post :=
  if p.stopping || d.isHeld who then d
  else
    match who with
    | .flush => (d.arm p.flushTick.due who .flush).arm p.sweepTick.due who .sweep
    | .cleanup =>
      match p.move with
      | some m => d.arm m.due who .retry
      | none => d
    | .sync => d.arm p.syncTick.due who .sync
    | .purge => d.arm p.purgeTick.due who .purge
    | _ => d

/--
Tells the loops to end. From now on nobody waits for anything but the ends of errands.
-/
def stop (p : Pipeline) (d : Post) : Pipeline × Post :=
  let agenda := d.agenda.cancel fun alarm => alarm.what ≠ .answer
  ({ p with stopping := true }, { d with agenda := agenda.callAll Member.loops })

end Pipeline

end Steward.Runaway
