import Steward.Console.Watches
import Steward.Json.Writer
import Steward.Runaway.Checker
import Steward.Runaway.Server

/-!
This module contains the commands to a server that watches over runaway queries: to its manager, to
the checkers of queries, to the watch tables, and to the loops in the background.
-/

namespace Steward.Console

open Runaway (Action Checker Detection Exchange Hit Interruption Manager Metrics Monitor Outcome
  Progress Record Report Server Target Watch)
open Sql (Answered Dialogue Statement)

structure ServerSession where
  server : Server
  checkers : List (String × Checker)
  /-- The loops have the channels, or had them; they cannot be taken twice. -/
  spawned : Bool

def ofMetrics (m : Metrics) : Json := .obj [
  ("records_dropped", .nat m.recordsDropped), ("quarantines_dropped", .nat m.quarantinesDropped),
  ("stale_dropped", .nat m.staleDropped), ("records_flushed", .nat m.recordsFlushed),
  ("flush_failures", .nat m.flushFailures), ("watches_synced", .nat m.watchesSynced),
  ("stale_cleanups", .nat m.staleCleanups),
  ("stale_cleanup_failures", .nat m.staleCleanupFailures),
  ("records_garbage_collected", .nat m.recordsCollected)]

def ofOutcome : Outcome → Json
  | .inserted => .str "Inserted"
  | .replaced => .str "Replaced"
  | .unchanged => .str "Unchanged"
  | .stale => .str "Stale"

def ofHit (h : Hit) : Json := .obj [
  ("action", h.action.toJson), ("switch", .str h.switchGroup), ("cause", .str h.cause)]

def ofReport (r : Report) : Json := .obj [
  ("ready", .bool r.ready), ("added", .nat r.added), ("removed", .nat r.removed)]

def orInterrupted {α : Type} : Except Interruption α → Ask α
  | .ok a => .ok a
  | .error i => .error (.failed i.kind i.message)

/-! ## What the pool answered -/

/--
Items in groups of the given size.
-/
def groupsOf {α : Type} (size : Nat) (fuel : Nat) (as : List α) : List (List α) :=
  match fuel, as with
  | 0, _ => []
  | _, [] => []
  | fuel + 1, as => as.take size :: groupsOf size fuel (as.drop size)

def isRecordInsert (sql : String) : Bool :=
  Text.startsWith sql "INSERT INTO mysql.holo_runaway_queries"

/--
The values of a statement. The rows of records that started at the same time are put in order.
-/
def paramsInOrder (st : Statement) : List Sql.Value :=
  if isRecordInsert st.sql then
    let start (row : List Sql.Value) : Int :=
      match row[1]? with
      | some (Sql.Value.time m) => m.nanos
      | _ => 0
    let rows := (groupsOf 10 st.params.length st.params).map fun row =>
      (start row, (ofValues row).sortedText, row)
    let rows := rows.mergeSort fun a b => a.1 < b.1 || (a.1 == b.1 && !(b.2.1 < a.2.1))
    rows.flatMap (·.2.2)
  else st.params

/--
The loop that a statement comes from.
-/
def loopOf (sql : String) : String :=
  if isRecordInsert sql then "flush"
  else if Text.startsWith sql "DELETE FROM mysql.holo_runaway_queries" then "gc"
  else if Text.startsWith sql "INSERT INTO mysql.holo_runaway_watch (" then "insert_watch"
  else if Text.startsWith sql "SELECT" then "sync"
  else "cleanup"

def ofAnswered (a : Answered) : Json := .obj [
  ("t", .nat a.time), ("sql", .str a.statement.sql),
  ("params", ofValues (paramsInOrder a.statement))]

/--
An answered statement in short: only the first word of its text.
-/
def ofAnsweredBrief (a : Answered) : Json :=
  let word := String.ofList (a.statement.sql.toList.takeWhile (· ≠ ' '))
  .arr [.nat a.time, .str word, ofValues (paramsInOrder a.statement)]

def byLoop (write : Answered → Json) (as : List Answered) : Json :=
  let loops := ["flush", "gc", "insert_watch", "cleanup", "sync"].map fun name =>
    (name, as.filter fun a => loopOf a.statement.sql == name)
  .obj ((loops.filter fun l => !l.2.isEmpty).map fun l => (l.1, Json.ofList write l.2))

namespace ServerSession

def server? : Command ServerSession Server := return (← get).server

def setServer (server : Server) : Command ServerSession Unit := modify fun s => { s with server }

def manage {α : Type} (f : Now → Manager → α × Manager) : Command ServerSession α := do
  let s ← server?
  let (a, m) := f s.now s.manager
  setServer (s.setManager m)
  return a

/--
Does something to the manager that has no answer.
-/
def change (f : Now → Manager → Manager) : Command ServerSession Json := do
  manage fun now m => ((), f now m)
  return .null

def hold {α : Type} (e : Exchange Monitor α) (write : α → Json) : Command ServerSession Json := do
  let (r, s) := (← server?).hold e.run
  setServer s
  match r with
  | some r => return write (← ask (orPlain r))
  | none => throw .malformed

def takeAnswered : Command ServerSession (List Answered) := do
  let s ← server?
  let (answered, pool) := s.desk.pool.takeAnswered
  setServer { s with desk := { s.desk with pool } }
  return answered

/--
The items that are in a channel.
-/
def items (m : Manager) (j : Json) : Ask (List (Int × Json) × Manager) := do
  let ofWatches (ws : List Watch) := ws.map fun w => (w.id, ofWatch w)
  match ← needStr j "chan" with
  | "record" =>
    return (m.records.items.map fun r => (0, ofRecord r), { m with records := m.records.drained })
  | "quarantine" =>
    return (ofWatches m.quarantined.items, { m with quarantined := m.quarantined.drained })
  | "stale" => return (ofWatches m.stale.items, { m with stale := m.stale.drained })
  | _ => .error .malformed

def close (m : Manager) (j : Json) : Ask Manager := do
  match ← needStr j "chan" with
  | "record" => return { m with records := m.records.closed }
  | "quarantine" => return { m with quarantined := m.quarantined.closed }
  | "stale" => return { m with stale := m.stale.closed }
  | _ => .error .malformed

/--
Does something to the manager with its channels. Nothing happens, and nothing is there to receive, if
the loops have the channels or had them.
-/
def onChannels {α : Type} (nothing : α) (f : Manager → Ask (α × Manager)) :
    Command ServerSession α := do
  let s ← get
  let (a, m) ← ask (f s.server.manager)
  if s.spawned then return nothing
  setServer (s.server.setManager m)
  return a

def onManager (j : Json) : Command ServerSession Json := do
  let wall := (← server?).now.wall
  let group := strOr j "group" "rg1"
  let given : Ask Watch := do watch wall (← need j "record")
  match ← ask (needStr j "do") with
  | "mark_runaway" => do
    let q ← ask (do query (← need j "query"))
    let a ← ask (action j .kill)
    let detection ← ask (decodeOr j "match" .identify Detection.ofJson?)
    let start ← ask (momentOr wall wall j "now_ms" "now_rel_ms")
    let cause ← ask (strOr j "cause" "")
    change fun _ m => m.markRunaway q a detection start cause
  | "mark_quarantine" => do
    let mark : Runaway.Mark := {
      group := ← ask group
      text := ← ask (needStr j "text")
      target := ← ask (decodeOr j "watch" .exact Target.ofJson?)
      action := ← ask (action j .kill)
      switchGroup := ← ask (strOr j "switch" "")
      duration := .ofMillis (← ask (natOr j "ttl_ms" 0))
      start := ← ask (momentOr wall wall j "now_ms" "now_rel_ms")
      cause := ← ask (strOr j "cause" "") }
    change fun now m => m.markQuarantine now mark
  | "add_watch" => do
    let w ← ask given
    return ofOutcome (← manage fun now m => m.addWatch now w)
  | "add_watch_list" => do
    let w ← ask given
    let ttl := (← ask (maybeNat j "ttl_ms")).map Span.ofMillis
    let force ← ask (needBool j "force")
    return ofOutcome (← manage fun now m => m.addToList now w ttl force)
  | "remove_watch" => do
    let w ← ask given
    return .bool (← manage fun now m => m.removeWatch now w)
  | "examine" => do
    let s ← server?
    return Json.ofOption ofHit (s.manager.examine s.now (← ask group) (← ask (needStr j "text")))
  | "watch_record" => do
    let s ← server?
    return Json.ofOption ofWatch (s.manager.watch? s.now (← ask group) (← ask (needStr j "text")))
  | "active" => return .nat ((← server?).manager.active (← ask group))
  | "groups" =>
    return .obj ((← server?).manager.list.groups.entries.map fun e => (e.1, .nat e.2))
  | "len" => return .nat (← server?).manager.list.cache.size
  | "purge" => return .nat (← manage fun now m => m.purge now)
  | "metrics" => return ofMetrics (← server?).manager.metrics
  | "drain" => do
    let items ← onChannels [] fun m => items m j
    let texts := items.map fun i => (i.1, i.2.sortedText, i.2)
    let texts :=
      if ← ask (boolOr j "sort" false) then
        texts.mergeSort fun a b => a.1 < b.1 || (a.1 == b.1 && !(b.2.1 < a.2.1))
      else texts
    return .arr (texts.map (·.2.2))
  | "close" => do
    onChannels () fun m => return ((), ← close m j)
    return .null
  | _ => throw .malformed

/--
The commands to the checkers of queries.
-/
def onChecker (j : Json) : Command ServerSession Json := do
  let name ← ask (strOr j "name" "c")
  let wall := (← server?).now.wall
  let moment := momentOr wall wall j "now_ms" "now_rel_ms"
  let setChecker (c : Checker) : Command ServerSession Unit :=
    modify fun s => { s with checkers := (name, c) :: s.checkers.filter (·.1 != name) }
  let checker : Command ServerSession Checker := do
    ask (orMalformed ((← get).checkers.lookup name))
  match ← ask (needStr j "do") with
  | "checker" => do
    let q ← ask (do query (← need j "query"))
    setChecker (.ofQuery q (← ask (maybe j "limit" limit)))
    return .str q.group
  | "before" => do
    let c ← checker
    let moment ← ask moment
    let r ← manage fun now m => c.beforeExecution m now moment
    return Json.ofOption ofHit (← ask (orInterrupted r))
  | "thresholds" => do
    let c ← checker
    let moment ← ask moment
    let p : Progress := ⟨← ask (do span (← need j "elapsed")), ← ask (needNat j "keys"),
      ← ask (needNat j "ru")⟩
    let (r, c) ← manage fun now m =>
      let (r, c, m) := c.checkThresholds m now moment p
      ((r, c), m)
    setChecker c
    return Json.ofOption Action.toJson (← ask (orInterrupted r))
  | _ => throw .malformed

def onTables (j : Json) : Command ServerSession Json := do
  let wall := (← server?).now.wall
  let given : Ask Watch := do watch wall (← need j "record")
  match ← ask (needStr j "do") with
  | "sync" => hold Monitor.sync ofReport
  | "tables_ready" => hold Monitor.tablesReady .bool
  | "fetch_new" => hold Monitor.fetchNew (Json.ofList ofWatch)
  | "fetch_done" => hold Monitor.fetchDone (Json.ofList ofWatch)
  | "store_flush" => do
    let rs ← ask (do (← needList j "records").mapM (record wall))
    hold (Runaway.Storage.flushRecords rs) .nat
  | "store_gc" => do
    let before := Moment.ofMillis (← ask (needInt j "before_ms"))
    hold (Runaway.Storage.deleteExpired before (← ask (needNat j "batch"))) .nat
  | "store_add" => do hold (Runaway.Storage.addWatch (← ask given)) .int
  | "store_done" => do
    let done ← ask (momentOr wall wall j "now_ms" "now_rel_ms")
    hold (Runaway.Storage.moveToDone (← ask given) done) fun _ => .null
  | "store_exists" => do hold (Runaway.Storage.tableExists (← ask (needStr j "table"))) .bool
  | "store_watches" => do
    hold (Runaway.Storage.watchesAfter (← ask (needInt j "after"))) (Json.ofList ofWatch)
  | "store_done_watches" => do
    hold (Runaway.Storage.doneAfter (← ask (needInt j "after")))
      (Json.ofList fun r => .arr [ofWatch r.1, .int r.2])
  | _ => throw .malformed

def onServer (j : Json) : Command ServerSession Json := do
  let s ← server?
  match ← ask (needStr j "do") with
  | "log" => return Json.ofList ofAnswered (← takeAnswered)
  | "log_by_loop" => do
    let write := if ← ask (boolOr j "brief" false) then ofAnsweredBrief else ofAnswered
    return byLoop write (← takeAnswered)
  | "spawn" => do
    if (← get).spawned then throw .malformed
    if s.manager.isOpen then
      set { (← get) with server := s.spawn, spawned := true }
      return .null
    else
      set { (← get) with server := s.setManager s.manager.closed, spawned := true }
      throw .malformed
  | "shutdown" => do
    let s := s.shutdown
    setServer s
    return .nat s.desk.clock
  | "sleep" => do
    let s := s.sleepUntil (s.desk.clock + (← ask (needNat j "ms")))
    setServer s
    return .nat s.desk.clock
  | "wall" => do
    let desk := { s.desk with epoch := s.desk.epoch + (← ask (needInt j "ms")) }
    setServer { s with desk }
    return .int desk.now.wall.millis
  | _ => throw .malformed

def managerCommands : List String := [
  "mark_runaway", "mark_quarantine", "add_watch", "add_watch_list", "remove_watch", "examine",
  "watch_record", "active", "groups", "len", "purge", "metrics", "drain", "close"]

def checkerCommands : List String := ["checker", "before", "thresholds"]

def tableCommands : List String := [
  "sync", "tables_ready", "fetch_new", "fetch_done", "store_flush", "store_gc", "store_add",
  "store_done", "store_exists", "store_watches", "store_done_watches"]

def dispatch (j : Json) : Command ServerSession Json := do
  let s ← server?
  if let some result := poolCommand s.desk.pool j then
    let (a, pool) ← ask result
    setServer { s with desk := { s.desk with pool } }
    return a
  let name ← ask (needStr j "do")
  if managerCommands.contains name then onManager j
  else if checkerCommands.contains name then onChecker j
  else if tableCommands.contains name then onTables j
  else onServer j

/--
A command, after which the loops in the background move until they wait.
-/
def command (j : Json) : Command ServerSession Json := fun s =>
  let (a, s) := (dispatch j).run.run s
  let settles := ((j.member? "settle").bind Json.bool?).getD true
  (a, if settles then { s with server := Crew.settle s.server } else s)

end ServerSession

end Steward.Console
