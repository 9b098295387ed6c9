import Steward.Console.Values
import Steward.Runaway.Encoding
import Steward.Runaway.Limit
import Steward.Runaway.Record
import Steward.Runaway.Settings
import Steward.Runaway.Watch

/-!
This module contains the short forms in which the console reads and writes what has to do with
runaway queries. Everything may be left out. Moments may be given relative to the present.
-/

namespace Steward.Console

open Runaway (Action Detection Limit Query Record Settings Target Watch)

def query (j : Json) : Ask Query := do
  let _ ← members j
  return ⟨← strOr j "group" "rg1", ← strOr j "sql" "", ← strOr j "sql_digest" "",
    ← strOr j "plan_digest" ""⟩

/--
A moment that is given in itself or relative to the present.
-/
def moment? (wall : Moment) (j : Json) (absolute relative : String) : Ask (Option Moment) := do
  match ← maybeInt j absolute with
  | some ms => return some (.ofMillis ms)
  | none => return (← maybeInt j relative).map fun ms => ⟨wall.nanos + ms * Span.perMilli⟩

def momentOr (default wall : Moment) (j : Json) (absolute relative : String) : Ask Moment := do
  return (← moment? wall j absolute relative).getD default

def action (j : Json) (default : Action) : Ask Action := decodeOr j "action" default Action.ofJson?

def watch (wall : Moment) (j : Json) : Ask Watch := do
  let _ ← members j
  return {
    id := ← intOr j "id" 0
    group := ← strOr j "group" "rg1"
    start := ← momentOr ⟨0⟩ wall j "start_ms" "start_rel_ms"
    stop := ← moment? wall j "end_ms" "end_rel_ms"
    target := ← decodeOr j "watch" .exact Target.ofJson?
    text := ← strOr j "text" ""
    source := ← strOr j "source" "node-2"
    action := ← action j .kill
    switchGroup := ← strOr j "switch" ""
    cause := ← strOr j "cause" "" }

def ofWatch (w : Watch) : Json := .obj [
  ("id", .int w.id), ("group", .str w.group), ("start_ms", millis w.start),
  ("end_ms", Json.ofOption millis w.stop), ("watch", w.target.toJson), ("text", .str w.text),
  ("source", .str w.source), ("action", w.action.toJson), ("switch", .str w.switchGroup),
  ("cause", .str w.cause)]

def record (wall : Moment) (j : Json) : Ask Record := do
  let _ ← members j
  return {
    group := ← strOr j "group" "rg1"
    start := ← momentOr ⟨0⟩ wall j "start_ms" "start_rel_ms"
    detection := ← decodeOr j "match" .identify Detection.ofJson?
    action := ← action j .kill
    sample := ← strOr j "sample" ""
    sqlDigest := ← strOr j "sql_digest" ""
    planDigest := ← strOr j "plan_digest" ""
    source := ← strOr j "source" "node-1"
    cause := ← strOr j "cause" ""
    repeats := ← natOr j "repeats" 1 }

def ofRecord (r : Record) : Json := .obj [
  ("group", .str r.group), ("start_ms", millis r.start), ("match", r.detection.toJson),
  ("action", r.action.toJson), ("sample", .str r.sample), ("sql_digest", .str r.sqlDigest),
  ("plan_digest", .str r.planDigest), ("source", .str r.source), ("cause", .str r.cause),
  ("repeats", .nat r.repeats)]

def limit (j : Json) : Ask Limit := do
  let _ ← members j
  return {
    elapsed := ← maybe j "elapsed" span
    keys := ← maybeNat j "keys"
    units := ← maybeNat j "ru"
    action := ← action j .none
    switchGroup := ← strOr j "switch" ""
    watch := ← maybe j "watch" fun v => do
      return ⟨← decode v "type" Target.ofJson?, ← span (← need v "duration")⟩ }

/--
The settings that a command gives, over the standard ones.
-/
def settings (j : Json) : Ask Settings := do
  let standard := Settings.standard
  let span (name : String) (default : Span) : Ask Span := do
    return (← maybeNat j name).elim default .ofMillis
  return {
    watchCapacity := ← natOr j "watch_list_capacity" standard.watchCapacity
    channelCapacity := ← natOr j "record_channel_capacity" standard.channelCapacity
    flushInterval := ← span "flush_interval_ms" standard.flushInterval
    sweepInterval := ← span "gc_interval_ms" standard.sweepInterval
    retention := ← span "record_retention_ms" standard.retention
    sweepBatch := ← natOr j "gc_batch_size" standard.sweepBatch
    syncInterval := ← span "watch_sync_interval_ms" standard.syncInterval
    cleanupAttempts := ← natOr j "stale_cleanup_retries" standard.cleanupAttempts
    cleanupBackoff := ← span "stale_cleanup_backoff_ms" standard.cleanupBackoff
    purgeInterval := ← span "cache_purge_interval_ms" standard.purgeInterval
    serverId := ← strOr j "server_id" standard.serverId }

end Steward.Console
