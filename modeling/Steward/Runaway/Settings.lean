import Steward.Environment

/-!
This module contains the settings of the watch over runaway queries.
-/

namespace Steward.Runaway

structure Settings where
  /-- How many watches are kept at most. -/
  watchCapacity : Nat
  /-- How many items each channel holds at most. -/
  channelCapacity : Nat
  flushInterval : Span
  sweepInterval : Span
  /-- How long records are kept. -/
  retention : Span
  /-- How many records are deleted at a time. -/
  sweepBatch : Nat
  syncInterval : Span
  /-- How often the move of a stale watch is tried. -/
  cleanupAttempts : Nat
  cleanupBackoff : Span
  purgeInterval : Span
  /-- The source of what this server finds. -/
  serverId : String
deriving DecidableEq, Repr

namespace Settings

def standard : Settings where
  watchCapacity := 10000
  channelCapacity := 1024
  flushInterval := .ofSeconds 1
  sweepInterval := .ofSeconds (24 * 60 * 60)
  retention := .ofSeconds (7 * 24 * 60 * 60)
  sweepBatch := 100
  syncInterval := .ofSeconds 1
  cleanupAttempts := 3
  cleanupBackoff := .ofSeconds 1
  purgeInterval := .ofSeconds 1
  serverId := "local"

def ofEnvironment (env : Environment) : Except (Failure String) Settings := do
  let count (name : String) (default : Nat) := env.natural ("HOLO_RUNAWAY_" ++ name) "usize" default
  let span (name : String) (default : Span) := env.millis ("HOLO_RUNAWAY_" ++ name) default
  return {
    watchCapacity := max 1 (← count "WATCH_LIST_CAPACITY" standard.watchCapacity)
    channelCapacity := max 2 (← count "RECORD_CHANNEL_CAPACITY" standard.channelCapacity)
    flushInterval := ← span "FLUSH_INTERVAL_MS" standard.flushInterval
    sweepInterval := ← span "GC_INTERVAL_MS" standard.sweepInterval
    retention := ← span "RECORD_RETENTION_MS" standard.retention
    sweepBatch := max 1 (← count "GC_BATCH_SIZE" standard.sweepBatch)
    syncInterval := ← span "WATCH_SYNC_INTERVAL_MS" standard.syncInterval
    cleanupAttempts := max 1 (← count "STALE_CLEANUP_RETRIES" standard.cleanupAttempts)
    cleanupBackoff := ← span "STALE_CLEANUP_BACKOFF_MS" standard.cleanupBackoff
    purgeInterval := ← span "CACHE_PURGE_INTERVAL_MS" standard.purgeInterval
    serverId := (env "HOLO_RUNAWAY_SERVER_ID").getD standard.serverId }

/--
How many different records are gathered before they are written.
-/
def flushThreshold (s : Settings) : Nat := max 1 (s.channelCapacity / 2)

end Settings

end Steward.Runaway
