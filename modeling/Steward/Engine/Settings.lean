import Steward.Environment

/-!
This module contains the settings of the schema-change engine.
-/

namespace Steward.Engine

structure Settings where
  /-- Are foreign keys checked at all? This may be switched while the engine runs. -/
  checksForeignKeys : Bool
  /-- How often an idle worker looks for jobs. -/
  pollInterval : Span
  /-- How many failed steps a job may have before it turns back. -/
  errorLimit : Nat
deriving DecidableEq, Repr

namespace Settings

def standard : Settings := ⟨true, .ofMillis 50, 512⟩

def ofEnvironment (env : Environment) : Except (Failure String) Settings := do
  let checksForeignKeys ← env.switch "HOLO_DDL_ENABLE_FOREIGN_KEY" true
  let poll ← env.natural "HOLO_DDL_JOB_POLL_INTERVAL_MS" "u64" standard.pollInterval.millis
  let errorLimit ← env.natural "HOLO_DDL_ERROR_COUNT_LIMIT" "u64" standard.errorLimit
  return ⟨checksForeignKeys, .ofMillis (max 1 poll), errorLimit⟩

end Settings

end Steward.Engine
