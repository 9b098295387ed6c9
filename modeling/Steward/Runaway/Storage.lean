import Steward.Runaway.Record
import Steward.Runaway.Watch
import Steward.Sql.Dialogue

/-!
This module contains the tables of records and watches: the statements on them, and the exchanges
with the database that are made of these statements.
-/

namespace Steward.Runaway

open Sql (Dialogue Reply Row Statement Trouble Value)

/--
A dialogue that may fail.
-/
abbrev Exchange (σ : Type) := ExceptT Trouble (Dialogue σ)

namespace Exchange

variable {σ α : Type}

/--
Sends one statement for the given activity, on a session of its own.
-/
def ask (activity : String) (st : Statement) : Exchange σ Reply :=
  ExceptT.mk (return during activity (← Dialogue.exec st))

/--
Sends one statement for the given activity on the session that is out.
-/
def say (activity : String) (st : Statement) : Exchange σ Reply :=
  ExceptT.mk (.send st fun r => .done (during activity r))

/--
Takes a session out for the time of an exchange.
-/
def inSession (e : Exchange σ α) : Exchange σ α :=
  ExceptT.mk (.acquire fun
    | .error t => .done (.error t)
    | .ok () => e.run.bind fun r => .release (.done r))

def ofResult (r : Except Trouble α) : Exchange σ α := ExceptT.mk (.done r)

end Exchange

namespace Storage

def watchTable : String := "holo_runaway_watch"

def doneTable : String := "holo_runaway_watch_done"

def recordColumns : String :=
  "resource_group_name, start_time, match_type, action, sample_sql, sql_digest, plan_digest, "
    ++ "source, exceed_cause, repeats"

def watchColumns : String :=
  "resource_group_name, start_time, end_time, watch, watch_text, source, action, "
    ++ "switch_group_name, exceed_cause"

/--
Placeholders for the values of a row.
-/
def placeholders (n : Nat) : String := ", ".intercalate (List.replicate n "?")

def insertRecords (rs : List Record) : Statement where
  sql := s!"INSERT INTO mysql.holo_runaway_queries ({recordColumns}) VALUES "
    ++ ", ".intercalate (rs.map fun _ => s!"({placeholders 10})")
  params := rs.flatMap Record.params

def deleteRecords (before : Moment) (batch : Nat) : Statement :=
  ⟨s!"DELETE FROM mysql.holo_runaway_queries WHERE start_time < ? LIMIT {batch}", [.time before]⟩

def insertWatch (w : Watch) : Statement :=
  ⟨s!"INSERT INTO mysql.{watchTable} ({watchColumns}) VALUES ({placeholders 9})", w.params⟩

def copyWatch (w : Watch) (done : Moment) : Statement :=
  ⟨s!"INSERT INTO mysql.{doneTable} (record_id, {watchColumns}, done_time) "
      ++ s!"SELECT id, {watchColumns}, ? FROM mysql.{watchTable} WHERE id = ?",
    [.time done, .int w.id]⟩

def deleteWatch (w : Watch) : Statement :=
  ⟨s!"DELETE FROM mysql.{watchTable} WHERE id = ?", [.int w.id]⟩

def findTable (table : String) : Statement :=
  ⟨"SELECT 1 FROM information_schema.tables WHERE table_schema = ? AND table_name = ?",
    [.text "mysql", .text table]⟩

def selectWatches (after : Int) : Statement :=
  ⟨s!"SELECT id, {watchColumns} FROM mysql.{watchTable} WHERE id > ? ORDER BY id", [.int after]⟩

def selectDone (after : Int) : Statement :=
  ⟨s!"SELECT record_id, {watchColumns}, id FROM mysql.{doneTable} WHERE id > ? ORDER BY id",
    [.int after]⟩

section Exchanges

variable {σ : Type}

/--
Writes records in one statement, and returns how many.
-/
def flushRecords (rs : List Record) : Exchange σ Nat := do
  if rs.isEmpty then return 0
  let _ ← Exchange.ask s!"flush {rs.length} runaway records" (insertRecords rs)
  return rs.length

/--
Deletes records of before the given moment with at most `fuel` statements. A statement that deletes
less than it might is the last one. `total` have been deleted already.
-/
def deleteBatches (before : Moment) (batch fuel total : Nat) : Exchange σ Nat :=
  match fuel with
  | 0 => return total
  | fuel + 1 => do
    let r ← Exchange.ask "delete expired runaway records" (deleteRecords before batch)
    if r.affected < batch then return total + r.affected
    else deleteBatches before batch fuel (total + r.affected)

/--
More rows than a table has.
-/
def manyRows : Nat := Nat.pow 2 64

/--
Deletes all records of before the given moment, `batch` or at least one in a statement, and returns
how many. Every statement but the last one deletes a row.
-/
def deleteExpired (before : Moment) (batch : Nat) : Exchange σ Nat :=
  deleteBatches before (max batch 1) manyRows 0

def insertedId (r : Reply) : Except Trouble Int :=
  match r.inserted with
  | none => .error (.of "runaway watch insert returned no id")
  | some id =>
    if id ≤ Text.maxInt64 then .ok id
    else
      .error ((Failure.of "out of range integral type conversion attempted").during
        "runaway watch id overflows i64")

/--
Inserts a watch, and returns its id.
-/
def addWatch (w : Watch) : Exchange σ Int := do
  Exchange.ofResult (insertedId (← Exchange.ask s!"add runaway watch {w.key}" (insertWatch w)))

/--
The statements between the begin and the end of a move.
-/
def copyAndDelete (w : Watch) (done : Moment) : Exchange σ Unit := do
  let _ ← Exchange.say "copy watch to done table" (copyWatch w done)
  let _ ← Exchange.say "delete watch row" (deleteWatch w)
  let _ ← Exchange.say "commit stale watch cleanup" ⟨"COMMIT", []⟩

/--
Undoes what an exchange did if it fails, and tells for what.
-/
def orRollback (activity : String) (e : Exchange σ Unit) : Exchange σ Unit :=
  tryCatch e fun t =>
    ExceptT.mk (.send ⟨"ROLLBACK", []⟩ fun _ => .done (.error (t.during activity)))

/--
Moves the row of a watch to the done table in one transaction.
-/
def moveToDone (w : Watch) (done : Moment) : Exchange σ Unit :=
  Exchange.inSession do
    let _ ← Exchange.say "begin stale watch cleanup" ⟨"BEGIN", []⟩
    orRollback s!"move runaway watch {w.id} to done" (copyAndDelete w done)

def tableExists (table : String) : Exchange σ Bool := do
  return !(← Exchange.ask s!"check system table {table}" (findTable table)).rows.isEmpty

/--
The watches with ids above the given one.
-/
def watchesAfter (after : Int) : Exchange σ (List Watch) := do
  let r ← Exchange.ask "load runaway watches" (selectWatches after)
  Exchange.ofResult (r.rows.mapM Watch.ofRow)

/--
A watch that was moved to the done table, and the id of its row there.
-/
def doneOfRow (r : Row) : Except Trouble (Watch × Int) := do
  return (← Watch.ofRow r, ← Trouble.ofRead (r.int64 10))

/--
The watches that were moved to the done table into rows with ids above the given one, and these
ids.
-/
def doneAfter (after : Int) : Exchange σ (List (Watch × Int)) := do
  let r ← Exchange.ask "load done runaway watches" (selectDone after)
  Exchange.ofResult (r.rows.mapM doneOfRow)

end Exchanges

end Storage

end Steward.Runaway
