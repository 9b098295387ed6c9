import Steward.Catalog.Stage

/-!
This module contains the kinds of schema changes, the states of a job, and the order of stages that
a job of each kind walks through.
-/

namespace Steward.Change

open Catalog (Stage)

inductive Kind where
  | createTable
  | dropTable
  | truncateTable
  | addForeignKey
  | dropForeignKey
  | dropIndex
  | dropColumn
deriving DecidableEq, Repr, Inhabited

inductive Status where
  | queued
  | running
  | done
  | rollingBack
  | rollbackDone
  | cancelled
deriving DecidableEq, Repr, Inhabited

namespace Status

/--
A job in such a state is over.
-/
def isTerminal : Status → Bool
  | done | rollbackDone | cancelled => true
  | _ => false

/--
A job in such a state does not go forward any more, and is not done either.
-/
def isBackward : Status → Bool
  | rollingBack | rollbackDone | cancelled => true
  | _ => false

/--
The state as it stands in messages.
-/
def display : Status → String
  | queued => "queueing"
  | running => "running"
  | done => "done"
  | rollingBack => "rollingback"
  | rollbackDone => "rollback done"
  | cancelled => "cancelled"

def names : List (String × Status) := [
  ("queued", queued), ("running", running), ("done", done), ("rolling_back", rollingBack),
  ("rollback_done", rollbackDone), ("cancelled", cancelled)]

end Status

namespace Kind

/--
The stages of a job that goes forward.
-/
def order : Kind → List Stage
  | addForeignKey => [.absent, .writeOnly, .writeReorg, .live]
  | createTable | truncateTable => [.absent, .live]
  | dropTable | dropIndex | dropColumn => [.live, .writeOnly, .deleteOnly, .absent]
  | dropForeignKey => [.live, .absent]

/--
The stage that a job starts at.
-/
def initial : Kind → Stage
  | addForeignKey | createTable | truncateTable => .absent
  | dropTable | dropIndex | dropColumn | dropForeignKey => .live

theorem head?_order (k : Kind) : k.order.head? = some k.initial := by
  cases k <;> rfl

/--
May a step that leaves its job in the given state move it between the two stages? A job that goes
forward moves by at most one place of its order; one that does not may only land where nothing is
changed yet, or at no stage.
-/
def allows (k : Kind) (source target : Stage) (status : Status) : Bool :=
  source == target ||
    if status.isBackward then target == .absent || target == k.initial
    else
      match k.order.findIdx? (· == source), k.order.findIdx? (· == target) with
      | some i, some j => j == i + 1
      | _, _ => false

/--
The kind as it stands in messages.
-/
def display : Kind → String
  | createTable => "create table"
  | dropTable => "drop table"
  | truncateTable => "truncate table"
  | addForeignKey => "add foreign key"
  | dropForeignKey => "drop foreign key"
  | dropIndex => "drop index"
  | dropColumn => "drop column"

def names : List (String × Kind) := [
  ("create_table", createTable), ("drop_table", dropTable), ("truncate_table", truncateTable),
  ("add_foreign_key", addForeignKey), ("drop_foreign_key", dropForeignKey),
  ("drop_index", dropIndex), ("drop_column", dropColumn)]

end Kind

end Steward.Change
