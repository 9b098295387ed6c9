import Steward.Engine.Settings
import Steward.Sql.Dialogue
import Steward.Step.Run

/-!
This module contains a node that works on schema changes: its ledger, its view of it, and the
session pool, under a clock. A step may have to wait for rows; until they are there it is in
flight, and it is lost if the node stops being the owner before.
-/

namespace Steward.Engine

open Change (Args Job Trouble)
open Ledger (Store Txn)
open Sql (Pool Statement)
open Step (Answer Ending Registry Result Surroundings Work)

structure Node where
  store : Store
  view : View
  settings : Settings
  isOwner : Bool
  pool : Pool
  /-- Milliseconds since the node is there. -/
  clock : Nat
  /-- What the wall clock showed when the clock was at zero, in milliseconds since the epoch. -/
  epoch : Int

/--
A step that waits for the answer to a statement.
-/
structure Flight where
  due : Nat
  /-- The stage of the job before the step. -/
  source : Catalog.Stage
  statement : Statement
  k : Surroundings → Answer → Work Result

inductive Standing where
  /-- There is no job. -/
  | idle
  | ended (ending : Ending)
  | failed (t : Trouble)
  | flying (f : Flight)

namespace Node

/--
A node over a ledger, whose clock starts at zero.
-/
def ofStore (store : Store) (settings : Settings) (isOwner : Bool) (epoch : Int) : Node where
  store := store
  view := .ofSnapshot store.snapshot
  settings := settings
  isOwner := isOwner
  pool := .idle
  clock := 0
  epoch := epoch

def now (n : Node) : Now := ⟨n.clock, .ofMillis (n.epoch + n.clock)⟩

def surroundings (n : Node) : Surroundings :=
  ⟨n.view, n.settings.checksForeignKeys, n.now.wall.stamp⟩

/--
Looks at the last snapshot.
-/
def reload (n : Node) : Node := { n with view := n.view.reload n.store.snapshot }

/--
Commits a transaction of somebody else.
-/
def commit (n : Node) (t : Txn) : Except Trouble Node := do
  return { n with store := ← n.store.commit t }

def settle (n : Node) (e : Except Trouble Ending) : Standing × Node :=
  match e with
  | .error t => (.failed t, n)
  | .ok .abandoned => (.ended .abandoned, n)
  | .ok (.committed store job) => (.ended (.committed store job), { n with store }.reload)

/--
Goes on with the work of a step until it ends or waits. `owned` says that the node was the owner
since the step began.
-/
def work (n : Node) (owned : Bool) (source : Catalog.Stage) : Work Result → Standing × Node
  | .done r =>
    n.settle (Step.conclude n.settings.errorLimit n.store (owned && n.isOwner) source r)
  | .ask st k =>
    if owned then
      match n.pool.acquire with
      | (.error t, pool) =>
        { n with pool }.work owned source (k n.surroundings (.replied (.error t)))
      | (.ok (), pool) =>
        let pool := pool.start st
        let delay := pool.delayOf st.sql
        if delay = 0 then
          let (reply, pool) := pool.answer n.clock st
          { n with pool := pool.release }.work owned source
            (k n.surroundings (.replied reply))
        else (.flying ⟨n.clock + delay, source, st, k⟩, { n with pool })
    else n.work owned source (k n.surroundings .lost)

/--
Begins a step of the oldest job.
-/
def beginStep (n : Node) (handlers : Registry) : Standing × Node :=
  match Step.begin n.store handlers n.surroundings with
  | none => (.idle, n)
  | some begun => n.work n.isOwner begun.source begun.work

/--
Goes on with a step whose answer is due.
-/
def land (n : Node) (f : Flight) : Standing × Node :=
  let (reply, pool) := n.pool.answer n.clock f.statement
  { n with pool := pool.release }.work true f.source (f.k n.surroundings (.replied reply))

/--
Goes on with a step that was lost while it waited.
-/
def lose (n : Node) (f : Flight) : Standing × Node :=
  { n with pool := n.pool.release }.work false f.source (f.k n.surroundings .lost)

end Node

end Steward.Engine
