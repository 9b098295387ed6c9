import Steward.Engine.Basic
import Steward.Ledger.Setup

/-!
This module contains changes to the ledger of a node that do not go through a handler: tables that
are put there at once, and the repair of jobs and tables. Each is a transaction of its own.
-/

namespace Steward.Engine

open Catalog (Table)
open Change (Job Trouble)

namespace Node

/--
Puts a new table into a schema in a schema version of its own, and returns its id.
-/
def install (n : Node) (schemaId : Int) (table : Table) (keepStage : Bool) :
    Except Trouble (Int × Node) := do
  let (ids, t) ← n.store.begin.addTables schemaId keepStage [table]
  let (_, t) := t.newVersion
  let n ← n.commit t
  return (ids.headD 0, n.reload)

def createSchema (n : Node) (name : String) : Except Trouble (Int × Node) := do
  let (id, store) ← n.store.createSchema name
  return (id, { n with store })

/--
Writes a queued job in the place of the one with its id.
-/
def rewriteJob (n : Node) (job : Job) : Except Trouble Node := do
  n.commit (← n.store.begin.updateJob job)

/--
Writes a table in the place of the one with its id, in a new schema version if asked.
-/
def rewriteTable (n : Node) (schemaId : Int) (table : Table) (bump : Bool) :
    Except Trouble Node := do
  let t ← n.store.begin.updateTable schemaId table
  let t := if bump then t.newVersion.2 else t
  return (← n.commit t).reload

/--
Drops a table in a schema version of its own. The view stays as it is until it is loaded again.
-/
def removeTable (n : Node) (schemaId tableId : Int) : Except Trouble Node := do
  let t ← n.store.begin.dropTable schemaId tableId
  n.commit t.newVersion.2

end Node

/--
Puts a job into the queue and calls the worker.
-/
def enqueue (e : Engine) (job : Job) : Except Trouble (Int × Engine) := do
  let (id, t) := e.node.store.begin.enqueue job
  return (id, { e with node := ← e.node.commit t }.notify)

end Steward.Engine
