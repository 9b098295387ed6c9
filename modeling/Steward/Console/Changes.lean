import Steward.Console.Transactions
import Steward.Console.Values
import Steward.Console.Views
import Steward.Engine.Foreground
import Steward.Engine.Statement
import Steward.Engine.Upkeep

/-!
This module contains the commands to a node that works on schema changes: upkeep, transactions
under names, steps by hand, and statements.
-/

namespace Steward.Console

open Catalog (Fault ForeignKey Stage Table)
open Change (Args Job Kind Status Trouble)
open Engine (Node Statement)
open Ledger (File Snapshot Store Txn)
open Step (Plan Registry)

structure Session where
  engine : Engine
  /-- The handlers of the steps that are taken by hand. -/
  handlers : Registry
  /-- The transactions that are open, by their names. -/
  txns : List (String × Txn)

def plan (j : Json) : Ask Plan := do
  let _ ← members j
  let fault ← maybeDecode j "ddl_error" Fault.ofJson?
  let text ← maybeStr j "message"
  return {
    status := ← maybeDecode j "state" Status.ofJson?
    stage := ← maybeDecode j "schema_state" Stage.ofJson?
    trouble := fault.map .ofFault <|> text.map .ofText }

/--
The handlers after a command that puts a plan in the place of one of them.
-/
def register (r : Registry) (j : Json) : Ask Registry := do
  return r.put (← decode j "job_type" Kind.ofJson?) (← plan (← need j "handler")).handler

def unregister (r : Registry) (j : Json) : Ask Registry := do
  let kind ← decode j "job_type" Kind.ofJson?
  return r.put kind (Registry.standard kind)

namespace Session

def node : Command Session Node := return (← get).engine.node

def snapshot : Command Session Snapshot := return (← node).store.snapshot

def setEngine (engine : Engine) : Command Session Unit := modify fun s => { s with engine }

def setNode (node : Node) : Command Session Unit :=
  modify fun s => { s with engine := { s.engine with node } }

/--
Puts something else in the place of the file, if there is one.
-/
def changeFile (f : File → File) : Command Session Json := do
  let n ← node
  let file ← ask (orMalformed n.store.file)
  setNode { n with store := { n.store with file := some (f file) } }
  return .null

/--
Does something that the node may fail at.
-/
def attempt (n : Except Trouble Node) : Command Session Unit := do
  setNode (← ask (orTrouble n))

def revision : Command Session Json := return .nat (← snapshot).revision

/--
The id of the schema that a command names.
-/
def schemaId (j : Json) : Command Session Int := do
  ask (orMalformed (schemaIdNamed (← snapshot) (← ask (strOr j "schema" "test"))))

def table (j : Json) (schemaId : Int) : Command Session Table := do
  ask (orMalformed (tableNamed (← snapshot) schemaId (← ask (needStr j "table"))))

def setTxns (txns : List (String × Txn)) : Command Session Json := do
  modify fun s => { s with txns }
  return .null

/--
A command on a transaction under a name.
-/
def onTxn (j : Json) : Command Session Json := do
  let name ← ask (strOr j "txn" "t")
  let txns := (← get).txns
  let others := txns.filter (·.1 != name)
  if (← ask (needStr j "call")) = "begin" then
    return ← setTxns ((name, (← node).store.begin) :: others)
  let t ← ask (orMalformed (txns.lookup name))
  match ← ask (needStr j "call") with
  | "commit" => do
    let _ ← setTxns others
    attempt ((← node).commit t)
    revision
  | "drop" => setTxns others
  | _ => do
    let (a, t) := txnCommand (← node).now.wall.stamp j t
    let _ ← setTxns ((name, t) :: others)
    ask a

/--
Puts a job into the queue. Its table is named or given by its id.
-/
def enqueue (j : Json) : Command Session Json := do
  let schemaId ← match ← ask (maybeInt j "schema_id") with
    | some id => pure id
    | none => schemaId j
  let tableId ← match ← ask (maybeInt j "table_id") with
    | some id => pure id
    | none => do pure (← table j schemaId).id
  let args ← ask (decode j "args" Args.ofJson?)
  let job := Job.ofArgs schemaId tableId (← ask (strOr j "schema" "test"))
    (← ask (strOr j "table" "?")) args
  let (id, engine) ← ask (orTrouble ((← get).engine.enqueue (← ask (overwritten j job))))
  setEngine engine
  return .int id

/--
The commands that are over at once.
-/
def atOnce (j : Json) : Command Session Json := do
  let n ← node
  if let some result := poolCommand n.pool j then
    let (a, pool) ← ask result
    setNode { n with pool }
    return a
  match ← ask (needStr j "do") with
  | "create_schema" => do
    let (id, n) ← ask (orTrouble (n.createSchema (← ask (needStr j "name"))))
    setNode n
    return .int id
  | "install" => do
    let schemaId ← schemaId j
    let table ← ask (decode j "table" Table.ofJson?)
    let (id, n) ← ask (orTrouble (n.install schemaId table (← ask (boolOr j "keep_state" false))))
    setNode n
    return .int id
  | "enqueue" => enqueue j
  | "patch_job" => do
    let job ← ask (orMalformed (jobNumbered n.store.snapshot (← ask (needInt j "id"))))
    attempt (n.rewriteJob (← ask (overwritten j job)))
    revision
  | "patch_table" => do
    let schemaId ← schemaId j
    let id := (← table j schemaId).id
    let table ← ask (orMalformed (tableFiled n.store.snapshot schemaId id))
    let table ← ask do orUndecodable (table.overwrite? (← members (← need j "set")))
    attempt (n.rewriteTable schemaId table (← ask (boolOr j "bump" true)))
    return .int (← node).view.schemaVersion
  | "remove_table" => do
    let schemaId ← schemaId j
    attempt (n.removeTable schemaId (← table j schemaId).id)
    revision
  | "txn" => onTxn j
  | "set_owner" => do
    setEngine ((← get).engine.setOwner (← ask (needBool j "v")))
    return .null
  | "set_fk" => do
    let checksForeignKeys ← ask (needBool j "v")
    setNode { n with settings := { n.settings with checksForeignKeys } }
    return .null
  | "register" => do
    let handlers ← ask (register (← get).handlers j)
    modify fun s => { s with handlers }
    return .null
  | "unregister" => do
    let handlers ← ask (unregister (← get).handlers j)
    modify fun s => { s with handlers }
    return .null
  | "reload" => do
    setNode n.reload
    return .int n.reload.view.schemaVersion
  | "is" => ask (viewCommand n.view j)
  | "check" => ask (checkCommand n.settings.checksForeignKeys n.view j)
  | "snapshot" => return n.store.snapshot.toJson
  | "brief" => return brief n.store.snapshot
  | "job" => return jobRecord n.store.snapshot (← ask (needInt j "id"))
  | "table" => do
    let schemaId ← schemaId j
    let id := (← table j schemaId).id
    return Json.ofOption Table.toJson (tableFiled n.store.snapshot schemaId id)
  | "file" =>
    match n.store.file with
    | none => throw .malformed
    | some (.text contents) => return .str contents
    | some _ => return .str ""
  | "reopen" =>
    match n.store.file with
    | none => throw .malformed
    | some file =>
      match Store.load file with
      | .error t => throw (.failed "Open" t.text)
      | .ok store => do
        setNode { n with store := { n.store with file := store.file } }
        return store.snapshot.toJson
  | "block_file" => changeFile fun _ => .directory
  | "unblock_file" => changeFile fun file => if file = .directory then .missing else file
  | "wall" => do
    setNode { n with epoch := n.epoch + (← ask (needInt j "ms")) }
    return .null
  | _ => throw .malformed

/--
What a step did to the job that was first in the queue.
-/
def stepReport (s : Snapshot) (first : Option Int) (ran : Except Trouble Bool) : Json :=
  answer do
    return .obj [
      ("ran", .bool (← orTrouble ran)), ("revision", .nat s.revision),
      ("schema_version", .int s.catalog.schemaVersion), ("job", Json.ofOption (jobRecord s) first)]

/--
What a step did to the job with this id, in short. The job may be gone.
-/
def stepLine (s : Snapshot) (id : Int) : Json :=
  let (queued, ended) := s.record id
  let job := queued <|> ended
  .arr [Json.ofOption (fun job => .str job.display) job,
    Json.ofOption Fault.toJson (job.bind (·.error)),
    .int s.catalog.schemaVersion, .nat s.revision]

/--
The id of the job that is first in the queue.
-/
def first : Command Session (Option Int) := return (← snapshot).firstJob?.map (·.id)

def takeStep : Command Session (Except Trouble Bool) := fun s =>
  let (ran, engine) := s.engine.takeStep s.handlers
  (.ok ran, { s with engine })

def step : Command Session Json := do
  let first ← first
  let ran ← takeStep
  return stepReport (← snapshot) first ran

def steps : Nat → Command Session (List Json)
  | 0 => return []
  | n + 1 => return (← step) :: (← steps n)

/--
Steps until the queue is empty or a step fails.
-/
def stepsToEnd : Nat → Command Session (List Json)
  | 0 => return []
  | n + 1 => do
    match ← first with
    | none => return []
    | some id =>
      let _ ← ask (orTrouble (← takeStep))
      return stepLine (← snapshot) id :: (← stepsToEnd n)

/--
A step, and commands that are given while it is in flight.
-/
def stepDuring (j : Json) : Command Session Json := do
  let time := (← node).clock + (← ask (needNat j "at_ms"))
  let commands ← ask (needList j "ops")
  let first ← first
  let s ← get
  let (standing, engine) := s.engine.beginStep s.handlers
  let (standing, engine) := engine.follow Engine.manyAnswers (some time) standing
  let early := stepReport engine.node.store.snapshot first standing.ran
  setEngine (Crew.passUntil time engine)
  let during ← ExceptT.lift (answers atOnce commands)
  let report ← match standing with
    | .flying _ => do
      let (standing, engine) := (← get).engine.followToEnd standing
      setEngine engine
      pure (stepReport engine.node.store.snapshot first standing.ran)
    | _ => pure early
  return .obj [("step", report), ("during", .arr during), ("t", .nat (← node).clock)]

def statement (j : Json) : Ask Statement := do
  let schema ← strOr j "schema" "test"
  let check ← boolOr j "fk_check" true
  let table := needStr j "table"
  match ← needStr j "fn" with
  | "create_table" => return .createTable schema (← decode j "def" Table.ofJson?) check
  | "add_foreign_key" =>
    return .addForeignKey schema (← table) (← decode j "fk" ForeignKey.ofJson?) check
  | "drop_foreign_key" => return .dropForeignKey schema (← table) (← needStr j "name")
  | "drop_table" => return .dropTable schema (← table) check
  | "truncate_table" => return .truncateTable schema (← table) check
  | "drop_index" => return .dropIndex schema (← table) (← needStr j "name")
  | "drop_column" => return .dropColumn schema (← table) (← needStr j "name")
  | _ => .error .malformed

/--
The engine, if it has a worker.
-/
def running : Command Session Engine := do
  let e := (← get).engine
  if e.worker.isSome then return e else throw .malformed

/--
A statement, and how many milliseconds its end is waited for.
-/
def request (j : Json) : Ask (Statement × Option Nat) := do
  return (← statement j, ← maybeNat j "timeout_ms")

def outcome (result : Except Trouble (Option Job)) : Json :=
  answer ((orTrouble result).map fun
    | some job => job.toJson
    | none => .str "timeout")

/--
Submits a statement and waits for its end.
-/
def alone (j : Json) : Command Session Json := do
  let e ← running
  let (st, patience) ← ask (request j)
  let deadline := patience.map (e.node.clock + ·)
  let (id, e) ← ask (orTrouble (e.submit st))
  let (job, e) := e.awaitJob id deadline
  setEngine e
  return outcome (job.elim (.ok none) fun job => (Engine.verdict job).map some)

/--
The answers to statements that were asked for, each in its place. `results` are those of the
statements that could be read.
-/
def outcomes : List (Ask (Statement × Option Nat)) → List (Except Trouble (Option Job)) → List Json
  | .error r :: as, results => r.toJson :: outcomes as results
  | .ok _ :: as, result :: results => outcome result :: outcomes as results
  | _, _ => []

/--
Lets callers submit statements side by side, and waits for all of them.
-/
def together (js : List Json) : Command Session Json := do
  let e ← running
  if js.isEmpty then return .arr []
  let asked := js.map request
  let (results, e) := e.callTogether (asked.filterMap Except.toOption)
  setEngine e
  return .arr (outcomes asked results)

def command (j : Json) : Command Session Json := do
  match (j.member? "do").bind Json.str? with
  | some "step" => step
  | some "steps" => return .arr (← steps (← ask (needNat j "n")))
  | some "run" => return .arr (← stepsToEnd (← ask (natOr j "max" 30)))
  | some "step_during" => stepDuring j
  | some "stmt" => alone j
  | some "parallel" => together (← ask (needList j "stmts"))
  | some "wait_job" => do
    let e := (← get).engine
    let deadline := e.node.clock + (← ask (needNat j "timeout_ms"))
    let (job, e) := e.awaitJob (← ask (needInt j "id")) (some deadline)
    setEngine e
    match job with
    | some job => return .arr [.str job.display, .nat e.node.clock]
    | none => return .str "timeout"
  | some "sleep" => do
    let ms ← ask (needNat j "ms")
    let e := (← get).engine
    setEngine (Crew.passUntil (e.node.clock + ms) e)
    return .nat (← node).clock
  | some "shutdown" => do
    setEngine (← running).shutdown
    return .null
  | _ => atOnce j

end Session

end Steward.Console
