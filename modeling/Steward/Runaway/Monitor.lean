import Steward.Runaway.Manager
import Steward.Runaway.Storage

/-!
This module contains the monitor of a server, which is its manager and what it knows of the watch
tables, and the rounds in which the manager takes over what other servers wrote into these tables.
Of each table the highest id is kept that was read, and only rows above it are read.
-/

namespace Steward.Runaway

/--
How far the watch tables were read.
-/
structure Syncer where
  /-- The tables were seen to exist. -/
  ready : Bool
  /-- The highest id that was read from the watch table. -/
  lastWatch : Int
  /-- The highest id that was read from the done table. -/
  lastDone : Int
deriving DecidableEq, Repr

namespace Syncer

def start : Syncer := ⟨false, 0, 0⟩

end Syncer

structure Report where
  /-- The tables exist. -/
  ready : Bool
  added : Nat
  removed : Nat
deriving DecidableEq, Repr

structure Monitor where
  manager : Manager
  syncer : Syncer

namespace Monitor

def ofSettings (s : Settings) : Monitor := ⟨.ofSettings s, .start⟩

def manage {α : Type} (f : Now → Manager → α × Manager) : Exchange Monitor α :=
  ExceptT.lift <| Sql.Dialogue.update fun now s =>
    let (a, manager) := f now s.manager
    (a, { s with manager })

def getSyncer : Exchange Monitor Syncer :=
  ExceptT.lift <| Sql.Dialogue.update fun _ s => (s.syncer, s)

def updateSyncer (f : Syncer → Syncer) : Exchange Monitor Unit :=
  ExceptT.lift <| Sql.Dialogue.update fun _ s => ((), { s with syncer := f s.syncer })

def tablesExist : List String → Exchange Monitor Bool
  | [] => return true
  | table :: tables => do
    if ← Storage.tableExists table then tablesExist tables else return false

/--
Do the watch tables exist? Once they do, nobody is asked any more.
-/
def tablesReady : Exchange Monitor Bool := do
  if (← getSyncer).ready then return true
  let ready ← tablesExist [Storage.watchTable, Storage.doneTable]
  if ready then updateSyncer fun s => { s with ready := true }
  return ready

/--
The highest of the ids, and of the one before.
-/
def highest (last : Int) (ids : List Int) : Int := ids.foldl max last

/--
The rows of the watch table that were not read yet.
-/
def fetchNew : Exchange Monitor (List Watch) := do
  let after := (← getSyncer).lastWatch
  let ws := (← Storage.watchesAfter after).filter fun w => after < w.id
  updateSyncer fun s => { s with lastWatch := highest s.lastWatch (ws.map (·.id)) }
  return ws

/--
The rows of the done table that were not read yet.
-/
def fetchDone : Exchange Monitor (List Watch) := do
  let after := (← getSyncer).lastDone
  let rows := (← Storage.doneAfter after).filter fun r => after < r.2
  updateSyncer fun s => { s with lastDone := highest s.lastDone (rows.map (·.2)) }
  return rows.map (·.1)

/--
Takes rows of the watch table over, and returns how many changed the watch list.
-/
def addAll (now : Now) (m : Manager) : List Watch → Nat × Manager
  | [] => (0, m)
  | w :: ws =>
    let (outcome, m) := m.addWatch now w
    match outcome with
    | .inserted | .replaced =>
      let m := m.count fun c => { c with watchesSynced := c.watchesSynced + 1 }
      let (added, m) := addAll now m ws
      (added + 1, m)
    | _ => addAll now m ws

/--
Deletes watches whose rows are done, and returns how many were in the watch list.
-/
def removeAll (now : Now) (m : Manager) : List Watch → Nat × Manager
  | [] => (0, m)
  | w :: ws =>
    let (removed, m) := m.removeWatch now w
    let (count, m) := removeAll now m ws
    (if removed then count + 1 else count, m)

/--
One round: the new rows of the watch table first, and then those of the done table.
-/
def sync : Exchange Monitor Report := do
  if !(← tablesReady) then return ⟨false, 0, 0⟩
  let ws ← fetchNew
  let added ← manage fun now m => addAll now m ws
  let done ← fetchDone
  let removed ← manage fun now m => removeAll now m done
  return ⟨true, added, removed⟩

end Monitor

end Steward.Runaway
