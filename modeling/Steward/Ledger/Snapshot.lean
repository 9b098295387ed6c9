import Steward.Change.Job
import Steward.Data.SortedMap

/-!
This module contains snapshots: the whole state of the catalog and of the jobs at one committed
revision. Ids and versions go up without bound; only what is read from a file has to fit in 64 bits.
-/

namespace Steward.Ledger

open Catalog (Schema Table)
open Change (Job)

/--
The part of a snapshot that describes the schemas.
-/
structure Description where
  schemaVersion : Int
  /-- The version of the tables that hold the jobs. -/
  jobTablesVersion : Int
  schemas : IdMap Schema
  /-- The tables by their ids, for the id of each schema. -/
  tables : IdMap (IdMap Table)
deriving DecidableEq

structure Snapshot where
  revision : Nat
  catalog : Description
  /-- The last id that was given out. -/
  lastId : Int
  /-- The queued and running jobs. -/
  jobs : IdMap Job
  /-- The finished jobs. -/
  history : IdMap Job
deriving DecidableEq

namespace Snapshot

/--
The snapshot that every ledger starts from.
-/
def initial : Snapshot := ⟨0, ⟨0, 0, ∅, ∅⟩, 0, ∅, ∅⟩

instance : Inhabited Snapshot := ⟨initial⟩

/--
What is kept of a job, in the queue and in the history.
-/
def record (s : Snapshot) (id : Int) : Option Job × Option Job :=
  (s.jobs.get? id, s.history.get? id)

def table? (s : Snapshot) (schemaId tableId : Int) : Option Table :=
  (s.catalog.tables.get? schemaId).bind fun ts => ts.get? tableId

/--
The job that is next.
-/
def firstJob? (s : Snapshot) : Option Job := s.jobs.first?.map (·.2)

/--
Puts a record of a job in the place of the one that is there.
-/
def putRecord (s : Snapshot) (id : Int) (r : Option Job × Option Job) : Snapshot :=
  let put (m : IdMap Job) : Option Job → IdMap Job
    | some j => m.insert id j
    | none => m.erase id
  { s with jobs := put s.jobs r.1, history := put s.history r.2 }

/--
The jobs whose record differs between the two snapshots. The history only grows, so only its new
entries count.
-/
def changedJobs (old new : Snapshot) : List Int :=
  (old.jobs.keys ++ new.jobs.keys ++
      new.history.keys.filter fun id => !old.history.contains id).filter
    fun id => old.record id != new.record id

/--
The changes between `base` and `ours`, done again on top of `current`.
-/
def replay (base current ours : Snapshot) : Snapshot :=
  { (base.changedJobs ours).foldl (fun s id => s.putRecord id (ours.record id)) current with
    lastId := max current.lastId ours.lastId
    catalog := if base.catalog ≠ ours.catalog then ours.catalog else current.catalog }

/--
The changes between `base` and `ours`, done again on top of `current`. There are none if the two
sides have both changed the catalog, both given out ids, or both changed one job.
-/
def rebase? (base current ours : Snapshot) : Option Snapshot :=
  if base.catalog ≠ ours.catalog ∧ base.catalog ≠ current.catalog then none
  else if ours.lastId ≠ base.lastId ∧ current.lastId ≠ base.lastId then none
  else if (base.changedJobs ours).any fun id => current.record id != base.record id then none
  else some (base.replay current ours)

end Snapshot

end Steward.Ledger
