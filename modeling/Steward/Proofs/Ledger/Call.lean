import Steward.Data.SortedMap.Lemmas
import Steward.Ledger.Store

/-!
This module contains the calls that a transaction may make on its working copy, and all that a call
can do to it.
-/

namespace Steward.Ledger

open Catalog (Schema Table)
open Change (Job Trouble)

inductive Call where
  | createSchema (schema : Schema)
  | createTable (schemaId : Int) (table : Table)
  | updateTable (schemaId : Int) (table : Table)
  | dropTable (schemaId tableId : Int)
  | newId
  | newVersion
  | setJobTablesVersion (version : Int)
  | enqueue (job : Job)
  | updateJob (job : Job)
  | finishJob (job : Job)

inductive Reply where
  | id (n : Int)
  | version (n : Int)
  | done
  | failed (t : Trouble)

namespace Reply

def id? : Reply → Option Int
  | id n => some n
  | _ => none

def version? : Reply → Option Int
  | version n => some n
  | _ => none

def isPlain : Reply → Bool
  | done | failed _ => true
  | _ => false

theorem id?_of_isPlain {r : Reply} (h : r.isPlain) : r.id? = none := by
  cases r <;> simp_all [isPlain, id?]

theorem version?_of_isPlain {r : Reply} (h : r.isPlain) : r.version? = none := by
  cases r <;> simp_all [isPlain, version?]

end Reply

namespace Txn

/--
The transaction after something that may fail and then leaves it as it is.
-/
def orKeep (t : Txn) : Except Trouble Txn → Reply × Txn
  | .ok t => (.done, t)
  | .error e => (.failed e, t)

def perform (t : Txn) : Call → Reply × Txn
  | .createSchema schema => t.orKeep (t.createSchema schema)
  | .createTable schemaId table =>
    (t.makePlace schemaId).orKeep (t.createTable schemaId table)
  | .updateTable schemaId table =>
    (t.makePlace schemaId).orKeep (t.updateTable schemaId table)
  | .dropTable schemaId tableId =>
    (t.makePlace schemaId).orKeep (t.dropTable schemaId tableId)
  | .newId => (.id t.newId.1, t.newId.2)
  | .newVersion => (.version t.newVersion.1, t.newVersion.2)
  | .setJobTablesVersion version => (.done, t.setJobTablesVersion version)
  | .enqueue job => (.id (t.enqueue job).1, (t.enqueue job).2)
  | .updateJob job => t.orKeep (t.updateJob job)
  | .finishJob job => t.orKeep (t.finishJob job)

def performAll (t : Txn) (calls : List Call) : Txn := calls.foldl (fun t c => (t.perform c).2) t

inductive Performed (t : Txn) : Reply → Txn → Prop where
  | described (r : Reply) (hr : r.isPlain) (catalog : Description)
      (hv : catalog.schemaVersion = t.schemaVersion) : Performed t r (t.withCatalog catalog)
  | versioned : Performed t (.version (t.schemaVersion + 1)) t.newVersion.2
  | numbered : Performed t (.id (t.working.lastId + 1)) t.newId.2
  | enqueued (job : Job) : Performed t (.id (t.working.lastId + 1)) (t.enqueue job).2
  | updated (job : Job) (h : t.working.jobs.contains job.id) :
      Performed t .done
        { t with working := { t.working with jobs := t.working.jobs.insert job.id job } }
  | finished (job : Job) (h : t.working.jobs.contains job.id) :
      Performed t .done
        { t with
          working := { t.working with
            jobs := t.working.jobs.erase job.id
            history := t.working.history.insert job.id job } }

namespace Performed

variable {t : Txn}

theorem kept (r : Reply) (hr : r.isPlain) : Performed t r t := described r hr t.working.catalog rfl

theorem makePlace (r : Reply) (hr : r.isPlain) (schemaId : Int) :
    Performed t r (t.makePlace schemaId) := by
  unfold Txn.makePlace
  split
  · exact described r hr _ rfl
  · exact kept r hr

theorem withTables (r : Reply) (hr : r.isPlain) (schemaId : Int) (tables : IdMap Table) :
    Performed t r (t.withTables schemaId tables) := described r hr _ rfl

end Performed

theorem createSchema_cases {t t' : Txn} {s : Schema} (h : t.createSchema s = .ok t') :
    t.working.catalog.schemas.contains s.id = false ∧
      t' = t.withCatalog { t.working.catalog with
        schemas := t.working.catalog.schemas.insert s.id s
        tables :=
          if t.working.catalog.tables.contains s.id then t.working.catalog.tables
          else t.working.catalog.tables.insert s.id ∅ } := by
  unfold createSchema at h
  split at h
  · cases h
  · next hc =>
    cases h
    exact ⟨by simpa using hc, rfl⟩

theorem createTable_cases {t t' : Txn} {schemaId : Int} {table : Table}
    (h : t.createTable schemaId table = .ok t') :
    ∃ tables, t.writableTables schemaId = .ok tables ∧ tables.contains table.id = false ∧
      t' = t.withTables schemaId (tables.insert table.id table) := by
  obtain ⟨tables, hw, h⟩ := bind_eq_ok.1 h
  split at h
  · cases h
  · next hc =>
    cases h
    exact ⟨tables, hw, by simpa using hc, rfl⟩

theorem updateTable_cases {t t' : Txn} {schemaId : Int} {table : Table}
    (h : t.updateTable schemaId table = .ok t') :
    ∃ tables, t.writableTables schemaId = .ok tables ∧ tables.contains table.id ∧
      t' = t.withTables schemaId (tables.insert table.id table) := by
  obtain ⟨tables, hw, h⟩ := bind_eq_ok.1 h
  split at h
  · next hc =>
    cases h
    exact ⟨tables, hw, hc, rfl⟩
  · cases h

theorem dropTable_cases {t t' : Txn} {schemaId tableId : Int}
    (h : t.dropTable schemaId tableId = .ok t') :
    ∃ tables, t.writableTables schemaId = .ok tables ∧ tables.contains tableId ∧
      t' = t.withTables schemaId (tables.erase tableId) := by
  obtain ⟨tables, hw, h⟩ := bind_eq_ok.1 h
  split at h
  · next hc =>
    cases h
    exact ⟨tables, hw, hc, rfl⟩
  · cases h

theorem orKeep_performed {t keep : Txn} {e : Except Trouble Txn}
    (hkeep : ∀ r : Reply, r.isPlain → Performed t r keep)
    (hok : ∀ t', e = .ok t' → Performed t .done t') :
    Performed t (keep.orKeep e).1 (keep.orKeep e).2 := by
  cases e with
  | ok t' => exact hok t' rfl
  | error x => exact hkeep _ rfl

theorem perform_performed (t : Txn) (c : Call) :
    Performed t (t.perform c).1 (t.perform c).2 := by
  cases c with
  | createSchema s =>
    apply orKeep_performed fun r hr => .kept r hr
    intro t' h
    obtain ⟨_, rfl⟩ := createSchema_cases h
    exact .described _ rfl _ rfl
  | createTable schemaId table =>
    apply orKeep_performed fun r hr => .makePlace r hr schemaId
    intro t' h
    obtain ⟨tables, _, _, rfl⟩ := createTable_cases h
    exact .withTables _ rfl schemaId _
  | updateTable schemaId table =>
    apply orKeep_performed fun r hr => .makePlace r hr schemaId
    intro t' h
    obtain ⟨tables, _, _, rfl⟩ := updateTable_cases h
    exact .withTables _ rfl schemaId _
  | dropTable schemaId tableId =>
    apply orKeep_performed fun r hr => .makePlace r hr schemaId
    intro t' h
    obtain ⟨tables, _, _, rfl⟩ := dropTable_cases h
    exact .withTables _ rfl schemaId _
  | newId => exact .numbered
  | newVersion => exact .versioned
  | setJobTablesVersion version => exact .described _ rfl _ rfl
  | enqueue job => exact .enqueued job
  | updateJob job =>
    apply orKeep_performed fun r hr => .kept r hr
    intro t' h
    unfold updateJob at h
    split at h
    · next hc =>
      cases h
      exact .updated job hc
    · cases h
  | finishJob job =>
    apply orKeep_performed fun r hr => .kept r hr
    intro t' h
    unfold finishJob at h
    split at h
    · next hc =>
      cases h
      exact .finished job hc
    · cases h

end Txn

end Steward.Ledger
