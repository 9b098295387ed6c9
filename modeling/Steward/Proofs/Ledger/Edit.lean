import Steward.Data.SortedMap.Lemmas
import Steward.Ledger.Txn

/-!
This module contains the edits that schema changes make: a transaction puts a table into its place
or takes one away, in a new schema version or not. `Edits` says what an edit leaves alone, and
`table?_added` and `table?_cleared` say which table is where after it.
-/

namespace Steward.Ledger

open Catalog (Schema Table)
open Change (Job Trouble)

namespace Snapshot

/--
Every table stands under its own id and belongs to a schema.
-/
structure Keyed (s : Snapshot) : Prop where
  id : ∀ a b t, s.table? a b = some t → t.id = b
  schema : ∀ a b t, s.table? a b = some t → (s.catalog.schemas.get? a).isSome

def Housed (s : Snapshot) : Prop :=
  ∀ k, (s.catalog.schemas.get? k).isSome → (s.catalog.tables.get? k).isSome

end Snapshot

namespace Description

def put (c : Description) (schemaId : Int) (table : Table) : Description :=
  { c with
    tables := c.tables.insert schemaId
      (((c.tables.get? schemaId).getD ∅).insert table.id table) }

/--
The two differ in nothing but the tables that stand in their places and in the schema version.
-/
structure Alike (c c' : Description) : Prop where
  jobTablesVersion : c'.jobTablesVersion = c.jobTablesVersion
  schemas : c'.schemas = c.schemas
  places : ∀ x, (c'.tables.get? x).isSome = (c.tables.get? x).isSome

theorem Alike.refl (c : Description) : c.Alike c := ⟨rfl, rfl, fun _ => rfl⟩

theorem Alike.trans {c c' c'' : Description} (h : c.Alike c') (h' : c'.Alike c'') :
    c.Alike c'' where
  jobTablesVersion := h'.jobTablesVersion.trans h.jobTablesVersion
  schemas := h'.schemas.trans h.schemas
  places x := (h'.places x).trans (h.places x)

end Description

theorem Snapshot.isSome_place {s : Snapshot} {a b : Int} (h : (s.table? a b).isSome) :
    (s.catalog.tables.get? a).isSome := by
  unfold Snapshot.table? at h
  cases hp : s.catalog.tables.get? a with
  | none =>
    rw [hp] at h
    exact h
  | some ts => rfl

theorem Description.Alike.eq_put {s s' : Snapshot} {x : Int} {table : Table}
    (h : s.catalog.Alike s'.catalog) (ht : (s.table? x table.id).isSome)
    (htable : ∀ a b, s'.table? a b =
      if a = x ∧ b = table.id then some table else s.table? a b) :
    s'.catalog =
      { s.catalog.put x table with schemaVersion := s'.catalog.schemaVersion } := by
  have htables : s'.catalog.tables = (s.catalog.put x table).tables := by
    apply SortedMap.ext_get?
    intro a
    unfold Description.put
    dsimp only
    rw [SortedMap.get?_insert]
    have hplace := h.places a
    cases hs' : s'.catalog.tables.get? a with
    | none =>
      rw [hs'] at hplace
      rw [if_neg]
      · exact (Option.isNone_iff_eq_none.1 (by simpa using hplace)).symm
      · rintro rfl
        rw [Snapshot.isSome_place ht] at hplace
        cases hplace
    | some ts' =>
      rw [hs'] at hplace
      obtain ⟨ts, hs⟩ := Option.isSome_iff_exists.1 hplace.symm
      have hrow (b : Int) : ts'.get? b = if a = x ∧ b = table.id then some table else ts.get? b := by
        have hab := htable a b
        unfold Snapshot.table? at hab
        rw [hs', hs] at hab
        exact hab
      by_cases hax : a = x
      · rw [if_pos hax, ← hax, hs]
        apply congrArg some
        apply SortedMap.ext_get?
        intro b
        rw [hrow, Option.getD_some, SortedMap.get?_insert]
        simp [hax]
      · rw [if_neg hax, hs]
        apply congrArg some
        apply SortedMap.ext_get?
        intro b
        rw [hrow, if_neg fun hab => hax hab.1]
  calc s'.catalog
    _ = ⟨s'.catalog.schemaVersion, s'.catalog.jobTablesVersion, s'.catalog.schemas,
        s'.catalog.tables⟩ := rfl
    _ = _ := by
      rw [h.jobTablesVersion, h.schemas, htables]
      rfl

namespace Txn

def tablesOf (t : Txn) (schemaId : Int) : IdMap Table :=
  (t.working.catalog.tables.get? schemaId).getD ∅

def added (t : Txn) (schemaId : Int) (table : Table) : Txn :=
  t.withTables schemaId ((t.tablesOf schemaId).insert table.id table)

def cleared (t : Txn) (schemaId tableId : Int) : Txn :=
  t.withTables schemaId ((t.tablesOf schemaId).erase tableId)

/--
The transaction with a table in its place, in a new schema version.
-/
def written (t : Txn) (schemaId : Int) (table : Table) : Txn :=
  t.newVersion.2.added schemaId table

variable {t t' t'' : Txn} {schemaId tableId : Int} {table : Table}

theorem get?_tablesOf (t : Txn) (schemaId tableId : Int) :
    (t.tablesOf schemaId).get? tableId = t.table? schemaId tableId := by
  unfold tablesOf table? Snapshot.table?
  cases t.working.catalog.tables.get? schemaId <;> rfl

theorem contains_tablesOf : (t.tablesOf schemaId).contains tableId =
    (t.table? schemaId tableId).isSome := by
  unfold SortedMap.contains
  rw [get?_tablesOf]

theorem table?_withTables (t : Txn) (schemaId : Int) (tables : IdMap Table) (a b : Int) :
    (t.withTables schemaId tables).table? a b =
      if a = schemaId then tables.get? b else t.table? a b := by
  unfold withTables withCatalog table? Snapshot.table?
  dsimp only
  rw [SortedMap.get?_insert]
  split <;> rfl

theorem table?_added (t : Txn) (schemaId : Int) (table : Table) (a b : Int) :
    (t.added schemaId table).table? a b =
      if a = schemaId ∧ b = table.id then some table else t.table? a b := by
  unfold added
  rw [table?_withTables, SortedMap.get?_insert, get?_tablesOf]
  by_cases ha : a = schemaId
  · rw [if_pos ha, ha]
    by_cases hb : b = table.id <;> simp [hb]
  · rw [if_neg ha, if_neg]
    intro h
    exact ha h.1

theorem table?_cleared (t : Txn) (schemaId tableId a b : Int) :
    (t.cleared schemaId tableId).table? a b =
      if a = schemaId ∧ b = tableId then none else t.table? a b := by
  unfold cleared
  rw [table?_withTables, SortedMap.get?_erase, get?_tablesOf]
  by_cases ha : a = schemaId
  · rw [if_pos ha, ha]
    by_cases hb : b = tableId <;> simp [hb]
  · rw [if_neg ha, if_neg]
    intro h
    exact ha h.1

theorem table?_written (t : Txn) (schemaId : Int) (table : Table) (a b : Int) :
    (t.written schemaId table).table? a b =
      if a = schemaId ∧ b = table.id then some table else t.table? a b :=
  table?_added t.newVersion.2 schemaId table a b

/--
An edit touches nothing but tables, which stay under their ids, and the schema version, which does
not go back. The places of the tables stay as well.
-/
structure Edits (t t' : Txn) : Prop where
  base : t'.base = t.base
  lastId : t'.working.lastId = t.working.lastId
  jobs : t'.working.jobs = t.working.jobs
  history : t'.working.history = t.working.history
  schemas : t'.working.catalog.schemas = t.working.catalog.schemas
  schemaVersion : t.schemaVersion ≤ t'.schemaVersion
  keyed : t.working.Keyed → t'.working.Keyed
  places : ∀ k, (t.working.catalog.tables.get? k).isSome →
    (t'.working.catalog.tables.get? k).isSome

theorem Edits.refl (t : Txn) : t.Edits t :=
  ⟨rfl, rfl, rfl, rfl, rfl, Int.le_refl _, id, fun _ => id⟩

theorem Edits.trans (h : t.Edits t') (h' : t'.Edits t'') : t.Edits t'' where
  base := h'.base.trans h.base
  lastId := h'.lastId.trans h.lastId
  jobs := h'.jobs.trans h.jobs
  history := h'.history.trans h.history
  schemas := h'.schemas.trans h.schemas
  schemaVersion := Int.le_trans h.schemaVersion h'.schemaVersion
  keyed hk := h'.keyed (h.keyed hk)
  places k hk := h'.places k (h.places k hk)

theorem Edits.housed (h : t.Edits t') (hs : t.working.Housed) : t'.working.Housed := by
  intro k hk
  rw [h.schemas] at hk
  exact h.places k (hs k hk)

theorem isSome_withTables (t : Txn) (schemaId : Int) (tables : IdMap Table) {k : Int}
    (hk : (t.working.catalog.tables.get? k).isSome) :
    ((t.withTables schemaId tables).working.catalog.tables.get? k).isSome := by
  unfold withTables withCatalog
  dsimp only
  rw [SortedMap.get?_insert]
  split
  · rfl
  · exact hk

theorem edits_newVersion (t : Txn) : t.Edits t.newVersion.2 :=
  ⟨rfl, rfl, rfl, rfl, rfl, Int.le_of_lt (Int.lt_succ _), fun h => ⟨h.id, h.schema⟩, fun _ => id⟩

theorem edits_added (t : Txn) (hs : (t.schema? schemaId).isSome) (table : Table) :
    t.Edits (t.added schemaId table) := by
  refine ⟨rfl, rfl, rfl, rfl, rfl, Int.le_refl _, ?_, fun _ => isSome_withTables _ _ _⟩
  intro h
  constructor
  · intro a b x hx
    have hx := (table?_added t schemaId table a b).symm.trans hx
    split at hx
    · next hab =>
      cases hx
      exact hab.2.symm
    · exact h.id a b x hx
  · intro a b x hx
    have hx := (table?_added t schemaId table a b).symm.trans hx
    split at hx
    · next hab =>
      rw [hab.1]
      exact hs
    · exact h.schema a b x hx

theorem edits_cleared (t : Txn) (schemaId tableId : Int) : t.Edits (t.cleared schemaId tableId) := by
  refine ⟨rfl, rfl, rfl, rfl, rfl, Int.le_refl _, ?_, fun _ => isSome_withTables _ _ _⟩
  have hkept {a b : Int} {x : Table} (hx : (t.cleared schemaId tableId).table? a b = some x) :
      t.table? a b = some x := by
    rw [table?_cleared] at hx
    split at hx
    · cases hx
    · exact hx
  intro h
  exact ⟨fun a b x hx => h.id a b x (hkept hx), fun a b x hx => h.schema a b x (hkept hx)⟩

theorem edits_written (t : Txn) (hs : (t.schema? schemaId).isSome) (table : Table) :
    t.Edits (t.written schemaId table) := by
  apply (edits_newVersion t).trans
  exact edits_added t.newVersion.2 hs table

theorem alike_written (hs : (t.table? schemaId table.id).isSome) :
    t.working.catalog.Alike (t.written schemaId table).working.catalog := by
  refine ⟨rfl, rfl, ?_⟩
  intro a
  unfold written added withTables withCatalog
  dsimp only
  rw [SortedMap.get?_insert]
  split
  · next ha =>
    rw [ha]
    exact (Snapshot.isSome_place hs).symm
  · rfl

theorem Edits.record (h : t.Edits t') (id : Int) : t'.working.record id = t.working.record id := by
  unfold Snapshot.record
  rw [h.jobs, h.history]

theorem writableTables_eq (hs : (t.schema? schemaId).isSome) :
    t.writableTables schemaId = .ok (t.tablesOf schemaId) := by
  unfold writableTables
  exact if_pos hs

theorem updateTable_eq (hs : (t.schema? schemaId).isSome)
    (ht : (t.table? schemaId table.id).isSome) :
    t.updateTable schemaId table = .ok (t.added schemaId table) := by
  unfold updateTable
  rw [writableTables_eq hs]
  exact if_pos (contains_tablesOf.trans ht)

theorem createTable_eq (hs : (t.schema? schemaId).isSome)
    (ht : t.table? schemaId table.id = none) :
    t.createTable schemaId table = .ok (t.added schemaId table) := by
  unfold createTable
  rw [writableTables_eq hs]
  apply if_neg
  rw [contains_tablesOf, ht]
  simp

theorem createTable_eq_error (hs : (t.schema? schemaId).isSome)
    (ht : (t.table? schemaId table.id).isSome) :
    t.createTable schemaId table = .error (.ofFault (.tableExists table.name)) := by
  unfold createTable
  rw [writableTables_eq hs]
  exact if_pos (contains_tablesOf.trans ht)

theorem dropTable_eq (hs : (t.schema? schemaId).isSome)
    (ht : (t.table? schemaId tableId).isSome) :
    t.dropTable schemaId tableId = .ok (t.cleared schemaId tableId) := by
  unfold dropTable
  rw [writableTables_eq hs]
  exact if_pos (contains_tablesOf.trans ht)

theorem writeTable_eq {job : Job} (stamp : Nat) (hs : (t.schema? job.schemaId).isSome)
    (ht : (t.table? job.schemaId table.id).isSome) :
    t.writeTable job table stamp true =
      .ok (t.schemaVersion + 1, { table with updated := stamp },
        t.written job.schemaId { table with updated := stamp }) := by
  unfold writeTable
  have hu : t.newVersion.2.updateTable job.schemaId { table with updated := stamp } =
      .ok (t.written job.schemaId { table with updated := stamp }) := updateTable_eq hs ht
  simp only [if_true]
  rw [hu]
  rfl

end Txn

end Steward.Ledger
