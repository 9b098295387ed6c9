import Steward.Proofs.Step.Act
import Steward.Step.Tables

/-!
This module contains all that the steps of the jobs can do that create, drop and truncate tables.
-/

namespace Steward.Step

open Catalog (Fault Stage Table)
open Change (Job Trouble)
open Ledger (Txn)

variable {s : Surroundings} {d : Draft} {table : Table} {check : Bool} {newId : Int}

inductive Created (s : Surroundings) (table : Table) (check : Bool) (d : Draft) : Result → Prop where
  | undone (hb : d.job.isRollingBack = true) :
    Created s table check d (d.ended .rollbackDone .absent none)
  | refused (hb : d.job.isRollingBack = false) (hs : d.job.stage = .absent) (f : Fault) :
    Created s table check d (d.refused f)
  | failed (hb : d.job.isRollingBack = false) (hs : d.job.stage = .absent) (e : Trouble)
      (h : (d.txn.schema? d.job.schemaId).isSome ∧
          d.txn.working.catalog.tables.get? d.job.schemaId = none ∨
        d.txn.table? d.job.schemaId d.job.tableId ≠ none) :
    Created s table check d (.error e, d)
  | created (hb : d.job.isRollingBack = false) (hs : d.job.stage = .absent)
      (hschema : (d.txn.schema? d.job.schemaId).isSome)
      (hname : ∀ id t, d.txn.table? d.job.schemaId id = some t → Text.same t.name table.name = false)
      (hcheck : Constraint.checkDeclared s.checksForeignKeys s.view d.job.schemaName table check =
        .ok ())
      (hfree : d.txn.table? d.job.schemaId d.job.tableId = none) :
    Created s table check d
      ({ d with txn := d.txn.added d.job.schemaId (createdTable d.job table) }.completed s
        (createdTable d.job table) .done .live)
  | stuck (hb : d.job.isRollingBack = false) (hs : d.job.stage ≠ .absent) :
    Created s table check d (.error (.ofFault (.invalidState "table" d.job.stage)), d)

theorem table_of_any_eq_false {t : Txn} {schemaId : Int} {tables : List Table} {p : Table → Bool}
    (h : t.tables schemaId = .ok tables) (hp : tables.any p = false) {id : Int} {table : Table}
    (ht : t.table? schemaId id = some table) : p table = false := by
  unfold Txn.tables at h
  split at h
  · next ts hts =>
    cases h
    unfold Txn.table? Ledger.Snapshot.table? at ht
    rw [hts] at ht
    have hmem : table ∈ ts.values :=
      List.mem_map.2 ⟨(id, table), SortedMap.mem_entries_iff.2 ht, rfl⟩
    exact Bool.eq_false_iff.2 (List.any_eq_false.1 hp table hmem)
  · cases h

theorem run_create (fresh : Table) (hschema : (d.txn.schema? d.job.schemaId).isSome)
    (what : String) :
    (do Act.inTxn fun txn => during what (txn.createTable d.job.schemaId fresh)
        Act.complete s fresh .done .live : Act Int).run d =
      if (d.txn.table? d.job.schemaId fresh.id).isSome then
        (.error ((Trouble.ofFault (.tableExists fresh.name)).during what), d)
      else
        { d with txn := d.txn.added d.job.schemaId fresh }.completed s fresh .done .live := by
  cases hfree : d.txn.table? d.job.schemaId fresh.id with
  | some taken =>
    rw [Act.run_bind_of_error (Act.run_inTxn_error
      (e := (Trouble.ofFault (.tableExists fresh.name)).during what) _)]
    · rfl
    · rw [Txn.createTable_eq_error hschema (hfree ▸ rfl)]
      rfl
  | none =>
    rw [Act.run_bind_of_ok (Act.run_inTxn_ok (t := d.txn.added d.job.schemaId fresh) _)]
    · apply Act.run_complete
      refine ⟨hschema, ?_⟩
      dsimp only
      rw [Txn.table?_added, if_pos ⟨rfl, rfl⟩]
      rfl
    · rw [Txn.createTable_eq hschema hfree]
      rfl

theorem createTable_created (ha : d.job.args = .createTable table check) :
    Created s table check d ((createTable s).run d) := by
  unfold createTable
  rw [Act.run_bind_of_ok (Act.run_job d), ha]
  dsimp only
  cases hb : d.job.isRollingBack with
  | true =>
    rw [if_pos rfl]
    exact .undone hb
  | false =>
    rw [if_neg Bool.false_ne_true]
    split
    · next hs =>
      rw [Act.run_bind_of_ok (Act.run_get d)]
      cases hschema : (d.txn.schema? d.job.schemaId).isSome with
      | false =>
        rw [Act.run_bind_of_error (Act.run_ensure_false _ d)]
        exact .refused hb hs _
      | true =>
        rw [Act.run_bind_of_ok (Act.run_ensure_true _ d)]
        cases htables : d.txn.tables d.job.schemaId with
        | error e =>
          rw [Act.run_bind_of_error (Act.run_ofExcept _ d)]
          refine .failed hb hs e (.inl ⟨hschema, ?_⟩)
          unfold Txn.tables at htables
          split at htables
          · cases htables
          · next hnone => exact hnone
        | ok tables =>
          rw [Act.run_bind_of_ok (Act.run_ofExcept _ d)]
          cases hname : tables.any fun t => Text.same t.name table.name with
          | true =>
            rw [Bool.not_true, Act.run_bind_of_error (Act.run_ensure_false _ d)]
            exact .refused hb hs _
          | false =>
            rw [Bool.not_false, Act.run_bind_of_ok (Act.run_ensure_true _ d)]
            cases hcheck : Constraint.checkDeclared s.checksForeignKeys s.view d.job.schemaName table
                check with
            | error f =>
              rw [Act.run_bind_of_error (Act.run_orCancel_error f d)]
              exact .refused hb hs f
            | ok u =>
              rw [Act.run_bind_of_ok (Act.run_orCancel_ok d), run_create _ hschema]
              split
              · next htaken => exact .failed hb hs _ (.inr (Option.isSome_iff_ne_none.1 htaken))
              · next hfree =>
                apply Created.created hb hs hschema
                · intro id t ht
                  exact table_of_any_eq_false htables hname ht
                · exact hcheck
                · exact Option.not_isSome_iff_eq_none.1 hfree
    · next hs => exact .stuck hb hs

def Draft.dropped (d : Draft) (table : Table) : Result :=
  (.ok (d.txn.schemaVersion + 1),
    ⟨(d.txn.cleared d.job.schemaId table.id).newVersion.2,
      d.job.finish .done .absent (d.txn.schemaVersion + 1) (some { table with stage := .absent })⟩)

theorem run_last_ofTable (hd : d.Holds table) :
    (Hiding.ofTable s d.job table check).last.run d = d.dropped table := by
  have hdrop : d.txn.dropTable d.job.schemaId table.id =
      .ok (d.txn.cleared d.job.schemaId table.id) := by
    apply Txn.dropTable_eq hd.schema
    rw [hd.id, hd.table]
    rfl
  unfold Hiding.ofTable
  dsimp only
  rw [Act.run_bind_of_ok (Act.run_inTxn_ok (t := d.txn.cleared d.job.schemaId table.id) _)]
  · rfl
  · rw [hdrop]
    rfl

inductive Dropped (s : Surroundings) (check : Bool) (d : Draft) : Result → Prop where
  | missing (hm : d.txn.table? d.job.schemaId d.job.tableId = none) (f : Fault) :
    Dropped s check d (d.refused f)
  | held (table : Table) (hd : d.Holds table) (r : Result)
      (h : Hidden s table (.ofTable s d.job table check) d r) :
    Dropped s check d r

theorem dropTable_dropped (hk : d.txn.working.Keyed) (ha : d.job.args = .dropTable check) :
    Dropped s check d ((dropTable s).run d) := by
  unfold dropTable
  rw [Act.run_bind_of_ok (Act.run_job d), ha]
  dsimp only
  cases ht : d.txn.table? d.job.schemaId d.job.tableId with
  | none =>
    obtain ⟨f, hf⟩ := Act.run_anyTable_error (.inr ht)
    rw [Act.run_bind_of_error hf]
    exact .missing ht f
  | some table =>
    have hd := Draft.holds_of_table? hk ht
    rw [Act.run_bind_of_ok (Act.run_anyTable hd)]
    exact .held table hd _ (hide_hidden hd fun _ => rfl)

inductive Truncated (s : Surroundings) (newId : Int) (check : Bool) (d : Draft) : Result → Prop where
  | missing (hm : ∀ t, d.txn.table? d.job.schemaId d.job.tableId = some t → t.stage ≠ .live)
      (f : Fault) :
    Truncated s newId check d (d.refused f)
  | undone (hb : d.job.isRollingBack = true) (table : Table) :
    Truncated s newId check d (d.ended .rollbackDone .absent (some table))
  | refused (hb : d.job.isRollingBack = false) (hs : d.job.stage = .absent) (f : Fault) :
    Truncated s newId check d (d.refused f)
  | failed (hb : d.job.isRollingBack = false) (hs : d.job.stage = .absent) (e : Trouble) (t : Txn)
      (h : newId ≠ d.job.tableId ∧ d.txn.table? d.job.schemaId newId ≠ none) :
    Truncated s newId check d (.error e, { d with txn := t })
  | truncated (hb : d.job.isRollingBack = false) (hs : d.job.stage = .absent) (table : Table)
      (hd : d.Holds table) (hl : table.stage = .live)
      (hcheck : Constraint.checkUnreferred s.checksForeignKeys s.view d.job.schemaName table.name
        check = .ok ())
      (hfree : newId ≠ table.id → d.txn.table? d.job.schemaId newId = none) :
    Truncated s newId check d
      ({ d with
        txn := (d.txn.cleared d.job.schemaId table.id).added d.job.schemaId
          { table with id := newId } }.completed s { table with id := newId } .done .live)
  | stuck (hb : d.job.isRollingBack = false) (hs : d.job.stage ≠ .absent) :
    Truncated s newId check d (.error (.ofFault (.invalidState "table" d.job.stage)), d)

theorem truncateTable_truncated (hk : d.txn.working.Keyed)
    (ha : d.job.args = .truncateTable newId check) :
    Truncated s newId check d ((truncateTable s).run d) := by
  unfold truncateTable
  rw [Act.run_bind_of_ok (Act.run_job d), ha]
  dsimp only
  by_cases hp : ∃ t, d.txn.table? d.job.schemaId d.job.tableId = some t ∧ t.stage = .live
  · obtain ⟨table, ht, hl⟩ := hp
    have hd := Draft.holds_of_table? hk ht
    rw [Act.run_bind_of_ok (Act.run_publicTable hd hl)]
    cases hb : d.job.isRollingBack with
    | true =>
      rw [if_pos rfl]
      exact .undone hb table
    | false =>
      rw [if_neg Bool.false_ne_true]
      split
      · next hs =>
        cases hcheck : Constraint.checkUnreferred s.checksForeignKeys s.view d.job.schemaName
            table.name check with
        | error f =>
          rw [Act.run_bind_of_error (Act.run_orCancel_error f d)]
          exact .refused hb hs f
        | ok u =>
          have hdrop : d.txn.dropTable d.job.schemaId table.id =
              .ok (d.txn.cleared d.job.schemaId table.id) := by
            apply Txn.dropTable_eq hd.schema
            rw [hd.id, ht]
            rfl
          have hrun := run_create (s := s) (d := ⟨d.txn.cleared d.job.schemaId table.id, d.job⟩)
            { table with id := newId } hd.schema
            s!"recreate table {table.name}"
          dsimp only at hrun
          rw [Act.run_bind_of_ok (Act.run_orCancel_ok d),
            Act.run_bind_of_ok (Act.run_inTxn_ok hdrop), hrun]
          split
          · next htaken =>
            rw [Txn.table?_cleared] at htaken
            split at htaken
            · cases htaken
            · next hne =>
              rw [hd.id] at hne
              exact .failed hb hs _ _ ⟨fun h => hne ⟨rfl, h⟩, Option.isSome_iff_ne_none.1 htaken⟩
          · next hfree =>
            apply Truncated.truncated hb hs table hd hl hcheck
            intro hne
            rw [Option.not_isSome_iff_eq_none, Txn.table?_cleared, if_neg] at hfree
            · exact hfree
            · intro h
              exact hne h.2
      · next hs => exact .stuck hb hs
  · have hm : ∀ t, d.txn.table? d.job.schemaId d.job.tableId = some t → t.stage ≠ .live := by
      intro t ht hl
      exact hp ⟨t, ht, hl⟩
    obtain ⟨f, hf⟩ := Act.run_publicTable_error (.inr hm)
    rw [Act.run_bind_of_error hf]
    exact .missing hm f

end Steward.Step
