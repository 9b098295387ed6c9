import Steward.Proofs.Step.Act
import Steward.Step.ForeignKeys

/-!
This module contains all that the steps of the jobs can do that add and drop foreign keys.
-/

namespace Steward.Step

open Catalog (Fault ForeignKey Stage Table)
open Change (Job Trouble)

variable {s : Surroundings} {d : Draft} {table : Table} {name : String} {fk : ForeignKey}
  {check : Bool}

theorem run_removeForeignKey (hd : d.Holds table) :
    (removeForeignKey s table name).run d =
      match table.foreignKeyPosition? name with
      | some pos =>
        d.completed s { table with foreignKeys := table.foreignKeys.eraseIdx pos }
          (if d.job.isRollingBack then .rollbackDone else .done) .absent
      | none =>
        if d.job.isRollingBack then d.ended .rollbackDone .absent (some table)
        else d.refused (.cantDropFieldOrKey name) := by
  unfold removeForeignKey
  rw [Act.run_bind_of_ok (Act.run_job d)]
  cases table.foreignKeyPosition? name with
  | some pos =>
    apply Act.run_complete
    exact hd.canWrite rfl
  | none =>
    dsimp only
    split <;> rfl

inductive Unbound (s : Surroundings) (name : String) (d : Draft) : Result → Prop where
  | missing (hm : ∀ t, d.txn.table? d.job.schemaId d.job.tableId = some t → t.stage ≠ .live)
      (f : Fault) :
    Unbound s name d (d.refused f)
  | undone (hb : d.job.isRollingBack = true) (table : Table) :
    Unbound s name d (d.ended .rollbackDone .live (some table))
  | unknown (hb : d.job.isRollingBack = false) (hs : d.job.stage = .live) (f : Fault) :
    Unbound s name d (d.refused f)
  | unbound (hb : d.job.isRollingBack = false) (hs : d.job.stage = .live) (table : Table)
      (hd : d.Holds table) (hl : table.stage = .live) (pos : Nat)
      (hpos : table.foreignKeyPosition? name = some pos) :
    Unbound s name d
      (d.completed s { table with foreignKeys := table.foreignKeys.eraseIdx pos } .done .absent)
  | stuck (hb : d.job.isRollingBack = false) (hs : d.job.stage ≠ .live) :
    Unbound s name d (.error (.ofFault (.invalidState "foreign key" d.job.stage)), d)

theorem dropForeignKey_unbound (hk : d.txn.working.Keyed) (ha : d.job.args = .dropForeignKey name) :
    Unbound s name d ((dropForeignKey s).run d) := by
  unfold dropForeignKey
  rw [Act.run_bind_of_ok (Act.run_job d), ha]
  dsimp only
  by_cases hp : ∃ t, d.txn.table? d.job.schemaId d.job.tableId = some t ∧ t.stage = .live
  · obtain ⟨table, ht, hl⟩ := hp
    have hd := Draft.holds_of_table? hk ht
    rw [Act.run_bind_of_ok (Act.run_publicTable hd hl)]
    cases hb : d.job.isRollingBack with
    | true =>
      rw [if_pos rfl]
      exact .undone hb table
    | false =>
      rw [if_neg Bool.false_ne_true]
      split
      · next hs =>
        rw [run_removeForeignKey hd, hb]
        cases hpos : table.foreignKeyPosition? name with
        | some pos => exact .unbound hb hs table hd hl pos hpos
        | none => exact .unknown hb hs _
      · next hs => exact .stuck hb hs
  · have hm : ∀ t, d.txn.table? d.job.schemaId d.job.tableId = some t → t.stage ≠ .live := by
      intro t ht hl
      exact hp ⟨t, ht, hl⟩
    obtain ⟨f, hf⟩ := Act.run_publicTable_error (.inr hm)
    rw [Act.run_bind_of_error hf]
    exact .missing hm f

/--
A constraint that a table has in a stage, at its position.
-/
structure StagedAt (table : Table) (name : String) (stage : Stage) (pos : Nat) : Prop where
  position : table.foreignKeyPosition? name = some pos
  stage : (table.foreignKeys[pos]?.map (·.stage)) = some stage

theorem run_stagedPosition (table : Table) (name : String) (expected : Stage) (d : Draft) :
    (∃ pos, StagedAt table name expected pos ∧
      (stagedPosition table name expected).run d = (.ok pos, d)) ∨
    (∀ pos, ¬ StagedAt table name expected pos) ∧
      ∃ f, (stagedPosition table name expected).run d = (.error (.ofFault f), d) := by
  unfold stagedPosition
  split
  · next hnone =>
    refine .inr ⟨fun pos h => ?_, _, rfl⟩
    cases hnone.symm.trans h.position
  · next pos hpos =>
    have hat {pos' : Nat} (h : StagedAt table name expected pos') :
        (table.foreignKeys[pos]?.map (·.stage)) = some expected := by
      cases hpos.symm.trans h.position
      exact h.stage
    split
    · next hnone =>
      refine .inr ⟨fun pos' h => ?_, _, rfl⟩
      have hs := hat h
      rw [hnone] at hs
      cases hs
    · next fk hfk =>
      split
      · next hs =>
        refine .inl ⟨pos, ⟨hpos, ?_⟩, rfl⟩
        rw [hfk, ← hs]
        rfl
      · next hs =>
        refine .inr ⟨fun pos' h => ?_, _, rfl⟩
        have hs' := hat h
        rw [hfk] at hs'
        exact hs (Option.some.inj hs')

def stagedKey (table : Table) (fk : ForeignKey) : ForeignKey :=
  { fk with id := table.maxForeignKeyId + 1, stage := .writeOnly }

def withStagedKey (table : Table) (fk : ForeignKey) : Table :=
  { table with
    maxForeignKeyId := table.maxForeignKeyId + 1
    foreignKeys := table.foreignKeys ++ [stagedKey table fk] }

theorem map_setForeignKeyStage {α : Type} (g : ForeignKey → α)
    (hg : ∀ fk stage, g { fk with stage } = g fk) (t : Table) (pos : Nat) (stage : Stage) :
    (setForeignKeyStage t pos stage).foreignKeys.map g = t.foreignKeys.map g := by
  apply List.ext_getElem?
  intro i
  unfold setForeignKeyStage
  rw [List.getElem?_map, List.getElem?_map, List.getElem?_modify]
  cases t.foreignKeys[i]? with
  | none => rfl
  | some fk =>
    dsimp only [Functor.map, Option.map_some]
    split
    · rw [hg]
    · rfl

def Draft.learn (d : Draft) (table : Table) (fk : ForeignKey) (check : Bool) : Draft :=
  { d with job := { d.job with args := .addForeignKey (stagedKey table fk) check } }

inductive Bound (P : Surroundings → Prop) (fk : ForeignKey) (check : Bool) (d : Draft) :
    Result → Prop where
  | missing (hm : ∀ t, d.txn.table? d.job.schemaId d.job.tableId = some t → t.stage ≠ .live)
      (f : Fault) :
    Bound P fk check d (d.refused f)
  | undone (hb : d.job.isRollingBack = true) (s : Surroundings) (table : Table)
      (hd : d.Holds table) (hl : table.stage = .live) (pos : Nat)
      (hpos : table.foreignKeyPosition? fk.name = some pos) :
    Bound P fk check d
      (d.completed s { table with foreignKeys := table.foreignKeys.eraseIdx pos } .rollbackDone
        .absent)
  | unneeded (hb : d.job.isRollingBack = true) (table : Table) (hd : d.Holds table)
      (hpos : table.foreignKeyPosition? fk.name = none) :
    Bound P fk check d (d.ended .rollbackDone .absent (some table))
  | refused (hb : d.job.isRollingBack = false) (hs : d.job.stage = .absent) (f : Fault) :
    Bound P fk check d (d.refused f)
  | resumed (hb : d.job.isRollingBack = false) (hs : d.job.stage = .absent) (table : Table)
      (hd : d.Holds table) (old : ForeignKey) (ho : stagedAlready? table fk = some old) :
    Bound P fk check d
      (.ok d.txn.schemaVersion, { d with job := { d.job with stage := old.stage } })
  | staged (hb : d.job.isRollingBack = false) (hs : d.job.stage = .absent) (s : Surroundings)
      (hp : P s) (table : Table) (hd : d.Holds table) (hl : table.stage = .live)
      (hcheck : Constraint.checkAdded s.checksForeignKeys s.view d.job.schemaName table fk check =
        .ok ()) :
    Bound P fk check d
      ((d.learn table fk check).advanced s (withStagedKey table fk) .writeOnly)
  | confirmed (hb : d.job.isRollingBack = false) (hs : d.job.stage = .writeOnly)
      (s : Surroundings) (table : Table) (hd : d.Holds table) (hl : table.stage = .live) (pos : Nat)
      (hpos : StagedAt table fk.name .writeOnly pos) :
    Bound P fk check d (d.advanced s (setForeignKeyStage table pos .writeReorg) .writeReorg)
  | turned (hb : d.job.isRollingBack = false) (hs : d.job.stage = .writeOnly) (e : Trouble) :
    Bound P fk check d (.error e, { d with job := { d.job with status := .rollingBack } })
  | bound (hb : d.job.isRollingBack = false) (hs : d.job.stage = .writeReorg) (s : Surroundings)
      (table : Table) (hd : d.Holds table) (hl : table.stage = .live) (pos : Nat)
      (hpos : StagedAt table fk.name .writeReorg pos) :
    Bound P fk check d (d.completed s (setForeignKeyStage table pos .live) .done .live)
  | failed (hb : d.job.isRollingBack = false) (e : Trouble)
      (h : e.isTransient = true ∨ d.job.stage ≠ .absent ∧
        (d.job.stage ∈ [.writeOnly, .writeReorg] →
          ∀ t pos, d.txn.table? d.job.schemaId d.job.tableId = some t →
            ¬ StagedAt t fk.name d.job.stage pos)) :
    Bound P fk check d (.error e, d)

section AddForeignKey

variable {P : Surroundings → Prop}

theorem stageForeignKey_bound (hb : d.job.isRollingBack = false) (hs : d.job.stage = .absent)
    (hp : P s) (hd : d.Holds table) (hl : table.stage = .live) :
    Bound P fk check d ((stageForeignKey s table fk check).run d) := by
  unfold stageForeignKey
  rw [Act.run_bind_of_ok (Act.run_job d)]
  cases ho : stagedAlready? table fk with
  | some old => exact .resumed hb hs table hd old ho
  | none =>
    dsimp only
    cases hcheck : Constraint.checkAdded s.checksForeignKeys s.view d.job.schemaName table fk
        check with
    | error f =>
      rw [Act.run_bind_of_error (Act.run_orCancel_error f d)]
      exact .refused hb hs f
    | ok u =>
      have hold := hd.canWrite (t := withStagedKey table fk) rfl
      have hcan : (d.learn table fk check).CanWrite (withStagedKey table fk) :=
        ⟨hold.schema, hold.table⟩
      have hrun := Act.run_advance (s := s) hcan .writeOnly
      rw [Act.run_bind_of_ok (Act.run_orCancel_ok d)]
      exact hrun ▸ .staged hb hs s hp table hd hl hcheck

def BeginsAddition (P : Surroundings → Prop) (fk : ForeignKey) (check : Bool) (d : Draft) :
    Except Trouble (Int ⊕ Staged) × Draft → Prop
  | (.error e, d') => Bound P fk check d (.error e, d')
  | (.ok (.inl version), d') => Bound P fk check d (.ok version, d')
  | (.ok (.inr staged), d') =>
    d' = d ∧ d.job.isRollingBack = false ∧ d.job.stage = .writeOnly ∧ d.Holds staged.table ∧
      staged.table.stage = .live ∧ StagedAt staged.table fk.name .writeOnly staged.pos

theorem beginsAddition_inl {a : Act Int} (h : Bound P fk check d (a.run d)) :
    BeginsAddition P fk check d ((do return .inl (← a) : Act (Int ⊕ Staged)).run d) := by
  rw [Act.run_bind]
  split
  · next v d' ha =>
    rw [ha] at h
    exact h
  · next e d' ha =>
    rw [ha] at h
    exact h

theorem beginAddition_begins (hk : d.txn.working.Keyed) (ha : d.job.args = .addForeignKey fk check)
    (hp : P s) : BeginsAddition P fk check d ((beginAddition s).run d) := by
  unfold beginAddition
  rw [Act.run_bind_of_ok (Act.run_job d), ha]
  dsimp only
  by_cases hpub : ∃ t, d.txn.table? d.job.schemaId d.job.tableId = some t ∧ t.stage = .live
  · obtain ⟨table, ht, hl⟩ := hpub
    have hd := Draft.holds_of_table? hk ht
    rw [Act.run_bind_of_ok (Act.run_publicTable hd hl)]
    cases hb : d.job.isRollingBack with
    | true =>
      rw [if_pos rfl]
      apply beginsAddition_inl
      rw [run_removeForeignKey hd, hb]
      cases hpos : table.foreignKeyPosition? fk.name with
      | some pos => exact .undone hb s table hd hl pos hpos
      | none => exact .unneeded hb table hd hpos
    | false =>
      rw [if_neg Bool.false_ne_true]
      split
      · next hs => exact beginsAddition_inl (stageForeignKey_bound hb hs hp hd hl)
      · next hs =>
        cases run_stagedPosition table fk.name .writeOnly d with
        | inl hfound =>
          obtain ⟨pos, hpos, hrun⟩ := hfound
          rw [Act.run_bind_of_ok hrun]
          exact ⟨rfl, hb, hs, hd, hl, hpos⟩
        | inr hlost =>
          obtain ⟨hnone, f, hrun⟩ := hlost
          rw [Act.run_bind_of_error hrun]
          rw [← hs] at hnone
          refine .failed hb _ (.inr ⟨hs ▸ nofun, fun _ t pos ht' => ?_⟩)
          cases ht.symm.trans ht'
          exact hnone pos
      · next hs =>
        cases run_stagedPosition table fk.name .writeReorg d with
        | inl hfound =>
          obtain ⟨pos, hpos, hrun⟩ := hfound
          rw [Act.run_bind_of_ok hrun]
          apply beginsAddition_inl
          rw [Act.run_complete (hd.canWrite (t := setForeignKeyStage table pos .live) rfl)]
          exact .bound hb hs s table hd hl pos hpos
        | inr hlost =>
          obtain ⟨hnone, f, hrun⟩ := hlost
          rw [Act.run_bind_of_error hrun]
          rw [← hs] at hnone
          refine .failed hb _ (.inr ⟨hs ▸ nofun, fun _ t pos ht' => ?_⟩)
          cases ht.symm.trans ht'
          exact hnone pos
      · next hab hwo hwr =>
        refine .failed hb _ (.inr ⟨hab, fun hmem => ?_⟩)
        cases List.mem_cons.1 hmem with
        | inl hs => exact absurd hs hwo
        | inr hmem => exact absurd (List.mem_singleton.1 hmem) hwr
  · have hm : ∀ t, d.txn.table? d.job.schemaId d.job.tableId = some t → t.stage ≠ .live := by
      intro t ht hl
      exact hpub ⟨t, ht, hl⟩
    obtain ⟨f, hf⟩ := Act.run_publicTable_error (.inr hm)
    rw [Act.run_bind_of_error hf]
    exact .missing hm f

theorem endRowCheck_bound {staged : Staged} {verdict : Except Trouble Unit}
    (hb : d.job.isRollingBack = false) (hs : d.job.stage = .writeOnly) (hd : d.Holds staged.table)
    (hl : staged.table.stage = .live) (hpos : StagedAt staged.table fk.name .writeOnly staged.pos) :
    Bound P fk check d ((endRowCheck s staged verdict).run d) := by
  unfold endRowCheck
  cases verdict with
  | ok u =>
    have hcan := hd.canWrite (t := setForeignKeyStage staged.table staged.pos .writeReorg) rfl
    rw [Act.run_advance hcan]
    exact .confirmed hb hs s staged.table hd hl staged.pos hpos
  | error e =>
    dsimp only
    cases ht : e.isTransient with
    | true => exact .failed hb e (.inl ht)
    | false => exact .turned hb hs e

theorem addForeignKey_bound (hk : d.txn.working.Keyed) (ha : d.job.args = .addForeignKey fk check)
    (hp : P s) {r : Result} (h : (addForeignKey s d).Ends P r) : Bound P fk check d r := by
  have hbegin := beginAddition_begins (s := s) hk ha hp
  unfold addForeignKey at h
  split at h
  · next e d' hrun =>
    rw [hrun] at hbegin
    rw [Work.ends_done h]
    exact hbegin
  · next v d' hrun =>
    rw [hrun] at hbegin
    rw [Work.ends_done h]
    exact hbegin
  · next staged d' hrun =>
    rw [hrun] at hbegin
    obtain ⟨rfl, hb, hs, hd, hl, hpos⟩ := hbegin
    obtain ⟨checked, _, rfl⟩ := Work.ends_map h
    exact endRowCheck_bound hb hs hd hl hpos

end AddForeignKey

end Steward.Step
