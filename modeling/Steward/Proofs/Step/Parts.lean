import Steward.Proofs.Step.Act
import Steward.Step.Parts

/-!
This module contains all that the steps of the jobs can do that drop an index or a column.
-/

namespace Steward.Step

open Catalog (Fault Stage Table)
open Change (Job)

variable {s : Surroundings} {d : Draft} {name : String} {target? : Table → Option Hiding}

/--
What comes of a step by which a part of a public table disappears, if the table has this part.
-/
inductive Withdrawn (s : Surroundings) (target? : Table → Option Hiding) (d : Draft) :
    Result → Prop where
  | missing (hm : ∀ t, d.txn.table? d.job.schemaId d.job.tableId = some t → t.stage = .live →
      target? t = none) (f : Fault) :
    Withdrawn s target? d (d.refused f)
  | held (table : Table) (hd : d.Holds table) (hl : table.stage = .live) (h : Hiding)
      (ht : target? table = some h) (r : Result) (hr : Hidden s table h d r) :
    Withdrawn s target? d r

theorem run_publicTable_withdrawn {f : Fault} {k : Table → Act Int} (hk : d.txn.working.Keyed)
    (hid : ∀ t h, target? t = some h → ∀ st, (h.withStage st).id = t.id)
    (hsome : ∀ t h, target? t = some h → k t = hide s t h)
    (hnone : ∀ t, target? t = none → k t = Act.cancel f) :
    Withdrawn s target? d ((Act.publicTable >>= k).run d) := by
  by_cases hp : ∃ t, d.txn.table? d.job.schemaId d.job.tableId = some t ∧ t.stage = .live
  · obtain ⟨table, ht, hl⟩ := hp
    have hd := Draft.holds_of_table? hk ht
    rw [Act.run_bind_of_ok (Act.run_publicTable hd hl)]
    cases hh : target? table with
    | some h =>
      rw [hsome table h hh]
      exact .held table hd hl h hh _ (hide_hidden hd (hid table h hh))
    | none =>
      rw [hnone table hh]
      apply Withdrawn.missing
      intro t ht' _
      rw [ht] at ht'
      cases ht'
      exact hh
  · have hm : ∀ t, d.txn.table? d.job.schemaId d.job.tableId = some t → t.stage ≠ .live := by
      intro t ht hl
      exact hp ⟨t, ht, hl⟩
    obtain ⟨f', hf⟩ := Act.run_publicTable_error (.inr hm)
    rw [Act.run_bind_of_error hf]
    apply Withdrawn.missing
    intro t ht hl
    exact absurd hl (hm t ht)

def indexTarget? (s : Surroundings) (job : Job) (name : String) (t : Table) : Option Hiding :=
  (t.indexPosition? name).map (.ofIndex s job t name)

def columnTarget? (s : Surroundings) (job : Job) (name : String) (t : Table) : Option Hiding :=
  (t.columnPosition? name).map (.ofColumn s job t name)

theorem dropIndex_withdrawn (hk : d.txn.working.Keyed) (ha : d.job.args = .dropIndex name) :
    Withdrawn s (indexTarget? s d.job name) d ((dropIndex s).run d) := by
  unfold dropIndex
  rw [Act.run_bind_of_ok (Act.run_job d), ha]
  dsimp only
  apply run_publicTable_withdrawn hk
  case hid =>
    intro t h hh st
    obtain ⟨pos, _, rfl⟩ := Option.map_eq_some_iff.1 hh
    rfl
  case hsome =>
    intro t h hh
    obtain ⟨pos, hpos, rfl⟩ := Option.map_eq_some_iff.1 hh
    rw [hpos]
  case hnone =>
    intro t hh
    rw [Option.map_eq_none_iff.1 hh]

theorem dropColumn_withdrawn (hk : d.txn.working.Keyed) (ha : d.job.args = .dropColumn name) :
    Withdrawn s (columnTarget? s d.job name) d ((dropColumn s).run d) := by
  unfold dropColumn
  rw [Act.run_bind_of_ok (Act.run_job d), ha]
  dsimp only
  apply run_publicTable_withdrawn hk
  case hid =>
    intro t h hh st
    obtain ⟨pos, _, rfl⟩ := Option.map_eq_some_iff.1 hh
    rfl
  case hsome =>
    intro t h hh
    obtain ⟨pos, hpos, rfl⟩ := Option.map_eq_some_iff.1 hh
    rw [hpos]
  case hnone =>
    intro t hh
    rw [Option.map_eq_none_iff.1 hh]

theorem run_last_ofIndex {table : Table} (hd : d.Holds table) (pos : Nat) :
    (Hiding.ofIndex s d.job table name pos).last.run d =
      d.completed s { table with indices := table.indices.eraseIdx pos } .done .absent := by
  apply Act.run_complete
  exact hd.canWrite rfl

theorem run_last_ofColumn {table : Table} (hd : d.Holds table) (pos : Nat) :
    (Hiding.ofColumn s d.job table name pos).last.run d =
      d.completed s (table.dropColumn pos) .done .absent := by
  apply Act.run_complete
  apply hd.canWrite
  unfold Table.dropColumn
  split <;> rfl

end Steward.Step
