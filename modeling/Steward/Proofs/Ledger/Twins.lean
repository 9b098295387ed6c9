import Steward.Proofs.Ledger.Edit

/-!
This module contains twins: snapshots with the same schemas and, apart from some places, the same
tables. Transactions that do the same to twins fail alike or leave twins. When a table was last
changed makes no difference.
-/

namespace Steward

open Catalog (Table)
open Change (Job Trouble)

section Tally

variable {α β γ δ : Type} {R : α → β → Prop} {S : γ → δ → Prop} {r : Except Trouble α}
  {r' : Except Trouble β}

inductive Tally (R : α → β → Prop) : Except Trouble α → Except Trouble β → Prop where
  | ok {a : α} {b : β} (h : R a b) : Tally R (.ok a) (.ok b)
  | error (t : Trouble) : Tally R (.error t) (.error t)

theorem Tally.bind {f : α → Except Trouble γ} {g : β → Except Trouble δ} (h : Tally R r r')
    (hf : ∀ a b, R a b → Tally S (f a) (g b)) : Tally S (r >>= f) (r' >>= g) := by
  cases h with
  | ok h => exact hf _ _ h
  | error t => exact .error t

theorem Tally.during (h : Tally R r r') (what : String) :
    Tally R (Steward.during what r) (Steward.during what r') := by
  cases h with
  | ok h => exact .ok h
  | error t => exact .error _

end Tally

namespace Catalog.Table

variable {t t' : Table}

def undated (t : Table) : Table := { t with updated := 0 }

theorem exists_of_undated_eq (h : t'.undated = t.undated) : ∃ updated, t' = { t with updated } :=
  ⟨t'.updated, congrArg (fun u : Table => { u with updated := t'.updated }) h⟩

theorem id_of_undated_eq (h : t'.undated = t.undated) : t'.id = t.id := by
  have hid := congrArg Table.id h
  exact hid

theorem name_of_undated_eq (h : t'.undated = t.undated) : t'.name = t.name := by
  have hname := congrArg Table.name h
  exact hname

end Catalog.Table

namespace Ledger

structure Snapshot.Twins (P : Int → Int → Prop) (s s' : Snapshot) : Prop where
  schemas : s'.catalog.schemas = s.catalog.schemas
  table : ∀ a b, ¬ P a b → (s'.table? a b).map Table.undated = (s.table? a b).map Table.undated

namespace Snapshot.Twins

variable {P : Int → Int → Prop} {s s' : Snapshot} {a b : Int} {t : Table}

theorem symm (h : s.Twins P s') : s'.Twins P s :=
  ⟨h.schemas.symm, fun a b hab => (h.table a b hab).symm⟩

theorem isSome_table? (h : s.Twins P s') (hab : ¬ P a b) :
    (s'.table? a b).isSome = (s.table? a b).isSome := by
  have hmap := congrArg Option.isSome (h.table a b hab)
  rwa [Option.isSome_map, Option.isSome_map] at hmap

theorem table?_eq_none (h : s.Twins P s') (hab : ¬ P a b) (ht : s.table? a b = none) :
    s'.table? a b = none := by
  have hmap := h.table a b hab
  rwa [ht, Option.map_none, Option.map_eq_none_iff] at hmap

theorem exists_table? (h : s.Twins P s') (hab : ¬ P a b) (ht : s.table? a b = some t) :
    ∃ updated, s'.table? a b = some { t with updated } := by
  have hmap := h.table a b hab
  rw [ht, Option.map_some] at hmap
  obtain ⟨t', ht', hundated⟩ := Option.map_eq_some_iff.1 hmap
  obtain ⟨updated, rfl⟩ := Table.exists_of_undated_eq hundated
  exact ⟨updated, ht'⟩

end Snapshot.Twins

namespace Txn

variable {P : Int → Int → Prop} {t t' : Txn} {a b : Int} {table table' : Table}

def Twins (P : Int → Int → Prop) (t t' : Txn) : Prop := t.working.Twins P t'.working

theorem Twins.newVersion (h : t.Twins P t') : t.newVersion.2.Twins P t'.newVersion.2 :=
  ⟨h.schemas, h.table⟩

theorem Twins.added (h : t.Twins P t') (ht : table'.undated = table.undated) (a : Int) :
    (t.added a table).Twins P (t'.added a table') := by
  refine ⟨h.schemas, fun x y hxy => ?_⟩
  have hleft := table?_added t a table x y
  have hright := table?_added t' a table' x y
  rw [Table.id_of_undated_eq ht] at hright
  unfold table? at hleft hright
  rw [hleft, hright]
  split
  · exact congrArg some ht
  · exact h.table x y hxy

theorem Twins.cleared (h : t.Twins P t') (a b : Int) :
    (t.cleared a b).Twins P (t'.cleared a b) := by
  refine ⟨h.schemas, fun x y hxy => ?_⟩
  have hleft := table?_cleared t a b x y
  have hright := table?_cleared t' a b x y
  unfold table? at hleft hright
  rw [hleft, hright]
  split
  · rfl
  · exact h.table x y hxy

theorem Twins.schema? (h : t.Twins P t') (a : Int) : t'.schema? a = t.schema? a := by
  unfold Txn.schema?
  rw [h.schemas]

theorem writableTables_eq_error (hs : t.schema? a = none) :
    t.writableTables a = .error (.ofFault (.databaseNotExists (toString a))) := by
  unfold writableTables
  apply if_neg
  rw [SortedMap.contains_iff]
  exact fun h => h hs

theorem Twins.tally_writableTables {β : Type} {R : β → β → Prop}
    {f g : IdMap Table → Except Trouble β}
    (h : t.Twins P t') (a : Int)
    (hf : ∀ σ, t.schema? a = some σ → Tally R (f (t.tablesOf a)) (g (t'.tablesOf a))) :
    Tally R (t.writableTables a >>= f) (t'.writableTables a >>= g) := by
  cases hs : t.schema? a with
  | none =>
    rw [writableTables_eq_error hs, writableTables_eq_error ((h.schema? a).trans hs)]
    exact .error _
  | some σ =>
    have hschema : (t.schema? a).isSome := by rw [hs]; rfl
    have hschema' : (t'.schema? a).isSome := by rw [h.schema?, hs]; rfl
    rw [writableTables_eq hschema, writableTables_eq hschema']
    exact hf σ hs

theorem Twins.contains_tablesOf (h : t.Twins P t') (hab : ¬ P a b) :
    (t'.tablesOf a).contains b = (t.tablesOf a).contains b := by
  rw [Txn.contains_tablesOf, Txn.contains_tablesOf]
  exact h.isSome_table? hab

theorem Twins.tally_createTable (h : t.Twins P t') (ht : table'.undated = table.undated)
    (ha : ¬ P a table.id) : Tally (Twins P) (t.createTable a table) (t'.createTable a table') := by
  unfold createTable
  refine h.tally_writableTables a fun σ hs => ?_
  have hid := Table.id_of_undated_eq ht
  have hname := Table.name_of_undated_eq ht
  rw [hid, hname, h.contains_tablesOf ha]
  split
  · exact .error _
  · have hadded := h.added ht a
    unfold Txn.added at hadded
    rw [hid] at hadded
    exact .ok hadded

theorem Twins.tally_updateTable (h : t.Twins P t') (ht : table'.undated = table.undated)
    (ha : ¬ P a table.id) : Tally (Twins P) (t.updateTable a table) (t'.updateTable a table') := by
  unfold updateTable
  refine h.tally_writableTables a fun σ hs => ?_
  have hid := Table.id_of_undated_eq ht
  rw [hid, h.contains_tablesOf ha]
  split
  · have hadded := h.added ht a
    unfold Txn.added at hadded
    rw [hid] at hadded
    exact .ok hadded
  · exact .error _

theorem Twins.tally_dropTable (h : t.Twins P t') (hab : ¬ P a b) :
    Tally (Twins P) (t.dropTable a b) (t'.dropTable a b) := by
  unfold dropTable
  refine h.tally_writableTables a fun σ hs => ?_
  rw [h.contains_tablesOf hab]
  split
  · exact .ok (h.cleared a b)
  · exact .error _

theorem Twins.tally_writeTable {job job' : Job} (h : t.Twins P t')
    (ht : table'.undated = table.undated) (hp : ¬ P job.schemaId table.id) (hid : job'.id = job.id)
    (hschema : job'.schemaId = job.schemaId) (stamp stamp' : Nat) :
    Tally (fun x x' => x.2.2.Twins P x'.2.2) (t.writeTable job table stamp true)
      (t'.writeTable job' table' stamp' true) := by
  have hundated : ({ table' with updated := stamp' } : Table).undated =
      ({ table with updated := stamp } : Table).undated := ht
  obtain ⟨updated, rfl⟩ := Table.exists_of_undated_eq ht
  unfold writeTable
  rw [hid, hschema]
  refine ((h.newVersion.tally_updateTable hundated hp).during _).bind ?_
  intro u u' hu
  exact .ok hu

end Txn

end Ledger

end Steward
