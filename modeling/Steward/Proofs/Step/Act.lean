import Steward.Proofs.Ledger.Edit
import Steward.Step.Act

/-!
This module contains the laws of actions: what each of them leaves of a draft, and with which
result. A draft that holds the table of its job can always be written.
-/

namespace Steward.Step

open Catalog (Fault ForeignKey Stage Table)
open Change (Args Job Status Trouble)
open Ledger (Txn)

namespace Draft

def cancelled (d : Draft) : Draft := { d with job := { d.job with status := .cancelled } }

structure Holds (d : Draft) (table : Table) : Prop where
  id : table.id = d.job.tableId
  schema : (d.txn.schema? d.job.schemaId).isSome
  table : d.txn.table? d.job.schemaId d.job.tableId = some table

theorem holds_of_table? {d : Draft} {t : Table} (hk : d.txn.working.Keyed)
    (h : d.txn.table? d.job.schemaId d.job.tableId = some t) : d.Holds t :=
  ⟨hk.id _ _ _ h, hk.schema _ _ _ h, h⟩

structure CanWrite (d : Draft) (table : Table) : Prop where
  schema : (d.txn.schema? d.job.schemaId).isSome
  table : (d.txn.table? d.job.schemaId table.id).isSome

theorem Holds.canWrite {d : Draft} {table t : Table} (h : d.Holds table) (hid : t.id = table.id) :
    d.CanWrite t := by
  refine ⟨h.schema, ?_⟩
  rw [hid, h.id, h.table]
  rfl

/--
The draft after the table was written, in a new schema version.
-/
def write (d : Draft) (s : Surroundings) (table : Table) : Draft :=
  { d with txn := d.txn.written d.job.schemaId { table with updated := s.stamp } }

def advanced (d : Draft) (s : Surroundings) (table : Table) (stage : Stage) : Result :=
  (.ok (d.txn.schemaVersion + 1), { d.write s table with job := { d.job with stage } })

def completed (d : Draft) (s : Surroundings) (table : Table) (status : Status) (stage : Stage) :
    Result :=
  (.ok (d.txn.schemaVersion + 1),
    { d.write s table with
      job := d.job.finish status stage (d.txn.schemaVersion + 1)
        (some { table with updated := s.stamp }) })

/--
The result of a step that ends the job and writes nothing.
-/
def ended (d : Draft) (status : Status) (stage : Stage) (table : Option Table) : Result :=
  (.ok d.txn.schemaVersion,
    { d with job := d.job.finish status stage d.txn.schemaVersion table })

/--
The result of a step that cancels the job because of a fault.
-/
def refused (d : Draft) (f : Fault) : Result := (.error (.ofFault f), d.cancelled)

end Draft

namespace Act

variable {α β : Type} {a : Act α} {f : α → Act β} {d d' : Draft} {x : α} {y : β} {e : Trouble}

theorem run_bind (a : Act α) (f : α → Act β) (d : Draft) :
    (a >>= f).run d =
      match a.run d with
      | (.ok x, d') => (f x).run d'
      | (.error e, d') => (.error e, d') := by
  cases h : a.run d with
  | mk r mid =>
    simp only [ExceptT.run] at h
    cases r with
    | ok x =>
      simp [bind, ExceptT.bind, ExceptT.mk, ExceptT.run, StateT.bind, ExceptT.bindCont, h]
    | error e =>
      simp [bind, ExceptT.bind, ExceptT.mk, ExceptT.run, StateT.bind, ExceptT.bindCont, h]
      rfl

theorem run_bind_of_ok (h : a.run d = (.ok x, d')) (f : α → Act β) :
    (a >>= f).run d = (f x).run d' := by
  rw [run_bind, h]

theorem run_bind_of_error (h : a.run d = (.error e, d')) (f : α → Act β) :
    (a >>= f).run d = (.error e, d') := by
  rw [run_bind, h]

@[simp]
theorem run_get (d : Draft) : (get : Act Draft).run d = (.ok d, d) := rfl

@[simp]
theorem run_job (d : Draft) : job.run d = (.ok d.job, d) := rfl

@[simp]
theorem run_ofExcept (r : Except Trouble α) (d : Draft) : (ofExcept r).run d = (r, d) := rfl

theorem run_ensure_true (f : Fault) (d : Draft) : (ensure true f).run d = (.ok (), d) := rfl

theorem run_ensure_false (f : Fault) (d : Draft) :
    (ensure false f).run d = (.error (.ofFault f), d.cancelled) := rfl

@[simp]
theorem run_orCancel_ok (d : Draft) : (orCancel (.ok ())).run d = (.ok (), d) := rfl

@[simp]
theorem run_orCancel_error (f : Fault) (d : Draft) :
    (orCancel (.error f)).run d = (.error (.ofFault f), d.cancelled) := rfl

theorem run_inTxn_ok {g : Txn → Except Trouble Txn} {t : Txn} (h : g d.txn = .ok t) :
    (inTxn g).run d = (.ok (), { d with txn := t }) := by
  simp only [inTxn, ExceptT.run, h]

theorem run_inTxn_error {g : Txn → Except Trouble Txn} (h : g d.txn = .error e) :
    (inTxn g).run d = (.error e, d) := by
  simp only [inTxn, ExceptT.run, h]

section Holds

variable {s : Surroundings} {table t : Table}

theorem loadTable_eq (h : d.Holds table) : d.txn.loadTable d.job = (.ok table, d.job) := by
  have hs : (d.txn.schema? d.job.schemaId).isNone = false := by
    rw [Option.isNone_eq_false_iff]
    exact h.schema
  unfold Txn.loadTable
  rw [hs, h.table]
  rfl

theorem loadTable_eq_error
    (h : d.txn.schema? d.job.schemaId = none ∨ d.txn.table? d.job.schemaId d.job.tableId = none) :
    ∃ f, d.txn.loadTable d.job = (.error (.ofFault f), d.cancelled.job) := by
  unfold Txn.loadTable
  dsimp only
  split
  · exact ⟨_, rfl⟩
  · next hs =>
    cases h with
    | inl hn =>
      rw [hn] at hs
      exact absurd rfl hs
    | inr hn =>
      rw [hn]
      exact ⟨_, rfl⟩

theorem run_anyTable (h : d.Holds table) : anyTable.run d = (.ok table, d) := by
  change ((d.txn.loadTable d.job).1, { d with job := (d.txn.loadTable d.job).2 }) = _
  rw [loadTable_eq h]

theorem run_anyTable_error
    (h : d.txn.schema? d.job.schemaId = none ∨ d.txn.table? d.job.schemaId d.job.tableId = none) :
    ∃ f, anyTable.run d = (.error (.ofFault f), d.cancelled) := by
  obtain ⟨f, hf⟩ := loadTable_eq_error h
  refine ⟨f, ?_⟩
  change ((d.txn.loadTable d.job).1, { d with job := (d.txn.loadTable d.job).2 }) = _
  rw [hf]
  rfl

theorem run_publicTable (h : d.Holds table) (hl : table.stage = .live) :
    publicTable.run d = (.ok table, d) := by
  change ((d.txn.loadPublicTable d.job).1, { d with job := (d.txn.loadPublicTable d.job).2 }) = _
  unfold Txn.loadPublicTable
  rw [loadTable_eq h]
  dsimp only
  rw [if_pos hl]

theorem run_publicTable_error
    (h : d.txn.schema? d.job.schemaId = none ∨
      ∀ t, d.txn.table? d.job.schemaId d.job.tableId = some t → t.stage ≠ .live) :
    ∃ f, publicTable.run d = (.error (.ofFault f), d.cancelled) := by
  change ∃ f,
    ((d.txn.loadPublicTable d.job).1, { d with job := (d.txn.loadPublicTable d.job).2 }) = _
  unfold Txn.loadPublicTable
  cases hs : d.txn.schema? d.job.schemaId with
  | none =>
    obtain ⟨f, hf⟩ := loadTable_eq_error (.inl hs)
    rw [hf]
    exact ⟨f, rfl⟩
  | some σ =>
    cases ht : d.txn.table? d.job.schemaId d.job.tableId with
    | none =>
      obtain ⟨f, hf⟩ := loadTable_eq_error (.inr ht)
      rw [hf]
      exact ⟨f, rfl⟩
    | some t =>
      have hl : t.stage ≠ .live := by
        cases h with
        | inl hn =>
          rw [hn] at hs
          cases hs
        | inr hn => exact hn t ht
      have hload : d.txn.loadTable d.job = (.ok t, d.job) := by
        unfold Txn.loadTable
        rw [hs, ht]
        rfl
      rw [hload]
      dsimp only
      rw [if_neg hl]
      exact ⟨_, rfl⟩

theorem run_write (h : d.CanWrite t) :
    (write s t).run d = (.ok (d.txn.schemaVersion + 1, { t with updated := s.stamp }), d.write s t) := by
  simp only [write, ExceptT.run, Txn.writeTable_eq s.stamp h.schema h.table]
  rfl

theorem run_advance (h : d.CanWrite t) (st : Stage) :
    (advance s t st).run d = d.advanced s t st := by
  unfold advance
  rw [run_bind_of_ok (run_write h)]
  rfl

theorem run_complete (h : d.CanWrite t) (σ : Status) (st : Stage) :
    (complete s t σ st).run d = d.completed s t σ st := by
  unfold complete
  rw [run_bind_of_ok (run_write h)]
  rfl

end Holds

end Act

end Steward.Step

/-!
### Hiding

All that a step can do by which a table or a part of one disappears.
-/

namespace Steward.Step

open Catalog (Fault Stage Table)
open Change (Job)

inductive Hidden (s : Surroundings) (table : Table) (h : Hiding) (d : Draft) : Result → Prop where
  | kept (hb : d.job.isRollingBack = true) (hl : h.isLive = true) :
    Hidden s table h d (d.ended .rollbackDone .live (some table))
  | shown (hb : d.job.isRollingBack = true) (hl : h.isLive = false) :
    Hidden s table h d (d.completed s (h.withStage .live) .rollbackDone .live)
  | refused (hb : d.job.isRollingBack = false) (hs : d.job.stage = .live) (f : Fault)
      (hc : h.check = .error f) :
    Hidden s table h d (d.refused f)
  | hidden (hb : d.job.isRollingBack = false) (hs : d.job.stage = .live) (hc : h.check = .ok ()) :
    Hidden s table h d (d.advanced s (h.withStage .writeOnly) .writeOnly)
  | closed (hb : d.job.isRollingBack = false) (hs : d.job.stage = .writeOnly) :
    Hidden s table h d (d.advanced s (h.withStage .deleteOnly) .deleteOnly)
  | gone (hb : d.job.isRollingBack = false) (hs : d.job.stage = .deleteOnly) :
    Hidden s table h d (h.last.run d)
  | stuck (hb : d.job.isRollingBack = false) (hs : d.job.stage = .absent ∨ d.job.stage = .writeReorg) :
    Hidden s table h d (.error (.ofFault (.invalidState h.what d.job.stage)), d)

theorem hide_hidden {s : Surroundings} {table : Table} {h : Hiding} {d : Draft}
    (hd : d.Holds table) (hid : ∀ st, (h.withStage st).id = table.id) :
    Hidden s table h d ((hide s table h).run d) := by
  unfold hide
  rw [Act.run_bind_of_ok (Act.run_job d)]
  cases hb : d.job.isRollingBack with
  | true =>
    rw [if_pos rfl]
    cases hl : h.isLive with
    | true => exact .kept hb hl
    | false =>
      rw [if_neg Bool.false_ne_true, Act.run_complete (hd.canWrite (hid _))]
      exact .shown hb hl
  | false =>
    rw [if_neg Bool.false_ne_true]
    split
    · next hs =>
      cases hc : h.check with
      | error f =>
        rw [Act.run_bind_of_error (Act.run_orCancel_error f d)]
        exact .refused hb hs f hc
      | ok u =>
        rw [Act.run_bind_of_ok (Act.run_orCancel_ok d), Act.run_advance (hd.canWrite (hid _))]
        exact .hidden hb hs hc
    · next hs =>
      rw [Act.run_advance (hd.canWrite (hid _))]
      exact .closed hb hs
    · next hs => exact .gone hb hs
    · next hlive hwrite hdelete =>
      apply Hidden.stuck hb
      cases hs : d.job.stage <;> simp_all

end Steward.Step

/-! ### The ends of work, whatever is answered in between -/

namespace Steward.Step.Work

universe u

variable {α β : Type u} {P : Surroundings → Prop} {a : α}

/--
The work may come to this end while all surroundings that it sees are of a kind.
-/
inductive Ends (P : Surroundings → Prop) : Work α → α → Prop where
  | done (a : α) : Ends P (.done a) a
  | ask (st : Sql.Statement) (k : Surroundings → Answer → Work α) (s : Surroundings) (hs : P s)
      (answer : Answer) (a : α) (h : Ends P (k s answer) a) :
    Ends P (.ask st k) a

theorem ends_done {b : α} (h : Ends P (.done b) a) : a = b := by
  cases h
  rfl

theorem ends_ask {st : Sql.Statement} {k : Surroundings → Answer → Work α}
    (h : Ends P (.ask st k) a) : ∃ s answer, P s ∧ Ends P (k s answer) a := by
  cases h with
  | ask _ _ s hs answer _ h => exact ⟨s, answer, hs, h⟩

theorem ends_map {f : α → β} {w : Work α} {b : β} (h : Ends P (w.map f) b) :
    ∃ a, Ends P w a ∧ b = f a := by
  induction w with
  | done a => exact ⟨a, .done a, ends_done h⟩
  | ask st k ih =>
    obtain ⟨s, answer, hs, h⟩ := ends_ask h
    obtain ⟨a, ha, hb⟩ := ih s answer h
    exact ⟨a, .ask st k s hs answer a ha, hb⟩

end Steward.Step.Work
