import Steward.Proofs.Ledger.Twins
import Steward.Proofs.Step.Act
import Steward.Step.Act

/-!
This module contains drafts whose working copies are twins and that are for the same job. Whatever an
action does in one of them, it does in the other one as well: it fails with the same trouble, or what
it leaves are twins again.
-/

namespace Steward

open Catalog (Fault Stage Table)
open Change (Job Outcome Status Trouble)
open Ledger (Snapshot Txn)

/--
The two are the same job, apart from the schema version that it reports and from what it tells those
who wait for it.
-/
structure Change.Job.Twins (j j' : Job) : Prop where
  id : j'.id = j.id
  kind : j'.kind = j.kind
  schemaId : j'.schemaId = j.schemaId
  tableId : j'.tableId = j.tableId
  schemaName : j'.schemaName = j.schemaName
  tableName : j'.tableName = j.tableName
  stage : j'.stage = j.stage
  status : j'.status = j.status
  args : j'.args = j.args
  error : j'.error = j.error
  errorCount : j'.errorCount = j.errorCount
  rowCount : j'.rowCount = j.rowCount

namespace Change.Job.Twins

variable {j j' : Job}

theorem refl (j : Job) : j.Twins j := ⟨rfl, rfl, rfl, rfl, rfl, rfl, rfl, rfl, rfl, rfl, rfl, rfl⟩

theorem isRollingBack (h : j.Twins j') : j'.isRollingBack = j.isRollingBack :=
  congrArg (· == Status.rollingBack) h.status

theorem isFinished (h : j.Twins j') : j'.isFinished = j.isFinished :=
  congrArg Status.isTerminal h.status

theorem isDone (h : j.Twins j') : j'.isDone = j.isDone := congrArg (· == Status.done) h.status

end Change.Job.Twins

namespace Step

variable {α β γ δ : Type} {P : Int → Int → Prop} {V : α → β → Prop} {W : γ → δ → Prop} {d d' : Draft}
  {x : Int} {a : Act α} {b : Act β} {f : α → Act γ} {g : β → Act δ} {t t' : Table}
  {s s' : Surroundings}

structure Draft.Twins (P : Int → Int → Prop) (x : Int) (d d' : Draft) : Prop where
  txn : d.txn.Twins P d'.txn
  job : d.job.Twins d'.job
  schema : d.job.schemaId = x

/--
The two results are the same trouble or related values, and what they leave are twins.
-/
structure Alike (P : Int → Int → Prop) (x : Int) (V : α → β → Prop) (r : Except Trouble α × Draft)
    (r' : Except Trouble β × Draft) : Prop where
  value : Tally V r.1 r'.1
  draft : r.2.Twins P x r'.2

abbrev Paired (P : Int → Int → Prop) (x : Int) (r r' : Result) : Prop :=
  Alike P x (fun _ _ => True) r r'

theorem Alike.bind (h : Alike P x V (a.run d) (b.run d'))
    (hf : ∀ v w e e', V v w → e.Twins P x e' → Alike P x W ((f v).run e) ((g w).run e')) :
    Alike P x W ((a >>= f).run d) ((b >>= g).run d') := by
  rw [Act.run_bind, Act.run_bind]
  obtain ⟨hvalue, hdraft⟩ := h
  generalize a.run d = r at hvalue hdraft
  generalize b.run d' = r' at hvalue hdraft
  obtain ⟨r, e⟩ := r
  obtain ⟨r', e'⟩ := r'
  cases hvalue with
  | ok hv => exact hf _ _ e e' hv hdraft
  | error t => exact ⟨.error t, hdraft⟩

namespace Draft.Twins

section Ends

theorem fail (h : d.Twins P x d') (t : Trouble) : Alike P x V (.error t, d) (.error t, d') :=
  ⟨.error t, h⟩

theorem turned (h : d.Twins P x d') (status : Status) :
    Twins P x { d with job := { d.job with status } } { d' with job := { d'.job with status } } :=
  ⟨h.txn, { h.job with status := rfl }, h.schema⟩

theorem staged (h : d.Twins P x d') (stage : Stage) :
    Twins P x { d with job := { d.job with stage } } { d' with job := { d'.job with stage } } :=
  ⟨h.txn, { h.job with stage := rfl }, h.schema⟩

theorem cancel (h : d.Twins P x d') (f : Fault) :
    Alike P x V ((Act.cancel f).run d) ((Act.cancel f).run d') := (h.turned .cancelled).fail _

theorem finish (h : d.Twins P x d') (σ : Status) (st : Stage) (v v' : Int) (o o' : Option Table) :
    Paired P x ((Act.finish σ st v o).run d) ((Act.finish σ st v' o').run d') :=
  ⟨.ok trivial, h.txn, { h.job with stage := rfl, status := rfl }, h.schema⟩

theorem finishNow (h : d.Twins P x d') (σ : Status) (st : Stage) (o o' : Option Table) :
    Paired P x ((Act.version >>= fun v => Act.finish σ st v o).run d)
      ((Act.version >>= fun v => Act.finish σ st v o').run d') := h.finish σ st _ _ o o'

end Ends

section Checks

variable {k : Unit → Act γ} {k' : Unit → Act δ}

theorem ensure (h : d.Twins P x d') (ok : Bool) (f : Fault)
    (hk : ok = true → Alike P x W ((k ()).run d) ((k' ()).run d')) :
    Alike P x W ((Act.ensure ok f >>= k).run d) ((Act.ensure ok f >>= k').run d') := by
  cases ok with
  | true =>
    rw [Act.run_bind_of_ok (Act.run_ensure_true f d), Act.run_bind_of_ok (Act.run_ensure_true f d')]
    exact hk rfl
  | false =>
    rw [Act.run_bind_of_error (Act.run_ensure_false f d),
      Act.run_bind_of_error (Act.run_ensure_false f d')]
    exact (h.turned .cancelled).fail _

theorem orCancel (h : d.Twins P x d') (check : Except Fault Unit)
    (hk : Alike P x W ((k ()).run d) ((k' ()).run d')) :
    Alike P x W ((Act.orCancel check >>= k).run d) ((Act.orCancel check >>= k').run d') := by
  cases check with
  | ok u =>
    rw [Act.run_bind_of_ok (Act.run_orCancel_ok d), Act.run_bind_of_ok (Act.run_orCancel_ok d')]
    exact hk
  | error f =>
    rw [Act.run_bind_of_error (Act.run_orCancel_error f d),
      Act.run_bind_of_error (Act.run_orCancel_error f d')]
    exact (h.turned .cancelled).fail _

theorem inTxn {f f' : Txn → Except Trouble Txn} (h : d.Twins P x d')
    (hf : Tally (Txn.Twins P) (f d.txn) (f' d'.txn))
    (hk : ∀ txn txn', txn.Twins P txn' →
      Alike P x W ((k ()).run { d with txn }) ((k' ()).run { d' with txn := txn' })) :
    Alike P x W ((Act.inTxn f >>= k).run d) ((Act.inTxn f' >>= k').run d') := by
  generalize hr : f d.txn = r at hf
  generalize hr' : f' d'.txn = r' at hf
  cases hf with
  | ok htxn =>
    rw [Act.run_bind_of_ok (Act.run_inTxn_ok hr), Act.run_bind_of_ok (Act.run_inTxn_ok hr')]
    exact hk _ _ htxn
  | error t =>
    rw [Act.run_bind_of_error (Act.run_inTxn_error hr),
      Act.run_bind_of_error (Act.run_inTxn_error hr')]
    exact h.fail t

end Checks

section Writes

theorem write (h : d.Twins P x d') (ht : t'.undated = t.undated) (hp : ¬ P x t.id) :
    Alike P x (fun _ _ => True) ((Act.write s t).run d) ((Act.write s' t').run d') := by
  rw [← h.schema] at hp
  have htally := h.txn.tally_writeTable ht hp h.job.id h.job.schemaId s.stamp s'.stamp
  simp only [Act.write, ExceptT.run]
  generalize d.txn.writeTable d.job t s.stamp true = r at htally ⊢
  generalize d'.txn.writeTable d'.job t' s'.stamp true = r' at htally ⊢
  cases htally with
  | ok htxn => exact ⟨.ok trivial, htxn, h.job, h.schema⟩
  | error e => exact h.fail e

theorem advance (h : d.Twins P x d') (ht : t'.undated = t.undated) (hp : ¬ P x t.id)
    (st : Stage) : Paired P x ((Act.advance s t st).run d) ((Act.advance s' t' st).run d') := by
  refine (h.write ht hp).bind ?_
  intro v w e e' _ he
  exact ⟨.ok trivial, he.staged st⟩

theorem complete (h : d.Twins P x d') (ht : t'.undated = t.undated) (hp : ¬ P x t.id)
    (σ : Status) (st : Stage) :
    Paired P x ((Act.complete s t σ st).run d) ((Act.complete s' t' σ st).run d') := by
  refine (h.write ht hp).bind ?_
  intro v w e e' _ he
  exact he.finish σ st v.1 w.1 _ _

end Writes

section Reads

theorem loadTable (h : d.Twins P x d') (hp : ¬ P x d.job.tableId) :
    (∃ updated, ∃ t, d.txn.table? d.job.schemaId d.job.tableId = some t ∧
      d.txn.loadTable d.job = (.ok t, d.job) ∧
      d'.txn.loadTable d'.job = (.ok { t with updated }, d'.job)) ∨
    ∃ e, d.txn.loadTable d.job = (.error e, d.cancelled.job) ∧
      d'.txn.loadTable d'.job = (.error e, d'.cancelled.job) := by
  rw [← h.schema] at hp
  have hschema : d'.txn.schema? d'.job.schemaId = d.txn.schema? d.job.schemaId := by
    rw [h.job.schemaId]
    exact h.txn.schema? _
  have hplace : d'.txn.table? d'.job.schemaId d'.job.tableId =
      d'.txn.table? d.job.schemaId d.job.tableId := by
    rw [h.job.schemaId, h.job.tableId]
  unfold Txn.loadTable
  dsimp only
  rw [hschema, hplace]
  cases (d.txn.schema? d.job.schemaId).isNone with
  | true =>
    refine .inr ⟨_, rfl, ?_⟩
    rw [← h.job.schemaName]
    rfl
  | false =>
    cases ht : d.txn.table? d.job.schemaId d.job.tableId with
    | none =>
      rw [show d'.txn.table? _ _ = none from h.txn.table?_eq_none hp ht]
      refine .inr ⟨_, rfl, ?_⟩
      rw [← h.job.schemaName, ← h.job.tableName]
      rfl
    | some t =>
      obtain ⟨updated, ht'⟩ := h.txn.exists_table? hp ht
      rw [show d'.txn.table? _ _ = _ from ht']
      exact .inl ⟨updated, t, rfl, rfl, rfl⟩

variable {k : Table → Act γ} {k' : Table → Act δ}

theorem anyTable (h : d.Twins P x d') (hp : ¬ P x d.job.tableId)
    (hk : ∀ t updated, d.txn.table? d.job.schemaId d.job.tableId = some t →
      Alike P x W ((k t).run d) ((k' { t with updated }).run d')) :
    Alike P x W ((Act.anyTable >>= k).run d) ((Act.anyTable >>= k').run d') := by
  have hrun (d : Draft) : Act.anyTable.run d =
    ((d.txn.loadTable d.job).1, { d with job := (d.txn.loadTable d.job).2 }) := rfl
  rw [Act.run_bind, Act.run_bind, hrun, hrun]
  rcases h.loadTable hp with ⟨updated, t, ht, hload, hload'⟩ | ⟨e, hload, hload'⟩
  · rw [hload, hload']
    exact hk t updated ht
  · rw [hload, hload']
    exact (h.turned .cancelled).fail e

theorem publicTable (h : d.Twins P x d') (hp : ¬ P x d.job.tableId)
    (hk : ∀ t updated, d.txn.table? d.job.schemaId d.job.tableId = some t →
      Alike P x W ((k t).run d) ((k' { t with updated }).run d')) :
    Alike P x W ((Act.publicTable >>= k).run d) ((Act.publicTable >>= k').run d') := by
  have hrun (d : Draft) : Act.publicTable.run d =
    ((d.txn.loadPublicTable d.job).1, { d with job := (d.txn.loadPublicTable d.job).2 }) := rfl
  rw [Act.run_bind, Act.run_bind, hrun, hrun]
  unfold Txn.loadPublicTable
  rcases h.loadTable hp with ⟨updated, t, ht, hload, hload'⟩ | ⟨e, hload, hload'⟩
  · rw [hload, hload']
    by_cases hl : t.stage = .live
    · simp only [if_pos hl]
      exact hk t updated ht
    · simp only [if_neg hl]
      exact (h.turned .cancelled).fail _
  · rw [hload, hload']
    exact (h.turned .cancelled).fail e

end Reads

end Draft.Twins

end Step

end Steward
