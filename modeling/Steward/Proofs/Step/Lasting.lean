import Steward.Proofs.Constraint.Refusal
import Steward.Proofs.Step.Act
import Steward.Step.Registry

/-!
This module contains why a step that fails is never just tried again: while a node leads, none of the
handlers fails with trouble that leaves its job as it was.
-/

namespace Steward.Step

open Catalog (Fault ForeignKey Stage Table)
open Change (Args Job Kind Status Trouble)
open Constraint (Refuses)
open Ledger (Txn)

variable {α β : Type}

section Results

def Lasts (r : Except Trouble α) : Prop := ∀ t, r = .error t → t.isTransient = false

theorem lasts_ok (a : α) : Lasts (.ok a) := by
  intro t h
  cases h

theorem lasts_error {t : Trouble} (ht : t.isTransient = false) : Lasts (.error t : Except Trouble α) := by
  intro t' h
  cases h
  exact ht

theorem Lasts.bind {r : Except Trouble α} {f : α → Except Trouble β} (h : Lasts r)
    (hf : ∀ a, Lasts (f a)) : Lasts (r >>= f) := by
  cases r with
  | ok a => exact hf a
  | error t => exact lasts_error (h t rfl)

theorem Lasts.during {r : Except Trouble α} (h : Lasts r) (what : String) :
    Lasts (Steward.during what r) := by
  cases r with
  | ok a => exact lasts_ok a
  | error t => exact lasts_error (h t rfl)

variable (t : Txn) (schemaId tableId : Int) (table : Table)

theorem lasts_writableTables : Lasts (t.writableTables schemaId) := by
  unfold Txn.writableTables
  split
  · exact lasts_ok _
  · exact lasts_error rfl

theorem lasts_createTable : Lasts (t.createTable schemaId table) := by
  unfold Txn.createTable
  refine (lasts_writableTables t schemaId).bind fun tables => ?_
  split
  · exact lasts_error rfl
  · exact lasts_ok _

theorem lasts_updateTable : Lasts (t.updateTable schemaId table) := by
  unfold Txn.updateTable
  refine (lasts_writableTables t schemaId).bind fun tables => ?_
  split
  · exact lasts_ok _
  · exact lasts_error rfl

theorem lasts_dropTable : Lasts (t.dropTable schemaId tableId) := by
  unfold Txn.dropTable
  refine (lasts_writableTables t schemaId).bind fun tables => ?_
  split
  · exact lasts_ok _
  · exact lasts_error rfl

theorem lasts_tables : Lasts (t.tables schemaId) := by
  unfold Txn.tables
  split
  · exact lasts_ok _
  · exact lasts_error rfl

theorem lasts_writeTable (job : Job) (stamp : Nat) (bump : Bool) :
    Lasts (t.writeTable job table stamp bump) := by
  unfold Txn.writeTable
  exact ((lasts_updateTable _ _ _).during _).bind fun _ => lasts_ok _

theorem lasts_loadTable (job : Job) : Lasts (t.loadTable job).1 := by
  unfold Txn.loadTable
  dsimp only
  split
  · exact lasts_error rfl
  · split
    · exact lasts_ok _
    · exact lasts_error rfl

theorem lasts_loadPublicTable (job : Job) : Lasts (t.loadPublicTable job).1 := by
  have hload := lasts_loadTable t job
  unfold Txn.loadPublicTable
  split
  · split
    · exact lasts_ok _
    · exact lasts_error rfl
  · exact hload

end Results

namespace Act

def Lasting (a : Act α) : Prop := ∀ d, Lasts (a.run d).1

variable {a : Act α} {f : α → Act β}

theorem Lasting.bind (h : a.Lasting) (hf : ∀ x, (f x).Lasting) : (a >>= f).Lasting := by
  intro d
  have ha := h d
  rw [run_bind]
  split
  · exact hf _ _
  · next e d' hrun =>
    rw [hrun] at ha
    exact lasts_error (ha e rfl)

theorem Lasting.toSum {a : Act Int} (h : a.Lasting) :
    (do return .inl (← a) : Act (Int ⊕ Staged)).Lasting := h.bind fun _ _ => lasts_ok _

theorem lasting_job : job.Lasting := fun _ => lasts_ok _

theorem lasting_version : version.Lasting := fun _ => lasts_ok _

theorem lasting_newVersion : newVersion.Lasting := fun _ => lasts_ok _

theorem lasting_get : (get : Act Draft).Lasting := fun _ => lasts_ok _

theorem lasting_modify (g : Draft → Draft) : (modify g : Act Unit).Lasting := fun _ => lasts_ok _

theorem lasting_throw {t : Trouble} (ht : t.isTransient = false) : (throw t : Act α).Lasting :=
  fun _ => lasts_error ht

theorem lasting_setStatus (σ : Status) : (setStatus σ).Lasting := lasting_modify _

theorem lasting_setStage (st : Stage) : (setStage st).Lasting := lasting_modify _

theorem lasting_finish (σ : Status) (st : Stage) (v : Int) (o : Option Table) :
    (finish σ st v o).Lasting := fun _ => lasts_ok _

theorem lasting_fail {f : Fault} (hf : f.isTransient = false) : (fail f : Act α).Lasting :=
  fun _ => lasts_error hf

theorem lasting_cancel {f : Fault} (hf : f.isTransient = false) : (cancel f : Act α).Lasting :=
  fun _ => lasts_error hf

theorem lasting_wrongArgs : (wrongArgs : Act α).Lasting := fun _ => lasts_error rfl

theorem lasting_ensure (ok : Bool) {f : Fault} (hf : f.isTransient = false) :
    (ensure ok f).Lasting := by
  unfold ensure
  split
  · exact fun _ => lasts_ok _
  · exact lasting_cancel hf

theorem lasting_orCancel {check : Except Fault Unit} (h : Refuses check) :
    (orCancel check).Lasting := by
  cases check with
  | ok u => exact fun _ => lasts_ok _
  | error f => exact lasting_cancel (Fault.not_transient (h f rfl))

theorem lasting_ofExcept {r : Except Trouble α} (h : Lasts r) : (ofExcept r).Lasting := fun _ => h

theorem lasting_anyTable : anyTable.Lasting := fun d => lasts_loadTable d.txn d.job

theorem lasting_publicTable : publicTable.Lasting := fun d => lasts_loadPublicTable d.txn d.job

theorem lasting_inTxn {g : Txn → Except Trouble Txn} (h : ∀ t, Lasts (g t)) :
    (inTxn g).Lasting := by
  intro d
  have hd := h d.txn
  cases hg : g d.txn with
  | ok t =>
    rw [run_inTxn_ok hg]
    exact lasts_ok _
  | error e =>
    rw [run_inTxn_error hg]
    exact lasts_error (hd e hg)

variable (s : Surroundings) (t : Table) (st : Stage)

theorem lasting_write : (write s t).Lasting := by
  intro d
  have h := lasts_writeTable d.txn t d.job s.stamp true
  unfold write ExceptT.run
  dsimp only
  split
  · exact lasts_ok _
  · next e he => exact lasts_error (h e he)

theorem lasting_advance : (advance s t st).Lasting :=
  (lasting_write s t).bind fun _ => (lasting_setStage st).bind fun _ _ => lasts_ok _

theorem lasting_complete (σ : Status) : (complete s t σ st).Lasting :=
  (lasting_write s t).bind fun _ => lasting_finish _ _ _ _

theorem lasting_end (σ : Status) (o : Option Table) :
    (do finish σ st (← version) o : Act Int).Lasting :=
  lasting_version.bind fun _ => lasting_finish _ _ _ _

end Act

section Handlers

open Act

variable (s : Surroundings)

theorem lasting_hide (table : Table) {h : Hiding} (hcheck : Refuses h.check)
    (hlast : h.last.Lasting) : (hide s table h).Lasting := by
  unfold hide
  refine lasting_job.bind fun job => ?_
  split
  · split
    · exact lasting_end _ _ _
    · exact lasting_complete _ _ _ _
  · split
    · exact (lasting_orCancel hcheck).bind fun _ => lasting_advance _ _ _
    · exact lasting_advance _ _ _
    · exact hlast
    · exact lasting_fail rfl

theorem lasting_createTable : (createTable s).Lasting := by
  unfold createTable
  refine lasting_job.bind fun job => ?_
  split
  · split
    · exact lasting_end _ _ _
    · split
      · refine lasting_get.bind fun d => ?_
        refine (lasting_ensure _ rfl).bind fun _ => ?_
        refine (lasting_ofExcept (lasts_tables _ _)).bind fun tables => ?_
        refine (lasting_ensure _ rfl).bind fun _ => ?_
        refine (lasting_orCancel (Constraint.refuses_checkDeclared _ _ _ _ _)).bind fun _ => ?_
        refine (lasting_inTxn fun t => (lasts_createTable t _ _).during _).bind fun _ => ?_
        exact lasting_complete _ _ _ _
      · exact lasting_fail rfl
  · exact lasting_wrongArgs

theorem lasting_dropTable : (dropTable s).Lasting := by
  unfold dropTable
  refine lasting_job.bind fun job => ?_
  split
  · refine lasting_anyTable.bind fun table => ?_
    apply lasting_hide
    · exact Constraint.refuses_checkUnreferred _ _ _ _ _
    · refine (lasting_inTxn fun t => (lasts_dropTable t _ _).during _).bind fun _ => ?_
      exact lasting_newVersion.bind fun _ => lasting_finish _ _ _ _
  · exact lasting_wrongArgs

theorem lasting_truncateTable : (truncateTable s).Lasting := by
  unfold truncateTable
  refine lasting_job.bind fun job => ?_
  split
  · refine lasting_publicTable.bind fun table => ?_
    split
    · exact lasting_end _ _ _
    · split
      · refine (lasting_orCancel (Constraint.refuses_checkUnreferred _ _ _ _ _)).bind fun _ => ?_
        refine (lasting_inTxn fun t => lasts_dropTable t _ _).bind fun _ => ?_
        refine (lasting_inTxn fun t => (lasts_createTable t _ _).during _).bind fun _ => ?_
        exact lasting_complete _ _ _ _
      · exact lasting_fail rfl
  · exact lasting_wrongArgs

theorem lasting_dropIndex : (dropIndex s).Lasting := by
  unfold dropIndex
  refine lasting_job.bind fun job => ?_
  split
  · refine lasting_publicTable.bind fun table => ?_
    split
    · apply lasting_hide
      · exact Constraint.refuses_checkIndexUnneeded _ _ _ _ _
      · exact lasting_complete _ _ _ _
    · exact lasting_cancel rfl
  · exact lasting_wrongArgs

theorem lasting_dropColumn : (dropColumn s).Lasting := by
  unfold dropColumn
  refine lasting_job.bind fun job => ?_
  split
  · refine lasting_publicTable.bind fun table => ?_
    split
    · apply lasting_hide
      · exact Constraint.refuses_checkColumnUnneeded _ _ _ _ _
      · exact lasting_complete _ _ _ _
    · exact lasting_cancel rfl
  · exact lasting_wrongArgs

theorem lasting_removeForeignKey (table : Table) (name : String) :
    (removeForeignKey s table name).Lasting := by
  unfold removeForeignKey
  refine lasting_job.bind fun job => ?_
  split
  · exact lasting_complete _ _ _ _
  · dsimp only
    split
    · exact lasting_end _ _ _
    · exact lasting_cancel rfl

theorem lasting_dropForeignKey : (dropForeignKey s).Lasting := by
  unfold dropForeignKey
  refine lasting_job.bind fun job => ?_
  split
  · refine lasting_publicTable.bind fun table => ?_
    split
    · exact lasting_end _ _ _
    · split
      · exact lasting_removeForeignKey s table _
      · exact lasting_fail rfl
  · exact lasting_wrongArgs

theorem lasting_stageForeignKey (table : Table) (fk : ForeignKey) (check : Bool) :
    (stageForeignKey s table fk check).Lasting := by
  unfold stageForeignKey
  refine lasting_job.bind fun job => ?_
  split
  · exact (lasting_setStage _).bind fun _ => lasting_version
  · refine (lasting_orCancel (Constraint.refuses_checkAdded _ _ _ _ _ _)).bind fun _ => ?_
    exact (lasting_modify _).bind fun _ => lasting_advance _ _ _

theorem lasting_stagedPosition (table : Table) (name : String) (expected : Stage) :
    (stagedPosition table name expected).Lasting := by
  unfold stagedPosition
  split
  · exact lasting_fail rfl
  · split
    · exact lasting_fail rfl
    · split
      · exact fun _ => lasts_ok _
      · exact lasting_fail rfl

theorem lasting_beginAddition : (beginAddition s).Lasting := by
  unfold beginAddition
  refine lasting_job.bind fun job => ?_
  split
  · refine lasting_publicTable.bind fun table => ?_
    split
    · exact (lasting_removeForeignKey s table _).toSum
    · split
      · exact (lasting_stageForeignKey s table _ _).toSum
      · exact (lasting_stagedPosition table _ _).bind fun _ _ => lasts_ok _
      · exact (lasting_stagedPosition table _ _).bind fun _ => (lasting_complete _ _ _ _).toSum
      · exact lasting_fail rfl
  · exact lasting_wrongArgs

theorem lasts_judgeRows (schema table : String) (fk : ForeignKey)
    (reply : Except Sql.Trouble Sql.Reply) :
    Lasts (judgeRows schema table fk (.replied reply)) := by
  unfold judgeRows
  split
  · next h => cases h
  · exact lasts_error rfl
  · split
    · exact lasts_ok _
    · exact lasts_error rfl

theorem lasting_endRowCheck (staged : Staged) {verdict : Except Trouble Unit}
    (h : Lasts verdict) : (endRowCheck s staged verdict).Lasting := by
  unfold endRowCheck
  cases verdict with
  | ok u => exact lasting_advance _ _ _
  | error e =>
    have he := h e rfl
    dsimp only
    split
    · exact (lasting_setStatus _).bind fun _ => lasting_throw he
    · exact lasting_throw he

end Handlers

end Steward.Step
