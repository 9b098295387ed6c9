import Steward.Proofs.Step.Act
import Steward.Step.Registry

/-!
This module contains what handlers do to the counters of a transaction. Handlers that are honest go on
from the transaction that they were given, and those that mark their changes never change the catalog
without a new schema version. `standard_honest` and `standard_marks` say that the handlers of all kinds
do both, on any ledger at all.
-/

namespace Steward

open Catalog (Fault ForeignKey Schema Stage Table)
open Change (Job Kind Status Trouble)

namespace Ledger.Txn

/--
`t'` goes on from `t`: it began at the same snapshot, and no counter went back.
-/
structure Continues (t t' : Txn) : Prop where
  base : t'.base = t.base
  schemaVersion : t.schemaVersion ≤ t'.schemaVersion
  lastId : t.working.lastId ≤ t'.working.lastId

structure Raises (t t' : Txn) : Prop extends Continues t t' where
  newer : t.schemaVersion < t'.schemaVersion

/--
`t'` is the same as `t`, or goes on from it in a newer schema version.
-/
def Spares (t t' : Txn) : Prop := t' = t ∨ t.Raises t'

variable {t t' t'' : Txn} {schemaId tableId : Int} {table : Table}

theorem Continues.refl (t : Txn) : t.Continues t := ⟨rfl, Int.le_refl _, Int.le_refl _⟩

theorem Continues.trans (h : t.Continues t') (h' : t'.Continues t'') : t.Continues t'' where
  base := h'.base.trans h.base
  schemaVersion := Int.le_trans h.schemaVersion h'.schemaVersion
  lastId := Int.le_trans h.lastId h'.lastId

theorem Continues.raises (h : t.Continues t') (h' : t'.Raises t'') : t.Raises t'' :=
  ⟨h.trans h'.toContinues, Int.lt_of_le_of_lt h.schemaVersion h'.newer⟩

theorem Raises.continues (h : t.Raises t') (h' : t'.Continues t'') : t.Raises t'' :=
  ⟨h.toContinues.trans h', Int.lt_of_lt_of_le h.newer h'.schemaVersion⟩

theorem Spares.trans (h : t.Spares t') (h' : t'.Spares t'') : t.Spares t'' := by
  cases h with
  | inl hsame => exact hsame ▸ h'
  | inr hraised =>
    cases h' with
    | inl hsame => exact .inr (hsame ▸ hraised)
    | inr hraised' => exact .inr (hraised.continues hraised'.toContinues)

theorem continues_withTables (t : Txn) (schemaId : Int) (tables : IdMap Table) :
    t.Continues (t.withTables schemaId tables) := ⟨rfl, Int.le_refl _, Int.le_refl _⟩

theorem raises_newVersion (t : Txn) : t.Raises t.newVersion.2 :=
  ⟨⟨rfl, Int.le_of_lt (Int.lt_succ _), Int.le_refl _⟩, Int.lt_succ _⟩

theorem continues_createTable (h : t.createTable schemaId table = .ok t') : t.Continues t' := by
  obtain ⟨tables, _, h⟩ := bind_eq_ok.1 h
  split at h
  · cases h
  · cases h
    exact continues_withTables _ _ _

theorem continues_updateTable (h : t.updateTable schemaId table = .ok t') : t.Continues t' := by
  obtain ⟨tables, _, h⟩ := bind_eq_ok.1 h
  split at h
  · cases h
    exact continues_withTables _ _ _
  · cases h

theorem continues_dropTable (h : t.dropTable schemaId tableId = .ok t') : t.Continues t' := by
  obtain ⟨tables, _, h⟩ := bind_eq_ok.1 h
  split at h
  · cases h
    exact continues_withTables _ _ _
  · cases h

theorem raises_writeTable {job : Job} {stamp : Nat} {version : Int} {written : Table}
    (h : t.writeTable job table stamp true = .ok (version, written, t')) : t.Raises t' := by
  obtain ⟨_, h, hok⟩ := bind_eq_ok.1 h
  cases hok
  exact (raises_newVersion t).continues (continues_updateTable (during_eq_ok.1 h))

end Ledger.Txn

namespace Step

open Ledger (Txn)
open Ledger.Txn (Continues Raises Spares)

namespace Act

variable {α β : Type} {R R' R'' : Txn → Txn → Prop} {a : Act α} {f : α → Act β}

/--
Whenever the action succeeds, it takes its transaction along the relation.
-/
def Moves (R : Txn → Txn → Prop) (a : Act α) : Prop :=
  ∀ d x d', a.run d = (.ok x, d') → R d.txn d'.txn

theorem Moves.mono (h : a.Moves R) (hR : ∀ t t', R t t' → R' t t') : a.Moves R' :=
  fun d x d' hrun => hR _ _ (h d x d' hrun)

theorem Moves.bind (h : a.Moves R) (hf : ∀ x, (f x).Moves R')
    (hR : ∀ t t' t'', R t t' → R' t' t'' → R'' t t'') : (a >>= f).Moves R'' := by
  intro d y d'' hrun
  rw [run_bind] at hrun
  split at hrun
  · next x d' ha => exact hR _ _ _ (h d x d' ha) (hf x d' y d'' hrun)
  · cases hrun

theorem Moves.before (h : a.Moves Eq) (hf : ∀ x, (f x).Moves R) : (a >>= f).Moves R :=
  h.bind hf fun _ _ _ ht hR => ht ▸ hR

theorem Moves.onward (h : a.Moves Continues) (hf : ∀ x, (f x).Moves Raises) :
    (a >>= f).Moves Raises := h.bind hf fun _ _ _ ht hR => ht.raises hR

theorem Moves.after (h : a.Moves Raises) (hf : ∀ x, (f x).Moves Eq) : (a >>= f).Moves Raises :=
  h.bind hf fun _ _ _ hR ht => ht ▸ hR

theorem Moves.spares (h : a.Moves Eq) : a.Moves Spares := h.mono fun _ _ ht => .inl ht.symm

theorem Moves.renewed (h : a.Moves Raises) : a.Moves Spares := h.mono fun _ _ ht => .inr ht

theorem Moves.toSum {a : Act Int} (h : a.Moves R) :
    (do return .inl (← a) : Act (Int ⊕ Staged)).Moves R := by
  have hpure (v : Int) : (pure (.inl v) : Act (Int ⊕ Staged)).Moves Eq := by
    intro d y d' hrun
    cases hrun
    rfl
  exact h.bind hpure fun _ _ _ hR ht => ht ▸ hR

section Plain

theorem moves_pure (x : α) : (pure x : Act α).Moves Eq := by
  intro d y d' h
  cases h
  rfl

theorem moves_job : job.Moves Eq := by
  intro d y d' h
  cases h
  rfl

theorem moves_version : version.Moves Eq := by
  intro d y d' h
  cases h
  rfl

theorem moves_get : (get : Act Draft).Moves Eq := by
  intro d y d' h
  cases h
  rfl

theorem moves_setStage (st : Stage) : (setStage st).Moves Eq := by
  intro d y d' h
  cases h
  rfl

theorem moves_finish (σ : Status) (st : Stage) (v : Int) (o : Option Table) :
    (finish σ st v o).Moves Eq := by
  intro d y d' h
  cases h
  rfl

theorem moves_ofExcept (r : Except Trouble α) : (ofExcept r).Moves Eq := by
  intro d y d' h
  cases h
  rfl

theorem moves_anyTable : anyTable.Moves Eq := by
  intro d y d' h
  obtain ⟨-, rfl⟩ := Prod.mk.inj h
  rfl

theorem moves_publicTable : publicTable.Moves Eq := by
  intro d y d' h
  obtain ⟨-, rfl⟩ := Prod.mk.inj h
  rfl

theorem moves_throw (e : Trouble) : (throw e : Act α).Moves R := by
  intro d y d' h
  cases h

theorem moves_fail (f : Fault) : (fail f : Act α).Moves R := moves_throw _

theorem moves_cancel (f : Fault) : (cancel f : Act α).Moves R := by
  intro d y d' h
  cases h

theorem moves_wrongArgs : (wrongArgs : Act α).Moves R := by
  intro d y d' h
  cases h

theorem moves_ensure (ok : Bool) (f : Fault) : (ensure ok f).Moves Eq := by
  unfold ensure
  split
  · exact moves_pure _
  · exact moves_cancel f

theorem moves_orCancel (check : Except Fault Unit) : (orCancel check).Moves Eq := by
  cases check with
  | ok u => exact moves_pure _
  | error f => exact moves_cancel f

theorem moves_end (σ : Status) (st : Stage) (o : Option Table) :
    (do finish σ st (← version) o : Act Int).Moves Eq :=
  moves_version.before fun _ => moves_finish _ _ _ _

end Plain

section Writing

variable (s : Surroundings) (t : Table) (st : Stage)

theorem moves_inTxn {g : Txn → Except Trouble Txn}
    (h : ∀ t t', g t = .ok t' → t.Continues t') : (inTxn g).Moves Continues := by
  intro d y d' hrun
  cases hg : g d.txn with
  | ok t =>
    rw [run_inTxn_ok hg] at hrun
    cases hrun
    exact h _ _ hg
  | error e =>
    rw [run_inTxn_error hg] at hrun
    cases hrun

theorem moves_write : (write s t).Moves Raises := by
  intro d y d' hrun
  unfold write ExceptT.run at hrun
  dsimp only at hrun
  split at hrun
  · next hw =>
    cases hrun
    exact Txn.raises_writeTable hw
  · cases hrun

theorem moves_newVersion : newVersion.Moves Raises := by
  intro d y d' hrun
  cases hrun
  exact Txn.raises_newVersion _

theorem moves_advance : (advance s t st).Moves Raises :=
  (moves_write s t).after fun _ => (moves_setStage st).before fun _ => moves_pure _

theorem moves_complete (σ : Status) : (complete s t σ st).Moves Raises :=
  (moves_write s t).after fun _ => moves_finish _ _ _ _

end Writing

end Act

section Handlers

open Act

variable (s : Surroundings)

theorem moves_hide (table : Table) {h : Hiding} (hlast : h.last.Moves Raises) :
    (hide s table h).Moves Spares := by
  unfold hide
  refine moves_job.before fun job => ?_
  split
  · split
    · exact (moves_end _ _ _).spares
    · exact (moves_complete _ _ _ _).renewed
  · split
    · exact (moves_orCancel _).before fun _ => (moves_advance _ _ _).renewed
    · exact (moves_advance _ _ _).renewed
    · exact hlast.renewed
    · exact moves_fail _

theorem moves_createTable : (createTable s).Moves Spares := by
  unfold createTable
  refine moves_job.before fun job => ?_
  split
  · split
    · exact (moves_end _ _ _).spares
    · split
      · refine moves_get.before fun d => (moves_ensure _ _).before fun _ => ?_
        refine (moves_ofExcept _).before fun tables => (moves_ensure _ _).before fun _ => ?_
        refine (moves_orCancel _).before fun _ => Moves.renewed ?_
        refine (moves_inTxn fun t t' h => ?_).onward fun _ => moves_complete _ _ _ _
        exact Txn.continues_createTable (during_eq_ok.1 h)
      · exact moves_fail _
  · exact moves_wrongArgs

theorem moves_dropTable : (dropTable s).Moves Spares := by
  unfold dropTable
  refine moves_job.before fun job => ?_
  split
  · refine moves_anyTable.before fun table => moves_hide s table ?_
    refine (moves_inTxn fun t t' h => ?_).onward fun _ =>
      moves_newVersion.after fun _ => moves_finish _ _ _ _
    exact Txn.continues_dropTable (during_eq_ok.1 h)
  · exact moves_wrongArgs

theorem moves_truncateTable : (truncateTable s).Moves Spares := by
  unfold truncateTable
  refine moves_job.before fun job => ?_
  split
  · refine moves_publicTable.before fun table => ?_
    split
    · exact (moves_end _ _ _).spares
    · split
      · refine (moves_orCancel _).before fun _ => Moves.renewed ?_
        refine (moves_inTxn fun t t' h => Txn.continues_dropTable h).onward fun _ => ?_
        refine (moves_inTxn fun t t' h => ?_).onward fun _ => moves_complete _ _ _ _
        exact Txn.continues_createTable (during_eq_ok.1 h)
      · exact moves_fail _
  · exact moves_wrongArgs

theorem moves_dropIndex : (dropIndex s).Moves Spares := by
  unfold dropIndex
  refine moves_job.before fun job => ?_
  split
  · refine moves_publicTable.before fun table => ?_
    split
    · exact moves_hide s table (moves_complete _ _ _ _)
    · exact moves_cancel _
  · exact moves_wrongArgs

theorem moves_dropColumn : (dropColumn s).Moves Spares := by
  unfold dropColumn
  refine moves_job.before fun job => ?_
  split
  · refine moves_publicTable.before fun table => ?_
    split
    · exact moves_hide s table (moves_complete _ _ _ _)
    · exact moves_cancel _
  · exact moves_wrongArgs

theorem moves_removeForeignKey (table : Table) (name : String) :
    (removeForeignKey s table name).Moves Spares := by
  unfold removeForeignKey
  refine moves_job.before fun job => ?_
  split
  · exact (moves_complete _ _ _ _).renewed
  · dsimp only
    split
    · exact (moves_end _ _ _).spares
    · exact moves_cancel _

theorem moves_dropForeignKey : (dropForeignKey s).Moves Spares := by
  unfold dropForeignKey
  refine moves_job.before fun job => ?_
  split
  · refine moves_publicTable.before fun table => ?_
    split
    · exact (moves_end _ _ _).spares
    · split
      · exact moves_removeForeignKey s table _
      · exact moves_fail _
  · exact moves_wrongArgs

theorem moves_stageForeignKey (table : Table) (fk : ForeignKey) (check : Bool) :
    (stageForeignKey s table fk check).Moves Spares := by
  unfold stageForeignKey
  refine moves_job.before fun job => ?_
  split
  · exact ((moves_setStage _).before fun _ => moves_version).spares
  · refine (moves_orCancel _).before fun _ => ?_
    refine Moves.before ?_ fun _ => (moves_advance _ _ _).renewed
    intro d y d' h
    cases h
    rfl

theorem moves_stagedPosition (table : Table) (name : String) (expected : Stage) :
    (stagedPosition table name expected).Moves Eq := by
  unfold stagedPosition
  split
  · exact moves_fail _
  · split
    · exact moves_fail _
    · split
      · exact moves_pure _
      · exact moves_fail _

theorem moves_beginAddition : (beginAddition s).Moves Spares := by
  unfold beginAddition
  refine moves_job.before fun job => ?_
  split
  · refine moves_publicTable.before fun table => ?_
    split
    · exact (moves_removeForeignKey s table _).toSum
    · split
      · exact (moves_stageForeignKey s table _ _).toSum
      · exact ((moves_stagedPosition table _ _).before fun _ => moves_pure _).spares
      · exact (moves_stagedPosition table _ _).before fun _ => (moves_complete _ _ _ _).renewed.toSum
      · exact moves_fail _
  · exact moves_wrongArgs

theorem moves_endRowCheck (staged : Staged) (verdict : Except Trouble Unit) :
    (endRowCheck s staged verdict).Moves Spares := by
  unfold endRowCheck
  cases verdict with
  | ok u => exact (moves_advance _ _ _).renewed
  | error e =>
    dsimp only
    split
    · intro d y d' h
      cases h
    · exact moves_throw e

theorem standard_spares {P : Surroundings → Prop} {k : Kind} {d : Draft} {r : Result} {v : Int}
    (h : (Registry.standard k s d).Ends P r) (hv : r.1 = .ok v) : d.txn.Spares r.2.txn := by
  have hends {a : Act Int} (ha : a.Moves Spares) (h : (a.toWork d).Ends P r) :
      d.txn.Spares r.2.txn := by
    rw [Work.ends_done h] at hv ⊢
    exact ha d v _ (Prod.ext hv rfl)
  cases k with
  | createTable => exact hends (moves_createTable s) h
  | dropTable => exact hends (moves_dropTable s) h
  | truncateTable => exact hends (moves_truncateTable s) h
  | dropForeignKey => exact hends (moves_dropForeignKey s) h
  | dropIndex => exact hends (moves_dropIndex s) h
  | dropColumn => exact hends (moves_dropColumn s) h
  | addForeignKey =>
    have hbegin := moves_beginAddition s d
    dsimp only [Registry.standard] at h
    unfold addForeignKey at h
    split at h
    · next e d' hrun =>
      rw [Work.ends_done h] at hv
      cases hv
    · next w d' hrun =>
      rw [Work.ends_done h]
      exact hbegin _ _ hrun
    · next staged d' hrun =>
      obtain ⟨x, -, rfl⟩ := Work.ends_map h
      exact (hbegin _ _ hrun).trans (moves_endRowCheck x.1 staged x.2 d' v _ (Prod.ext hv rfl))

end Handlers

namespace Registry

/--
Whenever a step of these handlers succeeds, it went on from the transaction that it was given.
-/
def Honest (handlers : Registry) : Prop :=
  ∀ k s d r v, (handlers k s d).Ends (fun _ => True) r → r.1 = .ok v → d.txn.Continues r.2.txn

/--
Whenever a step of these handlers succeeds and the catalog is another one than before, it has a newer
schema version.
-/
def Marks (handlers : Registry) : Prop :=
  ∀ k s d r v, (handlers k s d).Ends (fun _ => True) r → r.1 = .ok v →
    r.2.txn.working.catalog = d.txn.working.catalog ∨ d.txn.schemaVersion < r.2.txn.schemaVersion

theorem standard_honest : standard.Honest := by
  intro k s d r v h hv
  cases standard_spares s h hv with
  | inl hsame => exact hsame ▸ .refl _
  | inr hraised => exact hraised.toContinues

theorem standard_marks : standard.Marks := by
  intro k s d r v h hv
  cases standard_spares s h hv with
  | inl hsame => exact .inl (hsame ▸ rfl)
  | inr hraised => exact .inr hraised.newer

end Registry

end Step

end Steward
