import Steward.Proofs.Catalog.Part
import Steward.Proofs.Step.Parts
import Steward.Step.Run

/-!
This module contains what comes of a step of any kind: what the handlers leave alone, and how a
job is blamed for a step that failed.
-/

namespace Steward

open Catalog (Fault ForeignKey Part Stage Table)
open Change (Args Job Kind Status Trouble)
open Ledger (Snapshot Txn)

namespace Change.Job

/--
`j'` is the same job later on: all that may be new are its state, its stage, what it reports, and
how its constraint is staged.
-/
structure Follows (j j' : Job) : Prop where
  id : j'.id = j.id
  kind : j'.kind = j.kind
  schemaId : j'.schemaId = j.schemaId
  tableId : j'.tableId = j.tableId
  schemaName : j'.schemaName = j.schemaName
  tableName : j'.tableName = j.tableName
  args : j'.args = j.args ∨ ∃ fk check id stage, j.args = .addForeignKey fk check ∧
    j'.args = .addForeignKey { fk with id, stage } check

variable {j j' j'' : Job}

theorem Follows.refl (j : Job) : j.Follows j := ⟨rfl, rfl, rfl, rfl, rfl, rfl, .inl rfl⟩

theorem Follows.trans (h : j.Follows j') (h' : j'.Follows j'') : j.Follows j'' where
  id := h'.id.trans h.id
  kind := h'.kind.trans h.kind
  schemaId := h'.schemaId.trans h.schemaId
  tableId := h'.tableId.trans h.tableId
  schemaName := h'.schemaName.trans h.schemaName
  tableName := h'.tableName.trans h.tableName
  args := by
    cases h'.args with
    | inl hsame =>
      rw [hsame]
      exact h.args
    | inr hnew =>
      obtain ⟨fk', check', id', stage', hj', hj''⟩ := hnew
      right
      cases h.args with
      | inl hsame => exact ⟨fk', check', id', stage', hsame ▸ hj', hj''⟩
      | inr hold =>
        obtain ⟨fk, check, id, stage, hj, hmid⟩ := hold
        rw [hj'] at hmid
        cases hmid
        exact ⟨fk, _, id', stage', hj, hj''⟩

theorem Follows.argsKind (h : j.Follows j') : j'.args.kind = j.args.kind := by
  cases h.args with
  | inl hsame => rw [hsame]
  | inr hnew =>
    obtain ⟨fk, check, id, stage, hj, hj'⟩ := hnew
    rw [hj, hj']
    rfl

theorem Follows.kind_eq (h : j.Follows j') (hk : j.kind = j.args.kind) : j'.kind = j'.args.kind := by
  rw [h.kind, h.argsKind, hk]

theorem follows_started (j : Job) : j.Follows j.started := by
  unfold started
  split
  · exact ⟨rfl, rfl, rfl, rfl, rfl, rfl, .inl rfl⟩
  · exact .refl j

theorem follows_finish (j : Job) (σ : Status) (st : Stage) (v : Int) (t : Option Table) :
    j.Follows (j.finish σ st v t) := ⟨rfl, rfl, rfl, rfl, rfl, rfl, .inl rfl⟩

theorem stage_started (j : Job) : j.started.stage = j.stage := by
  unfold started
  split <;> rfl

/--
The part of its table that a job of some stages works on: the table itself, or a part by its name.
-/
def part? (j : Job) (t : Table) : Option Part :=
  match j.args with
  | .dropTable _ => some .table
  | .dropIndex name => (t.indexPosition? name).map .index
  | .dropColumn name => (t.columnPosition? name).map .column
  | .addForeignKey fk _ => (t.foreignKeyPosition? fk.name).map .foreignKey
  | _ => none

/--
Among the given tables, the job finds its own, and the part in it that it works on. A table that is
not public is found by a job that drops it alone.
-/
structure Finds (tables : Int → Int → Option Table) (j : Job) (t : Table) (p : Part) : Prop where
  table : tables j.schemaId j.tableId = some t
  part : j.part? t = some p
  isOpen : t.stage = .live ∨ p = .table

end Change.Job

namespace Step

/--
What comes of a step of any kind in surroundings of a kind, by the arguments of its job.
-/
def Took (P : Surroundings → Prop) (s : Surroundings) (d : Draft) (r : Result) : Prop :=
  match d.job.args with
  | .createTable table check => Created s table check d r
  | .dropTable check => Dropped s check d r
  | .truncateTable newId check => Truncated s newId check d r
  | .addForeignKey fk check => Bound P fk check d r
  | .dropForeignKey name => Unbound s name d r
  | .dropIndex name => Withdrawn s (indexTarget? s d.job name) d r
  | .dropColumn name => Withdrawn s (columnTarget? s d.job name) d r

theorem standard_took {P : Surroundings → Prop} {s : Surroundings} {d : Draft} {r : Result}
    (hk : d.txn.working.Keyed) (hkind : d.job.kind = d.job.args.kind) (hp : P s)
    (h : (Registry.standard d.job.kind s d).Ends P r) : Took P s d r := by
  unfold Took
  rw [hkind] at h
  split
  · next ha =>
    rw [ha] at h
    rw [Work.ends_done h]
    exact createTable_created ha
  · next ha =>
    rw [ha] at h
    rw [Work.ends_done h]
    exact dropTable_dropped hk ha
  · next ha =>
    rw [ha] at h
    rw [Work.ends_done h]
    exact truncateTable_truncated hk ha
  · next ha =>
    rw [ha] at h
    exact addForeignKey_bound hk ha hp h
  · next ha =>
    rw [ha] at h
    rw [Work.ends_done h]
    exact dropForeignKey_unbound hk ha
  · next ha =>
    rw [ha] at h
    rw [Work.ends_done h]
    exact dropIndex_withdrawn hk ha
  · next ha =>
    rw [ha] at h
    rw [Work.ends_done h]
    exact dropColumn_withdrawn hk ha

def Draft.IsVain (d : Draft) : Prop :=
  d.job.stage = d.job.args.kind.initial ∨ ∀ t p, ¬ d.job.Finds d.txn.table? t p

/--
What every step keeps: the job stays the same one, only tables are edited, a step that fails leaves
its job at its stage and with its arguments, turns it back only after it was begun and cancels it only
if nothing is to be undone, and one that succeeds ends the job or leaves it in its state.
-/
structure Framed (d : Draft) (r : Result) : Prop where
  follows : d.job.Follows r.2.job
  edits : ∀ v, r.1 = .ok v → d.txn.Edits r.2.txn
  version : ∀ v, r.1 = .ok v → v = r.2.txn.schemaVersion
  status : ∀ v, r.1 = .ok v → r.2.job.status = d.job.status ∨ r.2.job.status = .done ∨
    r.2.job.status = .rollbackDone
  failed : ∀ e, r.1 = .error e → r.2.job.stage = d.job.stage ∧
    (r.2.job.status = d.job.status ∨
      r.2.job.status = .rollingBack ∧ d.job.stage ≠ d.job.args.kind.initial ∨
      r.2.job.status = .cancelled ∧ d.IsVain)
  failedArgs : ∀ e, r.1 = .error e → r.2.job.args = d.job.args

namespace Framed

variable {d : Draft} {s : Surroundings} {t : Table} {σ : Status} {st : Stage}

theorem ended (o : Option Table) (hσ : σ = .done ∨ σ = .rollbackDone) :
    Framed d (d.ended σ st o) where
  follows := Change.Job.follows_finish _ _ _ _ _
  edits _ _ := .refl _
  version v h := by
    cases h
    rfl
  status _ _ := .inr hσ
  failed e h := by cases h
  failedArgs e h := by cases h

theorem finished {txn : Txn} {v : Int} {o : Option Table} (he : d.txn.Edits txn)
    (hv : v = txn.schemaVersion) (hσ : σ = .done ∨ σ = .rollbackDone) :
    Framed d (.ok v, ⟨txn, d.job.finish σ st v o⟩) where
  follows := Change.Job.follows_finish _ _ _ _ _
  edits _ _ := he
  version w h := by
    cases h
    exact hv
  status _ _ := .inr hσ
  failed e h := by cases h
  failedArgs e h := by cases h

theorem completed (hs : (d.txn.schema? d.job.schemaId).isSome) (hσ : σ = .done ∨ σ = .rollbackDone) :
    Framed d (d.completed s t σ st) := finished (Txn.edits_written _ hs _) rfl hσ

theorem moved {txn : Txn} {v : Int} {job : Job} (he : d.txn.Edits txn) (hv : v = txn.schemaVersion)
    (hj : d.job.Follows job) (hσ : job.status = d.job.status) : Framed d (.ok v, ⟨txn, job⟩) where
  follows := hj
  edits _ _ := he
  version w h := by
    cases h
    exact hv
  status _ _ := .inl hσ
  failed e h := by cases h
  failedArgs e h := by cases h

theorem advanced (hs : (d.txn.schema? d.job.schemaId).isSome) : Framed d (d.advanced s t st) :=
  moved (Txn.edits_written _ hs _) rfl ⟨rfl, rfl, rfl, rfl, rfl, rfl, .inl rfl⟩ rfl

theorem failure {e : Trouble} {txn : Txn}
    (hσ : σ = d.job.status ∨ σ = .rollingBack ∧ d.job.stage ≠ d.job.args.kind.initial ∨
      σ = .cancelled ∧ d.IsVain) :
    Framed d (.error e, ⟨txn, { d.job with status := σ }⟩) where
  follows := ⟨rfl, rfl, rfl, rfl, rfl, rfl, .inl rfl⟩
  edits v h := by cases h
  version v h := by cases h
  status v h := by cases h
  failed _ _ := ⟨rfl, hσ⟩
  failedArgs _ _ := rfl

theorem refused (f : Fault) (h : d.IsVain) : Framed d (d.refused f) :=
  failure (.inr (.inr ⟨rfl, h⟩))

theorem kept (e : Trouble) (txn : Txn) : Framed d (.error e, { d with txn }) := failure (.inl rfl)

end Framed

section Frame

variable {P : Surroundings → Prop} {s : Surroundings} {d : Draft} {r : Result} {table : Table}
  {check : Bool} {newId : Int} {name : String} {fk : ForeignKey}

theorem Hidden.framed {h : Hiding} (hd : d.Holds table) (hi : d.job.args.kind.initial = .live)
    (hlast : Framed d (h.last.run d)) (hr : Hidden s table h d r) : Framed d r := by
  cases hr with
  | kept hb hl => exact .ended _ (.inr rfl)
  | shown hb hl => exact .completed hd.schema (.inr rfl)
  | refused hb hs f hc => exact .refused f (.inl (hs.trans hi.symm))
  | hidden hb hs hc => exact .advanced hd.schema
  | closed hb hs => exact .advanced hd.schema
  | gone hb hs => exact hlast
  | stuck hb hs => exact .kept _ _

theorem Created.framed (ha : d.job.args = .createTable table check)
    (hr : Created s table check d r) : Framed d r := by
  have hi : d.job.args.kind.initial = .absent := ha ▸ rfl
  cases hr with
  | undone hb => exact .ended _ (.inr rfl)
  | refused hb hs f => exact .refused f (.inl (hs.trans hi.symm))
  | failed hb hs e => exact .kept _ _
  | created hb hs hschema =>
    refine Framed.finished ?_ ?_ (.inl rfl)
    · apply (Txn.edits_added d.txn hschema _).trans
      apply Txn.edits_written
      exact hschema
    · rfl
  | stuck hb hs => exact .kept _ _

theorem Dropped.framed (ha : d.job.args = .dropTable check) (hr : Dropped s check d r) :
    Framed d r := by
  cases hr with
  | missing hm f =>
    apply Framed.refused f
    right
    intro t p h
    rw [h.table] at hm
    cases hm
  | held table hd r h =>
    apply h.framed hd (ha ▸ rfl)
    rw [run_last_ofTable hd]
    refine Framed.finished ?_ ?_ (.inl rfl)
    · exact (Txn.edits_cleared _ _ _).trans (Txn.edits_newVersion _)
    · rfl

theorem isVain_of_not_live
    (hm : ∀ t, d.txn.table? d.job.schemaId d.job.tableId = some t → t.stage ≠ .live)
    (hp : ∀ t, d.job.part? t ≠ some .table) : d.IsVain := by
  right
  intro t p h
  cases h.isOpen with
  | inl hl => exact hm t h.table hl
  | inr ht => exact hp t (ht ▸ h.part)

theorem Truncated.framed (ha : d.job.args = .truncateTable newId check)
    (hr : Truncated s newId check d r) : Framed d r := by
  have hi : d.job.args.kind.initial = .absent := ha ▸ rfl
  cases hr with
  | missing hm f =>
    apply Framed.refused f (isVain_of_not_live hm _)
    intro t
    simp [Change.Job.part?, ha]
  | undone hb table => exact .ended _ (.inr rfl)
  | refused hb hs f => exact .refused f (.inl (hs.trans hi.symm))
  | failed hb hs e t => exact .kept _ _
  | truncated hb hs table hd =>
    refine Framed.finished ?_ ?_ (.inl rfl)
    · apply (Txn.edits_cleared d.txn d.job.schemaId table.id).trans
      apply (Txn.edits_added (d.txn.cleared d.job.schemaId table.id) hd.schema
        { table with id := newId }).trans
      apply Txn.edits_written
      exact hd.schema
    · rfl
  | stuck hb hs => exact .kept _ _

theorem Unbound.framed (ha : d.job.args = .dropForeignKey name) (hr : Unbound s name d r) :
    Framed d r := by
  have hi : d.job.args.kind.initial = .live := ha ▸ rfl
  cases hr with
  | missing hm f =>
    apply Framed.refused f (isVain_of_not_live hm _)
    intro t
    simp [Change.Job.part?, ha]
  | undone hb table => exact .ended _ (.inr rfl)
  | unknown hb hs f => exact .refused f (.inl (hs.trans hi.symm))
  | unbound hb hs table hd hl pos hpos => exact .completed hd.schema (.inl rfl)
  | stuck hb hs => exact .kept _ _

theorem Bound.framed (ha : d.job.args = .addForeignKey fk check) (hr : Bound P fk check d r) :
    Framed d r := by
  have hi : d.job.args.kind.initial = .absent := ha ▸ rfl
  cases hr with
  | missing hm f =>
    apply Framed.refused f (isVain_of_not_live hm _)
    intro t
    simp [Change.Job.part?, ha]
  | undone hb s table hd hl pos hpos => exact .completed hd.schema (.inr rfl)
  | unneeded hb table hd hpos => exact .ended _ (.inr rfl)
  | refused hb hs f => exact .refused f (.inl (hs.trans hi.symm))
  | resumed hb hs table hd old ho =>
    exact .moved (.refl _) rfl ⟨rfl, rfl, rfl, rfl, rfl, rfl, .inl rfl⟩ rfl
  | staged hb hs s hp table hd hl hcheck =>
    refine .moved (Txn.edits_written _ hd.schema _) rfl ⟨rfl, rfl, rfl, rfl, rfl, rfl, ?_⟩ rfl
    exact .inr ⟨fk, check, _, _, ha, rfl⟩
  | confirmed hb hs s table hd hl pos hpos => exact .advanced hd.schema
  | turned hb hs e =>
    refine .failure (.inr (.inl ⟨rfl, ?_⟩))
    rw [hs, hi]
    decide
  | bound hb hs s table hd hl pos hpos => exact .completed hd.schema (.inl rfl)
  | failed hb e => exact .kept _ _

theorem Withdrawn.framed {target? : Table → Option Hiding} (mk : Nat → Part)
    (pos? : Table → Option Nat) (hi : d.job.args.kind.initial = .live)
    (hpart : ∀ t, d.job.part? t = (pos? t).map mk) (hmk : ∀ pos, mk pos ≠ .table)
    (htarget : ∀ t, target? t = none → pos? t = none)
    (hlast : ∀ t h, d.Holds t → target? t = some h → Framed d (h.last.run d))
    (hr : Withdrawn s target? d r) : Framed d r := by
  cases hr with
  | missing hm f =>
    apply Framed.refused f
    right
    intro t p h
    have hp := h.part
    rw [hpart] at hp
    obtain ⟨pos, hpos, rfl⟩ := Option.map_eq_some_iff.1 hp
    cases h.isOpen with
    | inl hl =>
      rw [htarget t (hm t h.table hl)] at hpos
      cases hpos
    | inr ht => exact hmk pos ht
  | held table hd hl h ht r hr => exact hr.framed hd hi (hlast table h hd ht)

theorem Took.framed (h : Took P s d r) : Framed d r := by
  unfold Took at h
  split at h
  · next ha => exact Created.framed ha h
  · next ha => exact Dropped.framed ha h
  · next ha => exact Truncated.framed ha h
  · next ha => exact Bound.framed ha h
  · next ha => exact Unbound.framed ha h
  · next name ha =>
    apply Withdrawn.framed .index (·.indexPosition? name) (ha ▸ rfl) _ _ _ _ h
    · intro t
      simp [Change.Job.part?, ha]
    · intro pos hpos
      cases hpos
    · intro t ht
      exact Option.map_eq_none_iff.1 ht
    · intro t h hd ht
      obtain ⟨pos, _, rfl⟩ := Option.map_eq_some_iff.1 ht
      rw [run_last_ofIndex hd]
      exact .completed hd.schema (.inl rfl)
  · next name ha =>
    apply Withdrawn.framed .column (·.columnPosition? name) (ha ▸ rfl) _ _ _ _ h
    · intro t
      simp [Change.Job.part?, ha]
    · intro pos hpos
      cases hpos
    · intro t ht
      exact Option.map_eq_none_iff.1 ht
    · intro t h hd ht
      obtain ⟨pos, _, rfl⟩ := Option.map_eq_some_iff.1 ht
      rw [run_last_ofColumn hd]
      exact .completed hd.schema (.inl rfl)

end Frame

section Blame

variable {j : Job} {t : Trouble}

theorem follows_countFailure (limit : Nat) (j : Job) (t : Trouble) :
    j.Follows (countFailure limit j t) := by
  unfold countFailure
  split <;> exact ⟨rfl, rfl, rfl, rfl, rfl, rfl, .inl rfl⟩

theorem stage_countFailure (limit : Nat) (j : Job) (t : Trouble) :
    (countFailure limit j t).stage = j.stage := by
  unfold countFailure
  split <;> rfl

theorem follows_withError (j : Job) (f : Fault) : j.Follows (withError j f) :=
  ⟨rfl, rfl, rfl, rfl, rfl, rfl, .inl rfl⟩

theorem follows_blame (limit : Nat) (j : Job) (t : Trouble) : j.Follows (blame limit j t) := by
  unfold blame
  split
  · exact follows_withError _ _
  · exact follows_withError _ _
  · exact (follows_countFailure limit j t).trans (follows_withError _ _)

theorem stage_blame (limit : Nat) (j : Job) (t : Trouble) : (blame limit j t).stage = j.stage := by
  unfold blame
  split
  · rfl
  · rfl
  · exact stage_countFailure limit j t

theorem args_blame (limit : Nat) (j : Job) (t : Trouble) : (blame limit j t).args = j.args := by
  unfold blame
  split
  · rfl
  · rfl
  · unfold countFailure
    split <;> rfl

theorem status_blame (limit : Nat) (j : Job) (t : Trouble) :
    (blame limit j t).status = j.status ∨ (blame limit j t).status = j.turnBack.status := by
  unfold blame
  split
  · exact .inl rfl
  · exact .inl rfl
  · unfold countFailure
    split
    · exact .inr rfl
    · exact .inl rfl

theorem status_blame_of_hopeless (limit : Nat) (h : j.status ≠ .cancelled) (h' : j.status ≠ .rollingBack)
    (ht : isHopeless t) : (blame limit j t).status = j.turnBack.status := by
  unfold blame
  split
  · next hs => exact absurd hs h
  · next hs => exact absurd hs h'
  · unfold countFailure
    rw [if_pos (.inl ht)]
    rfl

theorem status_turnBack (j : Job) :
    j.turnBack.status = .cancelled ∧ j.stage = j.kind.initial ∨
      j.turnBack.status = .rollingBack := by
  unfold Change.Job.turnBack
  dsimp only
  split
  · next h => exact .inl ⟨rfl, h⟩
  · exact .inr rfl

end Blame

section Commit

variable {source : Stage} {v : Int} {d : Draft}

theorem settle_of_allowed (limit : Nat) (s : Ledger.Store)
    (ho : d.job.kind.allows source d.job.stage d.job.status = true) :
    settle limit s true source (.ok v, d) = some ("commit step", { d with
      job := { d.job with
        schemaVersion := v
        error := if d.job.isDone then none else d.job.error } }) := by
  unfold settle guardOrder
  dsimp only
  rw [if_pos ho]
  rfl

theorem settle_of_disorder (limit : Nat) (s : Ledger.Store)
    (ho : d.job.kind.allows source d.job.stage d.job.status = false) :
    settle limit s true source (.ok v, d) = some ("persist failed job",
      ⟨s.begin, blame limit { d.job with stage := source }
        (.ofFault (.invalidState s!"{d.job.kind.display} job" d.job.stage))⟩) := by
  unfold settle guardOrder
  dsimp only
  rw [ho, if_neg Bool.false_ne_true]
  rfl

theorem settle_of_failure (limit : Nat) (s : Ledger.Store) (source : Stage) {e : Trouble}
    (he : e.isTransient = false) :
    settle limit s true source (.error e, d) =
      some ("persist failed job", ⟨s.begin, blame limit d.job e⟩) := by
  unfold settle guardOrder
  dsimp only
  rw [he, if_neg Bool.false_ne_true]

end Commit

section Settle

variable {limit : Nat} {P : Surroundings → Prop} {base : Snapshot} {first j : Job} {W : Snapshot}

/--
What a step leaves of the tables and of its job, in surroundings of a kind: the step succeeded, or
it failed and its job alone is kept.
-/
inductive Outcome (limit : Nat) (P : Surroundings → Prop) (base : Snapshot) (first : Job) :
    Snapshot → Job → Prop where
  | success (s : Surroundings) (hs : P s) (v : Int) (d : Draft)
      (h : Took P s ⟨.begin base, first.started⟩ (.ok v, d))
      (ho : first.kind.allows first.stage d.job.stage d.job.status = true)
      (error : Option Fault) :
    Outcome limit P base first d.txn.working { d.job with schemaVersion := v, error }
  | failure (s : Surroundings) (hs : P s) (e : Trouble) (d : Draft)
      (h : Took P s ⟨.begin base, first.started⟩ (.error e, d)) :
    Outcome limit P base first base (blame limit d.job e)
  | disorder (s : Surroundings) (hs : P s) (v : Int) (d : Draft)
      (h : Took P s ⟨.begin base, first.started⟩ (.ok v, d))
      (ho : first.kind.allows first.stage d.job.stage d.job.status = false) (e : Trouble)
      (he : isHopeless e) :
    Outcome limit P base first base (blame limit { d.job with stage := first.stage } e)

theorem Took.follows {s : Surroundings} {r : Result}
    (h : Took P s ⟨.begin base, first.started⟩ r) : first.Follows r.2.job :=
  (Change.Job.follows_started first).trans h.framed.follows

theorem Outcome.follows (h : Outcome limit P base first W j) : first.Follows j := by
  cases h with
  | success s hs v d h ho error =>
    have hf := h.follows
    exact ⟨hf.id, hf.kind, hf.schemaId, hf.tableId, hf.schemaName, hf.tableName, hf.args⟩
  | failure s hs e d h => exact h.follows.trans (follows_blame _ _ _)
  | disorder s hs v d h ho e he =>
    have hf := h.follows
    have hstage : first.Follows { d.job with stage := first.stage } :=
      ⟨hf.id, hf.kind, hf.schemaId, hf.tableId, hf.schemaName, hf.tableName, hf.args⟩
    exact hstage.trans (follows_blame _ _ _)

theorem Outcome.edits (h : Outcome limit P base first W j) : (Txn.begin base).Edits ⟨base, W⟩ := by
  cases h with
  | success s hs v d h ho error =>
    have he := h.framed.edits v rfl
    exact ⟨rfl, he.lastId, he.jobs, he.history, he.schemas, he.schemaVersion, he.keyed, he.places⟩
  | failure => exact .refl _
  | disorder => exact .refl _

theorem settle_outcome {store : Ledger.Store} {owned : Bool} {r : Result} {what : String} {d : Draft}
    {s : Surroundings} (hs : P s) (ht : Took P s ⟨.begin base, first.started⟩ r)
    (h : settle limit store owned first.stage r = some (what, d)) :
    ∃ W, Outcome limit P base first W d.job ∧
      (d.txn = ⟨base, W⟩ ∨ d.txn = store.begin ∧ W = base) := by
  obtain ⟨result, left⟩ := r
  unfold settle guardOrder at h
  cases result with
  | ok v =>
    dsimp only at h
    cases ho : left.job.kind.allows first.stage left.job.stage left.job.status with
    | true =>
      rw [ho, if_pos rfl] at h
      dsimp only at h
      split at h
      · cases h
        have hb : left.txn.base = base := (ht.framed.edits v rfl).base
        have hk : left.job.kind = first.kind := ht.follows.kind
        exact ⟨_, .success s hs v left ht (hk ▸ ho) _, .inl (hb ▸ rfl)⟩
      · cases h
    | false =>
      rw [ho, if_neg Bool.false_ne_true] at h
      dsimp only at h
      split at h
      · cases h
      · cases h
        have hk : left.job.kind = first.kind := ht.follows.kind
        exact ⟨_, .disorder s hs v left ht (hk ▸ ho) _ rfl, .inr ⟨rfl, rfl⟩⟩
  | error e =>
    dsimp only at h
    split at h
    · cases h
    · cases h
      exact ⟨_, .failure s hs e left ht, .inr ⟨rfl, rfl⟩⟩

end Settle

end Step

end Steward
