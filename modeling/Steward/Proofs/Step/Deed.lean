import Steward.Proofs.Step.Undo

/-!
This module contains the deeds of steps: all that a step of any kind can do to the tables and tell its
job. A step touches nothing but the table of its job, and within that little else than the part that
it is about.
-/

namespace Steward

open Catalog (Column Fault ForeignKey Index Stage Table)
open Change (Args Job Kind Status Trouble)
open Ledger (Snapshot Txn)

namespace Catalog

def Column.unplaced (c : Column) : Column := { c with offset := 0 }

def Index.unplaced (ix : Index) : Index :=
  { ix with columns := ix.columns.map fun ic => { ic with offset := 0 } }

def Index.without (ix : Index) (name : String) : Index :=
  { ix with columns := ix.columns.filter fun ic => !Text.same ic.name name }

/--
`t'` is `t` without one column. The other columns keep their order, those in the indices as well, and
an index that has no columns is not kept. Where columns stand is left open.
-/
structure Table.Loses (t : Table) (pos : Nat) (c : Column) (t' : Table) : Prop where
  column : t.columns[pos]? = some c
  columns : t'.columns.map (·.unplaced) = (t.columns.eraseIdx pos).map (·.unplaced)
  indices : t'.indices.map (·.unplaced) =
    ((t.indices.map (·.without c.name)).filter fun ix => !ix.columns.isEmpty).map (·.unplaced)
  handle : t'.pkIsHandle = if c.primaryKey then false else t.pkIsHandle
  rest : { t' with columns := t.columns, indices := t.indices, pkIsHandle := t.pkIsHandle } = t

theorem Index.unplaced_withOffsets (ix : Index) (columns : List Column) :
    (ix.withOffsets columns).unplaced = ix.unplaced := by
  unfold withOffsets unplaced
  dsimp only
  rw [List.map_map]
  congr 1
  apply List.map_congr_left
  intro ic _
  dsimp only [Function.comp]
  split <;> rfl

theorem Table.loses_dropColumn {t : Table} {pos : Nat} {c : Column} (h : t.columns[pos]? = some c) :
    t.Loses pos c (t.dropColumn pos) := by
  unfold dropColumn
  rw [h]
  dsimp only [renumber]
  refine ⟨h, ?_, ?_, rfl, rfl⟩
  · apply List.ext_getElem?
    intro i
    simp only [List.getElem?_map, List.getElem?_mapIdx, Option.map_map]
    rfl
  · rw [List.map_map]
    apply List.map_congr_left
    intro ix _
    exact Index.unplaced_withOffsets _ _

end Catalog

namespace Change

/--
What a step of the job may make of its table, apart from the time of the last change.
-/
inductive Job.Touches (j : Job) (t : Table) : Table → Prop where
  | table {check : Bool} (ha : j.args = .dropTable check) (stage : Stage) :
    Touches j t { t with stage }
  | index {name : String} {pos : Nat} (ha : j.args = .dropIndex name)
      (h : t.indexPosition? name = some pos) (stage : Stage) :
    Touches j t { t with indices := t.indices.modify pos fun ix => { ix with stage } }
  | lostIndex {name : String} {pos : Nat} (ha : j.args = .dropIndex name)
      (h : t.indexPosition? name = some pos) :
    Touches j t { t with indices := t.indices.eraseIdx pos }
  | column {name : String} {pos : Nat} (ha : j.args = .dropColumn name)
      (h : t.columnPosition? name = some pos) (stage : Stage) :
    Touches j t { t with columns := t.columns.modify pos fun c => { c with stage } }
  | lostColumn {name : String} {pos : Nat} {c : Column} {t' : Table} (ha : j.args = .dropColumn name)
      (h : t.columnPosition? name = some pos) (hl : t.Loses pos c t') :
    Touches j t t'
  | gotKey {fk : ForeignKey} {check : Bool} (ha : j.args = .addForeignKey fk check) (id : Int)
      (stage : Stage) :
    Touches j t { t with
      maxForeignKeyId := id, foreignKeys := t.foreignKeys ++ [{ fk with id, stage }] }
  | key {fk : ForeignKey} {check : Bool} {pos : Nat} (ha : j.args = .addForeignKey fk check)
      (h : t.foreignKeyPosition? fk.name = some pos) (stage : Stage) :
    Touches j t { t with foreignKeys := t.foreignKeys.modify pos fun k => { k with stage } }
  | lostKey {name : String} {pos : Nat}
      (ha : j.args = .dropForeignKey name ∨
        ∃ fk check, j.args = .addForeignKey fk check ∧ fk.name = name)
      (h : t.foreignKeyPosition? name = some pos) :
    Touches j t { t with foreignKeys := t.foreignKeys.eraseIdx pos }

variable {j j' : Job} {t t' : Table}

theorem Job.Touches.congr (h : j.Touches t t') (ha : j'.args = j.args) : j'.Touches t t' := by
  cases h with
  | table hj stage => exact .table (ha.trans hj) stage
  | index hj h stage => exact .index (ha.trans hj) h stage
  | lostIndex hj h => exact .lostIndex (ha.trans hj) h
  | column hj h stage => exact .column (ha.trans hj) h stage
  | lostColumn hj h hl => exact .lostColumn (ha.trans hj) h hl
  | gotKey hj id stage => exact .gotKey (ha.trans hj) id stage
  | key hj h stage => exact .key (ha.trans hj) h stage
  | lostKey hj h => exact .lostKey (by rwa [ha]) h

theorem Job.Touches.id (h : j.Touches t t') : t'.id = t.id := by
  cases h with
  | lostColumn ha h hl =>
    have hrest := congrArg Table.id hl.rest
    exact hrest
  | _ => rfl

end Change

namespace Step

variable {P : Surroundings → Prop} {s : Surroundings} {d : Draft} {r : Result} {table : Table}
  {check : Bool} {newId : Int} {name : String} {fk : ForeignKey}

inductive Deed (d : Draft) : Result → Prop where
  | ended (hb : d.job.isRollingBack = true) (st : Stage) (o : Option Table) :
    Deed d (d.ended .rollbackDone st o)
  | resumed (hb : d.job.isRollingBack = false) (st : Stage) :
    Deed d (.ok d.txn.schemaVersion, { d with job := { d.job with stage := st } })
  | moved (hb : d.job.isRollingBack = false) (s : Surroundings) (t t' : Table) (hd : d.Holds t)
      (h : d.job.Touches t t') (args : Args) (st : Stage) :
    Deed d (.ok (d.txn.schemaVersion + 1),
      { d.write s t' with job := { d.job with args, stage := st } })
  | completed (s : Surroundings) (t t' : Table) (hd : d.Holds t) (h : d.job.Touches t t')
      (st : Stage) :
    Deed d (d.completed s t' (if d.job.isRollingBack then .rollbackDone else .done) st)
  | created (hb : d.job.isRollingBack = false) (s : Surroundings) (table : Table) (check : Bool)
      (ha : d.job.args = .createTable table check)
      (hfree : d.txn.table? d.job.schemaId d.job.tableId = none) :
    Deed d ({ d with txn := d.txn.added d.job.schemaId (createdTable d.job table) }.completed s
      (createdTable d.job table) .done .live)
  | dropped (hb : d.job.isRollingBack = false) (check : Bool) (ha : d.job.args = .dropTable check)
      (t : Table) (hd : d.Holds t) :
    Deed d (d.dropped t)
  | truncated (hb : d.job.isRollingBack = false) (s : Surroundings) (newId : Int) (check : Bool)
      (ha : d.job.args = .truncateTable newId check) (t : Table) (hd : d.Holds t)
      (hfree : newId ≠ t.id → d.txn.table? d.job.schemaId newId = none) :
    Deed d ({ d with
      txn := (d.txn.cleared d.job.schemaId t.id).added d.job.schemaId
        { t with id := newId } }.completed s { t with id := newId } .done .live)
  | refused (f : Fault) : Deed d (d.refused f)
  | failed (hb : d.job.isRollingBack = false) (e : Trouble) (txn : Txn) (σ : Status)
      (hσ : σ = d.job.status ∨ σ = .rollingBack) :
    Deed d (.error e, ⟨txn, { d.job with status := σ }⟩)

section Deeds

theorem Deed.kept (hb : d.job.isRollingBack = false) (e : Trouble) (txn : Txn) :
    Deed d (.error e, { d with txn }) := .failed hb e txn d.job.status (.inl rfl)

theorem Deed.advanced {t t' : Table} (hb : d.job.isRollingBack = false) (hd : d.Holds t)
    (h : d.job.Touches t t') (st : Stage) : Deed d (d.advanced s t' st) :=
  .moved hb s t t' hd h d.job.args st

theorem Deed.done {t t' : Table} (hb : d.job.isRollingBack = false) (hd : d.Holds t)
    (h : d.job.Touches t t') (st : Stage) : Deed d (d.completed s t' .done st) := by
  have hdeed := Deed.completed s t t' hd h st
  rw [hb] at hdeed
  exact hdeed

theorem Deed.undone {t t' : Table} (hb : d.job.isRollingBack = true) (hd : d.Holds t)
    (h : d.job.Touches t t') (st : Stage) : Deed d (d.completed s t' .rollbackDone st) := by
  have hdeed := Deed.completed s t t' hd h st
  rw [hb] at hdeed
  exact hdeed

theorem Hidden.deed {h : Hiding} (hd : d.Holds table)
    (ht : ∀ st, d.job.Touches table (h.withStage st))
    (hlast : d.job.isRollingBack = false → Deed d (h.last.run d)) (hr : Hidden s table h d r) :
    Deed d r := by
  cases hr with
  | kept hb => exact .ended hb _ _
  | shown hb => exact .undone hb hd (ht _) _
  | refused => exact .refused _
  | hidden hb => exact .advanced hb hd (ht _) _
  | closed hb => exact .advanced hb hd (ht _) _
  | gone hb => exact hlast hb
  | stuck hb => exact .kept hb _ _

theorem Bound.deed (ha : d.job.args = .addForeignKey fk check) (hr : Bound P fk check d r) :
    Deed d r := by
  cases hr with
  | missing => exact .refused _
  | undone hb s t hd hl pos hpos => exact .undone hb hd (.lostKey (.inr ⟨fk, check, ha, rfl⟩) hpos) _
  | unneeded hb => exact .ended hb _ _
  | refused => exact .refused _
  | resumed hb => exact .resumed hb _
  | staged hb hs s hp t hd => exact .moved hb s t _ hd (.gotKey ha _ _) _ _
  | confirmed hb hs s t hd hl pos hpos => exact .advanced hb hd (.key ha hpos.position _) _
  | turned hb hs e => exact .failed hb e _ _ (.inr rfl)
  | bound hb hs s t hd hl pos hpos => exact .done hb hd (.key ha hpos.position _) _
  | failed hb => exact .kept hb _ _

theorem Took.deed (h : Took P s d r) : Deed d r := by
  unfold Took at h
  split at h
  · next table check ha =>
    cases h with
    | undone hb => exact .ended hb _ _
    | refused => exact .refused _
    | failed hb => exact .kept hb _ _
    | created hb hs hschema hname hcheck hfree => exact .created hb s table check ha hfree
    | stuck hb => exact .kept hb _ _
  · next check ha =>
    cases h with
    | missing => exact .refused _
    | held t hd r h =>
      apply h.deed hd fun st => .table ha st
      intro hb
      rw [run_last_ofTable hd]
      exact .dropped hb check ha t hd
  · next newId check ha =>
    cases h with
    | missing => exact .refused _
    | undone hb => exact .ended hb _ _
    | refused => exact .refused _
    | failed hb => exact .kept hb _ _
    | truncated hb hs t hd hl hcheck hfree => exact .truncated hb s newId check ha t hd hfree
    | stuck hb => exact .kept hb _ _
  · next ha => exact Bound.deed ha h
  · next name ha =>
    cases h with
    | missing => exact .refused _
    | undone hb => exact .ended hb _ _
    | unknown => exact .refused _
    | unbound hb hs t hd hl pos hpos => exact .done hb hd (.lostKey (.inl ha) hpos) _
    | stuck hb => exact .kept hb _ _
  · next name ha =>
    cases h with
    | missing => exact .refused _
    | held t hd hl h ht r hr =>
      obtain ⟨pos, hpos, rfl⟩ := Option.map_eq_some_iff.1 ht
      apply hr.deed hd fun st => .index ha hpos st
      intro hb
      rw [run_last_ofIndex hd]
      exact .done hb hd (.lostIndex ha hpos) _
  · next name ha =>
    cases h with
    | missing => exact .refused _
    | held t hd hl h ht r hr =>
      obtain ⟨pos, hpos, rfl⟩ := Option.map_eq_some_iff.1 ht
      apply hr.deed hd fun st => .column ha hpos st
      intro hb
      rw [run_last_ofColumn hd]
      have hlt := (List.findIdx?_eq_some_iff_findIdx_eq.1 hpos).1
      exact .done hb hd (.lostColumn ha hpos
        (Table.loses_dropColumn (List.getElem?_eq_getElem hlt))) _

end Deeds

section Reports

theorem Deed.error (h : Deed d r) : r.2.job.error = d.job.error := by
  cases h <;> rfl

theorem Deed.finished (h : Deed d r) (hf : d.job.isFinished = false) {v : Int} (hv : r.1 = .ok v)
    (hfin : r.2.job.isFinished = true) : ∃ o, r.2.job.finished = some ⟨v, o⟩ := by
  cases h with
  | resumed => exact absurd (hf.symm.trans hfin) Bool.false_ne_true
  | moved => exact absurd (hf.symm.trans hfin) Bool.false_ne_true
  | refused => cases hv
  | failed => cases hv
  | _ =>
    cases hv
    exact ⟨_, rfl⟩

theorem Deed.version (h : Deed d r) (hf : d.job.isFinished = false) {v : Int} (hv : r.1 = .ok v)
    (hdone : r.2.job.status = .done) : v = d.txn.schemaVersion + 1 := by
  have hne : d.job.status ≠ .done := by
    unfold Job.isFinished at hf
    intro hs
    rw [hs] at hf
    cases hf
  cases h with
  | ended => cases hdone
  | resumed => exact absurd hdone hne
  | refused => cases hv
  | failed => cases hv
  | _ =>
    cases hv
    rfl

theorem Deed.eq_refused (h : Deed d r) (hb : d.job.isRollingBack = true) {e : Trouble}
    (he : r.1 = .error e) : ∃ f, r = d.refused f := by
  cases h with
  | refused f => exact ⟨f, rfl⟩
  | failed hb' => cases hb.symm.trans hb'
  | _ => cases he

end Reports

section Reach

inductive Reshaped (j : Job) (f f' : Int → Int → Option Table) : Prop where
  | same (hf : f' = f)
  | touched (t t' : Table) (stamp : Nat) (ht : f j.schemaId j.tableId = some t)
      (h : j.Touches t t') (hf : Puts f j.schemaId j.tableId { t' with updated := stamp } f')
  | created (table : Table) (check : Bool) (stamp : Nat) (ha : j.args = .createTable table check)
      (hfree : f j.schemaId j.tableId = none)
      (hf : Puts f j.schemaId j.tableId { createdTable j table with updated := stamp } f')
  | dropped (check : Bool) (ha : j.args = .dropTable check)
      (hf : ∀ a b, f' a b = if a = j.schemaId ∧ b = j.tableId then none else f a b)
  | truncated (newId : Int) (check : Bool) (t : Table) (stamp : Nat)
      (ha : j.args = .truncateTable newId check) (ht : f j.schemaId j.tableId = some t)
      (hfree : newId ≠ j.tableId → f j.schemaId newId = none)
      (hf : ∀ a b, f' a b =
        if a = j.schemaId ∧ b = newId then some { t with id := newId, updated := stamp }
        else if a = j.schemaId ∧ b = j.tableId then none else f a b)

theorem Reshaped.follow {j j' : Job} {f f' : Int → Int → Option Table} (h : Reshaped j f f')
    (hj : j'.Follows j) (ha : j'.args = j.args) : Reshaped j' f f' := by
  have hs := hj.schemaId
  have hid := hj.tableId
  cases h with
  | same hf => exact .same hf
  | touched t t' stamp ht h hf =>
    rw [hs, hid] at ht hf
    exact .touched t t' stamp ht (h.congr ha) hf
  | created table check stamp hj hfree hf =>
    have htable : createdTable j table = createdTable j' table := by
      unfold createdTable
      rw [hid]
    rw [hs, hid] at hfree hf
    exact .created table check stamp (ha.trans hj) hfree (htable ▸ hf)
  | dropped check hj hf =>
    rw [hs, hid] at hf
    exact .dropped check (ha.trans hj) hf
  | truncated newId check t stamp hj ht hfree hf =>
    rw [hs] at hfree ht hf
    rw [hid] at hfree ht hf
    exact .truncated newId check t stamp (ha.trans hj) ht hfree hf

def Reaches (j : Job) (a b : Int) : Prop :=
  a = j.schemaId ∧ (b = j.tableId ∨ ∃ check, j.args = .truncateTable b check)

theorem Reshaped.others {j : Job} {f f' : Int → Int → Option Table} (h : Reshaped j f f') {a b : Int}
    (hab : ¬ Reaches j a b) : f' a b = f a b := by
  have hown : ¬ (a = j.schemaId ∧ b = j.tableId) := fun h => hab ⟨h.1, .inl h.2⟩
  cases h with
  | same hf => rw [hf]
  | touched t t' stamp ht h hf => rw [hf, if_neg hown]
  | created table check stamp ha hfree hf => rw [hf, if_neg hown]
  | dropped check ha hf => rw [hf, if_neg hown]
  | truncated newId check t stamp ha ht hfree hf =>
    rw [hf, if_neg, if_neg hown]
    rintro ⟨rfl, rfl⟩
    exact hab ⟨rfl, .inr ⟨check, ha⟩⟩

theorem Deed.reshaped (h : Deed d r) {v : Int} (hv : r.1 = .ok v) :
    Reshaped d.job d.txn.table? r.2.txn.table? ∧
      r.2.txn.working.catalog.jobTablesVersion = d.txn.working.catalog.jobTablesVersion := by
  cases h with
  | ended => exact ⟨.same rfl, rfl⟩
  | resumed => exact ⟨.same rfl, rfl⟩
  | moved hb s t t' hd h =>
    exact ⟨.touched t t' s.stamp hd.table h (puts_write (h.id.trans hd.id)), rfl⟩
  | completed s t t' hd h =>
    exact ⟨.touched t t' s.stamp hd.table h (puts_write (h.id.trans hd.id)), rfl⟩
  | created hb s table check ha hfree =>
    have hadded : Puts d.txn.table? d.job.schemaId d.job.tableId (createdTable d.job table)
        (d.txn.added d.job.schemaId (createdTable d.job table)).table? := Txn.table?_added _ _ _
    exact ⟨.created table check s.stamp ha hfree (hadded.trans (puts_write rfl)), rfl⟩
  | dropped hb check ha t hd =>
    refine ⟨.dropped check ha ?_, rfl⟩
    rw [← hd.id]
    exact Txn.table?_cleared _ _ _
  | truncated hb s newId check ha t hd hfree =>
    rw [hd.id] at hfree
    refine ⟨.truncated newId check t s.stamp ha hd.table hfree ?_, rfl⟩
    intro a b
    refine (Txn.table?_written _ _ _ _ _).trans ?_
    split
    · rfl
    · next hab =>
      refine (Txn.table?_added _ _ _ _ _).trans ((if_neg hab).trans ?_)
      rw [Txn.table?_cleared, hd.id]
  | refused => cases hv
  | failed => cases hv

end Reach

section Settle

variable {all : Bool} {limit : Nat} {base W : Snapshot} {first j : Job}

/--
What the record of a job tells of the step that the job took from `base` to `W`, by the answer of the
handler.
-/
inductive Settled (base W : Snapshot) (first j : Job) : Except Trouble Int → Prop where
  | success (v : Int) (hreshaped : Reshaped first base.table? W.table?)
      (hjobTables : W.catalog.jobTablesVersion = base.catalog.jobTablesVersion)
      (hv : v = W.catalog.schemaVersion) (hj : j.schemaVersion = v)
      (herror : j.error = if j.status = .done then none else first.error)
      (hforward : first.isRollingBack = false → j.status.isBackward = false)
      (hfinished : j.isFinished = true → ∃ o, j.finished = some ⟨v, o⟩)
      (hdone : j.status = .done → v = base.catalog.schemaVersion + 1) :
    Settled base W first j (.ok v)
  | failure (t : Trouble) (hW : W = base) (hb : first.isRollingBack = false)
      (herror : j.error = some t.kept) (hdone : j.status ≠ .done)
      (hfinished : j.status = .cancelled → j.finished ≠ none) :
    Settled base W first j (.error t)

theorem started_tells (j : Job) :
    j.started.error = j.error ∧ j.started.args = j.args := by
  unfold Job.started
  split <;> exact ⟨rfl, rfl⟩

theorem blame_tells (limit : Nat) (j : Job) (t : Trouble) :
    (blame limit j t).error = some t.kept ∧
      ((blame limit j t).status = .cancelled → (blame limit j t).finished ≠ none) := by
  have hwith (j : Job) : (withError j t.kept).error = some t.kept ∧
      ((withError j t.kept).status = .cancelled → (withError j t.kept).finished ≠ none) := by
    refine ⟨rfl, ?_⟩
    intro hs
    unfold withError
    dsimp only
    split
    · exact Option.some_ne_none _
    · next h => exact fun hn => h ⟨hs, hn⟩
  unfold blame
  split <;> exact hwith _

theorem Framed.status_blame_ne_done {d left : Draft} {t : Trouble} (h : Framed d (.error t, left))
    (hf : d.job.isFinished = false) (limit : Nat) : (blame limit left.job t).status ≠ .done := by
  cases status_blame limit left.job t with
  | inl hsame =>
    rw [hsame]
    rcases (h.failed t rfl).2 with hs | ⟨hs, -⟩ | ⟨hs, -⟩ <;> rw [show left.job.status = _ from hs]
    · intro hdone
      unfold Job.isFinished at hf
      rw [hdone] at hf
      cases hf
    · exact nofun
    · exact nofun
  | inr hturned =>
    rw [hturned]
    unfold Change.Job.turnBack
    dsimp only
    split <;> exact nofun

theorem Took.not_error_of_rollingBack {e : Trouble} (h : Took P s d r)
    (hk : d.job.kind = d.job.args.kind) (hj : Agrees all d.txn.table? d.job)
    (hi : d.job.stage ∈ d.job.kind.intermediate) (hb : d.job.isRollingBack = true) :
    r.1 ≠ .error e := by
  intro he
  obtain ⟨f, rfl⟩ := h.deed.eq_refused hb he
  obtain ⟨t, p, hfinds, -⟩ := (hj.busy (isFinished_of_rollingBack hb) hi).found
  rcases (h.framed.failed _ rfl).2 with hsame | ⟨hback, -⟩ | ⟨-, hvain⟩
  · exact absurd (hsame.trans (eq_of_beq hb)) nofun
  · cases hback
  · rcases hvain with hinitial | hlost
    · rw [← hk] at hinitial
      rw [hinitial] at hi
      exact Kind.initial_not_mem_intermediate _ hi
    · exact hlost t p hfinds

theorem settled_of_settle {store : Ledger.Store} {owned : Bool} {what : String} {d : Draft}
    (hs : P s) (h : Took P s ⟨.begin base, first.started⟩ r) (hk : first.kind = first.args.kind)
    (hf : first.isFinished = false) (hj : Agrees all base.table? first) (hc : first.OnCourse)
    (hd : settle limit store owned first.stage r = some (what, d)) :
    ∃ W, Outcome limit P base first W d.job ∧
      (d.txn = ⟨base, W⟩ ∨ d.txn = store.begin ∧ W = base) ∧ Settled base W first d.job r.1 := by
  have hstarted := Change.Job.follows_started first
  have hf' : first.started.isFinished = false := (isFinished_started first).trans hf
  have hb' := Change.Job.isRollingBack_started first
  obtain ⟨herror, hargs⟩ := started_tells first
  have hdeed := h.deed
  have hwalks := h.walks (hstarted.kind_eq hk) (agrees_started hj)
  have hinorder := h.guardOrder_eq hk hf hj
  unfold settle at hd
  rw [hinorder] at hd
  obtain ⟨result, left⟩ := r
  cases result with
  | ok v =>
    dsimp only at hd
    split at hd
    · cases hd
      obtain ⟨hreshaped, hjobTables⟩ := hdeed.reshaped rfl
      have hkept : left.job.error = first.error := hdeed.error.trans herror
      have hbase : left.txn.base = base := (h.framed.edits v rfl).base
      refine ⟨left.txn.working, .success s hs v left h ?_ _, .inl (hbase ▸ rfl),
        .success v ?_ hjobTables (h.framed.version v rfl) rfl ?_ ?_ ?_ ?_⟩
      · exact h.allowed hk hf hj
      · exact hreshaped.follow hstarted hargs.symm
      · simp [Job.isDone, hkept]
      · intro hb
        have hmoved := hwalks v rfl
        dsimp only at hmoved ⊢
        generalize left.job.status = σ at hmoved ⊢
        generalize left.job.stage = st at hmoved
        cases hmoved with
        | onward =>
          rw [Change.Job.status_started hf hb]
          rfl
        | done => rfl
        | undone hback => exact absurd (hb.symm.trans (hb'.symm.trans hback)) Bool.false_ne_true
      · exact fun hfin => hdeed.finished hf' rfl hfin
      · exact fun hdone => hdeed.version hf' rfl hdone
    · cases hd
  | error t =>
    dsimp only at hd
    split at hd
    · cases hd
    · cases hd
      obtain ⟨hblamed, hfinished⟩ := blame_tells limit left.job t
      refine ⟨base, .failure s hs t left h, .inr ⟨rfl, rfl⟩,
        .failure t rfl ?_ hblamed (h.framed.status_blame_ne_done hf' limit) hfinished⟩
      apply Bool.eq_false_iff.2
      intro hb
      refine h.not_error_of_rollingBack (e := t) (hstarted.kind_eq hk) (agrees_started hj) ?_
        (hb'.trans hb) rfl
      dsimp only
      rw [hstarted.kind, Change.Job.stage_started]
      exact hc.rollingBack hb

end Settle

end Step

end Steward
