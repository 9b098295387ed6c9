import Steward.Proofs.Step.Walk

/-!
This module contains what a job has made of its table while it is on its way, and that a step of a
job that goes back makes of it what it was.
-/

namespace Steward

open Catalog (ForeignKey Part Stage Table)
open Change (Args Job Kind Status Trouble)
open Ledger (Snapshot Txn)

namespace Catalog

structure Table.IsPublic (t : Table) : Prop where
  stage : t.stage = .live
  columns : ∀ c ∈ t.columns, c.stage = .live
  indices : ∀ ix ∈ t.indices, ix.stage = .live
  foreignKeys : ∀ fk ∈ t.foreignKeys, fk.stage = .live

instance (t : Table) : Decidable t.IsPublic :=
  decidable_of_iff (t.stage = .live ∧ (∀ c ∈ t.columns, c.stage = .live) ∧
    (∀ ix ∈ t.indices, ix.stage = .live) ∧ ∀ fk ∈ t.foreignKeys, fk.stage = .live)
    ⟨fun ⟨h, hc, hi, hf⟩ => ⟨h, hc, hi, hf⟩, fun ⟨h, hc, hi, hf⟩ => ⟨h, hc, hi, hf⟩⟩

variable {α : Type} {l : List α}

theorem modify_modify {f g k : α → α} (hk : ∀ a, g (f a) = k a) (l : List α) (pos : Nat) :
    (l.modify pos f).modify pos g = l.modify pos k := by
  rw [List.modify_modify_eq]
  congr 1
  exact funext hk

theorem modify_eq_self {f : α → α} (h : ∀ a ∈ l, f a = a) (pos : Nat) : l.modify pos f = l := by
  apply List.ext_getElem?
  intro i
  rw [List.getElem?_modify]
  cases hi : l[i]? with
  | none => rfl
  | some a =>
    have ha := h a (List.mem_of_getElem? hi)
    simp [ha]

theorem modify_concat (l : List α) (a : α) (f : α → α) :
    (l ++ [a]).modify l.length f = l ++ [f a] := by
  induction l with
  | nil => rfl
  | cons b l ih => simpa using ih

end Catalog

namespace Change.Job

/--
What becomes of a table if a job that makes something in it disappear moves on to a stage.
-/
def restage? (j : Job) (t : Table) : Option (Stage → Table) :=
  match j.args with
  | .dropTable _ => some fun stage => { t with stage }
  | .dropIndex name => (t.indexPosition? name).map (Step.setIndexStage t)
  | .dropColumn name => (t.columnPosition? name).map (Step.setColumnStage t)
  | _ => none

def withKey (t : Table) (fk : ForeignKey) (stage : Stage) : Table :=
  { t with
    maxForeignKeyId := t.maxForeignKeyId + 1
    foreignKeys := t.foreignKeys ++ [{ fk with stage }] }

/--
What a job that is on its way has made of the table, apart from the time of the last change.
-/
inductive Altered (j : Job) (t : Table) : Table → Prop where
  | restaged {f : Stage → Table} (h : j.restage? t = some f) (stamp : Nat) :
    Altered j t { f j.stage with updated := stamp }
  | bound {fk : ForeignKey} {check : Bool} (ha : j.args = .addForeignKey fk check)
      (h : t.foreignKeyPosition? fk.name = none) (stamp : Nat) :
    Altered j t { withKey t fk j.stage with updated := stamp }

/--
The job found the first table in its place, and has made the second one of it so far.
-/
def Shapes (j : Job) (t t' : Table) : Prop :=
  j.stage = j.kind.initial ∧ t' = t ∨ j.stage ∈ j.kind.intermediate ∧ j.Altered t t'

def Shaped (j : Job) (f₀ f : Int → Int → Option Table) : Prop :=
  j.stage = j.kind.initial ∧ f = f₀ ∨
    j.stage ∈ j.kind.intermediate ∧ ∃ t t', f₀ j.schemaId j.tableId = some t ∧ j.Altered t t' ∧
      Step.Puts f₀ j.schemaId j.tableId t' f

/--
The table as a job leaves it that changed it and then undid that.
-/
def restored (j : Job) (t : Table) (stamp : Nat) : Table :=
  { t with
    maxForeignKeyId :=
      if j.kind = .addForeignKey then t.maxForeignKeyId + 1 else t.maxForeignKeyId
    updated := stamp }

variable {j j' : Job} {t t' : Table} {f : Stage → Table} {st : Stage}
  {f₀ f₁ : Int → Int → Option Table}

theorem restage?_eq (h : j'.args = j.args) (t : Table) : j'.restage? t = j.restage? t := by
  unfold restage?
  rw [h]

theorem restored_eq (h : j'.kind = j.kind) : j'.restored = j.restored := by
  unfold restored
  rw [h]

theorem Altered.congr (h : j.Altered t t') (ha : j'.args = j.args) (hs : j'.stage = j.stage) :
    j'.Altered t t' := by
  cases h with
  | restaged h stamp =>
    rw [← hs]
    exact .restaged ((restage?_eq ha t).trans h) stamp
  | bound hargs h stamp =>
    rw [← hs]
    exact .bound (ha.trans hargs) h stamp

theorem Shaped.follow (h : j.Shaped f₀ f₁) (hj : j.Follows j') (ha : j'.args = j.args)
    (hs : j'.stage = j.stage) : j'.Shaped f₀ f₁ := by
  unfold Shaped
  rw [hj.kind, hj.schemaId, hj.tableId, hs]
  refine h.imp_right ?_
  rintro ⟨hi, t, t', ht, hal, hf⟩
  exact ⟨hi, t, t', ht, hal.congr ha hs, hf⟩

theorem Shaped.shapes (h : j.Shaped f₀ f₁) (ht : f₁ j.schemaId j.tableId = some t') :
    ∃ t, f₀ j.schemaId j.tableId = some t ∧ j.Shapes t t' := by
  rcases h with ⟨hs, rfl⟩ | ⟨hi, t, u, ht₀, hal, hf⟩
  · exact ⟨t', ht, .inl ⟨hs, rfl⟩⟩
  · cases ht.symm.trans hf.self
    exact ⟨t, ht₀, .inr ⟨hi, hal⟩⟩

theorem Shaped.puts (h : j.Shaped f₀ f₁) {f₂ : Int → Int → Option Table}
    (hf : Step.Puts f₁ j.schemaId j.tableId t f₂) : Step.Puts f₀ j.schemaId j.tableId t f₂ := by
  rcases h with ⟨-, rfl⟩ | ⟨-, t₀, u, -, -, hu⟩
  · exact hf
  · exact hu.trans hf

theorem kind_of_restage (h : j.restage? t = some f) (hk : j.kind = j.args.kind) :
    j.kind ≠ .addForeignKey ∧ j.kind.initial = .live ∧
      j.kind.intermediate = [.writeOnly, .deleteOnly] := by
  rw [hk]
  unfold restage? at h
  split at h
  · next ha => exact ha ▸ ⟨nofun, rfl, rfl⟩
  · next ha => exact ha ▸ ⟨nofun, rfl, rfl⟩
  · next ha => exact ha ▸ ⟨nofun, rfl, rfl⟩
  · cases h

theorem id_of_restage (h : j.restage? t = some f) (st : Stage) : (f st).id = t.id := by
  unfold restage? at h
  split at h
  · cases h
    rfl
  · obtain ⟨pos, -, rfl⟩ := Option.map_eq_some_iff.1 h
    rfl
  · obtain ⟨pos, -, rfl⟩ := Option.map_eq_some_iff.1 h
    rfl
  · cases h

theorem Altered.id (h : j.Altered t t') : t'.id = t.id := by
  cases h with
  | restaged h stamp => exact id_of_restage h j.stage
  | bound => rfl

theorem restage_restage (h : j.restage? t = some f) (st : Stage) (stamp : Nat) :
    ∃ g, j.restage? { f st with updated := stamp } = some g ∧
      ∀ st', g st' = { f st' with updated := stamp } := by
  unfold restage? at h ⊢
  split at h
  · cases h
    exact ⟨_, rfl, fun _ => rfl⟩
  · next name _ =>
    obtain ⟨pos, hpos, rfl⟩ := Option.map_eq_some_iff.1 h
    have hsame := (Table.indexPosition?_setIndexStage t pos st name).trans hpos
    refine ⟨_, Option.map_eq_some_iff.2 ⟨pos, hsame, rfl⟩, fun st' => ?_⟩
    dsimp only [Step.setIndexStage]
    rw [Catalog.modify_modify fun _ => rfl]
  · next name _ =>
    obtain ⟨pos, hpos, rfl⟩ := Option.map_eq_some_iff.1 h
    have hsame := (Table.columnPosition?_setColumnStage t pos st name).trans hpos
    refine ⟨_, Option.map_eq_some_iff.2 ⟨pos, hsame, rfl⟩, fun st' => ?_⟩
    dsimp only [Step.setColumnStage]
    rw [Catalog.modify_modify fun _ => rfl]
  · cases h

theorem restage_live (h : j.restage? t = some f) (ht : t.IsPublic) : f .live = t := by
  unfold restage? at h
  split at h
  · cases h
    dsimp only
    rw [← ht.stage]
  · obtain ⟨pos, -, rfl⟩ := Option.map_eq_some_iff.1 h
    unfold Step.setIndexStage
    rw [Catalog.modify_eq_self]
    intro ix hix
    rw [← ht.indices ix hix]
  · obtain ⟨pos, -, rfl⟩ := Option.map_eq_some_iff.1 h
    unfold Step.setColumnStage
    rw [Catalog.modify_eq_self]
    intro c hc
    rw [← ht.columns c hc]
  · cases h

end Change.Job

namespace Step

variable {all : Bool} {P : Surroundings → Prop} {s : Surroundings} {d : Draft} {r : Result}
  {table t : Table} {part : Part} {st : Stage} {check : Bool} {newId : Int} {name : String}
  {fk : ForeignKey}

/--
If the step succeeded and left its job on its way, it wrote what the job has made by then of the
table that it found among `f₀`.
-/
def Alters (f₀ : Int → Int → Option Table) (d : Draft) (r : Result) : Prop :=
  ∀ v, r.1 = .ok v → r.2.job.isFinished = false → ∃ t t',
    f₀ d.job.schemaId d.job.tableId = some t ∧ t'.id = d.job.tableId ∧
      r.2.txn = d.txn.written d.job.schemaId t' ∧ r.2.job.stage ∈ d.job.kind.intermediate ∧
      r.2.job.Altered t t'

section Forward

variable {f₀ : Int → Int → Option Table}

theorem alters_error (e : Trouble) (d' : Draft) : Alters f₀ d (.error e, d') := by
  intro v h
  cases h

theorem alters_finished (h : r.2.job.isFinished = true) : Alters f₀ d r := by
  intro v _ hf
  rw [h] at hf
  cases hf

theorem restaged_of_shapes {g : Stage → Table} (hg : d.job.restage? table = some g)
    (hsh : d.job.Shapes t table) (st : Stage) (stamp : Nat) :
    ({ d.job with stage := st } : Job).Altered t { g st with updated := stamp } := by
  rcases hsh with ⟨-, rfl⟩ | ⟨-, hal⟩
  · exact .restaged (j := { d.job with stage := st }) hg stamp
  · cases hal with
    | restaged h u =>
      obtain ⟨k, hk, hgk⟩ := Job.restage_restage h d.job.stage u
      cases hg.symm.trans hk
      rw [hgk]
      exact .restaged (j := { d.job with stage := st }) h stamp
    | bound ha =>
      unfold Job.restage? at hg
      rw [ha] at hg
      cases hg

theorem Hidden.alters {h : Hiding} (hr : Hidden s table h d r) (hd : d.Holds table)
    (hk : d.job.kind = d.job.args.kind) (hg : d.job.restage? table = some h.withStage)
    (hsh : d.job.Shaped f₀ d.txn.table?) (hlast : (h.last.run d).2.job.isFinished = true) :
    Alters f₀ d r := by
  obtain ⟨t, ht, hshapes⟩ := hsh.shapes hd.table
  have hadvanced (st : Stage) (hst : st ∈ d.job.kind.intermediate) :
      Alters f₀ d (d.advanced s (h.withStage st) st) := by
    intro _ _ _
    refine ⟨t, _, ht, ?_, rfl, hst, restaged_of_shapes hg hshapes st s.stamp⟩
    exact (Job.id_of_restage hg st).trans hd.id
  have hinter := (Job.kind_of_restage hg hk).2.2
  cases hr with
  | kept => exact alters_finished rfl
  | shown => exact alters_finished rfl
  | refused => exact alters_error _ _
  | hidden => exact hadvanced _ (by simp [hinter])
  | closed => exact hadvanced _ (by simp [hinter])
  | gone => exact alters_finished hlast
  | stuck => exact alters_error _ _

theorem foreignKeyPosition?_withKey (h : t.foreignKeyPosition? fk.name = none) (st : Stage) :
    (Job.withKey t fk st).foreignKeyPosition? fk.name = some t.foreignKeys.length := by
  apply Catalog.findIdx?_concat h
  simp

theorem setForeignKeyStage_withKey (t : Table) (fk : ForeignKey) (st st' : Stage) (stamp : Nat) :
    setForeignKeyStage { Job.withKey t fk st with updated := stamp } t.foreignKeys.length st' =
      { Job.withKey t fk st' with updated := stamp } := by
  unfold setForeignKeyStage Job.withKey
  dsimp only
  rw [Catalog.modify_concat]

theorem Bound.alters (hr : Bound P fk check d r) (ha : d.job.args = .addForeignKey fk check)
    (hk : d.job.kind = d.job.args.kind) (hj : Agrees all d.txn.table? d.job)
    (hsh : d.job.Shaped f₀ d.txn.table?) : Alters f₀ d r := by
  have hkind : d.job.kind = .addForeignKey := by
    rw [hk, ha]
    rfl
  cases hr with
  | missing => exact alters_error _ _
  | undone => exact alters_finished rfl
  | unneeded => exact alters_finished rfl
  | refused => exact alters_error _ _
  | resumed hb hs table hd old ho =>
    have hi : d.job.stage ∉ d.job.kind.intermediate := by
      rw [hkind, hs]
      decide
    cases (hj.stagedAlready?_eq_none hd hi).symm.trans ho
  | staged hb hs s hp table hd hl hcheck =>
    intro _ _ _
    have hfree := foreignKeyPosition?_of_find? (findForeignKey?_of_checkAdded hcheck)
    obtain ⟨t, ht, ⟨-, rfl⟩ | ⟨hi, -⟩⟩ := hsh.shapes hd.table
    · refine ⟨table, { withStagedKey table fk with updated := s.stamp }, ht, hd.id, rfl, ?_,
        .bound (j := { (d.learn table fk check).job with stage := .writeOnly }) rfl hfree s.stamp⟩
      rw [hkind]
      exact List.mem_cons_self
    · rw [hkind, hs] at hi
      exact absurd hi (by decide)
  | confirmed hb hs s table hd hl pos hpos =>
    intro _ _ _
    obtain ⟨t, ht, ⟨hi, -⟩ | ⟨-, hal⟩⟩ := hsh.shapes hd.table
    · rw [hkind, hs] at hi
      cases hi
    · cases hal with
      | restaged h u => exact absurd hkind (Job.kind_of_restage h hk).1
      | bound hargs hfree u =>
        cases ha.symm.trans hargs
        cases (foreignKeyPosition?_withKey hfree d.job.stage).symm.trans hpos.position
        refine ⟨t, { Job.withKey t fk .writeReorg with updated := s.stamp }, ht, hd.id, ?_, ?_,
          .bound (j := { d.job with stage := .writeReorg }) ha hfree s.stamp⟩
        · rw [setForeignKeyStage_withKey]
          rfl
        · rw [hkind]
          exact List.mem_cons_of_mem _ List.mem_cons_self
  | turned => exact alters_error _ _
  | bound => exact alters_finished rfl
  | failed => exact alters_error _ _

theorem Took.alters (h : Took P s d r) (hk : d.job.kind = d.job.args.kind)
    (hj : Agrees all d.txn.table? d.job) (hsh : d.job.Shaped f₀ d.txn.table?) :
    Alters f₀ d r := by
  unfold Took at h
  split at h
  · cases h with
    | undone => exact alters_finished rfl
    | created => exact alters_finished rfl
    | refused => exact alters_error _ _
    | failed => exact alters_error _ _
    | stuck => exact alters_error _ _
  · next ha =>
    cases h with
    | missing => exact alters_error _ _
    | held table hd r h =>
      apply h.alters hd hk _ hsh
      · rw [run_last_ofTable hd]
        rfl
      · unfold Job.restage?
        rw [ha]
        rfl
  · cases h with
    | missing => exact alters_error _ _
    | undone => exact alters_finished rfl
    | refused => exact alters_error _ _
    | failed => exact alters_error _ _
    | truncated => exact alters_finished rfl
    | stuck => exact alters_error _ _
  · next ha => exact Bound.alters h ha hk hj hsh
  · cases h with
    | missing => exact alters_error _ _
    | undone => exact alters_finished rfl
    | unknown => exact alters_error _ _
    | unbound => exact alters_finished rfl
    | stuck => exact alters_error _ _
  · next ha =>
    cases h with
    | missing => exact alters_error _ _
    | held table hd hl target ht r hr =>
      obtain ⟨pos, hpos, rfl⟩ := Option.map_eq_some_iff.1 ht
      apply hr.alters hd hk _ hsh
      · rw [run_last_ofIndex hd]
        rfl
      · unfold Job.restage?
        rw [ha]
        exact Option.map_eq_some_iff.2 ⟨pos, hpos, rfl⟩
  · next ha =>
    cases h with
    | missing => exact alters_error _ _
    | held table hd hl target ht r hr =>
      obtain ⟨pos, hpos, rfl⟩ := Option.map_eq_some_iff.1 ht
      apply hr.alters hd hk _ hsh
      · rw [run_last_ofColumn hd]
        rfl
      · unfold Job.restage?
        rw [ha]
        exact Option.map_eq_some_iff.2 ⟨pos, hpos, rfl⟩

end Forward

section Backward

variable {g : Stage → Table}

theorem Hidden.undone {h : Hiding} (hr : Hidden s table h d r) (hh : h.Hides d.job table part)
    (hb : d.job.isRollingBack = true) (hstage : table.stageOf part ≠ some .live) :
    r = d.completed s (h.withStage .live) .rollbackDone .live := by
  cases hr with
  | kept hb' hl => exact absurd (hh.isLive.1 hl) hstage
  | shown => rfl
  | refused hb' => cases hb.symm.trans hb'
  | hidden hb' => cases hb.symm.trans hb'
  | closed hb' => cases hb.symm.trans hb'
  | gone hb' => cases hb.symm.trans hb'
  | stuck hb' => cases hb.symm.trans hb'

theorem Dropped.undone (hr : Dropped s check d r) (ha : d.job.args = .dropTable check)
    (hk : d.job.kind = d.job.args.kind) (hd : d.Holds table) (hb : d.job.isRollingBack = true)
    (hstage : table.stageOf .table ≠ some .live) :
    r = d.completed s { table with stage := .live } .rollbackDone .live := by
  cases hr with
  | missing hm =>
    rw [hd.table] at hm
    cases hm
  | held table' hd' r h =>
    cases hd.table.symm.trans hd'.table
    exact h.undone (hides_ofTable ha hk) hb hstage

theorem Withdrawn.undone {target? : Table → Option Hiding} {h : Hiding}
    (hr : Withdrawn s target? d r) (ht : target? table = some h) (hh : h.Hides d.job table part)
    (hd : d.Holds table) (hl : table.stage = .live) (hb : d.job.isRollingBack = true)
    (hstage : table.stageOf part ≠ some .live) :
    r = d.completed s (h.withStage .live) .rollbackDone .live := by
  cases hr with
  | missing hm => cases ht.symm.trans (hm table hd.table hl)
  | held table' hd' hl' h' ht' r hr =>
    cases hd.table.symm.trans hd'.table
    cases ht.symm.trans ht'
    exact hr.undone hh hb hstage

theorem isFinished_of_rollingBack {j : Job} (hb : j.isRollingBack = true) : j.isFinished = false := by
  unfold Job.isFinished
  rw [eq_of_beq hb]
  rfl

theorem standard_undoes_hiding (hkeyed : d.txn.working.Keyed) (hk : d.job.kind = d.job.args.kind)
    (hj : Agrees all d.txn.table? d.job) (hs : d.job.stage ∈ d.job.kind.intermediate)
    (hb : d.job.isRollingBack = true) (hd : d.Holds table) (hg : d.job.restage? table = some g) :
    Registry.standard d.job.kind s d = .done (d.completed s (g .live) .rollbackDone .live) := by
  obtain ⟨u, part, hu, hst⟩ := (hj.busy (isFinished_of_rollingBack hb) hs).found
  cases hd.table.symm.trans hu.table
  have hne : table.stageOf part ≠ some .live := by
    rw [hst]
    exact fun h => Kind.ne_live_of_mem_intermediate hs (Option.some.inj h)
  have hpart := hu.part
  unfold Job.restage? at hg
  unfold Job.part? at hpart
  rw [hk]
  split at hg
  · next check ha =>
    cases hg
    rw [ha] at hpart ⊢
    cases hpart
    exact congrArg Work.done ((dropTable_dropped hkeyed ha).undone ha hk hd hb hne)
  · next name ha =>
    obtain ⟨pos, hpos, rfl⟩ := Option.map_eq_some_iff.1 hg
    rw [ha] at hpart ⊢
    dsimp only at hpart
    rw [hpos] at hpart
    cases hpart
    have hl : table.stage = .live := hu.isOpen.resolve_right nofun
    apply congrArg Work.done
    have hw := dropIndex_withdrawn (s := s) hkeyed ha
    apply hw.undone _ (hides_ofIndex (s := s) ha hk hl hpos) hd hl hb hne
    exact Option.map_eq_some_iff.2 ⟨pos, hpos, rfl⟩
  · next name ha =>
    obtain ⟨pos, hpos, rfl⟩ := Option.map_eq_some_iff.1 hg
    rw [ha] at hpart ⊢
    dsimp only at hpart
    rw [hpos] at hpart
    cases hpart
    have hl : table.stage = .live := hu.isOpen.resolve_right nofun
    apply congrArg Work.done
    have hw := dropColumn_withdrawn (s := s) hkeyed ha
    apply hw.undone _ (hides_ofColumn (s := s) ha hk hl hpos) hd hl hb hne
    exact Option.map_eq_some_iff.2 ⟨pos, hpos, rfl⟩
  · cases hg

theorem addForeignKey_undoes {pos : Nat} (ha : d.job.args = .addForeignKey fk check)
    (hb : d.job.isRollingBack = true) (hd : d.Holds table) (hl : table.stage = .live)
    (hpos : table.foreignKeyPosition? fk.name = some pos) :
    addForeignKey s d = .done (d.completed s
      { table with foreignKeys := table.foreignKeys.eraseIdx pos } .rollbackDone .absent) := by
  have hremove : (removeForeignKey s table fk.name).run d = _ := run_removeForeignKey hd
  rw [hpos, hb] at hremove
  have hbegin : (beginAddition s).run d = (.ok (.inl (d.txn.schemaVersion + 1)), (d.completed s
      { table with foreignKeys := table.foreignKeys.eraseIdx pos } .rollbackDone .absent).2) := by
    unfold beginAddition
    rw [Act.run_bind_of_ok (Act.run_job d), ha]
    dsimp only
    rw [Act.run_bind_of_ok (Act.run_publicTable hd hl), hb, if_pos rfl,
      Act.run_bind_of_ok hremove]
    rfl
  unfold addForeignKey
  rw [hbegin]
  rfl

theorem standard_undoes (hkeyed : d.txn.working.Keyed) (hk : d.job.kind = d.job.args.kind)
    (hj : Agrees all d.txn.table? d.job) (hs : d.job.stage ∈ d.job.kind.intermediate)
    (hb : d.job.isRollingBack = true) (hd : d.Holds table) (hal : d.job.Altered t table)
    (ht : t.IsPublic) :
    ∃ u, { u with updated := s.stamp } = d.job.restored t s.stamp ∧ u.id = d.job.tableId ∧
      Registry.standard d.job.kind s d =
        .done (d.completed s u .rollbackDone d.job.kind.initial) := by
  have hid := hal.id.symm.trans hd.id
  cases hal with
  | restaged h stamp =>
    obtain ⟨g, hg, hgs⟩ := Job.restage_restage h d.job.stage stamp
    have hlive : g .live = { t with updated := stamp } := by
      rw [hgs, Job.restage_live h ht]
    have hrun := standard_undoes_hiding (s := s) hkeyed hk hj hs hb hd hg
    rw [hlive] at hrun
    obtain ⟨hnot, hinitial, -⟩ := Job.kind_of_restage h hk
    refine ⟨_, ?_, hid, hinitial ▸ hrun⟩
    unfold Job.restored
    rw [if_neg hnot]
  | bound ha hfree stamp =>
    have hpos := foreignKeyPosition?_withKey hfree d.job.stage
    have hrun := addForeignKey_undoes (s := s) ha hb hd ht.stage hpos
    rw [ha] at hk
    refine ⟨{ t with maxForeignKeyId := t.maxForeignKeyId + 1, updated := stamp }, ?_, hid, ?_⟩
    · unfold Job.restored
      rw [hk]
      rfl
    · rw [hk]
      apply hrun.trans
      unfold Job.withKey
      dsimp only
      rw [List.eraseIdx_append_of_length_le (Nat.le_refl _), Nat.sub_self, List.eraseIdx_cons_zero,
        List.append_nil]
      rfl

end Backward

section Outcome

variable {f₀ : Int → Int → Option Table} {limit : Nat} {base W : Snapshot} {first j : Job}

theorem Shaped.isSome (h : j.Shaped f₀ base.table?) (ht : f₀ j.schemaId j.tableId = some t) :
    (base.table? j.schemaId j.tableId).isSome := by
  rcases h with ⟨-, hf⟩ | ⟨-, t₀, u, -, -, hf⟩
  · rw [hf, ht]
    rfl
  · rw [hf.self]
    rfl

theorem Outcome.alters (h : Outcome limit P base first W j) (hk : first.kind = first.args.kind)
    (hf : first.isFinished = false) (hj : Agrees all base.table? first)
    (hsh : first.Shaped f₀ base.table?) (hfin : j.isFinished = false) :
    j.Shaped f₀ W.table? ∧ (W = base ∨ ∃ t, (base.table? first.schemaId t.id).isSome ∧
      W = ((Txn.begin base).written first.schemaId t).working) := by
  have hfollows := Change.Job.follows_started first
  have hstage := Change.Job.stage_started first
  have hargs : first.started.args = first.args := by
    unfold Job.started
    split <;> rfl
  have hk' := hfollows.kind_eq hk
  have hsh' := hsh.follow hfollows hargs hstage
  cases h with
  | success s hs v d h ho error =>
    obtain ⟨t, u, ht, hid, htxn, hst, hal⟩ := h.alters hk' (agrees_started hj) hsh' v rfl hfin
    dsimp only at ht hid htxn hst hal
    rw [hfollows.schemaId] at ht htxn
    rw [hfollows.tableId] at ht hid
    rw [hfollows.kind] at hst
    have hd := h.follows
    constructor
    · right
      refine ⟨hd.kind ▸ hst, t, u, ?_, hal.congr rfl rfl, ?_⟩
      · rw [hd.schemaId, hd.tableId]
        exact ht
      · rw [hd.schemaId, hd.tableId]
        apply hsh.puts
        intro a b
        rw [htxn, ← hid]
        exact Txn.table?_written _ _ _ _ _
    · refine .inr ⟨u, ?_, congrArg (·.working) htxn⟩
      rw [hid]
      exact Shaped.isSome hsh ht
  | failure s hs e d h =>
    refine ⟨hsh'.follow (h.framed.follows.trans (follows_blame _ _ _)) ?_ ?_, .inl rfl⟩
    · exact (args_blame _ _ _).trans (h.framed.failedArgs e rfl)
    · exact (stage_blame _ _ _).trans (h.framed.failed e rfl).1
  | disorder s hs v d h ho => cases ho.symm.trans (h.allowed hk hf hj)

end Outcome

end Step

end Steward
