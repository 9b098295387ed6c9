import Steward.Proofs.Step.Agreement

/-!
This module contains the versions of the catalog that steps make. A step that succeeds leaves the
catalog alone, or makes one new version of it, which differs from the old one unless the step happens
to write a table as it was.
-/

namespace Steward.Step

open Catalog (Part Stage Table)
open Change (Job Kind Status Trouble)
open Ledger (Txn)

variable {all : Bool} {P : Surroundings → Prop} {s : Surroundings} {d : Draft} {r : Result}
  {table t t' : Table} {part : Part} {st : Stage} {check : Bool} {newId : Int} {name : String}
  {fk : Catalog.ForeignKey} {o : Option Table} {σ : Status}

/--
The job is about to hide a part of its table that is hidden already, or to truncate the table and
leave it its id.
-/
def Repeats (f : Int → Int → Option Table) (j : Job) : Prop :=
  ∃ t, f j.schemaId j.tableId = some t ∧
    ((j.stage = .live ∧
        ∃ p, j.part? t = some p ∧ p.isDeclared = true ∧ t.stageOf p = some .writeOnly) ∨
      ∃ check, j.args = .truncateTable t.id check)

def Renews (d : Draft) (f : Int → Int → Option Table) : Prop :=
  (∃ x y, f x y ≠ d.txn.table? x y) ∨ Repeats d.txn.table? d.job

/--
If the step succeeded, it left the catalog alone, or it made one new version of it.
-/
def Versions (d : Draft) (r : Result) : Prop :=
  ∀ v, r.1 = .ok v → r.2.txn = d.txn ∨
    r.2.txn.schemaVersion = d.txn.schemaVersion + 1 ∧ Renews d r.2.txn.table?

section Results

theorem versions_error (e : Trouble) (d' : Draft) : Versions d (.error e, d') := by
  intro v h
  cases h

theorem versions_ended : Versions d (d.ended σ st o) := fun _ _ => .inl rfl

theorem versions_advanced (h : Renews d (d.write s t).txn.table?) :
    Versions d (d.advanced s t st) := fun _ _ => .inr ⟨rfl, h⟩

theorem versions_completed (h : Renews d (d.write s t).txn.table?) :
    Versions d (d.completed s t σ st) := fun _ _ => .inr ⟨rfl, h⟩

theorem renews_write (hd : d.Holds table) (hid : t.id = table.id)
    (hne : { t with updated := s.stamp } ≠ table) : Renews d (d.write s t).txn.table? := by
  refine .inl ⟨d.job.schemaId, d.job.tableId, ?_⟩
  rw [(puts_write (hid.trans hd.id)).self, hd.table]
  exact fun h => hne (Option.some.inj h)

end Results

theorem ne_of_restaged (h : t.Restaged t' part st) (ht : (t.stageOf part).isSome)
    (hst : t.stageOf part ≠ some st) : t' ≠ t := by
  rintro rfl
  obtain ⟨old, hold⟩ := Option.isSome_iff_exists.1 ht
  have hnew := h.changed
  rw [hold] at hnew
  exact hst (hold.trans hnew)

section Hiding

variable {h : Hiding}

theorem Hiding.Hides.renews (hh : h.Hides d.job table part) (hd : d.Holds table)
    (hst : table.stageOf part ≠ some st) : Renews d (d.write s (h.withStage st)).txn.table? := by
  apply renews_write hd (hh.id st)
  exact ne_of_restaged ((hh.restaged st).stamped s.stamp) hh.there hst

theorem Hidden.versions (hr : Hidden s table h d r) (hh : h.Hides d.job table part)
    (hd : d.Holds table) (hf : d.job.isFinished = false) (ha : Agrees all d.txn.table? d.job)
    (hlast : Versions d (h.last.run d)) : Versions d r := by
  cases hr with
  | kept => exact versions_ended
  | shown hb hl =>
    apply versions_completed
    apply hh.renews hd
    rw [Ne, ← hh.isLive, hl]
    exact Bool.false_ne_true
  | refused => exact versions_error _ _
  | hidden hb hs hc =>
    apply versions_advanced
    by_cases hw : table.stageOf part = some .writeOnly
    · right
      refine ⟨table, hd.table, .inl ⟨hs, part, hh.named, ?_, hw⟩⟩
      -- What is not declared is public before the job was begun.
      apply Decidable.byContradiction
      intro hp
      have hquiet : Quiet all d.txn.table? := by
        apply ha.quiet
        right
        rw [hs, hh.kind]
        decide
      refine hquiet _ _ table part hd.table ?_ ⟨_, hw, by decide⟩
      unfold counts
      rw [Bool.eq_false_iff.2 hp]
      simp
    · exact hh.renews hd hw
  | closed hb hs =>
    have hmem : d.job.stage ∈ d.job.kind.intermediate := by
      rw [hs, hh.kind]
      decide
    have hstage := (ha.busy hf hmem).stageOf hd.table hh.named
    apply versions_advanced
    apply hh.renews hd
    rw [hstage, hs]
    decide
  | gone => exact hlast
  | stuck => exact versions_error _ _

end Hiding

section Kinds

theorem Created.versions (hr : Created s table check d r) : Versions d r := by
  cases hr with
  | undone => exact versions_ended
  | refused => exact versions_error _ _
  | failed => exact versions_error _ _
  | created hb hs hschema hname hcheck hfree =>
    intro _ _
    refine .inr ⟨rfl, .inl ⟨d.job.schemaId, d.job.tableId, ?_⟩⟩
    rw [hfree]
    unfold Draft.completed
    rw [(puts_write rfl).self]
    nofun
  | stuck => exact versions_error _ _

theorem Dropped.versions (hr : Dropped s check d r) (ha : d.job.args = .dropTable check)
    (hk : d.job.kind = d.job.args.kind) (hf : d.job.isFinished = false)
    (hj : Agrees all d.txn.table? d.job) : Versions d r := by
  cases hr with
  | missing => exact versions_error _ _
  | held table hd r h =>
    apply h.versions (hides_ofTable ha hk) hd hf hj
    rw [run_last_ofTable hd]
    intro _ _
    refine .inr ⟨rfl, .inl ⟨d.job.schemaId, table.id, ?_⟩⟩
    have hgone : (d.dropped table).2.txn.table? d.job.schemaId table.id = none :=
      (Txn.table?_cleared _ _ _ _ _).trans (if_pos ⟨rfl, rfl⟩)
    rw [hgone, hd.id, hd.table]
    nofun

theorem Truncated.versions (hr : Truncated s newId check d r)
    (ha : d.job.args = .truncateTable newId check) : Versions d r := by
  cases hr with
  | missing => exact versions_error _ _
  | undone => exact versions_ended
  | refused => exact versions_error _ _
  | failed => exact versions_error _ _
  | truncated hb hs table hd hl hcheck hfree =>
    intro _ _
    refine .inr ⟨rfl, ?_⟩
    by_cases hid : newId = table.id
    · exact .inr ⟨table, hd.table, .inr ⟨check, hid ▸ ha⟩⟩
    · refine .inl ⟨d.job.schemaId, newId, ?_⟩
      have hnew := Txn.table?_written ((d.txn.cleared d.job.schemaId table.id).added
        d.job.schemaId { table with id := newId }) d.job.schemaId
        { table with id := newId, updated := s.stamp } d.job.schemaId newId
      rw [if_pos ⟨rfl, rfl⟩] at hnew
      rw [hfree hid]
      exact fun h => nomatch hnew.symm.trans h
  | stuck => exact versions_error _ _

theorem foreignKeys_eraseIdx_ne {pos : Nat} (hpos : table.foreignKeyPosition? name = some pos) :
    table.foreignKeys.eraseIdx pos ≠ table.foreignKeys := by
  have hlt := (List.findIdx?_eq_some_iff_findIdx_eq.1 hpos).1
  intro h
  have hlen := congrArg List.length h
  rw [List.length_eraseIdx_of_lt hlt] at hlen
  omega

theorem Unbound.versions (hr : Unbound s name d r) : Versions d r := by
  cases hr with
  | missing => exact versions_error _ _
  | undone => exact versions_ended
  | unknown => exact versions_error _ _
  | unbound hb hs table hd hl pos hpos =>
    refine versions_completed (renews_write hd ?_ ?_)
    · rfl
    · exact fun h => foreignKeys_eraseIdx_ne hpos (congrArg Table.foreignKeys h)
  | stuck => exact versions_error _ _

theorem StagedAt.renews {pos : Nat} (hpos : StagedAt table name st pos) {st' : Stage}
    (hne : st ≠ st') (hd : d.Holds table) :
    Renews d (d.write s (setForeignKeyStage table pos st')).txn.table? := by
  have hold : table.stageOf (.foreignKey pos) = some st := hpos.stage
  refine renews_write hd ?_ ?_
  · rfl
  · apply ne_of_restaged ((Table.restaged_setForeignKeyStage table pos st').stamped s.stamp)
    · rw [hold]
      rfl
    · rw [hold]
      exact fun h => hne (Option.some.inj h)

theorem Bound.versions (hr : Bound P fk check d r) : Versions d r := by
  cases hr with
  | missing => exact versions_error _ _
  | undone hb s table hd hl pos hpos =>
    refine versions_completed (renews_write hd ?_ ?_)
    · rfl
    · exact fun h => foreignKeys_eraseIdx_ne hpos (congrArg Table.foreignKeys h)
  | unneeded => exact versions_ended
  | refused => exact versions_error _ _
  | resumed => exact fun _ _ => .inl rfl
  | staged hb hs s hp table hd hl hcheck =>
    intro _ _
    refine .inr ⟨rfl, renews_write (s := s) (t := withStagedKey table fk) hd rfl ?_⟩
    intro h
    have hlen := congrArg (·.foreignKeys.length) h
    simp [withStagedKey] at hlen
  | confirmed hb hs s table hd hl pos hpos =>
    exact versions_advanced (hpos.renews (by decide) hd)
  | turned => exact versions_error _ _
  | bound hb hs s table hd hl pos hpos =>
    exact versions_completed (hpos.renews (by decide) hd)
  | failed => exact versions_error _ _

theorem Withdrawn.versions {target? : Table → Option Hiding} (hr : Withdrawn s target? d r)
    (hf : d.job.isFinished = false) (hj : Agrees all d.txn.table? d.job)
    (hh : ∀ t h, d.Holds t → t.stage = .live → target? t = some h →
      (∃ part, h.Hides d.job t part) ∧ Versions d (h.last.run d)) : Versions d r := by
  cases hr with
  | missing => exact versions_error _ _
  | held table hd hl h ht r hr =>
    obtain ⟨⟨part, hhides⟩, hlast⟩ := hh table h hd hl ht
    exact hr.versions hhides hd hf hj hlast

theorem Took.versions (h : Took P s d r) (hk : d.job.kind = d.job.args.kind)
    (hf : d.job.isFinished = false) (hj : Agrees all d.txn.table? d.job) : Versions d r := by
  unfold Took at h
  split at h
  · exact Created.versions h
  · next ha => exact Dropped.versions h ha hk hf hj
  · next ha => exact Truncated.versions h ha
  · exact Bound.versions h
  · exact Unbound.versions h
  · next name ha =>
    apply Withdrawn.versions h hf hj
    intro t target hd hl htarget
    obtain ⟨pos, hpos, rfl⟩ := Option.map_eq_some_iff.1 htarget
    have hlt := (List.findIdx?_eq_some_iff_findIdx_eq.1 hpos).1
    refine ⟨⟨_, hides_ofIndex ha hk hl hpos⟩, ?_⟩
    rw [run_last_ofIndex hd]
    refine versions_completed (renews_write hd ?_ ?_)
    · rfl
    · intro h
      have hlen := congrArg (·.indices.length) h
      dsimp only at hlen
      rw [List.length_eraseIdx_of_lt hlt] at hlen
      omega
  · next name ha =>
    apply Withdrawn.versions h hf hj
    intro t target hd hl htarget
    obtain ⟨pos, hpos, rfl⟩ := Option.map_eq_some_iff.1 htarget
    have hlt := (List.findIdx?_eq_some_iff_findIdx_eq.1 hpos).1
    refine ⟨⟨_, hides_ofColumn ha hk hl hpos⟩, ?_⟩
    rw [run_last_ofColumn hd]
    apply versions_completed
    have hdrop : (t.dropColumn pos).id = t.id ∧
        (t.dropColumn pos).columns.length + 1 = t.columns.length := by
      unfold Table.dropColumn
      rw [List.getElem?_eq_getElem hlt]
      refine ⟨rfl, ?_⟩
      simp [Table.renumber, List.length_eraseIdx_of_lt hlt]
      omega
    apply renews_write hd hdrop.1
    intro h
    have hlen := congrArg (·.columns.length) h
    have := hdrop.2
    dsimp only at hlen
    omega

end Kinds

section Outcome

variable {limit : Nat} {base W : Ledger.Snapshot} {first j : Job}

theorem repeats_of_started {f : Int → Int → Option Table} (h : Repeats f j.started) :
    Repeats f j := by
  unfold Job.started at h
  split at h
  · exact h
  · exact h

theorem Outcome.versions (h : Outcome limit P base first W j) (hk : first.kind = first.args.kind)
    (hf : first.isFinished = false) (hj : Agrees all base.table? first) :
    W.catalog = base.catalog ∨
      W.catalog.schemaVersion = base.catalog.schemaVersion + 1 ∧
      j.schemaVersion = W.catalog.schemaVersion ∧
      ((∃ x y, W.table? x y ≠ base.table? x y) ∨ Repeats base.table? first) := by
  cases h with
  | success s hs v d h ho error =>
    have hversions := h.versions ((Change.Job.follows_started first).kind_eq hk)
      ((isFinished_started first).trans hf) (agrees_started hj) v rfl
    cases hversions with
    | inl hsame =>
      dsimp only at hsame
      rw [hsame]
      exact .inl rfl
    | inr hnew => exact .inr ⟨hnew.1, h.framed.version v rfl, hnew.2.imp_right repeats_of_started⟩
  | failure => exact .inl rfl
  | disorder => exact .inl rfl

end Outcome

end Steward.Step
