import Steward.Proofs.Engine.Owner
import Steward.Proofs.Ledger.Optimistic
import Steward.Proofs.World.Move

/-!
This module contains the commits of the world: each of them that goes through is a move, however
long ago its transaction began.
-/

namespace Steward.Ledger

open Catalog (Schema Table)
open Change (Job Trouble)
open Engine (PlanOf Statement)
open Step (Draft Ending Outcome)

def Planned (R : Rules) (Q : Snapshot → Prop) (s : Snapshot) (f : Txn → Job × Txn) : Prop :=
  ∃ st v p, R.statement st ∧ Shows Q v p ∧ p.Precedes s ∧ PlanOf st v f

variable {R : Rules} {Q : Snapshot → Prop} {limit : Nat} {s s' : Snapshot} {store store' : Store}
  {f : Txn → Job × Txn} {t : Txn}

theorem Planned.mono (h : Planned R Q s f) (hs : s.Precedes s') : Planned R Q s' f := by
  obtain ⟨st, v, p, hst, hp, hps, hf⟩ := h
  exact ⟨st, v, p, hst, hp, hps.trans hs, hf⟩

section Submission

structure Enlisted (base : Snapshot) (job : Job) (t : Txn) : Prop where
  origin : t.base = base
  status : job.status = .queued
  fresh : base.lastId < job.id
  lastId : t.working.lastId = job.id
  catalog : t.working.catalog = base.catalog
  jobs : t.working.jobs = base.jobs.insert job.id job
  history : t.working.history = base.history

theorem enlist_enlisted (base : Snapshot) {st : Statement} {σ : Schema}
    (h : ∀ t, st.Makes σ (f t).1 ∧ ((f t).2 = t ∨ (f t).2 = t.newId.2)) :
    ∃ job, st.Makes σ job ∧ Enlisted base job (Engine.enlist f (.begin base)).2 := by
  obtain ⟨hm, ht⟩ := h (.begin base)
  unfold Engine.enlist
  cases hf : f (.begin base) with
  | mk made taken =>
    rw [hf] at hm ht
    refine ⟨{ made with id := taken.newId.1, status := .queued }, ?_, ?_⟩
    · exact ⟨hm.asks, hm.schemaId, hm.schemaName, hm.kind, hm.stage⟩
    · cases ht with
      | inl ht =>
        dsimp only at ht
        rw [ht]
        exact ⟨rfl, rfl, Int.lt_succ _, rfl, rfl, rfl, rfl⟩
      | inr ht =>
        dsimp only at ht
        rw [ht]
        refine ⟨rfl, rfl, ?_, rfl, rfl, rfl, rfl⟩
        exact Int.lt_trans (Int.lt_succ _) (Int.lt_succ _)

variable {base : Snapshot} {job : Job}

theorem Enlisted.record (h : Enlisted base job t) (hb : base.Sound) (k : Int) :
    t.working.record k = if k = job.id then (some job, none) else base.record k := by
  unfold Snapshot.record
  rw [h.jobs, h.history, SortedMap.get?_insert]
  split
  · next hk =>
    have hnone : base.history.get? job.id = none := congrArg Prod.snd (hb.record_of_lt h.fresh)
    rw [hk, hnone]
  · rfl

theorem Enlisted.fits (h : Enlisted base job t) (hf : store.file = none) (hb : base.Sound)
    (hs : base.Before store.snapshot) : store.Fits t := by
  refine ⟨hf, h.origin ▸ hs, ?_⟩
  rw [h.origin]
  constructor
  · rw [h.lastId]
    exact Int.le_of_lt h.fresh
  · intro k hk
    rw [h.record hb, if_neg]
    rintro rfl
    exact hk (congrArg Prod.snd (hb.record_of_lt h.fresh))

theorem Enlisted.appended (h : Enlisted base job t) (hf : store.file = none) (hb : base.Sound)
    (hs : base.Before store.snapshot) (hc : store.commit t = .ok store') :
    Appended store.snapshot store'.snapshot job := by
  -- The id of the new job was still to be given out, so no other job was submitted meanwhile.
  obtain ⟨hcomp, hmerge, -⟩ := (Store.commit_eq_ok_iff (h.fits hf hb hs)).1 hc
  rw [h.origin] at hcomp hmerge
  have hfresh := h.fresh
  have hcur : store.snapshot.lastId = base.lastId := by
    apply hcomp.lastId.resolve_left
    rw [h.lastId]
    omega
  have hlast : store'.snapshot.lastId = job.id := by
    rw [hmerge.lastId, hcur, threeWay_self, h.lastId]
  refine ⟨h.status, hcur ▸ hfresh, hlast, ?_, ?_, hmerge.revision⟩
  · rw [hmerge.catalog, h.catalog]
    exact if_pos rfl
  · intro k
    rw [hmerge.record, h.record hb]
    split
    · next hk =>
      have hnone : base.record job.id = (none, none) := hb.record_of_lt h.fresh
      rw [hk, hnone]
      exact if_neg (by simp)
    · exact if_pos rfl

theorem Enlisted.submitted (h : Enlisted base job t) (hf : store.file = none) (hb : base.Tidy)
    (hs : base.Precedes store.snapshot) {st : Statement} {σ : Schema} {v : View} {p : Snapshot}
    (hst : R.statement st) (hp : Shows Q v p) (hpb : p.Precedes base)
    (hσ : v.schema? st.schema = some σ) (hm : st.Makes σ job)
    (hc : store.commit t = .ok store') : Submitted R Q store.snapshot store'.snapshot job := by
  have ha := h.appended hf hb.sound hs.before hc
  exact ⟨⟨st, σ, v, p, hst, hp, hpb.trans hs, hσ, hm⟩, ha.status, ha.fresh, ha.lastId, ha.catalog,
    ha.record, ha.revision⟩

end Submission

section Founding

variable {base : Snapshot} {σ : Schema}

structure Raised (base : Snapshot) (σ : Schema) (t : Txn) : Prop where
  origin : t.base = base
  stage : σ.stage = .live
  name : ∀ k x, base.catalog.schemas.get? k = some x → Text.same x.name σ.name = false
  id : σ.id = base.lastId + 1
  lastId : t.working.lastId = σ.id
  vacant : base.catalog.schemas.get? σ.id = none
  schemas : t.working.catalog.schemas = base.catalog.schemas.insert σ.id σ
  table : ∀ x y, t.working.table? x y = base.table? x y
  place : ∀ k, (t.working.catalog.tables.get? k).isSome ↔
    k = σ.id ∨ (base.catalog.tables.get? k).isSome
  schemaVersion : t.working.catalog.schemaVersion = base.catalog.schemaVersion + 1
  record : ∀ k, t.working.record k = base.record k

theorem table?_createSchema {t t' : Txn} (h : t.createSchema σ = .ok t') (x y : Int) :
    t'.table? x y = t.table? x y := by
  unfold Txn.createSchema at h
  split at h
  · cases h
  · cases h
    unfold Txn.table? Snapshot.table? Txn.withCatalog
    dsimp only
    split
    · rfl
    · next hplace =>
      rw [SortedMap.get?_insert]
      split
      · next hx =>
        have hnone : t.working.catalog.tables.get? x = none := by
          rw [hx]
          exact Decidable.not_not.1 fun hn => hplace (SortedMap.contains_iff.2 hn)
        rw [hnone]
        rfl
      · rfl

theorem place_createSchema {t t' : Txn} (h : t.createSchema σ = .ok t') (k : Int) :
    (t'.working.catalog.tables.get? k).isSome ↔
      k = σ.id ∨ (t.working.catalog.tables.get? k).isSome := by
  unfold Txn.createSchema at h
  split at h
  · cases h
  · cases h
    unfold Txn.withCatalog
    dsimp only
    split
    · next hplace =>
      refine ⟨.inr, ?_⟩
      rintro (rfl | hk)
      · exact hplace
      · exact hk
    · rw [SortedMap.get?_insert]
      split
      · next hk => simp [hk]
      · next hk => simp [hk]

theorem foundSchema_raised {name : String} {id : Int}
    (h : (Txn.begin base).foundSchema name = .ok (id, t)) : ∃ σ, Raised base σ t := by
  simp only [Txn.foundSchema, Txn.newId] at h
  split at h
  · cases h
  · next hname =>
    obtain ⟨made, hmade, h⟩ := bind_eq_ok.1 h
    cases h
    have htable := table?_createSchema hmade
    have hplace := place_createSchema hmade
    unfold Txn.createSchema at hmade
    split at hmade
    · cases hmade
    · next hvacant =>
      cases hmade
      refine ⟨⟨base.lastId + 1, name, .live⟩, rfl, rfl, ?_, rfl, rfl, ?_, rfl, ?_, hplace, rfl,
        fun _ => rfl⟩
      · intro k x hx
        have hall := List.any_eq_false.1 (Bool.eq_false_iff.2 hname)
        have hmem : x ∈ base.catalog.schemas.values :=
          List.mem_map.2 ⟨(k, x), SortedMap.mem_entries_iff.2 hx, rfl⟩
        exact Bool.eq_false_iff.2 (hall x hmem)
      · exact Decidable.not_not.1 fun hn => hvacant (SortedMap.contains_iff.2 hn)
      · exact htable

theorem Raised.fits (h : Raised base σ t) (hf : store.file = none)
    (hs : base.Before store.snapshot) : store.Fits t := by
  refine ⟨hf, h.origin ▸ hs, ?_⟩
  rw [h.origin]
  refine ⟨?_, fun k _ => h.record k⟩
  rw [h.lastId, h.id]
  exact Int.le_of_lt (Int.lt_succ _)

theorem Raised.founded (h : Raised base σ t) (hf : store.file = none)
    (hs : base.Precedes store.snapshot) (hc : store.commit t = .ok store') :
    Founded store.snapshot store'.snapshot σ := by
  -- Neither an id was given out meanwhile nor the catalog changed.
  obtain ⟨hcomp, hmerge, -⟩ := (Store.commit_eq_ok_iff (h.fits hf hs.before)).1 hc
  rw [h.origin] at hcomp hmerge
  have hid := h.id
  have hcur : store.snapshot.lastId = base.lastId := by
    apply hcomp.lastId.resolve_left
    rw [h.lastId]
    omega
  have hcat : store.snapshot.catalog = base.catalog := by
    apply hcomp.catalog.resolve_left
    intro he
    have hv := h.schemaVersion
    rw [he] at hv
    omega
  have hnew : store'.snapshot.catalog = t.working.catalog := by
    rw [hmerge.catalog, hcat, threeWay_self]
  refine ⟨h.stage, ?_, by omega, ?_, ?_, ?_, ?_, ?_, ?_, ?_, hmerge.revision⟩
  · rw [hcat]
    exact h.name
  · rw [hmerge.lastId, hcur, threeWay_self, h.lastId]
  · rw [hcat]
    exact h.vacant
  · intro k
    rw [hnew, h.schemas, SortedMap.get?_insert, hcat]
  · intro x y
    unfold Snapshot.table?
    rw [hnew, hcat]
    exact h.table x y
  · intro k
    rw [hnew, hcat]
    exact h.place k
  · rw [hnew, h.schemaVersion, hcat]
  · intro k
    rw [hmerge.record, h.record]
    exact if_pos rfl

end Founding

section Step

variable {b W : Snapshot} {first : Job} {d : Draft}

/--
The draft of a step of the first job, which began at `b`. What the draft begins at is calm since
then, and the tables in it are those of `W`.
-/
structure Closes (R : Rules) (Q : Snapshot → Prop) (limit : Nat) (b W : Snapshot) (first : Job)
    (d : Draft) : Prop where
  base : Fine Q b
  calm : b.Calm d.txn.base
  tidy : d.txn.base.Tidy
  begun : b.firstJob? = some first
  outcome : Outcome limit (Seen R Q b) b first W d.job
  edits : (Txn.begin d.txn.base).Edits d.txn
  table : ∀ x y, d.txn.table? x y = W.table? x y
  /-- The draft is the one that began at `b`, or it does not change the catalog. -/
  catalog : d.txn.base = b ∧ d.txn.working.catalog = W.catalog ∨
    d.txn.working.catalog = d.txn.base.catalog ∧ W.catalog = b.catalog

theorem Closes.get?_jobs (h : Closes R Q limit b W first d) :
    d.txn.base.jobs.get? first.id = some first :=
  ((Snapshot.firstJob?_eq_some_iff h.tidy).1 (h.calm.firstJob? h.base.tidy h.tidy h.begun)).1

structure Persisted (d : Draft) (t : Txn) : Prop where
  origin : t.base = d.txn.base
  catalog : t.working.catalog = d.txn.working.catalog
  lastId : t.working.lastId = d.txn.working.lastId
  record : ∀ k, t.working.record k =
    if k = d.job.id then (if d.job.isFinished then (none, some d.job) else (some d.job, none))
    else d.txn.working.record k

theorem persistJob_persisted (hh : d.txn.working.history.get? d.job.id = none)
    (h : d.txn.persistJob d.job = .ok t) : Persisted d t := by
  rw [Txn.persistJob_eq_ok h]
  refine ⟨rfl, Snapshot.catalog_keep _ _, Snapshot.lastId_keep _ _, ?_⟩
  intro k
  split
  · next hk =>
    rw [hk]
    exact Snapshot.record_keep_self hh
  · next hk => exact Snapshot.record_keep _ _ hk

theorem Closes.persisted (h : Closes R Q limit b W first d) (hp : d.txn.persistJob d.job = .ok t) :
    Persisted d t := by
  apply persistJob_persisted _ hp
  have hh : d.txn.working.history = d.txn.base.history := h.edits.history
  rw [hh, h.outcome.follows.id]
  apply h.tidy.sound.history_of_jobs
  simp [SortedMap.contains_iff, h.get?_jobs]

theorem Closes.fits (h : Closes R Q limit b W first d) (hp : Persisted d t)
    (hf : store.file = none) (hs : d.txn.base.Before store.snapshot) : store.Fits t := by
  refine ⟨hf, hp.origin ▸ hs, ?_⟩
  rw [hp.origin]
  constructor
  · rw [hp.lastId, h.edits.lastId]
    exact Int.le_refl _
  · intro k hk
    rw [hp.record, if_neg, h.edits.record]
    · rfl
    · rintro rfl
      apply hk
      rw [h.outcome.follows.id]
      apply h.tidy.sound.history_of_jobs
      simp [SortedMap.contains_iff, h.get?_jobs]

theorem Closes.stepped (h : Closes R Q limit b W first d) (hp : Persisted d t)
    (hf : store.file = none) (hs : d.txn.base.Calm store.snapshot)
    (hc : store.commit t = .ok store') :
    Stepped R Q limit store.snapshot store'.snapshot b W first d.job := by
  -- A step that is committed finds the tables as they were when it began.
  obtain ⟨hcomp, hmerge, -⟩ := (Store.commit_eq_ok_iff (h.fits hp hf hs.before)).1 hc
  rw [hp.origin] at hcomp hmerge
  have hlast : t.working.lastId = d.txn.base.lastId := hp.lastId.trans h.edits.lastId
  have hid : first.id ≤ d.txn.base.lastId := h.tidy.le_lastId (by simp [h.get?_jobs])
  have hcat := threeWay_cases hcomp.catalog
  -- Either the step did not touch the catalog, or nobody else did.
  rw [← hmerge.catalog, hp.catalog] at hcat
  refine ⟨h.base, h.calm.trans hs, h.begun, h.outcome, ?_, ?_, ?_, ?_, ?_, ?_, hmerge.revision⟩
  · rw [hmerge.lastId, hlast]
    exact if_pos rfl
  · cases hcat with
    | inl hcat => rw [hcat.2]
    | inr hcat =>
      rw [hcat.2, hcat.1]
      exact h.edits.schemas
  · intro x y
    rw [← h.table]
    cases hcat with
    | inl hcat =>
      have hsame : d.txn.table? x y = d.txn.base.table? x y := by
        unfold Txn.table? Snapshot.table?
        rw [hcat.1]
      have hnow : store'.snapshot.table? x y = store.snapshot.table? x y := by
        unfold Snapshot.table?
        rw [hcat.2]
      rw [hnow, hs.table, hsame]
    | inr hcat =>
      unfold Txn.table? Snapshot.table?
      rw [hcat.2]
  · cases hcat with
    | inl hcat => exact Int.le_of_eq (congrArg (·.schemaVersion) hcat.2.symm)
    | inr hcat =>
      rw [hcat.2, hcat.1]
      exact h.edits.schemaVersion
  · rcases h.catalog with ⟨hbase, hW⟩ | ⟨hsame, hW⟩
    · rcases hcat with ⟨hdraft, hnow⟩ | ⟨hdraft, hnow⟩
      · exact .inl ⟨hW.symm.trans (hdraft.trans (congrArg _ hbase)), hnow⟩
      · exact .inr ⟨hdraft.trans (congrArg _ hbase), hnow.trans hW⟩
    · rcases hcat with ⟨-, hnow⟩ | ⟨hdraft, hnow⟩
      · exact .inl ⟨hW, hnow⟩
      · exact .inl ⟨hW, hnow.trans (hsame.trans hdraft.symm)⟩
  · intro k
    rw [hmerge.record, hp.record, h.outcome.follows.id]
    split
    · next hk =>
      rw [hk, hs.record _ hid, threeWay_self]
    · rw [h.edits.record]
      exact if_pos rfl

end Step

end Steward.Ledger
