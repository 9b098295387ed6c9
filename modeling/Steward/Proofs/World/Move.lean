import Steward.Proofs.World.Plan
import Steward.Proofs.World.Queue

/-!
This module contains the moves of a ledger, one commit at a time: a job is submitted, a schema is
created, or the first job takes a step. Other moves may come between the beginning of a step and
its commit, but none that touches a table.
-/

namespace Steward.Ledger

open Catalog (Schema Table)
open Change (Job)
open Engine (Statement)
open Step (Outcome Surroundings)

/--
What the statements of a run are like, and when foreign keys are checked in it.
-/
structure Rules where
  statement : Statement → Prop
  checks : Bool → Prop

structure Fine (Q : Snapshot → Prop) (s : Snapshot) : Prop where
  holds : Q s
  tidy : s.Tidy

structure Shows (Q : Snapshot → Prop) (v : View) (p : Snapshot) : Prop extends Fine Q p where
  view : v = .ofSnapshot p

/--
What a step may see that began at `b`: no table was touched since the view was loaded.
-/
def Seen (R : Rules) (Q : Snapshot → Prop) (b : Snapshot) (s : Surroundings) : Prop :=
  R.checks s.checksForeignKeys ∧ ∃ p, Shows Q s.view p ∧ p.Calm b

/--
The job of a statement is put into the queue. The statement was checked some time before.
-/
structure Submitted (R : Rules) (Q : Snapshot → Prop) (s s' : Snapshot) (job : Job) : Prop where
  made : ∃ st σ v p, R.statement st ∧ Shows Q v p ∧ p.Precedes s ∧ v.schema? st.schema = some σ ∧
    st.Makes σ job
  status : job.status = .queued
  fresh : s.lastId < job.id
  lastId : s'.lastId = job.id
  catalog : s'.catalog = s.catalog
  record : ∀ k, s'.record k = if k = job.id then (some job, none) else s.record k
  revision : s'.revision = s.revision + 1

/--
A job that was not begun is put at the end of the queue.
-/
structure Appended (s s' : Snapshot) (job : Job) : Prop where
  status : job.status = .queued
  fresh : s.lastId < job.id
  lastId : s'.lastId = job.id
  catalog : s'.catalog = s.catalog
  record : ∀ k, s'.record k = if k = job.id then (some job, none) else s.record k
  revision : s'.revision = s.revision + 1

structure Founded (s s' : Snapshot) (σ : Schema) : Prop where
  stage : σ.stage = .live
  name : ∀ k x, s.catalog.schemas.get? k = some x → Text.same x.name σ.name = false
  fresh : s.lastId < σ.id
  lastId : s'.lastId = σ.id
  vacant : s.catalog.schemas.get? σ.id = none
  schemas : ∀ k, s'.catalog.schemas.get? k = if k = σ.id then some σ else s.catalog.schemas.get? k
  table : ∀ x y, s'.table? x y = s.table? x y
  place : ∀ k, (s'.catalog.tables.get? k).isSome ↔ k = σ.id ∨ (s.catalog.tables.get? k).isSome
  schemaVersion : s'.catalog.schemaVersion = s.catalog.schemaVersion + 1
  record : ∀ k, s'.record k = s.record k
  revision : s'.revision = s.revision + 1

/--
The job `first` takes a step that began at `b` and leaves the tables as in `W`.
-/
structure Stepped (R : Rules) (Q : Snapshot → Prop) (limit : Nat) (s s' b W : Snapshot)
    (first j : Job) : Prop where
  base : Fine Q b
  calm : b.Calm s
  begun : b.firstJob? = some first
  outcome : Outcome limit (Seen R Q b) b first W j
  lastId : s'.lastId = s.lastId
  schemas : s'.catalog.schemas = s.catalog.schemas
  table : ∀ x y, s'.table? x y = W.table? x y
  schemaVersion : s.catalog.schemaVersion ≤ s'.catalog.schemaVersion
  /-- Either the step did not change the catalog, or nobody else did. -/
  catalog : W.catalog = b.catalog ∧ s'.catalog = s.catalog ∨
    s.catalog = b.catalog ∧ s'.catalog = W.catalog
  record : ∀ k, s'.record k =
    if k = first.id then (if j.isFinished then (none, some j) else (some j, none)) else s.record k
  revision : s'.revision = s.revision + 1

inductive Move (R : Rules) (Q : Snapshot → Prop) (limit : Nat) (s s' : Snapshot) : Prop where
  | submitted (job : Job) (h : Submitted R Q s s' job)
  | founded (σ : Schema) (h : Founded s s' σ)
  | stepped (b W : Snapshot) (first j : Job) (h : Stepped R Q limit s s' b W first j)

section Moves

variable {R : Rules} {Q : Snapshot → Prop} {limit : Nat} {s s' b W : Snapshot} {job first j : Job}
  {σ : Schema}

theorem Submitted.appended (h : Submitted R Q s s' job) : Appended s s' job :=
  ⟨h.status, h.fresh, h.lastId, h.catalog, h.record, h.revision⟩

theorem Appended.calm (h : Appended s s' job) : s.Calm s' where
  before := by
    refine ⟨.inr ?_, ?_, ?_⟩
    · rw [h.revision]
      exact Nat.lt_succ_self _
    · exact Int.le_of_eq (congrArg (·.schemaVersion) h.catalog.symm)
    · rw [h.lastId]
      exact Int.le_of_lt h.fresh
  schema id σ hσ := by
    rw [h.catalog]
    exact hσ
  table x y := by
    unfold Snapshot.table?
    rw [h.catalog]
  record id hid := by
    have := h.fresh
    rw [h.record, if_neg (by omega)]

theorem Appended.recorded (h : Appended s s' job) (hs : s.Sound) :
    s.Recorded s' job.id (some job, none) where
  record := h.record
  apart := .inr rfl
  lastId := h.calm.before.lastId
  numbered := Int.le_of_eq h.lastId.symm
  unfinished := congrArg Prod.snd (hs.record_of_lt h.fresh)

theorem Appended.tidy (h : Appended s s' job) (hs : s.Tidy) (hkind : job.kind = job.args.kind)
    (hstage : job.stage = job.kind.initial) : s'.Tidy := by
  have hfresh := h.fresh
  have hjobs (k : Int) : s'.jobs.get? k = if k = job.id then some job else s.jobs.get? k := by
    have hk := congrArg Prod.fst (h.record k)
    split at hk
    · next he => rw [if_pos he]; exact hk
    · next he => rw [if_neg he]; exact hk
  constructor
  case sound => exact (h.recorded hs.sound).sound hs.sound
  case keyed =>
    constructor
    · intro x y t ht
      rw [h.calm.table] at ht
      exact hs.keyed.id x y t ht
    · intro x y t ht
      rw [h.calm.table] at ht
      rw [h.catalog]
      exact hs.keyed.schema x y t ht
  case filed =>
    intro k j hj
    rw [hjobs] at hj
    split at hj
    · next he =>
      cases hj
      refine ⟨he.symm, hkind, ?_⟩
      unfold Job.isFinished
      rw [h.status]
      rfl
    · exact hs.filed k j hj
  case waiting =>
    intro k id j hj hlt hk
    rw [hjobs] at hj hk
    split at hj
    · cases hj
      exact ⟨hstage, h.status⟩
    · -- The new job comes last.
      have hid : id ≤ s.lastId := hs.le_lastId (by simp [hj])
      rw [if_neg (by omega)] at hk
      exact hs.waiting k id j hj hlt hk

theorem Submitted.calm (h : Submitted R Q s s' job) : s.Calm s' := h.appended.calm

theorem Submitted.recorded (h : Submitted R Q s s' job) (hs : s.Sound) :
    s.Recorded s' job.id (some job, none) := h.appended.recorded hs

theorem Submitted.tidy (h : Submitted R Q s s' job) (hs : s.Tidy) : s'.Tidy := by
  obtain ⟨st, σ, v, p, _, _, _, _, hmade⟩ := h.made
  exact h.appended.tidy hs hmade.kind hmade.stage

theorem Founded.calm (h : Founded s s' σ) : s.Calm s' where
  before := by
    refine ⟨.inr ?_, ?_, ?_⟩
    · rw [h.revision]
      exact Nat.lt_succ_self _
    · rw [h.schemaVersion]
      exact Int.le_of_lt (Int.lt_succ _)
    · rw [h.lastId]
      exact Int.le_of_lt h.fresh
  schema id x hx := by
    rw [h.schemas, if_neg]
    · exact hx
    · rintro rfl
      rw [h.vacant] at hx
      cases hx
  table := h.table
  record id _ := h.record id

theorem Founded.tidy (h : Founded s s' σ) (hs : s.Tidy) : s'.Tidy := by
  have hjobs (k : Int) : s'.jobs.get? k = s.jobs.get? k := congrArg Prod.fst (h.record k)
  constructor
  case sound =>
    constructor
    · intro k hk
      rw [h.record] at hk
      have := hs.sound.numbered k hk
      have := h.fresh
      rw [h.lastId]
      omega
    · intro k
      have hk := h.record k
      exact (hs.sound.apart k).imp (congrArg Prod.fst hk).trans (congrArg Prod.snd hk).trans
  case keyed =>
    constructor
    · intro x y t ht
      rw [h.table] at ht
      exact hs.keyed.id x y t ht
    · intro x y t ht
      rw [h.table] at ht
      obtain ⟨τ, hτ⟩ := Option.isSome_iff_exists.1 (hs.keyed.schema x y t ht)
      rw [h.calm.schema x τ hτ]
      rfl
  case filed =>
    intro k j hj
    rw [hjobs] at hj
    exact hs.filed k j hj
  case waiting =>
    intro k id j hj hlt hk
    rw [hjobs] at hj hk
    exact hs.waiting k id j hj hlt hk

theorem Stepped.follows (h : Stepped R Q limit s s' b W first j) : first.Follows j :=
  h.outcome.follows

theorem Stepped.table_eq (h : Stepped R Q limit s s' b W first j) : s'.table? = W.table? :=
  funext fun x => funext (h.table x)

theorem Stepped.precedes (h : Stepped R Q limit s s' b W first j) : s.Precedes s' where
  before := by
    refine ⟨.inr ?_, h.schemaVersion, ?_⟩
    · rw [h.revision]
      exact Nat.lt_succ_self _
    · exact Int.le_of_eq h.lastId.symm
  schema id σ hσ := by
    rw [h.schemas]
    exact hσ

theorem Stepped.first_now (h : Stepped R Q limit s s' b W first j) (hs : s.Tidy) :
    s.firstJob? = some first := h.calm.firstJob? h.base.tidy hs h.begun

theorem Stepped.get?_jobs (h : Stepped R Q limit s s' b W first j) (k : Int) :
    s'.jobs.get? k =
      if k = first.id then (if j.isFinished then none else some j) else s.jobs.get? k := by
  have hk := congrArg Prod.fst (h.record k)
  split at hk
  · next he =>
    rw [if_pos he]
    split at hk
    · next hf => rw [if_pos hf]; exact hk
    · next hf => rw [if_neg hf]; exact hk
  · next he => rw [if_neg he]; exact hk

theorem Stepped.keyed (h : Stepped R Q limit s s' b W first j) : s'.Keyed := by
  have hW := h.outcome.edits.keyed h.base.tidy.keyed
  constructor
  · intro x y t ht
    rw [h.table] at ht
    exact hW.id x y t ht
  · intro x y t ht
    rw [h.table] at ht
    have hb := hW.schema x y t ht
    rw [h.outcome.edits.schemas] at hb
    obtain ⟨σ, hσ⟩ := Option.isSome_iff_exists.1 hb
    rw [h.schemas, h.calm.schema x σ hσ]
    rfl

theorem Stepped.recorded (h : Stepped R Q limit s s' b W first j) (hs : s.Tidy) :
    s.Recorded s' first.id (if j.isFinished then (none, some j) else (some j, none)) where
  record := h.record
  apart := by
    split
    · exact .inl rfl
    · exact .inr rfl
  lastId := h.precedes.before.lastId
  numbered := by
    rw [h.lastId]
    apply hs.le_lastId
    simp [((Snapshot.firstJob?_eq_some_iff hs).1 (h.first_now hs)).1]
  unfinished := by
    apply hs.sound.history_of_jobs
    simp [SortedMap.contains, ((Snapshot.firstJob?_eq_some_iff hs).1 (h.first_now hs)).1]

theorem Stepped.tidy (h : Stepped R Q limit s s' b W first j) (hs : s.Tidy) : s'.Tidy :=
  (h.recorded hs).tidy hs (h.first_now hs) h.follows h.keyed

theorem Move.precedes (h : Move R Q limit s s') : s.Precedes s' := by
  cases h with
  | submitted job h => exact h.calm.toPrecedes
  | founded σ h => exact h.calm.toPrecedes
  | stepped b W first j h => exact h.precedes

theorem Move.tidy (h : Move R Q limit s s') (hs : s.Tidy) : s'.Tidy := by
  cases h with
  | submitted job h => exact h.tidy hs
  | founded σ h => exact h.tidy hs
  | stepped b W first j h => exact h.tidy hs

end Moves

end Steward.Ledger
