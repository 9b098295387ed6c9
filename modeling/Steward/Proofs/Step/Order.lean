import Steward.Proofs.Step.Budget

/-!
This module contains where a step leaves the stage of its job, whatever the handler does. A move out
of order is taken back, and a step that fails leaves the catalog as it was, but what a handler wrote
on its job before it failed is committed.
-/

namespace Steward

open Catalog (Fault Stage)
open Change (Job Kind Trouble)
open Ledger

namespace Step

/--
What the snapshot keeps of the job is the job as it is, in the history if it is over.
-/
structure Files (s : Snapshot) (j : Job) : Prop where
  jobs : s.jobs.get? j.id = if j.isFinished then none else some j
  history : j.isFinished = true → s.history.get? j.id = some j

/--
What a step that its handler ended with `r` may make of the job `j`: the move is in the order of the
stages, and a failure does not move the job at all.
-/
structure Orderly (j : Job) (r : Result) (j' : Job) : Prop where
  allowed : j'.kind.allows j.stage j'.stage j'.status = true
  still : isFailure r = true → j'.stage = j.stage

/--
What a step commits: the draft of its handler, or the job alone with what went wrong.
-/
inductive Commits (limit : Nat) (s : Store) (source : Stage) (r : Result) (s' : Store) (job : Job) :
    Prop where
  | success (v : Int) (d : Draft) (hr : r = (.ok v, d))
      (ho : d.job.kind.allows source d.job.stage d.job.status = true) (error : Option Fault)
      (hjob : job = { d.job with schemaVersion := v, error })
      (hs : d.txn.base = s.snapshot →
        s'.snapshot = { d.txn.working.keep job with revision := s.snapshot.revision + 1 })
  | failure (t : Trouble) (d : Draft) (hr : r = (.error t, d)) (ht : t.isTransient = false)
      (hjob : job = blame limit d.job t)
      (hs : s'.snapshot = { s.snapshot.keep job with revision := s.snapshot.revision + 1 })
  | disorder (v : Int) (d : Draft) (hr : r = (.ok v, d))
      (ho : d.job.kind.allows source d.job.stage d.job.status = false) (t : Trouble)
      (hjob : job = blame limit { d.job with stage := source } t)
      (hs : s'.snapshot = { s.snapshot.keep job with revision := s.snapshot.revision + 1 })

section Commit

variable {limit : Nat} {s s' : Store} {owned : Bool} {source : Stage} {r : Result} {d : Draft}
  {what : String} {job : Job}

theorem allows_self (k : Kind) (st : Stage) (σ : Change.Status) : k.allows st st σ = true := by
  unfold Kind.allows
  rw [beq_self_eq_true, Bool.true_or]

theorem files_keep (s : Snapshot) (revision : Nat) (j : Job) :
    Files { s.keep j with revision } j := ⟨jobs_keep s j, history_keep s j⟩

theorem commits_alone {j : Job} (h : commit s what ⟨s.begin, j⟩ = .ok (.committed s' job)) :
    job = j ∧ s'.snapshot = { s.snapshot.keep job with revision := s.snapshot.revision + 1 } := by
  obtain ⟨rfl, -⟩ := commit_eq_committed h
  exact ⟨rfl, snapshot_of_commit rfl h⟩

theorem commits_of_conclude
    (h : conclude limit s owned source r = .ok (.committed s' job)) :
    Commits limit s source r s' job := by
  obtain ⟨result, d⟩ := r
  unfold conclude settle guardOrder at h
  cases result with
  | ok v =>
    dsimp only at h
    cases ho : d.job.kind.allows source d.job.stage d.job.status with
    | true =>
      rw [ho, if_pos rfl] at h
      cases owned with
      | true =>
        dsimp only [if_true] at h
        obtain ⟨hjob, -⟩ := commit_eq_committed h
        refine .success v d rfl ho _ hjob fun hb => ?_
        rw [hjob]
        exact snapshot_of_commit hb h
      | false => cases h
    | false =>
      rw [ho, if_neg Bool.false_ne_true] at h
      obtain ⟨hjob, hs⟩ := commits_alone h
      exact .disorder v d rfl ho _ hjob hs
  | error t =>
    dsimp only at h
    cases ht : t.isTransient with
    | true =>
      rw [ht, if_pos rfl] at h
      cases h
    | false =>
      rw [ht, if_neg Bool.false_ne_true] at h
      obtain ⟨hjob, hs⟩ := commits_alone h
      exact .failure t d rfl ht hjob hs

end Commit

section Orderly

variable {limit : Nat} {s s' : Store} {r : Result} {j job : Job} {v : Int} {d : Draft} {t : Trouble}

theorem not_isFailure_ok (v : Int) (d : Draft) : ¬ isFailure (.ok v, d) = true := Bool.false_ne_true

theorem isFailure_error (ht : t.isTransient = false) : isFailure (.error t, d) = true :=
  (Bool.not_eq_true' _).mpr ht

theorem guardOrder_of_allowed
    (ho : d.job.kind.allows j.stage d.job.stage d.job.status = true) :
    guardOrder j.stage (.ok v, d) = (.ok v, d) := if_pos ho

theorem Orderly.of_ok (ho : job.kind.allows j.stage job.stage job.status = true) :
    Orderly j (.ok v, d) job where
  allowed := ho
  still h := absurd h (not_isFailure_ok v d)

theorem Orderly.of_still (h : job.stage = j.stage) : Orderly j r job where
  allowed := by
    rw [h]
    exact allows_self _ _ _
  still _ := h

theorem Commits.stage (h : Commits limit s j.stage r s' job) :
    job.stage = (guardOrder j.stage r).2.job.stage := by
  cases h with
  | success v d hr ho error hjob =>
    subst hr hjob
    rw [guardOrder_of_allowed ho]
  | failure t d hr ht hjob =>
    subst hr hjob
    exact stage_blame limit d.job t
  | disorder v d hr ho t hjob =>
    subst hr hjob
    unfold guardOrder
    dsimp only
    rw [ho, if_neg Bool.false_ne_true]
    exact stage_blame limit _ t

theorem Commits.orderly_iff (h : Commits limit s j.stage r s' job) :
    Orderly j r job ↔ (isFailure r = true → r.2.job.stage = j.stage) := by
  have hstage := h.stage
  cases h with
  | success v d hr ho error hjob =>
    subst hr hjob
    exact iff_of_true (.of_ok ho) fun h => absurd h (not_isFailure_ok v d)
  | failure t d hr ht hjob =>
    subst hr
    constructor
    · intro h hf
      exact hstage.symm.trans (h.still hf)
    · intro h
      exact .of_still (hstage.trans (h (isFailure_error ht)))
  | disorder v d hr ho t hjob =>
    subst hr hjob
    refine iff_of_true (.of_still ?_) fun h => absurd h (not_isFailure_ok v d)
    exact stage_blame limit _ t

theorem Commits.snapshot (h : Commits limit s j.stage r s' job)
    (hf : isFailure (guardOrder j.stage r) = true) :
    s'.snapshot = { s.snapshot.keep job with revision := s.snapshot.revision + 1 } := by
  cases h with
  | success v d hr ho =>
    subst hr
    rw [guardOrder_of_allowed ho] at hf
    exact absurd hf (not_isFailure_ok v d)
  | failure t d hr ht hjob hs => exact hs
  | disorder v d hr ho t hjob hs => exact hs

theorem Commits.files (h : Commits limit s j.stage r s' job)
    (hb : isFailure (guardOrder j.stage r) = true ∨ r.2.txn.base = s.snapshot) :
    Files s'.snapshot job := by
  cases hb with
  | inl hf =>
    rw [h.snapshot hf]
    exact files_keep _ _ _
  | inr hb =>
    cases h with
    | success v d hr ho error hjob hs =>
      subst hr
      rw [hs hb]
      exact files_keep _ _ _
    | failure t d hr ht hjob hs =>
      rw [hs]
      exact files_keep _ _ _
    | disorder v d hr ho t hjob hs =>
      rw [hs]
      exact files_keep _ _ _

end Orderly

section Attempts

variable {limit : Nat} {s s₁ s₂ : Store} {a : Attempt} {source : Stage} {r : Result}
  {owned : Bool} {job : Job}

theorem Attempt.orderly_of_standard (ha : a.handlers = .standard) (hk : s.snapshot.Keyed)
    (hkind : ∀ j, s.snapshot.firstJob? = some j → j.kind = j.args.kind)
    (hr : a.returned s = some (source, r))
    (hc : conclude limit s₁ owned source r = .ok (.committed s₂ job)) :
    ∃ j, s.snapshot.firstJob? = some j ∧ Orderly j r job := by
  obtain ⟨j, hfirst, rfl, hends⟩ := a.first_of_returned hr
  have hstarted := Job.follows_started j
  rw [ha, ← hstarted.kind] at hends
  have htook := standard_took (d := ⟨s.begin, j.started⟩) hk
    (hstarted.kind_eq (hkind j hfirst)) trivial hends
  refine ⟨j, hfirst, (commits_of_conclude hc).orderly_iff.2 ?_⟩
  intro hf
  obtain ⟨result, d⟩ := r
  cases result with
  | ok v => exact absurd hf (not_isFailure_ok v d)
  | error t => exact (htook.framed.failed t rfl).1.trans (Job.stage_started j)

/--
Whatever the handler and the ledger, and whoever else commits while the handler is at work: the
stages of a job that is committed are in order, and no failure moves it, just if a handler that fails
for good leaves the stage of its job as it was. The catalog is untouched by a step that fails, and
the ledger keeps the job that was committed.
-/
theorem Attempt.committed_orderly_iff (hr : a.returned s = some (source, r))
    (hc : conclude limit s₁ owned source r = .ok (.committed s₂ job)) :
    ∃ j, s.snapshot.firstJob? = some j ∧
      (Orderly j r job ↔ (isFailure r = true → r.2.job.stage = j.stage)) ∧
      job.stage = (guardOrder j.stage r).2.job.stage ∧
      (isFailure (guardOrder j.stage r) = true → s₂.snapshot.catalog = s₁.snapshot.catalog) ∧
      (isFailure (guardOrder j.stage r) = true ∨ r.2.txn.base = s₁.snapshot →
        Files s₂.snapshot job) := by
  obtain ⟨j, hfirst, rfl, -⟩ := a.first_of_returned hr
  have hcommits := commits_of_conclude hc
  refine ⟨j, hfirst, hcommits.orderly_iff, hcommits.stage, ?_, hcommits.files⟩
  intro hf
  rw [hcommits.snapshot hf]
  exact Snapshot.catalog_keep _ _

end Attempts

section Cases

def dropJob : Job :=
  { Job.ofArgs 1 2 "shop" "items" (.dropIndex "by_id") with id := 1, status := .queued }

def Attempt.strayed : Attempt :=
  .ofPlan ⟨none, some .deleteOnly, some (.ofText "storage unavailable")⟩

def strayedResult : Result :=
  (.error (.ofText "storage unavailable"),
    ⟨dropQueued.begin, { dropJob.started with stage := .deleteOnly }⟩)

def strayedJob : Job := blame 512 strayedResult.2.job (.ofText "storage unavailable")

def strayedStore : Store :=
  ⟨{ dropQueued.snapshot.keep strayedJob with revision := dropQueued.snapshot.revision + 1 }, none⟩

theorem Attempt.returned_strayed :
    Attempt.strayed.returned dropQueued = some (.live, strayedResult) := rfl

theorem Attempt.conclude_strayed : conclude 512 dropQueued true .live strayedResult =
    .ok (.committed strayedStore strayedJob) := by
  unfold conclude strayedResult
  rw [settle_of_failure 512 dropQueued .live (by decide)]
  exact commit_own_of_contains (d := ⟨dropQueued.begin, strayedJob⟩) rfl _ rfl (by decide +kernel)

theorem Attempt.committed_orderly_iff_strayedDrop :
    (Attempt.strayed.returned dropQueued = some (.live, strayedResult) ∧
      conclude 512 dropQueued true .live strayedResult =
        .ok (.committed strayedStore strayedJob)) ∧
    ∃ j, dropQueued.snapshot.firstJob? = some j ∧
      (Orderly j strayedResult strayedJob ↔
        (isFailure strayedResult = true → strayedResult.2.job.stage = j.stage)) ∧
      strayedJob.stage = (guardOrder j.stage strayedResult).2.job.stage ∧
      (isFailure (guardOrder j.stage strayedResult) = true →
        strayedStore.snapshot.catalog = dropQueued.snapshot.catalog) ∧
      (isFailure (guardOrder j.stage strayedResult) = true ∨
          strayedResult.2.txn.base = dropQueued.snapshot →
        Files strayedStore.snapshot strayedJob) :=
  ⟨⟨returned_strayed, conclude_strayed⟩, committed_orderly_iff returned_strayed conclude_strayed⟩

theorem Attempt.not_orderly_strayedDrop :
    ¬ ∀ (limit : Nat) (s s' : Store) (a : Attempt) (source : Stage) (r : Result) (j job : Job),
      s.snapshot.firstJob? = some j → a.returned s = some (source, r) →
      conclude limit s true source r = .ok (.committed s' job) → Orderly j r job := by
  intro h
  have hkept : Orderly dropJob strayedResult strayedJob :=
    h _ _ _ _ _ _ _ _ rfl returned_strayed conclude_strayed
  have hstill : strayedJob.stage = .live := hkept.still rfl
  have hmoved : strayedJob.stage = .deleteOnly := stage_blame _ _ _
  rw [hmoved] at hstill
  cases hstill

end Cases

end Step

end Steward
