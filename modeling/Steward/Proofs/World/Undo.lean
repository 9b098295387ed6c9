import Steward.Proofs.Step.Undo
import Steward.Proofs.World.Versions

/-!
This module contains the way back of a job: `rollback_restores` says that a job on its way, if it is
turned back, undoes in its next step all that it changed of the catalog, whatever was submitted since
its first step.
-/

namespace Steward

open Catalog (Fault Table)
open Change (Job)
open Ledger
open Step (Draft Surroundings)

namespace Ledger

/--
The snapshot with another record of a job in the queue, in some revision.
-/
def Snapshot.withRecord (s : Snapshot) (revision : Nat) (j : Job) : Snapshot :=
  { s with revision, jobs := s.jobs.insert j.id j }

def Snapshot.archived (s : Snapshot) (j : Job) : Snapshot :=
  { s with jobs := s.jobs.erase j.id, history := s.history.insert j.id j }

/--
The two differ in nothing but the tables in their places and the schema version, unless a schema was
created.
-/
def Description.Grows (c c' : Description) : Prop :=
  c.Alike c' ∨ ∃ x, c.schemas.get? x = none ∧ c'.schemas.get? x ≠ none

theorem Description.Grows.trans {c c' c'' : Description} (h : c.Grows c') (h' : c'.Grows c'')
    (hs : ∀ x σ, c'.schemas.get? x = some σ → c''.schemas.get? x = some σ) : c.Grows c'' := by
  rcases h with h | ⟨x, hnone, hsome⟩
  · rcases h' with h' | ⟨x, hnone, hsome⟩
    · exact .inl (h.trans h')
    · exact .inr ⟨x, h.schemas ▸ hnone, hsome⟩
  · refine .inr ⟨x, hnone, ?_⟩
    obtain ⟨σ, hσ⟩ := Option.ne_none_iff_exists'.1 hsome
    rw [hs x σ hσ]
    exact Option.some_ne_none σ

variable {all : Bool} {R : Rules} {Q : Snapshot → Prop} {limit : Nat} {s₀ s s' b W : Snapshot}
  {j₀ first j : Job}

/--
The job was the first one at `s₀` and still is. The tables are as it has shaped them since, and the
rest of the catalog is the same if no schema was created.
-/
structure Leads (s₀ : Snapshot) (j₀ : Job) (s : Snapshot) (j : Job) : Prop where
  first : s.firstJob? = some j
  follows : j₀.Follows j
  shaped : j.Shaped s₀.table? s.table?
  grows : s₀.catalog.Grows s.catalog

def Led (s₀ : Snapshot) (j₀ : Job) (s : Snapshot) : Prop :=
  s.history.get? j₀.id ≠ none ∨ ∃ j, Leads s₀ j₀ s j

/--
The next step at `s` is over at once. It ends the job that led the queue at `s₀`, and brings back the
tables of that time, except that the table of the job was written anew.
-/
structure Undoes (limit : Nat) (s₀ : Snapshot) (j₀ : Job) (x : Surroundings) (s s' : Snapshot)
    (j : Job) (t : Table) : Prop where
  step : ∃ source r, Step.begin ⟨s, none⟩ .standard x = some ⟨source, .done r⟩ ∧
    Step.conclude limit ⟨s, none⟩ true source r = .ok (.committed ⟨s', none⟩ j)
  record : s'.record j₀.id = (none, some j)
  status : j.status = .rollbackDone
  stage : j.stage = j₀.kind.initial
  found : s₀.table? j₀.schemaId j₀.tableId = some t
  table : ∀ a b, s'.table? a b = if a = j₀.schemaId ∧ b = j₀.tableId then
    some (j₀.restored t x.stamp) else s₀.table? a b
  alike : s.catalog.Alike s'.catalog

theorem leads_self (hfirst : s₀.firstJob? = some j₀) (hinitial : j₀.stage = j₀.kind.initial) :
    Leads s₀ j₀ s₀ j₀ := ⟨hfirst, .refl j₀, .inl ⟨hinitial, rfl⟩, .inl (.refl _)⟩

theorem Leads.calm (h : Leads s₀ j₀ s j) (hs : s.Tidy) (hs' : s'.Tidy) (hc : s.Calm s')
    (hgrows : s.catalog.Grows s'.catalog) : Leads s₀ j₀ s' j where
  first := hc.firstJob? hs hs' h.first
  follows := h.follows
  shaped := by
    rw [hc.table_eq]
    exact h.shaped
  grows := h.grows.trans hgrows hc.schema

theorem Snapshot.firstJob?_withRecord (hs : s.Tidy) (hj : s.firstJob? = some j) {j' : Job}
    (hid : j'.id = j.id) (revision : Nat) : (s.withRecord revision j').firstJob? = some j' := by
  obtain ⟨hget, hleast⟩ := (Snapshot.firstJob?_eq_some_iff hs).1 hj
  unfold firstJob?
  rw [Option.map_eq_some_iff]
  refine ⟨(j'.id, j'), SortedMap.first?_eq_some_iff.2 ⟨?_, ?_⟩, rfl⟩
  · exact (SortedMap.get?_insert _ _ _ _).trans (if_pos rfl)
  · intro k hk
    apply Int.compare_ne_gt.2
    rw [hid]
    unfold withRecord at hk
    dsimp only at hk
    rw [SortedMap.get?_insert] at hk
    split at hk
    · omega
    · exact hleast k hk

theorem Stepped.first_next (h : Stepped R Q limit s s' b W first j) (hs : s.Tidy)
    (hf : j.isFinished = false) : s'.firstJob? = some j :=
  (h.recorded hs).first_next hs (h.tidy hs) (h.first_now hs) h.follows hf

theorem Stepped.leads (h : Stepped R (Concerted all) limit s s' b W first j) (hs : s.Tidy)
    (hl : Leads s₀ j₀ s first) (hf : j.isFinished = false) : Leads s₀ j₀ s' j := by
  obtain ⟨-, hkind, hfinished⟩ := h.base.tidy.first_filed h.begun
  have hshaped := hl.shaped
  rw [h.calm.table_eq] at hshaped
  obtain ⟨hj, hW⟩ :=
    h.outcome.alters hkind hfinished (h.base.holds.first first h.begun) hshaped hf
  have halike : s.catalog.Alike s'.catalog := by
    rcases h.catalog with ⟨-, hsame⟩ | ⟨hsb, hsW⟩
    · rw [hsame]
      exact .refl _
    · rw [hsb, hsW]
      rcases hW with rfl | ⟨t, ht, rfl⟩
      · exact .refl _
      · exact Txn.alike_written (t := .begin b) ht
  exact ⟨h.first_next hs hf, hl.follows.trans h.follows, h.table_eq ▸ hj,
    hl.grows.trans (.inl halike) h.precedes.schema⟩

end Ledger

namespace Line

variable {limit : Nat} {l : Line} {s₀ s s' : Snapshot} {j₀ : Job}

theorem Turn.led (h : Turn (Concerted false) limit s s') (hs : s.Tidy) (hl : Led s₀ j₀ s) :
    Led s₀ j₀ s' := by
  cases hl with
  | inl hover =>
    -- Nothing leaves the history.
    left
    cases h with
    | handed job h => rwa [h.get?_history hs]
    | founded σ h => rwa [show s'.history.get? j₀.id = _ from congrArg Prod.snd (h.record j₀.id)]
    | stepped b W first j h =>
      rw [h.get?_history hs]
      split
      · exact Option.some_ne_none j
      · exact hover
  | inr hled =>
    obtain ⟨i, hi⟩ := hled
    cases h with
    | handed job h hkind hstage =>
      refine .inr ⟨i, hi.calm hs (h.tidy hs hkind hstage) h.calm (.inl ?_)⟩
      rw [h.catalog]
      exact .refl _
    | founded σ h =>
      refine .inr ⟨i, hi.calm hs (h.tidy hs) h.calm (.inr ⟨σ.id, h.vacant, ?_⟩)⟩
      rw [h.schemas, if_pos rfl]
      exact Option.some_ne_none σ
    | stepped b W first j h =>
      cases hi.first.symm.trans (h.first_now hs)
      cases hf : j.isFinished with
      | false => exact .inr ⟨j, h.leads hs hi hf⟩
      | true =>
        left
        rw [h.get?_history hs, if_pos ⟨hi.follows.id.symm, hf⟩]
        exact Option.some_ne_none j

theorem conclude_undone (limit : Nat) (source : Catalog.Stage) {v : Int} {d : Draft}
    (hq : d.txn.working.jobs.contains d.job.id = true)
    (ho : d.job.kind.allows source d.job.stage d.job.status = true)
    (hs : d.job.status = .rollbackDone) :
    let j := { d.job with schemaVersion := v }
    Step.conclude limit ⟨d.txn.base, none⟩ true source (.ok v, d) =
      .ok (.committed ⟨{ d.txn.working.archived j with
        revision := d.txn.base.revision + 1 }, none⟩ j) := by
  intro j
  have hdone : d.job.isDone = false := by
    unfold Job.isDone
    rw [hs]
    rfl
  have hfinished : j.isFinished = true := by
    unfold Job.isFinished
    rw [show j.status = _ from hs]
    rfl
  have hsettle : Step.settle limit ⟨d.txn.base, none⟩ true source (.ok v, d) =
      some ("commit step", { d with job := j }) := by
    rw [Step.settle_of_allowed limit _ ho, hdone]
    rfl
  have hpersist : d.txn.persistJob j =
      .ok { d.txn with working := d.txn.working.archived j } := by
    unfold Txn.persistJob Txn.finishJob
    rw [if_pos hfinished, if_pos hq]
    rfl
  have hmerged : (Store.mk d.txn.base none).merged
      { d.txn with working := d.txn.working.archived j } =
      .ok { d.txn.working.archived j with revision := d.txn.base.revision + 1 } := by
    unfold Store.merged
    dsimp only
    rw [if_pos rfl]
  unfold Step.conclude
  rw [hsettle]
  unfold Step.commit
  dsimp only
  rw [hpersist]
  dsimp only [bind, Except.bind]
  rw [Store.commit_of_merged rfl hmerged]
  rfl

theorem undoes_of_leads (limit : Nat) {s₁ : Snapshot} {j₁ : Job} (back : Job)
    (h : Leads s₀ j₀ s₁ j₁) (hs : s₁.Tidy) (hc : Concerted false s₁)
    (hpublic : ∀ t, s₀.table? j₀.schemaId j₀.tableId = some t → t.IsPublic)
    (hstage : j₁.stage ≠ j₁.kind.initial) (hback : j₁.Follows back) (hargs : back.args = j₁.args)
    (hsame : back.stage = j₁.stage) (hturned : back.status = .rollingBack) (x : Surroundings)
    (revision : Nat) :
    ∃ s' j t, Undoes limit s₀ j₀ x (s₁.withRecord revision back) s' j t := by
  let s := s₁.withRecord revision back
  obtain ⟨-, hkind, hfinished⟩ := hs.first_filed h.first
  obtain ⟨hi, t, u, ht, hal, hput⟩ := h.shaped.resolve_left fun h => hstage h.1
  have hall := h.follows.trans hback
  have hbk : back.isRollingBack = true := by
    unfold Job.isRollingBack
    rw [hturned]
    rfl
  have hbfinished : back.isFinished = false := Step.isFinished_of_rollingBack hbk
  have hagrees : Step.Agrees false s₁.table? back := by
    apply (hc.first j₁ h.first).follow hback hsame (fun _ => hfinished)
    intro hf
    cases hbfinished.symm.trans hf
  -- The table that the job has altered is in its place.
  have hplace : s₁.table? back.schemaId back.tableId = some u := by
    rw [hback.schemaId, hback.tableId]
    exact hput.self
  have hkeyed : s.Keyed := ⟨hs.keyed.id, hs.keyed.schema⟩
  let d : Draft := ⟨.begin s, back⟩
  have hd : d.Holds u := Draft.holds_of_table? hkeyed hplace
  rw [← h.follows.schemaId, ← h.follows.tableId] at hpublic
  have hbi : back.stage ∈ back.kind.intermediate := by
    rw [hsame, hback.kind]
    exact hi
  obtain ⟨v, hv, hvid, hrun⟩ := Step.standard_undoes (s := x) (d := d) hkeyed
    (hback.kind_eq hkind) hagrees hbi hbk hd (hal.congr hargs hsame) (hpublic t ht)
  rw [hback.schemaId, hback.tableId] at hplace
  have hqueued : s.jobs.contains back.id = true := by
    rw [SortedMap.contains_iff]
    simp [s, Snapshot.withRecord, SortedMap.get?_insert]
  have hconclude := conclude_undone limit j₁.stage (v := d.txn.schemaVersion + 1)
    (d := (d.completed x v .rollbackDone d.job.kind.initial).2) hqueued (Change.Kind.allows_initial _ _ rfl) rfl
  refine ⟨_, _, t, ⟨j₁.stage, _, ?_, hconclude⟩, ?_, rfl, ?_, ?_, ?_, ?_⟩
  · unfold Step.begin
    dsimp only
    rw [Snapshot.firstJob?_withRecord hs h.first hback.id revision, Option.map_some, hsame,
      Job.started_of_rollingBack hbk]
    exact congrArg (fun w => some (Step.Begun.mk j₁.stage w)) hrun
  · rw [← hall.id]
    unfold Snapshot.record Snapshot.archived
    dsimp only
    rw [SortedMap.get?_erase, SortedMap.get?_insert]
    exact congrArg₂ Prod.mk (if_pos rfl) (if_pos rfl)
  · exact congrArg Change.Kind.initial hall.kind
  · rw [← h.follows.schemaId, ← h.follows.tableId]
    exact ht
  · have hwritten : Step.Puts s₁.table? j₁.schemaId j₁.tableId (j₀.restored t x.stamp)
        (d.write x v).txn.table? := by
      have hputs := Step.puts_write (s := x) hvid
      rw [hv] at hputs
      dsimp only [d] at hputs
      rw [hback.schemaId, hback.tableId, Job.restored_eq hall.kind] at hputs
      exact hputs
    rw [← h.follows.schemaId, ← h.follows.tableId]
    exact hput.trans hwritten
  · apply Txn.alike_written (t := .begin s)
    rw [show ({ v with updated := x.stamp } : Table).id = back.tableId from hvid, hback.schemaId,
      hback.tableId]
    exact Option.isSome_of_eq_some hplace

/--
A job that started at `s₀`, on a table whose parts are all public, and that got past its first stage
by `s₁` undoes all that it did if it is turned back there: its next step ends it at its first stage,
and the catalog is that of `s₀` again, except for the version, the time of the last change of the
table, and the largest id of a constraint if one was to be added. Only schemas that were created in
between stay.
-/
theorem rollback_restores (limit : Nat) (es fs : List Event) (x : Surroundings) (revision : Nat)
    (error : Option Fault) (errorCount : Nat) (j₀ j₁ : Job) :
    let s₀ := (empty.run limit es).snapshot
    let s₁ := ((empty.run limit es).run limit fs).snapshot
    s₀.firstJob? = some j₀ → j₀.stage = j₀.kind.initial →
    (∀ t, s₀.table? j₀.schemaId j₀.tableId = some t → t.IsPublic) →
    s₁.jobs.get? j₀.id = some j₁ → j₁.stage ≠ j₀.stage →
    ∃ s' j t, Undoes limit s₀ j₀ x
        (s₁.withRecord revision { j₁ with status := .rollingBack, error, errorCount }) s' j t ∧
      (s₁.catalog.schemas = s₀.catalog.schemas → s'.catalog =
        { s₀.catalog.put j₀.schemaId (j₀.restored t x.stamp) with
          schemaVersion := s'.catalog.schemaVersion }) := by
  intro s₀ s₁ hfirst hinitial hpublic hget hstage
  have hl := concerted_run limit es
  have hl₁ : ((empty.run limit es).run limit fs).Stands (Concerted false) limit :=
    stands_run keeps_concerted hl fs
  have hs₁ : Fine (Concerted false) s₁ := hl₁.world.fine
  have hled : Led s₀ j₀ s₁ :=
    run_keeps (P := Led s₀ j₀) keeps_concerted (fun _ _ hs h => h.led hs.tidy) hl
      (.inr ⟨j₀, leads_self hfirst hinitial⟩) fs
  -- The job is in the queue, so it is not over.
  have hhistory : s₁.history.get? j₀.id = none := by
    apply hs₁.tidy.sound.history_of_jobs
    simp [SortedMap.contains_iff, hget]
  obtain ⟨i, hi⟩ := hled.resolve_left fun h => h hhistory
  obtain rfl : i = j₁ := by
    have higet := ((Snapshot.firstJob?_eq_some_iff hs₁.tidy).1 hi.first).1
    rw [hi.follows.id, hget] at higet
    exact (Option.some.inj higet).symm
  have hmoved : i.stage ≠ i.kind.initial := by
    rw [hi.follows.kind, ← hinitial]
    exact hstage
  obtain ⟨s', j, t, h⟩ := undoes_of_leads limit { i with status := .rollingBack, error, errorCount }
    hi hs₁.tidy hs₁.holds hpublic hmoved ⟨rfl, rfl, rfl, rfl, rfl, rfl, .inl rfl⟩ rfl rfl rfl x revision
  refine ⟨s', j, t, h, ?_⟩
  intro hschemas
  have halike : s₀.catalog.Alike s₁.catalog := by
    apply hi.grows.resolve_right
    rintro ⟨y, hnone, hsome⟩
    rw [hschemas] at hsome
    exact hsome hnone
  have hid : (j₀.restored t x.stamp).id = j₀.tableId :=
    hl.world.fine.tidy.keyed.id _ _ t h.found
  apply (halike.trans h.alike).eq_put
  · rw [hid]
    exact Option.isSome_of_eq_some h.found
  · rw [hid]
    exact h.table

def Event.found (name : String) : Event := .other (.found name) rfl

def Event.commit (n : Nat) : Event := .other (.commit n) rfl

def Event.begin (checks : Bool) (stamp : Nat) : Event := .other (.begin checks stamp) rfl

def Event.settle (owned : Bool) : Event := .other (.settle owned) rfl

def Event.reopen : Event := .other .reopen rfl

def stepOnce (stamp : Nat) : List Event := [.begin true stamp, .settle true, .close, .reopen]

def dropHandedIn : List Event :=
  let table := ((Table.ofName "items").withColumn (.ofName "id" .bigint)).withIndex
    (.ofNames "by_id" ["id"])
  [.found "shop", .commit 0, .draw 0 1 2 "shop" "items" (.createTable table true), .hand 0] ++
    stepOnce 5 ++ [.draw 0 1 2 "shop" "items" (.dropIndex "by_id"), .hand 0]

theorem rollback_restores_dropHandedIn :
    let s₀ := (empty.run 8 dropHandedIn).snapshot
    let s₁ := ((empty.run 8 dropHandedIn).run 8 (stepOnce 6)).snapshot
    let x : Surroundings := ⟨.ofSnapshot s₁, true, 7⟩
    let j₀ := { Job.ofArgs 1 2 "shop" "items" (.dropIndex "by_id") with id := 3 }
    let j₁ := { j₀ with stage := .writeOnly, status := .running, schemaVersion := 3 }
    (s₀.firstJob? = some j₀ ∧ j₀.stage = j₀.kind.initial ∧
      (∀ t, s₀.table? j₀.schemaId j₀.tableId = some t → t.IsPublic) ∧
      s₁.jobs.get? j₀.id = some j₁ ∧ j₁.stage ≠ j₀.stage) ∧
    ∃ s' j t, Undoes 8 s₀ j₀ x
        (s₁.withRecord 9 { j₁ with status := .rollingBack, error := none, errorCount := 0 }) s' j t ∧
      s'.catalog = { s₀.catalog.put 1 { t with updated := 7 } with
        schemaVersion := s'.catalog.schemaVersion } := by
  intro s₀ s₁ x j₀ j₁
  have hfirst : s₀.firstJob? = some j₀ := by decide +kernel
  have hpublic : ∀ t, s₀.table? j₀.schemaId j₀.tableId = some t → t.IsPublic := by
    have hall : (s₀.table? 1 2).all (·.IsPublic) = true := by decide +kernel
    intro t ht
    rw [show s₀.table? 1 2 = some t from ht] at hall
    exact of_decide_eq_true hall
  have hget : s₁.jobs.get? j₀.id = some j₁ := by decide +kernel
  have hstage : j₁.stage ≠ j₀.stage := by decide
  refine ⟨⟨hfirst, rfl, hpublic, hget, hstage⟩, ?_⟩
  obtain ⟨s', j, t, h, hcatalog⟩ :=
    rollback_restores 8 dropHandedIn (stepOnce 6) x 9 none 0 j₀ j₁ hfirst rfl hpublic hget hstage
  exact ⟨s', j, t, h, hcatalog (by decide +kernel)⟩

end Line

end Steward
