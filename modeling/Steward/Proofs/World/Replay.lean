import Steward.Proofs.Ledger.Encoding
import Steward.Proofs.Step.Deed
import Steward.Proofs.World.Progress

/-!
This module contains what becomes of a job that adds a constraint if its record is put back to the
beginning after it took some steps. The next step finds the constraint in the table and changes no
table, and `rewound_job_resumes` says how the job goes on from there.
-/

namespace Steward

open Catalog (Fault ForeignKey Stage Table)
open Change (Job Trouble)
open Ledger

namespace Step

variable {limit : Nat} {s : Store} {a : Attempt} {j j' : Job} {fk old : ForeignKey} {check : Bool}
  {t : Table} {pos : Nat} {st : Stage}

theorem Attempt.run_of_writable (hf : s.file ≠ some .directory) (a : Attempt) (limit : Nat) :
    (a.run limit s).file ≠ some .directory ∧
      (a.run limit s).snapshot = (a.run limit ⟨s.snapshot, none⟩).snapshot := by
  have hreturned : a.returned ⟨s.snapshot, none⟩ = a.returned s := rfl
  unfold run
  rw [hreturned]
  cases a.returned s with
  | none => exact ⟨hf, rfl⟩
  | some x =>
    obtain ⟨source, r⟩ := x
    have hsettle : settle limit ⟨s.snapshot, none⟩ true source r = settle limit s true source r := rfl
    dsimp only
    unfold conclude
    rw [hsettle]
    cases settle limit s true source r with
    | none => exact ⟨hf, rfl⟩
    | some x =>
      obtain ⟨what, d⟩ := x
      dsimp only
      unfold Step.commit
      cases d.txn.persistJob d.job with
      | error e => exact ⟨hf, rfl⟩
      | ok txn =>
        dsimp only [bind, Except.bind]
        rcases Store.commit_of_writable hf txn with ⟨e, hs, hm⟩ | ⟨next, file, hne, hs, hm⟩
        · rw [hs, hm]
          dsimp only
          cases e.isTransient <;> exact ⟨hf, rfl⟩
        · rw [hs, hm]
          exact ⟨hne, rfl⟩

theorem Attempt.runAll_of_writable (hf : s.file ≠ some .directory) (as : List Attempt) (limit : Nat) :
    (runAll limit s as).snapshot = (runAll limit ⟨s.snapshot, none⟩ as).snapshot := by
  induction as generalizing s with
  | nil => rfl
  | cons a as ih =>
    obtain ⟨hfile, hsnapshot⟩ := a.run_of_writable hf limit
    have hnone : (a.run limit ⟨s.snapshot, none⟩).file = none := a.file_run rfl
    have hmemory : Store.mk (a.run limit s).snapshot none = a.run limit ⟨s.snapshot, none⟩ := by
      rw [hsnapshot]
      exact congrArg (Store.mk _) hnone.symm
    have hrest := ih hfile
    rw [hmemory] at hrest
    exact hrest

/--
The first job of the queue is to add a constraint that its table has at a position, in a stage.
-/
structure Carries (s : Snapshot) (j : Job) (fk : ForeignKey) (check : Bool) (t : Table) (pos : Nat)
    (st : Stage) : Prop where
  tidy : s.Tidy
  first : s.firstJob? = some j
  args : j.args = .addForeignKey fk check
  table : s.table? j.schemaId j.tableId = some t
  live : t.stage = .live
  staged : StagedAt t fk.name st pos

/--
The first job of the queue is at its first stage, but the constraint that it is to add is in the table
already.
-/
structure Rewound (s : Snapshot) (j : Job) (fk : ForeignKey) (check : Bool) (t : Table) (pos : Nat)
    (st : Stage) : Prop extends Carries s j fk check t pos st where
  stage : j.stage = .absent
  forward : j.isRollingBack = false
  found : ∃ old, t.findForeignKey? fk.name = some old ∧ old.stage = st ∧ old.sameDefinition fk = true

section Draft

variable {x : Surroundings} {d : Draft}

theorem addForeignKey_resumed (ha : d.job.args = .addForeignKey fk check)
    (hb : d.job.isRollingBack = false) (hs : d.job.stage = .absent) (hd : d.Holds t)
    (hl : t.stage = .live) (ho : stagedAlready? t fk = some old) :
    addForeignKey x d = .done
      (.ok d.txn.schemaVersion, { d with job := { d.job with stage := old.stage } }) := by
  have hstage : (stageForeignKey x t fk check).run d =
      (.ok d.txn.schemaVersion, { d with job := { d.job with stage := old.stage } }) := by
    unfold stageForeignKey
    rw [Act.run_bind_of_ok (Act.run_job d), ho]
    rfl
  have hbegin : (beginAddition x).run d =
      (.ok (.inl d.txn.schemaVersion), { d with job := { d.job with stage := old.stage } }) := by
    unfold beginAddition
    rw [Act.run_bind_of_ok (Act.run_job d), ha]
    dsimp only
    rw [Act.run_bind_of_ok (Act.run_publicTable hd hl), hb, if_neg Bool.false_ne_true, hs]
    dsimp only
    rw [Act.run_bind_of_ok hstage]
    rfl
  unfold addForeignKey
  rw [hbegin]

end Draft

section Steps

variable {W : Snapshot}

theorem Carries.kind (h : Carries s.snapshot j fk check t pos st) : j.kind = .addForeignKey := by
  rw [(h.tidy.first_filed h.first).2.1, h.args]
  rfl

theorem Carries.kind_started (h : Carries s.snapshot j fk check t pos st) :
    j.started.kind = .addForeignKey :=
  (Job.follows_started j).kind.trans h.kind

theorem Carries.status_started (h : Carries s.snapshot j fk check t pos st)
    (hb : j.isRollingBack = false) : j.started.status = .running :=
  Job.status_started (h.tidy.first_filed h.first).2.2 hb

theorem Carries.isFinished_started (h : Carries s.snapshot j fk check t pos st)
    (hb : j.isRollingBack = false) : j.started.isFinished = false := by
  unfold Job.isFinished
  rw [h.status_started hb]
  rfl

theorem Carries.holds (h : Carries s.snapshot j fk check t pos st) :
    Draft.Holds ⟨s.begin, j.started⟩ t := by
  have hstarted := Change.Job.follows_started j
  apply Draft.holds_of_table? h.tidy.keyed
  rw [hstarted.schemaId, hstarted.tableId]
  exact h.table

theorem Carries.next {t' : Table} {st' : Stage} (h : Carries s.snapshot j fk check t pos st)
    (hstep : Advances limit s a j W j') (hn : j'.isFinished = false) (hargs : j'.args = j.args)
    (htable : W.table? j.schemaId j.tableId = some t') (hl : t'.stage = .live)
    (hstaged : StagedAt t' fk.name st' pos) :
    Carries (a.run limit s).snapshot j' fk check t' pos st' where
  tidy := hstep.tidy h.tidy h.first
  first := by
    have hfollows := hstep.outcome.follows
    have htidy := hstep.tidy h.tidy h.first
    exact (hstep.recorded h.tidy h.first).first_next h.tidy htidy h.first hfollows hn
  args := hargs.trans h.args
  table := by
    rw [hstep.table_eq, hstep.outcome.follows.schemaId, hstep.outcome.follows.tableId]
    exact htable
  live := hl
  staged := hstaged

theorem Rewound.stagedAlready? (h : Rewound s.snapshot j fk check t pos st) (hst : st ≠ .live) :
    ∃ old, stagedAlready? t fk = some old ∧ old.stage = st := by
  obtain ⟨old, hfound, rfl, hsame⟩ := h.found
  refine ⟨old, ?_, rfl⟩
  unfold Step.stagedAlready?
  rw [hfound]
  simp [hst, hsame]

theorem Rewound.advances (h : Rewound s.snapshot j fk check t pos st) (hst : st ≠ .live)
    (hf : s.file = none) (ha : a.handlers = .standard) (limit : Nat) :
    ∃ W j' what, settle limit s true .absent
        (.ok s.snapshot.catalog.schemaVersion, ⟨s.begin, { j.started with stage := st }⟩) =
          some (what, ⟨⟨s.snapshot, W⟩, j'⟩) ∧
      Advances limit s a j W j' := by
  let d : Draft := ⟨s.begin, j.started⟩
  obtain ⟨old, hold, rfl⟩ := h.stagedAlready? hst
  have hargs : d.job.args = .addForeignKey fk check := (started_tells j).2.trans h.args
  have hb : d.job.isRollingBack = false := (Job.isRollingBack_started j).trans h.forward
  have hs : d.job.stage = .absent := (Job.stage_started j).trans h.stage
  have hdone := addForeignKey_resumed (x := a.surroundings) hargs hb hs h.holds h.live hold
  have hreturned : a.returned s = some (j.stage, (.ok s.snapshot.catalog.schemaVersion,
      ⟨s.begin, { j.started with stage := old.stage }⟩)) := by
    unfold Attempt.returned Step.begin
    rw [h.first, ha]
    dsimp only [Option.map_some, bind, Option.bind]
    rw [h.kind, show Registry.standard .addForeignKey = addForeignKey from rfl, hdone]
    rfl
  have htook : Took (fun _ => True) a.surroundings d
      (.ok s.snapshot.catalog.schemaVersion, ⟨s.begin, { j.started with stage := old.stage }⟩) := by
    unfold Took
    rw [hargs]
    exact .resumed hb hs t h.holds old hold
  rw [← h.stage]
  exact a.advances_of_returned limit h.tidy hf h.first hreturned htook (lasts_ok _)

theorem Rewound.resumes (h : Rewound s.snapshot j fk check t pos .writeOnly) (hf : s.file = none)
    (ha : a.handlers = .standard) (limit : Nat) :
    Advances limit s a j s.snapshot { j.started with
      stage := .writeOnly, schemaVersion := s.snapshot.catalog.schemaVersion } := by
  obtain ⟨W, j', what, hsettle, hadv⟩ := h.advances nofun hf ha limit
  have hallowed : j.started.kind.allows .absent .writeOnly j.started.status = true := by
    rw [h.kind_started, h.status_started h.forward]
    rfl
  have hdone : ({ j.started with stage := .writeOnly } : Job).isDone = false := by
    unfold Job.isDone
    rw [h.status_started h.forward]
    rfl
  rw [settle_of_allowed limit s hallowed, hdone, if_neg Bool.false_ne_true] at hsettle
  cases hsettle
  exact hadv

theorem Rewound.status_blame (h : Rewound s.snapshot j fk check t pos st) (limit : Nat) {e : Trouble}
    (he : isHopeless e) : (blame limit j.started e).status = .cancelled := by
  -- The record says that nothing was changed yet.
  have hstatus := h.status_started h.forward
  have hinitial : j.started.stage = j.started.kind.initial := by
    rw [Job.stage_started, h.stage, h.kind_started]
    rfl
  rw [status_blame_of_hopeless limit (hstatus ▸ nofun) (hstatus ▸ nofun) he]
  exact if_pos hinitial

theorem Rewound.cancelled (h : Rewound s.snapshot j fk check t pos .writeReorg) (hf : s.file = none)
    (ha : a.handlers = .standard) (limit : Nat) :
    Advances limit s a j s.snapshot
      (blame limit j.started (.ofFault (.invalidState "add foreign key job" .writeReorg))) := by
  obtain ⟨W, j', what, hsettle, hadv⟩ := h.advances nofun hf ha limit
  have hdisorder : j.started.kind.allows .absent .writeReorg j.started.status = false := by
    rw [h.kind_started, h.status_started h.forward]
    rfl
  have hback : ({ j.started with stage := .absent } : Job) = j.started := by
    have hstage : j.started.stage = .absent := (Job.stage_started j).trans h.stage
    rw [← hstage]
  rw [settle_of_disorder limit s hdisorder] at hsettle
  dsimp only at hsettle
  rw [hback, h.kind_started] at hsettle
  cases hsettle
  exact hadv

theorem Carries.bound (h : Carries s.snapshot j fk check t pos st) {P : Surroundings → Prop}
    {x : Surroundings} {r : Result} (htook : Took P x ⟨.begin s.snapshot, j.started⟩ r) :
    Bound P fk check ⟨.begin s.snapshot, j.started⟩ r := by
  unfold Took at htook
  rw [show (⟨.begin s.snapshot, j.started⟩ : Draft).job.args = _ from
    (started_tells j).2.trans h.args] at htook
  exact htook

/--
What a handler returns for a job on its way: the rows are fine, or the job turns back, or the constraint
is made public.
-/
inductive Resumed (d : Draft) (t : Table) (pos : Nat) : Result → Prop where
  | confirmed (hs : d.job.stage = .writeOnly) (x : Surroundings) :
    Resumed d t pos (d.advanced x (setForeignKeyStage t pos .writeReorg) .writeReorg)
  | turned (hs : d.job.stage = .writeOnly) (e : Trouble) :
    Resumed d t pos (.error e, { d with job := { d.job with status := .rollingBack } })
  | bound (hs : d.job.stage = .writeReorg) (x : Surroundings) :
    Resumed d t pos (d.completed x (setForeignKeyStage t pos .live) .done .live)

theorem Carries.resumed (h : Carries s.snapshot j fk check t pos j.stage)
    (hb : j.isRollingBack = false) (hstage : j.stage ∈ [.writeOnly, .writeReorg])
    {P : Surroundings → Prop} {x : Surroundings} {r : Result}
    (htook : Took P x ⟨.begin s.snapshot, j.started⟩ r) (hlasts : Lasts r.1) :
    Resumed ⟨s.begin, j.started⟩ t pos r := by
  have hforward : j.started.isRollingBack = false := (Job.isRollingBack_started j).trans hb
  have hs := Job.stage_started j
  rw [← hs] at hstage
  have hne : j.started.stage ≠ .absent := by
    intro habsent
    rw [habsent] at hstage
    revert hstage
    decide
  cases h.bound htook with
  | missing hm f => exact absurd h.live (hm t h.holds.table)
  | undone hback => cases hback.symm.trans hforward
  | unneeded hback => cases hback.symm.trans hforward
  | refused _ hab => exact absurd hab hne
  | resumed _ hab => exact absurd hab hne
  | staged _ hab => exact absurd hab hne
  | confirmed _ hs x table hd _ pos' hpos =>
    cases hd.table.symm.trans h.holds.table
    cases hpos.position.symm.trans h.staged.position
    exact .confirmed hs x
  | turned _ hs e => exact .turned hs e
  | bound _ hs x table hd _ pos' hpos =>
    cases hd.table.symm.trans h.holds.table
    cases hpos.position.symm.trans h.staged.position
    exact .bound hs x
  | failed _ e hwhy =>
    rcases hwhy with hpasses | ⟨-, hnone⟩
    · cases hpasses.symm.trans (hlasts e rfl)
    · exact absurd (hs ▸ h.staged) (hnone hstage t pos h.holds.table)

/--
What is next for a job after the check of the rows: to make the constraint public, or to go back.
-/
inductive Confirmed (t : Table) (pos : Nat) (j : Job) : Table → Stage → Prop where
  | held (stamp : Nat) (hb : j.isRollingBack = false) (hs : j.stage = .writeReorg) :
    Confirmed t pos j { setForeignKeyStage t pos .writeReorg with updated := stamp } .writeReorg
  | broken (hb : j.isRollingBack = true) : Confirmed t pos j t .writeOnly

/--
The job is over, and its constraint is public or gone from the table.
-/
inductive Concluded (s s' : Snapshot) (j : Job) (t : Table) (pos : Nat) : Prop where
  | bound (x : Job) (stamp : Nat) (hrecord : s'.record j.id = (none, some x))
      (hstatus : x.status = .done)
      (htable : Puts s.table? j.schemaId j.tableId
        { setForeignKeyStage t pos .live with updated := stamp } s'.table?)
  | undone (x : Job) (stamp : Nat) (hrecord : s'.record j.id = (none, some x))
      (hstatus : x.status = .rollbackDone)
      (htable : Puts s.table? j.schemaId j.tableId
        { t with foreignKeys := t.foreignKeys.eraseIdx pos, updated := stamp } s'.table?)

theorem StagedAt.restaged {name : String} (h : StagedAt t name st pos) (st' : Stage) (stamp : Nat) :
    StagedAt { setForeignKeyStage t pos st' with updated := stamp } name st' pos where
  position := (Table.foreignKeyPosition?_setForeignKeyStage t pos st' name).trans h.position
  stage := by
    obtain ⟨old, hold, -⟩ := Option.map_eq_some_iff.1 h.stage
    unfold setForeignKeyStage
    dsimp only
    rw [List.getElem?_modify_eq, hold]
    rfl

theorem Carries.written (h : Carries s.snapshot j fk check t pos st) (x : Surroundings) (t' : Table)
    (hid : t'.id = t.id) :
    Puts s.snapshot.table? j.schemaId j.tableId { t' with updated := x.stamp }
      ((⟨s.begin, j.started⟩ : Draft).write x t').txn.table? := by
  have hfollows := Job.follows_started j
  have hputs := puts_write (s := x) (hid.trans h.holds.id)
  dsimp only at hputs
  rw [hfollows.schemaId, hfollows.tableId] at hputs
  exact hputs

theorem Carries.confirmed (h : Carries s.snapshot j fk check t pos .writeOnly)
    (hb : j.isRollingBack = false) (hstage : j.stage = .writeOnly)
    (hadv : Advances limit s a j W j') :
    ∃ t' st', Confirmed t pos j' t' st' ∧ Carries (a.run limit s).snapshot j' fk check t' pos st' ∧
      Puts s.snapshot.table? j.schemaId j.tableId t' (a.run limit s).snapshot.table? := by
  obtain ⟨r, what, htook, hlasts, hsettle⟩ := hadv.settled
  have hmem : j.stage ∈ [.writeOnly, .writeReorg] := hstage ▸ List.mem_cons_self
  rw [hadv.table_eq]
  cases (hstage ▸ h).resumed hb hmem htook hlasts with
  | confirmed hs x =>
    have hallowed : j.started.kind.allows .writeOnly .writeReorg j.started.status = true := by
      rw [h.kind_started, h.status_started hb]
      rfl
    unfold Draft.advanced at hsettle
    rw [hstage, settle_of_allowed limit s hallowed] at hsettle
    cases hsettle
    have hforward := (Job.isRollingBack_started j).trans hb
    have hunfinished := h.isFinished_started hb
    have hputs := h.written x (setForeignKeyStage t pos .writeReorg) rfl
    refine ⟨_, _, .held x.stamp hforward rfl, ?_, hputs⟩
    exact h.next hadv hunfinished (started_tells j).2 hputs.self h.live (h.staged.restaged _ _)
  | turned hs e =>
    rw [settle_of_failure limit s j.stage (hlasts e rfl)] at hsettle
    cases hsettle
    have hback : (blame limit { j.started with status := .rollingBack } e).isRollingBack = true := by
      unfold Job.isRollingBack
      rw [status_blame_of_rollingBack limit e rfl]
      rfl
    have hargs := (args_blame limit { j.started with status := .rollingBack } e).trans (started_tells j).2
    refine ⟨t, .writeOnly, .broken hback, ?_, .same h.table⟩
    exact h.next hadv (isFinished_of_rollingBack hback) hargs h.table h.live h.staged
  | bound hs x =>
    rw [Job.stage_started, hstage] at hs
    cases hs

theorem Carries.archived (h : Carries s.snapshot j fk check t pos st) (hadv : Advances limit s a j W j')
    {what : String} {x : Surroundings} {t' : Table} {σ : Change.Status} {last : Stage}
    (hsettle : settle limit s true j.stage (Draft.completed ⟨s.begin, j.started⟩ x t' σ last) =
      some (what, ⟨⟨s.snapshot, W⟩, j'⟩))
    (ho : Change.Kind.addForeignKey.allows j.stage last σ = true) (hσ : σ.isTerminal = true)
    (hid : t'.id = t.id) :
    (a.run limit s).snapshot.record j.id = (none, some j') ∧ j'.status = σ ∧
      Puts s.snapshot.table? j.schemaId j.tableId { t' with updated := x.stamp }
        (a.run limit s).snapshot.table? := by
  have hrecorded := (hadv.recorded h.tidy h.first).record j.id
  rw [← h.kind_started] at ho
  unfold Draft.completed at hsettle
  rw [settle_of_allowed limit s ho] at hsettle
  obtain ⟨-, hdraft⟩ := Prod.mk.inj (Option.some.inj hsettle)
  have hworking : ((⟨s.begin, j.started⟩ : Draft).write x t').txn.working = W :=
    congrArg (fun d : Draft => d.txn.working) hdraft
  have hstatus : σ = j'.status := congrArg (fun d : Draft => d.job.status) hdraft
  have hfinished : j'.isFinished = true := by
    unfold Job.isFinished
    rw [← hstatus]
    exact hσ
  rw [if_pos rfl, hfinished, if_pos rfl] at hrecorded
  rw [hadv.table_eq, ← hworking]
  exact ⟨hrecorded, hstatus.symm, h.written x t' hid⟩

theorem Carries.concluded_forward (h : Carries s.snapshot j fk check t pos .writeReorg)
    (hb : j.isRollingBack = false) (hstage : j.stage = .writeReorg)
    (hadv : Advances limit s a j W j') : Concluded s.snapshot (a.run limit s).snapshot j t pos := by
  obtain ⟨r, what, htook, hlasts, hsettle⟩ := hadv.settled
  have hmem : j.stage ∈ [.writeOnly, .writeReorg] :=
    hstage ▸ List.mem_cons_of_mem _ List.mem_cons_self
  cases (hstage ▸ h).resumed hb hmem htook hlasts with
  | confirmed hs =>
    rw [Job.stage_started, hstage] at hs
    cases hs
  | turned hs =>
    rw [Job.stage_started, hstage] at hs
    cases hs
  | bound hs x =>
    obtain ⟨hrecord, hstatus, htable⟩ := h.archived hadv hsettle (hstage ▸ rfl) rfl rfl
    exact .bound j' x.stamp hrecord hstatus htable

theorem Carries.concluded_back (h : Carries s.snapshot j fk check t pos st)
    (hb : j.isRollingBack = true) (hadv : Advances limit s a j W j') :
    Concluded s.snapshot (a.run limit s).snapshot j t pos := by
  obtain ⟨r, what, htook, -, hsettle⟩ := hadv.settled
  have hback : j.started.isRollingBack = true := (Job.isRollingBack_started j).trans hb
  cases h.bound htook with
  | missing hm f => exact absurd h.live (hm t h.holds.table)
  | undone _ x table hd _ pos' hpos =>
    cases hd.table.symm.trans h.holds.table
    cases hpos.symm.trans h.staged.position
    have ho := Change.Kind.allows_initial .addForeignKey j.stage (σ := .rollbackDone) rfl
    obtain ⟨hrecord, hstatus, htable⟩ := h.archived hadv hsettle ho rfl rfl
    exact .undone j' x.stamp hrecord hstatus htable
  | unneeded _ table hd hpos =>
    cases hd.table.symm.trans h.holds.table
    cases hpos.symm.trans h.staged.position
  | refused hforward => cases hforward.symm.trans hback
  | resumed hforward => cases hforward.symm.trans hback
  | staged hforward => cases hforward.symm.trans hback
  | confirmed hforward => cases hforward.symm.trans hback
  | turned hforward => cases hforward.symm.trans hback
  | bound hforward => cases hforward.symm.trans hback
  | failed hforward => cases hforward.symm.trans hback

theorem Concluded.of_restaged {s s' : Snapshot} {stamp : Nat}
    (h : Concluded s s' j { setForeignKeyStage t pos st with updated := stamp } pos) :
    Concluded s s' j t pos := by
  cases h with
  | bound x stamp' hrecord hstatus htable =>
    refine .bound x stamp' hrecord hstatus ?_
    unfold setForeignKeyStage at htable ⊢
    dsimp only at htable
    rw [Catalog.modify_modify fun _ => rfl] at htable
    exact htable
  | undone x stamp' hrecord hstatus htable =>
    refine .undone x stamp' hrecord hstatus ?_
    unfold setForeignKeyStage at htable
    dsimp only at htable
    rw [List.eraseIdx_modify_of_eq] at htable
    exact htable

theorem Concluded.of_puts {s s₁ s' : Snapshot} {t' : Table} (h : Concluded s₁ s' j' t pos)
    (hputs : Puts s.table? j.schemaId j.tableId t' s₁.table?) (hj : j.Follows j') :
    Concluded s s' j t pos := by
  cases h with
  | bound x stamp hrecord hstatus htable =>
    rw [hj.id] at hrecord
    rw [hj.schemaId, hj.tableId] at htable
    exact .bound x stamp hrecord hstatus (hputs.trans htable)
  | undone x stamp hrecord hstatus htable =>
    rw [hj.id] at hrecord
    rw [hj.schemaId, hj.tableId] at htable
    exact .undone x stamp hrecord hstatus (hputs.trans htable)

theorem Carries.concluded (h : Carries s.snapshot j fk check t pos .writeOnly)
    (hb : j.isRollingBack = false) (hstage : j.stage = .writeOnly) (hf : s.file = none)
    {a₁ a₂ : Attempt} (h₁ : a₁.Standard) (h₂ : a₂.Standard) (limit : Nat) :
    (a₁.run limit s).snapshot.jobs.get? j.id ≠ none ∧
      Concluded s.snapshot (a₂.run limit (a₁.run limit s)).snapshot j t pos := by
  obtain ⟨W₁, j₁, hadv₁⟩ := h₁.advances limit h.tidy hf h.first
  obtain ⟨t₁, st₁, hnext, hcarries, hputs⟩ := h.confirmed hb hstage hadv₁
  have hfollows := hadv₁.outcome.follows
  obtain ⟨W₂, j₂, hadv₂⟩ := h₂.advances limit hcarries.tidy (a₁.file_run hf) hcarries.first
  constructor
  · rw [← hfollows.id, (hcarries.tidy.first_filed hcarries.first).1]
    exact Option.some_ne_none j₁
  · cases hnext with
    | held stamp hforward hreorg =>
      have hover := hcarries.concluded_forward hforward hreorg hadv₂
      exact hover.of_restaged.of_puts hputs hfollows
    | broken hback =>
      have hover := hcarries.concluded_back hback hadv₂
      exact hover.of_puts hputs hfollows

theorem Advances.unchanged (hadv : Advances limit s a j s.snapshot j') (hs : s.snapshot.Tidy)
    (hfirst : s.snapshot.firstJob? = some j) :
    (a.run limit s).snapshot.catalog = s.snapshot.catalog ∧
      (∀ k, k ≠ j.id → (a.run limit s).snapshot.record k = s.snapshot.record k) ∧
      (a.run limit s).snapshot.record j.id =
        if j'.isFinished then (none, some j') else (some j', none) := by
  have hrecord := (hadv.recorded hs hfirst).record
  refine ⟨hadv.catalog, ?_, ?_⟩
  · intro k hk
    rw [hrecord, if_neg hk]
  · rw [hrecord, if_pos rfl]

end Steps

/--
A job that adds a constraint, and whose record was put back to the beginning after it had staged that,
changes no table in its next step. If the rows were not checked yet, the job goes on from there, and
two more steps make the constraint public or take it out of the table. If they were, the step is out of
order: the job is cancelled, and its constraint stays in the table as it is.
-/
theorem rewound_job_resumes (limit : Nat) (s : Store) (a₀ a₁ a₂ : Attempt) {j : Job}
    {fk : ForeignKey} {check : Bool} {t : Table} {pos : Nat} {st : Stage}
    (h : Rewound s.snapshot j fk check t pos st) (hst : st = .writeOnly ∨ st = .writeReorg)
    (hf : s.file ≠ some .directory) (h₀ : a₀.handlers = .standard) (h₁ : a₁.Standard)
    (h₂ : a₂.Standard) :
    let s₁ := a₀.run limit s
    let s₂ := a₁.run limit s₁
    let s₃ := a₂.run limit s₂
    (s₁.snapshot.catalog = s.snapshot.catalog ∧
      ∀ k, k ≠ j.id → s₁.snapshot.record k = s.snapshot.record k) ∧
    (st = .writeOnly →
      s₁.snapshot.record j.id = (some { j.started with
        stage := .writeOnly, schemaVersion := s.snapshot.catalog.schemaVersion }, none) ∧
      s₂.snapshot.jobs.get? j.id ≠ none ∧ Concluded s.snapshot s₃.snapshot j t pos) ∧
    (st = .writeReorg → ∃ ended, s₁.snapshot.record j.id = (none, some ended) ∧
      ended.status = .cancelled ∧
      ended.error = some (.invalidState "add foreign key job" .writeReorg)) := by
  intro s₁ s₂ s₃
  -- The steps come to the same in memory.
  let m : Store := ⟨s.snapshot, none⟩
  let m₁ := a₀.run limit m
  have hs₁ : s₁.snapshot = m₁.snapshot := Attempt.runAll_of_writable hf [a₀] limit
  have hs₂ : s₂.snapshot = (a₁.run limit m₁).snapshot :=
    Attempt.runAll_of_writable hf [a₀, a₁] limit
  have hs₃ : s₃.snapshot = (a₂.run limit (a₁.run limit m₁)).snapshot :=
    Attempt.runAll_of_writable hf [a₀, a₁, a₂] limit
  rw [hs₁, hs₂, hs₃]
  have hm : m.file = none := rfl
  change Rewound m.snapshot j fk check t pos st at h
  cases hst with
  | inl hst =>
    subst hst
    have hadv := h.resumes hm h₀ limit
    obtain ⟨hcatalog, hothers, hrecord⟩ := hadv.unchanged h.tidy h.first
    have hunfinished := h.isFinished_started h.forward
    have hcarries := h.toCarries.next hadv hunfinished (started_tells j).2 h.table h.live h.staged
    have hforward := (Job.isRollingBack_started j).trans h.forward
    obtain ⟨hqueued, hover⟩ := hcarries.concluded hforward rfl (a₀.file_run hm) h₁ h₂ limit
    have hfollows := hadv.outcome.follows
    have hplace : Puts m.snapshot.table? j.schemaId j.tableId t m₁.snapshot.table? := by
      rw [hadv.table_eq]
      exact .same h.table
    refine ⟨⟨hcatalog, hothers⟩, fun _ => ⟨?_, ?_, hover.of_puts hplace hfollows⟩, nofun⟩
    · exact hrecord.trans (if_neg (Bool.eq_false_iff.1 hunfinished))
    · rw [← hfollows.id]
      exact hqueued
  | inr hst =>
    subst hst
    have hadv := h.cancelled hm h₀ limit
    obtain ⟨hcatalog, hothers, hrecord⟩ := hadv.unchanged h.tidy h.first
    have hstatus := h.status_blame limit
      (e := .ofFault (.invalidState "add foreign key job" .writeReorg)) rfl
    have herror := (blame_tells limit j.started
      (.ofFault (.invalidState "add foreign key job" .writeReorg))).1
    have hfinished : (blame limit j.started
        (.ofFault (.invalidState "add foreign key job" .writeReorg))).isFinished = true := by
      unfold Job.isFinished
      rw [hstatus]
      rfl
    refine ⟨⟨hcatalog, hothers⟩, nofun, fun _ => ⟨_, ?_, hstatus, herror⟩⟩
    exact hrecord.trans (if_pos hfinished)

end Step

namespace Ledger.Snapshot

/--
The snapshot with the record of its first job put back to the first stage.
-/
def rewind (s : Snapshot) : Snapshot :=
  match s.firstJob? with
  | some j => s.withRecord s.revision { j with stage := j.kind.initial }
  | none => s

theorem tidy_rewind {s : Snapshot} (hs : s.Tidy) : s.rewind.Tidy := by
  unfold rewind
  split
  · next j hj =>
    obtain ⟨hget, -, hf⟩ := hs.first_filed hj
    let j' := { j with stage := j.kind.initial }
    have hunfinished : j'.isFinished = false := hf
    have hqueued : s.jobs.contains j.id = true := by
      rw [SortedMap.contains_iff, hget]
      exact Option.some_ne_none j
    have hhistory := hs.sound.history_of_jobs hqueued
    have hrecorded : s.Recorded (s.withRecord s.revision j') j.id
        (if j'.isFinished then (none, some j') else (some j', none)) := by
      rw [hunfinished, if_neg Bool.false_ne_true]
      refine ⟨?_, .inr rfl, Int.le_refl _, hs.sound.le_of_jobs hqueued, hhistory⟩
      intro k
      unfold record withRecord
      dsimp only
      rw [SortedMap.get?_insert]
      split
      · next hk => rw [hk, hhistory]
      · rfl
    have hkeyed : (s.withRecord s.revision j').Keyed := ⟨hs.keyed.id, hs.keyed.schema⟩
    exact hrecorded.tidy hs hj ⟨rfl, rfl, rfl, rfl, rfl, rfl, .inl rfl⟩ hkeyed
  · exact hs

end Ledger.Snapshot

namespace Line

def plainOrders : Table :=
  ((Table.ofName "orders").withColumn (.ofName "user" .bigint)).withIndex (.ofNames "by_user" ["user"])

def ownerKey : ForeignKey := .ofNames "owner" ["user"] "shop" "users" ["id"]

/--
Two tables are created, and a job is handed in that is to make one of them refer to the other.
-/
def ownerHandedIn : List Event :=
  let users := ((Table.ofName "users").withColumn (.ofName "id" .bigint)).withHandle "id"
  [.found "shop", .commit 0, .draw 0 1 2 "shop" "users" (.createTable users true), .hand 0] ++
    stepOnce 5 ++ [.draw 0 1 3 "shop" "orders" (.createTable plainOrders true), .hand 0] ++ stepOnce 6 ++
    [.draw 0 1 3 "shop" "orders" (.addForeignKey ownerKey false), .hand 0]

def ownerRewound (steps : List Event) : Snapshot :=
  (empty.run 8 (ownerHandedIn ++ steps)).snapshot.rewind

def stagedOwner : ForeignKey := { ownerKey with id := 1, stage := .writeOnly }

def ownerJob (schemaVersion : Int) : Job :=
  { Job.ofArgs 1 3 "shop" "orders" (.addForeignKey stagedOwner false) with
    id := 4, status := .running, schemaVersion }

def stagedOrders : Table :=
  { Step.withStagedKey { plainOrders with id := 3, stage := .live } ownerKey with updated := 7 }

theorem rewound_once : Step.Rewound (ownerRewound (stepOnce 7)) (ownerJob 4)
    stagedOwner false stagedOrders 0 .writeOnly where
  tidy := Snapshot.tidy_rewind (directed_run 8 _).world.fine.tidy
  first := by decide +kernel
  args := rfl
  table := by decide +kernel
  live := rfl
  staged := ⟨by decide +kernel, rfl⟩
  stage := rfl
  forward := rfl
  found := by
    refine ⟨stagedOwner, ?_, rfl, ?_⟩
    · decide +kernel
    · decide +kernel

theorem rewound_twice : Step.Rewound (ownerRewound (stepOnce 7 ++ stepOnce 8)) (ownerJob 5)
    stagedOwner false
    { Step.setForeignKeyStage stagedOrders 0 .writeReorg with updated := 8 } 0 .writeReorg where
  tidy := Snapshot.tidy_rewind (directed_run 8 _).world.fine.tidy
  first := by decide +kernel
  args := rfl
  table := by decide +kernel
  live := rfl
  staged := ⟨by decide +kernel, rfl⟩
  stage := rfl
  forward := rfl
  found := by
    refine ⟨{ ownerKey with id := 1, stage := .writeReorg }, ?_, rfl, ?_⟩
    · decide +kernel
    · decide +kernel

theorem rewound_job_resumes_ownerHandedIn :
    let once : Store := ⟨ownerRewound (stepOnce 7), none⟩
    let twice : Store := ⟨ownerRewound (stepOnce 7 ++ stepOnce 8), none⟩
    let a := unanswered once.snapshot
    (Step.Rewound once.snapshot (ownerJob 4) stagedOwner false stagedOrders 0 .writeOnly ∧
      Step.Rewound twice.snapshot (ownerJob 5) stagedOwner false
        { Step.setForeignKeyStage stagedOrders 0 .writeReorg with updated := 8 } 0 .writeReorg ∧
      once.file ≠ some .directory ∧ (a 8).handlers = .standard ∧ (a 9).Standard ∧ (a 10).Standard) ∧
    Step.Concluded once.snapshot
      ((a 10).run 8 ((a 9).run 8 ((a 8).run 8 once))).snapshot (ownerJob 4) stagedOrders 0 ∧
    ∃ ended, ((a 9).run 8 twice).snapshot.record 4 = (none, some ended) ∧
      ended.status = .cancelled := by
  intro once twice a
  have hstandard (stamp : Nat) : (a stamp).Standard := ⟨rfl, _, _, _, rfl⟩
  have hfile : (none : Option File) ≠ some .directory := nofun
  refine ⟨⟨rewound_once, rewound_twice, hfile, rfl, hstandard 9, hstandard 10⟩, ?_, ?_⟩
  · have h := Step.rewound_job_resumes 8 once (a 8) (a 9) (a 10) rewound_once (.inl rfl) hfile rfl
      (hstandard 9) (hstandard 10)
    exact (h.2.1 rfl).2.2
  · have h := Step.rewound_job_resumes 8 twice (a 9) (a 9) (a 10) rewound_twice (.inr rfl) hfile rfl
      (hstandard 9) (hstandard 10)
    obtain ⟨ended, hrecord, hstatus, -⟩ := h.2.2 rfl
    exact ⟨ended, hrecord, hstatus⟩

theorem not_queued_twice :
    ((unanswered (ownerRewound (stepOnce 7 ++ stepOnce 8)) 9).run 8
      ⟨ownerRewound (stepOnce 7 ++ stepOnce 8), none⟩).snapshot.jobs.get? (ownerJob 5).id = none := by
  decide +kernel

theorem not_resumes_ownerHandedIn :
    ¬ ∀ (limit : Nat) (es : List Event) (j : Job) (fk : ForeignKey) (check : Bool) (t : Table)
      (pos : Nat) (st : Stage) (a : Step.Attempt),
      let s := (empty.run limit es).snapshot.rewind
      Step.Rewound s j fk check t pos st → (st = .writeOnly ∨ st = .writeReorg) → a.Standard →
      ∃ j', (a.run limit ⟨s, none⟩).snapshot.jobs.get? j.id = some j' ∧ j'.stage = st := by
  intro h
  have hstandard : (unanswered (ownerRewound (stepOnce 7 ++ stepOnce 8)) 9).Standard :=
    ⟨rfl, _, _, _, rfl⟩
  obtain ⟨j', hqueued, -⟩ := h 8 (ownerHandedIn ++ (stepOnce 7 ++ stepOnce 8)) (ownerJob 5) stagedOwner
    false _ 0 .writeReorg _ rewound_twice (.inr rfl) hstandard
  exact Option.some_ne_none j' (hqueued.symm.trans not_queued_twice)

end Line

end Steward
