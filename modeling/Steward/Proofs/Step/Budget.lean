import Steward.Proofs.Engine.Owner
import Steward.Proofs.Step.Outcome

/-!
This module contains what becomes of a job whose steps fail, whatever the handler does. A node that
leads all the time, and beside which nobody commits, gives up a job that has failed too often, but
not one that is to be undone: that is tried again until its handler succeeds.
-/

namespace Steward

open Catalog (Stage)
open Change (Job Kind Status Trouble)
open Ledger

namespace Step

namespace Work

variable {α : Type}

/--
What the work comes to with these answers, if there are enough of them.
-/
def play : Work α → List (Surroundings × Answer) → Option α
  | done a, _ => some a
  | ask _ _, [] => none
  | ask _ k, (s, answer) :: rest => (k s answer).play rest

theorem ends_of_play {w : Work α} {answers : List (Surroundings × Answer)} {a : α}
    (h : w.play answers = some a) : w.Ends (fun _ => True) a := by
  induction w generalizing answers with
  | done b =>
    cases h
    exact .done a
  | ask st k ih =>
    cases answers with
    | nil => cases h
    | cons x rest => exact .ask st k x.1 trivial x.2 a (ih x.1 x.2 h)

end Work

/--
A handler that leaves to the steps where their transactions begin, which job they are for, and how
often it failed.
-/
structure Handler.Discreet (h : Handler) : Prop where
  base : ∀ s d v d', (h s d).Ends (fun _ => True) (.ok v, d') → d'.txn.base = d.txn.base
  id : ∀ s d r, (h s d).Ends (fun _ => True) r → r.2.job.id = d.job.id
  errorCount : ∀ s d r, (h s d).Ends (fun _ => True) r → r.2.job.errorCount = d.job.errorCount

def isFailure (r : Result) : Bool :=
  match r.1 with
  | .error t => !t.isTransient
  | .ok _ => false

def after (s : Store) : Except Trouble Ending → Store
  | .ok (.committed s' _) => s'
  | _ => s

/--
A step that a node takes while it leads, and what it is answered.
-/
structure Attempt where
  handlers : Registry
  surroundings : Surroundings
  answers : List (Surroundings × Answer)

namespace Attempt

/--
The stage that the job was in, and what its handler returned.
-/
def returned (a : Attempt) (s : Store) : Option (Stage × Result) := do
  let begun ← Step.begin s a.handlers a.surroundings
  let r ← begun.work.play a.answers
  return (begun.source, r)

/--
Does the handler fail for good, or move its job out of order?
-/
def fails (a : Attempt) (s : Store) : Bool :=
  match a.returned s with
  | some (source, r) => isFailure (guardOrder source r)
  | none => false

def run (limit : Nat) (s : Store) (a : Attempt) : Store :=
  match a.returned s with
  | some (source, r) => after s (conclude limit s true source r)
  | none => s

def runAll (limit : Nat) (s : Store) (as : List Attempt) : Store := as.foldl (run limit) s

def failures (limit : Nat) (s : Store) : List Attempt → Nat
  | [] => 0
  | a :: as => (if a.fails s then 1 else 0) + failures limit (a.run limit s) as

end Attempt

/--
The job is the first one in the queue, where it is under its id.
-/
structure Heads (s : Store) (id : Int) (j : Job) : Prop where
  first : s.snapshot.firstJob? = some j
  queued : s.snapshot.jobs.get? id = some j
  id : j.id = id

/--
What may become of a job that had failed `count` times, and has failed another `n` times since: it is
over, it is to be undone, or all of this is counted and within the limit.
-/
inductive Fate (limit : Nat) (id : Int) (count n : Nat) (s : Snapshot) : Prop where
  | ended (hjobs : s.jobs.get? id = none) (hhistory : s.history.get? id ≠ none)
  | queued (j : Job) (hjob : s.jobs.get? id = some j)
      (h : j.status = .rollingBack ∨ j.errorCount = count + n ∧ (0 < n → j.errorCount ≤ limit))

section Keep

variable {limit count : Nat} {id : Int} {s s' : Store} {j : Job} {a : Attempt} {t : Trouble}

theorem jobs_keep (s : Snapshot) (j : Job) :
    (s.keep j).jobs.get? j.id = if j.isFinished then none else some j := by
  unfold Snapshot.keep
  split
  · exact (SortedMap.get?_erase _ _ _).trans (if_pos rfl)
  · exact (SortedMap.get?_insert _ _ _ _).trans (if_pos rfl)

theorem history_keep (s : Snapshot) (j : Job) (h : j.isFinished = true) :
    (s.keep j).history.get? j.id = some j := by
  unfold Snapshot.keep
  rw [if_pos h]
  exact (SortedMap.get?_insert _ _ _ _).trans (if_pos rfl)

theorem merged_own {t : Txn} (hb : t.base = s.snapshot) :
    s.merged t = .ok { t.working with revision := s.snapshot.revision + 1 } := by
  unfold Store.merged
  rw [hb, if_pos rfl]

theorem persistJob_of_contains {t : Txn} (hj : t.working.jobs.contains j.id = true) :
    t.persistJob j = .ok { t with working := t.working.keep j } := by
  unfold Txn.persistJob Txn.finishJob Txn.updateJob Snapshot.keep
  rw [hj, if_pos rfl, if_pos rfl]
  split <;> rfl

theorem commit_own_of_contains {d : Draft} (hf : s.file = none) (what : String)
    (hb : d.txn.base = s.snapshot) (hj : d.txn.working.jobs.contains d.job.id = true) :
    commit s what d = .ok (.committed
      ⟨{ d.txn.working.keep d.job with revision := s.snapshot.revision + 1 }, none⟩ d.job) := by
  have hmerged : s.merged { d.txn with working := d.txn.working.keep d.job } =
      .ok { d.txn.working.keep d.job with revision := s.snapshot.revision + 1 } := merged_own hb
  unfold commit
  rw [persistJob_of_contains hj]
  dsimp only [bind, Except.bind]
  rw [Store.commit_of_merged hf hmerged]
  rfl

end Keep

section Blame

variable {limit : Nat} {j : Job} {t : Trouble}

theorem isFinished_blame (limit : Nat) (t : Trouble) (h : j.status = .cancelled) :
    (blame limit j t).isFinished = true := by
  unfold blame
  rw [h]
  exact congrArg Status.isTerminal h

theorem status_blame_of_rollingBack (limit : Nat) (t : Trouble) (h : j.status = .rollingBack) :
    (blame limit j t).status = .rollingBack := by
  unfold blame
  rw [h]
  exact h

theorem blame_cases (limit : Nat) (j : Job) (t : Trouble) :
    (blame limit j t).isFinished = true ∨ (blame limit j t).status = .rollingBack ∨
      (blame limit j t).errorCount = j.errorCount + 1 ∧ j.errorCount + 1 ≤ limit := by
  unfold blame
  split
  · next hs => exact .inl (congrArg Status.isTerminal hs)
  · next hs => exact .inr (.inl hs)
  · unfold countFailure
    split
    · unfold Job.isFinished withError Job.turnBack
      dsimp only
      split
      · exact .inl rfl
      · exact .inr (.inl rfl)
    · next h =>
      refine .inr (.inr ⟨rfl, ?_⟩)
      omega

end Blame

section Attempts

variable {limit count n : Nat} {id : Int} {s s' : Store} {j : Job} {a : Attempt} {source : Stage}
  {r : Result} {d : Draft}

theorem guardOrder_keeps (source : Stage) (r : Result) :
    (guardOrder source r).2.job.id = r.2.job.id ∧
      (guardOrder source r).2.job.errorCount = r.2.job.errorCount := by
  unfold guardOrder
  split
  · split <;> exact ⟨rfl, rfl⟩
  · exact ⟨rfl, rfl⟩

theorem eq_of_guardOrder_ok {v : Int} (h : guardOrder source r = (.ok v, d)) :
    r = (.ok v, d) := by
  unfold guardOrder at h
  split at h
  · split at h
    · exact h
    · cases h
  · exact h

theorem file_of_commit {what : String} (hf : s.file = none)
    (h : commit s what d = .ok (.committed s' j)) : s'.file = none := by
  obtain ⟨-, t, -, hc⟩ := commit_eq_committed h
  exact Store.file_of_commit hf hc

theorem Attempt.file_run (hf : s.file = none) (a : Attempt) : (a.run limit s).file = none := by
  unfold run
  split
  · unfold after
    split
    · next hc =>
      unfold conclude at hc
      split at hc
      · exact file_of_commit hf hc
      · cases hc
    · exact hf
  · exact hf

theorem Attempt.first_of_returned (hr : a.returned s = some (source, r)) :
    ∃ j, s.snapshot.firstJob? = some j ∧ source = j.stage ∧
      (a.handlers j.kind a.surroundings ⟨s.begin, j.started⟩).Ends (fun _ => True) r := by
  unfold returned Step.begin at hr
  cases hfirst : s.snapshot.firstJob? with
  | none =>
    rw [hfirst] at hr
    cases hr
  | some j =>
    rw [hfirst] at hr
    dsimp only [Option.map_some, bind, Option.bind] at hr
    split at hr
    · cases hr
    · next hplay =>
      cases hr
      exact ⟨j, rfl, rfl, Work.ends_of_play hplay⟩

theorem Attempt.returned_eq_some (h : Heads s id j) (hr : a.returned s = some (source, r)) :
    source = j.stage ∧
      (a.handlers j.kind a.surroundings ⟨s.begin, j.started⟩).Ends (fun _ => True) r := by
  obtain ⟨j', hfirst, hreturned⟩ := a.first_of_returned hr
  obtain rfl := Option.some.inj (h.first.symm.trans hfirst)
  exact hreturned

theorem started_keeps (j : Job) : j.started.id = j.id ∧ j.started.errorCount = j.errorCount := by
  unfold Job.started
  split <;> exact ⟨rfl, rfl⟩

theorem fate_keep (s : Snapshot) (revision : Nat) (hid : j.id = id)
    (h : j.isFinished = true ∨ j.status = .rollingBack ∨
      j.errorCount = count + n ∧ (0 < n → j.errorCount ≤ limit)) :
    Fate limit id count n { s.keep j with revision } := by
  cases hfinished : j.isFinished with
  | true =>
    apply Fate.ended
    · rw [← hid]
      exact (jobs_keep _ _).trans (if_pos hfinished)
    · rw [← hid]
      dsimp only
      rw [history_keep _ _ hfinished]
      exact Option.some_ne_none _
  | false =>
    rw [hfinished] at h
    apply Fate.queued j
    · rw [← hid]
      refine (jobs_keep _ _).trans (if_neg ?_)
      rw [hfinished]
      exact Bool.false_ne_true
    · exact h.resolve_left Bool.false_ne_true

theorem fate_conclude (hf : s.file = none)
    (hkept : Fate limit id count 0 s.snapshot) (hj : s.snapshot.jobs.get? id ≠ none)
    (hid : r.2.job.id = id) (hcount : r.2.job.errorCount = count)
    (hb : ∀ v d, r = (.ok v, d) → d.txn.base = s.snapshot) :
    Fate limit id count (if isFailure (guardOrder source r) then 1 else 0)
      (after s (conclude limit s true source r)).snapshot := by
  rw [← (guardOrder_keeps source r).1] at hid
  rw [← (guardOrder_keeps source r).2] at hcount
  unfold conclude settle
  cases hg : guardOrder source r with
  | mk result d =>
    rw [hg] at hid hcount
    dsimp only at hid hcount
    cases result with
    | error t =>
      rw [show isFailure (.error t, d) = !t.isTransient from rfl]
      dsimp only
      cases t.isTransient with
      | true => exact hkept
      | false =>
        have hblamed : (blame limit d.job t).id = id := (follows_blame limit d.job t).id.trans hid
        have hqueued : s.snapshot.jobs.contains (blame limit d.job t).id = true := by
          rwa [hblamed, SortedMap.contains_iff]
        rw [if_neg Bool.false_ne_true]
        dsimp only
        rw [commit_own_of_contains (d := ⟨s.begin, blame limit d.job t⟩) hf _ rfl hqueued]
        apply fate_keep (n := 1) _ _ hblamed
        rw [← hcount]
        refine (blame_cases limit d.job t).imp_right (Or.imp_right ?_)
        rintro ⟨hc, hle⟩
        exact ⟨hc, fun _ => hc ▸ hle⟩
    | ok v =>
      rw [show isFailure (.ok v, d) = false from rfl, if_neg Bool.false_ne_true]
      dsimp only
      rw [if_pos rfl]
      dsimp only
      unfold after
      split
      · next s' job hc =>
        rw [snapshot_of_commit (by exact hb v d (eq_of_guardOrder_ok hg)) hc]
        refine fate_keep (n := 0) _ _ hid (.inr (.inr ⟨hcount, ?_⟩))
        exact fun h => absurd h (Nat.lt_irrefl 0)
      · exact hkept

theorem Heads.fate (h : Heads s id j) (hf : s.file = none) (ha : ∀ k, (a.handlers k).Discreet) :
    Fate limit id j.errorCount (if a.fails s then 1 else 0) (a.run limit s).snapshot := by
  have hkept : Fate limit id j.errorCount 0 s.snapshot :=
    .queued j h.queued (.inr ⟨rfl, fun h => absurd h (Nat.lt_irrefl 0)⟩)
  unfold Attempt.fails Attempt.run
  cases hr : a.returned s with
  | none => exact hkept
  | some x =>
    obtain ⟨source, r⟩ := x
    obtain ⟨rfl, hends⟩ := a.returned_eq_some h hr
    apply fate_conclude hf hkept (h.queued ▸ Option.some_ne_none j)
    · rw [(ha _).id _ _ _ hends, (started_keeps j).1, h.id]
    · rw [(ha _).errorCount _ _ _ hends, (started_keeps j).2]
    · rintro v d rfl
      exact (ha _).base _ _ _ _ hends

theorem Fate.add {m : Nat} {s : Snapshot} (h : Fate limit id j.errorCount m s)
    (hj : j.errorCount = count + n ∧ (0 < n → j.errorCount ≤ limit)) :
    Fate limit id count (n + m) s := by
  cases h with
  | ended hjobs hhistory => exact .ended hjobs hhistory
  | queued j' hj' h =>
    refine .queued j' hj' (h.imp_right ?_)
    omega

theorem Attempt.fate_runAll (limit : Nat) (as : List Attempt)
    (hf : s.file = none) (ha : ∀ a ∈ as, ∀ k, (a.handlers k).Discreet)
    (hs : ∀ n < as.length, ∃ j, Heads (runAll limit s (as.take n)) id j ∧ j.status ≠ .rollingBack)
    (hj : s.snapshot.jobs.get? id = some j) :
    Fate limit id j.errorCount (failures limit s as) (runAll limit s as).snapshot := by
  induction as generalizing s j with
  | nil => exact .queued j hj (.inr ⟨rfl, fun h => absurd h (Nat.lt_irrefl 0)⟩)
  | cons a as ih =>
    obtain ⟨j', hheads, -⟩ := hs 0 (Nat.zero_lt_succ _)
    obtain rfl : j' = j := Option.some.inj (hheads.queued.symm.trans hj)
    have hfirst : Fate limit id j'.errorCount _ _ := hheads.fate hf (ha a List.mem_cons_self)
    cases as with
    | nil => exact hfirst
    | cons b bs =>
      -- The next step finds the job in the queue, and not to be undone.
      obtain ⟨j₁, hheads₁, hstatus₁⟩ := hs 1 (Nat.succ_lt_succ (Nat.zero_lt_succ _))
      cases hfirst with
      | ended hjobs => exact absurd (hheads₁.queued.symm.trans hjobs) (Option.some_ne_none j₁)
      | queued j' hj' h =>
        obtain rfl : j' = j₁ := Option.some.inj (hj'.symm.trans hheads₁.queued)
        have hrest := ih (a.file_run hf) (fun x hx => ha x (List.mem_cons_of_mem _ hx))
          (fun n hn => hs (n + 1) (Nat.succ_lt_succ hn)) hj'
        exact hrest.add (h.resolve_left hstatus₁)

/--
A job whose steps failed more often than `limit` is over, unless it had to be undone at some time.
-/
theorem Attempt.retries_bounded (limit : Nat) (s : Store) (id : Int) (as : List Attempt)
    (hf : s.file = none) (ha : ∀ a ∈ as, ∀ k, (a.handlers k).Discreet)
    (hs : ∀ n < as.length, ∃ j, Heads (runAll limit s (as.take n)) id j)
    (hmany : limit < failures limit s as) :
    let s' := (runAll limit s as).snapshot
    (s'.jobs.get? id = none ∧ s'.history.get? id ≠ none) ∨
      ∃ n ≤ as.length, ∃ j, (runAll limit s (as.take n)).snapshot.jobs.get? id = some j ∧
        j.status = .rollingBack := by
  intro s'
  by_cases hback : ∃ n ≤ as.length, ∃ j,
      (runAll limit s (as.take n)).snapshot.jobs.get? id = some j ∧ j.status = .rollingBack
  · exact .inr hback
  left
  have hsteps : ∀ n < as.length,
      ∃ j, Heads (runAll limit s (as.take n)) id j ∧ j.status ≠ .rollingBack := by
    intro n hn
    obtain ⟨j, hj⟩ := hs n hn
    exact ⟨j, hj, fun h => hback ⟨n, Nat.le_of_lt hn, j, hj.queued, h⟩⟩
  have hlength : 0 < as.length := by
    cases as with
    | nil => cases hmany
    | cons a as => exact Nat.zero_lt_succ _
  obtain ⟨j, hj⟩ := hs 0 hlength
  cases fate_runAll limit as hf ha hsteps hj.queued with
  | ended hjobs hhistory => exact ⟨hjobs, hhistory⟩
  | queued j' hj' h =>
    exfalso
    cases h with
    | inl hrolling =>
      refine hback ⟨as.length, Nat.le_refl _, j', ?_, hrolling⟩
      rwa [List.take_length]
    | inr hcount => omega

theorem Attempt.undo_goes_on (limit : Nat) (as : List Attempt) (hf : s.file = none)
    (hj : s.snapshot.jobs.get? id = some j) (hback : j.status = .rollingBack)
    (hs : ∀ n (hn : n < as.length), ∃ source r,
      as[n].returned (runAll limit s (as.take n)) = some (source, r) ∧
      isFailure r = true ∧ r.2.job.id = id ∧ r.2.job.status = .rollingBack) :
    ∃ j', (runAll limit s as).snapshot.jobs.get? id = some j' ∧ j'.status = .rollingBack := by
  induction as generalizing s j with
  | nil => exact ⟨j, hj, hback⟩
  | cons a as ih =>
    obtain ⟨source, ⟨result, d⟩, hr, hfails, hid, hstatus⟩ := hs 0 (Nat.zero_lt_succ _)
    cases result with
    | ok v => cases hfails
    | error t =>
      have ht : t.isTransient = false := (Bool.not_eq_true' _).mp hfails
      have hblame : blame limit d.job t = withError d.job t.kept := by
        unfold blame
        rw [show d.job.status = _ from hstatus]
      have hqueued : s.snapshot.jobs.contains (withError d.job t.kept).id = true := by
        rw [SortedMap.contains_iff, show (withError d.job t.kept).id = id from hid, hj]
        exact Option.some_ne_none j
      have hrun : a.run limit s = ⟨{ s.snapshot.keep (withError d.job t.kept) with
          revision := s.snapshot.revision + 1 }, none⟩ := by
        unfold run
        rw [show a.returned s = _ from hr]
        unfold conclude settle guardOrder
        dsimp only
        rw [ht, if_neg Bool.false_ne_true, hblame]
        dsimp only
        rw [commit_own_of_contains (d := ⟨s.begin, withError d.job t.kept⟩) hf _ rfl hqueued]
        rfl
      apply ih (j := withError d.job t.kept) (a.file_run hf) _ hstatus
      · exact fun n hn => hs (n + 1) (Nat.succ_lt_succ hn)
      · rw [hrun, ← hid]
        refine (jobs_keep _ _).trans (if_neg ?_)
        unfold Job.isFinished
        rw [show (withError d.job t.kept).status = _ from hstatus]
        exact Bool.false_ne_true

theorem Plan.run_act (p : Plan) (d : Draft) :
    (p.act.run d).2.txn.base = d.txn.base ∧ (p.act.run d).2.job.id = d.job.id ∧
      (p.act.run d).2.job.errorCount = d.job.errorCount := by
  obtain ⟨status, stage, trouble⟩ := p
  cases status <;> cases stage <;> cases trouble <;> exact ⟨rfl, rfl, rfl⟩

theorem Plan.discreet (p : Plan) : p.handler.Discreet := by
  have hrun (s : Surroundings) (d : Draft) (r : Result)
      (h : (p.handler s d).Ends (fun _ => True) r) : p.act.run d = r := (Work.ends_done h).symm
  constructor
  · intro s d v d' h
    have hbase := (p.run_act d).1
    rwa [hrun s d _ h] at hbase
  · intro s d r h
    rw [← hrun s d r h]
    exact (p.run_act d).2.1
  · intro s d r h
    rw [← hrun s d r h]
    exact (p.run_act d).2.2

end Attempts

section Cases

def dropQueued : Store :=
  ⟨((Txn.begin .initial).enqueue (.ofArgs 1 2 "shop" "items" (.dropIndex "by_id"))).2.working, none⟩

def Attempt.ofPlan (p : Plan) : Attempt := ⟨fun _ => p.handler, ⟨.ofSnapshot .initial, true, 5⟩, []⟩

def Attempt.broken : Attempt := .ofPlan ⟨none, none, some (.ofText "storage unavailable")⟩

theorem heads_of_eq {s : Store} {id : Int}
    (h : s.snapshot.firstJob?.any (fun j => j.id == id && s.snapshot.jobs.get? id == some j) = true) :
    ∃ j, Heads s id j := by
  cases hj : s.snapshot.firstJob? with
  | none =>
    rw [hj] at h
    cases h
  | some j =>
    rw [hj] at h
    simp only [Option.any_some, Bool.and_eq_true, beq_iff_eq] at h
    exact ⟨j, hj, h.2, h.1⟩

theorem discreet_ofPlan (p : Plan) (k : Kind) : ((Attempt.ofPlan p).handlers k).Discreet :=
  p.discreet

theorem Attempt.retries_bounded_brokenTwice :
    let as := List.replicate 2 Attempt.broken
    (dropQueued.file = none ∧ (∀ a ∈ as, ∀ k, (a.handlers k).Discreet) ∧
      (∀ n < as.length, ∃ j, Heads (runAll 1 dropQueued (as.take n)) 1 j) ∧
      1 < failures 1 dropQueued as) ∧
    ((runAll 1 dropQueued as).snapshot.jobs.get? 1 = none ∧
        (runAll 1 dropQueued as).snapshot.history.get? 1 ≠ none ∨
      ∃ n ≤ as.length, ∃ j, (runAll 1 dropQueued (as.take n)).snapshot.jobs.get? 1 = some j ∧
        j.status = .rollingBack) := by
  intro as
  have ha : ∀ a ∈ as, ∀ k, (a.handlers k).Discreet := by
    intro a hmem k
    rw [List.eq_of_mem_replicate hmem]
    exact discreet_ofPlan _ k
  have hs : ∀ n < as.length, ∃ j, Heads (runAll 1 dropQueued (as.take n)) 1 j := by
    intro n hn
    apply heads_of_eq
    revert n
    decide +kernel
  have hmany : 1 < failures 1 dropQueued as := by decide +kernel
  exact ⟨⟨rfl, ha, hs, hmany⟩, retries_bounded 1 dropQueued 1 as rfl ha hs hmany⟩

theorem Attempt.not_bounded_brokenUndo :
    ¬ ∀ (limit : Nat) (s : Store) (id : Int) (as : List Attempt), s.file = none →
      (∀ a ∈ as, ∀ k, (a.handlers k).Discreet) →
      (∀ n < as.length, ∃ j, Heads (runAll limit s (as.take n)) id j) →
      limit + 2 ≤ failures limit s as →
      (runAll limit s as).snapshot.history.get? id ≠ none := by
  intro h
  let as := Attempt.ofPlan ⟨none, some .writeOnly, none⟩ :: List.replicate 3 Attempt.broken
  have ha : ∀ a ∈ as, ∀ k, (a.handlers k).Discreet := by
    intro a hmem k
    cases List.mem_cons.1 hmem with
    | inl he => exact he ▸ discreet_ofPlan _ k
    | inr hmem =>
      rw [List.eq_of_mem_replicate hmem]
      exact discreet_ofPlan _ k
  refine h 1 dropQueued 1 as rfl ha ?_ (by decide +kernel) (by decide +kernel)
  intro n hn
  apply heads_of_eq
  revert n
  decide +kernel

end Cases

end Step

end Steward
