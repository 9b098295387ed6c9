import Steward.Proofs.Step.Names
import Steward.Proofs.World.Integrity
import Steward.Proofs.World.Progress

/-!
This module contains the runs of a node that works alone, with nothing in the queue but one job. The
job is over after some steps, the queue is empty again, and nothing else was touched.
-/

namespace Steward

open Catalog (Table)
open Change (Job)
open Ledger
open Step (Reaches)

namespace Step

namespace Work

variable {α : Type}

/--
What the work comes to if each statement is answered by its text, in surroundings that stay as they
are.
-/
def serve (reply : Sql.Statement → Except Sql.Trouble Sql.Reply) (x : Surroundings) : Work α → α
  | done a => a
  | ask st k => (k x (.replied (reply st))).serve reply x

def answers (reply : Sql.Statement → Except Sql.Trouble Sql.Reply) (x : Surroundings) :
    Work α → List (Surroundings × Answer)
  | done _ => [(x, .replied (reply default))]
  | ask st k =>
    (x, .replied (reply st)) :: (k x (.replied (reply st))).answers reply x

variable {reply : Sql.Statement → Except Sql.Trouble Sql.Reply} {x : Surroundings}

theorem play_answers (w : Work α) : w.play (w.answers reply x) = some (w.serve reply x) := by
  induction w with
  | done a => rfl
  | ask st k ih => exact ih x (.replied (reply st))

theorem answers_eq_cons (w : Work α) :
    ∃ y r rest, w.answers reply x = (y, .replied r) :: rest := by
  cases w with
  | done a => exact ⟨_, _, _, rfl⟩
  | ask st k => exact ⟨_, _, _, rfl⟩

theorem Twins.serve {β : Type} {R : α → β → Prop} {w : Work α} {w' : Work β} (h : Twins R w w')
    (reply : Sql.Statement → Except Sql.Trouble Sql.Reply) (x x' : Surroundings) :
    R (w.serve reply x) (w'.serve reply x') := by
  induction h with
  | done h => exact h
  | ask st k k' h ih => exact ih x x' (.replied (reply st))

end Work

/--
A node that works alone: it leads all the time and nobody else commits. It looks at the ledger before
each step, and what its queries for rows are replied depends on their text alone.
-/
structure Solo where
  /-- How often a job may fail. -/
  limit : Nat
  /-- Are foreign keys checked at all? -/
  checksForeignKeys : Bool
  reply : Sql.Statement → Except Sql.Trouble Sql.Reply

namespace Solo

def surroundings (c : Solo) (s : Store) (stamp : Nat) : Surroundings :=
  ⟨.ofSnapshot s.snapshot, c.checksForeignKeys, stamp⟩

/--
The ledger after a step of the first job, if there is one.
-/
def step (c : Solo) (s : Store) (stamp : Nat) : Store :=
  let x := c.surroundings s stamp
  match Step.begin s .standard x with
  | some begun => after s (conclude c.limit s true begun.source (begun.work.serve c.reply x))
  | none => s

def run (c : Solo) (s : Store) (stamps : List Nat) : Store := stamps.foldl c.step s

/--
There are enough steps to end a job, even if each of them fails.
-/
def Suffices (c : Solo) (stamps : List Nat) : Prop := 3 ≤ stamps.length ∧ c.limit < stamps.length

end Solo

end Step

structure Change.Job.New (j : Job) : Prop where
  kind : j.kind = j.args.kind
  stage : j.stage = j.kind.initial
  status : j.status = .queued

namespace Ledger

/--
The ledger after a job was handed in under an id that was given out for it before.
-/
def Store.handed (s : Store) (j : Job) : Store :=
  { s with snapshot := { s.snapshot with
    revision := s.snapshot.revision + 1
    lastId := max s.snapshot.lastId j.id
    jobs := s.snapshot.jobs.insert j.id j } }

namespace Snapshot

structure Rested (s : Snapshot) : Prop where
  tidy : s.Tidy
  housed : s.Housed
  named : s.Named
  quiet : Step.Quiet false s.table?
  idle : ∀ k, s.jobs.get? k = none

/--
There is just one job, and it is ready for its next step.
-/
structure Serves (s : Snapshot) (first : Job) : Prop where
  ready : Step.Ready s first
  named : s.Named
  only : ∀ k, k ≠ first.id → s.jobs.get? k = none

structure Passed (s t : Snapshot) (j : Job) : Prop where
  schemas : t.catalog.schemas = s.catalog.schemas
  others : ∀ a b, ¬ Reaches j a b → t.table? a b = s.table? a b
  records : ∀ k, k ≠ j.id → t.record k = s.record k
  within : ∀ N M, j.Means N M → Within N M (Reaches j) s.table? → Within N M (Reaches j) t.table?

variable {s t u : Snapshot} {j j' : Job}

theorem Named.of_catalog (h : s.Named) (hc : t.catalog = s.catalog) : t.Named := by
  have htable : t.table? = s.table? := by
    unfold table?
    rw [hc]
  obtain ⟨hfiled, hlive, hschema, hnames⟩ := h
  rw [← hc] at hfiled hlive hschema
  rw [← htable] at hnames
  exact ⟨hfiled, hlive, hschema, hnames⟩

theorem Passed.trans (h : s.Passed t j) (h' : t.Passed u j') (hj : j.Follows j') : s.Passed u j := by
  have hreaches := Step.reaches_follow hj
  refine ⟨h'.schemas.trans h.schemas, ?_, ?_, ?_⟩
  · intro a b hab
    exact (h'.others a b (hreaches ▸ hab)).trans (h.others a b hab)
  · intro k hk
    exact (h'.records k (hj.id ▸ hk)).trans (h.records k hk)
  · intro N M hmeans hs
    have hu := h'.within N M (hmeans.follow hj)
    rw [hreaches] at hu
    exact hu (h.within N M hmeans hs)

section Handed

variable {s : Store}

theorem Rested.get?_jobs_handed (h : s.snapshot.Rested) (j : Job) (k : Int) :
    (s.handed j).snapshot.jobs.get? k = if k = j.id then some j else none := by
  refine (SortedMap.get?_insert _ _ _ _).trans ?_
  rw [h.idle]

theorem Rested.sound_handed (h : s.snapshot.Rested) (hid : s.snapshot.history.get? j.id = none) :
    (s.handed j).snapshot.Sound := by
  constructor
  · intro k hk
    have hnumbered := h.tidy.sound.numbered k
    unfold record at hk hnumbered
    rw [h.get?_jobs_handed] at hk
    rw [h.idle] at hnumbered
    have hmax : (s.handed j).snapshot.lastId = max s.snapshot.lastId j.id := rfl
    split at hk
    · omega
    · have := hnumbered hk
      omega
  · intro k
    rw [h.get?_jobs_handed]
    split
    · next he => exact .inr (he ▸ hid)
    · exact .inl rfl

theorem Rested.tidy_handed (h : s.snapshot.Rested) (hj : j.New)
    (hid : s.snapshot.history.get? j.id = none) : (s.handed j).snapshot.Tidy := by
  constructor
  case sound => exact h.sound_handed hid
  case keyed => exact ⟨h.tidy.keyed.id, h.tidy.keyed.schema⟩
  case filed =>
    intro k i hi
    rw [h.get?_jobs_handed] at hi
    split at hi
    · next he =>
      cases hi
      refine ⟨he.symm, hj.kind, ?_⟩
      unfold Job.isFinished
      rw [hj.status]
      rfl
    · cases hi
  case waiting =>
    intro k id i hi hlt hk
    rw [h.get?_jobs_handed] at hi hk
    split at hi
    · split at hk
      · omega
      · exact absurd rfl hk
    · cases hi

theorem Rested.handed (h : s.snapshot.Rested) (hj : j.New)
    (hid : s.snapshot.history.get? j.id = none) : (s.handed j).snapshot.Serves j := by
  have htidy := h.tidy_handed hj hid
  have hget := h.get?_jobs_handed j
  constructor
  case ready =>
    constructor
    case tidy => exact htidy
    case housed => exact h.housed
    case heads =>
      refine (firstJob?_eq_some_iff htidy).2 ⟨(hget _).trans (if_pos rfl), ?_⟩
      intro k hk
      rw [hget] at hk
      split at hk
      · next he => exact he ▸ Int.le_refl _
      · exact absurd rfl hk
    case agrees =>
      apply Step.agrees_of_quiet h.quiet
      right
      rw [hj.stage]
      exact Change.Kind.initial_not_mem_intermediate _
    case onCourse =>
      unfold Job.OnCourse
      rw [hj.status]
      exact hj.stage
  case named => exact ⟨h.named.filed, h.named.live, h.named.schema, h.named.table⟩
  case only =>
    intro k hk
    exact (hget k).trans (if_neg hk)

end Handed

end Snapshot

end Ledger

namespace Step

section Advances

variable {limit : Nat} {s : Store} {a : Attempt} {first j : Job} {W : Snapshot}

theorem Advances.passed (h : Advances limit s a first W j) (hr : Ready s.snapshot first) :
    s.snapshot.Passed (a.run limit s).snapshot first := by
  constructor
  case schemas =>
    rw [h.catalog]
    exact h.outcome.edits.schemas
  case others =>
    rw [h.table_eq]
    exact fun a b hab => h.outcome.reshaped.others hab
  case records =>
    intro k hk
    rw [(h.recorded hr.tidy hr.heads).record, if_neg hk]
  case within =>
    rw [h.table_eq]
    exact fun N M hmeans hwithin => h.outcome.reshaped.within hwithin hmeans

theorem Advances.named (h : Advances limit s a first W j) (hs : s.snapshot.Named) :
    (a.run limit s).snapshot.Named :=
  (h.outcome.named hs).of_catalog h.catalog

theorem Advances.only (h : Advances limit s a first W j) (hs : s.snapshot.Serves first) {k : Int}
    (hk : k ≠ first.id) : (a.run limit s).snapshot.jobs.get? k = none := by
  rw [(h.recorded hs.ready.tidy hs.ready.heads).get?_jobs, if_neg hk]
  exact hs.only k hk

theorem Advances.serves (h : Advances limit s a first W j) (hs : s.snapshot.Serves first)
    (hn : j.isFinished = false) : (a.run limit s).snapshot.Serves j where
  ready := h.ready hs.ready hn
  named := h.named hs.named
  only _ hk := h.only hs (h.outcome.follows.id ▸ hk)

theorem Advances.rested (h : Advances limit s a first W j) (hs : s.snapshot.Serves first)
    (hover : j.isFinished = true) :
    (a.run limit s).snapshot.Rested ∧ (a.run limit s).snapshot.history.get? first.id = some j := by
  have hrecorded := h.recorded hs.ready.tidy hs.ready.heads
  refine ⟨?_, ?_⟩
  · constructor
    case tidy => exact h.tidy hs.ready.tidy hs.ready.heads
    case housed => exact h.housed hs.ready.housed
    case named => exact h.named hs.named
    case quiet => exact (h.agrees hs.ready).quiet (.inl hover)
    case idle =>
      intro k
      by_cases hk : k = first.id
      · rw [hrecorded.get?_jobs, if_pos hk, if_pos hover]
      · exact h.only hs hk
  · have hrecord := hrecorded.record first.id
    rw [if_pos rfl, if_pos hover] at hrecord
    exact congrArg Prod.snd hrecord

end Advances

namespace Solo

variable {c : Solo} {s : Store} {first : Job} {stamp n : Nat}

theorem step_idle (h : s.snapshot.firstJob? = none) (stamp : Nat) : c.step s stamp = s := by
  unfold step Step.begin
  rw [h]
  rfl

theorem run_idle (h : s.snapshot.firstJob? = none) (stamps : List Nat) : c.run s stamps = s := by
  unfold run
  induction stamps with
  | nil => rfl
  | cons stamp stamps ih =>
    rw [List.foldl_cons, step_idle h, ih]

def served (c : Solo) (s : Store) (stamp : Nat) (first : Job) : Result :=
  (Registry.standard first.kind (c.surroundings s stamp) ⟨s.begin, first.started⟩).serve c.reply
    (c.surroundings s stamp)

/--
What the next step makes of the ledger: `W` are the tables that it leaves, and `j` is the job.
-/
structure Takes (c : Solo) (s : Store) (stamp : Nat) (first : Job) (W : Snapshot) (j : Job) :
    Prop where
  settled : ∃ what, settle c.limit s true first.stage (c.served s stamp first) =
    some (what, ⟨⟨s.snapshot, W⟩, j⟩)
  file : (c.step s stamp).file = none
  catalog : (c.step s stamp).snapshot.catalog = W.catalog
  follows : first.Follows j
  passed : s.snapshot.Passed (c.step s stamp).snapshot first
  serves : j.isFinished = false → (c.step s stamp).snapshot.Serves j
  rested : j.isFinished = true → (c.step s stamp).snapshot.Rested ∧
    (c.step s stamp).snapshot.history.get? first.id = some j
  due : ∀ n, Due c.limit (n + 1) s.snapshot first →
    j.isFinished = true ∨ Due c.limit n (c.step s stamp).snapshot j

theorem step_eq_run (hfirst : s.snapshot.firstJob? = some first) (stamp : Nat) :
    ∃ a : Attempt, a.Standard ∧ a.returned s = some (first.stage, c.served s stamp first) ∧
      a.run c.limit s = c.step s stamp := by
  let x := c.surroundings s stamp
  let w := Registry.standard first.kind x ⟨s.begin, first.started⟩
  have hreturned : (⟨.standard, x, w.answers c.reply x⟩ : Attempt).returned s =
      some (first.stage, c.served s stamp first) := by
    unfold Attempt.returned Step.begin
    rw [hfirst]
    dsimp only [Option.map_some, bind, Option.bind]
    rw [w.play_answers]
    rfl
  refine ⟨⟨.standard, x, w.answers c.reply x⟩, ⟨rfl, w.answers_eq_cons⟩, hreturned, ?_⟩
  unfold Attempt.run step Step.begin
  rw [hreturned, hfirst]
  rfl

theorem takes (hs : s.snapshot.Serves first) (hf : s.file = none) (c : Solo) (stamp : Nat) :
    ∃ W j, c.Takes s stamp first W j := by
  obtain ⟨a, ha, hreturned, hrun⟩ := step_eq_run (c := c) hs.ready.heads stamp
  obtain ⟨r, hr, htook, hlasts⟩ := ha.returned hs.ready.tidy hs.ready.heads
  cases hr.symm.trans hreturned
  obtain ⟨W, j, what, hsettle, h⟩ := a.advances_of_returned c.limit hs.ready.tidy hf hs.ready.heads
    hreturned htook hlasts
  refine ⟨W, j, ?_⟩
  constructor
  case settled => exact ⟨what, hsettle⟩
  case follows => exact h.outcome.follows
  all_goals rw [← hrun]
  case file => exact a.file_run hf
  case catalog => exact h.catalog
  case passed => exact h.passed hs.ready
  case serves => exact h.serves hs
  case rested => exact h.rested hs
  case due => exact fun n => h.due hs.ready

theorem due_of_suffices {stamps : List Nat} (h : c.Suffices stamps) (s : Snapshot) (j : Job) :
    Due c.limit stamps.length s j where
  room _ := Nat.le_trans (Job.left_le j) h.1
  noRoom _ := Nat.lt_of_le_of_lt (Nat.sub_le _ _) h.2

/--
Where a run leaves the ledger after the only job is over.
-/
structure Ends (s t : Store) (first : Job) : Prop where
  file : t.file = none
  rested : t.snapshot.Rested
  passed : s.snapshot.Passed t.snapshot first
  ended : ∃ j, t.snapshot.history.get? first.id = some j ∧ j.isFinished = true

theorem run_ends {stamps : List Nat} (hs : s.snapshot.Serves first) (hf : s.file = none)
    (hd : Due c.limit stamps.length s.snapshot first) : Ends s (c.run s stamps) first := by
  induction stamps generalizing s first with
  | nil => exact absurd hd (not_due_zero hs.ready)
  | cons stamp stamps ih =>
    obtain ⟨W, j, h⟩ := takes hs hf c stamp
    have hrun : c.run s (stamp :: stamps) = c.run (c.step s stamp) stamps := rfl
    rw [hrun]
    cases hover : j.isFinished with
    | true =>
      obtain ⟨hrested, hhistory⟩ := h.rested hover
      rw [run_idle (Snapshot.firstJob?_eq_none_iff.2 hrested.idle)]
      exact ⟨h.file, hrested, h.passed, j, hhistory, hover⟩
    | false =>
      have hdue := (h.due stamps.length hd).resolve_left (hover ▸ Bool.false_ne_true)
      obtain ⟨hfile, hrested, hpassed, hend⟩ := ih (h.serves hover) h.file hdue
      rw [h.follows.id] at hend
      exact ⟨hfile, hrested, h.passed.trans hpassed h.follows, hend⟩

end Solo

end Step

end Steward
