import Steward.Proofs.Step.Progress
import Steward.Proofs.World.Course
import Steward.Proofs.World.Undo

/-!
This module contains the end of every job: while a node leads all the time and nobody else commits, the
first job of a ledger that was reached by submissions, new schemas and steps is over after three steps,
whatever the node is replied. The only job that may take longer is one for whose new table there is no
room, and that is given up after it has failed too often.
-/

namespace Steward

open Change (Job)
open Ledger

namespace Step

variable {limit n : Nat} {s : Store} {a : Attempt} {first j : Job} {W : Snapshot}

/--
A step with the handlers that belong to the kinds. The query that it may send is replied to: with rows
or none of them, or that it failed, or that there was no session for it.
-/
structure Attempt.Standard (a : Attempt) : Prop where
  handlers : a.handlers = .standard
  answers : ∃ y reply rest, a.answers = (y, .replied reply) :: rest

/--
What a step of the first job makes of a ledger if nobody else commits: `W` are the tables that it
leaves, and `j` is the job.
-/
structure Advances (limit : Nat) (s : Store) (a : Attempt) (first : Job) (W : Snapshot) (j : Job) :
    Prop where
  settled : ∃ r what, Took (fun _ => True) a.surroundings ⟨.begin s.snapshot, first.started⟩ r ∧
    Lasts r.1 ∧ settle limit s true first.stage r = some (what, ⟨⟨s.snapshot, W⟩, j⟩)
  outcome : Outcome limit (fun _ => True) s.snapshot first W j
  run : a.run limit s = ⟨{ W.keep j with revision := s.snapshot.revision + 1 }, none⟩

section Attempts

theorem Attempt.Standard.returned (ha : a.Standard) (hs : s.snapshot.Tidy)
    (hfirst : s.snapshot.firstJob? = some first) :
    ∃ r, a.returned s = some (first.stage, r) ∧
      Took (fun _ => True) a.surroundings ⟨.begin s.snapshot, first.started⟩ r ∧ Lasts r.1 := by
  obtain ⟨y, reply, rest, hanswers⟩ := ha.answers
  obtain ⟨-, hk, -⟩ := hs.first_filed hfirst
  have hstarted := Job.follows_started first
  obtain ⟨r, hplay, hlasts⟩ :=
    standard_play first.kind a.surroundings ⟨s.begin, first.started⟩ y reply rest
  refine ⟨r, ?_, ?_, hlasts⟩
  · unfold Attempt.returned Step.begin
    rw [hfirst, ha.handlers, hanswers]
    dsimp only [Option.map_some, bind, Option.bind]
    rw [hplay]
    rfl
  · rw [← hstarted.kind] at hplay
    exact standard_took hs.keyed (hstarted.kind_eq hk) trivial (Work.ends_of_play hplay)

theorem Attempt.advances_of_returned {r : Result} (limit : Nat) (hs : s.snapshot.Tidy)
    (hf : s.file = none) (hfirst : s.snapshot.firstJob? = some first)
    (hreturned : a.returned s = some (first.stage, r))
    (htook : Took (fun _ => True) a.surroundings ⟨.begin s.snapshot, first.started⟩ r)
    (hlasts : Lasts r.1) :
    ∃ W j what, settle limit s true first.stage r = some (what, ⟨⟨s.snapshot, W⟩, j⟩) ∧
      Advances limit s a first W j := by
  obtain ⟨what, ⟨txn, j⟩, hsettle⟩ := settle_of_lasts limit s first.stage hlasts
  obtain ⟨W, houtcome, htxn⟩ := settle_outcome trivial htook hsettle
  have hbegun : txn = ⟨s.snapshot, W⟩ := by
    cases htxn with
    | inl h => exact h
    | inr h =>
      obtain ⟨h, rfl⟩ := h
      exact h
  rw [hbegun] at hsettle
  refine ⟨W, j, what, hsettle, ⟨r, what, htook, hlasts, hsettle⟩, houtcome, ?_⟩
  have hqueued : W.jobs.contains j.id = true := by
    have hjobs : W.jobs = s.snapshot.jobs := houtcome.edits.jobs
    rw [SortedMap.contains_iff, hjobs, houtcome.follows.id, (hs.first_filed hfirst).1]
    exact Option.some_ne_none first
  unfold run
  rw [hreturned]
  unfold conclude
  dsimp only
  rw [hsettle]
  dsimp only
  rw [commit_own_of_contains (d := ⟨⟨s.snapshot, W⟩, j⟩) hf what rfl hqueued]
  rfl

theorem Attempt.Standard.advances (ha : a.Standard) (limit : Nat) (hs : s.snapshot.Tidy)
    (hf : s.file = none) (hfirst : s.snapshot.firstJob? = some first) :
    ∃ W j, Advances limit s a first W j := by
  obtain ⟨r, hreturned, htook, hlasts⟩ := ha.returned hs hfirst
  obtain ⟨W, j, -, -, h⟩ :=
    a.advances_of_returned limit hs hf hfirst hreturned htook hlasts
  exact ⟨W, j, h⟩

theorem Advances.recorded (h : Advances limit s a first W j) (hs : s.snapshot.Tidy)
    (hfirst : s.snapshot.firstJob? = some first) :
    s.snapshot.Recorded (a.run limit s).snapshot first.id
      (if j.isFinished then (none, some j) else (some j, none)) := by
  have hid : j.id = first.id := h.outcome.follows.id
  have hget := (hs.first_filed hfirst).1
  have hqueued : s.snapshot.jobs.contains first.id = true := by
    rw [SortedMap.contains_iff, hget]
    exact Option.some_ne_none first
  have hhistory := hs.sound.history_of_jobs hqueued
  have hedits := h.outcome.edits
  rw [h.run]
  constructor
  case record =>
    intro k
    split
    · next hk =>
      rw [hk, ← hid]
      apply Snapshot.record_keep_self
      rw [show W.history = s.snapshot.history from hedits.history, hid]
      exact hhistory
    · next hk =>
      rw [← hid] at hk
      exact (Snapshot.record_keep W j hk).trans (hedits.record k)
  case apart =>
    split
    · exact .inl rfl
    · exact .inr rfl
  case lastId =>
    apply Int.le_of_eq
    exact ((Snapshot.lastId_keep W j).trans hedits.lastId).symm
  case numbered =>
    rw [show _ = s.snapshot.lastId from (Snapshot.lastId_keep W j).trans hedits.lastId]
    exact hs.sound.le_of_jobs hqueued
  case unfinished => exact hhistory

theorem Advances.catalog (h : Advances limit s a first W j) :
    (a.run limit s).snapshot.catalog = W.catalog := by
  rw [h.run]
  exact Snapshot.catalog_keep W j

theorem Advances.table_eq (h : Advances limit s a first W j) :
    (a.run limit s).snapshot.table? = W.table? := by
  unfold Snapshot.table?
  rw [h.catalog]

theorem Advances.tidy (h : Advances limit s a first W j) (hs : s.snapshot.Tidy)
    (hfirst : s.snapshot.firstJob? = some first) : (a.run limit s).snapshot.Tidy := by
  refine (h.recorded hs hfirst).tidy hs hfirst h.outcome.follows ?_
  have hkeyed : W.Keyed := h.outcome.edits.keyed hs.keyed
  constructor
  · rw [h.table_eq]
    exact hkeyed.id
  · rw [h.table_eq, h.catalog]
    exact hkeyed.schema

theorem Attempt.Standard.tidy_run (ha : a.Standard) (limit : Nat) (hs : s.snapshot.Tidy)
    (hf : s.file = none) :
    (a.run limit s).snapshot.Tidy ∧ s.snapshot.Grows (a.run limit s).snapshot := by
  cases hfirst : s.snapshot.firstJob? with
  | some first =>
    obtain ⟨W, j, h⟩ := ha.advances limit hs hf hfirst
    exact ⟨h.tidy hs hfirst, (h.recorded hs hfirst).grows⟩
  | none =>
    have hidle : a.run limit s = s := by
      unfold run Attempt.returned Step.begin
      rw [hfirst]
      rfl
    rw [hidle]
    exact ⟨hs, .refl _⟩

theorem Attempt.tidy_runAll (limit : Nat) {as : List Attempt} (ha : ∀ a ∈ as, a.Standard)
    (hs : s.snapshot.Tidy) (hf : s.file = none) :
    (runAll limit s as).snapshot.Tidy ∧ s.snapshot.Grows (runAll limit s as).snapshot := by
  induction as generalizing s with
  | nil => exact ⟨hs, .refl _⟩
  | cons a as ih =>
    obtain ⟨hnext, hgrows⟩ := (ha a List.mem_cons_self).tidy_run limit hs hf
    obtain ⟨hend, hrest⟩ := ih (fun x hx => ha x (List.mem_cons_of_mem _ hx)) hnext (a.file_run hf)
    exact ⟨hend, hgrows.trans hrest⟩

end Attempts

section Progress

structure Ready (s : Snapshot) (first : Job) : Prop where
  tidy : s.Tidy
  housed : s.Housed
  heads : s.firstJob? = some first
  agrees : Agrees false s.table? first
  onCourse : first.OnCourse

/--
The job is over after this many steps at most. If there is no room for its new table, each of them is a
failure.
-/
structure Due (limit n : Nat) (s : Snapshot) (first : Job) : Prop where
  room : first.HasRoom s.table? → first.left ≤ n
  noRoom : ¬ first.HasRoom s.table? → limit - first.errorCount < n

theorem Advances.housed (h : Advances limit s a first W j) (hs : s.snapshot.Housed) :
    (a.run limit s).snapshot.Housed := by
  have hhoused : W.Housed := h.outcome.edits.housed hs
  unfold Snapshot.Housed
  rw [h.catalog]
  exact hhoused

theorem Advances.agrees (h : Advances limit s a first W j) (hr : Ready s.snapshot first) :
    Agrees false (a.run limit s).snapshot.table? j := by
  obtain ⟨-, hk, hf⟩ := hr.tidy.first_filed hr.heads
  rw [h.table_eq]
  exact h.outcome.agrees hk hf hr.agrees fun t _ _ => Line.declares_false t

theorem Advances.ready (h : Advances limit s a first W j) (hr : Ready s.snapshot first)
    (hn : j.isFinished = false) : Ready (a.run limit s).snapshot j := by
  have hs := h.tidy hr.tidy hr.heads
  obtain ⟨-, hk, hf⟩ := hr.tidy.first_filed hr.heads
  constructor
  case tidy => exact hs
  case housed => exact h.housed hr.housed
  case heads =>
    exact (h.recorded hr.tidy hr.heads).first_next hr.tidy hs hr.heads h.outcome.follows hn
  case agrees => exact h.agrees hr
  case onCourse =>
    exact (h.outcome.goes hk hf hr.agrees hr.onCourse).onCourse hr.onCourse hf h.outcome.follows.kind

theorem Advances.due (h : Advances limit s a first W j) (hr : Ready s.snapshot first)
    (hd : Due limit (n + 1) s.snapshot first) :
    j.isFinished = true ∨ Due limit n (a.run limit s).snapshot j := by
  obtain ⟨-, hk, hf⟩ := hr.tidy.first_filed hr.heads
  obtain ⟨r, what, htook, hlasts, hsettle⟩ := h.settled
  cases hn : j.isFinished with
  | true => exact .inl rfl
  | false =>
    right
    cases htook.gains hlasts hk hf hr.agrees hr.onCourse hr.housed rfl hsettle with
    | ended hover => cases hn.symm.trans hover
    | nearer hless =>
      have hpos : 0 < j.left := Job.left_pos (h.ready hr hn).onCourse hn
      have hmany : 1 < first.left := Nat.lt_of_le_of_lt hpos hless
      constructor
      case room =>
        intro _
        exact Nat.le_of_lt_succ (Nat.lt_of_lt_of_le hless (hd.room (Job.hasRoom_of_left hk hmany)))
      case noRoom =>
        intro hroom
        rw [Job.hasRoom_follows h.outcome.follows] at hroom
        exact absurd (Job.hasRoom_of_left hk hmany) hroom
    | tried hw hroom hcount hlimit =>
      have hsame : W = s.snapshot := congrArg Txn.working hw
      have hleft := hd.noRoom hroom
      constructor
      case room =>
        intro hnow
        rw [h.table_eq, hsame, Job.hasRoom_follows h.outcome.follows] at hnow
        exact absurd hnow hroom
      case noRoom =>
        intro _
        dsimp only at hcount hlimit
        omega

theorem not_due_zero {s : Snapshot} (hr : Ready s first) : ¬ Due limit 0 s first := by
  intro hd
  by_cases hroom : first.HasRoom s.table?
  · have hpos := Job.left_pos hr.onCourse (hr.tidy.first_filed hr.heads).2.2
    exact absurd (hd.room hroom) (Nat.not_le.2 hpos)
  · exact absurd (hd.noRoom hroom) (Nat.not_lt_zero _)

theorem Attempt.runAll_due (limit : Nat) {as : List Attempt} (ha : ∀ a ∈ as, a.Standard)
    (hf : s.file = none) (hr : Ready s.snapshot first) (hd : Due limit as.length s.snapshot first) :
    (runAll limit s as).snapshot.history.get? first.id ≠ none := by
  induction as generalizing s first with
  | nil => exact absurd hd (not_due_zero hr)
  | cons a as ih =>
    obtain ⟨W, j, h⟩ := (ha a List.mem_cons_self).advances limit hr.tidy hf hr.heads
    have hrest : ∀ x ∈ as, x.Standard := fun x hx => ha x (List.mem_cons_of_mem _ hx)
    cases hn : j.isFinished with
    | true =>
      have hrecord := (h.recorded hr.tidy hr.heads).record first.id
      rw [if_pos rfl, hn, if_pos rfl] at hrecord
      have hover : (a.run limit s).snapshot.history.get? first.id = some j :=
        congrArg Prod.snd hrecord
      obtain ⟨-, hgrows⟩ := tidy_runAll limit hrest (h.tidy hr.tidy hr.heads) (a.file_run hf)
      have hkept : (runAll limit s (a :: as)).snapshot.history.get? first.id =
          (a.run limit s).snapshot.history.get? first.id :=
        congrArg Prod.snd (hgrows.history first.id (hover ▸ Option.some_ne_none j))
      rw [hkept, hover]
      exact Option.some_ne_none j
    | false =>
      have hdue := (h.due hr hd).resolve_left (hn ▸ Bool.false_ne_true)
      rw [← h.outcome.follows.id]
      exact ih hrest (a.file_run hf) (h.ready hr hn) hdue

end Progress

end Step

namespace Line

variable {Q : Snapshot → Prop} {limit : Nat} {l : Line} {s s' : Snapshot}

section Places

theorem Turn.housed (h : Turn Q limit s s') (hs : s.Housed) : s'.Housed := by
  unfold Snapshot.Housed at hs ⊢
  cases h with
  | handed job h =>
    rw [h.catalog]
    exact hs
  | founded σ h =>
    intro k hk
    rw [h.place]
    rw [h.schemas] at hk
    split at hk
    · next hnew => exact .inl hnew
    · exact .inr (hs k hk)
  | stepped b W first j h =>
    rcases h.catalog with ⟨-, hsame⟩ | ⟨hbegun, hdone⟩
    · rw [hsame]
      exact hs
    · rw [hbegun] at hs
      rw [hdone]
      exact h.outcome.edits.housed hs

theorem housed_run (limit : Nat) (es : List Event) : (empty.run limit es).snapshot.Housed := by
  apply run_keeps (fun _ _ hs h => h.directed hs) (fun _ _ _ h => h.housed)
    (stands_empty directed_initial)
  intro k hk
  cases hk

end Places

/--
The first job is over after three steps that a node takes while it leads and nobody else commits,
whatever it is replied. If the job is to make a table and there is a table in its place, the job is over
after it has failed once more than is allowed.
-/
theorem first_job_ends (limit : Nat) (es : List Event) (first : Job) (as : List Step.Attempt)
    (hfirst : (empty.run limit es).snapshot.firstJob? = some first) (ha : ∀ a ∈ as, a.Standard)
    (hroom : first.HasRoom (empty.run limit es).snapshot.table? → 3 ≤ as.length)
    (hnone : ¬ first.HasRoom (empty.run limit es).snapshot.table? → limit < as.length) :
    let s := (Step.Attempt.runAll limit (empty.run limit es).world.store as).snapshot
    s.jobs.get? first.id = none ∧ s.history.get? first.id ≠ none := by
  intro s
  have hl := directed_run limit es
  have hready : Step.Ready (empty.run limit es).snapshot first := by
    have hs := hl.world.fine
    have hget := (hs.tidy.first_filed hfirst).1
    exact ⟨hs.tidy, housed_run limit es, hfirst, hs.holds.concerted.first first hfirst,
      hs.holds.onCourse _ _ hget⟩
  have hdue : Step.Due limit as.length (empty.run limit es).snapshot first := by
    constructor
    · intro h
      exact Nat.le_trans (Job.left_le first) (hroom h)
    · intro h
      exact Nat.lt_of_le_of_lt (Nat.sub_le _ _) (hnone h)
  have hover := Step.Attempt.runAll_due limit ha hl.world.file hready hdue
  have hs := (Step.Attempt.tidy_runAll limit ha hl.world.fine.tidy hl.world.file).1
  exact ⟨(hs.sound.apart first.id).resolve_right hover, hover⟩

def unanswered (s : Snapshot) (stamp : Nat) : Step.Attempt :=
  let x : Step.Surroundings := ⟨.ofSnapshot s, true, stamp⟩
  ⟨.standard, x, [(x, .replied (.error (.of "connection lost")))]⟩

theorem standard_unanswered {s : Snapshot} {stamps : List Nat} :
    ∀ a ∈ stamps.map (unanswered s), a.Standard := by
  intro a ha
  obtain ⟨stamp, -, rfl⟩ := List.mem_map.1 ha
  exact ⟨rfl, _, _, _, rfl⟩

theorem first_job_ends_dropHandedIn :
    let s₀ := (empty.run 8 dropHandedIn).snapshot
    let first := { Job.ofArgs 1 2 "shop" "items" (.dropIndex "by_id") with id := 3 }
    let as := [6, 7, 8].map (unanswered s₀)
    (s₀.firstJob? = some first ∧ (∀ a ∈ as, a.Standard) ∧ first.HasRoom s₀.table? ∧
      3 ≤ as.length) ∧
    let s := (Step.Attempt.runAll 8 (empty.run 8 dropHandedIn).world.store as).snapshot
    s.jobs.get? first.id = none ∧ s.history.get? first.id ≠ none := by
  intro s₀ first as
  have hfirst : s₀.firstJob? = some first := by decide +kernel
  have ha : ∀ a ∈ as, a.Standard := standard_unanswered
  have hroom : first.HasRoom s₀.table? := trivial
  refine ⟨⟨hfirst, ha, hroom, Nat.le_refl 3⟩, ?_⟩
  exact first_job_ends 8 dropHandedIn first as hfirst ha (fun _ => Nat.le_refl 3)
    (fun h => absurd hroom h)

/--
A job is handed in that is to create a table in the place of another one.
-/
def createInTakenPlace : List Event :=
  [.found "shop", .commit 0,
    .draw 0 1 2 "shop" "items" (.createTable (.ofName "items") true), .hand 0] ++
  stepOnce 5 ++ [.draw 0 1 2 "shop" "others" (.createTable (.ofName "others") true), .hand 0]

theorem not_ends_createInTakenPlace :
    ¬ ∀ (limit : Nat) (es : List Event) (first : Job) (as : List Step.Attempt),
      (empty.run limit es).snapshot.firstJob? = some first → (∀ a ∈ as, a.Standard) →
      3 ≤ as.length →
      (Step.Attempt.runAll limit (empty.run limit es).world.store as).snapshot.history.get? first.id ≠
        none := by
  intro h
  let s₀ := (empty.run 8 createInTakenPlace).snapshot
  let first := { Job.ofArgs 1 2 "shop" "others" (.createTable (.ofName "others") true) with id := 3 }
  let as := [6, 7, 8].map (unanswered s₀)
  have ha : ∀ a ∈ as, a.Standard := standard_unanswered
  refine h 8 createInTakenPlace first as ?_ ha (Nat.le_refl 3) ?_
  · decide +kernel
  · decide +kernel

end Line

end Steward
