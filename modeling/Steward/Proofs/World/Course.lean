import Mathlib.Data.List.Destutter
import Steward.Proofs.Step.Walk
import Steward.Proofs.World.Turns

/-!
This module contains the course of a job: whatever overlaps, the records that are committed of it walk
through the stages of its kind one by one, and through its states without ever going back.
-/

namespace Steward

open Catalog (Stage)
open Change (Job Kind Status)
open Ledger

section Destutter

variable {α : Type} [DecidableEq α]

theorem destutter'_concat (a b : α) (l : List α) :
    (l ++ [b]).destutter' (· ≠ ·) a =
      if (a :: l).getLast? = some b then l.destutter' (· ≠ ·) a
      else l.destutter' (· ≠ ·) a ++ [b] := by
  induction l generalizing a with
  | nil => by_cases hb : a = b <;> simp [hb]
  | cons x l ih =>
    rw [List.cons_append, List.destutter'_cons, List.destutter'_cons, ih, ih,
      List.getLast?_cons_cons]
    by_cases hx : a = x
    · rw [if_neg (not_not.2 hx), if_neg (not_not.2 hx), hx]
    · rw [if_pos hx, if_pos hx]
      split <;> rfl

theorem destutter_concat (l : List α) (b : α) :
    (l ++ [b]).destutter (· ≠ ·) =
      if l.getLast? = some b then l.destutter (· ≠ ·) else l.destutter (· ≠ ·) ++ [b] := by
  cases l with
  | nil => rfl
  | cons a l => exact destutter'_concat a b l

end Destutter

namespace Change

/--
The states that a job goes through from its submission to its end.
-/
def Status.courses : List (List Status) := [
  [.queued, .running, .done], [.queued, .done], [.queued, .running, .cancelled],
  [.queued, .cancelled], [.queued, .running, .rollingBack, .rollbackDone]]

/--
The stages and the states that the records of a job of the kind have gone through, and where it is
now.
-/
inductive Course (k : Kind) : List Stage → List Status → Stage → Status → Prop where
  | queued : Course k [k.initial] [.queued] k.initial .queued
  | running {st : Stage} (h : st = k.initial ∨ st ∈ k.intermediate) :
    Course k (k.upTo st) [.queued, .running] st .running
  | rollingBack {st : Stage} (h : st ∈ k.intermediate) :
    Course k (k.upTo st) [.queued, .running, .rollingBack] st .rollingBack
  | done {st : Stage} {ss : List Status} (h : ss = [.queued] ∨ ss = [.queued, .running]) :
    Course k k.order (ss ++ [.done]) st .done
  | cancelled {ss : List Status} (h : ss = [.queued] ∨ ss = [.queued, .running]) :
    Course k [k.initial] (ss ++ [.cancelled]) k.initial .cancelled
  | undone {st : Stage} (h : st ∈ k.intermediate) :
    Course k (k.upTo st ++ [k.initial]) [.queued, .running, .rollingBack, .rollbackDone] k.initial
      .rollbackDone

namespace Course

variable {k : Kind} {sts : List Stage} {ss : List Status} {st : Stage} {σ : Status} {j j' : Job}

/--
The list with `b` at its end, if that is new.
-/
def put {α : Type} [DecidableEq α] (as : List α) (a b : α) : List α :=
  if a = b then as else as ++ [b]

theorem put_self {α : Type} [DecidableEq α] (as : List α) (a : α) : put as a a = as := if_pos rfl

theorem put_of_ne {α : Type} [DecidableEq α] {as : List α} {a b : α} (h : a ≠ b) :
    put as a b = as ++ [b] := if_neg h

theorem forward (h : Course k sts ss st σ) (hσ : σ = .queued ∨ σ = .running) :
    sts = k.upTo st ∧ (st = k.initial ∨ st ∈ k.intermediate) ∧
      (ss = [.queued] ∨ ss = [.queued, .running]) ∧ put ss σ .running = [.queued, .running] ∧
      (st ∈ k.intermediate → ss = [.queued, .running]) := by
  cases h with
  | queued =>
    refine ⟨(Kind.upTo_initial k).symm, .inl rfl, .inl rfl, rfl, ?_⟩
    exact fun hi => absurd hi (Kind.initial_not_mem_intermediate k)
  | running h => exact ⟨rfl, h, .inr rfl, rfl, fun _ => rfl⟩
  | rollingBack => simp at hσ
  | done => simp at hσ
  | cancelled => simp at hσ
  | undone => simp at hσ

theorem backward (h : Course k sts ss st σ) (hσ : σ = .rollingBack) :
    sts = k.upTo st ∧ st ∈ k.intermediate ∧ ss = [.queued, .running, .rollingBack] := by
  cases h with
  | rollingBack h => exact ⟨rfl, h, rfl⟩
  | queued => cases hσ
  | running => cases hσ
  | done => cases hσ
  | cancelled => cases hσ
  | undone => cases hσ

theorem goes (h : Course j.kind sts ss j.stage j.status) (hg : j.Goes j')
    (hf : j.isFinished = false) (hk : j'.kind = j.kind) :
    Course j'.kind (put sts j.stage j'.stage) (put ss j.status j'.status) j'.stage j'.status := by
  have hforward (hb : j.isRollingBack = false) := Job.status_forward hf hb
  have hput {as : List Status} {τ : Status} (hb : j.isRollingBack = false)
      (hτ : τ ≠ .queued ∧ τ ≠ .running) : put as j.status τ = as ++ [τ] := by
    apply put_of_ne
    rintro rfl
    exact (hforward hb).elim hτ.1 hτ.2
  rw [hk]
  cases hg with
  | again hs hst =>
    rw [hst, put_self]
    cases hb : j.isRollingBack with
    | true =>
      obtain ⟨rfl, hi, rfl⟩ := h.backward (eq_of_beq hb)
      rw [hs, Job.started_of_rollingBack hb, put_self, eq_of_beq hb]
      exact .rollingBack hi
    | false =>
      obtain ⟨rfl, hi, _, hss, _⟩ := h.forward (hforward hb)
      rw [hs, Job.status_started hf hb, hss]
      exact .running hi
  | onward hb hs hnext hi =>
    obtain ⟨rfl, _, _, hss, _⟩ := h.forward (hforward hb)
    rw [hs, Job.status_started hf hb, hss, put_of_ne (Kind.ne_of_next hnext).symm,
      ← Kind.upTo_next hnext]
    exact .running (.inr hi)
  | done hb hs hnext hlast =>
    obtain ⟨rfl, _, hss, _⟩ := h.forward (hforward hb)
    rw [hs, hput hb (by decide), put_of_ne (Kind.ne_of_next hnext).symm, ← Kind.upTo_next hnext,
      Kind.upTo_last hnext hlast]
    exact .done hss
  | cancelled hb hs hst hi =>
    obtain ⟨rfl, _, hss, _⟩ := h.forward (hforward hb)
    rw [hs, hput hb (by decide), hst, put_self, hi, Kind.upTo_initial]
    exact .cancelled hss
  | turned hb hs hst hi =>
    obtain ⟨rfl, _, _, _, hss⟩ := h.forward (hforward hb)
    rw [hs, hput hb (by decide), hst, put_self, hss hi]
    exact .rollingBack hi
  | undone hb hs hst =>
    obtain ⟨rfl, hi, rfl⟩ := h.backward (eq_of_beq hb)
    have hne : j.stage ≠ j.kind.initial := by
      intro he
      rw [he] at hi
      exact Kind.initial_not_mem_intermediate _ hi
    rw [hs, hst, put_of_ne hne, eq_of_beq hb, put_of_ne (by decide)]
    exact .undone hi

theorem shape (h : Course k sts ss st σ) :
    (∃ n, sts = if σ = .rollbackDone then k.order.take n ++ [k.initial] else k.order.take n) ∧
      (∃ course ∈ Status.courses, ss <+: course) ∧ (σ = .done → sts = k.order) := by
  have hinitial : ∃ n, [k.initial] = k.order.take n := by
    rw [← Kind.upTo_initial]
    exact Kind.upTo_prefix (.inl rfl)
  cases h with
  | queued => exact ⟨hinitial, by decide, nofun⟩
  | running h => exact ⟨Kind.upTo_prefix h, by decide, nofun⟩
  | rollingBack h => exact ⟨Kind.upTo_prefix (.inr h), by decide, nofun⟩
  | done h =>
    refine ⟨⟨k.order.length, List.take_length.symm⟩, ?_, fun _ => rfl⟩
    rcases h with rfl | rfl <;> decide
  | cancelled h =>
    refine ⟨hinitial, ?_, nofun⟩
    rcases h with rfl | rfl <;> decide
  | undone h =>
    obtain ⟨n, hn⟩ := Kind.upTo_prefix (.inr h)
    refine ⟨⟨n, ?_⟩, by decide, nofun⟩
    rw [if_pos rfl, hn]

end Course

end Change

namespace Ledger

/--
What is kept of a job, in the queue or in the history.
-/
def Snapshot.job? (s : Snapshot) (id : Int) : Option Job :=
  (s.jobs.get? id).or (s.history.get? id)

/--
The jobs in the queue are on their course, and the first one agrees with the tables.
-/
structure Directed (s : Snapshot) : Prop where
  concerted : Concerted false s
  onCourse : ∀ id j, s.jobs.get? id = some j → j.OnCourse

/--
What may become of the record of a job: it appears in the queue, or goes on.
-/
inductive Turns : Option Job → Option Job → Prop where
  | same (o : Option Job) : Turns o o
  | queued (j : Job) (hs : j.status = .queued) (h : j.stage = j.kind.initial) : Turns none (some j)
  | goes (j j' : Job) (hg : j.Goes j') (hf : j.isFinished = false) (hk : j'.kind = j.kind) :
    Turns (some j) (some j')

variable {R : Rules} {limit : Nat} {s s' b W : Snapshot} {first j : Job}

theorem directed_initial : Directed .initial where
  concerted := concerted_initial
  onCourse id j h := by cases h

variable {Q : Snapshot → Prop} {job : Job}

theorem Appended.job? (h : Appended s s' job) (id : Int) :
    s'.job? id = if id = job.id then some job else s.job? id := by
  have hid := congrArg (fun r => r.1.or r.2) (h.record id)
  split at hid
  · next he =>
    rw [if_pos he]
    exact hid
  · next he =>
    rw [if_neg he]
    exact hid

theorem Appended.job?_new (h : Appended s s' job) (hs : s.Tidy) : s.job? job.id = none :=
  congrArg (fun r => r.1.or r.2) (hs.sound.record_of_lt h.fresh)

theorem Founded.job? {σ : Catalog.Schema} (h : Founded s s' σ) (id : Int) :
    s'.job? id = s.job? id := congrArg (fun r => r.1.or r.2) (h.record id)

theorem Stepped.job? (h : Stepped R Q limit s s' b W first j) (id : Int) :
    s'.job? id = if id = first.id then some j else s.job? id := by
  have hid := congrArg (fun r => r.1.or r.2) (h.record id)
  split at hid
  · next he =>
    rw [if_pos he]
    split at hid <;> exact hid
  · next he =>
    rw [if_neg he]
    exact hid

theorem Stepped.job?_first (h : Stepped R Q limit s s' b W first j) (hs : s.Tidy) :
    s.job? first.id = some first := by
  unfold Snapshot.job?
  rw [((Snapshot.firstJob?_eq_some_iff hs).1 (h.first_now hs)).1]
  rfl

theorem Stepped.goes (h : Stepped R Directed limit s s' b W first j) :
    first.Goes j ∧ first.isFinished = false := by
  obtain ⟨hget, hkind, hfinished⟩ := h.base.tidy.first_filed h.begun
  have hb : Directed b := h.base.holds
  refine ⟨?_, hfinished⟩
  exact h.outcome.goes hkind hfinished (hb.concerted.first _ h.begun) (hb.onCourse _ _ hget)

end Ledger

namespace Line

variable {limit : Nat} {l : Line} {s s' : Snapshot}

theorem Turn.directed (h : Turn Directed limit s s') (hs : Fine Directed s) : Directed s' := by
  refine ⟨h.concerted hs.tidy (fun _ => Directed.concerted) hs.holds.concerted, ?_⟩
  intro id x hx
  cases h with
  | handed job h hkind hstage =>
    have hid := congrArg Prod.fst (h.record id)
    split at hid
    · cases hx.symm.trans hid
      unfold Job.OnCourse
      rw [h.status]
      exact hstage
    · exact hs.holds.onCourse id x (hid.symm.trans hx)
  | founded σ h =>
    exact hs.holds.onCourse id x ((congrArg Prod.fst (h.record id)).symm.trans hx)
  | stepped b W first j h =>
    rw [h.get?_jobs] at hx
    split at hx
    · split at hx
      · cases hx
      · cases hx
        obtain ⟨hgoes, hf⟩ := h.goes
        have hget := ((Snapshot.firstJob?_eq_some_iff hs.tidy).1 (h.first_now hs.tidy)).1
        exact hgoes.onCourse (hs.holds.onCourse _ _ hget) hf h.follows.kind
    · exact hs.holds.onCourse id x hx

theorem Turn.turns (h : Turn Directed limit s s') (hs : Fine Directed s) (id : Int) :
    Turns (s.job? id) (s'.job? id) := by
  cases h with
  | handed job h hkind hstage =>
    rw [h.job? id]
    split
    · next he =>
      rw [he, h.job?_new hs.tidy]
      exact .queued job h.status hstage
    · exact .same _
  | founded σ h =>
    rw [h.job?]
    exact .same _
  | stepped b W first j h =>
    rw [h.job? id]
    split
    · next he =>
      obtain ⟨hgoes, hf⟩ := h.goes
      rw [he, h.job?_first hs.tidy]
      exact .goes first j hgoes hf h.follows.kind
    · exact .same _

theorem directed_run (limit : Nat) (es : List Event) :
    (empty.run limit es).Stands Directed limit :=
  stands_run (fun _ _ hs h => h.directed hs) (stands_empty directed_initial) es

/--
The records of a job that are in the ledger one event after the other.
-/
def records (limit : Nat) (l : Line) (es : List Event) (id : Int) : List Job :=
  (es.scanl (step limit) l).filterMap (·.snapshot.job? id)

theorem records_concat (es : List Event) (e : Event) (id : Int) :
    l.records limit (es ++ [e]) id = l.records limit es id ++
      (((l.run limit es).step limit e).snapshot.job? id).toList := by
  unfold records
  rw [List.scanl_append, List.filterMap_append]
  rw [List.scanl_cons, List.scanl_nil, List.tail_cons]
  cases h : ((l.run limit es).step limit e).snapshot.job? id with
  | none => exact congrArg _ (List.filterMap_cons_none h)
  | some j => exact congrArg _ (List.filterMap_cons_some h)

/--
The records of a job up to the one that is there now are those of a job on its course.
-/
def Recorded (js : List Job) : Option Job → Prop
  | none => js = []
  | some j => js.getLast? = some j ∧ (∀ x ∈ js, x.kind = j.kind) ∧
    Change.Course j.kind ((js.map (·.stage)).destutter (· ≠ ·))
      ((js.map (·.status)).destutter (· ≠ ·)) j.stage j.status

theorem Recorded.turns {js : List Job} {o o' : Option Job} (h : Recorded js o)
    (ht : Turns o o') : Recorded (js ++ o'.toList) o' := by
  have hput {α : Type} [DecidableEq α] (f : Job → α) {j j' : Job} (hj : js.getLast? = some j) :
      ((js ++ [j']).map f).destutter (· ≠ ·) =
        Change.Course.put ((js.map f).destutter (· ≠ ·)) (f j) (f j') := by
    rw [List.map_append, List.map_singleton, destutter_concat, List.getLast?_map, hj]
    simp only [Option.map_some, Option.some.injEq]
    rfl
  cases ht with
  | same =>
    cases o with
    | none =>
      rw [show js = [] from h]
      rfl
    | some j =>
      obtain ⟨hlast, hkind, hcourse⟩ := h
      refine ⟨List.getLast?_concat, ?_, ?_⟩
      · rw [List.forall_mem_append]
        exact ⟨hkind, List.forall_mem_singleton.2 rfl⟩
      · rw [Option.toList_some, hput _ hlast, hput _ hlast, Change.Course.put_self,
          Change.Course.put_self]
        exact hcourse
  | queued j hs hst =>
    rw [show js = [] from h]
    refine ⟨rfl, List.forall_mem_singleton.2 rfl, ?_⟩
    have hcourse := Change.Course.queued (k := j.kind)
    rw [← hst, ← hs] at hcourse
    exact hcourse
  | goes j j' hg hf hk =>
    obtain ⟨hlast, hkind, hcourse⟩ := h
    refine ⟨List.getLast?_concat, ?_, ?_⟩
    · rw [Option.toList_some, List.forall_mem_append]
      exact ⟨fun x hx => (hkind x hx).trans hk.symm, List.forall_mem_singleton.2 rfl⟩
    · rw [Option.toList_some, hput _ hlast, hput _ hlast]
      exact hcourse.goes hg hf hk

theorem recorded_run (limit : Nat) (es : List Event) (id : Int) :
    Recorded (empty.records limit es id) ((empty.run limit es).snapshot.job? id) := by
  induction es using List.reverseRecOn with
  | nil => exact rfl
  | append_singleton es e ih =>
    have hl := directed_run limit es
    have hrun : empty.run limit (es ++ [e]) = (empty.run limit es).step limit e := by
      unfold run
      rw [List.foldl_append]
      rfl
    rw [records_concat, hrun]
    apply ih.turns
    cases step_turns hl e with
    | inl hsame =>
      rw [hsame]
      exact .same _
    | inr hturn => exact hturn.turns hl.world.fine id

/--
The records of a job pass through the stages of its kind one by one, except that one that was undone
is back at the first stage at the end. Its states are those of a course, without going back, and one
that is done passed through all of its stages. No step is ever found to be out of order.
-/
theorem jobs_keep_order (limit : Nat) (es : List Event) :
    (∀ id j, (empty.records limit es id).getLast? = some j →
      let stages := ((empty.records limit es id).map (·.stage)).destutter (· ≠ ·)
      let states := ((empty.records limit es id).map (·.status)).destutter (· ≠ ·)
      (∀ x ∈ empty.records limit es id, x.kind = j.kind) ∧
      (∃ n, stages = if j.status = .rollbackDone then j.kind.order.take n ++ [j.kind.initial]
        else j.kind.order.take n) ∧
      (∃ course ∈ Status.courses, states <+: course) ∧
      (j.status = .done → stages = j.kind.order)) ∧
    ∀ source r, (empty.run limit es).world.phase = .working source (.done r) →
      Step.guardOrder source r = r := by
  constructor
  · intro id j hj stages states
    have hrecorded := recorded_run limit es id
    cases ho : (empty.run limit es).snapshot.job? id with
    | none =>
      rw [ho] at hrecorded
      rw [show empty.records limit es id = [] from hrecorded] at hj
      cases hj
    | some x =>
      rw [ho] at hrecorded
      obtain ⟨hlast, hkind, hcourse⟩ := hrecorded
      cases hlast.symm.trans hj
      exact ⟨hkind, hcourse.shape⟩
  · intro source r hphase
    obtain ⟨b, first, x, hb, -, hfirst, rfl, -, htook⟩ :=
      (directed_run limit es).world.took hphase
    have hget := ((Snapshot.firstJob?_eq_some_iff hb.tidy).1 hfirst).1
    obtain ⟨-, hk, hf⟩ := hb.tidy.filed _ _ hget
    exact htook.guardOrder_eq hk hf (hb.holds.concerted.first _ hfirst)

end Line

end Steward
