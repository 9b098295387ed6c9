import Steward.Proofs.Runaway.Tables

/-!
This module contains what a move of a stale row does to the tables when statements fail and sessions
cannot be had: it moves the row as a whole, or it changes nothing. A transaction is taken for what it
is: nothing is seen of it before its end, and without a commit nothing ever is.
-/

namespace Steward.Runaway

open Sql (Dialogue Reply Statement Trouble)

structure Base where
  tables : Tables
  /-- The tables as the open transaction has left them so far. -/
  draft : Option Tables

namespace Base

/--
The answer to a statement that does not fail, and what becomes of the base. A transaction that is open
when another one begins is undone.
-/
def serve (b : Base) (st : Statement) : Reply × Base :=
  if st.sql = "BEGIN" then (.nothing, { b with draft := some b.tables })
  else if st.sql = "COMMIT" then (.nothing, ⟨b.draft.getD b.tables, none⟩)
  else if st.sql = "ROLLBACK" then (.nothing, { b with draft := none })
  else
    match b.draft with
    | some t =>
      let (r, t) := t.serve st
      (r, { b with draft := some t })
    | none =>
      let (r, t) := b.tables.serve st
      (r, { b with tables := t })

end Base

structure Stage where
  base : Base
  /-- The sessions that were handed out and not put back. -/
  out : Int
  /-- The statements that were sent, and how they failed, if they did. -/
  log : List (Statement × Option Trouble)

namespace Stage

def answer (v : Stage) (st : Statement) (trouble : Option Trouble) : Except Trouble Reply × Stage :=
  match trouble with
  | some t => (.error t, { v with log := v.log ++ [(st, some t)] })
  | none =>
    let (r, base) := v.base.serve st
    (.ok r, { v with base, log := v.log ++ [(st, none)] })

end Stage

/--
Holds a dialogue to its end. What it asks for fails as the list says, with one entry for each session
and each statement; after that nothing fails.
-/
def enact {σ α : Type} (now : Now) : Dialogue σ α → σ → List (Option Trouble) → Stage → α × σ × Stage
  | .done a, s, _, v => (a, s, v)
  | .look k, s, fails, v => enact now (k now s) s fails v
  | .store s next, _, fails, v => enact now next s fails v
  | .acquire k, s, fails, v =>
    match fails.head?.join with
    | some t => enact now (k (.error t)) s fails.tail v
    | none => enact now (k (.ok ())) s fails.tail { v with out := v.out + 1 }
  | .send st k, s, fails, v =>
    let (r, v) := v.answer st fails.head?.join
    enact now (k r) s fails.tail v
  | .release next, s, fails, v => enact now next s fails { v with out := v.out - 1 }

namespace Storage

section Shape

variable {σ : Type}

def giveUp (w : Watch) (t : Trouble) : Dialogue σ (Except Trouble Unit) :=
  .send ⟨"ROLLBACK", []⟩ fun _ =>
    .release (.done (.error (t.during s!"move runaway watch {w.id} to done")))

theorem moveToDone_eq (w : Watch) (done : Moment) : (moveToDone w done : Exchange σ Unit).run =
    .acquire fun
      | .error t => .done (.error t)
      | .ok () => .send ⟨"BEGIN", []⟩ fun
        | .error t => .release (.done (.error (t.during "begin stale watch cleanup")))
        | .ok _ => .send (copyWatch w done) fun
          | .error t => giveUp w (t.during "copy watch to done table")
          | .ok _ => .send (deleteWatch w) fun
            | .error t => giveUp w (t.during "delete watch row")
            | .ok _ => .send ⟨"COMMIT", []⟩ fun
              | .error t => giveUp w (t.during "commit stale watch cleanup")
              | .ok _ => .release (.done (.ok ())) := by
  refine congrArg Dialogue.acquire (funext fun session => ?_)
  cases session with
  | error t => rfl
  | ok u =>
    refine congrArg (Dialogue.send _) (funext fun begun => ?_)
    cases begun with
    | error t => rfl
    | ok r =>
      refine congrArg (Dialogue.send _) (funext fun copied => ?_)
      cases copied with
      | error t => rfl
      | ok r =>
        refine congrArg (Dialogue.send _) (funext fun deleted => ?_)
        cases deleted with
        | error t => rfl
        | ok r =>
          refine congrArg (Dialogue.send _) (funext fun committed => ?_)
          cases committed <;> rfl

end Shape

end Storage

/--
Statements with how they failed: no commit comes after a failure, and there is a rollback, and no more
than one, just if the begin did not fail and another statement did.
-/
structure Orderly (log : List (Statement × Option Trouble)) : Prop where
  commit : log.Pairwise fun x y => x.2 = none ∨ y.1.sql ≠ "COMMIT"
  rollback : (∃ x ∈ log, x.1.sql = "ROLLBACK") ↔
    ∃ rest, log = (⟨"BEGIN", []⟩, none) :: rest ∧ ∃ x ∈ rest, x.1.sql ≠ "ROLLBACK" ∧ x.2 ≠ none
  once : log.countP (·.1.sql = "ROLLBACK") ≤ 1

section Orderly

variable {log : List (Statement × Option Trouble)} {st : Statement}

theorem orderly_of_fine (h : ∀ x ∈ log, x.2 = none ∧ x.1.sql ≠ "ROLLBACK") : Orderly log where
  commit := by
    apply List.pairwise_of_forall_mem_list
    exact fun x hx _ _ => .inl (h x hx).1
  rollback := by
    constructor
    · rintro ⟨x, hx, hsql⟩
      exact absurd hsql (h x hx).2
    · rintro ⟨rest, rfl, x, hx, _, hfailed⟩
      exact absurd (h x (List.mem_cons_of_mem _ hx)).1 hfailed
  once := by
    rw [List.countP_eq_zero.2]
    · exact Nat.zero_le 1
    · intro x hx
      simpa using (h x hx).2

theorem orderly_of_no_begin (t : Trouble) : Orderly [(⟨"BEGIN", []⟩, some t)] where
  commit := List.pairwise_singleton _ _
  rollback := by simp
  once := by simp

theorem orderly_of_broken (h : ∀ x ∈ log, x.2 = none ∧ x.1.sql ≠ "ROLLBACK")
    (hst : st.sql ≠ "ROLLBACK") (t : Trouble) (f : Option Trouble) :
    Orderly ((⟨"BEGIN", []⟩, none) :: (log ++ [(st, some t), (⟨"ROLLBACK", []⟩, f)])) where
  commit := by
    have hend : [(st, some t), ((⟨"ROLLBACK", []⟩ : Statement), f)].Pairwise
        fun x y => x.2 = none ∨ y.1.sql ≠ "COMMIT" := by simp
    refine List.pairwise_cons.2 ⟨fun _ _ => .inl rfl, List.pairwise_append.2 ⟨?_, hend, ?_⟩⟩
    · apply List.pairwise_of_forall_mem_list
      exact fun x hx _ _ => .inl (h x hx).1
    · exact fun x hx _ _ => .inl (h x hx).1
  rollback := by
    constructor
    · intro _
      exact ⟨_, rfl, (st, some t), by simp, hst, by simp⟩
    · intro _
      exact ⟨(⟨"ROLLBACK", []⟩, f), by simp, rfl⟩
  once := by
    have hnone : log.countP (·.1.sql = "ROLLBACK") = 0 := by
      rw [List.countP_eq_zero]
      intro x hx
      simpa using (h x hx).2
    simp [hnone, hst]

end Orderly

namespace Base

variable (b : Base) {t : Tables} (w : Watch)

theorem serve_draft {st : Statement} (hb : b.draft = some t)
    (hplain : st.sql ∉ ["BEGIN", "COMMIT", "ROLLBACK"]) :
    (b.serve st).2 = { b with draft := some (t.serve st).2 } := by
  simp only [List.mem_cons, List.not_mem_nil, or_false, not_or] at hplain
  unfold serve
  rw [if_neg hplain.1, if_neg hplain.2.1, if_neg hplain.2.2, hb]

end Base

namespace Storage

theorem sql_copyWatch (w : Watch) (done : Moment) :
    (copyWatch w done).sql ∉ ["BEGIN", "COMMIT", "ROLLBACK"] := by
  have hplain : (copyWatch default default).sql ∉ ["BEGIN", "COMMIT", "ROLLBACK"] := by
    decide +kernel
  exact hplain

theorem sql_deleteWatch (w : Watch) : (deleteWatch w).sql ∉ ["BEGIN", "COMMIT", "ROLLBACK"] := by
  have hplain : (deleteWatch default).sql ∉ ["BEGIN", "COMMIT", "ROLLBACK"] := by decide +kernel
  exact hplain

end Storage

/--
What comes of a move: it succeeds and the row is moved, or it fails and the tables are as before. All
sessions are put back.
-/
structure Moved (w : Watch) (v : Stage) (r : Except Trouble Unit) (v' : Stage) : Prop where
  tables : v'.base.tables = if r.isOk then v.base.tables.move w.id else v.base.tables
  out : v'.out = v.out
  log : ∃ log, v'.log = v.log ++ log ∧ Orderly log

/--
The transaction of a move is open, nothing has failed so far, and its own tables are as given.
-/
structure Underway (v : Stage) (draft : Tables) (v₁ : Stage) : Prop where
  tables : v₁.base.tables = v.base.tables
  draft : v₁.base.draft = some draft
  out : v₁.out = v.out + 1
  log : ∃ log, v₁.log = v.log ++ (⟨"BEGIN", []⟩, none) :: log ∧
    ∀ x ∈ log, x.2 = none ∧ x.1.sql ≠ "ROLLBACK"

section Moved

variable {σ : Type} {v v₁ : Stage} {w : Watch} {st : Statement} {draft : Tables}

theorem Underway.answer (h : Underway v draft v₁) (hst : st.sql ∉ ["BEGIN", "COMMIT", "ROLLBACK"]) :
    Underway v (draft.serve st).2 (v₁.answer st none).2 := by
  obtain ⟨log, hlog, hfine⟩ := h.log
  have hbase : (v₁.answer st none).2.base =
      { v₁.base with draft := some (draft.serve st).2 } := Base.serve_draft _ h.draft hst
  refine ⟨?_, ?_, h.out, log ++ [(st, none)], ?_, ?_⟩
  · rw [hbase]
    exact h.tables
  · rw [hbase]
  · show v₁.log ++ [(st, none)] = _
    rw [hlog, List.append_assoc, List.cons_append]
  · refine List.forall_mem_append.2 ⟨hfine, List.forall_mem_singleton.2 ⟨rfl, fun hsql => hst ?_⟩⟩
    rw [show st.sql = "ROLLBACK" from hsql]
    simp

theorem Underway.moved_giveUp (h : Underway v draft v₁) (hst : st.sql ≠ "ROLLBACK") (t t' : Trouble)
    (now : Now) (s : σ) (fails : List (Option Trouble)) :
    let x := enact now (Storage.giveUp w t') s fails (v₁.answer st (some t)).2
    Moved w v x.1 x.2.2 := by
  -- The tables are left alone even if the rollback fails.
  obtain ⟨log, hlog, hfine⟩ := h.log
  have hanswer (trouble : Option Trouble) :
      let v₂ := ((v₁.answer st (some t)).2.answer ⟨"ROLLBACK", []⟩ trouble).2
      v₂.base.tables = v.base.tables ∧ v₂.out = v.out + 1 ∧
        v₂.log = v.log ++ (⟨"BEGIN", []⟩, none) ::
          (log ++ [(st, some t), (⟨"ROLLBACK", []⟩, trouble)]) := by
    have hmore : v₁.log ++ [(st, some t)] ++ [(⟨"ROLLBACK", []⟩, trouble)] =
        v.log ++ (⟨"BEGIN", []⟩, none) ::
          (log ++ [(st, some t), (⟨"ROLLBACK", []⟩, trouble)]) := by
      rw [hlog]
      simp
    cases trouble with
    | none => exact ⟨h.tables, h.out, hmore⟩
    | some t => exact ⟨h.tables, h.out, hmore⟩
  obtain ⟨htables, hout, hlog'⟩ := hanswer fails.head?.join
  refine ⟨htables, ?_, _, hlog', orderly_of_broken hfine hst t _⟩
  show ((v₁.answer st (some t)).2.answer ⟨"ROLLBACK", []⟩ fails.head?.join).2.out - 1 = v.out
  omega

theorem Underway.moved_send (h : Underway v draft v₁) (hst : st.sql ≠ "ROLLBACK")
    {now : Now} {s : σ} {activity : Trouble → Trouble} {next : Dialogue σ (Except Trouble Unit)}
    (hnext : ∀ fails, let x := enact now next s fails (v₁.answer st none).2; Moved w v x.1 x.2.2)
    (fails : List (Option Trouble)) :
    let x := enact now (.send st fun
      | .error t => Storage.giveUp w (activity t)
      | .ok _ => next) s fails v₁
    Moved w v x.1 x.2.2 := by
  rw [enact]
  cases fails.head?.join with
  | some t => exact h.moved_giveUp hst t _ now s _
  | none => exact hnext _

theorem Underway.moved_commit (h : Underway v draft v₁)
    (hdraft : draft = v.base.tables.move w.id) :
    let v₂ := (v₁.answer ⟨"COMMIT", []⟩ none).2
    Moved w v (.ok ()) { v₂ with out := v₂.out - 1 } := by
  obtain ⟨log, hlog, hfine⟩ := h.log
  refine ⟨?_, ?_, (⟨"BEGIN", []⟩, none) :: (log ++ [(⟨"COMMIT", []⟩, none)]), ?_, ?_⟩
  · show v₁.base.draft.getD v₁.base.tables = v.base.tables.move w.id
    rw [h.draft]
    exact hdraft
  · have hout := h.out
    show v₁.out - 1 = v.out
    omega
  · show v₁.log ++ [(⟨"COMMIT", []⟩, none)] = _
    rw [hlog, List.append_assoc, List.cons_append]
  · apply orderly_of_fine
    refine List.forall_mem_cons.2 ⟨⟨rfl, by simp⟩, List.forall_mem_append.2 ⟨hfine, ?_⟩⟩
    exact List.forall_mem_singleton.2 ⟨rfl, by simp⟩

theorem moved_moveToDone (now : Now) (w : Watch) (done : Moment) (s : σ)
    (fails : List (Option Trouble)) (v : Stage) :
    let x := enact now (Storage.moveToDone w done).run s fails v
    Moved w v x.1 x.2.2 := by
  have hcopy := Storage.sql_copyWatch w done
  have hdelete := Storage.sql_deleteWatch w
  have hcopy' : (Storage.copyWatch w done).sql ≠ "ROLLBACK" := fun h => hcopy (by rw [h]; simp)
  have hdelete' : (Storage.deleteWatch w).sql ≠ "ROLLBACK" := fun h => hdelete (by rw [h]; simp)
  rw [Storage.moveToDone_eq, enact]
  cases fails.head?.join with
  | some t => exact ⟨rfl, rfl, [], (List.append_nil _).symm, orderly_of_fine (by simp)⟩
  | none =>
    dsimp only
    rw [enact]
    cases fails.tail.head?.join with
    | some t =>
      refine ⟨rfl, ?_, _, rfl, orderly_of_no_begin t⟩
      show v.out + 1 - 1 = v.out
      omega
    | none =>
      -- From here on each statement is sent on the session that has begun.
      have hbegun : Underway v v.base.tables
          (({ v with out := v.out + 1 } : Stage).answer ⟨"BEGIN", []⟩ none).2 :=
        ⟨rfl, rfl, rfl, [], rfl, by simp⟩
      refine hbegun.moved_send hcopy' (fun fails => ?_) _
      have hcopied := hbegun.answer hcopy
      refine hcopied.moved_send hdelete' (fun fails => ?_) _
      have hdeleted := hcopied.answer hdelete
      refine hdeleted.moved_send (by simp) (fun fails => hdeleted.moved_commit ?_) _
      rw [Tables.serve_copyWatch, Tables.serve_deleteWatch]
      rfl

end Moved

namespace Tables

variable {t : Tables} {w : Watch}

/--
There is one row with the id of the watch, it is in the watch table, and it is the watch itself.
-/
structure Watched (t : Tables) (w : Watch) : Prop where
  watches : t.watches.filter (·.id == w.id) = [w]
  done : t.doneRows.filter (·.id == w.id) = []

/--
There is one row with the id of the watch, it is in the done table, and it is the watch itself.
-/
structure Done (t : Tables) (w : Watch) : Prop where
  watches : t.watches.filter (·.id == w.id) = []
  done : t.doneRows.filter (·.id == w.id) = [w]

theorem Watched.move (h : t.Watched w) : (t.move w.id).Done w := by
  have hw : ∀ v, v ∈ t.watches ∧ v.id = w.id ↔ v = w := by
    intro v
    have hmem : v ∈ t.watches.filter (·.id == w.id) ↔ v ∈ [w] := by rw [h.watches]
    rwa [List.mem_filter, beq_iff_eq, List.mem_singleton] at hmem
  rcases move_cases t w.id with ⟨hnone, _⟩ | ⟨v, hv, hid, hwatches, hdone⟩
  · obtain ⟨hmem, hid⟩ := (hw w).2 rfl
    exact absurd hid (hnone w hmem)
  · cases (hw v).1 ⟨hv, hid⟩
    constructor
    · rw [hwatches, List.filter_filter, List.filter_eq_nil_iff]
      simp
    · rw [hdone, List.filter_append, h.done]
      simp

end Tables

end Steward.Runaway
