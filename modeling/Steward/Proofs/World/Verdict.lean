import Steward.Proofs.World.Chronicle

/-!
This module contains what the record of a job that is over tells, and so what the statement that waits
for it answers. A job that is done tells of the commit that ended it. Any other one was taken off its
way by just one step, and tells what went wrong there, however many steps it took after that.
-/

namespace Steward

open Catalog (Stage)
open Change (Job Status Trouble)
open Ledger

def Entry.turns (x : Entry) : Bool :=
  x.job.status.isBackward && x.base.firstJob?.any fun j => !j.status.isBackward

def turnings (entries : List Entry) (id : Int) : List Entry :=
  entries.filter fun x => x.job.id = id ∧ x.turns = true

/--
One of the commits made the job done, and the job tells the version that this commit made.
-/
structure Done (entries : List Entry) (j : Job) : Prop where
  status : j.status = .done
  error : j.error = none
  stage : j.kind.order.getLast? = some j.stage
  finished : ∃ x ∈ entries, x.job = j ∧ j.schemaVersion = x.after.catalog.schemaVersion ∧
    ∃ o, j.finished = some ⟨x.after.catalog.schemaVersion, o⟩

inductive Told (entries : List Entry) (id : Int) : Option Job → Prop where
  | unknown (h : turnings entries id = []) : Told entries id none
  | forward (j : Job) (hs : j.status.isBackward = false) (hf : j.isFinished = false)
      (h : turnings entries id = []) :
    Told entries id (some j)
  | turned (j : Job) (x : Entry) (t : Trouble) (hs : j.status.isBackward = true)
      (h : turnings entries id = [x]) (hx : x.result = .error t) (he : j.error = some t.kept)
      (hend : j.isFinished = true → j.stage = j.kind.initial ∧ j.finished ≠ none) :
    Told entries id (some j)
  | done (j : Job) (h : turnings entries id = []) (hd : Done entries j) : Told entries id (some j)

section Turnings

variable {entries : List Entry} {x : Entry} {id : Int}

theorem turnings_concat (entries : List Entry) (x : Entry) (id : Int) :
    turnings (entries ++ [x]) id =
      if x.job.id = id ∧ x.turns = true then turnings entries id ++ [x]
      else turnings entries id := by
  unfold turnings
  rw [List.filter_append, List.filter_singleton]
  by_cases h : x.job.id = id ∧ x.turns = true
  · rw [if_pos h, decide_eq_true h]
    rfl
  · rw [if_neg h, decide_eq_false h]
    exact List.append_nil _

theorem turnings_concat_of_not (h : x.turns = false) :
    turnings (entries ++ [x]) id = turnings entries id := by
  rw [turnings_concat, if_neg fun hx => Bool.false_ne_true (h.symm.trans hx.2)]

theorem turnings_concat_of_turns (hid : x.job.id = id) (h : x.turns = true) :
    turnings (entries ++ [x]) id = turnings entries id ++ [x] := by
  rw [turnings_concat, if_pos ⟨hid, h⟩]

theorem turns_of_begun {first : Job} (h : x.base.firstJob? = some first) :
    x.turns = (x.job.status.isBackward && !first.status.isBackward) := by
  unfold Entry.turns
  rw [h]
  rfl

theorem Done.concat {j : Job} (h : Done entries j) (x : Entry) : Done (entries ++ [x]) j := by
  obtain ⟨y, hy, hfinished⟩ := h.finished
  exact ⟨h.status, h.error, h.stage, y, List.mem_append_left _ hy, hfinished⟩

theorem Told.other {o : Option Job} (h : Told entries id o) (hid : x.job.id ≠ id) :
    Told (entries ++ [x]) id o := by
  have hsame : turnings (entries ++ [x]) id = turnings entries id := by
    rw [turnings_concat, if_neg fun hx => hid hx.1]
  cases h with
  | unknown h => exact .unknown (hsame.trans h)
  | forward j hs hf h => exact .forward j hs hf (hsame.trans h)
  | turned j y t hs h hy he hend => exact .turned j y t hs (hsame.trans h) hy he hend
  | done j h hd => exact .done j (hsame.trans h) (hd.concat x)

end Turnings

theorem Change.Kind.getLast?_order {k : Change.Kind} {st st' : Stage} (h : k.next? st = some st')
    (hlast : k.next? st' = none) : k.order.getLast? = some st' := by
  cases k <;> cases st <;> cases h <;> first | rfl | cases hlast

namespace Chronicle

variable {limit : Nat} {x : Entry} {first : Job} {W : Snapshot} {entries : List Entry}

theorem Tells.done (h : Tells limit x first W) (hs : x.job.status = .done)
    (hstage : x.job.kind.order.getLast? = some x.job.stage) : Done (entries ++ [x]) x.job := by
  have hsettled := h.settled
  generalize x.result = result at hsettled
  cases hsettled with
  | failure t hW hb herror hdone => exact absurd hs hdone
  | success v hreshaped hjobTables hv hj herror hforward hfinished hdone =>
    have hnew := hdone hs
    have hafter : v = x.after.catalog.schemaVersion := by
      rcases h.stepped.catalog with ⟨hW, -⟩ | ⟨-, hafter⟩
      · -- The step made a new version, so it did change the catalog.
        rw [hW] at hv
        omega
      · rw [hafter, hv]
    rw [if_pos hs] at herror
    have hover : x.job.isFinished = true := congrArg Status.isTerminal hs
    refine ⟨hs, herror, hstage, x, List.mem_append_right _ List.mem_cons_self, rfl, ?_, ?_⟩
    · rw [hj, hafter]
    · rw [← hafter]
      exact hfinished hover

theorem Tells.turned (h : Tells limit x first W) (hb : first.isRollingBack = false)
    (hs : x.job.status.isBackward = true) :
    ∃ t, x.result = .error t ∧ x.job.error = some t.kept ∧
      (x.job.status = .cancelled → x.job.finished ≠ none) := by
  have hsettled := h.settled
  generalize hresult : x.result = result at hsettled
  cases hsettled with
  | success v hreshaped hjobTables hv hj herror hforward =>
    exact absurd ((hforward hb).symm.trans hs) Bool.false_ne_true
  | failure t hW hb herror hdone hfinished => exact ⟨t, rfl, herror, hfinished⟩

theorem Tells.backward (h : Tells limit x first W) (hb : first.isRollingBack = true)
    (hs : x.job.status ≠ .done) :
    x.job.error = first.error ∧ (x.job.isFinished = true → x.job.finished ≠ none) := by
  have hsettled := h.settled
  generalize x.result = result at hsettled
  cases hsettled with
  | success v hreshaped hjobTables hv hj herror hforward hfinished =>
    rw [if_neg hs] at herror
    refine ⟨herror, ?_⟩
    intro hf
    obtain ⟨o, ho⟩ := hfinished hf
    rw [ho]
    exact Option.some_ne_none _
  | failure t hW hb' => exact absurd (hb'.symm.trans hb) Bool.false_ne_true

theorem Tells.told_forward (h : Tells limit x first W) (hs : first.status.isBackward = false)
    (hnone : turnings entries first.id = []) :
    Told (entries ++ [x]) first.id (some x.job) := by
  obtain ⟨hgoes, hf⟩ := h.stepped.goes
  have hkind := h.stepped.follows.kind
  have hturns : x.turns = x.job.status.isBackward := by
    rw [turns_of_begun h.stepped.begun, hs]
    exact Bool.and_true _
  have hback : first.isRollingBack = false := by
    apply Bool.eq_false_iff.2
    intro hb
    cases (congrArg Status.isBackward (eq_of_beq hb)).symm.trans hs
  have hstraight (hstraight : x.job.status = first.started.status) :
      Told (entries ++ [x]) first.id (some x.job) := by
    rw [Job.status_started hf hback] at hstraight
    rw [hstraight] at hturns
    exact .forward x.job (congrArg Status.isBackward hstraight)
      (congrArg Status.isTerminal hstraight) ((turnings_concat_of_not hturns).trans hnone)
  have hturned (hσ : x.job.status.isBackward = true)
      (hend : x.job.isFinished = true → x.job.status = .cancelled ∧ x.job.stage = x.job.kind.initial) :
      Told (entries ++ [x]) first.id (some x.job) := by
    obtain ⟨t, hx, he, hfinished⟩ := h.turned hback hσ
    refine .turned x.job x t hσ ?_ hx he fun hover => ⟨(hend hover).2, hfinished (hend hover).1⟩
    rw [turnings_concat_of_turns h.stepped.follows.id (hturns.trans hσ), hnone]
    rfl
  cases hgoes with
  | again hσ => exact hstraight hσ
  | onward hb hσ => exact hstraight hσ
  | done hb hσ hnext hlast =>
    rw [hσ] at hturns
    refine .done x.job ((turnings_concat_of_not hturns).trans hnone) (h.done hσ ?_)
    rw [hkind]
    exact Change.Kind.getLast?_order hnext hlast
  | cancelled hb hσ hst hi =>
    refine hturned (congrArg Status.isBackward hσ) fun _ => ⟨hσ, ?_⟩
    rw [hst, hi, hkind]
  | turned hb hσ =>
    refine hturned (congrArg Status.isBackward hσ) fun hover => ?_
    cases (congrArg Status.isTerminal hσ).symm.trans hover
  | undone hb => exact absurd (hback.symm.trans hb) Bool.false_ne_true

theorem Tells.told_backward (h : Tells limit x first W) (hs : first.status.isBackward = true)
    {y : Entry} {t : Trouble} (hy : turnings entries first.id = [y]) (hresult : y.result = .error t)
    (he : first.error = some t.kept) : Told (entries ++ [x]) first.id (some x.job) := by
  obtain ⟨hgoes, hf⟩ := h.stepped.goes
  have hkind := h.stepped.follows.kind
  have hback : first.isRollingBack = true := by
    apply Bool.of_not_eq_false
    intro hb
    cases Job.status_forward hf hb with
    | inl hσ => cases (congrArg Status.isBackward hσ).symm.trans hs
    | inr hσ => cases (congrArg Status.isBackward hσ).symm.trans hs
  have hsame : turnings (entries ++ [x]) first.id = [y] := by
    rw [turnings_concat_of_not, hy]
    rw [turns_of_begun h.stepped.begun, hs]
    exact Bool.and_false _
  have hleft (hσ : x.job.status ≠ .done) : x.job.error = some t.kept ∧
      (x.job.isFinished = true → x.job.finished ≠ none) := by
    obtain ⟨herror, hfinished⟩ := h.backward hback hσ
    exact ⟨herror.trans he, hfinished⟩
  cases hgoes with
  | again hσ hst =>
    rw [Job.started_of_rollingBack hback, eq_of_beq hback] at hσ
    obtain ⟨herror, -⟩ := hleft (by rw [hσ]; exact nofun)
    refine .turned x.job y t (congrArg Status.isBackward hσ) hsame hresult herror fun hover => ?_
    cases (congrArg Status.isTerminal hσ).symm.trans hover
  | undone hb hσ hst =>
    obtain ⟨herror, hfinished⟩ := hleft (by rw [hσ]; exact nofun)
    refine .turned x.job y t (congrArg Status.isBackward hσ) hsame hresult herror fun hover => ?_
    refine ⟨?_, hfinished hover⟩
    rw [hst, hkind]
  | _ hb => exact absurd (hb.symm.trans hback) Bool.false_ne_true

theorem Tells.told (h : Tells limit x first W) (ht : Told entries first.id (some first)) :
    Told (entries ++ [x]) first.id (some x.job) := by
  cases ht with
  | forward _ hs hf hnone => exact h.told_forward hs hnone
  | turned _ y t hs hy hresult he => exact h.told_backward hs hy hresult he
  | done _ hnone hd =>
    cases (congrArg Status.isTerminal hd.status).symm.trans h.stepped.goes.2

theorem told_run (limit : Nat) (es : List Line.Event) (id : Int) :
    Told (empty.run limit es).entries id ((empty.run limit es).line.snapshot.job? id) := by
  apply run_induction (P := fun c => Told c.entries id (c.line.snapshot.job? id))
  · exact .unknown rfl
  · intro c c' hc hc' hnotes ht
    have hs := hc.line.world.fine.tidy
    cases hnotes with
    | quiet he hsame =>
      rw [he, hsame]
      exact ht
    | handed he job happ =>
      rw [he, happ.job? id]
      split
      · next hid =>
        rw [hid, happ.job?_new hs] at ht
        cases ht with
        | unknown hnone =>
          rw [hid]
          exact .forward job (congrArg Status.isBackward happ.status)
            (congrArg Status.isTerminal happ.status) hnone
      · exact ht
    | founded he σ hfound =>
      rw [he, hfound.job?]
      exact ht
    | stepped x first W he hb ha htells =>
      have hstepped := htells.stepped
      rw [hb, ha] at hstepped
      rw [he, hstepped.job? id]
      split
      · next hid =>
        rw [hid, hstepped.job?_first hs] at ht
        rw [hid]
        exact htells.told ht
      · next hid => exact ht.other fun hx => hid (hx.symm.trans htells.stepped.follows.id)

/--
Every job that is over is done or was taken off its way. One that is done is at its last stage, keeps
no error, and tells the version that its last commit made; its statement answers with it. Any other
one is back at its first stage, and just one of its steps took it off its way; what it keeps is the
error of that step, and that is what its statement answers.
-/
theorem verdicts_told (limit : Nat) (es : List Line.Event) :
    let c := empty.run limit es
    c.line = Line.empty.run limit es ∧
    ∀ id j, c.line.snapshot.history.get? id = some j →
      (j.status = .done ∧ j.error = none ∧ j.kind.order.getLast? = some j.stage ∧
        (∃ x ∈ c.entries, x.job = j ∧ j.schemaVersion = x.after.catalog.schemaVersion ∧
          ∃ o, j.finished = some ⟨x.after.catalog.schemaVersion, o⟩) ∧
        Engine.verdict j = .ok j) ∨
      ((j.status = .cancelled ∨ j.status = .rollbackDone) ∧ j.stage = j.kind.initial ∧
        j.finished ≠ none ∧
        ∃ x t, turnings c.entries id = [x] ∧ x.result = .error t ∧ j.error = some t.kept ∧
          Engine.verdict j = .error (.ofFault t.kept)) := by
  intro c
  have hline : c.line = Line.empty.run limit es := line_run limit empty es
  refine ⟨hline, ?_⟩
  intro id j hj
  have hs := (stands_run limit es).line.world.fine.tidy
  have hlined := (Line.orderly_run (Line.orderly_empty limit) es).1.world.fine.holds
  have hover : j.isFinished = true := by
    apply (hlined.finished id j _).2
    rw [hline] at hj
    exact hj
  have htold : Told c.entries id (some j) := by
    have hqueue : c.line.snapshot.jobs.get? id = none := by
      apply (hs.sound.apart id).resolve_right
      intro hn
      cases hj.symm.trans hn
    have hjob : c.line.snapshot.job? id = some j := by
      unfold Snapshot.job?
      rw [hqueue, hj]
      rfl
    rw [← hjob]
    exact told_run limit es id
  cases htold with
  | forward _ hσ hf => cases hf.symm.trans hover
  | done _ hnone hd => exact .inl ⟨hd.status, hd.error, hd.stage, hd.finished, if_pos hd.status⟩
  | turned _ x t hσ hx hresult he hend =>
    right
    have hne : j.status ≠ .done := by
      intro hdone
      cases (congrArg Status.isBackward hdone).symm.trans hσ
    have hends : j.status = .cancelled ∨ j.status = .rollbackDone := by
      unfold Job.isFinished at hover
      generalize j.status = σ at hover hσ
      cases σ with
      | cancelled => exact .inl rfl
      | rollbackDone => exact .inr rfl
      | rollingBack => cases hover
      | _ => cases hσ
    refine ⟨hends, (hend hover).1, (hend hover).2, x, t, hx, hresult, he, ?_⟩
    unfold Engine.verdict
    rw [if_neg hne, he]

end Chronicle

end Steward
