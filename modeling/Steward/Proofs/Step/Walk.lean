import Steward.Proofs.Step.Agreement

/-!
This module contains the walk of a job through the stages of its kind. A step that succeeds moves the
job by one place, and a job that goes back returns to the first one, so no step is out of order.
-/

namespace Steward

open Catalog (Stage Table)
open Change (Job Kind Status)
open Ledger (Snapshot)

namespace Change

namespace Kind

def next? (k : Kind) (st : Stage) : Option Stage := (k.order.dropWhile (· != st))[1]?

def upTo (k : Kind) (st : Stage) : List Stage := k.order.takeWhile (· != st) ++ [st]

variable {k : Kind} {st st' : Stage} {σ : Status}

theorem upTo_initial (k : Kind) : k.upTo k.initial = [k.initial] := by
  cases k <;> rfl

theorem upTo_next (h : k.next? st = some st') : k.upTo st' = k.upTo st ++ [st'] := by
  cases k <;> cases st <;> cases h <;> rfl

theorem upTo_last (h : k.next? st = some st') (hlast : k.next? st' = none) :
    k.upTo st' = k.order := by
  cases k <;> cases st <;> cases h <;> first | rfl | cases hlast

theorem upTo_prefix (h : st = k.initial ∨ st ∈ k.intermediate) :
    ∃ n, k.upTo st = k.order.take n := by
  cases k <;> cases st <;> first
    | exact ⟨1, rfl⟩
    | exact ⟨2, rfl⟩
    | exact ⟨3, rfl⟩
    | exact absurd h (by decide)

theorem ne_of_next (h : k.next? st = some st') : st' ≠ st := by
  cases k <;> cases st <;> cases h <;> decide

theorem allows_next (h : k.next? st = some st') (hσ : σ.isBackward = false) :
    k.allows st st' σ = true := by
  cases k <;> cases st <;> cases h <;> cases σ <;> first | rfl | cases hσ

theorem allows_initial (k : Kind) (st : Stage) (hσ : σ.isBackward = true) :
    k.allows st k.initial σ = true := by
  unfold allows
  rw [hσ, if_pos rfl]
  simp

end Kind

namespace Job

variable {j j' : Job}

def OnCourse (j : Job) : Prop :=
  match j.status with
  | .queued => j.stage = j.kind.initial
  | .running => j.stage = j.kind.initial ∨ j.stage ∈ j.kind.intermediate
  | .rollingBack => j.stage ∈ j.kind.intermediate
  | .done | .rollbackDone | .cancelled => True

inductive Walks (j : Job) : Status → Stage → Prop where
  | onward (hb : j.isRollingBack = false) {st : Stage} (h : j.kind.next? j.stage = some st)
      (hi : st ∈ j.kind.intermediate) :
    Walks j j.status st
  | done (hb : j.isRollingBack = false) {st : Stage} (h : j.kind.next? j.stage = some st)
      (hlast : j.kind.next? st = none) :
    Walks j .done st
  | undone (hb : j.isRollingBack = true) : Walks j .rollbackDone j.kind.initial

inductive Goes (j j' : Job) : Prop where
  | again (hs : j'.status = j.started.status) (h : j'.stage = j.stage)
  | onward (hb : j.isRollingBack = false) (hs : j'.status = j.started.status)
      (h : j.kind.next? j.stage = some j'.stage) (hi : j'.stage ∈ j.kind.intermediate)
  | done (hb : j.isRollingBack = false) (hs : j'.status = .done)
      (h : j.kind.next? j.stage = some j'.stage) (hlast : j.kind.next? j'.stage = none)
  | cancelled (hb : j.isRollingBack = false) (hs : j'.status = .cancelled) (h : j'.stage = j.stage)
      (hi : j.stage = j.kind.initial)
  | turned (hb : j.isRollingBack = false) (hs : j'.status = .rollingBack) (h : j'.stage = j.stage)
      (hi : j.stage ∈ j.kind.intermediate)
  | undone (hb : j.isRollingBack = true) (hs : j'.status = .rollbackDone)
      (h : j'.stage = j.kind.initial)

theorem status_forward (hf : j.isFinished = false) (hb : j.isRollingBack = false) :
    j.status = .queued ∨ j.status = .running := by
  unfold isFinished at hf
  unfold isRollingBack at hb
  cases hs : j.status <;> rw [hs] at hf hb
  case queued => exact .inl rfl
  case running => exact .inr rfl
  case rollingBack => exact absurd hb (by decide)
  all_goals cases hf

theorem status_started (hf : j.isFinished = false) (hb : j.isRollingBack = false) :
    j.started.status = .running := by
  unfold started
  cases status_forward hf hb with
  | inl hs => rw [hs]; rfl
  | inr hs => rw [hs]; exact hs

theorem started_of_rollingBack (hb : j.isRollingBack = true) : j.started = j := by
  have hs : j.status = .rollingBack := eq_of_beq hb
  unfold started
  rw [hs]
  rfl

theorem isRollingBack_started (j : Job) : j.started.isRollingBack = j.isRollingBack := by
  unfold started isRollingBack
  split
  · next hs => rw [hs]; rfl
  · rfl

theorem OnCourse.initial (h : j.OnCourse) (hf : j.isFinished = false)
    (hi : j.stage ∉ j.kind.intermediate) : j.isRollingBack = false ∧ j.stage = j.kind.initial := by
  unfold OnCourse at h
  unfold isFinished at hf
  unfold isRollingBack
  cases hs : j.status <;> rw [hs] at h hf
  case queued => exact ⟨rfl, h⟩
  case running => exact ⟨rfl, h.resolve_right hi⟩
  case rollingBack => exact absurd h hi
  all_goals cases hf

theorem OnCourse.intermediate (h : j.OnCourse) (hf : j.isFinished = false)
    (hi : j.stage ≠ j.kind.initial) : j.stage ∈ j.kind.intermediate :=
  Decidable.by_contra fun hn => hi (h.initial hf hn).2

theorem OnCourse.rollingBack (h : j.OnCourse) (hb : j.isRollingBack = true) :
    j.stage ∈ j.kind.intermediate := by
  unfold OnCourse at h
  rw [eq_of_beq hb] at h
  exact h

theorem Goes.onCourse (h : j.Goes j') (hj : j.OnCourse) (hf : j.isFinished = false)
    (hk : j'.kind = j.kind) : j'.OnCourse := by
  have hstart : j.stage = j.kind.initial ∨ j.stage ∈ j.kind.intermediate :=
    (Decidable.em (j.stage ∈ j.kind.intermediate)).elim .inr fun hn => .inl (hj.initial hf hn).2
  unfold OnCourse
  rw [hk]
  cases h with
  | again hs h =>
    rw [hs, h]
    cases hb : j.isRollingBack with
    | true =>
      rw [started_of_rollingBack hb, eq_of_beq hb]
      unfold OnCourse at hj
      rw [eq_of_beq hb] at hj
      exact hj
    | false =>
      rw [status_started hf hb]
      exact hstart
  | onward hb hs h hi =>
    rw [hs, status_started hf hb]
    exact .inr hi
  | done hb hs => rw [hs]; trivial
  | cancelled hb hs => rw [hs]; trivial
  | turned hb hs h hi =>
    rw [hs, h]
    exact hi
  | undone hb hs => rw [hs]; trivial

theorem Walks.allows {σ : Status} {st : Stage} (h : j.Walks σ st) (hf : j.isFinished = false) :
    j.kind.allows j.stage st σ = true := by
  cases h with
  | onward hb h hi =>
    apply Kind.allows_next h
    cases status_forward hf hb with
    | inl hs => rw [hs]; rfl
    | inr hs => rw [hs]; rfl
  | done hb h hlast => exact Kind.allows_next h rfl
  | undone hb => exact Kind.allows_initial _ _ rfl

end Job

end Change

namespace Step

variable {all : Bool} {P : Surroundings → Prop} {s : Surroundings} {d : Draft} {r : Result}
  {table : Table} {check : Bool} {newId : Int} {name : String} {fk : Catalog.ForeignKey}

def Walks (d : Draft) (r : Result) : Prop :=
  ∀ v, r.1 = .ok v → d.job.Walks r.2.job.status r.2.job.stage

section Kinds

theorem walks_error (e : Change.Trouble) (d' : Draft) : Walks d (.error e, d') := by
  intro v h
  cases h

theorem Created.walks (hr : Created s table check d r) (hk : d.job.kind = .createTable) :
    Walks d r := by
  cases hr with
  | undone hb =>
    intro _ _
    have h := Job.Walks.undone hb
    rw [hk] at h
    exact h
  | refused => exact walks_error _ _
  | failed => exact walks_error _ _
  | created hb hs =>
    intro _ _
    exact .done hb (by rw [hk, hs]; rfl) (by rw [hk]; rfl)
  | stuck => exact walks_error _ _

theorem Truncated.walks (hr : Truncated s newId check d r) (hk : d.job.kind = .truncateTable) :
    Walks d r := by
  cases hr with
  | missing => exact walks_error _ _
  | undone hb =>
    intro _ _
    have h := Job.Walks.undone hb
    rw [hk] at h
    exact h
  | refused => exact walks_error _ _
  | failed => exact walks_error _ _
  | truncated hb hs =>
    intro _ _
    exact .done hb (by rw [hk, hs]; rfl) (by rw [hk]; rfl)
  | stuck => exact walks_error _ _

theorem Unbound.walks (hr : Unbound s name d r) (hk : d.job.kind = .dropForeignKey) :
    Walks d r := by
  cases hr with
  | missing => exact walks_error _ _
  | undone hb =>
    intro _ _
    have h := Job.Walks.undone hb
    rw [hk] at h
    exact h
  | unknown => exact walks_error _ _
  | unbound hb hs =>
    intro _ _
    exact .done hb (by rw [hk, hs]; rfl) (by rw [hk]; rfl)
  | stuck => exact walks_error _ _

theorem Hidden.walks {h : Hiding} (hr : Hidden s table h d r)
    (hk : d.job.kind.order = [.live, .writeOnly, .deleteOnly, .absent])
    (hlast : (h.last.run d).2.job.status = .done ∧ (h.last.run d).2.job.stage = .absent) :
    Walks d r := by
  have hnext (st : Catalog.Stage) : d.job.kind.next? st =
      ([.live, .writeOnly, .deleteOnly, .absent].dropWhile (· != st))[1]? := by
    unfold Kind.next?
    rw [hk]
  have hinter : d.job.kind.intermediate = [.writeOnly, .deleteOnly] := by
    unfold Kind.intermediate
    rw [hk]
    rfl
  have hinitial : d.job.kind.initial = .live := by
    have h := Kind.head?_order d.job.kind
    rw [hk] at h
    exact (Option.some.inj h).symm
  intro v hv
  cases hr with
  | kept hb => exact hinitial ▸ .undone hb
  | shown hb => exact hinitial ▸ .undone hb
  | refused => cases hv
  | hidden hb hs =>
    refine .onward hb ?_ ?_
    · rw [hnext, hs]
      rfl
    · rw [hinter]
      exact List.mem_cons_self
  | closed hb hs =>
    refine .onward hb ?_ ?_
    · rw [hnext, hs]
      rfl
    · rw [hinter]
      exact List.mem_cons_of_mem _ List.mem_cons_self
  | gone hb hs =>
    rw [hlast.1, hlast.2]
    refine .done hb ?_ ?_
    · rw [hnext, hs]
      rfl
    · rw [hnext]
      rfl
  | stuck => cases hv

theorem Bound.walks (hr : Bound P fk check d r) (hk : d.job.kind = .addForeignKey)
    (hj : Agrees all d.txn.table? d.job) : Walks d r := by
  have hundone (hb : d.job.isRollingBack = true) : d.job.Walks .rollbackDone .absent := by
    have h := Job.Walks.undone hb
    rw [hk] at h
    exact h
  intro v hv
  cases hr with
  | missing => cases hv
  | undone hb => exact hundone hb
  | unneeded hb => exact hundone hb
  | refused => cases hv
  | resumed hb hs table hd old ho =>
    have hi : d.job.stage ∉ d.job.kind.intermediate := by
      rw [hk, hs]
      decide
    cases (hj.stagedAlready?_eq_none hd hi).symm.trans ho
  | staged hb hs =>
    refine .onward hb ?_ ?_
    · rw [hk, hs]
      rfl
    · rw [hk]
      exact List.mem_cons_self
  | confirmed hb hs =>
    refine .onward hb ?_ ?_
    · rw [hk, hs]
      rfl
    · rw [hk]
      exact List.mem_cons_of_mem _ List.mem_cons_self
  | turned => cases hv
  | bound hb hs => exact .done hb (by rw [hk, hs]; rfl) (by rw [hk]; rfl)
  | failed => cases hv

end Kinds

theorem Took.walks (h : Took P s d r) (hk : d.job.kind = d.job.args.kind)
    (hj : Agrees all d.txn.table? d.job) : Walks d r := by
  unfold Took at h
  split at h
  · next ha => exact Created.walks h (by rw [hk, ha]; rfl)
  · next ha =>
    cases h with
    | missing => exact walks_error _ _
    | held table hd r h =>
      apply h.walks (by rw [hk, ha]; rfl)
      rw [run_last_ofTable hd]
      exact ⟨rfl, rfl⟩
  · next ha => exact Truncated.walks h (by rw [hk, ha]; rfl)
  · next ha => exact Bound.walks h (by rw [hk, ha]; rfl) hj
  · next ha => exact Unbound.walks h (by rw [hk, ha]; rfl)
  · next ha =>
    cases h with
    | missing => exact walks_error _ _
    | held table hd hl target ht r hr =>
      obtain ⟨pos, hpos, rfl⟩ := Option.map_eq_some_iff.1 ht
      apply hr.walks (by rw [hk, ha]; rfl)
      rw [run_last_ofIndex hd]
      exact ⟨rfl, rfl⟩
  · next ha =>
    cases h with
    | missing => exact walks_error _ _
    | held table hd hl target ht r hr =>
      obtain ⟨pos, hpos, rfl⟩ := Option.map_eq_some_iff.1 ht
      apply hr.walks (by rw [hk, ha]; rfl)
      rw [run_last_ofColumn hd]
      exact ⟨rfl, rfl⟩

section Outcome

variable {limit : Nat} {base W : Snapshot} {first j : Job}

theorem Took.allowed {v : Int} {d : Draft}
    (h : Took P s ⟨.begin base, first.started⟩ (.ok v, d)) (hk : first.kind = first.args.kind)
    (hf : first.isFinished = false) (hj : Agrees all base.table? first) :
    first.kind.allows first.stage d.job.stage d.job.status = true := by
  have hfollows := Change.Job.follows_started first
  have hwalks := h.walks (hfollows.kind_eq hk) (agrees_started hj) v rfl
  have hallows := hwalks.allows ((isFinished_started first).trans hf)
  dsimp only at hallows
  rw [hfollows.kind, Change.Job.stage_started] at hallows
  exact hallows

theorem Took.guardOrder_eq (h : Took P s ⟨.begin base, first.started⟩ r)
    (hk : first.kind = first.args.kind) (hf : first.isFinished = false)
    (hj : Agrees all base.table? first) : guardOrder first.stage r = r := by
  obtain ⟨result, left⟩ := r
  cases result with
  | error e => rfl
  | ok v =>
    have hkind : left.job.kind = first.kind := h.follows.kind
    apply if_pos
    rw [hkind]
    exact h.allowed hk hf hj

theorem Outcome.goes (h : Outcome limit P base first W j) (hk : first.kind = first.args.kind)
    (hf : first.isFinished = false) (hj : Agrees all base.table? first) (hc : first.OnCourse) :
    first.Goes j := by
  have hfollows := Change.Job.follows_started first
  have hstage := Change.Job.stage_started first
  have hk' := hfollows.kind_eq hk
  have hf' : first.started.isFinished = false := (isFinished_started first).trans hf
  cases h with
  | success s hs v d h ho error =>
    have hwalks := h.walks hk' (agrees_started hj) v rfl
    dsimp only at hwalks
    generalize hσ : d.job.status = σ at hwalks
    generalize hst : d.job.stage = st at hwalks
    cases hwalks with
    | onward hb h hi =>
      rw [Change.Job.isRollingBack_started] at hb
      rw [hfollows.kind, hstage] at h
      rw [hfollows.kind] at hi
      exact .onward hb hσ (hst ▸ h) (hst ▸ hi)
    | done hb h hlast =>
      rw [Change.Job.isRollingBack_started] at hb
      rw [hfollows.kind, hstage] at h
      rw [hfollows.kind] at hlast
      exact .done hb hσ (hst ▸ h) (hst ▸ hlast)
    | undone hb =>
      rw [Change.Job.isRollingBack_started] at hb
      rw [hfollows.kind] at hst
      exact .undone hb hσ hst
  | failure s hs e d h =>
    obtain ⟨hkept, hstatus⟩ := h.framed.failed e rfl
    have hsame : (blame limit d.job e).stage = first.stage :=
      (stage_blame limit d.job e).trans (hkept.trans hstage)
    have hdkind : d.job.kind = first.kind := h.follows.kind
    have hcancelled (hi : first.stage ∉ first.kind.intermediate)
        (hs : (blame limit d.job e).status = .cancelled) : first.Goes (blame limit d.job e) :=
      .cancelled (hc.initial hf hi).1 hs hsame (hc.initial hf hi).2
    have hturned (hi : first.stage ∈ first.kind.intermediate)
        (hs : (blame limit d.job e).status = .rollingBack) :
        first.Goes (blame limit d.job e) := by
      cases hb : first.isRollingBack with
      | true =>
        refine .again ?_ hsame
        rw [hs, Change.Job.started_of_rollingBack hb, eq_of_beq hb]
      | false => exact .turned hb hs hsame hi
    cases status_blame limit d.job e with
    | inl hblamed =>
      rcases hstatus with hs | ⟨hs, hne⟩ | ⟨hs, hv⟩
      · exact .again (hblamed.trans hs) hsame
      · refine hturned (hc.intermediate hf ?_) (hblamed.trans hs)
        dsimp only at hne
        rw [hstage, hfollows.argsKind, ← hk] at hne
        exact hne
      · refine hcancelled ?_ (hblamed.trans hs)
        have hnot := (agrees_started hj).not_mem_of_isVain (d := ⟨.begin base, first.started⟩) hv hk' hf'
        dsimp only at hnot
        rw [hstage, hfollows.kind] at hnot
        exact hnot
    | inr hblamed =>
      unfold Change.Job.turnBack at hblamed
      dsimp only at hblamed hkept
      rw [hkept, hstage, hdkind] at hblamed
      by_cases hi : first.stage = first.kind.initial
      · rw [if_pos hi] at hblamed
        exact hcancelled (hi ▸ Kind.initial_not_mem_intermediate _) hblamed
      · rw [if_neg hi] at hblamed
        exact hturned (hc.intermediate hf hi) hblamed
  | disorder s hs v d h ho => cases ho.symm.trans (h.allowed hk hf hj)

end Outcome

end Step

end Steward
