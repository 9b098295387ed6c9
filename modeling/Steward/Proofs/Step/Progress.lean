import Steward.Proofs.Step.Budget
import Steward.Proofs.Step.Deed
import Steward.Proofs.Step.Lasting

/-!
This module contains the progress that a job makes in a step. A job that can take its step comes nearer
to its end, for `Job.left` decreases. The only step that fails and leaves its job as it was is one that
finds the place of its new table taken, and that is counted.
-/

namespace Steward

open Catalog (ForeignKey Stage Table)
open Change (Job Kind Status Trouble)
open Ledger (Snapshot Store Txn)

namespace Change

namespace Kind

def after (k : Kind) (st : Stage) : Nat := (k.order.dropWhile (· != st)).tail.length

variable {k : Kind} {st st' : Stage}

theorem after_next (h : k.next? st = some st') : k.after st = k.after st' + 1 := by
  cases k <;> cases st <;> cases h <;> rfl

theorem after_le (k : Kind) (st : Stage) : k.after st ≤ 3 := by
  cases k <;> cases st <;> decide

theorem after_le_one (h : k = .createTable ∨ k = .truncateTable) (st : Stage) : k.after st ≤ 1 := by
  rcases h with rfl | rfl <;> cases st <;> decide

theorem after_pos (h : st = k.initial ∨ st ∈ k.intermediate) : 0 < k.after st := by
  revert h
  cases k <;> cases st <;> decide

theorem hides_of_order (hk : k.order = [.live, .writeOnly, .deleteOnly, .absent])
    (h : st = k.initial ∨ st ∈ k.intermediate) : st ∈ [.live, .writeOnly, .deleteOnly] := by
  revert hk h
  cases k <;> cases st <;> decide

end Kind

namespace Job

/--
How many steps the job has to take yet. One that is to be undone takes one step.
-/
def left (j : Job) : Nat := if j.isRollingBack then 1 else j.kind.after j.stage

/--
No table has the id that the job is going to give its new table. For a table that is truncated, this
may be the id that it has already.
-/
def HasRoom (j : Job) (tables : Int → Int → Option Table) : Prop :=
  match j.args with
  | .createTable _ _ => tables j.schemaId j.tableId = none
  | .truncateTable newId _ => newId ≠ j.tableId → tables j.schemaId newId = none
  | _ => True

variable {j j' : Job} {tables : Int → Int → Option Table}

theorem left_le (j : Job) : j.left ≤ 3 := by
  unfold left
  split
  · decide
  · exact Kind.after_le _ _

theorem left_of_rollingBack (hs : j.status = .rollingBack) : j.left = 1 :=
  if_pos (congrArg (· == Status.rollingBack) hs)

theorem left_forward (hb : j.isRollingBack = false) : j.left = j.kind.after j.stage :=
  if_neg (hb ▸ Bool.false_ne_true)

theorem left_started (j : Job) : j.started.left = j.left := by
  unfold left
  rw [isRollingBack_started, (follows_started j).kind, stage_started]

theorem OnCourse.forward (h : j.OnCourse) (hf : j.isFinished = false)
    (hb : j.isRollingBack = false) : j.stage = j.kind.initial ∨ j.stage ∈ j.kind.intermediate := by
  unfold OnCourse at h
  cases status_forward hf hb with
  | inl hs =>
    rw [hs] at h
    exact .inl h
  | inr hs =>
    rw [hs] at h
    exact h

theorem left_pos (h : j.OnCourse) (hf : j.isFinished = false) : 0 < j.left := by
  cases hb : j.isRollingBack with
  | true =>
    unfold left
    rw [if_pos hb]
    exact Nat.one_pos
  | false =>
    rw [left_forward hb]
    exact Kind.after_pos (h.forward hf hb)

theorem kind_of_not_hasRoom (hk : j.kind = j.args.kind) (h : ¬ j.HasRoom tables) :
    j.kind = .createTable ∨ j.kind = .truncateTable := by
  unfold HasRoom at h
  split at h
  · next ha =>
    rw [hk, ha]
    exact .inl rfl
  · next ha =>
    rw [hk, ha]
    exact .inr rfl
  · exact absurd trivial h

theorem hasRoom_of_left (hk : j.kind = j.args.kind) (h : 1 < j.left) : j.HasRoom tables := by
  -- A job that makes a table does so in one step.
  apply Classical.byContradiction
  intro hroom
  have hone : j.left ≤ 1 := by
    unfold left
    split
    · exact Nat.le_refl 1
    · exact Kind.after_le_one (kind_of_not_hasRoom hk hroom) _
  exact absurd h (Nat.not_lt.2 hone)

theorem hasRoom_follows (h : j.Follows j') : j'.HasRoom tables ↔ j.HasRoom tables := by
  unfold HasRoom
  cases h.args with
  | inl hsame => rw [hsame, h.schemaId, h.tableId]
  | inr hnew =>
    obtain ⟨fk, check, id, stage, hj, hj'⟩ := hnew
    rw [hj, hj']

theorem stage_of_not_hasRoom (hk : j.kind = j.args.kind)
    (hst : j.stage = j.kind.initial ∨ j.stage ∈ j.kind.intermediate) (h : ¬ j.HasRoom tables) :
    j.stage = j.kind.initial := by
  apply hst.resolve_right
  cases kind_of_not_hasRoom hk h with
  | inl hkind =>
    rw [hkind]
    exact List.not_mem_nil
  | inr hkind =>
    rw [hkind]
    exact List.not_mem_nil

end Job

end Change

namespace Step

variable {P : Surroundings → Prop} {s : Surroundings} {d : Draft} {r : Result}
  {table newTable : Table} {check : Bool} {newId : Int} {name : String} {fk : ForeignKey}
  {all : Bool} {e : Trouble}

section Failures

/--
Why a step failed: its job is cancelled or goes back, or there is no room for a new table.
-/
inductive Fails (d : Draft) (r : Result) : Prop where
  | cancelled (h : r.2.job.status = .cancelled)
  | turned (h : r.2.job.status = .rollingBack) (hleft : 1 < d.job.left)
  | noRoom (hj : r.2.job = d.job) (h : ¬ d.job.HasRoom d.txn.table?)

theorem Hidden.fails {h : Hiding} (hr : Hidden s table h d r) (he : r.1 = .error e)
    (hk : d.job.kind.order = [.live, .writeOnly, .deleteOnly, .absent])
    (hst : d.job.stage = d.job.kind.initial ∨ d.job.stage ∈ d.job.kind.intermediate)
    (hlast : (h.last.run d).1 ≠ .error e) : Fails d r := by
  cases hr with
  | kept => cases he
  | shown => cases he
  | refused => exact .cancelled rfl
  | hidden => cases he
  | closed => cases he
  | gone => exact absurd he hlast
  | stuck hb hs =>
    have hmem := Kind.hides_of_order hk hst
    cases hs with
    | inl hs => exact absurd (hs ▸ hmem) (by decide)
    | inr hs => exact absurd (hs ▸ hmem) (by decide)

theorem Created.fails (hr : Created s newTable check d r) (he : r.1 = .error e)
    (ha : d.job.args = .createTable newTable check) (hk : d.job.kind = d.job.args.kind)
    (hst : d.job.stage = d.job.kind.initial ∨ d.job.stage ∈ d.job.kind.intermediate)
    (hh : d.txn.working.Housed) : Fails d r := by
  rw [hk, ha] at hst
  cases hr with
  | undone => cases he
  | refused => exact .cancelled rfl
  | failed hb hs e h =>
    refine .noRoom rfl fun hroom => ?_
    unfold Job.HasRoom at hroom
    rw [ha] at hroom
    cases h with
    | inl hlost =>
      have hplace := hh _ hlost.1
      rw [hlost.2] at hplace
      cases hplace
    | inr htaken => exact htaken hroom
  | created => cases he
  | stuck hb hs => exact absurd (hst.resolve_right nofun) hs

theorem Truncated.fails (hr : Truncated s newId check d r) (he : r.1 = .error e)
    (ha : d.job.args = .truncateTable newId check) (hk : d.job.kind = d.job.args.kind)
    (hst : d.job.stage = d.job.kind.initial ∨ d.job.stage ∈ d.job.kind.intermediate) :
    Fails d r := by
  rw [hk, ha] at hst
  cases hr with
  | missing => exact .cancelled rfl
  | undone => cases he
  | refused => exact .cancelled rfl
  | failed hb hs e t h =>
    refine .noRoom rfl fun hroom => ?_
    unfold Job.HasRoom at hroom
    rw [ha] at hroom
    exact h.2 (hroom h.1)
  | truncated => cases he
  | stuck hb hs => exact absurd (hst.resolve_right nofun) hs

theorem Bound.fails (hr : Bound P fk check d r) (he : r.1 = .error e)
    (hlasts : e.isTransient = false) (ha : d.job.args = .addForeignKey fk check)
    (hk : d.job.kind = d.job.args.kind) (hf : d.job.isFinished = false)
    (hst : d.job.stage = d.job.kind.initial ∨ d.job.stage ∈ d.job.kind.intermediate)
    (hj : Agrees all d.txn.table? d.job) : Fails d r := by
  rw [ha] at hk
  cases hr with
  | missing => exact .cancelled rfl
  | undone => cases he
  | unneeded => cases he
  | refused => exact .cancelled rfl
  | resumed => cases he
  | staged => cases he
  | confirmed => cases he
  | turned hb hs e =>
    refine .turned rfl ?_
    rw [Job.left_forward hb, hk, hs]
    exact Nat.one_lt_two
  | bound => cases he
  | failed hb e' h =>
    cases he
    obtain ⟨habsent, hnone⟩ := h.resolve_left (hlasts ▸ Bool.false_ne_true)
    have hi : d.job.stage ∈ d.job.kind.intermediate := by
      apply hst.resolve_left
      rw [hk]
      exact habsent
    obtain ⟨t, pos, ht, hpos⟩ := hj.stagedAt hf ha hi
    rw [hk] at hi
    exact absurd hpos (hnone hi t pos ht)

theorem Unbound.fails (hr : Unbound s name d r) (he : r.1 = .error e)
    (ha : d.job.args = .dropForeignKey name) (hk : d.job.kind = d.job.args.kind)
    (hst : d.job.stage = d.job.kind.initial ∨ d.job.stage ∈ d.job.kind.intermediate) :
    Fails d r := by
  rw [hk, ha] at hst
  cases hr with
  | missing => exact .cancelled rfl
  | undone => cases he
  | unknown => exact .cancelled rfl
  | unbound => cases he
  | stuck hb hs => exact absurd (hst.resolve_right nofun) hs

theorem Took.fails (h : Took P s d r) (he : r.1 = .error e) (hlasts : e.isTransient = false)
    (hk : d.job.kind = d.job.args.kind) (hf : d.job.isFinished = false)
    (hst : d.job.stage = d.job.kind.initial ∨ d.job.stage ∈ d.job.kind.intermediate)
    (hj : Agrees all d.txn.table? d.job) (hh : d.txn.working.Housed) : Fails d r := by
  unfold Took at h
  split at h
  · next ha => exact Created.fails h he ha hk hst hh
  · next ha =>
    cases h with
    | missing => exact .cancelled rfl
    | held table hd r h =>
      apply h.fails he (by rw [hk, ha]; rfl) hst
      rw [run_last_ofTable hd]
      exact nofun
  · next ha => exact Truncated.fails h he ha hk hst
  · next ha => exact Bound.fails h he hlasts ha hk hf hst hj
  · next ha => exact Unbound.fails h he ha hk hst
  · next ha =>
    cases h with
    | missing => exact .cancelled rfl
    | held table hd hl target ht r hr =>
      obtain ⟨pos, hpos, rfl⟩ := Option.map_eq_some_iff.1 ht
      apply hr.fails he (by rw [hk, ha]; rfl) hst
      rw [run_last_ofIndex hd]
      exact nofun
  · next ha =>
    cases h with
    | missing => exact .cancelled rfl
    | held table hd hl target ht r hr =>
      obtain ⟨pos, hpos, rfl⟩ := Option.map_eq_some_iff.1 ht
      apply hr.fails he (by rw [hk, ha]; rfl) hst
      rw [run_last_ofColumn hd]
      exact nofun

end Failures

section Settle

variable {limit : Nat} {store : Store} {base : Snapshot} {first : Job} {what : String}
  {left : Draft}

/--
What a step that began at `base` and ends there gains for its job: it is over, it comes nearer to its
end, or it is to be tried again because there is no room for its new table.
-/
inductive Gains (limit : Nat) (base : Snapshot) (first : Job) (left : Draft) : Prop where
  | ended (h : left.job.isFinished = true)
  | nearer (h : left.job.left < first.left)
  | tried (hw : left.txn = .begin base) (hroom : ¬ first.HasRoom base.table?)
      (hcount : left.job.errorCount = first.errorCount + 1) (hlimit : left.job.errorCount ≤ limit)

theorem settle_of_lasts (limit : Nat) (store : Store) (source : Stage) (hl : Lasts r.1) :
    ∃ what left, settle limit store true source r = some (what, left) := by
  obtain ⟨result, d⟩ := r
  cases result with
  | ok v =>
    cases ho : d.job.kind.allows source d.job.stage d.job.status with
    | true => exact ⟨_, _, settle_of_allowed limit store ho⟩
    | false => exact ⟨_, _, settle_of_disorder limit store ho⟩
  | error e => exact ⟨_, _, settle_of_failure limit store source (hl e rfl)⟩

theorem left_of_walks (hw : d.job.Walks left.job.status left.job.stage)
    (hk : left.job.kind = d.job.kind) :
    left.job.isFinished = true ∨ left.job.left < d.job.left := by
  generalize hσ : left.job.status = σ at hw
  generalize hst : left.job.stage = st at hw
  cases hw with
  | onward hb hnext hi =>
    right
    have hback : left.job.isRollingBack = false := by
      unfold Job.isRollingBack at hb ⊢
      rw [hσ]
      exact hb
    rw [Job.left_forward hb, Job.left_forward hback, hk, hst, Kind.after_next hnext]
    exact Nat.lt_succ_self _
  | done => exact .inl (congrArg Status.isTerminal hσ)
  | undone => exact .inl (congrArg Status.isTerminal hσ)

theorem Fails.gains (h : Fails ⟨.begin base, first.started⟩ (.error e, left)) (limit : Nat)
    (hk : first.kind = first.args.kind) (hf : first.isFinished = false)
    (hb : first.isRollingBack = false)
    (hst : first.stage = first.kind.initial ∨ first.stage ∈ first.kind.intermediate) :
    Gains limit base first ⟨.begin base, blame limit left.job e⟩ := by
  have hstarted := Job.follows_started first
  cases h with
  | cancelled hσ => exact .ended (isFinished_blame limit e hσ)
  | turned hσ hleft =>
    apply Gains.nearer
    rw [Job.left_started] at hleft
    rwa [Job.left_of_rollingBack (status_blame_of_rollingBack limit e hσ)]
  | noRoom hsame hroom =>
    replace hsame : left.job = first.started := hsame
    have hfirst : ¬ first.HasRoom base.table? := fun h => hroom ((Job.hasRoom_follows hstarted).2 h)
    have hinitial : left.job.stage = left.job.kind.initial := by
      rw [hsame, hstarted.kind, Job.stage_started]
      exact Job.stage_of_not_hasRoom hk hst hfirst
    have hcounted : left.job.errorCount = first.errorCount := by
      rw [hsame]
      exact (started_keeps first).2
    rcases blame_cases limit left.job e with hover | hback | ⟨hcount, hle⟩
    · exact .ended hover
    · exfalso
      -- A job at its first stage is never sent back.
      rcases status_blame limit left.job e with hσ | hσ
      · rw [hσ, hsame, Job.status_started hf hb] at hback
        cases hback
      · have hcancelled : left.job.turnBack.status = .cancelled := if_pos hinitial
        cases hcancelled.symm.trans (hσ.symm.trans hback)
    · exact .tried rfl hfirst (hcounted ▸ hcount) (hcount ▸ hle)

theorem Took.gains (h : Took P s ⟨.begin base, first.started⟩ r) (hl : Lasts r.1)
    (hk : first.kind = first.args.kind) (hf : first.isFinished = false)
    (hj : Agrees all base.table? first) (hc : first.OnCourse) (hh : base.Housed)
    (hbase : store.snapshot = base)
    (hd : settle limit store true first.stage r = some (what, left)) :
    Gains limit base first left := by
  have hstarted := Job.follows_started first
  have hstage := Job.stage_started first
  have hk' := hstarted.kind_eq hk
  have hf' : first.started.isFinished = false := (isFinished_started first).trans hf
  have hj' := agrees_started hj
  unfold settle at hd
  rw [h.guardOrder_eq hk hf hj] at hd
  obtain ⟨result, d⟩ := r
  cases result with
  | ok v =>
    dsimp only at hd
    rw [if_pos rfl] at hd
    cases hd
    have hleft := left_of_walks (h.walks hk' hj' v rfl) h.framed.follows.kind
    rw [show (Draft.mk _ first.started).job = first.started from rfl, Job.left_started] at hleft
    cases hleft with
    | inl hover => exact .ended hover
    | inr hless => exact .nearer hless
  | error e =>
    have he : e.isTransient = false := hl e rfl
    dsimp only at hd
    rw [he, if_neg Bool.false_ne_true] at hd
    cases hd
    have hb : first.isRollingBack = false := by
      apply Bool.eq_false_iff.2
      intro hb
      have hb' := (Job.isRollingBack_started first).trans hb
      refine h.not_error_of_rollingBack (e := e) hk' hj' ?_ hb' rfl
      dsimp only
      rw [hstarted.kind, hstage]
      exact hc.rollingBack hb
    have hst := hc.forward hf hb
    have hbegin : store.begin = .begin base := congrArg Txn.begin hbase
    have hfails : Fails ⟨.begin base, first.started⟩ (.error e, d) := by
      refine h.fails rfl he hk' hf' ?_ hj' hh
      dsimp only
      rw [hstarted.kind, hstage]
      exact hst
    rw [hbegin]
    exact hfails.gains limit hk hf hb hst

end Settle

section Answers

theorem addForeignKey_play (s : Surroundings) (d : Draft) (y : Surroundings)
    (reply : Except Sql.Trouble Sql.Reply) (rest : List (Surroundings × Answer)) :
    ∃ r, (addForeignKey s d).play ((y, .replied reply) :: rest) = some r ∧ Lasts r.1 := by
  have hbegin := lasting_beginAddition s d
  unfold addForeignKey
  split
  · next e d' hrun =>
    rw [hrun] at hbegin
    exact ⟨_, rfl, lasts_error (hbegin e rfl)⟩
  · exact ⟨_, rfl, lasts_ok _⟩
  · next staged d' hrun =>
    unfold checkRows
    split
    · exact ⟨_, rfl, lasting_endRowCheck y staged (lasts_judgeRows _ _ _ reply) d'⟩
    · exact ⟨_, rfl, lasting_endRowCheck s staged (lasts_ok ()) d'⟩

theorem standard_play (k : Kind) (s : Surroundings) (d : Draft) (y : Surroundings)
    (reply : Except Sql.Trouble Sql.Reply) (rest : List (Surroundings × Answer)) :
    ∃ r, (Registry.standard k s d).play ((y, .replied reply) :: rest) = some r ∧ Lasts r.1 := by
  cases k with
  | createTable => exact ⟨_, rfl, lasting_createTable s d⟩
  | dropTable => exact ⟨_, rfl, lasting_dropTable s d⟩
  | truncateTable => exact ⟨_, rfl, lasting_truncateTable s d⟩
  | addForeignKey => exact addForeignKey_play s d y reply rest
  | dropForeignKey => exact ⟨_, rfl, lasting_dropForeignKey s d⟩
  | dropIndex => exact ⟨_, rfl, lasting_dropIndex s d⟩
  | dropColumn => exact ⟨_, rfl, lasting_dropColumn s d⟩

end Answers

end Step

end Steward
