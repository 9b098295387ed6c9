import Mathlib.Data.List.Count
import Steward.Proofs.Sql.Log
import Steward.Runaway.Storage

/-!
This module contains how the sweep of the records goes: batch after batch it deletes the records that
are due, and the first batch that comes back short is the last one. When nothing fails, only the
records that are not due are left; when something does, full batches are gone and nothing else.
-/

namespace Steward.Runaway.Storage

open Sql (Dialogue Reply Request Service Trouble Visit)

def due (before : Moment) (t : List Record) : Nat := t.countP fun r => r.start < before

/--
The second table is the first one without `k` of the records that started before the moment.
-/
def Removes (before : Moment) (k : Nat) (t t' : List Record) : Prop :=
  ∃ gone : List Record, t.Perm (gone ++ t') ∧ gone.length = k ∧ ∀ r ∈ gone, r.start < before

section Removes

variable {before : Moment} {k k' : Nat} {t t' t'' : List Record}

theorem Removes.refl (before : Moment) (t : List Record) : Removes before 0 t t :=
  ⟨[], .refl t, rfl, by simp⟩

theorem Removes.trans (h : Removes before k t t') (h' : Removes before k' t' t'') :
    Removes before (k + k') t t'' := by
  obtain ⟨gone, hperm, hlength, hdue⟩ := h
  obtain ⟨gone', hperm', hlength', hdue'⟩ := h'
  refine ⟨gone ++ gone', ?_, ?_, List.forall_mem_append.2 ⟨hdue, hdue'⟩⟩
  · rw [List.append_assoc]
    exact hperm.trans (hperm'.append_left gone)
  · rw [List.length_append, hlength, hlength']

theorem Removes.due (h : Removes before k t t') :
    Storage.due before t = k + Storage.due before t' := by
  obtain ⟨gone, hperm, rfl, hdue⟩ := h
  have hgone : Storage.due before gone = gone.length := by
    apply List.countP_eq_length.2
    simpa using hdue
  unfold Storage.due at hgone ⊢
  rw [hperm.countP_eq, List.countP_append, hgone]

theorem Removes.rest (h : Removes before (Storage.due before t) t t') :
    t'.Perm (t.filter fun r => before ≤ r.start) := by
  have hnone : Storage.due before t' = 0 := by
    have := h.due
    omega
  obtain ⟨gone, hperm, -, hdue⟩ := h
  have hgone : gone.filter (fun r => before ≤ r.start) = [] := by
    apply List.filter_eq_nil_iff.2
    intro r hr hkept
    exact absurd (hdue r hr) (Int.not_lt.2 (of_decide_eq_true hkept))
  have hleft : t'.filter (fun r => before ≤ r.start) = t' := by
    apply List.filter_eq_self.2
    intro r hr
    have hnot := List.countP_eq_zero.1 hnone r hr
    exact decide_eq_true (Int.not_lt.1 fun hlt => hnot (decide_eq_true hlt))
  have hfilter := hperm.filter fun r => before ≤ r.start
  rw [List.filter_append, hgone, hleft] at hfilter
  exact hfilter.symm

end Removes

/--
There is a table of records behind the service, and nobody else changes it. The statement that
deletes removes `batch` records that started before the moment, whichever, or all of them if they are
fewer, and tells how many. A statement that fails removes none.
-/
structure Deletes {τ : Type} (v : Service τ) (table : τ → List Record) (before : Moment)
    (batch : Nat) : Prop where
  session (x : τ) : table (v.session x).2 = table x
  answered (x : τ) (r : Reply) : (v.answer x (deleteRecords before batch)).1 = .ok r →
    r.affected = min batch (due before (table x)) ∧
      Removes before r.affected (table x) (table (v.answer x (deleteRecords before batch)).2)
  failed (x : τ) (t : Trouble) : (v.answer x (deleteRecords before batch)).1 = .error t →
    table (v.answer x (deleteRecords before batch)).2 = table x

/--
What comes of a sweep that has deleted `total` records already. It ends well just if nothing fails.
-/
structure Swept {σ τ : Type} (table : τ → List Record) (before : Moment) (batch total : Nat) (x : τ)
    (e : Visit σ τ (Except Trouble Nat)) : Prop where
  fine : e.trouble? = none →
    e.result = .ok (total + due before (table x)) ∧
      e.sent = List.replicate (due before (table x) / batch + 1) (deleteRecords before batch) ∧
      Removes before (due before (table x)) (table x) (table e.behind)
  broken (t : Trouble) : e.trouble? = some t →
    e.result = .error (t.during "delete expired runaway records") ∧
      e.sent.length ≤ e.replies.length + 1 ∧
      Removes before (e.replies.length * batch) (table x) (table e.behind)

section Sweep

variable {σ τ : Type} {v : Service τ} {table : τ → List Record} {before : Moment}
  {batch total : Nat} {now : Now} {s : σ} {x x' : τ}

theorem deleteBatches_succ (before : Moment) (batch fuel total : Nat) :
    (deleteBatches before batch (fuel + 1) total : Exchange σ Nat).run = .acquire fun
      | .error t => .done (.error (t.during "delete expired runaway records"))
      | .ok () => .send (deleteRecords before batch) fun
        | .error t => .release (.done (.error (t.during "delete expired runaway records")))
        | .ok r => .release
          (if r.affected < batch then .done (.ok (total + r.affected))
          else (deleteBatches before batch fuel (total + r.affected)).run) := by
  refine congrArg Dialogue.acquire (funext fun session => ?_)
  cases session with
  | error t => rfl
  | ok u =>
    refine congrArg (Dialogue.send _) (funext fun reply => ?_)
    cases reply with
    | error t => rfl
    | ok r =>
      refine congrArg Dialogue.release ?_
      show (ite _ _ _ : Exchange σ Nat).run = _
      split <;> rfl

theorem swept_of_trouble {e : Visit σ τ (Except Trouble Nat)} {t : Trouble}
    (htrouble : e.trouble? = some t)
    (hresult : e.result = .error (t.during "delete expired runaway records"))
    (hsent : e.sent.length ≤ 1) (hreplies : e.replies = []) (h : table e.behind = table x) :
    Swept table before batch total x e where
  fine hfine := by
    rw [htrouble] at hfine
    cases hfine
  broken t' ht' := by
    obtain rfl : t = t' := Option.some.inj (htrouble.symm.trans ht')
    rw [hreplies, h, List.length_nil, Nat.zero_mul]
    exact ⟨hresult, hsent, .refl before _⟩

theorem swept_short {r : Reply} (hshort : r.affected < batch)
    (hr : r.affected = min batch (due before (table x)))
    (h : Removes before r.affected (table x) (table x')) :
    Swept table before batch total x
      (((⟨.ok (total + r.affected), s, x', []⟩ : Visit σ τ (Except Trouble Nat)).after
        [.statement (deleteRecords before batch) (.ok r)]).after [.session (.ok ())]) where
  fine _ := by
    have hall : r.affected = due before (table x) := by omega
    rw [← hall, Nat.div_eq_of_lt hshort]
    exact ⟨rfl, rfl, h⟩
  broken t ht := by cases ht

theorem Swept.after {e : Visit σ τ (Except Trouble Nat)} (r : Reply)
    (he : Swept table before batch (total + batch) x' e) (hbatch : 0 < batch)
    (h : Removes before batch (table x) (table x')) :
    Swept table before batch total x
      ((e.after [.statement (deleteRecords before batch) (.ok r)]).after [.session (.ok ())]) where
  fine hfine := by
    obtain ⟨hresult, hsent, hleft⟩ := he.fine (by simpa [Request.trouble?] using hfine)
    refine ⟨?_, ?_, ?_⟩
    · rw [Visit.result_after, Visit.result_after, hresult, h.due, Nat.add_assoc]
    · rw [h.due, Nat.add_comm batch, Nat.add_div_right _ hbatch, List.replicate_succ, ← hsent]
      rfl
    · rw [h.due]
      exact h.trans hleft
  broken t ht := by
    obtain ⟨hresult, hsent, hleft⟩ := he.broken t (by simpa [Request.trouble?] using ht)
    refine ⟨hresult, Nat.succ_le_succ hsent, ?_⟩
    show Removes before ((e.replies.length + 1) * batch) (table x) (table e.behind)
    rw [Nat.succ_mul, Nat.add_comm]
    exact h.trans hleft

theorem swept_deleteBatches (hv : Deletes v table before batch) (hbatch : 0 < batch) (fuel : Nat)
    (hfuel : due before (table x) / batch < fuel) :
    Swept table before batch total x
      ((deleteBatches before batch fuel total).run.visit v now s x) := by
  -- Each full batch takes one statement of those that are left, and `batch` records of those due.
  induction fuel generalizing total x with
  | zero => exact absurd hfuel (Nat.not_lt_zero _)
  | succ fuel ih =>
    have hsession := hv.session x
    rw [deleteBatches_succ, Dialogue.visit]
    cases hgot : v.session x with
    | mk session x₁ =>
      rw [hgot] at hsession
      cases session with
      | error t => exact swept_of_trouble rfl rfl (Nat.zero_le 1) rfl hsession
      | ok u =>
        have hanswered := hv.answered x₁
        have hfailed := hv.failed x₁
        dsimp only
        rw [Dialogue.visit]
        cases hreply : v.answer x₁ (deleteRecords before batch) with
        | mk reply x₂ =>
          rw [hreply, hsession] at hanswered hfailed
          cases reply with
          | error t => exact swept_of_trouble rfl rfl (Nat.le_refl 1) rfl (hfailed t rfl)
          | ok r =>
            obtain ⟨hr, hremoves⟩ := hanswered r rfl
            dsimp only
            rw [Dialogue.visit]
            split
            next hshort => exact swept_short hshort hr hremoves
            next hfull =>
              have hbatched : r.affected = batch := by omega
              rw [hbatched] at hremoves ⊢
              refine Swept.after r (ih ?_) hbatch hremoves
              rw [hremoves.due, Nat.add_comm, Nat.add_div_right _ hbatch] at hfuel
              exact Nat.lt_of_succ_lt_succ hfuel

/--
The sweep of the records that started before a moment, `batch` of them with each statement, or one if
`batch` is zero. If nothing fails, it sends one statement for each full batch and one more, returns how
many records were due, and leaves just the others. If something fails, it fails for that reason and
asks for nothing more, and full batches are gone, as many as there were answers. What is deleted is
counted in 64 bits.
-/
theorem deleteExpired_sweeps (v : Service τ) (table : τ → List Record) (before : Moment)
    (batch : Nat) (hv : Deletes v table before (max batch 1)) (now : Now) (s : σ) (x : τ)
    (hcount : due before (table x) ≤ Text.maxNat64) :
    let n := due before (table x)
    let limit := max batch 1
    let e := (deleteExpired before batch).run.visit v now s x
    (e.trouble? = none →
      e.result = .ok n ∧
        e.sent = List.replicate (n / limit + 1) (deleteRecords before limit) ∧
        (table e.behind).Perm ((table x).filter fun r => before ≤ r.start)) ∧
      ∀ t, e.trouble? = some t →
        e.result = .error (t.during "delete expired runaway records") ∧
          e.sent.length ≤ e.replies.length + 1 ∧
          Removes before (e.replies.length * limit) (table x) (table e.behind) := by
  have hfuel : due before (table x) / max batch 1 < manyRows := by
    have hless : due before (table x) / max batch 1 ≤ due before (table x) := Nat.div_le_self _ _
    have hmany : manyRows = Text.maxNat64 + 1 := rfl
    omega
  have hswept : Swept table before (max batch 1) 0 x
      ((deleteExpired before batch).run.visit v now s x) :=
    swept_deleteBatches hv (by omega) manyRows hfuel
  refine ⟨fun hfine => ?_, hswept.broken⟩
  obtain ⟨hresult, hsent, hleft⟩ := hswept.fine hfine
  rw [Nat.zero_add] at hresult
  exact ⟨hresult, hsent, hleft.rest⟩

end Sweep

/-! ### A table whose first records are deleted first -/

def deleteFirst (before : Moment) : Nat → List Record → List Record
  | 0, t => t
  | _ + 1, [] => []
  | k + 1, r :: t =>
    if r.start < before then deleteFirst before k t else r :: deleteFirst before (k + 1) t

theorem removes_deleteFirst (before : Moment) (k : Nat) (t : List Record) :
    Removes before (min k (due before t)) t (deleteFirst before k t) := by
  fun_induction deleteFirst before k t with
  | case1 t =>
    rw [Nat.zero_min]
    exact .refl before t
  | case2 k => exact .refl before []
  | case3 k r t hdue ih =>
    obtain ⟨gone, hperm, hlength, hgone⟩ := ih
    have hcount : due before (r :: t) = due before t + 1 :=
      List.countP_cons_of_pos (decide_eq_true hdue)
    refine ⟨r :: gone, hperm.cons r, ?_, List.forall_mem_cons.2 ⟨hdue, hgone⟩⟩
    rw [List.length_cons, hlength, hcount, Nat.succ_min_succ]
  | case4 k r t hkept ih =>
    obtain ⟨gone, hperm, hlength, hgone⟩ := ih
    have hcount : due before (r :: t) = due before t :=
      List.countP_cons_of_neg fun h => hkept (of_decide_eq_true h)
    refine ⟨gone, (hperm.cons r).trans List.perm_middle.symm, ?_, hgone⟩
    rw [hlength, hcount]

/--
The service over a table that knows one statement. Its statements fail as the list says; after that
none fails.
-/
def shelf (before : Moment) (limit : Nat) : Service (List Record × List (Option Trouble)) where
  session x := (.ok (), x)
  answer x st :=
    match x.2.head?.join with
    | some t => (.error t, x.1, x.2.tail)
    | none =>
      if st = deleteRecords before limit then
        (.ok (.ofAffected (min limit (due before x.1))), deleteFirst before limit x.1, x.2.tail)
      else (.ok .nothing, x.1, x.2.tail)

theorem deletes_shelf (before : Moment) (limit : Nat) :
    Deletes (shelf before limit) Prod.fst before limit where
  session _ := rfl
  answered x r hr := by
    simp only [shelf, if_pos] at hr ⊢
    split at hr
    next t h => cases hr
    next =>
      cases hr
      exact ⟨rfl, removes_deleteFirst before limit x.1⟩
  failed x t ht := by
    simp only [shelf, if_pos] at ht ⊢
    split at ht
    next => rfl
    next => cases ht

theorem deleteExpired_sweeps_shelf :
    let before : Moment := ⟨5⟩
    let early : Record := { (default : Record) with start := ⟨1⟩ }
    let late : Record := { (default : Record) with start := ⟨5⟩ }
    let t := [early, late, early]
    let visit (fails : List (Option Trouble)) :=
      (deleteExpired before 0).run.visit (shelf before 1) ⟨0, ⟨9⟩⟩ () (t, fails)
    due before t ≤ Text.maxNat64 ∧ Deletes (shelf before 1) Prod.fst before 1 ∧
      (visit []).result = .ok 2 ∧
      (visit []).sent = List.replicate 3 (deleteRecords before 1) ∧
      (visit []).behind.1 = [late] ∧
      (visit [none, some (.of "lock wait timeout")]).result =
        .error ((Failure.of "lock wait timeout").during "delete expired runaway records") ∧
      Removes before 1 t (visit [none, some (.of "lock wait timeout")]).behind.1 := by
  intro before early late t visit
  have hcount : due before t ≤ Text.maxNat64 := by decide
  have hv : Deletes (shelf before 1) Prod.fst before 1 := deletes_shelf before 1
  obtain ⟨hfine, -⟩ := deleteExpired_sweeps (shelf before 1) Prod.fst before 0 hv ⟨0, ⟨9⟩⟩ ()
    (t, []) hcount
  obtain ⟨-, hbroken⟩ := deleteExpired_sweeps (shelf before 1) Prod.fst before 0 hv ⟨0, ⟨9⟩⟩ ()
    (t, [none, some (.of "lock wait timeout")]) hcount
  obtain ⟨hresult, hsent, hleft⟩ := hfine (by rfl)
  rw [show due before t / max 0 1 + 1 = 3 by decide] at hsent
  obtain ⟨hfailed, -, hgone⟩ := hbroken _ (by rfl)
  exact ⟨hcount, hv, hresult, hsent, List.perm_singleton.1 hleft, hfailed, hgone⟩

end Steward.Runaway.Storage
