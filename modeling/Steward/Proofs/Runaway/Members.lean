import Steward.Proofs.Runaway.Errands
import Steward.Runaway.Pipeline

/-!
This module contains what the members of the pipeline have to do with records: each move of the loop
that gathers them is a turn of the account, and all other moves leave the records alone. So the account
can be kept whoever makes a move.
-/

namespace Steward.Runaway

/--
A move after which all is as before, but for tickers, and for what a relation of managers allows.
-/
structure Aloof (R : Manager → Manager → Prop) (me : Member) (p : Pipeline) (d : Post) (p' : Pipeline)
    (d' : Post) : Prop where
  buffer : p'.buffer = p.buffer
  move : p'.move = p.move
  stopping : p'.stopping = p.stopping
  drained : p'.drained = p.drained
  desk : d.Leaves (Monitor.Alike R) me d'

section Aloof

variable {R : Manager → Manager → Prop} (hR : Manager.Blind R) {me who : Member} {p p' : Pipeline}
  {d d' : Post}
include hR

omit hR in
theorem leaves_setManager {m : Manager} (h : R d.manager m) :
    d.Leaves (Monitor.Alike R) me (d.setManager m) := Sql.Desk.leaves_of_held h rfl

theorem aloof_proceed (hd : Sql.Desk.Attended (Monitor.Alike R) me d) (hne : who ≠ me)
    (h : p.proceed? d who = some (p', d')) : Aloof R me p d p' d' := by
  obtain ⟨r, hr, hsame⟩ := Option.map_eq_some_iff.1 h
  cases hsame
  exact ⟨rfl, rfl, rfl, rfl,
    Sql.Desk.leaves_proceed (Monitor.alike_refl hR) (Monitor.alike_trans hR) hne hd hr⟩

theorem aloof_insertLoop (hme : ∀ n, .insertion n ≠ me) (h : p.insertLoop? d = some (p', d')) :
    Aloof R me p d p' d' := by
  unfold Pipeline.insertLoop? at h
  split at h
  · cases h
  · split at h
    · cases h
    · next w quarantined _ =>
      cases h
      have hreceived : d.Leaves (Monitor.Alike R) me
          (d.setManager { d.manager with quarantined }) :=
        leaves_setManager (hR.quarantined _ _)
      exact ⟨rfl, rfl, rfl, rfl, hreceived.trans (Monitor.alike_trans hR)
        (Sql.Desk.leaves_spawn (Monitor.alike_refl hR) (hme _) (Errand.keeps_insertWatch w))⟩

theorem aloof_syncLoop (hd : Sql.Desk.Attended (Monitor.Alike R) me d) (hme : .sync ≠ me)
    (h : p.syncLoop? d = some (p', d')) : Aloof R me p d p' d' := by
  unfold Pipeline.syncLoop? at h
  split at h
  · exact aloof_proceed hR hd hme h
  · split at h
    · cases h
    · obtain ⟨t, _, hsame⟩ := Option.map_eq_some_iff.1 h
      cases hsame
      exact ⟨rfl, rfl, rfl, rfl, Sql.Desk.leaves_begin (Monitor.alike_refl hR)
        (Monitor.alike_trans hR) hme (Errand.keeps_syncWatches hR)⟩

theorem aloof_purgeLoop (h : p.purgeLoop? d = some (p', d')) : Aloof R me p d p' d' := by
  unfold Pipeline.purgeLoop? at h
  split at h
  · cases h
  · obtain ⟨t, _, hsame⟩ := Option.map_eq_some_iff.1 h
    cases hsame
    exact ⟨rfl, rfl, rfl, rfl, leaves_setManager (hR.keep _ _)⟩

theorem aloof_move (hd : Sql.Desk.Attended (Monitor.Alike R) me d) (hme : me = .flush ∨ me = .cleanup)
    (hflush : who ≠ .flush) (hcleanup : who ≠ .cleanup) (hne : who ≠ me)
    (h : p.move? d who = some (p', d')) : Aloof R me p d p' d' := by
  have hinsertion (n : Nat) : .insertion n ≠ me := by
    rcases hme with rfl | rfl <;> simp
  cases who with
  | flush => exact absurd rfl hflush
  | cleanup => exact absurd rfl hcleanup
  | insert => exact aloof_insertLoop hR hinsertion h
  | sync => exact aloof_syncLoop hR hd hne h
  | purge => exact aloof_purgeLoop hR h
  | sweep => exact aloof_proceed hR hd hne h
  | insertion n => exact aloof_proceed hR hd hne h

theorem aloof_sweep (hme : .sweep ≠ me)
    (h : ∀ (m : Manager) (n : Nat),
      R m (m.count fun c => { c with recordsCollected := c.recordsCollected + n }))
    (p : Pipeline) (d : Post) : Aloof R me p d (p.sweep d).1 (p.sweep d).2 := by
  unfold Pipeline.sweep
  split
  · exact ⟨rfl, rfl, rfl, rfl, Sql.Desk.leaves_of_held (hR.refl _) rfl⟩
  · dsimp only
    exact ⟨rfl, rfl, rfl, rfl, Sql.Desk.leaves_spawn (Monitor.alike_refl hR) hme
      (Errand.keeps_sweepRecords _ _ h)⟩

end Aloof

/--
Everybody but the loop that gathers records is on an errand that leaves the records alone, or on none.
-/
abbrev Post.Attended (d : Post) : Prop := Sql.Desk.Attended Monitor.SameRecords .flush d

structure Passes (p : Pipeline) (d : Post) (p' : Pipeline) (d' : Post) : Prop where
  buffer : p'.buffer = p.buffer
  stopping : p'.stopping = p.stopping
  drained : p'.drained = p.drained
  desk : d.Leaves Monitor.SameRecords .flush d'

theorem Aloof.passes {p p' : Pipeline} {d d' : Post}
    (h : Aloof Manager.SameRecords .flush p d p' d') : Passes p d p' d' :=
  ⟨h.buffer, h.stopping, h.drained, h.desk⟩

section Moves

variable {p p' : Pipeline} {d d' : Post}

theorem Passes.aside (h : Passes p d p' d') : Aside p d p' d' where
  buffer := h.buffer
  stopping := h.stopping
  drained := h.drained
  manager := h.desk.state
  held := h.desk.held

theorem passes_conclude (m : Move) {r : Option Bool × Post}
    (h : d.Leaves Monitor.SameRecords .flush r.2) :
    Passes p d (p.conclude m r).1 (p.conclude m r).2 := by
  unfold Pipeline.conclude
  split
  · exact ⟨rfl, rfl, rfl, h⟩
  · exact ⟨rfl, rfl, rfl, h⟩
  · dsimp only
    split
    · exact ⟨rfl, rfl, rfl, h⟩
    · exact ⟨rfl, rfl, rfl, .trans .trans h (leaves_setManager ⟨rfl, rfl, rfl, rfl, rfl⟩)⟩

theorem passes_cleanupLoop (hd : d.Attended) (h : p.cleanupLoop? d = some (p', d')) :
    Passes p d p' d' := by
  unfold Pipeline.cleanupLoop? at h
  have hidle : Passes p d p d := ⟨rfl, rfl, rfl, Sql.Desk.leaves_of_held (.refl _) rfl⟩
  split at h
  · next m _ =>
    split at h
    · obtain ⟨r, hr, hsame⟩ := Option.map_eq_some_iff.1 h
      have hpasses := passes_conclude (p := p) m
        (Sql.Desk.leaves_proceed .refl .trans (by simp) hd hr)
      rw [hsame] at hpasses
      exact hpasses
    · split at h
      · cases h
        exact { hidle with }
      · split at h
        · have hbegun : d.Leaves Monitor.SameRecords .flush
              (d.begin .cleanup (Errand.moveWatch m.watch)).2 :=
            Sql.Desk.leaves_begin .refl .trans (by simp)
              (Errand.keeps_moveWatch m.watch fun _ => ⟨rfl, rfl, rfl, rfl, rfl⟩)
          have hpasses := passes_conclude (p := p) m hbegun
          rw [Option.some.inj h] at hpasses
          exact hpasses
        · cases h
  · split at h
    · dsimp only at h
      split at h
      · cases h
        exact ⟨rfl, rfl, rfl, leaves_setManager ⟨rfl, rfl, rfl, rfl, rfl⟩⟩
      · cases h
    · obtain ⟨x, _, hsame⟩ := Option.map_eq_some_iff.1 h
      cases hsame
      exact ⟨rfl, rfl, rfl, leaves_setManager ⟨rfl, rfl, rfl, rfl, rfl⟩⟩

theorem passes_move {who : Member} (hd : d.Attended) (hne : who ≠ .flush)
    (h : p.move? d who = some (p', d')) : Passes p d p' d' := by
  by_cases hwho : who = .cleanup
  · subst hwho
    exact passes_cleanupLoop hd h
  · exact (aloof_move Manager.blind_sameRecords hd (.inl rfl) hne hwho hne h).passes

theorem attended_flush (hd : d.Attended) (h : some (p.flush d) = some (p', d')) : d'.Attended := by
  cases h
  exact Sql.Desk.Attended.begin hd _

theorem attended_gather (hd : d.Attended) (h : p.gather? d = some (p', d')) : d'.Attended := by
  unfold Pipeline.gather? at h
  split at h
  · cases h
  · dsimp only at h
    split at h
    · refine attended_flush (d := d.setManager _) ?_ h
      exact hd
    · cases h
      exact hd

theorem attended_gatherLast (hd : d.Attended) (h : p.gatherLast? d = some (p', d')) :
    d'.Attended := by
  unfold Pipeline.gatherLast? at h
  split at h
  · cases h
  · refine attended_flush (d := d.setManager _) ?_ h
    exact hd

end Moves

def Turn.isQuiet : Turn → Bool
  | .mark .. => false
  | .stop => false
  | _ => true

section Quiet

variable {a a' : Account} {p p' : Pipeline} {d d' : Post}

theorem Account.marks_flush (a : Account) (p : Pipeline) (d : Post) (isLast : Bool) :
    (a.flush p d isLast).marks = a.marks := by
  unfold Account.flush
  split <;> rfl

theorem Account.marks_gather (a : Account) (p : Pipeline) (d : Post) :
    (a.gather p d).marks = a.marks := by
  unfold Account.gather
  split
  · rfl
  · dsimp only
    split
    · exact marks_flush _ _ _ _
    · rfl

theorem stopping_gather (h : p.gather? d = some (p', d')) : p'.stopping = p.stopping := by
  unfold Pipeline.gather? at h
  split at h
  · cases h
  · dsimp only at h
    split at h <;> cases h <;> rfl

theorem stopping_gatherLast (h : p.gatherLast? d = some (p', d')) : p'.stopping = p.stopping := by
  unfold Pipeline.gatherLast? at h
  split at h <;> cases h
  rfl

theorem marks_of_quiet {t : Turn} (hquiet : t.isQuiet) (ht : a.take? p d t = some (a', p', d')) :
    a'.marks = a.marks ∧ p'.stopping = p.stopping := by
  unfold Account.take? at ht
  cases t with
  | mark q action detection start cause => cases hquiet
  | stop => cases hquiet
  | gather =>
    dsimp only at ht
    split at ht
    · cases ht
    · obtain ⟨x, hmove, hsame⟩ := Option.map_eq_some_iff.1 ht
      cases hsame
      exact ⟨a.marks_gather p d, stopping_gather hmove⟩
  | tick next =>
    dsimp only at ht
    split at ht <;> cases ht
    exact ⟨a.marks_flush p d false, rfl⟩
  | answer =>
    obtain ⟨r, _, hsame⟩ := Option.map_eq_some_iff.1 ht
    cases hsame
    exact ⟨rfl, rfl⟩
  | gatherLast =>
    dsimp only at ht
    split at ht
    · cases ht
    · obtain ⟨x, hmove, hsame⟩ := Option.map_eq_some_iff.1 ht
      cases hsame
      exact ⟨Account.marks_flush _ _ _ _, stopping_gatherLast hmove⟩

end Quiet

/--
These are all marks so far, and an account was kept of them.
-/
structure Kept (s : Settings) (stopping : Bool) (marks : List (Record × Bool)) (p : Pipeline)
    (d : Post) : Prop where
  recorded : ∃ a, Recorded s a p d ∧ a.marks = marks
  stopping : p.stopping = stopping
  attended : d.Attended

section Kept

variable {s : Settings} {stopping : Bool} {marks : List (Record × Bool)} {p p' : Pipeline}
  {d d' : Post}

theorem Kept.turn (h : Kept s stopping marks p d) {t : Turn} (hquiet : t.isQuiet)
    (ht : ∀ a : Account, ∃ a', a.take? p d t = some (a', p', d')) (hd : d'.Attended) :
    Kept s stopping marks p' d' := by
  obtain ⟨a, hrecorded, hmarks⟩ := h.recorded
  obtain ⟨a', hturn⟩ := ht a
  obtain ⟨hsame, hstopping⟩ := marks_of_quiet hquiet hturn
  exact ⟨⟨a', hrecorded.turn t hturn, hsame.trans hmarks⟩, hstopping.trans h.stopping, hd⟩

theorem Kept.passes (h : Kept s stopping marks p d) (hpasses : Passes p d p' d') :
    Kept s stopping marks p' d' := by
  obtain ⟨a, hrecorded, hmarks⟩ := h.recorded
  exact ⟨⟨a, hrecorded.aside hpasses.aside, hmarks⟩, hpasses.stopping.trans h.stopping,
    hpasses.desk.attended h.attended⟩

theorem Kept.drained (h : Kept s stopping marks p d) (hdrained : p.drained = true) :
    p.stopping = true := by
  obtain ⟨a, hrecorded, _⟩ := h.recorded
  exact ((balanced_of_recorded hrecorded).1.drained hdrained).1

theorem Kept.flushLoop (h : Kept s stopping marks p d) (hmove : p.flushLoop? d = some (p', d')) :
    Kept s stopping marks p' d' := by
  unfold Pipeline.flushLoop? at hmove
  split at hmove
  · -- It waits for a batch to be written.
    obtain ⟨r, hr, hsame⟩ := Option.map_eq_some_iff.1 hmove
    cases hsame
    exact h.turn (t := .answer) rfl (fun a => ⟨a.answer r.1, by simp [Account.take?, hr]⟩)
      (Sql.Desk.Attended.proceed h.attended hr)
  · next hfree =>
    split at hmove
    · next hstop =>
      exact h.turn (t := .gatherLast) rfl
        (fun a => ⟨a.gatherLast p d, by simp [Account.take?, hstop, hfree, hmove]⟩)
        (attended_gatherLast h.attended hmove)
    · next hgoing =>
      have hopen : p.drained = false := Bool.eq_false_iff.2 fun hnow => hgoing (h.drained hnow)
      cases hgather : p.gather? d with
      | some x =>
        rw [hgather] at hmove
        cases hmove
        exact h.turn (t := .gather) rfl
          (fun a => ⟨a.gather p d, by simp [Account.take?, hopen, hfree, hgather]⟩)
          (attended_gather h.attended hgather)
      | none =>
        rw [hgather] at hmove
        cases htick : p.flushTick.tick? d.clock with
        | some next =>
          rw [htick] at hmove
          have hflushed : { p with flushTick := next }.flush d = (p', d') := Option.some.inj hmove
          refine h.turn (t := .tick next) rfl (fun a => ⟨a.flush p d false, ?_⟩)
            (attended_flush h.attended hmove)
          rw [← hflushed]
          simp [Account.take?, hopen, hfree]
        | none =>
          -- A sweep is left to a member of its own.
          rw [htick] at hmove
          obtain ⟨next, _, hsame⟩ := Option.map_eq_some_iff.1 hmove
          have hticked : Passes p d { p with sweepTick := next } d :=
            ⟨rfl, rfl, rfl, Sql.Desk.leaves_of_held (.refl _) rfl⟩
          have hne : Member.sweep ≠ .flush := by simp
          have hswept := (aloof_sweep Manager.blind_sameRecords hne
            (fun _ _ => ⟨rfl, rfl, rfl, rfl, rfl⟩) { p with sweepTick := next } d).passes
          rw [hsame] at hswept
          exact (h.passes hticked).passes hswept

theorem Kept.move (h : Kept s stopping marks p d) {who : Member}
    (hmove : p.move? d who = some (p', d')) : Kept s stopping marks p' d' := by
  by_cases hwho : who = .flush
  · subst hwho
    exact h.flushLoop hmove
  · exact h.passes (passes_move h.attended hwho hmove)

theorem Kept.mark (h : Kept s false marks p d) (q : Query) (action : Action) (detection : Detection)
    (start : Moment) (cause : String) :
    let r := d.manager.recordOf q action detection start cause
    Kept s false (marks ++ [(r, (d.manager.records.send? r).isSome)]) p
      (d.setManager (d.manager.markRunaway q action detection start cause)) := by
  obtain ⟨a, hrecorded, hmarks⟩ := h.recorded
  have hopen : p.drained = false := Bool.eq_false_iff.2 fun hnow =>
    Bool.false_ne_true (h.stopping.symm.trans (h.drained hnow))
  refine ⟨⟨_, hrecorded.turn (.mark q action detection start cause)
    (by simp only [Account.take?, hopen]; rfl), ?_⟩, h.stopping, h.attended⟩
  rw [← hmarks]
  rfl

theorem Kept.stop (h : Kept s stopping marks p d) : Kept s true marks (p.stop d).1 (p.stop d).2 := by
  obtain ⟨a, hrecorded, hmarks⟩ := h.recorded
  exact ⟨⟨a, hrecorded.turn .stop rfl, hmarks⟩, rfl, h.attended⟩

end Kept

end Steward.Runaway
