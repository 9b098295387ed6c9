import Steward.Proofs.Runaway.Members
import Steward.Proofs.Runaway.Whole

/-!
This module contains how the loop that cleans up attends to a stale row: it tries to move the row until
it succeeds or has tried often enough, and then counts it once. All other loops may go on meanwhile.
-/

namespace Steward.Runaway

open Sql (Dialogue Held Pending Statement Trouble)

/--
Nothing happened to what is counted of the moves of stale rows.
-/
structure Manager.SameCleanups (m m' : Manager) : Prop where
  settings : m'.settings = m.settings
  cleanups : m'.metrics.staleCleanups = m.metrics.staleCleanups
  failures : m'.metrics.staleCleanupFailures = m.metrics.staleCleanupFailures

theorem Manager.blind_sameCleanups : Manager.Blind Manager.SameCleanups where
  refl _ := ⟨rfl, rfl, rfl⟩
  trans h h' := {
    settings := h'.settings.trans h.settings
    cleanups := h'.cleanups.trans h.cleanups
    failures := h'.failures.trans h.failures }
  list _ _ := ⟨rfl, rfl, rfl⟩
  stale _ _ := ⟨rfl, rfl, rfl⟩
  quarantined _ _ := ⟨rfl, rfl, rfl⟩
  staleDropped _ := ⟨rfl, rfl, rfl⟩
  quarantinesDropped _ := ⟨rfl, rfl, rfl⟩
  watchesSynced _ := ⟨rfl, rfl, rfl⟩

abbrev Monitor.SameCleanups : Monitor → Monitor → Prop := Monitor.Alike Manager.SameCleanups

structure Skips (p : Pipeline) (d : Post) (p' : Pipeline) (d' : Post) : Prop where
  move : p'.move = p.move
  stopping : p'.stopping = p.stopping
  desk : d.Leaves Monitor.SameCleanups .cleanup d'

section Skips

variable {p p' : Pipeline} {d d' : Post}

theorem Aloof.skips (h : Aloof Manager.SameCleanups .cleanup p d p' d') : Skips p d p' d' :=
  ⟨h.move, h.stopping, h.desk⟩

theorem Skips.of_setManager {m : Manager} (hm : d.manager.SameCleanups m)
    (h : Skips p (d.setManager m) p' d') : Skips p d p' d' :=
  ⟨h.move, h.stopping, (leaves_setManager hm).trans (Monitor.alike_trans Manager.blind_sameCleanups)
    h.desk⟩

theorem skips_flush (p : Pipeline) (d : Post) : Skips p d (p.flush d).1 (p.flush d).2 :=
  ⟨rfl, rfl, Sql.Desk.leaves_begin (Monitor.alike_refl Manager.blind_sameCleanups)
    (Monitor.alike_trans Manager.blind_sameCleanups) (by simp)
    (Errand.keeps_writeRecords _ (fun _ _ => ⟨rfl, rfl, rfl⟩) fun _ => ⟨rfl, rfl, rfl⟩)⟩

theorem skips_gather (h : p.gather? d = some (p', d')) : Skips p d p' d' := by
  unfold Pipeline.gather? at h
  split at h
  · cases h
  · next r records _ =>
    have hreceived : d.manager.SameCleanups { d.manager with records } := ⟨rfl, rfl, rfl⟩
    dsimp only at h
    split at h
    · have hflushed := skips_flush { p with buffer := p.buffer.add r }
        (d.setManager { d.manager with records })
      rw [Option.some.inj h] at hflushed
      exact .of_setManager hreceived ⟨hflushed.move, hflushed.stopping, hflushed.desk⟩
    · cases h
      exact ⟨rfl, rfl, leaves_setManager hreceived⟩

theorem skips_gatherLast (h : p.gatherLast? d = some (p', d')) : Skips p d p' d' := by
  unfold Pipeline.gatherLast? at h
  split at h
  · cases h
  · have hdrained : d.manager.SameCleanups
        { d.manager with records := d.manager.records.drained } := ⟨rfl, rfl, rfl⟩
    have hflushed := skips_flush
      { p with buffer := d.manager.records.items.foldl Buffer.add p.buffer, drained := true }
      (d.setManager { d.manager with records := d.manager.records.drained })
    rw [Option.some.inj h] at hflushed
    exact .of_setManager hdrained ⟨hflushed.move, hflushed.stopping, hflushed.desk⟩

theorem skips_flushLoop (hd : Sql.Desk.Attended Monitor.SameCleanups .cleanup d)
    (h : p.flushLoop? d = some (p', d')) : Skips p d p' d' := by
  unfold Pipeline.flushLoop? at h
  split at h
  · exact (aloof_proceed Manager.blind_sameCleanups hd (by simp) h).skips
  · split at h
    · exact skips_gatherLast h
    · rcases (Option.orElse_eq_some _ _ _).1 h with hgather | ⟨_, h⟩
      · exact skips_gather hgather
      · rcases (Option.orElse_eq_some _ _ _).1 h with htick | ⟨_, htick⟩
        · obtain ⟨next, _, hsame⟩ := Option.map_eq_some_iff.1 htick
          have hflushed := skips_flush { p with flushTick := next } d
          rw [hsame] at hflushed
          exact ⟨hflushed.move, hflushed.stopping, hflushed.desk⟩
        · obtain ⟨next, _, hsame⟩ := Option.map_eq_some_iff.1 htick
          have hne : Member.sweep ≠ .cleanup := by simp
          have hswept := aloof_sweep Manager.blind_sameCleanups hne
            (fun _ _ => ⟨rfl, rfl, rfl⟩) { p with sweepTick := next } d
          rw [hsame] at hswept
          exact ⟨hswept.move, hswept.stopping, hswept.desk⟩

theorem skips_move {who : Member} (hd : Sql.Desk.Attended Monitor.SameCleanups .cleanup d)
    (hne : who ≠ .cleanup) (h : p.move? d who = some (p', d')) : Skips p d p' d' := by
  by_cases hwho : who = .flush
  · subst hwho
    exact skips_flushLoop hd h
  · exact (aloof_move Manager.blind_sameCleanups hd (.inr rfl) hwho hne hne h).skips

end Skips

namespace Errand

def settleMove : Errand := do
  count fun c => { c with staleCleanups := c.staleCleanups + 1 }
  return true

/--
What is left of the move of a row: at most so many statements, and at the end the row is counted if it
was moved.
-/
inductive Moving : Nat → Errand → Prop
  | failed (n : Nat) : Moving n (.done false)
  | moved (n : Nat) : Moving n settleMove
  | acquire {n : Nat} {k : Except Trouble Unit → Errand} (h : ∀ r, Moving n (k r)) :
    Moving n (.acquire k)
  | send {n : Nat} {st : Statement} {k : Except Trouble Sql.Reply → Errand} (h : ∀ r, Moving n (k r)) :
    Moving (n + 1) (.send st k)
  | release {n : Nat} {next : Errand} (h : Moving n next) : Moving n (.release next)

def counted (ok : Bool) (s : Monitor) : Monitor :=
  if ok then { s with
    manager := s.manager.count fun c => { c with staleCleanups := c.staleCleanups + 1 } }
  else s

/--
Where the move of a row may stand after it was held for a while.
-/
inductive Held (n : Nat) (s : Monitor) : Dialogue.Standing Monitor Bool × Monitor × Sql.Pool → Prop
  | ended (ok : Bool) (p : Sql.Pool) : Held n s (.ended ok, counted ok s, p)
  | waiting {m : Nat} {w : Pending Monitor Bool} (p : Sql.Pool) (hm : m < n)
    (hw : ∀ r, Moving m (w.k r)) : Held n s (.waiting w, s, p)

theorem Held.mono {n n' : Nat} {s : Monitor} {x : Dialogue.Standing Monitor Bool × Monitor × Sql.Pool}
    (h : Held n s x) (hn : n ≤ n') : Held n' s x := by
  cases h with
  | ended ok p => exact .ended ok p
  | waiting p hm hw => exact .waiting p (Nat.lt_of_lt_of_le hm hn) hw

theorem Moving.advance {n : Nat} {t : Errand} (h : Moving n t) (now : Now) (s : Monitor)
    (p : Sql.Pool) : Held n s (t.advance now s p) := by
  -- The row is counted at the very end, and nothing else changes.
  induction h generalizing p with
  | failed n => exact .ended false p
  | moved n => exact .ended true p
  | acquire h ih => exact ih _ _
  | send h ih =>
    rw [Dialogue.advance]
    dsimp only
    split
    · exact (ih _ _).mono (Nat.le_succ _)
    · exact .waiting _ (Nat.lt_succ_self _) h
  | release h ih => exact ih _

section Move

def afterMove : Except Trouble Unit → Errand
  | .ok () => settleMove
  | .error _ => .done false

theorem moving_giveUp (w : Watch) (t : Trouble) (n : Nat) :
    Moving (n + 1) ((Storage.giveUp w t).bind afterMove) :=
  .send fun _ => .release (.failed n)

theorem moving_moveToDone (w : Watch) (done : Moment) :
    Moving 5 ((Storage.moveToDone w done : Exchange Monitor Unit).run.bind afterMove) := by
  rw [Storage.moveToDone_eq]
  refine .acquire fun session => ?_
  cases session with
  | error t => exact .failed 5
  | ok u =>
    refine .send fun begun => ?_
    cases begun with
    | error t => exact .release (.failed 4)
    | ok r =>
      refine .send fun copied => ?_
      cases copied with
      | error t => exact moving_giveUp w _ 2
      | ok r =>
        refine .send fun deleted => ?_
        cases deleted with
        | error t => exact moving_giveUp w _ 1
        | ok r =>
          refine .send fun committed => ?_
          cases committed with
          | error t => exact moving_giveUp w _ 0
          | ok r => exact .release (.moved 1)

theorem moveWatch_eq (w : Watch) : moveWatch w =
    .look fun now _ => (Storage.moveToDone w now.wall).run.bind afterMove := by
  unfold moveWatch
  refine congrArg Dialogue.look (funext fun now => funext fun _ => ?_)
  refine congrArg (Dialogue.bind _) (funext fun r => ?_)
  cases r <;> rfl

theorem held_moveWatch (w : Watch) (now : Now) (s : Monitor) (p : Sql.Pool) :
    Held 5 s ((moveWatch w).advance now s p) := by
  rw [moveWatch_eq, Dialogue.advance]
  exact (moving_moveToDone w now.wall).advance now s p

end Move

end Errand

inductive Post.Came (n : Nat) (d : Post) : Option Bool × Post → Prop
  | ended {d' : Post} (ok : Bool) (hstate : d'.state = Errand.counted ok d.state)
    (hheld : d'.held = d.held) : Came n d (some ok, d')
  | waiting {d' : Post} {m : Nat} {w : Pending Monitor Bool} (hm : m < n)
    (hw : ∀ r, Errand.Moving m (w.k r)) (hstate : d'.state = d.state)
    (hheld : d'.held = (.cleanup, .waiting w) :: d.held) : Came n d (none, d')

namespace Post

variable {d : Post} {n : Nat}

theorem came_keep {x : Dialogue.Standing Monitor Bool × Monitor × Sql.Pool}
    (h : Errand.Held n d.state x) : Came n d (Sql.Desk.keep .cleanup (d.put x)) := by
  cases h with
  | ended ok p => exact .ended ok rfl rfl
  | waiting p hm hw => exact .waiting hm hw rfl rfl

theorem came_begin (d : Post) (w : Watch) : Came 5 d (d.begin .cleanup (Errand.moveWatch w)) :=
  came_keep (Errand.held_moveWatch w _ _ _)

theorem came_proceed {w : Pending Monitor Bool} {r : Option Bool × Post}
    (hheld : d.held.lookup .cleanup = some (.waiting w)) (hw : ∀ r, Errand.Moving n (w.k r))
    (hr : d.proceed? .cleanup = some r) :
    Came n { d with held := d.held.filter (·.1 ≠ .cleanup) } r := by
  unfold Sql.Desk.proceed? at hr
  rw [hheld] at hr
  dsimp only at hr
  split at hr
  · cases hr
    exact came_keep ((hw _).advance _ _ _)
  · cases hr

end Post

/--
What the loop that cleans up did for a stale row since the row was received.
-/
structure Chore where
  watch : Watch
  /-- What was counted when the row was received. -/
  before : Metrics
  /-- The number of its moves. -/
  moves : Nat
  /-- How each try to move the row ended, if it has. -/
  tries : List (Option Bool)
deriving DecidableEq

namespace Chore

/--
The loop made one more move for its row: the last try went on, or another one was begun.
-/
def goOn (c : Chore) (d : Post) : Chore :=
  { c with
    moves := c.moves + 1
    tries :=
      match d.proceed? .cleanup with
      | some r => c.tries.modifyLast fun _ => r.1
      | none => c.tries ++ [(d.begin .cleanup (Errand.moveWatch c.watch)).1] }

/--
The chore after the loop made a move from a pipeline and a desk to another pipeline.
-/
def after (p : Pipeline) (d : Post) (p' : Pipeline) (c : Option Chore) : Option Chore :=
  match p.move with
  | none => p'.move.map fun m => ⟨m.watch, d.manager.metrics, 0, []⟩
  | some _ => c.map (·.goOn d)

end Chore

/--
A server came to this from its start while the loops were going on, in whatever order things happened,
and the last row that was received for cleanup has this chore.
-/
inductive Tended (s : Settings) : Option Chore → Pipeline → Post → Prop
  | start {d : Post} (now : Nat) (hd : d.manager = .ofSettings s) (hheld : d.held = []) :
    Tended s none (.start s now) d
  | cleanup {c : Option Chore} {p p' : Pipeline} {d d' : Post} (h : Tended s c p d)
    (hmove : p.cleanupLoop? d = some (p', d')) : Tended s (Chore.after p d p' c) p' d'
  | member {c : Option Chore} {p p' : Pipeline} {d d' : Post} {who : Member} (h : Tended s c p d)
    (hne : who ≠ .cleanup) (hmove : p.move? d who = some (p', d')) : Tended s c p' d'
  /-- The foreground may do anything but count moves of rows and hold errands of the loops. -/
  | foreground {c : Option Chore} {p : Pipeline} {d d' : Post} (h : Tended s c p d)
    (hheld : d'.held = d.held) (hsame : d.manager.SameCleanups d'.manager) : Tended s c p d'

def Settings.tries (s : Settings) : Nat := max s.cleanupAttempts 1

/--
What is counted of the moves of rows is as it was, but for so many rows that were moved and so many
that were given up.
-/
structure Metrics.More (moved givenUp : Nat) (before now : Metrics) : Prop where
  cleanups : now.staleCleanups = before.staleCleanups + moved
  failures : now.staleCleanupFailures = before.staleCleanupFailures + givenUp

/--
Where the loop stands with its row: it has received none yet, it is to try the move, it waits for an
answer, it has moved the row, or it has given up. No try takes more than six moves.
-/
inductive Chore.Stands (s : Settings) :
    Option Chore → Option Move → Option (Held Monitor Bool) → Metrics → Prop
  | idle (now : Metrics) : Stands s none none none now
  | toTry {c : Chore} {m : Move} {now : Metrics} {k : Nat} (hk : k < s.tries)
    (hwatch : m.watch = c.watch) (hattempt : m.attempt = k + 1)
    (htries : c.tries = List.replicate k (some false)) (hmoves : c.moves ≤ 6 * k)
    (hnow : c.before.More 0 0 now) : Stands s (some c) (some m) none now
  | waiting {c : Chore} {m : Move} {w : Pending Monitor Bool} {now : Metrics} {k n : Nat}
    (hk : k < s.tries) (hwatch : m.watch = c.watch) (hattempt : m.attempt = k + 1)
    (htries : c.tries = List.replicate k (some false) ++ [none])
    (hmoves : c.moves + n + 1 ≤ 6 * (k + 1)) (hw : ∀ r, Errand.Moving n (w.k r))
    (hnow : c.before.More 0 0 now) : Stands s (some c) (some m) (some (.waiting w)) now
  | moved {c : Chore} {now : Metrics} {k : Nat} (hk : k < s.tries)
    (htries : c.tries = List.replicate k (some false) ++ [some true])
    (hmoves : c.moves ≤ 6 * (k + 1)) (hnow : c.before.More 1 0 now) : Stands s (some c) none none now
  | givenUp {c : Chore} {now : Metrics} (htries : c.tries = List.replicate s.tries (some false))
    (hmoves : c.moves ≤ 6 * s.tries) (hnow : c.before.More 0 1 now) : Stands s (some c) none none now

/--
The loop stands well with its row, and everybody else is on an errand that does not count it.
-/
structure Tidy (s : Settings) (c : Option Chore) (p : Pipeline) (d : Post) : Prop where
  settings : d.manager.settings = s
  going : p.stopping = false
  attended : Sql.Desk.Attended Monitor.SameCleanups .cleanup d
  stands : Chore.Stands s c p.move (d.held.lookup .cleanup) d.manager.metrics

section Tidy

variable {s : Settings} {c : Option Chore} {p p' : Pipeline} {d d' : Post}

theorem Metrics.More.of_same {m m' : Manager} {before : Metrics} {moved givenUp : Nat}
    (h : before.More moved givenUp m.metrics) (hsame : m.SameCleanups m') :
    before.More moved givenUp m'.metrics :=
  ⟨hsame.cleanups.trans h.cleanups, hsame.failures.trans h.failures⟩

theorem Chore.Stands.of_same {move : Option Move} {held : Option (Held Monitor Bool)} {m m' : Manager}
    (h : Chore.Stands s c move held m.metrics) (hsame : m.SameCleanups m') :
    Chore.Stands s c move held m'.metrics := by
  cases h with
  | idle => exact .idle _
  | toTry hk hwatch hattempt htries hmoves hnow =>
    exact .toTry hk hwatch hattempt htries hmoves (hnow.of_same hsame)
  | waiting hk hwatch hattempt htries hmoves hw hnow =>
    exact .waiting hk hwatch hattempt htries hmoves hw (hnow.of_same hsame)
  | moved hk htries hmoves hnow => exact .moved hk htries hmoves (hnow.of_same hsame)
  | givenUp htries hmoves hnow => exact .givenUp htries hmoves (hnow.of_same hsame)

theorem Tidy.skips (h : Tidy s c p d) (hskips : Skips p d p' d') : Tidy s c p' d' where
  settings := hskips.desk.state.settings.trans h.settings
  going := hskips.stopping.trans h.going
  attended := hskips.desk.attended h.attended
  stands := by
    rw [hskips.move, hskips.desk.held]
    exact h.stands.of_same hskips.desk.state

theorem tidy_failed {c : Chore} {m : Move} {k : Nat} (hsettings : d.manager.settings = s)
    (hgoing : p.stopping = false) (hattended : Sql.Desk.Attended Monitor.SameCleanups .cleanup d)
    (hfree : d.held.lookup .cleanup = none) (hk : k < s.tries) (hwatch : m.watch = c.watch)
    (hattempt : m.attempt = k + 1) (htries : c.tries = List.replicate (k + 1) (some false))
    (hmoves : c.moves ≤ 6 * (k + 1)) (hnow : c.before.More 0 0 d.manager.metrics) :
    Tidy s (some c) (p.conclude m (some false, d)).1 (p.conclude m (some false, d)).2 := by
  unfold Pipeline.conclude
  dsimp only
  rw [hsettings, hgoing, hattempt]
  split
  · next hmore =>
    refine ⟨hsettings, rfl, hattended, ?_⟩
    dsimp only [Bool.false_eq_true]
    rw [hfree, if_neg Bool.false_ne_true]
    exact .toTry hmore hwatch rfl htries hmoves hnow
  · next hlast =>
    have hlimit : s.tries ≤ k + 1 := Nat.le_of_not_lt hlast
    have hall : k + 1 = s.tries := by omega
    rw [hall] at htries hmoves
    refine ⟨hsettings, rfl, hattended, ?_⟩
    dsimp only
    rw [Post.manager_setManager]
    exact hfree ▸ .givenUp htries hmoves ⟨hnow.cleanups, congrArg (· + 1) hnow.failures⟩

theorem tidy_conclude {c : Chore} {m : Move} {k n : Nat} {r : Option Bool × Post}
    (hsettings : d.manager.settings = s) (hgoing : p.stopping = false)
    (hattended : Sql.Desk.Attended Monitor.SameCleanups .cleanup r.2) (hmove : p.move = some m)
    (hfree : d.held.lookup .cleanup = none) (hcame : d.Came n r) (hk : k < s.tries)
    (hwatch : m.watch = c.watch) (hattempt : m.attempt = k + 1)
    (htries : c.tries = List.replicate k (some false) ++ [r.1]) (hmoves : c.moves + n ≤ 6 * (k + 1))
    (hnow : c.before.More 0 0 d.manager.metrics) :
    Tidy s (some c) (p.conclude m r).1 (p.conclude m r).2 := by
  cases hcame with
  | @waiting d' n' w hn hw hstate hheld =>
    have hmanager : d'.manager = d.manager := congrArg Monitor.manager hstate
    refine ⟨(congrArg Manager.settings hmanager).trans hsettings, hgoing, hattended, ?_⟩
    unfold Pipeline.conclude
    dsimp only
    rw [hmove, hmanager, hheld, List.lookup_cons_self]
    exact .waiting hk hwatch hattempt htries (by omega) hw hnow
  | @ended d' ok hstate hheld =>
    have hmanager : d'.manager = (Errand.counted ok d.state).manager :=
      congrArg Monitor.manager hstate
    have hfree' : d'.held.lookup .cleanup = none := by rw [hheld, hfree]
    cases ok with
    | true =>
      refine ⟨(congrArg Manager.settings hmanager).trans hsettings, hgoing, hattended, ?_⟩
      unfold Pipeline.conclude
      dsimp only
      rw [hfree', hmanager]
      exact .moved hk htries (by omega) ⟨congrArg (· + 1) hnow.cleanups, hnow.failures⟩
    | false =>
      have hsame : d'.manager = d.manager := hmanager
      rw [← hsame] at hsettings hnow
      exact tidy_failed hsettings hgoing hattended hfree' hk hwatch hattempt
        (htries.trans List.replicate_succ'.symm) (by omega) hnow

theorem lookup_filter_self {me : Member} (held : List (Member × Held Monitor Bool)) :
    (held.filter (·.1 ≠ me)).lookup me = none := by
  rw [List.lookup_eq_none_iff]
  intro x hx
  have hne := of_decide_eq_true (List.mem_filter.1 hx).2
  exact bne_iff_ne.2 (Ne.symm hne)

theorem Tidy.answer {m : Move} {r : Option Bool × Post} (h : Tidy s c p d) (hmove : p.move = some m)
    (hr : d.proceed? .cleanup = some r) :
    Tidy s (c.map (·.goOn d)) (p.conclude m r).1 (p.conclude m r).2 := by
  have hstands := h.stands
  rw [hmove] at hstands
  generalize hheld : d.held.lookup .cleanup = held at hstands
  cases hstands with
  | toTry =>
    unfold Sql.Desk.proceed? at hr
    rw [hheld] at hr
    cases hr
  | @waiting c _ w _ k n hk hwatch hattempt htries hmoves hw hnow =>
    rw [Option.map_some]
    -- The errand is taken off the list before it goes on, so nothing is held for the loop.
    refine tidy_conclude (d := { d with held := d.held.filter (·.1 ≠ .cleanup) }) h.settings h.going
      (Sql.Desk.Attended.proceed h.attended hr) hmove (lookup_filter_self _)
      (Post.came_proceed hheld hw hr) hk hwatch hattempt ?_ ?_ hnow
    · unfold Chore.goOn
      rw [hr, htries]
      exact List.modifyLast_concat _ _ _
    · have hgone : (c.goOn d).moves = c.moves + 1 := rfl
      omega

theorem Tidy.try {m : Move} (h : Tidy s c p d) (hmove : p.move = some m)
    (hfree : d.held.lookup .cleanup = none) :
    let r := d.begin .cleanup (Errand.moveWatch m.watch)
    Tidy s (c.map (·.goOn d)) (p.conclude m r).1 (p.conclude m r).2 := by
  intro r
  have hstands := h.stands
  rw [hmove, hfree] at hstands
  cases hstands with
  | @toTry c _ _ k hk hwatch hattempt htries hmoves hnow =>
    have hnothing : d.proceed? .cleanup = none := by
      unfold Sql.Desk.proceed?
      rw [hfree]
    rw [Option.map_some]
    refine tidy_conclude h.settings h.going (Sql.Desk.Attended.begin h.attended _) hmove hfree
      (Post.came_begin d m.watch) hk hwatch hattempt ?_ ?_ hnow
    · unfold Chore.goOn
      rw [hnothing, htries, ← hwatch]
    · have hgone : (c.goOn d).moves = c.moves + 1 := rfl
      omega

theorem Tidy.receive (h : Tidy s c p d) (hmove : p.move = none) {w : Watch} {stale : Channel Watch} :
    Tidy s (some ⟨w, d.manager.metrics, 0, []⟩) { p with move := some ⟨w, 1, d.clock⟩ }
      (d.setManager { d.manager with stale }) where
  settings := h.settings
  going := h.going
  attended := h.attended
  stands := by
    have hfree : d.held.lookup .cleanup = none := by
      have hstands := h.stands
      rw [hmove] at hstands
      generalize d.held.lookup .cleanup = held at hstands
      cases hstands <;> rfl
    show Chore.Stands s _ _ (d.held.lookup .cleanup) d.manager.metrics
    rw [hfree]
    exact .toTry (Nat.lt_of_lt_of_le Nat.one_pos (Nat.le_max_right _ _)) rfl rfl rfl (Nat.le_refl _)
      ⟨rfl, rfl⟩

theorem Tidy.cleanup (h : Tidy s c p d) (hmove : p.cleanupLoop? d = some (p', d')) :
    Tidy s (Chore.after p d p' c) p' d' := by
  have hgoing : ¬ p.stopping = true := by simp [h.going]
  unfold Pipeline.cleanupLoop? at hmove
  cases hm : p.move with
  | some m =>
    have hafter : Chore.after p d p' c = c.map (·.goOn d) := by
      unfold Chore.after
      rw [hm]
    rw [hm] at hmove
    dsimp only at hmove
    rw [hafter]
    split at hmove
    · obtain ⟨r, hr, hsame⟩ := Option.map_eq_some_iff.1 hmove
      have hanswered := h.answer hm hr
      rw [hsame] at hanswered
      exact hanswered
    · next hfree =>
      split at hmove
      · have htried := h.try hm (isHeld_eq_false_iff.1 (Bool.eq_false_iff.2 hfree))
        dsimp only at htried
        rw [Option.some.inj hmove] at htried
        exact htried
      · cases hmove
  | none =>
    rw [hm] at hmove
    dsimp only at hmove
    rw [if_neg hgoing] at hmove
    obtain ⟨⟨w, stale⟩, _, hsame⟩ := Option.map_eq_some_iff.1 hmove
    cases hsame
    have hafter : Chore.after p d { p with move := some ⟨w, 1, d.clock⟩ } c =
        some ⟨w, d.manager.metrics, 0, []⟩ := by
      unfold Chore.after
      rw [hm]
      rfl
    rw [hafter]
    exact h.receive hm

theorem tidy_of_tended (h : Tended s c p d) : Tidy s c p d := by
  induction h with
  | @start d now hd hheld =>
    refine ⟨congrArg Manager.settings hd, rfl, ?_, ?_⟩
    · unfold Sql.Desk.Attended
      rw [hheld]
      exact fun _ hx => absurd hx List.not_mem_nil
    · rw [hheld]
      exact .idle _
  | cleanup _ hmove ih => exact ih.cleanup hmove
  | member _ hne hmove ih => exact ih.skips (skips_move ih.attended hne hmove)
  | foreground _ hheld hsame ih =>
    exact ih.skips ⟨rfl, rfl, Sql.Desk.leaves_of_held hsame hheld⟩

end Tidy

/--
A chore is done well: the row is tried often enough but not too often, nothing is tried after a success,
and at the end the row is counted once. Until then nothing is counted, and the loop goes on as soon as
it is time. It makes no more than six moves for a try.
-/
structure Chore.Sound (s : Settings) (c : Chore) (p : Pipeline) (d : Post) : Prop where
  tries : c.tries.length ≤ s.tries
  failed : ∀ o ∈ c.tries.dropLast, o = some false
  moves : c.moves ≤ 6 * s.tries
  going : p.move ≠ none → some true ∉ c.tries ∧ c.before.More 0 0 d.manager.metrics ∧
    ∃ time, ∀ clock, time ≤ clock → (p.cleanupLoop? { d with clock }).isSome
  ended : p.move = none →
    c.tries.getLast? = some (some true) ∧ c.before.More 1 0 d.manager.metrics ∨
      c.tries = List.replicate s.tries (some false) ∧ c.before.More 0 1 d.manager.metrics

section Sound

variable {s : Settings} {c : Chore} {p : Pipeline} {d : Post}

theorem isSome_cleanupLoop {m : Move} (hmove : p.move = some m) (hgoing : p.stopping = false)
    (hheld : ∀ h, d.held.lookup .cleanup = some h → ∃ w, h = .waiting w) :
    ∃ time, ∀ clock, time ≤ clock → (p.cleanupLoop? { d with clock }).isSome := by
  unfold Pipeline.cleanupLoop?
  rw [hmove]
  dsimp only
  cases hlookup : d.held.lookup .cleanup with
  | none =>
    refine ⟨m.due, fun clock hclock => ?_⟩
    have hfree : Sql.Desk.isHeld { d with clock } .cleanup = false := isHeld_eq_false_iff.2 hlookup
    rw [hfree, hgoing]
    simp [hclock]
  | some h =>
    obtain ⟨w, rfl⟩ := hheld h hlookup
    refine ⟨w.due, fun clock hclock => ?_⟩
    have hbusy : Sql.Desk.isHeld { d with clock } .cleanup = true := by
      by_contra hnot
      cases hlookup.symm.trans (isHeld_eq_false_iff.1 (Bool.eq_false_iff.2 hnot))
    rw [if_pos hbusy, Option.isSome_map]
    unfold Sql.Desk.proceed?
    dsimp only
    rw [hlookup]
    simp [hclock]

theorem Tidy.sound (h : Tidy s (some c) p d) : c.Sound s p d := by
  have hdropLast {k : Nat} : ∀ o ∈ List.replicate k (some false), o = some false :=
    fun o ho => List.eq_of_mem_replicate ho
  have hstands := h.stands
  generalize hmove : p.move = move at hstands
  generalize hheld : d.held.lookup .cleanup = held at hstands
  cases hstands with
  | toTry hk hwatch hattempt htries hmoves hnow =>
    refine ⟨?_, ?_, by omega, fun _ => ⟨?_, hnow, ?_⟩, fun hnone => nomatch hmove.symm.trans hnone⟩
    · rw [htries, List.length_replicate]
      omega
    · rw [htries]
      exact fun o ho => hdropLast o (List.mem_of_mem_dropLast ho)
    · rw [htries]
      exact fun hmem => nomatch hdropLast _ hmem
    · exact isSome_cleanupLoop hmove h.going fun _ hsome => nomatch hheld.symm.trans hsome
  | waiting hk hwatch hattempt htries hmoves hw hnow =>
    refine ⟨?_, ?_, by omega, fun _ => ⟨?_, hnow, ?_⟩, fun hnone => nomatch hmove.symm.trans hnone⟩
    · rw [htries, List.length_append, List.length_replicate]
      exact hk
    · rw [htries, List.dropLast_concat]
      exact hdropLast
    · rw [htries, List.mem_append]
      rintro (hmem | hmem)
      · exact nomatch hdropLast _ hmem
      · cases List.mem_singleton.1 hmem
    · exact isSome_cleanupLoop hmove h.going fun _ hsome =>
        ⟨_, Option.some.inj (hsome.symm.trans hheld)⟩
  | moved hk htries hmoves hnow =>
    refine ⟨?_, ?_, by omega, fun hsome => absurd hmove hsome, fun _ => .inl ⟨?_, hnow⟩⟩
    · rw [htries, List.length_append, List.length_replicate]
      exact hk
    · rw [htries, List.dropLast_concat]
      exact hdropLast
    · rw [htries, List.getLast?_concat]
  | givenUp htries hmoves hnow =>
    refine ⟨?_, ?_, hmoves, fun hsome => absurd hmove hsome, fun _ => .inr ⟨htries, hnow⟩⟩
    · rw [htries, List.length_replicate]
    · rw [htries]
      exact fun o ho => hdropLast o (List.mem_of_mem_dropLast ho)

end Sound

/--
Whatever statements fail and whatever sessions cannot be had, a move takes the row with its id from
the watch table to the done table if it succeeds, and leaves the tables alone if not. A loop that goes
on tries this so often for a row as it is set, but not after a success, and counts the row once.
-/
theorem moves_whole_and_in_time :
    (∀ (σ : Type) (now : Now) (w : Watch) (done : Moment) (s : σ) (fails : List (Option Trouble))
        (v : Stage),
      let x := enact now (Storage.moveToDone w done).run s fails v
      Moved w v x.1 x.2.2 ∧ ∀ row, row.id = w.id → v.base.tables.Watched row →
        (x.1.isOk = true → x.2.2.base.tables.Done row) ∧
          (x.1.isOk = false → x.2.2.base.tables.Watched row)) ∧
      ∀ (s : Settings) (c : Chore) (p : Pipeline) (d : Post), Tended s (some c) p d →
        c.Sound s p d := by
  refine ⟨fun σ now w done s fails v => ?_, fun s c p d h => (tidy_of_tended h).sound⟩
  intro x
  have hmoved : Moved w v x.1 x.2.2 := moved_moveToDone now w done s fails v
  refine ⟨hmoved, fun row hid hrow => ⟨fun hok => ?_, fun hfailed => ?_⟩⟩
  · rw [hmoved.tables, if_pos hok, ← hid]
    exact hrow.move
  · rw [hmoved.tables, if_neg (Bool.eq_false_iff.1 hfailed)]
    exact hrow

def closedDesk : Post :=
  { (.ofState (.ofSettings .standard) 0 : Post) with pool := { Sql.Pool.idle with exhausted := true } }

def cleanupOf (w : Watch) : Pipeline × Post :=
  (.start .standard 0, closedDesk.setManager { closedDesk.manager with
    stale := { closedDesk.manager.stale with items := [w] } })

def cleanUp (x : Pipeline × Post) : Pipeline × Post := (x.1.cleanupLoop? x.2).getD x

def recover (x : Pipeline × Post) : Pipeline × Post :=
  (x.1, { x.2 with clock := 1000000, pool := .idle })

theorem Tended.cleanUp {s : Settings} {c : Option Chore} {x : Pipeline × Post} {k : Chore}
    (h : Tended s c x.1 x.2) (hmove : (x.1.cleanupLoop? x.2).isSome)
    (hk : Chore.after x.1 x.2 (cleanUp x).1 c = some k) :
    Tended s (some k) (cleanUp x).1 (cleanUp x).2 := by
  rw [← hk]
  apply h.cleanup
  obtain ⟨y, hy⟩ := Option.isSome_iff_exists.1 hmove
  have hsame : Runaway.cleanUp x = y := by
    unfold Runaway.cleanUp
    rw [hy]
    rfl
  rw [hy, hsame]

def oldRow : Watch := { (default : Watch) with id := 1 }

def oldStage : Stage := ⟨⟨⟨[oldRow], 1, [], 0⟩, some .empty⟩, 0, []⟩

def moveOld (fails : List (Option Trouble)) : Except Trouble Unit × Unit × Stage :=
  enact default (Storage.moveToDone oldRow default).run () fails oldStage

theorem moves_whole_and_in_time_twoTries :
    let broken := moveOld [none, none, none, some (.of "deadlock")]
    let fine := moveOld []
    let x := cleanUp (recover (cleanUp (cleanUp (cleanupOf oldRow))))
    let c : Chore := ⟨oldRow, .zero, 2, [some false, some true]⟩
    (broken.1.isOk = false ∧ broken.2.2.base.tables.Watched oldRow) ∧
      (fine.1.isOk = true ∧ fine.2.2.base.tables.Done oldRow) ∧
      Tended .standard (some c) x.1 x.2 ∧ c.Sound .standard x.1 x.2 := by
  obtain ⟨hmoves, htends⟩ := moves_whole_and_in_time
  have hrow : oldStage.base.tables.Watched oldRow := ⟨by decide, by decide⟩
  have hmove (fails : List (Option Trouble)) :
      ((moveOld fails).1.isOk = true → (moveOld fails).2.2.base.tables.Done oldRow) ∧
        ((moveOld fails).1.isOk = false → (moveOld fails).2.2.base.tables.Watched oldRow) :=
    (hmoves Unit default oldRow default () fails oldStage).2 oldRow rfl hrow
  have hbroken : (moveOld [none, none, none, some (.of "deadlock")]).1.isOk = false := by
    decide +kernel
  have hfine : (moveOld []).1.isOk = true := by decide +kernel
  have hsent : Tended .standard none (cleanupOf oldRow).1 (cleanupOf oldRow).2 :=
    Tended.foreground (d := closedDesk) (.start 0 rfl rfl) rfl ⟨rfl, rfl, rfl⟩
  have hreceived := hsent.cleanUp (k := ⟨oldRow, .zero, 0, []⟩) (by decide +kernel)
    (by decide +kernel)
  have hfailed := hreceived.cleanUp (k := ⟨oldRow, .zero, 1, [some false]⟩) (by decide +kernel)
    (by decide +kernel)
  let y := recover (cleanUp (cleanUp (cleanupOf oldRow)))
  have hrecovered : Tended .standard (some ⟨oldRow, .zero, 1, [some false]⟩) y.1 y.2 :=
    hfailed.foreground rfl ⟨rfl, rfl, rfl⟩
  have htended := Tended.cleanUp (x := y)
    (k := ⟨oldRow, .zero, 2, [some false, some true]⟩) hrecovered
    (by decide +kernel) (by decide +kernel)
  exact ⟨⟨hbroken, (hmove _).2 hbroken⟩, ⟨hfine, (hmove _).1 hfine⟩, htended,
    htends _ _ _ _ htended⟩

end Steward.Runaway
