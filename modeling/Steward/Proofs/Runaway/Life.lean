import Steward.Proofs.Runaway.Cleanup
import Steward.Proofs.Runaway.Conservation
import Steward.Runaway.Checker
import Steward.Runaway.Server

/-!
This module contains the life of a server: its loops are started, the foreground marks queries, asks
for this and that and sleeps while the loops go on, and at last they are told to end. Every record of
every mark is conserved, and every row that is to be cleaned up is dealt with as it should be.
-/

namespace Steward.Runaway

open Sql (Dialogue)

namespace Server

variable {v : Server}

/--
The loops are running, and something is true of the pipeline and the desk.
-/
def Where (P : Pipeline → Post → Prop) (v : Server) : Prop :=
  ∃ p, v.pipeline = some p ∧ P p v.desk

/--
This stays true whatever the loops do, and whatever the foreground does to the manager as a relation
of managers allows.
-/
structure Served (R : Manager → Manager → Prop) (P : Pipeline → Post → Prop) : Prop where
  blind : Manager.Blind R
  foreground {p : Pipeline} {d d' : Post} (h : P p d) (hheld : d'.held = d.held)
    (hm : R d.manager d'.manager) : P p d'
  move {p p' : Pipeline} {d d' : Post} {who : Member} (h : P p d)
    (hmove : p.move? d who = some (p', d')) : P p' d'

theorem arm_same (d : Post) (time : Nat) (who : Member) (t : Tick) :
    (d.arm time who t).state = d.state ∧ (d.arm time who t).held = d.held := by
  unfold Sql.Desk.arm
  split <;> exact ⟨rfl, rfl⟩

-- Who rests only sets alarms.
theorem rest_same (p : Pipeline) (d : Post) (who : Member) :
    (p.rest d who).state = d.state ∧ (p.rest d who).held = d.held := by
  unfold Pipeline.rest
  split
  · exact ⟨rfl, rfl⟩
  · cases who with
    | flush =>
      obtain ⟨hstate, hheld⟩ := arm_same d p.flushTick.due .flush .flush
      obtain ⟨hstate', hheld'⟩ := arm_same (d.arm p.flushTick.due .flush .flush) p.sweepTick.due
        .flush .sweep
      exact ⟨hstate'.trans hstate, hheld'.trans hheld⟩
    | cleanup =>
      dsimp only
      split
      · exact arm_same _ _ _ _
      · exact ⟨rfl, rfl⟩
    | sync => exact arm_same _ _ _ _
    | purge => exact arm_same _ _ _ _
    | insert => exact ⟨rfl, rfl⟩
    | sweep => exact ⟨rfl, rfl⟩
    | insertion n => exact ⟨rfl, rfl⟩

namespace Served

variable {R : Manager → Manager → Prop} {P : Pipeline → Post → Prop} (hP : Served R P)
include hP

theorem desk (h : v.Where P) {d : Post} (hheld : d.held = v.desk.held)
    (hm : R v.manager d.manager) : ({ v with desk := d } : Server).Where P := by
  obtain ⟨p, hp, hdesk⟩ := h
  exact ⟨p, hp, hP.foreground hdesk hheld hm⟩

theorem same (h : v.Where P) {d : Post} (hstate : d.state = v.desk.state)
    (hheld : d.held = v.desk.held) : ({ v with desk := d } : Server).Where P := by
  have hmanager : d.manager = v.manager := congrArg Monitor.manager hstate
  exact hP.desk h hheld (hmanager ▸ hP.blind.refl _)

theorem heed (h : v.Where P) (before : Manager) : (v.heed before).Where P := by
  unfold Server.heed
  split
  · exact h
  · exact hP.same h rfl rfl

theorem stable : Crew.Stable (Where P) where
  clock _ _ h := hP.same h rfl rfl
  agenda _ _ h := hP.same h rfl rfl
  move {who v v'} h hmove := by
    obtain ⟨p, hp, hdesk⟩ := h
    obtain ⟨p₀, hp₀, hmove⟩ := Option.bind_eq_some_iff.1 hmove
    obtain ⟨⟨p', d'⟩, hstep, hsame⟩ := Option.bind_eq_some_iff.1 hmove
    cases hp.symm.trans hp₀
    cases hsame
    exact hP.heed ⟨p', rfl, hP.move hdesk hstep⟩ _
  rest who v h := by
    obtain ⟨desk, pipeline⟩ := v
    obtain ⟨p, hp, hdesk⟩ := h
    cases hp
    obtain ⟨hstate, hheld⟩ := rest_same p desk who
    exact hP.same ⟨p, rfl, hdesk⟩ hstate hheld

theorem setManager (h : v.Where P) {m : Manager} (hm : R v.manager m) : (v.setManager m).Where P :=
  hP.heed (hP.desk (d := v.desk.setManager m) h rfl hm) v.manager

theorem sleepUntil (h : v.Where P) (time : Nat) : (v.sleepUntil time).Where P :=
  hP.stable.settle (hP.stable.passUntil time h)

theorem follow {α : Type} (fuel : Nat) (h : v.Where P) {t : Dialogue.Standing Monitor α}
    (ht : ∀ w, t = .waiting w → ∀ r, (w.k r).Keeps (Monitor.Alike R)) :
    (Server.follow fuel v t).2.Where P := by
  induction fuel generalizing v t with
  | zero => cases t <;> exact h
  | succ fuel ih =>
    cases t with
    | ended a => exact h
    | waiting w =>
      have hpassed := hP.stable.passUntil w.due h
      obtain ⟨hstate, hwait⟩ := Dialogue.Within.advance (Monitor.alike_refl hP.blind)
        (Monitor.alike_trans hP.blind)
        (ht w rfl ((Crew.passUntil w.due v).desk.pool.answer _ w.statement).1 _)
        (Crew.passUntil w.due v).desk.now ((Crew.passUntil w.due v).desk.pool.answer _ w.statement).2
      have hresumed := hP.desk (d := ((Crew.passUntil w.due v).desk.resume w).2) hpassed rfl hstate
      exact ih (hP.heed hresumed _) hwait

theorem hold {α : Type} (h : v.Where P) {t : Dialogue Monitor α} (ht : t.Keeps (Monitor.Alike R)) :
    (v.hold t).2.Where P := by
  obtain ⟨hstate, hwait⟩ := (ht v.desk.state).advance (Monitor.alike_refl hP.blind)
    (Monitor.alike_trans hP.blind) v.desk.now v.desk.pool
  have hheld := hP.desk (d := (v.desk.hold t).2) h rfl hstate
  exact hP.follow manyAnswers (hP.heed hheld v.manager) hwait

end Served

end Server

inductive Call where
  | before (c : Checker) (moment : Moment)
  | thresholds (c : Checker) (moment : Moment) (p : Progress)
  | markRunaway (q : Query) (action : Action) (detection : Detection) (start : Moment)
    (cause : String)
  | markQuarantine (mark : Mark)
  | addRow (w : Watch)
  | addToList (w : Watch) (ttl : Option Span) (force : Bool)
  | remove (w : Watch)
  | purge

/--
The record of a mark, and whether there is room for it.
-/
def Manager.offer (m : Manager) (q : Query) (action : Action) (detection : Detection)
    (start : Moment) (cause : String) : Record × Bool :=
  let r := m.recordOf q action detection start cause
  (r, (m.records.send? r).isSome)

namespace Call

def after (now : Now) (m : Manager) : Call → Manager
  | before c moment => (c.beforeExecution m now moment).2
  | thresholds c moment p => (c.checkThresholds m now moment p).2.2
  | markRunaway q action detection start cause => m.markRunaway q action detection start cause
  | markQuarantine mark => m.markQuarantine now mark
  | addRow w => (m.addWatch now w).2
  | addToList w ttl force => (m.addToList now w ttl force).2
  | remove w => (m.removeWatch now w).2
  | purge => (m.purge now).2

def marks (now : Now) (m : Manager) : Call → List (Record × Bool)
  | before c moment => (c.hit? m now).toList.map fun hit =>
    m.offer c.query hit.action .watch moment hit.cause
  | thresholds c moment p =>
    match c.limit, c.verdict with
    | some l, none => (l.exceeded p).toList.map fun cause =>
      m.offer c.query l.action .identify moment cause
    | _, _ => []
  | markRunaway q action detection start cause => [m.offer q action detection start cause]
  | _ => []

end Call

inductive Manager.Takes (R : Manager → Manager → Prop) (m m' : Manager) :
    List (Record × Bool) → Prop
  | nothing (h : R m m') : Takes R m m' []
  | mark (q : Query) (action : Action) (detection : Detection) (start : Moment) (cause : String)
    (h : R (m.markRunaway q action detection start cause) m') :
    Takes R m m' [m.offer q action detection start cause]

section Call

variable {R : Manager → Manager → Prop} (hR : Manager.Blind R) (now : Now) (m : Manager)
include hR

theorem takes_before (c : Checker) (moment : Moment) :
    m.Takes R (c.beforeExecution m now moment).2 ((Call.before c moment).marks now m) := by
  unfold Checker.beforeExecution Call.marks
  dsimp only
  cases c.hit? m now with
  | none => exact .nothing (hR.refl m)
  | some hit => exact .mark _ _ _ _ _ (hR.refl _)

theorem blind_mark (c : Checker) (moment : Moment) (l : Limit) (v : Verdict) :
    R (m.markRunaway c.query v.action .identify moment v.cause) (c.mark m now moment l v) := by
  unfold Checker.mark
  dsimp only
  cases l.watch with
  | none => exact hR.refl _
  | some setting =>
    dsimp only
    cases c.query.convict setting.target with
    | none => exact hR.refl _
    | some text => exact hR.markQuarantine now _ _

theorem takes_thresholds (c : Checker) (moment : Moment) (p : Progress) :
    m.Takes R (c.checkThresholds m now moment p).2.2 ((Call.thresholds c moment p).marks now m) := by
  unfold Checker.checkThresholds Call.marks
  dsimp only
  cases c.limit with
  | none => exact .nothing (hR.refl m)
  | some l =>
    cases c.verdict with
    | some v => exact .nothing (hR.refl m)
    | none =>
      dsimp only
      cases l.exceeded p with
      | none => exact .nothing (hR.refl m)
      | some cause => exact .mark _ _ _ _ _ (blind_mark hR now m c moment l ⟨l.action, cause⟩)

theorem takes_after (c : Call) : m.Takes R (c.after now m) (c.marks now m) := by
  cases c with
  | before c moment => exact takes_before hR now m c moment
  | thresholds c moment p => exact takes_thresholds hR now m c moment p
  | markRunaway q action detection start cause => exact .mark _ _ _ _ _ (hR.refl _)
  | markQuarantine mark => exact .nothing (hR.markQuarantine now m mark)
  | addRow w => exact .nothing (hR.keep m _)
  | addToList w ttl force => exact .nothing (hR.keep m _)
  | remove w => exact .nothing (hR.keep m _)
  | purge => exact .nothing (hR.keep m _)

end Call

theorem sameCleanups_markRunaway (m : Manager) (q : Query) (action : Action) (detection : Detection)
    (start : Moment) (cause : String) :
    m.SameCleanups (m.markRunaway q action detection start cause) := by
  unfold Manager.markRunaway
  dsimp only
  split <;> exact ⟨rfl, rfl, rfl⟩

theorem Manager.Takes.sameCleanups {m m' : Manager} {marks : List (Record × Bool)}
    (h : m.Takes Manager.SameCleanups m' marks) : m.SameCleanups m' := by
  cases h with
  | nothing hm => exact hm
  | mark q action detection start cause hm =>
    have hmarked := sameCleanups_markRunaway m q action detection start cause
    exact Manager.blind_sameCleanups.trans hmarked hm

inductive Episode where
  | call (c : Call)
  | sync
  | sleepUntil (time : Nat)

namespace Server

variable {s : Settings} {stopping : Bool} {marks : List (Record × Bool)} {v : Server}

def live (v : Server) : Episode → Server
  | .call c => v.setManager (c.after v.now v.manager)
  | .sync => (v.hold Monitor.sync.run).2
  | .sleepUntil time => v.sleepUntil time

def liveAll (v : Server) (es : List Episode) : Server := es.foldl live v

/--
The records of the marks of an episode, and whether there is room for them.
-/
def offers (v : Server) : Episode → List (Record × Bool)
  | .call c => c.marks v.now v.manager
  | .sync | .sleepUntil _ => []

def offersOf (v : Server) : List Episode → List (Record × Bool)
  | [] => []
  | e :: es => v.offers e ++ (v.live e).offersOf es

/--
The loops were told to end, and went on until nobody waits for a time.
-/
def stopped (v : Server) : Server :=
  match v.pipeline with
  | none => v
  | some p => Crew.finish ⟨(p.stop v.desk).2, some (p.stop v.desk).1⟩

/--
All records were received, and the last batch has been answered.
-/
def Drained (v : Server) : Prop := v.Where fun p d => p.drained = true ∧ d.isHeld .flush = false

instance (v : Server) : Decidable v.Drained :=
  match hp : v.pipeline with
  | none => .isFalse fun ⟨_, hp', _⟩ => nomatch hp.symm.trans hp'
  | some p => decidable_of_iff (p.drained = true ∧ v.desk.isHeld .flush = false)
    ⟨fun hdrained => ⟨p, hp, hdrained⟩, fun ⟨_, hp', hdrained⟩ =>
      Option.some.inj (hp.symm.trans hp') ▸ hdrained⟩

theorem served_kept (s : Settings) (stopping : Bool) (marks : List (Record × Bool)) :
    Served Manager.SameRecords (Kept s stopping marks) where
  blind := Manager.blind_sameRecords
  foreground h hheld hm := h.passes ⟨rfl, rfl, rfl, Sql.Desk.leaves_of_held hm hheld⟩
  move h hmove := h.move hmove

theorem served_tended (s : Settings) :
    Served Manager.SameCleanups (fun p d => ∃ c, Tended s c p d) where
  blind := Manager.blind_sameCleanups
  foreground h hheld hm := by
    obtain ⟨c, htended⟩ := h
    exact ⟨c, htended.foreground hheld hm⟩
  move {p p' d d' who} h hmove := by
    obtain ⟨c, htended⟩ := h
    by_cases hwho : who = .cleanup
    · subst hwho
      exact ⟨_, htended.cleanup hmove⟩
    · exact ⟨c, htended.member hwho hmove⟩

theorem kept_spawn (s : Settings) (epoch : Int) :
    (ofSettings s epoch).spawn.Where (Kept s false []) :=
  ⟨_, rfl, ⟨.empty, .start _ rfl rfl, rfl⟩, rfl, fun _ hx => absurd hx List.not_mem_nil⟩

theorem kept_call (h : v.Where (Kept s false marks)) (c : Call) :
    (v.live (.call c)).Where (Kept s false (marks ++ c.marks v.now v.manager)) := by
  have htakes := takes_after Manager.blind_sameRecords v.now v.manager c
  generalize c.marks v.now v.manager = taken at htakes
  cases htakes with
  | nothing hm =>
    rw [List.append_nil]
    exact (served_kept s false marks).setManager h hm
  | mark q action detection start cause hm =>
    -- The account takes the mark first; what the call does besides leaves the records alone.
    obtain ⟨p, hp, hkept⟩ := h
    let marked := v.desk.setManager (v.manager.markRunaway q action detection start cause)
    have hserved := served_kept s false (marks ++ [v.manager.offer q action detection start cause])
    have hmarked := hserved.desk (v := ⟨marked, v.pipeline⟩)
      (d := v.desk.setManager (c.after v.now v.manager))
      ⟨p, hp, hkept.mark q action detection start cause⟩ rfl hm
    exact hserved.heed hmarked v.manager

theorem kept_live (h : v.Where (Kept s false marks)) (e : Episode) :
    (v.live e).Where (Kept s false (marks ++ v.offers e)) := by
  have hserved := served_kept s false marks
  cases e with
  | call c => exact kept_call h c
  | sync =>
    have hsynced := hserved.hold h (Monitor.keeps_sync hserved.blind)
    exact (List.append_nil marks).symm ▸ hsynced
  | sleepUntil time =>
    have hslept := hserved.sleepUntil h time
    exact (List.append_nil marks).symm ▸ hslept

theorem kept_liveAll (h : v.Where (Kept s false marks)) (es : List Episode) :
    (v.liveAll es).Where (Kept s false (marks ++ v.offersOf es)) := by
  induction es generalizing v marks with
  | nil => exact (List.append_nil marks).symm ▸ h
  | cons e es ih =>
    have hrest := ih (kept_live h e)
    rw [List.append_assoc] at hrest
    exact hrest

theorem kept_stopped (h : v.Where (Kept s false marks)) : v.stopped.Where (Kept s true marks) := by
  obtain ⟨p, hp, hkept⟩ := h
  unfold stopped
  rw [hp]
  exact (served_kept s true marks).stable.finish ⟨_, rfl, hkept.stop⟩

theorem metrics_shutdown (v : Server) : v.shutdown.manager.metrics = v.stopped.manager.metrics := by
  cases hp : v.pipeline with
  | none =>
    unfold shutdown stopped
    rw [hp]
  | some p =>
    have hshutdown : v.shutdown =
        ({ v.stopped with pipeline := none } : Server).setManager v.stopped.manager.closed := by
      unfold shutdown stopped
      rw [hp]
    rw [hshutdown]
    -- What the loops did until then must not be computed.
    generalize v.stopped = w
    rfl

/--
Whatever happens in the foreground, every mark between the start of the loops and their end is
conserved when the server has shut down.
-/
theorem conserved_at_shutdown (s : Settings) (epoch : Int) (es : List Episode) :
    let v := (ofSettings s epoch).spawn
    (v.liveAll es).stopped.Drained →
      ∃ a : Account, a.marks = v.offersOf es ∧
        Conserved s a (v.liveAll es).shutdown.manager.metrics := by
  intro v hdrained
  obtain ⟨p, hp, hkept⟩ := kept_stopped (kept_liveAll (kept_spawn s epoch) es)
  obtain ⟨p', hp', hempty, hfree⟩ := hdrained
  cases hp.symm.trans hp'
  obtain ⟨a, hrecorded, hmarks⟩ := hkept.recorded
  obtain ⟨hbalanced, hrested⟩ := balanced_of_recorded hrecorded
  refine ⟨a, hmarks, ?_⟩
  rw [metrics_shutdown]
  exact hbalanced.conserved hrested hempty hfree

example :
    let marked := Call.markRunaway ⟨"g", "select 1", "d", "p"⟩ .kill .identify ⟨1⟩ ""
    let v := (ofSettings .standard 0).spawn
    (v.liveAll [.call marked, .sleepUntil 10, .sync]).stopped.Drained := by
  decide +kernel

theorem tended_live (h : v.Where fun p d => ∃ c, Tended s c p d) (e : Episode) :
    (v.live e).Where fun p d => ∃ c, Tended s c p d := by
  have hserved := served_tended s
  cases e with
  | call c => exact hserved.setManager h (takes_after hserved.blind v.now v.manager c).sameCleanups
  | sync => exact hserved.hold h (Monitor.keeps_sync hserved.blind)
  | sleepUntil time => exact hserved.sleepUntil h time

theorem tended_liveAll (s : Settings) (epoch : Int) (es : List Episode) :
    ((ofSettings s epoch).spawn.liveAll es).Where fun p d => ∃ c, Tended s c p d := by
  apply List.foldlRecOn (motive := Where fun p d => ∃ c, Tended s c p d)
  · exact ⟨_, rfl, none, .start _ rfl rfl⟩
  · exact fun v hv e _ => tended_live hv e

/--
Whatever happens in the foreground, the row that a server is moving to the done table is a chore that
is done well.
-/
theorem chore_sound {epoch : Int} {es : List Episode} {p : Pipeline} {m : Move} :
    let v := (ofSettings s epoch).spawn.liveAll es
    v.pipeline = some p → p.move = some m → ∃ c : Chore, c.watch = m.watch ∧ c.Sound s p v.desk := by
  intro v hp hm
  obtain ⟨p', hp', c, htended⟩ := tended_liveAll s epoch es
  cases hp.symm.trans hp'
  have htidy := tidy_of_tended htended
  have hstands := htidy.stands
  rw [hm] at hstands
  generalize v.desk.held.lookup .cleanup = held at hstands
  -- As long as the loop has a row, this is to be tried, or an answer is due.
  cases hstands with
  | toTry hk hwatch => exact ⟨_, hwatch.symm, htidy.sound⟩
  | waiting hk hwatch => exact ⟨_, hwatch.symm, htidy.sound⟩

end Server

end Steward.Runaway
