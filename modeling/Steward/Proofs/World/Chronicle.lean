import Steward.Proofs.Step.Deed
import Steward.Proofs.World.Course
import Steward.Proofs.World.Undo
import Steward.Proofs.World.Versions

/-!
This module contains the chronicle of a line: the steps that were committed, one after the other, each
with what its handler returned and with the ledger when it began, before it was committed and after
that. Nothing else is committed but new jobs and schemas.
-/

namespace Steward

open Catalog (Schema)
open Change (Job Trouble)
open Ledger
open Step (Draft Registry Settled)
open World (unasked)

structure Entry where
  /-- The ledger when the step began. -/
  base : Snapshot
  /-- What its handler returned. -/
  result : Except Trouble Int
  /-- The record of its job that was committed. -/
  job : Job
  /-- The ledger just before the commit. -/
  before : Snapshot
  /-- The ledger just after it. -/
  after : Snapshot

structure Chronicle where
  line : Line
  /-- The ledger when the last step began. -/
  base : Snapshot
  /-- What the last handler returned. -/
  result : Except Trouble Int
  entries : List Entry

namespace Ledger

/--
Since `s`, jobs were handed in and schemas were created, and nothing else was committed.
-/
inductive Waits (s : Snapshot) : Snapshot → Prop where
  | refl : Waits s s
  | handed (s' s'' : Snapshot) (job : Job) (hs : Waits s s') (h : Appended s' s'' job) : Waits s s''
  | founded (s' s'' : Snapshot) (σ : Schema) (hs : Waits s s') (h : Founded s' s'' σ) : Waits s s''

theorem Waits.trans {s s' s'' : Snapshot} (h : Waits s s') (h' : Waits s' s'') : Waits s s'' := by
  induction h' with
  | refl => exact h
  | handed a b job _ h ih => exact .handed a b job ih h
  | founded a b σ _ h ih => exact .founded a b σ ih h

theorem Waits.calm {s s' : Snapshot} (h : Waits s s') : s.Calm s' := by
  induction h with
  | refl => exact .refl s
  | handed s' s'' job hs h ih => exact ih.trans h.calm
  | founded s' s'' σ hs h ih => exact ih.trans h.calm

end Ledger

namespace Chronicle

def empty : Chronicle := ⟨.empty, .initial, .ok 0, []⟩

def step (limit : Nat) (c : Chronicle) (e : Line.Event) : Chronicle :=
  let line := c.line.step limit e
  match c.line.world.phase, line.world.phase with
  | .idle, .working _ _ => { c with line, base := c.line.snapshot }
  | .working _ (.done r), .closing _ _ => { c with line, result := r.1 }
  | .closing _ d, .looking =>
    { c with
      line
      entries := c.entries ++ [⟨c.base, c.result, d.job, c.line.snapshot, line.snapshot⟩] }
  | _, _ => { c with line }

def run (limit : Nat) (c : Chronicle) (es : List Line.Event) : Chronicle := es.foldl (step limit) c

variable {limit : Nat} {c c' : Chronicle} {e : Line.Event}

theorem line_step (limit : Nat) (c : Chronicle) (e : Line.Event) :
    (c.step limit e).line = c.line.step limit e := by
  unfold step
  dsimp only
  split <;> rfl

theorem line_run (limit : Nat) (c : Chronicle) (es : List Line.Event) :
    (c.run limit es).line = c.line.run limit es := by
  unfold run Line.run
  induction es generalizing c with
  | nil => rfl
  | cons e es ih =>
    rw [List.foldl_cons, List.foldl_cons, ih, line_step]

theorem step_of_phase (h : (c.line.step limit e).world.phase = c.line.world.phase) :
    c.step limit e = { c with line := c.line.step limit e } := by
  unfold step
  dsimp only
  rw [h]
  generalize c.line.world.phase = phase
  cases phase with
  | working source work => cases work <;> rfl
  | _ => rfl

theorem step_of_idle (h : (c.line.step limit e).world.phase = .idle) :
    c.step limit e = { c with line := c.line.step limit e } := by
  unfold step
  dsimp only
  rw [h]
  generalize c.line.world.phase = phase
  cases phase with
  | working source work => cases work <;> rfl
  | _ => rfl

section Underway

/--
What is known of the step that is being taken, which began at `base`.
-/
def Underway (limit : Nat) (base : Snapshot) (result : Except Trouble Int) (s : Snapshot) (v : View) :
    World.Phase → Prop
  | .idle | .looking => True
  | .working source work =>
    Waits base s ∧ ∃ first, Fine Directed base ∧ (∃ p, Shows Directed v p ∧ p.Calm base) ∧
      base.firstJob? = some first ∧ source = first.stage ∧
      ∀ r, work.Ends (Seen unasked Directed base) r → ∃ x, Seen unasked Directed base x ∧
        (Registry.standard first.kind x ⟨.begin base, first.started⟩).Ends
          (Seen unasked Directed base) r
  | .closing _ d =>
    Waits base s ∧ d.txn.base.Calm s ∧ ∃ first W, Closes unasked Directed limit base W first d ∧
      Settled base W first d.job result

structure Stands (limit : Nat) (c : Chronicle) : Prop where
  line : c.line.Stands Directed limit
  underway : Underway limit c.base c.result c.line.snapshot c.line.world.view c.line.world.phase

/--
What the chronicle knows of a step of the job `first`, which left the tables as in `W`.
-/
structure Tells (limit : Nat) (x : Entry) (first : Job) (W : Snapshot) : Prop where
  waits : Waits x.base x.before
  stepped : Stepped unasked Directed limit x.before x.after x.base W first x.job
  settled : Settled x.base W first x.job x.result

/--
What an event adds to the chronicle. Whatever is committed and is not an entry is a new job or a new
schema.
-/
inductive Notes (limit : Nat) (c c' : Chronicle) : Prop where
  | quiet (he : c'.entries = c.entries) (h : c'.line.snapshot = c.line.snapshot)
  | handed (he : c'.entries = c.entries) (job : Job)
      (h : Appended c.line.snapshot c'.line.snapshot job) (hstage : job.stage = job.kind.initial)
  | founded (he : c'.entries = c.entries) (σ : Schema)
      (h : Founded c.line.snapshot c'.line.snapshot σ)
  | stepped (x : Entry) (first : Job) (W : Snapshot) (he : c'.entries = c.entries ++ [x])
      (hb : x.before = c.line.snapshot) (ha : x.after = c'.line.snapshot) (h : Tells limit x first W)

variable {s s' : Snapshot} {v : View} {phase : World.Phase} {base : Snapshot}
  {result : Except Trouble Int}

theorem Underway.mono (h : Underway limit base result s v phase) (hs : Waits s s') :
    Underway limit base result s' v phase := by
  cases phase with
  | working source work => exact ⟨h.1.trans hs, h.2⟩
  | closing what d => exact ⟨h.1.trans hs, h.2.1.trans hs.calm, h.2.2⟩
  | idle => trivial
  | looking => trivial

theorem stands_empty (limit : Nat) : empty.Stands limit := ⟨Line.directed_run limit [], trivial⟩

theorem Stands.line_step (h : c.Stands limit) (e : Line.Event) :
    (c.line.step limit e).Stands Directed limit :=
  Line.stands_step (fun _ _ hs h => h.directed hs) h.line e

theorem Stands.passed (h : c.Stands limit)
    (hphase : (c.line.step limit e).world.phase = c.line.world.phase)
    (hview : (c.line.step limit e).world.view = c.line.world.view)
    (hs : Waits c.line.snapshot (c.line.step limit e).snapshot) : (c.step limit e).Stands limit := by
  rw [step_of_phase hphase]
  refine ⟨h.line_step e, ?_⟩
  dsimp only
  rw [hphase, hview]
  exact h.underway.mono hs

theorem Stands.noted (h : c.Stands limit)
    (hphase : (c.line.step limit e).world.phase = c.line.world.phase)
    (hview : (c.line.step limit e).world.view = c.line.world.view)
    (hs : (c.line.step limit e).snapshot = c.line.snapshot ∨
      (∃ job, Appended c.line.snapshot (c.line.step limit e).snapshot job ∧
        job.stage = job.kind.initial) ∨
      ∃ σ, Founded c.line.snapshot (c.line.step limit e).snapshot σ) :
    (c.step limit e).Stands limit ∧ Notes limit c (c.step limit e) := by
  have hstep := step_of_phase hphase
  rcases hs with hs | ⟨job, hs, hstage⟩ | ⟨σ, hs⟩
  · refine ⟨h.passed hphase hview (hs ▸ .refl), ?_⟩
    rw [hstep]
    exact .quiet rfl hs
  · refine ⟨h.passed hphase hview (.handed _ _ job .refl hs), ?_⟩
    rw [hstep]
    exact .handed rfl job hs hstage
  · refine ⟨h.passed hphase hview (.founded _ _ σ .refl hs), ?_⟩
    rw [hstep]
    exact .founded rfl σ hs

theorem Stands.unmoved (h : c.Stands limit) (hsame : c.line.step limit e = c.line) :
    (c.step limit e).Stands limit ∧ Notes limit c (c.step limit e) :=
  h.noted (by rw [hsame]) (by rw [hsame]) (.inl (by rw [hsame]))

theorem Stands.hand (h : c.Stands limit) (n : Nat) :
    (c.step limit (.hand n)).Stands limit ∧ Notes limit c (c.step limit (.hand n)) := by
  cases hslip : c.line.slips[n]? with
  | none =>
    apply h.unmoved
    dsimp only [Line.step]
    rw [hslip]
  | some slip =>
    obtain ⟨base, job, hx⟩ := h.line.slips slip (List.mem_of_getElem? hslip)
    have hline : c.line.step limit (.hand n) = c.line.handIn n slip := by
      dsimp only [Line.step]
      rw [hslip]
    cases hc : c.line.world.store.commit slip.2 with
    | error t =>
      have hhand : c.line.handIn n slip = { c.line with slips := c.line.slips.eraseIdx n } := by
        unfold Line.handIn
        dsimp only
        rw [hc]
      apply h.noted <;> rw [hline, hhand]
      exact .inl rfl
    | ok store =>
      have hhand : c.line.handIn n slip =
          ⟨{ c.line.world with store }, c.line.slips.eraseIdx n, c.line.given ++ [slip.1]⟩ := by
        unfold Line.handIn
        dsimp only
        rw [hc]
      apply h.noted <;> rw [hline, hhand]
      exact .inr (.inl ⟨job, hx.appended h.line.world.file hc, hx.stage⟩)

theorem Stands.commit (h : c.Stands limit) (n : Nat) :
    let e := Line.Event.other (.commit n) rfl
    (c.step limit e).Stands limit ∧ Notes limit c (c.step limit e) := by
  intro e
  cases ht : c.line.world.drafts[n]? with
  | none =>
    apply h.unmoved
    dsimp only [e, Line.step, World.step]
    rw [ht]
  | some t =>
    have hline : (c.line.step limit e).world = c.line.world.commitDraft n t := by
      dsimp only [e, Line.step, World.step]
      rw [ht]
    cases hc : c.line.world.store.commit t with
    | error x =>
      have hworld : c.line.world.commitDraft n t =
          { c.line.world with drafts := c.line.world.drafts.eraseIdx n } := by
        unfold World.commitDraft
        dsimp only
        rw [hc]
      apply h.noted
      · rw [hline, hworld]
      · rw [hline, hworld]
      · unfold Line.snapshot
        rw [hline, hworld]
        exact .inl rfl
    | ok store =>
      have hworld : c.line.world.commitDraft n t =
          { c.line.world with store, drafts := c.line.world.drafts.eraseIdx n } := by
        unfold World.commitDraft
        dsimp only
        rw [hc]
      apply h.noted
      · rw [hline, hworld]
      · rw [hline, hworld]
      · unfold Line.snapshot
        rw [hline, hworld]
        right
        right
        cases h.line.world.drafts t (List.mem_of_getElem? ht) with
        | submits base hb hbs st σ v p job hst => exact hst.elim
        | founds base hbs σ hraised =>
          exact ⟨σ, hraised.founded h.line.world.file hbs hc⟩

theorem Stands.stays (h : c.Stands limit)
    (hstep : c.step limit e = { c with line := c.line.step limit e, base, result })
    (hs : (c.line.step limit e).snapshot = c.line.snapshot)
    (hu : Underway limit base result c.line.snapshot (c.line.step limit e).world.view
      (c.line.step limit e).world.phase) :
    (c.step limit e).Stands limit ∧ Notes limit c (c.step limit e) := by
  rw [hstep]
  refine ⟨⟨h.line_step e, ?_⟩, .quiet rfl hs⟩
  dsimp only
  rw [hs]
  exact hu

theorem Stands.rests (h : c.Stands limit) (hphase : (c.line.step limit e).world.phase = .idle)
    (hs : (c.line.step limit e).snapshot = c.line.snapshot) :
    (c.step limit e).Stands limit ∧ Notes limit c (c.step limit e) := by
  apply h.stays (step_of_idle hphase) hs
  rw [hphase]
  trivial

theorem Stands.begin (h : c.Stands limit) (checks : Bool) (stamp : Nat) :
    let e := Line.Event.begin checks stamp
    (c.step limit e).Stands limit ∧ Notes limit c (c.step limit e) := by
  intro e
  cases hphase : c.line.world.phase with
  | idle =>
    cases hb : Step.begin c.line.world.store .standard ⟨c.line.world.view, checks, stamp⟩ with
    | none =>
      apply h.unmoved
      dsimp only [e, Line.Event.begin, Line.step, World.step]
      rw [hphase, hb]
    | some begun =>
      have hline : c.line.step limit e =
          { c.line with world :=
            { c.line.world with phase := .working begun.source begun.work } } := by
        dsimp only [e, Line.Event.begin, Line.step, World.step]
        rw [hphase, hb]
      have hstep : c.step limit e =
          { c with line := c.line.step limit e, base := c.line.snapshot, result := c.result } := by
        unfold step
        dsimp only
        rw [hline, hphase]
      apply h.stays hstep
      · rw [hline]
        rfl
      · rw [hline]
        have hview := h.line.world.phase
        rw [hphase] at hview
        obtain ⟨first, hfirst, rfl⟩ := Option.map_eq_some_iff.1 hb
        refine ⟨.refl, first, h.line.world.fine, hview, hfirst, rfl, ?_⟩
        intro r hr
        exact ⟨⟨c.line.world.view, checks, stamp⟩, ⟨trivial, hview⟩, hr⟩
  | _ =>
    apply h.unmoved
    dsimp only [e, Line.Event.begin, Line.step, World.step]
    rw [hphase]

theorem Stands.answer (h : c.Stands limit) (a : Step.Answer) (checks : Bool) (stamp : Nat) :
    let e := Line.Event.other (.answer a checks stamp) rfl
    (c.step limit e).Stands limit ∧ Notes limit c (c.step limit e) := by
  intro e
  cases hphase : c.line.world.phase with
  | working source work =>
    cases work with
    | done r =>
      apply h.unmoved
      dsimp only [e, Line.step, World.step]
      rw [hphase]
    | ask st k =>
      have hline : c.line.step limit e =
          { c.line with world := { c.line.world with
            phase := .working source (k ⟨c.line.world.view, checks, stamp⟩ a) } } := by
        dsimp only [e, Line.step, World.step]
        rw [hphase]
      have hstep : c.step limit e =
          { c with line := c.line.step limit e, base := c.base, result := c.result } := by
        unfold step
        dsimp only
        rw [hline, hphase]
      apply h.stays hstep
      · rw [hline]
        rfl
      · rw [hline]
        have hu := h.underway
        rw [hphase] at hu
        obtain ⟨hwaits, first, hb, hv, hfirst, hsource, hwork⟩ := hu
        refine ⟨hwaits, first, hb, hv, hfirst, hsource, ?_⟩
        intro r hr
        exact hwork r (.ask st k _ ⟨trivial, hv⟩ a r hr)
  | _ =>
    apply h.unmoved
    dsimp only [e, Line.step, World.step]
    rw [hphase]

theorem Underway.settled {store : Store} {owned : Bool} {source : Catalog.Stage} {r : Step.Result}
    {what : String} {d : Draft} (h : Underway limit base result store.snapshot v
      (.working source (.done r))) (hs : store.snapshot.Tidy)
    (hd : Step.settle limit store owned source r = some (what, d)) :
    Underway limit base r.1 store.snapshot v (.closing what d) := by
  obtain ⟨hwaits, first, hb, hv, hfirst, rfl, hwork⟩ := h
  obtain ⟨x, hx, hends⟩ := hwork r (.done r)
  obtain ⟨hget, hkind, hfinished⟩ := hb.tidy.first_filed hfirst
  obtain ⟨W, hW, hbase, hsettled⟩ := Step.settled_of_settle hx (World.took_of_ends hb hfirst hx hends)
    hkind hfinished (hb.holds.concerted.first _ hfirst) (hb.holds.onCourse _ _ hget) hd
  obtain ⟨hcalm, hcloses⟩ := World.closes_of_outcome hb hwaits.calm hs hfirst hW hbase
  exact ⟨hwaits, hcalm, first, W, hcloses, hsettled⟩

theorem Stands.settle (h : c.Stands limit) (owned : Bool) :
    let e := Line.Event.settle owned
    (c.step limit e).Stands limit ∧ Notes limit c (c.step limit e) := by
  intro e
  cases hphase : c.line.world.phase with
  | working source work =>
    cases work with
    | ask st k =>
      apply h.unmoved
      dsimp only [e, Line.Event.settle, Line.step, World.step]
      rw [hphase]
    | done r =>
      cases hd : Step.settle limit c.line.world.store owned source r with
      | none =>
        have hline : c.line.step limit e =
            { c.line with world := { c.line.world with phase := .idle } } := by
          dsimp only [e, Line.Event.settle, Line.step, World.step]
          rw [hphase]
          dsimp only
          rw [hd]
        apply h.rests <;> rw [hline]
        rfl
      | some p =>
        obtain ⟨what, d⟩ := p
        have hline : c.line.step limit e =
            { c.line with world := { c.line.world with phase := .closing what d } } := by
          dsimp only [e, Line.Event.settle, Line.step, World.step]
          rw [hphase]
          dsimp only
          rw [hd]
        have hstep : c.step limit e =
            { c with line := c.line.step limit e, base := c.base, result := r.1 } := by
          unfold step
          dsimp only
          rw [hline, hphase]
        apply h.stays hstep
        · rw [hline]
          rfl
        · rw [hline]
          have hu := h.underway
          rw [hphase] at hu
          exact hu.settled h.line.world.fine.tidy hd
  | _ =>
    apply h.unmoved
    dsimp only [e, Line.Event.settle, Line.step, World.step]
    rw [hphase]

theorem Stands.close (h : c.Stands limit) :
    (c.step limit .close).Stands limit ∧ Notes limit c (c.step limit .close) := by
  cases hphase : c.line.world.phase with
  | closing what d =>
    have hline : c.line.step limit .close =
        { c.line with world := c.line.world.closeStep what d } := by
      dsimp only [Line.Event.close, Line.step, World.step]
      rw [hphase]
    have hgiven (hcommit : c.line.world.closeStep what d = { c.line.world with phase := .idle }) :
        (c.step limit .close).Stands limit ∧ Notes limit c (c.step limit .close) := by
      rw [hcommit] at hline
      apply h.rests <;> rw [hline]
      rfl
    cases hc : Step.commit c.line.world.store what d with
    | error t =>
      apply hgiven
      unfold World.closeStep
      rw [hc]
    | ok ending =>
      cases ending with
      | committed store job =>
        have hworld : c.line.world.closeStep what d =
            { c.line.world with store, phase := .looking } := by
          unfold World.closeStep
          rw [hc]
        rw [hworld] at hline
        have hstep : c.step limit .close =
            { c with
              line := c.line.step limit .close
              entries := c.entries ++ [⟨c.base, c.result, d.job, c.line.snapshot,
                store.snapshot⟩] } := by
          unfold step
          dsimp only
          rw [hline, hphase]
          rfl
        have hu := h.underway
        rw [hphase] at hu
        obtain ⟨hwaits, hcalm, first, W, hcloses, hsettled⟩ := hu
        obtain ⟨-, t, hpersist, hcommit⟩ := commit_eq_committed hc
        have hstepped := hcloses.stepped (hcloses.persisted hpersist) h.line.world.file hcalm hcommit
        rw [hstep]
        refine ⟨⟨h.line_step .close, ?_⟩, .stepped _ first W rfl rfl ?_ ⟨hwaits, hstepped, hsettled⟩⟩
        · dsimp only
          rw [hline]
          trivial
        · dsimp only
          rw [hline]
          rfl
      | _ =>
        apply hgiven
        unfold World.closeStep
        rw [hc]
  | _ =>
    apply h.unmoved
    dsimp only [Line.Event.close, Line.step, World.step]
    rw [hphase]

theorem Stands.reopen (h : c.Stands limit) :
    (c.step limit .reopen).Stands limit ∧ Notes limit c (c.step limit .reopen) := h.rests rfl rfl

theorem Stands.look (h : c.Stands limit) :
    let e := Line.Event.other .look rfl
    (c.step limit e).Stands limit ∧ Notes limit c (c.step limit e) := by
  intro e
  cases hphase : c.line.world.phase with
  | looking =>
    have hline : c.line.step limit e = { c.line with world := { c.line.world with
        view := c.line.world.view.reload c.line.world.store.snapshot, phase := .idle } } := by
      dsimp only [e, Line.step, World.step]
      rw [hphase]
    apply h.rests <;> rw [hline]
    rfl
  | _ =>
    apply h.unmoved
    dsimp only [e, Line.step, World.step]
    rw [hphase]

theorem Stands.begun (h : c.Stands limit)
    (hphase : (c.line.step limit e).world.phase = c.line.world.phase)
    (hview : (c.line.step limit e).world.view = c.line.world.view)
    (hstore : (c.line.step limit e).world.store = c.line.world.store) :
    (c.step limit e).Stands limit ∧ Notes limit c (c.step limit e) :=
  h.noted hphase hview (.inl (congrArg Store.snapshot hstore))

theorem stands_step (h : c.Stands limit) (e : Line.Event) :
    (c.step limit e).Stands limit ∧ Notes limit c (c.step limit e) := by
  cases e with
  | draw => exact h.begun rfl rfl rfl
  | hand n => exact h.hand n
  | other e he =>
    cases e with
    | found name =>
      apply h.begun <;> dsimp only [Line.step, World.step] <;> split <;> rfl
    | plan => cases he
    | draw n =>
      apply h.begun <;> dsimp only [Line.step, World.step] <;> split <;> rfl
    | commit n => exact h.commit n
    | begin checks stamp => exact h.begin checks stamp
    | answer a checks stamp => exact h.answer a checks stamp
    | settle owned => exact h.settle owned
    | close => exact h.close
    | look => exact h.look
    | reopen => exact h.reopen

theorem stands_run (limit : Nat) (es : List Line.Event) : (empty.run limit es).Stands limit := by
  induction es using List.reverseRecOn with
  | nil => exact stands_empty limit
  | append_singleton es e ih =>
    unfold run
    rw [List.foldl_append]
    exact (stands_step ih e).1

theorem run_concat (limit : Nat) (c : Chronicle) (es : List Line.Event) (e : Line.Event) :
    c.run limit (es ++ [e]) = (c.run limit es).step limit e := by
  unfold run
  rw [List.foldl_append]
  rfl

theorem run_induction {P : Chronicle → Prop} (h : P empty)
    (hP : ∀ c c', c.Stands limit → c'.Stands limit → Notes limit c c' → P c → P c')
    (es : List Line.Event) : P (empty.run limit es) := by
  induction es using List.reverseRecOn with
  | nil => exact h
  | append_singleton es e ih =>
    rw [run_concat]
    obtain ⟨hstands, hnotes⟩ := stands_step (stands_run limit es) e
    exact hP _ _ (stands_run limit es) hstands hnotes ih

end Underway

end Chronicle

end Steward
