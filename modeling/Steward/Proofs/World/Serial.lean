import Steward.Proofs.World.Basic
import Steward.Proofs.World.Commit

/-!
This module contains the law that makes the world sequential: whatever overlaps in it, each event
leaves the ledger as it is or takes it along one move, and every step was decided on tables that
are still the same when it is committed.
-/

namespace Steward

open Catalog (Schema Stage Table)
open Change (Job)
open Engine (Statement)
open Ledger
open Step (Draft Registry Result Work)

namespace World

inductive Drawn (R : Rules) (Q : Snapshot → Prop) (s : Snapshot) (t : Txn) : Prop where
  | submits (base : Snapshot) (hb : base.Tidy) (hs : base.Precedes s) (st : Statement) (σ : Schema)
      (v : View) (p : Snapshot) (job : Job) (hst : R.statement st) (hp : Shows Q v p)
      (hpb : p.Precedes base) (hσ : v.schema? st.schema = some σ) (hm : st.Makes σ job)
      (h : Enlisted base job t)
  | founds (base : Snapshot) (hs : base.Precedes s) (σ : Schema) (h : Raised base σ t)

/--
Where a step stands that is taken in the world: it began when the tables were as they are now.
-/
def Phase.Stands (R : Rules) (Q : Snapshot → Prop) (limit : Nat) (s : Snapshot) (v : View) :
    Phase → Prop
  | .idle => ∃ p, Shows Q v p ∧ p.Calm s
  | .working source work =>
    ∃ b first, Fine Q b ∧ b.Calm s ∧ (∃ p, Shows Q v p ∧ p.Calm b) ∧
      b.firstJob? = some first ∧ source = first.stage ∧
      ∀ r, work.Ends (Seen R Q b) r → ∃ x, Seen R Q b x ∧
        (Registry.standard first.kind x ⟨.begin b, first.started⟩).Ends (Seen R Q b) r
  | .closing _ d =>
    (∃ p, Shows Q v p ∧ p.Calm s) ∧ d.txn.base.Calm s ∧
      ∃ b W first, Closes R Q limit b W first d
  | .looking => True

def Event.Allowed (R : Rules) : Event → Prop
  | .plan st checks => R.statement st ∧ R.checks checks
  | .begin checks _ | .answer _ checks _ => R.checks checks
  | _ => True

/--
A world whose ledger is of a kind, with all that is under way in it.
-/
structure Reached (R : Rules) (Q : Snapshot → Prop) (limit : Nat) (w : World) : Prop where
  file : w.store.file = none
  fine : Fine Q w.store.snapshot
  view : ∃ p, Shows Q w.view p ∧ p.Precedes w.store.snapshot
  plans : ∀ f ∈ w.plans, Planned R Q w.store.snapshot f
  drafts : ∀ t ∈ w.drafts, Drawn R Q w.store.snapshot t
  phase : w.phase.Stands R Q limit w.store.snapshot w.view

variable {R : Rules} {Q : Snapshot → Prop} {limit : Nat} {w : World} {s s' : Snapshot} {t : Txn}
  {store store' : Store}

theorem reached_ofStore (h : Q .initial) : (ofStore .inMemory).Reached R Q limit where
  file := rfl
  fine := ⟨h, Snapshot.tidy_initial⟩
  view := ⟨.initial, ⟨⟨h, Snapshot.tidy_initial⟩, rfl⟩, .refl _⟩
  plans f hf := by cases hf
  drafts t ht := by cases ht
  phase := ⟨.initial, ⟨⟨h, Snapshot.tidy_initial⟩, rfl⟩, .refl _⟩

section Drift

theorem Drawn.mono (h : Drawn R Q s t) (hs : s.Precedes s') : Drawn R Q s' t := by
  cases h with
  | submits base hb hbs st σ v p job hst hp hpb hσ hm h =>
    exact .submits base hb (hbs.trans hs) st σ v p job hst hp hpb hσ hm h
  | founds base hbs σ h => exact .founds base (hbs.trans hs) σ h

theorem Drawn.move (limit : Nat) (h : Drawn R Q store.snapshot t) (hf : store.file = none)
    (hc : store.commit t = .ok store') :
    Move R Q limit store.snapshot store'.snapshot ∧ store.snapshot.Calm store'.snapshot := by
  cases h with
  | submits base hb hbs st σ v p job hst hp hpb hσ hm h =>
    have hsub := h.submitted hf hb hbs hst hp hpb hσ hm hc
    exact ⟨.submitted job hsub, hsub.calm⟩
  | founds base hbs σ h =>
    have hfound := h.founded hf hbs hc
    exact ⟨.founded σ hfound, hfound.calm⟩

theorem Phase.Stands.mono {v : View} {phase : Phase} (h : phase.Stands R Q limit s v)
    (hs : s.Calm s') : phase.Stands R Q limit s' v := by
  cases phase with
  | idle =>
    obtain ⟨p, hp, hps⟩ := h
    exact ⟨p, hp, hps.trans hs⟩
  | working source work =>
    obtain ⟨b, first, hb, hbs, hv, hfirst, hsource, hwork⟩ := h
    exact ⟨b, first, hb, hbs.trans hs, hv, hfirst, hsource, hwork⟩
  | closing what d =>
    obtain ⟨⟨p, hp, hps⟩, hd, hclose⟩ := h
    exact ⟨⟨p, hp, hps.trans hs⟩, hd.trans hs, hclose⟩
  | looking => trivial

theorem Reached.drift (h : w.Reached R Q limit) (hf : store'.file = none)
    (hq : Fine Q store'.snapshot) (hs : w.store.snapshot.Calm store'.snapshot) :
    { w with store := store' }.Reached R Q limit where
  file := hf
  fine := hq
  view := by
    obtain ⟨p, hp, hps⟩ := h.view
    exact ⟨p, hp, hps.trans hs.toPrecedes⟩
  plans f hf := (h.plans f hf).mono hs.toPrecedes
  drafts t ht := (h.drafts t ht).mono hs.toPrecedes
  phase := h.phase.mono hs

theorem Reached.idle (h : w.Reached R Q limit)
    (hv : ∃ p, Shows Q w.view p ∧ p.Calm w.store.snapshot) :
    { w with phase := .idle }.Reached R Q limit := ⟨h.file, h.fine, h.view, h.plans, h.drafts, hv⟩

end Drift

section Events

theorem Reached.draw (h : w.Reached R Q limit) (ht : Drawn R Q w.store.snapshot t) :
    { w with drafts := w.drafts ++ [t] }.Reached R Q limit where
  file := h.file
  fine := h.fine
  view := h.view
  plans := h.plans
  drafts x hx := by
    cases List.mem_append.1 hx with
    | inl hx => exact h.drafts x hx
    | inr hx =>
      rw [List.mem_singleton.1 hx]
      exact ht
  phase := h.phase

theorem Reached.found (h : w.Reached R Q limit) {name : String} {id : Int}
    (ht : w.store.begin.foundSchema name = .ok (id, t)) :
    { w with drafts := w.drafts ++ [t] }.Reached R Q limit := by
  obtain ⟨σ, hσ⟩ := foundSchema_raised ht
  exact h.draw (.founds _ (.refl _) σ hσ)

theorem Reached.enlist (h : w.Reached R Q limit) {f : Txn → Job × Txn} (hf : f ∈ w.plans) :
    { w with drafts := w.drafts ++ [(Engine.enlist f w.store.begin).2] }.Reached R Q limit := by
  obtain ⟨st, v, p, hst, hp, hps, σ, hσ, hmakes⟩ := h.plans f hf
  obtain ⟨job, hm, hjob⟩ := enlist_enlisted w.store.snapshot hmakes
  exact h.draw (.submits _ h.fine.tidy (.refl _) st σ v p job hst hp hps hσ hm hjob)

theorem Reached.plan (h : w.Reached R Q limit) {st : Statement} {checks : Bool}
    {f : Txn → Job × Txn} (hst : R.statement st) (hf : st.plan checks w.view = .ok f) :
    { w with plans := w.plans ++ [f] }.Reached R Q limit where
  file := h.file
  fine := h.fine
  view := h.view
  plans x hx := by
    cases List.mem_append.1 hx with
    | inl hx => exact h.plans x hx
    | inr hx =>
      rw [List.mem_singleton.1 hx]
      obtain ⟨p, hp, hps⟩ := h.view
      exact ⟨st, w.view, p, hst, hp, hps, Engine.planOf_plan hf⟩
  drafts := h.drafts
  phase := h.phase

theorem Reached.begin (h : w.Reached R Q limit) {checks : Bool} {stamp : Nat} {begun : Step.Begun}
    (hc : R.checks checks) (hidle : w.phase = .idle)
    (hb : Step.begin w.store .standard ⟨w.view, checks, stamp⟩ = some begun) :
    { w with phase := .working begun.source begun.work }.Reached R Q limit := by
  refine ⟨h.file, h.fine, h.view, h.plans, h.drafts, ?_⟩
  have hstands := h.phase
  rw [hidle] at hstands
  obtain ⟨first, hfirst, rfl⟩ := Option.map_eq_some_iff.1 hb
  refine ⟨w.store.snapshot, first, h.fine, .refl _, hstands, hfirst, rfl, ?_⟩
  intro r hr
  exact ⟨⟨w.view, checks, stamp⟩, ⟨hc, hstands⟩, hr⟩

theorem Reached.answer (h : w.Reached R Q limit) {checks : Bool} {stamp : Nat} {source : Stage}
    {st : Sql.Statement} {k : Step.Surroundings → Step.Answer → Work Result} (a : Step.Answer)
    (hc : R.checks checks) (hphase : w.phase = .working source (.ask st k)) :
    { w with phase := .working source (k ⟨w.view, checks, stamp⟩ a) }.Reached R Q limit := by
  refine ⟨h.file, h.fine, h.view, h.plans, h.drafts, ?_⟩
  have hstands := h.phase
  rw [hphase] at hstands
  obtain ⟨b, first, hb, hbs, hv, hfirst, hsource, hwork⟩ := hstands
  refine ⟨b, first, hb, hbs, hv, hfirst, hsource, ?_⟩
  intro r hr
  exact hwork r (.ask st k _ ⟨hc, hv⟩ a r hr)

theorem Reached.view_working (h : w.Reached R Q limit) {source : Stage} {work : Work Result}
    (hphase : w.phase = .working source work) :
    ∃ p, Shows Q w.view p ∧ p.Calm w.store.snapshot := by
  have hstands := h.phase
  rw [hphase] at hstands
  obtain ⟨b, first, hb, hbs, ⟨p, hp, hpb⟩, -⟩ := hstands
  exact ⟨p, hp, hpb.trans hbs⟩

theorem took_of_ends {b : Snapshot} {first : Job} {x : Step.Surroundings} {r : Result}
    (hb : Fine Q b) (hfirst : b.firstJob? = some first) (hx : Seen R Q b x)
    (hends : (Registry.standard first.kind x ⟨.begin b, first.started⟩).Ends (Seen R Q b) r) :
    Step.Took (Seen R Q b) x ⟨.begin b, first.started⟩ r := by
  obtain ⟨-, hkind, -⟩ := hb.tidy.first_filed hfirst
  have hstarted := Change.Job.follows_started first
  apply Step.standard_took hb.tidy.keyed _ hx
  · dsimp only
    rw [hstarted.kind]
    exact hends
  · exact hstarted.kind_eq hkind

theorem Reached.took (h : w.Reached R Q limit) {source : Stage} {r : Result}
    (hphase : w.phase = .working source (.done r)) :
    ∃ b first x, Fine Q b ∧ b.Calm w.store.snapshot ∧ b.firstJob? = some first ∧
      source = first.stage ∧ Seen R Q b x ∧
      Step.Took (Seen R Q b) x ⟨.begin b, first.started⟩ r := by
  have hstands := h.phase
  rw [hphase] at hstands
  obtain ⟨b, first, hb, hbs, hv, hfirst, hsource, hwork⟩ := hstands
  obtain ⟨x, hx, hends⟩ := hwork r (.done r)
  exact ⟨b, first, x, hb, hbs, hfirst, hsource, hx, took_of_ends hb hfirst hx hends⟩

theorem closes_of_outcome {b W : Snapshot} {first : Job} {d : Draft} (hb : Fine Q b)
    (hbs : b.Calm store.snapshot) (hs : store.snapshot.Tidy) (hfirst : b.firstJob? = some first)
    (hW : Step.Outcome limit (Seen R Q b) b first W d.job)
    (hd : d.txn = ⟨b, W⟩ ∨ d.txn = store.begin ∧ W = b) :
    d.txn.base.Calm store.snapshot ∧ Closes R Q limit b W first d := by
  -- What is committed is the draft itself, or one that begins now and holds the job alone.
  cases hd with
  | inl hown =>
    rw [hown]
    refine ⟨hbs, hb, ?_, ?_, hfirst, hW, ?_, ?_, ?_⟩
    · rw [hown]
      exact .refl b
    · rw [hown]
      exact hb.tidy
    · rw [hown]
      exact hW.edits
    · intro y z
      rw [hown]
      rfl
    · rw [hown]
      exact .inl ⟨rfl, rfl⟩
  | inr hjob =>
    obtain ⟨hnow, rfl⟩ := hjob
    rw [hnow]
    refine ⟨.refl _, hb, ?_, ?_, hfirst, hW, ?_, ?_, ?_⟩
    · rw [hnow]
      exact hbs
    · rw [hnow]
      exact hs
    · rw [hnow]
      exact .refl _
    · intro y z
      rw [hnow]
      exact hbs.table y z
    · rw [hnow]
      exact .inr ⟨rfl, rfl⟩

theorem Reached.closing (h : w.Reached R Q limit) {source : Stage} {r : Result} {owned : Bool}
    {what : String} {d : Draft} (hphase : w.phase = .working source (.done r))
    (hd : Step.settle limit w.store owned source r = some (what, d)) :
    { w with phase := .closing what d }.Reached R Q limit := by
  refine ⟨h.file, h.fine, h.view, h.plans, h.drafts, h.view_working hphase, ?_⟩
  obtain ⟨b, first, x, hb, hbs, hfirst, rfl, hx, htook⟩ := h.took hphase
  obtain ⟨W, hW, hbase⟩ := Step.settle_outcome hx htook hd
  obtain ⟨hcalm, hcloses⟩ := closes_of_outcome hb hbs h.fine.tidy hfirst hW hbase
  exact ⟨hcalm, b, W, first, hcloses⟩

theorem Reached.view_closing (h : w.Reached R Q limit) {what : String} {d : Draft}
    (hphase : w.phase = .closing what d) : ∃ p, Shows Q w.view p ∧ p.Calm w.store.snapshot := by
  have hstands := h.phase
  rw [hphase] at hstands
  exact hstands.1

theorem Reached.close_stepped (h : w.Reached R Q limit) {what : String} {d : Draft} {job : Job}
    (hphase : w.phase = .closing what d)
    (hc : Step.commit w.store what d = .ok (.committed store' job)) :
    (∃ b W first, Closes R Q limit b W first d ∧
      Stepped R Q limit w.store.snapshot store'.snapshot b W first d.job) ∧
      store'.file = none := by
  have hstands := h.phase
  rw [hphase] at hstands
  obtain ⟨-, hcalm, b, W, first, hclose⟩ := hstands
  obtain ⟨-, t, hpersist, hcommit⟩ := commit_eq_committed hc
  have hp := hclose.persisted hpersist
  exact ⟨⟨b, W, first, hclose, hclose.stepped hp h.file hcalm hcommit⟩,
    Store.file_of_commit h.file hcommit⟩

theorem Reached.close_move (h : w.Reached R Q limit) {what : String} {d : Draft} {job : Job}
    (hphase : w.phase = .closing what d)
    (hc : Step.commit w.store what d = .ok (.committed store' job)) :
    Move R Q limit w.store.snapshot store'.snapshot ∧ store'.file = none := by
  obtain ⟨⟨b, W, first, -, hstepped⟩, hfile⟩ := h.close_stepped hphase hc
  exact ⟨.stepped b W first d.job hstepped, hfile⟩

theorem Reached.looking (h : w.Reached R Q limit) (hf : store'.file = none)
    (hq : Fine Q store'.snapshot) (hs : w.store.snapshot.Precedes store'.snapshot) :
    { w with store := store', phase := .looking }.Reached R Q limit where
  file := hf
  fine := hq
  view := by
    obtain ⟨p, hp, hps⟩ := h.view
    exact ⟨p, hp, hps.trans hs⟩
  plans f hf := (h.plans f hf).mono hs
  drafts t ht := (h.drafts t ht).mono hs
  phase := trivial

theorem Reached.reopen (h : w.Reached R Q limit) :
    { w with view := .ofSnapshot w.store.snapshot, phase := .idle }.Reached R Q limit where
  file := h.file
  fine := h.fine
  view := ⟨w.store.snapshot, ⟨h.fine, rfl⟩, .refl _⟩
  plans := h.plans
  drafts := h.drafts
  phase := ⟨w.store.snapshot, ⟨h.fine, rfl⟩, .refl _⟩

theorem Reached.reload_eq (h : w.Reached R Q limit) :
    w.view.reload w.store.snapshot = .ofSnapshot w.store.snapshot := by
  -- A view is never newer than the ledger.
  obtain ⟨p, hp, hps⟩ := h.view
  unfold View.reload
  apply if_pos
  rw [hp.view]
  exact hps.before.schemaVersion

end Events

section Step

variable {e : Event}

theorem step_moves (h : w.Reached R Q limit) (e : Event) :
    (w.step .standard limit e).store = w.store ∨
      Move R Q limit w.store.snapshot (w.step .standard limit e).store.snapshot := by
  cases e with
  | commit n =>
    unfold step
    dsimp only
    split
    · next t ht =>
      unfold commitDraft
      dsimp only
      split
      · next store' hc =>
        exact .inr ((h.drafts t (List.mem_of_getElem? ht)).move limit h.file hc).1
      · exact .inl rfl
    · exact .inl rfl
  | close =>
    unfold step
    dsimp only
    split
    · next what d hphase =>
      unfold closeStep
      split
      · next hc => exact .inr (h.close_move hphase hc).1
      · exact .inl rfl
    · exact .inl rfl
  | _ =>
    left
    unfold step
    dsimp only
    repeat' split
    all_goals rfl

theorem reached_step (hQ : ∀ s s', Fine Q s → Move R Q limit s s' → Q s')
    (h : w.Reached R Q limit) (he : e.Allowed R) :
    (w.step .standard limit e).Reached R Q limit := by
  have hfine {s' : Snapshot} (hm : Move R Q limit w.store.snapshot s') : Fine Q s' :=
    ⟨hQ _ _ h.fine hm, hm.tidy h.fine.tidy⟩
  unfold step
  cases e with
  | found name =>
    dsimp only
    split
    · next id t ht => exact h.found ht
    · exact h
  | plan st checks =>
    dsimp only
    split
    · next f hf => exact h.plan he.1 hf
    · exact h
  | draw n =>
    dsimp only
    split
    · next f hf => exact h.enlist (List.mem_of_getElem? hf)
    · exact h
  | commit n =>
    dsimp only
    split
    · next t ht =>
      have hdropped : { w with drafts := w.drafts.eraseIdx n }.Reached R Q limit :=
        ⟨h.file, h.fine, h.view, h.plans,
          fun x hx => h.drafts x (List.mem_of_mem_eraseIdx hx), h.phase⟩
      unfold commitDraft
      dsimp only
      split
      · next store' hc =>
        obtain ⟨hm, hcalm⟩ := (h.drafts t (List.mem_of_getElem? ht)).move limit h.file hc
        exact hdropped.drift (Store.file_of_commit h.file hc) (hfine hm) hcalm
      · exact hdropped
    · exact h
  | begin checks stamp =>
    dsimp only
    split
    · next begun hidle hb => exact h.begin he hidle hb
    · exact h
  | answer a checks stamp =>
    dsimp only
    split
    · next source st k hphase => exact h.answer a he hphase
    · exact h
  | settle owned =>
    dsimp only
    split
    · next source r hphase =>
      split
      · next what d hd => exact h.closing hphase hd
      · exact h.idle (h.view_working hphase)
    · exact h
  | close =>
    dsimp only
    split
    · next what d hphase =>
      unfold closeStep
      split
      · next store' job hc =>
        obtain ⟨hm, hf⟩ := h.close_move hphase hc
        exact h.looking hf (hfine hm) hm.precedes
      · exact h.idle (h.view_closing hphase)
    · exact h
  | look =>
    dsimp only
    split
    · rw [h.reload_eq]
      exact h.reopen
    · exact h
  | reopen => exact h.reopen

theorem run_induction (h : Q .initial) (hQ : ∀ s s', Fine Q s → Move R Q limit s s' → Q s')
    (es : List Event) (hes : ∀ e ∈ es, e.Allowed R) :
    ((ofStore .inMemory).run .standard limit es).Reached R Q limit := by
  unfold run
  have hrun (w : World) (hw : w.Reached R Q limit) :
      (es.foldl (step .standard limit) w).Reached R Q limit := by
    induction es generalizing w with
    | nil => exact hw
    | cons e es ih =>
      apply ih (fun x hx => hes x (List.mem_cons_of_mem e hx))
      exact reached_step hQ hw (hes e List.mem_cons_self)
  exact hrun _ (reached_ofStore h)

end Step

end World

end Steward
