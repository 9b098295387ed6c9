import Mathlib.Logic.Relation
import Steward.Engine.Upkeep
import Steward.Proofs.World.Integrity
import Steward.Proofs.World.Sight
import Steward.Proofs.World.Turns

/-!
This module contains the nodes of the world: whatever a node does with statements and steps, some
events of the world do the same. So a node keeps what a world keeps, and a line, and what is seen of
the schemas in it.
-/

namespace Steward

open Change (Job)
open Engine (Flight Node Standing Statement)
open Ledger
open Step (Registry Result Work)

namespace Engine

/--
The phase of the world while the step of a node stands there.
-/
def Standing.phase : Standing → World.Phase
  | .flying f => .working f.source (.ask f.statement f.k)
  | .idle | .ended _ | .failed _ => .idle

namespace Node

structure Mirrors (n : Node) (phase : World.Phase) (w : World) : Prop where
  store : w.store = n.store
  view : w.view = n.view
  phase : w.phase = phase

theorem submit_eq_ok {n n' : Node} {st : Statement} {id : Int} (h : n.submit st = .ok (id, n')) :
    ∃ f store, st.plan n.settings.checksForeignKeys n.view = .ok f ∧
      n.store.commit (Engine.enlist f n.store.begin).2 = .ok store ∧ n' = { n with store } := by
  obtain ⟨f, hplan, h⟩ := bind_eq_ok.1 h
  obtain ⟨_, hcommit, hn⟩ := bind_eq_ok.1 h
  obtain ⟨store, hstore, hnode⟩ := bind_eq_ok.1 (during_eq_ok.1 hcommit)
  cases hn
  cases hnode
  refine ⟨f, store, ?_, hstore, rfl⟩
  cases hp : st.plan n.settings.checksForeignKeys n.view with
  | ok g =>
    rw [hp] at hplan
    cases hplan
    rfl
  | error t =>
    rw [hp] at hplan
    cases hplan

/--
What may happen to a node while it takes steps: statements are submitted, schemas are created if they
may be, the step goes on, the node starts over, and the clock, the pool and the owner may change at any
time.
-/
inductive Moves (R : Rules) (founds : Prop) (handlers : Registry) :
    Standing × Node → Standing × Node → Prop where
  | founded (s : Standing) (n n' : Node) (hf : founds) (name : String) (id : Int)
      (h : n.createSchema name = .ok (id, n')) :
    Moves R founds handlers (s, n) (s, n')
  | submitted (s : Standing) (n n' : Node) (st : Statement) (hst : R.statement st) (id : Int)
      (h : n.submit st = .ok (id, n')) :
    Moves R founds handlers (s, n) (s, n')
  | began (s : Standing) (n : Node) (hs : s.phase = .idle) :
    Moves R founds handlers (s, n) (n.beginStep handlers)
  | landed (f : Flight) (n : Node) : Moves R founds handlers (.flying f, n) (n.land f)
  | lost (f : Flight) (n : Node) : Moves R founds handlers (.flying f, n) (n.lose f)
  | passed (s : Standing) (n : Node) (isOwner : Bool) (pool : Sql.Pool) (clock : Nat)
      (epoch : Int) :
    Moves R founds handlers (s, n) (s, { n with isOwner, pool, clock, epoch })
  | restarted (s : Standing) (n : Node) (isOwner : Bool) (epoch : Int) :
    Moves R founds handlers (s, n) (.idle, .ofStore n.store n.settings isOwner epoch)

/--
A system with a world in it, in which all of that can happen: it leads on to where the world goes by
an event, and to where a statement that passed its checks is submitted in some way or other.
-/
structure Hosts {σ : Type} (R : Rules) (founds : Prop) (handlers : Registry) (limit : Nat)
    (world : σ → World) (leads : σ → σ → Prop) : Prop where
  refl (s : σ) : leads s s
  trans {s s' s'' : σ} (h : leads s s') (h' : leads s' s'') : leads s s''
  step (s : σ) (e : World.Event) (he : e.Allowed R) (hplan : e.isPlan = false)
    (hfound : e.isFound = true → founds) :
    ∃ s', leads s s' ∧ world s' = (world s).step handlers limit e
  submit (s : σ) {st : Statement} {checks : Bool} {f : Txn → Job × Txn} {store : Store}
    (hst : R.statement st) (hR : R.checks checks) (hf : st.plan checks (world s).view = .ok f)
    (hc : (world s).store.commit (Engine.enlist f (world s).store.begin).2 = .ok store) :
    ∃ s', leads s s' ∧ (world s').store = store ∧ (world s').view = (world s).view ∧
      (world s').phase = (world s).phase

def Follows {σ : Type} (world : σ → World) (leads : σ → σ → Prop) (s : σ) (x : Standing × Node) :
    Prop :=
  ∃ s', leads s s' ∧ x.2.Mirrors x.1.phase (world s')

section Hosts

variable {σ : Type} {R : Rules} {founds : Prop} {handlers : Registry} {limit : Nat}
  {world : σ → World} {leads : σ → σ → Prop} (H : Hosts R founds handlers limit world leads)
  {s : σ} {w : World} {x y : Standing × Node} {n n' : Node} {u : Standing}
  {source : Catalog.Stage} {rest : Work Result} {r : Result}
include H

theorem Mirrors.follows (h : x.2.Mirrors x.1.phase (world s)) : Follows world leads s x :=
  ⟨s, H.refl s, h⟩

theorem Follows.of_step (e : World.Event) (he : e.Allowed R) (hplan : e.isPlan = false)
    (hfound : e.isFound = true → founds) (hw : (world s).step handlers limit e = w)
    (h : ∀ s', world s' = w → Follows world leads s' x) : Follows world leads s x := by
  obtain ⟨s', hleads, hs'⟩ := H.step s e he hplan hfound
  obtain ⟨s'', hleads', hmirrors⟩ := h s' (hs'.trans hw)
  exact ⟨s'', H.trans hleads hleads', hmirrors⟩

theorem Follows.trans (h : Follows world leads s x)
    (hxy : ∀ s', x.2.Mirrors x.1.phase (world s') → Follows world leads s' y) :
    Follows world leads s y := by
  obtain ⟨s', hleads, hmirrors⟩ := h
  obtain ⟨s'', hleads', hmirrors'⟩ := hxy s' hmirrors
  exact ⟨s'', H.trans hleads hleads', hmirrors'⟩

section Work

theorem Mirrors.settle (hw : n.Mirrors (.working source (.done r)) (world s)) (owned : Bool) :
    Follows world leads s (n.settle (Step.conclude limit n.store owned source r)) := by
  unfold Step.conclude
  cases h : Step.settle limit n.store owned source r with
  | none =>
    refine Follows.of_step H (.settle owned) trivial rfl nofun
      (w := { world s with phase := .idle }) ?_ fun s' hs' => Mirrors.follows H ?_
    · simp only [World.step, hw.phase, hw.store, h]
    · rw [hs']
      exact ⟨hw.store, hw.view, rfl⟩
  | some closing =>
    obtain ⟨what, d⟩ := closing
    refine Follows.of_step H (.settle owned) trivial rfl nofun
      (w := { world s with phase := .closing what d }) ?_ fun s₁ hs₁ => ?_
    · simp only [World.step, hw.phase, hw.store, h]
    refine Follows.of_step H .close trivial rfl nofun
      (w := (world s₁).closeStep what d) ?_ fun s₂ hs₂ => ?_
    · rw [hs₁]
      rfl
    rw [hs₁] at hs₂
    unfold World.closeStep at hs₂
    dsimp only at hs₂
    rw [hw.store] at hs₂
    dsimp only
    cases hc : Step.commit n.store what d with
    | error t =>
      rw [hc] at hs₂
      refine Mirrors.follows H ?_
      rw [hs₂]
      exact ⟨rfl, hw.view, rfl⟩
    | ok ending =>
      rw [hc] at hs₂
      cases ending with
      | abandoned =>
        refine Mirrors.follows H ?_
        rw [hs₂]
        exact ⟨rfl, hw.view, rfl⟩
      | committed store job =>
        refine Follows.of_step H .look trivial rfl nofun rfl fun s₃ hs₃ => Mirrors.follows H ?_
        rw [hs₂] at hs₃
        rw [hs₃]
        exact ⟨rfl, congrArg (·.reload store.snapshot) hw.view, rfl⟩

theorem Mirrors.answer {st : Sql.Statement} {k : Step.Surroundings → Step.Answer → Work Result}
    (hw : n.Mirrors (.working source (.ask st k)) (world s))
    (hR : R.checks n.settings.checksForeignKeys) (a : Step.Answer)
    (h : ∀ s, n.Mirrors (.working source (k n.surroundings a)) (world s) → Follows world leads s x) :
    Follows world leads s x := by
  refine Follows.of_step H (.answer a n.settings.checksForeignKeys n.now.wall.stamp) hR rfl nofun
    (w := { world s with phase := .working source (k n.surroundings a) }) ?_ fun s' hs' => h s' ?_
  · unfold World.step
    dsimp only
    rw [hw.phase, hw.view]
    rfl
  · rw [hs']
    exact ⟨hw.store, hw.view, rfl⟩

theorem Mirrors.work (hlimit : n.settings.errorLimit = limit)
    (hw : n.Mirrors (.working source rest) (world s)) (hR : R.checks n.settings.checksForeignKeys)
    (owned : Bool) : Follows world leads s (n.work owned source rest) := by
  induction rest generalizing n s with
  | done r =>
    unfold Node.work
    rw [hlimit]
    exact hw.settle H _
  | ask st k ih =>
    unfold Node.work
    split
    · split
      · exact hw.answer H hR _ fun s hw => ih _ _ hlimit ⟨hw.store, hw.view, hw.phase⟩ hR
      · dsimp only
        split
        · exact hw.answer H hR _ fun s hw => ih _ _ hlimit ⟨hw.store, hw.view, hw.phase⟩ hR
        · exact Mirrors.follows H ⟨hw.store, hw.view, hw.phase⟩
    · exact hw.answer H hR _ fun s hw => ih _ _ hlimit hw hR

end Work

section Moves

theorem Mirrors.found (hf : founds) (hw : n.Mirrors u.phase (world s)) {name : String} {id : Int}
    (h : n.createSchema name = .ok (id, n')) : Follows world leads s (u, n') := by
  obtain ⟨⟨_, store⟩, hcreate, hn⟩ := bind_eq_ok.1 h
  cases hn
  obtain ⟨⟨_, t⟩, hfound, hstore⟩ := bind_eq_ok.1 hcreate
  obtain ⟨_, hcommit, hstore⟩ := bind_eq_ok.1 hstore
  cases hstore
  refine Follows.of_step H (.found name) trivial rfl (fun _ => hf)
    (w := { world s with drafts := (world s).drafts ++ [t] }) ?_ fun s₁ hs₁ => ?_
  · simp only [World.step, hw.store, hfound]
  refine Follows.of_step H (.commit (world s).drafts.length) trivial rfl nofun rfl
    fun s₂ hs₂ => Mirrors.follows H ?_
  rw [hs₁] at hs₂
  simp only [World.step, List.getElem?_concat_length, World.commitDraft, hw.store, hcommit] at hs₂
  rw [hs₂]
  exact ⟨rfl, hw.view, hw.phase⟩

theorem Mirrors.submit (hw : n.Mirrors u.phase (world s))
    (hR : R.checks n.settings.checksForeignKeys) {st : Statement} (hst : R.statement st) {id : Int}
    (h : n.submit st = .ok (id, n')) : Follows world leads s (u, n') := by
  obtain ⟨f, store, hf, hc, rfl⟩ := submit_eq_ok h
  obtain ⟨s', hleads, hstore, hview, hphase⟩ :=
    H.submit s hst hR (hw.view ▸ hf) (hw.store.symm ▸ hc)
  exact ⟨s', hleads, ⟨hstore, hview.trans hw.view, hphase.trans hw.phase⟩⟩

theorem Mirrors.begin (hlimit : n.settings.errorLimit = limit) (hw : n.Mirrors .idle (world s))
    (hR : R.checks n.settings.checksForeignKeys) :
    Follows world leads s (n.beginStep handlers) := by
  unfold Node.beginStep
  split
  · exact Mirrors.follows H hw
  · next begun hbegin =>
    refine Follows.of_step H (.begin n.settings.checksForeignKeys n.now.wall.stamp) hR rfl nofun
      (w := { world s with phase := .working begun.source begun.work }) ?_
      fun s' hs' => Mirrors.work H hlimit ?_ hR _
    · unfold Node.surroundings at hbegin
      simp only [World.step, hw.phase, hw.store, hw.view, hbegin]
    · rw [hs']
      exact ⟨hw.store, hw.view, rfl⟩

theorem Mirrors.move (hlimit : x.2.settings.errorLimit = limit)
    (hw : x.2.Mirrors x.1.phase (world s)) (hR : R.checks x.2.settings.checksForeignKeys)
    (h : Moves R founds handlers x y) : Follows world leads s y := by
  cases h with
  | founded u n n' hf name id h => exact hw.found H hf h
  | submitted u n n' st hst id h => exact hw.submit H hR hst h
  | began u n hs =>
    dsimp only at hw
    rw [hs] at hw
    exact hw.begin H hlimit hR
  | landed f n =>
    unfold Node.land
    cases n.pool.answer n.clock f.statement with
    | mk reply pool =>
      apply Mirrors.answer H hw hR (.replied reply)
      intro s hw
      have hland : Mirrors { n with pool := pool.release }
          (.working f.source (f.k n.surroundings (.replied reply))) (world s) :=
        ⟨hw.store, hw.view, hw.phase⟩
      exact Mirrors.work H (n := { n with pool := pool.release }) hlimit hland hR true
  | lost f n =>
    apply Mirrors.answer H hw hR .lost
    intro s hw
    have hlose : Mirrors { n with pool := n.pool.release }
        (.working f.source (f.k n.surroundings .lost)) (world s) := ⟨hw.store, hw.view, hw.phase⟩
    exact Mirrors.work H (n := { n with pool := n.pool.release }) hlimit hlose hR false
  | passed => exact Mirrors.follows H ⟨hw.store, hw.view, hw.phase⟩
  | restarted u n =>
    refine Follows.of_step H .reopen trivial rfl nofun rfl fun s' hs' => Mirrors.follows H ?_
    have hview : View.ofSnapshot (world s).store.snapshot = .ofSnapshot n.store.snapshot :=
      congrArg (fun store : Store => View.ofSnapshot store.snapshot) hw.store
    rw [hs']
    exact ⟨hw.store, hview, rfl⟩

end Moves

end Hosts

section Settings

variable {R : Rules} {founds : Prop} {handlers : Registry} {x y : Standing × Node}

theorem settings_work (n : Node) (owned : Bool) (source : Catalog.Stage) (rest : Work Result) :
    (n.work owned source rest).2.settings = n.settings := by
  induction rest generalizing n with
  | done r =>
    unfold Node.work Node.settle
    split <;> rfl
  | ask st k ih =>
    unfold Node.work
    split
    · split
      · exact ih _ _ _
      · dsimp only
        split
        · exact ih _ _ _
        · rfl
    · exact ih _ _ _

theorem settings_of_move (h : Moves R founds handlers x y) : y.2.settings = x.2.settings := by
  cases h with
  | founded s n n' hf name id h =>
    obtain ⟨_, _, h⟩ := bind_eq_ok.1 h
    cases h
    rfl
  | submitted s n n' st hst id h =>
    obtain ⟨_, _, _, _, rfl⟩ := submit_eq_ok h
    rfl
  | began s n hs =>
    dsimp only
    unfold Node.beginStep
    split
    · rfl
    · exact settings_work n _ _ _
  | landed f n => exact settings_work _ _ _ _
  | lost f n => exact settings_work _ _ _ _
  | passed => rfl
  | restarted => rfl

theorem settings_of_moves (h : Relation.ReflTransGen (Moves R founds handlers) x y) :
    y.2.settings = x.2.settings := by
  induction h with
  | refl => rfl
  | tail _ hm ih => exact (settings_of_move hm).trans ih

theorem Mirrors.moves {σ : Type} {world : σ → World} {leads : σ → σ → Prop} {s : σ}
    (H : Hosts R founds handlers x.2.settings.errorLimit world leads)
    (hw : x.2.Mirrors x.1.phase (world s)) (hR : R.checks x.2.settings.checksForeignKeys)
    (h : Relation.ReflTransGen (Moves R founds handlers) x y) : Follows world leads s y := by
  induction h with
  | refl => exact hw.follows H
  | tail hx hm ih =>
    have hsettings := settings_of_moves hx
    refine Follows.trans H ih fun s' hw => Mirrors.move H ?_ hw ?_ hm
    · rw [hsettings]
    · rw [hsettings]
      exact hR

end Settings

section Ledger

variable {R : Rules} {founds : Prop} {settings : Engine.Settings}
  {isOwner : Bool} {epoch : Int} {x : Standing × Node}

theorem submits_run (handlers : Registry) (limit : Nat) {w : World} {st : Statement} {checks : Bool}
    {f : Txn → Job × Txn} {store : Store} (hf : st.plan checks w.view = .ok f)
    (hc : w.store.commit (Engine.enlist f w.store.begin).2 = .ok store) :
    let w' := w.run handlers limit
      [.plan st checks, .draw w.plans.length, .commit w.drafts.length]
    w'.store = store ∧ w'.view = w.view ∧ w'.phase = w.phase := by
  simp only [World.run, List.foldl_cons, List.foldl_nil, World.step, hf, List.getElem?_concat_length,
    World.commitDraft, hc, and_self]

theorem hosts_world (R : Rules) (founds : Prop) (handlers : Registry) (limit : Nat) :
    Hosts R founds handlers limit id fun w w' => ∃ es, (∀ e ∈ es, World.Event.Allowed R e) ∧
      w' = w.run handlers limit es where
  refl w := ⟨[], fun _ he => absurd he List.not_mem_nil, rfl⟩
  trans := by
    rintro w _ _ ⟨es, hes, rfl⟩ ⟨es', hes', rfl⟩
    exact ⟨es ++ es', List.forall_mem_append.2 ⟨hes, hes'⟩, List.foldl_append.symm⟩
  step w e he _ _ := ⟨_, ⟨[e], List.forall_mem_singleton.2 he, rfl⟩, rfl⟩
  submit w st checks f store hst hR hf hc := by
    refine ⟨_, ⟨_, ?_, rfl⟩, submits_run handlers limit hf hc⟩
    simp only [List.forall_mem_cons, World.Event.Allowed]
    exact ⟨⟨hst, hR⟩, trivial, trivial, fun _ he => absurd he List.not_mem_nil⟩

/--
What holds at the beginning and is kept by every move of a ledger holds of the ledger of a node all
along, however its statements and its steps overlap.
-/
theorem ledger_induction {Q : Snapshot → Prop} (h : Q .initial)
    (hQ : ∀ limit s s', Fine Q s → Ledger.Move R Q limit s s' → Q s')
    (hR : R.checks settings.checksForeignKeys)
    (hx : Relation.ReflTransGen (Moves R founds .standard)
      (.idle, .ofStore .inMemory settings isOwner epoch) x) : Fine Q x.2.store.snapshot := by
  have hstart : (ofStore .inMemory settings isOwner epoch).Mirrors .idle (.ofStore .inMemory) :=
    ⟨rfl, rfl, rfl⟩
  obtain ⟨_, ⟨es, hes, rfl⟩, hmirrors⟩ := hstart.moves (hosts_world ..) hR hx
  rw [← hmirrors.store]
  exact (World.run_induction h (hQ settings.errorLimit) es hes).fine

/--
If all statements at a node are careful and foreign keys are checked, the constraints of its public
tables name one public table each, and fit.
-/
theorem foreign_keys_anchored (hR : settings.checksForeignKeys = true)
    (hx : Relation.ReflTransGen (Moves World.guarded founds .standard)
      (.idle, .ofStore .inMemory settings isOwner epoch) x) :
    let s := x.2.store.snapshot
    ∀ a b t, s.table? a b = some t → t.stage = .live → ∀ fk ∈ t.foreignKeys,
      fk.isEnforced = true → ∃ pa pb parent,
        (∀ a' b', Step.RefersAt s.catalog.schemas s.table? fk a' b' ↔ a' = pa ∧ b' = pb) ∧
        s.table? pa pb = some parent ∧ parent.stage = .live ∧ Catalog.Fits parent t fk := by
  intro s a b t ht hl fk hfk he
  have hs : Fine Whole s := ledger_induction whole_initial
    (fun _ _ _ hs h => h.whole hs.tidy (fun _ h => h) hs.holds (fun _ h => h) fun _ h => h) hR hx
  exact hs.holds.fits ht hl hfk he

/--
What is not public at a node is what its first job works on, in the stage of that job.
-/
theorem pending_first (hx : Relation.ReflTransGen (Moves World.openly founds .standard)
      (.idle, .ofStore .inMemory settings isOwner epoch) x) :
    let s := x.2.store.snapshot
    ∀ a b t p, s.table? a b = some t → t.Pending p → ∃ j, s.firstJob? = some j ∧
      a = j.schemaId ∧ b = j.tableId ∧ j.part? t = some p ∧ j.stage ∈ j.kind.intermediate ∧
        t.stageOf p = some j.stage := by
  intro s a b t p ht hp
  have hs : Fine (Concerted true) s := ledger_induction concerted_initial (fun _ _ _ hs h =>
    h.concerted hs.tidy (fun _ => id) hs.holds fun st => World.declares_of_openly) trivial hx
  obtain ⟨j, hj, rfl, rfl, hpart⟩ := hs.holds.first_of_pending hs.tidy ht hp
  exact ⟨j, hj, rfl, rfl, hpart, hs.holds.on_its_way hj ht hp,
    hs.holds.stageOf hs.tidy hj ht hpart hp⟩

end Ledger

section Line

variable {R : Rules} {founds : Prop} {settings : Engine.Settings} {isOwner : Bool} {epoch : Int}
  {x y : Standing × Node}

theorem hosts_line (R : Rules) (founds : Prop) (limit : Nat) :
    Hosts R founds .standard limit Line.world fun l l' => ∃ es, l' = l.run limit es where
  refl l := ⟨[], rfl⟩
  trans := by
    rintro l _ _ ⟨es, rfl⟩ ⟨es', rfl⟩
    exact ⟨es ++ es', List.foldl_append.symm⟩
  step l e _ hplan _ := ⟨_, ⟨[.other e hplan], rfl⟩, rfl⟩
  submit l st checks f store _ _ hf hc := by
    obtain ⟨ids, schemaId, tableId, schemaName, tableName, args, henlist⟩ :=
      Line.enlist_plan hf l.world.store.begin
    rw [henlist] at hc
    refine ⟨_, ⟨[.draw ids schemaId tableId schemaName tableName args, .hand l.slips.length], rfl⟩,
      ?_⟩
    simp only [Line.run, List.foldl_cons, List.foldl_nil, Line.step, List.getElem?_concat_length,
      Line.handIn, hc, and_self]

theorem exists_line (hR : R.checks settings.checksForeignKeys)
    (hx : Relation.ReflTransGen (Moves R founds .standard)
      (.idle, .ofStore .inMemory settings isOwner epoch) x)
    (hxy : Relation.ReflTransGen (Moves R founds .standard) x y) :
    ∃ es fs, x.2.store.snapshot = (Line.empty.run settings.errorLimit es).snapshot ∧
      y.2.store.snapshot =
        ((Line.empty.run settings.errorLimit es).run settings.errorLimit fs).snapshot := by
  have hstart : (ofStore .inMemory settings isOwner epoch).Mirrors .idle Line.empty.world :=
    ⟨rfl, rfl, rfl⟩
  have hsettings : x.2.settings = settings := settings_of_moves hx
  obtain ⟨_, ⟨es, rfl⟩, hmirrors⟩ := hstart.moves (hosts_line ..) hR hx
  obtain ⟨_, ⟨fs, rfl⟩, hmirrors'⟩ := hmirrors.moves (hosts_line R founds _) (hsettings ▸ hR) hxy
  rw [hsettings] at hmirrors'
  exact ⟨es, fs, congrArg Store.snapshot hmirrors.store.symm,
    congrArg Store.snapshot hmirrors'.store.symm⟩

/--
A node serves its jobs in the order of their ids: what is over comes before what is not and never
changes again, and no job is begun before all earlier ones are over.
-/
theorem jobs_served (hR : R.checks settings.checksForeignKeys)
    (hx : Relation.ReflTransGen (Moves R founds .standard)
      (.idle, .ofStore .inMemory settings isOwner epoch) x)
    (hxy : Relation.ReflTransGen (Moves R founds .standard) x y) :
    let s := x.2.store.snapshot
    (∀ id j, s.history.get? id = some j → j.id = id ∧ j.isFinished = true ∧
      y.2.store.snapshot.history.get? id = some j) ∧
    (∀ id k, s.history.get? id ≠ none → s.jobs.get? k ≠ none → id < k) ∧
    ∀ id j, s.jobs.get? id = some j → j.isFinished = false ∧
      (j.status ≠ .queued → ∀ k, s.jobs.get? k ≠ none → id ≤ k) := by
  obtain ⟨es, fs, hsx, hsy⟩ := exists_line hR hx hxy
  have hl := (Line.orderly_run (Line.orderly_empty settings.errorLimit) es).1
  intro s
  rw [hsy, show s = (Line.empty.run settings.errorLimit es).snapshot from hsx]
  refine ⟨fun id j hj => hl.archived hj fs, hl.world.fine.holds.ahead, fun id j hj => ⟨?_, ?_⟩⟩
  · exact (hl.world.fine.tidy.filed id j hj).2.2
  · exact fun hbegun k hk => hl.le_of_begun hj hbegun hk

end Line

section Sight

variable {R : Rules} {handlers : Registry} {settings : Engine.Settings} {isOwner : Bool} {epoch : Int}
  {store : Store} {x y : Standing × Node} {n n' : Node} {f : Flight}

theorem hosts_sight (R : Rules) (handlers : Registry) (limit : Nat) :
    Hosts R False handlers limit Sight.world fun s s' =>
      ∃ es, (∀ n, .load n ∉ es) ∧ s' = s.run handlers limit es where
  refl s := ⟨[], fun _ => List.not_mem_nil, rfl⟩
  trans := by
    rintro s _ _ ⟨es, hes, rfl⟩ ⟨es', hes', rfl⟩
    refine ⟨es ++ es', fun n hn => ?_, List.foldl_append.symm⟩
    exact (List.mem_append.1 hn).elim (hes n) (hes' n)
  step s e _ _ hfound :=
    ⟨_, ⟨[.world e (Bool.eq_false_iff.2 hfound)], fun n hn => by simp at hn, rfl⟩, rfl⟩
  submit s st checks f store _ _ hf hc :=
    ⟨_, ⟨[.world (.plan st checks) rfl, .world (.draw s.world.plans.length) rfl,
      .world (.commit s.world.drafts.length) rfl], fun n hn => by simp at hn, rfl⟩,
      submits_run handlers limit hf hc⟩

/--
As long as schemas are created by nobody, the view of a node shows its catalog at any time, also while
a step is in flight, and no view is ever replaced by an older one.
-/
theorem view_eq_ofSnapshot (hh : handlers.Honest) (hR : R.checks settings.checksForeignKeys)
    (hx : Relation.ReflTransGen (Moves R False handlers)
      (.idle, .ofStore store settings isOwner epoch) x)
    (hxy : Relation.ReflTransGen (Moves R False handlers) x y) :
    x.2.view = .ofSnapshot x.2.store.snapshot ∧
      x.2.view.schemaVersion ≤ y.2.view.schemaVersion := by
  have hstart : (ofStore store settings isOwner epoch).Mirrors .idle (Sight.ofStore store).world :=
    ⟨rfl, rfl, rfl⟩
  have hsettings : x.2.settings = settings := settings_of_moves hx
  obtain ⟨s, ⟨es, hes, hs⟩, hmirrors⟩ := hstart.moves (hosts_sight ..) hR hx
  obtain ⟨s', ⟨es', -, hs'⟩, hmirrors'⟩ :=
    hmirrors.moves (hosts_sight R handlers _) (hsettings ▸ hR) hxy
  have hsound : s.Sound handlers := hs ▸ Sight.sound_run hh (Sight.sound_ofStore store) es
  have hfresh : s.Fresh := hs ▸
    Sight.fresh_run hh (Sight.sound_ofStore store) (Sight.fresh_ofStore store) es (.inr hes)
  constructor
  · rw [← hmirrors.view, ← hmirrors.store]
    refine hfresh.shown ?_
    rw [hmirrors.phase]
    cases x.1 with
    | flying f => exact nofun
    | idle | ended _ | failed _ => exact nofun
  · rw [← hmirrors.view, ← hmirrors'.view, hs']
    exact Sight.schemaVersion_le_run hh hsound es'

theorem store_work {owned : Bool} {source : Catalog.Stage} {rest : Work Result}
    (h : n.work owned source rest = (.flying f, n')) : n'.store = n.store := by
  induction rest generalizing n owned with
  | done r =>
    unfold Node.work Node.settle at h
    split at h <;> cases h
  | ask st k ih =>
    unfold Node.work at h
    split at h
    · split at h
      · have hstore := ih _ _ h
        exact hstore
      · dsimp only at h
        split at h
        · have hstore := ih _ _ h
          exact hstore
        · cases h
          rfl
    · exact ih _ _ h

/--
The catalog stays the same until the step that is in flight has ended. So a handler is shown the
catalog on which its step began.
-/
theorem catalog_of_flying (h : Moves R False handlers x (.flying f, n')) :
    n'.store.snapshot.catalog = x.2.store.snapshot.catalog := by
  generalize hy : (Standing.flying f, n') = y at h
  cases h with
  | founded s n n' hf name id h => exact hf.elim
  | submitted s n n' st hst id h =>
    cases hy
    obtain ⟨g, store, hg, hc, rfl⟩ := submit_eq_ok h
    obtain ⟨σ, -, hmade⟩ := Engine.planOf_plan hg
    exact ((Sight.enrols_enlist n.store.snapshot fun t => (hmade t).2).commit hc).2
  | began s n hs =>
    unfold Node.beginStep at hy
    split at hy
    · cases hy
    · exact congrArg (·.snapshot.catalog) (store_work hy.symm)
  | landed g n => exact congrArg (·.snapshot.catalog) (store_work hy.symm)
  | lost g n => exact congrArg (·.snapshot.catalog) (store_work hy.symm)
  | passed =>
    cases hy
    rfl
  | restarted => cases hy

end Sight

end Node

end Engine

end Steward
