import Steward.Engine.Node
import Steward.Proofs.Ledger.Commit
import Steward.Proofs.Step.Act

/-!
This module contains what a node writes that is not the owner any more when the handler of its step
returns: nothing, unless the step failed for good. Such a failure is written down whoever leads.
-/

namespace Steward

open Catalog (Stage)
open Change (Job Trouble)
open Ledger (Snapshot Store Txn)
open Step (Draft Ending Registry Result Work)

namespace Ledger

/--
The snapshot with this record of a job: in the history if the job is over, and else in the queue.
-/
def Snapshot.keep (s : Snapshot) (job : Job) : Snapshot :=
  if job.isFinished then
    { s with jobs := s.jobs.erase job.id, history := s.history.insert job.id job }
  else { s with jobs := s.jobs.insert job.id job }

theorem Snapshot.catalog_keep (s : Snapshot) (job : Job) : (s.keep job).catalog = s.catalog := by
  unfold keep
  split <;> rfl

theorem Snapshot.lastId_keep (s : Snapshot) (job : Job) : (s.keep job).lastId = s.lastId := by
  unfold keep
  split <;> rfl

theorem Snapshot.record_keep (s : Snapshot) (job : Job) {id : Int} (h : id ≠ job.id) :
    (s.keep job).record id = s.record id := by
  unfold keep record
  split <;> simp only [SortedMap.get?_insert, SortedMap.get?_erase, if_neg h]

theorem Snapshot.record_keep_self {s : Snapshot} {job : Job}
    (h : s.history.get? job.id = none) :
    (s.keep job).record job.id =
      if job.isFinished then (none, some job) else (some job, none) := by
  unfold keep record
  split
  · simp only [SortedMap.get?_insert, SortedMap.get?_erase, if_true]
  · simp only [SortedMap.get?_insert, if_true, h]

theorem Txn.persistJob_eq_ok {t t' : Txn} {job : Job} (h : t.persistJob job = .ok t') :
    t' = { t with working := t.working.keep job } := by
  unfold persistJob finishJob updateJob at h
  unfold Snapshot.keep
  split at h
  · next hf =>
    rw [if_pos hf]
    split at h
    · cases h
      rfl
    · cases h
  · next hf =>
    rw [if_neg hf]
    split at h
    · cases h
      rfl
    · cases h

theorem Store.commit_own {s s' : Store} {t : Txn} (hb : t.base = s.snapshot)
    (h : s.commit t = .ok s') :
    s'.snapshot = { t.working with revision := s.snapshot.revision + 1 } := by
  have hm := commit_eq_ok h
  unfold merged at hm
  rw [hb, if_pos rfl] at hm
  exact (Except.ok.inj hm).symm

section Commit

variable {s s' : Store} {what : String} {d : Draft} {job : Job}

theorem commit_eq_committed (h : Step.commit s what d = .ok (.committed s' job)) :
    job = d.job ∧ ∃ t, d.txn.persistJob d.job = .ok t ∧ s.commit t = .ok s' := by
  obtain ⟨t, hp, h⟩ := bind_eq_ok.1 h
  split at h
  · next hc =>
    cases h
    exact ⟨rfl, t, hp, hc⟩
  · split at h <;> cases h

theorem snapshot_of_commit (hb : d.txn.base = s.snapshot)
    (h : Step.commit s what d = .ok (.committed s' job)) :
    s'.snapshot =
      { d.txn.working.keep d.job with revision := s.snapshot.revision + 1 } := by
  obtain ⟨-, t, hp, hc⟩ := commit_eq_committed h
  have ht := Txn.persistJob_eq_ok hp
  rw [Store.commit_own (by rw [ht]; exact hb) hc, ht]

end Commit

end Ledger

namespace Engine

def Standing.sessions : Standing → Int
  | .flying _ => 1
  | .idle | .ended _ | .failed _ => 0

namespace Node

variable {handlers : Registry} {n n' n₀ m : Node} {x : Standing × Node} {f : Flight}
  {source : Stage} {limit : Nat} {r : Result} {s s' : Store}

section Return

/--
What may become of a ledger when a step returns with this result and its node is not the owner.
-/
inductive Leaves (limit : Nat) (source : Stage) (r : Result) (s : Store) : Store → Prop where
  | untouched : Leaves limit source r s s
  | blamed (t : Trouble) (d : Draft) (h : Step.guardOrder source r = (.error t, d))
      (ht : t.isTransient = false) (s' : Store)
      (hs' : s'.snapshot =
        { s.snapshot.keep (Step.blame limit d.job t) with revision := s.snapshot.revision + 1 }) :
    Leaves limit source r s s'

theorem leaves_of_commit {job : Job} {what : String} {d : Draft} {t : Trouble}
    (hr : Step.guardOrder source r = (.error t, d)) (ht : t.isTransient = false)
    (h : Step.commit s what ⟨s.begin, Step.blame limit d.job t⟩ = .ok (.committed s' job)) :
    Leaves limit source r s s' := .blamed t d hr ht s' (Ledger.snapshot_of_commit rfl h)

theorem leaves_settle (n : Node) (limit : Nat) (source : Stage) (r : Result) :
    Leaves limit source r n.store
      (n.settle (Step.conclude limit n.store false source r)).2.store := by
  unfold Step.conclude Step.settle
  cases hr : Step.guardOrder source r with
  | mk result d =>
    cases result with
    | ok v => exact .untouched
    | error t =>
      dsimp only
      cases ht : t.isTransient with
      | true => exact .untouched
      | false =>
        rw [if_neg Bool.false_ne_true]
        dsimp only
        cases hc : Step.commit n.store "persist failed job" ⟨n.store.begin, Step.blame limit d.job t⟩
        with
        | error t => exact .untouched
        | ok ending =>
          cases ending with
          | abandoned => exact .untouched
          | committed s' job => exact leaves_of_commit hr ht hc

end Return

section Work

/--
Where the work of a step got: its handler returned, or it waits for an answer.
-/
inductive Reaches (n : Node) (owned : Bool) (source : Stage) (w : Work Result) :
    Standing × Node → Prop where
  | returned (r : Result) (h : w.Ends (fun _ => True) r) (x : Standing × Node)
      (hx : x.1.sessions = 0) (hout : x.2.pool.out = n.pool.out)
      (hsettings : x.2.settings = n.settings)
      (hleaves : (owned && n.isOwner) = false →
        Leaves n.settings.errorLimit source r n.store x.2.store) :
    Reaches n owned source w x
  | waits (f : Flight) (n' : Node) (ho : owned = true) (hs : f.source = source)
      (h : ∀ r, (Work.ask f.statement f.k).Ends (fun _ => True) r → w.Ends (fun _ => True) r)
      (hout : n'.pool.out = n.pool.out + 1) (hsettings : n'.settings = n.settings)
      (hstore : n'.store = n.store) :
    Reaches n owned source w (.flying f, n')

theorem sessions_settle (n : Node) (e : Except Trouble Ending) :
    (n.settle e).1.sessions = 0 ∧ (n.settle e).2.pool = n.pool ∧
      (n.settle e).2.settings = n.settings := by
  unfold settle
  split <;> exact ⟨rfl, rfl, rfl⟩

variable {owned : Bool}

theorem Reaches.answer {st : Sql.Statement} {k : Step.Surroundings → Step.Answer → Work Result}
    (v : Step.Surroundings) (a : Step.Answer) (h : Reaches n owned source (k v a) x) :
    Reaches n owned source (.ask st k) x := by
  cases h with
  | returned r h x hx hout hsettings hleaves =>
    exact .returned r (.ask st k v trivial a r h) x hx hout hsettings hleaves
  | waits f n' ho hs h hout hsettings hstore =>
    exact .waits f n' ho hs (fun r hr => .ask st k v trivial a r (h r hr)) hout hsettings hstore

theorem Reaches.pool {pool : Sql.Pool} {w : Work Result} (hp : pool.out = n.pool.out)
    (h : Reaches { n with pool } owned source w x) : Reaches n owned source w x := by
  cases h with
  | returned r h x hx hout hsettings hleaves =>
    exact .returned r h x hx (hout.trans hp) hsettings hleaves
  | waits f n' ho hs h hout hsettings hstore =>
    refine .waits f n' ho hs h (hout.trans ?_) hsettings hstore
    rw [hp]

theorem out_acquire (p : Sql.Pool) : p.acquire = (.ok (), { p with out := p.out + 1 }) ∨
    ∃ t, p.acquire = (.error t, p) := by
  unfold Sql.Pool.acquire
  split
  · exact .inr ⟨_, rfl⟩
  · exact .inl rfl

theorem out_answer (p : Sql.Pool) (now : Nat) (st : Sql.Statement) :
    (p.answer now st).2.out = p.out := by
  unfold Sql.Pool.answer
  dsimp only
  split <;> rfl

theorem work_reaches (n : Node) (owned : Bool) (source : Stage) (w : Work Result) :
    Reaches n owned source w (n.work owned source w) := by
  induction w generalizing n with
  | done r =>
    obtain ⟨hx, hpool, hsettings⟩ := sessions_settle n
      (Step.conclude n.settings.errorLimit n.store (owned && n.isOwner) source r)
    refine .returned r (.done r) _ hx (congrArg (·.out) hpool) hsettings ?_
    intro ho
    rw [work, ho]
    exact leaves_settle n _ source r
  | ask st k ih =>
    unfold work
    cases owned with
    | false => exact (ih _ _ n).answer _ _
    | true =>
      rw [if_pos rfl]
      cases out_acquire n.pool with
      | inr hnone =>
        obtain ⟨t, ht⟩ := hnone
        rw [ht]
        exact ((ih _ _ _).pool rfl).answer _ _
      | inl hgot =>
        rw [hgot]
        dsimp only
        split
        · refine Reaches.answer _ _ (Reaches.pool ?_ (ih _ _ _))
          simp only [Sql.Pool.release, out_answer, Sql.Pool.start]
          omega
        · exact .waits _ _ rfl rfl (fun r h => h) rfl rfl rfl

end Work

section Course

/--
The step that began at the node `n₀` waits for an answer, and whatever else there is to the node may
have changed meanwhile.
-/
inductive Underway (handlers : Registry) (n₀ : Node) : Flight → Node → Prop where
  | began (f : Flight) (n : Node) (h : n₀.beginStep handlers = (.flying f, n)) :
    Underway handlers n₀ f n
  | passed (f : Flight) (n n' : Node) (h : Underway handlers n₀ f n)
      (hsettings : n'.settings = n.settings) (hout : n'.pool.out = n.pool.out) :
    Underway handlers n₀ f n'
  | landed (f f' : Flight) (n n' : Node) (h : Underway handlers n₀ f n)
      (hland : n.land f = (.flying f', n')) :
    Underway handlers n₀ f' n'

/--
The step that began at the node `n₀` is over after this move of the node `m`: it was over at once,
or its last answer came, or the node knows that it does not lead.
-/
inductive Returns (handlers : Registry) (n₀ : Node) : Node → Standing × Node → Prop where
  | atOnce (h : (n₀.beginStep handlers).1.sessions = 0) :
    Returns handlers n₀ n₀ (n₀.beginStep handlers)
  | landed (f : Flight) (m : Node) (h : Underway handlers n₀ f m)
      (hland : (m.land f).1.sessions = 0) :
    Returns handlers n₀ m (m.land f)
  | lost (f : Flight) (m : Node) (h : Underway handlers n₀ f m) :
    Returns handlers n₀ m (m.lose f)

theorem Underway.kept (h : Underway handlers n₀ f n) :
    n.pool.out = n₀.pool.out + 1 ∧ n.settings = n₀.settings ∧
      ∃ begun, Step.begin n₀.store handlers n₀.surroundings = some begun ∧
        f.source = begun.source ∧
        ∀ r, (Work.ask f.statement f.k).Ends (fun _ => True) r →
          begun.work.Ends (fun _ => True) r := by
  -- While a step waits, a session is out for it, and what its handler may still return it may
  -- return from the beginning.
  induction h with
  | began f n h =>
    unfold beginStep at h
    split at h
    · cases h
    · next begun hbegun =>
      have hw := work_reaches n₀ n₀.isOwner begun.source begun.work
      rw [h] at hw
      cases hw with
      | returned r _ _ hx => cases hx
      | waits _ _ _ hs hends hout hsettings => exact ⟨hout, hsettings, begun, hbegun, hs, hends⟩
  | passed f n n' h hsettings hout ih =>
    obtain ⟨ho, hs, hbegun⟩ := ih
    exact ⟨hout.trans ho, hsettings.trans hs, hbegun⟩
  | landed f f' n n' h hland ih =>
    obtain ⟨ho, hs, begun, hbegun, hsource, hends⟩ := ih
    unfold land at hland
    dsimp only at hland
    have hw := work_reaches { n with pool := (n.pool.answer n.clock f.statement).2.release } true
      f.source (f.k n.surroundings (.replied (n.pool.answer n.clock f.statement).1))
    rw [hland] at hw
    cases hw with
    | returned r _ _ hx => cases hx
    | waits _ _ _ hs' hends' hout hsettings =>
      refine ⟨?_, hsettings.trans hs, begun, hbegun, hs'.trans hsource, ?_⟩
      · rw [hout]
        simp only [Sql.Pool.release, out_answer, ho]
        omega
      · intro r hr
        exact hends r (.ask _ _ _ trivial _ r (hends' r hr))

theorem Reaches.leaves {w : Work Result} (h : Reaches n owned source w x)
    (hx : x.1.sessions = 0) (ho : (owned && n.isOwner) = false) :
    x.2.pool.out = n.pool.out ∧
      ∃ r, w.Ends (fun _ => True) r ∧
        Leaves n.settings.errorLimit source r n.store x.2.store := by
  cases h with
  | returned r h x hx hout hsettings hleaves => exact ⟨hout, r, h, hleaves ho⟩
  | waits f n' => cases hx

theorem Reaches.returns {w : Work Result} (h : Reaches n false source w x) :
    x.1.sessions = 0 := by
  cases h with
  | returned r h x hx => exact hx
  | waits f n' ho => cases ho

/--
A step that returns to a node that does not lead puts its session back, and writes nothing unless
its handler failed for good; then all that is new is the record of the job that failed.
-/
theorem leaves_of_not_owner (h : Returns handlers n₀ m x) (ho : m.isOwner = false) :
    x.2.pool.out = n₀.pool.out ∧
      (Step.begin n₀.store handlers n₀.surroundings = none ∧ x.2.store = m.store ∨
        ∃ begun r, Step.begin n₀.store handlers n₀.surroundings = some begun ∧
          begun.work.Ends (fun _ => True) r ∧
          Leaves n₀.settings.errorLimit begun.source r m.store x.2.store) := by
  cases h with
  | atOnce hx =>
    unfold beginStep at hx ⊢
    split
    · next hnone => exact ⟨rfl, .inl ⟨hnone, rfl⟩⟩
    · next begun hbegun =>
      rw [hbegun] at hx
      obtain ⟨hout, r, hends, hleaves⟩ :=
        (work_reaches n₀ n₀.isOwner begun.source begun.work).leaves hx (by rw [ho]; rfl)
      exact ⟨hout, .inr ⟨begun, r, hbegun, hends, hleaves⟩⟩
  | landed f m h hx =>
    obtain ⟨hout, hsettings, begun, hbegun, hsource, hends⟩ := h.kept
    have hw := work_reaches { m with pool := (m.pool.answer m.clock f.statement).2.release } true
      f.source (f.k m.surroundings (.replied (m.pool.answer m.clock f.statement).1))
    obtain ⟨hland, r, hr, hleaves⟩ := hw.leaves hx ho
    refine ⟨?_, .inr ⟨begun, r, hbegun, hends r (.ask _ _ _ trivial _ r hr), ?_⟩⟩
    · refine hland.trans ?_
      simp only [Sql.Pool.release, out_answer, hout]
      omega
    · rw [← hsettings, ← hsource]
      exact hleaves
  | lost f m h =>
    obtain ⟨hout, hsettings, begun, hbegun, hsource, hends⟩ := h.kept
    have hw := work_reaches { m with pool := m.pool.release } false f.source
      (f.k m.surroundings .lost)
    obtain ⟨hlose, r, hr, hleaves⟩ := hw.leaves hw.returns rfl
    refine ⟨?_, .inr ⟨begun, r, hbegun, hends r (.ask _ _ _ trivial _ r hr), ?_⟩⟩
    · refine hlose.trans ?_
      simp only [Sql.Pool.release, hout]
      omega
    · rw [← hsettings, ← hsource]
      exact hleaves

/--
A node that does not lead. The oldest job of its ledger is to drop a table that is not there.
-/
def bystander : Node :=
  let job := Job.ofArgs 1 9 "shop" "gone" (.dropTable true)
  ofStore ⟨((Txn.begin .initial).enqueue job).2.working, none⟩ .standard false 0

theorem bystander_returns :
    Returns .standard bystander bystander (bystander.beginStep .standard) :=
  .atOnce (by decide +kernel)

theorem leaves_of_not_owner_bystander :
    bystander.isOwner = false ∧ (bystander.beginStep .standard).2.pool.out = 0 ∧
      ∃ begun r, Step.begin bystander.store .standard bystander.surroundings = some begun ∧
        begun.work.Ends (fun _ => True) r ∧
        Leaves bystander.settings.errorLimit begun.source r bystander.store
          (bystander.beginStep .standard).2.store := by
  refine ⟨rfl, ?_⟩
  obtain ⟨hout, hnone | hsome⟩ := leaves_of_not_owner bystander_returns rfl
  · have hjob : (Step.begin bystander.store .standard bystander.surroundings).isSome = true := by
      decide +kernel
    rw [hnone.1] at hjob
    cases hjob
  · exact ⟨hout, hsome⟩

theorem bystander_writes_failure :
    ¬ ∀ n₀ m x, Returns .standard n₀ m x → m.isOwner = false →
      x.2.store.snapshot = m.store.snapshot := by
  intro h
  have hsame := h _ _ _ bystander_returns rfl
  have hhistory : (bystander.beginStep .standard).2.store.snapshot.history.keys = [1] := by
    decide +kernel
  rw [hsame] at hhistory
  cases hhistory

end Course

end Node

end Engine

end Steward
