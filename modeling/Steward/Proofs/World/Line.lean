import Steward.Proofs.World.Serial

/-!
This module contains the line of the jobs in front of a ledger. Jobs of all sorts are handed in, in
transactions that overlap with everything else. They are served in the order of their ids, one at a
time, and none of them is ever lost.
-/

namespace Steward

open Change (Args Job)
open Ledger

namespace Ledger

namespace Txn

def takeIds (t : Txn) : Nat → Txn
  | 0 => t
  | n + 1 => (t.takeIds n).newId.2

theorem takeIds_eq (t : Txn) (n : Nat) :
    t.takeIds n = { t with working := { t.working with lastId := t.working.lastId + n } } := by
  induction n with
  | zero => simp [takeIds]
  | succ n ih =>
    unfold takeIds
    rw [ih]
    simp [newId, Int.add_assoc]

end Txn

namespace Snapshot

/--
The jobs in the history are over and filed under their ids, and all of them come before those in
the queue.
-/
structure Lined (s : Snapshot) : Prop where
  finished : ∀ id j, s.history.get? id = some j → j.id = id ∧ j.isFinished = true
  ahead : ∀ id k, s.history.get? id ≠ none → s.jobs.get? k ≠ none → id < k

theorem lined_initial : initial.Lined where
  finished id j h := by cases h
  ahead id k h := absurd rfl h

theorem Tidy.get?_history_le {s : Snapshot} (h : s.Tidy) {id : Int}
    (hid : s.history.get? id ≠ none) : id ≤ s.lastId := by
  apply h.sound.numbered
  intro hr
  exact hid (congrArg Prod.snd hr)

end Snapshot

section Moves

variable {R : Rules} {Q : Snapshot → Prop} {limit : Nat} {s s' b W : Snapshot} {job first j : Job}
  {σ : Catalog.Schema}

theorem Appended.get?_history (h : Appended s s' job) (hs : s.Tidy) (k : Int) :
    s'.history.get? k = s.history.get? k := by
  have hk := congrArg Prod.snd (h.record k)
  split at hk
  · next he =>
    have hnone : s.history.get? k = none := by
      rw [he]
      exact congrArg Prod.snd (hs.sound.record_of_lt h.fresh)
    exact hk.trans hnone.symm
  · exact hk

theorem Appended.lined (h : Appended s s' job) (hs : s.Tidy) (hl : s.Lined) : s'.Lined where
  finished id j hj := by
    rw [h.get?_history hs] at hj
    exact hl.finished id j hj
  ahead id k hid hk := by
    rw [h.get?_history hs] at hid
    have hjob := congrArg Prod.fst (h.record k)
    split at hjob
    · next he =>
      -- The new job has an id of its own, above all others.
      have := hs.get?_history_le hid
      have := h.fresh
      omega
    · apply hl.ahead id k hid
      intro hn
      exact hk (hjob.trans hn)

theorem Founded.lined (h : Founded s s' σ) (hl : s.Lined) : s'.Lined where
  finished id j hj := hl.finished id j ((congrArg Prod.snd (h.record id)).symm.trans hj)
  ahead id k hid hk := by
    apply hl.ahead id k
    · intro hn
      exact hid ((congrArg Prod.snd (h.record id)).trans hn)
    · intro hn
      exact hk ((congrArg Prod.fst (h.record k)).trans hn)

theorem Stepped.get?_history (h : Stepped R Q limit s s' b W first j) (hs : s.Tidy) (k : Int) :
    s'.history.get? k =
      if k = first.id ∧ j.isFinished = true then some j else s.history.get? k := by
  have hk := congrArg Prod.snd (h.record k)
  split at hk
  · next he =>
    split at hk
    · next hf =>
      rw [if_pos ⟨he, hf⟩]
      exact hk
    · next hf =>
      rw [if_neg fun hboth => hf hboth.2, he]
      rw [he] at hk
      exact hk.trans (h.recorded hs).unfinished.symm
  · next he =>
    rw [if_neg fun hboth => he hboth.1]
    exact hk

theorem Stepped.lined (h : Stepped R Q limit s s' b W first j) (hs : s.Tidy) (hl : s.Lined) :
    s'.Lined := by
  obtain ⟨hget, hleast⟩ := (Snapshot.firstJob?_eq_some_iff hs).1 (h.first_now hs)
  constructor
  case finished =>
    intro id x hx
    rw [h.get?_history hs] at hx
    split at hx
    · next hboth =>
      cases hx
      exact ⟨h.follows.id.trans hboth.1.symm, hboth.2⟩
    · exact hl.finished id x hx
  case ahead =>
    intro id k hid hk
    rw [h.get?_history hs] at hid
    have hks : s.jobs.get? k ≠ none := by
      rw [h.get?_jobs] at hk
      split at hk
      · next he =>
        rw [he, hget]
        simp
      · exact hk
    split at hid
    · next hboth =>
      -- The job that is over was the first one, and is no longer in the queue.
      have hle := hleast k hks
      have hne : k ≠ first.id := by
        intro he
        rw [h.get?_jobs, if_pos he, if_pos hboth.2] at hk
        exact hk rfl
      have := hboth.1
      omega
    · exact hl.ahead id k hid hks

theorem Move.lined (h : Move R Q limit s s') (hs : s.Tidy) (hl : s.Lined) : s'.Lined := by
  cases h with
  | submitted job h => exact h.appended.lined hs hl
  | founded σ h => exact h.lined hl
  | stepped b W first j h => exact h.lined hs hl

theorem Move.grows (h : Move R Q limit s s') (hs : s.Tidy) : s.Grows s' := by
  cases h with
  | submitted job h => exact (h.recorded hs.sound).grows
  | founded σ h => exact ⟨h.calm.before.lastId, fun id _ => h.record id⟩
  | stepped b W first j h => exact (h.recorded hs).grows

theorem Move.record_eq_none_iff (h : Move R Q limit s s') (hs : s.Tidy)
    (hR : ∀ st, ¬ R.statement st) (id : Int) :
    s'.record id = (none, none) ↔ s.record id = (none, none) := by
  cases h with
  | submitted job h =>
    obtain ⟨st, σ, v, p, hst, _⟩ := h.made
    exact absurd hst (hR st)
  | founded σ h => rw [h.record]
  | stepped b W first j h =>
    have hget := ((Snapshot.firstJob?_eq_some_iff hs).1 (h.first_now hs)).1
    rw [h.record]
    split
    · next he =>
      have hfirst : s.record id ≠ (none, none) := by
        intro hn
        rw [he] at hn
        have hnone : s.jobs.get? first.id = none := congrArg Prod.fst hn
        rw [hget] at hnone
        cases hnone
      split <;> simp [hfirst]
    · rfl

end Moves

end Ledger

namespace World

namespace Event

/--
Does the event check a statement, which then submits its job?
-/
def isPlan : Event → Bool
  | plan .. => true
  | _ => false

end Event

def unasked : Rules where
  statement _ := False
  checks _ := True

theorem Event.allowed_unasked {e : Event} (h : e.isPlan = false) : e.Allowed unasked := by
  cases e with
  | plan st checks => cases h
  | _ => exact trivial

end World

/--
A world, and those who hand in a job of any sort there.
-/
structure Line where
  world : World
  /-- The transactions that hand in a job and were not committed yet, with the ids of these jobs. -/
  slips : List (Int × Txn)
  /-- The ids of the jobs that were handed in, the oldest first. -/
  given : List Int

namespace Line

inductive Event where
  /-- Begins the transaction that hands in a new job, after it took some ids for other things. -/
  | draw (ids : Nat) (schemaId tableId : Int) (schemaName tableName : String) (args : Args)
  /-- Commits such a transaction, or gives it up. -/
  | hand (n : Nat)
  /-- Whatever else happens in the world. -/
  | other (e : World.Event) (h : e.isPlan = false)

def empty : Line := ⟨.ofStore .inMemory, [], []⟩

def snapshot (l : Line) : Snapshot := l.world.store.snapshot

/--
The line after a transaction was taken from the slips to be committed.
-/
def handIn (l : Line) (n : Nat) (slip : Int × Txn) : Line :=
  let l := { l with slips := l.slips.eraseIdx n }
  match l.world.store.commit slip.2 with
  | .ok store => { l with world := { l.world with store }, given := l.given ++ [slip.1] }
  | .error _ => l

def step (limit : Nat) (l : Line) : Event → Line
  | .draw ids schemaId tableId schemaName tableName args =>
    let slip := (l.world.store.begin.takeIds ids).enqueue
      (.ofArgs schemaId tableId schemaName tableName args)
    { l with slips := l.slips ++ [slip] }
  | .hand n =>
    match l.slips[n]? with
    | some slip => l.handIn n slip
    | none => l
  | .other e _ => { l with world := l.world.step .standard limit e }

def run (limit : Nat) (l : Line) (es : List Event) : Line := es.foldl (step limit) l

structure Slip (s : Snapshot) (slip : Int × Txn) (base : Snapshot) (job : Job) : Prop where
  tidy : base.Tidy
  precedes : base.Precedes s
  enlisted : Enlisted base job slip.2
  id : job.id = slip.1
  kind : job.kind = job.args.kind
  stage : job.stage = job.kind.initial

/--
A line in order: the jobs that were handed in, in the order of their ids, are those that the ledger
has in the queue or in the history.
-/
structure Orderly (limit : Nat) (l : Line) : Prop where
  world : l.world.Reached World.unasked Snapshot.Lined limit
  slips : ∀ slip ∈ l.slips, ∃ base job, Slip l.snapshot slip base job
  sorted : l.given.Pairwise (· < ·)
  given : ∀ id, id ∈ l.given ↔ l.snapshot.record id ≠ (none, none)

variable {limit : Nat} {l : Line} {s s' : Snapshot} {slip : Int × Txn} {base : Snapshot} {job : Job}
  {store : Store}

theorem slip_enqueue (hs : s.Tidy) (ids : Nat) (schemaId tableId : Int)
    (schemaName tableName : String) (args : Args) :
    ∃ job, Slip s (((Txn.begin s).takeIds ids).enqueue
      (.ofArgs schemaId tableId schemaName tableName args)) s job := by
  rw [Txn.takeIds_eq]
  refine ⟨{ Job.ofArgs schemaId tableId schemaName tableName args with id := s.lastId + ids + 1 },
    hs, .refl s, ⟨rfl, rfl, ?_, rfl, rfl, rfl, rfl⟩, rfl, rfl, rfl⟩
  dsimp only
  omega

theorem Slip.mono (h : Slip s slip base job) (hs : s.Precedes s') : Slip s' slip base job :=
  ⟨h.tidy, h.precedes.trans hs, h.enlisted, h.id, h.kind, h.stage⟩

theorem Slip.appended (h : Slip l.snapshot slip base job) (hf : l.world.store.file = none)
    (hc : l.world.store.commit slip.2 = .ok store) : Appended l.snapshot store.snapshot job :=
  h.enlisted.appended hf h.tidy.sound h.precedes.before hc

theorem orderly_empty (limit : Nat) : empty.Orderly limit where
  world := World.reached_ofStore Snapshot.lined_initial
  slips slip h := by cases h
  sorted := .nil
  given id := by
    constructor
    · intro h
      cases h
    · intro h
      exact absurd rfl h

section Steps

theorem Orderly.handed (h : l.Orderly limit) (n : Nat) (hslip : Slip l.snapshot slip base job)
    (hc : l.world.store.commit slip.2 = .ok store) :
    Orderly limit ⟨{ l.world with store }, l.slips.eraseIdx n, l.given ++ [slip.1]⟩ := by
  have happ := hslip.appended h.world.file hc
  have hs := h.world.fine.tidy
  constructor
  case world =>
    apply h.world.drift (Store.file_of_commit h.world.file hc) _ happ.calm
    exact ⟨happ.lined hs h.world.fine.holds, happ.tidy hs hslip.kind hslip.stage⟩
  case slips =>
    intro x hx
    obtain ⟨base, job, hxs⟩ := h.slips x (List.mem_of_mem_eraseIdx hx)
    exact ⟨base, job, hxs.mono happ.calm.toPrecedes⟩
  case sorted =>
    apply List.pairwise_append.2
    refine ⟨h.sorted, List.pairwise_singleton _ _, ?_⟩
    intro id hid k hk
    have hle := hs.sound.numbered id ((h.given id).1 hid)
    have hlt := happ.fresh
    rw [List.mem_singleton.1 hk, ← hslip.id]
    exact Int.lt_of_le_of_lt hle hlt
  case given =>
    intro id
    have hrec := happ.record id
    unfold snapshot
    dsimp only
    rw [hrec, List.mem_append, List.mem_singleton, ← hslip.id]
    split
    · next he => simp [he]
    · next he => simp [he, h.given id, snapshot]

theorem Orderly.other (h : l.Orderly limit) {e : World.Event} (he : e.isPlan = false) :
    Orderly limit { l with world := l.world.step .standard limit e } := by
  have hworld : (l.world.step .standard limit e).Reached World.unasked Snapshot.Lined limit := by
    apply World.reached_step _ h.world (World.Event.allowed_unasked he)
    intro s s' hs hm
    exact hm.lined hs.tidy hs.holds
  have hs := h.world.fine.tidy
  cases World.step_moves h.world e with
  | inl hsame =>
    refine ⟨hworld, ?_, h.sorted, ?_⟩
    · unfold snapshot
      dsimp only
      rw [hsame]
      exact h.slips
    · unfold snapshot
      dsimp only
      rw [hsame]
      exact h.given
  | inr hmove =>
    refine ⟨hworld, ?_, h.sorted, ?_⟩
    · intro slip hslip
      obtain ⟨base, job, hx⟩ := h.slips slip hslip
      exact ⟨base, job, hx.mono hmove.precedes⟩
    · intro id
      rw [h.given]
      exact not_congr (hmove.record_eq_none_iff hs (fun _ => False.elim) id).symm

theorem orderly_step (h : l.Orderly limit) (e : Event) : (l.step limit e).Orderly limit := by
  unfold step
  cases e with
  | draw ids schemaId tableId schemaName tableName args =>
    refine ⟨h.world, ?_, h.sorted, h.given⟩
    intro slip hslip
    cases List.mem_append.1 hslip with
    | inl hslip => exact h.slips slip hslip
    | inr hslip =>
      rw [List.mem_singleton.1 hslip]
      exact ⟨_, slip_enqueue h.world.fine.tidy ids schemaId tableId schemaName tableName args⟩
  | hand n =>
    dsimp only
    split
    · next slip hslip =>
      obtain ⟨base, job, hx⟩ := h.slips slip (List.mem_of_getElem? hslip)
      unfold handIn
      dsimp only
      split
      · next store hc => exact h.handed n hx hc
      · exact ⟨h.world, fun x hx => h.slips x (List.mem_of_mem_eraseIdx hx), h.sorted, h.given⟩
    · exact h
  | other e he => exact h.other he

theorem grows_step (h : l.Orderly limit) (e : Event) : l.snapshot.Grows (l.step limit e).snapshot := by
  unfold step
  cases e with
  | draw ids schemaId tableId schemaName tableName args => exact .refl _
  | hand n =>
    dsimp only
    split
    · next slip hslip =>
      obtain ⟨base, job, hx⟩ := h.slips slip (List.mem_of_getElem? hslip)
      unfold handIn
      dsimp only
      split
      · next store hc =>
        exact ((hx.appended h.world.file hc).recorded h.world.fine.tidy.sound).grows
      · exact .refl _
    · exact .refl _
  | other e he =>
    cases World.step_moves h.world e with
    | inl hsame =>
      unfold snapshot
      dsimp only
      rw [hsame]
      exact .refl _
    | inr hmove => exact hmove.grows h.world.fine.tidy

end Steps

theorem orderly_run (h : l.Orderly limit) (es : List Event) :
    (l.run limit es).Orderly limit ∧ l.snapshot.Grows (l.run limit es).snapshot := by
  unfold run
  induction es generalizing l with
  | nil => exact ⟨h, .refl _⟩
  | cons e es ih =>
    obtain ⟨hend, hgrows⟩ := ih (orderly_step h e)
    exact ⟨hend, (grows_step h e).trans hgrows⟩

section Order

variable {id k : Int} {j : Job}

theorem Orderly.archived (h : l.Orderly limit) (hj : l.snapshot.history.get? id = some j)
    (fs : List Event) : j.id = id ∧ j.isFinished = true ∧
      (l.run limit fs).snapshot.history.get? id = some j := by
  obtain ⟨hid, hf⟩ := h.world.fine.holds.finished id j hj
  have hkept := (orderly_run h fs).2.history id (hj ▸ Option.some_ne_none j)
  exact ⟨hid, hf, (congrArg Prod.snd hkept).trans hj⟩

theorem Orderly.le_of_begun (h : l.Orderly limit) (hj : l.snapshot.jobs.get? id = some j)
    (hbegun : j.status ≠ .queued) (hk : l.snapshot.jobs.get? k ≠ none) : id ≤ k := by
  by_contra hlt
  exact hbegun (h.world.fine.tidy.waiting k id j hj (Int.not_le.1 hlt) hk).2

end Order

/--
No job is lost: those that were handed in, in the order of their ids, are just those in the queue,
which are not over, and those in the history, which are over and never change again. No job is begun
before all earlier ones are over.
-/
theorem served_in_order (limit : Nat) (es fs : List Event) :
    let l := empty.run limit es
    let s := l.snapshot
    l.given.Pairwise (· < ·) ∧
    (∀ id, id ∈ l.given ↔ s.jobs.get? id ≠ none ∨ s.history.get? id ≠ none) ∧
    (∀ id, s.jobs.get? id = none ∨ s.history.get? id = none) ∧
    (∀ id j, s.jobs.get? id = some j → j.id = id ∧ j.isFinished = false) ∧
    (∀ id j, s.history.get? id = some j → j.id = id ∧ j.isFinished = true ∧
      (l.run limit fs).snapshot.history.get? id = some j) ∧
    (∀ id k, s.history.get? id ≠ none → s.jobs.get? k ≠ none → id < k) ∧
    ∀ id j, s.jobs.get? id = some j → j.status ≠ .queued →
      (∀ k, s.jobs.get? k ≠ none → id ≤ k) ∧
      ∀ k ∈ l.given, k < id → s.history.get? k ≠ none := by
  intro l s
  have hl : l.Orderly limit := (orderly_run (orderly_empty limit) es).1
  have hs : s.Tidy := hl.world.fine.tidy
  have hlined : s.Lined := hl.world.fine.holds
  have hgiven (id : Int) : id ∈ l.given ↔ s.jobs.get? id ≠ none ∨ s.history.get? id ≠ none := by
    rw [hl.given id, ← not_and_or]
    exact not_congr Prod.ext_iff
  refine ⟨hl.sorted, hgiven, hs.sound.apart, ?_, ?_, hlined.ahead, ?_⟩
  · intro id j hj
    obtain ⟨hid, _, hf⟩ := hs.filed id j hj
    exact ⟨hid, hf⟩
  · exact fun id j hj => hl.archived hj fs
  · intro id j hj hbegun
    refine ⟨fun k hk => hl.le_of_begun hj hbegun hk, ?_⟩
    intro k hk hlt
    apply ((hgiven k).1 hk).resolve_left
    intro hx
    exact absurd (hl.le_of_begun hj hbegun hx) (Int.not_le.2 hlt)

end Line

end Steward
