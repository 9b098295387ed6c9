import Steward.Proofs.Step.Agreement
import Steward.Proofs.World.Serial

/-!
This module contains the agreement of the queue with the catalog: `first_job_agrees` says that
nothing but what the first job works on is ever in an intermediate stage, and that it is in the
stage of this job.
-/

namespace Steward

open Catalog (Part Table)
open Change (Job)
open Engine (Statement)
open Ledger
open Step (Agrees Busy Declares Quiet)

namespace Engine.Statement

/--
A statement that declares nothing which is not public, if all is counted.
-/
def Declares (all : Bool) (st : Statement) : Prop :=
  ∀ schema t check, st = .createTable schema t check → Step.Declares all t

end Engine.Statement

namespace Ledger

/--
The first job agrees with the tables, all is public if there is none, and no job declares what is
not public.
-/
structure Concerted (all : Bool) (s : Snapshot) : Prop where
  first : ∀ j, s.firstJob? = some j → Agrees all s.table? j
  none : s.firstJob? = none → Quiet all s.table?
  declared : ∀ id j t c, s.jobs.get? id = some j → j.args = .createTable t c → Declares all t

variable {all : Bool} {R : Rules} {Q : Snapshot → Prop} {limit : Nat} {s s' b W : Snapshot}
  {first j : Job}

theorem concerted_initial : Concerted all .initial where
  first j h := by cases h
  none _ := by
    intro x y t p h
    cases h
  declared id j t c h := by cases h

theorem Concerted.calm (h : Concerted all s) (hs : s.Tidy) (hs' : s'.Tidy) (hc : s.Calm s')
    (hnew : ∀ id j, s'.jobs.get? id = some j → s.jobs.get? id = some j ∨
      j.stage = j.kind.initial ∧ ∀ t c, j.args = .createTable t c → Declares all t) :
    Concerted all s' := by
  -- A new job waits at its first stage.
  have htable : s'.table? = s.table? := hc.table_eq
  constructor
  · intro j hj
    rw [htable]
    cases hfirst : s.firstJob? with
    | some i =>
      have hi := hc.firstJob? hs hs' hfirst
      rw [hj] at hi
      cases hi
      exact h.first j hfirst
    | none =>
      apply Step.agrees_of_quiet (h.none hfirst)
      right
      cases hnew j.id j ((Snapshot.firstJob?_eq_some_iff hs').1 hj).1 with
      | inl hold =>
        rw [Snapshot.firstJob?_eq_none_iff.1 hfirst] at hold
        cases hold
      | inr hinit =>
        rw [hinit.1]
        exact Change.Kind.initial_not_mem_intermediate _
  · intro hnone
    rw [htable]
    apply h.none
    cases hfirst : s.firstJob? with
    | some i =>
      rw [hc.firstJob? hs hs' hfirst] at hnone
      cases hnone
    | none => rfl
  · intro id j t c hj ha
    cases hnew id j hj with
    | inl hold => exact h.declared id j t c hold ha
    | inr hinit => exact hinit.2 t c ha

theorem Submitted.concerted {job : Job} (h : Submitted R Q s s' job) (hs : s.Tidy)
    (hc : Concerted all s) (hR : ∀ st, R.statement st → st.Declares all) : Concerted all s' := by
  obtain ⟨st, σ, v, p, hst, _, _, _, hmade⟩ := h.made
  apply hc.calm hs (h.tidy hs) h.calm
  intro id j hj
  have hid := congrArg Prod.fst (h.record id)
  split at hid
  · next heq =>
    right
    cases hj.symm.trans hid
    refine ⟨hmade.stage, ?_⟩
    intro t c ha
    have hasks := hmade.asks
    rw [ha] at hasks
    cases hasks with
    | createTable schema => exact hR _ hst schema t c rfl
  · left
    exact hid.symm.trans hj

theorem Founded.concerted {σ : Catalog.Schema} (h : Founded s s' σ) (hs : s.Tidy)
    (hc : Concerted all s) : Concerted all s' := by
  apply hc.calm hs (h.tidy hs) h.calm
  intro id j hj
  left
  rw [← hj]
  exact (congrArg Prod.fst (h.record id)).symm

theorem Stepped.agrees (h : Stepped R Q limit s s' b W first j) (hb : Concerted all b) :
    Agrees all s'.table? j := by
  have htable : s'.table? = W.table? := h.table_eq
  obtain ⟨hget, hkind, hfinished⟩ := h.base.tidy.first_filed h.begun
  rw [htable]
  apply h.outcome.agrees hkind hfinished (hb.first first h.begun)
  intro t c ha
  exact hb.declared _ _ t c hget ha

theorem Stepped.quiet (h : Stepped R Q limit s s' b W first j) (hb : Concerted all b)
    (hf : j.isFinished = true) : Quiet all s'.table? := (h.agrees hb).quiet (.inl hf)

theorem Stepped.concerted (h : Stepped R Q limit s s' b W first j) (hs : s.Tidy)
    (hb : Concerted all b) (hc : Concerted all s) : Concerted all s' := by
  have hs' := h.tidy hs
  obtain ⟨hget, hleast⟩ := (Snapshot.firstJob?_eq_some_iff hs).1 (h.first_now hs)
  constructor
  · intro k hk
    obtain ⟨hkget, hkleast⟩ := (Snapshot.firstJob?_eq_some_iff hs').1 hk
    rw [h.get?_jobs] at hkget
    split at hkget
    · split at hkget
      · cases hkget
      · cases hkget
        exact h.agrees hb
    · next hne =>
      have hle := hleast k.id (by simp [hkget])
      have hlt : first.id < k.id := by omega
      have hf : j.isFinished = true := by
        apply Decidable.byContradiction
        intro hf
        have := hkleast first.id (by simp [h.get?_jobs, hf])
        omega
      apply Step.agrees_of_quiet (h.quiet hb hf)
      right
      rw [(hs.waiting first.id k.id k hkget hlt (by simp [hget])).1]
      exact Change.Kind.initial_not_mem_intermediate _
  · intro hnone
    have hgone := Snapshot.firstJob?_eq_none_iff.1 hnone first.id
    rw [h.get?_jobs, if_pos rfl] at hgone
    split at hgone
    · next hf => exact h.quiet hb hf
    · cases hgone
  · intro id k t c hk ha
    rw [h.get?_jobs] at hk
    split at hk
    · split at hk
      · cases hk
      · cases hk
        cases h.follows.args with
        | inl hsame => exact hc.declared _ _ t c hget (hsame.symm.trans ha)
        | inr hnew =>
          obtain ⟨fk, check, id, st, _, hj⟩ := hnew
          rw [ha] at hj
          cases hj
    · exact hc.declared id k t c hk ha

theorem Move.concerted (h : Move R Q limit s s') (hs : s.Tidy) (hQ : ∀ s, Q s → Concerted all s)
    (hc : Concerted all s) (hR : ∀ st, R.statement st → st.Declares all) : Concerted all s' := by
  cases h with
  | submitted job h => exact h.concerted hs hc hR
  | founded σ h => exact h.concerted hs hc
  | stepped b W first j h => exact h.concerted hs (hQ b h.base.holds) hc

theorem Move.quiet_of_archived (h : Move R Q limit s s')
    (hQ : ∀ s, Q s → Concerted all s) {id : Int} (hold : s.history.get? id = none)
    (hnew : s'.history.get? id ≠ none) : Quiet all s'.table? := by
  cases h with
  | submitted job h =>
    have hid := congrArg Prod.snd (h.record id)
    split at hid
    · exact absurd hid hnew
    · exact absurd (hid.trans hold) hnew
  | founded σ h => exact absurd ((congrArg Prod.snd (h.record id)).trans hold) hnew
  | stepped b W first j h =>
    have hid := congrArg Prod.snd (h.record id)
    split at hid
    · split at hid
      · next hf => exact h.quiet (hQ b h.base.holds) hf
      · exact absurd hid hnew
    · exact absurd (hid.trans hold) hnew

section Pending

variable {x y : Int} {t : Table} {p : Part}

theorem Concerted.on_its_way (h : Concerted true s) (hj : s.firstJob? = some j)
    (ht : s.table? x y = some t) (hp : t.Pending p) : j.stage ∈ j.kind.intermediate := by
  by_contra hi
  exact (h.first j hj).quiet (.inr hi) x y t p ht rfl hp

theorem Concerted.busy (h : Concerted true s) (hs : s.Tidy) (hj : s.firstJob? = some j)
    (hi : j.stage ∈ j.kind.intermediate) : Busy true s.table? j :=
  (h.first j hj).busy (hs.filed _ _ ((Snapshot.firstJob?_eq_some_iff hs).1 hj).1).2.2 hi

theorem Concerted.first_of_pending (h : Concerted true s) (hs : s.Tidy)
    (ht : s.table? x y = some t) (hp : t.Pending p) :
    ∃ j, s.firstJob? = some j ∧ x = j.schemaId ∧ y = j.tableId ∧ j.part? t = some p := by
  cases hj : s.firstJob? with
  | none => exact absurd hp (h.none hj x y t p ht rfl)
  | some j => exact ⟨j, rfl, (h.busy hs hj (h.on_its_way hj ht hp)).others x y t p ht rfl hp⟩

theorem Concerted.mem_intermediate_iff (h : Concerted true s) (hs : s.Tidy)
    (hj : s.firstJob? = some j) : j.stage ∈ j.kind.intermediate ↔
      ∃ t p, s.table? j.schemaId j.tableId = some t ∧ j.part? t = some p ∧ t.Pending p := by
  constructor
  · intro hi
    obtain ⟨t, p, ht, hst⟩ := (h.busy hs hj hi).found
    exact ⟨t, p, ht.table, ht.part, j.stage, hst, Change.Kind.ne_live_of_mem_intermediate hi⟩
  · rintro ⟨t, p, ht, _, hp⟩
    exact h.on_its_way hj ht hp

theorem Concerted.stageOf (h : Concerted true s) (hs : s.Tidy) (hj : s.firstJob? = some j)
    (ht : s.table? j.schemaId j.tableId = some t) (hpart : j.part? t = some p) (hp : t.Pending p) :
    t.stageOf p = some j.stage :=
  (h.busy hs hj (h.on_its_way hj ht hp)).stageOf ht hpart

end Pending

end Ledger

namespace World

/--
Created tables declare public columns and indices only. Foreign keys are checked or not.
-/
def openly : Rules where
  statement st := ∀ schema t check, st = .createTable schema t check →
    (∀ c ∈ t.columns, c.stage = .live) ∧ ∀ ix ∈ t.indices, ix.stage = .live
  checks _ := True

theorem declares_of_openly {st : Statement} (h : openly.statement st) : st.Declares true := by
  intro schema t check hst p hd _
  obtain ⟨hcols, hindices⟩ := h schema t check hst
  rintro ⟨stage, hstage, hl⟩
  apply hl
  cases p with
  | column pos =>
    obtain ⟨c, hc, rfl⟩ := Option.map_eq_some_iff.1 hstage
    exact hcols c (List.mem_of_getElem? hc)
  | index pos =>
    obtain ⟨ix, hix, rfl⟩ := Option.map_eq_some_iff.1 hstage
    exact hindices ix (List.mem_of_getElem? hix)
  | table => cases hd
  | foreignKey pos => cases hd

theorem reached_openly (limit : Nat) (es : List Event) (hes : ∀ e ∈ es, e.Allowed openly) :
    ((ofStore .inMemory).run .standard limit es).Reached openly (Concerted true) limit := by
  apply run_induction concerted_initial _ es hes
  intro s s' hs h
  exact h.concerted hs.tidy (fun _ => id) hs.holds fun st => declares_of_openly

/--
In every reachable world, what is not public is what the first job works on; it is not public just
while the stage of that job is an intermediate one, and then its own stage is the same. When a job
comes into the history, all is public.
-/
theorem first_job_agrees (limit : Nat) (es : List Event) (hes : ∀ e ∈ es, e.Allowed openly) :
    let w := (ofStore .inMemory).run .standard limit es
    let s := w.store.snapshot
    (∀ x y t p, s.table? x y = some t → t.Pending p → ∃ j, s.firstJob? = some j ∧
      x = j.schemaId ∧ y = j.tableId ∧ j.part? t = some p) ∧
    (∀ j, s.firstJob? = some j →
      (j.stage ∈ j.kind.intermediate ↔
        ∃ t p, s.table? j.schemaId j.tableId = some t ∧ j.part? t = some p ∧ t.Pending p) ∧
      ∀ t p, s.table? j.schemaId j.tableId = some t → j.part? t = some p → t.Pending p →
        t.stageOf p = some j.stage) ∧
    ∀ e k, s.history.get? k = none →
      (w.step .standard limit e).store.snapshot.history.get? k ≠ none →
      ∀ x y t p, (w.step .standard limit e).store.snapshot.table? x y = some t → ¬ t.Pending p := by
  intro w s
  have hw : w.Reached openly (Concerted true) limit := reached_openly limit es hes
  have hs : Concerted true s := hw.fine.holds
  have htidy : s.Tidy := hw.fine.tidy
  refine ⟨fun x y t p => hs.first_of_pending htidy, fun j hj => ?_, ?_⟩
  · exact ⟨hs.mem_intermediate_iff htidy hj, fun t p => hs.stageOf htidy hj⟩
  · intro e k hold hnew x y t p ht
    cases step_moves hw e with
    | inl hsame =>
      rw [hsame] at hnew
      exact absurd hold hnew
    | inr hmove =>
      exact hmove.quiet_of_archived (fun _ h => h) hold hnew x y t p ht rfl

def dropUnderWay : List Event :=
  let table := ((Table.ofName "items").withColumn (.ofName "id" .bigint)).withIndex
    (.ofNames "by_id" ["id"])
  [.found "shop", .commit 0, .reopen, .plan (.createTable "shop" table true) true, .draw 0,
    .commit 0, .begin true 5, .settle true, .close, .look,
    .plan (.dropIndex "shop" "items" "by_id") true, .draw 1, .commit 0, .begin true 6, .settle true,
    .close]

theorem first_job_agrees_dropUnderWay :
    (∀ e ∈ dropUnderWay, e.Allowed openly) ∧
    let s := ((ofStore .inMemory).run .standard 8 dropUnderWay).store.snapshot
    ∃ t j, s.table? 1 2 = some t ∧ t.stageOf (.index 0) = some .writeOnly ∧
      s.firstJob? = some j ∧ j.part? t = some (.index 0) := by
  have hallowed : ∀ e ∈ dropUnderWay, e.Allowed openly := by
    simp only [dropUnderWay, List.forall_mem_cons, Event.Allowed, openly]
    simp [Table.ofName, Table.withColumn, Table.withIndex, Catalog.Column.ofName,
      Catalog.Index.ofNames, Catalog.Index.withOffsets]
  refine ⟨hallowed, ?_⟩
  intro s
  have hstage : (s.table? 1 2).bind (·.stageOf (.index 0)) = some .writeOnly := by decide +kernel
  obtain ⟨t, ht, hst⟩ := Option.bind_eq_some_iff.1 hstage
  obtain ⟨j, hj, _, _, hpart⟩ :=
    (first_job_agrees 8 dropUnderWay hallowed).1 1 2 t (.index 0) ht ⟨_, hst, by decide⟩
  exact ⟨t, j, ht, hst, hj, hpart⟩

end World

end Steward
