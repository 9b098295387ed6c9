import Steward.Proofs.World.Agreement
import Steward.Proofs.World.Line

/-!
This module contains the turns of a line: each commit puts a new job at its end, creates a schema, or
is a step of the first job. What every turn keeps holds all along a run.
-/

namespace Steward

open Change (Args Job)
open Ledger
open Step (Agrees Quiet)

namespace Line

inductive Turn (Q : Snapshot → Prop) (limit : Nat) (s s' : Snapshot) : Prop where
  | handed (job : Job) (h : Appended s s' job) (hkind : job.kind = job.args.kind)
      (hstage : job.stage = job.kind.initial)
  | founded (σ : Catalog.Schema) (h : Founded s s' σ)
  | stepped (b W : Snapshot) (first j : Job)
      (h : Stepped World.unasked Q limit s s' b W first j)

structure Stands (Q : Snapshot → Prop) (limit : Nat) (l : Line) : Prop where
  world : l.world.Reached World.unasked Q limit
  slips : ∀ slip ∈ l.slips, ∃ base job, Slip l.snapshot slip base job

variable {Q : Snapshot → Prop} {limit : Nat} {l : Line} {s s' : Snapshot}

section Turns

theorem turn_of_move (h : Move World.unasked Q limit s s') : Turn Q limit s s' := by
  cases h with
  | submitted job h =>
    obtain ⟨st, σ, v, p, hst, _⟩ := h.made
    cases hst
  | founded σ h => exact .founded σ h
  | stepped b W first j h => exact .stepped b W first j h

theorem Turn.tidy (h : Turn Q limit s s') (hs : s.Tidy) : s'.Tidy := by
  cases h with
  | handed job h hkind hstage => exact h.tidy hs hkind hstage
  | founded σ h => exact h.tidy hs
  | stepped b W first j h => exact h.tidy hs

theorem Turn.precedes (h : Turn Q limit s s') : s.Precedes s' := by
  cases h with
  | handed job h => exact h.calm.toPrecedes
  | founded σ h => exact h.calm.toPrecedes
  | stepped b W first j h => exact h.precedes

theorem declares_false (t : Catalog.Table) : Step.Declares false t := by
  intro p hd hc
  unfold Step.counts at hc
  rw [hd] at hc
  cases hc

theorem Turn.concerted (h : Turn Q limit s s') (hs : s.Tidy)
    (hQ : ∀ s, Q s → Concerted false s) (hc : Concerted false s) : Concerted false s' := by
  cases h with
  | handed job h hkind hstage =>
    apply hc.calm hs (h.tidy hs hkind hstage) h.calm
    intro id j hj
    have hid := congrArg Prod.fst (h.record id)
    split at hid
    · cases hj.symm.trans hid
      exact .inr ⟨hstage, fun t _ _ => declares_false t⟩
    · exact .inl (hid.symm.trans hj)
  | founded σ h => exact h.concerted hs hc
  | stepped b W first j h => exact h.concerted hs (hQ b h.base.holds) hc

end Turns

section Runs

theorem stands_empty (h : Q .initial) : empty.Stands Q limit where
  world := World.reached_ofStore h
  slips slip hslip := by cases hslip

theorem step_turns (h : l.Stands Q limit) (e : Event) :
    (l.step limit e).snapshot = l.snapshot ∨
      Turn Q limit l.snapshot (l.step limit e).snapshot := by
  cases e with
  | draw => exact .inl rfl
  | hand n =>
    unfold step
    dsimp only
    split
    · next slip hslip =>
      obtain ⟨base, job, hx⟩ := h.slips slip (List.mem_of_getElem? hslip)
      unfold handIn
      dsimp only
      split
      · next store hc =>
        exact .inr (.handed job (hx.appended h.world.file hc) hx.kind hx.stage)
      · exact .inl rfl
    · exact .inl rfl
  | other e he =>
    cases World.step_moves h.world e with
    | inl hsame => exact .inl (congrArg Store.snapshot hsame)
    | inr hmove => exact .inr (turn_of_move hmove)

theorem stands_step (hQ : ∀ s s', Fine Q s → Turn Q limit s s' → Q s') (h : l.Stands Q limit)
    (e : Event) : (l.step limit e).Stands Q limit := by
  cases e with
  | draw ids schemaId tableId schemaName tableName args =>
    refine ⟨h.world, ?_⟩
    intro slip hslip
    cases List.mem_append.1 hslip with
    | inl hslip => exact h.slips slip hslip
    | inr hslip =>
      rw [List.mem_singleton.1 hslip]
      exact ⟨_, slip_enqueue h.world.fine.tidy ids schemaId tableId schemaName tableName args⟩
  | hand n =>
    unfold step
    dsimp only
    split
    · next slip hslip =>
      obtain ⟨base, job, hx⟩ := h.slips slip (List.mem_of_getElem? hslip)
      unfold handIn
      dsimp only
      split
      · next store hc =>
        have happ := hx.appended h.world.file hc
        have hturn : Turn Q limit l.snapshot store.snapshot := .handed job happ hx.kind hx.stage
        refine ⟨?_, ?_⟩
        · exact h.world.drift (Store.file_of_commit h.world.file hc)
            ⟨hQ _ _ h.world.fine hturn, hturn.tidy h.world.fine.tidy⟩ happ.calm
        · intro x hxs
          obtain ⟨base, job, hx⟩ := h.slips x (List.mem_of_mem_eraseIdx hxs)
          exact ⟨base, job, hx.mono hturn.precedes⟩
      · exact ⟨h.world, fun x hx => h.slips x (List.mem_of_mem_eraseIdx hx)⟩
    · exact h
  | other e he =>
    refine ⟨?_, ?_⟩
    · apply World.reached_step _ h.world (World.Event.allowed_unasked he)
      exact fun s s' hs hm => hQ s s' hs (turn_of_move hm)
    · intro slip hslip
      obtain ⟨base, job, hx⟩ := h.slips slip hslip
      cases step_turns h (.other e he) with
      | inl hsame => exact ⟨base, job, hsame ▸ hx⟩
      | inr hturn => exact ⟨base, job, hx.mono hturn.precedes⟩

theorem stands_run (hQ : ∀ s s', Fine Q s → Turn Q limit s s' → Q s') (h : l.Stands Q limit)
    (es : List Event) : (l.run limit es).Stands Q limit := by
  unfold run
  induction es generalizing l with
  | nil => exact h
  | cons e es ih => exact ih (stands_step hQ h e)

theorem run_keeps {P : Snapshot → Prop} (hQ : ∀ s s', Fine Q s → Turn Q limit s s' → Q s')
    (hP : ∀ s s', Fine Q s → Turn Q limit s s' → P s → P s') (h : l.Stands Q limit)
    (hl : P l.snapshot) (es : List Event) : P (l.run limit es).snapshot := by
  unfold run
  induction es generalizing l with
  | nil => exact hl
  | cons e es ih =>
    apply ih (stands_step hQ h e)
    cases step_turns h e with
    | inl hsame => exact hsame ▸ hl
    | inr hturn => exact hP _ _ h.world.fine hturn hl

end Runs

theorem enlist_plan {st : Engine.Statement} {checks : Bool} {v : View} {f : Txn → Job × Txn}
    (h : st.plan checks v = .ok f) (t : Txn) :
    ∃ ids schemaId tableId schemaName tableName args, Engine.enlist f t =
      (t.takeIds ids).enqueue (.ofArgs schemaId tableId schemaName tableName args) := by
  cases st with
  | createTable schema table check =>
    simp only [Engine.Statement.plan] at h
    split at h
    · cases h
    · split at h
      · cases h
      · cases h
        exact ⟨1, _, _, _, _, _, rfl⟩
  | truncateTable schema table check =>
    obtain ⟨target, _, h⟩ := bind_eq_ok.1 h
    cases h
    exact ⟨1, _, _, _, _, _, rfl⟩
  | dropTable schema table check =>
    obtain ⟨target, _, h⟩ := bind_eq_ok.1 h
    cases h
    exact ⟨0, _, _, _, _, _, rfl⟩
  | _ =>
    obtain ⟨target, _, h⟩ := bind_eq_ok.1 h
    obtain ⟨_, _, h⟩ := bind_eq_ok.1 h
    cases h
    exact ⟨0, _, _, _, _, _, rfl⟩

end Line

end Steward
