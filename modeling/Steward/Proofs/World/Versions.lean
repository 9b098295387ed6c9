import Steward.Proofs.Step.Versions
import Steward.Proofs.World.Turns

/-!
This module contains the versions of the catalog along a line: each change of the catalog makes one
new version, so that a version stands for one catalog.
-/

namespace Steward

open Catalog (Table)
open Change (Job)
open Ledger
open Step (Draft Repeats)

namespace Ledger

variable {all : Bool} {R : Rules} {Q : Snapshot → Prop} {limit : Nat} {s s' b W : Snapshot}
  {first j : Job} {d : Draft}

theorem Closes.catalog_eq (h : Closes R Q limit b W first d)
    (hd : d.txn.working.catalog = d.txn.base.catalog) : W.catalog = b.catalog := by
  rcases h.catalog with ⟨hbase, hW⟩ | ⟨_, hW⟩
  · rw [← hW, hd, hbase]
  · exact hW

theorem Stepped.catalog_eq (h : Stepped R Q limit s s' b W first j) (hW : W.catalog = b.catalog) :
    s'.catalog = s.catalog := by
  rcases h.catalog with ⟨_, hsame⟩ | ⟨hs, hs'⟩
  · exact hsame
  · rw [hs', hW, hs]

theorem Stepped.versions (h : Stepped R Q limit s s' b W first j) (hb : Concerted all b) :
    s'.catalog = s.catalog ∨
      W.catalog ≠ b.catalog ∧ s.catalog = b.catalog ∧
      s'.catalog.schemaVersion = s.catalog.schemaVersion + 1 ∧
      j.schemaVersion = s'.catalog.schemaVersion ∧
      ((∃ x y, s'.table? x y ≠ s.table? x y) ∨ Repeats s.table? first) := by
  obtain ⟨-, hkind, hfinished⟩ := h.base.tidy.first_filed h.begun
  rcases h.outcome.versions hkind hfinished (hb.first first h.begun) with hsame | ⟨hv, hj, hnew⟩
  · exact .inl (h.catalog_eq hsame)
  · rcases h.catalog with ⟨-, hsame⟩ | ⟨hs, hs'⟩
    · exact .inl hsame
    · right
      have hne : W.catalog ≠ b.catalog := by
        intro he
        rw [he] at hv
        omega
      refine ⟨hne, hs, ?_, ?_, ?_⟩
      · rw [hs', hs]
        exact hv
      · rw [hs']
        exact hj
      · rw [h.calm.table_eq]
        refine hnew.imp_left ?_
        rintro ⟨x, y, hxy⟩
        exact ⟨x, y, fun he => hxy ((h.table x y).symm.trans he)⟩

end Ledger

namespace Line

variable {limit : Nat} {l : Line} {s s' : Snapshot}

def Event.close : Event := .other .close rfl

theorem keeps_concerted (s s' : Snapshot) (hs : Fine (Concerted false) s)
    (h : Turn (Concerted false) limit s s') : Concerted false s' :=
  h.concerted hs.tidy (fun _ => id) hs.holds

theorem concerted_run (limit : Nat) (es : List Event) :
    (empty.run limit es).Stands (Concerted false) limit :=
  stands_run keeps_concerted (stands_empty concerted_initial) es

theorem Turn.versions (h : Turn (Concerted false) limit s s') :
    s'.catalog = s.catalog ∨ s'.catalog.schemaVersion = s.catalog.schemaVersion + 1 := by
  cases h with
  | handed job h => exact .inl h.catalog
  | founded σ h => exact .inr h.schemaVersion
  | stepped b W first j h => exact (h.versions h.base.holds).imp_right fun h => h.2.2.1

theorem Stands.version_stands (h : l.Stands (Concerted false) limit) (fs : List Event)
    (hv : (l.run limit fs).snapshot.catalog.schemaVersion = l.snapshot.catalog.schemaVersion) :
    (l.run limit fs).snapshot.catalog = l.snapshot.catalog := by
  -- From then on, the catalog is the same or its version is a later one.
  have hkept : (l.run limit fs).snapshot.catalog = l.snapshot.catalog ∨
      l.snapshot.catalog.schemaVersion < (l.run limit fs).snapshot.catalog.schemaVersion := by
    refine run_keeps (P := fun s => s.catalog = l.snapshot.catalog ∨
      l.snapshot.catalog.schemaVersion < s.catalog.schemaVersion) keeps_concerted ?_ h (.inl rfl) fs
    intro s s' _ hturn hs
    cases hturn.versions with
    | inl hsame => rwa [hsame]
    | inr hnew =>
      right
      cases hs with
      | inl hs => rw [hnew, hs]; omega
      | inr hs => omega
  cases hkept with
  | inl hsame => exact hsame
  | inr hlt => omega

theorem Stands.close_versions (h : l.Stands (Concerted false) limit) {what : String} {d : Draft}
    (hphase : l.world.phase = .closing what d) :
    let s := l.snapshot
    let s' := (l.step limit .close).snapshot
    (∀ x y, s.table? x y = d.txn.base.table? x y) ∧
    s'.catalog.schemas = s.catalog.schemas ∧
    (d.txn.working.catalog = d.txn.base.catalog → s'.catalog = s.catalog) ∧
    (s'.catalog = s.catalog ∨
      s.catalog = d.txn.base.catalog ∧
      s'.catalog.schemaVersion = s.catalog.schemaVersion + 1 ∧
      d.job.schemaVersion = s'.catalog.schemaVersion ∧
      (s'.jobs.get? d.job.id = some d.job ∨ s'.history.get? d.job.id = some d.job) ∧
      ((∃ x y, s'.table? x y ≠ s.table? x y) ∨
        ∃ first, s.firstJob? = some first ∧ Repeats s.table? first)) := by
  intro s s'
  have hcalm : d.txn.base.Calm s := by
    have hstands := h.world.phase
    rw [hphase] at hstands
    exact hstands.2.1
  refine ⟨hcalm.table, ?_⟩
  have hclose : s' = (l.world.closeStep what d).store.snapshot := by
    dsimp only [s', step, Event.close, World.step, snapshot]
    rw [hphase]
  unfold World.closeStep at hclose
  split at hclose
  · next store job hc =>
    obtain ⟨⟨b, W, first, hcloses, hstepped⟩, -⟩ := h.world.close_stepped hphase hc
    have hs' : s' = store.snapshot := hclose
    rw [hs']
    refine ⟨hstepped.schemas, fun hd => hstepped.catalog_eq (hcloses.catalog_eq hd), ?_⟩
    rcases hstepped.versions hcloses.base.holds with hsame | ⟨hne, hsb, hv, hj, hnew⟩
    · exact .inl hsame
    · right
      refine ⟨?_, hv, hj, ?_, ?_⟩
      · rcases hcloses.catalog with ⟨hbase, -⟩ | ⟨-, hW⟩
        · rw [hbase]
          exact hsb
        · exact absurd hW hne
      · have hrecord := hstepped.record d.job.id
        rw [if_pos hstepped.follows.id] at hrecord
        split at hrecord
        · exact .inr (congrArg Prod.snd hrecord)
        · exact .inl (congrArg Prod.fst hrecord)
      · refine hnew.imp_right fun hrep => ⟨first, ?_, hrep⟩
        exact hstepped.first_now h.world.fine.tidy
  · have hs' : s' = s := hclose
    rw [hs']
    exact ⟨rfl, fun _ => rfl, .inl rfl⟩

/--
A step that is committed leaves the catalog as it was, or makes one new version of it, which its job
knows of and in which some table is another one; only if the job hides what is hidden already, or
truncates a table without giving it another id, the tables may be the same. A step that failed does
not change the catalog. Whenever the version is the same, so is the catalog.
-/
theorem catalog_versioned (limit : Nat) (es fs : List Event) :
    let l := empty.run limit es
    let s := l.snapshot
    (∀ what d, l.world.phase = .closing what d →
      let s' := (l.step limit .close).snapshot
      (∀ x y, s.table? x y = d.txn.base.table? x y) ∧
      s'.catalog.schemas = s.catalog.schemas ∧
      (d.txn.working.catalog = d.txn.base.catalog → s'.catalog = s.catalog) ∧
      (s'.catalog = s.catalog ∨
        s.catalog = d.txn.base.catalog ∧
        s'.catalog.schemaVersion = s.catalog.schemaVersion + 1 ∧
        d.job.schemaVersion = s'.catalog.schemaVersion ∧
        (s'.jobs.get? d.job.id = some d.job ∨ s'.history.get? d.job.id = some d.job) ∧
        ((∃ x y, s'.table? x y ≠ s.table? x y) ∨
          ∃ first, s.firstJob? = some first ∧ Repeats s.table? first))) ∧
    (∀ source r e owned what d, l.world.phase = .working source (.done r) →
      (Step.guardOrder source r).1 = .error e →
      Step.settle limit l.world.store owned source r = some (what, d) →
      d.txn.working = d.txn.base) ∧
    ((l.run limit fs).snapshot.catalog.schemaVersion = s.catalog.schemaVersion →
      (l.run limit fs).snapshot.catalog = s.catalog) := by
  intro l s
  have hl := concerted_run limit es
  refine ⟨fun what d hphase => hl.close_versions hphase, ?_, hl.version_stands fs⟩
  intro source r e owned what d _ he hd
  unfold Step.settle at hd
  split at hd
  · next v left hguard =>
    rw [hguard] at he
    cases he
  · split at hd
    · cases hd
    · cases hd
      rfl

/--
A table is created with an index that is hidden already, and a job is about to hide this index in the
same millisecond.
-/
def hiddenAlready : List Event :=
  let table := (Table.ofName "items").withColumn (.ofName "id" .bigint)
  let index := { Catalog.Index.ofNames "by_id" ["id"] with stage := .writeOnly }
  [.other (.found "shop") rfl, .other (.commit 0) rfl,
    .draw 0 1 2 "shop" "items" (.createTable (table.withIndex index) true), .hand 0,
    .other (.begin true 5) rfl, .other (.settle true) rfl, .close, .other .look rfl,
    .draw 0 1 2 "shop" "items" (.dropIndex "by_id"), .hand 0, .other (.begin true 5) rfl,
    .other (.settle true) rfl]

theorem not_unversioned_hiddenAlready :
    ¬ ∀ (limit : Nat) (es : List Event),
      let l := empty.run limit es
      let s := l.snapshot
      let s' := (l.step limit .close).snapshot
      s'.catalog.tables = s.catalog.tables →
        s'.catalog.schemaVersion = s.catalog.schemaVersion := by
  intro h
  have hsame := h 8 hiddenAlready (by decide +kernel)
  revert hsame
  decide +kernel

end Line

end Steward
