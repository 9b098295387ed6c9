import Steward.Proofs.Ledger.Commit
import Steward.Proofs.Step.Outcome

/-!
This module contains the order of the queue: only its first job was ever begun, and it stays the
first one until it is over, whatever is submitted meanwhile.
-/

namespace Steward.Ledger

open Catalog (Schema Table)
open Change (Job)

namespace Snapshot

/--
The queue and the tables are in order: the jobs are filed under their ids and not over, and only
the first one was begun; the tables are filed under their ids as well.
-/
structure Tidy (s : Snapshot) : Prop where
  sound : s.Sound
  keyed : s.Keyed
  filed : ∀ id j, s.jobs.get? id = some j →
    j.id = id ∧ j.kind = j.args.kind ∧ j.isFinished = false
  waiting : ∀ k id j, s.jobs.get? id = some j → k < id → s.jobs.get? k ≠ none →
    j.stage = j.kind.initial ∧ j.status = .queued

theorem tidy_initial : initial.Tidy where
  sound := sound_initial
  keyed := by constructor <;> intro a b t h <;> cases h
  filed id j h := by cases h
  waiting k id j h := by cases h

theorem firstJob?_eq_some_iff {s : Snapshot} {j : Job} (h : s.Tidy) :
    s.firstJob? = some j ↔ s.jobs.get? j.id = some j ∧ ∀ k, s.jobs.get? k ≠ none → j.id ≤ k := by
  unfold firstJob?
  rw [Option.map_eq_some_iff]
  constructor
  · rintro ⟨⟨id, j'⟩, hfirst, rfl⟩
    obtain ⟨hget, hleast⟩ := SortedMap.first?_eq_some_iff.1 hfirst
    have hid := (h.filed id j' hget).1
    refine ⟨hid ▸ hget, ?_⟩
    intro k hk
    have := Int.compare_ne_gt.1 (hleast k hk)
    dsimp only
    omega
  · rintro ⟨hget, hleast⟩
    refine ⟨(j.id, j), SortedMap.first?_eq_some_iff.2 ⟨hget, ?_⟩, rfl⟩
    intro k hk
    exact Int.compare_ne_gt.2 (hleast k hk)

theorem Tidy.first_filed {s : Snapshot} {j : Job} (h : s.Tidy) (hj : s.firstJob? = some j) :
    s.jobs.get? j.id = some j ∧ j.kind = j.args.kind ∧ j.isFinished = false := by
  have hget := ((firstJob?_eq_some_iff h).1 hj).1
  exact ⟨hget, (h.filed _ _ hget).2⟩

section Record

variable {s s' : Snapshot} {first j : Job}

theorem Recorded.get?_jobs {id : Int}
    (h : s.Recorded s' id (if j.isFinished then (none, some j) else (some j, none))) (k : Int) :
    s'.jobs.get? k = if k = id then (if j.isFinished then none else some j) else s.jobs.get? k := by
  have hk := congrArg Prod.fst (h.record k)
  split at hk
  · next he =>
    rw [if_pos he]
    split at hk
    · next hf => rw [if_pos hf]; exact hk
    · next hf => rw [if_neg hf]; exact hk
  · next he => rw [if_neg he]; exact hk

theorem Recorded.tidy
    (h : s.Recorded s' first.id (if j.isFinished then (none, some j) else (some j, none)))
    (hs : s.Tidy) (hfirst : s.firstJob? = some first) (hj : first.Follows j) (hk : s'.Keyed) :
    s'.Tidy := by
  obtain ⟨hget, hleast⟩ := (firstJob?_eq_some_iff hs).1 hfirst
  obtain ⟨-, hkind, -⟩ := hs.filed _ _ hget
  constructor
  case sound => exact h.sound hs.sound
  case keyed => exact hk
  case filed =>
    intro k x hx
    rw [h.get?_jobs] at hx
    split at hx
    · next he =>
      split at hx
      · cases hx
      · next hf =>
        cases hx
        refine ⟨hj.id.trans he.symm, ?_, Bool.eq_false_iff.2 hf⟩
        rw [hj.kind, hj.argsKind, hkind]
    · exact hs.filed k x hx
  case waiting =>
    intro k id x hx hlt hk
    have hks : s.jobs.get? k ≠ none := by
      rw [h.get?_jobs] at hk
      split at hk
      · next he =>
        rw [he, hget]
        simp
      · exact hk
    rw [h.get?_jobs] at hx
    split at hx
    · next he =>
      -- Nothing waits before the first job.
      have := hleast k hks
      omega
    · exact hs.waiting k id x hx hlt hks

theorem Recorded.first_next
    (h : s.Recorded s' first.id (if j.isFinished then (none, some j) else (some j, none)))
    (hs : s.Tidy) (hs' : s'.Tidy) (hfirst : s.firstJob? = some first) (hj : first.Follows j)
    (hf : j.isFinished = false) : s'.firstJob? = some j := by
  obtain ⟨hget, hleast⟩ := (firstJob?_eq_some_iff hs).1 hfirst
  apply (firstJob?_eq_some_iff hs').2
  rw [hj.id]
  constructor
  · rw [h.get?_jobs, if_pos rfl, hf]
    rfl
  · intro k hk
    apply hleast
    rw [h.get?_jobs] at hk
    split at hk
    · next he =>
      rw [he, hget]
      simp
    · exact hk

end Record

theorem firstJob?_eq_none_iff {s : Snapshot} :
    s.firstJob? = none ↔ ∀ k, s.jobs.get? k = none := by
  unfold firstJob?
  rw [Option.map_eq_none_iff]
  exact SortedMap.first?_eq_none_iff

structure Precedes (a b : Snapshot) : Prop where
  before : a.Before b
  schema : ∀ id σ, a.catalog.schemas.get? id = some σ → b.catalog.schemas.get? id = some σ

theorem Precedes.refl (s : Snapshot) : s.Precedes s := ⟨.refl s, fun _ _ h => h⟩

theorem Precedes.trans {a b c : Snapshot} (hab : a.Precedes b) (hbc : b.Precedes c) :
    a.Precedes c :=
  ⟨hab.before.trans hbc.before, fun id σ h => hbc.schema id σ (hab.schema id σ h)⟩

/--
From `a` to `b` no table was touched, and neither was anything that `a` keeps of a job.
-/
structure Calm (a b : Snapshot) : Prop extends a.Precedes b where
  table : ∀ x y, b.table? x y = a.table? x y
  record : ∀ id, id ≤ a.lastId → b.record id = a.record id

theorem Calm.refl (s : Snapshot) : s.Calm s := ⟨.refl s, fun _ _ => rfl, fun _ _ => rfl⟩

theorem Calm.trans {a b c : Snapshot} (hab : a.Calm b) (hbc : b.Calm c) : a.Calm c where
  toPrecedes := hab.toPrecedes.trans hbc.toPrecedes
  table x y := (hbc.table x y).trans (hab.table x y)
  record id h := (hbc.record id (Int.le_trans h hab.before.lastId)).trans (hab.record id h)

theorem Calm.table_eq {a b : Snapshot} (h : a.Calm b) : b.table? = a.table? :=
  funext fun x => funext (h.table x)

theorem Tidy.le_lastId {s : Snapshot} (h : s.Tidy) {id : Int} (hj : s.jobs.get? id ≠ none) :
    id ≤ s.lastId := h.sound.le_of_jobs (SortedMap.contains_iff.2 hj)

theorem Calm.get?_jobs {a b : Snapshot} (h : a.Calm b) {id : Int} (hid : id ≤ a.lastId) :
    b.jobs.get? id = a.jobs.get? id := congrArg Prod.fst (h.record id hid)

theorem Calm.firstJob? {a b : Snapshot} (h : a.Calm b) (ha : a.Tidy) (hb : b.Tidy) {j : Job}
    (hj : a.firstJob? = some j) : b.firstJob? = some j := by
  obtain ⟨hget, hleast⟩ := (firstJob?_eq_some_iff ha).1 hj
  have hid : j.id ≤ a.lastId := ha.le_lastId (by simp [hget])
  apply (firstJob?_eq_some_iff hb).2
  refine ⟨(h.get?_jobs hid).trans hget, ?_⟩
  intro k hk
  by_cases hka : k ≤ a.lastId
  · apply hleast
    rw [← h.get?_jobs hka]
    exact hk
  · omega

end Snapshot

end Steward.Ledger
