import Steward.Proofs.Ledger.Call

/-!
This module contains what every call keeps of a snapshot: the ids of the jobs stay below the last
one that was given out, no job is both in the queue and in the history, and the history only grows.
-/

namespace Steward.Ledger

open Catalog (Schema Table)
open Change (Job)

namespace Snapshot

/--
The ids of jobs were given out, and no job is both in the queue and in the history.
-/
structure Sound (s : Snapshot) : Prop where
  numbered : ∀ id, s.record id ≠ (none, none) → id ≤ s.lastId
  apart : ∀ id, s.jobs.get? id = none ∨ s.history.get? id = none

/--
What stays from one snapshot to the next: ids are not taken back, and a job that is over stays as
it is.
-/
structure Grows (a b : Snapshot) : Prop where
  lastId : a.lastId ≤ b.lastId
  history : ∀ id, a.history.get? id ≠ none → b.record id = a.record id

theorem sound_initial : initial.Sound where
  numbered id h := by simp [record, initial] at h
  apart id := .inl rfl

theorem Grows.refl (s : Snapshot) : s.Grows s := ⟨Int.le_refl _, fun _ _ => rfl⟩

theorem Grows.trans {a b c : Snapshot} (hab : a.Grows b) (hbc : b.Grows c) : a.Grows c where
  lastId := Int.le_trans hab.lastId hbc.lastId
  history id h := by
    have hb := hab.history id h
    have : b.history.get? id = a.history.get? id := congrArg Prod.snd hb
    rw [← hb]
    apply hbc.history
    rw [this]
    exact h

theorem Sound.record_of_lt {s : Snapshot} (h : s.Sound) {id : Int} (hid : s.lastId < id) :
    s.record id = (none, none) := by
  apply Decidable.byContradiction
  intro hr
  have := h.numbered id hr
  omega

theorem Sound.history_of_jobs {s : Snapshot} (h : s.Sound) {id : Int} (hj : s.jobs.contains id) :
    s.history.get? id = none := by
  cases h.apart id with
  | inl hn => simp [SortedMap.contains, hn] at hj
  | inr hn => exact hn

theorem Sound.le_of_jobs {s : Snapshot} (h : s.Sound) {id : Int} (hj : s.jobs.contains id) :
    id ≤ s.lastId := by
  apply h.numbered
  intro hr
  have : s.jobs.get? id = none := congrArg Prod.fst hr
  simp [SortedMap.contains, this] at hj

/--
The snapshot after the record of one job was written, which was not over before.
-/
structure Recorded (a b : Snapshot) (id : Int) (r : Option Job × Option Job) : Prop where
  record : ∀ k, b.record k = if k = id then r else a.record k
  apart : r.1 = none ∨ r.2 = none
  lastId : a.lastId ≤ b.lastId
  numbered : id ≤ b.lastId
  unfinished : a.history.get? id = none

theorem Recorded.sound {a b : Snapshot} {id : Int} {r : Option Job × Option Job}
    (h : a.Recorded b id r) (ha : a.Sound) : b.Sound := by
  constructor
  · intro k hk
    rw [h.record] at hk
    split at hk
    · next hid =>
      rw [hid]
      exact h.numbered
    · exact Int.le_trans (ha.numbered k hk) h.lastId
  · intro k
    have hk := h.record k
    split at hk
    · cases h.apart with
      | inl hr => exact .inl ((congrArg Prod.fst hk).trans hr)
      | inr hr => exact .inr ((congrArg Prod.snd hk).trans hr)
    · cases ha.apart k with
      | inl hn => exact .inl ((congrArg Prod.fst hk).trans hn)
      | inr hn => exact .inr ((congrArg Prod.snd hk).trans hn)

theorem Recorded.grows {a b : Snapshot} {id : Int} {r : Option Job × Option Job}
    (h : a.Recorded b id r) : a.Grows b where
  lastId := h.lastId
  history k hk := by
    rw [h.record, if_neg]
    intro hid
    rw [hid] at hk
    exact hk h.unfinished

end Snapshot

namespace Txn

open Snapshot

variable {t t' : Txn}

theorem base_of_performed {r : Reply} (h : Performed t r t') : t'.base = t.base := by
  cases h <;> rfl

theorem record_of_performed {r : Reply} (h : Performed t r t') (hs : t.working.Sound) :
    (t.working.lastId ≤ t'.working.lastId ∧ ∀ k, t'.working.record k = t.working.record k) ∨
      ∃ id record, t.working.Recorded t'.working id record := by
  cases h with
  | described => exact .inl ⟨Int.le_refl _, fun _ => rfl⟩
  | versioned => exact .inl ⟨Int.le_refl _, fun _ => rfl⟩
  | numbered => exact .inl ⟨Int.le_of_lt (Int.lt_succ _), fun _ => rfl⟩
  | enqueued job =>
    have fresh : t.working.history.get? (t.working.lastId + 1) = none :=
      congrArg Prod.snd (hs.record_of_lt (Int.lt_succ _))
    refine .inr ⟨t.working.lastId + 1,
      (some { job with id := t.working.lastId + 1, status := .queued }, none), ?_, .inr rfl,
      Int.le_of_lt (Int.lt_succ _), Int.le_refl _, fresh⟩
    intro k
    simp only [enqueue, newId, record, SortedMap.get?_insert]
    split
    · next hk =>
      rw [hk, fresh]
    · rfl
  | updated job hj =>
    have hh := hs.history_of_jobs hj
    refine .inr ⟨job.id, (some job, none), ?_, .inr rfl, Int.le_refl _, hs.le_of_jobs hj, hh⟩
    intro k
    simp only [record, SortedMap.get?_insert]
    split
    · next hk =>
      rw [hk, hh]
    · rfl
  | finished job hj =>
    have hh := hs.history_of_jobs hj
    refine .inr ⟨job.id, (none, some job), ?_, .inl rfl, Int.le_refl _, hs.le_of_jobs hj, hh⟩
    intro k
    simp only [record, SortedMap.get?_insert, SortedMap.get?_erase]
    split <;> rfl

theorem sound_of_performed {r : Reply} (h : Performed t r t') (hs : t.working.Sound) :
    t'.working.Sound := by
  cases record_of_performed h hs with
  | inl hsame =>
    obtain ⟨hid, hrec⟩ := hsame
    constructor
    · intro k hk
      rw [hrec] at hk
      exact Int.le_trans (hs.numbered k hk) hid
    · intro k
      have hk := hrec k
      cases hs.apart k with
      | inl hn => exact .inl ((congrArg Prod.fst hk).trans hn)
      | inr hn => exact .inr ((congrArg Prod.snd hk).trans hn)
  | inr hwritten =>
    obtain ⟨id, record, hrec⟩ := hwritten
    exact hrec.sound hs

theorem grows_of_performed {r : Reply} (h : Performed t r t') (hs : t.working.Sound) :
    t.working.Grows t'.working := by
  cases record_of_performed h hs with
  | inl hsame => exact ⟨hsame.1, fun k _ => hsame.2 k⟩
  | inr hwritten =>
    obtain ⟨id, record, hrec⟩ := hwritten
    exact hrec.grows

end Txn

end Steward.Ledger
