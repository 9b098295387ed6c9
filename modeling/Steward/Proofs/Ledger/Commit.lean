import Steward.Proofs.Ledger.Merge

/-!
This module contains what a commit does to the ledger, given that the transaction began at a
snapshot that the ledger went through.
-/

namespace Steward.Ledger

open Change (Trouble)

namespace Snapshot

/--
`a` was the last snapshot of a ledger before `b`, or is the same one.
-/
structure Before (a b : Snapshot) : Prop where
  revision : a = b ∨ a.revision < b.revision
  schemaVersion : a.catalog.schemaVersion ≤ b.catalog.schemaVersion
  lastId : a.lastId ≤ b.lastId

theorem Before.refl (s : Snapshot) : s.Before s := ⟨.inl rfl, Int.le_refl _, Int.le_refl _⟩

theorem Before.trans {a b c : Snapshot} (hab : a.Before b) (hbc : b.Before c) : a.Before c where
  revision := by
    cases hab.revision with
    | inl h =>
      rw [h]
      exact hbc.revision
    | inr h =>
      right
      cases hbc.revision with
      | inl h' => exact h' ▸ h
      | inr h' => exact Nat.lt_trans h h'
  schemaVersion := Int.le_trans hab.schemaVersion hbc.schemaVersion
  lastId := Int.le_trans hab.lastId hbc.lastId

theorem Before.eq_of_revision {a b : Snapshot} (h : a.Before b) (hr : b.revision = a.revision) :
    b = a := by
  cases h.revision with
  | inl he => exact he.symm
  | inr hlt => omega

theorem Compatible.refl (base ours : Snapshot) : base.Compatible base ours :=
  ⟨.inr rfl, .inr rfl, fun _ => .inr rfl⟩

end Snapshot

namespace Store

open Snapshot

variable {s s' : Store} {t : Txn} {next : Snapshot}

theorem commit_eq_ok (h : s.commit t = .ok s') : s.merged t = .ok s'.snapshot := by
  obtain ⟨next, hm, h⟩ := bind_eq_ok.1 h
  obtain ⟨kept, _, h⟩ := bind_eq_ok.1 h
  cases h
  exact hm

theorem commit_of_merged (hf : s.file = none) (h : s.merged t = .ok next) :
    s.commit t = .ok ⟨next, none⟩ := by
  unfold commit
  rw [h]
  unfold persist
  rw [hf]
  simp [bind, Except.bind, pure, Except.pure, hf]

theorem file_of_commit (hf : s.file = none) (h : s.commit t = .ok s') : s'.file = none := by
  have hs := h.symm.trans (commit_of_merged hf (commit_eq_ok h))
  rw [Except.ok.inj hs]

theorem merged_cases (hb : t.base.Before s.snapshot) (h : s.merged t = .ok next) :
    (t.base = s.snapshot ∧ next = { t.working with revision := s.snapshot.revision + 1 }) ∨
      ∃ merged, t.base.rebase? s.snapshot t.working = some merged ∧
        next = { merged with revision := s.snapshot.revision + 1 } := by
  unfold merged at h
  dsimp only at h
  split at h
  · next heq =>
    cases h
    split at heq
    · next hr =>
      cases heq
      exact .inl ⟨(hb.eq_of_revision hr).symm, rfl⟩
    · exact .inr ⟨_, heq, rfl⟩
  · cases h

theorem counters_of_merged (hb : t.base.Before s.snapshot)
    (ho : t.base.lastId ≤ t.working.lastId) (h : s.merged t = .ok next) :
    next.revision = s.snapshot.revision + 1 ∧
      (t.working.catalog = t.base.catalog ∨ s.snapshot.catalog = t.base.catalog) ∧
      (t.working.lastId = t.base.lastId ∨ s.snapshot.lastId = t.base.lastId) ∧
      next.catalog = threeWay t.base.catalog s.snapshot.catalog t.working.catalog ∧
      next.lastId = threeWay t.base.lastId s.snapshot.lastId t.working.lastId := by
  cases merged_cases hb h with
  | inl hsame =>
    obtain ⟨he, rfl⟩ := hsame
    rw [he]
    exact ⟨rfl, .inr rfl, .inr rfl, (threeWay_self _ _).symm, (threeWay_self _ _).symm⟩
  | inr hrebased =>
    obtain ⟨merged, hm, rfl⟩ := hrebased
    obtain ⟨hc, hl, rfl⟩ := counters_of_rebase? hm
    exact ⟨rfl, hc, hl, catalog_replay _ _ _, max_lastId hb.lastId ho hl⟩

theorem isOk_merged_iff (hb : t.base.Before s.snapshot) (hg : t.base.Grows t.working) :
    (∃ next, s.merged t = .ok next) ↔ t.base.Compatible s.snapshot t.working := by
  constructor
  · rintro ⟨next, h⟩
    cases merged_cases hb h with
    | inl hsame =>
      rw [hsame.1]
      exact .refl _ _
    | inr hrebased =>
      obtain ⟨merged, hm, _⟩ := hrebased
      exact ((rebase?_eq_some_iff hg).1 hm).1
  · intro h
    unfold merged
    dsimp only
    split
    · exact ⟨_, rfl⟩
    · next heq =>
      rw [(rebase?_eq_some_iff hg).2 ⟨h, rfl⟩] at heq
      split at heq <;> cases heq

theorem isMerge_of_merged (hb : t.base.Before s.snapshot) (hg : t.base.Grows t.working)
    (h : s.merged t = .ok next) : t.base.IsMerge s.snapshot t.working next := by
  obtain ⟨hr, hc, hl, hcat, hlast⟩ := counters_of_merged hb hg.lastId h
  refine ⟨hr, hcat, hlast, ?_⟩
  intro id
  cases merged_cases hb h with
  | inl hsame =>
    obtain ⟨he, rfl⟩ := hsame
    rw [he, threeWay_self]
    rfl
  | inr hrebased =>
    obtain ⟨merged, hm, rfl⟩ := hrebased
    obtain ⟨_, _, rfl⟩ := counters_of_rebase? hm
    exact record_replay hg id

theorem merged_eq_error {e : Trouble} (h : s.merged t = .error e) :
    e = .ofFault (.writeConflict t.base.revision s.snapshot.revision) := by
  unfold merged at h
  dsimp only at h
  split at h
  · cases h
  · cases h
    rfl

theorem commit_eq_error {e : Trouble} (hf : s.file = none) (h : s.commit t = .error e) :
    e = .ofFault (.writeConflict t.base.revision s.snapshot.revision) := by
  cases hm : s.merged t with
  | ok next =>
    rw [commit_of_merged hf hm] at h
    cases h
  | error x =>
    unfold commit at h
    rw [hm] at h
    cases h
    exact merged_eq_error hm

end Store

end Steward.Ledger
