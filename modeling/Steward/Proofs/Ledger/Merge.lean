import Steward.Proofs.Ledger.Growth

/-!
This module contains the merge of two changes of one snapshot. Commits merge the change of a
transaction into what was committed since it began: they succeed if no part was changed on both
sides, and then every part is taken from the side that changed it.
-/

namespace Steward.Ledger

open Change (Job Trouble)

/--
The value that is not `base`, where at most one of the other two is not.
-/
def threeWay {α : Type} [DecidableEq α] (base current ours : α) : α :=
  if ours = base then current else ours

section ThreeWay

variable {α : Type} [DecidableEq α] {base current ours : α}

theorem threeWay_self (base ours : α) : threeWay base base ours = ours := by
  unfold threeWay
  split
  · next h => exact h.symm
  · rfl

theorem threeWay_cases (h : ours = base ∨ current = base) :
    (ours = base ∧ threeWay base current ours = current) ∨
      (current = base ∧ threeWay base current ours = ours) := by
  unfold threeWay
  cases h with
  | inl h => exact .inl ⟨h, if_pos h⟩
  | inr h =>
    refine .inr ⟨h, ?_⟩
    split
    · next ho => rw [h, ho]
    · rfl

end ThreeWay

namespace Snapshot

/--
No part of the snapshot differs from `base` on both sides: not the description of the schemas, not
the last id, and not what is kept of any job.
-/
structure Compatible (base current ours : Snapshot) : Prop where
  catalog : ours.catalog = base.catalog ∨ current.catalog = base.catalog
  lastId : ours.lastId = base.lastId ∨ current.lastId = base.lastId
  record : ∀ id, ours.record id = base.record id ∨ current.record id = base.record id

/--
`new` has the next revision after `current`, and each of its parts from the side that changed it.
-/
structure IsMerge (base current ours new : Snapshot) : Prop where
  revision : new.revision = current.revision + 1
  catalog : new.catalog = threeWay base.catalog current.catalog ours.catalog
  lastId : new.lastId = threeWay base.lastId current.lastId ours.lastId
  record : ∀ id, new.record id = threeWay (base.record id) (current.record id) (ours.record id)

theorem ext_record {a b : Snapshot} (hr : a.revision = b.revision) (hc : a.catalog = b.catalog)
    (hl : a.lastId = b.lastId) (h : ∀ id, a.record id = b.record id) : a = b := by
  have hj : a.jobs = b.jobs := SortedMap.ext_get? fun id => congrArg Prod.fst (h id)
  have hh : a.history = b.history := SortedMap.ext_get? fun id => congrArg Prod.snd (h id)
  cases a
  cases b
  simp_all

theorem record_putRecord (s : Snapshot) (id : Int) (r : Option Job × Option Job) (k : Int) :
    (s.putRecord id r).record k = if k = id then r else s.record k := by
  obtain ⟨queued, ended⟩ := r
  cases queued <;> cases ended <;>
    simp only [putRecord, record, SortedMap.get?_insert, SortedMap.get?_erase] <;> split <;> rfl

theorem record_foldl_putRecord (r : Int → Option Job × Option Job) (ids : List Int)
    (s : Snapshot) (k : Int) :
    (ids.foldl (fun s id => s.putRecord id (r id)) s).record k =
      if k ∈ ids then r k else s.record k := by
  induction ids generalizing s with
  | nil => simp
  | cons id ids ih =>
    rw [List.foldl_cons, ih, record_putRecord]
    by_cases hk : k = id
    · simp [hk]
    · simp [hk]

theorem mem_changedJobs {old new : Snapshot} (h : old.Grows new) {id : Int} :
    id ∈ old.changedJobs new ↔ new.record id ≠ old.record id := by
  -- Jobs whose record changed are found by their ids in the queues and by the new ids in the
  -- history.
  simp only [changedJobs, List.mem_filter, List.mem_append, SortedMap.mem_keys_iff, bne_iff_ne]
  constructor
  · rintro ⟨_, hne⟩
    exact hne.symm
  · intro hne
    refine ⟨?_, hne.symm⟩
    by_cases hold : old.jobs.get? id = none
    · by_cases hnew : new.jobs.get? id = none
      · right
        have hfirst : old.history.get? id = none := by
          apply Decidable.byContradiction
          intro hh
          exact hne (h.history id hh)
        refine ⟨?_, ?_⟩
        · intro hh
          apply hne
          simp only [record, hold, hnew, hfirst, hh]
        · simp [SortedMap.contains, hfirst]
      · exact .inl (.inr hnew)
    · exact .inl (.inl hold)

theorem any_changedJobs_eq_false_iff {base current ours : Snapshot} (h : base.Grows ours) :
    ((base.changedJobs ours).any fun id => current.record id != base.record id) = false ↔
      ∀ id, ours.record id = base.record id ∨ current.record id = base.record id := by
  simp only [List.any_eq_false, mem_changedJobs h, bne_iff_ne, ne_eq, Decidable.not_not]
  constructor
  · intro hall id
    by_cases hid : ours.record id = base.record id
    · exact .inl hid
    · exact .inr (hall id hid)
  · intro hall id hid
    exact (hall id).resolve_left hid

theorem max_lastId {base current ours : Snapshot} (hc : base.lastId ≤ current.lastId)
    (ho : base.lastId ≤ ours.lastId)
    (h : ours.lastId = base.lastId ∨ current.lastId = base.lastId) :
    max current.lastId ours.lastId = threeWay base.lastId current.lastId ours.lastId := by
  cases threeWay_cases h with
  | inl hl =>
    rw [hl.2]
    omega
  | inr hl =>
    rw [hl.2]
    omega

theorem catalog_replay (base current ours : Snapshot) :
    (base.replay current ours).catalog =
      threeWay base.catalog current.catalog ours.catalog := by
  unfold threeWay replay
  dsimp only
  split
  · next h => rw [if_neg (Ne.symm h)]
  · next h => rw [if_pos (Decidable.not_not.1 h).symm]

theorem record_replay {base current ours : Snapshot} (h : base.Grows ours) (id : Int) :
    (base.replay current ours).record id =
      threeWay (base.record id) (current.record id) (ours.record id) := by
  refine (record_foldl_putRecord ours.record _ current id).trans ?_
  by_cases hid : ours.record id = base.record id <;> simp [mem_changedJobs h, threeWay, hid]

theorem counters_of_rebase? {base current ours merged : Snapshot}
    (h : base.rebase? current ours = some merged) :
    (ours.catalog = base.catalog ∨ current.catalog = base.catalog) ∧
      (ours.lastId = base.lastId ∨ current.lastId = base.lastId) ∧
      merged = base.replay current ours := by
  unfold rebase? at h
  split at h
  · cases h
  · next hc =>
    split at h
    · cases h
    · next hl =>
      split at h
      · cases h
      · cases h
        refine ⟨?_, ?_, rfl⟩
        · by_cases ho : ours.catalog = base.catalog
          · exact .inl ho
          · exact .inr (Decidable.not_not.1 (not_and.1 hc (Ne.symm ho))).symm
        · by_cases ho : ours.lastId = base.lastId
          · exact .inl ho
          · exact .inr (Decidable.not_not.1 (not_and.1 hl ho))

theorem rebase?_eq_some_iff {base current ours merged : Snapshot} (hg : base.Grows ours) :
    base.rebase? current ours = some merged ↔
      base.Compatible current ours ∧ merged = base.replay current ours := by
  constructor
  · intro h
    obtain ⟨hc, hl, hm⟩ := counters_of_rebase? h
    refine ⟨⟨hc, hl, ?_⟩, hm⟩
    rw [← any_changedJobs_eq_false_iff hg, ← Bool.not_eq_true]
    intro hany
    unfold rebase? at h
    rw [if_pos hany] at h
    split at h
    · cases h
    · split at h <;> cases h
  · rintro ⟨h, rfl⟩
    unfold rebase?
    rw [if_neg, if_neg, if_neg]
    · rw [(any_changedJobs_eq_false_iff hg).2 h.record]
      exact Bool.false_ne_true
    · rintro ⟨ho, hcur⟩
      exact h.lastId.elim ho hcur
    · rintro ⟨ho, hcur⟩
      exact h.catalog.elim (fun e => ho e.symm) fun e => hcur e.symm

end Snapshot

end Steward.Ledger
