import Mathlib.Data.List.Chain
import Steward.Proofs.Ledger.Traffic

/-!
This module contains the counters of a ledger: the ids and the schema versions that transactions
are given. Every transaction counts on its own copy, so two open ones may be given the same number,
but then at most one of them can be committed. `handedOut_nodup` says so for any number of
transactions.
-/

namespace Steward.Ledger

structure Counted (lo hi : Int) (xs : List Int) : Prop where
  le : lo ≤ hi
  nodup : xs.Nodup
  bounds : ∀ x ∈ xs, lo < x ∧ x ≤ hi

namespace Counted

variable {lo mid hi : Int} {xs ys : List Int}

theorem nil (lo : Int) : Counted lo lo [] := ⟨Int.le_refl _, .nil, by simp⟩

theorem append (hx : Counted lo mid xs) (hy : Counted mid hi ys) : Counted lo hi (xs ++ ys) where
  le := Int.le_trans hx.le hy.le
  nodup := by
    apply List.nodup_append.2
    refine ⟨hx.nodup, hy.nodup, ?_⟩
    intro x hxs y hys heq
    have := (hx.bounds x hxs).2
    have := (hy.bounds y hys).1
    omega
  bounds := by
    intro x hxs
    cases List.mem_append.1 hxs with
    | inl h =>
      have := hx.bounds x h
      have := hy.le
      omega
    | inr h =>
      have := hy.bounds x h
      have := hx.le
      omega

theorem append_nil (h : Counted lo hi xs) : Counted lo hi (xs ++ []) :=
  (List.append_nil xs).symm ▸ h

theorem next (h : Counted lo hi xs) : Counted lo (hi + 1) (xs ++ [hi + 1]) := by
  apply h.append
  refine ⟨by omega, by simp, ?_⟩
  intro x hx
  rw [List.mem_singleton.1 hx]
  omega

theorem eq_nil (h : Counted lo lo xs) : xs = [] := by
  cases xs with
  | nil => rfl
  | cons x xs =>
    have := h.bounds x List.mem_cons_self
    omega

theorem merge {base current ours new : Int} (hx : Counted lo current xs)
    (hy : Counted base ours ys)
    (h : (ours = base ∧ new = current) ∨ (current = base ∧ new = ours)) :
    Counted lo new (xs ++ ys) := by
  -- At most one of the two went on from the base, so what they counted together was counted once.
  cases h with
  | inl h =>
    obtain ⟨rfl, rfl⟩ := h
    rw [hy.eq_nil, List.append_nil]
    exact hx
  | inr h =>
    obtain ⟨rfl, rfl⟩ := h
    exact hx.append hy

end Counted

def idsOf (rs : List Reply) : List Int := rs.filterMap Reply.id?

def versionsOf (rs : List Reply) : List Int := rs.filterMap Reply.version?

structure Accounted (a b : Snapshot) (rs : List Reply) : Prop where
  ids : Counted a.lastId b.lastId (idsOf rs)
  versions : Counted a.catalog.schemaVersion b.catalog.schemaVersion (versionsOf rs)

theorem Accounted.refl (s : Snapshot) : Accounted s s [] := ⟨.nil _, .nil _⟩

theorem idsOf_snoc (rs : List Reply) (r : Reply) :
    idsOf (rs ++ [r]) = idsOf rs ++ r.id?.toList := by
  cases h : r.id? <;> simp [idsOf, h]

theorem versionsOf_snoc (rs : List Reply) (r : Reply) :
    versionsOf (rs ++ [r]) = versionsOf rs ++ r.version?.toList := by
  cases h : r.version? <;> simp [versionsOf, h]

section Perform

variable {s : Snapshot} {t t' : Txn} {r : Reply} {rs : List Reply}

theorem Accounted.ids_perform (h : Accounted s t.working rs) (hp : Txn.Performed t r t') :
    Counted s.lastId t'.working.lastId (idsOf (rs ++ [r])) := by
  rw [idsOf_snoc]
  cases hp with
  | described r hr catalog hv =>
    rw [Reply.id?_of_isPlain hr]
    exact h.ids.append_nil
  | versioned => exact h.ids.append_nil
  | numbered => exact h.ids.next
  | enqueued job => exact h.ids.next
  | updated job hj => exact h.ids.append_nil
  | finished job hj => exact h.ids.append_nil

theorem Accounted.versions_perform (h : Accounted s t.working rs) (hp : Txn.Performed t r t') :
    Counted s.catalog.schemaVersion t'.working.catalog.schemaVersion
      (versionsOf (rs ++ [r])) := by
  rw [versionsOf_snoc]
  cases hp with
  | described r hr catalog hv =>
    rw [Reply.version?_of_isPlain hr]
    exact (hv ▸ h.versions : Counted _ catalog.schemaVersion _).append_nil
  | versioned => exact h.versions.next
  | numbered => exact h.versions.append_nil
  | enqueued job => exact h.versions.append_nil
  | updated job hj => exact h.versions.append_nil
  | finished job hj => exact h.versions.append_nil

theorem Accounted.perform (h : Accounted s t.working rs) (hp : Txn.Performed t r t') :
    Accounted s t'.working (rs ++ [r]) := ⟨h.ids_perform hp, h.versions_perform hp⟩

end Perform

/--
A lane on a ledger: it began at a snapshot of this ledger, and counted on from there.
-/
structure Lane.Orderly (l : Lane) (current : Snapshot) : Prop where
  before : l.txn.base.Before current
  accounted : Accounted l.txn.base l.txn.working l.replies

theorem Lane.Orderly.perform {l : Lane} {current : Snapshot} (h : l.Orderly current) (c : Call) :
    (l.perform c).Orderly current := by
  have hp := l.txn.perform_performed c
  have hbase : (l.perform c).txn.base = l.txn.base := Txn.base_of_performed hp
  constructor
  · rw [hbase]
    exact h.before
  · rw [hbase]
    exact h.accounted.perform hp

theorem Lane.Orderly.after {l : Lane} {a b : Snapshot} (h : l.Orderly a) (hab : a.Before b) :
    l.Orderly b := ⟨h.before.trans hab, h.accounted⟩

namespace Snapshot

/--
`b` came next after `a`: the revision grew by one and no counter went back.
-/
structure Next (a b : Snapshot) : Prop where
  revision : b.revision = a.revision + 1
  schemaVersion : a.catalog.schemaVersion ≤ b.catalog.schemaVersion
  lastId : a.lastId ≤ b.lastId

theorem Next.before {a b : Snapshot} (h : a.Next b) : a.Before b :=
  ⟨.inr (h.revision ▸ Nat.lt_succ_self _), h.schemaVersion, h.lastId⟩

end Snapshot

section Commit

variable {s s' : Store} {l : Lane}

theorem Lane.Orderly.next (h : l.Orderly s.snapshot) (hs : s.commit l.txn = .ok s') :
    s.snapshot.Next s'.snapshot := by
  obtain ⟨hr, hc, hl, hcat, hlast⟩ :=
    Store.counters_of_merged h.before h.accounted.ids.le (Store.commit_eq_ok hs)
  refine ⟨hr, ?_, ?_⟩
  · rw [hcat]
    cases threeWay_cases hc with
    | inl hd => exact Int.le_of_eq (by rw [hd.2])
    | inr hd =>
      rw [hd.2, hd.1]
      exact h.accounted.versions.le
  · rw [hlast]
    cases threeWay_cases hl with
    | inl hd => exact Int.le_of_eq (by rw [hd.2])
    | inr hd =>
      rw [hd.2, hd.1]
      exact h.accounted.ids.le

theorem Lane.Orderly.accounted_commit {start : Snapshot} {granted : List Reply}
    (h : l.Orderly s.snapshot) (hg : Accounted start s.snapshot granted)
    (hs : s.commit l.txn = .ok s') :
    Accounted start s'.snapshot (granted ++ l.replies) := by
  obtain ⟨_, hc, hl, hcat, hlast⟩ :=
    Store.counters_of_merged h.before h.accounted.ids.le (Store.commit_eq_ok hs)
  constructor
  · rw [idsOf, List.filterMap_append]
    apply hg.ids.merge h.accounted.ids
    rw [hlast]
    exact threeWay_cases hl
  · rw [versionsOf, List.filterMap_append]
    apply hg.versions.merge h.accounted.versions
    rw [hcat]
    cases threeWay_cases hc with
    | inl hd => exact .inl ⟨congrArg _ hd.1, congrArg _ hd.2⟩
    | inr hd => exact .inr ⟨congrArg _ hd.1, congrArg _ hd.2⟩

end Commit

namespace Traffic

/--
All lanes are orderly, what was granted was counted since the start, and every snapshot in the log
came next after the one before it.
-/
structure Orderly (start : Snapshot) (t : Traffic) : Prop where
  lanes : ∀ l ∈ t.lanes, l.Orderly t.store.snapshot
  granted : Accounted start t.store.snapshot t.granted
  last : t.log.getLast? = some t.store.snapshot
  log : t.log.IsChain Snapshot.Next

theorem orderly_ofStore (s : Store) : (ofStore s).Orderly s.snapshot where
  lanes := by simp [ofStore]
  granted := .refl _
  last := rfl
  log := .singleton _

theorem orderly_step {start : Snapshot} (t : Traffic) (e : Event) (h : t.Orderly start) :
    (t.step e).Orderly start := by
  apply step_cases e h
  case hbegin =>
    refine ⟨?_, h.granted, h.last, h.log⟩
    intro l hl
    cases List.mem_append.1 hl with
    | inl hl => exact h.lanes l hl
    | inr hl =>
      rw [List.mem_singleton.1 hl]
      exact ⟨.refl _, .refl _⟩
  case hcall =>
    intro lane l c hl
    refine ⟨?_, h.granted, h.last, h.log⟩
    intro other ho
    cases List.mem_or_eq_of_mem_set ho with
    | inl hold => exact h.lanes other hold
    | inr hnew =>
      rw [hnew]
      exact (h.lanes l hl).perform c
  case hdrop =>
    intro lane
    refine ⟨?_, h.granted, h.last, h.log⟩
    intro l hl
    exact h.lanes l (List.mem_of_mem_eraseIdx hl)
  case hcommit =>
    intro lane l store hl hs
    have next := (h.lanes l hl).next hs
    refine ⟨?_, (h.lanes l hl).accounted_commit h.granted hs, List.getLast?_concat, ?_⟩
    · intro other ho
      exact (h.lanes other (List.mem_of_mem_eraseIdx ho)).after next.before
    · apply List.isChain_append.2
      refine ⟨h.log, .singleton _, ?_⟩
      intro a ha b hb
      rw [h.last] at ha
      cases ha
      cases hb
      exact next

/--
However many transactions there are and in whatever order they go on: no id and no schema version
was given to two transactions that were committed, or twice to one of them, and along the commits
no counter went back while the revision grew by one.
-/
theorem handedOut_nodup (s : Store) (es : List Event) :
    (idsOf ((ofStore s).run es).granted).Nodup ∧
      (versionsOf ((ofStore s).run es).granted).Nodup ∧
      ((ofStore s).run es).log.IsChain Snapshot.Next := by
  have h : ((ofStore s).run es).Orderly s.snapshot :=
    run_induction (orderly_ofStore s) orderly_step es
  exact ⟨h.granted.ids.nodup, h.granted.versions.nodup, h.log⟩

end Traffic

end Steward.Ledger
