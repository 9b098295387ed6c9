import Steward.Proofs.Ledger.Counters

/-!
This module contains the law of optimistic commits: on every ledger that was filled by commits
alone, a commit is an exact merge. `commit_is_merge` says when it succeeds and what it leaves, and
that two transactions may be committed in either order.
-/

namespace Steward.Ledger

open Change (Job Trouble)

namespace Snapshot

variable {base current ours theirs new : Snapshot}

theorem IsMerge.sound (h : base.IsMerge current ours new) (hc : base.Compatible current ours)
    (hcur : current.Sound) (ho : ours.Sound) (hle : base.lastId ≤ current.lastId)
    (hle' : base.lastId ≤ ours.lastId) : new.Sound := by
  have hlast : current.lastId ≤ new.lastId ∧ ours.lastId ≤ new.lastId := by
    rw [h.lastId]
    cases threeWay_cases hc.lastId with
    | inl hd =>
      rw [hd.2, hd.1]
      exact ⟨Int.le_refl _, hle⟩
    | inr hd =>
      rw [hd.2, hd.1]
      exact ⟨hle', Int.le_refl _⟩
  have hside (id : Int) : new.record id = current.record id ∨ new.record id = ours.record id := by
    rw [h.record]
    cases threeWay_cases (hc.record id) with
    | inl hd => exact .inl hd.2
    | inr hd => exact .inr hd.2
  constructor
  · intro id hid
    cases hside id with
    | inl hs => exact Int.le_trans (hcur.numbered id (hs ▸ hid)) hlast.1
    | inr hs => exact Int.le_trans (ho.numbered id (hs ▸ hid)) hlast.2
  · intro id
    cases hside id with
    | inl hs =>
      exact (hcur.apart id).imp (congrArg Prod.fst hs).trans (congrArg Prod.snd hs).trans
    | inr hs =>
      exact (ho.apart id).imp (congrArg Prod.fst hs).trans (congrArg Prod.snd hs).trans

end Snapshot

def Store.commitBoth (s : Store) (first second : Txn) : Except Trouble Store := do
  (← s.commit first).commit second

section Order

variable {α : Type} [DecidableEq α]

theorem threeWay_swap {base current a b : α}
    (h : a = base ∨ current = base) (h' : b = base ∨ threeWay base current a = base) :
    (b = base ∨ current = base) ∧ (a = base ∨ threeWay base current b = base) ∧
      threeWay base (threeWay base current a) b = threeWay base (threeWay base current b) a := by
  unfold threeWay at *
  by_cases ha : a = base <;> by_cases hb : b = base <;> by_cases hc : current = base <;>
    simp_all

end Order

namespace Snapshot

variable {base current ours theirs first last : Snapshot}

theorem IsMerge.unique {new new' : Snapshot} (h : base.IsMerge current ours new)
    (h' : base.IsMerge current ours new') : new = new' := by
  apply ext_record
  · rw [h.revision, h'.revision]
  · rw [h.catalog, h'.catalog]
  · rw [h.lastId, h'.lastId]
  · intro id
    rw [h.record, h'.record]

theorem Compatible.swap (ho : base.Compatible current ours) (hf : base.IsMerge current ours first)
    (ht : base.Compatible first theirs) :
    base.Compatible current theirs ∧
      ∀ {second}, base.IsMerge current theirs second → base.Compatible second ours := by
  have hcat := threeWay_swap ho.catalog (hf.catalog ▸ ht.catalog)
  have hlast := threeWay_swap ho.lastId (hf.lastId ▸ ht.lastId)
  have hrec (id : Int) := threeWay_swap (ho.record id) (hf.record id ▸ ht.record id)
  refine ⟨⟨hcat.1, hlast.1, fun id => (hrec id).1⟩, ?_⟩
  intro second hs
  refine ⟨?_, ?_, ?_⟩
  · rw [hs.catalog]
    exact hcat.2.1
  · rw [hs.lastId]
    exact hlast.2.1
  · intro id
    rw [hs.record]
    exact (hrec id).2.1

theorem IsMerge.swap (ho : base.Compatible current ours) (hf : base.IsMerge current ours first)
    (ht : base.Compatible first theirs) (hl : base.IsMerge first theirs last) {second : Snapshot}
    (hs : base.IsMerge current theirs second) : base.IsMerge second ours last := by
  constructor
  · rw [hl.revision, hf.revision, hs.revision]
  · rw [hl.catalog, hf.catalog, hs.catalog]
    exact (threeWay_swap ho.catalog (hf.catalog ▸ ht.catalog)).2.2
  · rw [hl.lastId, hf.lastId, hs.lastId]
    exact (threeWay_swap ho.lastId (hf.lastId ▸ ht.lastId)).2.2
  · intro id
    rw [hl.record, hf.record, hs.record]
    exact (threeWay_swap (ho.record id) (hf.record id ▸ ht.record id)).2.2

end Snapshot

/--
A transaction that may be committed to a ledger without a file: it began at a snapshot that this
ledger went through, and it took no job back that was over.
-/
structure Store.Fits (s : Store) (t : Txn) : Prop where
  file : s.file = none
  before : t.base.Before s.snapshot
  grows : t.base.Grows t.working

section Swap

variable {s s₁ s₂ : Store} {a b : Txn}

theorem Store.commit_eq_ok_iff (h : s.Fits a) :
    s.commit a = .ok s₁ ↔
      a.base.Compatible s.snapshot a.working ∧
        a.base.IsMerge s.snapshot a.working s₁.snapshot ∧ s₁.file = none := by
  constructor
  · intro hs
    have hm := Store.commit_eq_ok hs
    exact ⟨(Store.isOk_merged_iff h.before h.grows).1 ⟨_, hm⟩,
      Store.isMerge_of_merged h.before h.grows hm, Store.file_of_commit h.file hs⟩
  · rintro ⟨hc, hm, hf⟩
    obtain ⟨next, hn⟩ := (Store.isOk_merged_iff h.before h.grows).2 hc
    have : next = s₁.snapshot := (Store.isMerge_of_merged h.before h.grows hn).unique hm
    rw [Store.commit_of_merged h.file hn, this, ← hf]

theorem Store.commitBoth_eq_ok :
    s.commitBoth a b = .ok s₂ ↔ ∃ s₁, s.commit a = .ok s₁ ∧ s₁.commit b = .ok s₂ := bind_eq_ok

theorem Store.commitBoth_swap (hbase : a.base = b.base) (ha : s.Fits a) (hb : s.Fits b)
    (ha' : ∀ {s'}, s.commit b = .ok s' → s'.Fits a) (hb' : ∀ {s'}, s.commit a = .ok s' → s'.Fits b)
    (h : s.commitBoth a b = .ok s₂) : s.commitBoth b a = .ok s₂ := by
  obtain ⟨s₁, h₁, h₂⟩ := Store.commitBoth_eq_ok.1 h
  obtain ⟨hc₁, hm₁, hf₁⟩ := (Store.commit_eq_ok_iff ha).1 h₁
  obtain ⟨hc₂, hm₂, hf₂⟩ := (Store.commit_eq_ok_iff (hb' h₁)).1 h₂
  rw [← hbase] at hc₂ hm₂
  obtain ⟨hcb, hca⟩ := hc₁.swap hm₁ hc₂
  obtain ⟨second, hs⟩ := (Store.isOk_merged_iff hb.before hb.grows).2 (hbase ▸ hcb)
  have hcommit : s.commit b = .ok ⟨second, none⟩ := Store.commit_of_merged hb.file hs
  have hms := hbase ▸ Store.isMerge_of_merged hb.before hb.grows hs
  refine Store.commitBoth_eq_ok.2 ⟨_, hcommit, ?_⟩
  exact (Store.commit_eq_ok_iff (ha' hcommit)).2
    ⟨hca hms, Snapshot.IsMerge.swap hc₁ hm₁ hc₂ hm₂ hms, hf₂⟩

end Swap

namespace Traffic

/--
The ledger is not kept in a file, its jobs and those of all lanes are sound, and no lane changed
what was over when it began.
-/
structure Sound (t : Traffic) : Prop where
  file : t.store.file = none
  store : t.store.snapshot.Sound
  lanes : ∀ l ∈ t.lanes, l.txn.working.Sound ∧ l.txn.base.Grows l.txn.working

structure Since (start past : Snapshot) (t : Traffic) : Prop where
  orderly : t.Orderly start
  sound : t.Sound
  before : past.Before t.store.snapshot

theorem since_ofStore : (ofStore .inMemory).Since .initial .initial where
  orderly := orderly_ofStore .inMemory
  sound := ⟨rfl, Snapshot.sound_initial, by simp [ofStore]⟩
  before := .refl _

theorem Since.now {start past : Snapshot} {t : Traffic} (h : t.Since start past) :
    t.Since start t.store.snapshot := ⟨h.orderly, h.sound, .refl _⟩

theorem Since.fits {start past : Snapshot} {t : Traffic} (h : t.Since start past) {l : Lane}
    (hl : l ∈ t.lanes) : t.store.Fits l.txn :=
  ⟨h.sound.file, (h.orderly.lanes l hl).before, (h.sound.lanes l hl).2⟩

theorem since_step {start past : Snapshot} (t : Traffic) (e : Event) (h : t.Since start past) :
    (t.step e).Since start past := by
  have horderly := orderly_step t e h.orderly
  suffices hs : (t.step e).Sound ∧ past.Before (t.step e).store.snapshot from
    ⟨horderly, hs.1, hs.2⟩
  apply step_cases (P := fun t => t.Sound ∧ past.Before t.store.snapshot) e ⟨h.sound, h.before⟩
  case hbegin =>
    refine ⟨⟨h.sound.file, h.sound.store, ?_⟩, h.before⟩
    intro l hl
    cases List.mem_append.1 hl with
    | inl hl => exact h.sound.lanes l hl
    | inr hl =>
      rw [List.mem_singleton.1 hl]
      exact ⟨h.sound.store, .refl _⟩
  case hcall =>
    intro lane l c hl
    refine ⟨⟨h.sound.file, h.sound.store, ?_⟩, h.before⟩
    intro other ho
    cases List.mem_or_eq_of_mem_set ho with
    | inl hold => exact h.sound.lanes other hold
    | inr hnew =>
      have hp := l.txn.perform_performed c
      have hbase : (l.perform c).txn.base = l.txn.base := Txn.base_of_performed hp
      rw [hnew, hbase]
      exact ⟨Txn.sound_of_performed hp (h.sound.lanes l hl).1,
        (h.sound.lanes l hl).2.trans (Txn.grows_of_performed hp (h.sound.lanes l hl).1)⟩
  case hdrop =>
    intro lane
    refine ⟨⟨h.sound.file, h.sound.store, ?_⟩, h.before⟩
    intro l hl
    exact h.sound.lanes l (List.mem_of_mem_eraseIdx hl)
  case hcommit =>
    intro lane l store hl hs
    have hfits := h.fits hl
    obtain ⟨hc, hm, hf⟩ := (Store.commit_eq_ok_iff hfits).1 hs
    refine ⟨⟨hf, ?_, ?_⟩, h.before.trans ((h.orderly.lanes l hl).next hs).before⟩
    · exact hm.sound hc h.sound.store (h.sound.lanes l hl).1 hfits.before.lastId
        hfits.grows.lastId
    · intro other ho
      exact h.sound.lanes other (List.mem_of_mem_eraseIdx ho)

theorem since_run {start past : Snapshot} {t : Traffic} (h : t.Since start past)
    (es : List Event) : (t.run es).Since start past := run_induction h since_step es

end Traffic

section PerformAll

variable {s s' : Store} {t : Txn}

theorem Txn.base_performAll (t : Txn) (calls : List Call) : (t.performAll calls).base = t.base := by
  induction calls generalizing t with
  | nil => rfl
  | cons c calls ih => exact (ih _).trans (Txn.base_of_performed (t.perform_performed c))

theorem Txn.grows_performAll (h : t.working.Sound) (calls : List Call) :
    t.working.Grows (t.performAll calls).working := by
  induction calls generalizing t with
  | nil => exact .refl _
  | cons c calls ih =>
    have hp := t.perform_performed c
    exact (Txn.grows_of_performed hp h).trans (ih (Txn.sound_of_performed hp h))

theorem Lane.Orderly.performAll {current : Snapshot} {rs : List Reply}
    (h : Lane.Orderly ⟨t, rs⟩ current) (calls : List Call) :
    ∃ rs', Lane.Orderly ⟨t.performAll calls, rs'⟩ current := by
  induction calls generalizing t rs with
  | nil => exact ⟨rs, h⟩
  | cons c calls ih => exact ih (h.perform c)

theorem Store.Fits.performAll (hf : s.file = none) (hs : s'.snapshot.Sound)
    (hb : s'.snapshot.Before s.snapshot) (calls : List Call) :
    s.Fits (s'.begin.performAll calls) := by
  refine ⟨hf, ?_, ?_⟩
  · rw [Txn.base_performAll]
    exact hb
  · rw [Txn.base_performAll]
    exact Txn.grows_performAll (t := s'.begin) hs calls

theorem Store.Fits.after {other : Store} (h : s.Fits t) (hf : other.file = none)
    (hb : s.snapshot.Before other.snapshot) : other.Fits t := ⟨hf, h.before.trans hb, h.grows⟩

theorem Store.before_commit (hf : s.file = none) (hb : t.base.Before s.snapshot)
    (ht : t = .begin t.base) (calls : List Call) (h : s.commit (t.performAll calls) = .ok s') :
    s'.file = none ∧ s.snapshot.Before s'.snapshot := by
  have hfirst : Lane.Orderly ⟨t, []⟩ s.snapshot := by
    refine ⟨hb, ?_⟩
    rw [ht]
    exact .refl _
  obtain ⟨rs, ho⟩ := hfirst.performAll calls
  exact ⟨Store.file_of_commit hf h, (ho.next h).before⟩

end PerformAll

namespace Traffic

/--
Commits are exact merges. Let a ledger that was filled from nothing by any traffic stand at `base`
and later, after any more traffic, at `current`, and let `ours` and `theirs` be transactions that
began at `base` and made any calls. To commit one of them succeeds just if no part of the snapshot
was changed on both sides; then every part is the one of the side that changed it; else there is a
write conflict and the ledger stays. To commit both succeeds in one order just if it does in the
other, with the same ledger in the end.
-/
theorem commit_is_merge (es later : List Event) (calls calls' : List Call) :
    let before := (ofStore .inMemory).run es
    let now := before.run later
    let base := before.store.snapshot
    let current := now.store.snapshot
    let ours := before.store.begin.performAll calls
    let theirs := before.store.begin.performAll calls'
    ((∃ s, now.store.commit ours = .ok s) ↔ base.Compatible current ours.working) ∧
      (∀ s, now.store.commit ours = .ok s → base.IsMerge current ours.working s.snapshot) ∧
      (∀ e, now.store.commit ours = .error e →
        e = .ofFault (.writeConflict base.revision current.revision) ∧
          ∀ replies, (now.conclude ⟨ours, replies⟩) = now) ∧
      ∀ s, now.store.commitBoth ours theirs = .ok s ↔ now.store.commitBoth theirs ours = .ok s := by
  intro before now base current ours theirs
  have hbefore : before.Since .initial .initial := since_run since_ofStore es
  have hnow : now.Since .initial base := since_run hbefore.now later
  have hfits (cs : List Call) : now.store.Fits (before.store.begin.performAll cs) :=
    .performAll hnow.sound.file hbefore.sound.store hnow.before cs
  have hbase (cs : List Call) : (before.store.begin.performAll cs).base = base :=
    Txn.base_performAll _ cs
  -- After one of them was committed, the other one fits the ledger as before.
  have hafter (cs cs' : List Call) (s' : Store)
      (h : now.store.commit (before.store.begin.performAll cs) = .ok s') :
      s'.Fits (before.store.begin.performAll cs') := by
    obtain ⟨hf, hb⟩ := Store.before_commit hnow.sound.file hnow.before rfl cs h
    exact (hfits cs').after hf hb
  refine ⟨?_, ?_, ?_, ?_⟩
  · rw [← hbase calls]
    constructor
    · rintro ⟨s, h⟩
      exact ((Store.commit_eq_ok_iff (hfits calls)).1 h).1
    · intro h
      obtain ⟨next, hm⟩ := (Store.isOk_merged_iff (hfits calls).before (hfits calls).grows).2 h
      exact ⟨_, Store.commit_of_merged hnow.sound.file hm⟩
  · intro s h
    rw [← hbase calls]
    exact ((Store.commit_eq_ok_iff (hfits calls)).1 h).2.1
  · intro e h
    refine ⟨?_, ?_⟩
    · rw [← hbase calls]
      exact Store.commit_eq_error hnow.sound.file h
    · intro replies
      unfold conclude
      rw [h]
  · intro s
    have hsame : ours.base = theirs.base := (hbase calls).trans (hbase calls').symm
    constructor
    · exact Store.commitBoth_swap hsame (hfits calls) (hfits calls') (hafter calls' calls _)
        (hafter calls calls' _)
    · exact Store.commitBoth_swap hsame.symm (hfits calls') (hfits calls) (hafter calls calls' _)
        (hafter calls' calls _)

end Traffic

end Steward.Ledger
