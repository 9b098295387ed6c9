import Steward.Proofs.Runaway.Account
import Steward.Proofs.Sql.Within

/-!
This module contains what the errands leave alone: each changes the watch list, or counts what it is
about, and nothing else.
-/

namespace Steward.Runaway

open Sql (Dialogue Statement)

namespace Exchange

variable {σ α β : Type} {R : σ → σ → Prop}

def Keeps (R : σ → σ → Prop) (e : Exchange σ α) : Prop := Dialogue.Keeps R e.run

theorem keeps_pure (a : α) : Keeps R (pure a : Exchange σ α) := Dialogue.keeps_done _

theorem keeps_ofResult (r : Except Sql.Trouble α) : Keeps R (ofResult r : Exchange σ α) :=
  Dialogue.keeps_done r

theorem Keeps.bind {e : Exchange σ α} {f : α → Exchange σ β} (h : e.Keeps R)
    (hf : ∀ a, (f a).Keeps R) : Keeps R (e >>= f) := by
  refine Dialogue.Keeps.bind h fun r => ?_
  cases r with
  | ok a => exact hf a
  | error t => exact Dialogue.keeps_done _

theorem Keeps.tryCatch {e : Exchange σ α} {f : Sql.Trouble → Exchange σ α} (h : e.Keeps R)
    (hf : ∀ t, (f t).Keeps R) : Keeps R (tryCatch e f) := by
  refine Dialogue.Keeps.bind h fun r => ?_
  cases r with
  | ok a => exact Dialogue.keeps_done _
  | error t => exact hf t

theorem keeps_ask (activity : String) (st : Statement) :
    Keeps R (ask activity st : Exchange σ Sql.Reply) :=
  (Dialogue.keeps_exec st).bind fun _ => Dialogue.keeps_done _

theorem keeps_say (activity : String) (st : Statement) :
    Keeps R (say activity st : Exchange σ Sql.Reply) :=
  Dialogue.keeps_send fun _ => Dialogue.keeps_done _

theorem Keeps.inSession {e : Exchange σ α} (h : e.Keeps R) : Keeps R (inSession e) := by
  refine Dialogue.keeps_acquire fun session => ?_
  cases session with
  | error t => exact Dialogue.keeps_done _
  | ok u => exact Dialogue.Keeps.bind h fun r s => Dialogue.keeps_done (R := R) r s

theorem keeps_update {f : Now → σ → α × σ} (h : ∀ now s, R s (f now s).2) :
    Keeps R (ExceptT.lift (Dialogue.update f) : Exchange σ α) :=
  (Dialogue.keeps_update h).bind fun _ => Dialogue.keeps_done _

end Exchange

namespace Storage

open Exchange

variable {σ : Type} {R : σ → σ → Prop}

theorem keeps_deleteBatches (before : Moment) (batch fuel total : Nat) :
    Keeps R (deleteBatches before batch fuel total : Exchange σ Nat) := by
  induction fuel generalizing total with
  | zero => exact keeps_pure _
  | succ fuel ih =>
    refine (keeps_ask _ _).bind fun r => ?_
    split
    · exact keeps_pure _
    · exact ih _

theorem keeps_addWatch (w : Watch) : Keeps R (addWatch w : Exchange σ Int) :=
  (keeps_ask _ _).bind fun _ => keeps_ofResult _

theorem keeps_moveToDone (w : Watch) (done : Moment) :
    Keeps R (moveToDone w done : Exchange σ Unit) := by
  have hcopy : Keeps R (copyAndDelete w done : Exchange σ Unit) :=
    (keeps_say _ _).bind fun _ => (keeps_say _ _).bind fun _ => (keeps_say _ _).bind fun _ =>
      keeps_pure _
  refine ((keeps_say _ _).bind fun _ => hcopy.tryCatch fun t => ?_).inSession
  exact Dialogue.keeps_send fun _ => Dialogue.keeps_done _

theorem keeps_tableExists (table : String) : Keeps R (tableExists table : Exchange σ Bool) :=
  (keeps_ask _ _).bind fun _ => keeps_pure _

theorem keeps_watchesAfter (after : Int) : Keeps R (watchesAfter after : Exchange σ (List Watch)) :=
  (keeps_ask _ _).bind fun _ => keeps_ofResult _

theorem keeps_doneAfter (after : Int) :
    Keeps R (doneAfter after : Exchange σ (List (Watch × Int))) :=
  (keeps_ask _ _).bind fun _ => keeps_ofResult _

end Storage

namespace Manager

/--
A relation that does not see what becomes of the watch list, of the rows that were found or retired,
and of what is counted of them.
-/
structure Blind (R : Manager → Manager → Prop) : Prop where
  refl (m : Manager) : R m m
  trans {m m' m'' : Manager} (h : R m m') (h' : R m' m'') : R m m''
  list (m : Manager) (list : WatchList) : R m { m with list }
  stale (m : Manager) (stale : Channel Watch) : R m { m with stale }
  quarantined (m : Manager) (quarantined : Channel Watch) : R m { m with quarantined }
  staleDropped (m : Manager) : R m (m.count fun c => { c with staleDropped := c.staleDropped + 1 })
  quarantinesDropped (m : Manager) :
    R m (m.count fun c => { c with quarantinesDropped := c.quarantinesDropped + 1 })
  watchesSynced (m : Manager) :
    R m (m.count fun c => { c with watchesSynced := c.watchesSynced + 1 })

theorem blind_sameRecords : Blind SameRecords where
  refl _ := ⟨rfl, rfl, rfl, rfl, rfl⟩
  trans h h' := {
    settings := h'.settings.trans h.settings
    records := h'.records.trans h.records
    recordsDropped := h'.recordsDropped.trans h.recordsDropped
    recordsFlushed := h'.recordsFlushed.trans h.recordsFlushed
    flushFailures := h'.flushFailures.trans h.flushFailures }
  list _ _ := ⟨rfl, rfl, rfl, rfl, rfl⟩
  stale _ _ := ⟨rfl, rfl, rfl, rfl, rfl⟩
  quarantined _ _ := ⟨rfl, rfl, rfl, rfl, rfl⟩
  staleDropped _ := ⟨rfl, rfl, rfl, rfl, rfl⟩
  quarantinesDropped _ := ⟨rfl, rfl, rfl, rfl, rfl⟩
  watchesSynced _ := ⟨rfl, rfl, rfl, rfl, rfl⟩

namespace Blind

variable {R : Manager → Manager → Prop} (hR : Blind R)
include hR

theorem retireOne (m : Manager) (w : Watch) : R m (m.retireOne w) := by
  unfold Manager.retireOne
  split
  · split
    · exact hR.stale m _
    · exact hR.staleDropped m
  · exact hR.refl m

theorem retire (m : Manager) (ws : List Watch) : R m (m.retire ws) := by
  unfold Manager.retire
  induction ws generalizing m with
  | nil => exact hR.refl m
  | cons w ws ih => exact hR.trans (hR.retireOne m w) (ih _)

theorem keep (m : Manager) (r : List Watch × WatchList) : R m (m.keep r) :=
  hR.trans (hR.list m r.2) (hR.retire _ r.1)

theorem markQuarantine (now : Now) (m : Manager) (mark : Mark) : R m (m.markQuarantine now mark) := by
  unfold Manager.markQuarantine
  dsimp only
  split
  · exact hR.trans (hR.keep m _) (hR.quarantined _ _)
  · exact hR.trans (hR.keep m _) (hR.quarantinesDropped _)

theorem addAll (now : Now) (m : Manager) (ws : List Watch) : R m (Monitor.addAll now m ws).2 := by
  induction ws generalizing m with
  | nil => exact hR.refl m
  | cons w ws ih =>
    have hadd : R m (m.addWatch now w).2 := hR.keep m _
    unfold Monitor.addAll
    dsimp only
    split
    · exact hR.trans (hR.trans hadd (hR.watchesSynced _)) (ih _)
    · exact hR.trans (hR.trans hadd (hR.watchesSynced _)) (ih _)
    · exact hR.trans hadd (ih _)

theorem removeAll (now : Now) (m : Manager) (ws : List Watch) :
    R m (Monitor.removeAll now m ws).2 := by
  induction ws generalizing m with
  | nil => exact hR.refl m
  | cons w ws ih => exact hR.trans (hR.keep m _) (ih _)

end Blind

end Manager

namespace Monitor

def Alike (R : Manager → Manager → Prop) (m m' : Monitor) : Prop := R m.manager m'.manager

abbrev SameRecords : Monitor → Monitor → Prop := Alike Manager.SameRecords

section Blind

open Exchange

variable {R : Manager → Manager → Prop} (hR : Manager.Blind R)
include hR

theorem alike_refl (m : Monitor) : Alike R m m := hR.refl m.manager

theorem alike_trans (m m' m'' : Monitor) (h : Alike R m m') (h' : Alike R m' m'') :
    Alike R m m'' := hR.trans h h'

theorem keeps_getSyncer : Keeps (Alike R) getSyncer := keeps_update fun _ => alike_refl hR

theorem keeps_updateSyncer (f : Syncer → Syncer) : Keeps (Alike R) (updateSyncer f) :=
  keeps_update fun _ s => hR.refl s.manager

omit hR in
theorem keeps_manage {f : Now → Manager → Nat × Manager}
    (h : ∀ now (m : Manager), R m (f now m).2) : Keeps (Alike R) (manage f) :=
  keeps_update fun now s => h now s.manager

omit hR in
theorem keeps_tablesExist (tables : List String) : Keeps (Alike R) (tablesExist tables) := by
  induction tables with
  | nil => exact keeps_pure _
  | cons table tables ih =>
    refine (Storage.keeps_tableExists table).bind fun found => ?_
    split
    · exact ih
    · exact keeps_pure _

theorem keeps_tablesReady : Keeps (Alike R) tablesReady := by
  refine (keeps_getSyncer hR).bind fun s => ?_
  dsimp only
  split
  · exact keeps_pure _
  · refine (keeps_tablesExist _).bind fun ready => ?_
    split
    · exact (keeps_updateSyncer hR _).bind fun _ => keeps_pure _
    · exact keeps_pure _

theorem keeps_fetchNew : Keeps (Alike R) fetchNew :=
  (keeps_getSyncer hR).bind fun _ => (Storage.keeps_watchesAfter _).bind fun _ =>
    (keeps_updateSyncer hR _).bind fun _ => keeps_pure _

theorem keeps_fetchDone : Keeps (Alike R) fetchDone :=
  (keeps_getSyncer hR).bind fun _ => (Storage.keeps_doneAfter _).bind fun _ =>
    (keeps_updateSyncer hR _).bind fun _ => keeps_pure _

theorem keeps_sync : Keeps (Alike R) sync := by
  refine (keeps_tablesReady hR).bind fun ready => ?_
  split
  · exact keeps_pure _
  · exact (keeps_fetchNew hR).bind fun ws =>
      (keeps_manage fun now m => hR.addAll now m ws).bind fun _ =>
        (keeps_fetchDone hR).bind fun done =>
          (keeps_manage fun now m => hR.removeAll now m done).bind fun _ => keeps_pure _

end Blind

theorem SameRecords.refl (m : Monitor) : m.SameRecords m := alike_refl Manager.blind_sameRecords m

theorem SameRecords.trans (m m' m'' : Monitor) (h : m.SameRecords m') (h' : m'.SameRecords m'') :
    m.SameRecords m'' := alike_trans Manager.blind_sameRecords m m' m'' h h'

end Monitor

namespace Errand

open Monitor (Alike)

variable {R : Manager → Manager → Prop}

theorem keeps_count {f : Metrics → Metrics} (h : ∀ m : Manager, R m (m.count f)) :
    (count f).Keeps (Alike R) :=
  Dialogue.keeps_update fun _ s => h s.manager

theorem keeps_writeRecords (rs : List Record)
    (hflushed : ∀ (m : Manager) (n : Nat),
      R m (m.count fun c => { c with recordsFlushed := c.recordsFlushed + n }))
    (hlost : ∀ m : Manager, R m (m.count fun c => { c with flushFailures := c.flushFailures + 1 })) :
    (writeRecords rs).Keeps (Alike R) := by
  unfold writeRecords
  split
  · exact Dialogue.keeps_done _
  · have hflush : (Storage.flushRecords rs : Exchange Monitor Nat).Keeps (Alike R) := by
      unfold Storage.flushRecords
      split
      · exact Exchange.keeps_pure _
      · exact (Exchange.keeps_ask _ _).bind fun _ => Exchange.keeps_pure _
    refine Dialogue.Keeps.bind hflush fun r => ?_
    cases r with
    | ok n => exact (keeps_count fun m => hflushed m n).bind fun _ => Dialogue.keeps_done _
    | error t => exact (keeps_count hlost).bind fun _ => Dialogue.keeps_done _

theorem keeps_sweepRecords (before : Moment) (batch : Nat)
    (h : ∀ (m : Manager) (n : Nat),
      R m (m.count fun c => { c with recordsCollected := c.recordsCollected + n })) :
    (sweepRecords before batch).Keeps (Alike R) := by
  refine Dialogue.Keeps.bind (Storage.keeps_deleteBatches before (max batch 1) _ 0) fun r => ?_
  cases r with
  | ok n => exact (keeps_count fun m => h m n).bind fun _ => Dialogue.keeps_done _
  | error t => exact Dialogue.keeps_done _

theorem keeps_insertWatch (w : Watch) : (insertWatch w).Keeps (Alike R) :=
  Dialogue.Keeps.bind (Storage.keeps_addWatch w) fun _ => Dialogue.keeps_done _

theorem keeps_moveWatch (w : Watch)
    (h : ∀ m : Manager, R m (m.count fun c => { c with staleCleanups := c.staleCleanups + 1 })) :
    (moveWatch w).Keeps (Alike R) := by
  refine fun s now => (Storage.keeps_moveToDone w now.wall s).bind fun r => ?_
  cases r with
  | ok u => exact (keeps_count h).bind fun _ => Dialogue.keeps_done _
  | error t => exact Dialogue.keeps_done _

theorem keeps_syncWatches (hR : Manager.Blind R) : syncWatches.Keeps (Alike R) :=
  Dialogue.Keeps.bind (Monitor.keeps_sync hR) fun _ => Dialogue.keeps_done _

end Errand

end Steward.Runaway
