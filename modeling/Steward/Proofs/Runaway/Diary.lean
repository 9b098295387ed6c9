import Steward.Proofs.Runaway.Balance
import Steward.Runaway.Manager

/-!
This module contains the diary of a manager: which rows it was given, which it sent to cleanup and
which it deleted. Whatever happens, no row that was given is unaccounted for.
-/

namespace Steward.Runaway

/--
What becomes of watches that are retired one after the other: those that find room in the channel,
and those that are dropped. Provisional watches are not sent.
-/
def sent (c : Channel Watch) : List Watch → List Watch × List Watch
  | [] => ([], [])
  | w :: ws =>
    if w.isDurable then
      match c.send? w with
      | some c =>
        let (queued, dropped) := sent c ws
        (w :: queued, dropped)
      | none =>
        let (queued, dropped) := sent c ws
        (queued, w :: dropped)
    else sent c ws

section Sent

variable {c : Channel Watch} {ws : List Watch} {w : Watch} {id : Int} {m : Manager}

theorem rows_sent (hid : id ≠ 0) (c : Channel Watch) (ws : List Watch) :
    rows id (sent c ws).1 + rows id (sent c ws).2 = rows id ws := by
  induction ws generalizing c with
  | nil => rfl
  | cons w ws ih =>
    rw [rows_cons id w ws]
    unfold sent
    split
    · split
      · next c' _ =>
        have h := ih c'
        dsimp only
        rw [rows_cons id w]
        omega
      · have h := ih c
        dsimp only
        rw [rows_cons id w]
        omega
    · next hw =>
      have hzero : rows id [w] = 0 := by
        apply rows_eq_zero
        intro v hv
        rw [List.mem_singleton.1 hv]
        rintro rfl
        exact hw (by simpa [Watch.isDurable] using hid)
      rw [ih, hzero, Nat.zero_add]

theorem isDurable_sent (c : Channel Watch) (ws : List Watch) :
    ∀ w ∈ (sent c ws).1 ++ (sent c ws).2, w.isDurable = true := by
  induction ws generalizing c with
  | nil => exact fun w h => absurd h List.not_mem_nil
  | cons v ws ih =>
    unfold sent
    split
    · next hv =>
      split
      · exact List.forall_mem_cons.2 ⟨hv, ih _⟩
      · intro w hw
        dsimp only at hw
        rcases List.mem_append.1 hw with hw | hw
        · exact ih c w (List.mem_append_left _ hw)
        · cases List.mem_cons.1 hw with
          | inl hw => exact hw ▸ hv
          | inr hw => exact ih c w (List.mem_append_right _ hw)
    · exact ih c

theorem retire_sent (m : Manager) (ws : List Watch) :
    (m.retire ws).list = m.list ∧
      (m.retire ws).stale.items = m.stale.items ++ (sent m.stale ws).1 ∧
      (m.retire ws).metrics.staleDropped =
        m.metrics.staleDropped + (sent m.stale ws).2.length := by
  induction ws generalizing m with
  | nil => exact ⟨rfl, (List.append_nil _).symm, rfl⟩
  | cons w ws ih =>
    have hcons : m.retire (w :: ws) = (m.retireOne w).retire ws := rfl
    rw [hcons]
    unfold sent Manager.retireOne
    split
    · cases hsend : m.stale.send? w with
      | some stale =>
        obtain ⟨hlist, hitems, hcount⟩ := ih { m with stale }
        refine ⟨hlist, ?_, hcount⟩
        simp [hitems, Channel.items_of_send hsend]
      | none =>
        let dropped := m.count fun c => { c with staleDropped := c.staleDropped + 1 }
        obtain ⟨hlist, hitems, hcount⟩ := ih dropped
        have hcounted : dropped.metrics.staleDropped = m.metrics.staleDropped + 1 := rfl
        refine ⟨hlist, hitems, ?_⟩
        rw [hcount, hcounted, List.length_cons, Nat.add_assoc, Nat.add_comm 1]
        rfl
    · exact ih m

end Sent

/--
A manager, and what became of the watches it was given so far.
-/
structure Diary where
  manager : Manager
  /-- The watches that were given to it, unless the answer was that they are there already. -/
  admitted : List Watch
  /-- The watches for which there was room in the channel to cleanup. -/
  queued : List Watch
  /-- The watches for which there was no room in it. -/
  dropped : List Watch
  /-- The watches that were received from it. -/
  received : List Watch
  /-- The watches that were to be deleted and were in the list. -/
  removed : List Watch

inductive Deed where
  | mark (mark : Mark)
  | addRow (w : Watch)
  | addToList (w : Watch) (ttl : Option Span) (force : Bool)
  | remove (w : Watch)
  | purge
  /-- Some watches are received that are to be cleaned up. -/
  | receive (count : Nat)

namespace Diary

def ofSettings (s : Settings) : Diary := ⟨.ofSettings s, [], [], [], [], []⟩

/--
The diary after the manager became another one, when some watches were admitted, some deleted and
some retired.
-/
def note (d : Diary) (manager : Manager) (admitted removed retired : List Watch) : Diary where
  manager := manager
  admitted := d.admitted ++ admitted
  queued := d.queued ++ (sent d.manager.stale retired).1
  dropped := d.dropped ++ (sent d.manager.stale retired).2
  received := d.received
  removed := d.removed ++ removed

def step (d : Diary) (now : Now) : Deed → Diary
  | .mark mark =>
    let ttl := if mark.duration = .zero then none else some mark.duration
    let (retired, _) := d.manager.list.quarantine now.elapsed (d.manager.watchOf mark) ttl
    d.note (d.manager.markQuarantine now mark) [] [] retired
  | .addRow w =>
    let (_, retired, _) := d.manager.list.addRow now w
    let (outcome, manager) := d.manager.addWatch now w
    d.note manager (outcome.admitted w) [] retired
  | .addToList w ttl force =>
    let (_, retired, _) :=
      if force then d.manager.list.force now.elapsed w ttl
      else d.manager.list.add now.elapsed w ttl
    let (outcome, manager) := d.manager.addToList now w ttl force
    d.note manager (outcome.admitted w) [] retired
  | .remove w =>
    let (_, retired, _) := d.manager.list.remove now.elapsed w
    let (wasThere, manager) := d.manager.removeWatch now w
    d.note manager [] (if wasThere then [w] else []) retired
  | .purge =>
    let (_, retired, _) := d.manager.list.purge now.elapsed
    d.note (d.manager.purge now).2 [] [] retired
  | .receive count =>
    { d with
      manager := { d.manager with
        stale := { d.manager.stale with items := d.manager.stale.items.drop count } }
      received := d.received ++ d.manager.stale.items.take count }

def run (d : Diary) (deeds : List (Now × Deed)) : Diary :=
  deeds.foldl (fun d x => d.step x.1 x.2) d

/--
Every row that was given to the manager is in its list, was sent to cleanup or was deleted.
-/
structure Accounted (d : Diary) : Prop where
  balance : ∀ id, id ≠ 0 → rows id d.admitted = rows id d.manager.list.watches +
    (rows id d.queued + rows id d.dropped) + rows id d.removed
  queued : d.queued = d.received ++ d.manager.stale.items
  dropped : d.dropped.length = d.manager.metrics.staleDropped
  durable : ∀ w ∈ d.queued ++ d.dropped, w.isDurable = true

variable {d : Diary} {now : Now} {m : Manager} {r : List Watch × WatchList}

/--
The manager that is noted has the list and sent the watches that are noted.
-/
structure Follows (d : Diary) (r : List Watch × WatchList) (m : Manager) : Prop where
  list : m.list = r.2
  items : m.stale.items = d.manager.stale.items ++ (sent d.manager.stale r.1).1
  staleDropped : m.metrics.staleDropped =
    d.manager.metrics.staleDropped + (sent d.manager.stale r.1).2.length

theorem follows_keep (d : Diary) (r : List Watch × WatchList) :
    d.Follows r (d.manager.keep r) := by
  obtain ⟨hlist, hitems, hcount⟩ := retire_sent { d.manager with list := r.2 } r.1
  exact ⟨hlist, hitems, hcount⟩

theorem Follows.quarantined (h : d.Follows r m) (w : Watch) :
    d.Follows r (match m.quarantined.send? w with
      | some quarantined => { m with quarantined }
      | none => m.count fun c => { c with quarantinesDropped := c.quarantinesDropped + 1 }) := by
  split
  · exact ⟨h.list, h.items, h.staleDropped⟩
  · exact ⟨h.list, h.items, h.staleDropped⟩

theorem follows_mark (d : Diary) (now : Now) (mark : Mark) :
    d.Follows (d.manager.list.quarantine now.elapsed (d.manager.watchOf mark)
      (if mark.duration = .zero then none else some mark.duration))
      (d.manager.markQuarantine now mark) := (follows_keep d _).quarantined _

theorem Accounted.note (h : d.Accounted) (hm : d.Follows r m) {admitted removed : List Watch}
    (hb : ∀ id, id ≠ 0 → d.manager.list.Balanced id admitted removed r) :
    (d.note m admitted removed r.1).Accounted where
  balance id hid := by
    have hrows := h.balance id hid
    have hsent := rows_sent hid d.manager.stale r.1
    have hbalance := hb id hid
    unfold WatchList.Balanced at hbalance
    dsimp only [Diary.note]
    rw [hm.list]
    simp only [rows_append]
    omega
  queued := by
    dsimp only [Diary.note]
    rw [hm.items, h.queued, List.append_assoc]
  dropped := by
    dsimp only [Diary.note]
    rw [hm.staleDropped, List.length_append, h.dropped]
  durable := by
    intro w hw
    simp only [Diary.note, List.append_assoc, List.mem_append] at hw
    have hsent := isDurable_sent d.manager.stale r.1 w
    have hold := h.durable w
    simp only [List.mem_append] at hsent hold
    rcases hw with hw | hw | hw | hw
    · exact hold (.inl hw)
    · exact hsent (.inl hw)
    · exact hold (.inr hw)
    · exact hsent (.inr hw)

theorem accounted_ofSettings (s : Settings) : (ofSettings s).Accounted where
  balance _ _ := rfl
  queued := rfl
  dropped := rfl
  durable := fun _ h => absurd h List.not_mem_nil

theorem accounted_step (h : d.Accounted) (now : Now) (deed : Deed) : (d.step now deed).Accounted := by
  cases deed with
  | mark mark =>
    exact h.note (follows_mark d now mark) fun id hid => WatchList.balanced_quarantine hid rfl
  | addRow w =>
    exact h.note (follows_keep d _) fun id hid => WatchList.balanced_addRow hid _ now w
  | addToList w ttl force =>
    cases force with
    | true => exact h.note (follows_keep d _) fun id _ => WatchList.balanced_force id _ _ w ttl
    | false => exact h.note (follows_keep d _) fun id hid => WatchList.balanced_add hid
  | remove w =>
    exact h.note (follows_keep d _) fun id _ => WatchList.balanced_remove id _ now.elapsed w
  | purge =>
    exact h.note (follows_keep d _) fun id _ => WatchList.balanced_purge id _ now.elapsed
  | receive count =>
    refine ⟨h.balance, ?_, h.dropped, h.durable⟩
    dsimp only [step]
    rw [List.append_assoc, List.take_append_drop]
    exact h.queued

/--
No row vanishes: as often as an id was given to a manager, it is in its list, was offered to
cleanup or was deleted. What was offered was received, waits in the channel, or was dropped and
counted, and none of it was provisional.
-/
theorem accounted_run (s : Settings) (deeds : List (Now × Deed)) :
    ((ofSettings s).run deeds).Accounted := by
  unfold run
  apply List.foldlRecOn (motive := Accounted)
  · exact accounted_ofSettings s
  · exact fun d h x _ => accounted_step h x.1 x.2

end Diary

end Steward.Runaway
