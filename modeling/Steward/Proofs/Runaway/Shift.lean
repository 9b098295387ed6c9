import Steward.Proofs.Runaway.Diary
import Steward.Runaway.Monitor

/-!
This module contains what the operations of a manager do while nothing expires, nothing has to make
room and nothing is dropped: at most one key has another watch afterwards, and a row that lost its
key is sent to cleanup.
-/

namespace Steward

universe u v

namespace Cache

variable {κ : Type u} {α : Type v} [Ord κ] {c : Cache κ α} {k : κ} {now : Span}

def held? (c : Cache κ α) (k : κ) : Option α := (c.entries.get? k).map (·.value)

def Fresh (c : Cache κ α) (now : Span) : Prop :=
  ∀ e ∈ c.entries.values, e.isExpired now = false

def Fits (c : Cache κ α) (k : κ) : Prop := (c.entries.erase k).size < c.room

instance (c : Cache κ α) (now : Span) : Decidable (c.Fresh now) := List.decidableBAll _ _

instance (c : Cache κ α) (k : κ) : Decidable (c.Fits k) := Nat.decLt _ _

variable [DecidableEq κ] [Std.LawfulEqOrd κ]

theorem Fresh.isExpired (h : c.Fresh now) {e : Entry α} (he : c.entries.get? k = some e) :
    e.isExpired now = false :=
  h e (List.mem_map.2 ⟨(k, e), SortedMap.mem_entries_iff.2 he, rfl⟩)

theorem Fresh.filter (h : c.Fresh now) (k : κ) :
    ((c.entries.get? k).filter fun e => !e.isExpired now) = c.entries.get? k := by
  cases he : c.entries.get? k with
  | none => rfl
  | some e =>
    apply Option.filter_eq_some_iff.2
    rw [h.isExpired he]
    exact ⟨rfl, rfl⟩

theorem Fresh.get? (h : c.Fresh now) (k : κ) : c.get? now k = c.held? k := by
  unfold Cache.get? held?
  rw [h.filter]

theorem held?_forget (c : Cache κ α) (k : κ) (e : Entry α) (l : κ) :
    (c.forget k e).held? l = if l = k then none else c.held? l := by
  unfold held?
  rw [get?_forget]
  split <;> rfl

theorem held?_store [Std.TransOrd κ] (c : Cache κ α) (k : κ) (e : Entry α) (l : κ) :
    (c.store k e).held? l = if l = k then some e.value else c.held? l := by
  unfold held? store
  rw [SortedMap.get?_insert]
  split <;> rfl

omit [DecidableEq κ] [Std.LawfulEqOrd κ] in
theorem Fresh.forget (h : c.Fresh now) (k : κ) (e : Entry α) : (c.forget k e).Fresh now := by
  intro x hx
  obtain ⟨y, hy, rfl⟩ := List.mem_map.1 hx
  exact h y.2 (List.mem_map.2 ⟨y, (List.mem_filter.1 hy).1, rfl⟩)

omit [DecidableEq κ] [Std.LawfulEqOrd κ] in
theorem makeRoom_of_room (h : c.size < c.room) (ks : List κ) : c.makeRoom now ks = ([], c) := by
  cases ks with
  | nil => rfl
  | cons k ks =>
    unfold makeRoom
    rw [if_pos h]

variable [Std.TransOrd κ]

theorem erase_of_none {β : Type v} {m : SortedMap κ β} (h : m.get? k = none) : m.erase k = m := by
  apply SortedMap.ext_get?
  intro l
  rw [SortedMap.get?_erase]
  split
  · next hl => rw [hl, h]
  · rfl

theorem Fits.forget (h : c.Fits k) (e : Entry α) : (c.forget k e).Fits k := by
  have hnone : (c.entries.erase k).get? k = none := by
    rw [SortedMap.get?_erase, if_pos rfl]
  unfold Fits Cache.forget room
  dsimp only
  rw [erase_of_none hnone]
  exact h

theorem set_of_fits (h : c.Fresh now) (hfits : c.Fits k) (a : α) (ttl : Option Span) :
    leavers (c.set now k a ttl).2.1 = [] ∧
      ∀ l, (c.set now k a ttl).2.2.held? l = if l = k then some a else c.held? l := by
  unfold set
  dsimp only
  rw [h.filter]
  cases he : c.entries.get? k with
  | some old =>
    refine ⟨rfl, ?_⟩
    intro l
    unfold replace
    rw [held?_store, held?_forget]
    split <;> rfl
  | none =>
    have hroom : c.size < c.room := by
      unfold Fits at hfits
      rw [erase_of_none he] at hfits
      exact hfits
    unfold place
    dsimp only
    rw [he]
    dsimp only
    rw [makeRoom_of_room (c := { c with lastSeq := c.lastSeq + 1 }) hroom]
    exact ⟨rfl, fun l => held?_store _ _ _ l⟩

end Cache

namespace Runaway

open Cache (leavers)

variable {l : WatchList} {now : Span} {w : Watch} {ttl : Option Span} {key : String}

namespace WatchList

def held? (l : WatchList) (key : String) : Option Watch := l.cache.held? key

/--
Nothing in the list has expired, and there is room for a key.
-/
structure Calm (l : WatchList) (now : Span) (key : String) : Prop where
  fresh : l.cache.Fresh now
  fits : l.cache.Fits key

instance (l : WatchList) (now : Span) (key : String) : Decidable (l.Calm now key) :=
  decidable_of_iff (l.cache.Fresh now ∧ l.cache.Fits key)
    ⟨fun h => ⟨h.1, h.2⟩, fun h => ⟨h.fresh, h.fits⟩⟩

def rowAt (l : WatchList) (key : String) : List Watch :=
  (l.held? key).toList.filter Watch.isDurable

/--
After an operation these rows were retired, and one key has this watch, or none.
-/
structure Puts (l : WatchList) (key : String) (w : Option Watch) (retired : List Watch)
    (r : List Watch × WatchList) : Prop where
  retired : r.1.filter Watch.isDurable = retired
  held : ∀ k, r.2.held? k = if k = key then w else l.held? k

theorem puts_self (l : WatchList) (key : String) (retired : List Watch) :
    Puts l key (l.held? key) (retired.filter Watch.isDurable) (retired, l) := by
  refine ⟨rfl, ?_⟩
  intro k
  split
  · next hk => rw [hk]
  · rfl

theorem Calm.get? (h : l.Calm now key) (k : String) : l.get? now k = l.held? k := h.fresh.get? k

theorem Calm.set (h : l.Calm now w.key) (ttl : Option Span) :
    Puts l w.key (some w) [] (l.set now w ttl) := by
  obtain ⟨hleavers, hheld⟩ := Cache.set_of_fits h.fresh h.fits w ttl
  refine ⟨?_, hheld⟩
  rw [← retired_eq_leavers (Cache.not_deletion_set l.cache now w.key w ttl)] at hleavers
  have hset : (l.set now w ttl).1 = [] := hleavers
  rw [hset]
  rfl

theorem held?_eq_none (h : l.cache.entries.get? key = none) : l.held? key = none := by
  unfold held? Cache.held?
  rw [h]
  rfl

theorem held?_eq_some {e : Cache.Entry Watch} (h : l.cache.entries.get? key = some e) :
    l.held? key = some e.value := by
  unfold held? Cache.held?
  rw [h]
  rfl

theorem Calm.supersede (h : l.Calm now key) :
    Puts l key none (l.rowAt key) (l.supersede key).2 ∧ (l.supersede key).2.2.Calm now key := by
  unfold WatchList.supersede Cache.remove rowAt
  cases he : l.cache.entries.get? key with
  | none =>
    have hself := puts_self l key []
    rw [held?_eq_none he] at hself ⊢
    exact ⟨hself, h⟩
  | some e =>
    rw [held?_eq_some he]
    exact ⟨⟨rfl, Cache.held?_forget _ _ _⟩, h.fresh.forget _ _, h.fits.forget _⟩

theorem Calm.supersede_set (h : l.Calm now w.key) (ttl : Option Span) :
    Puts l w.key (some w) (l.rowAt w.key)
      ((l.supersede w.key).2.1 ++ ((l.supersede w.key).2.2.set now w ttl).1,
        ((l.supersede w.key).2.2.set now w ttl).2) := by
  obtain ⟨hsuper, hcalm⟩ := h.supersede
  have hset := hcalm.set ttl
  refine ⟨?_, ?_⟩
  · dsimp only
    rw [List.filter_append, hsuper.retired, hset.retired, List.append_nil]
  · intro k
    rw [hset.held, hsuper.held]
    split <;> rfl

theorem rowAt_eq_nil (h : (l.held? key).any Watch.isDurable = false) : l.rowAt key = [] := by
  unfold rowAt
  cases hheld : l.held? key with
  | none => rfl
  | some v =>
    rw [hheld] at h
    exact List.filter_cons_of_neg (Bool.eq_false_iff.1 h)

theorem Calm.quarantine (h : l.Calm now w.key) (ttl : Option Span) :
    Puts l w.key (some w) (l.rowAt w.key) (l.quarantine now w ttl) := by
  unfold WatchList.quarantine
  rw [h.get?]
  split
  · exact h.supersede_set ttl
  · next hdurable =>
    rw [rowAt_eq_nil (Bool.eq_false_iff.2 hdurable)]
    exact h.set ttl

theorem puts_remove (h : l.cache.Fresh now) (w : Watch) :
    Puts l w.key (if (l.held? w.key).any (·.id == w.id) then none else l.held? w.key) []
      (l.remove now w).2 := by
  have hget : l.get? now w.key = l.held? w.key := h.get? w.key
  unfold WatchList.remove
  rw [hget]
  split
  · next hid =>
    unfold Cache.delete Cache.remove
    cases he : l.cache.entries.get? w.key with
    | none =>
      rw [held?_eq_none he] at hid
      cases hid
    | some e => exact ⟨rfl, Cache.held?_forget _ _ _⟩
  · exact puts_self l w.key []

/--
What may become of a row that is to be added, while nothing expires and there is room: it takes a
key that no other row has, it is there already, another row keeps the key and it is retired itself,
or it takes the key from another row by force.
-/
inductive Adds (l : WatchList) (w : Watch) (r : List Watch × WatchList) : Prop where
  | taken (h : ∀ v, l.held? w.key = some v → v.isDurable = false)
      (hr : Puts l w.key (some w) [] r)
  | known (v : Watch) (h : l.held? w.key = some v) (hv : v.id = w.id)
      (hr : Puts l w.key (some v) [] r)
  | refused (v : Watch) (h : l.held? w.key = some v) (hv : v.id ≠ w.id) (hd : v.isDurable)
      (hm : w.isManual = false) (hr : Puts l w.key (some v) ([w].filter Watch.isDurable) r)
  | forced (v : Watch) (h : l.held? w.key = some v) (hv : v.id ≠ w.id) (hd : v.isDurable)
      (hm : w.isManual = true) (hr : Puts l w.key (some w) [v] r)

theorem Calm.add (h : l.Calm now w.key) (hm : w.isManual = false) (ttl : Option Span) :
    Adds l w (l.add now w ttl).2 := by
  unfold WatchList.add
  rw [h.get?]
  cases hheld : l.held? w.key with
  | none =>
    apply Adds.taken
    · intro v hv
      rw [hheld] at hv
      cases hv
    · exact h.set ttl
  | some v =>
    have hself := puts_self l w.key
    rw [hheld] at hself
    dsimp only
    split
    · next hid => exact .known v hheld hid (hself [])
    · next hid =>
      split
      · next hd => exact .refused v hheld hid hd hm (hself [w])
      · next hd =>
        apply Adds.taken
        · intro v' hv'
          rw [hheld] at hv'
          cases hv'
          exact Bool.eq_false_iff.2 hd
        · exact h.set ttl

theorem Calm.force (h : l.Calm now w.key) (hm : w.isManual = true) (ttl : Option Span) :
    Adds l w (l.force now w ttl).2 := by
  have hput := h.supersede_set ttl
  unfold WatchList.force
  rw [h.get?]
  cases hheld : l.held? w.key with
  | none =>
    unfold rowAt at hput
    rw [hheld] at hput
    apply Adds.taken
    · intro v hv
      rw [hheld] at hv
      cases hv
    · exact hput
  | some v =>
    have hself := puts_self l w.key []
    rw [hheld] at hself
    split
    · next hid => exact .known v hheld (by simpa using hid) hself
    · next hid =>
      have hne : v.id ≠ w.id := by simpa using hid
      unfold rowAt at hput
      rw [hheld, Option.toList_some] at hput
      cases hd : v.isDurable with
      | true =>
        rw [List.filter_cons_of_pos hd] at hput
        exact .forced v hheld hne hd hm hput
      | false =>
        rw [List.filter_cons_of_neg (by simp [hd])] at hput
        apply Adds.taken _ hput
        intro v' hv'
        rw [hheld] at hv'
        cases hv'
        exact hd

theorem Calm.addRow {now : Now} (h : l.Calm now.elapsed w.key) (hw : w.lifetime now.wall ≠ .ended) :
    Adds l w (l.addRow now w).2 := by
  have hput (ttl : Option Span) : Adds l w
      (if w.isManual then l.force now.elapsed w ttl else l.add now.elapsed w ttl).2 := by
    split
    · next hm => exact h.force hm ttl
    · next hm => exact h.add (Bool.eq_false_iff.2 hm) ttl
  unfold WatchList.addRow
  dsimp only
  split
  · next hended => exact absurd hended hw
  · exact hput none
  · exact hput _

end WatchList

open WatchList (Adds Puts)

section Retire

theorem sent_of_none_dropped {c : Channel Watch} {ws : List Watch} (h : (sent c ws).2 = []) :
    (sent c ws).1 = ws.filter Watch.isDurable := by
  induction ws generalizing c with
  | nil => rfl
  | cons w ws ih =>
    unfold sent at h ⊢
    split at h
    · next hw =>
      rw [if_pos hw, List.filter_cons_of_pos hw]
      split at h
      · next c' hsend =>
        exact congrArg (w :: ·) (ih h)
      · cases h
    · next hw =>
      rw [if_neg hw, List.filter_cons_of_neg hw]
      exact ih h

theorem sent_of_no_rows {ws : List Watch} (h : ws.filter Watch.isDurable = [])
    (c : Channel Watch) : (sent c ws).2 = [] := by
  induction ws with
  | nil => rfl
  | cons w ws ih =>
    rw [List.filter_cons] at h
    unfold sent
    split at h
    · cases h
    · next hw =>
      rw [if_neg hw]
      exact ih h

theorem retireOne_quarantined (m : Manager) (w : Watch) :
    (m.retireOne w).quarantined = m.quarantined ∧
      (m.retireOne w).metrics.quarantinesDropped = m.metrics.quarantinesDropped := by
  unfold Manager.retireOne
  split
  · split <;> exact ⟨rfl, rfl⟩
  · exact ⟨rfl, rfl⟩

theorem retire_quarantined (m : Manager) (ws : List Watch) :
    (m.retire ws).quarantined = m.quarantined ∧
      (m.retire ws).metrics.quarantinesDropped = m.metrics.quarantinesDropped := by
  unfold Manager.retire
  induction ws generalizing m with
  | nil => exact ⟨rfl, rfl⟩
  | cons w ws ih =>
    obtain ⟨hw, hw'⟩ := retireOne_quarantined m w
    obtain ⟨hws, hws'⟩ := ih (m.retireOne w)
    exact ⟨hws.trans hw, hws'.trans hw'⟩

end Retire

namespace Manager

variable {m m' : Manager} {r : List Watch × WatchList} {retired : List Watch}

/--
No retired row was dropped from one manager to the next.
-/
def Spares (m m' : Manager) : Prop := m'.metrics.staleDropped = m.metrics.staleDropped

instance (m m' : Manager) : Decidable (m.Spares m') := Nat.decEq _ _

/--
After an operation one key has this watch, or none, these rows were sent to cleanup, and these
watches are to be inserted besides.
-/
structure Shifts (m : Manager) (key : String) (w : Option Watch) (cleaned found : List Watch)
    (m' : Manager) : Prop where
  held : ∀ k, m'.list.held? k = if k = key then w else m.list.held? k
  stale : m'.stale.items = m.stale.items ++ cleaned
  quarantined : m'.quarantined.items = m.quarantined.items ++ found

theorem Shifts.held_cases {v : Option Watch} {cleaned found : List Watch} {k : String}
    (h : m.Shifts key v cleaned found m') (hw : m'.list.held? k = some w) :
    m.list.held? k = some w ∨ k = key ∧ v = some w := by
  rw [h.held] at hw
  split at hw
  · next hk => exact .inr ⟨hk, hw⟩
  · exact .inl hw

theorem keep_quarantined (m : Manager) (r : List Watch × WatchList) :
    (m.keep r).quarantined = m.quarantined ∧
      (m.keep r).metrics.quarantinesDropped = m.metrics.quarantinesDropped :=
  retire_quarantined _ _

theorem shifts_keep {v : Option Watch} (h : Puts m.list key v retired r)
    (hs : m.Spares (m.keep r)) : m.Shifts key v retired [] (m.keep r) := by
  obtain ⟨hlist, hitems, hcount⟩ := retire_sent { m with list := r.2 } r.1
  unfold Spares keep at hs
  rw [hs] at hcount
  have hnone : (sent m.stale r.1).2 = [] :=
    List.eq_nil_of_length_eq_zero (Nat.left_eq_add.1 hcount)
  refine ⟨?_, ?_, ?_⟩
  · intro k
    unfold keep
    rw [hlist]
    exact h.held k
  · unfold keep
    rw [hitems]
    dsimp only
    rw [sent_of_none_dropped hnone, h.retired]
  · rw [(keep_quarantined m r).1, List.append_nil]

theorem Shifts.sent {c : Channel Watch} {v : Option Watch} (h : m.Shifts key v retired [] m')
    (hc : m'.quarantined.send? w = some c) :
    m.Shifts key v retired [w] { m' with quarantined := c } := by
  refine ⟨h.held, h.stale, ?_⟩
  dsimp only
  rw [Channel.items_of_send hc, h.quarantined, List.append_nil]

theorem shifts_mark {now : Now} {mark : Mark} (h : m.list.Calm now.elapsed (m.watchOf mark).key)
    (hs : m.Spares (m.markQuarantine now mark))
    (hq : (m.markQuarantine now mark).metrics.quarantinesDropped = m.metrics.quarantinesDropped) :
    m.Shifts (m.watchOf mark).key (some (m.watchOf mark)) (m.list.rowAt (m.watchOf mark).key)
      [m.watchOf mark] (m.markQuarantine now mark) := by
  have hput := h.quarantine (if mark.duration = .zero then none else some mark.duration)
  revert hs hq
  unfold markQuarantine
  dsimp only
  generalize hr : m.list.quarantine now.elapsed (m.watchOf mark)
    (if mark.duration = .zero then none else some mark.duration) = r at *
  cases hc : (m.keep r).quarantined.send? (m.watchOf mark) with
  | some c =>
    intro hs _
    exact (shifts_keep hput hs).sent hc
  | none =>
    intro _ hq
    unfold count at hq
    dsimp only at hq
    rw [(keep_quarantined m r).2] at hq
    exact absurd hq (Nat.succ_ne_self _)

/--
What may become of a row that a manager takes over: it takes a key that no other row has, it is
there already, another row keeps the key and it is sent to cleanup itself, or it takes the key from
another row by force.
-/
inductive Admits (m : Manager) (w : Watch) (m' : Manager) : Prop where
  | taken (h : ∀ v, m.list.held? w.key = some v → v.isDurable = false)
      (hm' : m.Shifts w.key (some w) [] [] m')
  | known (v : Watch) (h : m.list.held? w.key = some v) (hv : v.id = w.id)
      (hm' : m.Shifts w.key (some v) [] [] m')
  | refused (v : Watch) (h : m.list.held? w.key = some v) (hv : v.id ≠ w.id) (hd : v.isDurable)
      (hm : w.isManual = false) (hm' : m.Shifts w.key (some v) [w] [] m')
  | forced (v : Watch) (h : m.list.held? w.key = some v) (hv : v.id ≠ w.id) (hd : v.isDurable)
      (hm : w.isManual = true) (hm' : m.Shifts w.key (some w) [v] [] m')

theorem Admits.shifts (h : m.Admits w m') : ∃ v cleaned, m.Shifts w.key v cleaned [] m' ∧
    ∀ u ∈ cleaned, ∃ v, m.list.held? w.key = some v ∧ v.isDurable ∧ v.id ≠ w.id ∧
      u = if w.isManual then v else w := by
  cases h with
  | taken h hm' => exact ⟨_, [], hm', fun _ hu => absurd hu List.not_mem_nil⟩
  | known v h hv hm' => exact ⟨_, [], hm', fun _ hu => absurd hu List.not_mem_nil⟩
  | refused v h hv hd hm hm' =>
    refine ⟨_, [w], hm', fun u hu => ⟨v, h, hd, hv, ?_⟩⟩
    rw [hm]
    exact List.mem_singleton.1 hu
  | forced v h hv hd hm hm' =>
    refine ⟨_, [v], hm', fun u hu => ⟨v, h, hd, hv, ?_⟩⟩
    rw [hm]
    exact List.mem_singleton.1 hu

theorem admits_keep (h : Adds m.list w r) (hd : w.isDurable) (hs : m.Spares (m.keep r)) :
    m.Admits w (m.keep r) := by
  cases h with
  | taken h hr => exact .taken h (shifts_keep hr hs)
  | known v h hv hr => exact .known v h hv (shifts_keep hr hs)
  | refused v h hv hvd hm hr =>
    rw [List.filter_cons_of_pos hd] at hr
    exact .refused v h hv hvd hm (shifts_keep hr hs)
  | forced v h hv hvd hm hr => exact .forced v h hv hvd hm (shifts_keep hr hs)

theorem Admits.counted (h : m.Admits w m') (f : Metrics → Metrics) : m.Admits w (m'.count f) := by
  cases h with
  | taken h hm' => exact .taken h ⟨hm'.held, hm'.stale, hm'.quarantined⟩
  | known v h hv hm' => exact .known v h hv ⟨hm'.held, hm'.stale, hm'.quarantined⟩
  | refused v h hv hd hm hm' => exact .refused v h hv hd hm ⟨hm'.held, hm'.stale, hm'.quarantined⟩
  | forced v h hv hd hm hm' => exact .forced v h hv hd hm ⟨hm'.held, hm'.stale, hm'.quarantined⟩

theorem admits_addAll {now : Now} (h : m.list.Calm now.elapsed w.key)
    (hw : w.lifetime now.wall ≠ .ended) (hd : w.isDurable)
    (hs : m.Spares (Monitor.addAll now m [w]).2) : m.Admits w (Monitor.addAll now m [w]).2 := by
  have hadds := h.addRow hw
  revert hs
  unfold Monitor.addAll Monitor.addAll addWatch
  dsimp only
  split
  · exact fun hs => (admits_keep hadds hd hs).counted fun c =>
      { c with watchesSynced := c.watchesSynced + 1 }
  · exact fun hs => (admits_keep hadds hd hs).counted fun c =>
      { c with watchesSynced := c.watchesSynced + 1 }
  · exact fun hs => admits_keep hadds hd hs

theorem shifts_removeAll {now : Now} (h : m.list.cache.Fresh now.elapsed) (w : Watch) :
    m.Shifts w.key
      (if (m.list.held? w.key).any (·.id == w.id) then none else m.list.held? w.key) [] []
      (Monitor.removeAll now m [w]).2 := by
  have hput := WatchList.puts_remove h w
  apply shifts_keep hput
  unfold Spares keep
  rw [(retire_sent _ _).2.2, sent_of_no_rows hput.retired]
  rfl

end Manager

end Runaway

end Steward
