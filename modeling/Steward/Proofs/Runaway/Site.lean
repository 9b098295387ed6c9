import Steward.Proofs.Runaway.Shift
import Steward.Proofs.Runaway.Tables

/-!
This module contains what a server does with the watch tables that it shares with others: it marks
queries, inserts what it found, cleans up, and reads the tables. All of that may overlap in any way,
and a round of reading may be interrupted after every row.
-/

namespace Steward.Runaway

/--
A server as far as it has to do with the watch tables.
-/
structure Site where
  monitor : Monitor
  /-- Watches that were found here and are being inserted. -/
  inserting : List Watch
  /-- Rows that are being moved to the done table. -/
  moving : List Watch
  /-- Rows of the watch table that were read and not taken over yet. -/
  arrived : List Watch
  /-- Rows of the done table that were read and not deleted yet. -/
  departed : List Watch

inductive Act where
  | mark (now : Now) (mark : Mark)
  /-- Receives the oldest watch that was found, so that it is inserted. -/
  | receiveFound
  | insert (n : Nat)
  /-- Receives the oldest row that is to be cleaned up. -/
  | receiveStale
  | move (n : Nat)
  | readNew
  /-- Takes over the oldest of the rows that were read. -/
  | takeOver (now : Now)
  | readDone
  /-- Deletes the oldest of the done rows that were read. -/
  | drop (now : Now)

inductive Duty where
  | mark (now : Now) (mark : Mark)
  | receiveFound
  | insert (now : Now) (n : Nat)
  | receiveStale
  | move (now : Now) (n : Nat)
  | sync (now : Now)

namespace Site

def ofSettings (s : Settings) : Site := ⟨.ofSettings s, [], [], [], []⟩

def manager (s : Site) : Manager := s.monitor.manager

def withManager (s : Site) (m : Manager) : Site := { s with monitor := s.monitor.withManager m }

/--
The watches that were found here and are no rows yet.
-/
def pending (s : Site) : List Watch := s.manager.quarantined.items ++ s.inserting

def outgoing (s : Site) : List Watch := s.manager.stale.items ++ s.moving

def held? (s : Site) (key : String) : Option Watch := s.manager.list.held? key

def lastWatch (s : Site) : Int := s.monitor.syncer.lastWatch

def act (s : Site) (t : Tables) : Act → Site × Tables
  | .mark now mark => (s.withManager (s.manager.markQuarantine now mark), t)
  | .receiveFound =>
    match s.manager.quarantined.receive? with
    | none => (s, t)
    | some (w, quarantined) =>
      ({ s.withManager { s.manager with quarantined } with inserting := s.inserting ++ [w] }, t)
  | .insert n =>
    match s.inserting[n]? with
    | none => (s, t)
    | some w => ({ s with inserting := s.inserting.eraseIdx n }, t.insert w)
  | .receiveStale =>
    match s.manager.stale.receive? with
    | none => (s, t)
    | some (w, stale) =>
      ({ s.withManager { s.manager with stale } with moving := s.moving ++ [w] }, t)
  | .move n =>
    match s.moving[n]? with
    | none => (s, t)
    | some w =>
      ({ s.withManager (s.manager.count fun c => { c with staleCleanups := c.staleCleanups + 1 }) with
        moving := s.moving.eraseIdx n }, t.move w.id)
  | .readNew =>
    let (ws, monitor) := s.monitor.readied.readNew t
    ({ s with monitor, arrived := s.arrived ++ ws }, t)
  | .takeOver now =>
    match s.arrived with
    | [] => (s, t)
    | w :: arrived => ({ s.withManager (Monitor.addAll now s.manager [w]).2 with arrived }, t)
  | .readDone =>
    let (ws, monitor) := s.monitor.readDone t
    ({ s with monitor, departed := s.departed ++ ws }, t)
  | .drop now =>
    match s.departed with
    | [] => (s, t)
    | w :: departed => ({ s.withManager (Monitor.removeAll now s.manager [w]).2 with departed }, t)

def acts (s : Site) (t : Tables) (as : List Act) : Site × Tables :=
  as.foldl (fun x a => x.1.act x.2 a) (s, t)

def play {α : Type} (now : Now) (s : Site) (t : Tables) (e : Sql.Dialogue Monitor α) : Site × Tables :=
  let played := (e.playOut Tables.serve now s.monitor t).2
  ({ s with monitor := played.1 }, played.2)

def perform (s : Site) (t : Tables) : Duty → Site × Tables
  | .mark now mark => s.act t (.mark now mark)
  | .receiveFound => s.act t .receiveFound
  | .insert now n =>
    match s.inserting[n]? with
    | none => (s, t)
    | some w => play now { s with inserting := s.inserting.eraseIdx n } t (Errand.insertWatch w)
  | .receiveStale => s.act t .receiveStale
  | .move now n =>
    match s.moving[n]? with
    | none => (s, t)
    | some w => play now { s with moving := s.moving.eraseIdx n } t (Errand.moveWatch w)
  | .sync now => s.play now t Errand.syncWatches

def actsOf (s : Site) (t : Tables) : Duty → List Act
  | .mark now mark => [.mark now mark]
  | .receiveFound => [.receiveFound]
  | .insert _ n => [.insert n]
  | .receiveStale => [.receiveStale]
  | .move _ n => [.move n]
  | .sync now =>
    .readNew :: List.replicate (s.monitor.readied.readNew t).1.length (.takeOver now) ++
      .readDone :: List.replicate (s.monitor.readDone t).1.length (.drop now)

section Errands

variable (now : Now) (s : Site) (t : Tables)

theorem addAll_cons (m : Manager) (w : Watch) (ws : List Watch) :
    (Monitor.addAll now m (w :: ws)).2 =
      (Monitor.addAll now (Monitor.addAll now m [w]).2 ws).2 := by
  rw [Monitor.addAll, Monitor.addAll]
  cases h : m.addWatch now w with
  | mk outcome m' => cases outcome <;> rfl

theorem removeAll_cons (m : Manager) (w : Watch) (ws : List Watch) :
    (Monitor.removeAll now m (w :: ws)).2 =
      (Monitor.removeAll now (Monitor.removeAll now m [w]).2 ws).2 := rfl

theorem acts_cons (a : Act) (as : List Act) :
    s.acts t (a :: as) = (s.act t a).1.acts (s.act t a).2 as := rfl

theorem acts_append (as bs : List Act) :
    s.acts t (as ++ bs) = (s.acts t as).1.acts (s.acts t as).2 bs := by
  unfold acts
  rw [List.foldl_append]

theorem acts_takeOver {ws : List Watch} (h : s.arrived = ws) :
    s.acts t (List.replicate ws.length (.takeOver now)) =
      ({ s.withManager (Monitor.addAll now s.manager ws).2 with arrived := [] }, t) := by
  induction ws generalizing s with
  | nil =>
    obtain ⟨_, _, _, _, _⟩ := s
    cases h
    rfl
  | cons w ws ih =>
    rw [List.length_cons, List.replicate_succ, acts_cons, addAll_cons]
    unfold act
    rw [h]
    exact ih { s.withManager (Monitor.addAll now s.manager [w]).2 with arrived := ws } rfl

theorem acts_drop {ws : List Watch} (h : s.departed = ws) :
    s.acts t (List.replicate ws.length (.drop now)) =
      ({ s.withManager (Monitor.removeAll now s.manager ws).2 with departed := [] }, t) := by
  induction ws generalizing s with
  | nil =>
    obtain ⟨_, _, _, _, _⟩ := s
    cases h
    rfl
  | cons w ws ih =>
    rw [List.length_cons, List.replicate_succ, acts_cons, removeAll_cons]
    unfold act
    rw [h]
    exact ih { s.withManager (Monitor.removeAll now s.manager [w]).2 with departed := ws } rfl

theorem acts_sync (harrived : s.arrived = []) (hdeparted : s.departed = []) :
    s.acts t (s.actsOf t (.sync now)) = s.play now t Errand.syncWatches := by
  obtain ⟨monitor, inserting, moving, _, _⟩ := s
  cases harrived
  cases hdeparted
  let ws := (monitor.readied.readNew t).1
  let m := (monitor.readied.readNew t).2.withManager
    (Monitor.addAll now monitor.manager ws).2
  have hnew : act ⟨monitor, inserting, moving, [], []⟩ t .readNew =
      (⟨(monitor.readied.readNew t).2, inserting, moving, ws, []⟩, t) := rfl
  have hdone : act ⟨m, inserting, moving, [], []⟩ t .readDone =
      (⟨(m.readDone t).2, inserting, moving, [], (m.readDone t).1⟩, t) := rfl
  have hover : acts ⟨(monitor.readied.readNew t).2, inserting, moving, ws, []⟩ t
      (List.replicate ws.length (.takeOver now)) = (⟨m, inserting, moving, [], []⟩, t) :=
    acts_takeOver now _ t rfl
  -- What is done does not depend on what was taken over.
  have hacts : actsOf ⟨monitor, inserting, moving, [], []⟩ t (.sync now) =
      .readNew :: (List.replicate ws.length (.takeOver now) ++
        .readDone :: List.replicate (m.readDone t).1.length (.drop now)) := rfl
  rw [hacts, acts_cons, hnew, acts_append, hover, acts_cons, hdone, acts_drop now _ t rfl]
  unfold play
  dsimp only
  rw [playOut_sync]
  rfl

theorem acts_actsOf (harrived : s.arrived = []) (hdeparted : s.departed = []) (x : Duty) :
    s.acts t (s.actsOf t x) = s.perform t x := by
  cases x with
  | mark | receiveFound | receiveStale => rfl
  | insert now n =>
    show s.act t (.insert n) = _
    unfold act perform play
    dsimp only
    split
    · rfl
    · rw [playOut_insertWatch]
  | move now n =>
    show s.act t (.move n) = _
    unfold act perform play
    dsimp only
    split
    · rfl
    · rw [playOut_moveWatch]
      rfl
  | sync now => exact acts_sync now s t harrived hdeparted

theorem read_perform (x : Duty) :
    (s.perform t x).1.arrived = s.arrived ∧ (s.perform t x).1.departed = s.departed := by
  cases x with
  | mark | sync => exact ⟨rfl, rfl⟩
  | insert | move =>
    unfold perform
    dsimp only
    split <;> exact ⟨rfl, rfl⟩
  | receiveFound | receiveStale =>
    unfold perform act
    dsimp only
    split <;> exact ⟨rfl, rfl⟩

end Errands

/--
Nothing expires, has to make room or is dropped while the server does this.
-/
def Calm (s : Site) : Act → Prop
  | .mark now mark =>
    s.manager.list.Calm now.elapsed (s.manager.watchOf mark).key ∧
      s.manager.Spares (s.manager.markQuarantine now mark) ∧
      (s.manager.markQuarantine now mark).metrics.quarantinesDropped =
        s.manager.metrics.quarantinesDropped
  | .takeOver now => ∀ w ∈ s.arrived.head?,
    s.manager.list.Calm now.elapsed w.key ∧ w.lifetime now.wall ≠ .ended ∧
      s.manager.Spares (Monitor.addAll now s.manager [w]).2
  | .drop now => s.manager.list.cache.Fresh now.elapsed
  | _ => True

instance (s : Site) (a : Act) : Decidable (s.Calm a) :=
  match a with
  | .mark _ _ => inferInstanceAs (Decidable (_ ∧ _ ∧ _))
  | .takeOver _ => inferInstanceAs (Decidable (∀ w ∈ s.arrived.head?, _))
  | .drop _ => inferInstanceAs (Decidable (Cache.Fresh _ _))
  | .receiveFound | .insert _ | .receiveStale | .move _ | .readNew | .readDone =>
    inferInstanceAs (Decidable True)

/--
What a server knows are rows, and a row that it read and that is still in the watch table is about
to be taken over, has its key, or is on its way to the done table.
-/
structure Sound (t : Tables) (s : Site) : Prop where
  outgoing : ∀ w ∈ s.outgoing, w ∈ t.rows
  held : ∀ k w, s.held? k = some w → w.isDurable → w ∈ t.rows ∧ w.key = k
  arrived : ∀ w ∈ s.arrived, w ∈ t.rows
  departed : ∀ w ∈ s.departed, w ∈ t.doneRows
  lastWatch : s.lastWatch ≤ t.lastWatch
  known : ∀ w ∈ t.watches, w.id ≤ s.lastWatch →
    w ∈ s.arrived ∨ s.held? w.key = some w ∨ w ∈ s.outgoing

section Sound

variable {s : Site} {t t' : Tables} {m : Manager} {w : Watch} {key : String} {now : Now}

theorem sound_ofSettings (settings : Settings) : (ofSettings settings).Sound .empty where
  outgoing _ h := absurd h List.not_mem_nil
  held _ _ h := by cases h
  arrived _ h := absurd h List.not_mem_nil
  departed _ h := absurd h List.not_mem_nil
  lastWatch := Int.le_refl _
  known _ h := absurd h List.not_mem_nil

theorem Sound.mono (h : s.Sound t) (hg : t.Grows t') : s.Sound t' where
  outgoing w hw := hg.rows w (h.outgoing w hw)
  held k w hw hd := ⟨hg.rows w (h.held k w hw hd).1, (h.held k w hw hd).2⟩
  arrived w hw := hg.rows w (h.arrived w hw)
  departed w hw := hg.doneRows w (h.departed w hw)
  lastWatch := Int.le_trans h.lastWatch hg.lastWatch
  known w hw hid := by
    cases hg.watches w hw with
    | inl hold => exact h.known w hold hid
    | inr hnew =>
      have hle := h.lastWatch
      omega

theorem mem_outgoing_of_shifts {v : Option Watch} {cleaned found : List Watch}
    (hm : s.manager.Shifts key v cleaned found m) :
    w ∈ (s.withManager m).outgoing ↔ w ∈ s.outgoing ∨ w ∈ cleaned := by
  unfold outgoing
  show w ∈ m.stale.items ++ s.moving ↔ _
  rw [hm.stale]
  simp only [List.mem_append]
  tauto

theorem Sound.shift (h : s.Sound t) {v : Option Watch} {cleaned found : List Watch}
    (hm : s.manager.Shifts key v cleaned found m)
    (hv : ∀ w, v = some w → w.isDurable → w ∈ t.rows ∧ w.key = key)
    (hcleaned : ∀ w ∈ cleaned, w ∈ t.rows)
    (hlost : ∀ w ∈ t.watches, s.held? key = some w → v = some w ∨ w ∈ cleaned) :
    (s.withManager m).Sound t where
  outgoing w hw := by
    cases (mem_outgoing_of_shifts hm).1 hw with
    | inl hw => exact h.outgoing w hw
    | inr hw => exact hcleaned w hw
  held k w hw hd := by
    rcases hm.held_cases hw with hw | ⟨rfl, hw⟩
    · exact h.held k w hw hd
    · exact hv w hw hd
  arrived := h.arrived
  departed := h.departed
  lastWatch := h.lastWatch
  known w hw hid := by
    rw [mem_outgoing_of_shifts hm]
    rcases h.known w hw hid with harrived | hheld | houtgoing
    · exact .inl harrived
    · have hnow : (s.withManager m).held? w.key = if w.key = key then v else s.held? w.key :=
        hm.held w.key
      rw [hnow]
      split
      · next hk =>
        cases hlost w hw (hk ▸ hheld) with
        | inl hkept => exact .inr (.inl hkept)
        | inr hcleaned => exact .inr (.inr (.inr hcleaned))
      · exact .inr (.inl hheld)
    · exact .inr (.inr (.inl houtgoing))

theorem Sound.pop (h : s.Sound t) {ws : List Watch} (hs : s.arrived = w :: ws)
    (hw : s.held? w.key = some w ∨ w ∈ s.outgoing) : ({ s with arrived := ws } : Site).Sound t where
  outgoing := h.outgoing
  held := h.held
  arrived v hv := h.arrived v (hs ▸ List.mem_cons_of_mem w hv)
  departed := h.departed
  lastWatch := h.lastWatch
  known v hv hid := by
    rcases h.known v hv hid with harrived | hknown
    · rw [hs] at harrived
      cases List.mem_cons.1 harrived with
      | inl hsame => exact .inr (hsame ▸ hw)
      | inr hrest => exact .inl hrest
    · exact .inr hknown

theorem mem_rowAt {l : WatchList} : w ∈ l.rowAt key ↔ l.held? key = some w ∧ w.isDurable := by
  unfold WatchList.rowAt
  rw [List.mem_filter, Option.mem_toList]

theorem Sound.mark (h : s.Sound t) (ht : t.Sound) {mark : Mark} (hc : s.Calm (.mark now mark)) :
    (s.withManager (s.manager.markQuarantine now mark)).Sound t := by
  obtain ⟨hcalm, hspares, hfound⟩ := hc
  apply h.shift (Manager.shifts_mark hcalm hspares hfound)
  · intro w hw hd
    cases hw
    cases hd
  · intro w hw
    exact (h.held _ w (mem_rowAt.1 hw).1 (mem_rowAt.1 hw).2).1
  · intro w hw hheld
    exact .inr (mem_rowAt.2 ⟨hheld, ht.isDurable (List.mem_append_left _ hw)⟩)

theorem Sound.eq_of_held (h : s.Sound t) (ht : t.Sound) {v : Watch} (hw : w ∈ t.rows)
    (hv : s.held? key = some v) (hid : v.id = w.id) : v = w := by
  have hd : v.isDurable := by
    have hw := ht.isDurable hw
    unfold Watch.isDurable at hw ⊢
    rw [hid]
    exact hw
  exact ht.eq_of_id (h.held _ v hv hd).1 hw hid

theorem act_takeOver (now : Now) (t : Tables) {ws : List Watch} (hs : s.arrived = w :: ws) :
    s.act t (.takeOver now) =
      ({ s.withManager (Monitor.addAll now s.manager [w]).2 with arrived := ws }, t) := by
  unfold act
  rw [hs]

theorem Sound.admits (h : s.Sound t) (ht : t.Sound) (hc : s.Calm (.takeOver now)) {ws : List Watch}
    (hs : s.arrived = w :: ws) : s.manager.Admits w (Monitor.addAll now s.manager [w]).2 := by
  obtain ⟨hcalm, hlife, hspares⟩ := hc w (by rw [hs]; rfl)
  have hd := ht.isDurable (h.arrived w (hs ▸ List.mem_cons_self))
  exact Manager.admits_addAll hcalm hlife hd hspares

theorem Sound.takeOver (h : s.Sound t) (ht : t.Sound) {ws : List Watch} (hs : s.arrived = w :: ws)
    (hm : s.manager.Admits w m) :
    ({ s.withManager m with arrived := ws } : Site).Sound t := by
  have hrow : w ∈ t.rows := h.arrived w (hs ▸ List.mem_cons_self)
  have hput (v : Watch) : some w = some v → v.isDurable → v ∈ t.rows ∧ v.key = w.key := by
    rintro hv -
    cases hv
    exact ⟨hrow, rfl⟩
  cases hm with
  | taken hfree hm =>
    apply (h.shift hm hput (fun _ hv => absurd hv List.not_mem_nil) ?_).pop hs
    · exact .inl ((hm.held w.key).trans (if_pos rfl))
    · intro v hv hheld
      have hd := ht.isDurable (List.mem_append_left _ hv)
      rw [hfree v hheld] at hd
      cases hd
  | known v hheld hid hm =>
    have hv : v = w := h.eq_of_held ht hrow hheld hid
    subst hv
    apply (h.shift hm hput (fun _ hv => absurd hv List.not_mem_nil) ?_).pop hs
    · exact .inl ((hm.held v.key).trans (if_pos rfl))
    · intro u hu hheld'
      exact .inl (hheld.symm.trans hheld')
  | refused v hheld hid hd hmanual hm =>
    apply (h.shift hm ?_ ?_ ?_).pop hs
    · exact .inr ((mem_outgoing_of_shifts hm).2 (.inr (List.mem_singleton_self w)))
    · intro u hu hud
      cases hu
      exact h.held _ v hheld hd
    · intro u hu
      rw [List.mem_singleton.1 hu]
      exact hrow
    · intro u hu hheld'
      exact .inl (hheld.symm.trans hheld')
  | forced v hheld hid hd hmanual hm =>
    apply (h.shift hm hput ?_ ?_).pop hs
    · exact .inl ((hm.held w.key).trans (if_pos rfl))
    · intro u hu
      rw [List.mem_singleton.1 hu]
      exact (h.held _ v hheld hd).1
    · intro u hu hheld'
      right
      exact List.mem_singleton.2 (Option.some.inj (hheld'.symm.trans hheld))

theorem Sound.drop (h : s.Sound t) (ht : t.Sound) {ws : List Watch} (hs : s.departed = w :: ws)
    (hfresh : s.manager.list.cache.Fresh now.elapsed) :
    ({ s.withManager (Monitor.removeAll now s.manager [w]).2 with departed := ws } : Site).Sound t := by
  have hdone : w ∈ t.doneRows := h.departed w (hs ▸ List.mem_cons_self)
  have hshift := h.shift (Manager.shifts_removeAll hfresh w) ?_
    (fun _ hv => absurd hv List.not_mem_nil) ?_
  · exact ⟨hshift.outgoing, hshift.held, hshift.arrived,
      fun v hv => h.departed v (hs ▸ List.mem_cons_of_mem w hv), hshift.lastWatch, hshift.known⟩
  · intro v hv hd
    split at hv
    · cases hv
    · exact h.held _ v hv hd
  · intro v hv hheld
    left
    rw [if_neg]
    · exact hheld
    · have hheld' : s.manager.list.held? w.key = some v := hheld
      rw [hheld', Option.any_some, beq_iff_eq]
      intro hid
      -- A row of the watch table is not the one that is done, so it is not deleted.
      have hsame := ht.eq_of_id (List.mem_append_left _ hv) (List.mem_append_right _ hdone) hid
      exact ht.not_done hv (hsame ▸ hdone)

theorem highest_le {last bound : Int} {ids : List Int} (h : last ≤ bound)
    (hids : ∀ id ∈ ids, id ≤ bound) : Monitor.highest last ids ≤ bound := by
  unfold Monitor.highest
  induction ids generalizing last with
  | nil => exact h
  | cons id ids ih =>
    rw [List.foldl_cons]
    apply ih
    · have hid := hids id List.mem_cons_self
      omega
    · exact fun x hx => hids x (List.mem_cons_of_mem id hx)

theorem Sound.readNew (h : s.Sound t) (ht : t.Sound) : (s.act t .readNew).1.Sound t where
  outgoing := h.outgoing
  held := h.held
  arrived w hw := by
    cases List.mem_append.1 hw with
    | inl hw => exact h.arrived w hw
    | inr hw => exact List.mem_append_left _ (List.mem_filter.1 hw).1
  departed := h.departed
  lastWatch := by
    apply highest_le h.lastWatch
    intro id hid
    obtain ⟨w, hw, rfl⟩ := List.mem_map.1 hid
    exact (ht.bounds w (List.mem_append_left _ (List.mem_filter.1 hw).1)).2
  known w hw hid := by
    by_cases hold : w.id ≤ s.lastWatch
    · exact (h.known w hw hold).imp_left (List.mem_append_left _)
    · left
      apply List.mem_append_right
      exact List.mem_filter.2 ⟨hw, decide_eq_true (Int.not_le.1 hold)⟩

theorem Sound.readDone (h : s.Sound t) : (s.act t .readDone).1.Sound t where
  outgoing := h.outgoing
  held := h.held
  arrived := h.arrived
  departed w hw := by
    cases List.mem_append.1 hw with
    | inl hw => exact h.departed w hw
    | inr hw =>
      obtain ⟨r, hr, rfl⟩ := List.mem_map.1 hw
      exact List.mem_map_of_mem (List.mem_filter.1 hr).1
  lastWatch := h.lastWatch
  known := h.known

theorem mem_outgoing_receiveStale {c : Channel Watch} (v : Watch)
    (hc : s.manager.stale.receive? = some (w, c)) :
    v ∈ ({ s.withManager { s.manager with stale := c } with
      moving := s.moving ++ [w] } : Site).outgoing ↔ v ∈ s.outgoing := by
  show v ∈ c.items ++ (s.moving ++ [w]) ↔ v ∈ s.manager.stale.items ++ s.moving
  rw [Channel.items_of_receive hc]
  simp only [List.mem_append, List.mem_cons]
  tauto

theorem Sound.receiveStale (h : s.Sound t) {c : Channel Watch}
    (hc : s.manager.stale.receive? = some (w, c)) :
    ({ s.withManager { s.manager with stale := c } with
      moving := s.moving ++ [w] } : Site).Sound t where
  outgoing v hv := h.outgoing v ((mem_outgoing_receiveStale v hc).1 hv)
  held := h.held
  arrived := h.arrived
  departed := h.departed
  lastWatch := h.lastWatch
  known v hv hid := by
    rw [mem_outgoing_receiveStale v hc]
    exact h.known v hv hid

theorem mem_eraseIdx {ws : List Watch} {n : Nat} {v : Watch} (hn : ws[n]? = some w) (hv : v ∈ ws)
    (hne : v ≠ w) : v ∈ ws.eraseIdx n := by
  obtain ⟨i, hi⟩ := List.mem_iff_getElem?.1 hv
  refine List.mem_eraseIdx_iff_getElem?.2 ⟨i, ?_, hi⟩
  rintro rfl
  rw [hn] at hi
  exact hne (Option.some.inj hi).symm

theorem mem_outgoing_move {n : Nat} {v : Watch} {f : Metrics → Metrics}
    (hv : v ∈ ({ s.withManager (s.manager.count f) with
      moving := s.moving.eraseIdx n } : Site).outgoing) : v ∈ s.outgoing := by
  cases List.mem_append.1 hv with
  | inl hv => exact List.mem_append_left _ hv
  | inr hv => exact List.mem_append_right _ (List.mem_of_mem_eraseIdx hv)

theorem Sound.move (h : s.Sound t) (ht : t.Sound) {n : Nat} (hw : s.moving[n]? = some w)
    (f : Metrics → Metrics) :
    ({ s.withManager (s.manager.count f) with
      moving := s.moving.eraseIdx n } : Site).Sound (t.move w.id) := by
  have hm := h.mono (ht.grows_move w.id)
  refine ⟨fun v hv => hm.outgoing v (mem_outgoing_move hv), hm.held, hm.arrived, hm.departed,
    hm.lastWatch, ?_⟩
  intro v hv hid
  have hne : v ≠ w := fun hsame => (Tables.mem_watches_move.1 hv).2 (hsame ▸ rfl)
  rcases hm.known v hv hid with harrived | hheld | houtgoing
  · exact .inl harrived
  · exact .inr (.inl hheld)
  · right
    right
    cases List.mem_append.1 houtgoing with
    | inl hstale => exact List.mem_append_left _ hstale
    | inr hmoving => exact List.mem_append_right _ (mem_eraseIdx hw hmoving hne)

theorem sound_act (h : s.Sound t) (ht : t.Sound) {a : Act} (hc : s.Calm a) :
    (s.act t a).1.Sound (s.act t a).2 := by
  cases a with
  | mark now mark => exact h.mark ht hc
  | receiveFound =>
    unfold act
    dsimp only
    split
    · exact h
    · exact ⟨h.outgoing, h.held, h.arrived, h.departed, h.lastWatch, h.known⟩
  | insert n =>
    unfold act
    dsimp only
    split
    · exact h
    · next w hw =>
      have hm := h.mono (Tables.grows_insert t w)
      exact ⟨hm.outgoing, hm.held, hm.arrived, hm.departed, hm.lastWatch, hm.known⟩
  | receiveStale =>
    unfold act
    dsimp only
    split
    · exact h
    · next hc => exact h.receiveStale hc
  | move n =>
    unfold act
    dsimp only
    split
    · exact h
    · next hw => exact h.move ht hw _
  | readNew => exact h.readNew ht
  | takeOver now =>
    cases hs : s.arrived with
    | nil =>
      unfold act
      rw [hs]
      exact h
    | cons w ws =>
      rw [act_takeOver now t hs]
      exact h.takeOver ht hs (h.admits ht hc hs)
  | readDone => exact h.readDone
  | drop now =>
    unfold act
    dsimp only
    split
    · exact h
    · next hs => exact h.drop ht hs hc

end Sound

/--
A server has two rows for a key: one that it is about to take over, and another one that has the key.
-/
structure Contest (s : Site) (w v : Watch) : Prop where
  arrived : s.arrived.head? = some w
  held : s.held? w.key = some v
  isDurable : v.isDurable
  ne : v.id ≠ w.id

def winner (w v : Watch) : Watch := if w.isManual then w else v

def loser (w v : Watch) : Watch := if w.isManual then v else w

def GivesUp (s : Site) (u : Watch) : Act → Prop
  | .mark _ mark => u ∈ s.manager.list.rowAt (s.manager.watchOf mark).key
  | .takeOver _ => ∃ w v, s.Contest w v ∧ u = loser w v
  | _ => False

section Contest

variable {s : Site} {t : Tables} {v v' w w' : Watch}

theorem Contest.unique (h : s.Contest w v) (h' : s.Contest w' v') : w = w' ∧ v = v' := by
  have hw : w = w' := Option.some.inj (h.arrived.symm.trans h'.arrived)
  subst hw
  exact ⟨rfl, Option.some.inj (h.held.symm.trans h'.held)⟩

theorem Contest.winner_ne_loser (h : s.Contest w v) : winner w v ≠ loser w v := by
  have hne := h.ne
  unfold winner loser
  split
  · exact fun hsame => hne (hsame ▸ rfl)
  · exact fun hsame => hne (hsame ▸ rfl)

theorem Contest.rows (h : s.Contest w v) (hs : s.Sound t) :
    (winner w v ∈ t.rows ∧ (winner w v).key = w.key) ∧
      loser w v ∈ t.rows ∧ (loser w v).key = w.key := by
  have hw := hs.arrived w (List.mem_of_mem_head? h.arrived)
  have hv := hs.held _ v h.held h.isDurable
  unfold winner loser
  split
  · exact ⟨⟨hw, rfl⟩, hv⟩
  · exact ⟨hv, hw, rfl⟩

theorem Sound.mem_of_givesUp (h : s.Sound t) {a : Act} (hw : s.GivesUp w a) : w ∈ t.rows := by
  cases a with
  | mark now mark =>
    have hheld := mem_rowAt.1 hw
    exact (h.held _ w hheld.1 hheld.2).1
  | takeOver now =>
    obtain ⟨_, _, hcontest, rfl⟩ := hw
    exact (hcontest.rows h).2.1
  | _ => cases hw

end Contest

/--
What an act does to the watches that are to be inserted and to the rows on their way to the done
table.
-/
structure Trail (s : Site) (a : Act) (s' : Site) : Prop where
  outgoing : ∀ u ∈ s'.outgoing, u ∈ s.outgoing ∨ s.GivesUp u a
  found : ∀ u ∈ s'.pending, u ∈ s.pending ∨
    ∃ now mark, a = .mark now mark ∧ u = s.manager.watchOf mark
  pending : ∀ u ∈ s.pending, u ∈ s'.pending ∨ ∃ n, a = .insert n ∧ s.inserting[n]? = some u

section Trail

variable {s s' : Site} {t : Tables} {a : Act} {u w : Watch}

theorem trail_of_iff (houtgoing : ∀ u, u ∈ s'.outgoing ↔ u ∈ s.outgoing)
    (hpending : ∀ u, u ∈ s'.pending ↔ u ∈ s.pending) : s.Trail a s' where
  outgoing u hu := .inl ((houtgoing u).1 hu)
  found u hu := .inl ((hpending u).1 hu)
  pending u hu := .inl ((hpending u).2 hu)

theorem trail_refl (s : Site) (a : Act) : s.Trail a s :=
  trail_of_iff (fun _ => Iff.rfl) (fun _ => Iff.rfl)

theorem trail_of_shifts {m : Manager} {key : String} {v : Option Watch}
    {cleaned found : List Watch} (hm : s.manager.Shifts key v cleaned found m)
    (hcleaned : ∀ u ∈ cleaned, s.GivesUp u a)
    (hfound : ∀ u ∈ found, ∃ now mark, a = .mark now mark ∧ u = s.manager.watchOf mark) :
    s.Trail a (s.withManager m) := by
  have hpending (u : Watch) : u ∈ (s.withManager m).pending ↔ u ∈ s.pending ∨ u ∈ found := by
    unfold pending
    show u ∈ m.quarantined.items ++ s.inserting ↔ _
    rw [hm.quarantined]
    simp only [List.mem_append]
    tauto
  exact ⟨fun u hu => ((mem_outgoing_of_shifts hm).1 hu).imp_right (hcleaned u),
    fun u hu => ((hpending u).1 hu).imp_right (hfound u),
    fun u hu => .inl ((hpending u).2 (.inl hu))⟩

theorem mem_pending_receiveFound {c : Channel Watch}
    (hc : s.manager.quarantined.receive? = some (w, c)) :
    u ∈ ({ s.withManager { s.manager with quarantined := c } with
      inserting := s.inserting ++ [w] } : Site).pending ↔ u ∈ s.pending := by
  show u ∈ c.items ++ (s.inserting ++ [w]) ↔ u ∈ s.manager.quarantined.items ++ s.inserting
  rw [Channel.items_of_receive hc]
  simp only [List.mem_append, List.mem_cons]
  tauto

theorem trail_insert {n : Nat} (hw : s.inserting[n]? = some w) :
    s.Trail (.insert n) { s with inserting := s.inserting.eraseIdx n } where
  outgoing u hu := .inl hu
  found u hu := by
    left
    cases List.mem_append.1 hu with
    | inl hu => exact List.mem_append_left _ hu
    | inr hu => exact List.mem_append_right _ (List.mem_of_mem_eraseIdx hu)
  pending u hu := by
    by_cases hsame : u = w
    · exact .inr ⟨n, rfl, hsame ▸ hw⟩
    · left
      cases List.mem_append.1 hu with
      | inl hu => exact List.mem_append_left _ hu
      | inr hu => exact List.mem_append_right _ (mem_eraseIdx hw hu hsame)

theorem trail_act (h : s.Sound t) (ht : t.Sound) (hc : s.Calm a) : s.Trail a (s.act t a).1 := by
  have hnone (u : Watch) {P : Prop} (hu : u ∈ ([] : List Watch)) : P := absurd hu List.not_mem_nil
  cases a with
  | mark now mark =>
    obtain ⟨hcalm, hspares, hfound⟩ := hc
    refine trail_of_shifts (Manager.shifts_mark hcalm hspares hfound) ?_ ?_
    · exact fun u hu => hu
    · exact fun u hu => ⟨now, mark, rfl, List.mem_singleton.1 hu⟩
  | receiveFound =>
    unfold act
    dsimp only
    split
    · exact trail_refl s _
    · next hc => exact trail_of_iff (fun _ => Iff.rfl) (fun _ => mem_pending_receiveFound hc)
  | insert n =>
    unfold act
    dsimp only
    split
    · exact trail_refl s _
    · next hw => exact trail_insert hw
  | receiveStale =>
    unfold act
    dsimp only
    split
    · exact trail_refl s _
    · next hc => exact trail_of_iff (fun u => mem_outgoing_receiveStale u hc) (fun _ => Iff.rfl)
  | move n =>
    unfold act
    dsimp only
    split
    · exact trail_refl s _
    · exact ⟨fun _ hu => .inl (mem_outgoing_move hu), fun _ hu => .inl hu, fun _ hu => .inl hu⟩
  | takeOver now =>
    cases hs : s.arrived with
    | nil =>
      unfold act
      rw [hs]
      exact trail_refl s _
    | cons w ws =>
      rw [act_takeOver now t hs]
      obtain ⟨_, _, hm, hcleaned⟩ := (h.admits ht hc hs).shifts
      have htrail : s.Trail (.takeOver now) (s.withManager (Monitor.addAll now s.manager [w]).2) := by
        apply trail_of_shifts hm _ (fun u hu => hnone u hu)
        intro u hu
        obtain ⟨v, hheld, hd, hne, hu⟩ := hcleaned u hu
        exact ⟨w, v, ⟨by rw [hs]; rfl, hheld, hd, hne⟩, hu⟩
      exact ⟨htrail.outgoing, htrail.found, htrail.pending⟩
  | drop now =>
    unfold act
    dsimp only
    split
    · exact trail_refl s _
    · next w ws hs =>
      have htrail : s.Trail (.drop now) (s.withManager (Monitor.removeAll now s.manager [w]).2) :=
        trail_of_shifts (Manager.shifts_removeAll hc w) (fun u hu => hnone u hu)
          (fun u hu => hnone u hu)
      exact ⟨htrail.outgoing, htrail.found, htrail.pending⟩
  | readNew | readDone => exact trail_of_iff (fun _ => Iff.rfl) (fun _ => Iff.rfl)

end Trail

end Site

end Steward.Runaway
