import Steward.Proofs.Runaway.Diary

/-!
This module contains the number of watches that each group has. It is counted by the events of the
watch list, and a watch that takes the place of a live one makes no event. As long as the two belong
to the same group, the number is that of the watches in the list.
-/

namespace Steward

universe u v

namespace Cache

variable {κ : Type u} {α : Type v} [Ord κ] {c : Cache κ α}

def Event.isLeaving : Event κ α → Bool
  | .came _ _ => false
  | .left _ _ _ => true

section Leaving

theorem isLeaving_makeRoom (now : Span) (c : Cache κ α) (ks : List κ) :
    ∀ ev ∈ (c.makeRoom now ks).1, ev.isLeaving = true := by
  induction ks generalizing c with
  | nil => exact fun _ h => absurd h List.not_mem_nil
  | cons k ks ih =>
    unfold makeRoom
    split
    · exact fun _ h => absurd h List.not_mem_nil
    · split
      · exact ih c
      · exact List.forall_mem_cons.2 ⟨rfl, ih _⟩

theorem isLeaving_remove (c : Cache κ α) (k : κ) (reason : Reason) :
    ∀ ev ∈ (c.remove k reason).2.1, ev.isLeaving = true := by
  intro ev hev
  unfold remove at hev
  split at hev
  · cases hev
  · rw [List.mem_singleton.1 hev]
    rfl

theorem isLeaving_purgeKeys (c : Cache κ α) (ks : List κ) :
    ∀ ev ∈ (c.purgeKeys ks).1, ev.isLeaving = true := by
  induction ks generalizing c with
  | nil => exact fun _ h => absurd h List.not_mem_nil
  | cons k ks ih =>
    intro ev hev
    cases List.mem_append.1 hev with
    | inl hev => exact isLeaving_remove c k _ ev hev
    | inr hev => exact ih _ ev hev

end Leaving

variable [DecidableEq κ] [Std.LawfulEqOrd κ] [Std.TransOrd κ]

structure Placed (c : Cache κ α) (k : κ) (a : α) (r : List (Event κ α) × Cache κ α)
    (gone : List (Event κ α)) (rest : List α) : Prop where
  events : r.1 = gone ++ [.came k a]
  leaving : ∀ ev ∈ gone, ev.isLeaving = true
  before : c.values.Perm (leavers gone ++ rest)
  after : r.2.values.Perm (a :: rest)

theorem place_placed (now : Span) (c : Cache κ α) (k : κ) (e : Entry α) :
    ∃ gone rest, Placed c k e.value (c.place now k e) gone rest := by
  unfold place
  cases hold : c.entries.get? k with
  | none =>
    refine ⟨_, (c.makeRoom now c.order.values).2.values, rfl, ?_, values_makeRoom now c _, ?_⟩
    · exact isLeaving_makeRoom now c _
    · exact values_store_perm (get?_makeRoom_eq_none now _ hold)
  | some old =>
    have hnone : (c.forget k old).entries.get? k = none := by
      rw [get?_forget, if_pos rfl]
    let room := (c.forget k old).makeRoom now (c.forget k old).order.values
    refine ⟨.left k old.value .expired :: room.1, room.2.values, rfl, ?_, ?_, ?_⟩
    · exact List.forall_mem_cons.2 ⟨rfl, isLeaving_makeRoom now _ _⟩
    · exact (values_perm_forget hold).trans ((values_makeRoom now _ _).cons _)
    · exact values_store_perm (get?_makeRoom_eq_none now _ hnone)

theorem set_cases (now : Span) (c : Cache κ α) (k : κ) (a : α) (ttl : Option Span) :
    (∃ old, c.get? now k = some old ∧ (c.set now k a ttl).2.1 = [] ∧
      (a :: c.values).Perm (old :: (c.set now k a ttl).2.2.values)) ∨
    c.get? now k = none ∧ ∃ gone rest, Placed c k a (c.set now k a ttl).2 gone rest := by
  have hfst := fst_set c now k a ttl
  have hvalues := values_set c now k a ttl
  unfold set at hfst hvalues ⊢
  dsimp only at hfst hvalues ⊢
  split
  · next old hold =>
    rw [hold] at hfst hvalues
    exact .inl ⟨old.value, hfst.symm, rfl, hvalues⟩
  · next hold =>
    rw [hold] at hfst
    obtain ⟨gone, rest, hplaced⟩ := place_placed now { c with lastSeq := c.lastSeq + 1 } k
      ⟨a, ttl.map now.add, c.lastSeq + 1⟩
    exact .inr ⟨hfst.symm, gone, rest, hplaced.events, hplaced.leaving, hplaced.before,
      hplaced.after⟩

end Cache

namespace Runaway

open Cache (leavers Reason)

namespace GroupCounts

def number (groups : GroupCounts) (group : String) : Nat := (groups.get? group).getD 0

def Positive (groups : GroupCounts) : Prop := ∀ group, groups.get? group ≠ some 0

variable {groups : GroupCounts} {events : List WatchEvent}

theorem get?_join (groups : GroupCounts) (group g : String) :
    (groups.join group).get? g = if g = group then some (groups.number group + 1)
      else groups.get? g := SortedMap.get?_insert _ _ _ _

theorem number_join (groups : GroupCounts) (group g : String) :
    (groups.join group).number g = groups.number g + [group].countP (· == g) := by
  rw [List.countP_singleton]
  unfold number
  rw [get?_join]
  by_cases hg : g = group
  · simp [hg, number]
  · simp [hg, Ne.symm hg]

theorem number_leave (groups : GroupCounts) (group g : String) :
    (groups.leave group).number g = groups.number g - [group].countP (· == g) := by
  rw [List.countP_singleton]
  unfold leave number
  split
  · next count hcount =>
    split
    · rw [SortedMap.get?_insert]
      by_cases hg : g = group
      · simp [hg, hcount]
      · simp [hg, Ne.symm hg]
    · rw [SortedMap.get?_erase]
      by_cases hg : g = group
      · simp only [hg, hcount, if_true, Option.getD_none, Option.getD_some, beq_self_eq_true]
        omega
      · simp [hg, Ne.symm hg]
  · next hnone =>
    by_cases hg : g = group
    · simp [hg, hnone]
    · simp [Ne.symm hg]

theorem Positive.join (h : groups.Positive) (group : String) : (groups.join group).Positive := by
  intro g
  rw [get?_join]
  split
  · simp
  · exact h g

theorem Positive.leave (h : groups.Positive) (group : String) : (groups.leave group).Positive := by
  intro g
  unfold GroupCounts.leave
  split
  · split
    · rw [SortedMap.get?_insert]
      split
      · simp only [ne_eq, Option.some.injEq]
        omega
      · exact h g
    · rw [SortedMap.get?_erase]
      split
      · simp
      · exact h g
  · exact h g

theorem Positive.count (h : groups.Positive) (events : List WatchEvent) :
    (events.foldl WatchEvent.count groups).Positive := by
  apply List.foldlRecOn (motive := Positive)
  · exact h
  · intro gs hgs ev _
    cases ev with
    | came k w => exact hgs.join w.group
    | left k w reason => exact hgs.leave w.group

/--
Every entry that leaves with one of the events finds its group counted, when the event has its turn.
-/
def Finds (groups : GroupCounts) : List WatchEvent → Prop
  | [] => True
  | .came k w :: events => Finds (WatchEvent.count groups (.came k w)) events
  | .left k w reason :: events =>
    groups.get? w.group ≠ none ∧ Finds (WatchEvent.count groups (.left k w reason)) events

/--
The number of watches of a group among the given ones.
-/
def members (group : String) (ws : List Watch) : Nat := ws.countP (·.group == group)

theorem members_cons (g : String) (w : Watch) (ws : List Watch) :
    members g (w :: ws) = [w.group].countP (· == g) + members g ws := by
  unfold members
  rw [List.countP_cons, List.countP_singleton, Nat.add_comm]

theorem members_append (g : String) (ws vs : List Watch) :
    members g (ws ++ vs) = members g ws + members g vs := List.countP_append

theorem number_leavers (hl : ∀ ev ∈ events, ev.isLeaving = true) (groups : GroupCounts)
    (g : String) :
    (events.foldl WatchEvent.count groups).number g =
      groups.number g - members g (leavers events) := by
  induction events generalizing groups with
  | nil => rfl
  | cons ev events ih =>
    obtain ⟨hev, hevents⟩ := List.forall_mem_cons.1 hl
    cases ev with
    | came k w => cases hev
    | left k w reason =>
      have hcons : leavers (.left k w reason :: events) = w :: leavers events := rfl
      rw [List.foldl_cons, ih hevents, hcons, members_cons]
      dsimp only [WatchEvent.count]
      rw [number_leave, Nat.sub_sub]

theorem finds_leavers (hl : ∀ ev ∈ events, ev.isLeaving = true)
    (hn : ∀ g, members g (leavers events) ≤ groups.number g) : groups.Finds events := by
  induction events generalizing groups with
  | nil => trivial
  | cons ev events ih =>
    obtain ⟨hev, hevents⟩ := List.forall_mem_cons.1 hl
    cases ev with
    | came k w => cases hev
    | left k w reason =>
      have hcons : leavers (.left k w reason :: events) = w :: leavers events := rfl
      refine ⟨?_, ih hevents fun g => ?_⟩
      · intro hnone
        have hone := hn w.group
        rw [hcons, members_cons] at hone
        simp [number, hnone] at hone
      · have hg := hn g
        rw [hcons, members_cons] at hg
        dsimp only [WatchEvent.count]
        rw [number_leave]
        omega

theorem finds_append {events' : List WatchEvent} (h : groups.Finds events)
    (h' : (events.foldl WatchEvent.count groups).Finds events') :
    groups.Finds (events ++ events') := by
  induction events generalizing groups with
  | nil => exact h'
  | cons ev events ih =>
    cases ev with
    | came k w => exact ih h h'
    | left k w reason => exact ⟨h.1, ih h.2 h'⟩

end GroupCounts

inductive Touch where
  | set (w : Watch) (ttl : Option Span)
  | remove (key : String) (reason : Reason)
  | purge

def Touch.apply (t : Touch) (now : Span) (c : Cache String Watch) :
    List WatchEvent × Cache String Watch :=
  match t with
  | .set w ttl => (c.set now w.key w ttl).2
  | .remove key reason => (c.remove key reason).2
  | .purge => c.purge now

namespace WatchList

open GroupCounts (members Finds)

/--
The number of watches of a group that are in the list, with those that have expired.
-/
def population (l : WatchList) (group : String) : Nat := members group l.watches

/--
What is counted for each group is what is in the list.
-/
def Exact (l : WatchList) : Prop := ∀ group, l.groups.number group = l.population group

def touch (now : Span) (l : WatchList) (t : Touch) : WatchList :=
  (l.observe (t.apply now l.cache).2 (t.apply now l.cache).1).2

def touchAll (now : Span) (l : WatchList) (ts : List Touch) : WatchList := ts.foldl (touch now) l

/--
The events that are counted while things are done to a list one after the other.
-/
def events (now : Span) (l : WatchList) : List Touch → List WatchEvent
  | [] => []
  | t :: ts => (t.apply now l.cache).1 ++ (l.touch now t).events now ts

/--
The watch is set in the place of a live one that belongs to another group.
-/
def Mixes (now : Span) (l : WatchList) : Touch → Prop
  | .set w _ => ∃ old, l.get? now w.key = some old ∧ old.group ≠ w.group
  | .remove _ _ | .purge => False

variable {l : WatchList} {now : Span} {t : Touch} {ts : List Touch}

theorem groups_touchAll (now : Span) (l : WatchList) (ts : List Touch) :
    (l.touchAll now ts).groups = (l.events now ts).foldl WatchEvent.count l.groups := by
  induction ts generalizing l with
  | nil => rfl
  | cons t ts ih =>
    dsimp only [events]
    rw [List.foldl_append]
    exact ih (l.touch now t)

theorem exact_of_perm {ws : List Watch} (hw : l.watches.Perm ws)
    (h : ∀ g, l.groups.number g = members g ws) : l.Exact := by
  intro g
  rw [h]
  exact (hw.countP_eq _).symm

theorem Exact.leave (h : l.Exact) {cache : Cache String Watch} {evs : List WatchEvent}
    (hl : ∀ ev ∈ evs, ev.isLeaving = true) (hp : l.watches.Perm (leavers evs ++ cache.values)) :
    (l.observe cache evs).2.Exact ∧ l.groups.Finds evs := by
  have hnumber (g : String) :
      l.groups.number g = members g (leavers evs) + members g cache.values := by
    rw [h g, ← GroupCounts.members_append]
    exact hp.countP_eq _
  constructor
  · apply exact_of_perm (.refl _)
    intro g
    have hafter := GroupCounts.number_leavers hl l.groups g
    have hbefore := hnumber g
    dsimp only [observe, watches]
    omega
  · apply GroupCounts.finds_leavers hl
    intro g
    rw [hnumber g]
    exact Nat.le_add_right _ _

theorem Exact.come (h : l.Exact) {k : String} {w : Watch}
    {r : List WatchEvent × Cache String Watch} {gone : List WatchEvent} {rest : List Watch}
    (hr : Cache.Placed l.cache k w r gone rest) :
    (l.observe r.2 r.1).2.Exact ∧ l.groups.Finds r.1 := by
  have hnumber (g : String) : l.groups.number g = members g (leavers gone) + members g rest := by
    rw [h g, ← GroupCounts.members_append]
    exact hr.before.countP_eq _
  constructor
  · refine exact_of_perm (show (l.observe r.2 r.1).2.watches.Perm _ from hr.after) fun g => ?_
    have hgone := GroupCounts.number_leavers hr.leaving l.groups g
    have hbefore := hnumber g
    dsimp only [observe]
    rw [hr.events, List.foldl_append, List.foldl_cons, List.foldl_nil, GroupCounts.members_cons]
    dsimp only [WatchEvent.count]
    rw [GroupCounts.number_join]
    omega
  · rw [hr.events]
    refine GroupCounts.finds_append (GroupCounts.finds_leavers hr.leaving fun g => ?_) ?_
    · rw [hnumber g]
      exact Nat.le_add_right _ _
    · exact trivial

theorem Exact.touch (h : l.Exact) (now : Span) (t : Touch) :
    ((l.touch now t).Exact ↔ ¬ l.Mixes now t) ∧ l.groups.Finds (t.apply now l.cache).1 := by
  cases t with
  | remove key reason =>
    obtain ⟨hexact, hfinds⟩ :=
      h.leave (Cache.isLeaving_remove _ _ _) (Cache.values_remove l.cache key reason)
    exact ⟨iff_of_true hexact id, hfinds⟩
  | purge =>
    obtain ⟨hexact, hfinds⟩ :=
      h.leave (Cache.isLeaving_purgeKeys _ _) (Cache.values_purgeKeys l.cache _)
    exact ⟨iff_of_true hexact id, hfinds⟩
  | set w ttl =>
    rcases Cache.set_cases now l.cache w.key w ttl with
      ⟨old, hget, hnone, hperm⟩ | ⟨hget, gone, rest, hplaced⟩
    · have hgroups : (l.touch now (.set w ttl)).groups = l.groups := by
        unfold WatchList.touch
        dsimp only [Touch.apply, observe]
        rw [hnone]
        rfl
      have hcount (g : String) : [w.group].countP (· == g) + l.population g =
          [old.group].countP (· == g) + (l.touch now (.set w ttl)).population g := by
        have hperm := hperm.countP_eq (·.group == g)
        rw [← GroupCounts.members, ← GroupCounts.members, GroupCounts.members_cons,
          GroupCounts.members_cons] at hperm
        exact hperm
      refine ⟨⟨?_, ?_⟩, ?_⟩
      · rintro hexact ⟨v, hv, hne⟩
        cases hv.symm.trans hget
        -- The group of the watch that is gone is counted once too often.
        have hold := hcount old.group
        have hafter := hexact old.group
        rw [hgroups, h old.group] at hafter
        rw [List.countP_singleton, List.countP_singleton] at hold
        simp only [beq_iff_eq, Ne.symm hne, if_false, if_true] at hold
        omega
      · intro hmix g
        have hsame : old.group = w.group := Decidable.not_not.1 fun hne => hmix ⟨old, hget, hne⟩
        have hg := hcount g
        rw [hsame] at hg
        rw [hgroups, h g]
        omega
      · dsimp only [Touch.apply]
        rw [hnone]
        trivial
    · obtain ⟨hexact, hfinds⟩ := h.come hplaced
      refine ⟨iff_of_true hexact ?_, hfinds⟩
      rintro ⟨old, hold, _⟩
      cases hold.symm.trans hget

/--
What putting a watch into the list does, by force or only if no other row has its key.
-/
def puts (l : WatchList) (now : Span) (w : Watch) (ttl : Option Span) (force : Bool) : List Touch :=
  if force then
    if (l.get? now w.key).any (·.id == w.id) then [] else [.remove w.key .superseded, .set w ttl]
  else
    match l.get? now w.key with
    | none => [.set w ttl]
    | some old => if old.id = w.id ∨ old.isDurable then [] else [.set w ttl]

theorem force_touched (l : WatchList) (now : Span) (w : Watch) (ttl : Option Span) :
    (l.force now w ttl).2.2 = l.touchAll now (l.puts now w ttl true) := by
  unfold force puts
  rw [if_pos rfl]
  split <;> rfl

theorem add_touched (l : WatchList) (now : Span) (w : Watch) (ttl : Option Span) :
    (l.add now w ttl).2.2 = l.touchAll now (l.puts now w ttl false) := by
  unfold add puts
  rw [if_neg Bool.false_ne_true]
  cases l.get? now w.key with
  | none => rfl
  | some old =>
    dsimp only
    by_cases hid : old.id = w.id
    · rw [if_pos hid, if_pos (Or.inl hid)]
      rfl
    · by_cases hd : old.isDurable = true
      · rw [if_neg hid, if_pos hd, if_pos (Or.inr hd)]
        rfl
      · rw [if_neg hid, if_neg hd, if_neg (not_or.2 ⟨hid, hd⟩)]
        rfl

end WatchList

namespace Manager

variable {m : Manager} {now : Now} {deed : Deed}

def touches (m : Manager) (now : Now) : Deed → List Touch
  | .mark mark =>
    let w := m.watchOf mark
    let ttl := if mark.duration = .zero then none else some mark.duration
    if (m.list.get? now.elapsed w.key).any Watch.isDurable then
      [.remove w.key .superseded, .set w ttl]
    else [.set w ttl]
  | .addRow w =>
    match w.lifetime now.wall with
    | .ended => []
    | .unbounded => m.list.puts now.elapsed w none w.isManual
    | .remaining left => m.list.puts now.elapsed w (some left) w.isManual
  | .addToList w ttl force => m.list.puts now.elapsed w ttl force
  | .remove w =>
    if (m.list.get? now.elapsed w.key).any (·.id == w.id) then [.remove w.key .deleted] else []
  | .purge => [.purge]
  | .receive _ => []

/--
The deed sets a watch in the place of a live one that belongs to another group.
-/
def Mixes (m : Manager) (now : Now) (deed : Deed) : Prop :=
  ∃ t ts, m.touches now deed = t :: ts ∧ m.list.Mixes now.elapsed t

theorem touches_cases (m : Manager) (now : Now) (deed : Deed) :
    m.touches now deed = [] ∨ (∃ t, m.touches now deed = [t]) ∨
      ∃ w ttl, m.touches now deed = [.remove w.key .superseded, .set w ttl] := by
  have hputs (w : Watch) (ttl : Option Span) (force : Bool) :
      m.list.puts now.elapsed w ttl force = [] ∨
        (∃ t, m.list.puts now.elapsed w ttl force = [t]) ∨
        ∃ v ttl', m.list.puts now.elapsed w ttl force =
          [.remove v.key .superseded, .set v ttl'] := by
    unfold WatchList.puts
    split
    · split
      · exact .inl rfl
      · exact .inr (.inr ⟨w, ttl, rfl⟩)
    · split
      · exact .inr (.inl ⟨_, rfl⟩)
      · split
        · exact .inl rfl
        · exact .inr (.inl ⟨_, rfl⟩)
  unfold touches
  cases deed with
  | mark mark =>
    dsimp only
    split
    · exact .inr (.inr ⟨_, _, rfl⟩)
    · exact .inr (.inl ⟨_, rfl⟩)
  | addRow w =>
    dsimp only
    split
    · exact .inl rfl
    · exact hputs _ _ _
    · exact hputs _ _ _
  | addToList w ttl force => exact hputs _ _ _
  | remove w =>
    dsimp only
    split
    · exact .inr (.inl ⟨_, rfl⟩)
    · exact .inl rfl
  | purge => exact .inr (.inl ⟨_, rfl⟩)
  | receive count => exact .inl rfl

end Manager

namespace Diary

variable {d : Diary} {now : Now}

theorem list_keep (m : Manager) (r : List Watch × WatchList) : (m.keep r).list = r.2 :=
  (retire_sent { m with list := r.2 } r.1).1

theorem list_step (d : Diary) (now : Now) (deed : Deed) :
    (d.step now deed).manager.list =
      d.manager.list.touchAll now.elapsed (d.manager.touches now deed) := by
  have hput (w : Watch) (ttl : Option Span) (force : Bool) :
      (if force then d.manager.list.force now.elapsed w ttl
        else d.manager.list.add now.elapsed w ttl).2.2 =
        d.manager.list.touchAll now.elapsed (d.manager.list.puts now.elapsed w ttl force) := by
    cases force with
    | true => exact WatchList.force_touched _ _ _ _
    | false => exact WatchList.add_touched _ _ _ _
  cases deed with
  | mark mark =>
    have hlist : (d.step now (.mark mark)).manager.list =
        (d.manager.list.quarantine now.elapsed (d.manager.watchOf mark)
          (if mark.duration = .zero then none else some mark.duration)).2 :=
      (follows_mark d now mark).list
    rw [hlist]
    unfold WatchList.quarantine
    dsimp only [Manager.touches]
    split <;> rfl
  | addRow w =>
    refine (list_keep d.manager (d.manager.list.addRow now w).2).trans ?_
    unfold WatchList.addRow
    dsimp only [Manager.touches]
    cases w.lifetime now.wall with
    | ended => rfl
    | unbounded => exact hput w none w.isManual
    | remaining left => exact hput w (some left) w.isManual
  | addToList w ttl force => exact (list_keep d.manager _).trans (hput w ttl force)
  | remove w =>
    refine (list_keep d.manager (d.manager.list.remove now.elapsed w).2).trans ?_
    unfold WatchList.remove
    dsimp only [Manager.touches]
    split <;> rfl
  | purge => exact list_keep d.manager (d.manager.list.purge now.elapsed).2
  | receive count => rfl

theorem exact_step (h : d.manager.list.Exact) (now : Now) (deed : Deed) :
    ((d.step now deed).manager.list.Exact ↔ ¬ d.manager.Mixes now deed) ∧
      d.manager.list.groups.Finds
        (d.manager.list.events now.elapsed (d.manager.touches now deed)) := by
  rw [list_step]
  rcases Manager.touches_cases d.manager now deed with ht | ⟨t, ht⟩ | ⟨w, ttl, ht⟩
  · refine ⟨iff_of_true ?_ ?_, ?_⟩
    · rw [ht]
      exact h
    · rintro ⟨t, ts, hcons, _⟩
      cases ht.symm.trans hcons
    · rw [ht]
      trivial
  · obtain ⟨hexact, hfinds⟩ := h.touch now.elapsed t
    rw [ht]
    refine ⟨hexact.trans (not_congr ⟨fun hmix => ⟨t, [], ht, hmix⟩, ?_⟩), ?_⟩
    · rintro ⟨u, us, hcons, hmix⟩
      cases ht.symm.trans hcons
      exact hmix
    · dsimp only [WatchList.events]
      rwa [List.append_nil]
  · -- What is in the way is removed first, so that the watch comes to a free key.
    obtain ⟨hremoved, hfinds⟩ := h.touch now.elapsed (.remove w.key .superseded)
    have hlist := hremoved.2 id
    obtain ⟨hset, hfinds'⟩ := hlist.touch now.elapsed (.set w ttl)
    rw [ht]
    refine ⟨iff_of_true ?_ ?_, ?_⟩
    · apply hset.2
      rintro ⟨old, hold, _⟩
      cases hold.symm.trans (Cache.get?_remove _ _ _ _)
    · rintro ⟨t, ts, hcons, hmix⟩
      cases ht.symm.trans hcons
      exact hmix
    · dsimp only [WatchList.events]
      rw [List.append_nil]
      exact GroupCounts.finds_append hfinds hfinds'

theorem positive_step (h : d.manager.list.groups.Positive) (now : Now) (deed : Deed) :
    (d.step now deed).manager.list.groups.Positive := by
  rw [list_step, WatchList.groups_touchAll]
  exact h.count _

theorem run_take_succ {deeds : List (Now × Deed)} {n : Nat} {x : Now × Deed}
    (h : deeds[n]? = some x) :
    d.run (deeds.take (n + 1)) = (d.run (deeds.take n)).step x.1 x.2 := by
  unfold run
  rw [List.take_add_one, h, List.foldl_append]
  rfl

/--
After each deed, the number that is counted for a group is that of its watches in the list, just if
no deed sets a watch in the place of a live one of another group. No group is ever counted as having
no watches, and as long as the numbers are right, whatever leaves the list finds its group.
-/
theorem active_eq_population_iff (s : Settings) (deeds : List (Now × Deed)) :
    let after (n : Nat) := ((ofSettings s).run (deeds.take n)).manager
    ((∀ n group, (after n).active group = (after n).list.population group) ↔
        ∀ n x, deeds[n]? = some x → ¬ (after n).Mixes x.1 x.2) ∧
      (∀ n, (after n).list.groups.Positive) ∧
      ∀ n x, deeds[n]? = some x → (after n).list.Exact →
        (after n).list.groups.Finds
          ((after n).list.events x.1.elapsed ((after n).touches x.1 x.2)) := by
  intro after
  have hsucc {n : Nat} {x : Now × Deed} (hx : deeds[n]? = some x) :
      after (n + 1) = (((ofSettings s).run (deeds.take n)).step x.1 x.2).manager :=
    congrArg manager (run_take_succ hx)
  have hlast {n : Nat} (hn : deeds[n]? = none) : after (n + 1) = after n := by
    have hlen := List.getElem?_eq_none_iff.1 hn
    dsimp only [after]
    rw [List.take_of_length_le hlen, List.take_of_length_le (Nat.le_succ_of_le hlen)]
  refine ⟨⟨fun h n x hx => ?_, fun h n => ?_⟩, fun n => ?_, fun n x _ hexact => ?_⟩
  · refine (exact_step (h n) x.1 x.2).1.1 ?_
    rw [← hsucc hx]
    exact h (n + 1)
  · induction n with
    | zero => exact fun group => rfl
    | succ n ih =>
      cases hx : deeds[n]? with
      | none => rw [hlast hx]; exact ih
      | some x =>
        rw [hsucc hx]
        exact (exact_step ih x.1 x.2).1.2 (h n x hx)
  · induction n with
    | zero => exact fun group h => nomatch h
    | succ n ih =>
      cases hx : deeds[n]? with
      | none => rw [hlast hx]; exact ih
      | some x =>
        rw [hsucc hx]
        exact positive_step ih x.1 x.2
  · exact (exact_step hexact x.1 x.2).2

/--
Queries of two groups are marked one after the other, and the groups and the texts make one key.
-/
def alikeMarks : List (Now × Deed) :=
  [("a", "b/c"), ("a/b", "c")].map fun x => (default, .mark {
    group := x.1, text := x.2, target := .exact, action := .kill, switchGroup := "",
    duration := .zero, start := default, cause := "slow" })

theorem not_active_eq_population_alikeMarks :
    ¬ ∀ (s : Settings) (deeds : List (Now × Deed)) (group : String),
      ((ofSettings s).run deeds).manager.active group =
        ((ofSettings s).run deeds).manager.list.population group := by
  intro h
  have hone : ((ofSettings .standard).run alikeMarks).manager.active "a" = 1 := by decide +kernel
  have hzero : ((ofSettings .standard).run alikeMarks).manager.list.population "a" = 0 := by
    decide +kernel
  rw [h, hzero] at hone
  cases hone

end Diary

end Runaway

end Steward
