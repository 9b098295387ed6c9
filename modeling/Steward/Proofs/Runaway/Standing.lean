import Mathlib.Logic.Function.Basic
import Steward.Proofs.Runaway.Isolation

/-!
This module contains the watches that stand: those that were put into the list of a manager and were
neither replaced nor removed since. A query sees a watch just as long as it stands and has not ended.
The list knows an end by the clock of its cache and a watch knows it by the wall clock, and the two
agree to the nanosecond.
-/

namespace Steward

universe u v

def Unless {α : Type u} (crowded : Bool) (a b : Option α) : Prop := a = b ∨ crowded = true ∧ a = none

namespace Unless

variable {α : Type u} {β : Type v} {x y : Bool} {a b c : Option α}

theorem of_eq (x : Bool) (h : a = b) : Unless x a b := .inl h

theorem trans (h : Unless x a b) (h' : Unless y b c) : Unless (y || x) a c := by
  rcases h with rfl | ⟨rfl, rfl⟩
  · rcases h' with rfl | ⟨rfl, rfl⟩
    · exact .inl rfl
    · exact .inr ⟨Bool.true_or x, rfl⟩
  · exact .inr ⟨Bool.or_true y, rfl⟩

theorem map (h : Unless x a b) (f : Option α → Option β) (hf : f none = none) :
    Unless x (f a) (f b) := by
  rcases h with rfl | ⟨rfl, rfl⟩
  · exact .inl rfl
  · exact .inr ⟨rfl, hf⟩

end Unless

theorem Span.add_zero (a : Span) : a.add .zero = a := rfl

theorem Moment.add_zero (a : Moment) : a.add .zero = a := congrArg Moment.mk (Int.add_zero _)

def Now.after (now : Now) (millis : Nat) : Now :=
  ⟨now.clock + millis, now.wall.add (.ofMillis millis)⟩

theorem Now.elapsed_after (now : Now) (millis : Nat) :
    (now.after millis).elapsed = now.elapsed.add (.ofMillis millis) :=
  congrArg Span.mk (Nat.add_mul _ _ _)

namespace Cache

variable {κ : Type u} {α : Type v} [Ord κ] {c : Cache κ α} {k : κ} {now : Span}

def Event.isCrowding : Event κ α → Bool
  | .left _ _ .capacityReached => true
  | _ => false

def live? (c : Cache κ α) (now : Span) (k : κ) : Option (Kept α) :=
  (c.kept? k).filter fun a => !a.isExpired now

theorem get?_eq_live? (c : Cache κ α) (now : Span) (k : κ) :
    c.get? now k = (c.live? now k).map (·.value) := get?_eq_kept? c now k

theorem live?_add (c : Cache κ α) (now later : Span) (k : κ) :
    c.live? (now.add later) k = (c.live? now k).filter fun a => !a.isExpired (now.add later) := by
  unfold live?
  rw [Option.filter_filter]
  congr
  funext a
  unfold Kept.isExpired
  cases a.expiry with
  | none => rfl
  | some expiry =>
    rw [Option.any_some, Option.any_some]
    by_cases hexpired : expiry ≤ now
    · have hlater : expiry ≤ now.add later := Nat.le_trans hexpired (Nat.le_add_right _ _)
      simp [hexpired, hlater]
    · simp [hexpired]

theorem filter_live? (c : Cache κ α) (now : Span) (k : κ) :
    ((c.live? now k).filter fun a => !a.isExpired now) = c.live? now k :=
  (c.live?_add now .zero k).symm

variable [DecidableEq κ] [Std.LawfulEqOrd κ]

theorem live?_forget (c : Cache κ α) (now : Span) (k : κ) (e : Entry α) (l : κ) :
    (c.forget k e).live? now l = if l = k then none else c.live? now l := by
  unfold live?
  rw [kept?_forget]
  split <;> rfl

omit [DecidableEq κ] [Std.LawfulEqOrd κ] in
theorem live?_of_get? {e : Entry α} (h : c.entries.get? k = some e) :
    c.live? now k = if e.isExpired now then none else some ⟨e.value, e.expiry⟩ := by
  unfold live? kept?
  rw [h, Option.map_some, Option.filter_some]
  unfold Kept.isExpired Entry.isExpired
  cases e.expiry.any (· ≤ now) <;> rfl

theorem live?_makeRoom (now : Span) (c : Cache κ α) (ks : List κ) (l : κ) :
    Unless ((c.makeRoom now ks).1.any Event.isCrowding) ((c.makeRoom now ks).2.live? now l)
      (c.live? now l) := by
  induction ks generalizing c with
  | nil => exact .of_eq _ rfl
  | cons k ks ih =>
    unfold makeRoom
    split
    · exact .of_eq _ rfl
    · split
      · exact ih c
      · next e he =>
        have hfirst : Unless (Event.left k e.value (e.reasonToLeave now)).isCrowding
            ((c.forget k e).live? now l) (c.live? now l) := by
          rw [live?_forget]
          split
          · next hl =>
            unfold Entry.reasonToLeave
            cases hexpired : e.isExpired now with
            | false => exact .inr ⟨rfl, rfl⟩
            | true =>
              rw [hl, live?_of_get? he, hexpired]
              exact .of_eq _ rfl
          · exact .of_eq _ rfl
        exact (ih (c.forget k e)).trans hfirst

theorem live?_remove (c : Cache κ α) (now : Span) (k : κ) (reason : Reason) (l : κ) :
    (c.remove k reason).2.2.live? now l = if l = k then none else c.live? now l := by
  unfold live?
  rw [kept?_remove]
  split <;> rfl

theorem live?_purge (c : Cache κ α) (now : Span) (l : κ) :
    (c.purge now).2.live? now l = c.live? now l := by
  refine Eq.trans ?_ (c.filter_live? now l)
  unfold live?
  rw [kept?_purge]

variable [Std.TransOrd κ]

theorem live?_store (c : Cache κ α) (now : Span) (k : κ) (e : Entry α) (l : κ) :
    (c.store k e).live? now l =
      if l = k then (some (Kept.mk e.value e.expiry)).filter fun a => !a.isExpired now
      else c.live? now l := by
  unfold live?
  rw [kept?_store]
  split <;> rfl

theorem live?_place (now : Span) (c : Cache κ α) (k : κ) (e : Entry α) (l : κ)
    (hstale : c.live? now k = none) :
    Unless ((c.place now k e).1.any Event.isCrowding) ((c.place now k e).2.live? now l)
      (if l = k then (some (Kept.mk e.value e.expiry)).filter fun a => !a.isExpired now
        else c.live? now l) := by
  have hroom (stale : List (Event κ α)) (c' : Cache κ α) (hc' : c'.live? now l = c.live? now l) :
      let x := c'.makeRoom now c'.order.values
      Unless ((stale ++ x.1 ++ [Event.came k e.value]).any Event.isCrowding)
        ((x.2.store k e).live? now l)
        (if l = k then (some (Kept.mk e.value e.expiry)).filter fun a => !a.isExpired now
          else c.live? now l) := by
    intro x
    rw [live?_store]
    split
    · exact .of_eq _ rfl
    · rcases live?_makeRoom now c' c'.order.values l with hlive | ⟨hcrowded, hnone⟩
      · exact .of_eq _ (hlive.trans hc')
      · refine .inr ⟨?_, hnone⟩
        rw [List.any_append, List.any_append, hcrowded, Bool.or_true, Bool.true_or]
  unfold place
  dsimp only
  split
  · apply hroom
    rw [live?_forget]
    split
    · next hl => rw [hl, hstale]
    · rfl
  · exact hroom [] c rfl

theorem live?_set (c : Cache κ α) (now : Span) (k : κ) (a : α) (ttl : Option Span) (l : κ) :
    Unless ((c.set now k a ttl).2.1.any Event.isCrowding) ((c.set now k a ttl).2.2.live? now l)
      (if l = k then (some (Kept.mk a (ttl.map now.add))).filter fun a => !a.isExpired now
        else c.live? now l) := by
  unfold set
  dsimp only
  split
  · unfold replace
    apply Unless.of_eq
    rw [live?_store, live?_forget]
    split
    · rfl
    · rfl
  · next hnone =>
    apply live?_place now { c with lastSeq := c.lastSeq + 1 }
    have hget : (c.get? now k) = none := by
      unfold get?
      rw [hnone]
      rfl
    rw [get?_eq_live?] at hget
    exact Option.map_eq_none_iff.1 hget

end Cache

namespace Runaway

open Cache (Kept)

/--
The watch comes into the list, and is not there already or kept out by another one.
-/
def Outcome.isIn : Outcome → Bool
  | .inserted | .replaced => true
  | .unchanged | .stale => false

namespace Watch

def left? (w : Watch) (now : Moment) : Option Span :=
  w.stop.map fun stop => ⟨(stop.nanos - now.nanos).toNat⟩

/--
A watch as it is kept when its entry expires at its end.
-/
def entry (w : Watch) (now : Now) : Kept Watch := ⟨w, (w.left? now.wall).map now.elapsed.add⟩

def isRunning (w : Watch) (now : Moment) : Bool := w.lifetime now ≠ .ended

variable {w : Watch} {now : Now}

theorem isExpired_entry (w : Watch) (now : Now) (later : Span) :
    (w.entry now).isExpired (now.elapsed.add later) = !w.isRunning (now.wall.add later) := by
  unfold entry left? Kept.isExpired isRunning lifetime
  cases w.stop with
  | none => rfl
  | some stop =>
    have hiff : now.elapsed.add ⟨(stop.nanos - now.wall.nanos).toNat⟩ ≤ now.elapsed.add later ↔
        ¬ now.wall.add later < stop := by
      show now.elapsed.nanos + (stop.nanos - now.wall.nanos).toNat ≤
        now.elapsed.nanos + later.nanos ↔ ¬ now.wall.nanos + later.nanos < stop.nanos
      omega
    rw [Option.map_some, Option.map_some, Option.any_some]
    dsimp only
    split
    · next hlt => simp [hiff, hlt]
    · next hlt => simp [hiff, hlt]

theorem left?_add {shown : Span} {wall : Moment} {d : Span} (h : w.isRunning (wall.add d)) :
    (w.left? (wall.add d)).map (shown.add d).add = (w.left? wall).map shown.add := by
  unfold left?
  unfold isRunning lifetime at h
  cases hstop : w.stop with
  | none => rfl
  | some stop =>
    rw [hstop] at h
    dsimp only at h
    split at h
    · next hlt =>
      have hlt : wall.nanos + d.nanos < stop.nanos := hlt
      apply congrArg fun nanos => some (Span.mk nanos)
      show shown.nanos + d.nanos + (stop.nanos - (wall.nanos + d.nanos)).toNat =
        shown.nanos + (stop.nanos - wall.nanos).toNat
      omega
    · cases h

theorem isRunning_of_add {wall : Moment} {d : Span} (h : w.isRunning (wall.add d)) :
    w.isRunning wall := by
  unfold isRunning lifetime at h ⊢
  cases hstop : w.stop with
  | none => rfl
  | some stop =>
    rw [hstop] at h
    have hlt : wall.nanos + d.nanos < stop.nanos := by
      by_contra hge
      dsimp only at h
      have hnot : ¬ wall.add d < stop := hge
      simp [hnot] at h
    have hnow : wall < stop := by
      show wall.nanos < stop.nanos
      omega
    simp [hnow]

theorem entry_after {millis : Nat} (h : w.isRunning (now.after millis).wall) :
    w.entry (now.after millis) = w.entry now := by
  unfold entry
  rw [Now.elapsed_after]
  exact congrArg (Kept.mk w) (left?_add h)

variable {ttl : Option Span} {left : Span}

theorem entry_of_stop (h : w.stop = ttl.map now.wall.add) :
    w.entry now = ⟨w, ttl.map now.elapsed.add⟩ := by
  unfold entry left?
  rw [h]
  cases ttl with
  | none => rfl
  | some d =>
    apply congrArg fun nanos => Kept.mk w (some (now.elapsed.add ⟨nanos⟩))
    show (now.wall.nanos + d.nanos - now.wall.nanos).toNat = d.nanos
    omega

theorem isRunning_of_stop (h : w.stop = ttl.map now.wall.add) (httl : ttl ≠ some .zero) :
    w.isRunning now.wall = true := by
  unfold isRunning lifetime
  rw [h]
  cases ttl with
  | none => rfl
  | some d =>
    have hpos : d.nanos ≠ 0 := fun hzero => httl (congrArg some (congrArg Span.mk hzero))
    have hlt : now.wall < now.wall.add d := by
      show now.wall.nanos < now.wall.nanos + d.nanos
      omega
    apply decide_eq_true
    dsimp only [Option.map_some]
    rw [if_pos hlt]
    simp

theorem stop_of_unbounded {now : Moment} (h : w.lifetime now = .unbounded) : w.stop = none := by
  unfold lifetime at h
  split at h
  · next hnone => exact hnone
  · split at h <;> cases h

theorem stop_of_remaining {now : Moment} (h : w.lifetime now = .remaining left) :
    w.stop = some (now.add left) ∧ left ≠ .zero := by
  unfold lifetime at h
  split at h
  · cases h
  · next stop hstop =>
    split at h
    · next hlt =>
      have hlt : now.nanos < stop.nanos := hlt
      cases h
      constructor
      · rw [hstop]
        apply congrArg fun nanos => some (Moment.mk nanos)
        show stop.nanos = now.nanos + ((stop.nanos - now.nanos).toNat : Nat)
        omega
      · intro hzero
        have hnanos : (stop.nanos - now.nanos).toNat = 0 := congrArg Span.nanos hzero
        omega
    · cases h

end Watch

namespace Touch

variable {l : WatchList} {now : Span} {t : Touch} {ts : List Touch} {key : String} {x : Bool}
  {a b : Option (Kept Watch)}

def Lasts (now : Span) : Touch → Prop
  | .set w ttl => (Kept.mk w (ttl.map now.add)).isExpired now = false
  | .remove _ _ | .purge => True

theorem mend_unless (h : Unless x a b) (now : Span) (key : String) (t : Touch) :
    Unless x (t.mend now key a) (t.mend now key b) := by
  unfold mend
  cases t with
  | set w ttl =>
    dsimp only
    split
    · exact .of_eq x rfl
    · exact h
  | remove key' reason =>
    dsimp only
    split
    · exact .of_eq x rfl
    · exact h
  | purge => exact h.map (Option.filter fun a => !a.isExpired now) rfl

theorem mendAll_unless (h : Unless x a b) (now : Span) (key : String) (ts : List Touch) :
    Unless x (mendAll now key a ts) (mendAll now key b ts) := by
  unfold mendAll
  induction ts generalizing a b with
  | nil => exact h
  | cons t ts ih => exact ih (mend_unless h now key t)

end Touch

theorem Touch.lasts_set {w : Watch} {now : Now} {ttl : Option Span}
    (hstop : w.stop = ttl.map now.wall.add) (httl : ttl ≠ some .zero) :
    (Touch.set w ttl).Lasts now.elapsed := by
  have hexpired := Watch.isExpired_entry w now .zero
  rw [Span.add_zero, Moment.add_zero, Watch.isRunning_of_stop hstop httl,
    Watch.entry_of_stop hstop] at hexpired
  exact hexpired

namespace WatchList

variable {l : WatchList} {now : Span} {t : Touch} {ts : List Touch}

def live? (l : WatchList) (now : Span) (key : String) : Option (Kept Watch) := l.cache.live? now key

theorem get?_eq_live? (l : WatchList) (now : Span) (key : String) :
    l.get? now key = (l.live? now key).map (·.value) := Cache.get?_eq_live? _ _ _

/--
Does a live watch leave while these things are done, because there is no room for it?
-/
def crowds (now : Span) (l : WatchList) (ts : List Touch) : Bool :=
  (l.events now ts).any Cache.Event.isCrowding

theorem live?_touch (ht : t.Lasts now) (l : WatchList) (key : String) :
    Unless ((t.apply now l.cache).1.any Cache.Event.isCrowding) ((l.touch now t).live? now key)
      (t.mend now key (l.live? now key)) := by
  cases t with
  | set w ttl =>
    have hset := Cache.live?_set l.cache now w.key w ttl key
    have hlasts : (Kept.mk w (ttl.map now.add)).isExpired now = false := ht
    rw [Option.filter_some, hlasts] at hset
    exact hset
  | remove key' reason => exact .of_eq _ (Cache.live?_remove _ _ _ _ _)
  | purge =>
    apply Unless.of_eq
    exact (Cache.live?_purge l.cache now key).trans (Cache.filter_live? _ _ _).symm

theorem live?_touchAll (hts : ∀ t ∈ ts, t.Lasts now) (l : WatchList) (key : String) :
    Unless (l.crowds now ts) ((l.touchAll now ts).live? now key)
      (Touch.mendAll now key (l.live? now key) ts) := by
  induction ts generalizing l with
  | nil => exact .of_eq _ rfl
  | cons t ts ih =>
    obtain ⟨ht, hts⟩ := List.forall_mem_cons.1 hts
    have hfirst := Touch.mendAll_unless (live?_touch ht l key) now key ts
    have hboth := (ih hts (l.touch now t)).trans hfirst
    unfold crowds
    dsimp only [events]
    rw [List.any_append]
    exact hboth

section Puts

variable {w : Watch} {ttl : Option Span} {force : Bool}

theorem lasts_puts (h : (Kept.mk w (ttl.map now.add)).isExpired now = false) (l : WatchList)
    (force : Bool) : ∀ t ∈ l.puts now w ttl force, t.Lasts now := by
  have hset : ∀ t ∈ [Touch.set w ttl], t.Lasts now := List.forall_mem_singleton.2 h
  have hboth : ∀ t ∈ [Touch.remove w.key .superseded, .set w ttl], t.Lasts now :=
    List.forall_mem_cons.2 ⟨trivial, hset⟩
  have hnone : ∀ t ∈ ([] : List Touch), t.Lasts now := fun _ ht => absurd ht List.not_mem_nil
  unfold puts
  split
  · split
    · exact hnone
    · exact hboth
  · split
    · exact hset
    · split
      · exact hnone
      · exact hset

theorem mendAll_puts (l : WatchList) (now : Span) (w : Watch) (ttl : Option Span) (force : Bool)
    (a : Option (Kept Watch)) :
    Touch.mendAll now w.key a (l.puts now w ttl force) =
      if (if force then l.force now w ttl else l.add now w ttl).1.isIn then
        some ⟨w, ttl.map now.add⟩
      else a := by
  have hset (a : Option (Kept Watch)) :
      Touch.mendAll now w.key a [.set w ttl] = some ⟨w, ttl.map now.add⟩ := if_pos rfl
  unfold puts
  cases force with
  | true =>
    rw [if_pos rfl, if_pos rfl]
    unfold WatchList.force
    split
    · rfl
    · dsimp only
      have hin (existed : Bool) :
          (if existed then Outcome.replaced else .inserted).isIn = true := by
        cases existed <;> rfl
      rw [hin, if_pos rfl]
      exact hset _
  | false =>
    rw [if_neg Bool.false_ne_true, if_neg Bool.false_ne_true]
    unfold add
    cases l.get? now w.key with
    | none => exact hset a
    | some old =>
      dsimp only
      by_cases hid : old.id = w.id
      · simp only [hid, true_or, if_true]
        rfl
      · by_cases hd : old.isDurable = true
        · simp only [hid, hd, or_true, if_true, if_false]
          rfl
        · simp only [hid, hd, if_false]
          exact hset a

end Puts

end WatchList

structure Vigil where
  now : Now
  manager : Manager
  /-- Under each key the watch that came in last and was not removed since. -/
  standing : String → Option Watch
  /-- Did a live watch leave because there was no room for it? -/
  crowded : Bool

namespace Vigil

inductive Act where
  /-- A query is quarantined from now on. -/
  | mark (mark : Mark)
  | add (w : Watch)
  | remove (w : Watch)
  | purge
  /-- Milliseconds pass on both clocks. -/
  | pass (millis : Nat)

def ofSettings (s : Settings) (now : Now) : Vigil := ⟨now, .ofSettings s, fun _ => none, false⟩

/--
The vigil after a deed, when the manager became another one.
-/
def note (v : Vigil) (deed : Deed) (manager : Manager) (standing : String → Option Watch) :
    Vigil where
  now := v.now
  manager := manager
  standing := standing
  crowded := v.crowded || v.manager.list.crowds v.now.elapsed (v.manager.touches v.now deed)

def step (v : Vigil) : Act → Vigil
  | .mark mark =>
    let mark := { mark with start := v.now.wall }
    let w := v.manager.watchOf mark
    v.note (.mark mark) (v.manager.markQuarantine v.now mark)
      (Function.update v.standing w.key (some w))
  | .add w =>
    let (outcome, manager) := v.manager.addWatch v.now w
    v.note (.addRow w) manager
      (if outcome.isIn then Function.update v.standing w.key (some w) else v.standing)
  | .remove w =>
    let (wasThere, manager) := v.manager.removeWatch v.now w
    v.note (.remove w) manager
      (if wasThere then Function.update v.standing w.key none else v.standing)
  | .purge => v.note .purge (v.manager.purge v.now).2 v.standing
  | .pass millis => { v with now := v.now.after millis }

def run (v : Vigil) (acts : List Act) : Vigil := acts.foldl step v

variable {v : Vigil} {w : Watch} {deed : Deed} {m : Manager} {standing : String → Option Watch}
  {key : String}

/--
What is to be kept of the watch that stands under a key.
-/
def due (now : Now) (w : Option Watch) : Option (Kept Watch) :=
  (w.filter (·.isRunning now.wall)).map (·.entry now)

/--
The list keeps just the watches that stand and run, or fewer if there was no room for one of them.
-/
def Faithful (v : Vigil) : Prop :=
  ∀ key, Unless v.crowded (v.manager.list.live? v.now.elapsed key) (due v.now (v.standing key))

theorem Faithful.note (h : ∀ key, Unless v.crowded
      (Touch.mendAll v.now.elapsed key (v.manager.list.live? v.now.elapsed key)
        (v.manager.touches v.now deed)) (due v.now (standing key)))
    (hlasts : ∀ t ∈ v.manager.touches v.now deed, t.Lasts v.now.elapsed)
    (hlist : m.list = v.manager.list.touchAll v.now.elapsed (v.manager.touches v.now deed)) :
    (v.note deed m standing).Faithful := by
  intro key
  have htouch := WatchList.live?_touchAll hlasts v.manager.list key
  rw [← hlist] at htouch
  exact htouch.trans (h key)

theorem Faithful.note_key {w : Option Watch} (h : v.Faithful) (hdeed : deed.key? = some key)
    (hown : Unless v.crowded
      (Touch.mendAll v.now.elapsed key (v.manager.list.live? v.now.elapsed key)
        (v.manager.touches v.now deed)) (due v.now w))
    (hlasts : ∀ t ∈ v.manager.touches v.now deed, t.Lasts v.now.elapsed)
    (hlist : m.list = v.manager.list.touchAll v.now.elapsed (v.manager.touches v.now deed)) :
    (v.note deed m (Function.update v.standing key w)).Faithful := by
  refine Faithful.note (fun k => ?_) hlasts hlist
  by_cases hk : k = key
  · rw [hk, Function.update_self]
    exact hown
  · rw [Function.update_of_ne hk,
      Touch.mendAll_of_ne (Manager.makes_touches _ _ _) hdeed (Ne.symm hk)]
    exact h k

theorem due_some {ttl : Option Span} (hstop : w.stop = ttl.map v.now.wall.add)
    (httl : ttl ≠ some .zero) : due v.now (some w) = some ⟨w, ttl.map v.now.elapsed.add⟩ := by
  unfold due
  rw [Option.filter_some, if_pos (Watch.isRunning_of_stop hstop httl), Option.map_some,
    Watch.entry_of_stop hstop]

theorem Faithful.mark (h : v.Faithful) (mark : Mark) : (v.step (.mark mark)).Faithful := by
  let x : Mark := { mark with start := v.now.wall }
  let ttl := if mark.duration = .zero then none else some mark.duration
  have hstop : (v.manager.watchOf x).stop = ttl.map v.now.wall.add := by
    unfold Manager.watchOf
    dsimp only [ttl]
    split <;> rfl
  have httl : ttl ≠ some .zero := by
    dsimp only [ttl]
    split
    · simp
    · next hlong => simpa using hlong
  have hset := Touch.lasts_set hstop httl
  have hdue := due_some hstop httl
  have hlist : (v.manager.markQuarantine v.now x).list =
      v.manager.list.touchAll v.now.elapsed (v.manager.touches v.now (.mark x)) :=
    Diary.list_step ⟨v.manager, [], [], [], [], []⟩ v.now (.mark x)
  refine h.note_key rfl ?_ ?_ hlist
  -- A mark puts its watch there whatever was kept before, so the cases of `touches` agree.
  · apply Unless.of_eq
    rw [hdue]
    unfold Manager.touches
    dsimp only
    split
    · exact if_pos rfl
    · exact if_pos rfl
  · unfold Manager.touches
    dsimp only
    split
    · exact List.forall_mem_cons.2 ⟨trivial, List.forall_mem_singleton.2 hset⟩
    · exact List.forall_mem_singleton.2 hset

theorem Faithful.put {ttl : Option Span} {r : Outcome × List Watch × WatchList} (h : v.Faithful)
    (hstop : w.stop = ttl.map v.now.wall.add) (httl : ttl ≠ some .zero)
    (hr : (if w.isManual then v.manager.list.force v.now.elapsed w ttl
      else v.manager.list.add v.now.elapsed w ttl) = r)
    (htouches : v.manager.touches v.now (.addRow w) =
      v.manager.list.puts v.now.elapsed w ttl w.isManual)
    (hlist : m.list =
      v.manager.list.touchAll v.now.elapsed (v.manager.touches v.now (.addRow w))) :
    (v.note (.addRow w) m
      (if r.1.isIn then Function.update v.standing w.key (some w) else v.standing)).Faithful := by
  have hset := Touch.lasts_set hstop httl
  have hmend := WatchList.mendAll_puts v.manager.list v.now.elapsed w ttl w.isManual
  rw [hr, ← htouches] at hmend
  have hlasts := WatchList.lasts_puts hset v.manager.list w.isManual
  rw [← htouches] at hlasts
  have hsame : (if r.1.isIn then Function.update v.standing w.key (some w) else v.standing) =
      Function.update v.standing w.key (if r.1.isIn then some w else v.standing w.key) := by
    split
    · rfl
    · rw [Function.update_eq_self]
  -- So only the key of the row is in question, whether it came in or not.
  rw [hsame]
  refine h.note_key rfl ?_ hlasts hlist
  rw [hmend]
  split
  · exact .of_eq _ (due_some hstop httl).symm
  · exact h w.key

theorem Faithful.add (h : v.Faithful) (w : Watch) : (v.step (.add w)).Faithful := by
  have hlist : (v.manager.addWatch v.now w).2.list =
      v.manager.list.touchAll v.now.elapsed (v.manager.touches v.now (.addRow w)) :=
    Diary.list_step ⟨v.manager, [], [], [], [], []⟩ v.now (.addRow w)
  unfold step
  dsimp only
  have houtcome : (v.manager.addWatch v.now w).1 = (v.manager.list.addRow v.now w).1 := rfl
  rw [houtcome]
  cases hlife : w.lifetime v.now.wall with
  | ended =>
    have htouches : v.manager.touches v.now (.addRow w) = [] := by
      unfold Manager.touches
      dsimp only
      rw [hlife]
    have hstale : (v.manager.list.addRow v.now w).1 = .stale := by
      unfold WatchList.addRow
      rw [hlife]
    rw [hstale]
    apply Faithful.note _ _ hlist
    · rw [htouches]
      exact h
    · rw [htouches]
      exact fun _ ht => absurd ht List.not_mem_nil
  | unbounded =>
    have hstop : w.stop = (none : Option Span).map v.now.wall.add :=
      Watch.stop_of_unbounded hlife
    refine h.put hstop (by simp) ?_ ?_ hlist
    · unfold WatchList.addRow
      rw [hlife]
    · unfold Manager.touches
      dsimp only
      rw [hlife]
  | remaining left =>
    obtain ⟨hend, hleft⟩ := Watch.stop_of_remaining hlife
    have hstop : w.stop = (some left).map v.now.wall.add := hend
    refine h.put hstop (by simpa using hleft) ?_ ?_ hlist
    · unfold WatchList.addRow
      rw [hlife]
    · unfold Manager.touches
      dsimp only
      rw [hlife]

theorem Faithful.remove (h : v.Faithful) (w : Watch) : (v.step (.remove w)).Faithful := by
  have hlist : (v.manager.removeWatch v.now w).2.list =
      v.manager.list.touchAll v.now.elapsed (v.manager.touches v.now (.remove w)) :=
    Diary.list_step ⟨v.manager, [], [], [], [], []⟩ v.now (.remove w)
  unfold step
  dsimp only
  have hremoved : (v.manager.removeWatch v.now w).1 = (v.manager.list.remove v.now.elapsed w).1 := rfl
  rw [hremoved]
  unfold WatchList.remove
  by_cases hsame : (v.manager.list.get? v.now.elapsed w.key).any (·.id == w.id) = true
  · have htouches : v.manager.touches v.now (.remove w) = [.remove w.key .deleted] := if_pos hsame
    rw [if_pos hsame]
    refine h.note_key rfl ?_ ?_ hlist
    · rw [htouches]
      exact .of_eq _ (if_pos rfl)
    · rw [htouches]
      exact List.forall_mem_singleton.2 trivial
  · have htouches : v.manager.touches v.now (.remove w) = [] := if_neg hsame
    rw [if_neg hsame]
    apply Faithful.note _ _ hlist
    · rw [htouches]
      exact h
    · rw [htouches]
      exact fun _ ht => absurd ht List.not_mem_nil

theorem Faithful.purge (h : v.Faithful) : (v.step .purge).Faithful := by
  refine Faithful.note (fun key => ?_) (List.forall_mem_singleton.2 trivial)
    (Diary.list_step ⟨v.manager, [], [], [], [], []⟩ v.now .purge)
  have hmend : Touch.mendAll v.now.elapsed key (v.manager.list.live? v.now.elapsed key) [.purge] =
      v.manager.list.live? v.now.elapsed key := Cache.filter_live? _ _ _
  have htouches : v.manager.touches v.now .purge = [.purge] := rfl
  rw [htouches, hmend]
  exact h key

theorem filter_due (now : Now) (later : Span) (w : Option Watch) :
    ((due now w).filter fun a => !a.isExpired (now.elapsed.add later)) =
      (w.filter (·.isRunning (now.wall.add later))).map (·.entry now) := by
  unfold due
  cases w with
  | none => rfl
  | some w =>
    have hexpired := w.isExpired_entry now later
    rw [Option.filter_some, Option.filter_some]
    cases hrunning : w.isRunning (now.wall.add later) with
    | true =>
      rw [hrunning] at hexpired
      rw [if_pos (Watch.isRunning_of_add hrunning), Option.map_some, Option.filter_some, hexpired]
      rfl
    | false =>
      rw [hrunning] at hexpired
      split
      · rw [Option.map_some, Option.filter_some, hexpired]
        rfl
      · rfl

theorem due_after (now : Now) (millis : Nat) (w : Option Watch) :
    due (now.after millis) w =
      (due now w).filter fun a => !a.isExpired (now.after millis).elapsed := by
  rw [Now.elapsed_after, filter_due]
  unfold due
  apply Option.map_congr
  intro w hw
  exact Watch.entry_after (Option.filter_eq_some_iff.1 hw).2

theorem Faithful.pass (h : v.Faithful) (millis : Nat) : (v.step (.pass millis)).Faithful := by
  intro key
  have hlive : v.manager.list.live? (v.now.after millis).elapsed key =
      (v.manager.list.live? v.now.elapsed key).filter
        fun a => !a.isExpired (v.now.after millis).elapsed := by
    rw [Now.elapsed_after]
    exact Cache.live?_add _ _ _ _
  have hlater := (h key).map
    (Option.filter fun a => !a.isExpired (v.now.after millis).elapsed) rfl
  rw [← hlive, ← due_after] at hlater
  exact hlater

theorem Faithful.step (h : v.Faithful) (act : Act) : (v.step act).Faithful := by
  cases act with
  | mark mark => exact h.mark mark
  | add w => exact h.add w
  | remove w => exact h.remove w
  | purge => exact h.purge
  | pass millis => exact h.pass millis

theorem faithful_run (s : Settings) (now : Now) (acts : List Act) :
    ((ofSettings s now).run acts).Faithful := by
  apply List.foldlRecOn (motive := Faithful)
  · exact fun _ => .of_eq _ rfl
  · exact fun v hv act _ => hv.step act

/--
After every run a query sees, now and at any later moment, at most the watch that stands for its
text, and only while it has not ended. As long as no live watch had to make room, it does see it.
-/
theorem sees_standing (s : Settings) (now : Now) (acts : List Act) (group text : String) :
    let v := (ofSettings s now).run acts
    let seen (later : Span) := v.manager.list.watch? (v.now.elapsed.add later) group text
    let Stands (later : Span) (w : Watch) := v.standing (Watch.keyOf group text) = some w ∧
      w.lifetime (v.now.wall.add later) ≠ .ended
    seen .zero = v.manager.watch? v.now group text ∧
      ∀ later w, (seen later = some w → Stands later w) ∧
        (v.crowded = false → Stands later w → seen later = some w) := by
  intro v seen Stands
  have hseen (later : Span) : Unless v.crowded (seen later)
      ((v.standing (Watch.keyOf group text)).filter (·.isRunning (v.now.wall.add later))) := by
    have hkept := (faithful_run s now acts (Watch.keyOf group text)).map
      (fun a => (a.filter fun a => !a.isExpired (v.now.elapsed.add later)).map (·.value)) rfl
    rw [filter_due, Option.map_map] at hkept
    have hvalue : ((·.value) ∘ (·.entry v.now) : Watch → Watch) = fun w => w := rfl
    rw [hvalue, Option.map_id'] at hkept
    have hlater : seen later = _ := WatchList.get?_eq_live? _ _ _
    rw [hlater]
    unfold WatchList.live?
    rw [Cache.live?_add]
    exact hkept
  have hstands (later : Span) (w : Watch) : Stands later w ↔
      (v.standing (Watch.keyOf group text)).filter (·.isRunning (v.now.wall.add later)) = some w := by
    rw [Option.filter_eq_some_iff]
    unfold Watch.isRunning
    rw [decide_eq_true_iff]
  have hpresent : seen .zero = v.manager.watch? v.now group text := by
    dsimp only [seen]
    rw [Span.add_zero]
    rfl
  refine ⟨hpresent, fun later w => ⟨fun hw => ?_, fun hroom hw => ?_⟩⟩
  · rw [hstands]
    rcases hseen later with hsame | ⟨_, hnone⟩
    · rw [← hsame, hw]
    · cases hnone.symm.trans hw
  · rcases hseen later with hsame | ⟨hcrowded, _⟩
    · rw [hsame]
      exact (hstands later w).1 hw
    · cases hroom.symm.trans hcrowded

def twoMarks : List Act := [markOf "a" (.ofMillis 5), markOf "b" .zero, .purge, .pass 4]
where
  markOf (text : String) (duration : Span) : Act := .mark {
    group := "g", text, target := .exact, action := .kill, switchGroup := "", duration
    start := default, cause := "slow" }

theorem sees_standing_twoMarks :
    let v := (ofSettings .standard default).run twoMarks
    let seen (later : Span) (text : String) :=
      v.manager.list.watch? (v.now.elapsed.add later) "g" text
    (∃ w, v.standing "g/a" = some w ∧ seen .zero "a" = some w) ∧
      seen (.ofMillis 1) "a" = none ∧
      ∃ w, v.standing "g/b" = some w ∧ seen (.ofMillis 1) "b" = some w := by
  have hroom : ((ofSettings .standard default).run twoMarks).crowded = false := by decide +kernel
  obtain ⟨_, ha⟩ := sees_standing .standard default twoMarks "g" "a"
  obtain ⟨_, hb⟩ := sees_standing .standard default twoMarks "g" "b"
  refine ⟨⟨_, rfl, (ha _ _).2 hroom ⟨rfl, ?_⟩⟩, ?_, _, rfl, (hb _ _).2 hroom ⟨rfl, ?_⟩⟩
  · decide +kernel
  · apply Option.eq_none_iff_forall_ne_some.2
    intro w hw
    obtain ⟨hstands, hlife⟩ := (ha _ w).1 hw
    cases hstands
    revert hlife
    decide +kernel
  · decide +kernel

end Vigil

end Runaway

end Steward
