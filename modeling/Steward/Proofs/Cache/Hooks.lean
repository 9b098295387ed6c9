import Steward.Proofs.Cache.Refinement

/-!
This module contains what the observer of a cache hears about a key. Its entries come and leave by
turns, so that whoever counts them knows whether the key has an entry; and what leaves is what the key
was set to last.
-/

namespace Steward

universe u v

open Roll (Item)

namespace Cache

section Events

variable {κ : Type u} {α : Type v}

def Event.key : Event κ α → κ
  | .came k _ => k
  | .left k _ _ => k

def Event.isArrival : Event κ α → Bool
  | .came _ _ => true
  | .left _ _ _ => false

/--
The entries of a key come and leave by turns. The flag says whether the last one that came is still
there.
-/
inductive ByTurns (k : κ) : List (Event κ α) → Bool → Prop where
  | silent : ByTurns k [] false
  | came {events : List (Event κ α)} (h : ByTurns k events false) (a : α) :
    ByTurns k (events ++ [.came k a]) true
  | left {events : List (Event κ α)} (h : ByTurns k events true) (a : α) (reason : Reason) :
    ByTurns k (events ++ [.left k a reason]) false

theorem ByTurns.balance {k : κ} {events : List (Event κ α)} {flag : Bool}
    (h : ByTurns k events flag) :
    (events.countP (·.isArrival) : Int) - events.countP (!·.isArrival) = if flag then 1 else 0 := by
  induction h with
  | silent => rfl
  | came h a ih =>
    rw [List.countP_append, List.countP_append]
    have hcame : List.countP (fun ev => ev.isArrival) [Event.came k a] = 1 := rfl
    have hleft : List.countP (fun ev => !ev.isArrival) [Event.came k a] = 0 := rfl
    rw [hcame, hleft, if_pos rfl]
    rw [if_neg Bool.false_ne_true] at ih
    omega
  | left h a reason ih =>
    rw [List.countP_append, List.countP_append]
    have hcame : List.countP (fun ev => ev.isArrival) [Event.left k a reason] = 0 := rfl
    have hleft : List.countP (fun ev => !ev.isArrival) [Event.left k a reason] = 1 := rfl
    rw [hcame, hleft, if_neg Bool.false_ne_true]
    rw [if_pos rfl] at ih
    omega

inductive Departs : Option (Item κ α) → List (Event κ α) → Option (Item κ α) → Prop where
  | stays (i? : Option (Item κ α)) : Departs i? [] i?
  | leaves (i : Item κ α) (reason : Reason) : Departs (some i) [i.leave reason] none

theorem Departs.trans {x y z : Option (Item κ α)} {es fs : List (Event κ α)} (h : Departs x es y)
    (h' : Departs y fs z) : Departs x (es ++ fs) z := by
  cases h with
  | stays => exact h'
  | leaves i reason =>
    cases h' with
    | stays => exact .leaves i reason

theorem Departs.eq_nil {y : Option (Item κ α)} {es : List (Event κ α)} (h : Departs none es y) :
    es = [] := by
  cases h
  rfl

theorem Departs.eq_some {x : Option (Item κ α)} {es : List (Event κ α)} {i : Item κ α}
    (h : Departs x es (some i)) : x = some i := by
  cases h
  rfl

theorem Departs.leave_of_mem {x y : Option (Item κ α)} {es : List (Event κ α)} {ev : Event κ α}
    (h : Departs x es y) (hev : ev ∈ es) : ∃ i reason, x = some i ∧ ev = i.leave reason := by
  cases h with
  | stays => cases hev
  | leaves i reason => exact ⟨i, reason, rfl, List.mem_singleton.1 hev⟩

theorem Departs.byTurns {x y : Option (Item κ α)} {es fs : List (Event κ α)} {k : κ}
    (h : Departs x fs y) (hkey : ∀ i, x = some i → i.key = k) (hes : ByTurns k es x.isSome) :
    ByTurns k (es ++ fs) y.isSome := by
  cases h with
  | stays =>
    rw [List.append_nil]
    exact hes
  | leaves i reason =>
    cases hkey i rfl
    exact hes.left i.value reason

end Events

section Keys

variable {κ : Type u} {α : Type v} [DecidableEq κ]

def about (k : κ) (events : List (Event κ α)) : List (Event κ α) := events.filter (·.key = k)

theorem about_append (k : κ) (es fs : List (Event κ α)) :
    about k (es ++ fs) = about k es ++ about k fs := List.filter_append ..

theorem about_cons_of_eq {k : κ} {ev : Event κ α} (h : ev.key = k) (events : List (Event κ α)) :
    about k (ev :: events) = ev :: about k events :=
  List.filter_cons_of_pos (decide_eq_true h)

theorem about_cons_of_ne {k : κ} {ev : Event κ α} (h : ev.key ≠ k) (events : List (Event κ α)) :
    about k (ev :: events) = about k events :=
  List.filter_cons_of_neg (by simpa using h)

def Call.sets? (k : κ) : Call κ α → Option α
  | .set l a _ => if l = k then some a else none
  | _ => none

def Call.wants (k : κ) : Call κ α → Bool
  | .get l => l = k
  | .remove l _ => l = k
  | .delete l => l = k
  | _ => false

def lastSet? (k : κ) (calls : List (Span × Call κ α)) : Option α :=
  calls.reverse.findSome? fun x => x.2.sets? k

theorem lastSet?_cons (k : κ) (x : Span × Call κ α) (calls : List (Span × Call κ α)) :
    lastSet? k (x :: calls) = (lastSet? k calls).or (x.2.sets? k) := by
  unfold lastSet?
  rw [List.reverse_cons, List.findSome?_append, List.findSome?_singleton]

end Keys

section Calls

variable {κ : Type u} {α : Type v} [Ord κ] [DecidableEq κ] [Std.LawfulEqOrd κ] [Std.TransOrd κ]
  {c : Cache κ α} {k l : κ} {e : Entry α} {now : Span} {x : Call κ α}

def heard (c : Cache κ α) : List (Span × Call κ α) → List (Event κ α)
  | [] => []
  | x :: calls => (c.call x.1 x.2).1.2 ++ heard (c.call x.1 x.2).2 calls

section Departures

omit [Std.TransOrd κ]

theorem departs_forget (he : c.entries.get? k = some e) (reason : Reason) (l : κ) :
    Departs (c.item? l) (about l [.left k e.value reason]) ((c.forget k e).item? l) := by
  rw [item?_forget]
  by_cases hl : l = k
  · subst hl
    have hitem : c.item? l = some ⟨l, e.value, e.expiry⟩ := item?_eq_some.2 ⟨e, he, rfl⟩
    have habout : about l [Event.left l e.value reason] = [Event.left l e.value reason] :=
      about_cons_of_eq rfl []
    rw [hitem, if_pos rfl, habout]
    exact .leaves ⟨l, e.value, e.expiry⟩ reason
  · rw [if_neg hl, about_cons_of_ne (Ne.symm hl)]
    exact .stays _

theorem departs_makeRoom (now : Span) (c : Cache κ α) (ks : List κ) (l : κ) :
    Departs (c.item? l) (about l (c.makeRoom now ks).1) ((c.makeRoom now ks).2.item? l) := by
  induction ks generalizing c with
  | nil => exact .stays _
  | cons k ks ih =>
    unfold makeRoom
    split
    · exact .stays _
    · split
      · exact ih c
      · next e he =>
        dsimp only
        rw [← List.singleton_append, about_append]
        exact (departs_forget he _ l).trans (ih _)

theorem departs_remove (c : Cache κ α) (k : κ) (reason : Reason) (l : κ) :
    Departs (c.item? l) (about l (c.remove k reason).2.1) ((c.remove k reason).2.2.item? l) := by
  unfold remove
  split
  · exact .stays _
  · next e he => exact departs_forget he reason l

theorem departs_purgeKeys (c : Cache κ α) (ks : List κ) (l : κ) :
    Departs (c.item? l) (about l (c.purgeKeys ks).1) ((c.purgeKeys ks).2.item? l) := by
  induction ks generalizing c with
  | nil => exact .stays _
  | cons k ks ih =>
    have hfirst := departs_remove c k .expired l
    unfold purgeKeys
    dsimp only
    rw [about_append]
    exact hfirst.trans (ih _)

end Departures

section Set

theorem departs_place (h : l ≠ k) (now : Span) (c : Cache κ α) (e : Entry α) :
    Departs (c.item? l) (about l (c.place now k e).1) ((c.place now k e).2.item? l) := by
  have hcame : about l [Event.came k e.value] = [] := about_cons_of_ne (Ne.symm h) []
  unfold place
  cases hold : c.entries.get? k with
  | none =>
    dsimp only
    rw [List.nil_append, about_append, hcame, List.append_nil, item?_store, if_neg h]
    exact departs_makeRoom now c _ l
  | some old =>
    dsimp only
    rw [about_append, about_append, hcame, List.append_nil, item?_store, if_neg h]
    exact (departs_forget hold _ l).trans (departs_makeRoom now _ _ l)

theorem departs_set (h : l ≠ k) (now : Span) (c : Cache κ α) (a : α) (ttl : Option Span) :
    Departs (c.item? l) (about l (c.set now k a ttl).2.1) ((c.set now k a ttl).2.2.item? l) := by
  unfold set
  dsimp only
  split
  · unfold replace
    rw [item?_store, if_neg h, item?_forget, if_neg h]
    exact .stays _
  · exact departs_place h now { c with lastSeq := c.lastSeq + 1 } _

theorem item?_set (now : Span) (c : Cache κ α) (k : κ) (a : α) (ttl : Option Span) :
    (c.set now k a ttl).2.2.item? k = some ⟨k, a, ttl.map now.add⟩ := by
  unfold set
  dsimp only
  split
  · exact (item?_store _ _ _ _).trans (if_pos rfl)
  · exact (item?_store _ _ _ _).trans (if_pos rfl)

omit [Std.TransOrd κ] in
theorem about_makeRoom (ks : List κ) (h : c.item? k = none) :
    about k (c.makeRoom now ks).1 = [] := by
  have hdeparts := departs_makeRoom now c ks k
  rw [h] at hdeparts
  exact hdeparts.eq_nil

theorem about_place (now : Span) (c : Cache κ α) (k : κ) (e : Entry α) :
    about k (c.place now k e).1 =
      ((c.item? k).map (·.leave .expired)).toList ++ [.came k e.value] := by
  have hcame : about k [Event.came k e.value] = [.came k e.value] := about_cons_of_eq rfl []
  unfold place
  cases hold : c.entries.get? k with
  | none =>
    have hitem : c.item? k = none := item?_eq_none.2 hold
    dsimp only
    rw [about_append, List.nil_append, about_makeRoom _ hitem, hitem, hcame]
    rfl
  | some old =>
    have hitem : c.item? k = some ⟨k, old.value, old.expiry⟩ := item?_eq_some.2 ⟨old, hold, rfl⟩
    have hforget : (c.forget k old).item? k = none := by rw [item?_forget, if_pos rfl]
    have hleft : about k [Event.left k old.value .expired] = [.left k old.value .expired] :=
      about_cons_of_eq rfl []
    dsimp only
    rw [about_append, about_append, about_makeRoom _ hforget, hitem, hcame, hleft]
    rfl

theorem about_set (now : Span) (c : Cache κ α) (k : κ) (a : α) (ttl : Option Span) :
    about k (c.set now k a ttl).2.1 =
      match c.item? k with
      | none => [.came k a]
      | some i => if i.isExpired now then [i.leave .expired, .came k a] else [] := by
  let d : Cache κ α := { c with lastSeq := c.lastSeq + 1 }
  have hplace : about k (d.place now k ⟨a, ttl.map now.add, c.lastSeq + 1⟩).1 =
      ((c.item? k).map (·.leave .expired)).toList ++ [.came k a] := about_place now d k _
  unfold set
  dsimp only
  cases hold : c.entries.get? k with
  | none =>
    rw [item?_eq_none.2 hold] at hplace ⊢
    exact hplace
  | some old =>
    have hitem : c.item? k = some ⟨k, old.value, old.expiry⟩ := item?_eq_some.2 ⟨old, hold, rfl⟩
    rw [hitem] at hplace ⊢
    rw [Option.filter_some]
    by_cases hexpired : old.isExpired now = true
    · have hitem' : (Item.mk k old.value old.expiry).isExpired now = true := hexpired
      rw [if_neg (by simp [hexpired])]
      exact hplace.trans (if_pos hitem').symm
    · have hitem' : ¬ (Item.mk k old.value old.expiry).isExpired now = true := hexpired
      rw [if_pos (by simpa using hexpired)]
      exact (if_neg hitem').symm

end Set

section Call

theorem departs_call (h : x.sets? k = none) (now : Span) (c : Cache κ α) :
    Departs (c.item? k) (about k (c.call now x).1.2) ((c.call now x).2.item? k) := by
  cases x with
  | set l a ttl =>
    have hl : k ≠ l := by
      rintro rfl
      rw [Call.sets?, if_pos rfl] at h
      cases h
    exact departs_set hl now c a ttl
  | get l => exact .stays _
  | remove l reason => exact departs_remove c l reason k
  | delete l => exact departs_remove c l .deleted k
  | purge => exact departs_purgeKeys c _ k
  | size => exact .stays _

omit [Ord κ] [Std.LawfulEqOrd κ] [Std.TransOrd κ] in
theorem call_of_sets {a : α} (h : x.sets? k = some a) :
    ∃ ttl, x = .set k a ttl := by
  cases x with
  | set l b ttl =>
    rw [Call.sets?] at h
    split at h
    · next hl =>
      cases h
      exact ⟨ttl, hl ▸ rfl⟩
    · cases h
  | _ => cases h

theorem ByTurns.call {events : List (Event κ α)} (h : ByTurns k events (c.item? k).isSome)
    (now : Span) (x : Call κ α) :
    ByTurns k (events ++ about k (c.call now x).1.2) ((c.call now x).2.item? k).isSome := by
  cases hx : x.sets? k with
  | none => exact (departs_call hx now c).byTurns (fun i hi => key_of_item? hi) h
  | some a =>
    obtain ⟨ttl, rfl⟩ := call_of_sets hx
    have hitem : ((c.call now (.set k a ttl)).2.item? k).isSome = true :=
      congrArg Option.isSome (item?_set now c k a ttl)
    have htold : about k (c.call now (.set k a ttl)).1.2 = _ := about_set now c k a ttl
    rw [hitem, htold]
    cases hold : c.item? k with
    | none =>
      rw [hold] at h
      exact h.came a
    | some i =>
      rw [hold] at h
      dsimp only
      split
      · have hleft := h.left i.value .expired
        rw [← key_of_item? hold] at hleft ⊢
        rw [List.append_cons]
        exact hleft.came a
      · rw [List.append_nil]
        exact h

theorem ByTurns.run {events : List (Event κ α)} (h : ByTurns k events (c.item? k).isSome)
    (calls : List (Span × Call κ α)) :
    ByTurns k (events ++ about k (c.heard calls)) ((c.run calls).item? k).isSome := by
  induction calls generalizing c events with
  | nil =>
    rw [show about k (c.heard []) = [] from rfl, List.append_nil]
    exact h
  | cons x calls ih =>
    have hrest := ih (h.call x.1 x.2)
    rw [List.append_assoc, ← about_append] at hrest
    exact hrest

theorem value_of_call {i : Item κ α} (h : (c.call now x).2.item? k = some i) :
    (x.sets? k).or ((c.item? k).map (·.value)) = some i.value := by
  cases hx : x.sets? k with
  | none =>
    have hdeparts := departs_call hx now c
    rw [h] at hdeparts
    rw [hdeparts.eq_some]
    rfl
  | some a =>
    obtain ⟨ttl, rfl⟩ := call_of_sets hx
    have hitem : (c.call now (.set k a ttl)).2.item? k = _ := item?_set now c k a ttl
    cases hitem.symm.trans h
    rfl

theorem value_of_run {i : Item κ α} {calls : List (Span × Call κ α)}
    (h : (c.run calls).item? k = some i) :
    (lastSet? k calls).or ((c.item? k).map (·.value)) = some i.value := by
  induction calls generalizing c with
  | nil => exact congrArg (Option.map (·.value)) h
  | cons x calls ih =>
    have hrest := ih (c := (c.call x.1 x.2).2) h
    rw [lastSet?_cons, Option.or_assoc]
    cases hlast : lastSet? k calls with
    | some a => rwa [hlast] at hrest
    | none =>
      rw [hlast, Option.none_or] at hrest
      obtain ⟨j, hj, hvalue⟩ := Option.map_eq_some_iff.1 hrest
      rw [Option.none_or, ← hvalue]
      exact value_of_call hj

theorem told_about {ev : Event κ α} (h : ev ∈ about k (c.call now x).1.2) :
    (∃ i reason, c.item? k = some i ∧ ev = i.leave reason) ∨
      ∃ a, x.sets? k = some a ∧ ev = .came k a := by
  cases hx : x.sets? k with
  | none => exact .inl ((departs_call hx now c).leave_of_mem h)
  | some b =>
    obtain ⟨ttl, rfl⟩ := call_of_sets hx
    have htold : about k (c.call now (.set k b ttl)).1.2 = _ := about_set now c k b ttl
    rw [htold] at h
    split at h
    · exact .inr ⟨b, rfl, List.mem_singleton.1 h⟩
    · next i hold =>
      split at h
      · rcases List.mem_pair.1 h with hleft | hcame
        · exact .inl ⟨i, .expired, hold, hleft⟩
        · exact .inr ⟨b, rfl, hcame⟩
      · cases h

theorem value_of_left {a : α} {reason : Reason} (h : .left k a reason ∈ (c.call now x).1.2) :
    (c.item? k).map (·.value) = some a := by
  have habout : .left k a reason ∈ about k (c.call now x).1.2 :=
    List.mem_filter.2 ⟨h, decide_eq_true rfl⟩
  rcases told_about habout with ⟨i, _, hi, hleft⟩ | ⟨_, _, hcame⟩
  · cases hleft
    rw [hi]
    rfl
  · cases hcame

theorem sets_of_came {a : α} (h : .came k a ∈ (c.call now x).1.2) : x.sets? k = some a := by
  have habout : .came k a ∈ about k (c.call now x).1.2 :=
    List.mem_filter.2 ⟨h, decide_eq_true rfl⟩
  rcases told_about habout with ⟨_, _, _, hleft⟩ | ⟨b, hb, hcame⟩
  · cases hleft
  · cases hcame
    exact hb

omit [Std.LawfulEqOrd κ] in
theorem told_of_wants (h : c.item? k = none) (hx : x.wants k = true) (now : Span) :
    (c.call now x).1.2 = [] := by
  have hnone := item?_eq_none.1 h
  have hremove (reason : Reason) : (c.remove k reason).2.1 = [] := by
    unfold Cache.remove
    rw [hnone]
  cases x with
  | get l => rfl
  | remove l reason =>
    cases of_decide_eq_true hx
    exact hremove reason
  | delete l =>
    cases of_decide_eq_true hx
    exact hremove .deleted
  | _ => cases hx

omit [DecidableEq κ] [Std.LawfulEqOrd κ] in
theorem told_of_live (h : (c.get? now k).isSome) (a : α) (ttl : Option Span) :
    (c.call now (.set k a ttl)).1.2 = [] := by
  obtain ⟨old, hget⟩ := Option.isSome_iff_exists.1 h
  obtain ⟨e, he, _⟩ := Option.map_eq_some_iff.1 hget
  have htold : (c.set now k a ttl).2.1 = [] := by
    unfold set
    dsimp only
    rw [he]
  exact htold

end Call

/--
Whatever a cache was called for, the observer has heard the entries of each key come and leave by
turns, so that one more came than left if the key has an entry now, and as many otherwise. In the next
call, what comes is what its key is set to, and what leaves is what its key was set to last. Nothing is
told when a key without an entry is looked up or removed, or when a live value is replaced.
-/
theorem hooks_paired (capacity : Nat) (calls : List (Span × Call κ α)) (k : κ) :
    let c := (empty capacity : Cache κ α).run calls
    let events := about k ((empty capacity : Cache κ α).heard calls)
    ByTurns k events (c.item? k).isSome ∧
      (events.countP (·.isArrival) : Int) - events.countP (!·.isArrival) =
        (if (c.item? k).isSome then 1 else 0) ∧
      (∀ now x a, .came k a ∈ (c.call now x).1.2 → x.sets? k = some a) ∧
      (∀ now x a reason, .left k a reason ∈ (c.call now x).1.2 → lastSet? k calls = some a) ∧
      (∀ now x, c.item? k = none → x.wants k = true → (c.call now x).1.2 = []) ∧
      ∀ now a ttl, (c.get? now k).isSome → (c.call now (.set k a ttl)).1.2 = [] := by
  intro c events
  have hsilent : ByTurns k ([] : List (Event κ α)) ((empty capacity : Cache κ α).item? k).isSome :=
    .silent
  have hturns : ByTurns k events (c.item? k).isSome := hsilent.run calls
  refine ⟨hturns, hturns.balance, fun now x a hcame => sets_of_came hcame, ?_, ?_, ?_⟩
  · intro now x a reason hleft
    obtain ⟨i, hi, hvalue⟩ := Option.map_eq_some_iff.1 (value_of_left hleft)
    have hlast := value_of_run hi
    rw [hvalue] at hlast
    rwa [show (empty capacity : Cache κ α).item? k = none from rfl, Option.map_none,
      Option.or_none] at hlast
  · intro now x hnone hwants
    exact told_of_wants hnone hwants now
  · intro now a ttl hlive
    exact told_of_live hlive a ttl

theorem hooks_paired_mixedCalls :
    let c := (empty 2 : Cache Nat Nat).run mixedCalls
    let events := about 2 ((empty 2 : Cache Nat Nat).heard mixedCalls)
    (events = [.came 2 20, .left 2 20 .capacityReached] ∧ ByTurns 2 events (c.item? 2).isSome) ∧
      (.left 1 11 .deleted ∈ (c.call ⟨4⟩ (.delete 1)).1.2 ∧ lastSet? 1 mixedCalls = some 11) ∧
      (c.item? 2 = none ∧ (c.call ⟨4⟩ (.delete 2)).1.2 = []) ∧
      ((c.get? ⟨4⟩ 1).isSome ∧ (c.call ⟨4⟩ (.set 1 12 none)).1.2 = []) := by
  obtain ⟨hturns, -, -, -, hwants, -⟩ := hooks_paired 2 mixedCalls 2
  obtain ⟨-, -, -, hleft, -, hlive⟩ := hooks_paired 2 mixedCalls 1
  refine ⟨⟨by decide, hturns⟩, ⟨by decide, ?_⟩, ⟨by decide, ?_⟩, by decide, ?_⟩
  · exact hleft ⟨4⟩ (.delete 1) 11 .deleted (by decide)
  · exact hwants ⟨4⟩ (.delete 2) (by decide) (by decide)
  · exact hlive ⟨4⟩ 12 none (by decide)

end Calls

end Cache

end Steward
