import Mathlib.Data.List.Perm.Basic
import Steward.Proofs.Cache.Values
import Steward.Proofs.Cache.Roll

/-!
This module contains the proof that a cache is as good as a roll: whatever both were called for, the
next call is answered alike and tells the same events. The items of a purge may leave in another
order.
-/

namespace Steward

universe u v

open Cache (Call Entry Event Reason)

variable {κ : Type u} {α : Type v}

/--
Two calls were answered alike, and told the same events. Where items were purged, these may have left
in another order.
-/
def Cache.Call.Agree (x : Call κ α) (told told' : Cache.Told κ α) : Prop :=
  told.1 = told'.1 ∧
    match x with
    | .purge => told.2.Perm told'.2
    | _ => told.2 = told'.2

namespace Roll

theorem makeRoom_of_lt {room : Nat} (now : Span) {items : List (Item κ α)}
    (h : items.length < room) : makeRoom room now items = ([], items) := by
  cases items with
  | nil => rfl
  | cons i items =>
    unfold makeRoom
    rw [if_pos h]

end Roll

namespace Cache

variable [Ord κ] {c : Cache κ α} {r : Roll κ α} {k : κ} {e : Entry α} {last : Nat} {now : Span}

/--
A cache says the same as a roll, its maps belong together, and it has no more entries than there may
be.
-/
structure Follows (c : Cache κ α) (r : Roll κ α) : Prop where
  capacity : r.capacity = c.capacity
  items : r.items = c.items
  tied : c.Tied c.lastSeq
  fits : c.size ≤ max c.capacity 1

theorem follows_empty (capacity : Nat) : (empty capacity : Cache κ α).Follows (.empty capacity) where
  capacity := rfl
  items := rfl
  tied := {
    order_iff := fun n k => by
      constructor
      · intro h
        cases h
      · rintro ⟨e, he, _⟩
        cases he
    le_last := fun n k h => by cases h }
  fits := Nat.zero_le _

theorem Tied.renumber (h : c.Tied last) (n : Nat) : { c with lastSeq := n }.Tied last :=
  ⟨h.order_iff, h.le_last⟩

variable [DecidableEq κ]

theorem Follows.find? (h : c.Follows r) (k : κ) : r.find? k = c.item? k := by
  unfold Roll.find?
  rw [h.items, h.tied.find?_items]

theorem Follows.get? (h : c.Follows r) (now : Span) (k : κ) : r.get? now k = c.get? now k := by
  unfold Roll.get? Cache.get?
  rw [h.find?]
  unfold item?
  cases c.entries.get? k with
  | none => rfl
  | some e =>
    rw [Option.map_some, Option.filter_some, Option.filter_some]
    unfold Roll.Item.isExpired Entry.isExpired
    split <;> rfl

variable [Std.LawfulEqOrd κ]

section Remove

theorem size_forget_lt [Std.TransOrd κ] (h : c.Tied last) (he : c.entries.get? k = some e) :
    (c.forget k e).size < c.size := by
  rw [← (h.forget he).length_items, ← h.length_items, h.items_forget he]
  apply List.length_filter_lt_length_iff_exists.2
  refine ⟨⟨k, e.value, e.expiry⟩, h.mem_items.2 (item?_eq_some.2 ⟨e, he, rfl⟩), ?_⟩
  simp

variable [Std.TransOrd κ]

theorem Follows.forget (h : c.Follows r) (he : c.entries.get? k = some e) :
    (c.forget k e).Follows (r.without k) where
  capacity := h.capacity
  items := by
    rw [h.tied.items_forget he, ← h.items]
    rfl
  tied := h.tied.forget he
  fits := by
    have hlt := size_forget_lt h.tied he
    have hfits := h.fits
    show (c.forget k e).size ≤ max c.capacity 1
    omega

theorem Follows.remove (h : c.Follows r) (k : κ) (reason : Reason) :
    (c.remove k reason).1 = (r.remove k reason).1 ∧
      (c.remove k reason).2.1 = (r.remove k reason).2.1 ∧
      (c.remove k reason).2.2.Follows (r.remove k reason).2.2 := by
  unfold Cache.remove Roll.remove
  rw [h.find?]
  unfold item?
  cases he : c.entries.get? k with
  | none => exact ⟨rfl, rfl, h⟩
  | some e => exact ⟨rfl, rfl, h.forget he⟩

end Remove

section MakeRoom

variable [Std.TransOrd κ]

structure MadeRoom (now : Span) (last : Nat) (c : Cache κ α) (x : List (Event κ α) × Cache κ α) :
    Prop where
  told : (x.1, x.2.items) = Roll.makeRoom c.room now c.items
  tied : x.2.Tied last
  capacity : x.2.capacity = c.capacity
  lastSeq : x.2.lastSeq = c.lastSeq
  room : x.2.size < c.room

omit [Std.TransOrd κ] in
theorem filterMap_forget_of_not_mem (e : Entry α) {ks : List κ} (hk : k ∉ ks) :
    ks.filterMap (c.forget k e).item? = ks.filterMap c.item? := by
  apply List.filterMap_congr
  rintro l hl
  rw [item?_forget, if_neg]
  rintro rfl
  exact hk hl

omit [Std.TransOrd κ] in
theorem Tied.items_cons {ks : List κ} (h : c.Tied last) (hks : c.order.values = k :: ks)
    (he : c.entries.get? k = some e) :
    (c.forget k e).order.values = ks ∧
      c.items = ⟨k, e.value, e.expiry⟩ :: (c.forget k e).items := by
  have hk : k ∉ ks := by
    have hnodup := h.nodup_values
    rw [hks] at hnodup
    exact (List.nodup_cons.1 hnodup).1
  have hvalues : (c.forget k e).order.values = ks := by
    rw [h.values_forget he, hks, List.filter_cons_of_neg (by simp)]
    apply List.filter_eq_self.2
    intro l hl
    simpa using ne_of_mem_of_not_mem hl hk
  have hitem : c.item? k = some ⟨k, e.value, e.expiry⟩ := item?_eq_some.2 ⟨e, he, rfl⟩
  refine ⟨hvalues, ?_⟩
  unfold items
  rw [hks, hvalues, List.filterMap_cons, hitem, filterMap_forget_of_not_mem e hk]

theorem Tied.makeRoom (now : Span) (h : c.Tied last) :
    MadeRoom now last c (c.makeRoom now c.order.values) := by
  -- The keys in their order are just those of the items, so what leaves of them is what leaves of a
  -- roll.
  generalize hks : c.order.values = ks
  induction ks generalizing c with
  | nil =>
    have hempty : c.items = [] := by
      unfold items
      rw [hks]
      rfl
    have hsize : c.size = 0 := by
      rw [← h.length_items, hempty]
      rfl
    refine ⟨?_, h, rfl, rfl, ?_⟩
    · unfold Cache.makeRoom
      rw [hempty]
      rfl
    · show c.size < max c.capacity 1
      omega
  | cons k ks ih =>
    obtain ⟨e, he⟩ := Option.ne_none_iff_exists'.1 (h.mem_values.1 (hks ▸ List.mem_cons_self))
    obtain ⟨hvalues, hitems⟩ := h.items_cons hks he
    unfold Cache.makeRoom
    split
    · next hroom =>
      refine ⟨?_, h, rfl, rfl, hroom⟩
      rw [Roll.makeRoom_of_lt now (by rwa [h.length_items])]
    · next hfull =>
      have hrest := ih (h.forget he) hvalues
      rw [he]
      refine ⟨?_, hrest.tied, hrest.capacity, hrest.lastSeq, hrest.room⟩
      have hlong : ¬ (c.items.length < c.room) := by rwa [h.length_items]
      rw [hitems] at hlong ⊢
      unfold Roll.makeRoom
      rw [if_neg hlong]
      have htold : Roll.makeRoom c.room now (c.forget k e).items = _ := hrest.told.symm
      rw [htold]
      rfl

end MakeRoom

section Set

variable [Std.TransOrd κ]

theorem Tied.push (h : c.Tied last) (now : Span) (hnone : c.entries.get? k = none)
    (hseq : e.seq = c.lastSeq) (hlast : last < e.seq) (hr : r.capacity = c.capacity)
    (hitems : r.items = c.items) :
    let x := c.makeRoom now c.order.values
    let y := r.push now ⟨k, e.value, e.expiry⟩
    x.1 ++ [.came k e.value] = y.1 ∧ (x.2.store k e).Follows y.2 := by
  have hmade := h.makeRoom now
  have hnone' := get?_makeRoom_eq_none now c.order.values hnone
  generalize c.makeRoom now c.order.values = x at hmade hnone' ⊢
  have htold : Roll.makeRoom r.room now r.items = (x.1, x.2.items) := by
    have hroom : r.room = c.room := congrArg (max · 1) hr
    rw [hroom, hitems, hmade.told]
  have hstored := hmade.tied.items_store hnone' hlast
  have htied := hmade.tied.store hnone' hlast
  unfold Roll.push
  rw [htold]
  refine ⟨rfl, hr.trans hmade.capacity.symm, hstored.symm, ?_, ?_⟩
  · have hlastSeq : (x.2.store k e).lastSeq = e.seq := hmade.lastSeq.trans hseq.symm
    rwa [hlastSeq]
  · have hroom := hmade.room
    rw [← htied.length_items, hstored, List.length_append, hmade.tied.length_items]
    show x.2.size + 1 ≤ max x.2.capacity 1
    rw [hmade.capacity]
    exact hroom

theorem Follows.replaced {old : Entry α} (h : c.Follows r) (he : c.entries.get? k = some old)
    (hseq : e.seq = c.lastSeq + 1) :
    (({ c with lastSeq := c.lastSeq + 1 } : Cache κ α).replace k old e).Follows
      { r with items := (r.without k).items ++ [⟨k, e.value, e.expiry⟩] } := by
  let d : Cache κ α := { c with lastSeq := c.lastSeq + 1 }
  have hd : d.Tied c.lastSeq := h.tied.renumber (c.lastSeq + 1)
  have hforget : (d.forget k old).Tied c.lastSeq := hd.forget he
  have hnone : (d.forget k old).entries.get? k = none := by rw [get?_forget, if_pos rfl]
  have hlast : c.lastSeq < e.seq := hseq ▸ Nat.lt_succ_self _
  have hitems : (d.replace k old e).items = (d.forget k old).items ++ [⟨k, e.value, e.expiry⟩] :=
    hforget.items_store hnone hlast
  have htied : (d.replace k old e).Tied e.seq := hforget.store hnone hlast
  refine ⟨h.capacity, ?_, ?_, ?_⟩
  · rw [hitems, hd.items_forget he]
    show r.items.filter (·.key ≠ k) ++ _ = c.items.filter (·.key ≠ k) ++ _
    rw [h.items]
  · rwa [hseq] at htied
  · rw [← htied.length_items, hitems, List.length_append, hforget.length_items]
    have hlt : (d.forget k old).size < d.size := size_forget_lt hd he
    have hsize : d.size = c.size := rfl
    have hfits := h.fits
    show _ + 1 ≤ max c.capacity 1
    omega

theorem Follows.set (h : c.Follows r) (now : Span) (k : κ) (a : α) (ttl : Option Span) :
    (c.set now k a ttl).1 = (r.set now k a ttl).1 ∧
      (c.set now k a ttl).2.1 = (r.set now k a ttl).2.1 ∧
      (c.set now k a ttl).2.2.Follows (r.set now k a ttl).2.2 := by
  have htied := h.tied.renumber (c.lastSeq + 1)
  unfold Cache.set Roll.set
  rw [h.find?]
  unfold item?
  dsimp only
  cases he : c.entries.get? k with
  | none =>
    have hpush := htied.push (e := ⟨a, ttl.map now.add, c.lastSeq + 1⟩) now he rfl
      (Nat.lt_succ_self _) h.capacity h.items
    unfold place
    dsimp only
    rw [he]
    exact ⟨rfl, hpush.1, hpush.2⟩
  | some old =>
    rw [Option.filter_some, Option.map_some]
    by_cases hexpired : old.isExpired now = true
    · have hitems : (r.without k).items =
          (({ c with lastSeq := c.lastSeq + 1 } : Cache κ α).forget k old).items := by
        rw [htied.items_forget he]
        show r.items.filter (·.key ≠ k) = c.items.filter (·.key ≠ k)
        rw [h.items]
      have hnone : (({ c with lastSeq := c.lastSeq + 1 } : Cache κ α).forget k old).entries.get? k =
          none := by
        rw [get?_forget, if_pos rfl]
      have hpush := (htied.forget he).push (e := ⟨a, ttl.map now.add, c.lastSeq + 1⟩) now hnone rfl
        (Nat.lt_succ_self _) (r := r.without k) h.capacity hitems
      have hexpired' : (Roll.Item.mk k old.value old.expiry).isExpired now = true := hexpired
      unfold place
      dsimp only
      rw [he, if_pos hexpired', if_neg (by simp [hexpired])]
      dsimp only
      rw [List.append_assoc, hpush.1]
      exact ⟨rfl, rfl, hpush.2⟩
    · have hexpired' : ¬ (Roll.Item.mk k old.value old.expiry).isExpired now = true := hexpired
      dsimp only
      rw [if_neg hexpired', if_pos (by simpa using hexpired)]
      exact ⟨rfl, rfl, h.replaced he rfl⟩

end Set

section Purge

theorem items_purgeKeys (h : c.Tied last) {ks : List κ} (hks : ks.Nodup)
    (hmem : ∀ k ∈ ks, c.entries.get? k ≠ none) :
    (c.purgeKeys ks).1 = (ks.filterMap c.item?).map (·.leave .expired) ∧
      (c.purgeKeys ks).2.items = c.items.filter (·.key ∉ ks) ∧ (c.purgeKeys ks).2.Tied last ∧
      (c.purgeKeys ks).2.capacity = c.capacity ∧ (c.purgeKeys ks).2.lastSeq = c.lastSeq := by
  induction ks generalizing c with
  | nil => simp [purgeKeys, h]
  | cons k ks ih =>
    obtain ⟨hk, hks⟩ := List.nodup_cons.1 hks
    obtain ⟨e, he⟩ := Option.ne_none_iff_exists'.1 (hmem k List.mem_cons_self)
    have hne : ∀ l ∈ ks, l ≠ k := by
      rintro l hl rfl
      exact hk hl
    have hrest := ih (h.forget he) hks fun l hl => by
      rw [get?_forget, if_neg (hne l hl)]
      exact hmem l (List.mem_cons_of_mem k hl)
    have hitem : c.item? k = some ⟨k, e.value, e.expiry⟩ := item?_eq_some.2 ⟨e, he, rfl⟩
    have hremove : c.remove k .expired = (some e.value, [.left k e.value .expired], c.forget k e) := by
      unfold Cache.remove
      rw [he]
    unfold purgeKeys
    rw [hremove]
    obtain ⟨htold, hitems, htied, hcapacity, hlastSeq⟩ := hrest
    refine ⟨?_, ?_, htied, hcapacity, hlastSeq⟩
    · dsimp only
      rw [htold, filterMap_forget_of_not_mem e hk, List.filterMap_cons, hitem]
      rfl
    · dsimp only
      rw [hitems, h.items_forget he, List.filter_filter]
      apply List.filter_congr
      intro i _
      rw [Bool.and_comm]
      simp

def expiredKeys (c : Cache κ α) (now : Span) : List κ :=
  (c.entries.entries.filter fun e => e.2.isExpired now).map (·.1)

theorem mem_expiredKeys :
    k ∈ c.expiredKeys now ↔ ∃ e, c.entries.get? k = some e ∧ e.isExpired now = true := by
  unfold expiredKeys
  rw [List.mem_map]
  constructor
  · rintro ⟨⟨k, e⟩, he, rfl⟩
    obtain ⟨he, hexpired⟩ := List.mem_filter.1 he
    exact ⟨e, SortedMap.mem_entries_iff.1 he, hexpired⟩
  · rintro ⟨e, he, hexpired⟩
    exact ⟨(k, e), List.mem_filter.2 ⟨SortedMap.mem_entries_iff.2 he, hexpired⟩, rfl⟩

omit [DecidableEq κ] in
theorem nodup_expiredKeys (c : Cache κ α) (now : Span) : (c.expiredKeys now).Nodup := by
  apply List.pairwise_map.2
  apply (c.entries.ordered.filter _).imp
  intro x y hlt heq
  simp [heq] at hlt

theorem Tied.key_mem_expiredKeys (h : c.Tied last) {i : Roll.Item κ α} (hi : i ∈ c.items) :
    i.key ∈ c.expiredKeys now ↔ i.isExpired now = true := by
  obtain ⟨e, he, hie⟩ := item?_eq_some.1 (h.mem_items.1 hi)
  rw [mem_expiredKeys, hie]
  constructor
  · rintro ⟨e', he', hexpired⟩
    cases he.symm.trans he'
    exact hexpired
  · exact fun hexpired => ⟨e, he, hexpired⟩

theorem Tied.expired_perm (h : c.Tied last) (now : Span) :
    ((c.expiredKeys now).filterMap c.item?).Perm (c.items.filter (·.isExpired now)) := by
  -- No item is there twice on either side, so it is enough that both have the same ones.
  apply (List.perm_ext_iff_of_nodup _ (h.nodup_items.filter _)).2
  · intro i
    rw [List.mem_filterMap, List.mem_filter, h.mem_items]
    constructor
    · rintro ⟨k, hk, hi⟩
      have hkey := key_of_item? hi
      subst hkey
      exact ⟨hi, (h.key_mem_expiredKeys (h.mem_items.2 hi)).1 hk⟩
    · rintro ⟨hi, hexpired⟩
      exact ⟨i.key, (h.key_mem_expiredKeys (h.mem_items.2 hi)).2 hexpired, hi⟩
  · apply (nodup_expiredKeys c now).filterMap
    intro k l i hk hl
    exact (key_of_item? hk).symm.trans (key_of_item? hl)

variable [Std.TransOrd κ]

theorem Follows.purge (h : c.Follows r) (now : Span) :
    (c.purge now).1.Perm (r.purge now).1 ∧ (c.purge now).2.Follows (r.purge now).2 := by
  have hpurge : c.purge now = c.purgeKeys (c.expiredKeys now) := rfl
  obtain ⟨htold, hitems, htied, hcapacity, hlastSeq⟩ :=
    items_purgeKeys h.tied (nodup_expiredKeys c now) fun k hk => by
      obtain ⟨e, he, _⟩ := mem_expiredKeys.1 hk
      simp [he]
  rw [hpurge]
  refine ⟨?_, h.capacity.trans hcapacity.symm, ?_, ?_, ?_⟩
  · unfold Roll.purge
    rw [htold, h.items]
    exact (h.tied.expired_perm now).map _
  · have hleft : c.items.filter (·.key ∉ c.expiredKeys now) =
        c.items.filter (!·.isExpired now) := by
      apply List.filter_congr
      intro i hi
      simp [h.tied.key_mem_expiredKeys hi]
    rw [hitems, hleft, ← h.items]
    rfl
  · rwa [hlastSeq]
  · have hfits := h.fits
    rw [← h.tied.length_items] at hfits
    rw [← htied.length_items, hitems, hcapacity]
    exact Nat.le_trans (List.length_filter_le _ _) hfits

end Purge

section Run

variable [Std.TransOrd κ]

theorem Follows.call (h : c.Follows r) (now : Span) (x : Call κ α) :
    x.Agree (c.call now x).1 (r.call now x).1 ∧
      (c.call now x).2.Follows (r.call now x).2 := by
  cases x with
  | set k a ttl =>
    obtain ⟨hvalue, htold, hfollows⟩ := h.set now k a ttl
    exact ⟨⟨congrArg Answer.value hvalue, htold⟩, hfollows⟩
  | get k => exact ⟨⟨congrArg Answer.value (h.get? now k).symm, rfl⟩, h⟩
  | remove k reason =>
    obtain ⟨hvalue, htold, hfollows⟩ := h.remove k reason
    exact ⟨⟨congrArg Answer.value hvalue, htold⟩, hfollows⟩
  | delete k =>
    obtain ⟨hvalue, htold, hfollows⟩ := h.remove k .deleted
    exact ⟨⟨congrArg Answer.value hvalue, htold⟩, hfollows⟩
  | purge =>
    obtain ⟨htold, hfollows⟩ := h.purge now
    exact ⟨⟨congrArg Answer.count htold.length_eq, htold⟩, hfollows⟩
  | size =>
    have hsize : c.size = r.items.length := by rw [h.items, h.tied.length_items]
    exact ⟨⟨congrArg Answer.count hsize, rfl⟩, h⟩

theorem Follows.run (h : c.Follows r) (calls : List (Span × Call κ α)) :
    (c.run calls).Follows (r.run calls) := by
  induction calls generalizing c r with
  | nil => exact h
  | cons x calls ih => exact ih (h.call x.1 x.2).2

/--
Whatever a cache was called for and at whatever times, it follows the roll that was called for the
same, and so the next call is answered alike.
-/
theorem run_follows_roll (capacity : Nat) (calls : List (Span × Call κ α)) (now : Span)
    (x : Call κ α) :
    let c := (empty capacity : Cache κ α).run calls
    let r := (Roll.empty capacity).run calls
    c.Follows r ∧
      x.Agree (c.call now x).1 (r.call now x).1 := by
  have hfollows := (follows_empty capacity).run calls
  exact ⟨hfollows, (hfollows.call now x).1⟩

end Run

/--
A cache for two items: the first key is set again and so outlives the second one, which makes room for
the third one.
-/
def mixedCalls : List (Span × Call Nat Nat) :=
  [ (⟨0⟩, .set 1 10 (some ⟨5⟩)), (⟨1⟩, .set 2 20 none), (⟨2⟩, .set 1 11 (some ⟨20⟩)),
    (⟨3⟩, .set 3 30 (some ⟨0⟩)), (⟨4⟩, .get 3) ]

theorem run_follows_roll_mixedCalls :
    let c := (empty 2 : Cache Nat Nat).run mixedCalls
    let r := (Roll.empty 2).run mixedCalls
    (c.Follows r ∧ Call.purge.Agree (c.call ⟨4⟩ .purge).1 (r.call ⟨4⟩ .purge).1) ∧
      (c.call ⟨4⟩ .purge).1 = (.count 1, [.left 3 30 .expired]) ∧
      r.items = [⟨1, 11, some ⟨22⟩⟩, ⟨3, 30, some ⟨3⟩⟩] :=
  ⟨run_follows_roll 2 mixedCalls ⟨4⟩ .purge, by decide, by decide⟩

end Cache

end Steward
