import Steward.Proofs.Cache.Refinement

/-!
This module contains which entries have to make room. A cache does not ask what has expired when it
counts its entries, or when it looks for the one that has to go: a live entry leaves if it was set
longest ago, even if all the others are leftovers.
-/

namespace Steward

universe u v

open Cache (Call Event)

namespace Roll

variable {κ : Type u} {α : Type v} {room : Nat} {now : Span} {items : List (Item κ α)} {l : κ} {b : α}

theorem Item.makeWay_eq_iff {i : Item κ α} :
    i.makeWay now = .left l b .capacityReached ↔
      i.key = l ∧ i.value = b ∧ i.isExpired now = false := by
  unfold makeWay leave
  cases i.isExpired now <;> simp

theorem mem_makeRoom_iff (hroom : 0 < room) (h : items.length ≤ room) {ev : Event κ α} :
    ev ∈ (makeRoom room now items).1 ↔
      items.length = room ∧ ∃ i, items.head? = some i ∧ i.makeWay now = ev := by
  by_cases hlt : items.length < room
  · rw [makeRoom_of_lt now hlt]
    constructor
    · intro hev
      cases hev
    · rintro ⟨hfull, -⟩
      omega
  · cases items with
    | nil => exact absurd hroom hlt
    | cons i rest =>
      have hrest : rest.length < room := h
      have hfull : rest.length + 1 = room := Nat.le_antisymm h (Nat.le_of_not_lt hlt)
      unfold makeRoom
      rw [if_neg hlt, makeRoom_of_lt now hrest]
      simp [hfull, eq_comm]

theorem room_pos (r : Roll κ α) : 0 < r.room := Nat.lt_of_lt_of_le Nat.one_pos (Nat.le_max_right _ _)

section Set

variable [DecidableEq κ] {r : Roll κ α} {k : κ}

theorem length_without_lt {old : Item κ α} (h : r.find? k = some old) :
    (r.without k).items.length < r.items.length := by
  apply List.length_filter_lt_length_iff_exists.2
  refine ⟨old, List.mem_of_find?_eq_some h, ?_⟩
  have hkey : old.key = k := by simpa using List.find?_some h
  simp [hkey]

theorem without_of_find?_eq_none (h : r.find? k = none) : r.without k = r := by
  have hall : r.items.filter (·.key ≠ k) = r.items := by
    apply List.filter_eq_self.2
    intro i hi
    simpa using List.find?_eq_none.1 h i hi
  unfold without
  rw [hall]

theorem items_set (h : r.items.length ≤ r.room) (now : Span) (a : α) (ttl : Option Span) :
    (r.set now k a ttl).2.2.items =
      (makeRoom r.room now (r.without k).items).2 ++ [⟨k, a, ttl.map now.add⟩] := by
  unfold set
  cases hfind : r.find? k with
  | none =>
    rw [without_of_find?_eq_none hfind]
    rfl
  | some old =>
    dsimp only
    split
    · rfl
    · rw [makeRoom_of_lt now (Nat.lt_of_lt_of_le (length_without_lt hfind) h)]

theorem mem_set_iff (h : r.items.length ≤ r.room) (now : Span) (a : α) (ttl : Option Span) :
    .left l b .capacityReached ∈ (r.set now k a ttl).2.1 ↔
      .left l b .capacityReached ∈ (makeRoom r.room now (r.without k).items).1 := by
  unfold set
  cases hfind : r.find? k with
  | none =>
    rw [without_of_find?_eq_none hfind]
    unfold push
    simp
  | some old =>
    dsimp only
    split
    · unfold push Item.leave
      simp [room, without]
    · rw [makeRoom_of_lt now (Nat.lt_of_lt_of_le (length_without_lt hfind) h)]

theorem find?_without {l : κ} (h : l ≠ k) : (r.without k).find? l = r.find? l := by
  unfold find? without
  rw [List.find?_filter]
  congr 1
  funext i
  by_cases hi : i.key = l
  · simp [hi, h]
  · simp [hi]

theorem get?_set_of_ne (h : r.items.length ≤ r.room) (hroom : (r.without k).items.length < r.room)
    {l : κ} (hl : l ≠ k) (now : Span) (a : α) (ttl : Option Span) :
    (r.set now k a ttl).2.2.get? now l = r.get? now l := by
  have hitems : (r.set now k a ttl).2.2.items =
      (r.without k).items ++ [⟨k, a, ttl.map now.add⟩] := by
    rw [items_set h now a ttl, makeRoom_of_lt now hroom]
  have hfind : (r.set now k a ttl).2.2.find? l = r.find? l := by
    unfold find?
    rw [hitems, List.find?_append, List.find?_cons_of_neg (by simpa using Ne.symm hl), List.find?_nil,
      Option.or_none]
    exact find?_without hl
  unfold get?
  rw [hfind]

end Set

section Capacity

variable [DecidableEq κ] {r : Roll κ α} {k : κ}

theorem capacity_set (now : Span) (r : Roll κ α) (k : κ) (a : α) (ttl : Option Span) :
    (r.set now k a ttl).2.2.capacity = r.capacity := by
  unfold set
  split
  · rfl
  · dsimp only
    split <;> rfl

theorem capacity_remove (r : Roll κ α) (k : κ) (reason : Cache.Reason) :
    (r.remove k reason).2.2.capacity = r.capacity := by
  unfold remove
  split <;> rfl

theorem capacity_run (r : Roll κ α) (calls : List (Span × Call κ α)) :
    (r.run calls).capacity = r.capacity := by
  unfold run
  apply List.foldlRecOn (motive := fun s : Roll κ α => s.capacity = r.capacity)
  · rfl
  · rintro s hs ⟨now, x⟩ -
    rw [← hs]
    cases x with
    | set k a ttl => exact capacity_set now s k a ttl
    | remove k reason => exact capacity_remove s k reason
    | delete k => exact capacity_remove s k .deleted
    | _ => rfl

end Capacity

end Roll

namespace Cache

variable {κ : Type u} {α : Type v} [Ord κ] [DecidableEq κ] [Std.LawfulEqOrd κ] [Std.TransOrd κ]

/--
When a key is set, a live entry has to go just if the entries of the other keys, the live ones and the
leftovers together, take all the room, and it was set longest ago. As long as they leave room for one
more, nothing happens to them.
-/
theorem crowded_out_iff (capacity : Nat) (calls : List (Span × Call κ α)) (now : Span) (k : κ) (a : α)
    (ttl : Option Span) :
    let c := (empty capacity : Cache κ α).run calls
    let x := c.call now (.set k a ttl)
    let others := c.items.filter (·.key ≠ k)
    let live := others.countP (!·.isExpired now)
    let leftovers := others.countP (·.isExpired now)
    (∀ l b, .left l b .capacityReached ∈ x.1.2 ↔
      live + leftovers = max capacity 1 ∧
        ∃ i, others.head? = some i ∧ i.key = l ∧ i.value = b ∧ i.isExpired now = false) ∧
    (live + leftovers < max capacity 1 → ∀ l, l ≠ k → x.2.get? now l = c.get? now l) := by
  intro c x others live leftovers
  let r : Roll κ α := (Roll.empty capacity).run calls
  have hfollows : c.Follows r := (follows_empty capacity).run calls
  obtain ⟨-, htold, hfollows'⟩ := hfollows.set now k a ttl
  have hroom : r.room = max capacity 1 :=
    congrArg (max · 1) (Roll.capacity_run (.empty capacity) calls)
  have hfits : r.items.length ≤ r.room := by
    unfold Roll.room
    rw [hfollows.items, hfollows.tied.length_items, hfollows.capacity]
    exact hfollows.fits
  have hothers : (r.without k).items = others := by
    show r.items.filter (·.key ≠ k) = c.items.filter (·.key ≠ k)
    rw [hfollows.items]
  have hlength : others.length = live + leftovers := by
    have hcount := List.length_eq_countP_add_countP (fun i => i.isExpired now) (l := others)
    simp only [Bool.not_eq_true, Bool.decide_eq_false] at hcount
    omega
  have hle : others.length ≤ r.room := by
    rw [← hothers]
    exact Nat.le_trans (List.length_filter_le _ _) hfits
  constructor
  · intro l b
    have hx : x.1.2 = (r.set now k a ttl).2.1 := htold
    rw [hx, Roll.mem_set_iff hfits now a ttl, hothers, Roll.mem_makeRoom_iff r.room_pos hle, hlength,
      hroom]
    simp only [Roll.Item.makeWay_eq_iff]
  · intro hlt l hl
    have hless : (r.without k).items.length < r.room := by rwa [hothers, hlength, hroom]
    calc x.2.get? now l
      _ = (r.set now k a ttl).2.2.get? now l := (hfollows'.get? now l).symm
      _ = r.get? now l := Roll.get?_set_of_ne hfits hless hl now a ttl
      _ = c.get? now l := hfollows.get? now l

def leftoverCalls : List (Span × Call Nat Nat) := [(⟨0⟩, .set 1 10 none), (⟨0⟩, .set 2 20 (some ⟨1⟩))]

theorem crowded_out_iff_leftoverCalls :
    let c := (empty 2 : Cache Nat Nat).run leftoverCalls
    let x := c.call ⟨2⟩ (.set 3 30 none)
    let y := c.call ⟨2⟩ (.set 2 21 none)
    (.left 1 10 .capacityReached ∈ x.1.2 ∧ (1 + 1 = max 2 1 ∧ ∃ i, c.items.head? = some i ∧
      i.key = 1 ∧ i.value = 10 ∧ i.isExpired ⟨2⟩ = false)) ∧
    (1 < max 2 1 ∧ y.2.get? ⟨2⟩ 1 = c.get? ⟨2⟩ 1) := by
  have hset := crowded_out_iff 2 leftoverCalls ⟨2⟩ 3 30 none
  have hreset := crowded_out_iff 2 leftoverCalls ⟨2⟩ 2 21 none
  have hcrowded := (hset.1 1 10).1 (by decide)
  exact ⟨⟨by decide, hcrowded⟩, by decide, hreset.2 (by decide) 1 (by decide)⟩

theorem not_crowded_by_live_leftoverCalls :
    (¬ ∀ (capacity : Nat) (calls : List (Span × Call Nat Nat)) (now : Span) (k a : Nat)
        (ttl : Option Span), 1 ≤ capacity → (calls.map (·.1) ++ [now]).Pairwise (· ≤ ·) →
      let c := (empty capacity : Cache Nat Nat).run calls
      ∀ l b, .left l b .capacityReached ∈ (c.call now (.set k a ttl)).1.2 →
        c.items.countP (!·.isExpired now) = capacity) ∧
    (¬ ∀ (capacity : Nat) (calls : List (Span × Call Nat Nat)) (now : Span) (k a : Nat)
        (ttl : Option Span), 1 ≤ capacity → (calls.map (·.1) ++ [now]).Pairwise (· ≤ ·) →
      let c := (empty capacity : Cache Nat Nat).run calls
      c.items.countP (!·.isExpired now) < capacity →
        ∀ l, l ≠ k → (c.get? now l).isSome → ((c.call now (.set k a ttl)).2.get? now l).isSome) := by
  constructor
  · intro h
    have hlive := h 2 leftoverCalls ⟨2⟩ 3 30 none (by decide) (by decide) 1 10 (by decide)
    revert hlive
    decide
  · intro h
    have hkept := h 2 leftoverCalls ⟨2⟩ 3 30 none (by decide) (by decide) (by decide) 1 (by decide)
      (by decide)
    revert hkept
    decide

end Cache

end Steward
