import Mathlib.Data.List.Nodup
import Mathlib.Data.List.Perm.Basic
import Steward.Cache.Basic
import Steward.Data.SortedMap.Lemmas

/-!
This module contains rolls, which say in one list what a cache says in two maps: the items in the
order in which they were set last. A cache and a roll that are called alike answer alike, and tell the
same events.
-/

namespace Steward

universe u v

open Cache (Event Reason)

namespace Roll

structure Item (κ : Type u) (α : Type v) where
  key : κ
  value : α
  expiry : Option Span
deriving DecidableEq, Repr

namespace Item

variable {κ : Type u} {α : Type v}

def isExpired (i : Item κ α) (now : Span) : Bool := i.expiry.any (· ≤ now)

def leave (i : Item κ α) (reason : Reason) : Event κ α := .left i.key i.value reason

def makeWay (now : Span) (i : Item κ α) : Event κ α :=
  i.leave (if i.isExpired now then .expired else .capacityReached)

end Item

end Roll

structure Roll (κ : Type u) (α : Type v) where
  capacity : Nat
  items : List (Roll.Item κ α)

inductive Cache.Call (κ : Type u) (α : Type v) where
  | set (k : κ) (a : α) (ttl : Option Span)
  | get (k : κ)
  | remove (k : κ) (reason : Reason)
  | delete (k : κ)
  | purge
  | size

inductive Cache.Answer (α : Type v) where
  | value (a : Option α)
  | count (n : Nat)
deriving DecidableEq, Repr

/--
What a call is answered, and the events that it tells.
-/
abbrev Cache.Told (κ : Type u) (α : Type v) := Answer α × List (Event κ α)

namespace Roll

open Cache (Call Told)

variable {κ : Type u} {α : Type v}

def empty (capacity : Nat) : Roll κ α := ⟨capacity, []⟩

def room (r : Roll κ α) : Nat := max r.capacity 1

/--
The first items leave as long as there are `room` of them or more.
-/
def makeRoom (room : Nat) (now : Span) : List (Item κ α) → List (Event κ α) × List (Item κ α)
  | [] => ([], [])
  | i :: is =>
    if (i :: is).length < room then ([], i :: is)
    else
      let (events, rest) := makeRoom room now is
      (i.makeWay now :: events, rest)

/--
The roll after its first items made room for a new one, which comes last.
-/
def push (r : Roll κ α) (now : Span) (i : Item κ α) : List (Event κ α) × Roll κ α :=
  let (events, items) := makeRoom r.room now r.items
  (events ++ [.came i.key i.value], { r with items := items ++ [i] })

def purge (r : Roll κ α) (now : Span) : List (Event κ α) × Roll κ α :=
  ((r.items.filter (·.isExpired now)).map (·.leave .expired),
    { r with items := r.items.filter (!·.isExpired now) })

section Keys

variable [DecidableEq κ]

def find? (r : Roll κ α) (k : κ) : Option (Item κ α) := r.items.find? (·.key = k)

def without (r : Roll κ α) (k : κ) : Roll κ α := { r with items := r.items.filter (·.key ≠ k) }

def get? (r : Roll κ α) (now : Span) (k : κ) : Option α :=
  ((r.find? k).filter (!·.isExpired now)).map (·.value)

/--
A live item is moved to the end, with another value and expiry, and nobody is told. An expired one
leaves before anything else happens.
-/
def set (r : Roll κ α) (now : Span) (k : κ) (a : α) (ttl : Option Span) :
    Option α × List (Event κ α) × Roll κ α :=
  let i : Item κ α := ⟨k, a, ttl.map now.add⟩
  match r.find? k with
  | none => (none, r.push now i)
  | some old =>
    let others := r.without k
    if old.isExpired now then
      let (events, r) := others.push now i
      (none, old.leave .expired :: events, r)
    else (some old.value, [], { r with items := others.items ++ [i] })

/--
An item leaves and its value is returned, expired or not.
-/
def remove (r : Roll κ α) (k : κ) (reason : Reason) : Option α × List (Event κ α) × Roll κ α :=
  match r.find? k with
  | none => (none, [], r)
  | some i => (some i.value, [i.leave reason], r.without k)

def call (r : Roll κ α) (now : Span) : Call κ α → Told κ α × Roll κ α
  | .set k a ttl =>
    let (old, events, r) := r.set now k a ttl
    ((.value old, events), r)
  | .get k => ((.value (r.get? now k), []), r)
  | .remove k reason =>
    let (old, events, r) := r.remove k reason
    ((.value old, events), r)
  | .delete k =>
    let (old, events, r) := r.remove k .deleted
    ((.value old, events), r)
  | .purge =>
    let (events, r) := r.purge now
    ((.count events.length, events), r)
  | .size => ((.count r.items.length, []), r)

def run (r : Roll κ α) (calls : List (Span × Call κ α)) : Roll κ α :=
  calls.foldl (fun r x => (r.call x.1 x.2).2) r

end Keys

end Roll

namespace Cache

open Roll (Item)

variable {κ : Type u} {α : Type v} [Ord κ] {c : Cache κ α} {k : κ} {e : Entry α} {last : Nat}

section Calls

variable [Std.TransOrd κ]

def call (c : Cache κ α) (now : Span) : Call κ α → Told κ α × Cache κ α
  | .set k a ttl =>
    let (old, events, c) := c.set now k a ttl
    ((.value old, events), c)
  | .get k => ((.value (c.get? now k), []), c)
  | .remove k reason =>
    let (old, events, c) := c.remove k reason
    ((.value old, events), c)
  | .delete k =>
    let (old, events, c) := c.delete k
    ((.value old, events), c)
  | .purge =>
    let (events, c) := c.purge now
    ((.count events.length, events), c)
  | .size => ((.count c.size, []), c)

def run (c : Cache κ α) (calls : List (Span × Call κ α)) : Cache κ α :=
  calls.foldl (fun c x => (c.call x.1 x.2).2) c

end Calls

def item? (c : Cache κ α) (k : κ) : Option (Item κ α) :=
  (c.entries.get? k).map fun e => ⟨k, e.value, e.expiry⟩

/--
The items in the order in which they were set last.
-/
def items (c : Cache κ α) : List (Item κ α) := c.order.values.filterMap c.item?

/--
The two maps have the same keys, under the numbers that their entries have. No number is above the
last one.
-/
structure Tied (c : Cache κ α) (last : Nat) : Prop where
  order_iff : ∀ n k, c.order.get? n = some k ↔ ∃ e, c.entries.get? k = some e ∧ e.seq = n
  le_last : ∀ n k, c.order.get? n = some k → n ≤ last

theorem item?_eq_some {i : Item κ α} :
    c.item? k = some i ↔ ∃ e, c.entries.get? k = some e ∧ i = ⟨k, e.value, e.expiry⟩ := by
  unfold item?
  rw [Option.map_eq_some_iff]
  simp only [eq_comm]

theorem key_of_item? {i : Item κ α} (h : c.item? k = some i) : i.key = k := by
  obtain ⟨e, _, rfl⟩ := item?_eq_some.1 h
  rfl

theorem item?_eq_none : c.item? k = none ↔ c.entries.get? k = none := by
  simp [item?]

namespace Tied

theorem mem_values (h : c.Tied last) : k ∈ c.order.values ↔ c.entries.get? k ≠ none := by
  constructor
  · intro hk
    obtain ⟨⟨n, l⟩, hmem, rfl⟩ := List.mem_map.1 hk
    obtain ⟨e, he, _⟩ := (h.order_iff n l).1 (SortedMap.mem_entries_iff.1 hmem)
    simp [he]
  · intro hk
    obtain ⟨e, he⟩ := Option.ne_none_iff_exists'.1 hk
    have hn := (h.order_iff e.seq k).2 ⟨e, he, rfl⟩
    exact List.mem_map.2 ⟨(e.seq, k), SortedMap.mem_entries_iff.2 hn, rfl⟩

theorem nodup_values (h : c.Tied last) : c.order.values.Nodup := by
  apply List.pairwise_map.2
  refine c.order.ordered.imp_of_mem ?_
  rintro ⟨n, l⟩ ⟨m, l'⟩ hx hy hlt rfl
  obtain ⟨e, he, rfl⟩ := (h.order_iff n l).1 (SortedMap.mem_entries_iff.1 hx)
  obtain ⟨e', he', rfl⟩ := (h.order_iff m l).1 (SortedMap.mem_entries_iff.1 hy)
  rw [he] at he'
  cases he'
  simp at hlt

theorem eq_of_seq (h : c.Tied last) {l : κ} {e e' : Entry α} (he : c.entries.get? k = some e)
    (he' : c.entries.get? l = some e') (hseq : e.seq = e'.seq) : k = l := by
  have hk := (h.order_iff e.seq k).2 ⟨e, he, rfl⟩
  have hl := (h.order_iff e.seq l).2 ⟨e', he', hseq.symm⟩
  rw [hk] at hl
  exact Option.some.inj hl

theorem mem_items (h : c.Tied last) {i : Item κ α} : i ∈ c.items ↔ c.item? i.key = some i := by
  unfold items
  rw [List.mem_filterMap]
  constructor
  · rintro ⟨k, _, hi⟩
    rwa [key_of_item? hi]
  · intro hi
    obtain ⟨e, he, _⟩ := item?_eq_some.1 hi
    exact ⟨i.key, h.mem_values.2 (by simp [he]), hi⟩

theorem map_key_items (h : c.Tied last) : c.items.map (·.key) = c.order.values := by
  have hall (ks : List κ) (hks : ∀ k ∈ ks, c.entries.get? k ≠ none) :
      (ks.filterMap c.item?).map (·.key) = ks := by
    induction ks with
    | nil => rfl
    | cons k ks ih =>
      obtain ⟨e, he⟩ := Option.ne_none_iff_exists'.1 (hks k List.mem_cons_self)
      have hi : c.item? k = some ⟨k, e.value, e.expiry⟩ := item?_eq_some.2 ⟨e, he, rfl⟩
      rw [List.filterMap_cons, hi, List.map_cons, ih fun l hl => hks l (List.mem_cons_of_mem k hl)]
  exact hall _ fun k hk => h.mem_values.1 hk

theorem nodup_items (h : c.Tied last) : c.items.Nodup := by
  apply List.Nodup.of_map (·.key)
  rw [h.map_key_items]
  exact h.nodup_values

end Tied

section Lawful

variable [DecidableEq κ]

theorem find?_filterMap_item? (c : Cache κ α) (k : κ) (ks : List κ) :
    (ks.filterMap c.item?).find? (·.key = k) = if k ∈ ks then c.item? k else none := by
  induction ks with
  | nil => rfl
  | cons l ks ih =>
    rw [List.filterMap_cons]
    cases hl : c.item? l with
    | none =>
      dsimp only
      rw [ih]
      by_cases hkl : k = l
      · simp [hkl, hl]
      · simp [hkl]
    | some i =>
      have hkey : i.key = l := key_of_item? hl
      dsimp only
      rw [List.find?_cons, hkey]
      by_cases hkl : k = l
      · simp [hkl, hl]
      · simp only [Ne.symm hkl, decide_false, ih, List.mem_cons, hkl, false_or]

theorem Tied.find?_items (h : c.Tied last) (k : κ) : c.items.find? (·.key = k) = c.item? k := by
  unfold items
  rw [find?_filterMap_item?]
  split
  · rfl
  · next hk =>
    have hnone : c.entries.get? k = none := by simpa [h.mem_values] using hk
    rw [item?_eq_none.2 hnone]

variable [Std.LawfulEqOrd κ]

theorem item?_forget (c : Cache κ α) (k : κ) (e : Entry α) (l : κ) :
    (c.forget k e).item? l = if l = k then none else c.item? l := by
  unfold item? forget
  rw [SortedMap.get?_erase]
  split <;> rfl

theorem item?_store [Std.TransOrd κ] (c : Cache κ α) (k : κ) (e : Entry α) (l : κ) :
    (c.store k e).item? l = if l = k then some ⟨k, e.value, e.expiry⟩ else c.item? l := by
  unfold item? store
  rw [SortedMap.get?_insert]
  split
  · next hl =>
    rw [hl]
    rfl
  · rfl

theorem filterMap_item?_forget (c : Cache κ α) (k : κ) (e : Entry α) (ks : List κ) :
    (ks.filter (· ≠ k)).filterMap (c.forget k e).item? =
      (ks.filterMap c.item?).filter (·.key ≠ k) := by
  induction ks with
  | nil => rfl
  | cons l ks ih =>
    rw [List.filterMap_cons, List.filter_cons]
    by_cases hl : l = k
    · rw [if_neg (by simpa using hl), ih]
      cases hi : c.item? l with
      | none => rfl
      | some i => rw [List.filter_cons_of_neg (by simpa using (key_of_item? hi).trans hl)]
    · have hforget : (c.forget k e).item? l = c.item? l := by rw [item?_forget, if_neg hl]
      rw [if_pos (by simpa using hl), List.filterMap_cons, hforget, ih]
      cases hi : c.item? l with
      | none => rfl
      | some i =>
        have hkey : i.key ≠ k := by rwa [key_of_item? hi]
        rw [List.filter_cons_of_pos (by simpa using hkey)]

namespace Tied

theorem length_items [Std.TransOrd κ] (h : c.Tied last) : c.items.length = c.size := by
  have hnodup : c.entries.keys.Nodup := by
    apply List.pairwise_map.2
    apply c.entries.ordered.imp
    intro x y hlt heq
    simp [heq] at hlt
  have hperm : c.order.values.Perm c.entries.keys := by
    apply (List.perm_ext_iff_of_nodup h.nodup_values hnodup).2
    intro k
    rw [h.mem_values, SortedMap.mem_keys_iff]
  calc c.items.length
    _ = c.order.values.length := by rw [← h.map_key_items, List.length_map]
    _ = c.entries.keys.length := hperm.length_eq
    _ = c.size := List.length_map _

section Forget

omit [Std.LawfulEqOrd κ] in
theorem values_forget (h : c.Tied last) (he : c.entries.get? k = some e) :
    (c.forget k e).order.values = c.order.values.filter (· ≠ k) := by
  have hcongr : c.order.entries.filter (fun x => compare e.seq x.1 != .eq) =
      c.order.entries.filter ((fun l => decide (l ≠ k)) ∘ Prod.snd) := by
    apply List.filter_congr
    rintro ⟨n, l⟩ hx
    obtain ⟨e', he', rfl⟩ := (h.order_iff n l).1 (SortedMap.mem_entries_iff.1 hx)
    by_cases hl : l = k
    · subst hl
      rw [he] at he'
      cases he'
      simp
    · have hne : e.seq ≠ e'.seq := fun hseq => hl (h.eq_of_seq he he' hseq).symm
      simp [hl, hne]
  unfold Cache.forget SortedMap.values SortedMap.erase
  rw [List.filter_map, ← hcongr]

theorem items_forget (h : c.Tied last) (he : c.entries.get? k = some e) :
    (c.forget k e).items = c.items.filter (·.key ≠ k) := by
  unfold items
  rw [h.values_forget he, filterMap_item?_forget]

theorem forget (h : c.Tied last) (he : c.entries.get? k = some e) : (c.forget k e).Tied last where
  order_iff n l := by
    unfold Cache.forget
    dsimp only
    rw [SortedMap.get?_erase, SortedMap.get?_erase]
    split
    · next hn =>
      constructor
      · intro hnone
        cases hnone
      · rintro ⟨e', he', hseq⟩
        split at he'
        · cases he'
        · next hl => exact absurd (h.eq_of_seq he he' (by omega)).symm hl
    · next hn =>
      rw [h.order_iff]
      split
      · next hl =>
        rw [hl, he]
        simp [Ne.symm hn]
      · rfl
  le_last n l hn := by
    unfold Cache.forget at hn
    dsimp only at hn
    rw [SortedMap.get?_erase] at hn
    split at hn
    · cases hn
    · exact h.le_last n l hn

end Forget

section Store

variable [Std.TransOrd κ]

theorem store (h : c.Tied last) (hnone : c.entries.get? k = none) (hlast : last < e.seq) :
    (c.store k e).Tied e.seq where
  order_iff n l := by
    unfold Cache.store
    dsimp only
    rw [SortedMap.get?_insert, SortedMap.get?_insert]
    split
    · next hn =>
      constructor
      · intro hk
        cases hk
        exact ⟨e, if_pos rfl, hn.symm⟩
      · rintro ⟨e', he', hseq⟩
        split at he'
        · next hl => rw [hl]
        · have hle := h.le_last n l ((h.order_iff n l).2 ⟨e', he', hseq⟩)
          omega
    · next hn =>
      rw [h.order_iff]
      split
      · next hl =>
        rw [hl, hnone]
        simp [Ne.symm hn]
      · rfl
  le_last n l hn := by
    unfold Cache.store at hn
    dsimp only at hn
    rw [SortedMap.get?_insert] at hn
    split at hn
    · omega
    · have hle := h.le_last n l hn
      omega

omit [DecidableEq κ] [Std.LawfulEqOrd κ] in
theorem values_store (h : c.Tied last) (hlast : last < e.seq) :
    (c.store k e).order.values = c.order.values ++ [k] := by
  have hentries : SortedMap.insertEntry e.seq k c.order.entries = c.order.entries ++ [(e.seq, k)] := by
    apply SortedMap.insertEntry_last
    rintro ⟨n, l⟩ hmem
    have hle := h.le_last n l (SortedMap.mem_entries_iff.1 hmem)
    exact Nat.compare_eq_gt.2 (by omega)
  show (SortedMap.insertEntry e.seq k c.order.entries).map (·.2) = _
  rw [hentries, List.map_append]
  rfl

theorem items_store (h : c.Tied last) (hnone : c.entries.get? k = none) (hlast : last < e.seq) :
    (c.store k e).items = c.items ++ [⟨k, e.value, e.expiry⟩] := by
  have hsame : ∀ l ∈ c.order.values, (c.store k e).item? l = c.item? l := by
    intro l hl
    rw [item?_store, if_neg]
    rintro rfl
    exact h.mem_values.1 hl hnone
  have hnew : (c.store k e).item? k = some ⟨k, e.value, e.expiry⟩ := by
    rw [item?_store, if_pos rfl]
  unfold items
  rw [h.values_store hlast, List.filterMap_append, List.filterMap_congr hsame,
    List.filterMap_cons, hnew]
  rfl

end Store

end Tied

end Lawful

end Cache

end Steward
