import Mathlib.Data.List.Basic
import Steward.Proofs.Cache.Values
import Steward.Runaway.WatchList

/-!
This module contains the balance of the watch list: a row that is taken into the list stays in it
until it is deleted or retired. Only provisional watches are overwritten.
-/

namespace Steward

universe u v

namespace Cache

variable {κ : Type u} {α : Type v} [Ord κ] [DecidableEq κ] [Std.LawfulEqOrd κ]

omit [DecidableEq κ] [Std.LawfulEqOrd κ] in
theorem fst_set [Std.TransOrd κ] (c : Cache κ α) (now : Span) (k : κ) (a : α)
    (ttl : Option Span) : (c.set now k a ttl).1 = c.get? now k := by
  unfold set get?
  dsimp only
  cases (c.entries.get? k).filter fun old => !old.isExpired now <;> rfl

theorem get?_remove (c : Cache κ α) (now : Span) (k : κ) (reason : Reason) :
    (c.remove k reason).2.2.get? now k = none := by
  unfold remove
  split
  · next hnone =>
    unfold get?
    rw [hnone]
    rfl
  · unfold get?
    rw [get?_forget, if_pos rfl]
    rfl

end Cache

namespace Runaway

open Cache (leavers)

def rows (id : Int) (ws : List Watch) : Nat := ws.countP (·.id == id)

variable {id : Int} {now : Span} {w : Watch} {ttl : Option Span} {l : WatchList}

@[simp]
theorem rows_nil (id : Int) : rows id [] = 0 := rfl

@[simp]
theorem rows_append (id : Int) (ws vs : List Watch) : rows id (ws ++ vs) = rows id ws + rows id vs :=
  List.countP_append

theorem rows_cons (id : Int) (w : Watch) (ws : List Watch) :
    rows id (w :: ws) = rows id [w] + rows id ws := rows_append id [w] ws

theorem rows_perm (id : Int) {ws vs : List Watch} (h : ws.Perm vs) : rows id ws = rows id vs :=
  h.countP_eq _

theorem rows_eq_zero {ws : List Watch} (h : ∀ w ∈ ws, w.id ≠ id) : rows id ws = 0 :=
  List.countP_eq_zero.2 fun w hw => by simpa using h w hw

theorem retired_eq_leavers {events : List WatchEvent} (h : ∀ ev ∈ events, ev.isDeletion = false) :
    events.filterMap WatchEvent.retired? = leavers events := by
  apply List.filterMap_congr
  intro ev hev
  cases ev with
  | came k w => rfl
  | left k w reason =>
    cases reason with
    | deleted => cases h _ hev
    | _ => rfl

def Outcome.admitted (o : Outcome) (w : Watch) : List Watch :=
  match o with
  | .unchanged => []
  | .inserted | .replaced | .stale => [w]

namespace WatchList

def watches (l : WatchList) : List Watch := l.cache.values

/--
Of the watches with an id, those that were in the list or came are in the list, or they were deleted
or retired.
-/
def Balanced (id : Int) (came deleted : List Watch) (l : WatchList) (r : List Watch × WatchList) :
    Prop :=
  rows id came + rows id l.watches = rows id deleted + rows id r.1 + rows id r.2.watches

theorem watches_set (l : WatchList) (now : Span) (w : Watch) (ttl : Option Span) :
    (w :: l.watches).Perm
      ((l.get? now w.key).toList ++ (l.set now w ttl).1 ++ (l.set now w ttl).2.watches) := by
  have h := Cache.values_set l.cache now w.key w ttl
  rw [Cache.fst_set, ← retired_eq_leavers (Cache.not_deletion_set l.cache now w.key w ttl)] at h
  exact h

theorem watches_supersede (l : WatchList) (key : String) :
    l.watches.Perm ((l.supersede key).2.1 ++ (l.supersede key).2.2.watches) := by
  have h := Cache.values_remove l.cache key .superseded
  rw [← retired_eq_leavers (Cache.not_deletion_remove l.cache key (by decide))] at h
  exact h

theorem get?_supersede (l : WatchList) (now : Span) (key : String) :
    (l.supersede key).2.2.get? now key = none := Cache.get?_remove _ _ _ _

theorem balanced_set (h : ∀ old, l.get? now w.key = some old → old.id ≠ id) :
    Balanced id [w] [] l (l.set now w ttl) := by
  have hold : rows id (l.get? now w.key).toList = 0 := by
    apply rows_eq_zero
    intro old hmem
    exact h old (Option.mem_toList.1 hmem)
  have hset := rows_perm id (watches_set l now w ttl)
  rw [rows_cons, rows_append, rows_append, hold] at hset
  unfold Balanced
  rw [rows_nil]
  omega

theorem balanced_supersede_set (id : Int) (l : WatchList) (now : Span) (w : Watch) (ttl : Option Span) :
    Balanced id [w] [] l ((l.supersede w.key).2.1 ++ ((l.supersede w.key).2.2.set now w ttl).1,
      ((l.supersede w.key).2.2.set now w ttl).2) := by
  have hnone := get?_supersede l now w.key
  have hset : Balanced id [w] [] (l.supersede w.key).2.2
      ((l.supersede w.key).2.2.set now w ttl) := by
    apply balanced_set
    intro old hold
    rw [hnone] at hold
    cases hold
  have hsuper := rows_perm id (watches_supersede l w.key)
  unfold Balanced at hset ⊢
  dsimp only
  rw [rows_append] at hsuper ⊢
  rw [rows_nil] at hset ⊢
  omega

theorem balanced_quarantine (hid : id ≠ 0) (hw : w.id = 0) :
    Balanced id [] [] l (l.quarantine now w ttl) := by
  have hnone : rows id [w] = rows id [] := by
    apply rows_eq_zero
    intro v hv
    rw [List.mem_singleton.1 hv, hw]
    exact hid.symm
  unfold quarantine
  split
  · have h := balanced_supersede_set id l now w ttl
    unfold Balanced at h
    rw [hnone] at h
    exact h
  · next hdurable =>
    have h : Balanced id [w] [] l (l.set now w ttl) := by
      apply balanced_set
      intro old hold
      rw [hold] at hdurable
      simp only [Option.any_some, Watch.isDurable, bne_iff_ne, ne_eq, Decidable.not_not] at hdurable
      rw [hdurable]
      exact hid.symm
    unfold Balanced at h
    rw [hnone] at h
    exact h

theorem balanced_force (id : Int) (l : WatchList) (now : Span) (w : Watch) (ttl : Option Span) :
    Balanced id ((l.force now w ttl).1.admitted w) [] l (l.force now w ttl).2 := by
  unfold force
  split
  · rfl
  · have h := balanced_supersede_set id l now w ttl
    dsimp only
    split <;> exact h

theorem balanced_stale (id : Int) (l : WatchList) (w : Watch) : Balanced id [w] [] l ([w], l) := by
  unfold Balanced
  rw [rows_nil, Nat.zero_add]

theorem balanced_add (hid : id ≠ 0) :
    Balanced id ((l.add now w ttl).1.admitted w) [] l (l.add now w ttl).2 := by
  unfold add
  split
  · next hnone =>
    apply balanced_set
    intro old hold
    rw [hnone] at hold
    cases hold
  · next old hold =>
    split
    · rfl
    · split
      · exact balanced_stale id l w
      · next hdurable =>
        apply balanced_set
        intro v hv
        rw [hold] at hv
        cases hv
        simp only [Watch.isDurable, bne_iff_ne, ne_eq, Decidable.not_not] at hdurable
        rw [hdurable]
        exact hid.symm

theorem balanced_addRow (hid : id ≠ 0) (l : WatchList) (now : Now) (w : Watch) :
    Balanced id ((l.addRow now w).1.admitted w) [] l (l.addRow now w).2 := by
  unfold addRow
  dsimp only
  split
  · exact balanced_stale id l w
  · split
    · exact balanced_force id l _ w _
    · exact balanced_add hid
  · split
    · exact balanced_force id l _ w _
    · exact balanced_add hid

theorem get?_eq_some {key : String} {v : Watch} (h : l.get? now key = some v) :
    ∃ e, l.cache.entries.get? key = some e ∧ e.value = v := by
  obtain ⟨e, he, hv⟩ := Option.map_eq_some_iff.1 h
  exact ⟨e, (Option.filter_eq_some_iff.1 he).1, hv⟩

theorem balanced_remove (id : Int) (l : WatchList) (now : Span) (w : Watch) :
    Balanced id [] (if (l.remove now w).1 then [w] else []) l (l.remove now w).2 := by
  unfold Balanced
  unfold remove
  cases hget : l.get? now w.key with
  | none => simp [rows]
  | some v =>
    cases hid : v.id == w.id with
    | false => simp [hid, rows]
    | true =>
      obtain ⟨e, he, hv⟩ := get?_eq_some hget
      have hrow : rows id [w] = rows id [e.value] := by simp [rows, hv, beq_iff_eq.1 hid]
      have hperm := rows_perm id (Cache.values_perm_forget he)
      simp only [Option.any_some, hid, if_true, Cache.delete, Cache.remove, he, observe]
      rw [hrow, rows_nil, Nat.zero_add]
      exact hperm.trans (rows_cons _ _ _)

theorem balanced_purge (id : Int) (l : WatchList) (now : Span) :
    Balanced id [] [] l (l.purge now).2 := by
  let ks := (l.cache.entries.entries.filter fun e => e.2.isExpired now).map (·.1)
  have h := Cache.values_purgeKeys l.cache ks
  rw [← retired_eq_leavers (Cache.not_deletion_purgeKeys l.cache ks)] at h
  have hrows := (rows_perm id h).trans (rows_append _ _ _)
  unfold Balanced
  rw [rows_nil, Nat.zero_add, Nat.zero_add]
  exact hrows

end WatchList

end Runaway

end Steward
