import Steward.Cache.Basic
import Steward.Data.SortedMap.Lemmas

/-!
This module contains the balance of a cache: every value that was in it or came is in it or left
with an event, apart from a value that another one was put in place of, which is handed back.
-/

namespace Steward.Cache

universe u v

namespace Event

variable {κ : Type u} {α : Type v}

def left? : Event κ α → Option α
  | .came _ _ => none
  | .left _ a _ => some a

def isDeletion : Event κ α → Bool
  | .left _ _ .deleted => true
  | _ => false

end Event

variable {κ : Type u} {α : Type v} [Ord κ] {c : Cache κ α} {k : κ} {e : Entry α} {now : Span}

def values (c : Cache κ α) : List α := c.entries.values.map (·.value)

def leavers (events : List (Event κ α)) : List α := events.filterMap Event.left?

section Leavers

omit [Ord κ]

theorem leavers_append (es fs : List (Event κ α)) :
    leavers (es ++ fs) = leavers es ++ leavers fs := List.filterMap_append

theorem leavers_came (es : List (Event κ α)) (k : κ) (a : α) :
    leavers (es ++ [.came k a]) = leavers es := (leavers_append _ _).trans (List.append_nil _)

end Leavers

section Lawful

variable [DecidableEq κ] [Std.LawfulEqOrd κ]

theorem values_perm_forget (h : c.entries.get? k = some e) :
    c.values.Perm (e.value :: (c.forget k e).values) :=
  (SortedMap.values_perm_erase h).map Entry.value

theorem values_store_perm [Std.TransOrd κ] (h : c.entries.get? k = none) :
    (c.store k e).values.Perm (e.value :: c.values) :=
  (SortedMap.values_insert_perm h).map Entry.value

theorem get?_forget (c : Cache κ α) (k : κ) (e : Entry α) (l : κ) :
    (c.forget k e).entries.get? l = if l = k then none else c.entries.get? l :=
  SortedMap.get?_erase _ _ _

section MakeRoom

theorem get?_makeRoom_eq_none (now : Span) {l : κ} (ks : List κ) (h : c.entries.get? l = none) :
    (c.makeRoom now ks).2.entries.get? l = none := by
  induction ks generalizing c with
  | nil => exact h
  | cons k ks ih =>
    unfold makeRoom
    split
    · exact h
    · split
      · exact ih h
      · apply ih
        rw [get?_forget]
        split
        · rfl
        · exact h

theorem values_makeRoom (now : Span) (c : Cache κ α) (ks : List κ) :
    c.values.Perm (leavers (c.makeRoom now ks).1 ++ (c.makeRoom now ks).2.values) := by
  induction ks generalizing c with
  | nil => exact .refl _
  | cons k ks ih =>
    unfold makeRoom
    split
    · exact .refl _
    · split
      · exact ih c
      · next e he => exact (values_perm_forget he).trans ((ih _).cons _)

omit [DecidableEq κ] [Std.LawfulEqOrd κ] in
theorem not_deletion_makeRoom (now : Span) (c : Cache κ α) (ks : List κ) :
    ∀ ev ∈ (c.makeRoom now ks).1, ev.isDeletion = false := by
  induction ks generalizing c with
  | nil => exact fun _ h => absurd h List.not_mem_nil
  | cons k ks ih =>
    unfold makeRoom
    split
    · exact fun _ h => absurd h List.not_mem_nil
    · split
      · exact ih c
      · next e he =>
        dsimp only
        refine List.forall_mem_cons.2 ⟨?_, ih _⟩
        unfold Entry.reasonToLeave
        split <;> rfl

end MakeRoom

section Set

variable [Std.TransOrd κ]

theorem values_replace (old : Entry α) (h : c.entries.get? k = some old) :
    (e.value :: c.values).Perm (old.value :: (c.replace k old e).values) := by
  have hnone : (c.forget k old).entries.get? k = none := by
    rw [get?_forget, if_pos rfl]
  calc e.value :: c.values
    _ |>.Perm (e.value :: old.value :: (c.forget k old).values) := (values_perm_forget h).cons _
    _ |>.Perm (old.value :: e.value :: (c.forget k old).values) := .swap _ _ _
    _ |>.Perm (old.value :: (c.replace k old e).values) :=
      ((values_store_perm hnone).symm).cons _

theorem values_storeAfter (now : Span) (e : Entry α) (ks : List κ)
    (h : c.entries.get? k = none) :
    (e.value :: c.values).Perm
      (leavers (c.makeRoom now ks).1 ++ ((c.makeRoom now ks).2.store k e).values) := by
  have hstore := values_store_perm (e := e) (get?_makeRoom_eq_none now ks h)
  calc e.value :: c.values
    _ |>.Perm (e.value :: (leavers (c.makeRoom now ks).1 ++ (c.makeRoom now ks).2.values)) :=
      (values_makeRoom now c ks).cons _
    _ |>.Perm (leavers (c.makeRoom now ks).1 ++ e.value :: (c.makeRoom now ks).2.values) :=
      List.perm_middle.symm
    _ |>.Perm (leavers (c.makeRoom now ks).1 ++ ((c.makeRoom now ks).2.store k e).values) :=
      hstore.symm.append_left _

theorem values_place (now : Span) (c : Cache κ α) (k : κ) (e : Entry α) :
    (e.value :: c.values).Perm (leavers (c.place now k e).1 ++ (c.place now k e).2.values) := by
  unfold place
  cases hold : c.entries.get? k with
  | none =>
    dsimp only
    rw [List.nil_append, leavers_came]
    exact values_storeAfter now e _ hold
  | some old =>
    have hnone : (c.forget k old).entries.get? k = none := by
      rw [get?_forget, if_pos rfl]
    dsimp only
    rw [leavers_came]
    calc e.value :: c.values
      _ |>.Perm (e.value :: old.value :: (c.forget k old).values) :=
        (values_perm_forget hold).cons _
      _ |>.Perm (old.value :: e.value :: (c.forget k old).values) := .swap _ _ _
      _ |>.Perm _ := (values_storeAfter now e _ hnone).cons _

theorem values_set (c : Cache κ α) (now : Span) (k : κ) (a : α) (ttl : Option Span) :
    (a :: c.values).Perm ((c.set now k a ttl).1.toList ++ leavers (c.set now k a ttl).2.1 ++
      (c.set now k a ttl).2.2.values) := by
  unfold set
  dsimp only
  split
  · next old hold =>
    have hget := (Option.filter_eq_some_iff.1 hold).1
    exact values_replace (c := { c with lastSeq := c.lastSeq + 1 })
      (e := ⟨a, ttl.map now.add, c.lastSeq + 1⟩) old hget
  · exact values_place now { c with lastSeq := c.lastSeq + 1 } k
      ⟨a, ttl.map now.add, c.lastSeq + 1⟩

end Set

section Removal

theorem values_remove (c : Cache κ α) (k : κ) (reason : Reason) :
    c.values.Perm (leavers (c.remove k reason).2.1 ++ (c.remove k reason).2.2.values) := by
  unfold remove
  split
  · exact .refl _
  · next e he => exact values_perm_forget he

theorem values_purgeKeys (c : Cache κ α) (ks : List κ) :
    c.values.Perm (leavers (c.purgeKeys ks).1 ++ (c.purgeKeys ks).2.values) := by
  induction ks generalizing c with
  | nil => exact .refl _
  | cons k ks ih =>
    unfold purgeKeys
    dsimp only
    rw [leavers_append, List.append_assoc]
    exact (values_remove c k .expired).trans ((ih _).append_left _)

end Removal

end Lawful

section Deletion

theorem not_deletion_set [Std.TransOrd κ] (c : Cache κ α) (now : Span) (k : κ) (a : α)
    (ttl : Option Span) : ∀ ev ∈ (c.set now k a ttl).2.1, ev.isDeletion = false := by
  intro ev hev
  unfold set at hev
  dsimp only at hev
  split at hev
  · cases hev
  · unfold place at hev
    dsimp only at hev
    rcases List.mem_append.1 hev with hev | hev
    · rcases List.mem_append.1 hev with hev | hev
      · split at hev
        · cases List.mem_singleton.1 hev
          rfl
        · cases hev
      · exact not_deletion_makeRoom _ _ _ ev hev
    · cases List.mem_singleton.1 hev
      rfl

theorem not_deletion_remove (c : Cache κ α) (k : κ) {reason : Reason} (h : reason ≠ .deleted) :
    ∀ ev ∈ (c.remove k reason).2.1, ev.isDeletion = false := by
  intro ev hev
  unfold remove at hev
  split at hev
  · cases hev
  · cases List.mem_singleton.1 hev
    cases reason with
    | deleted => exact absurd rfl h
    | _ => rfl

theorem not_deletion_purgeKeys (c : Cache κ α) (ks : List κ) :
    ∀ ev ∈ (c.purgeKeys ks).1, ev.isDeletion = false := by
  induction ks generalizing c with
  | nil => exact fun _ h => absurd h List.not_mem_nil
  | cons k ks ih =>
    intro ev hev
    cases List.mem_append.1 hev with
    | inl hev => exact not_deletion_remove c k (by decide) ev hev
    | inr hev => exact ih _ ev hev

end Deletion

end Steward.Cache
