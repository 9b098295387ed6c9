import Mathlib
import Steward.Runaway.Storage

/-!
This module contains what a batch of records is made of: of all records with the same key the first
one, which counts the repeats of all of them. No key is in two rows, the rows are in the order in
which they started, and the statement that inserts them has a place for each of their values.
-/

namespace Steward.Runaway

namespace Buffer

variable {r first : Record} {rs l : List Record} {k : RecordKey}

def gathered (rs : List Record) : List Record := (rs.foldl add empty).records

def repeatsOf (k : RecordKey) (rs : List Record) : Nat :=
  ((rs.filter (·.key = k)).map (·.repeats)).sum

def rowOf? (k : RecordKey) (rs : List Record) : Option Record :=
  (rs.find? (·.key = k)).map fun first => { first with repeats := repeatsOf k rs }

theorem key_withRepeats (r : Record) (n : Nat) : ({ r with repeats := n } : Record).key = r.key := rfl

theorem keys_addTo (r : Record) (l : List Record) :
    (addTo r l).map (·.key) =
      if r.key ∈ l.map (·.key) then l.map (·.key) else l.map (·.key) ++ [r.key] := by
  induction l with
  | nil => rfl
  | cons first l ih =>
    unfold addTo
    by_cases hkey : first.key = r.key
    · simp [hkey, key_withRepeats]
    · rw [if_neg hkey, List.map_cons, ih]
      simp only [List.map_cons, List.mem_cons, Ne.symm hkey, false_or]
      split <;> rfl

theorem find?_addTo (r : Record) (l : List Record) (k : RecordKey) :
    (addTo r l).find? (·.key = k) =
      if r.key = k then
        some (((l.find? (·.key = k)).map fun x => { x with repeats := x.repeats + r.repeats }).getD r)
      else l.find? (·.key = k) := by
  induction l with
  | nil =>
    unfold addTo
    by_cases hk : r.key = k <;> simp [hk]
  | cons first l ih =>
    unfold addTo
    by_cases hkey : first.key = r.key
    · rw [if_pos hkey, List.find?_cons, List.find?_cons, key_withRepeats, hkey]
      by_cases hk : r.key = k <;> simp [hk]
    · rw [if_neg hkey, List.find?_cons, List.find?_cons, ih]
      by_cases hk : first.key = k
      · simp [hk, show r.key ≠ k from fun h => hkey (hk.trans h.symm)]
      · simp [hk]

theorem size_add_le (b : Buffer) (r : Record) : (b.add r).size ≤ b.size + 1 := by
  have hkeys := congrArg List.length (keys_addTo r b.records)
  rw [List.length_map] at hkeys
  unfold size add
  rw [hkeys]
  split <;> simp

theorem gathered_concat (rs : List Record) (r : Record) :
    gathered (rs ++ [r]) = addTo r (gathered rs) := by
  unfold gathered
  rw [List.foldl_append]
  rfl

theorem repeatsOf_concat (k : RecordKey) (rs : List Record) (r : Record) :
    repeatsOf k (rs ++ [r]) = repeatsOf k rs + if r.key = k then r.repeats else 0 := by
  unfold repeatsOf
  rw [List.filter_append, List.map_append, List.sum_append]
  by_cases hk : r.key = k <;> simp [hk]

theorem nodup_gathered (rs : List Record) : ((gathered rs).map (·.key)).Nodup := by
  induction rs using List.reverseRecOn with
  | nil => exact .nil
  | append_singleton rs r ih =>
    rw [gathered_concat, keys_addTo]
    split
    · exact ih
    · next hnew =>
      exact (List.perm_append_singleton _ _).nodup_iff.2 (List.nodup_cons.2 ⟨hnew, ih⟩)

theorem find?_gathered (rs : List Record) (k : RecordKey) :
    (gathered rs).find? (·.key = k) = rowOf? k rs := by
  induction rs using List.reverseRecOn with
  | nil => rfl
  | append_singleton rs r ih =>
    rw [gathered_concat, find?_addTo, ih]
    unfold rowOf?
    rw [List.find?_append, repeatsOf_concat]
    by_cases hk : r.key = k
    · cases hfind : rs.find? (·.key = k) with
      | none =>
        have hnone : rs.filter (·.key = k) = [] := by
          rw [List.filter_eq_nil_iff]
          exact fun x hx => List.find?_eq_none.1 hfind x hx
        simp [hk, repeatsOf, hnone]
      | some x => simp [hk]
    · simp [hk]

theorem find?_eq_some_of_mem (h : (l.map (·.key)).Nodup) (hr : r ∈ l) :
    l.find? (·.key = r.key) = some r := by
  induction l with
  | nil => cases hr
  | cons first l ih =>
    obtain ⟨hfirst, hl⟩ := List.nodup_cons.1 h
    rw [List.find?_cons]
    cases List.mem_cons.1 hr with
    | inl hsame => simp [hsame]
    | inr hmem =>
      have hne : first.key ≠ r.key := by
        intro heq
        exact hfirst (List.mem_map.2 ⟨r, hmem, heq.symm⟩)
      simp only [hne, decide_false]
      exact ih hl hmem

def rowsOf (rs : List Record) : List Record := (rs.foldl add empty).batch

theorem rowsOf_perm (rs : List Record) : (rowsOf rs).Perm (gathered rs) := List.mergeSort_perm _ _

theorem length_rowsOf (rs : List Record) : (rowsOf rs).length = (rs.foldl add empty).size :=
  (rowsOf_perm rs).length_eq

theorem nodup_rowsOf (rs : List Record) : ((rowsOf rs).map (·.key)).Nodup :=
  ((rowsOf_perm rs).map _).nodup_iff.2 (nodup_gathered rs)

theorem sorted_rowsOf (rs : List Record) : (rowsOf rs).Pairwise fun a b => a.start ≤ b.start := by
  have htrans : ∀ a b c : Record, decide (a.start ≤ b.start) = true →
      decide (b.start ≤ c.start) = true → decide (a.start ≤ c.start) = true := by
    intro a b c hab hbc
    have hab : a.start.nanos ≤ b.start.nanos := of_decide_eq_true hab
    have hbc : b.start.nanos ≤ c.start.nanos := of_decide_eq_true hbc
    exact decide_eq_true (Int.le_trans hab hbc)
  have htotal : ∀ a b : Record,
      (decide (a.start ≤ b.start) || decide (b.start ≤ a.start)) = true := by
    intro a b
    rw [Bool.or_eq_true, decide_eq_true_iff, decide_eq_true_iff]
    exact Int.le_total a.start.nanos b.start.nanos
  exact (List.pairwise_mergeSort htrans htotal _).imp of_decide_eq_true

theorem mem_rowsOf_iff : r ∈ rowsOf rs ↔ rowOf? r.key rs = some r := by
  rw [(rowsOf_perm rs).mem_iff, ← find?_gathered]
  exact ⟨find?_eq_some_of_mem (nodup_gathered rs), List.mem_of_find?_eq_some⟩

theorem exists_row (hr : r ∈ rs) : ∃ row ∈ rowsOf rs, row.key = r.key := by
  have hsome : ∃ first, rs.find? (·.key = r.key) = some first := by
    rw [← Option.isSome_iff_exists, List.find?_isSome]
    exact ⟨r, hr, by simp⟩
  obtain ⟨first, hfirst⟩ := hsome
  have hkey : first.key = r.key := by simpa using List.find?_some hfirst
  refine ⟨{ first with repeats := repeatsOf r.key rs }, mem_rowsOf_iff.2 ?_, hkey⟩
  rw [key_withRepeats, hkey]
  unfold rowOf?
  rw [hfirst]
  rfl

theorem rowsOf_eq_nil_iff : rowsOf rs = [] ↔ rs = [] := by
  constructor
  · intro hnil
    by_contra hne
    obtain ⟨r, hr⟩ := List.exists_mem_of_ne_nil _ hne
    obtain ⟨row, hrow, _⟩ := exists_row hr
    rw [hnil] at hrow
    cases hrow
  · rintro rfl
    exact List.eq_nil_of_length_eq_zero (length_rowsOf [])

theorem sum_repeats_addTo (r : Record) (l : List Record) :
    ((addTo r l).map (·.repeats)).sum = (l.map (·.repeats)).sum + r.repeats := by
  induction l with
  | nil => simp [addTo]
  | cons first l ih =>
    unfold addTo
    split
    · simp only [List.map_cons, List.sum_cons]
      omega
    · simp only [List.map_cons, List.sum_cons, ih]
      omega

theorem sum_repeats_rowsOf (rs : List Record) :
    ((rowsOf rs).map (·.repeats)).sum = (rs.map (·.repeats)).sum := by
  rw [((rowsOf_perm rs).map _).sum_eq]
  induction rs using List.reverseRecOn with
  | nil => rfl
  | append_singleton rs r ih =>
    rw [gathered_concat, sum_repeats_addTo, ih, List.map_append, List.sum_append]
    rfl

end Buffer

namespace Storage

def placeholdersIn (sql : String) : Nat := sql.toList.count '?'

theorem placeholdersIn_append (a b : String) :
    placeholdersIn (a ++ b) = placeholdersIn a + placeholdersIn b := by
  unfold placeholdersIn
  rw [String.toList_append, List.count_append]

theorem placeholdersIn_intercalate {sep : String} (h : placeholdersIn sep = 0) (l : List String) :
    placeholdersIn (sep.intercalate l) = (l.map placeholdersIn).sum := by
  unfold placeholdersIn at h ⊢
  rw [String.toList_intercalate]
  induction l with
  | nil => rfl
  | cons a l ih =>
    cases l with
    | nil => simp [List.intercalate]
    | cons b l =>
      rw [List.map_cons, List.map_cons, List.intercalate_cons_cons, List.count_append,
        List.count_append, h]
      rw [List.map_cons] at ih
      rw [ih]
      simp

theorem insertRecords_places (rs : List Record) :
    placeholdersIn (insertRecords rs).sql = 10 * rs.length ∧
      (insertRecords rs).params.length = 10 * rs.length := by
  constructor
  · have hhead : placeholdersIn s!"INSERT INTO mysql.holo_runaway_queries ({recordColumns}) VALUES " =
        0 := by decide +kernel
    have hsep : placeholdersIn ", " = 0 := by decide
    unfold insertRecords
    rw [placeholdersIn_append, hhead, placeholdersIn_intercalate hsep, List.map_map]
    have hconst : placeholdersIn ∘ (fun _ : Record => s!"({placeholders 10})") = fun _ => 10 :=
      funext fun _ => by
        rw [Function.comp_apply]
        decide +kernel
    rw [hconst]
    simp [Nat.mul_comm]
  · have hten : ∀ r : Record, r.params.length = 10 := fun _ => rfl
    unfold insertRecords
    simp [List.length_flatMap, hten, Nat.mul_comm]

end Storage

end Steward.Runaway
