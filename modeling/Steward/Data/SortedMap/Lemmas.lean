import Steward.Data.SortedMap

/-!
This module contains what reading a sorted map says after each operation. A map is known by its
values: `ext_get?` says that two maps with the same value at every key are equal, and
`get?_insert` and `get?_erase` compute the values of a changed map.
-/

namespace Steward.SortedMap

universe u v

variable {κ : Type u} {α : Type v} [Ord κ]

/--
The value at a key in a list of entries.
-/
def valueIn (k : κ) (es : List (κ × α)) : Option α :=
  (es.find? fun e => compare k e.1 == .eq).map (·.2)

theorem contains_iff {m : SortedMap κ α} {k : κ} : m.contains k ↔ m.get? k ≠ none := by
  simp [contains, Option.isSome_iff_ne_none]

theorem get?_eq_valueIn (m : SortedMap κ α) (k : κ) : m.get? k = valueIn k m.entries := rfl

@[simp]
theorem valueIn_nil (k : κ) : valueIn k ([] : List (κ × α)) = none := rfl

@[simp]
theorem get?_empty (k : κ) : (∅ : SortedMap κ α).get? k = none := rfl

/--
An entry whose key is above all others is put at the end.
-/
theorem insertEntry_last {k : κ} {a : α} {es : List (κ × α)}
    (h : ∀ e ∈ es, compare k e.1 = .gt) : insertEntry k a es = es ++ [(k, a)] := by
  induction es with
  | nil => rfl
  | cons e es ih =>
    rw [insertEntry, h e List.mem_cons_self]
    dsimp only
    rw [ih fun x hx => h x (List.mem_cons_of_mem e hx), List.cons_append]

/--
The first entry has the least key.
-/
theorem compare_first?_ne_gt [Std.TransOrd κ] {m : SortedMap κ α} {e x : κ × α}
    (h : m.first? = some e) (hx : x ∈ m.entries) : compare e.1 x.1 ≠ .gt := by
  obtain ⟨es, hes⟩ := m
  cases es with
  | nil => simp at hx
  | cons f es =>
    obtain rfl : f = e := by simpa [first?] using h
    rcases List.mem_cons.1 hx with rfl | hx
    · simp
    · simp [(List.pairwise_cons.1 hes).1 x hx]

section Lawful

variable [DecidableEq κ] [Std.LawfulEqOrd κ]

theorem valueIn_cons (k : κ) (e : κ × α) (es : List (κ × α)) :
    valueIn k (e :: es) = if k = e.1 then some e.2 else valueIn k es := by
  by_cases h : k = e.1 <;> simp [valueIn, h]

theorem valueIn_insertEntry (k : κ) (a : α) (l : κ) (es : List (κ × α)) :
    valueIn l (insertEntry k a es) = if l = k then some a else valueIn l es := by
  induction es with
  | nil => simp [insertEntry, valueIn_cons]
  | cons e es ih =>
    rw [insertEntry]
    split
    · rw [valueIn_cons]
    · rename_i h
      rw [Std.LawfulEqOrd.eq_of_compare h, valueIn_cons, valueIn_cons]
      split <;> rfl
    · rename_i h
      have hk : k ≠ e.1 := fun hk => by simp [hk] at h
      rw [valueIn_cons, valueIn_cons, ih]
      by_cases hl : l = e.1
      · simp [hl, hk.symm]
      · simp [hl]

theorem valueIn_eq_none {k : κ} {es : List (κ × α)} (h : ∀ e ∈ es, e.1 ≠ k) :
    valueIn k es = none := by
  induction es with
  | nil => rfl
  | cons e es ih =>
    have hk : k ≠ e.1 := (h e List.mem_cons_self).symm
    rw [valueIn_cons, if_neg hk]
    exact ih fun x hx => h x (List.mem_cons_of_mem _ hx)

theorem valueIn_filter (p : κ → α → Bool) (k : κ) {es : List (κ × α)}
    (h : es.Pairwise fun a b => compare a.1 b.1 = .lt) :
    valueIn k (es.filter fun e => p e.1 e.2) = (valueIn k es).filter (p k) := by
  induction es with
  | nil => rfl
  | cons e es ih =>
    have ⟨he, hes⟩ := List.pairwise_cons.1 h
    rw [List.filter_cons, valueIn_cons]
    by_cases hk : k = e.1
    · subst hk
      by_cases hp : p e.1 e.2
      · simp [hp, valueIn_cons, Option.filter]
      · have : valueIn e.1 (es.filter fun e => p e.1 e.2) = none :=
          valueIn_eq_none fun x hx hxe => by
            simpa [hxe] using he x (List.mem_filter.1 hx).1
        simp [hp, this, Option.filter]
    · rw [if_neg hk, ← ih hes]
      split
      · rw [valueIn_cons, if_neg hk]
      · rfl

theorem mem_iff_valueIn {k : κ} {a : α} {es : List (κ × α)}
    (h : es.Pairwise fun a b => compare a.1 b.1 = .lt) :
    (k, a) ∈ es ↔ valueIn k es = some a := by
  induction es with
  | nil => simp
  | cons e es ih =>
    have ⟨he, hes⟩ := List.pairwise_cons.1 h
    rw [List.mem_cons, valueIn_cons, ih hes]
    by_cases hk : k = e.1
    · subst hk
      have : valueIn e.1 es = none :=
        valueIn_eq_none fun x hx hxe => by simpa [hxe] using he x hx
      simp [this, Prod.ext_iff, eq_comm]
    · simp [Prod.ext_iff, hk]

theorem mem_entries_iff {m : SortedMap κ α} {k : κ} {a : α} :
    (k, a) ∈ m.entries ↔ m.get? k = some a := mem_iff_valueIn m.ordered

theorem mem_keys_iff {m : SortedMap κ α} {k : κ} : k ∈ m.keys ↔ m.get? k ≠ none := by
  constructor
  · intro h
    obtain ⟨e, he, rfl⟩ := List.mem_map.1 h
    rw [mem_entries_iff.1 he]
    simp
  · intro h
    obtain ⟨a, ha⟩ := Option.ne_none_iff_exists'.1 h
    exact List.mem_map.2 ⟨(k, a), mem_entries_iff.2 ha, rfl⟩

theorem get?_insert [Std.TransOrd κ] (m : SortedMap κ α) (k : κ) (a : α) (l : κ) :
    (m.insert k a).get? l = if l = k then some a else m.get? l :=
  valueIn_insertEntry k a l m.entries

/--
The first entry is the one with the least key.
-/
theorem first?_eq_some_iff [Std.TransOrd κ] {m : SortedMap κ α} {k : κ} {a : α} :
    m.first? = some (k, a) ↔ m.get? k = some a ∧ ∀ l, m.get? l ≠ none → compare k l ≠ .gt := by
  constructor
  · intro h
    refine ⟨mem_entries_iff.1 (List.mem_of_mem_head? h), ?_⟩
    intro l hl
    obtain ⟨b, hb⟩ := Option.ne_none_iff_exists'.1 hl
    exact compare_first?_ne_gt h (mem_entries_iff.2 hb)
  · rintro ⟨hk, hleast⟩
    cases hf : m.first? with
    | none =>
      have : m.entries = [] := List.head?_eq_none_iff.1 hf
      have hmem := mem_entries_iff.2 hk
      rw [this] at hmem
      cases hmem
    | some e =>
      have hmem : e ∈ m.entries := List.mem_of_mem_head? hf
      have hget : m.get? e.1 = some e.2 := mem_entries_iff.1 hmem
      have hle := hleast e.1 (by simp [hget])
      have hge := compare_first?_ne_gt hf (mem_entries_iff.2 hk)
      have heq : k = e.1 := by
        apply Std.LawfulEqOrd.eq_of_compare
        cases hc : compare k e.1 with
        | eq => rfl
        | gt => exact absurd hc hle
        | lt => exact absurd (Std.OrientedCmp.gt_of_lt hc) hge
      rw [← heq, hk] at hget
      cases e
      simp_all

theorem first?_eq_none_iff {m : SortedMap κ α} : m.first? = none ↔ ∀ k, m.get? k = none := by
  constructor
  · intro h k
    have : m.entries = [] := List.head?_eq_none_iff.1 h
    rw [get?_eq_valueIn, this, valueIn_nil]
  · intro h
    apply List.head?_eq_none_iff.2
    apply List.eq_nil_iff_forall_not_mem.2
    intro e he
    have hget : m.get? e.1 = some e.2 := mem_entries_iff.1 he
    rw [h] at hget
    cases hget

theorem get?_erase (m : SortedMap κ α) (k l : κ) :
    (m.erase k).get? l = if l = k then none else m.get? l := by
  refine (valueIn_filter (fun x _ => compare k x != .eq) l m.ordered).trans ?_
  rw [← get?_eq_valueIn]
  by_cases h : l = k
  · subst h
    cases m.get? l <;> simp
  · have : compare k l ≠ .eq := fun hk => h (Std.LawfulEqOrd.eq_of_compare hk).symm
    cases m.get? l <;> simp [h, this]

theorem entries_eq_of_valueIn_eq [Std.TransOrd κ] {es fs : List (κ × α)}
    (hes : es.Pairwise fun a b => compare a.1 b.1 = .lt)
    (hfs : fs.Pairwise fun a b => compare a.1 b.1 = .lt)
    (h : ∀ k, valueIn k es = valueIn k fs) : es = fs := by
  induction es generalizing fs with
  | nil =>
    cases fs with
    | nil => rfl
    | cons f fs => simpa [valueIn_cons] using h f.1
  | cons e es ih =>
    cases fs with
    | nil => simpa [valueIn_cons] using h e.1
    | cons f fs =>
      have ⟨he, hes'⟩ := List.pairwise_cons.1 hes
      have ⟨hf, hfs'⟩ := List.pairwise_cons.1 hfs
      have mem_e : e ∈ f :: fs :=
        (mem_iff_valueIn hfs).2 <| by rw [← h, valueIn_cons, if_pos rfl]
      have mem_f : f ∈ e :: es :=
        (mem_iff_valueIn hes).2 <| by rw [h, valueIn_cons, if_pos rfl]
      have hef : e = f := by
        rcases List.mem_cons.1 mem_e with hef | hef
        · exact hef
        · rcases List.mem_cons.1 mem_f with hfe | hfe
          · exact hfe.symm
          · have := Std.TransCmp.lt_trans (hf e hef) (he f hfe)
            simp at this
      subst hef
      rw [ih hes' hfs' fun k => ?_]
      have hk := h k
      rw [valueIn_cons, valueIn_cons] at hk
      split at hk
      · rename_i hke
        subst hke
        rw [valueIn_eq_none fun x hx hxe => by simpa [hxe] using he x hx,
          valueIn_eq_none fun x hx hxe => by simpa [hxe] using hf x hx]
      · exact hk

/--
A map is known by its values.
-/
theorem ext_get? [Std.TransOrd κ] {m n : SortedMap κ α} (h : ∀ k, m.get? k = n.get? k) :
    m = n := by
  have := entries_eq_of_valueIn_eq m.ordered n.ordered h
  cases m
  cases n
  cases this
  rfl

section Perm

variable {m : SortedMap κ α} {k : κ} {a : α}

theorem insertEntry_perm {es : List (κ × α)} (h : valueIn k es = none) :
    (insertEntry k a es).Perm ((k, a) :: es) := by
  induction es with
  | nil => exact .refl _
  | cons e es ih =>
    rw [valueIn_cons] at h
    split at h
    · cases h
    · next hk =>
      rw [insertEntry]
      split
      · exact .refl _
      · next hc => exact absurd (Std.LawfulEqOrd.eq_of_compare hc) hk
      · exact ((ih h).cons e).trans (.swap _ _ _)

theorem perm_cons_filter {es : List (κ × α)}
    (ho : es.Pairwise fun a b => compare a.1 b.1 = .lt) (h : valueIn k es = some a) :
    es.Perm ((k, a) :: es.filter fun e => compare k e.1 != .eq) := by
  induction es with
  | nil => cases h
  | cons e es ih =>
    have ⟨he, hes⟩ := List.pairwise_cons.1 ho
    rw [valueIn_cons] at h
    split at h
    · next hk =>
      subst hk
      cases h
      have hrest : es.filter (fun x => compare e.1 x.1 != .eq) = es := by
        apply List.filter_eq_self.2
        intro x hx
        rw [he x hx]
        rfl
      rw [List.filter_cons_of_neg (by simp), hrest]
    · next hk =>
      rw [List.filter_cons_of_pos (by simpa using hk)]
      exact ((ih hes h).cons e).trans (.swap _ _ _)

/--
A value under a new key is one more among the values.
-/
theorem values_insert_perm [Std.TransOrd κ] (h : m.get? k = none) :
    (m.insert k a).values.Perm (a :: m.values) := (insertEntry_perm h).map Prod.snd

theorem values_perm_erase (h : m.get? k = some a) :
    m.values.Perm (a :: (m.erase k).values) := (perm_cons_filter m.ordered h).map Prod.snd

end Perm

section OfList

variable [Std.TransOrd κ] {m : SortedMap κ α} {es : List (κ × α)} {k : κ} {a : α}

theorem get?_foldl_insert (h : (es.foldl (fun m e => m.insert e.1 e.2) m).get? k = some a) :
    (k, a) ∈ es ∨ m.get? k = some a := by
  induction es generalizing m with
  | nil => exact .inr h
  | cons e es ih =>
    rw [List.foldl_cons] at h
    cases ih h with
    | inl hmem => exact .inl (List.mem_cons_of_mem e hmem)
    | inr hget =>
      rw [get?_insert] at hget
      split at hget
      · next hk =>
        cases hget
        left
        rw [hk]
        exact List.mem_cons_self
      · exact .inr hget

theorem get?_foldl_insert_of_mem (hu : ∀ b, (k, b) ∈ es → b = a)
    (h : (k, a) ∈ es ∨ m.get? k = some a) :
    (es.foldl (fun m e => m.insert e.1 e.2) m).get? k = some a := by
  induction es generalizing m with
  | nil =>
    cases h with
    | inl hmem => cases hmem
    | inr hget => exact hget
  | cons e es ih =>
    rw [List.foldl_cons]
    apply ih (fun b hb => hu b (List.mem_cons_of_mem e hb))
    rw [get?_insert]
    by_cases hk : k = e.1
    · right
      have he : e.2 = a := hu e.2 (hk ▸ List.mem_cons_self)
      rw [if_pos hk, he]
    · rw [if_neg hk]
      cases h with
      | inl hmem =>
        left
        cases List.mem_cons.1 hmem with
        | inl heq => exact absurd (congrArg Prod.fst heq) hk
        | inr hmem => exact hmem
      | inr hget => exact .inr hget

/--
What a map made of a list has at a key is in the list.
-/
theorem mem_of_get?_ofList (h : (ofList es).get? k = some a) : (k, a) ∈ es := by
  cases get?_foldl_insert h with
  | inl hmem => exact hmem
  | inr hget => cases hget

/--
A map made of a list has the only value that the list has at a key.
-/
theorem get?_ofList_of_mem (h : (k, a) ∈ es) (hu : ∀ b, (k, b) ∈ es → b = a) :
    (ofList es).get? k = some a := get?_foldl_insert_of_mem hu (.inl h)

/--
At each key, a map of lists has the values that stood at it.
-/
theorem getD_collect (es : List (κ × α)) (k : κ) :
    ((collect es).get? k).getD [] = (es.filter fun e => e.1 = k).map (·.2) := by
  have hfold : ∀ (es : List (κ × α)) (m : SortedMap κ (List α)),
      ((es.foldl (fun m e => m.insert e.1 ((m.get? e.1).getD [] ++ [e.2])) m).get? k).getD [] =
        (m.get? k).getD [] ++ (es.filter fun e => e.1 = k).map (·.2) := by
    intro es
    induction es with
    | nil => simp
    | cons e es ih =>
      intro m
      rw [List.foldl_cons, ih, get?_insert]
      by_cases hk : k = e.1
      · simp [hk]
      · simp [hk, Ne.symm hk]
  exact (hfold es empty).trans (List.nil_append _)

end OfList

end Lawful

end Steward.SortedMap
