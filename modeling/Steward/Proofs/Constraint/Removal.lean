import Steward.Constraint.Removal
import Steward.Proofs.Constraint.Definition

/-!
This module contains what the checks of a removal establish: that no constraint is left without the
table, the index or the column that it needs.
-/

namespace Steward.Constraint

open Catalog

variable {v : View} {schema table name column : String} {t : Table} {ix : Index} {pos : Nat}
  {cols : List String} {fk : ForeignKey} {r : Referred}

theorem same_of_checkUnreferred (h : checkUnreferred true v schema table true = .ok ())
    (hr : r ∈ v.referred schema table) :
    Text.same r.childSchema schema = true ∧ Text.same r.childTable table = true := by
  unfold checkUnreferred at h
  rw [Bool.true_and, if_pos rfl] at h
  split at h
  · cases h
  · next hnone =>
    have hsame := List.find?_eq_none.1 hnone r hr
    simpa using hsame

/--
The columns of the constraints on either side of a table.
-/
def Needs (v : View) (schema : String) (t : Table) (cols : List String) : Prop :=
  (∃ fk ∈ t.foreignKeys, fk.isEnforced = true ∧ fk.cols = cols) ∨
    ∃ r ∈ v.referred schema t.name, r.cols = cols

theorem mem_needs_iff :
    cols ∈ (t.foreignKeys.filter (·.isEnforced)).map (·.cols) ++
      (v.referred schema t.name).map (·.cols) ↔ Needs v schema t cols := by
  unfold Needs
  rw [List.mem_append, List.mem_map, List.mem_map]
  apply or_congr_left
  constructor
  · rintro ⟨fk, hfk, hcols⟩
    obtain ⟨hmem, henforced⟩ := List.mem_filter.1 hfk
    exact ⟨fk, hmem, henforced, hcols⟩
  · rintro ⟨fk, hmem, henforced, hcols⟩
    exact ⟨fk, List.mem_filter.2 ⟨hmem, henforced⟩, hcols⟩

theorem getElem?_of_findIdx? {α : Type} {l : List α} {p : α → Bool} (h : l.findIdx? p = some pos) :
    ∃ a, l[pos]? = some a ∧ l.find? p = some a ∧ p a = true := by
  obtain ⟨hlt, hp, hbefore⟩ := List.findIdx?_eq_some_iff_getElem.1 h
  refine ⟨l[pos], List.getElem?_eq_getElem hlt, ?_, hp⟩
  apply List.find?_eq_some_iff_getElem.2
  exact ⟨hp, pos, hlt, rfl, fun j hj => by simpa using hbefore j hj⟩

theorem coveredApart_of_servedWithout (hix : t.indices[pos]? = some ix)
    (h : servedWithout t ix cols = true) : t.CoveredApart pos cols := by
  unfold servedWithout at h
  cases Bool.or_eq_true_iff.1 h with
  | inl hhandle => exact .inr hhandle
  | inr hany =>
    obtain ⟨other, hmem, hcov⟩ := List.any_eq_true.1 hany
    obtain ⟨hother, hcond⟩ := List.mem_filter.1 hmem
    obtain ⟨hid, hlive⟩ := Bool.and_eq_true_iff.1 hcond
    obtain ⟨i, hi⟩ := List.getElem?_of_mem hother
    left
    refine ⟨i, other, ?_, hi, eq_of_beq hlive, hcov⟩
    rintro rfl
    rw [hix] at hi
    cases hi
    simp at hid

theorem coveredApart_of_checkIndexUnneeded
    (h : checkIndexUnneeded true v schema t name = .ok ()) (hpos : t.indexPosition? name = some pos)
    (hneeds : Needs v schema t cols) (hcov : t.Covered cols) : t.CoveredApart pos cols := by
  obtain ⟨ix, hix, hfind, _⟩ := getElem?_of_findIdx? hpos
  have hfound : t.findIndex? name = some ix := hfind
  unfold checkIndexUnneeded at h
  rw [hfound] at h
  dsimp only at h
  rw [if_pos rfl] at h
  have hall := List.all_eq_true.1 (orElse_eq_ok.1 h)
  apply hcov.apart
  intro ix' hix' _ hcovers
  rw [hix] at hix'
  cases hix'
  have hserved := hall cols (mem_needs_iff.2 hneeds)
  rw [hcovers] at hserved
  apply coveredApart_of_servedWithout hix
  simpa using hserved

theorem servedWithout_iff (hids : (t.indices.map (·.id)).Nodup) (hix : t.indices[pos]? = some ix) :
    servedWithout t ix cols = true ↔ t.CoveredApart pos cols := by
  constructor
  · exact coveredApart_of_servedWithout hix
  · intro h
    unfold servedWithout
    rw [Bool.or_eq_true_iff]
    cases h with
    | inr hhandle => exact .inl hhandle
    | inl hindex =>
      obtain ⟨i, other, hne, hi, hlive, hcov⟩ := hindex
      -- An index at another position has another id, so the check looks at it.
      have hid : other.id ≠ ix.id := by
        intro hsame
        have hlt : pos < (t.indices.map (·.id)).length := by
          rw [List.length_map]
          exact (List.getElem?_eq_some_iff.1 hix).1
        apply hne
        symm
        apply (List.getElem?_inj hlt hids).1
        rw [List.getElem?_map, List.getElem?_map, hix, hi, Option.map_some, Option.map_some, hsame]
      right
      apply List.any_eq_true.2
      refine ⟨other, List.mem_filter.2 ⟨List.mem_of_getElem? hi, ?_⟩, hcov⟩
      rw [hlive]
      simpa using hid

/--
An index may go just if each list of columns that a constraint on either side needs has an index
without it, unless the list had none before. The check has one fault only, which names the index.
-/
theorem checkIndexUnneeded_eq_ok_iff (v : View) (schema : String)
    (hids : (t.indices.map (·.id)).Nodup) (hpos : t.indexPosition? name = some pos)
    (hix : t.indices[pos]? = some ix) (hlive : ix.stage = .live) :
    (checkIndexUnneeded true v schema t name = .ok () ↔
      ∀ cols, Needs v schema t cols → (t.coveringIndex? cols).isSome →
        ({ t with indices := t.indices.eraseIdx pos }.coveringIndex? cols).isSome) ∧
    (checkIndexUnneeded true v schema t name ≠ .ok () →
      checkIndexUnneeded true v schema t name = .error (.dropIndexNeededInForeignKey ix.name)) := by
  obtain ⟨ix', hix', hfind, _⟩ := getElem?_of_findIdx? hpos
  obtain rfl : ix = ix' := Option.some.inj (hix.symm.trans hix')
  have hfound : t.findIndex? name = some ix := hfind
  constructor
  · constructor
    · intro h cols hneeds hcov
      apply Table.isSome_coveringIndex?_iff.2
      apply Table.covered_eraseIndex_iff.2
      exact coveredApart_of_checkIndexUnneeded h hpos hneeds (Table.isSome_coveringIndex?_iff.1 hcov)
    · intro h
      unfold checkIndexUnneeded
      rw [hfound]
      dsimp only
      rw [if_pos rfl]
      apply orElse_eq_ok.2
      apply List.all_eq_true.2
      intro cols hcols
      cases hcov : t.covers ix cols with
      | false => rfl
      | true =>
        have hserved : (t.coveringIndex? cols).isSome :=
          Table.isSome_coveringIndex?_iff.2 (.inl ⟨pos, ix, hix, hlive, hcov⟩)
        have hapart := Table.covered_eraseIndex_iff.1
          (Table.isSome_coveringIndex?_iff.1 (h cols (mem_needs_iff.1 hcols) hserved))
        exact (servedWithout_iff hids hix).2 hapart
  · intro h
    unfold checkIndexUnneeded at h ⊢
    rw [hfound] at h ⊢
    dsimp only at h ⊢
    rw [if_pos rfl] at h ⊢
    unfold orElse at h ⊢
    split at h
    · exact absurd rfl h
    · next hneeded => rw [if_neg hneeded]

/--
Orders that refer to their shop. The index by code and shop does not serve the shop alone.
-/
def shopOrders : Table :=
  (((((Table.ofName "orders").withColumn (.ofName "code" .bigint)).withColumn
    (.ofName "shop" (.varchar 16))).withIndex (.ofNames "by_shop" ["shop"])).withIndex
    (.ofNames "by_code_shop" ["code", "shop"])).withForeignKey
    (.ofNames "in_shop" ["Shop"] "main" "shops" ["name"])

theorem checkIndexUnneeded_eq_ok_iff_shopOrders :
    let v := View.ofSnapshot .initial
    ((shopOrders.indices.map (·.id)).Nodup ∧ shopOrders.indexPosition? "BY_SHOP" = some 0 ∧
      ∃ ix, shopOrders.indices[0]? = some ix ∧ ix.stage = .live ∧ ix.name = "by_shop") ∧
    (¬ ∀ cols, Needs v "main" shopOrders cols → (shopOrders.coveringIndex? cols).isSome →
      ({ shopOrders with indices := shopOrders.indices.eraseIdx 0 }.coveringIndex? cols).isSome) ∧
    checkIndexUnneeded true v "main" shopOrders "BY_SHOP" =
      .error (.dropIndexNeededInForeignKey "by_shop") := by
  intro v
  have hids : (shopOrders.indices.map (·.id)).Nodup := by decide +kernel
  have hpos : shopOrders.indexPosition? "BY_SHOP" = some 0 := by decide +kernel
  obtain ⟨ix, hix, hlive, hname⟩ : ∃ ix, shopOrders.indices[0]? = some ix ∧ ix.stage = .live ∧
      ix.name = "by_shop" := ⟨_, rfl, rfl, rfl⟩
  obtain ⟨hiff, hfault⟩ := checkIndexUnneeded_eq_ok_iff v "main" hids hpos hix hlive
  have hneeded : ¬ checkIndexUnneeded true v "main" shopOrders "BY_SHOP" = .ok () := by
    rw [eq_ok_iff_isOk]
    decide +kernel
  exact ⟨⟨hids, hpos, ix, hix, hlive, hname⟩, fun h => hneeded (hiff.2 h),
    hname ▸ hfault hneeded⟩

theorem not_mentions_of_checkColumnUnneeded
    (h : checkColumnUnneeded true v schema t column = .ok ()) (hneeds : Needs v schema t cols) :
    mentions cols column = false := by
  unfold checkColumnUnneeded at h
  rw [if_pos rfl] at h
  split at h
  · cases h
  · next hown =>
    split at h
    · cases h
    · next hreferred =>
      cases hneeds with
      | inl hneeds =>
        obtain ⟨fk, hfk, _, rfl⟩ := hneeds
        exact Bool.eq_false_iff.2 (List.find?_eq_none.1 hown fk hfk)
      | inr hneeds =>
        obtain ⟨r, hr, rfl⟩ := hneeds
        exact Bool.eq_false_iff.2 (List.find?_eq_none.1 hreferred r hr)

theorem same_of_not_mentions (h : mentions cols column = false) :
    ∀ col ∈ cols, Text.same col column = false := by
  intro col hcol
  exact Bool.eq_false_iff.2 (List.any_eq_false.1 h col hcol)

end Steward.Constraint
