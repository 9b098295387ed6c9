import Steward.Proofs.Catalog.Coverage
import Steward.Proofs.Step.Deed

/-!
This module contains the removal of a column from a table whose columns and indices fit together: they
go on to fit, and whatever could be looked up without the column can still be looked up.
-/

namespace Steward.Catalog.Table

variable {t : Table} {pos : Nat} {c : Column} {ix : Index} {name : String}

def DistinctColumns (t : Table) : Prop :=
  t.columns.Pairwise fun a b => Text.same a.name b.name = false

instance (t : Table) : Decidable t.DistinctColumns := by
  unfold DistinctColumns
  infer_instance

theorem DistinctColumns.findColumn?_eq_some_iff (h : t.DistinctColumns) :
    t.findColumn? name = some c ↔ c ∈ t.columns ∧ Text.same c.name name = true := by
  unfold DistinctColumns at h
  unfold findColumn? Column.find?
  generalize t.columns = l at h ⊢
  induction l with
  | nil => simp
  | cons a l ih =>
    obtain ⟨ha, hl⟩ := List.pairwise_cons.1 h
    rw [List.find?_cons]
    cases hname : Text.same a.name name with
    | true =>
      constructor
      · rintro ⟨⟩
        exact ⟨List.mem_cons_self, hname⟩
      · rintro ⟨hmem, hsame⟩
        cases List.mem_cons.1 hmem with
        | inl he => rw [he]
        | inr hmem =>
          -- A later column of that name would have the name of the first one.
          have hother := ha c hmem
          rw [Text.same_trans hname (Text.same_comm _ _ ▸ hsame)] at hother
          cases hother
    | false =>
      rw [ih hl]
      constructor
      · rintro ⟨hmem, hsame⟩
        exact ⟨List.mem_cons_of_mem _ hmem, hsame⟩
      · rintro ⟨hmem, hsame⟩
        cases List.mem_cons.1 hmem with
        | inl he =>
          rw [he, hname] at hsame
          cases hsame
        | inr hmem => exact ⟨hmem, hsame⟩

/--
The columns have names of their own and know their positions, no index is empty, each column of an
index is named after a column of the table and knows its position, and at most one column is the
primary key.
-/
structure Regular (t : Table) : Prop where
  distinct : t.DistinctColumns
  offset : ∀ (i : Nat) (c : Column), t.columns[i]? = some c → c.offset = i
  filled : ∀ ix ∈ t.indices, ix.columns ≠ []
  indexed : ∀ ix ∈ t.indices, ∀ ic ∈ ix.columns,
    ∃ c ∈ t.columns, Text.same c.name ic.name = true ∧ ic.offset = c.offset
  primary : t.columns.countP (·.primaryKey) ≤ 1

theorem regular_iff : t.Regular ↔
    t.DistinctColumns ∧ (∀ ix ∈ t.indices, ix.columns ≠ []) ∧ t.WellFormed := by
  constructor
  · intro h
    refine ⟨h.distinct, h.filled, h.offset, ?_, h.primary⟩
    intro ix hix ic hic
    obtain ⟨c, hc, hname, hoffset⟩ := h.indexed ix hix ic hic
    exact ⟨c, h.distinct.findColumn?_eq_some_iff.2 ⟨hc, hname⟩, hoffset⟩
  · rintro ⟨hdistinct, hfilled, h⟩
    refine ⟨hdistinct, h.offset, hfilled, ?_, h.primary⟩
    intro ix hix ic hic
    obtain ⟨c, hfind, hoffset⟩ := h.indexed ix hix ic hic
    obtain ⟨hc, hname⟩ := hdistinct.findColumn?_eq_some_iff.1 hfind
    exact ⟨c, hc, hname, hoffset⟩

instance (t : Table) : Decidable t.Regular := decidable_of_iff _ regular_iff.symm

theorem Loses.distinctColumns {t' : Table} (h : t.Loses pos c t') (ht : t.DistinctColumns) :
    t'.DistinctColumns := by
  have hnames : t'.columns.map (·.name) = (t.columns.eraseIdx pos).map (·.name) := by
    have hmap := congrArg (List.map (·.name)) h.columns
    rw [List.map_map, List.map_map] at hmap
    exact hmap
  have hleft : ((t.columns.eraseIdx pos).map (·.name)).Pairwise
      fun a b => Text.same a b = false :=
    List.pairwise_map.2 (ht.sublist (List.eraseIdx_sublist _ _))
  rw [← hnames] at hleft
  exact List.pairwise_map.1 hleft

theorem filled_dropColumn (hc : t.columns[pos]? = some c) (hix : ix ∈ (t.dropColumn pos).indices) :
    ix.columns ≠ [] := by
  obtain ⟨old, _, hfilled, rfl⟩ := (mem_indices_dropColumn hc).1 hix
  unfold Index.withOffsets
  simpa using hfilled

theorem not_indexed_dropColumn (hc : t.columns[pos]? = some c)
    (hix : ix ∈ (t.dropColumn pos).indices) {ic : IndexColumn} (hic : ic ∈ ix.columns) :
    Text.same ic.name c.name = false := by
  obtain ⟨old, _, _, rfl⟩ := (mem_indices_dropColumn hc).1 hix
  obtain ⟨was, hwas, rfl⟩ := List.mem_map.1 hic
  have hname : Text.same was.name c.name = false := by simpa using (List.mem_filter.1 hwas).2
  split <;> exact hname

/--
A column goes, and with it its place in every index and every index that has no other column. All that
stays keeps its order and differs at most in its offsets, which are right again, and each list of
columns without the one that goes has an index afterwards if it had one before.
-/
theorem regular_dropColumn (ht : t.Regular) (hc : t.columns[pos]? = some c) :
    let t' := t.dropColumn pos
    t'.Regular ∧
    (∀ ix ∈ t'.indices, ∀ ic ∈ ix.columns, Text.same ic.name c.name = false) ∧
    t.Loses pos c t' ∧
    ∀ cols, cols ≠ [] → (∀ col ∈ cols, Text.same col c.name = false) →
      (t.coveringIndex? cols).isSome → (t'.coveringIndex? cols).isSome := by
  intro t'
  obtain ⟨hdistinct, _, hwell⟩ := regular_iff.1 ht
  have hloses : t.Loses pos c t' := loses_dropColumn hc
  refine ⟨?_, ?_, hloses, ?_⟩
  · apply regular_iff.2
    exact ⟨hloses.distinctColumns hdistinct, fun ix hix => filled_dropColumn hc hix,
      hwell.dropColumn pos⟩
  · intro ix hix ic hic
    exact not_indexed_dropColumn hc hix hic
  · intro cols hnil hcols hcovered
    have hother : ∀ col ∈ cols, Text.same c.name col = false := by
      intro col hcol
      rw [Text.same_comm]
      exact hcols col hcol
    apply isSome_coveringIndex?_iff.2
    exact (keeps_dropColumn hwell hc hother hnil).covered (isSome_coveringIndex?_iff.1 hcovered)

/--
A table of orders with a handle, and with an index that shrinks and one that goes with the code.
-/
def orders : Table :=
  ((((((Table.ofName "orders").withColumn (.ofName "code" (.varchar 8))).withColumn
    (.ofName "id" .bigint)).withColumn (.ofName "shop" (.varchar 16))).withHandle "id").withIndex
    (.ofNames "by_code" ["Code"])).withIndex
    ((Index.ofNames "by_shop" ["shop", "CODE"]).withLength "shop" 16)

theorem regular_dropColumn_orders :
    let t' := orders.dropColumn 0
    (orders.Regular ∧ ∃ c, orders.columns[0]? = some c ∧ c.name = "code") ∧
    (orders.coveringIndex? ["Shop"]).isSome ∧
    t'.Regular ∧ t'.indices.map (·.name) = ["by_shop"] ∧ (t'.coveringIndex? ["Shop"]).isSome := by
  intro t'
  have ht : orders.Regular := by decide +kernel
  obtain ⟨c, hc, hname⟩ : ∃ c, orders.columns[0]? = some c ∧ c.name = "code" := ⟨_, rfl, rfl⟩
  have hbefore : (orders.coveringIndex? ["Shop"]).isSome := by decide +kernel
  obtain ⟨hregular, -, -, hcovered⟩ := regular_dropColumn ht hc
  have hother : ∀ col ∈ ["Shop"], Text.same col c.name = false := by
    rw [hname]
    decide +kernel
  exact ⟨⟨ht, c, hc, hname⟩, hbefore, hregular, by decide +kernel,
    hcovered ["Shop"] (List.cons_ne_nil _ _) hother hbefore⟩

end Steward.Catalog.Table
