import Mathlib.Data.List.Forall2
import Mathlib.Tactic.MkIffOfInductiveProp
import Steward.Proofs.Catalog.Removal
import Steward.Proofs.Constraint.Definition

/-!
This module contains the constraints that may be added to a table, described without the checks:
`checkAdded_eq_ok_iff` says that the checks let just these pass.
-/

namespace Steward.Catalog

/--
The whole of the column is indexed. If a length is given, the column has a declared length that is not
more than that.
-/
def IndexColumn.Whole (ic : IndexColumn) (c : Column) : Prop :=
  ∀ length, ic.length = some length → ∃ whole, c.fieldType.length = some whole ∧ whole ≤ length

/--
Values of the first column can refer to values of the second one.
-/
@[mk_iff]
structure Column.RefersTo (own ref : Column) : Prop where
  stored : own.isVirtual = false
  refStored : ref.isVirtual = false
  type : own.fieldType.type = ref.fieldType.type
  unsigned : own.fieldType.unsigned = ref.fieldType.unsigned
  charset : Text.same own.fieldType.charset ref.fieldType.charset = true
  collation : Text.same own.fieldType.collation ref.fieldType.collation = true

theorem Column.refersTo_iff_compatible {own ref : Column} :
    own.RefersTo ref ↔ own.isVirtual = false ∧ ref.isVirtual = false ∧
      own.fieldType.compatible ref.fieldType = true := by
  rw [refersTo_iff]
  unfold FieldType.compatible
  simp only [Bool.and_eq_true, beq_iff_eq, and_assoc]

namespace Table

/--
The columns have names of their own, and each column of an index has the name of the column that
stands at its offset.
-/
structure Labelled (t : Table) : Prop where
  distinct : t.DistinctColumns
  indexed : ∀ ix ∈ t.indices, ∀ ic ∈ ix.columns,
    ∃ c, t.columns[ic.offset]? = some c ∧ Text.same c.name ic.name = true

/--
The index begins with the given columns, in their order, and indexes the whole of each.
-/
def BeginsWith (t : Table) (ix : Index) (cols : List String) : Prop :=
  List.Forall₂
    (fun col ic => Text.same ic.name col = true ∧
      ∃ c ∈ t.columns, Text.same c.name col = true ∧ ic.Whole c)
    cols (ix.columns.take cols.length)

/--
A public index begins with the columns, or they are the one column that is the handle of the rows.
-/
def Serves (t : Table) (cols : List String) : Prop :=
  (∃ ix ∈ t.indices, ix.stage = .live ∧ t.BeginsWith ix cols) ∨
    ∃ pk, t.handle? = some pk ∧ Text.sameAll cols [pk.name] = true

variable {t : Table} {col : String} {cols : List String} {ix : Index} {ic : IndexColumn}

theorem Regular.labelled (h : t.Regular) : t.Labelled where
  distinct := h.distinct
  indexed ix hix ic hic := by
    obtain ⟨c, hc, hname, hoffset⟩ := h.indexed ix hix ic hic
    obtain ⟨i, hi⟩ := List.getElem?_of_mem hc
    refine ⟨c, ?_, hname⟩
    rw [hoffset, h.offset i c hi]
    exact hi

theorem Labelled.eq_of_same (h : t.Labelled) {c c' : Column} (hc : c ∈ t.columns)
    (hc' : c' ∈ t.columns) (hname : Text.same c.name col = true)
    (hname' : Text.same c'.name col = true) : c = c' := by
  have hfind := h.distinct.findColumn?_eq_some_iff.2 ⟨hc, hname⟩
  have hfind' := h.distinct.findColumn?_eq_some_iff.2 ⟨hc', hname'⟩
  exact Option.some.inj (hfind.symm.trans hfind')

theorem indexesWhole_iff : t.indexesWhole col ic = true ↔
    Text.same ic.name col = true ∧ ∃ c, t.columns[ic.offset]? = some c ∧ ic.Whole c := by
  unfold indexesWhole IndexColumn.Whole
  rw [Bool.and_eq_true_iff]
  apply and_congr_right
  intro _
  cases t.columns[ic.offset]? with
  | none => simp
  | some c =>
    cases ic.length with
    | none => simp
    | some length => cases hc : c.fieldType.length <;> simp [hc]

theorem Labelled.indexesWhole_iff (h : t.Labelled) (hix : ix ∈ t.indices) (hic : ic ∈ ix.columns) :
    t.indexesWhole col ic = true ↔ Text.same ic.name col = true ∧
      ∃ c ∈ t.columns, Text.same c.name col = true ∧ ic.Whole c := by
  rw [Table.indexesWhole_iff]
  apply and_congr_right
  intro hcol
  obtain ⟨there, hthere, hname⟩ := h.indexed ix hix ic hic
  have hmem := List.mem_of_getElem? hthere
  have hsame := Text.same_trans hname hcol
  constructor
  · rintro ⟨c, hc, hwhole⟩
    obtain rfl : there = c := Option.some.inj (hthere.symm.trans hc)
    exact ⟨there, hmem, hsame, hwhole⟩
  · rintro ⟨c, hc, hcname, hwhole⟩
    obtain rfl := h.eq_of_same hmem hc hsame hcname
    exact ⟨there, hthere, hwhole⟩

theorem forall₂_take_iff {α β : Type} {R : α → β → Prop} {as : List α} {bs : List β} :
    List.Forall₂ R as (bs.take as.length) ↔
      as.length ≤ bs.length ∧ ∀ p ∈ as.zip bs, R p.1 p.2 := by
  induction as generalizing bs with
  | nil => simp
  | cons a as ih =>
    cases bs with
    | nil => simp
    | cons b bs => simp [ih, and_left_comm]

theorem Labelled.covers_iff (h : t.Labelled) (hix : ix ∈ t.indices) :
    t.covers ix cols = true ↔ t.BeginsWith ix cols := by
  unfold covers BeginsWith
  rw [forall₂_take_iff, Bool.and_eq_true_iff, decide_eq_true_iff, List.all_eq_true]
  apply and_congr_right
  intro _
  apply forall₂_congr
  intro p hp
  exact h.indexesWhole_iff hix (List.of_mem_zip hp).2

theorem isHandle_iff :
    t.isHandle cols = true ↔ ∃ pk, t.handle? = some pk ∧ Text.sameAll cols [pk.name] = true := by
  rcases cols with _ | ⟨col, _ | ⟨col', cols⟩⟩
  · simp [isHandle, Text.sameAll]
  · have hsame (pk : Column) : Text.sameAll [col] [pk.name] = Text.same pk.name col := by
      rw [Text.same_comm]
      simp [Text.sameAll, Text.same]
    simp only [isHandle, Option.any_eq_true, hsame]
  · simp [isHandle, Text.sameAll]

theorem Labelled.isSome_coveringIndex?_iff (h : t.Labelled) :
    (t.coveringIndex? cols).isSome ↔ t.Serves cols := by
  rw [Table.isSome_coveringIndex?_iff]
  unfold Covered Serves
  rw [isHandle_iff]
  apply or_congr_left
  constructor
  · rintro ⟨i, ix, hi, hlive, hcov⟩
    have hix := List.mem_of_getElem? hi
    exact ⟨ix, hix, hlive, (h.covers_iff hix).1 hcov⟩
  · rintro ⟨ix, hix, hlive, hbegins⟩
    obtain ⟨i, hi⟩ := List.getElem?_of_mem hix
    exact ⟨i, ix, hi, hlive, (h.covers_iff hix).2 hbegins⟩

end Table

end Steward.Catalog

namespace Steward.Constraint

open Catalog

variable {v : View} {schema : String} {parent child : Table} {fk : ForeignKey} {check : Bool}

/--
The table that a constraint of `child` refers to: `child` itself, or else the table of that name in
the view.
-/
def Parent (v : View) (schema : String) (child : Table) (fk : ForeignKey) (parent : Table) : Prop :=
  if fk.refersTo schema child.name then parent = child
  else v.table fk.refSchema fk.refTable = .ok parent

/--
Constraints of `child` with the columns of `fk` may refer to the table `parent`.
-/
@[mk_iff]
structure Accepts (parent child : Table) (fk : ForeignKey) : Prop where
  permanent : parent.temporary = .none
  lasting : parent.expiry = none
  whole : parent.partitioning = none
  paired : ∀ p ∈ fk.cols.zip fk.refCols, ∃ own ∈ child.columns, ∃ ref ∈ parent.columns,
    Text.same own.name p.1 = true ∧ Text.same ref.name p.2 = true ∧ own.RefersTo ref
  serves : parent.Serves fk.refCols

/--
The constraint may be added to the table `child`. It may refer to a table that is not there if rows
are not to be checked.
-/
structure Admissible (v : View) (schema : String) (child : Table) (fk : ForeignKey) (check : Bool) :
    Prop where
  fresh : ∀ prev ∈ child.foreignKeys, Text.same prev.name fk.name = false
  nonempty : fk.cols ≠ []
  length : fk.cols.length = fk.refCols.length
  proper : ¬ (fk.refersTo schema child.name = true ∧ Text.sameAll fk.cols fk.refCols = true)
  permanent : child.temporary = .none
  whole : child.partitioning = none
  serves : child.Serves fk.cols
  parent : (∃ parent, Parent v schema child fk parent ∧ Accepts parent child fk) ∨
    check = false ∧ ∀ parent, ¬ Parent v schema child fk parent

theorem orElse_bind_eq_ok {β : Type} {ok : Bool} {fault : Fault} {f : Unit → Except Fault β} {b : β} :
    (orElse ok fault >>= f) = .ok b ↔ ok = true ∧ f () = .ok b := by
  unfold orElse
  cases ok with
  | true => simp [bind, Except.bind]
  | false => simp [bind, Except.bind]

theorem parent?_eq_ok_some_iff :
    parent? v schema child fk check = .ok (some parent) ↔ Parent v schema child fk parent := by
  unfold parent? Parent
  split
  · simp [eq_comm]
  · split
    · next t ht => simp [ht]
    · next fault ht => cases check <;> simp [ht]

theorem parent?_eq_ok_none_iff :
    parent? v schema child fk check = .ok none ↔
      check = false ∧ ∀ parent, ¬ Parent v schema child fk parent := by
  unfold parent? Parent
  split
  · simp
  · split
    · next t ht => simp [ht]
    · next fault ht => cases check <;> simp [ht]

theorem exists_paired_iff (hchild : child.DistinctColumns) (hparent : parent.DistinctColumns)
    {col refCol : String} :
    (∃ own ref, Paired parent child col refCol own ref) ↔
      ∃ own ∈ child.columns, ∃ ref ∈ parent.columns,
        Text.same own.name col = true ∧ Text.same ref.name refCol = true ∧ own.RefersTo ref := by
  constructor
  · rintro ⟨own, ref, h⟩
    obtain ⟨hown, hname⟩ := hchild.findColumn?_eq_some_iff.1 h.isOwn
    obtain ⟨href, hrefName⟩ := hparent.findColumn?_eq_some_iff.1 h.isRef
    exact ⟨own, hown, ref, href, hname, hrefName,
      Column.refersTo_iff_compatible.2 ⟨h.ownStored, h.refStored, h.compatible⟩⟩
  · rintro ⟨own, hown, ref, href, hname, hrefName, h⟩
    obtain ⟨hstored, hrefStored, hcompatible⟩ := Column.refersTo_iff_compatible.1 h
    exact ⟨own, ref, hchild.findColumn?_eq_some_iff.2 ⟨hown, hname⟩,
      hparent.findColumn?_eq_some_iff.2 ⟨href, hrefName⟩, hstored, hrefStored, hcompatible⟩

theorem checkColumns_eq_ok_iff (hchild : child.Labelled) (hparent : parent.Labelled) :
    checkColumns true parent child fk = .ok () ↔
      (∀ p ∈ fk.cols.zip fk.refCols, ∃ own ∈ child.columns, ∃ ref ∈ parent.columns,
        Text.same own.name p.1 = true ∧ Text.same ref.name p.2 = true ∧ own.RefersTo ref) ∧
      parent.Serves fk.refCols := by
  simp only [← exists_paired_iff hchild.distinct hparent.distinct]
  rw [← hparent.isSome_coveringIndex?_iff]
  unfold checkColumns
  rw [if_pos rfl, bind_eq_ok]
  constructor
  · rintro ⟨_, hpairs, hcover⟩
    exact ⟨checkPairs_eq_ok_iff.1 hpairs, orElse_eq_ok.1 hcover⟩
  · rintro ⟨hpairs, hcover⟩
    exact ⟨(), checkPairs_eq_ok_iff.2 hpairs, orElse_eq_ok.2 hcover⟩

theorem checkReference_eq_ok_iff (hchild : child.Labelled)
    (hparent : ∀ parent, Parent v schema child fk parent → parent.Labelled) :
    checkReference true v schema child fk check = .ok () ↔
      (fk.cols ≠ [] ∧ fk.cols.length = fk.refCols.length) ∧
      ¬ (fk.refersTo schema child.name = true ∧ Text.sameAll fk.cols fk.refCols = true) ∧
      child.temporary = .none ∧ child.partitioning = none ∧
      ((∃ parent, Parent v schema child fk parent ∧ Accepts parent child fk) ∨
        check = false ∧ ∀ parent, ¬ Parent v schema child fk parent) := by
  have hproper : (!(fk.refersTo schema child.name && Text.sameAll fk.cols fk.refCols)) = true ↔
      ¬ (fk.refersTo schema child.name = true ∧ Text.sameAll fk.cols fk.refCols = true) := by
    rw [Bool.not_eq_true', Bool.eq_false_iff, ne_eq, Bool.and_eq_true_iff]
  have hlength : (!fk.cols.isEmpty && fk.cols.length == fk.refCols.length) = true ↔
      fk.cols ≠ [] ∧ fk.cols.length = fk.refCols.length := by
    simp
  unfold checkReference
  rw [orElse_bind_eq_ok, orElse_bind_eq_ok, orElse_bind_eq_ok, orElse_bind_eq_ok, bind_eq_ok,
    hlength, hproper, beq_iff_eq, Option.isNone_iff_eq_none]
  refine and_congr_right fun _ => and_congr_right fun _ => and_congr_right fun _ =>
    and_congr_right fun _ => ?_
  rw [Option.exists, or_comm, parent?_eq_ok_none_iff]
  apply or_congr
  · apply exists_congr
    intro parent
    rw [parent?_eq_ok_some_iff]
    apply and_congr_right
    intro hp
    rw [accepts_iff, ← checkColumns_eq_ok_iff hchild (hparent parent hp), orElse_bind_eq_ok,
      orElse_bind_eq_ok, orElse_bind_eq_ok, beq_iff_eq, Option.isNone_iff_eq_none,
      Option.isNone_iff_eq_none]
  · exact and_iff_left rfl

/--
The checks of a constraint that is added to a table let just the admissible constraints pass.
-/
theorem checkAdded_eq_ok_iff (hchild : child.Labelled)
    (hparent : ∀ parent, Parent v schema child fk parent → parent.Labelled) :
    checkAdded true v schema child fk check = .ok () ↔ Admissible v schema child fk check := by
  have hfresh : (child.findForeignKey? fk.name).isNone = true ↔
      ∀ prev ∈ child.foreignKeys, Text.same prev.name fk.name = false := by
    unfold Table.findForeignKey?
    simp
  unfold checkAdded checkName checkSides
  rw [orElse_bind_eq_ok, hfresh, if_pos rfl, bind_eq_ok]
  constructor
  · rintro ⟨hname, _, hreference, hcover⟩
    obtain ⟨⟨hnonempty, hlength⟩, hproper, htemporary, hpartitioning, hparent⟩ :=
      (checkReference_eq_ok_iff hchild hparent).1 hreference
    have hserves := hchild.isSome_coveringIndex?_iff.1 (orElse_eq_ok.1 hcover)
    exact ⟨hname, hnonempty, hlength, hproper, htemporary, hpartitioning, hserves, hparent⟩
  · intro h
    have hreference := (checkReference_eq_ok_iff hchild hparent).2
      ⟨⟨h.nonempty, h.length⟩, h.proper, h.permanent, h.whole, h.parent⟩
    have hcover := hchild.isSome_coveringIndex?_iff.2 h.serves
    exact ⟨h.fresh, (), hreference, orElse_eq_ok.2 hcover⟩

def shops : Table :=
  { ((((Table.ofName "shops").withColumn (.ofName "name" (.varchar 16))).withColumn
      (.ofName "region" .bigint)).withIndex
      ((Index.ofNames "by_name" ["region", "name"]).withLength "name" 16)) with stage := .live }

def regionOrders : Table :=
  (((Table.ofName "orders").withColumn (.ofName "region" .bigint)).withColumn
    (.ofName "shop" (.varchar 16))).withIndex (.ofNames "by_shop" ["region", "shop"])

def market : View :=
  .ofSchemas 1 (.ofList [("main", .ofTables ⟨1, "main", .live⟩ [shops])])

theorem checkAdded_eq_ok_iff_market :
    let fk := ForeignKey.ofNames "in_shop" ["Region", "Shop"] "main" "SHOPS" ["region", "name"]
    let crossed := ForeignKey.ofNames "in_shop" ["Region", "Shop"] "main" "SHOPS" ["name", "region"]
    (regionOrders.Labelled ∧ (∀ p, Parent market "main" regionOrders fk p → p.Labelled) ∧
      ∀ p, Parent market "main" regionOrders crossed p → p.Labelled) ∧
    Admissible market "main" regionOrders fk true ∧
    ¬ Admissible market "main" regionOrders crossed true := by
  intro fk crossed
  have hchild : regionOrders.Labelled := Table.Regular.labelled (by decide +kernel)
  have hshops : shops.Labelled := Table.Regular.labelled (by decide +kernel)
  have htable : market.table "main" "SHOPS" = .ok shops := by
    have hfound : ((market.schemaView? "main").bind fun s => s.tables.get? (Text.fold "SHOPS")) =
        some shops := by
      decide +kernel
    unfold View.table
    rw [hfound]
  have hparent (refCols : List String) (p : Table) (hp : Parent market "main" regionOrders
      (.ofNames "in_shop" ["Region", "Shop"] "main" "SHOPS" refCols) p) : p.Labelled := by
    have hother : (ForeignKey.ofNames "in_shop" ["Region", "Shop"] "main" "SHOPS" refCols).refersTo
        "main" regionOrders.name = false := by
      change (Text.same "main" "main" && Text.same "SHOPS" regionOrders.name) = false
      decide +kernel
    unfold Parent at hp
    rw [hother, if_neg Bool.false_ne_true] at hp
    cases htable.symm.trans hp
    exact hshops
  refine ⟨⟨hchild, hparent _, hparent _⟩, ?_, ?_⟩
  · rw [← checkAdded_eq_ok_iff hchild (hparent _), eq_ok_iff_isOk]
    decide +kernel
  · rw [← checkAdded_eq_ok_iff hchild (hparent _), eq_ok_iff_isOk]
    decide +kernel

end Steward.Constraint
