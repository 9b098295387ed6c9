import Steward.Data.SortedMap.Lemmas
import Steward.Proofs.Ledger.Edit
import Steward.View

/-!
This module contains what a view shows of a snapshot whose schemas and tables are known by their
names: it shows public tables only, and all constraints of them.
-/

namespace Steward

open Catalog (ForeignKey Schema Table)
open Ledger (Snapshot)

namespace Ledger.Snapshot

/--
No two schemas have the same name, nor have two tables of one schema. Nothing is said of the stages
of the schemas and of the ids that they are filed under.
-/
structure Distinct (s : Snapshot) : Prop where
  schema : ∀ x x' σ σ', s.catalog.schemas.get? x = some σ → s.catalog.schemas.get? x' = some σ' →
    Text.same σ.name σ'.name = true → x = x'
  table : ∀ x σ y y' t t', s.catalog.schemas.get? x = some σ → s.table? σ.id y = some t →
    s.table? σ.id y' = some t' → Text.same t.name t'.name = true → y = y'

/--
The schemas are public and filed under their ids, and no two of them have the same name, nor have
two tables of one schema.
-/
structure Named (s : Snapshot) : Prop where
  filed : ∀ x σ, s.catalog.schemas.get? x = some σ → σ.id = x
  live : ∀ x σ, s.catalog.schemas.get? x = some σ → σ.stage = .live
  schema : ∀ x x' σ σ', s.catalog.schemas.get? x = some σ → s.catalog.schemas.get? x' = some σ' →
    Text.same σ.name σ'.name = true → x = x'
  table : ∀ x y y' t t', s.table? x y = some t → s.table? x y' = some t' →
    Text.same t.name t'.name = true → y = y'

theorem Named.distinct {s : Snapshot} (hs : s.Named) : s.Distinct where
  schema := hs.schema
  table _ σ y y' t t' _ ht ht' := hs.table σ.id y y' t t' ht ht'

end Ledger.Snapshot

namespace View

variable {s : Snapshot} {v : View} {schema table : String} {σ : Schema} {t : Table} {x y : Int}

theorem mem_values_iff {α : Type} {m : IdMap α} {a : α} :
    a ∈ m.values ↔ ∃ id, m.get? id = some a := by
  unfold SortedMap.values
  rw [List.mem_map]
  constructor
  · rintro ⟨e, he, rfl⟩
    exact ⟨e.1, SortedMap.mem_entries_iff.1 he⟩
  · rintro ⟨id, hid⟩
    exact ⟨(id, a), SortedMap.mem_entries_iff.2 hid, rfl⟩

theorem mem_tables_iff : t ∈ ((s.catalog.tables.get? x).getD ∅).values ↔
    ∃ y, s.table? x y = some t := by
  rw [mem_values_iff]
  unfold Snapshot.table?
  cases s.catalog.tables.get? x with
  | none => exact Iff.rfl
  | some ts => exact Iff.rfl

theorem mem_schemas_ofSnapshot {sv : SchemaView} {name : String}
    (h : (ofSnapshot s).schemas.get? name = some sv) :
    ∃ x σ, s.catalog.schemas.get? x = some σ ∧ Text.fold σ.name = name ∧
      sv = .ofTables σ ((s.catalog.tables.get? σ.id).getD ∅).values := by
  obtain ⟨σ, hσ, heq⟩ := List.mem_map.1 (SortedMap.mem_of_get?_ofList h)
  obtain ⟨x, hx⟩ := mem_values_iff.1 (List.mem_filter.1 hσ).1
  cases heq
  exact ⟨x, σ, hx, rfl, rfl⟩

theorem schema?_ofSnapshot (h : (ofSnapshot s).schema? schema = some σ) :
    ∃ x, s.catalog.schemas.get? x = some σ ∧ Text.same σ.name schema = true := by
  obtain ⟨sv, hsv, rfl⟩ := Option.map_eq_some_iff.1 h
  obtain ⟨x, σ, hx, hname, rfl⟩ := mem_schemas_ofSnapshot hsv
  exact ⟨x, hx, beq_iff_eq.2 hname⟩

theorem table_ofSnapshot (hs : s.Named) (h : (ofSnapshot s).table schema table = .ok t) :
    ∃ x y σ, s.catalog.schemas.get? x = some σ ∧ Text.same σ.name schema = true ∧
      s.table? x y = some t ∧ Text.same t.name table = true ∧ t.stage = .live := by
  unfold View.table at h
  split at h
  · next found hfound =>
    cases h
    obtain ⟨sv, hsv, htable⟩ := Option.bind_eq_some_iff.1 hfound
    obtain ⟨x, σ, hx, hname, rfl⟩ := mem_schemas_ofSnapshot hsv
    obtain ⟨u, hu, heq⟩ := List.mem_map.1 (SortedMap.mem_of_get?_ofList htable)
    obtain ⟨htname, rfl⟩ := Prod.mk.inj heq
    obtain ⟨hmem, hlive⟩ := List.mem_filter.1 hu
    obtain ⟨y, hy⟩ := mem_tables_iff.1 hmem
    rw [hs.filed x σ hx] at hy
    exact ⟨x, y, σ, hx, beq_iff_eq.2 hname, hy, beq_iff_eq.2 htname, eq_of_beq hlive⟩
  · cases h

theorem get?_schemas_of_distinct (hs : s.Distinct) (hx : s.catalog.schemas.get? x = some σ)
    (hl : σ.stage = .live) :
    (ofSnapshot s).schemas.get? (Text.fold σ.name) =
      some (.ofTables σ ((s.catalog.tables.get? σ.id).getD ∅).values) := by
  apply SortedMap.get?_ofList_of_mem
  · apply List.mem_map.2
    refine ⟨σ, List.mem_filter.2 ⟨mem_values_iff.2 ⟨x, hx⟩, ?_⟩, rfl⟩
    rw [hl]
    rfl
  · intro sv hsv
    obtain ⟨τ, hτ, heq⟩ := List.mem_map.1 hsv
    obtain ⟨x', hx'⟩ := mem_values_iff.1 (List.mem_filter.1 hτ).1
    have hname : Text.fold τ.name = Text.fold σ.name := congrArg Prod.fst heq
    have hxx : x' = x := hs.schema x' x τ σ hx' hx (beq_iff_eq.2 hname)
    rw [hxx, hx] at hx'
    cases hx'
    exact (Prod.mk.inj heq).2.symm

theorem get?_schemas_ofSnapshot (hs : s.Named) (hx : s.catalog.schemas.get? x = some σ) :
    (ofSnapshot s).schemas.get? (Text.fold σ.name) =
      some (.ofTables σ ((s.catalog.tables.get? x).getD ∅).values) := by
  rw [get?_schemas_of_distinct hs.distinct hx (hs.live x σ hx), hs.filed x σ hx]

theorem get?_tables_ofTables_of_unique (ht : s.table? x y = some t) (hl : t.stage = .live)
    (hunique : ∀ y' t', s.table? x y' = some t' → Text.same t'.name t.name = true → y' = y) :
    (SchemaView.ofTables σ ((s.catalog.tables.get? x).getD ∅).values).tables.get?
      (Text.fold t.name) = some t := by
  apply SortedMap.get?_ofList_of_mem
  · apply List.mem_map.2
    refine ⟨t, List.mem_filter.2 ⟨mem_tables_iff.2 ⟨y, ht⟩, ?_⟩, rfl⟩
    rw [hl]
    rfl
  · intro u hu
    obtain ⟨u', hu', heq⟩ := List.mem_map.1 hu
    obtain ⟨hname, rfl⟩ := Prod.mk.inj heq
    obtain ⟨y', hy'⟩ := mem_tables_iff.1 (List.mem_filter.1 hu').1
    have hyy : y' = y := hunique y' _ hy' (beq_iff_eq.2 hname)
    rw [hyy, ht] at hy'
    exact (Option.some.inj hy').symm

theorem get?_tables_ofTables (hs : s.Named) (ht : s.table? x y = some t) (hl : t.stage = .live) :
    (SchemaView.ofTables σ ((s.catalog.tables.get? x).getD ∅).values).tables.get?
      (Text.fold t.name) = some t :=
  get?_tables_ofTables_of_unique ht hl fun y' t' ht' hsame => hs.table x y' y t' t ht' ht hsame

theorem mem_values_of_get? {α : Type} {m : SortedMap String α} {k : String} {a : α}
    (h : m.get? k = some a) : a ∈ m.values :=
  List.mem_map.2 ⟨(k, a), SortedMap.mem_entries_iff.2 h, rfl⟩

theorem referred_ofSchemas (version : Int) (schemas : SortedMap String SchemaView)
    (schema table : String) :
    (ofSchemas version schemas).referred schema table =
      schemas.values.flatMap fun s => s.tables.values.flatMap fun t =>
        (t.foreignKeys.filter fun fk => fk.isEnforced && fk.refersTo schema table).map
          fun fk => ⟨fk.refCols, s.schema.name, t.name, fk.name⟩ := by
  have hkey (fk : ForeignKey) :
      decide ((Text.fold fk.refSchema, Text.fold fk.refTable) =
        (Text.fold schema, Text.fold table)) = fk.refersTo schema table := by
    simp [ForeignKey.refersTo, Text.same, Bool.beq_eq_decide_eq]
  unfold referred ofSchemas
  rw [SortedMap.getD_collect]
  simp only [SchemaView.references, List.filter_flatMap, List.map_flatMap, List.filter_map,
    List.map_map, List.filter_filter, Function.comp_def, hkey, Bool.and_comm]

theorem referred_ofSnapshot (s : Snapshot) (schema table : String) :
    (ofSnapshot s).referred schema table =
      (ofSnapshot s).schemas.values.flatMap fun s => s.tables.values.flatMap fun t =>
        (t.foreignKeys.filter fun fk => fk.isEnforced && fk.refersTo schema table).map
          fun fk => ⟨fk.refCols, s.schema.name, t.name, fk.name⟩ :=
  referred_ofSchemas s.catalog.schemaVersion _ schema table

theorem mem_referred_ofSnapshot (hs : s.Named) (hx : s.catalog.schemas.get? x = some σ)
    (ht : s.table? x y = some t) (hl : t.stage = .live) {fk : ForeignKey}
    (hfk : fk ∈ t.foreignKeys) (he : fk.isEnforced = true)
    (hr : fk.refersTo schema table = true) :
    ⟨fk.refCols, σ.name, t.name, fk.name⟩ ∈ (ofSnapshot s).referred schema table := by
  rw [referred_ofSnapshot]
  apply List.mem_flatMap.2
  refine ⟨_, mem_values_of_get? (get?_schemas_ofSnapshot hs hx), ?_⟩
  apply List.mem_flatMap.2
  refine ⟨t, mem_values_of_get? (get?_tables_ofTables hs ht hl), ?_⟩
  apply List.mem_map.2
  refine ⟨fk, List.mem_filter.2 ⟨hfk, ?_⟩, rfl⟩
  rw [he, hr]
  rfl

end View

end Steward
