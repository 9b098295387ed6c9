import Steward.Proofs.Ledger.Twins
import Steward.Proofs.View

/-!
This module contains what the views of twins have in common. They find the same tables, apart from
those that are in the places where the twins differ, and the same constraints refer to a table if
those places have none that do.
-/

namespace Steward

open Catalog (Fault ForeignKey Schema Table)
open Ledger (Snapshot)

namespace SortedMap

universe u v w

variable {κ : Type u} {α : Type v} {β : Type w} [Ord κ] [DecidableEq κ] [Std.LawfulEqOrd κ]
  {m m' : SortedMap κ α} {f : α → List β}

def parts (m : SortedMap κ α) (f : α → List β) : SortedMap κ (List β) :=
  ⟨(m.entries.map fun e => (e.1, f e.2)).filter fun e => !e.2.isEmpty,
    (List.pairwise_map.2 m.ordered).filter _⟩

theorem valueIn_map (f : α → List β) (k : κ) (es : List (κ × α)) :
    valueIn k (es.map fun e => (e.1, f e.2)) = (valueIn k es).map f := by
  induction es with
  | nil => rfl
  | cons e es ih =>
    rw [List.map_cons, valueIn_cons, valueIn_cons, ih]
    split <;> rfl

theorem get?_parts (m : SortedMap κ α) (f : α → List β) (k : κ) :
    (m.parts f).get? k = ((m.get? k).map f).filter fun bs => !bs.isEmpty := by
  rw [get?_eq_valueIn m, ← valueIn_map]
  exact valueIn_filter (fun _ (bs : List β) => !bs.isEmpty) k (List.pairwise_map.2 m.ordered)

omit [DecidableEq κ] [Std.LawfulEqOrd κ] in
theorem flatten_values_parts (m : SortedMap κ α) (f : α → List β) :
    (m.parts f).values.flatten = m.values.flatMap f := by
  unfold parts values
  dsimp only
  induction m.entries with
  | nil => rfl
  | cons e es ih =>
    rw [List.map_cons, List.map_cons, List.flatMap_cons, List.filter_cons]
    split
    · rw [List.map_cons, List.flatten_cons, ih]
    · next hempty =>
      have hnil : f e.2 = [] := by simpa using hempty
      rw [hnil, List.nil_append, ih]

theorem flatMap_values_congr [Std.TransOrd κ]
    (h : ∀ k, ((m.get? k).map f).getD [] = ((m'.get? k).map f).getD []) :
    m.values.flatMap f = m'.values.flatMap f := by
  have hfilter (o : Option (List β)) :
      (o.filter fun bs => !bs.isEmpty) = some (o.getD []) ∧ o.getD [] ≠ [] ∨
        (o.filter fun bs => !bs.isEmpty) = none ∧ o.getD [] = [] := by
    cases o with
    | none => exact .inr ⟨rfl, rfl⟩
    | some bs => cases bs <;> simp
  -- One map may have keys that the other one lacks, but nothing comes of their values.
  have hparts : m.parts f = m'.parts f := by
    apply ext_get?
    intro k
    rw [get?_parts, get?_parts]
    rcases hfilter ((m.get? k).map f) with ⟨hm, hne⟩ | ⟨hm, hnil⟩
    · rcases hfilter ((m'.get? k).map f) with ⟨hm', _⟩ | ⟨_, hnil'⟩
      · rw [hm, hm', h]
      · exact absurd ((h k).trans hnil') hne
    · rcases hfilter ((m'.get? k).map f) with ⟨_, hne'⟩ | ⟨hm', _⟩
      · exact absurd ((h k).symm.trans hnil) hne'
      · rw [hm, hm']
  rw [← flatten_values_parts, hparts, flatten_values_parts]

end SortedMap

namespace View

variable {P : Int → Int → Prop} {s s' : Snapshot} {schema table name : String} {σ : Schema} {t : Table}
  {x y : Int}

section Tables

theorem table_eq_ok (hs : s.Named) (hx : s.catalog.schemas.get? x = some σ)
    (ht : s.table? x y = some t) (hl : t.stage = .live) (hschema : Text.same σ.name schema = true)
    (htable : Text.same t.name table = true) : (ofSnapshot s).table schema table = .ok t := by
  have hname : Text.fold σ.name = Text.fold schema := beq_iff_eq.1 hschema
  have htname : Text.fold t.name = Text.fold table := beq_iff_eq.1 htable
  unfold View.table schemaView?
  rw [← hname, get?_schemas_ofSnapshot hs hx, ← htname, Option.bind_some,
    get?_tables_ofTables hs ht hl]

theorem table_of_twins (hs : s.Named) (hs' : s'.Named) (h : s.Twins P s')
    (hfar : ∀ x y σ t, P x y → s.catalog.schemas.get? x = some σ → s.table? x y = some t →
      ¬ (Text.same σ.name schema = true ∧ Text.same t.name table = true))
    (ht : (ofSnapshot s).table schema table = .ok t) :
    ∃ updated, (ofSnapshot s').table schema table = .ok { t with updated } := by
  obtain ⟨x, y, σ, hx, hschema, ht, htable, hl⟩ := table_ofSnapshot hs ht
  obtain ⟨updated, ht'⟩ := h.exists_table? (fun hxy => hfar x y σ t hxy hx ht ⟨hschema, htable⟩) ht
  rw [← h.schemas] at hx
  exact ⟨updated, table_eq_ok hs' hx ht' hl hschema htable⟩

theorem table_eq_error {v : View} {f : Fault} (h : v.table schema table = .error f) :
    f = .noSuchTable schema table := by
  unfold View.table at h
  split at h
  · cases h
  · cases h
    rfl

theorem table_twins (hs : s.Named) (hs' : s'.Named) (h : s.Twins P s')
    (hfar : ∀ x y σ t, P x y → s.catalog.schemas.get? x = some σ →
      s.table? x y = some t ∨ s'.table? x y = some t →
      ¬ (Text.same σ.name schema = true ∧ Text.same t.name table = true)) :
    ((ofSnapshot s').table schema table).map Table.undated =
      ((ofSnapshot s).table schema table).map Table.undated := by
  cases hleft : (ofSnapshot s).table schema table with
  | ok t =>
    obtain ⟨updated, hright⟩ := table_of_twins hs hs' h
      (fun x y σ t hxy hx ht => hfar x y σ t hxy hx (.inl ht)) hleft
    rw [hright]
    rfl
  | error f =>
    cases hright : (ofSnapshot s').table schema table with
    | ok t' =>
      obtain ⟨updated, hfound⟩ := table_of_twins hs' hs h.symm (by
        intro x y σ t hxy hx ht
        rw [h.schemas] at hx
        exact hfar x y σ t hxy hx (.inr ht)) hright
      cases hleft.symm.trans hfound
    | error f' => rw [table_eq_error hleft, table_eq_error hright]

end Tables

section Referred

def referring (schema table childSchema : String) (t : Table) : List Referred :=
  (t.foreignKeys.filter fun fk => fk.isEnforced && fk.refersTo schema table).map
    fun fk => ⟨fk.refCols, childSchema, t.name, fk.name⟩

theorem referring_eq_nil (h : ∀ fk ∈ t.foreignKeys, fk.refersTo schema table = false)
    (childSchema : String) : referring schema table childSchema t = [] := by
  unfold referring
  rw [List.map_eq_nil_iff, List.filter_eq_nil_iff]
  intro fk hfk
  simp [h fk hfk]

theorem mem_tables_ofTables
    (h : (SchemaView.ofTables σ ((s.catalog.tables.get? x).getD ∅).values).tables.get? name = some t) :
    ∃ y, s.table? x y = some t ∧ t.stage = .live ∧ Text.fold t.name = name := by
  obtain ⟨u, hu, heq⟩ := List.mem_map.1 (SortedMap.mem_of_get?_ofList h)
  obtain ⟨hname, rfl⟩ := Prod.mk.inj heq
  obtain ⟨hmem, hlive⟩ := List.mem_filter.1 hu
  obtain ⟨y, hy⟩ := mem_tables_iff.1 hmem
  exact ⟨y, hy, eq_of_beq hlive, hname⟩

theorem referring_of_twins (hs' : s'.Named) (h : s.Twins P s')
    (hfar : ∀ y t, P x y → s.table? x y = some t →
      ∀ fk ∈ t.foreignKeys, fk.refersTo schema table = false) (σ : Schema) (name : String) (t : Table)
    (ht : (SchemaView.ofTables σ ((s.catalog.tables.get? x).getD ∅).values).tables.get? name = some t)
    (childSchema : String) : referring schema table childSchema t = [] ∨
      ∃ updated, (SchemaView.ofTables σ ((s'.catalog.tables.get? x).getD ∅).values).tables.get? name =
        some { t with updated } := by
  obtain ⟨y, hy, hl, rfl⟩ := mem_tables_ofTables ht
  by_cases hxy : P x y
  · exact .inl (referring_eq_nil (hfar y t hxy hy) childSchema)
  · obtain ⟨updated, hy'⟩ := h.exists_table? hxy hy
    exact .inr ⟨updated, get?_tables_ofTables hs' hy' hl⟩

theorem referring_twins (hs : s.Named) (hs' : s'.Named) (h : s.Twins P s')
    (hfar : ∀ y t, P x y → s.table? x y = some t ∨ s'.table? x y = some t →
      ∀ fk ∈ t.foreignKeys, fk.refersTo schema table = false) (σ : Schema) :
    (SchemaView.ofTables σ ((s.catalog.tables.get? x).getD ∅).values).tables.values.flatMap
        (referring schema table σ.name) =
      (SchemaView.ofTables σ ((s'.catalog.tables.get? x).getD ∅).values).tables.values.flatMap
        (referring schema table σ.name) := by
  apply SortedMap.flatMap_values_congr
  intro name
  have hleft := referring_of_twins hs' h (fun y t hxy ht => hfar y t hxy (.inl ht)) σ name
  have hright := referring_of_twins hs h.symm (fun y t hxy ht => hfar y t hxy (.inr ht)) σ name
  cases ht : (SchemaView.ofTables σ ((s.catalog.tables.get? x).getD ∅).values).tables.get? name with
  | none =>
    cases ht' :
      (SchemaView.ofTables σ ((s'.catalog.tables.get? x).getD ∅).values).tables.get? name with
    | none => rfl
    | some t' =>
      rcases hright t' ht' σ.name with hnil | ⟨updated, hfound⟩
      · exact hnil.symm
      · cases ht.symm.trans hfound
  | some t =>
    rcases hleft t ht σ.name with hnil | ⟨updated, hfound⟩
    · cases ht' : (SchemaView.ofTables σ ((s'.catalog.tables.get? x).getD ∅).values).tables.get?
          name with
      | none => exact hnil
      | some t' =>
        rcases hright t' ht' σ.name with hnil' | ⟨updated, hfound⟩
        · exact hnil.trans hnil'.symm
        · cases ht.symm.trans hfound
          rfl
    · rw [hfound]
      rfl

theorem referred_twins (hs : s.Named) (hs' : s'.Named) (h : s.Twins P s')
    (hfar : ∀ x y t, P x y → s.table? x y = some t ∨ s'.table? x y = some t →
      ∀ fk ∈ t.foreignKeys, fk.refersTo schema table = false) :
    (ofSnapshot s').referred schema table = (ofSnapshot s).referred schema table := by
  have hschema (σ : Schema) (x : Int) := (referring_twins hs hs' h (hfar x) σ).symm
  rw [referred_ofSnapshot, referred_ofSnapshot]
  apply SortedMap.flatMap_values_congr
  intro name
  cases hv : (ofSnapshot s).schemas.get? name with
  | none =>
    cases hv' : (ofSnapshot s').schemas.get? name with
    | none => rfl
    | some sv' =>
      obtain ⟨x, σ, hx, rfl, -⟩ := mem_schemas_ofSnapshot hv'
      rw [h.schemas] at hx
      cases hv.symm.trans (get?_schemas_ofSnapshot hs hx)
  | some sv =>
    obtain ⟨x, σ, hx, rfl, rfl⟩ := mem_schemas_ofSnapshot hv
    have hx' : s'.catalog.schemas.get? x = some σ := by rw [h.schemas, hx]
    rw [get?_schemas_ofSnapshot hs' hx', hs.filed x σ hx]
    exact hschema σ x

end Referred

end View

end Steward
