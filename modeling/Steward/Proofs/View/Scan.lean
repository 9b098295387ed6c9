import Steward.Proofs.View

/-!
This module contains what a view is: both of its indexes, the one of the tables and the one of the
constraints that refer to them, say what a scan of the snapshot says, for every snapshot whose
schemas and tables can be told apart by their names.
-/

namespace Steward

open Catalog (ForeignKey Schema Table)
open Ledger (Snapshot)

namespace Ledger.Snapshot

def Shows (s : Snapshot) (σ : Schema) (t : Table) : Prop :=
  ∃ x y, s.catalog.schemas.get? x = some σ ∧ σ.stage = .live ∧ s.table? σ.id y = some t ∧
    t.stage = .live

theorem distinct_iff (s : Snapshot) : s.Distinct ↔
    (∀ a ∈ s.catalog.schemas.entries, ∀ b ∈ s.catalog.schemas.entries,
      Text.same a.2.name b.2.name = true → a.1 = b.1) ∧
    ∀ a ∈ s.catalog.schemas.entries, ∀ b ∈ ((s.catalog.tables.get? a.2.id).getD ∅).entries,
      ∀ c ∈ ((s.catalog.tables.get? a.2.id).getD ∅).entries,
        Text.same b.2.name c.2.name = true → b.1 = c.1 := by
  have htables (x y : Int) (t : Table) : s.table? x y = some t ↔
      (y, t) ∈ ((s.catalog.tables.get? x).getD ∅).entries := by
    rw [SortedMap.mem_entries_iff]
    unfold table?
    cases s.catalog.tables.get? x <;> exact Iff.rfl
  constructor
  · intro h
    refine ⟨fun a ha b hb => ?_, fun a ha b hb c hc => ?_⟩
    · exact h.schema a.1 b.1 a.2 b.2 (SortedMap.mem_entries_iff.1 ha) (SortedMap.mem_entries_iff.1 hb)
    · exact h.table a.1 a.2 b.1 c.1 b.2 c.2 (SortedMap.mem_entries_iff.1 ha) ((htables _ _ _).2 hb)
        ((htables _ _ _).2 hc)
  · rintro ⟨hschemas, htables'⟩
    refine ⟨fun x x' σ σ' hx hx' => ?_, fun x σ y y' t t' hx ht ht' => ?_⟩
    · exact hschemas (x, σ) (SortedMap.mem_entries_iff.2 hx) (x', σ') (SortedMap.mem_entries_iff.2 hx')
    · exact htables' (x, σ) (SortedMap.mem_entries_iff.2 hx) (y, t) ((htables _ _ _).1 ht) (y', t')
        ((htables _ _ _).1 ht')

instance (s : Snapshot) : Decidable s.Distinct := decidable_of_iff' _ s.distinct_iff

end Ledger.Snapshot

/--
A constraint where it stands: at a position of a table of a schema.
-/
structure Site where
  schema : Schema
  table : Table
  position : Nat
  key : ForeignKey

namespace Site

variable {s : Snapshot} {schema table : String}

/--
The site is the one of an enforced constraint of a public table, and the constraint refers to the
given names. Nothing is said of a table with these names.
-/
structure Refers (s : Snapshot) (schema table : String) (site : Site) : Prop where
  shown : s.Shows site.schema site.table
  stands : site.table.foreignKeys[site.position]? = some site.key
  enforced : site.key.isEnforced = true
  schema : Text.same site.key.refSchema schema = true
  table : Text.same site.key.refTable table = true

/--
The order of the folded names of the schemas, then of those of the tables, then of the positions.
-/
def Before (a b : Site) : Prop :=
  Text.fold a.schema.name < Text.fold b.schema.name ∨
    Text.fold a.schema.name = Text.fold b.schema.name ∧
      (Text.fold a.table.name < Text.fold b.table.name ∨
        Text.fold a.table.name = Text.fold b.table.name ∧ a.position < b.position)

def entry (site : Site) : Referred :=
  ⟨site.key.refCols, site.schema.name, site.table.name, site.key.name⟩

/--
The sites of one table whose constraints refer to the names.
-/
def ofTable (schema table : String) (σ : Schema) (t : Table) : List Site :=
  (t.foreignKeys.zipIdx.filter fun p => p.1.isEnforced && p.1.refersTo schema table).map
    fun p => ⟨σ, t, p.2, p.1⟩

def ofSchema (schema table : String) (sv : SchemaView) : List Site :=
  sv.tables.values.flatMap (ofTable schema table sv.schema)

variable {σ : Schema} {t : Table} {sv : SchemaView} {site : Site}

theorem mem_ofTable : site ∈ ofTable schema table σ t ↔
    site.schema = σ ∧ site.table = t ∧ t.foreignKeys[site.position]? = some site.key ∧
      site.key.isEnforced = true ∧ site.key.refersTo schema table = true := by
  unfold ofTable
  simp only [List.mem_map, List.mem_filter, List.mem_zipIdx_iff_getElem?, Bool.and_eq_true]
  constructor
  · rintro ⟨p, ⟨hp, he, hr⟩, rfl⟩
    exact ⟨rfl, rfl, hp, he, hr⟩
  · rintro ⟨rfl, rfl, hp, he, hr⟩
    exact ⟨(site.key, site.position), ⟨hp, he, hr⟩, rfl⟩

theorem pairwise_ofTable : (ofTable schema table σ t).Pairwise Before := by
  have hpositions : t.foreignKeys.zipIdx.Pairwise fun p q => p.2 < q.2 := by
    rw [← List.pairwise_map, List.zipIdx_map_snd]
    exact List.pairwise_lt_range'
  unfold ofTable
  rw [List.pairwise_map]
  exact (hpositions.filter _).imp fun hlt => .inr ⟨rfl, .inr ⟨rfl, hlt⟩⟩

theorem map_entry_ofTable : (ofTable schema table σ t).map entry =
    (t.foreignKeys.filter fun fk => fk.isEnforced && fk.refersTo schema table).map
      fun fk => ⟨fk.refCols, σ.name, t.name, fk.name⟩ :=
  calc
    _ = ((t.foreignKeys.zipIdx.map Prod.fst).filter fun fk =>
          fk.isEnforced && fk.refersTo schema table).map
            fun fk => ⟨fk.refCols, σ.name, t.name, fk.name⟩ := by
      simp only [ofTable, List.filter_map, List.map_map, Function.comp_def, entry]
    _ = _ := by rw [List.zipIdx_map_fst]

end Site

namespace SortedMap

theorem pairwise_values {α : Type} {m : SortedMap String α} {name : α → String}
    (h : ∀ k a, m.get? k = some a → k = name a) :
    m.values.Pairwise fun a b => name a < name b := by
  unfold values
  rw [List.pairwise_map]
  refine m.ordered.imp_of_mem fun {a b} ha hb hlt => ?_
  rw [← h a.1 a.2 (mem_entries_iff.1 ha), ← h b.1 b.2 (mem_entries_iff.1 hb)]
  exact compareOfLessAndEq_eq_lt.1 hlt

end SortedMap

namespace View

variable {s : Snapshot} {schema table : String} {σ : Schema} {t : Table} {x y : Int}
  {sv : SchemaView} {name : String} {site : Site}

theorem get?_schemas_iff (hs : s.Distinct) :
    (ofSnapshot s).schemas.get? name = some sv ↔
      ∃ x σ, s.catalog.schemas.get? x = some σ ∧ σ.stage = .live ∧ name = Text.fold σ.name ∧
        sv = .ofTables σ ((s.catalog.tables.get? σ.id).getD ∅).values := by
  constructor
  · intro h
    obtain ⟨σ, hσ, heq⟩ := List.mem_map.1 (SortedMap.mem_of_get?_ofList h)
    obtain ⟨hmem, hlive⟩ := List.mem_filter.1 hσ
    obtain ⟨x, hx⟩ := mem_values_iff.1 hmem
    cases heq
    exact ⟨x, σ, hx, eq_of_beq hlive, rfl, rfl⟩
  · rintro ⟨x, σ, hx, hl, rfl, rfl⟩
    exact get?_schemas_of_distinct hs hx hl

theorem get?_tables_iff (hs : s.Distinct) (hx : s.catalog.schemas.get? x = some σ) :
    (SchemaView.ofTables σ ((s.catalog.tables.get? σ.id).getD ∅).values).tables.get? name = some t ↔
      ∃ y, s.table? σ.id y = some t ∧ t.stage = .live ∧ name = Text.fold t.name := by
  constructor
  · intro h
    obtain ⟨u, hu, heq⟩ := List.mem_map.1 (SortedMap.mem_of_get?_ofList h)
    obtain ⟨hmem, hlive⟩ := List.mem_filter.1 hu
    obtain ⟨y, hy⟩ := mem_tables_iff.1 hmem
    cases heq
    exact ⟨y, hy, eq_of_beq hlive, rfl⟩
  · rintro ⟨y, hy, hl, rfl⟩
    exact get?_tables_ofTables_of_unique hy hl fun y' t' hy' hsame =>
      hs.table x σ y' y t' t hx hy' hy hsame

/-! ### Tables -/

theorem table_eq_ok_iff (hs : s.Distinct) : (ofSnapshot s).table schema table = .ok t ↔
    ∃ σ, s.Shows σ t ∧ Text.same σ.name schema = true ∧ Text.same t.name table = true := by
  have hfound : (ofSnapshot s).table schema table = .ok t ↔
      ∃ sv, (ofSnapshot s).schemas.get? (Text.fold schema) = some sv ∧
        sv.tables.get? (Text.fold table) = some t := by
    rw [← Option.bind_eq_some_iff]
    unfold View.table schemaView?
    split
    · next found hfound => simp [hfound]
    · next hnone => simp [hnone]
  rw [hfound]
  constructor
  · rintro ⟨sv, hsv, ht⟩
    obtain ⟨x, σ, hx, hl, hname, rfl⟩ := (get?_schemas_iff hs).1 hsv
    obtain ⟨y, hy, hlive, htname⟩ := (get?_tables_iff hs hx).1 ht
    exact ⟨σ, ⟨x, y, hx, hl, hy, hlive⟩, beq_iff_eq.2 hname.symm, beq_iff_eq.2 htname.symm⟩
  · rintro ⟨σ, ⟨x, y, hx, hl, hy, hlive⟩, hname, htname⟩
    exact ⟨_, (get?_schemas_iff hs).2 ⟨x, σ, hx, hl, (eq_of_beq hname).symm, rfl⟩,
      (get?_tables_iff hs hx).2 ⟨y, hy, hlive, (eq_of_beq htname).symm⟩⟩

theorem table_eq_error_iff {fault : Catalog.Fault} (hs : s.Distinct) :
    (ofSnapshot s).table schema table = .error fault ↔
      fault = .noSuchTable schema table ∧ ∀ σ t, s.Shows σ t → Text.same σ.name schema = true →
        Text.same t.name table = false := by
  have hshown : (∀ σ t, s.Shows σ t → Text.same σ.name schema = true →
      Text.same t.name table = false) ↔ ∀ t, (ofSnapshot s).table schema table ≠ .ok t := by
    simp only [ne_eq, table_eq_ok_iff hs, not_exists, not_and, Bool.not_eq_true]
    exact ⟨fun h t σ => h σ t, fun h σ t => h t σ⟩
  rw [hshown]
  unfold View.table
  split <;> simp [eq_comm]

/-! ### Constraints -/

theorem mem_ofSchema (hs : s.Distinct) (hx : s.catalog.schemas.get? x = some σ)
    (hl : σ.stage = .live) :
    site ∈ Site.ofSchema schema table
        (.ofTables σ ((s.catalog.tables.get? σ.id).getD ∅).values) ↔
      site.schema = σ ∧ site.Refers s schema table := by
  unfold Site.ofSchema
  rw [List.mem_flatMap]
  constructor
  · rintro ⟨t, ht, hsite⟩
    obtain ⟨e, he, rfl⟩ := List.mem_map.1 ht
    obtain ⟨y, hy, hlive, -⟩ := (get?_tables_iff hs hx).1 (SortedMap.mem_entries_iff.1 he)
    obtain ⟨rfl, htable, hstands, henforced, hrefers⟩ := Site.mem_ofTable.1 hsite
    rw [← htable] at hy hlive hstands
    obtain ⟨hschema, htable⟩ := Bool.and_eq_true_iff.1 hrefers
    exact ⟨rfl, ⟨x, y, hx, hl, hy, hlive⟩, hstands, henforced, hschema, htable⟩
  · rintro ⟨rfl, h⟩
    obtain ⟨-, y, -, -, hy, hlive⟩ := h.shown
    refine ⟨site.table, ?_, Site.mem_ofTable.2 ⟨rfl, rfl, h.stands, h.enforced, ?_⟩⟩
    · exact mem_values_of_get? ((get?_tables_iff hs hx).2 ⟨y, hy, hlive, rfl⟩)
    · exact Bool.and_eq_true_iff.2 ⟨h.schema, h.table⟩

theorem pairwise_ofSchema (hs : s.Distinct) (hx : s.catalog.schemas.get? x = some σ) :
    (Site.ofSchema schema table
      (.ofTables σ ((s.catalog.tables.get? σ.id).getD ∅).values)).Pairwise Site.Before := by
  have hordered : (SchemaView.ofTables σ
      ((s.catalog.tables.get? σ.id).getD ∅).values).tables.values.Pairwise fun t t' =>
        Text.fold t.name < Text.fold t'.name := by
    refine SortedMap.pairwise_values fun name t ht => ?_
    obtain ⟨y, -, -, hname⟩ := (get?_tables_iff hs hx).1 ht
    exact hname
  refine List.pairwise_flatMap.2 ⟨fun t _ => Site.pairwise_ofTable, ?_⟩
  refine hordered.imp fun {t t'} hlt a ha b hb => ?_
  obtain ⟨hschema, htable, -⟩ := Site.mem_ofTable.1 ha
  obtain ⟨hschema', htable', -⟩ := Site.mem_ofTable.1 hb
  rw [← htable, ← htable'] at hlt
  exact .inr ⟨by rw [hschema, hschema'], .inl hlt⟩

/--
The sites that a scan of the schemas in their order comes upon.
-/
def sites (s : Snapshot) (schema table : String) : List Site :=
  (ofSnapshot s).schemas.values.flatMap (Site.ofSchema schema table)

theorem exists_of_mem_schemas (hs : s.Distinct) (h : sv ∈ (ofSnapshot s).schemas.values) :
    ∃ x σ, s.catalog.schemas.get? x = some σ ∧ σ.stage = .live ∧
      sv = .ofTables σ ((s.catalog.tables.get? σ.id).getD ∅).values := by
  obtain ⟨e, he, rfl⟩ := List.mem_map.1 h
  obtain ⟨x, σ, hx, hl, -, heq⟩ := (get?_schemas_iff hs).1 (SortedMap.mem_entries_iff.1 he)
  exact ⟨x, σ, hx, hl, heq⟩

theorem mem_sites (hs : s.Distinct) :
    site ∈ sites s schema table ↔ site.Refers s schema table := by
  unfold sites
  rw [List.mem_flatMap]
  constructor
  · rintro ⟨sv, hsv, hsite⟩
    obtain ⟨x, σ, hx, hl, rfl⟩ := exists_of_mem_schemas hs hsv
    exact ((mem_ofSchema hs hx hl).1 hsite).2
  · intro h
    obtain ⟨x, y, hx, hl, hy, hlive⟩ := h.shown
    exact ⟨_, mem_values_of_get? (get?_schemas_of_distinct hs hx hl),
      (mem_ofSchema hs hx hl).2 ⟨rfl, h⟩⟩

theorem pairwise_sites (hs : s.Distinct) : (sites s schema table).Pairwise Site.Before := by
  refine List.pairwise_flatMap.2 ⟨fun sv hsv => ?_, ?_⟩
  · obtain ⟨x, σ, hx, -, rfl⟩ := exists_of_mem_schemas hs hsv
    exact pairwise_ofSchema hs hx
  · have hordered : (ofSnapshot s).schemas.values.Pairwise fun a b =>
        Text.fold a.schema.name < Text.fold b.schema.name := by
      refine SortedMap.pairwise_values fun name sv hsv => ?_
      obtain ⟨x, σ, -, -, rfl, rfl⟩ := (get?_schemas_iff hs).1 hsv
      rfl
    refine hordered.imp_of_mem fun hsv hsv' hlt a ha b hb => ?_
    obtain ⟨x, σ, hx, hl, rfl⟩ := exists_of_mem_schemas hs hsv
    obtain ⟨x', σ', hx', hl', rfl⟩ := exists_of_mem_schemas hs hsv'
    rw [((mem_ofSchema hs hx hl).1 ha).1.symm] at hlt
    rw [((mem_ofSchema hs hx' hl').1 hb).1.symm] at hlt
    exact .inl hlt

theorem map_entry_sites :
    (sites s schema table).map Site.entry = (ofSnapshot s).referred schema table := by
  rw [referred_ofSnapshot, sites, List.map_flatMap]
  simp only [Site.ofSchema, List.map_flatMap, Site.map_entry_ofTable]

/--
A view is a scan of the snapshot. Names in capitals or small letters find the public table that has
them, in the public schema that has them, and nothing else. The constraints that refer to a table
are listed without a gap and without a repetition: there is one entry for each enforced constraint
of a public table, in the order of the folded names of the schema and of the table and then of the
positions, even if no table has the names that are referred to.
-/
theorem ofSnapshot_scans (hs : s.Distinct) (schema table : String) :
    (∀ t, (ofSnapshot s).table schema table = .ok t ↔
      ∃ σ, s.Shows σ t ∧ Text.same σ.name schema = true ∧ Text.same t.name table = true) ∧
    (∀ fault, (ofSnapshot s).table schema table = .error fault ↔
      fault = .noSuchTable schema table ∧ ∀ σ t, s.Shows σ t → Text.same σ.name schema = true →
        Text.same t.name table = false) ∧
    ∃ sites : List Site, (∀ site, site ∈ sites ↔ site.Refers s schema table) ∧
      sites.Pairwise Site.Before ∧
      (ofSnapshot s).referred schema table = sites.map Site.entry :=
  ⟨fun _ => table_eq_ok_iff hs, fun _ => table_eq_error_iff hs, sites s schema table,
    fun _ => mem_sites hs, pairwise_sites hs, map_entry_sites.symm⟩

def ships : Table :=
  { ((Table.ofName "Ships").withForeignKey
      (.ofNames "owned" ["owner"] "Port" "Owners" ["id"])).withForeignKey
      (.ofNames "built" ["yard"] "PORT" "yards" ["id"]) with id := 3, stage := .live }

def boats : Table :=
  { (Table.ofName "boats").withForeignKey
      (.ofNames "lent" ["lender"] "port" "OWNERS" ["id"]) with id := 4, stage := .live }

def harbour : Snapshot where
  revision := 1
  catalog := ⟨1, 0, .ofList [(1, ⟨1, "Port", .live⟩), (2, ⟨2, "Dock", .absent⟩)],
    .ofList [(1, .ofList [(3, ships), (4, boats)]), (2, .ofList [(5, boats)])]⟩
  lastId := 5
  jobs := ∅
  history := ∅

theorem ofSnapshot_scans_harbour : harbour.Distinct ∧
    (ofSnapshot harbour).table "PORT" "ships" = .ok ships ∧
    ∃ sites : List Site, (∀ site, site ∈ sites ↔ site.Refers harbour "port" "owners") ∧
      sites.Pairwise Site.Before ∧ sites.map Site.entry =
        [⟨["id"], "Port", "boats", "lent"⟩, ⟨["id"], "Port", "Ships", "owned"⟩] := by
  have hdistinct : harbour.Distinct := by decide +kernel
  obtain ⟨htable, -, -⟩ := ofSnapshot_scans hdistinct "PORT" "ships"
  obtain ⟨-, -, sites, hmem, hordered, hreferred⟩ := ofSnapshot_scans hdistinct "port" "owners"
  refine ⟨hdistinct, (htable ships).2 ⟨⟨1, "Port", .live⟩, ⟨1, 3, ?_⟩, ?_⟩, sites, hmem, hordered, ?_⟩
  · decide +kernel
  · decide +kernel
  · rw [← hreferred]
    decide +kernel

end View

end Steward
