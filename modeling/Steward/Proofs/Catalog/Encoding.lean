import Mathlib.Tactic.MkIffOfInductiveProp
import Steward.Catalog.Encoding
import Steward.Proofs.Json.Shape

/-!
This module contains the objects of the catalog and the faults as they come back from their JSON
forms. All that is asked of them is that their numbers have room in their types.
-/

namespace Steward.Catalog

open Json (Restores)

variable (room : Nat)

/-! ### Choices -/

section Choice

variable {α : Type} {names : List (String × α)} {a : α}

theorem lookup_of_nodup {p : String × α} (hnodup : (names.map (·.1)).Nodup) (hp : p ∈ names) :
    names.lookup p.1 = some p.2 := by
  induction names with
  | nil => cases hp
  | cons x names ih =>
    rw [List.map_cons, List.nodup_cons] at hnodup
    rcases List.mem_cons.1 hp with rfl | hp
    · exact List.lookup_cons_self
    · have hne : (p.1 == x.1) = false :=
        beq_false_of_ne fun h => hnodup.1 (h ▸ List.mem_map_of_mem hp)
      rw [List.lookup_cons, hne]
      exact ih hnodup.2 hp

theorem restores_choice [DecidableEq α] (hnodup : (names.map (·.1)).Nodup)
    (ha : a ∈ names.map (·.2)) : Restores (nameIn names) (Json.oneOf? names) room a := by
  obtain ⟨p, hmem, rfl⟩ := List.mem_map.1 ha
  cases hp : names.find? (fun x => x.2 == p.2) with
  | none => exact absurd (List.find?_eq_none.1 hp p hmem) (by simp)
  | some q =>
    have hq : q.2 = p.2 := by simpa using List.find?_some hp
    have hwritten : nameIn names p.2 = .str q.1 := by
      unfold nameIn
      rw [hp]
    refine ⟨?_, ?_⟩
    · rw [hwritten, ← hq]
      exact lookup_of_nodup hnodup (List.mem_of_find?_eq_some hp)
    · rw [hwritten]
      exact .str q.1

end Choice

theorem Stage.restores (s : Stage) : Restores toJson ofJson? room s :=
  restores_choice room (by decide) (by cases s <;> decide)

theorem ColumnType.restores (t : ColumnType) : Restores toJson ofJson? room t :=
  restores_choice room (by decide) (by cases t <;> decide)

theorem RefAction.restores (a : RefAction) : Restores toJson ofJson? room a :=
  restores_choice room (by decide) (by cases a <;> decide)

theorem Temporary.restores (t : Temporary) : Restores toJson ofJson? room t :=
  restores_choice room (by decide) (by cases t <;> decide)

/-! ### Records -/

def FieldType.Fits (f : FieldType) : Prop := ∀ n ∈ f.length, n ≤ Text.maxNat32

instance (f : FieldType) : Decidable f.Fits := inferInstanceAs (Decidable (∀ n ∈ f.length, _))

@[mk_iff]
structure Column.Fits (c : Column) : Prop where
  id : Text.IsInt64 c.id
  offset : c.offset ≤ Text.maxNat64
  fieldType : c.fieldType.Fits

instance (c : Column) : Decidable c.Fits := decidable_of_iff' _ c.fits_iff

@[mk_iff]
structure IndexColumn.Fits (c : IndexColumn) : Prop where
  offset : c.offset ≤ Text.maxNat64
  length : ∀ n ∈ c.length, n ≤ Text.maxNat32

instance (c : IndexColumn) : Decidable c.Fits := decidable_of_iff' _ c.fits_iff

@[mk_iff]
structure Index.Fits (ix : Index) : Prop where
  id : Text.IsInt64 ix.id
  columns : ∀ c ∈ ix.columns, c.Fits

instance (ix : Index) : Decidable ix.Fits := decidable_of_iff' _ ix.fits_iff

@[mk_iff]
structure ForeignKey.Fits (fk : ForeignKey) : Prop where
  id : Text.IsInt64 fk.id
  version : fk.version ≤ Text.maxNat32

instance (fk : ForeignKey) : Decidable fk.Fits := decidable_of_iff' _ fk.fits_iff

def Partitioning.Fits (p : Partitioning) : Prop := p.count ≤ Text.maxNat32

instance (p : Partitioning) : Decidable p.Fits := inferInstanceAs (Decidable (p.count ≤ _))

/--
Every number of the table has room in its type: ids have 64 bits with a sign, offsets and the time
of the last change 64 bits, and lengths, versions and counts 32 bits.
-/
@[mk_iff]
structure Table.Fits (t : Table) : Prop where
  id : Text.IsInt64 t.id
  columns : ∀ c ∈ t.columns, c.Fits
  indices : ∀ ix ∈ t.indices, ix.Fits
  foreignKeys : ∀ fk ∈ t.foreignKeys, fk.Fits
  maxColumnId : Text.IsInt64 t.maxColumnId
  maxIndexId : Text.IsInt64 t.maxIndexId
  maxForeignKeyId : Text.IsInt64 t.maxForeignKeyId
  partitioning : ∀ p ∈ t.partitioning, p.Fits
  updated : t.updated ≤ Text.maxNat64

instance (t : Table) : Decidable t.Fits := decidable_of_iff' _ t.fits_iff

def Schema.Fits (s : Schema) : Prop := Text.IsInt64 s.id

instance (s : Schema) : Decidable s.Fits := inferInstanceAs (Decidable (Text.IsInt64 _))

theorem restores_length {o : Option Nat} (h : ∀ n ∈ o, n ≤ Text.maxNat32) :
    Restores (Json.ofOption .nat) (Json.nullable? Json.nat32?) room o :=
  .option (fun _ => nofun) fun n hn => Json.restores_nat32 room (h n hn)

theorem FieldType.Fits.restores {f : FieldType} (h : f.Fits) :
    Restores toJson ofJson? (room + 1) f := by
  have htype := f.type.restores room
  have hlength := restores_length room h
  constructor
  · refine Json.read_record rfl (by decide) ?_
    exact htype.need <| Json.need_bool <| Json.need_str <| Json.need_str <| hlength.optional rfl
  · exact .obj (by simp [htype.legible, hlength.legible])

theorem Generated.restores (g : Generated) : Restores toJson ofJson? (room + 1) g := by
  constructor
  · refine Json.read_record rfl (by decide) ?_
    exact Json.need_str <| Json.need_bool rfl
  · exact .obj (by simp)

theorem Column.Fits.restores {c : Column} (h : c.Fits) : Restores toJson ofJson? (room + 2) c := by
  have hid := Json.restores_int64 (room + 1) h.id
  have hoffset := Json.restores_nat64 (room + 1) h.offset
  have htype := h.fieldType.restores room
  have hgenerated : Restores (Json.ofOption Generated.toJson) (Json.nullable? Generated.ofJson?)
      (room + 1) c.generated := .option (fun _ => nofun) fun g _ => g.restores _
  have hstage := c.stage.restores (room + 1)
  constructor
  · refine Json.read_record rfl (by decide) ?_
    exact hid.need <| Json.need_str <| hoffset.need <| htype.need <| hgenerated.orElse <|
      Json.orElse_bool <| Json.orElse_bool <| hstage.need rfl
  · exact .obj (by simp [hid.legible, hoffset.legible, htype.legible, hgenerated.legible,
      hstage.legible])

theorem IndexColumn.Fits.restores {c : IndexColumn} (h : c.Fits) :
    Restores toJson ofJson? (room + 1) c := by
  have hoffset := Json.restores_nat64 room h.offset
  have hlength := restores_length room h.length
  constructor
  · refine Json.read_record rfl (by decide) ?_
    exact Json.need_str <| hoffset.need <| hlength.orElse rfl
  · exact .obj (by simp [hoffset.legible, hlength.legible])

theorem Index.Fits.restores {ix : Index} (h : ix.Fits) : Restores toJson ofJson? (room + 3) ix := by
  have hid := Json.restores_int64 (room + 2) h.id
  have hcolumns : Restores (Json.ofList IndexColumn.toJson) (Json.list? IndexColumn.ofJson?)
      (room + 2) ix.columns := .list fun c hc => (h.columns c hc).restores _
  have hstage := ix.stage.restores (room + 2)
  constructor
  · refine Json.read_record rfl (by decide) ?_
    exact hid.need <| Json.need_str <| hcolumns.need <| Json.need_bool <| Json.need_bool <|
      hstage.need rfl
  · exact .obj (by simp [hid.legible, hcolumns.legible, hstage.legible])

theorem ForeignKey.Fits.restores {fk : ForeignKey} (h : fk.Fits) :
    Restores toJson ofJson? (room + 2) fk := by
  have hid := Json.restores_int64 (room + 1) h.id
  have hrefCols := Json.restores_strings room fk.refCols
  have hcols := Json.restores_strings room fk.cols
  have hdelete := fk.onDelete.restores (room + 1)
  have hupdate := fk.onUpdate.restores (room + 1)
  have hstage := fk.stage.restores (room + 1)
  have hversion := Json.restores_nat32 (room + 1) h.version
  constructor
  · refine Json.read_record rfl (by decide) ?_
    exact hid.need <| Json.need_str <| Json.need_str <| Json.need_str <| hrefCols.need <|
      hcols.need <| hdelete.orElse <| hupdate.orElse <| hstage.need <| hversion.orElse rfl
  · exact .obj (by simp [hid.legible, hrefCols.legible, hcols.legible, hdelete.legible,
      hupdate.legible, hstage.legible, hversion.legible])

theorem Expiry.restores (e : Expiry) : Restores toJson ofJson? (room + 1) e := by
  constructor
  · refine Json.read_record rfl (by decide) ?_
    exact Json.need_str <| Json.need_str rfl
  · exact .obj (by simp)

theorem Partitioning.Fits.restores {p : Partitioning} (h : p.Fits) :
    Restores toJson ofJson? (room + 1) p := by
  have hcount := Json.restores_nat32 room h
  constructor
  · refine Json.read_record rfl (by decide) ?_
    exact Json.need_str <| hcount.need rfl
  · exact .obj (by simp [hcount.legible])

theorem Table.Fits.restores {t : Table} (h : t.Fits) : Restores toJson ofJson? (room + 5) t := by
  have hid := Json.restores_int64 (room + 4) h.id
  have hcolumns : Restores (Json.ofList Column.toJson) (Json.list? Column.ofJson?) (room + 4)
      t.columns := .list fun c hc => (h.columns c hc).restores _
  have hindices : Restores (Json.ofList Index.toJson) (Json.list? Index.ofJson?) (room + 4)
      t.indices := .list fun ix hix => (h.indices ix hix).restores _
  have hforeignKeys : Restores (Json.ofList ForeignKey.toJson) (Json.list? ForeignKey.ofJson?)
      (room + 4) t.foreignKeys := .list fun fk hfk => (h.foreignKeys fk hfk).restores _
  have hmaxColumnId := Json.restores_int64 (room + 4) h.maxColumnId
  have hmaxIndexId := Json.restores_int64 (room + 4) h.maxIndexId
  have hmaxForeignKeyId := Json.restores_int64 (room + 4) h.maxForeignKeyId
  have htemporary := t.temporary.restores (room + 4)
  have hexpiry : Restores (Json.ofOption Expiry.toJson) (Json.nullable? Expiry.ofJson?) (room + 4)
      t.expiry := .option (fun _ => nofun) fun e _ => e.restores _
  have hpartitioning : Restores (Json.ofOption Partitioning.toJson)
      (Json.nullable? Partitioning.ofJson?) (room + 4) t.partitioning :=
    .option (fun _ => nofun) fun p hp => (h.partitioning p hp).restores _
  have hstage := t.stage.restores (room + 4)
  have hupdated := Json.restores_nat64 (room + 4) h.updated
  constructor
  · refine Json.read_record rfl (by decide) ?_
    exact hid.need <| Json.need_str <| hcolumns.need <| hindices.orElse <| hforeignKeys.orElse <|
      hmaxColumnId.orElse <| hmaxIndexId.orElse <| hmaxForeignKeyId.orElse <| Json.orElse_bool <|
      htemporary.orElse <| hexpiry.orElse <| hpartitioning.orElse <| hstage.need <|
      hupdated.orElse rfl
  · exact .obj (by simp [members, hid.legible, hcolumns.legible, hindices.legible,
      hforeignKeys.legible, hmaxColumnId.legible, hmaxIndexId.legible, hmaxForeignKeyId.legible,
      htemporary.legible, hexpiry.legible, hpartitioning.legible, hstage.legible,
      hupdated.legible])

theorem Schema.Fits.restores {s : Schema} (h : s.Fits) : Restores toJson ofJson? (room + 1) s := by
  have hid := Json.restores_int64 room h
  have hstage := s.stage.restores room
  constructor
  · refine Json.read_record rfl (by decide) ?_
    exact hid.need <| Json.need_str <| hstage.need rfl
  · exact .obj (by simp [hid.legible, hstage.legible])

/-! ### Records that are held -/

@[simp]
theorem emptyAsNull_nameIn {α : Type} [DecidableEq α] (names : List (String × α)) (a : α) :
    (nameIn names a).emptyAsNull = nameIn names a := by
  unfold nameIn
  split <;> rfl

@[simp]
theorem FieldType.emptyAsNull_toJson (f : FieldType) : f.toJson.emptyAsNull = f.toJson := by
  simp [toJson, ColumnType.toJson]

@[simp]
theorem Generated.emptyAsNull_toJson (g : Generated) : g.toJson.emptyAsNull = g.toJson := by
  simp [toJson]

@[simp]
theorem Column.emptyAsNull_toJson (c : Column) : c.toJson.emptyAsNull = c.toJson := by
  simp [toJson, Stage.toJson]

@[simp]
theorem IndexColumn.emptyAsNull_toJson (c : IndexColumn) : c.toJson.emptyAsNull = c.toJson := by
  simp [toJson]

@[simp]
theorem Index.emptyAsNull_toJson (ix : Index) : ix.toJson.emptyAsNull = ix.toJson := by
  simp [toJson, Stage.toJson]

@[simp]
theorem ForeignKey.emptyAsNull_toJson (fk : ForeignKey) : fk.toJson.emptyAsNull = fk.toJson := by
  simp [toJson, Stage.toJson, RefAction.toJson]

@[simp]
theorem Expiry.emptyAsNull_toJson (e : Expiry) : e.toJson.emptyAsNull = e.toJson := by
  simp [toJson]

@[simp]
theorem Partitioning.emptyAsNull_toJson (p : Partitioning) : p.toJson.emptyAsNull = p.toJson := by
  simp [toJson]

@[simp]
theorem Table.emptyAsNull_toJson (t : Table) : t.toJson.emptyAsNull = t.toJson := by
  simp [toJson, members, Stage.toJson, Temporary.toJson]

/-! ### Faults -/

def Fault.revisions : Fault → List Nat
  | writeConflict base current => [base, current]
  | _ => []

def Fault.Fits (f : Fault) : Prop := ∀ n ∈ f.revisions, n ≤ Text.maxNat64

instance (f : Fault) : Decidable f.Fits := inferInstanceAs (Decidable (∀ n ∈ f.revisions, _))

theorem Fault.Fits.legible {f : Fault} (h : f.Fits) : f.contents.Legible (room + 1) := by
  cases f
  case writeConflict base current =>
    have hbase := h base (by simp [revisions])
    have hcurrent := h current (by simp [revisions])
    exact .obj (by simp [Json.legible_nat hbase, Json.legible_nat hcurrent])
  case invalidState object stage =>
    exact .arr (by simp [(stage.restores room).legible])
  all_goals first
    | exact .null
    | exact .str _
    | exact (Json.restores_strings _ _).legible

theorem Fault.toJson_ne_null (f : Fault) : f.toJson ≠ .null := by
  unfold toJson
  split <;> simp

theorem Fault.Fits.restores {f : Fault} (h : f.Fits) :
    Restores toJson ofFileJson? (room + 2) f where
  reads := by
    cases f
    case writeConflict base current =>
      have hbase := Json.restores_nat64 0 (h base (by simp [revisions]))
      have hcurrent := Json.restores_nat64 0 (h current (by simp [revisions]))
      show ofConflict? (writeConflict base current).contents = _
      refine Json.read_record rfl (by decide) ?_
      exact hbase.need <| hcurrent.need rfl
    case invalidState object stage =>
      have hstage := stage.restores 0
      simp [toJson, contents, kind, ofFileJson?, ofJson?, hstage.reads]
    all_goals rfl
  legible := by
    unfold toJson
    split
    · exact .str f.kind
    · exact .obj (by simp [h.legible room])

end Steward.Catalog
