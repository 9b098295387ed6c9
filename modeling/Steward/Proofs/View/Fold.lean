import Mathlib
import Steward.Catalog.Fault
import Steward.Data.SortedMap.Lemmas
import Steward.View

/-!
This module contains the folding of all names to small letters, in a definition, in a snapshot and
in a view, and what it leaves as it was: how the parts of a table are found by their names, which
columns an index covers, and which types fit together. The view of a folded snapshot is the folded
view, and it answers for folded names what the view answers.
-/

namespace Steward

namespace Text

@[simp]
theorem fold_fold (s : String) : fold (fold s) = fold s := by
  simp [fold, Function.comp_def]

@[simp]
theorem fold_append (a b : String) : fold (a ++ b) = fold a ++ fold b := by
  simp [fold, String.ofList_append]

@[simp]
theorem same_fold (a b : String) : same (fold a) (fold b) = same a b := by
  simp [same]

@[simp]
theorem sameAll_fold (as bs : List String) :
    sameAll (as.map fold) (bs.map fold) = sameAll as bs := by
  simp [sameAll, Function.comp_def]

theorem toLower_eq_backQuote_iff {c : Char} : c.toLower = backQuote ↔ c = backQuote := by
  cases hupper : c.isUpper with
  | true =>
    have halpha : c.toLower.isLower = true := by simp [Char.isAlpha, hupper]
    constructor
    · intro h
      rw [h] at halpha
      cases halpha
    · rintro rfl
      cases hupper
  | false => rw [Char.toLower_eq_of_not_isUpper (by simp [hupper])]

theorem map_toLower_encode (cs : List Char) :
    (Quoted.encode cs).map Char.toLower = Quoted.encode (cs.map Char.toLower) := by
  induction cs with
  | nil => rfl
  | cons c cs ih =>
    by_cases hc : c = backQuote
    · simp [Quoted.encode, toLower_eq_backQuote_iff, hc, ih]
    · simp [Quoted.encode, toLower_eq_backQuote_iff, hc, ih]

theorem fold_quote (name : String) : fold (quote name) = quote (fold name) := by
  have hquote : backQuote.toLower = backQuote := rfl
  simp [fold, quote, map_toLower_encode, hquote]

end Text

namespace Catalog

open Text (fold)

/-! ### Definitions with their names folded -/

def FieldType.folded (ft : FieldType) : FieldType :=
  { ft with charset := fold ft.charset, collation := fold ft.collation }

def Column.folded (c : Column) : Column :=
  { c with name := fold c.name, fieldType := c.fieldType.folded }

def IndexColumn.folded (ic : IndexColumn) : IndexColumn := { ic with name := fold ic.name }

def Index.folded (ix : Index) : Index :=
  { ix with name := fold ix.name, columns := ix.columns.map IndexColumn.folded }

def ForeignKey.folded (fk : ForeignKey) : ForeignKey :=
  { fk with
    name := fold fk.name
    refSchema := fold fk.refSchema
    refTable := fold fk.refTable
    refCols := fk.refCols.map fold
    cols := fk.cols.map fold }

def Expiry.folded (e : Expiry) : Expiry := { e with column := fold e.column }

def Table.folded (t : Table) : Table :=
  { t with
    name := fold t.name
    columns := t.columns.map Column.folded
    indices := t.indices.map Index.folded
    foreignKeys := t.foreignKeys.map ForeignKey.folded
    expiry := t.expiry.map Expiry.folded }

@[simp]
theorem Table.columns_folded (t : Table) : t.folded.columns = t.columns.map Column.folded := rfl

@[simp]
theorem Table.indices_folded (t : Table) : t.folded.indices = t.indices.map Index.folded := rfl

@[simp]
theorem Table.foreignKeys_folded (t : Table) :
    t.folded.foreignKeys = t.foreignKeys.map ForeignKey.folded := rfl

def Schema.folded (σ : Schema) : Schema := { σ with name := fold σ.name }

namespace Fault

def folded : Fault → Fault
  | foreignKeyDuplicateName name => foreignKeyDuplicateName (fold name)
  | cannotAddForeign => cannotAddForeign
  | foreignKeyCannotOpenParent table => foreignKeyCannotOpenParent (fold table)
  | operationOnTemporaryTable operation => operationOnTemporaryTable (fold operation)
  | ttlReferencedByForeignKey => ttlReferencedByForeignKey
  | foreignKeyOnPartitioned => foreignKeyOnPartitioned
  | keyColumnDoesNotExist column => keyColumnDoesNotExist (fold column)
  | foreignKeyCannotUseVirtualColumn fk column =>
    foreignKeyCannotUseVirtualColumn (fold fk) (fold column)
  | foreignKeyColumnNotMatch column refColumn fk =>
    foreignKeyColumnNotMatch (fold column) (fold refColumn) (fold fk)
  | foreignKeyNoIndexInParent fk table => foreignKeyNoIndexInParent (fold fk) (fold table)
  | foreignKeyNoIndexInChild fk table => foreignKeyNoIndexInChild (fold fk) (fold table)
  | noReferencedRow detail => noReferencedRow (fold detail)
  | truncateIllegalForeignKey detail => truncateIllegalForeignKey (fold detail)
  | foreignKeyColumnCannotDrop column fk => foreignKeyColumnCannotDrop (fold column) (fold fk)
  | foreignKeyColumnCannotDropChild column fk table =>
    foreignKeyColumnCannotDropChild (fold column) (fold fk) (fold table)
  | dropIndexNeededInForeignKey index => dropIndexNeededInForeignKey (fold index)
  | cantDropFieldOrKey name => cantDropFieldOrKey (fold name)
  | tableExists table => tableExists (fold table)
  | noSuchTable schema table => noSuchTable (fold schema) (fold table)
  | databaseNotExists schema => databaseNotExists (fold schema)
  | databaseExists schema => databaseExists (fold schema)
  | invalidState object stage => invalidState (fold object) stage
  | invalidJobArgs job => invalidJobArgs (fold job)
  | writeConflict base current => writeConflict base current
  | ownerLost => ownerLost
  | internal text => internal (fold text)

theorem kind_folded (f : Fault) : f.folded.kind = f.kind := by
  cases f <;> rfl

theorem fold_message_folded (f : Fault) : fold f.folded.message = fold f.message := by
  cases f <;> dsimp only [folded, message] <;>
    simp only [Text.fold_append, Text.fold_fold, toString]

end Fault

/-! ### Lookups -/

variable {t : Table} {cols : List String}

theorem FieldType.compatible_folded (a b : FieldType) :
    a.folded.compatible b.folded = a.compatible b := by
  simp [folded, compatible]

theorem ForeignKey.refersTo_folded (fk : ForeignKey) (schema table : String) :
    fk.folded.refersTo (fold schema) (fold table) = fk.refersTo schema table := by
  simp [folded, refersTo]

namespace Table

theorem findColumn?_folded (t : Table) (name : String) :
    t.folded.findColumn? (fold name) = (t.findColumn? name).map Column.folded := by
  simp [findColumn?, Column.find?, List.find?_map, Function.comp_def, Column.folded]

theorem findIndex?_folded (t : Table) (name : String) :
    t.folded.findIndex? (fold name) = (t.findIndex? name).map Index.folded := by
  simp [findIndex?, List.find?_map, Function.comp_def, Index.folded]

theorem findForeignKey?_folded (t : Table) (name : String) :
    t.folded.findForeignKey? (fold name) = (t.findForeignKey? name).map ForeignKey.folded := by
  simp [findForeignKey?, List.find?_map, Function.comp_def, ForeignKey.folded]

theorem handle?_folded (t : Table) : t.folded.handle? = t.handle?.map Column.folded := by
  unfold handle?
  rw [apply_ite (Option.map Column.folded)]
  simp [folded, List.find?_map, Function.comp_def, Column.folded]

theorem isHandle_folded (t : Table) (cols : List String) :
    t.folded.isHandle (cols.map fold) = t.isHandle cols := by
  unfold isHandle
  match cols with
  | [] => rfl
  | [col] =>
    change t.folded.handle?.any (fun pk => Text.same pk.name (fold col)) = _
    rw [handle?_folded, Option.any_map]
    simp [Column.folded]
  | _ :: _ :: _ => rfl

theorem indexesWhole_folded (t : Table) (col : String) (ic : IndexColumn) :
    t.folded.indexesWhole (fold col) ic.folded = t.indexesWhole col ic := by
  unfold indexesWhole
  simp only [folded, IndexColumn.folded, Text.same_fold, List.getElem?_map]
  cases t.columns[ic.offset]? <;> rfl

theorem covers_folded (t : Table) (ix : Index) (cols : List String) :
    t.folded.covers ix.folded (cols.map fold) = t.covers ix cols := by
  unfold covers
  simp [Index.folded, List.zip_map, indexesWhole_folded, Function.comp_def]

theorem isSome_coveringIndex?_folded (t : Table) (cols : List String) :
    (t.folded.coveringIndex? (cols.map fold)).isSome = (t.coveringIndex? cols).isSome := by
  have hfind : (t.folded.indices.find? fun ix => ix.stage == .live &&
      t.folded.covers ix (cols.map fold)) =
        (t.indices.find? fun ix => ix.stage == .live && t.covers ix cols).map Index.folded := by
    simp only [indices_folded, List.find?_map, Function.comp_def, covers_folded]
    rfl
  unfold coveringIndex?
  rw [hfind, isHandle_folded]
  cases t.indices.find? fun ix => ix.stage == .live && t.covers ix cols <;> rfl

end Table

end Catalog

namespace SortedMap

universe u v w

variable {κ : Type u} {α : Type v} {β : Type w} [Ord κ]

def mapValues (f : α → β) (m : SortedMap κ α) : SortedMap κ β where
  entries := m.entries.map fun e => (e.1, f e.2)
  ordered := List.pairwise_map.2 m.ordered

theorem values_mapValues (f : α → β) (m : SortedMap κ α) :
    (m.mapValues f).values = m.values.map f := by
  simp [values, mapValues, Function.comp_def]

theorem get?_mapValues (f : α → β) (m : SortedMap κ α) (k : κ) :
    (m.mapValues f).get? k = (m.get? k).map f := by
  simp [get?, mapValues, List.find?_map, Function.comp_def]

variable [Std.TransOrd κ] [DecidableEq κ] [Std.LawfulEqOrd κ]

theorem mapValues_insert (f : α → β) (m : SortedMap κ α) (k : κ) (a : α) :
    (m.insert k a).mapValues f = (m.mapValues f).insert k (f a) := by
  apply ext_get?
  intro l
  rw [get?_mapValues, get?_insert, get?_insert, get?_mapValues, apply_ite (Option.map f)]
  rfl

theorem mapValues_ofList (f : α → β) (es : List (κ × α)) :
    (ofList es).mapValues f = ofList (es.map fun e => (e.1, f e.2)) := by
  unfold ofList
  rw [List.foldl_map]
  refine (List.foldl_hom (mapValues f) fun m e => ?_).symm
  exact (mapValues_insert f m e.1 e.2).symm

theorem mapValues_collect (f : α → β) (es : List (κ × α)) :
    (collect es).mapValues (List.map f) = collect (es.map fun e => (e.1, f e.2)) := by
  unfold collect
  rw [List.foldl_map]
  refine (List.foldl_hom (mapValues (List.map f)) fun m e => ?_).symm
  rw [mapValues_insert, List.map_append, get?_mapValues]
  cases m.get? e.1 <;> rfl

end SortedMap

open Catalog (Schema Table Fault ForeignKey)
open Ledger (Description Snapshot)
open Text (fold)

/-! ### Snapshots -/

def Ledger.Description.folded (d : Description) : Description :=
  { d with
    schemas := d.schemas.mapValues Schema.folded
    tables := d.tables.mapValues (·.mapValues Table.folded) }

/--
The snapshot with the names of its schemas folded, and those in its tables. The jobs stay as they
are, since no view shows them.
-/
def Ledger.Snapshot.folded (s : Snapshot) : Snapshot := { s with catalog := s.catalog.folded }

/-! ### Views -/

def Referred.folded (r : Referred) : Referred where
  cols := r.cols.map fold
  childSchema := fold r.childSchema
  childTable := fold r.childTable
  name := fold r.name

def SchemaView.folded (s : SchemaView) : SchemaView where
  schema := s.schema.folded
  tables := s.tables.mapValues Table.folded

namespace SchemaView

theorem folded_ofTables (σ : Schema) (tables : List Table) :
    (ofTables σ tables).folded = ofTables σ.folded (tables.map Table.folded) := by
  unfold ofTables SchemaView.folded
  rw [SortedMap.mapValues_ofList]
  simp only [List.filter_map, List.map_map, Function.comp_def, Table.folded, Text.fold_fold]

theorem references_folded (s : SchemaView) :
    s.folded.references = s.references.map fun e => (e.1, e.2.folded) := by
  unfold references
  simp only [folded, SortedMap.values_mapValues, List.flatMap_map, List.map_flatMap,
    Table.foreignKeys_folded, List.filter_map, List.map_map, Function.comp_def]
  simp only [ForeignKey.folded, Text.fold_fold]
  rfl

end SchemaView

namespace View

variable {v : View} {schema table : String}

def folded (v : View) : View where
  schemaVersion := v.schemaVersion
  schemas := v.schemas.mapValues SchemaView.folded
  references := v.references.mapValues (List.map Referred.folded)

theorem folded_ofSchemas (version : Int) (schemas : SortedMap String SchemaView) :
    (ofSchemas version schemas).folded =
      ofSchemas version (schemas.mapValues SchemaView.folded) := by
  unfold ofSchemas folded
  rw [SortedMap.mapValues_collect]
  simp only [SortedMap.values_mapValues, List.flatMap_map, List.map_flatMap,
    SchemaView.references_folded]

theorem values_tables_folded (s : Snapshot) (x : Int) :
    ((s.folded.catalog.tables.get? x).getD ∅).values =
      ((s.catalog.tables.get? x).getD ∅).values.map Table.folded := by
  unfold Snapshot.folded Description.folded
  rw [SortedMap.get?_mapValues]
  cases s.catalog.tables.get? x with
  | none => rfl
  | some tables => exact SortedMap.values_mapValues _ tables

theorem folded_ofSnapshot (s : Snapshot) : (ofSnapshot s).folded = ofSnapshot s.folded := by
  have hschemas : s.folded.catalog.schemas.values =
      s.catalog.schemas.values.map Schema.folded := SortedMap.values_mapValues _ _
  unfold ofSnapshot
  rw [folded_ofSchemas, SortedMap.mapValues_ofList, hschemas]
  simp only [List.filter_map, List.map_map, Function.comp_def, values_tables_folded,
    SchemaView.folded_ofTables, Schema.folded, Text.fold_fold]
  rfl

theorem table_folded (v : View) (schema table : String) :
    v.folded.table (fold schema) (fold table) =
      ((v.table schema table).map Table.folded).mapError Fault.folded := by
  have hview : v.folded.schemaView? (fold schema) =
      (v.schemaView? schema).map SchemaView.folded := by
    unfold schemaView? folded
    rw [SortedMap.get?_mapValues, Text.fold_fold]
  have hfound : ((v.folded.schemaView? (fold schema)).bind fun s =>
      s.tables.get? (fold (fold table))) =
        ((v.schemaView? schema).bind fun s => s.tables.get? (fold table)).map Table.folded := by
    rw [hview, Text.fold_fold]
    cases v.schemaView? schema with
    | none => rfl
    | some s => exact SortedMap.get?_mapValues _ s.tables (fold table)
  unfold View.table
  rw [hfound]
  cases (v.schemaView? schema).bind fun s => s.tables.get? (fold table) <;> rfl

theorem referred_folded (v : View) (schema table : String) :
    v.folded.referred (fold schema) (fold table) = (v.referred schema table).map Referred.folded := by
  unfold referred folded
  rw [SortedMap.get?_mapValues, Text.fold_fold, Text.fold_fold]
  cases v.references.get? (fold schema, fold table) <;> rfl

end View

end Steward
