import Steward.Constraint.Removal
import Steward.Proofs.Constraint.Definition
import Steward.Proofs.View.Fold

/-!
This module contains what the checks of foreign keys make of capitals and small letters: nothing.
Each check is compared with itself on folded definitions, `verdict` by `verdict`, and from that
`checks_ignore_case` follows for any two inputs that are the same after folding.
-/

namespace Steward.Constraint

open Catalog
open Ledger (Snapshot)
open Text (fold)

def verdict {α : Type} (e : Except Fault α) : Except Fault α := e.mapError Fault.folded

section Bind

variable {α β γ : Type}

@[simp]
theorem verdict_ok (a : α) : verdict (.ok a) = .ok a := rfl

@[simp]
theorem verdict_error (fault : Fault) :
    verdict (.error fault : Except Fault α) = .error fault.folded := rfl

theorem verdict_bind {e : Except Fault α} {e' : Except Fault β} {k : α → Except Fault γ}
    {k' : β → Except Fault γ} (f : α → β) (he : verdict e' = verdict (e.map f))
    (hk : ∀ a, verdict (k' (f a)) = verdict (k a)) : verdict (e' >>= k') = verdict (e >>= k) := by
  -- The beginnings may have found different things, one the folded form of the other.
  cases e with
  | error fault =>
    cases e' with
    | error fault' => exact congrArg Except.error (Except.error.inj he)
    | ok b => cases he
  | ok a =>
    cases e' with
    | error fault' => cases he
    | ok b =>
      cases he
      exact hk a

theorem verdict_orElse {ok ok' : Bool} {fault fault' : Fault} (hok : ok' = ok)
    (hfault : fault'.folded = fault.folded) :
    verdict (orElse ok' fault') = verdict (orElse ok fault) := by
  subst hok
  cases ok'
  · exact congrArg Except.error hfault
  · rfl

theorem verdict_orElse_bind {ok ok' : Bool} {fault fault' : Fault} {k k' : Except Fault γ}
    (hok : ok' = ok) (hfault : fault'.folded = fault.folded) (hk : verdict k' = verdict k) :
    verdict (orElse ok' fault' >>= fun _ => k') = verdict (orElse ok fault >>= fun _ => k) := by
  subst hok
  cases ok'
  · exact congrArg Except.error hfault
  · exact hk

end Bind

theorem find_folded (t : Table) (column : String) :
    verdict (find t.folded (fold column)) = verdict ((find t column).map Column.folded) := by
  unfold find
  rw [Table.findColumn?_folded]
  cases t.findColumn? column <;> simp [Except.map, Fault.folded]

theorem checkPair_folded (parent child : Table) (fk : ForeignKey) (col refCol : String) :
    verdict (checkPair parent.folded child.folded fk.folded (fold col) (fold refCol)) =
      verdict (checkPair parent child fk col refCol) := by
  unfold checkPair
  refine verdict_bind Column.folded (find_folded parent refCol) fun ref => ?_
  refine verdict_orElse_bind rfl (by simp [Fault.folded, ForeignKey.folded]) ?_
  refine verdict_bind Column.folded (find_folded child col) fun own => ?_
  refine verdict_orElse_bind rfl (by simp [Fault.folded, ForeignKey.folded]) ?_
  exact verdict_orElse (FieldType.compatible_folded own.fieldType ref.fieldType)
    (by simp [Fault.folded, ForeignKey.folded])

theorem checkPairs_folded (parent child : Table) (fk : ForeignKey) (ps : List (String × String)) :
    verdict (checkPairs parent.folded child.folded fk.folded (ps.map (Prod.map fold fold))) =
      verdict (checkPairs parent child fk ps) := by
  induction ps with
  | nil => rfl
  | cons p ps ih =>
    refine verdict_bind id ?_ fun _ => ih
    rw [Except.map_id]
    exact checkPair_folded parent child fk p.1 p.2

theorem checkColumns_folded (enabled : Bool) (parent child : Table) (fk : ForeignKey) :
    verdict (checkColumns enabled parent.folded child.folded fk.folded) =
      verdict (checkColumns enabled parent child fk) := by
  unfold checkColumns
  cases enabled with
  | false => rfl
  | true =>
    refine verdict_bind id ?_ fun _ => ?_
    · rw [Except.map_id]
      have hpairs := checkPairs_folded parent child fk (fk.cols.zip fk.refCols)
      rwa [← List.zip_map] at hpairs
    · exact verdict_orElse (Table.isSome_coveringIndex?_folded parent fk.refCols)
        (by simp [Fault.folded, ForeignKey.folded])

theorem parent?_folded (v : View) (schema : String) (child : Table) (fk : ForeignKey)
    (check : Bool) :
    verdict (parent? v.folded (fold schema) child.folded fk.folded check) =
      verdict ((parent? v schema child fk check).map (Option.map Table.folded)) := by
  have hself : fk.folded.refersTo (fold schema) child.folded.name =
      fk.refersTo schema child.name := ForeignKey.refersTo_folded fk schema child.name
  have htable : v.folded.table fk.folded.refSchema fk.folded.refTable =
      ((v.table fk.refSchema fk.refTable).map Table.folded).mapError Fault.folded :=
    View.table_folded v fk.refSchema fk.refTable
  unfold parent?
  rw [hself, htable]
  split
  · rfl
  · cases v.table fk.refSchema fk.refTable with
    | ok parent => rfl
    | error fault =>
      cases check
      · rfl
      · simp [Except.map, Except.mapError, Fault.folded, ForeignKey.folded]

theorem checkReference_folded (enabled : Bool) (v : View) (schema : String) (child : Table)
    (fk : ForeignKey) (check : Bool) :
    verdict (checkReference enabled v.folded (fold schema) child.folded fk.folded check) =
      verdict (checkReference enabled v schema child fk check) := by
  have hself : fk.folded.refersTo (fold schema) child.folded.name =
      fk.refersTo schema child.name := ForeignKey.refersTo_folded fk schema child.name
  have hcols : Text.sameAll fk.folded.cols fk.folded.refCols = Text.sameAll fk.cols fk.refCols :=
    Text.sameAll_fold fk.cols fk.refCols
  unfold checkReference
  refine verdict_orElse_bind (by simp [ForeignKey.folded]) rfl ?_
  refine verdict_orElse_bind (by rw [hself, hcols]) rfl ?_
  refine verdict_orElse_bind rfl rfl ?_
  refine verdict_orElse_bind rfl rfl ?_
  refine verdict_bind _ (parent?_folded v schema child fk check) fun parent => ?_
  cases parent with
  | none => rfl
  | some parent =>
    refine verdict_orElse_bind rfl rfl ?_
    refine verdict_orElse_bind (by simp [Table.folded]) rfl ?_
    refine verdict_orElse_bind rfl rfl ?_
    exact checkColumns_folded enabled parent child fk

theorem checkSides_folded (enabled : Bool) (v : View) (schema : String) (child : Table)
    (fk : ForeignKey) (check : Bool) :
    verdict (checkSides enabled v.folded (fold schema) child.folded fk.folded check) =
      verdict (checkSides enabled v schema child fk check) := by
  unfold checkSides
  refine verdict_bind id ?_ fun _ => ?_
  · rw [Except.map_id]
    exact checkReference_folded enabled v schema child fk check
  · exact verdict_orElse (Table.isSome_coveringIndex?_folded child fk.cols)
      (by simp [Fault.folded, ForeignKey.folded, Table.folded])

theorem checkAdded_folded (enabled : Bool) (v : View) (schema : String) (child : Table)
    (fk : ForeignKey) (check : Bool) :
    verdict (checkAdded enabled v.folded (fold schema) child.folded fk.folded check) =
      verdict (checkAdded enabled v schema child fk check) := by
  have hname : (child.folded.findForeignKey? fk.folded.name).isNone =
      (child.findForeignKey? fk.name).isNone := by
    have hfound := Table.findForeignKey?_folded child fk.name
    unfold ForeignKey.folded
    rw [hfound, Option.isNone_map]
  unfold checkAdded checkName
  refine verdict_orElse_bind hname (by simp [Fault.folded, ForeignKey.folded]) ?_
  cases enabled
  · rfl
  · exact checkSides_folded true v schema child fk check

theorem checkDeclaredAfter_folded (v : View) (schema : String) (child : Table) (check : Bool)
    (before fks : List ForeignKey) :
    verdict (checkDeclaredAfter v.folded (fold schema) child.folded check
      (before.map ForeignKey.folded) (fks.map ForeignKey.folded)) =
        verdict (checkDeclaredAfter v schema child check before fks) := by
  induction fks generalizing before with
  | nil => rfl
  | cons fk fks ih =>
    refine verdict_orElse_bind ?_ (by simp [Fault.folded, ForeignKey.folded]) ?_
    · simp [ForeignKey.folded, Function.comp_def]
    · refine verdict_bind id ?_ fun _ => ?_
      · rw [Except.map_id]
        exact checkSides_folded true v schema child fk check
      · have hrest := ih (before ++ [fk])
        rwa [List.map_append] at hrest

theorem checkDeclared_folded (enabled : Bool) (v : View) (schema : String) (child : Table)
    (check : Bool) :
    verdict (checkDeclared enabled v.folded (fold schema) child.folded check) =
      verdict (checkDeclared enabled v schema child check) := by
  cases enabled
  · rfl
  · exact checkDeclaredAfter_folded v schema child check [] child.foreignKeys

theorem fold_detail (r : Referred) : fold (Referred.detail r.folded) = fold (Referred.detail r) := by
  simp [Referred.detail, Referred.folded, Text.fold_quote]

theorem checkUnreferred_folded (enabled : Bool) (v : View) (schema table : String) (check : Bool) :
    verdict (checkUnreferred enabled v.folded (fold schema) (fold table) check) =
      verdict (checkUnreferred enabled v schema table check) := by
  have hfind : ((v.folded.referred (fold schema) (fold table)).find? fun r =>
      !(Text.same r.childSchema (fold schema) && Text.same r.childTable (fold table))) =
        ((v.referred schema table).find? fun r =>
          !(Text.same r.childSchema schema && Text.same r.childTable table)).map
            Referred.folded := by
    rw [View.referred_folded, List.find?_map]
    simp [Referred.folded]
  unfold checkUnreferred
  rw [hfind]
  split
  · cases (v.referred schema table).find? _ with
    | none => rfl
    | some r => simp [Fault.folded, fold_detail]
  · rfl

theorem servedWithout_folded (t : Table) (ix : Index) (cols : List String) :
    servedWithout t.folded ix.folded (cols.map fold) = servedWithout t ix cols := by
  unfold servedWithout
  rw [Table.isHandle_folded, Table.indices_folded, List.filter_map, List.any_map]
  simp only [Function.comp_def, Table.covers_folded]
  rfl

theorem checkIndexUnneeded_folded (enabled : Bool) (v : View) (schema : String) (t : Table)
    (name : String) :
    verdict (checkIndexUnneeded enabled v.folded (fold schema) t.folded (fold name)) =
      verdict (checkIndexUnneeded enabled v schema t name) := by
  have hneeds : (t.folded.foreignKeys.filter (·.isEnforced)).map (·.cols) ++
      (v.folded.referred (fold schema) t.folded.name).map (·.cols) =
        ((t.foreignKeys.filter (·.isEnforced)).map (·.cols) ++
          (v.referred schema t.name).map (·.cols)).map (List.map fold) := by
    have hreferred : v.folded.referred (fold schema) t.folded.name =
        (v.referred schema t.name).map Referred.folded := View.referred_folded v schema t.name
    rw [hreferred, Table.foreignKeys_folded, List.filter_map, List.map_append]
    simp only [List.map_map]
    rfl
  unfold checkIndexUnneeded
  rw [Table.findIndex?_folded, hneeds]
  cases t.findIndex? name with
  | none => rfl
  | some ix =>
    cases enabled with
    | false => rfl
    | true =>
      refine verdict_orElse ?_ (by simp [Fault.folded, Index.folded])
      rw [List.all_map]
      simp only [Function.comp_def, Table.covers_folded, servedWithout_folded]

theorem mentions_folded (cols : List String) (column : String) :
    mentions (cols.map fold) (fold column) = mentions cols column := by
  simp [mentions, Function.comp_def]

theorem checkColumnUnneeded_folded (enabled : Bool) (v : View) (schema : String) (t : Table)
    (column : String) :
    verdict (checkColumnUnneeded enabled v.folded (fold schema) t.folded (fold column)) =
      verdict (checkColumnUnneeded enabled v schema t column) := by
  have hown : (t.folded.foreignKeys.find? fun fk => mentions fk.cols (fold column)) =
      (t.foreignKeys.find? fun fk => mentions fk.cols column).map ForeignKey.folded := by
    rw [Table.foreignKeys_folded, List.find?_map]
    simp only [Function.comp_def, ForeignKey.folded, mentions_folded]
  have hreferred : ((v.folded.referred (fold schema) t.folded.name).find? fun r =>
      mentions r.cols (fold column)) =
        ((v.referred schema t.name).find? fun r => mentions r.cols column).map Referred.folded := by
    have hmap : v.folded.referred (fold schema) t.folded.name =
        (v.referred schema t.name).map Referred.folded := View.referred_folded v schema t.name
    rw [hmap, List.find?_map]
    simp only [Function.comp_def, Referred.folded, mentions_folded]
  unfold checkColumnUnneeded
  rw [hown, hreferred]
  split
  · cases t.foreignKeys.find? fun fk => mentions fk.cols column with
    | some fk => simp [Fault.folded, ForeignKey.folded]
    | none =>
      cases (v.referred schema t.name).find? fun r => mentions r.cols column with
      | some r => simp [Fault.folded, Referred.folded]
      | none => rfl
  · rfl

/-! ### Two inputs -/

/--
Both checks pass, or both fail with the same fault, up to capitals in its texts and in its message.
-/
inductive Agree : Except Fault Unit → Except Fault Unit → Prop where
  | pass : Agree (.ok ()) (.ok ())
  | fail {fault fault' : Fault} (kind : fault.kind = fault'.kind)
      (texts : fault.folded = fault'.folded)
      (message : fold fault.message = fold fault'.message) :
      Agree (.error fault) (.error fault')

theorem agree_of_verdict {e e' : Except Fault Unit} (h : verdict e = verdict e') : Agree e e' := by
  cases e with
  | ok =>
    cases e' with
    | ok => exact .pass
    | error fault' => cases h
  | error fault =>
    cases e' with
    | ok => cases h
    | error fault' =>
      have htexts : fault.folded = fault'.folded := Except.error.inj h
      refine .fail ?_ htexts ?_
      · rw [← Fault.kind_folded, htexts, Fault.kind_folded]
      · rw [← Fault.fold_message_folded, htexts, Fault.fold_message_folded]

/--
What is checked beside the snapshot: the schema and the table that it is about, the table that a
constraint refers to, and the names of a table, of an index and of a column.
-/
structure Subject where
  schema : String
  child : Table
  parent : Table
  key : ForeignKey
  table : String
  index : String
  column : String
deriving DecidableEq

def Subject.folded (x : Subject) : Subject where
  schema := fold x.schema
  child := x.child.folded
  parent := x.parent.folded
  key := x.key.folded
  table := fold x.table
  index := fold x.index
  column := fold x.column

/--
No check depends on capitals. If two snapshots have the same schemas and tables after folding, and
what is checked is the same after folding, then it is treated alike: by the check of the columns of
a constraint, of a constraint that is added, of those that a new table declares, of a table that is
dropped or truncated, of an index and of a column.
-/
theorem checks_ignore_case {s s' : Snapshot} {x x' : Subject}
    (hcatalog : s.catalog.folded = s'.catalog.folded) (hsubject : x.folded = x'.folded)
    (enabled check : Bool) :
    Agree (checkColumns enabled x.parent x.child x.key)
      (checkColumns enabled x'.parent x'.child x'.key) ∧
    Agree (checkAdded enabled (.ofSnapshot s) x.schema x.child x.key check)
      (checkAdded enabled (.ofSnapshot s') x'.schema x'.child x'.key check) ∧
    Agree (checkDeclared enabled (.ofSnapshot s) x.schema x.child check)
      (checkDeclared enabled (.ofSnapshot s') x'.schema x'.child check) ∧
    Agree (checkUnreferred enabled (.ofSnapshot s) x.schema x.table check)
      (checkUnreferred enabled (.ofSnapshot s') x'.schema x'.table check) ∧
    Agree (checkIndexUnneeded enabled (.ofSnapshot s) x.schema x.child x.index)
      (checkIndexUnneeded enabled (.ofSnapshot s') x'.schema x'.child x'.index) ∧
    Agree (checkColumnUnneeded enabled (.ofSnapshot s) x.schema x.child x.column)
      (checkColumnUnneeded enabled (.ofSnapshot s') x'.schema x'.child x'.column) := by
  have hview : (View.ofSnapshot s).folded = (View.ofSnapshot s').folded := by
    rw [View.folded_ofSnapshot, View.folded_ofSnapshot]
    unfold View.ofSnapshot Snapshot.folded
    rw [hcatalog]
  have hschema : fold x.schema = fold x'.schema := congrArg Subject.schema hsubject
  have hchild : x.child.folded = x'.child.folded := congrArg Subject.child hsubject
  have hparent : x.parent.folded = x'.parent.folded := congrArg Subject.parent hsubject
  have hkey : x.key.folded = x'.key.folded := congrArg Subject.key hsubject
  have htable : fold x.table = fold x'.table := congrArg Subject.table hsubject
  have hindex : fold x.index = fold x'.index := congrArg Subject.index hsubject
  have hcolumn : fold x.column = fold x'.column := congrArg Subject.column hsubject
  refine ⟨?columns, ?added, ?declared, ?unreferred, ?index, ?column⟩ <;> apply agree_of_verdict
  case columns =>
    rw [← checkColumns_folded, hparent, hchild, hkey, checkColumns_folded]
  case added =>
    rw [← checkAdded_folded, hview, hschema, hchild, hkey, checkAdded_folded]
  case declared =>
    rw [← checkDeclared_folded, hview, hschema, hchild, checkDeclared_folded]
  case unreferred =>
    rw [← checkUnreferred_folded, hview, hschema, htable, checkUnreferred_folded]
  case index =>
    rw [← checkIndexUnneeded_folded, hview, hschema, hchild, hindex, checkIndexUnneeded_folded]
  case column =>
    rw [← checkColumnUnneeded_folded, hview, hschema, hchild, hcolumn, checkColumnUnneeded_folded]

def crew (schema sailors log column index : String) : Snapshot × Subject :=
  let parent := { ((Table.ofName sailors).withColumn (.ofName column .bigint)).withIndex
    (.ofNames index [column]) with id := 2, stage := .live }
  let key := ForeignKey.ofNames index [column] schema sailors [column]
  let child := { (((Table.ofName log).withColumn (.ofName column .bigint)).withIndex
    (.ofNames index [column])).withForeignKey key with id := 3, stage := .live }
  (⟨1, ⟨1, 0, .ofList [(1, ⟨1, schema, .live⟩)], .ofList [(1, .ofList [(2, parent), (3, child)])]⟩,
    3, ∅, ∅⟩, ⟨schema, child, parent, key, sailors, index, column⟩)

theorem checks_ignore_case_crew :
    let quiet := crew "ship" "sailors" "log" "id" "by_id"
    let loud := crew "SHIP" "Sailors" "LOG" "Id" "BY_ID"
    (quiet.1.catalog.folded = loud.1.catalog.folded ∧ quiet.2.folded = loud.2.folded) ∧
    (checkUnreferred true (.ofSnapshot quiet.1) "ship" "sailors" true).isOk = false ∧
    Agree (checkUnreferred true (.ofSnapshot quiet.1) "ship" "sailors" true)
      (checkUnreferred true (.ofSnapshot loud.1) "SHIP" "Sailors" true) ∧
    Agree (checkIndexUnneeded true (.ofSnapshot quiet.1) "ship" quiet.2.child "by_id")
      (checkIndexUnneeded true (.ofSnapshot loud.1) "SHIP" loud.2.child "BY_ID") := by
  intro quiet loud
  have hcatalog : quiet.1.catalog.folded = loud.1.catalog.folded := by decide +kernel
  have hsubject : quiet.2.folded = loud.2.folded := by decide +kernel
  obtain ⟨-, -, -, hunreferred, hindex, -⟩ := checks_ignore_case hcatalog hsubject true true
  exact ⟨⟨hcatalog, hsubject⟩, by decide +kernel, hunreferred, hindex⟩

end Steward.Constraint
