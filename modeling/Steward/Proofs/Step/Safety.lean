import Steward.Proofs.Step.Integrity

/-!
This module contains the safety of the steps: with foreign keys checked against a view that shows
the tables as they are, a step of any kind leaves the catalog intact.
-/

namespace Steward

open Catalog (ForeignKey Part Schema Stage Table)
open Change (Args Job Kind Status)
open Constraint (mentions)
open Ledger (Snapshot Txn)

namespace Change

/--
The arguments ask for the checks of foreign keys, and a table that they declare is well formed.
-/
def Args.Careful : Args → Prop
  | .createTable table check => check = true ∧ table.WellFormed
  | .dropTable check | .addForeignKey _ check => check = true
  | _ => True

theorem Kind.not_mem_intermediate {k : Kind} {st : Stage} (h : st = .absent ∨ st = .live) :
    st ∉ k.intermediate := by
  cases h with
  | inl h =>
    subst h
    cases k <;> decide
  | inr h =>
    subst h
    cases k <;> decide

end Change

namespace Step

variable {S : IdMap Schema} {f f' : Int → Int → Option Table} {x y x₀ y₀ : Int}
  {t t' u : Table} {fk : ForeignKey} {name : String} {all : Bool} {j : Job}

def Spare (S : IdMap Schema) (f : Int → Int → Option Table) (x₀ y₀ : Int) (name : String) : Prop :=
  ∀ cols, Used S f x₀ y₀ cols → mentions cols name = false

theorem Used.of_puts {cols : List String} (hu : Used S f' x₀ y₀ cols) (ht : f x₀ y₀ = some t)
    (hname : t'.name = t.name) (hfk : t'.foreignKeys = t.foreignKeys) (hf : Puts f x₀ y₀ t' f') :
    Used S f x₀ y₀ cols := by
  have hwas {x y : Int} {u' : Table} (hu : f' x y = some u') :
      ∃ u, f x y = some u ∧ u.foreignKeys = u'.foreignKeys := by
    rw [hf] at hu
    split at hu
    · next hplace =>
      cases hu
      exact ⟨t, hplace.1 ▸ hplace.2 ▸ ht, hfk.symm⟩
    · exact ⟨u', hu, rfl⟩
  cases hu with
  | own u' hu fk hmem he =>
    obtain ⟨u, hu, hkeys⟩ := hwas hu
    exact .own u hu fk (hkeys ▸ hmem) he
  | referred x y u' hu fk hmem he hr =>
    obtain ⟨u, hu, hkeys⟩ := hwas hu
    refine .referred x y u hu fk (hkeys ▸ hmem) he ?_
    obtain ⟨σ, w, hσ, hw, hschema, htable⟩ := hr
    rw [hf.self] at hw
    cases hw
    exact ⟨σ, t, hσ, ht, hschema, hname ▸ htable⟩

theorem Spare.puts (h : Spare S f x₀ y₀ name) (ht : f x₀ y₀ = some t) (hname : t'.name = t.name)
    (hfk : t'.foreignKeys = t.foreignKeys) (hf : Puts f x₀ y₀ t' f') : Spare S f' x₀ y₀ name :=
  fun cols hu => h cols (hu.of_puts ht hname hfk hf)

/--
The catalog is intact, and nothing uses a column any more that is about to be dropped.
-/
structure Safe (S : IdMap Schema) (f : Int → Int → Option Table) (j : Job) : Prop where
  intact : Intact S f
  spare : ∀ name, j.args = .dropColumn name → j.stage ∈ j.kind.intermediate →
    Spare S f j.schemaId j.tableId name

def Saves (S : IdMap Schema) (r : Result) : Prop := ∀ v, r.1 = .ok v → Safe S r.2.txn.table? r.2.job

/--
A step checks foreign keys, in a view that shows the tables as they are, and its job knows the name
of its schema.
-/
structure Setting (S : IdMap Schema) (f : Int → Int → Option Table) (s : Surroundings) (j : Job) :
    Prop where
  faithful : Faithful S f s.view
  checks : s.checksForeignKeys = true
  named : ∃ σ, S.get? j.schemaId = some σ ∧ Text.same σ.name j.schemaName = true

theorem Quiet.live (h : Quiet all f) (ht : f x y = some t) : t.stage = .live := by
  apply Decidable.byContradiction
  intro hl
  refine h x y t .table ht ?_ ⟨t.stage, rfl, hl⟩
  unfold counts
  simp [Part.isDeclared]

section Grow

variable {S' : IdMap Schema}

theorem Intact.grow (h : Intact S f) (hS : ∀ x σ, S.get? x = some σ → S'.get? x = some σ) :
    Intact S' f where
  anchored x y t ht fk hfk he := by
    obtain ⟨px, py, σ, parent, ha⟩ := h.anchored x y t ht fk hfk he
    exact ⟨px, py, σ, parent, { ha with schema := hS px σ ha.schema }⟩
  wellFormed := h.wellFormed
  names := h.names

theorem Used.of_grow {cols : List String} (hu : Used S' f x₀ y₀ cols)
    (hS : ∀ x σ, S.get? x = some σ → S'.get? x = some σ)
    (hf : ∀ x y t, f x y = some t → (S.get? x).isSome) : Used S f x₀ y₀ cols := by
  cases hu with
  | own t ht fk hfk he => exact .own t ht fk hfk he
  | referred x y t ht fk hfk he hr =>
    refine .referred x y t ht fk hfk he ?_
    obtain ⟨σ, u, hσ, hu, hnames⟩ := hr
    obtain ⟨τ, hτ⟩ := Option.isSome_iff_exists.1 (hf x₀ y₀ u hu)
    rw [hS x₀ τ hτ] at hσ
    cases hσ
    exact ⟨σ, u, hτ, hu, hnames⟩

theorem Safe.grow (h : Safe S f j) (hS : ∀ x σ, S.get? x = some σ → S'.get? x = some σ)
    (hf : ∀ x y t, f x y = some t → (S.get? x).isSome) : Safe S' f j where
  intact := h.intact.grow hS
  spare name ha hi cols hu := h.spare name ha hi cols (hu.of_grow hS hf)

end Grow

section Results

variable {s : Surroundings} {d : Draft} {σ : Status} {st : Stage} {o : Option Table} {table : Table}

theorem saves_error (e : Change.Trouble) (d : Draft) : Saves S (.error e, d) := by
  intro v h
  cases h

theorem safe_of_stage (h : Intact S f) (hst : j.stage = .absent ∨ j.stage = .live) : Safe S f j :=
  ⟨h, fun _ _ hs => absurd hs (Kind.not_mem_intermediate hst)⟩

theorem saves_ended (h : Intact S d.txn.table?) (hst : st = .absent ∨ st = .live) :
    Saves S (d.ended σ st o) := fun _ _ => safe_of_stage h hst

theorem saves_completed (h : Intact S (d.write s table).txn.table?)
    (hst : st = .absent ∨ st = .live) : Saves S (d.completed s table σ st) :=
  fun _ _ => safe_of_stage h hst

theorem intact_write (h : Intact S d.txn.table?) (hd : d.Holds t) (hid : table.id = t.id)
    (hr : Replaces S d.txn.table? d.job.schemaId d.job.tableId t table) :
    Intact S (d.write s table).txn.table? :=
  h.replace hd.table (hr.stamped s.stamp) (puts_write (hid.trans hd.id))

theorem saves_advanced (h : Intact S (d.write s table).txn.table?)
    (hargs : ∀ name, d.job.args ≠ .dropColumn name) : Saves S (d.advanced s table st) :=
  fun _ _ => ⟨h, fun name ha _ => absurd ha (hargs name)⟩

end Results

section Kinds

variable {P : Surroundings → Prop} {s : Surroundings} {d : Draft} {r : Result} {table : Table}
  {check : Bool} {newId : Int} {pos : Nat}

theorem Setting.referred (hs : Setting S f s j) (ht : f j.schemaId j.tableId = some t)
    (hu : f x y = some u) (hl : u.stage = .live) (hfk : fk ∈ u.foreignKeys)
    (he : fk.isEnforced = true) (hr : RefersAt S f fk j.schemaId j.tableId) :
    ∃ σ, S.get? x = some σ ∧
      ⟨fk.refCols, σ.name, u.name, fk.name⟩ ∈ s.view.referred j.schemaName t.name := by
  obtain ⟨σ, hσ, hname⟩ := hs.named
  exact hs.faithful.referred x y u hu hl fk hfk he _ _ (refersTo_of_refersAt hσ hname ht hr)

theorem Setting.needs (hs : Setting S f s j) (hq : Quiet all f)
    (ht : f j.schemaId j.tableId = some t) {cols : List String}
    (hu : Used S f j.schemaId j.tableId cols) :
    Constraint.Needs s.view j.schemaName t cols := by
  cases hu with
  | own u hu fk hfk he =>
    rw [ht] at hu
    cases hu
    exact .inl ⟨fk, hfk, he, rfl⟩
  | referred x y u hu fk hfk he hr =>
    obtain ⟨σ, _, hmem⟩ := hs.referred ht hu (hq.live hu) hfk he hr
    exact .inr ⟨_, hmem, rfl⟩

theorem Setting.place_of_checkUnreferred (hs : Setting S f s j) (hi : Intact S f)
    (hq : Quiet all f) (ht : f j.schemaId j.tableId = some t)
    (hcheck : Constraint.checkUnreferred true s.view j.schemaName t.name true = .ok ())
    (hu : f x y = some u) (hfk : fk ∈ u.foreignKeys) (he : fk.isEnforced = true)
    (hr : RefersAt S f fk j.schemaId j.tableId) : x = j.schemaId ∧ y = j.tableId := by
  obtain ⟨τ, hτ, hmem⟩ := hs.referred ht hu (hq.live hu) hfk he hr
  obtain ⟨hschema, htable⟩ := Constraint.same_of_checkUnreferred hcheck hmem
  obtain ⟨σ, hσ, hname⟩ := hs.named
  rw [Text.same_comm] at hname
  have hx := hs.faithful.names x _ τ σ hτ hσ (Text.same_trans hschema hname)
  refine ⟨hx, ?_⟩
  rw [hx] at hu
  exact hi.names _ y _ u t hu ht htable

theorem Created.saves (hr : Created s table check d r) (hset : Setting S d.txn.table? s d.job)
    (hi : Intact S d.txn.table?) (hcheck : check = true) (hw : table.WellFormed) : Saves S r := by
  cases hr with
  | undone hb => exact saves_ended hi (.inl rfl)
  | refused => exact saves_error _ _
  | failed => exact saves_error _ _
  | created hb hs hschema hname hdeclared hfree =>
    rw [hset.checks, hcheck] at hdeclared
    have hadded : Puts d.txn.table? d.job.schemaId d.job.tableId (createdTable d.job table)
        (d.txn.added d.job.schemaId (createdTable d.job table)).table? := Txn.table?_added _ _ _
    let fresh : Draft := { d with txn := d.txn.added d.job.schemaId (createdTable d.job table) }
    have hwritten : Puts fresh.txn.table? d.job.schemaId d.job.tableId
        { createdTable d.job table with updated := s.stamp }
        (fresh.write s (createdTable d.job table)).txn.table? := puts_write rfl
    have hputs := hadded.trans hwritten
    apply saves_completed _ (.inr rfl)
    have halike : table.Alike { createdTable d.job table with updated := s.stamp } := ⟨rfl, rfl, rfl⟩
    apply hi.create hfree hputs (halike.wellFormed hw) hname
    intro fk hfk he
    obtain ⟨old, hold, rfl⟩ := List.mem_map.1 hfk
    obtain ⟨parent, hparent, hfits⟩ := Constraint.fits_of_checkDeclared hdeclared old hold
    obtain ⟨σ, hσ, hschemaName⟩ := hset.named
    refine anchored_of_findsParent ?_ hσ hschemaName hputs.self halike rfl hparent hfits
      ⟨rfl, rfl, rfl, rfl⟩
    -- What the view finds is still there, since the new table went to a free place.
    intro schema name t hfound
    obtain ⟨px, py, τ, hτ, hτname, ht, htname, hl⟩ := hset.faithful.table schema name t hfound
    refine ⟨px, py, τ, hτ, hτname, ?_, htname, hl⟩
    rw [hputs.other]
    · exact ht
    · rintro ⟨rfl, rfl⟩
      rw [hfree] at ht
      cases ht
  | stuck => exact saves_error _ _

theorem Truncated.saves (hr : Truncated s newId check d r) (hi : Intact S d.txn.table?) :
    Saves S r := by
  cases hr with
  | missing => exact saves_error _ _
  | undone => exact saves_ended hi (.inl rfl)
  | refused => exact saves_error _ _
  | failed => exact saves_error _ _
  | truncated hb hs table hd hl hcheck hfree =>
    apply saves_completed _ (.inr rfl)
    have ht : d.txn.table? d.job.schemaId table.id = some table := hd.id ▸ hd.table
    have halike : table.Alike { table with id := newId, updated := s.stamp } := ⟨rfl, rfl, rfl⟩
    apply hi.move ht hfree halike rfl rfl rfl
    intro a b
    refine (Txn.table?_written _ _ _ _ _).trans ?_
    dsimp only
    rw [Txn.table?_added, Txn.table?_cleared]
    split <;> rfl
  | stuck => exact saves_error _ _

theorem Unbound.saves (hr : Unbound s name d r) (hi : Intact S d.txn.table?) : Saves S r := by
  cases hr with
  | missing => exact saves_error _ _
  | undone => exact saves_ended hi (.inr rfl)
  | unknown => exact saves_error _ _
  | unbound hb hs table hd hl pos hpos =>
    apply saves_completed _ (.inl rfl)
    refine intact_write hi hd rfl ?_
    refine replaces_of_alike hi hd.table ⟨rfl, rfl, rfl⟩ rfl ?_ ?_
    · exact hi.keys hd.table (List.eraseIdx_subset)
    · intro _ _ _ _ _ _ _ _ _
      exact hl
  | stuck => exact saves_error _ _

theorem keys_setForeignKeyStage (hi : Intact S f) (ht : f x₀ y₀ = some t) (st : Stage) :
    ∀ fk' ∈ (setForeignKeyStage t pos st).foreignKeys, fk'.isEnforced = true →
      ∃ fk, fk.SameEnds fk' ∧ Anchored S f x₀ y₀ t fk := by
  intro fk' hmem he
  obtain ⟨i, hget⟩ := List.getElem?_of_mem hmem
  unfold setForeignKeyStage at hget
  dsimp only at hget
  rw [List.getElem?_modify] at hget
  obtain ⟨fk, hfk, rfl⟩ := Option.map_eq_some_iff.1 hget
  refine ⟨fk, ?_, hi.anchored x₀ y₀ t ht fk (List.mem_of_getElem? hfk) ?_⟩
  · split <;> exact ⟨rfl, rfl, rfl, rfl⟩
  · split at he <;> exact he

theorem replaces_setForeignKeyStage (hi : Intact S f) (ht : f x₀ y₀ = some t)
    (hl : t.stage = .live) (st : Stage) :
    Replaces S f x₀ y₀ t (setForeignKeyStage t pos st) := by
  refine replaces_of_alike hi ht ⟨rfl, rfl, rfl⟩ rfl (keys_setForeignKeyStage hi ht st) ?_
  intro _ _ _ _ _ _ _ _ _
  exact hl

theorem replaces_withStagedKey (hset : Setting S f s j) (hi : Intact S f)
    (ht : f j.schemaId j.tableId = some t) (hl : t.stage = .live)
    (hcheck : Constraint.checkAdded true s.view j.schemaName t fk true = .ok ()) :
    Replaces S f j.schemaId j.tableId t (withStagedKey t fk) := by
  refine replaces_of_alike hi ht ⟨rfl, rfl, rfl⟩ rfl ?_ ?_
  · intro fk' hmem he
    cases List.mem_append.1 hmem with
    | inl hold => exact ⟨fk', .refl fk', hi.anchored _ _ t ht fk' hold he⟩
    | inr hnew =>
      rw [List.mem_singleton.1 hnew]
      obtain ⟨parent, hparent, hfits⟩ := Constraint.fits_of_checkAdded hcheck
      obtain ⟨σ, hσ, hname⟩ := hset.named
      exact ⟨fk, ⟨rfl, rfl, rfl, rfl⟩, anchored_of_findsParent hset.faithful.table hσ hname ht
        ⟨rfl, rfl, rfl⟩ rfl hparent hfits (.refl fk)⟩
  · intro _ _ _ _ _ _ _ _ _
    exact hl

theorem Bound.saves (hr : Bound P fk check d r) (ha : d.job.args = .addForeignKey fk check)
    (hset : ∀ s, P s → Setting S d.txn.table? s d.job) (hi : Intact S d.txn.table?)
    (hcheck : check = true) : Saves S r := by
  have hargs (name : String) : d.job.args ≠ .dropColumn name := by
    rw [ha]
    intro h
    cases h
  cases hr with
  | missing => exact saves_error _ _
  | undone hb s table hd hl pos hpos =>
    apply saves_completed _ (.inl rfl)
    refine intact_write hi hd rfl ?_
    refine replaces_of_alike hi hd.table ⟨rfl, rfl, rfl⟩ rfl ?_ ?_
    · exact hi.keys hd.table (List.eraseIdx_subset)
    · intro _ _ _ _ _ _ _ _ _
      exact hl
  | unneeded hb table hd hpos => exact saves_ended hi (.inl rfl)
  | refused => exact saves_error _ _
  | resumed hb hs table hd old ho =>
    intro v _
    exact ⟨hi, fun name h _ => absurd h (hargs name)⟩
  | staged hb hs s hp table hd hl hadded =>
    have hs := hset s hp
    rw [hs.checks, hcheck] at hadded
    have hreplaces := replaces_withStagedKey hs hi hd.table hl hadded
    intro v _
    refine ⟨intact_write (d := d) hi hd rfl hreplaces, ?_⟩
    intro name h _
    cases h
  | confirmed hb hs s table hd hl pos hpos =>
    apply saves_advanced _ hargs
    exact intact_write hi hd rfl (replaces_setForeignKeyStage hi hd.table hl _)
  | turned => exact saves_error _ _
  | bound hb hs s table hd hl pos hpos =>
    apply saves_completed _ (.inr rfl)
    exact intact_write hi hd rfl (replaces_setForeignKeyStage hi hd.table hl _)
  | failed => exact saves_error _ _

end Kinds

section Hiding

variable {s : Surroundings} {d : Draft} {r : Result} {table : Table} {h : Hiding} {check : Bool}
  {pos : Nat} {st : Stage}

theorem saves_advanced_of_replaces (hi : Intact S d.txn.table?) (hd : d.Holds table)
    (hid : t.id = table.id) (hfk : t.foreignKeys = table.foreignKeys)
    (hr : Replaces S d.txn.table? d.job.schemaId d.job.tableId table t)
    (hspare : ∀ name, d.job.args = .dropColumn name →
      Spare S d.txn.table? d.job.schemaId d.job.tableId name) :
    Saves S (d.advanced s t st) := by
  intro v _
  refine ⟨intact_write hi hd hid hr, ?_⟩
  intro name ha _
  exact (hspare name ha).puts hd.table (hr.stamped s.stamp).name hfk
    (puts_write (hid.trans hd.id))

theorem Hidden.saves (hr : Hidden s table h d r) (hd : d.Holds table)
    (hi : Safe S d.txn.table? d.job) (hkind : d.job.kind.intermediate = [.writeOnly, .deleteOnly])
    (hid : ∀ st, (h.withStage st).id = table.id)
    (hfk : ∀ st, (h.withStage st).foreignKeys = table.foreignKeys)
    (hshown : Replaces S d.txn.table? d.job.schemaId d.job.tableId table (h.withStage .live))
    (hhidden : d.job.stage = .live → h.check = .ok () →
      Replaces S d.txn.table? d.job.schemaId d.job.tableId table (h.withStage .writeOnly) ∧
        ∀ name, d.job.args = .dropColumn name →
          Spare S d.txn.table? d.job.schemaId d.job.tableId name)
    (hclosed : d.job.stage = .writeOnly →
      Replaces S d.txn.table? d.job.schemaId d.job.tableId table (h.withStage .deleteOnly))
    (hgone : d.job.stage = .deleteOnly → Saves S (h.last.run d)) : Saves S r := by
  cases hr with
  | kept hb hl => exact saves_ended hi.intact (.inr rfl)
  | shown hb hl => exact saves_completed (intact_write hi.intact hd (hid _) hshown) (.inr rfl)
  | refused => exact saves_error _ _
  | hidden hb hs hc =>
    obtain ⟨hreplaces, hspare⟩ := hhidden hs hc
    exact saves_advanced_of_replaces hi.intact hd (hid _) (hfk _) hreplaces hspare
  | closed hb hs =>
    apply saves_advanced_of_replaces hi.intact hd (hid _) (hfk _) (hclosed hs)
    intro name ha
    apply hi.spare name ha
    rw [hkind, hs]
    decide
  | gone hb hs => exact hgone hs
  | stuck => exact saves_error _ _

theorem Hiding.Hides.stageOf {part : Part} (hh : h.Hides d.job table part) (hd : d.Holds table)
    (hj : Agrees all d.txn.table? d.job) (hf : d.job.isFinished = false)
    (hs : d.job.stage = .writeOnly ∨ d.job.stage = .deleteOnly) :
    table.stageOf part = some d.job.stage := by
  apply (hj.busy hf ?_).stageOf hd.table hh.named
  rw [hh.kind]
  cases hs with
  | inl hs => simp [hs]
  | inr hs => simp [hs]

theorem Hiding.Hides.quiet {part : Part} (hh : h.Hides d.job table part)
    (hj : Agrees all d.txn.table? d.job) (hs : d.job.stage = .live) : Quiet all d.txn.table? := by
  apply hj.quiet
  right
  rw [hh.kind, hs]
  decide

theorem Dropped.saves (hr : Dropped s check d r) (ha : d.job.args = .dropTable check)
    (hk : d.job.kind = d.job.args.kind) (hf : d.job.isFinished = false)
    (hj : Agrees all d.txn.table? d.job) (hset : Setting S d.txn.table? s d.job)
    (hi : Safe S d.txn.table? d.job) (hcheck : check = true) : Saves S r := by
  cases hr with
  | missing => exact saves_error _ _
  | held table hd r h =>
    have hh : (Hiding.ofTable s d.job table check).Hides d.job table .table := hides_ofTable ha hk
    have hkeys := hi.intact.keys hd.table (List.Subset.refl table.foreignKeys)
    apply h.saves hd hi hh.kind (fun _ => rfl) (fun _ => rfl)
    case hshown =>
      refine replaces_of_alike hi.intact hd.table ⟨rfl, rfl, rfl⟩ rfl hkeys ?_
      intro _ _ _ _ _ _ _ _ _
      rfl
    case hhidden =>
      intro hs hc
      constructor
      · refine replaces_of_alike hi.intact hd.table ⟨rfl, rfl, rfl⟩ rfl hkeys ?_
        intro x y u hu hne fk hfk he hrefers
        unfold Hiding.ofTable at hc
        dsimp only at hc
        rw [hset.checks, hcheck] at hc
        exact absurd (hset.place_of_checkUnreferred hi.intact (hh.quiet hj hs) hd.table hc hu hfk he
          hrefers) hne
      · intro name hargs
        rw [ha] at hargs
        cases hargs
    case hclosed =>
      intro hs
      refine replaces_of_alike hi.intact hd.table ⟨rfl, rfl, rfl⟩ rfl hkeys ?_
      intro x y u hu hne fk hfk he hrefers
      have hstage := hh.stageOf hd hj hf (.inl hs)
      rw [hs] at hstage
      have hl := hi.intact.live_of_refersAt hset.faithful.names hd.table hu hne hfk he hrefers
      exact absurd (hl.symm.trans (Option.some.inj hstage)) (by decide)
    case hgone =>
      intro hs
      rw [run_last_ofTable hd]
      intro v _
      refine safe_of_stage (hi.intact.remove (Txn.table?_cleared _ _ _) ?_) (.inl rfl)
      intro u hu
      rw [hd.id, hd.table] at hu
      cases hu
      have hstage := hh.stageOf hd hj hf (.inr hs)
      rw [hs] at hstage
      rw [Option.some.inj hstage]
      decide

theorem Withdrawn.saves_index (hr : Withdrawn s (indexTarget? s d.job name) d r)
    (ha : d.job.args = .dropIndex name) (hk : d.job.kind = d.job.args.kind)
    (hf : d.job.isFinished = false) (hj : Agrees all d.txn.table? d.job)
    (hset : Setting S d.txn.table? s d.job) (hi : Safe S d.txn.table? d.job) : Saves S r := by
  cases hr with
  | missing => exact saves_error _ _
  | held table hd hl h ht r hr =>
    obtain ⟨pos, hpos, rfl⟩ := Option.map_eq_some_iff.1 ht
    have hh := hides_ofIndex (s := s) ha hk hl hpos
    have hw := hi.intact.wellFormed _ _ table hd.table
    have hstaged (st : Stage) (hkeeps : ∀ cols, Used S d.txn.table? d.job.schemaId d.job.tableId cols →
        table.Keeps (setIndexStage table pos st) cols) :
        Replaces S d.txn.table? d.job.schemaId d.job.tableId table (setIndexStage table pos st) :=
      replaces_of_keeps hi.intact hd.table rfl (hw.setIndexStage pos st) rfl hl hkeeps
    -- Once it is hidden, the index is not what covers anything.
    have hapart (hs : d.job.stage = .writeOnly ∨ d.job.stage = .deleteOnly) (cols : List String)
        (hcov : table.Covered cols) : table.CoveredApart pos cols := by
      apply Table.coveredApart_of_not_live _ hcov
      intro ix hix hlive
      have hstage := hh.stageOf hd hj hf hs
      have hindex : table.stageOf (.index pos) = some ix.stage := congrArg (·.map (·.stage)) hix
      rw [hindex, hlive] at hstage
      cases hs with
      | inl hs =>
        rw [hs] at hstage
        cases hstage
      | inr hs =>
        rw [hs] at hstage
        cases hstage
    apply hr.saves hd hi hh.kind (fun _ => rfl) (fun _ => rfl)
    case hshown =>
      apply hstaged
      intro cols _
      exact Table.keeps_setIndexStage_live table pos cols
    case hhidden =>
      intro hs hc
      constructor
      · apply hstaged
        intro cols hu
        apply Table.keeps_setIndexStage
        unfold Hiding.ofIndex at hc
        dsimp only at hc
        rw [hset.checks] at hc
        exact Constraint.coveredApart_of_checkIndexUnneeded hc hpos
          (hset.needs (hh.quiet hj hs) hd.table hu)
      · intro column hargs
        rw [ha] at hargs
        cases hargs
    case hclosed =>
      intro hs
      apply hstaged
      intro cols _
      exact Table.keeps_setIndexStage (hapart (.inl hs) cols) _
    case hgone =>
      intro hs
      rw [run_last_ofIndex hd]
      apply saves_completed _ (.inl rfl)
      refine intact_write hi.intact hd rfl ?_
      refine replaces_of_keeps hi.intact hd.table rfl (hw.eraseIndex pos) rfl hl ?_
      intro cols _
      exact Table.keeps_eraseIndex (hapart (.inr hs) cols)

theorem Withdrawn.saves_column (hr : Withdrawn s (columnTarget? s d.job name) d r)
    (ha : d.job.args = .dropColumn name) (hk : d.job.kind = d.job.args.kind)
    (hj : Agrees all d.txn.table? d.job) (hset : Setting S d.txn.table? s d.job)
    (hi : Safe S d.txn.table? d.job) : Saves S r := by
  cases hr with
  | missing => exact saves_error _ _
  | held table hd hl h ht r hr =>
    obtain ⟨pos, hpos, rfl⟩ := Option.map_eq_some_iff.1 ht
    have hh := hides_ofColumn (s := s) ha hk hl hpos
    have hw := hi.intact.wellFormed _ _ table hd.table
    have hstaged (st : Stage) : Replaces S d.txn.table? d.job.schemaId d.job.tableId table
        (setColumnStage table pos st) := by
      have halike := Table.alike_setColumnStage table pos st
      refine replaces_of_keeps hi.intact hd.table rfl (halike.wellFormed hw) rfl hl ?_
      intro cols _
      exact halike.keeps cols
    apply hr.saves hd hi hh.kind (fun _ => rfl) (fun _ => rfl) (hstaged .live)
    case hhidden =>
      intro hs hc
      refine ⟨hstaged .writeOnly, ?_⟩
      intro column hargs cols hu
      rw [ha] at hargs
      cases hargs
      unfold Hiding.ofColumn at hc
      dsimp only at hc
      rw [hset.checks] at hc
      exact Constraint.not_mentions_of_checkColumnUnneeded hc
        (hset.needs (hh.quiet hj hs) hd.table hu)
    case hclosed =>
      intro _
      exact hstaged .deleteOnly
    case hgone =>
      intro hs
      rw [run_last_ofColumn hd]
      -- What the check said when the column was hidden holds until it goes.
      obtain ⟨c, hc, _, hname⟩ := Constraint.getElem?_of_findIdx? hpos
      have hspare := hi.spare name ha (by rw [hh.kind, hs]; decide)
      apply saves_completed _ (.inl rfl)
      apply intact_write hi.intact hd (Table.id_dropColumn table pos)
      apply replaces_of_keeps hi.intact hd.table (Table.name_dropColumn table pos)
        (hw.dropColumn pos) (Table.foreignKeys_dropColumn table pos)
      · rw [Table.stage_dropColumn]
        exact hl
      · intro cols hu
        apply Table.keeps_dropColumn hw hc _ (hu.ne_nil hi.intact)
        intro col hcol
        have hother := Constraint.same_of_not_mentions (hspare cols hu) col hcol
        apply Bool.eq_false_iff.2
        intro hsame
        rw [Text.same_comm] at hsame
        rw [Text.same_trans hsame hname] at hother
        cases hother

end Hiding

section Outcome

variable {P : Surroundings → Prop} {s : Surroundings} {d : Draft} {r : Result} {limit : Nat}
  {base W : Snapshot} {first j' : Job}

theorem Took.saves (h : Took P s d r) (hp : P s) (hk : d.job.kind = d.job.args.kind)
    (hf : d.job.isFinished = false) (hj : Agrees all d.txn.table? d.job)
    (hset : ∀ s, P s → Setting S d.txn.table? s d.job) (hi : Safe S d.txn.table? d.job)
    (hc : d.job.args.Careful) : Saves S r := by
  unfold Took at h
  split at h
  · next ha =>
    rw [ha] at hc
    exact Created.saves h (hset s hp) hi.intact hc.1 hc.2
  · next ha =>
    rw [ha] at hc
    exact Dropped.saves h ha hk hf hj (hset s hp) hi hc
  · exact Truncated.saves h hi.intact
  · next ha =>
    rw [ha] at hc
    exact Bound.saves h ha hset hi.intact hc
  · exact Unbound.saves h hi.intact
  · next ha => exact Withdrawn.saves_index h ha hk hf hj (hset s hp) hi
  · next ha => exact Withdrawn.saves_column h ha hk hj (hset s hp) hi

theorem careful_of_follows (h : j.Follows j') (hc : j.args.Careful) : j'.args.Careful := by
  cases h.args with
  | inl hsame =>
    rw [hsame]
    exact hc
  | inr hnew =>
    obtain ⟨fk, check, id, st, hj, hj'⟩ := hnew
    rw [hj] at hc
    rw [hj']
    exact hc

theorem Safe.follow (h : Safe S f j) (hj : j.Follows j') (hs : j'.stage = j.stage) :
    Safe S f j' where
  intact := h.intact
  spare name ha hi := by
    rw [hj.schemaId, hj.tableId]
    rw [hs, hj.kind] at hi
    cases hj.args with
    | inl hsame =>
      rw [hsame] at ha
      exact h.spare name ha hi
    | inr hnew =>
      obtain ⟨fk, check, id, st, _, hj'⟩ := hnew
      rw [hj'] at ha
      cases ha

theorem Setting.follow (h : Setting S f s j) (hj : j.Follows j') : Setting S f s j' where
  faithful := h.faithful
  checks := h.checks
  named := by
    rw [hj.schemaId, hj.schemaName]
    exact h.named

theorem Outcome.safe (h : Outcome limit P base first W j) (hk : first.kind = first.args.kind)
    (hf : first.isFinished = false) (ha : Agrees all base.table? first)
    (hset : ∀ s, P s → Setting S base.table? s first) (hi : Safe S base.table? first)
    (hc : first.args.Careful) : Safe S W.table? j := by
  have hstarted := Change.Job.follows_started first
  have hstart := hi.follow hstarted (Change.Job.stage_started first)
  cases h with
  | success s hs v d h ho error =>
    have hkind := hstarted.kind_eq hk
    have hsafe : Safe S d.txn.table? d.job :=
      h.saves (d := ⟨.begin base, first.started⟩) hs hkind ((isFinished_started first).trans hf)
        (agrees_started ha) (fun s hs => (hset s hs).follow hstarted) hstart
        (careful_of_follows hstarted hc) v rfl
    exact ⟨hsafe.intact, hsafe.spare⟩
  | failure s hs e d h =>
    apply hi.follow (h.follows.trans (follows_blame _ _ _))
    rw [stage_blame, (h.framed.failed e rfl).1]
    exact Change.Job.stage_started first
  | disorder s hs v d h ho e he =>
    have hfollows : first.Follows { d.job with stage := first.stage } := by
      have hf := h.follows
      exact ⟨hf.id, hf.kind, hf.schemaId, hf.tableId, hf.schemaName, hf.tableName, hf.args⟩
    apply hi.follow (hfollows.trans (follows_blame _ _ _))
    exact stage_blame _ _ _

end Outcome

end Step

end Steward
