import Steward.Proofs.Constraint.Definition
import Steward.Proofs.Step.Descent
import Steward.Proofs.World.Integrity

/-!
This module contains the names of constraints. A table keeps the name that it was declared with, and a
step gives two of its constraints the same name only if it creates the table and foreign keys are not
checked. In a world, `key_names_differ` says that no two constraints of a table have the same name,
whatever is submitted and whenever foreign keys are checked, except for a table that was declared with
such names while foreign keys were not checked.
-/

namespace Steward

open Catalog (ForeignKey Stage Table)
open Change (Args Job)
open Ledger (Snapshot Txn)

namespace Catalog.Table

/--
The names of the constraints of a table, with small letters in place of capitals.
-/
def keyNames (t : Table) : List String := t.foreignKeys.map fun fk => Text.fold fk.name

theorem findForeignKey?_eq_none_iff {t : Table} {name : String} :
    t.findForeignKey? name = none ↔ Text.fold name ∉ t.keyNames := by
  simp [findForeignKey?, keyNames, Text.same]

end Catalog.Table

namespace Constraint

variable {v : View} {schema : String} {child : Table} {check : Bool} {fk : ForeignKey}

theorem nodup_of_checkDeclaredAfter {before fks : List ForeignKey}
    (h : checkDeclaredAfter v schema child check before fks = .ok ())
    (hbefore : (before.map fun fk => Text.fold fk.name).Nodup) :
    ((before ++ fks).map fun fk => Text.fold fk.name).Nodup := by
  induction fks generalizing before with
  | nil => rwa [List.append_nil]
  | cons fk fks ih =>
    obtain ⟨_, hname, h⟩ := bind_eq_ok.1 h
    obtain ⟨_, _, h⟩ := bind_eq_ok.1 h
    have hnew : ∀ prev ∈ before, Text.fold prev.name ≠ Text.fold fk.name := by
      simpa [Text.same] using orElse_eq_ok.1 hname
    have hnext : ((before ++ [fk]).map fun fk => Text.fold fk.name).Nodup := by
      rw [List.map_append, List.nodup_append]
      refine ⟨hbefore, List.pairwise_singleton _ _, ?_⟩
      intro a ha b hb
      obtain ⟨prev, hprev, rfl⟩ := List.mem_map.1 ha
      rw [List.mem_singleton.1 hb]
      exact hnew prev hprev
    have hall := ih h hnext
    rwa [List.append_assoc] at hall

theorem nodup_of_checkDeclared (h : checkDeclared true v schema child check = .ok ()) :
    child.keyNames.Nodup := nodup_of_checkDeclaredAfter h List.nodup_nil

theorem not_mem_keyNames_of_checkAdded {enabled : Bool}
    (h : checkAdded enabled v schema child fk check = .ok ()) :
    Text.fold fk.name ∉ child.keyNames := by
  -- The name of a new constraint is checked whether or not foreign keys are.
  obtain ⟨_, hname, _⟩ := bind_eq_ok.1 h
  exact Table.findForeignKey?_eq_none_iff.1 (Option.isNone_iff_eq_none.1 (orElse_eq_ok.1 hname))

end Constraint

namespace Step

variable {P : Surroundings → Prop} {j j' : Job} {source : Stage} {f : Int → Int → Option Table}
  {x y : Int} {t' : Table}

/--
Where a table comes from that is there after a step of a job, and what that means for the names of its
constraints: it was there before, or the job declares it.
-/
inductive Stems (P : Surroundings → Prop) (j : Job) (f : Int → Int → Option Table) (t' : Table) :
    Prop where
  | kept (x y : Int) (t : Table) (ht : f x y = some t) (hname : t'.name = t.name)
      (hkeys : t.keyNames.Nodup → t'.keyNames.Nodup) :
    Stems P j f t'
  | declared (s : Surroundings) (hs : P s) (table : Table) (check : Bool)
      (ha : j.args = .createTable table check) (hname : t'.name = table.name)
      (hkeys : t'.keyNames = table.keyNames)
      (hcheck : s.checksForeignKeys = true → table.keyNames.Nodup) :
    Stems P j f t'

theorem Descends.stems (h : Descends P source j' f x y t') (hj : j.Follows j') : Stems P j f t' := by
  have hnodup {t : Table} (h : t.Inherits t') (hnodup : t.keyNames.Nodup) : t'.keyNames.Nodup :=
    hnodup.sublist (h.map (fun fk => Text.fold fk.name) fun _ => rfl)
  cases h with
  | kept t ht h => exact .kept x y t ht h.name (hnodup h)
  | moved check ha hx hfree t ht h => exact .kept _ _ t ht h.name (hnodup h)
  | declared s hs table check ha hdone hfree stamp h hcheck =>
    subst h
    have hargs : j.args = .createTable table check := by
      cases hj.args with
      | inl hsame => exact hsame.symm.trans ha
      | inr hnew =>
        obtain ⟨fk, check', id, stage, -, hargs⟩ := hnew
        cases hargs.symm.trans ha
    refine .declared s hs table check hargs rfl ?_ ?_
    · exact List.map_map
    · intro hchecks
      rw [hchecks] at hcheck
      exact Constraint.nodup_of_checkDeclared hcheck
  | staged s hs t fk check ha hsource hstage hx hy ht h hcheck =>
    refine .kept x y t ht h.name ?_
    intro hold
    have hnew := Constraint.not_mem_keyNames_of_checkAdded hcheck
    have hkeys : t'.keyNames = t.keyNames ++ [Text.fold fk.name] := by
      unfold Table.keyNames
      rw [h.keys, List.map_append]
      rfl
    rw [hkeys, List.nodup_append]
    refine ⟨hold, List.pairwise_singleton _ _, ?_⟩
    rintro _ ha b hb rfl
    exact hnew (List.mem_singleton.1 hb ▸ ha)

theorem Outcome.stems {limit : Nat} {base W : Snapshot} {first : Job}
    (h : Outcome limit P base first W j) (ht' : W.table? x y = some t') :
    Stems P first base.table? t' := (h.descends ht').stems h.follows

end Step

end Steward

/-! ### Names in a world -/

namespace Steward

open Catalog (ForeignKey Table)
open Change (Job)
open Engine (Statement)
open Ledger
open Step (Stems)

namespace World

def Event.Unchecked : Event → Prop
  | .plan _ checks | .begin checks _ | .answer _ checks _ => checks = false
  | _ => False

/--
The events ask for a table with these constraints to be created.
-/
def Declares (es : List Event) (table : Table) : Prop :=
  ∃ schema check checks, .plan (.createTable schema table check) checks ∈ es

/--
The names of the constraints of a table differ, or they differ no more than those of a table of this
name that was declared while foreign keys were not checked.
-/
def KeysDiffer (es : List Event) (t : Table) : Prop :=
  t.keyNames.Nodup ∨ (∃ e ∈ es, e.Unchecked) ∧
    ∃ table, Declares es table ∧ table.name = t.name ∧ ¬ table.keyNames.Nodup

def occurring (es : List Event) : Rules where
  statement st := ∃ checks, .plan st checks ∈ es
  checks c := c = true ∨ ∃ e ∈ es, e.Unchecked

theorem allowed_occurring (es : List Event) : ∀ e ∈ es, e.Allowed (occurring es) := by
  have hchecks {e : Event} (he : e ∈ es) {c : Bool} (hc : c = false → e.Unchecked) :
      (occurring es).checks c := by
    cases c with
    | true => exact .inl rfl
    | false => exact .inr ⟨e, he, hc rfl⟩
  intro e he
  cases e with
  | plan st checks => exact ⟨⟨checks, he⟩, hchecks he id⟩
  | begin checks stamp => exact hchecks he id
  | answer a checks stamp => exact hchecks he id
  | _ => trivial

structure Declared (es : List Event) (s : Snapshot) : Prop where
  jobs : ∀ id j table check, s.jobs.get? id = some j → j.args = .createTable table check →
    Declares es table
  tables : ∀ x y t, s.table? x y = some t → KeysDiffer es t

variable {es : List Event} {Q : Snapshot → Prop} {limit : Nat} {s s' b W : Snapshot} {j first : Job}
  {t : Table}

theorem declared_initial (es : List Event) : Declared es .initial where
  jobs id j table check h := by cases h
  tables x y t h := by cases h

theorem keysDiffer_of_stems {P : Step.Surroundings → Prop} (h : Stems P j b.table? t)
    (hP : ∀ x, P x → (occurring es).checks x.checksForeignKeys)
    (hj : ∀ table check, j.args = .createTable table check → Declares es table)
    (hb : ∀ x y u, b.table? x y = some u → KeysDiffer es u) : KeysDiffer es t := by
  cases h with
  | kept x y u hu hname hkeys =>
    cases hb x y u hu with
    | inl hdiffer => exact .inl (hkeys hdiffer)
    | inr hunchecked =>
      rw [KeysDiffer, hname]
      exact .inr hunchecked
  | declared x hx table check ha hname hkeys hcheck =>
    rw [KeysDiffer, hkeys, hname]
    by_cases hdiffer : table.keyNames.Nodup
    · exact .inl hdiffer
    · refine .inr ⟨(hP x hx).resolve_left fun hc => hdiffer (hcheck hc), table, ?_, rfl, hdiffer⟩
      exact hj table check ha

theorem Declared.stepped (h : Declared es s) (hs : s.Tidy) (hQ : ∀ s, Q s → Declared es s)
    (hstep : Stepped (occurring es) Q limit s s' b W first j) : Declared es s' where
  jobs id k table check hk ha := by
    rw [hstep.get?_jobs] at hk
    split at hk
    · split at hk
      · cases hk
      · cases hk
        obtain ⟨hget, -⟩ := (Snapshot.firstJob?_eq_some_iff hs).1 (hstep.first_now hs)
        cases hstep.follows.args with
        | inl hsame => exact h.jobs _ first table check hget (hsame.symm.trans ha)
        | inr hnew =>
          obtain ⟨fk, check', i, stage, -, hargs⟩ := hnew
          cases hargs.symm.trans ha
    · exact h.jobs id k table check hk ha
  tables x y t ht := by
    have hb := hQ b hstep.base.holds
    obtain ⟨hget, -⟩ := (Snapshot.firstJob?_eq_some_iff hstep.base.tidy).1 hstep.begun
    rw [hstep.table] at ht
    exact keysDiffer_of_stems (hstep.outcome.stems ht) (fun x hx => hx.1)
      (fun table check => hb.jobs _ first table check hget) hb.tables

theorem Declared.move (h : Declared es s) (hs : s.Tidy) (hQ : ∀ s, Q s → Declared es s)
    (hm : Move (occurring es) Q limit s s') : Declared es s' := by
  cases hm with
  | submitted job hsub =>
    constructor
    · intro id k table check hk ha
      have hid := congrArg Prod.fst (hsub.record id)
      split at hid
      · cases hid.symm.trans hk
        obtain ⟨st, σ, v, p, ⟨checks, hst⟩, -, -, -, hmade⟩ := hsub.made
        have hasks := hmade.asks
        rw [ha] at hasks
        cases hasks with
        | createTable schema => exact ⟨schema, check, checks, hst⟩
      · exact h.jobs id k table check (hid.symm.trans hk) ha
    · intro x y t ht
      rw [hsub.calm.table] at ht
      exact h.tables x y t ht
  | founded σ hfound =>
    constructor
    · intro id k table check hk ha
      exact h.jobs id k table check ((congrArg Prod.fst (hfound.record id)).symm.trans hk) ha
    · intro x y t ht
      rw [hfound.table] at ht
      exact h.tables x y t ht
  | stepped b W first j hstep => exact h.stepped hs hQ hstep

/--
In every reachable world, the constraints of a table have names that differ, in whatever order
statements are submitted and steps are taken. The only exception is a table of a name with which one was
declared whose constraints have alike names, in a run in which foreign keys are once not checked.
-/
theorem key_names_differ (limit : Nat) (es : List Event) (x y : Int) (t : Table)
    (ht : ((ofStore .inMemory).run .standard limit es).store.snapshot.table? x y = some t) :
    t.keyNames.Nodup ∨ (∃ e ∈ es, e.Unchecked) ∧
      ∃ table, Declares es table ∧ table.name = t.name ∧ ¬ table.keyNames.Nodup := by
  have hreached : ((ofStore .inMemory).run .standard limit es).Reached (occurring es) (Declared es)
      limit := by
    apply run_induction (declared_initial es) _ es (allowed_occurring es)
    exact fun s s' hs h => hs.holds.move hs.tidy (fun _ h => h) h
  exact hreached.fine.holds.tables x y t ht

/--
A run in which two statements add constraints to one table whose names differ only in their case. Both
pass the check of the name before either constraint is there, and foreign keys are not checked.
-/
def ownedTwice : List Event :=
  let orders := (Table.ofName "orders").withColumn (.ofName "user" .bigint)
  let key (name : String) : ForeignKey := .ofNames name ["user"] "shop" "users" ["id"]
  let step (stamp : Nat) : List Event := [.begin false stamp, .settle true, .close, .look]
  [.found "shop", .commit 0, .reopen, .plan (.createTable "shop" orders true) true, .draw 0,
    .commit 0] ++ step 5 ++ [.plan (.addForeignKey "shop" "orders" (key "owner") false) false,
    .plan (.addForeignKey "shop" "orders" (key "OWNER") false) false, .draw 1, .commit 0, .draw 2,
    .commit 0] ++ step 6 ++ step 7 ++ step 8 ++ step 9

theorem key_names_differ_ownedTwice :
    ∃ t, ((ofStore .inMemory).run .standard 8 ownedTwice).store.snapshot.table? 1 2 = some t ∧
      t.keyNames = ["owner"] ∧ KeysDiffer ownedTwice t := by
  have hstate : (((ofStore .inMemory).run .standard 8 ownedTwice).store.snapshot.table? 1 2).map
      (·.keyNames) = some ["owner"] := by
    decide +kernel
  obtain ⟨t, ht, hkeys⟩ := Option.map_eq_some_iff.1 hstate
  exact ⟨t, ht, hkeys, key_names_differ 8 ownedTwice 1 2 t ht⟩

/--
A run that creates a table whose constraints are declared with names that differ only in their case,
while foreign keys are not checked.
-/
def alikeDeclared : List Event :=
  let orders := (((Table.ofName "orders").withColumn (.ofName "user" .bigint)).withForeignKey
    (.ofNames "owner" ["user"] "shop" "users" ["id"])).withForeignKey
    (.ofNames "OWNER" ["user"] "shop" "users" ["id"])
  [.found "shop", .commit 0, .reopen, .plan (.createTable "shop" orders true) false, .draw 0,
    .commit 0, .begin false 5, .settle true, .close]

theorem not_differ_alikeDeclared :
    ∃ t, ((ofStore .inMemory).run .standard 8 alikeDeclared).store.snapshot.table? 1 2 = some t ∧
      t.keyNames = ["owner", "owner"] ∧ ¬ t.keyNames.Nodup := by
  have hstate : (((ofStore .inMemory).run .standard 8 alikeDeclared).store.snapshot.table? 1 2).map
      (·.keyNames) = some ["owner", "owner"] := by
    decide +kernel
  obtain ⟨t, ht, hkeys⟩ := Option.map_eq_some_iff.1 hstate
  refine ⟨t, ht, hkeys, ?_⟩
  rw [hkeys]
  decide

end World

end Steward
