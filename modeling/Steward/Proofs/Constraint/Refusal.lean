import Steward.Constraint.Removal

/-!
This module contains what the checks of a definition find: each of their faults is a reason to give
the change up, none of them passes by itself.
-/

namespace Steward

open Catalog

theorem Catalog.Fault.not_transient {f : Fault} (h : f.isCancellable = true) :
    f.isTransient = false := by
  cases f <;> first | rfl | cases h

namespace Constraint

variable {α β : Type}

def Refuses (check : Except Fault α) : Prop := ∀ f, check = .error f → f.isCancellable = true

theorem refuses_ok (a : α) : Refuses (.ok a : Except Fault α) := by
  intro f h
  cases h

theorem refuses_error {f : Fault} (hf : f.isCancellable = true) :
    Refuses (.error f : Except Fault α) := by
  intro g h
  cases h
  exact hf

theorem Refuses.bind {check : Except Fault α} {next : α → Except Fault β} (h : Refuses check)
    (hnext : ∀ a, Refuses (next a)) : Refuses (check >>= next) := by
  cases check with
  | ok a => exact hnext a
  | error f => exact refuses_error (h f rfl)

theorem refuses_orElse (ok : Bool) {f : Fault} (hf : f.isCancellable = true) :
    Refuses (orElse ok f) := by
  unfold orElse
  split
  · exact refuses_ok ()
  · exact refuses_error hf

variable (enabled check : Bool) (v : View) (schema : String) (t parent child : Table)
  (fk : ForeignKey) (name : String)

theorem refuses_find : Refuses (find t name) := by
  unfold find
  split
  · exact refuses_ok _
  · exact refuses_error rfl

theorem refuses_checkPairs (ps : List (String × String)) :
    Refuses (checkPairs parent child fk ps) := by
  induction ps with
  | nil => exact refuses_ok ()
  | cons p ps ih =>
    unfold checkPairs checkPair
    refine .bind ?_ fun _ => ih
    refine (refuses_find parent p.2).bind fun ref => ?_
    refine (refuses_orElse _ rfl).bind fun _ => ?_
    refine (refuses_find child p.1).bind fun own => ?_
    exact (refuses_orElse _ rfl).bind fun _ => refuses_orElse _ rfl

theorem refuses_checkColumns : Refuses (checkColumns enabled parent child fk) := by
  unfold checkColumns
  split
  · exact (refuses_checkPairs parent child fk _).bind fun _ => refuses_orElse _ rfl
  · exact refuses_ok ()

theorem refuses_parent? : Refuses (parent? v schema child fk check) := by
  unfold parent?
  split
  · exact refuses_ok _
  · split
    · exact refuses_ok _
    · split
      · exact refuses_error rfl
      · exact refuses_ok _

theorem refuses_checkSides : Refuses (checkSides enabled v schema child fk check) := by
  unfold checkSides checkReference
  refine .bind ?_ fun _ => refuses_orElse _ rfl
  refine (refuses_orElse _ rfl).bind fun _ => ?_
  refine (refuses_orElse _ rfl).bind fun _ => ?_
  refine (refuses_orElse _ rfl).bind fun _ => ?_
  refine (refuses_orElse _ rfl).bind fun _ => ?_
  refine (refuses_parent? check v schema child fk).bind fun found => ?_
  cases found with
  | none => exact refuses_ok ()
  | some parent =>
    refine (refuses_orElse _ rfl).bind fun _ => ?_
    refine (refuses_orElse _ rfl).bind fun _ => ?_
    exact (refuses_orElse _ rfl).bind fun _ => refuses_checkColumns enabled parent child fk

theorem refuses_checkAdded : Refuses (checkAdded enabled v schema child fk check) := by
  unfold checkAdded checkName
  refine (refuses_orElse _ rfl).bind fun _ => ?_
  split
  · exact refuses_checkSides enabled check v schema child fk
  · exact refuses_ok ()

theorem refuses_checkDeclaredAfter (before fks : List ForeignKey) :
    Refuses (checkDeclaredAfter v schema child check before fks) := by
  induction fks generalizing before with
  | nil => exact refuses_ok ()
  | cons fk fks ih =>
    unfold checkDeclaredAfter
    refine (refuses_orElse _ rfl).bind fun _ => ?_
    exact (refuses_checkSides true check v schema child fk).bind fun _ => ih _

theorem refuses_checkDeclared : Refuses (checkDeclared enabled v schema child check) := by
  unfold checkDeclared
  split
  · exact refuses_checkDeclaredAfter check v schema child [] _
  · exact refuses_ok ()

theorem refuses_checkUnreferred : Refuses (checkUnreferred enabled v schema name check) := by
  unfold checkUnreferred
  split
  · split
    · exact refuses_error rfl
    · exact refuses_ok ()
  · exact refuses_ok ()

theorem refuses_checkIndexUnneeded : Refuses (checkIndexUnneeded enabled v schema t name) := by
  unfold checkIndexUnneeded
  split
  · split
    · exact refuses_orElse _ rfl
    · exact refuses_ok ()
  · exact refuses_ok ()

theorem refuses_checkColumnUnneeded : Refuses (checkColumnUnneeded enabled v schema t name) := by
  unfold checkColumnUnneeded
  split
  · split
    · exact refuses_error rfl
    · split
      · exact refuses_error rfl
      · exact refuses_ok ()
  · exact refuses_ok ()

end Constraint

end Steward
