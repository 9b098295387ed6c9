import Steward.Constraint.Removal
import Steward.Proofs.Ledger.Twins

/-!
This module contains what the checks of foreign keys look at: whatever else two views show, a check
has the same result if they find the same tables under the names that its constraints refer to, and
the same constraints that refer to its table. When a table was last changed does not matter.
-/

namespace Steward.Constraint

open Catalog

variable {v v' : View} {schema : String} {t : Table} {fk : ForeignKey}

/--
The two views find the same table under the name that a constraint refers to, or they find none.
-/
def SameParent (v v' : View) (fk : ForeignKey) : Prop :=
  (v'.table fk.refSchema fk.refTable).map Table.undated =
    (v.table fk.refSchema fk.refTable).map Table.undated

def SameChildren (v v' : View) (schema table : String) : Prop :=
  v'.referred schema table = v.referred schema table

theorem SameParent.cases (h : SameParent v v' fk) :
    (∃ parent updated, v.table fk.refSchema fk.refTable = .ok parent ∧
        v'.table fk.refSchema fk.refTable = .ok { parent with updated }) ∨
      ∃ f, v.table fk.refSchema fk.refTable = .error f ∧
        v'.table fk.refSchema fk.refTable = .error f := by
  unfold SameParent at h
  cases hleft : v.table fk.refSchema fk.refTable with
  | ok parent =>
    cases hright : v'.table fk.refSchema fk.refTable with
    | ok parent' =>
      rw [hleft, hright] at h
      obtain ⟨updated, rfl⟩ := Table.exists_of_undated_eq (Except.ok.inj h)
      exact .inl ⟨parent, updated, rfl, rfl⟩
    | error f =>
      rw [hleft, hright] at h
      cases h
  | error f =>
    cases hright : v'.table fk.refSchema fk.refTable with
    | ok parent' =>
      rw [hleft, hright] at h
      cases h
    | error f' =>
      rw [hleft, hright] at h
      cases h
      exact .inr ⟨f, rfl, rfl⟩

section Definition

variable (enabled check : Bool) (updated updated' : Nat) (parent child : Table)

theorem checkPairs_undated (fk : ForeignKey) (ps : List (String × String)) :
    checkPairs { parent with updated } { child with updated := updated' } fk ps =
      checkPairs parent child fk ps := by
  induction ps with
  | nil => rfl
  | cons p ps ih =>
    unfold checkPairs
    rw [ih]
    rfl

theorem checkColumns_undated (fk : ForeignKey) :
    checkColumns enabled { parent with updated } { child with updated := updated' } fk =
      checkColumns enabled parent child fk := by
  unfold checkColumns
  rw [checkPairs_undated]
  rfl

theorem SameParent.checkReference (h : SameParent v v' fk) :
    checkReference enabled v' schema { t with updated } fk check =
      checkReference enabled v schema t fk check := by
  unfold Constraint.checkReference parent?
  dsimp only
  split
  · simp only [bind, Except.bind, checkColumns_undated]
  · rcases h.cases with ⟨parent, updated', hleft, hright⟩ | ⟨f, hleft, hright⟩
    · rw [hleft, hright]
      simp only [bind, Except.bind, checkColumns_undated]
    · -- A table that is not there is a fault, or nothing more is checked.
      rw [hleft, hright]
      cases check <;> rfl

theorem SameParent.checkSides (h : SameParent v v' fk) :
    checkSides enabled v' schema { t with updated } fk check =
      checkSides enabled v schema t fk check := by
  unfold Constraint.checkSides
  rw [h.checkReference]
  rfl

theorem SameParent.checkAdded (h : SameParent v v' fk) :
    checkAdded enabled v' schema { t with updated } fk check =
      checkAdded enabled v schema t fk check := by
  unfold Constraint.checkAdded
  rw [h.checkSides]
  rfl

theorem checkDeclaredAfter_congr {fks : List ForeignKey} (h : ∀ fk ∈ fks, SameParent v v' fk)
    (before : List ForeignKey) :
    checkDeclaredAfter v' schema t check before fks =
      checkDeclaredAfter v schema t check before fks := by
  induction fks generalizing before with
  | nil => rfl
  | cons fk fks ih =>
    obtain ⟨hfk, hfks⟩ := List.forall_mem_cons.1 h
    have hsides : Constraint.checkSides true v' schema t fk check =
        Constraint.checkSides true v schema t fk check := hfk.checkSides true check t.updated
    unfold checkDeclaredAfter
    rw [ih hfks, hsides]

theorem checkDeclared_congr (h : ∀ fk ∈ t.foreignKeys, SameParent v v' fk) :
    checkDeclared enabled v' schema t check = checkDeclared enabled v schema t check := by
  unfold checkDeclared
  rw [checkDeclaredAfter_congr check h]

end Definition

section Removal

variable (enabled : Bool) (updated : Nat)

theorem SameChildren.checkUnreferred {table : String} (h : SameChildren v v' schema table)
    (check : Bool) :
    checkUnreferred enabled v' schema table check = checkUnreferred enabled v schema table check := by
  unfold Constraint.checkUnreferred
  rw [h]

theorem SameChildren.checkIndexUnneeded (h : SameChildren v v' schema t.name) (name : String) :
    checkIndexUnneeded enabled v' schema { t with updated } name =
      checkIndexUnneeded enabled v schema t name := by
  unfold Constraint.checkIndexUnneeded
  dsimp only
  rw [h]
  rfl

theorem SameChildren.checkColumnUnneeded (h : SameChildren v v' schema t.name) (column : String) :
    checkColumnUnneeded enabled v' schema { t with updated } column =
      checkColumnUnneeded enabled v schema t column := by
  unfold Constraint.checkColumnUnneeded
  dsimp only
  rw [h]

end Removal

end Steward.Constraint
