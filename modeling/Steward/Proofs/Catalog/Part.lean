import Steward.Proofs.Step.ForeignKeys
import Steward.Proofs.Step.Tables
import Steward.Step.Parts

/-!
This module contains the parts of a table that have a stage of their own, and what the steps do to
the stages: one part changes its stage and no other, or a part goes and no other changes.
-/

namespace Steward.Catalog

open Step

/--
Something with a stage: a table, or a column, an index or a constraint at its position.
-/
inductive Part where
  | table
  | column (pos : Nat)
  | index (pos : Nat)
  | foreignKey (pos : Nat)
deriving DecidableEq, Repr

/--
Does a new table get the part in the stage in which it was declared?
-/
def Part.isDeclared : Part → Bool
  | column _ | index _ => true
  | table | foreignKey _ => false

theorem findIdx?_concat {α : Type} {p : α → Bool} {l : List α} {a : α}
    (h : l.findIdx? p = none) (ha : p a = true) : (l ++ [a]).findIdx? p = some l.length := by
  rw [List.findIdx?_append, h]
  simp [List.findIdx?_cons, ha]

namespace Table

def stageOf (t : Table) : Part → Option Stage
  | .table => some t.stage
  | .column pos => t.columns[pos]?.map (·.stage)
  | .index pos => t.indices[pos]?.map (·.stage)
  | .foreignKey pos => t.foreignKeys[pos]?.map (·.stage)

def Pending (t : Table) (p : Part) : Prop := ∃ st, t.stageOf p = some st ∧ st ≠ .live

structure Restaged (t t' : Table) (part : Part) (st : Stage) : Prop where
  same : ∀ p, p ≠ part → t'.stageOf p = t.stageOf p
  changed : t'.stageOf part = (t.stageOf part).map fun _ => st

def Shed (t t' : Table) (part : Part) : Prop :=
  ∀ p st, t'.stageOf p = some st →
    ∃ q, q ≠ part ∧ q.isDeclared = p.isDeclared ∧ t.stageOf q = some st

variable {t t' : Table} {p part : Part} {st : Stage}

theorem Restaged.pending (h : t.Restaged t' part st) (hp : t'.Pending p) :
    (p = part ∧ st ≠ .live) ∨ (p ≠ part ∧ t.Pending p) := by
  obtain ⟨st', hst, hl⟩ := hp
  by_cases heq : p = part
  · left
    refine ⟨heq, ?_⟩
    rw [heq, h.changed] at hst
    obtain ⟨_, _, hst⟩ := Option.map_eq_some_iff.1 hst
    rw [hst]
    exact hl
  · right
    refine ⟨heq, st', ?_, hl⟩
    rw [← h.same p heq]
    exact hst

theorem Shed.pending (h : t.Shed t' part) (hp : t'.Pending p) :
    ∃ q, q ≠ part ∧ q.isDeclared = p.isDeclared ∧ t.Pending q := by
  obtain ⟨st, hst, hl⟩ := hp
  obtain ⟨q, hne, hd, hq⟩ := h p st hst
  exact ⟨q, hne, hd, st, hq, hl⟩

theorem stageOf_stamped (t : Table) (stamp : Nat) (p : Part) :
    { t with updated := stamp }.stageOf p = t.stageOf p := by
  cases p <;> rfl

theorem Restaged.stamped (h : t.Restaged t' part st) (stamp : Nat) :
    t.Restaged { t' with updated := stamp } part st where
  same p hp := (stageOf_stamped t' stamp p).trans (h.same p hp)
  changed := (stageOf_stamped t' stamp part).trans h.changed

theorem Shed.stamped (h : t.Shed t' part) (stamp : Nat) :
    t.Shed { t' with updated := stamp } part := by
  intro p st hst
  rw [stageOf_stamped] at hst
  exact h p st hst

section Modify

variable {α : Type} {f : α → α} {stage : α → Stage}

theorem map_getElem?_modify_self (l : List α) (pos : Nat) (hf : ∀ a, stage (f a) = st) :
    (l.modify pos f)[pos]?.map stage = (l[pos]?.map stage).map fun _ => st := by
  rw [List.getElem?_modify]
  cases l[pos]? with
  | none => rfl
  | some a =>
    simp only [if_true, Option.map_eq_map, Option.map_some]
    rw [hf]

theorem getElem?_modify_of_ne (l : List α) {pos i : Nat} (h : i ≠ pos) :
    (l.modify pos f)[i]? = l[i]? := by
  rw [List.getElem?_modify]
  simp only [if_neg (Ne.symm h)]
  cases l[i]? <;> rfl

theorem findIdx?_modify {q : α → Bool} (hq : ∀ a, q (f a) = q a) (l : List α) (pos : Nat) :
    (l.modify pos f).findIdx? q = l.findIdx? q := by
  induction l generalizing pos with
  | nil => cases pos <;> rfl
  | cons a l ih =>
    cases pos with
    | zero =>
      simp only [List.modify_zero_cons, List.findIdx?_cons]
      rw [hq]
    | succ pos =>
      simp only [List.modify_succ_cons, List.findIdx?_cons]
      rw [ih]

theorem getElem?_of_eraseIdx {l : List α} {pos i : Nat} {a : α}
    (h : (l.eraseIdx pos)[i]? = some a) : ∃ j, j ≠ pos ∧ l[j]? = some a := by
  rw [List.getElem?_eraseIdx] at h
  split at h
  · next hi => exact ⟨i, by omega, h⟩
  · next hi => exact ⟨i + 1, by omega, h⟩

end Modify

theorem restaged_stage (t : Table) (st : Stage) :
    t.Restaged { t with stage := st } .table st where
  same p hp := by cases p <;> first | rfl | exact absurd rfl hp
  changed := rfl

theorem restaged_setIndexStage (t : Table) (pos : Nat) (st : Stage) :
    t.Restaged (setIndexStage t pos st) (.index pos) st where
  same p hp := by
    cases p with
    | index i =>
      have hi : i ≠ pos := fun h => hp (h ▸ rfl)
      simp only [stageOf, setIndexStage, getElem?_modify_of_ne _ hi]
    | _ => rfl
  changed := map_getElem?_modify_self _ _ fun _ => rfl

theorem restaged_setColumnStage (t : Table) (pos : Nat) (st : Stage) :
    t.Restaged (setColumnStage t pos st) (.column pos) st where
  same p hp := by
    cases p with
    | column i =>
      have hi : i ≠ pos := fun h => hp (h ▸ rfl)
      simp only [stageOf, setColumnStage, getElem?_modify_of_ne _ hi]
    | _ => rfl
  changed := map_getElem?_modify_self _ _ fun _ => rfl

theorem restaged_setForeignKeyStage (t : Table) (pos : Nat) (st : Stage) :
    t.Restaged (setForeignKeyStage t pos st) (.foreignKey pos) st where
  same p hp := by
    cases p with
    | foreignKey i =>
      have hi : i ≠ pos := fun h => hp (h ▸ rfl)
      simp only [stageOf, setForeignKeyStage, getElem?_modify_of_ne _ hi]
    | _ => rfl
  changed := map_getElem?_modify_self _ _ fun _ => rfl

theorem indexPosition?_setIndexStage (t : Table) (pos : Nat) (st : Stage) (name : String) :
    (setIndexStage t pos st).indexPosition? name = t.indexPosition? name := by
  apply findIdx?_modify
  intro
  rfl

theorem columnPosition?_setColumnStage (t : Table) (pos : Nat) (st : Stage) (name : String) :
    (setColumnStage t pos st).columnPosition? name = t.columnPosition? name := by
  apply findIdx?_modify
  intro
  rfl

theorem foreignKeyPosition?_setForeignKeyStage (t : Table) (pos : Nat) (st : Stage)
    (name : String) :
    (setForeignKeyStage t pos st).foreignKeyPosition? name = t.foreignKeyPosition? name := by
  apply findIdx?_modify
  intro
  rfl

theorem shed_eraseIndex (t : Table) (pos : Nat) :
    t.Shed { t with indices := t.indices.eraseIdx pos } (.index pos) := by
  intro p st h
  cases p with
  | index i =>
    obtain ⟨ix, hix, rfl⟩ := Option.map_eq_some_iff.1 h
    obtain ⟨j, hj, hix⟩ := getElem?_of_eraseIdx hix
    refine ⟨.index j, by simpa using hj, rfl, ?_⟩
    simp only [stageOf, hix, Option.map_some]
  | table => exact ⟨.table, by simp, rfl, h⟩
  | column i => exact ⟨.column i, by simp, rfl, h⟩
  | foreignKey i => exact ⟨.foreignKey i, by simp, rfl, h⟩

theorem shed_eraseForeignKey (t : Table) (pos : Nat) :
    t.Shed { t with foreignKeys := t.foreignKeys.eraseIdx pos } (.foreignKey pos) := by
  intro p st h
  cases p with
  | foreignKey i =>
    obtain ⟨fk, hfk, rfl⟩ := Option.map_eq_some_iff.1 h
    obtain ⟨j, hj, hfk⟩ := getElem?_of_eraseIdx hfk
    refine ⟨.foreignKey j, by simpa using hj, rfl, ?_⟩
    simp only [stageOf, hfk, Option.map_some]
  | table => exact ⟨.table, by simp, rfl, h⟩
  | column i => exact ⟨.column i, by simp, rfl, h⟩
  | index i => exact ⟨.index i, by simp, rfl, h⟩

theorem shed_dropColumn (t : Table) (pos : Nat) : t.Shed (t.dropColumn pos) (.column pos) := by
  intro p st h
  cases hc : t.columns[pos]? with
  | none =>
    unfold dropColumn at h
    rw [hc] at h
    refine ⟨p, ?_, rfl, h⟩
    rintro rfl
    simp [stageOf, hc] at h
  | some c =>
    unfold dropColumn at h
    rw [hc] at h
    cases p with
    | table => exact ⟨.table, by simp, rfl, h⟩
    | foreignKey i => exact ⟨.foreignKey i, by simp, rfl, h⟩
    | column i =>
      simp only [stageOf, renumber, List.getElem?_mapIdx, Option.map_map] at h
      obtain ⟨col, hcol, rfl⟩ := Option.map_eq_some_iff.1 h
      obtain ⟨j, hj, hcol⟩ := getElem?_of_eraseIdx hcol
      refine ⟨.column j, by simpa using hj, rfl, ?_⟩
      simp only [stageOf, hcol, Option.map_some]
      rfl
    | index i =>
      simp only [stageOf, renumber, List.getElem?_map, Option.map_map] at h
      obtain ⟨ix, hix, rfl⟩ := Option.map_eq_some_iff.1 h
      have hmem := (List.mem_filter.1 (List.mem_of_getElem? hix)).1
      obtain ⟨old, hold, rfl⟩ := List.mem_map.1 hmem
      obtain ⟨j, hj, hget⟩ := List.mem_iff_getElem.1 hold
      refine ⟨.index j, by simp, rfl, ?_⟩
      simp only [stageOf, List.getElem?_eq_getElem hj, hget, Option.map_some]
      rfl

theorem stageOf_withStagedKey (t : Table) (fk : ForeignKey) (p : Part) :
    (withStagedKey t fk).stageOf p =
      if p = .foreignKey t.foreignKeys.length then some .writeOnly else t.stageOf p := by
  cases p with
  | foreignKey i =>
    by_cases hi : i = t.foreignKeys.length
    · subst hi
      simp [stageOf, withStagedKey, stagedKey]
    · rw [if_neg (by simpa using hi)]
      simp only [stageOf, withStagedKey]
      by_cases hlt : i < t.foreignKeys.length
      · rw [List.getElem?_append_left hlt]
      · have hge : t.foreignKeys.length + 1 ≤ i := by omega
        rw [List.getElem?_eq_none (by simpa using hge), List.getElem?_eq_none (by omega)]
  | _ => rfl

theorem pending_createdTable {job : Change.Job} (h : (createdTable job t).Pending p) :
    p.isDeclared = true ∧ t.Pending p := by
  obtain ⟨st, hst, hl⟩ := h
  cases p with
  | table =>
    cases hst
    exact absurd rfl hl
  | foreignKey i =>
    simp only [stageOf, createdTable, List.getElem?_map, Option.map_map] at hst
    obtain ⟨fk, _, rfl⟩ := Option.map_eq_some_iff.1 hst
    exact absurd rfl hl
  | column i => exact ⟨rfl, st, hst, hl⟩
  | index i => exact ⟨rfl, st, hst, hl⟩

end Table

end Steward.Catalog
