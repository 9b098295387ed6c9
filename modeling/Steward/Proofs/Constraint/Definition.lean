import Steward.Constraint.Definition
import Steward.Proofs.Catalog.Coverage

/-!
This module contains what the checks of a foreign key establish: `Fits` says that a constraint fits
its two tables, and `fits_of_checkSides` that only such constraints pass.
-/

namespace Steward.Catalog

/--
A column of a table and the one that it refers to: both are there, neither is virtual, and their
types are compatible.
-/
structure Paired (parent child : Table) (col refCol : String) (own ref : Column) : Prop where
  isOwn : child.findColumn? col = some own
  isRef : parent.findColumn? refCol = some ref
  ownStored : own.isVirtual = false
  refStored : ref.isVirtual = false
  compatible : own.fieldType.compatible ref.fieldType = true

/--
A constraint of the table `child` fits the table `parent` that it refers to: its columns are paired,
and on either side an index covers them.
-/
structure Fits (parent child : Table) (fk : ForeignKey) : Prop where
  nonempty : fk.cols ≠ []
  length : fk.cols.length = fk.refCols.length
  paired : ∀ p ∈ fk.cols.zip fk.refCols, ∃ own ref, Paired parent child p.1 p.2 own ref
  covered : (child.coveringIndex? fk.cols).isSome
  refCovered : (parent.coveringIndex? fk.refCols).isSome

variable {parent parent' child child' : Table} {fk fk' : ForeignKey}

theorem Fits.keeps (h : Fits parent child fk) (hc : child.Keeps child' fk.cols)
    (hp : parent.Keeps parent' fk.refCols) : Fits parent' child' fk where
  nonempty := h.nonempty
  length := h.length
  paired p hmem := by
    obtain ⟨own, ref, hpair⟩ := h.paired p hmem
    obtain ⟨hown, href⟩ := List.of_mem_zip hmem
    obtain ⟨own', hown', htype, hgen⟩ := hc.column p.1 hown own hpair.isOwn
    obtain ⟨ref', href', htype', hgen'⟩ := hp.column p.2 href ref hpair.isRef
    refine ⟨own', ref', hown', href', ?_, ?_, ?_⟩
    · unfold Column.isVirtual
      rw [hgen]
      exact hpair.ownStored
    · unfold Column.isVirtual
      rw [hgen']
      exact hpair.refStored
    · rw [htype, htype']
      exact hpair.compatible
  covered := Table.isSome_coveringIndex?_iff.2
    (hc.covered (Table.isSome_coveringIndex?_iff.1 h.covered))
  refCovered := Table.isSome_coveringIndex?_iff.2
    (hp.covered (Table.isSome_coveringIndex?_iff.1 h.refCovered))

theorem Fits.congr (h : Fits parent child fk) (hc : fk'.cols = fk.cols)
    (hr : fk'.refCols = fk.refCols) : Fits parent child fk' where
  nonempty := hc ▸ h.nonempty
  length := by
    rw [hc, hr]
    exact h.length
  paired := by
    rw [hc, hr]
    exact h.paired
  covered := hc ▸ h.covered
  refCovered := hr ▸ h.refCovered

end Steward.Catalog

namespace Steward.Constraint

open Catalog

variable {v : View} {schema : String} {parent child : Table} {fk : ForeignKey} {ok : Bool}
  {fault : Fault}

theorem orElse_eq_ok : orElse ok fault = .ok () ↔ ok = true := by
  unfold orElse
  split <;> simp_all

theorem eq_ok_iff_isOk {e : Except Fault Unit} : e = .ok () ↔ e.isOk = true := by
  -- Faults may not be compared, but whether there is one can be decided.
  cases e with
  | ok => simp [Except.isOk, Except.toBool]
  | error => simp [Except.isOk, Except.toBool]

theorem find_eq_ok {t : Table} {column : String} {c : Column} :
    find t column = .ok c ↔ t.findColumn? column = some c := by
  unfold find
  split
  · next h => simp [h]
  · next h => simp [h]

theorem checkPair_eq_ok_iff {col refCol : String} :
    checkPair parent child fk col refCol = .ok () ↔
      ∃ own ref, Paired parent child col refCol own ref := by
  constructor
  · intro h
    obtain ⟨ref, href, h⟩ := bind_eq_ok.1 h
    obtain ⟨_, hrefStored, h⟩ := bind_eq_ok.1 h
    obtain ⟨own, hown, h⟩ := bind_eq_ok.1 h
    obtain ⟨_, hownStored, hcompatible⟩ := bind_eq_ok.1 h
    refine ⟨own, ref, find_eq_ok.1 hown, find_eq_ok.1 href, ?_, ?_, orElse_eq_ok.1 hcompatible⟩
    · simpa using orElse_eq_ok.1 hownStored
    · simpa using orElse_eq_ok.1 hrefStored
  · rintro ⟨own, ref, h⟩
    have hrefStored : (!ref.isVirtual) = true := by simpa using h.refStored
    have hownStored : (!own.isVirtual) = true := by simpa using h.ownStored
    apply bind_eq_ok.2
    refine ⟨ref, find_eq_ok.2 h.isRef, bind_eq_ok.2 ⟨(), orElse_eq_ok.2 hrefStored, ?_⟩⟩
    apply bind_eq_ok.2
    refine ⟨own, find_eq_ok.2 h.isOwn, bind_eq_ok.2 ⟨(), orElse_eq_ok.2 hownStored, ?_⟩⟩
    exact orElse_eq_ok.2 h.compatible

theorem checkPairs_eq_ok_iff {ps : List (String × String)} :
    checkPairs parent child fk ps = .ok () ↔
      ∀ p ∈ ps, ∃ own ref, Paired parent child p.1 p.2 own ref := by
  induction ps with
  | nil => simp [checkPairs]
  | cons p ps ih =>
    rw [List.forall_mem_cons]
    constructor
    · intro h
      obtain ⟨_, hpair, hpairs⟩ := bind_eq_ok.1 h
      exact ⟨checkPair_eq_ok_iff.1 hpair, ih.1 hpairs⟩
    · rintro ⟨hpair, hpairs⟩
      exact bind_eq_ok.2 ⟨(), checkPair_eq_ok_iff.2 hpair, ih.2 hpairs⟩

/--
The table that a constraint of `child` refers to, as a check finds it in the view.
-/
def FindsParent (v : View) (schema : String) (child : Table) (fk : ForeignKey) (parent : Table) :
    Prop :=
  fk.refersTo schema child.name = true ∧ parent = child ∨
    v.table fk.refSchema fk.refTable = .ok parent

theorem findsParent_of_parent? {found : Option Table}
    (h : parent? v schema child fk true = .ok found) :
    ∃ parent, found = some parent ∧ FindsParent v schema child fk parent := by
  unfold parent? at h
  split at h
  · next hself =>
    cases h
    exact ⟨child, rfl, .inl ⟨hself, rfl⟩⟩
  · split at h
    · next t ht =>
      cases h
      exact ⟨t, rfl, .inr ht⟩
    · cases h

theorem fits_of_checkSides (h : checkSides true v schema child fk true = .ok ()) :
    ∃ parent, FindsParent v schema child fk parent ∧ Fits parent child fk := by
  obtain ⟨_, hreference, hchild⟩ := bind_eq_ok.1 h
  obtain ⟨_, hlength, h⟩ := bind_eq_ok.1 hreference
  obtain ⟨_, _, h⟩ := bind_eq_ok.1 h
  obtain ⟨_, _, h⟩ := bind_eq_ok.1 h
  obtain ⟨_, _, h⟩ := bind_eq_ok.1 h
  obtain ⟨found, hfound, h⟩ := bind_eq_ok.1 h
  obtain ⟨parent, rfl, hparent⟩ := findsParent_of_parent? hfound
  obtain ⟨_, _, h⟩ := bind_eq_ok.1 h
  obtain ⟨_, _, h⟩ := bind_eq_ok.1 h
  obtain ⟨_, _, h⟩ := bind_eq_ok.1 h
  obtain ⟨_, hpairs, hcover⟩ := bind_eq_ok.1 h
  obtain ⟨hnonempty, hequal⟩ := Bool.and_eq_true_iff.1 (orElse_eq_ok.1 hlength)
  refine ⟨parent, hparent, ?_, eq_of_beq hequal, checkPairs_eq_ok_iff.1 hpairs,
    orElse_eq_ok.1 hchild, orElse_eq_ok.1 hcover⟩
  simpa using hnonempty

theorem checkSides_of_checkDeclaredAfter {before fks : List ForeignKey}
    (h : checkDeclaredAfter v schema child true before fks = .ok ()) :
    ∀ fk ∈ fks, checkSides true v schema child fk true = .ok () := by
  induction fks generalizing before with
  | nil =>
    intro fk hfk
    cases hfk
  | cons fk fks ih =>
    obtain ⟨_, _, h⟩ := bind_eq_ok.1 h
    obtain ⟨_, hsides, h⟩ := bind_eq_ok.1 h
    exact List.forall_mem_cons.2 ⟨hsides, ih h⟩

theorem fits_of_checkDeclared (h : checkDeclared true v schema child true = .ok ()) :
    ∀ fk ∈ child.foreignKeys, ∃ parent, FindsParent v schema child fk parent ∧ Fits parent child fk :=
  fun fk hfk => fits_of_checkSides (checkSides_of_checkDeclaredAfter h fk hfk)

theorem fits_of_checkAdded (h : checkAdded true v schema child fk true = .ok ()) :
    ∃ parent, FindsParent v schema child fk parent ∧ Fits parent child fk := by
  obtain ⟨_, _, h⟩ := bind_eq_ok.1 h
  exact fits_of_checkSides h

end Steward.Constraint
