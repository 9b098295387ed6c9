import Steward.Proofs.Catalog.Part

/-!
This module contains what the columns of a constraint need of a table, and which changes of a table
keep it: the columns stay there with their types, and an index or the handle of the rows goes on to
cover them.
-/

namespace Steward.Catalog

open Step

section Lists

variable {α β : Type} {l l' : List α} {p : α → Bool} {f : α → β}

theorem map_find?_of_map_eq {q : β → Bool} (h : l'.map f = l.map f) (hp : ∀ a, q (f a) = p a) :
    (l'.find? p).map f = (l.find? p).map f := by
  have hcomp : q ∘ f = p := funext hp
  rw [← hcomp, ← List.find?_map, ← List.find?_map, h]

theorem find?_eraseIdx {pos : Nat} {a : α} (h : l[pos]? = some a) (hp : p a = false) :
    (l.eraseIdx pos).find? p = l.find? p := by
  induction l generalizing pos with
  | nil => simp at h
  | cons b l ih =>
    cases pos with
    | zero =>
      rw [List.getElem?_cons_zero] at h
      cases h
      rw [List.eraseIdx_cons_zero, List.find?_cons, hp]
    | succ pos =>
      rw [List.getElem?_cons_succ] at h
      rw [List.eraseIdx_cons_succ, List.find?_cons, List.find?_cons, ih h]

theorem zip_filter {keys : List β} (h : ∀ e ∈ keys.zip l, p e.2 = true) :
    keys.zip (l.filter p) = keys.zip l := by
  induction keys generalizing l with
  | nil => rfl
  | cons k keys ih =>
    cases l with
    | nil => rfl
    | cons a l =>
      rw [List.zip_cons_cons, List.forall_mem_cons] at h
      rw [List.filter_cons_of_pos h.1, List.zip_cons_cons, List.zip_cons_cons, ih h.2]

theorem eq_of_countP_le_one {a b : α} (h : l.countP p ≤ 1) (ha : a ∈ l) (hb : b ∈ l)
    (hpa : p a = true) (hpb : p b = true) : a = b := by
  have hma : a ∈ l.filter p := List.mem_filter.2 ⟨ha, hpa⟩
  have hmb : b ∈ l.filter p := List.mem_filter.2 ⟨hb, hpb⟩
  rw [List.countP_eq_length_filter] at h
  match hl : l.filter p with
  | [] =>
    rw [hl] at hma
    cases hma
  | [c] =>
    rw [hl, List.mem_singleton] at hma hmb
    rw [hma, hmb]
  | _ :: _ :: _ =>
    rw [hl] at h
    simp at h

end Lists

namespace Table

variable {t t' : Table} {cols : List String} {pos : Nat} {st : Stage}

/--
The columns know their positions, a column of an index knows the position of the first column with
its name, and at most one column is the primary key. Names may occur twice.
-/
structure WellFormed (t : Table) : Prop where
  offset : ∀ (i : Nat) (c : Column), t.columns[i]? = some c → c.offset = i
  indexed : ∀ ix ∈ t.indices, ∀ ic ∈ ix.columns,
    ∃ c, t.findColumn? ic.name = some c ∧ ic.offset = c.offset
  primary : t.columns.countP (·.primaryKey) ≤ 1

instance (t : Table) : Decidable t.WellFormed :=
  decidable_of_iff
    ((∀ p ∈ t.columns.zipIdx, p.1.offset = p.2) ∧
      (∀ ix ∈ t.indices, ∀ ic ∈ ix.columns,
        (t.findColumn? ic.name).map (·.offset) = some ic.offset) ∧
      t.columns.countP (·.primaryKey) ≤ 1) <| by
    constructor
    · rintro ⟨hoffset, hindexed, hprimary⟩
      refine ⟨?_, ?_, hprimary⟩
      · intro i c hc
        exact hoffset (c, i) (List.mk_mem_zipIdx_iff_getElem?.2 hc)
      · intro ix hix ic hic
        obtain ⟨c, hc, hsame⟩ := Option.map_eq_some_iff.1 (hindexed ix hix ic hic)
        exact ⟨c, hc, hsame.symm⟩
    · intro h
      refine ⟨?_, ?_, h.primary⟩
      · rintro ⟨c, i⟩ hc
        exact h.offset i c (List.mk_mem_zipIdx_iff_getElem?.1 hc)
      · intro ix hix ic hic
        obtain ⟨c, hc, hsame⟩ := h.indexed ix hix ic hic
        exact Option.map_eq_some_iff.2 ⟨c, hc, hsame.symm⟩

theorem WellFormed.getElem? (h : t.WellFormed) {name : String} {c : Column}
    (hc : t.findColumn? name = some c) : t.columns[c.offset]? = some c := by
  obtain ⟨i, hi⟩ := List.getElem?_of_mem (List.mem_of_find?_eq_some hc)
  rw [h.offset i c hi]
  exact hi

def Covered (t : Table) (cols : List String) : Prop :=
  (∃ (i : Nat) (ix : Index), t.indices[i]? = some ix ∧ ix.stage = .live ∧
    t.covers ix cols = true) ∨ t.isHandle cols = true

theorem isSome_coveringIndex?_iff : (t.coveringIndex? cols).isSome ↔ t.Covered cols := by
  unfold coveringIndex? Covered
  cases hf : t.indices.find? fun ix => ix.stage == .live && t.covers ix cols with
  | some ix =>
    simp only [Option.isSome_some, true_iff]
    left
    obtain ⟨i, hi⟩ := List.getElem?_of_mem (List.mem_of_find?_eq_some hf)
    have hcond := List.find?_some hf
    obtain ⟨hs, hc⟩ := Bool.and_eq_true_iff.1 hcond
    exact ⟨i, ix, hi, eq_of_beq hs, hc⟩
  | none =>
    dsimp only
    have hnone := List.find?_eq_none.1 hf
    split
    · next hh => simp [hh]
    · next hh =>
      simp only [Option.isSome_none, Bool.false_eq_true, false_iff]
      rintro (⟨i, ix, hi, hs, hc⟩ | h)
      · exact hnone ix (List.mem_of_getElem? hi) (by simp [hs, hc])
      · exact hh h

structure Keeps (t t' : Table) (cols : List String) : Prop where
  column : ∀ col ∈ cols, ∀ c, t.findColumn? col = some c → ∃ c', t'.findColumn? col = some c' ∧
    c'.fieldType = c.fieldType ∧ c'.generated = c.generated
  covered : t.Covered cols → t'.Covered cols

theorem Keeps.refl (t : Table) (cols : List String) : t.Keeps t cols where
  column _ _ c hc := ⟨c, hc, rfl, rfl⟩
  covered h := h

theorem Keeps.trans {t'' : Table} (h : t.Keeps t' cols) (h' : t'.Keeps t'' cols) :
    t.Keeps t'' cols where
  column col hcol c hc := by
    obtain ⟨c', hc', htype, hgen⟩ := h.column col hcol c hc
    obtain ⟨c'', hc'', htype', hgen'⟩ := h'.column col hcol c' hc'
    exact ⟨c'', hc'', htype'.trans htype, hgen'.trans hgen⟩
  covered hc := h'.covered (h.covered hc)

section Alike

def bare (c : Column) : Column := { c with stage := .live }

theorem of_bare_eq {c c' : Column} (h : bare c' = bare c) :
    c'.name = c.name ∧ c'.offset = c.offset ∧ c'.fieldType = c.fieldType ∧
      c'.generated = c.generated := by
  cases c
  cases c'
  simp only [bare, Column.mk.injEq] at h
  exact ⟨h.2.1, h.2.2.1, h.2.2.2.1, h.2.2.2.2.1⟩

/--
The tables differ in nothing that concerns columns or indices, but for the stages of columns.
-/
structure Alike (t t' : Table) : Prop where
  columns : t'.columns.map bare = t.columns.map bare
  indices : t'.indices = t.indices
  pkIsHandle : t'.pkIsHandle = t.pkIsHandle

theorem Alike.find? (h : t.Alike t') {p : Column → Bool} (hp : ∀ c, p (bare c) = p c) :
    (t'.columns.find? p).map bare = (t.columns.find? p).map bare := map_find?_of_map_eq h.columns hp

theorem Alike.getElem? (h : t.Alike t') (i : Nat) :
    t'.columns[i]?.map bare = t.columns[i]?.map bare := by
  rw [← List.getElem?_map, ← List.getElem?_map, h.columns]

theorem Alike.findColumn? (h : t.Alike t') {name : String} {c : Column}
    (hc : t.findColumn? name = some c) : ∃ c', t'.findColumn? name = some c' ∧ bare c' = bare c := by
  have hfind : (t'.findColumn? name).map bare = some (bare c) :=
    (h.find? fun _ => rfl).trans (congrArg (·.map bare) hc)
  exact Option.map_eq_some_iff.1 hfind

theorem Alike.covers (h : t.Alike t') (ix : Index) : t'.covers ix cols = t.covers ix cols := by
  have hwhole (p : String × IndexColumn) : t'.indexesWhole p.1 p.2 = t.indexesWhole p.1 p.2 := by
    have hcol := h.getElem? p.2.offset
    unfold indexesWhole
    cases hc : t.columns[p.2.offset]? with
    | none =>
      rw [hc, Option.map_none, Option.map_eq_none_iff] at hcol
      rw [hcol]
    | some c =>
      rw [hc, Option.map_some] at hcol
      obtain ⟨c', hc', hbare⟩ := Option.map_eq_some_iff.1 hcol
      rw [hc']
      dsimp only
      rw [(of_bare_eq hbare).2.2.1]
  unfold Table.covers
  rw [funext hwhole]

theorem Alike.isHandle (h : t.Alike t') : t'.isHandle cols = t.isHandle cols := by
  have hhandle : t'.handle?.map bare = t.handle?.map bare := by
    unfold handle?
    rw [h.pkIsHandle]
    split
    · exact h.find? fun _ => rfl
    · rfl
  unfold Table.isHandle
  split
  · next col =>
    cases hpk : t.handle? with
    | none =>
      rw [hpk, Option.map_none, Option.map_eq_none_iff] at hhandle
      rw [hhandle]
    | some pk =>
      rw [hpk, Option.map_some] at hhandle
      obtain ⟨pk', hpk', hbare⟩ := Option.map_eq_some_iff.1 hhandle
      rw [hpk', Option.any_some, Option.any_some, (of_bare_eq hbare).1]
  · rfl

theorem Alike.keeps (h : t.Alike t') (cols : List String) : t.Keeps t' cols where
  column col _ c hc := by
    obtain ⟨c', hc', hbare⟩ := h.findColumn? hc
    exact ⟨c', hc', (of_bare_eq hbare).2.2⟩
  covered hc := by
    unfold Covered
    rw [h.indices, h.isHandle]
    cases hc with
    | inl hindex =>
      obtain ⟨i, ix, hi, hs, hcov⟩ := hindex
      exact .inl ⟨i, ix, hi, hs, (h.covers ix).trans hcov⟩
    | inr hhandle => exact .inr hhandle

theorem Alike.wellFormed (h : t.Alike t') (ht : t.WellFormed) : t'.WellFormed where
  offset i c hc := by
    have hcol := h.getElem? i
    rw [hc, Option.map_some] at hcol
    obtain ⟨c', hc', hbare⟩ := Option.map_eq_some_iff.1 hcol.symm
    rw [← (of_bare_eq hbare).2.1]
    exact ht.offset i c' hc'
  indexed ix hix ic hic := by
    rw [h.indices] at hix
    obtain ⟨c, hc, hoffset⟩ := ht.indexed ix hix ic hic
    obtain ⟨c', hc', hbare⟩ := h.findColumn? hc
    exact ⟨c', hc', hoffset.trans (of_bare_eq hbare).2.1.symm⟩
  primary := by
    have hcount : t'.columns.countP (·.primaryKey) = t.columns.countP (·.primaryKey) := by
      have hmap := congrArg (List.countP (·.primaryKey)) h.columns
      rw [List.countP_map, List.countP_map] at hmap
      exact hmap
    rw [hcount]
    exact ht.primary

theorem alike_stamped (t : Table) (stamp : Nat) : t.Alike { t with updated := stamp } :=
  ⟨rfl, rfl, rfl⟩

theorem alike_setColumnStage (t : Table) (pos : Nat) (st : Stage) :
    t.Alike (setColumnStage t pos st) where
  columns := by
    unfold setColumnStage
    apply List.ext_getElem?
    intro i
    simp only [List.getElem?_map, List.getElem?_modify]
    cases t.columns[i]? with
    | none => rfl
    | some c =>
      simp only [Option.map_eq_map, Option.map_some]
      split <;> rfl
  indices := rfl
  pkIsHandle := rfl

end Alike

section Indices

def CoveredApart (t : Table) (pos : Nat) (cols : List String) : Prop :=
  (∃ (i : Nat) (ix : Index), i ≠ pos ∧ t.indices[i]? = some ix ∧ ix.stage = .live ∧
    t.covers ix cols = true) ∨ t.isHandle cols = true

theorem Covered.apart (h : t.Covered cols)
    (hpos : ∀ ix, t.indices[pos]? = some ix → ix.stage = .live → t.covers ix cols = true →
      t.CoveredApart pos cols) : t.CoveredApart pos cols := by
  cases h with
  | inl hindex =>
    obtain ⟨i, ix, hi, hs, hc⟩ := hindex
    by_cases hne : i = pos
    · exact hpos ix (hne ▸ hi) hs hc
    · exact .inl ⟨i, ix, hne, hi, hs, hc⟩
  | inr hhandle => exact .inr hhandle

theorem CoveredApart.setIndexStage (h : t.CoveredApart pos cols) (st : Stage) :
    (setIndexStage t pos st).Covered cols := by
  cases h with
  | inl hindex =>
    obtain ⟨i, ix, hne, hi, hs, hc⟩ := hindex
    left
    refine ⟨i, ix, ?_, hs, hc⟩
    unfold Step.setIndexStage
    dsimp only
    rw [getElem?_modify_of_ne _ hne]
    exact hi
  | inr hhandle => exact .inr hhandle

theorem CoveredApart.eraseIndex (h : t.CoveredApart pos cols) :
    { t with indices := t.indices.eraseIdx pos }.Covered cols := by
  cases h with
  | inl hindex =>
    obtain ⟨i, ix, hne, hi, hs, hc⟩ := hindex
    left
    by_cases hlt : i < pos
    · refine ⟨i, ix, ?_, hs, hc⟩
      rw [List.getElem?_eraseIdx, if_pos hlt]
      exact hi
    · refine ⟨i - 1, ix, ?_, hs, hc⟩
      rw [List.getElem?_eraseIdx, if_neg (by omega)]
      have : i - 1 + 1 = i := by omega
      rw [this]
      exact hi
  | inr hhandle => exact .inr hhandle

theorem covered_eraseIndex_iff :
    { t with indices := t.indices.eraseIdx pos }.Covered cols ↔ t.CoveredApart pos cols := by
  constructor
  · intro h
    cases h with
    | inl hindex =>
      obtain ⟨i, ix, hi, hs, hc⟩ := hindex
      obtain ⟨j, hj, hix⟩ := getElem?_of_eraseIdx hi
      exact .inl ⟨j, ix, hj, hix, hs, hc⟩
    | inr hhandle => exact .inr hhandle
  · exact CoveredApart.eraseIndex

theorem keeps_setIndexStage (h : t.Covered cols → t.CoveredApart pos cols) (st : Stage) :
    t.Keeps (setIndexStage t pos st) cols where
  column _ _ c hc := ⟨c, hc, rfl, rfl⟩
  covered hc := (h hc).setIndexStage st

theorem keeps_eraseIndex (h : t.Covered cols → t.CoveredApart pos cols) :
    t.Keeps { t with indices := t.indices.eraseIdx pos } cols where
  column _ _ c hc := ⟨c, hc, rfl, rfl⟩
  covered hc := (h hc).eraseIndex

theorem keeps_setIndexStage_live (t : Table) (pos : Nat) (cols : List String) :
    t.Keeps (setIndexStage t pos .live) cols where
  column _ _ c hc := ⟨c, hc, rfl, rfl⟩
  covered hc := by
    cases hc with
    | inl hindex =>
      obtain ⟨i, ix, hi, hs, hcov⟩ := hindex
      left
      unfold Step.setIndexStage
      dsimp only
      by_cases heq : i = pos
      · refine ⟨i, { ix with stage := .live }, ?_, rfl, hcov⟩
        rw [List.getElem?_modify, hi]
        simp [heq]
      · refine ⟨i, ix, ?_, hs, hcov⟩
        rw [getElem?_modify_of_ne _ heq]
        exact hi
    | inr hhandle => exact .inr hhandle

theorem coveredApart_of_not_live (h : ∀ ix, t.indices[pos]? = some ix → ix.stage ≠ .live)
    (hc : t.Covered cols) : t.CoveredApart pos cols :=
  hc.apart fun ix hix hs _ => absurd hs (h ix hix)

theorem WellFormed.setIndexStage (h : t.WellFormed) (pos : Nat) (st : Stage) :
    (setIndexStage t pos st).WellFormed where
  offset := h.offset
  indexed ix hix ic hic := by
    unfold Step.setIndexStage at hix
    obtain ⟨i, hi⟩ := List.getElem?_of_mem hix
    dsimp only at hi
    rw [List.getElem?_modify] at hi
    obtain ⟨old, hold, rfl⟩ := Option.map_eq_some_iff.1 hi
    refine h.indexed old (List.mem_of_getElem? hold) ic ?_
    split at hic <;> exact hic
  primary := h.primary

theorem WellFormed.eraseIndex (h : t.WellFormed) (pos : Nat) :
    { t with indices := t.indices.eraseIdx pos }.WellFormed where
  offset := h.offset
  indexed ix hix := h.indexed ix (List.mem_of_mem_eraseIdx hix)
  primary := h.primary

end Indices

section DropColumn

def unplaced (c : Column) : Column := { c with offset := 0 }

theorem of_unplaced_eq {c c' : Column} (h : unplaced c' = unplaced c) :
    c'.name = c.name ∧ c'.fieldType = c.fieldType ∧ c'.generated = c.generated := by
  cases c
  cases c'
  simp only [unplaced, Column.mk.injEq] at h
  exact ⟨h.2.1, h.2.2.2.1, h.2.2.2.2.1⟩

def shrunk (name : String) (ix : Index) : Index :=
  { ix with columns := ix.columns.filter fun ic => !Text.same ic.name name }

variable {c : Column} {ix : Index}

@[simp]
theorem id_dropColumn (t : Table) (pos : Nat) : (t.dropColumn pos).id = t.id := by
  unfold dropColumn
  split <;> rfl

@[simp]
theorem name_dropColumn (t : Table) (pos : Nat) : (t.dropColumn pos).name = t.name := by
  unfold dropColumn
  split <;> rfl

@[simp]
theorem stage_dropColumn (t : Table) (pos : Nat) : (t.dropColumn pos).stage = t.stage := by
  unfold dropColumn
  split <;> rfl

@[simp]
theorem foreignKeys_dropColumn (t : Table) (pos : Nat) :
    (t.dropColumn pos).foreignKeys = t.foreignKeys := by
  unfold dropColumn
  split <;> rfl

theorem columns_dropColumn (hc : t.columns[pos]? = some c) :
    (t.dropColumn pos).columns = (t.columns.eraseIdx pos).mapIdx fun i c => { c with offset := i } := by
  unfold dropColumn
  rw [hc]
  rfl

theorem indices_dropColumn (hc : t.columns[pos]? = some c) :
    (t.dropColumn pos).indices =
      ((t.indices.map (shrunk c.name)).filter fun ix => !ix.columns.isEmpty).map
        (·.withOffsets (t.dropColumn pos).columns) := by
  unfold dropColumn
  rw [hc]
  rfl

theorem pkIsHandle_dropColumn (hc : t.columns[pos]? = some c) :
    (t.dropColumn pos).pkIsHandle = if c.primaryKey then false else t.pkIsHandle := by
  unfold dropColumn
  rw [hc]
  rfl

theorem unplaced_dropColumn (hc : t.columns[pos]? = some c) :
    (t.dropColumn pos).columns.map unplaced = (t.columns.eraseIdx pos).map unplaced := by
  rw [columns_dropColumn hc]
  apply List.ext_getElem?
  intro i
  simp only [List.getElem?_map, List.getElem?_mapIdx]
  cases (t.columns.eraseIdx pos)[i]? <;> rfl

theorem offset_dropColumn (hc : t.columns[pos]? = some c) {i : Nat} {k : Column}
    (hk : (t.dropColumn pos).columns[i]? = some k) : k.offset = i := by
  rw [columns_dropColumn hc, List.getElem?_mapIdx] at hk
  obtain ⟨_, _, rfl⟩ := Option.map_eq_some_iff.1 hk
  rfl

theorem find?_dropColumn (hc : t.columns[pos]? = some c) {p : Column → Bool}
    (hp : ∀ k, p (unplaced k) = p k) (hne : p c = false) :
    ((t.dropColumn pos).columns.find? p).map unplaced = (t.columns.find? p).map unplaced := by
  rw [map_find?_of_map_eq (unplaced_dropColumn hc) hp, find?_eraseIdx hc hne]

theorem findColumn?_dropColumn (hc : t.columns[pos]? = some c) {name : String} {k : Column}
    (hne : Text.same c.name name = false) (hk : t.findColumn? name = some k) :
    ∃ k', (t.dropColumn pos).findColumn? name = some k' ∧ unplaced k' = unplaced k := by
  have hfind : ((t.dropColumn pos).findColumn? name).map unplaced = some (unplaced k) :=
    (find?_dropColumn hc (fun _ => rfl) hne).trans (congrArg (·.map unplaced) hk)
  exact Option.map_eq_some_iff.1 hfind

theorem mem_indices_dropColumn (hc : t.columns[pos]? = some c) :
    ix ∈ (t.dropColumn pos).indices ↔ ∃ old ∈ t.indices, (shrunk c.name old).columns ≠ [] ∧
      (shrunk c.name old).withOffsets (t.dropColumn pos).columns = ix := by
  rw [indices_dropColumn hc, List.mem_map]
  simp only [List.mem_filter, List.mem_map]
  constructor
  · rintro ⟨_, ⟨⟨old, hold, rfl⟩, hempty⟩, rfl⟩
    exact ⟨old, hold, by simpa using hempty, rfl⟩
  · rintro ⟨old, hold, hempty, rfl⟩
    exact ⟨_, ⟨⟨old, hold, rfl⟩, by simpa using hempty⟩, rfl⟩

theorem WellFormed.dropColumn (h : t.WellFormed) (pos : Nat) : (t.dropColumn pos).WellFormed := by
  cases hc : t.columns[pos]? with
  | none =>
    unfold Table.dropColumn
    rw [hc]
    exact h
  | some c =>
    constructor
    case offset =>
      intro i k hk
      exact offset_dropColumn hc hk
    case indexed =>
      intro ix hix ic hic
      obtain ⟨old, hold, _, rfl⟩ := (mem_indices_dropColumn hc).1 hix
      obtain ⟨was, hwas, rfl⟩ := List.mem_map.1 hic
      obtain ⟨hmem, hne⟩ := List.mem_filter.1 hwas
      obtain ⟨k, hk, _⟩ := h.indexed old hold was hmem
      have hother : Text.same c.name was.name = false := by
        rw [Text.same_comm]
        simpa using hne
      obtain ⟨k', hk', _⟩ := findColumn?_dropColumn hc hother hk
      have hfind : Column.find? (t.dropColumn pos).columns was.name = some k' := hk'
      rw [hfind]
      exact ⟨k', hk', rfl⟩
    case primary =>
      have hcount : (t.dropColumn pos).columns.countP (·.primaryKey) =
          (t.columns.eraseIdx pos).countP (·.primaryKey) := by
        have hmap := congrArg (List.countP (·.primaryKey)) (unplaced_dropColumn hc)
        rw [List.countP_map, List.countP_map] at hmap
        exact hmap
      rw [hcount]
      exact Nat.le_trans (List.Sublist.countP_le (List.eraseIdx_sublist _ _)) h.primary

theorem indexesWhole_dropColumn (h : t.WellFormed) (hc : t.columns[pos]? = some c)
    (hix : ix ∈ t.indices) {ic : IndexColumn} (hic : ic ∈ ix.columns) {col : String}
    (hne : Text.same c.name ic.name = false) (hw : t.indexesWhole col ic = true) :
    (t.dropColumn pos).indexesWhole col
      (match Column.find? (t.dropColumn pos).columns ic.name with
        | some info => { ic with offset := info.offset }
        | none => ic) = true := by
  -- The offset is taken anew, and leads to the same column as before.
  obtain ⟨k, hk, hoffset⟩ := h.indexed ix hix ic hic
  obtain ⟨k', hk', hsame⟩ := findColumn?_dropColumn hc hne hk
  have hfind : Column.find? (t.dropColumn pos).columns ic.name = some k' := hk'
  rw [hfind]
  unfold indexesWhole at hw ⊢
  dsimp only
  rw [(h.dropColumn pos).getElem? hk']
  rw [hoffset, h.getElem? hk] at hw
  dsimp only at hw ⊢
  rw [(of_unplaced_eq hsame).2.1]
  exact hw

theorem handle?_dropColumn (h : t.WellFormed) (hc : t.columns[pos]? = some c) {pk : Column}
    (hpk : t.handle? = some pk) (hne : pk ≠ c) :
    ∃ pk', (t.dropColumn pos).handle? = some pk' ∧ unplaced pk' = unplaced pk := by
  unfold handle? at hpk ⊢
  split at hpk
  · next hhandle =>
    have hother : c.primaryKey = false := by
      apply Bool.eq_false_iff.2
      intro hprimary
      apply hne
      exact eq_of_countP_le_one h.primary (List.mem_of_find?_eq_some hpk)
        (List.mem_of_getElem? hc) (List.find?_some hpk) hprimary
    rw [pkIsHandle_dropColumn hc, hother, if_neg Bool.false_ne_true, if_pos hhandle]
    have hfind : ((t.dropColumn pos).columns.find? (·.primaryKey)).map unplaced =
        some (unplaced pk) :=
      (find?_dropColumn hc (fun _ => rfl) hother).trans (congrArg (·.map unplaced) hpk)
    exact Option.map_eq_some_iff.1 hfind
  · cases hpk

theorem covers_dropColumn (h : t.WellFormed) (hc : t.columns[pos]? = some c)
    (hcols : ∀ col ∈ cols, Text.same c.name col = false) (hix : ix ∈ t.indices)
    (hcov : t.covers ix cols = true) :
    cols.length ≤ (shrunk c.name ix).columns.length ∧
      (t.dropColumn pos).covers ((shrunk c.name ix).withOffsets (t.dropColumn pos).columns) cols =
        true := by
  unfold covers at hcov
  obtain ⟨hlength, hall⟩ := Bool.and_eq_true_iff.1 hcov
  have hpair := List.all_eq_true.1 hall
  have hother (e : String × IndexColumn) (he : e ∈ cols.zip ix.columns) :
      Text.same c.name e.2.name = false := by
    have hname := (Bool.and_eq_true_iff.1 (hpair e he)).1
    apply Bool.eq_false_iff.2
    intro hsame
    have := hcols e.1 (List.of_mem_zip he).1
    rw [Text.same_trans hsame hname] at this
    cases this
  -- What goes stands behind the columns that are covered.
  have hzip : cols.zip (shrunk c.name ix).columns = cols.zip ix.columns := by
    apply zip_filter
    intro e he
    rw [Text.same_comm, hother e he]
    rfl
  have hle : cols.length ≤ (shrunk c.name ix).columns.length := by
    have hlen := congrArg List.length hzip
    have hle := of_decide_eq_true hlength
    rw [List.length_zip, List.length_zip] at hlen
    omega
  refine ⟨hle, ?_⟩
  unfold covers Index.withOffsets
  rw [Bool.and_eq_true_iff]
  constructor
  · rw [List.length_map]
    exact decide_eq_true hle
  · rw [List.zip_map_right, hzip, List.all_map, List.all_eq_true]
    intro e he
    exact indexesWhole_dropColumn h hc hix (List.of_mem_zip he).2 (hother e he) (hpair e he)

theorem isHandle_dropColumn (h : t.WellFormed) (hc : t.columns[pos]? = some c)
    (hcols : ∀ col ∈ cols, Text.same c.name col = false) (hhandle : t.isHandle cols = true) :
    (t.dropColumn pos).isHandle cols = true := by
  unfold isHandle at hhandle ⊢
  split at hhandle
  · next col =>
    cases hpk : t.handle? with
    | none =>
      rw [hpk] at hhandle
      cases hhandle
    | some pk =>
      rw [hpk, Option.any_some] at hhandle
      have hne : pk ≠ c := by
        rintro rfl
        rw [hcols col List.mem_cons_self] at hhandle
        cases hhandle
      obtain ⟨pk', hpk', hsame⟩ := handle?_dropColumn h hc hpk hne
      rw [hpk', Option.any_some, (of_unplaced_eq hsame).1]
      exact hhandle
  · cases hhandle

theorem keeps_dropColumn (h : t.WellFormed) (hc : t.columns[pos]? = some c)
    (hcols : ∀ col ∈ cols, Text.same c.name col = false) (hnil : cols ≠ []) :
    t.Keeps (t.dropColumn pos) cols where
  column col hcol k hk := by
    obtain ⟨k', hk', hsame⟩ := findColumn?_dropColumn hc (hcols col hcol) hk
    exact ⟨k', hk', (of_unplaced_eq hsame).2⟩
  covered hcov := by
    cases hcov with
    | inl hindex =>
      obtain ⟨i, ix, hi, hs, hcov⟩ := hindex
      have hix := List.mem_of_getElem? hi
      obtain ⟨hle, hcov⟩ := covers_dropColumn h hc hcols hix hcov
      have hempty : (shrunk c.name ix).columns ≠ [] := by
        intro hempty
        rw [hempty] at hle
        exact hnil (List.length_eq_zero_iff.1 (Nat.le_zero.1 hle))
      obtain ⟨j, hj⟩ := List.getElem?_of_mem
        ((mem_indices_dropColumn hc).2 ⟨ix, hix, hempty, rfl⟩)
      exact .inl ⟨j, _, hj, hs, hcov⟩
    | inr hhandle => exact .inr (isHandle_dropColumn h hc hcols hhandle)

end DropColumn

end Table

end Steward.Catalog
