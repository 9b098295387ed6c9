import Steward.Proofs.Constraint.Removal
import Steward.Proofs.Step.Agreement
import Steward.Proofs.View

/-!
This module contains the integrity of foreign keys under single changes of a catalog: a constraint
is anchored if the table that it refers to is there and fits, and it stays anchored while tables are
replaced by others that keep its columns, created, removed or moved.
-/

namespace Steward

open Catalog (Fits ForeignKey Part Schema Stage Table)
open Change (Args Job)
open Ledger (Snapshot Txn)

namespace Catalog.ForeignKey

structure SameEnds (fk fk' : ForeignKey) : Prop where
  refSchema : fk'.refSchema = fk.refSchema
  refTable : fk'.refTable = fk.refTable
  cols : fk'.cols = fk.cols
  refCols : fk'.refCols = fk.refCols

theorem SameEnds.refl (fk : ForeignKey) : fk.SameEnds fk := ⟨rfl, rfl, rfl, rfl⟩

end Catalog.ForeignKey

namespace Step

variable {S : IdMap Schema} {f f' : Int → Int → Option Table} {x y x₀ y₀ px py : Int}
  {t t' child child' parent : Table} {fk fk' : ForeignKey} {σ : Schema}

def Unambiguous (S : IdMap Schema) : Prop :=
  ∀ x x' σ σ', S.get? x = some σ → S.get? x' = some σ' → Text.same σ.name σ'.name = true → x = x'

def RefersAt (S : IdMap Schema) (f : Int → Int → Option Table) (fk : ForeignKey) (x y : Int) :
    Prop :=
  ∃ σ t, S.get? x = some σ ∧ f x y = some t ∧ Text.same σ.name fk.refSchema = true ∧
    Text.same t.name fk.refTable = true

/--
A constraint of the table `child`, which stands at `x` and `y`, refers to the table at `px` and
`py`: that one is public unless it is the same table, and the constraint fits.
-/
structure Anchor (S : IdMap Schema) (f : Int → Int → Option Table) (x y : Int) (child : Table)
    (fk : ForeignKey) (px py : Int) (σ : Schema) (parent : Table) : Prop where
  schema : S.get? px = some σ
  schemaName : Text.same σ.name fk.refSchema = true
  table : f px py = some parent
  tableName : Text.same parent.name fk.refTable = true
  live : parent.stage = .live ∨ px = x ∧ py = y
  fits : Fits parent child fk

def Anchored (S : IdMap Schema) (f : Int → Int → Option Table) (x y : Int) (child : Table)
    (fk : ForeignKey) : Prop :=
  ∃ px py σ parent, Anchor S f x y child fk px py σ parent

/--
Every enforced constraint is anchored, all tables are well formed, and no two tables of a schema
have the same name.
-/
structure Intact (S : IdMap Schema) (f : Int → Int → Option Table) : Prop where
  anchored : ∀ x y t, f x y = some t → ∀ fk ∈ t.foreignKeys, fk.isEnforced = true →
    Anchored S f x y t fk
  wellFormed : ∀ x y t, f x y = some t → t.WellFormed
  names : ∀ x y y' t t', f x y = some t → f x y' = some t' → Text.same t.name t'.name = true →
    y = y'

theorem Anchor.refersAt (h : Anchor S f x y child fk px py σ parent) : RefersAt S f fk px py :=
  ⟨σ, parent, h.schema, h.table, h.schemaName, h.tableName⟩

theorem Anchor.place (ha : Anchor S f x y child fk px py σ parent) (h : Intact S f)
    (hS : Unambiguous S) (hr : RefersAt S f fk x₀ y₀) : px = x₀ ∧ py = y₀ := by
  obtain ⟨τ, u, hτ, hu, hschema, htable⟩ := hr
  rw [Text.same_comm] at hschema htable
  have hx : px = x₀ := hS px x₀ σ τ ha.schema hτ (Text.same_trans ha.schemaName hschema)
  refine ⟨hx, ?_⟩
  have hparent := ha.table
  rw [hx] at hparent
  exact h.names x₀ py y₀ parent u hparent hu (Text.same_trans ha.tableName htable)

theorem Intact.live_of_refersAt (h : Intact S f) (hS : Unambiguous S) (ht : f x₀ y₀ = some t)
    (hchild : f x y = some child) (hne : ¬ (x = x₀ ∧ y = y₀)) (hfk : fk ∈ child.foreignKeys)
    (he : fk.isEnforced = true) (hr : RefersAt S f fk x₀ y₀) : t.stage = .live := by
  obtain ⟨px, py, σ, parent, ha⟩ := h.anchored x y child hchild fk hfk he
  obtain ⟨rfl, rfl⟩ := ha.place h hS hr
  have hparent := ha.table
  rw [ht] at hparent
  cases hparent
  apply ha.live.resolve_right
  intro hself
  exact hne ⟨hself.1.symm, hself.2.symm⟩

section Puts

theorem Puts.other (h : Puts f x₀ y₀ t' f') (hne : ¬ (x = x₀ ∧ y = y₀)) : f' x y = f x y := by
  rw [h]
  exact if_neg hne

theorem names_puts (h : Intact S f) (hf : Puts f x₀ y₀ t' f')
    (hname : ∀ y t, f x₀ y = some t → Text.same t.name t'.name = true → y = y₀) :
    ∀ x y y' t t', f' x y = some t → f' x y' = some t' → Text.same t.name t'.name = true →
      y = y' := by
  intro x y y' u u' hu hu' hsame
  rw [hf] at hu hu'
  split at hu
  · next hxy =>
    cases hu
    split at hu'
    · next hxy' => rw [hxy.2, hxy'.2]
    · rw [hxy.1] at hu'
      rw [Text.same_comm] at hsame
      rw [hxy.2, hname y' u' hu' hsame]
  · split at hu'
    · next hxy' =>
      cases hu'
      rw [hxy'.1] at hu
      rw [hxy'.2, hname y u hu hsame]
    · exact h.names x y y' u u' hu hu' hsame

theorem Anchored.puts (h : Anchored S f x y child fk) (ht : f x₀ y₀ = some t)
    (hf : Puts f x₀ y₀ t' f') (hname : t'.name = t.name) (he : fk.SameEnds fk')
    (hchild : child.Keeps child' fk.cols)
    (hparent : RefersAt S f fk x₀ y₀ →
      t.Keeps t' fk.refCols ∧ (t'.stage = .live ∨ x₀ = x ∧ y₀ = y)) :
    Anchored S f' x y child' fk' := by
  obtain ⟨px, py, σ, parent, ha⟩ := h
  -- The parent is the table that is replaced, or it stays as it is.
  by_cases hplace : px = x₀ ∧ py = y₀
  · obtain ⟨rfl, rfl⟩ := hplace
    have hsame := ha.table
    rw [ht] at hsame
    cases hsame
    obtain ⟨hkeeps, hlive⟩ := hparent ha.refersAt
    refine ⟨px, py, σ, t', ha.schema, ?_, hf.self, ?_, hlive, ?_⟩
    · rw [he.refSchema]
      exact ha.schemaName
    · rw [hname, he.refTable]
      exact ha.tableName
    · exact (ha.fits.keeps hchild hkeeps).congr he.cols he.refCols
  · refine ⟨px, py, σ, parent, ha.schema, ?_, ?_, ?_, ha.live, ?_⟩
    · rw [he.refSchema]
      exact ha.schemaName
    · rw [hf.other hplace]
      exact ha.table
    · rw [he.refTable]
      exact ha.tableName
    · exact (ha.fits.keeps hchild (.refl _ _)).congr he.cols he.refCols

/--
What a table must keep that takes the place of another one: its name, what its constraints refer
to, and what the constraints on either side need.
-/
structure Replaces (S : IdMap Schema) (f : Int → Int → Option Table) (x₀ y₀ : Int)
    (t t' : Table) : Prop where
  name : t'.name = t.name
  wellFormed : t'.WellFormed
  keys : ∀ fk' ∈ t'.foreignKeys, fk'.isEnforced = true →
    ∃ fk, fk.SameEnds fk' ∧ Anchored S f x₀ y₀ t fk
  child : ∀ fk ∈ t'.foreignKeys, fk.isEnforced = true → t.Keeps t' fk.cols
  selfParent : ∀ fk ∈ t'.foreignKeys, fk.isEnforced = true → RefersAt S f fk x₀ y₀ →
    t.Keeps t' fk.refCols
  parent : ∀ x y u, f x y = some u → ¬ (x = x₀ ∧ y = y₀) → ∀ fk ∈ u.foreignKeys,
    fk.isEnforced = true → RefersAt S f fk x₀ y₀ → t.Keeps t' fk.refCols ∧ t'.stage = .live

theorem refersAt_of_sameEnds (he : fk.SameEnds fk') (h : RefersAt S f fk x y) :
    RefersAt S f fk' x y := by
  unfold RefersAt at h ⊢
  rw [he.refSchema, he.refTable]
  exact h

theorem Intact.replace (h : Intact S f) (ht : f x₀ y₀ = some t) (hr : Replaces S f x₀ y₀ t t')
    (hf : Puts f x₀ y₀ t' f') : Intact S f' where
  anchored x y u hu fk hfk he := by
    -- The constraints of the new table stem from the old one, those of others may refer to it.
    by_cases hplace : x = x₀ ∧ y = y₀
    · obtain ⟨rfl, rfl⟩ := hplace
      rw [hf.self] at hu
      cases hu
      obtain ⟨old, hends, hold⟩ := hr.keys fk hfk he
      apply hold.puts ht hf hr.name hends
      · rw [← hends.cols]
        exact hr.child fk hfk he
      · intro hrefers
        rw [← hends.refCols]
        exact ⟨hr.selfParent fk hfk he (refersAt_of_sameEnds hends hrefers), .inr ⟨rfl, rfl⟩⟩
    · rw [hf.other hplace] at hu
      apply (h.anchored x y u hu fk hfk he).puts ht hf hr.name (.refl fk) (.refl _ _)
      intro hrefers
      obtain ⟨hkeeps, hlive⟩ := hr.parent x y u hu hplace fk hfk he hrefers
      exact ⟨hkeeps, .inl hlive⟩
  wellFormed x y u hu := by
    rw [hf] at hu
    split at hu
    · cases hu
      exact hr.wellFormed
    · exact h.wellFormed x y u hu
  names := by
    apply names_puts h hf
    intro y u hu hsame
    rw [hr.name] at hsame
    exact h.names x₀ y y₀ u t hu ht hsame

theorem replaces_of_alike (h : Intact S f) (ht : f x₀ y₀ = some t) (ha : t.Alike t')
    (hname : t'.name = t.name)
    (hkeys : ∀ fk' ∈ t'.foreignKeys, fk'.isEnforced = true →
      ∃ fk, fk.SameEnds fk' ∧ Anchored S f x₀ y₀ t fk)
    (hlive : ∀ x y u, f x y = some u → ¬ (x = x₀ ∧ y = y₀) → ∀ fk ∈ u.foreignKeys,
      fk.isEnforced = true → RefersAt S f fk x₀ y₀ → t'.stage = .live) :
    Replaces S f x₀ y₀ t t' where
  name := hname
  wellFormed := ha.wellFormed (h.wellFormed x₀ y₀ t ht)
  keys := hkeys
  child fk _ _ := ha.keeps fk.cols
  selfParent fk _ _ _ := ha.keeps fk.refCols
  parent x y u hu hne fk hfk he hr := ⟨ha.keeps fk.refCols, hlive x y u hu hne fk hfk he hr⟩

theorem Intact.keys {fks : List ForeignKey} (h : Intact S f) (ht : f x₀ y₀ = some t)
    (hfk : fks ⊆ t.foreignKeys) : ∀ fk' ∈ fks, fk'.isEnforced = true →
      ∃ fk, fk.SameEnds fk' ∧ Anchored S f x₀ y₀ t fk :=
  fun fk hmem he => ⟨fk, .refl fk, h.anchored x₀ y₀ t ht fk (hfk hmem) he⟩

inductive Used (S : IdMap Schema) (f : Int → Int → Option Table) (x₀ y₀ : Int) :
    List String → Prop where
  | own (t : Table) (ht : f x₀ y₀ = some t) (fk : ForeignKey) (hfk : fk ∈ t.foreignKeys)
      (he : fk.isEnforced = true) :
    Used S f x₀ y₀ fk.cols
  | referred (x y : Int) (t : Table) (ht : f x y = some t) (fk : ForeignKey)
      (hfk : fk ∈ t.foreignKeys) (he : fk.isEnforced = true) (hr : RefersAt S f fk x₀ y₀) :
    Used S f x₀ y₀ fk.refCols

theorem Used.ne_nil {cols : List String} (hu : Used S f x₀ y₀ cols) (h : Intact S f) :
    cols ≠ [] := by
  cases hu with
  | own t ht fk hfk he =>
    obtain ⟨_, _, _, _, ha⟩ := h.anchored _ _ t ht fk hfk he
    exact ha.fits.nonempty
  | referred x y t ht fk hfk he =>
    obtain ⟨_, _, _, _, ha⟩ := h.anchored x y t ht fk hfk he
    intro hnil
    have hlength := ha.fits.length
    rw [hnil] at hlength
    exact ha.fits.nonempty (List.length_eq_zero_iff.1 hlength)

theorem replaces_of_keeps (h : Intact S f) (ht : f x₀ y₀ = some t) (hname : t'.name = t.name)
    (hw : t'.WellFormed) (hfk : t'.foreignKeys = t.foreignKeys) (hl : t'.stage = .live)
    (hkeeps : ∀ cols, Used S f x₀ y₀ cols → t.Keeps t' cols) : Replaces S f x₀ y₀ t t' where
  name := hname
  wellFormed := hw
  keys := h.keys ht (fun _ hmem => hfk ▸ hmem)
  child fk hmem he := hkeeps _ (.own t ht fk (hfk ▸ hmem) he)
  selfParent fk hmem he hr := hkeeps _ (.referred x₀ y₀ t ht fk (hfk ▸ hmem) he hr)
  parent x y u hu _ fk hmem he hr := ⟨hkeeps _ (.referred x y u hu fk hmem he hr), hl⟩

theorem Replaces.stamped (h : Replaces S f x₀ y₀ t t') (stamp : Nat) :
    Replaces S f x₀ y₀ t { t' with updated := stamp } where
  name := h.name
  wellFormed := (t'.alike_stamped stamp).wellFormed h.wellFormed
  keys := h.keys
  child fk hmem he := (h.child fk hmem he).trans ((t'.alike_stamped stamp).keeps _)
  selfParent fk hmem he hr :=
    (h.selfParent fk hmem he hr).trans ((t'.alike_stamped stamp).keeps _)
  parent x y u hu hne fk hmem he hr := by
    obtain ⟨hkeeps, hl⟩ := h.parent x y u hu hne fk hmem he hr
    exact ⟨hkeeps.trans ((t'.alike_stamped stamp).keeps _), hl⟩

end Puts

section Create

theorem Anchored.create (h : Anchored S f x y child fk) (hfree : f x₀ y₀ = none)
    (hf : Puts f x₀ y₀ t' f') : Anchored S f' x y child fk := by
  obtain ⟨px, py, σ, parent, ha⟩ := h
  refine ⟨px, py, σ, parent, ha.schema, ha.schemaName, ?_, ha.tableName, ha.live, ha.fits⟩
  rw [hf.other]
  · exact ha.table
  · rintro ⟨rfl, rfl⟩
    rw [ha.table] at hfree
    cases hfree

theorem Intact.create (h : Intact S f) (hfree : f x₀ y₀ = none) (hf : Puts f x₀ y₀ t' f')
    (hw : t'.WellFormed) (hname : ∀ y t, f x₀ y = some t → Text.same t.name t'.name = false)
    (hkeys : ∀ fk ∈ t'.foreignKeys, fk.isEnforced = true → Anchored S f' x₀ y₀ t' fk) :
    Intact S f' where
  anchored x y u hu fk hfk he := by
    rw [hf] at hu
    split at hu
    · next hplace =>
      obtain ⟨rfl, rfl⟩ := hplace
      cases hu
      exact hkeys fk hfk he
    · exact (h.anchored x y u hu fk hfk he).create hfree hf
  wellFormed x y u hu := by
    rw [hf] at hu
    split at hu
    · cases hu
      exact hw
    · exact h.wellFormed x y u hu
  names := by
    apply names_puts h hf
    intro y u hu hsame
    rw [hname y u hu] at hsame
    cases hsame

end Create

section Remove

theorem Intact.remove (h : Intact S f)
    (hf : ∀ a b, f' a b = if a = x₀ ∧ b = y₀ then none else f a b)
    (hstage : ∀ t, f x₀ y₀ = some t → t.stage ≠ .live) : Intact S f' := by
  have hkept {x y : Int} {u : Table} (hu : f' x y = some u) :
      f x y = some u ∧ ¬ (x = x₀ ∧ y = y₀) := by
    rw [hf] at hu
    split at hu
    · cases hu
    · next hne => exact ⟨hu, hne⟩
  constructor
  · intro x y u hu fk hfk he
    obtain ⟨hu, hne⟩ := hkept hu
    obtain ⟨px, py, σ, parent, ha⟩ := h.anchored x y u hu fk hfk he
    refine ⟨px, py, σ, parent, ha.schema, ha.schemaName, ?_, ha.tableName, ha.live, ha.fits⟩
    rw [hf, if_neg]
    · exact ha.table
    · rintro ⟨rfl, rfl⟩
      cases ha.live with
      | inl hl => exact hstage parent ha.table hl
      | inr hself => exact hne ⟨hself.1.symm, hself.2.symm⟩
  · intro x y u hu
    exact h.wellFormed x y u (hkept hu).1
  · intro x y y' u u' hu hu'
    exact h.names x y y' u u' (hkept hu).1 (hkept hu').1

end Remove

section Move

variable {x' y' y₁ : Int} {u u' : Table}

/--
`f'` is `f` with a table moved to another place of its schema.
-/
def Moved (f : Int → Int → Option Table) (x₀ y₀ y₁ : Int) (t' : Table)
    (f' : Int → Int → Option Table) : Prop :=
  ∀ a b, f' a b = if a = x₀ ∧ b = y₁ then some t' else if a = x₀ ∧ b = y₀ then none else f a b

theorem Moved.self (h : Moved f x₀ y₀ y₁ t' f') : f' x₀ y₁ = some t' := by
  rw [h]
  exact if_pos ⟨rfl, rfl⟩

theorem Moved.was (h : Moved f x₀ y₀ y₁ t' f') (hu : f' x y = some u) :
    (x = x₀ ∧ y = y₁ ∧ u = t') ∨ (¬ (x = x₀ ∧ y = y₀) ∧ f x y = some u) := by
  rw [h] at hu
  split at hu
  · next hplace =>
    cases hu
    exact .inl ⟨hplace.1, hplace.2, rfl⟩
  · split at hu
    · cases hu
    · next hne => exact .inr ⟨hne, hu⟩

theorem Moved.other (h : Moved f x₀ y₀ y₁ t' f') (hfree : y₁ ≠ y₀ → f x₀ y₁ = none)
    (hu : f x y = some u) (hne : ¬ (x = x₀ ∧ y = y₀)) : f' x y = some u := by
  rw [h, if_neg, if_neg hne]
  · exact hu
  · rintro ⟨rfl, rfl⟩
    rw [hfree fun heq => hne ⟨rfl, heq⟩] at hu
    cases hu

theorem Anchored.move (hu : Anchored S f x y u fk) (ht : f x₀ y₀ = some t)
    (h : Moved f x₀ y₀ y₁ t' f') (hfree : y₁ ≠ y₀ → f x₀ y₁ = none) (ha : t.Alike t')
    (hname : t'.name = t.name) (hstage : t'.stage = t.stage) (hkeeps : u.Keeps u' fk.cols)
    (hplace : x = x₀ ∧ y = y₀ ∧ x' = x₀ ∧ y' = y₁ ∨ ¬ (x = x₀ ∧ y = y₀) ∧ x' = x ∧ y' = y) :
    Anchored S f' x' y' u' fk := by
  -- The parent is found where it stands now, and the place of the child is the new one just if the
  -- child is the table that moved.
  obtain ⟨px, py, σ, parent, hanchor⟩ := hu
  -- The parent is the table that moves, or it stays where it is.
  by_cases hp : px = x₀ ∧ py = y₀
  · obtain ⟨rfl, rfl⟩ := hp
    have hparent := hanchor.table
    rw [ht] at hparent
    cases hparent
    refine ⟨px, y₁, σ, t', hanchor.schema, hanchor.schemaName, h.self, ?_, ?_, ?_⟩
    · rw [hname]
      exact hanchor.tableName
    · rw [hstage]
      apply hanchor.live.imp_right
      intro hself
      cases hplace with
      | inl hmoved => exact ⟨hmoved.2.2.1.symm, hmoved.2.2.2.symm⟩
      | inr hkept => exact absurd ⟨hself.1.symm, hself.2.symm⟩ hkept.1
    · exact hanchor.fits.keeps hkeeps (ha.keeps _)
  · refine ⟨px, py, σ, parent, hanchor.schema, hanchor.schemaName, h.other hfree hanchor.table hp,
      hanchor.tableName, ?_, hanchor.fits.keeps hkeeps (.refl _ _)⟩
    apply hanchor.live.imp_right
    intro hself
    cases hplace with
    | inl hmoved => exact absurd ⟨hself.1.trans hmoved.1, hself.2.trans hmoved.2.1⟩ hp
    | inr hkept => exact ⟨hself.1.trans hkept.2.1.symm, hself.2.trans hkept.2.2.symm⟩

theorem names_move (h : Intact S f) (ht : f x₀ y₀ = some t) (hf : Moved f x₀ y₀ y₁ t' f')
    (hname : t'.name = t.name) : ∀ x y y' u u', f' x y = some u → f' x y' = some u' →
      Text.same u.name u'.name = true → y = y' := by
  intro x y y' u u' hu hu' hsame
  cases hf.was hu with
  | inl hmoved =>
    obtain ⟨rfl, rfl, rfl⟩ := hmoved
    cases hf.was hu' with
    | inl hmoved' => exact hmoved'.2.1.symm
    | inr hkept' =>
      rw [hname] at hsame
      exact absurd ⟨rfl, (h.names _ _ _ _ _ ht hkept'.2 hsame).symm⟩ hkept'.1
  | inr hkept =>
    cases hf.was hu' with
    | inl hmoved' =>
      obtain ⟨rfl, rfl, rfl⟩ := hmoved'
      rw [hname] at hsame
      exact absurd ⟨rfl, h.names _ _ _ _ _ hkept.2 ht hsame⟩ hkept.1
    | inr hkept' => exact h.names x y y' u u' hkept.2 hkept'.2 hsame

theorem Intact.move (h : Intact S f) (ht : f x₀ y₀ = some t) (hfree : y₁ ≠ y₀ → f x₀ y₁ = none)
    (ha : t.Alike t') (hname : t'.name = t.name) (hstage : t'.stage = t.stage)
    (hkeys : t'.foreignKeys = t.foreignKeys) (hf : Moved f x₀ y₀ y₁ t' f') : Intact S f' where
  anchored x y u hu fk hfk he := by
    cases hf.was hu with
    | inl hmoved =>
      obtain ⟨rfl, rfl, rfl⟩ := hmoved
      rw [hkeys] at hfk
      exact (h.anchored _ _ _ ht fk hfk he).move ht hf hfree ha hname hstage (ha.keeps _)
        (.inl ⟨rfl, rfl, rfl, rfl⟩)
    | inr hkept =>
      exact (h.anchored x y u hkept.2 fk hfk he).move ht hf hfree ha hname hstage (.refl _ _)
        (.inr ⟨hkept.1, rfl, rfl⟩)
  wellFormed x y u hu := by
    cases hf.was hu with
    | inl hmoved =>
      rw [hmoved.2.2]
      exact ha.wellFormed (h.wellFormed _ _ _ ht)
    | inr hkept => exact h.wellFormed x y u hkept.2
  names := names_move h ht hf hname

end Move

section View

variable {v : View} {schema name : String}

/--
The view shows the tables as they are: what it finds is there and public, and it knows the
constraints of all public tables.
-/
structure Faithful (S : IdMap Schema) (f : Int → Int → Option Table) (v : View) : Prop where
  names : Unambiguous S
  table : ∀ schema table t, v.table schema table = .ok t → ∃ x y σ, S.get? x = some σ ∧
    Text.same σ.name schema = true ∧ f x y = some t ∧ Text.same t.name table = true ∧
    t.stage = .live
  referred : ∀ x y t, f x y = some t → t.stage = .live → ∀ fk ∈ t.foreignKeys,
    fk.isEnforced = true → ∀ schema table, fk.refersTo schema table = true →
    ∃ σ, S.get? x = some σ ∧ ⟨fk.refCols, σ.name, t.name, fk.name⟩ ∈ v.referred schema table

theorem refersTo_of_refersAt (hσ : S.get? x = some σ) (hname : Text.same σ.name schema = true)
    (ht : f x y = some t) (h : RefersAt S f fk x y) : fk.refersTo schema t.name = true := by
  obtain ⟨τ, u, hτ, hu, hschema, htable⟩ := h
  rw [hσ] at hτ
  cases hτ
  rw [ht] at hu
  cases hu
  unfold ForeignKey.refersTo
  rw [Bool.and_eq_true_iff]
  constructor
  · rw [Text.same_comm] at hschema
    exact Text.same_trans hschema hname
  · rw [Text.same_comm]
    exact htable

theorem refersAt_of_refersTo (hσ : S.get? x = some σ) (hname : Text.same σ.name schema = true)
    (ht : f x y = some t) (h : fk.refersTo schema t.name = true) : RefersAt S f fk x y := by
  obtain ⟨hschema, htable⟩ := Bool.and_eq_true_iff.1 h
  refine ⟨σ, t, hσ, ht, ?_, ?_⟩
  · rw [Text.same_comm] at hschema
    exact Text.same_trans hname hschema
  · rw [Text.same_comm]
    exact htable

theorem anchored_of_findsParent
    (hv : ∀ schema table t, v.table schema table = .ok t → ∃ x y σ, S.get? x = some σ ∧
      Text.same σ.name schema = true ∧ f x y = some t ∧ Text.same t.name table = true ∧
      t.stage = .live)
    (hσ : S.get? x = some σ) (hname : Text.same σ.name schema = true) (hchild : f x y = some child')
    (ha : child.Alike child') (hsame : child'.name = child.name)
    (hp : Constraint.FindsParent v schema child fk parent) (hfits : Fits parent child fk)
    (he : fk.SameEnds fk') : Anchored S f x y child' fk' := by
  have hfits' {parent' : Table} (hkeeps : parent.Keeps parent' fk.refCols) :
      Fits parent' child' fk' := (hfits.keeps (ha.keeps _) hkeeps).congr he.cols he.refCols
  unfold Anchored
  cases hp with
  | inl hself =>
    obtain ⟨hrefers, rfl⟩ := hself
    rw [← hsame] at hrefers
    obtain ⟨τ, u, hτ, hu, hschema, htable⟩ := refersAt_of_refersTo hσ hname hchild hrefers
    rw [hchild] at hu
    cases hu
    refine ⟨x, y, τ, child', hτ, ?_, hchild, ?_, .inr ⟨rfl, rfl⟩, hfits' (ha.keeps _)⟩
    · rw [he.refSchema]
      exact hschema
    · rw [he.refTable]
      exact htable
  | inr hfound =>
    obtain ⟨px, py, τ, hτ, hschema, hparent, htable, hl⟩ := hv _ _ _ hfound
    refine ⟨px, py, τ, parent, hτ, ?_, hparent, ?_, .inl hl, hfits' (.refl _ _)⟩
    · rw [he.refSchema]
      exact hschema
    · rw [he.refTable]
      exact htable

end View

end Step

end Steward
