import Steward.Proofs.View.Twins
import Steward.Proofs.World.Solo

/-!
This module contains the run of one job in two ledgers, which differ in tables that have nothing to
do with the job. It takes the same steps in both and ends in the same way, and the ledgers differ in
the same places afterwards.
-/

namespace Steward

open Catalog (ForeignKey Schema Table)
open Change (Job)
open Ledger

namespace Step

variable {P : Int → Int → Prop} {N N' : String → Prop} {M M' : String → String → Prop}
  {s s' : Store} {first first' j j' k : Job} {c : Solo} {stamp stamp' : Nat} {W W' : Snapshot}

/--
What is known of the tables of a job has nothing to do with what is known of the tables in some
places: in the schema of the job their names are others, and no constraint refers from one side to
the other.
-/
structure Apart (schemas : IdMap Schema) (j : Job) (N : String → Prop) (M : String → String → Prop)
    (P : Int → Int → Prop) (N' : String → Prop) (M' : String → String → Prop) : Prop where
  names : ∀ n n' b, N n → N' n' → P j.schemaId b → Text.same n' n = false
  parents : ∀ p q a b σ n', M p q → P a b → schemas.get? a = some σ → N' n' →
    ¬ (Text.same σ.name p = true ∧ Text.same n' q = true)
  children : ∀ p q n, M' p q → N n → ¬ (Text.same p j.schemaName = true ∧ Text.same q n = true)

/--
The same job is to take its next step in two ledgers, which differ only in places that have nothing
to do with it.
-/
structure Abreast (P : Int → Int → Prop) (N : String → Prop) (M : String → String → Prop)
    (N' : String → Prop) (M' : String → String → Prop) (s s' : Snapshot) (first first' : Job) :
    Prop where
  serves : s.Serves first
  serves' : s'.Serves first'
  twins : s.Twins P s'
  jobs : first.Twins first'
  own : ∀ a b, Reaches first a b → ¬ P a b
  means : first.Means N M
  known : Within N M (Reaches first) s.table?
  far : Within N' M' P s.table?
  far' : Within N' M' P s'.table?
  apart : Apart s.catalog.schemas first N M P N' M'

theorem started_twins (h : first.Twins first') : first.started.Twins first'.started := by
  unfold Job.started
  rw [h.status]
  split
  · exact { h with status := rfl }
  · exact h

namespace Abreast

variable {s s' : Snapshot}

theorem parents (h : Abreast P N M N' M' s s' first first') {fk : ForeignKey}
    (hfk : fk ∈ first.args.keys) :
    Constraint.SameParent (.ofSnapshot s) (.ofSnapshot s') fk := by
  apply View.table_twins h.serves.named h.serves'.named h.twins
  intro x y σ t hxy hσ ht
  apply h.apart.parents _ _ x y σ t.name (h.means.keys fk hfk) hxy hσ
  cases ht with
  | inl ht => exact h.far.name x y t hxy ht
  | inr ht => exact h.far'.name x y t hxy ht

theorem children (h : Abreast P N M N' M' s s' first first') {t : Table}
    (ht : s.table? first.schemaId first.tableId = some t) :
    Constraint.SameChildren (.ofSnapshot s) (.ofSnapshot s') first.schemaName t.name := by
  have hname : N t.name := h.known.name _ _ t ⟨rfl, .inl rfl⟩ ht
  apply View.referred_twins h.serves.named h.serves'.named h.twins
  intro x y u hxy hu fk hfk
  have hkey : M' fk.refSchema fk.refTable := by
    cases hu with
    | inl hu => exact h.far.keys x y u hxy hu fk hfk
    | inr hu => exact h.far'.keys x y u hxy hu fk hfk
  apply Bool.eq_false_iff.2
  intro hrefers
  exact h.apart.children _ _ _ hkey hname (Bool.and_eq_true_iff.1 hrefers)

theorem taken (h : Abreast P N M N' M' s s' first first') {name : String}
    (hname : name ∈ first.args.newName?) :
    (∃ b t, s'.table? first.schemaId b = some t ∧ Text.same t.name name = true) ↔
      ∃ b t, s.table? first.schemaId b = some t ∧ Text.same t.name name = true := by
  have hown := h.means.name name hname
  constructor
  · rintro ⟨b, t, ht, hsame⟩
    have hb : ¬ P first.schemaId b := by
      intro hb
      cases (h.apart.names _ _ b hown (h.far'.name _ b t hb ht) hb).symm.trans hsame
    obtain ⟨updated, ht'⟩ := h.twins.symm.exists_table? hb ht
    exact ⟨b, _, ht', hsame⟩
  · rintro ⟨b, t, ht, hsame⟩
    have hb : ¬ P first.schemaId b := by
      intro hb
      cases (h.apart.names _ _ b hown (h.far.name _ b t hb ht) hb).symm.trans hsame
    obtain ⟨updated, ht'⟩ := h.twins.exists_table? hb ht
    exact ⟨b, _, ht', hsame⟩

end Abreast

theorem Abreast.sees (h : Abreast P N M N' M' s.snapshot s'.snapshot first first') (c : Solo)
    (stamp stamp' : Nat) :
    Sees P (c.surroundings s stamp) (c.surroundings s' stamp') ⟨s.begin, first.started⟩
      ⟨s'.begin, first'.started⟩ := by
  have hstarted := Change.Job.follows_started first
  have hargs := (started_tells first).2
  constructor
  case twins => exact ⟨h.twins, started_twins h.jobs, rfl⟩
  case keyed => exact h.serves.ready.tidy.keyed
  case housed => exact h.serves.ready.housed
  case housed' => exact h.serves'.ready.housed
  case own =>
    dsimp only
    rw [reaches_follow hstarted]
    exact h.own
  case checks => rfl
  case parents =>
    dsimp only
    rw [hargs]
    exact fun fk hfk => h.parents hfk
  case children =>
    dsimp only
    rw [hstarted.schemaId, hstarted.tableId, hstarted.schemaName]
    exact fun t ht => h.children ht
  case taken =>
    dsimp only
    rw [hargs, hstarted.schemaId]
    exact fun name hname => h.taken hname

section Runs

variable {stamps stamps' : List Nat}

theorem Abreast.step (h : Abreast P N M N' M' s.snapshot s'.snapshot first first')
    (ht : c.Takes s stamp first W j) (ht' : c.Takes s' stamp' first' W' j') :
    W.Twins P W' ∧ j.Twins j' := by
  obtain ⟨-, hk, -⟩ := h.serves.ready.tidy.first_filed h.serves.ready.heads
  have hstarted := Change.Job.follows_started first
  have hwork := (h.sees c stamp stamp').standard (hstarted.kind_eq hk)
  have hpaired := hwork.serve c.reply (c.surroundings s stamp) (c.surroundings s' stamp')
  obtain ⟨what, hsettle⟩ := ht.settled
  obtain ⟨what', hsettle'⟩ := ht'.settled
  unfold Solo.served at hsettle hsettle'
  dsimp only at hpaired
  rw [hstarted.kind] at hpaired
  rw [h.jobs.kind, h.jobs.stage] at hsettle'
  have hleft := settle_twins hpaired h.twins first.stage hsettle hsettle'
  exact ⟨hleft.txn, hleft.job⟩

theorem twins_of_catalog {s s' : Snapshot} (h : W.Twins P W') (hs : s.catalog = W.catalog)
    (hs' : s'.catalog = W'.catalog) : s.Twins P s' := by
  obtain ⟨hschemas, htable⟩ := h
  unfold Snapshot.table? at htable
  rw [← hs, ← hs'] at hschemas htable
  exact ⟨hschemas, htable⟩

theorem Abreast.next (h : Abreast P N M N' M' s.snapshot s'.snapshot first first')
    (ht : c.Takes s stamp first W j) (ht' : c.Takes s' stamp' first' W' j')
    (hn : j.isFinished = false) :
    Abreast P N M N' M' (c.step s stamp).snapshot (c.step s' stamp').snapshot j j' := by
  obtain ⟨htwins, hjobs⟩ := h.step ht ht'
  have hreaches := reaches_follow ht.follows
  have hreaches' : Reaches first' = Reaches first := by
    funext a b
    unfold Reaches
    rw [h.jobs.schemaId, h.jobs.tableId, h.jobs.args]
  have hown (a b : Int) (hab : P a b) : ¬ Reaches first a b := fun hr => h.own a b hr hab
  constructor
  case serves => exact ht.serves hn
  case serves' => exact ht'.serves (hjobs.isFinished.trans hn)
  case twins => exact twins_of_catalog htwins ht.catalog ht'.catalog
  case jobs => exact hjobs
  case own =>
    rw [hreaches]
    exact h.own
  case means => exact h.means.follow ht.follows
  case known =>
    rw [hreaches]
    exact ht.passed.within N M h.means h.known
  case far =>
    exact within_of_others h.far fun a b hab => ht.passed.others a b (hown a b hab)
  case far' =>
    apply within_of_others h.far'
    intro a b hab
    apply ht'.passed.others
    rw [hreaches']
    exact hown a b hab
  case apart =>
    obtain ⟨hnames, hparents, hchildren⟩ := h.apart
    constructor
    · rw [ht.follows.schemaId]
      exact hnames
    · rw [ht.passed.schemas]
      exact hparents
    · rw [ht.follows.schemaName]
      exact hchildren

theorem Abreast.run (h : Abreast P N M N' M' s.snapshot s'.snapshot first first')
    (hf : s.file = none) (hf' : s'.file = none) (hd : Due c.limit stamps.length s.snapshot first)
    (hd' : Due c.limit stamps'.length s'.snapshot first') :
    (c.run s stamps).snapshot.Twins P (c.run s' stamps').snapshot ∧
      ∃ j j', (c.run s stamps).snapshot.history.get? first.id = some j ∧
        (c.run s' stamps').snapshot.history.get? first.id = some j' ∧ j.Twins j' := by
  -- The two runs may be given different numbers of steps, but the job is over after equally many.
  induction stamps generalizing s s' first first' stamps' with
  | nil => exact absurd hd (not_due_zero h.serves.ready)
  | cons stamp stamps ih =>
    cases stamps' with
    | nil => exact absurd hd' (not_due_zero h.serves'.ready)
    | cons stamp' stamps' =>
      obtain ⟨W, j, ht⟩ := Solo.takes h.serves hf c stamp
      obtain ⟨W', j', ht'⟩ := Solo.takes h.serves' hf' c stamp'
      have hjobs := (h.step ht ht').2
      have hrun : c.run s (stamp :: stamps) = c.run (c.step s stamp) stamps := rfl
      have hrun' : c.run s' (stamp' :: stamps') = c.run (c.step s' stamp') stamps' := rfl
      rw [hrun, hrun']
      cases hover : j.isFinished with
      | true =>
        obtain ⟨hrested, hhistory⟩ := ht.rested hover
        obtain ⟨hrested', hhistory'⟩ := ht'.rested (hjobs.isFinished.trans hover)
        rw [Solo.run_idle (Snapshot.firstJob?_eq_none_iff.2 hrested.idle),
          Solo.run_idle (Snapshot.firstJob?_eq_none_iff.2 hrested'.idle)]
        rw [h.jobs.id] at hhistory'
        exact ⟨twins_of_catalog (h.step ht ht').1 ht.catalog ht'.catalog, j, j', hhistory, hhistory',
          hjobs⟩
      | false =>
        have hdue := (ht.due stamps.length hd).resolve_left (hover ▸ Bool.false_ne_true)
        have hdue' := (ht'.due stamps'.length hd').resolve_left (by
          rw [hjobs.isFinished, hover]
          exact Bool.false_ne_true)
        rw [← ht.follows.id]
        exact ih (h.next ht ht' hover) ht.file ht'.file hdue hdue'

end Runs

end Step

end Steward
