import Steward.Proofs.Step.Safety
import Steward.Proofs.World.Agreement

/-!
This module contains the integrity of foreign keys: `foreign_keys_fit` says that the table that a
constraint of a public table refers to is public, and that the constraint fits both tables, as long
as all statements ask for the checks of foreign keys and these stay switched on.
-/

namespace Steward

open Catalog (Fits Schema Table)
open Change (Args Job)
open Engine (Statement)
open Ledger
open Step (Faithful Intact RefersAt Safe)

namespace Engine.Statement

/--
The statement asks for the checks of foreign keys, and a table that it creates is well formed. A
table is truncated just as well without checks.
-/
def Careful : Statement → Prop
  | .createTable _ table check => check = true ∧ table.WellFormed
  | .addForeignKey _ _ _ check | .dropTable _ _ check => check = true
  | _ => True

theorem careful_of_asks {st : Statement} {args : Args} (h : st.Careful) (ha : st.Asks args) :
    args.Careful := by
  cases ha with
  | createTable => exact h
  | addForeignKey => exact h
  | dropTable => exact h
  | dropForeignKey => trivial
  | truncateTable => trivial
  | dropIndex => trivial
  | dropColumn => trivial

end Engine.Statement

namespace Ledger

structure Placed (s : Snapshot) (j : Job) : Prop where
  schema : ∃ σ, s.catalog.schemas.get? j.schemaId = some σ ∧ Text.same σ.name j.schemaName = true
  careful : j.args.Careful

/--
A snapshot whose catalog is intact, and safe while its first job is on its way.
-/
structure Whole (s : Snapshot) : Prop where
  named : s.Named
  intact : Intact s.catalog.schemas s.table?
  concerted : Concerted false s
  placed : ∀ id j, s.jobs.get? id = some j → Placed s j
  safe : ∀ j, s.firstJob? = some j → Safe s.catalog.schemas s.table? j

variable {R : Rules} {Q : Snapshot → Prop} {limit : Nat} {s s' b W p : Snapshot} {first j : Job}
  {σ : Schema} {v : View}

theorem whole_initial : Whole .initial where
  named := by
    constructor
    · intro x σ h
      cases h
    · intro x σ h
      cases h
    · intro x x' σ σ' h
      cases h
    · intro x y y' t t' h
      cases h
  intact := by
    constructor
    · intro x y t h
      cases h
    · intro x y t h
      cases h
    · intro x y y' t t' h
      cases h
  concerted := concerted_initial
  placed id j h := by cases h
  safe j h := by cases h

theorem Placed.mono (h : Placed s j) (hs : s.Precedes s') : Placed s' j where
  schema := by
    obtain ⟨σ, hσ, hname⟩ := h.schema
    exact ⟨σ, hs.schema _ σ hσ, hname⟩
  careful := h.careful

theorem Placed.follow {j' : Job} (h : Placed s j) (hj : j.Follows j') : Placed s j' where
  schema := by
    rw [hj.schemaId, hj.schemaName]
    exact h.schema
  careful := Step.careful_of_follows hj h.careful

theorem Whole.calm (h : Whole s) (hs : s.Tidy) (hs' : s'.Tidy) (hc : s.Calm s')
    (hnamed : s'.Named) (hconcerted : Concerted false s')
    (hnew : ∀ id j, s'.jobs.get? id = some j → s.jobs.get? id = some j ∨
      j.stage = j.kind.initial ∧ Placed s' j) : Whole s' := by
  have htable : s'.table? = s.table? := hc.table_eq
  have hintact : Intact s'.catalog.schemas s'.table? := by
    rw [htable]
    exact h.intact.grow hc.schema
  refine ⟨hnamed, hintact, hconcerted, ?_, ?_⟩
  · intro id j hj
    cases hnew id j hj with
    | inl hold => exact (h.placed id j hold).mono hc.toPrecedes
    | inr hplaced => exact hplaced.2
  · intro j hj
    cases hfirst : s.firstJob? with
    | some i =>
      have hi := hc.firstJob? hs hs' hfirst
      rw [hj] at hi
      cases hi
      rw [htable]
      exact (h.safe j hfirst).grow hc.schema hs.keyed.schema
    | none =>
      refine ⟨hintact, ?_⟩
      intro name _ hi
      cases hnew j.id j ((Snapshot.firstJob?_eq_some_iff hs').1 hj).1 with
      | inl hold =>
        rw [Snapshot.firstJob?_eq_none_iff.1 hfirst] at hold
        cases hold
      | inr hinit =>
        rw [hinit.1] at hi
        exact absurd hi (Change.Kind.initial_not_mem_intermediate _)

theorem placed_of_made {st : Statement} (hst : st.Careful) (hp : Shows Q v p) (hnamed : p.Named)
    (hs : p.Precedes s) (hσ : v.schema? st.schema = some σ) (hm : st.Makes σ j) : Placed s j where
  schema := by
    rw [hp.view] at hσ
    obtain ⟨x, hx, hname⟩ := View.schema?_ofSnapshot hσ
    refine ⟨σ, ?_, ?_⟩
    · rw [hm.schemaId, hnamed.filed x σ hx]
      exact hs.schema x σ hx
    · cases hm.schemaName with
      | inl hstatement => exact hstatement ▸ hname
      | inr hown =>
        rw [hown]
        exact beq_self_eq_true _
  careful := Statement.careful_of_asks hst hm.asks

theorem Submitted.whole (h : Submitted R Q s s' j) (hs : s.Tidy) (hQ : ∀ s, Q s → Whole s)
    (hw : Whole s) (hR : ∀ st, R.statement st → st.Careful) (hconcerted : Concerted false s') :
    Whole s' := by
  obtain ⟨st, σ, v, p, hst, hp, hps, hσ, hmade⟩ := h.made
  have hcalm := h.calm
  apply hw.calm hs (h.tidy hs) hcalm _ hconcerted
  · intro id i hi
    have hid := congrArg Prod.fst (h.record id)
    split at hid
    · cases hi.symm.trans hid
      exact .inr ⟨hmade.stage, placed_of_made (hR st hst) hp (hQ p hp.holds).named
        (hps.trans hcalm.toPrecedes) hσ hmade⟩
    · exact .inl (hid.symm.trans hi)
  · constructor
    · rw [h.catalog]
      exact hw.named.filed
    · rw [h.catalog]
      exact hw.named.live
    · rw [h.catalog]
      exact hw.named.schema
    · intro x y y' t t' ht ht'
      rw [hcalm.table] at ht ht'
      exact hw.named.table x y y' t t' ht ht'

theorem Founded.named (h : Founded s s' σ) (hs : s.Named) : s'.Named := by
  constructor
  · intro x τ hτ
    rw [h.schemas] at hτ
    split at hτ
    · next hx =>
      cases hτ
      exact hx.symm
    · exact hs.filed x τ hτ
  · intro x τ hτ
    rw [h.schemas] at hτ
    split at hτ
    · cases hτ
      exact h.stage
    · exact hs.live x τ hτ
  · intro x x' τ τ' hτ hτ' hsame
    rw [h.schemas] at hτ hτ'
    split at hτ
    · next hx =>
      cases hτ
      split at hτ'
      · next hx' => rw [hx, hx']
      · rw [Text.same_comm, h.name x' τ' hτ'] at hsame
        cases hsame
    · split at hτ'
      · cases hτ'
        rw [h.name x τ hτ] at hsame
        cases hsame
      · exact hs.schema x x' τ τ' hτ hτ' hsame
  · intro x y y' t t' ht ht'
    rw [h.table] at ht ht'
    exact hs.table x y y' t t' ht ht'

theorem Founded.whole (h : Founded s s' σ) (hs : s.Tidy) (hw : Whole s) : Whole s' := by
  apply hw.calm hs (h.tidy hs) h.calm (h.named hw.named) (h.concerted hs hw.concerted)
  intro id j hj
  left
  rw [← hj]
  exact (congrArg Prod.fst (h.record id)).symm

theorem faithful_of_shows (hp : Shows Q v p) (hnamed : p.Named) (hb : p.Calm b)
    (hs : b.Calm s) (hsnamed : s.Named) : Faithful s.catalog.schemas b.table? v where
  names := hsnamed.schema
  table schema table t ht := by
    rw [hp.view] at ht
    obtain ⟨x, y, σ, hσ, hschema, htable, hname, hl⟩ := View.table_ofSnapshot hnamed ht
    refine ⟨x, y, σ, hs.schema x σ (hb.schema x σ hσ), hschema, ?_, hname, hl⟩
    rw [hb.table]
    exact htable
  referred x y t ht hl fk hfk he schema table hr := by
    rw [hb.table] at ht
    obtain ⟨σ, hσ⟩ := Option.isSome_iff_exists.1 (hp.tidy.keyed.schema x y t ht)
    refine ⟨σ, hs.schema x σ (hb.schema x σ hσ), ?_⟩
    rw [hp.view]
    exact View.mem_referred_ofSnapshot hnamed hσ ht hl hfk he hr

theorem Stepped.safe (h : Stepped R Q limit s s' b W first j) (hs : s.Tidy)
    (hQ : ∀ s, Q s → Whole s) (hw : Whole s) (hR : ∀ c, R.checks c → c = true) :
    Safe s'.catalog.schemas s'.table? j := by
  have hW : s'.table? = W.table? := h.table_eq
  have hb : s.table? = b.table? := h.calm.table_eq
  obtain ⟨hget, hkind, hfinished⟩ := h.base.tidy.first_filed h.begun
  have hplaced := (hQ b h.base.holds).placed _ _ hget
  rw [hW, h.schemas]
  refine h.outcome.safe hkind hfinished ((hQ b h.base.holds).concerted.first first h.begun) ?_ ?_
    hplaced.careful
  · intro x hx
    obtain ⟨hchecks, p, hp, hpb⟩ := hx
    exact ⟨faithful_of_shows hp (hQ p hp.holds).named hpb h.calm hw.named, hR _ hchecks,
      (hplaced.mono h.calm.toPrecedes).schema⟩
  · rw [← hb]
    exact hw.safe first (h.first_now hs)

theorem Stepped.whole (h : Stepped R Q limit s s' b W first j) (hs : s.Tidy)
    (hQ : ∀ s, Q s → Whole s) (hw : Whole s) (hR : ∀ c, R.checks c → c = true)
    (hconcerted : Concerted false s') : Whole s' := by
  have hs' := h.tidy hs
  have hsafe := h.safe hs hQ hw hR
  obtain ⟨hget, hleast⟩ := (Snapshot.firstJob?_eq_some_iff hs).1 (h.first_now hs)
  refine ⟨?_, hsafe.intact, hconcerted, ?_, ?_⟩
  · constructor
    · rw [h.schemas]
      exact hw.named.filed
    · rw [h.schemas]
      exact hw.named.live
    · rw [h.schemas]
      exact hw.named.schema
    · exact hsafe.intact.names
  · intro id k hk
    rw [h.get?_jobs] at hk
    split at hk
    · split at hk
      · cases hk
      · cases hk
        exact ((hw.placed _ _ hget).mono h.precedes).follow h.follows
    · exact (hw.placed id k hk).mono h.precedes
  · intro k hk
    obtain ⟨hkget, _⟩ := (Snapshot.firstJob?_eq_some_iff hs').1 hk
    rw [h.get?_jobs] at hkget
    split at hkget
    · split at hkget
      · cases hkget
      · cases hkget
        exact hsafe
    · next hne =>
      -- The next job waits at its first stage.
      have hle := hleast k.id (by simp [hkget])
      have hlt : first.id < k.id := by omega
      refine ⟨hsafe.intact, ?_⟩
      intro name _ hi
      rw [(hs.waiting first.id k.id k hkget hlt (by simp [hget])).1] at hi
      exact absurd hi (Change.Kind.initial_not_mem_intermediate _)

theorem Move.whole (h : Move R Q limit s s') (hs : s.Tidy) (hQ : ∀ s, Q s → Whole s)
    (hw : Whole s) (hst : ∀ st, R.statement st → st.Careful) (hR : ∀ c, R.checks c → c = true) :
    Whole s' := by
  have hconcerted : Concerted false s' := by
    apply h.concerted hs (fun s hs => (hQ s hs).concerted) hw.concerted
    intro st _ schema t check _ p hd hc
    unfold Step.counts at hc
    rw [hd] at hc
    cases hc
  cases h with
  | submitted job h => exact h.whole hs hQ hw hst hconcerted
  | founded σ h => exact h.whole hs hw
  | stepped b W first j h => exact h.whole hs hQ hw hR hconcerted

theorem Whole.fits (hs : Whole s) {x y : Int} {t : Table} {fk : Catalog.ForeignKey}
    (ht : s.table? x y = some t) (hl : t.stage = .live) (hfk : fk ∈ t.foreignKeys)
    (he : fk.isEnforced = true) : ∃ px py parent,
      (∀ x' y', RefersAt s.catalog.schemas s.table? fk x' y' ↔ x' = px ∧ y' = py) ∧
      s.table? px py = some parent ∧ parent.stage = .live ∧ Fits parent t fk := by
  obtain ⟨px, py, σ, parent, ha⟩ := hs.intact.anchored x y t ht fk hfk he
  refine ⟨px, py, parent, ?_, ha.table, ?_, ha.fits⟩
  · intro x' y'
    constructor
    · intro hr
      obtain ⟨rfl, rfl⟩ := ha.place hs.intact hs.named.schema hr
      exact ⟨rfl, rfl⟩
    · rintro ⟨rfl, rfl⟩
      exact ha.refersAt
  · cases ha.live with
    | inl hlive => exact hlive
    | inr hself =>
      have hparent := ha.table
      rw [hself.1, hself.2, ht] at hparent
      cases hparent
      exact hl

end Ledger

namespace World

def guarded : Rules where
  statement := Statement.Careful
  checks c := c = true

theorem reached_guarded (limit : Nat) (es : List Event) (hes : ∀ e ∈ es, e.Allowed guarded) :
    ((ofStore .inMemory).run .standard limit es).Reached guarded Whole limit := by
  apply run_induction whole_initial _ es hes
  intro s s' hs h
  exact h.whole hs.tidy (fun _ h => h) hs.holds (fun _ h => h) fun _ h => h

/--
In every reachable world, each constraint of a public table names just one table. It is public, and
the constraint fits both: its columns are there on either side, with compatible types, and covered.
-/
theorem foreign_keys_fit (limit : Nat) (es : List Event) (hes : ∀ e ∈ es, e.Allowed guarded) :
    let s := ((ofStore .inMemory).run .standard limit es).store.snapshot
    ∀ x y t, s.table? x y = some t → t.stage = .live → ∀ fk ∈ t.foreignKeys,
      fk.isEnforced = true → ∃ px py parent,
        (∀ x' y', RefersAt s.catalog.schemas s.table? fk x' y' ↔ x' = px ∧ y' = py) ∧
        s.table? px py = some parent ∧ parent.stage = .live ∧ Fits parent t fk := by
  intro s x y t ht hl fk hfk he
  have hs : Whole s := (reached_guarded limit es hes).fine.holds
  exact hs.fits ht hl hfk he

def placeOrders : List Event :=
  let users := ((Table.ofName "users").withColumn (.ofName "id" .bigint)).withHandle "id"
  let orders := (((Table.ofName "orders").withColumn (.ofName "user" .bigint)).withIndex
    (.ofNames "by_user" ["user"])).withForeignKey (.ofNames "owner" ["user"] "shop" "users" ["id"])
  [.found "shop", .commit 0, .reopen, .plan (.createTable "shop" users true) true, .draw 0,
    .commit 0, .begin true 5, .settle true, .close, .look,
    .plan (.createTable "shop" orders true) true, .draw 1, .commit 0, .begin true 6, .settle true,
    .close]

theorem foreign_keys_fit_placeOrders :
    (∀ e ∈ placeOrders, e.Allowed guarded) ∧
    let s := ((ofStore .inMemory).run .standard 8 placeOrders).store.snapshot
    ∃ t fk px py parent, s.table? 1 4 = some t ∧ fk ∈ t.foreignKeys ∧ fk.name = "owner" ∧
      s.table? px py = some parent ∧ parent.stage = .live ∧ Fits parent t fk := by
  have hallowed : ∀ e ∈ placeOrders, e.Allowed guarded := by
    simp only [placeOrders, List.forall_mem_cons, Event.Allowed, guarded, Statement.Careful,
      true_and, and_true]
    refine ⟨?_, ?_, ?_⟩
    · decide +kernel
    · decide +kernel
    · intro e he
      cases he
  refine ⟨hallowed, ?_⟩
  intro s
  have hfound : ∃ t fk, s.table? 1 4 = some t ∧ t.stage = .live ∧ t.foreignKeys = [fk] ∧
      fk.isEnforced = true ∧ fk.name = "owner" := by
    have hstate : (s.table? 1 4).map (fun t => (t.stage, t.foreignKeys.map fun fk =>
        (fk.isEnforced, fk.name))) = some (.live, [(true, "owner")]) := by
      decide +kernel
    obtain ⟨t, ht, hshape⟩ := Option.map_eq_some_iff.1 hstate
    obtain ⟨hl, hkeys⟩ := Prod.mk.inj hshape
    obtain ⟨fk, hfk, hname⟩ := List.map_eq_singleton_iff.1 hkeys
    exact ⟨t, fk, ht, hl, hfk, (Prod.mk.inj hname).1, (Prod.mk.inj hname).2⟩
  obtain ⟨t, fk, ht, hl, hkeys, he, hname⟩ := hfound
  have hfk : fk ∈ t.foreignKeys := hkeys ▸ List.mem_singleton_self fk
  obtain ⟨px, py, parent, _, hparent, hlive, hfits⟩ :=
    foreign_keys_fit 8 placeOrders hallowed 1 4 t ht hl fk hfk he
  exact ⟨t, fk, px, py, parent, ht, hfk, hname, hparent, hlive, hfits⟩

end World

end Steward
