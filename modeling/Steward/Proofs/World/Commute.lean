import Steward.Proofs.World.Abreast

/-!
This module contains jobs that have nothing to do with each other: they work on different tables with
different names, and no constraint of either refers to the table of the other one. It makes no
difference to them, nor to the tables, which one comes first.
-/

namespace Steward

open Catalog (ForeignKey Schema Table)
open Change (Job)
open Ledger
open Step (Reaches Solo)

namespace Ledger

variable {limit : Nat} {s s' b W : Snapshot} {first j : Job}

theorem Stepped.named {R : Rules} {Q : Snapshot → Prop} (h : Stepped R Q limit s s' b W first j)
    (hs : s.Named) : s'.Named := by
  have hbase : b.Named := by
    refine ⟨?_, ?_, ?_, ?_⟩
    · exact fun x σ hσ => hs.filed x σ (h.calm.schema x σ hσ)
    · exact fun x σ hσ => hs.live x σ (h.calm.schema x σ hσ)
    · intro x x' σ σ' hσ hσ'
      exact hs.schema x x' σ σ' (h.calm.schema x σ hσ) (h.calm.schema x' σ' hσ')
    · rw [← h.calm.table_eq]
      exact hs.table
  obtain ⟨hfiled, hlive, hschema, -⟩ := hs
  rw [← h.schemas] at hfiled hlive hschema
  refine ⟨hfiled, hlive, hschema, ?_⟩
  rw [h.table_eq]
  exact (h.outcome.named hbase).table

end Ledger

namespace Line

theorem Turn.named {Q : Snapshot → Prop} {limit : Nat} {s s' : Snapshot} (h : Turn Q limit s s')
    (hs : s.Named) : s'.Named := by
  cases h with
  | handed job h => exact hs.of_catalog h.catalog
  | founded σ h => exact h.named hs
  | stepped b W first j h => exact h.named hs

theorem named_run (limit : Nat) (es : List Event) : (empty.run limit es).snapshot.Named := by
  apply run_keeps (fun _ _ hs h => h.directed hs) (fun _ _ _ h => h.named)
    (stands_empty directed_initial)
  exact whole_initial.named

theorem rested_run {limit : Nat} {es : List Event}
    (h : (empty.run limit es).snapshot.firstJob? = none) : (empty.run limit es).snapshot.Rested where
  tidy := (directed_run limit es).world.fine.tidy
  housed := housed_run limit es
  named := named_run limit es
  quiet := (directed_run limit es).world.fine.holds.concerted.none h
  idle := Snapshot.firstJob?_eq_none_iff.1 h

end Line

namespace Change.Job

/--
The tables in the places of the job, and the one that it declares.
-/
def Owns (s : Snapshot) (j : Job) (t : Table) : Prop :=
  (∃ a b, Reaches j a b ∧ s.table? a b = some t) ∨ ∃ check, j.args = .createTable t check

/--
The constraints of these tables, and the one that the job adds.
-/
def Binds (s : Snapshot) (j : Job) (fk : ForeignKey) : Prop :=
  (∃ t, j.Owns s t ∧ fk ∈ t.foreignKeys) ∨ ∃ check, j.args = .addForeignKey fk check

/--
What the schema of the job is called, by the job and in the ledger.
-/
def Calls (s : Snapshot) (j : Job) (schema : String) : Prop :=
  schema = j.schemaName ∨ ∃ σ, s.catalog.schemas.get? j.schemaId = some σ ∧ schema = σ.name

/--
No constraint of the job `j` refers to a table of the job `k`.
-/
def Ignores (s : Snapshot) (j k : Job) : Prop :=
  ∀ fk schema t, j.Binds s fk → k.Calls s schema → k.Owns s t → fk.refersTo schema t.name = false

/--
The two jobs work on different tables, which have different names if they are in the same schema,
and no constraint of either refers to a table of the other one.
-/
structure Unrelated (s : Snapshot) (j k : Job) : Prop where
  places : ∀ a b, Reaches j a b → ¬ Reaches k a b
  names : j.schemaId = k.schemaId → ∀ t u, j.Owns s t → k.Owns s u → Text.same t.name u.name = false
  ignores : j.Ignores s k
  ignored : k.Ignores s j

def Names (s : Snapshot) (j : Job) (n : String) : Prop := ∃ t, j.Owns s t ∧ t.name = n

def Refers (s : Snapshot) (j : Job) (schema table : String) : Prop :=
  ∃ fk, j.Binds s fk ∧ fk.refSchema = schema ∧ fk.refTable = table

variable {s : Snapshot} {j k : Job}

theorem Unrelated.symm (h : j.Unrelated s k) : k.Unrelated s j where
  places a b hk hj := h.places a b hj hk
  names he t u ht hu := by
    rw [Text.same_comm]
    exact h.names he.symm u t hu ht
  ignores := h.ignored
  ignored := h.ignores

theorem within_self (s : Snapshot) (j : Job) :
    Within (j.Names s) (j.Refers s) (Reaches j) s.table? where
  name a b t hab ht := ⟨t, .inl ⟨a, b, hab, ht⟩, rfl⟩
  keys a b t hab ht fk hfk := ⟨fk, .inl ⟨t, .inl ⟨a, b, hab, ht⟩, hfk⟩, rfl, rfl⟩

theorem means_self (s : Snapshot) (j : Job) : j.Means (j.Names s) (j.Refers s) := by
  constructor
  · intro n hn
    cases ha : j.args with
    | createTable table check =>
      rw [ha] at hn
      cases hn
      exact ⟨table, .inr ⟨check, ha⟩, rfl⟩
    | _ =>
      rw [ha] at hn
      cases hn
  · intro fk hfk
    cases ha : j.args with
    | createTable table check =>
      rw [ha] at hfk
      exact ⟨fk, .inl ⟨table, .inr ⟨check, ha⟩, hfk⟩, rfl, rfl⟩
    | addForeignKey added check =>
      rw [ha] at hfk
      cases List.mem_singleton.1 hfk
      exact ⟨fk, .inr ⟨check, ha⟩, rfl, rfl⟩
    | _ =>
      rw [ha] at hfk
      cases hfk

theorem Unrelated.apart (h : j.Unrelated s k) :
    Step.Apart s.catalog.schemas j (j.Names s) (j.Refers s) (Reaches k) (k.Names s) (k.Refers s) := by
  constructor
  case names =>
    rintro _ _ b ⟨t, ht, rfl⟩ ⟨u, hu, rfl⟩ hb
    rw [Text.same_comm]
    exact h.names hb.1 t u ht hu
  case parents =>
    rintro _ _ a b σ _ ⟨fk, hfk, rfl, rfl⟩ hab hσ ⟨u, hu, rfl⟩ ⟨hschema, htable⟩
    have hcalls : k.Calls s σ.name := .inr ⟨σ, hab.1 ▸ hσ, rfl⟩
    have hnone := h.ignores fk σ.name u hfk hcalls hu
    unfold ForeignKey.refersTo at hnone
    rw [Text.same_comm, hschema, Text.same_comm, htable] at hnone
    cases hnone
  case children =>
    rintro _ _ _ ⟨fk, hfk, rfl, rfl⟩ ⟨t, ht, rfl⟩ ⟨hschema, htable⟩
    have hnone := h.ignored fk j.schemaName t hfk (.inl rfl) ht
    unfold ForeignKey.refersTo at hnone
    rw [hschema, htable] at hnone
    cases hnone

section Owns

variable {table t : Table} {check : Bool} {newId : Int}

theorem eq_of_owns_create (ha : j.args = .createTable table check)
    (hfree : s.table? j.schemaId j.tableId = none) (ht : j.Owns s t) : t = table := by
  rcases ht with ⟨a, b, ⟨rfl, hb⟩, ht⟩ | ⟨_, ha'⟩
  · exfalso
    rcases hb with rfl | ⟨_, ha'⟩
    · cases hfree.symm.trans ht
    · cases ha.symm.trans ha'
  · cases ha.symm.trans ha'
    rfl

theorem eq_of_owns_truncate (ha : j.args = .truncateTable newId check)
    (hfree : s.table? j.schemaId newId = none) (htable : s.table? j.schemaId j.tableId = some table)
    (ht : j.Owns s t) : t = table := by
  rcases ht with ⟨a, b, ⟨rfl, hb⟩, ht⟩ | ⟨_, ha'⟩
  · rcases hb with rfl | ⟨_, ha'⟩
    · exact Option.some.inj (ht.symm.trans htable)
    · cases ha.symm.trans ha'
      cases hfree.symm.trans ht
  · cases ha.symm.trans ha'

theorem ignores_of_forall (hkeys : ∀ t, j.Owns s t → t.foreignKeys = [])
    (hkind : j.args.kind ≠ .addForeignKey) (k : Job) : j.Ignores s k := by
  rintro fk schema u (⟨t, ht, hfk⟩ | ⟨check, ha⟩) _ _
  · rw [hkeys t ht] at hfk
    cases hfk
  · exact absurd (congrArg Change.Args.kind ha) hkind

end Owns

end Change.Job

namespace Step

/--
The job with the given id is over in both ledgers, in the same state and with the same error.
-/
def EndsAlike (s s' : Snapshot) (id : Int) : Prop :=
  ∃ j j', s.history.get? id = some j ∧ s'.history.get? id = some j' ∧ j.isFinished = true ∧
    j'.status = j.status ∧ j'.error = j.error

section

variable {s s' t : Snapshot} {id : Int}

theorem EndsAlike.symm (h : EndsAlike s s' id) : EndsAlike s' s id := by
  obtain ⟨j, j', hj, hj', hover, hstatus, herror⟩ := h
  refine ⟨j', j, hj', hj, ?_, hstatus.symm, herror.symm⟩
  unfold Job.isFinished
  rw [hstatus]
  exact hover

theorem EndsAlike.status (h : EndsAlike s s' id) :
    (s'.history.get? id).map (·.status) = (s.history.get? id).map (·.status) := by
  obtain ⟨j, j', hj, hj', -, hstatus, -⟩ := h
  rw [hj, hj']
  exact congrArg some hstatus

theorem EndsAlike.later (h : EndsAlike s s' id) (ht : t.history.get? id = s.history.get? id) :
    EndsAlike t s' id := by
  unfold EndsAlike
  rw [ht]
  exact h

end

namespace Solo

variable {s t u : Store} {c : Solo} {j k : Job} {ts ts' us us' : List Nat}

theorem ends_handed (hs : s.snapshot.Rested) (hf : s.file = none) (hj : j.New)
    (hid : s.snapshot.history.get? j.id = none) (hts : c.Suffices ts) :
    Ends (s.handed j) (c.run (s.handed j) ts) j :=
  run_ends (hs.handed hj hid) hf (due_of_suffices hts _ _)

theorem Ends.get?_history (h : Ends (s.handed j) t j) {id : Int} (hid : id ≠ j.id) :
    t.snapshot.history.get? id = s.snapshot.history.get? id :=
  congrArg Prod.snd (h.passed.records id hid)

theorem run_after (hs : s.snapshot.Rested) (hf : s.file = none) (hj : j.New)
    (hjk : j.Unrelated s.snapshot k) (hu : Ends (s.handed k) u k)
    (hid : s.snapshot.history.get? j.id = none) (hid' : u.snapshot.history.get? j.id = none)
    (hts : c.Suffices ts) (hts' : c.Suffices ts') :
    (c.run (s.handed j) ts).snapshot.Twins (Reaches k) (c.run (u.handed j) ts').snapshot ∧
      EndsAlike (c.run (s.handed j) ts).snapshot (c.run (u.handed j) ts').snapshot j.id := by
  -- What the two ledgers differ in are the places of the other job.
  -- All that the job `k` changed are its own places, which have nothing to do with the job `j`.
  have habreast : Abreast (Reaches k) (j.Names s.snapshot) (j.Refers s.snapshot) (k.Names s.snapshot)
      (k.Refers s.snapshot) (s.handed j).snapshot (u.handed j).snapshot j j := by
    constructor
    case serves => exact hs.handed hj hid
    case serves' => exact hu.rested.handed hj hid'
    case twins =>
      refine ⟨hu.passed.schemas, fun a b hab => ?_⟩
      exact congrArg (Option.map Table.undated) (hu.passed.others a b hab)
    case jobs => exact .refl j
    case own => exact hjk.places
    case means => exact Change.Job.means_self _ j
    case known => exact Change.Job.within_self _ j
    case far => exact Change.Job.within_self _ k
    case far' =>
      exact hu.passed.within _ _ (Change.Job.means_self _ k) (Change.Job.within_self _ k)
    case apart => exact hjk.apart
  obtain ⟨htwins, i, i', hi, hi', hsame⟩ := habreast.run hf hu.file (due_of_suffices hts _ _)
    (due_of_suffices hts' _ _)
  obtain ⟨e, he, hover⟩ := (ends_handed hs hf hj hid hts).ended
  cases hi.symm.trans he
  exact ⟨htwins, i, i', hi, hi', hover, hsame.status, hsame.error⟩

theorem run_comm (hs : s.snapshot.Rested) (hf : s.file = none) (hj : j.New) (hk : k.New)
    (hne : j.id ≠ k.id) (hjid : s.snapshot.history.get? j.id = none)
    (hkid : s.snapshot.history.get? k.id = none) (hjk : j.Unrelated s.snapshot k)
    (hts : c.Suffices ts) (hts' : c.Suffices ts') (hus : c.Suffices us) (hus' : c.Suffices us') :
    let first := (c.run ((c.run (s.handed j) ts).handed k) us).snapshot
    let last := (c.run ((c.run (s.handed k) us').handed j) ts').snapshot
    EndsAlike first last j.id ∧ EndsAlike first last k.id ∧
      last.catalog.schemas = first.catalog.schemas ∧
      ∀ a b, (last.table? a b).map Table.undated = (first.table? a b).map Table.undated := by
  intro first last
  have hj₁ := ends_handed hs hf hj hjid hts
  have hk₁ := ends_handed hs hf hk hkid hus'
  have hkid₁ := (hj₁.get?_history hne.symm).trans hkid
  have hjid₁ := (hk₁.get?_history hne).trans hjid
  have hk₂ := ends_handed hj₁.rested hj₁.file hk hkid₁ hus
  have hj₂ := ends_handed hk₁.rested hk₁.file hj hjid₁ hts'
  obtain ⟨htwins, hends⟩ := run_after hs hf hj hjk hk₁ hjid hjid₁ hts hts'
  obtain ⟨htwins', hends'⟩ := run_after hs hf hk hjk.symm hj₁ hkid hkid₁ hus' hus
  refine ⟨?_, ?_, ?_, ?_⟩
  · exact hends.later (hk₂.get?_history hne)
  · exact (hends'.later (hj₂.get?_history hne.symm)).symm
  · exact htwins.schemas.trans hk₂.passed.schemas.symm
  · intro a b
    -- Each place is left alone by one of the jobs at least, and the other one does the same there.
    by_cases hab : Reaches j a b
    · have hother : ¬ Reaches k a b := hjk.places a b hab
      have hleft : first.table? a b = _ := hk₂.passed.others a b hother
      rw [hleft]
      exact htwins.table a b hother
    · have hright : last.table? a b = _ := hj₂.passed.others a b hab
      rw [hright]
      exact (htwins'.table a b hab).symm

end Solo

end Step

namespace Line

/--
Two jobs that have nothing to do with each other are handed in, one after the other is over, to a
line whose queue is empty. In either order, both end in the same state and with the same error, and
the schemas and tables are the same in the end, apart from when these were last changed.
-/
theorem unrelated_jobs_commute (limit : Nat) (es : List Event) (c : Solo) (j k : Job)
    (ts ts' us us' : List Nat) (hidle : (empty.run limit es).snapshot.firstJob? = none)
    (hj : j.New) (hk : k.New) (hne : j.id ≠ k.id)
    (hjid : (empty.run limit es).snapshot.history.get? j.id = none)
    (hkid : (empty.run limit es).snapshot.history.get? k.id = none)
    (hjk : j.Unrelated (empty.run limit es).snapshot k)
    (hts : c.Suffices ts) (hts' : c.Suffices ts') (hus : c.Suffices us) (hus' : c.Suffices us') :
    let s := (empty.run limit es).world.store
    let first := (c.run ((c.run (s.handed j) ts).handed k) us).snapshot
    let last := (c.run ((c.run (s.handed k) us').handed j) ts').snapshot
    Step.EndsAlike first last j.id ∧ Step.EndsAlike first last k.id ∧
      last.catalog.schemas = first.catalog.schemas ∧
      ∀ a b, (last.table? a b).map Table.undated = (first.table? a b).map Table.undated :=
  Solo.run_comm (rested_run hidle) (directed_run limit es).world.file hj hk hne hjid hkid hjk
    hts hts' hus hus'

def creates (id tableId : Int) (name : String) : Job :=
  { Job.ofArgs 1 tableId "shop" name (.createTable (.ofName name) true) with id }

def withItems : List Event :=
  [.found "shop", .commit 0, .draw 0 1 10 "shop" "items" (.createTable (.ofName "items") true),
    .hand 0] ++ stepOnce 5

def noRows (limit : Nat) : Solo := ⟨limit, true, fun _ => .ok .nothing⟩

theorem new_creates (id tableId : Int) (name : String) : (creates id tableId name).New :=
  ⟨rfl, rfl, rfl⟩

theorem eq_of_owns_creates {s : Snapshot} {id tableId : Int} {name : String} {t : Table}
    (hfree : s.table? 1 tableId = none) (ht : (creates id tableId name).Owns s t) :
    t = .ofName name :=
  Change.Job.eq_of_owns_create rfl hfree ht

theorem ignores_creates {s : Snapshot} {id tableId : Int} {name : String}
    (hfree : s.table? 1 tableId = none) (k : Job) : (creates id tableId name).Ignores s k := by
  apply Change.Job.ignores_of_forall
  · intro t ht
    rw [eq_of_owns_creates hfree ht]
    rfl
  · exact Change.Kind.noConfusion

theorem unrelated_jobs_commute_withItems :
    let j := creates 3 11 "orders"
    let k := { Job.ofArgs 1 10 "shop" "items" (.truncateTable 12 true) with id := 4 }
    let ts := List.range 9
    ((empty.run 8 withItems).snapshot.firstJob? = none ∧ j.New ∧ k.New ∧ j.id ≠ k.id ∧
      (empty.run 8 withItems).snapshot.history.get? j.id = none ∧
      (empty.run 8 withItems).snapshot.history.get? k.id = none ∧
      j.Unrelated (empty.run 8 withItems).snapshot k ∧ (noRows 8).Suffices ts) ∧
    let s := (empty.run 8 withItems).world.store
    let first := ((noRows 8).run (((noRows 8).run (s.handed j) ts).handed k) ts).snapshot
    let last := ((noRows 8).run (((noRows 8).run (s.handed k) ts).handed j) ts).snapshot
    Step.EndsAlike first last j.id ∧ Step.EndsAlike first last k.id ∧
      last.catalog.schemas = first.catalog.schemas ∧
      ∀ a b, (last.table? a b).map Table.undated = (first.table? a b).map Table.undated := by
  intro j k ts
  have hidle : (empty.run 8 withItems).snapshot.firstJob? = none := by decide +kernel
  have hk : k.New := ⟨rfl, rfl, rfl⟩
  have hne : j.id ≠ k.id := by decide
  have hjid : (empty.run 8 withItems).snapshot.history.get? j.id = none := by decide +kernel
  have hkid : (empty.run 8 withItems).snapshot.history.get? k.id = none := by decide +kernel
  have hfree : (empty.run 8 withItems).snapshot.table? 1 11 = none := by decide +kernel
  have hktable (t : Table) (ht : k.Owns (empty.run 8 withItems).snapshot t) :
      t = { Table.ofName "items" with id := 10, stage := .live, updated := 5 } := by
    refine Change.Job.eq_of_owns_truncate rfl ?_ ?_ ht
    · decide +kernel
    · decide +kernel
  have hjk : j.Unrelated (empty.run 8 withItems).snapshot k := by
    constructor
    case places =>
      rintro a b ⟨-, rfl | ⟨_, ha⟩⟩ ⟨-, hb | ⟨_, ha'⟩⟩
      · cases hb
      · cases ha'
      · cases ha
      · cases ha
    case names =>
      intro _ t u ht hu
      rw [eq_of_owns_creates hfree ht, hktable u hu]
      decide +kernel
    case ignores => exact ignores_creates hfree k
    case ignored =>
      apply Change.Job.ignores_of_forall
      · intro t ht
        rw [hktable t ht]
        rfl
      · exact Change.Kind.noConfusion
  have hts : (noRows 8).Suffices ts := by
    constructor <;> decide
  refine ⟨⟨hidle, new_creates 3 11 "orders", hk, hne, hjid, hkid, hjk, hts⟩, ?_⟩
  exact unrelated_jobs_commute 8 withItems (noRows 8) j k ts ts ts ts hidle
    (new_creates 3 11 "orders") hk hne hjid hkid hjk hts hts hts hts

theorem not_commute_of_ne :
    ¬ ∀ (limit : Nat) (es : List Event) (c : Solo) (j k : Job) (ts ts' us us' : List Nat),
      (empty.run limit es).snapshot.firstJob? = none → j.New → k.New → j.id ≠ k.id →
      (empty.run limit es).snapshot.history.get? j.id = none →
      (empty.run limit es).snapshot.history.get? k.id = none →
      (∀ a b, Reaches j a b → ¬ Reaches k a b) →
      (∀ t u, j.Owns (empty.run limit es).snapshot t → k.Owns (empty.run limit es).snapshot u →
        t.name ≠ u.name) →
      j.Ignores (empty.run limit es).snapshot k → k.Ignores (empty.run limit es).snapshot j →
      c.Suffices ts → c.Suffices ts' → c.Suffices us → c.Suffices us' →
      let s := (empty.run limit es).world.store
      Step.EndsAlike (c.run ((c.run (s.handed j) ts).handed k) us).snapshot
        (c.run ((c.run (s.handed k) us').handed j) ts').snapshot j.id := by
  intro h
  let es : List Event := [.found "shop", .commit 0]
  let j := creates 2 10 "T"
  let k := creates 3 11 "t"
  let ts := [5, 6, 7]
  have hjfree : (empty.run 0 es).snapshot.table? 1 10 = none := by decide +kernel
  have hkfree : (empty.run 0 es).snapshot.table? 1 11 = none := by decide +kernel
  have hplaces (a b : Int) (hj : Reaches j a b) : ¬ Reaches k a b := by
    obtain ⟨-, rfl | ⟨_, ha⟩⟩ := hj
    · rintro ⟨-, hb | ⟨_, ha'⟩⟩
      · cases hb
      · cases ha'
    · cases ha
  have hnames (t u : Table) (ht : j.Owns (empty.run 0 es).snapshot t)
      (hu : k.Owns (empty.run 0 es).snapshot u) : t.name ≠ u.name := by
    rw [eq_of_owns_creates hjfree ht, eq_of_owns_creates hkfree hu]
    decide
  have hts : (noRows 0).Suffices ts := by
    constructor <;> decide
  have hsame := h 0 es (noRows 0) j k ts ts ts ts (by decide +kernel) (new_creates _ _ _)
    (new_creates _ _ _) (by decide) (by decide +kernel) (by decide +kernel) hplaces hnames
    (ignores_creates hjfree k) (ignores_creates hkfree j) hts hts hts hts
  have hdone : (((noRows 0).run (((noRows 0).run ((empty.run 0 es).world.store.handed j) ts).handed k)
      ts).snapshot.history.get? j.id).map (·.status) = some .done := by
    decide +kernel
  have hcancelled : (((noRows 0).run (((noRows 0).run ((empty.run 0 es).world.store.handed k)
      ts).handed j) ts).snapshot.history.get? j.id).map (·.status) = some .cancelled := by
    decide +kernel
  cases hcancelled.symm.trans (hsame.status.trans hdone)

end Line

end Steward
