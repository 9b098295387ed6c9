import Steward.Engine.Statement

/-!
This module contains what the plan of a statement makes: a job that was not begun, on a schema that
the view shows.
-/

namespace Steward.Engine

open Catalog (Fault Schema Table)
open Change (Args Job)
open Ledger (Txn)

namespace Statement

def schema : Statement → String
  | createTable schema .. | addForeignKey schema .. | dropForeignKey schema .. | dropTable schema ..
  | truncateTable schema .. | dropIndex schema .. | dropColumn schema .. => schema

inductive Asks : Statement → Args → Prop where
  | createTable (schema : String) (table : Table) (check : Bool) :
    Asks (.createTable schema table check) (.createTable table check)
  | addForeignKey (schema table : String) (fk : Catalog.ForeignKey) (check : Bool) :
    Asks (.addForeignKey schema table fk check) (.addForeignKey fk check)
  | dropForeignKey (schema table name : String) :
    Asks (.dropForeignKey schema table name) (.dropForeignKey name)
  | dropTable (schema table : String) (check : Bool) :
    Asks (.dropTable schema table check) (.dropTable check)
  | truncateTable (schema table : String) (newId : Int) (check : Bool) :
    Asks (.truncateTable schema table check) (.truncateTable newId check)
  | dropIndex (schema table name : String) : Asks (.dropIndex schema table name) (.dropIndex name)
  | dropColumn (schema table name : String) :
    Asks (.dropColumn schema table name) (.dropColumn name)

structure Makes (st : Statement) (σ : Schema) (job : Job) : Prop where
  asks : st.Asks job.args
  schemaId : job.schemaId = σ.id
  schemaName : job.schemaName = st.schema ∨ job.schemaName = σ.name
  kind : job.kind = job.args.kind
  stage : job.stage = job.kind.initial

theorem makes_ofArgs {st : Statement} {σ : Schema} {args : Args} (tableId : Int)
    {schemaName : String} (tableName : String) (ha : st.Asks args)
    (hs : schemaName = st.schema ∨ schemaName = σ.name) :
    st.Makes σ (.ofArgs σ.id tableId schemaName tableName args) := ⟨ha, rfl, hs, rfl, rfl⟩

end Statement

def PlanOf (st : Statement) (v : View) (f : Txn → Job × Txn) : Prop :=
  ∃ σ, v.schema? st.schema = some σ ∧
    ∀ t, st.Makes σ (f t).1 ∧ ((f t).2 = t ∨ (f t).2 = t.newId.2)

variable {st : Statement} {checks : Bool} {v : View} {f : Txn → Job × Txn}

theorem resolve_eq_ok {schema table : String} {id : Int} {t : Table}
    (h : resolve v schema table = .ok (id, t)) :
    ∃ σ, v.schema? schema = some σ ∧ id = σ.id := by
  unfold resolve at h
  split at h
  · cases h
  · next σ hσ =>
    obtain ⟨t', _, h⟩ := bind_eq_ok.1 h
    cases h
    exact ⟨σ, hσ, rfl⟩

theorem planOf_submit {schema table : String} {target : Int × Table} {args : Args}
    (h : resolve v schema table = .ok target) (hs : st.schema = schema) (ha : st.Asks args) :
    PlanOf st v (Statement.plan.submit target.1 target.2 schema args) := by
  obtain ⟨σ, hσ, hid⟩ := resolve_eq_ok h
  refine ⟨σ, hs ▸ hσ, fun t => ⟨?_, .inl rfl⟩⟩
  unfold Statement.plan.submit
  rw [hid]
  exact Statement.makes_ofArgs _ _ ha (.inl hs.symm)

theorem planOf_plan (h : st.plan checks v = .ok f) : PlanOf st v f := by
  cases st with
  | createTable schema table check =>
    simp only [Statement.plan] at h
    split at h
    · cases h
    · next σ hσ =>
      split at h
      · cases h
      · cases h
        refine ⟨σ, hσ, fun t => ⟨?_, .inr rfl⟩⟩
        exact Statement.makes_ofArgs _ _ (.createTable schema table check) (.inr rfl)
  | addForeignKey schema table fk check =>
    obtain ⟨target, ht, h⟩ := bind_eq_ok.1 h
    obtain ⟨_, _, h⟩ := bind_eq_ok.1 h
    cases h
    exact planOf_submit ht rfl (.addForeignKey schema table fk check)
  | dropForeignKey schema table name =>
    obtain ⟨target, ht, h⟩ := bind_eq_ok.1 h
    obtain ⟨_, _, h⟩ := bind_eq_ok.1 h
    cases h
    exact planOf_submit ht rfl (.dropForeignKey schema table name)
  | dropTable schema table check =>
    obtain ⟨target, ht, h⟩ := bind_eq_ok.1 h
    cases h
    exact planOf_submit ht rfl (.dropTable schema table check)
  | truncateTable schema table check =>
    obtain ⟨target, ht, h⟩ := bind_eq_ok.1 h
    cases h
    obtain ⟨σ, hσ, hid⟩ := resolve_eq_ok ht
    refine ⟨σ, hσ, fun t => ⟨?_, .inr rfl⟩⟩
    rw [hid]
    exact Statement.makes_ofArgs _ _ (.truncateTable schema table _ check) (.inl rfl)
  | dropIndex schema table name =>
    obtain ⟨target, ht, h⟩ := bind_eq_ok.1 h
    obtain ⟨_, _, h⟩ := bind_eq_ok.1 h
    cases h
    exact planOf_submit ht rfl (.dropIndex schema table name)
  | dropColumn schema table name =>
    obtain ⟨target, ht, h⟩ := bind_eq_ok.1 h
    obtain ⟨_, _, h⟩ := bind_eq_ok.1 h
    cases h
    exact planOf_submit ht rfl (.dropColumn schema table name)

end Steward.Engine
