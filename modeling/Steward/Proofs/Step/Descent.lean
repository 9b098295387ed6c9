import Steward.Proofs.Step.Deed

/-!
This module contains the descent of tables: where a table comes from that is there after a step of any
kind, and what the step makes of its name and its constraints. A constraint that is added takes the id
after the largest one that its table ever gave, and apart from that no step adds constraints to a table
that is there, gives an id or takes one back.
-/

namespace Steward

open Catalog (ForeignKey Stage Table)
open Change (Job)
open Ledger (Snapshot Txn)

namespace Catalog

def ForeignKey.unstaged (fk : ForeignKey) : ForeignKey := { fk with stage := .live }

namespace Table

/--
`t'` goes on with the constraints of `t`: it has no others, though maybe in other stages, and gives the
same id next.
-/
structure Inherits (t t' : Table) : Prop where
  name : t'.name = t.name
  max : t'.maxForeignKeyId = t.maxForeignKeyId
  keys : (t'.foreignKeys.map (·.unstaged)).Sublist (t.foreignKeys.map (·.unstaged))

/--
`t'` has the constraint in addition to those of `t`, under the next id.
-/
structure Gains (t : Table) (fk : ForeignKey) (t' : Table) : Prop where
  name : t'.name = t.name
  keys : t'.foreignKeys = t.foreignKeys ++ [fk]
  id : fk.id = t.maxForeignKeyId + 1
  max : t'.maxForeignKeyId = fk.id

variable {t t' : Table}

theorem Inherits.refl (t : Table) : t.Inherits t := ⟨rfl, rfl, .refl _⟩

theorem Inherits.stamped (h : t.Inherits t') (stamp : Nat) :
    t.Inherits { t' with updated := stamp } := ⟨h.name, h.max, h.keys⟩

theorem inherits_of_keys (hname : t'.name = t.name) (hmax : t'.maxForeignKeyId = t.maxForeignKeyId)
    (hkeys : t'.foreignKeys.map (·.unstaged) = t.foreignKeys.map (·.unstaged)) : t.Inherits t' :=
  ⟨hname, hmax, hkeys ▸ .refl _⟩

theorem inherits_eraseIdx (t : Table) (pos : Nat) :
    t.Inherits { t with foreignKeys := t.foreignKeys.eraseIdx pos } :=
  ⟨rfl, rfl, (List.eraseIdx_sublist _ _).map _⟩

theorem inherits_setForeignKeyStage (t : Table) (pos : Nat) (stage : Stage) :
    t.Inherits (Step.setForeignKeyStage t pos stage) :=
  inherits_of_keys rfl rfl (Step.map_setForeignKeyStage (·.unstaged) (fun _ _ => rfl) t pos stage)

theorem Inherits.map {α : Type} (h : t.Inherits t') (g : ForeignKey → α)
    (hg : ∀ fk, g fk.unstaged = g fk) : (t'.foreignKeys.map g).Sublist (t.foreignKeys.map g) := by
  simpa [Function.comp_def, hg] using h.keys.map g

theorem Inherits.length_le (h : t.Inherits t') : t'.foreignKeys.length ≤ t.foreignKeys.length := by
  simpa using h.keys.length_le

end Table

end Catalog

theorem Change.Job.Touches.inherits {j : Job} {t t' : Table} (h : j.Touches t t')
    (ha : ∀ fk check, j.args ≠ .addForeignKey fk check) : t.Inherits t' := by
  cases h with
  | lostColumn _ _ hl =>
    have hname := congrArg Table.name hl.rest
    have hmax := congrArg Table.maxForeignKeyId hl.rest
    have hkeys := congrArg (fun u : Table => u.foreignKeys.map (·.unstaged)) hl.rest
    exact Table.inherits_of_keys hname hmax hkeys
  | gotKey h => exact absurd h (ha _ _)
  | key h => exact absurd h (ha _ _)
  | lostKey => exact Table.inherits_eraseIdx t _
  | _ => exact Table.inherits_of_keys rfl rfl rfl

namespace Step

variable {P : Surroundings → Prop} {s : Surroundings} {d : Draft} {r : Result} {j j' : Job}
  {source : Stage} {f f' : Int → Int → Option Table} {x y : Int} {t t' table : Table} {check : Bool}
  {fk : ForeignKey}

/--
Where a table comes from that is at a place after a step of a job, and how the step came by the
constraints that are new: `j` is the job after the step, and the step began at the stage `source`.
-/
inductive Descends (P : Surroundings → Prop) (source : Stage) (j : Job)
    (f : Int → Int → Option Table) (x y : Int) (t' : Table) : Prop where
  | kept (t : Table) (ht : f x y = some t) (h : t.Inherits t')
  | moved (check : Bool) (ha : j.args = .truncateTable y check) (hx : x = j.schemaId)
      (hfree : f x y = none) (t : Table) (ht : f j.schemaId j.tableId = some t) (h : t.Inherits t')
  | declared (s : Surroundings) (hs : P s) (table : Table) (check : Bool)
      (ha : j.args = .createTable table check) (hdone : j.status = .done) (hfree : f x y = none)
      (stamp : Nat) (h : t' = { createdTable j table with updated := stamp })
      (hcheck : Constraint.checkDeclared s.checksForeignKeys s.view j.schemaName table check = .ok ())
  | staged (s : Surroundings) (hs : P s) (t : Table) (fk : ForeignKey) (check : Bool)
      (ha : j.args = .addForeignKey (stagedKey t fk) check) (hsource : source = .absent)
      (hstage : j.stage = .writeOnly) (hx : x = j.schemaId) (hy : y = j.tableId)
      (ht : f x y = some t) (h : t.Gains (stagedKey t fk) t')
      (hcheck : Constraint.checkAdded s.checksForeignKeys s.view j.schemaName t fk check = .ok ())

theorem inherits_createdTable (j : Job) (table : Table) : table.Inherits (createdTable j table) :=
  Table.inherits_of_keys rfl rfl List.map_map

theorem descends_of_same (hf : f' = f) (ht' : f' x y = some t') : Descends P source j f x y t' :=
  .kept t' (hf ▸ ht') (.refl t')

theorem descends_of_puts {x₀ y₀ : Int} {stamp : Nat} (ht : f x₀ y₀ = some t)
    (hf : Puts f x₀ y₀ { table with updated := stamp } f') (h : t.Inherits table)
    (ht' : f' x y = some t') : Descends P source j f x y t' := by
  rw [hf] at ht'
  split at ht'
  · next hxy =>
    cases ht'
    rw [← hxy.1, ← hxy.2] at ht
    exact .kept t ht (h.stamped stamp)
  · exact .kept t' ht' (.refl t')

theorem Reshaped.descends (h : Reshaped j f f') (hj : j.Follows j') (hsame : j'.args = j.args)
    (hcreate : ∀ table check, j.args ≠ .createTable table check)
    (hadd : ∀ fk check, j.args ≠ .addForeignKey fk check) (ht' : f' x y = some t') :
    Descends P source j' f x y t' := by
  cases h with
  | same hf => exact descends_of_same hf ht'
  | touched t u stamp ht h hf => exact descends_of_puts ht hf (h.inherits hadd) ht'
  | created table check stamp ha => exact absurd ha (hcreate _ _)
  | dropped check ha hf =>
    rw [hf] at ht'
    split at ht'
    · cases ht'
    · exact .kept t' ht' (.refl t')
  | truncated newId check t stamp ha ht hfree hf =>
    have hargs := hsame.trans ha
    rw [← hj.schemaId] at ht hfree hf
    rw [← hj.tableId] at ht hfree hf
    rw [hf] at ht'
    split at ht'
    · next hxy =>
      cases ht'
      obtain ⟨rfl, rfl⟩ := hxy
      have h : t.Inherits { t with id := y, updated := stamp } :=
        Table.inherits_of_keys rfl rfl rfl
      by_cases hy : y = j'.tableId
      · rw [← hy] at ht
        exact .kept t ht h
      · exact .moved check hargs rfl (hfree hy) t ht h
    · split at ht'
      · cases ht'
      · exact .kept t' ht' (.refl t')

theorem Created.descends (h : Created s table check d r) (hs : P s)
    (ha : d.job.args = .createTable table check) {v : Int} (hv : r.1 = .ok v)
    (ht' : r.2.txn.table? x y = some t') : Descends P source r.2.job d.txn.table? x y t' := by
  cases h with
  | undone => exact descends_of_same rfl ht'
  | created hb hstage hschema hname hcheck hfree =>
    have hadded : Puts d.txn.table? d.job.schemaId d.job.tableId (createdTable d.job table)
        (d.txn.added d.job.schemaId (createdTable d.job table)).table? := Txn.table?_added _ _ _
    let fresh : Draft := { d with txn := d.txn.added d.job.schemaId (createdTable d.job table) }
    have hputs : Puts d.txn.table? d.job.schemaId d.job.tableId
        { createdTable d.job table with updated := s.stamp }
        (fresh.write s (createdTable d.job table)).txn.table? := hadded.trans (puts_write rfl)
    replace ht' := (hputs x y).symm.trans ht'
    split at ht'
    · next hxy =>
      cases ht'
      obtain ⟨rfl, rfl⟩ := hxy
      exact .declared s hs table check ha rfl hfree s.stamp rfl hcheck
    · exact .kept t' ht' (.refl t')
  | _ => cases hv

theorem descends_of_write (s : Surroundings) (hd : d.Holds t) (h : t.Inherits table)
    (hid : table.id = t.id) (ht' : (d.write s table).txn.table? x y = some t') :
    Descends P source j d.txn.table? x y t' :=
  descends_of_puts hd.table (puts_write (hid.trans hd.id)) h ht'

theorem Bound.descends (h : Bound P fk check d r) {v : Int} (hv : r.1 = .ok v)
    (ht' : r.2.txn.table? x y = some t') : Descends P d.job.stage r.2.job d.txn.table? x y t' := by
  cases h with
  | unneeded => exact descends_of_same rfl ht'
  | resumed => exact descends_of_same rfl ht'
  | undone hb s t hd hl pos =>
    exact descends_of_write s hd (t.inherits_eraseIdx pos) rfl ht'
  | staged hb hsource s hs t hd hl hcheck =>
    have hputs : Puts d.txn.table? d.job.schemaId d.job.tableId
        { withStagedKey t fk with updated := s.stamp } (d.write s (withStagedKey t fk)).txn.table? :=
      puts_write hd.id
    replace ht' := (hputs x y).symm.trans ht'
    split at ht'
    · next hxy =>
      cases ht'
      obtain ⟨rfl, rfl⟩ := hxy
      exact .staged s hs t fk check rfl hsource rfl rfl rfl hd.table ⟨rfl, rfl, rfl, rfl⟩ hcheck
    · exact .kept t' ht' (.refl t')
  | confirmed hb hs s t hd hl pos =>
    exact descends_of_write s hd (t.inherits_setForeignKeyStage pos _) rfl ht'
  | bound hb hs s t hd hl pos =>
    exact descends_of_write s hd (t.inherits_setForeignKeyStage pos _) rfl ht'
  | _ => cases hv

theorem Took.descends (h : Took P s d r) (hs : P s) {v : Int} (hv : r.1 = .ok v)
    (ht' : r.2.txn.table? x y = some t') : Descends P d.job.stage r.2.job d.txn.table? x y t' := by
  have hreshaped := (h.deed.reshaped hv).1
  have hfollows := h.framed.follows
  unfold Took at h
  split at h
  case h_1 ha => exact h.descends hs ha hv ht'
  case h_4 ha => exact h.descends hv ht'
  all_goals
    next ha =>
      apply hreshaped.descends hfollows _ _ _ ht'
      · cases hfollows.args with
        | inl hsame => exact hsame
        | inr hnew =>
          obtain ⟨fk, check, id, stage, hargs, -⟩ := hnew
          cases ha.symm.trans hargs
      · intro table check h
        cases ha.symm.trans h
      · intro fk check h
        cases ha.symm.trans h

theorem Outcome.descends {limit : Nat} {base W : Snapshot} {first : Job}
    (h : Outcome limit P base first W j) (ht' : W.table? x y = some t') :
    Descends P first.stage j base.table? x y t' := by
  cases h with
  | success s hs v d h =>
    have hstage := Change.Job.stage_started first
    cases h.descends hs rfl ht' with
    | kept t ht h => exact .kept t ht h
    | moved check ha hx hfree t ht h => exact .moved check ha hx hfree t ht h
    | declared s hs table check ha hdone hfree stamp h hcheck =>
      exact .declared s hs table check ha hdone hfree stamp h hcheck
    | staged s hs t fk check ha hsource hstage' hx hy ht h hcheck =>
      exact .staged s hs t fk check ha (hstage.symm.trans hsource) hstage' hx hy ht h hcheck
  | failure => exact descends_of_same rfl ht'
  | disorder => exact descends_of_same rfl ht'

theorem Bound.gains {all : Bool} (h : Bound P fk check d r) (hk : d.job.kind = .addForeignKey)
    (hj : Agrees all d.txn.table? d.job) (hsource : d.job.stage = .absent) {v : Int}
    (hv : r.1 = .ok v) (hstage : r.2.job.stage = .writeOnly) :
    ∃ t t', d.txn.table? d.job.schemaId d.job.tableId = some t ∧
      r.2.txn.table? d.job.schemaId d.job.tableId = some t' ∧ t.Gains (stagedKey t fk) t' := by
  cases h with
  | resumed hb hs t hd old ho =>
    have hi : d.job.stage ∉ d.job.kind.intermediate := by
      rw [hk, hs]
      decide
    cases (hj.stagedAlready?_eq_none hd hi).symm.trans ho
  | staged hb hs s hp t hd =>
    have hputs : Puts d.txn.table? d.job.schemaId d.job.tableId
        { withStagedKey t fk with updated := s.stamp } (d.write s (withStagedKey t fk)).txn.table? :=
      puts_write hd.id
    exact ⟨t, _, hd.table, hputs.self, rfl, rfl, rfl, rfl⟩
  | undone => cases hstage
  | unneeded => cases hstage
  | confirmed hb hs => cases hsource.symm.trans hs
  | bound hb hs => cases hsource.symm.trans hs
  | _ => cases hv

theorem Outcome.gains {all : Bool} {limit : Nat} {base W : Snapshot} {first : Job}
    (h : Outcome limit P base first W j) (hk : first.kind = .addForeignKey)
    (ha : first.args = .addForeignKey fk check) (hj : Agrees all base.table? first)
    (hsource : first.stage = .absent) (hstage : j.stage = .writeOnly) :
    ∃ t t', base.table? first.schemaId first.tableId = some t ∧
      W.table? first.schemaId first.tableId = some t' ∧ t.Gains (stagedKey t fk) t' := by
  have hfollows := Change.Job.follows_started first
  have hsame := Change.Job.stage_started first
  cases h with
  | success s hs v d h =>
    have hbound : Bound P fk check ⟨.begin base, first.started⟩ (.ok v, d) := by
      unfold Took at h
      dsimp only at h
      rw [(started_tells first).2, ha] at h
      exact h
    have hgains := hbound.gains (hfollows.kind.trans hk) (agrees_started hj) (hsame.trans hsource)
      rfl hstage
    dsimp only at hgains
    rw [hfollows.schemaId, hfollows.tableId] at hgains
    exact hgains
  | failure s hs e d h =>
    have hkept := (stage_blame limit d.job e).trans ((h.framed.failed e rfl).1.trans hsame)
    cases hstage.symm.trans (hkept.trans hsource)
  | disorder s hs v d h ho e =>
    have hkept := stage_blame limit { d.job with stage := first.stage } e
    cases hstage.symm.trans (hkept.trans hsource)

end Step

end Steward
