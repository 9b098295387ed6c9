import Steward.Proofs.Step.Outcome

/-!
This module contains the agreement of the job that takes a step with the tables: while its stage is
an intermediate one, what it works on is in just this stage and all the rest is public, and
otherwise all is public.
-/

namespace Steward

open Catalog (Part Stage Table)
open Change (Args Job Kind Status)
open Ledger (Snapshot Txn)

namespace Change.Kind

variable {k : Kind} {st : Stage}

/--
The stages of a job of the kind in which it is on its way.
-/
def intermediate (k : Kind) : List Stage := k.order.tail.dropLast

theorem initial_not_mem_intermediate (k : Kind) : k.initial ∉ k.intermediate := by
  cases k <;> decide

theorem ne_live_of_mem_intermediate (h : st ∈ k.intermediate) : st ≠ .live := by
  rintro rfl
  revert h
  cases k <;> decide

end Change.Kind

namespace Step

variable {all : Bool} {f f' : Int → Int → Option Table} {x y : Int} {t t' : Table} {part : Part}
  {st : Stage} {j j' : Job}

/--
Is the part counted? Those that may be declared in any stage are counted if all are.
-/
def counts (all : Bool) (p : Part) : Bool := all || !p.isDeclared

def Quiet (all : Bool) (f : Int → Int → Option Table) : Prop :=
  ∀ a b t p, f a b = some t → counts all p = true → ¬ t.Pending p

def Only (all : Bool) (f : Int → Int → Option Table) (x y : Int) (part : Part) : Prop :=
  ∀ a b t p, f a b = some t → counts all p = true → t.Pending p → a = x ∧ b = y ∧ p = part

/--
What the job works on is in the stage of the job, and all other counted parts are public.
-/
structure Busy (all : Bool) (f : Int → Int → Option Table) (j : Job) : Prop where
  found : ∃ t p, j.Finds f t p ∧ t.stageOf p = some j.stage
  others : ∀ a b t p, f a b = some t → counts all p = true → t.Pending p →
    a = j.schemaId ∧ b = j.tableId ∧ j.part? t = some p

structure Agrees (all : Bool) (f : Int → Int → Option Table) (j : Job) : Prop where
  busy : j.isFinished = false → j.stage ∈ j.kind.intermediate → Busy all f j
  quiet : j.isFinished = true ∨ j.stage ∉ j.kind.intermediate → Quiet all f

theorem agrees_of_quiet (h : Quiet all f)
    (hj : j.isFinished = true ∨ j.stage ∉ j.kind.intermediate) : Agrees all f j := by
  refine ⟨?_, fun _ => h⟩
  intro hf hs
  cases hj with
  | inl hj =>
    rw [hf] at hj
    cases hj
  | inr hj => exact absurd hs hj

theorem agrees_of_busy (h : Busy all f j) (hf : j.isFinished = false)
    (hs : j.stage ∈ j.kind.intermediate) : Agrees all f j := by
  refine ⟨fun _ _ => h, ?_⟩
  intro hj
  cases hj with
  | inl hj =>
    rw [hf] at hj
    cases hj
  | inr hj => exact absurd hs hj

theorem Quiet.only (h : Quiet all f) : Only all f x y part := by
  intro a b t p ht hc hp
  exact absurd hp (h a b t p ht hc)

theorem Agrees.only (h : Agrees all f j) (ht : f j.schemaId j.tableId = some t)
    (hp : j.part? t = some part) : Only all f j.schemaId j.tableId part := by
  by_cases hb : j.isFinished = false ∧ j.stage ∈ j.kind.intermediate
  · intro a b u p hu hc hpend
    obtain ⟨ha, hb, hpart⟩ := (h.busy hb.1 hb.2).others a b u p hu hc hpend
    rw [ha, hb, ht] at hu
    cases hu
    rw [hp] at hpart
    cases hpart
    exact ⟨ha, hb, rfl⟩
  · apply Quiet.only
    apply h.quiet
    by_cases hf : j.isFinished = true
    · exact .inl hf
    · exact .inr fun hs => hb ⟨Bool.eq_false_iff.2 hf, hs⟩

theorem Busy.stageOf (h : Busy all f j) (ht : f j.schemaId j.tableId = some t)
    (hp : j.part? t = some part) : t.stageOf part = some j.stage := by
  obtain ⟨u, p, hu, hs⟩ := h.found
  have hut := hu.table
  rw [ht] at hut
  cases hut
  have hup := hu.part
  rw [hp] at hup
  cases hup
  exact hs

section Edit

def Puts (f : Int → Int → Option Table) (x y : Int) (t : Table)
    (f' : Int → Int → Option Table) : Prop :=
  ∀ a b, f' a b = if a = x ∧ b = y then some t else f a b

theorem Puts.self (h : Puts f x y t f') : f' x y = some t := by
  rw [h]
  exact if_pos ⟨rfl, rfl⟩

theorem Puts.same (h : f x y = some t) : Puts f x y t f := by
  intro a b
  split
  · next hplace => rw [hplace.1, hplace.2, h]
  · rfl

theorem Puts.trans {f'' : Int → Int → Option Table} (h : Puts f x y t f') (h' : Puts f' x y t' f'') :
    Puts f x y t' f'' := by
  intro a b
  rw [h', h]
  split <;> rfl

theorem Only.restaged (h : Only all f x y part) (ht : f x y = some t)
    (hr : t.Restaged t' part st) (hf : Puts f x y t' f') : Only all f' x y part := by
  intro a b u p hu hc hp
  rw [hf] at hu
  split at hu
  · next hab =>
    cases hu
    cases hr.pending hp with
    | inl hpart => exact ⟨hab.1, hab.2, hpart.1⟩
    | inr hpart => exact ⟨hab.1, hab.2, (h x y t p ht hc hpart.2).2.2⟩
  · exact h a b u p hu hc hp

theorem Only.quiet_restaged (h : Only all f x y part) (ht : f x y = some t)
    (hr : t.Restaged t' part .live) (hf : Puts f x y t' f') : Quiet all f' := by
  intro a b u p hu hc hp
  obtain ⟨ha, hb, hpart⟩ := h.restaged ht hr hf a b u p hu hc hp
  rw [ha, hb, hf.self] at hu
  cases hu
  cases hr.pending hp with
  | inl hlive => exact hlive.2 rfl
  | inr hother => exact hother.1 hpart

theorem Only.quiet_shed (h : Only all f x y part) (ht : f x y = some t) (hr : t.Shed t' part)
    (hf : Puts f x y t' f') : Quiet all f' := by
  intro a b u p hu hc hp
  rw [hf] at hu
  split at hu
  · cases hu
    obtain ⟨q, hne, hd, hq⟩ := hr.pending hp
    have hcq : counts all q = true := by
      unfold counts
      rw [hd]
      exact hc
    exact hne (h x y t q ht hcq hq).2.2
  · next hab =>
    obtain ⟨ha, hb, _⟩ := h a b u p hu hc hp
    exact hab ⟨ha, hb⟩

theorem Only.quiet_cleared (h : Only all f x y part)
    (hf : ∀ a b, f' a b = if a = x ∧ b = y then none else f a b) : Quiet all f' := by
  intro a b u p hu hc hp
  rw [hf] at hu
  split at hu
  · cases hu
  · next hab =>
    obtain ⟨ha, hb, _⟩ := h a b u p hu hc hp
    exact hab ⟨ha, hb⟩

theorem Quiet.puts (h : Quiet all f) (ht : ∀ p, counts all p = true → ¬ t.Pending p)
    (hf : Puts f x y t f') : Quiet all f' := by
  intro a b u p hu hc
  rw [hf] at hu
  split at hu
  · cases hu
    exact ht p hc
  · exact h a b u p hu hc

end Edit

theorem Only.busy (h : Only all f j.schemaId j.tableId part) (hf : j.Finds f t part)
    (hs : t.stageOf part = some j.stage) : Busy all f j := by
  refine ⟨⟨t, part, hf, hs⟩, ?_⟩
  intro a b u p hu hc hp
  obtain ⟨ha, hb, hpart⟩ := h a b u p hu hc hp
  rw [ha, hb, hf.table] at hu
  cases hu
  rw [hpart]
  exact ⟨ha, hb, hf.part⟩

section Results

variable {s : Surroundings} {d : Draft} {r : Result} {table : Table} {σ : Status} {o : Option Table}

def Settles (all : Bool) (r : Result) : Prop :=
  ∀ v, r.1 = .ok v → Agrees all r.2.txn.table? r.2.job

theorem settles_error (e : Change.Trouble) (d : Draft) : Settles all (.error e, d) := by
  intro v h
  cases h

theorem settles_ended (h : Quiet all d.txn.table?) (hσ : σ.isTerminal = true) :
    Settles all (d.ended σ st o) := by
  intro v _
  exact agrees_of_quiet h (.inl hσ)

theorem settles_completed (h : Quiet all (d.write s table).txn.table?) (hσ : σ.isTerminal = true) :
    Settles all (d.completed s table σ st) := by
  intro v _
  exact agrees_of_quiet h (.inl hσ)

theorem settles_advanced (h : Busy all (d.write s table).txn.table? { d.job with stage := st })
    (hf : d.job.isFinished = false) (hs : st ∈ d.job.kind.intermediate) :
    Settles all (d.advanced s table st) := by
  intro v _
  exact agrees_of_busy h hf hs

theorem puts_write (hid : table.id = d.job.tableId) :
    Puts d.txn.table? d.job.schemaId d.job.tableId { table with updated := s.stamp }
      (d.write s table).txn.table? := by
  intro a b
  unfold Draft.write
  dsimp only
  rw [Txn.table?_written, ← hid]

end Results

section Hiding

variable {s : Surroundings} {d : Draft} {r : Result} {table : Table} {h : Hiding}

structure Hiding.Hides (h : Hiding) (j : Job) (table : Table) (part : Part) : Prop where
  kind : j.kind.intermediate = [.writeOnly, .deleteOnly]
  named : j.part? table = some part
  there : (table.stageOf part).isSome
  isLive : h.isLive = true ↔ table.stageOf part = some .live
  restaged : ∀ st, table.Restaged (h.withStage st) part st
  id : ∀ st, (h.withStage st).id = table.id
  stays : ∀ st stamp, j.part? { h.withStage st with updated := stamp } = some part
  staysOpen : ∀ st, (h.withStage st).stage = .live ∨ part = .table

theorem Hiding.Hides.settles_advanced (hh : h.Hides d.job table part) (hd : d.Holds table)
    (hf : d.job.isFinished = false)
    (ho : Only all d.txn.table? d.job.schemaId d.job.tableId part)
    (hs : st ∈ d.job.kind.intermediate) : Settles all (d.advanced s (h.withStage st) st) := by
  have hputs := puts_write (s := s) (d := d) ((hh.id st).trans hd.id)
  have hr := (hh.restaged st).stamped s.stamp
  have honly : Only all (d.write s (h.withStage st)).txn.table? d.job.schemaId d.job.tableId part :=
    ho.restaged hd.table hr hputs
  apply Step.settles_advanced _ hf hs
  apply Only.busy (j := { d.job with stage := st }) honly
  · exact ⟨hputs.self, hh.stays st s.stamp, hh.staysOpen st⟩
  · obtain ⟨st', hst⟩ := Option.isSome_iff_exists.1 hh.there
    rw [hr.changed, hst]
    rfl

theorem Hidden.settles (hr : Hidden s table h d r) (hh : h.Hides d.job table part)
    (hd : d.Holds table) (hf : d.job.isFinished = false) (ha : Agrees all d.txn.table? d.job)
    (hlast : Only all d.txn.table? d.job.schemaId d.job.tableId part →
      Settles all (h.last.run d)) : Settles all r := by
  have ho := ha.only hd.table hh.named
  cases hr with
  | kept hb hl =>
    apply settles_ended _ rfl
    apply ha.quiet
    right
    intro hs
    have hstage := (ha.busy hf hs).stageOf hd.table hh.named
    rw [hh.isLive.1 hl] at hstage
    exact Kind.ne_live_of_mem_intermediate hs (Option.some.inj hstage).symm
  | shown hb hl =>
    apply settles_completed _ rfl
    exact ho.quiet_restaged hd.table ((hh.restaged .live).stamped _)
      (puts_write ((hh.id .live).trans hd.id))
  | refused => exact settles_error _ _
  | hidden hb hs hc =>
    apply hh.settles_advanced hd hf ho
    simp [hh.kind]
  | closed hb hs =>
    apply hh.settles_advanced hd hf ho
    simp [hh.kind]
  | gone hb hs => exact hlast ho
  | stuck => exact settles_error _ _

end Hiding

section Kinds

variable {P : Surroundings → Prop} {s : Surroundings} {d : Draft} {r : Result} {table : Table}
  {check : Bool} {newId : Int} {name : String} {fk : Catalog.ForeignKey}

/--
A table in which nothing is declared that is not public, if all is counted.
-/
def Declares (all : Bool) (t : Table) : Prop :=
  ∀ p, p.isDeclared = true → counts all p = true → ¬ t.Pending p

theorem Created.settles (hr : Created s table check d r) (hq : Quiet all d.txn.table?)
    (ht : Declares all table) : Settles all r := by
  cases hr with
  | undone hb => exact settles_ended hq rfl
  | refused => exact settles_error _ _
  | failed => exact settles_error _ _
  | created hb hs hschema hname hcheck hfree =>
    apply settles_completed _ rfl
    have hnew (stamp : Nat) (p : Part) (hc : counts all p = true) :
        ¬ { createdTable d.job table with updated := stamp }.Pending p := by
      rintro ⟨st, hst, hl⟩
      rw [Table.stageOf_stamped] at hst
      obtain ⟨hd, hp⟩ := Table.pending_createdTable ⟨st, hst, hl⟩
      exact ht p hd hc hp
    have hadded : Quiet all (d.txn.added d.job.schemaId (createdTable d.job table)).table? := by
      apply hq.puts (hnew table.updated)
      exact Txn.table?_added _ _ _
    exact hadded.puts (hnew s.stamp) (puts_write rfl)
  | stuck => exact settles_error _ _

theorem Truncated.settles (hr : Truncated s newId check d r) (hq : Quiet all d.txn.table?) :
    Settles all r := by
  cases hr with
  | missing => exact settles_error _ _
  | undone => exact settles_ended hq rfl
  | refused => exact settles_error _ _
  | failed => exact settles_error _ _
  | truncated hb hs table hd hl hcheck hfree =>
    apply settles_completed _ rfl
    have hnew (stamp : Nat) (p : Part) (hc : counts all p = true) :
        ¬ { table with id := newId, updated := stamp }.Pending p := by
      rintro ⟨st, hst, hl⟩
      apply hq _ _ table p hd.table hc
      refine ⟨st, ?_, hl⟩
      rw [← hst]
      cases p <;> rfl
    have honly : Only all d.txn.table? d.job.schemaId table.id .table := hq.only
    have hcleared : Quiet all (d.txn.cleared d.job.schemaId table.id).table? :=
      honly.quiet_cleared (Txn.table?_cleared _ _ _)
    have hadded : Quiet all ((d.txn.cleared d.job.schemaId table.id).added d.job.schemaId
        { table with id := newId }).table? := by
      apply hcleared.puts (hnew table.updated)
      exact Txn.table?_added _ _ _
    apply hadded.puts (hnew s.stamp)
    exact Txn.table?_written _ _ _
  | stuck => exact settles_error _ _

theorem Unbound.settles (hr : Unbound s name d r) (hq : Quiet all d.txn.table?) :
    Settles all r := by
  cases hr with
  | missing => exact settles_error _ _
  | undone => exact settles_ended hq rfl
  | unknown => exact settles_error _ _
  | unbound hb hs table hd hl pos hpos =>
    apply settles_completed _ rfl
    apply hq.only.quiet_shed hd.table ((Table.shed_eraseForeignKey table pos).stamped _)
    exact puts_write hd.id
  | stuck => exact settles_error _ _

theorem hides_ofTable (ha : d.job.args = .dropTable check) (hk : d.job.kind = d.job.args.kind) :
    (Hiding.ofTable s d.job table check).Hides d.job table .table where
  kind := by
    rw [hk, ha]
    rfl
  named := by
    unfold Change.Job.part?
    rw [ha]
  there := rfl
  isLive := (decide_eq_true_iff).trans Option.some_inj.symm
  restaged := Table.restaged_stage table
  id _ := rfl
  stays st stamp := by
    unfold Change.Job.part?
    rw [ha]
  staysOpen _ := .inr rfl

theorem Dropped.settles (hr : Dropped s check d r) (ha : d.job.args = .dropTable check)
    (hk : d.job.kind = d.job.args.kind) (hf : d.job.isFinished = false)
    (hj : Agrees all d.txn.table? d.job) : Settles all r := by
  cases hr with
  | missing => exact settles_error _ _
  | held table hd r h =>
    apply h.settles (hides_ofTable ha hk) hd hf hj
    intro ho
    rw [run_last_ofTable hd]
    intro v _
    refine agrees_of_quiet (ho.quiet_cleared ?_) (.inl rfl)
    intro a b
    exact (Txn.table?_cleared _ _ _ _ _).trans (by rw [hd.id])

theorem hides_ofIndex {pos : Nat} (ha : d.job.args = .dropIndex name)
    (hk : d.job.kind = d.job.args.kind) (hl : table.stage = .live)
    (hpos : table.indexPosition? name = some pos) :
    (Hiding.ofIndex s d.job table name pos).Hides d.job table (.index pos) where
  kind := by
    rw [hk, ha]
    rfl
  named := by
    unfold Change.Job.part?
    rw [ha]
    dsimp only
    rw [hpos]
    rfl
  there := by
    have hlt := (List.findIdx?_eq_some_iff_findIdx_eq.1 hpos).1
    simp [Table.stageOf, hlt]
  isLive := decide_eq_true_iff
  restaged := Table.restaged_setIndexStage table pos
  id _ := rfl
  stays st stamp := by
    have hsame := (Table.indexPosition?_setIndexStage table pos st name).trans hpos
    unfold Change.Job.part?
    rw [ha]
    exact congrArg (·.map Part.index) hsame
  staysOpen _ := .inl hl

theorem hides_ofColumn {pos : Nat} (ha : d.job.args = .dropColumn name)
    (hk : d.job.kind = d.job.args.kind) (hl : table.stage = .live)
    (hpos : table.columnPosition? name = some pos) :
    (Hiding.ofColumn s d.job table name pos).Hides d.job table (.column pos) where
  kind := by
    rw [hk, ha]
    rfl
  named := by
    unfold Change.Job.part?
    rw [ha]
    dsimp only
    rw [hpos]
    rfl
  there := by
    have hlt := (List.findIdx?_eq_some_iff_findIdx_eq.1 hpos).1
    simp [Table.stageOf, hlt]
  isLive := decide_eq_true_iff
  restaged := Table.restaged_setColumnStage table pos
  id _ := rfl
  stays st stamp := by
    have hsame := (Table.columnPosition?_setColumnStage table pos st name).trans hpos
    unfold Change.Job.part?
    rw [ha]
    exact congrArg (·.map Part.column) hsame
  staysOpen _ := .inl hl

theorem Withdrawn.settles {target? : Table → Option Hiding} (hr : Withdrawn s target? d r)
    (hf : d.job.isFinished = false) (hj : Agrees all d.txn.table? d.job)
    (hh : ∀ t h, t.stage = .live → target? t = some h → ∃ part t', h.Hides d.job t part ∧
      t.Shed t' part ∧ (d.Holds t → h.last.run d = d.completed s t' .done .absent) ∧ t'.id = t.id) :
    Settles all r := by
  cases hr with
  | missing => exact settles_error _ _
  | held table hd hl h ht r hr =>
    obtain ⟨part, t', hhides, hshed, hlast, hid⟩ := hh table h hl ht
    apply hr.settles hhides hd hf hj
    intro ho
    rw [hlast hd]
    apply settles_completed _ rfl
    exact ho.quiet_shed hd.table (hshed.stamped _) (puts_write (hid.trans hd.id))

theorem part?_addForeignKey {pos : Nat} (ha : d.job.args = .addForeignKey fk check)
    (hpos : table.foreignKeyPosition? fk.name = some pos) :
    d.job.part? table = some (.foreignKey pos) := by
  unfold Change.Job.part?
  rw [ha]
  dsimp only
  rw [hpos]
  rfl

theorem findForeignKey?_of_checkAdded {enabled : Bool} {v : View} {schema : String}
    (h : Constraint.checkAdded enabled v schema table fk check = .ok ()) :
    table.findForeignKey? fk.name = none := by
  obtain ⟨u, hname, _⟩ := bind_eq_ok.1 h
  unfold Constraint.checkName Constraint.orElse at hname
  split at hname
  · next hnone => exact Option.isNone_iff_eq_none.1 hnone
  · cases hname

theorem foreignKeyPosition?_of_find? (h : table.findForeignKey? name = none) :
    table.foreignKeyPosition? name = none := by
  unfold Table.foreignKeyPosition?
  rw [List.findIdx?_eq_none_iff]
  intro other ho
  exact Bool.eq_false_iff.2 (List.find?_eq_none.1 h other ho)

theorem foreignKeyPosition?_withStagedKey (h : table.findForeignKey? fk.name = none) :
    (withStagedKey table fk).foreignKeyPosition? fk.name = some table.foreignKeys.length := by
  apply Catalog.findIdx?_concat (foreignKeyPosition?_of_find? h)
  simp [stagedKey]

theorem pending_withStagedKey {p : Part} (hp : (withStagedKey table fk).Pending p) :
    p = .foreignKey table.foreignKeys.length ∨ table.Pending p := by
  obtain ⟨st, hst, hl⟩ := hp
  rw [Table.stageOf_withStagedKey] at hst
  split at hst
  · next hpart => exact .inl hpart
  · exact .inr ⟨st, hst, hl⟩

theorem pending_of_stagedAlready? {old : Catalog.ForeignKey}
    (h : stagedAlready? table fk = some old) : ∃ pos, table.Pending (.foreignKey pos) := by
  obtain ⟨hfind, hcond⟩ := Option.filter_eq_some_iff.1 h
  obtain ⟨pos, hlt, hget⟩ := List.mem_iff_getElem.1 (List.mem_of_find?_eq_some hfind)
  refine ⟨pos, old.stage, ?_, ?_⟩
  · simp only [Table.stageOf, List.getElem?_eq_getElem hlt, hget, Option.map_some]
  · simpa using (Bool.and_eq_true_iff.1 hcond).1

theorem Agrees.stagedAlready?_eq_none (hj : Agrees all d.txn.table? d.job) (hd : d.Holds table)
    (hi : d.job.stage ∉ d.job.kind.intermediate) : stagedAlready? table fk = none := by
  rw [Option.eq_none_iff_forall_ne_some]
  intro old ho
  obtain ⟨pos, hpend⟩ := pending_of_stagedAlready? ho
  refine hj.quiet (.inr hi) _ _ _ _ hd.table ?_ hpend
  unfold counts
  simp [Part.isDeclared]

theorem Agrees.stagedAt (hj : Agrees all d.txn.table? d.job) (hf : d.job.isFinished = false)
    (ha : d.job.args = .addForeignKey fk check) (hi : d.job.stage ∈ d.job.kind.intermediate) :
    ∃ t pos, d.txn.table? d.job.schemaId d.job.tableId = some t ∧
      StagedAt t fk.name d.job.stage pos := by
  obtain ⟨t, p, hfinds, hstage⟩ := (hj.busy hf hi).found
  have hpart := hfinds.part
  unfold Job.part? at hpart
  rw [ha] at hpart
  obtain ⟨pos, hpos, rfl⟩ := Option.map_eq_some_iff.1 hpart
  exact ⟨t, pos, hfinds.table, hpos, hstage⟩

theorem Bound.settles_staged (ha : d.job.args = .addForeignKey fk check)
    (hk : d.job.kind = d.job.args.kind) (hf : d.job.isFinished = false)
    (hq : Quiet all d.txn.table?) (hd : d.Holds table) (hl : table.stage = .live)
    (hname : table.findForeignKey? fk.name = none) :
    Settles all ((d.learn table fk check).advanced s (withStagedKey table fk) .writeOnly) := by
  have hputs : Puts d.txn.table? d.job.schemaId d.job.tableId
      { withStagedKey table fk with updated := s.stamp }
      ((d.learn table fk check).write s (withStagedKey table fk)).txn.table? := puts_write hd.id
  have honly : Only all ((d.learn table fk check).write s (withStagedKey table fk)).txn.table?
      d.job.schemaId d.job.tableId (.foreignKey table.foreignKeys.length) := by
    intro a b u p hu hc hp
    rw [hputs] at hu
    split at hu
    · next hab =>
      cases hu
      obtain ⟨st, hst, hlive⟩ := hp
      rw [Table.stageOf_stamped] at hst
      cases pending_withStagedKey ⟨st, hst, hlive⟩ with
      | inl hpart => exact ⟨hab.1, hab.2, hpart⟩
      | inr hold => exact absurd hold (hq _ _ _ _ hd.table hc)
    · exact absurd hp (hq a b u p hu hc)
  apply settles_advanced
  · refine Only.busy (j := { (d.learn table fk check).job with stage := .writeOnly }) honly
      ⟨hputs.self, ?_, .inl hl⟩ ?_
    · exact congrArg (·.map Part.foreignKey) (foreignKeyPosition?_withStagedKey hname)
    · rw [Table.stageOf_stamped, Table.stageOf_withStagedKey, if_pos rfl]
  · exact hf
  · have hkind : (d.learn table fk check).job.kind = .addForeignKey := by
      rw [ha] at hk
      exact hk
    rw [hkind]
    decide

theorem Bound.settles (hr : Bound P fk check d r) (ha : d.job.args = .addForeignKey fk check)
    (hk : d.job.kind = d.job.args.kind) (hf : d.job.isFinished = false)
    (hj : Agrees all d.txn.table? d.job) : Settles all r := by
  have hinter : d.job.kind.intermediate = [.writeOnly, .writeReorg] := by
    rw [hk, ha]
    rfl
  have hstart (hs : d.job.stage = .absent) : Quiet all d.txn.table? := by
    apply hj.quiet
    simp [hinter, hs]
  cases hr with
  | missing => exact settles_error _ _
  | undone hb s table hd hl pos hpos =>
    apply settles_completed _ rfl
    apply (hj.only hd.table (part?_addForeignKey ha hpos)).quiet_shed hd.table
    · exact (Table.shed_eraseForeignKey table pos).stamped s.stamp
    · exact puts_write hd.id
  | unneeded hb table hd hpos =>
    apply settles_ended _ rfl
    apply hj.quiet
    right
    intro hs
    obtain ⟨u, pos, hu, hstaged⟩ := hj.stagedAt hf ha hs
    cases hd.table.symm.trans hu
    cases hpos.symm.trans hstaged.position
  | refused => exact settles_error _ _
  | resumed hb hs table hd old ho =>
    have hi : d.job.stage ∉ d.job.kind.intermediate := by simp [hinter, hs]
    cases (hj.stagedAlready?_eq_none hd hi).symm.trans ho
  | staged hb hs s hp table hd hl hcheck =>
    exact settles_staged ha hk hf (hstart hs) hd hl (findForeignKey?_of_checkAdded hcheck)
  | confirmed hb hs s table hd hl pos hpos =>
    have hputs : Puts d.txn.table? d.job.schemaId d.job.tableId
        { setForeignKeyStage table pos .writeReorg with updated := s.stamp }
        (d.write s (setForeignKeyStage table pos .writeReorg)).txn.table? := puts_write hd.id
    have hr := (Table.restaged_setForeignKeyStage table pos .writeReorg).stamped s.stamp
    have honly : Only all (d.write s (setForeignKeyStage table pos .writeReorg)).txn.table?
        d.job.schemaId d.job.tableId (.foreignKey pos) :=
      (hj.only hd.table (part?_addForeignKey ha hpos.position)).restaged hd.table hr hputs
    apply settles_advanced
    · refine Only.busy (j := { d.job with stage := .writeReorg }) honly ⟨hputs.self, ?_, .inl hl⟩ ?_
      · have hsame := Table.foreignKeyPosition?_setForeignKeyStage table pos .writeReorg fk.name
        apply part?_addForeignKey ha
        exact hsame.trans hpos.position
      · rw [hr.changed]
        unfold Table.stageOf
        dsimp only
        rw [hpos.stage]
        rfl
    · exact hf
    · rw [hinter]
      decide
  | turned => exact settles_error _ _
  | bound hb hs s table hd hl pos hpos =>
    apply settles_completed _ rfl
    apply (hj.only hd.table (part?_addForeignKey ha hpos.position)).quiet_restaged hd.table
    · exact (Table.restaged_setForeignKeyStage table pos .live).stamped s.stamp
    · exact puts_write hd.id
  | failed => exact settles_error _ _

theorem Took.settles (h : Took P s d r) (hk : d.job.kind = d.job.args.kind)
    (hf : d.job.isFinished = false) (hj : Agrees all d.txn.table? d.job)
    (ht : ∀ t c, d.job.args = .createTable t c → Declares all t) : Settles all r := by
  have hsimple (hi : d.job.args.kind.intermediate = []) : Quiet all d.txn.table? := by
    apply hj.quiet
    simp [hk, hi]
  unfold Took at h
  split at h
  · next ha => exact Created.settles h (hsimple (ha ▸ rfl)) (ht _ _ ha)
  · next ha => exact Dropped.settles h ha hk hf hj
  · next ha => exact Truncated.settles h (hsimple (ha ▸ rfl))
  · next ha => exact Bound.settles h ha hk hf hj
  · next ha => exact Unbound.settles h (hsimple (ha ▸ rfl))
  · next name ha =>
    apply Withdrawn.settles h hf hj
    intro t target hl htarget
    obtain ⟨pos, hpos, rfl⟩ := Option.map_eq_some_iff.1 htarget
    exact ⟨_, _, hides_ofIndex ha hk hl hpos, Table.shed_eraseIndex t pos,
      fun hd => run_last_ofIndex hd pos, rfl⟩
  · next name ha =>
    apply Withdrawn.settles h hf hj
    intro t target hl htarget
    obtain ⟨pos, hpos, rfl⟩ := Option.map_eq_some_iff.1 htarget
    refine ⟨_, _, hides_ofColumn ha hk hl hpos, Table.shed_dropColumn t pos,
      fun hd => run_last_ofColumn hd pos, ?_⟩
    unfold Table.dropColumn
    split <;> rfl

end Kinds

section Outcome

variable {limit : Nat} {P : Surroundings → Prop} {base W : Snapshot} {first : Job}

theorem part?_of_follows (h : j.Follows j') (t : Table) : j'.part? t = j.part? t := by
  unfold Change.Job.part?
  cases h.args with
  | inl hsame => rw [hsame]
  | inr hnew =>
    obtain ⟨fk, check, id, st, hj, hj'⟩ := hnew
    rw [hj, hj']

theorem Busy.follow (h : Busy all f j) (hj : j.Follows j') (hs : j'.stage = j.stage) :
    Busy all f j' := by
  obtain ⟨t, p, ht, hst⟩ := h.found
  refine ⟨⟨t, p, ⟨?_, ?_, ht.isOpen⟩, ?_⟩, ?_⟩
  · rw [hj.schemaId, hj.tableId]
    exact ht.table
  · rw [part?_of_follows hj]
    exact ht.part
  · rw [hs]
    exact hst
  · intro a b u p hu hc hp
    rw [hj.schemaId, hj.tableId, part?_of_follows hj]
    exact h.others a b u p hu hc hp

theorem Agrees.follow (h : Agrees all f j) (hj : j.Follows j') (hs : j'.stage = j.stage)
    (hbegin : j'.isFinished = false → j.isFinished = false)
    (hend : j'.isFinished = true → j.isFinished = true ∨ j.stage ∉ j.kind.intermediate) :
    Agrees all f j' where
  busy hf hi := by
    rw [hs, hj.kind] at hi
    exact (h.busy (hbegin hf) hi).follow hj hs
  quiet hq := by
    apply h.quiet
    cases hq with
    | inl hf => exact hend hf
    | inr hi =>
      rw [hs, hj.kind] at hi
      exact .inr hi

theorem Agrees.not_mem_of_isVain {d : Draft} (h : Agrees all d.txn.table? d.job) (hv : d.IsVain)
    (hk : d.job.kind = d.job.args.kind) (hf : d.job.isFinished = false) :
    d.job.stage ∉ d.job.kind.intermediate := by
  intro hs
  cases hv with
  | inl hstage =>
    rw [hstage, ← hk] at hs
    exact Kind.initial_not_mem_intermediate _ hs
  | inr hnone =>
    obtain ⟨t, p, ht, _⟩ := (h.busy hf hs).found
    exact hnone t p ht

theorem isFinished_started (j : Job) : j.started.isFinished = j.isFinished := by
  unfold Change.Job.started Change.Job.isFinished
  split
  · next h =>
    rw [h]
    rfl
  · rfl

theorem agrees_started (h : Agrees all f j) : Agrees all f j.started := by
  apply h.follow (Change.Job.follows_started j) (Change.Job.stage_started j)
  · intro hf
    rw [← isFinished_started]
    exact hf
  · intro hf
    left
    rw [← isFinished_started]
    exact hf

theorem not_mem_of_turnBack (h : j.turnBack.isFinished = true) :
    j.stage ∉ j.kind.intermediate := by
  cases status_turnBack j with
  | inl hstart =>
    rw [hstart.2]
    exact Kind.initial_not_mem_intermediate _
  | inr hback =>
    unfold Change.Job.isFinished at h
    rw [hback] at h
    cases h

theorem agrees_of_failure {d : Draft} {r : Draft} {e : Change.Trouble}
    (hr : Framed d (.error e, r)) (hk : d.job.kind = d.job.args.kind)
    (hf : d.job.isFinished = false) (hj : Agrees all d.txn.table? d.job) :
    Agrees all d.txn.table? (blame limit r.job e) := by
  obtain ⟨hstage, hstatus⟩ := hr.failed e rfl
  have hsame : (blame limit r.job e).stage = d.job.stage :=
    (stage_blame limit r.job e).trans hstage
  have hrkind : r.job.kind = d.job.kind := hr.follows.kind
  apply hj.follow (hr.follows.trans (follows_blame _ _ _)) hsame (fun _ => hf)
  intro hend
  right
  unfold Change.Job.isFinished at hend hf
  cases status_blame limit r.job e with
  | inl hkept =>
    rw [hkept] at hend
    rcases hstatus with hs | ⟨hs, _⟩ | ⟨_, hv⟩
    · rw [hs, hf] at hend
      cases hend
    · rw [hs] at hend
      cases hend
    · exact hj.not_mem_of_isVain hv hk hf
  | inr hturned =>
    rw [hturned] at hend
    have hstart := not_mem_of_turnBack hend
    dsimp only at hstage
    rw [hstage, hrkind] at hstart
    exact hstart

theorem agrees_of_disorder {d : Draft} {r : Draft} {v : Int} {e : Change.Trouble}
    (hr : Framed d (.ok v, r)) (hf : d.job.isFinished = false)
    (hj : Agrees all d.txn.table? d.job) (he : isHopeless e) :
    Agrees all d.txn.table? (blame limit { r.job with stage := d.job.stage } e) := by
  have hback : d.job.Follows { r.job with stage := d.job.stage } := by
    have h := hr.follows
    exact ⟨h.id, h.kind, h.schemaId, h.tableId, h.schemaName, h.tableName, h.args⟩
  have hsame := stage_blame limit { r.job with stage := d.job.stage } e
  apply hj.follow (hback.trans (follows_blame _ _ _)) hsame (fun _ => hf)
  intro hend
  right
  have hturned (h : { r.job with stage := d.job.stage }.turnBack.isFinished = true) :
      d.job.stage ∉ d.job.kind.intermediate := by
    have hrkind : r.job.kind = d.job.kind := hr.follows.kind
    have hstart := not_mem_of_turnBack h
    dsimp only at hstart
    rw [hrkind] at hstart
    exact hstart
  unfold Change.Job.isFinished at hend hf
  cases status_blame limit { r.job with stage := d.job.stage } e with
  | inl hkept =>
    rw [hkept] at hend
    dsimp only at hend
    rcases hr.status v rfl with hs | hs | hs
    · dsimp only at hs
      rw [hs, hf] at hend
      cases hend
    all_goals
      dsimp only at hs
      apply hturned
      unfold Change.Job.isFinished
      rw [← status_blame_of_hopeless limit _ _ he, hkept]
      · exact hend
      · simp [hs]
      · simp [hs]
  | inr h =>
    rw [h] at hend
    exact hturned hend

theorem Outcome.agrees (h : Outcome limit P base first W j) (hk : first.kind = first.args.kind)
    (hf : first.isFinished = false) (hj : Agrees all base.table? first)
    (ht : ∀ t c, first.args = .createTable t c → Declares all t) : Agrees all W.table? j := by
  have hstarted := agrees_started hj
  have hfollows := Change.Job.follows_started first
  have hk' := hfollows.kind_eq hk
  have hf' : first.started.isFinished = false := (isFinished_started first).trans hf
  have ht' (t : Table) (c : Bool) (ha : first.started.args = .createTable t c) : Declares all t := by
    cases hfollows.args with
    | inl hsame => exact ht t c (hsame.symm.trans ha)
    | inr hnew =>
      obtain ⟨fk, check, id, st, _, hj'⟩ := hnew
      rw [ha] at hj'
      cases hj'
  cases h with
  | success s hs v d h ho error =>
    have hsettled := h.settles hk' hf' hstarted ht' v rfl
    exact hsettled.follow ⟨rfl, rfl, rfl, rfl, rfl, rfl, .inl rfl⟩ rfl id .inl
  | failure s hs e d h => exact agrees_of_failure h.framed hk' hf' hstarted
  | disorder s hs v d h ho e he =>
    have hstage := Change.Job.stage_started first
    rw [← hstage]
    exact agrees_of_disorder h.framed hf' hstarted he

end Outcome

end Step

end Steward
