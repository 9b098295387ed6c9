import Steward.Proofs.Catalog.Coverage
import Steward.Proofs.Constraint.Twins
import Steward.Proofs.Step.Deed
import Steward.Proofs.Step.Twins
import Steward.Proofs.View

/-!
This module contains steps of one job in two ledgers. If the tables are the same apart from places
that the job does not reach, and its checks find the same parents and the same children, then every
step asks for the same rows, fails with the same trouble or does the same to the tables.
-/

namespace Steward

open Catalog (Fault ForeignKey Stage Table)
open Change (Args Job Status Trouble)
open Constraint (SameChildren SameParent)
open Ledger (Snapshot Txn)

namespace Change.Args

def keys : Args → List ForeignKey
  | createTable table _ => table.foreignKeys
  | addForeignKey fk _ => [fk]
  | _ => []

def newName? : Args → Option String
  | createTable table _ => some table.name
  | _ => none

end Change.Args

namespace Step

namespace Work

variable {α β γ δ : Type} {R : α → β → Prop} {S : γ → δ → Prop} {w : Work α} {w' : Work β}

/--
Both ask the same, and if they are answered the same they end in results that are related, whatever
the surroundings are by then.
-/
inductive Twins (R : α → β → Prop) : Work α → Work β → Prop where
  | done {a : α} {b : β} (h : R a b) : Twins R (.done a) (.done b)
  | ask (st : Sql.Statement) (k : Surroundings → Answer → Work α) (k' : Surroundings → Answer → Work β)
      (h : ∀ s s' answer, Twins R (k s answer) (k' s' answer)) :
    Twins R (.ask st k) (.ask st k')

theorem Twins.map {f : α → γ} {g : β → δ} (h : Twins R w w') (hf : ∀ a b, R a b → S (f a) (g b)) :
    Twins S (w.map f) (w'.map g) := by
  induction h with
  | done h => exact .done (hf _ _ h)
  | ask st k k' h ih => exact .ask st _ _ ih

end Work

variable {P : Int → Int → Prop} {a : Int} {d d' : Draft} {x x' : Surroundings} {table : Table}
  {check : Bool} {newId : Int} {name : String} {fk : ForeignKey} {updated : Nat}

/--
What the steps of a job see in two surroundings: the drafts differ only in places that the job does
not reach, and the checks of the job find the same in both.
-/
structure Sees (P : Int → Int → Prop) (x x' : Surroundings) (d d' : Draft) : Prop where
  twins : d.Twins P d.job.schemaId d'
  keyed : d.txn.working.Keyed
  housed : d.txn.working.Housed
  housed' : d'.txn.working.Housed
  own : ∀ a b, Reaches d.job a b → ¬ P a b
  checks : x'.checksForeignKeys = x.checksForeignKeys
  parents : ∀ fk ∈ d.job.args.keys, SameParent x.view x'.view fk
  children : ∀ t, d.txn.table? d.job.schemaId d.job.tableId = some t →
    SameChildren x.view x'.view d.job.schemaName t.name
  taken : ∀ name ∈ d.job.args.newName?, (∃ b t, d'.txn.table? d.job.schemaId b = some t ∧
      Text.same t.name name = true) ↔
    ∃ b t, d.txn.table? d.job.schemaId b = some t ∧ Text.same t.name name = true

namespace Sees

theorem place (h : Sees P x x' d d') : ¬ P d.job.schemaId d.job.tableId :=
  h.own _ _ ⟨rfl, .inl rfl⟩

theorem held (h : Sees P x x' d d') {t : Table}
    (ht : d.txn.table? d.job.schemaId d.job.tableId = some t) : ¬ P d.job.schemaId t.id := by
  rw [h.keyed.id _ _ _ ht]
  exact h.place

end Sees

section ForeignKeys

theorem Draft.Twins.removeForeignKey (h : d.Twins P a d') (hp : ¬ P a table.id) :
    Paired P a ((removeForeignKey x table name).run d)
      ((removeForeignKey x' { table with updated } name).run d') := by
  have hsame : ({ table with updated } : Table).foreignKeyPosition? name =
      table.foreignKeyPosition? name := rfl
  unfold Step.removeForeignKey
  rw [Act.run_bind_of_ok (Act.run_job d), Act.run_bind_of_ok (Act.run_job d'), hsame]
  dsimp only
  rw [h.job.isRollingBack]
  cases table.foreignKeyPosition? name with
  | some pos =>
    apply h.complete
    · rfl
    · exact hp
  | none =>
    dsimp only
    split
    · exact h.finishNow _ _ _ _
    · exact h.cancel _

theorem Sees.dropForeignKey (h : Sees P x x' d d') (ha : d.job.args = .dropForeignKey name) :
    Paired P d.job.schemaId ((dropForeignKey x).run d) ((dropForeignKey x').run d') := by
  unfold Step.dropForeignKey
  rw [Act.run_bind_of_ok (Act.run_job d), Act.run_bind_of_ok (Act.run_job d'), h.twins.job.args, ha]
  refine h.twins.publicTable h.place fun t updated ht => ?_
  rw [h.twins.job.isRollingBack, h.twins.job.stage]
  split
  · exact h.twins.finishNow _ _ _ _
  · split
    · exact h.twins.removeForeignKey (h.held ht)
    · exact h.twins.fail _

inductive SameStart (P : Int → Int → Prop) (a : Int) : Int ⊕ Staged → Int ⊕ Staged → Prop where
  | ended (v v' : Int) : SameStart P a (.inl v) (.inl v')
  | staged (table : Table) (updated pos : Nat) (fk : ForeignKey) (check : Bool) (hp : ¬ P a table.id) :
    SameStart P a (.inr ⟨table, pos, fk, check⟩) (.inr ⟨{ table with updated }, pos, fk, check⟩)

theorem Draft.Twins.stagedPosition (h : d.Twins P a d') (expected : Stage) :
    Alike P a (fun pos pos' => pos' = pos) ((stagedPosition table name expected).run d)
      ((stagedPosition { table with updated } name expected).run d') := by
  have hsame : ({ table with updated } : Table).foreignKeyPosition? name =
      table.foreignKeyPosition? name := rfl
  unfold Step.stagedPosition
  rw [hsame]
  cases table.foreignKeyPosition? name with
  | none => exact h.fail _
  | some pos =>
    dsimp only
    cases table.foreignKeys[pos]? with
    | none => exact h.fail _
    | some fk =>
      dsimp only
      split
      · exact ⟨.ok rfl, h⟩
      · exact h.fail _

theorem Sees.stageForeignKey (h : Sees P x x' d d')
    (ht : d.txn.table? d.job.schemaId d.job.tableId = some table) (hfk : fk ∈ d.job.args.keys) :
    Paired P d.job.schemaId ((stageForeignKey x table fk check).run d)
      ((stageForeignKey x' { table with updated } fk check).run d') := by
  have hstaged : stagedAlready? { table with updated } fk = stagedAlready? table fk := rfl
  have hp := h.held ht
  unfold Step.stageForeignKey
  rw [Act.run_bind_of_ok (Act.run_job d), Act.run_bind_of_ok (Act.run_job d'), hstaged]
  cases stagedAlready? table fk with
  | some existing => exact ⟨.ok trivial, h.twins.staged existing.stage⟩
  | none =>
    dsimp only
    rw [h.checks, h.twins.job.schemaName, (h.parents fk hfk).checkAdded]
    refine h.twins.orCancel _ ?_
    have hlearnt : Draft.Twins P d.job.schemaId (d.learn table fk check) (d'.learn table fk check) :=
      ⟨h.twins.txn, { h.twins.job with args := rfl }, rfl⟩
    apply hlearnt.advance
    · rfl
    · exact hp

theorem Alike.ended {act act' : Act Int} (h : Paired P a (act.run d) (act'.run d')) :
    Alike P a (SameStart P a) ((do return .inl (← act) : Act (Int ⊕ Staged)).run d)
      ((do return .inl (← act') : Act (Int ⊕ Staged)).run d') :=
  h.bind fun v v' _ _ _ he => ⟨.ok (.ended v v'), he⟩

theorem Sees.beginAddition (h : Sees P x x' d d') (ha : d.job.args = .addForeignKey fk check) :
    Alike P d.job.schemaId (SameStart P d.job.schemaId) ((beginAddition x).run d)
      ((beginAddition x').run d') := by
  have hfk : fk ∈ d.job.args.keys := by
    rw [ha]
    exact List.mem_singleton_self fk
  unfold Step.beginAddition
  rw [Act.run_bind_of_ok (Act.run_job d), Act.run_bind_of_ok (Act.run_job d'), h.twins.job.args, ha]
  refine h.twins.publicTable h.place fun t updated ht => ?_
  have hp := h.held ht
  rw [h.twins.job.isRollingBack, h.twins.job.stage]
  split
  · exact (h.twins.removeForeignKey hp).ended
  · split
    · exact (h.stageForeignKey ht hfk).ended
    · refine (h.twins.stagedPosition _).bind ?_
      rintro pos _ e e' rfl he
      exact ⟨.ok (.staged _ _ _ _ _ hp), he⟩
    · refine (h.twins.stagedPosition _).bind ?_
      rintro pos _ e e' rfl he
      apply Alike.ended
      apply he.complete
      · rfl
      · exact hp
    · exact h.twins.fail _

theorem Draft.Twins.endRowCheck {pos : Nat} (h : d.Twins P a d') (hp : ¬ P a table.id)
    (verdict : Except Trouble Unit) :
    Paired P a ((endRowCheck x ⟨table, pos, fk, check⟩ verdict).run d)
      ((endRowCheck x' ⟨{ table with updated }, pos, fk, check⟩ verdict).run d') := by
  unfold Step.endRowCheck
  cases verdict with
  | ok u =>
    apply h.advance
    · rfl
    · exact hp
  | error t =>
    dsimp only
    split
    · exact (h.turned .rollingBack).fail t
    · exact h.fail t

theorem checkRows_twins (schema table : String) (fk : ForeignKey) (check : Bool) :
    Work.Twins (fun c c' => c'.2 = c.2) (checkRows x schema table fk check)
      (checkRows x' schema table fk check) := by
  unfold checkRows
  split
  · exact .ask _ _ _ fun s s' answer => .done rfl
  · exact .done rfl

theorem Sees.addForeignKey (h : Sees P x x' d d') (ha : d.job.args = .addForeignKey fk check) :
    Work.Twins (Paired P d.job.schemaId) (addForeignKey x d) (addForeignKey x' d') := by
  obtain ⟨hvalue, hdraft⟩ := h.beginAddition ha
  unfold Step.addForeignKey
  generalize (Step.beginAddition x).run d = r at hvalue hdraft ⊢
  generalize (Step.beginAddition x').run d' = r' at hvalue hdraft ⊢
  obtain ⟨r, e⟩ := r
  obtain ⟨r', e'⟩ := r'
  cases hvalue with
  | error t => exact .done (hdraft.fail t)
  | ok hstart =>
    cases hstart with
    | ended v v' => exact .done ⟨.ok trivial, hdraft⟩
    | staged table updated pos fk check hp =>
      dsimp only
      -- The query for rows depends on names only, so it is the same one in both ledgers.
      have hname : e'.job.schemaName = e.job.schemaName := hdraft.job.schemaName
      rw [hname]
      refine (checkRows_twins _ _ _ _).map ?_
      rintro ⟨s, _⟩ ⟨s', verdict⟩ rfl
      exact hdraft.endRowCheck hp verdict

end ForeignKeys

section Hiding

variable {h h' : Hiding}

structure Hiding.Twins (P : Int → Int → Prop) (a : Int) (d d' : Draft) (h h' : Hiding) : Prop where
  what : h'.what = h.what
  isLive : h'.isLive = h.isLive
  withStage : ∀ st, (h'.withStage st).undated = (h.withStage st).undated
  place : ∀ st, ¬ P a (h.withStage st).id
  check : h'.check = h.check
  last : Paired P a (h.last.run d) (h'.last.run d')

theorem Draft.Twins.hide (hd : d.Twins P a d') (hh : h.Twins P a d d' h') :
    Paired P a ((hide x table h).run d) ((hide x' { table with updated } h').run d') := by
  unfold Step.hide
  rw [Act.run_bind_of_ok (Act.run_job d), Act.run_bind_of_ok (Act.run_job d'), hd.job.isRollingBack,
    hd.job.stage, hh.isLive, hh.check, hh.what]
  split
  · split
    · exact hd.finishNow _ _ _ _
    · exact hd.complete (hh.withStage _) (hh.place _) _ _
  · split
    · exact hd.orCancel _ (hd.advance (hh.withStage _) (hh.place _) _)
    · exact hd.advance (hh.withStage _) (hh.place _) _
    · exact hh.last
    · exact hd.fail _

theorem Sees.dropIndex (h : Sees P x x' d d') (ha : d.job.args = .dropIndex name) :
    Paired P d.job.schemaId ((dropIndex x).run d) ((dropIndex x').run d') := by
  unfold Step.dropIndex
  rw [Act.run_bind_of_ok (Act.run_job d), Act.run_bind_of_ok (Act.run_job d'), h.twins.job.args, ha]
  refine h.twins.publicTable h.place fun t updated ht => ?_
  have hp := h.held ht
  have hsame : ({ t with updated } : Table).indexPosition? name = t.indexPosition? name := rfl
  rw [hsame]
  cases t.indexPosition? name with
  | none => exact h.twins.cancel _
  | some pos =>
    apply h.twins.hide
    constructor
    case what => rfl
    case isLive => rfl
    case withStage => exact fun _ => rfl
    case place => exact fun _ => hp
    case check =>
      unfold Hiding.ofIndex
      dsimp only
      rw [h.checks, h.twins.job.schemaName, (h.children t ht).checkIndexUnneeded]
    case last =>
      apply h.twins.complete
      · rfl
      · exact hp

theorem undated_dropColumn (t : Table) (updated pos : Nat) :
    (({ t with updated } : Table).dropColumn pos).undated = (t.dropColumn pos).undated := by
  unfold Table.dropColumn
  dsimp only
  split <;> rfl

theorem Sees.dropColumn (h : Sees P x x' d d') (ha : d.job.args = .dropColumn name) :
    Paired P d.job.schemaId ((dropColumn x).run d) ((dropColumn x').run d') := by
  unfold Step.dropColumn
  rw [Act.run_bind_of_ok (Act.run_job d), Act.run_bind_of_ok (Act.run_job d'), h.twins.job.args, ha]
  refine h.twins.publicTable h.place fun t updated ht => ?_
  have hp := h.held ht
  have hsame : ({ t with updated } : Table).columnPosition? name = t.columnPosition? name := rfl
  rw [hsame]
  cases t.columnPosition? name with
  | none => exact h.twins.cancel _
  | some pos =>
    apply h.twins.hide
    constructor
    case what => rfl
    case isLive => rfl
    case withStage => exact fun _ => rfl
    case place => exact fun _ => hp
    case check =>
      unfold Hiding.ofColumn
      dsimp only
      rw [h.checks, h.twins.job.schemaName, (h.children t ht).checkColumnUnneeded]
    case last =>
      apply h.twins.complete
      · exact undated_dropColumn t updated pos
      · rw [Table.id_dropColumn]
        exact hp

theorem Sees.dropTable (h : Sees P x x' d d') (ha : d.job.args = .dropTable check) :
    Paired P d.job.schemaId ((dropTable x).run d) ((dropTable x').run d') := by
  unfold Step.dropTable
  rw [Act.run_bind_of_ok (Act.run_job d), Act.run_bind_of_ok (Act.run_job d'), h.twins.job.args, ha]
  refine h.twins.anyTable h.place fun t updated ht => ?_
  have hp := h.held ht
  apply h.twins.hide
  constructor
  case what => rfl
  case isLive => rfl
  case withStage => exact fun _ => rfl
  case place => exact fun _ => hp
  case check =>
    unfold Hiding.ofTable
    dsimp only
    rw [h.checks, h.twins.job.schemaName, (h.children t ht).checkUnreferred]
  case last =>
    unfold Hiding.ofTable
    dsimp only
    rw [h.twins.job.schemaId]
    refine h.twins.inTxn ((h.twins.txn.tally_dropTable hp).during _) fun txn txn' htxn => ?_
    have hnewer : Draft.Twins P d.job.schemaId { d with txn := txn.newVersion.2 }
        { d' with txn := txn'.newVersion.2 } := ⟨htxn.newVersion, h.twins.job, rfl⟩
    exact hnewer.finish _ _ _ _ _ _

end Hiding

section Tables

theorem Sees.truncateTable (h : Sees P x x' d d') (ha : d.job.args = .truncateTable newId check) :
    Paired P d.job.schemaId ((truncateTable x).run d) ((truncateTable x').run d') := by
  have hnew : ¬ P d.job.schemaId newId := h.own _ _ ⟨rfl, .inr ⟨check, ha⟩⟩
  unfold Step.truncateTable
  rw [Act.run_bind_of_ok (Act.run_job d), Act.run_bind_of_ok (Act.run_job d'), h.twins.job.args, ha]
  refine h.twins.publicTable h.place fun t updated ht => ?_
  rw [h.twins.job.isRollingBack, h.twins.job.stage]
  split
  · exact h.twins.finishNow _ _ _ _
  · split
    · rw [h.checks, h.twins.job.schemaName, h.twins.job.schemaId, (h.children t ht).checkUnreferred]
      refine h.twins.orCancel _ ?_
      refine h.twins.inTxn (h.twins.txn.tally_dropTable (h.held ht)) fun txn txn' htxn => ?_
      have hcleared : Draft.Twins P d.job.schemaId { d with txn } { d' with txn := txn' } :=
        ⟨htxn, h.twins.job, rfl⟩
      refine hcleared.inTxn ((htxn.tally_createTable ?_ ?_).during _) fun txn txn' htxn => ?_
      · rfl
      · exact hnew
      · have hfresh : Draft.Twins P d.job.schemaId { d with txn } { d' with txn := txn' } :=
          ⟨htxn, h.twins.job, rfl⟩
        apply hfresh.complete
        · rfl
        · exact hnew
    · exact h.twins.fail _

theorem tables_eq {t : Txn} (hh : t.working.Housed) (hs : (t.schema? a).isSome) :
    ∃ tables, t.tables a = .ok tables ∧ ∀ u, u ∈ tables ↔ ∃ b, t.table? a b = some u := by
  have hplace := hh a hs
  unfold Txn.tables Txn.table? Snapshot.table?
  cases hts : t.working.catalog.tables.get? a with
  | none =>
    rw [hts] at hplace
    cases hplace
  | some ts => exact ⟨ts.values, rfl, fun u => View.mem_values_iff⟩

theorem any_taken {tables : List Table} {t : Txn}
    (h : ∀ u, u ∈ tables ↔ ∃ b, t.table? a b = some u) :
    (tables.any fun u => Text.same u.name name) = true ↔
      ∃ b u, t.table? a b = some u ∧ Text.same u.name name = true := by
  rw [List.any_eq_true]
  constructor
  · rintro ⟨u, hu, hname⟩
    obtain ⟨b, hb⟩ := (h u).1 hu
    exact ⟨b, u, hb, hname⟩
  · rintro ⟨b, u, hb, hname⟩
    exact ⟨u, (h u).2 ⟨b, hb⟩, hname⟩

theorem Sees.createTable (h : Sees P x x' d d') (ha : d.job.args = .createTable table check) :
    Paired P d.job.schemaId ((createTable x).run d) ((createTable x').run d') := by
  have hschema : d'.txn.schema? d.job.schemaId = d.txn.schema? d.job.schemaId :=
    h.twins.txn.schema? _
  have hcreated : createdTable d'.job table = createdTable d.job table := by
    unfold createdTable
    rw [h.twins.job.tableId]
  have hparents : ∀ fk ∈ table.foreignKeys, SameParent x.view x'.view fk := by
    have hkeys := h.parents
    rwa [ha] at hkeys
  have hname : d.job.args.newName? = some table.name := by
    rw [ha]
    rfl
  unfold Step.createTable
  rw [Act.run_bind_of_ok (Act.run_job d), Act.run_bind_of_ok (Act.run_job d'), h.twins.job.args, ha]
  dsimp only
  rw [h.twins.job.isRollingBack, h.twins.job.stage]
  split
  · exact h.twins.finishNow _ _ _ _
  · split
    · rw [Act.run_bind_of_ok (Act.run_get d), Act.run_bind_of_ok (Act.run_get d'),
        h.twins.job.schemaName, h.twins.job.schemaId, hschema, hcreated]
      refine h.twins.ensure _ _ fun hs => ?_
      obtain ⟨tables, htables, hmem⟩ := tables_eq h.housed hs
      obtain ⟨tables', htables', hmem'⟩ := tables_eq h.housed' (hschema ▸ hs)
      have htaken : (tables'.any fun t => Text.same t.name table.name) =
          tables.any fun t => Text.same t.name table.name := by
        rw [Bool.eq_iff_iff, any_taken hmem', any_taken hmem]
        exact h.taken _ hname
      rw [htables, htables', Act.run_bind_of_ok (Act.run_ofExcept _ d),
        Act.run_bind_of_ok (Act.run_ofExcept _ d'), htaken, h.checks,
        Constraint.checkDeclared_congr _ _ hparents]
      refine h.twins.ensure _ _ fun _ => h.twins.orCancel _ ?_
      refine h.twins.inTxn ((h.twins.txn.tally_createTable rfl h.place).during _)
        fun txn txn' htxn => ?_
      have hadded : Draft.Twins P d.job.schemaId { d with txn } { d' with txn := txn' } :=
        ⟨htxn, h.twins.job, rfl⟩
      exact hadded.complete rfl h.place _ _
    · exact h.twins.fail _

end Tables

theorem Sees.standard (h : Sees P x x' d d') (hk : d.job.kind = d.job.args.kind) :
    Work.Twins (Paired P d.job.schemaId) (Registry.standard d.job.kind x d)
      (Registry.standard d.job.kind x' d') := by
  rw [hk]
  cases ha : d.job.args with
  | createTable => exact .done (h.createTable ha)
  | dropTable => exact .done (h.dropTable ha)
  | truncateTable => exact .done (h.truncateTable ha)
  | addForeignKey => exact h.addForeignKey ha
  | dropForeignKey => exact .done (h.dropForeignKey ha)
  | dropIndex => exact .done (h.dropIndex ha)
  | dropColumn => exact .done (h.dropColumn ha)

section Settle

variable {limit : Nat} {store store' : Ledger.Store} {r r' : Result} {j j' : Job} {t : Trouble}
  {what what' : String}

theorem turnBack_twins (h : j.Twins j') : j.turnBack.Twins j'.turnBack := by
  refine { h with status := ?_ }
  unfold Job.turnBack
  dsimp only
  rw [h.stage, h.kind]

theorem withError_twins (h : j.Twins j') (f : Fault) : (withError j f).Twins (withError j' f) :=
  { h with error := rfl }

theorem countFailure_twins (h : j.Twins j') :
    (countFailure limit j t).Twins (countFailure limit j' t) := by
  have hcounted : Job.Twins { j with errorCount := j.errorCount + 1 }
      { j' with errorCount := j'.errorCount + 1 } :=
    { h with errorCount := congrArg (· + 1) h.errorCount }
  unfold countFailure
  rw [h.errorCount] at hcounted ⊢
  split
  · exact turnBack_twins hcounted
  · exact hcounted

theorem blame_twins (h : j.Twins j') : (blame limit j t).Twins (blame limit j' t) := by
  unfold blame
  rw [h.status]
  split
  · exact withError_twins h t.kept
  · exact withError_twins h t.kept
  · exact withError_twins (countFailure_twins h) t.kept

theorem guardOrder_twins (h : Paired P a r r') (source : Stage) :
    Paired P a (guardOrder source r) (guardOrder source r') := by
  obtain ⟨value, d⟩ := r
  obtain ⟨value', d'⟩ := r'
  obtain ⟨hvalue, hdraft⟩ := h
  cases hvalue with
  | error t => exact hdraft.fail t
  | ok _ =>
    have hkind : d'.job.kind = d.job.kind := hdraft.job.kind
    have hstage : d'.job.stage = d.job.stage := hdraft.job.stage
    have hstatus : d'.job.status = d.job.status := hdraft.job.status
    have hallows : d'.job.kind.allows source d'.job.stage d'.job.status =
        d.job.kind.allows source d.job.stage d.job.status := by
      rw [hkind, hstage, hstatus]
    unfold guardOrder
    dsimp only
    rw [hallows]
    split
    · exact ⟨.ok trivial, hdraft⟩
    · refine ⟨?_, hdraft.staged source⟩
      rw [hkind, hstage]
      exact .error _

theorem settle_twins (h : Paired P a r r') (hs : store.snapshot.Twins P store'.snapshot)
    (source : Stage) (hd : settle limit store true source r = some (what, d))
    (hd' : settle limit store' true source r' = some (what', d')) : d.Twins P a d' := by
  unfold settle at hd hd'
  have hguarded := guardOrder_twins h source
  generalize guardOrder source r = g at hguarded hd
  generalize guardOrder source r' = g' at hguarded hd'
  obtain ⟨value, e⟩ := g
  obtain ⟨value', e'⟩ := g'
  obtain ⟨hvalue, hdraft⟩ := hguarded
  cases hvalue with
  | ok _ =>
    cases hd
    cases hd'
    refine ⟨hdraft.txn, { hdraft.job with error := ?_ }, hdraft.schema⟩
    have hdone : e'.job.isDone = e.job.isDone := hdraft.job.isDone
    have herror : e'.job.error = e.job.error := hdraft.job.error
    dsimp only
    rw [hdone, herror]
  | error t =>
    dsimp only at hd hd'
    split at hd
    · cases hd
    · rw [if_neg ‹_›] at hd'
      cases hd
      cases hd'
      exact ⟨hs, blame_twins hdraft.job, (follows_blame limit _ t).schemaId.trans hdraft.schema⟩

end Settle

end Step

end Steward
