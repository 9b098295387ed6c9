import Steward.Proofs.World.Chronicle

/-!
This module contains what the steps of a line leave alone. A step that is committed writes the record
of its own job and the table of that job, and of the table little else than what the job is about. All
the rest of the ledger is as it was just before, and nothing but new jobs and schemas came in between
since the step began.
-/

namespace Steward

open Catalog (Column Index Table)
open Change (Job)
open Ledger
open Step (Reaches Reshaped)

/--
The step of the job `first` left everything alone but the record and the table of the job.
-/
structure Entry.Confined (x : Entry) (first : Job) : Prop where
  begun : x.base.firstJob? = some first
  /-- Since the step began, jobs were handed in and schemas were created, and nothing else. -/
  waits : Waits x.base x.before
  follows : first.Follows x.job
  record : x.after.record first.id =
    if x.job.isFinished then (none, some x.job) else (some x.job, none)
  records : ∀ k, k ≠ first.id → x.after.record k = x.before.record k
  lastId : x.after.lastId = x.before.lastId
  revision : x.after.revision = x.before.revision + 1
  schemas : x.after.catalog.schemas = x.before.catalog.schemas
  jobTablesVersion : x.after.catalog.jobTablesVersion = x.before.catalog.jobTablesVersion
  tables : ∀ a b, ¬ Reaches first a b → x.after.table? a b = x.before.table? a b
  reshaped : Reshaped first x.before.table? x.after.table?
  failed : ∀ t, x.result = .error t → x.after.catalog = x.before.catalog

namespace Chronicle

variable {limit : Nat} {x : Entry} {first : Job} {W : Snapshot}

theorem Tells.jobTablesVersion (h : Tells limit x first W) :
    W.catalog.jobTablesVersion = x.base.catalog.jobTablesVersion := by
  have hsettled := h.settled
  generalize x.result = result at hsettled
  cases hsettled with
  | success v hreshaped hjobTables => exact hjobTables
  | failure t hW => rw [hW]

theorem Tells.reshaped (h : Tells limit x first W) : Reshaped first x.base.table? W.table? := by
  have hsettled := h.settled
  generalize x.result = result at hsettled
  cases hsettled with
  | success v hreshaped => exact hreshaped
  | failure t hW => exact .same (congrArg Snapshot.table? hW)

theorem Tells.failed (h : Tells limit x first W) {t : Change.Trouble} (ht : x.result = .error t) :
    W = x.base := by
  have hsettled := h.settled
  rw [ht] at hsettled
  cases hsettled with
  | failure _ hW => exact hW

theorem Tells.confined (h : Tells limit x first W) : x.Confined first where
  begun := h.stepped.begun
  waits := h.waits
  follows := h.stepped.follows
  record := (h.stepped.record first.id).trans (if_pos rfl)
  records k hk := (h.stepped.record k).trans (if_neg hk)
  lastId := h.stepped.lastId
  revision := h.stepped.revision
  schemas := h.stepped.schemas
  jobTablesVersion := by
    rcases h.stepped.catalog with ⟨-, hafter⟩ | ⟨hbefore, hafter⟩
    · rw [hafter]
    · rw [hbefore, hafter]
      exact h.jobTablesVersion
  tables a b hab := by
    rw [h.stepped.table_eq, h.waits.calm.table_eq]
    exact h.reshaped.others hab
  reshaped := by
    rw [h.stepped.table_eq, h.waits.calm.table_eq]
    exact h.reshaped
  failed t ht := by
    rcases h.stepped.catalog with ⟨-, hafter⟩ | ⟨hbefore, hafter⟩
    · exact hafter
    · rw [hafter, h.failed ht, hbefore]

/--
Whatever an event commits is a new job, a new schema or a step, and a step touches nothing but its own
job and the table of that job, one that fails nothing but the job. Of the table it changes little else
than the part that the job is about. If that is a column, its memberships in the indices go as well,
and so does every index that has no columns then.
-/
theorem steps_confined (limit : Nat) (es : List Line.Event) (e : Line.Event) :
    let c := empty.run limit es
    let c' := c.step limit e
    c.line = Line.empty.run limit es ∧ c'.line = c.line.step limit e ∧
    (c'.entries = c.entries ∧ (c'.line.snapshot = c.line.snapshot ∨
        (∃ job, Appended c.line.snapshot c'.line.snapshot job) ∨
        ∃ σ, Founded c.line.snapshot c'.line.snapshot σ) ∨
      ∃ x first, c'.entries = c.entries ++ [x] ∧ x.before = c.line.snapshot ∧
        x.after = c'.line.snapshot ∧ x.Confined first) := by
  intro c c'
  refine ⟨line_run limit empty es, line_step limit c e, ?_⟩
  cases (stands_step (stands_run limit es) e).2 with
  | quiet he h => exact .inl ⟨he, .inl h⟩
  | handed he job h => exact .inl ⟨he, .inr (.inl ⟨job, h⟩)⟩
  | founded he σ h => exact .inl ⟨he, .inr (.inr ⟨σ, h⟩)⟩
  | stepped x first W he hb ha h => exact .inr ⟨x, first, he, hb, ha, h.confined⟩

def columnDropped : List Line.Event :=
  let table := (((Table.ofName "items").withColumn (.ofName "a" .bigint)).withColumn
    (.ofName "b" .bigint)).withIndex (.ofNames "empty" [])
  [.found "shop", .commit 0, .draw 0 1 2 "shop" "items" (.createTable table true), .hand 0] ++
    Line.stepOnce 5 ++ [.draw 0 1 2 "shop" "items" (.dropColumn "b"), .hand 0] ++
    Line.stepOnce 6 ++ Line.stepOnce 7 ++ Line.stepOnce 8

theorem not_confined_columnDropped :
    ¬ ∀ limit es, ∀ x ∈ (empty.run limit es).entries, ∀ name t t', x.job.args = .dropColumn name →
      x.before.table? x.job.schemaId x.job.tableId = some t →
      x.after.table? x.job.schemaId x.job.tableId = some t' →
      ∀ ix ∈ t.indices, (∀ ic ∈ ix.columns, Text.same ic.name name = false) →
        ∃ ix' ∈ t'.indices, ix'.name = ix.name := by
  intro hall
  have hlost : (empty.run 8 columnDropped).entries.any (fun x =>
      x.job.args = .dropColumn "b" ∧
      (x.before.table? x.job.schemaId x.job.tableId).any (fun t =>
        t.indices.any fun ix => ix.name = "empty" ∧ ix.columns = []) ∧
      (x.after.table? x.job.schemaId x.job.tableId).any (fun t' =>
        t'.indices.all fun ix' => ix'.name ≠ "empty")) = true := by decide +kernel
  obtain ⟨x, hx, hlost⟩ := List.any_eq_true.1 hlost
  obtain ⟨hargs, hbefore, hafter⟩ := of_decide_eq_true hlost
  obtain ⟨t, ht, hindex⟩ := (Option.any_eq_true _ _).1 hbefore
  obtain ⟨t', ht', hgone⟩ := (Option.any_eq_true _ _).1 hafter
  obtain ⟨ix, hix, hnamed⟩ := List.any_eq_true.1 hindex
  obtain ⟨hname, hcolumns⟩ := of_decide_eq_true hnamed
  obtain ⟨ix', hix', hsame⟩ := hall 8 columnDropped x hx "b" t t' hargs ht ht' ix hix (by
    intro ic hic
    rw [hcolumns] at hic
    cases hic)
  have hother := of_decide_eq_true (List.all_eq_true.1 hgone ix' hix')
  exact hother (hsame.trans hname)

end Chronicle

end Steward
