import Steward.Engine.Statement

/-!
This module contains the world of a ledger: schemas are created, statements are submitted, and the
steps of the jobs are taken one at a time. All of them overlap. A submission begins its transaction
at one moment and commits it at another, and while a step waits for rows, or is about to commit,
everything else goes on.
-/

namespace Steward

open Catalog (Stage)
open Change (Job)
open Engine (Statement)
open Ledger (Store Txn)
open Step (Answer Draft Registry Result Work)

inductive World.Phase where
  /-- There is none. -/
  | idle
  | working (source : Stage) (work : Work Result)
  /-- The handler is through, and the draft is about to be committed. -/
  | closing (what : String) (d : Draft)
  /-- The draft was committed, and the view is about to be loaded again. -/
  | looking

structure World where
  store : Store
  /-- What the last look at the ledger showed. -/
  view : View
  /-- How the jobs of statements are made that passed the checks. A submission that meets a conflict
  is tried again, so they stay. -/
  plans : List (Txn → Job × Txn)
  /-- The transactions that create schemas and submit jobs and were not committed yet. -/
  drafts : List Txn
  phase : World.Phase

namespace World

inductive Event where
  /-- Begins the transaction that creates a schema. -/
  | found (name : String)
  /-- Checks a statement against the view. -/
  | plan (st : Statement) (checks : Bool)
  /-- Begins the transaction that submits the job of a statement. -/
  | draw (n : Nat)
  /-- Commits a transaction, or gives it up. -/
  | commit (n : Nat)
  /-- Begins a step of the oldest job. -/
  | begin (checks : Bool) (stamp : Nat)
  /-- Answers the statement that a step waits for. -/
  | answer (a : Answer) (checks : Bool) (stamp : Nat)
  /-- Ends the work of a step, by a node that is the owner or is not. -/
  | settle (owned : Bool)
  /-- Commits the draft of a step, or gives it up. -/
  | close
  /-- Looks at the ledger after a step. -/
  | look
  /-- A node starts over: it knows nothing of a step and looks at the ledger. -/
  | reopen

def ofStore (s : Store) : World := ⟨s, .ofSnapshot s.snapshot, [], [], .idle⟩

/--
The world after a transaction was taken from the drafts to be committed.
-/
def commitDraft (w : World) (n : Nat) (t : Txn) : World :=
  let w := { w with drafts := w.drafts.eraseIdx n }
  match w.store.commit t with
  | .ok store => { w with store }
  | .error _ => w

/--
The world after the draft of a step was committed, or was not.
-/
def closeStep (w : World) (what : String) (d : Draft) : World :=
  match Step.commit w.store what d with
  | .ok (.committed store _) => { w with store, phase := .looking }
  | _ => { w with phase := .idle }

def step (handlers : Registry) (limit : Nat) (w : World) : Event → World
  | .found name =>
    match w.store.begin.foundSchema name with
    | .ok (_, t) => { w with drafts := w.drafts ++ [t] }
    | .error _ => w
  | .plan st checks =>
    match st.plan checks w.view with
    | .ok plan => { w with plans := w.plans ++ [plan] }
    | .error _ => w
  | .draw n =>
    match w.plans[n]? with
    | some plan => { w with drafts := w.drafts ++ [(Engine.enlist plan w.store.begin).2] }
    | none => w
  | .commit n =>
    match w.drafts[n]? with
    | some t => w.commitDraft n t
    | none => w
  | .begin checks stamp =>
    match w.phase, Step.begin w.store handlers ⟨w.view, checks, stamp⟩ with
    | .idle, some begun => { w with phase := .working begun.source begun.work }
    | _, _ => w
  | .answer a checks stamp =>
    match w.phase with
    | .working source (.ask _ k) =>
      { w with phase := .working source (k ⟨w.view, checks, stamp⟩ a) }
    | _ => w
  | .settle owned =>
    match w.phase with
    | .working source (.done r) =>
      match Step.settle limit w.store owned source r with
      | some (what, d) => { w with phase := .closing what d }
      | none => { w with phase := .idle }
    | _ => w
  | .close =>
    match w.phase with
    | .closing what d => w.closeStep what d
    | _ => w
  | .look =>
    match w.phase with
    | .looking => { w with view := w.view.reload w.store.snapshot, phase := .idle }
    | _ => w
  | .reopen => { w with view := .ofSnapshot w.store.snapshot, phase := .idle }

def run (handlers : Registry) (limit : Nat) (w : World) (es : List Event) : World :=
  es.foldl (step handlers limit) w

end World

end Steward
