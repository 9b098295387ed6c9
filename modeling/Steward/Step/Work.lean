import Steward.Change.Trouble
import Steward.Constraint.Orphan
import Steward.Ledger.Txn
import Steward.Sql.Dialogue
import Steward.View

/-!
This module contains the work of one step. A step changes a draft, which nobody sees before the
step is committed, and may have to ask for rows in between; while it waits for them, the rest of
the world goes on, so the surroundings come anew with the answer.
-/

namespace Steward.Step

open Change (Job Trouble)
open Ledger (Txn)

universe u

/--
What a step sees of the world around it.
-/
structure Surroundings where
  view : View
  /-- Are foreign keys checked at all? -/
  checksForeignKeys : Bool
  /-- The present, in milliseconds since the epoch. -/
  stamp : Nat

structure Draft where
  txn : Txn
  job : Job

inductive Answer where
  | replied (reply : Except Sql.Trouble Sql.Reply)
  /-- The step was given up because another node leads now. -/
  | lost

inductive Work (α : Type u) where
  | done (a : α)
  | ask (st : Sql.Statement) (k : Surroundings → Answer → Work α)

namespace Work

variable {α β : Type u}

def bind (w : Work α) (f : α → Work β) : Work β :=
  match w with
  | done a => f a
  | ask st k => ask st fun s answer => (k s answer).bind f

def map (f : α → β) (w : Work α) : Work β := w.bind fun a => done (f a)

/--
The work as a dialogue in surroundings that stay as they are. If it is lost, it asks for nothing.
-/
def toDialogue (lost : Bool) (s : Surroundings) : Work α → Sql.Dialogue Unit α
  | done a => .done a
  | ask st k =>
    if lost then (k s .lost).toDialogue lost s
    else
      .acquire fun
        | .error t => (k s (.replied (.error t))).toDialogue lost s
        | .ok () => .send st fun r => .release ((k s (.replied r)).toDialogue lost s)

end Work

/--
The schema version that a step leaves, or why it failed, and the draft as the step left it.
-/
abbrev Result := Except Trouble Int × Draft

/--
How the jobs of one kind take a step.
-/
abbrev Handler := Surroundings → Draft → Work Result

/--
What the answer to an orphan query says about a constraint.
-/
def judgeRows (schema table : String) (fk : Catalog.ForeignKey) :
    Answer → Except Trouble Unit
  | .lost => .error (.ofFault .ownerLost)
  | .replied (.error t) =>
    .error ((t.mapCause .plain).during s!"check rows for foreign key {fk.name}")
  | .replied (.ok reply) =>
    if reply.rows.isEmpty then .ok ()
    else .error (.ofFault (.noReferencedRow (fk.describe schema table)))

/--
Checks that no row of the table refers to a missing one, and returns the surroundings after it.
-/
def checkRows (s : Surroundings) (schema table : String) (fk : Catalog.ForeignKey)
    (check : Bool) : Work (Surroundings × Except Trouble Unit) :=
  if check then
    .ask ⟨Constraint.orphanQuery schema table fk, []⟩ fun s answer =>
      .done (s, judgeRows schema table fk answer)
  else .done (s, .ok ())

end Steward.Step
