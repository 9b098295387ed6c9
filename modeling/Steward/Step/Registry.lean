import Steward.Step.ForeignKeys
import Steward.Step.Parts
import Steward.Step.Tables

/-!
This module contains the handlers of all kinds of jobs, and handlers that follow a plan of their
own.
-/

namespace Steward.Step

open Catalog (Fault Stage)
open Change (Kind Status Trouble)

/--
The handlers by the kinds of their jobs.
-/
abbrev Registry := Kind → Handler

namespace Registry

/--
The handler that belongs to each kind.
-/
def standard : Registry
  | .createTable => fun s => (createTable s).toWork
  | .dropTable => fun s => (dropTable s).toWork
  | .truncateTable => fun s => (truncateTable s).toWork
  | .addForeignKey => addForeignKey
  | .dropForeignKey => fun s => (dropForeignKey s).toWork
  | .dropIndex => fun s => (dropIndex s).toWork
  | .dropColumn => fun s => (dropColumn s).toWork

def put (r : Registry) (k : Kind) (h : Handler) : Registry :=
  fun other => if other = k then h else r other

end Registry

/--
A handler that does the same in every step: it puts its job in a state and a stage, and then fails
or makes a new schema version.
-/
structure Plan where
  status : Option Status
  stage : Option Stage
  trouble : Option Trouble

namespace Plan

def act (p : Plan) : Act Int := do
  if let some status := p.status then Act.setStatus status
  if let some stage := p.stage then Act.setStage stage
  match p.trouble with
  | some t => throw t
  | none => Act.newVersion

def handler (p : Plan) : Handler := fun _ => p.act.toWork

end Plan

end Steward.Step
