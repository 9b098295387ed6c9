import Steward.Change.Encoding
import Steward.Console.Request

/-!
This module contains the commands on a job, and how the console writes jobs in short.
-/

namespace Steward.Console

open Catalog (Fault Stage Table)
open Change (Job Status Trouble)

/--
The job with the fields that a command sets.
-/
def overwritten (j : Json) (job : Job) : Ask Job := do
  match ← maybe j "set" members with
  | some changes => orUndecodable (job.overwrite? changes)
  | none => return job

def jobCommand (job : Job) (j : Json) : Ask Job := do
  match ← needStr j "fn" with
  | "set" => orUndecodable (job.overwrite? (← members (← need j "fields")))
  | "convert_to_rollback" => return job.turnBack
  | "finish" =>
    return job.finish (← decode j "state" Status.ofJson?) (← decode j "schema_state" Stage.ofJson?)
      (← needInt j "version") (← maybeDecode j "table" Table.ofJson?)
  | _ => .error .malformed

def jobReport (job : Job) : Json := .obj [
  ("display", .str job.display), ("rolling_back", .bool job.isRollingBack),
  ("done", .bool job.isDone), ("finished", .bool job.isFinished),
  ("args_type", job.args.kind.toJson), ("job", job.toJson)]

/--
The job after each of the commands.
-/
def jobReports (job : Job) : List Json → List Json
  | [] => []
  | j :: js =>
    match jobCommand job j with
    | .error r => r.toJson :: jobReports job js
    | .ok job => jobReport job :: jobReports job js

def jobLine (job : Job) : Json := .obj [
  ("job", .str job.display), ("error", Json.ofOption Fault.toJson job.error),
  ("version", .int job.schemaVersion)]

/--
A trouble that is given by a text or a fault, and passed on by the activities that are given.
-/
def trouble (j : Json) : Ask Trouble := do
  let t ← match ← maybeStr j "text" with
    | some text => pure (Trouble.ofText text)
    | none => do pure (.ofFault (← decode j "err" Fault.ofJson?))
  let activities ← maybe j "contexts" fun v => orMalformed (v.list? Json.str?)
  return (activities.getD []).foldl Failure.during t

end Steward.Console
