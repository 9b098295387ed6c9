import Steward.Console.Values
import Steward.Sql.Desk

/-!
This module contains the commands to a pool of sessions: statements in the foreground, which are
waited for, and in the background.
-/

namespace Steward.Console

open Sql (Desk Dialogue Reply Statement Trouble)

/--
A desk whose dialogues are statements in the background, in the order of their numbers.
-/
abbrev ScriptSession := Desk Unit Nat Empty Unit

namespace ScriptSession

/--
Sends a statement and waits for its answer. Nobody else has a turn if the answer is there at once.
-/
def exec (s : ScriptSession) (st : Statement) : Except Trouble Reply × ScriptSession :=
  match s.hold (Dialogue.exec st) with
  | (.ended r, s) => (r, s)
  | (.waiting p, s) =>
    match (Crew.passUntil p.due s).resume p with
    | (.ended r, s) => (r, s)
    | (.waiting _, s) => (.ok .nothing, s)

def ofReply (r : Reply) : List (String × Json) := [
  ("rows", Json.ofList (fun row => ofValues row.values) r.rows), ("affected", .nat r.affected),
  ("last_insert_id", Json.ofOption .nat r.inserted)]

def command (j : Json) : Command ScriptSession Json := do
  let s : ScriptSession ← get
  if let some result := poolCommand s.pool j then
    let (a, pool) ← ask result
    set { s with pool }
    return a
  match ← ask (needStr j "do") with
  | "exec" => do
    let (r, s) := exec s ⟨← ask (needStr j "sql"), ← ask (values j "params")⟩
    set s
    let r ← ask (orPlain r)
    return .obj (("t", .nat s.clock) :: ofReply r)
  | "spawn" => do
    let st : Statement := ⟨← ask (needStr j "sql"), []⟩
    set (s.spawn id ((Dialogue.exec st).bind fun _ => .done ()))
    return .null
  | "sleep" => do
    let s := Crew.passUntil (s.clock + (← ask (needNat j "ms"))) s
    set s
    return .nat s.clock
  | _ => throw .malformed

end ScriptSession

end Steward.Console
