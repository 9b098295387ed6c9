import Steward.Console.Request
import Steward.Sql.Pool
import Steward.Sql.Row
import Steward.Time.Span

/-!
This module contains the short forms in which the console reads and writes values, spans, rules and
statements, and the commands on a pool of sessions. A value is an object with one member that is
named for its type.
-/

namespace Steward.Console

open Sql (Value Row Rule Reply Statement Pool)

/--
An integer of 64 bits with the low bits of the number.
-/
def word64 (n : Int) : Json := .int (Int.bmod n 18446744073709551616)

def millis (m : Moment) : Json := word64 m.millis

def value : Json → Ask Value
  | .null => return .null
  | .obj [("i", v)] => return .int (← orMalformed v.int64?)
  | .obj [("u", v)] => return .uint (← orMalformed v.nat64?)
  | .obj [("s", v)] => return .text (← orMalformed v.str?)
  | .obj [("ms", v)] => return .time (.ofMillis (← orMalformed v.int64?))
  | _ => .error .malformed

def ofValue : Value → Json
  | .null => .null
  | .int n => .obj [("i", .int n)]
  | .uint n => .obj [("u", .nat n)]
  | .text s => .obj [("s", .str s)]
  | .time m => .obj [("ms", millis m)]

def ofValues (vs : List Value) : Json := Json.ofList ofValue vs

def values (j : Json) (name : String) : Ask (List Value) := do (← needList j name).mapM value

def row (j : Json) : Ask Row := do return ⟨← (← orMalformed (j.list? some)).mapM value⟩

def ofStatement (st : Statement) : Json :=
  .obj [("sql", .str st.sql), ("params", ofValues st.params)]

def span (j : Json) : Ask Span := do
  let _ ← members j
  return ⟨(← natOr j "s" 0) * Span.perSecond + (← natOr j "ns" 0)⟩

/--
What a rule answers: of several answers the first one counts.
-/
def reply (j : Json) : Ask (Except String Reply) := do
  if let some text ← maybeStr j "error" then
    return .error text
  if let some id ← maybeNat j "inserted" then
    return .ok (.ofInserted id)
  if let some n ← maybeNat j "affected" then
    return .ok (.ofAffected n)
  if let some rows ← maybe j "rows" fun v => orMalformed (v.list? some) then
    return .ok (.ofRows (← rows.mapM row))
  return .ok .nothing

def rule (j : Json) : Ask Rule := do
  let _ ← members j
  return {
    containing := ← maybeStr j "contains"
    starting := ← maybeStr j "prefix"
    skip := ← natOr j "skip" 0
    times := ← maybeNat j "times"
    answer := ← reply j }

def rowCommand (r : Row) (j : Json) : Ask Json := do
  let read {α : Type} (f : α → Json) (get : Nat → Except Sql.ReadFault α) : Ask Json := do
    match get (← needNat j "idx") with
    | .ok a => return f a
    | .error e => .error (.failed "Error" e.message)
  match ← needStr j "fn" with
  | "len" => return .nat r.values.length
  | "is_empty" => return .bool r.values.isEmpty
  | "get" => read ofValue r.get
  | "is_null" => read (fun (v : Value) => .bool v.isNull) r.get
  | "i64" => read .int r.int64
  | "u64" => read .nat r.nat64
  | "string" => read .str r.text
  | "opt_timestamp" => read (Json.ofOption millis) r.time?
  | "timestamp" => read millis r.time
  | _ => .error .malformed

/--
The answer to a command on a pool and the pool after it, if the command is one.
-/
def poolCommand (pool : Pool) (j : Json) : Option (Ask (Json × Pool)) :=
  match (j.member? "do").bind Json.str? with
  | some "rules" => some do
    return (.null, { pool with rules := ← (← needList j "rules").mapM rule })
  | some "fail_get" => some do return (.null, { pool with exhausted := ← boolOr j "v" true })
  | some "delay" => some do
    let delay := (← needStr j "needle", ← needNat j "ms")
    return (.null, { pool with delays := pool.delays ++ [delay] })
  | some "outstanding" => some (.ok (.int pool.out, pool))
  | some "statements" => some do
    return (Json.ofList ofStatement (pool.started (← strOr j "needle" "")), pool)
  | some "clear_statements" => some (.ok (.null, pool.forgetStarted))
  | _ => none

end Steward.Console
