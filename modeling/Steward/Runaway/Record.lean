import Steward.Runaway.Action
import Steward.Sql.Value

/-!
This module contains the records of runaway queries, and the buffer that gathers them: records of
one key become one, which counts them.
-/

namespace Steward.Runaway

open Sql (Value)

structure Record where
  group : String
  start : Moment
  detection : Detection
  action : Action
  sample : String
  sqlDigest : String
  planDigest : String
  source : String
  cause : String
  /-- How often the query ran away. -/
  repeats : Nat
deriving DecidableEq, Repr, Inhabited

/--
What records have in common that are gathered into one.
-/
structure RecordKey where
  group : String
  sqlDigest : String
  planDigest : String
  detection : Detection
deriving DecidableEq, Repr

namespace Record

def key (r : Record) : RecordKey := ⟨r.group, r.sqlDigest, r.planDigest, r.detection⟩

def params (r : Record) : List Value := [
  .text r.group, .time r.start, .text r.detection.display, .text r.action.display,
  .text r.sample, .text r.sqlDigest, .text r.planDigest, .text r.source, .text r.cause,
  .uint r.repeats]

end Record

/--
Records of different keys, in the order in which their first ones came.
-/
structure Buffer where
  records : List Record
deriving DecidableEq, Inhabited

namespace Buffer

def empty : Buffer := ⟨[]⟩

/--
Adds the repeats of a record to the one with its key, if there is one.
-/
def addTo (r : Record) : List Record → List Record
  | [] => [r]
  | first :: rest =>
    if first.key = r.key then { first with repeats := first.repeats + r.repeats } :: rest
    else first :: addTo r rest

def add (b : Buffer) (r : Record) : Buffer := ⟨addTo r b.records⟩

def size (b : Buffer) : Nat := b.records.length

/--
The records by the time of their start.
-/
def batch (b : Buffer) : List Record :=
  b.records.mergeSort fun a b => a.start ≤ b.start

end Buffer

end Steward.Runaway
