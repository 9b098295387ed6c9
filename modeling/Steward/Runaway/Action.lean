/-!
This module contains what is done about a runaway query, what part of a query a watch looks at, and
how a query was found to be one. In rows each of them is a small number or a word.
-/

namespace Steward.Runaway

/--
What is done about a runaway query.
-/
inductive Action where
  | none
  | dryRun
  | coolDown
  | kill
  | switchGroup
deriving DecidableEq, Repr, Inhabited

namespace Action

def number : Action → Int
  | none => 0
  | dryRun => 1
  | coolDown => 2
  | kill => 3
  | switchGroup => 4

def names : List (String × Action) := [
  ("None", none), ("DryRun", dryRun), ("CoolDown", coolDown), ("Kill", kill),
  ("SwitchGroup", switchGroup)]

def ofNumber (n : Int) : Except String Action :=
  match (names.map (·.2)).find? fun a => a.number == n with
  | some a => .ok a
  | .none => .error s!"unknown runaway action {n}"

/--
The action as it stands in rows and messages.
-/
def display : Action → String
  | none => "NONE"
  | dryRun => "DRYRUN"
  | coolDown => "COOLDOWN"
  | kill => "KILL"
  | switchGroup => "SWITCH_GROUP"

end Action

/--
What a watch compares with its text.
-/
inductive Target where
  | none
  /-- The text of the query. -/
  | exact
  /-- The digest of the query. -/
  | similar
  /-- The digest of the plan. -/
  | plan
deriving DecidableEq, Repr, Inhabited

namespace Target

def number : Target → Int
  | none => 0
  | exact => 1
  | similar => 2
  | plan => 3

def names : List (String × Target) := [
  ("None", none), ("Exact", exact), ("Similar", similar), ("Plan", plan)]

def ofNumber (n : Int) : Except String Target :=
  match (names.map (·.2)).find? fun t => t.number == n with
  | some t => .ok t
  | .none => .error s!"unknown runaway watch type {n}"

end Target

/--
How a query was found to be a runaway query.
-/
inductive Detection where
  /-- It hit a watch. -/
  | watch
  /-- It exceeded a limit of its group. -/
  | identify
deriving DecidableEq, Repr, Inhabited

namespace Detection

def names : List (String × Detection) := [("Watch", watch), ("Identify", identify)]

/--
The way as it stands in rows.
-/
def display : Detection → String
  | watch => "watch"
  | identify => "identify"

end Detection

end Steward.Runaway

/-! ### What is known of a query before it runs -/

namespace Steward.Runaway

structure Query where
  group : String
  sql : String
  sqlDigest : String
  planDigest : String
deriving DecidableEq, Repr, Inhabited

namespace Query

/--
The text that a watch on the target compares with its own. An empty text is compared with nothing.
-/
def convict (q : Query) (target : Target) : Option String :=
  let text? := match target with
    | .exact => some q.sql
    | .similar => some q.sqlDigest
    | .plan => some q.planDigest
    | .none => none
  text?.filter (· ≠ "")

end Query

end Steward.Runaway
