import Steward.Runaway.Limit
import Steward.Runaway.Manager

/-!
This module contains the checks of one query: before it runs, against the watch list, and while it
runs, against the limits of its group. The first limit that it exceeds decides for good.
-/

namespace Steward.Runaway

inductive Interruption where
  /-- It hit a watch. -/
  | quarantined
  /-- It exceeded a limit. -/
  | exceeded (cause : String)
deriving DecidableEq, Repr

namespace Interruption

/--
The name of the kind of interruption.
-/
def kind : Interruption → String
  | quarantined => "Quarantined"
  | exceeded _ => "QueryInterrupted"

def message : Interruption → String
  | quarantined => "Quarantined and interrupted because of being in runaway watch list"
  | exceeded cause => s!"Query execution was interrupted, identified as runaway query [{cause}]"

end Interruption

/--
What was decided about a query that exceeded a limit.
-/
structure Verdict where
  action : Action
  cause : String
deriving DecidableEq, Repr

namespace Verdict

def outcome (v : Verdict) : Except Interruption (Option Action) :=
  if v.action = .kill then .error (.exceeded v.cause) else .ok (some v.action)

end Verdict

structure Checker where
  query : Query
  limit : Option Limit
  verdict : Option Verdict
deriving DecidableEq, Repr

namespace Checker

def ofQuery (q : Query) (limit : Option Limit) : Checker := ⟨q, limit, none⟩

/--
The targets in the order in which watches are looked for.
-/
def targets : List Target := [.exact, .similar, .plan]

/--
The first watch that the query hits.
-/
def hit? (c : Checker) (m : Manager) (now : Now) : Option Hit :=
  (targets.filterMap c.query.convict).findSome? (m.examine now c.query.group)

/--
Checks the query before it runs. A hit is recorded at the given moment.
-/
def beforeExecution (c : Checker) (m : Manager) (now : Now) (moment : Moment) :
    Except Interruption (Option Hit) × Manager :=
  match c.hit? m now with
  | none => (.ok none, m)
  | some hit =>
    (if hit.action = .kill then .error .quarantined else .ok (some hit),
      m.markRunaway c.query hit.action .watch moment hit.cause)

/--
Records that the query exceeded a limit, and makes a watch of it if the limit says so.
-/
def mark (c : Checker) (m : Manager) (now : Now) (moment : Moment) (l : Limit) (v : Verdict) :
    Manager :=
  let m := m.markRunaway c.query v.action .identify moment v.cause
  match l.watch with
  | none => m
  | some setting =>
    match c.query.convict setting.target with
    | none => m
    | some text =>
      m.markQuarantine now {
        group := c.query.group, text, target := setting.target, action := v.action
        switchGroup := l.switchGroup, duration := setting.duration, start := moment
        cause := v.cause }

/--
Checks how far the query has come.
-/
def checkThresholds (c : Checker) (m : Manager) (now : Now) (moment : Moment) (p : Progress) :
    Except Interruption (Option Action) × Checker × Manager :=
  match c.limit with
  | none => (.ok none, c, m)
  | some l =>
    match c.verdict with
    | some v => (v.outcome, c, m)
    | none =>
      match l.exceeded p with
      | none => (.ok none, c, m)
      | some cause =>
        let v : Verdict := ⟨l.action, cause⟩
        (v.outcome, { c with verdict := some v }, c.mark m now moment l v)

end Checker

end Steward.Runaway
