import Steward.Sql.Statement
import Steward.Text.Fold

/-!
This module contains a pool of sessions that follows a script: rules say what each statement is
answered, and delays how long it takes. The pool remembers the statements and counts the sessions
that are out.
-/

namespace Steward.Sql

/--
What the statements of one kind are answered. The first `skip` of them are let through to the rules
after this one, and after `times` answers the rule is used up.
-/
structure Rule where
  containing : Option String
  starting : Option String
  skip : Nat
  times : Option Nat
  answer : Except String Reply

namespace Rule

def matchesSql (r : Rule) (sql : String) : Bool :=
  (r.containing.all (Text.contains sql)) && (r.starting.all (Text.startsWith sql))

/--
The answer of the first rule that has one, and the rules after it was given.
-/
def answerOf (sql : String) : List Rule → Except String Reply × List Rule
  | [] => (.ok .nothing, [])
  | r :: rs =>
    if r.matchesSql sql then
      if 0 < r.skip then
        let (answer, rs) := answerOf sql rs
        (answer, { r with skip := r.skip - 1 } :: rs)
      else if r.times = some 0 then
        let (answer, rs) := answerOf sql rs
        (answer, r :: rs)
      else
        (r.answer, { r with times := r.times.map (· - 1) } :: rs)
    else
      let (answer, rs) := answerOf sql rs
      (answer, r :: rs)

end Rule

/--
A statement and when it was answered, in milliseconds.
-/
structure Answered where
  time : Nat
  statement : Statement
deriving DecidableEq

structure Pool where
  rules : List Rule
  /-- No session can be had. -/
  exhausted : Bool
  /-- Texts and how many milliseconds a statement with that text takes. -/
  delays : List (String × Nat)
  /-- The statements so far, the last one first. -/
  startedReversed : List Statement
  /-- The answered statements that were not asked for yet, the last one first. -/
  answeredReversed : List Answered
  /-- The sessions that were handed out and not put back. -/
  out : Int

namespace Pool

/--
A pool whose sessions answer nothing to everything, at once.
-/
def idle : Pool := ⟨[], false, [], [], [], 0⟩

def acquire (p : Pool) : Except Trouble Unit × Pool :=
  if p.exhausted then (.error (.of "session pool exhausted"), p)
  else (.ok (), { p with out := p.out + 1 })

def release (p : Pool) : Pool := { p with out := p.out - 1 }

/--
How long a statement takes: of the delays whose text it contains, in capitals or small letters,
the longest one counts.
-/
def delayOf (p : Pool) (sql : String) : Nat :=
  let sql := Text.fold sql
  ((p.delays.filter fun d => Text.contains sql (Text.fold d.1)).map (·.2)).foldl max 0

def start (p : Pool) (st : Statement) : Pool :=
  { p with startedReversed := st :: p.startedReversed }

/--
Answers a statement at the given time.
-/
def answer (p : Pool) (now : Nat) (st : Statement) : Except Trouble Reply × Pool :=
  let (reply, rules) := Rule.answerOf st.sql p.rules
  let p := { p with rules, answeredReversed := ⟨now, st⟩ :: p.answeredReversed }
  match reply with
  | .ok r => (.ok r, p)
  | .error text => (.error (.of text), p)

/--
The statements so far that contain a text, in capitals or small letters.
-/
def started (p : Pool) (text : String) : List Statement :=
  p.startedReversed.reverse.filter fun st => Text.contains (Text.fold st.sql) (Text.fold text)

def forgetStarted (p : Pool) : Pool := { p with startedReversed := [] }

/--
The statements that were answered since this was last asked.
-/
def takeAnswered (p : Pool) : List Answered × Pool :=
  (p.answeredReversed.reverse, { p with answeredReversed := [] })

end Pool

end Steward.Sql
