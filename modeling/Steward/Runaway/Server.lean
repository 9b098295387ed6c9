import Steward.Runaway.Pipeline

/-!
This module contains a server that watches over runaway queries, and how time passes for it. The
loops of its pipeline run whenever the foreground waits.
-/

namespace Steward.Runaway

open Sql (Cue Dialogue)

structure Server where
  desk : Post
  /-- The loops in the background, while there are any. -/
  pipeline : Option Pipeline

namespace Server

def ofSettings (s : Settings) (epoch : Int) : Server :=
  ⟨.ofState (.ofSettings s) epoch, none⟩

def manager (s : Server) : Manager := s.desk.manager

def now (s : Server) : Now := s.desk.now

/--
The loops whose channels hold more than they did in the manager before.
-/
def receivers (before after : Manager) : List Member :=
  let grown {α : Type} (who : Member) (before after : Channel α) : List Member :=
    if before.items.length < after.items.length then [who] else []
  grown .flush before.records after.records ++ grown .cleanup before.stale after.stale
    ++ grown .insert before.quarantined after.quarantined

/--
Calls the loops to which something was sent since the manager was as given.
-/
def heed (s : Server) (before : Manager) : Server :=
  match s.pipeline with
  | none => s
  | some _ =>
    let agenda := s.desk.agenda.callAll (receivers before s.manager)
    { s with desk := { s.desk with agenda } }

def setManager (s : Server) (m : Manager) : Server :=
  ({ s with desk := s.desk.setManager m } : Server).heed s.manager

def spawn (s : Server) : Server where
  desk := { s.desk with agenda := s.desk.agenda.callAll Member.loops }
  pipeline := some (.start s.manager.settings s.desk.clock)

instance : Crew Server Member (Cue Tick) where
  clock s := s.desk.clock
  setClock clock s := { s with desk := { s.desk with clock } }
  agenda s := s.desk.agenda
  setAgenda agenda s := { s with desk := { s.desk with agenda } }
  move? who s := do
    let p ← s.pipeline
    let (p, desk) ← p.move? s.desk who
    return (⟨desk, some p⟩ : Server).heed s.manager
  rest who s :=
    match s.pipeline with
    | none => s
    | some p => { s with desk := p.rest s.desk who }

/--
Lets time pass until the given moment and past everything that is due at that moment.
-/
def sleepUntil (s : Server) (time : Nat) : Server := Crew.settle (Crew.passUntil time s)

/--
Follows a dialogue to its end, for at most `fuel` answers.
-/
def follow {α : Type} (fuel : Nat) (s : Server) (t : Dialogue.Standing Monitor α) :
    Option α × Server :=
  match fuel, t with
  | _, .ended a => (some a, s)
  | 0, .waiting _ => (none, s)
  | fuel + 1, .waiting p =>
    let s := Crew.passUntil p.due s
    let (t, desk) := s.desk.resume p
    follow fuel (({ s with desk } : Server).heed s.manager) t

/--
More answers than a dialogue waits for.
-/
def manyAnswers : Nat := 1000000

/--
Holds a dialogue in the foreground. There is no result if it would never end.
-/
def hold {α : Type} (s : Server) (t : Dialogue Monitor α) : Option α × Server :=
  let (t, desk) := s.desk.hold t
  (({ s with desk } : Server).heed s.manager).follow manyAnswers t

/--
Ends the loops, and waits until the last errand has ended. After that nobody receives anything.
-/
def shutdown (s : Server) : Server :=
  match s.pipeline with
  | none => s
  | some p =>
    let (p, desk) := p.stop s.desk
    let s : Server := Crew.finish ⟨desk, some p⟩
    ({ s with pipeline := none } : Server).setManager s.manager.closed

end Server

end Steward.Runaway
