import Steward.Change.Trouble
import Steward.Json.Shape

/-!
This module contains the refusals of the console: a command is answered by a JSON value, or refused
because it makes no sense, because what it carries cannot be read, or because it failed.
-/

namespace Steward.Console

open Catalog (Fault)
open Change (Trouble)

inductive Refusal where
  /-- There is no such command, or it lacks something, or what it names is not there. -/
  | malformed
  /-- A value is not of the type that it should have. -/
  | undecodable
  | failed (kind text : String)
deriving DecidableEq, Repr

namespace Refusal

def toJson : Refusal → Json
  | malformed => .obj [("error", .str "BadRequest")]
  | undecodable => .obj [("error", .str "Decode")]
  | failed kind text => .obj [("error", .str kind), ("message", .str text)]

def ofFault (f : Fault) : Refusal := failed f.kind f.message

def ofTrouble (t : Trouble) : Refusal := failed t.kind t.text

end Refusal

abbrev Ask := Except Refusal

def answer : Ask Json → Json
  | .ok j => j
  | .error r => r.toJson

section Results

variable {α : Type}

def orMalformed : Option α → Ask α
  | some a => .ok a
  | none => .error .malformed

def orUndecodable : Option α → Ask α
  | some a => .ok a
  | none => .error .undecodable

def orText : Except String α → Ask α
  | .ok a => .ok a
  | .error text => .error (.failed "Error" text)

def orPlain : Except (Failure String) α → Ask α
  | .ok a => .ok a
  | .error t => .error (.failed "Error" (t.message id))

def orTrouble : Except Trouble α → Ask α
  | .ok a => .ok a
  | .error t => .error (.ofTrouble t)

def orFault : Except Fault α → Ask α
  | .ok a => .ok a
  | .error f => .error (.ofFault f)

end Results

/--
A command in a session that it may change. What a command did before it was refused stays done.
-/
abbrev Command (σ : Type) := ExceptT Refusal (StateM σ)

/--
Takes what may be refused into a command.
-/
def ask {σ α : Type} (a : Ask α) : Command σ α := fun s => (a, s)

/--
The answers to commands that are given one after the other.
-/
def answers {σ : Type} (command : Json → Command σ Json) : List Json → StateM σ (List Json)
  | [] => return []
  | j :: js => do
    let a ← (command j).run
    return answer a :: (← answers command js)

end Steward.Console
