import Steward.Ledger.Encoding
import Steward.Ledger.Txn

/-!
This module contains the ledger itself: the last committed snapshot, kept in memory and perhaps in
a file, and the commit of transactions. A commit writes the file first, so a write that fails
leaves everybody with the snapshot before.
-/

namespace Steward.Ledger

open Catalog (Schema)
open Change (Trouble)

/--
What is found at the place of a file.
-/
inductive File where
  | missing
  | text (contents : String)
  | directory
deriving DecidableEq

structure Store where
  snapshot : Snapshot
  file : Option File
deriving DecidableEq

namespace Store

def inMemory : Store := ⟨.initial, none⟩

/--
Writes a snapshot to the file, if there is one.
-/
def persist (s : Store) (snapshot : Snapshot) : Except Trouble Store :=
  match s.file with
  | none => .ok s
  | some .directory =>
    .error ((Trouble.ofText "Is a directory (os error 21)").during "write metadata snapshot")
  | some _ => .ok { s with file := some (.text snapshot.text) }

/--
The ledger that a file keeps. A file that is missing keeps the initial snapshot.
-/
def load (file : File) : Except Trouble Store :=
  match file with
  | .directory => .error (.ofText "read metadata snapshot")
  | .missing => persist ⟨.initial, some .missing⟩ .initial
  | .text contents =>
    match Snapshot.ofText? contents with
    | some snapshot => persist ⟨snapshot, some file⟩ snapshot
    | none => .error (.ofText "decode metadata snapshot")

def begin (s : Store) : Txn := .begin s.snapshot

/--
The snapshot that a commit of the transaction would leave.
-/
def merged (s : Store) (t : Txn) : Except Trouble Snapshot :=
  let next? :=
    if s.snapshot.revision = t.base.revision then some t.working
    else Snapshot.rebase? t.base s.snapshot t.working
  match next? with
  | some next => .ok { next with revision := s.snapshot.revision + 1 }
  | none => .error (.ofFault (.writeConflict t.base.revision s.snapshot.revision))

def commit (s : Store) (t : Txn) : Except Trouble Store := do
  let next ← s.merged t
  let s ← s.persist next
  return { s with snapshot := next }

/--
Creates a schema in a transaction of its own.
-/
def createSchema (s : Store) (name : String) : Except Trouble (Int × Store) := do
  let (id, t) ← s.begin.foundSchema name
  return (id, ← s.commit t)

end Store

end Steward.Ledger
