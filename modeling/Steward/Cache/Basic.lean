import Steward.Data.SortedMap
import Steward.Time.Span

/-!
This module contains caches whose entries may expire, and that hold a limited number of entries.
The entries are found by their keys; a second map has the keys in the order in which they were set
last, so that the oldest entry can make room for a new one. An expired entry is hidden at once, but
keeps its place until it is purged. Every operation tells which entries came and which left, in
order. An entry may expire at any time, however late: the clock has no end.
-/

namespace Steward

universe u v

namespace Cache

/--
Why an entry left.
-/
inductive Reason where
  | deleted
  /-- Another value was to take its key. -/
  | superseded
  | expired
  | capacityReached
deriving DecidableEq, Repr, Inhabited

inductive Event (κ : Type u) (α : Type v) where
  | came (k : κ) (a : α)
  | left (k : κ) (a : α) (reason : Reason)
deriving DecidableEq, Repr

structure Entry (α : Type v) where
  value : α
  /-- When the entry expires, if it ever does. -/
  expiry : Option Span
  /-- The number of the operation that set the entry. -/
  seq : Nat
deriving DecidableEq, Repr

namespace Entry

def isExpired {α : Type v} (e : Entry α) (now : Span) : Bool := e.expiry.any (· ≤ now)

end Entry

end Cache

structure Cache (κ : Type u) (α : Type v) [Ord κ] where
  capacity : Nat
  entries : SortedMap κ (Cache.Entry α)
  /-- The keys by the numbers of their entries. -/
  order : SortedMap Nat κ
  /-- The number of the last operation that set an entry. -/
  lastSeq : Nat

namespace Cache

variable {κ : Type u} {α : Type v} [Ord κ]

def empty (capacity : Nat) : Cache κ α := ⟨capacity, ∅, ∅, 0⟩

/--
How many entries there may be; at least one.
-/
def room (c : Cache κ α) : Nat := max c.capacity 1

/--
The number of entries, with the expired ones.
-/
def size (c : Cache κ α) : Nat := c.entries.size

/--
The value of a key, unless it has expired.
-/
def get? (c : Cache κ α) (now : Span) (k : κ) : Option α :=
  ((c.entries.get? k).filter fun e => !e.isExpired now).map (·.value)

/--
The cache without an entry that is in it.
-/
def forget (c : Cache κ α) (k : κ) (e : Entry α) : Cache κ α :=
  { c with entries := c.entries.erase k, order := c.order.erase e.seq }

/--
The cache with an entry for a key that has none.
-/
def store [Std.TransOrd κ] (c : Cache κ α) (k : κ) (e : Entry α) : Cache κ α :=
  { c with entries := c.entries.insert k e, order := c.order.insert e.seq k }

/--
Why an entry leaves that makes room for another one.
-/
def Entry.reasonToLeave (e : Entry α) (now : Span) : Reason :=
  if e.isExpired now then .expired else .capacityReached

/--
Lets entries leave, the first of the given keys first, until there is room for one more.
-/
def makeRoom (now : Span) (c : Cache κ α) : List κ → List (Event κ α) × Cache κ α
  | [] => ([], c)
  | k :: ks =>
    if c.size < c.room then ([], c)
    else
      match c.entries.get? k with
      | none => makeRoom now c ks
      | some e =>
        let (events, c) := makeRoom now (c.forget k e) ks
        (.left k e.value (e.reasonToLeave now) :: events, c)

/--
Puts a value into the place of one that has not expired.
-/
def replace [Std.TransOrd κ] (c : Cache κ α) (k : κ) (old new : Entry α) : Cache κ α :=
  (c.forget k old).store k new

/--
Puts a value under a key that has none or an expired one, and lets entries leave if there is no
room for it.
-/
def place [Std.TransOrd κ] (c : Cache κ α) (now : Span) (k : κ) (e : Entry α) :
    List (Event κ α) × Cache κ α :=
  let (stale, c) :=
    match c.entries.get? k with
    | some old => ([Event.left k old.value .expired], c.forget k old)
    | none => ([], c)
  let (crowd, c) := c.makeRoom now c.order.values
  (stale ++ crowd ++ [.came k e.value], c.store k e)

/--
Sets the value of a key, which expires after `ttl` if that is given. Returns the value that was
there before and had not expired.
-/
def set [Std.TransOrd κ] (c : Cache κ α) (now : Span) (k : κ) (a : α) (ttl : Option Span) :
    Option α × List (Event κ α) × Cache κ α :=
  let e : Entry α := ⟨a, ttl.map now.add, c.lastSeq + 1⟩
  let c := { c with lastSeq := c.lastSeq + 1 }
  match (c.entries.get? k).filter fun old => !old.isExpired now with
  | some old => (some old.value, [], c.replace k old e)
  | none =>
    let (events, c) := c.place now k e
    (none, events, c)

/--
Removes a key for the given reason, and returns its value, even if it has expired.
-/
def remove (c : Cache κ α) (k : κ) (reason : Reason) : Option α × List (Event κ α) × Cache κ α :=
  match c.entries.get? k with
  | none => (none, [], c)
  | some e => (some e.value, [.left k e.value reason], c.forget k e)

def delete (c : Cache κ α) (k : κ) : Option α × List (Event κ α) × Cache κ α :=
  c.remove k .deleted

/--
Removes the given keys because they have expired.
-/
def purgeKeys (c : Cache κ α) : List κ → List (Event κ α) × Cache κ α
  | [] => ([], c)
  | k :: ks =>
    let (_, first, c) := c.remove k .expired
    let (rest, c) := c.purgeKeys ks
    (first ++ rest, c)

/--
Removes everything that has expired.
-/
def purge (c : Cache κ α) (now : Span) : List (Event κ α) × Cache κ α :=
  c.purgeKeys ((c.entries.entries.filter fun e => e.2.isExpired now).map (·.1))

end Cache

end Steward
