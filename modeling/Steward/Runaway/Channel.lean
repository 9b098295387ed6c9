/-!
This module contains channels: queues that hold a limited number of items. Whoever sends does not
wait; an item that finds no room, or nobody at the other end, is dropped.
-/

namespace Steward.Runaway

structure Channel (α : Type) where
  capacity : Nat
  /-- The items that were not received yet, the oldest first. -/
  items : List α
  /-- Is there still somebody who may receive? -/
  isOpen : Bool
deriving DecidableEq, Repr

namespace Channel

variable {α : Type}

/--
A channel without items. There is room for at least one.
-/
def ofCapacity (capacity : Nat) : Channel α := ⟨max capacity 1, [], true⟩

/--
The channel with one more item, unless the item is dropped.
-/
def send? (c : Channel α) (a : α) : Option (Channel α) :=
  if c.isOpen && c.items.length < c.capacity then some { c with items := c.items ++ [a] } else none

/--
The oldest item and the channel without it.
-/
def receive? (c : Channel α) : Option (α × Channel α) :=
  match c.items with
  | [] => none
  | a :: items => some (a, { c with items })

def drained (c : Channel α) : Channel α := { c with items := [] }

/--
The channel without anybody to receive.
-/
def closed (c : Channel α) : Channel α := { c with items := [], isOpen := false }

variable {c c' : Channel α} {a : α}

theorem items_of_send (h : c.send? a = some c') : c'.items = c.items ++ [a] := by
  unfold send? at h
  split at h
  · cases h
    rfl
  · cases h

theorem items_of_receive (h : c.receive? = some (a, c')) : c.items = a :: c'.items := by
  unfold receive? at h
  split at h
  · cases h
  · next hitems =>
    cases h
    exact hitems

end Channel

end Steward.Runaway
