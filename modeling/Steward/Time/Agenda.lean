/-!
This module contains agendas, which say whose turn it is. Who can go on stands in line. Who waits
sets alarms, and an alarm that rings calls the one who set it into the line.
-/

namespace Steward

/--
Calls somebody at a time. What it is set for tells the alarms of one member apart.
-/
structure Alarm (ι κ : Type) where
  /-- Milliseconds on the clock. -/
  time : Nat
  who : ι
  what : κ
deriving DecidableEq, Repr

structure Agenda (ι κ : Type) where
  /-- Who can go on, the first one next. -/
  line : List ι
  /-- The alarms that did not ring yet, in the order in which they were set. -/
  alarms : List (Alarm ι κ)
  /-- Nobody stands in line twice. -/
  line_nodup : line.Nodup

namespace Agenda

variable {ι κ : Type}

def empty : Agenda ι κ := ⟨[], [], .nil⟩

/--
Who is next, and the agenda after that one has left the line.
-/
def next? (a : Agenda ι κ) : Option (ι × Agenda ι κ) :=
  match h : a.line with
  | [] => none
  | who :: line => some (who, ⟨line, a.alarms, (List.nodup_cons.1 (h ▸ a.line_nodup)).2⟩)

def set (a : Agenda ι κ) (time : Nat) (who : ι) (what : κ) : Agenda ι κ :=
  { a with alarms := a.alarms ++ [⟨time, who, what⟩] }

def cancel (a : Agenda ι κ) (p : Alarm ι κ → Bool) : Agenda ι κ :=
  { a with alarms := a.alarms.filter fun alarm => !p alarm }

/--
When the next alarm rings.
-/
def due? (a : Agenda ι κ) : Option Nat := (a.alarms.map (·.time)).min?

section Line

variable [DecidableEq ι]

/--
Calls somebody, who goes to the end of the line or keeps the place in it.
-/
def call (a : Agenda ι κ) (who : ι) : Agenda ι κ :=
  if h : who ∈ a.line then a
  else
    { a with
      line := a.line ++ [who]
      line_nodup := List.nodup_append.2
        ⟨a.line_nodup, by simp, fun _ hx _ hy e => h (List.mem_singleton.1 hy ▸ e ▸ hx)⟩ }

def callAll (a : Agenda ι κ) (whos : List ι) : Agenda ι κ := whos.foldl call a

/--
Rings the alarms that are due by the given time, in the order in which they were set.
-/
def ring (a : Agenda ι κ) (time : Nat) : Agenda ι κ :=
  let due := a.alarms.filter (·.time ≤ time)
  (a.cancel (·.time ≤ time)).callAll (due.map (·.who))

/--
Was such an alarm set, without having rung?
-/
def isSet [DecidableEq κ] (a : Agenda ι κ) (who : ι) (what : κ) : Bool :=
  a.alarms.any fun alarm => alarm.who = who ∧ alarm.what = what

end Line

end Agenda

end Steward
