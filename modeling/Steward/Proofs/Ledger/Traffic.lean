import Steward.Proofs.Ledger.Commit

/-!
This module contains the traffic on one ledger: any number of transactions are open at the same
time, and they begin, make their calls and are committed in any order.
-/

namespace Steward.Ledger

/--
An open transaction, and the answers to the calls that it made.
-/
structure Lane where
  txn : Txn
  replies : List Reply

namespace Lane

def ofStore (s : Store) : Lane := ⟨s.begin, []⟩

def perform (l : Lane) (c : Call) : Lane :=
  ⟨(l.txn.perform c).2, l.replies ++ [(l.txn.perform c).1]⟩

end Lane

structure Traffic where
  store : Store
  lanes : List Lane
  /-- The answers that transactions got which are committed. -/
  granted : List Reply
  /-- The snapshots that the ledger went through, the oldest first. -/
  log : List Snapshot

namespace Traffic

inductive Event where
  | begin
  | call (lane : Nat) (c : Call)
  | commit (lane : Nat)
  | drop (lane : Nat)

def ofStore (s : Store) : Traffic := ⟨s, [], [], [s.snapshot]⟩

def conclude (t : Traffic) (l : Lane) : Traffic :=
  match t.store.commit l.txn with
  | .ok store =>
    { t with store, granted := t.granted ++ l.replies, log := t.log ++ [store.snapshot] }
  | .error _ => t

def closeLane (t : Traffic) (lane : Nat) : Traffic := { t with lanes := t.lanes.eraseIdx lane }

def step (t : Traffic) : Event → Traffic
  | .begin => { t with lanes := t.lanes ++ [.ofStore t.store] }
  | .call lane c =>
    match t.lanes[lane]? with
    | some l => { t with lanes := t.lanes.set lane (l.perform c) }
    | none => t
  | .commit lane =>
    match t.lanes[lane]? with
    | some l => (t.closeLane lane).conclude l
    | none => t
  | .drop lane => t.closeLane lane

def run (t : Traffic) (es : List Event) : Traffic := es.foldl step t

theorem run_induction {P : Traffic → Prop} {t : Traffic} (h : P t)
    (hstep : ∀ t e, P t → P (t.step e)) (es : List Event) : P (t.run es) := by
  induction es generalizing t with
  | nil => exact h
  | cons e es ih => exact ih (hstep t e h)

theorem step_cases {P : Traffic → Prop} {t : Traffic} (e : Event) (h : P t)
    (hbegin : P { t with lanes := t.lanes ++ [.ofStore t.store] })
    (hcall : ∀ lane l c, l ∈ t.lanes → P { t with lanes := t.lanes.set lane (l.perform c) })
    (hdrop : ∀ lane, P (t.closeLane lane))
    (hcommit : ∀ lane l store, l ∈ t.lanes → t.store.commit l.txn = .ok store →
      P { t.closeLane lane with
        store, granted := t.granted ++ l.replies, log := t.log ++ [store.snapshot] }) :
    P (t.step e) := by
  cases e with
  | begin => exact hbegin
  | call lane c =>
    simp only [step]
    split
    · next l hl => exact hcall lane l c (List.mem_of_getElem? hl)
    · exact h
  | drop lane => exact hdrop lane
  | commit lane =>
    simp only [step]
    split
    · next l hl =>
      simp only [conclude]
      split
      · next store hs => exact hcommit lane l store (List.mem_of_getElem? hl) hs
      · exact hdrop lane
    · exact h

end Traffic

end Steward.Ledger
