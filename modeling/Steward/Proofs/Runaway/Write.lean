import Steward.Proofs.Runaway.Batch
import Steward.Proofs.Sql.Log
import Steward.Runaway.Pipeline

/-!
This module contains how a batch of records is written: in one statement, whose outcome is counted
once, no matter whether the answer comes at once or later.
-/

namespace Steward.Runaway

open Sql (Dialogue Log Pending Reply Trouble)

def Metrics.wrote (c : Metrics) (rows : Nat) (ok : Bool) : Metrics :=
  if ok then { c with recordsFlushed := c.recordsFlushed + rows }
  else { c with flushFailures := c.flushFailures + 1 }

namespace Errand

def settle (rows : Nat) (ok : Bool) : Errand := do
  count fun c => c.wrote rows ok
  return ok

def afterInsert (rs : List Record) (r : Except Trouble Reply) : Errand :=
  .release (settle rs.length r.isOk)

theorem writeRecords_eq {rs : List Record} (h : rs ≠ []) :
    writeRecords rs = .acquire fun
      | .error _ => settle rs.length false
      | .ok () => .send (Storage.insertRecords rs) (afterInsert rs) := by
  cases rs with
  | nil => exact absurd rfl h
  | cons r rs =>
    refine congrArg Dialogue.acquire (funext fun session => ?_)
    cases session with
    | error t => rfl
    | ok u =>
      refine congrArg (Dialogue.send _) (funext fun reply => ?_)
      cases reply <;> rfl

theorem goes_writeRecords {others : Monitor → Monitor → Prop} {rs : List Record} {m m' : Monitor}
    {log : Log} {ok : Bool} (h : Dialogue.Goes others (writeRecords rs) m log ok m') :
    (log = [] ∧ (ok = true ↔ rs = [])) ∨
      ∃ r : Except Trouble Reply, log = [(Storage.insertRecords rs, r)] ∧ ok = r.isOk := by
  have hsettle {ok' : Bool} {m m' : Monitor} {log : Log}
      (h : Dialogue.Goes others (settle rs.length ok') m log ok m') : log = [] ∧ ok = ok' := by
    cases h with
    | look now h =>
      cases h with
      | store h =>
        cases h
        exact ⟨rfl, rfl⟩
  by_cases hrs : rs = []
  · subst hrs
    cases h
    exact .inl ⟨rfl, by simp⟩
  · rw [writeRecords_eq hrs] at h
    cases h with
    | acquire session hs h =>
      cases session with
      | error t =>
        obtain ⟨rfl, rfl⟩ := hsettle h
        exact .inl ⟨rfl, by simp [hrs]⟩
      | ok u =>
        cases h with
        | send r hs' h =>
          cases h with
          | release h =>
            obtain ⟨rfl, rfl⟩ := hsettle h
            exact .inr ⟨r, rfl, rfl⟩

def Ran (rs : List Record) (ok : Bool) : Prop :=
  ∃ m log m', Dialogue.Goes (fun _ _ => True) (writeRecords rs) m log ok m'

theorem ran_of_advance {rs : List Record} {now : Now} {m m' : Monitor} {p p' : Sql.Pool} {ok : Bool}
    (h : (writeRecords rs).advance now m p = (.ended ok, m', p')) : Ran rs ok := by
  have hleads : Dialogue.Leads (fun _ _ => True) (writeRecords rs) m _ _ :=
    Dialogue.leads_advance (fun _ => trivial) now (writeRecords rs) m p
  rw [h] at hleads
  obtain ⟨log, hgoes⟩ := hleads
  exact ⟨m, log, m', hgoes⟩

theorem ran_of_reply {rs : List Record} (h : rs ≠ []) (r : Except Trouble Reply) : Ran rs r.isOk := by
  let m : Monitor := .ofSettings .standard
  let m' : Monitor := { m with manager := m.manager.count fun c => c.wrote rs.length r.isOk }
  have hcounted : Dialogue.Goes (fun _ _ => True) (afterInsert rs r) m [] r.isOk m' :=
    .release (.look ⟨0, default⟩ (.store (.done _ _)))
  have hsent : Dialogue.Goes (fun _ _ => True) (.send (Storage.insertRecords rs) (afterInsert rs)) m
      [(Storage.insertRecords rs, r)] r.isOk m' := .send r trivial hcounted
  refine ⟨m, [(Storage.insertRecords rs, r)], m', ?_⟩
  rw [writeRecords_eq h]
  exact .acquire (.ok ()) trivial hsent

theorem advance_writeRecords {rs : List Record} (h : rs ≠ []) (now : Now) (m : Monitor)
    (p : Sql.Pool) :
    (∃ ok p', (writeRecords rs).advance now m p =
      (.ended ok, { m with manager := m.manager.count fun c => c.wrote rs.length ok }, p')) ∨
    ∃ due p', (writeRecords rs).advance now m p =
      (.waiting ⟨due, Storage.insertRecords rs, afterInsert rs⟩, m, p') := by
  rw [writeRecords_eq h, Dialogue.advance]
  obtain ⟨session, p⟩ := p.acquire
  cases session with
  | error t => exact .inl ⟨false, p, rfl⟩
  | ok u =>
    dsimp only
    rw [Dialogue.advance]
    dsimp only
    split
    · exact .inl ⟨_, _, rfl⟩
    · exact .inr ⟨_, _, rfl⟩

end Errand

namespace Post

open Errand (afterInsert settle writeRecords)

variable {d d' : Post} {rs : List Record}

@[simp]
theorem manager_setManager (d : Post) (m : Manager) : (d.setManager m).manager = m := rfl

/--
The state of the desk after a batch of so many rows was written, or was lost.
-/
def wrote (d : Post) (rows : Nat) (ok : Bool) : Monitor :=
  { d.state with manager := d.manager.count fun c => c.wrote rows ok }

structure Counts (d : Post) (rows : Nat) (outcome : Option Bool) (d' : Post) : Prop where
  settings : d'.manager.settings = d.manager.settings
  records : d'.manager.records = d.manager.records
  recordsDropped : d'.manager.metrics.recordsDropped = d.manager.metrics.recordsDropped
  recordsFlushed : d'.manager.metrics.recordsFlushed =
    d.manager.metrics.recordsFlushed + if outcome = some true then rows else 0
  flushFailures : d'.manager.metrics.flushFailures =
    d.manager.metrics.flushFailures + if outcome = some false then 1 else 0

theorem counts_of_wrote {rows : Nat} {ok : Bool} (h : d'.state = d.wrote rows ok) :
    Counts d rows (some ok) d' := by
  have hmanager : d'.manager = d.manager.count fun c => c.wrote rows ok := congrArg Monitor.manager h
  constructor <;> rw [hmanager] <;> cases ok <;> rfl

theorem counts_of_state (h : d'.state = d.state) (rows : Nat) : Counts d rows none d' := by
  have hmanager : d'.manager = d.manager := congrArg Monitor.manager h
  constructor <;> rw [hmanager] <;> rfl

/--
What may come of a batch that was begun: it is counted at once, or its answer is due.
-/
inductive Began (d : Post) (rs : List Record) : Option Bool × Post → Prop
  | ended {d' : Post} (ok : Bool) (hran : Errand.Ran rs ok)
    (hstate : d'.state = d.wrote rs.length ok) (hheld : d'.held = d.held) : Began d rs (some ok, d')
  | waiting {d' : Post} (due : Nat) (hstate : d'.state = d.state) (hheld : d'.held =
      (.flush, .waiting ⟨due, Storage.insertRecords rs, afterInsert rs⟩) :: d.held) :
    Began d rs (none, d')

theorem Began.counts {x : Option Bool × Post} (h : Began d rs x) :
    Counts d rs.length x.1 x.2 := by
  cases h with
  | ended ok _ hstate _ => exact counts_of_wrote hstate
  | waiting due hstate _ => exact counts_of_state hstate _

theorem Began.ran {x : Option Bool × Post} (h : Began d rs x) {ok : Bool} (hok : x.1 = some ok) :
    Errand.Ran rs ok := by
  cases h with
  | ended ok' hran _ _ => exact Option.some.inj hok ▸ hran
  | waiting _ _ _ => cases hok

theorem began_begin (d : Post) (h : rs ≠ []) : Began d rs (d.begin .flush (writeRecords rs)) := by
  unfold Sql.Desk.begin Sql.Desk.hold
  rcases Errand.advance_writeRecords h d.now d.state d.pool with ⟨ok, p, hend⟩ | ⟨due, p, hwait⟩
  · rw [hend]
    exact .ended ok (Errand.ran_of_advance hend) rfl rfl
  · rw [hwait]
    exact .waiting due rfl rfl

theorem proceed_afterInsert {due : Nat} {st : Sql.Statement} {r : Option Bool × Post}
    (hheld : d.held.lookup .flush = some (.waiting ⟨due, st, afterInsert rs⟩))
    (hr : d.proceed? .flush = some r) :
    ∃ reply : Except Trouble Reply, r.1 = some reply.isOk ∧
      r.2.state = d.wrote rs.length reply.isOk ∧ r.2.held = d.held.filter (·.1 ≠ .flush) := by
  unfold Sql.Desk.proceed? at hr
  rw [hheld] at hr
  dsimp only at hr
  split at hr
  · cases hr
    exact ⟨_, rfl, rfl, rfl⟩
  · cases hr

end Post

end Steward.Runaway
