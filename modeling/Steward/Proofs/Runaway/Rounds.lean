import Steward.Proofs.Runaway.Precedence
import Steward.Proofs.Sql.Log
import Steward.Runaway.Monitor

/-!
This module contains sequences of rounds: what each of them asked, what it handed to the manager and
how far it came. The checkpoint of a table moves before the rows are handed over, and the round fails
after that, if it does. So no row is handed over in two rounds, whatever is answered.
-/

namespace Steward.Runaway

open Sql (Dialogue Log Reply Row Statement Trouble)

/--
What a round hands to the manager: the rows of the watch table to be taken over, and those of the
done table, with their ids there, to be deleted.
-/
structure Handed where
  watches : List Watch
  done : List (Watch × Int)

def Handed.nothing : Handed := ⟨[], []⟩

structure Feed (ι : Type) where
  activity : String
  select : Int → Statement
  ofRow : Row → Except Trouble ι
  id : ι → Int
  last : Syncer → Int
  withLast : Int → Syncer → Syncer
  of : Handed → List ι
  last_withLast : ∀ n s, last (withLast n s) = n
  sql_select : ∀ n, (select n).sql = (select 0).sql

namespace Feed

def watches : Feed Watch where
  activity := "load runaway watches"
  select := Storage.selectWatches
  ofRow := Watch.ofRow
  id := Watch.id
  last := Syncer.lastWatch
  withLast n s := { s with lastWatch := n }
  of := Handed.watches
  last_withLast _ _ := rfl
  sql_select _ := rfl

def done : Feed (Watch × Int) where
  activity := "load done runaway watches"
  select := Storage.selectDone
  ofRow := Storage.doneOfRow
  id := Prod.snd
  last := Syncer.lastDone
  withLast n s := { s with lastDone := n }
  of := Handed.done
  last_withLast _ _ := rfl
  sql_select _ := rfl

variable {ι : Type} (f : Feed ι)

def above (after : Int) (rows : List ι) : List ι := rows.filter fun x => after < f.id x

def fetch : Exchange Monitor (List ι) := do
  let after := f.last (← Monitor.getSyncer)
  let r ← Exchange.ask f.activity (f.select after)
  let rows ← Exchange.ofResult (r.rows.mapM f.ofRow)
  let fresh := f.above after rows
  Monitor.updateSyncer fun s => f.withLast (Monitor.highest (f.last s) (fresh.map f.id)) s
  return fresh

/--
The rows that came with an answer, if all of them can be read.
-/
def rows? : Except Trouble Reply → Option (List ι)
  | .ok r => (r.rows.mapM f.ofRow).toOption
  | .error _ => none

def answers (log : Log) : Log := log.filter fun x => x.1.sql = (f.select 0).sql

/--
What a round made of a table whose checkpoint it found. The table was not asked, or no rows came that
can be read: then nothing is handed over, and the checkpoint stays. Or the rows above the checkpoint
are handed over, and the checkpoint moves to the highest of their ids.
-/
inductive Reads (before : Int) (log : Log) : List ι → Int → Prop
  | missed (h : f.answers log = [] ∨
      ∃ r, f.answers log = [(f.select before, r)] ∧ f.rows? r = none) : Reads before log [] before
  | read (r : Except Trouble Reply) (rows : List ι) (h : f.answers log = [(f.select before, r)])
    (hr : f.rows? r = some rows) :
    Reads before log (f.above before rows) (Monitor.highest before ((f.above before rows).map f.id))

/--
How a table is read: what is logged, what comes of it and how the checkpoints change.
-/
inductive Fetched (s : Syncer) : Log → Except Trouble (List ι) → Syncer → Prop
  | missed {log : Log} (t : Trouble) (h : log = [] ∨
      ∃ x, log = [(f.select (f.last s), x)] ∧ f.rows? x = none) : Fetched s log (.error t) s
  | read (x : Except Trouble Reply) (rows : List ι) (hx : f.rows? x = some rows) :
    Fetched s [(f.select (f.last s), x)] (.ok (f.above (f.last s) rows))
      (f.withLast (Monitor.highest (f.last s) ((f.above (f.last s) rows).map f.id)) s)

def Unasked (log : Log) : Prop := ∀ x ∈ log, x.1.sql ≠ (f.select 0).sql

section Reads

variable {f} {log log₁ log₂ : Log} {before after : Int} {xs : List ι}

theorem answers_append (log₁ log₂ : Log) :
    f.answers (log₁ ++ log₂) = f.answers log₁ ++ f.answers log₂ := List.filter_append _ _

theorem Unasked.answers (h : f.Unasked log) : f.answers log = [] := by
  refine List.filter_eq_nil_iff.2 fun x hx => ?_
  simpa using h x hx

theorem Unasked.reads (h : f.Unasked log) (n : Int) : f.Reads n log [] n :=
  .missed (.inl h.answers)

theorem answers_select (n : Int) (x : Except Trouble Reply) :
    f.answers [(f.select n, x)] = [(f.select n, x)] := by
  unfold answers
  rw [List.filter_cons_of_pos (by simpa using f.sql_select n)]
  rfl

theorem Fetched.reads {s s' : Syncer} {r : Except Trouble (List ι)} (h : f.Fetched s log r s')
    (h₁ : f.Unasked log₁) (h₂ : f.Unasked log₂) :
    f.Reads (f.last s) (log₁ ++ (log ++ log₂)) (r.toOption.getD []) (f.last s') := by
  have hanswers : f.answers (log₁ ++ (log ++ log₂)) = f.answers log := by
    rw [answers_append, answers_append, h₁.answers, h₂.answers, List.append_nil, List.nil_append]
  cases h with
  | missed t hlog =>
    refine .missed ?_
    rw [hanswers]
    rcases hlog with rfl | ⟨x, rfl, hx⟩
    · exact .inl rfl
    · exact .inr ⟨x, answers_select _ x, hx⟩
  | read x rows hx =>
    rw [f.last_withLast]
    refine .read x rows ?_ hx
    rw [hanswers]
    exact answers_select _ x

theorem unasked_append (h₁ : f.Unasked log₁) (h₂ : f.Unasked log₂) : f.Unasked (log₁ ++ log₂) :=
  List.forall_mem_append.2 ⟨h₁, h₂⟩

theorem unasked_nil : f.Unasked [] := fun _ h => absurd h List.not_mem_nil

theorem Fetched.unasked {κ : Type} {g : Feed κ} {s s' : Syncer} {r : Except Trouble (List ι)}
    (h : f.Fetched s log r s') (hne : (f.select 0).sql ≠ (g.select 0).sql) : g.Unasked log := by
  have hone (x : Except Trouble Reply) : g.Unasked [(f.select (f.last s), x)] := by
    intro y hy
    rw [List.mem_singleton.1 hy]
    exact f.sql_select (f.last s) ▸ hne
  cases h with
  | missed t h =>
    rcases h with rfl | ⟨x, rfl, _⟩
    · exact unasked_nil
    · exact hone x
  | read x rows hx => exact hone x

theorem Fetched.lastDone {s s' : Syncer} {r : Except Trouble (List Watch)}
    (h : watches.Fetched s log r s') : s'.lastDone = s.lastDone := by
  cases h <;> rfl

theorem Fetched.lastWatch {s s' : Syncer} {r : Except Trouble (List (Watch × Int))}
    (h : done.Fetched s log r s') : s'.lastWatch = s.lastWatch := by
  cases h <;> rfl

theorem watches_ne_done : (watches.select 0).sql ≠ (done.select 0).sql := by decide +kernel

theorem Reads.bounds (h : f.Reads before log xs after) :
    before ≤ after ∧ ∀ x ∈ xs, before < f.id x ∧ f.id x ≤ after := by
  cases h with
  | missed _ => exact ⟨Int.le_refl _, fun _ hx => absurd hx List.not_mem_nil⟩
  | read r rows _ _ =>
    obtain ⟨hle, hids⟩ := Site.le_highest before ((f.above before rows).map f.id)
    refine ⟨hle, fun x hx => ⟨?_, hids _ (List.mem_map_of_mem hx)⟩⟩
    exact of_decide_eq_true (List.mem_filter.1 hx).2

end Reads

end Feed

namespace Monitor

theorem fetchNew_eq : fetchNew = Feed.watches.fetch := by
  unfold fetchNew Storage.watchesAfter Feed.fetch
  simp only [bind_assoc]
  rfl

theorem fetchDone_eq : fetchDone = List.map Prod.fst <$> Feed.done.fetch := by
  unfold fetchDone Storage.doneAfter Feed.fetch
  simp only [bind_assoc, map_bind, map_pure]
  rfl

def handOver (f : Now → Manager → Nat × Manager) : Dialogue Monitor Nat :=
  .update fun now s =>
    let (n, manager) := f now s.manager
    (n, { s with manager })

/--
Reads both tables and hands over what is new in them.
-/
def readTables : Dialogue Monitor (Except Trouble Report × Handed) := do
  match ← Feed.watches.fetch.run with
  | .error t => return (.error t, .nothing)
  | .ok ws =>
    let added ← handOver fun now m => addAll now m ws
    match ← Feed.done.fetch.run with
    | .error t => return (.error t, ⟨ws, []⟩)
    | .ok rows =>
      let removed ← handOver fun now m => removeAll now m (rows.map (·.1))
      return (.ok ⟨true, added, removed⟩, ⟨ws, rows⟩)

def round : Dialogue Monitor (Except Trouble Report × Handed) := do
  match ← tablesReady.run with
  | .error t => return (.error t, .nothing)
  | .ok false => return (.ok ⟨false, 0, 0⟩, .nothing)
  | .ok true => readTables

theorem run_manage (f : Now → Manager → Nat × Manager) :
    (manage f).run = Except.ok <$> handOver f := rfl

theorem fst_round : Prod.fst <$> round = sync.run := by
  unfold round readTables sync
  rw [fetchNew_eq, fetchDone_eq]
  simp only [ExceptT.run_bind, map_bind]
  congr 1
  funext ready
  cases ready with
  | error t => rfl
  | ok ready =>
    cases ready with
    | false => rfl
    | true =>
      simp only [Bool.not_true, Bool.false_eq_true, if_false, ExceptT.run_bind, map_bind]
      congr 1
      funext ws
      cases ws with
      | error t => rfl
      | ok ws =>
        simp only [run_manage, bind_map_left, map_bind, ExceptT.run_map]
        congr 1
        funext added
        congr 1
        funext rows
        cases rows with
        | error t => rfl
        | ok rows =>
          simp only [map_bind, Except.map]
          rfl

/--
Others may do anything to the manager, but they leave the checkpoints alone.
-/
def Aside (m m' : Monitor) : Prop := m'.syncer = m.syncer

theorem Aside.refl (m : Monitor) : Aside m m := rfl

section Goes

open Sql.Dialogue (Goes)

variable {ι α : Type} {f : Feed ι} {m m' : Monitor} {log : Log}

theorem goes_getSyncer {r : Except Trouble Syncer} (h : Goes Aside getSyncer.run m log r m') :
    log = [] ∧ r = .ok m.syncer ∧ m' = m := by
  cases h with
  | look now h =>
    cases h with
    | store h =>
      cases h
      exact ⟨rfl, rfl, rfl⟩

theorem goes_updateSyncer {g : Syncer → Syncer} {r : Except Trouble Unit}
    (h : Goes Aside (updateSyncer g).run m log r m') :
    log = [] ∧ r = .ok () ∧ m'.syncer = g m.syncer := by
  cases h with
  | look now h =>
    cases h with
    | store h =>
      cases h
      exact ⟨rfl, rfl, rfl⟩

theorem goes_handOver {g : Now → Manager → Nat × Manager} {n : Nat}
    (h : Goes Aside (handOver g) m log n m') : log = [] ∧ m'.syncer = m.syncer := by
  cases h with
  | look now h =>
    cases h with
    | store h =>
      cases h
      exact ⟨rfl, rfl⟩

theorem goes_ask {activity : String} {st : Statement} {r : Except Trouble Reply}
    (h : Goes Aside (Exchange.ask activity st).run m log r m') :
    m'.syncer = m.syncer ∧ ((log = [] ∧ ∃ t, r = .error t) ∨
      ∃ x, log = [(st, x)] ∧ r = during activity x) := by
  cases h with
  | acquire x hs h =>
    cases x with
    | error t =>
      cases h
      exact ⟨hs, .inl ⟨rfl, _, rfl⟩⟩
    | ok u =>
      cases h with
      | send x hs' h =>
        cases h with
        | release h =>
          cases h
          exact ⟨hs'.trans hs, .inr ⟨x, rfl, rfl⟩⟩

def Looks (log : Log) : Prop := ∀ x ∈ log, ∃ table, x.1 = Storage.findTable table

theorem looks_append {log₁ log₂ : Log} (h₁ : Looks log₁) (h₂ : Looks log₂) : Looks (log₁ ++ log₂) :=
  List.forall_mem_append.2 ⟨h₁, h₂⟩

theorem goes_tableExists {table : String} {r : Except Trouble Bool}
    (h : Goes Aside (Storage.tableExists table).run m log r m') :
    m'.syncer = m.syncer ∧ Looks log := by
  have hask {m' : Monitor} {log : Log} {r : Except Trouble Reply} (h : Goes Aside
      (Exchange.ask s!"check system table {table}" (Storage.findTable table)).run m log r m') :
      m'.syncer = m.syncer ∧ Looks log := by
    obtain ⟨hsyncer, hlog⟩ := goes_ask h
    refine ⟨hsyncer, ?_⟩
    rcases hlog with ⟨rfl, _⟩ | ⟨x, rfl, _⟩
    · exact fun _ hx => absurd hx List.not_mem_nil
    · intro y hy
      rw [List.mem_singleton.1 hy]
      exact ⟨table, rfl⟩
  rcases h.of_bindCont with ⟨t, _, hfail⟩ | ⟨reply, m₁, log₁, log₂, hreply, hdone, rfl⟩
  · exact hask hfail
  · obtain ⟨rfl, _, rfl⟩ := hdone.of_done
    rw [List.append_nil]
    exact hask hreply

theorem goes_tablesExist {tables : List String} {r : Except Trouble Bool}
    (h : Goes Aside (tablesExist tables).run m log r m') :
    m'.syncer = m.syncer ∧ Looks log := by
  induction tables generalizing m log with
  | nil =>
    cases h
    exact ⟨rfl, fun _ hx => absurd hx List.not_mem_nil⟩
  | cons table tables ih =>
    rcases h.of_bindCont with ⟨t, _, hfail⟩ | ⟨found, m₁, log₁, log₂, hfound, hrest, rfl⟩
    · exact goes_tableExists hfail
    · obtain ⟨hsyncer, hlooks⟩ := goes_tableExists hfound
      cases found with
      | true =>
        obtain ⟨hsyncer', hlooks'⟩ := ih hrest
        exact ⟨hsyncer'.trans hsyncer, looks_append hlooks hlooks'⟩
      | false =>
        obtain ⟨rfl, _, rfl⟩ := hrest.of_done
        rw [List.append_nil]
        exact ⟨hsyncer, hlooks⟩

theorem goes_tablesReady {r : Except Trouble Bool} (h : Goes Aside tablesReady.run m log r m') :
    m'.syncer.lastWatch = m.syncer.lastWatch ∧ m'.syncer.lastDone = m.syncer.lastDone ∧
      Looks log := by
  rcases h.of_bindCont with ⟨t, _, hfail⟩ | ⟨syncer, m₁, log₁, log₂, hget, hrest, rfl⟩
  · obtain ⟨_, ht, _⟩ := goes_getSyncer hfail
    cases ht
  · obtain ⟨rfl, hget, rfl⟩ := goes_getSyncer hget
    cases hget
    rw [List.nil_append]
    cases hready : m₁.syncer.ready with
    | true =>
      rw [if_pos hready] at hrest
      obtain ⟨rfl, _, rfl⟩ := hrest.of_done
      exact ⟨rfl, rfl, fun _ hx => absurd hx List.not_mem_nil⟩
    | false =>
      rw [if_neg (Bool.eq_false_iff.1 hready)] at hrest
      rcases hrest.of_bindCont with ⟨t, _, hfail⟩ | ⟨found, m₂, log₃, log₄, hfound, hrest, rfl⟩
      · obtain ⟨hsyncer, hlooks⟩ := goes_tablesExist hfail
        rw [hsyncer]
        exact ⟨rfl, rfl, hlooks⟩
      · obtain ⟨hsyncer, hlooks⟩ := goes_tablesExist hfound
        cases found with
        | false =>
          obtain ⟨rfl, _, rfl⟩ := hrest.of_done
          rw [List.append_nil, hsyncer]
          exact ⟨rfl, rfl, hlooks⟩
        | true =>
          rcases hrest.of_bindCont with ⟨t, _, hfail⟩ | ⟨u, m₃, log₅, log₆, hupdate, hdone, rfl⟩
          · obtain ⟨_, ht, _⟩ := goes_updateSyncer hfail
            cases ht
          · obtain ⟨rfl, _, hupdate⟩ := goes_updateSyncer hupdate
            obtain ⟨rfl, _, rfl⟩ := hdone.of_done
            rw [List.append_nil, List.append_nil, hupdate, hsyncer]
            exact ⟨rfl, rfl, hlooks⟩

theorem rows?_during (f : Feed ι) (activity : String) (x : Except Trouble Reply) :
    f.rows? (during activity x) = f.rows? x := by
  cases x <;> rfl

theorem goes_fetch {r : Except Trouble (List ι)} (h : Goes Aside f.fetch.run m log r m') :
    f.Fetched m.syncer log r m'.syncer := by
  rcases h.of_bindCont with ⟨t, _, hfail⟩ | ⟨syncer, m₁, log₁, log₂, hget, hrest, rfl⟩
  · obtain ⟨_, ht, _⟩ := goes_getSyncer hfail
    cases ht
  · obtain ⟨rfl, hget, rfl⟩ := goes_getSyncer hget
    cases hget
    rw [List.nil_append]
    rcases hrest.of_bindCont with ⟨t, rfl, hfail⟩ | ⟨reply, m₂, log₃, log₄, hask, hread, rfl⟩
    · obtain ⟨hsyncer, hlog⟩ := goes_ask hfail
      rw [hsyncer]
      refine .missed t (hlog.imp And.left ?_)
      rintro ⟨x, hx, ht⟩
      refine ⟨x, hx, ?_⟩
      rw [← rows?_during f f.activity x, ← ht]
      rfl
    · obtain ⟨hsyncer, hlog⟩ := goes_ask hask
      obtain ⟨x, rfl, hreply⟩ : ∃ x, log₃ = [(f.select (f.last m₁.syncer), x)] ∧
          .ok reply = during f.activity x := by
        rcases hlog with ⟨_, t, ht⟩ | hlog
        · cases ht
        · exact hlog
      have hx : f.rows? x = (reply.rows.mapM f.ofRow).toOption := by
        rw [← rows?_during f f.activity x, ← hreply]
        rfl
      cases hrows : reply.rows.mapM f.ofRow with
      | error t =>
        rw [hrows] at hread hx
        obtain ⟨rfl, rfl, rfl⟩ := hread.of_done
        rw [List.append_nil, hsyncer]
        exact .missed t (.inr ⟨x, rfl, hx⟩)
      | ok rows =>
        rw [hrows] at hread hx
        have hkeep : Goes Aside (ExceptT.run (do
            updateSyncer fun s => f.withLast (highest (f.last s)
              ((f.above (f.last m₁.syncer) rows).map f.id)) s
            return f.above (f.last m₁.syncer) rows)) m₂ log₄ r m' := hread
        rcases hkeep.of_bindCont with ⟨t, _, hfail⟩ | ⟨u, m₃, log₅, log₆, hupdate, hdone, rfl⟩
        · obtain ⟨_, ht, _⟩ := goes_updateSyncer hfail
          cases ht
        · obtain ⟨rfl, _, hupdate⟩ := goes_updateSyncer hupdate
          obtain ⟨rfl, rfl, rfl⟩ := hdone.of_done
          rw [hupdate, hsyncer]
          exact .read x rows hx

theorem goes_sync_iff {result : Except Trouble Report} : Goes Aside sync.run m log result m' ↔
    ∃ handed, Goes Aside round m log (result, handed) m' := by
  rw [← fst_round]
  constructor
  · intro h
    obtain ⟨⟨result', handed⟩, m₁, log₁, log₂, hround, hdone, rfl⟩ := h.of_bind
    obtain ⟨rfl, rfl, rfl⟩ := hdone.of_done
    rw [List.append_nil]
    exact ⟨handed, hround⟩
  · rintro ⟨handed, h⟩
    have hbind := h.bind (f := fun x => pure x.1) (.done result m')
    rwa [List.append_nil] at hbind

end Goes

end Monitor

/--
A round: the checkpoints that it found and left, what it asked and handed over, and its result.
-/
structure Round where
  before : Syncer
  log : Log
  result : Except Trouble Report
  handed : Handed
  after : Syncer

namespace Feed

variable {ι : Type} {f : Feed ι} {log log₁ log₂ : Log} {s s₁ s₂ s' : Syncer} {handed : Handed}

def ReadIn (f : Feed ι) (r : Round) : Prop :=
  f.Reads (f.last r.before) r.log (f.of r.handed) (f.last r.after)

theorem Unasked.readIn (h : f.Unasked log) (hlast : f.last s' = f.last s) (hof : f.of handed = [])
    (result : Except Trouble Report) : f.ReadIn ⟨s, log, result, handed, s'⟩ := by
  unfold ReadIn
  dsimp only
  rw [hlast, hof]
  exact h.reads _

theorem Fetched.readIn {r : Except Trouble (List ι)} (h : f.Fetched s₁ log r s₂)
    (h₁ : f.Unasked log₁) (h₂ : f.Unasked log₂) (hbefore : f.last s₁ = f.last s)
    (hafter : f.last s' = f.last s₂) (hof : f.of handed = r.toOption.getD [])
    (result : Except Trouble Report) :
    f.ReadIn ⟨s, log₁ ++ (log ++ log₂), result, handed, s'⟩ := by
  unfold ReadIn
  dsimp only
  rw [← hbefore, hafter, hof]
  exact h.reads h₁ h₂

end Feed

namespace Monitor

open Sql.Dialogue (Goes)

variable {m m' : Monitor} {log : Log} {result : Except Trouble Report} {handed : Handed}

theorem unasked_of_looks {log : Log} (h : Looks log) :
    Feed.watches.Unasked log ∧ Feed.done.Unasked log := by
  have hwatches : (Storage.findTable "").sql ≠ (Feed.watches.select 0).sql := by decide +kernel
  have hdone : (Storage.findTable "").sql ≠ (Feed.done.select 0).sql := by decide +kernel
  constructor
  · intro x hx
    obtain ⟨table, hsame⟩ := h x hx
    rw [hsame]
    exact hwatches
  · intro x hx
    obtain ⟨table, hsame⟩ := h x hx
    rw [hsame]
    exact hdone

theorem readIn_readTables {log₀ : Log} {s : Syncer} (hwatches : Feed.watches.Unasked log₀)
    (hdone : Feed.done.Unasked log₀) (hwatch : m.syncer.lastWatch = s.lastWatch)
    (hlast : m.syncer.lastDone = s.lastDone)
    (h : Goes Aside readTables m log (result, handed) m') :
    Feed.watches.ReadIn ⟨s, log₀ ++ log, result, handed, m'.syncer⟩ ∧
      Feed.done.ReadIn ⟨s, log₀ ++ log, result, handed, m'.syncer⟩ := by
  obtain ⟨r, m₁, log₁, log₂, hfetch, hrest, rfl⟩ := h.of_bind
  have hnew := goes_fetch hfetch
  have hlast' : m₁.syncer.lastDone = s.lastDone := hnew.lastDone.trans hlast
  have hunasked := hnew.unasked Feed.watches_ne_done
  cases r with
  | error t =>
    obtain ⟨rfl, hresult, rfl⟩ := hrest.of_done
    cases hresult
    refine ⟨hnew.readIn hwatches Feed.unasked_nil hwatch rfl rfl _, ?_⟩
    rw [List.append_nil]
    exact (Feed.unasked_append hdone hunasked).readIn hlast' rfl _
  | ok ws =>
    obtain ⟨added, m₂, _, log₃, hadd, hmore, rfl⟩ := hrest.of_bind
    obtain ⟨rfl, hsyncer⟩ := goes_handOver hadd
    obtain ⟨r, m₃, log₄, log₅, hfetch', hlater, rfl⟩ := hmore.of_bind
    have hold := goes_fetch hfetch'
    rw [hsyncer] at hold
    have hwatch' := hold.lastWatch
    -- Both tables have been read, and the round ends with the checkpoints that it has now.
    have hend (hsame : m'.syncer = m₃.syncer) (hempty : log₅ = [])
        (hof : handed = ⟨ws, r.toOption.getD []⟩) :
        Feed.watches.ReadIn ⟨s, log₀ ++ (log₁ ++ ([] ++ (log₄ ++ log₅))), result, handed, m'.syncer⟩ ∧
          Feed.done.ReadIn
            ⟨s, log₀ ++ (log₁ ++ ([] ++ (log₄ ++ log₅))), result, handed, m'.syncer⟩ := by
      rw [hempty, hof, List.append_nil, List.nil_append, hsame]
      constructor
      · exact hnew.readIn hwatches (hold.unasked Feed.watches_ne_done.symm) hwatch hwatch' rfl _
      · rw [← List.append_assoc, ← List.append_nil log₄]
        exact hold.readIn (Feed.unasked_append hdone hunasked) Feed.unasked_nil hlast' rfl rfl _
    cases r with
    | error t =>
      obtain ⟨hlog, hresult, hm⟩ := hlater.of_done
      cases hresult
      exact hend (congrArg Monitor.syncer hm) hlog rfl
    | ok rows =>
      obtain ⟨removed, m₄, _, _, hremove, hreturn, rfl⟩ := hlater.of_bind
      obtain ⟨rfl, hsyncer'⟩ := goes_handOver hremove
      obtain ⟨rfl, hresult, rfl⟩ := hreturn.of_done
      cases hresult
      exact hend hsyncer' rfl rfl

theorem readIn_round (h : Goes Aside round m log (result, handed) m') :
    Feed.watches.ReadIn ⟨m.syncer, log, result, handed, m'.syncer⟩ ∧
      Feed.done.ReadIn ⟨m.syncer, log, result, handed, m'.syncer⟩ := by
  obtain ⟨ready, m₁, log₁, log₂, hready, hrest, rfl⟩ := h.of_bind
  obtain ⟨hwatch, hlast, hlooks⟩ := goes_tablesReady hready
  obtain ⟨hwatches, hdone⟩ := unasked_of_looks hlooks
  have hskip (hempty : log₂ = []) (hnothing : handed = .nothing) (hm : m' = m₁) :
      Feed.watches.ReadIn ⟨m.syncer, log₁ ++ log₂, result, handed, m'.syncer⟩ ∧
        Feed.done.ReadIn ⟨m.syncer, log₁ ++ log₂, result, handed, m'.syncer⟩ := by
    rw [hempty, hnothing, hm, List.append_nil]
    exact ⟨hwatches.readIn hwatch rfl _, hdone.readIn hlast rfl _⟩
  cases ready with
  | error t =>
    obtain ⟨hlog, hresult, hm⟩ := hrest.of_done
    cases hresult
    exact hskip hlog rfl hm
  | ok ready =>
    cases ready with
    | false =>
      obtain ⟨hlog, hresult, hm⟩ := hrest.of_done
      cases hresult
      exact hskip hlog rfl hm
    | true => exact readIn_readTables hwatches hdone hwatch hlast hrest

end Monitor

open Monitor (Aside)
open Sql.Dialogue (Goes)

/--
Rounds that are done one after the other. Between two of them and while they wait, others may do
anything to the manager.
-/
inductive Rounds : Monitor → List Round → Monitor → Prop
  | nil (m : Monitor) : Rounds m [] m
  | cons {m m₁ m₂ m' : Monitor} {log : Log} {result : Except Trouble Report} {handed : Handed}
    {rs : List Round} (haside : Aside m m₁)
    (h : Goes Aside Monitor.round m₁ log (result, handed) m₂) (hrest : Rounds m₂ rs m') :
    Rounds m (⟨m₁.syncer, log, result, handed, m₂.syncer⟩ :: rs) m'

/--
What rounds make of a table, from one checkpoint to another: each of them reads it by the rule, the
checkpoint never goes back, and stays where it is if no rows came that can be read. The rows that a
round hands over lie between its checkpoints, whatever its result, so that no id is in two rounds.
-/
structure Feed.Once {ι : Type} (f : Feed ι) (first last : Syncer) (rs : List Round) : Prop where
  readIn : ∀ r ∈ rs, f.ReadIn r
  failed : ∀ r ∈ rs, (∀ x ∈ f.answers r.log, f.rows? x.2 = none) →
    f.of r.handed = [] ∧ f.last r.after = f.last r.before
  between : ∀ r ∈ rs, ∀ x ∈ f.of r.handed, f.last r.before < f.id x ∧ f.id x ≤ f.last r.after
  le : f.last first ≤ f.last last
  grows : ∀ r ∈ rs, f.last first ≤ f.last r.before ∧ f.last r.before ≤ f.last r.after ∧
    f.last r.after ≤ f.last last
  ordered : rs.Pairwise fun r r' => f.last r.after ≤ f.last r'.before
  once : rs.Pairwise fun r r' => ∀ x ∈ f.of r.handed, ∀ y ∈ f.of r'.handed, f.id x ≠ f.id y

section Once

variable {ι : Type} {f : Feed ι} {first last : Syncer} {r : Round} {rs : List Round}

theorem Feed.ReadIn.failed (h : f.ReadIn r) (hr : ∀ x ∈ f.answers r.log, f.rows? x.2 = none) :
    f.of r.handed = [] ∧ f.last r.after = f.last r.before := by
  unfold Feed.ReadIn at h
  generalize f.of r.handed = xs, f.last r.after = after at h ⊢
  cases h with
  | missed _ => exact ⟨rfl, rfl⟩
  | read x rows hlog hx =>
    rw [hlog] at hr
    cases (hr _ (List.mem_singleton_self _)).symm.trans hx

theorem Feed.once_nil (f : Feed ι) (s : Syncer) : f.Once s s [] where
  readIn _ h := absurd h List.not_mem_nil
  failed _ h := absurd h List.not_mem_nil
  between _ h := absurd h List.not_mem_nil
  le := Int.le_refl _
  grows _ h := absurd h List.not_mem_nil
  ordered := .nil
  once := .nil

theorem Feed.Once.cons (h : f.Once r.after last rs) (hr : f.ReadIn r) :
    f.Once r.before last (r :: rs) := by
  -- The rows of later rounds lie above the checkpoint that a round left, and its own do not.
  obtain ⟨hle, hbetween⟩ := hr.bounds
  have hlast := h.le
  have hordered : ∀ r' ∈ rs, f.last r.after ≤ f.last r'.before := fun r' hr' => (h.grows r' hr').1
  refine ⟨List.forall_mem_cons.2 ⟨hr, h.readIn⟩, List.forall_mem_cons.2 ⟨hr.failed, h.failed⟩,
    List.forall_mem_cons.2 ⟨hbetween, h.between⟩, Int.le_trans hle hlast,
    List.forall_mem_cons.2 ⟨⟨Int.le_refl _, hle, hlast⟩, ?_⟩,
    List.pairwise_cons.2 ⟨hordered, h.ordered⟩, List.pairwise_cons.2 ⟨?_, h.once⟩⟩
  · intro r' hr'
    have hgrows := h.grows r' hr'
    omega
  · intro r' hr' x hx y hy hid
    have hx := hbetween x hx
    have hy := h.between r' hr' y hy
    have hle' := hordered r' hr'
    omega

end Once

/--
Whatever is answered and whatever fails, rounds hand no row over twice.
-/
theorem once_of_rounds {m m' : Monitor} {rs : List Round} (h : Rounds m rs m') :
    Feed.watches.Once m.syncer m'.syncer rs ∧ Feed.done.Once m.syncer m'.syncer rs := by
  induction h with
  | nil m => exact ⟨Feed.once_nil _ _, Feed.once_nil _ _⟩
  | cons haside h hrest ih =>
    obtain ⟨hwatches, hdone⟩ := Monitor.readIn_round h
    have haside : _ = _ := haside
    rw [← haside]
    exact ⟨ih.1.cons hwatches, ih.2.cons hdone⟩

/--
Rounds of the server itself, and what each of them asked and said at its end.
-/
inductive Syncs : Monitor → List (Log × Except Trouble Report) → Monitor → Prop
  | nil (m : Monitor) : Syncs m [] m
  | cons {m m₁ m₂ m' : Monitor} {log : Log} {result : Except Trouble Report}
    {xs : List (Log × Except Trouble Report)} (haside : Aside m m₁)
    (h : Goes Aside Monitor.sync.run m₁ log result m₂) (hrest : Syncs m₂ xs m') :
    Syncs m ((log, result) :: xs) m'

section Syncs

variable {m m' : Monitor} {xs : List (Log × Except Trouble Report)}

theorem syncs_iff : Syncs m xs m' ↔
    ∃ rs, Rounds m rs m' ∧ rs.map (fun r => (r.log, r.result)) = xs := by
  constructor
  · intro h
    induction h with
    | nil m => exact ⟨[], .nil m, rfl⟩
    | cons haside h _ ih =>
      obtain ⟨handed, hround⟩ := Monitor.goes_sync_iff.1 h
      obtain ⟨rs, hrs, rfl⟩ := ih
      exact ⟨_, .cons haside hround hrs, rfl⟩
  · rintro ⟨rs, h, rfl⟩
    induction h with
    | nil m => exact .nil m
    | cons haside h _ ih => exact .cons haside (Monitor.goes_sync_iff.2 ⟨_, h⟩) ih

theorem le_of_sync {log : Log} {result : Except Trouble Report}
    (h : Goes Aside Monitor.sync.run m log result m') :
    m.syncer.lastWatch ≤ m'.syncer.lastWatch ∧ m.syncer.lastDone ≤ m'.syncer.lastDone := by
  obtain ⟨handed, hround⟩ := Monitor.goes_sync_iff.1 h
  obtain ⟨hwatches, hdone⟩ := Monitor.readIn_round hround
  exact ⟨hwatches.bounds.1, hdone.bounds.1⟩

/--
The rounds of the server hand over what some rounds do that hand nothing over twice.
-/
theorem once_of_syncs (h : Syncs m xs m') : ∃ rs, Rounds m rs m' ∧
    rs.map (fun r => (r.log, r.result)) = xs ∧
    Feed.watches.Once m.syncer m'.syncer rs ∧ Feed.done.Once m.syncer m'.syncer rs := by
  induction h with
  | nil m => exact ⟨[], .nil m, rfl, Feed.once_nil _ _, Feed.once_nil _ _⟩
  | cons haside h _ ih =>
    obtain ⟨handed, hround⟩ := Monitor.goes_sync_iff.1 h
    obtain ⟨hwatches, hdone⟩ := Monitor.readIn_round hround
    obtain ⟨rs, hrs, rfl, honce, honce'⟩ := ih
    have hsyncer : _ = _ := haside
    rw [← hsyncer]
    exact ⟨_, .cons haside hround hrs, rfl, honce.cons hwatches, honce'.cons hdone⟩

end Syncs

/--
Rounds in which nobody else does anything and all sessions can be had, with the answers of each.
-/
def followRounds (m : Monitor) : List (List (Except Trouble Reply)) → Option (List Round × Monitor)
  | [] => some ([], m)
  | answers :: rest =>
    (Monitor.round.follow default m answers).bind fun x =>
      (followRounds x.2.2 rest).map fun y =>
        (⟨m.syncer, x.1, x.2.1.1, x.2.1.2, x.2.2.syncer⟩ :: y.1, y.2)

theorem rounds_of_follow {m m' : Monitor} {answers : List (List (Except Trouble Reply))}
    {rs : List Round} (h : followRounds m answers = some (rs, m')) : Rounds m rs m' := by
  induction answers generalizing m rs with
  | nil =>
    cases h
    exact .nil _
  | cons a answers ih =>
    obtain ⟨⟨log, ⟨result, handed⟩, m₂⟩, hround, h⟩ := Option.bind_eq_some_iff.1 h
    obtain ⟨⟨rest, m₃⟩, hrest, heq⟩ := Option.map_eq_some_iff.1 h
    cases heq
    exact .cons (.refl m) (Sql.Dialogue.goes_of_follow Aside.refl hround) (ih hrest)

def plainWatch (id : Int) : Watch := { (default : Watch) with id, text := toString id }

def watchReply (ids : List Int) : Reply :=
  .ofRows (ids.map fun id => Tables.watchRow (plainWatch id))

def doneReply (ids : List Int) : Reply :=
  .ofRows (ids.map fun id => Tables.doneRow (plainWatch 1, id))

def foundReply : Reply := .ofRows [⟨[.int 1]⟩]

/--
A pool that knows no filter: the rows of the watch table come in all rounds, one of them twice. In
the first round the done table cannot be read.
-/
def carelessAnswers : List (List (Except Trouble Reply)) := [
  [.ok foundReply, .ok foundReply, .ok (watchReply [3, 1, 3]), .error (.of "gone")],
  [.ok (watchReply [1, 3, 4]), .ok (doneReply [7, 7])],
  [.ok (watchReply [4]), .ok (doneReply [7, 9])]]

theorem once_of_carelessAnswers :
    ∃ rs m', followRounds (.ofSettings .standard) carelessAnswers = some (rs, m') ∧
      Rounds (.ofSettings .standard) rs m' ∧
      Feed.watches.Once .start m'.syncer rs ∧ Feed.done.Once .start m'.syncer rs ∧
      rs.map (fun r => (r.handed.watches.map (·.id), r.handed.done.map (·.2), r.after)) =
        [([3, 1, 3], [], ⟨true, 3, 0⟩), ([4], [7, 7], ⟨true, 4, 7⟩), ([], [9], ⟨true, 4, 9⟩)] := by
  have hmap : (followRounds (.ofSettings .standard) carelessAnswers).map (fun x => x.1.map
      fun r => (r.handed.watches.map (·.id), r.handed.done.map (·.2), r.after)) =
      some [([3, 1, 3], [], ⟨true, 3, 0⟩), ([4], [7, 7], ⟨true, 4, 7⟩), ([], [9], ⟨true, 4, 9⟩)] := by
    decide +kernel
  obtain ⟨⟨rs, m'⟩, hfollow, hrs⟩ := Option.map_eq_some_iff.1 hmap
  have hrounds := rounds_of_follow hfollow
  obtain ⟨hwatches, hdone⟩ := once_of_rounds hrounds
  exact ⟨rs, m', hfollow, hrounds, hwatches, hdone, hrs⟩

end Steward.Runaway
