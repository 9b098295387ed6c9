import Steward.Proofs.Runaway.Write

/-!
This module contains the account of the records of a server: which queries were marked, which records
were gathered into which batch, and what became of the batches. The account agrees with the server in
whatever order records are received, time passes and answers come.
-/

namespace Steward.Runaway

open Sql (Held)

structure Batch where
  /-- The records that were received since the batch before. -/
  received : List Record
  rows : List Record
  /-- It was begun after the loops were told to end. -/
  isLast : Bool
  /-- Was it written? Nothing is known while the answer is due. -/
  outcome : Option Bool

structure Account where
  /-- The records of all marks, and whether there was room for them. -/
  marks : List (Record × Bool)
  batches : List Batch
  /-- The records that were received since the last batch. -/
  since : List Record

def Manager.recordOf (m : Manager) (q : Query) (action : Action) (detection : Detection)
    (start : Moment) (cause : String) : Record where
  group := q.group
  start := start
  detection := detection
  action := action
  sample := q.sql
  sqlDigest := q.sqlDigest
  planDigest := q.planDigest
  source := m.settings.serverId
  cause := cause
  repeats := 1

namespace Account

def empty : Account := ⟨[], [], []⟩

/--
The records for which there was room, in the order of their marks.
-/
def accepted (a : Account) : List Record := (a.marks.filter (·.2)).map (·.1)

def refused (a : Account) : Nat := a.marks.countP (!·.2)

def written (a : Account) : Nat :=
  ((a.batches.filter (·.outcome = some true)).map (·.rows.length)).sum

def lost (a : Account) : Nat := a.batches.countP (·.outcome = some false)

def mark (a : Account) (r : Record) (room : Bool) : Account :=
  { a with marks := a.marks ++ [(r, room)] }

def flush (a : Account) (p : Pipeline) (d : Post) (isLast : Bool) : Account :=
  if p.buffer.batch = [] then a
  else { a with
    batches := a.batches ++ [{
      received := a.since, rows := p.buffer.batch, isLast
      outcome := (d.begin .flush (Errand.writeRecords p.buffer.batch)).1 }]
    since := [] }

def gather (a : Account) (p : Pipeline) (d : Post) : Account :=
  match d.manager.records.receive? with
  | none => a
  | some (r, records) =>
    let a := { a with since := a.since ++ [r] }
    let p := { p with buffer := p.buffer.add r }
    if d.manager.settings.flushThreshold ≤ p.buffer.size then
      a.flush p (d.setManager { d.manager with records }) false
    else a

def gatherLast (a : Account) (p : Pipeline) (d : Post) : Account :=
  let items := d.manager.records.items
  { a with since := a.since ++ items }.flush
    { p with buffer := items.foldl Buffer.add p.buffer, drained := true }
    (d.setManager { d.manager with records := d.manager.records.drained }) true

/--
The outcome of the last batch becomes known, if it does.
-/
def answer (a : Account) (ok : Option Bool) : Account :=
  { a with batches := a.batches.modifyLast fun b => { b with outcome := ok } }

end Account

inductive Turn where
  | mark (q : Query) (action : Action) (detection : Detection) (start : Moment) (cause : String)
  /-- A record is received. -/
  | gather
  /-- It is time to write. -/
  | tick (next : Ticker)
  /-- The answer to a batch is taken. -/
  | answer
  /-- The loops are told to end. -/
  | stop
  /-- All records that are left are received. -/
  | gatherLast

/--
Takes a turn if it is possible. Records are received, and it is time to write, only while no batch is
being written and before the last records were received; after that nothing is marked.
-/
def Account.take? (a : Account) (p : Pipeline) (d : Post) : Turn → Option (Account × Pipeline × Post)
  | .mark q action detection start cause =>
    let r := d.manager.recordOf q action detection start cause
    if p.drained then none
    else some (a.mark r (d.manager.records.send? r).isSome, p,
      d.setManager (d.manager.markRunaway q action detection start cause))
  | .gather =>
    if p.drained || d.isHeld .flush then none
    else (p.gather? d).map fun x => (a.gather p d, x)
  | .tick next =>
    if p.drained || d.isHeld .flush then none
    else some (a.flush p d false, { p with flushTick := next }.flush d)
  | .answer => (d.proceed? .flush).map fun r => (a.answer r.1, p, r.2)
  | .stop => some (a, p.stop d)
  | .gatherLast =>
    if !p.stopping || d.isHeld .flush then none
    else (p.gatherLast? d).map fun x => (a.gatherLast p d, x)

/--
Nothing happened to the records and to what is counted of them.
-/
structure Manager.SameRecords (m m' : Manager) : Prop where
  settings : m'.settings = m.settings
  records : m'.records = m.records
  recordsDropped : m'.metrics.recordsDropped = m.metrics.recordsDropped
  recordsFlushed : m'.metrics.recordsFlushed = m.metrics.recordsFlushed
  flushFailures : m'.metrics.flushFailures = m.metrics.flushFailures

structure Aside (p : Pipeline) (d : Post) (p' : Pipeline) (d' : Post) : Prop where
  buffer : p'.buffer = p.buffer
  stopping : p'.stopping = p.stopping
  drained : p'.drained = p.drained
  manager : d.manager.SameRecords d'.manager
  held : d'.held.lookup .flush = d.held.lookup .flush

/--
A server came to this from its start, in whatever order things happened, and the account was kept.
-/
inductive Recorded (s : Settings) : Account → Pipeline → Post → Prop
  | start {d : Post} (now : Nat) (hd : d.manager = .ofSettings s) (hheld : d.held = []) :
    Recorded s .empty (.start s now) d
  | turn {a a' : Account} {p p' : Pipeline} {d d' : Post} (t : Turn) (h : Recorded s a p d)
    (ht : a.take? p d t = some (a', p', d')) : Recorded s a' p' d'
  | aside {a : Account} {p p' : Pipeline} {d d' : Post} (h : Recorded s a p d)
    (hside : Aside p d p' d') : Recorded s a p' d'

/--
The outcomes of all batches are known, or the desk waits for the answer to the last of them.
-/
inductive Awaits : List Batch → Option (Held Monitor Bool) → Prop
  | nothing {bs : List Batch} (h : ∀ b ∈ bs, b.outcome ≠ none) : Awaits bs none
  | answer {bs : List Batch} {b : Batch} (due : Nat) (h : ∀ b ∈ bs, b.outcome ≠ none)
    (hb : b.outcome = none) : Awaits (bs ++ [b])
      (some (.waiting ⟨due, Storage.insertRecords b.rows, Errand.afterInsert b.rows⟩))

theorem Awaits.known {bs : List Batch} (h : Awaits bs none) : ∀ b ∈ bs, b.outcome ≠ none := by
  cases h with
  | nothing h => exact h

/--
The rows of a batch are made of what was received for it, they are not too many, and its outcome is
that of the errand that writes them.
-/
structure Batch.Sound (s : Settings) (b : Batch) : Prop where
  rows : b.rows = Buffer.rowsOf b.received
  filled : b.rows ≠ []
  ran (ok : Bool) : b.outcome = some ok → Errand.Ran b.rows ok
  limit : b.isLast = false → b.rows.length ≤ s.flushThreshold

structure Balanced (s : Settings) (a : Account) (p : Pipeline) (d : Post) : Prop where
  settings : d.manager.settings = s
  single : ∀ x ∈ a.marks, x.1.repeats = 1
  accepted : a.accepted = a.batches.flatMap (·.received) ++ a.since ++ d.manager.records.items
  buffer : p.buffer = a.since.foldl Buffer.add .empty
  sound : ∀ b ∈ a.batches, b.Sound s
  last : a.batches.Pairwise fun b _ => b.isLast = false
  early : p.drained = false → ∀ b ∈ a.batches, b.isLast = false
  drained : p.drained = true → p.stopping = true ∧ d.manager.records.items = []
  recordsDropped : d.manager.metrics.recordsDropped = a.refused
  recordsFlushed : d.manager.metrics.recordsFlushed = a.written
  flushFailures : d.manager.metrics.flushFailures = a.lost
  awaits : Awaits a.batches (d.held.lookup .flush)

/--
Between two turns there is no need to write: the buffer is not full, and at the end it is empty.
-/
structure Rested (s : Settings) (a : Account) (p : Pipeline) : Prop where
  small : p.drained = false → p.buffer.size < s.flushThreshold
  empty : p.drained = true → a.since = []

section Account

variable {a : Account} {r : Record} {room : Bool} {b : Batch} {bs : List Batch}

theorem forall_mem_concat {P : Batch → Prop} :
    (∀ x ∈ bs ++ [b], P x) ↔ (∀ x ∈ bs, P x) ∧ P b := by
  rw [List.forall_mem_append, List.forall_mem_singleton]

theorem pairwise_isLast_concat :
    (bs ++ [b]).Pairwise (fun b _ => b.isLast = false) ↔
      bs.Pairwise (fun b _ => b.isLast = false) ∧ ∀ x ∈ bs, x.isLast = false := by
  rw [List.pairwise_append]
  simp

theorem Account.accepted_mark : (a.mark r room).accepted = a.accepted ++ if room then [r] else [] := by
  unfold accepted mark
  rw [List.filter_append, List.map_append]
  cases room <;> rfl

theorem Account.refused_mark : (a.mark r room).refused = a.refused + if room then 0 else 1 := by
  unfold refused mark
  rw [List.countP_append]
  cases room <;> rfl

theorem Account.written_concat (a : Account) (bs : List Batch) (b : Batch) :
    ({ a with batches := bs ++ [b] } : Account).written = ({ a with batches := bs } : Account).written
      + (if b.outcome = some true then b.rows.length else 0) ∧
    ({ a with batches := bs ++ [b] } : Account).lost = ({ a with batches := bs } : Account).lost
      + (if b.outcome = some false then 1 else 0) := by
  unfold written lost
  dsimp only
  rw [List.filter_append, List.map_append, List.sum_append, List.countP_append]
  constructor
  · by_cases hb : b.outcome = some true <;> simp [hb]
  · by_cases hb : b.outcome = some false <;> simp [hb]

theorem Account.answer_concat (marks : List (Record × Bool)) (bs : List Batch) (b : Batch)
    (since : List Record) (ok : Option Bool) :
    (⟨marks, bs ++ [b], since⟩ : Account).answer ok =
      ⟨marks, bs ++ [{ b with outcome := ok }], since⟩ := by
  unfold answer
  rw [List.modifyLast_concat]

end Account

theorem isHeld_eq_false_iff {d : Post} {who : Member} :
    d.isHeld who = false ↔ d.held.lookup who = none := by
  unfold Sql.Desk.isHeld
  rw [List.lookup_eq_none_iff, List.any_eq_false]
  refine forall_congr' fun x => imp_congr_right fun _ => ?_
  rw [decide_eq_true_iff, bne_iff_ne]
  exact ⟨Ne.symm, Ne.symm⟩

namespace Balanced

variable {s : Settings} {a : Account} {p : Pipeline} {d d' : Post}

theorem begin {x : Option Bool × Post} {rows : List Record} {isLast : Bool}
    (h : Balanced s a p d) (hfree : d.held.lookup .flush = none) (hbegan : d.Began rows x)
    (hsound : Batch.Sound s ⟨a.since, rows, isLast, x.1⟩)
    (hprev : ∀ b ∈ a.batches, b.isLast = false) (hlast : isLast = true → p.drained = true) :
    Balanced s { a with batches := a.batches ++ [⟨a.since, rows, isLast, x.1⟩], since := [] }
      { p with buffer := .empty } x.2 := by
  have hcounts := hbegan.counts
  obtain ⟨hwritten, hlost⟩ := Account.written_concat { a with since := [] } a.batches
    ⟨a.since, rows, isLast, x.1⟩
  exact {
    settings := hcounts.settings.trans h.settings
    single := h.single
    accepted := by
      rw [hcounts.records]
      simpa [Account.accepted] using h.accepted
    buffer := rfl
    sound := forall_mem_concat.2 ⟨h.sound, hsound⟩
    last := pairwise_isLast_concat.2 ⟨h.last, hprev⟩
    early := by
      intro hopen
      refine forall_mem_concat.2 ⟨h.early hopen, ?_⟩
      exact Bool.eq_false_iff.2 fun hnow => Bool.false_ne_true (hopen.symm.trans (hlast hnow))
    drained := by
      rw [hcounts.records]
      exact h.drained
    recordsDropped := hcounts.recordsDropped.trans h.recordsDropped
    recordsFlushed := by
      rw [hwritten, hcounts.recordsFlushed, h.recordsFlushed]
      rfl
    flushFailures := by
      rw [hlost, hcounts.flushFailures, h.flushFailures]
      rfl
    awaits := by
      -- Nothing was awaited before, so that only the new batch may have no outcome.
      have hknown := (hfree ▸ h.awaits).known
      cases hbegan with
      | ended ok _ _ hheld =>
        rw [hheld, hfree]
        exact .nothing (forall_mem_concat.2 ⟨hknown, Option.some_ne_none ok⟩)
      | waiting due _ hheld =>
        rw [hheld]
        exact .answer due hknown rfl }

theorem flush (h : Balanced s a p d) (isLast : Bool) (hfree : d.held.lookup .flush = none)
    (hlimit : isLast = false → p.buffer.size ≤ s.flushThreshold)
    (hprev : ∀ b ∈ a.batches, b.isLast = false) (hlast : isLast = true → p.drained = true) :
    Balanced s (a.flush p d isLast) (p.flush d).1 (p.flush d).2 ∧
      (a.flush p d isLast).since = [] := by
  unfold Account.flush Pipeline.flush
  have hrows : p.buffer.batch = Buffer.rowsOf a.since := by
    rw [h.buffer]
    rfl
  by_cases hempty : p.buffer.batch = []
  · rw [if_pos hempty, hempty]
    have hsince := Buffer.rowsOf_eq_nil_iff.1 (hrows ▸ hempty)
    exact ⟨{ h with buffer := by rw [hsince]; rfl }, hsince⟩
  · rw [if_neg hempty]
    have hbegan := Post.began_begin d hempty
    have hlength : p.buffer.batch.length = p.buffer.size := (List.mergeSort_perm _ _).length_eq
    refine ⟨h.begin hfree hbegan ?_ hprev hlast, rfl⟩
    exact {
      rows := hrows
      filled := hempty
      ran := fun _ hok => hbegan.ran hok
      limit := fun hnot => hlength ▸ hlimit hnot }

theorem mark (h : Balanced s a p d) (hopen : p.drained = false) (q : Query) (action : Action)
    (detection : Detection) (start : Moment) (cause : String) :
    let r := d.manager.recordOf q action detection start cause
    Balanced s (a.mark r (d.manager.records.send? r).isSome) p
      (d.setManager (d.manager.markRunaway q action detection start cause)) := by
  intro r
  have hsingle : ∀ x ∈ a.marks ++ [(r, (d.manager.records.send? r).isSome)], x.1.repeats = 1 :=
    List.forall_mem_append.2 ⟨h.single, List.forall_mem_singleton.2 rfl⟩
  unfold Manager.markRunaway
  dsimp only
  split
  · next records heq =>
    have hsend : d.manager.records.send? r = some records := heq
    rw [hsend] at hsingle ⊢
    refine { h with single := hsingle, accepted := ?_, drained := ?_, recordsDropped := ?_ }
    · rw [Account.accepted_mark, h.accepted]
      show _ = _ ++ records.items
      rw [Channel.items_of_send hsend, ← List.append_assoc]
      rfl
    · exact fun hdrained => absurd (hopen.symm.trans hdrained) Bool.false_ne_true
    · rw [Account.refused_mark, ← h.recordsDropped]
      rfl
  · -- There is no room, and the mark is counted instead.
    next heq =>
    have hsend : d.manager.records.send? r = none := heq
    rw [hsend] at hsingle ⊢
    refine { h with single := hsingle, accepted := ?_, recordsDropped := ?_ }
    · rw [Account.accepted_mark, h.accepted]
      exact List.append_nil _
    · rw [Account.refused_mark, ← h.recordsDropped]
      rfl

theorem receive (h : Balanced s a p d) (items : List Record) (records : Channel Record)
    (drained : Bool) (hitems : d.manager.records.items = items ++ records.items)
    (hopen : p.drained = false)
    (hdrained : drained = true → p.stopping = true ∧ records.items = []) :
    Balanced s { a with since := a.since ++ items }
      { p with buffer := items.foldl Buffer.add p.buffer, drained }
      (d.setManager { d.manager with records }) := by
  refine { h with accepted := ?_, buffer := ?_, early := ?_, drained := hdrained }
  · have haccepted := h.accepted
    rw [hitems] at haccepted
    simpa [Account.accepted] using haccepted
  · dsimp only
    rw [h.buffer, List.foldl_append]
  · exact fun _ => h.early hopen

theorem settle {marks : List (Record × Bool)} {bs : List Batch} {b : Batch} {since : List Record}
    {ok : Bool} (h : Balanced s ⟨marks, bs ++ [b], since⟩ p d) (hknown : ∀ b ∈ bs, b.outcome ≠ none)
    (hnone : b.outcome = none) (hran : Errand.Ran b.rows ok)
    (hcounts : d.Counts b.rows.length (some ok) d') (hheld : d'.held.lookup .flush = none) :
    Balanced s ⟨marks, bs ++ [{ b with outcome := some ok }], since⟩ p d' := by
  obtain ⟨hwritten, hlost⟩ := Account.written_concat ⟨marks, bs, since⟩ bs b
  obtain ⟨hwritten', hlost'⟩ :=
    Account.written_concat ⟨marks, bs, since⟩ bs { b with outcome := some ok }
  rw [hnone] at hwritten hlost
  obtain ⟨hsound, hsound'⟩ := forall_mem_concat.1 h.sound
  exact {
    settings := hcounts.settings.trans h.settings
    single := h.single
    accepted := by
      rw [hcounts.records]
      simpa [Account.accepted] using h.accepted
    buffer := h.buffer
    sound := by
      refine forall_mem_concat.2 ⟨hsound, { hsound' with ran := fun ok' hok => ?_ }⟩
      cases hok
      exact hran
    last := pairwise_isLast_concat.2 (pairwise_isLast_concat.1 h.last)
    early := by
      intro hopen
      obtain ⟨hprev, hlast⟩ := forall_mem_concat.1 (h.early hopen)
      exact forall_mem_concat.2 ⟨hprev, hlast⟩
    drained := by
      rw [hcounts.records]
      exact h.drained
    recordsDropped := hcounts.recordsDropped.trans h.recordsDropped
    recordsFlushed := by
      rw [hwritten', hcounts.recordsFlushed, h.recordsFlushed, hwritten]
      rfl
    flushFailures := by
      rw [hlost', hcounts.flushFailures, h.flushFailures, hlost]
      rfl
    awaits := by
      rw [hheld]
      exact .nothing (forall_mem_concat.2 ⟨hknown, Option.some_ne_none ok⟩) }

theorem answer (h : Balanced s a p d) {r : Option Bool × Post} (hr : d.proceed? .flush = some r) :
    Balanced s (a.answer r.1) p r.2 := by
  have hawaits := h.awaits
  obtain ⟨marks, batches, since⟩ := a
  generalize hheld : d.held.lookup .flush = held at hawaits
  cases hawaits with
  | nothing _ =>
    unfold Sql.Desk.proceed? at hr
    rw [hheld] at hr
    cases hr
  | @answer bs b due hknown hnone =>
    obtain ⟨reply, hok, hstate, hafter⟩ := Post.proceed_afterInsert hheld hr
    have hsound : b.Sound s := h.sound b (List.mem_append_right bs (List.mem_singleton_self b))
    show Balanced s (Account.answer ⟨marks, bs ++ [b], since⟩ r.1) p r.2
    rw [hok, Account.answer_concat]
    refine h.settle hknown hnone (Errand.ran_of_reply hsound.filled reply)
      (Post.counts_of_wrote hstate) ?_
    rw [hafter, List.lookup_eq_none_iff]
    intro x hx
    have hne := of_decide_eq_true (List.mem_filter.1 hx).2
    exact bne_iff_ne.2 (Ne.symm hne)

theorem aside {p' : Pipeline} (h : Balanced s a p d) (hside : Aside p d p' d') :
    Balanced s a p' d' where
  settings := hside.manager.settings.trans h.settings
  single := h.single
  accepted := by
    rw [hside.manager.records]
    exact h.accepted
  buffer := hside.buffer.trans h.buffer
  sound := h.sound
  last := h.last
  early := by
    rw [hside.drained]
    exact h.early
  drained := by
    rw [hside.drained, hside.stopping, hside.manager.records]
    exact h.drained
  recordsDropped := hside.manager.recordsDropped.trans h.recordsDropped
  recordsFlushed := hside.manager.recordsFlushed.trans h.recordsFlushed
  flushFailures := hside.manager.flushFailures.trans h.flushFailures
  awaits := by
    rw [hside.held]
    exact h.awaits

end Balanced

section Recorded

variable {s : Settings} {a a' : Account} {p p' : Pipeline} {d d' : Post}

theorem Settings.flushThreshold_pos (s : Settings) : 0 < s.flushThreshold := by
  unfold flushThreshold
  omega

theorem rested_of_empty (hbuffer : p.buffer = .empty) (hsince : a.since = []) : Rested s a p where
  small _ := by
    rw [hbuffer]
    exact s.flushThreshold_pos
  empty _ := hsince

theorem Balanced.gather (h : Balanced s a p d) (hr : Rested s a p) (hopen : p.drained = false)
    (hfree : d.held.lookup .flush = none) (hmove : p.gather? d = some (p', d')) :
    Balanced s (a.gather p d) p' d' ∧ Rested s (a.gather p d) p' := by
  unfold Pipeline.gather? at hmove
  unfold Account.gather
  cases hreceive : d.manager.records.receive? with
  | none =>
    rw [hreceive] at hmove
    cases hmove
  | some x =>
    obtain ⟨r, records⟩ := x
    rw [hreceive] at hmove
    have hmid := h.receive [r] records p.drained (Channel.items_of_receive hreceive) hopen
      fun hdrained => absurd (hopen.symm.trans hdrained) Bool.false_ne_true
    have hthreshold : d.manager.settings.flushThreshold = s.flushThreshold := by rw [h.settings]
    by_cases hfull : d.manager.settings.flushThreshold ≤ (p.buffer.add r).size
    · have hflush := Option.some.inj ((if_pos hfull).symm.trans hmove)
      obtain ⟨hafter, hsince⟩ := hmid.flush false hfree (fun _ => by
        -- The buffer was not full before, and one record makes at most one row more.
        have hadd := Buffer.size_add_le p.buffer r
        have hsmall := hr.small hopen
        show (p.buffer.add r).size ≤ s.flushThreshold
        omega) (h.early hopen) (fun hnow => absurd hnow Bool.false_ne_true)
      dsimp only
      rw [if_pos hfull]
      obtain rfl : _ = p' := congrArg Prod.fst hflush
      obtain rfl : _ = d' := congrArg Prod.snd hflush
      exact ⟨hafter, rested_of_empty rfl hsince⟩
    · cases (if_neg hfull).symm.trans hmove
      dsimp only
      rw [if_neg hfull]
      exact ⟨hmid, fun _ => hthreshold ▸ Nat.not_le.1 hfull,
        fun hdrained => absurd (hopen.symm.trans hdrained) Bool.false_ne_true⟩

theorem Balanced.gatherLast (h : Balanced s a p d) (hstop : p.stopping = true)
    (hfree : d.held.lookup .flush = none) (hmove : p.gatherLast? d = some (p', d')) :
    Balanced s (a.gatherLast p d) p' d' ∧ Rested s (a.gatherLast p d) p' := by
  unfold Pipeline.gatherLast? at hmove
  unfold Account.gatherLast
  cases hopen : p.drained with
  | true =>
    rw [if_pos hopen] at hmove
    cases hmove
  | false =>
    rw [if_neg (Bool.eq_false_iff.1 hopen)] at hmove
    cases hmove
    have hmid := h.receive d.manager.records.items d.manager.records.drained true
      (List.append_nil _).symm hopen fun _ => ⟨hstop, rfl⟩
    obtain ⟨hafter, hsince⟩ := hmid.flush true hfree
      (fun hnot => absurd hnot.symm Bool.false_ne_true) (h.early hopen) (fun _ => rfl)
    exact ⟨hafter, rested_of_empty rfl hsince⟩

theorem balanced_take (h : Balanced s a p d) (hr : Rested s a p) (t : Turn)
    (ht : a.take? p d t = some (a', p', d')) : Balanced s a' p' d' ∧ Rested s a' p' := by
  unfold Account.take? at ht
  cases t with
  | mark q action detection start cause =>
    dsimp only at ht
    split at ht
    · cases ht
    · next hopen =>
      cases ht
      exact ⟨h.mark (Bool.eq_false_iff.2 hopen) q action detection start cause, hr.small, hr.empty⟩
  | gather =>
    dsimp only at ht
    split at ht
    · cases ht
    · next hguard =>
      obtain ⟨hopen, hfree⟩ := Bool.or_eq_false_iff.1 (Bool.eq_false_iff.2 hguard)
      obtain ⟨x, hmove, hsame⟩ := Option.map_eq_some_iff.1 ht
      cases hsame
      exact h.gather hr hopen (isHeld_eq_false_iff.1 hfree) hmove
  | tick next =>
    dsimp only at ht
    split at ht
    · cases ht
    · next hguard =>
      obtain ⟨hopen, hfree⟩ := Bool.or_eq_false_iff.1 (Bool.eq_false_iff.2 hguard)
      cases ht
      have hnext : Balanced s a { p with flushTick := next } d := { h with }
      obtain ⟨hafter, hsince⟩ := hnext.flush false (isHeld_eq_false_iff.1 hfree)
        (fun _ => Nat.le_of_lt (hr.small hopen)) (h.early hopen)
        (fun hnow => absurd hnow Bool.false_ne_true)
      exact ⟨hafter, rested_of_empty rfl hsince⟩
  | answer =>
    obtain ⟨r, hproceed, hsame⟩ := Option.map_eq_some_iff.1 ht
    cases hsame
    exact ⟨h.answer hproceed, hr.small, hr.empty⟩
  | stop =>
    cases ht
    exact ⟨{ h with drained := fun hdrained => ⟨rfl, (h.drained hdrained).2⟩ }, hr.small, hr.empty⟩
  | gatherLast =>
    dsimp only at ht
    split at ht
    · cases ht
    · next hguard =>
      obtain ⟨hstop, hfree⟩ := Bool.or_eq_false_iff.1 (Bool.eq_false_iff.2 hguard)
      obtain ⟨x, hmove, hsame⟩ := Option.map_eq_some_iff.1 ht
      cases hsame
      exact h.gatherLast (by simpa using hstop) (isHeld_eq_false_iff.1 hfree) hmove

theorem balanced_of_recorded (h : Recorded s a p d) : Balanced s a p d ∧ Rested s a p := by
  induction h with
  | @start d now hd hheld =>
    have hnone {P : Batch → Prop} : ∀ b ∈ Account.empty.batches, P b :=
      fun _ hb => absurd hb List.not_mem_nil
    refine ⟨?_, rested_of_empty rfl rfl⟩
    exact {
      settings := by rw [hd]; rfl
      single := fun _ hx => absurd hx List.not_mem_nil
      accepted := by rw [hd]; rfl
      buffer := rfl
      sound := hnone
      last := .nil
      early := fun _ => hnone
      drained := fun hdrained => absurd hdrained Bool.false_ne_true
      recordsDropped := by rw [hd]; rfl
      recordsFlushed := by rw [hd]; rfl
      flushFailures := by rw [hd]; rfl
      awaits := by
        rw [hheld]
        exact .nothing hnone }
  | turn t _ ht ih => exact balanced_take ih.1 ih.2 t ht
  | aside _ hside ih =>
    refine ⟨ih.1.aside hside, ?_, ?_⟩
    · rw [hside.drained, hside.buffer]
      exact ih.2.small
    · rw [hside.drained]
      exact ih.2.empty

end Recorded

end Steward.Runaway
