import Steward.Proofs.Runaway.Account

/-!
This module contains that no record is lost without being counted and none is written twice: what was
marked is dropped, or it is one of the repeats of one row of one batch.
-/

namespace Steward.Runaway

namespace Batch

/--
There is one row for every key that was received. It is the first record with its key, and it repeats
as often as records with its key were received. The rows are in the order in which they started.
-/
structure Fair (b : Batch) : Prop where
  keys : (b.rows.map (·.key)).Nodup
  covers : ∀ r ∈ b.received, ∃! row, row ∈ b.rows ∧ row.key = r.key
  first : ∀ row ∈ b.rows, ∃ first, b.received.find? (·.key = row.key) = some first ∧
    row = { first with repeats := b.received.countP (·.key = row.key) }
  sorted : b.rows.Pairwise fun r r' => r.start ≤ r'.start

/--
The rows are written with one statement, which has ten values for each of them and a place for each
value. The batch is written if the statement succeeds; if it fails, or is not sent, the batch is lost.
-/
structure Sent (b : Batch) : Prop where
  places : Storage.placeholdersIn (Storage.insertRecords b.rows).sql = 10 * b.rows.length
  params : (Storage.insertRecords b.rows).params.length = 10 * b.rows.length
  once (ok : Bool) : b.outcome = some ok → ∃ m log m',
    Sql.Dialogue.Goes (fun _ _ => True) (Errand.writeRecords b.rows) m log ok m' ∧
      ((log = [] ∧ ok = false) ∨
        ∃ r : Except Sql.Trouble Sql.Reply, log = [(Storage.insertRecords b.rows, r)] ∧ ok = r.isOk)

variable {b : Batch}

theorem sent_of_filled (h : b.rows ≠ [])
    (hran : ∀ ok, b.outcome = some ok → Errand.Ran b.rows ok) : b.Sent where
  places := (Storage.insertRecords_places b.rows).1
  params := (Storage.insertRecords_places b.rows).2
  once ok hok := by
    obtain ⟨m, log, m', hgoes⟩ := hran ok hok
    refine ⟨m, log, m', hgoes, ?_⟩
    rcases Errand.goes_writeRecords hgoes with ⟨hlog, hnone⟩ | hsent
    · exact .inl ⟨hlog, Bool.eq_false_iff.2 fun htrue => h (hnone.1 htrue)⟩
    · exact .inr hsent

theorem repeatsOf_eq_countP {k : RecordKey} {rs : List Record} (h : ∀ r ∈ rs, r.repeats = 1) :
    Buffer.repeatsOf k rs = rs.countP (·.key = k) := by
  unfold Buffer.repeatsOf
  rw [List.countP_eq_length_filter, List.map_congr_left (g := fun _ => 1)]
  · simp
  · exact fun r hr => h r (List.mem_of_mem_filter hr)

theorem fair_of_rowsOf (hrows : b.rows = Buffer.rowsOf b.received)
    (hsingle : ∀ r ∈ b.received, r.repeats = 1) : b.Fair where
  keys := hrows ▸ Buffer.nodup_rowsOf b.received
  covers r hr := by
    obtain ⟨row, hrow, hkey⟩ := Buffer.exists_row hr
    rw [hrows]
    refine ⟨row, ⟨hrow, hkey⟩, fun other hother => ?_⟩
    have hsame := Buffer.mem_rowsOf_iff.1 hother.1
    rw [hother.2, ← hkey, Buffer.mem_rowsOf_iff.1 hrow] at hsame
    exact (Option.some.inj hsame).symm
  first row hrow := by
    rw [hrows] at hrow
    obtain ⟨first, hfind, hrow⟩ := Option.map_eq_some_iff.1 (Buffer.mem_rowsOf_iff.1 hrow)
    exact ⟨first, hfind, by rw [← repeatsOf_eq_countP hsingle, hrow]⟩
  sorted := hrows ▸ Buffer.sorted_rowsOf b.received

end Batch

/--
The records of all marks are in the batches of an account, each once, but for those that were dropped
and counted.
-/
structure Conserved (s : Settings) (a : Account) (c : Metrics) : Prop where
  /-- Every record for which there was room was received for one batch. -/
  accepted : a.accepted = a.batches.flatMap (·.received)
  recordsDropped : c.recordsDropped = a.refused
  fair : ∀ b ∈ a.batches, b.Fair
  /-- A mark was dropped or is one of the repeats of a row. -/
  total : c.recordsDropped + ((a.batches.flatMap (·.rows)).map (·.repeats)).sum = a.marks.length
  sent : ∀ b ∈ a.batches, b.Sent
  limit : ∀ b ∈ a.batches, b.isLast = false → b.rows.length ≤ s.flushThreshold
  last : a.batches.Pairwise fun b _ => b.isLast = false
  known : ∀ b ∈ a.batches, b.outcome ≠ none
  recordsFlushed : c.recordsFlushed = a.written
  flushFailures : c.flushFailures = a.lost

section Conserved

variable {s : Settings} {a : Account} {p : Pipeline} {d : Post}

theorem Account.length_accepted (a : Account) : a.refused + a.accepted.length = a.marks.length := by
  unfold accepted refused
  rw [List.length_map, ← List.countP_eq_length_filter,
    List.length_eq_countP_add_countP (fun x : Record × Bool => x.2) (l := a.marks), Nat.add_comm]
  simp

theorem sum_repeats_flatMap {bs : List Batch} (hrows : ∀ b ∈ bs, b.rows = Buffer.rowsOf b.received)
    (hsingle : ∀ b ∈ bs, ∀ r ∈ b.received, r.repeats = 1) :
    ((bs.flatMap (·.rows)).map (·.repeats)).sum = (bs.flatMap (·.received)).length := by
  induction bs with
  | nil => rfl
  | cons b bs ih =>
    rw [List.forall_mem_cons] at hrows hsingle
    have hones : b.received.map (·.repeats) = b.received.map fun _ => 1 :=
      List.map_congr_left hsingle.1
    rw [List.flatMap_cons, List.flatMap_cons, List.map_append, List.sum_append, List.length_append,
      ih hrows.2 hsingle.2, hrows.1, Buffer.sum_repeats_rowsOf, hones]
    simp

theorem Balanced.conserved (h : Balanced s a p d) (hrested : Rested s a p)
    (hdrained : p.drained = true) (hfree : d.isHeld .flush = false) :
    Conserved s a d.manager.metrics := by
  have haccepted : a.accepted = a.batches.flatMap (·.received) := by
    rw [h.accepted, hrested.empty hdrained, (h.drained hdrained).2, List.append_nil, List.append_nil]
  -- Whatever was received was made of one mark.
  have hsingle : ∀ b ∈ a.batches, ∀ r ∈ b.received, r.repeats = 1 := by
    intro b hb r hr
    have hmem : r ∈ a.accepted := haccepted ▸ List.mem_flatMap.2 ⟨b, hb, hr⟩
    obtain ⟨x, hx, hsame⟩ := List.mem_map.1 hmem
    exact hsame ▸ h.single x (List.mem_of_mem_filter hx)
  have hawaits := h.awaits
  rw [isHeld_eq_false_iff.1 hfree] at hawaits
  exact {
    accepted := haccepted
    recordsDropped := h.recordsDropped
    fair := fun b hb => Batch.fair_of_rowsOf (h.sound b hb).rows (hsingle b hb)
    total := by
      rw [sum_repeats_flatMap (fun b hb => (h.sound b hb).rows) hsingle, ← haccepted,
        h.recordsDropped]
      exact a.length_accepted
    sent := fun b hb => Batch.sent_of_filled (h.sound b hb).filled (h.sound b hb).ran
    limit := fun b hb => (h.sound b hb).limit
    last := h.last
    known := hawaits.known
    recordsFlushed := h.recordsFlushed
    flushFailures := h.flushFailures }

/--
Records are conserved. In every run of a server from its start to the end of its loops, with marks,
receptions, ticks and answers in any order, with any channel and with any statements that fail, every
mark is counted as dropped once or is one of the repeats of one row of one batch. What a row counts
is how many records with its key the loop received since the batch before.
-/
theorem records_conserved (h : Recorded s a p d) (hdrained : p.drained = true)
    (hfree : d.isHeld .flush = false) : Conserved s a d.manager.metrics := by
  obtain ⟨hbalanced, hrested⟩ := balanced_of_recorded h
  exact hbalanced.conserved hrested hdrained hfree

def narrow : Settings := { Settings.standard with channelCapacity := 3 }

def digestRecord (digest : String) (start : Int) : Record :=
  ⟨"g", ⟨start⟩, .identify, .kill, "select 1", digest, "p", "local", "", 1⟩

def digestMark (digest : String) (start : Int) : Turn :=
  .mark ⟨"g", "select 1", digest, "p"⟩ .kill .identify ⟨start⟩ ""

def postOf (records : List Record) (recordsDropped : Nat) : Post :=
  let d : Post := .ofState (.ofSettings narrow) 0
  let m := d.manager.count fun c => { c with recordsDropped }
  d.setManager { m with records := { m.records with items := records } }

theorem records_conserved_of_narrow :
    ∃ (a : Account) (p : Pipeline) (d : Post),
      (Recorded narrow a p d ∧ p.drained = true ∧ d.isHeld .flush = false) ∧
      (a.marks.map (·.2) = [true, true, true, false] ∧
        a.batches.map (fun b => b.rows.map (·.repeats)) = [[1, 2]]) ∧
      Conserved narrow a d.manager.metrics := by
  let received := [digestRecord "a" 2, digestRecord "a" 3, digestRecord "b" 1]
  let rows := [digestRecord "b" 1, { digestRecord "a" 2 with repeats := 2 }]
  let marks := received.map (·, true) ++ [(digestRecord "c" 4, false)]
  have hstart : Recorded narrow .empty (.start narrow 0) (postOf [] 0) := .start 0 rfl rfl
  have hmarked : Recorded narrow ⟨marks, [], []⟩ (.start narrow 0) (postOf received 1) :=
    (((hstart.turn (digestMark "a" 2) rfl).turn (digestMark "a" 3) rfl).turn
      (digestMark "b" 1) rfl).turn (digestMark "c" 4) rfl
  let p := (Pipeline.start narrow 0).stop (postOf received 1)
  let d : Post := p.2.setManager { p.2.manager with records := p.2.manager.records.drained }
  let last (rows : List Record) : Account × Pipeline × Post :=
    let x := d.begin .flush (Errand.writeRecords rows)
    (if rows = [] then ⟨marks, [], received⟩ else ⟨marks, [⟨received, rows, true, x.1⟩], []⟩,
      { p.1 with drained := true }, x.2)
  -- The buffer is sorted by well-founded recursion, so that its rows are computed apart.
  have hbatch : (received.foldl Buffer.add .empty).batch = rows := by cbv
  have hlast : Account.take? ⟨marks, [], []⟩ p.1 p.2 .gatherLast = some (last rows) :=
    congrArg (fun rows => some (last rows)) hbatch
  have hrun := (hmarked.turn .stop rfl).turn .gatherLast hlast
  have hfree : (last rows).2.2.isHeld .flush = false := by decide +kernel
  exact ⟨_, _, _, ⟨hrun, rfl, hfree⟩, ⟨rfl, rfl⟩, records_conserved hrun rfl hfree⟩

end Conserved

end Steward.Runaway
