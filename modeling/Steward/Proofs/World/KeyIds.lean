import Steward.Proofs.Step.Descent
import Steward.Proofs.World.Chronicle
import Steward.Proofs.World.Replay

/-!
This module contains the ids of constraints in a chronicle: `key_ids_rise` says that the largest id
that a table gave only rises, also when the table moves, and that a job that adds a constraint gives one
id, which the table never gave before.
-/

namespace Steward

open Catalog (ForeignKey Stage Table)
open Change (Job)
open Ledger
open Step (Descends Surroundings)

namespace Catalog.Table

def keyIds (t : Table) : List Int := t.foreignKeys.map (·.id)

/--
The ids of the constraints differ, and none of them is larger than the largest one given.
-/
structure Numbered (t : Table) : Prop where
  nodup : t.keyIds.Nodup
  le : ∀ id ∈ t.keyIds, id ≤ t.maxForeignKeyId

variable {t t' : Table} {fk : ForeignKey}

theorem Inherits.numbered (h : t.Inherits t') (ht : t.Numbered) : t'.Numbered := by
  have hids : t'.keyIds.Sublist t.keyIds := h.map (·.id) fun _ => rfl
  refine ⟨ht.nodup.sublist hids, ?_⟩
  intro id hid
  rw [h.max]
  exact ht.le id (hids.mem hid)

theorem Gains.numbered (h : t.Gains fk t') (ht : t.Numbered) : t'.Numbered := by
  have hid := h.id
  have hmax := h.max
  have hids : t'.keyIds = t.keyIds ++ [fk.id] := by simp [keyIds, h.keys]
  constructor
  · rw [hids, List.nodup_append]
    refine ⟨ht.nodup, List.pairwise_singleton _ _, ?_⟩
    intro a ha b hb
    have hle := ht.le a ha
    rw [List.mem_singleton.1 hb]
    omega
  · rw [hids]
    intro id hmem
    cases List.mem_append.1 hmem with
    | inl hold =>
      have hle := ht.le id hold
      omega
    | inr hnew =>
      have heq := List.mem_singleton.1 hnew
      omega

end Catalog.Table

theorem Change.Job.Goes.stage_ne_initial {j j' : Job} (h : j.Goes j')
    (hj : j.stage ≠ j.kind.initial) (hf : j'.isFinished = false) (hk : j'.kind = j.kind) :
    j'.stage ≠ j'.kind.initial := by
  rw [hk]
  unfold Job.isFinished at hf
  cases h with
  | again hs h => rwa [h]
  | onward hb hs h hi =>
    intro heq
    rw [heq] at hi
    exact Change.Kind.initial_not_mem_intermediate _ hi
  | turned hb hs h => rwa [h]
  | done hb hs =>
    rw [hs] at hf
    cases hf
  | cancelled hb hs =>
    rw [hs] at hf
    cases hf
  | undone hb hs =>
    rw [hs] at hf
    cases hf

namespace Entry

/--
Where a table was before the step that is at a place after it. A table that was created was nowhere.
-/
def origin? (x : Entry) (a b : Int) : Option (Int × Int) :=
  if (x.before.table? a b).isSome then some (a, b)
  else
    match x.job.args with
    | .truncateTable newId _ =>
      if a = x.job.schemaId ∧ b = newId then some (x.job.schemaId, x.job.tableId) else none
    | _ => none

/--
All that the table at a place has been after the step, if `past` is what each table was before.
-/
def extend (x : Entry) (past : Int → Int → List Table) (a b : Int) : List Table :=
  match x.after.table? a b with
  | none => []
  | some t => t :: (x.origin? a b).elim [] fun p => past p.1 p.2

def created? (x : Entry) : Option Table :=
  match x.job.args, x.job.status with
  | .createTable table _, .done => some table
  | _, _ => none

/--
The constraint that the table of the job has after the step in addition to those before.
-/
def staged? (x : Entry) : Option ForeignKey := do
  let t ← x.before.table? x.job.schemaId x.job.tableId
  let t' ← x.after.table? x.job.schemaId x.job.tableId
  t'.foreignKeys[t.foreignKeys.length]?

/--
The step takes a job that adds a constraint from its first stage to the next.
-/
def Begins (x : Entry) : Prop :=
  ∃ j, x.before.jobs.get? x.job.id = some j ∧ j.kind = .addForeignKey ∧ j.stage = .absent ∧
    x.job.stage = .writeOnly

/--
Each table comes from somewhere that is there after the step, which began at the stage `source`.
-/
def Traces (x : Entry) (P : Surroundings → Prop) (source : Stage) : Prop :=
  ∀ a b t, x.after.table? a b = some t → Descends P source x.job x.before.table? a b t

structure Stages (x : Entry) (source : Stage) (fk : ForeignKey) (t t' : Table) : Prop where
  args : ∃ check, x.job.args = .addForeignKey fk check
  source : source = .absent
  stage : x.job.stage = .writeOnly
  before : x.before.table? x.job.schemaId x.job.tableId = some t
  after : x.after.table? x.job.schemaId x.job.tableId = some t'
  gains : t.Gains fk t'

variable {P : Surroundings → Prop} {x : Entry} {source : Stage} {fk : ForeignKey} {t t' : Table}
  {a b : Int} {past : Int → Int → List Table}

theorem head?_extend (x : Entry) (past : Int → Int → List Table) (a b : Int) :
    (x.extend past a b).head? = x.after.table? a b := by
  unfold extend
  split <;> simp [*]

theorem staged?_of_gains (ht : x.before.table? x.job.schemaId x.job.tableId = some t)
    (ht' : x.after.table? x.job.schemaId x.job.tableId = some t') (h : t.Gains fk t') :
    x.staged? = some fk := by
  unfold staged?
  rw [ht, ht']
  dsimp only [bind, Option.bind]
  rw [h.keys, List.getElem?_concat_length]

theorem Traces.stages (h : x.Traces P source) (hs : x.staged? = some fk) :
    ∃ t t', x.Stages source fk t t' := by
  obtain ⟨t, ht, hs⟩ := Option.bind_eq_some_iff.1 hs
  obtain ⟨t', ht', hs⟩ := Option.bind_eq_some_iff.1 hs
  cases h _ _ t' ht' with
  | kept u hu hkept =>
    cases ht.symm.trans hu
    have hlt := (List.getElem?_eq_some_iff.1 hs).1
    have hle := hkept.length_le
    omega
  | moved _ _ _ hfree => cases ht.symm.trans hfree
  | declared _ _ _ _ _ _ hfree => cases ht.symm.trans hfree
  | staged _ _ u key check ha hsource hstage _ _ hu hgains =>
    cases ht.symm.trans hu
    rw [hgains.keys, List.getElem?_concat_length] at hs
    cases hs
    exact ⟨t, t', ⟨check, ha⟩, hsource, hstage, ht, ht', hgains⟩

theorem Traces.inherits (h : x.Traces P source) (hs : x.staged? = none)
    (ht : x.before.table? a b = some t) (ht' : x.after.table? a b = some t') : t.Inherits t' := by
  cases h a b t' ht' with
  | kept u hu hkept =>
    cases ht.symm.trans hu
    exact hkept
  | moved _ _ _ hfree => cases ht.symm.trans hfree
  | declared _ _ _ _ _ _ hfree => cases ht.symm.trans hfree
  | staged _ _ u key _ _ _ _ hx hy hu hgains =>
    obtain ⟨rfl, rfl⟩ : a = x.job.schemaId ∧ b = x.job.tableId := ⟨hx, hy⟩
    cases hs.symm.trans (staged?_of_gains hu ht' hgains)

end Entry

/--
What a table has been, the latest first: its ids were in order all the time, and the largest one that it
gave never fell.
-/
structure Rising (ts : List Table) : Prop where
  numbered : ∀ t ∈ ts, t.Numbered
  max : ts.Pairwise fun t t' => t'.maxForeignKeyId ≤ t.maxForeignKeyId

theorem Rising.nil : Rising [] where
  numbered t ht := by cases ht
  max := .nil

theorem Rising.le {ts : List Table} {t u : Table} (h : Rising ts) (ht : ts.head? = some t)
    (hu : u ∈ ts) : u.maxForeignKeyId ≤ t.maxForeignKeyId := by
  obtain ⟨ts, rfl⟩ := List.head?_eq_some_iff.1 ht
  cases List.mem_cons.1 hu with
  | inl heq => exact heq ▸ Int.le_refl _
  | inr hmem => exact (List.pairwise_cons.1 h.max).1 u hmem

theorem Rising.cons {ts : List Table} {t t' : Table} (h : Rising ts) (ht : ts.head? = some t)
    (hn : t.Numbered → t'.Numbered) (hmax : t.maxForeignKeyId ≤ t'.maxForeignKeyId) :
    Rising (t' :: ts) where
  numbered u hu := by
    cases List.mem_cons.1 hu with
    | inl heq =>
      rw [heq]
      exact hn (h.numbered t (List.mem_of_head? ht))
    | inr hmem => exact h.numbered u hmem
  max := List.pairwise_cons.2 ⟨fun _ hu => Int.le_trans (h.le ht hu) hmax, h.max⟩

theorem Rising.lt {ts : List Table} {t t' u : Table} {fk : ForeignKey} (h : Rising ts)
    (ht : ts.head? = some t) (hg : t.Gains fk t') (hu : u ∈ ts) :
    u.maxForeignKeyId < fk.id ∧ ∀ id ∈ u.keyIds, id < fk.id := by
  have hid := hg.id
  have hle := h.le ht hu
  refine ⟨by omega, ?_⟩
  intro id hmem
  have hbound := (h.numbered u hu).le id hmem
  omega

namespace Chronicle

/--
All that the tables have been after these steps, each since it was created, the latest first.
-/
def versions (xs : List Entry) : Int → Int → List Table :=
  xs.foldl (fun past x => x.extend past) fun _ _ => []

/--
Every table that was created was declared with ids in order.
-/
def DeclaresNumbered (xs : List Entry) : Prop :=
  ∀ x ∈ xs, ∀ table, x.created? = some table → table.Numbered

variable {limit : Nat} {P : Surroundings → Prop} {c c' : Chronicle} {x : Entry} {xs : List Entry}
  {first : Job} {W : Snapshot}

theorem versions_concat (xs : List Entry) (x : Entry) (a b : Int) :
    versions (xs ++ [x]) a b = x.extend (versions xs) a b := by
  unfold versions
  rw [List.foldl_append]
  rfl

theorem Tells.traces (h : Tells limit x first W) :
    x.Traces (Seen World.unasked Directed x.base) first.stage := by
  intro a b t ht
  rw [h.stepped.table_eq] at ht
  rw [h.waits.calm.table_eq]
  exact h.stepped.outcome.descends ht

theorem rising_extend {past : Int → Int → List Table} {source : Stage} (h : x.Traces P source)
    (hhead : ∀ a b, (past a b).head? = x.before.table? a b) (hpast : ∀ a b, Rising (past a b))
    (hx : ∀ table, x.created? = some table → table.Numbered) (a b : Int) :
    Rising (x.extend past a b) := by
  unfold Entry.extend
  cases ht' : x.after.table? a b with
  | none => exact .nil
  | some t' =>
    have hstays {t : Table} (ht : x.before.table? a b = some t) : x.origin? a b = some (a, b) := by
      simp [Entry.origin?, ht]
    dsimp only
    cases h a b t' ht' with
    | kept t ht h =>
      rw [hstays ht]
      exact (hpast a b).cons ((hhead a b).trans ht) h.numbered (Int.le_of_eq h.max.symm)
    | staged _ _ t _ _ _ _ _ _ _ ht h =>
      rw [hstays ht]
      have hid := h.id
      have hmax := h.max
      exact (hpast a b).cons ((hhead a b).trans ht) h.numbered (by omega)
    | moved check ha hx hfree t ht h =>
      subst hx
      have horigin : x.origin? x.job.schemaId b = some (x.job.schemaId, x.job.tableId) := by
        simp [Entry.origin?, hfree, ha]
      rw [horigin]
      exact (hpast _ _).cons ((hhead _ _).trans ht) h.numbered (Int.le_of_eq h.max.symm)
    | declared _ _ table check ha hdone hfree stamp h =>
      have horigin : x.origin? a b = none := by simp [Entry.origin?, hfree, ha]
      have hcreated : x.created? = some table := by simp [Entry.created?, ha, hdone]
      have hnumbered : t'.Numbered :=
        h ▸ ((Step.inherits_createdTable x.job table).stamped stamp).numbered (hx table hcreated)
      have hnew : Rising [t'] :=
        ⟨List.forall_mem_singleton.2 hnumbered, List.pairwise_singleton _ _⟩
      rw [horigin]
      exact hnew

/--
The entries follow one another: a table is before a step what the steps before made of it.
-/
structure Linked (xs : List Entry) : Prop where
  traced : ∀ x ∈ xs, ∃ P source, x.Traces P source
  head : ∀ ys x, ys ++ [x] <+: xs → ∀ a b, (versions ys a b).head? = x.before.table? a b

theorem linked_nil : Linked [] where
  traced x hx := by cases hx
  head ys x h := by
    have hlen := h.length_le
    simp at hlen

theorem Linked.concat (h : Linked xs) {source : Stage} (hx : x.Traces P source)
    (hhead : ∀ a b, (versions xs a b).head? = x.before.table? a b) : Linked (xs ++ [x]) where
  traced y hy := by
    cases List.mem_append.1 hy with
    | inl hold => exact h.traced y hold
    | inr hnew => exact List.mem_singleton.1 hnew ▸ ⟨P, source, hx⟩
  head ys y hys := by
    cases List.prefix_concat_iff.1 hys with
    | inl heq =>
      obtain ⟨rfl, hy⟩ := List.append_inj' heq rfl
      cases hy
      exact hhead
    | inr hold => exact h.head ys y hold

theorem Linked.of_prefix {ys : List Entry} (h : Linked xs) (hys : ys <+: xs) : Linked ys where
  traced x hx := h.traced x (hys.subset hx)
  head zs x hzs := h.head zs x (hzs.trans hys)

theorem Linked.rising (h : Linked xs) (hxs : DeclaresNumbered xs) (a b : Int) :
    Rising (versions xs a b) := by
  induction xs using List.reverseRecOn generalizing a b with
  | nil => exact .nil
  | append_singleton xs x ih =>
    obtain ⟨P, source, hx⟩ := h.traced x List.mem_concat_self
    rw [versions_concat]
    apply rising_extend hx (h.head xs x List.prefix_rfl)
    · exact ih (h.of_prefix (List.prefix_append _ _)) fun y hy => hxs y (List.mem_append_left _ hy)
    · exact hxs x List.mem_concat_self

/--
What the chronicle keeps of the jobs that added constraints: none of them does so twice, since it is
past its first stage as long as it is in the queue.
-/
structure Records (c : Chronicle) : Prop where
  linked : Linked c.entries
  head : ∀ a b, (versions c.entries a b).head? = c.line.snapshot.table? a b
  old : ∀ x ∈ c.entries, x.job.id ≤ c.line.snapshot.lastId
  busy : ∀ x ∈ c.entries, x.staged? ≠ none →
    ∀ j, c.line.snapshot.jobs.get? x.job.id = some j → j.stage ≠ j.kind.initial
  once : c.entries.Pairwise fun x y => x.job.id = y.job.id → x.staged? = none ∨ y.staged? = none
  begins : ∀ x ∈ c.entries, x.staged? ≠ none ↔ x.Begins

theorem records_empty : Records empty where
  linked := linked_nil
  head a b := rfl
  old x hx := by cases hx
  busy x hx := by cases hx
  once := .nil
  begins x hx := by cases hx

theorem Tells.staged?_ne_none_iff (h : Tells limit x first W) : x.staged? ≠ none ↔
    first.kind = .addForeignKey ∧ first.stage = .absent ∧ x.job.stage = .writeOnly := by
  have hstepped := h.stepped
  have hfollows := hstepped.follows
  have hbase : Directed x.base := hstepped.base.holds
  obtain ⟨-, hkind, -⟩ := hstepped.base.tidy.first_filed hstepped.begun
  constructor
  · intro hs
    obtain ⟨fk, hfk⟩ := Option.ne_none_iff_exists'.1 hs
    obtain ⟨t, t', hstages⟩ := h.traces.stages hfk
    obtain ⟨check, hargs⟩ := hstages.args
    refine ⟨?_, hstages.source, hstages.stage⟩
    rw [hkind, ← hfollows.argsKind, hargs]
    rfl
  · rintro ⟨hadds, hsource, hstage⟩
    obtain ⟨fk, check, hargs⟩ : ∃ fk check, first.args = .addForeignKey fk check := by
      rw [hkind] at hadds
      cases hargs : first.args <;> rw [hargs] at hadds <;> cases hadds
      exact ⟨_, _, rfl⟩
    obtain ⟨t, t', ht, ht', hgains⟩ :=
      hstepped.outcome.gains hadds hargs (hbase.concerted.first _ hstepped.begun) hsource hstage
    rw [← hfollows.schemaId, ← hfollows.tableId] at ht ht'
    rw [← h.waits.calm.table_eq] at ht
    rw [← hstepped.table_eq] at ht'
    rw [Entry.staged?_of_gains ht ht' hgains]
    exact Option.some_ne_none _

theorem Tells.stage_of_staged (h : Tells limit x first W) (hs : x.staged? ≠ none) :
    first.stage = first.kind.initial ∧ x.job.stage ≠ x.job.kind.initial := by
  obtain ⟨hkind, hsource, hstage⟩ := h.staged?_ne_none_iff.1 hs
  rw [h.stepped.follows.kind, hkind, hsource, hstage]
  exact ⟨rfl, nofun⟩

theorem Records.calm (h : c.Records) (he : c'.entries = c.entries)
    (htable : ∀ a b, c'.line.snapshot.table? a b = c.line.snapshot.table? a b)
    (hid : c.line.snapshot.lastId ≤ c'.line.snapshot.lastId)
    (hjobs : ∀ id, id ≤ c.line.snapshot.lastId →
      c'.line.snapshot.jobs.get? id = c.line.snapshot.jobs.get? id) : c'.Records := by
  have hold := h.old
  constructor
  · rw [he]
    exact h.linked
  · intro a b
    rw [he, htable, h.head]
  · rw [he]
    exact fun x hx => Int.le_trans (h.old x hx) hid
  · rw [he]
    intro x hx
    rw [hjobs _ (h.old x hx)]
    exact h.busy x hx
  · rw [he]
    exact h.once
  · rw [he]
    exact h.begins

theorem Records.stepped (h : c.Records) (hs : c.line.snapshot.Tidy)
    (he : c'.entries = c.entries ++ [x]) (hb : x.before = c.line.snapshot)
    (ha : x.after = c'.line.snapshot) (hx : Tells limit x first W) : c'.Records := by
  have hstepped := hx.stepped
  rw [hb, ha] at hstepped
  obtain ⟨hgoes, hf⟩ := hstepped.goes
  obtain ⟨hget, -⟩ := (Snapshot.firstJob?_eq_some_iff hs).1 (hstepped.first_now hs)
  have hid := hstepped.follows.id
  have hhead (a b : Int) : (versions c.entries a b).head? = x.before.table? a b := by
    rw [hb, h.head]
  have hqueued {j : Job} (hj : c'.line.snapshot.jobs.get? first.id = some j) :
      j = x.job ∧ j.isFinished = false := by
    rw [hstepped.get?_jobs, if_pos rfl] at hj
    split at hj
    · cases hj
    · next hn =>
      cases hj
      exact ⟨rfl, Bool.eq_false_iff.2 hn⟩
  -- A job that added a constraint before does not begin this step at its first stage.
  have hbusy {y : Entry} (hy : y ∈ c.entries) (hn : y.staged? ≠ none) (hyid : y.job.id = first.id) :
      first.stage ≠ first.kind.initial := h.busy y hy hn first (hyid ▸ hget)
  constructor
  · rw [he]
    exact h.linked.concat hx.traces hhead
  · intro a b
    rw [he, versions_concat, Entry.head?_extend, ha]
  · rw [he, hstepped.lastId]
    intro y hy
    cases List.mem_append.1 hy with
    | inl hold => exact h.old y hold
    | inr hnew =>
      rw [List.mem_singleton.1 hnew, hid]
      apply hs.le_lastId
      simp [hget]
  · rw [he]
    intro y hy hn j hj
    cases List.mem_append.1 hy with
    | inl hold =>
      by_cases hyid : y.job.id = first.id
      · rw [hyid] at hj
        obtain ⟨rfl, hnot⟩ := hqueued hj
        exact hgoes.stage_ne_initial (hbusy hold hn hyid) hnot hstepped.follows.kind
      · rw [hstepped.get?_jobs, if_neg hyid] at hj
        exact h.busy y hold hn j hj
    | inr hnew =>
      cases List.mem_singleton.1 hnew
      rw [hid] at hj
      rw [(hqueued hj).1]
      exact (hx.stage_of_staged hn).2
  · rw [he, List.pairwise_append]
    refine ⟨h.once, List.pairwise_singleton _ _, ?_⟩
    intro y hy z hz hyz
    rw [List.mem_singleton.1 hz] at hyz ⊢
    by_contra hn
    obtain ⟨hny, hnx⟩ := not_or.1 hn
    exact hbusy hy hny (hyz.trans hid) (hx.stage_of_staged hnx).1
  · rw [he]
    intro y hy
    cases List.mem_append.1 hy with
    | inl hold => exact h.begins y hold
    | inr hnew =>
      cases List.mem_singleton.1 hnew
      rw [hx.staged?_ne_none_iff]
      unfold Entry.Begins
      rw [hb, hid, hget]
      simp

theorem Records.staged?_eq_none (h : c.Records) {ys : List Entry} (hsplit : c.entries = xs ++ x :: ys)
    (hx : x.staged? ≠ none) {y : Entry} (hy : y ∈ xs ++ ys) (hid : y.job.id = x.job.id) :
    y.staged? = none := by
  have hpairs := h.once
  rw [hsplit, List.pairwise_append, List.pairwise_cons] at hpairs
  obtain ⟨-, ⟨hafter, -⟩, hbefore⟩ := hpairs
  cases List.mem_append.1 hy with
  | inl hy => exact (hbefore y hy x List.mem_cons_self hid).resolve_right hx
  | inr hy => exact (hafter y hy hid.symm).resolve_left hx

theorem records_run (limit : Nat) (es : List Line.Event) : (empty.run limit es).Records := by
  apply run_induction records_empty
  intro c c' hc hc' hnotes h
  cases hnotes with
  | quiet he hsame => exact h.calm he (by simp [hsame]) (by simp [hsame]) (by simp [hsame])
  | handed he job happ =>
    apply h.calm he happ.calm.table happ.calm.before.lastId
    intro id hle
    have hrecord := congrArg Prod.fst (happ.record id)
    have hfresh := happ.fresh
    rw [if_neg (by omega)] at hrecord
    exact hrecord
  | founded he σ hfound =>
    apply h.calm he hfound.table hfound.calm.before.lastId
    exact fun id _ => congrArg Prod.fst (hfound.record id)
  | stepped x first W he hb ha htells => exact h.stepped hc.line.world.fine.tidy he hb ha htells

/--
The ids of the constraints of a table differ, and none of them is larger than the largest one that the
table gave, if that is so wherever a table is declared. The largest id only rises as long as the table
is there, also when the table moves because it is truncated. Whenever a job that adds a constraint goes
on from its first stage, its table has the constraint, under the next id, which no constraint of the
table ever had, and no other step of the job gives an id.
-/
theorem key_ids_rise (limit : Nat) (es : List Line.Event) :
    let c := empty.run limit es
    DeclaresNumbered c.entries →
    c.line = Line.empty.run limit es ∧
    (∀ a b, (versions c.entries a b).head? = c.line.snapshot.table? a b ∧
      Rising (versions c.entries a b)) ∧
    (∀ x ∈ c.entries, x.staged? ≠ none ↔ x.Begins) ∧
    ∀ xs x ys fk, c.entries = xs ++ x :: ys → x.staged? = some fk →
      (∃ check, x.job.args = .addForeignKey fk check) ∧
      (∃ t t', (versions xs x.job.schemaId x.job.tableId).head? = some t ∧
        x.before.table? x.job.schemaId x.job.tableId = some t ∧
        x.after.table? x.job.schemaId x.job.tableId = some t' ∧ t.Gains fk t') ∧
      (∀ t ∈ versions xs x.job.schemaId x.job.tableId,
        t.maxForeignKeyId < fk.id ∧ ∀ id ∈ t.keyIds, id < fk.id) ∧
      ∀ y ∈ xs ++ ys, y.job.id = x.job.id → ∀ a b t t', y.before.table? a b = some t →
        y.after.table? a b = some t' → t.Inherits t' := by
  intro c hdeclares
  have hrecords : c.Records := records_run limit es
  refine ⟨line_run limit empty es, fun a b => ⟨hrecords.head a b, ?_⟩, hrecords.begins, ?_⟩
  · exact hrecords.linked.rising hdeclares a b
  intro xs x ys fk hsplit hfk
  have hconcat : xs ++ [x] <+: c.entries := ⟨ys, by rw [hsplit]; simp⟩
  have hxs : xs <+: c.entries := (List.prefix_append xs [x]).trans hconcat
  obtain ⟨P, source, htraces⟩ := hrecords.linked.traced x (hconcat.subset List.mem_concat_self)
  obtain ⟨t, t', hstages⟩ := htraces.stages hfk
  have hhead := (hrecords.linked.head xs x hconcat _ _).trans hstages.before
  have hrising := (hrecords.linked.of_prefix hxs).rising fun y hy => hdeclares y (hxs.subset hy)
  refine ⟨hstages.args, ⟨t, t', hhead, hstages.before, hstages.after, hstages.gains⟩, ?_, ?_⟩
  · exact fun u hu => (hrising _ _).lt hhead hstages.gains hu
  · intro y hy hid a b u u' hu hu'
    have hnone := hrecords.staged?_eq_none hsplit (hfk ▸ Option.some_ne_none fk) hy hid
    have hmem : y ∈ c.entries := hsplit ▸ List.perm_middle.mem_iff.2 (List.mem_cons_of_mem x hy)
    obtain ⟨P, source, hy⟩ := hrecords.linked.traced y hmem
    exact hy.inherits hnone hu hu'

def ownerAddedAgain : List Line.Event :=
  Line.ownerHandedIn ++ Line.stepOnce 7 ++ Line.stepOnce 8 ++ Line.stepOnce 9 ++
    [.draw 0 1 3 "shop" "orders" (.dropForeignKey "owner"), .hand 0] ++ Line.stepOnce 10 ++
    [.draw 1 1 3 "shop" "orders" (.truncateTable 6 true), .hand 0] ++ Line.stepOnce 11 ++
    [.draw 0 1 6 "shop" "orders" (.addForeignKey Line.ownerKey false), .hand 0] ++ Line.stepOnce 12

theorem key_ids_rise_ownerAddedAgain :
    let c := empty.run 8 ownerAddedAgain
    DeclaresNumbered c.entries ∧ ∃ xs x fk, c.entries = xs ++ [x] ∧ x.staged? = some fk ∧ fk.id = 2 ∧
      (versions xs x.job.schemaId x.job.tableId).map (·.keyIds) = [[], [], [1], [1], [1], []] ∧
      ∀ t ∈ versions xs x.job.schemaId x.job.tableId, t.maxForeignKeyId < 2 := by
  intro c
  have hdeclares : DeclaresNumbered c.entries := by
    have hall : c.entries.all (fun x => x.created?.all (·.keyIds = [])) = true := by decide +kernel
    intro x hx table hcreated
    have hkeys := List.all_eq_true.1 hall x hx
    rw [hcreated] at hkeys
    have hids : table.keyIds = [] := of_decide_eq_true hkeys
    exact ⟨hids ▸ .nil, hids ▸ nofun⟩
  have hlast : (c.entries[7]?).map (fun x => (x.staged?.map (·.id),
      (versions (c.entries.take 7) x.job.schemaId x.job.tableId).map (·.keyIds))) =
      some (some 2, [[], [], [1], [1], [1], []]) := by decide +kernel
  have hlength : c.entries.length = 8 := by decide +kernel
  obtain ⟨x, hx, hlast⟩ := Option.map_eq_some_iff.1 hlast
  obtain ⟨hid, hpast⟩ := Prod.mk.inj hlast
  obtain ⟨fk, hfk, hid⟩ := Option.map_eq_some_iff.1 hid
  have hsplit : c.entries = c.entries.take 7 ++ [x] := by
    obtain ⟨h, hx⟩ := List.getElem?_eq_some_iff.1 hx
    rw [← hx, List.take_append_getElem h, List.take_of_length_le (by omega)]
  refine ⟨hdeclares, _, x, fk, hsplit, hfk, hid, hpast, ?_⟩
  obtain ⟨-, -, -, hstaged⟩ := key_ids_rise 8 ownerAddedAgain hdeclares
  obtain ⟨-, -, hfresh, -⟩ := hstaged _ x [] fk hsplit hfk
  intro t ht
  exact hid ▸ (hfresh t ht).1

end Chronicle

end Steward
