import Steward.Proofs.Step.Renewal
import Steward.Proofs.World.Line

/-!
This module contains what steps see of the schemas. A step works on the transaction that it began, and
looks up all other tables in a view that was loaded at some time before. `never_stale` says that the two
always agree as long as nothing but steps changes the catalog, and that no view is ever replaced by an
older one.
-/

namespace Steward

open Catalog (ForeignKey Table)
open Change (Job)
open Ledger
open Step (Registry Result Work)

namespace View

theorem ofSnapshot_congr {s s' : Snapshot} (h : s.catalog = s'.catalog) :
    ofSnapshot s = ofSnapshot s' := by
  unfold ofSnapshot
  rw [h]

theorem reload_of_le {v : View} {s : Snapshot} (h : v.schemaVersion ≤ s.catalog.schemaVersion) :
    v.reload s = ofSnapshot s := if_pos h

theorem schemaVersion_le_reload (v : View) (s : Snapshot) :
    v.schemaVersion ≤ (v.reload s).schemaVersion := by
  unfold reload
  split
  · next h => exact h
  · exact Int.le_refl _

end View

namespace World

def Event.isFound : Event → Bool
  | found _ => true
  | _ => false

end World

/--
What a handler is shown: the view, and the snapshot on which its transaction began.
-/
structure Glance where
  view : View
  base : Snapshot

structure Sight where
  world : World
  /-- The snapshot on which the last step began. -/
  base : Snapshot
  /-- What the handlers were shown so far, the oldest first. -/
  glances : List Glance
  /-- The snapshots that were read to load the view again. -/
  readings : List Snapshot

namespace Sight

inductive Event where
  /-- Whatever happens in the world, but no schema is created without a job. -/
  | world (e : World.Event) (h : e.isFound = false)
  /-- Begins a transaction that takes some ids and puts a job of any sort into the queue. -/
  | submit (ids : Nat) (job : Job)
  /-- Somebody reads the ledger, to load the view again. -/
  | read
  /-- The view is loaded again with what was read at some time. -/
  | load (n : Nat)

def ofStore (s : Store) : Sight := ⟨.ofStore s, s.snapshot, [], []⟩

/--
What a handler is shown when the event happens: where a step begins, and where it goes on with an
answer.
-/
def glance? (s : Sight) : World.Event → Option Glance
  | .begin .. =>
    match s.world.phase, s.world.store.snapshot.firstJob? with
    | .idle, some _ => some ⟨s.world.view, s.world.store.snapshot⟩
    | _, _ => none
  | .answer .. =>
    match s.world.phase with
    | .working _ (.ask _ _) => some ⟨s.world.view, s.base⟩
    | _ => none
  | _ => none

def step (handlers : Registry) (limit : Nat) (s : Sight) : Event → Sight
  | .world e _ =>
    { s with
      world := s.world.step handlers limit e
      base := ((s.glance? e).map (·.base)).getD s.base
      glances := s.glances ++ (s.glance? e).toList }
  | .submit ids job =>
    let t := ((s.world.store.begin.takeIds ids).enqueue job).2
    { s with world := { s.world with drafts := s.world.drafts ++ [t] } }
  | .read => { s with readings := s.readings ++ [s.world.store.snapshot] }
  | .load n =>
    match s.readings[n]? with
    | some p => { s with world := { s.world with view := s.world.view.reload p } }
    | none => s

def run (handlers : Registry) (limit : Nat) (s : Sight) (es : List Event) : Sight :=
  es.foldl (step handlers limit) s

/--
A transaction that leaves the catalog alone and began at a snapshot that the ledger went through.
-/
structure Enrols (now : Snapshot) (t : Txn) : Prop where
  before : t.base.Before now
  catalog : t.working.catalog = t.base.catalog
  lastId : t.base.lastId ≤ t.working.lastId

structure Worked (handlers : Registry) (base : Snapshot) (t : Txn) : Prop where
  continues : (Txn.begin base).Continues t
  marked : handlers.Marks → t.working.catalog = base.catalog ∨
    base.catalog.schemaVersion < t.schemaVersion

/--
What was true of the catalog when it had this schema version, is still true of it in that version.
-/
structure Dates (handlers : Registry) (p now : Snapshot) : Prop where
  schemaVersion : p.catalog.schemaVersion ≤ now.catalog.schemaVersion
  catalog : handlers.Marks → p.catalog = now.catalog ∨
    p.catalog.schemaVersion < now.catalog.schemaVersion

/--
Where a step stands that began at `base`: as long as it is not committed, the catalog stays the same.
-/
def PhaseSound (handlers : Registry) (base now : Snapshot) : World.Phase → Prop
  | .working _ work =>
    base.Before now ∧ base.catalog = now.catalog ∧
      ∀ r v, work.Ends (fun _ => True) r → r.1 = .ok v → Worked handlers base r.2.txn
  | .closing _ d => d.txn.base.Before now ∧ Worked handlers d.txn.base d.txn
  | _ => True

structure Sound (handlers : Registry) (s : Sight) : Prop where
  view : s.world.view.schemaVersion ≤ s.world.store.snapshot.catalog.schemaVersion
  plans : ∀ f ∈ s.world.plans, ∀ t, (f t).2 = t ∨ (f t).2 = t.newId.2
  drafts : ∀ t ∈ s.world.drafts, Enrols s.world.store.snapshot t
  readings : ∀ p ∈ s.readings, Dates handlers p s.world.store.snapshot
  phase : PhaseSound handlers s.base s.world.store.snapshot s.world.phase

/--
The view shows the catalog as it is, except between the commit of a step and the look after it.
-/
def Shown (w : World) : Prop := w.phase ≠ .looking → w.view = .ofSnapshot w.store.snapshot

/--
Whatever the handlers were shown was the catalog on which they worked, and the next one will be shown
that, too.
-/
structure Fresh (s : Sight) : Prop where
  shown : Shown s.world
  glances : ∀ g ∈ s.glances, g.view = .ofSnapshot g.base

variable {handlers : Registry} {limit : Nat} {s : Sight} {p now now' base : Snapshot} {t : Txn}
  {store store' : Store} {f : Txn → Job × Txn}

theorem sound_ofStore (store : Store) : (ofStore store).Sound handlers where
  view := Int.le_refl _
  plans f hf := by cases hf
  drafts t ht := by cases ht
  readings p hp := by cases hp
  phase := trivial

theorem fresh_ofStore (store : Store) : (ofStore store).Fresh where
  shown _ := rfl
  glances g hg := by cases hg

section Commit

theorem Dates.refl (p : Snapshot) : Dates handlers p p := ⟨Int.le_refl _, fun _ => .inl rfl⟩

theorem Dates.trans (h : Dates handlers p now) (h' : Dates handlers now now') :
    Dates handlers p now' where
  schemaVersion := Int.le_trans h.schemaVersion h'.schemaVersion
  catalog hm := by
    cases h.catalog hm with
    | inl hsame => exact hsame ▸ h'.catalog hm
    | inr hlt => exact .inr (Int.lt_of_lt_of_le hlt h'.schemaVersion)

theorem dates_of_catalog (h : p.catalog = now.catalog) : Dates handlers p now :=
  ⟨Int.le_of_eq (congrArg _ h), fun _ => .inl h⟩

theorem commit_cases (hb : t.base.Before store.snapshot) (hc : (Txn.begin t.base).Continues t)
    (h : store.commit t = .ok store') :
    store.snapshot.Before store'.snapshot ∧
      (store'.snapshot.catalog = store.snapshot.catalog ∨
        store.snapshot.catalog = t.base.catalog ∧
          store'.snapshot.catalog = t.working.catalog) := by
  -- The catalog that is put in place of the one that is there was made of just that one.
  obtain ⟨hr, hcat, hl, hcat', hl'⟩ :=
    Store.counters_of_merged hb hc.lastId (Store.commit_eq_ok h)
  have hcases := threeWay_cases hcat
  rw [← hcat'] at hcases
  refine ⟨⟨.inr (hr ▸ Nat.lt_succ_self _), ?_, ?_⟩, hcases.imp And.right id⟩
  · cases hcases with
    | inl hkept => exact Int.le_of_eq (by rw [hkept.2])
    | inr hours =>
      rw [hours.1, hours.2]
      exact hc.schemaVersion
  · have hlast := threeWay_cases hl
    rw [← hl'] at hlast
    cases hlast with
    | inl hkept => exact Int.le_of_eq hkept.2.symm
    | inr hours =>
      rw [hours.1, hours.2]
      exact hc.lastId

theorem Enrols.mono (h : Enrols now t) (hn : now.Before now') : Enrols now' t :=
  ⟨h.before.trans hn, h.catalog, h.lastId⟩

theorem Enrols.commit (h : Enrols store.snapshot t) (hc : store.commit t = .ok store') :
    store.snapshot.Before store'.snapshot ∧
      store'.snapshot.catalog = store.snapshot.catalog := by
  have hcontinues : (Txn.begin t.base).Continues t :=
    ⟨rfl, Int.le_of_eq (congrArg Description.schemaVersion h.catalog.symm), h.lastId⟩
  obtain ⟨hb, hcat⟩ := commit_cases h.before hcontinues hc
  refine ⟨hb, ?_⟩
  rcases hcat with hsame | ⟨hbase, hours⟩
  · exact hsame
  · rw [hours, h.catalog, hbase]

theorem enrols_enqueue (h : t.base = now) (hc : t.working.catalog = now.catalog)
    (hl : now.lastId ≤ t.working.lastId) (job : Job) : Enrols now (t.enqueue job).2 :=
  ⟨h ▸ .refl _, hc.trans (congrArg _ h.symm),
    h ▸ Int.le_trans hl (Int.le_of_lt (Int.lt_succ _))⟩

theorem enrols_enlist (now : Snapshot) (hf : ∀ t, (f t).2 = t ∨ (f t).2 = t.newId.2) :
    Enrols now (Engine.enlist f (.begin now)).2 := by
  have hft := hf (.begin now)
  unfold Engine.enlist
  generalize f (.begin now) = made at hft
  obtain ⟨job, taken⟩ := made
  apply enrols_enqueue
  · cases hft with
    | inl h => exact congrArg Txn.base h
    | inr h => exact congrArg Txn.base h
  · cases hft with
    | inl h => exact congrArg (·.working.catalog) h
    | inr h => exact congrArg (·.working.catalog) h
  · cases hft with
    | inl h => exact Int.le_of_eq (congrArg (·.working.lastId) h.symm)
    | inr h =>
      have hl : taken.working.lastId = now.lastId + 1 := congrArg (·.working.lastId) h
      omega

theorem Worked.commit (h : Worked handlers t.base t) (hb : t.base.Before store.snapshot)
    (hc : store.commit t = .ok store') :
    store.snapshot.Before store'.snapshot ∧ Dates handlers store.snapshot store'.snapshot := by
  obtain ⟨hbefore, hcat⟩ := commit_cases hb h.continues hc
  refine ⟨hbefore, hbefore.schemaVersion, fun hm => ?_⟩
  rcases hcat with hsame | ⟨hbase, hours⟩
  · exact .inl hsame.symm
  · rw [hours, hbase]
    exact (h.marked hm).imp Eq.symm id

end Commit

section Drift

theorem PhaseSound.mono {phase : World.Phase} (h : PhaseSound handlers base now phase)
    (hb : now.Before now') (hc : now'.catalog = now.catalog) :
    PhaseSound handlers base now' phase := by
  cases phase with
  | idle => trivial
  | working source work => exact ⟨h.1.trans hb, h.2.1.trans hc.symm, h.2.2⟩
  | closing what d => exact ⟨h.1.trans hb, h.2⟩
  | looking => trivial

theorem Sound.drift (h : s.Sound handlers) (hb : s.world.store.snapshot.Before store.snapshot)
    (hd : Dates handlers s.world.store.snapshot store.snapshot) {drafts : List Txn}
    (hdrafts : ∀ t ∈ drafts, t ∈ s.world.drafts) {phase : World.Phase}
    (hphase : PhaseSound handlers s.base store.snapshot phase) :
    Sound handlers { s with world := { s.world with store, drafts, phase } } where
  view := Int.le_trans h.view hd.schemaVersion
  plans := h.plans
  drafts t ht := (h.drafts t (hdrafts t ht)).mono hb
  readings p hp := (h.readings p hp).trans hd
  phase := hphase

theorem Sound.phased (h : s.Sound handlers) {phase : World.Phase}
    (hphase : PhaseSound handlers s.base s.world.store.snapshot phase) :
    Sound handlers { s with world := { s.world with phase } } :=
  h.drift (.refl _) (.refl _) (fun _ ht => ht) hphase

theorem Sound.drawn (h : s.Sound handlers) (ht : Enrols s.world.store.snapshot t) :
    Sound handlers { s with world := { s.world with drafts := s.world.drafts ++ [t] } } where
  view := h.view
  plans := h.plans
  drafts x hx := by
    cases List.mem_append.1 hx with
    | inl hx => exact h.drafts x hx
    | inr hx => exact List.mem_singleton.1 hx ▸ ht
  readings := h.readings
  phase := h.phase

end Drift

section Events

theorem Sound.commitDraft (h : s.Sound handlers) (n : Nat) (ht : t ∈ s.world.drafts) :
    Sound handlers { s with world := s.world.commitDraft n t } ∧
      (s.world.commitDraft n t).store.snapshot.catalog = s.world.store.snapshot.catalog := by
  have hdrafts : ∀ x ∈ s.world.drafts.eraseIdx n, x ∈ s.world.drafts :=
    fun x hx => List.mem_of_mem_eraseIdx hx
  unfold World.commitDraft
  dsimp only
  split
  · next store hc =>
    obtain ⟨hb, hcat⟩ := (h.drafts t ht).commit hc
    exact ⟨h.drift hb (dates_of_catalog hcat.symm) hdrafts (h.phase.mono hb hcat), hcat⟩
  · exact ⟨h.drift (.refl _) (.refl _) hdrafts h.phase, rfl⟩

theorem Sound.closeStep (h : s.Sound handlers) {what : String} {d : Step.Draft}
    (hphase : s.world.phase = .closing what d) :
    Sound handlers { s with world := s.world.closeStep what d } ∧
      ((s.world.closeStep what d).phase = .looking ∨
        (s.world.closeStep what d).store = s.world.store) := by
  have hclosing := h.phase
  rw [hphase] at hclosing
  unfold World.closeStep
  split
  · next store job hc =>
    obtain ⟨-, t, hp, hc⟩ := commit_eq_committed hc
    have ht := Txn.persistJob_eq_ok hp
    have hbase : t.base = d.txn.base := ht ▸ rfl
    have hworking : t.working.catalog = d.txn.working.catalog :=
      ht ▸ Snapshot.catalog_keep _ _
    have hlast : t.working.lastId = d.txn.working.lastId := ht ▸ Snapshot.lastId_keep _ _
    have hworked : Worked handlers t.base t := by
      rw [hbase]
      refine ⟨⟨hbase, ?_, ?_⟩, ?_⟩
      · unfold Txn.schemaVersion
        rw [hworking]
        exact hclosing.2.continues.schemaVersion
      · rw [hlast]
        exact hclosing.2.continues.lastId
      · unfold Txn.schemaVersion
        rw [hworking]
        exact hclosing.2.marked
    obtain ⟨hb, hd⟩ := hworked.commit (hbase ▸ hclosing.1) hc
    exact ⟨h.drift hb hd (fun _ ht => ht) trivial, .inl rfl⟩
  · exact ⟨h.phased trivial, .inr rfl⟩

theorem Sound.viewed (h : s.Sound handlers) {view : View} {phase : World.Phase}
    (hv : view.schemaVersion ≤ s.world.store.snapshot.catalog.schemaVersion)
    (hphase : PhaseSound handlers s.base s.world.store.snapshot phase) :
    Sound handlers { s with world := { s.world with view, phase } } :=
  ⟨hv, h.plans, h.drafts, h.readings, hphase⟩

theorem guardOrder_eq_ok {source : Catalog.Stage} {r : Result} {v : Int} {d : Step.Draft}
    (h : Step.guardOrder source r = (.ok v, d)) : r = (.ok v, d) := by
  unfold Step.guardOrder at h
  split at h
  · split at h
    · exact h
    · cases h
  · exact h

theorem worked_of_honest (hh : handlers.Honest) {p : Snapshot} {k : Change.Kind} {job : Job}
    {x : Step.Surroundings} {r : Result} {v : Int}
    (h : (handlers k x ⟨.begin p, job⟩).Ends (fun _ => True) r) (hv : r.1 = .ok v) :
    Worked handlers p r.2.txn :=
  ⟨hh _ _ _ _ _ h hv, fun hm => hm _ _ _ _ _ h hv⟩

theorem Sound.settle (h : s.Sound handlers) (owned : Bool) {source : Catalog.Stage} {r : Result}
    (hphase : s.world.phase = .working source (.done r)) {what : String} {d : Step.Draft}
    (hsettle : Step.settle limit s.world.store owned source r = some (what, d)) :
    PhaseSound handlers s.base s.world.store.snapshot (.closing what d) := by
  have hworking := h.phase
  rw [hphase] at hworking
  obtain ⟨hb, hc, hworked⟩ := hworking
  obtain ⟨result, left⟩ := r
  have hfailed (job : Job) : PhaseSound handlers s.base s.world.store.snapshot
      (.closing what ⟨s.world.store.begin, job⟩) := ⟨.refl _, .refl _, fun _ => .inl rfl⟩
  unfold Step.settle at hsettle
  split at hsettle
  · next v left' hguard =>
    split at hsettle
    · cases hsettle
      cases guardOrder_eq_ok hguard
      have hleft := hworked _ v (.done _) rfl
      have hbase : left.txn.base = s.base := hleft.continues.base
      refine ⟨hbase ▸ hb, ?_⟩
      exact hbase ▸ hleft
    · cases hsettle
  · split at hsettle
    · cases hsettle
    · cases hsettle
      exact hfailed _

theorem base_answer (s : Sight) (a : Step.Answer) (checks : Bool) (stamp : Nat) :
    ((s.glance? (.answer a checks stamp)).map (·.base)).getD s.base = s.base := by
  unfold glance?
  dsimp only
  split <;> rfl

/--
The sight after an event of the world, but for what was shown.
-/
def after (handlers : Registry) (limit : Nat) (s : Sight) (e : World.Event) : Sight :=
  { s with
    world := s.world.step handlers limit e
    base := ((s.glance? e).map (·.base)).getD s.base }

theorem sound_plan (h : s.Sound handlers) (st : Engine.Statement) (checks : Bool) :
    (s.after handlers limit (.plan st checks)).Sound handlers := by
  dsimp only [after, World.step, glance?, Option.map_none, Option.getD_none]
  split
  · next f hf =>
    refine ⟨h.view, ?_, h.drafts, h.readings, h.phase⟩
    intro g hg
    cases List.mem_append.1 hg with
    | inl hg => exact h.plans g hg
    | inr hg =>
      obtain ⟨σ, -, hmade⟩ := Engine.planOf_plan hf
      rw [List.mem_singleton.1 hg]
      exact fun t => (hmade t).2
  · exact h

theorem sound_draw (h : s.Sound handlers) (n : Nat) :
    (s.after handlers limit (.draw n)).Sound handlers := by
  dsimp only [after, World.step, glance?, Option.map_none, Option.getD_none]
  split
  · next f hf => exact h.drawn (enrols_enlist _ (h.plans f (List.mem_of_getElem? hf)))
  · exact h

theorem sound_commit (h : s.Sound handlers) (n : Nat) :
    (s.after handlers limit (.commit n)).Sound handlers := by
  dsimp only [after, World.step, glance?, Option.map_none, Option.getD_none]
  split
  · next t ht => exact (h.commitDraft n (List.mem_of_getElem? ht)).1
  · exact h

theorem sound_begin (hh : handlers.Honest) (h : s.Sound handlers) (checks : Bool) (stamp : Nat) :
    (s.after handlers limit (.begin checks stamp)).Sound handlers := by
  dsimp only [after, World.step, glance?]
  unfold Step.begin
  cases hphase : s.world.phase with
  | idle =>
    cases hfirst : s.world.store.snapshot.firstJob? with
    | none => exact h
    | some job =>
      refine ⟨h.view, h.plans, h.drafts, h.readings, .refl _, rfl, ?_⟩
      exact fun r v hr hv => worked_of_honest hh hr hv
  | _ => exact h

theorem sound_answer (h : s.Sound handlers) (a : Step.Answer) (checks : Bool) (stamp : Nat) :
    (s.after handlers limit (.answer a checks stamp)).Sound handlers := by
  unfold after
  rw [base_answer]
  dsimp only [World.step]
  split
  · next source st k hphase =>
    have hworking := h.phase
    rw [hphase] at hworking
    refine ⟨h.view, h.plans, h.drafts, h.readings, hworking.1, hworking.2.1, ?_⟩
    exact fun r v hr hv => hworking.2.2 r v (.ask st k _ trivial a r hr) hv
  · exact h

theorem sound_settle (h : s.Sound handlers) (owned : Bool) :
    (s.after handlers limit (.settle owned)).Sound handlers := by
  dsimp only [after, World.step, glance?, Option.map_none, Option.getD_none]
  split
  · next source r hphase =>
    split
    · next what d hsettle => exact h.phased (h.settle owned hphase hsettle)
    · exact h.phased trivial
  · exact h

theorem sound_close (h : s.Sound handlers) : (s.after handlers limit .close).Sound handlers := by
  dsimp only [after, World.step, glance?, Option.map_none, Option.getD_none]
  split
  · next what d hphase => exact (h.closeStep hphase).1
  · exact h

theorem sound_look (h : s.Sound handlers) : (s.after handlers limit .look).Sound handlers := by
  dsimp only [after, World.step, glance?, Option.map_none, Option.getD_none]
  split
  · have hidle : PhaseSound handlers s.base s.world.store.snapshot .idle := trivial
    refine h.viewed ?_ hidle
    rw [View.reload_of_le h.view]
    exact Int.le_refl _
  · exact h

theorem sound_submit (h : s.Sound handlers) (ids : Nat) (job : Job) :
    (s.step handlers limit (.submit ids job)).Sound handlers := by
  have htaken := Txn.takeIds_eq s.world.store.begin ids
  refine h.drawn (enrols_enqueue ?_ ?_ ?_ job)
  · rw [htaken]
    rfl
  · rw [htaken]
    rfl
  · rw [htaken]
    exact Int.le_add_of_nonneg_right (Int.natCast_nonneg ids)

theorem sound_read (h : s.Sound handlers) : (s.step handlers limit .read).Sound handlers := by
  refine ⟨h.view, h.plans, h.drafts, ?_, h.phase⟩
  intro p hp
  cases List.mem_append.1 hp with
  | inl hp => exact h.readings p hp
  | inr hp => exact List.mem_singleton.1 hp ▸ .refl _

theorem sound_load (h : s.Sound handlers) (n : Nat) :
    (s.step handlers limit (.load n)).Sound handlers := by
  unfold step
  dsimp only
  split
  · next p hp =>
    refine ⟨?_, h.plans, h.drafts, h.readings, h.phase⟩
    unfold View.reload
    split
    · exact (h.readings p (List.mem_of_getElem? hp)).schemaVersion
    · exact h.view
  · exact h

theorem sound_step (hh : handlers.Honest) (h : s.Sound handlers) (e : Event) :
    (s.step handlers limit e).Sound handlers := by
  cases e with
  | submit ids job => exact sound_submit h ids job
  | read => exact sound_read h
  | load n => exact sound_load h n
  | world e he =>
    have hsound : (s.after handlers limit e).Sound handlers := by
      cases e with
      | found name => cases he
      | plan st checks => exact sound_plan h st checks
      | draw n => exact sound_draw h n
      | commit n => exact sound_commit h n
      | begin checks stamp => exact sound_begin hh h checks stamp
      | answer a checks stamp => exact sound_answer h a checks stamp
      | settle owned => exact sound_settle h owned
      | close => exact sound_close h
      | look => exact sound_look h
      | reopen => exact h.viewed (Int.le_refl _) trivial
    exact ⟨hsound.view, hsound.plans, hsound.drafts, hsound.readings, hsound.phase⟩

theorem Fresh.glance (h : s.Sound handlers) (hs : s.Fresh) {e : World.Event} {g : Glance}
    (hg : s.glance? e = some g) : g.view = .ofSnapshot g.base := by
  unfold glance? at hg
  split at hg
  · split at hg
    · next hphase _ =>
      cases hg
      exact hs.shown (by rw [hphase]; exact nofun)
    · cases hg
  · split at hg
    · next hphase =>
      cases hg
      have hworking := h.phase
      rw [hphase] at hworking
      refine (hs.shown (by rw [hphase]; exact nofun)).trans ?_
      exact View.ofSnapshot_congr hworking.2.1.symm
    · cases hg
  · cases hg

theorem Shown.settled {w : World} (h : Shown w) (hphase : w.phase ≠ .looking)
    (phase : World.Phase) : Shown { w with phase } := fun _ => h hphase

theorem Shown.commitDraft {w : World} {n : Nat} (h : Shown w)
    (hc : (w.commitDraft n t).store.snapshot.catalog = w.store.snapshot.catalog) :
    Shown (w.commitDraft n t) := by
  have hframe : (w.commitDraft n t).view = w.view ∧ (w.commitDraft n t).phase = w.phase := by
    unfold World.commitDraft
    dsimp only
    split <;> exact ⟨rfl, rfl⟩
  intro hphase
  rw [hframe.1, View.ofSnapshot_congr hc]
  exact h (hframe.2 ▸ hphase)

theorem Shown.step (h : s.Sound handlers) (hs : Shown s.world) (e : World.Event) :
    Shown (s.world.step handlers limit e) := by
  unfold World.step
  split
  · split <;> exact hs
  · split <;> exact hs
  · split <;> exact hs
  · split
    · next ht => exact hs.commitDraft (h.commitDraft _ (List.mem_of_getElem? ht)).2
    · exact hs
  · split
    · next hphase _ => exact hs.settled (by rw [hphase]; exact nofun) _
    · exact hs
  · split
    · next hphase => exact hs.settled (by rw [hphase]; exact nofun) _
    · exact hs
  · split
    · next hphase =>
      have hne : s.world.phase ≠ .looking := by
        rw [hphase]
        exact nofun
      split <;> exact hs.settled hne _
    · exact hs
  · split
    · next hphase =>
      unfold World.closeStep
      split
      · exact fun hne => absurd rfl hne
      · exact hs.settled (by rw [hphase]; exact nofun) _
    · exact hs
  · split
    · exact fun _ => View.reload_of_le h.view
    · exact hs
  · exact fun _ => rfl

theorem fresh_step (h : s.Sound handlers) (hs : s.Fresh) (e : Event)
    (he : handlers.Marks ∨ ∀ n, e ≠ .load n) : (s.step handlers limit e).Fresh := by
  cases e with
  | submit ids job => exact ⟨hs.shown, hs.glances⟩
  | read => exact ⟨hs.shown, hs.glances⟩
  | load n =>
    have hm := he.resolve_right fun hne => hne n rfl
    unfold step
    dsimp only
    split
    · next p hp =>
      refine ⟨?_, hs.glances⟩
      intro hphase
      have hshown := hs.shown hphase
      dsimp only
      unfold View.reload
      split
      · next hle =>
        -- What is loaded is no older than the ledger, so it shows the same catalog.
        have hread := (h.readings p (List.mem_of_getElem? hp)).catalog hm
        rw [hshown] at hle
        exact View.ofSnapshot_congr (hread.resolve_right (Int.not_lt.2 hle))
      · exact hshown
    · exact hs
  | world e he =>
    refine ⟨hs.shown.step h e, ?_⟩
    intro g hg
    cases List.mem_append.1 hg with
    | inl hg => exact hs.glances g hg
    | inr hg => exact hs.glance h (Option.mem_toList.1 hg)

theorem schemaVersion_le_step (h : s.Sound handlers) (e : Event) :
    s.world.view.schemaVersion ≤ (s.step handlers limit e).world.view.schemaVersion := by
  cases e with
  | submit ids job => exact Int.le_refl _
  | read => exact Int.le_refl _
  | load n =>
    unfold step
    dsimp only
    split
    · exact View.schemaVersion_le_reload _ _
    · exact Int.le_refl _
  | world e he =>
    dsimp only [step]
    have hcommit (n : Nat) (t : Txn) : (s.world.commitDraft n t).view = s.world.view := by
      unfold World.commitDraft
      dsimp only
      split <;> rfl
    have hclose (what : String) (d : Step.Draft) :
        (s.world.closeStep what d).view = s.world.view := by
      unfold World.closeStep
      split <;> rfl
    unfold World.step
    split
    case h_4 =>
      split
      · exact Int.le_of_eq (by rw [hcommit])
      · exact Int.le_refl _
    case h_8 =>
      split
      · exact Int.le_of_eq (by rw [hclose])
      · exact Int.le_refl _
    case h_9 =>
      split
      · exact View.schemaVersion_le_reload _ _
      · exact Int.le_refl _
    case h_10 => exact h.view
    case h_7 =>
      split
      · split <;> exact Int.le_refl _
      · exact Int.le_refl _
    all_goals
      split <;> exact Int.le_refl _

end Events

section Runs

theorem sound_run (hh : handlers.Honest) (h : s.Sound handlers) (es : List Event) :
    (s.run handlers limit es).Sound handlers := by
  induction es generalizing s with
  | nil => exact h
  | cons e es ih => exact ih (sound_step hh h e)

theorem fresh_run (hh : handlers.Honest) (h : s.Sound handlers) (hs : s.Fresh) (es : List Event)
    (hes : handlers.Marks ∨ ∀ n, .load n ∉ es) : (s.run handlers limit es).Fresh := by
  induction es generalizing s with
  | nil => exact hs
  | cons e es ih =>
    apply ih (sound_step hh h e) (fresh_step h hs e _)
    · exact hes.imp id fun hn n hmem => hn n (List.mem_cons_of_mem e hmem)
    · exact hes.imp id fun hn n he => hn n (he ▸ List.mem_cons_self)

theorem schemaVersion_le_run (hh : handlers.Honest) (h : s.Sound handlers) (es : List Event) :
    s.world.view.schemaVersion ≤ (s.run handlers limit es).world.view.schemaVersion := by
  induction es generalizing s with
  | nil => exact Int.le_refl _
  | cons e es ih => exact Int.le_trans (schemaVersion_le_step h e) (ih (sound_step hh h e))

/--
As long as nothing but steps changes the catalog, a handler that looks up other tables is shown the
very catalog on which its transaction began, whatever is submitted meanwhile and however steps fail, meet
conflicts or are given up. The view may be loaded again at any time with what was read before, if the
handlers make a new schema version whenever they change the catalog. In any case, no view is replaced by
one of an older version.
-/
theorem never_stale (handlers : Registry) (hh : handlers.Honest) (limit : Nat) (store : Store)
    (es : List Event) :
    ((handlers.Marks ∨ ∀ n, .load n ∉ es) →
      ∀ g ∈ ((ofStore store).run handlers limit es).glances, g.view = .ofSnapshot g.base) ∧
    ∀ es', es' <+: es → ((ofStore store).run handlers limit es').world.view.schemaVersion ≤
      ((ofStore store).run handlers limit es).world.view.schemaVersion := by
  constructor
  · intro hes
    exact (fresh_run hh (sound_ofStore store) (fresh_ofStore store) es hes).glances
  · rintro es' ⟨later, rfl⟩
    unfold run
    rw [List.foldl_append]
    exact schemaVersion_le_run hh (sound_run hh (sound_ofStore store) es') later

def shop : Store := ((World.ofStore .inMemory).run .standard 8 [.found "shop", .commit 0]).store

/--
A run on that ledger. Two tables are created and a constraint is added between them. While
its rows are checked, a statement submits that the other table be dropped, and the first node stops
leading; the next one begins that step again. Twice, the view is loaded with what was read long before.
-/
def checkedOwner : List Event :=
  let users := ((Table.ofName "users").withColumn (.ofName "id" .bigint)).withHandle "id"
  let orders := ((Table.ofName "orders").withColumn (.ofName "user" .bigint)).withIndex
    (.ofNames "by_user" ["user"])
  let key : ForeignKey := .ofNames "owner" ["user"] "shop" "users" ["id"]
  let submit (n : Nat) (st : Engine.Statement) : List Event :=
    [.world (.plan st true) rfl, .world (.draw n) rfl, .world (.commit 0) rfl]
  let begin (stamp : Nat) : List Event := [.world (.begin true stamp) rfl]
  let answer (stamp : Nat) : List Event :=
    [.world (.answer (.replied (.ok ⟨[], 0, none⟩)) true stamp) rfl]
  let settle (owned : Bool) : List Event :=
    [.world (.settle owned) rfl, .world .close rfl, .world .look rfl]
  submit 0 (.createTable "shop" users true) ++ [.read] ++ begin 5 ++ settle true ++ [.load 0] ++
    submit 1 (.createTable "shop" orders true) ++ begin 6 ++ settle true ++
    submit 2 (.addForeignKey "shop" "orders" key true) ++ begin 7 ++ settle true ++
    begin 8 ++ submit 3 (.dropTable "shop" "users" true) ++ [.load 0] ++ answer 9 ++ settle false ++
    begin 10 ++ answer 11 ++ settle true ++ begin 12 ++ settle true ++ begin 13

theorem never_stale_checkedOwner :
    Registry.standard.Honest ∧ Registry.standard.Marks ∧
      ((ofStore shop).run .standard 8 checkedOwner).glances.map (fun g => g.view.schemaVersion) =
        [1, 2, 3, 4, 4, 4, 4, 5, 6] ∧
      (∀ g ∈ ((ofStore shop).run .standard 8 checkedOwner).glances, g.view = .ofSnapshot g.base) ∧
      ((ofStore shop).run .standard 8 (checkedOwner.take 8)).world.view.schemaVersion ≤
        ((ofStore shop).run .standard 8 checkedOwner).world.view.schemaVersion := by
  obtain ⟨hglances, hversions⟩ := never_stale .standard Registry.standard_honest 8 shop checkedOwner
  refine ⟨Registry.standard_honest, Registry.standard_marks, ?_,
    hglances (.inl Registry.standard_marks), hversions _ (List.take_prefix 8 checkedOwner)⟩
  decide +kernel

end Runs

end Sight

end Steward
