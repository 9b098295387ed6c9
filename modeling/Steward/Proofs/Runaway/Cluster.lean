import Mathlib.Data.Fintype.Basic
import Mathlib.Logic.Function.Basic
import Steward.Proofs.Runaway.Site

/-!
This module contains clusters: servers that share the watch tables. When all of them have come to
rest, every server has the rows of the watch table, and a query that was marked is still quarantined
by all of them, if only no row for it was given up in favour of one that was given up itself.
-/

namespace Steward.Runaway

structure Cluster (ι : Type) where
  sites : ι → Site
  tables : Tables

namespace Cluster

variable {ι : Type}

def ofSettings (settings : ι → Settings) : Cluster ι := ⟨fun i => .ofSettings (settings i), .empty⟩

/--
The row is on its way to the done table, or there.
-/
def Leaving (c : Cluster ι) (w : Watch) : Prop :=
  (∃ i, w ∈ (c.sites i).outgoing) ∨ w ∈ c.tables.doneRows

instance [Fintype ι] (c : Cluster ι) (w : Watch) : Decidable (c.Leaving w) :=
  inferInstanceAs (Decidable (_ ∨ _))

/--
Nothing expires, has to make room or is dropped while a server does this.
-/
def Calm (c : Cluster ι) (i : ι) (a : Act) : Prop := (c.sites i).Calm a

instance (c : Cluster ι) (i : ι) (a : Act) : Decidable (c.Calm i a) :=
  inferInstanceAs (Decidable ((c.sites i).Calm a))

/--
When a server has two rows for a key, it does not keep one that is leaving.
-/
def Fair (key : String) (c : Cluster ι) (i : ι) : Act → Prop
  | .takeOver _ => ∀ w v, (c.sites i).Contest w v → w.key = key → ¬ c.Leaving (Site.winner w v)
  | _ => True

instance [Fintype ι] (key : String) (c : Cluster ι) (i : ι) (a : Act) : Decidable (Fair key c i a) :=
  match a with
  | .takeOver _ => decidable_of_iff
    (∀ w ∈ (c.sites i).arrived.head?, ∀ v ∈ (c.sites i).held? w.key,
      v.isDurable → v.id ≠ w.id → w.key = key → ¬ c.Leaving (Site.winner w v))
    ⟨fun h w v hwv => h w hwv.arrived v hwv.held hwv.isDurable hwv.ne,
      fun h w hw v hv hd hne => h w v ⟨hw, hv, hd, hne⟩⟩
  | .mark _ _ | .receiveFound | .insert _ | .receiveStale | .move _ | .readNew | .readDone
  | .drop _ => .isTrue trivial

structure Settled (c : Cluster ι) : Prop where
  pending : ∀ i, (c.sites i).pending = []
  outgoing : ∀ i, (c.sites i).outgoing = []
  arrived : ∀ i, (c.sites i).arrived = []
  departed : ∀ i, (c.sites i).departed = []
  lastWatch : ∀ i, ∀ w ∈ c.tables.watches, w.id ≤ (c.sites i).lastWatch
  lastDone : ∀ i, ∀ r ∈ c.tables.done, r.2 ≤ (c.sites i).monitor.syncer.lastDone

instance [Fintype ι] (c : Cluster ι) : Decidable c.Settled :=
  decidable_of_iff ((∀ i, (c.sites i).pending = []) ∧ (∀ i, (c.sites i).outgoing = []) ∧
    (∀ i, (c.sites i).arrived = []) ∧ (∀ i, (c.sites i).departed = []) ∧
    (∀ i, ∀ w ∈ c.tables.watches, w.id ≤ (c.sites i).lastWatch) ∧
    ∀ i, ∀ r ∈ c.tables.done, r.2 ≤ (c.sites i).monitor.syncer.lastDone)
    ⟨fun ⟨hp, ho, ha, hd, hw, hl⟩ => ⟨hp, ho, ha, hd, hw, hl⟩,
      fun ⟨hp, ho, ha, hd, hw, hl⟩ => ⟨hp, ho, ha, hd, hw, hl⟩⟩

/--
There is a row for a marked query, and all servers have it.
-/
def Kept (c : Cluster ι) (mark : Mark) : Prop :=
  ∃ w ∈ c.tables.watches, w.group = mark.group ∧ w.text = mark.text ∧
    ∀ i, ∃ v, (c.sites i).held? (Watch.keyOf mark.group mark.text) = some v ∧ v.id = w.id

def marks (es : List (ι × Act)) : List Mark :=
  es.filterMap fun e =>
    match e.2 with
    | .mark _ mark => some mark
    | _ => none

/--
No other query that is marked has the key of this one.
-/
def Apart (es : List (ι × Act)) (mark : Mark) : Prop :=
  ∀ mark' ∈ marks es, Watch.keyOf mark'.group mark'.text = Watch.keyOf mark.group mark.text →
    mark'.group = mark.group ∧ mark'.text = mark.text

instance (es : List (ι × Act)) (mark : Mark) : Decidable (Apart es mark) :=
  inferInstanceAs (Decidable (∀ mark' ∈ marks es, _ → _))

/--
A watch for a key is about to be inserted, or there is a row for it that is not leaving.
-/
def Survives (c : Cluster ι) (key : String) : Prop :=
  (∃ i, ∃ w ∈ (c.sites i).pending, w.key = key) ∨
    ∃ w ∈ c.tables.rows, w.key = key ∧ ¬ c.Leaving w

/--
The group and the text of every watch that is a row, or is to be one, are of a kind.
-/
structure Stems (P : String → String → Prop) (c : Cluster ι) : Prop where
  pending : ∀ i, ∀ w ∈ (c.sites i).pending, P w.group w.text
  rows : ∀ w ∈ c.tables.rows, P w.group w.text

variable [DecidableEq ι]

def step (c : Cluster ι) (i : ι) (a : Act) : Cluster ι where
  sites := Function.update c.sites i ((c.sites i).act c.tables a).1
  tables := ((c.sites i).act c.tables a).2

def run (c : Cluster ι) (es : List (ι × Act)) : Cluster ι :=
  es.foldl (fun c e => c.step e.1 e.2) c

def Throughout (P : Cluster ι → ι → Act → Prop) (c : Cluster ι) : List (ι × Act) → Prop
  | [] => True
  | e :: es => P c e.1 e.2 ∧ (c.step e.1 e.2).Throughout P es

instance decidableThroughout (P : Cluster ι → ι → Act → Prop) [∀ c i a, Decidable (P c i a)] :
    (c : Cluster ι) → (es : List (ι × Act)) → Decidable (c.Throughout P es)
  | _, [] => .isTrue trivial
  | c, e :: es =>
    have := decidableThroughout P (c.step e.1 e.2) es
    inferInstanceAs (Decidable (_ ∧ _))

def perform (c : Cluster ι) (i : ι) (x : Duty) : Cluster ι where
  sites := Function.update c.sites i ((c.sites i).perform c.tables x).1
  tables := ((c.sites i).perform c.tables x).2

/--
Servers play the errands of the pipeline whole, one after the other.
-/
def performAll (c : Cluster ι) (xs : List (ι × Duty)) : Cluster ι :=
  xs.foldl (fun c x => c.perform x.1 x.2) c

def actsOf (c : Cluster ι) : List (ι × Duty) → List (ι × Act)
  | [] => []
  | x :: xs => ((c.sites x.1).actsOf c.tables x.2).map (x.1, ·) ++ (c.perform x.1 x.2).actsOf xs

/--
All rows have ids of their own, and all servers know them.
-/
structure Sound (c : Cluster ι) : Prop where
  tables : c.tables.Sound
  sites : ∀ i, (c.sites i).Sound c.tables

variable {c : Cluster ι} {i : ι} {a : Act} {key : String} {w : Watch}

section Sound

omit [DecidableEq ι] in
theorem sound_ofSettings (settings : ι → Settings) : (ofSettings settings).Sound :=
  ⟨Tables.sound_empty, fun i => Site.sound_ofSettings (settings i)⟩

theorem sites_step_self (c : Cluster ι) (i : ι) (a : Act) :
    (c.step i a).sites i = ((c.sites i).act c.tables a).1 := Function.update_self ..

theorem sites_step_of_ne {j : ι} (h : j ≠ i) : (c.step i a).sites j = c.sites j :=
  Function.update_of_ne h ..

theorem tables_act_cases (s : Site) (t : Tables) (a : Act) :
    (s.act t a).2 = t ∨ (∃ w ∈ s.inserting, (s.act t a).2 = t.insert w) ∨
      ∃ w ∈ s.moving, (s.act t a).2 = t.move w.id := by
  cases a with
  | insert n =>
    unfold Site.act
    dsimp only
    split
    · exact .inl rfl
    · next w hw => exact .inr (.inl ⟨w, List.mem_of_getElem? hw, rfl⟩)
  | move n =>
    unfold Site.act
    dsimp only
    split
    · exact .inl rfl
    · next w hw => exact .inr (.inr ⟨w, List.mem_of_getElem? hw, rfl⟩)
  | receiveFound | receiveStale | takeOver | drop =>
    left
    unfold Site.act
    dsimp only
    split <;> rfl
  | _ => exact .inl rfl

theorem tables_step_cases (c : Cluster ι) (i : ι) (a : Act) :
    (c.step i a).tables = c.tables ∨
      (∃ w ∈ (c.sites i).inserting, (c.step i a).tables = c.tables.insert w) ∨
      ∃ w ∈ (c.sites i).moving, (c.step i a).tables = c.tables.move w.id :=
  tables_act_cases (c.sites i) c.tables a

theorem Sound.grows (h : c.Sound) (i : ι) (a : Act) : c.tables.Grows (c.step i a).tables := by
  rcases tables_step_cases c i a with hsame | ⟨w, _, hinsert⟩ | ⟨w, _, hmove⟩
  · rw [hsame]
    exact .refl _
  · rw [hinsert]
    exact Tables.grows_insert _ w
  · rw [hmove]
    exact h.tables.grows_move w.id

theorem mem_rows_step (h : c.Sound) (hw : w ∈ (c.step i a).tables.rows) :
    w ∈ c.tables.rows ∨
      ∃ v ∈ (c.sites i).pending, w = { v with id := c.tables.lastWatch + 1 } := by
  rcases tables_step_cases c i a with hsame | ⟨v, hv, hinsert⟩ | ⟨v, _, hmove⟩
  · rw [hsame] at hw
    exact .inl hw
  · rw [hinsert] at hw
    cases List.mem_cons.1 ((Tables.rows_insert c.tables v).mem_iff.1 hw) with
    | inl hw => exact .inr ⟨v, List.mem_append_right _ hv, hw⟩
    | inr hw => exact .inl hw
  · rw [hmove] at hw
    exact .inl ((h.tables.rows_move v.id).mem_iff.1 hw)

theorem Sound.step (h : c.Sound) (hc : c.Calm i a) : (c.step i a).Sound where
  tables := by
    rcases tables_step_cases c i a with hsame | ⟨w, _, hinsert⟩ | ⟨w, _, hmove⟩
    · rw [hsame]
      exact h.tables
    · rw [hinsert]
      exact h.tables.insert w
    · rw [hmove]
      exact h.tables.move w.id
  sites j := by
    by_cases hj : j = i
    · subst hj
      rw [sites_step_self]
      exact Site.sound_act (h.sites j) h.tables hc
    · rw [sites_step_of_ne hj]
      exact (h.sites j).mono (h.grows i a)

omit [DecidableEq ι] in
theorem Sound.trail (h : c.Sound) (i : ι) (hc : c.Calm i a) :
    (c.sites i).Trail a ((c.sites i).act c.tables a).1 :=
  Site.trail_act (h.sites i) h.tables hc

omit [DecidableEq ι] in
theorem Sound.mem_rows (h : c.Sound) (hw : c.Leaving w) : w ∈ c.tables.rows := by
  cases hw with
  | inl hw =>
    obtain ⟨i, hw⟩ := hw
    exact (h.sites i).outgoing w hw
  | inr hw => exact List.mem_append_right _ hw

end Sound

section Survives

theorem leaving_step (h : c.Sound) (hc : c.Calm i a) (hw : (c.step i a).Leaving w) :
    c.Leaving w ∨ (c.sites i).GivesUp w a := by
  cases hw with
  | inl hw =>
    obtain ⟨j, hw⟩ := hw
    by_cases hj : j = i
    · subst hj
      rw [sites_step_self] at hw
      exact ((h.trail j hc).outgoing w hw).imp_left fun hw => .inl ⟨j, hw⟩
    · rw [sites_step_of_ne hj] at hw
      exact .inl (.inl ⟨j, hw⟩)
  | inr hw =>
    left
    rcases tables_step_cases c i a with hsame | ⟨v, _, hinsert⟩ | ⟨v, hv, hmove⟩
    · rw [hsame] at hw
      exact .inr hw
    · rw [hinsert] at hw
      exact .inr hw
    · rw [hmove] at hw
      rcases Tables.move_cases c.tables v.id with ⟨_, hnone⟩ | ⟨u, hu, hid, _, hdone⟩
      · rw [hnone] at hw
        exact .inr hw
      · rw [hdone] at hw
        cases List.mem_append.1 hw with
        | inl hw => exact .inr hw
        | inr hw =>
          -- The row that is moved was on its way already.
          have hrow := (h.sites i).outgoing v (List.mem_append_right _ hv)
          have hsame := h.tables.eq_of_id (List.mem_append_left _ hu) hrow hid
          rw [List.mem_singleton.1 hw, hsame]
          exact .inl ⟨i, List.mem_append_right _ hv⟩

theorem mem_rows_of_leaving (h : c.Sound) (hc : c.Calm i a) (hw : (c.step i a).Leaving w) :
    w ∈ c.tables.rows := by
  cases leaving_step h hc hw with
  | inl hw => exact h.mem_rows hw
  | inr hw => exact (h.sites i).mem_of_givesUp hw

theorem survives_mark {now : Now} {mark : Mark} (hc : c.Calm i (.mark now mark)) :
    (c.step i (.mark now mark)).Survives (Watch.keyOf mark.group mark.text) := by
  obtain ⟨hcalm, hspares, hfound⟩ := hc
  have hm := Manager.shifts_mark hcalm hspares hfound
  refine .inl ⟨i, (c.sites i).manager.watchOf mark, ?_, rfl⟩
  rw [sites_step_self]
  refine List.mem_append_left _ ?_
  show _ ∈ ((c.sites i).manager.markQuarantine now mark).quarantined.items
  rw [hm.quarantined]
  exact List.mem_append_right _ (List.mem_singleton_self _)

theorem survives_insert (h : c.Sound) (hc : c.Calm i a) {n : Nat} (ha : a = .insert n)
    (hw : (c.sites i).inserting[n]? = some w) : (c.step i a).Survives w.key := by
  subst ha
  have hnew : { w with id := c.tables.lastWatch + 1 } ∈ (c.step i (.insert n)).tables.rows := by
    unfold step Site.act
    dsimp only
    rw [hw]
    exact (Tables.rows_insert c.tables w).mem_iff.2 List.mem_cons_self
  refine .inr ⟨_, hnew, rfl, ?_⟩
  intro hleaving
  -- Only rows can leave that were there before, and those have other ids.
  have hle := (h.tables.bounds _ (mem_rows_of_leaving h hc hleaving)).2
  dsimp only at hle
  omega

theorem survives_of_givesUp (h : c.Sound) (hc : c.Calm i a) (hf : Fair w.key c i a)
    (hw : (c.sites i).GivesUp w a) : (c.step i a).Survives w.key := by
  cases a with
  | mark now mark =>
    have hheld := Site.mem_rowAt.1 hw
    have hkey := ((h.sites i).held _ w hheld.1 hheld.2).2
    rw [hkey]
    exact survives_mark hc
  | takeOver now =>
    obtain ⟨w', v, hcontest, rfl⟩ := hw
    obtain ⟨⟨hrow, hwinner⟩, _, hloser⟩ := hcontest.rows (h.sites i)
    rw [hloser] at hf ⊢
    refine .inr ⟨_, (h.grows i _).rows _ hrow, hwinner, ?_⟩
    intro hleaving
    cases leaving_step h hc hleaving with
    | inl hleaving => exact hf w' v hcontest rfl hleaving
    | inr hgiven =>
      -- There is only one contest at a time, and its winner is not its loser.
      obtain ⟨u, u', hcontest', hsame⟩ := hgiven
      obtain ⟨rfl, rfl⟩ := hcontest.unique hcontest'
      exact hcontest.winner_ne_loser hsame
  | _ => cases hw

theorem Survives.step (hk : c.Survives key) (h : c.Sound) (hc : c.Calm i a) (hf : Fair key c i a) :
    (c.step i a).Survives key := by
  cases hk with
  | inl hk =>
    obtain ⟨j, w, hw, rfl⟩ := hk
    by_cases hj : j = i
    · subst hj
      rcases (h.trail j hc).pending w hw with hw | ⟨n, ha, hw⟩
      · refine .inl ⟨j, w, ?_, rfl⟩
        rw [sites_step_self]
        exact hw
      · exact survives_insert h hc ha hw
    · refine .inl ⟨j, w, ?_, rfl⟩
      rw [sites_step_of_ne hj]
      exact hw
  | inr hk =>
    obtain ⟨w, hw, rfl, hstays⟩ := hk
    by_cases hleaving : (c.step i a).Leaving w
    · exact survives_of_givesUp h hc hf ((leaving_step h hc hleaving).resolve_left hstays)
    · exact .inr ⟨w, (h.grows i _).rows w hw, rfl, hleaving⟩

end Survives

section Stems

variable {P : String → String → Prop}

omit [DecidableEq ι] in
theorem stems_ofSettings (settings : ι → Settings) : (ofSettings settings).Stems P :=
  ⟨fun _ _ h => absurd h List.not_mem_nil, fun _ h => absurd h List.not_mem_nil⟩

theorem Stems.step (hp : c.Stems P) (h : c.Sound) (hc : c.Calm i a)
    (ha : ∀ mark ∈ marks [(i, a)], P mark.group mark.text) : (c.step i a).Stems P where
  pending j w hw := by
    by_cases hj : j = i
    · subst hj
      rw [sites_step_self] at hw
      rcases (h.trail j hc).found w hw with hw | ⟨now, mark, rfl, rfl⟩
      · exact hp.pending j w hw
      · exact ha mark List.mem_cons_self
    · rw [sites_step_of_ne hj] at hw
      exact hp.pending j w hw
  rows w hw := by
    rcases mem_rows_step h hw with hw | ⟨v, hv, rfl⟩
    · exact hp.rows w hw
    · exact hp.pending i v hv

end Stems

section Run

variable {es : List (ι × Act)} {P : String → String → Prop}

omit [DecidableEq ι] in
theorem marks_cons (e : ι × Act) (es : List (ι × Act)) : marks (e :: es) = marks [e] ++ marks es := by
  unfold marks
  rw [← List.filterMap_append]
  rfl

theorem Sound.run (h : c.Sound) (hc : c.Throughout Calm es) : (c.run es).Sound := by
  induction es generalizing c with
  | nil => exact h
  | cons e es ih => exact ih (h.step hc.1) hc.2

theorem Stems.run (hp : c.Stems P) (h : c.Sound) (hc : c.Throughout Calm es)
    (hm : ∀ mark ∈ marks es, P mark.group mark.text) : (c.run es).Stems P := by
  induction es generalizing c with
  | nil => exact hp
  | cons e es ih =>
    rw [marks_cons] at hm
    apply ih _ (h.step hc.1) hc.2
    · exact fun mark hmark => hm mark (List.mem_append_right _ hmark)
    · exact hp.step h hc.1 fun mark hmark => hm mark (List.mem_append_left _ hmark)

theorem run_append (c : Cluster ι) (es fs : List (ι × Act)) : c.run (es ++ fs) = (c.run es).run fs :=
  List.foldl_append

theorem throughout_append {Q : Cluster ι → ι → Act → Prop} {fs : List (ι × Act)} :
    c.Throughout Q (es ++ fs) ↔ c.Throughout Q es ∧ (c.run es).Throughout Q fs := by
  induction es generalizing c with
  | nil => exact ⟨fun h => ⟨trivial, h⟩, And.right⟩
  | cons e es ih => exact (and_congr_right fun _ => ih).trans and_assoc.symm

theorem Survives.run (hk : c.Survives key) (h : c.Sound) (hc : c.Throughout Calm es)
    (hf : c.Throughout (Fair key) es) : (c.run es).Survives key := by
  induction es generalizing c with
  | nil => exact hk
  | cons e es ih => exact ih (hk.step h hc.1 hf.1) (h.step hc.1) hc.2 hf.2

omit [DecidableEq ι] in
theorem Settled.held (hs : c.Settled) (h : c.Sound) (hw : w ∈ c.tables.watches) (i : ι) :
    (c.sites i).held? w.key = some w := by
  rcases (h.sites i).known w hw (hs.lastWatch i w hw) with harrived | hheld | houtgoing
  · rw [hs.arrived i] at harrived
    cases harrived
  · exact hheld
  · rw [hs.outgoing i] at houtgoing
    cases houtgoing

omit [DecidableEq ι] in
theorem Settled.mem_watches (hs : c.Settled) (hk : c.Survives key) :
    ∃ w ∈ c.tables.watches, w.key = key := by
  rcases hk with ⟨i, w, hw, _⟩ | ⟨w, hw, rfl, hstays⟩
  · rw [hs.pending i] at hw
    cases hw
  · cases List.mem_append.1 hw with
    | inl hw => exact ⟨w, hw, rfl⟩
    | inr hw => exact absurd (.inr hw) hstays

omit [DecidableEq ι] in
theorem Settled.kept (hs : c.Settled) (h : c.Sound) {mark : Mark}
    (hk : c.Survives (Watch.keyOf mark.group mark.text))
    (hp : c.Stems fun group text => Watch.keyOf group text = Watch.keyOf mark.group mark.text →
      group = mark.group ∧ text = mark.text) : c.Kept mark := by
  obtain ⟨w, hw, hkey⟩ := hs.mem_watches hk
  obtain ⟨hgroup, htext⟩ := hp.rows w (List.mem_append_left _ hw) hkey
  refine ⟨w, hw, hgroup, htext, fun i => ⟨w, ?_, rfl⟩⟩
  rw [← hkey]
  exact hs.held h hw i

omit [DecidableEq ι] in
theorem exists_of_mem_marks {mark : Mark} (h : mark ∈ marks es) :
    ∃ before i now after, es = before ++ (i, .mark now mark) :: after := by
  obtain ⟨⟨i, a⟩, he, ha⟩ := List.mem_filterMap.1 h
  obtain ⟨before, after, hes⟩ := List.append_of_mem he
  cases a with
  | mark now mark' =>
    cases ha
    exact ⟨before, i, now, after, hes⟩
  | _ => cases ha

theorem survives_run (h : c.Sound) {before after : List (ι × Act)} {now : Now} {mark : Mark}
    (hc : c.Throughout Calm (before ++ (i, .mark now mark) :: after))
    (hf : ((c.run before).step i (.mark now mark)).Throughout
      (Fair (Watch.keyOf mark.group mark.text)) after) :
    (c.run (before ++ (i, .mark now mark) :: after)).Survives
      (Watch.keyOf mark.group mark.text) := by
  obtain ⟨hbefore, hmark, hafter⟩ := throughout_append.1 hc
  rw [run_append]
  exact (survives_mark hmark).run ((h.run hbefore).step hmark) hafter hf

/--
When all servers have come to rest, a query that one of them marked is still quarantined by all of
them, if its key is not that of another query, and since then no row for it was given up in favour
of one that was leaving.
-/
theorem quarantines_kept (settings : ι → Settings) (before after : List (ι × Act)) {now : Now}
    {mark : Mark} (hes : es = before ++ (i, .mark now mark) :: after)
    (hc : (ofSettings settings).Throughout Calm es) (hs : ((ofSettings settings).run es).Settled)
    (hapart : Apart es mark)
    (hf : (((ofSettings settings).run before).step i (.mark now mark)).Throughout
      (Fair (Watch.keyOf mark.group mark.text)) after) :
    ((ofSettings settings).run es).Kept mark := by
  have hsound := sound_ofSettings settings
  subst hes
  exact hs.kept (hsound.run hc) (survives_run hsound hc hf)
    ((stems_ofSettings settings).run hsound hc hapart)

theorem run_map (c : Cluster ι) (i : ι) (as : List Act) :
    c.run (as.map (i, ·)) = ⟨Function.update c.sites i ((c.sites i).acts c.tables as).1,
      ((c.sites i).acts c.tables as).2⟩ := by
  induction as generalizing c with
  | nil =>
    show c = ⟨Function.update c.sites i (c.sites i), c.tables⟩
    rw [Function.update_eq_self]
  | cons a as ih =>
    show (c.step i a).run (as.map (i, ·)) = _
    rw [ih (c.step i a), sites_step_self, Site.acts_cons]
    unfold step
    rw [Function.update_idem]

def Between (c : Cluster ι) : Prop := ∀ i, (c.sites i).arrived = [] ∧ (c.sites i).departed = []

omit [DecidableEq ι] in
theorem between_ofSettings (settings : ι → Settings) : (ofSettings settings).Between :=
  fun _ => ⟨rfl, rfl⟩

theorem Between.perform (h : c.Between) (i : ι) (x : Duty) : (c.perform i x).Between := by
  intro j
  by_cases hj : j = i
  · subst hj
    have hself : (c.perform j x).sites j = ((c.sites j).perform c.tables x).1 :=
      Function.update_self ..
    obtain ⟨harrived, hdeparted⟩ := Site.read_perform (c.sites j) c.tables x
    rw [hself, harrived, hdeparted]
    exact h j
  · have hother : (c.perform i x).sites j = c.sites j := Function.update_of_ne hj ..
    rw [hother]
    exact h j

theorem Between.run_actsOf (h : c.Between) (xs : List (ι × Duty)) :
    c.run (c.actsOf xs) = c.performAll xs := by
  induction xs generalizing c with
  | nil => rfl
  | cons x xs ih =>
    have hduty : c.run (((c.sites x.1).actsOf c.tables x.2).map (x.1, ·)) = c.perform x.1 x.2 := by
      rw [run_map, Site.acts_actsOf _ _ (h x.1).1 (h x.1).2]
      rfl
    unfold actsOf
    rw [run_append, hduty, ih (h.perform x.1 x.2)]
    rfl

theorem actsOf_append (c : Cluster ι) (xs ys : List (ι × Duty)) :
    c.actsOf (xs ++ ys) = c.actsOf xs ++ (c.performAll xs).actsOf ys := by
  induction xs generalizing c with
  | nil => rfl
  | cons x xs ih =>
    rw [List.cons_append, actsOf, ih, actsOf, List.append_assoc]
    rfl

/--
The errands of the pipeline keep what is marked, whichever server has its turn when.
-/
theorem kept_performAll (settings : ι → Settings) (before after : List (ι × Duty)) {now : Now}
    {mark : Mark} :
    let xs := before ++ (i, .mark now mark) :: after
    let c := ofSettings settings
    let marked := (c.performAll before).perform i (.mark now mark)
    c.Throughout Calm (c.actsOf xs) → (c.performAll xs).Settled → Apart (c.actsOf xs) mark →
      marked.Throughout (Fair (Watch.keyOf mark.group mark.text)) (marked.actsOf after) →
        (c.performAll xs).Kept mark := by
  intro xs c marked hc hs hapart hf
  have hsound := sound_ofSettings settings
  have hbetween := between_ofSettings settings
  have hbefore : c.run (c.actsOf before) = c.performAll before := hbetween.run_actsOf before
  have hacts : c.actsOf xs = c.actsOf before ++ (i, .mark now mark) :: marked.actsOf after :=
    actsOf_append c before _
  have hsurvives : (c.run (c.actsOf xs)).Survives (Watch.keyOf mark.group mark.text) := by
    rw [hacts] at hc ⊢
    exact survives_run hsound hc (hbefore ▸ hf)
  rw [← hbetween.run_actsOf xs] at hs ⊢
  exact hs.kept (hsound.run hc) hsurvives ((stems_ofSettings settings).run hsound hc hapart)

def slowQuery : Mark where
  group := "rg1"
  text := "q"
  target := .exact
  action := .kill
  switchGroup := ""
  duration := .zero
  start := default
  cause := ""

/--
Two servers mark the query at once. Both take over the row that was inserted first, and clean up the
other one.
-/
def bothAtOnce : List (Bool × Act) := [
  (true, .mark default slowQuery), (true, .receiveFound), (true, .insert 0),
  (true, .readNew), (false, .readNew), (true, .takeOver default), (false, .takeOver default),
  (false, .receiveFound), (false, .insert 0),
  (true, .readNew), (false, .readNew), (true, .takeOver default), (false, .takeOver default),
  (true, .receiveStale), (false, .receiveStale), (true, .move 0), (false, .move 0),
  (true, .readDone), (false, .readDone), (true, .drop default), (false, .drop default)]

theorem quarantines_kept_bothAtOnce :
    ((ofSettings fun _ => .standard).run ((false, .mark default slowQuery) :: bothAtOnce)).Kept
      slowQuery := by
  refine quarantines_kept (fun _ => .standard) [] bothAtOnce rfl ?_ ?_ ?_ ?_
  · decide +kernel
  · decide +kernel
  · decide +kernel
  · decide +kernel

/--
A server marks a query again although it has a row for it, gives that row up, and moves it when the
new one is there. The other server still has the old row when it reads the new one, and so gives
up the new one, before it reads that the old one is done.
-/
def markedAgain : List (Bool × Act) := [
  (true, .mark default slowQuery), (true, .receiveFound), (true, .insert 0),
  (true, .readNew), (true, .takeOver default), (false, .readNew), (false, .takeOver default),
  (false, .mark default slowQuery), (false, .receiveFound), (false, .insert 0),
  (false, .receiveStale), (false, .move 0),
  (true, .readNew), (true, .takeOver default), (true, .readDone), (true, .drop default),
  (true, .receiveStale), (true, .move 0), (true, .readDone), (true, .drop default),
  (false, .readDone), (false, .drop default), (false, .drop default)]

theorem not_kept_markedAgain :
    ¬ ∀ (settings : Bool → Settings) (es : List (Bool × Act)),
      (ofSettings settings).Throughout Calm es → ((ofSettings settings).run es).Settled →
        ∀ mark ∈ marks es, ((ofSettings settings).run es).Kept mark := by
  intro h
  have hnone : ((ofSettings fun _ => .standard).run markedAgain).tables.watches = [] := by
    decide +kernel
  obtain ⟨w, hw, _⟩ := h (fun _ => .standard) markedAgain (by decide +kernel) (by decide +kernel)
    slowQuery (by decide +kernel)
  rw [hnone] at hw
  cases hw

def sharedKey : List (Unit × Act) := [
  ((), .mark default { slowQuery with group := "a", text := "b/c" }),
  ((), .mark default { slowQuery with group := "a/b", text := "c" }),
  ((), .receiveFound), ((), .insert 0), ((), .receiveFound), ((), .insert 0),
  ((), .readNew), ((), .takeOver default), ((), .takeOver default),
  ((), .receiveStale), ((), .move 0), ((), .readDone), ((), .drop default)]

theorem not_kept_sharedKey :
    ¬ ∀ (settings : Unit → Settings) (es : List (Unit × Act)),
      (ofSettings settings).Throughout Calm es → ((ofSettings settings).run es).Settled →
        ∀ mark ∈ marks es,
          (ofSettings settings).Throughout (Fair (Watch.keyOf mark.group mark.text)) es →
            ((ofSettings settings).run es).Kept mark := by
  intro h
  have hothers : ∀ w ∈ ((ofSettings fun _ => .standard).run sharedKey).tables.watches,
      w.group ≠ "a/b" := by
    decide +kernel
  obtain ⟨w, hw, hgroup, _⟩ := h (fun _ => .standard) sharedKey (by decide +kernel)
    (by decide +kernel) { slowQuery with group := "a/b", text := "c" } (by decide +kernel)
    (by decide +kernel)
  exact hothers w hw hgroup

end Run

end Cluster

end Steward.Runaway
