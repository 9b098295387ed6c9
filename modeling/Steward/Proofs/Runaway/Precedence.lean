import Steward.Proofs.Runaway.Cluster

/-!
This module contains who wins when several servers mark the same query: as long as nobody marks a
query that it has a row for, and no mark is that of an operator, the first row that was inserted for
a key stays, and it is the one that all servers take over. So no quarantine is lost.
-/

namespace Steward.Runaway

namespace Site

structure Ordered (s : Site) : Prop where
  sorted : s.arrived.Pairwise (·.id < ·.id)
  read : ∀ w ∈ s.arrived, w.id ≤ s.lastWatch

section Ordered

variable {s : Site} {t : Tables} {a : Act}

theorem le_highest (last : Int) (ids : List Int) :
    last ≤ Monitor.highest last ids ∧ ∀ id ∈ ids, id ≤ Monitor.highest last ids := by
  unfold Monitor.highest
  induction ids generalizing last with
  | nil => exact ⟨Int.le_refl _, fun _ h => absurd h List.not_mem_nil⟩
  | cons id ids ih =>
    rw [List.foldl_cons]
    obtain ⟨hlast, hids⟩ := ih (max last id)
    refine ⟨by omega, ?_⟩
    intro x hx
    cases List.mem_cons.1 hx with
    | inl hx => omega
    | inr hx => exact hids x hx

theorem ordered_ofSettings (settings : Settings) : (ofSettings settings).Ordered :=
  ⟨.nil, fun _ h => absurd h List.not_mem_nil⟩

theorem Ordered.readNew (h : s.Ordered) (ht : t.watches.Pairwise (·.id < ·.id)) :
    (s.act t .readNew).1.Ordered where
  sorted := by
    refine List.pairwise_append.2 ⟨h.sorted, ht.filter _, ?_⟩
    intro w hw v hv
    have hle := h.read w hw
    have hlt : s.lastWatch < v.id := of_decide_eq_true (List.mem_filter.1 hv).2
    omega
  read w hw := by
    have hhigh : s.lastWatch ≤ (s.act t .readNew).1.lastWatch ∧
        ∀ id ∈ (t.watchesAfter s.lastWatch).map (·.id), id ≤ (s.act t .readNew).1.lastWatch :=
      le_highest _ _
    cases List.mem_append.1 hw with
    | inl hw => exact Int.le_trans (h.read w hw) hhigh.1
    | inr hw => exact hhigh.2 w.id (List.mem_map_of_mem hw)

theorem ordered_act (h : s.Ordered) (ht : t.watches.Pairwise (·.id < ·.id)) (a : Act) :
    (s.act t a).1.Ordered := by
  cases a with
  | readNew => exact h.readNew ht
  | takeOver now =>
    cases hs : s.arrived with
    | nil =>
      unfold act
      rw [hs]
      exact h
    | cons w ws =>
      have hsorted := h.sorted
      rw [hs] at hsorted
      rw [act_takeOver now t hs]
      exact ⟨hsorted.of_cons, fun v hv => h.read v (hs ▸ List.mem_cons_of_mem w hv)⟩
  | receiveFound | insert n | receiveStale | move n | drop now =>
    unfold act
    dsimp only
    split <;> exact ⟨h.sorted, h.read⟩
  | mark | readDone => exact ⟨h.sorted, h.read⟩

end Ordered

end Site

namespace Site

variable {s : Site} {t : Tables} {a : Act} {key : String} {v : Watch}

theorem held_act (h : s.Sound t) (ht : t.Sound) (hc : s.Calm a)
    (hv : (s.act t a).1.held? key = some v) (hd : v.isDurable) :
    s.held? key = some v ∨ s.arrived.head? = some v ∧
      ((∀ u, s.held? v.key = some u → u.isDurable = false) ∨ v.isManual) := by
  cases a with
  | mark now mark =>
    obtain ⟨hcalm, hspares, hfound⟩ := hc
    refine ((Manager.shifts_mark hcalm hspares hfound).held_cases hv).imp_right ?_
    rintro ⟨_, hnew⟩
    cases hnew
    cases hd
  | takeOver now =>
    cases hs : s.arrived with
    | nil =>
      unfold act at hv
      rw [hs] at hv
      exact .inl hv
    | cons w ws =>
      rw [act_takeOver now t hs] at hv
      cases h.admits ht hc hs with
      | taken hfree hm =>
        refine (hm.held_cases hv).imp_right ?_
        rintro ⟨_, hnew⟩
        cases hnew
        exact ⟨rfl, .inl hfree⟩
      | forced u hu hid hud hmanual hm =>
        refine (hm.held_cases hv).imp_right ?_
        rintro ⟨_, hnew⟩
        cases hnew
        exact ⟨rfl, .inr hmanual⟩
      | known u hu hid hm | refused u hu hid hud hmanual hm =>
        rcases hm.held_cases hv with hv | ⟨rfl, hold⟩
        · exact .inl hv
        · exact .inl (hold ▸ hu)
  | drop now =>
    unfold act at hv
    dsimp only at hv
    split at hv
    · exact .inl hv
    · next w ws hs =>
      rcases (Manager.shifts_removeAll hc w).held_cases hv with hv | ⟨rfl, hold⟩
      · exact .inl hv
      · split at hold
        · cases hold
        · exact .inl hold
  | receiveFound | insert n | receiveStale | move n =>
    left
    unfold act at hv
    dsimp only at hv
    split at hv <;> exact hv
  | readNew | readDone => exact .inl hv

end Site

namespace Cluster

variable {ι : Type}

def Novel (c : Cluster ι) (i : ι) : Act → Prop
  | .mark _ mark =>
    (c.sites i).manager.list.rowAt ((c.sites i).manager.watchOf mark).key = [] ∧
      ((c.sites i).manager.watchOf mark).isManual = false
  | _ => True

instance (c : Cluster ι) (i : ι) (a : Act) : Decidable (c.Novel i a) :=
  match a with
  | .mark _ _ => inferInstanceAs (Decidable (_ ∧ _))
  | .receiveFound | .insert _ | .receiveStale | .move _ | .readNew | .takeOver _ | .readDone
  | .drop _ => .isTrue trivial

structure First (c : Cluster ι) (w : Watch) : Prop where
  mem : w ∈ c.tables.rows
  le : ∀ v ∈ c.tables.rows, v.key = w.key → w.id ≤ v.id

/--
The first row of every key stays, and servers have no other rows.
-/
structure Orderly (c : Cluster ι) : Prop where
  sorted : c.tables.watches.Pairwise (·.id < ·.id)
  ordered : ∀ i, (c.sites i).Ordered
  pending : ∀ i, ∀ w ∈ (c.sites i).pending, w.isManual = false
  rows : ∀ w ∈ c.tables.rows, w.isManual = false
  first : ∀ w ∈ c.tables.rows, ∃ v, c.First v ∧ v.key = w.key ∧ ¬ c.Leaving v
  held : ∀ i k w, (c.sites i).held? k = some w → w.isDurable → c.First w

variable {c : Cluster ι} {i : ι} {a : Act} {v w : Watch}

theorem First.eq (h : c.First w) (h' : c.First v) (hc : c.Sound) (hkey : v.key = w.key) : v = w := by
  have hle := h.le v h'.mem hkey
  have hle' := h'.le w h.mem hkey.symm
  exact hc.tables.eq_of_id h'.mem h.mem (by omega)

theorem orderly_ofSettings (settings : ι → Settings) : (ofSettings settings).Orderly where
  sorted := .nil
  ordered i := Site.ordered_ofSettings (settings i)
  pending _ _ h := absurd h List.not_mem_nil
  rows _ h := absurd h List.not_mem_nil
  first _ h := absurd h List.not_mem_nil
  held _ _ _ h := by cases h

theorem Orderly.first_of_arrived (ho : c.Orderly) (h : c.Sound)
    (hw : (c.sites i).arrived.head? = some w)
    (hfree : ∀ v, (c.sites i).held? w.key = some v → v.isDurable = false) : c.First w := by
  obtain ⟨ws, hs⟩ := List.head?_eq_some_iff.1 hw
  have hmem : w ∈ (c.sites i).arrived := hs ▸ List.mem_cons_self
  have hrow := (h.sites i).arrived w hmem
  obtain ⟨v, hv, hkey, hstays⟩ := ho.first w hrow
  have hle := hv.le w hrow hkey.symm
  have hwatch : v ∈ c.tables.watches :=
    (List.mem_append.1 hv.mem).resolve_right fun hdone => hstays (.inr hdone)
  -- The first row of the key stays in the table and was read, so the server knows it.
  have hread : v.id ≤ (c.sites i).lastWatch := Int.le_trans hle ((ho.ordered i).read w hmem)
  rcases (h.sites i).known v hwatch hread with harrived | hheld | houtgoing
  · have hsorted := (ho.ordered i).sorted
    rw [hs] at harrived hsorted
    cases List.mem_cons.1 harrived with
    | inl hsame => exact hsame ▸ hv
    | inr hlater =>
      -- It cannot come after the row that is taken over: it has the lower id.
      have hlt := List.rel_of_pairwise_cons hsorted hlater
      omega
  · have hd := h.tables.isDurable hv.mem
    rw [hfree v (hkey ▸ hheld)] at hd
    cases hd
  · exact absurd (.inl ⟨i, houtgoing⟩) hstays

theorem Orderly.fair (ho : c.Orderly) (h : c.Sound) (key : String) : Fair key c i a := by
  cases a with
  | takeOver now =>
    intro w v hcontest _
    have hmanual := ho.rows w ((h.sites i).arrived w (List.mem_of_mem_head? hcontest.arrived))
    have hfirst := ho.held i w.key v hcontest.held hcontest.isDurable
    obtain ⟨u, hu, hkey, hstays⟩ := ho.first v hfirst.mem
    rw [Site.winner, hmanual]
    exact hfirst.eq hu h hkey ▸ hstays
  | _ => trivial

theorem Orderly.not_givesUp (ho : c.Orderly) (h : c.Sound) (hn : c.Novel i a) (hw : c.First w) :
    ¬ (c.sites i).GivesUp w a := by
  intro hgiven
  cases a with
  | mark now mark =>
    have hrow : w ∈ (c.sites i).manager.list.rowAt ((c.sites i).manager.watchOf mark).key := hgiven
    rw [hn.1] at hrow
    cases hrow
  | takeOver now =>
    obtain ⟨u, v, hcontest, hloser⟩ := hgiven
    have hmanual := ho.rows u ((h.sites i).arrived u (List.mem_of_mem_head? hcontest.arrived))
    have hfirst := ho.held i u.key v hcontest.held hcontest.isDurable
    have hkey := ((h.sites i).held u.key v hcontest.held hcontest.isDurable).2
    rw [Site.loser, hmanual] at hloser
    have hu : w = u := hloser
    subst hu
    exact hcontest.ne (congrArg _ (hw.eq hfirst h hkey))
  | _ => exact hgiven

variable [DecidableEq ι]

theorem sorted_step (h : c.Sound) (hs : c.tables.watches.Pairwise (·.id < ·.id)) :
    (c.step i a).tables.watches.Pairwise (·.id < ·.id) := by
  rcases tables_step_cases c i a with hsame | ⟨w, _, hinsert⟩ | ⟨w, _, hmove⟩
  · rw [hsame]
    exact hs
  · rw [hinsert]
    refine List.pairwise_append.2 ⟨hs, List.pairwise_singleton _ _, ?_⟩
    intro v hv w hw
    have hle := (h.tables.bounds v (List.mem_append_left _ hv)).2
    rw [List.mem_singleton.1 hw]
    dsimp only
    omega
  · rw [hmove]
    rcases Tables.move_cases c.tables w.id with ⟨_, hnone⟩ | ⟨_, _, _, hwatches, _⟩
    · rw [hnone]
      exact hs
    · rw [hwatches]
      exact hs.filter _

theorem First.step (hw : c.First w) (h : c.Sound) (i : ι) (a : Act) : (c.step i a).First w where
  mem := (h.grows i a).rows w hw.mem
  le v hv hkey := by
    rcases mem_rows_step h hv with hv | ⟨u, _, rfl⟩
    · exact hw.le v hv hkey
    · have hle := (h.tables.bounds w hw.mem).2
      dsimp only
      omega

theorem Orderly.first_step (ho : c.Orderly) (h : c.Sound) (hc : c.Calm i a) (hn : c.Novel i a)
    (hw : w ∈ (c.step i a).tables.rows) :
    ∃ v, (c.step i a).First v ∧ v.key = w.key ∧ ¬ (c.step i a).Leaving v := by
  by_cases hkey : ∃ u ∈ c.tables.rows, u.key = w.key
  · obtain ⟨u, hu, hkey⟩ := hkey
    obtain ⟨v, hv, hsame, hstays⟩ := ho.first u hu
    refine ⟨v, hv.step h i a, hsame.trans hkey, ?_⟩
    intro hleaving
    exact ho.not_givesUp h hn hv ((leaving_step h hc hleaving).resolve_left hstays)
  · -- There was no row for the key, so all of them have the id that was just given out.
    have hnew : ∀ v ∈ (c.step i a).tables.rows, v.key = w.key → v.id = c.tables.lastWatch + 1 := by
      intro v hv hvkey
      rcases mem_rows_step h hv with hold | ⟨u, _, rfl⟩
      · exact absurd ⟨v, hold, hvkey⟩ hkey
      · rfl
    refine ⟨w, ⟨hw, fun v hv hvkey => ?_⟩, rfl, ?_⟩
    · rw [hnew w hw rfl, hnew v hv hvkey]
    · exact fun hleaving => hkey ⟨w, mem_rows_of_leaving h hc hleaving, rfl⟩

theorem Orderly.step (ho : c.Orderly) (h : c.Sound) (hc : c.Calm i a) (hn : c.Novel i a) :
    (c.step i a).Orderly where
  sorted := sorted_step h ho.sorted
  ordered j := by
    by_cases hj : j = i
    · subst hj
      rw [sites_step_self]
      exact Site.ordered_act (ho.ordered j) ho.sorted a
    · rw [sites_step_of_ne hj]
      exact ho.ordered j
  pending j w hw := by
    by_cases hj : j = i
    · subst hj
      rw [sites_step_self] at hw
      rcases (h.trail j hc).found w hw with hw | ⟨now, mark, rfl, rfl⟩
      · exact ho.pending j w hw
      · exact hn.2
    · rw [sites_step_of_ne hj] at hw
      exact ho.pending j w hw
  rows w hw := by
    rcases mem_rows_step h hw with hw | ⟨u, hu, rfl⟩
    · exact ho.rows w hw
    · exact ho.pending i u hu
  first w hw := ho.first_step h hc hn hw
  held j k w hw hd := by
    by_cases hj : j = i
    · subst hj
      rw [sites_step_self] at hw
      rcases Site.held_act (h.sites j) h.tables hc hw hd with hw | ⟨harrived, hfree⟩
      · exact (ho.held j k w hw hd).step h j a
      · have hmanual := ho.rows w ((h.sites j).arrived w (List.mem_of_mem_head? harrived))
        have hfree := hfree.resolve_right (by rw [hmanual]; exact Bool.false_ne_true)
        exact (ho.first_of_arrived h harrived hfree).step h j a
    · rw [sites_step_of_ne hj] at hw
      exact (ho.held j k w hw hd).step h i a

variable {es : List (ι × Act)}

theorem Orderly.fair_throughout (ho : c.Orderly) (h : c.Sound) (hc : c.Throughout Calm es)
    (hn : c.Throughout Novel es) (key : String) : c.Throughout (Fair key) es := by
  induction es generalizing c with
  | nil => trivial
  | cons e es ih => exact ⟨ho.fair h key, ih (ho.step h hc.1 hn.1) (h.step hc.1) hc.2 hn.2⟩

/--
When all servers have come to rest, every query that was marked is still quarantined by all of them,
if its key is not that of another query, and nobody marked a query that it had a row for, or as an
operator.
-/
theorem kept_of_novel (settings : ι → Settings) (hc : (ofSettings settings).Throughout Calm es)
    (hn : (ofSettings settings).Throughout Novel es) (hs : ((ofSettings settings).run es).Settled)
    {mark : Mark} (hmark : mark ∈ marks es) (hapart : Apart es mark) :
    ((ofSettings settings).run es).Kept mark := by
  have hsound := sound_ofSettings settings
  have hf := (orderly_ofSettings settings).fair_throughout hsound hc hn
    (Watch.keyOf mark.group mark.text)
  obtain ⟨before, i, now, after, rfl⟩ := exists_of_mem_marks hmark
  exact hs.kept (hsound.run hc) (survives_run hsound hc (throughout_append.1 hf).2.2)
    ((stems_ofSettings settings).run hsound hc hapart)

theorem kept_of_novel_bothAtOnce :
    ((ofSettings fun _ => .standard).run ((false, .mark default slowQuery) :: bothAtOnce)).Kept
      slowQuery := by
  refine kept_of_novel (fun _ => .standard) ?_ ?_ ?_ List.mem_cons_self ?_
  · decide +kernel
  · decide +kernel
  · decide +kernel
  · decide +kernel

end Cluster

end Steward.Runaway
