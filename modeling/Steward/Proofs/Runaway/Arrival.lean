import Steward.Proofs.Runaway.Rounds

/-!
This module contains which rows of the watch table the rounds miss. A round hands over what lies
above all that was ever read, so that a row is missed whose id was given out early and that is seen
late. No other row is.
-/

namespace Steward.Runaway

open Sql (Reply Trouble)

/--
The round read the watch table while these rows were in it. It may not have asked for them; then the
table need not exist.
-/
def Round.Saw (r : Round) (table : List Watch) : Prop :=
  (Feed.watches.answers r.log = [] ∧ table = []) ∨
    ∃ rows, (Feed.watches.answers r.log).map (fun x => Feed.watches.rows? x.2) = [some rows] ∧
      (Feed.watches.above r.before.lastWatch rows).Perm
        (Feed.watches.above r.before.lastWatch table)

structure Gist where
  before : Int
  /-- The rows that came, if they could be read. -/
  rows : List (Option (List Watch))
  handed : List Int
  /-- No statement failed. -/
  fine : Bool
deriving DecidableEq

def Round.gist (r : Round) : Gist where
  before := r.before.lastWatch
  rows := (Feed.watches.answers r.log).map fun x => Feed.watches.rows? x.2
  handed := r.handed.watches.map (·.id)
  fine := r.log.all (·.2.isOk)

/--
A round, and the rows that were in the watch table when it read it.
-/
structure View where
  round : Round
  table : List Watch

namespace View

/--
The rows that were in the table during one of the first rounds.
-/
def seen (vs : List View) (k : Nat) : List Watch := (vs.take k).flatMap table

/--
Whatever is in the table during a round is handed over in that round or before.
-/
def HandsAll (vs : List View) : Prop :=
  ∀ (k : Nat) (v : View), vs[k]? = some v → ∀ w ∈ v.table,
    ∃ j ≤ k, ∃ u : View, vs[j]? = some u ∧ w ∈ u.round.handed.watches

/--
When a row is seen, all rows have been seen that have no higher id and are ever seen.
-/
def InOrder (vs : List View) : Prop :=
  ∀ (k : Nat) (v : View), vs[k]? = some v → ∀ w ∈ v.table,
    ∀ j ≤ k, ∀ u ∈ seen vs j, w.id ≤ u.id → w ∈ seen vs j

variable {r : Round} {table : List Watch} {vs : List View} {v : View} {j k : Nat}
  {u w : Watch}

theorem highest_lt_iff {last n : Int} {ids : List Int} :
    Monitor.highest last ids < n ↔ last < n ∧ ∀ id ∈ ids, id < n := by
  unfold Monitor.highest
  induction ids generalizing last with
  | nil => simp
  | cons id ids ih =>
    rw [List.foldl_cons, ih, List.forall_mem_cons, Int.max_lt, and_assoc]

theorem forall_above_lt_iff {last n : Int} (h : last < n) :
    (∀ w ∈ Feed.watches.above last table, w.id < n) ↔ ∀ w ∈ table, w.id < n := by
  constructor
  · intro habove w hw
    by_cases hlast : last < w.id
    · exact habove w (List.mem_filter.2 ⟨hw, decide_eq_true hlast⟩)
    · omega
  · exact fun htable w hw => htable w (List.mem_filter.1 hw).1

theorem handed_of_saw (h : Feed.watches.ReadIn r) (hsaw : r.Saw table) :
    r.handed.watches.Perm (Feed.watches.above r.before.lastWatch table) ∧
      ∀ n, r.after.lastWatch < n ↔ r.before.lastWatch < n ∧ ∀ w ∈ table, w.id < n := by
  have hreads : Feed.watches.Reads r.before.lastWatch r.log r.handed.watches r.after.lastWatch := h
  generalize r.handed.watches = xs, r.after.lastWatch = after at hreads
  cases hreads with
  | missed hlog =>
    rcases hsaw with ⟨_, rfl⟩ | ⟨rows, hrows, _⟩
    · exact ⟨.refl _, fun n => by simp⟩
    · rcases hlog with hnil | ⟨y, hy, hnone⟩
      · rw [hnil] at hrows
        cases hrows
      · rw [hy, List.map_singleton, hnone] at hrows
        cases hrows
  | read y rows hy hrows =>
    rcases hsaw with ⟨hnil, _⟩ | ⟨rows', hrows', hperm⟩
    · cases hnil.symm.trans hy
    · rw [hy, List.map_singleton, hrows] at hrows'
      cases hrows'
      refine ⟨hperm, fun n => ?_⟩
      rw [highest_lt_iff]
      refine and_congr_right fun hn => ?_
      rw [List.forall_mem_map, ← forall_above_lt_iff hn]
      exact forall_congr' fun w => imp_congr_left hperm.mem_iff

theorem seen_cons (v : View) (vs : List View) (k : Nat) :
    seen (v :: vs) (k + 1) = v.table ++ seen vs k := rfl

theorem handed_perm {m m' : Monitor} {rs : List Round} (h : Rounds m rs m')
    (hvs : vs.map round = rs) (hsaw : ∀ v ∈ vs, v.round.Saw v.table) (hv : vs[k]? = some v) :
    v.round.handed.watches.Perm (v.table.filter fun w =>
      m.syncer.lastWatch < w.id ∧ ∀ u ∈ seen vs k, u.id < w.id) := by
  induction h generalizing vs k with
  | nil m =>
    cases List.map_eq_nil_iff.1 hvs
    cases hv
  | @cons m m₁ m₂ m' log result handed rs haside h hrest ih =>
    obtain ⟨v₀, vs, rfl, hfirst, hvs⟩ := List.map_eq_cons_iff.1 hvs
    obtain ⟨hsaw₀, hsaw⟩ := List.forall_mem_cons.1 hsaw
    have hread : Feed.watches.ReadIn v₀.round := hfirst ▸ (Monitor.readIn_round h).1
    obtain ⟨hhanded, hafter⟩ := handed_of_saw hread hsaw₀
    have hbefore : v₀.round.before.lastWatch = m.syncer.lastWatch := by
      rw [hfirst, show m₁.syncer = m.syncer from haside]
    cases k with
    | zero =>
      cases hv
      rw [hbefore] at hhanded
      refine hhanded.trans (.of_eq (List.filter_congr fun w _ => decide_eq_decide.2 ?_))
      exact (and_iff_left fun u hu => absurd hu List.not_mem_nil).symm
    | succ k =>
      have hlater := ih hvs hsaw hv
      have hlast (n : Int) : m₂.syncer.lastWatch < n ↔
          m.syncer.lastWatch < n ∧ ∀ w ∈ v₀.table, w.id < n := by
        have hafter := hafter n
        rw [hbefore, hfirst] at hafter
        exact hafter
      simpa only [seen_cons, List.forall_mem_append, hlast, and_assoc] using hlater

theorem mem_seen_iff : w ∈ seen vs k ↔ ∃ i < k, ∃ v, vs[i]? = some v ∧ w ∈ v.table := by
  have htake (v : View) : v ∈ vs.take k ↔ ∃ i < k, vs[i]? = some v := by
    simp only [List.mem_iff_getElem?, List.getElem?_take, ite_eq_iff]
    simp
  unfold seen
  simp only [List.mem_flatMap, htake]
  constructor
  · rintro ⟨v, ⟨i, hi, hv⟩, hw⟩
    exact ⟨i, hi, v, hv, hw⟩
  · rintro ⟨i, hi, v, hv, hw⟩
    exact ⟨v, ⟨i, hi, hv⟩, hw⟩

theorem seen_mono (h : j ≤ k) (hw : w ∈ seen vs j) : w ∈ seen vs k := by
  obtain ⟨i, hi, hv⟩ := mem_seen_iff.1 hw
  exact mem_seen_iff.2 ⟨i, by omega, hv⟩

theorem first_seen (hv : vs[k]? = some v) (hw : w ∈ v.table) :
    ∃ i ≤ k, ∃ x : View, vs[i]? = some x ∧ w ∈ x.table ∧ w ∉ seen vs i := by
  have hsome : ∃ (i : Nat) (x : View), vs[i]? = some x ∧ w ∈ x.table := ⟨k, v, hv, hw⟩
  classical
  obtain ⟨x, hx, hwx⟩ := Nat.find_spec hsome
  refine ⟨Nat.find hsome, Nat.find_min' hsome ⟨v, hv, hw⟩, x, hx, hwx, fun hseen => ?_⟩
  obtain ⟨i, hi, hearlier⟩ := mem_seen_iff.1 hseen
  exact Nat.find_min hsome hi hearlier

theorem mem_handed_iff {m m' : Monitor} (h : Rounds m (vs.map round) m')
    (hstart : m.syncer.lastWatch = 0) (hsaw : ∀ v ∈ vs, v.round.Saw v.table)
    (hpos : ∀ v ∈ vs, ∀ w ∈ v.table, 0 < w.id) (hv : vs[k]? = some v) :
    w ∈ v.round.handed.watches ↔ w ∈ v.table ∧ ∀ u ∈ seen vs k, u.id < w.id := by
  rw [(handed_perm h rfl hsaw hv).mem_iff, List.mem_filter, decide_eq_true_iff, hstart]
  refine and_congr_right fun hw => and_iff_right ?_
  exact hpos v (List.mem_of_getElem? hv) w hw

theorem handsAll_iff_of_handed (h : ∀ (k : Nat) (v : View), vs[k]? = some v → ∀ w,
    w ∈ v.round.handed.watches ↔ w ∈ v.table ∧ ∀ u ∈ seen vs k, u.id < w.id) :
    HandsAll vs ↔ InOrder vs := by
  refine ⟨fun hall => ?_, fun horder => ?_⟩
  · intro k v hv w hw j hj u hu hle
    obtain ⟨i, hi, x, hx, hhanded⟩ := hall k v hv w hw
    obtain ⟨hwx, habove⟩ := (h i x hx w).1 hhanded
    by_cases hij : i < j
    · exact mem_seen_iff.2 ⟨i, hij, x, hx, hwx⟩
    · -- The round that hands it over saw the higher row before.
      have hlt := habove u (seen_mono (Nat.not_lt.1 hij) hu)
      omega
  · intro k v hv w hw
    obtain ⟨i, hi, x, hx, hwx, hfresh⟩ := first_seen hv hw
    refine ⟨i, hi, x, hx, (h i x hx w).2 ⟨hwx, fun u hu => ?_⟩⟩
    by_contra hge
    exact hfresh (horder i x hx w hwx i (Nat.le_refl i) u hu (Int.not_lt.1 hge))

/--
The rounds miss no row just if the rows come to be seen in the order of their ids. In any case, what
a round hands over are the rows of its table that lie above all that were seen before.
-/
theorem handsAll_iff_inOrder {m m' : Monitor} (h : Rounds m (vs.map round) m')
    (hstart : m.syncer.lastWatch = 0) (hsaw : ∀ v ∈ vs, v.round.Saw v.table)
    (hpos : ∀ v ∈ vs, ∀ w ∈ v.table, 0 < w.id) :
    (HandsAll vs ↔ InOrder vs) ∧ ∀ (k : Nat) (v : View), vs[k]? = some v →
      v.round.handed.watches.Perm (v.table.filter fun w => ∀ u ∈ seen vs k, u.id < w.id) := by
  refine ⟨?_, fun k v hv => ?_⟩
  · exact handsAll_iff_of_handed fun k v hv w => mem_handed_iff h hstart hsaw hpos hv
  · refine (handed_perm h rfl hsaw hv).trans (.of_eq (List.filter_congr fun w hw => ?_))
    rw [hstart]
    exact decide_eq_decide.2 (and_iff_right (hpos v (List.mem_of_getElem? hv) w hw))

/--
The rounds of the server miss no row of the tables that they see just if the rows come to be seen in
the order of their ids.
-/
theorem handsAll_iff_of_syncs {m m' : Monitor} {xs : List (Sql.Log × Except Trouble Report)}
    (h : Syncs m xs m') (hstart : m.syncer.lastWatch = 0) :
    ∃ rs, Rounds m rs m' ∧ rs.map (fun r => (r.log, r.result)) = xs ∧
      ∀ vs : List View, vs.map round = rs → (∀ v ∈ vs, v.round.Saw v.table) →
        (∀ v ∈ vs, ∀ w ∈ v.table, 0 < w.id) → (HandsAll vs ↔ InOrder vs) := by
  obtain ⟨rs, hrounds, hxs⟩ := syncs_iff.1 h
  refine ⟨rs, hrounds, hxs, ?_⟩
  rintro vs rfl hsaw hpos
  exact handsAll_iff_of_handed fun k v hv w => mem_handed_iff hrounds hstart hsaw hpos hv

theorem saw_of_gist {before : Int} {rows : List Watch} {handed : List Int} {fine : Bool}
    (h : r.gist = ⟨before, [some rows], handed, fine⟩)
    (hperm : (Feed.watches.above before rows).Perm (Feed.watches.above before table)) :
    r.Saw table := by
  have hbefore : r.before.lastWatch = before := congrArg Gist.before h
  exact .inr ⟨rows, congrArg Gist.rows h, hbefore ▸ hperm⟩

theorem exists_rounds {m : Monitor} {answers : List (List (Except Trouble Reply))}
    {gists : List Gist}
    (h : (followRounds m answers).map (fun x => x.1.map Round.gist) = some gists) :
    ∃ rs m', Rounds m rs m' ∧ rs.map Round.gist = gists := by
  obtain ⟨⟨rs, m'⟩, hfollow, hgists⟩ := Option.map_eq_some_iff.1 h
  exact ⟨rs, m', rounds_of_follow hfollow, hgists⟩

def twoAnswers (first second : List Int) : List (List (Except Trouble Reply)) := [
  [.ok foundReply, .ok foundReply, .ok (watchReply first), .ok .nothing],
  [.ok (watchReply second), .ok .nothing]]

theorem exists_views (first second : Watch) (m : Monitor)
    (answers : List (List (Except Trouble Reply))) (rows : List Watch) (handed handed' : List Int)
    (h : (followRounds m answers).map (fun x => x.1.map Round.gist) =
      some [⟨0, [some [first]], handed, true⟩, ⟨first.id, [some rows], handed', true⟩])
    (hperm : (Feed.watches.above first.id rows).Perm
      (Feed.watches.above first.id [first, second])) :
    ∃ r r' m', Rounds m [r, r'] m' ∧ r.Saw [first] ∧ r'.Saw [first, second] ∧
      r.handed.watches.map (·.id) = handed ∧ r'.handed.watches.map (·.id) = handed' ∧
      ∀ u ∈ [r, r'], ∀ x ∈ u.log, x.2.isOk = true := by
  obtain ⟨rs, m', hrounds, hgists⟩ := exists_rounds h
  obtain ⟨r, rest, rfl, hr, hrest⟩ := List.map_eq_cons_iff.1 hgists
  obtain ⟨r', rest, rfl, hr', hnil⟩ := List.map_eq_cons_iff.1 hrest
  cases List.map_eq_nil_iff.1 hnil
  refine ⟨r, r', m', hrounds, saw_of_gist hr (.refl _), saw_of_gist hr' hperm,
    congrArg Gist.handed hr, congrArg Gist.handed hr', ?_⟩
  simp only [List.forall_mem_cons]
  exact ⟨List.all_eq_true.1 (congrArg Gist.fine hr), List.all_eq_true.1 (congrArg Gist.fine hr'),
    fun _ h => absurd h List.not_mem_nil⟩

theorem handsAll_of_orderly :
    ∃ r r' m', Rounds (.ofSettings .standard) [r, r'] m' ∧
      r.Saw [plainWatch 1] ∧ r'.Saw [plainWatch 1, plainWatch 2] ∧
      HandsAll [⟨r, [plainWatch 1]⟩, ⟨r', [plainWatch 1, plainWatch 2]⟩] := by
  obtain ⟨r, r', m', hrounds, hsaw, hsaw', -⟩ := exists_views (plainWatch 1) (plainWatch 2)
    (.ofSettings .standard) (twoAnswers [1] [2]) [plainWatch 2] [1] [2] (by decide +kernel)
    (by decide +kernel)
  let views : List View := [⟨r, [plainWatch 1]⟩, ⟨r', [plainWatch 1, plainWatch 2]⟩]
  have hiff : HandsAll views ↔ InOrder views :=
    (handsAll_iff_inOrder hrounds rfl (by simp [views, hsaw, hsaw'])
      (by simp [views, plainWatch])).1
  refine ⟨r, r', m', hrounds, hsaw, hsaw', hiff.2 ?_⟩
  intro k v hv w hw j hj u hu hle
  -- Only the second table has two rows, and it is not seen before the last round.
  have hk := (List.getElem?_eq_some_iff.1 hv).1
  obtain ⟨i, hi, x, hx, hux⟩ := mem_seen_iff.1 hu
  have hi0 : i = 0 := by
    simp only [views, List.length_cons, List.length_nil] at hk
    omega
  subst hi0
  cases hx
  cases List.mem_singleton.1 hux
  have hwatch : w = plainWatch 1 ∨ w = plainWatch 2 := by
    have hmem := List.mem_of_getElem? hv
    simp only [views, List.mem_cons, List.not_mem_nil, or_false] at hmem
    rcases hmem with rfl | rfl
    · exact .inl (List.mem_singleton.1 hw)
    · simpa using hw
  rcases hwatch with rfl | rfl
  · exact hu
  · exact absurd hle (by decide)

theorem not_handsAll_of_late :
    ¬ ∀ (m m' : Monitor) (vs : List View), Rounds m (vs.map round) m' → m.syncer = .start →
      (∀ v ∈ vs, v.round.Saw v.table) → (∀ v ∈ vs, ∀ w ∈ v.table, 0 < w.id) →
      (∀ u ∈ vs, ∀ v ∈ vs, ∀ w ∈ u.table, ∀ x ∈ v.table, w.id = x.id → w = x) →
      (∀ v ∈ vs, ∀ x ∈ v.round.log, x.2.isOk = true) → HandsAll vs := by
  intro h
  obtain ⟨r, r', m', hrounds, hsaw, hsaw', hhanded, hhanded', hfine⟩ :=
    exists_views (plainWatch 2) (plainWatch 1)
    (.ofSettings .standard) (twoAnswers [2] []) [] [2] [] (by decide +kernel) (by decide +kernel)
  have hall := h _ _ [⟨r, [plainWatch 2]⟩, ⟨r', [plainWatch 2, plainWatch 1]⟩] hrounds rfl
    (by simp [hsaw, hsaw']) (by simp [plainWatch]) (by simp [plainWatch]) (by simpa using hfine)
  obtain ⟨j, _, u, hu, hmem⟩ := hall 1 _ rfl (plainWatch 1) (by simp)
  have hid : 1 ∈ u.round.handed.watches.map (·.id) := List.mem_map_of_mem hmem
  have hu := List.mem_of_getElem? hu
  simp only [List.mem_cons, List.not_mem_nil, or_false] at hu
  rcases hu with rfl | rfl
  · rw [hhanded] at hid
    exact absurd hid (by decide)
  · rw [hhanded'] at hid
    cases hid

end View

end Steward.Runaway
