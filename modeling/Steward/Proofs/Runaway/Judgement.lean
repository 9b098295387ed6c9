import Steward.Proofs.Runaway.Errands
import Steward.Proofs.Runaway.Shift
import Steward.Runaway.Checker

/-!
This module contains what comes of looking again and again at how far a query has come, while the
manager of its server goes on in between. The first look that finds a limit exceeded decides: it alone
leaves a trace, and all later ones repeat its answer, whatever they find.
-/

namespace Steward.Runaway

namespace Limit

variable {l : Limit} {p : Progress} {q : Query}

/--
The query has come further than one of the limits allows.
-/
def ExceededBy (l : Limit) (p : Progress) : Prop :=
  (∃ limit, l.elapsed = some limit ∧ limit < p.elapsed) ∨
    (∃ limit, l.keys = some limit ∧ limit < p.keys) ∨
      ∃ limit, l.units = some limit ∧ limit < p.units

/--
The limit asks for a watch, and the query has a text for it.
-/
def Watches (l : Limit) (q : Query) : Prop :=
  ∃ setting text, l.watch = some setting ∧ q.convict setting.target = some text

theorem exceeded_eq_none_iff : l.exceeded p = none ↔ ¬ l.ExceededBy p := by
  unfold exceeded ExceededBy
  simp [Option.filter_eq_none_iff, not_or]

theorem exceeded_of_exceededBy (h : l.ExceededBy p) : ∃ cause, l.exceeded p = some cause :=
  Option.ne_none_iff_exists'.1 fun hnone => exceeded_eq_none_iff.1 hnone h

instance (l : Limit) (p : Progress) : Decidable (l.ExceededBy p) :=
  decidable_of_iff (l.exceeded p ≠ none) (by rw [Ne, exceeded_eq_none_iff, not_not])

instance (l : Limit) (q : Query) : Decidable (l.Watches q) :=
  decidable_of_iff (l.watch.any fun setting => (q.convict setting.target).isSome) (by
    unfold Watches
    cases l.watch <;> simp [Option.isSome_iff_exists])

end Limit

namespace Manager

/--
The records that are in their channel and those that found no room there.
-/
def recordsOffered (m : Manager) : Nat := m.records.items.length + m.metrics.recordsDropped

/--
The watches that are in the channel to the watch table and those that found no room there.
-/
def watchesOffered (m : Manager) : Nat :=
  m.quarantined.items.length + m.metrics.quarantinesDropped

variable (m : Manager) (now : Now) (mark : Mark) (q : Query) (action : Action)
  (detection : Detection) (start : Moment) (cause : String)

theorem recordsOffered_markRunaway :
    (m.markRunaway q action detection start cause).recordsOffered = m.recordsOffered + 1 := by
  unfold markRunaway recordsOffered
  dsimp only
  split
  · next hsend =>
    dsimp only
    rw [Channel.items_of_send hsend, List.length_append, List.length_singleton]
    omega
  · rfl

theorem watchesOffered_markRunaway :
    (m.markRunaway q action detection start cause).watchesOffered = m.watchesOffered := by
  unfold markRunaway
  dsimp only
  split <;> rfl

theorem recordsOffered_markQuarantine :
    (m.markQuarantine now mark).recordsOffered = m.recordsOffered := by
  have hsame : m.SameRecords (m.markQuarantine now mark) :=
    blind_sameRecords.markQuarantine now m mark
  unfold recordsOffered
  rw [hsame.records, hsame.recordsDropped]

theorem watchesOffered_markQuarantine :
    (m.markQuarantine now mark).watchesOffered = m.watchesOffered + 1 := by
  obtain ⟨hquarantined, hdropped⟩ := keep_quarantined m
    (m.list.quarantine now.elapsed (m.watchOf mark)
      (if mark.duration = .zero then none else some mark.duration))
  unfold markQuarantine watchesOffered
  dsimp only
  split
  · next hsend =>
    dsimp only
    rw [Channel.items_of_send hsend, List.length_append, List.length_singleton, hquarantined,
      hdropped]
    omega
  · unfold count
    dsimp only
    rw [hquarantined, hdropped, Nat.add_assoc]

end Manager

structure Look where
  now : Now
  /-- When the query is said to have exceeded a limit, if it has. -/
  moment : Moment
  progress : Progress
  /-- What others made of the manager since the look before. -/
  meanwhile : Manager → Manager

/--
What came of a look: the answer, and the managers before and after it.
-/
structure Check where
  before : Manager
  answer : Except Interruption (Option Action)
  after : Manager

def Checker.checks (c : Checker) (m : Manager) : List Look → List Check
  | [] => []
  | k :: ks =>
    let before := k.meanwhile m
    let (answer, c', after) := c.checkThresholds before k.now k.moment k.progress
    ⟨before, answer, after⟩ :: c'.checks after ks

namespace Check

structure Repeats (answer : Except Interruption (Option Action)) (x : Check) : Prop where
  answer : x.answer = answer
  after : x.after = x.before

/--
The check records that the query exceeded a limit at this look, and makes a watch of it if the limit
asks for one.
-/
structure Marks (q : Query) (l : Limit) (k : Look) (cause : String) (x : Check) : Prop where
  watched : ∀ setting text, l.watch = some setting → q.convict setting.target = some text →
    x.after = (x.before.markRunaway q l.action .identify k.moment cause).markQuarantine k.now {
      group := q.group, text, target := setting.target, action := l.action
      switchGroup := l.switchGroup, duration := setting.duration, start := k.moment, cause }
  unwatched : ¬ l.Watches q →
    x.after = x.before.markRunaway q l.action .identify k.moment cause

variable {q : Query} {l : Limit} {k : Look} {cause : String} {x : Check}

theorem Marks.recordsOffered (h : x.Marks q l k cause) :
    x.after.recordsOffered = x.before.recordsOffered + 1 := by
  by_cases hw : l.Watches q
  · obtain ⟨setting, text, hsetting, htext⟩ := hw
    rw [h.watched setting text hsetting htext, Manager.recordsOffered_markQuarantine,
      Manager.recordsOffered_markRunaway]
  · rw [h.unwatched hw, Manager.recordsOffered_markRunaway]

theorem Marks.watchesOffered (h : x.Marks q l k cause) :
    x.after.watchesOffered = x.before.watchesOffered + if l.Watches q then 1 else 0 := by
  by_cases hw : l.Watches q
  · rw [if_pos hw]
    obtain ⟨setting, text, hsetting, htext⟩ := hw
    rw [h.watched setting text hsetting htext, Manager.watchesOffered_markQuarantine,
      Manager.watchesOffered_markRunaway]
  · rw [if_neg hw, h.unwatched hw, Manager.watchesOffered_markRunaway, Nat.add_zero]

theorem sum_of_repeats (f : Manager → Nat) {answer : Except Interruption (Option Action)}
    {xs : List Check} (h : ∀ x ∈ xs, x.Repeats answer) :
    (xs.map fun x => f x.after).sum = (xs.map fun x => f x.before).sum := by
  congr 1
  apply List.map_congr_left
  intro x hx
  rw [(h x hx).after]

end Check

namespace Checker

variable {q : Query} {l : Limit} {k : Look} {cause : String} {v : Verdict}

/--
The answer to a query that exceeded a limit for this cause.
-/
def sentence (l : Limit) (cause : String) : Except Interruption (Option Action) :=
  if l.action = .kill then .error (.exceeded cause) else .ok (some l.action)

/--
In these checks the look `k`, which comes after the looks `pre`, decides: the checks before say
nothing, the one at `k` finds a limit exceeded and leaves its trace, and all others repeat its answer.
-/
inductive Decides (q : Query) (l : Limit) (pre : List Look) (k : Look) (checks : List Check) :
    Prop where
  | intro (cause : String) (xs : List Check) (x : Check) (ys : List Check)
      (hcause : l.exceeded k.progress = some cause) (hchecks : checks = xs ++ x :: ys)
      (hlength : xs.length = pre.length) (hxs : ∀ e ∈ xs, e.Repeats (.ok none))
      (hanswer : x.answer = sentence l cause) (hmarks : x.Marks q l k cause)
      (hys : ∀ y ∈ ys, y.Repeats (sentence l cause))

theorem length_checks (c : Checker) (m : Manager) (looks : List Look) :
    (c.checks m looks).length = looks.length := by
  induction looks generalizing c m with
  | nil => rfl
  | cons k ks ih => exact congrArg (· + 1) (ih _ _)

theorem checks_of_verdict (m : Manager) (looks : List Look) :
    ∀ x ∈ (Checker.mk q (some l) (some v)).checks m looks, x.Repeats v.outcome := by
  induction looks generalizing m with
  | nil => simp [checks]
  | cons k ks ih =>
    intro x hx
    cases List.mem_cons.1 hx with
    | inl hfirst => exact hfirst ▸ ⟨rfl, rfl⟩
    | inr hrest => exact ih _ x hrest

theorem checkThresholds_of_within (m : Manager) (h : ¬ l.ExceededBy k.progress) :
    (ofQuery q (some l)).checkThresholds m k.now k.moment k.progress =
      (.ok none, ofQuery q (some l), m) := by
  unfold checkThresholds ofQuery
  dsimp only
  rw [Limit.exceeded_eq_none_iff.2 h]

theorem checkThresholds_of_exceeded (m : Manager) (h : l.exceeded k.progress = some cause) :
    (ofQuery q (some l)).checkThresholds m k.now k.moment k.progress =
      (sentence l cause, ⟨q, some l, some ⟨l.action, cause⟩⟩,
        (ofQuery q (some l)).mark m k.now k.moment l ⟨l.action, cause⟩) := by
  unfold checkThresholds ofQuery
  dsimp only
  rw [h]
  rfl

theorem checks_cons_of_within (m : Manager) (ks : List Look) (h : ¬ l.ExceededBy k.progress) :
    (ofQuery q (some l)).checks m (k :: ks) =
      ⟨k.meanwhile m, .ok none, k.meanwhile m⟩ ::
        (ofQuery q (some l)).checks (k.meanwhile m) ks := by
  rw [checks, checkThresholds_of_within _ h]

theorem checks_append_of_within (m : Manager) {pre : List Look} (rest : List Look)
    (h : ∀ k ∈ pre, ¬ l.ExceededBy k.progress) :
    ∃ m' xs, (ofQuery q (some l)).checks m (pre ++ rest) =
        xs ++ (ofQuery q (some l)).checks m' rest ∧
      xs.length = pre.length ∧ ∀ x ∈ xs, x.Repeats (.ok none) := by
  induction pre generalizing m with
  | nil => exact ⟨m, [], rfl, rfl, fun x hx => absurd hx List.not_mem_nil⟩
  | cons k pre ih =>
    obtain ⟨m', xs, hchecks, hlength, hxs⟩ := ih (k.meanwhile m)
      fun k' hk' => h k' (List.mem_cons_of_mem _ hk')
    refine ⟨m', ⟨k.meanwhile m, .ok none, k.meanwhile m⟩ :: xs, ?_, congrArg (· + 1) hlength, ?_⟩
    · rw [List.cons_append, checks_cons_of_within m _ (h k List.mem_cons_self), hchecks]
      rfl
    · intro x hx
      cases List.mem_cons.1 hx with
      | inl hfirst => exact hfirst ▸ ⟨rfl, rfl⟩
      | inr hrest => exact hxs x hrest

theorem marks_mark (m : Manager) (answer : Except Interruption (Option Action)) :
    (Check.mk m answer
      ((ofQuery q (some l)).mark m k.now k.moment l ⟨l.action, cause⟩)).Marks q l k cause where
  watched setting text hsetting htext := by
    unfold mark ofQuery
    dsimp only
    rw [hsetting]
    dsimp only
    rw [htext]
  unwatched h := by
    unfold mark ofQuery
    dsimp only
    split
    · rfl
    · next setting hsetting =>
      split
      · rfl
      · next text htext => exact absurd ⟨setting, text, hsetting, htext⟩ h

theorem decides_cons_of_exceeded (m : Manager) (post : List Look)
    (h : l.exceeded k.progress = some cause) :
    Decides q l [] k ((ofQuery q (some l)).checks m (k :: post)) := by
  rw [checks, checkThresholds_of_exceeded _ h]
  exact .intro cause [] _ _ h rfl rfl (fun x hx => absurd hx List.not_mem_nil) rfl
    (marks_mark _ _) (checks_of_verdict _ post)

theorem exists_first {looks : List Look} (h : ∃ k ∈ looks, l.ExceededBy k.progress) :
    ∃ pre k post, looks = pre ++ k :: post ∧ (∀ e ∈ pre, ¬ l.ExceededBy e.progress) ∧
      l.ExceededBy k.progress := by
  obtain ⟨k, hfind⟩ : ∃ k, looks.find? (fun k => l.ExceededBy k.progress) = some k := by
    rw [← Option.isSome_iff_exists, List.find?_isSome]
    simpa using h
  obtain ⟨hk, pre, post, hlooks, hpre⟩ := List.find?_eq_some_iff_append.1 hfind
  exact ⟨pre, k, post, hlooks, by simpa using hpre, by simpa using hk⟩

theorem decides_of_first (m : Manager) {pre : List Look} (post : List Look)
    (hpre : ∀ e ∈ pre, ¬ l.ExceededBy e.progress) (hk : l.ExceededBy k.progress) :
    Decides q l pre k ((ofQuery q (some l)).checks m (pre ++ k :: post)) := by
  obtain ⟨cause, hcause⟩ := Limit.exceeded_of_exceededBy hk
  obtain ⟨m', xs, hchecks, hlength, hxs⟩ := checks_append_of_within (q := q) m (k :: post) hpre
  cases decides_cons_of_exceeded (q := q) m' post hcause with
  | intro cause zs x ys hcause hrest hnone _ hanswer hmarks hys =>
    rw [List.eq_nil_of_length_eq_zero hnone, List.nil_append] at hrest
    exact .intro cause xs x ys hcause (hrest ▸ hchecks) hlength hxs hanswer hmarks hys

theorem checks_of_within (m : Manager) {looks : List Look}
    (h : ∀ k ∈ looks, ¬ l.ExceededBy k.progress) :
    ∀ x ∈ (ofQuery q (some l)).checks m looks, x.Repeats (.ok none) := by
  obtain ⟨m', xs, hchecks, _, hxs⟩ := checks_append_of_within (q := q) m [] h
  rw [List.append_nil] at hchecks
  rw [hchecks]
  simpa [checks] using hxs

theorem sum_checks (f : Manager → Nat) (n : Nat) (m : Manager) (looks : List Look)
    (hf : ∀ k cause (x : Check), x.Marks q l k cause → f x.after = f x.before + n) :
    (((ofQuery q (some l)).checks m looks).map fun x => f x.after).sum =
      (((ofQuery q (some l)).checks m looks).map fun x => f x.before).sum +
        if ∃ k ∈ looks, l.ExceededBy k.progress then n else 0 := by
  split
  · next hexceeded =>
    obtain ⟨pre, k, post, rfl, hpre, hk⟩ := exists_first hexceeded
    cases decides_of_first (q := q) m post hpre hk with
    | intro cause xs x ys _ hchecks _ hxs _ hmarks hys =>
      rw [hchecks]
      simp only [List.map_append, List.map_cons, List.sum_append, List.sum_cons]
      rw [Check.sum_of_repeats f hxs, Check.sum_of_repeats f hys, hf k cause x hmarks]
      omega
  · next hwithin =>
    exact Check.sum_of_repeats f
      (checks_of_within m fun k hk hexceeded => hwithin ⟨k, hk, hexceeded⟩)

/--
However far a query has come at each look, and whatever others do to the manager in between: before
the first look that finds a limit exceeded, nothing is answered and nothing happens; that look leaves
the only trace of all, one record and one watch, if the limit has a watch for a text that the query
has; and from then on the answer is its answer.
-/
theorem judged_once (q : Query) (l : Limit) (m : Manager) (looks : List Look) :
    let checks := (ofQuery q (some l)).checks m looks
    let exceeded := ∃ k ∈ looks, l.ExceededBy k.progress
    checks.length = looks.length ∧
      (¬ exceeded → ∀ x ∈ checks, x.Repeats (.ok none)) ∧
      (∀ pre k post, looks = pre ++ k :: post → (∀ e ∈ pre, ¬ l.ExceededBy e.progress) →
        l.ExceededBy k.progress → Decides q l pre k checks) ∧
      (checks.map fun x => x.after.recordsOffered).sum =
        (checks.map fun x => x.before.recordsOffered).sum + (if exceeded then 1 else 0) ∧
      (checks.map fun x => x.after.watchesOffered).sum =
        (checks.map fun x => x.before.watchesOffered).sum +
          (if exceeded then if l.Watches q then 1 else 0 else 0) := by
  intro checks exceeded
  refine ⟨length_checks _ _ _, ?_, ?_, ?_, ?_⟩
  · intro hwithin
    exact checks_of_within m fun k hk hexceeded => hwithin ⟨k, hk, hexceeded⟩
  · intro pre k post hlooks hpre hk
    obtain rfl := hlooks
    exact decides_of_first m post hpre hk
  · exact sum_checks Manager.recordsOffered 1 m looks fun _ _ _ h => h.recordsOffered
  · exact sum_checks Manager.watchesOffered _ m looks fun _ _ _ h => h.watchesOffered

end Checker

section Cases

def batchQuery : Query := ⟨"batch", "select 1", "d", "p"⟩

def keyLimit : Limit := ⟨none, some 1000, none, .kill, "", some ⟨.exact, .ofSeconds 600⟩⟩

def Look.atKeys (keys : Nat) : Look where
  now := ⟨0, .ofMillis 0⟩
  moment := .ofMillis 0
  progress := ⟨.zero, keys, 0⟩
  meanwhile m := { m with records := m.records.drained }

theorem Checker.judged_once_fallingKeys :
    ((∀ e ∈ [Look.atKeys 500], ¬ keyLimit.ExceededBy e.progress) ∧
      keyLimit.ExceededBy (Look.atKeys 2000).progress) ∧
    Decides batchQuery keyLimit [.atKeys 500] (.atKeys 2000)
      ((ofQuery batchQuery (some keyLimit)).checks (.ofSettings .standard)
        [.atKeys 500, .atKeys 2000, .atKeys 100]) := by
  have hpre : ∀ e ∈ [Look.atKeys 500], ¬ keyLimit.ExceededBy e.progress := by decide +kernel
  have hk : keyLimit.ExceededBy (Look.atKeys 2000).progress := by decide +kernel
  obtain ⟨-, -, hjudged, -⟩ := judged_once batchQuery keyLimit (.ofSettings .standard)
    [.atKeys 500, .atKeys 2000, .atKeys 100]
  exact ⟨⟨hpre, hk⟩, hjudged [.atKeys 500] (.atKeys 2000) [.atKeys 100] rfl hpre hk⟩

end Cases

end Steward.Runaway
