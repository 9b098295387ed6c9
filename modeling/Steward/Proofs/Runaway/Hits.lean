import Steward.Proofs.Runaway.Isolation
import Steward.Runaway.Checker

/-!
This module contains which watches a query hits before it runs. A watch is found by its group and its
text, and nobody asks which part of a query it is for. So no watch that names a query is missed, but
one for the SQL digest is also hit by a query whose SQL reads like that digest.
-/

namespace Steward

universe u v

namespace Cache

variable {κ : Type u} {α : Type v} [Ord κ] {c : Cache κ α} {k l : κ} {a : α} {b : Kept α}
  {now : Span} {key : α → κ}

def live (c : Cache κ α) (now : Span) : List α :=
  (c.entries.values.filter fun e => !e.isExpired now).map (·.value)

def Keyed (c : Cache κ α) (key : α → κ) : Prop := ∀ k b, c.kept? k = some b → key b.value = k

variable [DecidableEq κ] [Std.LawfulEqOrd κ]

theorem Keyed.mem_live_iff (h : c.Keyed key) : a ∈ c.live now ↔ c.get? now (key a) = some a := by
  constructor
  · intro ha
    obtain ⟨e, he, rfl⟩ := List.mem_map.1 ha
    obtain ⟨he, hlive⟩ := List.mem_filter.1 he
    obtain ⟨⟨k, e⟩, hentry, rfl⟩ := List.mem_map.1 he
    have hget := SortedMap.mem_entries_iff.1 hentry
    have hkey : key e.value = k := h k ⟨e.value, e.expiry⟩ (by rw [kept?, hget]; rfl)
    rw [get?, hkey, hget, Option.filter_some, if_pos hlive]
    rfl
  · intro hget
    obtain ⟨e, he, rfl⟩ := Option.map_eq_some_iff.1 hget
    obtain ⟨he, hlive⟩ := Option.filter_eq_some_iff.1 he
    refine List.mem_map_of_mem (List.mem_filter.2 ⟨?_, hlive⟩)
    exact List.mem_map_of_mem (SortedMap.mem_entries_iff.2 he)

theorem kept?_of_makeRoom (now : Span) (ks : List κ)
    (h : (c.makeRoom now ks).2.kept? l = some b) : c.kept? l = some b := by
  induction ks generalizing c with
  | nil => exact h
  | cons k ks ih =>
    unfold makeRoom at h
    split at h
    · exact h
    · split at h
      · exact ih h
      · have hold := ih h
        rw [kept?_forget] at hold
        split at hold
        · cases hold
        · exact hold

theorem kept?_of_set [Std.TransOrd κ] (ttl : Option Span)
    (h : (c.set now k a ttl).2.2.kept? l = some b) :
    (l = k ∧ b.value = a) ∨ c.kept? l = some b := by
  have hforget {c : Cache κ α} {e : Entry α} (h : (c.forget k e).kept? l = some b) :
      c.kept? l = some b := by
    rw [kept?_forget] at h
    split at h
    · cases h
    · exact h
  have hstore {c : Cache κ α} {e : Entry α} (he : e.value = a)
      (h : (c.store k e).kept? l = some b) : (l = k ∧ b.value = a) ∨ c.kept? l = some b := by
    rw [kept?_store] at h
    split at h
    · next hl =>
      cases h
      exact .inl ⟨hl, he⟩
    · exact .inr h
  unfold set at h
  dsimp only at h
  split at h
  · next old _ =>
    rcases hstore rfl h with hnew | hold
    · exact .inl hnew
    · exact .inr (hforget (e := old) hold)
  · refine (hstore rfl h).imp_right fun hold => ?_
    have hroom := kept?_of_makeRoom _ _ hold
    split at hroom
    · next old _ => exact hforget (e := old) hroom
    · exact hroom

end Cache

namespace Runaway

/--
The part of the query that the watch is for reads like the text of the watch.
-/
def Watch.Names (w : Watch) (q : Query) : Prop := q.convict w.target = some w.text

instance (w : Watch) (q : Query) : Decidable (w.Names q) :=
  inferInstanceAs (Decidable (q.convict w.target = some w.text))

namespace WatchList

variable {l : WatchList} {now : Span}

def live (l : WatchList) (now : Span) : List Watch := l.cache.live now

def Keyed (l : WatchList) : Prop := l.cache.Keyed Watch.key

theorem Keyed.touch (h : l.Keyed) (now : Span) (t : Touch) : (l.touch now t).Keyed := by
  intro key b hb
  cases t with
  | set w ttl =>
    rcases Cache.kept?_of_set ttl hb with ⟨rfl, hvalue⟩ | hold
    · rw [hvalue]
    · exact h key b hold
  | remove key' reason =>
    have hold : (l.cache.remove key' reason).2.2.kept? key = some b := hb
    rw [Cache.kept?_remove] at hold
    split at hold
    · cases hold
    · exact h key b hold
  | purge =>
    have hold : (l.cache.purge now).2.kept? key = some b := hb
    rw [Cache.kept?_purge] at hold
    exact h key b (Option.filter_eq_some_iff.1 hold).1

theorem Keyed.touchAll (h : l.Keyed) (now : Span) (ts : List Touch) : (l.touchAll now ts).Keyed := by
  unfold WatchList.touchAll
  apply List.foldlRecOn (motive := Keyed)
  · exact h
  · exact fun l hl t _ => hl.touch now t

theorem Keyed.watch?_eq_some (h : l.Keyed) {group text : String} {w : Watch}
    (hw : l.watch? now group text = some w) :
    w ∈ l.live now ∧ w.key = Watch.keyOf group text := by
  have hkept := hw
  rw [watch?_eq_kept?] at hkept
  obtain ⟨b, hb, rfl⟩ := Option.map_eq_some_iff.1 hkept
  have hkey := h _ b (Option.filter_eq_some_iff.1 hb).1
  refine ⟨?_, hkey⟩
  unfold live
  rw [Cache.Keyed.mem_live_iff h, hkey]
  exact hw

end WatchList

/--
The managers that a server may come to have. Whatever is no deed leaves the watch list alone.
-/
inductive Manager.Reached (s : Settings) : Manager → Prop
  | start : Reached s (.ofSettings s)
  | deed {d : Diary} (now : Now) (deed : Deed) (h : Reached s d.manager) :
    Reached s (d.step now deed).manager
  | aside {m m' : Manager} (h : Reached s m) (hlist : m'.list = m.list) : Reached s m'

namespace Manager.Reached

variable {s : Settings} {m : Manager}

theorem keyed (h : Reached s m) : m.list.Keyed := by
  induction h with
  | start => exact fun _ _ hkept => nomatch hkept
  | deed now deed _ ih =>
    rw [Diary.list_step]
    exact ih.touchAll _ _
  | aside _ hlist ih =>
    rw [hlist]
    exact ih

theorem run (s : Settings) (deeds : List (Now × Deed)) :
    Reached s ((Diary.ofSettings s).run deeds).manager := by
  unfold Diary.run
  apply List.foldlRecOn (motive := fun d : Diary => Reached s d.manager)
  · exact .start
  · exact fun d hd x _ => hd.deed x.1 x.2

end Manager.Reached

namespace Checker

variable {s : Settings} {m : Manager} {now : Now} {w : Watch}

/--
The watches that are found for the parts of the query, in the order in which they are looked for.
-/
def found (c : Checker) (m : Manager) (now : Now) : List (Target × Watch) :=
  targets.filterMap fun target => (c.query.convict target).bind fun text =>
    (m.watch? now c.query.group text).map (target, ·)

/--
What is answered about a query because of the watch that was found first.
-/
def answer : Option (Target × Watch) → Except Interruption (Option Hit)
  | none => .ok none
  | some (_, w) =>
    if w.action = .kill then .error .quarantined else .ok (some ⟨w.action, w.switchGroup, w.cause⟩)

theorem answer_eq_ok_none_iff {x : Option (Target × Watch)} : answer x = .ok none ↔ x = none := by
  unfold answer
  constructor
  · intro h
    split at h
    · rfl
    · split at h <;> cases h
  · rintro rfl
    rfl

theorem mem_targets {q : Query} {target : Target} {text : String}
    (h : q.convict target = some text) : target ∈ targets := by
  cases target with
  | none => cases h
  | exact | similar | plan => decide

theorem mem_found_iff {c : Checker} {x : Target × Watch} :
    x ∈ c.found m now ↔ ∃ text, c.query.convict x.1 = some text ∧
      m.watch? now c.query.group text = some x.2 := by
  unfold found
  rw [List.mem_filterMap]
  constructor
  · rintro ⟨target, _, hx⟩
    obtain ⟨text, htext, hx⟩ := Option.bind_eq_some_iff.1 hx
    obtain ⟨w, hw, rfl⟩ := Option.map_eq_some_iff.1 hx
    exact ⟨text, htext, hw⟩
  · rintro ⟨text, htext, hw⟩
    refine ⟨x.1, mem_targets htext, ?_⟩
    rw [htext, Option.bind_some, hw]
    rfl

theorem hit?_eq_found (c : Checker) (m : Manager) (now : Now) :
    c.hit? m now = (c.found m now).head?.map fun x => ⟨x.2.action, x.2.switchGroup, x.2.cause⟩ := by
  unfold hit? found
  induction targets with
  | nil => rfl
  | cons target ts ih =>
    rw [List.filterMap_cons, List.filterMap_cons]
    cases c.query.convict target with
    | none => exact ih
    | some text =>
      rw [Option.bind_some]
      dsimp only
      rw [List.findSome?_cons]
      unfold Manager.examine
      cases m.watch? now c.query.group text with
      | none => exact ih
      | some w => rfl

theorem beforeExecution_fst (c : Checker) (m : Manager) (now : Now) (moment : Moment) :
    (c.beforeExecution m now moment).1 = answer (c.found m now).head? := by
  unfold beforeExecution
  rw [hit?_eq_found]
  cases (c.found m now).head? with
  | none => rfl
  | some x => rfl

/--
A query hits the first watch that is found by its group and one of its texts. Every live watch of
the group that names the query is found, so that none is missed. What is found is live and has the
key that it was looked for by; if it is one of the group, it names the query just if the part that it
is for reads like the part that it was found by.
-/
theorem beforeExecution_eq_answer (h : Manager.Reached s m) (c : Checker) (now : Now)
    (moment : Moment) :
    (c.beforeExecution m now moment).1 = answer (c.found m now).head? ∧
      (∀ w ∈ m.list.live now.elapsed, w.group = c.query.group → w.Names c.query →
        (w.target, w) ∈ c.found m now) ∧
      (∀ x ∈ c.found m now, x.2 ∈ m.list.live now.elapsed ∧
        (∃ text, c.query.convict x.1 = some text ∧
          x.2.key = Watch.keyOf c.query.group text) ∧
        (x.2.group = c.query.group → c.query.convict x.1 = some x.2.text ∧
          (x.2.Names c.query ↔ c.query.convict x.2.target = c.query.convict x.1))) ∧
      ((∀ x ∈ c.found m now, x.2.group = c.query.group ∧ x.2.target = x.1) →
        (c.beforeExecution m now moment).1 ≠ .ok none →
        ∃ w ∈ m.list.live now.elapsed, w.Names c.query) := by
  have hfound : ∀ x ∈ c.found m now, x.2 ∈ m.list.live now.elapsed ∧
      (∃ text, c.query.convict x.1 = some text ∧ x.2.key = Watch.keyOf c.query.group text) ∧
      (x.2.group = c.query.group → c.query.convict x.1 = some x.2.text ∧
        (x.2.Names c.query ↔ c.query.convict x.2.target = c.query.convict x.1)) := by
    intro x hx
    obtain ⟨text, htext, hw⟩ := mem_found_iff.1 hx
    obtain ⟨hlive, hkey⟩ := h.keyed.watch?_eq_some hw
    refine ⟨hlive, ⟨text, htext, hkey⟩, fun hgroup => ?_⟩
    have hsame : x.2.text = text := by
      unfold Watch.key at hkey
      rw [hgroup] at hkey
      exact Watch.keyOf_inj_right hkey
    rw [hsame]
    refine ⟨htext, ?_⟩
    unfold Watch.Names
    rw [hsame, htext]
  refine ⟨beforeExecution_fst c m now moment, ?_, hfound, ?_⟩
  · intro w hw hgroup hnames
    refine mem_found_iff.2 ⟨w.text, hnames, ?_⟩
    rw [← hgroup]
    exact (Cache.Keyed.mem_live_iff h.keyed).1 hw
  · intro hown hhit
    rw [beforeExecution_fst, Ne, answer_eq_ok_none_iff] at hhit
    obtain ⟨x, hhead⟩ := Option.ne_none_iff_exists'.1 hhit
    have hx := List.mem_of_mem_head? hhead
    obtain ⟨hgroup, htarget⟩ := hown x hx
    obtain ⟨hlive, _, hnames⟩ := hfound x hx
    exact ⟨x.2, hlive, (hnames hgroup).2.2 (by rw [htarget])⟩

def markedDigest : List (Now × Deed) :=
  [(default, .mark {
    group := "g", text := "d1", target := .exact, action := .kill, switchGroup := ""
    duration := .zero, start := default, cause := "slow" })]

/--
A query whose SQL is the given one and whose digest reads like the text that was marked.
-/
def digested (sql : String) : Checker := .ofQuery ⟨"g", sql, "d1", ""⟩ none

theorem beforeExecution_markedDigest :
    let m := ((Diary.ofSettings .standard).run markedDigest).manager
    Manager.Reached .standard m ∧
      (((digested "d1").found m default).map (·.1) = [.exact, .similar]) ∧
      ((digested "d1").beforeExecution m default default).1 = .error .quarantined ∧
      ∀ w ∈ m.list.live default, w.group = "g" → w.Names (digested "d1").query →
        (w.target, w) ∈ (digested "d1").found m default := by
  intro m
  have h : Manager.Reached .standard m := .run _ _
  obtain ⟨hanswer, hall, -⟩ := beforeExecution_eq_answer h (digested "d1") default default
  have hhead : answer ((digested "d1").found m default).head? = .error .quarantined := by
    decide +kernel
  exact ⟨h, by decide +kernel, hanswer.trans hhead, hall⟩

theorem not_names_of_hit :
    ¬ ∀ (s : Settings) (m : Manager), Manager.Reached s m → ∀ (c : Checker) (now : Now)
      (moment : Moment), (c.beforeExecution m now moment).1 ≠ .ok none →
      ∃ w ∈ m.list.live now.elapsed, w.Names c.query := by
  intro h
  let m := ((Diary.ofSettings .standard).run markedDigest).manager
  have hfound : ((digested "select 1").found m default).head? ≠ none := by decide +kernel
  have hnone : ∀ w ∈ m.list.live default, ¬ w.Names (digested "select 1").query := by decide +kernel
  have hhit : ((digested "select 1").beforeExecution m default default).1 ≠ .ok none := by
    rw [beforeExecution_fst, Ne, answer_eq_ok_none_iff]
    exact hfound
  obtain ⟨w, hw, hnames⟩ := h .standard m (.run _ _) (digested "select 1") default default hhit
  exact hnone w hw hnames

end Checker

end Runaway

end Steward
