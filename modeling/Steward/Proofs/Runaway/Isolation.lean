import Mathlib.Data.List.Dedup
import Mathlib.Data.List.Perm.Subperm
import Steward.Proofs.Runaway.Population
import Steward.Proofs.Runaway.Shift

/-!
This module contains how far the watches of one group are from those of another. All groups share a
cache, and what a deed does to it depends on what is kept under the key of its watch only. So the
deeds of a group are of no consequence to a text of another one, as long as they do not share its
key.
-/

namespace Steward

universe u v

namespace Cache

variable {κ : Type u} {α : Type v} [Ord κ] {c : Cache κ α} {k : κ} {now : Span} {ks : List κ}

/--
A value that is kept in a cache, and when it expires.
-/
structure Kept (α : Type v) where
  value : α
  expiry : Option Span
deriving DecidableEq, Repr

def Kept.isExpired (a : Kept α) (now : Span) : Bool := a.expiry.any (· ≤ now)

def kept? (c : Cache κ α) (k : κ) : Option (Kept α) :=
  (c.entries.get? k).map fun e => ⟨e.value, e.expiry⟩

def Within (c : Cache κ α) (ks : List κ) : Prop := ∀ k, c.kept? k ≠ none → k ∈ ks

theorem get?_eq_kept? (c : Cache κ α) (now : Span) (k : κ) :
    c.get? now k = ((c.kept? k).filter fun a => !a.isExpired now).map (·.value) := by
  unfold get? kept?
  cases c.entries.get? k with
  | none => rfl
  | some e =>
    rw [Option.map_some, Option.filter_some, Option.filter_some]
    unfold Entry.isExpired Kept.isExpired
    split <;> rfl

theorem kept?_eq_none_iff : c.kept? k = none ↔ c.entries.get? k = none := Option.map_eq_none_iff

variable [DecidableEq κ] [Std.LawfulEqOrd κ]

theorem kept?_forget (c : Cache κ α) (k : κ) (e : Entry α) (l : κ) :
    (c.forget k e).kept? l = if l = k then none else c.kept? l := by
  unfold kept?
  rw [get?_forget]
  split <;> rfl

theorem kept?_remove (c : Cache κ α) (k : κ) (reason : Reason) (l : κ) :
    (c.remove k reason).2.2.kept? l = if l = k then none else c.kept? l := by
  unfold remove
  split
  · next hnone =>
    split
    · next hl => rw [hl, kept?_eq_none_iff.2 hnone]
    · rfl
  · exact kept?_forget _ _ _ _

theorem kept?_purgeKeys (c : Cache κ α) (ks : List κ) (l : κ) :
    (c.purgeKeys ks).2.kept? l = if l ∈ ks then none else c.kept? l := by
  induction ks generalizing c with
  | nil => rfl
  | cons k ks ih =>
    have hremove := kept?_remove c k .expired l
    refine (ih (c.remove k .expired).2.2).trans ?_
    rw [hremove]
    simp only [List.mem_cons]
    by_cases hmem : l ∈ ks
    · rw [if_pos hmem, if_pos (.inr hmem)]
    · rw [if_neg hmem]
      simp only [hmem, or_false]

theorem kept?_purge (c : Cache κ α) (now : Span) (l : κ) :
    (c.purge now).2.kept? l = (c.kept? l).filter fun a => !a.isExpired now := by
  refine (kept?_purgeKeys c _ l).trans ?_
  have hmem : l ∈ (c.entries.entries.filter fun e => e.2.isExpired now).map (·.1) ↔
      ∃ e, c.entries.get? l = some e ∧ e.isExpired now = true := by
    constructor
    · intro h
      obtain ⟨x, hx, rfl⟩ := List.mem_map.1 h
      obtain ⟨hx, hexpired⟩ := List.mem_filter.1 hx
      exact ⟨x.2, SortedMap.mem_entries_iff.1 hx, hexpired⟩
    · rintro ⟨e, he, hexpired⟩
      exact List.mem_map.2 ⟨(l, e), List.mem_filter.2 ⟨SortedMap.mem_entries_iff.2 he, hexpired⟩, rfl⟩
  cases hget : c.entries.get? l with
  | none =>
    rw [kept?_eq_none_iff.2 hget]
    split <;> rfl
  | some e =>
    have hkept : c.kept? l = some ⟨e.value, e.expiry⟩ := by
      unfold kept?
      rw [hget]
      rfl
    rw [hkept, Option.filter_some]
    by_cases hexpired : e.isExpired now = true
    · have hnot : (!(Kept.mk e.value e.expiry).isExpired now) = false := congrArg not hexpired
      rw [if_pos (hmem.2 ⟨e, hget, hexpired⟩), hnot]
      rfl
    · have hlive : (!(Kept.mk e.value e.expiry).isExpired now) = true := by
        simpa [Kept.isExpired, Entry.isExpired] using hexpired
      have hout : ¬ l ∈ (c.entries.entries.filter fun e => e.2.isExpired now).map (·.1) := by
        intro h
        obtain ⟨e', he', hexpired'⟩ := hmem.1 h
        cases hget.symm.trans he'
        exact hexpired hexpired'
      rw [if_neg hout, hlive]
      rfl

theorem Within.fits (h : c.Within ks) (hk : k ∈ ks) (hroom : ks.dedup.length ≤ c.capacity) :
    c.Fits k := by
  have hnodup : (c.entries.erase k).keys.Nodup := by
    refine List.pairwise_map.2 ((c.entries.erase k).ordered.imp fun {a b} hlt heq => ?_)
    rw [heq, Std.ReflOrd.compare_self] at hlt
    cases hlt
  have hsub : (k :: (c.entries.erase k).keys) ⊆ ks.dedup := by
    intro l hl
    rw [List.mem_dedup]
    cases List.mem_cons.1 hl with
    | inl hl => exact hl ▸ hk
    | inr hl =>
      apply h
      rw [Ne, kept?_eq_none_iff]
      have hget := SortedMap.mem_keys_iff.1 hl
      rw [SortedMap.get?_erase] at hget
      split at hget
      · exact absurd rfl hget
      · exact hget
  have hfresh : k ∉ (c.entries.erase k).keys := by
    rw [SortedMap.mem_keys_iff, SortedMap.get?_erase, if_pos rfl]
    exact fun h => h rfl
  have hlen := (List.subperm_of_subset (List.nodup_cons.2 ⟨hfresh, hnodup⟩) hsub).length_le
  have hsize : (c.entries.erase k).keys.length = (c.entries.erase k).size := List.length_map _
  rw [List.length_cons, hsize] at hlen
  unfold Fits room
  omega

theorem kept?_store [Std.TransOrd κ] (c : Cache κ α) (k : κ) (e : Entry α) (l : κ) :
    (c.store k e).kept? l = if l = k then some ⟨e.value, e.expiry⟩ else c.kept? l := by
  unfold kept? store
  rw [SortedMap.get?_insert]
  split <;> rfl

theorem kept?_set [Std.TransOrd κ] (h : c.Fits k) (now : Span) (a : α) (ttl : Option Span) (l : κ) :
    (c.set now k a ttl).2.2.kept? l = if l = k then some ⟨a, ttl.map now.add⟩ else c.kept? l := by
  have hforget (old : Entry α) (l : κ) (hl : l ≠ k) (c' : Cache κ α) :
      (c'.forget k old).kept? l = c'.kept? l := by rw [kept?_forget, if_neg hl]
  unfold set
  dsimp only
  split
  · unfold replace
    rw [kept?_store]
    split
    · rfl
    · next hl => exact hforget _ l hl _
  · unfold place
    dsimp only
    cases hget : c.entries.get? k with
    | some old =>
      have hroom : (({ c with lastSeq := c.lastSeq + 1 } : Cache κ α).forget k old).size <
          (({ c with lastSeq := c.lastSeq + 1 } : Cache κ α).forget k old).room := h
      dsimp only
      rw [makeRoom_of_room hroom, kept?_store]
      split
      · rfl
      · next hl => exact hforget _ l hl _
    | none =>
      have hroom : ({ c with lastSeq := c.lastSeq + 1 } : Cache κ α).size <
          ({ c with lastSeq := c.lastSeq + 1 } : Cache κ α).room := by
        unfold Fits at h
        rwa [erase_of_none hget] at h
      dsimp only
      rw [makeRoom_of_room hroom]
      exact kept?_store _ _ _ l

section Capacity

omit [DecidableEq κ] [Std.LawfulEqOrd κ]

theorem capacity_makeRoom (now : Span) (c : Cache κ α) (ks : List κ) :
    (c.makeRoom now ks).2.capacity = c.capacity := by
  induction ks generalizing c with
  | nil => rfl
  | cons k ks ih =>
    unfold makeRoom
    split
    · rfl
    · split
      · exact ih c
      · exact ih _

theorem capacity_set [Std.TransOrd κ] (c : Cache κ α) (now : Span) (k : κ) (a : α)
    (ttl : Option Span) : (c.set now k a ttl).2.2.capacity = c.capacity := by
  unfold set
  dsimp only
  split
  · rfl
  · unfold place
    dsimp only
    split
    · exact capacity_makeRoom _ _ _
    · exact capacity_makeRoom _ _ _

theorem capacity_remove (c : Cache κ α) (k : κ) (reason : Reason) :
    (c.remove k reason).2.2.capacity = c.capacity := by
  unfold remove
  split <;> rfl

theorem capacity_purgeKeys (c : Cache κ α) (ks : List κ) :
    (c.purgeKeys ks).2.capacity = c.capacity := by
  induction ks generalizing c with
  | nil => rfl
  | cons k ks ih => exact (ih _).trans (capacity_remove c k .expired)

end Capacity

end Cache

namespace Runaway

open Cache (Kept)

theorem Watch.keyOf_inj_right {group text text' : String}
    (h : Watch.keyOf group text = Watch.keyOf group text') : text = text' := by
  have hlist := congrArg String.toList h
  unfold Watch.keyOf at hlist
  simp only [String.toList_append] at hlist
  exact String.toList_inj.1 (List.append_cancel_left hlist)

theorem Watch.keyOf_inj_left {g h text text' : String} (hg : '/' ∉ g.toList) (hh : '/' ∉ h.toList)
    (hkey : Watch.keyOf h text = Watch.keyOf g text') : h = g := by
  have hlist := congrArg (fun s => s.toList.takeWhile (· != '/')) hkey
  have htake {name : String} (hname : '/' ∉ name.toList) (text : String) :
      (Watch.keyOf name text).toList.takeWhile (· != '/') = name.toList := by
    unfold Watch.keyOf
    have hsplit : (name ++ "/" ++ text).toList = name.toList ++ '/' :: text.toList := by
      simp [String.toList_append]
    rw [hsplit, List.takeWhile_append_of_pos]
    · simp
    · intro c hc
      simp only [bne_iff_ne, ne_eq]
      rintro rfl
      exact hname hc
  rw [htake hg, htake hh] at hlist
  exact String.toList_inj.1 hlist

/--
The group and the text that a deed is about, if it is about any.
-/
def Deed.subject? : Deed → Option (String × String)
  | .mark x => some (x.group, x.text)
  | .addRow w => some (w.group, w.text)
  | .addToList w _ _ => some (w.group, w.text)
  | .remove w => some (w.group, w.text)
  | .purge => none
  | .receive _ => none

def Deed.isAbout (deed : Deed) (group : String) : Bool := deed.subject?.any (·.1 == group)

def Deed.key? (deed : Deed) : Option String := deed.subject?.map fun u => Watch.keyOf u.1 u.2

theorem Deed.isAbout_iff {deed : Deed} {group : String} :
    deed.isAbout group = true ↔ ∃ text, deed.subject? = some (group, text) := by
  unfold Deed.isAbout
  constructor
  · intro h
    obtain ⟨⟨group', text⟩, hu, hgroup⟩ := (Option.any_eq_true _ _).1 h
    cases beq_iff_eq.1 hgroup
    exact ⟨text, hu⟩
  · rintro ⟨text, hu⟩
    rw [hu]
    exact beq_self_eq_true group

theorem Deed.key?_of_subject {deed : Deed} {group text : String}
    (h : deed.subject? = some (group, text)) : deed.key? = some (Watch.keyOf group text) := by
  unfold Deed.key?
  rw [h]
  rfl

/--
A deed about a text touches nothing but the key of the text, and the watch that it sets is one for
the text. Only a deed that is about none purges.
-/
def Deed.Makes (deed : Deed) : Touch → Prop
  | .set w _ => deed.subject? = some (w.group, w.text)
  | .remove key _ => deed.key? = some key
  | .purge => deed.key? = none

def Apart (group key : String) (deeds : List (Now × Deed)) : Prop :=
  ∀ x ∈ deeds, x.2.isAbout group → x.2.key? ≠ some key

instance (group key : String) (deeds : List (Now × Deed)) : Decidable (Apart group key deeds) :=
  List.decidableBAll _ _

theorem apart_of_no_slash {g h : String} (hg : '/' ∉ g.toList) (text : String)
    {deeds : List (Now × Deed)} (hslash : ∀ x ∈ deeds, ∀ u ∈ x.2.subject?, '/' ∉ u.1.toList)
    (hne : h ≠ g) : Apart h (Watch.keyOf g text) deeds := by
  intro x hx habout hkey
  obtain ⟨text', hsubject⟩ := Deed.isAbout_iff.1 habout
  rw [Deed.key?_of_subject hsubject] at hkey
  exact hne (Watch.keyOf_inj_left hg (hslash x hx _ hsubject) (Option.some.inj hkey))

def Touch.mend (now : Span) (key : String) (a : Option (Kept Watch)) : Touch → Option (Kept Watch)
  | .set w ttl => if key = w.key then some ⟨w, ttl.map now.add⟩ else a
  | .remove key' _ => if key = key' then none else a
  | .purge => a.filter fun a => !a.isExpired now

def Touch.mendAll (now : Span) (key : String) (a : Option (Kept Watch)) (ts : List Touch) :
    Option (Kept Watch) := ts.foldl (mend now key) a

variable {l : WatchList} {now : Span} {w : Watch} {t : Touch} {ts : List Touch} {deed : Deed}
  {key : String} {ks : List String} {a : Option (Kept Watch)} {b : Kept Watch}

theorem Deed.Makes.key? (h : deed.Makes (.set w ttl)) : deed.key? = some w.key :=
  Deed.key?_of_subject h

theorem Touch.mendAll_of_ne {key' : String} (h : ∀ t ∈ ts, deed.Makes t)
    (hdeed : deed.key? = some key') (hne : key' ≠ key) (now : Span) (a : Option (Kept Watch)) :
    mendAll now key a ts = a := by
  unfold mendAll
  induction ts with
  | nil => rfl
  | cons t ts ih =>
    obtain ⟨ht, hts⟩ := List.forall_mem_cons.1 h
    have hmend : t.mend now key a = a := by
      cases t with
      | set w ttl =>
        cases hdeed.symm.trans ht.key?
        exact if_neg hne.symm
      | remove key'' reason =>
        cases hdeed.symm.trans ht
        exact if_neg hne.symm
      | purge => cases hdeed.symm.trans ht
    rw [List.foldl_cons, hmend]
    exact ih hts

theorem Touch.mendAll_eq_some (h : mendAll now key a ts = some b) :
    a = some b ∨ b.value.key = key ∧ ∃ ttl, .set b.value ttl ∈ ts := by
  unfold mendAll at h
  induction ts generalizing a with
  | nil => exact .inl h
  | cons t ts ih =>
    rcases ih h with hmend | ⟨hkey, ttl, hmem⟩
    · cases t with
      | set w ttl =>
        dsimp only [mend] at hmend
        split at hmend
        · next hkey =>
          cases hmend
          exact .inr ⟨hkey.symm, ttl, List.mem_cons_self⟩
        · exact .inl hmend
      | remove key' reason =>
        dsimp only [mend] at hmend
        split at hmend
        · cases hmend
        · exact .inl hmend
      | purge => exact .inl (Option.filter_eq_some_iff.1 hmend).1
    · exact .inr ⟨hkey, ttl, List.mem_cons_of_mem _ hmem⟩

namespace WatchList

def kept? (l : WatchList) (key : String) : Option (Kept Watch) := l.cache.kept? key

structure Roomy (l : WatchList) (ks : List String) : Prop where
  within : l.cache.Within ks
  capacity : ks.dedup.length ≤ l.cache.capacity

theorem watch?_eq_kept? (l : WatchList) (now : Span) (group text : String) :
    l.watch? now group text = ((l.kept? (Watch.keyOf group text)).filter
      fun a => !a.isExpired now).map (·.value) := Cache.get?_eq_kept? _ _ _

theorem get?_congr {l' : WatchList} (h : l.kept? key = l'.kept? key) (now : Span) :
    l.get? now key = l'.get? now key := by
  have hl : l.get? now key = _ := Cache.get?_eq_kept? _ _ _
  have hl' : l'.get? now key = _ := Cache.get?_eq_kept? _ _ _
  have hkept : l.cache.kept? key = l'.cache.kept? key := h
  rw [hl, hl', hkept]

theorem kept?_touch (h : l.Roomy ks) (ht : deed.Makes t) (hks : ∀ k, deed.key? = some k → k ∈ ks)
    (now : Span) (key : String) :
    (l.touch now t).kept? key = t.mend now key (l.kept? key) := by
  cases t with
  | set w ttl => exact Cache.kept?_set (h.within.fits (hks _ ht.key?) h.capacity) now w ttl key
  | remove key' reason => exact Cache.kept?_remove l.cache key' reason key
  | purge => exact Cache.kept?_purge l.cache now key

theorem Roomy.touch (h : l.Roomy ks) (ht : deed.Makes t) (hks : ∀ k, deed.key? = some k → k ∈ ks)
    (now : Span) : (l.touch now t).Roomy ks := by
  refine ⟨fun key hkept => ?_, ?_⟩
  · have htouch := kept?_touch h ht hks now key
    obtain ⟨b, hb⟩ := Option.ne_none_iff_exists'.1 hkept
    have hmend : Touch.mendAll now key (l.kept? key) [t] = some b := htouch.symm.trans hb
    rcases Touch.mendAll_eq_some hmend with hold | ⟨rfl, ttl, hmem⟩
    · apply h.within
      exact fun hnone => nomatch hold.symm.trans hnone
    · cases List.mem_singleton.1 hmem
      exact hks _ ht.key?
  · have hcapacity : (l.touch now t).cache.capacity = l.cache.capacity := by
      cases t with
      | set w ttl => exact Cache.capacity_set _ _ _ _ _
      | remove key reason => exact Cache.capacity_remove _ _ _
      | purge => exact Cache.capacity_purgeKeys _ _
    rw [hcapacity]
    exact h.capacity

theorem kept?_touchAll (h : l.Roomy ks) (hts : ∀ t ∈ ts, deed.Makes t)
    (hks : ∀ k, deed.key? = some k → k ∈ ks) (now : Span) :
    (l.touchAll now ts).Roomy ks ∧
      ∀ key, (l.touchAll now ts).kept? key = Touch.mendAll now key (l.kept? key) ts := by
  induction ts generalizing l with
  | nil => exact ⟨h, fun key => rfl⟩
  | cons t ts ih =>
    obtain ⟨ht, hts⟩ := List.forall_mem_cons.1 hts
    obtain ⟨hroomy, hkept⟩ := ih (h.touch ht hks now) hts
    refine ⟨hroomy, fun key => ?_⟩
    have htouch := kept?_touch h ht hks now key
    exact (hkept key).trans (congrArg (Touch.mendAll now key · ts) htouch)

end WatchList

namespace Manager

variable {m m' : Manager} {now : Now}

theorem makes_touches (m : Manager) (now : Now) (deed : Deed) :
    ∀ t ∈ m.touches now deed, deed.Makes t := by
  have hset (deed : Deed) (w : Watch) (ttl : Option Span)
      (hdeed : deed.subject? = some (w.group, w.text)) :
      (∀ t ∈ [Touch.set w ttl], deed.Makes t) ∧
        ∀ t ∈ [Touch.remove w.key .superseded, .set w ttl], deed.Makes t := by
    have hmakes : deed.Makes (.set w ttl) := hdeed
    exact ⟨List.forall_mem_singleton.2 hmakes,
      List.forall_mem_cons.2 ⟨hmakes.key?, List.forall_mem_singleton.2 hmakes⟩⟩
  have hputs (deed : Deed) (w : Watch) (ttl : Option Span) (force : Bool)
      (hdeed : deed.subject? = some (w.group, w.text)) :
      ∀ t ∈ m.list.puts now.elapsed w ttl force, deed.Makes t := by
    unfold WatchList.puts
    split
    · split
      · exact fun t ht => absurd ht List.not_mem_nil
      · exact (hset deed w ttl hdeed).2
    · split
      · exact (hset deed w ttl hdeed).1
      · split
        · exact fun t ht => absurd ht List.not_mem_nil
        · exact (hset deed w ttl hdeed).1
  unfold touches
  cases deed with
  | mark mark =>
    dsimp only
    split
    · exact (hset _ (m.watchOf mark) _ rfl).2
    · exact (hset _ (m.watchOf mark) _ rfl).1
  | addRow w =>
    dsimp only
    split
    · exact fun t ht => absurd ht List.not_mem_nil
    · exact hputs _ w _ _ rfl
    · exact hputs _ w _ _ rfl
  | addToList w ttl force => exact hputs _ w ttl force rfl
  | remove w =>
    dsimp only
    split
    · exact List.forall_mem_singleton.2 rfl
    · exact fun t ht => absurd ht List.not_mem_nil
  | purge => exact List.forall_mem_singleton.2 rfl
  | receive count => exact fun t ht => absurd ht List.not_mem_nil

theorem touches_congr (hs : m.settings = m'.settings)
    (h : ∀ key, deed.key? = some key → m.list.kept? key = m'.list.kept? key) (now : Now) :
    m.touches now deed = m'.touches now deed := by
  have hputs (w : Watch) (ttl : Option Span) (force : Bool) (hw : deed.key? = some w.key) :
      m.list.puts now.elapsed w ttl force = m'.list.puts now.elapsed w ttl force := by
    unfold WatchList.puts
    rw [WatchList.get?_congr (h _ hw)]
  unfold touches
  cases deed with
  | mark mark =>
    have hwatch : m.watchOf mark = m'.watchOf mark := by
      unfold watchOf
      rw [hs]
    dsimp only
    rw [hwatch, WatchList.get?_congr (h (m'.watchOf mark).key rfl)]
  | addRow w =>
    dsimp only
    rw [hputs w none _ rfl]
    split
    · rfl
    · rfl
    · exact hputs w _ _ rfl
  | addToList w ttl force => exact hputs w ttl force rfl
  | remove w =>
    dsimp only
    rw [WatchList.get?_congr (h w.key rfl)]
  | purge => rfl
  | receive count => rfl

theorem retire_settings (m : Manager) (ws : List Watch) : (m.retire ws).settings = m.settings := by
  unfold retire
  induction ws generalizing m with
  | nil => rfl
  | cons w ws ih =>
    have hone : (m.retireOne w).settings = m.settings := by
      unfold retireOne
      split
      · split <;> rfl
      · rfl
    exact (ih (m.retireOne w)).trans hone

end Manager

namespace Diary

variable {d d' : Diary} {deeds : List (Now × Deed)}

theorem settings_step (d : Diary) (now : Now) (deed : Deed) :
    (d.step now deed).manager.settings = d.manager.settings := by
  have hkeep (r : List Watch × WatchList) : (d.manager.keep r).settings = d.manager.settings :=
    Manager.retire_settings _ _
  cases deed with
  | mark mark =>
    have hmark : (d.manager.markQuarantine now mark).settings = d.manager.settings := by
      unfold Manager.markQuarantine
      dsimp only
      split
      · exact hkeep _
      · exact hkeep _
    exact hmark
  | addRow w => exact hkeep _
  | addToList w ttl force => exact hkeep _
  | remove w => exact hkeep _
  | purge => exact hkeep _
  | receive count => rfl

theorem kept?_step (h : d.manager.list.Roomy ks) (now : Now)
    (hks : ∀ k, deed.key? = some k → k ∈ ks) :
    (d.step now deed).manager.list.Roomy ks ∧
      ∀ key, (d.step now deed).manager.list.kept? key = Touch.mendAll now.elapsed key
        (d.manager.list.kept? key) (d.manager.touches now deed) := by
  rw [list_step]
  exact WatchList.kept?_touchAll h (Manager.makes_touches _ _ _) hks _

/--
Two diaries have the same under a key, and there is room in both lists.
-/
structure Alike (ks : List String) (key : String) (d d' : Diary) : Prop where
  settings : d.manager.settings = d'.manager.settings
  kept : d.manager.list.kept? key = d'.manager.list.kept? key
  left : d.manager.list.Roomy ks
  right : d'.manager.list.Roomy ks

theorem Alike.step (h : Alike ks key d d') (hks : ∀ k, deed.key? = some k → k ∈ ks) (now : Now) :
    Alike ks key (d.step now deed) (d'.step now deed) := by
  obtain ⟨hleft, hkept⟩ := kept?_step h.left now hks
  obtain ⟨hright, hkept'⟩ := kept?_step h.right now hks
  refine ⟨?_, ?_, hleft, hright⟩
  · rw [settings_step, settings_step, h.settings]
  · rw [hkept, hkept']
    -- If the deed has another key, the touches may differ, but none of them is to this key.
    by_cases hother : ∃ key', deed.key? = some key' ∧ key' ≠ key
    · obtain ⟨key', hdeed, hne⟩ := hother
      rw [Touch.mendAll_of_ne (Manager.makes_touches _ _ _) hdeed hne,
        Touch.mendAll_of_ne (Manager.makes_touches _ _ _) hdeed hne, h.kept]
    · have hsame : d.manager.touches now deed = d'.manager.touches now deed := by
        apply Manager.touches_congr h.settings
        intro key' hdeed
        rw [Decidable.not_not.1 fun hne => hother ⟨key', hdeed, hne⟩]
        exact h.kept
      rw [h.kept, hsame]

theorem Alike.skip {key' : String} (h : Alike ks key d d') (hdeed : deed.key? = some key')
    (hne : key' ≠ key) (hks : key' ∈ ks) (now : Now) : Alike ks key (d.step now deed) d' := by
  have hown : ∀ k, deed.key? = some k → k ∈ ks := by
    intro k hk
    cases hdeed.symm.trans hk
    exact hks
  obtain ⟨hleft, hkept⟩ := kept?_step h.left now hown
  refine ⟨(settings_step _ _ _).trans h.settings, ?_, hleft, h.right⟩
  rw [hkept, Touch.mendAll_of_ne (Manager.makes_touches _ _ _) hdeed hne, h.kept]

theorem Alike.run {p : Now × Deed → Bool} (h : Alike ks key d d')
    (hks : ∀ x ∈ deeds, ∀ k, x.2.key? = some k → k ∈ ks)
    (hp : ∀ x ∈ deeds, p x = false → ∃ k, x.2.key? = some k ∧ k ≠ key) :
    Alike ks key (d.run deeds) (d'.run (deeds.filter p)) := by
  unfold Diary.run
  induction deeds generalizing d d' with
  | nil => exact h
  | cons x deeds ih =>
    obtain ⟨hx, hks⟩ := List.forall_mem_cons.1 hks
    obtain ⟨hpx, hp⟩ := List.forall_mem_cons.1 hp
    cases hcase : p x with
    | true =>
      rw [List.filter_cons_of_pos hcase]
      exact ih (h.step hx x.1) hks hp
    | false =>
      rw [List.filter_cons_of_neg (Bool.eq_false_iff.1 hcase)]
      obtain ⟨k, hk, hne⟩ := hpx hcase
      exact ih (h.skip hk hne (hx k hk) x.1) hks hp

def Sourced (deeds : List (Now × Deed)) (d : Diary) : Prop :=
  ∀ key b, d.manager.list.kept? key = some b →
    b.value.key = key ∧ ∃ x ∈ deeds, x.2.subject? = some (b.value.group, b.value.text)

theorem Sourced.step {x : Now × Deed} (h : d.Sourced deeds) (hroom : d.manager.list.Roomy ks)
    (hx : x ∈ deeds) (hks : ∀ k, x.2.key? = some k → k ∈ ks) :
    (d.step x.1 x.2).Sourced deeds := by
  intro key b hb
  rw [(kept?_step hroom x.1 hks).2] at hb
  rcases Touch.mendAll_eq_some hb with hold | ⟨hkey, ttl, hmem⟩
  · exact h key b hold
  · exact ⟨hkey, x, hx, Manager.makes_touches _ _ _ _ hmem⟩

def keysOf (deeds : List (Now × Deed)) : List String := deeds.filterMap (·.2.key?)

theorem mem_keysOf {x : Now × Deed} {k : String} (hx : x ∈ deeds) (hk : x.2.key? = some k) :
    k ∈ keysOf deeds := List.mem_filterMap.2 ⟨x, hx, hk⟩

theorem roomy_ofSettings {s : Settings} (h : ks.dedup.length ≤ s.watchCapacity) :
    (ofSettings s).manager.list.Roomy ks := ⟨fun _ hkept => absurd rfl hkept, h⟩

theorem sourced_run {s : Settings} (h : (keysOf deeds).dedup.length ≤ s.watchCapacity) :
    ((ofSettings s).run deeds).Sourced deeds := by
  have hrun : ((ofSettings s).run deeds).manager.list.Roomy (keysOf deeds) ∧
      ((ofSettings s).run deeds).Sourced deeds := by
    unfold run
    apply List.foldlRecOn (motive := fun d : Diary => d.manager.list.Roomy (keysOf deeds) ∧ d.Sourced deeds)
    · exact ⟨roomy_ofSettings h, fun key b hb => nomatch hb⟩
    · rintro d ⟨hroom, hsourced⟩ x hx
      have hks : ∀ k, x.2.key? = some k → k ∈ keysOf deeds := fun k hk => mem_keysOf hx hk
      exact ⟨(kept?_step hroom x.1 hks).1, hsourced.step hroom hx hks⟩
  exact hrun.2

section Run

variable {s : Settings} {g h text : String} {now : Now} {w : Watch}

theorem watch?_eq_kept? (m : Manager) (now : Now) (g text : String) : m.watch? now g text =
    ((m.list.kept? (Watch.keyOf g text)).filter fun a => !a.isExpired now.elapsed).map (·.value) :=
  WatchList.watch?_eq_kept? _ _ _ _

theorem watch?_filter_isAbout (hroom : (keysOf deeds).dedup.length ≤ s.watchCapacity)
    (hapart : Apart h (Watch.keyOf g text) deeds) :
    ((ofSettings s).run deeds).manager.watch? now g text =
      ((ofSettings s).run (deeds.filter fun x => !x.2.isAbout h)).manager.watch? now g text := by
  have hstart : Alike (keysOf deeds) (Watch.keyOf g text) (ofSettings s) (ofSettings s) :=
    ⟨rfl, rfl, roomy_ofSettings hroom, roomy_ofSettings hroom⟩
  have halike := hstart.run (p := fun x => !x.2.isAbout h) (fun x hx k hk => mem_keysOf hx hk) (by
    intro x hx hp
    have habout : x.2.isAbout h = true := by simpa using hp
    obtain ⟨text', hsubject⟩ := Deed.isAbout_iff.1 habout
    have hkey := Deed.key?_of_subject hsubject
    exact ⟨_, hkey, fun heq => hapart x hx habout (hkey.trans (congrArg some heq))⟩)
  rw [watch?_eq_kept?, watch?_eq_kept?, halike.kept]

theorem source_of_watch? (hroom : (keysOf deeds).dedup.length ≤ s.watchCapacity)
    (hapart : ∀ group, group ≠ g → Apart group (Watch.keyOf g text) deeds)
    (hw : ((ofSettings s).run deeds).manager.watch? now g text = some w) :
    w.group = g ∧ w.text = text ∧ ∃ x ∈ deeds, x.2.subject? = some (g, text) := by
  rw [watch?_eq_kept?] at hw
  obtain ⟨b, hb, rfl⟩ := Option.map_eq_some_iff.1 hw
  obtain ⟨hkey, x, hx, hsubject⟩ := sourced_run hroom _ b (Option.filter_eq_some_iff.1 hb).1
  have hgroup : b.value.group = g := by
    by_contra hne
    apply hapart _ hne x hx (Deed.isAbout_iff.2 ⟨_, hsubject⟩)
    exact (Deed.key?_of_subject hsubject).trans (congrArg some hkey)
  have htext : b.value.text = text := by
    unfold Watch.key at hkey
    rw [hgroup] at hkey
    exact Watch.keyOf_inj_right hkey
  rw [hgroup, htext] at hsubject
  exact ⟨hgroup, htext, x, hx, hsubject⟩

theorem examine_congr {m m' : Manager} (h : m.watch? now g text = m'.watch? now g text) :
    m.examine now g text = m'.examine now g text := by
  unfold Manager.examine
  rw [h]

/--
Groups are isolated if none of them has a slash in its name.
-/
theorem isolated_of_no_slash (hne : h ≠ g) (hg : '/' ∉ g.toList)
    (hslash : ∀ x ∈ deeds, ∀ u ∈ x.2.subject?, '/' ∉ u.1.toList)
    (hroom : (keysOf deeds).dedup.length ≤ s.watchCapacity) :
    let m := ((ofSettings s).run deeds).manager
    let m' := ((ofSettings s).run (deeds.filter fun x => !x.2.isAbout h)).manager
    m.watch? now g text = m'.watch? now g text ∧ m.examine now g text = m'.examine now g text ∧
      ∀ w, m.watch? now g text = some w →
        w.group = g ∧ w.text = text ∧ ∃ x ∈ deeds, x.2.subject? = some (g, text) := by
  intro m m'
  have hapart (group : String) (hne : group ≠ g) : Apart group (Watch.keyOf g text) deeds :=
    apart_of_no_slash hg text hslash hne
  have hsame : m.watch? now g text = m'.watch? now g text :=
    watch?_filter_isAbout hroom (hapart h hne)
  exact ⟨hsame, examine_congr hsame, fun w hw => source_of_watch? hroom hapart hw⟩

end Run

end Diary

end Runaway

end Steward
