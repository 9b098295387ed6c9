import Steward.Sql.Desk

/-!
This module contains the dialogues that change a state only as a relation allows it, whatever answers
come and whatever others make of the state while they wait, and what remains of a desk where only such
dialogues are held, but for those under one label.
-/

namespace Steward.Sql

universe u

namespace Dialogue

variable {σ : Type} {α β : Type u} {R : σ → σ → Prop} {d : Dialogue σ α} {s : σ}

/--
From the given state on the dialogue makes only allowed changes. After an answer it may find any
state.
-/
def Within (R : σ → σ → Prop) : Dialogue σ α → σ → Prop
  | .done _, _ => True
  | .look k, s => ∀ now, (k now s).Within R s
  | .store s' next, s => R s s' ∧ next.Within R s'
  | .acquire k, s => ∀ r, (k r).Within R s
  | .send _ k, _ => ∀ r s, (k r).Within R s
  | .release next, s => next.Within R s

def Keeps (R : σ → σ → Prop) (d : Dialogue σ α) : Prop := ∀ s, d.Within R s

theorem Within.bind {f : α → Dialogue σ β} (h : d.Within R s) (hf : ∀ a, (f a).Keeps R) :
    (d.bind f).Within R s := by
  induction d generalizing s with
  | done a => exact hf a s
  | look k ih => exact fun now => ih now s (h now)
  | store s' next ih => exact ⟨h.1, ih h.2⟩
  | acquire k ih => exact fun r => ih r (h r)
  | send st k ih => exact fun r s => ih r (h r s)
  | release next ih => exact ih h

theorem keeps_done (a : α) : Keeps R (.done a) := fun _ => trivial

theorem Keeps.bind {f : α → Dialogue σ β} (h : d.Keeps R) (hf : ∀ a, (f a).Keeps R) :
    (d.bind f).Keeps R := fun s => (h s).bind hf

theorem keeps_send {st : Statement} {k : Except Trouble Reply → Dialogue σ α}
    (h : ∀ r, (k r).Keeps R) : Keeps R (.send st k) := fun _ => h

theorem keeps_acquire {k : Except Trouble Unit → Dialogue σ α} (h : ∀ r, (k r).Keeps R) :
    Keeps R (.acquire k) := fun s r => h r s

theorem keeps_exec (st : Statement) : (exec st : Dialogue σ (Except Trouble Reply)).Keeps R :=
  keeps_acquire fun session => by
    cases session with
    | error t => exact keeps_done _
    | ok u => exact keeps_send fun r s => keeps_done (R := R) r s

theorem keeps_update {α : Type} {f : Now → σ → α × σ} (h : ∀ now s, R s (f now s).2) :
    (update f).Keeps R := fun s now => ⟨h now s, trivial⟩

theorem Within.advance (hrefl : ∀ s, R s s) (htrans : ∀ s₁ s₂ s₃, R s₁ s₂ → R s₂ s₃ → R s₁ s₃)
    (h : d.Within R s) (now : Now) (p : Pool) : R s (d.advance now s p).2.1 ∧
      ∀ w, (d.advance now s p).1 = .waiting w → ∀ r, (w.k r).Keeps R := by
  induction d generalizing s p with
  | done a => exact ⟨hrefl s, fun _ hw => by cases hw⟩
  | look k ih => exact ih now s (h now) p
  | store s' next ih =>
    obtain ⟨hstate, hwait⟩ := ih h.2 p
    exact ⟨htrans _ _ _ h.1 hstate, hwait⟩
  | acquire k ih => exact ih _ (h _) _
  | send st k ih =>
    rw [advance]
    dsimp only
    split
    · exact ih _ (h _ s) _
    · -- It waits, and goes on in whatever state there will be.
      refine ⟨hrefl s, fun w hw => ?_⟩
      cases hw
      exact h
  | release next ih => exact ih h _

end Dialogue

def Held.Keeps {σ α : Type} (R : σ → σ → Prop) : Held σ α → Prop
  | .fresh d => d.Keeps R
  | .waiting w => ∀ r, (w.k r).Keeps R

namespace Desk

variable {σ ι τ α : Type} [DecidableEq ι] {R : σ → σ → Prop} {me who : ι} {d d' d'' : Desk σ ι τ α}

/--
All dialogues at the desk make only allowed changes, but for what is held under one label.
-/
def Attended (R : σ → σ → Prop) (me : ι) (d : Desk σ ι τ α) : Prop :=
  ∀ x ∈ d.held, x.1 ≠ me → x.2.Keeps R

/--
What became of a desk has nothing to do with a label: the state changed as it is allowed, and what is
held under the label is still held.
-/
structure Leaves (R : σ → σ → Prop) (me : ι) (d d' : Desk σ ι τ α) : Prop where
  state : R d.state d'.state
  held : d'.held.lookup me = d.held.lookup me
  attended : d.Attended R me → d'.Attended R me

theorem Leaves.trans (htrans : ∀ s₁ s₂ s₃, R s₁ s₂ → R s₂ s₃ → R s₁ s₃) (h : d.Leaves R me d')
    (h' : d'.Leaves R me d'') : d.Leaves R me d'' where
  state := htrans _ _ _ h.state h'.state
  held := h'.held.trans h.held
  attended hd := h'.attended (h.attended hd)

theorem leaves_of_held (hstate : R d.state d'.state) (hheld : d'.held = d.held) :
    d.Leaves R me d' where
  state := hstate
  held := by rw [hheld]
  attended hd := by
    unfold Attended
    rw [hheld]
    exact hd

theorem lookup_cons_of_ne (hne : who ≠ me) (h : Held σ α) (hs : List (ι × Held σ α)) :
    ((who, h) :: hs).lookup me = hs.lookup me := by
  rw [List.lookup_cons, beq_false_of_ne (Ne.symm hne)]

theorem leaves_cons (hne : who ≠ me) {h : Held σ α} (hkeeps : h.Keeps R)
    (hstate : R d.state d'.state) (hheld : d'.held = (who, h) :: d.held) : d.Leaves R me d' where
  state := hstate
  held := by rw [hheld, lookup_cons_of_ne hne]
  attended hd := by
    unfold Attended
    rw [hheld]
    exact List.forall_mem_cons.2 ⟨fun _ => hkeeps, hd⟩

theorem leaves_spawn (hrefl : ∀ s, R s s) {label : Nat → ι} (hne : label d.spawned ≠ me)
    {t : Dialogue σ α} (ht : t.Keeps R) : d.Leaves R me (d.spawn label t) :=
  leaves_cons (h := .fresh t) hne ht (hrefl d.state) rfl

theorem leaves_filter (hrefl : ∀ s, R s s) (hne : who ≠ me) :
    d.Leaves R me { d with held := d.held.filter (·.1 ≠ who) } where
  state := hrefl d.state
  held := by
    dsimp only
    induction d.held with
    | nil => rfl
    | cons x hs ih =>
      obtain ⟨label, h⟩ := x
      by_cases hme : label = me
      · subst hme
        simp [Ne.symm hne]
      · rw [lookup_cons_of_ne hme, List.filter_cons]
        split
        · rw [lookup_cons_of_ne hme, ih]
        · exact ih
  attended hd := fun x hx hne => hd x (List.mem_filter.1 hx).1 hne

theorem leaves_keep (hne : who ≠ me) {x : Dialogue.Standing σ α × σ × Pool}
    (h : R d.state x.2.1 ∧ ∀ w, x.1 = .waiting w → ∀ r, (w.k r).Keeps R) :
    d.Leaves R me (keep who (d.put x)).2 := by
  obtain ⟨standing, s, p⟩ := x
  cases standing with
  | ended a => exact leaves_of_held h.1 rfl
  | waiting w => exact leaves_cons (h := .waiting w) hne (h.2 w rfl) h.1 rfl

omit [DecidableEq ι] in
theorem Attended.keep (h : d.Attended R me) (x : Dialogue.Standing σ α × σ × Pool) :
    (keep me (d.put x)).2.Attended R me := by
  -- What is held under the label itself does not matter.
  obtain ⟨standing, s, p⟩ := x
  cases standing with
  | ended a => exact h
  | waiting w => exact List.forall_mem_cons.2 ⟨fun hne => absurd rfl hne, h⟩

omit [DecidableEq ι] in
theorem Attended.begin (h : d.Attended R me) (t : Dialogue σ α) : (d.begin me t).2.Attended R me :=
  h.keep _

theorem Attended.proceed (h : d.Attended R me) {r : Option α × Desk σ ι τ α}
    (hr : d.proceed? me = some r) : r.2.Attended R me := by
  have hothers : ({ d with held := d.held.filter (·.1 ≠ me) } : Desk σ ι τ α).Attended R me :=
    fun x hx => h x (List.mem_filter.1 hx).1
  unfold proceed? at hr
  dsimp only at hr
  split at hr
  · cases hr
  · cases hr
    exact hothers.keep _
  · split at hr
    · cases hr
      exact hothers.keep _
    · cases hr

section Preorder

variable (hrefl : ∀ s, R s s) (htrans : ∀ s₁ s₂ s₃, R s₁ s₂ → R s₂ s₃ → R s₁ s₃)
include hrefl htrans

theorem leaves_begin (hne : who ≠ me) {t : Dialogue σ α} (ht : t.Keeps R) :
    d.Leaves R me (d.begin who t).2 :=
  leaves_keep hne ((ht d.state).advance hrefl htrans d.now d.pool)

theorem leaves_proceed (hne : who ≠ me) (hd : d.Attended R me) {r : Option α × Desk σ ι τ α}
    (hr : d.proceed? who = some r) : d.Leaves R me r.2 := by
  unfold proceed? at hr
  dsimp only at hr
  have hothers : d.Leaves R me { d with held := d.held.filter (·.1 ≠ who) } :=
    leaves_filter hrefl hne
  cases hheld : d.held.lookup who with
  | none =>
    rw [hheld] at hr
    cases hr
  | some h =>
    rw [hheld] at hr
    have hkeeps : h.Keeps R := by
      obtain ⟨before, after, hsplit, _⟩ := List.lookup_eq_some_iff.1 hheld
      exact hd (who, h) (by rw [hsplit]; simp) hne
    cases h with
    | fresh t =>
      cases hr
      exact hothers.trans htrans (leaves_begin hrefl htrans hne hkeeps)
    | waiting w =>
      dsimp only at hr
      split at hr
      · cases hr
        exact hothers.trans htrans
          (leaves_keep hne ((hkeeps _ d.state).advance hrefl htrans d.now _))
      · cases hr

end Preorder

end Desk

end Steward.Sql
