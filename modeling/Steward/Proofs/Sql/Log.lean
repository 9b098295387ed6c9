import Steward.Sql.Dialogue

/-!
This module contains the runs of a dialogue by what they wrote into a log: the statements that were
sent, with the answers. While a dialogue waits, others may change the state. A dialogue can also be
held with a service, which has something behind it that the statements are about. A service may refuse
a session, and it may let a statement fail.
-/

namespace Steward.Sql

universe u

abbrev Log := List (Statement × Except Trouble Reply)

namespace Dialogue

variable {σ : Type} {α β : Type u} {others : σ → σ → Prop} {s s' : σ} {log : Log} {a : α} {b : β}

/--
A dialogue that starts in one state comes to its end in another one, with a log and a result. Any
answer may come, and no session or every session may be had. `others` is what may become of the state
while it waits.
-/
inductive Goes (others : σ → σ → Prop) : Dialogue σ α → σ → Log → α → σ → Prop
  | done (a : α) (s : σ) : Goes others (.done a) s [] a s
  | look {k : Now → σ → Dialogue σ α} {s s' : σ} {log : Log} {a : α} (now : Now)
    (h : Goes others (k now s) s log a s') : Goes others (.look k) s log a s'
  | store {next : Dialogue σ α} {s s₁ s' : σ} {log : Log} {a : α}
    (h : Goes others next s₁ log a s') : Goes others (.store s₁ next) s log a s'
  | acquire {k : Except Trouble Unit → Dialogue σ α} {s s₁ s' : σ} {log : Log} {a : α}
    (r : Except Trouble Unit) (hs : others s s₁) (h : Goes others (k r) s₁ log a s') :
    Goes others (.acquire k) s log a s'
  | send {st : Statement} {k : Except Trouble Reply → Dialogue σ α} {s s₁ s' : σ} {log : Log} {a : α}
    (r : Except Trouble Reply) (hs : others s s₁) (h : Goes others (k r) s₁ log a s') :
    Goes others (.send st k) s ((st, r) :: log) a s'
  | release {next : Dialogue σ α} {s s' : σ} {log : Log} {a : α} (h : Goes others next s log a s') :
    Goes others (.release next) s log a s'

section Bind

variable {d : Dialogue σ α} {f : α → Dialogue σ β}

theorem Goes.bind {s₁ : σ} {log₁ log₂ : Log} (h : Goes others d s log₁ a s₁)
    (hf : Goes others (f a) s₁ log₂ b s') : Goes others (d.bind f) s (log₁ ++ log₂) b s' := by
  induction h with
  | done a s => exact hf
  | look now _ ih => exact .look now (ih hf)
  | store _ ih => exact .store (ih hf)
  | acquire r hs _ ih => exact .acquire r hs (ih hf)
  | send r hs _ ih => exact .send r hs (ih hf)
  | release _ ih => exact .release (ih hf)

theorem Goes.of_bind (h : Goes others (d.bind f) s log b s') :
    ∃ a s₁ log₁ log₂, Goes others d s log₁ a s₁ ∧ Goes others (f a) s₁ log₂ b s' ∧
      log = log₁ ++ log₂ := by
  induction d generalizing s log with
  | done a => exact ⟨a, s, [], log, .done a s, h, rfl⟩
  | look k ih =>
    cases h with
    | look now h =>
      obtain ⟨a, s₁, log₁, log₂, hd, hf, rfl⟩ := ih _ _ h
      exact ⟨a, s₁, log₁, log₂, .look now hd, hf, rfl⟩
  | store s₀ next ih =>
    cases h with
    | store h =>
      obtain ⟨a, s₁, log₁, log₂, hd, hf, rfl⟩ := ih h
      exact ⟨a, s₁, log₁, log₂, .store hd, hf, rfl⟩
  | acquire k ih =>
    cases h with
    | acquire r hs h =>
      obtain ⟨a, s₁, log₁, log₂, hd, hf, rfl⟩ := ih _ h
      exact ⟨a, s₁, log₁, log₂, .acquire r hs hd, hf, rfl⟩
  | send st k ih =>
    cases h with
    | send r hs h =>
      obtain ⟨a, s₁, log₁, log₂, hd, hf, rfl⟩ := ih _ h
      exact ⟨a, s₁, (st, r) :: log₁, log₂, .send r hs hd, hf, rfl⟩
  | release next ih =>
    cases h with
    | release h =>
      obtain ⟨a, s₁, log₁, log₂, hd, hf, rfl⟩ := ih h
      exact ⟨a, s₁, log₁, log₂, .release hd, hf, rfl⟩

theorem Goes.of_done {a' : α} (h : Goes others (.done a) s log a' s') :
    log = [] ∧ a' = a ∧ s' = s := by
  cases h
  exact ⟨rfl, rfl, rfl⟩

theorem Goes.of_bindCont {α β : Type} {e : Dialogue σ (Except Trouble α)}
    {f : α → ExceptT Trouble (Dialogue σ) β} {r : Except Trouble β}
    (h : Goes others (e.bind (ExceptT.bindCont f)) s log r s') :
    (∃ t, r = .error t ∧ Goes others e s log (.error t) s') ∨
      ∃ a s₁ log₁ log₂, Goes others e s log₁ (.ok a) s₁ ∧ Goes others (f a).run s₁ log₂ r s' ∧
        log = log₁ ++ log₂ := by
  obtain ⟨x, s₁, log₁, log₂, he, hf, rfl⟩ := h.of_bind
  cases x with
  | ok a => exact .inr ⟨a, s₁, log₁, log₂, he, hf, rfl⟩
  | error t =>
    obtain ⟨rfl, rfl, rfl⟩ := hf.of_done
    left
    rw [List.append_nil]
    exact ⟨t, rfl, he⟩

end Bind

section Advance

/--
A dialogue comes to its end, or to an answer that is due, whatever that may be and whatever others do
before it comes.
-/
def Leads (others : σ → σ → Prop) (d : Dialogue σ α) (s : σ) : Standing σ α → σ → Prop
  | .ended a, s' => ∃ log, Goes others d s log a s'
  | .waiting w, s₁ => ∃ log, ∀ r s₂ log' a s', others s₁ s₂ → Goes others (w.k r) s₂ log' a s' →
    Goes others d s (log ++ (w.statement, r) :: log') a s'

theorem Leads.of_goes {d d₁ : Dialogue σ α} {s₁ : σ} {standing : Standing σ α} (log₁ : Log)
    (h : Leads others d₁ s₁ standing s')
    (hd : ∀ {log a s'}, Goes others d₁ s₁ log a s' → Goes others d s (log₁ ++ log) a s') :
    Leads others d s standing s' := by
  cases standing with
  | ended a =>
    obtain ⟨log, h⟩ := h
    exact ⟨log₁ ++ log, hd h⟩
  | waiting w =>
    obtain ⟨log, h⟩ := h
    refine ⟨log₁ ++ log, fun r s₂ log' a s' hs hr => ?_⟩
    rw [List.append_assoc]
    exact hd (h r s₂ log' a s' hs hr)

theorem leads_advance (hrefl : ∀ s, others s s) (now : Now) (d : Dialogue σ α) (s : σ) (p : Pool) :
    Leads others d s (d.advance now s p).1 (d.advance now s p).2.1 := by
  induction d generalizing s p with
  | done a => exact ⟨[], .done a s⟩
  | look k ih => exact (ih now s s p).of_goes [] (.look now ·)
  | store s₀ next ih => exact (ih s₀ p).of_goes [] .store
  | acquire k ih => exact (ih _ s _).of_goes [] (.acquire _ (hrefl s) ·)
  | send st k ih =>
    rw [advance]
    dsimp only
    split
    · exact (ih _ s _).of_goes [(st, _)] (.send _ (hrefl s) ·)
    · exact ⟨[], fun r s₂ log' a s' hs hr => .send r hs hr⟩
  | release next ih => exact (ih s _).of_goes [] .release

end Advance

/--
The run of a dialogue in which all sessions can be had, nobody else does anything, and the given
answers come, if they are as many as it asks for.
-/
def follow (now : Now) : Dialogue σ α → σ → List (Except Trouble Reply) → Option (Log × α × σ)
  | .done a, s, [] => some ([], a, s)
  | .done _, _, _ :: _ => none
  | .look k, s, rs => (k now s).follow now s rs
  | .store s next, _, rs => next.follow now s rs
  | .acquire k, s, rs => (k (.ok ())).follow now s rs
  | .send _ _, _, [] => none
  | .send st k, s, r :: rs => ((k r).follow now s rs).map fun x => ((st, r) :: x.1, x.2)
  | .release next, s, rs => next.follow now s rs

theorem goes_of_follow (hrefl : ∀ s, others s s) {now : Now} {d : Dialogue σ α} {s : σ}
    {rs : List (Except Trouble Reply)} (h : d.follow now s rs = some (log, a, s')) :
    Goes others d s log a s' := by
  induction d generalizing s rs log with
  | done a =>
    cases rs with
    | nil =>
      cases h
      exact .done _ _
    | cons r rs => cases h
  | look k ih => exact .look now (ih _ _ h)
  | store s₀ next ih => exact .store (ih h)
  | acquire k ih => exact .acquire (.ok ()) (hrefl s) (ih _ h)
  | send st k ih =>
    cases rs with
    | nil => cases h
    | cons r rs =>
      obtain ⟨⟨log, x⟩, hx, heq⟩ := Option.map_eq_some_iff.1 h
      cases heq
      exact .send r (hrefl s) (ih _ hx)
  | release next ih => exact .release (ih h)

end Dialogue

/-! ### Services -/

/--
What hands out sessions and answers statements. It may go by all that was asked for before.
-/
structure Service (τ : Type) where
  session : τ → Except Trouble Unit × τ
  answer : τ → Statement → Except Trouble Reply × τ

inductive Request where
  | session (r : Except Trouble Unit)
  | statement (st : Statement) (r : Except Trouble Reply)

namespace Request

def statement? : Request → Option Statement
  | session _ => none
  | statement st _ => some st

def reply? : Request → Option Reply
  | statement _ (.ok r) => some r
  | _ => none

def trouble? : Request → Option Trouble
  | session (.error t) => some t
  | statement _ (.error t) => some t
  | _ => none

end Request

structure Visit (σ τ : Type) (α : Type u) where
  result : α
  state : σ
  /-- What has become of what is behind the service. -/
  behind : τ
  requests : List Request

namespace Visit

variable {σ τ : Type} {α : Type u} (x : Visit σ τ α)

def sent : List Statement := x.requests.filterMap Request.statement?

def replies : List Reply := x.requests.filterMap Request.reply?

def trouble? : Option Trouble := x.requests.findSome? Request.trouble?

def after (earlier : List Request) : Visit σ τ α := { x with requests := earlier ++ x.requests }

variable (earlier : List Request)

@[simp]
theorem result_after : (x.after earlier).result = x.result := rfl

@[simp]
theorem behind_after : (x.after earlier).behind = x.behind := rfl

@[simp]
theorem sent_after : (x.after earlier).sent = earlier.filterMap Request.statement? ++ x.sent :=
  List.filterMap_append

@[simp]
theorem replies_after : (x.after earlier).replies = earlier.filterMap Request.reply? ++ x.replies :=
  List.filterMap_append

@[simp]
theorem trouble?_after :
    (x.after earlier).trouble? = (earlier.findSome? Request.trouble?).or x.trouble? :=
  List.findSome?_append

end Visit

def Dialogue.visit {σ τ : Type} {α : Type u} (v : Service τ) (now : Now) :
    Dialogue σ α → σ → τ → Visit σ τ α
  | .done a, s, x => ⟨a, s, x, []⟩
  | .look k, s, x => (k now s).visit v now s x
  | .store s next, _, x => next.visit v now s x
  | .acquire k, s, x =>
    let (r, x) := v.session x
    ((k r).visit v now s x).after [.session r]
  | .send st k, s, x =>
    let (r, x) := v.answer x st
    ((k r).visit v now s x).after [.statement st r]
  | .release next, s, x => next.visit v now s x

end Steward.Sql
