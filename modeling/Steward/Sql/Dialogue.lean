import Steward.Sql.Pool
import Steward.Time.Moment

/-!
This module contains dialogues: computations that take sessions out of a pool, send statements and
go on with the answers, and between two answers look at a state and change it. A dialogue is a
tree of its requests, so that whoever runs it can do other work while an answer is due.
-/

namespace Steward.Sql

universe u

inductive Dialogue (σ : Type) (α : Type u) where
  | done (a : α)
  /-- Goes on with the present and the state. -/
  | look (k : Now → σ → Dialogue σ α)
  | store (s : σ) (next : Dialogue σ α)
  | acquire (k : Except Trouble Unit → Dialogue σ α)
  | send (st : Statement) (k : Except Trouble Reply → Dialogue σ α)
  | release (next : Dialogue σ α)

namespace Dialogue

variable {σ : Type} {α : Type u}

def bind {β : Type u} (d : Dialogue σ α) (f : α → Dialogue σ β) : Dialogue σ β :=
  match d with
  | done a => f a
  | look k => look fun now s => (k now s).bind f
  | store s next => store s (next.bind f)
  | acquire k => acquire fun r => (k r).bind f
  | send st k => send st fun r => (k r).bind f
  | release next => release (next.bind f)

instance : Monad (Dialogue σ) where
  pure := done
  bind := bind

theorem bind_done (d : Dialogue σ α) : d.bind done = d := by
  induction d with
  | done a => rfl
  | look k ih => simp [bind, ih]
  | store s next ih => simp [bind, ih]
  | acquire k ih => simp [bind, ih]
  | send st k ih => simp [bind, ih]
  | release next ih => simp [bind, ih]

theorem bind_bind {β γ : Type u} (d : Dialogue σ α) (f : α → Dialogue σ β)
    (g : β → Dialogue σ γ) : (d.bind f).bind g = d.bind fun a => (f a).bind g := by
  induction d with
  | done a => rfl
  | look k ih => simp [bind, ih]
  | store s next ih => simp [bind, ih]
  | acquire k ih => simp [bind, ih]
  | send st k ih => simp [bind, ih]
  | release next ih => simp [bind, ih]

instance : LawfulMonad (Dialogue σ) :=
  LawfulMonad.mk' _ bind_done (fun _ _ => rfl) bind_bind

/--
Looks at the state and changes it.
-/
def update {α : Type} (f : Now → σ → α × σ) : Dialogue σ α :=
  look fun now s =>
    let (a, s) := f now s
    store s (done a)

/--
Sends one statement on a session of its own.
-/
def exec (st : Statement) : Dialogue σ (Except Trouble Reply) :=
  acquire fun
    | .error t => done (.error t)
    | .ok () => send st fun r => release (done r)

end Dialogue

/--
A dialogue that waits for the answer to a statement.
-/
structure Pending (σ : Type) (α : Type u) where
  /-- When the answer is there. -/
  due : Nat
  statement : Statement
  k : Except Trouble Reply → Dialogue σ α

namespace Dialogue

variable {σ : Type} {α : Type u}

/--
Where a dialogue stands.
-/
inductive Standing (σ : Type) (α : Type u) where
  | ended (a : α)
  | waiting (p : Pending σ α)

/--
Goes on until the end or until an answer takes time.
-/
def advance (now : Now) (s : σ) (p : Pool) : Dialogue σ α → Standing σ α × σ × Pool
  | done a => (.ended a, s, p)
  | look k => (k now s).advance now s p
  | store s next => next.advance now s p
  | acquire k =>
    let (r, p) := p.acquire
    (k r).advance now s p
  | send st k =>
    let p := p.start st
    let delay := p.delayOf st.sql
    if delay = 0 then
      let (r, p) := p.answer now.clock st
      (k r).advance now s p
    else (.waiting ⟨now.clock + delay, st, k⟩, s, p)
  | release next => next.advance now s p.release

end Dialogue

/--
Goes on after an answer that is due now.
-/
def Pending.resume {σ : Type} {α : Type u} (w : Pending σ α) (now : Now) (s : σ) (p : Pool) :
    Dialogue.Standing σ α × σ × Pool :=
  let (r, p) := p.answer now.clock w.statement
  (w.k r).advance now s p

end Steward.Sql
