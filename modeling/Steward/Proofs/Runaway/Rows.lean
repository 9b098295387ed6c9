import Steward.Proofs.Runaway.Tables
import Steward.Proofs.Text.Decimal

/-!
This module contains what the values in a row stand for, whatever form a driver delivers them in, and
what rows say of watches: a row is read as the watch that its columns stand for, and the row that is
written of a watch is read as that watch.
-/

namespace Steward.Sql

namespace Value

inductive IsInteger : Value → Int → Prop
  | int (n : Int) : IsInteger (.int n) n
  | uint {n : Nat} (h : n ≤ Text.maxInt64) : IsInteger (.uint n) n
  | text {s : String} {n : Int} (h : Text.Spells s.toList n) (hn : Text.IsInt64 n) :
    IsInteger (.text s) n

inductive IsText : Value → String → Prop
  | text (s : String) : IsText (.text s) s
  | null : IsText .null ""
  | int (n : Int) : IsText (.int n) (toString n)
  | uint (n : Nat) : IsText (.uint n) (toString n)

inductive IsTime : Value → Option Moment → Prop
  | null : IsTime .null none
  | time (m : Moment) : IsTime (.time m) (some m)
  | int {n : Int} (h : 0 ≤ n) : IsTime (.int n) (some (.ofMillis n))
  | uint (n : Nat) : IsTime (.uint n) (some (.ofMillis n))

end Value

namespace Row

def Tells (r : Row) (column : Nat) (p : Value → Prop) : Prop :=
  ∃ v, r.values[column]? = some v ∧ p v

variable {r : Row} {column : Nat}

theorem get_eq_ok_iff {v : Value} : r.get column = .ok v ↔ r.values[column]? = some v := by
  unfold get
  cases r.values[column]? <;> simp

theorem get_bind_eq_ok_iff {α : Type} {f : Value → Except ReadFault α} {a : α} {p : Value → Prop}
    (h : ∀ v, f v = .ok a ↔ p v) : (r.get column >>= f) = .ok a ↔ r.Tells column p := by
  rw [bind_eq_ok]
  exact exists_congr fun v => and_congr get_eq_ok_iff (h v)

theorem int64_eq_ok_iff {n : Int} : r.int64 column = .ok n ↔ r.Tells column (·.IsInteger n) := by
  refine get_bind_eq_ok_iff fun v => ?_
  constructor
  · intro h
    cases v with
    | null => cases h
    | int m => cases h; exact .int n
    | uint m =>
      dsimp only at h
      split at h
      next hm => cases h; exact .uint hm
      next => cases h
    | text s =>
      dsimp only at h
      split at h
      next m hm =>
        cases h
        obtain ⟨hspells, hn⟩ := (Text.readInt64_eq_ok_iff s).1 hm
        exact .text hspells hn
      next => cases h
    | time m => cases h
  · intro h
    cases h with
    | int n => rfl
    | uint hm => exact if_pos hm
    | text hspells hn => simp only [(Text.readInt64_eq_ok_iff _).2 ⟨hspells, hn⟩]

theorem text_eq_ok_iff {s : String} : r.text column = .ok s ↔ r.Tells column (·.IsText s) := by
  refine get_bind_eq_ok_iff fun v => ?_
  constructor
  · intro h
    cases v with
    | null => cases h; exact .null
    | int n => cases h; exact .int n
    | uint n => cases h; exact .uint n
    | text s => cases h; exact .text _
    | time m => cases h
  · intro h
    cases h <;> rfl

theorem time?_eq_ok_iff {m : Option Moment} :
    r.time? column = .ok m ↔ r.Tells column (·.IsTime m) := by
  refine get_bind_eq_ok_iff fun v => ?_
  constructor
  · intro h
    cases v with
    | null => cases h; exact .null
    | int n =>
      dsimp only at h
      split at h
      next hn => cases h; exact .int hn
      next => cases h
    | uint n => cases h; exact .uint n
    | text s => cases h
    | time m => cases h; exact .time m
  · intro h
    cases h with
    | null => rfl
    | time m => rfl
    | int hn => exact if_pos hn
    | uint n => rfl

theorem time_eq_ok_iff {m : Moment} :
    r.time column = .ok m ↔ r.Tells column (·.IsTime (some m)) := by
  unfold time
  rw [bind_eq_ok, ← time?_eq_ok_iff]
  constructor
  · rintro ⟨t, ht, h⟩
    cases t with
    | none => cases h
    | some t => cases h; exact ht
  · intro h
    exact ⟨some m, h, rfl⟩

end Row

@[simp]
theorem Trouble.ofRead_eq_ok {α : Type} {e : Except ReadFault α} {a : α} :
    Trouble.ofRead e = .ok a ↔ e = .ok a := by
  cases e <;> simp [Trouble.ofRead]

end Steward.Sql

/-! ### Rows of watches -/

namespace Steward.Runaway

open Sql (Row Trouble Value)

theorem find?_number_eq_some_iff {α : Type} {number : α → Int} {n : Int} {a : α} (as : List α)
    (h : ∀ a, as.find? (fun b => number b == number a) = some a) :
    as.find? (fun b => number b == n) = some a ↔ n = number a := by
  -- Where every choice is found by its number, none is found by another one.
  constructor
  · intro hfound
    have hnumber := List.find?_some hfound
    exact (beq_iff_eq.1 hnumber).symm
  · rintro rfl
    exact h a

theorem Target.ofNumber_eq_ok_iff {n : Int} {t : Target} : ofNumber n = .ok t ↔ n = t.number := by
  rw [← find?_number_eq_some_iff (names.map (·.2)) (by intro t; cases t <;> rfl)]
  unfold ofNumber
  split <;> simp [*]

theorem Action.ofNumber_eq_ok_iff {n : Int} {a : Action} : ofNumber n = .ok a ↔ n = a.number := by
  rw [← find?_number_eq_some_iff (names.map (·.2)) (by intro a; cases a <;> rfl)]
  unfold ofNumber
  split <;> simp [*]

namespace Watch

/--
The columns of the row stand for the parts of the watch.
-/
structure ToldBy (w : Watch) (r : Row) : Prop where
  id : r.Tells 0 (·.IsInteger w.id)
  group : r.Tells 1 (·.IsText w.group)
  start : r.Tells 2 (·.IsTime (some w.start))
  stop : r.Tells 3 (·.IsTime w.stop)
  target : r.Tells 4 (·.IsInteger w.target.number)
  text : r.Tells 5 (·.IsText w.text)
  source : r.Tells 6 (·.IsText w.source)
  action : r.Tells 7 (·.IsInteger w.action.number)
  switchGroup : r.Tells 8 (·.IsText w.switchGroup)
  cause : r.Tells 9 (·.IsText w.cause)

variable {w : Watch} {r : Row}

@[simp]
theorem word_eq_ok {α : Type} {e : Except String α} {a : α} : ofRow.word e = .ok a ↔ e = .ok a := by
  cases e <;> simp [ofRow.word]

theorem ofRow_eq_ok_iff : ofRow r = .ok w ↔ w.ToldBy r := by
  unfold ofRow
  simp only [bind_eq_ok, Trouble.ofRead_eq_ok, word_eq_ok, Row.int64_eq_ok_iff, Row.text_eq_ok_iff,
    Row.time?_eq_ok_iff, Row.time_eq_ok_iff, Target.ofNumber_eq_ok_iff, Action.ofNumber_eq_ok_iff]
  constructor
  · rintro ⟨id, hid, group, hgroup, start, hstart, stop, hstop, number, hnumber, target, rfl,
      text, htext, source, hsource, number', hnumber', action, rfl, switchGroup, hswitchGroup,
      cause, hcause, hw⟩
    cases hw
    exact ⟨hid, hgroup, hstart, hstop, hnumber, htext, hsource, hnumber', hswitchGroup, hcause⟩
  · intro h
    exact ⟨_, h.id, _, h.group, _, h.start, _, h.stop, _, h.target, _, rfl, _, h.text, _, h.source,
      _, h.action, _, rfl, _, h.switchGroup, _, h.cause, rfl⟩

end Watch

theorem Storage.doneOfRow_eq_ok_iff {r : Row} {w : Watch} {id : Int} :
    doneOfRow r = .ok (w, id) ↔ w.ToldBy r ∧ r.Tells 10 (·.IsInteger id) := by
  unfold doneOfRow
  simp only [bind_eq_ok, Trouble.ofRead_eq_ok, Row.int64_eq_ok_iff, Watch.ofRow_eq_ok_iff]
  constructor
  · rintro ⟨w', hw, id', hid, h⟩
    cases h
    exact ⟨hw, hid⟩
  · rintro ⟨hw, hid⟩
    exact ⟨w, hw, id, hid, rfl⟩

/--
The row that is written of a watch is read as the watch, also if there are more columns, as in the
done table, where the next one is the id of the row there. Any row is read as the watch that its
columns stand for, if there is one, and the row that is written of that one says the same.
-/
theorem Watch.rows_round_trip (w : Watch) (id : Int) (r : Row) (more : List Value) :
    ofRow ⟨.int w.id :: w.params ++ more⟩ = .ok w ∧
      Storage.doneOfRow ⟨.int w.id :: w.params ++ [.int id]⟩ = .ok (w, id) ∧
      (ofRow r = .ok w ↔ w.ToldBy r) ∧
      (Storage.doneOfRow r = .ok (w, id) ↔ w.ToldBy r ∧ r.Tells 10 (·.IsInteger id)) ∧
      (ofRow r >>= fun v => ofRow ⟨.int v.id :: v.params ++ more⟩) = ofRow r := by
  have hrow (v : Watch) (more : List Value) : ofRow ⟨.int v.id :: v.params ++ more⟩ = .ok v :=
    ofRow_params v v.id more
  refine ⟨hrow w more, ?_, ofRow_eq_ok_iff, Storage.doneOfRow_eq_ok_iff, ?_⟩
  · exact Storage.doneOfRow_eq_ok_iff.2 ⟨ofRow_eq_ok_iff.1 (hrow w [.int id]), _, rfl, .int id⟩
  · cases ofRow r with
    | error t => rfl
    | ok v => exact hrow v more

/--
Numbers in all their forms, a moment in milliseconds, and texts that are missing or are numbers.
-/
example : Watch.ofRow ⟨[.text "+007", .int (-5), .uint 2, .null, .text "1", .text "digest", .null,
    .uint 3, .null, .uint 12]⟩ = .ok {
      id := 7, group := "-5", start := ⟨2000000⟩, stop := none, target := .exact, text := "digest",
      source := "", action := .kill, switchGroup := "", cause := "12" } := by cbv

end Steward.Runaway
