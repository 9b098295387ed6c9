import Steward.Proofs.Json.Number

/-!
This module contains what the reading of decimal integers accepts: the texts of an integer that is
within the limits, and no others.
-/

namespace Steward.Text

structure IsNumeral (cs : List Char) : Prop where
  ne_nil : cs ≠ []
  digits : ∀ c ∈ cs, c.isDigit = true

/--
The ways to write an integer in decimals: a numeral, with a plus sign or without one, or with a minus
sign. Zeros may stand in front.
-/
inductive Spells : List Char → Int → Prop
  | plain {ds : List Char} (h : IsNumeral ds) : Spells ds (Nat.ofDigitChars 10 ds 0)
  | plus {ds : List Char} (h : IsNumeral ds) : Spells ('+' :: ds) (Nat.ofDigitChars 10 ds 0)
  | minus {ds : List Char} (h : IsNumeral ds) : Spells ('-' :: ds) (-Nat.ofDigitChars 10 ds 0)

variable {ds : List Char} {n : Int}

theorem not_isNumeral_cons {c : Char} (hc : c.isDigit = false) : ¬IsNumeral (c :: ds) := by
  intro h
  rw [h.digits c List.mem_cons_self] at hc
  cases hc

theorem spells_plus_iff :
    Spells ('+' :: ds) n ↔ IsNumeral ds ∧ n = Nat.ofDigitChars 10 ds 0 := by
  constructor
  · intro h
    cases h with
    | plain h => exact absurd h (not_isNumeral_cons rfl)
    | plus h => exact ⟨h, rfl⟩
  · rintro ⟨h, rfl⟩
    exact .plus h

theorem spells_minus_iff :
    Spells ('-' :: ds) n ↔ IsNumeral ds ∧ n = -Nat.ofDigitChars 10 ds 0 := by
  constructor
  · intro h
    cases h with
    | plain h => exact absurd h (not_isNumeral_cons rfl)
    | minus h => exact ⟨h, rfl⟩
  · rintro ⟨h, rfl⟩
    exact .minus h

theorem spells_plain_iff (hplus : ∀ cs, ds ≠ '+' :: cs) (hminus : ∀ cs, ds ≠ '-' :: cs) :
    Spells ds n ↔ IsNumeral ds ∧ n = Nat.ofDigitChars 10 ds 0 := by
  constructor
  · intro h
    cases h with
    | plain h => exact ⟨h, rfl⟩
    | plus h => exact absurd rfl (hplus _)
    | minus h => exact absurd rfl (hminus _)
  · rintro ⟨h, rfl⟩
    exact .plain h

namespace Decimal

def signed (negative : Bool) (m : Nat) : Int := if negative then -m else m

theorem le_ofDigitChars (cs : List Char) (m : Nat) : m ≤ Nat.ofDigitChars 10 cs m := by
  induction cs generalizing m with
  | nil => exact Nat.le_of_eq Nat.ofDigitChars_nil.symm
  | cons c cs ih =>
    rw [Nat.ofDigitChars_cons]
    exact Nat.le_trans (by omega) (ih _)

variable {lo hi : Int} {negative : Bool}

theorem within_of_le (hlo : lo ≤ 0) (hhi : 0 ≤ hi) {m k : Nat} (hle : m ≤ k)
    (h : lo ≤ signed negative k ∧ signed negative k ≤ hi) :
    lo ≤ signed negative m ∧ signed negative m ≤ hi := by
  -- More digits lead away from zero, so what is out of the limits once stays there.
  unfold signed at *
  cases negative with
  | false => simp only [Bool.false_eq_true, if_false] at *; omega
  | true => simp only [if_true] at *; omega

theorem digits_cons (c : Char) (cs : List Char) (m : Nat) :
    let next := signed negative (10 * m + (c.toNat - '0'.toNat))
    digits lo hi negative (signed negative m) (c :: cs) =
      if c.isDigit then
        if hi < next then .error .tooLarge
        else if next < lo then .error .tooSmall
        else digits lo hi negative next cs
      else .error .invalidDigit := by
  have hnext : (if negative then 10 * signed negative m - ((c.toNat - '0'.toNat : Nat) : Int)
      else 10 * signed negative m + ((c.toNat - '0'.toNat : Nat) : Int)) =
      signed negative (10 * m + (c.toNat - '0'.toNat)) := by
    unfold signed
    cases negative with
    | false => simp
    | true => simp; omega
  rw [digits]
  dsimp only
  rw [hnext]

theorem digits_eq_ok_iff (hlo : lo ≤ 0) (hhi : 0 ≤ hi) (cs : List Char) (m : Nat)
    (hm : lo ≤ signed negative m ∧ signed negative m ≤ hi) :
    digits lo hi negative (signed negative m) cs = .ok n ↔
      (∀ c ∈ cs, c.isDigit = true) ∧ n = signed negative (Nat.ofDigitChars 10 cs m) ∧
        lo ≤ n ∧ n ≤ hi := by
  induction cs generalizing m with
  | nil =>
    rw [digits, Nat.ofDigitChars_nil, Except.ok.injEq]
    constructor
    · rintro rfl
      exact ⟨by simp, rfl, hm⟩
    · rintro ⟨-, rfl, -⟩
      rfl
  | cons c cs ih =>
    have hmore := le_ofDigitChars cs (10 * m + (c.toNat - '0'.toNat))
    rw [digits_cons, Nat.ofDigitChars_cons, List.forall_mem_cons]
    generalize 10 * m + (c.toNat - '0'.toNat) = k at hmore ⊢
    by_cases hc : c.isDigit = true
    · rw [if_pos hc]
      by_cases hin : lo ≤ signed negative k ∧ signed negative k ≤ hi
      · rw [if_neg (by omega), if_neg (by omega), ih k hin, and_assoc, and_iff_right hc]
      · -- The fault is found here, and the whole number is out of the limits too.
        constructor
        · intro h
          split at h
          · cases h
          · split at h
            · cases h
            · omega
        · rintro ⟨-, rfl, hrange⟩
          exact absurd (within_of_le hlo hhi hmore hrange) hin
    · rw [if_neg hc]
      constructor
      · intro h
        cases h
      · rintro ⟨⟨hdigit, -⟩, -⟩
        exact absurd hdigit hc

theorem digits_zero_eq_ok_iff (hlo : lo ≤ 0) (hhi : 0 ≤ hi) {cs : List Char} (hcs : cs ≠ []) :
    digits lo hi negative 0 cs = .ok n ↔
      (IsNumeral cs ∧ n = signed negative (Nat.ofDigitChars 10 cs 0)) ∧ lo ≤ n ∧ n ≤ hi := by
  have hzero : signed negative 0 = 0 := by cases negative <;> rfl
  have hdigits := @digits_eq_ok_iff n lo hi negative hlo hhi cs 0 (by omega)
  rw [hzero] at hdigits
  rw [hdigits]
  constructor
  · rintro ⟨hdigits, hn, hrange⟩
    exact ⟨⟨⟨hcs, hdigits⟩, hn⟩, hrange⟩
  · rintro ⟨⟨hnumeral, hn⟩, hrange⟩
    exact ⟨hnumeral.digits, hn, hrange⟩

theorem not_spells_nil : ¬Spells [] n := by
  intro h
  cases h with
  | plain h => exact h.ne_nil rfl

theorem read_eq_ok_iff (hlo : lo < 0) (hhi : 0 ≤ hi) (s : String) :
    read lo hi s = .ok n ↔ Spells s.toList n ∧ lo ≤ n ∧ n ≤ hi := by
  have hle : lo ≤ 0 := Int.le_of_lt hlo
  unfold read
  split
  next h =>
    rw [h]
    exact ⟨fun hread => (by cases hread), fun hspells => absurd hspells.1 not_spells_nil⟩
  next h =>
    rw [h, spells_plus_iff]
    exact ⟨fun hread => (by cases hread), fun hspells => absurd rfl hspells.1.1.ne_nil⟩
  next h =>
    rw [h, spells_minus_iff]
    exact ⟨fun hread => (by cases hread), fun hspells => absurd rfl hspells.1.1.ne_nil⟩
  next cs hcs h =>
    rw [h, spells_plus_iff]
    exact digits_zero_eq_ok_iff hle hhi hcs
  next cs hcs h =>
    rw [h, spells_minus_iff, if_pos hlo]
    exact digits_zero_eq_ok_iff hle hhi hcs
  next hnil hplus hminus hplus' hminus' =>
    rw [spells_plain_iff hplus' hminus']
    exact digits_zero_eq_ok_iff hle hhi hnil

end Decimal

theorem readInt64_eq_ok_iff (s : String) : readInt64 s = .ok n ↔ Spells s.toList n ∧ IsInt64 n :=
  Decimal.read_eq_ok_iff (by decide) (by decide) s

end Steward.Text
