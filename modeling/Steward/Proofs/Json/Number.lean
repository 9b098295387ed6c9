import Steward.Json.Number

/-!
This module contains the writing of integers and their reading: an integer of 64 bits that was
written is read again, as a value (`Number.read_toDigits`) and as the name of a member
(`id?_toString`).
-/

namespace Steward

namespace Text

def IsInt64 (n : Int) : Prop := minInt64 ≤ n ∧ n ≤ maxInt64

instance (n : Int) : Decidable (IsInt64 n) := inferInstanceAs (Decidable (_ ∧ _))

end Text

namespace Json

def Stops (cs : List Char) : Prop :=
  ∀ c ∈ cs.head?, c.isDigit = false ∧ c ≠ '.' ∧ c ≠ 'e' ∧ c ≠ 'E'

variable {ds rest cs : List Char} {c : Char} {n m : Int} {negative : Bool} {name : String}

theorem stops_nil : Stops [] := by simp [Stops]

theorem stops_cons (h : c.isDigit = false ∧ c ≠ '.' ∧ c ≠ 'e' ∧ c ≠ 'E') : Stops (c :: cs) := by
  simpa [Stops] using h

theorem splitDigits_of_stops (hds : ∀ c ∈ ds, c.isDigit = true) (h : Stops rest) :
    splitDigits (ds ++ rest) = (ds, rest) := by
  unfold splitDigits
  rw [List.takeWhile_append_of_pos hds, List.dropWhile_append_of_pos hds]
  cases rest with
  | nil => simp
  | cons c cs => simp [(h c rfl).1]

theorem fraction_of_stops (h : Stops rest) : Number.fraction rest = some ([], rest) := by
  unfold Number.fraction
  split
  · exact absurd rfl (h _ rfl).2.1
  · rfl

theorem exponent_of_stops (h : Stops rest) : Number.exponent rest = some (none, rest) := by
  unfold Number.exponent
  split
  · exact absurd rfl (h _ rfl).2.2.1
  · exact absurd rfl (h _ rfl).2.2.1
  · exact absurd rfl (h _ rfl).2.2.2
  · exact absurd rfl (h _ rfl).2.2.2
  · exact absurd rfl (h _ rfl).2.2.1
  · exact absurd rfl (h _ rfl).2.2.2
  · rfl

/-! ### Integers that were written -/

theorem isDigit_of_mem_toDigits (k : Nat) : ∀ c ∈ Nat.toDigits 10 k, c.isDigit = true :=
  fun _ h => Nat.isDigit_of_mem_toDigits (by decide) (by decide) h

theorem head_toDigits (k : Nat) :
    ∃ c cs, Nat.toDigits 10 k = c :: cs ∧ c.isDigit = true := by
  cases h : Nat.toDigits 10 k with
  | nil => exact absurd h Nat.toDigits_ne_nil
  | cons c cs => exact ⟨c, cs, rfl, isDigit_of_mem_toDigits k c (h ▸ List.mem_cons_self)⟩

theorem foldl_toDigits (k : Nat) :
    (Nat.toDigits 10 k).foldl (fun n c => 10 * n + digit c) 0 = k := by
  have h := Nat.ofDigitChars_ten_toDigits (n := k)
  rwa [Nat.ofDigitChars_eq_foldl] at h

theorem eq_zero_of_head?_toDigits (k : Nat) (h : (Nat.toDigits 10 k).head? = some '0') : k = 0 := by
  induction k using Nat.strongRecOn with
  | _ k ih =>
    rw [Nat.toDigits_eq_if (by decide)] at h
    split at h
    · next hlt =>
      have hzero : ∀ d < 10, Nat.digitChar d = '0' → d = 0 := by decide
      exact hzero k hlt (Option.some.inj h)
    · next hge =>
      obtain ⟨c, cs, hhead, -⟩ := head_toDigits (k / 10)
      have hc : (Nat.toDigits 10 (k / 10)).head? = some '0' := by
        rw [hhead] at h ⊢
        exact h
      have := ih (k / 10) (by omega) hc
      omega

theorem Number.read_toDigits {k : Nat} (h : integer? negative (Nat.toDigits 10 k) = some m)
    (hrest : Stops rest) :
    Number.read negative (Nat.toDigits 10 k ++ rest) = some (.int m, rest) := by
  have hsplit := splitDigits_of_stops (isDigit_of_mem_toDigits k) hrest
  unfold Number.read
  rw [hsplit]
  dsimp only
  split
  · next hnil => exact absurd hnil Nat.toDigits_ne_nil
  · next hzero =>
    -- Only zero starts with a zero, and it has one digit.
    have hk := eq_zero_of_head?_toDigits k (by rw [hzero]; rfl)
    subst hk
    cases hzero
  · simp [fraction_of_stops hrest, exponent_of_stops hrest, h]

theorem toList_toString_ofNat (k : Nat) : (toString (Int.ofNat k)).toList = Nat.toDigits 10 k := by
  show (Nat.repr k).toList = _
  rw [Nat.repr_eq_ofList_toDigits, String.toList_ofList]

theorem toList_toString_negSucc (k : Nat) :
    (toString (Int.negSucc k)).toList = '-' :: Nat.toDigits 10 (k + 1) := by
  show ("-" ++ Nat.repr (k + 1)).toList = _
  rw [Nat.repr_eq_ofList_toDigits, String.toList_append, String.toList_ofList]
  simp

theorem integer?_ofNat {k : Nat} (h : k ≤ Text.maxNat64) :
    Number.integer? false (Nat.toDigits 10 k) = some (Int.ofNat k) := by
  unfold Number.integer?
  rw [foldl_toDigits]
  simp [h]

theorem integer?_negSucc {k : Nat} (h : Text.minInt64 ≤ Int.negSucc k) :
    Number.integer? true (Nat.toDigits 10 (k + 1)) = some (Int.negSucc k) := by
  unfold Number.integer?
  rw [foldl_toDigits]
  simpa [Int.negSucc_eq] using h

theorem id?_toString (h : Text.IsInt64 n) : id? (toString n) = some n := by
  unfold id?
  cases n with
  | ofNat k =>
    have hk : k ≤ Text.maxNat64 := by
      have := h.2
      simp only [Text.maxInt64, Text.maxNat64, Int.ofNat_eq_natCast] at this ⊢
      omega
    have hread := Number.read_toDigits (integer?_ofNat hk) stops_nil
    rw [List.append_nil] at hread
    obtain ⟨c, cs, hdigits, hc⟩ := head_toDigits k
    rw [toList_toString_ofNat]
    split
    · next cs' hsign =>
      cases hdigits.symm.trans hsign
      exact absurd hc (by decide)
    · simp only [hread]
      exact if_pos h
  | negSucc k =>
    have hread := Number.read_toDigits (integer?_negSucc h.1) stops_nil
    rw [List.append_nil] at hread
    rw [toList_toString_negSucc]
    simp only [hread]
    exact if_pos h

/-! ### Names that are ids -/

theorem rest_of_fraction (h : Number.fraction cs = some ([], rest)) : rest = cs := by
  unfold Number.fraction at h
  split at h
  · next ds =>
    generalize splitDigits ds = x at h
    obtain ⟨digits, others⟩ := x
    dsimp only at h
    split at h
    · cases h
    · next hne =>
      cases h
      exact absurd rfl hne
  · cases h
    rfl

theorem power_ne_none {r : List Char} : Number.power negative cs ≠ some (none, r) := by
  unfold Number.power
  dsimp only
  split <;> simp

theorem rest_of_exponent (h : Number.exponent cs = some (none, rest)) : rest = cs := by
  unfold Number.exponent at h
  split at h
  all_goals first
    | exact absurd h power_ne_none
    | cases h; rfl

theorem Magnitude.toJson_ne_int (m : Magnitude) : m.toJson ≠ .int n := by
  unfold Magnitude.toJson
  split <;> simp

theorem isDigit_of_read (h : Number.read negative cs = some (.int n, [])) :
    ∀ c ∈ cs, c.isDigit = true := by
  have hsplit := splitDigits_append cs
  have hdigits : ∀ c ∈ (splitDigits cs).1, c.isDigit = true :=
    fun c hc => List.all_eq_true.1 List.all_takeWhile c hc
  unfold Number.read at h
  generalize splitDigits cs = x at h hsplit hdigits
  obtain ⟨whole, others⟩ := x
  have hothers : others = [] := by
    dsimp only at h
    split at h
    · cases h
    · cases h
    · obtain ⟨⟨fraction, r⟩, hfraction, h⟩ := Option.bind_eq_some_iff.1 h
      obtain ⟨⟨power, r'⟩, hpower, h⟩ := Option.bind_eq_some_iff.1 h
      split at h
      · next hplain =>
        have hboth := Bool.and_eq_true_iff.1 hplain
        cases List.isEmpty_iff.1 hboth.1
        cases Option.isNone_iff_eq_none.1 hboth.2
        have hend : r' = [] := by
          split at h
          · cases h
            rfl
          · exact absurd (Prod.mk.inj (Option.some.inj h)).1 (Magnitude.toJson_ne_int _)
        rw [← rest_of_fraction hfraction]
        exact (rest_of_exponent hpower).symm.trans hend
      · exact absurd (Prod.mk.inj (Option.some.inj h)).1 (Magnitude.toJson_ne_int _)
  rw [← hsplit, hothers, List.append_nil]
  exact hdigits

theorem digit_or_sign_of_id? (h : (id? name).isSome) (hc : c ∈ name.toList) :
    c.isDigit = true ∨ c = '-' := by
  unfold id? at h
  dsimp only at h
  split at h
  · next m hread =>
    split at hread
    · next cs hcs =>
      rw [hcs] at hc
      rcases List.mem_cons.1 hc with rfl | hc
      · exact .inr rfl
      · exact .inl (isDigit_of_read hread c hc)
    · exact .inl (isDigit_of_read hread c hc)
  · cases h

end Json

end Steward
