import Mathlib.Data.List.DropRight
import Steward.Json.Reader
import Steward.Json.Writer
import Steward.Proofs.Json.Number

/-!
This module contains the writing of JSON values and their reading: `readFile?_pretty` says that an
indented text is read as the value that it was written from, whatever texts the value contains.
-/

namespace Steward.Json

open Reader

variable {c : Char} {cs rest ds : List Char} {fuel room level : Nat} {plainIds : Bool} {j : Json}
  {n : Int}

/-! ### Texts -/

theorem hexDigit?_digitChar {d : Nat} (h : d < 16) : hexDigit? (Nat.digitChar d) = some d := by
  have hall : ∀ d < 16, hexDigit? (Nat.digitChar d) = some d := by decide
  exact hall d h

theorem bne_singleton {x y : Char} : (x :: y :: ds != [c]) = true := by
  simp [bne_iff_ne]

theorem unit_digits (cs : List Char) {a b : Nat} (ha : a < 16) (hb : b < 16) :
    Reader.unit ('0' :: '0' :: Nat.digitChar a :: Nat.digitChar b :: cs) =
      some (a * 16 + b, cs) := by
  have hzero : hexDigit? '0' = some 0 := by decide
  simp [Reader.unit, hzero, hexDigit?_digitChar ha, hexDigit?_digitChar hb]

theorem unitChar_of_lt {k : Nat} (h : k < 0x20) :
    unitChar k cs = some (some (Char.ofNat k), cs) := by
  unfold unitChar
  rw [if_neg (by omega), if_neg (by omega)]

theorem spelling_escapeChar (before : List Char) (escaped : Bool) (c : Char) :
    spelling (fuel + 1) (some before) escaped (escapeChar c ++ cs) =
      spelling fuel (some (c :: before)) (escaped || escapeChar c != [c]) cs := by
  unfold escapeChar
  cases h : shortEscape c with
  | some e =>
    unfold shortEscape at h
    split at h <;> cases h <;> simp [spelling, escape, bne_singleton]
  | none =>
    dsimp only
    split
    · next hcontrol =>
      have hunit := unit_digits cs (a := c.toNat / 16) (by omega) (Nat.mod_lt c.toNat (by decide))
      rw [Nat.div_add_mod'] at hunit
      simp [spelling, escape, hunit, unitChar_of_lt hcontrol, bne_singleton]
    · next hcontrol =>
      have hquote : c ≠ '"' := by
        rintro rfl
        cases h
      have hbackslash : c ≠ '\\' := by
        rintro rfl
        cases h
      simp [spelling, hcontrol]

theorem escapeChar_ne_nil (c : Char) : escapeChar c ≠ [] := by
  unfold escapeChar
  split
  · simp
  · split <;> simp

theorem spelling_escaped (fuel : Nat) (cs before rest : List Char) (escaped : Bool)
    (hfuel : (cs.flatMap escapeChar).length < fuel) :
    spelling fuel (some before) escaped (cs.flatMap escapeChar ++ '"' :: rest) =
      some (⟨some (String.ofList (before.reverse ++ cs)),
        escaped || cs.any fun c => escapeChar c != [c]⟩, rest) := by
  induction cs generalizing before escaped fuel with
  | nil =>
    cases fuel with
    | zero => cases hfuel
    | succ fuel => simp [spelling]
  | cons c cs ih =>
    rw [List.flatMap_cons, List.length_append] at hfuel
    have hpos := List.length_pos_iff.2 (escapeChar_ne_nil c)
    cases fuel with
    | zero => cases hfuel
    | succ fuel =>
      rw [List.flatMap_cons, List.append_assoc, spelling_escapeChar, ih _ _ _ (by omega)]
      simp [Bool.or_assoc]

theorem escapeChar_of_digit_or_sign (h : c.isDigit = true ∨ c = '-') : escapeChar c = [c] := by
  cases h with
  | inl hdigit =>
    have hcontrol : ∀ k < 0x20, (Char.ofNat k).isDigit = false := by decide
    unfold escapeChar
    split
    · next e he =>
      unfold shortEscape at he
      split at he <;> first | exact absurd hdigit (by decide) | cases he
    · refine if_neg fun hlt => ?_
      rw [← Char.ofNat_toNat c, hcontrol _ hlt] at hdigit
      cases hdigit
  | inr hsign =>
    subst hsign
    rfl

theorem memberName_written (plainIds : Bool) (name : String) :
    memberName plainIds ⟨some name, name.toList.any fun c => escapeChar c != [c]⟩ = some name := by
  -- An id has nothing to escape.
  have hplain (hid : (id? name).isSome = true) :
      (name.toList.any fun c => escapeChar c != [c]) = false := by
    refine List.any_eq_false.2 fun c hc => ?_
    rw [escapeChar_of_digit_or_sign (digit_or_sign_of_id? hid hc)]
    simp
  unfold memberName
  cases hid : (id? name).isSome with
  | false => simp [hid]
  | true => simp [hplain hid]

/-! ### Values -/

/--
A text can hold the value: its integers have 64 bits, and no more than `room` containers are nested
in each other.
-/
inductive Legible : Nat → Json → Prop where
  | null {room : Nat} : Legible room .null
  | bool {room : Nat} (b : Bool) : Legible room (.bool b)
  | int {room : Nat} {n : Int} (lower : Text.minInt64 ≤ n) (upper : n ≤ Text.maxNat64) :
    Legible room (.int n)
  | str {room : Nat} (s : String) : Legible room (.str s)
  | arr {room : Nat} {items : List Json} (h : ∀ j ∈ items, Legible room j) :
    Legible (room + 1) (.arr items)
  | obj {room : Nat} {members : List (String × Json)} (h : ∀ m ∈ members, Legible room m.2) :
    Legible (room + 1) (.obj members)

def Comes (room : Nat) (j : Json) : Prop :=
  ∀ (plainIds : Bool) (level fuel : Nat) (rest : List Char),
    (j.indented level).toList.length < fuel → Stops rest →
      value plainIds fuel room ((j.indented level).toList ++ rest) = some (j, rest)

@[simp]
theorem skip_newline (level : Nat) (cs : List Char) :
    skip ((newline level).toList ++ cs) = skip cs := by
  have hblank : ∀ c ∈ '\n' :: List.replicate (2 * level) ' ', isSpace c = true := by
    intro c hc
    rcases List.mem_cons.1 hc with rfl | hc
    · rfl
    · rw [List.eq_of_mem_replicate hc]
      rfl
  unfold skip newline
  rw [String.toList_ofList, List.dropWhile_append_of_pos hblank]

theorem skip_of_mark (h : isSpace c = false) (cs : List Char) : skip (c :: cs) = c :: cs :=
  List.dropWhile_cons_of_neg (Bool.eq_false_iff.1 h)

theorem skip_skip (cs : List Char) : skip (skip cs) = skip cs := List.dropWhile_idempotent _ _

theorem value_skip (cs : List Char) :
    value plainIds fuel room (skip cs) = value plainIds fuel room cs := by
  cases fuel with
  | zero => rfl
  | succ fuel =>
    unfold value
    rw [skip_skip]

theorem value_digit (hc : c.isDigit = true) :
    value plainIds (fuel + 1) room (c :: cs) = Number.read false (c :: cs) := by
  have hskip : skip (c :: cs) = c :: cs := by
    refine skip_of_mark (Bool.eq_false_iff.2 fun hspace => ?_) cs
    simp only [isSpace, Bool.or_eq_true, beq_iff_eq] at hspace
    rcases hspace with ((rfl | rfl) | rfl) | rfl <;> exact absurd hc (by decide)
  unfold value
  rw [hskip]
  split
  -- No other kind of value starts with a digit.
  case h_8 => rfl
  all_goals
    next h =>
    cases h
    exact absurd hc (by decide)

theorem value_int (hrest : Stops rest) (lower : Text.minInt64 ≤ n) (upper : n ≤ Text.maxNat64) :
    value plainIds (fuel + 1) room ((toString n).toList ++ rest) = some (.int n, rest) := by
  cases n with
  | ofNat k =>
    have hk : k ≤ Text.maxNat64 := Int.ofNat_le.1 upper
    have hread := Number.read_toDigits (integer?_ofNat hk) hrest
    obtain ⟨c, cs, hdigits, hc⟩ := head_toDigits k
    rw [toList_toString_ofNat, hdigits]
    rw [hdigits] at hread
    exact (value_digit hc).trans hread
  | negSucc k =>
    rw [toList_toString_negSucc]
    exact Number.read_toDigits (integer?_negSucc lower) hrest

theorem items_skip (cs : List Char) :
    items plainIds fuel room (skip cs) = items plainIds fuel room cs := by
  cases fuel with
  | zero => rfl
  | succ fuel =>
    unfold items
    rw [value_skip]

theorem members_skip (cs : List Char) :
    members plainIds fuel room (skip cs) = members plainIds fuel room cs := by
  cases fuel with
  | zero => rfl
  | succ fuel =>
    unfold members
    rw [skip_skip]

/--
What stands in a container after the first of its texts: the others, each on a line of its own, and
the end.
-/
def others (close : Char) (level : Nat) : List String → List Char
  | [] => (newline level).toList ++ [close]
  | t :: ts => ',' :: ((newline (level + 1)).toList ++ (t.toList ++ others close level ts))

theorem toList_lines (close : Char) (level : Nat) (t : String) (ts : List String) :
    (("," ++ newline (level + 1)).intercalate (t :: ts)).toList ++
        ((newline level).toList ++ [close]) =
      t.toList ++ others close level ts := by
  induction ts generalizing t with
  | nil => rw [String.intercalate_singleton, others]
  | cons u us ih =>
    rw [String.intercalate_cons_cons, others]
    simp only [String.toList_append, List.append_assoc, ih u]
    rfl

theorem stops_newline (level : Nat) (cs : List Char) : Stops ((newline level).toList ++ cs) := by
  unfold newline
  rw [String.toList_ofList]
  exact stops_cons (by decide)

theorem stops_others (close : Char) (level : Nat) (ts : List String) :
    Stops (others close level ts ++ rest) := by
  cases ts with
  | nil =>
    rw [others, List.append_assoc]
    exact stops_newline level _
  | cons t ts => exact stops_cons (by decide)

theorem length_others_pos (close : Char) (level : Nat) (ts : List String) :
    0 < (others close level ts).length := by
  cases ts <;> simp [others]

theorem items_written (plainIds : Bool) (level fuel : Nat) (rest : List Char) {js : List Json}
    (h : ∀ i ∈ j :: js, Comes room i)
    (hfuel : ((j.indented (level + 1)).toList ++
      others ']' level (indented.indentedItems (level + 1) js)).length < fuel) :
    items plainIds fuel room ((j.indented (level + 1)).toList ++
      (others ']' level (indented.indentedItems (level + 1) js) ++ rest)) =
        some (j :: js, rest) := by
  induction js generalizing j fuel with
  | nil =>
    rw [indented.indentedItems, List.length_append] at hfuel
    rw [indented.indentedItems]
    have hpos := length_others_pos ']' level []
    cases fuel with
    | zero => cases hfuel
    | succ fuel =>
      have hj := h j List.mem_cons_self plainIds (level + 1) fuel (others ']' level [] ++ rest)
        (by omega) (stops_others _ _ _)
      unfold items
      rw [hj, others, List.append_assoc]
      simp [skip_of_mark (c := ']') rfl]
  | cons i js ih =>
    rw [indented.indentedItems, others, List.length_append, List.length_cons,
      List.length_append] at hfuel
    rw [indented.indentedItems]
    cases fuel with
    | zero => cases hfuel
    | succ fuel =>
      have hj := h j List.mem_cons_self plainIds (level + 1) fuel (others ']' level
        (i.indented (level + 1) :: indented.indentedItems (level + 1) js) ++ rest) (by omega)
        (stops_others _ _ _)
      have hjs := ih fuel (fun k hk => h k (List.mem_cons_of_mem _ hk)) (by omega)
      -- The next item is on a line of its own, and is read from behind the blanks before it.
      rw [← items_skip] at hjs
      unfold items
      rw [hj, others]
      simp only [Option.bind_eq_bind, Option.bind_some, List.cons_append, List.append_assoc,
        skip_of_mark (c := ',') rfl]
      rw [← items_skip, skip_newline, hjs]
      rfl

def memberText (level : Nat) (m : String × Json) : String :=
  quoted m.1 ++ ": " ++ m.2.indented level

theorem toList_memberText (level : Nat) (m : String × Json) :
    (memberText level m).toList =
      '"' :: (m.1.toList.flatMap escapeChar ++
        '"' :: ':' :: ' ' :: (m.2.indented level).toList) := by
  unfold memberText quoted
  simp

theorem members_memberText {m : String × Json} (h : Comes room m.2)
    (hfuel : (memberText level m).toList.length < fuel) (hrest : Stops rest) :
    members plainIds (fuel + 1) room ((memberText level m).toList ++ rest) =
      match skip rest with
      | '\x7d' :: cs => some (some [m], cs)
      | ',' :: cs => (members plainIds fuel room cs).map fun x => (x.1.map (m :: ·), x.2)
      | _ => none := by
  rw [toList_memberText] at hfuel ⊢
  simp only [List.length_cons, List.length_append] at hfuel
  have hname := spelling_escaped fuel m.1.toList []
    (':' :: ' ' :: ((m.2.indented level).toList ++ rest)) false (by omega)
  have hvalue := h plainIds level fuel rest (by omega) hrest
  rw [← value_skip] at hvalue
  have hquote (cs : List Char) : skip ('"' :: cs) = '"' :: cs := skip_of_mark rfl cs
  have hcolon (cs : List Char) : skip (':' :: cs) = ':' :: cs := skip_of_mark rfl cs
  have hspace (cs : List Char) : skip (' ' :: cs) = skip cs := List.dropWhile_cons_of_pos rfl
  rw [members]
  -- In turn the quote, the name, the colon, the blank and the value are read.
  simp only [List.cons_append, List.append_assoc, hquote, hname, Option.bind_eq_bind,
    Option.bind_some, hcolon]
  rw [← value_skip, hspace, hvalue]
  simp only [List.reverse_nil, List.nil_append, String.ofList_toList, Bool.false_or,
    Option.map_eq_bind, Option.bind_some, Option.pure_def]
  rw [memberName_written]
  rfl

theorem members_written (plainIds : Bool) (level fuel : Nat) (rest : List Char)
    {m : String × Json} {ms : List (String × Json)} (h : ∀ i ∈ m :: ms, Comes room i.2)
    (hfuel : ((memberText (level + 1) m).toList ++
      others '\x7d' level (indented.indentedMembers (level + 1) ms)).length < fuel) :
    members plainIds fuel room ((memberText (level + 1) m).toList ++
      (others '\x7d' level (indented.indentedMembers (level + 1) ms) ++ rest)) =
        some (some (m :: ms), rest) := by
  induction ms generalizing m fuel with
  | nil =>
    rw [indented.indentedMembers, List.length_append] at hfuel
    rw [indented.indentedMembers]
    have hpos := length_others_pos '\x7d' level []
    cases fuel with
    | zero => cases hfuel
    | succ fuel =>
      rw [members_memberText (h m List.mem_cons_self) (by omega) (stops_others _ _ _), others,
        List.append_assoc, skip_newline, List.singleton_append, skip_of_mark (c := '\x7d') rfl]
      rfl
  | cons n ms ih =>
    have hne : indented.indentedMembers (level + 1) (n :: ms) =
      memberText (level + 1) n :: indented.indentedMembers (level + 1) ms := rfl
    rw [hne, others, List.length_append, List.length_cons, List.length_append] at hfuel
    rw [hne]
    cases fuel with
    | zero => cases hfuel
    | succ fuel =>
      have hms := ih fuel (fun k hk => h k (List.mem_cons_of_mem _ hk)) (by omega)
      rw [← members_skip] at hms
      rw [members_memberText (h m List.mem_cons_self) (by omega) (stops_others _ _ _), others,
        List.cons_append, skip_of_mark (c := ',') rfl, List.append_assoc, List.append_assoc]
      show (members plainIds fuel room _).map _ = _
      rw [← members_skip, skip_newline, hms]
      rfl

theorem toList_arr (level : Nat) (j : Json) (js : List Json) :
    ((Json.arr (j :: js)).indented level).toList =
      '[' :: ((newline (level + 1)).toList ++ ((j.indented (level + 1)).toList ++
        others ']' level (indented.indentedItems (level + 1) js))) := by
  rw [← toList_lines]
  simp [indented, indented.indentedItems]

theorem toList_obj (level : Nat) (m : String × Json) (ms : List (String × Json)) :
    ((Json.obj (m :: ms)).indented level).toList =
      '\x7b' :: ((newline (level + 1)).toList ++ ((memberText (level + 1) m).toList ++
        others '\x7d' level (indented.indentedMembers (level + 1) ms))) := by
  rw [← toList_lines]
  simp [indented, indented.indentedMembers, memberText]

theorem items_bracket (cs : List Char) : items plainIds fuel room (']' :: cs) = none := by
  match fuel with
  | 0 | 1 | _ + 2 => rfl

theorem members_brace (cs : List Char) : members plainIds fuel room ('\x7d' :: cs) = none := by
  match fuel with
  | 0 | _ + 1 => rfl

theorem comes_of_step (h : ∀ (plainIds : Bool) (level fuel : Nat) (rest : List Char),
    (j.indented level).toList.length ≤ fuel → Stops rest →
      value plainIds (fuel + 1) room ((j.indented level).toList ++ rest) = some (j, rest)) :
    Comes room j := by
  intro plainIds level fuel rest hfuel hrest
  cases fuel with
  | zero => cases hfuel
  | succ fuel => exact h plainIds level fuel rest (Nat.le_of_lt_succ hfuel) hrest

theorem Legible.comes (h : Legible room j) : Comes room j := by
  induction h with
  | null =>
    refine comes_of_step fun plainIds level fuel rest _ _ => ?_
    have htext : (Json.null.indented level).toList = ['n', 'u', 'l', 'l'] := by simp [indented]
    rw [htext]
    rfl
  | bool b =>
    refine comes_of_step fun plainIds level fuel rest _ _ => ?_
    cases b with
    | false =>
      have htext : ((Json.bool false).indented level).toList = ['f', 'a', 'l', 's', 'e'] := by
        show ("false" : String).toList = _
        simp
      rw [htext]
      rfl
    | true =>
      have htext : ((Json.bool true).indented level).toList = ['t', 'r', 'u', 'e'] := by
        show ("true" : String).toList = _
        simp
      rw [htext]
      rfl
  | int lower upper =>
    exact comes_of_step fun plainIds level fuel rest _ hrest => value_int hrest lower upper
  | str s =>
    refine comes_of_step fun plainIds level fuel rest hfuel _ => ?_
    have htext : ((Json.str s).indented level).toList =
        '"' :: (s.toList.flatMap escapeChar ++ ['"']) := by
      simp [indented, quoted]
    rw [htext] at hfuel ⊢
    rw [List.length_cons, List.length_append] at hfuel
    have hs := spelling_escaped fuel s.toList [] rest false (by omega)
    rw [value]
    simp [skip_of_mark (c := '"') rfl, hs]
  | @arr room items h ih =>
    refine comes_of_step fun plainIds level fuel rest hfuel _ => ?_
    cases items with
    | nil =>
      have htext : ((Json.arr []).indented level).toList = ['[', ']'] := by simp [indented]
      rw [htext]
      rfl
    | cons j js =>
      rw [toList_arr] at hfuel ⊢
      rw [List.length_cons, List.length_append] at hfuel
      have hitems := items_written plainIds level fuel rest ih (by omega)
      rw [value]
      rw [← items_skip] at hitems
      simp only [List.cons_append, List.append_assoc, skip_of_mark (c := '[') rfl, skip_newline]
      split
      -- The first item does not start like the end of the array.
      · next hend =>
        rw [hend, items_bracket] at hitems
        cases hitems
      · rw [Nat.add_sub_cancel, hitems]
        rfl
  | @obj room members h ih =>
    refine comes_of_step fun plainIds level fuel rest hfuel _ => ?_
    cases members with
    | nil =>
      have htext : ((Json.obj []).indented level).toList = ['\x7b', '\x7d'] := by simp [indented]
      rw [htext]
      rfl
    | cons m ms =>
      rw [toList_obj] at hfuel ⊢
      rw [List.length_cons, List.length_append] at hfuel
      have hmembers := members_written plainIds level fuel rest ih (by omega)
      rw [value]
      rw [← members_skip] at hmembers
      simp only [List.cons_append, List.append_assoc, skip_of_mark (c := '\x7b') rfl, skip_newline]
      split
      · next hend =>
        rw [hend, members_brace] at hmembers
        cases hmembers
      · rw [Nat.add_sub_cancel, hmembers]
        rfl

theorem whole_pretty (h : Legible maxNesting j) : whole plainIds j.pretty = some j := by
  have hcomes := h.comes plainIds 0 (2 * (j.indented 0).toList.length + 2) [] (by omega) stops_nil
  rw [List.append_nil] at hcomes
  unfold whole pretty
  dsimp only
  rw [hcomes]
  rfl

theorem readFile?_pretty (h : Legible maxNesting j) : readFile? j.pretty = some j :=
  whole_pretty h

end Steward.Json
