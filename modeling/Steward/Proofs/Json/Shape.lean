import Steward.Data.SortedMap.Lemmas
import Steward.Json.Basic
import Steward.Json.Shape
import Steward.Proofs.Json.Legible

/-!
This module contains the values that come back from their JSON forms: `Restores` is shown of each
shape that a field of a record can have, given that it holds of the parts.
-/

namespace Steward.Json

variable {α : Type} {write : α → Json} {read : Json → Option α} {room : Nat} {a : α} {n : Int}

structure Restores (write : α → Json) (read : Json → Option α) (room : Nat) (a : α) : Prop where
  reads : read (write a) = some a
  legible : (write a).Legible room

attribute [simp] Legible.null Legible.bool Legible.str

/-! ### Single values -/

theorem restores_str (room : Nat) (s : String) : Restores .str str? room s := ⟨rfl, .str s⟩

theorem restores_int64 (room : Nat) (h : Text.IsInt64 n) : Restores .int int64? room n where
  reads := if_pos h
  legible := by
    refine .int h.1 (Int.le_trans h.2 ?_)
    decide

theorem reads_nat {limit k : Nat} (h : k ≤ limit) :
    (Json.nat k).intIn? 0 limit = some (k : Int) :=
  if_pos ⟨Int.natCast_nonneg k, Int.ofNat_le.2 h⟩

theorem legible_nat {k : Nat} (h : k ≤ Text.maxNat64) : (Json.nat k).Legible room :=
  .int (Int.le_trans (by decide) (Int.natCast_nonneg k)) (Int.ofNat_le.2 h)

theorem restores_nat64 (room : Nat) {k : Nat} (h : k ≤ Text.maxNat64) :
    Restores .nat nat64? room k where
  reads := by
    unfold nat64?
    rw [reads_nat h]
    rfl
  legible := legible_nat h

theorem restores_nat32 (room : Nat) {k : Nat} (h : k ≤ Text.maxNat32) :
    Restores .nat nat32? room k where
  reads := by
    unfold nat32?
    rw [reads_nat h]
    rfl
  legible := legible_nat (Nat.le_trans h (by decide))

/-! ### Lists, options and maps -/

theorem mapM_map_of_some {β γ : Type} {f : α → β} {g : β → Option γ} {k : α → γ} {as : List α}
    (h : ∀ a ∈ as, g (f a) = some (k a)) : (as.map f).mapM g = some (as.map k) := by
  induction as with
  | nil => rfl
  | cons a as ih =>
    rw [List.map_cons, List.mapM_cons, h a List.mem_cons_self,
      ih fun b hb => h b (List.mem_cons_of_mem a hb)]
    rfl

theorem Restores.list {as : List α} (h : ∀ a ∈ as, Restores write read room a) :
    Restores (ofList write) (list? read) (room + 1) as where
  reads := by
    have has := mapM_map_of_some fun a ha => (h a ha).reads
    rwa [List.map_id'] at has
  legible := by
    refine .arr fun j hj => ?_
    obtain ⟨a, ha, rfl⟩ := List.mem_map.1 hj
    exact (h a ha).legible

theorem restores_strings (room : Nat) (ss : List String) :
    Restores ofStrings (list? str?) (room + 1) ss := .list fun s _ => restores_str room s

theorem nullable?_of_ne {j : Json} (h : j ≠ .null) : j.nullable? read = (read j).map some := by
  cases j <;> first | exact absurd rfl h | rfl

theorem Restores.option {o : Option α} (hne : ∀ a, write a ≠ .null)
    (h : ∀ a ∈ o, Restores write read room a) :
    Restores (ofOption write) (nullable? read) room o where
  reads := by
    cases o with
    | none => rfl
    | some a =>
      show (write a).nullable? read = _
      rw [nullable?_of_ne (hne a), (h a rfl).reads]
      rfl
  legible := by
    cases o with
    | none => exact .null
    | some a => exact (h a rfl).legible

theorem ofList_entries (m : IdMap α) : SortedMap.ofList m.entries = m := by
  -- The later of two entries with one id would count, but no id is there twice.
  refine SortedMap.ext_get? fun k => ?_
  cases hm : m.get? k with
  | none =>
    refine Option.eq_none_iff_forall_ne_some.2 fun a ha => ?_
    have hmem := SortedMap.mem_entries_iff.1 (SortedMap.mem_of_get?_ofList ha)
    cases hm.symm.trans hmem
  | some a =>
    refine SortedMap.get?_ofList_of_mem (SortedMap.mem_entries_iff.2 hm) fun b hb => ?_
    exact Option.some.inj ((SortedMap.mem_entries_iff.1 hb).symm.trans hm)

theorem Restores.idMap {m : IdMap α}
    (h : ∀ e ∈ m.entries, Text.IsInt64 e.1 ∧ Restores write read room e.2) :
    Restores (ofIdMap write) (idMap? read) (room + 1) m where
  reads := by
    have hentries : (m.entries.map fun e => (toString e.1, write e.2)).mapM
        (fun (x : String × Json) => do return (← id? x.1, ← read x.2)) = some m.entries := by
      rw [mapM_map_of_some (k := id), List.map_id]
      intro e he
      obtain ⟨hid, hvalue⟩ := h e he
      rw [id?_toString hid, hvalue.reads]
      rfl
    unfold ofIdMap idMap?
    dsimp only
    rw [hentries, Option.bind_eq_bind, Option.bind_some, ofList_entries]
    rfl
  legible := by
    refine .obj fun x hx => ?_
    obtain ⟨e, he, rfl⟩ := List.mem_map.1 hx
    exact (h e he).2.legible

/-! ### Records -/

theorem filter_of_nodup {ms : List (String × Json)} {m : String × Json}
    (hnodup : (ms.map (·.1)).Nodup) (hm : m ∈ ms) : (ms.filter fun x => x.1 == m.1) = [m] := by
  induction ms with
  | nil => cases hm
  | cons x ms ih =>
    rw [List.map_cons, List.nodup_cons] at hnodup
    rcases List.mem_cons.1 hm with rfl | hm
    · rw [List.filter_cons_of_pos (by simp), List.filter_eq_nil_iff.2]
      intro y hy hsame
      exact hnodup.1 (beq_iff_eq.1 hsame ▸ List.mem_map_of_mem hy)
    · rw [List.filter_cons_of_neg, ih hnodup.2 hm]
      intro hsame
      exact hnodup.1 (beq_iff_eq.1 hsame ▸ List.mem_map_of_mem hm)

theorem fields?_obj {names : List String} {ms : List (String × Json)}
    (hnames : ms.map (·.1) = names) (hnodup : names.Nodup) :
    (Json.obj ms).fields? names = some (ms.map fun m => .given m.2) := by
  subst hnames
  refine mapM_map_of_some fun m hm => ?_
  rw [filter_of_nodup hnodup hm]

theorem read_record {names : List String} {ms : List (String × Json)}
    {build : List Field → Option α} (hnames : ms.map (·.1) = names) (hnodup : names.Nodup)
    (hbuild : build (ms.map fun m => .given m.2) = some a) :
    ((Json.obj ms).fields? names >>= build) = some a := by
  rw [fields?_obj hnames hnodup]
  exact hbuild

section Fields

variable {β : Type} {build : α → Option β} {b : β}

theorem Restores.need (h : Restores write read room a) (hbuild : build a = some b) :
    ((Field.given (write a)).need read >>= build) = some b := by
  show (read (write a)).bind build = _
  rw [h.reads]
  exact hbuild

theorem Restores.orElse {default : α} (h : Restores write read room a)
    (hbuild : build a = some b) :
    ((Field.given (write a)).orElse default read >>= build) = some b := h.need hbuild

theorem Restores.optional {o : Option α} {build : Option α → Option β}
    (h : Restores (ofOption write) (nullable? read) room o) (hbuild : build o = some b) :
    ((Field.given (ofOption write o)).optional read >>= build) = some b := h.need hbuild

theorem need_str {s : String} {build : String → Option β} (hbuild : build s = some b) :
    ((Field.given (.str s)).need str? >>= build) = some b := hbuild

theorem need_bool {x : Bool} {build : Bool → Option β} (hbuild : build x = some b) :
    ((Field.given (.bool x)).need bool? >>= build) = some b := hbuild

theorem orElse_bool {x default : Bool} {build : Bool → Option β} (hbuild : build x = some b) :
    ((Field.given (.bool x)).orElse default bool? >>= build) = some b := hbuild

end Fields

/-! ### Values that are held -/

@[simp]
theorem emptyAsNull_int (n : Int) : (Json.int n).emptyAsNull = .int n := rfl

@[simp]
theorem emptyAsNull_nat (n : Nat) : (Json.nat n).emptyAsNull = .nat n := rfl

@[simp]
theorem emptyAsNull_bool (b : Bool) : (Json.bool b).emptyAsNull = .bool b := rfl

@[simp]
theorem emptyAsNull_str (s : String) : (Json.str s).emptyAsNull = .str s := rfl

@[simp]
theorem emptyAsNull_arr (js : List Json) :
    (Json.arr js).emptyAsNull = .arr (js.map emptyAsNull) := by
  have hitems (js : List Json) : emptyAsNull.emptyItems js = js.map emptyAsNull := by
    induction js with
    | nil => rfl
    | cons j js ih => rw [emptyAsNull.emptyItems, ih, List.map_cons]
  rw [emptyAsNull, hitems]

@[simp]
theorem emptyAsNull_obj (m n : String × Json) (ms : List (String × Json)) :
    (Json.obj (m :: n :: ms)).emptyAsNull =
      .obj ((m :: n :: ms).map fun x => (x.1, x.2.emptyAsNull)) := by
  have hmembers (ms : List (String × Json)) :
      emptyAsNull.emptyMembers ms = ms.map fun x => (x.1, x.2.emptyAsNull) := by
    induction ms with
    | nil => rfl
    | cons m ms ih => rw [emptyAsNull.emptyMembers, ih, List.map_cons]
  rw [emptyAsNull, hmembers]
  simp

@[simp]
theorem emptyAsNull_ofList (h : ∀ a, (write a).emptyAsNull = write a) (as : List α) :
    (ofList write as).emptyAsNull = ofList write as := by
  simp [ofList, h]

@[simp]
theorem emptyAsNull_ofOption (h : ∀ a, (write a).emptyAsNull = write a) (o : Option α) :
    (ofOption write o).emptyAsNull = ofOption write o := by
  cases o with
  | none => rfl
  | some a => exact h a

@[simp]
theorem emptyAsNull_strings (ss : List String) : (ofStrings ss).emptyAsNull = ofStrings ss :=
  emptyAsNull_ofList (fun _ => rfl) ss

@[simp]
theorem emptyAsNull_length (o : Option Nat) :
    (ofOption .nat o).emptyAsNull = ofOption .nat o := emptyAsNull_ofOption (fun _ => rfl) o

theorem Legible.isReadable {j : Json} (h : j.Legible room) : j.isReadable = true := by
  induction h with
  | null | bool | int | str => rfl
  | @arr room items h ih =>
    clear h
    rw [Json.isReadable]
    induction items with
    | nil => rfl
    | cons j js hjs =>
      rw [isReadable.readableItems, ih j List.mem_cons_self, Bool.true_and]
      exact hjs (fun i hi => ih i (List.mem_cons_of_mem j hi))
  | @obj room members h ih =>
    clear h
    rw [Json.isReadable]
    induction members with
    | nil => rfl
    | cons m ms hms =>
      rw [isReadable.readableMembers, ih m List.mem_cons_self, Bool.true_and]
      exact hms (fun i hi => ih i (List.mem_cons_of_mem m hi))

theorem Legible.held? {j : Json} (h : j.Legible room) (hempty : j.emptyAsNull = j) :
    j.held? = some j := by
  unfold Json.held?
  rw [if_pos h.isReadable, hempty]

end Steward.Json
