import Steward.Change.Encoding
import Steward.Proofs.Catalog.Encoding

/-!
This module contains jobs as they come back from their JSON forms, with their arguments, their fault
and their outcome.
-/

namespace Steward.Change

open Catalog
open Json (Restores)

variable (room : Nat)

theorem Kind.restores (k : Kind) : Restores toJson ofJson? room k :=
  restores_choice room (by decide) (by cases k <;> decide)

theorem Status.restores (s : Status) : Restores toJson ofJson? room s :=
  restores_choice room (by decide) (by cases s <;> decide)

/-! ### Arguments -/

def Args.Fits : Args → Prop
  | createTable table _ => table.Fits
  | truncateTable newId _ => Text.IsInt64 newId
  | addForeignKey fk _ => fk.Fits
  | _ => True

instance : (a : Args) → Decidable a.Fits
  | .createTable table _ => inferInstanceAs (Decidable table.Fits)
  | .truncateTable newId _ => inferInstanceAs (Decidable (Text.IsInt64 newId))
  | .addForeignKey fk _ => inferInstanceAs (Decidable fk.Fits)
  | .dropTable _ | .dropForeignKey _ | .dropIndex _ | .dropColumn _ => isTrue trivial

theorem Args.emptyAsNull_toJson (a : Args) : a.toJson.emptyAsNull = a.toJson := by
  cases a <;> simp [toJson, fields, Kind.toJson]

theorem Args.splitKind?_toJson (a : Args) : splitKind? a.toJson = some (a.kind, .obj a.fields) := by
  cases a <;> rfl

theorem Args.Fits.legible {a : Args} (h : a.Fits) : a.toJson.Legible (room + 6) := by
  have hkind := (a.kind.restores (room + 5)).legible
  refine .obj ?_
  cases a with
  | createTable table check => simp [fields, hkind, (Table.Fits.restores room h).legible]
  | truncateTable newId check =>
    simp [fields, hkind, (Json.restores_int64 (room + 5) h).legible]
  | addForeignKey fk check =>
    simp [fields, hkind, (ForeignKey.Fits.restores (room + 3) h).legible]
  | dropTable check | dropForeignKey name | dropIndex name | dropColumn name =>
    simp [fields, hkind]

theorem Args.Fits.restores {a : Args} (h : a.Fits) : Restores toJson ofJson? (room + 6) a where
  reads := by
  -- The arguments are held before their kind is known.
    unfold ofJson?
    rw [(h.legible 0).held? a.emptyAsNull_toJson, Option.bind_eq_bind, Option.bind_some,
      Args.splitKind?_toJson, Option.bind_eq_bind, Option.bind_some]
    -- Its kind says which record the rest is.
    cases a <;> dsimp only [kind, fields]
    case createTable table check =>
      refine Json.read_record rfl (by decide) ?_
      exact (Table.Fits.restores room h).need <| Json.need_bool rfl
    case truncateTable newId check =>
      refine Json.read_record rfl (by decide) ?_
      exact (Json.restores_int64 room h).need <| Json.need_bool rfl
    case addForeignKey fk check =>
      refine Json.read_record rfl (by decide) ?_
      exact (ForeignKey.Fits.restores room h).need <| Json.need_bool rfl
    case dropTable check => exact Json.read_record rfl (by decide) (Json.need_bool rfl)
    all_goals exact Json.read_record rfl (by decide) (Json.need_str rfl)
  legible := h.legible room

/-! ### Jobs -/

@[mk_iff]
structure Outcome.Fits (o : Outcome) : Prop where
  schemaVersion : Text.IsInt64 o.schemaVersion
  table : ∀ t ∈ o.table, t.Fits

instance (o : Outcome) : Decidable o.Fits := decidable_of_iff' _ o.fits_iff

theorem Outcome.Fits.restores {o : Outcome} (h : o.Fits) :
    Restores toJson ofJson? (room + 6) o := by
  have hversion := Json.restores_int64 (room + 5) h.schemaVersion
  have htable : Restores (Json.ofOption Table.toJson) (Json.nullable? Table.ofJson?) (room + 5)
      o.table := .option (fun _ => nofun) fun t ht => (h.table t ht).restores _
  constructor
  · refine Json.read_record rfl (by decide) ?_
    exact hversion.need <| htable.optional rfl
  · exact .obj (by simp [hversion.legible, htable.legible])

@[mk_iff]
structure Job.Fits (j : Job) : Prop where
  id : Text.IsInt64 j.id
  schemaId : Text.IsInt64 j.schemaId
  tableId : Text.IsInt64 j.tableId
  args : j.args.Fits
  schemaVersion : Text.IsInt64 j.schemaVersion
  error : ∀ f ∈ j.error, f.Fits
  errorCount : j.errorCount ≤ Text.maxNat64
  rowCount : j.rowCount ≤ Text.maxNat64
  finished : ∀ o ∈ j.finished, o.Fits

instance (j : Job) : Decidable j.Fits := decidable_of_iff' _ j.fits_iff

theorem Job.Fits.restores {j : Job} (h : j.Fits) : Restores toJson ofFileJson? (room + 7) j := by
  have hid := Json.restores_int64 (room + 6) h.id
  have hkind := j.kind.restores (room + 6)
  have hschemaId := Json.restores_int64 (room + 6) h.schemaId
  have htableId := Json.restores_int64 (room + 6) h.tableId
  have hstage := j.stage.restores (room + 6)
  have hstatus := j.status.restores (room + 6)
  have hargs := h.args.restores room
  have hversion := Json.restores_int64 (room + 6) h.schemaVersion
  have herror : Restores (Json.ofOption Fault.toJson) (Json.nullable? Fault.ofFileJson?) (room + 6)
      j.error := .option Fault.toJson_ne_null fun f hf => (h.error f hf).restores _
  have herrorCount := Json.restores_nat64 (room + 6) h.errorCount
  have hrowCount := Json.restores_nat64 (room + 6) h.rowCount
  have hfinished : Restores (Json.ofOption Outcome.toJson) (Json.nullable? Outcome.ofJson?)
      (room + 6) j.finished := .option (fun _ => nofun) fun o ho => (h.finished o ho).restores _
  constructor
  · refine Json.read_record rfl (by decide) ?_
    exact hid.need <| hkind.need <| hschemaId.need <| htableId.need <| Json.need_str <|
      Json.need_str <| hstage.need <| hstatus.need <| hargs.need <| hversion.orElse <|
      herror.orElse <| herrorCount.orElse <| hrowCount.orElse <| hfinished.orElse rfl
  · exact .obj (by simp [members, hid.legible, hkind.legible, hschemaId.legible, htableId.legible,
      hstage.legible, hstatus.legible, hargs.legible, hversion.legible, herror.legible,
      herrorCount.legible, hrowCount.legible, hfinished.legible])

end Steward.Change
