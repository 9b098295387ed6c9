import Steward.Ledger.Store
import Steward.Proofs.Change.Encoding
import Steward.Proofs.Ledger.Commit

/-!
This module contains what a file keeps of the ledger: a snapshot is read again from the text that
was written of it, so a ledger that was opened on a file and has committed since is found there
again.
-/

namespace Steward.Ledger

open Catalog (Fault Schema Table)
open Change (Args Job Trouble)
open Json (Restores)

namespace Snapshot

/--
Every number of the snapshot has room in its type: its revision has 64 bits, and versions and ids
have 64 bits with a sign.
-/
@[mk_iff]
structure Fits (s : Snapshot) : Prop where
  revision : s.revision ≤ Text.maxNat64
  schemaVersion : Text.IsInt64 s.catalog.schemaVersion
  jobTablesVersion : Text.IsInt64 s.catalog.jobTablesVersion
  lastId : Text.IsInt64 s.lastId
  schemas : ∀ e ∈ s.catalog.schemas.entries, Text.IsInt64 e.1 ∧ e.2.Fits
  tables : ∀ e ∈ s.catalog.tables.entries,
    Text.IsInt64 e.1 ∧ ∀ x ∈ e.2.entries, Text.IsInt64 x.1 ∧ x.2.Fits
  jobs : ∀ e ∈ s.jobs.entries, Text.IsInt64 e.1 ∧ e.2.Fits
  history : ∀ e ∈ s.history.entries, Text.IsInt64 e.1 ∧ e.2.Fits

instance (s : Snapshot) : Decidable s.Fits := decidable_of_iff' _ s.fits_iff

theorem Fits.restores (room : Nat) {s : Snapshot} (h : s.Fits) :
    Restores toJson (read? Job.ofFileJson?) (room + 9) s := by
  have hrevision := Json.restores_nat64 (room + 8) h.revision
  have hschemaVersion := Json.restores_int64 (room + 8) h.schemaVersion
  have hjobTablesVersion := Json.restores_int64 (room + 8) h.jobTablesVersion
  have hlastId := Json.restores_int64 (room + 8) h.lastId
  have hschemas : Restores (Json.ofIdMap Schema.toJson) (Json.idMap? Schema.ofJson?) (room + 8)
      s.catalog.schemas :=
    .idMap fun e he => ⟨(h.schemas e he).1, Schema.Fits.restores _ (h.schemas e he).2⟩
  have htables : Restores (Json.ofIdMap (Json.ofIdMap Table.toJson))
      (Json.idMap? (Json.idMap? Table.ofJson?)) (room + 8) s.catalog.tables :=
    .idMap fun e he => ⟨(h.tables e he).1,
      .idMap fun x hx => ⟨((h.tables e he).2 x hx).1, ((h.tables e he).2 x hx).2.restores _⟩⟩
  have hjobs : Restores (Json.ofIdMap Job.toJson) (Json.idMap? Job.ofFileJson?) (room + 8) s.jobs :=
    .idMap fun e he => ⟨(h.jobs e he).1, (h.jobs e he).2.restores _⟩
  have hhistory : Restores (Json.ofIdMap Job.toJson) (Json.idMap? Job.ofFileJson?) (room + 8)
      s.history := .idMap fun e he => ⟨(h.history e he).1, (h.history e he).2.restores _⟩
  constructor
  · refine Json.read_record rfl (by decide) ?_
    exact hrevision.need <| hschemaVersion.need <| hjobTablesVersion.need <| hschemas.need <|
      htables.need <| hlastId.need <| hjobs.need <| hhistory.need rfl
  · exact .obj (by simp [hrevision.legible, hschemaVersion.legible, hjobTablesVersion.legible,
      hlastId.legible, hschemas.legible, htables.legible, hjobs.legible, hhistory.legible])

theorem ofText?_text {s : Snapshot} (h : s.Fits) : ofText? s.text = some s := by
  -- A snapshot has up to nine levels of containers, and a reader takes 127.
  have hread : Json.readFile? s.toJson.pretty = some s.toJson :=
    Json.readFile?_pretty (h.restores 118).legible
  unfold ofText? text
  rw [hread, Option.bind_some]
  exact (h.restores 0).reads

end Snapshot

namespace Store

variable {s s' : Store} {file : File} {snapshot : Snapshot}

def Saved (s : Store) : Prop := s.file = some (.text s.snapshot.text)

theorem persist_eq_ok (hfile : s.file ≠ none) (h : s.persist snapshot = .ok s') :
    s' = ⟨s.snapshot, some (.text snapshot.text)⟩ := by
  unfold persist at h
  split at h
  · next hnone => exact absurd hnone hfile
  · cases h
  · cases h
    rfl

theorem persist_of_ne_directory (snapshot : Snapshot) (hfile : s.file = some file)
    (hne : file ≠ .directory) :
    s.persist snapshot = .ok ⟨s.snapshot, some (.text snapshot.text)⟩ := by
  unfold persist
  split
  · next hnone => cases hfile.symm.trans hnone
  · next hdirectory => exact absurd (Option.some.inj (hfile.symm.trans hdirectory)) hne
  · rfl

theorem commit_of_writable (hf : s.file ≠ some .directory) (t : Txn) :
    (∃ e, s.commit t = .error e ∧ (Store.mk s.snapshot none).commit t = .error e) ∨
    ∃ next file, file ≠ some File.directory ∧ s.commit t = .ok ⟨next, file⟩ ∧
      (Store.mk s.snapshot none).commit t = .ok ⟨next, none⟩ := by
  have hsame : (Store.mk s.snapshot none).merged t = s.merged t := rfl
  cases hm : s.merged t with
  | error e =>
    left
    unfold commit
    rw [hsame, hm]
    exact ⟨e, rfl, rfl⟩
  | ok next =>
    right
    have hmemory := commit_of_merged (s := Store.mk s.snapshot none) rfl (hsame.trans hm)
    cases hfile : s.file with
    | none => exact ⟨next, none, nofun, commit_of_merged hfile hm, hmemory⟩
    | some file =>
      have hne : file ≠ .directory := by
        rintro rfl
        exact hf hfile
      refine ⟨next, some (.text next.text), nofun, ?_, hmemory⟩
      unfold commit
      rw [hm]
      dsimp only [bind, Except.bind]
      rw [persist_of_ne_directory next hfile hne]
      rfl

theorem saved_of_load (h : load file = .ok s) : s.Saved := by
  unfold load at h
  split at h
  · cases h
  · rw [persist_eq_ok (by simp) h]
    rfl
  · split at h
    · rw [persist_eq_ok (by simp) h]
      rfl
    · cases h

theorem Saved.commit {t : Txn} (h : s.Saved) (hcommit : s.commit t = .ok s') : s'.Saved := by
  obtain ⟨next, -, hpersist⟩ := bind_eq_ok.1 hcommit
  obtain ⟨kept, hkept, hsame⟩ := bind_eq_ok.1 hpersist
  cases hsame
  rw [persist_eq_ok (by rw [h]; simp) hkept]
  rfl

theorem Saved.commits {ts : List Txn} (h : s.Saved) (hrun : ts.foldlM Store.commit s = .ok s') :
    s'.Saved := by
  induction ts generalizing s with
  | nil =>
    cases hrun
    exact h
  | cons t ts ih =>
    rw [List.foldlM_cons] at hrun
    obtain ⟨next, hcommit, hrest⟩ := bind_eq_ok.1 hrun
    exact ih (h.commit hcommit) hrest

theorem Saved.load (h : s.Saved) (hfits : s.snapshot.Fits) :
    Store.load (.text s.snapshot.text) = .ok s := by
  unfold Store.load
  dsimp only
  rw [Snapshot.ofText?_text hfits]
  dsimp only
  rw [persist_of_ne_directory s.snapshot rfl (by simp)]
  obtain ⟨snapshot, kept⟩ := s
  have hkept : kept = some (.text snapshot.text) := h
  rw [hkept]

/--
Nothing is lost in a file. Every snapshot whose numbers have room in their types is read again from
the file that it was written to; so whatever transactions were committed to a ledger that was opened
on a file, whoever opens it there next finds the ledger as it was left.
-/
theorem loses_nothing :
    (∀ (old s : Snapshot) (file : File), s.Fits → file ≠ .directory →
      ∃ text, Store.persist ⟨old, some file⟩ s = .ok ⟨old, some (.text text)⟩ ∧
        Snapshot.ofText? text = some s) ∧
      ∀ (file : File) (ts : List Txn) (s₀ s : Store), Store.load file = .ok s₀ →
        ts.foldlM Store.commit s₀ = .ok s → s.snapshot.Fits →
          ∃ kept, s.file = some kept ∧ Store.load kept = .ok s := by
  constructor
  · intro old s file hfits hfile
    exact ⟨s.text, persist_of_ne_directory s rfl hfile, Snapshot.ofText?_text hfits⟩
  · intro file ts s₀ s hload hrun hfits
    have hsaved := (saved_of_load hload).commits hrun
    exact ⟨.text s.snapshot.text, hsaved, hsaved.load hfits⟩

/--
A table with something in most of its fields, and a name that has to be escaped.
-/
def variedTable : Table where
  id := -7
  name := "größe\n\t\\ 😀"
  columns := [
    ⟨1, "a", 0, .varchar 20, some ⟨"b + 1", false⟩, false, false, .live⟩,
    ⟨2, "b", 1, .bigint, none, true, true, .writeOnly⟩]
  indices := [⟨1, "", [⟨"a", 0, some 5⟩, ⟨"b", 1, none⟩], true, false, .deleteOnly⟩]
  foreignKeys := [⟨3, "k", "s", "p", ["x", "y"], ["a", "b"], .setNull, .cascade, .writeReorg, 1⟩]
  maxColumnId := 2
  maxIndexId := 1
  maxForeignKeyId := 3
  pkIsHandle := true
  temporary := .session
  expiry := none
  partitioning := some ⟨"b", 4⟩
  stage := .live
  updated := Text.maxNat64

def variedJob (id : Int) (args : Args) (error : Option Fault) : Job :=
  { Job.ofArgs (-3) (-7) "s" "größe" args with
    id, error, errorCount := 1, finished := some ⟨2, some variedTable⟩ }

def variedSnapshot : Snapshot where
  revision := 4
  catalog := {
    schemaVersion := 2
    jobTablesVersion := Text.minInt64
    schemas := .ofList [(-3, ⟨-3, "s", .live⟩)]
    tables := .ofList [(-3, .ofList [(-7, variedTable)]), (5, .ofList [])] }
  lastId := 9
  jobs := .ofList [
    (-2, variedJob (-2) (.createTable variedTable true) (some .cannotAddForeign)),
    (-1, variedJob (-1) (.dropTable false) (some (.invalidState "table" .writeOnly))),
    (0, variedJob 0 (.truncateTable (-8) true) (some (.writeConflict 3 4))),
    (1, variedJob 1 (.addForeignKey (.ofNames "k" ["a"] "s" "p" ["x"]) true) none)]
  history := .ofList [
    (2, variedJob 2 (.dropForeignKey "k") (some (.foreignKeyColumnNotMatch "a" "x" "k"))),
    (3, variedJob 3 (.dropIndex "i") (some (.noSuchTable "s" "p"))),
    (4, variedJob 4 (.dropColumn "a") (some (.internal "\\")))]

theorem fits_variedSnapshot : variedSnapshot.Fits := by decide +kernel

theorem loses_nothing_variedSnapshot :
    (∃ text, Store.persist ⟨.initial, some .missing⟩ variedSnapshot =
        .ok ⟨.initial, some (.text text)⟩ ∧ Snapshot.ofText? text = some variedSnapshot) ∧
      ∃ s₀ s, Store.load .missing = .ok s₀ ∧
        [Txn.mk .initial variedSnapshot].foldlM Store.commit s₀ = .ok s ∧
          s.snapshot = { variedSnapshot with revision := 1 } ∧
            ∃ kept, s.file = some kept ∧ Store.load kept = .ok s := by
  obtain ⟨hwritten, hreopened⟩ := loses_nothing
  have hcommitted : ({ variedSnapshot with revision := 1 } : Snapshot).Fits := by decide +kernel
  exact ⟨hwritten .initial variedSnapshot .missing fits_variedSnapshot (by simp), _, _, rfl, rfl,
    rfl, hreopened .missing [⟨.initial, variedSnapshot⟩] _ _ rfl rfl hcommitted⟩

end Store

end Steward.Ledger
