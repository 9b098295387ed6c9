import Mathlib.Data.List.Nodup
import Steward.Runaway.Pipeline

/-!
This module contains the watch tables as all servers share them, how they answer the statements of
the errands, and what the errands do to them. A row is inserted under the next id and is seen at
once, and the move of a row is not interrupted.
-/

namespace Steward

open Sql (Dialogue Reply Row Statement Value)

/--
Holds a dialogue to its end when all sessions can be had and every statement is answered at once.
-/
def Sql.Dialogue.playOut {σ τ : Type} {α : Type} (serve : τ → Statement → Reply × τ) (now : Now) :
    Dialogue σ α → σ → τ → α × σ × τ
  | .done a, s, t => (a, s, t)
  | .look k, s, t => (k now s).playOut serve now s t
  | .store s next, _, t => next.playOut serve now s t
  | .acquire k, s, t => (k (.ok ())).playOut serve now s t
  | .send st k, s, t => (k (.ok (serve t st).1)).playOut serve now s (serve t st).2
  | .release next, s, t => next.playOut serve now s t

theorem Sql.Dialogue.playOut_bind {σ τ α β : Type} (serve : τ → Statement → Reply × τ) (now : Now)
    (d : Dialogue σ α) (f : α → Dialogue σ β) (s : σ) (t : τ) :
    (d.bind f).playOut serve now s t =
      (f (d.playOut serve now s t).1).playOut serve now (d.playOut serve now s t).2.1
        (d.playOut serve now s t).2.2 := by
  induction d generalizing s t with
  | done a => rfl
  | look k ih => exact ih _ _ _ _
  | store s next ih => exact ih _ _
  | acquire k ih => exact ih _ _ _
  | send st k ih => exact ih _ _ _
  | release next ih => exact ih _ _

namespace Runaway

open Sql (Trouble)

structure Tables where
  watches : List Watch
  /-- The id of the last row that was inserted. -/
  lastWatch : Int
  /-- The rows of the done table: the watches and the ids of their rows there. -/
  done : List (Watch × Int)
  /-- The id of the last row of the done table. -/
  lastDone : Int
deriving DecidableEq

namespace Tables

def empty : Tables := ⟨[], 0, [], 0⟩

def insert (t : Tables) (w : Watch) : Tables :=
  { t with
    watches := t.watches ++ [{ w with id := t.lastWatch + 1 }]
    lastWatch := t.lastWatch + 1 }

def copy (t : Tables) (id : Int) : Tables :=
  match t.watches.find? (·.id == id) with
  | none => t
  | some w => { t with done := t.done ++ [(w, t.lastDone + 1)], lastDone := t.lastDone + 1 }

def delete (t : Tables) (id : Int) : Tables :=
  { t with watches := t.watches.filter (·.id != id) }

/--
The tables after a row was moved to the done table. One that is not there is not moved.
-/
def move (t : Tables) (id : Int) : Tables := (t.copy id).delete id

def watchesAfter (t : Tables) (after : Int) : List Watch :=
  t.watches.filter fun w => after < w.id

def doneAfter (t : Tables) (after : Int) : List (Watch × Int) :=
  t.done.filter fun r => after < r.2

def watchRow (w : Watch) : Row := ⟨.int w.id :: w.params⟩

def doneRow (r : Watch × Int) : Row := ⟨.int r.1.id :: r.1.params ++ [.int r.2]⟩

def serve (t : Tables) (st : Statement) : Reply × Tables :=
  match st.params with
  | [.int id] =>
    if st.sql = (Storage.selectWatches id).sql then (.ofRows ((t.watchesAfter id).map watchRow), t)
    else if st.sql = (Storage.selectDone id).sql then (.ofRows ((t.doneAfter id).map doneRow), t)
    else if st.sql = (Storage.deleteWatch default).sql then (.ofAffected 1, t.delete id)
    else (.nothing, t)
  | [.time done, .int id] =>
    if st.sql = (Storage.copyWatch default done).sql then (.ofAffected 1, t.copy id)
    else (.nothing, t)
  | [.text _, .text table] =>
    if st.sql = (Storage.findTable table).sql then (.ofRows [⟨[.int 1]⟩], t) else (.nothing, t)
  | params =>
    if st.sql = (Storage.insertWatch default).sql then
      match Watch.ofRow ⟨.int 0 :: params⟩ with
      | .ok w => (.ofInserted (t.lastWatch + 1).toNat, t.insert w)
      | .error _ => (.nothing, t)
    else (.nothing, t)

end Tables

theorem Watch.ofRow_params (w : Watch) (id : Int) (more : List Value) :
    Watch.ofRow ⟨.int id :: w.params ++ more⟩ = .ok { w with id } := by
  obtain ⟨_, group, start, stop, target, text, source, action, switchGroup, cause⟩ := w
  cases stop <;> cases target <;> cases action <;> rfl

namespace Tables

variable (t : Tables)

section Serve

theorem serve_findTable (table : String) :
    t.serve (Storage.findTable table) = (.ofRows [⟨[.int 1]⟩], t) := by
  have hparams : (Storage.findTable table).params = [.text "mysql", .text table] := rfl
  unfold serve
  rw [hparams]
  dsimp only
  rw [if_pos rfl]

theorem serve_selectWatches (after : Int) :
    t.serve (Storage.selectWatches after) = (.ofRows ((t.watchesAfter after).map watchRow), t) := by
  have hparams : (Storage.selectWatches after).params = [.int after] := rfl
  unfold serve
  rw [hparams]
  dsimp only
  rw [if_pos rfl]

theorem serve_selectDone (after : Int) :
    t.serve (Storage.selectDone after) = (.ofRows ((t.doneAfter after).map doneRow), t) := by
  have hne : (Storage.selectDone 0).sql ≠ (Storage.selectWatches 0).sql := by decide +kernel
  have hne' : (Storage.selectDone after).sql ≠ (Storage.selectWatches after).sql := hne
  have hparams : (Storage.selectDone after).params = [.int after] := rfl
  unfold serve
  rw [hparams]
  dsimp only
  rw [if_neg hne', if_pos rfl]

theorem serve_deleteWatch (w : Watch) :
    t.serve (Storage.deleteWatch w) = (.ofAffected 1, t.delete w.id) := by
  have hwatches : (Storage.deleteWatch default).sql ≠ (Storage.selectWatches 0).sql := by
    decide +kernel
  have hdone : (Storage.deleteWatch default).sql ≠ (Storage.selectDone 0).sql := by
    decide +kernel
  have hwatches' : (Storage.deleteWatch w).sql ≠ (Storage.selectWatches w.id).sql := hwatches
  have hdone' : (Storage.deleteWatch w).sql ≠ (Storage.selectDone w.id).sql := hdone
  have hsame : (Storage.deleteWatch w).sql = (Storage.deleteWatch default).sql := rfl
  have hparams : (Storage.deleteWatch w).params = [.int w.id] := rfl
  unfold serve
  rw [hparams]
  dsimp only
  rw [if_neg hwatches', if_neg hdone', if_pos hsame]

theorem serve_copyWatch (w : Watch) (done : Moment) :
    t.serve (Storage.copyWatch w done) = (.ofAffected 1, t.copy w.id) := by
  have hsame : (Storage.copyWatch w done).sql = (Storage.copyWatch default done).sql := rfl
  have hparams : (Storage.copyWatch w done).params = [.time done, .int w.id] := rfl
  unfold serve
  rw [hparams]
  dsimp only
  rw [if_pos hsame]

theorem serve_insertWatch (w : Watch) :
    t.serve (Storage.insertWatch w) = (.ofInserted (t.lastWatch + 1).toNat, t.insert w) := by
  have hrow := Watch.ofRow_params w 0 []
  have hsame : (Storage.insertWatch w).sql = (Storage.insertWatch default).sql := rfl
  have hparams : (Storage.insertWatch w).params = w.params := rfl
  rw [List.append_nil] at hrow
  unfold serve
  rw [hparams]
  dsimp only [Watch.params]
  rw [if_pos hsame]
  dsimp only [Watch.params] at hrow
  rw [hrow]
  rfl

theorem serve_plain (sql : String) (h : sql ≠ (Storage.insertWatch default).sql) :
    t.serve ⟨sql, []⟩ = (.nothing, t) := by
  unfold serve
  dsimp only
  rw [if_neg h]

end Serve

end Tables

namespace Tables

def doneRows (t : Tables) : List Watch := t.done.map (·.1)

def rows (t : Tables) : List Watch := t.watches ++ t.doneRows

/--
Every row has an id of its own, which was given out.
-/
structure Sound (t : Tables) : Prop where
  nodup : (t.rows.map (·.id)).Nodup
  bounds : ∀ w ∈ t.rows, 0 < w.id ∧ w.id ≤ t.lastWatch
  nonneg : 0 ≤ t.lastWatch

structure Grows (t t' : Tables) : Prop where
  rows : ∀ w ∈ t.rows, w ∈ t'.rows
  doneRows : ∀ w ∈ t.doneRows, w ∈ t'.doneRows
  watches : ∀ w ∈ t'.watches, w ∈ t.watches ∨ t.lastWatch < w.id
  lastWatch : t.lastWatch ≤ t'.lastWatch

variable {t t' : Tables} {v w : Watch}

theorem sound_empty : empty.Sound := ⟨.nil, fun _ h => absurd h List.not_mem_nil, Int.le_refl _⟩

theorem Grows.refl (t : Tables) : t.Grows t :=
  ⟨fun _ h => h, fun _ h => h, fun _ h => .inl h, Int.le_refl _⟩

theorem Sound.eq_of_id (h : t.Sound) (hv : v ∈ t.rows) (hw : w ∈ t.rows) (hid : v.id = w.id) :
    v = w := List.inj_on_of_nodup_map h.nodup hv hw hid

theorem Sound.isDurable (h : t.Sound) (hw : w ∈ t.rows) : w.isDurable := by
  have hpos := (h.bounds w hw).1
  simp only [Watch.isDurable, bne_iff_ne, ne_eq]
  omega

theorem Sound.not_done (h : t.Sound) (hw : w ∈ t.watches) : w ∉ t.doneRows := by
  intro hdone
  have hnodup := h.nodup
  unfold rows at hnodup
  rw [List.map_append] at hnodup
  exact (List.nodup_append.1 hnodup).2.2 w.id (List.mem_map_of_mem hw) w.id
    (List.mem_map_of_mem hdone) rfl

section Insert

theorem mem_watches_insert : v ∈ (t.insert w).watches ↔
    v ∈ t.watches ∨ v = { w with id := t.lastWatch + 1 } := by
  unfold insert
  rw [List.mem_append, List.mem_singleton]

theorem rows_insert (t : Tables) (w : Watch) :
    (t.insert w).rows.Perm ({ w with id := t.lastWatch + 1 } :: t.rows) := by
  unfold insert rows
  rw [List.append_assoc]
  exact List.perm_middle

theorem grows_insert (t : Tables) (w : Watch) : t.Grows (t.insert w) where
  rows v hv := (rows_insert t w).mem_iff.2 (List.mem_cons_of_mem _ hv)
  doneRows v hv := hv
  watches v hv := by
    cases mem_watches_insert.1 hv with
    | inl hv => exact .inl hv
    | inr hv =>
      right
      rw [hv]
      exact Int.lt_succ _
  lastWatch := Int.le_of_lt (Int.lt_succ _)

theorem Sound.insert (h : t.Sound) (w : Watch) : (t.insert w).Sound where
  nodup := by
    rw [((rows_insert t w).map (·.id)).nodup_iff, List.map_cons, List.nodup_cons]
    refine ⟨?_, h.nodup⟩
    intro hmem
    obtain ⟨v, hv, hid⟩ := List.mem_map.1 hmem
    have hle := (h.bounds v hv).2
    dsimp only at hid
    omega
  bounds v hv := by
    have hnonneg := h.nonneg
    show 0 < v.id ∧ v.id ≤ t.lastWatch + 1
    cases List.mem_cons.1 ((rows_insert t w).mem_iff.1 hv) with
    | inl hv =>
      rw [hv]
      exact ⟨by dsimp only; omega, Int.le_refl _⟩
    | inr hv =>
      have hbounds := h.bounds v hv
      omega
  nonneg := by
    have hnonneg := h.nonneg
    show 0 ≤ t.lastWatch + 1
    omega

end Insert

section Move

theorem mem_watches_move {id : Int} : v ∈ (t.move id).watches ↔ v ∈ t.watches ∧ v.id ≠ id := by
  have hcopy : (t.copy id).watches = t.watches := by
    unfold copy
    split <;> rfl
  unfold move delete
  rw [List.mem_filter, hcopy, bne_iff_ne]

theorem lastWatch_move (t : Tables) (id : Int) : (t.move id).lastWatch = t.lastWatch := by
  unfold move delete copy
  split <;> rfl

theorem perm_cons_filter_id {ws : List Watch} (h : (ws.map (·.id)).Nodup) (hw : w ∈ ws) :
    ws.Perm (w :: ws.filter (·.id != w.id)) := by
  induction ws with
  | nil => cases hw
  | cons v ws ih =>
    obtain ⟨hv, hws⟩ := List.nodup_cons.1 h
    cases List.mem_cons.1 hw with
    | inl hsame =>
      subst hsame
      have hrest : ws.filter (·.id != w.id) = ws := by
        apply List.filter_eq_self.2
        intro v hmem
        rw [bne_iff_ne]
        intro hid
        exact hv (List.mem_map.2 ⟨v, hmem, hid⟩)
      rw [List.filter_cons_of_neg (by simp), hrest]
    | inr hmem =>
      have hne : v.id ≠ w.id := fun hid => hv (List.mem_map.2 ⟨w, hmem, hid.symm⟩)
      rw [List.filter_cons_of_pos (by simpa using hne)]
      exact ((ih hws hmem).cons v).trans (.swap _ _ _)

theorem move_cases (t : Tables) (id : Int) :
    ((∀ w ∈ t.watches, w.id ≠ id) ∧ t.move id = t) ∨
      ∃ w ∈ t.watches, w.id = id ∧ (t.move id).watches = t.watches.filter (·.id != id) ∧
        (t.move id).doneRows = t.doneRows ++ [w] := by
  unfold move copy delete
  cases hfind : t.watches.find? (·.id == id) with
  | none =>
    left
    have hnone : ∀ w ∈ t.watches, w.id ≠ id := by
      intro w hw
      simpa using List.find?_eq_none.1 hfind w hw
    refine ⟨hnone, ?_⟩
    have hrest : t.watches.filter (·.id != id) = t.watches :=
      List.filter_eq_self.2 fun w hw => bne_iff_ne.2 (hnone w hw)
    dsimp only
    rw [hrest]
  | some w =>
    right
    refine ⟨w, List.mem_of_find?_eq_some hfind, by simpa using List.find?_some hfind, rfl, ?_⟩
    unfold doneRows
    exact List.map_append

theorem Sound.rows_move (h : t.Sound) (id : Int) : (t.move id).rows.Perm t.rows := by
  cases move_cases t id with
  | inl hnone => rw [hnone.2]
  | inr hsome =>
    obtain ⟨w, hw, hid, hwatches, hdone⟩ := hsome
    have hnodup := h.nodup
    unfold rows at hnodup ⊢
    rw [List.map_append] at hnodup
    have hperm := perm_cons_filter_id hnodup.of_append_left hw
    rw [hwatches, hdone, ← hid]
    calc t.watches.filter (·.id != w.id) ++ (t.doneRows ++ [w])
      _ |>.Perm (w :: (t.watches.filter (·.id != w.id) ++ t.doneRows)) := by
        rw [← List.append_assoc]
        exact List.perm_append_singleton _ _
      _ |>.Perm (t.watches ++ t.doneRows) := (hperm.append_right t.doneRows).symm

theorem Sound.move (h : t.Sound) (id : Int) : (t.move id).Sound where
  nodup := ((h.rows_move id).map (·.id)).nodup_iff.2 h.nodup
  bounds w hw := by
    rw [lastWatch_move]
    exact h.bounds w ((h.rows_move id).mem_iff.1 hw)
  nonneg := by
    rw [lastWatch_move]
    exact h.nonneg

theorem Sound.grows_move (h : t.Sound) (id : Int) : t.Grows (t.move id) where
  rows w hw := (h.rows_move id).mem_iff.2 hw
  doneRows w hw := by
    cases move_cases t id with
    | inl hnone =>
      rw [hnone.2]
      exact hw
    | inr hsome =>
      obtain ⟨_, _, _, _, hdone⟩ := hsome
      rw [hdone]
      exact List.mem_append_left _ hw
  watches w hw := .inl (mem_watches_move.1 hw).1
  lastWatch := Int.le_of_eq (lastWatch_move t id).symm

end Move

end Tables

section Errands

variable (now : Now) (t : Tables) (m : Monitor)

def Exchange.playOut {α : Type} (e : Exchange Monitor α) (now : Now) (m : Monitor) (t : Tables) :
    Except Trouble α × Monitor × Tables := Dialogue.playOut Tables.serve now e.run m t

theorem Exchange.playOut_bind {α β : Type} (e : Exchange Monitor α) (f : α → Exchange Monitor β) :
    (e >>= f).playOut now m t =
      match e.playOut now m t with
      | (.ok a, m, t) => (f a).playOut now m t
      | (.error x, m, t) => (.error x, m, t) := by
  unfold Exchange.playOut
  refine (Dialogue.playOut_bind Tables.serve now e.run (ExceptT.bindCont f) m t).trans ?_
  cases hr : Dialogue.playOut Tables.serve now e.run m t with
  | mk r rest => cases r <;> rfl

theorem Exchange.playOut_ask (activity : String) (st : Statement) :
    (Exchange.ask activity st).playOut now m t = (.ok (t.serve st).1, m, (t.serve st).2) := rfl

theorem Exchange.playOut_say (activity : String) (st : Statement) :
    (Exchange.say activity st).playOut now m t = (.ok (t.serve st).1, m, (t.serve st).2) := rfl

theorem Exchange.playOut_inSession {α : Type} (e : Exchange Monitor α) :
    (Exchange.inSession e).playOut now m t = e.playOut now m t :=
  Dialogue.playOut_bind Tables.serve now e.run (fun r => .release (.done r)) m t

theorem playOut_orRollback {activity : String} {e : Exchange Monitor Unit} {m' : Monitor}
    {t' : Tables} (h : e.playOut now m t = (.ok (), m', t')) :
    (Storage.orRollback activity e).playOut now m t = (.ok (), m', t') := by
  unfold Exchange.playOut at *
  refine (Dialogue.playOut_bind Tables.serve now e.run _ m t).trans ?_
  rw [h]
  rfl

theorem playOut_insertWatch (w : Watch) :
    ((Errand.insertWatch w).playOut Tables.serve now m t).2 = (m, t.insert w) := by
  have hadd : (Storage.addWatch w).playOut now m t =
      (Storage.insertedId (.ofInserted (t.lastWatch + 1).toNat), m, t.insert w) := by
    unfold Storage.addWatch
    rw [Exchange.playOut_bind, Exchange.playOut_ask, Tables.serve_insertWatch]
    rfl
  unfold Errand.insertWatch
  refine (congrArg Prod.snd (Dialogue.playOut_bind _ _ _ _ _ _)).trans ?_
  unfold Exchange.playOut at hadd
  rw [hadd]
  rfl

theorem playOut_copyAndDelete (w : Watch) (done : Moment) :
    (Storage.copyAndDelete w done).playOut now m t = (.ok (), m, t.move w.id) := by
  have hcommit : "COMMIT" ≠ (Storage.insertWatch default).sql := by decide +kernel
  unfold Storage.copyAndDelete
  rw [Exchange.playOut_bind, Exchange.playOut_say, Tables.serve_copyWatch]
  dsimp only
  rw [Exchange.playOut_bind, Exchange.playOut_say, Tables.serve_deleteWatch]
  dsimp only
  rw [Exchange.playOut_bind, Exchange.playOut_say, Tables.serve_plain _ _ hcommit]
  rfl

theorem playOut_moveWatch (w : Watch) :
    (Errand.moveWatch w).playOut Tables.serve now m t = (true,
      { m with manager := m.manager.count fun c => { c with staleCleanups := c.staleCleanups + 1 } },
      t.move w.id) := by
  have hbegin : "BEGIN" ≠ (Storage.insertWatch default).sql := by decide +kernel
  have hmove : (Storage.moveToDone w now.wall).playOut now m t = (.ok (), m, t.move w.id) := by
    unfold Storage.moveToDone
    rw [Exchange.playOut_inSession, Exchange.playOut_bind, Exchange.playOut_say,
      Tables.serve_plain _ _ hbegin]
    exact playOut_orRollback now t m (playOut_copyAndDelete now t m w now.wall)
  unfold Errand.moveWatch
  rw [Dialogue.playOut]
  refine (Dialogue.playOut_bind _ _ _ _ _ _).trans ?_
  unfold Exchange.playOut at hmove
  rw [hmove]
  rfl

end Errands

section Round

def Monitor.readNew (m : Monitor) (t : Tables) : List Watch × Monitor :=
  let ws := t.watchesAfter m.syncer.lastWatch
  (ws, { m with syncer := { m.syncer with
    lastWatch := highest m.syncer.lastWatch (ws.map (·.id)) } })

def Monitor.readDone (m : Monitor) (t : Tables) : List Watch × Monitor :=
  let rs := t.doneAfter m.syncer.lastDone
  (rs.map (·.1), { m with syncer := { m.syncer with
    lastDone := highest m.syncer.lastDone (rs.map (·.2)) } })

variable (now : Now) (t : Tables) (m : Monitor)

theorem mapM_watchRow (ws : List Watch) :
    (ws.map Tables.watchRow).mapM Watch.ofRow = .ok ws := by
  induction ws with
  | nil => rfl
  | cons w ws ih =>
    have hrow := Watch.ofRow_params w w.id []
    rw [List.append_nil] at hrow
    rw [List.map_cons, List.mapM_cons, ih]
    unfold Tables.watchRow
    rw [hrow]
    rfl

theorem mapM_doneRow (rs : List (Watch × Int)) :
    (rs.map Tables.doneRow).mapM Storage.doneOfRow = .ok rs := by
  induction rs with
  | nil => rfl
  | cons r rs ih =>
    have hrow : Storage.doneOfRow (Tables.doneRow r) = .ok r := by
      unfold Storage.doneOfRow Tables.doneRow
      rw [List.cons_append, ← List.cons_append, Watch.ofRow_params r.1 r.1.id [.int r.2]]
      rfl
    rw [List.map_cons, List.mapM_cons, ih, hrow]
    rfl

theorem playOut_getSyncer : Monitor.getSyncer.playOut now m t = (.ok m.syncer, m, t) := rfl

theorem playOut_fetchNew : Monitor.fetchNew.playOut now m t =
    (.ok (m.readNew t).1, (m.readNew t).2, t) := by
  have hrows : (Storage.watchesAfter m.syncer.lastWatch).playOut now m t =
      (.ok (t.watchesAfter m.syncer.lastWatch), m, t) := by
    unfold Storage.watchesAfter
    rw [Exchange.playOut_bind, Exchange.playOut_ask, Tables.serve_selectWatches]
    dsimp only [Reply.ofRows]
    rw [mapM_watchRow]
    rfl
  have hagain : (t.watchesAfter m.syncer.lastWatch).filter
      (fun w => m.syncer.lastWatch < w.id) = t.watchesAfter m.syncer.lastWatch := by
    unfold Tables.watchesAfter
    rw [List.filter_filter]
    simp only [Bool.and_self]
  unfold Monitor.fetchNew
  rw [Exchange.playOut_bind, playOut_getSyncer]
  dsimp only
  rw [Exchange.playOut_bind, hrows]
  dsimp only
  rw [hagain]
  rfl

theorem playOut_fetchDone : Monitor.fetchDone.playOut now m t =
    (.ok (m.readDone t).1, (m.readDone t).2, t) := by
  have hrows : (Storage.doneAfter m.syncer.lastDone).playOut now m t =
      (.ok (t.doneAfter m.syncer.lastDone), m, t) := by
    unfold Storage.doneAfter
    rw [Exchange.playOut_bind, Exchange.playOut_ask, Tables.serve_selectDone]
    dsimp only [Reply.ofRows]
    rw [mapM_doneRow]
    rfl
  have hagain : (t.doneAfter m.syncer.lastDone).filter
      (fun r => m.syncer.lastDone < r.2) = t.doneAfter m.syncer.lastDone := by
    unfold Tables.doneAfter
    rw [List.filter_filter]
    simp only [Bool.and_self]
  unfold Monitor.fetchDone
  rw [Exchange.playOut_bind, playOut_getSyncer]
  dsimp only
  rw [Exchange.playOut_bind, hrows]
  dsimp only
  rw [hagain]
  rfl

def Monitor.readied (m : Monitor) : Monitor := { m with syncer := { m.syncer with ready := true } }

theorem playOut_tablesReady : Monitor.tablesReady.playOut now m t = (.ok true, m.readied, t) := by
  unfold Monitor.tablesReady
  rw [Exchange.playOut_bind, playOut_getSyncer]
  dsimp only
  cases hready : m.syncer.ready with
  | true =>
    have hm : m.readied = m := by
      unfold Monitor.readied
      rw [← hready]
    rw [hm]
    rfl
  | false =>
    have hexist (table : String) :
        (Storage.tableExists table).playOut now m t = (.ok true, m, t) := by
      unfold Storage.tableExists
      rw [Exchange.playOut_bind, Exchange.playOut_ask, Tables.serve_findTable]
      rfl
    have hall : (Monitor.tablesExist [Storage.watchTable, Storage.doneTable]).playOut now m t =
        (.ok true, m, t) := by
      unfold Monitor.tablesExist
      rw [Exchange.playOut_bind, hexist]
      dsimp only
      rw [if_pos rfl]
      unfold Monitor.tablesExist
      rw [Exchange.playOut_bind, hexist]
      rfl
    simp only [Bool.false_eq_true, if_false]
    rw [Exchange.playOut_bind, hall]
    rfl

def Monitor.withManager (m : Monitor) (manager : Manager) : Monitor := { m with manager }

theorem playOut_manage {α : Type} (f : Now → Manager → α × Manager) :
    (Monitor.manage f).playOut now m t =
      (.ok (f now m.manager).1, m.withManager (f now m.manager).2, t) := rfl

theorem playOut_sync :
    (Errand.syncWatches.playOut Tables.serve now m t).2 =
      let (ws, m) := m.readied.readNew t
      let m := m.withManager (Monitor.addAll now m.manager ws).2
      let (done, m) := m.readDone t
      (m.withManager (Monitor.removeAll now m.manager done).2, t) := by
  have hsync : (Monitor.sync.playOut now m t).2 =
      let (ws, m) := m.readied.readNew t
      let m := m.withManager (Monitor.addAll now m.manager ws).2
      let (done, m) := m.readDone t
      (m.withManager (Monitor.removeAll now m.manager done).2, t) := by
    unfold Monitor.sync
    rw [Exchange.playOut_bind, playOut_tablesReady]
    simp only [Bool.not_true, Bool.false_eq_true, if_false]
    rw [Exchange.playOut_bind, playOut_fetchNew]
    dsimp only
    rw [Exchange.playOut_bind, playOut_manage]
    dsimp only
    rw [Exchange.playOut_bind, playOut_fetchDone]
    dsimp only
    rw [Exchange.playOut_bind, playOut_manage]
    rfl
  unfold Errand.syncWatches
  refine (congrArg Prod.snd (Dialogue.playOut_bind _ _ _ _ _ _)).trans ?_
  unfold Exchange.playOut at hsync
  rw [← hsync]
  rfl

end Round

end Runaway

end Steward
