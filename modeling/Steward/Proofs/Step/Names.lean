import Steward.Proofs.Step.Lockstep

/-!
This module contains the names that steps deal with. Tables of one schema keep different names, a
table keeps the name that it was created with, and it gets no other constraints than those that its
job declares or adds.
-/

namespace Steward

open Catalog (ForeignKey Table)
open Change (Job)
open Ledger (Snapshot)

/--
What is known of the tables in some places: their names, and which parents their constraints refer
to.
-/
structure Within (N : String → Prop) (M : String → String → Prop) (P : Int → Int → Prop)
    (f : Int → Int → Option Table) : Prop where
  name : ∀ a b t, P a b → f a b = some t → N t.name
  keys : ∀ a b t, P a b → f a b = some t → ∀ fk ∈ t.foreignKeys, M fk.refSchema fk.refTable

namespace Change

variable {N : String → Prop} {M : String → String → Prop} {j j' : Job} {t t' : Table}

structure Job.Means (N : String → Prop) (M : String → String → Prop) (j : Job) : Prop where
  name : ∀ n ∈ j.args.newName?, N n
  keys : ∀ fk ∈ j.args.keys, M fk.refSchema fk.refTable

theorem Job.Means.follow (h : j.Means N M) (hj : j.Follows j') : j'.Means N M := by
  obtain ⟨hname, hkeys⟩ := h
  cases hj.args with
  | inl hsame =>
    rw [← hsame] at hname hkeys
    exact ⟨hname, hkeys⟩
  | inr hnew =>
    obtain ⟨fk, check, id, stage, ha, ha'⟩ := hnew
    rw [ha] at hkeys
    constructor
    · rw [ha']
      exact nofun
    · rw [ha']
      intro fk' hfk'
      rw [List.mem_singleton.1 hfk']
      exact hkeys fk (List.mem_singleton_self fk)

theorem Job.Touches.name (h : j.Touches t t') : t'.name = t.name := by
  cases h with
  | lostColumn ha h hl =>
    have hrest := congrArg Table.name hl.rest
    exact hrest
  | _ => rfl

theorem Job.Touches.keys (h : j.Touches t t') (hj : ∀ fk ∈ j.args.keys, M fk.refSchema fk.refTable)
    (ht : ∀ fk ∈ t.foreignKeys, M fk.refSchema fk.refTable) :
    ∀ fk ∈ t'.foreignKeys, M fk.refSchema fk.refTable := by
  cases h with
  | lostColumn ha h hl =>
    have hrest : t'.foreignKeys = t.foreignKeys := by
      have hkeys := congrArg Table.foreignKeys hl.rest
      exact hkeys
    rwa [hrest]
  | gotKey ha id stage =>
    rw [ha] at hj
    intro fk hfk
    cases List.mem_append.1 hfk with
    | inl hold => exact ht fk hold
    | inr hnew =>
      rw [List.mem_singleton.1 hnew]
      have hfk := hj _ (List.mem_singleton_self _)
      exact hfk
  | key ha h stage =>
    intro fk hfk
    obtain ⟨i, hi⟩ := List.mem_iff_getElem?.1 hfk
    rw [List.getElem?_modify] at hi
    obtain ⟨old, hold, rfl⟩ := Option.map_eq_some_iff.1 hi
    have hm := ht old (List.mem_of_getElem? hold)
    split <;> exact hm
  | lostKey ha h => exact fun fk hfk => ht fk (List.mem_of_mem_eraseIdx hfk)
  | _ => exact ht

end Change

namespace Step

variable {P : Surroundings → Prop} {s : Surroundings} {d e : Draft} {v : Int} {limit : Nat}
  {N : String → Prop} {M : String → String → Prop} {Q : Int → Int → Prop} {j first : Job}
  {base W : Snapshot} {f f' : Int → Int → Option Table}

section Within

theorem reaches_follow {j' : Job} (h : j.Follows j') : Reaches j' = Reaches j := by
  funext a b
  unfold Reaches
  rw [h.schemaId, h.tableId]
  cases h.args with
  | inl hsame => rw [hsame]
  | inr hnew =>
    obtain ⟨fk, check, id, stage, ha, ha'⟩ := hnew
    rw [ha, ha']
    simp

theorem within_of_others (h : Within N M Q f) (hf : ∀ a b, Q a b → f' a b = f a b) :
    Within N M Q f' where
  name a b t hq ht := h.name a b t hq ((hf a b hq).symm.trans ht)
  keys a b t hq ht := h.keys a b t hq ((hf a b hq).symm.trans ht)

theorem Reshaped.within (h : Reshaped j f f') (hf : Within N M (Reaches j) f) (hj : j.Means N M) :
    Within N M (Reaches j) f' := by
  have hown : Reaches j j.schemaId j.tableId := ⟨rfl, .inl rfl⟩
  -- It is enough to know where each table comes from.
  suffices hfrom : ∀ a b t', Reaches j a b → f' a b = some t' →
      N t'.name ∧ ∀ fk ∈ t'.foreignKeys, M fk.refSchema fk.refTable from
    ⟨fun a b t hab ht => (hfrom a b t hab ht).1, fun a b t hab ht => (hfrom a b t hab ht).2⟩
  intro a b u hab hu
  cases h with
  | same hsame =>
    rw [hsame] at hu
    exact ⟨hf.name a b u hab hu, hf.keys a b u hab hu⟩
  | touched t t' stamp ht h hputs =>
    rw [hputs] at hu
    split at hu
    · cases hu
      refine ⟨?_, h.keys hj.keys (hf.keys _ _ t hown ht)⟩
      rw [show ({ t' with updated := stamp } : Table).name = t.name from h.name]
      exact hf.name _ _ t hown ht
    · exact ⟨hf.name a b u hab hu, hf.keys a b u hab hu⟩
  | created table check stamp ha hfree hputs =>
    rw [hputs] at hu
    split at hu
    · cases hu
      have hname := hj.name
      have hkeys := hj.keys
      rw [ha] at hname hkeys
      refine ⟨hname _ rfl, ?_⟩
      intro fk hfk
      obtain ⟨old, hold, rfl⟩ := List.mem_map.1 hfk
      exact hkeys old hold
    · exact ⟨hf.name a b u hab hu, hf.keys a b u hab hu⟩
  | dropped check ha hputs =>
    rw [hputs] at hu
    split at hu
    · cases hu
    · exact ⟨hf.name a b u hab hu, hf.keys a b u hab hu⟩
  | truncated newId check t stamp ha ht hfree hputs =>
    rw [hputs] at hu
    split at hu
    · cases hu
      exact ⟨hf.name _ _ t hown ht, hf.keys _ _ t hown ht⟩
    · split at hu
      · cases hu
      · exact ⟨hf.name a b u hab hu, hf.keys a b u hab hu⟩

end Within

section Distinct

def Distinct (f : Int → Int → Option Table) : Prop :=
  ∀ x y y' t t', f x y = some t → f x y' = some t' → Text.same t.name t'.name = true → y = y'

theorem Distinct.of_names (h : Distinct f)
    (hf : ∀ x y t', f' x y = some t' → ∃ t, f x y = some t ∧ t.name = t'.name) : Distinct f' := by
  intro x y y' t t' ht ht' hsame
  obtain ⟨u, hu, hname⟩ := hf x y t ht
  obtain ⟨u', hu', hname'⟩ := hf x y' t' ht'
  exact h x y y' u u' hu hu' (by rwa [hname, hname'])

theorem Distinct.cleared (h : Distinct f) (x y : Int) :
    Distinct fun a b => if a = x ∧ b = y then none else f a b := by
  apply h.of_names
  intro a b t ht
  split at ht
  · cases ht
  · exact ⟨t, ht, rfl⟩

theorem Distinct.puts {x y : Int} {t : Table} (h : Distinct f) (hf : Puts f x y t f')
    (ht : ∀ b u, f x b = some u → b ≠ y → Text.same u.name t.name = false) : Distinct f' := by
  intro a b b' u u' hu hu' hsame
  rw [hf] at hu hu'
  split at hu
  · next hb =>
    obtain ⟨rfl, rfl⟩ := hb
    cases hu
    split at hu'
    · next hb' => exact hb'.2.symm
    · next hb' =>
      rw [Text.same_comm, ht b' u' hu' fun heq => hb' ⟨rfl, heq⟩] at hsame
      cases hsame
  · next hb =>
    split at hu'
    · next hb' =>
      obtain ⟨rfl, rfl⟩ := hb'
      cases hu'
      rw [ht b u hu fun heq => hb ⟨rfl, heq⟩] at hsame
      cases hsame
    · exact h a b b' u u' hu hu' hsame

theorem Took.distinct (h : Took P s d (.ok v, e)) (hd : Distinct d.txn.table?) :
    Distinct e.txn.table? := by
  -- No table is created under a name that is taken.
  cases (h.deed.reshaped rfl).1 with
  | same hf => exact hf ▸ hd
  | touched t t' stamp ht htouches hf =>
    apply hd.of_names
    intro x y u hu
    rw [hf] at hu
    split at hu
    · next hxy =>
      obtain ⟨rfl, rfl⟩ := hxy
      cases hu
      exact ⟨t, ht, htouches.name.symm⟩
    · exact ⟨u, hu, rfl⟩
  | created table check stamp ha hfree hf =>
    apply hd.puts hf
    intro b u hu _
    unfold Took at h
    rw [ha] at h
    cases h with
    | undone hb =>
      -- Nothing is created then, and yet the place would be filled.
      have hown := hf d.job.schemaId d.job.tableId
      rw [if_pos ⟨rfl, rfl⟩] at hown
      cases hfree.symm.trans hown
    | created hb hs hschema hname => exact hname b u hu
  | dropped check ha hf =>
    rw [show e.txn.table? = _ from funext fun a => funext (hf a)]
    exact hd.cleared _ _
  | truncated newId check t stamp ha ht hfree hf =>
    -- The table only moves to another id, and takes its name there.
    apply (hd.cleared d.job.schemaId d.job.tableId).puts hf
    intro b u hu _
    split at hu
    · cases hu
    · next hb =>
      apply Bool.eq_false_iff.2
      intro hsame
      exact hb ⟨rfl, hd _ _ _ _ _ hu ht hsame⟩

end Distinct

theorem Outcome.reshaped (h : Outcome limit P base first W j) :
    Reshaped first base.table? W.table? := by
  cases h with
  | success s hs v d h ho error =>
    have hreshaped := (h.deed.reshaped rfl).1
    exact hreshaped.follow (Change.Job.follows_started first) (started_tells first).2.symm
  | failure => exact .same rfl
  | disorder => exact .same rfl

theorem Outcome.named (h : Outcome limit P base first W j) (hs : base.Named) : W.Named := by
  have hschemas : W.catalog.schemas = base.catalog.schemas := h.edits.schemas
  constructor
  · rw [hschemas]
    exact hs.filed
  · rw [hschemas]
    exact hs.live
  · rw [hschemas]
    exact hs.schema
  · cases h with
    | success x hx v d h ho error => exact h.distinct hs.table
    | failure => exact hs.table
    | disorder => exact hs.table

end Step

end Steward
