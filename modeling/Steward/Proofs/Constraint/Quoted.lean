import Steward.Constraint.Definition
import Steward.Constraint.Orphan
import Steward.Text.Quoted

/-!
This module contains what the names in a constraint can do to the texts it is spliced into, the
query for rows without a parent and the description of the constraint: outside of the quotes the
texts depend on the number of columns alone, and inside of them the names are read again. A reader
walks over a text and is either outside of the names or inside of one, where a doubled back quote
stands for one; `read_write` says that it finds what was written, whatever the names are.
-/

namespace Steward.Text

structure Spliced where
  /-- Each name, after the plain text before it. -/
  pieces : List (String × String)
  /-- The plain text after the last name. -/
  tail : String
deriving DecidableEq, Repr

namespace Spliced

variable {t : Spliced} {a b : String} {pieces : List (String × String)} {tail : String}

/--
The text outside of the quotes, in the order of the text.
-/
def plain (t : Spliced) : List String := t.pieces.map (·.1) ++ [t.tail]

def names (t : Spliced) : List String := t.pieces.map (·.2)

def write (t : Spliced) : String :=
  t.pieces.foldr (fun piece rest => piece.1 ++ quote piece.2 ++ rest) t.tail

def before (t : Spliced) (text : String) : Spliced :=
  match t.pieces with
  | [] => { t with tail := text ++ t.tail }
  | piece :: pieces => { t with pieces := (text ++ piece.1, piece.2) :: pieces }

@[simp]
theorem before_empty : t.before "" = t := by
  unfold before
  split
  · simp
  · next h => simp [← h]

@[simp]
theorem before_before : (t.before b).before a = t.before (a ++ b) := by
  obtain ⟨pieces, tail⟩ := t
  cases pieces <;> simp [before, String.append_assoc]

@[simp]
theorem write_nil : write ⟨[], tail⟩ = tail := rfl

@[simp]
theorem write_cons {piece : String × String} :
    write ⟨piece :: pieces, tail⟩ = piece.1 ++ quote piece.2 ++ write ⟨pieces, tail⟩ := rfl

theorem write_append {more : List (String × String)} :
    write ⟨pieces ++ more, tail⟩ = write ⟨pieces, write ⟨more, tail⟩⟩ := by
  simp [write, List.foldr_append]

end Spliced

namespace Quoted

variable {c : Char} {cs rest : List Char}

mutual

def outside : List Char → Option Spliced
  | [] => some ⟨[], ""⟩
  | c :: cs =>
    if c = backQuote then (inside cs).map fun r => ⟨("", r.1) :: r.2.pieces, r.2.tail⟩
    else (outside cs).map (·.before (.singleton c))

/--
Reads the rest of a name and the text behind it. Without a closing quote there is no reading.
-/
def inside : List Char → Option (String × Spliced)
  | [] => none
  | c :: cs =>
    if c = backQuote then closing cs
    else (inside cs).map fun r => (.singleton c ++ r.1, r.2)

/--
Reads on behind a back quote in a name: a second one belongs to the name, and anything else is
behind the name.
-/
def closing : List Char → Option (String × Spliced)
  | [] => some ("", ⟨[], ""⟩)
  | c :: cs =>
    if c = backQuote then (inside cs).map fun r => (.singleton c ++ r.1, r.2)
    else (outside cs).map fun t => ("", t.before (.singleton c))

end

theorem outside_plain (h : backQuote ∉ cs) (rest : List Char) :
    outside (cs ++ rest) = (outside rest).map (·.before (String.ofList cs)) := by
  induction cs with
  | nil => simp
  | cons c cs ih =>
    have hc : c ≠ backQuote := fun hc => h (hc ▸ List.mem_cons_self)
    have hcs : backQuote ∉ cs := fun hcs => h (List.mem_cons_of_mem _ hcs)
    simp [outside, hc, ih hcs, Function.comp_def, String.ofList_cons]

theorem inside_encode (name rest : List Char) :
    inside (encode name ++ backQuote :: rest) =
      (closing rest).map fun r => (String.ofList name ++ r.1, r.2) := by
  induction name with
  | nil => simp [encode, inside]
  | cons c cs ih =>
    by_cases hc : c = backQuote
    · simp [encode, inside, closing, hc, ih, Function.comp_def, String.ofList_cons,
        String.append_assoc]
    · simp [encode, inside, hc, ih, Function.comp_def, String.ofList_cons, String.append_assoc]

theorem closing_of_head? (h : rest.head? ≠ some backQuote) :
    closing rest = (outside rest).map fun t => ("", t) := by
  cases rest with
  | nil => rfl
  | cons c cs =>
    have hc : c ≠ backQuote := fun hc => h (hc ▸ rfl)
    simp [closing, outside, hc, Function.comp_def]

end Quoted

open Quoted

/--
The reading of a text, from a place outside of the names.
-/
def read (text : String) : Option Spliced := outside text.toList

namespace Spliced

variable {t : Spliced} {pieces : List (String × String)} {tail : String}

/--
No back quote stands outside of the names, and no two names touch: the closing quote of the first
and the opening quote of the second would be read as a back quote in a name.
-/
structure Regular (t : Spliced) : Prop where
  plain : ∀ text ∈ t.plain, backQuote ∉ text.toList
  parted : ∀ piece ∈ t.pieces.tail, piece.1 ≠ ""

theorem Regular.of_plain (hplain : ∀ text ∈ t.plain, backQuote ∉ text.toList)
    (hparted : ∀ text ∈ t.plain.tail, text ≠ "") : t.Regular where
  plain := hplain
  parted piece hpiece := by
    refine hparted piece.1 ?_
    obtain ⟨pieces, tail⟩ := t
    cases pieces with
    | nil => cases hpiece
    | cons first pieces => exact List.mem_append_left _ (List.mem_map_of_mem hpiece)

theorem Regular.head? {piece : String × String} (h : Regular ⟨piece :: pieces, tail⟩) :
    (write ⟨pieces, tail⟩).toList.head? ≠ some backQuote := by
  cases pieces with
  | nil =>
    intro hhead
    exact h.plain tail (by simp [Spliced.plain]) (List.mem_of_mem_head? hhead)
  | cons next pieces =>
    have hnext : next.1.toList ≠ [] := by
      simpa using h.parted next (by simp)
    obtain ⟨c, cs, hcs⟩ := List.exists_cons_of_ne_nil hnext
    have hplain : backQuote ∉ next.1.toList := h.plain next.1 (by simp [Spliced.plain])
    intro hhead
    simp only [write_cons, String.toList_append, hcs, List.cons_append, List.head?_cons,
      Option.some.injEq] at hhead
    exact hplain (hcs ▸ hhead ▸ List.mem_cons_self)

theorem Regular.next {piece : String × String} (h : Regular ⟨piece :: pieces, tail⟩) :
    Regular ⟨pieces, tail⟩ where
  plain text htext := h.plain text (List.mem_cons_of_mem _ htext)
  parted later hlater := h.parted later (List.mem_of_mem_tail hlater)

end Spliced

theorem read_write {t : Spliced} (h : t.Regular) : read t.write = some t := by
  obtain ⟨pieces, tail⟩ := t
  induction pieces with
  | nil =>
    have hplain : backQuote ∉ tail.toList := h.plain tail (by simp [Spliced.plain])
    simpa [read, outside, Spliced.before] using outside_plain hplain []
  | cons piece pieces ih =>
    have hplain : backQuote ∉ piece.1.toList := h.plain piece.1 (by simp [Spliced.plain])
    have hread : outside (Spliced.write ⟨pieces, tail⟩).toList = some ⟨pieces, tail⟩ := ih h.next
    have hinside := inside_encode piece.2.toList (Spliced.write ⟨pieces, tail⟩).toList
    rw [closing_of_head? h.head?, hread] at hinside
    simp [read, quote, outside_plain hplain, outside, hinside, Spliced.before]

example : read "a`b``c` `" = none := by decide +kernel

example : read "a`b``c``` d" = some ⟨[("a", "b`c`")], " d"⟩ := by decide +kernel

end Steward.Text

namespace Steward.Constraint

open Catalog Text

variable {fk fk' : ForeignKey} {schema schema' table table' : String}

/--
A constraint with columns, each with the one that it refers to.
-/
structure Matched (fk : ForeignKey) : Prop where
  nonempty : fk.cols ≠ []
  length : fk.cols.length = fk.refCols.length

/-! ### Lists of names -/

/--
The pieces for a list of names: `first` stands before the first name and `sep` before the others.
-/
def listed (first sep : String) : List String → List (String × String)
  | [] => []
  | name :: names => (first, name) :: names.map (sep, ·)

/--
The pieces for pairs of columns, in each of them first the column that the other refers to.
-/
def listedPairs (first sep mid : String) : List (String × String) → List (String × String)
  | [] => []
  | p :: ps => (first, p.2) :: (mid, p.1) :: ps.flatMap fun p => [(sep, p.2), (mid, p.1)]

@[simp]
theorem map_snd_listed {first sep : String} {names : List String} :
    (listed first sep names).map (·.2) = names := by
  cases names <;> simp [listed, Function.comp_def]

theorem map_fst_listed {names : List String} (h : names ≠ []) (first sep : String) :
    (listed first sep names).map (·.1) = first :: List.replicate (names.length - 1) sep := by
  obtain ⟨name, names, rfl⟩ := List.exists_cons_of_ne_nil h
  simp [listed, Function.comp_def, List.map_const']

@[simp]
theorem map_snd_listedPairs {first sep mid : String} {ps : List (String × String)} :
    (listedPairs first sep mid ps).map (·.2) = ps.flatMap fun p => [p.2, p.1] := by
  cases ps <;> simp [listedPairs, List.map_flatMap]

theorem map_fst_listedPairs {ps : List (String × String)} (h : ps ≠ [])
    (first sep mid : String) :
    (listedPairs first sep mid ps).map (·.1) =
      first :: mid :: (List.replicate (ps.length - 1) [sep, mid]).flatten := by
  obtain ⟨p, ps, rfl⟩ := List.exists_cons_of_ne_nil h
  simp [listedPairs, List.flatMap_def, Function.comp_def, List.map_const']

theorem intercalate_framed {names : List String} (h : names ≠ []) (sep pre post tail : String) :
    sep.intercalate (names.map fun name => pre ++ quote name ++ post) ++ tail =
      Spliced.write ⟨listed pre (post ++ sep ++ pre) names, post ++ tail⟩ := by
  -- What ends a member and begins the next one grows together.
  obtain ⟨name, names, rfl⟩ := List.exists_cons_of_ne_nil h
  clear h
  induction names generalizing name with
  | nil => simp [listed, String.append_assoc]
  | cons next names ih => simpa [listed, String.append_assoc] using ih next

theorem intercalate_matching {ps : List (String × String)} (h : ps ≠ []) (sep tail : String) :
    sep.intercalate (ps.map matching) ++ tail =
      Spliced.write ⟨listedPairs "fk_parent." (sep ++ "fk_parent.") " = fk_child." ps, tail⟩ := by
  obtain ⟨p, ps, rfl⟩ := List.exists_cons_of_ne_nil h
  clear h
  induction ps generalizing p with
  | nil => simp [listedPairs, matching, String.append_assoc]
  | cons next ps ih => simpa [listedPairs, matching, String.append_assoc] using ih next

theorem write_listed_append {names : List String} (h : names ≠ []) (text first sep tail : String) :
    Spliced.write ⟨listed (text ++ first) sep names, tail⟩ =
      text ++ Spliced.write ⟨listed first sep names, tail⟩ := by
  -- The first piece of a list takes in the plain text that stands before the list.
  obtain ⟨name, names, rfl⟩ := List.exists_cons_of_ne_nil h
  simp [listed, String.append_assoc]

theorem write_listedPairs_append {ps : List (String × String)} (h : ps ≠ [])
    (text first sep mid tail : String) :
    Spliced.write ⟨listedPairs (text ++ first) sep mid ps, tail⟩ =
      text ++ Spliced.write ⟨listedPairs first sep mid ps, tail⟩ := by
  obtain ⟨p, ps, rfl⟩ := List.exists_cons_of_ne_nil h
  simp [listedPairs, String.append_assoc]

/-! ### The query -/

/--
The text of the query outside of the quotes, for `n` columns.
-/
def orphanPlain (n : Nat) : List String :=
  ["SELECT 1 FROM ", ".", " AS fk_child WHERE fk_child."] ++
    List.replicate (n - 1) " IS NOT NULL AND fk_child." ++
    [" IS NOT NULL AND NOT EXISTS (SELECT 1 FROM ", ".", " AS fk_parent WHERE fk_parent.",
      " = fk_child."] ++
    (List.replicate (n - 1) [" AND fk_parent.", " = fk_child."]).flatten ++ [") LIMIT 1"]

/--
The names in the query: the table, its columns, the table that it refers to, and then for each pair
of columns the one that is referred to and the one that refers to it.
-/
def orphanNames (schema table : String) (fk : ForeignKey) : List String :=
  [schema, table] ++ fk.cols ++ [fk.refSchema, fk.refTable] ++
    (fk.cols.zip fk.refCols).flatMap fun p => [p.2, p.1]

def orphanPieces (schema table : String) (fk : ForeignKey) : Spliced where
  pieces := [("SELECT 1 FROM ", schema), (".", table)] ++
    listed " AS fk_child WHERE fk_child." " IS NOT NULL AND fk_child." fk.cols ++
    [(" IS NOT NULL AND NOT EXISTS (SELECT 1 FROM ", fk.refSchema), (".", fk.refTable)] ++
    listedPairs " AS fk_parent WHERE fk_parent." " AND fk_parent." " = fk_child."
      (fk.cols.zip fk.refCols)
  tail := ") LIMIT 1"

theorem Matched.zip (h : Matched fk) : fk.cols.zip fk.refCols ≠ [] := by
  have hcols := List.length_pos_iff.2 h.nonempty
  have hlength := h.length
  refine List.length_pos_iff.1 ?_
  rw [List.length_zip]
  omega

theorem intercalate_notNull {cols : List String} (h : cols ≠ []) (tail : String) :
    " AND ".intercalate (cols.map notNull) ++ tail =
      Spliced.write ⟨listed "fk_child." " IS NOT NULL AND fk_child." cols, " IS NOT NULL" ++ tail⟩ := by
  have hframed := intercalate_framed h " AND " "fk_child." " IS NOT NULL" tail
  simp only [String.reduceAppend] at hframed
  exact hframed

theorem orphanQuery_eq_write (h : Matched fk) :
    orphanQuery schema table fk = (orphanPieces schema table fk).write := by
  have hpairs := intercalate_matching h.zip " AND "
  have hchild := write_listed_append h.nonempty " AS fk_child WHERE " "fk_child."
  have hparent := write_listedPairs_append h.zip " AS fk_parent WHERE " "fk_parent."
  have hnotExists : " IS NOT NULL AND NOT EXISTS (SELECT 1 FROM " =
      " IS NOT NULL" ++ " AND NOT EXISTS (SELECT 1 FROM " := by simp only [String.reduceAppend]
  simp only [String.reduceAppend] at hpairs hchild hparent
  unfold orphanQuery orphanPieces
  simp only [Spliced.write_append, Spliced.write_cons, Spliced.write_nil, String.append_assoc]
  rw [hchild, hparent, hnotExists, intercalate_notNull h.nonempty, hpairs]
  simp only [String.append_assoc]

theorem plain_orphanPieces (h : Matched fk) :
    (orphanPieces schema table fk).plain = orphanPlain fk.cols.length := by
  have hlength : (fk.cols.zip fk.refCols).length = fk.cols.length := by
    rw [List.length_zip, ← h.length, Nat.min_self]
  simp [Spliced.plain, orphanPieces, orphanPlain, map_fst_listed h.nonempty,
    map_fst_listedPairs h.zip, hlength]

theorem names_orphanPieces : (orphanPieces schema table fk).names = orphanNames schema table fk := by
  simp [Spliced.names, orphanPieces, orphanNames]

theorem orphanPlain_subset (n : Nat) : orphanPlain n ⊆ orphanPlain 2 := by
  intro text h
  simp only [orphanPlain, List.mem_append, List.mem_replicate, List.mem_flatten] at h ⊢
  grind

theorem regular_orphanPieces (h : Matched fk) : (orphanPieces schema table fk).Regular := by
  have hclear : ∀ text ∈ orphanPlain 2, backQuote ∉ text.toList ∧ text ≠ "" := by decide
  refine .of_plain (fun text htext => ?_) (fun text htext => ?_) <;>
    rw [plain_orphanPieces h] at htext
  · exact (hclear text (orphanPlain_subset _ htext)).1
  · exact (hclear text (orphanPlain_subset _ (List.mem_of_mem_tail htext))).2

theorem read_orphanQuery (h : Matched fk) :
    Text.read (orphanQuery schema table fk) = some (orphanPieces schema table fk) := by
  rw [orphanQuery_eq_write h]
  exact read_write (regular_orphanPieces h)

/-! ### The description -/

/--
The text of the description outside of the quotes, for `n` columns.
-/
def describePlain (n : Nat) : List String :=
  ["", ".", ", CONSTRAINT ", " FOREIGN KEY ("] ++ List.replicate (n - 1) ", " ++
    [") REFERENCES ", ".", " ("] ++ List.replicate (n - 1) ", " ++ [")"]

/--
The names in the description: the table, the constraint, its columns, and then the table that it
refers to and the columns there.
-/
def describeNames (schema table : String) (fk : ForeignKey) : List String :=
  [schema, table, fk.name] ++ fk.cols ++ [fk.refSchema, fk.refTable] ++ fk.refCols

def describePieces (schema table : String) (fk : ForeignKey) : Spliced where
  pieces := [("", schema), (".", table), (", CONSTRAINT ", fk.name)] ++
    listed " FOREIGN KEY (" ", " fk.cols ++ [(") REFERENCES ", fk.refSchema), (".", fk.refTable)] ++
    listed " (" ", " fk.refCols
  tail := ")"

theorem quoteAll_append {names : List String} (h : names ≠ []) (tail : String) :
    quoteAll names ++ tail = Spliced.write ⟨listed "" ", " names, tail⟩ := by
  simpa [quoteAll] using intercalate_framed h ", " "" "" tail

theorem Matched.refCols (h : Matched fk) : fk.refCols ≠ [] := by
  refine List.length_pos_iff.1 ?_
  rw [← h.length]
  exact List.length_pos_iff.2 h.nonempty

theorem describe_eq_write (h : Matched fk) :
    fk.describe schema table = (describePieces schema table fk).write := by
  have hcols := write_listed_append h.nonempty " FOREIGN KEY (" ""
  have hrefCols := write_listed_append h.refCols " (" ""
  simp only [String.append_empty] at hcols hrefCols
  unfold ForeignKey.describe describePieces
  simp only [Spliced.write_append, Spliced.write_cons, Spliced.write_nil, String.append_assoc,
    String.empty_append]
  rw [hcols, hrefCols, quoteAll_append h.nonempty, quoteAll_append h.refCols]

theorem plain_describePieces (h : Matched fk) :
    (describePieces schema table fk).plain = describePlain fk.cols.length := by
  simp [Spliced.plain, describePieces, describePlain, map_fst_listed h.nonempty,
    map_fst_listed h.refCols, h.length]

theorem names_describePieces :
    (describePieces schema table fk).names = describeNames schema table fk := by
  simp [Spliced.names, describePieces, describeNames]

theorem describePlain_tail_subset (n : Nat) : (describePlain n).tail ⊆ (describePlain 2).tail := by
  intro text h
  simp only [describePlain, List.cons_append, List.tail_cons, List.mem_cons, List.mem_append,
    List.mem_replicate] at h ⊢
  grind

theorem regular_describePieces (h : Matched fk) : (describePieces schema table fk).Regular := by
  have hclear : ∀ text ∈ (describePlain 2).tail, backQuote ∉ text.toList ∧ text ≠ "" := by decide
  refine .of_plain (fun text htext => ?_) (fun text htext => ?_) <;>
    rw [plain_describePieces h] at htext
  · rcases List.mem_cons.1 htext with rfl | htail
    · simp
    · exact (hclear text (describePlain_tail_subset _ htail)).1
  · exact (hclear text (describePlain_tail_subset _ htext)).2

theorem read_describe (h : Matched fk) :
    Text.read (fk.describe schema table) = some (describePieces schema table fk) := by
  rw [describe_eq_write h]
  exact read_write (regular_describePieces h)

/-! ### The names are determined -/

theorem eq_of_flatMap_pair_eq {ps qs : List (String × String)}
    (h : (ps.flatMap fun p => [p.2, p.1]) = qs.flatMap fun p => [p.2, p.1]) : ps = qs := by
  induction ps generalizing qs with
  | nil => cases qs <;> simp_all
  | cons p ps ih =>
    cases qs with
    | nil => simp at h
    | cons q qs =>
      simp only [List.flatMap_cons, List.cons_append, List.nil_append, List.cons.injEq] at h
      rw [ih h.2.2, Prod.ext h.2.1 h.1]

theorem length_orphanNames (h : Matched fk) :
    (orphanNames schema table fk).length = 3 * fk.cols.length + 4 := by
  simp [orphanNames, List.length_flatMap, List.length_zip, List.map_const', ← h.length]
  omega

/--
The constraint has the columns of the other one, and refers to the same columns of the same table.
-/
structure SameNames (fk fk' : ForeignKey) : Prop where
  cols : fk.cols = fk'.cols
  refSchema : fk.refSchema = fk'.refSchema
  refTable : fk.refTable = fk'.refTable
  refCols : fk.refCols = fk'.refCols

theorem sameNames_of_orphanNames (h : Matched fk) (h' : Matched fk')
    (hnames : orphanNames schema table fk = orphanNames schema' table' fk') :
    schema = schema' ∧ table = table' ∧ SameNames fk fk' := by
  have hlength : fk.cols.length = fk'.cols.length := by
    have := congrArg List.length hnames
    rw [length_orphanNames h, length_orphanNames h'] at this
    omega
  simp only [orphanNames, List.append_assoc, List.cons_append, List.nil_append,
    List.cons.injEq] at hnames
  obtain ⟨hschema, htable, hrest⟩ := hnames
  obtain ⟨hcols, hrest⟩ := List.append_inj hrest hlength
  simp only [List.cons.injEq] at hrest
  obtain ⟨hrefSchema, hrefTable, hpairs⟩ := hrest
  have hrefCols : fk.refCols = fk'.refCols := by
    have hzip := congrArg (List.map (·.2)) (eq_of_flatMap_pair_eq hpairs)
    rwa [List.map_snd_zip (Nat.le_of_eq h.length.symm),
      List.map_snd_zip (Nat.le_of_eq h'.length.symm)] at hzip
  exact ⟨hschema, htable, hcols, hrefSchema, hrefTable, hrefCols⟩

theorem sameNames_of_describeNames (h : Matched fk) (h' : Matched fk')
    (hnames : describeNames schema table fk = describeNames schema' table' fk') :
    schema = schema' ∧ table = table' ∧ fk.name = fk'.name ∧ SameNames fk fk' := by
  have hlength : fk.cols.length = fk'.cols.length := by
    have := congrArg List.length hnames
    simp only [describeNames, List.length_append, List.length_cons, List.length_nil, ← h.length,
      ← h'.length] at this
    omega
  simp only [describeNames, List.append_assoc, List.cons_append, List.nil_append,
    List.cons.injEq] at hnames
  obtain ⟨hschema, htable, hname, hrest⟩ := hnames
  obtain ⟨hcols, hrest⟩ := List.append_inj hrest hlength
  simp only [List.cons.injEq] at hrest
  obtain ⟨hrefSchema, hrefTable, hrefCols⟩ := hrest
  exact ⟨hschema, htable, hname, hcols, hrefSchema, hrefTable, hrefCols⟩

/--
No name can change what the query asks or what the description says: read again, both have the
plain text that belongs to the number of columns, and the names stand where they were put. So a
text has been made from one table and one constraint only.
-/
theorem orphanQuery_describe_unambiguous (h : Matched fk) :
    (∃ t, Text.read (orphanQuery schema table fk) = some t ∧
      t.plain = orphanPlain fk.cols.length ∧ t.names = orphanNames schema table fk) ∧
    (∃ t, Text.read (fk.describe schema table) = some t ∧
      t.plain = describePlain fk.cols.length ∧ t.names = describeNames schema table fk) ∧
    (∀ schema' table' fk', Matched fk' →
      orphanQuery schema table fk = orphanQuery schema' table' fk' →
        schema = schema' ∧ table = table' ∧ SameNames fk fk') ∧
    (∀ schema' table' fk', Matched fk' →
      fk.describe schema table = fk'.describe schema' table' →
        schema = schema' ∧ table = table' ∧ fk.name = fk'.name ∧ SameNames fk fk') := by
  refine ⟨?query, ?description, ?queries, ?descriptions⟩
  case query => exact ⟨_, read_orphanQuery h, plain_orphanPieces h, names_orphanPieces⟩
  case description => exact ⟨_, read_describe h, plain_describePieces h, names_describePieces⟩
  case queries =>
    intro schema' table' fk' h' heq
    have hpieces : orphanPieces schema table fk = orphanPieces schema' table' fk' := by
      rw [← Option.some_inj, ← read_orphanQuery h, ← read_orphanQuery h', heq]
    refine sameNames_of_orphanNames h h' ?_
    rw [← names_orphanPieces, ← names_orphanPieces, hpieces]
  case descriptions =>
    intro schema' table' fk' h' heq
    have hpieces : describePieces schema table fk = describePieces schema' table' fk' := by
      rw [← Option.some_inj, ← read_describe h, ← read_describe h', heq]
    refine sameNames_of_describeNames h h' ?_
    rw [← names_describePieces, ← names_describePieces, hpieces]

def oddKey : ForeignKey :=
  .ofNames "k`) -- " ["`", "` IS NOT NULL AND NOT EXISTS (SELECT 1 FROM `"] "" "p`" ["b``", ""]

theorem orphanQuery_describe_unambiguous_oddKey : Matched oddKey ∧
    (∃ t, Text.read (orphanQuery "`.`" "" oddKey) = some t ∧ t.plain = orphanPlain 2 ∧
      t.names = ["`.`", "", "`", "` IS NOT NULL AND NOT EXISTS (SELECT 1 FROM `", "", "p`", "b``",
        "`", "", "` IS NOT NULL AND NOT EXISTS (SELECT 1 FROM `"]) ∧
    (∃ t, Text.read (oddKey.describe "`.`" "") = some t ∧ t.plain = describePlain 2 ∧
      t.names = ["`.`", "", "k`) -- ", "`", "` IS NOT NULL AND NOT EXISTS (SELECT 1 FROM `", "",
        "p`", "b``", ""]) := by
  have hmatched : Matched oddKey := ⟨by decide, by decide⟩
  obtain ⟨hquery, hdescription, -⟩ := orphanQuery_describe_unambiguous hmatched
  exact ⟨hmatched, hquery, hdescription⟩

end Steward.Constraint
