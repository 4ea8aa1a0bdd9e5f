import LdmsTest.Foundation.Dict
import Mathlib.Data.List.Pairwise

/-!
# Tables

A table of a relational database with typed columns and a primary key, and the statements on it:
`SELECT`, `INSERT`, `UPDATE` and `DELETE`, with conditions that are conjunctions of
`column = text`.  All texts go through the type of their column (`ColType.store`), when they are
stored and when they are compared.

A `Table` carries that its rows have the columns of its schema and that its primary key is one.

* `Table.select`, `insert`, `update`, `delete`: the statements.
* `Table.part`: the rows with a given cell in a column of the primary key.  A statement that names
  the column acts on the part as on the table, and leaves the other parts alone.
-/

namespace LdmsTest
namespace Sql

/-- The types of columns. -/
inductive ColType where
  | text
  | integer
  deriving DecidableEq

/-- What a column of a row holds. -/
inductive Cell (F : Type) where
  | null : Cell F
  | int : ℤ → Cell F
  | real : F → Cell F
  | text : String → Cell F
  deriving DecidableEq

/-- **The affinity of integer columns**: what such a column makes of a text. -/
class Affinity (F : Type) where
  integer : String → Cell F
  integer_toString : ∀ n : ℤ, -2 ^ 63 ≤ n → n < 2 ^ 63 → integer (toString n) = .int n

/-- A text in a column. -/
def ColType.store {F : Type} [Affinity F] : ColType → String → Cell F
  | .text, s => .text s
  | .integer, s => Affinity.integer s

/-- The description of a table, whose primary key consists of texts. -/
structure Schema where
  table : String
  cols : Dict String ColType
  ids : List String
  nodup : (Dict.keys cols).Nodup
  ids_nodup : ids.Nodup
  ids_text : ∀ k ∈ ids, Dict.get? cols k = some .text

/-- The errors of statements. -/
inductive Error where
  /-- the statement does not fit the table -/
  | operational
  /-- the primary key would not be one -/
  | integrity
  deriving DecidableEq

/-- A row: a cell for each column. -/
abbrev Row (F : Type) := Dict String (Cell F)

namespace Schema

variable {F : Type} [DecidableEq F]

/-- The names of the columns. -/
def names (S : Schema) : List String :=
  Dict.keys S.cols

theorem ids_subset (S : Schema) : ∀ k ∈ S.ids, k ∈ S.names := fun k hk =>
  Dict.mem_keys_of_get? (S.ids_text k hk)

/-- **Rows with the same primary key.**  A null is no key. -/
def sameKey (S : Schema) (r s : Row F) : Bool :=
  S.ids.all fun k => Dict.get? r k == Dict.get? s k && Dict.get? r k != some .null

/-- A text in a column of the table. -/
def cell [Affinity F] (S : Schema) (k s : String) : Cell F :=
  match Dict.get? S.cols k with
  | some ty => ty.store s
  | none => .null

/-- The row meets `k = s and ...`. -/
def meets [Affinity F] (S : Schema) (cond : Dict String String) (r : Row F) : Bool :=
  cond.all fun p => Dict.get? r p.1 == some (S.cell p.1 p.2)

/-- `INSERT`: the row with these values, and nulls elsewhere. -/
def newRow [Affinity F] (S : Schema) (vals : Dict String String) : Row F :=
  S.cols.map fun p => (p.1, (Dict.get? vals p.1).elim .null p.2.store)

/-- `SET`: the row with these values assigned. -/
def assign [Affinity F] (S : Schema) (sets : Dict String String) (r : Row F) : Row F :=
  sets.foldl (fun r p => Dict.set r p.1 (S.cell p.1 p.2)) r

/-- All columns are columns of the table. -/
def knows (S : Schema) (cond : Dict String String) : Bool :=
  cond.all fun p => S.names.contains p.1

end Schema

/-- **A table**: its rows have its columns, and its primary key is one. -/
structure Table (S : Schema) (F : Type) [DecidableEq F] where
  rows : List (Row F)
  keys_eq : ∀ r ∈ rows, Dict.keys r = S.names
  unique : rows.Pairwise fun r s => S.sameKey r s = false

namespace Table

variable {S : Schema} {F : Type} [DecidableEq F] [Affinity F]

omit [Affinity F] in
@[ext]
theorem ext {t u : Table S F} (h : t.rows = u.rows) : t = u := by
  cases t
  cases u
  cases h
  rfl

omit [Affinity F] in
/-- The table without rows. -/
def empty : Table S F where
  rows := []
  keys_eq := nofun
  unique := .nil

omit [Affinity F] in
/-- The table with these rows, if it is one. -/
def ofRows (rows : List (Row F)) : Except Error (Table S F) :=
  if h : (∀ r ∈ rows, Dict.keys r = S.names) ∧ rows.Pairwise fun r s => S.sameKey r s = false then
    .ok ⟨rows, h.1, h.2⟩
  else .error .integrity

/-- `SELECT * FROM table WHERE cond` -/
def select (t : Table S F) (cond : Dict String String) : Except Error (List (Row F)) :=
  if S.knows cond then .ok (t.rows.filter (S.meets cond)) else .error .operational

/-- `INSERT INTO table (cols) VALUES (vals)` -/
def insert (t : Table S F) (vals : Dict String String) : Except Error (Table S F) :=
  if S.knows vals && !vals.isEmpty then ofRows (t.rows ++ [S.newRow vals])
  else .error .operational

/-- `UPDATE table SET sets WHERE cond` -/
def update (t : Table S F) (sets cond : Dict String String) : Except Error (Table S F) :=
  if S.knows sets && S.knows cond && !sets.isEmpty then
    ofRows (t.rows.map fun r => if S.meets cond r then S.assign sets r else r)
  else .error .operational

/-- `DELETE FROM table WHERE cond` -/
def delete (t : Table S F) (cond : Dict String String) : Except Error (Table S F) :=
  if S.knows cond then .ok {
    rows := t.rows.filter fun r => !S.meets cond r
    keys_eq := fun r hr => t.keys_eq r (List.mem_of_mem_filter hr)
    unique := t.unique.filter _ }
  else .error .operational

omit [Affinity F] in
theorem ofRows_eq_ok {rows : List (Row F)} (hkeys : ∀ r ∈ rows, Dict.keys r = S.names)
    (hunique : rows.Pairwise fun r s => S.sameKey r s = false) :
    ofRows rows = .ok (⟨rows, hkeys, hunique⟩ : Table S F) :=
  dif_pos ⟨hkeys, hunique⟩

omit [Affinity F] in
theorem rows_of_ofRows {rows : List (Row F)} {t : Table S F} (h : ofRows rows = .ok t) :
    t.rows = rows := by
  unfold ofRows at h
  split at h
  · rw [← Except.ok.inj h]
  · cases h

omit [Affinity F] in
theorem ofRows_rows (t : Table S F) : ofRows t.rows = .ok t :=
  ofRows_eq_ok t.keys_eq t.unique

end Table

/-! ## Cells of rows -/

section Cells

variable {S : Schema} {F : Type} [Affinity F]

theorem Schema.keys_newRow (vals : Dict String String) :
    Dict.keys (S.newRow vals : Row F) = S.names := by
  rw [newRow, names, Dict.keys, Dict.keys, List.map_map]
  rfl

theorem Schema.get?_newRow (vals : Dict String String) (k : String) :
    Dict.get? (S.newRow vals : Row F) k =
      (Dict.get? S.cols k).map fun ty => (Dict.get? vals k).elim (.null : Cell F) ty.store :=
  Dict.get?_map_val S.cols (fun k ty => (Dict.get? vals k).elim (.null : Cell F) ty.store) k

/-- A value of the statement is in the new row. -/
theorem Schema.get?_newRow_of_get? {vals : Dict String String} {k s : String}
    (hk : k ∈ S.names) (hs : Dict.get? vals k = some s) :
    Dict.get? (S.newRow vals : Row F) k = some (S.cell k s) := by
  obtain ⟨ty, hty⟩ := Option.isSome_iff_exists.mp (Dict.isSome_get?_iff.mpr hk)
  rw [get?_newRow, hty, hs, cell, hty]
  rfl

theorem Schema.knows_iff {cond : Dict String String} :
    S.knows cond ↔ ∀ p ∈ cond, p.1 ∈ S.names := by
  rw [knows, List.all_eq_true]
  exact forall₂_congr fun p _ => List.contains_iff_mem

theorem Schema.assign_cons (p : String × String) (sets : Dict String String) (r : Row F) :
    S.assign (p :: sets) r = S.assign sets (Dict.set r p.1 (S.cell p.1 p.2)) := rfl

theorem Schema.keys_assign {sets : Dict String String} (hsets : S.knows sets) {r : Row F}
    (hr : Dict.keys r = S.names) : Dict.keys (S.assign sets r) = S.names := by
  rw [knows_iff] at hsets
  induction sets generalizing r with
  | nil => exact hr
  | cons p sets ih =>
    obtain ⟨hp, hsets⟩ := List.forall_mem_cons.mp hsets
    rw [assign_cons]
    refine ih hsets ?_
    rw [Dict.keys_set, if_pos (hr ▸ hp), hr]

/-- A column that is not assigned keeps its cell. -/
theorem Schema.get?_assign_of_notMem {sets : Dict String String} {k : String}
    (hk : k ∉ Dict.keys sets) (r : Row F) : Dict.get? (S.assign sets r) k = Dict.get? r k := by
  induction sets generalizing r with
  | nil => rfl
  | cons p sets ih =>
    rw [Dict.keys_cons, List.mem_cons, not_or] at hk
    rw [assign_cons, ih hk.2, Dict.get?_set_of_ne _ _ (Ne.symm hk.1)]

/-- A column that is assigned has the text that it is assigned. -/
theorem Schema.get?_assign {sets : Dict String String} (hsets : (Dict.keys sets).Nodup)
    (k : String) (r : Row F) : Dict.get? (S.assign sets r) k =
      ((Dict.get? sets k).map (S.cell k)).or (Dict.get? r k) := by
  induction sets generalizing r with
  | nil => rfl
  | cons p sets ih =>
    rw [Dict.keys_cons, List.nodup_cons] at hsets
    rw [assign_cons, ih hsets.2, Dict.get?_set, Dict.get?_cons]
    by_cases hk : p.1 = k
    · subst hk
      rw [if_pos rfl, if_pos rfl, Dict.get?_eq_none_iff.mpr hsets.1]
      rfl
    · rw [if_neg hk, if_neg hk]

variable [DecidableEq F]

theorem Schema.meets_iff {cond : Dict String String} {r : Row F} :
    S.meets cond r ↔ ∀ p ∈ cond, Dict.get? r p.1 = some (S.cell p.1 p.2) := by
  rw [meets, List.all_eq_true]
  exact forall₂_congr fun p _ => beq_iff_eq

omit [Affinity F] in
theorem Schema.get?_eq_of_sameKey {r s : Row F} (h : S.sameKey r s) {k : String}
    (hk : k ∈ S.ids) : Dict.get? r k = Dict.get? s k := by
  have hk := List.all_eq_true.mp h k hk
  rw [Bool.and_eq_true, beq_iff_eq] at hk
  exact hk.1

omit [DecidableEq F] in
/-- A column of the primary key holds the text itself. -/
theorem Schema.cell_of_mem_ids {k : String} (hk : k ∈ S.ids) (s : String) :
    (S.cell k s : Cell F) = .text s := by
  rw [cell, S.ids_text k hk]
  rfl

/-- Rows that meet a condition on the primary key have the same one. -/
theorem Schema.sameKey_of_meets {cond : Dict String String}
    (hcond : ∀ k ∈ S.ids, k ∈ Dict.keys cond) {r s : Row F} (hr : S.meets cond r) (hs : S.meets cond s) : S.sameKey r s := by
  rw [meets_iff] at hr hs
  refine List.all_eq_true.mpr fun k hk => ?_
  obtain ⟨p, hp, rfl⟩ := List.mem_map.mp (hcond k hk)
  rw [hr p hp, hs p hp, S.cell_of_mem_ids hk]
  simp

/-- Assignments outside the primary key keep it. -/
theorem Schema.sameKey_assign {sets sets' : Dict String String}
    (hsets : ∀ k ∈ S.ids, k ∉ Dict.keys sets) (hsets' : ∀ k ∈ S.ids, k ∉ Dict.keys sets')
    (r s : Row F) : S.sameKey (S.assign sets r) (S.assign sets' s) = S.sameKey r s := by
  unfold sameKey
  rw [Bool.eq_iff_iff, List.all_eq_true, List.all_eq_true]
  refine forall₂_congr fun k hk => ?_
  rw [get?_assign_of_notMem (hsets k hk), get?_assign_of_notMem (hsets' k hk)]

end Cells

/-! ## What the statements do -/

namespace Table

variable {S : Schema} {F : Type} [DecidableEq F] [Affinity F]

/-- **`INSERT`** appends the row, unless its key is taken. -/
theorem insert_eq_ok_iff {t u : Table S F} {vals : Dict String String} :
    t.insert vals = .ok u ↔ S.knows vals ∧ vals ≠ [] ∧
      (∀ r ∈ t.rows, S.sameKey r (S.newRow vals) = false) ∧
      u.rows = t.rows ++ [S.newRow vals] := by
  unfold insert
  by_cases hvals : (S.knows vals && !vals.isEmpty) = true
  · rw [if_pos hvals]
    rw [Bool.and_eq_true, Bool.not_eq_true', List.isEmpty_eq_false_iff] at hvals
    constructor
    · intro h
      have hrows := rows_of_ofRows h
      have hunique := u.unique
      rw [hrows, List.pairwise_append] at hunique
      exact ⟨hvals.1, hvals.2, fun r hr => hunique.2.2 r hr _ (List.mem_singleton_self _), hrows⟩
    · rintro ⟨-, -, -, hrows⟩
      rw [← hrows]
      exact ofRows_rows u
  · rw [if_neg hvals]
    rw [Bool.and_eq_true, Bool.not_eq_true', List.isEmpty_eq_false_iff] at hvals
    exact ⟨nofun, fun h => absurd ⟨h.1, h.2.1⟩ hvals⟩

theorem exists_insert_eq_ok {t : Table S F} {vals : Dict String String} (hvals : S.knows vals)
    (hne : vals ≠ []) (hnew : ∀ r ∈ t.rows, S.sameKey r (S.newRow vals) = false) :
    ∃ u, t.insert vals = .ok u ∧ u.rows = t.rows ++ [S.newRow vals] := by
  have hkeys : ∀ r ∈ t.rows ++ [S.newRow vals], Dict.keys r = S.names := by
    intro r hr
    rcases List.mem_append.mp hr with hr | hr
    · exact t.keys_eq r hr
    · rw [List.mem_singleton.mp hr, S.keys_newRow]
  have hunique : (t.rows ++ [S.newRow vals]).Pairwise fun r s => S.sameKey r s = false := by
    refine List.pairwise_append.mpr ⟨t.unique, List.pairwise_singleton _ _, fun r hr s hs => ?_⟩
    rw [List.mem_singleton.mp hs]
    exact hnew r hr
  exact ⟨⟨_, hkeys, hunique⟩, insert_eq_ok_iff.mpr ⟨hvals, hne, hnew, rfl⟩, rfl⟩

omit [Affinity F] in
theorem eq_integrity_of_ofRows {rows : List (Row F)} {e : Error}
    (h : (ofRows rows : Except Error (Table S F)) = .error e) : e = .integrity := by
  unfold ofRows at h
  split at h
  · cases h
  · exact (Except.error.inj h).symm

theorem eq_of_insert_error {t : Table S F} {vals : Dict String String} {e : Error}
    (h : t.insert vals = .error e) :
    e = if S.knows vals && !vals.isEmpty then .integrity else .operational := by
  unfold insert at h
  split at h
  · next hvals => rw [if_pos hvals, eq_integrity_of_ofRows h]
  · next hvals => rw [if_neg hvals, Except.error.inj h]

/-- **At most one row** meets a condition on the primary key. -/
theorem filter_meets_eq (t : Table S F) {cond : Dict String String}
    (hcond : ∀ k ∈ S.ids, k ∈ Dict.keys cond) :
    (∀ r ∈ t.rows, S.meets cond r = false) ∧ t.rows.filter (S.meets cond) = [] ∨
      ∃ r ∈ t.rows, S.meets cond r ∧ t.rows.filter (S.meets cond) = [r] := by
  have hunique := t.unique.filter (S.meets cond)
  cases h : t.rows.filter (S.meets cond) with
  | nil => exact Or.inl ⟨fun r hr => Bool.not_eq_true _ ▸ List.filter_eq_nil_iff.mp h r hr, rfl⟩
  | cons r rs =>
    have hmem : ∀ s ∈ r :: rs, s ∈ t.rows ∧ S.meets cond s = true := fun s hs =>
      List.mem_filter.mp (h ▸ hs)
    obtain ⟨hr, hmeets⟩ := hmem r List.mem_cons_self
    cases rs with
    | nil => exact Or.inr ⟨r, hr, hmeets, rfl⟩
    | cons s rs =>
      have hs := hmem s (List.mem_cons_of_mem _ List.mem_cons_self)
      rw [h] at hunique
      have hne := (List.pairwise_cons.mp hunique).1 s List.mem_cons_self
      rw [S.sameKey_of_meets hcond hmeets hs.2] at hne
      cases hne

/-- **`UPDATE`** outside the primary key assigns to the rows that meet the condition. -/
theorem exists_update_eq_ok {t : Table S F} {sets cond : Dict String String}
    (hsets : S.knows sets) (hcond : S.knows cond) (hne : sets ≠ [])
    (hids : ∀ k ∈ S.ids, k ∉ Dict.keys sets) :
    ∃ u, t.update sets cond = .ok u ∧
      u.rows = t.rows.map fun r => if S.meets cond r then S.assign sets r else r := by
  have hkeys : ∀ r ∈ t.rows.map fun r => if S.meets cond r then S.assign sets r else r,
      Dict.keys r = S.names := by
    intro r hr
    obtain ⟨s, hs, rfl⟩ := List.mem_map.mp hr
    split
    · exact S.keys_assign hsets (t.keys_eq s hs)
    · exact t.keys_eq s hs
  have hunique : (t.rows.map fun r => if S.meets cond r then S.assign sets r else r).Pairwise
      fun r s => S.sameKey r s = false := by
    refine List.pairwise_map.mpr (t.unique.imp fun {r s} h => ?_)
    have hnil : ∀ k ∈ S.ids, k ∉ Dict.keys ([] : Dict String String) := fun _ _ => nofun
    rw [← h]
    split
    · split
      · exact S.sameKey_assign hids hids r s
      · exact @S.sameKey_assign _ _ _ sets [] hids hnil r s
    · split
      · exact @S.sameKey_assign _ _ _ [] sets hnil hids r s
      · rfl
  refine ⟨⟨_, hkeys, hunique⟩, ?_, rfl⟩
  have hpos : (S.knows sets && S.knows cond && !sets.isEmpty) = true := by
    rw [Bool.and_eq_true, Bool.and_eq_true, Bool.not_eq_true', List.isEmpty_eq_false_iff]
    exact ⟨⟨hsets, hcond⟩, hne⟩
  rw [update, if_pos hpos]
  exact ofRows_eq_ok hkeys hunique

theorem rows_of_update {t u : Table S F} {sets cond : Dict String String}
    (h : t.update sets cond = .ok u) :
    u.rows = t.rows.map fun r => if S.meets cond r then S.assign sets r else r := by
  unfold update at h
  split at h
  · exact rows_of_ofRows h
  · cases h

/-! ## The parts of a table -/

omit [Affinity F] in
/-- **The rows with a given cell** in a column. -/
def part (k : String) (c : Cell F) (t : Table S F) : Table S F where
  rows := t.rows.filter fun r => Dict.get? r k == some c
  keys_eq r hr := t.keys_eq r (List.mem_of_mem_filter hr)
  unique := t.unique.filter _

omit [Affinity F] in
theorem rows_part (k : String) (c : Cell F) (t : Table S F) :
    (t.part k c).rows = t.rows.filter fun r => Dict.get? r k == some c := rfl

variable {k s : String} {t u : Table S F}

/-- A condition on the column selects from one part. -/
theorem select_part {cond : Dict String String} (hcond : (k, s) ∈ cond) :
    (t.part k (S.cell k s)).select cond = t.select cond := by
  unfold select
  split
  · refine congrArg Except.ok ?_
    rw [rows_part, List.filter_filter]
    refine List.filter_congr fun r _ => ?_
    rw [Bool.and_eq_left_iff_imp]
    intro hr
    exact beq_iff_eq.mpr (S.meets_iff.mp hr _ hcond)
  · rfl

/-- An insertion that names a column of the primary key acts in one part. -/
theorem insert_part {vals : Dict String String} (hk : k ∈ S.ids)
    (hs : Dict.get? vals k = some s) :
    (t.insert vals).map (part k (S.cell k s)) = (t.part k (S.cell k s)).insert vals := by
  have hnew : Dict.get? (S.newRow vals : Row F) k = some (S.cell k s) :=
    S.get?_newRow_of_get? (S.ids_subset k hk) hs
  -- a conflict is inside the part
  have hpart (h : ∀ r ∈ (t.part k (S.cell k s)).rows, S.sameKey r (S.newRow vals) = false) :
      ∀ r ∈ t.rows, S.sameKey r (S.newRow vals) = false := by
    intro r hr
    by_contra hsame
    rw [Bool.not_eq_false] at hsame
    have hmem : r ∈ (t.part k (S.cell k s)).rows := by
      refine List.mem_filter.mpr ⟨hr, beq_iff_eq.mpr ?_⟩
      rw [S.get?_eq_of_sameKey hsame hk, hnew]
    rw [h r hmem] at hsame
    cases hsame
  cases h : (t.part k (S.cell k s)).insert vals with
  | ok v =>
    obtain ⟨hknows, hne, hno, hrows⟩ := insert_eq_ok_iff.mp h
    obtain ⟨u, hu, hurows⟩ := exists_insert_eq_ok hknows hne (hpart hno)
    rw [hu]
    refine congrArg Except.ok (Table.ext ?_)
    rw [rows_part, hurows, List.filter_append, hrows,
      List.filter_cons_of_pos (p := fun r => Dict.get? r k == some (S.cell k s))
        (beq_iff_eq.mpr hnew)]
    rfl
  | error e =>
    cases hu : t.insert vals with
    | ok u =>
      obtain ⟨hknows, hne, hno, -⟩ := insert_eq_ok_iff.mp hu
      obtain ⟨v, hv, -⟩ := exists_insert_eq_ok (t := t.part k (S.cell k s)) hknows hne
        fun r hr => hno r (List.mem_of_mem_filter hr)
      rw [hv] at h
      cases h
    | error e' => rw [eq_of_insert_error h, eq_of_insert_error hu]; rfl

/-- An insertion leaves the other parts alone. -/
theorem part_insert_of_ne {vals : Dict String String} (hk : k ∈ S.ids)
    (hs : Dict.get? vals k = some s) (h : t.insert vals = .ok u) {c : Cell F}
    (hc : c ≠ S.cell k s) : u.part k c = t.part k c := by
  obtain ⟨-, -, -, hrows⟩ := insert_eq_ok_iff.mp h
  have hnew : Dict.get? (S.newRow vals : Row F) k = some (S.cell k s) :=
    S.get?_newRow_of_get? (S.ids_subset k hk) hs
  have hno : ¬ (Dict.get? (S.newRow vals) k == some c) = true := by
    rw [beq_iff_eq, hnew, Option.some_inj]
    exact Ne.symm hc
  refine Table.ext ?_
  rw [rows_part, rows_part, hrows, List.filter_append,
    List.filter_cons_of_neg (p := fun r => Dict.get? r k == some c) hno]
  exact List.append_nil _

theorem filter_updated {sets cond : Dict String String} (hk : k ∉ Dict.keys sets) (c : Cell F)
    (rows : List (Row F)) :
    (rows.map fun r => if S.meets cond r then S.assign sets r else r).filter
        (fun r => Dict.get? r k == some c) =
      (rows.filter fun r => Dict.get? r k == some c).map
        fun r => if S.meets cond r then S.assign sets r else r := by
  rw [List.filter_map]
  refine congrArg _ (List.filter_congr fun r _ => ?_)
  rw [Function.comp_apply]
  split
  · rw [S.get?_assign_of_notMem hk]
  · rfl

/-- An update outside the primary key, with a condition on the column, acts in one part. -/
theorem update_part {sets cond : Dict String String} (hk : k ∈ S.ids)
    (hids : ∀ k ∈ S.ids, k ∉ Dict.keys sets) (c : Cell F) :
    (t.update sets cond).map (part k c) = (t.part k c).update sets cond := by
  by_cases hpos : (S.knows sets && S.knows cond && !sets.isEmpty) = true
  · have h := hpos
    rw [Bool.and_eq_true, Bool.and_eq_true, Bool.not_eq_true', List.isEmpty_eq_false_iff] at h
    obtain ⟨u, hu, hurows⟩ := exists_update_eq_ok (t := t) h.1.1 h.1.2 h.2 hids
    obtain ⟨v, hv, hvrows⟩ := exists_update_eq_ok (t := t.part k c) h.1.1 h.1.2 h.2 hids
    rw [hu, hv]
    refine congrArg Except.ok (Table.ext ?_)
    rw [rows_part, hurows, hvrows, filter_updated (hids k hk), rows_part]
  · rw [update, update, if_neg hpos, if_neg hpos]
    rfl

/-- An update with a condition on the column leaves the other parts alone. -/
theorem part_update_of_ne {sets cond : Dict String String} (hk : k ∉ Dict.keys sets)
    (hcond : (k, s) ∈ cond) (h : t.update sets cond = .ok u) {c : Cell F}
    (hc : c ≠ S.cell k s) : u.part k c = t.part k c := by
  refine Table.ext ?_
  rw [rows_part, rows_part, rows_of_update h, filter_updated hk]
  refine (List.map_congr_left fun r hr => ?_).trans (List.map_id _)
  have hrow := beq_iff_eq.mp (List.mem_filter.mp hr).2
  refine if_neg fun hmeets => hc ?_
  have hmeets := S.meets_iff.mp hmeets _ hcond
  rw [hrow] at hmeets
  exact Option.some_inj.mp hmeets

end Table

end Sql
end LdmsTest
