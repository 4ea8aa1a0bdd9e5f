import LdmsTest.Foundation.Fuelled
import LdmsTest.Python.Text

/-!
# `decomp_out.py`: reading the files of the CSV store

The first line of a file has the names of its columns, where an array has a column for each of its
elements, and the other lines have the rows.  `csv_proc` tells the arrays by comparing each name
with the one before it and the one behind it.

* `csvProc`: what is printed, before it is turned to JSON.
* `Table`: a file as the store writes it, for columns that are scalars or arrays.
* `Reports`: the columns and the rows are reported as they are.
* `Recognised`: when a column is told right.  An array of twelve elements or more never is, since
  `name10` and `name11` are taken for the start of an array `name1`, and neither is a scalar in the
  first place, unless it is `Time`.
* `reports_iff`: the table is reported exactly when all its columns are recognised, its names and
  values do not end lines, and no blanks are lost at the ends of the lines.
-/

namespace LdmsTest
namespace DecompOut

open Text (rstrip unlines)
open Val (intSigned strip)

variable {F : Type} [PyText F]

/-! ## Names -/

/-- The loop of `prefix`. -/
def common : List Char → List Char → List Char
  | a :: s0, b :: s1 => if a ≠ b then [] else a :: common s0 s1
  | _, _ => []

/-- `s.replace(p, "", 1)` -/
def replaceOnce (p : List Char) : List Char → List Char
  | [] => []
  | c :: s => if p.isPrefixOf (c :: s) then (c :: s).drop p.length else c :: replaceOnce p s

/-- `prefix(s0, s1)` -/
def prefixOf (s0 s1 : List Char) : List Char × List Char × List Char :=
  (common s0 s1, replaceOnce (common s0 s1) s0, replaceOnce (common s0 s1) s1)

variable (F) in
/-- `is_num(v)` -/
def isNum (v : List Char) : Bool :=
  (intSigned F (strip F v)).isSome

/-- `val(v)` -/
def val (v : List Char) : Val F :=
  match intSigned F (strip F v) with
  | some n => .int n
  | none =>
    match PyText.floatOf v with
    | some x => .float x
    | none => .str (String.ofList v)

/-! ## What is done with a value -/

/-- The functions in `acts`. -/
inductive Act where
  /-- `csv_col_ts_usec` -/
  | usec
  /-- `csv_atomic` -/
  | atomic
  /-- `csv_array_first` -/
  | first
  /-- `csv_array_append` -/
  | append
  deriving DecidableEq

/-- `a(row, v)` -/
def Act.run (a : Act) (row : List (Val F)) (v : List Char) : Except PyError (List (Val F)) :=
  match a with
  | .usec => pure row
  | .atomic => pure (row ++ [val v])
  | .first => pure (row ++ [.list [val v]])
  | .append =>
    match row.getLast? with
    | none => throw ⟨.indexError, "list index out of range"⟩
    | some (.list xs) => pure (row.dropLast ++ [.list (xs ++ [val v])])
    | some w => throw ⟨.attributeError, "'" ++ w.typeName ++ "' object has no attribute 'append'"⟩

/-! ## The header -/

variable (F) in
/-- The body of the loop over the header. -/
def readCol (prevCol : List Char) (cols : List (List Char)) (c nextCol : List Char) :
    Except PyError (Act × List (List Char)) :=
  if c = "Time".toList then pure (.atomic, cols ++ ["Time".toList])
  else if "_usec".toList.isSuffixOf c then pure (.usec, cols)
  else
    let (p, a, _) := prefixOf c nextCol
    if p ≠ [] ∧ a = ['0'] then pure (.first, cols ++ [p])
    else
      let (p, _, b) := prefixOf prevCol c
      match cols.getLast? with
      | none => throw ⟨.indexError, "list index out of range"⟩
      | some last =>
        if p = last ∧ isNum F b then pure (.append, cols) else pure (.atomic, cols ++ [c])

variable (F) in
/-- The loop over the header: the acts and the columns. -/
def readHeader (prevCol : List Char) (cols : List (List Char)) :
    List (List Char) → Except PyError (List Act × List (List Char))
  | [] => pure ([], cols)
  | c :: h => do
    let (act, cols) ← readCol F prevCol cols c (h.headD [])
    let (acts, cols) ← readHeader c cols h
    pure (act :: acts, cols)

/-! ## The file -/

/-- What an open file makes of the ends of lines. -/
def newlines : List Char → List Char
  | '\r' :: '\n' :: cs => '\n' :: newlines cs
  | '\r' :: cs => '\n' :: newlines cs
  | c :: cs => c :: newlines cs
  | [] => []

/-- The lines of a file, with their ends. -/
def fileLines : List Char → List (List Char)
  | [] => []
  | c :: cs =>
    if c = '\n' then [c] :: fileLines cs
    else
      match fileLines cs with
      | [] => [[c]]
      | l :: ls => (c :: l) :: ls

/-- The row of a line. -/
def readRow (acts : List Act) (l : List Char) : Except PyError (List (Val F)) :=
  (((strip F l).splitOn ',').zip acts).foldlM (fun row p => p.2.run row p.1) []

/-- **`csv_proc`**: the columns, and the rows. -/
def csvProc (text : List Char) : Except PyError (List (List Char) × List (List (Val F))) := do
  let lines := fileLines (newlines text)
  let h := ((strip F (lines.headD [])).drop 1).splitOn ','
  let (acts, cols) ← readHeader F [] [] h
  let rows ← lines.tail.mapM (readRow acts)
  pure (cols, rows)

/-! ## The file that the store writes -/

/-- A column. -/
inductive Column where
  | scalar (name : List Char)
  | array (name : List Char) (n : ℕ)

namespace Column

def name : Column → List Char
  | scalar name => name
  | array name _ => name

@[simp] theorem name_scalar (name : List Char) : (scalar name).name = name := rfl

@[simp] theorem name_array (name : List Char) (n : ℕ) : (array name n).name = name := rfl

/-- The name of an element of an array. -/
def element (name : List Char) (i : ℕ) : List Char :=
  name ++ Nat.toDigits 10 i

/-- The names in the header. -/
def headers : Column → List (List Char)
  | scalar name => [name]
  | array name n => (List.range n).map (element name)

/-- What is reported of the values of the column. -/
def read : Column → List (List Char) → Val F
  | scalar _, vs => val (vs.headD [])
  | array _ _, vs => .list (vs.map val)

end Column

open Column (element)

/-- The names in the header of a table. -/
def headersOf (cols : List Column) : List (List Char) :=
  cols.flatMap Column.headers

/-- What is reported of a row. -/
def rowOf : List Column → List (List Char) → List (Val F)
  | [], _ => []
  | c :: cols, vs => c.read (vs.take c.headers.length) :: rowOf cols (vs.drop c.headers.length)

/-- Only digits are added. -/
def Extends (d name : List Char) : Prop :=
  ∃ digits : List Char, digits ≠ [] ∧ (∀ c ∈ digits, c.isDigit) ∧ d = name ++ digits

/-- **A table of the store**: named scalars and arrays, and rows of values without commas. -/
structure Table where
  cols : List Column
  rows : List (List (List Char))
  name_ne_nil : ∀ c ∈ cols, c.name ≠ []
  name_comma : ∀ c ∈ cols, ',' ∉ c.name
  two_le : ∀ name n, .array name n ∈ cols → 2 ≤ n
  not_digit : ∀ name, .scalar name ∈ cols → ∀ c, name.getLast? = some c → ¬ c.isDigit
  not_extends : ∀ name, .scalar name ∈ cols → ∀ d ∈ headersOf cols, ¬ Extends d name
  width : ∀ row ∈ rows, row.length = (headersOf cols).length
  comma : ∀ row ∈ rows, ∀ v ∈ row, ',' ∉ v

/-- A line, without its end. -/
def joined (vs : List (List Char)) : List Char :=
  [','].intercalate vs

/-- The file of a table. -/
def Table.text (t : Table) : List Char :=
  unlines (('#' :: joined (headersOf t.cols)) :: t.rows.map joined)

variable (F) in
/-- **The table is reported as it is.** -/
def Reports (t : Table) : Prop :=
  csvProc t.text = .ok (t.cols.map Column.name, t.rows.map (rowOf (F := F) t.cols))

/-! ## When it is -/

variable (F) in
/-- **The column is told right**, between the column before it and the name behind it.  An array
must not have a name that ends in `10`, unless the name behind it has more in common with that. -/
def Recognised (before : Option Column) (nextCol : List Char) : Column → Prop
  | .scalar name => name = "Time".toList ∨ ¬ "_usec".toList <:+ name ∧ ∃ c, before = some c ∧
      ¬ ((prefixOf (c.headers.getLastD []) name).1 = c.name ∧
        isNum F (prefixOf (c.headers.getLastD []) name).2.2)
  | .array name n => n < 11 ∨ n = 11 ∧ common (element name 10) nextCol ≠ element name 1

/-- The text does not end a line, when a line end is put behind it. -/
def OneLine (cs : List Char) : Prop :=
  '\n' ∉ cs ∧ '\r' ∉ cs.dropLast

variable (F) in
/-- The values that are left of a row when the blanks are taken off its end. -/
def trimLast : List (List Char) → List (List Char)
  | [] => []
  | [v] => [rstrip F v]
  | v :: w :: vs => v :: trimLast (w :: vs)

variable (F) in
/-- The values that are left of a row when the blanks are taken off its ends. -/
def trimEnds : List (List Char) → List (List Char)
  | [] => []
  | v :: vs => trimLast F (v.dropWhile (PyRuntime.space F) :: vs)

variable (F) in
/-- **What the file must be like.** -/
structure Legible (t : Table) : Prop where
  cols_ne_nil : t.cols ≠ []
  recognised : ∀ before c after, t.cols = before ++ c :: after →
    Recognised F before.getLast? ((headersOf after).headD []) c
  header_line : OneLine (joined (headersOf t.cols))
  header_trim : trimLast F (headersOf t.cols) = headersOf t.cols
  row_line : ∀ row ∈ t.rows, OneLine (joined row)
  row_trim : ∀ row ∈ t.rows, (trimEnds F row).map (val (F := F)) = row.map val

/-! ## What names have in common -/

section Common

theorem common_prefix_left (s t : List Char) : common s t <+: s := by
  induction s generalizing t with
  | nil =>
    cases t <;> exact List.nil_prefix
  | cons a s ih =>
    cases t with
    | nil => exact List.nil_prefix
    | cons b t =>
      rw [common]
      split
      · exact List.nil_prefix
      · exact (List.prefix_cons_inj a).mpr (ih t)

theorem common_prefix_right (s t : List Char) : common s t <+: t := by
  induction s generalizing t with
  | nil =>
    cases t <;> exact List.nil_prefix
  | cons a s ih =>
    cases t with
    | nil => exact List.nil_prefix
    | cons b t =>
      rw [common]
      split
      · exact List.nil_prefix
      · next h =>
        rw [not_not.mp h]
        exact (List.prefix_cons_inj b).mpr (ih t)

theorem common_append (p s t : List Char) : common (p ++ s) (p ++ t) = p ++ common s t := by
  induction p with
  | nil => rfl
  | cons c p ih => rw [List.cons_append, List.cons_append, common, if_neg (not_not.mpr rfl), ih]; rfl

theorem replaceOnce_append (p s : List Char) : replaceOnce p (p ++ s) = s := by
  cases h : p ++ s with
  | nil =>
    rw [(List.append_eq_nil_iff.mp h).2]
    rfl
  | cons c cs =>
    have hp : p.isPrefixOf (c :: cs) = true := by
      rw [List.isPrefixOf_iff_prefix, ← h]
      exact List.prefix_append p s
    rw [replaceOnce, if_pos hp, ← h, List.drop_left]

/-- What is left of two names. -/
theorem exists_prefixOf (s t : List Char) : ∃ a b, prefixOf s t = (common s t, a, b) ∧
    s = common s t ++ a ∧ t = common s t ++ b := by
  obtain ⟨a, ha⟩ := common_prefix_left s t
  obtain ⟨b, hb⟩ := common_prefix_right s t
  refine ⟨a, b, ?_, ha.symm, hb.symm⟩
  have ha' : replaceOnce (common s t) s = a := by
    conv_lhs => arg 2; rw [← ha]
    exact replaceOnce_append _ _
  have hb' : replaceOnce (common s t) t = b := by
    conv_lhs => arg 2; rw [← hb]
    exact replaceOnce_append _ _
  rw [prefixOf, ha', hb']

/-- The names of two elements whose numbers start differently. -/
theorem prefixOf_append {p a b : List Char} (h : common a b = []) :
    prefixOf (p ++ a) (p ++ b) = (p, a, b) := by
  have hp : common (p ++ a) (p ++ b) = p := by rw [common_append, h, List.append_nil]
  rw [prefixOf, hp, replaceOnce_append, replaceOnce_append]

end Common

/-! ## The names of elements -/

section Elements

/-- The name ends in a digit. -/
def EndsInDigit (name : List Char) : Prop :=
  ∃ c, name.getLast? = some c ∧ c.isDigit

theorem endsInDigit_append {name ds : List Char} (hne : ds ≠ []) (h : ∀ c ∈ ds, c.isDigit) :
    EndsInDigit (name ++ ds) := by
  refine ⟨ds.getLast hne, ?_, h _ (List.getLast_mem hne)⟩
  rw [List.getLast?_append_of_ne_nil _ hne, List.getLast?_eq_some_getLast hne]

theorem endsInDigit_element (name : List Char) (i : ℕ) : EndsInDigit (element name i) :=
  endsInDigit_append Nat.toDigits_ne_nil fun _ hc => Text.isDigit_of_mem_toDigits hc

theorem EndsInDigit.ne_time {name : List Char} (h : EndsInDigit name) : name ≠ "Time".toList := by
  rintro rfl
  obtain ⟨c, hc, hdigit⟩ := h
  cases hc
  exact absurd hdigit (by decide)

theorem EndsInDigit.not_usec {name : List Char} (h : EndsInDigit name) :
    "_usec".toList.isSuffixOf name = false := by
  rw [← Bool.not_eq_true, List.isSuffixOf_iff_suffix]
  rintro ⟨before, rfl⟩
  obtain ⟨c, hc, hdigit⟩ := h
  rw [List.getLast?_append_of_ne_nil _ (by decide)] at hc
  cases hc
  exact absurd hdigit (by decide)

theorem element_ten (name : List Char) : element name 10 = element name 1 ++ ['0'] := by
  rw [element, element, List.append_assoc]
  rfl

/-- An element in front of which a zero was added. -/
theorem endsInDigit_of_element {name p : List Char} {i : ℕ} (hi : 0 < i)
    (h : element name i = p ++ ['0']) : EndsInDigit p := by
  rw [element] at h
  have hdigit : ∀ d < 10, 0 < d → Nat.digitChar d ≠ '0' := by decide
  by_cases hlt : i < 10
  · rw [Nat.toDigits_of_lt_base hlt] at h
    have hlast := (List.append_inj' h rfl).2
    exact absurd (List.cons.inj hlast).1 (hdigit i hlt hi)
  · rw [Nat.toDigits_of_base_le (by decide) (not_lt.mp hlt), ← List.append_assoc] at h
    rw [← (List.append_inj' h rfl).1]
    exact endsInDigit_element name (i / 10)

end Elements

/-! ## One name of the header -/

section Col

theorem mem_or_of_readCol {prevCol c nextCol : List Char} {cols cols' : List (List Char)} {act : Act}
    (h : readCol F prevCol cols c nextCol = .ok (act, cols')) :
    ∃ X, cols' = cols ++ X ∧ (X = [] ∨ X = [c] ∨ ∃ p, X = [p] ∧ c = p ++ ['0']) := by
  rw [readCol] at h
  split at h
  · next htime =>
    cases h
    exact ⟨_, rfl, .inr (.inl (by rw [htime]))⟩
  · split at h
    · cases h
      exact ⟨[], (List.append_nil _).symm, .inl rfl⟩
    · obtain ⟨a, b, hpre, hc, -⟩ := exists_prefixOf c nextCol
      rw [hpre] at h
      dsimp only at h
      split at h
      · next hfirst =>
        cases h
        exact ⟨_, rfl, .inr (.inr ⟨_, rfl, hfirst.2 ▸ hc⟩)⟩
      · split at h
        · cases h
        · split at h
          · cases h
            exact ⟨[], (List.append_nil _).symm, .inl rfl⟩
          · cases h
            exact ⟨_, rfl, .inr (.inl rfl)⟩

/-- The first element of an array is always told. -/
theorem readCol_first {name : List Char} (hne : name ≠ []) (prevCol : List Char)
    (cols : List (List Char)) :
    readCol F prevCol cols (element name 0) (element name 1) = .ok (.first, cols ++ [name]) := by
  have hdigit := endsInDigit_element name 0
  have hpre : prefixOf (element name 0) (element name 1) = (name, ['0'], ['1']) :=
    prefixOf_append rfl
  rw [readCol, if_neg hdigit.ne_time, hdigit.not_usec, if_neg Bool.false_ne_true, hpre]
  exact if_pos ⟨hne, rfl⟩

end Col

/-! ## A header that is told wrong -/

section Wrong

/-- What the names of columns must be, to tell a wrong header by its names. -/
structure Named (cols : List Column) : Prop where
  name_ne_nil : ∀ c ∈ cols, c.name ≠ []
  two_le : ∀ name n, .array name n ∈ cols → 2 ≤ n
  not_digit : ∀ name, .scalar name ∈ cols → ¬ EndsInDigit name
  ne : ∀ name, .scalar name ∈ cols → ∀ name' n, .array name' n ∈ cols → name ≠ name'

theorem Named.of_subset {cols cols' : List Column} (h : Named cols)
    (hsub : ∀ c ∈ cols', c ∈ cols) : Named cols' where
  name_ne_nil c hc := h.name_ne_nil c (hsub c hc)
  two_le name n hc := h.two_le name n (hsub _ hc)
  not_digit name hc := h.not_digit name (hsub _ hc)
  ne name hc name' n hc' := h.ne name (hsub _ hc) name' n (hsub _ hc')

theorem Named.tail {c : Column} {cols : List Column} (h : Named (c :: cols)) : Named cols :=
  h.of_subset fun _ hc => List.mem_cons_of_mem c hc

theorem headersOf_scalar (name : List Char) (cols : List Column) (T : List (List Char)) :
    headersOf (.scalar name :: cols) ++ T = name :: (headersOf cols ++ T) := rfl

theorem headersOf_array (name : List Char) (n : ℕ) (cols : List Column) (T : List (List Char)) :
    headersOf (.array name n :: cols) ++ T =
      (Column.array name n).headers ++ (headersOf cols ++ T) := by
  rw [headersOf, List.flatMap_cons, List.append_assoc]
  rfl

theorem headers_array {name : List Char} {n : ℕ} (hn : 0 < n) :
    (Column.array name n).headers = element name 0 :: (List.range' 1 (n - 1)).map (element name) := by
  obtain ⟨m, rfl⟩ := Nat.exists_eq_succ_of_ne_zero hn.ne'
  rw [Column.headers, List.range_eq_range', List.range'_succ, List.map_cons]
  rfl

theorem headers_array_two {name : List Char} {n : ℕ} (hn : 2 ≤ n) :
    (Column.array name n).headers =
      element name 0 :: element name 1 :: (List.range' 2 (n - 2)).map (element name) := by
  obtain ⟨m, rfl⟩ := Nat.exists_eq_add_of_le' hn
  rw [headers_array (by omega), Nat.add_sub_cancel, show m + 2 - 1 = m + 1 by omega,
    List.range'_succ, List.map_cons]

variable {prevCol : List Char} {P X : List (List Char)} {acts : List Act}

theorem readHeader_cons {c : List Char} {h : List (List Char)} {cols' : List (List Char)}
    (hread : readHeader F prevCol P (c :: h) = .ok (acts, cols')) :
    ∃ act cols acts', readCol F prevCol P c (h.headD []) = .ok (act, cols) ∧
      readHeader F c cols h = .ok (acts', cols') ∧ acts = act :: acts' := by
  rw [readHeader] at hread
  obtain ⟨⟨act, cols⟩, hcol, hread⟩ := exists_of_bind_ok hread
  obtain ⟨⟨acts', cols''⟩, hrest, hread⟩ := exists_of_bind_ok hread
  cases hread
  exact ⟨act, cols, acts', hcol, hrest, rfl⟩

theorem readHeader_cons_of_ok {c : List Char} {h cols : List (List Char)} {act : Act}
    (hcol : readCol F prevCol P c (h.headD []) = .ok (act, cols)) :
    readHeader F prevCol P (c :: h) =
      (readHeader F c cols h).map fun p => (act :: p.1, p.2) := by
  rw [readHeader, hcol]
  show (readHeader F c cols h >>= _) = _
  cases readHeader F c cols h <;> rfl

/-- Names are added at the end, and not more than there are in the header. -/
theorem exists_of_readHeader {h : List (List Char)} {cols' : List (List Char)}
    (hread : readHeader F prevCol P h = .ok (acts, cols')) :
    ∃ X, cols' = P ++ X ∧ X.length ≤ h.length := by
  induction h generalizing prevCol P acts with
  | nil =>
    cases hread
    exact ⟨[], (List.append_nil _).symm, le_rfl⟩
  | cons c h ih =>
    obtain ⟨act, cols, acts', hcol, hrest, -⟩ := readHeader_cons hread
    obtain ⟨Y, rfl, hY⟩ := mem_or_of_readCol hcol
    obtain ⟨X, rfl, hX⟩ := ih hrest
    refine ⟨Y ++ X, List.append_assoc P Y X, ?_⟩
    rcases hY with rfl | rfl | ⟨p, rfl, -⟩
    all_goals
      simp only [List.length_append, List.length_nil, List.length_cons] at hX ⊢
      omega

theorem exists_of_readHeader_append {h Y : List (List Char)}
    (hread : readHeader F prevCol (P ++ Y) h = .ok (acts, P ++ X)) : ∃ X', X = Y ++ X' := by
  obtain ⟨X', heq, -⟩ := exists_of_readHeader hread
  rw [List.append_assoc] at heq
  exact ⟨X', List.append_cancel_left heq⟩

/-- The names that are told among the later elements of an array end in digits. -/
theorem exists_of_elements {name : List Char} {is : List ℕ} (his : ∀ i ∈ is, 0 < i)
    {rest cols' : List (List Char)}
    (hread : readHeader F prevCol P (is.map (element name) ++ rest) = .ok (acts, cols')) :
    ∃ prevCol' Y acts', (∀ y ∈ Y, EndsInDigit y) ∧
      readHeader F prevCol' (P ++ Y) rest = .ok (acts', cols') := by
  induction is generalizing prevCol P acts with
  | nil => exact ⟨prevCol, [], acts, nofun, by rwa [List.append_nil]⟩
  | cons i is ih =>
    obtain ⟨hi, his⟩ := List.forall_mem_cons.mp his
    obtain ⟨act, cols, acts', hcol, hrest, -⟩ := readHeader_cons hread
    obtain ⟨Y, rfl, hY⟩ := mem_or_of_readCol hcol
    obtain ⟨prevCol', Y', acts'', hY', hread'⟩ := ih his hrest
    refine ⟨prevCol', Y ++ Y', acts'', ?_, by rwa [← List.append_assoc]⟩
    refine List.forall_mem_append.mpr ⟨?_, hY'⟩
    rcases hY with rfl | rfl | ⟨p, rfl, hp⟩
    · exact nofun
    · exact List.forall_mem_singleton.mpr (endsInDigit_element name i)
    · exact List.forall_mem_singleton.mpr (endsInDigit_of_element hi hp)

/-- What is read of an array begins with its name. -/
theorem readHeader_array {name : List Char} {n : ℕ} (hname : name ≠ []) (hn : 2 ≤ n)
    {rest cols' : List (List Char)}
    (hread : readHeader F prevCol P ((Column.array name n).headers ++ rest) = .ok (acts, cols')) :
    ∃ acts', readHeader F (element name 0) (P ++ [name])
      ((List.range' 1 (n - 1)).map (element name) ++ rest) = .ok (acts', cols') := by
  have htail : (List.range' 1 (n - 1)).map (element name) ++ rest =
      element name 1 :: ((List.range' 2 (n - 2)).map (element name) ++ rest) := by
    have hheaders : (Column.array name n).headers = _ := headers_array (by omega)
    rw [(List.cons.inj (hheaders.symm.trans (headers_array_two hn))).2]
    rfl
  rw [headers_array (by omega), List.cons_append, htail] at hread
  obtain ⟨act, cols, acts', hcol, hrest, -⟩ := readHeader_cons hread
  rw [List.headD_cons, readCol_first hname] at hcol
  cases hcol
  exact ⟨acts', htail ▸ hrest⟩

/-- **Names that are missing** are not made up for behind them. -/
theorem Named.ne_of_missing {cols : List Column} (h : Named cols) {T Tn : List (List Char)}
    (hlen : Tn.length = T.length) {W : List (List Char)} (hW : W ≠ [])
    (hne : ∀ w ∈ W, ∀ name n, Column.array name n ∈ cols → w ≠ name)
    (hread : readHeader F prevCol P (headersOf cols ++ T) = .ok (acts, P ++ X)) :
    X ≠ W ++ (cols.map Column.name ++ Tn) := by
  induction cols generalizing W prevCol P acts X with
  | nil =>
    rintro rfl
    obtain ⟨X', heq, hX⟩ := exists_of_readHeader hread
    rw [← List.append_cancel_left heq] at hX
    have hpos := List.length_pos_iff.mpr hW
    simp only [headersOf, List.flatMap_nil, List.nil_append, List.map_nil, List.length_append] at hX
    omega
  | cons c cols ih =>
    obtain ⟨w, W, rfl⟩ := List.exists_cons_of_ne_nil hW
    intro heq
    cases c with
    | scalar z =>
      have hz : ∀ name n, Column.array name n ∈ cols → z ≠ name := fun name n hmem =>
        h.ne z List.mem_cons_self name n (List.mem_cons_of_mem _ hmem)
      have hne' : ∀ W' : List (List Char), (∀ x ∈ W', x ∈ w :: W) → ∀ x ∈ W' ++ [z],
          ∀ name n, Column.array name n ∈ cols → x ≠ name := by
        intro W' hsub
        refine List.forall_mem_append.mpr ⟨fun x hx name n hmem => ?_,
          List.forall_mem_singleton.mpr hz⟩
        exact hne x (hsub x hx) name n (List.mem_cons_of_mem _ hmem)
      rw [headersOf_scalar] at hread
      rw [List.map_cons, Column.name_scalar] at heq
      obtain ⟨act, cols₁, acts', hcol, hrest, -⟩ := readHeader_cons hread
      obtain ⟨Y, rfl, hY⟩ := mem_or_of_readCol hcol
      rcases hY with rfl | rfl | ⟨p, rfl, hp⟩
      · -- the name is left out: one more is missing
        rw [List.append_nil] at hrest
        refine ih h.tail (List.append_ne_nil_of_right_ne_nil _ (List.cons_ne_nil z []))
          (hne' (w :: W) fun _ hx => hx) hrest ?_
        rw [heq]
        simp
      · obtain ⟨X', rfl⟩ := exists_of_readHeader_append hrest
        have htail : X' = W ++ (z :: cols.map Column.name ++ Tn) := (List.cons.inj heq).2
        refine ih h.tail (List.append_ne_nil_of_right_ne_nil W (List.cons_ne_nil z []))
          (hne' W fun _ hx => List.mem_cons_of_mem w hx)
          (hrest.trans (by rw [List.append_assoc])) ?_
        rw [htail]
        simp
      · refine h.not_digit z List.mem_cons_self ⟨'0', ?_, by decide⟩
        rw [hp, List.getLast?_concat]
    | array name n =>
      have hmem : Column.array name n ∈ Column.array name n :: cols := List.mem_cons_self
      rw [headersOf_array] at hread
      obtain ⟨acts', hrest⟩ :=
        readHeader_array (h.name_ne_nil _ hmem) (h.two_le name n hmem) hread
      obtain ⟨X', rfl⟩ := exists_of_readHeader_append hrest
      exact hne w List.mem_cons_self name n hmem (List.cons.inj heq).1.symm

/-- **Names that are too many**, and end in digits, are not made up for behind them. -/
theorem Named.ne_of_extra {cols : List Column} (h : Named cols) {T Tn : List (List Char)}
    (hTn : ∀ x ∈ Tn, ¬ EndsInDigit x) {W : List (List Char)} (hW : W ≠ [])
    (hdigit : ∀ w ∈ W, EndsInDigit w)
    (hread : readHeader F prevCol P (headersOf cols ++ T) = .ok (acts, P ++ X)) :
    W ++ X ≠ cols.map Column.name ++ Tn := by
  induction cols generalizing W prevCol P acts X with
  | nil =>
    obtain ⟨w, W, rfl⟩ := List.exists_cons_of_ne_nil hW
    intro heq
    rw [List.map_nil, List.nil_append] at heq
    exact hTn w (heq ▸ List.mem_cons_self) (hdigit w List.mem_cons_self)
  | cons c cols ih =>
    obtain ⟨w, W, rfl⟩ := List.exists_cons_of_ne_nil hW
    obtain ⟨hw, hdigit⟩ := List.forall_mem_cons.mp hdigit
    intro heq
    cases c with
    | scalar z =>
      obtain rfl : w = z := (List.cons.inj heq).1
      exact h.not_digit w List.mem_cons_self hw
    | array name n =>
      have hmem : Column.array name n ∈ Column.array name n :: cols := List.mem_cons_self
      obtain rfl : w = name := (List.cons.inj heq).1
      rw [headersOf_array] at hread
      obtain ⟨acts', hrest⟩ :=
        readHeader_array (h.name_ne_nil _ hmem) (h.two_le w n hmem) hread
      have hpos : ∀ i ∈ List.range' 1 (n - 1), 0 < i := fun i hi => (List.mem_range'_1.mp hi).1
      obtain ⟨prevCol', Y, acts'', hY, hrest⟩ := exists_of_elements hpos hrest
      rw [Column.name_array, List.append_assoc] at hrest
      obtain ⟨X', rfl⟩ := exists_of_readHeader_append hrest
      have hrest' : readHeader F prevCol' (P ++ ([w] ++ Y)) (headersOf cols ++ T) =
          .ok (acts'', P ++ ([w] ++ Y) ++ X') := by
        rw [hrest, List.append_assoc P]
      refine ih h.tail (W := W ++ ([w] ++ Y)) (by simp) ?_ hrest' ?_
      · refine List.forall_mem_append.mpr ⟨hdigit, List.forall_mem_append.mpr ⟨?_, hY⟩⟩
        exact List.forall_mem_singleton.mpr hw
      · have htail : W ++ ([w] ++ Y ++ X') = cols.map Column.name ++ Tn := (List.cons.inj heq).2
        rw [← htail]
        simp

end Wrong

/-! ## A header that is told right -/

section Right

/-- The names that were read last, when all columns up to now were recognised. -/
def Behind (before : Option Column) (prevCol : List Char) (P : List (List Char)) : Prop :=
  prevCol = before.elim [] (fun c => c.headers.getLastD []) ∧ P.getLast? = before.map Column.name

theorem Behind.nil : Behind none [] [] :=
  ⟨rfl, rfl⟩

theorem Behind.append (c : Column) (P : List (List Char)) :
    Behind (some c) (c.headers.getLastD []) (P ++ [c.name]) :=
  ⟨rfl, List.getLast?_concat⟩

variable {prevCol nextCol : List Char} {P : List (List Char)} {before : Option Column}

theorem not_first {c p a : List Char} (hc : ¬ EndsInDigit c) (h : c = p ++ a) :
    ¬ (p ≠ [] ∧ a = ['0']) := by
  rintro ⟨-, rfl⟩
  exact hc ⟨'0', h ▸ List.getLast?_concat, by decide⟩

/-- A scalar that is recognised. -/
theorem readCol_scalar (hbehind : Behind before prevCol P) {z : List Char} (hz : ¬ EndsInDigit z)
    (h : Recognised F before nextCol (.scalar z)) :
    readCol F prevCol P z nextCol = .ok (.atomic, P ++ [z]) := by
  rcases h with rfl | ⟨husec, c, rfl, hcont⟩
  · exact if_pos rfl
  · obtain ⟨rfl, hlast⟩ := hbehind
    rw [readCol]
    split
    · next htime => rw [htime]; rfl
    · obtain ⟨a, b, hpre, hza, -⟩ := exists_prefixOf z nextCol
      rw [if_neg (mt List.isSuffixOf_iff_suffix.mp husec), hpre]
      dsimp only
      rw [if_neg (not_first hz hza), hlast]
      exact if_neg hcont

/-- A scalar that is not recognised is left out. -/
theorem eq_of_readCol_scalar (hbehind : Behind before prevCol P) {z : List Char}
    (hz : ¬ EndsInDigit z) (h : ¬ Recognised F before nextCol (.scalar z)) {act : Act}
    {cols' : List (List Char)} (hread : readCol F prevCol P z nextCol = .ok (act, cols')) :
    cols' = P := by
  obtain ⟨htime, h⟩ := not_or.mp h
  rw [readCol, if_neg htime] at hread
  split at hread
  · cases hread
    rfl
  · next husec =>
    obtain ⟨a, b, hpre, hza, -⟩ := exists_prefixOf z nextCol
    rw [hpre] at hread
    dsimp only at hread
    rw [if_neg (not_first hz hza)] at hread
    obtain ⟨rfl, hlast⟩ := hbehind
    rw [hlast] at hread
    cases before with
    | none => cases hread
    | some c =>
      have hcont : (prefixOf (c.headers.getLastD []) z).1 = c.name ∧
          isNum F (prefixOf (c.headers.getLastD []) z).2.2 := by
        by_contra hcont
        exact h ⟨mt List.isSuffixOf_iff_suffix.mpr husec, c, rfl, hcont⟩
      replace hread := (if_pos hcont).symm.trans hread
      cases hread
      rfl

theorem isNum_toDigits (i : ℕ) : isNum F (Nat.toDigits 10 i) := by
  have h := Text.intSigned_decimal (F := F) (i : ℤ)
  rw [Text.decimal, if_neg (by omega), Int.natAbs_natCast] at h
  rw [isNum, h]
  rfl

/-- A later element of an array that is told. -/
theorem readCol_append {name : List Char} {i : ℕ} (hi : i < 10)
    (hnext : i = 9 → common (element name 10) nextCol ≠ element name 1)
    (hlast : P.getLast? = some name) :
    readCol F (element name i) P (element name (i + 1)) nextCol = .ok (.append, P) := by
  have hdigit := endsInDigit_element name (i + 1)
  obtain ⟨a, b, hpre, hca, -⟩ := exists_prefixOf (element name (i + 1)) nextCol
  have hfirst : ¬ (common (element name (i + 1)) nextCol ≠ [] ∧ a = ['0']) := by
    rintro ⟨-, rfl⟩
    by_cases h9 : i = 9
    · subst h9
      exact hnext rfl (List.append_cancel_right ((element_ten name).symm.trans hca)).symm
    · have hdigit : ∀ d < 10, 0 < d → Nat.digitChar d ≠ '0' := by decide
      rw [element, Nat.toDigits_of_lt_base (by omega)] at hca
      exact hdigit (i + 1) (by omega) (by omega) (List.cons.inj (List.append_inj' hca rfl).2).1
  have hcommon : ∀ i < 10, common (Nat.toDigits 10 i) (Nat.toDigits 10 (i + 1)) = [] := by decide
  have hpre' : prefixOf (element name i) (element name (i + 1)) =
      (name, Nat.toDigits 10 i, Nat.toDigits 10 (i + 1)) := prefixOf_append (hcommon i hi)
  rw [readCol, if_neg hdigit.ne_time, hdigit.not_usec, if_neg Bool.false_ne_true, hpre]
  dsimp only
  rw [if_neg hfirst, hpre', hlast]
  exact if_pos ⟨rfl, isNum_toDigits (i + 1)⟩

/-- The eleventh element of an array, with more in common with the name behind it. -/
theorem readCol_eleventh {name : List Char} (prevCol : List Char)
    (hnext : common (element name 10) nextCol = element name 1) :
    readCol F prevCol P (element name 10) nextCol = .ok (.first, P ++ [element name 1]) := by
  have hdigit := endsInDigit_element name 10
  obtain ⟨a, b, hpre, hca, -⟩ := exists_prefixOf (element name 10) nextCol
  have ha : a = ['0'] := by
    rw [hnext, element_ten] at hca
    exact (List.append_cancel_left hca).symm
  rw [readCol, if_neg hdigit.ne_time, hdigit.not_usec, if_neg Bool.false_ne_true, hpre]
  dsimp only
  rw [hnext]
  refine if_pos ⟨?_, ha⟩
  exact List.append_ne_nil_of_right_ne_nil _ Nat.toDigits_ne_nil

/-- The acts of a column. -/
def Column.acts : Column → List Act
  | .scalar _ => [.atomic]
  | .array _ n => .first :: List.replicate (n - 1) .append

/-- The later elements of an array, up to the eleventh one. -/
theorem readHeader_elements {name : List Char} (hlast : P.getLast? = some name)
    (rest : List (List Char)) (k : ℕ) {i : ℕ} (hk : i + k ≤ 10)
    (hnext : i + k = 10 → k ≠ 0 → common (element name 10) (rest.headD []) ≠ element name 1) :
    readHeader F (element name i) P ((List.range' (i + 1) k).map (element name) ++ rest) =
      (readHeader F (element name (i + k)) P rest).map fun p =>
        (List.replicate k Act.append ++ p.1, p.2) := by
  induction k generalizing i with
  | zero =>
    show readHeader F (element name i) P rest = _
    cases readHeader F (element name i) P rest <;> rfl
  | succ k ih =>
    have hcol : readCol F (element name i) P (element name (i + 1))
        (((List.range' (i + 1 + 1) k).map (element name) ++ rest).headD []) = .ok (.append, P) := by
      refine readCol_append (by omega) (fun h9 => ?_) hlast
      obtain rfl : k = 0 := by omega
      exact hnext (by omega) (by omega)
    rw [List.range'_succ, List.map_cons, List.cons_append, readHeader_cons_of_ok hcol,
      ih (by omega) fun heq hne => hnext (by omega) (by omega),
      show i + 1 + k = i + (k + 1) by omega]
    cases readHeader F (element name (i + (k + 1))) P rest <;> rfl

theorem getLastD_headers_array {name : List Char} {n : ℕ} (hn : 0 < n) :
    (Column.array name n).headers.getLastD [] = element name (n - 1) := by
  obtain ⟨m, rfl⟩ := Nat.exists_eq_succ_of_ne_zero hn.ne'
  rw [Column.headers, List.range_succ, List.map_append, List.getLastD_eq_getLast?,
    List.map_singleton, List.getLast?_concat]
  rfl

/-- **A column that is recognised.** -/
theorem readHeader_of_recognised {c : Column} (hnamed : Named [c])
    (hbehind : Behind before prevCol P) {rest : List (List Char)}
    (h : Recognised F before (rest.headD []) c) :
    readHeader F prevCol P (c.headers ++ rest) =
      (readHeader F (c.headers.getLastD []) (P ++ [c.name]) rest).map fun p =>
        (c.acts ++ p.1, p.2) := by
  cases c with
  | scalar z =>
    exact readHeader_cons_of_ok (readCol_scalar hbehind
      (hnamed.not_digit z List.mem_cons_self) h)
  | array name n =>
    have hn := hnamed.two_le name n List.mem_cons_self
    have hname : name ≠ [] := hnamed.name_ne_nil _ List.mem_cons_self
    have hcol : readCol F prevCol P (element name 0)
        (((List.range' 1 (n - 1)).map (element name) ++ rest).headD []) =
          .ok (.first, P ++ [name]) := by
      rw [show n - 1 = n - 2 + 1 by omega, List.range'_succ]
      exact readCol_first hname prevCol P
    have hbound : n < 11 ∨ n = 11 ∧ common (element name 10) (rest.headD []) ≠ element name 1 := h
    have helements := readHeader_elements (F := F) (P := P ++ [name]) List.getLast?_concat rest
      (n - 1) (i := 0) (by omega) fun heq _ => by
        rcases hbound with hlt | ⟨-, hnext⟩
        · omega
        · exact hnext
    rw [headers_array (by omega), List.cons_append, readHeader_cons_of_ok hcol, helements,
      ← headers_array (by omega), getLastD_headers_array (by omega), Nat.zero_add, Column.name_array]
    cases readHeader F (element name (n - 1)) (P ++ [name]) rest <;> rfl

/-- **An array that is not recognised** leaves names that are too many. -/
theorem exists_of_not_recognised {name : List Char} {n : ℕ} (hname : name ≠ []) (hn : 2 ≤ n)
    {rest cols' : List (List Char)} {acts : List Act}
    (h : ¬ Recognised F before (rest.headD []) (.array name n))
    (hread : readHeader F prevCol P ((Column.array name n).headers ++ rest) = .ok (acts, cols')) :
    ∃ prevCol' Y acts', Y ≠ [] ∧ (∀ y ∈ Y, EndsInDigit y) ∧
      readHeader F prevCol' (P ++ [name] ++ Y) rest = .ok (acts', cols') := by
  obtain ⟨hlt, h11⟩ := not_or.mp h
  have hn' : 11 ≤ n := not_lt.mp hlt
  obtain ⟨acts₁, hread⟩ := readHeader_array hname hn hread
  -- the first ten elements, the eleventh one, and the others
  have hsplit : List.range' 1 (n - 1) = List.range' 1 9 ++ 10 :: List.range' 11 (n - 11) := by
    rw [show n - 1 = 9 + (n - 11 + 1) by omega, ← List.range'_append_1]
    rfl
  have hnext : common (element name 10)
      (((List.range' 11 (n - 11)).map (element name) ++ rest).headD []) = element name 1 := by
    by_cases heq : n = 11
    · subst heq
      exact not_not.mp fun hne => h11 ⟨rfl, hne⟩
    · rw [show n - 11 = n - 12 + 1 by omega, List.range'_succ]
      exact common_append name _ _
  rw [hsplit, List.map_append, List.append_assoc, List.map_cons, List.cons_append,
    readHeader_elements List.getLast?_concat _ 9 (by omega) (fun h => by omega),
    readHeader_cons_of_ok (readCol_eleventh _ hnext)] at hread
  obtain ⟨p, hp⟩ : ∃ p, readHeader F (element name 10) (P ++ [name] ++ [element name 1])
      ((List.range' 11 (n - 11)).map (element name) ++ rest) = .ok p ∧ p.2 = cols' := by
    cases hp : readHeader F (element name 10) (P ++ [name] ++ [element name 1])
        ((List.range' 11 (n - 11)).map (element name) ++ rest) with
    | error e =>
      rw [hp] at hread
      cases hread
    | ok p =>
      rw [hp] at hread
      cases hread
      exact ⟨p, rfl, rfl⟩
  obtain ⟨hp, rfl⟩ := hp
  have hpos : ∀ i ∈ List.range' 11 (n - 11), 0 < i := fun i hi =>
    Nat.lt_of_lt_of_le (by omega) (List.mem_range'_1.mp hi).1
  obtain ⟨prevCol', Y, acts', hY, hrest⟩ := exists_of_elements hpos hp
  refine ⟨prevCol', element name 1 :: Y, acts', List.cons_ne_nil _ _,
    List.forall_mem_cons.mpr ⟨endsInDigit_element name 1, hY⟩, ?_⟩
  rw [List.append_assoc] at hrest
  exact hrest

variable (F) in
/-- All these columns are recognised, behind a column and in front of other names. -/
def AllRecognised (T : List (List Char)) : Option Column → List Column → Prop
  | _, [] => True
  | before, c :: cols =>
    Recognised F before ((headersOf cols ++ T).headD []) c ∧ AllRecognised T (some c) cols

theorem allRecognised_iff {T : List (List Char)} {cols : List Column} :
    AllRecognised F T before cols ↔ ∀ b c a, cols = b ++ c :: a →
      Recognised F (b.getLast?.or before) ((headersOf a ++ T).headD []) c := by
  induction cols generalizing before with
  | nil => exact ⟨fun _ b c a h => by simp at h, fun _ => trivial⟩
  | cons c cols ih =>
    rw [AllRecognised, ih]
    constructor
    · rintro ⟨hc, hcols⟩ b c' a heq
      cases b with
      | nil =>
        obtain ⟨rfl, rfl⟩ := List.cons.inj heq
        exact hc
      | cons b₀ b =>
        obtain ⟨rfl, htail⟩ := List.cons.inj heq
        have h := hcols b c' a htail
        rw [List.getLast?_cons]
        cases hb : b.getLast? <;> (rw [hb] at h; exact h)
    · intro h
      refine ⟨h [] c cols rfl, fun b c' a heq => ?_⟩
      have h := h (c :: b) c' a (by rw [heq]; rfl)
      rw [List.getLast?_cons] at h
      cases hb : b.getLast? <;> (rw [hb] at h; exact h)

/-- **Columns that are recognised** are read. -/
theorem readHeader_of_allRecognised {cols : List Column} (hnamed : Named cols)
    (hbehind : Behind before prevCol P) (h : AllRecognised F [] before cols) :
    readHeader F prevCol P (headersOf cols) =
      .ok (cols.flatMap Column.acts, P ++ cols.map Column.name) := by
  induction cols generalizing before prevCol P with
  | nil =>
    rw [List.map_nil, List.append_nil]
    rfl
  | cons c cols ih =>
    obtain ⟨hc, hcols⟩ := h
    rw [List.append_nil] at hc
    show readHeader F prevCol P (c.headers ++ headersOf cols) = _
    rw [readHeader_of_recognised (hnamed.of_subset (by simp)) hbehind hc,
      ih hnamed.tail (Behind.append c P) hcols, List.append_assoc]
    rfl

/-- **Columns that are reported** were recognised. -/
theorem allRecognised_of_readHeader {cols : List Column} (hnamed : Named cols)
    (hbehind : Behind before prevCol P) {T Tn : List (List Char)} (hlen : Tn.length = T.length)
    (hTn : ∀ x ∈ Tn, ¬ EndsInDigit x) {acts : List Act}
    (hread : readHeader F prevCol P (headersOf cols ++ T) =
      .ok (acts, P ++ (cols.map Column.name ++ Tn))) :
    AllRecognised F T before cols ∧ ∃ before' prevCol' P' acts', Behind before' prevCol' P' ∧
      readHeader F prevCol' P' T = .ok (acts', P' ++ Tn) := by
  induction cols generalizing before prevCol P acts with
  | nil => exact ⟨trivial, before, prevCol, P, acts, hbehind, hread⟩
  | cons c cols ih =>
    by_cases hc : Recognised F before ((headersOf cols ++ T).headD []) c
    · have hsplit : headersOf (c :: cols) ++ T = c.headers ++ (headersOf cols ++ T) := by
        rw [headersOf, List.flatMap_cons, List.append_assoc]
        rfl
      rw [hsplit, readHeader_of_recognised (hnamed.of_subset (by simp)) hbehind hc] at hread
      cases hp : readHeader F (c.headers.getLastD []) (P ++ [c.name]) (headersOf cols ++ T) with
      | error e =>
        rw [hp] at hread
        cases hread
      | ok p =>
        rw [hp] at hread
        obtain ⟨acts', cols'⟩ := p
        obtain ⟨rfl, rfl⟩ := Prod.mk.inj (Except.ok.inj hread)
        have hread' : readHeader F (c.headers.getLastD []) (P ++ [c.name]) (headersOf cols ++ T) =
            .ok (acts', P ++ [c.name] ++ (cols.map Column.name ++ Tn)) := by
          rw [hp, List.append_assoc]
          rfl
        obtain ⟨hall, hrest⟩ := ih hnamed.tail (Behind.append c P) hread'
        exact ⟨⟨hc, hall⟩, hrest⟩
    · exfalso
      cases c with
      | scalar z =>
        have hz := hnamed.not_digit z List.mem_cons_self
        rw [headersOf_scalar] at hread
        obtain ⟨act, cols₁, acts', hcol, hrest, -⟩ := readHeader_cons hread
        obtain rfl := eq_of_readCol_scalar hbehind hz hc hcol
        refine hnamed.tail.ne_of_missing hlen (List.cons_ne_nil z []) ?_ hrest rfl
        refine List.forall_mem_singleton.mpr fun name n hmem => ?_
        exact hnamed.ne z List.mem_cons_self name n (List.mem_cons_of_mem _ hmem)
      | array name n =>
        have hmem : Column.array name n ∈ Column.array name n :: cols := List.mem_cons_self
        rw [headersOf_array] at hread
        obtain ⟨prevCol', Y, acts', hY, hdigit, hrest⟩ := exists_of_not_recognised
          (hnamed.name_ne_nil _ hmem) (hnamed.two_le name n hmem) hc hread
        obtain ⟨X, heq, -⟩ := exists_of_readHeader hrest
        have htail : cols.map Column.name ++ Tn = Y ++ X := by
          rw [List.append_assoc, List.append_assoc] at heq
          exact (List.cons.inj (List.append_cancel_left heq)).2
        rw [heq] at hrest
        exact hnamed.tail.ne_of_extra hTn hY hdigit hrest htail.symm

end Right

/-! ## The lines of the file -/

section Lines

theorem newlines_cons {c : Char} (hc : c ≠ '\r') (cs : List Char) :
    newlines (c :: cs) = c :: newlines cs := by
  rw [newlines]
  · rintro cs' rfl
    exact absurd rfl hc
  · exact hc

theorem newlines_cr {c : Char} (hc : c ≠ '\n') (cs : List Char) :
    newlines ('\r' :: c :: cs) = '\n' :: newlines (c :: cs) := by
  rw [newlines]
  rintro cs' heq
  exact hc (List.cons.inj heq).1

/-- A line end is a line end, whatever stands before it. -/
theorem newlines_append (l rest : List Char) :
    newlines (l ++ '\n' :: rest) = newlines (l ++ ['\n']) ++ newlines rest := by
  induction l using newlines.induct with
  | case1 cs ih =>
    show '\n' :: newlines (cs ++ '\n' :: rest) = '\n' :: newlines (cs ++ ['\n']) ++ newlines rest
    rw [ih]
    rfl
  | case2 cs hcs ih =>
    cases cs with
    | nil => rfl
    | cons c cs =>
      have hc : c ≠ '\n' := fun heq => hcs cs (by rw [heq])
      rw [List.cons_append, List.cons_append, newlines_cr hc, List.cons_append, List.cons_append,
        newlines_cr hc, ← List.cons_append, ih]
      rfl
  | case3 c cs hcr hc ih =>
    rw [List.cons_append, List.cons_append, newlines_cons hc, newlines_cons hc, ih]
    rfl
  | case4 => rfl

theorem newlines_unlines (ls : List (List Char)) :
    newlines (unlines ls) = ls.flatMap fun l => newlines (l ++ ['\n']) := by
  induction ls with
  | nil => rfl
  | cons l ls ih =>
    rw [unlines, List.flatMap_cons, List.append_assoc, List.singleton_append, newlines_append,
      List.flatMap_cons, ← ih]
    rfl

/-- The lines of a text that ends a line. -/
theorem fileLines_append (x rest : List Char) :
    fileLines (x ++ '\n' :: rest) = fileLines (x ++ ['\n']) ++ fileLines rest ∧
      (fileLines (x ++ ['\n'])).length = (x ++ ['\n']).count '\n' := by
  induction x with
  | nil => exact ⟨rfl, rfl⟩
  | cons c x ih =>
    obtain ⟨happend, hcount⟩ := ih
    rw [List.cons_append, List.cons_append, fileLines, fileLines, happend]
    by_cases hc : c = '\n'
    · subst hc
      rw [if_pos rfl, if_pos rfl, List.length_cons, hcount, List.count_cons_self]
      exact ⟨rfl, rfl⟩
    · rw [if_neg hc, if_neg hc, List.count_cons_of_ne hc, ← hcount]
      cases hlines : fileLines (x ++ ['\n']) with
      | nil =>
        rw [hlines] at hcount
        simp at hcount
      | cons l ls => exact ⟨rfl, rfl⟩

/-- Only the last character of the text may be lost. -/
theorem exists_newlines (l : List Char) : ∃ x, newlines (l ++ ['\n']) = x ++ ['\n'] := by
  induction l using newlines.induct with
  | case1 cs ih =>
    obtain ⟨x, hx⟩ := ih
    exact ⟨'\n' :: x, congrArg (List.cons '\n') hx⟩
  | case2 cs hcs ih =>
    cases cs with
    | nil => exact ⟨[], rfl⟩
    | cons c cs =>
      obtain ⟨x, hx⟩ := ih
      have hc : c ≠ '\n' := fun heq => hcs cs (by rw [heq])
      refine ⟨'\n' :: x, ?_⟩
      rw [List.cons_append, List.cons_append, newlines_cr hc, ← List.cons_append, hx]
      rfl
  | case3 c cs hcr hc ih =>
    obtain ⟨x, hx⟩ := ih
    exact ⟨c :: x, by rw [List.cons_append, newlines_cons hc, hx]; rfl⟩
  | case4 => exact ⟨[], rfl⟩

theorem oneLine_cons {c : Char} (hc : c ≠ '\r') (cs : List Char) :
    OneLine (c :: cs) ↔ c ≠ '\n' ∧ OneLine cs := by
  cases cs with
  | nil => simp [OneLine, eq_comm]
  | cons d cs =>
    rw [OneLine, OneLine, List.dropLast_cons_cons, List.mem_cons (a := '\n'), not_or,
      List.mem_cons (a := '\r') (b := c), not_or]
    constructor
    · rintro ⟨⟨hn, hns⟩, -, hr⟩
      exact ⟨Ne.symm hn, hns, hr⟩
    · rintro ⟨hn, hns, hr⟩
      exact ⟨⟨Ne.symm hn, hns⟩, Ne.symm hc, hr⟩

/-- **One line is one line**: it ends where it was ended, and loses no more than a `'\r'`. -/
theorem count_newlines_eq_one_iff (l : List Char) :
    0 < (newlines (l ++ ['\n'])).count '\n' ∧
      ((newlines (l ++ ['\n'])).count '\n' = 1 ↔ OneLine l) := by
  induction l using newlines.induct with
  | case1 cs ih =>
    have hcount : (newlines ('\r' :: '\n' :: cs ++ ['\n'])).count '\n' =
        (newlines (cs ++ ['\n'])).count '\n' + 1 := List.count_cons_self
    rw [hcount]
    refine ⟨Nat.succ_pos _, fun heq => by omega, fun h => absurd ?_ h.1⟩
    exact List.mem_cons_of_mem _ List.mem_cons_self
  | case2 cs hcs ih =>
    cases cs with
    | nil => exact ⟨by decide, fun _ => ⟨by decide, by decide⟩, fun _ => rfl⟩
    | cons c cs =>
      have hc : c ≠ '\n' := fun heq => hcs cs (by rw [heq])
      rw [List.cons_append, List.cons_append, newlines_cr hc, List.count_cons_self,
        ← List.cons_append]
      refine ⟨Nat.succ_pos _, fun heq => by omega, fun h => absurd ?_ h.2⟩
      rw [List.dropLast_cons_cons]
      exact List.mem_cons_self
  | case3 c cs hcr hc ih =>
    rw [List.cons_append, newlines_cons hc, oneLine_cons hc]
    by_cases hn : c = '\n'
    · subst hn
      rw [List.count_cons_self]
      exact ⟨Nat.succ_pos _, fun heq => by omega, fun h => absurd rfl h.1⟩
    · rw [List.count_cons_of_ne hn, ih.2]
      exact ⟨ih.1, fun h => ⟨hn, h⟩, fun h => h.2⟩
  | case4 => exact ⟨by decide, fun _ => ⟨by decide, by decide⟩, fun _ => rfl⟩

/-- The number of lines that a file has. -/
theorem length_fileLines (ls : List (List Char)) :
    (fileLines (newlines (unlines ls))).length =
      (ls.map fun l => (newlines (l ++ ['\n'])).count '\n').sum := by
  rw [newlines_unlines]
  induction ls with
  | nil => rfl
  | cons l ls ih =>
    obtain ⟨x, hx⟩ := exists_newlines l
    rw [List.flatMap_cons, hx, List.append_assoc, List.singleton_append, (fileLines_append x _).1,
      List.length_append, ih, (fileLines_append x []).2, List.map_cons, List.sum_cons, hx]

/-- **A file with as many lines as were written** has no other ends of lines. -/
theorem oneLine_of_length {ls : List (List Char)}
    (h : (fileLines (newlines (unlines ls))).length = ls.length) : ∀ l ∈ ls, OneLine l := by
  rw [length_fileLines] at h
  have hle : ∀ ls : List (List Char),
      ls.length ≤ (ls.map fun l => (newlines (l ++ ['\n'])).count '\n').sum := by
    intro ls
    induction ls with
    | nil => exact le_rfl
    | cons l ls ih =>
      have hpos := (count_newlines_eq_one_iff l).1
      rw [List.length_cons, List.map_cons, List.sum_cons]
      omega
  induction ls with
  | nil => exact nofun
  | cons l ls ih =>
    have hpos := (count_newlines_eq_one_iff l).1
    have hrest := hle ls
    rw [List.length_cons, List.map_cons, List.sum_cons] at h
    exact List.forall_mem_cons.mpr ⟨(count_newlines_eq_one_iff l).2.mp (by omega),
      ih (by omega)⟩

/-- The lines of a file that ends them where they were ended. -/
theorem fileLines_unlines {ls : List (List Char)} (h : ∀ l ∈ ls, OneLine l) :
    fileLines (newlines (unlines ls)) = ls.map fun l => newlines (l ++ ['\n']) := by
  rw [newlines_unlines]
  induction ls with
  | nil => rfl
  | cons l ls ih =>
    obtain ⟨hl, hls⟩ := List.forall_mem_cons.mp h
    obtain ⟨x, hx⟩ := exists_newlines l
    have hcount := (count_newlines_eq_one_iff l).2.mpr hl
    have hx' : '\n' ∉ x := by
      rw [hx, List.count_append, List.count_singleton_self] at hcount
      exact List.count_eq_zero.mp (by omega)
    have hone : ∀ x : List Char, '\n' ∉ x → fileLines (x ++ ['\n']) = [x ++ ['\n']] := by
      intro x
      induction x with
      | nil => exact fun _ => rfl
      | cons c x ih =>
        intro hx
        obtain ⟨hc, hx⟩ := not_or.mp (mt List.mem_cons.mpr hx)
        rw [List.cons_append, fileLines, if_neg (Ne.symm hc), ih hx]
    rw [List.flatMap_cons, hx, List.append_assoc, List.singleton_append, (fileLines_append x _).1,
      hone x hx', ih hls, List.map_cons, hx]
    rfl

theorem strip_append {cs ws : List Char} (h : ∀ c ∈ ws, PyRuntime.space F c) :
    strip F (cs ++ ws) = strip F cs := by
  have hws : rstrip F ws = [] := Text.rstrip_eq_nil_iff.mpr h
  show rstrip F ((cs ++ ws).dropWhile (PyRuntime.space F)) =
    rstrip F (cs.dropWhile (PyRuntime.space F))
  rw [List.dropWhile_append]
  split
  · next hempty =>
    rw [List.isEmpty_iff.mp hempty, List.dropWhile_eq_nil_iff.mpr h]
  · rw [Text.rstrip_append, if_pos hws]

variable (F) in
theorem space_newline : PyRuntime.space F '\n' :=
  PyText.space_of_isBoundary _ rfl

variable (F) in
theorem space_cr : PyRuntime.space F '\r' :=
  PyText.space_of_isBoundary _ rfl

/-- What is stripped of a line is not its end only. -/
theorem strip_newlines {l : List Char} (h : OneLine l) :
    strip F (newlines (l ++ ['\n'])) = strip F l := by
  have hread : ∀ l : List Char, OneLine l →
      ∃ x, newlines (l ++ ['\n']) = x ++ ['\n'] ∧ (l = x ∨ l = x ++ ['\r']) := by
    intro l
    induction l using newlines.induct with
    | case1 cs ih =>
      exact fun h => absurd (List.mem_cons_of_mem _ List.mem_cons_self) h.1
    | case2 cs hcs ih =>
      cases cs with
      | nil => exact fun _ => ⟨[], rfl, .inr rfl⟩
      | cons c cs =>
        intro h
        refine absurd ?_ h.2
        rw [List.dropLast_cons_cons]
        exact List.mem_cons_self
    | case3 c cs hcr hc ih =>
      intro h
      obtain ⟨-, hcs⟩ := (oneLine_cons hc cs).mp h
      obtain ⟨x, hx, hor⟩ := ih hcs
      refine ⟨c :: x, by rw [List.cons_append, newlines_cons hc, hx]; rfl, ?_⟩
      exact hor.imp (congrArg _) (congrArg (List.cons c))
    | case4 => exact fun _ => ⟨[], rfl, .inl rfl⟩
  obtain ⟨x, hx, hor⟩ := hread l h
  rw [hx, strip_append (List.forall_mem_singleton.mpr (space_newline F))]
  rcases hor with rfl | rfl
  · rfl
  · rw [strip_append (List.forall_mem_singleton.mpr (space_cr F))]

end Lines

/-! ## The values of a line -/

section Values

variable (F) in
theorem space_comma : PyRuntime.space F ',' = false := by
  rw [PyText.space_ascii _ (by decide)]
  rfl

theorem joined_cons (v : List Char) {vs : List (List Char)} (hne : vs ≠ []) :
    joined (v :: vs) = v ++ ',' :: joined vs := by
  rw [joined, List.intercalate_cons_of_ne_nil hne, List.append_assoc]
  rfl

theorem rstrip_cons {c : Char} (hc : PyRuntime.space F c = false) (cs : List Char) :
    rstrip F (c :: cs) = c :: rstrip F cs :=
  Text.rstrip_append_of_rstrip (Text.rstrip_concat hc [] : Text.rstrip F [c] = [c]) cs

theorem trimLast_ne_nil {vs : List (List Char)} (hne : vs ≠ []) : trimLast F vs ≠ [] := by
  cases vs with
  | nil => exact absurd rfl hne
  | cons v vs => cases vs <;> exact List.cons_ne_nil _ _

theorem trimLast_concat (vs : List (List Char)) (v : List Char) :
    trimLast F (vs ++ [v]) = vs ++ [rstrip F v] := by
  induction vs with
  | nil => rfl
  | cons w vs ih =>
    cases vs with
    | nil => rfl
    | cons x vs =>
      rw [List.cons_append, List.cons_append, trimLast, ← List.cons_append, ih]
      rfl

theorem rstrip_joined {vs : List (List Char)} :
    rstrip F (joined vs) = joined (trimLast F vs) := by
  induction vs with
  | nil => rfl
  | cons v vs ih =>
    cases vs with
    | nil => simp [joined, trimLast]
    | cons w vs =>
      have hne : w :: vs ≠ [] := List.cons_ne_nil w vs
      rw [joined_cons v hne, Text.rstrip_append, rstrip_cons (space_comma F),
        if_neg (List.cons_ne_nil _ _), ih, trimLast, joined_cons v (trimLast_ne_nil hne)]

theorem strip_joined {vs : List (List Char)} :
    strip F (joined vs) = joined (trimEnds F vs) := by
  cases vs with
  | nil => rfl
  | cons v vs =>
    rw [trimEnds, ← rstrip_joined]
    show rstrip F ((joined (v :: vs)).dropWhile (PyRuntime.space F)) = _
    congr 1
    cases vs with
    | nil => simp [joined]
    | cons w vs =>
      have hne : w :: vs ≠ [] := List.cons_ne_nil w vs
      rw [joined_cons v hne, joined_cons _ hne, List.dropWhile_append]
      split
      · next hempty =>
        rw [List.isEmpty_iff.mp hempty, List.dropWhile_cons, if_neg (by rw [space_comma]; decide)]
        rfl
      · rfl

theorem notMem_trimLast {vs : List (List Char)} (h : ∀ v ∈ vs, ',' ∉ v) :
    ∀ v ∈ trimLast F vs, ',' ∉ v := by
  rcases List.eq_nil_or_concat vs with rfl | ⟨vs, v, rfl⟩
  · exact nofun
  · rw [List.concat_eq_append] at h ⊢
    rw [trimLast_concat]
    obtain ⟨hvs, hv⟩ := List.forall_mem_append.mp h
    refine List.forall_mem_append.mpr ⟨hvs, List.forall_mem_singleton.mpr fun hmem => ?_⟩
    exact hv v List.mem_cons_self ((Text.rstrip_prefix v).subset hmem)

/-- **The values of a line** are the values that were written, without the blanks at its ends. -/
theorem splitOn_strip {vs : List (List Char)} (hne : vs ≠ []) (h : ∀ v ∈ vs, ',' ∉ v) :
    (strip F (joined vs)).splitOn ',' = trimEnds F vs := by
  obtain ⟨v, vs, rfl⟩ := List.exists_cons_of_ne_nil hne
  rw [strip_joined]
  refine List.splitOn_intercalate ',' (notMem_trimLast ?_) (trimLast_ne_nil (List.cons_ne_nil _ _))
  obtain ⟨hv, hvs⟩ := List.forall_mem_cons.mp h
  refine List.forall_mem_cons.mpr ⟨fun hmem => hv ?_, hvs⟩
  exact (List.dropWhile_suffix _).subset hmem

/-- **The names of the header.** -/
theorem splitOn_header {h : List (List Char)} (hne : h ≠ []) (hcomma : ∀ c ∈ h, ',' ∉ c) :
    ((strip F ('#' :: joined h)).drop 1).splitOn ',' = trimLast F h := by
  have hspace : PyRuntime.space F '#' = false := by
    rw [PyText.space_ascii _ (by decide)]
    rfl
  have hstrip : strip F ('#' :: joined h) = '#' :: joined (trimLast F h) := by
    rw [Text.strip_eq_rstrip fun c hc => by cases hc; exact hspace, rstrip_cons hspace,
      rstrip_joined]
  rw [hstrip, List.drop_one, List.tail_cons]
  exact List.splitOn_intercalate ',' (notMem_trimLast hcomma) (trimLast_ne_nil hne)

end Values

/-! ## The rows -/

section Rows

theorem length_acts {c : Column} (hnamed : Named [c]) : c.acts.length = c.headers.length := by
  cases c with
  | scalar z => rfl
  | array name n =>
    have hn := hnamed.two_le name n List.mem_cons_self
    rw [Column.acts, List.length_cons, List.length_replicate, Column.headers, List.length_map,
      List.length_range]
    omega

theorem foldlM_append (vs : List (List Char)) (row xs : List (Val F)) :
    (vs.zip (List.replicate vs.length Act.append)).foldlM (fun row p => p.2.run row p.1)
      (row ++ [.list xs]) = .ok (row ++ [.list (xs ++ vs.map val)]) := by
  induction vs generalizing xs with
  | nil =>
    rw [List.map_nil, List.append_nil]
    rfl
  | cons v vs ih =>
    have hrun : Act.append.run (row ++ [.list xs]) v = .ok (row ++ [.list (xs ++ [val v])]) := by
      rw [Act.run, List.getLast?_concat, List.dropLast_concat]
      rfl
    rw [List.length_cons, List.replicate_succ, List.zip_cons_cons, List.foldlM_cons]
    show (Act.append.run (row ++ [.list xs]) v >>= _) = _
    rw [hrun, ok_bind, ih, List.append_assoc]
    rfl

/-- The values of one column. -/
theorem foldlM_column {c : Column} (hnamed : Named [c]) {vs : List (List Char)}
    (hlen : vs.length = c.headers.length) (row : List (Val F)) :
    (vs.zip c.acts).foldlM (fun row p => p.2.run row p.1) row = .ok (row ++ [c.read vs]) := by
  cases c with
  | scalar z =>
    obtain ⟨v, rfl⟩ := List.length_eq_one_iff.mp hlen
    rfl
  | array name n =>
    have hn := hnamed.two_le name n List.mem_cons_self
    rw [Column.headers, List.length_map, List.length_range] at hlen
    obtain ⟨v, vs, rfl⟩ := List.exists_cons_of_length_pos (by omega : 0 < vs.length)
    have hlen' : n - 1 = vs.length := by
      rw [List.length_cons] at hlen
      omega
    rw [Column.acts, hlen', List.zip_cons_cons, List.foldlM_cons]
    exact foldlM_append vs row [val v]

/-- **The values of a row**, when all columns were recognised. -/
theorem foldlM_rowOf {cols : List Column} (hnamed : Named cols) {vs : List (List Char)}
    (hlen : vs.length = (headersOf cols).length) (row : List (Val F)) :
    (vs.zip (cols.flatMap Column.acts)).foldlM (fun row p => p.2.run row p.1) row =
      .ok (row ++ rowOf cols vs) := by
  induction cols generalizing vs row with
  | nil =>
    rw [rowOf, List.append_nil, List.flatMap_nil, List.zip_nil_right]
    rfl
  | cons c cols ih =>
    have hc : Named [c] := hnamed.of_subset (by simp)
    have hsum : vs.length = c.headers.length + (headersOf cols).length := by
      rw [hlen, headersOf, List.flatMap_cons, List.length_append]
      rfl
    have htake : (vs.take c.headers.length).length = c.headers.length := by
      rw [List.length_take]
      omega
    have hdrop : (vs.drop c.headers.length).length = (headersOf cols).length := by
      rw [List.length_drop]
      omega
    have hzip : vs.zip ((c :: cols).flatMap Column.acts) =
        (vs.take c.headers.length).zip c.acts ++
          (vs.drop c.headers.length).zip (cols.flatMap Column.acts) := by
      rw [← List.zip_append (htake.trans (length_acts hc).symm), List.take_append_drop]
      rfl
    rw [hzip, List.foldlM_append, foldlM_column hc htake, ok_bind, ih hnamed.tail hdrop, rowOf,
      List.append_assoc]
    rfl

theorem read_eq_iff {c : Column} {vs ws : List (List Char)}
    (hvs : vs.length = c.headers.length) (hws : ws.length = c.headers.length) :
    c.read vs = (c.read ws : Val F) ↔ vs.map (val (F := F)) = ws.map val := by
  cases c with
  | scalar z =>
    obtain ⟨v, rfl⟩ := List.length_eq_one_iff.mp hvs
    obtain ⟨w, rfl⟩ := List.length_eq_one_iff.mp hws
    exact ⟨fun h => congrArg (fun x => [x]) h, fun h => (List.cons.inj h).1⟩
  | array name n => exact ⟨fun h => Val.list.inj h, fun h => congrArg Val.list h⟩

/-- **A row tells its values**, as they are read. -/
theorem rowOf_eq_iff {cols : List Column} {vs ws : List (List Char)}
    (hvs : vs.length = (headersOf cols).length) (hws : ws.length = (headersOf cols).length) :
    rowOf cols vs = (rowOf cols ws : List (Val F)) ↔ vs.map (val (F := F)) = ws.map val := by
  induction cols generalizing vs ws with
  | nil =>
    obtain rfl := List.length_eq_zero_iff.mp hvs
    obtain rfl := List.length_eq_zero_iff.mp hws
    exact Iff.rfl
  | cons c cols ih =>
    have hsum : (headersOf (c :: cols)).length = c.headers.length + (headersOf cols).length := by
      rw [headersOf, List.flatMap_cons, List.length_append]
      rfl
    have htake {us : List (List Char)} (hus : us.length = (headersOf (c :: cols)).length) :
        (us.take c.headers.length).length = c.headers.length := by
      rw [List.length_take]
      omega
    have hdrop {us : List (List Char)} (hus : us.length = (headersOf (c :: cols)).length) :
        (us.drop c.headers.length).length = (headersOf cols).length := by
      rw [List.length_drop]
      omega
    rw [rowOf, rowOf, List.cons.injEq, read_eq_iff (htake hvs) (htake hws),
      ih (hdrop hvs) (hdrop hws)]
    conv_rhs => rw [← List.take_append_drop c.headers.length vs,
      ← List.take_append_drop c.headers.length ws, List.map_append, List.map_append]
    constructor
    · rintro ⟨hleft, hright⟩
      rw [hleft, hright]
    · refine fun heq => List.append_inj heq ?_
      rw [List.length_map, List.length_map, htake hvs, htake hws]

end Rows

/-! ## The whole file -/

section File

theorem Table.named (t : Table) : Named t.cols where
  name_ne_nil := t.name_ne_nil
  two_le := t.two_le
  not_digit name hmem := by
    rintro ⟨c, hc, hdigit⟩
    exact t.not_digit name hmem c hc hdigit
  ne name hmem name' n hmem' := by
    rintro rfl
    have hn := t.two_le name n hmem'
    refine t.not_extends name hmem (element name 0)
      (List.mem_flatMap.mpr ⟨_, hmem', ?_⟩) ⟨Nat.toDigits 10 0, Nat.toDigits_ne_nil,
        fun _ hc => Text.isDigit_of_mem_toDigits hc, rfl⟩
    rw [headers_array (by omega)]
    exact List.mem_cons_self

theorem Column.headers_ne_nil {c : Column} (h : Named [c]) : c.headers ≠ [] := by
  cases c with
  | scalar z => exact List.cons_ne_nil z []
  | array name n =>
    have hn := h.two_le name n List.mem_cons_self
    rw [headers_array (by omega)]
    exact List.cons_ne_nil _ _

theorem headersOf_ne_nil {cols : List Column} (h : Named cols) (hne : cols ≠ []) :
    headersOf cols ≠ [] := by
  obtain ⟨c, cols, rfl⟩ := List.exists_cons_of_ne_nil hne
  rw [headersOf, List.flatMap_cons]
  exact List.append_ne_nil_of_left_ne_nil (Column.headers_ne_nil (h.of_subset (by simp))) _

theorem Table.header_comma (t : Table) : ∀ c ∈ headersOf t.cols, ',' ∉ c := by
  intro c hc
  obtain ⟨col, hcol, hc⟩ := List.mem_flatMap.mp hc
  have hname := t.name_comma col hcol
  cases col with
  | scalar z =>
    obtain rfl := List.mem_singleton.mp hc
    exact hname
  | array name n =>
    obtain ⟨i, -, rfl⟩ := List.mem_map.mp hc
    rw [element, List.mem_append, not_or]
    refine ⟨hname, fun hmem => ?_⟩
    exact absurd (Text.isDigit_of_mem_toDigits hmem) (by decide)

/-- **The file, line by line**, when its lines end where they were ended. -/
theorem csvProc_text (t : Table) (hne : t.cols ≠ [])
    (h : ∀ l ∈ ('#' :: joined (headersOf t.cols)) :: t.rows.map joined, OneLine l) :
    csvProc t.text = (readHeader F [] [] (trimLast F (headersOf t.cols)) >>= fun p =>
      (t.rows.mapM fun row => readRow p.1 (newlines (joined row ++ ['\n']))) >>=
        fun rows => pure (p.2, rows) : Except PyError (List (List Char) × List (List (Val F)))) := by
  have hheader := (List.forall_mem_cons.mp h).1
  rw [csvProc, Table.text, fileLines_unlines h]
  simp only [List.map_cons, List.headD_cons, List.tail_cons]
  rw [strip_newlines hheader, splitOn_header (headersOf_ne_nil t.named hne) t.header_comma,
    List.map_map]
  simp only [List.mapM_map]
  rfl

theorem length_trimEnds (row : List (List Char)) : (trimEnds F row).length = row.length := by
  have hlen : ∀ vs : List (List Char), (trimLast F vs).length = vs.length := by
    intro vs
    rcases List.eq_nil_or_concat vs with rfl | ⟨vs, v, rfl⟩
    · rfl
    · rw [List.concat_eq_append, trimLast_concat, List.length_append, List.length_append]
      rfl
  cases row with
  | nil => rfl
  | cons v vs => exact hlen _

/-- **A row of the file**, when all columns were recognised. -/
theorem readRow_line (t : Table) (hne : t.cols ≠ []) {row : List (List Char)} (hrow : row ∈ t.rows)
    (h : OneLine (joined row)) :
    readRow (t.cols.flatMap Column.acts) (newlines (joined row ++ ['\n'])) =
      .ok (rowOf (F := F) t.cols (trimEnds F row)) := by
  have hwidth : row ≠ [] := by
    rw [← List.length_pos_iff, t.width row hrow, List.length_pos_iff]
    exact headersOf_ne_nil t.named hne
  rw [readRow, strip_newlines h, splitOn_strip hwidth (t.comma row hrow),
    foldlM_rowOf t.named ((length_trimEnds row).trans (t.width row hrow))]
  rfl

/-- A table without columns is not reported: its header has one empty name. -/
theorem not_reports_of_nil {t : Table} (h : t.cols = []) : ¬ Reports F t := by
  intro hreports
  have htext : t.text = '#' :: '\n' :: unlines (t.rows.map joined) := by
    rw [Table.text, h]
    rfl
  have hlines : (fileLines (newlines t.text)).headD [] = ['#', '\n'] := by
    rw [htext, newlines_cons (by decide), newlines_cons (by decide)]
    exact congrArg (List.headD · []) (fileLines_append ['#'] _).1
  have hspace : PyRuntime.space F '#' = false := by
    rw [PyText.space_ascii _ (by decide)]
    rfl
  have hstrip : strip F ['#', '\n'] = ['#'] := by
    rw [← List.singleton_append, strip_append (List.forall_mem_singleton.mpr (space_newline F))]
    exact Text.strip_eq_self (List.forall_mem_singleton.mpr hspace)
  rw [Reports, csvProc] at hreports
  dsimp only at hreports
  rw [hlines, hstrip] at hreports
  cases hreports

/-- **As many rows as were written** are reported only if no line was ended twice. -/
theorem oneLine_of_reports {t : Table} (h : Reports F t) :
    ∀ l ∈ ('#' :: joined (headersOf t.cols)) :: t.rows.map joined, OneLine l := by
  obtain ⟨⟨acts, cols⟩, -, h⟩ := exists_of_bind_ok h
  obtain ⟨rows, hrows, h⟩ := exists_of_bind_ok h
  obtain ⟨-, rfl⟩ := Prod.mk.inj (Except.ok.inj h)
  have hlen := (mapM_eq_ok_iff.mp hrows).length_eq
  rw [List.length_map, List.length_tail, Table.text] at hlen
  have hpos : 0 < (fileLines (newlines (unlines
      (('#' :: joined (headersOf t.cols)) :: t.rows.map joined)))).length := by
    rw [length_fileLines, List.map_cons, List.sum_cons]
    exact Nat.add_pos_left (count_newlines_eq_one_iff _).1 _
  refine oneLine_of_length ?_
  rw [List.length_cons, List.length_map]
  omega

/-- The last name is read as it is, if the columns are reported. -/
theorem trimLast_of_readHeader (t : Table) (hne : t.cols ≠ []) {acts : List Act}
    (h : readHeader F [] [] (trimLast F (headersOf t.cols)) =
      .ok (acts, t.cols.map Column.name)) : trimLast F (headersOf t.cols) = headersOf t.cols := by
  rcases List.eq_nil_or_concat t.cols with hnil | ⟨cols, c, hcols⟩
  · exact absurd hnil hne
  rw [List.concat_eq_append] at hcols
  have hnamed := t.named
  rw [hcols] at h hnamed ⊢
  have hsplit : headersOf (cols ++ [c]) = headersOf cols ++ c.headers := by
    rw [headersOf, List.flatMap_append, List.flatMap_singleton]
    rfl
  cases c with
  | array name n =>
    have hn := hnamed.two_le name n (by simp)
    have hlast : (Column.array name n).headers =
        (List.range (n - 1)).map (element name) ++ [element name (n - 1)] := by
      rw [Column.headers]
      conv_lhs => rw [show n = n - 1 + 1 by omega, List.range_succ, List.map_append]
      rfl
    obtain ⟨d, hd, hdigit⟩ := endsInDigit_element name (n - 1)
    rw [hsplit, hlast, ← List.append_assoc, trimLast_concat, Text.rstrip_eq_self]
    rintro d' hd'
    obtain rfl := Option.some_inj.mp (hd.symm.trans hd')
    exact Text.space_of_isDigit hdigit
  | scalar z =>
    have hheaders : (Column.scalar z).headers = [z] := rfl
    rw [hsplit, hheaders, trimLast_concat] at h ⊢
    by_contra hne'
    have hz : rstrip F z ≠ z := fun heq => hne' (by rw [heq])
    have hzd := hnamed.not_digit z (by simp)
    have hread : readHeader F [] [] (headersOf cols ++ [rstrip F z]) =
        .ok (acts, [] ++ (cols.map Column.name ++ [z])) := by
      rw [h, List.map_append]
      rfl
    have hlen : [z].length = [rstrip F z].length := rfl
    obtain ⟨-, before', prevCol', P', acts', -, hread'⟩ := allRecognised_of_readHeader
      (hnamed.of_subset fun _ hc => List.mem_append_left _ hc) Behind.nil hlen
        (List.forall_mem_singleton.mpr hzd) hread
    obtain ⟨act, cols', acts'', hcol, hrest, -⟩ := readHeader_cons hread'
    cases hrest
    obtain ⟨X, heq, hX⟩ := mem_or_of_readCol hcol
    obtain rfl := List.append_cancel_left heq
    rcases hX with hX | hX | ⟨p, hX, hp⟩
    · cases hX
    · exact hz (List.cons.inj hX).1.symm
    · obtain rfl := (List.cons.inj hX).1
      have hle := (Text.rstrip_prefix (F := F) z).length_le
      rw [hp, List.length_append, List.length_singleton] at hle
      omega

/-- **When a table is reported.** -/
theorem reports_iff (t : Table) : Reports F t ↔ Legible F t := by
  by_cases hne : t.cols = []
  · exact ⟨fun h => absurd h (not_reports_of_nil hne), fun h => absurd hne h.cols_ne_nil⟩
  have hrow_eq {row : List (List Char)} (hrow : row ∈ t.rows) :
      rowOf t.cols (trimEnds F row) = (rowOf t.cols row : List (Val F)) ↔
        (trimEnds F row).map (val (F := F)) = row.map val :=
    rowOf_eq_iff ((length_trimEnds row).trans (t.width row hrow)) (t.width row hrow)
  constructor
  · intro h
    have hlines := oneLine_of_reports h
    obtain ⟨hheader_line, hrow_line⟩ := List.forall_mem_cons.mp hlines
    have hcsv := (csvProc_text (F := F) t hne hlines).symm.trans h
    obtain ⟨⟨acts, cols⟩, hheader, hcsv⟩ := exists_of_bind_ok hcsv
    obtain ⟨rows, hrows, hcsv⟩ := exists_of_bind_ok hcsv
    obtain ⟨rfl, rfl⟩ := Prod.mk.inj (Except.ok.inj hcsv)
    have htrim := trimLast_of_readHeader t hne hheader
    rw [htrim] at hheader
    have hread : readHeader F [] [] (headersOf t.cols ++ []) =
        .ok (acts, [] ++ (t.cols.map Column.name ++ [])) := by
      rw [List.append_nil, List.append_nil, hheader]
      rfl
    have hall :=
      (allRecognised_of_readHeader t.named Behind.nil rfl (List.forall_mem_nil _) hread).1
    have hacts := (readHeader_of_allRecognised t.named Behind.nil hall).symm.trans hheader
    obtain rfl := (Prod.mk.inj (Except.ok.inj hacts)).1
    rw [mapM_eq_ok_iff, List.forall₂_map_right_iff, List.forall₂_same] at hrows
    refine ⟨hne, fun b c a heq => ?_, ((oneLine_cons (by decide) _).mp hheader_line).2, htrim,
      fun row hrow => hrow_line _ (List.mem_map_of_mem hrow), fun row hrow => ?_⟩
    · have hc := allRecognised_iff.mp hall b c a heq
      rwa [Option.or_none, List.append_nil] at hc
    · have hline := hrow_line _ (List.mem_map_of_mem hrow)
      exact (hrow_eq hrow).mp
        (Except.ok.inj ((readRow_line t hne hrow hline).symm.trans (hrows row hrow)))
  · intro h
    have hlines : ∀ l ∈ ('#' :: joined (headersOf t.cols)) :: t.rows.map joined, OneLine l := by
      refine List.forall_mem_cons.mpr ⟨?_, List.forall_mem_map.mpr h.row_line⟩
      exact (oneLine_cons (by decide) _).mpr ⟨by decide, h.header_line⟩
    have hall : AllRecognised F [] none t.cols := by
      refine allRecognised_iff.mpr fun b c a heq => ?_
      rw [Option.or_none, List.append_nil]
      exact h.recognised b c a heq
    have hrows : (t.rows.mapM fun row => readRow (t.cols.flatMap Column.acts)
        (newlines (joined row ++ ['\n']))) = .ok (t.rows.map (rowOf (F := F) t.cols)) := by
      rw [mapM_eq_ok_iff, List.forall₂_map_right_iff, List.forall₂_same]
      intro row hrow
      rw [readRow_line t hne hrow (h.row_line row hrow), (hrow_eq hrow).mpr (h.row_trim row hrow)]
    rw [Reports, csvProc_text t hne hlines, h.header_trim,
      readHeader_of_allRecognised t.named Behind.nil hall, ok_bind]
    dsimp only
    rw [hrows]
    rfl

end File

/-! ## An array of twelve elements -/

/-- `Time`, and an array `a` of twelve elements. -/
def twelve : Table where
  cols := [.scalar "Time".toList, .array "a".toList 12]
  rows := [["7", "0", "1", "2", "3", "4", "5", "6", "7", "8", "9", "10", "11"].map String.toList]
  name_ne_nil := by simp
  name_comma := by
    simp only [List.forall_mem_cons]
    decide
  two_le name n hmem := by
    simp only [List.mem_cons, reduceCtorEq, Column.array.injEq, false_or, List.not_mem_nil,
      or_false] at hmem
    omega
  not_digit name hmem := by
    simp only [List.mem_cons, Column.scalar.injEq, reduceCtorEq, List.not_mem_nil, or_false] at hmem
    subst hmem
    intro c hc
    cases hc
    decide
  not_extends name hmem d hd := by
    simp only [List.mem_cons, Column.scalar.injEq, reduceCtorEq, List.not_mem_nil, or_false] at hmem
    subst hmem
    rintro ⟨digits, hne, hdigits, rfl⟩
    have hheaders : ∀ d ∈ headersOf [.scalar "Time".toList, .array "a".toList 12],
        d = "Time".toList ∨ d.head? = some 'a' := by
      decide +kernel
    rcases hheaders _ hd with h | h
    · exact hne (List.append_right_eq_self.mp h)
    · cases h
  width := by decide +kernel
  comma := by decide +kernel

/-- **An array of twelve elements** is reported as the two arrays `a` and `a1`. -/
theorem not_reports_twelve : ¬ Reports PEmpty twelve := by
  intro h
  have hcols : (csvProc (F := PEmpty) twelve.text).toOption.map Prod.fst =
      some ["Time".toList, "a".toList, "a1".toList] := by
    decide +kernel
  rw [h] at hcols
  exact absurd (Option.some_inj.mp hcols) (by decide)

end DecompOut
end LdmsTest
