import LdmsTest.Ldms.LsSection

/-!
# Lines of a set

`ldms_ls -l` prints a header for a set and a line for each of its metrics.

* `Value`, `Metric`, `LsSet`: what is printed.
* `step_metric`, `step_header`: what the reader makes of a line that is not taken for one of another
  kind.
* `LsSet.plainHeader_of_step`, `Metric.plain_of_step`: what is known of a line that the reader
  accepts.
-/

namespace LdmsTest
namespace Ls

open Regex Text
open Numeral (IntType)

variable {F : Type} [PyText F]

/-! ## Values -/

/-- The value of a metric, with its type. -/
inductive Value where
  | char (c : Char)
  | chars (cs : List Char)
  | int (type : IntType) (n : ℤ)
  | ints (type : IntType) (ns : List ℤ)

namespace Value

def type : Value → List Char
  | .char _ => "char".toList
  | .chars _ => "char[]".toList
  | .int type _ => type.name
  | .ints type _ => type.name ++ "[]".toList

/-- How a value is printed. -/
def text : Value → List Char
  | .char c => ['\'', c, '\'']
  | .chars cs => '"' :: cs ++ ['"']
  | .int _ n => decimal n
  | .ints _ ns => [','].intercalate (ns.map decimal)

/-- The value that is printed. -/
def typed (F : Type) : Value → TypedVal F
  | .char c => .str [c]
  | .chars cs => .str cs
  | .int _ n => .int n
  | .ints _ ns => .ints ns

/-- The value that is read. -/
def read (F : Type) : Value → TypedVal F
  | .char c => .str (stripChar '\'' (['\'', c, '\''].takeWhile (· ≠ ' ')))
  | .chars cs => .str (stripChar '"' ('"' :: cs ++ ['"']))
  | .int _ n => .int n
  | .ints _ ns => .ints ns

/-- There is something to print. -/
def Printed : Value → Prop
  | .ints _ ns => ns ≠ []
  | _ => True

/-- The value stands as it is between its quotes. -/
def Quotable : Value → Prop
  | .char c => c ≠ ' ' ∧ c ≠ '\''
  | .chars cs => cs.head? ≠ some '"' ∧ cs.getLast? ≠ some '"'
  | _ => True

instance (v : Value) : Decidable v.Printed :=
  match v with
  | .ints _ ns => inferInstanceAs (Decidable (ns ≠ []))
  | .char _ | .chars _ | .int _ _ => inferInstanceAs (Decidable True)

instance (v : Value) : Decidable v.Quotable :=
  match v with
  | .char c => inferInstanceAs (Decidable (c ≠ ' ' ∧ c ≠ '\''))
  | .chars cs => inferInstanceAs (Decidable (cs.head? ≠ some '"' ∧ cs.getLast? ≠ some '"'))
  | .int _ _ | .ints _ _ => inferInstanceAs (Decidable True)

omit [PyText F] in
/-- **What is read is what was printed** exactly for such values. -/
theorem read_eq_typed_iff (v : Value) : v.read F = v.typed F ↔ v.Quotable := by
  rcases v with c | cs | ⟨type, n⟩ | ⟨type, ns⟩
  · rw [read, typed, TypedVal.str.injEq, Quotable]
    by_cases hblank : c = ' '
    · subst hblank
      simp [stripChar]
    · have htake : ['\'', c, '\''].takeWhile (· ≠ ' ') = '\'' :: [c] ++ ['\''] := by
        simp [hblank]
      rw [htake, stripChar_quoted_iff]
      simp [hblank]
  · rw [read, typed, TypedVal.str.injEq, stripChar_quoted_iff, Quotable]
  · simp [read, typed, Quotable]
  · simp [read, typed, Quotable]

end Value

theorem of_mem_decimal {n : ℤ} {c : Char} (hc : c ∈ decimal n) : c = '-' ∨ c.isDigit := by
  unfold decimal at hc
  split at hc
  · exact (List.mem_cons.mp hc).imp_right isDigit_of_mem_toDigits
  · exact .inr (isDigit_of_mem_toDigits hc)

theorem ne_of_mem_decimal {n : ℤ} {c : Char} (hc : c ∈ decimal n) : c ≠ ',' ∧ c ≠ ' ' := by
  rcases of_mem_decimal hc with rfl | hdigit
  · decide
  · constructor <;> rintro rfl <;> exact absurd hdigit (by decide)

theorem splitOn_ints {ns : List ℤ} (hne : ns ≠ []) :
    ([','].intercalate (ns.map decimal)).splitOn ',' = ns.map decimal := by
  refine List.splitOn_intercalate ',' ?_ (by simpa using hne)
  intro l hl
  obtain ⟨n, -, rfl⟩ := List.mem_map.mp hl
  exact fun hmem => (ne_of_mem_decimal hmem).1 rfl

theorem mapM_int0Fn (ns : List ℤ) :
    (ns.map decimal).mapM (int0Fn (F := F)) = .ok ns := by
  induction ns with
  | nil => rfl
  | cons n ns ih =>
    have hn : int0Fn (F := F) (decimal n) = .ok n := by
      rw [int0Fn, int0_decimal]
      rfl
    rw [List.map_cons, List.mapM_cons, hn, ok_bind, ih, ok_bind]
    rfl

namespace Value

theorem takeWhile_decimal (n : ℤ) : (decimal n).takeWhile (· ≠ ' ') = decimal n :=
  List.takeWhile_eq_self_iff.mpr fun _ hc => decide_eq_true (ne_of_mem_decimal hc).2

theorem of_mem_ints {ns : List ℤ} {c : Char} (hc : c ∈ [','].intercalate (ns.map decimal)) :
    c = ',' ∨ ∃ n, c ∈ decimal n := by
  induction ns with
  | nil => simp at hc
  | cons n ns ih =>
    rcases ns with _ | ⟨n', ns⟩
    · exact .inr ⟨n, by simpa using hc⟩
    · rw [List.map_cons, List.map_cons, List.intercalate_cons_cons, List.append_assoc] at hc
      rcases List.mem_append.mp hc with hc | hc
      · exact .inr ⟨n, hc⟩
      · rcases List.mem_append.mp hc with hc | hc
        · exact .inl (List.mem_singleton.mp hc)
        · exact ih hc

/-- A list of numbers has no blanks in it. -/
theorem space_of_mem_ints {ns : List ℤ} {c : Char}
    (hc : c ∈ [','].intercalate (ns.map decimal)) : space F c = false := by
  rcases of_mem_ints hc with rfl | ⟨n, hc⟩
  · exact (PyText.space_ascii ',' (by decide)).trans rfl
  · exact space_of_mem_decimal hc

/-- **The function for a type** reads the values of the type. -/
theorem exists_typeFn {v : Value} (hv : v.Printed) : ∃ fn, Dict.get? (typeFn F) v.type = some fn ∧
    fn (if v.type = "char[]".toList then v.text else v.text.takeWhile (· ≠ ' ')) =
      .ok (v.read F) := by
  rcases v with c | cs | ⟨type, n⟩ | ⟨type, ns⟩
  · exact ⟨unquoteFn '\'', rfl, rfl⟩
  · exact ⟨unquoteFn '"', rfl, rfl⟩
  · have hget : Dict.get? (typeFn F) (Value.int type n).type = some intFn := by
      cases type <;> rfl
    have hne : (Value.int type n).type ≠ "char[]".toList := by
      cases type <;> exact of_decide_eq_false rfl
    refine ⟨intFn, hget, ?_⟩
    rw [if_neg hne, text, takeWhile_decimal, intFn, int0Fn, int0_decimal]
    rfl
  · have hget : Dict.get? (typeFn F) (Value.ints type ns).type = some intsFn := by
      cases type <;> rfl
    have hne : (Value.ints type ns).type ≠ "char[]".toList := by
      cases type <;> exact of_decide_eq_false rfl
    have htake : ([','].intercalate (ns.map decimal)).takeWhile (· ≠ ' ') =
        [','].intercalate (ns.map decimal) := by
      refine List.takeWhile_eq_self_iff.mpr fun c hc => decide_eq_true ?_
      rintro rfl
      have hblank : space F ' ' = false := space_of_mem_ints hc
      rw [space_blank] at hblank
      cases hblank
    refine ⟨intsFn, hget, ?_⟩
    rw [if_neg hne, text, htake, intsFn, splitOn_ints hv, mapM_int0Fn]
    rfl

theorem text_eq_nil_iff (v : Value) : v.text = [] ↔ ¬ v.Printed := by
  rcases v with c | cs | ⟨type, n⟩ | ⟨type, ns⟩
  · simp [text, Printed]
  · simp [text, Printed]
  · simp [text, Printed, decimal_ne_nil]
  · rw [text, Printed, not_not]
    constructor
    · intro h
      rcases ns with _ | ⟨n, _ | ⟨n', ns⟩⟩
      · rfl
      · simp [decimal_ne_nil] at h
      · simp [List.intercalate_cons_cons] at h
    · rintro rfl
      rfl

/-- There are no blanks at the ends of a value. -/
theorem space_of_ends (v : Value) (c : Char) (hc : v.text.head? = some c ∨ v.text.getLast? = some c) :
    space F c = false := by
  have hquote : space F '\'' = false := (PyText.space_ascii '\'' (by decide)).trans rfl
  have hquotes : space F '"' = false := (PyText.space_ascii '"' (by decide)).trans rfl
  have hmem : c ∈ v.text := hc.elim List.mem_of_head? List.mem_of_getLast?
  rcases v with d | ds | ⟨type, n⟩ | ⟨type, ns⟩
  · obtain rfl : '\'' = c := by simpa [text] using hc
    exact hquote
  · obtain rfl : '"' = c := by simpa [text, List.getLast?_cons] using hc
    exact hquotes
  · exact space_of_mem_decimal hmem
  · exact space_of_mem_ints hmem

theorem type_ascii (v : Value) : ∀ c ∈ v.type, c.toNat < 128 ∧ isAsciiSpace c = false := by
  have hall : (v.type.all fun c => c.toNat < 128 && !isAsciiSpace c) = true := by
    rcases v with c | cs | ⟨type, n⟩ | ⟨type, ns⟩
    · rfl
    · rfl
    · cases type <;> rfl
    · cases type <;> rfl
  intro c hc
  have hc := List.all_eq_true.mp hall c hc
  rwa [Bool.and_eq_true, Bool.not_eq_true', decide_eq_true_eq] at hc

theorem type_ne_nil (v : Value) : v.type ≠ [] := by
  rcases v with c | cs | ⟨type, n⟩ | ⟨type, ns⟩
  · exact List.cons_ne_nil _ _
  · exact List.cons_ne_nil _ _
  · cases type <;> exact List.cons_ne_nil _ _
  · cases type <;> exact List.cons_ne_nil _ _

variable (F) in
/-- The type of a value is a word. -/
def typeWord (v : Value) : Word F :=
  asciiWord F v.type v.type_ne_nil v.type_ascii

end Value

/-- What a metric assigns to the set `n`. -/
def State.store (st : State F) (n mname mtype : List Char) (val : TypedVal F) : State F :=
  st.assign n fun lset =>
    { lset with
      data := lset.data.map (Dict.set · mname val)
      dataType := lset.dataType.map (Dict.set · mname mtype) }

theorem assignValue_eq {st : State F} {n : List Char} (hdata : st.data = .of n) {v : Value}
    (hv : v.Printed) (mname : List Char) :
    assignValue st v.type mname v.text = .ok (st.store n mname v.type (v.read F)) := by
  obtain ⟨fn, hget, hfn⟩ := Value.exists_typeFn (F := F) hv
  unfold assignValue
  simp only [hget, hdata]
  rw [hfn]
  rfl

/-- What a metric is assigned to is the set that is open. -/
theorem exists_of_assignValue {st st' : State F} {mtype mname value : List Char}
    (h : assignValue st mtype mname value = .ok st') :
    ∃ n fn val, st.data = .of n ∧ (mtype, fn) ∈ typeFn F ∧
      fn (if mtype = "char[]".toList then value else value.takeWhile (· ≠ ' ')) = .ok val ∧
      st' = st.store n mname mtype val := by
  unfold assignValue at h
  rcases hfn : Dict.get? (typeFn F) mtype with _ | fn
  · rw [hfn] at h
    cases h
  · rw [hfn] at h
    obtain ⟨val, hval, h⟩ := exists_of_bind_ok h
    rcases hdata : st.data with _ | _ | n <;> rw [hdata] at h
    · cases h
    · cases h
    · exact ⟨n, fn, val, rfl, Dict.mem_of_get? hfn, hval, (Except.ok.inj h).symm⟩

theorem isDot_of_oneLine {cs : List Char} (h : OneLine cs) : ∀ c ∈ cs, isDot c := by
  intro c hc
  refine decide_eq_true ?_
  rintro rfl
  exact absurd (h '\n' hc) (by decide)

/-! ## Metrics -/

/-- A metric, with the letter in front of it.  `pad 0 + 1` blanks stand behind the type, and
`pad 1 + 1` behind the name. -/
structure Metric (F : Type) [PyText F] where
  flag : {c : Char // space F c = false}
  name : Word F
  value : Value
  pad : ℕ → ℕ

namespace Metric

variable (metric : Metric F)

/-- The line without its value. -/
def columns : List Char :=
  metric.flag.1 :: ' ' :: ((metric.value.typeWord F).1 ++ (blanks (metric.pad 0) ++ metric.name.1))

def text : List Char :=
  metric.columns ++ (blanks (metric.pad 1) ++ metric.value.text)

/-- The metric as it is matched. -/
def line : List Char :=
  Val.strip F metric.text

/-- The captures of the line. -/
def caps : Caps :=
  [(.metricValue, metric.value.text), (.metricName, metric.name.1), (.type, metric.value.type),
    (.flag, [metric.flag.1])]

/-- The metric is printed as one line, which is not taken for one of another kind. -/
def Plain : Prop :=
  metric.value.Printed ∧ OneLine metric.value.text ∧
    ∀ kind ∈ Kind.before .data, ¬ Matches (kind.pattern F) metric.line

instance : Decidable metric.Plain :=
  inferInstanceAs (Decidable (_ ∧ _))

theorem space_of_head {c : Char} (h : metric.text.head? = some c) : space F c = false := by
  obtain rfl : metric.flag.1 = c := by simpa [text, columns] using h
  exact metric.flag.2

theorem rstrip_columns : rstrip F metric.columns = metric.columns := by
  obtain ⟨x, c, hname⟩ := (List.eq_nil_or_concat' metric.name.1).resolve_left metric.name.2.1
  have hcolumns : metric.columns = (metric.flag.1 :: ' ' :: ((metric.value.typeWord F).1 ++
      (blanks (metric.pad 0) ++ x))) ++ [c] := by
    simp [columns, hname]
  rw [hcolumns, rstrip_concat (metric.name.2.2 c (by simp [hname]))]

theorem line_eq : metric.line =
    metric.columns ++ if metric.value.Printed then blanks (metric.pad 1) ++ metric.value.text else [] := by
  rw [line, strip_eq_rstrip fun _ => metric.space_of_head, text,
    rstrip_append_of_rstrip metric.rstrip_columns]
  congr 1
  split
  · next h =>
    refine rstrip_eq_self fun c hc => ?_
    have hne : metric.value.text ≠ [] := fun hnil => (metric.value.text_eq_nil_iff.mp hnil) h
    rw [List.getLast?_append_of_ne_nil _ hne] at hc
    exact metric.value.space_of_ends c (.inr hc)
  · next h =>
    rw [metric.value.text_eq_nil_iff.mpr h, List.append_nil]
    exact rstrip_eq_nil_iff.mpr isSpace_of_mem_blanks

theorem line_ne_nil : metric.line ≠ [] := by
  rw [line_eq, columns]
  exact List.cons_ne_nil _ _

theorem oneLine_text (h : OneLine metric.value.text) : OneLine metric.text := by
  have hflag : OneLine [metric.flag.1] := oneLine_of_not_space F (by simpa using metric.flag.2)
  have htype : OneLine (metric.value.typeWord F).1 := (metric.value.typeWord F).oneLine
  have htext : metric.text = [metric.flag.1] ++ (blanks 0 ++ ((metric.value.typeWord F).1 ++
      (blanks (metric.pad 0) ++ metric.name.1))) ++ (blanks (metric.pad 1) ++ metric.value.text) := rfl
  rw [htext]
  simp only [oneLine_append]
  exact ⟨⟨hflag, oneLine_blanks 0, htype, oneLine_blanks _, metric.name.oneLine⟩,
    oneLine_blanks _, h⟩

theorem isDot_flag : isDot metric.flag.1 := by
  have hflag : metric.flag.1 ≠ '\n' := by
    intro heq
    have hspace : space F '\n' = false := heq ▸ metric.flag.2
    have hnewline : space F '\n' = true := (PyText.space_ascii '\n' (by decide)).trans rfl
    rw [hnewline] at hspace
    cases hspace
  exact decide_eq_true hflag

/-- The pattern for metrics, behind the letter. -/
theorem first_flag {k : Regex.Cursor Group → Option Caps} {rs : List (Regex Group)} (start : Bool)
    (cs : List Char) :
    first (cat (group .flag (cls isDot) :: lit [' '] :: rs)) k
      ⟨start, metric.flag.1 :: ' ' :: cs, []⟩ =
      first (cat rs) k ⟨false, cs, [(.flag, [metric.flag.1])]⟩ := by
  have hlit : first (lit [' ']) (first (cat rs) k)
      ⟨false, [' '] ++ cs, [(.flag, [metric.flag.1])]⟩ = _ := first_lit _ _
  rw [first_cat_cons, first_cat_cons, first, first]
  dsimp only
  rw [if_pos metric.isDot_flag]
  refine (congrArg _ ?_).trans hlit
  exact Cursor.capture_append (a := [metric.flag.1]) Group.flag false []

/-- **The pattern for metrics**, up to the name. -/
theorem first_columns {k : Regex.Cursor Group → Option Caps} {rs : List (Regex Group)}
    {cs : List Char} :
    first (cat (group .flag (cls isDot) :: lit [' '] :: group .type (plus (isNonSpace F)) ::
      plus (space F) :: group .metricName (plus (isNonSpace F)) :: rs)) k
      ⟨true, metric.columns ++ cs, []⟩ =
      first (cat (group .metricName (plus (isNonSpace F)) :: rs)) k ⟨false, metric.name.1 ++ cs,
        [(.type, metric.value.type), (.flag, [metric.flag.1])]⟩ := by
  rw [columns, List.cons_append, List.cons_append, List.append_assoc, List.append_assoc, first_flag,
    first_word _ _ (metric.name.stops_space _)]
  rfl

/-- **The captures** of the line of a metric. -/
theorem matchCaps_lsLData (h : metric.value.Printed) (hline : OneLine metric.value.text) :
    matchCaps (lsLData F) metric.line = some metric.caps := by
  have hdots : ∀ c ∈ metric.value.text, isDot c := isDot_of_oneLine hline
  have hstops : Stops (space F) metric.value.text := by
    intro c cs hc
    exact metric.value.space_of_ends c (.inl (by rw [hc]; rfl))
  have hvalue : first (cat [group .metricValue (star isDot)]) final ⟨false, metric.value.text,
      [(.metricName, metric.name.1), (.type, metric.value.type), (.flag, [metric.flag.1])]⟩ =
        some metric.caps := by
    rw [← List.append_nil metric.value.text, first_cat_cons]
    exact first_group_star_of_some hdots (stops_nil isDot) rfl
  rw [lsLData, line_eq, if_pos h]
  refine metric.first_columns.trans ?_
  rw [first_cat_cons, first_cat_cons, first_last_word]
  exact first_plus_of_some isSpace_of_mem_blanks (List.cons_ne_nil _ _) hstops hvalue

/-- Without a value, the line is none of a metric. -/
theorem not_matches_lsLData (h : ¬ metric.value.Printed) : ¬ Matches (lsLData F) metric.line := by
  rw [not_matches_iff, lsLData, line_eq, if_neg h]
  refine metric.first_columns.trans ?_
  rw [first_cat_cons, first_cat_cons]
  refine (first_group_plus_eq metric.name.isNonSpace metric.name.2.1 (stops_nil _) (needs_plus _ _)
    metric.name.2.2).trans ?_
  exact (needs_plus _ _).eq_none (stops_nil _) _ _

end Metric

/-! ## Headers -/

/-- A set, with the line in front of its metrics. -/
structure LsSet (F : Type) [PyText F] where
  name : {cs : List Char // cs ≠ [] ∧ ∀ c ∈ cs, space F c = false ∧ c ≠ ':'}
  state : LineText
  ts : {cs : List Char // OneLine cs ∧ ∃ c, cs.getLast? = some c ∧ space F c = false}
  metrics : List (Metric F)
  nodup : (metrics.map fun metric => metric.name.1).Nodup

namespace LsSet

variable (set : LsSet F)

def header : List Char :=
  set.name.1 ++ (": ".toList ++ (set.state.1 ++ (", last update: ".toList ++ set.ts.1)))

/-- The header is not taken for a line of another kind. -/
def PlainHeader : Prop :=
  ∀ kind ∈ Kind.before .header, ¬ Matches (kind.pattern F) set.header

instance : Decidable set.PlainHeader :=
  inferInstanceAs (Decidable (∀ kind ∈ _, _))

theorem header_ne_nil : set.header ≠ [] := by
  rw [header]
  exact List.append_ne_nil_of_left_ne_nil set.name.2.1 _

theorem strip_header : Val.strip F set.header = set.header := by
  obtain ⟨d, ds, hname⟩ := List.exists_cons_of_ne_nil set.name.2.1
  obtain ⟨e, hlast, he⟩ := set.ts.2.2
  refine strip_eq_of_ends ?_ ?_
  · intro c hc
    obtain rfl : d = c := by simpa [header, hname] using hc
    exact (set.name.2.2 d (by simp [hname])).1
  · intro c hc
    obtain rfl : e = c := by
      simpa only [header, List.getLast?_append, hlast, Option.some_or, Option.some_inj] using hc
    exact he

theorem oneLine_header : OneLine set.header := by
  have hname : OneLine set.name.1 := oneLine_of_not_space F fun c hc => (set.name.2.2 c hc).1
  have hcolon : OneLine ": ".toList := oneLine_of_printable (by simp)
  have hupdate : OneLine ", last update: ".toList := oneLine_of_printable (by simp)
  simp only [header, oneLine_append]
  exact ⟨hname, hcolon, set.state.2, hupdate, set.ts.2.1⟩

theorem matches_header : Matches lsLHdr set.header := by
  have hname : ∀ c ∈ set.name.1, decide (c ≠ ':') := fun c hc =>
    decide_eq_true (set.name.2.2 c hc).2
  have hstate : ∀ c ∈ set.state.1 ++ [','], isDot c :=
    List.forall_mem_append.mpr ⟨isDot_of_oneLine set.state.2, by simp [isDot]⟩
  have hread := ((reads_plus hname set.name.2.1).group Group.setName).cat <|
    (reads_lit ": ".toList).cat <| (reads_star hstate).cat <|
    (reads_lit " last update: ".toList).cat <|
    ((reads_star (isDot_of_oneLine set.ts.2.1)).group Group.ts).cat reads_cat_nil
  have hmatch : Matches lsLHdr _ := hread.matches []
  have htext : set.header = set.name.1 ++ (": ".toList ++ ((set.state.1 ++ [',']) ++
      (" last update: ".toList ++ (set.ts.1 ++ [])))) ++ [] := by
    simp [header]
  rwa [htext]

end LsSet

/-- **What the pattern for headers takes for a name**: all in front of the first colon. -/
theorem of_matchCaps_lsLHdr {l : List Char} {m : Caps} (h : matchCaps lsLHdr l = some m) :
    captured m .setName ≠ [] ∧ (∀ c ∈ captured m .setName, c ≠ ':') ∧
      ∃ rest, l = captured m .setName ++ ':' :: rest := by
  obtain ⟨st, ⟨_, ⟨mid, hname, rfl⟩, hrest⟩, hst⟩ := exists_parses_of_first h
  obtain rfl := Option.some_inj.mp hst
  obtain ⟨x, hne, hx, hl⟩ := hname.of_plus
  obtain ⟨mid', hcolon, -⟩ := id hrest
  have hcaptured : captured st.caps .setName = x := by
    rw [hrest.captured_of_not_mem (by decide), Cursor.capture, captured_cons_self, Cursor.taken]
    have hl : l = x ++ mid.rest := hl
    simp [hl]
  have hl : l = x ++ mid.rest := hl
  have hcolon : mid.rest = ": ".toList ++ mid'.rest := hcolon.of_lit
  rw [hcaptured]
  exact ⟨hne, fun c hc => of_decide_eq_true (hx c hc), ' ' :: mid'.rest, by rw [hl, hcolon]; rfl⟩

/-- The line opens a set. -/
def Opens (F : Type) [PyText F] (l k : List Char) : Prop :=
  Val.strip F l ≠ [] ∧ ∃ m, classify F (Val.strip F l) = some (.header, m) ∧ captured m .setName = k

theorem LsSet.of_opens_header {set : LsSet F} {k : List Char} (h : Opens F set.header k) :
    set.PlainHeader ∧ k = set.name.1 := by
  obtain ⟨-, m, hclassify, rfl⟩ := h
  rw [set.strip_header] at hclassify
  refine ⟨not_matches_of_classify hclassify, ?_⟩
  obtain ⟨-, hcolon, rest, hl⟩ := of_matchCaps_lsLHdr (matchCaps_of_classify hclassify)
  have hname : ∀ c ∈ set.name.1, c ≠ ':' := fun c hc => (set.name.2.2 c hc).2
  have htake {x y : List Char} (hx : ∀ c ∈ x, c ≠ ':') :
      (x ++ ':' :: y).takeWhile (· ≠ ':') = x := by
    rw [List.takeWhile_append_of_pos fun c hc => decide_eq_true (hx c hc)]
    simp
  have hheader : set.header = set.name.1 ++ ':' :: (' ' ::
      (set.state.1 ++ (", last update: ".toList ++ set.ts.1))) := rfl
  rw [← htake hcolon, ← hl, hheader, htake hname]

/-- A metric that opens a set opens one with a blank in its name. -/
theorem Metric.blank_mem_of_opens {metric : Metric F} {k : List Char} (h : Opens F metric.text k) :
    ' ' ∈ k := by
  obtain ⟨-, m, hclassify, rfl⟩ := h
  obtain ⟨hne, hcolon, rest, hl⟩ := of_matchCaps_lsLHdr (matchCaps_of_classify hclassify)
  obtain ⟨cs, hline⟩ : ∃ cs, Val.strip F metric.text = metric.flag.1 :: ' ' :: cs :=
    ⟨_, metric.line_eq⟩
  rw [hline] at hl
  rcases hk : captured m .setName with _ | ⟨c, _ | ⟨d, ds⟩⟩
  · exact absurd hk hne
  · rw [hk] at hl
    simp at hl
  · rw [hk] at hl
    obtain ⟨-, rfl, -⟩ : metric.flag.1 = c ∧ ' ' = d ∧ _ := by simpa using hl
    simp

/-! ## One line of the data -/

/-- What a header makes of the state. -/
def State.openSet (st : State F) (name ts : List Char) : State F :=
  State.assign { st with sec := .data, data := .of name } name fun lset =>
    { lset with name := some name, ts := some ts, data := some [], dataType := some [] }

/-- **A header** opens its set. -/
theorem step_header {st : State F} (hsec : st.sec ≠ .metaData) {set : LsSet F}
    (h : set.PlainHeader) : ∃ ts, step st set.header = .ok (st.openSet set.name.1 ts) := by
  obtain ⟨m, -, hclassify⟩ := exists_classify_of .header set.matches_header h
  have hopens : Opens F set.header (captured m .setName) :=
    ⟨by rw [set.strip_header]; exact set.header_ne_nil, m, by rw [set.strip_header]; exact hclassify,
      rfl⟩
  refine ⟨captured m .ts, ?_⟩
  rw [step_of_classify st set.strip_header set.header_ne_nil hclassify, actKind, if_neg hsec,
    ← (LsSet.of_opens_header hopens).2]
  rfl

/-- **A metric** is stored in its set. -/
theorem step_metric {st : State F} (hsec : st.sec = .data) {n : List Char} (hdata : st.data = .of n)
    {metric : Metric F} (h : metric.Plain) :
    step st metric.text =
      .ok (st.store n metric.name.1 metric.value.type (metric.value.read F)) := by
  have hclassify : classify F metric.line = some (.data, metric.caps) :=
    classify_of (metric.matchCaps_lsLData h.1 h.2.1) h.2.2
  rw [step_of_classify st rfl metric.line_ne_nil hclassify, actKind, if_neg (by simp [hsec])]
  exact assignValue_eq hdata h.1 metric.name.1

/-! ## Lines among the data -/

/-- Among the data, a line that is not of one of the two kinds is refused. -/
theorem of_step_data {st st' : State F} (hsec : st.sec = .data) {l : List Char}
    (h : step st l = .ok st') :
    st'.sec = .data ∧ (Val.strip F l = [] ∨
      ∃ kind m, classify F (Val.strip F l) = some (kind, m) ∧ (kind = .header ∨ kind = .data)) := by
  rw [step_eq] at h
  split at h
  · next hnil =>
    cases h
    exact ⟨hsec, .inl hnil⟩
  · split at h
    · cases h
    · next kind m hclassify =>
      cases kind with
      | preMeta | metaBegin | dashes | metaData | summary | metaEnd =>
        rw [actKind, if_pos (by simp [hsec])] at h
        cases h
      | header =>
        rw [actKind, if_neg (by simp [hsec])] at h
        cases h
        exact ⟨rfl, .inr ⟨_, m, hclassify, .inl rfl⟩⟩
      | data =>
        rw [actKind, if_neg (by simp [hsec])] at h
        obtain ⟨n, fn, val, -, -, -, rfl⟩ := exists_of_assignValue h
        exact ⟨hsec, .inr ⟨_, m, hclassify, .inr rfl⟩⟩

/-- A header that is accepted among the data. -/
theorem LsSet.plainHeader_of_step {st st' : State F} (hsec : st.sec = .data) {set : LsSet F}
    (h : step st set.header = .ok st') : set.PlainHeader := by
  obtain ⟨-, hnil | ⟨kind, m, hclassify, hkind⟩⟩ := of_step_data hsec h
  · exact absurd (set.strip_header.symm.trans hnil) set.header_ne_nil
  · rw [set.strip_header] at hclassify
    rcases hkind with rfl | rfl
    · exact not_matches_of_classify hclassify
    · exact absurd set.matches_header (not_matches_of_classify hclassify .header (by decide))

/-- A metric that is accepted among the data, and opens no set. -/
theorem Metric.plain_of_step {st st' : State F} (hsec : st.sec = .data) {metric : Metric F}
    (hline : OneLine metric.value.text) (hopens : ∀ k, ¬ Opens F metric.text k)
    (h : step st metric.text = .ok st') : metric.Plain := by
  obtain ⟨-, hnil | ⟨kind, m, hclassify, hkind⟩⟩ := of_step_data hsec h
  · exact absurd hnil metric.line_ne_nil
  · rcases hkind with rfl | rfl
    · exact absurd ⟨metric.line_ne_nil, m, hclassify, rfl⟩ (hopens _)
    · refine ⟨?_, hline, not_matches_of_classify hclassify⟩
      by_contra hprinted
      refine metric.not_matches_lsLData hprinted ?_
      exact Option.isSome_iff_exists.mpr ⟨m, matchCaps_of_classify hclassify⟩

end Ls
end LdmsTest
