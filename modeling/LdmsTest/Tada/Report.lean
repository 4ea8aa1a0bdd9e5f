import LdmsTest.Foundation.Sorting
import LdmsTest.Tada.Tadad

/-!
# The report of `tadaq`

The tests that the filters select, each with its assertions.

* `report`: the loop, and the lines that it prints.
* `Lists`: it does not raise, and every test that is selected is in the lines.
* `Readable`: what the rows of a test must hold to be read.  The numbers of its assertions are
  texts of floats, it has an assertion, and if it is shown then both its seconds are there and are
  dates, and every result that is shown is there.
* `lists_iff`: the report lists the tests exactly when all that it finds are readable.

`add_assertion` takes any number, and `tadad` writes the number as it is: `not_lists_setup`.
-/

namespace LdmsTest
namespace Tada
namespace Tadaq

open Val (Fields keyOf intOf formatWidth)
open Sql (Schema Table Row Cell Affinity)
open SQLModel (Obj)

/-! ## What Python makes of the cells -/

/-- `float(x)` -/
class PyFloat (F : Type) where
  /-- `float(s)`, unless it raises -/
  ofText : String → Option F
  /-- `float(n)`, unless it raises -/
  ofInt : ℤ → Option F

/-- `str(datetime.fromtimestamp(n))` -/
class DateText where
  text : ℤ → String

/-- `float(v)` -/
def floatOf {F : Type} [PyRuntime F] [PyFloat F] : Val F → Except PyError F
  | .float x => pure x
  | .int n => (PyFloat.ofInt n).elim
      (throw ⟨.overflowError, "int too large to convert to float"⟩) pure
  | .bool b => (PyFloat.ofInt b.toNat).elim
      (throw ⟨.overflowError, "int too large to convert to float"⟩) pure
  | .str s => (PyFloat.ofText s).elim
      (throw ⟨.valueError, "could not convert string to float: " ++ Val.reprStr F s⟩) pure
  | v => throw ⟨.typeError, "float() argument must be a string or a real number, not '" ++
      v.typeName ++ "'"⟩

/-- Blanks, to make `n` characters of a text. -/
def blanks (n : ℕ) (s : String) : String :=
  "".pushn ' ' (n - s.length)

/-- `'{:n}'.format(v)`: numbers stand at the right, texts at the left. -/
def padTo {F : Type} [PyRuntime F] (n : ℕ) (v : Val F) : Except PyError String := do
  formatWidth v
  match v with
  | .str s => pure (s ++ blanks n s)
  | .bool b => pure (blanks n (toString b.toNat) ++ toString b.toNat)
  | v => pure (blanks n v.toStr ++ v.toStr)

/-! ## The arguments -/

/-- The arguments that the loop reads, when the commit has been looked up. -/
structure Args where
  testId : Option String
  testSuite : Option String
  testType : Option String
  testName : Option String
  testUser : Option String
  commitId : Option String
  onlyPassed : Bool
  onlyFailed : Bool
  onlySkipped : Bool
  all : Bool

/-- `fltr` -/
def Args.fltr {F : Type} (args : Args) : Fields F :=
  [("test_id", args.testId),
    ("test_suite", args.testSuite),
    ("test_type", args.testType),
    ("test_name", args.testName),
    ("test_user", args.testUser),
    ("commit_id", args.commitId)].filterMap fun p => p.2.map fun v => (p.1, .str v)

/-- Only assertions with one result are asked for. -/
def Args.only (args : Args) : Bool :=
  args.onlyFailed || args.onlySkipped || args.onlyPassed

/-- The assertion passes the filter. -/
def shown {F : Type} (args : Args) (a : Obj TADAAssertion F) : Bool :=
  if args.onlyFailed then isStr (a.attr "assert_result") "failed"
  else if args.onlySkipped then isStr (a.attr "assert_result") "skipped"
  else if args.onlyPassed then isStr (a.attr "assert_result") "passed"
  else true

/-! ## The loop -/

section Report

variable {F : Type} [Json.JsonFloat F]

/-- `sorted(assertions, key = lambda a: float(a.assert_id))` -/
def sortedAssertions [PyOrder F] [PyFloat F] (assertions : List (Obj TADAAssertion F)) :
    Except PyError (List (Obj TADAAssertion F)) := do
  let keyed ← assertions.mapM fun a => do
    let x ← floatOf (a.attr "assert_id")
    pure (x, a)
  let sorted ← Sorting.sortBy (fun p q => pure (PyOrder.floatLt p.1 q.1)) keyed
  pure (sorted.map Prod.snd)

/-- `int(v)`, if `fromtimestamp` takes it -/
def secondOf [DecidableEq F] [Calendar] (v : Val F) : Except PyError ℤ := do
  let n ← intOf v
  Calendar.fromtimestamp n
  pure n

/-- The lines above the assertions of a test. -/
def head [DateText] (o : Obj TADATest F) (start finish : ℤ) : List String :=
  [(o.attr "test_suite").toStr ++ " - " ++ (o.attr "test_user").toStr ++ " - commit_id: " ++
      (o.attr "commit_id").toStr,
    "    " ++ (o.attr "test_name").toStr ++ " (start:" ++ DateText.text start ++ ", finish: " ++
      DateText.text finish ++ ")",
    "        " ++ (o.attr "test_desc").toStr,
    "    test-id: " ++ (o.attr "test_id").toStr]

omit [Json.JsonFloat F] in
/-- The result, in its color. -/
def colored (status : Val F) : Val F :=
  if isStr status "passed" then .str ("\x1b[92m" ++ "passed" ++ "\x1b[0m")
  else if isStr status "failed" then .str ("\x1b[91m" ++ "failed" ++ "\x1b[0m")
  else if isStr status "skipped" then .str ("\x1b[93m" ++ "skipped" ++ "\x1b[0m")
  else status

/-- The line of an assertion. -/
def assertionLine (a : Obj TADAAssertion F) : Except PyError String := do
  let status ← padTo 10 (colored (a.attr "assert_result"))
  let no ← padTo 4 (a.attr "assert_id")
  pure ("        " ++ status ++ " " ++ no ++ " " ++ (a.attr "assert_desc").toStr ++ ", " ++
    (a.attr "assert_cond").toStr)

variable [DecidableEq F] [Affinity F] [PyOrder F] [PyFloat F] [Calendar] [DateText]

/-- The body of the loop: the lines of one test. -/
def reportTest (args : Args) (db : Db F) (o : Obj TADATest F) : Except PyError (List String) := do
  let assertions ← assertionsOf o db
  let sorted ← sortedAssertions assertions
  if (sorted.filter (shown args)).isEmpty then pure []
  else
    let start ← secondOf (o.attr "test_start")
    let finish ← secondOf (o.attr "test_finish")
    let lines ← (sorted.filter (shown args)).mapM assertionLine
    pure (head o start finish ++ lines)

/-- **The report.** -/
def report (args : Args) (db : Db F) : Except PyError (List String) := do
  let objs ← findTests (!args.all) args.fltr db
  let lines ← objs.mapM (reportTest args db)
  pure lines.flatten

/-! ## What it should do -/

omit [PyFloat F] [Calendar] [DateText] in
/-- A test that the query finds. -/
def Found (args : Args) (db : Db F) (o : Obj TADATest F) : Prop :=
  ∃ objs, findTests (!args.all) args.fltr db = .ok objs ∧ o ∈ objs

omit [PyOrder F] [PyFloat F] [Calendar] [DateText] in
/-- The assertions of a test. -/
def own (db : Db F) (o : Obj TADATest F) : List (Obj TADAAssertion F) :=
  (db.assertions.rows.filter
    (TADAAssertion.meets [("test_id", (o.attr "test_id").toStr)])).map (Obj.ofRow TADAAssertion)

omit [PyFloat F] [Calendar] [DateText] in
/-- **The test is selected**: it is found, and it has an assertion with the result that is asked
for, if one is. -/
def Selected (args : Args) (db : Db F) (o : Obj TADATest F) : Prop :=
  Found args db o ∧ (args.only → ∃ a ∈ own db o, shown args a)

omit [PyOrder F] [PyFloat F] [Calendar] in
/-- **The test is in the lines**, with the assertions that are to be shown. -/
def Listed (args : Args) (db : Db F) (lines : List String) (o : Obj TADATest F) : Prop :=
  ∃ start finish assertions texts, assertions.Perm ((own db o).filter (shown args)) ∧
    assertions ≠ [] ∧ assertions.mapM assertionLine = .ok texts ∧
      head o start finish ++ texts <:+: lines

/-- **The report lists every test that is selected**, without raising. -/
def Lists (args : Args) (db : Db F) : Prop :=
  ∃ lines, report args db = .ok lines ∧ ∀ o, Selected args db o → Listed args db lines o

/-! ## When it does -/

omit [Json.JsonFloat F] [DecidableEq F] [Affinity F] [PyFloat F] [Calendar] [DateText] in
/-- `<` does not raise. -/
def Comparable (v w : Val F) : Prop :=
  ∃ b, less v w = .ok b

omit [PyFloat F] [Calendar] [DateText] in
/-- **The latest runs can be told**: the starts of the tests that the filters match can be
compared. -/
def Sortable (args : Args) (db : Db F) : Prop :=
  ((db.tests.rows.filter (TADATest.meets (SQLModel.texts (args.fltr : Fields F)))).map
    (Obj.ofRow TADATest)).Pairwise fun o o' =>
      Comparable (o.attr "test_start") (o'.attr "test_start")

/-- **What the report reads of a test**. -/
structure Readable (args : Args) (db : Db F) (o : Obj TADATest F) : Prop where
  ids : ∀ a ∈ own db o, ∃ x, floatOf (a.attr "assert_id") = .ok x
  nonempty : args.only = false → own db o ≠ []
  start : (∃ a ∈ own db o, shown args a) → ∃ n, secondOf (o.attr "test_start") = .ok n
  finish : (∃ a ∈ own db o, shown args a) → ∃ n, secondOf (o.attr "test_finish") = .ok n
  results : ∀ a ∈ own db o, shown args a → (a.attr "assert_result").isPrimitive

end Report

/-! ## Sorting -/

section Sorting

variable {F : Type} [PyOrder F]

/-- Numbers can be compared with numbers, and texts with texts. -/
def orderClass : Val F → Option Bool
  | .int _ | .float _ => some false
  | .str _ => some true
  | _ => none

theorem comparable_iff {v w : Val F} :
    Comparable v w ↔ orderClass v = orderClass w ∧ orderClass v ≠ none := by
  constructor
  · rintro ⟨b, hb⟩
    cases v <;> cases w <;> first | exact ⟨rfl, Option.some_ne_none _⟩ | cases hb
  · rintro ⟨heq, hne⟩
    cases v <;> cases w <;> first | exact absurd rfl hne | exact ⟨_, rfl⟩ | cases heq

theorem sortByKey_eq_sortBy {α : Type} (key : α → Val F) (xs : List α) :
    sortByKey key xs = Sorting.sortBy (fun x y => less (key x) (key y)) xs := by
  have hinsert : insertByKey key = Sorting.insertBy fun x y => less (key x) (key y) := by
    funext x ys
    induction ys with
    | nil => rfl
    | cons y ys ih => rw [insertByKey, Sorting.insertBy, ih]
  rw [sortByKey, hinsert]
  rfl

/-- **Sorting raises** when two keys cannot be compared. -/
theorem exists_sortByKey_iff {α : Type} {key : α → Val F} {xs : List α} :
    (∃ ys, sortByKey key xs = .ok ys) ↔ xs.Pairwise fun x y => Comparable (key x) (key y) := by
  rw [sortByKey_eq_sortBy]
  refine Sorting.exists_sortBy_iff (fun _ _ => Iff.rfl) (fun x y h => ?_) fun x y z h h' => ?_
  · obtain ⟨heq, hne⟩ := comparable_iff.mp h
    exact comparable_iff.mpr ⟨heq.symm, heq ▸ hne⟩
  · obtain ⟨heq, hne⟩ := comparable_iff.mp h
    exact comparable_iff.mpr ⟨heq.trans (comparable_iff.mp h').1, hne⟩

variable [Json.JsonFloat F] [PyFloat F]

omit [PyOrder F] in
theorem isPrimitive_of_floatOf {v : Val F} {x : F} (h : floatOf v = .ok x) : v.isPrimitive := by
  cases v with
  | bool | int | float | str => rfl
  | none | list | tuple | dict => cases h

/-- The assertions are sorted when their numbers are floats. -/
theorem exists_sortedAssertions_iff {xs : List (Obj TADAAssertion F)} :
    (∃ ys, sortedAssertions xs = .ok ys) ↔
      ∀ a ∈ xs, ∃ x, floatOf (a.attr "assert_id") = .ok x := by
  have hvisit (a : Obj TADAAssertion F) :
      (∃ p, (do let x ← floatOf (a.attr "assert_id"); pure (x, a)) = Except.ok p) ↔
        ∃ x, floatOf (a.attr "assert_id") = .ok x := by
    constructor
    · rintro ⟨p, hp⟩
      obtain ⟨x, hx, -⟩ := exists_of_bind_ok hp
      exact ⟨x, hx⟩
    · rintro ⟨x, hx⟩
      exact ⟨(x, a), by rw [hx]; rfl⟩
  rw [← forall₂_congr fun a _ => hvisit a, ← exists_mapM_ok_iff]
  constructor
  · rintro ⟨ys, h⟩
    obtain ⟨keyed, hkeyed, -⟩ := exists_of_bind_ok h
    exact ⟨keyed, hkeyed⟩
  · rintro ⟨keyed, hkeyed⟩
    have hsort : (∃ ys, Sorting.sortBy (fun p q : F × Obj TADAAssertion F =>
        (pure (PyOrder.floatLt p.1 q.1) : Except PyError Bool)) keyed = .ok ys) ↔
          keyed.Pairwise fun _ _ => True :=
      Sorting.exists_sortBy_iff (fun p q => ⟨fun _ => trivial, fun _ => ⟨_, rfl⟩⟩)
        (fun _ _ _ => trivial) fun _ _ _ _ _ => trivial
    obtain ⟨sorted, hsorted⟩ := hsort.mpr (List.pairwise_of_forall fun _ _ => trivial)
    exact ⟨sorted.map Prod.snd, by rw [sortedAssertions, hkeyed, ok_bind, hsorted]; rfl⟩

/-- The sorted assertions are the assertions. -/
theorem perm_of_sortedAssertions {xs ys : List (Obj TADAAssertion F)}
    (h : sortedAssertions xs = .ok ys) : ys.Perm xs := by
  obtain ⟨keyed, hkeyed, h'⟩ := exists_of_bind_ok h
  obtain ⟨sorted, hsorted, heq⟩ := exists_of_bind_ok h'
  cases heq
  refine ((Sorting.perm_of_sortBy hsorted).map Prod.snd).trans (List.Perm.of_eq ?_)
  rw [mapM_eq_ok_iff] at hkeyed
  clear h h' hsorted
  induction hkeyed with
  | nil => rfl
  | cons hp _ ih =>
    obtain ⟨x, -, hp⟩ := exists_of_bind_ok hp
    cases hp
    rw [List.map_cons, ih]

end Sorting

/-! ## The lines of one test -/

section Lines

variable {F : Type} [Json.JsonFloat F]

theorem exists_padTo_iff {n : ℕ} {v : Val F} : (∃ s, padTo n v = .ok s) ↔ v.isPrimitive := by
  rw [← Val.formatWidth_eq_ok_iff]
  constructor
  · rintro ⟨s, h⟩
    unfold padTo at h
    obtain ⟨u, hu, -⟩ := exists_of_bind_ok h
    exact hu
  · intro h
    unfold padTo
    rw [h, ok_bind]
    cases v <;> exact ⟨_, rfl⟩

omit [Json.JsonFloat F] in
theorem isPrimitive_colored (v : Val F) : (colored v).isPrimitive = v.isPrimitive := by
  have hstr {s : String} (h : isStr v s) : v.isPrimitive := by
    cases v with
    | str => rfl
    | none | bool | int | float | list | tuple | dict => cases h
  rw [colored]
  split
  · next h => exact (hstr h).symm
  · split
    · next h => exact (hstr h).symm
    · split
      · next h => exact (hstr h).symm
      · rfl

theorem exists_assertionLine_iff {a : Obj TADAAssertion F}
    (hid : (a.attr "assert_id").isPrimitive) :
    (∃ s, assertionLine a = .ok s) ↔ (a.attr "assert_result").isPrimitive := by
  rw [← isPrimitive_colored, ← exists_padTo_iff (n := 10)]
  constructor
  · rintro ⟨s, h⟩
    obtain ⟨t, ht, -⟩ := exists_of_bind_ok h
    exact ⟨t, ht⟩
  · rintro ⟨t, ht⟩
    obtain ⟨u, hu⟩ := (exists_padTo_iff (n := 4)).mpr hid
    exact ⟨_, by rw [assertionLine, ht, ok_bind, hu]; rfl⟩

variable [DecidableEq F] [Affinity F] [PyOrder F] [PyFloat F] [Calendar] [DateText]

omit [PyOrder F] [PyFloat F] [Calendar] [DateText] in
theorem assertionsOf_eq (o : Obj TADATest F) (db : Db F) : assertionsOf o db = .ok (own db o) :=
  rfl

/-- **When the lines of a test can be made**. -/
theorem exists_reportTest_iff {args : Args} {db : Db F} {o : Obj TADATest F} :
    (∃ lines, reportTest args db o = .ok lines) ↔
      (∀ a ∈ own db o, ∃ x, floatOf (a.attr "assert_id") = .ok x) ∧
        ((∃ a ∈ own db o, shown args a) →
          (∃ n, secondOf (o.attr "test_start") = .ok n) ∧
            ∃ n, secondOf (o.attr "test_finish") = .ok n) ∧
        ∀ a ∈ own db o, shown args a → (a.attr "assert_result").isPrimitive := by
  rw [reportTest, assertionsOf_eq, ok_bind]
  constructor
  · rintro ⟨lines, h⟩
    obtain ⟨sorted, hsorted, h⟩ := exists_of_bind_ok h
    have hids := exists_sortedAssertions_iff.mp ⟨sorted, hsorted⟩
    have hperm := perm_of_sortedAssertions hsorted
    refine ⟨hids, ?_⟩
    split at h
    · next hempty =>
      have hnone : ∀ a ∈ own db o, ¬ shown args a = true := fun a ha =>
        List.filter_eq_nil_iff.mp (List.isEmpty_iff.mp hempty) a (hperm.mem_iff.mpr ha)
      exact ⟨fun ⟨a, ha, hshown⟩ => absurd hshown (hnone a ha), fun a ha hshown =>
        absurd hshown (hnone a ha)⟩
    · obtain ⟨start, hstart, h⟩ := exists_of_bind_ok h
      obtain ⟨finish, hfinish, h⟩ := exists_of_bind_ok h
      obtain ⟨texts, htexts, -⟩ := exists_of_bind_ok h
      refine ⟨fun _ => ⟨⟨start, hstart⟩, finish, hfinish⟩, fun a ha hshown => ?_⟩
      obtain ⟨x, hx⟩ := hids a ha
      rw [← exists_assertionLine_iff (isPrimitive_of_floatOf hx)]
      exact exists_mapM_ok_iff.mp ⟨texts, htexts⟩ a (List.mem_filter.mpr ⟨hperm.mem_iff.mpr ha, hshown⟩)
  · rintro ⟨hids, hseconds, hresults⟩
    obtain ⟨sorted, hsorted⟩ := exists_sortedAssertions_iff.mpr hids
    have hperm := perm_of_sortedAssertions hsorted
    rw [hsorted, ok_bind]
    split
    · exact ⟨[], rfl⟩
    · next hempty =>
      obtain ⟨a, ha⟩ := List.exists_mem_of_ne_nil _ (mt List.isEmpty_iff.mpr hempty)
      obtain ⟨ha, hshown⟩ := List.mem_filter.mp ha
      obtain ⟨⟨start, hstart⟩, finish, hfinish⟩ := hseconds ⟨a, hperm.mem_iff.mp ha, hshown⟩
      have hlines : ∀ b ∈ sorted.filter (shown args), ∃ s, assertionLine b = .ok s := by
        intro b hb
        obtain ⟨hb, hbshown⟩ := List.mem_filter.mp hb
        obtain ⟨x, hx⟩ := hids b (hperm.mem_iff.mp hb)
        exact (exists_assertionLine_iff (isPrimitive_of_floatOf hx)).mpr
          (hresults b (hperm.mem_iff.mp hb) hbshown)
      obtain ⟨texts, htexts⟩ := exists_mapM_ok_iff.mpr hlines
      exact ⟨_, by rw [hstart, ok_bind, hfinish, ok_bind, htexts]; rfl⟩

/-- **The lines of a test that is shown** are its head and its assertions. -/
theorem exists_of_reportTest {args : Args} {db : Db F} {o : Obj TADATest F} {lines : List String}
    (h : reportTest args db o = .ok lines) (hshown : ∃ a ∈ own db o, shown args a) :
    ∃ start finish assertions texts, assertions.Perm ((own db o).filter (shown args)) ∧
      assertions ≠ [] ∧ assertions.mapM assertionLine = .ok texts ∧
        lines = head o start finish ++ texts := by
  rw [reportTest, assertionsOf_eq, ok_bind] at h
  obtain ⟨sorted, hsorted, h⟩ := exists_of_bind_ok h
  have hperm := perm_of_sortedAssertions hsorted
  obtain ⟨a, ha, hshown⟩ := hshown
  have hne : sorted.filter (shown args) ≠ [] :=
    List.ne_nil_of_mem (List.mem_filter.mpr ⟨hperm.mem_iff.mpr ha, hshown⟩)
  rw [if_neg (mt List.isEmpty_iff.mp hne)] at h
  obtain ⟨start, -, h⟩ := exists_of_bind_ok h
  obtain ⟨finish, -, h⟩ := exists_of_bind_ok h
  obtain ⟨texts, htexts, h⟩ := exists_of_bind_ok h
  cases h
  exact ⟨start, finish, _, texts, hperm.filter _, hne, htexts, rfl⟩

end Lines

/-! ## The whole report -/

section Whole

variable {F : Type} [Json.JsonFloat F] [DecidableEq F] [Affinity F] [PyOrder F] [PyFloat F]
  [Calendar] [DateText] {args : Args} {db : Db F}

omit [Affinity F] [PyOrder F] [PyFloat F] [Calendar] [DateText] [DecidableEq F] in
theorem knows_fltr (args : Args) : TADATest.knows (SQLModel.texts (args.fltr : Fields F)) := by
  refine SQLModel.knows_texts fun k hk => ?_
  obtain ⟨p, hp, rfl⟩ := List.mem_map.mp hk
  obtain ⟨q, hq, hpq⟩ := List.mem_filterMap.mp hp
  obtain ⟨v, -, rfl⟩ := Option.map_eq_some_iff.mp hpq
  have hnames : ∀ q ∈ [("test_id", args.testId), ("test_suite", args.testSuite),
      ("test_type", args.testType), ("test_name", args.testName), ("test_user", args.testUser),
      ("commit_id", args.commitId)], q.1 ∈ TADATest.names := by
    simp only [List.forall_mem_cons]
    decide
  exact hnames q hq

omit [PyOrder F] [PyFloat F] [Calendar] [DateText] [Affinity F] [DecidableEq F] in
/-- What a row holds can be the key of a dictionary. -/
theorem exists_keyOf_attr (r : Row F) {k : String} (hk : k ∈ TADATest.names) :
    ∃ key, keyOf ((Obj.ofRow TADATest r).attr k) = .ok key := by
  rw [Obj.attr_ofRow hk]
  cases (Dict.get? r k).getD .null <;> exact ⟨_, rfl⟩

omit [PyFloat F] [Calendar] [DateText] in
/-- **The query** raises only when the starts cannot be compared. -/
theorem exists_findTests_iff :
    (∃ objs, findTests (!args.all) args.fltr db = .ok objs) ↔ (args.all ∨ Sortable args db) := by
  rw [findTests, SQLModel.find_eq_ok (knows_fltr args), ok_bind]
  cases hall : args.all with
  | true => exact ⟨fun _ => .inl rfl, fun _ => ⟨_, rfl⟩⟩
  | false =>
    rw [Bool.not_false, if_pos rfl]
    constructor
    · rintro ⟨objs, h⟩
      obtain ⟨sorted, hsorted, -⟩ := exists_of_bind_ok h
      exact .inr (exists_sortByKey_iff.mp ⟨sorted, hsorted⟩)
    · rintro (h | h)
      · cases h
      obtain ⟨sorted, hsorted⟩ := exists_sortByKey_iff.mpr h
      have hperm := hsorted
      rw [sortByKey_eq_sortBy] at hperm
      replace hperm := Sorting.perm_of_sortBy hperm
      have hstep : ∀ o ∈ sorted, ∀ d : Dict (List (Key F)) (Obj TADATest F), True →
          ∃ d', (do
            let k ← identity.mapM fun attr => keyOf (o.attr attr)
            pure (Dict.set d k o)) = Except.ok d' ∧ True := by
        intro o ho d _
        obtain ⟨r, -, rfl⟩ := List.mem_map.mp (hperm.mem_iff.mp ho)
        have hnames : ∀ k ∈ identity, k ∈ TADATest.names := by decide
        obtain ⟨key, hkey⟩ := exists_mapM_ok_iff.mpr fun k hk => exists_keyOf_attr r (hnames k hk)
        exact ⟨Dict.set d key _, by rw [hkey]; rfl, trivial⟩
      obtain ⟨d, hd, -⟩ := exists_foldlM_ok hstep (s := []) trivial
      exact ⟨d.map Prod.snd, by rw [hsorted, ok_bind, hd]; rfl⟩

/-- **When the report lists the tests.** -/
theorem lists_iff (args : Args) (db : Db F) :
    Lists args db ↔ (args.all ∨ Sortable args db) ∧ ∀ o, Found args db o → Readable args db o := by
  have hone {o : Obj TADATest F} (honly : args.only = false) (hne : own db o ≠ []) :
      ∃ a ∈ own db o, shown args a := by
    obtain ⟨a, ha⟩ := List.exists_mem_of_ne_nil _ hne
    refine ⟨a, ha, ?_⟩
    rw [Args.only, Bool.or_eq_false_iff, Bool.or_eq_false_iff] at honly
    rw [shown, honly.1.1, honly.1.2, honly.2]
    rfl
  rw [← exists_findTests_iff]
  constructor
  · rintro ⟨lines, hreport, hlisted⟩
    obtain ⟨objs, hobjs, hreport⟩ := exists_of_bind_ok hreport
    obtain ⟨parts, hparts, -⟩ := exists_of_bind_ok hreport
    refine ⟨⟨objs, hobjs⟩, fun o ho => ?_⟩
    obtain ⟨objs', hobjs', hmem⟩ := ho
    obtain rfl := Except.ok.inj (hobjs.symm.trans hobjs')
    obtain ⟨hids, hseconds, hresults⟩ :=
      exists_reportTest_iff.mp (exists_mapM_ok_iff.mp ⟨parts, hparts⟩ o hmem)
    refine ⟨hids, fun honly hnil => ?_, fun h => (hseconds h).1, fun h => (hseconds h).2, hresults⟩
    obtain ⟨-, -, assertions, -, hperm, hne, -⟩ :=
      hlisted o ⟨⟨objs, hobjs, hmem⟩, fun h => absurd h (Bool.eq_false_iff.mp honly)⟩
    rw [hnil] at hperm
    exact hne hperm.eq_nil
  · rintro ⟨⟨objs, hobjs⟩, hreadable⟩
    have hparts : ∀ o ∈ objs, ∃ lines, reportTest args db o = .ok lines := by
      intro o ho
      have h := hreadable o ⟨objs, hobjs, ho⟩
      exact exists_reportTest_iff.mpr ⟨h.ids, fun hs => ⟨h.start hs, h.finish hs⟩, h.results⟩
    obtain ⟨parts, hparts⟩ := exists_mapM_ok_iff.mpr hparts
    refine ⟨parts.flatten, by rw [report, hobjs, ok_bind, hparts]; rfl, fun o ho => ?_⟩
    obtain ⟨⟨objs', hobjs', hmem⟩, honly⟩ := ho
    obtain rfl := Except.ok.inj (hobjs.symm.trans hobjs')
    have hshown : ∃ a ∈ own db o, shown args a := by
      by_cases h : args.only
      · exact honly h
      · have h := Bool.eq_false_iff.mpr h
        exact hone h ((hreadable o ⟨objs, hobjs, hmem⟩).nonempty h)
    obtain ⟨lines, hlines, hreport⟩ := exists_mem_of_mapM_ok hparts hmem
    obtain ⟨start, finish, assertions, texts, hperm, hne, htexts, rfl⟩ :=
      exists_of_reportTest hreport hshown
    refine ⟨start, finish, assertions, texts, hperm, hne, htexts, ?_⟩
    obtain ⟨before, after, rfl⟩ := List.append_of_mem hlines
    exact ⟨before.flatten, after.flatten, by simp⟩

end Whole

/-! ## A named assertion -/

section Sample

open Json (SampleFloat)
open Tadad (datagram sampleStart sampleFinish)

instance : PyFloat SampleFloat where
  ofText
    | "1.5" => some .oneAndHalf
    | "nan" => some .nan
    | "inf" => some .infinity
    | "-inf" => some .negInfinity
    | _ => none
  ofInt _ := none

/-- A number with two digits. -/
def twoDigits (n : ℤ) : String :=
  if n < 10 then "0" ++ toString n else toString n

/-- The dates of the Gregorian calendar, at Greenwich. -/
instance : DateText where
  text n :=
    -- the years are counted from a first of March
    let z := n / 86400 + 719468
    let era := z / 146097
    let doe := z % 146097
    let yoe := (doe - doe / 1460 + doe / 36524 - doe / 146096) / 365
    let doy := doe - (365 * yoe + yoe / 4 - yoe / 100)
    let mp := (5 * doy + 2) / 153
    let month := if mp < 10 then mp + 3 else mp - 9
    let year := yoe + era * 400 + if month ≤ 2 then 1 else 0
    toString year ++ "-" ++ twoDigits month ++ "-" ++ twoDigits (doy - (153 * mp + 2) / 5 + 1) ++
      " " ++ twoDigits (n / 3600 % 24) ++ ":" ++ twoDigits (n / 60 % 60) ++ ":" ++ twoDigits (n % 60)

/-- The assertion `setup`. -/
def setupStatus : Fields SampleFloat :=
  [("msg-type", .str "assert-status"),
    ("test-id", .str "abcd"),
    ("assert-no", .str "setup"),
    ("assert-desc", .str "the daemons start"),
    ("assert-cond", .str "none"),
    ("test-status", .str "skipped"),
    ("test-user", .str "root")]

/-- The tests of `root`. -/
def asRoot : Args where
  testId := none
  testSuite := none
  testType := none
  testName := none
  testUser := some "root"
  commitId := some "-"
  onlyPassed := false
  onlyFailed := false
  onlySkipped := false
  all := false

/-- What `tadad` writes of the test with the assertion. -/
def setupDb : Db SampleFloat where
  tests :=
    { rows := [testRow "abcd" "LDMSD" "FVT" "agg" "root" "-" "agg" 100 160]
      keys_eq := by decide
      unique := by decide }
  assertions :=
    { rows :=
        [[("test_id", .text "abcd"),
          ("assert_id", .text "setup"),
          ("assert_result", .text "skipped"),
          ("assert_cond", .text "none"),
          ("assert_desc", .text "the daemons start")]]
      keys_eq := by decide
      unique := by decide }

theorem testFinish_setup :
    Tadad.testFinish [sampleStart, setupStatus, sampleFinish] (Db.empty SampleFloat) =
      .ok setupDb := by
  have hrows : (Tadad.testFinish [sampleStart, setupStatus, sampleFinish]
      (Db.empty SampleFloat)).toOption.map (fun db => (db.tests.rows, db.assertions.rows)) =
        some (setupDb.tests.rows, setupDb.assertions.rows) := by
    decide
  cases h : Tadad.testFinish [sampleStart, setupStatus, sampleFinish] (Db.empty SampleFloat) with
  | error e =>
    rw [h] at hrows
    cases hrows
  | ok db =>
    rw [h] at hrows
    obtain ⟨htests, hassertions⟩ := Prod.mk.inj (Option.some_inj.mp hrows)
    exact congrArg Except.ok (congrArg₂ Db.mk (Table.ext htests) (Table.ext hassertions))

theorem run_setup :
    Tadad.run ⟨[], Db.empty SampleFloat⟩
      [datagram sampleStart, datagram setupStatus, datagram sampleFinish] =
        .ok ⟨[], setupDb⟩ := by
  have hstatus : Tadad.parse (datagram setupStatus) = some setupStatus :=
    Tadad.parse_sample (by decide) (by decide) (by decide)
  have hsecond : Tadad.step ⟨[(.str "abcd", [sampleStart])], Db.empty SampleFloat⟩
      (datagram setupStatus) =
        .ok ⟨[(.str "abcd", [sampleStart, setupStatus])], Db.empty SampleFloat⟩ := by
    rw [Tadad.step, hstatus]
    rfl
  have hthird : Tadad.step ⟨[(.str "abcd", [sampleStart, setupStatus])], Db.empty SampleFloat⟩
      (datagram sampleFinish) = .ok ⟨[], setupDb⟩ := by
    rw [Tadad.step, Tadad.parse_sampleFinish]
    show (Tadad.testFinish [sampleStart, setupStatus, sampleFinish] (Db.empty SampleFloat) >>=
      fun db => .ok (⟨[], db⟩ : Tadad.State SampleFloat)) = .ok ⟨[], setupDb⟩
    rw [testFinish_setup, ok_bind]
  rw [Tadad.run, List.foldlM_cons, Tadad.step_sampleStart, ok_bind, List.foldlM_cons, hsecond,
    ok_bind, List.foldlM_cons, hthird]
  rfl

/-- **A named assertion ends the report**: `tadad` has written the test, and `float('setup')`
raises. -/
theorem not_lists_setup :
    ¬ ∀ s, Tadad.run ⟨[], Db.empty SampleFloat⟩
      [datagram sampleStart, datagram setupStatus, datagram sampleFinish] = .ok s →
        Lists asRoot s.db := by
  intro h
  obtain ⟨lines, hreport, -⟩ := h _ run_setup
  have hraises : (report asRoot setupDb).toOption = none := by decide
  rw [hreport] at hraises
  cases hraises

end Sample

end Tadaq
end Tada
end LdmsTest
