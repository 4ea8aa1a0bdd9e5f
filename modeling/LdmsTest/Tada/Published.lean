import LdmsTest.Foundation.Latest
import LdmsTest.Tada.Clients
import LdmsTest.Tada.Report
import Mathlib.Data.Set.List

/-!
# What `tadaq` prints of what the clients reported

Scripts and C tests report to a `tadad` with an empty database, and then `tadaq` prints the database.

* `Block`: the lines of one client, from what the client itself has: what it announced, the seconds
  of its clock, and the results of its assertions.
* `Selects`: the clients that are to be printed.  With `--all` these are the ones that the filters
  match, and else one of these for each test, with the latest start.
* `exists_order`: the tests of the database are the clients, each once.
* `report_clients`: the report is the blocks of the clients that are to be printed, each once; and it
  is printed exactly when the number of each of their assertions can be read as a float.
-/

namespace LdmsTest
namespace Tada

open Sql (Cell Row Table Affinity)
open SQLModel (Obj cellVal)
open CTada (TestRun IsHexdigest)
open Tadad (RowOf Announced Second)
open Tadaq (Args PyFloat DateText blanks report reportTest own shown head)

/-! ## What a client has -/

namespace Party

section Facts

variable {F : Type} [Json.JsonFloat F] [DecidableEq F] [Calendar] {sha256 : String → String}
  {T : Type} [DecidableEq T]

def announced : Party F sha256 T → Announced
  | .script c => ⟨c.testSuite, c.testType, c.testName, c.testUser, c.commitId, c.test.testDesc⟩
  | .test r => ⟨(r.test r.t).suiteName, (r.test r.t).testType, (r.test r.t).testName,
      (r.test r.t).testUser, (r.test r.t).commitId, (r.test r.t).testDesc⟩

def start : Party F sha256 T → Second
  | .script c => c.startTime.second
  | .test r => r.start.sec

def finish : Party F sha256 T → Second
  | .script c => c.finishTime.second
  | .test r => r.finish.sec

/-- The number and the result of each assertion. -/
def results : Party F sha256 T → Dict String String
  | .script c => (c.run sha256).2.statuses
  | .test r => CTada.texts (CTada.board r.results 0)

/-- The row of the test. -/
def row (client : Party F sha256 T) : Row F :=
  testRow client.testId client.announced.suite client.announced.type client.announced.name
    client.announced.user client.announced.commit client.announced.desc client.start.second
    client.finish.second

theorem Agrees.rows {client : Party F sha256 T} {db : Db F} (h : client.Agrees db) :
    db.tests.rows = [client.row] ∧
      ∃ rows, db.assertions.rows.Perm rows ∧ List.Forall₂ (RowOf client.testId) rows client.results := by
  cases client with
  | script c => exact ⟨Tada.Agrees.test h, Tada.Agrees.assertions h⟩
  | test r => exact ⟨TestRun.Agrees.test h, TestRun.Agrees.assertions h⟩

/-- The filters of the query match what the client announced. -/
def Matches (args : Args) (client : Party F sha256 T) : Prop :=
  ∀ p ∈ [(args.testId, client.testId), (args.testSuite, client.announced.suite),
      (args.testType, client.announced.type), (args.testName, client.announced.name),
      (args.testUser, client.announced.user), (args.commitId, client.announced.commit)],
    ∀ v ∈ p.1, v = p.2

/-- What identifies the test over its runs. -/
def identity (client : Party F sha256 T) : List String :=
  [client.announced.suite, client.announced.type, client.announced.name, client.announced.user,
    client.announced.commit]

end Facts

end Party

namespace Tadaq

/-! ## The lines of a client -/

section Lines

/-- A result, in its color. -/
def coloredText (status : String) : String :=
  if status = "passed" then "\x1b[92m" ++ "passed" ++ "\x1b[0m"
  else if status = "failed" then "\x1b[91m" ++ "failed" ++ "\x1b[0m"
  else if status = "skipped" then "\x1b[93m" ++ "skipped" ++ "\x1b[0m"
  else status

/-- A result that is asked for. -/
def shownText (args : Args) (status : String) : Bool :=
  if args.onlyFailed then status == "failed"
  else if args.onlySkipped then status == "skipped"
  else if args.onlyPassed then status == "passed"
  else true

/-- The line of the assertion with this number and this result. -/
def IsResultLine (p : String × String) (line : String) : Prop :=
  ∃ rest, line = "        " ++ (coloredText p.2 ++ blanks 10 (coloredText p.2)) ++ " " ++
    (p.1 ++ blanks 4 p.1) ++ " " ++ rest

variable {F : Type} [Json.JsonFloat F] [DecidableEq F] [Calendar] [DateText]
  {sha256 : String → String} {T : Type} [DecidableEq T]

/-- The lines above the assertions of a client. -/
def clientHead (client : Party F sha256 T) : List String :=
  [client.announced.suite ++ " - " ++ client.announced.user ++ " - commit_id: " ++
      client.announced.commit,
    "    " ++ client.announced.name ++ " (start:" ++ DateText.text client.start.second ++
      ", finish: " ++ DateText.text client.finish.second ++ ")",
    "        " ++ client.announced.desc,
    "    test-id: " ++ client.testId]

/-- The results of a client that are asked for. -/
def shownResults (args : Args) (client : Party F sha256 T) : List (String × String) :=
  client.results.filter fun p => shownText args p.2

/-- **The lines of a client**: none when it has no result that is asked for, and else its head and one
line for each such result. -/
def Block (args : Args) (client : Party F sha256 T) (lines : List String) : Prop :=
  if shownResults args client = [] then lines = []
  else ∃ results texts, results.Perm (shownResults args client) ∧
    List.Forall₂ IsResultLine results texts ∧ lines = clientHead client ++ texts

/-- **What a client reported can be sorted**: the numbers of its assertions are texts of floats. -/
def Numbered [PyFloat F] (client : Party F sha256 T) : Prop :=
  ∀ p ∈ client.results, ∃ x, (PyFloat.ofText p.1 : Option F) = some x

end Lines

/-! ## The assertions of a client -/

section Assertions

variable {F : Type} [Json.JsonFloat F] [DecidableEq F] {id : String} {r : Row F}
  {p : String × String}

omit [Json.JsonFloat F] [DecidableEq F] in
theorem attr_assertId (h : RowOf id r p) :
    (Obj.ofRow TADAAssertion r).attr "assert_id" = .str p.1 := by
  rw [Obj.attr_ofRow (by decide), h.2.1]
  rfl

omit [Json.JsonFloat F] [DecidableEq F] in
theorem attr_assertResult (h : RowOf id r p) :
    (Obj.ofRow TADAAssertion r).attr "assert_result" = .str p.2 := by
  rw [Obj.attr_ofRow (by decide), h.2.2]
  rfl

omit [Json.JsonFloat F] [DecidableEq F] in
theorem isStr_str (s t : String) : isStr (.str s : Val F) t = (s == t) := rfl

omit [Json.JsonFloat F] [DecidableEq F] in
theorem shown_eq (args : Args) (h : RowOf id r p) :
    shown args (Obj.ofRow TADAAssertion r) = shownText args p.2 := by
  rw [shown, attr_assertResult h, shownText, isStr_str, isStr_str, isStr_str]

omit [Json.JsonFloat F] [DecidableEq F] in
theorem colored_str (s : String) : colored (.str s : Val F) = .str (coloredText s) := by
  rw [colored, isStr_str, isStr_str, isStr_str, coloredText]
  split_ifs <;> simp_all

omit [DecidableEq F] in
theorem padTo_str (n : ℕ) (s : String) : padTo n (.str s : Val F) = .ok (s ++ blanks n s) := rfl

omit [DecidableEq F] in
/-- The line of the assertion. -/
theorem exists_assertionLine (h : RowOf id r p) :
    ∃ line, assertionLine (Obj.ofRow TADAAssertion r) = .ok line ∧ IsResultLine p line := by
  refine ⟨_, ?_, ((Obj.ofRow TADAAssertion r).attr "assert_desc").toStr ++ ", " ++
    ((Obj.ofRow TADAAssertion r).attr "assert_cond").toStr, rfl⟩
  rw [assertionLine, attr_assertResult h, attr_assertId h, colored_str, padTo_str, ok_bind, padTo_str,
    ok_bind]
  simp only [String.append_assoc]
  rfl

end Assertions

section Report

variable {F : Type} [Json.JsonFloat F] [DecidableEq F] [Calendar] {sha256 : String → String}
  {T : Type} [DecidableEq T] [Affinity F] {db : Db F} {client : Party F sha256 T}

omit [Affinity F] in
theorem get?_row_testId : Dict.get? client.row "test_id" = some (.text client.testId) := rfl

omit [Affinity F] in
theorem attr_row_testId : (Obj.ofRow TADATest client.row).attr "test_id" = .str client.testId := by
  rw [Obj.attr_ofRow (by decide)]
  rfl

omit [Affinity F] in
theorem attr_row_start :
    (Obj.ofRow TADATest client.row).attr "test_start" = .int client.start.second := by
  rw [Obj.attr_ofRow (by decide)]
  rfl

omit [Affinity F] in
theorem attr_row_finish :
    (Obj.ofRow TADATest client.row).attr "test_finish" = .int client.finish.second := by
  rw [Obj.attr_ofRow (by decide)]
  rfl

omit [Calendar] [DecidableEq T] in
/-- The assertions of a test are those of its part of the database. -/
theorem own_eq {o : Obj TADATest F} {id : String} (h : o.attr "test_id" = .str id) :
    own db o = (db.part (.text id)).assertions.rows.map (Obj.ofRow TADAAssertion) := by
  rw [own, h]
  congr 1
  refine List.filter_congr fun r _ => ?_
  rw [Sql.Schema.meets, List.all_cons, List.all_nil, Bool.and_true,
    Sql.Schema.cell_of_mem_ids (k := "test_id") (by decide)]
  rfl

omit [Affinity F] [DecidableEq T] in
theorem secondOf_second (sec : Second) : secondOf (.int sec.second : Val F) = .ok sec.second := by
  rw [secondOf]
  show (Calendar.fromtimestamp sec.second >>= fun _ => pure sec.second) = _
  rw [sec.date]
  rfl

/-- The object of an assertion of the test, with the number and the result. -/
def Holds (id : String) (a : Obj TADAAssertion F) (p : String × String) : Prop :=
  ∃ r, a = Obj.ofRow TADAAssertion r ∧ RowOf id r p

theorem exists_own (h : client.Agrees (db.part (.text client.testId))) :
    ∃ assertions, (own db (Obj.ofRow TADATest client.row)).Perm assertions ∧
      List.Forall₂ (Holds client.testId) assertions client.results := by
  obtain ⟨-, rows, hperm, hrows⟩ := h.rows
  refine ⟨rows.map (Obj.ofRow TADAAssertion), ?_, ?_⟩
  · rw [own_eq attr_row_testId]
    exact hperm.map _
  · exact List.forall₂_map_left_iff.mpr (hrows.imp fun r p hr => ⟨r, rfl, hr⟩)

variable [PyFloat F]

omit [DecidableEq F] [Calendar] [Affinity F] in
theorem exists_floatOf_str_iff {s : String} :
    (∃ x : F, floatOf (.str s) = .ok x) ↔ ∃ x : F, PyFloat.ofText s = some x := by
  rw [floatOf]
  cases (PyFloat.ofText s : Option F) with
  | none => exact ⟨nofun, nofun⟩
  | some x => exact ⟨fun _ => ⟨x, rfl⟩, fun _ => ⟨x, rfl⟩⟩

variable [PyOrder F] [DateText]

/-- **When the lines of a client can be made**: when its numbers are texts of floats. -/
theorem exists_reportTest_row_iff (args : Args)
    (h : client.Agrees (db.part (.text client.testId))) :
    (∃ lines, reportTest args db (Obj.ofRow TADATest client.row) = .ok lines) ↔
      Numbered client := by
  obtain ⟨assertions, hperm, hholds⟩ := exists_own h
  have hids : (∀ a ∈ own db (Obj.ofRow TADATest client.row), ∃ x,
      floatOf (a.attr "assert_id") = .ok x) ↔ Numbered client := by
    simp only [hperm.mem_iff]
    unfold Numbered
    clear hperm h
    generalize client.results = results at hholds
    induction hholds with
    | nil => exact ⟨fun _ => nofun, fun _ => nofun⟩
    | cons ha _ ih =>
      rw [List.forall_mem_cons, List.forall_mem_cons, ih]
      obtain ⟨r, rfl, hr⟩ := ha
      rw [attr_assertId hr, exists_floatOf_str_iff]
  have hresults : ∀ a ∈ own db (Obj.ofRow TADATest client.row),
      (a.attr "assert_result").isPrimitive := by
    simp only [hperm.mem_iff]
    clear hperm h hids
    generalize client.results = results at hholds
    induction hholds with
    | nil => exact nofun
    | cons ha _ ih =>
      obtain ⟨r, rfl, hr⟩ := ha
      refine List.forall_mem_cons.mpr ⟨?_, ih⟩
      rw [attr_assertResult hr]
      rfl
  rw [exists_reportTest_iff, hids]
  refine ⟨fun h => h.1, fun hnumbered => ⟨hnumbered, fun _ =>
    ⟨⟨client.start.second, ?_⟩, client.finish.second, ?_⟩, fun a ha _ => hresults a ha⟩⟩
  · rw [attr_row_start, secondOf_second]
  · rw [attr_row_finish, secondOf_second]

omit [DecidableEq F] [Calendar] [Affinity F] [PyFloat F] [PyOrder F] [DateText] in
/-- The lines of assertions are the lines of their results. -/
theorem forall₂_resultLine {id : String} {as : List (Obj TADAAssertion F)}
    {results : List (String × String)} {texts : List String}
    (hresults : List.Forall₂ (Holds id) as results)
    (htexts : List.Forall₂ (fun a line => assertionLine a = .ok line) as texts) :
    List.Forall₂ IsResultLine results texts := by
  induction hresults generalizing texts with
  | nil =>
    cases htexts
    exact .nil
  | cons ha _ ih =>
    cases htexts with
    | cons hline htexts =>
      obtain ⟨r, rfl, hr⟩ := ha
      obtain ⟨line, hline', hresult⟩ := exists_assertionLine hr
      obtain rfl := Except.ok.inj (hline.symm.trans hline')
      exact .cons hresult (ih htexts)

/-- **The lines of a client** are its block. -/
theorem block_of_reportTest {args : Args} (h : client.Agrees (db.part (.text client.testId)))
    {lines : List String}
    (hlines : reportTest args db (Obj.ofRow TADATest client.row) = .ok lines) :
    Block args client lines := by
  obtain ⟨assertions, hperm, hholds⟩ := exists_own h
  rw [reportTest, assertionsOf_eq, ok_bind] at hlines
  obtain ⟨sorted, hsorted, hlines⟩ := exists_of_bind_ok hlines
  -- the shown assertions, in the order of the report, with the results
  have hshown : List.Forall₂ (Holds client.testId) (assertions.filter (shown args))
      (shownResults args client) := by
    refine List.rel_filter (fun a p ha => ?_) hholds
    obtain ⟨r, rfl, hr⟩ := ha
    show shown args _ = true ↔ _
    rw [shown_eq args hr]
  have hsperm : (sorted.filter (shown args)).Perm (assertions.filter (shown args)) :=
    ((perm_of_sortedAssertions hsorted).trans hperm).filter _
  obtain ⟨results, hresults, hrperm⟩ := List.perm_comp_forall₂ hsperm hshown
  unfold Block
  split at hlines
  · next hempty =>
    cases hlines
    rw [List.isEmpty_iff.mp hempty] at hresults
    cases hresults
    rw [if_pos hrperm.nil_eq.symm]
  · next hne =>
    obtain ⟨start, hstart, hlines⟩ := exists_of_bind_ok hlines
    obtain ⟨finish, hfinish, hlines⟩ := exists_of_bind_ok hlines
    obtain ⟨texts, htexts, hlines⟩ := exists_of_bind_ok hlines
    rw [attr_row_start, secondOf_second] at hstart
    rw [attr_row_finish, secondOf_second] at hfinish
    cases hstart
    cases hfinish
    cases hlines
    have hsome : shownResults args client ≠ [] := by
      intro hnil
      rw [hnil] at hrperm
      rw [hrperm.eq_nil] at hresults
      exact hne (List.isEmpty_iff.mpr (List.forall₂_nil_right_iff.mp hresults))
    rw [if_neg hsome]
    refine ⟨results, texts, hrperm, ?_, rfl⟩
    rw [mapM_eq_ok_iff] at htexts
    exact forall₂_resultLine hresults htexts

end Report

/-! ## The whole report -/

section Whole

variable {F : Type} [Json.JsonFloat F] [DecidableEq F] [Calendar] {sha256 : String → String}
  {T : Type} [DecidableEq T] [Affinity F] {db : Db F}

/-- The filters of the query select the rows of the clients that they match. -/
theorem meets_row_iff (args : Args) (client : Party F sha256 T) :
    TADATest.meets (SQLModel.texts (args.fltr : Val.Fields F)) client.row ↔
      client.Matches args := by
  have hfltr : TADATest.meets (SQLModel.texts (args.fltr : Val.Fields F)) client.row ↔
      ∀ q ∈ [("test_id", args.testId), ("test_suite", args.testSuite),
        ("test_type", args.testType), ("test_name", args.testName),
        ("test_user", args.testUser), ("commit_id", args.commitId)],
        ∀ v ∈ q.2, Dict.get? client.row q.1 = some (TADATest.cell q.1 v) := by
    rw [Sql.Schema.meets_iff, SQLModel.texts, List.forall_mem_map, Args.fltr]
    constructor
    · intro h q hq v hv
      exact h (q.1, .str v) (List.mem_filterMap.mpr ⟨q, hq, by rw [hv]; rfl⟩)
    · intro h p hp
      obtain ⟨q, hq, hp⟩ := List.mem_filterMap.mp hp
      obtain ⟨v, hv, rfl⟩ := Option.map_eq_some_iff.mp hp
      exact h q hq v hv
  rw [hfltr, Party.Matches]
  have hcell (k s : String) (v : String) (hget : Dict.get? client.row k = some (.text s))
      (hk : Dict.get? TADATest.cols k = some .text) :
      Dict.get? client.row k = some (TADATest.cell k v) ↔ v = s := by
    rw [hget, Sql.Schema.cell, hk]
    show some (Cell.text s) = some (Cell.text v) ↔ v = s
    rw [Option.some_inj, Cell.text.injEq, eq_comm]
  simp only [List.forall_mem_cons, List.not_mem_nil, IsEmpty.forall_iff, implies_true, and_true]
  refine and_congr ?_ (and_congr ?_ (and_congr ?_ (and_congr ?_ (and_congr ?_ ?_)))) <;>
    exact forall₂_congr fun v _ => hcell _ _ v rfl rfl

variable {ι : Type} {clients : ι → Party F sha256 T}

omit [Affinity F] in
/-- **The tests of the database** are the clients, each once. -/
theorem exists_order (hids : Function.Injective fun i => (clients i).testId)
    (hagrees : ∀ i, (clients i).Agrees (db.part (.text (clients i).testId)))
    (hother : ∀ c, (∀ i, Cell.text (clients i).testId ≠ c) → (db.part c).tests.rows = []) :
    ∃ order : List ι, db.tests.rows = order.map (fun i => (clients i).row) ∧ order.Nodup ∧
      ∀ i, i ∈ order := by
  have hpart (c : Cell F) : (db.part c).tests.rows =
      db.tests.rows.filter fun r => Dict.get? r "test_id" == some c := rfl
  have hmem : ∀ r ∈ db.tests.rows, ∃ i, (clients i).row = r := by
    intro r hr
    have hkey : "test_id" ∈ Dict.keys r := by
      rw [db.tests.keys_eq r hr]
      decide
    obtain ⟨c, hc⟩ := Option.isSome_iff_exists.mp (Dict.isSome_get?_iff.mpr hkey)
    have hrc : r ∈ (db.part c).tests.rows := by
      rw [hpart]
      exact List.mem_filter.mpr ⟨hr, by rw [hc]; exact beq_self_eq_true _⟩
    by_cases h : ∃ i, Cell.text (clients i).testId = c
    · obtain ⟨i, rfl⟩ := h
      rw [(hagrees i).rows.1] at hrc
      exact ⟨i, (List.mem_singleton.mp hrc).symm⟩
    · rw [hother c (not_exists.mp h)] at hrc
      cases hrc
  obtain ⟨order, horder⟩ : ∃ order : List ι, order.map (fun i => (clients i).row) = db.tests.rows := by
    have hrange : db.tests.rows ∈ Set.range (List.map fun i => (clients i).row) := by
      rw [Set.range_list_map]
      exact hmem
    exact hrange
  refine ⟨order, horder.symm, ?_, fun i => ?_⟩
  · have hunique := db.tests.unique
    rw [← horder, List.pairwise_map] at hunique
    refine hunique.imp fun {i j} hij heq => ?_
    subst heq
    have hsame : TADATest.sameKey (clients i).row (clients i).row = true := by
      simp [Sql.Schema.sameKey, TADATest, get?_row_testId]
    rw [hsame] at hij
    cases hij
  · have hi : (clients i).row ∈ (db.part (.text (clients i).testId)).tests.rows := by
      rw [(hagrees i).rows.1]
      exact List.mem_singleton_self _
    rw [hpart, ← horder] at hi
    obtain ⟨j, hj, hrow⟩ := List.mem_map.mp (List.mem_filter.mp hi).1
    have hid : (clients j).testId = (clients i).testId := by
      have hget := congrArg (Dict.get? · "test_id") hrow
      simpa only [get?_row_testId, Option.some_inj, Cell.text.injEq] using hget
    exact hids hid ▸ hj

/-- **The clients that are to be printed**: with `--all` those that the filters match, and else for
each of these one with the same identity, and with no earlier start. -/
structure Selects (args : Args) (clients : ι → Party F sha256 T) (order : List ι) : Prop where
  nodup : order.Nodup
  matching : ∀ i ∈ order, (clients i).Matches args
  all : args.all = true → ∀ i, (clients i).Matches args → i ∈ order
  latest : args.all = false → ∀ i, (clients i).Matches args → ∃ j ∈ order,
    (clients j).identity = (clients i).identity ∧
      (clients i).start.second ≤ (clients j).start.second
  single : args.all = false → ∀ i ∈ order, ∀ j ∈ order,
    (clients i).identity = (clients j).identity → i = j

/-- The key of an object in the dictionary of `findTests`. -/
def keysOf (o : Obj TADATest F) : List (Key F) :=
  ((identity.mapM fun attr => Val.keyOf (o.attr attr)).toOption).getD []

omit [Affinity F] in
theorem mapM_keyOf_row (client : Party F sha256 T) :
    (identity.mapM fun attr => Val.keyOf ((Obj.ofRow TADATest client.row).attr attr)) =
      .ok (client.identity.map Key.str) := rfl

omit [Affinity F] in
theorem keysOf_row (client : Party F sha256 T) :
    keysOf (Obj.ofRow TADATest client.row) = client.identity.map Key.str := rfl

omit [Affinity F] [Calendar] in
/-- The loop of `findTests` keeps the last object of each identity. -/
theorem foldlM_keyOf {objs : List (Obj TADATest F)}
    (h : ∀ o ∈ objs, (identity.mapM fun attr => Val.keyOf (o.attr attr)) = .ok (keysOf o)) :
    objs.foldlM (fun (d : Dict (List (Key F)) (Obj TADATest F)) o => do
      let k ← identity.mapM fun attr => Val.keyOf (o.attr attr)
      pure (Dict.set d k o)) [] = (.ok (Latest.lastOf keysOf objs) : Except PyError _) := by
  unfold Latest.lastOf
  generalize ([] : Dict (List (Key F)) (Obj TADATest F)) = d
  induction objs generalizing d with
  | nil => rfl
  | cons o objs ih =>
    obtain ⟨ho, h⟩ := List.forall_mem_cons.mp h
    rw [List.foldlM_cons, ho, ok_bind, List.foldl_cons]
    exact ih h _

variable [PyOrder F]

omit [Affinity F] in
theorem less_start (client client' : Party F sha256 T) :
    less ((Obj.ofRow TADATest client.row).attr "test_start")
      ((Obj.ofRow TADATest client'.row).attr "test_start") =
        .ok (decide (client.start.second < client'.start.second)) := by
  rw [attr_row_start, attr_row_start]
  rfl

omit [Affinity F] in
/-- Sorting the clients by their starts. -/
theorem exists_sorted_found (clients : ι → Party F sha256 T) (found : List ι) :
    ∃ sorted : List ι, sorted.Perm found ∧
      sorted.Pairwise (fun i j => (clients i).start.second ≤ (clients j).start.second) ∧
      sortByKey (fun o : Obj TADATest F => o.attr "test_start")
        (found.map fun i => Obj.ofRow TADATest (clients i).row) =
          .ok (sorted.map fun i => Obj.ofRow TADATest (clients i).row) := by
  let obj (i : ι) : Obj TADATest F := Obj.ofRow TADATest (clients i).row
  let lt (o o' : Obj TADATest F) := less (o.attr "test_start") (o'.attr "test_start")
  have hlt (i j : ι) : lt (obj i) (obj j) =
      .ok (decide ((clients i).start.second < (clients j).start.second)) :=
    less_start (clients i) (clients j)
  have htrue (i j : ι) : lt (obj i) (obj j) = .ok true ↔
      (clients i).start.second < (clients j).start.second := by
    rw [hlt, Except.ok.injEq, decide_eq_true_iff]
  have hdecides : Sorting.Decides lt (fun o o' => lt o o' = .ok true) (found.map obj) := by
    refine ⟨?_, ?_, ?_⟩
    · refine List.forall_mem_map.mpr fun i _ => List.forall_mem_map.mpr fun j _ => ?_
      rw [hlt]
      cases decide ((clients i).start.second < (clients j).start.second) with
      | true => exact Or.inl ⟨rfl, rfl⟩
      | false => exact Or.inr ⟨rfl, nofun⟩
    · refine List.forall_mem_map.mpr fun i _ => List.forall_mem_map.mpr fun j _ => ?_
      rw [htrue, htrue]
      omega
    · refine List.forall_mem_map.mpr fun i _ => List.forall_mem_map.mpr fun j _ =>
        List.forall_mem_map.mpr fun k _ => ?_
      rw [htrue, htrue, htrue]
      omega
  obtain ⟨zs, hzs, hperm, hsorted⟩ := hdecides.exists_sortBy
  have hobjs : List.Forall₂ (fun o i => o = obj i) (found.map obj) found :=
    List.forall₂_map_left_iff.mpr (List.forall₂_same.mpr fun _ _ => rfl)
  obtain ⟨sorted, hrel, hsperm⟩ := List.perm_comp_forall₂ hperm hobjs
  obtain rfl : zs = sorted.map obj := by
    rw [← List.forall₂_eq_eq_eq, List.forall₂_map_right_iff]
    exact hrel
  refine ⟨sorted, hsperm, ?_, ?_⟩
  · rw [List.pairwise_map] at hsorted
    refine hsorted.imp fun {i j} hij => ?_
    rw [htrue] at hij
    exact Int.not_lt.mp hij
  · rw [sortByKey_eq_sortBy]
    exact hzs

omit [Affinity F] in
/-- The last object of each identity is the one of a client with no earlier start. -/
theorem exists_lastOf_rows {sorted : List ι}
    (hsorted : sorted.Pairwise fun i j =>
      (clients i).start.second ≤ (clients j).start.second) :
    ∃ selected : List ι, selected.map (fun i => Obj.ofRow TADATest (clients i).row) =
        (Latest.lastOf keysOf (sorted.map fun i => Obj.ofRow TADATest (clients i).row)).map
          Prod.snd ∧
      selected.Nodup ∧ (∀ i ∈ selected, i ∈ sorted) ∧
      (∀ i ∈ sorted, ∃ j ∈ selected, (clients j).identity = (clients i).identity ∧
        (clients i).start.second ≤ (clients j).start.second) ∧
      ∀ i ∈ selected, ∀ j ∈ selected, (clients i).identity = (clients j).identity → i = j := by
  let obj (i : ι) : Obj TADATest F := Obj.ofRow TADATest (clients i).row
  let ofSorted (i : { i // i ∈ sorted }) : Obj TADATest F := obj i.1
  let kept := Latest.lastOf keysOf (sorted.map obj)
  have hkept (o : Obj TADATest F) (ho : o ∈ kept.map Prod.snd) :
      o ∈ Set.range ofSorted := by
    obtain ⟨p, hp, rfl⟩ := List.mem_map.mp ho
    have hget := Dict.get?_of_mem (Latest.nodup_keys_lastOf _) hp
    obtain ⟨i, hi, hobj⟩ := List.mem_map.mp (Latest.get?_lastOf hget).1
    exact ⟨⟨i, hi⟩, hobj⟩
  obtain ⟨l, hl⟩ : ∃ l, List.map ofSorted l = kept.map Prod.snd := by
    have hrange : kept.map Prod.snd ∈ Set.range (List.map ofSorted) := by
      rw [Set.range_list_map]
      exact hkept
    exact hrange
  have hidentity (i j : ι) (h : keysOf (obj i) = keysOf (obj j)) :
      (clients i).identity = (clients j).identity := by
    rw [keysOf_row, keysOf_row] at h
    exact List.map_injective_iff.mpr (fun s t hst => Key.str.inj hst) h
  have hkeys : (l.map (keysOf ∘ ofSorted)).Nodup := by
    rw [← List.map_map, hl]
    show ((Latest.lastOf keysOf (sorted.map obj)).map Prod.snd |>.map keysOf).Nodup
    rw [Latest.map_kind_lastOf]
    exact Latest.nodup_keys_lastOf _
  refine ⟨l.map Subtype.val, by rw [List.map_map]; exact hl,
    (List.Nodup.of_map _ hkeys).map Subtype.val_injective, ?_, fun i hi => ?_, ?_⟩
  · exact List.forall_mem_map.mpr fun i _ => i.2
  · have hpairwise : (sorted.map obj).Pairwise fun o o' =>
        less (o'.attr "test_start") (o.attr "test_start") = .ok false := by
      refine List.pairwise_map.mpr (hsorted.imp fun {i j} hij => ?_)
      rw [less_start, decide_eq_false (Int.not_lt.mpr hij)]
    have hrefl : ∀ o ∈ sorted.map obj,
        less (o.attr "test_start") (o.attr "test_start") = .ok false := by
      refine List.forall_mem_map.mpr fun i _ => ?_
      rw [less_start, decide_eq_false (Int.lt_irrefl _)]
    obtain ⟨o, hget, hle⟩ : ∃ o,
        Dict.get? (Latest.lastOf keysOf (sorted.map obj)) (keysOf (obj i)) = some o ∧
          less (o.attr "test_start") ((obj i).attr "test_start") = .ok false :=
      Latest.exists_get?_lastOf hrefl hpairwise (List.mem_map_of_mem hi)
    have hmem : o ∈ kept.map Prod.snd := List.mem_map_of_mem (Dict.mem_of_get? hget)
    rw [← hl] at hmem
    obtain ⟨j, hj, rfl⟩ := List.mem_map.mp hmem
    refine ⟨j, List.mem_map_of_mem hj, hidentity _ _ (Latest.get?_lastOf hget).2, ?_⟩
    rw [less_start, Except.ok.injEq, decide_eq_false_iff_not] at hle
    exact Int.not_lt.mp hle
  · refine List.forall_mem_map.mpr fun i hi => List.forall_mem_map.mpr fun j hj h => ?_
    have heq : keysOf (obj i) = keysOf (obj j) := by
      rw [keysOf_row, keysOf_row, h]
    exact congrArg Subtype.val (List.inj_on_of_nodup_map hkeys hi hj heq)

/-- **What the query finds** are the clients that are to be printed. -/
theorem exists_selected {order : List ι}
    (horder : db.tests.rows = order.map fun i => (clients i).row) (hnodup : order.Nodup)
    (hmem : ∀ i, i ∈ order) (args : Args) :
    ∃ selected, Selects args clients selected ∧ findTests (!args.all) args.fltr db =
      .ok (selected.map fun i => Obj.ofRow TADATest (clients i).row) := by
  let found := order.filter fun i =>
    TADATest.meets (SQLModel.texts (args.fltr : Val.Fields F)) (clients i).row
  have hfound (i : ι) : i ∈ found ↔ (clients i).Matches args := by
    rw [List.mem_filter, meets_row_iff]
    exact and_iff_right (hmem i)
  have hobjs : (db.tests.rows.filter
      (TADATest.meets (SQLModel.texts (args.fltr : Val.Fields F)))).map (Obj.ofRow TADATest) =
        found.map fun i => Obj.ofRow TADATest (clients i).row := by
    rw [horder, List.filter_map, List.map_map]
    rfl
  rw [findTests, SQLModel.find_eq_ok (knows_fltr args), ok_bind, hobjs]
  cases hall : args.all with
  | true =>
    have hne : args.all ≠ false := fun h => Bool.false_ne_true (h.symm.trans hall)
    exact ⟨found, ⟨hnodup.filter _, fun i hi => (hfound i).mp hi,
      fun _ i hi => (hfound i).mpr hi, fun h => absurd h hne, fun h => absurd h hne⟩, rfl⟩
  | false =>
    obtain ⟨sorted, hperm, hsorted, hsort⟩ := exists_sorted_found clients found
    have hkeys : ∀ o ∈ sorted.map fun i => Obj.ofRow TADATest (clients i).row,
        (identity.mapM fun attr => Val.keyOf (o.attr attr)) = .ok (keysOf o) :=
      List.forall_mem_map.mpr fun i _ => mapM_keyOf_row (clients i)
    rw [Bool.not_false, if_pos rfl, hsort, ok_bind, foldlM_keyOf hkeys]
    obtain ⟨selected, hsel, hselected⟩ := exists_lastOf_rows hsorted
    obtain ⟨hnodup, hmem, hlatest, hsingle⟩ := hselected
    refine ⟨selected, ⟨hnodup, fun i hi => (hfound i).mp (hperm.mem_iff.mp (hmem i hi)),
      fun h => absurd (hall.symm.trans h) Bool.false_ne_true, fun _ i hi => ?_,
      fun _ => hsingle⟩, ?_⟩
    · exact hlatest i (hperm.mem_iff.mpr ((hfound i).mpr hi))
    · rw [hsel]
      rfl

variable [PyFloat F] [DateText] [DecidableEq ι]

/-- **What is reported is printed.**  The clients report to a server with an empty database, and their
datagrams arrive in any order that keeps the order of each.  Then the report is made exactly when
what each client that is to be printed reported can be sorted, and it is the blocks of these clients,
each once. -/
theorem report_clients (hhex : ∀ s, IsHexdigest (sha256 s))
    (hids : Function.Injective fun i => (clients i).testId) {events : List (ι × List UInt8)}
    (hevents : Interleave.Interleaves (fun i => (clients i).sent) events) :
    ∃ s', Tadad.run ⟨[], Db.empty F⟩ (events.map Prod.snd) = .ok s' ∧
      ∀ args, ∃ order, Selects args clients order ∧
        ((∃ lines, report args s'.db = .ok lines) ↔ ∀ i ∈ order, Numbered (clients i)) ∧
        ∀ lines, report args s'.db = .ok lines → ∃ blocks : List (List String),
          List.Forall₂ (fun i block => Block args (clients i) block) order blocks ∧
            lines = blocks.flatten := by
  have hempty : Tadad.Inv (⟨[], Db.empty F⟩ : Tadad.State F) := by
    intro key messages h
    cases h
  obtain ⟨s', hrun, hagrees, hother, -⟩ := exists_run_served_agree
    (fun i => (clients i).isServed hhex) hids hempty (fun _ => rfl) hevents
  refine ⟨s', hrun, fun args => ?_⟩
  have hnone (c : Cell F) (hc : ∀ i, Cell.text (clients i).testId ≠ c) :
      (s'.db.part c).tests.rows = [] := by
    rw [hother c hc]
    rfl
  obtain ⟨order, horder, hnodup, hmem⟩ := exists_order hids hagrees hnone
  obtain ⟨selected, hselects, hobjs⟩ := exists_selected horder hnodup hmem args
  have hreport : report args s'.db = List.flatten <$> (selected.mapM fun i =>
      reportTest args s'.db (Obj.ofRow TADATest (clients i).row)) := by
    rw [report, hobjs, ok_bind, List.mapM_map]
    rfl
  rw [hreport]
  refine ⟨selected, hselects, ?_, fun lines h => ?_⟩
  · rw [← forall₂_congr fun i _ => exists_reportTest_row_iff args (hagrees i),
      ← exists_mapM_ok_iff]
    constructor
    · rintro ⟨lines, h⟩
      obtain ⟨blocks, hblocks, -⟩ := exists_of_bind_ok h
      exact ⟨blocks, hblocks⟩
    · rintro ⟨blocks, hblocks⟩
      exact ⟨blocks.flatten, by rw [hblocks]; rfl⟩
  · obtain ⟨blocks, hblocks, h⟩ := exists_of_bind_ok h
    obtain rfl := Except.ok.inj h
    refine ⟨blocks, ?_, rfl⟩
    rw [mapM_eq_ok_iff] at hblocks
    exact hblocks.imp fun i block hblock => block_of_reportTest (hagrees i) hblock

end Whole

/-- A script and a C test, at `tadaq`. -/
theorem report_clients_sampleArrivals :
    ∃ s', Tadad.run ⟨[], Db.empty Json.SampleFloat⟩ (sampleArrivals.map Prod.snd) = .ok s' ∧
      ∃ order, Selects asRoot sampleParty order ∧
        ((∃ lines, report asRoot s'.db = .ok lines) ↔
          ∀ c ∈ order, Numbered (sampleParty c)) := by
  obtain ⟨s', hrun, hreport⟩ := report_clients isHexdigest_sampleSha256 injective_sampleParty
    interleaves_sampleArrivals
  obtain ⟨order, hselects, hiff, -⟩ := hreport asRoot
  exact ⟨s', hrun, order, hselects, hiff⟩

end Tadaq

end Tada
end LdmsTest
