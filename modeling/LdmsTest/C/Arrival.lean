import LdmsTest.C.Messages
import LdmsTest.C.Sent
import LdmsTest.Tada.Delivery

/-!
# C tests and `tadad`

A test of a C program sends its messages to `tadad`, and its rows there are what it has announced and
the results that it ends with.

* `TestRun`: a test of a program, with the run of the program.
* `TestRun.Agrees`: the rows of the test are what the program has.
* `run_testRun`: the server, with the datagrams of one test.
-/

namespace LdmsTest
namespace CTada

open Tada (Calendar Db testRow)
open Tada.Tadad (IsStart IsReport IsFinish Second RowOf reportOf statuses)
open Sql (Affinity Cell)

/-- What `time(NULL)` returns, if it is a date. -/
structure Stamp [Calendar] where
  ts : ℕ
  sec : Second
  second_eq : sec.second = ts

/-- **A test of a program** that sends its results, with what the program did.  `printf` copies the
fields, and only the quotes of the conditions are escaped.  The assertions are numbered by
`int`s. -/
structure TestRun (sha256 : String → String) (T : Type) [DecidableEq T] [Calendar] where
  test : T → CTest
  canOpen : String → Bool
  ops : List (Op T)
  final : State T
  run_eq : @run T _ test ⟨sha256, canOpen⟩ (State.init test) ops = some final
  t : T
  start : Stamp
  finish : Stamp
  asserts : List Assert
  calls_eq : calls t ops =
    .start t start.ts :: (asserts.map (Assert.op t) ++ [.finish t finish.ts])
  sends : (test t).sendResult
  clean : (test t).CleanFields
  small : (test t).descriptions.length ≤ 2 ^ 31
  conds : ∀ a ∈ asserts, ∀ c ∈ a.condStr.toList, c ≠ '\\' ∧ 0x20 ≤ c.toNat

section Arrival

variable {sha256 : String → String} {T : Type} [DecidableEq T] [Calendar]

namespace TestRun

variable (r : TestRun sha256 T)

def testId : String :=
  sha256 (hashedText (r.test r.t) r.start.ts)

/-- The datagrams of the test. -/
def sent : List (List UInt8) :=
  (r.final.sent r.t).map Codec.encode

/-- The results of the assertions at the end of the program. -/
def results : List TestResult :=
  (r.final.tests r.t).results

/-- **The rows of the test agree with the program**: the row of the test has what was announced, and
there is one row for each assertion, with its result. -/
structure Agrees {F : Type} [DecidableEq F] (db : Db F) : Prop where
  test : db.tests.rows = [testRow r.testId (r.test r.t).suiteName (r.test r.t).testType
    (r.test r.t).testName (r.test r.t).testUser (r.test r.t).commitId (r.test r.t).testDesc
    r.start.sec.second r.finish.sec.second]
  assertions : ∃ rows, db.assertions.rows.Perm rows ∧
    List.Forall₂ (RowOf r.testId) rows (texts (board r.results 0))

theorem finished : Finished r.test r.t r.testId r.start.ts r.finish.ts r.asserts r.final :=
  letI : CHost := ⟨sha256, r.canOpen⟩
  sent_run r.sends rfl (by simp [State.init, resultsOf]) r.calls_eq r.run_eq

theorem results_eq : r.results = resultsOf (r.test r.t) r.asserts :=
  r.finished.results

theorem sent_eq : r.sent = (startMsg (r.test r.t) r.testId r.start.ts ::
    ((reportsOf (r.test r.t) r.asserts).map (Report.msg r.testId) ++
      [finishMsg r.testId r.finish.ts])).map Codec.encode :=
  congrArg (List.map Codec.encode) r.finished.sent

end TestRun

/-- What `sha256` gives: digits, and at least one of them. -/
def IsHexdigest (s : String) : Prop :=
  s ≠ "" ∧ ∀ c ∈ s.toList, c ∈ "0123456789abcdef".toList

omit [Calendar] in
theorem isHexdigest_of_all {s : String} (hne : s ≠ "")
    (h : (s.toList.all fun c => "0123456789abcdef".toList.contains c) = true) : IsHexdigest s :=
  ⟨hne, fun c hc => List.contains_iff_mem.1 (List.all_eq_true.1 h c hc)⟩

omit [Calendar] in
theorem IsHexdigest.clean {s : String} (h : IsHexdigest s) : Clean s.toList := by
  have hall : ∀ c ∈ "0123456789abcdef".toList, c ≠ '"' ∧ c ≠ '\\' ∧ 0x20 ≤ c.toNat :=
    clean_of_all rfl
  exact fun c hc => hall c (h.2 c hc)

omit [Calendar] in
theorem clean_text (r : TestResult) : Clean r.text.toList := by
  cases r <;> exact clean_of_all rfl

/-- A report that can be printed, and read. -/
structure Report.Clean (r : Report) : Prop where
  assertNo : r.assertNo < 10 ^ 20
  description : CTada.Clean r.description.toList
  cond : ∀ c ∈ r.cond.toList, c ≠ '\\' ∧ 0x20 ≤ c.toNat

omit [Calendar] in
/-- The reports of a test can be printed. -/
theorem clean_reportsOf {test : CTest} (h : test.CleanFields)
    (hsmall : test.descriptions.length ≤ 2 ^ 31) {asserts : List Assert}
    (hknown : ∀ a ∈ asserts, a.assertNo < test.descriptions.length)
    (hconds : ∀ a ∈ asserts, ∀ c ∈ a.condStr.toList, c ≠ '\\' ∧ 0x20 ≤ c.toNat) :
    ∀ r ∈ reportsOf test asserts, r.Clean := by
  have hskipped {descriptions : List String} (hclean : ∀ d ∈ descriptions, Clean d.toList)
      (results : List TestResult) (n : ℕ) (hn : n + descriptions.length ≤ 2 ^ 31) :
      ∀ r ∈ skippedReports n (descriptions.zip results), r.Clean := by
    induction descriptions generalizing results n with
    | nil => simp [skippedReports]
    | cons description descriptions ih =>
      obtain ⟨hd, hclean⟩ := List.forall_mem_cons.mp hclean
      cases results with
      | nil => simp [skippedReports]
      | cons result results =>
        rw [List.length_cons] at hn
        have hrest := ih hclean results (n + 1) (by omega)
        rw [List.zip_cons_cons, skippedReports]
        split
        · exact hrest
        · have hnone : Clean "none".toList := clean_of_all rfl
          have hno : n < 10 ^ 20 := by omega
          exact List.forall_mem_cons.mpr ⟨⟨hno, hd, fun c hc => (hnone c hc).2⟩, hrest⟩
  refine List.forall_mem_append.mpr ⟨?_, hskipped h.descriptions _ 0 (by omega)⟩
  refine List.forall_mem_map.mpr fun a ha => ⟨?_, ?_, hconds a ha⟩
  · have hlt := hknown a ha
    show a.assertNo < 10 ^ 20
    omega
  · have hmem : test.descriptions.getD a.assertNo "" ∈ test.descriptions := by
      rw [List.getD_eq_getElem?_getD, List.getElem?_eq_getElem (hknown a ha), Option.getD_some]
      exact List.getElem_mem _
    exact h.descriptions _ hmem

/-! ## The server with the messages of a test -/

variable {F : Type} [Json.JsonFloat F] [DecidableEq F]

omit [Calendar] [DecidableEq F] in
/-- The reports, as they are received. -/
theorem exists_parse_reports {testId : String} (hid : Clean testId.toList) {reports : List Report}
    (h : ∀ r ∈ reports, r.Clean) :
    ∃ received : List (Val.Fields F),
      List.Forall₂ (fun data m => Tada.Tadad.parse data = some m)
        ((reports.map (Report.msg testId)).map Codec.encode) received ∧
      (∀ m ∈ received, IsReport testId m) ∧ received.map reportOf = reports.map Report.item := by
  induction reports with
  | nil => exact ⟨[], .nil, by simp, rfl⟩
  | cons r reports ih =>
    obtain ⟨hr, hreports⟩ := List.forall_mem_cons.mp h
    obtain ⟨received, hparse, hall, hitems⟩ := ih hreports
    obtain ⟨m, hm, hreport, hitem⟩ :=
      exists_parse_assertMsg (F := F) hid hr.assertNo hr.description hr.cond (clean_text r.result)
    refine ⟨m :: received, .cons hm hparse, List.forall_mem_cons.mpr ⟨hreport, hall⟩, ?_⟩
    rw [List.map_cons, List.map_cons, hitem, hitems]
    rfl

omit [Calendar] [DecidableEq F] in
/-- The statuses of reports are what they report. -/
theorem statuses_eq (reports : List (Val.Fields F)) :
    statuses reports = Dict.update [] (reports.map reportOf) := by
  rw [statuses, Dict.update, List.foldl_map]

/-- The datagrams of a test, as they are received. -/
theorem TestRun.exists_parse (r : TestRun sha256 T) (hhex : IsHexdigest r.testId) :
    ∃ (start finish : Val.Fields F) (reports : List (Val.Fields F)),
      List.Forall₂ (fun data m => Tada.Tadad.parse data = some m) r.sent
        (start :: (reports ++ [finish])) ∧
      IsStart r.testId (r.test r.t).announced r.start.sec start ∧
      (∀ m ∈ reports, IsReport r.testId m) ∧ IsFinish r.testId r.finish.sec finish ∧
      (statuses reports).Perm (texts (board r.results 0)) := by
  obtain ⟨start, hstart, hisStart⟩ :=
    exists_parse_startMsg (F := F) r.clean hhex.clean r.start.second_eq
  obtain ⟨finish, hfinish, hisFinish⟩ :=
    exists_parse_finishMsg (F := F) hhex.clean r.finish.second_eq
  obtain ⟨reports, hreports, hisReport, hitems⟩ := exists_parse_reports (F := F) hhex.clean
    (clean_reportsOf r.clean r.small r.finished.known r.conds)
  refine ⟨start, finish, reports, ?_, hisStart, hisReport, hisFinish, ?_⟩
  · rw [r.sent_eq, List.map_cons, List.map_append]
    exact .cons hstart (List.rel_append hreports (.cons hfinish .nil))
  · rw [statuses_eq, hitems, r.results_eq]
    exact perm_update_reportsOf (r.test r.t) r.finished.known

/-- The datagrams of a test are messages of the test. -/
theorem TestRun.owns_of_mem_sent (r : TestRun sha256 T) (hhex : IsHexdigest r.testId)
    {data : List UInt8} (hdata : data ∈ r.sent) :
    Tada.Tadad.Owns (F := F) (.text r.testId) data := by
  obtain ⟨start, finish, reports, hparse, hstart, hreports, hfinish, -⟩ := r.exists_parse (F := F) hhex
  obtain ⟨i, hi⟩ := List.mem_iff_getElem?.mp hdata
  obtain ⟨m, hm, hparse⟩ := exists_right_of_forall₂ hparse hi
  have hid : ∀ m ∈ start :: (reports ++ [finish]), Dict.get? m "test-id" = some (.str r.testId) :=
    List.forall_mem_cons.mpr ⟨hstart.testId, List.forall_mem_append.mpr
      ⟨fun m hm => (hreports m hm).testId, List.forall_mem_singleton.mpr hfinish.testId⟩⟩
  exact ⟨_, m, rfl, hparse, Tada.Tadad.field_eq (hid m (List.mem_of_getElem? hm))⟩

variable [Affinity F]

/-- **The server with the datagrams of one test**, of which the database has no rows. -/
theorem run_testRun (r : TestRun sha256 T) (hhex : IsHexdigest r.testId) {s : Tada.Tadad.State F}
    (hdb : s.db = Db.empty F) :
    ∃ s', Tada.Tadad.run s r.sent = .ok s' ∧ r.Agrees s'.db := by
  obtain ⟨start, finish, reports, hparse, hstart, hreports, hfinish, hperm⟩ :=
    r.exists_parse (F := F) hhex
  obtain ⟨db, htest, hrows, hforall, -⟩ := Tada.Tadad.testFinish_fresh hstart hreports hfinish
  obtain ⟨s', hs', rfl⟩ := Tada.Tadad.run_messages hstart hreports hfinish hhex.1 hparse
    (hdb.symm ▸ htest)
  -- the rows are those of the reports, in the order of the first reports
  have hcomp : Relation.Comp (List.Forall₂ (RowOf r.testId)) List.Perm s'.db.assertions.rows
      (texts (board r.results 0)) := ⟨_, hforall, hperm⟩
  rw [List.forall₂_comp_perm_eq_perm_comp_forall₂] at hcomp
  exact ⟨s', hs', hrows, hcomp⟩

end Arrival

end CTada
end LdmsTest
