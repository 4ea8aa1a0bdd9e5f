import LdmsTest.C.Tada
import LdmsTest.Tada.Delivery

/-!
# The log of a C program, replayed

`create_suite_from_C_test_results` reads the log of a C program, and reports it as a test of its
own.

* `CLog`: what `tada.c` logs.
* `createSuite`: the function of the source.
* `Replayed`: the server has the same statuses as if it had got the messages of the log, and the
  exit code is zero exactly if all of them are `passed`.
* `exec_replay`: unless something is raised, a log is replayed as its script.
* `replayed_iff`: the replay is faithful exactly if no assertion is reported as skipped in the end,
  and with `TADA.DEBUG` only if nothing but `passed` is reported.
-/

namespace LdmsTest
namespace Tada

open Val (Fields Keyed keyOf getItem)
open Sql (Cell Affinity)
open CTada (TestResult)
open Tadad (datagram received field FitsMessage IsStart IsReport IsFinish Second Sendable reportOf
  statuses resultOf)

/-! ## Logs -/

/-- The `test-status` of a result. -/
def statusOf : TestResult → String
  | .passed => passed
  | .failed => failed
  | .skipped => skipped

/-- A message of an assertion in a log.  The number is an `int`. -/
structure CReport where
  assertNo : ℤ
  desc : String
  cond : String
  status : TestResult
  min : -2 ^ 31 ≤ assertNo := by decide
  max : assertNo < 2 ^ 31 := by decide

/-- **A log of a C program**. -/
structure CLog [Calendar] where
  testSuite : String
  testType : String
  testName : String
  testUser : String
  testDesc : String
  commitId : String
  testId : String
  testId_ne : testId ≠ ""
  startTime : Second
  reports : List CReport
  finishTime : Second

section Messages

variable {F : Type}

def CReport.msg (testId : String) (r : CReport) : Fields F :=
  [("msg-type", .str "assert-status"),
    ("test-id", .str testId),
    ("assert-no", .int r.assertNo),
    ("assert-desc", .str r.desc),
    ("assert-cond", .str r.cond),
    ("test-status", .str (statusOf r.status))]

variable [Calendar]

def CLog.startMsg (log : CLog) : Fields F :=
  [("msg-type", .str "test-start"),
    ("test-suite", .str log.testSuite),
    ("test-type", .str log.testType),
    ("test-name", .str log.testName),
    ("test-user", .str log.testUser),
    ("test-desc", .str log.testDesc),
    ("commit-id", .str log.commitId),
    ("timestamp", .int log.startTime.second),
    ("test-id", .str log.testId)]

def CLog.finishMsg (log : CLog) : Fields F :=
  [("msg-type", .str "test-finish"),
    ("test-id", .str log.testId),
    ("timestamp", .int log.finishTime.second)]

/-- The messages of a log. -/
def CLog.messages (log : CLog) : List (Fields F) :=
  log.startMsg :: (log.reports.map (CReport.msg log.testId) ++ [log.finishMsg])

/-- The last result of an assertion. -/
def CLog.last (log : CLog) (assertNo : ℤ) : Option TestResult :=
  log.reports.foldl (fun o r => if r.assertNo = assertNo then some r.status else o) none

end Messages

/-! ## The function -/

section Function

variable {F : Type} [Json.JsonFloat F] [DecidableEq F]

/-- The loop that registers the assertions. -/
def addAssertions : List (Fields F) → Client F Unit
  | [] => pure ()
  | msg :: r => do
    let msgType ← getItem msg "msg-type"
    if isStr msgType "assert-status" then
      let number ← getItem msg "assert-no"
      let desc ← getItem msg "assert-desc"
      addAssertion number desc
    addAssertions r

/-- The loop that tests the assertions. -/
def assertAll (debug : Bool) : List (Fields F) → Client F Unit
  | [] => pure ()
  | msg :: r => do
    let msgType ← getItem msg "msg-type"
    if isStr msgType "assert-status" then
      let status ← getItem msg "test-status"
      let assertNo ← getItem msg "assert-no"
      let condStr ← getItem msg "assert-cond"
      assertTest debug assertNo (isStr status passed) condStr
    assertAll debug r

/-- The readings of the clock. -/
structure Clock (F : Type) [Json.JsonFloat F] [Calendar] where
  ts : ℤ
  startTime : Reading F
  finishTime : Reading F

variable [Calendar]

/-- What is done with the test, for the messages `r`. -/
def replay (sha256 : String → String) (debug : Bool) (clock : Clock F) (r : List (Fields F)) :
    Client F ℤ := do
  addAssertions r
  start sha256 clock.ts clock.startTime.time
  try assertAll debug r
  catch e =>
    discard (finish clock.finishTime.time)
    throw e
  discard (finish clock.finishTime.time)
  exitCode (← get)

/-- The objects of a list. -/
def objectsOf : List (Val F) → Option (List (Fields F))
  | [] => some []
  | .dict d :: xs => (objectsOf xs).map (d :: ·)
  | _ :: _ => none

/-- `msg[k]`, if it is a text -/
def textAt (msg : Fields F) (k : String) : Option String :=
  match Dict.get? msg k with
  | some (.str s) => some s
  | _ => none

/-- `create_suite_from_C_test_results(txt, tada_addr)`: what it ends with, and its object, with
`TADA.DEBUG`.  Texts that are no list of objects, and tests whose identity is no text, are left
out. -/
def createSuite (sha256 : String → String) (debug : Bool) (clock : Clock F) (txt : String) :
    Option (Except PyError ℤ × Test F) :=
  match (Json.loads txt : Except Json.LoadError (Val F)) with
  | .ok (.list xs) => do
    let r ← objectsOf xs
    let first ← r.head?
    let testSuite ← textAt first "test-suite"
    let testType ← textAt first "test-type"
    let testName ← textAt first "test-name"
    let testDesc ← textAt first "test-desc"
    let testUser ← textAt first "test-user"
    let commitId ← textAt first "commit-id"
    let test := Test.init testSuite testType testName (some testDesc) testUser commitId
    some ((replay sha256 debug clock r).exec test)
  | _ => none

end Function

/-! ## The script of a log -/

section Scripts

variable {F : Type} [Json.JsonFloat F]

theorem CReport.fitsMessage (r : CReport) : FitsMessage (.int r.assertNo : Val F) := by
  have hmin := r.min
  have hmax := r.max
  exact .int (by omega) (by omega)

theorem int_eq_of_toString {n m : ℤ} (h : toString n = toString m) : n = m := by
  rw [← Json.ofInteger_intText n, ← Json.ofInteger_intText m, ← Json.toList_toString,
    ← Json.toList_toString, h]

def CReport.registration (r : CReport) : Registration F where
  number := .int r.assertNo
  desc := .str r.desc
  isPrimitive := rfl
  fitsNumber := r.fitsMessage
  fitsDesc := .str _

def CReport.call (debug : Bool) (r : CReport) : Call F where
  debug := debug
  number := .int r.assertNo
  cond := r.status = .passed
  condStr := .str r.cond
  fits := .str _

variable [Calendar]

/-- **The script that a log is replayed as**. -/
def CLog.script (debug : Bool) (clock : Clock F) (log : CLog) : Script F where
  testSuite := log.testSuite
  testType := log.testType
  testName := log.testName
  testDesc := some log.testDesc
  testUser := log.testUser
  commitId := log.commitId
  assertions := log.reports.map CReport.registration
  ts := clock.ts
  startTime := clock.startTime
  calls := log.reports.map (CReport.call debug)
  finishTime := clock.finishTime
  distinct a ha b hb h := by
    obtain ⟨r, -, rfl⟩ := List.mem_map.mp ha
    obtain ⟨r', -, rfl⟩ := List.mem_map.mp hb
    have hno : r.assertNo = r'.assertNo := int_eq_of_toString h
    show keyOf (.int r.assertNo) = keyOf (.int r'.assertNo)
    rw [hno]
  registered c hc := by
    obtain ⟨r, hr, rfl⟩ := List.mem_map.mp hc
    exact ⟨_, List.mem_map_of_mem hr, rfl⟩

omit [Json.JsonFloat F] [Calendar] in
theorem isStr_statusOf (s : TestResult) :
    isStr (.str (statusOf s) : Val F) passed = decide (s = .passed) := by
  cases s <;> rfl

variable [DecidableEq F]

omit [Calendar] in
/-- A message of another type is passed over. -/
theorem exec_addAssertions_other {msg : Fields F} {s : String}
    (htype : Dict.get? msg "msg-type" = some (.str s)) (hs : s ≠ "assert-status")
    (r : List (Fields F)) (t : Test F) :
    (addAssertions (msg :: r)).exec t = (addAssertions r).exec t := by
  rw [addAssertions]
  refine (Client.exec_getItem_bind htype _ t).trans ?_
  rw [if_neg (Tadad.not_isStr hs)]

omit [Calendar] in
theorem exec_assertAll_other (debug : Bool) {msg : Fields F} {s : String}
    (htype : Dict.get? msg "msg-type" = some (.str s)) (hs : s ≠ "assert-status")
    (r : List (Fields F)) (t : Test F) :
    (assertAll debug (msg :: r)).exec t = (assertAll debug r).exec t := by
  rw [assertAll]
  refine (Client.exec_getItem_bind htype _ t).trans ?_
  rw [if_neg (Tadad.not_isStr hs)]

omit [Calendar] in
/-- The assertions of reports are registered. -/
theorem exec_addAssertions (testId : String) (reports : List CReport) (rest : List (Fields F))
    (t : Test F) :
    (addAssertions (reports.map (CReport.msg testId) ++ rest)).exec t =
      (addAssertions rest).exec (register (reports.map CReport.registration) t) := by
  induction reports generalizing t with
  | nil => rfl
  | cons r reports ih =>
    have hadd : (addAssertion (.int r.assertNo) (.str r.desc)).exec t =
        (.ok (), t.setAssertion (.num r.assertNo)
          (assertionMsg (.int r.assertNo) (.str r.desc))) := exec_addAssertion t rfl
    rw [List.map_cons, List.cons_append, addAssertions]
    refine (Client.exec_getItem_bind rfl _ t).trans ?_
    rw [if_pos (Tadad.isStr_self _)]
    refine (Client.exec_getItem_bind rfl _ t).trans ?_
    refine (Client.exec_getItem_bind rfl _ t).trans ?_
    refine (Client.exec_bind_ok hadd).trans ?_
    rw [ih, List.map_cons, register, register, List.foldl_cons]
    rfl

/-- The object is started, and has the assertions of reports. -/
structure Started (id : String) (reports : List CReport) (t : Test F) : Prop where
  testId : t.testId = some id
  mem_keys : ∀ r ∈ reports, Key.num r.assertNo ∈ Dict.keys t.assertions

omit [Calendar] in
/-- A report of a log is tested. -/
theorem Started.exec_assertTest {id : String} {r : CReport} {reports : List CReport} {t : Test F}
    (h : Started id (r :: reports) t) (debug : Bool) :
    ∃ t', (assertTest debug (.int r.assertNo) (r.status = .passed) (.str r.cond)).exec t =
      (debugError debug (r.status = .passed) t.testDesc (.str r.cond : Val F), t') ∧
      Started id reports t' := by
  obtain ⟨hmem, hmem'⟩ := List.forall_mem_cons.mp h.mem_keys
  obtain ⟨msg, hmsg⟩ := Option.isSome_iff_exists.mp (Dict.isSome_get?_iff.mpr hmem)
  refine ⟨_, Tada.exec_assertTest h.testId rfl hmsg debug _ _, h.testId, fun r' hr' => ?_⟩
  rw [keys_push_setAssertion hmsg]
  exact hmem' r' hr'

omit [Calendar] in
/-- One turn of the loop. -/
theorem exec_assertAll_cons (debug : Bool) (testId : String) (r : CReport) (rest : List (Fields F))
    (t : Test F) :
    (assertAll debug (r.msg testId :: rest)).exec t =
      (assertTest debug (.int r.assertNo) (r.status = .passed) (.str r.cond) >>= fun _ =>
        assertAll debug rest).exec t := by
  rw [assertAll]
  refine (Client.exec_getItem_bind rfl _ t).trans ?_
  rw [if_pos (Tadad.isStr_self _)]
  refine (Client.exec_getItem_bind rfl _ t).trans ?_
  refine (Client.exec_getItem_bind rfl _ t).trans ?_
  refine (Client.exec_getItem_bind rfl _ t).trans ?_
  rw [isStr_statusOf]

omit [Calendar] in
/-- **Reports are tested**, when nothing is raised. -/
theorem exec_assertAll {debug : Bool} {testId id : String} {reports : List CReport} {t : Test F}
    (hok : debug → ∀ r ∈ reports, r.status = .passed) (h : Started id reports t)
    (rest : List (Fields F)) :
    (assertAll debug (reports.map (CReport.msg testId) ++ rest)).exec t =
      (assertAll debug rest).exec (callAll (reports.map (CReport.call debug)) t) := by
  induction reports generalizing t with
  | nil => rfl
  | cons r reports ih =>
    obtain ⟨t', hexec, hstarted⟩ := h.exec_assertTest debug
    have hdebug : debugError debug (r.status = .passed) t.testDesc (.str r.cond : Val F) = .ok () := by
      cases debug with
      | false => exact debugError_of_not_debug _ _ _
      | true =>
        rw [decide_eq_true (hok rfl r List.mem_cons_self)]
        exact debugError_of_cond _ _ _
    rw [hdebug] at hexec
    have hcall : callAll ((r :: reports).map (CReport.call debug)) t =
        callAll (reports.map (CReport.call debug)) t' := by
      rw [List.map_cons, callAll, List.foldl_cons]
      exact congrArg (callAll _) (congrArg Prod.snd hexec)
    rw [List.map_cons, List.cons_append, exec_assertAll_cons, Client.exec_bind_ok hexec, hcall]
    exact ih (fun hd r hr => hok hd r (List.mem_cons_of_mem _ hr)) hstarted

omit [Calendar] in
/-- With `TADA.DEBUG`, a report of an assertion that did not pass raises. -/
theorem exists_exec_assertAll {testId id : String} {reports : List CReport} {t : Test F}
    (hfail : ∃ r ∈ reports, r.status ≠ .passed) (h : Started id reports t)
    (rest : List (Fields F)) :
    ∃ e t', (assertAll true (reports.map (CReport.msg testId) ++ rest)).exec t = (.error e, t') := by
  induction reports generalizing t with
  | nil =>
    obtain ⟨r, hr, -⟩ := hfail
    exact absurd hr List.not_mem_nil
  | cons r reports ih =>
    obtain ⟨t', hexec, hstarted⟩ := h.exec_assertTest true
    rw [List.map_cons, List.cons_append, exec_assertAll_cons]
    by_cases hr : r.status = .passed
    · rw [decide_eq_true hr, debugError_of_cond] at hexec
      obtain ⟨r', hr', hstatus⟩ := hfail
      have hmem := (List.mem_cons.mp hr').resolve_left fun heq => hstatus (heq ▸ hr)
      rw [decide_eq_true hr, Client.exec_bind_ok hexec]
      exact ih ⟨r', hmem, hstatus⟩ hstarted
    · rw [decide_eq_false hr] at hexec ⊢
      obtain ⟨e, he⟩ := exists_debugError t.testDesc (.str r.cond : Val F)
      rw [he] at hexec
      exact ⟨e, t', Client.exec_bind_error hexec⟩

end Scripts

/-! ## The run of a log -/

section Runs

variable {F : Type} [Json.JsonFloat F] [DecidableEq F] [Calendar]

theorem exec_addAssertions_messages (log : CLog) (t : Test F) :
    (addAssertions log.messages).exec t =
      (.ok (), register (log.reports.map CReport.registration) t) := by
  rw [CLog.messages]
  refine (exec_addAssertions_other rfl (by decide) _ t).trans ?_
  refine (exec_addAssertions log.testId log.reports [log.finishMsg] t).trans ?_
  exact exec_addAssertions_other rfl (by decide) [] _

theorem exec_assertAll_messages {debug : Bool} {id : String} {log : CLog} {t : Test F}
    (hok : debug → ∀ r ∈ log.reports, r.status = .passed) (h : Started id log.reports t) :
    (assertAll debug log.messages).exec t =
      (.ok (), callAll (log.reports.map (CReport.call debug)) t) := by
  rw [CLog.messages]
  refine (exec_assertAll_other debug rfl (by decide) _ t).trans ?_
  refine (exec_assertAll hok h [log.finishMsg]).trans ?_
  exact exec_assertAll_other debug rfl (by decide) [] _

/-- The object of a log is started with all assertions. -/
theorem started_start (sha256 : String → String) (debug : Bool) (clock : Clock F) (log : CLog) :
    ∃ t, (start sha256 clock.ts clock.startTime.time).exec
        (register (log.reports.map CReport.registration) (log.script debug clock).test) =
          (.ok (), t) ∧
      Started ((log.script debug clock).testId sha256) log.reports t := by
  obtain ⟨t, hstart, hrep, hreg⟩ := reporting_start sha256 (log.script debug clock)
  refine ⟨t, ?_, hrep.testId, fun r hr => ?_⟩
  · rw [← hstart]
    rfl
  · exact hreg.mem_keys r.registration (List.mem_map_of_mem hr) _ rfl

omit [Calendar] in
/-- What follows when the reports have been tested. -/
theorem exec_finish_exitCode {now : F} {t t' : Test F} {id : String}
    (h : (finish now).exec t = (exitCode t', t'.push (finishMsg id now))) :
    (do
      discard (finish now)
      exitCode (← get) : Client F ℤ).exec t = (exitCode t', t'.push (finishMsg id now)) := by
  cases hcode : exitCode t' with
  | error e =>
    rw [hcode] at h
    exact Client.exec_bind_error (Client.exec_bind_error h)
  | ok code =>
    rw [hcode] at h
    refine (Client.exec_bind_ok (Client.exec_discard_ok h)).trans ?_
    refine (Client.exec_bind_ok (Client.exec_get _)).trans ?_
    refine (Client.exec_liftM _ _).trans ?_
    rw [← hcode]
    rfl

/-- **A log is replayed as its script**, when nothing is raised. -/
theorem exec_replay (sha256 : String → String) {debug : Bool} (clock : Clock F) {log : CLog}
    (hok : debug → ∀ r ∈ log.reports, r.status = .passed) :
    (replay sha256 debug clock log.messages).exec (log.script debug clock).test =
      (log.script debug clock).run sha256 := by
  obtain ⟨t, hstart, hstarted⟩ := started_start sha256 debug clock log
  obtain ⟨t', -, -, -, -, -, -, hrun⟩ := exists_run sha256 (log.script debug clock)
  have hfinish : (finish clock.finishTime.time).exec
      (callAll (log.reports.map (CReport.call debug)) t) =
        (log.script debug clock).run sha256 := by
    rw [Script.run]
    show _ = (finish clock.finishTime.time).exec (callAll (log.reports.map (CReport.call debug))
      ((start sha256 clock.ts clock.startTime.time).exec
        (register (log.reports.map CReport.registration) (log.script debug clock).test)).2)
    rw [hstart]
  rw [hrun] at hfinish ⊢
  rw [replay]
  refine (Client.exec_bind_ok (exec_addAssertions_messages log _)).trans ?_
  refine (Client.exec_bind_ok hstart).trans ?_
  refine (Client.exec_bind_ok (Client.exec_tryCatch_ok
    (exec_assertAll_messages hok hstarted))).trans ?_
  exact exec_finish_exitCode hfinish

/-- With `TADA.DEBUG`, a log with a report that did not pass raises. -/
theorem exists_exec_replay (sha256 : String → String) (clock : Clock F) {log : CLog}
    (hfail : ∃ r ∈ log.reports, r.status ≠ .passed) :
    ∃ e t, (replay sha256 true clock log.messages).exec (log.script true clock).test =
      (.error e, t) := by
  obtain ⟨t, hstart, hstarted⟩ := started_start sha256 true clock log
  obtain ⟨e, t₁, hassert⟩ := exists_exec_assertAll hfail hstarted [log.finishMsg]
  have hall : (assertAll true log.messages).exec t = (.error e, t₁) := by
    rw [CLog.messages]
    exact (exec_assertAll_other true rfl (by decide) _ t).trans hassert
  -- the handler finishes the test, and raises
  have hhandler : ∃ e' t₂, (do
      discard (finish clock.finishTime.time)
      throw e : Client F Unit).exec t₁ = (.error e', t₂) := by
    cases hfinish : (finish clock.finishTime.time).exec t₁ with
    | mk outcome t₂ =>
      cases outcome with
      | error e' => exact ⟨e', t₂, Client.exec_bind_error (Client.exec_bind_error hfinish)⟩
      | ok code => exact ⟨e, t₂, Client.exec_bind_ok (Client.exec_discard_ok hfinish)⟩
  obtain ⟨e', t₂, hhandler⟩ := hhandler
  refine ⟨e', t₂, ?_⟩
  rw [replay]
  refine (Client.exec_bind_ok (exec_addAssertions_messages log _)).trans ?_
  refine (Client.exec_bind_ok hstart).trans ?_
  exact Client.exec_bind_error ((Client.exec_tryCatch_error hall).trans hhandler)

omit [Json.JsonFloat F] [DecidableEq F] [Calendar] in
theorem objectsOf_map (r : List (Fields F)) : objectsOf (r.map .dict) = some r := by
  induction r with
  | nil => rfl
  | cons d r ih =>
    rw [List.map_cons, objectsOf, ih]
    rfl

/-- **The function, with the text of a log**. -/
theorem createSuite_eq (sha256 : String → String) (debug : Bool) (clock : Clock F) {log : CLog}
    {txt : String} (htxt : Json.loads txt = .ok (.list (log.messages.map .dict) : Val F)) :
    createSuite sha256 debug clock txt =
      some ((replay sha256 debug clock log.messages).exec (log.script debug clock).test) := by
  rw [createSuite, htxt]
  show (objectsOf (log.messages.map .dict) >>= _) = _
  rw [objectsOf_map]
  rfl

end Runs

/-! ## The messages of a log -/

section Received

variable {F : Type} [Json.JsonFloat F]

/-- A message of an assertion in a log. -/
theorem CReport.isAssertion (testId : String) (r : CReport) :
    IsAssertion (F := F) (.num r.assertNo) (r.msg testId) where
  sendable := by
    refine ⟨by simp [CReport.msg], fun p hp => ?_⟩
    simp only [CReport.msg, List.mem_cons, List.not_mem_nil, or_false] at hp
    rcases hp with rfl | rfl | rfl | rfl | rfl | rfl
    case inr.inr.inl => exact r.fitsMessage
    all_goals exact .str _
  msgType := rfl
  number := ⟨_, rfl, rfl, rfl⟩
  status := ⟨_, rfl⟩
  cond := by simp [CReport.msg]
  desc := by simp [CReport.msg]

theorem isReport_log (log : List CReport) (testId : String) :
    ∀ m ∈ (log.map (CReport.msg testId)).map received, IsReport (F := F) testId m :=
  List.forall_mem_map.mpr (List.forall_mem_map.mpr fun r _ => (r.isAssertion testId).isReport rfl)

/-- The last result of an assertion, after a report. -/
def CReport.after (assertNo : ℤ) (o : Option TestResult) (r : CReport) : Option TestResult :=
  if r.assertNo = assertNo then some r.status else o

theorem toString_eq_iff {n m : ℤ} : toString n = toString m ↔ n = m :=
  ⟨int_eq_of_toString, congrArg toString⟩

/-- **The last status of each assertion**, as the messages have it. -/
theorem get?_statuses_reports (testId : String) (reports : List CReport) (assertNo : ℤ) :
    Dict.get? (statuses (F := F) ((reports.map (CReport.msg testId)).map received))
        (toString assertNo) =
      (reports.foldl (CReport.after assertNo) none).map statusOf := by
  have hreport : ∀ m ∈ reports.map (CReport.msg (F := F) testId),
      reportOf (received m) = reportOf m :=
    List.forall_mem_map.mpr fun r _ => (r.isAssertion testId).reportOf_received
  rw [statuses_received hreport]
  clear hreport
  induction reports using List.reverseRecOn with
  | nil => rfl
  | append_singleton reports r ih =>
    have hlast : reportOf (F := F) (r.msg testId) = (toString r.assertNo, statusOf r.status) :=
      rfl
    rw [List.map_append, List.map_singleton, Tadad.statuses_append, hlast, Dict.get?_set, ih,
      List.foldl_append, List.foldl_cons, List.foldl_nil, CReport.after]
    dsimp only
    rw [if_congr toString_eq_iff rfl rfl]
    split
    · rfl
    · rfl

/-- **The last status of each assertion**, as the replay has it. -/
theorem statusAfter_calls [DecidableEq F] (debug : Bool) (reports : List CReport) (assertNo : ℤ) :
    statusAfter (F := F) (reports.map (CReport.call debug)) (.num assertNo) skipped =
      (reports.foldl (CReport.after assertNo) none).elim skipped
        fun s => statusText (s = .passed) := by
  rw [statusAfter]
  induction reports using List.reverseRecOn with
  | nil => rfl
  | append_singleton reports r ih =>
    have hkey : keyOf (CReport.call (F := F) debug r).number = .ok (.num r.assertNo) := rfl
    have hno : (Except.ok (Key.num r.assertNo) : Except PyError (Key F)) = .ok (.num assertNo) ↔
        r.assertNo = assertNo := by
      rw [Except.ok.injEq, Key.num.injEq]
    rw [List.map_append, List.map_singleton, List.foldl_append, List.foldl_cons, List.foldl_nil, ih,
      List.foldl_append, List.foldl_cons, List.foldl_nil, hkey, CReport.after, if_congr hno rfl rfl]
    split
    · rfl
    · rfl

theorem exists_foldl_after {reports : List CReport} {r : CReport} (hr : r ∈ reports) :
    ∃ s, reports.foldl (CReport.after r.assertNo) none = some s := by
  induction reports using List.reverseRecOn with
  | nil => exact absurd hr List.not_mem_nil
  | append_singleton reports r' ih =>
    rw [List.foldl_append, List.foldl_cons, List.foldl_nil, CReport.after]
    split
    · exact ⟨_, rfl⟩
    · next hne =>
      rcases List.mem_append.mp hr with hr | hr
      · exact ih hr
      · exact absurd (congrArg CReport.assertNo (List.mem_singleton.mp hr)).symm hne

variable [Calendar]

/-- An assertion of a log has a last result. -/
theorem CLog.exists_last {log : CLog} {r : CReport} (hr : r ∈ log.reports) :
    ∃ s, log.last r.assertNo = some s :=
  exists_foldl_after hr

end Received

/-! ## The server -/

section Served

variable {F : Type} [Json.JsonFloat F] [Calendar]

/-- The datagrams `direct` are read as the messages of a log. -/
def SentAs (F : Type) [Json.JsonFloat F] (log : CLog) (direct : List (List UInt8)) : Prop :=
  List.Forall₂ (fun data m => Codec.loadsLimited data = .ok (.dict m : Val F)) direct log.messages

omit [Json.JsonFloat F] in
theorem CLog.forall_mem_messages {log : CLog} {P : Fields F → Prop} (hstart : P log.startMsg)
    (hreport : ∀ r ∈ log.reports, P (r.msg log.testId)) (hfinish : P log.finishMsg) :
    ∀ m ∈ log.messages, P m :=
  List.forall_mem_cons.mpr ⟨hstart, List.forall_mem_append.mpr
    ⟨List.forall_mem_map.mpr hreport, List.forall_mem_singleton.mpr hfinish⟩⟩

omit [Json.JsonFloat F] in
/-- The messages of a log hold texts and numbers only. -/
theorem listedFields_messages (log : CLog) : ∀ m ∈ log.messages, Json.listedFields (F := F) m = m :=
  CLog.forall_mem_messages rfl (fun _ _ => rfl) rfl

theorem sendable_log (log : CLog) : ∀ m ∈ log.messages, Sendable (m : Fields F) := by
  have hsecond (sec : Second) : FitsMessage (.int sec.second : Val F) := .int sec.min sec.max
  refine CLog.forall_mem_messages ⟨by simp [CLog.startMsg], fun p hp => ?_⟩
    (fun r _ => (r.isAssertion log.testId).sendable) ⟨by simp [CLog.finishMsg], fun p hp => ?_⟩
  · simp only [CLog.startMsg, List.mem_cons, List.not_mem_nil, or_false] at hp
    rcases hp with rfl | rfl | rfl | rfl | rfl | rfl | rfl | rfl | rfl
    case inr.inr.inr.inr.inr.inr.inr.inl => exact hsecond log.startTime
    all_goals exact .str _
  · simp only [CLog.finishMsg, List.mem_cons, List.not_mem_nil, or_false] at hp
    rcases hp with rfl | rfl | rfl
    case inr.inr => exact hsecond log.finishTime
    all_goals exact .str _

/-- The messages of a log can be sent. -/
theorem exists_sentAs (log : CLog) : ∃ direct, SentAs F log direct := by
  refine ⟨(log.messages : List (Fields F)).map datagram, ?_⟩
  refine List.forall₂_map_left_iff.mpr (List.forall₂_same.mpr fun m hm => ?_)
  have hsend := sendable_log log m hm
  rw [datagram, Codec.loadsLimited_encode_dumps hsend.keyed hsend.fits_dict, Json.listed,
    listedFields_messages log m hm]

theorem SentAs.parse {log : CLog} {direct : List (List UInt8)} (h : SentAs F log direct) :
    List.Forall₂ (fun data r => Tadad.parse data = some r) direct
      (received (F := F) log.startMsg :: ((log.reports.map (CReport.msg log.testId)).map received ++
        [received log.finishMsg])) := by
  rw [← List.map_singleton (f := received), ← List.map_append, ← List.map_cons,
    List.forall₂_map_right_iff]
  have hlisted := (List.forall₂_and_left _ _).mpr ⟨listedFields_messages log, h.flip⟩
  refine hlisted.flip.imp fun data m hm => ?_
  rw [Tadad.parse, hm.2, received, hm.1]

variable [DecidableEq F]

def CLog.announced (log : CLog) : Tadad.Announced where
  suite := log.testSuite
  type := log.testType
  name := log.testName
  user := log.testUser
  commit := log.commitId
  desc := log.testDesc

theorem isStart_log (log : CLog) :
    IsStart (F := F) log.testId log.announced log.startTime (received log.startMsg) where
  msgType := get?_received_primitive rfl rfl
  testId := get?_received_primitive rfl rfl
  suite := get?_received_primitive rfl rfl
  type := get?_received_primitive rfl rfl
  name := get?_received_primitive rfl rfl
  user := get?_received_primitive rfl rfl
  commit := get?_received_primitive rfl rfl
  desc := get?_received_primitive rfl rfl
  timestamp := ⟨_, get?_received_primitive rfl rfl, rfl⟩

theorem isFinish_log (log : CLog) :
    IsFinish (F := F) log.testId log.finishTime (received log.finishMsg) where
  msgType := get?_received_primitive rfl rfl
  testId := get?_received_primitive rfl rfl
  timestamp := ⟨_, get?_received_primitive rfl rfl, rfl⟩

variable [Affinity F]

/-- **The server with the messages of a log** has the last result of each assertion. -/
theorem exists_run_direct {log : CLog} {direct : List (List UInt8)} (h : SentAs F log direct)
    (s : Tadad.State F) :
    ∃ u, Tadad.run s direct = .ok u ∧ ∀ r ∈ log.reports, ∀ st, log.last r.assertNo = some st →
      resultOf log.testId (toString r.assertNo) u.db.assertions = some (.text (statusOf st)) := by
  have hreports := isReport_log (F := F) log.reports log.testId
  obtain ⟨db, hdb⟩ :=
    Tadad.exists_testFinish_messages (isStart_log log) hreports (isFinish_log log) s.db
  obtain ⟨u, hrun, rfl⟩ := Tadad.run_messages (isStart_log log) hreports (isFinish_log log)
    log.testId_ne h.parse hdb
  refine ⟨u, hrun, fun r _ st hst => ?_⟩
  have hlast : log.reports.foldl (CReport.after r.assertNo) none = some st := hst
  rw [Tadad.resultOf_testFinish (isStart_log log) hreports (isFinish_log log) hdb,
    get?_statuses_reports, hlast]
  rfl

end Served

/-! ## When the replay is faithful -/

section Faithful

variable {F : Type} [Json.JsonFloat F] [DecidableEq F] [Calendar] {sha256 : String → String}
  {debug : Bool} {clock : Clock F} {log : CLog} {txt : String}

omit [Calendar] in
theorem statusText_eq_passed_iff {b : Bool} : statusText b = passed ↔ b = true := by
  cases b <;> decide

omit [Calendar] in
/-- The re-encoding loses what is skipped, and nothing else. -/
theorem statusOf_eq_statusText_iff {st : TestResult} :
    statusOf st = statusText (st = .passed) ↔ st ≠ .skipped := by
  cases st <;> decide

/-- **The run of a log**: what the object has for each assertion, and the exit code. -/
theorem exists_run_log (sha256 : String → String) (debug : Bool) (clock : Clock F) (log : CLog) :
    ∃ t reports done,
      Reporting ((log.script debug clock).testId sha256) ((log.script debug clock).startMsg sha256)
        reports done t ∧
      (∀ key ∈ Dict.keys t.assertions, done key) ∧
      (log.script debug clock).run sha256 =
        (exitCode t, t.push ((log.script debug clock).finishMsg sha256)) ∧
      (∀ r ∈ log.reports, ∀ st, log.last r.assertNo = some st →
        ∃ msg, Dict.get? t.assertions (.num r.assertNo) = some msg ∧
          reportOf msg = (toString r.assertNo, statusText (st = .passed))) ∧
      ∃ code, exitCode t = .ok code ∧
        (code = 0 ↔ ∀ r ∈ log.reports, log.last r.assertNo = some .passed) := by
  obtain ⟨t, reports, done, hrep, hdone, hkeys, hreportAt, hrun⟩ :=
    exists_run sha256 (log.script debug clock)
  have hassertion {key : Key F} {msg : Fields F} (hmsg : Dict.get? t.assertions key = some msg) :
      ∃ r ∈ log.reports, key = .num r.assertNo ∧ ∀ st, log.last r.assertNo = some st →
        reportOf msg = (toString r.assertNo, statusText (st = .passed)) := by
    obtain ⟨a, ha, hkey, hreport⟩ := hreportAt key (Dict.mem_keys_of_get? hmsg)
    obtain ⟨r, hr, rfl⟩ := List.mem_map.mp ha
    obtain rfl : Key.num r.assertNo = key := Except.ok.inj hkey
    refine ⟨r, hr, rfl, fun st hst => ?_⟩
    have hlast : log.reports.foldl (CReport.after r.assertNo) none = some st := hst
    have hcalls := statusAfter_calls (F := F) debug log.reports r.assertNo
    rw [hlast] at hcalls
    rw [Test.reportAt, hmsg, Option.map_some] at hreport
    exact (Option.some_inj.mp hreport).trans (congrArg _ hcalls)
  have hget (r : CReport) (hr : r ∈ log.reports) :
      ∃ msg, Dict.get? t.assertions (.num r.assertNo) = some msg ∧
        ∀ st, log.last r.assertNo = some st →
          reportOf msg = (toString r.assertNo, statusText (st = .passed)) := by
    have hmem := (hkeys (.num r.assertNo)).mpr ⟨r.registration, List.mem_map_of_mem hr, rfl⟩
    obtain ⟨msg, hmsg⟩ := Option.isSome_iff_exists.mp (Dict.isSome_get?_iff.mpr hmem)
    obtain ⟨r', -, hkey, hreport⟩ := hassertion hmsg
    have hno : r.assertNo = r'.assertNo := Key.num.inj hkey
    rw [← hno] at hreport
    exact ⟨msg, hmsg, hreport⟩
  refine ⟨t, reports, done, hrep, hdone, hrun, fun r hr st hst => ?_, ?_⟩
  · obtain ⟨msg, hmsg, hreport⟩ := hget r hr
    exact ⟨msg, hmsg, hreport st hst⟩
  · have hstatus : ∀ p ∈ t.assertions, ∃ s, Dict.get? p.2 "test-status" = some (.str s) :=
      fun p hp => (hrep.assertion p.1 p.2 (Dict.get?_of_mem hrep.nodup hp)).status
    have hall : (∀ p ∈ t.assertions, (reportOf p.2).2 = passed) ↔
        ∀ r ∈ log.reports, log.last r.assertNo = some .passed := by
      constructor
      · intro h r hr
        obtain ⟨st, hst⟩ := log.exists_last hr
        obtain ⟨msg, hmsg, hreport⟩ := hget r hr
        have hpassed := h _ (Dict.mem_of_get? hmsg)
        rw [hreport st hst, statusText_eq_passed_iff, decide_eq_true_iff] at hpassed
        rw [hst, hpassed]
      · intro h p hp
        obtain ⟨r, hr, -, hreport⟩ := hassertion (Dict.get?_of_mem hrep.nodup hp)
        rw [hreport .passed (h r hr)]
        rfl
    refine ⟨_, exitCodeOf_eq hstatus, ?_⟩
    split
    · next h => exact iff_of_true rfl (hall.mp h)
    · next h => exact iff_of_false (by decide) fun h' => h (hall.mpr h')

variable [Affinity F]

/-- **The replay is faithful**: the function ends with an exit code, and whatever the messages of
the log are sent as, and in whatever states the servers are, the server of the replay has the same
status of each assertion as the server of the messages, and the exit code is zero exactly if all of
them are `passed`. -/
def Replayed (sha256 : String → String) (debug : Bool) (clock : Clock F) (log : CLog)
    (txt : String) : Prop :=
  ∃ code t id, createSuite sha256 debug clock txt = some (.ok code, t) ∧ t.testId = some id ∧
    ∀ direct, SentAs F log direct → ∀ s s' : Tadad.State F,
      ∃ u u', Tadad.run s direct = .ok u ∧ Tadad.run s' t.sent = .ok u' ∧
        (∀ r ∈ log.reports, resultOf log.testId (toString r.assertNo) u.db.assertions =
          resultOf id (toString r.assertNo) u'.db.assertions) ∧
        (code = 0 ↔ ∀ r ∈ log.reports,
          resultOf id (toString r.assertNo) u'.db.assertions = some (.text passed))

/-- The server of a replay that raises nothing. -/
theorem exists_replayed (clock : Clock F) (hhex : ∀ s, sha256 s ≠ "")
    (htxt : Json.loads txt = .ok (.list (log.messages.map .dict) : Val F))
    (hok : debug → ∀ r ∈ log.reports, r.status = .passed) :
    ∃ code t id, createSuite sha256 debug clock txt = some (.ok code, t) ∧ t.testId = some id ∧
      (code = 0 ↔ ∀ r ∈ log.reports, log.last r.assertNo = some .passed) ∧
      ∀ s : Tadad.State F, ∃ u, Tadad.run s t.sent = .ok u ∧
        ∀ r ∈ log.reports, ∀ st, log.last r.assertNo = some st →
          resultOf id (toString r.assertNo) u.db.assertions =
            some (.text (statusText (st = .passed))) := by
  obtain ⟨t, reports, done, hrep, hdone, hrun, hget, code, hcode, hzero⟩ :=
    exists_run_log sha256 debug clock log
  refine ⟨code, t.push ((log.script debug clock).finishMsg sha256), _, ?_, hrep.testId, hzero,
    fun s => ?_⟩
  · rw [createSuite_eq sha256 debug clock htxt, exec_replay sha256 clock hok, hrun, hcode]
  · obtain ⟨u, hu, hresult⟩ := exists_run_sent hhex hrep hdone hrun s
    rw [hrun] at hu
    refine ⟨u, hu, fun r hr st hst => ?_⟩
    obtain ⟨msg, hmsg, hreport⟩ := hget r hr st hst
    have hmsg' := hresult _ msg hmsg
    rwa [hreport] at hmsg'

/-- What is replayed raises nothing. -/
theorem Replayed.passed (h : Replayed sha256 debug clock log txt)
    (htxt : Json.loads txt = .ok (.list (log.messages.map .dict) : Val F)) (hdebug : debug) :
    ∀ r ∈ log.reports, r.status = .passed := by
  by_contra hfail
  push Not at hfail
  obtain ⟨code, t, -, hcreate, -⟩ := h
  obtain rfl : debug = true := hdebug
  obtain ⟨e, t', hraise⟩ := exists_exec_replay sha256 clock hfail
  rw [createSuite_eq sha256 true clock htxt, hraise] at hcreate
  cases hcreate

/-- **What is replayed has no assertion that is skipped in the end.** -/
theorem Replayed.last_ne_skipped (h : Replayed sha256 debug clock log txt)
    (hhex : ∀ s, sha256 s ≠ "")
    (htxt : Json.loads txt = .ok (.list (log.messages.map .dict) : Val F)) :
    ∀ r ∈ log.reports, log.last r.assertNo ≠ some .skipped := by
  intro r hr hskipped
  obtain ⟨code', t', id', hcreate', hid', -, hreplayed⟩ :=
    exists_replayed clock hhex htxt (h.passed htxt)
  obtain ⟨code, t, id, hcreate, hid, hsame⟩ := h
  obtain ⟨direct, hdirect⟩ := exists_sentAs (F := F) log
  rw [hcreate'] at hcreate
  obtain ⟨hcode, rfl⟩ := Prod.mk.inj (Option.some_inj.mp hcreate)
  obtain rfl := Option.some_inj.mp (hid'.symm.trans hid)
  let s : Tadad.State F := ⟨[], Db.empty F⟩
  obtain ⟨u, u', hu, hu', hstatus, -⟩ := hsame direct hdirect s s
  obtain ⟨v, hv, hlast⟩ := exists_run_direct hdirect s
  obtain ⟨v', hv', hlast'⟩ := hreplayed s
  obtain rfl := Except.ok.inj (hu.symm.trans hv)
  obtain rfl := Except.ok.inj (hu'.symm.trans hv')
  have hcell := hstatus r hr
  rw [hlast r hr _ hskipped, hlast' r hr _ hskipped, Option.some_inj, Cell.text.injEq,
    statusOf_eq_statusText_iff] at hcell
  exact hcell rfl

/-- **When a log is replayed faithfully**: exactly if no assertion is reported as skipped in the
end, and with `TADA.DEBUG` nothing but `passed` is reported. -/
theorem replayed_iff (hhex : ∀ s, sha256 s ≠ "")
    (htxt : Json.loads txt = .ok (.list (log.messages.map .dict) : Val F)) :
    Replayed sha256 debug clock log txt ↔
      (∀ r ∈ log.reports, log.last r.assertNo ≠ some .skipped) ∧
        (debug → ∀ r ∈ log.reports, r.status = .passed) := by
  constructor
  · exact fun h => ⟨h.last_ne_skipped hhex htxt, h.passed htxt⟩
  · rintro ⟨hskipped, hok⟩
    obtain ⟨code, t, id, hcreate, hid, hzero, hreplayed⟩ :=
      exists_replayed clock hhex htxt hok
    refine ⟨code, t, id, hcreate, hid, fun direct hdirect s s' => ?_⟩
    obtain ⟨u, hu, hlast⟩ := exists_run_direct hdirect s
    obtain ⟨u', hu', hlast'⟩ := hreplayed s'
    refine ⟨u, u', hu, hu', fun r hr => ?_, hzero.trans (forall₂_congr fun r hr => ?_)⟩
    · obtain ⟨st, hst⟩ := log.exists_last hr
      have hne : st ≠ .skipped := fun heq => hskipped r hr (heq ▸ hst)
      rw [hlast r hr st hst, hlast' r hr st hst, statusOf_eq_statusText_iff.mpr hne]
    · obtain ⟨st, hst⟩ := log.exists_last hr
      rw [hlast' r hr st hst, hst, Option.some_inj, Option.some_inj, Cell.text.injEq,
        statusText_eq_passed_iff, decide_eq_true_iff]

end Faithful

/-! ## Two logs -/

/-- The text of a log is read back. -/
theorem loads_dumps_log {F : Type} [Json.JsonFloat F] [Calendar] (log : CLog) :
    Json.loads (Json.dumps none (.list (log.messages.map .dict) : Val F)) =
      .ok (.list (log.messages.map .dict) : Val F) := by
  have hkeyed : ∀ v ∈ (log.messages : List (Fields F)).map .dict, Keyed v :=
    List.forall_mem_map.mpr fun m hm => (sendable_log log m hm).keyed
  have hlisted : ∀ m ∈ (log.messages : List (Fields F)), Json.listed (.dict m) = .dict m :=
    fun m hm => by rw [Json.listed, listedFields_messages log m hm]
  rw [Json.loads_dumps (.list hkeyed), Json.listed, Json.listedItems_eq_map, List.map_map]
  exact congrArg (fun vs => Except.ok (Val.list vs)) (List.map_congr_left hlisted)

section Sample

open Json (SampleFloat)

/-- A log with these reports. -/
def sampleLog (reports : List CReport) : CLog where
  testSuite := "OVIS-LIB"
  testType := "FVT"
  testName := "test_ovis_json"
  testUser := "root"
  testDesc := "Test the ovis_json library"
  commitId := "-"
  testId := "abcd"
  testId_ne := by decide
  startTime := ⟨100, by decide, by decide, rfl⟩
  reports := reports
  finishTime := ⟨160, by decide, by decide, rfl⟩

/-- A report of the assertion 0. -/
def sampleReport (cond : String) (status : TestResult) : CReport where
  assertNo := 0
  desc := "parse an integer"
  cond := cond
  status := status

def sampleText (reports : List CReport) : String :=
  Json.dumps none (.list ((sampleLog reports).messages.map .dict) : Val SampleFloat)

def sampleClock : Clock SampleFloat where
  ts := 161
  startTime := sampleReading
  finishTime := sampleReading

theorem sampleSha256_ne (s : String) : sampleSha256 s ≠ "" := by
  rw [sampleSha256]
  split <;> decide

/-- An assertion that is reported twice. -/
theorem replayed_twice :
    Replayed sampleSha256 false sampleClock
      (sampleLog [sampleReport "n == 1" .passed, sampleReport "n == 2" .failed])
      (sampleText [sampleReport "n == 1" .passed, sampleReport "n == 2" .failed]) :=
  (replayed_iff sampleSha256_ne (loads_dumps_log _)).mpr ⟨by decide, fun h => by cases h⟩

/-- An assertion that the C program has not tested. -/
theorem not_replayed_skipped :
    Json.loads (sampleText [sampleReport "none" .skipped]) =
        .ok (.list ((sampleLog [sampleReport "none" .skipped]).messages.map .dict) :
          Val SampleFloat) ∧
      ¬ Replayed sampleSha256 false sampleClock (sampleLog [sampleReport "none" .skipped])
        (sampleText [sampleReport "none" .skipped]) := by
  refine ⟨loads_dumps_log _, fun h => ?_⟩
  exact h.last_ne_skipped sampleSha256_ne (loads_dumps_log _) _ List.mem_cons_self rfl

end Sample

end Tada
end LdmsTest
