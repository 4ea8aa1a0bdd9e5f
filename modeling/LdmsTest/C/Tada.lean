import LdmsTest.Python.JsonAppend

/-!
# `tada.c`

A C test program starts its tests, reports their assertions and finishes them.  Every report is a
message, which is sent to `tadad`, written to a log, or both.  The log is to be an array of the
messages, and `_submit` puts the commas between them by counting the messages of the process.

`T` is the type of the tests of a program, `test t` is what is fixed about one of them, and no two
tests log to the same file.  A failed `assert` ends the process.

* `submit`, `tadaStart`, `tadaAssert`, `tadaFinish`: the functions of the source.
* `logged_run`: the log of a test, from what was counted before it started.
* `log_correct_iff`: when the logs are arrays of the messages, and the other tests write nothing.
-/

namespace LdmsTest
namespace CTada

/-! ## Tests -/

inductive TestResult where
  | passed
  | failed
  | skipped
  deriving DecidableEq

/-- What `TEST_BEGIN` and `TEST_ASSERTION` fix. -/
structure CTest where
  suiteName : String
  testName : String
  testType : String
  testUser : String
  commitId : String
  testDesc : String
  logPath : Option String
  /-- `TADA_TEST_F_SEND_RESULT` -/
  sendResult : Bool
  /-- `TADA_TEST_F_LOG_RESULT` -/
  logResult : Bool
  /-- The descriptions of `test_asserts`, up to the one without a test. -/
  descriptions : List String

/-- What changes in a `test_s`. -/
structure TestState where
  testId : String
  /-- `log_file` is no `NULL` -/
  logFile : Bool
  results : List TestResult

/-- What a program gets from its surroundings. -/
class CHost where
  /-- The digits of the SHA-256 of a text. -/
  sha256 : String → String
  /-- `fopen(path, "w")` succeeds -/
  canOpen : String → Bool

/-! ## Messages -/

def startMsg (test : CTest) (testId : String) (ts : ℕ) : String :=
  "\x7b \"msg-type\" : \"test-start\"," ++
  "\"test-suite\" : \"" ++ test.suiteName ++ "\"," ++
  "\"test-type\" : \"" ++ test.testType ++ "\"," ++
  "\"test-name\" : \"" ++ test.testName ++ "\"," ++
  "\"test-user\" : \"" ++ test.testUser ++ "\"," ++
  "\"test-desc\" : \"" ++ test.testDesc ++ "\"," ++
  "\"commit-id\" : \"" ++ test.commitId ++ "\"," ++
  "\"timestamp\" : " ++ toString ts ++ "," ++
  "\"test-id\" : \"" ++ testId ++ "\"" ++
  "\x7d"

def assertMsg (testId : String) (assertNo : ℕ) (description cond status : String) : String :=
  "\x7b \"msg-type\" : \"assert-status\"," ++
  "\"test-id\" : \"" ++ testId ++ "\"," ++
  "\"assert-no\" : " ++ toString assertNo ++ "," ++
  "\"assert-desc\" : \"" ++ description ++ "\"," ++
  "\"assert-cond\" : \"" ++ cond ++ "\"," ++
  "\"test-status\" : \"" ++ status ++ "\"" ++
  "\x7d"

def finishMsg (testId : String) (ts : ℕ) : String :=
  "\x7b \"msg-type\" : \"test-finish\"," ++
  "\"test-id\" : \"" ++ testId ++ "\"," ++
  "\"timestamp\" : " ++ toString ts ++
  "\x7d"

/-- The text that is hashed into the test-id.  The buffer has room for 1024 bytes, and a test with a
longer text ends in the assertion that the test-start message fits into it. -/
def hashedText (test : CTest) (ts : ℤ) : String :=
  test.suiteName ++ ":" ++ test.testType ++ ":" ++ test.testName ++ ":" ++ test.testUser ++ ":" ++
    test.commitId ++ ":" ++ toString ts

/-- The quotes of a condition, escaped. -/
def escapeQuotes (condStr : String) : String :=
  String.ofList (condStr.toList.flatMap fun c => if c = '"' then ['\\', '"'] else [c])

/-! ## The process -/

/-- The state of a process. -/
structure State (T : Type) where
  /-- The static counter of `_submit`. -/
  lineNo : ℕ
  tests : T → TestState
  /-- What the log file of a test holds, if it has been opened. -/
  logs : T → Option String
  /-- What has been printed, and by which test. -/
  stdout : List (T × String)
  /-- The datagrams of a test. -/
  sent : T → List String
  /-- The messages given to `_submit`. -/
  submitted : T → List String

/-- A call of a program. -/
inductive Op (T : Type) where
  | start : T → ℕ → Op T
  | assert : T → ℕ → Bool → String → Op T
  | finish : T → ℕ → Op T

def Op.test : Op T → T
  | .start t _ => t
  | .assert t _ _ _ => t
  | .finish t _ => t

section Model

variable {T : Type} [DecidableEq T] (test : T → CTest)

/-- A process that has done nothing. -/
def State.init : State T where
  lineNo := 0
  tests t := ⟨"", false, (test t).descriptions.map fun _ => .skipped⟩
  logs _ := none
  stdout := []
  sent _ := []
  submitted _ := []

/-- `fprintf` to the log file of the test, or to `stdout` if it has none. -/
def State.write (s : State T) (t : T) (text : String) : State T :=
  if (s.tests t).logFile then
    { s with logs := Function.update s.logs t ((s.logs t).map (· ++ text)) }
  else { s with stdout := s.stdout ++ [(t, text)] }

/-- The part of `_submit` that sends. -/
def sendMsg (t : T) (msg : String) (s : State T) : State T :=
  if (test t).sendResult then
    { s with sent := Function.update s.sent t (s.sent t ++ [msg]) }
  else s

/-- The part of `_submit` that writes. -/
def logMsg (t : T) (msg : String) (s : State T) : State T :=
  if (test t).logResult then
    let s := if s.lineNo > 0 then s.write t ",\n" else s
    s.write t (msg ++ "\n")
  else s

/-- `_submit` -/
def submit (t : T) (msg : String) (s : State T) : State T :=
  let s := logMsg test t msg (sendMsg test t msg s)
  { s with
    lineNo := s.lineNo + 1
    submitted := Function.update s.submitted t (s.submitted t ++ [msg]) }

/-- A message that fits into its buffer is submitted. -/
def submitChecked (t : T) (msg : String) (s : State T) : Option (State T) :=
  if msg.utf8ByteSize < 1024 then some (submit test t msg s) else none

variable [CHost]

/-- The log file of a test can be opened. -/
def opens (t : T) : Bool :=
  (test t).logPath.any CHost.canOpen

/-- The opening of the log. -/
def openLog (t : T) (s : State T) : State T :=
  if (test t).logResult then
    let s := if opens test t then
        { s with
          tests := Function.update s.tests t { s.tests t with logFile := true }
          logs := Function.update s.logs t (some "") }
      else s
    s.write t "["
  else s

def tadaStart (t : T) (ts : ℕ) (s : State T) : Option (State T) :=
  let s := openLog test t s
  let testId := CHost.sha256 (hashedText (test t) ts)
  let s := { s with tests := Function.update s.tests t { s.tests t with testId := testId } }
  submitChecked test t (startMsg (test t) testId ts) s

/-- **The text that is hashed fits into the buffer** of every test that is started: the test-start
message has all of it. -/
theorem utf8ByteSize_hashedText_lt {t : T} {ts : ℕ} {s s' : State T}
    (h : tadaStart test t ts s = some s') : (hashedText (test t) ts).utf8ByteSize < 1024 := by
  have hle (testId : String) : (hashedText (test t) ts).utf8ByteSize ≤
      (startMsg (test t) testId ts).utf8ByteSize := by
    have hts : toString (ts : ℤ) = toString ts := rfl
    unfold hashedText startMsg
    rw [hts]
    simp only [String.utf8ByteSize_append]
    have hcolon : ":".utf8ByteSize = 1 := by decide
    have hquotes : "\",".utf8ByteSize = 2 := by decide
    omega
  unfold tadaStart submitChecked at h
  dsimp only at h
  split_ifs at h with hfits
  exact (hle _).trans_lt hfits

/-- The loop of `tada_finish` over the assertions from `assertNo` on. -/
def submitSkipped (t : T) : ℕ → List (String × TestResult) → State T → Option (State T)
  | _, [], s => some s
  | assertNo, (description, result) :: rest, s =>
    if result ≠ .skipped then submitSkipped t (assertNo + 1) rest s
    else do
      let msg := assertMsg (s.tests t).testId assertNo description "none" "skipped"
      let s ← submitChecked test t msg s
      submitSkipped t (assertNo + 1) rest s

omit [CHost] in
def tadaFinish (t : T) (ts : ℕ) (s : State T) : Option (State T) := do
  let s ← submitSkipped test t 0 ((test t).descriptions.zip (s.tests t).results) s
  let s ← submitChecked test t (finishMsg (s.tests t).testId ts) s
  some (s.write t "]")

def tadaAssert (t : T) (assertNo : ℕ) (cond : Bool) (condStr : String) (s : State T) :
    Option (State T) := do
  let escStr := escapeQuotes condStr
  -- the buffer of the escaped condition
  guard (escStr.utf8ByteSize < 512)
  let description ← (test t).descriptions[assertNo]?
  let result := if cond then TestResult.passed else .failed
  let results := (s.tests t).results.set assertNo result
  let s := { s with tests := Function.update s.tests t { s.tests t with results := results } }
  submitChecked test t (assertMsg (s.tests t).testId assertNo description escStr
    (if result = .passed then "passed" else "failed")) s

def exec (s : State T) : Op T → Option (State T)
  | .start t ts => tadaStart test t ts s
  | .assert t assertNo cond condStr => tadaAssert test t assertNo cond condStr s
  | .finish t ts => tadaFinish test t ts s

def run (s : State T) (ops : List (Op T)) : Option (State T) :=
  ops.foldlM (exec test) s

end Model

/-! ## What a call leaves alone -/

section Frames

variable {T : Type} [DecidableEq T] {test : T → CTest}

/-- The counter and the output grow, and nothing changes for the tests other than `u`. -/
structure Frame (u : T) (s s' : State T) : Prop where
  lineNo : s.lineNo ≤ s'.lineNo
  stdout : s.stdout <+: s'.stdout
  tests : ∀ t ≠ u, s'.tests t = s.tests t
  logs : ∀ t ≠ u, s'.logs t = s.logs t
  submitted : ∀ t ≠ u, s'.submitted t = s.submitted t

omit [DecidableEq T] in
theorem Frame.refl (u : T) (s : State T) : Frame u s s :=
  ⟨le_rfl, List.prefix_rfl, fun _ _ => rfl, fun _ _ => rfl, fun _ _ => rfl⟩

omit [DecidableEq T] in
theorem Frame.trans {u : T} {s₁ s₂ s₃ : State T} (h : Frame u s₁ s₂) (h' : Frame u s₂ s₃) :
    Frame u s₁ s₃ where
  lineNo := h.lineNo.trans h'.lineNo
  stdout := h.stdout.trans h'.stdout
  tests t ht := (h'.tests t ht).trans (h.tests t ht)
  logs t ht := (h'.logs t ht).trans (h.logs t ht)
  submitted t ht := (h'.submitted t ht).trans (h.submitted t ht)

theorem frame_write (s : State T) (u : T) (text : String) : Frame u s (s.write u text) := by
  unfold State.write
  split
  · exact ⟨le_rfl, List.prefix_rfl, fun _ _ => rfl, fun t ht => Function.update_of_ne ht _ _,
      fun _ _ => rfl⟩
  · exact ⟨le_rfl, List.prefix_append _ _, fun _ _ => rfl, fun _ _ => rfl, fun _ _ => rfl⟩

theorem frame_logMsg (u : T) (msg : String) (s : State T) : Frame u s (logMsg test u msg s) := by
  unfold logMsg
  split
  · refine Frame.trans ?_ (frame_write _ u _)
    split
    · exact frame_write s u _
    · exact .refl u s
  · exact .refl u s

theorem frame_submit (u : T) (msg : String) (s : State T) : Frame u s (submit test u msg s) := by
  have hsent : Frame u s (sendMsg test u msg s) := by
    unfold sendMsg
    split
    · exact ⟨le_rfl, List.prefix_rfl, fun _ _ => rfl, fun _ _ => rfl, fun _ _ => rfl⟩
    · exact .refl u s
  have hlog : Frame u s (logMsg test u msg (sendMsg test u msg s)) :=
    hsent.trans (frame_logMsg u msg _)
  exact ⟨hlog.lineNo.trans (Nat.le_succ _), hlog.stdout, hlog.tests, hlog.logs,
    fun t ht => (Function.update_of_ne ht _ _).trans (hlog.submitted t ht)⟩

theorem submitChecked_eq_some {u : T} {msg : String} {s s' : State T}
    (h : submitChecked test u msg s = some s') : s' = submit test u msg s := by
  rw [submitChecked] at h
  split at h
  · exact (Option.some.inj h).symm
  · cases h

theorem frame_submitChecked {u : T} {msg : String} {s s' : State T}
    (h : submitChecked test u msg s = some s') : Frame u s s' :=
  by
  rw [submitChecked_eq_some h]
  exact frame_submit u msg s

/-- A change of what is known about the test. -/
theorem frame_tests (s : State T) (u : T) (x : TestState) :
    Frame u s { s with tests := Function.update s.tests u x } :=
  ⟨le_rfl, List.prefix_rfl, fun _ ht => Function.update_of_ne ht _ _, fun _ _ => rfl,
    fun _ _ => rfl⟩

theorem frame_submitSkipped {u : T} {assertNo : ℕ} {asserts : List (String × TestResult)}
    {s s' : State T} (h : submitSkipped test u assertNo asserts s = some s') : Frame u s s' := by
  induction asserts generalizing assertNo s with
  | nil =>
    cases h
    exact .refl u _
  | cons a asserts ih =>
    obtain ⟨description, result⟩ := a
    rw [submitSkipped] at h
    split at h
    · exact ih h
    · obtain ⟨s₁, hs₁, h⟩ := Option.bind_eq_some_iff.mp h
      exact (frame_submitChecked hs₁).trans (ih h)

theorem frame_openLog [CHost] (u : T) (s : State T) : Frame u s (openLog test u s) := by
  unfold openLog
  split
  · refine Frame.trans ?_ (frame_write _ u _)
    split
    · exact ⟨le_rfl, List.prefix_rfl, fun _ ht => Function.update_of_ne ht _ _,
        fun _ ht => Function.update_of_ne ht _ _, fun _ _ => rfl⟩
    · exact .refl u s
  · exact .refl u s

/-- **A call** leaves the other tests alone. -/
theorem frame_exec [CHost] {s s' : State T} {op : Op T} (h : exec test s op = some s') :
    Frame op.test s s' := by
  cases op with
  | start u ts =>
    simp only [exec, tadaStart] at h
    exact ((frame_openLog u s).trans (frame_tests _ u _)).trans (frame_submitChecked h)
  | assert u assertNo cond condStr =>
    simp only [exec, tadaAssert] at h
    obtain ⟨-, -, h⟩ := Option.bind_eq_some_iff.mp h
    obtain ⟨description, -, h⟩ := Option.bind_eq_some_iff.mp h
    exact (frame_tests s u _).trans (frame_submitChecked h)
  | finish u ts =>
    simp only [exec, tadaFinish] at h
    obtain ⟨s₁, hs₁, h⟩ := Option.bind_eq_some_iff.mp h
    obtain ⟨s₂, hs₂, h⟩ := Option.bind_eq_some_iff.mp h
    cases h
    exact ((frame_submitSkipped hs₁).trans (frame_submitChecked hs₂)).trans (frame_write s₂ u _)

/-- Every call is counted. -/
theorem lineNo_pos_exec [CHost] {s s' : State T} {op : Op T} (h : exec test s op = some s') :
    0 < s'.lineNo := by
  have hcheck : ∀ {u msg} {s s' : State T}, submitChecked test u msg s = some s' →
      0 < s'.lineNo := by
    intro u msg s s' h
    rw [submitChecked_eq_some h]
    exact Nat.succ_pos _
  cases op with
  | start u ts =>
    simp only [exec, tadaStart] at h
    exact hcheck h
  | assert u assertNo cond condStr =>
    simp only [exec, tadaAssert] at h
    obtain ⟨-, -, h⟩ := Option.bind_eq_some_iff.mp h
    obtain ⟨description, -, h⟩ := Option.bind_eq_some_iff.mp h
    exact hcheck h
  | finish u ts =>
    simp only [exec, tadaFinish] at h
    obtain ⟨s₁, hs₁, h⟩ := Option.bind_eq_some_iff.mp h
    obtain ⟨s₂, hs₂, h⟩ := Option.bind_eq_some_iff.mp h
    cases h
    exact (hcheck hs₂).trans_le (frame_write s₂ u _).lineNo

end Frames

/-! ## The log of a test -/

section Log

variable {T : Type} [DecidableEq T] {test : T → CTest}

/-- The messages on their lines, with a comma in front of every message but perhaps the first. -/
def body (led : Bool) : List String → String
  | [] => ""
  | m :: ms => (if led then ",\n" else "") ++ (m ++ "\n") ++ body true ms

theorem body_append (led : Bool) {ms : List String} (hne : ms ≠ []) (m : String) :
    body led (ms ++ [m]) = body led ms ++ ",\n" ++ (m ++ "\n") := by
  induction ms generalizing led with
  | nil => exact absurd rfl hne
  | cons m' ms ih =>
    rw [List.cons_append, body, body]
    cases ms with
    | nil =>
      simp only [List.nil_append, body, if_true, String.append_empty, String.append_assoc]
    | cons m'' ms => rw [ih true (List.cons_ne_nil _ _)]; simp only [String.append_assoc]

theorem body_true_cons (m : String) (ms : List String) :
    body true (m :: ms) = ",\n" ++ Json.logged (m :: ms) := by
  induction ms generalizing m with
  | nil => simp only [body, if_true, String.append_empty, Json.logged]
  | cons m' ms ih =>
    rw [body, ih m', Json.logged_cons_cons, if_pos rfl]
    simp only [String.append_assoc]

theorem body_false (ms : List String) : body false ms = Json.logged ms := by
  cases ms with
  | nil => rfl
  | cons m ms =>
    cases ms with
    | nil =>
      rw [body, if_neg nofun, String.empty_append, body, String.append_empty, Json.logged]
    | cons m' ms =>
      rw [body, body_true_cons, Json.logged_cons_cons, if_neg nofun, String.empty_append,
        ← String.append_assoc]

/-- A test that writes to its log: the file holds what was submitted, led by a comma exactly if
something had been counted before. -/
structure Logging (led : Bool) (t : T) (s : State T) : Prop where
  logFile : (s.tests t).logFile = true
  log : s.logs t = some ("[" ++ body led (s.submitted t))
  fresh : s.submitted t = [] → led = decide (0 < s.lineNo)
  counted : s.submitted t ≠ [] → 0 < s.lineNo

theorem write_of_logFile {s : State T} {t : T} (h : (s.tests t).logFile = true) (text : String) :
    s.write t text =
      { s with logs := Function.update s.logs t ((s.logs t).map (· ++ text)) } :=
  if_pos h

/-- What `_submit` writes to the log. -/
theorem logMsg_of_logFile {t : T} {s : State T} {text : String} (hlog : (test t).logResult)
    (hfile : (s.tests t).logFile = true) (htext : s.logs t = some text) (msg : String) :
    logMsg test t msg s =
      { s with
        logs := Function.update s.logs t
          (some (text ++ ((if s.lineNo > 0 then ",\n" else "") ++ (msg ++ "\n")))) } := by
  rw [logMsg, if_pos hlog]
  dsimp only
  split
  · have hfile' : ((s.write t ",\n").tests t).logFile = true := by
      rw [write_of_logFile hfile]
      exact hfile
    rw [write_of_logFile hfile', write_of_logFile hfile, htext]
    simp only [Function.update_self, Function.update_idem, Option.map_some, String.append_assoc]
  · rw [write_of_logFile hfile, htext, Option.map_some, String.empty_append]

theorem logging_sendMsg {led : Bool} {t : T} {s : State T} (h : Logging led t s) (msg : String) :
    Logging led t (sendMsg test t msg s) := by
  unfold sendMsg
  split
  · exact ⟨h.logFile, h.log, h.fresh, h.counted⟩
  · exact h

/-- **A message** goes to the log. -/
theorem Logging.submit {led : Bool} {t : T} {s : State T} (h : Logging led t s)
    (hlog : (test t).logResult) (msg : String) : Logging led t (submit test t msg s) := by
  have hsent := @logging_sendMsg _ _ test _ _ _ h msg
  have hlogged := logMsg_of_logFile hlog hsent.logFile hsent.log msg
  unfold CTada.submit
  generalize sendMsg test t msg s = s₀ at *
  rw [hlogged]
  have hsubmitted : Function.update s₀.submitted t (s₀.submitted t ++ [msg]) t =
      s₀.submitted t ++ [msg] := Function.update_self _ _ _
  refine ⟨hsent.logFile, ?_, fun hnil => ?_, fun _ => Nat.succ_pos _⟩
  · dsimp only
    rw [Function.update_self, hsubmitted]
    by_cases hnil : s₀.submitted t = []
    · rw [hnil, hsent.fresh hnil]
      simp [body]
    · rw [body_append led hnil, if_pos (hsent.counted hnil)]
      simp only [String.append_assoc]
  · exact absurd (hsubmitted.symm.trans hnil)
      (List.append_ne_nil_of_right_ne_nil _ (List.cons_ne_nil _ _))

theorem submitted_submit (t : T) (msg : String) (s : State T) :
    (submit test t msg s).submitted t ≠ [] := by
  unfold submit
  dsimp only
  rw [Function.update_self]
  exact List.append_ne_nil_of_right_ne_nil _ (List.cons_ne_nil _ _)

omit [DecidableEq T] in
/-- A call of another test does not matter once something was submitted. -/
theorem Logging.of_frame {led : Bool} {t u : T} {s s' : State T} (h : Logging led t s)
    (hne : s.submitted t ≠ []) (hframe : Frame u s s') (ht : t ≠ u) : Logging led t s' where
  logFile := by rw [hframe.tests t ht, h.logFile]
  log := by rw [hframe.logs t ht, hframe.submitted t ht, h.log]
  fresh hnil := absurd ((hframe.submitted t ht).symm.trans hnil) hne
  counted _ := (h.counted hne).trans_le hframe.lineNo

theorem Logging.submitChecked {led : Bool} {t : T} {s s' : State T} (h : Logging led t s)
    (hlog : (test t).logResult) {msg : String} (hs' : submitChecked test t msg s = some s') :
    Logging led t s' ∧ s'.submitted t ≠ [] := by
  rw [submitChecked_eq_some hs']
  exact ⟨h.submit hlog msg, submitted_submit t msg s⟩

/-- What is known about a test may change, but for its file. -/
theorem Logging.of_tests {led : Bool} {t : T} {s : State T} (h : Logging led t s) {x : TestState}
    (hx : x.logFile = true) : Logging led t { s with tests := Function.update s.tests t x } where
  logFile := (congrArg TestState.logFile (Function.update_self t x s.tests)).trans hx
  log := h.log
  fresh := h.fresh
  counted := h.counted

theorem Logging.submitSkipped {led : Bool} {t : T} {assertNo : ℕ}
    {asserts : List (String × TestResult)} {s s' : State T} (h : Logging led t s)
    (hlog : (test t).logResult) (hs' : submitSkipped test t assertNo asserts s = some s') :
    Logging led t s' := by
  induction asserts generalizing assertNo s with
  | nil =>
    cases hs'
    exact h
  | cons a asserts ih =>
    obtain ⟨description, result⟩ := a
    rw [CTada.submitSkipped] at hs'
    split at hs'
    · exact ih h hs'
    · obtain ⟨s₁, hs₁, hs'⟩ := Option.bind_eq_some_iff.mp hs'
      exact ih (h.submitChecked hlog hs₁).1 hs'

/-- A test that has finished its log. -/
structure Logged (led : Bool) (t : T) (s : State T) : Prop where
  log : s.logs t = some ("[" ++ body led (s.submitted t) ++ "]")
  submitted : s.submitted t ≠ []

variable [CHost]

/-- **Starting** opens the log. -/
theorem logging_start {t : T} {s s' : State T} {ts : ℕ} (hlog : (test t).logResult)
    (hopens : opens test t) (hnew : s.submitted t = []) (h : tadaStart test t ts s = some s') :
    Logging (decide (0 < s.lineNo)) t s' ∧ s'.submitted t ≠ [] := by
  have hopened : openLog test t s =
      { s with
        tests := Function.update s.tests t { s.tests t with logFile := true }
        logs := Function.update s.logs t (some "[") } := by
    unfold openLog
    rw [if_pos hlog, if_pos hopens]
    dsimp only
    rw [write_of_logFile (by simp only [Function.update_self])]
    simp only [Function.update_self, Function.update_idem, Option.map_some]
    rfl
  have hlogging : Logging (decide (0 < s.lineNo)) t (openLog test t s) := by
    rw [hopened]
    refine ⟨by simp only [Function.update_self], ?_, fun _ => rfl, fun hne => absurd hnew hne⟩
    dsimp only
    rw [Function.update_self, hnew]
    rfl
  simp only [tadaStart] at h
  refine Logging.submitChecked ?_ hlog h
  exact hlogging.of_tests hlogging.logFile

omit [CHost] in
theorem Logging.assert {led : Bool} {t : T} {s s' : State T} (h : Logging led t s)
    (hlog : (test t).logResult) {assertNo : ℕ} {cond : Bool} {condStr : String}
    (hs' : tadaAssert test t assertNo cond condStr s = some s') :
    Logging led t s' ∧ s'.submitted t ≠ [] := by
  simp only [tadaAssert] at hs'
  obtain ⟨-, -, hs'⟩ := Option.bind_eq_some_iff.mp hs'
  obtain ⟨description, -, hs'⟩ := Option.bind_eq_some_iff.mp hs'
  refine Logging.submitChecked ?_ hlog hs'
  exact h.of_tests h.logFile

omit [CHost] in
/-- **Finishing** closes the log. -/
theorem Logging.finish {led : Bool} {t : T} {s s' : State T} (h : Logging led t s)
    (hlog : (test t).logResult) {ts : ℕ} (hs' : tadaFinish test t ts s = some s') :
    Logged led t s' := by
  unfold tadaFinish at hs'
  obtain ⟨s₁, hs₁, hs'⟩ := Option.bind_eq_some_iff.mp hs'
  obtain ⟨s₂, hs₂, hs'⟩ := Option.bind_eq_some_iff.mp hs'
  cases hs'
  obtain ⟨hlogging, hne⟩ := (h.submitSkipped hlog hs₁).submitChecked hlog hs₂
  rw [write_of_logFile hlogging.logFile]
  refine ⟨?_, hne⟩
  dsimp only
  rw [Function.update_self, hlogging.log, Option.map_some]

end Log

/-! ## Runs -/

section Runs

variable {T : Type} [DecidableEq T]

def Op.isAssert : Op T → Bool
  | .assert .. => true
  | _ => false

/-- The calls of a test. -/
def calls (t : T) (ops : List (Op T)) : List (Op T) :=
  ops.filter fun op => op.test = t

/-- A test is started, has assertions, and is finished. -/
def Sequenced (t : T) (ops : List (Op T)) : Prop :=
  ∃ ts asserts ts', (∀ op ∈ asserts, op.isAssert) ∧
    calls t ops = .start t ts :: (asserts ++ [.finish t ts'])

/-- Every test of a program is started, has assertions, and is finished. -/
def Program (ops : List (Op T)) : Prop :=
  ∀ t, calls t ops ≠ [] → Sequenced t ops

theorem calls_cons_of_eq {t : T} {op : Op T} (h : op.test = t) (ops : List (Op T)) :
    calls t (op :: ops) = op :: calls t ops :=
  List.filter_cons_of_pos (decide_eq_true h)

theorem calls_cons_of_ne {t : T} {op : Op T} (h : op.test ≠ t) (ops : List (Op T)) :
    calls t (op :: ops) = calls t ops :=
  List.filter_cons_of_neg (by simpa using h)

/-- A call of the test is the next one of its calls. -/
theorem op_eq_of_calls {t : T} {op op' : Op T} {ops ops' : List (Op T)} (h : op.test = t)
    (hcalls : calls t (op :: ops) = op' :: ops') : op = op' ∧ calls t ops = ops' := by
  rw [calls_cons_of_eq h] at hcalls
  exact List.cons.inj hcalls

variable [CHost] {test : T → CTest}

theorem exists_of_run_cons {s s' : State T} {op : Op T} {ops : List (Op T)}
    (h : run test s (op :: ops) = some s') :
    ∃ s₁, exec test s op = some s₁ ∧ run test s₁ ops = some s' := by
  rw [run, List.foldlM_cons] at h
  exact Option.bind_eq_some_iff.mp h

/-- A log that is finished stays as it is. -/
theorem Logged.run {led : Bool} {t : T} {s s' : State T} {ops : List (Op T)} (h : Logged led t s)
    (hcalls : calls t ops = []) (hrun : run test s ops = some s') : Logged led t s' := by
  induction ops generalizing s with
  | nil =>
    cases hrun
    exact h
  | cons op ops ih =>
    obtain ⟨s₁, hexec, hrun⟩ := exists_of_run_cons hrun
    have hne : op.test ≠ t := fun heq => by
      rw [calls_cons_of_eq heq] at hcalls
      cases hcalls
    have hframe := frame_exec hexec
    rw [calls_cons_of_ne hne] at hcalls
    refine ih ⟨?_, ?_⟩ hcalls hrun
    · rw [hframe.logs t hne.symm, hframe.submitted t hne.symm, h.log]
    · rw [hframe.submitted t hne.symm]
      exact h.submitted

/-- **From the start of a test to its end.** -/
theorem Logging.run {led : Bool} {t : T} (hlog : (test t).logResult) {s s' : State T}
    {ops asserts : List (Op T)} {ts : ℕ} (h : Logging led t s) (hne : s.submitted t ≠ [])
    (hasserts : ∀ op ∈ asserts, op.isAssert) (hcalls : calls t ops = asserts ++ [.finish t ts])
    (hrun : run test s ops = some s') : Logged led t s' := by
  induction ops generalizing s asserts with
  | nil => cases (List.append_ne_nil_of_right_ne_nil asserts (List.cons_ne_nil _ _)) hcalls.symm
  | cons op ops ih =>
    obtain ⟨s₁, hexec, hnext⟩ := exists_of_run_cons hrun
    by_cases hop : op.test = t
    · cases asserts with
      | nil =>
        obtain ⟨rfl, hrest⟩ := op_eq_of_calls hop hcalls
        have hfinish : tadaFinish test t ts s = some s₁ := hexec
        exact (h.finish hlog hfinish).run hrest hnext
      | cons a asserts =>
        obtain ⟨rfl, hrest⟩ := op_eq_of_calls hop hcalls
        have ha := hasserts op List.mem_cons_self
        cases op with
        | start u ts => cases ha
        | finish u ts => cases ha
        | assert u assertNo cond condStr =>
          obtain rfl : u = t := hop
          obtain ⟨h₁, hne₁⟩ := h.assert hlog hexec
          exact ih h₁ hne₁ (fun op hmem => hasserts op (List.mem_cons_of_mem _ hmem)) hrest hnext
    · rw [calls_cons_of_ne hop] at hcalls
      have hframe := frame_exec hexec
      have ht : t ≠ op.test := Ne.symm hop
      have hne₁ : s₁.submitted t ≠ [] := by
        rw [hframe.submitted t ht]
        exact hne
      exact ih (h.of_frame hne hframe ht) hne₁ hasserts hcalls hnext

/-- **The log of a test** is led by a comma exactly if the test is not the first of the process. -/
theorem logged_run {t : T} (hlog : (test t).logResult) (hopens : opens test t) {s s' : State T}
    {ops : List (Op T)} (hnew : s.submitted t = []) (hseq : Sequenced t ops)
    (hrun : run test s ops = some s') :
    Logged (decide (0 < s.lineNo ∨ ops.head?.map Op.test ≠ some t)) t s' := by
  obtain ⟨ts, asserts, ts', hasserts, hcalls⟩ := hseq
  induction ops generalizing s with
  | nil => cases hcalls
  | cons op ops ih =>
    obtain ⟨s₁, hexec, hnext⟩ := exists_of_run_cons hrun
    by_cases hop : op.test = t
    · obtain ⟨rfl, hrest⟩ := op_eq_of_calls hop hcalls
      have hstart : tadaStart test t ts s = some s₁ := hexec
      obtain ⟨h, hne⟩ := logging_start hlog hopens hnew hstart
      have hlogged := h.run hlog hne hasserts hrest hnext
      have hled : (0 < s.lineNo ∨ (Op.start t ts :: ops).head?.map Op.test ≠ some t) ↔
          0 < s.lineNo := or_iff_left fun hhead => hhead rfl
      rwa [decide_eq_decide.mpr hled]
    · rw [calls_cons_of_ne hop] at hcalls
      have hframe := frame_exec hexec
      have hlogged := ih ((hframe.submitted t (Ne.symm hop)).trans hnew) hnext hcalls
      have hpos := lineNo_pos_exec hexec
      have hled : (0 < s₁.lineNo ∨ ops.head?.map Op.test ≠ some t) ↔
          0 < s.lineNo ∨ (op :: ops).head?.map Op.test ≠ some t :=
        iff_of_true (.inl hpos) (.inr fun heq => hop (Option.some.inj heq))
      rwa [decide_eq_decide.mpr hled] at hlogged

end Runs

/-! ## Tests without a log -/

section Unlogged

variable {T : Type} [DecidableEq T] {test : T → CTest}

theorem tests_write (s : State T) (t : T) (text : String) : (s.write t text).tests = s.tests := by
  unfold State.write
  split <;> rfl

theorem tests_submit (t : T) (msg : String) (s : State T) :
    (submit test t msg s).tests = s.tests := by
  have hsend : (sendMsg test t msg s).tests = s.tests := by
    unfold sendMsg
    split <;> rfl
  have hlog : ∀ s₀ : State T, (logMsg test t msg s₀).tests = s₀.tests := by
    intro s₀
    unfold logMsg
    split
    · dsimp only
      rw [tests_write]
      split
      · exact tests_write s₀ t _
      · rfl
    · rfl
  exact (hlog _).trans hsend

theorem tests_submitChecked {t : T} {msg : String} {s s' : State T}
    (h : submitChecked test t msg s = some s') : s'.tests = s.tests := by
  rw [submitChecked_eq_some h, tests_submit]

theorem tests_submitSkipped {t : T} {assertNo : ℕ} {asserts : List (String × TestResult)}
    {s s' : State T} (h : submitSkipped test t assertNo asserts s = some s') :
    s'.tests = s.tests := by
  induction asserts generalizing assertNo s with
  | nil =>
    cases h
    rfl
  | cons a asserts ih =>
    obtain ⟨description, result⟩ := a
    rw [submitSkipped] at h
    split at h
    · exact ih h
    · obtain ⟨s₁, hs₁, h⟩ := Option.bind_eq_some_iff.mp h
      exact (ih h).trans (tests_submitChecked hs₁)

/-- The end of the log goes to `stdout` when there is no log file. -/
theorem mem_stdout_finish {t : T} {ts : ℕ} {s s' : State T} (hfile : (s.tests t).logFile = false)
    (h : tadaFinish test t ts s = some s') : (t, "]") ∈ s'.stdout := by
  unfold tadaFinish at h
  obtain ⟨s₁, hs₁, h⟩ := Option.bind_eq_some_iff.mp h
  obtain ⟨s₂, hs₂, h⟩ := Option.bind_eq_some_iff.mp h
  cases h
  have htests : s₂.tests = s.tests := (tests_submitChecked hs₂).trans (tests_submitSkipped hs₁)
  rw [State.write, if_neg (by rw [htests, hfile]; exact Bool.false_ne_true)]
  exact List.mem_append_right _ List.mem_cons_self

variable [CHost]

/-- No call gives a log file to a test without the flag. -/
theorem logFile_exec {t : T} (hlog : ¬ (test t).logResult) {s s' : State T} {op : Op T}
    (h : exec test s op = some s') : (s'.tests t).logFile = (s.tests t).logFile := by
  by_cases ht : t = op.test
  · cases op with
    | start u ts =>
      obtain rfl : t = u := ht
      simp only [exec, tadaStart] at h
      rw [tests_submitChecked h]
      dsimp only
      rw [Function.update_self, openLog, if_neg hlog]
    | assert u assertNo cond condStr =>
      obtain rfl : t = u := ht
      simp only [exec, tadaAssert] at h
      obtain ⟨-, -, h⟩ := Option.bind_eq_some_iff.mp h
      obtain ⟨description, -, h⟩ := Option.bind_eq_some_iff.mp h
      rw [tests_submitChecked h]
      dsimp only
      rw [Function.update_self]
    | finish u ts =>
      simp only [exec, tadaFinish] at h
      obtain ⟨s₁, hs₁, h⟩ := Option.bind_eq_some_iff.mp h
      obtain ⟨s₂, hs₂, h⟩ := Option.bind_eq_some_iff.mp h
      cases h
      rw [tests_write, tests_submitChecked hs₂, tests_submitSkipped hs₁]
  · rw [(frame_exec h).tests t ht]

/-- What is printed stays. -/
theorem stdout_run {s s' : State T} {ops : List (Op T)} (h : run test s ops = some s') :
    s.stdout <+: s'.stdout := by
  induction ops generalizing s with
  | nil =>
    cases h
    exact List.prefix_rfl
  | cons op ops ih =>
    obtain ⟨s₁, hexec, hnext⟩ := exists_of_run_cons h
    exact (frame_exec hexec).stdout.trans (ih hnext)

/-- **A test without the flag** prints the end of a log. -/
theorem mem_stdout_run {t : T} (hlog : ¬ (test t).logResult) {s s' : State T} {ops : List (Op T)}
    {ts : ℕ} (hfile : (s.tests t).logFile = false) (hmem : .finish t ts ∈ ops)
    (h : run test s ops = some s') : (t, "]") ∈ s'.stdout := by
  induction ops generalizing s with
  | nil => cases hmem
  | cons op ops ih =>
    obtain ⟨s₁, hexec, hnext⟩ := exists_of_run_cons h
    rcases List.mem_cons.mp hmem with rfl | hmem
    · have hfinish : tadaFinish test t ts s = some s₁ := hexec
      exact (stdout_run hnext).subset (mem_stdout_finish hfile hfinish)
    · exact ih ((logFile_exec hlog hexec).trans hfile) hmem hnext

end Unlogged

/-! ## When the logs are correct -/

section Correct

variable {T F : Type} [DecidableEq T] [Json.JsonFloat F] [CHost] {test : T → CTest}

/-- The log of a test is an array of what it has submitted. -/
def LogCorrect (F : Type) [Json.JsonFloat F] (t : T) (s : State T) : Prop :=
  ∃ text, s.logs t = some text ∧ ∃ vs : List (Val F),
    List.Forall₂ (fun m v => Json.loads m = .ok v) (s.submitted t) vs ∧
      Json.loads text = .ok (.list vs)

/-- The tests with a log of their own have written an array of what they have submitted, and the
tests without the flag have written nothing. -/
def Correct (F : Type) [Json.JsonFloat F] (test : T → CTest) (ops : List (Op T)) (s : State T) :
    Prop :=
  (∀ t, calls t ops ≠ [] → (test t).logResult → opens test t → LogCorrect F t s) ∧
    ∀ t, calls t ops ≠ [] → ¬ (test t).logResult → s.logs t = none ∧ ∀ w ∈ s.stdout, w.1 ≠ t

omit [DecidableEq T] [CHost] in
theorem Logged.logCorrect {t : T} {s : State T} (h : Logged false t s)
    (hvalid : ∀ m ∈ s.submitted t, ∃ v : Val F, Json.loads m = .ok v) : LogCorrect F t s := by
  obtain ⟨vs, hvs⟩ := exists_forall₂ hvalid
  refine ⟨_, h.log, vs, hvs, ?_⟩
  rw [body_false]
  exact Json.loads_logged hvs

omit [DecidableEq T] [CHost] in
theorem Logged.not_logCorrect {t : T} {s : State T} (h : Logged true t s) :
    ¬ LogCorrect F t s := by
  rintro ⟨text, htext, vs, -, hloads⟩
  rw [h.log] at htext
  obtain rfl := Option.some.inj htext
  obtain ⟨m, ms, hms⟩ := List.exists_cons_of_ne_nil h.submitted
  rw [hms, body_true_cons] at hloads
  refine Json.not_loads_leading_comma (Json.logged (m :: ms) ++ "]") (.list vs) ?_
  rw [← hloads]
  simp only [← String.append_assoc]
  rfl

/-- The log of a test is correct exactly if the test is the first of the process. -/
theorem logCorrect_iff {t : T} (hlog : (test t).logResult) (hopens : opens test t) {s : State T}
    {ops : List (Op T)} (hseq : Sequenced t ops) (hrun : run test (State.init test) ops = some s)
    (hvalid : ∀ m ∈ s.submitted t, ∃ v : Val F, Json.loads m = .ok v) :
    LogCorrect F t s ↔ ops.head?.map Op.test = some t := by
  have hlogged := logged_run hlog hopens rfl hseq hrun
  constructor
  · intro hcorrect
    by_contra hhead
    rw [decide_eq_true (.inr hhead)] at hlogged
    exact hlogged.not_logCorrect hcorrect
  · intro hhead
    have hfirst : ¬ (0 < (State.init test).lineNo ∨ ops.head?.map Op.test ≠ some t) :=
      fun h => h.elim (Nat.lt_irrefl 0) fun hne => hne hhead
    rw [decide_eq_false hfirst] at hlogged
    exact hlogged.logCorrect hvalid

/-- A test of a program without the flag has printed something. -/
theorem mem_stdout_of_sequenced {t : T} (hlog : ¬ (test t).logResult) {s : State T}
    {ops : List (Op T)} (hseq : Sequenced t ops) (hrun : run test (State.init test) ops = some s) :
    (t, "]") ∈ s.stdout := by
  obtain ⟨ts, asserts, ts', -, hcalls⟩ := hseq
  have hmem : Op.finish t ts' ∈ calls t ops := by
    rw [hcalls]
    exact List.mem_cons_of_mem _ (List.mem_append_right _ List.mem_cons_self)
  exact mem_stdout_run hlog rfl (List.mem_of_mem_filter hmem) hrun

/-- **When the logs are correct.**  At the end of every program whose messages are values, the
logs are arrays of the messages, and the tests without the flag have written nothing, exactly if
there is no test without the flag and every test with a log of its own is the first of the
process. -/
theorem log_correct_iff {ops : List (Op T)} (hprogram : Program ops) {s : State T}
    (hrun : run test (State.init test) ops = some s)
    (hvalid : ∀ t, ∀ m ∈ s.submitted t, ∃ v : Val F, Json.loads m = .ok v) :
    Correct F test ops s ↔ ∀ t, calls t ops ≠ [] →
      (test t).logResult ∧ (opens test t → ops.head?.map Op.test = some t) := by
  constructor
  · rintro ⟨hlogged, hunlogged⟩ t ht
    have hlog : (test t).logResult := by
      by_contra hlog
      exact (hunlogged t ht hlog).2 _ (mem_stdout_of_sequenced hlog (hprogram t ht) hrun) rfl
    exact ⟨hlog, fun hopens => (logCorrect_iff hlog hopens (hprogram t ht) hrun (hvalid t)).mp
      (hlogged t ht hlog hopens)⟩
  · intro h
    refine ⟨fun t ht hlog hopens => ?_, fun t ht hlog => absurd (h t ht).1 hlog⟩
    exact (logCorrect_iff hlog hopens (hprogram t ht) hrun (hvalid t)).mpr ((h t ht).2 hopens)

end Correct

/-! ## Two tests -/

instance : CHost where
  sha256 _ := "9f86d081"
  canOpen _ := true

/-- Two tests with logs of their own. -/
def sampleTest (t : Bool) : CTest where
  suiteName := "s"
  testName := if t then "b" else "a"
  testType := "FVT"
  testUser := "u"
  commitId := "0c1"
  testDesc := "d"
  logPath := some (if t then "b.log" else "a.log")
  sendResult := false
  logResult := true
  descriptions := ["up"]

def sampleOps (t : Bool) : List (Op Bool) :=
  [.start t 1, .assert t 0 true "n == 1", .finish t 2]

def sampleMsgs (t : Bool) : List String :=
  [startMsg (sampleTest t) "9f86d081" 1, assertMsg "9f86d081" 0 "up" "n == 1" "passed",
    finishMsg "9f86d081" 2]

/-- A text that is read as a value. -/
def readable (cs : List Char) : Bool :=
  (Json.loadsChars cs : Except _ (Val Json.SampleFloat)).toBool

theorem exists_loads_of_readable {m : String} (h : readable m.toList) :
    ∃ v : Val Json.SampleFloat, Json.loads m = .ok v := by
  rw [readable, ← Json.loads_eq_loadsChars] at h
  cases hloads : (Json.loads m : Except _ (Val Json.SampleFloat)) with
  | error e =>
    rw [hloads] at h
    cases h
  | ok v => exact ⟨v, rfl⟩

theorem exists_loads_sampleMsgs (t : Bool) :
    ∀ m ∈ sampleMsgs t, ∃ v : Val Json.SampleFloat, Json.loads m = .ok v := by
  have hstart : ∀ t, readable (startMsg (sampleTest t) "9f86d081" 1).toList := by
    unfold startMsg
    simp only [String.toList_append]
    decide +kernel
  have hassert : readable (assertMsg "9f86d081" 0 "up" "n == 1" "passed").toList := by
    unfold assertMsg
    simp only [String.toList_append]
    decide +kernel
  have hfinish : readable (finishMsg "9f86d081" 2).toList := by
    unfold finishMsg
    simp only [String.toList_append]
    decide +kernel
  intro m hm
  simp only [sampleMsgs, List.mem_cons, List.not_mem_nil, or_false] at hm
  rcases hm with rfl | rfl | rfl
  · exact exists_loads_of_readable (hstart t)
  · exact exists_loads_of_readable hassert
  · exact exists_loads_of_readable hfinish

/-- A run that has submitted the messages of the samples. -/
theorem exists_run_of_submitted {ops : List (Op Bool)} {first second : List String}
    (h : (run sampleTest (State.init sampleTest) ops).map
      (fun s => (s.submitted false, s.submitted true)) = some (first, second))
    (hfirst : first ⊆ sampleMsgs false) (hsecond : second ⊆ sampleMsgs true) :
    ∃ s, run sampleTest (State.init sampleTest) ops = some s ∧
      ∀ t, ∀ m ∈ s.submitted t, ∃ v : Val Json.SampleFloat, Json.loads m = .ok v := by
  obtain ⟨s, hs, hsubmitted⟩ := Option.map_eq_some_iff.mp h
  obtain ⟨rfl, rfl⟩ := Prod.mk.inj hsubmitted
  refine ⟨s, hs, fun t m hm => exists_loads_sampleMsgs t m ?_⟩
  cases t with
  | false => exact hfirst hm
  | true => exact hsecond hm

theorem sequenced_sampleOps (t : Bool) {ops : List (Op Bool)} (h : calls t ops = sampleOps t) :
    Sequenced t ops :=
  ⟨1, [.assert t 0 true "n == 1"], 2, by simp [Op.isAssert], h⟩

theorem log_correct_sampleOps :
    ∃ s, run sampleTest (State.init sampleTest) (sampleOps false) = some s ∧
      (Correct Json.SampleFloat sampleTest (sampleOps false) s ↔
        ∀ t, calls t (sampleOps false) ≠ [] → (sampleTest t).logResult ∧
          (opens sampleTest t → (sampleOps false).head?.map Op.test = some t)) := by
  have hsubmitted : (run sampleTest (State.init sampleTest) (sampleOps false)).map
      (fun s => (s.submitted false, s.submitted true)) = some (sampleMsgs false, []) := by
    decide +kernel
  obtain ⟨s, hrun, hvalid⟩ :=
    exists_run_of_submitted hsubmitted (List.Subset.refl _) (List.nil_subset _)
  refine ⟨s, hrun, log_correct_iff (fun t ht => ?_) hrun hvalid⟩
  cases t with
  | false => exact sequenced_sampleOps false rfl
  | true => exact absurd rfl ht

/-- The log of a second test starts with a comma. -/
theorem not_correct_second :
    ∃ s, run sampleTest (State.init sampleTest) (sampleOps false ++ sampleOps true) = some s ∧
      Program (sampleOps false ++ sampleOps true) ∧
      (∀ t, ∀ m ∈ s.submitted t, ∃ v : Val Json.SampleFloat, Json.loads m = .ok v) ∧
      ¬ Correct Json.SampleFloat sampleTest (sampleOps false ++ sampleOps true) s := by
  have hsubmitted : (run sampleTest (State.init sampleTest) (sampleOps false ++ sampleOps true)).map
      (fun s => (s.submitted false, s.submitted true)) =
        some (sampleMsgs false, sampleMsgs true) := by
    decide +kernel
  obtain ⟨s, hrun, hvalid⟩ :=
    exists_run_of_submitted hsubmitted (List.Subset.refl _) (List.Subset.refl _)
  have hprogram : Program (sampleOps false ++ sampleOps true) := by
    intro t _
    cases t with
    | false => exact sequenced_sampleOps false rfl
    | true => exact sequenced_sampleOps true rfl
  refine ⟨s, hrun, hprogram, hvalid, fun hcorrect => ?_⟩
  have hlog := hcorrect.1 true (List.cons_ne_nil _ _) rfl rfl
  cases (logCorrect_iff rfl rfl (hprogram true (List.cons_ne_nil _ _)) hrun (hvalid true)).mp hlog

end CTada
end LdmsTest
