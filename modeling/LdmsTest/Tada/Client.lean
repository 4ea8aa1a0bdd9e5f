import LdmsTest.Python.Builtins
import LdmsTest.Python.Codec

/-!
# `TADA.Test`

A test script registers its assertions with a `Test` object, starts the test, reports the
assertions it tests, and finishes the test.  Each report is a datagram to `tadad`.

`Client F` is a computation on a `Test` object.  What it has done to the object stays when it
raises.

* `Test.init`, `addAssertion`, `start`, `assertTest`, `finish`, `exitCode`: the methods of the
  source.
* `Test.statusOf`: the status that the object has for an assertion.
-/

namespace LdmsTest
namespace Tada

open Val (Fields keyOf)

/-! ## Status -/

/-- `Test.PASSED` -/
def passed : String := "passed"

/-- `Test.FAILED` -/
def failed : String := "failed"

/-- `Test.SKIPPED` -/
def skipped : String := "skipped"

/-- The status of a condition that was tested. -/
def statusText (cond : Bool) : String :=
  if cond then passed else failed

/-- `v == s` -/
def isStr {F : Type} (v : Val F) (s : String) : Bool :=
  match v with
  | .str t => t == s
  | _ => false

/-! ## The object -/

/-- A `TADA.Test` object, and the datagrams it has sent. -/
structure Test (F : Type) where
  testSuite : String
  testType : String
  testName : String
  testDesc : String
  testUser : String
  commitId : String
  /-- Given by `start`. -/
  testId : Option String
  assertions : Dict (Key F) (Fields F)
  sent : List (List UInt8)

/-- A computation on a `Test` object. -/
abbrev Client (F : Type) := ExceptT PyError (StateM (Test F))

namespace Client

variable {F : Type} {α β : Type}

/-- What a computation ends with, and the object after it. -/
def exec (x : Client F α) (t : Test F) : Except PyError α × Test F :=
  StateT.run (ExceptT.run x) t

theorem exec_get (t : Test F) : exec get t = (.ok t, t) := rfl

theorem exec_modify (f : Test F → Test F) (t : Test F) :
    exec (modify f : Client F Unit) t = (.ok (), f t) := rfl

theorem exec_liftExcept (x : Except PyError α) (t : Test F) :
    exec (liftExcept x : Client F α) t = (x, t) := by
  cases x with
  | error e => rfl
  | ok a => rfl

theorem exec_liftM (x : Except PyError α) (t : Test F) :
    exec (liftM x : Client F α) t = (x, t) := by
  cases x with
  | error e => rfl
  | ok a => rfl

/-- A computation that does not raise goes on. -/
theorem exec_bind_ok {x : Client F α} {f : α → Client F β} {t t' : Test F} {a : α}
    (h : exec x t = (.ok a, t')) : exec (x >>= f) t = exec (f a) t' := by
  show exec (ExceptT.mk (x.run >>= ExceptT.bindCont f)) t = _
  have hrun : StateT.run (ExceptT.run x) t = (.ok a, t') := h
  show (StateT.run (ExceptT.run x >>= ExceptT.bindCont f) t) = _
  rw [StateT.run_bind, hrun]
  rfl

/-- A computation that raises ends there. -/
theorem exec_bind_error {x : Client F α} {f : α → Client F β} {t t' : Test F} {e : PyError}
    (h : exec x t = (.error e, t')) : exec (x >>= f) t = (.error e, t') := by
  have hrun : StateT.run (ExceptT.run x) t = (.error e, t') := h
  show (StateT.run (ExceptT.run x >>= ExceptT.bindCont f) t) = _
  rw [StateT.run_bind, hrun]
  rfl

/-- A handler has nothing to do with a computation that does not raise. -/
theorem exec_tryCatch_ok {x : Client F α} {f : PyError → Client F α} {t t' : Test F} {a : α}
    (h : exec x t = (.ok a, t')) : exec (tryCatch x f) t = (.ok a, t') := by
  have hrun : StateT.run (ExceptT.run x) t = (.ok a, t') := h
  show StateT.run (ExceptT.run (tryCatch x f)) t = _
  rw [ExceptT.run_tryCatch, StateT.run_bind, hrun]
  rfl

/-- What is raised is handled. -/
theorem exec_tryCatch_error {x : Client F α} {f : PyError → Client F α} {t t' : Test F}
    {e : PyError} (h : exec x t = (.error e, t')) : exec (tryCatch x f) t = exec (f e) t' := by
  have hrun : StateT.run (ExceptT.run x) t = (.error e, t') := h
  show StateT.run (ExceptT.run (tryCatch x f)) t = _
  rw [ExceptT.run_tryCatch, StateT.run_bind, hrun]
  rfl

/-- An item that is there is read. -/
theorem exec_getItem_bind [Json.JsonFloat F] {msg : Fields F} {k : String} {v : Val F}
    (h : Dict.get? msg k = some v) (f : Val F → Client F β) (t : Test F) :
    exec (liftM (Val.getItem msg k) >>= f) t = exec (f v) t := by
  rw [Val.getItem_eq_ok_iff.mpr h]
  exact exec_bind_ok (exec_liftM (.ok v) t)

theorem exec_discard_ok {x : Client F α} {t t' : Test F} {a : α} (h : exec x t = (.ok a, t')) :
    exec (discard x) t = (.ok (), t') :=
  exec_bind_ok (f := fun _ => pure ()) h

end Client

namespace Test

variable {F : Type}

/-- `Test(test_suite, test_type, test_name, test_desc, test_user=test_user,
commit_id=commit_id)` -/
def init (testSuite testType testName : String) (testDesc : Option String)
    (testUser commitId : String) : Test F where
  testSuite := testSuite
  testType := testType
  testName := testName
  testDesc :=
    match testDesc with
    | some desc => if desc = "" then testName else desc
    | none => testName
  testUser := testUser
  commitId := commitId
  testId := none
  assertions := []
  sent := []

end Test

section Client

variable {F : Type} [Json.JsonFloat F]

/-- `self._send(msg)`, with `msg` as it is afterwards -/
def send (msg : Fields F) : Client F (Fields F) := do
  match (← get).testId with
  | none => throw ⟨.attributeError, "'Test' object has no attribute 'test_id'"⟩
  | some id =>
    let msg := Dict.set msg "test-id" (.str id)
    modify fun t => { t with sent := t.sent ++ [Codec.encode (Json.dumps none (.dict msg))] }
    pure msg

/-- The text that is hashed into the test-id. -/
def hashedText (t : Test F) (ts : ℤ) : String :=
  t.testSuite ++ ":" ++ t.testType ++ ":" ++ t.testName ++ ":" ++ t.testUser ++ ":" ++
    t.commitId ++ ":" ++ toString ts

/-- The message of `start`. -/
def startMsg (t : Test F) (id : String) (now : F) : Fields F :=
  [("msg-type", .str "test-start"),
    ("test-suite", .str t.testSuite),
    ("test-type", .str t.testType),
    ("test-name", .str t.testName),
    ("test-user", .str t.testUser),
    ("commit-id", .str t.commitId),
    ("timestamp", .float now),
    ("test-id", .str id),
    ("test-desc", .str t.testDesc)]

/-- `self.start()`, when `int(time.time())` is `ts` and `time.time()` is `now` after that, and
`sha256` gives the hexadecimal digest of a text -/
def start (sha256 : String → String) (ts : ℤ) (now : F) : Client F Unit := do
  let id := sha256 (hashedText (← get) ts)
  modify fun t => { t with testId := some id }
  let msg := startMsg (← get) id now
  discard (send msg)

/-- The message of an assertion that is not tested yet. -/
def assertionMsg (number desc : Val F) : Fields F :=
  [("msg-type", .str "assert-status"),
    ("assert-no", number),
    ("assert-desc", desc),
    ("assert-cond", .str "none"),
    ("test-status", .str skipped)]

section Keys

variable [DecidableEq F]

/-- `self.assertions[key] = msg` -/
def Test.setAssertion (t : Test F) (key : Key F) (msg : Fields F) : Test F :=
  { t with assertions := Dict.set t.assertions key msg }

/-- `self.add_assertion(number, desc)` -/
def addAssertion (number desc : Val F) : Client F Unit := do
  let key ← keyOf number
  modify fun t => t.setAssertion key (assertionMsg number desc)

/-- `raise AssertionException(desc + ", " + cond_str + ": FAILED")`, for a condition that failed
with `TADA.DEBUG` -/
def debugError (debug cond : Bool) (desc : String) (condStr : Val F) : Except PyError Unit :=
  if cond || !debug then .ok ()
  else
    match condStr with
    | .str s => .error ⟨.assertionException, desc ++ ", " ++ s ++ ": FAILED"⟩
    | v => .error ⟨.typeError, "can only concatenate str (not \"" ++ v.typeName ++ "\") to str"⟩

/-- `self.assert_test(assert_no, cond, cond_str)`, with `TADA.DEBUG` -/
def assertTest (debug : Bool) (assertNo : Val F) (cond : Bool) (condStr : Val F) :
    Client F Unit := do
  let key ← keyOf assertNo
  match Dict.get? (← get).assertions key with
  | none => throw ⟨.keyError, assertNo.repr⟩
  | some msg =>
    let msg := Dict.set (Dict.set msg "assert-cond" condStr) "test-status" (.str (statusText cond))
    modify fun t => t.setAssertion key msg
    let msg ← send msg
    modify fun t => t.setAssertion key msg
    liftExcept (debugError debug cond (← get).testDesc condStr)

/-- The loop of `finish`, which reports the assertions that were not tested. -/
def reportSkipped : List (Key F × Fields F) → Client F Unit
  | [] => pure ()
  | (key, msg) :: items => do
    let status ← Val.getItem msg "test-status"
    if isStr status skipped then
      let msg ← send msg
      modify fun t => t.setAssertion key msg
    reportSkipped items

/-- The message of `finish`. -/
def finishMsg (id : String) (now : F) : Fields F :=
  [("msg-type", .str "test-finish"),
    ("test-id", .str id),
    ("timestamp", .float now)]

/-- The loop of `exit_code`. -/
def exitCodeOf : List (Key F × Fields F) → Except PyError ℤ
  | [] => pure 0
  | (_, msg) :: items => do
    let status ← Val.getItem msg "test-status"
    if !isStr status passed then pure (-1) else exitCodeOf items

/-- `self.exit_code()` -/
def exitCode (t : Test F) : Except PyError ℤ :=
  exitCodeOf t.assertions

/-- `self.finish()`, when `time.time()` is `now` -/
def finish (now : F) : Client F ℤ := do
  reportSkipped (← get).assertions
  match (← get).testId with
  | none => throw ⟨.attributeError, "'Test' object has no attribute 'test_id'"⟩
  | some id =>
    discard (send (finishMsg id now))
    exitCode (← get)

/-- The status that the object has for an assertion. -/
def Test.statusOf (t : Test F) (number : Val F) : Option (Val F) :=
  match keyOf number with
  | .ok key => (Dict.get? t.assertions key).bind fun msg => Dict.get? msg "test-status"
  | .error _ => none

/-! ## What the methods do -/

/-- The object after it has sent a message. -/
def Test.push (t : Test F) (msg : Fields F) : Test F :=
  { t with sent := t.sent ++ [Codec.encode (Json.dumps none (.dict msg))] }

/-- The message of an assertion that was tested. -/
def testedMsg (msg : Fields F) (id : String) (cond : Bool) (condStr : Val F) : Fields F :=
  Dict.set (Dict.set (Dict.set msg "assert-cond" condStr) "test-status" (.str (statusText cond)))
    "test-id" (.str id)

omit [DecidableEq F] in
theorem exec_send {t : Test F} {id : String} (hid : t.testId = some id) (msg : Fields F) :
    (send msg).exec t =
      (.ok (Dict.set msg "test-id" (.str id)), t.push (Dict.set msg "test-id" (.str id))) := by
  rw [send, Client.exec_bind_ok (Client.exec_get t), hid]
  rfl

omit [DecidableEq F] in
/-- **What `start` does**: it makes the test-id and sends the message. -/
theorem exec_start (sha256 : String → String) (ts : ℤ) (now : F) (t : Test F) :
    (start sha256 ts now).exec t =
      (.ok (), ({ t with testId := some (sha256 (hashedText t ts)) } : Test F).push
        (startMsg t (sha256 (hashedText t ts)) now)) := rfl

/-- **What `add_assertion` does**. -/
theorem exec_addAssertion (t : Test F) {number desc : Val F} {key : Key F}
    (hkey : keyOf number = .ok key) :
    (addAssertion number desc).exec t = (.ok (), t.setAssertion key (assertionMsg number desc)) := by
  rw [addAssertion, hkey]
  exact (Client.exec_bind_ok (Client.exec_liftExcept (.ok key) t)).trans rfl

theorem Test.setAssertion_push_setAssertion (t : Test F) (key : Key F) (msg msg' : Fields F) :
    ((t.setAssertion key msg).push msg').setAssertion key msg' =
      (t.setAssertion key msg').push msg' := by
  unfold setAssertion push
  rw [Dict.set_set]

omit [Json.JsonFloat F] [DecidableEq F] in
theorem debugError_of_cond (debug : Bool) (desc : String) (condStr : Val F) :
    debugError debug true desc condStr = .ok () := rfl

omit [Json.JsonFloat F] [DecidableEq F] in
theorem debugError_of_not_debug (cond : Bool) (desc : String) (condStr : Val F) :
    debugError false cond desc condStr = .ok () :=
  if_pos (Bool.or_true cond)

omit [Json.JsonFloat F] [DecidableEq F] in
theorem exists_debugError (desc : String) (condStr : Val F) :
    ∃ e, debugError true false desc condStr = .error e := by
  cases condStr with
  | str s => exact ⟨_, rfl⟩
  | none => exact ⟨_, rfl⟩
  | bool b => exact ⟨_, rfl⟩
  | int n => exact ⟨_, rfl⟩
  | float x => exact ⟨_, rfl⟩
  | list xs => exact ⟨_, rfl⟩
  | tuple xs => exact ⟨_, rfl⟩
  | dict d => exact ⟨_, rfl⟩

/-- **What `assert_test` does**: it records the status and sends the message. -/
theorem exec_assertTest {t : Test F} {id : String} (hid : t.testId = some id) {no : Val F}
    {key : Key F} (hkey : keyOf no = .ok key) {msg : Fields F}
    (hmsg : Dict.get? t.assertions key = some msg) (debug cond : Bool) (condStr : Val F) :
    (assertTest debug no cond condStr).exec t =
      (debugError debug cond t.testDesc condStr,
        (t.setAssertion key (testedMsg msg id cond condStr)).push
          (testedMsg msg id cond condStr)) := by
  have hsend (m : Fields F) := exec_send (t := t.setAssertion key m) hid m
  rw [assertTest, hkey]
  refine (Client.exec_bind_ok (Client.exec_liftExcept (.ok key) t)).trans ?_
  refine (Client.exec_bind_ok (Client.exec_get t)).trans ?_
  rw [hmsg]
  refine (Client.exec_bind_ok (Client.exec_modify _ t)).trans ?_
  refine (Client.exec_bind_ok (hsend _)).trans ?_
  refine (Client.exec_bind_ok (Client.exec_modify _ _)).trans ?_
  rw [Test.setAssertion_push_setAssertion]
  refine (Client.exec_bind_ok (Client.exec_get _)).trans ?_
  exact Client.exec_liftExcept _ _

end Keys

end Client
end Tada
end LdmsTest
