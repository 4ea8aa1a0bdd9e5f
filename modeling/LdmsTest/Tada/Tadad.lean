import LdmsTest.Python.Codec
import LdmsTest.Tada.Client
import LdmsTest.Tada.Database

/-!
# `tadad`

The server keeps the messages of each test that is running, and writes them to the database when
the test finishes.

* `step`: one datagram.  Only the decoding of a datagram is guarded; whatever else is raised ends
  the server.
* `Admissible`: the datagrams, and the states, with which nothing is raised, and with which no
  other test has the rows of the test.
* `served`: from an empty table of pending tests and any database, a run of admissible datagrams
  does not end, and each of them leaves the other tests alone.

Texts with lone surrogates are left out.
-/

namespace LdmsTest
namespace Tada

open Val (Fields keyOf getItem intOf formatWidth)
open Sql (Cell Affinity)
open SQLModel (Obj)

/-- `datetime.fromtimestamp(n)`.  The text that it is printed as goes to the log only. -/
class Calendar where
  fromtimestamp : ℤ → Except PyError Unit

/-- The rows of a test. -/
def Db.part {F : Type} [DecidableEq F] (c : Cell F) (db : Db F) : Db F :=
  ⟨db.tests.part "test_id" c, db.assertions.part "test_id" c⟩

namespace Tadad

/-- The state of the server. -/
structure State (F : Type) [DecidableEq F] where
  results : Dict (Key F) (List (Fields F))
  db : Db F

section Server

variable {F : Type} [Json.JsonFloat F] [DecidableEq F] [Affinity F] [Calendar]

/-! ## `test_finish` -/

omit [DecidableEq F] [Affinity F] [Calendar] in
/-- `test_assert(addr, result)`, without the log -/
def testAssert (result : Fields F) : Except PyError Unit := do
  let status ← getItem result "test-status"
  let no ← getItem result "assert-no"
  discard (getItem result "assert-desc")
  discard (getItem result "assert-cond")
  formatWidth status
  formatWidth no

omit [Affinity F] in
/-- `test_start(addr, result)`, without the log -/
def testStart (result : Fields F) : Except PyError Unit := do
  discard (getItem result "test-suite")
  let timestamp ← intOf (← getItem result "timestamp")
  Calendar.fromtimestamp timestamp
  discard (getItem result "test-name")
  discard (getItem result "test-id")

omit [Calendar] in
/-- `obj.commit()` -/
def commitTest (obj : Obj TADATest F) (db : Db F) : Except PyError (Obj TADATest F × Db F) := do
  let tests ← SQLModel.commit obj db.tests
  pure (obj, { db with tests := tests })

omit [Json.JsonFloat F] [DecidableEq F] [Affinity F] [Calendar] in
/-- What `db_test_start` sets, up to the start. -/
def announced (obj : Obj TADATest F) (suite type name user commit : Val F)
    (desc : Option (Val F)) : Obj TADATest F :=
  let obj := ((((obj.setAttr "test_suite" suite).setAttr "test_type" type).setAttr
    "test_name" name).setAttr "test_user" user).setAttr "commit_id" commit
  obj.setAttr "test_desc" (desc.getD (obj.attr "test_name"))

omit [Calendar] in
/-- `db_test_start(obj, result)` -/
def dbTestStart (obj : Obj TADATest F) (result : Fields F) (db : Db F) :
    Except PyError (Obj TADATest F × Db F) := do
  let suite ← getItem result "test-suite"
  let type ← getItem result "test-type"
  let name ← getItem result "test-name"
  let user ← getItem result "test-user"
  let commit ← getItem result "commit-id"
  let obj := announced obj suite type name user commit (Dict.get? result "test-desc")
  let start ← intOf (← getItem result "timestamp")
  commitTest (obj.setAttr "test_start" (.int start)) db

omit [Json.JsonFloat F] [DecidableEq F] [Affinity F] [Calendar] in
/-- What `db_test_assert` sets. -/
def reported (obj : Obj TADAAssertion F) (status cond desc : Val F) : Obj TADAAssertion F :=
  ((obj.setAttr "assert_result" status).setAttr "assert_cond" cond).setAttr "assert_desc" desc

omit [Calendar] in
/-- `db_test_assert(test_obj, result)` -/
def dbTestAssert (testObj : Obj TADATest F) (result : Fields F) (db : Db F) :
    Except PyError (Db F) := do
  let assertId ← getItem result "assert-no"
  let (obj, db) ← getAssertion testObj assertId db
  let status ← getItem result "test-status"
  let cond ← getItem result "assert-cond"
  let desc ← getItem result "assert-desc"
  let assertions ← SQLModel.commit (reported obj status cond desc) db.assertions
  pure { db with assertions := assertions }

omit [Calendar] in
/-- `db_test_finish(obj, result)` -/
def dbTestFinish (obj : Obj TADATest F) (result : Fields F) (db : Db F) :
    Except PyError (Obj TADATest F × Db F) := do
  let finish ← intOf (← getItem result "timestamp")
  commitTest (obj.setAttr "test_finish" (.int finish)) db

/-- The body of the loop of `test_finish`. -/
def record (acc : Obj TADATest F × Db F) (r : Fields F) :
    Except PyError (Obj TADATest F × Db F) := do
  let msgType ← getItem r "msg-type"
  if isStr msgType "test-start" then
    testStart r
    dbTestStart acc.1 r acc.2
  else if isStr msgType "assert-status" then
    testAssert r
    let db ← dbTestAssert acc.1 r acc.2
    pure (acc.1, db)
  else if isStr msgType "test-finish" then
    dbTestFinish acc.1 r acc.2
  else pure acc

/-- `test_finish(addr, results)` -/
def testFinish : List (Fields F) → Db F → Except PyError (Db F)
  | [], _ => throw ⟨.indexError, "list index out of range"⟩
  | first :: results, db => do
    let testId ← getItem first "test-id"
    let acc ← getTest testId db
    let acc ← (first :: results).foldlM record acc
    pure acc.2

/-! ## The loop -/

omit [DecidableEq F] [Affinity F] [Calendar] in
/-- The datagram of a message. -/
def datagram (msg : Fields F) : List UInt8 :=
  Codec.encode (Json.dumps none (.dict msg))

omit [DecidableEq F] [Affinity F] [Calendar] in
/-- The guarded part: the message of a datagram, if it is one. -/
def parse (data : List UInt8) : Option (Fields F) :=
  match Codec.loadsLimited data with
  | .ok (.dict result) => some (Dict.setdefault result "test-user" (.str "NONE"))
  | _ => none

/-- `results[test_key]` -/
def pending (s : State F) (key : Key F) (testKey : Val F) : Except PyError (List (Fields F)) :=
  match Dict.get? s.results key with
  | some messages => .ok messages
  | none => .error ⟨.keyError, testKey.repr⟩

omit [Json.JsonFloat F] [DecidableEq F] [Affinity F] [Calendar] in
/-- `result.get(k)` -/
def field (result : Fields F) (k : String) : Val F :=
  (Dict.get? result k).getD .none

/-- A message with a test-id. -/
def stepMsg (s : State F) (result : Fields F) : Except PyError (State F) := do
  let testKey := field result "test-id"
  let msgType := field result "msg-type"
  if isStr msgType "test-start" then
    let key ← keyOf testKey
    pure { s with results := Dict.set s.results key [result] }
  else if isStr msgType "assert-status" then
    let key ← keyOf testKey
    let messages ← pending s key testKey
    pure { s with results := Dict.set s.results key (messages ++ [result]) }
  else if isStr msgType "test-finish" then
    let key ← keyOf testKey
    let messages ← pending s key testKey
    let db ← testFinish (messages ++ [result]) s.db
    pure ⟨Dict.pop s.results key, db⟩
  else pure s

/-- **A datagram.** -/
def step (s : State F) (data : List UInt8) : Except PyError (State F) :=
  match parse data with
  | none => pure s
  | some result => if (field result "test-id").truthy then stepMsg s result else pure s

/-- **A run of the server.** -/
def run (s : State F) (datagrams : List (List UInt8)) : Except PyError (State F) :=
  datagrams.foldlM step s

end Server

/-! ## Which datagrams are served -/

section Conditions

variable {F : Type} [Json.JsonFloat F] [DecidableEq F] [Affinity F] [Calendar]

omit [Affinity F] in
/-- **A message that `test_finish` can record**: it has the fields that are read, and they are of
the types that they are read as. -/
structure Fit (r : Fields F) : Prop where
  start : isStr (field r "msg-type") "test-start" →
    (∀ k ∈ ["test-suite", "test-type", "test-name", "test-user", "commit-id"], k ∈ Dict.keys r) ∧
      ∃ v n, Dict.get? r "timestamp" = some v ∧ intOf v = .ok n ∧
        Calendar.fromtimestamp n = .ok ()
  status : isStr (field r "msg-type") "assert-status" →
    (∀ k ∈ ["assert-desc", "assert-cond"], k ∈ Dict.keys r) ∧
      ∀ k ∈ ["test-status", "assert-no"], ∃ v, Dict.get? r k = some v ∧ v.isPrimitive
  finish : isStr (field r "msg-type") "test-finish" →
    ∃ v n, Dict.get? r "timestamp" = some v ∧ intOf v = .ok n

omit [DecidableEq F] [Affinity F] [Calendar] in
/-- **The fields that are written to the database are not nested too deeply** for `str`, which
raises a `RecursionError` otherwise. -/
def Printable (r : Fields F) : Prop :=
  ∀ k ∈ ["test-suite", "test-type", "test-name", "test-user", "commit-id", "test-desc",
      "assert-desc", "assert-cond"],
    ∀ v, Dict.get? r k = some v → Json.Fits (PyRuntime.limits F).printed v

/-- No other test-id has this text: rows are found by the text of a test-id. -/
def Unambiguous (F : Type) [Json.JsonFloat F] (id : String) : Prop :=
  ∀ (v : Val F) key, keyOf v = .ok key → key ≠ .str id → v.toStr ≠ id

/-- **A message that the server can take** in a state. -/
structure Fitting (s : State F) (result : Fields F) : Prop where
  start : isStr (field result "msg-type") "test-start" →
    ∃ key, keyOf (field result "test-id") = .ok key
  status : isStr (field result "msg-type") "assert-status" →
    ∃ key messages, keyOf (field result "test-id") = .ok key ∧
      Dict.get? s.results key = some messages
  finish : isStr (field result "msg-type") "test-finish" →
    ∃ id messages, field result "test-id" = .str id ∧ Unambiguous F id ∧
      Dict.get? s.results (.str id) = some messages ∧
        ∀ m ∈ messages ++ [result], Fit m ∧ Printable m

/-- **A datagram that the server can take** in a state. -/
def Admissible (s : State F) (data : List UInt8) : Prop :=
  (Codec.loadsLimited data : Except Json.LoadError (Val F)) ≠ .error .surrogate ∧
    ∀ result, parse data = some result → (field result "test-id").truthy → Fitting s result

/-- Every datagram can be taken in the state that the ones before it lead to. -/
def AdmissibleRun : State F → List (List UInt8) → Prop
  | _, [] => True
  | s, data :: datagrams => Admissible s data ∧
    ∀ s', step s data = .ok s' → AdmissibleRun s' datagrams

/-- The test-id of a datagram, as a key. -/
def carried (F : Type) [Json.JsonFloat F] (data : List UInt8) : Option (Key F) :=
  (parse data).bind fun result => (keyOf (field result "test-id")).toOption

/-- **The other tests are left alone**: the messages of every other test-id, and its rows. -/
def LeavesOthers (data : List UInt8) (s s' : State F) : Prop :=
  ∀ (v : Val F) key, keyOf v = .ok key → carried F data ≠ some key →
    Dict.get? s'.results key = Dict.get? s.results key ∧
      s'.db.part (.text v.toStr) = s.db.part (.text v.toStr)

/-- The messages of a pending test have its test-id, and a type. -/
def Inv (s : State F) : Prop :=
  ∀ key messages, Dict.get? s.results key = some messages → messages ≠ [] ∧
    ∀ m ∈ messages, (∃ v, Dict.get? m "test-id" = some v ∧ keyOf v = .ok key) ∧
      "msg-type" ∈ Dict.keys m

end Conditions

/-! ## What finishing does -/

section Finish

variable {F : Type} {id : String} {obj : Obj TADATest F}

/-- The object of the test with a test-id. -/
structure IsTest (obj : Obj TADATest F) (id : String) : Prop where
  objId : obj.objId = [("test_id", .str id)]
  attr : obj.attr "test_id" = .str id

theorem IsTest.setAttr (h : IsTest obj id) {k : String} (hk : "test_id" ≠ k) (v : Val F) :
    IsTest (obj.setAttr k v) id :=
  ⟨h.objId, (Obj.attr_setAttr_of_ne hk obj v).trans h.attr⟩

theorem IsTest.announced (h : IsTest obj id) (suite type name user commit : Val F)
    (desc : Option (Val F)) :
    IsTest (Tadad.announced obj suite type name user commit desc) id :=
  (((((h.setAttr (by decide) suite).setAttr (by decide) type).setAttr (by decide) name).setAttr
    (by decide) user).setAttr (by decide) commit).setAttr (by decide) _

theorem exists_getItem {r : Fields F} {k : String} (hk : k ∈ Dict.keys r) :
    ∃ v, getItem r k = .ok v := by
  obtain ⟨v, hv⟩ := Option.isSome_iff_exists.mp (Dict.isSome_get?_iff.mpr hk)
  exact ⟨v, Val.getItem_eq_ok_iff.mpr hv⟩

theorem isSome_of_isPrimitive {v : Val F} (h : v.isPrimitive) : SQLModel.isSome v := by
  cases v with
  | none => cases h
  | bool | int | float | str => rfl
  | list | tuple | dict => rfl

variable [DecidableEq F]

/-- The rows of the other tests are left. -/
def Keeps (id : String) (db db' : Db F) : Prop :=
  ∀ c, c ≠ .text id → db'.part c = db.part c

theorem Keeps.trans {db₁ db₂ db₃ : Db F} (h : Keeps id db₁ db₂) (h' : Keeps id db₂ db₃) :
    Keeps id db₁ db₃ := fun c hc => (h' c hc).trans (h c hc)

variable [Json.JsonFloat F] [Affinity F]

/-- `db.getTest(test_id = id)` -/
theorem exists_getTest (id : String) (db : Db F) :
    ∃ obj db', getTest (.str id) db = .ok (obj, db') ∧ IsTest obj id ∧ Keeps id db db' := by
  have hids : Dict.keys ([("test_id", .str id)] : Fields F) = TADATest.ids := rfl
  obtain ⟨r, u, hget, hmeets, -⟩ :=
    SQLModel.exists_get_eq_ok hids (List.cons_ne_nil _ _) db.tests 998
  refine ⟨_, { db with tests := u }, ?_, ⟨SQLModel.objId_ofRow hids hmeets,
    SQLModel.attr_ofRow_of_meets hids hmeets List.mem_cons_self⟩, fun c hc => ?_⟩
  · rw [getTest, show recursionLimit = 998 + 2 from rfl, hget]
    rfl
  · have hpart := SQLModel.part_get_of_ne (k := "test_id") List.mem_cons_self rfl hget hc
    exact congrArg (Db.mk · _) hpart

/-- `obj.getAssertion(assert_id)` -/
theorem exists_getAssertion (h : IsTest obj id) (no : Val F) (db : Db F) :
    ∃ a db', getAssertion obj no db = .ok (a, db') ∧
      a.objId = [("test_id", .str id), ("assert_id", .str no.toStr)] ∧ Keeps id db db' := by
  have hids : Dict.keys ([("test_id", .str id), ("assert_id", no)] : Fields F) =
      TADAAssertion.ids := rfl
  obtain ⟨row, u, hget, hmeets, -⟩ :=
    SQLModel.exists_get_eq_ok hids (List.cons_ne_nil _ _) db.assertions 998
  refine ⟨_, { db with assertions := u }, ?_, SQLModel.objId_ofRow hids hmeets, fun c hc => ?_⟩
  · rw [getAssertion, h.attr, show recursionLimit = 998 + 2 from rfl, hget]
    rfl
  · have hpart := SQLModel.part_get_of_ne (k := "test_id") List.mem_cons_self rfl hget hc
    exact congrArg (Db.mk _ ·) hpart

/-! ### When a message is recorded -/

theorem exists_commitTest {k : String} (hk : k ∈ TADATest.names) (hid : k ∉ TADATest.ids)
    (hsome : SQLModel.isSome (obj.attr k)) (db : Db F) :
    ∃ db', commitTest obj db = .ok (obj, db') := by
  obtain ⟨u, hu, -⟩ := SQLModel.exists_commit_eq_ok (Obj.changes_ne_nil hk hid hsome) db.tests
  refine ⟨{ db with tests := u }, ?_⟩
  rw [commitTest, hu]
  rfl

theorem exists_dbTestStart (obj : Obj TADATest F) {r : Fields F}
    (hkeys : ∀ k ∈ ["test-suite", "test-type", "test-name", "test-user", "commit-id"],
      k ∈ Dict.keys r) {v : Val F} {n : ℤ} (hv : Dict.get? r "timestamp" = some v)
    (hn : intOf v = .ok n) (db : Db F) :
    ∃ acc, dbTestStart obj r db = .ok acc := by
  obtain ⟨suite, hsuite⟩ := exists_getItem (hkeys "test-suite" (by decide))
  obtain ⟨type, htype⟩ := exists_getItem (hkeys "test-type" (by decide))
  obtain ⟨name, hname⟩ := exists_getItem (hkeys "test-name" (by decide))
  obtain ⟨user, huser⟩ := exists_getItem (hkeys "test-user" (by decide))
  obtain ⟨commit, hcommit⟩ := exists_getItem (hkeys "commit-id" (by decide))
  have hsome (o : Obj TADATest F) :
      SQLModel.isSome ((o.setAttr "test_start" (.int n)).attr "test_start") := by
    rw [Obj.attr_setAttr_self (by decide)]
    rfl
  obtain ⟨db', hdb'⟩ := exists_commitTest (by decide) (by decide) (hsome
    (announced obj suite type name user commit (Dict.get? r "test-desc"))) db
  have hrun : dbTestStart obj r db = commitTest ((announced obj suite type name user commit
      (Dict.get? r "test-desc")).setAttr "test_start" (.int n)) db := by
    rw [dbTestStart, hsuite, ok_bind, htype, ok_bind, hname, ok_bind, huser, ok_bind, hcommit,
      ok_bind, Val.getItem_eq_ok_iff.mpr hv, ok_bind, hn, ok_bind]
  exact ⟨_, hrun.trans hdb'⟩

theorem exists_dbTestFinish (obj : Obj TADATest F) {r : Fields F} {v : Val F} {n : ℤ}
    (hv : Dict.get? r "timestamp" = some v) (hn : intOf v = .ok n) (db : Db F) :
    ∃ acc, dbTestFinish obj r db = .ok acc := by
  have hsome : SQLModel.isSome ((obj.setAttr "test_finish" (.int n)).attr "test_finish") := by
    rw [Obj.attr_setAttr_self (by decide)]
    rfl
  obtain ⟨db', hdb'⟩ := exists_commitTest (by decide) (by decide) hsome db
  have hrun : dbTestFinish obj r db = commitTest (obj.setAttr "test_finish" (.int n)) db := by
    rw [dbTestFinish, Val.getItem_eq_ok_iff.mpr hv, ok_bind, hn, ok_bind]
  exact ⟨_, hrun.trans hdb'⟩

theorem exists_dbTestAssert (h : IsTest obj id) {r : Fields F} {no status cond desc : Val F}
    (hno : Dict.get? r "assert-no" = some no) (hstatus : Dict.get? r "test-status" = some status)
    (hprim : status.isPrimitive) (hcond : Dict.get? r "assert-cond" = some cond)
    (hdesc : Dict.get? r "assert-desc" = some desc) (db : Db F) :
    ∃ db', dbTestAssert obj r db = .ok db' := by
  obtain ⟨a, db₁, hget, -⟩ := exists_getAssertion h no db
  have hsome : SQLModel.isSome ((reported a status cond desc).attr "assert_result") := by
    rw [reported, Obj.attr_setAttr_of_ne (by decide), Obj.attr_setAttr_of_ne (by decide),
      Obj.attr_setAttr_self (by decide)]
    exact isSome_of_isPrimitive hprim
  obtain ⟨w, hw, -⟩ := SQLModel.exists_commit_eq_ok
    (Obj.changes_ne_nil (by decide) (by decide) hsome) db₁.assertions
  refine ⟨{ db₁ with assertions := w }, ?_⟩
  rw [dbTestAssert, Val.getItem_eq_ok_iff.mpr hno, ok_bind, hget, ok_bind]
  show (getItem r "test-status" >>= _) = _
  rw [Val.getItem_eq_ok_iff.mpr hstatus, ok_bind, Val.getItem_eq_ok_iff.mpr hcond, ok_bind,
    Val.getItem_eq_ok_iff.mpr hdesc, ok_bind, hw]
  rfl

section Fit

variable [Calendar]

/-- **A message of a test that is fit is recorded**. -/
theorem exists_record (h : IsTest obj id) {r : Fields F} (hr : Fit r)
    (hid : "test-id" ∈ Dict.keys r) (htype : "msg-type" ∈ Dict.keys r) (db : Db F) :
    ∃ acc, record (obj, db) r = .ok acc := by
  obtain ⟨msgType, hmsgType⟩ := Option.isSome_iff_exists.mp (Dict.isSome_get?_iff.mpr htype)
  have hfield : field r "msg-type" = msgType := by rw [field, hmsgType, Option.getD_some]
  obtain ⟨hstart, hstatus, hfinish⟩ := hr
  rw [hfield] at hstart hstatus hfinish
  rw [record, Val.getItem_eq_ok_iff.mpr hmsgType, ok_bind]
  split
  · next his =>
    obtain ⟨hkeys, v, n, hv, hn, hclock⟩ := hstart his
    obtain ⟨suite, hsuite⟩ := exists_getItem (hkeys "test-suite" (by decide))
    obtain ⟨name, hname⟩ := exists_getItem (hkeys "test-name" (by decide))
    obtain ⟨id', hid'⟩ := exists_getItem hid
    have hlog : testStart r = .ok () := by
      rw [testStart, hsuite, Val.getItem_eq_ok_iff.mpr hv]
      show (intOf v >>= _) = _
      rw [hn, ok_bind, hclock, hname, hid']
      rfl
    rw [hlog]
    exact exists_dbTestStart obj hkeys hv hn db
  · split
    · next his =>
      obtain ⟨hkeys, hprim⟩ := hstatus his
      obtain ⟨status, hstatus, hsprim⟩ := hprim "test-status" (by decide)
      obtain ⟨no, hno, hnprim⟩ := hprim "assert-no" (by decide)
      obtain ⟨desc, hdesc⟩ := exists_getItem (hkeys "assert-desc" (by decide))
      obtain ⟨cond, hcond⟩ := exists_getItem (hkeys "assert-cond" (by decide))
      have hlog : testAssert r = .ok () := by
        rw [testAssert, Val.getItem_eq_ok_iff.mpr hstatus, ok_bind,
          Val.getItem_eq_ok_iff.mpr hno, ok_bind, hdesc, hcond]
        show (formatWidth status >>= fun _ => formatWidth no) = _
        rw [Val.formatWidth_of_isPrimitive hsprim, ok_bind,
          Val.formatWidth_of_isPrimitive hnprim]
      obtain ⟨db', hdb'⟩ := exists_dbTestAssert h hno hstatus hsprim
        (Val.getItem_eq_ok_iff.mp hcond) (Val.getItem_eq_ok_iff.mp hdesc) db
      refine ⟨(obj, db'), ?_⟩
      rw [hlog, ok_bind, hdb']
      rfl
    · split
      · next his =>
        obtain ⟨v, n, hv, hn⟩ := hfinish his
        exact exists_dbTestFinish obj hv hn db
      · exact ⟨_, rfl⟩

end Fit

/-! ### What recording leaves alone -/

theorem keeps_of_commitTest (h : IsTest obj id) {db : Db F} {acc : Obj TADATest F × Db F}
    (hacc : commitTest obj db = .ok acc) : IsTest acc.1 id ∧ Keeps id db acc.2 := by
  rw [commitTest] at hacc
  obtain ⟨u, hu, hacc⟩ := exists_of_bind_ok hacc
  cases hacc
  refine ⟨h, fun c hc => ?_⟩
  have hobj : ("test_id", .str id) ∈ obj.objId := h.objId ▸ List.mem_cons_self
  have hpart := SQLModel.part_commit_of_ne List.mem_cons_self hobj hu hc
  exact congrArg (Db.mk · _) hpart

theorem keeps_of_dbTestStart (h : IsTest obj id) {r : Fields F} {db : Db F}
    {acc : Obj TADATest F × Db F} (hacc : dbTestStart obj r db = .ok acc) :
    IsTest acc.1 id ∧ Keeps id db acc.2 := by
  rw [dbTestStart] at hacc
  obtain ⟨suite, -, hacc⟩ := exists_of_bind_ok hacc
  obtain ⟨type, -, hacc⟩ := exists_of_bind_ok hacc
  obtain ⟨name, -, hacc⟩ := exists_of_bind_ok hacc
  obtain ⟨user, -, hacc⟩ := exists_of_bind_ok hacc
  obtain ⟨commit, -, hacc⟩ := exists_of_bind_ok hacc
  obtain ⟨timestamp, -, hacc⟩ := exists_of_bind_ok hacc
  obtain ⟨n, -, hacc⟩ := exists_of_bind_ok hacc
  exact keeps_of_commitTest ((h.announced suite type name user commit _).setAttr (by decide) _)
    hacc

theorem keeps_of_dbTestFinish (h : IsTest obj id) {r : Fields F} {db : Db F}
    {acc : Obj TADATest F × Db F} (hacc : dbTestFinish obj r db = .ok acc) :
    IsTest acc.1 id ∧ Keeps id db acc.2 := by
  rw [dbTestFinish] at hacc
  obtain ⟨timestamp, -, hacc⟩ := exists_of_bind_ok hacc
  obtain ⟨n, -, hacc⟩ := exists_of_bind_ok hacc
  exact keeps_of_commitTest (h.setAttr (by decide) _) hacc

theorem keeps_of_dbTestAssert (h : IsTest obj id) {r : Fields F} {db db' : Db F}
    (hdb' : dbTestAssert obj r db = .ok db') : Keeps id db db' := by
  rw [dbTestAssert] at hdb'
  obtain ⟨no, -, hdb'⟩ := exists_of_bind_ok hdb'
  obtain ⟨⟨a, db₁⟩, hget, hdb'⟩ := exists_of_bind_ok hdb'
  dsimp only at hdb'
  obtain ⟨status, -, hdb'⟩ := exists_of_bind_ok hdb'
  obtain ⟨cond, -, hdb'⟩ := exists_of_bind_ok hdb'
  obtain ⟨desc, -, hdb'⟩ := exists_of_bind_ok hdb'
  obtain ⟨w, hw, hdb'⟩ := exists_of_bind_ok hdb'
  cases hdb'
  obtain ⟨a', db₁', hget', hobjId, hkeeps⟩ := exists_getAssertion h no db
  rw [hget] at hget'
  cases hget'
  refine hkeeps.trans fun c hc => ?_
  have hobj : ("test_id", .str id) ∈ (reported a status cond desc).objId :=
    hobjId ▸ List.mem_cons_self
  have hpart := SQLModel.part_commit_of_ne (k := "test_id") List.mem_cons_self hobj hw hc
  exact congrArg (Db.mk _ ·) hpart

variable [Calendar]

/-- **Recording a message** leaves the rows of the other tests alone. -/
theorem keeps_of_record (h : IsTest obj id) {r : Fields F} {db : Db F}
    {acc : Obj TADATest F × Db F} (hacc : record (obj, db) r = .ok acc) :
    IsTest acc.1 id ∧ Keeps id db acc.2 := by
  rw [record] at hacc
  obtain ⟨msgType, -, hacc⟩ := exists_of_bind_ok hacc
  split at hacc
  · obtain ⟨-, -, hacc⟩ := exists_of_bind_ok hacc
    exact keeps_of_dbTestStart h hacc
  · split at hacc
    · obtain ⟨-, -, hacc⟩ := exists_of_bind_ok hacc
      obtain ⟨db', hdb', hacc⟩ := exists_of_bind_ok hacc
      cases hacc
      exact ⟨h, keeps_of_dbTestAssert h hdb'⟩
    · split at hacc
      · exact keeps_of_dbTestFinish h hacc
      · cases hacc
        exact ⟨h, fun _ _ => rfl⟩

/-- **Finishing a test** leaves the rows of the other tests alone. -/
theorem keeps_of_testFinish {first : Fields F} {rest : List (Fields F)}
    (hid : Dict.get? first "test-id" = some (.str id)) {db db' : Db F}
    (hdb' : testFinish (first :: rest) db = .ok db') : Keeps id db db' := by
  obtain ⟨obj, db₁, hget, hobj, hkeeps⟩ := exists_getTest id db
  rw [testFinish, Val.getItem_eq_ok_iff.mpr hid, ok_bind, hget, ok_bind] at hdb'
  obtain ⟨acc, hacc, hdb'⟩ := exists_of_bind_ok hdb'
  cases hdb'
  refine (foldlM_ok_induction (I := fun acc => IsTest acc.1 id ∧ Keeps id db acc.2)
    (fun acc r acc' hacc hrec => ?_) ⟨hobj, hkeeps⟩ hacc).2
  obtain ⟨hobj', hkeeps'⟩ := keeps_of_record hacc.1 hrec
  exact ⟨hobj', hacc.2.trans hkeeps'⟩

/-- **A test whose messages are fit is recorded**. -/
theorem exists_testFinish {first : Fields F} {rest : List (Fields F)}
    (hid : ∀ m ∈ first :: rest, Dict.get? m "test-id" = some (.str id))
    (htype : ∀ m ∈ first :: rest, "msg-type" ∈ Dict.keys m) (hfit : ∀ m ∈ first :: rest, Fit m)
    (db : Db F) : ∃ db', testFinish (first :: rest) db = .ok db' := by
  obtain ⟨obj, db₁, hget, hobj, -⟩ := exists_getTest id db
  have hstep : ∀ m ∈ first :: rest, ∀ acc : Obj TADATest F × Db F, IsTest acc.1 id →
      ∃ acc', record acc m = .ok acc' ∧ IsTest acc'.1 id := by
    rintro m hm ⟨obj, db₂⟩ hobj
    obtain ⟨acc', hacc'⟩ :=
      exists_record hobj (hfit m hm) (Dict.mem_keys_of_get? (hid m hm)) (htype m hm) db₂
    exact ⟨acc', hacc', (keeps_of_record hobj hacc').1⟩
  obtain ⟨acc, hacc, -⟩ := exists_foldlM_ok hstep (s := (obj, db₁)) hobj
  refine ⟨acc.2, ?_⟩
  rw [testFinish, Val.getItem_eq_ok_iff.mpr (hid first List.mem_cons_self), ok_bind, hget,
    ok_bind, hacc]
  rfl

end Finish

/-! ## What the server does -/

section Serving

variable {F : Type} [Json.JsonFloat F] [DecidableEq F] [Affinity F] [Calendar]

omit [DecidableEq F] [Affinity F] [Calendar] in
theorem mem_keys_of_field {result : Fields F} {k : String} (h : (field result k).truthy) :
    Dict.get? result k = some (field result k) := by
  rw [field] at h ⊢
  cases hk : Dict.get? result k with
  | none =>
    rw [hk] at h
    cases h
  | some v => rfl

omit [Json.JsonFloat F] [DecidableEq F] [Affinity F] [Calendar] in
theorem msgType_mem_keys {result : Fields F} {s : String}
    (h : isStr (field result "msg-type") s) : "msg-type" ∈ Dict.keys result := by
  rw [← Dict.isSome_get?_iff, ← Option.ne_none_iff_isSome]
  intro hnone
  rw [field, hnone] at h
  cases h

omit [Affinity F] [Calendar] in
/-- The pending messages after one more. -/
theorem Inv.set {s : State F} (hs : Inv s) {key : Key F} {messages : List (Fields F)}
    (hne : messages ≠ [])
    (hmsgs : ∀ m ∈ messages, (∃ v, Dict.get? m "test-id" = some v ∧ keyOf v = .ok key) ∧
      "msg-type" ∈ Dict.keys m) :
    Inv { s with results := Dict.set s.results key messages } := by
  intro key' messages' h
  dsimp only at h
  rw [Dict.get?_set] at h
  split at h
  · next hk =>
    obtain rfl := Option.some_inj.mp h
    exact ⟨hne, hk ▸ hmsgs⟩
  · exact hs key' messages' h

omit [DecidableEq F] [Affinity F] [Calendar] in
theorem carried_eq {data : List UInt8} {result : Fields F} (hdata : parse data = some result)
    {key : Key F} (hkey : keyOf (field result "test-id") = .ok key) :
    carried F data = some key := by
  rw [carried, hdata, Option.bind_some, hkey]
  rfl

/-- **What a message does**, when nothing is raised. -/
inductive Takes (s : State F) (result : Fields F) : State F → Prop where
  | other : Takes s result s
  | start {key : Key F} : isStr (field result "msg-type") "test-start" →
      keyOf (field result "test-id") = .ok key →
      Takes s result { s with results := Dict.set s.results key [result] }
  | status {key : Key F} {messages : List (Fields F)} :
      isStr (field result "msg-type") "assert-status" →
      keyOf (field result "test-id") = .ok key → Dict.get? s.results key = some messages →
      Takes s result { s with results := Dict.set s.results key (messages ++ [result]) }
  | finish {key : Key F} {messages : List (Fields F)} {db : Db F} :
      isStr (field result "msg-type") "test-finish" →
      keyOf (field result "test-id") = .ok key → Dict.get? s.results key = some messages →
      testFinish (messages ++ [result]) s.db = .ok db →
      Takes s result ⟨Dict.pop s.results key, db⟩

omit [Affinity F] [Calendar] in
theorem pending_eq_ok_iff {s : State F} {key : Key F} {testKey : Val F}
    {messages : List (Fields F)} :
    pending s key testKey = .ok messages ↔ Dict.get? s.results key = some messages := by
  rw [pending]
  cases Dict.get? s.results key with
  | none => exact ⟨nofun, nofun⟩
  | some ms => rw [Except.ok.injEq, Option.some_inj]

theorem takes_of_stepMsg {s s' : State F} {result : Fields F} (h : stepMsg s result = .ok s') :
    Takes s result s' := by
  rw [stepMsg] at h
  split at h
  · next his =>
    obtain ⟨key, hkey, h⟩ := exists_of_bind_ok h
    cases h
    exact .start his hkey
  · split at h
    · next his =>
      obtain ⟨key, hkey, h⟩ := exists_of_bind_ok h
      obtain ⟨messages, hmessages, h⟩ := exists_of_bind_ok h
      cases h
      exact .status his hkey (pending_eq_ok_iff.mp hmessages)
    · split at h
      · next his =>
        obtain ⟨key, hkey, h⟩ := exists_of_bind_ok h
        obtain ⟨messages, hmessages, h⟩ := exists_of_bind_ok h
        obtain ⟨db, hdb, h⟩ := exists_of_bind_ok h
        cases h
        exact .finish his hkey (pending_eq_ok_iff.mp hmessages) hdb
      · cases h
        exact .other

/-- A message keeps the invariant. -/
theorem Inv.of_takes {s s' : State F} (hs : Inv s) {result : Fields F}
    (hid : Dict.get? result "test-id" = some (field result "test-id"))
    (h : Takes s result s') : Inv s' := by
  cases h with
  | other => exact hs
  | start his hkey =>
    refine hs.set (List.cons_ne_nil _ _) ?_
    exact List.forall_mem_singleton.mpr ⟨⟨_, hid, hkey⟩, msgType_mem_keys his⟩
  | status his hkey hmessages =>
    refine hs.set (List.append_ne_nil_of_right_ne_nil _ (List.cons_ne_nil _ _)) ?_
    refine List.forall_mem_append.mpr ⟨(hs _ _ hmessages).2, ?_⟩
    exact List.forall_mem_singleton.mpr ⟨⟨_, hid, hkey⟩, msgType_mem_keys his⟩
  | finish his hkey hmessages hdb =>
    intro key' messages' h
    dsimp only at h
    rw [Dict.get?_pop] at h
    split at h
    · cases h
    · exact hs key' messages' h

/-- A datagram keeps the invariant. -/
theorem Inv.of_step {s s' : State F} (hs : Inv s) {data : List UInt8}
    (h : step s data = .ok s') : Inv s' := by
  rw [step] at h
  split at h
  · cases h
    exact hs
  · split at h
    · next htruthy => exact hs.of_takes (mem_keys_of_field htruthy) (takes_of_stepMsg h)
    · cases h
      exact hs

omit [Affinity F] [Calendar] in
/-- The messages of a test that finishes have its test-id. -/
theorem Inv.test_id {s : State F} (hs : Inv s) {id : String} {messages : List (Fields F)}
    (hmessages : Dict.get? s.results (.str id) = some messages) {result : Fields F}
    (hid : Dict.get? result "test-id" = some (.str id)) :
    ∀ m ∈ messages ++ [result], Dict.get? m "test-id" = some (.str id) := by
  refine List.forall_mem_append.mpr ⟨fun m hm => ?_, List.forall_mem_singleton.mpr hid⟩
  obtain ⟨⟨v, hv, hkeyv⟩, -⟩ := (hs _ _ hmessages).2 m hm
  rw [hv, Val.eq_str_of_keyOf hkeyv]

/-- Finishing a test leaves the rows of the other tests alone. -/
theorem Inv.keeps {s : State F} (hs : Inv s) {id : String} {messages : List (Fields F)}
    (hmessages : Dict.get? s.results (.str id) = some messages) {result : Fields F}
    (hid : Dict.get? result "test-id" = some (.str id)) {db : Db F}
    (hdb : testFinish (messages ++ [result]) s.db = .ok db) : Keeps id s.db db := by
  have hids := hs.test_id hmessages hid
  obtain ⟨first, rest, hcons⟩ := List.exists_cons_of_ne_nil
    (List.append_ne_nil_of_right_ne_nil messages (List.cons_ne_nil result []))
  rw [hcons] at hids hdb
  exact keeps_of_testFinish (hids first List.mem_cons_self) hdb

/-- **A message that can be taken** is taken. -/
theorem exists_stepMsg {s : State F} (hs : Inv s) {result : Fields F}
    (hid : Dict.get? result "test-id" = some (field result "test-id"))
    (hfit : Fitting s result) : ∃ s', stepMsg s result = .ok s' := by
  rw [stepMsg]
  split
  · next his =>
    obtain ⟨key, hkey⟩ := hfit.start his
    exact ⟨_, by rw [hkey, ok_bind]; rfl⟩
  · split
    · next his =>
      obtain ⟨key, messages, hkey, hmessages⟩ := hfit.status his
      exact ⟨_, by rw [hkey, ok_bind, pending_eq_ok_iff.mpr hmessages, ok_bind]; rfl⟩
    · split
      · next his =>
        obtain ⟨id, messages, hstr, -, hmessages, hall⟩ := hfit.finish his
        have hids := hs.test_id hmessages (hstr ▸ hid)
        have htypes : ∀ m ∈ messages ++ [result], "msg-type" ∈ Dict.keys m :=
          List.forall_mem_append.mpr ⟨fun m hm => ((hs _ _ hmessages).2 m hm).2,
            List.forall_mem_singleton.mpr (msgType_mem_keys his)⟩
        obtain ⟨first, rest, hcons⟩ := List.exists_cons_of_ne_nil
          (List.append_ne_nil_of_right_ne_nil messages (List.cons_ne_nil result []))
        rw [hcons] at hids htypes hall
        obtain ⟨db, hdb⟩ := exists_testFinish hids htypes (fun m hm => (hall m hm).1) s.db
        rw [← hcons] at hdb
        have hkey : keyOf (field result "test-id") = .ok (.str id) := by rw [hstr]; rfl
        refine ⟨⟨Dict.pop s.results (.str id), db⟩, ?_⟩
        rw [hkey, ok_bind, pending_eq_ok_iff.mpr hmessages, ok_bind, hdb]
        rfl
      · exact ⟨s, rfl⟩

/-- **A message that can be taken** leaves the other tests alone. -/
theorem leavesOthers_of_takes {s s' : State F} (hs : Inv s) {data : List UInt8}
    {result : Fields F} (hdata : parse data = some result)
    (hid : Dict.get? result "test-id" = some (field result "test-id"))
    (hfit : Fitting s result) (h : Takes s result s') : LeavesOthers data s s' := by
  have hset {key : Key F} (hkey : keyOf (field result "test-id") = .ok key)
      (messages : List (Fields F)) :
      LeavesOthers data s { s with results := Dict.set s.results key messages } := by
    intro v key' _ hne
    refine ⟨Dict.get?_set_of_ne _ _ fun heq => hne ?_, rfl⟩
    rw [carried_eq hdata hkey, heq]
  cases h with
  | other => exact fun _ _ _ _ => ⟨rfl, rfl⟩
  | start _ hkey => exact hset hkey _
  | status _ hkey => exact hset hkey _
  | @finish key messages db his hkey hmessages hdb =>
    obtain ⟨id, -, hstr, hunamb, -⟩ := hfit.finish his
    obtain rfl : Key.str id = key := by
      rw [hstr] at hkey
      exact Except.ok.inj hkey
    have hkeeps := hs.keeps hmessages (hstr ▸ hid) hdb
    intro v key' hv hne
    rw [carried_eq hdata hkey] at hne
    have hkey' : Key.str id ≠ key' := fun heq => hne (congrArg some heq)
    refine ⟨by dsimp only; rw [Dict.get?_pop, if_neg hkey'], hkeeps _ fun heq => ?_⟩
    exact hunamb v key' hv (Ne.symm hkey') (Cell.text.inj heq)

/-- **A datagram that can be taken** is taken, and leaves the other tests alone. -/
theorem exists_step {s : State F} (hs : Inv s) {data : List UInt8} (h : Admissible s data) :
    ∃ s', step s data = .ok s' ∧ LeavesOthers data s s' := by
  rw [step]
  split
  · exact ⟨s, rfl, fun _ _ _ _ => ⟨rfl, rfl⟩⟩
  · next result hdata =>
    split
    · next htruthy =>
      have hid := mem_keys_of_field htruthy
      have hfit := h.2 result hdata htruthy
      obtain ⟨s', hs'⟩ := exists_stepMsg hs hid hfit
      exact ⟨s', hs', leavesOthers_of_takes hs hdata hid hfit (takes_of_stepMsg hs')⟩
    · exact ⟨s, rfl, fun _ _ _ _ => ⟨rfl, rfl⟩⟩

theorem served_of_inv {s : State F} (hs : Inv s) {datagrams : List (List UInt8)}
    (h : AdmissibleRun s datagrams) :
    ∀ before data after, datagrams = before ++ data :: after →
      ∃ s₁ s₂, run s before = .ok s₁ ∧ step s₁ data = .ok s₂ ∧ LeavesOthers data s₁ s₂ := by
  induction datagrams generalizing s with
  | nil => exact fun before data after hsplit => absurd hsplit (by simp)
  | cons first datagrams ih =>
    intro before data after hsplit
    obtain ⟨s', hs', hothers⟩ := exists_step hs h.1
    cases before with
    | nil =>
      obtain ⟨rfl, -⟩ := List.cons.inj hsplit
      exact ⟨s, s', rfl, hs', hothers⟩
    | cons first' before =>
      obtain ⟨rfl, hrest⟩ := List.cons.inj hsplit
      obtain ⟨s₁, s₂, hrun, hstep, hothers⟩ :=
        ih (hs.of_step hs') (h.2 s' hs') before data after hrest
      refine ⟨s₁, s₂, ?_, hstep, hothers⟩
      rw [run, List.foldlM_cons, hs', ok_bind]
      exact hrun

/-- **The server serves**: from an empty table of pending tests and any database, if every
datagram can be taken in the state that it finds, then the server comes to every datagram, takes it
without an exception, and leaves the messages and the rows of every other test alone. -/
theorem served (db : Db F) {datagrams : List (List UInt8)} (h : AdmissibleRun ⟨[], db⟩ datagrams) :
    ∀ before data after, datagrams = before ++ data :: after →
      ∃ s s', run ⟨[], db⟩ before = .ok s ∧ step s data = .ok s' ∧ LeavesOthers data s s' :=
  served_of_inv (fun _ _ h => by cases h) h

end Serving

/-! ## Datagrams of messages -/

section Sent

variable {F : Type} [Json.JsonFloat F]

/-- A value that `json` writes and reads in a message, and that `str` prints, with the limits of the
interpreter. -/
structure FitsMessage (v : Val F) : Prop where
  keyed : Val.Keyed v
  fits : Json.Fits ((PyRuntime.limits F).depth - 1) v
  printed : Json.Fits (PyRuntime.limits F).printed v

theorem FitsMessage.str (s : String) : FitsMessage (.str s : Val F) :=
  ⟨.primitive rfl, .str _ s, .str _ s⟩

theorem FitsMessage.float (x : F) : FitsMessage (.float x) :=
  ⟨.primitive rfl, .float _ x, .float _ x⟩

theorem FitsMessage.int {n : ℤ} (hmin : -2 ^ 63 ≤ n) (hmax : n < 2 ^ 63) :
    FitsMessage (.int n : Val F) :=
  ⟨.primitive rfl, .int _ hmin hmax, .int _ hmin hmax⟩

/-- **A message that can be sent**. -/
structure Sendable (msg : Fields F) : Prop where
  nodup : (Dict.keys msg).Nodup
  fits : ∀ p ∈ msg, FitsMessage p.2

theorem Sendable.keyed {msg : Fields F} (h : Sendable msg) : Val.Keyed (.dict msg) :=
  .dict h.nodup fun p hp => (h.fits p hp).keyed

theorem Sendable.fits_dict {msg : Fields F} (h : Sendable msg) :
    Json.Fits (PyRuntime.limits F).depth (.dict msg) := by
  have hfits := Json.Fits.dict fun p hp => (h.fits p hp).fits
  rwa [Nat.sub_add_cancel (PyRuntime.limits F).depth_pos] at hfits

theorem Sendable.set {msg : Fields F} (h : Sendable msg) (k : String) {v : Val F}
    (hv : FitsMessage v) : Sendable (Dict.set msg k v) where
  nodup := Dict.nodup_keys_set h.nodup k v
  fits p hp := by
    have hget := Dict.get?_of_mem (Dict.nodup_keys_set h.nodup k v) hp
    rw [Dict.get?_set] at hget
    split at hget
    · rwa [← Option.some_inj.mp hget]
    · exact h.fits _ (Dict.mem_of_get? hget)

end Sent

/-- A message, as the server receives it. -/
def received {F : Type} (msg : Fields F) : Fields F :=
  Dict.setdefault (Json.listedFields msg) "test-user" (.str "NONE")

theorem get?_received {F : Type} {msg : Fields F} {k : String} {v : Val F}
    (hv : Dict.get? msg k = some v) : Dict.get? (received msg) k = some (Json.listed v) := by
  rw [received, Dict.get?_setdefault, Json.get?_listedFields, Json.get?_listedFields]
  split
  · next hk => rw [hk, hv, Option.map_some, Option.getD_some]
  · rw [hv, Option.map_some]

theorem mem_keys_received {F : Type} {msg : Fields F} {k : String} (hk : k ∈ Dict.keys msg) :
    k ∈ Dict.keys (received msg) := by
  obtain ⟨v, hv⟩ := Option.isSome_iff_exists.mp (Dict.isSome_get?_iff.mpr hk)
  exact Dict.mem_keys_of_get? (get?_received hv)

/-- A message is received as it was sent. -/
theorem parse_datagram {F : Type} [Json.JsonFloat F] {msg : Fields F} (h : Sendable msg) :
    parse (datagram msg) = some (received msg) := by
  rw [parse, datagram, Codec.loadsLimited_encode_dumps h.keyed h.fits_dict]
  rfl

/-! ## A sample -/

section Sample

open Json (SampleFloat)

/-- Years up to 9999. -/
instance sampleCalendar : Calendar where
  fromtimestamp n :=
    if 0 ≤ n ∧ n < 253402300800 then .ok () else .error ⟨.valueError, "year is out of range"⟩

def sampleStart : Fields SampleFloat :=
  [("msg-type", .str "test-start"),
    ("test-suite", .str "LDMSD"),
    ("test-type", .str "FVT"),
    ("test-name", .str "agg"),
    ("test-user", .str "root"),
    ("commit-id", .str "-"),
    ("timestamp", .int 100),
    ("test-id", .str "abcd")]

def sampleStatus : Fields SampleFloat :=
  [("msg-type", .str "assert-status"),
    ("test-id", .str "abcd"),
    ("assert-no", .int 1),
    ("assert-desc", .str "the aggregator starts"),
    ("assert-cond", .str "none"),
    ("test-status", .str "skipped"),
    ("test-user", .str "root")]

def sampleFinish : Fields SampleFloat :=
  [("msg-type", .str "test-finish"),
    ("test-id", .str "abcd"),
    ("timestamp", .int 160),
    ("test-user", .str "root")]

/-- What the sample messages hold. -/
def isSample : Val SampleFloat → Bool
  | .int n => n.natAbs < 1000
  | .str _ => true
  | _ => false

theorem fits_of_isSample {v : Val SampleFloat} (h : isSample v) (room : ℕ) : Json.Fits room v := by
  cases v with
  | int n =>
    have hlt : n.natAbs < 1000 := of_decide_eq_true h
    exact .int room (by omega) (by omega)
  | str s => exact .str room s
  | none | bool | float | list | tuple | dict => cases h

theorem sendable_sample {msg : Fields SampleFloat} (hnodup : (Dict.keys msg).Nodup)
    (h : ∀ p ∈ msg, isSample p.2) : Sendable msg where
  nodup := hnodup
  fits p hp := by
    have hp := h p hp
    refine ⟨?_, fits_of_isSample hp _, fits_of_isSample hp _⟩
    cases hv : p.2 with
    | int | str => exact .primitive rfl
    | none | bool | float | list | tuple | dict =>
      rw [hv] at hp
      cases hp

theorem parse_sample {msg : Fields SampleFloat} (hnodup : (Dict.keys msg).Nodup)
    (h : ∀ p ∈ msg, isSample p.2) (huser : "test-user" ∈ Dict.keys msg) :
    parse (datagram msg) = some (Json.listedFields msg) := by
  have hmem : (Dict.get? (Json.listedFields msg) "test-user").isSome := by
    rwa [Dict.isSome_get?_iff, Json.keys_listedFields]
  rw [parse_datagram (sendable_sample hnodup h), received, Dict.setdefault, if_pos hmem]

theorem parse_sampleStart : parse (datagram sampleStart) = some sampleStart :=
  parse_sample (by decide) (by decide) (by decide)

theorem parse_sampleStatus : parse (datagram sampleStatus) = some sampleStatus :=
  parse_sample (by decide) (by decide) (by decide)

theorem parse_sampleFinish : parse (datagram sampleFinish) = some sampleFinish :=
  parse_sample (by decide) (by decide) (by decide)

/-- The text of no number is `abcd`. -/
theorem unambiguous_sample : Unambiguous SampleFloat "abcd" := by
  intro v key hkey hne htext
  cases v with
  | none => exact absurd htext (by decide)
  | bool b => cases b <;> exact absurd htext (by decide)
  | int n =>
    have htext : toString n = "abcd" := htext
    have hlist := Json.toList_toString n
    rw [htext] at hlist
    obtain ⟨c, cs, hcs, hc⟩ := Json.exists_of_scanNumber (Json.scanNumber_intText n)
    rw [← hlist] at hcs
    obtain ⟨rfl, -⟩ := List.cons.inj hcs
    exact absurd hc (by decide)
  | float x => cases x <;> exact absurd htext (by decide)
  | str s =>
    obtain rfl : s = "abcd" := htext
    exact hne (Except.ok.inj hkey).symm
  | list xs => cases hkey
  | tuple xs => cases hkey
  | dict d => cases hkey

theorem admissible_of_parse {s : State SampleFloat} {msg : Fields SampleFloat}
    (hparse : parse (datagram msg) = some msg) (h : Fitting s msg) :
    Admissible s (datagram msg) := by
  refine ⟨fun herror => ?_, fun result hresult _ => ?_⟩
  · rw [parse, herror] at hparse
    cases hparse
  · rw [hparse] at hresult
    exact Option.some.inj hresult ▸ h

theorem printable_sample {msg : Fields SampleFloat} (h : ∀ p ∈ msg, isSample p.2) :
    Printable msg := fun k _ v hv =>
  fits_of_isSample (h (k, v) (Dict.mem_of_get? hv)) _

theorem fit_sampleStart : Fit sampleStart where
  start _ := ⟨by decide, .int 100, 100, rfl, rfl, rfl⟩
  status h := absurd h (by decide)
  finish h := absurd h (by decide)

theorem fit_sampleFinish : Fit sampleFinish where
  start h := absurd h (by decide)
  status h := absurd h (by decide)
  finish _ := ⟨.int 160, 160, rfl, rfl⟩

theorem step_sampleStart (db : Db SampleFloat) : step ⟨[], db⟩ (datagram sampleStart) =
    .ok ⟨[(.str "abcd", [sampleStart])], db⟩ := by
  rw [step, parse_sampleStart]
  rfl

theorem admissible_sampleStart (s : State SampleFloat) : Admissible s (datagram sampleStart) :=
  admissible_of_parse parse_sampleStart {
    start := fun _ => ⟨.str "abcd", rfl⟩
    status := fun h => absurd h (by decide)
    finish := fun h => absurd h (by decide) }

theorem admissible_sampleFinish (db : Db SampleFloat) :
    Admissible ⟨[(.str "abcd", [sampleStart])], db⟩ (datagram sampleFinish) :=
  admissible_of_parse parse_sampleFinish {
    start := fun h => absurd h (by decide)
    status := fun h => absurd h (by decide)
    finish := fun _ => ⟨"abcd", [sampleStart], rfl, unambiguous_sample, rfl,
      List.forall_mem_cons.mpr ⟨⟨fit_sampleStart, printable_sample (by decide)⟩,
        List.forall_mem_singleton.mpr ⟨fit_sampleFinish, printable_sample (by decide)⟩⟩⟩ }

theorem served_startFinish :
    ∃ s s', run ⟨[], Db.empty SampleFloat⟩ [datagram sampleStart] = .ok s ∧
      step s (datagram sampleFinish) = .ok s' ∧ LeavesOthers (datagram sampleFinish) s s' := by
  have hrun : AdmissibleRun ⟨[], Db.empty SampleFloat⟩
      [datagram sampleStart, datagram sampleFinish] := by
    refine ⟨admissible_sampleStart _, fun s' hs' => ?_⟩
    obtain rfl := Except.ok.inj ((step_sampleStart _).symm.trans hs')
    exact ⟨admissible_sampleFinish _, fun _ _ => trivial⟩
  exact served (Db.empty SampleFloat) hrun [datagram sampleStart] _ [] rfl

/-- **A report without a start ends the server**: the server was started after the test, or the
start was lost. -/
theorem not_served_status :
    ¬ ∀ before data after, [datagram sampleStatus] = before ++ data :: after →
      ∃ s s', run ⟨[], Db.empty SampleFloat⟩ before = .ok s ∧ step s data = .ok s' ∧
        LeavesOthers data s s' := by
  intro h
  obtain ⟨s, s', hrun, hstep, -⟩ := h [] (datagram sampleStatus) [] rfl
  cases hrun
  rw [step, parse_sampleStatus] at hstep
  cases hstep

end Sample

end Tadad
end Tada
end LdmsTest
