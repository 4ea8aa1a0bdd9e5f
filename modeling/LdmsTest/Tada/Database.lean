import LdmsTest.Python.JsonRoundTrip
import LdmsTest.Tada.SQLModel

/-!
# `TADA_DB`

The tests and the assertions of `tadad`, in two tables.

* `getTest`, `getAssertion`, `findTests`, `deleteTest`: the methods of the source.
* `purgeOldTests`: the method that is to leave the latest tests.  It is written for Python 2: in
  Python 3 `list.sort` takes no `cmp`, and there is no function `cmp`.
* `not_purges`: it completes on no database.
-/

namespace LdmsTest
namespace Tada

open Val (Fields keyOf)
open Sql (Schema Table Row Cell Affinity)
open SQLModel (Obj)

/-! ## The tables -/

/-- `TADATestModel` -/
def TADATest : Schema where
  table := "TADATest"
  cols :=
    [("test_id", .text),
      ("test_suite", .text),
      ("test_type", .text),
      ("test_name", .text),
      ("test_user", .text),
      ("commit_id", .text),
      ("test_desc", .text),
      ("test_start", .integer),
      ("test_finish", .integer)]
  ids := ["test_id"]
  nodup := by decide
  ids_nodup := by decide
  ids_text := by decide

/-- `TADAAssertionModel` -/
def TADAAssertion : Schema where
  table := "TADAAssertion"
  cols :=
    [("test_id", .text),
      ("assert_id", .text),
      ("assert_result", .text),
      ("assert_cond", .text),
      ("assert_desc", .text)]
  ids := ["test_id", "assert_id"]
  nodup := by decide
  ids_nodup := by decide
  ids_text := by decide

/-- The database of `tadad`. -/
structure Db (F : Type) [DecidableEq F] where
  tests : Table TADATest F
  assertions : Table TADAAssertion F

/-- The database without rows. -/
def Db.empty (F : Type) [DecidableEq F] : Db F :=
  ⟨.empty, .empty⟩

/-! ## The order of Python -/

/-- `<` on floats. -/
class PyOrder (F : Type) where
  /-- `x < y` -/
  floatLt : F → F → Bool
  /-- `x < n` -/
  floatLtInt : F → ℤ → Bool
  /-- `n < x` -/
  intLtFloat : ℤ → F → Bool

/-- `v < w`, for what a column may hold -/
def less {F : Type} [PyOrder F] : Val F → Val F → Except PyError Bool
  | .int n, .int m => pure (n < m)
  | .int n, .float y => pure (PyOrder.intLtFloat n y)
  | .float x, .int m => pure (PyOrder.floatLtInt x m)
  | .float x, .float y => pure (PyOrder.floatLt x y)
  | .str s, .str t => pure (s < t)
  | v, w => throw ⟨.typeError, "'<' not supported between instances of '" ++ v.typeName ++
      "' and '" ++ w.typeName ++ "'"⟩

section Sorting

variable {F α : Type} [PyOrder F]

/-- The place of one more item in a sorted list, which is given from its end on. -/
def insertByKey (key : α → Val F) (x : α) : List α → Except PyError (List α)
  | [] => pure [x]
  | y :: ys => do
    if ← less (key x) (key y) then
      let ys ← insertByKey key x ys
      pure (y :: ys)
    else pure (x :: y :: ys)

/-- `xs.sort(key = key)` -/
def sortByKey (key : α → Val F) (xs : List α) : Except PyError (List α) := do
  let ys ← xs.foldlM (fun ys x => insertByKey key x ys) []
  pure ys.reverse

end Sorting

/-! ## The methods -/

section Methods

variable {F : Type} [PyRuntime F] [DecidableEq F] [Affinity F]

/-- The calls that Python lets be inside each other. -/
def recursionLimit : ℕ := 1000

/-- `db.getTest(test_id = test_id)` -/
def getTest (testId : Val F) (db : Db F) : Except PyError (Obj TADATest F × Db F) := do
  let (obj, tests) ← SQLModel.get recursionLimit [("test_id", testId)] db.tests
  pure (obj, { db with tests := tests })

/-- `obj.getAssertion(assert_id)` -/
def getAssertion (obj : Obj TADATest F) (assertId : Val F) (db : Db F) :
    Except PyError (Obj TADAAssertion F × Db F) := do
  let (assertion, assertions) ←
    SQLModel.get recursionLimit [("test_id", obj.attr "test_id"), ("assert_id", assertId)] db.assertions
  pure (assertion, { db with assertions := assertions })

/-- `obj.assertions` -/
def assertionsOf (obj : Obj TADATest F) (db : Db F) :
    Except PyError (List (Obj TADAAssertion F)) := do
  let data ← SQLModel.execute (db.assertions.select [("test_id", (obj.attr "test_id").toStr)])
  pure (data.map (Obj.ofRow TADAAssertion))

/-- What identifies a test over its runs. -/
def identity : List String :=
  ["test_suite", "test_type", "test_name", "test_user", "commit_id"]

/-- `db.findTests(latest, **kwargs)` -/
def findTests [PyOrder F] (latest : Bool) (kwargs : Fields F) (db : Db F) :
    Except PyError (List (Obj TADATest F)) := do
  let objs ← SQLModel.find kwargs db.tests
  if latest then
    let objs ← sortByKey (fun o => o.attr "test_start") objs
    let latestOf ← objs.foldlM (fun (d : Dict (List (Key F)) (Obj TADATest F)) o => do
      let k ← identity.mapM fun attr => keyOf (o.attr attr)
      pure (Dict.set d k o)) []
    pure (latestOf.map Prod.snd)
  else pure objs

/-- A computation on the database.  What it has done stays when it raises. -/
abbrev Session (F : Type) [DecidableEq F] := ExceptT PyError (StateM (Db F))

/-- What a computation ends with, and the database after it. -/
def Session.exec {α : Type} (x : Session F α) (db : Db F) : Except PyError α × Db F :=
  StateT.run (ExceptT.run x) db

/-- `a.delete()`, for each of these assertions -/
def deleteAssertions : List (Obj TADAAssertion F) → Session F Unit
  | [] => pure ()
  | a :: as => do
    let assertions ← liftExcept (SQLModel.delete a (← get).assertions)
    modify fun db => { db with assertions := assertions }
    deleteAssertions as

/-- `obj.delete()` -/
def deleteTest (obj : Obj TADATest F) : Session F Unit := do
  let assertions ← liftExcept (assertionsOf obj (← get))
  deleteAssertions assertions
  let tests ← liftExcept (SQLModel.delete obj (← get).tests)
  modify fun db => { db with tests := tests }

/-! ## Purging -/

omit [PyRuntime F] [DecidableEq F] [Affinity F] in
/-- `cmp(x, y)`: there is no such function. -/
def cmp (_x _y : Val F) : Except PyError ℤ :=
  throw ⟨.nameError, "name 'cmp' is not defined"⟩

omit [PyRuntime F] [DecidableEq F] [Affinity F] in
/-- The first of these attributes that differs decides. -/
def cmpAttrs (x y : Obj TADATest F) : List String → Except PyError ℤ
  | [] => pure 0
  | attr :: attrs => do
    let c ← cmp (x.attr attr) (y.attr attr)
    if c ≠ 0 then pure c else cmpAttrs x y attrs

omit [PyRuntime F] [DecidableEq F] [Affinity F] in
/-- `self.equivalent(other)` -/
def equivalent (x y : Obj TADATest F) : Except PyError Bool := do
  let c ← cmpAttrs x y identity
  pure (c = 0)

omit [PyRuntime F] [DecidableEq F] [Affinity F] in
/-- `objs.sort(cmp = cmp, reverse = reverse)`: there is no such keyword. -/
def sortByCmp {α : Type} (_cmp : α → α → Except PyError ℤ) (_reverse : Bool) (_objs : List α) :
    Except PyError (List α) :=
  throw ⟨.typeError, "'cmp' is an invalid keyword argument for sort()"⟩

/-- The loop of `purgeOldTests`. -/
def purgeLoop (prev : Obj TADATest F) : List (Obj TADATest F) → Session F Unit
  | [] => pure ()
  | obj :: objs => do
    let same ← liftExcept (equivalent prev obj)
    if same then
      deleteTest obj
      purgeLoop prev objs
    else purgeLoop obj objs

/-- What `purgeOldTests` does with the sorted tests. -/
def purgeSorted : List (Obj TADATest F) → Session F Unit
  | [] => throw ⟨.stopIteration, ""⟩
  | prev :: objs => purgeLoop prev objs

/-- `db.purgeOldTests()` -/
def purgeOldTests [PyOrder F] : Session F Unit := do
  let objs ← liftExcept (findTests false [] (← get))
  let objs ← liftExcept (sortByCmp (fun x y => cmpAttrs x y (identity ++ ["test_start"])) true objs)
  purgeSorted objs

end Methods

/-! ## What purging does -/

section Purge

variable {F : Type} [PyRuntime F] [DecidableEq F] [Affinity F] [PyOrder F]

/-- **The latest tests are left**, with all and only their assertions. -/
def Purged (db db' : Db F) : Prop :=
  ∃ kept, findTests true [] db = .ok kept ∧
    (∀ r, r ∈ db'.tests.rows ↔ r ∈ db.tests.rows ∧ Obj.ofRow TADATest r ∈ kept) ∧
    ∀ r, r ∈ db'.assertions.rows ↔ r ∈ db.assertions.rows ∧
      ∃ obj ∈ kept, Dict.get? r "test_id" = some (.text (obj.attr "test_id").toStr)

/-- **`purgeOldTests` raises** before it has deleted anything. -/
theorem exec_purgeOldTests (db : Db F) :
    purgeOldTests.exec db =
      (.error ⟨.typeError, "'cmp' is an invalid keyword argument for sort()"⟩, db) := by
  have hfind : findTests false [] db = .ok (db.tests.rows.map (Obj.ofRow TADATest)) := by
    have hall : db.tests.rows.filter (TADATest.meets (SQLModel.texts ([] : Fields F))) =
        db.tests.rows := List.filter_true _
    rw [findTests, @SQLModel.find_eq_ok TADATest F _ _ _ [] rfl, ok_bind, hall, if_neg nofun]
    rfl
  show Session.exec (liftExcept (findTests false [] db) >>= fun objs =>
    liftExcept (sortByCmp (fun x y => cmpAttrs x y (identity ++ ["test_start"])) true objs) >>=
      purgeSorted) db = _
  rw [hfind]
  rfl

/-- **Old tests are purged from no database**: the method does not complete. -/
theorem not_purges (db : Db F) :
    ¬ ∃ db', purgeOldTests.exec db = (.ok (), db') ∧ Purged db db' := by
  rintro ⟨db', hexec, -⟩
  rw [exec_purgeOldTests] at hexec
  cases hexec

end Purge

/-! ## A sample -/

/-- Integers within 64 bits are stored as such. -/
instance : Affinity Json.SampleFloat where
  integer s :=
    match Json.scanNumber s.toList with
    | some ((i, []), []) =>
      if -2 ^ 63 ≤ Json.ofInteger i ∧ Json.ofInteger i < 2 ^ 63 then .int (Json.ofInteger i)
      else .text s
    | _ => .text s
  integer_toString n hmin hmax := by
    rw [Json.toList_toString, Json.scanNumber_intText]
    dsimp only
    rw [Json.ofInteger_intText, if_pos ⟨hmin, hmax⟩]

instance : PyOrder Json.SampleFloat where
  floatLt
    | .oneAndHalf, .infinity | .negInfinity, .oneAndHalf | .negInfinity, .infinity => true
    | _, _ => false
  floatLtInt
    | .oneAndHalf, n => 1 < n
    | .negInfinity, _ => true
    | _, _ => false
  intLtFloat
    | n, .oneAndHalf => n ≤ 1
    | _, .infinity => true
    | _, _ => false

/-- A row of a test. -/
def testRow {F : Type} (testId suite type name user commit desc : String) (start finish : ℤ) :
    Row F :=
  [("test_id", .text testId),
    ("test_suite", .text suite),
    ("test_type", .text type),
    ("test_name", .text name),
    ("test_user", .text user),
    ("commit_id", .text commit),
    ("test_desc", .text desc),
    ("test_start", .int start),
    ("test_finish", .int finish)]

/-- Two runs of one test. -/
def twoRuns : Db Json.SampleFloat where
  tests :=
    { rows :=
        [testRow "aa" "LDMSD" "FVT" "agg" "root" "-" "agg" 100 160,
          testRow "bb" "LDMSD" "FVT" "agg" "root" "-" "agg" 200 260]
      keys_eq := by decide
      unique := by decide }
  assertions := .empty

/-- The older one of two runs is not purged. -/
theorem not_purges_twoRuns :
    ¬ ∃ db', purgeOldTests.exec twoRuns = (.ok (), db') ∧ Purged twoRuns db' := by
  rintro ⟨db', hexec, -⟩
  rw [exec_purgeOldTests] at hexec
  cases hexec

end Tada
end LdmsTest
