import LdmsTest.Tada.Tadad

/-!
# What a finished test leaves in the database

The messages of a test that is not in the database are a `test-start`, reports of assertions, and a
`test-finish`.

* `statuses`: the last status that was reported for each assertion.
* `Recorded`: a row for each assertion that was reported, with its last status.
* `testFinish_fresh`: the row of the test, and its assertions.
-/

namespace LdmsTest
namespace Tada
namespace Tadad

open Val (Fields keyOf getItem intOf)
open Sql (Table Row Cell Affinity)
open SQLModel (Obj texts)

/-! ## Reports -/

/-- The assertion of a report, and the status. -/
def reportOf {F : Type} [Json.JsonFloat F] (m : Fields F) : String × String :=
  ((field m "assert-no").toStr, (field m "test-status").toStr)

/-- **The last status of each assertion**. -/
def statuses {F : Type} [Json.JsonFloat F] (reports : List (Fields F)) : Dict String String :=
  reports.foldl (fun d m => Dict.set d (reportOf m).1 (reportOf m).2) []

section Messages

variable {F : Type}

/-- A report of an assertion of the test. -/
structure IsReport (id : String) (m : Fields F) : Prop where
  msgType : Dict.get? m "msg-type" = some (.str "assert-status")
  testId : Dict.get? m "test-id" = some (.str id)
  no : ∃ v, Dict.get? m "assert-no" = some v ∧ v.isPrimitive
  status : ∃ s, Dict.get? m "test-status" = some (.str s)
  cond : "assert-cond" ∈ Dict.keys m
  desc : "assert-desc" ∈ Dict.keys m

/-- What a client announces about a test. -/
structure Announced where
  suite : String
  type : String
  name : String
  user : String
  commit : String
  desc : String

/-- A second that is a date, and that a column of integers can hold. -/
structure Second [Calendar] where
  second : ℤ
  min : -2 ^ 63 ≤ second
  max : second < 2 ^ 63
  date : Calendar.fromtimestamp second = .ok ()

variable [Calendar] [Json.JsonFloat F] [DecidableEq F]

/-- The start of the test. -/
structure IsStart (id : String) (a : Announced) (sec : Second) (m : Fields F) : Prop where
  msgType : Dict.get? m "msg-type" = some (.str "test-start")
  testId : Dict.get? m "test-id" = some (.str id)
  suite : Dict.get? m "test-suite" = some (.str a.suite)
  type : Dict.get? m "test-type" = some (.str a.type)
  name : Dict.get? m "test-name" = some (.str a.name)
  user : Dict.get? m "test-user" = some (.str a.user)
  commit : Dict.get? m "commit-id" = some (.str a.commit)
  desc : Dict.get? m "test-desc" = some (.str a.desc)
  timestamp : ∃ v, Dict.get? m "timestamp" = some v ∧ intOf v = .ok sec.second

/-- The end of the test. -/
structure IsFinish (id : String) (sec : Second) (m : Fields F) : Prop where
  msgType : Dict.get? m "msg-type" = some (.str "test-finish")
  testId : Dict.get? m "test-id" = some (.str id)
  timestamp : ∃ v, Dict.get? m "timestamp" = some v ∧ intOf v = .ok sec.second

variable {id : String} {m : Fields F}

omit [DecidableEq F] [Json.JsonFloat F] [Calendar] in
theorem field_eq {k : String} {v : Val F} (h : Dict.get? m k = some v) : field m k = v := by
  rw [field, h, Option.getD_some]

omit [DecidableEq F] [Json.JsonFloat F] [Calendar] in
theorem isStr_self (s : String) : isStr (.str s : Val F) s :=
  beq_self_eq_true s

omit [DecidableEq F] [Json.JsonFloat F] [Calendar] in
theorem not_isStr {s t : String} (h : s ≠ t) : ¬ isStr (.str s : Val F) t := fun heq =>
  h (beq_iff_eq.mp heq)

theorem IsStart.fit {a : Announced} {sec : Second} (h : IsStart id a sec m) : Fit m where
  start _ := by
    obtain ⟨v, hv, hint⟩ := h.timestamp
    refine ⟨?_, v, sec.second, hv, hint, sec.date⟩
    intro k hk
    simp only [List.mem_cons, List.not_mem_nil, or_false] at hk
    rcases hk with rfl | rfl | rfl | rfl | rfl
    · exact Dict.mem_keys_of_get? h.suite
    · exact Dict.mem_keys_of_get? h.type
    · exact Dict.mem_keys_of_get? h.name
    · exact Dict.mem_keys_of_get? h.user
    · exact Dict.mem_keys_of_get? h.commit
  status his := absurd (field_eq h.msgType ▸ his) (not_isStr (by decide))
  finish his := absurd (field_eq h.msgType ▸ his) (not_isStr (by decide))

theorem IsReport.fit (h : IsReport id m) : Fit m where
  start his := absurd (field_eq h.msgType ▸ his) (not_isStr (by decide))
  status _ := by
    obtain ⟨s, hs⟩ := h.status
    refine ⟨?_, ?_⟩
    · intro k hk
      simp only [List.mem_cons, List.not_mem_nil, or_false] at hk
      rcases hk with rfl | rfl
      · exact h.desc
      · exact h.cond
    · intro k hk
      simp only [List.mem_cons, List.not_mem_nil, or_false] at hk
      rcases hk with rfl | rfl
      · exact ⟨_, hs, rfl⟩
      · exact h.no
  finish his := absurd (field_eq h.msgType ▸ his) (not_isStr (by decide))

theorem IsFinish.fit {sec : Second} (h : IsFinish id sec m) : Fit m where
  start his := absurd (field_eq h.msgType ▸ his) (not_isStr (by decide))
  status his := absurd (field_eq h.msgType ▸ his) (not_isStr (by decide))
  finish _ := by
    obtain ⟨v, hv, hint⟩ := h.timestamp
    exact ⟨v, _, hv, hint⟩

omit [Calendar] [DecidableEq F] in
theorem statuses_append (reports : List (Fields F)) (m : Fields F) :
    statuses (reports ++ [m]) = Dict.set (statuses reports) (reportOf m).1 (reportOf m).2 :=
  List.foldl_append

end Messages

/-! ## The rows of the assertions -/

section Assertions

variable {F : Type} [DecidableEq F] {id : String}

/-- The row of an assertion with a status. -/
def RowOf (id : String) (r : Row F) (p : String × String) : Prop :=
  Dict.get? r "test_id" = some (.text id) ∧ Dict.get? r "assert_id" = some (.text p.1) ∧
    Dict.get? r "assert_result" = some (.text p.2)

/-- **The rows of a test are those of these statuses**. -/
def Recorded (id : String) (t : Table TADAAssertion F) (d : Dict String String) : Prop :=
  List.Forall₂ (RowOf id) t.rows d ∧ (Dict.keys d).Nodup

variable [Json.JsonFloat F] [Affinity F] {obj : Obj TADATest F}

/-- A row of an assertion is found by its number. -/
theorem RowOf.meets_iff {r : Row F} {p : String × String} (h : RowOf id r p) (no : Val F) :
    TADAAssertion.meets (texts [("test_id", .str id), ("assert_id", no)]) r ↔
      p.1 = no.toStr := by
  rw [Sql.Schema.meets_iff]
  show (∀ q ∈ [("test_id", id), ("assert_id", no.toStr)],
    Dict.get? r q.1 = some (TADAAssertion.cell q.1 q.2)) ↔ _
  rw [List.forall_mem_cons, List.forall_mem_singleton, h.1, h.2.1]
  show some (Cell.text id) = some (.text id) ∧ some (Cell.text p.1) = some (.text no.toStr) ↔ _
  rw [Option.some_inj, Option.some_inj, Cell.text.injEq, Cell.text.injEq]
  exact and_iff_right rfl

omit [DecidableEq F] in
/-- The row of an assertion after a report. -/
theorem rowOf_assign {a : Obj TADAAssertion F} {no cond desc : Val F} {status : String} {r : Row F}
    (hid : Dict.get? r "test_id" = some (.text id))
    (hno : Dict.get? r "assert_id" = some (.text no.toStr)) :
    RowOf id (TADAAssertion.assign (texts (reported a (.str status) cond desc).changes) r)
      (no.toStr, status) := by
  have hattr : (reported a (.str status) cond desc).attr "assert_result" = .str status := by
    rw [reported, Obj.attr_setAttr_of_ne (by decide), Obj.attr_setAttr_of_ne (by decide),
      Obj.attr_setAttr_self (by decide)]
  refine ⟨?_, ?_, ?_⟩
  · rwa [SQLModel.get?_assign_of_mem_ids _ (by decide)]
  · rwa [SQLModel.get?_assign_of_mem_ids _ (by decide)]
  · rw [SQLModel.get?_assign_changes (by decide) (by decide) (by rw [hattr]; rfl),
      hattr]
    rfl

/-- **What a report does to the rows**: the row of its assertion, which is made if there is none,
is assigned. -/
theorem exists_of_dbTestAssert (h : IsTest obj id) {m : Fields F} (hm : IsReport id m)
    {db db' : Db F} (hdb' : dbTestAssert obj m db = .ok db') :
    ∃ (no : Val F) (status : String) (a : Obj TADAAssertion F) (cond desc : Val F)
      (rows : List (Row F)) (row : Row F), reportOf m = (no.toStr, status) ∧ db'.tests = db.tests ∧
      TADAAssertion.meets (texts [("test_id", .str id), ("assert_id", no)]) row ∧
      ((rows = db.assertions.rows ∧ row ∈ rows) ∨
        ((∀ r ∈ db.assertions.rows,
            TADAAssertion.meets (texts [("test_id", .str id), ("assert_id", no)]) r = false) ∧
          rows = db.assertions.rows ++ [row])) ∧
      db'.assertions.rows = rows.map fun r =>
        if TADAAssertion.meets (texts [("test_id", .str id), ("assert_id", no)]) r then
          TADAAssertion.assign (texts (reported a (.str status) cond desc).changes) r else r := by
  obtain ⟨no, hno, -⟩ := hm.no
  obtain ⟨status, hstatus⟩ := hm.status
  have hreport : reportOf m = (no.toStr, status) := by
    rw [reportOf, field_eq hno, field_eq hstatus]
    rfl
  have hids : Dict.keys ([("test_id", .str id), ("assert_id", no)] : Fields F) =
      TADAAssertion.ids := rfl
  obtain ⟨row, u, hget, hmeets, hcases⟩ :=
    SQLModel.exists_get_eq_ok hids (List.cons_ne_nil _ _) db.assertions 998
  have hassertion : getAssertion obj no db =
      .ok (Obj.ofRow TADAAssertion row, { db with assertions := u }) := by
    rw [getAssertion, h.attr, show recursionLimit = 998 + 2 from rfl, hget]
    rfl
  rw [dbTestAssert, Val.getItem_eq_ok_iff.mpr hno, ok_bind, hassertion, ok_bind] at hdb'
  dsimp only at hdb'
  rw [Val.getItem_eq_ok_iff.mpr hstatus, ok_bind] at hdb'
  obtain ⟨cond, -, hdb'⟩ := exists_of_bind_ok hdb'
  obtain ⟨desc, -, hdb'⟩ := exists_of_bind_ok hdb'
  obtain ⟨w, hw, hdb'⟩ := exists_of_bind_ok hdb'
  cases hdb'
  have hwrows := SQLModel.rows_of_commit hw
  have hobjId : texts (reported (Obj.ofRow TADAAssertion row) (.str status) cond desc).objId =
      texts [("test_id", .str id), ("assert_id", no)] :=
    SQLModel.texts_objId_ofRow hids hmeets
  rw [hobjId] at hwrows
  refine ⟨no, status, _, cond, desc, u.rows, row, hreport, rfl, hmeets, ?_, hwrows⟩
  rcases hcases with ⟨rfl, hmem⟩ | ⟨hnone, -, hrows⟩
  · exact .inl ⟨rfl, hmem⟩
  · exact .inr ⟨hnone, hrows⟩

/-- **A report is recorded**: the row of its assertion has its status. -/
theorem recorded_dbTestAssert (h : IsTest obj id) {m : Fields F} (hm : IsReport id m) {db db' : Db F}
    {d : Dict String String} (hrec : Recorded id db.assertions d)
    (hdb' : dbTestAssert obj m db = .ok db') :
    db'.tests = db.tests ∧
      Recorded id db'.assertions (Dict.set d (reportOf m).1 (reportOf m).2) := by
  obtain ⟨hrows, hnodup⟩ := hrec
  obtain ⟨no, status, a, cond, desc, rows, row, hreport, htests, hmeets, hcases, hwrows⟩ :=
    exists_of_dbTestAssert h hm hdb'
  have hids : Dict.keys ([("test_id", .str id), ("assert_id", no)] : Fields F) =
      TADAAssertion.ids := rfl
  have hset : Dict.set d (reportOf m).1 (reportOf m).2 = Dict.set d no.toStr status := by
    rw [hreport]
  rw [hset]
  refine ⟨htests, ?_, Dict.nodup_keys_set hnodup _ _⟩
  rw [hwrows]
  -- a row of another assertion is left alone
  have hmiss : ∀ r p, RowOf id r p → p.1 ≠ no.toStr →
      (if TADAAssertion.meets (texts [("test_id", .str id), ("assert_id", no)]) r then
        TADAAssertion.assign (texts (reported a (.str status) cond desc).changes) r else r) = r :=
    fun r p hr hne => if_neg fun hmeets => hne ((hr.meets_iff no).mp hmeets)
  rcases hcases with ⟨rfl, hmem⟩ | ⟨hno', rfl⟩
  · refine Dict.forall₂_set hrows hnodup ?_ (fun r p hr hp => ?_) hmiss
    · obtain ⟨i, hi⟩ := List.mem_iff_getElem?.mp hmem
      obtain ⟨p, hp, hrp⟩ := exists_right_of_forall₂ hrows hi
      rw [← (hrp.meets_iff no).mp hmeets]
      exact List.mem_map_of_mem (f := Prod.fst) (List.mem_of_getElem? hp)
    · rw [if_pos ((hr.meets_iff no).mpr hp)]
      exact rowOf_assign hr.1 (hp ▸ hr.2.1)
  · have hnotMem : no.toStr ∉ Dict.keys d := by
      intro hmem
      obtain ⟨p, hp, hpno⟩ := List.mem_map.mp hmem
      obtain ⟨i, hi⟩ := List.mem_iff_getElem?.mp hp
      obtain ⟨r, hr, hrp⟩ := exists_left_of_forall₂ hrows hi
      have hmeets := (hrp.meets_iff no).mpr hpno
      rw [hno' r (List.mem_of_getElem? hr)] at hmeets
      cases hmeets
    rw [List.map_append, Dict.map_eq_of_forall₂ hrows hnotMem hmiss, Dict.set_of_notMem hnotMem]
    refine List.rel_append hrows (.cons ?_ .nil)
    dsimp only
    rw [if_pos hmeets]
    exact rowOf_assign (SQLModel.get?_of_meets hids hmeets List.mem_cons_self)
      (SQLModel.get?_of_meets hids hmeets (List.mem_cons_of_mem _ List.mem_cons_self))

/-! ### The status of an assertion -/

/-- `SELECT assert_result FROM TADAAssertion WHERE test_id=… and assert_id=…` -/
def resultOf (id no : String) (t : Table TADAAssertion F) : Option (Cell F) :=
  (t.rows.find? (TADAAssertion.meets [("test_id", id), ("assert_id", no)])).bind fun r =>
    Dict.get? r "assert_result"

/-- What a report assigns is not the primary key. -/
theorem meets_assign_reported (no : String) {a : Obj TADAAssertion F} {status cond desc : Val F}
    (r : Row F) :
    TADAAssertion.meets [("test_id", id), ("assert_id", no)]
        (TADAAssertion.assign (texts (reported a status cond desc).changes) r) =
      TADAAssertion.meets [("test_id", id), ("assert_id", no)] r := by
  rw [Bool.eq_iff_iff, Sql.Schema.meets_iff, Sql.Schema.meets_iff, List.forall_mem_cons,
    List.forall_mem_singleton, List.forall_mem_cons, List.forall_mem_singleton,
    SQLModel.get?_assign_of_mem_ids _ (show "test_id" ∈ TADAAssertion.ids by decide),
    SQLModel.get?_assign_of_mem_ids _ (show "assert_id" ∈ TADAAssertion.ids by decide)]

omit [Json.JsonFloat F] in
/-- A row is the row of one assertion. -/
theorem eq_of_meets {no no' : String} {r : Row F}
    (h : TADAAssertion.meets [("test_id", id), ("assert_id", no)] r)
    (h' : TADAAssertion.meets [("test_id", id), ("assert_id", no')] r) : no = no' := by
  have hcell {no : String} (h : TADAAssertion.meets [("test_id", id), ("assert_id", no)] r) :
      Dict.get? r "assert_id" = some (.text no) :=
    Sql.Schema.meets_iff.mp h ("assert_id", no) (List.mem_cons_of_mem _ List.mem_cons_self)
  exact Cell.text.inj (Option.some_inj.mp ((hcell h).symm.trans (hcell h')))

/-- **The status of an assertion after a report**. -/
theorem resultOf_dbTestAssert (h : IsTest obj id) {m : Fields F} (hm : IsReport id m) {db db' : Db F}
    (hdb' : dbTestAssert obj m db = .ok db') (no : String) :
    resultOf id no db'.assertions =
      if (reportOf m).1 = no then some (.text (reportOf m).2) else resultOf id no db.assertions := by
  obtain ⟨v, status, a, cond, desc, rows, row, hreport, -, hmeets, hcases, hwrows⟩ :=
    exists_of_dbTestAssert h hm hdb'
  have hmeets : TADAAssertion.meets [("test_id", id), ("assert_id", v.toStr)] row := hmeets
  have hkept (r : Row F) : TADAAssertion.meets [("test_id", id), ("assert_id", no)]
      (if TADAAssertion.meets [("test_id", id), ("assert_id", v.toStr)] r then
        TADAAssertion.assign (texts (reported a (.str status) cond desc).changes) r else r) =
      TADAAssertion.meets [("test_id", id), ("assert_id", no)] r := by
    split
    · exact meets_assign_reported no r
    · rfl
  have hfind : db'.assertions.rows.find? (TADAAssertion.meets [("test_id", id), ("assert_id", no)]) =
      (rows.find? (TADAAssertion.meets [("test_id", id), ("assert_id", no)])).map fun r =>
        if TADAAssertion.meets [("test_id", id), ("assert_id", v.toStr)] r then
          TADAAssertion.assign (texts (reported a (.str status) cond desc).changes) r else r := by
    rw [hwrows, List.find?_map]
    exact congrArg (Option.map _) (congrArg (rows.find? ·) (funext hkept))
  rw [resultOf, hfind, hreport]
  split
  · next hno =>
    -- the row that is found is the row of the report
    have hno : v.toStr = no := hno
    subst hno
    have hrow : row ∈ rows := by
      rcases hcases with ⟨-, hrow⟩ | ⟨-, rfl⟩
      · exact hrow
      · exact List.mem_append_right _ List.mem_cons_self
    obtain ⟨r, hr⟩ := Option.isSome_iff_exists.mp (List.find?_isSome.mpr ⟨row, hrow, hmeets⟩)
    have hfound := List.find?_some hr
    rw [hr, Option.map_some, Option.bind_some, if_pos hfound]
    have hid := Sql.Schema.meets_iff.mp hfound ("test_id", id) List.mem_cons_self
    have hcell := Sql.Schema.meets_iff.mp hfound ("assert_id", v.toStr)
      (List.mem_cons_of_mem _ List.mem_cons_self)
    exact (rowOf_assign hid hcell).2.2
  · next hno =>
    have hno : v.toStr ≠ no := hno
    have hrows : rows.find? (TADAAssertion.meets [("test_id", id), ("assert_id", no)]) =
        db.assertions.rows.find? (TADAAssertion.meets [("test_id", id), ("assert_id", no)]) := by
      rcases hcases with ⟨rfl, -⟩ | ⟨-, rfl⟩
      · rfl
      · rw [List.find?_append, List.find?_cons_of_neg fun hrow => hno (eq_of_meets hmeets hrow),
          List.find?_nil, Option.or_none]
    rw [hrows, resultOf]
    cases hr : db.assertions.rows.find? (TADAAssertion.meets [("test_id", id), ("assert_id", no)])
      with
    | none => rfl
    | some r =>
      have hfound := List.find?_some hr
      rw [Option.map_some, Option.bind_some, Option.bind_some,
        if_neg fun hrow => hno (eq_of_meets hrow hfound)]

variable [Calendar]

/-- The reports of a test are recorded, one after the other. -/
theorem recorded_foldlM {reports : List (Fields F)} (hreports : ∀ m ∈ reports, IsReport id m)
    (h : IsTest obj id) {db : Db F} {d : Dict String String} (hrec : Recorded id db.assertions d)
    {acc : Obj TADATest F × Db F} (hacc : reports.foldlM record (obj, db) = .ok acc) :
    acc.1 = obj ∧ acc.2.tests = db.tests ∧ Recorded id acc.2.assertions
      (reports.foldl (fun d m => Dict.set d (reportOf m).1 (reportOf m).2) d) := by
  induction reports generalizing db d with
  | nil =>
    cases hacc
    exact ⟨rfl, rfl, hrec⟩
  | cons m reports ih =>
    obtain ⟨hm, hreports⟩ := List.forall_mem_cons.mp hreports
    rw [List.foldlM_cons] at hacc
    obtain ⟨acc₁, hacc₁, hacc⟩ := exists_of_bind_ok hacc
    rw [record, Val.getItem_eq_ok_iff.mpr hm.msgType, ok_bind,
      if_neg (not_isStr (by decide)), if_pos (isStr_self _)] at hacc₁
    obtain ⟨-, -, hacc₁⟩ := exists_of_bind_ok hacc₁
    obtain ⟨db', hdb', hacc₁⟩ := exists_of_bind_ok hacc₁
    cases hacc₁
    obtain ⟨htests, hrec'⟩ := recorded_dbTestAssert h hm hrec hdb'
    obtain ⟨hobj, htests', hrec''⟩ := ih hreports hrec' hacc
    exact ⟨hobj, htests'.trans htests, hrec''⟩

/-- **The status of an assertion after reports**: the last one that was reported, or what it was
before. -/
theorem resultOf_foldlM {reports : List (Fields F)} (hreports : ∀ m ∈ reports, IsReport id m)
    (h : IsTest obj id) {db : Db F} {acc : Obj TADATest F × Db F}
    (hacc : reports.foldlM record (obj, db) = .ok acc) (no : String) :
    acc.1 = obj ∧ resultOf id no acc.2.assertions =
      ((Dict.get? (statuses reports) no).map Cell.text).or (resultOf id no db.assertions) := by
  induction reports using List.reverseRecOn generalizing acc with
  | nil =>
    cases hacc
    exact ⟨rfl, rfl⟩
  | append_singleton reports m ih =>
    obtain ⟨hreports, hm⟩ := List.forall_mem_append.mp hreports
    have hm := List.forall_mem_singleton.mp hm
    rw [List.foldlM_append] at hacc
    obtain ⟨⟨obj₁, db₁⟩, hacc₁, hlast⟩ := exists_of_bind_ok hacc
    obtain ⟨hobj, hresult⟩ := ih hreports hacc₁
    obtain rfl : obj₁ = obj := hobj
    rw [List.foldlM_cons] at hlast
    obtain ⟨acc₂, hacc₂, hlast⟩ := exists_of_bind_ok hlast
    cases hlast
    rw [record, Val.getItem_eq_ok_iff.mpr hm.msgType, ok_bind, if_neg (not_isStr (by decide)),
      if_pos (isStr_self _)] at hacc₂
    obtain ⟨-, -, hacc₂⟩ := exists_of_bind_ok hacc₂
    obtain ⟨db', hdb', hacc₂⟩ := exists_of_bind_ok hacc₂
    cases hacc₂
    refine ⟨rfl, ?_⟩
    rw [resultOf_dbTestAssert h hm hdb', hresult, statuses_append, Dict.get?_set]
    split
    · rfl
    · rfl

end Assertions

/-! ## The row of the test -/

section Test

variable {F : Type} [Json.JsonFloat F] [DecidableEq F] [Affinity F] {id : String}

omit [DecidableEq F] in
/-- A row with the attributes of a test. -/
theorem assign_eq_testRow {obj : Obj TADATest F} {r : Row F} {a : Announced} {start finish : ℤ}
    (hkeys : Dict.keys r = TADATest.names) (hid : Dict.get? r "test_id" = some (.text id))
    (hsuite : obj.attr "test_suite" = .str a.suite) (htype : obj.attr "test_type" = .str a.type)
    (hname : obj.attr "test_name" = .str a.name) (huser : obj.attr "test_user" = .str a.user)
    (hcommit : obj.attr "commit_id" = .str a.commit) (hdesc : obj.attr "test_desc" = .str a.desc)
    (hstart : obj.attr "test_start" = .int start) (hfinish : obj.attr "test_finish" = .int finish)
    (hmin : -2 ^ 63 ≤ start) (hmax : start < 2 ^ 63) (hmin' : -2 ^ 63 ≤ finish)
    (hmax' : finish < 2 ^ 63) :
    TADATest.assign (texts obj.changes) r =
      testRow id a.suite a.type a.name a.user a.commit a.desc start finish := by
  have hassigned := TADATest.keys_assign (SQLModel.knows_changes obj) hkeys
  have hget {k : String} (hk : k ∈ TADATest.names) (hne : k ∉ TADATest.ids) {v : Val F}
      (hv : obj.attr k = v) (hsome : SQLModel.isSome v) :
      Dict.get? (TADATest.assign (texts obj.changes) r) k = some (TADATest.cell k v.toStr) := by
    rw [SQLModel.get?_assign_changes hk hne (hv ▸ hsome), hv]
  refine Dict.ext_of_keys hassigned (hassigned ▸ TADATest.nodup) fun k hk => ?_
  rw [hassigned] at hk
  simp only [Sql.Schema.names, TADATest, Dict.keys_cons, Dict.keys_nil, List.mem_cons,
    List.not_mem_nil, or_false] at hk
  rcases hk with rfl | rfl | rfl | rfl | rfl | rfl | rfl | rfl | rfl
  · rw [SQLModel.get?_assign_of_mem_ids _ (by decide), hid]
    rfl
  · exact hget (by decide) (by decide) hsuite rfl
  · exact hget (by decide) (by decide) htype rfl
  · exact hget (by decide) (by decide) hname rfl
  · exact hget (by decide) (by decide) huser rfl
  · exact hget (by decide) (by decide) hcommit rfl
  · exact hget (by decide) (by decide) hdesc rfl
  · refine (hget (by decide) (by decide) hstart rfl).trans ?_
    exact congrArg some (Affinity.integer_toString start hmin hmax)
  · refine (hget (by decide) (by decide) hfinish rfl).trans ?_
    exact congrArg some (Affinity.integer_toString finish hmin' hmax')

theorem rows_of_commitTest {obj : Obj TADATest F} {db : Db F} {acc : Obj TADATest F × Db F}
    (h : commitTest obj db = .ok acc) :
    acc.1 = obj ∧ acc.2.assertions = db.assertions ∧ acc.2.tests.rows = db.tests.rows.map fun r =>
      if TADATest.meets (texts obj.objId) r then TADATest.assign (texts obj.changes) r else r := by
  rw [commitTest] at h
  obtain ⟨u, hu, h⟩ := exists_of_bind_ok h
  cases h
  exact ⟨rfl, rfl, SQLModel.rows_of_commit hu⟩

/-- The one row of the test is the row of the object. -/
theorem rows_of_commitTest_singleton {obj : Obj TADATest F} (h : IsTest obj id) {db : Db F}
    {r : Row F} (hr : Dict.get? r "test_id" = some (.text id)) (hrows : db.tests.rows = [r])
    {acc : Obj TADATest F × Db F} (hacc : commitTest obj db = .ok acc) :
    acc.2.tests.rows = [TADATest.assign (texts obj.changes) r] := by
  have hmeets : TADATest.meets (texts obj.objId) r := by
    rw [Sql.Schema.meets_iff, h.objId]
    exact List.forall_mem_singleton.mpr hr
  rw [(rows_of_commitTest hacc).2.2, hrows, List.map_singleton, if_pos hmeets]

/-- The test is made. -/
theorem exists_getTest_empty (id : String) :
    ∃ obj db r, getTest (.str id) (Db.empty F) = .ok (obj, db) ∧ IsTest obj id ∧
      db.tests.rows = [r] ∧ db.assertions.rows = [] ∧ Dict.get? r "test_id" = some (.text id) := by
  have hids : Dict.keys ([("test_id", .str id)] : Fields F) = TADATest.ids := rfl
  obtain ⟨r, u, hget, hmeets, hcases⟩ :=
    SQLModel.exists_get_eq_ok hids (List.cons_ne_nil _ _) (Db.empty F).tests 998
  refine ⟨_, { Db.empty F with tests := u }, r, ?_, ⟨SQLModel.objId_ofRow hids hmeets,
    SQLModel.attr_ofRow_of_meets hids hmeets List.mem_cons_self⟩, ?_, rfl,
    SQLModel.get?_of_meets hids hmeets List.mem_cons_self⟩
  · rw [getTest, show recursionLimit = 998 + 2 from rfl, hget]
    rfl
  · rcases hcases with ⟨-, hmem⟩ | ⟨-, -, hrows⟩
    · cases hmem
    · exact hrows

variable [Calendar]

theorem commitTest_of_dbTestStart {obj : Obj TADATest F} {a : Announced} {sec : Second}
    {m : Fields F} (hm : IsStart id a sec m) (db : Db F) :
    dbTestStart obj m db = commitTest ((announced obj (.str a.suite) (.str a.type) (.str a.name)
      (.str a.user) (.str a.commit) (some (.str a.desc))).setAttr "test_start"
        (.int sec.second)) db := by
  obtain ⟨v, hv, hint⟩ := hm.timestamp
  rw [dbTestStart, Val.getItem_eq_ok_iff.mpr hm.suite, ok_bind, Val.getItem_eq_ok_iff.mpr hm.type,
    ok_bind, Val.getItem_eq_ok_iff.mpr hm.name, ok_bind, Val.getItem_eq_ok_iff.mpr hm.user,
    ok_bind, Val.getItem_eq_ok_iff.mpr hm.commit, ok_bind, Val.getItem_eq_ok_iff.mpr hv, ok_bind,
    hint, ok_bind, hm.desc]

theorem commitTest_of_dbTestFinish {obj : Obj TADATest F} {sec : Second} {m : Fields F}
    (hm : IsFinish id sec m) (db : Db F) :
    dbTestFinish obj m db = commitTest (obj.setAttr "test_finish" (.int sec.second)) db := by
  obtain ⟨v, hv, hint⟩ := hm.timestamp
  rw [dbTestFinish, Val.getItem_eq_ok_iff.mpr hv, ok_bind, hint, ok_bind]

/-- The messages of a test can be recorded. -/
theorem exists_testFinish_messages {a : Announced} {sec sec' : Second} {start finish : Fields F}
    {reports : List (Fields F)} (hstart : IsStart id a sec start)
    (hreports : ∀ m ∈ reports, IsReport id m) (hfinish : IsFinish id sec' finish) (db : Db F) :
    ∃ db', testFinish (start :: (reports ++ [finish])) db = .ok db' := by
  have hall {P : Fields F → Prop} (h : P start) (h' : ∀ m, IsReport id m → P m) (h'' : P finish) :
      ∀ m ∈ start :: (reports ++ [finish]), P m :=
    List.forall_mem_cons.mpr ⟨h, List.forall_mem_append.mpr
      ⟨fun m hm => h' m (hreports m hm), List.forall_mem_singleton.mpr h''⟩⟩
  exact exists_testFinish
    (hall hstart.testId (fun _ h => h.testId) hfinish.testId)
    (hall (Dict.mem_keys_of_get? hstart.msgType) (fun _ h => Dict.mem_keys_of_get? h.msgType)
      (Dict.mem_keys_of_get? hfinish.msgType))
    (hall hstart.fit (fun _ h => h.fit) hfinish.fit) db

/-- **A test that is not in the database** leaves its row, and a row for each assertion with the
last status that was reported. -/
theorem testFinish_fresh {a : Announced} {sec sec' : Second} {start finish : Fields F}
    {reports : List (Fields F)} (hstart : IsStart id a sec start)
    (hreports : ∀ m ∈ reports, IsReport id m) (hfinish : IsFinish id sec' finish) :
    ∃ db, testFinish (start :: (reports ++ [finish])) (Db.empty F) = .ok db ∧
      db.tests.rows = [testRow id a.suite a.type a.name a.user a.commit a.desc sec.second
        sec'.second] ∧
      Recorded id db.assertions (statuses reports) := by
  obtain ⟨db, hdb⟩ := exists_testFinish_messages hstart hreports hfinish (Db.empty F)
  refine ⟨db, hdb, ?_⟩
  obtain ⟨obj, db₀, r, hget, hobj, hrows, hnone, hid⟩ := exists_getTest_empty (F := F) id
  rw [testFinish, Val.getItem_eq_ok_iff.mpr hstart.testId, ok_bind, hget, ok_bind] at hdb
  obtain ⟨acc, hacc, hdb⟩ := exists_of_bind_ok hdb
  cases hdb
  rw [List.foldlM_cons] at hacc
  obtain ⟨acc₁, hacc₁, hacc⟩ := exists_of_bind_ok hacc
  rw [List.foldlM_append] at hacc
  obtain ⟨acc₂, hacc₂, hacc⟩ := exists_of_bind_ok hacc
  rw [List.foldlM_cons] at hacc
  obtain ⟨acc₃, hacc₃, hacc⟩ := exists_of_bind_ok hacc
  cases hacc
  -- the start
  rw [record, Val.getItem_eq_ok_iff.mpr hstart.msgType, ok_bind, if_pos (isStr_self _)] at hacc₁
  obtain ⟨-, -, hacc₁⟩ := exists_of_bind_ok hacc₁
  rw [commitTest_of_dbTestStart hstart] at hacc₁
  have hobj₁ := (hobj.announced (.str a.suite) (.str a.type) (.str a.name) (.str a.user)
    (.str a.commit) (some (.str a.desc))).setAttr (k := "test_start") (by decide)
      (.int sec.second)
  obtain ⟨hacc₁_fst, hassertions₁, -⟩ := rows_of_commitTest hacc₁
  have hrows₁ := rows_of_commitTest_singleton hobj₁ hid hrows hacc₁
  -- the reports
  have hrec₁ : Recorded id acc₁.2.assertions [] := by
    refine ⟨?_, List.nodup_nil⟩
    rw [hassertions₁, hnone]
    exact .nil
  obtain ⟨hacc₂_fst, htests₂, hrec₂⟩ := recorded_foldlM hreports (hacc₁_fst ▸ hobj₁) hrec₁ hacc₂
  -- the end
  obtain ⟨obj₂, db₂⟩ := acc₂
  obtain rfl : obj₂ = _ := hacc₂_fst.trans hacc₁_fst
  rw [record, Val.getItem_eq_ok_iff.mpr hfinish.msgType, ok_bind, if_neg (not_isStr (by decide)),
    if_neg (not_isStr (by decide)), if_pos (isStr_self _), commitTest_of_dbTestFinish hfinish]
    at hacc₃
  have hid₁ : Dict.get? (TADATest.assign (texts ((announced obj (.str a.suite) (.str a.type)
      (.str a.name) (.str a.user) (.str a.commit) (some (.str a.desc))).setAttr "test_start"
        (.int sec.second)).changes) r) "test_id" = some (.text id) := by
    rwa [SQLModel.get?_assign_of_mem_ids _ (by decide)]
  have hrows₃ := rows_of_commitTest_singleton (hobj₁.setAttr (by decide) _) hid₁
    (htests₂ ▸ hrows₁) hacc₃
  refine ⟨hrows₃.trans (congrArg (fun r => [r]) ?_), ?_⟩
  · have hattr {k : String} (hk : k ∈ TADATest.names) := Obj.attr_setAttr (F := F) hk
    have hkeys := acc₁.2.tests.keys_eq _ (hrows₁ ▸ List.mem_cons_self)
    refine assign_eq_testRow hkeys hid₁ ?_ ?_ ?_ ?_ ?_ ?_ ?_ ?_ sec.min sec.max sec'.min sec'.max
    · simp [announced, hattr (show "test_suite" ∈ TADATest.names by decide)]
    · simp [announced, hattr (show "test_type" ∈ TADATest.names by decide)]
    · simp [announced, hattr (show "test_name" ∈ TADATest.names by decide)]
    · simp [announced, hattr (show "test_user" ∈ TADATest.names by decide)]
    · simp [announced, hattr (show "commit_id" ∈ TADATest.names by decide)]
    · simp [announced, hattr (show "test_desc" ∈ TADATest.names by decide)]
    · simp [hattr (show "test_start" ∈ TADATest.names by decide)]
    · simp [hattr (show "test_finish" ∈ TADATest.names by decide)]
  · rw [(rows_of_commitTest hacc₃).2.1]
    exact hrec₂

/-- **The statuses of a test that is finished**: the last ones that were reported, in any
database. -/
theorem resultOf_testFinish {a : Announced} {sec sec' : Second} {start finish : Fields F}
    {reports : List (Fields F)} (hstart : IsStart id a sec start)
    (hreports : ∀ m ∈ reports, IsReport id m) (hfinish : IsFinish id sec' finish) {db db' : Db F}
    (hdb' : testFinish (start :: (reports ++ [finish])) db = .ok db') (no : String) :
    resultOf id no db'.assertions =
      ((Dict.get? (statuses reports) no).map Cell.text).or (resultOf id no db.assertions) := by
  obtain ⟨obj, db₀, hget, hobj, -⟩ := exists_getTest id db
  have hassertions₀ : db₀.assertions = db.assertions := by
    rw [getTest] at hget
    obtain ⟨p, -, hp⟩ := exists_of_bind_ok hget
    cases hp
    rfl
  rw [testFinish, Val.getItem_eq_ok_iff.mpr hstart.testId, ok_bind, hget, ok_bind] at hdb'
  obtain ⟨acc, hacc, hdb'⟩ := exists_of_bind_ok hdb'
  cases hdb'
  rw [List.foldlM_cons] at hacc
  obtain ⟨acc₁, hacc₁, hacc⟩ := exists_of_bind_ok hacc
  rw [List.foldlM_append] at hacc
  obtain ⟨acc₂, hacc₂, hacc⟩ := exists_of_bind_ok hacc
  rw [List.foldlM_cons] at hacc
  obtain ⟨acc₃, hacc₃, hacc⟩ := exists_of_bind_ok hacc
  cases hacc
  -- the start
  rw [record, Val.getItem_eq_ok_iff.mpr hstart.msgType, ok_bind, if_pos (isStr_self _)] at hacc₁
  obtain ⟨-, -, hacc₁⟩ := exists_of_bind_ok hacc₁
  rw [commitTest_of_dbTestStart hstart] at hacc₁
  obtain ⟨hobj₁, hassertions₁, -⟩ := rows_of_commitTest hacc₁
  have htest₁ := (hobj.announced (.str a.suite) (.str a.type) (.str a.name) (.str a.user)
    (.str a.commit) (some (.str a.desc))).setAttr (k := "test_start") (by decide)
      (.int sec.second)
  -- the reports
  obtain ⟨-, hresult⟩ := resultOf_foldlM hreports (hobj₁ ▸ htest₁) hacc₂ no
  -- the end
  rw [record, Val.getItem_eq_ok_iff.mpr hfinish.msgType, ok_bind, if_neg (not_isStr (by decide)),
    if_neg (not_isStr (by decide)), if_pos (isStr_self _), commitTest_of_dbTestFinish hfinish]
    at hacc₃
  rw [(rows_of_commitTest hacc₃).2.1, hresult, hassertions₁, hassertions₀]

end Test
end Tadad
end Tada
end LdmsTest
