import LdmsTest.Stream.Xeq
import LdmsTest.Tada.Client
import Mathlib.Data.Finset.SDiff

/-!
# Blocks that verify many things for one assertion

Some blocks of the test scripts compare many things in a loop and report one assertion: the
statistics of the streams and of their clients (`ldms_stream_test`), the directories of the
daemons (`scalability/test.py`), and the data received (`ldmsd_qgroup_test`).  Each failure is
reported when it is found, and at the end the assertion is reported as passed.

* `test22`, `test23`, `dirVerify`, `checkDataLoss`: the blocks.
* `reportAll`: what they have in common, a report for each comparison that fails.
* `verdicts_iff`: the assertion ends as passed exactly when every comparison succeeds, if every
  comparison succeeds or `TADA.DEBUG` makes the first failure raise; otherwise it ends as passed
  all the same.
-/

namespace LdmsTest
namespace Tada

open Val (Fields keyOf)

variable {F : Type} [Json.JsonFloat F] [DecidableEq F]

/-! ## The blocks -/

/-- A server of the stream test: its name, the statistics it reports, and those that its tracker
expects. -/
structure Server (F : Type) where
  name : String
  streamStats : List (Xeq.Obj F)
  trackedStreamStats : List (Xeq.Obj F)
  clientStats : List (Xeq.Obj F)
  trackedClientStats : List (Xeq.Obj F)

/-- The loop of `test22` and `test23`: the statistics `reported` and `tracked` of each server. -/
def verifyStats (debug : Bool) (assertNo : Val F) (reported tracked : Server F → List (Xeq.Obj F))
    (what : String) : List (Server F) → Client F Unit
  | [] => pure ()
  | srv :: servers => do
    let same ← liftExcept (Xeq.listXeq (reported srv) (tracked srv))
    if !same then
      assertTest debug assertNo false (.str (srv.name ++ what))
    verifyStats debug assertNo reported tracked what servers

/-- "Check stream stats in each process" -/
def test22 (debug : Bool) (servers : List (Server F)) : Client F Unit := do
  verifyStats debug (.int 22) Server.streamStats Server.trackedStreamStats
    " stream stats verification failed" servers
  assertTest debug (.int 22) true (.str "verified")

/-- "Check stream client stats in each process" -/
def test23 (debug : Bool) (servers : List (Server F)) : Client F Unit := do
  verifyStats debug (.int 23) Server.clientStats Server.trackedClientStats
    " stream client stats verification failed" servers
  assertTest debug (.int 23) true (.str "verified")

/-- A daemon: its name, its level, the sets in its directory, and those expected in it. -/
structure Daemon where
  name : String
  aggLevel : ℤ
  dir : List String
  expectedDir : List String

/-- The sets that `dir_verify` expects in the directory of a daemon. -/
def Daemon.expected (d : Daemon) (rmSets : List String) (rmLevel : ℤ) : Finset String :=
  if d.aggLevel > rmLevel then d.expectedDir.toFinset \ rmSets.toFinset else d.expectedDir.toFinset

/-- The loop of `dir_verify` -/
def dirVerifyLoop (debug : Bool) (assertNo : Val F) (rmSets : List String) (rmLevel : ℤ) :
    List Daemon → Client F Unit
  | [] => pure ()
  | d :: ldmsds => do
    if d.dir.toFinset ≠ d.expected rmSets rmLevel then
      assertTest debug assertNo false
        (.str ("Bad dir result on " ++ d.name ++ ", use pdb.pm() to see details"))
    dirVerifyLoop debug assertNo rmSets rmLevel ldmsds

/-- `dir_verify(ldmsd_list, assert_no, rm_sets, rm_level)` -/
def dirVerify (debug : Bool) (ldmsds : List Daemon) (assertNo : Val F) (rmSets : List String)
    (rmLevel : ℤ) : Client F Unit := do
  dirVerifyLoop debug assertNo rmSets rmLevel ldmsds
  -- the loop has no `break`, so that its `else` is always taken
  assertTest debug assertNo true (.str "dir results verified")

/-- "Check data loss", with the data sent and the data received, both sorted -/
def checkDataLoss (debug : Bool) (appData rcvData : List String) : Client F Unit := do
  if appData ≠ rcvData then
    assertTest debug (.int 4) false (.str "data missing")
  assertTest debug (.int 4) true (.str "No data missing")

/-! ## What the blocks have in common -/

/-- A report for each comparison that fails. -/
def reportAll (debug : Bool) (assertNo : Val F) : List (Bool × Val F) → Client F Unit
  | [] => pure ()
  | (ok, condStr) :: checks => do
    if !ok then
      assertTest debug assertNo false condStr
    reportAll debug assertNo checks

/-- The reports of the comparisons that fail, and the report at the end. -/
def reportBlock (debug : Bool) (assertNo : Val F) (checks : List (Bool × Val F)) (condStr : Val F) :
    Client F Unit := do
  reportAll debug assertNo checks
  assertTest debug assertNo true condStr

/-- The test is started, and the assertion is registered. -/
def Ready (t : Test F) (assertNo : Val F) : Prop :=
  (∃ id, t.testId = some id) ∧
    ∃ key msg, keyOf assertNo = .ok key ∧ Dict.get? t.assertions key = some msg

/-- Each report is recorded, and the test goes on unless `TADA.DEBUG` is set. -/
theorem exec_assertTest_of_ready {t : Test F} {assertNo : Val F} (h : Ready t assertNo)
    (debug cond : Bool) (condStr : Val F) :
    ∃ t', (assertTest debug assertNo cond condStr).exec t =
        (debugError debug cond t.testDesc condStr, t') ∧
      Ready t' assertNo ∧ t'.statusOf assertNo = some (.str (statusText cond)) := by
  obtain ⟨⟨id, hid⟩, key, msg, hkey, hmsg⟩ := h
  have hget : Dict.get? ((t.setAssertion key (testedMsg msg id cond condStr)).push
      (testedMsg msg id cond condStr)).assertions key = some (testedMsg msg id cond condStr) :=
    Dict.get?_set_self _ _ _
  refine ⟨_, exec_assertTest hid hkey hmsg debug cond condStr,
    ⟨⟨id, hid⟩, key, _, hkey, hget⟩, ?_⟩
  rw [Test.statusOf, hkey]
  show (Dict.get? _ key).bind _ = _
  rw [hget]
  show Dict.get? (testedMsg msg id cond condStr) "test-status" = _
  rw [testedMsg, Dict.get?_set_of_ne _ _ (by decide), Dict.get?_set_self]

theorem exec_reportAll {t : Test F} {assertNo : Val F} (h : Ready t assertNo) {debug : Bool}
    {checks : List (Bool × Val F)} (hgo : debug = false ∨ ∀ c ∈ checks, c.1 = true) :
    ∃ t', (reportAll debug assertNo checks).exec t = (.ok (), t') ∧ Ready t' assertNo := by
  induction checks generalizing t with
  | nil => exact ⟨t, rfl, h⟩
  | cons c checks ih =>
    obtain ⟨ok, condStr⟩ := c
    have hgo' : debug = false ∨ ∀ c ∈ checks, c.1 = true :=
      hgo.imp_right fun hall c hc => hall c (List.mem_cons_of_mem _ hc)
    rw [reportAll]
    cases ok with
    | true => exact ih h hgo'
    | false =>
      have hdebug : debug = false :=
        hgo.resolve_right fun hall => absurd (hall _ List.mem_cons_self) Bool.false_ne_true
      obtain ⟨t₁, hexec, hready, -⟩ := exec_assertTest_of_ready h debug false condStr
      rw [hdebug, debugError_of_not_debug] at hexec
      obtain ⟨t', hrest, hready'⟩ := ih hready hgo'
      refine ⟨t', ?_, hready'⟩
      rw [hdebug] at hrest ⊢
      exact (Client.exec_bind_ok hexec).trans hrest

theorem exec_reportAll_debug {t : Test F} {assertNo : Val F} (h : Ready t assertNo)
    {checks : List (Bool × Val F)} (hfail : ¬ ∀ c ∈ checks, c.1 = true) :
    ∃ e t', (reportAll true assertNo checks).exec t = (.error e, t') ∧
      t'.statusOf assertNo = some (.str failed) := by
  induction checks generalizing t with
  | nil => exact absurd (fun c hc => nomatch hc) hfail
  | cons c checks ih =>
    obtain ⟨ok, condStr⟩ := c
    rw [reportAll]
    cases ok with
    | true =>
      refine ih h fun hall => hfail ?_
      exact List.forall_mem_cons.mpr ⟨rfl, hall⟩
    | false =>
      obtain ⟨t₁, hexec, -, hstatus⟩ := exec_assertTest_of_ready h true false condStr
      obtain ⟨e, he⟩ := exists_debugError t.testDesc condStr
      rw [he] at hexec
      exact ⟨e, t₁, Client.exec_bind_error hexec, hstatus⟩

/-- **The last report counts**: the block ends with the assertion passed, whatever the
comparisons say, unless `TADA.DEBUG` ends it before. -/
theorem reportBlock_iff {t : Test F} {assertNo : Val F} (h : Ready t assertNo) (debug : Bool)
    (checks : List (Bool × Val F)) (condStr : Val F) :
    ((((reportBlock debug assertNo checks condStr).exec t).2.statusOf assertNo =
        some (.str passed)) ↔ ∀ c ∈ checks, c.1 = true) ↔
      debug = true ∨ ∀ c ∈ checks, c.1 = true := by
  by_cases hgo : debug = false ∨ ∀ c ∈ checks, c.1 = true
  · -- the block comes to its last report
    obtain ⟨t₁, hall, hready⟩ := exec_reportAll h hgo
    obtain ⟨t₂, hlast, -, hstatus⟩ := exec_assertTest_of_ready hready debug true condStr
    have hblock : (reportBlock debug assertNo checks condStr).exec t =
        (debugError debug true t₁.testDesc condStr, t₂) :=
      (Client.exec_bind_ok hall).trans hlast
    rw [hblock]
    constructor
    · intro hiff
      exact Or.inr (hiff.mp hstatus)
    · intro hor
      refine ⟨fun _ => ?_, fun _ => hstatus⟩
      rcases hor with hdebug | hsucceed
      · exact hgo.resolve_left fun hfalse => absurd (hdebug.symm.trans hfalse) (by decide)
      · exact hsucceed
  · -- the first failure raises
    rw [not_or, Bool.not_eq_false] at hgo
    obtain ⟨hdebug, hfail⟩ := hgo
    obtain ⟨e, t₁, hall, hstatus⟩ := exec_reportAll_debug h hfail
    have hblock : (reportBlock debug assertNo checks condStr).exec t = (.error e, t₁) := by
      rw [reportBlock, hdebug]
      exact Client.exec_bind_error hall
    refine iff_of_true (iff_of_false ?_ hfail) (Or.inl hdebug)
    rw [hblock, hstatus]
    intro hsame
    exact absurd (Val.str.inj (Option.some_inj.mp hsame)) (by decide)

/-! ## The blocks, as reports -/

omit [Json.JsonFloat F] [DecidableEq F] in
theorem liftExcept_ok_bind {α β : Type} (a : α) (f : α → Client F β) :
    ((liftExcept (.ok a : Except PyError α) : Client F α) >>= f) = f a := rfl

theorem exec_verifyStats {debug : Bool} {assertNo : Val F}
    {reported tracked : Server F → List (Xeq.Obj F)} {what : String} {servers : List (Server F)}
    {same : Server F → Bool}
    (hsame : ∀ srv ∈ servers, Xeq.listXeq (reported srv) (tracked srv) = .ok (same srv)) :
    verifyStats debug assertNo reported tracked what servers =
      reportAll debug assertNo (servers.map fun srv => (same srv, .str (srv.name ++ what))) := by
  induction servers with
  | nil => rfl
  | cons srv servers ih =>
    rw [verifyStats, hsame srv List.mem_cons_self, liftExcept_ok_bind, List.map_cons, reportAll,
      ih fun s hs => hsame s (List.mem_cons_of_mem _ hs)]

/-- The comparisons of a loop over servers succeed. -/
def AllXeq (reported tracked : Server F → List (Xeq.Obj F)) (servers : List (Server F)) : Prop :=
  ∀ srv ∈ servers, Xeq.listXeq (reported srv) (tracked srv) = .ok true

theorem verifyStats_iff {t : Test F} {assertNo : Val F} (h : Ready t assertNo) (debug : Bool)
    (reported tracked : Server F → List (Xeq.Obj F)) (what : String) {servers : List (Server F)}
    (condStr : Val F)
    (houtcome : ∀ srv ∈ servers, ∃ b, Xeq.listXeq (reported srv) (tracked srv) = .ok b) :
    (((verifyStats debug assertNo reported tracked what servers >>= fun _ =>
          assertTest debug assertNo true condStr).exec t).2.statusOf assertNo =
        some (.str passed) ↔ AllXeq reported tracked servers) ↔
      debug = true ∨ AllXeq reported tracked servers := by
  have hsame : ∀ srv ∈ servers, Xeq.listXeq (reported srv) (tracked srv) =
      .ok (decide (Xeq.listXeq (reported srv) (tracked srv) = .ok true)) := by
    intro srv hsrv
    obtain ⟨b, hb⟩ := houtcome srv hsrv
    cases b with
    | true => rw [hb, decide_eq_true rfl]
    | false => rw [hb, decide_eq_false nofun]
  have hblock := reportBlock_iff h debug (servers.map fun srv =>
    (decide (Xeq.listXeq (reported srv) (tracked srv) = .ok true), .str (srv.name ++ what))) condStr
  rw [reportBlock, ← exec_verifyStats hsame] at hblock
  have hall : (∀ c ∈ servers.map fun srv =>
      (decide (Xeq.listXeq (reported srv) (tracked srv) = .ok true),
        (.str (srv.name ++ what) : Val F)), c.1 = true) ↔ AllXeq reported tracked servers := by
    rw [List.forall_mem_map]
    exact forall₂_congr fun srv _ => decide_eq_true_iff
  rwa [hall] at hblock

/-- The comparisons of `dir_verify` succeed. -/
def AllDirs (rmSets : List String) (rmLevel : ℤ) (ldmsds : List Daemon) : Prop :=
  ∀ d ∈ ldmsds, d.dir.toFinset = d.expected rmSets rmLevel

theorem dirVerifyLoop_eq (debug : Bool) (assertNo : Val F) (rmSets : List String) (rmLevel : ℤ)
    (ldmsds : List Daemon) :
    dirVerifyLoop debug assertNo rmSets rmLevel ldmsds =
      reportAll debug assertNo (ldmsds.map fun d =>
        (decide (d.dir.toFinset = d.expected rmSets rmLevel),
          .str ("Bad dir result on " ++ d.name ++ ", use pdb.pm() to see details"))) := by
  induction ldmsds with
  | nil => rfl
  | cons d ldmsds ih =>
    rw [dirVerifyLoop, List.map_cons, reportAll, ih]
    by_cases hd : d.dir.toFinset = d.expected rmSets rmLevel
    · rw [decide_eq_true hd, if_neg (not_not.mpr hd)]
      rfl
    · rw [decide_eq_false hd, if_pos hd]
      rfl

theorem dirVerify_iff {t : Test F} {assertNo : Val F} (h : Ready t assertNo) (debug : Bool)
    (ldmsds : List Daemon) (rmSets : List String) (rmLevel : ℤ) :
    (((dirVerify debug ldmsds assertNo rmSets rmLevel).exec t).2.statusOf assertNo =
        some (.str passed) ↔ AllDirs rmSets rmLevel ldmsds) ↔
      debug = true ∨ AllDirs rmSets rmLevel ldmsds := by
  have hblock := reportBlock_iff h debug (ldmsds.map fun d =>
    (decide (d.dir.toFinset = d.expected rmSets rmLevel),
      .str ("Bad dir result on " ++ d.name ++ ", use pdb.pm() to see details")))
    (.str "dir results verified")
  have hall : (∀ c ∈ ldmsds.map fun d => (decide (d.dir.toFinset = d.expected rmSets rmLevel),
      (.str ("Bad dir result on " ++ d.name ++ ", use pdb.pm() to see details") : Val F)),
      c.1 = true) ↔ AllDirs rmSets rmLevel ldmsds := by
    rw [List.forall_mem_map]
    exact forall₂_congr fun d _ => decide_eq_true_iff
  rw [hall, reportBlock, ← dirVerifyLoop_eq] at hblock
  exact hblock

theorem checkDataLoss_iff {t : Test F} (h : Ready t (.int 4)) (debug : Bool)
    (appData rcvData : List String) :
    (((checkDataLoss debug appData rcvData).exec t).2.statusOf (.int 4) = some (.str passed) ↔
        appData = rcvData) ↔ debug = true ∨ appData = rcvData := by
  have hblock := reportBlock_iff h debug
    [(decide (appData = rcvData), .str "data missing")] (.str "No data missing")
  have hsame : checkDataLoss (F := F) debug appData rcvData =
      reportBlock debug (.int 4) [(decide (appData = rcvData), .str "data missing")]
        (.str "No data missing") := by
    by_cases hd : appData = rcvData
    · rw [checkDataLoss, reportBlock, decide_eq_true hd, if_neg (not_not.mpr hd)]
      rfl
    · rw [checkDataLoss, reportBlock, decide_eq_false hd, if_pos hd]
      show _ = (assertTest debug (.int 4) false (.str "data missing") >>= fun _ => pure ()) >>=
        fun _ => assertTest debug (.int 4) true (.str "No data missing")
      rw [bind_assoc]
      rfl
  rw [List.forall_mem_singleton, decide_eq_true_iff, ← hsame] at hblock
  exact hblock

/-- **A verdict is right exactly when every comparison succeeds or `TADA.DEBUG` is set**: in each
of the four blocks the assertion ends as passed if and only if every comparison succeeds, if and
only if every comparison does succeed or the first failure raises. -/
theorem verdicts_iff (debug : Bool) {t : Test F} {assertNo : Val F} (servers : List (Server F))
    (ldmsds : List Daemon) (rmSets : List String) (rmLevel : ℤ) (appData rcvData : List String)
    (h22 : Ready t (.int 22)) (h23 : Ready t (.int 23)) (hdir : Ready t assertNo)
    (h4 : Ready t (.int 4))
    (hstats : ∀ srv ∈ servers, (∃ b, Xeq.listXeq srv.streamStats srv.trackedStreamStats = .ok b) ∧
      ∃ b, Xeq.listXeq srv.clientStats srv.trackedClientStats = .ok b) :
    ((((test22 debug servers).exec t).2.statusOf (.int 22) = some (.str passed) ↔
          AllXeq Server.streamStats Server.trackedStreamStats servers) ↔
        debug = true ∨ AllXeq Server.streamStats Server.trackedStreamStats servers) ∧
      ((((test23 debug servers).exec t).2.statusOf (.int 23) = some (.str passed) ↔
          AllXeq Server.clientStats Server.trackedClientStats servers) ↔
        debug = true ∨ AllXeq Server.clientStats Server.trackedClientStats servers) ∧
      ((((dirVerify debug ldmsds assertNo rmSets rmLevel).exec t).2.statusOf assertNo =
            some (.str passed) ↔ AllDirs rmSets rmLevel ldmsds) ↔
        debug = true ∨ AllDirs rmSets rmLevel ldmsds) ∧
      ((((checkDataLoss debug appData rcvData).exec t).2.statusOf (.int 4) =
            some (.str passed) ↔ appData = rcvData) ↔ debug = true ∨ appData = rcvData) :=
  ⟨verifyStats_iff h22 debug _ _ _ _ fun srv hsrv => (hstats srv hsrv).1,
    verifyStats_iff h23 debug _ _ _ _ fun srv hsrv => (hstats srv hsrv).2,
    dirVerify_iff hdir debug ldmsds rmSets rmLevel, checkDataLoss_iff h4 debug appData rcvData⟩

/-- A started test with the assertions of the blocks. -/
def startedTest : Test Json.SampleFloat where
  testSuite := "LDMSD"
  testType := "FVT"
  testName := "blocks"
  testDesc := "blocks"
  testUser := "root"
  commitId := "-"
  testId := some "0123"
  assertions :=
    [(.num 4, assertionMsg (.int 4) (.str "Check data loss")),
      (.num 22, assertionMsg (.int 22) (.str "Check stream stats in each process")),
      (.num 23, assertionMsg (.int 23) (.str "Check stream client stats in each process"))]
  sent := []

theorem ready_startedTest_data : Ready startedTest (.int 4) :=
  ⟨⟨_, rfl⟩, .num 4, _, rfl, rfl⟩

/-- A server whose statistics are not the expected ones. -/
def lossyServer : Server Json.SampleFloat where
  name := "srv1"
  streamStats := [.int 1]
  trackedStreamStats := [.int 2]
  clientStats := []
  trackedClientStats := []

theorem verdicts_lossy :
    (((test22 false [lossyServer]).exec startedTest).2.statusOf (.int 22) = some (.str passed) ↔
        AllXeq Server.streamStats Server.trackedStreamStats [lossyServer]) ↔
      false = true ∨ AllXeq Server.streamStats Server.trackedStreamStats [lossyServer] :=
  (verdicts_iff false [lossyServer] [] [] 0 [] [] ⟨⟨_, rfl⟩, .num 22, _, rfl, rfl⟩
    ⟨⟨_, rfl⟩, .num 23, _, rfl, rfl⟩ ready_startedTest_data ready_startedTest_data
    (List.forall_mem_singleton.mpr ⟨⟨false, by decide +kernel⟩, true, by decide +kernel⟩)).1

/-- Data that is sent and not received leaves the assertion passed. -/
theorem not_verdict_of_data_loss :
    ¬ (((checkDataLoss false ["message"] []).exec startedTest).2.statusOf (.int 4) =
        some (.str passed) ↔ ["message"] = ([] : List String)) := by
  rw [checkDataLoss_iff ready_startedTest_data]
  decide

end Tada
end LdmsTest
