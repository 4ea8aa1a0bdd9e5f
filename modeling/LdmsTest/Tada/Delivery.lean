import LdmsTest.Tada.Script
import LdmsTest.Tada.Separation

/-!
# Scripts and `tadad`

The datagrams of scripts arrive at `tadad` in any order that keeps the order of each script.

* `Agrees`: the rows of a test are what its script announced and has as the statuses of its
  assertions.
* `run_script`: the server, with the datagrams of one script.
* `deliveries_agree`: every script finds its test in the database, in whatever order the datagrams
  of the scripts arrive.
-/

namespace LdmsTest
namespace Tada

open Val (Fields keyOf)
open Sql (Row Cell Affinity)
open Tadad (datagram received field IsStart IsReport IsFinish RowOf Sendable reportOf statuses
  resultOf)

/-! ## The messages of a test -/

namespace Tadad

section Messages

variable {F : Type} [Json.JsonFloat F] [DecidableEq F] [Affinity F] [Calendar] {id : String}
  {s : State F}

/-- A message with a test-id is taken. -/
theorem step_of_parse {data : List UInt8} {r : Fields F} (hparse : parse data = some r)
    (hid : Dict.get? r "test-id" = some (.str id)) (hne : id ≠ "") (s : State F) :
    step s data = stepMsg s r := by
  have htruthy : (field r "test-id").truthy := by
    rw [field_eq hid]
    exact bne_iff_ne.mpr hne
  rw [step, hparse]
  exact if_pos htruthy

theorem stepMsg_start {r : Fields F} (htype : Dict.get? r "msg-type" = some (.str "test-start"))
    (hid : Dict.get? r "test-id" = some (.str id)) (s : State F) :
    stepMsg s r = .ok { s with results := Dict.set s.results (.str id) [r] } := by
  rw [stepMsg, field_eq htype, field_eq hid, if_pos (isStr_self _)]
  rfl

theorem stepMsg_report {r : Fields F} (hr : IsReport id r) {messages : List (Fields F)}
    (hmessages : Dict.get? s.results (.str id) = some messages) :
    stepMsg s r = .ok { s with results := Dict.set s.results (.str id) (messages ++ [r]) } := by
  rw [stepMsg, field_eq hr.msgType, field_eq hr.testId, if_neg (not_isStr (by decide)),
    if_pos (isStr_self _)]
  show pending s (.str id) (.str id) >>= _ = _
  rw [pending_eq_ok_iff.mpr hmessages]
  rfl

theorem stepMsg_finish {sec : Second} {r : Fields F} (hr : IsFinish id sec r)
    {messages : List (Fields F)} (hmessages : Dict.get? s.results (.str id) = some messages)
    {db : Db F} (hdb : testFinish (messages ++ [r]) s.db = .ok db) :
    stepMsg s r = .ok ⟨Dict.pop s.results (.str id), db⟩ := by
  rw [stepMsg, field_eq hr.msgType, field_eq hr.testId, if_neg (not_isStr (by decide)),
    if_neg (not_isStr (by decide)), if_pos (isStr_self _)]
  show pending s (.str id) (.str id) >>= _ = _
  rw [pending_eq_ok_iff.mpr hmessages, ok_bind, hdb]
  rfl

/-- Reports are kept, and the end of the test makes the server record it. -/
theorem run_rest {sec : Second} {finish : Fields F} {reports : List (Fields F)}
    (hreports : ∀ r ∈ reports, IsReport id r) (hfinish : IsFinish id sec finish) (hne : id ≠ "")
    {datagrams : List (List UInt8)}
    (hparse : List.Forall₂ (fun data r => parse data = some r) datagrams (reports ++ [finish]))
    {messages : List (Fields F)} (hmessages : Dict.get? s.results (.str id) = some messages)
    {db : Db F} (hdb : testFinish (messages ++ (reports ++ [finish])) s.db = .ok db) :
    ∃ s', run s datagrams = .ok s' ∧ s'.db = db := by
  induction reports generalizing s messages datagrams with
  | nil =>
    cases hparse with
    | cons hdata hparse =>
      cases hparse
      refine ⟨⟨Dict.pop s.results (.str id), db⟩, ?_, rfl⟩
      rw [run, List.foldlM_cons, step_of_parse hdata hfinish.testId hne,
        stepMsg_finish hfinish hmessages hdb]
      rfl
  | cons r reports ih =>
    obtain ⟨hr, hreports⟩ := List.forall_mem_cons.mp hreports
    cases hparse with
    | cons hdata hparse =>
      have hdb' : testFinish (messages ++ [r] ++ (reports ++ [finish])) s.db = .ok db := by
        rwa [List.append_assoc]
      obtain ⟨s', hrun, hs'⟩ := ih hreports hparse
        (s := { s with results := Dict.set s.results (.str id) (messages ++ [r]) })
        (Dict.get?_set_self _ _ _) hdb'
      refine ⟨s', ?_, hs'⟩
      rw [run, List.foldlM_cons, step_of_parse hdata hr.testId hne, stepMsg_report hr hmessages]
      exact hrun

/-- **The server with the messages of one test** records them. -/
theorem run_messages {a : Announced} {sec sec' : Second} {start finish : Fields F}
    {reports : List (Fields F)} (hstart : IsStart id a sec start)
    (hreports : ∀ r ∈ reports, IsReport id r) (hfinish : IsFinish id sec' finish) (hne : id ≠ "")
    {datagrams : List (List UInt8)}
    (hparse : List.Forall₂ (fun data r => parse data = some r) datagrams
      (start :: (reports ++ [finish])))
    {db : Db F} (hdb : testFinish (start :: (reports ++ [finish])) s.db = .ok db) :
    ∃ s', run s datagrams = .ok s' ∧ s'.db = db := by
  cases hparse with
  | cons hdata hparse =>
    obtain ⟨s', hrun, hs'⟩ := run_rest hreports hfinish hne hparse
      (s := { s with results := Dict.set s.results (.str id) [start] })
      (Dict.get?_set_self _ _ _) hdb
    refine ⟨s', ?_, hs'⟩
    rw [run, List.foldlM_cons, step_of_parse hdata hstart.testId hne,
      stepMsg_start hstart.msgType hstart.testId]
    exact hrun

end Messages

end Tadad

/-! ## The messages of a script -/

section Scripts

variable {F : Type} [Json.JsonFloat F] [DecidableEq F] [Calendar]

omit [DecidableEq F] [Json.JsonFloat F] [Calendar] in
theorem get?_received_primitive {m : Fields F} {k : String} {v : Val F} (hv : v.isPrimitive)
    (h : Dict.get? m k = some v) : Dict.get? (received m) k = some v := by
  rw [Tadad.get?_received h, Json.listed_of_isPrimitive hv]

/-- The start of a script, as it is received. -/
theorem isStart_received (sha256 : String → String) (c : Script F) :
    IsStart (c.testId sha256) c.announced c.startTime.second (received (c.startMsg sha256)) where
  msgType := get?_received_primitive rfl rfl
  testId := get?_received_primitive rfl rfl
  suite := get?_received_primitive rfl rfl
  type := get?_received_primitive rfl rfl
  name := get?_received_primitive rfl rfl
  user := get?_received_primitive rfl rfl
  commit := get?_received_primitive rfl rfl
  desc := get?_received_primitive rfl rfl
  timestamp := by
    refine ⟨.float c.startTime.time, get?_received_primitive rfl rfl, ?_⟩
    rw [Val.intOf, c.startTime.trunc]
    rfl

/-- The end of a script, as it is received. -/
theorem isFinish_received (sha256 : String → String) (c : Script F) :
    IsFinish (c.testId sha256) c.finishTime.second (received (c.finishMsg sha256)) where
  msgType := get?_received_primitive rfl rfl
  testId := get?_received_primitive rfl rfl
  timestamp := by
    refine ⟨.float c.finishTime.time, get?_received_primitive rfl rfl, ?_⟩
    rw [Val.intOf, c.finishTime.trunc]
    rfl

omit [DecidableEq F] in
theorem sendable_startMsg (sha256 : String → String) (c : Script F) :
    Sendable (c.startMsg sha256) := by
  refine ⟨by simp [Script.startMsg, startMsg], fun p hp => ?_⟩
  simp only [Script.startMsg, startMsg, List.mem_cons, List.not_mem_nil, or_false] at hp
  rcases hp with rfl | rfl | rfl | rfl | rfl | rfl | rfl | rfl | rfl
  case inr.inr.inr.inr.inr.inr.inl => exact .float _
  all_goals exact .str _

omit [DecidableEq F] in
theorem sendable_finishMsg (sha256 : String → String) (c : Script F) :
    Sendable (c.finishMsg sha256) := by
  refine ⟨by simp [Script.finishMsg, finishMsg], ?_⟩
  refine List.forall_mem_cons.mpr ⟨.str _, List.forall_mem_cons.mpr ⟨.str _, ?_⟩⟩
  exact List.forall_mem_singleton.mpr (.float _)

omit [DecidableEq F] [Calendar] in
/-- The statuses of reports are received as they were sent. -/
theorem statuses_received {reports : List (Fields F)}
    (h : ∀ m ∈ reports, reportOf (received m) = reportOf m) :
    statuses (reports.map received) = statuses reports := by
  rw [statuses, List.foldl_map, statuses]
  exact List.foldl_ext _ _ _ fun d m hm => by rw [h m hm]

omit [DecidableEq F] [Json.JsonFloat F] [Calendar] in
theorem forall_passed_iff {id : String} {rows : List (Row F)} {d : List (String × String)}
    (h : List.Forall₂ (RowOf id) rows d) :
    (∀ r ∈ rows, Dict.get? r "assert_result" = some (.text passed)) ↔ ∀ p ∈ d, p.2 = passed := by
  induction h with
  | nil => exact ⟨fun _ p hp => absurd hp List.not_mem_nil, fun _ r hr => absurd hr List.not_mem_nil⟩
  | cons hrow _ ih =>
    rw [List.forall_mem_cons, List.forall_mem_cons, ih, hrow.2.2, Option.some_inj, Cell.text.injEq]

section Sent

variable {sha256 : String → String} {c : Script F} {t : Test F} {reports : List (Fields F)}
  {done : Key F → Prop}

/-- The messages of a script can be sent, and have its test-id. -/
theorem sendable_messages (h : Reporting (c.testId sha256) (c.startMsg sha256) reports done t) :
    ∀ m ∈ c.startMsg sha256 :: (reports ++ [c.finishMsg sha256]),
      Sendable m ∧ Dict.get? m "test-id" = some (.str (c.testId sha256)) := by
  refine List.forall_mem_cons.mpr ⟨⟨sendable_startMsg sha256 c, rfl⟩, ?_⟩
  refine List.forall_mem_append.mpr ⟨fun m hm => ?_, ?_⟩
  · obtain ⟨key, -, -, -, hassert, hid⟩ := h.report m hm
    exact ⟨hassert.sendable, hid⟩
  · exact List.forall_mem_singleton.mpr ⟨sendable_finishMsg sha256 c, rfl⟩

theorem sent_run (h : Reporting (c.testId sha256) (c.startMsg sha256) reports done t)
    (hrun : c.run sha256 = (exitCode t, t.push (c.finishMsg sha256))) :
    (c.run sha256).2.sent =
      (c.startMsg sha256 :: (reports ++ [c.finishMsg sha256])).map datagram := by
  rw [hrun]
  show t.sent ++ [datagram (c.finishMsg sha256)] = _
  rw [h.sent, ← List.map_singleton, ← List.map_append, List.cons_append]

/-- The datagrams of a script are received. -/
theorem parse_sent (h : Reporting (c.testId sha256) (c.startMsg sha256) reports done t) :
    List.Forall₂ (fun data r => Tadad.parse data = some r)
      ((c.startMsg sha256 :: (reports ++ [c.finishMsg sha256])).map datagram)
      (received (c.startMsg sha256) :: (reports.map received ++
        [received (c.finishMsg sha256)])) := by
  rw [← List.map_singleton (f := received), ← List.map_append, ← List.map_cons,
    List.forall₂_map_left_iff, List.forall₂_map_right_iff, List.forall₂_same]
  exact fun m hm => Tadad.parse_datagram (sendable_messages h m hm).1

/-- The reports of a script, as they are received. -/
theorem isReport_received (h : Reporting (c.testId sha256) (c.startMsg sha256) reports done t) :
    ∀ m ∈ reports.map received, IsReport (c.testId sha256) m := by
  refine List.forall_mem_map.mpr fun m hm => ?_
  obtain ⟨key, -, -, -, hassert, hid⟩ := h.report m hm
  exact hassert.isReport hid

omit [Calendar] in
theorem Reporting.statuses_received {id : String} {first : Fields F}
    (h : Reporting id first reports done t) :
    statuses (reports.map received) = statuses reports := by
  refine Tada.statuses_received fun m hm => ?_
  obtain ⟨key, -, -, -, hassert, -⟩ := h.report m hm
  exact hassert.reportOf_received

/-- The datagrams of a script are messages of its test. -/
theorem owns_of_mem_sent {data : List UInt8} (hdata : data ∈ (c.run sha256).2.sent) :
    Tadad.Owns (F := F) (.text (c.testId sha256)) data := by
  obtain ⟨t, reports, done, hrep, -, -, -, hrun⟩ := exists_run sha256 c
  rw [sent_run hrep hrun] at hdata
  obtain ⟨m, hm, rfl⟩ := List.mem_map.mp hdata
  obtain ⟨hsend, hid⟩ := sendable_messages hrep m hm
  refine ⟨_, _, rfl, Tadad.parse_datagram hsend, ?_⟩
  exact Tadad.field_eq (get?_received_primitive rfl hid)

end Sent

/-! ## Agreement -/

/-- **The rows of a test agree with its script**: the row of the test has what was announced, there
is one row for each assertion, with the status that the script has for it, and the exit code is zero
exactly if all of them passed. -/
structure Agrees (sha256 : String → String) (c : Script F) (db : Db F) : Prop where
  test : db.tests.rows = [testRow (c.testId sha256) c.testSuite c.testType c.testName c.testUser
    c.commitId c.test.testDesc c.startTime.second.second c.finishTime.second.second]
  registered : ∀ key, key ∈ Dict.keys (c.run sha256).2.assertions ↔
    ∃ a ∈ c.assertions, keyOf a.number = .ok key
  distinct : (Dict.keys (c.run sha256).2.statuses).Nodup
  assertions : ∃ rows, db.assertions.rows.Perm rows ∧
    List.Forall₂ (RowOf (c.testId sha256)) rows (c.run sha256).2.statuses
  exitCode : ∃ code, (c.run sha256).1 = .ok code ∧
    (code = 0 ↔ ∀ r ∈ db.assertions.rows, Dict.get? r "assert_result" = some (.text passed))

variable [Affinity F]

/-- **The server with the datagrams of one script**, of whose test the database has no rows. -/
theorem run_script {sha256 : String → String} (hhex : ∀ s, sha256 s ≠ "") (c : Script F)
    {s : Tadad.State F} (hdb : s.db = Db.empty F) :
    ∃ s', Tadad.run s (c.run sha256).2.sent = .ok s' ∧ Agrees sha256 c s'.db := by
  obtain ⟨t, reports, done, hrep, hdone, hkeys, -, hrun⟩ := exists_run sha256 c
  have hreports := isReport_received hrep
  have hstart := isStart_received sha256 c
  have hfinish := isFinish_received sha256 c
  obtain ⟨db, htest, hrows, hforall, hnodup⟩ :=
    Tadad.testFinish_fresh hstart hreports hfinish
  obtain ⟨s', hs', rfl⟩ := Tadad.run_messages hstart hreports hfinish (hhex _)
    (parse_sent hrep) (hdb.symm ▸ htest)
  -- what has been reported is what the script has
  have hperm := hrep.perm hdone
  rw [hrep.statuses_received] at hforall
  have hcomp : Relation.Comp (List.Forall₂ (RowOf (c.testId sha256))) List.Perm
      s'.db.assertions.rows t.statuses := ⟨_, hforall, hperm⟩
  rw [List.forall₂_comp_perm_eq_perm_comp_forall₂] at hcomp
  have hstatus : ∀ p ∈ t.assertions, ∃ s, Dict.get? p.2 "test-status" = some (.str s) := fun p hp =>
    (hrep.assertion p.1 p.2 (Dict.get?_of_mem hrep.nodup hp)).status
  refine ⟨s', ?_, hrows, ?_, ?_, ?_, ?_⟩
  · rw [sent_run hrep hrun]
    exact hs'
  · rw [hrun]
    exact hkeys
  · rw [hrun]
    exact hrep.nodup_keys_statuses
  · rw [hrun]
    exact hcomp
  · rw [hrun]
    refine ⟨_, exitCodeOf_eq hstatus, ?_⟩
    have hmem : (∀ p ∈ statuses reports, p.2 = passed) ↔ ∀ p ∈ t.statuses, p.2 = passed :=
      forall_congr' fun p => imp_congr_left hperm.mem_iff
    have hmap : (∀ p ∈ t.statuses, p.2 = passed) ↔
        ∀ p ∈ t.assertions, (reportOf p.2).2 = passed := List.forall_mem_map
    rw [forall_passed_iff hforall, hmem, hmap]
    split
    · next hall => exact iff_of_true rfl hall
    · next hsome => exact iff_of_false (by decide) hsome

/-- **The server with the datagrams of a script**: an assertion of the object has its status. -/
theorem exists_run_sent {sha256 : String → String} (hhex : ∀ s, sha256 s ≠ "") {c : Script F}
    {t : Test F} {reports : List (Fields F)} {done : Key F → Prop}
    (hrep : Reporting (c.testId sha256) (c.startMsg sha256) reports done t)
    (hdone : ∀ key ∈ Dict.keys t.assertions, done key)
    (hrun : c.run sha256 = (exitCode t, t.push (c.finishMsg sha256))) (s : Tadad.State F) :
    ∃ u, Tadad.run s (c.run sha256).2.sent = .ok u ∧
      ∀ key msg, Dict.get? t.assertions key = some msg →
        resultOf (c.testId sha256) (reportOf msg).1 u.db.assertions =
          some (.text (reportOf msg).2) := by
  have hstart := isStart_received sha256 c
  have hreports := isReport_received hrep
  have hfinish := isFinish_received sha256 c
  obtain ⟨db, hdb⟩ := Tadad.exists_testFinish_messages hstart hreports hfinish s.db
  obtain ⟨u, hu, rfl⟩ :=
    Tadad.run_messages hstart hreports hfinish (hhex _) (parse_sent hrep) hdb
  refine ⟨u, by rw [sent_run hrep hrun]; exact hu, fun key msg hmsg => ?_⟩
  have hrecorded := hrep.recorded key msg hmsg (.inl (hdone key (Dict.mem_keys_of_get? hmsg)))
  rw [Tadad.resultOf_testFinish hstart hreports hfinish hdb, hrep.statuses_received, hrecorded]
  rfl

/-! ## Deliveries -/

section Deliveries

variable {ι : Type} [DecidableEq ι] {sha256 : String → String} {scripts : ι → Script F}
  {s : Tadad.State F} {events : List (ι × List UInt8)}

/-- The datagrams that the scripts send. -/
def sentBy (sha256 : String → String) (scripts : ι → Script F) (i : ι) : List (List UInt8) :=
  ((scripts i).run sha256).2.sent

/-- **Every script finds its test in the database**, in whatever order the datagrams of the scripts
arrive, and the order does not matter. -/
theorem deliveries_agree (hhex : ∀ s, sha256 s ≠ "")
    (hids : Function.Injective fun i => (scripts i).testId sha256)
    {db : Db F} {earlier : List (List UInt8)} (hs : Tadad.run ⟨[], db⟩ earlier = .ok s)
    (hnew : ∀ i, s.db.part (.text ((scripts i).testId sha256)) = Db.empty F)
    (hevents : Interleave.Interleaves (sentBy sha256 scripts) events) :
    ∃ s', Tadad.run s (events.map Prod.snd) = .ok s' ∧
      (∀ i, Agrees sha256 (scripts i) (s'.db.part (.text ((scripts i).testId sha256)))) ∧
      ∀ events', Interleave.Interleaves (sentBy sha256 scripts) events' →
        ∃ s'', Tadad.run s (events'.map Prod.snd) = .ok s'' ∧ SameRows s'.db s''.db := by
  have hserved (i : ι) : Served ((scripts i).testId sha256) (sentBy sha256 scripts i)
      (Agrees (F := F) sha256 (scripts i)) :=
    ⟨fun _ => owns_of_mem_sent, fun _ => run_script hhex (scripts i)⟩
  have hempty : Tadad.Inv (⟨[], db⟩ : Tadad.State F) := by
    intro key messages h
    cases h
  obtain ⟨s', hrun, hagrees, -, horder⟩ :=
    exists_run_served_agree hserved hids (hempty.of_run hs) hnew hevents
  exact ⟨s', hrun, hagrees, horder⟩

end Deliveries

end Scripts

/-! ## A test -/

section Sample

open Json (SampleFloat)

def sampleReading : Reading SampleFloat where
  time := .oneAndHalf
  second := ⟨1, by decide, by decide, rfl⟩
  trunc := rfl

theorem distinct_of_one_or_two {as : List (Registration SampleFloat)}
    (h : ∀ a ∈ as, a.number = .int 1 ∨ a.number = .int 2) : ∀ a ∈ as, ∀ b ∈ as,
      a.number.toStr = b.number.toStr → keyOf a.number = keyOf b.number := by
  have hne : (Val.int 1 : Val SampleFloat).toStr ≠ (Val.int 2 : Val SampleFloat).toStr := by
    decide
  intro a ha b hb heq
  rcases h a ha with ha | ha <;> rcases h b hb with hb | hb
  · rw [ha, hb]
  · rw [ha, hb] at heq
    exact absurd heq hne
  · rw [ha, hb] at heq
    exact absurd heq.symm hne
  · rw [ha, hb]

/-- A script with one assertion, and one with two assertions, of which it does not test one. -/
def sampleScript (two : Bool) : Script SampleFloat where
  testSuite := "LDMSD"
  testType := "FVT"
  testName := if two then "down" else "up"
  testDesc := none
  testUser := "root"
  commitId := "-"
  assertions := ⟨.int 1, .str "starts", rfl, .int (by decide) (by decide), .str _⟩ ::
    if two then [⟨.int 2, .str "stops", rfl, .int (by decide) (by decide), .str _⟩] else []
  ts := 1
  startTime := sampleReading
  calls := [⟨false, .int 1, true, .str "up", .str _⟩]
  finishTime := sampleReading
  distinct := distinct_of_one_or_two (by cases two <;> simp)
  registered c hc := by
    obtain rfl := List.mem_singleton.mp hc
    exact ⟨_, List.mem_cons_self, rfl⟩

/-- `sha256`, for what the scripts hash. -/
def sampleSha256 (s : String) : String :=
  if s = "LDMSD:FVT:up:root:-:1" then
    "c581b553074e2dbb1d4c17c31e773415495b7aeb756e6f6681f5b8972a1a7ef9"
  else "19dcfa160b76a2b8b29a3eda791a98a0dae0d37976582347ac20a8e9fbaac63f"

/-- The one script runs between the start of the other one and the rest of it. -/
def sampleEvents : List (Bool × List UInt8) :=
  ((sentBy sampleSha256 sampleScript false).take 1).map (fun data => (false, data)) ++
    (sentBy sampleSha256 sampleScript true).map (fun data => (true, data)) ++
    ((sentBy sampleSha256 sampleScript false).drop 1).map fun data => (false, data)

theorem interleaves_sampleEvents :
    Interleave.Interleaves (sentBy sampleSha256 sampleScript) sampleEvents := by
  intro two
  rw [sampleEvents, Interleave.proj_append, Interleave.proj_append]
  cases two with
  | false =>
    rw [Interleave.proj_map_self, Interleave.proj_map_of_ne (by decide), Interleave.proj_map_self,
      List.append_nil, List.take_append_drop]
  | true =>
    rw [Interleave.proj_map_of_ne (by decide), Interleave.proj_map_self,
      Interleave.proj_map_of_ne (by decide), List.nil_append, List.append_nil]

theorem deliveries_agree_sampleEvents :
    ∃ s', Tadad.run ⟨[], Db.empty SampleFloat⟩ (sampleEvents.map Prod.snd) = .ok s' ∧
      ∀ two, Agrees sampleSha256 (sampleScript two)
        (s'.db.part (.text ((sampleScript two).testId sampleSha256))) := by
  have hhex (s : String) : sampleSha256 s ≠ "" := by
    rw [sampleSha256]
    split <;> decide
  have hids : Function.Injective fun two => (sampleScript two).testId sampleSha256 := by
    intro b b'
    cases b <;> cases b' <;> decide
  have hs : Tadad.run (⟨[], Db.empty SampleFloat⟩ : Tadad.State SampleFloat) [] =
      .ok ⟨[], Db.empty SampleFloat⟩ := rfl
  obtain ⟨s', hrun, hagrees, -⟩ := deliveries_agree hhex hids hs (fun _ => rfl)
    interleaves_sampleEvents
  exact ⟨s', hrun, hagrees⟩

end Sample
end Tada
end LdmsTest
