import LdmsTest.C.Tada

/-!
# What a C test sends

A test that is started, reports its assertions and is finished sends its start, a report for each
call of `TADA_ASSERT`, a report for each assertion that was not tested, and its end, whatever the
other tests of the process do in between.

* `Assert`: a call of `tada_assert`.
* `resultsOf`: the results of the assertions after calls.
* `sent_run`: the messages of a test, and its results, at the end of a run.
-/

namespace LdmsTest
namespace CTada

/-! ## Calls and messages -/

/-- A call of `tada_assert`. -/
structure Assert where
  assertNo : ℕ
  cond : Bool
  condStr : String

def Assert.op {T : Type} (t : T) (a : Assert) : Op T :=
  .assert t a.assertNo a.cond a.condStr

def Assert.result (a : Assert) : TestResult :=
  if a.cond then .passed else .failed

/-- How a result is reported. -/
def TestResult.text : TestResult → String
  | .passed => "passed"
  | .failed => "failed"
  | .skipped => "skipped"

/-- The results of the assertions after calls. -/
def resultsOf (test : CTest) (asserts : List Assert) : List TestResult :=
  asserts.foldl (fun results a => results.set a.assertNo a.result)
    (test.descriptions.map fun _ => .skipped)

theorem resultsOf_append (test : CTest) (asserts : List Assert) (a : Assert) :
    resultsOf test (asserts ++ [a]) = (resultsOf test asserts).set a.assertNo a.result := by
  rw [resultsOf, List.foldl_append, resultsOf]
  rfl

@[simp] theorem length_resultsOf (test : CTest) (asserts : List Assert) :
    (resultsOf test asserts).length = test.descriptions.length := by
  induction asserts using List.reverseRecOn with
  | nil => simp [resultsOf]
  | append_singleton asserts a ih => rw [resultsOf_append, List.length_set, ih]

/-- What is reported of an assertion. -/
structure Report where
  assertNo : ℕ
  description : String
  cond : String
  result : TestResult

def Report.msg (testId : String) (r : Report) : String :=
  assertMsg testId r.assertNo r.description (escapeQuotes r.cond) r.result.text

theorem escapeQuotes_none : escapeQuotes "none" = "none" := by
  simp [escapeQuotes]

theorem Report.msg_skipped (testId : String) (assertNo : ℕ) (description : String) :
    Report.msg testId ⟨assertNo, description, "none", .skipped⟩ =
      assertMsg testId assertNo description "none" "skipped" := by
  rw [Report.msg, escapeQuotes_none, TestResult.text]

/-- What is reported of a call. -/
def Assert.report (test : CTest) (a : Assert) : Report :=
  ⟨a.assertNo, test.descriptions.getD a.assertNo "", a.condStr, a.result⟩

/-- What is reported of the assertions from `assertNo` on that were not tested. -/
def skippedReports : ℕ → List (String × TestResult) → List Report
  | _, [] => []
  | assertNo, (description, result) :: rest =>
    if result ≠ .skipped then skippedReports (assertNo + 1) rest
    else ⟨assertNo, description, "none", .skipped⟩ :: skippedReports (assertNo + 1) rest

/-- **The reports of a test**: those of the calls, and those of what was not tested. -/
def reportsOf (test : CTest) (asserts : List Assert) : List Report :=
  asserts.map (Assert.report test) ++
    skippedReports 0 (test.descriptions.zip (resultsOf test asserts))

section Sent

variable {T : Type} [DecidableEq T] {test : T → CTest}

/-! ## What a call sends -/

@[simp] theorem sent_write (s : State T) (t : T) (text : String) : (s.write t text).sent = s.sent := by
  unfold State.write
  split <;> rfl

theorem sent_logMsg (t : T) (msg : String) (s : State T) : (logMsg test t msg s).sent = s.sent := by
  unfold logMsg
  split
  · dsimp only
    rw [sent_write]
    split
    · exact sent_write s t _
    · rfl
  · rfl

theorem sent_submit (t : T) (msg : String) (s : State T) :
    (submit test t msg s).sent = (sendMsg test t msg s).sent :=
  sent_logMsg t msg _

theorem sent_submitChecked {t : T} (hsend : (test t).sendResult) {msg : String} {s s' : State T}
    (h : submitChecked test t msg s = some s') : s'.sent t = s.sent t ++ [msg] := by
  rw [submitChecked_eq_some h, sent_submit, sendMsg, if_pos hsend]
  exact Function.update_self _ _ _

theorem sent_submitChecked_of_ne {t u : T} (hne : t ≠ u) {msg : String} {s s' : State T}
    (h : submitChecked test u msg s = some s') : s'.sent t = s.sent t := by
  rw [submitChecked_eq_some h, sent_submit, sendMsg]
  split
  · exact Function.update_of_ne hne _ _
  · rfl

theorem sent_submitSkipped {t : T} (hsend : (test t).sendResult) {assertNo : ℕ}
    {asserts : List (String × TestResult)} {s s' : State T}
    (h : submitSkipped test t assertNo asserts s = some s') :
    s'.sent t =
      s.sent t ++ (skippedReports assertNo asserts).map (Report.msg (s.tests t).testId) := by
  induction asserts generalizing assertNo s with
  | nil =>
    cases h
    exact (List.append_nil _).symm
  | cons a asserts ih =>
    obtain ⟨description, result⟩ := a
    rw [submitSkipped] at h
    rw [skippedReports]
    split at h
    · next hresult => rw [if_pos hresult, ih h]
    · next hresult =>
      obtain ⟨s₁, hs₁, h⟩ := Option.bind_eq_some_iff.mp h
      rw [if_neg hresult, ih h, sent_submitChecked hsend hs₁, tests_submitChecked hs₁,
        List.append_assoc, List.singleton_append, List.map_cons, Report.msg_skipped]

theorem sent_submitSkipped_of_ne {t u : T} (hne : t ≠ u) {assertNo : ℕ}
    {asserts : List (String × TestResult)} {s s' : State T}
    (h : submitSkipped test u assertNo asserts s = some s') : s'.sent t = s.sent t := by
  induction asserts generalizing assertNo s with
  | nil =>
    cases h
    rfl
  | cons a asserts ih =>
    obtain ⟨description, result⟩ := a
    rw [submitSkipped] at h
    split at h
    · exact ih h
    · obtain ⟨s₁, hs₁, h⟩ := Option.bind_eq_some_iff.mp h
      exact (ih h).trans (sent_submitChecked_of_ne hne hs₁)

variable [CHost]

theorem openLog_sent (t : T) (s : State T) : (openLog test t s).sent = s.sent := by
  unfold openLog
  split
  · dsimp only
    rw [sent_write]
    split <;> rfl
  · rfl

/-- The results of a test are not what opening its log changes. -/
theorem openLog_results (t : T) (s : State T) :
    ((openLog test t s).tests t).results = (s.tests t).results := by
  unfold openLog
  split
  · dsimp only
    rw [tests_write]
    split
    · dsimp only
      rw [Function.update_self]
    · rfl
  · rfl

/-- **A call** sends nothing for the other tests. -/
theorem sent_exec_of_ne {t : T} {s s' : State T} {op : Op T} (hne : t ≠ op.test)
    (h : exec test s op = some s') : s'.sent t = s.sent t := by
  cases op with
  | start u ts =>
    have hne : t ≠ u := hne
    simp only [exec, tadaStart] at h
    exact (sent_submitChecked_of_ne hne h).trans (congrFun (openLog_sent u s) t)
  | assert u assertNo cond condStr =>
    simp only [exec, tadaAssert] at h
    obtain ⟨-, -, h⟩ := Option.bind_eq_some_iff.mp h
    obtain ⟨description, -, h⟩ := Option.bind_eq_some_iff.mp h
    have hne : t ≠ u := hne
    have hsent := sent_submitChecked_of_ne hne h
    exact hsent
  | finish u ts =>
    have hne : t ≠ u := hne
    simp only [exec, tadaFinish] at h
    obtain ⟨s₁, hs₁, h⟩ := Option.bind_eq_some_iff.mp h
    obtain ⟨s₂, hs₂, h⟩ := Option.bind_eq_some_iff.mp h
    cases h
    rw [sent_write, sent_submitChecked_of_ne hne hs₂, sent_submitSkipped_of_ne hne hs₁]

/-! ## A test of a run -/

/-- The test-id of a test that is started at `ts`. -/
def testIdAt (test : CTest) (ts : ℕ) : String :=
  CHost.sha256 (hashedText test ts)

/-- A test that has been started, and has reported assertions. -/
structure Underway (test : T → CTest) (t : T) (id : String) (ts : ℕ) (asserts : List Assert)
    (s : State T) : Prop where
  testId : (s.tests t).testId = id
  results : (s.tests t).results = resultsOf (test t) asserts
  sent : s.sent t = startMsg (test t) id ts ::
    (asserts.map (Assert.report (test t))).map (Report.msg id)
  known : ∀ a ∈ asserts, a.assertNo < (test t).descriptions.length

/-- A test that has been finished. -/
structure Finished (test : T → CTest) (t : T) (id : String) (ts ts' : ℕ) (asserts : List Assert)
    (s : State T) : Prop where
  results : (s.tests t).results = resultsOf (test t) asserts
  sent : s.sent t = startMsg (test t) id ts ::
    ((reportsOf (test t) asserts).map (Report.msg id) ++ [finishMsg id ts'])
  known : ∀ a ∈ asserts, a.assertNo < (test t).descriptions.length

theorem underway_start {t : T} (hsend : (test t).sendResult) {ts : ℕ} {s s' : State T}
    (hnew : s.sent t = []) (hresults : (s.tests t).results = resultsOf (test t) [])
    (h : tadaStart test t ts s = some s') : Underway test t (testIdAt (test t) ts) ts [] s' := by
  simp only [tadaStart] at h
  refine ⟨?_, ?_, ?_, by simp⟩
  · rw [tests_submitChecked h]
    dsimp only
    rw [Function.update_self]
    rfl
  · rw [tests_submitChecked h]
    dsimp only
    rw [Function.update_self, openLog_results, hresults]
  · rw [sent_submitChecked hsend h]
    dsimp only
    rw [openLog_sent, hnew]
    rfl

omit [CHost] in
theorem Underway.assert {t : T} {id : String} (hsend : (test t).sendResult) {ts : ℕ} {asserts : List Assert}
    {s s' : State T} (h : Underway test t id ts asserts s) {a : Assert}
    (hs' : tadaAssert test t a.assertNo a.cond a.condStr s = some s') :
    Underway test t id ts (asserts ++ [a]) s' := by
  simp only [tadaAssert] at hs'
  obtain ⟨-, -, hs'⟩ := Option.bind_eq_some_iff.mp hs'
  obtain ⟨description, hdescription, hs'⟩ := Option.bind_eq_some_iff.mp hs'
  obtain ⟨hlt, -⟩ := List.getElem?_eq_some_iff.mp hdescription
  have htext : (if a.result = .passed then "passed" else "failed") = a.result.text := by
    unfold Assert.result
    split <;> rfl
  have hmsg : (if (if a.cond then TestResult.passed else .failed) = .passed then "passed"
      else "failed") = a.result.text := htext
  refine ⟨?_, ?_, ?_, List.forall_mem_append.mpr ⟨h.known, by simpa using hlt⟩⟩
  · rw [tests_submitChecked hs']
    dsimp only
    rw [Function.update_self]
    exact h.testId
  · rw [tests_submitChecked hs']
    dsimp only
    rw [Function.update_self, resultsOf_append, ← h.results]
    rfl
  · rw [sent_submitChecked hsend hs']
    dsimp only
    rw [Function.update_self, h.sent, List.map_append, List.map_append, List.cons_append,
      List.map_singleton, List.map_singleton, Report.msg, Assert.report,
      List.getD_eq_getElem?_getD, hdescription, Option.getD_some, hmsg]
    dsimp only
    rw [h.testId]

omit [CHost] in
theorem Underway.finish {t : T} {id : String} (hsend : (test t).sendResult) {ts ts' : ℕ} {asserts : List Assert}
    {s s' : State T} (h : Underway test t id ts asserts s) (hs' : tadaFinish test t ts' s = some s') :
    Finished test t id ts ts' asserts s' := by
  unfold tadaFinish at hs'
  obtain ⟨s₁, hs₁, hs'⟩ := Option.bind_eq_some_iff.mp hs'
  obtain ⟨s₂, hs₂, hs'⟩ := Option.bind_eq_some_iff.mp hs'
  cases hs'
  refine ⟨?_, ?_, h.known⟩
  · rw [tests_write, tests_submitChecked hs₂, tests_submitSkipped hs₁, h.results]
  · rw [sent_write, sent_submitChecked hsend hs₂, sent_submitSkipped hsend hs₁,
      tests_submitSkipped hs₁, h.sent, h.testId, h.results, reportsOf, List.map_append]
    simp only [List.cons_append, List.append_assoc]

/-- A call of another test does not matter. -/
theorem Underway.of_exec {t : T} {id : String} {ts : ℕ} {asserts : List Assert} {s s' : State T}
    (h : Underway test t id ts asserts s) {op : Op T} (hne : t ≠ op.test)
    (hexec : exec test s op = some s') : Underway test t id ts asserts s' := by
  have htests := (frame_exec hexec).tests t hne
  exact ⟨htests ▸ h.testId, htests ▸ h.results, (sent_exec_of_ne hne hexec).trans h.sent, h.known⟩

theorem Finished.run {t : T} {id : String} {ts ts' : ℕ} {asserts : List Assert} {s s' : State T}
    (h : Finished test t id ts ts' asserts s) {ops : List (Op T)} (hcalls : calls t ops = [])
    (hrun : run test s ops = some s') : Finished test t id ts ts' asserts s' := by
  induction ops generalizing s with
  | nil =>
    cases hrun
    exact h
  | cons op ops ih =>
    obtain ⟨s₁, hexec, hrun⟩ := exists_of_run_cons hrun
    have hne : op.test ≠ t := fun heq => by
      rw [calls_cons_of_eq heq] at hcalls
      cases hcalls
    have htests := (frame_exec hexec).tests t hne.symm
    rw [calls_cons_of_ne hne] at hcalls
    exact ih ⟨htests ▸ h.results, (sent_exec_of_ne hne.symm hexec).trans h.sent, h.known⟩ hcalls hrun

/-- **From the start of a test to its end.** -/
theorem Underway.run {t : T} {id : String} (hsend : (test t).sendResult) {ts ts' : ℕ}
    {before after : List Assert} {s s' : State T} (h : Underway test t id ts before s)
    {ops : List (Op T)} (hcalls : calls t ops = after.map (Assert.op t) ++ [.finish t ts'])
    (hrun : CTada.run test s ops = some s') : Finished test t id ts ts' (before ++ after) s' := by
  induction ops generalizing s before after with
  | nil => cases (List.append_ne_nil_of_right_ne_nil _ (List.cons_ne_nil _ _)) hcalls.symm
  | cons op ops ih =>
    obtain ⟨s₁, hexec, hnext⟩ := exists_of_run_cons hrun
    by_cases hop : op.test = t
    · cases after with
      | nil =>
        obtain ⟨rfl, hrest⟩ := op_eq_of_calls hop hcalls
        have hfinish : tadaFinish test t ts' s = some s₁ := hexec
        rw [List.append_nil]
        exact (h.finish hsend hfinish).run hrest hnext
      | cons a after =>
        obtain ⟨rfl, hrest⟩ := op_eq_of_calls hop hcalls
        have hassert : tadaAssert test t a.assertNo a.cond a.condStr s = some s₁ := hexec
        have hfinished := ih (h.assert hsend hassert) hrest hnext
        rwa [List.append_assoc, List.singleton_append] at hfinished
    · rw [calls_cons_of_ne hop] at hcalls
      exact ih (h.of_exec (Ne.symm hop) hexec) hcalls hnext

/-- **What a test has sent** at the end of a run: its start, its reports, and its end. -/
theorem sent_run {t : T} (hsend : (test t).sendResult) {ts ts' : ℕ} {asserts : List Assert}
    {s s' : State T} (hnew : s.sent t = []) (hresults : (s.tests t).results = resultsOf (test t) [])
    {ops : List (Op T)}
    (hcalls : calls t ops = .start t ts :: (asserts.map (Assert.op t) ++ [.finish t ts']))
    (hrun : run test s ops = some s') : Finished test t (testIdAt (test t) ts) ts ts' asserts s' := by
  induction ops generalizing s with
  | nil => cases hcalls
  | cons op ops ih =>
    obtain ⟨s₁, hexec, hnext⟩ := exists_of_run_cons hrun
    by_cases hop : op.test = t
    · obtain ⟨rfl, hrest⟩ := op_eq_of_calls hop hcalls
      have hstart : tadaStart test t ts s = some s₁ := hexec
      have hfinished := (underway_start hsend hnew hresults hstart).run hsend hrest hnext
      rwa [List.nil_append] at hfinished
    · rw [calls_cons_of_ne hop] at hcalls
      have htests := (frame_exec hexec).tests t (Ne.symm hop)
      exact ih ((sent_exec_of_ne (Ne.symm hop) hexec).trans hnew) (htests ▸ hresults) hcalls hnext

end Sent

/-! ## The results of a test -/

/-- A result that is reported. -/
def Report.item (r : Report) : String × String :=
  (toString r.assertNo, r.result.text)

/-- The results, by the numbers of the assertions. -/
def board (results : List TestResult) (n : ℕ) : Dict String TestResult :=
  (results.zipIdx n).map fun p => (toString p.2, p.1)

/-- The results, as they are reported. -/
def texts (d : Dict String TestResult) : Dict String String :=
  d.map fun p => (p.1, p.2.text)

theorem toString_nat_injective : Function.Injective (toString : ℕ → String) := by
  intro n n' h
  have hdigits := congrArg String.toList h
  rw [Nat.toString_eq_ofList_toDigits, Nat.toString_eq_ofList_toDigits, String.toList_ofList,
    String.toList_ofList] at hdigits
  rw [← Nat.ofDigitChars_toDigits (b := 10) (by decide) (by decide) (n := n), hdigits,
    Nat.ofDigitChars_toDigits (by decide) (by decide)]

theorem keys_board (results : List TestResult) (n : ℕ) :
    Dict.keys (board results n) = (List.range' n results.length).map toString := by
  rw [board, Dict.keys, List.map_map, ← List.zipIdx_map_snd, List.map_map]
  rfl

theorem nodup_keys_board (results : List TestResult) (n : ℕ) :
    (Dict.keys (board results n)).Nodup := by
  rw [keys_board]
  exact (List.nodup_range' 1).map toString_nat_injective

theorem get?_board (results : List TestResult) (i : ℕ) :
    Dict.get? (board results 0) (toString i) = results[i]? := by
  cases h : results[i]? with
  | none =>
    rw [Dict.get?_eq_none_iff, keys_board]
    intro hmem
    obtain ⟨j, hj, heq⟩ := List.mem_map.mp hmem
    obtain rfl := toString_nat_injective heq
    rw [List.getElem?_eq_none_iff] at h
    simp at hj
    omega
  | some r =>
    refine Dict.get?_of_mem (nodup_keys_board results 0) (List.mem_map.mpr ⟨(r, i), ?_, rfl⟩)
    exact List.mk_mem_zipIdx_iff_getElem?.mpr h

theorem get?_board_of_ne (results : List TestResult) {k : String} (hk : ∀ i : ℕ, toString i ≠ k) :
    Dict.get? (board results 0) k = none := by
  rw [Dict.get?_eq_none_iff, keys_board]
  intro hmem
  obtain ⟨i, -, heq⟩ := List.mem_map.mp hmem
  exact hk i heq

theorem get?_texts (d : Dict String TestResult) (k : String) :
    Dict.get? (texts d) k = (Dict.get? d k).map TestResult.text :=
  Dict.get?_map_val d (fun _ r => r.text) k

theorem keys_texts (d : Dict String TestResult) : Dict.keys (texts d) = Dict.keys d := by
  rw [texts, Dict.keys, List.map_map]
  rfl

/-- What calls report: the results of the assertions that were tested. -/
theorem get?_reported (test : CTest) {asserts : List Assert}
    (hknown : ∀ a ∈ asserts, a.assertNo < test.descriptions.length) (k : String) :
    Dict.get? (Dict.update [] (asserts.map fun a => (a.report test).item)) k =
      ((Dict.get? (board (resultsOf test asserts) 0) k).filter (· ≠ .skipped)).map
        TestResult.text := by
  by_cases hk : ∃ i : ℕ, toString i = k
  · obtain ⟨i, rfl⟩ := hk
    rw [get?_board]
    induction asserts using List.reverseRecOn with
    | nil =>
      rw [resultsOf, List.foldl_nil, List.getElem?_map]
      cases test.descriptions[i]? <;> rfl
    | append_singleton asserts a ih =>
      obtain ⟨hasserts, ha⟩ := List.forall_mem_append.mp hknown
      have ha := List.forall_mem_singleton.mp ha
      have hset : Dict.update [] ((asserts ++ [a]).map fun a => (a.report test).item) =
          Dict.set (Dict.update [] (asserts.map fun a => (a.report test).item))
            (toString a.assertNo) a.result.text := by
        rw [List.map_append, Dict.update, List.foldl_append]
        rfl
      rw [hset, Dict.get?_set, ih hasserts, resultsOf_append, List.getElem?_set]
      by_cases hi : a.assertNo = i
      · subst hi
        rw [if_pos rfl, if_pos rfl, if_pos (by simpa using ha)]
        unfold Assert.result
        split <;> rfl
      · rw [if_neg fun heq => hi (toString_nat_injective heq), if_neg hi]
  · rw [get?_board_of_ne _ (not_exists.mp hk)]
    refine Dict.get?_eq_none_iff.mpr fun hmem => ?_
    rcases Dict.mem_keys_update.mp hmem with hmem | hmem
    · cases hmem
    · rw [Dict.keys, List.map_map] at hmem
      obtain ⟨a, -, heq⟩ := List.mem_map.mp hmem
      exact hk ⟨_, heq⟩

theorem items_skippedReports {descriptions : List String} {results : List TestResult}
    (hlen : descriptions.length = results.length) (n : ℕ) :
    (skippedReports n (descriptions.zip results)).map Report.item =
      texts ((board results n).filter fun p => p.2 = .skipped) := by
  induction descriptions generalizing results n with
  | nil =>
    obtain rfl := List.length_eq_zero_iff.mp hlen.symm
    rfl
  | cons description descriptions ih =>
    obtain ⟨r, results, rfl⟩ := List.exists_cons_of_length_eq_add_one hlen.symm
    have ih := ih (by simpa using hlen) (n + 1)
    have hboard : board (r :: results) n = (toString n, r) :: board results (n + 1) := rfl
    rw [List.zip_cons_cons, skippedReports, hboard]
    by_cases hr : r = .skipped
    · rw [if_neg (not_not.mpr hr), List.map_cons, ih, List.filter_cons_of_pos (by simpa using hr), hr]
      rfl
    · rw [if_pos hr, ih, List.filter_cons_of_neg (by simpa using hr)]

/-- **What a test reports**: the results that it has. -/
theorem perm_update_reportsOf (test : CTest) {asserts : List Assert}
    (hknown : ∀ a ∈ asserts, a.assertNo < test.descriptions.length) :
    (Dict.update [] ((reportsOf test asserts).map Report.item)).Perm
      (texts (board (resultsOf test asserts) 0)) := by
  have hkeys := nodup_keys_board (resultsOf test asserts) 0
  have hskipped : (Dict.keys (texts ((board (resultsOf test asserts) 0).filter
      fun p => p.2 = .skipped))).Nodup := by
    rw [keys_texts]
    exact Dict.nodup_keys_filter hkeys _
  have hsplit : Dict.update [] ((reportsOf test asserts).map Report.item) =
      Dict.update (Dict.update [] (asserts.map fun a => (a.report test).item))
        (texts ((board (resultsOf test asserts) 0).filter fun p => p.2 = .skipped)) := by
    rw [reportsOf, List.map_append, List.map_map, items_skippedReports (by simp), Dict.update,
      List.foldl_append]
    rfl
  have hnodup : (Dict.keys (Dict.update []
      (asserts.map fun a => (a.report test).item))).Nodup := Dict.nodup_keys_update (d := [])
    List.nodup_nil _
  rw [hsplit]
  refine Dict.perm_of_get? (Dict.nodup_keys_update hnodup _) ?_ fun k => ?_
  · rw [keys_texts]
    exact hkeys
  · rw [Dict.get?_update hskipped, get?_reported test hknown, get?_texts, get?_texts,
      Dict.get?_filter_val hkeys fun r => decide (r = .skipped)]
    rcases Dict.get? (board (resultsOf test asserts) 0) k with _ | r
    · rfl
    · cases r <;> rfl

end CTada
end LdmsTest
