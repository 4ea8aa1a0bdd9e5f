import LdmsTest.Tada.Record

/-!
# Test scripts

A script registers its assertions, starts its test, reports assertions, and finishes the test.

* `Script`, `Script.run`: a script, and its run.
* `Reporting`: what is kept while a script reports: each assertion that was reported has the status
  that was reported last.
* `exists_run`: the messages that a script sends, and its exit code.
-/

namespace LdmsTest
namespace Tada

open Val (Fields keyOf)
open Tadad (datagram received reportOf statuses field FitsMessage IsReport Second Sendable)

/-! ## Scripts -/

section Scripts

variable (F : Type) [Json.JsonFloat F]

/-- A reading of `time.time()`. -/
structure Reading [Calendar] where
  time : F
  second : Second
  trunc : PyRuntime.floatTrunc time = some second.second

/-- An assertion that is registered. -/
structure Registration where
  number : Val F
  desc : Val F
  isPrimitive : number.isPrimitive
  fitsNumber : FitsMessage number
  fitsDesc : FitsMessage desc

/-- A call of `assert_test`, and `TADA.DEBUG`. -/
structure Call where
  debug : Bool
  number : Val F
  cond : Bool
  condStr : Val F
  fits : FitsMessage condStr

/-- **A script**: its test, the assertions that it registers, those that it tests, and its
clock. -/
structure Script [Calendar] where
  testSuite : String
  testType : String
  testName : String
  testDesc : Option String
  testUser : String
  commitId : String
  assertions : List (Registration F)
  ts : ℤ
  startTime : Reading F
  calls : List (Call F)
  finishTime : Reading F
  distinct : ∀ a ∈ assertions, ∀ b ∈ assertions, a.number.toStr = b.number.toStr →
    keyOf a.number = keyOf b.number
  registered : ∀ c ∈ calls, ∃ a ∈ assertions, keyOf c.number = keyOf a.number

end Scripts

section Runs

variable {F : Type} [Json.JsonFloat F] [DecidableEq F] [Calendar]

/-- The object of a script. -/
def Script.test (c : Script F) : Test F :=
  Test.init c.testSuite c.testType c.testName c.testDesc c.testUser c.commitId

/-- What a script announces. -/
def Script.announced (c : Script F) : Tadad.Announced where
  suite := c.testSuite
  type := c.testType
  name := c.testName
  user := c.testUser
  commit := c.commitId
  desc := c.test.testDesc

omit [DecidableEq F] in
/-- The test-id of a script. -/
def Script.testId (sha256 : String → String) (c : Script F) : String :=
  sha256 (hashedText c.test c.ts)

/-- The object after the assertions have been registered. -/
def register (registrations : List (Registration F)) (t : Test F) : Test F :=
  registrations.foldl (fun t a => ((addAssertion a.number a.desc).exec t).2) t

/-- The object after these calls.  Whatever a call raises is caught. -/
def callAll (calls : List (Call F)) (t : Test F) : Test F :=
  calls.foldl (fun t c => ((assertTest c.debug c.number c.cond c.condStr).exec t).2) t

/-- **A run of a script**: what `finish` ends with, and the object after it. -/
def Script.run (sha256 : String → String) (c : Script F) : Except PyError ℤ × Test F :=
  let t := register c.assertions c.test
  let t := ((start sha256 c.ts c.startTime.time).exec t).2
  let t := callAll c.calls t
  (finish c.finishTime.time).exec t

/-- The assertions of an object, and their statuses. -/
def Test.statuses (t : Test F) : List (String × String) :=
  t.assertions.map fun p => reportOf p.2

end Runs

/-! ## Messages of assertions -/

section Messages

variable {F : Type}

theorem field_set_of_ne {msg : Fields F} {k k' : String} (h : k' ≠ k) (v : Val F) :
    field (Dict.set msg k' v) k = field msg k := by
  rw [field, field, Dict.get?_set_of_ne _ _ h]

variable [Json.JsonFloat F]

/-- A message of an assertion. -/
structure IsAssertion (key : Key F) (msg : Fields F) : Prop where
  sendable : Sendable msg
  msgType : Dict.get? msg "msg-type" = some (.str "assert-status")
  number : ∃ v, Dict.get? msg "assert-no" = some v ∧ v.isPrimitive ∧ keyOf v = .ok key
  status : ∃ s, Dict.get? msg "test-status" = some (.str s)
  cond : "assert-cond" ∈ Dict.keys msg
  desc : "assert-desc" ∈ Dict.keys msg

/-- A field of a message of an assertion is set. -/
theorem IsAssertion.set {key : Key F} {msg : Fields F} (h : IsAssertion key msg) {k : String}
    {v : Val F} (hv : FitsMessage v) (htype : k ≠ "msg-type") (hno : k ≠ "assert-no")
    (hstatus : k = "test-status" → ∃ s, v = .str s) : IsAssertion key (Dict.set msg k v) where
  sendable := h.sendable.set k hv
  msgType := (Dict.get?_set_of_ne _ _ htype).trans h.msgType
  number := by
    rw [Dict.get?_set_of_ne _ _ hno]
    exact h.number
  status := by
    rw [Dict.get?_set]
    split
    · next hk =>
      obtain ⟨s, rfl⟩ := hstatus hk
      exact ⟨s, rfl⟩
    · exact h.status
  cond := Dict.mem_keys_set.mpr (.inr h.cond)
  desc := Dict.mem_keys_set.mpr (.inr h.desc)

/-- The message of an assertion, as it is sent. -/
theorem IsAssertion.set_testId {key : Key F} {msg : Fields F} (h : IsAssertion key msg)
    (id : String) : IsAssertion key (Dict.set msg "test-id" (.str id)) :=
  h.set (.str id) (by decide) (by decide) fun hk => absurd hk (by decide)

/-- An assertion that was tested. -/
theorem IsAssertion.tested {key : Key F} {msg : Fields F} (h : IsAssertion key msg) (id : String)
    (cond : Bool) {condStr : Val F} (hcond : FitsMessage condStr) :
    IsAssertion key (testedMsg msg id cond condStr) := by
  have hset := h.set hcond (k := "assert-cond") (by decide) (by decide)
    fun hk => absurd hk (by decide)
  have hset' := hset.set (k := "test-status") (.str (statusText cond)) (by decide) (by decide) fun _ => ⟨_, rfl⟩
  exact hset'.set_testId id

theorem reportOf_testedMsg (msg : Fields F) (id : String) (cond : Bool) (condStr : Val F) :
    reportOf (testedMsg msg id cond condStr) = ((reportOf msg).1, statusText cond) := by
  have hno : field (testedMsg msg id cond condStr) "assert-no" = field msg "assert-no" := by
    rw [testedMsg, field_set_of_ne (by decide), field_set_of_ne (by decide),
      field_set_of_ne (by decide)]
  have hstatus : field (testedMsg msg id cond condStr) "test-status" =
      .str (statusText cond) := by
    rw [testedMsg, field_set_of_ne (by decide), Tadad.field_eq (Dict.get?_set_self _ _ _)]
  rw [reportOf, reportOf, hno, hstatus]
  rfl

/-- A message of an assertion is received as a report. -/
theorem IsAssertion.isReport {key : Key F} {msg : Fields F} (h : IsAssertion key msg) {id : String}
    (hid : Dict.get? msg "test-id" = some (.str id)) : IsReport id (received msg) where
  msgType := Tadad.get?_received h.msgType
  testId := Tadad.get?_received hid
  no := by
    obtain ⟨v, hv, hprim, -⟩ := h.number
    exact ⟨_, Tadad.get?_received hv, (Json.listed_of_isPrimitive hprim).symm ▸ hprim⟩
  status := by
    obtain ⟨s, hs⟩ := h.status
    exact ⟨s, Tadad.get?_received hs⟩
  cond := Tadad.mem_keys_received h.cond
  desc := Tadad.mem_keys_received h.desc

theorem IsAssertion.reportOf_received {key : Key F} {msg : Fields F} (h : IsAssertion key msg) :
    reportOf (received msg) = reportOf msg := by
  obtain ⟨v, hv, hprim, -⟩ := h.number
  obtain ⟨s, hs⟩ := h.status
  rw [reportOf, reportOf, Tadad.field_eq hv, Tadad.field_eq hs,
    Tadad.field_eq (Tadad.get?_received hv), Tadad.field_eq (Tadad.get?_received hs),
    Json.listed_of_isPrimitive hprim]
  rfl

end Messages

/-! ## Reporting -/

section Reports

variable {F : Type} [Json.JsonFloat F] [DecidableEq F]

/-- **While a script reports**, after the message `first` and these reports.  What an assertion
that is `done` has as its status has been reported, and so has every status other than
`skipped`. -/
structure Reporting (id : String) (first : Fields F) (reports : List (Fields F))
    (done : Key F → Prop) (t : Test F) : Prop where
  testId : t.testId = some id
  sent : t.sent = (first :: reports).map datagram
  nodup : (Dict.keys t.assertions).Nodup
  assertion : ∀ key msg, Dict.get? t.assertions key = some msg → IsAssertion key msg
  distinct : ∀ key msg key' msg', Dict.get? t.assertions key = some msg →
    Dict.get? t.assertions key' = some msg' → (reportOf msg).1 = (reportOf msg').1 → key = key'
  report : ∀ m ∈ reports, ∃ key msg, Dict.get? t.assertions key = some msg ∧
    (reportOf m).1 = (reportOf msg).1 ∧ IsAssertion key m ∧ Dict.get? m "test-id" = some (.str id)
  recorded : ∀ key msg, Dict.get? t.assertions key = some msg →
    (done key ∨ ¬ isStr (field msg "test-status") skipped) →
    Dict.get? (statuses reports) (reportOf msg).1 = some (reportOf msg).2

variable {id : String} {first : Fields F} {reports : List (Fields F)} {done : Key F → Prop}
  {t : Test F}

/-- **A report of an assertion**. -/
theorem Reporting.send (h : Reporting id first reports done t) {key : Key F} {msg msg' : Fields F}
    (hmsg : Dict.get? t.assertions key = some msg) (hassert : IsAssertion key msg')
    (hid : Dict.get? msg' "test-id" = some (.str id))
    (hno : (reportOf msg').1 = (reportOf msg).1) :
    Reporting id first (reports ++ [msg']) (fun k => k = key ∨ done k)
      ((t.setAssertion key msg').push msg') := by
  have hget (k : Key F) (m : Fields F)
      (hm : Dict.get? ((t.setAssertion key msg').push msg').assertions k = some m) :
      (k = key ∧ m = msg') ∨ (k ≠ key ∧ Dict.get? t.assertions k = some m) := by
    have hm : Dict.get? (Dict.set t.assertions key msg') k = some m := hm
    rw [Dict.get?_set] at hm
    split at hm
    · next hk => exact .inl ⟨hk.symm, (Option.some_inj.mp hm).symm⟩
    · next hk => exact .inr ⟨Ne.symm hk, hm⟩
  have hself : Dict.get? ((t.setAssertion key msg').push msg').assertions key = some msg' :=
    Dict.get?_set_self _ _ _
  have hother {k : Key F} (hk : k ≠ key) :
      Dict.get? ((t.setAssertion key msg').push msg').assertions k = Dict.get? t.assertions k :=
    Dict.get?_set_of_ne _ _ (Ne.symm hk)
  refine ⟨h.testId, ?_, Dict.nodup_keys_set h.nodup _ _, ?_, ?_, ?_, ?_⟩
  · show t.sent ++ [datagram msg'] = _
    rw [h.sent, ← List.map_singleton, ← List.map_append]
    rfl
  · intro k m hm
    rcases hget k m hm with ⟨rfl, rfl⟩ | ⟨-, hm⟩
    · exact hassert
    · exact h.assertion k m hm
  · intro k m k' m' hm hm' heq
    rcases hget k m hm with ⟨rfl, rfl⟩ | ⟨hk, hold⟩
    · rcases hget k' m' hm' with ⟨rfl, -⟩ | ⟨-, hold'⟩
      · rfl
      · exact h.distinct k msg k' m' hmsg hold' (hno.symm.trans heq)
    · rcases hget k' m' hm' with ⟨rfl, rfl⟩ | ⟨-, hold'⟩
      · exact h.distinct k m k' msg hold hmsg (heq.trans hno)
      · exact h.distinct k m k' m' hold hold' heq
  · refine List.forall_mem_append.mpr ⟨fun m hm => ?_, ?_⟩
    · obtain ⟨k, m', hm', hno', hassert', hid'⟩ := h.report m hm
      by_cases hk : k = key
      · subst hk
        rw [hmsg] at hm'
        cases hm'
        exact ⟨k, msg', hself, hno'.trans hno.symm, hassert', hid'⟩
      · exact ⟨k, m', (hother hk).trans hm', hno', hassert', hid'⟩
    · exact List.forall_mem_singleton.mpr ⟨key, msg', hself, rfl, hassert, hid⟩
  · intro k m hm hdone
    rw [Tadad.statuses_append]
    rcases hget k m hm with ⟨rfl, rfl⟩ | ⟨hk, hm⟩
    · exact Dict.get?_set_self _ _ _
    · have hne : (reportOf msg').1 ≠ (reportOf m).1 := fun heq =>
        hk (h.distinct key msg k m hmsg hm (hno.symm.trans heq)).symm
      rw [Dict.get?_set_of_ne _ _ hne]
      refine h.recorded k m hm ?_
      rcases hdone with (hkey | hdone) | hskipped
      · exact absurd hkey hk
      · exact .inl hdone
      · exact .inr hskipped

/-- An assertion whose status has been reported. -/
theorem Reporting.skip (h : Reporting id first reports done t) {key : Key F} {msg : Fields F}
    (hmsg : Dict.get? t.assertions key = some msg)
    (hstatus : ¬ isStr (field msg "test-status") skipped) :
    Reporting id first reports (fun k => k = key ∨ done k) t := by
  refine ⟨h.testId, h.sent, h.nodup, h.assertion, h.distinct, h.report, fun k m hm hdone => ?_⟩
  rcases hdone with (rfl | hdone) | hskipped
  · rw [hmsg] at hm
    cases hm
    exact h.recorded k msg hmsg (.inr hstatus)
  · exact h.recorded k m hm (.inl hdone)
  · exact h.recorded k m hm (.inr hskipped)

theorem Reporting.mono (h : Reporting id first reports done t) {done' : Key F → Prop}
    (hdone : ∀ k, done' k → done k) : Reporting id first reports done' t :=
  ⟨h.testId, h.sent, h.nodup, h.assertion, h.distinct, h.report,
    fun k m hm hd => h.recorded k m hm (hd.imp_left (hdone k))⟩

/-- The keys of the assertions are those that were registered. -/
theorem keys_push_setAssertion {key : Key F} {msg : Fields F}
    (hmsg : Dict.get? t.assertions key = some msg) (msg' : Fields F) :
    Dict.keys ((t.setAssertion key msg').push msg').assertions = Dict.keys t.assertions := by
  show Dict.keys (Dict.set t.assertions key msg') = _
  rw [Dict.keys_set, if_pos (Dict.mem_keys_of_get? hmsg)]

/-- The assertion with a key, and its status. -/
def Test.reportAt (t : Test F) (key : Key F) : Option (String × String) :=
  (Dict.get? t.assertions key).map reportOf

theorem reportAt_push_setAssertion (t : Test F) (k : Key F) (msg msg' : Fields F) (key : Key F) :
    ((t.setAssertion k msg).push msg').reportAt key =
      if k = key then some (reportOf msg) else t.reportAt key := by
  show (Dict.get? (Dict.set t.assertions k msg) key).map reportOf = _
  rw [Dict.get?_set]
  split
  · rfl
  · rfl

/-- The status of an assertion after calls. -/
def statusAfter (calls : List (Call F)) (key : Key F) (status : String) : String :=
  calls.foldl (fun s c => if keyOf c.number = .ok key then statusText c.cond else s) status

/-- **Calls of `assert_test`**, whether they raise or not. -/
theorem exists_callAll {calls : List (Call F)} (h : Reporting id first reports done t)
    (hcalls : ∀ c ∈ calls, ∃ key ∈ Dict.keys t.assertions, keyOf c.number = .ok key) :
    ∃ reports' done', Reporting id first reports' done' (callAll calls t) ∧
      Dict.keys (callAll calls t).assertions = Dict.keys t.assertions ∧
      ∀ key, (callAll calls t).reportAt key =
        (t.reportAt key).map fun p => (p.1, statusAfter calls key p.2) := by
  induction calls generalizing t reports done with
  | nil => exact ⟨reports, done, h, rfl, fun key => Option.map_id'.symm⟩
  | cons c calls ih =>
    obtain ⟨⟨key, hmem, hkey⟩, hcalls⟩ := List.forall_mem_cons.mp hcalls
    obtain ⟨msg, hmsg⟩ := Option.isSome_iff_exists.mp (Dict.isSome_get?_iff.mpr hmem)
    have hassert := h.assertion key msg hmsg
    have hexec := exec_assertTest h.testId hkey hmsg c.debug c.cond c.condStr
    have hreport := reportOf_testedMsg msg id c.cond c.condStr
    have hno : (reportOf (testedMsg msg id c.cond c.condStr)).1 = (reportOf msg).1 := by
      rw [hreport]
    have hsent := h.send hmsg (hassert.tested id c.cond c.fits) (Dict.get?_set_self _ _ _) hno
    have hkeys := keys_push_setAssertion hmsg (testedMsg msg id c.cond c.condStr)
    rw [callAll, List.foldl_cons, hexec]
    obtain ⟨reports', done', hrep, hkeys', hreportAt⟩ := ih hsent (hkeys.symm ▸ hcalls)
    refine ⟨reports', done', hrep, hkeys'.trans hkeys, fun key' => (hreportAt key').trans ?_⟩
    rw [reportAt_push_setAssertion]
    split
    · next hself =>
      have hold : t.reportAt key' = some (reportOf msg) := by
        rw [Test.reportAt, ← hself, hmsg]
        rfl
      rw [hold, Option.map_some, Option.map_some, hreport, statusAfter, statusAfter,
        List.foldl_cons, if_pos (hself ▸ hkey)]
    · next hother =>
      have hne : keyOf c.number ≠ .ok key' := fun heq =>
        hother (Except.ok.inj (hkey.symm.trans heq))
      simp only [statusAfter, List.foldl_cons, if_neg hne]

/-- **The loop of `finish`** reports what was not tested. -/
theorem exec_reportSkipped {items : List (Key F × Fields F)}
    (h : Reporting id first reports done t)
    (hitems : ∀ p ∈ items, Dict.get? t.assertions p.1 = some p.2)
    (hnodup : (Dict.keys items).Nodup) :
    ∃ t' reports', (reportSkipped items).exec t = (.ok (), t') ∧
      Reporting id first reports' (fun k => k ∈ Dict.keys items ∨ done k) t' ∧
      Dict.keys t'.assertions = Dict.keys t.assertions ∧
      ∀ key, t'.reportAt key = t.reportAt key := by
  induction items generalizing t reports done with
  | nil =>
    exact ⟨t, reports, rfl, h.mono fun k hk => hk.resolve_left (List.not_mem_nil), rfl,
      fun _ => rfl⟩
  | cons p items ih =>
    obtain ⟨key, msg⟩ := p
    obtain ⟨hmsg, hitems⟩ := List.forall_mem_cons.mp hitems
    rw [Dict.keys_cons, List.nodup_cons] at hnodup
    have hassert := h.assertion key msg hmsg
    obtain ⟨s, hs⟩ := hassert.status
    have hstatus : field msg "test-status" = .str s := Tadad.field_eq hs
    have hdone (k : Key F) (hk : k ∈ Dict.keys ((key, msg) :: items) ∨ done k) :
        k ∈ Dict.keys items ∨ k = key ∨ done k := by
      rcases hk with hk | hk
      · exact (List.mem_cons.mp hk).elim (fun h => .inr (.inl h)) .inl
      · exact .inr (.inr hk)
    have hread : (liftM (Val.getItem msg "test-status") : Client F (Val F)).exec t =
        (.ok (.str s), t) := by
      rw [Val.getItem_eq_ok_iff.mpr hs]
      rfl
    by_cases hskip : isStr (.str s : Val F) skipped
    · -- the assertion was not tested: it is reported
      have hreport : reportOf (Dict.set msg "test-id" (.str id)) = reportOf msg := by
        rw [reportOf, reportOf, field_set_of_ne (by decide), field_set_of_ne (by decide)]
      have hsent := h.send hmsg (hassert.set_testId id) (Dict.get?_set_self _ _ _)
        (congrArg Prod.fst hreport)
      have hkeys := keys_push_setAssertion hmsg (Dict.set msg "test-id" (.str id))
      have hitems' : ∀ p ∈ items, Dict.get? ((t.setAssertion key (Dict.set msg "test-id"
          (.str id))).push (Dict.set msg "test-id" (.str id))).assertions p.1 = some p.2 := by
        intro p hp
        have hne : key ≠ p.1 := fun heq => hnodup.1 (heq ▸ List.mem_map.mpr ⟨p, hp, rfl⟩)
        exact (Dict.get?_set_of_ne _ _ hne).trans (hitems p hp)
      obtain ⟨t', reports', hexec, hrep, hkeys', hreportAt⟩ := ih hsent hitems' hnodup.2
      refine ⟨t', reports', ?_, hrep.mono hdone, hkeys'.trans hkeys, fun key' => ?_⟩
      · rw [reportSkipped]
        refine (Client.exec_bind_ok hread).trans ?_
        rw [if_pos hskip]
        refine (Client.exec_bind_ok (exec_send h.testId msg)).trans ?_
        exact hexec
      · rw [hreportAt, reportAt_push_setAssertion]
        split
        · next hself =>
          rw [Test.reportAt, ← hself, hmsg, hreport]
          rfl
        · rfl
    · have hskipped : ¬ isStr (field msg "test-status") skipped := by rwa [hstatus]
      obtain ⟨t', reports', hexec, hrep, hkeys'⟩ := ih (h.skip hmsg hskipped) hitems hnodup.2
      refine ⟨t', reports', ?_, hrep.mono hdone, hkeys'⟩
      rw [reportSkipped]
      refine (Client.exec_bind_ok hread).trans ?_
      rw [if_neg hskip]
      exact hexec

end Reports

/-! ## A run -/

section Run

variable {F : Type} [Json.JsonFloat F] [DecidableEq F]

/-- **The assertions of an object are those that were registered**, and none was tested. -/
structure Registered (registrations : List (Registration F)) (t : Test F) : Prop where
  nodup : (Dict.keys t.assertions).Nodup
  assertion : ∀ key msg, Dict.get? t.assertions key = some msg →
    ∃ a ∈ registrations, keyOf a.number = .ok key ∧ msg = assertionMsg a.number a.desc
  mem_keys : ∀ a ∈ registrations, ∀ key, keyOf a.number = .ok key → key ∈ Dict.keys t.assertions

omit [DecidableEq F] in
/-- An assertion that is registered is a message of an assertion. -/
theorem Registration.isAssertion (a : Registration F) {key : Key F}
    (hkey : keyOf a.number = .ok key) : IsAssertion key (assertionMsg a.number a.desc) where
  sendable := by
    refine ⟨by simp [assertionMsg], ?_⟩
    refine List.forall_mem_cons.mpr ⟨.str _, ?_⟩
    refine List.forall_mem_cons.mpr ⟨a.fitsNumber, ?_⟩
    refine List.forall_mem_cons.mpr ⟨a.fitsDesc, ?_⟩
    refine List.forall_mem_cons.mpr ⟨.str _, ?_⟩
    exact List.forall_mem_singleton.mpr (.str _)
  msgType := rfl
  number := ⟨a.number, rfl, a.isPrimitive, hkey⟩
  status := ⟨skipped, rfl⟩
  cond := by simp [assertionMsg]
  desc := by simp [assertionMsg]

theorem register_concat (registrations : List (Registration F)) (a : Registration F) (t : Test F)
    {key : Key F} (hkey : keyOf a.number = .ok key) :
    register (registrations ++ [a]) t =
      (register registrations t).setAssertion key (assertionMsg a.number a.desc) := by
  rw [register, List.foldl_append, List.foldl_cons, List.foldl_nil, exec_addAssertion _ hkey]
  rfl

/-- **What registering does**. -/
theorem registered_register (registrations : List (Registration F)) {t : Test F}
    (ht : t.assertions = []) : Registered registrations (register registrations t) ∧
      register registrations t =
        { t with assertions := (register registrations t).assertions } := by
  induction registrations using List.reverseRecOn with
  | nil =>
    refine ⟨⟨?_, fun key msg h => ?_, fun a ha => absurd ha List.not_mem_nil⟩, rfl⟩
    · show (Dict.keys t.assertions).Nodup
      rw [ht]
      exact List.nodup_nil
    · have h : Dict.get? t.assertions key = some msg := h
      rw [ht] at h
      cases h
  | append_singleton registrations a ih =>
    obtain ⟨hreg, heq⟩ := ih
    obtain ⟨key, hkey, -⟩ := Val.exists_keyOf_of_isPrimitive a.isPrimitive
    rw [register_concat _ a t hkey]
    refine ⟨⟨Dict.nodup_keys_set hreg.nodup _ _, fun k msg h => ?_, fun b hb k hk => ?_⟩, ?_⟩
    · have h : Dict.get? (Dict.set (register registrations t).assertions key
          (assertionMsg a.number a.desc)) k = some msg := h
      rw [Dict.get?_set] at h
      split at h
      · next hk =>
        exact ⟨a, List.mem_append_right _ List.mem_cons_self, hk ▸ hkey,
          (Option.some_inj.mp h).symm⟩
      · obtain ⟨b, hb, hkb, hmsg⟩ := hreg.assertion k msg h
        exact ⟨b, List.mem_append_left _ hb, hkb, hmsg⟩
    · refine Dict.mem_keys_set.mpr ?_
      rcases List.mem_append.mp hb with hb | hb
      · exact .inr (hreg.mem_keys b hb k hk)
      · rw [List.mem_singleton.mp hb, hkey] at hk
        exact .inl (Except.ok.inj hk).symm
    · rw [heq]
      rfl

omit [DecidableEq F] in
/-- The exit code, when every assertion has a status. -/
theorem exitCodeOf_eq {items : List (Key F × Fields F)}
    (h : ∀ p ∈ items, ∃ s, Dict.get? p.2 "test-status" = some (.str s)) :
    exitCodeOf items = .ok (if ∀ p ∈ items, (reportOf p.2).2 = passed then 0 else -1) := by
  induction items with
  | nil => rfl
  | cons p items ih =>
    obtain ⟨⟨s, hs⟩, h⟩ := List.forall_mem_cons.mp h
    have hreport : (reportOf p.2).2 = s := by
      rw [reportOf, Tadad.field_eq hs]
      rfl
    rw [exitCodeOf, Val.getItem_eq_ok_iff.mpr hs, ok_bind, ih h]
    by_cases hpassed : s = passed
    · rw [if_neg (by simp [isStr, hpassed])]
      refine congrArg Except.ok (if_congr ?_ rfl rfl)
      rw [List.forall_mem_cons, hreport]
      exact (and_iff_right hpassed).symm
    · rw [if_pos (by simp [isStr, hpassed]), if_neg]
      · rfl
      · exact fun hall => hpassed (hreport.symm.trans (hall p List.mem_cons_self))

omit [DecidableEq F] in
theorem nodup_keys_statuses (reports : List (Fields F)) : (Dict.keys (statuses reports)).Nodup := by
  induction reports using List.reverseRecOn with
  | nil => exact List.nodup_nil
  | append_singleton reports m ih =>
    rw [Tadad.statuses_append]
    exact Dict.nodup_keys_set ih _ _

omit [DecidableEq F] in
theorem mem_keys_statuses_iff {reports : List (Fields F)} {no : String} :
    no ∈ Dict.keys (statuses reports) ↔ ∃ m ∈ reports, (reportOf m).1 = no := by
  induction reports using List.reverseRecOn with
  | nil => exact ⟨fun h => absurd h List.not_mem_nil, fun ⟨m, hm, _⟩ => absurd hm List.not_mem_nil⟩
  | append_singleton reports m ih =>
    rw [Tadad.statuses_append, Dict.mem_keys_set, ih]
    constructor
    · rintro (rfl | ⟨m', hm', rfl⟩)
      · exact ⟨m, List.mem_append_right _ List.mem_cons_self, rfl⟩
      · exact ⟨m', List.mem_append_left _ hm', rfl⟩
    · rintro ⟨m', hm', rfl⟩
      rcases List.mem_append.mp hm' with hm' | hm'
      · exact .inr ⟨m', hm', rfl⟩
      · exact .inl (congrArg (fun m => (reportOf m).1) (List.mem_singleton.mp hm'))

variable {id : String} {first : Fields F} {reports : List (Fields F)} {done : Key F → Prop}
  {t : Test F}

/-- The numbers of the assertions tell them apart. -/
theorem Reporting.nodup_keys_statuses (h : Reporting id first reports done t) :
    (Dict.keys t.statuses).Nodup := by
  rw [Test.statuses, Dict.keys, List.map_map]
  refine List.Nodup.map_on (fun p hp q hq heq => ?_) (List.Nodup.of_map _ h.nodup)
  have hget {p : Key F × Fields F} (hp : p ∈ t.assertions) := Dict.get?_of_mem h.nodup hp
  have hkey := h.distinct p.1 p.2 q.1 q.2 (hget hp) (hget hq) heq
  refine Prod.ext hkey (Option.some_inj.mp ?_)
  rw [← hget hp, ← hget hq, hkey]

/-- **The last reports are the statuses of the object**, when all of them have been reported. -/
theorem Reporting.perm (h : Reporting id first reports done t)
    (hdone : ∀ key ∈ Dict.keys t.assertions, done key) : (statuses reports).Perm t.statuses := by
  refine Dict.perm_of_get? (Tada.nodup_keys_statuses reports) h.nodup_keys_statuses fun no => ?_
  by_cases hno : no ∈ Dict.keys t.statuses
  · obtain ⟨q, hq, rfl⟩ := List.mem_map.mp hno
    obtain ⟨p, hp, rfl⟩ := List.mem_map.mp hq
    have hstatus : Dict.get? t.statuses (reportOf p.2).1 = some (reportOf p.2).2 :=
      Dict.get?_of_mem h.nodup_keys_statuses hq
    rw [hstatus]
    exact h.recorded p.1 p.2 (Dict.get?_of_mem h.nodup hp)
      (.inl (hdone p.1 (List.mem_map_of_mem hp)))
  · rw [Dict.get?_eq_none_iff.mpr hno, Dict.get?_eq_none_iff, mem_keys_statuses_iff]
    rintro ⟨m, hm, rfl⟩
    obtain ⟨key, msg, hmsg, hreport, -⟩ := h.report m hm
    exact hno (List.mem_map.mpr ⟨reportOf msg, List.mem_map.mpr ⟨(key, msg),
      Dict.mem_of_get? hmsg, rfl⟩, hreport.symm⟩)

variable [Calendar]

/-- The message that a script starts with. -/
def Script.startMsg (sha256 : String → String) (c : Script F) : Fields F :=
  Tada.startMsg c.test (c.testId sha256) c.startTime.time

/-- The message that a script ends with. -/
def Script.finishMsg (sha256 : String → String) (c : Script F) : Fields F :=
  Tada.finishMsg (c.testId sha256) c.finishTime.time

/-- A script that has started reports. -/
theorem reporting_start (sha256 : String → String) (c : Script F) :
    ∃ t, ((start sha256 c.ts c.startTime.time).exec (register c.assertions c.test)).2 = t ∧
      Reporting (c.testId sha256) (c.startMsg sha256) [] (fun _ => False) t ∧
      Registered c.assertions t := by
  obtain ⟨hreg, heq⟩ := registered_register c.assertions (t := c.test) rfl
  have hid : sha256 (hashedText (register c.assertions c.test) c.ts) = c.testId sha256 := by
    rw [heq]
    rfl
  rw [exec_start, hid]
  refine ⟨_, rfl, ⟨rfl, ?_, hreg.nodup, fun key msg hmsg => ?_, ?_, fun m hm => ?_, ?_⟩,
    hreg.nodup, hreg.assertion, hreg.mem_keys⟩
  · rw [heq]
    rfl
  · obtain ⟨a, -, hkey, rfl⟩ := hreg.assertion key msg hmsg
    exact a.isAssertion hkey
  · intro key msg key' msg' hmsg hmsg' hno
    obtain ⟨a, ha, hkey, rfl⟩ := hreg.assertion key msg hmsg
    obtain ⟨b, hb, hkey', rfl⟩ := hreg.assertion key' msg' hmsg'
    have hsame := c.distinct a ha b hb hno
    rw [hkey, hkey'] at hsame
    exact Except.ok.inj hsame
  · exact absurd hm List.not_mem_nil
  · intro key msg hmsg hdone
    obtain ⟨a, -, -, rfl⟩ := hreg.assertion key msg hmsg
    exact absurd (Tadad.isStr_self skipped) (hdone.resolve_left not_false)

/-- **A run of a script** sends its start, reports, and its end.  All assertions have been reported,
and it ends with the exit code. -/
theorem exists_run (sha256 : String → String) (c : Script F) :
    ∃ t reports done, Reporting (c.testId sha256) (c.startMsg sha256) reports done t ∧
      (∀ key ∈ Dict.keys t.assertions, done key) ∧
      (∀ key, key ∈ Dict.keys t.assertions ↔ ∃ a ∈ c.assertions, keyOf a.number = .ok key) ∧
      (∀ key ∈ Dict.keys t.assertions, ∃ a ∈ c.assertions, keyOf a.number = .ok key ∧
        t.reportAt key = some (a.number.toStr, statusAfter c.calls key skipped)) ∧
      c.run sha256 = (exitCode t, t.push (c.finishMsg sha256)) := by
  obtain ⟨t₀, hstart, hrep₀, hreg⟩ := reporting_start sha256 c
  have hkeys (key : Key F) : key ∈ Dict.keys t₀.assertions ↔
      ∃ a ∈ c.assertions, keyOf a.number = .ok key := by
    constructor
    · intro hkey
      obtain ⟨msg, hmsg⟩ := Option.isSome_iff_exists.mp (Dict.isSome_get?_iff.mpr hkey)
      obtain ⟨a, ha, hka, -⟩ := hreg.assertion key msg hmsg
      exact ⟨a, ha, hka⟩
    · rintro ⟨a, ha, hka⟩
      exact hreg.mem_keys a ha key hka
  -- the calls
  have hcalls : ∀ call ∈ c.calls, ∃ key ∈ Dict.keys t₀.assertions, keyOf call.number = .ok key := by
    intro call hcall
    obtain ⟨a, ha, heq⟩ := c.registered call hcall
    obtain ⟨key, hkey, -⟩ := Val.exists_keyOf_of_isPrimitive a.isPrimitive
    exact ⟨key, hreg.mem_keys a ha key hkey, heq.trans hkey⟩
  obtain ⟨reports₁, done₁, hrep₁, hkeys₁, hreportAt₁⟩ := exists_callAll hrep₀ hcalls
  -- the assertions that were not tested
  obtain ⟨t, reports, hexec, hrep, hkeys₂, hreportAt₂⟩ := exec_reportSkipped hrep₁
    (fun p hp => Dict.get?_of_mem hrep₁.nodup hp) hrep₁.nodup
  refine ⟨t, reports, _, hrep, fun key hkey => .inl (hkeys₂ ▸ hkey), fun key => ?_, ?_, ?_⟩
  · rw [hkeys₂, hkeys₁, hkeys key]
  · intro key hkey
    rw [hkeys₂, hkeys₁] at hkey
    obtain ⟨msg, hmsg⟩ := Option.isSome_iff_exists.mp (Dict.isSome_get?_iff.mpr hkey)
    obtain ⟨a, ha, hka, rfl⟩ := hreg.assertion key msg hmsg
    refine ⟨a, ha, hka, ?_⟩
    rw [hreportAt₂, hreportAt₁, Test.reportAt, hmsg]
    rfl
  · rw [Script.run, hstart, finish]
    refine (Client.exec_bind_ok (Client.exec_get _)).trans ?_
    refine (Client.exec_bind_ok hexec).trans ?_
    refine (Client.exec_bind_ok (Client.exec_get t)).trans ?_
    rw [hrep.testId]
    refine (Client.exec_bind_ok (Client.exec_discard_ok (exec_send hrep.testId _))).trans ?_
    exact (Client.exec_bind_ok (Client.exec_get _)).trans (Client.exec_liftM _ _)

end Run
end Tada
end LdmsTest
