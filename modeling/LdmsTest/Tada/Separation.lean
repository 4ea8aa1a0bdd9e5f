import LdmsTest.Foundation.Interleave
import LdmsTest.Tada.Tadad

/-!
# The tests at `tadad` are separate

What the server holds for a test is its pending messages and its rows.  A message acts there as it
acts on the whole server, and leaves what the server holds for the other tests alone.

* `view`: what the server holds for a test.
* `testFinish_part`: the rows that a test leaves depend on its rows only.
* `separates`: the tests are separate, in the sense of `Interleave.Separates`.
* `Served`: the datagrams are messages of one test, and the server with these alone ends with rows of
  a kind.
* `exists_run_served_agree`: each client is served as if it were alone, in whatever order the
  datagrams arrive.
-/

namespace LdmsTest
namespace Tada
namespace Tadad

open Val (Fields keyOf getItem)
open Sql (Cell Affinity)
open SQLModel (Obj)

section Parts

variable {F : Type} [Json.JsonFloat F] [DecidableEq F] [Affinity F] {id : String}
  {obj : Obj TADATest F}

/-- What a computation on the rows of a test ends with. -/
def onPart {α : Type} (c : Cell F) (p : α × Db F) : α × Db F :=
  (p.1, p.2.part c)

theorem getTest_part (id : String) (db : Db F) :
    (getTest (.str id) db).map (onPart (.text id)) = getTest (.str id) (db.part (.text id)) := by
  have hid : Dict.get? ([("test_id", .str id)] : Fields F) "test_id" = some (.str id) := rfl
  have hget := SQLModel.get_part (S := TADATest) recursionLimit List.mem_cons_self hid db.tests
  rw [getTest, getTest, except_map_bind]
  show _ = SQLModel.get recursionLimit [("test_id", .str id)]
    (db.tests.part "test_id" (.text (Val.str id : Val F).toStr)) >>= _
  rw [← hget, except_bind_map]
  rfl

theorem getAssertion_part (h : IsTest obj id) (no : Val F) (db : Db F) :
    (getAssertion obj no db).map (onPart (.text id)) =
      getAssertion obj no (db.part (.text id)) := by
  have hid : Dict.get? ([("test_id", .str id), ("assert_id", no)] : Fields F) "test_id" =
      some (.str id) := rfl
  have hget := SQLModel.get_part (S := TADAAssertion) recursionLimit List.mem_cons_self hid
    db.assertions
  rw [getAssertion, getAssertion, except_map_bind, h.attr]
  show _ = SQLModel.get recursionLimit [("test_id", .str id), ("assert_id", no)]
    (db.assertions.part "test_id" (.text (Val.str id : Val F).toStr)) >>= _
  rw [← hget, except_bind_map]
  rfl

theorem commitTest_part (obj : Obj TADATest F) (c : Cell F) (db : Db F) :
    (commitTest obj db).map (onPart c) = commitTest obj (db.part c) := by
  have hcommit := SQLModel.commit_part (k := "test_id") List.mem_cons_self obj c db.tests
  rw [commitTest, commitTest, except_map_bind]
  show _ = SQLModel.commit obj (db.tests.part "test_id" c) >>= _
  rw [← hcommit, except_bind_map]
  rfl

theorem dbTestStart_part (obj : Obj TADATest F) (r : Fields F) (c : Cell F) (db : Db F) :
    (dbTestStart obj r db).map (onPart c) = dbTestStart obj r (db.part c) := by
  rw [dbTestStart, dbTestStart]
  simp only [except_map_bind, commitTest_part]

theorem dbTestFinish_part (obj : Obj TADATest F) (r : Fields F) (c : Cell F) (db : Db F) :
    (dbTestFinish obj r db).map (onPart c) = dbTestFinish obj r (db.part c) := by
  rw [dbTestFinish, dbTestFinish]
  simp only [except_map_bind, commitTest_part]

theorem dbTestAssert_part (h : IsTest obj id) (r : Fields F) (db : Db F) :
    (dbTestAssert obj r db).map (Db.part (.text id)) =
      dbTestAssert obj r (db.part (.text id)) := by
  rw [dbTestAssert, dbTestAssert, except_map_bind]
  refine except_bind_congr fun no _ => ?_
  rw [← getAssertion_part h, except_bind_map, except_map_bind]
  refine except_bind_congr fun p _ => ?_
  obtain ⟨a, db₁⟩ := p
  show (getItem r "test-status" >>= _).map _ = _
  rw [except_map_bind]
  refine except_bind_congr fun status _ => ?_
  rw [except_map_bind]
  refine except_bind_congr fun cond _ => ?_
  rw [except_map_bind]
  refine except_bind_congr fun desc _ => ?_
  have hcommit := SQLModel.commit_part (k := "test_id") List.mem_cons_self
    (reported a status cond desc) (.text id) db₁.assertions
  rw [except_map_bind]
  show _ = SQLModel.commit (reported a status cond desc)
    (db₁.assertions.part "test_id" (.text id)) >>= _
  rw [← hcommit, except_bind_map]
  rfl

variable [Calendar]

theorem record_part (h : IsTest obj id) (r : Fields F) (db : Db F) :
    (record (obj, db) r).map (onPart (.text id)) = record (obj, db.part (.text id)) r := by
  rw [record, record, except_map_bind]
  refine except_bind_congr fun msgType _ => ?_
  split
  · rw [except_map_bind]
    exact except_bind_congr fun _ _ => dbTestStart_part obj r _ db
  · split
    · rw [except_map_bind]
      refine except_bind_congr fun _ _ => ?_
      rw [except_map_bind]
      show _ = dbTestAssert obj r (db.part (.text id)) >>= _
      rw [← dbTestAssert_part h, except_bind_map]
      rfl
    · split
      · exact dbTestFinish_part obj r _ db
      · rfl

theorem foldlM_record_part {acc : Obj TADATest F × Db F} (h : IsTest acc.1 id)
    (messages : List (Fields F)) :
    (messages.foldlM record acc).map (onPart (.text id)) =
      messages.foldlM record (onPart (.text id) acc) := by
  induction messages generalizing acc with
  | nil => rfl
  | cons m messages ih =>
    obtain ⟨obj, db⟩ := acc
    rw [List.foldlM_cons, List.foldlM_cons, except_map_bind]
    show _ = record (obj, db.part (.text id)) m >>= _
    rw [← record_part h, except_bind_map]
    exact except_bind_congr fun acc hacc => ih (keeps_of_record h hacc).1

/-- **Finishing a test acts on its rows**. -/
theorem testFinish_part {first : Fields F} {rest : List (Fields F)}
    (hid : Dict.get? first "test-id" = some (.str id)) (db : Db F) :
    (testFinish (first :: rest) db).map (Db.part (.text id)) =
      testFinish (first :: rest) (db.part (.text id)) := by
  obtain ⟨obj, db₁, hget, hobj, -⟩ := exists_getTest id db
  have hpart := getTest_part id db
  rw [hget] at hpart
  rw [testFinish, testFinish, Val.getItem_eq_ok_iff.mpr hid, ok_bind, ok_bind, ← hpart, hget,
    ok_bind, except_map_bind]
  show _ = (first :: rest).foldlM record (onPart (.text id) (obj, db₁)) >>= _
  rw [← foldlM_record_part hobj, except_bind_map]
  rfl

end Parts

/-! ## Views -/

section Views

variable {F : Type} [DecidableEq F]

/-- The cell that rows of a test-id have. -/
def keyCell : Key F → Option (Cell F)
  | .str id => some (.text id)
  | _ => none

/-- The rows with this cell are those of the key. -/
def ofCell (c : Cell F) (k : Key F) : Bool :=
  keyCell k = some c

/-- **What the server holds for a test**: its pending messages and its rows. -/
def view (c : Cell F) (s : State F) : State F :=
  ⟨Dict.keep (ofCell c) s.results, s.db.part c⟩

theorem ofCell_str (id : String) : ofCell (.text id : Cell F) (.str id) :=
  decide_eq_true rfl

theorem ofCell_str_of_ne {id : String} {c : Cell F} (hc : c ≠ .text id) :
    ofCell c (.str id) = false :=
  decide_eq_false fun h => hc (Option.some_inj.mp h).symm

variable [Json.JsonFloat F]

theorem pending_view (id : String) (s : State F) (testKey : Val F) :
    pending (view (.text id) s) (.str id) testKey = pending s (.str id) testKey := by
  unfold pending
  rw [show Dict.get? (view (.text id) s).results (.str id) = Dict.get? s.results (.str id) from
    Dict.get?_keep _ (ofCell_str id)]

omit [Json.JsonFloat F] in
theorem view_set (id : String) (s : State F) (messages : List (Fields F)) :
    view (.text id) { s with results := Dict.set s.results (.str id) messages } =
      { view (.text id) s with
        results := Dict.set (view (.text id) s).results (.str id) messages } :=
  congrArg (State.mk · _) (Dict.keep_set _ (ofCell_str id) _)

omit [Json.JsonFloat F] in
theorem view_set_of_ne {id : String} {c : Cell F} (hc : c ≠ .text id) (s : State F)
    (messages : List (Fields F)) :
    view c { s with results := Dict.set s.results (.str id) messages } = view c s :=
  congrArg (State.mk · _) (Dict.keep_set_of_not _ (ofCell_str_of_ne hc) _)

/-- The datagram is a message of the test with this test-id. -/
def Owns (c : Cell F) (data : List UInt8) : Prop :=
  ∃ (id : String) (msg : Fields F), c = .text id ∧ parse data = some msg ∧ field msg "test-id" = .str id

variable [Affinity F] [Calendar]

/-- **A message acts in the view of its test**. -/
theorem stepMsg_view {s : State F} (hs : Inv s) {id : String} {msg : Fields F}
    (hid : Dict.get? msg "test-id" = some (.str id)) :
    (stepMsg s msg).map (view (.text id)) = stepMsg (view (.text id) s) msg := by
  have hfield : field msg "test-id" = .str id := by rw [field, hid, Option.getD_some]
  have hkey : keyOf (.str id : Val F) = .ok (.str id) := rfl
  rw [stepMsg, stepMsg, hfield, hkey]
  simp only [ok_bind, pending_view]
  split
  · exact congrArg Except.ok (view_set id s [msg])
  · split
    · rw [except_map_bind]
      exact except_bind_congr fun messages _ => congrArg Except.ok (view_set id s _)
    · split
      · rw [except_map_bind]
        refine except_bind_congr fun messages hmessages => ?_
        have hids := hs.test_id (pending_eq_ok_iff.mp hmessages) hid
        obtain ⟨first, rest, hcons⟩ := List.exists_cons_of_ne_nil
          (List.append_ne_nil_of_right_ne_nil messages (List.cons_ne_nil msg []))
        rw [hcons] at hids ⊢
        have hpart : (testFinish (first :: rest) s.db).map (Db.part (.text id)) = _ :=
          testFinish_part (hids first List.mem_cons_self) s.db
        rw [except_map_bind]
        show _ = testFinish (first :: rest) (s.db.part (.text id)) >>= _
        rw [← hpart, except_bind_map]
        refine except_bind_congr fun db _ => congrArg Except.ok ?_
        exact congrArg (State.mk · _) (Dict.keep_pop _ _ _)
      · rfl

/-- A message leaves the views of the other tests. -/
theorem view_of_takes {s s' : State F} (hs : Inv s) {id : String} {msg : Fields F}
    (hid : Dict.get? msg "test-id" = some (.str id)) (h : Takes s msg s') {c : Cell F}
    (hc : c ≠ .text id) : view c s' = view c s := by
  have hstr {key : Key F} (hkey : keyOf (field msg "test-id") = .ok key) : key = .str id := by
    rw [field, hid, Option.getD_some] at hkey
    exact (Except.ok.inj hkey).symm
  cases h with
  | other => rfl
  | start _ hkey =>
    rw [hstr hkey]
    exact view_set_of_ne hc s _
  | status _ hkey _ =>
    rw [hstr hkey]
    exact view_set_of_ne hc s _
  | finish _ hkey hmessages hdb =>
    obtain rfl := hstr hkey
    have hpop := Dict.keep_pop_of_not s.results (ofCell_str_of_ne hc)
    exact congrArg₂ State.mk hpop (hs.keeps hmessages hid hdb c hc)

omit [DecidableEq F] [Json.JsonFloat F] [Affinity F] [Calendar] in
theorem get?_of_field {msg : Fields F} {id : String} (h : field msg "test-id" = .str id) :
    Dict.get? msg "test-id" = some (.str id) := by
  rw [field] at h
  cases hget : Dict.get? msg "test-id" with
  | none =>
    rw [hget] at h
    cases h
  | some v =>
    rw [hget, Option.getD_some] at h
    rw [h]

/-- **The tests are separate**. -/
theorem separates : Interleave.Separates (step (F := F)) view Inv Owns where
  inv hs _ hstep := hs.of_step hstep
  within {s c data} hs howns := by
    obtain ⟨id, msg, rfl, hparse, hfield⟩ := howns
    rw [step, step, hparse]
    dsimp only
    split
    · exact stepMsg_view hs (get?_of_field hfield)
    · rfl
  outside {s s' c c' data} hs howns hstep hne := by
    obtain ⟨id, msg, rfl, hparse, hfield⟩ := howns
    rw [step, hparse] at hstep
    dsimp only at hstep
    split at hstep
    · exact view_of_takes hs (get?_of_field hfield) (takes_of_stepMsg hstep) hne
    · cases hstep
      rfl

end Views

end Tadad

open Sql (Cell Affinity)

/-! ## Databases with the same rows -/

section Rows

variable {F : Type} [DecidableEq F]

/-- The databases have the same rows, up to order. -/
structure SameRows (db db' : Db F) : Prop where
  tests : db.tests.rows.Perm db'.tests.rows
  assertions : db.assertions.rows.Perm db'.assertions.rows

theorem perm_of_part {S : Sql.Schema} {k : String} (hk : k ∈ S.names) {t u : Sql.Table S F}
    (h : ∀ c, t.part k c = u.part k c) : t.rows.Perm u.rows := by
  suffices hparts : ∀ c : Option (Cell F), (t.rows.filter fun r => Dict.get? r k = c).Perm
      (u.rows.filter fun r => Dict.get? r k = c) from Interleave.perm_of_filter_perm hparts
  intro c
  cases c with
  | none =>
    have hnone (t : Sql.Table S F) : t.rows.filter (fun r => Dict.get? r k = none) = [] := by
      refine List.filter_eq_nil_iff.mpr fun r hr hget => ?_
      rw [decide_eq_true_eq, Dict.get?_eq_none_iff, t.keys_eq r hr] at hget
      exact hget hk
    rw [hnone, hnone]
  | some c =>
    have hpart (t : Sql.Table S F) : t.rows.filter (fun r => Dict.get? r k = some c) =
        (t.part k c).rows := List.filter_congr fun r _ => by rw [beq_eq_decide]
    rw [hpart, hpart, h c]

theorem sameRows_of_part {db db' : Db F} (h : ∀ c, db.part c = db'.part c) : SameRows db db' where
  tests := perm_of_part (k := "test_id") (by decide) fun c => congrArg Db.tests (h c)
  assertions := perm_of_part (k := "test_id") (by decide) fun c =>
    congrArg Db.assertions (h c)

end Rows

/-! ## Clients -/

section Served

variable {F : Type} [Json.JsonFloat F] [DecidableEq F] [Calendar] [Affinity F]

/-- **The datagrams of one test**, and what the server makes of them alone. -/
structure Served (id : String) (sent : List (List UInt8)) (P : Db F → Prop) : Prop where
  owns : ∀ data ∈ sent, Tadad.Owns (F := F) (.text id) data
  alone : ∀ s : Tadad.State F, s.db = Db.empty F → ∃ s', Tadad.run s sent = .ok s' ∧ P s'.db

theorem Tadad.Inv.of_run {s s' : Tadad.State F} (hs : Tadad.Inv s) {datagrams : List (List UInt8)}
    (h : Tadad.run s datagrams = .ok s') : Tadad.Inv s' := by
  rw [Tadad.run] at h
  induction datagrams generalizing s with
  | nil =>
    cases h
    exact hs
  | cons data datagrams ih =>
    rw [List.foldlM_cons] at h
    obtain ⟨s₁, hs₁, h⟩ := exists_of_bind_ok h
    exact ih (hs.of_step hs₁) h

variable {ι : Type} [DecidableEq ι] {id : ι → String} {sent : ι → List (List UInt8)}
  {P : ι → Db F → Prop} {s : Tadad.State F} {events : List (ι × List UInt8)}

/-- **Each client is served as if it were alone**, and the other tests are left alone. -/
theorem exists_run_served (hserved : ∀ i, Served (id i) (sent i) (P i))
    (hids : Function.Injective id) (hs : Tadad.Inv s)
    (hnew : ∀ i, s.db.part (.text (id i)) = Db.empty F)
    (hevents : Interleave.Interleaves sent events) :
    ∃ s', Tadad.run s (events.map Prod.snd) = .ok s' ∧
      (∀ i, Tadad.run (Tadad.view (.text (id i)) s) (sent i) =
        .ok (Tadad.view (.text (id i)) s')) ∧
      ∀ c, (∀ i, Cell.text (id i) ≠ c) → Tadad.view c s' = Tadad.view c s := by
  -- the parties of the server are the cells of the test-ids
  let cell (i : ι) : Cell F := .text (id i)
  have hcell : Function.Injective cell := fun i j h => hids (Cell.text.inj h)
  let named := events.map fun p => (cell p.1, p.2)
  have hself (i : ι) : Interleave.proj (cell i) named = sent i :=
    (Interleave.proj_map_of_injective hcell i events).trans (hevents i)
  have hother {c : Cell F} (hc : ∀ i, cell i ≠ c) : Interleave.proj c named = [] :=
    Interleave.proj_map_of_forall_ne hc events
  have howns : ∀ p ∈ named, Tadad.Owns p.1 p.2 :=
    List.forall_mem_map.mpr fun p hp => (hserved p.1).owns p.2 (hevents.mem_sent hp)
  have halone (c : Cell F) :
      ∃ s', (Interleave.proj c named).foldlM Tadad.step (Tadad.view c s) = .ok s' := by
    by_cases hc : ∃ i, cell i = c
    · obtain ⟨i, rfl⟩ := hc
      obtain ⟨s', hs', -⟩ := (hserved i).alone (Tadad.view (cell i) s) (hnew i)
      exact ⟨s', by rw [hself i]; exact hs'⟩
    · rw [hother (not_exists.mp hc)]
      exact ⟨_, rfl⟩
  obtain ⟨s', hrun, -, hview⟩ := Tadad.separates.run hs howns halone
  rw [List.map_map] at hrun
  refine ⟨s', hrun, fun i => ?_, fun c hc => ?_⟩
  · have hi := hview (cell i)
    rwa [hself i] at hi
  · have hc' := hview c
    rw [hother hc] at hc'
    exact (Except.ok.inj hc').symm

/-- **Every client finds its rows**, in whatever order the datagrams arrive, and the order does not
matter. -/
theorem exists_run_served_agree (hserved : ∀ i, Served (id i) (sent i) (P i))
    (hids : Function.Injective id) (hs : Tadad.Inv s)
    (hnew : ∀ i, s.db.part (.text (id i)) = Db.empty F)
    (hevents : Interleave.Interleaves sent events) :
    ∃ s', Tadad.run s (events.map Prod.snd) = .ok s' ∧
      (∀ i, P i (s'.db.part (.text (id i)))) ∧
      (∀ c, (∀ i, Cell.text (id i) ≠ c) → s'.db.part c = s.db.part c) ∧
      ∀ events', Interleave.Interleaves sent events' →
        ∃ s'', Tadad.run s (events'.map Prod.snd) = .ok s'' ∧ SameRows s'.db s''.db := by
  obtain ⟨s', hrun, hself, hother⟩ := exists_run_served hserved hids hs hnew hevents
  refine ⟨s', hrun, fun i => ?_, fun c hc => congrArg Tadad.State.db (hother c hc),
    fun events' hevents' => ?_⟩
  · obtain ⟨t, ht, hrows⟩ := (hserved i).alone (Tadad.view (.text (id i)) s) (hnew i)
    have hview := ht.symm.trans (hself i)
    cases hview
    exact hrows
  · obtain ⟨s'', hrun'', hself', hother'⟩ := exists_run_served hserved hids hs hnew hevents'
    refine ⟨s'', hrun'', sameRows_of_part fun c => ?_⟩
    suffices hview : Tadad.view c s' = Tadad.view c s'' from congrArg Tadad.State.db hview
    by_cases hc : ∃ i, Cell.text (id i) = c
    · obtain ⟨i, rfl⟩ := hc
      exact Except.ok.inj ((hself i).symm.trans (hself' i))
    · rw [hother c (not_exists.mp hc), hother' c (not_exists.mp hc)]

end Served

end Tada
end LdmsTest
