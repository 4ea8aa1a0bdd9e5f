import LdmsTest.Spec.Expand

/-!
# When template expansion ends

As a spec has finitely many templates, walking an `!extends` chain fails to end exactly when
the walk comes back to a value it has passed (`endless_iff_cyclicChain`).

The phase as a whole is a traversal of the objects that the expansion meets, in the order it
meets them (`startVisits`), and its verdict is that of the first visit that does not go through
(`startExpand_has`).  So it ends unless an object with a cyclic chain is met before the first
error (`terminates_startExpand_iff`).  The depth guard of `_expand` bounds the traversal, but
not the walk: a template that extends itself makes the phase run for ever
(`not_terminates_selfExtending`).
-/

namespace LdmsTest
namespace Spec

open Val (Fields)

variable {F : Type} [PyRuntime F]

/-! ## Cyclic chains -/

/-- The values of `!extends` that a chain can meet after its first step. -/
def extendsValues (templates : Val F) : List (Val F) :=
  match templates with
  | .dict t => t.filterMap fun p =>
      match p.2 with
      | .dict d => some (getExtends d)
      | _ => none
  | _ => []

theorem findTemplate_mem {templates ext : Val F} {t : Fields F}
    (h : findTemplate templates ext = .ok t) : getExtends t ∈ extendsValues templates := by
  obtain ⟨tbl, name, rfl, -, hget⟩ := findTemplate_eq_ok_iff.mp h
  exact List.mem_filterMap.mpr ⟨_, Dict.mem_of_get? hget, rfl⟩

/-- **A chain is endless exactly when it is cyclic.** -/
theorem endless_iff_cyclicChain (templates : Val F) (d : Fields F) :
    Orbit.Endless (nextExt templates) (getExtends d) ↔ CyclicChain templates d := by
  refine Orbit.endless_iff_cyclic
    (S := {v | v ∈ getExtends d :: extendsValues templates}) (List.finite_toSet _) ?_
  intro n v hv
  cases n with
  | zero =>
    obtain rfl := Option.some_inj.mp hv
    exact List.mem_cons_self
  | succ n =>
    rw [Orbit.iter_succ] at hv
    obtain ⟨u, -, hu⟩ := Option.bind_eq_some_iff.mp hv
    obtain ⟨-, t, ht, rfl⟩ := nextExt_eq_some_iff.mp hu
    exact List.mem_cons_of_mem _ (findTemplate_mem ht)

/-! ## The objects that the expansion meets -/

/-- What the expansion meets on its way that can keep it from going on. -/
inductive Visit (F : Type) where
  /-- an object, whose chain is walked -/
  | object (d : Fields F) : Visit F
  /-- a value below the last level -/
  | tooDeep : Visit F
  /-- a value of a type that is not in the table -/
  | unsupported : Visit F

open Classical in
/-- The templates on the chain of an object, if the chain ends. -/
noncomputable def basesOf (templates : Val F) (d : Fields F) : Option (List (Fields F)) :=
  if h : ∃ bs, Bases templates (getExtends d) bs then some h.choose else none

theorem basesOf_eq_some_iff {templates : Val F} {d : Fields F} {bs : List (Fields F)} :
    basesOf templates d = some bs ↔ Bases templates (getExtends d) bs := by
  unfold basesOf
  split
  · next h =>
    constructor
    · intro heq
      exact Option.some_inj.mp heq ▸ h.choose_spec
    · intro hbs
      rw [h.choose_spec.unique hbs]
  · next h =>
    constructor
    · intro heq
      cases heq
    · intro hbs
      exact absurd ⟨bs, hbs⟩ h

/-- What the expansion of a value meets, in order.  Below an object whose chain does not end
it meets nothing. -/
noncomputable def visits (templates : Val F) : ℕ → Val F → List (Visit F)
  | 0, _ => [.tooDeep]
  | room + 1, .list xs => xs.flatMap (visits templates room)
  | room + 1, .tuple xs => xs.flatMap (visits templates room)
  | room + 1, .dict d =>
    .object d :: match basesOf templates d with
      | some bs => (merge (d :: bs)).flatMap fun p => visits templates room p.2
      | none => []
  | _ + 1, .none => [.unsupported]
  | _ + 1, _ => []

/-- What the whole phase meets, in order. -/
noncomputable def startVisits (spec : Fields F) : List (Visit F) :=
  spec.flatMap fun p =>
    if p.1 = "templates" then [] else visits (templatesOf spec) (maxDepth + 1) p.2

/-- The visit goes through: it is an object whose chain ends. -/
def Visit.GoesThrough (templates : Val F) : Visit F → Prop
  | .object d => ∃ bs, Bases templates (getExtends d) bs
  | .tooDeep => False
  | .unsupported => False

open Classical in
/-- How a visit ends. -/
noncomputable def Visit.verdict (templates : Val F) : Visit F → Verdict PyError
  | .object d =>
    if Orbit.Endless (nextExt templates) (getExtends d) then .loop
    else if h : ∃ e, Broken templates (getExtends d) e then .raise h.choose
    else .pass
  | .tooDeep => .raise Spec.tooDeep
  | .unsupported => .raise (unsupportedType "NoneType")

theorem verdict_object_of_bases {templates : Val F} {d : Fields F} {bs : List (Fields F)}
    (h : Bases templates (getExtends d) bs) :
    (Visit.object d).verdict templates = .pass := by
  have hbroken : ¬ ∃ e, Broken templates (getExtends d) e := fun ⟨_, he⟩ => h.not_broken he
  rw [Visit.verdict, if_neg h.not_endless, dif_neg hbroken]

theorem verdict_object_of_broken {templates : Val F} {d : Fields F} {e : PyError}
    (h : Broken templates (getExtends d) e) :
    (Visit.object d).verdict templates = .raise e := by
  have hbroken : ∃ e, Broken templates (getExtends d) e := ⟨e, h⟩
  rw [Visit.verdict, if_neg h.not_endless, dif_pos hbroken, hbroken.choose_spec.unique h]

theorem verdict_object_of_endless {templates : Val F} {d : Fields F}
    (h : Orbit.Endless (nextExt templates) (getExtends d)) :
    (Visit.object d).verdict templates = .loop := by
  rw [Visit.verdict, if_pos h]

theorem verdict_eq_pass_iff {templates : Val F} {x : Visit F} :
    x.verdict templates = .pass ↔ x.GoesThrough templates := by
  cases x with
  | object d =>
    rcases bases_or_broken_or_endless templates (getExtends d) with ⟨bs, hbs⟩ | ⟨e, he⟩ | hend
    · rw [verdict_object_of_bases hbs]
      exact iff_of_true rfl ⟨bs, hbs⟩
    · rw [verdict_object_of_broken he]
      exact iff_of_false nofun fun ⟨_, hbs⟩ => hbs.not_broken he
    · rw [verdict_object_of_endless hend]
      exact iff_of_false nofun fun ⟨_, hbs⟩ => hbs.not_endless hend
  | tooDeep => exact iff_of_false nofun id
  | unsupported => exact iff_of_false nofun id

theorem verdict_eq_loop_iff {templates : Val F} {x : Visit F} :
    x.verdict templates = .loop ↔ ∃ d, x = .object d ∧ CyclicChain templates d := by
  cases x with
  | object d =>
    have hcyc : (∃ d', Visit.object d = .object d' ∧ CyclicChain templates d') ↔
        Orbit.Endless (nextExt templates) (getExtends d) := by
      rw [endless_iff_cyclicChain]
      constructor
      · rintro ⟨_, ⟨⟩, h⟩
        exact h
      · exact fun h => ⟨d, rfl, h⟩
    rw [hcyc]
    rcases bases_or_broken_or_endless templates (getExtends d) with ⟨bs, hbs⟩ | ⟨e, he⟩ | hend
    · rw [verdict_object_of_bases hbs]
      exact iff_of_false nofun hbs.not_endless
    · rw [verdict_object_of_broken he]
      exact iff_of_false nofun he.not_endless
    · rw [verdict_object_of_endless hend]
      exact iff_of_true rfl hend
  | tooDeep => exact iff_of_false nofun nofun
  | unsupported => exact iff_of_false nofun nofun

/-! ## The verdict of the phase -/

/-- Walking the chain of an object has the verdict of the visit. -/
theorem extendsLoop_has (templates : Val F) (d : Fields F) :
    Has (fun n => extendsLoop templates n (getExtends d) [d])
      ((Visit.object d).verdict templates) := by
  rcases bases_or_broken_or_endless templates (getExtends d) with ⟨bs, hbs⟩ | ⟨e, he⟩ | hend
  · rw [verdict_object_of_bases hbs]
    exact ⟨_, hbs.returns [d]⟩
  · rw [verdict_object_of_broken he]
    exact he.raises [d]
  · rw [verdict_object_of_endless hend]
    exact loops_extendsLoop hend [d]

/-- **The verdict of an expansion** is that of the first thing it meets that keeps it from
going on. -/
theorem expand_has (templates : Val F) (room : ℕ) (v : Val F) :
    Has (fun n => expand n templates room v)
      (Verdict.firstFail ((visits templates room v).map (Visit.verdict templates))) := by
  induction room generalizing v with
  | zero =>
    simp only [expand, visits]
    exact raises_throw Spec.tooDeep
  | succ room ih =>
    have members (xs : List (Val F)) :
        Has (fun n => xs.mapM (expand n templates room)) (Verdict.firstFail
          ((xs.flatMap (visits templates room)).map (Visit.verdict templates))) := by
      rw [List.map_flatMap, Verdict.firstFail_flatMap]
      exact has_mapM fun x _ => ih x
    have items (d : Fields F) :
        Has (fun n => d.mapM fun p => (Prod.mk p.1) <$> expand n templates room p.2)
          (Verdict.firstFail ((d.flatMap fun p => visits templates room p.2).map
            (Visit.verdict templates))) := by
      rw [List.map_flatMap, Verdict.firstFail_flatMap]
      exact has_mapM fun p _ => (ih p.2).map _
    cases v with
    | none =>
      simp only [expand, visits]
      exact raises_throw _
    | bool b => simp only [expand, visits]; exact ⟨_, returns_pure _⟩
    | int n => simp only [expand, visits]; exact ⟨_, returns_pure _⟩
    | float x => simp only [expand, visits]; exact ⟨_, returns_pure _⟩
    | str s => simp only [expand, visits]; exact ⟨_, returns_pure _⟩
    | list xs => simp only [expand, visits]; exact (members xs).map _
    | tuple xs => simp only [expand, visits]; exact (members xs).map _
    | dict d =>
      simp only [expand, visits, List.map_cons, Verdict.firstFail_cons]
      refine (extendsLoop_has templates d).bind fun lst hlst => ?_
      -- the loop returned, so the chain ended and `lst` is what it collected
      have hpass := (extendsLoop_has templates d).returns_iff.mp ⟨lst, hlst⟩
      obtain ⟨bs, hbs⟩ := verdict_eq_pass_iff.mp hpass
      have hlst' : lst = d :: bs := hlst.unique (hbs.returns [d])
      rw [basesOf_eq_some_iff.mpr hbs, hlst']
      exact (items _).map _

/-- **The verdict of the phase.** -/
theorem startExpand_has (spec : Fields F) :
    Has (fun n => startExpand n spec)
      (Verdict.firstFail ((startVisits spec).map (Visit.verdict (templatesOf spec)))) := by
  unfold startExpand startVisits
  rw [List.map_flatMap, Verdict.firstFail_flatMap]
  refine has_mapM fun p _ => ?_
  have hitem := updateItem_has (expand_has (templatesOf spec) (maxDepth + 1)) p
  split at hitem
  · next hp => rwa [if_pos hp]
  · next hp => rwa [if_neg hp]

/-- **When the expansion phase ends.**  It yields a result or raises exactly when, among the
objects it meets, none with a cyclic `!extends` chain comes before the first that does not go
through. -/
theorem terminates_startExpand_iff (spec : Fields F) :
    Terminates (fun n => startExpand n spec) ↔
      ∀ before d after, startVisits spec = before ++ .object d :: after →
        (∀ y ∈ before, y.GoesThrough (templatesOf spec)) → ¬ CyclicChain (templatesOf spec) d := by
  rw [(startExpand_has spec).terminates_iff]
  constructor
  · intro h before d after hsplit hpass hcyc
    refine h before (.object d) after hsplit (fun y hy => verdict_eq_pass_iff.mpr (hpass y hy)) ?_
    exact verdict_eq_loop_iff.mpr ⟨d, rfl, hcyc⟩
  · intro h before x after hsplit hpass hloop
    obtain ⟨d, rfl, hcyc⟩ := verdict_eq_loop_iff.mp hloop
    exact h before d after hsplit (fun y hy => verdict_eq_pass_iff.mp (hpass y hy)) hcyc

/-- A spec with an object that extends a template that extends itself. -/
def selfExtending : Fields Empty :=
  [("templates", .dict [("base", .dict [("!extends", .str "base")])]),
    ("node", .dict [("!extends", .str "base")])]

/-- **The phase does not end on every spec**: the chain of `base` is followed for ever. -/
theorem not_terminates_selfExtending :
    ¬ ∀ spec : Fields Empty, Terminates fun n => startExpand n spec := by
  intro hall
  have hcyc : CyclicChain (templatesOf selfExtending) [("!extends", .str "base")] :=
    ⟨0, 1, .str "base", Nat.zero_lt_one, rfl, rfl⟩
  have hloop := verdict_object_of_endless ((endless_iff_cyclicChain _ _).mpr hcyc)
  -- the first thing the expansion meets is the object of `node`
  obtain ⟨after, hvisits⟩ : ∃ after, startVisits selfExtending =
      Visit.object [("!extends", .str "base")] :: after := ⟨_, rfl⟩
  have hhas := startExpand_has selfExtending
  rw [hvisits, List.map_cons, Verdict.firstFail_cons, hloop, Verdict.loop_andThen] at hhas
  exact terminates_iff_not_loops.mp (hall selfExtending) hhas

end Spec
end LdmsTest
