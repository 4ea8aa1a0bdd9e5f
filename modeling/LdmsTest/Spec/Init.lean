import LdmsTest.Spec.ExpandOrder
import LdmsTest.Spec.SubstMeaning

/-!
# `Spec()`

The constructor of `LDMS_Test.Spec` copies its argument, expands the templates, and then
substitutes the variables.  The main result says what the strings of the result are.

The name of `%%` is empty.  At the top level it stands for a percent sign, whatever the spec
says; an object inside can still define an attribute with the empty name, and then `%%` inside
that object stands for its value.
-/

namespace LdmsTest
namespace Spec

open Val (Fields Same)

variable {F : Type} [PyRuntime F]

/-- `Spec.__init__` -/
def specInit (fuel : ℕ) (spec : Fields F) : Run PyError (Fields F) := do
  let dict ← Run.ofExcept (Val.deepCopyFields spec)
  let expanded ← startExpand fuel dict
  startSubst fuel expanded

theorem exists_has_specInit (spec : Fields F) : ∃ v, Has (fun n => specInit n spec) v :=
  exists_has_bind (exists_has_ofExcept _) fun d =>
    exists_has_bind ⟨_, startExpand_has d⟩ fun e => ⟨_, startSubst_has e⟩

/-- A well-formed spec is its own copy. -/
theorem specInit_eq {spec : Fields F} (hspec : (Val.dict spec).WF) (fuel : ℕ) :
    specInit fuel spec = startExpand fuel spec >>= startSubst fuel := by
  rw [specInit, Val.deepCopyFields_eq fun p hp => (hspec.mem_dict p hp).deepCopy_eq,
    Run.ofExcept_ok, pure_bind]

/-- `Spec()` returns on well-formed specs only: it raises on the others when it copies them. -/
theorem wf_of_returns_specInit {spec : Fields F} (hspec : (Val.dict spec).Keyed)
    {r : Fields F} (h : Returns (fun n => specInit n spec) r) : (Val.dict spec).WF := by
  obtain ⟨d, hd, -⟩ := exists_of_returns_bind
    (exists_has_ofExcept (Val.deepCopyFields spec)).choose_spec
    (fun d _ => exists_has_bind ⟨_, startExpand_has d⟩ fun e => ⟨_, startSubst_has e⟩) h
  have hcopy := Settles.unique (settles_ofExcept _) hd
  refine hspec.wf_of_deepCopy (w := .dict d) ?_
  rw [Val.deepCopy, hcopy]
  rfl

/-- The two phases of a construction that returns. -/
theorem exists_of_returns_specInit {spec : Fields F} (hspec : (Val.dict spec).WF)
    {r : Fields F} (h : Returns (fun n => specInit n spec) r) :
    ∃ e, Returns (fun n => startExpand n spec) e ∧ Returns (fun n => startSubst n e) r := by
  simp only [specInit_eq hspec] at h
  exact exists_of_returns_bind (startExpand_has spec) (fun e _ => ⟨_, startSubst_has e⟩) h

/-- **The result of a construction** is well formed. -/
theorem wf_of_returns {spec : Fields F} (hspec : (Val.dict spec).Keyed) {r : Fields F}
    (h : Returns (fun n => specInit n spec) r) : (Val.dict r).WF := by
  have hwf := wf_of_returns_specInit hspec h
  obtain ⟨e, he, hr⟩ := exists_of_returns_specInit hwf h
  exact wf_of_returns_startSubst ((isExpansion_of_returns hwf he).wf hwf) hr

/-! ## The strings of the result -/

/-- The environment gives every name the value it has at a path below the item `k` of the
expanded spec. -/
def IsScope (var : Env F) (e : Fields F) (k : String) (p : List Step) : Prop :=
  ∀ name, Dict.get? var name = meaning e k p name

theorem IsSubstitution.at_path {e r : Fields F} (h : IsSubstitution e r) (he : (Val.dict e).WF)
    {k : String} (hk : k ≠ "templates") (p : List Step) :
    valueAt (.dict e) (.key k :: p) = none ∧ valueAt (.dict r) (.key k :: p) = none ∨
      ∃ v w var, valueAt (.dict e) (.key k :: p) = some v ∧
        valueAt (.dict r) (.key k :: p) = some w ∧ Substs var v w ∧ IsScope var e k p := by
  have hkeys := h.isSome_get?_eq k
  cases hv : Dict.get? e k with
  | none =>
    rw [hv, Option.isSome_none, Option.isSome_eq_false_iff, Option.isNone_iff_eq_none] at hkeys
    exact Or.inl ⟨valueAt_dict_of_none hv p, valueAt_dict_of_none hkeys p⟩
  | some v =>
    rw [hv, Option.isSome_some] at hkeys
    obtain ⟨w, hw⟩ := Option.isSome_iff_exists.mp hkeys
    rw [valueAt_dict hv, valueAt_dict hw]
    rcases (h.substs k v w hk hv hw).at_path (he.of_get? hv) p with hnone | hsome
    · exact Or.inl hnone
    · obtain ⟨v', w', var, hv', hw', hsub, hscope⟩ := hsome
      refine Or.inr ⟨v', w', var, hv', hw', hsub, fun name => ?_⟩
      rw [hscope, get?_topScope he.nodup_keys, meaning, hv, Option.elim_some]

/-- A string of the result, and the string it comes from. -/
theorem IsSubstitution.exists_settlesAt {e r : Fields F} (h : IsSubstitution e r)
    (he : (Val.dict e).WF) {k : String} (hk : k ≠ "templates") {p : List Step} {t : String}
    (ht : valueAt (.dict r) (.key k :: p) = some (.str t)) :
    ∃ s var, valueAt (.dict e) (.key k :: p) = some (.str s) ∧ IsScope var e k p ∧
      SettlesAt var s t := by
  rcases h.at_path he hk p with ⟨-, hnone⟩ | ⟨v, w, var, hv, hw, hsub, hscope⟩
  · rw [hnone] at ht
    cases ht
  · obtain rfl := Option.some_inj.mp (hw.symm.trans ht)
    cases hsub with
    | scalar _ hstr => exact absurd rfl (hstr t)
    | str hs => exact ⟨_, var, hv, hscope, hs⟩

/-- A string of the expanded spec, and what it becomes. -/
theorem IsSubstitution.exists_valueAt {e r : Fields F} (h : IsSubstitution e r)
    (he : (Val.dict e).WF) {k : String} (hk : k ≠ "templates") {p : List Step} {s : String}
    (hs : valueAt (.dict e) (.key k :: p) = some (.str s)) :
    ∃ t var, valueAt (.dict r) (.key k :: p) = some (.str t) ∧ IsScope var e k p ∧
      SettlesAt var s t := by
  rcases h.at_path he hk p with ⟨hnone, -⟩ | ⟨v, w, var, hv, hw, hsub, hscope⟩
  · rw [hnone] at hs
    cases hs
  · obtain rfl := Option.some_inj.mp (hv.symm.trans hs)
    cases hsub with
    | scalar _ hstr => exact absurd rfl (hstr s)
    | str hs => exact ⟨_, var, hw, hscope, hs⟩

/-- **An undefined name** in some level of a string keeps the phase from returning. -/
theorem not_returns_startSubst {e : Fields F} (he : (Val.dict e).WF) {k : String}
    (hk : k ≠ "templates") {p : List Step} {s t name : String} {var : Env F} {n : ℕ}
    (hs : valueAt (.dict e) (.key k :: p) = some (.str s)) (hvar : IsScope var e k p)
    (ht : Orbit.iter (nextLevel var) n s = some t) (hname : name ∈ references t)
    (hno : meaning e k p name = none) : ¬ ∃ r, Returns (fun n => startSubst n e) r := by
  obtain ⟨d, hd⟩ := exists_subVars_error hname ((hvar name).trans hno)
  have hundef : MeetsUndefined var s d :=
    ⟨t, Orbit.stopsAt_of_iter ht (nextLevel_eq_none_iff.mpr (Or.inr ⟨d, hd⟩)), hd⟩
  intro hret
  cases hv : Dict.get? e k with
  | none => rw [valueAt_dict_of_none hv] at hs; cases hs
  | some v =>
    rw [valueAt_dict hv] at hs
    obtain ⟨var', hsite, hscope⟩ := exists_site_of_valueAt (topScope e) (he.of_get? hv) hs
    obtain ⟨u, hu⟩ := (returns_startSubst_iff e).mp hret (.string var' s) <| by
      refine List.mem_flatMap.mpr ⟨_, Dict.mem_of_get? hv, ?_⟩
      rwa [if_neg hk]
    refine hu.not_meetsUndefined (hundef.congr fun name => ?_)
    rw [hvar, hscope, get?_topScope he.nodup_keys, meaning, hv, Option.elim_some]

/-- A construction with an undefined name does not return, and if it ends it raises a
`KeyError`. -/
theorem raises_specInit_of_undefined {spec e : Fields F} (hspec : (Val.dict spec).WF)
    (he : Returns (fun n => startExpand n spec) e)
    (hno : ¬ ∃ r, Returns (fun n => startSubst n e) r) :
    (¬ ∃ r, Returns (fun n => specInit n spec) r) ∧
      (Terminates (fun n => specInit n spec) →
        ∃ name, Raises (fun n => specInit n spec) ⟨.keyError, name⟩) := by
  have hwf := (isExpansion_of_returns hspec he).wf hspec
  simp only [specInit_eq hspec]
  obtain ⟨v, hv⟩ : ∃ v, Has (fun n => startSubst n e) v := ⟨_, startSubst_has e⟩
  have hinit : Has (fun n => startExpand n spec >>= startSubst n) v :=
    Has.bind (v := .pass) ⟨e, he⟩ fun e' he' => he.unique he' ▸ hv
  cases v with
  | pass => exact absurd hv hno
  | raise err =>
    obtain ⟨name, rfl⟩ := exists_of_raises_startSubst hwf hv
    refine ⟨?_, fun _ => ⟨name, hinit⟩⟩
    rintro ⟨r, hr⟩
    cases Settles.unique hr hinit
  | loop =>
    refine ⟨?_, fun hterm => absurd hinit (terminates_iff_not_loops.mp hterm)⟩
    rintro ⟨r, hr⟩
    exact hr.not_loops hinit

/-- **Variable substitution.**  For a spec, as a dictionary with one item for each key:

* when `Spec()` returns, every string of the result outside `templates` is what the string at
  its place in the expanded spec settles at when each `%NAME%` is replaced by the value of the
  name there: its value in the innermost enclosing object that has it as a primitive attribute,
  else at the top level, where `%%` is a percent sign;
* when a level of a string has a name without a value there, `Spec()` does not return, and if
  it ends it raises a `KeyError`;
* what a string becomes is determined by the string and the values of the names at its place;
* after reordering the items of any dictionaries `Spec()` returns the same. -/
theorem specInit_correct (spec : Fields F) (hspec : (Val.dict spec).Keyed) :
    (∀ r, Returns (fun n => specInit n spec) r →
      ∃ e, Returns (fun n => startExpand n spec) e ∧ IsExpansion spec e ∧
        ∀ k p t, k ≠ "templates" → valueAt (.dict r) (.key k :: p) = some (.str t) →
          ∃ s var, valueAt (.dict e) (.key k :: p) = some (.str s) ∧ IsScope var e k p ∧
            SettlesAt var s t) ∧
    ((Val.dict spec).WF → ∀ e, Returns (fun n => startExpand n spec) e →
      ∀ k p s var n t name, k ≠ "templates" →
        valueAt (.dict e) (.key k :: p) = some (.str s) → IsScope var e k p →
        Orbit.iter (nextLevel var) n s = some t → name ∈ references t →
        meaning e k p name = none →
        (¬ ∃ r, Returns (fun n => specInit n spec) r) ∧
          (Terminates (fun n => specInit n spec) →
            ∃ name, Raises (fun n => specInit n spec) ⟨.keyError, name⟩)) ∧
    (∀ spec' e e' r r', (Val.dict spec').Keyed →
      Returns (fun n => startExpand n spec) e → Returns (fun n => startExpand n spec') e' →
      Returns (fun n => specInit n spec) r → Returns (fun n => specInit n spec') r' →
      ∀ k p s, k ≠ "templates" → valueAt (.dict e) (.key k :: p) = some (.str s) →
        valueAt (.dict e') (.key k :: p) = some (.str s) →
        (∀ name, meaning e k p name = meaning e' k p name) →
        valueAt (.dict r) (.key k :: p) = valueAt (.dict r') (.key k :: p)) ∧
    ∀ spec', (Val.dict spec').Keyed → Same (.dict spec) (.dict spec') →
      ∀ r, Returns (fun n => specInit n spec) r →
        ∃ r', Returns (fun n => specInit n spec') r' ∧ Same (.dict r) (.dict r') := by
  refine ⟨fun r hr => ?_, fun hwf e he k p s var n t name hk hs hvar ht hname hno => ?_,
    fun spec' e e' r r' hspec' he he' hr hr' k p s hk hs hs' hscope => ?_,
    fun spec' hspec' hsame r hr => ?_⟩
  · have hwf := wf_of_returns_specInit hspec hr
    obtain ⟨e, he, hsubst⟩ := exists_of_returns_specInit hwf hr
    have hexp := isExpansion_of_returns hwf he
    exact ⟨e, he, hexp, fun k p t hk ht =>
      (isSubstitution_of_returns hsubst).exists_settlesAt (hexp.wf hwf) hk ht⟩
  · have hewf := (isExpansion_of_returns hwf he).wf hwf
    exact raises_specInit_of_undefined hwf he
      (not_returns_startSubst hewf hk hs hvar ht hname hno)
  · have hwf := wf_of_returns_specInit hspec hr
    have hwf' := wf_of_returns_specInit hspec' hr'
    obtain ⟨e₁, he₁, hsubst⟩ := exists_of_returns_specInit hwf hr
    obtain ⟨e₂, he₂, hsubst'⟩ := exists_of_returns_specInit hwf' hr'
    obtain rfl := he.unique he₁
    obtain rfl := he'.unique he₂
    have hewf := (isExpansion_of_returns hwf he).wf hwf
    have hewf' := (isExpansion_of_returns hwf' he').wf hwf'
    obtain ⟨t, var, ht, hvar, hset⟩ :=
      (isSubstitution_of_returns hsubst).exists_valueAt hewf hk hs
    obtain ⟨t', var', ht', hvar', hset'⟩ :=
      (isSubstitution_of_returns hsubst').exists_valueAt hewf' hk hs'
    have hagree (name : String) : Dict.get? var name = Dict.get? var' name := by
      rw [hvar, hvar', hscope]
    rw [ht, ht', (hset.congr hagree).unique hset']
  · have hwf := wf_of_returns_specInit hspec hr
    have hwf' := hwf.of_same hsame hspec'
    obtain ⟨e, he, hsubst⟩ := exists_of_returns_specInit hwf hr
    obtain ⟨e', he'⟩ := exists_returns_of_same hwf hwf' hsame ⟨e, he⟩
    have hexp := isExpansion_of_returns hwf he
    have hexp' := isExpansion_of_returns hwf' he'
    have hsame' := hexp.same hexp' hsame
    obtain ⟨r', hr'⟩ := exists_returns_startSubst_of_same (hexp.wf hwf) (hexp'.wf hwf') hsame'
      ⟨r, hsubst⟩
    refine ⟨r', ?_, (isSubstitution_of_returns hsubst).same (isSubstitution_of_returns hr')
      (hexp.wf hwf) (hexp'.wf hwf') hsame'⟩
    simp only [specInit_eq hwf']
    exact he'.bind hr'

/-- A spec with an object that defines the empty name. -/
def shadowing : Fields Empty :=
  [("a", .dict [("", .str "x"), ("s", .str "%%")])]

/-- `Spec(shadowing)`, with the strings at their places. -/
theorem specInit_shadowing : (Val.dict shadowing).Keyed ∧
    ∃ (r e : Fields Empty) (s : String) (var : Env Empty),
      Returns (fun n => specInit n shadowing) r ∧
      valueAt (.dict r) [.key "a", .key "s"] = some (.str "x") ∧
      valueAt (.dict e) [.key "a", .key "s"] = some (.str s) ∧
      IsScope var e "a" [.key "s"] ∧ SettlesAt var s "x" := by
  have hkeyed : (Val.dict shadowing).Keyed := Val.WF.keyed (by decide)
  obtain ⟨v, hv⟩ := exists_has_specInit shadowing
  have hr : Returns (fun n => specInit n shadowing)
      [("a", .dict [("", .str "x"), ("s", .str "x")])] := hv.returns_of_run (m := 1) rfl
  obtain ⟨e, -, -, hstrings⟩ := (specInit_correct shadowing hkeyed).1 _ hr
  obtain ⟨s, var, hs, hvar, hset⟩ := hstrings "a" [.key "s"] "x" (by decide) rfl
  exact ⟨hkeyed, _, e, s, var, hr, rfl, hs, hvar, hset⟩

/-- **`%%` is not always a percent sign**: inside an object that defines the empty name, it is
not read as the name of a percent sign. -/
theorem not_percent_shadowing :
    ¬ ∀ (spec r e : Fields Empty), (Val.dict spec).Keyed →
      Returns (fun n => specInit n spec) r → Returns (fun n => startExpand n spec) e →
      ∀ k p t, k ≠ "templates" → valueAt (.dict r) (.key k :: p) = some (.str t) →
        ∃ s var, valueAt (.dict e) (.key k :: p) = some (.str s) ∧
          (∀ name, Dict.get? var name = if name = "" then some (.str "%") else meaning e k p name) ∧
          SettlesAt var s t := by
  intro hall
  have hr : Returns (fun n => specInit n shadowing)
      [("a", .dict [("", .str "x"), ("s", .str "x")])] :=
    (exists_has_specInit shadowing).choose_spec.returns_of_run (m := 1) rfl
  have he : Returns (fun n => startExpand n shadowing) shadowing :=
    (startExpand_has shadowing).returns_of_run (m := 1) rfl
  obtain ⟨s, var, hs, hvar, hsettles⟩ := hall shadowing _ _ (Val.WF.keyed (by decide)) hr he "a"
    [.key "s"] "x" (by decide) rfl
  obtain rfl : "%%" = s := Val.str.inj (Option.some_inj.mp hs)
  have hempty : lookup var "" = .ok "%" := by
    rw [lookup, hvar, if_pos rfl]
    rfl
  have hfirst : subVars var "%%" = .ok "%" := by
    rw [subVars, show pieces none "%%".toList = [.var ""] from rfl, List.mapM_cons, replacePiece,
      hempty]
    rfl
  have hsecond : subVars var "%" = .ok "%" := rfl
  have hpercent : SettlesAt var "%%" "%" :=
    ⟨.next (nextLevel_eq_some_iff.mpr ⟨hfirst, by decide⟩)
      (.here (nextLevel_eq_none_iff.mpr (Or.inl hsecond))), hsecond⟩
  exact absurd (hsettles.unique hpercent) (by decide)

end Spec
end LdmsTest
