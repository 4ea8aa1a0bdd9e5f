import LdmsTest.Spec.ExpandMeaning

/-!
# What template expansion raises, and the order of items

A chain is broken in one of two ways: it names a template that does not exist
(`NamesMissing`), which is the `KeyError` of the loop, or a link of it is not the name of an
object at all (`IllTyped`), which is an error of another class.

Reordering the items of dictionaries changes the order in which the expansion meets the
objects, and nothing else: what it meets in the one spec it meets, up to reordering, in the
other (`exists_visit_of_same`), chains have the same fate, and expansions are the same
(`Expands.same`).
-/

namespace LdmsTest
namespace Spec

open Val (Fields Same)

variable {F : Type} [PyRuntime F]

/-! ## How a chain is broken -/

/-- The chain of `ext` names the template `x`, and there is no such template. -/
inductive NamesMissing (templates : Val F) : Val F → Val F → Prop where
  | here {ext : Val F} : ext.truthy = true → getTemplate templates ext = .ok .none →
      NamesMissing templates ext ext
  | next {ext x : Val F} {t : Fields F} : ext.truthy = true →
      findTemplate templates ext = .ok t → NamesMissing templates (getExtends t) x →
      NamesMissing templates ext x

/-- A link of the chain of `ext` cannot be looked up, or what it names is not an object. -/
inductive IllTyped (templates : Val F) : Val F → Prop where
  | noLookup {ext : Val F} {e : PyError} : ext.truthy = true →
      getTemplate templates ext = .error e → IllTyped templates ext
  | noObject {ext v : Val F} : ext.truthy = true → getTemplate templates ext = .ok v →
      v ≠ .none → (∀ t, v ≠ .dict t) → IllTyped templates ext
  | next {ext : Val F} {t : Fields F} : ext.truthy = true →
      findTemplate templates ext = .ok t → IllTyped templates (getExtends t) →
      IllTyped templates ext

omit [PyRuntime F] in
theorem kind_ne_of_getTemplate {templates ext : Val F} {e : PyError}
    (h : getTemplate templates ext = .error e) : e.kind ≠ .keyError := by
  unfold getTemplate at h
  split at h
  · split at h
    · rw [← Except.error.inj h]
      exact nofun
    · split at h
      · cases h
      · cases h
  · rw [← Except.error.inj h]
    exact nofun

theorem NamesMissing.broken {templates ext x : Val F} (h : NamesMissing templates ext x) :
    Broken templates ext (templateNotFound x) := by
  induction h with
  | here hgo hget => exact .here hgo (by rw [findTemplate, hget])
  | next hgo ht _ ih => exact .next hgo ht ih

theorem IllTyped.broken {templates ext : Val F} (h : IllTyped templates ext) :
    ∃ e, e.kind ≠ .keyError ∧ Broken templates ext e := by
  induction h with
  | @noLookup ext e hgo hget =>
    exact ⟨e, kind_ne_of_getTemplate hget, .here hgo (by rw [findTemplate, hget])⟩
  | @noObject ext v hgo hget hnone hdict =>
    have hfind : ∃ e, e.kind ≠ .keyError ∧ findTemplate templates ext = .error e := by
      rw [findTemplate, hget]
      cases v with
      | none => exact absurd rfl hnone
      | dict t => exact absurd rfl (hdict t)
      | bool | int | float | str | list | tuple =>
        refine ⟨_, ?_, rfl⟩
        intro hkind
        cases hkind
    obtain ⟨e, hkind, he⟩ := hfind
    exact ⟨e, hkind, .here hgo he⟩
  | next hgo ht _ ih =>
    obtain ⟨e, hkind, he⟩ := ih
    exact ⟨e, hkind, .next hgo ht he⟩

/-- **The two ways a chain is broken.** -/
theorem Broken.cases_kind {templates ext : Val F} {e : PyError} (h : Broken templates ext e) :
    (∃ x, NamesMissing templates ext x ∧ e = templateNotFound x) ∨
      IllTyped templates ext ∧ e.kind ≠ .keyError := by
  induction h with
  | @here ext e hgo he =>
    unfold findTemplate at he
    split at he
    · next hget =>
      obtain rfl := Except.error.inj he
      exact Or.inr ⟨.noLookup hgo hget, kind_ne_of_getTemplate hget⟩
    · next hget => exact Or.inl ⟨ext, .here hgo hget, (Except.error.inj he).symm⟩
    · cases he
    · next v hnone hdict hget =>
      obtain rfl := Except.error.inj he
      exact Or.inr ⟨.noObject hgo hget hnone hdict, nofun⟩
  | next hgo ht _ ih =>
    rcases ih with ⟨x, hx, rfl⟩ | ⟨hill, hkind⟩
    · exact Or.inl ⟨x, .next hgo ht hx, rfl⟩
    · exact Or.inr ⟨.next hgo ht hill, hkind⟩

theorem broken_keyError_iff {templates ext : Val F} {e : PyError} (he : e.kind = .keyError) :
    Broken templates ext e ↔ ∃ x, NamesMissing templates ext x ∧ e = templateNotFound x := by
  constructor
  · intro h
    rcases h.cases_kind with hmissing | ⟨-, hkind⟩
    · exact hmissing
    · exact absurd he hkind
  · rintro ⟨x, hx, rfl⟩
    exact hx.broken

/-! ## What the phase meets before it stops -/

/-- The phase gets as far as meeting `x`: everything it meets before goes through. -/
def Reached (spec : Fields F) (x : Visit F) : Prop :=
  ∃ before after, startVisits spec = before ++ x :: after ∧
    ∀ y ∈ before, y.GoesThrough (templatesOf spec)

/-- No chain that the expansion meets is cyclic. -/
def Acyclic (spec : Fields F) : Prop :=
  ∀ d, .object d ∈ startVisits spec → ¬ CyclicChain (templatesOf spec) d

/-- The expansion meets no value below the last level. -/
def WithinDepth (spec : Fields F) : Prop :=
  .tooDeep ∉ startVisits spec

/-- Every chain that the expansion meets is made of names of objects, as far as it goes. -/
def WellTyped (spec : Fields F) : Prop :=
  ∀ d, .object d ∈ startVisits spec → ¬ IllTyped (templatesOf spec) (getExtends d)

/-- Some chain that the expansion meets names a template that does not exist. -/
def MissesTemplate (spec : Fields F) : Prop :=
  ∃ d x, .object d ∈ startVisits spec ∧ NamesMissing (templatesOf spec) (getExtends d) x

theorem Reached.mem {spec : Fields F} {x : Visit F} (h : Reached spec x) :
    x ∈ startVisits spec := by
  obtain ⟨before, after, hsplit, -⟩ := h
  rw [hsplit]
  exact List.mem_append_right _ List.mem_cons_self

/-- **What the phase raises** is the error of something it gets to. -/
theorem raises_startExpand_iff (spec : Fields F) (e : PyError) :
    Raises (fun n => startExpand n spec) e ↔
      ∃ x, Reached spec x ∧ x.verdict (templatesOf spec) = .raise e := by
  rw [(startExpand_has spec).raises_iff, Verdict.firstFail_eq_iff (v := .raise e) _ _ nofun]
  constructor
  · rintro ⟨before, x, after, hsplit, hpass, hx⟩
    exact ⟨x, ⟨before, after, hsplit, fun y hy => verdict_eq_pass_iff.mp (hpass y hy)⟩, hx⟩
  · rintro ⟨x, ⟨before, after, hsplit, hpass⟩, hx⟩
    exact ⟨before, x, after, hsplit, fun y hy => verdict_eq_pass_iff.mpr (hpass y hy), hx⟩

theorem returns_startExpand_iff (spec : Fields F) :
    (∃ r, Returns (fun n => startExpand n spec) r) ↔
      ∀ x ∈ startVisits spec, x.GoesThrough (templatesOf spec) := by
  rw [(startExpand_has spec).returns_iff, Verdict.firstFail_eq_pass_iff]
  simp only [List.mem_map, forall_exists_index, and_imp, forall_apply_eq_imp_iff₂,
    verdict_eq_pass_iff]

/-- The phase gets as far as the first thing that does not go through. -/
theorem exists_reached_stuck {spec : Fields F}
    (h : ¬ ∃ r, Returns (fun n => startExpand n spec) r) :
    ∃ x, Reached spec x ∧ ¬ x.GoesThrough (templatesOf spec) := by
  rw [(startExpand_has spec).returns_iff] at h
  obtain ⟨before, x, after, hsplit, hpass, hx⟩ := (Verdict.firstFail_eq_iff _ _ h).mp rfl
  refine ⟨x, ⟨before, after, hsplit, fun y hy => verdict_eq_pass_iff.mp (hpass y hy)⟩, ?_⟩
  rw [← verdict_eq_pass_iff, hx]
  exact h

theorem verdict_eq_raise_iff {templates : Val F} {x : Visit F} {e : PyError}
    (he : e.kind = .keyError) : x.verdict templates = .raise e ↔
      ∃ d, x = .object d ∧ Broken templates (getExtends d) e := by
  cases x with
  | object d =>
    have hbroken : (∃ d', Visit.object d = .object d' ∧ Broken templates (getExtends d') e) ↔
        Broken templates (getExtends d) e := by
      constructor
      · rintro ⟨_, ⟨⟩, h⟩
        exact h
      · exact fun h => ⟨d, rfl, h⟩
    rw [hbroken]
    rcases bases_or_broken_or_endless templates (getExtends d) with ⟨bs, hbs⟩ | ⟨e', he'⟩ | hend
    · rw [verdict_object_of_bases hbs]
      exact iff_of_false nofun hbs.not_broken
    · rw [verdict_object_of_broken he']
      constructor
      · intro h
        exact Verdict.raise.inj h ▸ he'
      · intro h
        rw [he'.unique h]
    · rw [verdict_object_of_endless hend]
      exact iff_of_false nofun fun h => h.not_endless hend
  | tooDeep =>
    refine iff_of_false (fun h => ?_) nofun
    rw [← Verdict.raise.inj h] at he
    cases he
  | unsupported =>
    refine iff_of_false (fun h => ?_) nofun
    rw [← Verdict.raise.inj h] at he
    cases he

/-- **The `KeyError`s of the phase.** -/
theorem raises_keyError_iff (spec : Fields F) {e : PyError} (he : e.kind = .keyError) :
    Raises (fun n => startExpand n spec) e ↔ ∃ d x, Reached spec (.object d) ∧
      NamesMissing (templatesOf spec) (getExtends d) x ∧ e = templateNotFound x := by
  rw [raises_startExpand_iff]
  constructor
  · rintro ⟨y, hy, hverdict⟩
    obtain ⟨d, rfl, hbroken⟩ := (verdict_eq_raise_iff he).mp hverdict
    obtain ⟨x, hx, hex⟩ := (broken_keyError_iff he).mp hbroken
    exact ⟨d, x, hy, hx, hex⟩
  · rintro ⟨d, x, hd, hx, hex⟩
    exact ⟨_, hd, (verdict_eq_raise_iff he).mpr ⟨d, rfl, (broken_keyError_iff he).mpr ⟨x, hx, hex⟩⟩⟩

/-! ## Chains of specs that are the same -/

omit [PyRuntime F] in
theorem same_getD {d d' : Fields F} (h : Same (.dict d) (.dict d')) (k : String)
    (v : Val F) : Same ((Dict.get? d k).getD v) ((Dict.get? d' k).getD v) := by
  have hrel := h.rel_get? k
  generalize Dict.get? d k = o, Dict.get? d' k = o' at hrel
  cases hrel with
  | none => exact Same.refl v
  | some hvw => exact hvw

omit [PyRuntime F] in
theorem same_getExtends {d d' : Fields F} (h : Same (.dict d) (.dict d')) :
    Same (getExtends d) (getExtends d') :=
  same_getD h _ _

omit [PyRuntime F] in
theorem same_templatesOf {spec spec' : Fields F} (h : Same (.dict spec) (.dict spec')) :
    Same (templatesOf spec) (templatesOf spec') :=
  same_getD h _ _

section SameChains

variable {templates templates' ext ext' : Val F}

omit [PyRuntime F] in
/-- Looking up a template fails in both, or finds values that are the same. -/
theorem getTemplate_of_same (hT : Same templates templates') (hext : Same ext ext') :
    (∃ v v', getTemplate templates ext = .ok v ∧ getTemplate templates' ext' = .ok v' ∧
      Same v v') ∨
    ∃ e e', getTemplate templates ext = .error e ∧ getTemplate templates' ext' = .error e' := by
  have hhash := hext.unhashable_eq
  cases hT with
  | none => exact Or.inr ⟨_, _, rfl, rfl⟩
  | list => exact Or.inr ⟨_, _, rfl, rfl⟩
  | tuple => exact Or.inr ⟨_, _, rfl, rfl⟩
  | primitive h =>
    cases templates with
    | none | list | tuple | dict => cases h
    | bool | int | float | str => exact Or.inr ⟨_, _, rfl, rfl⟩
  | @dict t t' hkeys hvals =>
    simp only [getTemplate, ← hhash]
    cases ext.unhashable with
    | some tp => exact Or.inr ⟨_, _, rfl, rfl⟩
    | none =>
      refine Or.inl ?_
      cases hext with
      | none => exact ⟨_, _, rfl, rfl, .none⟩
      | list => exact ⟨_, _, rfl, rfl, .none⟩
      | tuple => exact ⟨_, _, rfl, rfl, .none⟩
      | dict => exact ⟨_, _, rfl, rfl, .none⟩
      | primitive h =>
        cases ext with
        | none | list | tuple | dict => cases h
        | bool | int | float => exact ⟨_, _, rfl, rfl, .none⟩
        | str name => exact ⟨_, _, rfl, rfl, same_getD (.dict hkeys hvals) _ _⟩

theorem exists_findTemplate_of_same (hT : Same templates templates') (hext : Same ext ext')
    {t : Fields F} (h : findTemplate templates ext = .ok t) :
    ∃ t', findTemplate templates' ext' = .ok t' ∧ Same (.dict t) (.dict t') := by
  obtain ⟨tbl, name, rfl, rfl, hget⟩ := findTemplate_eq_ok_iff.mp h
  obtain rfl := hext.eq_of_isPrimitive rfl
  obtain ⟨tbl', rfl⟩ := hT.exists_dict
  obtain ⟨v, hget', hv⟩ := hT.exists_get? hget
  obtain ⟨t', rfl⟩ := hv.exists_dict
  exact ⟨t', findTemplate_eq_ok_iff.mpr ⟨tbl', name, rfl, rfl, hget'⟩, hv⟩

/-- The templates on a chain, in the same order. -/
theorem Bases.exists_of_same {bs : List (Fields F)} (hT : Same templates templates')
    (hext : Same ext ext') (h : Bases templates ext bs) : ∃ bs', Bases templates' ext' bs' ∧
      List.Forall₂ (fun t t' => Same (.dict t) (.dict t')) bs bs' := by
  induction h generalizing ext' with
  | stop hstop => exact ⟨[], .stop (hext.truthy_eq ▸ hstop), .nil⟩
  | next hgo ht _ ih =>
    obtain ⟨t', ht', hsame⟩ := exists_findTemplate_of_same hT hext ht
    obtain ⟨bs', hbs', hall⟩ := ih (same_getExtends hsame)
    exact ⟨t' :: bs', .next (hext.truthy_eq ▸ hgo) ht' hbs', .cons hsame hall⟩

theorem NamesMissing.exists_of_same {x : Val F} (hT : Same templates templates')
    (hext : Same ext ext') (h : NamesMissing templates ext x) :
    ∃ x', NamesMissing templates' ext' x' := by
  induction h generalizing ext' with
  | here hgo hget =>
    refine ⟨ext', .here (hext.truthy_eq ▸ hgo) ?_⟩
    rcases getTemplate_of_same hT hext with ⟨v, v', hv, hv', hsame⟩ | ⟨e, e', he, -⟩
    · obtain rfl := Except.ok.inj (hv.symm.trans hget)
      obtain rfl : v' = .none := by
        cases hsame with
        | none => rfl
        | primitive h => cases h
      exact hv'
    · rw [he] at hget
      cases hget
  | next hgo ht _ ih =>
    obtain ⟨t', ht', hsame⟩ := exists_findTemplate_of_same hT hext ht
    obtain ⟨x', hx'⟩ := ih (same_getExtends hsame)
    exact ⟨x', .next (hext.truthy_eq ▸ hgo) ht' hx'⟩

theorem IllTyped.of_same (hT : Same templates templates') (hext : Same ext ext')
    (h : IllTyped templates ext) : IllTyped templates' ext' := by
  induction h generalizing ext' with
  | noLookup hgo hget =>
    rcases getTemplate_of_same hT hext with ⟨v, v', hv, -⟩ | ⟨e, e', -, he'⟩
    · rw [hv] at hget
      cases hget
    · exact .noLookup (hext.truthy_eq ▸ hgo) he'
  | noObject hgo hget hnone hdict =>
    rcases getTemplate_of_same hT hext with ⟨v, v', hv, hv', hsame⟩ | ⟨e, e', he, -⟩
    · obtain rfl := Except.ok.inj (hv.symm.trans hget)
      refine .noObject (hext.truthy_eq ▸ hgo) hv' ?_ ?_
      · rintro rfl
        cases hsame with
        | none => exact hnone rfl
        | primitive => exact hnone rfl
      · rintro t rfl
        obtain ⟨t', ht'⟩ := hsame.symm.exists_dict
        exact hdict t' ht'
    · rw [he] at hget
      cases hget
  | next hgo ht _ ih =>
    obtain ⟨t', ht', hsame⟩ := exists_findTemplate_of_same hT hext ht
    exact .next (hext.truthy_eq ▸ hgo) ht' (ih (same_getExtends hsame))

end SameChains

omit [PyRuntime F] in
/-- The first definition of a key does not depend on the order of items. -/
theorem rel_definition {ds ds' : List (Fields F)}
    (h : List.Forall₂ (fun d d' => Same (.dict d) (.dict d')) ds ds') (k : String) :
    Option.Rel Same (definition ds k) (definition ds' k) := by
  unfold definition
  split
  · exact .none
  · induction h with
    | nil => exact .none
    | @cons d d' ds ds' hd _ ih =>
      rw [List.findSome?_cons, List.findSome?_cons]
      have hrel := hd.rel_get? k
      generalize Dict.get? d k = o, Dict.get? d' k = o' at hrel
      cases hrel with
      | none => exact ih
      | some hvw => exact .some hvw

omit [PyRuntime F] in
theorem exists_definition_of_same {ds ds' : List (Fields F)}
    (h : List.Forall₂ (fun d d' => Same (.dict d) (.dict d')) ds ds') {k : String} {v : Val F}
    (hv : definition ds k = some v) : ∃ v', definition ds' k = some v' ∧ Same v v' := by
  have hrel := rel_definition h k
  rw [hv] at hrel
  generalize definition ds' k = o at hrel
  cases hrel with
  | some hvw => exact ⟨_, rfl, hvw⟩

/-! ## What the expansion meets, in another order -/

/-- Visits of objects that are the same. -/
inductive Visit.SameAs : Visit F → Visit F → Prop where
  | object {d d' : Fields F} : Same (.dict d) (.dict d') → SameAs (.object d) (.object d')
  | tooDeep : SameAs .tooDeep .tooDeep
  | unsupported : SameAs .unsupported .unsupported

omit [PyRuntime F] in
theorem Visit.SameAs.symm {x x' : Visit F} (h : x.SameAs x') : x'.SameAs x := by
  cases h with
  | object hd => exact .object hd.symm
  | tooDeep => exact .tooDeep
  | unsupported => exact .unsupported

theorem Visit.SameAs.goesThrough {templates templates' : Val F} (hT : Same templates templates')
    {x x' : Visit F} (h : x.SameAs x') (hx : x.GoesThrough templates) :
    x'.GoesThrough templates' := by
  cases h with
  | object hd =>
    obtain ⟨bs, hbs⟩ := hx
    obtain ⟨bs', hbs', -⟩ := hbs.exists_of_same hT (same_getExtends hd)
    exact ⟨bs', hbs'⟩
  | tooDeep => exact hx
  | unsupported => exact hx

/-- **What the expansion meets does not depend on the order of items.** -/
theorem exists_visit_of_same {templates templates' : Val F} (hT : Same templates templates')
    (hwf : templates.WF) (hwf' : templates'.WF) {room : ℕ} {v v' : Val F} (hv : v.WF)
    (hv' : v'.WF) (h : Same v v') {x : Visit F} (hx : x ∈ visits templates room v) :
    ∃ x' ∈ visits templates' room v', x.SameAs x' := by
  induction room generalizing v v' with
  | zero =>
    obtain rfl := List.mem_singleton.mp hx
    exact ⟨.tooDeep, List.mem_singleton_self _, .tooDeep⟩
  | succ room ih =>
    have members {xs xs' : List (Val F)} (hlen : xs.length = xs'.length)
        (hsame : ∀ (i : ℕ) (v w : Val F), xs[i]? = some v → xs'[i]? = some w → Same v w)
        (hxs : ∀ x ∈ xs, x.WF) (hxs' : ∀ x ∈ xs', x.WF)
        (hx : x ∈ xs.flatMap (visits templates room)) :
        ∃ x' ∈ xs'.flatMap (visits templates' room), x.SameAs x' := by
      obtain ⟨w, hw, hx⟩ := List.mem_flatMap.mp hx
      obtain ⟨i, w', hi', hi⟩ := Val.exists_getElem?_of_mem hlen.symm hw
      obtain ⟨x', hx', hsameAs⟩ := ih (hxs w hw) (hxs' w' (List.mem_of_getElem? hi'))
        (hsame i w w' hi hi') hx
      exact ⟨x', List.mem_flatMap.mpr ⟨w', List.mem_of_getElem? hi', hx'⟩, hsameAs⟩
    cases h with
    | none => exact absurd hv Val.not_wf_none
    | primitive h =>
      cases v with
      | none | list | tuple | dict => cases h
      | bool | int | float | str => cases hx
    | list hlen hsame => exact members hlen hsame hv.mem_list hv'.mem_list hx
    | tuple hlen hsame => exact members hlen hsame hv.mem_tuple hv'.mem_tuple hx
    | @dict d d' hkeys hvals =>
      have hd : Same (.dict d) (.dict d') := .dict hkeys hvals
      rw [visits] at hx
      rcases List.mem_cons.mp hx with rfl | hx
      · exact ⟨.object d', List.mem_cons_self, .object hd⟩
      -- the chain of `d` ends, and `x` is met below an item of the merged object
      cases hbases : basesOf templates d with
      | none => rw [hbases] at hx; cases hx
      | some bs =>
        rw [hbases] at hx
        have hbs := basesOf_eq_some_iff.mp hbases
        obtain ⟨bs', hbs', hall⟩ := hbs.exists_of_same hT (same_getExtends hd)
        obtain ⟨p, hp, hx⟩ := List.mem_flatMap.mp hx
        have hget := Dict.get?_of_mem (nodup_keys_merge (d :: bs)) hp
        rw [get?_merge (nodup_keys_of_bases hwf hv hbs)] at hget
        obtain ⟨w', hdef', hsame⟩ := exists_definition_of_same (.cons hd hall) hget
        rw [← get?_merge (nodup_keys_of_bases hwf' hv' hbs')] at hdef'
        have hp' := Dict.mem_of_get? hdef'
        obtain ⟨x', hx', hsameAs⟩ := ih (wf_of_mem_merge hwf hv hbs hp)
          (wf_of_mem_merge hwf' hv' hbs' hp') hsame hx
        refine ⟨x', ?_, hsameAs⟩
        rw [visits, basesOf_eq_some_iff.mpr hbs']
        exact List.mem_cons_of_mem _ (List.mem_flatMap.mpr ⟨_, hp', hx'⟩)

/-- The expansion of a well-formed value meets no unsupported type. -/
theorem unsupported_notMem_visits {templates : Val F} (hwf : templates.WF) {room : ℕ}
    {v : Val F} (hv : v.WF) : .unsupported ∉ visits templates room v := by
  induction room generalizing v with
  | zero => exact fun h => nomatch List.mem_singleton.mp h
  | succ room ih =>
    intro hx
    cases v with
    | none => exact Val.not_wf_none hv
    | bool | int | float | str => cases hx
    | list xs =>
      obtain ⟨w, hw, hx⟩ := List.mem_flatMap.mp hx
      exact ih (hv.mem_list w hw) hx
    | tuple xs =>
      obtain ⟨w, hw, hx⟩ := List.mem_flatMap.mp hx
      exact ih (hv.mem_tuple w hw) hx
    | dict d =>
      rw [visits] at hx
      rcases List.mem_cons.mp hx with hx | hx
      · cases hx
      cases hbases : basesOf templates d with
      | none => rw [hbases] at hx; cases hx
      | some bs =>
        rw [hbases] at hx
        obtain ⟨p, hp, hx⟩ := List.mem_flatMap.mp hx
        exact ih (wf_of_mem_merge hwf hv (basesOf_eq_some_iff.mp hbases) hp) hx

/-- **Expansions of the same value are the same.** -/
theorem Expands.same {templates templates' : Val F} (hT : Same templates templates')
    {v v' w w' : Val F} (hv : Same v v') (h : Expands templates v w)
    (h' : Expands templates' v' w') : Same w w' := by
  induction h generalizing v' w' with
  | @primitive v hprim =>
    obtain rfl := hv.eq_of_isPrimitive hprim
    cases h' with
    | primitive => exact .primitive hprim
    | list | tuple | dict => cases hprim
  | @list xs ys hlen _ ih =>
    cases hv with
    | primitive h => cases h
    | @list _ xs' hlen' hsame =>
      cases h' with
      | primitive h => cases h
      | @list _ ys' hlen'' hmem' =>
        refine .list (by rw [← hlen, hlen', hlen'']) fun i w w' hw hw' => ?_
        obtain ⟨x, hx⟩ := Val.exists_getElem?_of_length_eq hlen hw
        obtain ⟨x', hx'⟩ := Val.exists_getElem?_of_length_eq hlen'' hw'
        exact ih i x w hx hw (hsame i x x' hx hx') (hmem' i x' w' hx' hw')
  | @tuple xs ys hlen _ ih =>
    cases hv with
    | primitive h => cases h
    | @tuple _ xs' hlen' hsame =>
      cases h' with
      | primitive h => cases h
      | @tuple _ ys' hlen'' hmem' =>
        refine .tuple (by rw [← hlen, hlen', hlen'']) fun i w w' hw hw' => ?_
        obtain ⟨x, hx⟩ := Val.exists_getElem?_of_length_eq hlen hw
        obtain ⟨x', hx'⟩ := Val.exists_getElem?_of_length_eq hlen'' hw'
        exact ih i x w hx hw (hsame i x x' hx hx') (hmem' i x' w' hx' hw')
  | @dict d e bs hbs _ hkeys _ ih =>
    obtain ⟨d', rfl⟩ := hv.exists_dict
    cases h' with
    | primitive h => cases h
    | @dict _ e' cs hcs _ hkeys' hvals' =>
      obtain ⟨bs', hbs', hall⟩ := hbs.exists_of_same hT (same_getExtends hv)
      obtain rfl := hcs.unique hbs'
      have hdefs : List.Forall₂ (fun d d' => Same (.dict d) (.dict d')) (d :: bs) (d' :: cs) :=
        .cons hv hall
      refine .dict (fun k => ?_) fun k w w' hw hw' => ?_
      · rw [hkeys k, hkeys' k]
        have hrel := rel_definition hdefs k
        generalize definition (d :: bs) k = o, definition (d' :: cs) k = o' at hrel
        cases hrel with
        | none => rfl
        | some => rfl
      · have hk := hkeys k
        rw [hw, Option.isSome_some] at hk
        obtain ⟨v, hdef⟩ := Option.isSome_iff_exists.mp hk.symm
        obtain ⟨v', hdef', hsame⟩ := exists_definition_of_same hdefs hdef
        exact ih k v w hdef hw hsame (hvals' k v' w' hdef' hw')

/-! ## The result of the phase -/

/-- `r` is what template expansion makes of `spec`. -/
structure IsExpansion (spec r : Fields F) : Prop where
  keys : Dict.keys r = Dict.keys spec
  templates : Dict.get? r "templates" = Dict.get? spec "templates"
  expands : ∀ k v w, k ≠ "templates" → Dict.get? spec k = some v → Dict.get? r k = some w →
    Expands (templatesOf spec) v w
  noExtends : ∀ k w, k ≠ "templates" → Dict.get? r k = some w → NoExtends w

theorem IsExpansion.isSome_get?_eq {spec r : Fields F} (h : IsExpansion spec r) (k : String) :
    (Dict.get? r k).isSome = (Dict.get? spec k).isSome := by
  rw [Bool.eq_iff_iff, Dict.isSome_get?_iff, Dict.isSome_get?_iff, h.keys]

theorem IsExpansion.wf {spec r : Fields F} (h : IsExpansion spec r)
    (hspec : (Val.dict spec).WF) : (Val.dict r).WF := by
  have hnodup : (Dict.keys r).Nodup := h.keys ▸ hspec.nodup_keys
  refine .dict hnodup fun p hp => ?_
  have hget := Dict.get?_of_mem hnodup hp
  by_cases htemp : p.1 = "templates"
  · rw [htemp, h.templates] at hget
    exact hspec.of_get? hget
  · have hk := h.isSome_get?_eq p.1
    rw [hget, Option.isSome_some] at hk
    obtain ⟨v, hv⟩ := Option.isSome_iff_exists.mp hk.symm
    exact (h.expands p.1 v p.2 htemp hv hget).wf (wf_templatesOf hspec) (hspec.of_get? hv)

/-- **What the phase returns.** -/
theorem isExpansion_of_returns {spec r : Fields F} (hspec : (Val.dict spec).WF)
    (h : Returns (fun n => startExpand n spec) r) : IsExpansion spec r := by
  have hpaired := paired_of_returns_items (expand_has _ _) h
  have hexpands (k : String) (v w : Val F) (hk : k ≠ "templates")
      (hv : Dict.get? spec k = some v) (hw : Dict.get? r k = some w) :
      Expands (templatesOf spec) v w :=
    expands_of_returns (wf_templatesOf hspec) (hspec.of_get? hv)
      (returns_of_paired hpaired hk hv hw)
  refine ⟨hpaired.keys_eq, get?_templates_of_paired hpaired, hexpands, fun k w hk hw => ?_⟩
  have hmem : k ∈ Dict.keys spec := hpaired.keys_eq ▸ Dict.mem_keys_of_get? hw
  obtain ⟨v, hv⟩ := Option.isSome_iff_exists.mp (Dict.isSome_get?_iff.mpr hmem)
  exact (hexpands k v w hk hv hw).noExtends

/-- **The result does not depend on the order of items.** -/
theorem IsExpansion.same {spec spec' r r' : Fields F} (h : IsExpansion spec r)
    (h' : IsExpansion spec' r') (hsame : Same (.dict spec) (.dict spec')) :
    Same (.dict r) (.dict r') := by
  refine .dict (fun k => ?_) fun k w w' hw hw' => ?_
  · rw [h.isSome_get?_eq, h'.isSome_get?_eq, hsame.isSome_get?_eq]
  · have hk := h.isSome_get?_eq k
    rw [hw, Option.isSome_some] at hk
    obtain ⟨v, hv⟩ := Option.isSome_iff_exists.mp hk.symm
    obtain ⟨v', hv', hvv⟩ := hsame.exists_get? hv
    by_cases htemp : k = "templates"
    · obtain rfl := htemp
      obtain rfl := Option.some_inj.mp (hw.symm.trans (h.templates.trans hv))
      obtain rfl := Option.some_inj.mp (hw'.symm.trans (h'.templates.trans hv'))
      exact hvv
    · exact (h.expands k v w htemp hv hw).same (same_templatesOf hsame) hvv
        (h'.expands k v' w' htemp hv' hw')

/-! ## Reordering a spec -/

section Reordering

variable {spec spec' : Fields F}

theorem exists_startVisit_of_same (hspec : (Val.dict spec).WF) (hspec' : (Val.dict spec').WF)
    (hsame : Same (.dict spec) (.dict spec')) {x : Visit F} (hx : x ∈ startVisits spec) :
    ∃ x' ∈ startVisits spec', x.SameAs x' := by
  obtain ⟨⟨k, v⟩, hp, hx⟩ := List.mem_flatMap.mp hx
  by_cases hk : k = "templates"
  · rw [if_pos hk] at hx
    cases hx
  · rw [if_neg hk] at hx
    obtain ⟨v', hv', hvv⟩ := hsame.exists_get? (Dict.get?_of_mem hspec.nodup_keys hp)
    obtain ⟨x', hx', hxx⟩ := exists_visit_of_same (same_templatesOf hsame)
      (wf_templatesOf hspec) (wf_templatesOf hspec') (hspec.mem_dict _ hp)
      (hspec'.of_get? hv') hvv hx
    refine ⟨x', List.mem_flatMap.mpr ⟨_, Dict.mem_of_get? hv', ?_⟩, hxx⟩
    rwa [if_neg hk]

/-- A spec that can be expanded can be expanded after reordering. -/
theorem exists_returns_of_same (hspec : (Val.dict spec).WF) (hspec' : (Val.dict spec').WF)
    (hsame : Same (.dict spec) (.dict spec')) (h : ∃ r, Returns (fun n => startExpand n spec) r) :
    ∃ r, Returns (fun n => startExpand n spec') r := by
  rw [returns_startExpand_iff] at h ⊢
  intro x' hx'
  obtain ⟨x, hx, hxx⟩ := exists_startVisit_of_same hspec' hspec hsame.symm hx'
  exact hxx.symm.goesThrough (same_templatesOf hsame) (h x hx)

theorem unsupported_notMem_startVisits (hspec : (Val.dict spec).WF) :
    .unsupported ∉ startVisits spec := by
  intro hx
  obtain ⟨p, hp, hx⟩ := List.mem_flatMap.mp hx
  split at hx
  · cases hx
  · exact unsupported_notMem_visits (wf_templatesOf hspec) (hspec.mem_dict p hp) hx

/-- What keeps an object from going through, when it is neither cyclic nor ill typed. -/
theorem exists_namesMissing {templates : Val F} {d : Fields F}
    (hcyc : ¬ CyclicChain templates d) (hill : ¬ IllTyped templates (getExtends d))
    (hno : ¬ (Visit.object d).GoesThrough templates) :
    ∃ x, NamesMissing templates (getExtends d) x := by
  rcases bases_or_broken_or_endless templates (getExtends d) with hbs | ⟨e, he⟩ | hend
  · exact absurd hbs hno
  · rcases he.cases_kind with ⟨x, hx, -⟩ | ⟨h, -⟩
    · exact ⟨x, hx⟩
    · exact absurd h hill
  · exact absurd ((endless_iff_cyclicChain _ _).mp hend) hcyc

/-- **The expansion fails with a `KeyError`, in whatever order the items come.** -/
theorem exists_raises_keyError (hspec : (Val.dict spec).WF) (hacyclic : Acyclic spec)
    (hdepth : WithinDepth spec) (htyped : WellTyped spec) (hspec' : (Val.dict spec').WF)
    (hsame : Same (.dict spec) (.dict spec'))
    (hno : ¬ ∃ r, Returns (fun n => startExpand n spec') r) :
    ∃ e, e.kind = .keyError ∧ Raises (fun n => startExpand n spec') e := by
  have hT := same_templatesOf hsame
  obtain ⟨x', hx', hstuck⟩ := exists_reached_stuck hno
  obtain ⟨x, hx, hxx⟩ := exists_startVisit_of_same hspec' hspec hsame.symm hx'.mem
  cases hxx with
  | tooDeep => exact absurd hx hdepth
  | unsupported => exact absurd hx (unsupported_notMem_startVisits hspec)
  | @object d' d hd =>
    have hstuck' : ¬ (Visit.object d).GoesThrough (templatesOf spec) := fun h =>
      hstuck ((Visit.SameAs.object hd.symm).goesThrough hT h)
    obtain ⟨y, hy⟩ := exists_namesMissing (hacyclic d hx) (htyped d hx) hstuck'
    obtain ⟨y', hy'⟩ := hy.exists_of_same hT (same_getExtends hd.symm)
    exact ⟨_, rfl, (raises_keyError_iff spec' rfl).mpr ⟨d', y', hx', hy', rfl⟩⟩

end Reordering

/-- A spec returns unless something it meets keeps it from going on. -/
theorem returns_startExpand_iff_of_acyclic {spec : Fields F} (hspec : (Val.dict spec).WF)
    (hacyclic : Acyclic spec) (hdepth : WithinDepth spec) :
    (∃ r, Returns (fun n => startExpand n spec) r) ↔
      ¬ MissesTemplate spec ∧ WellTyped spec := by
  rw [returns_startExpand_iff]
  constructor
  · intro hall
    constructor
    · rintro ⟨d, x, hd, hx⟩
      obtain ⟨bs, hbs⟩ := hall _ hd
      exact hbs.not_broken hx.broken
    · intro d hd hill
      obtain ⟨bs, hbs⟩ := hall _ hd
      obtain ⟨e, -, he⟩ := hill.broken
      exact hbs.not_broken he
  · rintro ⟨hmissing, htyped⟩ x hx
    cases x with
    | tooDeep => exact hdepth hx
    | unsupported => exact unsupported_notMem_startVisits hspec hx
    | object d =>
      by_contra hno
      obtain ⟨y, hy⟩ := exists_namesMissing (hacyclic d hx) (htyped d hx) hno
      exact hmissing ⟨d, y, hx, hy⟩

/-- **Template expansion.**  On a spec whose chains are acyclic and whose expansion stays within
`MAX_DEPTH`:

* the phase raises a `KeyError` exactly when a chain it reaches names a template that does not
  exist, and the error names that template; when every link of every chain is the name of an
  object or of nothing, it is enough that some chain names such a template;
* it returns exactly when no chain it meets does so or has a link that is not the name of an
  object, and what it returns is the expansion of the spec;
* after reordering the items of any dictionaries it returns the same, and it raises a `KeyError`
  again if every link of every chain is the name of an object or of nothing. -/
theorem startExpand_correct (spec : Fields F) (hspec : (Val.dict spec).WF)
    (hacyclic : Acyclic spec) (hdepth : WithinDepth spec) :
    (∀ e, e.kind = .keyError → (Raises (fun n => startExpand n spec) e ↔
      ∃ d x, Reached spec (.object d) ∧ NamesMissing (templatesOf spec) (getExtends d) x ∧
        e = templateNotFound x)) ∧
    (WellTyped spec → ((∃ e, e.kind = .keyError ∧ Raises (fun n => startExpand n spec) e) ↔
      MissesTemplate spec)) ∧
    ((∃ r, Returns (fun n => startExpand n spec) r) ↔ ¬ MissesTemplate spec ∧ WellTyped spec) ∧
    (∀ r, Returns (fun n => startExpand n spec) r → IsExpansion spec r) ∧
    ∀ spec', (Val.dict spec').WF → Same (.dict spec) (.dict spec') →
      (∀ r, Returns (fun n => startExpand n spec) r →
        ∃ r', Returns (fun n => startExpand n spec') r' ∧ Same (.dict r) (.dict r')) ∧
      (WellTyped spec → ((∃ e, e.kind = .keyError ∧ Raises (fun n => startExpand n spec) e) ↔
        ∃ e, e.kind = .keyError ∧ Raises (fun n => startExpand n spec') e)) := by
  have hiff := returns_startExpand_iff_of_acyclic hspec hacyclic hdepth
  refine ⟨fun e he => raises_keyError_iff spec he, fun htyped => ⟨?_, fun hmissing => ?_⟩,
    hiff, fun r hr => isExpansion_of_returns hspec hr, fun spec' hspec' hsame => ⟨?_, ?_⟩⟩
  · rintro ⟨e, hkind, he⟩
    obtain ⟨d, x, hd, hx, -⟩ := (raises_keyError_iff spec hkind).mp he
    exact ⟨d, x, hd.mem, hx⟩
  · exact exists_raises_keyError hspec hacyclic hdepth htyped hspec (Same.refl _)
      fun hret => (hiff.mp hret).1 hmissing
  · intro r hr
    obtain ⟨r', hr'⟩ := exists_returns_of_same hspec hspec' hsame ⟨r, hr⟩
    exact ⟨r', hr', (isExpansion_of_returns hspec hr).same (isExpansion_of_returns hspec' hr')
      hsame⟩
  · -- one of the two specs raises, so neither returns
    have noReturn {s s' : Fields F} (hs : (Val.dict s).WF) (hs' : (Val.dict s').WF)
        (hss : Same (.dict s) (.dict s'))
        (h : ∃ e, e.kind = .keyError ∧ Raises (fun n => startExpand n s) e) :
        ¬ ∃ r, Returns (fun n => startExpand n s') r := by
      intro hret
      obtain ⟨r, hr⟩ := exists_returns_of_same hs' hs hss.symm hret
      obtain ⟨e, -, he⟩ := h
      cases Settles.unique hr he
    intro htyped
    constructor
    · intro h
      exact exists_raises_keyError hspec hacyclic hdepth htyped hspec' hsame
        (noReturn hspec hspec' hsame h)
    · intro h
      exact exists_raises_keyError hspec hacyclic hdepth htyped hspec (Same.refl _)
        (noReturn hspec' hspec hsame.symm h)

/-- A spec with an object that extends a template. -/
def inheriting : Fields Empty :=
  [("templates", .dict [("base", .dict [("path", .str "/bin")])]),
    ("node", .dict [("!extends", .str "base"), ("prog", .str "ls")])]

/-- The chain of the object of `inheriting` ends at its template. -/
theorem bases_inheriting : Bases (templatesOf inheriting)
    (getExtends [("!extends", .str "base"), ("prog", .str "ls")]) [[("path", .str "/bin")]] :=
  .next rfl (findTemplate_eq_ok_iff.mpr ⟨_, "base", rfl, rfl, rfl⟩) (.stop rfl)

theorem startVisits_inheriting : startVisits inheriting =
    [.object [("!extends", .str "base"), ("prog", .str "ls")]] := by
  have hnode : visits (templatesOf inheriting) (maxDepth + 1)
      (.dict [("!extends", .str "base"), ("prog", .str "ls")]) =
        [.object [("!extends", .str "base"), ("prog", .str "ls")]] := by
    rw [visits, basesOf_eq_some_iff.mpr bases_inheriting]
    rfl
  change [] ++ (visits (templatesOf inheriting) (maxDepth + 1) _ ++ []) = _
  rw [hnode]
  rfl

/-- The expansion of `inheriting` returns. -/
theorem startExpand_inheriting : ∃ r, Returns (fun n => startExpand n inheriting) r ∧
    IsExpansion inheriting r := by
  have honly (d : Fields Empty) (hd : .object d ∈ startVisits inheriting) :
      ∃ bs, Bases (templatesOf inheriting) (getExtends d) bs := by
    rw [startVisits_inheriting] at hd
    rw [Visit.object.inj (List.mem_singleton.mp hd)]
    exact ⟨_, bases_inheriting⟩
  have hacyclic : Acyclic inheriting := by
    intro d hd hcyc
    obtain ⟨bs, hbs⟩ := honly d hd
    exact hbs.not_endless ((endless_iff_cyclicChain _ _).mpr hcyc)
  have hdepth : WithinDepth inheriting := by
    rw [WithinDepth, startVisits_inheriting]
    exact fun h => nomatch List.mem_singleton.mp h
  have hmeaning := startExpand_correct inheriting (by decide) hacyclic hdepth
  obtain ⟨r, hr⟩ := hmeaning.2.2.1.mpr <| by
    constructor
    · rintro ⟨d, x, hd, hx⟩
      obtain ⟨bs, hbs⟩ := honly d hd
      exact hbs.not_broken hx.broken
    · intro d hd hill
      obtain ⟨bs, hbs⟩ := honly d hd
      obtain ⟨e, -, he⟩ := hill.broken
      exact hbs.not_broken he
  exact ⟨r, hr, hmeaning.2.2.2.1 r hr⟩

/-- A spec with an object that extends a list. -/
def unhashable : Fields Empty :=
  [("n", .dict [("!extends", .list [.str "x"])])]

/-- The chain of the object of `unhashable` breaks at the list. -/
theorem illTyped_unhashable :
    IllTyped (templatesOf unhashable) (getExtends [("!extends", .list [.str "x"])]) :=
  .noLookup rfl rfl

theorem startVisits_unhashable :
    startVisits unhashable = [.object [("!extends", .list [.str "x"])]] := by
  have hbases : basesOf (templatesOf unhashable) [("!extends", .list [.str "x"])] = none := by
    obtain ⟨e, -, he⟩ := illTyped_unhashable.broken
    rw [Option.eq_none_iff_forall_ne_some]
    exact fun bs hbs => (basesOf_eq_some_iff.mp hbs).not_broken he
  have hnode : visits (templatesOf unhashable) (maxDepth + 1)
      (.dict [("!extends", .list [.str "x"])]) = [.object [("!extends", .list [.str "x"])]] := by
    rw [visits, hbases]
  change visits (templatesOf unhashable) (maxDepth + 1) _ ++ [] = _
  rw [hnode]
  rfl

/-- **A chain need not be made of names**: no template is missing, and the phase does not return. -/
theorem not_startExpand_unhashable :
    ¬ ∀ spec : Fields Empty, (Val.dict spec).WF → Acyclic spec → WithinDepth spec →
      ¬ MissesTemplate spec → ∃ r, Returns (fun n => startExpand n spec) r ∧ IsExpansion spec r := by
  intro h
  obtain ⟨e, -, hbroken⟩ := illTyped_unhashable.broken
  have honly (d : Fields Empty) (hd : .object d ∈ startVisits unhashable) :
      d = [("!extends", .list [.str "x"])] := by
    rw [startVisits_unhashable] at hd
    exact Visit.object.inj (List.mem_singleton.mp hd)
  have hacyclic : Acyclic unhashable := by
    intro d hd hcyc
    obtain rfl := honly d hd
    exact hbroken.not_endless ((endless_iff_cyclicChain _ _).mpr hcyc)
  have hdepth : WithinDepth unhashable := by
    rw [WithinDepth, startVisits_unhashable]
    exact fun h => nomatch List.mem_singleton.mp h
  have hmissing : ¬ MissesTemplate unhashable := by
    rintro ⟨d, x, hd, hx⟩
    obtain rfl := honly d hd
    cases hx with
    | here _ hget => cases hget
    | next _ ht _ => cases ht
  obtain ⟨r, hr, -⟩ := h unhashable (by decide) hacyclic hdepth hmissing
  have htyped := ((returns_startExpand_iff_of_acyclic (by decide) hacyclic hdepth).mp ⟨r, hr⟩).2
  refine htyped _ ?_ illTyped_unhashable
  rw [startVisits_unhashable]
  exact List.mem_cons_self

end Spec
end LdmsTest
