import LdmsTest.Python.Equality
import LdmsTest.Spec.Init

/-!
# `Spec()` of a spec that JSON has stored

A spec that is stored as JSON comes back with a list for every tuple.  `Spec()` makes the same of
the two but for the tuples, which it keeps: a tuple is never hashable where a string is expected,
and no variable has a tuple for its value.

So the two results are equal unless there is a tuple or a NaN in them.  Nothing that `Spec()`
takes away can be either of these, apart from the value of an `!extends`.

* `returns_specInit_listed`: `Spec()` of the spec with lists.
* `Storable`: no tuple and no NaN stays in what `Spec()` makes of the spec.
* `plain_iff_storable`: this is what it says.
-/

namespace LdmsTest

open Json (JsonFloat listed listedItems listedFields listedItems_eq_map listedFields_eq_map
  get?_listedFields)
open Val (Fields Plain plain_primitive_iff plain_list_iff plain_dict_iff not_plain_tuple)

namespace Spec

variable {F : Type} [PyRuntime F]

/-! ## Visits -/

section Visits

variable {f g : ℕ → Val F → Run PyError (Val F)} {verdict : Val F → Verdict PyError}

omit [PyRuntime F]

/-- Visits of the members, which are visits of the members with lists for tuples. -/
theorem returns_listedItems (hf : ∀ v, Has (fun n => f n v) (verdict v)) {xs ys : List (Val F)}
    (h : Returns (fun n => xs.mapM (f n)) ys)
    (hfg : ∀ x ∈ xs, ∀ y, Returns (fun n => f n x) y →
      Returns (fun n => g n (listed x)) (listed y)) :
    Returns (fun n => (listedItems xs).mapM (g n)) (listedItems ys) := by
  rw [listedItems_eq_map, listedItems_eq_map]
  refine returns_mapM ?_
  rw [List.forall₂_map_left_iff, List.forall₂_map_right_iff]
  have hall := forall₂_of_returns_mapM (fun x _ => hf x) h
  exact ((List.forall₂_and_left (p := (· ∈ xs)) _ _).mpr ⟨fun _ hx => hx, hall⟩).imp
    fun x y hxy => hfg x hxy.1 y hxy.2

/-- Visits of the values of a dictionary. -/
theorem returns_listedFields (hf : ∀ v, Has (fun n => f n v) (verdict v)) {d e : Fields F}
    (h : Returns (fun n => d.mapM fun p => (Prod.mk p.1) <$> f n p.2) e)
    (hfg : ∀ p ∈ d, ∀ y, Returns (fun n => f n p.2) y →
      Returns (fun n => g n (listed p.2)) (listed y)) :
    Returns (fun n => (listedFields d).mapM fun p => (Prod.mk p.1) <$> g n p.2)
      (listedFields e) := by
  rw [listedFields_eq_map, listedFields_eq_map]
  refine returns_mapM ?_
  rw [List.forall₂_map_left_iff, List.forall₂_map_right_iff]
  have hall := forall₂_of_returns_mapM (fun p _ => (hf p.2).map (Prod.mk p.1)) h
  refine ((List.forall₂_and_left (p := (· ∈ d)) _ _).mpr ⟨fun _ hp => hp, hall⟩).imp ?_
  rintro p q ⟨hp, hpq⟩
  obtain ⟨w, hw, rfl⟩ := (returns_map_iff (hf p.2)).mp hpq
  exact (hfg p hp w hw).map (Prod.mk p.1)

/-- Visits of the items of a spec. -/
theorem returns_updateItems_listed (hf : ∀ v, Has (fun n => f n v) (verdict v)) {d e : Fields F}
    (h : Returns (fun n => d.mapM (updateItem (f n))) e)
    (hfg : ∀ v w, Returns (fun n => f n v) w → Returns (fun n => g n (listed v)) (listed w)) :
    Returns (fun n => (listedFields d).mapM (updateItem (g n))) (listedFields e) := by
  rw [listedFields_eq_map, listedFields_eq_map]
  refine returns_mapM ?_
  rw [List.forall₂_map_left_iff, List.forall₂_map_right_iff]
  refine (paired_of_returns_items hf h).imp ?_
  rintro ⟨k, v⟩ ⟨k', w⟩ ⟨hkey, hval⟩
  obtain rfl : k' = k := hkey
  by_cases hk : k' = "templates"
  · simp only [updateItem, if_pos hk] at hval ⊢
    rw [hval]
    exact returns_pure _
  · simp only [updateItem, if_neg hk] at hval ⊢
    exact (hfg v w hval).map _

end Visits

/-! ## Expansion -/

theorem truthy_listed (v : Val F) : (listed v).truthy = v.truthy := by
  cases v with
  | none | bool | int | float | str => rfl
  | list xs | tuple xs => cases xs <;> rfl
  | dict d => cases d <;> rfl

omit [PyRuntime F] in
theorem getExtends_listedFields (d : Fields F) :
    getExtends (listedFields d) = listed (getExtends d) := by
  rw [getExtends, getExtends, get?_listedFields]
  cases Dict.get? d "!extends" <;> rfl

omit [PyRuntime F] in
theorem templatesOf_listedFields (spec : Fields F) :
    templatesOf (listedFields spec) = listed (templatesOf spec) := by
  rw [templatesOf, templatesOf, get?_listedFields]
  cases Dict.get? spec "templates" <;> rfl

theorem findTemplate_listed {templates ext : Val F} {t : Fields F}
    (h : findTemplate templates ext = .ok t) :
    findTemplate (listed templates) (listed ext) = .ok (listedFields t) := by
  obtain ⟨tbl, name, rfl, rfl, hget⟩ := findTemplate_eq_ok_iff.mp h
  refine findTemplate_eq_ok_iff.mpr ⟨listedFields tbl, name, rfl, rfl, ?_⟩
  rw [get?_listedFields, hget]
  rfl

theorem Bases.listed {templates ext : Val F} {bs : List (Fields F)}
    (h : Bases templates ext bs) :
    Bases (listed templates) (listed ext) (bs.map listedFields) := by
  induction h with
  | stop hstop => exact .stop ((truthy_listed _).trans hstop)
  | next hgo ht _ ih =>
    refine .next ((truthy_listed _).trans hgo) (findTemplate_listed ht) ?_
    rw [getExtends_listedFields]
    exact ih

omit [PyRuntime F] in
theorem listedFields_pop (d : Fields F) (k : String) :
    listedFields (Dict.pop d k) = Dict.pop (listedFields d) k := by
  rw [listedFields_eq_map, listedFields_eq_map, Dict.pop, Dict.pop, List.filter_map]
  rfl

omit [PyRuntime F] in
theorem merge_listedFields (lst : List (Fields F)) :
    merge (lst.map listedFields) = listedFields (merge lst) := by
  rw [merge, merge, listedFields_pop]
  congr 1
  induction lst with
  | nil => rfl
  | cons d lst ih => rw [List.map_cons, List.foldr_cons, List.foldr_cons, ih,
      Json.listedFields_update]

/-- **Expansion** of an object with lists for its tuples. -/
theorem returns_expand_listed {templates : Val F} {room : ℕ} {v w : Val F}
    (h : Returns (fun n => expand n templates room v) w) :
    Returns (fun n => expand n (listed templates) room (listed v)) (listed w) := by
  induction room generalizing v w with
  | zero =>
    simp only [expand] at h
    cases Settles.unique h (raises_throw Spec.tooDeep)
  | succ room ih =>
    have hasMembers (xs : List (Val F)) := has_mapM fun x (_ : x ∈ xs) =>
      expand_has templates room x
    cases v with
    | none =>
      simp only [expand] at h
      cases Settles.unique h (raises_throw _)
    | bool | int | float | str =>
      simp only [expand] at h
      rw [← (returns_pure _).unique h]
      simp only [listed, expand]
      exact returns_pure _
    | list xs =>
      simp only [expand] at h
      obtain ⟨ys, hys, rfl⟩ := (returns_map_iff (hasMembers xs)).mp h
      simp only [listed, expand]
      exact (returns_listedItems (expand_has templates room) hys fun _ _ _ => ih).map _
    | tuple xs =>
      simp only [expand] at h
      obtain ⟨ys, hys, rfl⟩ := (returns_map_iff (hasMembers xs)).mp h
      simp only [listed, expand]
      exact (returns_listedItems (expand_has templates room) hys fun _ _ _ => ih).map _
    | dict d =>
      simp only [expand] at h
      have hasItems (items : Fields F) := has_mapM fun p (_ : p ∈ items) =>
        (expand_has templates room p.2).map (Prod.mk p.1)
      obtain ⟨lst, hlst, h⟩ := exists_of_returns_bind (extendsLoop_has templates d)
        (fun lst _ => ⟨_, (hasItems (merge lst)).map Val.dict⟩) h
      obtain ⟨bs, hbs⟩ := verdict_eq_pass_iff.mp
        ((extendsLoop_has templates d).returns_iff.mp ⟨lst, hlst⟩)
      obtain rfl : lst = d :: bs := hlst.unique (hbs.returns [d])
      obtain ⟨e, he, rfl⟩ := (returns_map_iff (hasItems _)).mp h
      simp only [listed, expand, getExtends_listedFields]
      refine (hbs.listed.returns [listedFields d]).bind ?_
      rw [List.singleton_append, ← List.map_cons, merge_listedFields]
      exact (returns_listedFields (expand_has templates room) he fun _ _ _ => ih).map _

theorem returns_startExpand_listed {spec e : Fields F}
    (h : Returns (fun n => startExpand n spec) e) :
    Returns (fun n => startExpand n (listedFields spec)) (listedFields e) := by
  simp only [startExpand, templatesOf_listedFields]
  exact returns_updateItems_listed (expand_has _ _) h fun _ _ => returns_expand_listed

/-! ## Substitution -/

omit [PyRuntime F] in
/-- A scope has primitives only. -/
theorem primitives_listedFields (d : Fields F) : primitives (listedFields d) = primitives d := by
  induction d with
  | nil => rfl
  | cons p d ih =>
    obtain ⟨k, v⟩ := p
    rw [listedFields, primitives, primitives, List.filter_cons, List.filter_cons]
    change (if (listed v).isPrimitive then (k, listed v) :: primitives (listedFields d) else
      primitives (listedFields d)) = if v.isPrimitive then (k, v) :: primitives d else primitives d
    rw [ih]
    cases v <;> rfl

/-- **Substitution** in an object with lists for its tuples. -/
theorem returns_substIn_listed {var : Env F} {v w : Val F}
    (h : Returns (fun n => substIn n var v) w) :
    Returns (fun n => substIn n var (listed v)) (listed w) := by
  induction v generalizing var w with
  | none => cases Settles.unique h (raises_throw _)
  | bool b => rw [← (returns_pure _).unique h]; exact returns_pure _
  | int n => rw [← (returns_pure _).unique h]; exact returns_pure _
  | float x => rw [← (returns_pure _).unique h]; exact returns_pure _
  | str s =>
    have hstr := h
    simp only [substIn] at hstr
    obtain ⟨t, -, rfl⟩ := (returns_map_iff (substStr_has var s)).mp hstr
    exact h
  | list xs ih =>
    simp only [substIn, substInList_eq] at h
    obtain ⟨ys, hys, rfl⟩ := (returns_map_iff (has_mapM fun x _ => substIn_has var x)).mp h
    simp only [listed, substIn, substInList_eq]
    exact (returns_listedItems (substIn_has var) hys fun x hx _ => ih x hx).map _
  | tuple xs ih =>
    simp only [substIn, substInList_eq] at h
    obtain ⟨ys, hys, rfl⟩ := (returns_map_iff (has_mapM fun x _ => substIn_has var x)).mp h
    simp only [listed, substIn, substInList_eq]
    exact (returns_listedItems (substIn_has var) hys fun x hx _ => ih x hx).map _
  | dict d ih =>
    simp only [substIn, substInFields_eq] at h
    have hvisit (p : String × Val F) :=
      (substIn_has (Dict.update var (primitives d)) p.2).map (Prod.mk p.1)
    obtain ⟨e, he, rfl⟩ := (returns_map_iff (has_mapM fun p _ => hvisit p)).mp h
    simp only [listed, substIn, substInFields_eq, primitives_listedFields]
    exact (returns_listedFields (substIn_has _) he fun p hp _ => ih p hp).map _

/-! ## `Spec()` -/

omit [PyRuntime F] in
theorem wf_listed {v : Val F} (h : v.WF) : (listed v).WF := by
  induction h with
  | @primitive v hprim => exact (Json.listed_of_isPrimitive hprim).symm ▸ .primitive hprim
  | @list xs _ ih | @tuple xs _ ih =>
    rw [listed, listedItems_eq_map]
    exact .list (List.forall_mem_map.mpr ih)
  | @dict d hkeys _ ih =>
    refine .dict ((Json.keys_listedFields d).symm ▸ hkeys) ?_
    rw [listedFields_eq_map]
    exact List.forall_mem_map.mpr ih

/-- **`Spec()` of the spec with lists** is what `Spec()` makes of the spec, with lists. -/
theorem returns_specInit_listed {spec r : Fields F} (hspec : (Val.dict spec).Keyed)
    (h : Returns (fun n => specInit n spec) r) :
    Returns (fun n => specInit n (listedFields spec)) (listedFields r) := by
  have hwf := wf_of_returns_specInit hspec h
  obtain ⟨e, he, hr⟩ := exists_of_returns_specInit hwf h
  simp only [startSubst_eq] at hr
  have hlisted : (Val.dict (listedFields spec)).WF := wf_listed hwf
  simp only [specInit_eq hlisted]
  refine (returns_startExpand_listed he).bind ?_
  have hscope : topScope (listedFields e) = topScope e := by
    rw [topScope, topScope, primitives_listedFields]
  simp only [startSubst_eq, hscope]
  exact returns_updateItems_listed (substIn_has _) hr fun _ _ => returns_substIn_listed

end Spec

namespace Spec

variable {F : Type} [JsonFloat F]

/-! ## What stays in the result -/

/-- **A spec that JSON can store**: no tuple and no NaN is in its templates, and none in the rest of
it but for the value of the `!extends` of an object. -/
def Storable (spec : Fields F) : Prop :=
  ∀ p ∈ spec, Plain (if p.1 = "templates" then ∅ else {"!extends"}) p.2

theorem Bases.plain {templates ext : Val F} {bs : List (Fields F)} (hT : Plain ∅ templates)
    (h : Bases templates ext bs) : ∀ b ∈ bs, Plain ∅ (.dict b) := by
  induction h with
  | stop => nofun
  | @next ext t bs _ ht _ ih =>
    refine List.forall_mem_cons.mpr ⟨?_, ih⟩
    obtain ⟨tbl, name, rfl, rfl, hget⟩ := findTemplate_eq_ok_iff.mp ht
    exact plain_dict_iff.mp hT _ (Dict.mem_of_get? hget) (Set.notMem_empty _)

/-- **An expansion has a tuple or a NaN** exactly if what is expanded has one, if the templates have
none. -/
theorem Expands.plain_iff {templates v w : Val F} (h : Expands templates v w)
    (hT : Plain ∅ templates) (hTwf : templates.WF) (hv : v.WF) :
    Plain ∅ w ↔ Plain {"!extends"} v := by
  induction h with
  | primitive hprim => rw [plain_primitive_iff hprim, plain_primitive_iff hprim]
  | @list xs ys hlen _ ih =>
    rw [plain_list_iff, plain_list_iff]
    constructor
    · intro hall x hx
      obtain ⟨i, hi⟩ := List.mem_iff_getElem?.mp hx
      obtain ⟨y, hy⟩ := Val.exists_getElem?_of_length_eq hlen.symm hi
      exact (ih i x y hi hy (hv.mem_list x hx)).mp (hall y (List.mem_of_getElem? hy))
    · intro hall y hy
      obtain ⟨i, x, hi, hy⟩ := Val.exists_getElem?_of_mem hlen hy
      have hx := List.mem_of_getElem? hi
      exact (ih i x y hi hy (hv.mem_list x hx)).mpr (hall x hx)
  | @tuple xs ys => exact iff_of_false (not_plain_tuple ys) (not_plain_tuple xs)
  | @dict d e bs hbs hnodup hkeys _ ih =>
    rw [plain_dict_iff, plain_dict_iff]
    constructor
    · intro hall p hp hk
      have hget := Dict.get?_of_mem hv.nodup_keys hp
      have hne : p.1 ≠ "!extends" := hk
      have hdef : definition (d :: bs) p.1 = some p.2 := by
        rw [definition, if_neg hne, List.findSome?_cons, hget]
      have hsome := hkeys p.1
      rw [hdef, Option.isSome_some] at hsome
      obtain ⟨w, hw⟩ := Option.isSome_iff_exists.mp hsome
      exact (ih p.1 p.2 w hdef hw (hv.mem_dict p hp)).mp
        (hall _ (Dict.mem_of_get? hw) (Set.notMem_empty _))
    · intro hall q hq _
      have hget := Dict.get?_of_mem hnodup hq
      have hsome := hkeys q.1
      rw [hget, Option.isSome_some] at hsome
      obtain ⟨v, hdef⟩ := Option.isSome_iff_exists.mp hsome.symm
      have hfirst := hdef
      rw [definition] at hfirst
      split at hfirst
      · cases hfirst
      · next hk =>
        obtain ⟨b, hb, hbk⟩ := List.exists_of_findSome?_eq_some hfirst
        have hmem := Dict.mem_of_get? hbk
        rcases List.mem_cons.mp hb with rfl | hb
        · exact (ih q.1 v q.2 hdef hget (hv.mem_dict _ hmem)).mpr (hall _ hmem hk)
        · have hplain := plain_dict_iff.mp (hbs.plain hT b hb) _ hmem (Set.notMem_empty _)
          exact (ih q.1 v q.2 hdef hget ((hbs.wf hTwf b hb).mem_dict _ hmem)).mpr
            (hplain.mono (Set.empty_subset _))

/-- **Substitution** neither makes a tuple or a NaN nor takes one away. -/
theorem Substs.plain_iff {var : Env F} {v w : Val F} (h : Substs var v w) (hv : v.WF) (hw : w.WF) :
    Plain ∅ w ↔ Plain ∅ v := by
  induction h with
  | scalar => exact Iff.rfl
  | str => exact iff_of_true (.primitive rfl nofun) (.primitive rfl nofun)
  | @list var xs ys hlen _ ih =>
    rw [plain_list_iff, plain_list_iff]
    constructor
    · intro hall x hx
      obtain ⟨i, hi⟩ := List.mem_iff_getElem?.mp hx
      obtain ⟨y, hy⟩ := Val.exists_getElem?_of_length_eq hlen.symm hi
      have hy' := List.mem_of_getElem? hy
      exact (ih i x y hi hy (hv.mem_list x hx) (hw.mem_list y hy')).mp (hall y hy')
    · intro hall y hy
      obtain ⟨i, x, hi, hy'⟩ := Val.exists_getElem?_of_mem hlen hy
      have hx := List.mem_of_getElem? hi
      exact (ih i x y hi hy' (hv.mem_list x hx) (hw.mem_list y hy)).mpr (hall x hx)
  | @tuple var xs ys => exact iff_of_false (not_plain_tuple ys) (not_plain_tuple xs)
  | @dict var d e hkeys _ ih =>
    rw [plain_dict_iff, plain_dict_iff]
    constructor
    · intro hall p hp _
      have hget := Dict.get?_of_mem hv.nodup_keys hp
      have hsome := hkeys p.1
      rw [hget, Option.isSome_some] at hsome
      obtain ⟨w, hget'⟩ := Option.isSome_iff_exists.mp hsome
      exact (ih p.1 p.2 w hget hget' (hv.mem_dict p hp) (hw.of_get? hget')).mp
        (hall _ (Dict.mem_of_get? hget') (Set.notMem_empty _))
    · intro hall q hq _
      have hget := Dict.get?_of_mem hw.nodup_keys hq
      have hsome := hkeys q.1
      rw [hget, Option.isSome_some] at hsome
      obtain ⟨v, hget'⟩ := Option.isSome_iff_exists.mp hsome.symm
      exact (ih q.1 v q.2 hget' hget (hv.of_get? hget') (hw.mem_dict q hq)).mpr
        (hall _ (Dict.mem_of_get? hget') (Set.notMem_empty _))

theorem plain_templatesOf {spec : Fields F}
    (h : ∀ t, Dict.get? spec "templates" = some t → Plain ∅ t) : Plain ∅ (templatesOf spec) := by
  rw [templatesOf]
  cases ht : Dict.get? spec "templates" with
  | none => exact plain_dict_iff.mpr nofun
  | some t => exact h t ht

/-- **A tuple or a NaN stays in the result** unless the spec can be stored. -/
theorem plain_iff_storable {spec r : Fields F} (hspec : (Val.dict spec).Keyed)
    (h : Returns (fun n => specInit n spec) r) : Plain ∅ (.dict r) ↔ Storable spec := by
  have hwf := wf_of_returns_specInit hspec h
  have hr := wf_of_returns hspec h
  obtain ⟨e, he, hsubst⟩ := exists_of_returns_specInit hwf h
  have hexp := isExpansion_of_returns hwf he
  have hewf := hexp.wf hwf
  have hsub := isSubstitution_of_returns hsubst
  have htemplates : Dict.get? r "templates" = Dict.get? spec "templates" :=
    hsub.templates.trans hexp.templates
  have hvals (hT : Plain ∅ (templatesOf spec)) (k : String) (v u : Val F) (hk : k ≠ "templates")
      (hv : Dict.get? spec k = some v) (hu : Dict.get? r k = some u) :
      Plain ∅ u ↔ Plain {"!extends"} v := by
    have hsome := hexp.isSome_get?_eq k
    rw [hv, Option.isSome_some] at hsome
    obtain ⟨w, hw⟩ := Option.isSome_iff_exists.mp hsome
    exact ((hsub.substs k w u hk hw hu).plain_iff (hewf.of_get? hw) (hr.of_get? hu)).trans
      ((hexp.expands k v w hk hv hw).plain_iff hT (wf_templatesOf hwf) (hwf.of_get? hv))
  have hkeys (k : String) : (Dict.get? r k).isSome = (Dict.get? spec k).isSome := by
    rw [hsub.isSome_get?_eq, hexp.isSome_get?_eq]
  rw [plain_dict_iff]
  constructor
  · intro hall p hp
    have hT : Plain ∅ (templatesOf spec) := plain_templatesOf fun t ht =>
      hall _ (Dict.mem_of_get? (htemplates.trans ht)) (Set.notMem_empty _)
    have hget := Dict.get?_of_mem hwf.nodup_keys hp
    have hsome := hkeys p.1
    rw [hget, Option.isSome_some] at hsome
    obtain ⟨u, hu⟩ := Option.isSome_iff_exists.mp hsome
    have hplain := hall _ (Dict.mem_of_get? hu) (Set.notMem_empty _)
    split
    · next hk =>
      rw [hk] at hget hu
      obtain rfl := Option.some_inj.mp (hu.symm.trans (htemplates.trans hget))
      exact hplain
    · next hk => exact (hvals hT p.1 p.2 u hk hget hu).mp hplain
  · intro hall q hq _
    have hT : Plain ∅ (templatesOf spec) := plain_templatesOf fun t ht => by
      have hplain := hall _ (Dict.mem_of_get? ht)
      rwa [if_pos rfl] at hplain
    have hget := Dict.get?_of_mem hr.nodup_keys hq
    have hsome := hkeys q.1
    rw [hget, Option.isSome_some] at hsome
    obtain ⟨v, hv⟩ := Option.isSome_iff_exists.mp hsome.symm
    have hplain := hall _ (Dict.mem_of_get? hv)
    split at hplain
    · next hk =>
      dsimp only at hk
      rw [hk] at hget hv
      obtain rfl := Option.some_inj.mp (hget.symm.trans (htemplates.trans hv))
      exact hplain
    · next hk => exact (hvals hT q.1 v q.2 hk hv hget).mpr hplain

end Spec
end LdmsTest
