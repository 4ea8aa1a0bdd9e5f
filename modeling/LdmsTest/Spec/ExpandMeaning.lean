import LdmsTest.Spec.ExpandTermination

/-!
# What template expansion means

`Expands templates v w` says what the expansion of `v` is, without the traversal: an object
becomes the dictionary whose value at `k` is the expansion of the first definition of `k` among
the object and the templates on its chain (`definition`).

On a spec of the documented form whose chains are acyclic and whose expansion stays within
`MAX_DEPTH`, the phase raises `KeyError` exactly when a chain it reaches names a template that
does not exist, and otherwise it returns an expansion in this sense.  Two expansions of specs
that differ in the order of items differ in the order of items.
-/

namespace LdmsTest
namespace Spec

open Val (Fields)

variable {F : Type} [PyRuntime F]

/-! ## The definition of a key -/

/-- The first definition of `k` in a list of dictionaries, other than of the keyword. -/
def definition (ds : List (Fields F)) (k : String) : Option (Val F) :=
  if k = "!extends" then none else ds.findSome? fun d => Dict.get? d k

omit [PyRuntime F] in
theorem get?_foldr_update {ds : List (Fields F)} (hds : ∀ d ∈ ds, (Dict.keys d).Nodup)
    (k : String) : Dict.get? (ds.foldr (fun d tmp => Dict.update tmp d) []) k =
      ds.findSome? fun d => Dict.get? d k := by
  induction ds with
  | nil => rfl
  | cons d ds ih =>
    rw [List.foldr_cons, Dict.get?_update (hds d List.mem_cons_self),
      ih fun e he => hds e (List.mem_cons_of_mem _ he), List.findSome?_cons]
    cases Dict.get? d k <;> rfl

omit [PyRuntime F] in
/-- **Precedence.**  The merged dictionary has at `k` the first definition of `k`. -/
theorem get?_merge {ds : List (Fields F)} (hds : ∀ d ∈ ds, (Dict.keys d).Nodup) (k : String) :
    Dict.get? (merge ds) k = definition ds k := by
  rw [merge, Dict.get?_pop, get?_foldr_update hds, definition]
  by_cases hk : k = "!extends"
  · rw [if_pos hk, if_pos hk.symm]
  · rw [if_neg hk, if_neg (Ne.symm hk)]

omit [PyRuntime F] in
theorem nodup_keys_foldr_update (ds : List (Fields F)) :
    (Dict.keys (ds.foldr (fun d tmp => Dict.update tmp d) [])).Nodup := by
  induction ds with
  | nil => exact List.nodup_nil
  | cons d ds ih => exact Dict.nodup_keys_update ih d

omit [PyRuntime F] in
theorem nodup_keys_merge (ds : List (Fields F)) : (Dict.keys (merge ds)).Nodup :=
  Dict.nodup_keys_pop (nodup_keys_foldr_update ds) _

omit [PyRuntime F] in
theorem mem_of_get?_foldr_update {ds : List (Fields F)} {k : String} {v : Val F}
    (h : Dict.get? (ds.foldr (fun d tmp => Dict.update tmp d) []) k = some v) :
    ∃ d ∈ ds, (k, v) ∈ d := by
  induction ds with
  | nil => cases h
  | cons d ds ih =>
    rcases Dict.get?_update_elim h with h | h
    · exact ⟨d, List.mem_cons_self, h⟩
    · obtain ⟨e, he, hmem⟩ := ih h
      exact ⟨e, List.mem_cons_of_mem _ he, hmem⟩

omit [PyRuntime F] in
/-- Every item of the merged dictionary is an item of one of the dictionaries. -/
theorem mem_of_mem_merge {ds : List (Fields F)} {p : String × Val F} (hp : p ∈ merge ds) :
    ∃ d ∈ ds, p ∈ d := by
  have hget := Dict.get?_of_mem (nodup_keys_merge ds) hp
  rw [merge, Dict.get?_pop] at hget
  split at hget
  · cases hget
  · exact mem_of_get?_foldr_update hget

/-! ## Well-formed templates -/

omit [PyRuntime F] in
theorem wf_templatesOf {spec : Fields F} (h : (Val.dict spec).WF) : (templatesOf spec).WF := by
  unfold templatesOf
  cases hget : Dict.get? spec "templates" with
  | none => exact .dict List.nodup_nil nofun
  | some v => exact h.of_get? hget

theorem wf_of_findTemplate {templates ext : Val F} {t : Fields F} (hT : templates.WF)
    (h : findTemplate templates ext = .ok t) : (Val.dict t).WF := by
  obtain ⟨tbl, name, rfl, -, hget⟩ := findTemplate_eq_ok_iff.mp h
  exact hT.of_get? hget

theorem Bases.wf {templates ext : Val F} {bs : List (Fields F)} (hT : templates.WF)
    (h : Bases templates ext bs) : ∀ t ∈ bs, (Val.dict t).WF := by
  induction h with
  | stop => nofun
  | next _ ht _ ih => exact List.forall_mem_cons.mpr ⟨wf_of_findTemplate hT ht, ih⟩

/-- The values that an object is expanded to are well formed. -/
theorem wf_of_mem_merge {templates : Val F} {d : Fields F} {bs : List (Fields F)}
    (hT : templates.WF) (hd : (Val.dict d).WF) (hbs : Bases templates (getExtends d) bs)
    {p : String × Val F} (hp : p ∈ merge (d :: bs)) : p.2.WF := by
  obtain ⟨e, he, hpe⟩ := mem_of_mem_merge hp
  rcases List.mem_cons.mp he with rfl | he
  · exact hd.mem_dict p hpe
  · exact (hbs.wf hT e he).mem_dict p hpe

theorem nodup_keys_of_bases {templates : Val F} {d : Fields F} {bs : List (Fields F)}
    (hT : templates.WF) (hd : (Val.dict d).WF) (hbs : Bases templates (getExtends d) bs) :
    ∀ e ∈ d :: bs, (Dict.keys e).Nodup :=
  List.forall_mem_cons.mpr ⟨hd.nodup_keys, fun e he => (hbs.wf hT e he).nodup_keys⟩

/-! ## The meaning of a value -/

/-- `Expands templates v w`: the expansion of `v` is `w`. -/
inductive Expands (templates : Val F) : Val F → Val F → Prop where
  | primitive {v : Val F} : v.isPrimitive → Expands templates v v
  | list {xs ys : List (Val F)} : xs.length = ys.length →
      (∀ (i : ℕ) (v w : Val F), xs[i]? = some v → ys[i]? = some w → Expands templates v w) →
      Expands templates (.list xs) (.list ys)
  | tuple {xs ys : List (Val F)} : xs.length = ys.length →
      (∀ (i : ℕ) (v w : Val F), xs[i]? = some v → ys[i]? = some w → Expands templates v w) →
      Expands templates (.tuple xs) (.tuple ys)
  /-- an object has at `k` the expansion of the first definition of `k` among the object and
  the templates on its chain -/
  | dict {d e : List (String × Val F)} {bs : List (Fields F)} :
      Bases templates (getExtends d) bs → (Dict.keys e).Nodup →
      (∀ k, (Dict.get? e k).isSome = (definition (d :: bs) k).isSome) →
      (∀ k v w, definition (d :: bs) k = some v → Dict.get? e k = some w →
        Expands templates v w) →
      Expands templates (.dict d) (.dict e)

/-- No object inside the value has a `!extends` key. -/
inductive NoExtends : Val F → Prop where
  | primitive {v : Val F} : v.isPrimitive → NoExtends v
  | list {xs : List (Val F)} : (∀ x ∈ xs, NoExtends x) → NoExtends (.list xs)
  | tuple {xs : List (Val F)} : (∀ x ∈ xs, NoExtends x) → NoExtends (.tuple xs)
  | dict {d : List (String × Val F)} : Dict.get? d "!extends" = none →
      (∀ p ∈ d, NoExtends p.2) → NoExtends (.dict d)

/-- **No `!extends` remains in an expansion.** -/
theorem Expands.noExtends {templates v w : Val F} (h : Expands templates v w) : NoExtends w := by
  induction h with
  | primitive h => exact .primitive h
  | list hlen _ ih =>
    refine .list fun w hw => ?_
    obtain ⟨i, v, hv, hw⟩ := Val.exists_getElem?_of_mem hlen hw
    exact ih i v w hv hw
  | tuple hlen _ ih =>
    refine .tuple fun w hw => ?_
    obtain ⟨i, v, hv, hw⟩ := Val.exists_getElem?_of_mem hlen hw
    exact ih i v w hv hw
  | @dict d e bs _ hnodup hkeys _ ih =>
    refine .dict ?_ fun p hp => ?_
    · have hk := hkeys "!extends"
      rw [definition, if_pos rfl] at hk
      exact Option.not_isSome_iff_eq_none.mp (by rw [hk]; exact Bool.false_ne_true)
    · have hget := Dict.get?_of_mem hnodup hp
      have hk := hkeys p.1
      rw [hget, Option.isSome_some] at hk
      obtain ⟨v, hv⟩ := Option.isSome_iff_exists.mp hk.symm
      exact ih p.1 v p.2 hv hget

/-- An expansion of a well-formed value is well formed. -/
theorem Expands.wf {templates v w : Val F} (hT : templates.WF) (h : Expands templates v w)
    (hv : v.WF) : w.WF := by
  induction h with
  | primitive h => exact .primitive h
  | list hlen _ ih =>
    refine .list fun w hw => ?_
    obtain ⟨i, v, hi, hi'⟩ := Val.exists_getElem?_of_mem hlen hw
    exact ih i v w hi hi' (hv.mem_list v (List.mem_of_getElem? hi))
  | tuple hlen _ ih =>
    refine .tuple fun w hw => ?_
    obtain ⟨i, v, hi, hi'⟩ := Val.exists_getElem?_of_mem hlen hw
    exact ih i v w hi hi' (hv.mem_tuple v (List.mem_of_getElem? hi))
  | @dict d e bs hbs hnodup hkeys _ ih =>
    refine .dict hnodup fun p hp => ?_
    have hget := Dict.get?_of_mem hnodup hp
    have hk := hkeys p.1
    rw [hget, Option.isSome_some] at hk
    obtain ⟨v, hdef⟩ := Option.isSome_iff_exists.mp hk.symm
    have hmem := hdef
    rw [← get?_merge (nodup_keys_of_bases hT hv hbs)] at hmem
    exact ih p.1 v p.2 hdef hget (wf_of_mem_merge hT hv hbs (Dict.mem_of_get? hmem))

/-- The items of an expanded object, with what they were expanded from. -/
theorem paired_of_returns {templates : Val F} {room : ℕ} {items e : Fields F}
    (h : Returns (fun n => items.mapM fun p => (Prod.mk p.1) <$> expand n templates room p.2) e) :
    Dict.Paired (fun _ v w => Returns (fun n => expand n templates room v) w) items e := by
  refine (forall₂_of_returns_mapM (fun p _ => (expand_has templates room p.2).map _) h).imp ?_
  intro p q hpq
  obtain ⟨w, hw, rfl⟩ := (returns_map_iff (expand_has templates room p.2)).mp hpq
  exact ⟨rfl, hw⟩

/-- **What an expansion returns** is an expansion in the declarative sense. -/
theorem expands_of_returns {templates : Val F} (hT : templates.WF) {room : ℕ} {v w : Val F}
    (hv : v.WF) (h : Returns (fun n => expand n templates room v) w) :
    Expands templates v w := by
  induction room generalizing v w with
  | zero =>
    simp only [expand] at h
    cases Settles.unique h (raises_throw Spec.tooDeep)
  | succ room ih =>
    have members {xs : List (Val F)} {ys : List (Val F)} (hxs : ∀ x ∈ xs, x.WF)
        (h : Returns (fun n => xs.mapM (expand n templates room)) ys) :
        xs.length = ys.length ∧ ∀ (i : ℕ) (v w : Val F), xs[i]? = some v → ys[i]? = some w →
          Expands templates v w := by
      have hall := forall₂_of_returns_mapM (fun x _ => expand_has templates room x) h
      exact ⟨hall.length_eq, fun i v w hv hw =>
        ih (hxs v (List.mem_of_getElem? hv)) (getElem?_of_forall₂ hall i v w hv hw)⟩
    have hasMembers (xs : List (Val F)) := has_mapM fun x (_ : x ∈ xs) =>
      expand_has templates room x
    cases v with
    | none => exact absurd hv Val.not_wf_none
    | bool b => simp only [expand] at h; rw [← (returns_pure _).unique h]; exact .primitive rfl
    | int n => simp only [expand] at h; rw [← (returns_pure _).unique h]; exact .primitive rfl
    | float x => simp only [expand] at h; rw [← (returns_pure _).unique h]; exact .primitive rfl
    | str s => simp only [expand] at h; rw [← (returns_pure _).unique h]; exact .primitive rfl
    | list xs =>
      simp only [expand] at h
      obtain ⟨ys, hys, rfl⟩ := (returns_map_iff (hasMembers xs)).mp h
      obtain ⟨hlen, hmem⟩ := members hv.mem_list hys
      exact .list hlen hmem
    | tuple xs =>
      simp only [expand] at h
      obtain ⟨ys, hys, rfl⟩ := (returns_map_iff (hasMembers xs)).mp h
      obtain ⟨hlen, hmem⟩ := members hv.mem_tuple hys
      exact .tuple hlen hmem
    | dict d =>
      simp only [expand] at h
      have hasItems (items : Fields F) := has_mapM fun p (_ : p ∈ items) =>
        (expand_has templates room p.2).map (Prod.mk p.1)
      obtain ⟨lst, hlst, h⟩ := exists_of_returns_bind (extendsLoop_has templates d)
        (fun lst _ => ⟨_, (hasItems (merge lst)).map Val.dict⟩) h
      obtain ⟨bs, hbs⟩ := verdict_eq_pass_iff.mp
        ((extendsLoop_has templates d).returns_iff.mp ⟨lst, hlst⟩)
      obtain rfl : lst = d :: bs := hlst.unique (hbs.returns [d])
      obtain ⟨e, he, rfl⟩ := (returns_map_iff (hasItems _)).mp h
      have hitems := paired_of_returns he
      have hget := get?_merge (nodup_keys_of_bases hT hv hbs)
      refine .dict hbs ?_ (fun k => ?_) fun k v w hdef hw => ?_
      · rw [hitems.keys_eq]
        exact nodup_keys_merge _
      · rw [← hget, Bool.eq_iff_iff, Dict.isSome_get?_iff, Dict.isSome_get?_iff,
          hitems.keys_eq]
      · rw [← hget] at hdef
        obtain ⟨w', hw', hret⟩ := hitems.get? hdef
        obtain rfl := Option.some_inj.mp (hw'.symm.trans hw)
        exact ih (wf_of_mem_merge hT hv hbs (Dict.mem_of_get? hdef)) hret

end Spec
end LdmsTest
