import LdmsTest.Spec.ExpandMeaning
import LdmsTest.Spec.SubstTermination

/-!
# What variable substitution means

A string in a spec stands at a path, and the objects along that path enclose it (`enclosing`).
The value of a name at the string is its value in the innermost of these that has it as a
primitive attribute, and otherwise its value at the top level (`valueAt`).

The phase replaces each string by the level it settles at, with the names read in this way
(`settlesAt_of_returns`).  So an object sees the attributes of the objects around it, and never
those of a sibling; and since a level depends on the environment through the values of names
only (`subVars_congr`), neither the order of items nor the order of visits matters
(`Substs.same`).
-/

namespace LdmsTest
namespace Spec

open Val (Fields Same)

variable {F : Type} [PyRuntime F]

/-! ## Levels depend on the values of names -/

section Congruence

variable {var var' : Env F}

theorem subVars_congr (h : ∀ name, Dict.get? var name = Dict.get? var' name) (s : String) :
    subVars var s = subVars var' s := by
  have hpiece : replacePiece var = replacePiece var' := by
    funext p
    cases p with
    | text cs => rfl
    | var name => rw [replacePiece, replacePiece, lookup, lookup, h name]
  rw [subVars, subVars, hpiece]

theorem nextLevel_congr (h : ∀ name, Dict.get? var name = Dict.get? var' name) :
    nextLevel var = nextLevel var' := by
  funext s
  rw [nextLevel, nextLevel, subVars_congr h]

theorem SettlesAt.congr (h : ∀ name, Dict.get? var name = Dict.get? var' name) {s t : String}
    (hs : SettlesAt var s t) : SettlesAt var' s t := by
  rwa [SettlesAt, ← nextLevel_congr h, ← subVars_congr h]

theorem MeetsUndefined.congr (h : ∀ name, Dict.get? var name = Dict.get? var' name) {s : String}
    {e : PyError} (hs : MeetsUndefined var s e) : MeetsUndefined var' s e := by
  obtain ⟨t, hstop, he⟩ := hs
  exact ⟨t, nextLevel_congr h ▸ hstop, subVars_congr h t ▸ he⟩

end Congruence

theorem var_mem_pieces_iff {s name : String} :
    .var name ∈ pieces none s.toList ↔ name ∈ references s := by
  unfold references
  rw [List.mem_filterMap]
  constructor
  · exact fun h => ⟨_, h, rfl⟩
  · rintro ⟨p, hp, hname⟩
    cases p with
    | text cs => cases hname
    | var n =>
      obtain rfl := Option.some_inj.mp hname
      exact hp

/-- A level is raised from by a name without a value. -/
theorem exists_of_subVars_error {var : Env F} {s : String} {e : PyError}
    (h : subVars var s = .error e) :
    ∃ name ∈ references s, Dict.get? var name = none ∧ e = ⟨.keyError, name⟩ := by
  unfold subVars at h
  cases hps : (pieces none s.toList).mapM (replacePiece var) with
  | ok css => rw [hps] at h; cases h
  | error d =>
    rw [hps] at h
    obtain rfl := Except.error.inj h
    obtain ⟨p, hp, he⟩ := exists_of_mapM_error hps
    cases p with
    | text cs => cases he
    | var name =>
      rw [replacePiece, lookup] at he
      cases hget : Dict.get? var name with
      | some v => rw [hget] at he; cases he
      | none =>
        rw [hget] at he
        exact ⟨name, var_mem_pieces_iff.mp hp, hget, (Except.error.inj he).symm⟩

theorem exists_subVars_error {var : Env F} {s name : String} (hname : name ∈ references s)
    (hget : Dict.get? var name = none) : ∃ e, subVars var s = .error e := by
  have hpiece : replacePiece var (.var name) = .error ⟨.keyError, name⟩ := by
    rw [replacePiece, lookup, hget]
    rfl
  obtain ⟨e, he⟩ := exists_mapM_error (var_mem_pieces_iff.mpr hname) hpiece
  exact ⟨e, by rw [subVars, he]; rfl⟩

/-! ## Substitution, without the traversal -/

/-- `Substs var v w`: the substitution of `v` in the scope `var` is `w`. -/
inductive Substs : Env F → Val F → Val F → Prop where
  | scalar {var : Env F} {v : Val F} : v.isPrimitive → (∀ s, v ≠ .str s) → Substs var v v
  | str {var : Env F} {s t : String} : SettlesAt var s t → Substs var (.str s) (.str t)
  | list {var : Env F} {xs ys : List (Val F)} : xs.length = ys.length →
      (∀ (i : ℕ) (v w : Val F), xs[i]? = some v → ys[i]? = some w → Substs var v w) →
      Substs var (.list xs) (.list ys)
  | tuple {var : Env F} {xs ys : List (Val F)} : xs.length = ys.length →
      (∀ (i : ℕ) (v w : Val F), xs[i]? = some v → ys[i]? = some w → Substs var v w) →
      Substs var (.tuple xs) (.tuple ys)
  /-- the values of an object see its primitive attributes first -/
  | dict {var : Env F} {d e : List (String × Val F)} :
      (∀ k, (Dict.get? e k).isSome = (Dict.get? d k).isSome) →
      (∀ k v w, Dict.get? d k = some v → Dict.get? e k = some w →
        Substs (Dict.update var (primitives d)) v w) →
      Substs var (.dict d) (.dict e)

/-- **What substitution returns** is a substitution in the declarative sense. -/
theorem substs_of_returns {var : Env F} {v w : Val F}
    (h : Returns (fun n => substIn n var v) w) : Substs var v w := by
  induction v generalizing var w with
  | none => cases Settles.unique h (raises_throw _)
  | bool b => rw [← (returns_pure _).unique h]; exact .scalar rfl nofun
  | int n => rw [← (returns_pure _).unique h]; exact .scalar rfl nofun
  | float x => rw [← (returns_pure _).unique h]; exact .scalar rfl nofun
  | str s =>
    simp only [substIn] at h
    obtain ⟨t, ht, rfl⟩ := (returns_map_iff (substStr_has var s)).mp h
    obtain ⟨u, hu⟩ := levelVerdict_eq_pass_iff.mp ((substStr_has var s).returns_iff.mp ⟨t, ht⟩)
    obtain rfl := ht.unique hu.returns
    exact .str hu
  | list xs ih =>
    simp only [substIn, substInList_eq] at h
    obtain ⟨ys, hys, rfl⟩ := (returns_map_iff (has_mapM fun x _ => substIn_has var x)).mp h
    have hall := forall₂_of_returns_mapM (fun x _ => substIn_has var x) hys
    exact .list hall.length_eq fun i v w hv hw =>
      ih v (List.mem_of_getElem? hv) (getElem?_of_forall₂ hall i v w hv hw)
  | tuple xs ih =>
    simp only [substIn, substInList_eq] at h
    obtain ⟨ys, hys, rfl⟩ := (returns_map_iff (has_mapM fun x _ => substIn_has var x)).mp h
    have hall := forall₂_of_returns_mapM (fun x _ => substIn_has var x) hys
    exact .tuple hall.length_eq fun i v w hv hw =>
      ih v (List.mem_of_getElem? hv) (getElem?_of_forall₂ hall i v w hv hw)
  | dict d ih =>
    simp only [substIn, substInFields_eq] at h
    have hvisit (p : String × Val F) :=
      (substIn_has (Dict.update var (primitives d)) p.2).map (Prod.mk p.1)
    obtain ⟨e, he, rfl⟩ := (returns_map_iff (has_mapM fun p _ => hvisit p)).mp h
    have hpaired : Dict.Paired (fun k v w => (k, v) ∈ d →
        Substs (Dict.update var (primitives d)) v w) d e := by
      refine (forall₂_of_returns_mapM (fun p _ => hvisit p) he).imp fun p q hpq => ?_
      obtain ⟨w, hw, rfl⟩ := (returns_map_iff (substIn_has _ p.2)).mp hpq
      exact ⟨rfl, fun hp => ih p hp hw⟩
    refine .dict (fun k => ?_) fun k v w hv hw => ?_
    · rw [Bool.eq_iff_iff, Dict.isSome_get?_iff, Dict.isSome_get?_iff, hpaired.keys_eq]
    · obtain ⟨w', hw', hsub⟩ := hpaired.get? hv
      obtain rfl := Option.some_inj.mp (hw'.symm.trans hw)
      exact hsub (Dict.mem_of_get? hv)

/-! ## Scopes -/

/-- The value of a name as a primitive attribute of an object. -/
def attr (d : Fields F) (name : String) : Option (Val F) :=
  (Dict.get? d name).filter Val.isPrimitive

omit [PyRuntime F] in
theorem get?_primitives {d : Fields F} (hd : (Dict.keys d).Nodup) (name : String) :
    Dict.get? (primitives d) name = attr d name :=
  Dict.get?_filter_val hd _ name

omit [PyRuntime F] in
/-- Entering an object: its primitive attributes come first. -/
theorem get?_overlay {var : Env F} {d : Fields F} (hd : (Dict.keys d).Nodup) (name : String) :
    Dict.get? (Dict.update var (primitives d)) name = (attr d name).or (Dict.get? var name) := by
  rw [← get?_primitives hd]
  exact Dict.get?_update (Dict.nodup_keys_filter hd _) var name

omit [PyRuntime F] in
/-- At the top level `%%` is a percent sign, whatever the top level says. -/
theorem get?_topScope {spec : Fields F} (hspec : (Dict.keys spec).Nodup) (name : String) :
    Dict.get? (topScope spec) name =
      if name = "" then some (.str "%") else attr spec name := by
  rw [topScope, Dict.get?_set, get?_primitives hspec]
  by_cases hname : name = ""
  · rw [if_pos hname, if_pos hname.symm]
  · rw [if_neg hname, if_neg (Ne.symm hname)]

omit [PyRuntime F] in
theorem attr_eq_of_same {d d' : Fields F} (h : Same (.dict d) (.dict d')) (name : String) :
    attr d name = attr d' name := by
  have hrel := h.rel_get? name
  unfold attr
  generalize Dict.get? d name = o, Dict.get? d' name = o' at hrel
  cases hrel with
  | none => rfl
  | @some v w hvw =>
    cases hv : v.isPrimitive with
    | true =>
      obtain rfl := hvw.eq_of_isPrimitive hv
      rfl
    | false =>
      have hw : w.isPrimitive = false := hvw.isPrimitive_eq ▸ hv
      rw [Option.filter_some, Option.filter_some, hv, hw]
      rfl

/-! ## Paths -/

/-- A step from a container to a member. -/
inductive Step where
  | key (k : String) : Step
  | index (i : ℕ) : Step

/-- The member of a container. -/
def child : Val F → Step → Option (Val F)
  | .dict d, .key k => Dict.get? d k
  | .list xs, .index i => xs[i]?
  | .tuple xs, .index i => xs[i]?
  | _, _ => none

/-- The value at a path. -/
def valueAt : Val F → List Step → Option (Val F)
  | v, [] => some v
  | v, st :: p => (child v st).bind fun w => valueAt w p

/-- The object that a value is, if it is one. -/
def asObject : Val F → List (Fields F)
  | .dict d => [d]
  | _ => []

/-- The objects that enclose a path, from the inside. -/
def enclosing : Val F → List Step → List (Fields F)
  | _, [] => []
  | v, st :: p => ((child v st).elim [] fun w => enclosing w p) ++ asObject v

/-- The value of a name at a path of a spec, below its item `k`. -/
def meaning (spec : Fields F) (k : String) (p : List Step) (name : String) : Option (Val F) :=
  (((Dict.get? spec k).elim [] fun v => enclosing v p).findSome? (attr · name)).or
    (if name = "" then some (.str "%") else attr spec name)

omit [PyRuntime F] in
theorem child_eq_none {v : Val F} (h : v.isPrimitive) (st : Step) : child v st = none := by
  cases v with
  | none | list | tuple | dict => cases h
  | bool | int | float | str => rfl

omit [PyRuntime F] in
theorem enclosing_list {xs : List (Val F)} {i : ℕ} {w : Val F} (h : xs[i]? = some w)
    (p : List Step) : enclosing (.list xs) (.index i :: p) = enclosing w p := by
  rw [enclosing, show child (.list xs) (.index i) = some w from h]
  exact List.append_nil _

omit [PyRuntime F] in
theorem enclosing_tuple {xs : List (Val F)} {i : ℕ} {w : Val F} (h : xs[i]? = some w)
    (p : List Step) : enclosing (.tuple xs) (.index i :: p) = enclosing w p := by
  rw [enclosing, show child (.tuple xs) (.index i) = some w from h]
  exact List.append_nil _

omit [PyRuntime F] in
theorem enclosing_dict {d : Fields F} {k : String} {w : Val F} (h : Dict.get? d k = some w)
    (p : List Step) : enclosing (.dict d) (.key k :: p) = enclosing w p ++ [d] := by
  rw [enclosing, show child (.dict d) (.key k) = some w from h]
  rfl

omit [PyRuntime F] in
theorem findSome?_enclosing_append (ds : List (Fields F)) (d : Fields F) (name : String)
    (o : Option (Val F)) : ((ds ++ [d]).findSome? (attr · name)).or o =
      (ds.findSome? (attr · name)).or ((attr d name).or o) := by
  rw [List.findSome?_append, Option.or_assoc, List.findSome?_singleton]

omit [PyRuntime F] in
theorem valueAt_list {xs : List (Val F)} {i : ℕ} {w : Val F} (h : xs[i]? = some w)
    (p : List Step) : valueAt (.list xs) (.index i :: p) = valueAt w p := by
  rw [valueAt, show child (.list xs) (.index i) = some w from h, Option.bind_some]

omit [PyRuntime F] in
theorem valueAt_tuple {xs : List (Val F)} {i : ℕ} {w : Val F} (h : xs[i]? = some w)
    (p : List Step) : valueAt (.tuple xs) (.index i :: p) = valueAt w p := by
  rw [valueAt, show child (.tuple xs) (.index i) = some w from h, Option.bind_some]

omit [PyRuntime F] in
theorem valueAt_dict {d : Fields F} {k : String} {w : Val F} (h : Dict.get? d k = some w)
    (p : List Step) : valueAt (.dict d) (.key k :: p) = valueAt w p := by
  rw [valueAt, show child (.dict d) (.key k) = some w from h, Option.bind_some]

omit [PyRuntime F] in
theorem valueAt_dict_of_none {d : Fields F} {k : String} (h : Dict.get? d k = none)
    (p : List Step) : valueAt (.dict d) (.key k :: p) = none := by
  rw [valueAt, show child (.dict d) (.key k) = none from h, Option.bind_none]

omit [PyRuntime F] in
theorem valueAt_cons_of_not_child {v : Val F} {st : Step} (h : child v st = none)
    (p : List Step) : valueAt v (st :: p) = none := by
  rw [valueAt, h, Option.bind_none]

/-- **Substitution at a path.**  The same paths lead somewhere in a value and in its
substitution, and what is there is substituted in the scope of the path. -/
theorem Substs.at_path {var : Env F} {v w : Val F} (h : Substs var v w) (hv : v.WF)
    (p : List Step) : valueAt v p = none ∧ valueAt w p = none ∨
      ∃ v' w' var', valueAt v p = some v' ∧ valueAt w p = some w' ∧ Substs var' v' w' ∧
        ∀ name, Dict.get? var' name =
          ((enclosing v p).findSome? (attr · name)).or (Dict.get? var name) := by
  induction p generalizing var v w with
  | nil => exact Or.inr ⟨v, w, var, rfl, rfl, h, fun name => (Option.none_or).symm⟩
  | cons st p ih =>
    have nowhere (h1 : child v st = none) (h2 : child w st = none) :
        valueAt v (st :: p) = none ∧ valueAt w (st :: p) = none :=
      ⟨valueAt_cons_of_not_child h1 p, valueAt_cons_of_not_child h2 p⟩
    have member {xs ys : List (Val F)} {i : ℕ} (hlen : xs.length = ys.length)
        (hmem : ∀ (i : ℕ) (v w : Val F), xs[i]? = some v → ys[i]? = some w → Substs var v w) :
        xs[i]? = none ∧ ys[i]? = none ∨
          ∃ v' w', xs[i]? = some v' ∧ ys[i]? = some w' ∧ Substs var v' w' := by
      cases hx : xs[i]? with
      | none =>
        rw [List.getElem?_eq_none_iff, hlen, ← List.getElem?_eq_none_iff] at hx
        exact Or.inl ⟨rfl, hx⟩
      | some v =>
        obtain ⟨w, hy⟩ := Val.exists_getElem?_of_length_eq hlen.symm hx
        exact Or.inr ⟨v, w, rfl, hy, hmem i v w hx hy⟩
    cases h with
    | scalar hprim _ => exact Or.inl (nowhere (child_eq_none hprim st) (child_eq_none hprim st))
    | str => exact Or.inl (nowhere (child_eq_none rfl st) (child_eq_none rfl st))
    | list hlen hmem =>
      cases st with
      | key k => exact Or.inl (nowhere rfl rfl)
      | index i =>
        rcases member (i := i) hlen hmem with ⟨h1, h2⟩ | ⟨v', w', h1, h2, hsub⟩
        · exact Or.inl (nowhere h1 h2)
        · rw [valueAt_list h1, valueAt_list h2, enclosing_list h1]
          exact ih hsub (hv.mem_list v' (List.mem_of_getElem? h1))
    | tuple hlen hmem =>
      cases st with
      | key k => exact Or.inl (nowhere rfl rfl)
      | index i =>
        rcases member (i := i) hlen hmem with ⟨h1, h2⟩ | ⟨v', w', h1, h2, hsub⟩
        · exact Or.inl (nowhere h1 h2)
        · rw [valueAt_tuple h1, valueAt_tuple h2, enclosing_tuple h1]
          exact ih hsub (hv.mem_tuple v' (List.mem_of_getElem? h1))
    | @dict _ d e hkeys hvals =>
      cases st with
      | index i => exact Or.inl (nowhere rfl rfl)
      | key k =>
        have hk := hkeys k
        cases h1 : Dict.get? d k with
        | none =>
          rw [h1, Option.isSome_none, Option.isSome_eq_false_iff, Option.isNone_iff_eq_none] at hk
          exact Or.inl (nowhere h1 hk)
        | some v' =>
          rw [h1, Option.isSome_some] at hk
          obtain ⟨w', h2⟩ := Option.isSome_iff_exists.mp hk
          rw [valueAt_dict h1, valueAt_dict h2, enclosing_dict h1]
          simp only [findSome?_enclosing_append, ← get?_overlay hv.nodup_keys]
          exact ih (hvals k v' w' h1 h2) (hv.of_get? h1)

omit [PyRuntime F] in
/-- Every string is met, in its scope. -/
theorem exists_site_of_valueAt (var : Env F) {v : Val F} (hv : v.WF) {p : List Step} {s : String}
    (hs : valueAt v p = some (.str s)) : ∃ var', .string var' s ∈ sites var v ∧ ∀ name,
      Dict.get? var' name = ((enclosing v p).findSome? (attr · name)).or (Dict.get? var name) := by
  induction p generalizing var v with
  | nil =>
    obtain rfl := Option.some_inj.mp hs
    exact ⟨var, List.mem_singleton_self _, fun name => (Option.none_or).symm⟩
  | cons st p ih =>
    obtain ⟨w, hw, hrest⟩ := Option.bind_eq_some_iff.mp hs
    have hprim (h : v.isPrimitive) : False := by
      rw [child_eq_none h] at hw
      cases hw
    cases v with
    | none => exact absurd hv Val.not_wf_none
    | bool | int | float | str => exact (hprim rfl).elim
    | list xs =>
      cases st with
      | key k => cases hw
      | index i =>
        have hi := List.mem_of_getElem? (show xs[i]? = some w from hw)
        obtain ⟨var', hsite, hscope⟩ := ih var (hv.mem_list w hi) hrest
        refine ⟨var', ?_, fun name => ?_⟩
        · rw [sites, sitesList_eq]
          exact List.mem_flatMap.mpr ⟨w, hi, hsite⟩
        · rw [enclosing_list hw, hscope]
    | tuple xs =>
      cases st with
      | key k => cases hw
      | index i =>
        have hi := List.mem_of_getElem? (show xs[i]? = some w from hw)
        obtain ⟨var', hsite, hscope⟩ := ih var (hv.mem_tuple w hi) hrest
        refine ⟨var', ?_, fun name => ?_⟩
        · rw [sites, sitesList_eq]
          exact List.mem_flatMap.mpr ⟨w, hi, hsite⟩
        · rw [enclosing_tuple hw, hscope]
    | dict d =>
      cases st with
      | index i => cases hw
      | key k =>
        have hk : Dict.get? d k = some w := hw
        obtain ⟨var', hsite, hscope⟩ := ih (Dict.update var (primitives d)) (hv.of_get? hk) hrest
        refine ⟨var', ?_, fun name => ?_⟩
        · rw [sites, sitesFields_eq]
          exact List.mem_flatMap.mpr ⟨_, Dict.mem_of_get? hk, hsite⟩
        · rw [enclosing_dict hk, findSome?_enclosing_append, hscope, get?_overlay hv.nodup_keys]

/-! ## The order of items -/

omit [PyRuntime F] in
theorem get?_overlay_congr {var var' : Env F} {d d' : Fields F} (hd : (Dict.keys d).Nodup)
    (hd' : (Dict.keys d').Nodup) (hsame : Same (.dict d) (.dict d'))
    (h : ∀ name, Dict.get? var name = Dict.get? var' name) (name : String) :
    Dict.get? (Dict.update var (primitives d)) name =
      Dict.get? (Dict.update var' (primitives d')) name := by
  rw [get?_overlay hd, get?_overlay hd', attr_eq_of_same hsame, h]

omit [PyRuntime F] in
theorem get?_topScope_congr {spec spec' : Fields F} (h : (Dict.keys spec).Nodup)
    (h' : (Dict.keys spec').Nodup) (hsame : Same (.dict spec) (.dict spec')) (name : String) :
    Dict.get? (topScope spec) name = Dict.get? (topScope spec') name := by
  rw [get?_topScope h, get?_topScope h', attr_eq_of_same hsame]

/-- Reordering items keeps a value that can be substituted in. -/
theorem goesThrough_of_same {v v' : Val F} (hsame : Same v v') {var var' : Env F}
    (hvar : ∀ name, Dict.get? var name = Dict.get? var' name) (hv : v.WF) (hv' : v'.WF)
    (h : ∀ x ∈ sites var v, x.GoesThrough) : ∀ x ∈ sites var' v', x.GoesThrough := by
  induction hsame generalizing var var' with
  | none => exact absurd hv Val.not_wf_none
  | @primitive v hprim =>
    cases v with
    | none | list | tuple | dict => cases hprim
    | bool | int | float => exact nofun
    | str s =>
      intro x hx
      obtain rfl := List.mem_singleton.mp hx
      obtain ⟨t, ht⟩ := h _ (List.mem_singleton_self _)
      exact ⟨t, ht.congr hvar⟩
  | @list xs ys hlen _ ih =>
    simp only [sites, sitesList_eq, List.mem_flatMap, forall_exists_index, and_imp] at h ⊢
    intro x w hw
    obtain ⟨i, u, hi, hi'⟩ := Val.exists_getElem?_of_mem hlen hw
    have hu := List.mem_of_getElem? hi
    exact ih i u w hi hi' hvar (hv.mem_list u hu) (hv'.mem_list w hw) (fun y => h y u hu) x
  | @tuple xs ys hlen _ ih =>
    simp only [sites, sitesList_eq, List.mem_flatMap, forall_exists_index, and_imp] at h ⊢
    intro x w hw
    obtain ⟨i, u, hi, hi'⟩ := Val.exists_getElem?_of_mem hlen hw
    have hu := List.mem_of_getElem? hi
    exact ih i u w hi hi' hvar (hv.mem_tuple u hu) (hv'.mem_tuple w hw) (fun y => h y u hu) x
  | @dict d e hkeys hvals ih =>
    have hde : Same (.dict d) (.dict e) := .dict hkeys hvals
    simp only [sites, sitesFields_eq, List.mem_flatMap, forall_exists_index, and_imp] at h ⊢
    intro x p hp
    have hget := Dict.get?_of_mem hv'.nodup_keys hp
    obtain ⟨u, hu, -⟩ := hde.symm.exists_get? hget
    have hmem := Dict.mem_of_get? hu
    exact ih p.1 u p.2 hu hget (get?_overlay_congr hv.nodup_keys hv'.nodup_keys hde hvar)
      (hv.of_get? hu) (hv'.mem_dict p hp) (fun y => h y (p.1, u) hmem) x

/-- **Substitutions of values that are the same are the same.** -/
theorem Substs.same {v v' w w' : Val F} {var var' : Env F} (h : Substs var v w)
    (h' : Substs var' v' w') (hvar : ∀ name, Dict.get? var name = Dict.get? var' name)
    (hsame : Same v v') (hv : v.WF) (hv' : v'.WF) : Same w w' := by
  have members {xs xs' ys ys' : List (Val F)} (hxs : xs.length = ys.length)
      (hxs' : xs'.length = ys'.length) (hlen : xs.length = xs'.length)
      (hmem : ∀ (i : ℕ) (v w v' w' : Val F), xs[i]? = some v → ys[i]? = some w → xs'[i]? = some v' →
        ys'[i]? = some w' → Same w w') :
      ∀ (i : ℕ) (w w' : Val F), ys[i]? = some w → ys'[i]? = some w' → Same w w' := by
    intro i w w' hw hw'
    obtain ⟨x, hx⟩ := Val.exists_getElem?_of_length_eq hxs hw
    obtain ⟨x', hx'⟩ := Val.exists_getElem?_of_length_eq hxs' hw'
    exact hmem i x w x' w' hx hw hx' hw'
  induction h generalizing var' v' w' with
  | @scalar _ v hprim hstr =>
    obtain rfl := hsame.eq_of_isPrimitive hprim
    cases h' with
    | scalar => exact .primitive hprim
    | str => exact absurd rfl (hstr _)
    | list | tuple | dict => cases hprim
  | str hs =>
    obtain rfl := hsame.eq_of_isPrimitive rfl
    cases h' with
    | scalar _ hstr => exact absurd rfl (hstr _)
    | str hs' =>
      obtain rfl := (hs.congr hvar).unique hs'
      exact .primitive rfl
  | @list var xs ys hxs _ ih =>
    cases hsame with
    | primitive h => cases h
    | list hlen hmem =>
      cases h' with
      | scalar h => cases h
      | list hxs' hmem' =>
        refine .list (by omega) (members hxs hxs' hlen ?_)
        intro i v w v' w' hx hy hx' hy'
        exact ih i v w hx hy (hmem' i v' w' hx' hy') hvar (hmem i v v' hx hx')
          (hv.mem_list v (List.mem_of_getElem? hx)) (hv'.mem_list v' (List.mem_of_getElem? hx'))
  | @tuple var xs ys hxs _ ih =>
    cases hsame with
    | primitive h => cases h
    | tuple hlen hmem =>
      cases h' with
      | scalar h => cases h
      | tuple hxs' hmem' =>
        refine .tuple (by omega) (members hxs hxs' hlen ?_)
        intro i v w v' w' hx hy hx' hy'
        exact ih i v w hx hy (hmem' i v' w' hx' hy') hvar (hmem i v v' hx hx')
          (hv.mem_tuple v (List.mem_of_getElem? hx)) (hv'.mem_tuple v' (List.mem_of_getElem? hx'))
  | @dict var d e hkeys _ ih =>
    obtain ⟨d', rfl⟩ := hsame.exists_dict
    cases h' with
    | scalar h => cases h
    | @dict _ _ e' hkeys' hvals' =>
      refine .dict (fun k => ?_) fun k w w' hw hw' => ?_
      · rw [hkeys, hkeys', hsame.isSome_get?_eq]
      · have hk := hkeys k
        rw [hw, Option.isSome_some] at hk
        obtain ⟨v, hget⟩ := Option.isSome_iff_exists.mp hk.symm
        obtain ⟨v', hget', hvv⟩ := hsame.exists_get? hget
        exact ih k v w hget hw (hvals' k v' w' hget' hw')
          (get?_overlay_congr hv.nodup_keys hv'.nodup_keys hsame hvar) hvv (hv.of_get? hget)
          (hv'.of_get? hget')

/-! ## The result of the phase -/

/-- `r` is what substitution makes of `spec`. -/
structure IsSubstitution (spec r : Fields F) : Prop where
  keys : Dict.keys r = Dict.keys spec
  templates : Dict.get? r "templates" = Dict.get? spec "templates"
  substs : ∀ k v w, k ≠ "templates" → Dict.get? spec k = some v → Dict.get? r k = some w →
    Substs (topScope spec) v w

theorem IsSubstitution.isSome_get?_eq {spec r : Fields F} (h : IsSubstitution spec r)
    (k : String) : (Dict.get? r k).isSome = (Dict.get? spec k).isSome := by
  rw [Bool.eq_iff_iff, Dict.isSome_get?_iff, Dict.isSome_get?_iff, h.keys]

/-- **What the phase returns.** -/
theorem isSubstitution_of_returns {spec r : Fields F}
    (h : Returns (fun n => startSubst n spec) r) : IsSubstitution spec r := by
  simp only [startSubst_eq] at h
  have hpaired := paired_of_returns_items (substIn_has _) h
  exact ⟨hpaired.keys_eq, get?_templates_of_paired hpaired, fun k v w hk hv hw =>
    substs_of_returns (returns_of_paired hpaired hk hv hw)⟩

/-- Substitution in a well-formed value returns a well-formed value. -/
theorem wf_of_returns_substIn {var : Env F} {v w : Val F} (hv : v.WF)
    (h : Returns (fun n => substIn n var v) w) : w.WF := by
  induction v generalizing var w with
  | none => exact absurd hv Val.not_wf_none
  | bool b => rw [← (returns_pure _).unique h]; exact hv
  | int n => rw [← (returns_pure _).unique h]; exact hv
  | float x => rw [← (returns_pure _).unique h]; exact hv
  | str s =>
    simp only [substIn] at h
    obtain ⟨t, -, rfl⟩ := (returns_map_iff (substStr_has var s)).mp h
    exact .primitive rfl
  | list xs ih =>
    simp only [substIn, substInList_eq] at h
    obtain ⟨ys, hys, rfl⟩ := (returns_map_iff (has_mapM fun x _ => substIn_has var x)).mp h
    have hall := forall₂_of_returns_mapM (fun x _ => substIn_has var x) hys
    refine .list fun y hy => ?_
    obtain ⟨i, hi⟩ := List.mem_iff_getElem?.mp hy
    obtain ⟨x, hx, hret⟩ := exists_left_of_forall₂ hall hi
    exact ih x (List.mem_of_getElem? hx) (hv.mem_list x (List.mem_of_getElem? hx)) hret
  | tuple xs ih =>
    simp only [substIn, substInList_eq] at h
    obtain ⟨ys, hys, rfl⟩ := (returns_map_iff (has_mapM fun x _ => substIn_has var x)).mp h
    have hall := forall₂_of_returns_mapM (fun x _ => substIn_has var x) hys
    refine .tuple fun y hy => ?_
    obtain ⟨i, hi⟩ := List.mem_iff_getElem?.mp hy
    obtain ⟨x, hx, hret⟩ := exists_left_of_forall₂ hall hi
    exact ih x (List.mem_of_getElem? hx) (hv.mem_tuple x (List.mem_of_getElem? hx)) hret
  | dict d ih =>
    simp only [substIn, substInFields_eq] at h
    have hvisit (p : String × Val F) :=
      (substIn_has (Dict.update var (primitives d)) p.2).map (Prod.mk p.1)
    obtain ⟨e, he, rfl⟩ := (returns_map_iff (has_mapM fun p _ => hvisit p)).mp h
    have hall := forall₂_of_returns_mapM (fun p _ => hvisit p) he
    have hpaired : Dict.Paired (fun _ v w => v.WF → w.WF) d e := by
      refine forall₂_of_getElem? hall.length_eq fun i p q hp hq => ?_
      obtain ⟨w, hw, rfl⟩ :=
        (returns_map_iff (substIn_has _ p.2)).mp (getElem?_of_forall₂ hall i p q hp hq)
      exact ⟨rfl, fun hwf => ih p (List.mem_of_getElem? hp) hwf hw⟩
    refine .dict (hpaired.keys_eq ▸ hv.nodup_keys) fun q hq => ?_
    obtain ⟨i, hi⟩ := List.mem_iff_getElem?.mp hq
    obtain ⟨p, hp, -, hwf⟩ := exists_left_of_forall₂ hpaired hi
    exact hwf (hv.mem_dict p (List.mem_of_getElem? hp))

theorem wf_of_returns_startSubst {spec r : Fields F} (hspec : (Val.dict spec).WF)
    (h : Returns (fun n => startSubst n spec) r) : (Val.dict r).WF := by
  simp only [startSubst_eq] at h
  have hpaired := paired_of_returns_items (substIn_has _) h
  refine .dict (hpaired.keys_eq ▸ hspec.nodup_keys) fun q hq => ?_
  obtain ⟨i, hi⟩ := List.mem_iff_getElem?.mp hq
  obtain ⟨p, hp, -, hpq⟩ := exists_left_of_forall₂ hpaired hi
  have hwf := hspec.mem_dict p (List.mem_of_getElem? hp)
  split at hpq
  · rwa [hpq]
  · exact wf_of_returns_substIn hwf hpq

/-- **The result does not depend on the order of items.** -/
theorem IsSubstitution.same {spec spec' r r' : Fields F} (h : IsSubstitution spec r)
    (h' : IsSubstitution spec' r') (hspec : (Val.dict spec).WF) (hspec' : (Val.dict spec').WF)
    (hsame : Same (.dict spec) (.dict spec')) : Same (.dict r) (.dict r') := by
  refine .dict (fun k => ?_) fun k w w' hw hw' => ?_
  · rw [h.isSome_get?_eq, h'.isSome_get?_eq, hsame.isSome_get?_eq]
  · have hk := h.isSome_get?_eq k
    rw [hw, Option.isSome_some] at hk
    obtain ⟨v, hv⟩ := Option.isSome_iff_exists.mp hk.symm
    obtain ⟨v', hv', hvv⟩ := hsame.exists_get? hv
    by_cases htemp : k = "templates"
    · obtain rfl := htemp
      obtain rfl := Option.some_inj.mp (hw.symm.trans (h.templates.trans hv))
      obtain rfl := Option.some_inj.mp (hw'.symm.trans (h'.templates.trans hv'))
      exact hvv
    · exact (h.substs k v w htemp hv hw).same (h'.substs k v' w' htemp hv' hw')
        (get?_topScope_congr hspec.nodup_keys hspec'.nodup_keys hsame) hvv (hspec.of_get? hv)
        (hspec'.of_get? hv')

theorem returns_startSubst_iff (spec : Fields F) :
    (∃ r, Returns (fun n => startSubst n spec) r) ↔ ∀ x ∈ startSites spec, x.GoesThrough := by
  rw [(startSubst_has spec).returns_iff, Verdict.firstFail_eq_pass_iff]
  simp only [List.mem_map, forall_exists_index, and_imp, forall_apply_eq_imp_iff₂,
    siteVerdict_eq_pass_iff]

/-- A spec that can be substituted in can be substituted in after reordering. -/
theorem exists_returns_startSubst_of_same {spec spec' : Fields F} (hspec : (Val.dict spec).WF)
    (hspec' : (Val.dict spec').WF) (hsame : Same (.dict spec) (.dict spec'))
    (h : ∃ r, Returns (fun n => startSubst n spec) r) :
    ∃ r, Returns (fun n => startSubst n spec') r := by
  rw [returns_startSubst_iff] at h ⊢
  intro x hx
  obtain ⟨p, hp, hx⟩ := List.mem_flatMap.mp hx
  by_cases hk : p.1 = "templates"
  · rw [if_pos hk] at hx
    cases hx
  · rw [if_neg hk] at hx
    obtain ⟨v, hv, hvp⟩ := hsame.symm.exists_get? (Dict.get?_of_mem hspec'.nodup_keys hp)
    refine goesThrough_of_same hvp.symm
      (get?_topScope_congr hspec.nodup_keys hspec'.nodup_keys hsame) (hspec.of_get? hv)
      (hspec'.mem_dict p hp) (fun y hy => h y (List.mem_flatMap.mpr ⟨_, Dict.mem_of_get? hv, ?_⟩))
      x hx
    rwa [if_neg hk]

/-! ## What the phase raises -/

omit [PyRuntime F] in
theorem unsupported_notMem_sites {v : Val F} (hv : v.WF) (var : Env F) :
    .unsupported ∉ sites var v := by
  induction v generalizing var with
  | none => exact absurd hv Val.not_wf_none
  | bool | int | float => exact List.not_mem_nil
  | str s => exact fun h => nomatch List.mem_singleton.mp h
  | list xs ih =>
    rw [sites, sitesList_eq]
    intro h
    obtain ⟨x, hx, h⟩ := List.mem_flatMap.mp h
    exact ih x hx (hv.mem_list x hx) var h
  | tuple xs ih =>
    rw [sites, sitesList_eq]
    intro h
    obtain ⟨x, hx, h⟩ := List.mem_flatMap.mp h
    exact ih x hx (hv.mem_tuple x hx) var h
  | dict d ih =>
    rw [sites, sitesFields_eq]
    intro h
    obtain ⟨p, hp, h⟩ := List.mem_flatMap.mp h
    exact ih p hp (hv.mem_dict p hp) _ h

/-- **The only error of the phase** is the `KeyError` of a name without a value. -/
theorem exists_of_raises_startSubst {spec : Fields F} (hspec : (Val.dict spec).WF) {e : PyError}
    (h : Raises (fun n => startSubst n spec) e) : ∃ name, e = ⟨.keyError, name⟩ := by
  rw [(startSubst_has spec).raises_iff, Verdict.firstFail_eq_iff (v := .raise e) _ _ nofun] at h
  obtain ⟨before, x, after, hsplit, -, hx⟩ := h
  have hmem : x ∈ startSites spec := hsplit ▸ List.mem_append_right _ List.mem_cons_self
  obtain ⟨p, hp, hmem⟩ := List.mem_flatMap.mp hmem
  cases x with
  | unsupported =>
    split at hmem
    · cases hmem
    · exact absurd hmem (unsupported_notMem_sites (hspec.mem_dict p hp) _)
  | string var s =>
    have hraise := ((substStr_has var s).raises_iff e).mpr hx
    rcases settles_or_undefined_or_endless var s with ⟨t, ht⟩ | ⟨d, hd⟩ | hend
    · cases Settles.unique hraise ht.returns
    · obtain rfl := Except.error.inj (Settles.unique hraise hd.raises)
      obtain ⟨t, -, ht⟩ := hd
      obtain ⟨name, -, -, hname⟩ := exists_of_subVars_error ht
      exact ⟨name, hname⟩
    · exact absurd (loops_substStr hend) hraise.not_loops

end Spec
end LdmsTest
