import LdmsTest.Spec.Init

/-!
# Attributes that `Spec()` leaves alone

A hashable value has no object inside, so template expansion does not change it, and all its
strings are read in one scope.  So `Spec()` gives such an attribute back as it was exactly when
one round of substitution does not change any of its strings (`LeftAlone`).
-/

namespace LdmsTest

namespace Val

variable {F : Type}

theorem unhashableList_eq_none_iff {xs : List (Val F)} :
    unhashableList xs = Option.none ↔ ∀ x ∈ xs, x.unhashable = Option.none := by
  induction xs with
  | nil => exact ⟨fun _ => nofun, fun _ => rfl⟩
  | cons x xs ih => rw [unhashableList, Option.or_eq_none_iff, ih, List.forall_mem_cons]

theorem unhashable_tuple_eq_none_iff {xs : List (Val F)} :
    (Val.tuple xs).unhashable = Option.none ↔ ∀ x ∈ xs, x.unhashable = Option.none := by
  rw [unhashable, unhashableList_eq_none_iff]

end Val

namespace Spec

open Val (Fields)

variable {F : Type} [PyRuntime F]

/-! ## Expansion -/

/-- **What expands to a hashable value** is that value. -/
theorem Expands.eq_of_hashable {templates v w : Val F} (h : Expands templates v w)
    (hw : w.unhashable = none) : v = w := by
  induction h with
  | primitive _ => rfl
  | list _ _ _ => cases hw
  | dict _ _ _ _ _ => cases hw
  | @tuple xs ys hlen _ ih =>
    rw [Val.unhashable_tuple_eq_none_iff] at hw
    refine congrArg Val.tuple (List.ext_getElem hlen fun i hi hi' => ?_)
    exact ih i _ _ (List.getElem?_eq_getElem hi) (List.getElem?_eq_getElem hi')
      (hw _ (List.getElem_mem hi'))

/-- An object that defines an attribute itself keeps it, whatever its templates say. -/
theorem Expands.get?_own {templates : Val F} {d e : Fields F}
    (h : Expands templates (.dict d) (.dict e)) {k : String} (hk : k ≠ "!extends") {v : Val F}
    (hv : Dict.get? d k = some v) : ∃ w, Dict.get? e k = some w ∧ Expands templates v w := by
  cases h with
  | primitive h => cases h
  | @dict _ _ bs _ _ hkeys hvals =>
    have hdef : definition (d :: bs) k = some v := by
      rw [definition, if_neg hk, List.findSome?_cons, hv]
    have hsome := hkeys k
    rw [hdef, Option.isSome_some] at hsome
    obtain ⟨w, hw⟩ := Option.isSome_iff_exists.mp hsome
    exact ⟨w, hw, hvals k v w hdef hw⟩

theorem Expands.eq_str {templates w : Val F} {s : String} (h : Expands templates (.str s) w) :
    w = .str s := by
  cases h with
  | primitive _ => rfl

/-! ## Substitution -/

theorem Substs.exists_str {var : Env F} {s : String} {w : Val F} (h : Substs var (.str s) w) :
    ∃ t, w = .str t := by
  cases h with
  | scalar _ hstr => exact absurd rfl (hstr s)
  | str _ => exact ⟨_, rfl⟩

theorem Substs.hashable {var : Env F} {v w : Val F} (h : Substs var v w)
    (hw : w.unhashable = none) : v.unhashable = none := by
  induction h with
  | @scalar _ v _ _ => exact hw
  | str _ => rfl
  | list _ _ _ => cases hw
  | dict _ _ _ => cases hw
  | @tuple _ xs ys hlen _ ih =>
    rw [Val.unhashable_tuple_eq_none_iff] at hw ⊢
    intro x hx
    obtain ⟨i, hi⟩ := List.mem_iff_getElem?.mp hx
    obtain ⟨y, hy⟩ := Val.exists_getElem?_of_length_eq hlen.symm hi
    exact ih i x y hi hy (hw y (List.mem_of_getElem? hy))

theorem SettlesAt.eq_iff {var : Env F} {s t : String} (h : SettlesAt var s t) :
    t = s ↔ subVars var s = .ok s := by
  constructor
  · rintro rfl
    exact h.2
  · intro hs
    exact h.unique ⟨.here (nextLevel_eq_none_iff.mpr (Or.inl hs)), hs⟩

/-- Substitution gives a hashable value back exactly when a round changes no string of it. -/
theorem Substs.eq_iff {var : Env F} {v w : Val F} (h : Substs var v w)
    (hw : w.unhashable = none) :
    w = v ↔ ∀ p s, valueAt v p = some (.str s) → subVars var s = .ok s := by
  induction h with
  | @scalar var v hprim hstr =>
    refine iff_of_true rfl fun p s hs => ?_
    cases p with
    | nil => exact absurd (Option.some_inj.mp hs) (hstr s)
    | cons st p => rw [valueAt_cons_of_not_child (child_eq_none hprim st)] at hs; cases hs
  | @str var s t hset =>
    rw [Val.str.injEq, hset.eq_iff]
    constructor
    · intro hs p u hu
      cases p with
      | nil => obtain rfl := Val.str.inj (Option.some_inj.mp hu); exact hs
      | cons st p => rw [valueAt_cons_of_not_child (child_eq_none rfl st)] at hu; cases hu
    · exact fun hall => hall [] s rfl
  | list _ _ _ => cases hw
  | dict _ _ _ => cases hw
  | @tuple var xs ys hlen _ ih =>
    rw [Val.unhashable_tuple_eq_none_iff] at hw
    rw [Val.tuple.injEq]
    constructor
    · rintro rfl p s hs
      cases p with
      | nil => cases hs
      | cons st p =>
        cases st with
        | key k => rw [valueAt_cons_of_not_child rfl] at hs; cases hs
        | index i =>
          cases hi : ys[i]? with
          | none =>
            rw [valueAt_cons_of_not_child (show child (.tuple ys) (.index i) = none from hi)] at hs
            cases hs
          | some x =>
            rw [valueAt_tuple hi] at hs
            exact (ih i x x hi hi (hw x (List.mem_of_getElem? hi))).mp rfl p s hs
    · intro hall
      refine List.ext_getElem hlen.symm fun i hi hi' => ?_
      have hx := List.getElem?_eq_getElem hi'
      have hy := List.getElem?_eq_getElem hi
      refine (ih i _ _ hx hy (hw _ (List.getElem_mem hi))).mpr fun p s hs => ?_
      exact hall (.index i :: p) s ((valueAt_tuple hx p).trans hs)

/-! ## The construction -/

omit [PyRuntime F] in
theorem valueAt_append (v : Val F) (p q : List Step) :
    valueAt v (p ++ q) = (valueAt v p).bind fun w => valueAt w q := by
  induction p generalizing v with
  | nil => rfl
  | cons st p ih =>
    rw [List.cons_append, valueAt, valueAt, Option.bind_assoc]
    exact congrArg _ (funext ih)

/-- **A round of substitution changes no string** of the value, with the names read as at the
path of the expanded spec. -/
def LeftAlone (e : Fields F) (k : String) (p : List Step) (v : Val F) : Prop :=
  ∀ q s var, valueAt v q = some (.str s) → IsScope var e k p → subVars var s = .ok s

theorem IsSubstitution.eq_iff_leftAlone {e r : Fields F} (h : IsSubstitution e r)
    (he : (Val.dict e).WF) {k : String} (hk : k ≠ "templates") {p : List Step} {v w : Val F}
    (hv : valueAt (.dict e) (.key k :: p) = some v)
    (hw : valueAt (.dict r) (.key k :: p) = some w) (hhash : w.unhashable = none) :
    w = v ↔ LeftAlone e k p v := by
  rcases h.at_path he hk p with ⟨hnone, -⟩ | ⟨v', w', var, hv', hw', hsub, hscope⟩
  · rw [hnone] at hv
    cases hv
  · obtain rfl := Option.some_inj.mp (hv'.symm.trans hv)
    obtain rfl := Option.some_inj.mp (hw'.symm.trans hw)
    rw [hsub.eq_iff hhash]
    constructor
    · intro hall q s var' hs hscope'
      rw [subVars_congr fun name => (hscope' name).trans (hscope name).symm]
      exact hall q s hs
    · exact fun hall q s hs => hall q s var hs hscope

/-! ### Strings without a percent sign -/

theorem pieces_eq_of_notMem {cs : List Char} (h : '%' ∉ cs) :
    pieces none cs = cs.map fun c => .text [c] := by
  induction cs with
  | nil => rfl
  | cons c cs ih =>
    obtain ⟨hc, hcs⟩ := not_or.mp (mt List.mem_cons.mpr h)
    rw [pieces, if_neg (Ne.symm hc), ih hcs, List.map_cons]

theorem subVars_eq_of_notMem {s : String} (h : '%' ∉ s.toList) (var : Env F) :
    subVars var s = .ok s := by
  have hmap (cs : List Char) : (cs.map fun c => Piece.text [c]).mapM (replacePiece var) =
      .ok (cs.map fun c => [c]) := by
    refine mapM_eq_ok_iff.mpr ?_
    rw [List.forall₂_map_left_iff, List.forall₂_map_right_iff, List.forall₂_same]
    exact fun _ _ => rfl
  rw [subVars, pieces_eq_of_notMem h, hmap]
  have hflat : (s.toList.map fun c => [c]).flatten = s.toList := by
    rw [← List.flatMap_def, List.flatMap_singleton']
  change Except.ok (String.ofList (s.toList.map fun c => [c]).flatten) = _
  rw [hflat, String.ofList_toList]

/-- **A string without a percent sign** is left alone everywhere. -/
theorem leftAlone_of_notMem {s : String} (h : '%' ∉ s.toList) (e : Fields F) (k : String)
    (p : List Step) : LeftAlone e k p (.str s) := by
  intro q t var ht _
  cases q with
  | nil =>
    obtain rfl := Val.str.inj (Option.some_inj.mp ht)
    exact subVars_eq_of_notMem h var
  | cons st q =>
    rw [valueAt_cons_of_not_child (child_eq_none rfl st)] at ht
    cases ht

end Spec
end LdmsTest
