import LdmsTest.Foundation.Sorting
import LdmsTest.Python.Value
import Mathlib

/-!
# The order of `XCmp` objects

`XCmp.__lt__` compares two objects of a dataclass field by field, and a field that is `None` is to
be below every value.  It looks for `None` on its own side only.

* `lt`: `x < y`, on integers, strings and `XCmp` objects.
* `Decided`: what holds of two objects where they first differ, at any depth.
* `lt_correct_iff`: on the objects of a dataclass, `<` is a strict weak order exactly where it does
  not meet a value against `None`.

The fields are integers, strings and nested objects.  `LdmsAddr`, which has a field of bytes and a
comparison of its own, is left out.
-/

namespace LdmsTest
namespace XCmp

/-- What a field may hold. -/
inductive XVal where
  | none : XVal
  | int : ℤ → XVal
  | str : String → XVal
  /-- An object of a dataclass, with its fields in their order. -/
  | obj : String → List XVal → XVal

namespace XVal

/-- Induction on a value, with the hypothesis for every field of an object. -/
@[elab_as_elim, induction_eliminator]
theorem induct {P : XVal → Prop} (none : P .none) (int : ∀ n, P (.int n)) (str : ∀ s, P (.str s))
    (obj : ∀ c d, (∀ v ∈ d, P v) → P (.obj c d)) : ∀ v, P v
  | .none => none
  | .int n => int n
  | .str s => str s
  | .obj c d => obj c d fun v _ => induct none int str obj v
termination_by v => sizeOf v
decreasing_by
  simp_wf
  have := List.sizeOf_lt_of_mem ‹_›
  omega

/-- `type(v).__name__` -/
def typeName : XVal → String
  | .none => "NoneType"
  | .int _ => "int"
  | .str _ => "str"
  | .obj c _ => c

end XVal

/-! ## `__lt__` -/

/-- What `<` raises for values of two types. -/
def unordered (op : String) (v w : XVal) : PyError :=
  ⟨.typeError, "'" ++ op ++ "' not supported between instances of '" ++ v.typeName ++ "' and '" ++
    w.typeName ++ "'"⟩

/-- What `XCmp.__lt__` raises for an object of another type. -/
def mismatch (c : String) (w : XVal) : PyError :=
  ⟨.typeError, "TypeMismatch, expecting " ++ c ++ ", got " ++ w.typeName⟩

mutual

/-- `v < w` -/
def lt : XVal → XVal → Except PyError Bool
  | .int n, .int m => pure (n < m)
  | .str s, .str t => pure (s < t)
  | .obj c d, .obj c' d' => if c ≠ c' then throw (mismatch c (.obj c' d')) else ltFields d d'
  | .obj c _, w => throw (mismatch c w)
  | v, w => throw (unordered "<" v w)
termination_by v w => 2 * (sizeOf v + sizeOf w)

/-- `v > w`.  `XCmp` has no `__gt__`, so Python asks the object `w` for `w < v`. -/
def gt : XVal → XVal → Except PyError Bool
  | .int n, .int m => pure (m < n)
  | .str s, .str t => pure (t < s)
  | v, .obj c d => lt (.obj c d) v
  | v, w => throw (unordered ">" v w)
termination_by v w => 2 * (sizeOf v + sizeOf w) + 1

/-- The loop of `__lt__`. -/
def ltFields : List XVal → List XVal → Except PyError Bool
  | .none :: d, .none :: d' => ltFields d d'
  | .none :: _, _ :: _ => pure true
  | v0 :: d, v1 :: d' => do
    if ← lt v0 v1 then pure true
    else if ← gt v0 v1 then pure false
    else ltFields d d'
  | _, _ => pure false
termination_by d d' => 2 * (sizeOf d + sizeOf d')

end

/-- `list_xsort(l)`: the objects have no list and no dictionary that `xsort` could sort. -/
def listXsort (l : List XVal) : Except PyError (List XVal) :=
  Sorting.sortBy lt l

/-- An attribute of an object that is sorted: a list, or a value, in which there is nothing to
sort. -/
inductive Attr where
  | list : List XVal → Attr
  | val : XVal → Attr

/-- `x.xsort()`, on the attributes of `x` -/
def xsort : List (String × Attr) → Except PyError (List (String × Attr))
  | [] => pure []
  | (k, .list l) :: attrs => do
    let l ← listXsort l
    let attrs ← xsort attrs
    pure ((k, .list l) :: attrs)
  | (k, .val v) :: attrs => do
    let attrs ← xsort attrs
    pure ((k, .val v) :: attrs)

/-! ## Where two values first differ -/

/-- `None` against a value. -/
def NoneLt (v w : XVal) : Prop :=
  v = .none ∧ w ≠ .none

/-- Two integers, or two strings, in their order. -/
inductive ValueLt : XVal → XVal → Prop where
  | int {n m : ℤ} : n < m → ValueLt (.int n) (.int m)
  | str {s t : String} : s < t → ValueLt (.str s) (.str t)

/-- **Where two values first differ**, `r` holds. -/
inductive Decided (r : XVal → XVal → Prop) : XVal → XVal → Prop where
  | here {v w : XVal} : r v w → Decided r v w
  | field {c : String} {common d d' : List XVal} {v w : XVal} : Decided r v w →
    Decided r (.obj c (common ++ v :: d)) (.obj c (common ++ w :: d'))

/-- **`None` is below every value**, and the first difference decides. -/
abbrev Below : XVal → XVal → Prop :=
  Decided fun v w => NoneLt v w ∨ ValueLt v w

theorem Decided.cases {r : XVal → XVal → Prop} {v w : XVal} (h : Decided r v w) :
    r v w ∨ ∃ c common d d' v' w', v = .obj c (common ++ v' :: d) ∧
      w = .obj c (common ++ w' :: d') ∧ Decided r v' w' := by
  cases h with
  | here h => exact .inl h
  | field h => exact .inr ⟨_, _, _, _, _, _, rfl, rfl, h⟩

theorem Below.cases {v w : XVal} (h : Below v w) : Decided NoneLt v w ∨ Decided ValueLt v w := by
  induction h with
  | here h => exact h.imp .here .here
  | field _ ih => exact ih.imp .field .field

theorem below_of_noneLt {v w : XVal} (h : Decided NoneLt v w) : Below v w := by
  induction h with
  | here h => exact .here (.inl h)
  | field _ ih => exact .field ih

theorem below_of_valueLt {v w : XVal} (h : Decided ValueLt v w) : Below v w := by
  induction h with
  | here h => exact .here (.inr h)
  | field _ ih => exact .field ih

/-! ## What `<` says -/

theorem gt_obj (v : XVal) (c : String) (d : List XVal) : gt v (.obj c d) = lt (.obj c d) v := by
  cases v <;> rw [gt]

theorem lt_obj (c : String) (d d' : List XVal) : lt (.obj c d) (.obj c d') = ltFields d d' := by
  rw [lt, if_neg (not_not.mpr rfl)]

/-- What the loop does with two fields that are not both `None`. -/
theorem ltFields_cons {v w : XVal} (hv : v ≠ .none) (d d' : List XVal) :
    ltFields (v :: d) (w :: d') = (do
      if ← lt v w then pure true
      else if ← gt v w then pure false
      else ltFields d d') := by
  rw [ltFields]
  · exact fun h => absurd h hv
  · exact fun h => absurd h hv

theorem ltFields_none_cons {w : XVal} (hw : w ≠ .none) (d d' : List XVal) :
    ltFields (.none :: d) (w :: d') = .ok true := by
  rw [ltFields]
  · rfl
  · exact hw

theorem ltFields_none_none (d d' : List XVal) :
    ltFields (.none :: d) (.none :: d') = ltFields d d' := by
  rw [ltFields]

/-- `>` on a value and itself asks what `<` asks. -/
theorem gt_self_of_lt_self {v : XVal} (hv : v ≠ .none) (h : lt v v = .ok false) :
    gt v v = .ok false := by
  cases v with
  | none => exact absurd rfl hv
  | int n => simp [gt, pure, Except.pure]
  | str s => simp [gt, pure, Except.pure]
  | obj c d => rw [gt_obj, h]

/-- Two equal fields are passed over. -/
theorem ltFields_cons_self {v : XVal} (hv : v ≠ .none → lt v v = .ok false) (d d' : List XVal) :
    ltFields (v :: d) (v :: d') = ltFields d d' := by
  by_cases hnone : v = .none
  · subst hnone
    exact ltFields_none_none d d'
  · rw [ltFields_cons hnone, hv hnone, ok_bind, if_neg Bool.false_ne_true,
      gt_self_of_lt_self hnone (hv hnone), ok_bind, if_neg Bool.false_ne_true]

/-- **No value is below itself.** -/
theorem lt_self {v : XVal} (hv : v ≠ .none) : lt v v = .ok false := by
  induction v with
  | none => exact absurd rfl hv
  | int n => simp [lt, pure, Except.pure]
  | str s => simp [lt, pure, Except.pure]
  | obj c d ih =>
    rw [lt_obj]
    clear hv
    induction d with
    | nil => simp [ltFields, pure, Except.pure]
    | cons v d ihd =>
      obtain ⟨hv, hd⟩ := List.forall_mem_cons.mp ih
      rw [ltFields_cons_self hv, ihd hd]

/-- **Common fields are passed over.** -/
theorem ltFields_append (common d d' : List XVal) :
    ltFields (common ++ d) (common ++ d') = ltFields d d' := by
  induction common with
  | nil => rfl
  | cons v common ih => rw [List.cons_append, List.cons_append, ltFields_cons_self lt_self, ih]

theorem lt_none_left (v : XVal) : ∃ e, lt .none v = .error e := by
  cases v <;> simp [lt, throw, throwThe, MonadExceptOf.throw]

theorem lt_none_right (v : XVal) : ∃ e, lt v .none = .error e := by
  cases v <;> simp [lt, throw, throwThe, MonadExceptOf.throw]

theorem ne_none_of_lt {v w : XVal} {b : Bool} (h : lt v w = .ok b) : v ≠ .none ∧ w ≠ .none := by
  refine ⟨?_, ?_⟩
  · rintro rfl
    obtain ⟨e, he⟩ := lt_none_left w
    rw [he] at h
    cases h
  · rintro rfl
    obtain ⟨e, he⟩ := lt_none_right v
    rw [he] at h
    cases h

/-- **Two values in their order** are told apart, whichever of them is asked, and with either
operator. -/
theorem lt_of_valueLt {v w : XVal} (h : Decided ValueLt v w) :
    lt v w = .ok true ∧ lt w v = .ok false ∧ gt w v = .ok true := by
  induction h with
  | here h =>
    cases h with
    | int h =>
      exact ⟨by rw [lt, decide_eq_true h]; rfl, by rw [lt, decide_eq_false h.asymm]; rfl,
        by rw [gt, decide_eq_true h]; rfl⟩
    | str h =>
      exact ⟨by rw [lt, decide_eq_true h]; rfl, by rw [lt, decide_eq_false h.asymm]; rfl,
        by rw [gt, decide_eq_true h]; rfl⟩
  | @field c common d d' v w _ ih =>
    obtain ⟨hlt, hlt', hgt⟩ := ih
    obtain ⟨hv, hw⟩ := ne_none_of_lt hlt
    have hleft : lt (.obj c (common ++ v :: d)) (.obj c (common ++ w :: d')) = .ok true := by
      rw [lt_obj, ltFields_append, ltFields_cons hv, hlt, ok_bind, if_pos rfl]
      rfl
    refine ⟨hleft, ?_, by rw [gt_obj, hleft]⟩
    rw [lt_obj, ltFields_append, ltFields_cons hw, hlt', ok_bind, if_neg Bool.false_ne_true, hgt,
      ok_bind, if_pos rfl]
    rfl

/-- **`None` against a value** is below it if the object with the `None` is asked, and raises
otherwise. -/
theorem lt_of_noneLt {v w : XVal} (h : Decided NoneLt v w) :
    NoneLt v w ∨ lt v w = .ok true ∧ ∃ e, lt w v = .error e := by
  induction h with
  | here h => exact .inl h
  | @field c common d d' v w _ ih =>
    refine .inr ?_
    rw [lt_obj, lt_obj, ltFields_append, ltFields_append]
    rcases ih with ⟨rfl, hw⟩ | ⟨hlt, e, he⟩
    · obtain ⟨e, he⟩ := lt_none_right w
      exact ⟨ltFields_none_cons hw _ _, e, by rw [ltFields_cons hw, he]; rfl⟩
    · obtain ⟨hv, hw⟩ := ne_none_of_lt hlt
      refine ⟨?_, e, by rw [ltFields_cons hw, he]; rfl⟩
      rw [ltFields_cons hv, hlt, ok_bind, if_pos rfl]
      rfl

/-! ## The order -/

theorem Below.ne_none {v w : XVal} (h : Below v w) : w ≠ .none := by
  rintro rfl
  rcases Decided.cases h with (⟨_, hne⟩ | hlt) | ⟨_, _, _, _, _, _, _, hw, _⟩
  · exact hne rfl
  · cases hlt
  · cases hw

/-- Of two places in a list, one comes first, or they are one. -/
theorem append_cons_eq_append_cons {α : Type} {l l' r r' : List α} {v w : α}
    (h : l ++ v :: r = l' ++ w :: r') :
    (∃ rest, l = l' ++ w :: rest) ∨ (l = l' ∧ v = w) ∨ ∃ rest, l' = l ++ v :: rest := by
  rcases List.append_eq_append_iff.mp h with ⟨rest, rfl, hrest⟩ | ⟨rest, rfl, hrest⟩
  · cases rest with
    | nil => exact .inr (.inl ⟨(List.append_nil l).symm, (List.cons.inj hrest).1⟩)
    | cons u rest => exact .inr (.inr ⟨rest, by rw [(List.cons.inj hrest).1]⟩)
  · cases rest with
    | nil => exact .inr (.inl ⟨List.append_nil l', (List.cons.inj hrest).1.symm⟩)
    | cons u rest => exact .inl ⟨rest, by rw [(List.cons.inj hrest).1]⟩

theorem Below.trans {x y z : XVal} (hxy : Below x y) (hyz : Below y z) : Below x z := by
  induction hxy generalizing z with
  | here h =>
    rcases h with ⟨rfl, -⟩ | hlt
    · exact .here (.inl ⟨rfl, hyz.ne_none⟩)
    · rcases Decided.cases hyz with (⟨rfl, -⟩ | hlt') | ⟨_, _, _, _, _, _, rfl, _, _⟩
      · cases hlt
      · cases hlt with
        | int h => cases hlt' with | int h' => exact .here (.inr (.int (h.trans h')))
        | str h => cases hlt' with | str h' => exact .here (.inr (.str (h.trans h')))
      · cases hlt
  | @field c common d d' v w hvw ih =>
    rcases Decided.cases hyz with (⟨hnone, -⟩ | hlt) | ⟨_, common', e, e', v', w', heq, rfl, hvw'⟩
    · cases hnone
    · cases hlt
    · injection heq with hc heq
      subst hc
      -- The first difference of `y` and `z` comes before that of `x` and `y`, with it, or after it.
      rcases append_cons_eq_append_cons heq with ⟨rest, rfl⟩ | ⟨rfl, rfl⟩ | ⟨rest, rfl⟩
      · rw [List.append_assoc]
        exact .field hvw'
      · exact .field (ih hvw')
      · rw [List.append_assoc]
        exact .field hvw

theorem not_below_self (x : XVal) : ¬ Below x x := by
  intro h
  have hself := lt_self h.ne_none
  rcases Below.cases h with hnone | hvalue
  · rcases lt_of_noneLt hnone with ⟨heq, hne⟩ | ⟨hlt, _⟩
    · exact hne heq
    · rw [hself] at hlt
      cases hlt
  · have hlt := (lt_of_valueLt hvalue).1
    rw [hself] at hlt
    cases hlt

theorem Below.asymm {x y : XVal} (hxy : Below x y) : ¬ Below y x :=
  fun hyx => not_below_self x (hxy.trans hyx)

/-! ## The objects of a dataclass -/

/-- What a dataclass declares of a field. -/
inductive FieldTy where
  | int : FieldTy
  | str : FieldTy
  | obj : String → FieldTy

/-- **A value of a declared type**, which may be `None`.  `classes` has the fields of every
class. -/
inductive HasType (classes : String → List FieldTy) : XVal → FieldTy → Prop where
  | none {t : FieldTy} : HasType classes .none t
  | int {n : ℤ} : HasType classes (.int n) .int
  | str {s : String} : HasType classes (.str s) .str
  | obj {c : String} {d : List XVal} : List.Forall₂ (HasType classes) d (classes c) →
    HasType classes (.obj c d) (.obj c)

/-- An object of the class `c`. -/
structure Instance (classes : String → List FieldTy) (c : String) where
  fields : List XVal
  typed : List.Forall₂ (HasType classes) fields (classes c)

variable {classes : String → List FieldTy} {c : String}

/-- The object as a value. -/
def Instance.toVal (x : Instance classes c) : XVal :=
  .obj c x.fields

/-- **Two fields that differ are told apart** where they first do. -/
theorem fields_eq_or {d : List XVal} (ih : ∀ v ∈ d, ∀ w t, HasType classes v t → HasType classes w t →
    v = w ∨ Below v w ∨ Below w v) {d' : List XVal} {ts : List FieldTy}
    (hd : List.Forall₂ (HasType classes) d ts) (hd' : List.Forall₂ (HasType classes) d' ts) :
    d = d' ∨ ∃ common v w e e', d = common ++ v :: e ∧ d' = common ++ w :: e' ∧
      (Below v w ∨ Below w v) := by
  induction hd generalizing d' with
  | nil =>
    cases hd'
    exact .inl rfl
  | @cons v t d ts hv _ ihd =>
    obtain ⟨hhead, htail⟩ := List.forall_mem_cons.mp ih
    cases hd' with
    | @cons w _ d' _ hw hd' =>
      rcases hhead w t hv hw with rfl | hvw
      · rcases ihd htail hd' with rfl | ⟨common, v', w', e, e', rfl, rfl, hvw⟩
        · exact .inl rfl
        · exact .inr ⟨v :: common, v', w', e, e', rfl, rfl, hvw⟩
      · exact .inr ⟨[], v, w, d, d', rfl, rfl, hvw⟩

/-- **Two values of one type are equal, or one is below the other.** -/
theorem eq_or_below {v w : XVal} {t : FieldTy} (hv : HasType classes v t)
    (hw : HasType classes w t) : v = w ∨ Below v w ∨ Below w v := by
  induction v generalizing w t with
  | none =>
    by_cases h : w = .none
    · exact .inl h.symm
    · exact .inr (.inl (.here (.inl ⟨rfl, h⟩)))
  | int n =>
    cases hv
    cases hw with
    | none => exact .inr (.inr (.here (.inl ⟨rfl, XVal.noConfusion⟩)))
    | @int m =>
      rcases lt_trichotomy n m with h | rfl | h
      · exact .inr (.inl (.here (.inr (.int h))))
      · exact .inl rfl
      · exact .inr (.inr (.here (.inr (.int h))))
  | str s =>
    cases hv
    cases hw with
    | none => exact .inr (.inr (.here (.inl ⟨rfl, XVal.noConfusion⟩)))
    | @str t =>
      rcases lt_trichotomy s t with h | rfl | h
      · exact .inr (.inl (.here (.inr (.str h))))
      · exact .inl rfl
      · exact .inr (.inr (.here (.inr (.str h))))
  | obj c d ih =>
    cases hv with
    | obj hd =>
      cases hw with
      | none => exact .inr (.inr (.here (.inl ⟨rfl, XVal.noConfusion⟩)))
      | obj hd' =>
        rcases fields_eq_or (fun v hv w t => ih v hv) hd hd' with rfl | ⟨_, _, _, _, _, rfl, rfl, h⟩
        · exact .inl rfl
        · exact .inr (h.imp .field .field)

/-- **The three answers** of `x < y`. -/
theorem lt_cases (x y : Instance classes c) :
    lt x.toVal y.toVal = .ok true ∧ Below x.toVal y.toVal ∨
      lt x.toVal y.toVal = .ok false ∧ (x.toVal = y.toVal ∨ Decided ValueLt y.toVal x.toVal) ∨
      (∃ e, lt x.toVal y.toVal = .error e) ∧ Decided NoneLt y.toVal x.toVal := by
  rcases eq_or_below (.obj x.typed) (.obj y.typed) with h | h | h
  · refine .inr (.inl ⟨?_, .inl h⟩)
    change x.toVal = y.toVal at h
    rw [h]
    exact lt_self XVal.noConfusion
  · refine .inl ⟨?_, h⟩
    rcases h.cases with hnone | hvalue
    · exact ((lt_of_noneLt hnone).resolve_left fun h => XVal.noConfusion h.1).1
    · exact (lt_of_valueLt hvalue).1
  · rcases h.cases with hnone | hvalue
    · exact .inr (.inr ⟨((lt_of_noneLt hnone).resolve_left fun h => XVal.noConfusion h.1).2, hnone⟩)
    · exact .inr (.inl ⟨(lt_of_valueLt hvalue).2.1, .inr hvalue⟩)

/-- **`x < y` is true of the objects in their order**, and of no others. -/
theorem lt_eq_true_iff (x y : Instance classes c) :
    lt x.toVal y.toVal = .ok true ↔ Below x.toVal y.toVal := by
  refine ⟨fun h => ?_, fun h => ?_⟩
  · rcases lt_cases x y with ⟨_, hbelow⟩ | ⟨hfalse, _⟩ | ⟨⟨e, he⟩, _⟩
    · exact hbelow
    · rw [hfalse] at h
      cases h
    · rw [he] at h
      cases h
  · rcases lt_cases x y with ⟨htrue, _⟩ | ⟨_, heq | hvalue⟩ | ⟨_, hnone⟩
    · exact htrue
    · rw [heq] at h
      exact absurd h (not_below_self _)
    · exact absurd (below_of_valueLt hvalue) h.asymm
    · exact absurd (below_of_noneLt hnone) h.asymm

/-- **`x < y` returns** where it does not meet a value of `x` against a `None` of `y`. -/
theorem exists_lt_iff (x y : Instance classes c) :
    (∃ b, lt x.toVal y.toVal = .ok b) ↔ ¬ Decided NoneLt y.toVal x.toVal := by
  refine ⟨?_, fun h => ?_⟩
  · rintro ⟨b, hb⟩ hnone
    obtain ⟨_, e, he⟩ := (lt_of_noneLt hnone).resolve_left fun h => XVal.noConfusion h.1
    rw [he] at hb
    cases hb
  · rcases lt_cases x y with ⟨htrue, _⟩ | ⟨hfalse, _⟩ | ⟨_, hnone⟩
    · exact ⟨true, htrue⟩
    · exact ⟨false, hfalse⟩
    · exact absurd hnone h

/-- Two objects of which neither is below the other are equal. -/
theorem eq_of_lt_eq_false {x y : Instance classes c} (hxy : lt x.toVal y.toVal = .ok false)
    (hyx : lt y.toVal x.toVal = .ok false) : x.toVal = y.toVal := by
  rcases eq_or_below (.obj x.typed) (.obj y.typed) with h | h | h
  · exact h
  · rw [(lt_eq_true_iff x y).mpr h] at hxy
    cases hxy
  · rw [(lt_eq_true_iff y x).mpr h] at hyx
    cases hyx

/-- **What `<` is to do**: return, and be a strict weak order with `None` below every value. -/
structure Ordered (x y z : XVal) : Prop where
  returns : ∃ b, lt x y = .ok b
  irrefl : lt x x = .ok false
  asymm : lt x y = .ok true → lt y x ≠ .ok true
  trans : lt x y = .ok true → lt y z = .ok true → lt x z = .ok true
  /-- To be neither below nor above is an equivalence. -/
  equiv_trans : lt x y = .ok false → lt y x = .ok false → lt y z = .ok false →
    lt z y = .ok false → lt x z = .ok false ∧ lt z x = .ok false
  none_below : Decided NoneLt x y → lt x y = .ok true

theorem ordered_iff (x y z : Instance classes c) :
    Ordered x.toVal y.toVal z.toVal ↔ ¬ Decided NoneLt y.toVal x.toVal := by
  refine ⟨fun h => (exists_lt_iff x y).mp h.returns, fun h => ?_⟩
  refine ⟨(exists_lt_iff x y).mpr h, lt_self XVal.noConfusion, ?_, ?_, ?_, ?_⟩
  · intro hxy hyx
    exact ((lt_eq_true_iff x y).mp hxy).asymm ((lt_eq_true_iff y x).mp hyx)
  · intro hxy hyz
    exact (lt_eq_true_iff x z).mpr
      (((lt_eq_true_iff x y).mp hxy).trans ((lt_eq_true_iff y z).mp hyz))
  · intro hxy hyx hyz hzy
    rw [eq_of_lt_eq_false hxy hyx]
    exact ⟨hyz, hzy⟩
  · intro hnone
    exact (lt_eq_true_iff x y).mpr (below_of_noneLt hnone)

/-! ## Sorting -/

/-- **`list_xsort` sorts the list.** -/
def Sorts (l : List XVal) : Prop :=
  ∃ l', listXsort l = .ok l' ∧ l'.Perm l ∧ l'.Pairwise fun a b => lt b a = .ok false

/-- No two of the objects differ first in a `None` against a value. -/
def Comparable (l : List (Instance classes c)) : Prop :=
  ∀ x ∈ l, ∀ y ∈ l, ¬ Decided NoneLt x.toVal y.toVal

theorem Comparable.decides {l : List (Instance classes c)} (h : Comparable l) :
    Sorting.Decides lt Below (l.map Instance.toVal) := by
  refine ⟨?_, fun x _ y _ hxy => hxy.asymm, ?_⟩
  · intro x hx y hy
    obtain ⟨x, hmx, rfl⟩ := List.mem_map.mp hx
    obtain ⟨y, hmy, rfl⟩ := List.mem_map.mp hy
    rcases lt_cases x y with htrue | ⟨hfalse, heq | hvalue⟩ | ⟨_, hnone⟩
    · exact .inl htrue
    · exact .inr ⟨hfalse, heq ▸ not_below_self _⟩
    · exact .inr ⟨hfalse, (below_of_valueLt hvalue).asymm⟩
    · exact absurd hnone (h y hmy x hmx)
  · intro x hx y hy z hz hxy hyz
    obtain ⟨x, _, rfl⟩ := List.mem_map.mp hx
    obtain ⟨y, _, rfl⟩ := List.mem_map.mp hy
    obtain ⟨z, _, rfl⟩ := List.mem_map.mp hz
    rcases eq_or_below (.obj x.typed) (.obj y.typed) with heq | h | hyx
    · change x.toVal = y.toVal at heq
      rwa [heq]
    · exact absurd h hxy
    · exact fun hxz => hyz (hyx.trans hxz)

/-- **Objects of which any two compare are sorted.** -/
theorem Comparable.sorts {l : List (Instance classes c)} (h : Comparable l) :
    Sorts (l.map Instance.toVal) := by
  obtain ⟨l', hl', hperm, hsorted⟩ := h.decides.exists_sortBy
  refine ⟨l', hl', hperm, hsorted.imp_of_mem fun {a b} ha hb hba => ?_⟩
  rcases h.decides.decides b (hperm.mem_iff.mp hb) a (hperm.mem_iff.mp ha) with ⟨_, hlt⟩ | ⟨hlt, _⟩
  · exact absurd hlt hba
  · exact hlt

/-- Of two objects in front, the second is asked first whether it is below the other. -/
theorem not_sorts_of_noneLt {x y : XVal} (hx : x ≠ .none) (h : Decided NoneLt x y)
    (l : List XVal) : ¬ Sorts (x :: y :: l) := by
  rintro ⟨l', hl', _⟩
  obtain ⟨_, e, he⟩ := (lt_of_noneLt h).resolve_left fun h => hx h.1
  have hraise : listXsort (x :: y :: l) = .error e := by
    have hfirst : Sorting.insertBy lt x [] = .ok [x] := rfl
    rw [listXsort, Sorting.sortBy, List.foldlM_cons, hfirst, ok_bind, List.foldlM_cons,
      Sorting.insertBy, he]
    rfl
  rw [hraise] at hl'
  cases hl'

/-- **A list is sorted from whatever order its objects come in** if any two of them compare, and
only then. -/
theorem sorts_iff (l : List (Instance classes c)) :
    (∀ l' : List (Instance classes c), l'.Perm l → Sorts (l'.map Instance.toVal)) ↔
      Comparable l := by
  refine ⟨fun h x hx y hy hnone => ?_, fun h l' hperm => ?_⟩
  · have hne : y ≠ x := fun heq => not_below_self _ (below_of_noneLt (heq ▸ hnone))
    obtain ⟨l₁, l₂, rfl⟩ := List.append_of_mem hx
    have hy : y ∈ l₁ ++ l₂ := by
      rcases List.mem_append.mp hy with hy | hy
      · exact List.mem_append_left _ hy
      · exact List.mem_append_right _ ((List.mem_cons.mp hy).resolve_left hne)
    obtain ⟨l₃, l₄, hrest⟩ := List.append_of_mem hy
    have hperm : (x :: y :: (l₃ ++ l₄)).Perm (l₁ ++ x :: l₂) := by
      refine .trans (.cons x ?_) List.perm_middle.symm
      rw [hrest]
      exact List.perm_middle.symm
    exact not_sorts_of_noneLt XVal.noConfusion hnone _ (h _ hperm)
  · exact Comparable.sorts fun x hx y hy => h x (hperm.mem_iff.mp hx) y (hperm.mem_iff.mp hy)

/-- One attribute before and after `xsort`. -/
inductive Attr.Sorted : String × Attr → String × Attr → Prop where
  | list {k : String} {l l' : List XVal} : l'.Perm l →
    (l'.Pairwise fun a b => lt b a = .ok false) → Sorted (k, .list l) (k, .list l')
  | val {k : String} {v : XVal} : Sorted (k, .val v) (k, .val v)

/-- **`xsort` sorts every list** of an object. -/
theorem exists_xsort {attrs : List (String × Attr)} (h : ∀ k l, (k, Attr.list l) ∈ attrs → Sorts l) :
    ∃ attrs', xsort attrs = .ok attrs' ∧ List.Forall₂ Attr.Sorted attrs attrs' := by
  induction attrs with
  | nil => exact ⟨[], rfl, .nil⟩
  | cons attr attrs ih =>
    obtain ⟨attrs', hxsort, hsorted⟩ := ih fun k l hmem => h k l (List.mem_cons_of_mem _ hmem)
    obtain ⟨k, l | v⟩ := attr
    · obtain ⟨l', hl', hperm, hpairwise⟩ := h k l List.mem_cons_self
      refine ⟨(k, .list l') :: attrs', ?_, .cons (.list hperm hpairwise) hsorted⟩
      rw [xsort, hl', ok_bind, hxsort]
      rfl
    · refine ⟨(k, .val v) :: attrs', ?_, .cons .val hsorted⟩
      rw [xsort, hxsort]
      rfl

/-- **`<` is the order of a dataclass**, and sorts its objects, exactly where it does not come to
a value of its left side against a `None` of its right side. -/
theorem lt_correct_iff {classes : String → List FieldTy} {c : String} :
    (∀ x y z : Instance classes c,
      Ordered x.toVal y.toVal z.toVal ↔ ¬ Decided NoneLt y.toVal x.toVal) ∧
    (∀ l : List (Instance classes c),
      (∀ l' : List (Instance classes c), l'.Perm l → Sorts (l'.map Instance.toVal)) ↔
        ∀ x ∈ l, ∀ y ∈ l, ¬ Decided NoneLt x.toVal y.toVal) ∧
    ∀ attrs : List (String × Attr),
      (∀ k l, (k, Attr.list l) ∈ attrs → ∃ l' : List (Instance classes c),
        l'.map Instance.toVal = l ∧ ∀ x ∈ l', ∀ y ∈ l', ¬ Decided NoneLt x.toVal y.toVal) →
        ∃ attrs', xsort attrs = .ok attrs' ∧ List.Forall₂ Attr.Sorted attrs attrs' := by
  refine ⟨ordered_iff, sorts_iff, fun attrs h => exists_xsort fun k l hmem => ?_⟩
  obtain ⟨l', rfl, hcomparable⟩ := h k l hmem
  exact Comparable.sorts hcomparable

/-- `TimeSpec` -/
def timeSpec : String → List FieldTy
  | "TimeSpec" => [.int, .int]
  | _ => []

/-- **A time with its seconds against one without** raises. -/
theorem not_ordered_timeSpec : ∃ x y : Instance timeSpec "TimeSpec",
    ¬ Ordered x.toVal y.toVal x.toVal ∧
      lt x.toVal y.toVal = .error
        ⟨.typeError, "'<' not supported between instances of 'int' and 'NoneType'"⟩ := by
  refine ⟨⟨[.int 1, .int 0], .cons .int (.cons .int .nil)⟩,
    ⟨[.none, .int 0], .cons .none (.cons .int .nil)⟩, ?_, ?_⟩
  · rw [ordered_iff, not_not]
    change Decided NoneLt (.obj "TimeSpec" ([] ++ .none :: [.int 0]))
      (.obj "TimeSpec" ([] ++ .int 1 :: [.int 0]))
    exact .field (.here ⟨rfl, XVal.noConfusion⟩)
  · rw [Instance.toVal, Instance.toVal, lt_obj, ltFields_cons XVal.noConfusion, lt]
    · rfl
    all_goals exact fun _ => nofun

end XCmp
end LdmsTest
