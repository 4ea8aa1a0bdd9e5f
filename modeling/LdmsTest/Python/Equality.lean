import LdmsTest.Python.JsonRoundTrip
import Mathlib.Data.Set.Basic

/-!
# `==` on objects

Two objects of the same type are compared by their contents, and numbers by their values.  An
object that JSON has read is equal to the one that was written unless that had a tuple in it, for
which JSON has a list, or a NaN, which is not even equal to itself.

* `Val.eq`: `==`.
* `Plain`: no tuple and no NaN is inside an object.
* `eq_listed_iff`: which objects are equal to what JSON makes of them.
-/

namespace LdmsTest

open Json (JsonFloat listed listedItems listedFields)

/-- **Python's `==` on floats.** -/
class FloatEq (F : Type) extends JsonFloat F where
  /-- `x == y` -/
  floatEq : F → F → Bool
  floatEq_self_iff : ∀ x, floatEq x x ↔ x ≠ nan

instance : FloatEq Json.SampleFloat where
  floatEq x y := x ≠ .nan ∧ x = y
  floatEq_self_iff x := by cases x <;> decide

namespace Val

variable {F : Type}

/-- The integer that a number is equal to, if there is one. -/
def integral [PyRuntime F] : Val F → Option ℤ
  | .bool b => some b.toNat
  | .int n => some n
  | .float x => PyRuntime.floatIntegral x
  | _ => Option.none

section Equality

variable [FloatEq F]

mutual

/-- `v == w`, for two objects that have no object in common -/
def eq : Val F → Val F → Bool
  | .none, .none => true
  | .str s, .str t => s == t
  | .float x, .float y => FloatEq.floatEq x y
  | .list xs, .list ys => eqItems xs ys
  | .tuple xs, .tuple ys => eqItems xs ys
  | .dict d, .dict e => d.length == e.length && eqFields d e
  | v, w =>
    match v.integral, w.integral with
    | some n, some m => n == m
    | _, _ => false

def eqItems : List (Val F) → List (Val F) → Bool
  | [], [] => true
  | x :: xs, y :: ys => eq x y && eqItems xs ys
  | _, _ => false

/-- Every item of the first dictionary is in the second. -/
def eqFields : List (String × Val F) → List (String × Val F) → Bool
  | [], _ => true
  | (k, x) :: d, e =>
    (match Dict.get? e k with
      | some y => eq x y
      | Option.none => false) && eqFields d e

end

end Equality

/-! ## Objects that are equal to what JSON makes of them -/

variable [JsonFloat F] {ignored : Set String}

/-- No tuple and no NaN is inside the object, but for the items of dictionaries at some keys. -/
inductive Plain (ignored : Set String) : Val F → Prop where
  | none : Plain ignored .none
  | primitive {v : Val F} : v.isPrimitive → v ≠ .float JsonFloat.nan → Plain ignored v
  | list {xs : List (Val F)} : (∀ x ∈ xs, Plain ignored x) → Plain ignored (.list xs)
  | dict {d : List (String × Val F)} : (∀ p ∈ d, p.1 ∉ ignored → Plain ignored p.2) →
      Plain ignored (.dict d)

theorem plain_primitive_iff {v : Val F} (hv : v.isPrimitive) :
    Plain ignored v ↔ v ≠ .float JsonFloat.nan := by
  refine ⟨fun h => ?_, .primitive hv⟩
  cases h with
  | none | list | dict => cases hv
  | primitive _ h => exact h

theorem plain_list_iff {xs : List (Val F)} :
    Plain ignored (.list xs) ↔ ∀ x ∈ xs, Plain ignored x := by
  refine ⟨fun h => ?_, .list⟩
  cases h with
  | primitive h => cases h
  | list h => exact h

theorem not_plain_tuple (xs : List (Val F)) : ¬ Plain ignored (.tuple xs) := by
  intro h
  cases h with
  | primitive h => cases h

theorem plain_dict_iff {d : Fields F} :
    Plain ignored (.dict d) ↔ ∀ p ∈ d, p.1 ∉ ignored → Plain ignored p.2 := by
  refine ⟨fun h => ?_, .dict⟩
  cases h with
  | primitive h => cases h
  | dict h => exact h

theorem Plain.mono {ignored' : Set String} (hsub : ignored ⊆ ignored') {v : Val F}
    (h : Plain ignored v) : Plain ignored' v := by
  induction h with
  | none => exact .none
  | primitive hv hnan => exact .primitive hv hnan
  | list _ ih => exact .list ih
  | dict _ ih => exact .dict fun p hp hk => ih p hp fun hmem => hk (hsub hmem)

end Val

namespace Val

variable {F : Type} [FloatEq F]

theorem eqItems_listedItems {xs : List (Val F)} :
    eqItems xs (listedItems xs) ↔ ∀ x ∈ xs, eq x (listed x) := by
  induction xs with
  | nil => simp [listedItems, eqItems]
  | cons x xs ih => rw [listedItems, eqItems, Bool.and_eq_true, ih, List.forall_mem_cons]

theorem eqFields_iff {d e : Fields F} :
    eqFields d e ↔ ∀ p ∈ d, ∃ y, Dict.get? e p.1 = some y ∧ eq p.2 y := by
  induction d with
  | nil => simp [eqFields]
  | cons p d ih =>
    rw [eqFields, Bool.and_eq_true, ih, List.forall_mem_cons]
    refine and_congr ?_ Iff.rfl
    cases Dict.get? e p.1 with
    | none => simp
    | some y => simp

theorem eqFields_listedFields {d : Fields F} (hd : (Dict.keys d).Nodup) :
    eqFields d (listedFields d) ↔ ∀ p ∈ d, eq p.2 (listed p.2) := by
  rw [eqFields_iff]
  refine forall₂_congr fun p hp => ?_
  rw [Json.get?_listedFields, Dict.get?_of_mem hd hp, Option.map_some]
  exact ⟨fun ⟨_, heq, h⟩ => Option.some_inj.mp heq ▸ h, fun h => ⟨_, rfl, h⟩⟩

/-- **An object is equal to what JSON makes of it** exactly if no tuple and no NaN is in it. -/
theorem eq_listed_iff {v : Val F} (hv : v.Keyed) : eq v (listed v) ↔ Plain ∅ v := by
  induction hv with
  | none => exact ⟨fun _ => .none, fun _ => rfl⟩
  | @primitive v hprim =>
    rw [plain_primitive_iff hprim, Json.listed_of_isPrimitive hprim]
    cases v with
    | none | list | tuple | dict => cases hprim
    | bool | int | str => simp [eq, integral]
    | float x => rw [eq, FloatEq.floatEq_self_iff, Ne, Ne, Val.float.injEq]
  | list _ ih =>
    rw [listed, eq, eqItems_listedItems, plain_list_iff]
    exact forall₂_congr ih
  | @tuple xs _ _ =>
    refine ⟨fun h => ?_, fun h => absurd h (not_plain_tuple xs)⟩
    rw [listed, eq] at h
    · simp [integral] at h
    all_goals nofun
  | @dict d hkeys _ ih =>
    have hlen : (listedFields d).length = d.length := by
      rw [Json.listedFields_eq_map, List.length_map]
    rw [listed, eq, hlen, BEq.rfl, Bool.true_and, eqFields_listedFields hkeys, plain_dict_iff]
    exact ⟨fun h p hp _ => (ih p hp).mp (h p hp),
      fun h p hp => (ih p hp).mpr (h p hp (Set.notMem_empty _))⟩

end Val
end LdmsTest
