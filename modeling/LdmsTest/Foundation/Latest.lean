import LdmsTest.Foundation.Dict
import Mathlib.Data.List.Induction

/-!
# The last item of each kind

A dictionary is filled with the items of a list, each under its kind, so that a later item takes the
place of an earlier one.  When the list is sorted, what is left of each kind is a greatest item.
-/

namespace LdmsTest
namespace Latest

variable {α κ : Type*} [DecidableEq κ] {kind : α → κ}

/-- The last item of each kind. -/
def lastOf (kind : α → κ) (xs : List α) : Dict κ α :=
  xs.foldl (fun d x => Dict.set d (kind x) x) []

theorem lastOf_concat (xs : List α) (x : α) :
    lastOf kind (xs ++ [x]) = Dict.set (lastOf kind xs) (kind x) x := by
  rw [lastOf, List.foldl_append]
  rfl

theorem nodup_keys_lastOf (xs : List α) : (Dict.keys (lastOf kind xs)).Nodup := by
  induction xs using List.reverseRecOn with
  | nil => exact List.nodup_nil
  | append_singleton xs x ih =>
    rw [lastOf_concat]
    exact Dict.nodup_keys_set ih _ _

/-- Every item that is left is an item of the list, under its kind. -/
theorem get?_lastOf {xs : List α} {k : κ} {x : α} (h : Dict.get? (lastOf kind xs) k = some x) :
    x ∈ xs ∧ kind x = k := by
  induction xs using List.reverseRecOn with
  | nil => cases h
  | append_singleton xs y ih =>
    rw [lastOf_concat, Dict.get?_set] at h
    split at h
    · next hk =>
      cases h
      exact ⟨List.mem_append_right _ (List.mem_singleton_self _), hk⟩
    · exact ⟨List.mem_append_left _ (ih h).1, (ih h).2⟩

/-- **What is left of a kind** stands behind the other items of the kind. -/
theorem exists_get?_lastOf {r : α → α → Prop} {xs : List α} (hrefl : ∀ x ∈ xs, r x x)
    (hsorted : xs.Pairwise r) {x : α} (hx : x ∈ xs) :
    ∃ y, Dict.get? (lastOf kind xs) (kind x) = some y ∧ r x y := by
  induction xs using List.reverseRecOn with
  | nil => cases hx
  | append_singleton xs y ih =>
    obtain ⟨hinit, -, hlast⟩ := List.pairwise_append.mp hsorted
    rw [lastOf_concat]
    by_cases hk : kind y = kind x
    · refine ⟨y, by rw [hk, Dict.get?_set_self], ?_⟩
      rcases List.mem_append.mp hx with hx | hx
      · exact hlast x hx y (List.mem_singleton_self y)
      · rw [List.mem_singleton.mp hx]
        exact hrefl y (List.mem_append_right _ (List.mem_singleton_self y))
    · rw [Dict.get?_set_of_ne _ _ hk]
      rcases List.mem_append.mp hx with hx | hx
      · exact ih (fun z hz => hrefl z (List.mem_append_left _ hz)) hinit hx
      · exact absurd (congrArg kind (List.mem_singleton.mp hx)).symm hk

/-- The kinds of the items that are left. -/
theorem map_kind_lastOf (xs : List α) :
    ((lastOf kind xs).map Prod.snd).map kind = Dict.keys (lastOf kind xs) := by
  rw [List.map_map, Dict.keys]
  refine List.map_congr_left fun p hp => ?_
  exact (get?_lastOf (Dict.get?_of_mem (nodup_keys_lastOf xs) hp)).2

end Latest
end LdmsTest
