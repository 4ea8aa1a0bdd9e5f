import Mathlib.Algebra.GroupWithZero.Nat
import Mathlib.Data.List.Basic
import Mathlib.Data.List.Count

/-!
# Lists joined by a separator

Lists are joined with a separator between them.  They can be told from what is joined if none of
them holds the separator, and two neighbours cannot be told apart if one of them does.

* `count_intercalate`: how often the separator occurs.
* `eq_of_intercalate_eq`: pieces without the separator are the only ones of their number.
* `exists_append_cons_eq`: a separator inside a piece moves the cut to its neighbour.
-/

namespace LdmsTest
namespace Joined

variable {α : Type*} [DecidableEq α]

theorem count_intercalate (x : α) {fs : List (List α)} (hne : fs ≠ []) :
    ([x].intercalate fs).count x + 1 = (fs.map (List.count x)).sum + fs.length := by
  induction fs with
  | nil => exact absurd rfl hne
  | cons f fs ih =>
    cases fs with
    | nil => simp
    | cons g gs =>
      have hcount := ih (List.cons_ne_nil g gs)
      rw [List.intercalate_cons_cons, List.count_append, List.count_append, List.map_cons,
        List.sum_cons, List.length_cons, List.count_singleton_self]
      omega

theorem sum_count_eq_zero_iff {x : α} {fs : List (List α)} :
    (fs.map (List.count x)).sum = 0 ↔ ∀ f ∈ fs, x ∉ f := by
  simp only [List.sum_eq_zero_iff_forall_eq_nat, List.forall_mem_map, List.count_eq_zero]

/-- **Pieces without the separator** are the only ones of their number that are joined so. -/
theorem eq_of_intercalate_eq {x : α} {fs gs : List (List α)} (hlen : gs.length = fs.length)
    (hfs : ∀ f ∈ fs, x ∉ f) (h : [x].intercalate gs = [x].intercalate fs) : gs = fs := by
  rcases eq_or_ne fs [] with rfl | hne
  · exact List.length_eq_zero_iff.mp hlen
  have hne' : gs ≠ [] := by
    rintro rfl
    exact hne (List.length_eq_zero_iff.mp hlen.symm)
  -- no more separators than there are between the pieces
  have hgs : ∀ g ∈ gs, x ∉ g := by
    have hcount := count_intercalate x hne
    have hcount' := count_intercalate x hne'
    have hzero := sum_count_eq_zero_iff.mpr hfs
    refine sum_count_eq_zero_iff.mp ?_
    rw [h] at hcount'
    omega
  calc
    gs = ([x].intercalate gs).splitOn x := (List.splitOn_intercalate x hgs hne').symm
    _ = ([x].intercalate fs).splitOn x := by rw [h]
    _ = fs := List.splitOn_intercalate x hfs hne

omit [DecidableEq α] in
/-- **A separator inside a piece**: the cut between the piece and its neighbour can be moved. -/
theorem exists_append_cons_eq {x : α} {f g : List α} (h : x ∈ f ∨ x ∈ g) :
    ∃ f' g', f' ≠ f ∧ f' ++ x :: g' = f ++ x :: g := by
  have hlen {a b c : List α} (hab : a.length < b.length) (hc : b = c) : a ≠ c := by
    rintro rfl
    rw [hc] at hab
    exact Nat.lt_irrefl _ hab
  rcases h with h | h
  · obtain ⟨f₁, f₂, rfl⟩ := List.append_of_mem h
    refine ⟨f₁, f₂ ++ x :: g, hlen ?_ rfl, ?_⟩
    · rw [List.length_append, List.length_cons]
      omega
    · rw [List.append_assoc, List.cons_append]
  · obtain ⟨g₁, g₂, rfl⟩ := List.append_of_mem h
    refine ⟨f ++ x :: g₁, g₂, (hlen ?_ rfl).symm, ?_⟩
    · rw [List.length_append, List.length_cons]
      omega
    · rw [List.append_assoc, List.cons_append]

end Joined
end LdmsTest
