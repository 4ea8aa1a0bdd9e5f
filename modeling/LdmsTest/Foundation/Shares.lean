import Mathlib.Data.List.Nodup
import Mathlib.Data.List.Perm.Subperm
import Mathlib.Data.List.Flatten

/-!
# Dealing out a list in equal shares

`n` takers get `q` items each, in a row, and what is left at the end goes to nobody.

* `share`: the items of one taker.
* `flatMap_share`: the items that are dealt out are the first `n * q`.
* `nodup_of_exactlyOnce`: where each item of a list is in another one once, and nothing else is, no
  two items are equal.
-/

namespace LdmsTest
namespace Shares

variable {α : Type*}

/-- The items of taker `i`. -/
def share (l : List α) (q i : ℕ) : List α :=
  (l.drop (i * q)).take q

/-- **The items that are dealt out** are the first ones. -/
theorem flatMap_share (l : List α) (q : ℕ) : ∀ n,
    (List.range n).flatMap (share l q) = l.take (n * q)
  | 0 => by rw [List.range_zero, List.flatMap_nil, Nat.zero_mul, List.take_zero]
  | n + 1 => by
    rw [List.range_succ, List.flatMap_append, flatMap_share l q n, List.flatMap_singleton, share,
      Nat.succ_mul, List.take_add]

theorem length_share {l : List α} {q i n : ℕ} (hi : i < n) (hn : n * q ≤ l.length) :
    (share l q i).length = q := by
  have hle : (i + 1) * q ≤ n * q := Nat.mul_le_mul_right q hi
  rw [Nat.succ_mul] at hle
  rw [share, List.length_take, List.length_drop]
  omega

/-- The items of a taker, one by one. -/
theorem getElem?_share {l : List α} {q i j : ℕ} (hj : j < q) :
    (share l q i)[j]? = l[i * q + j]? := by
  rw [share, List.getElem?_take, if_pos hj, List.getElem?_drop]

/-- **Each item once.**  Where each item of `l` is in `m` once, and `m` has as many items, all from
`l`, no two items of `l` are equal. -/
theorem nodup_of_exactlyOnce [DecidableEq α] {l m : List α} (hlen : m.length = l.length)
    (hsub : m ⊆ l) (honce : ∀ x ∈ l, m.count x = 1) : l.Nodup := by
  have hm : m.Nodup := List.nodup_iff_count_le_one.mpr fun x => by
    by_cases hx : x ∈ m
    · exact Nat.le_of_eq (honce x (hsub hx))
    · rw [List.count_eq_zero.mpr hx]
      exact Nat.zero_le 1
  exact ((hm.subperm hsub).perm_of_length_le (Nat.le_of_eq hlen.symm)).nodup_iff.mp hm

end Shares
end LdmsTest
