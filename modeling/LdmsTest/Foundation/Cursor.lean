import Mathlib.Data.List.Basic
import Mathlib.Data.List.Range

/-!
# Stores through a pointer

A loop fills a buffer through a pointer that only moves up.  What it has done is the list of its
stores, each the index that it went to and what was stored there.

* `Cursor.push`, `Cursor.poke`: `*p++ = b` and `*p = b`.
* `Cursor.Wrote`: what has been stored, one cell after the other from the first on.
* `Cursor.Wrote.fits_iff`: such stores stay inside a buffer exactly if they fit into it.
-/

namespace LdmsTest

variable {α : Type*}

/-- A pointer into a buffer, and the stores made through it. -/
structure Cursor (α : Type*) where
  stores : List (ℕ × α)
  pos : ℕ

namespace Cursor

/-- A pointer to the first cell. -/
def start : Cursor α := ⟨[], 0⟩

/-- `*p++ = b` -/
def push (p : Cursor α) (b : α) : Cursor α :=
  ⟨p.stores ++ [(p.pos, b)], p.pos + 1⟩

/-- `*p = b` -/
def poke (p : Cursor α) (b : α) : Cursor α :=
  ⟨p.stores ++ [(p.pos, b)], p.pos⟩

/-- Every store went to a cell of a buffer of `n` cells. -/
def Inside (n : ℕ) (p : Cursor α) : Prop :=
  ∀ w ∈ p.stores, w.1 < n

instance (n : ℕ) (p : Cursor α) : Decidable (Inside n p) :=
  inferInstanceAs (Decidable (∀ w ∈ p.stores, w.1 < n))

/-- The elements of `bs` have been stored, each behind the one before it. -/
structure Wrote (bs : List α) (p : Cursor α) : Prop where
  elements : p.stores.map Prod.snd = bs
  indices : p.stores.map Prod.fst = List.range bs.length

theorem wrote_start : Wrote [] (start : Cursor α) := ⟨rfl, rfl⟩

theorem Wrote.poke {bs : List α} {p : Cursor α} (h : Wrote bs p) (hpos : p.pos = bs.length)
    (b : α) : Wrote (bs ++ [b]) (p.poke b) where
  elements := by
    show (p.stores ++ [(p.pos, b)]).map Prod.snd = bs ++ [b]
    rw [List.map_append, h.elements]
    rfl
  indices := by
    show (p.stores ++ [(p.pos, b)]).map Prod.fst = List.range (bs ++ [b]).length
    rw [List.map_append, h.indices, hpos, List.length_append, List.length_singleton,
      List.range_succ]
    rfl

theorem Wrote.push {bs : List α} {p : Cursor α} (h : Wrote bs p) (hpos : p.pos = bs.length)
    (b : α) : Wrote (bs ++ [b]) (p.push b) := by
  have hpoke := h.poke hpos b
  exact ⟨hpoke.elements, hpoke.indices⟩

/-- The pointer stands behind what it has stored. -/
theorem pos_push {bs : List α} {p : Cursor α} (hpos : p.pos = bs.length) (b : α) :
    (p.push b).pos = (bs ++ [b]).length := by
  simp [Cursor.push, hpos]

/-- **The stores stay inside** exactly if there is a cell for each of them. -/
theorem Wrote.fits_iff {bs : List α} {p : Cursor α} (h : Wrote bs p) (n : ℕ) :
    p.Inside n ↔ bs.length ≤ n := by
  have hmem : p.Inside n ↔ ∀ i ∈ p.stores.map Prod.fst, i < n := by
    simp only [Cursor.Inside, List.forall_mem_map]
  rw [hmem, h.indices]
  simp only [List.mem_range]
  constructor
  · intro hall
    by_contra hn
    have := hall n (by omega)
    omega
  · intro hle i hi
    omega

end Cursor
end LdmsTest
