import Mathlib.Data.Finset.Card
import Mathlib.Logic.Function.Basic

/-!
# Allocations from a pool

A pool of resources, and which of them each owner holds.  An `Allocation` cannot be built unless
what is held is in the pool and is held by one owner only.

The operations are `give`, for resources that are free, and `release`.
-/

namespace LdmsTest

/-- **Who holds what**: parts of the pool, disjoint for different owners. -/
@[ext]
structure Allocation (ν : Type*) {α : Type*} (pool : Finset α) where
  held : ν → Option (Finset α)
  subset_pool : ∀ {c s}, held c = some s → s ⊆ pool
  disjoint : ∀ {c d s t}, c ≠ d → held c = some s → held d = some t → Disjoint s t

namespace Allocation

variable {ν α : Type*} {pool : Finset α}

/-- Nobody holds anything. -/
def empty (ν : Type*) (pool : Finset α) : Allocation ν pool where
  held _ := none
  subset_pool := nofun
  disjoint _ := nofun

open Classical in
/-- What nobody holds. -/
noncomputable def free (A : Allocation ν pool) : Finset α :=
  pool.filter fun x => ∀ c s, A.held c = some s → x ∉ s

theorem mem_free {A : Allocation ν pool} {x : α} :
    x ∈ A.free ↔ x ∈ pool ∧ ∀ c s, A.held c = some s → x ∉ s := by
  classical
  exact Finset.mem_filter

theorem notMem_of_mem_free {A : Allocation ν pool} {x : α} (h : x ∈ A.free) {c : ν}
    {s : Finset α} (hs : A.held c = some s) : x ∉ s :=
  (mem_free.mp h).2 c s hs

@[simp] theorem free_empty : (empty ν pool).free = pool :=
  Finset.ext fun _ => mem_free.trans (and_iff_left nofun)

variable [DecidableEq ν]

/-- The owner `c` gets free resources, instead of what it held. -/
def give (A : Allocation ν pool) (c : ν) (s : Finset α) (hs : s ⊆ A.free) :
    Allocation ν pool where
  held := Function.update A.held c (some s)
  subset_pool {d t} ht := by
    rw [Function.update_apply] at ht
    split at ht
    · obtain rfl := Option.some_inj.mp ht
      exact fun x hx => (mem_free.mp (hs hx)).1
    · exact A.subset_pool ht
  disjoint {d e t u} hde ht hu := by
    rw [Function.update_apply] at ht hu
    split at ht
    · next hd =>
      rw [if_neg fun he => hde (hd.trans he.symm)] at hu
      obtain rfl := Option.some_inj.mp ht
      exact Finset.disjoint_left.mpr fun x hx => notMem_of_mem_free (hs hx) hu
    · split at hu
      · obtain rfl := Option.some_inj.mp hu
        exact Finset.disjoint_right.mpr fun x hx => notMem_of_mem_free (hs hx) ht
      · exact A.disjoint hde ht hu

/-- The owner `c` holds nothing any more. -/
def release (A : Allocation ν pool) (c : ν) : Allocation ν pool where
  held := Function.update A.held c none
  subset_pool {d t} ht := by
    rw [Function.update_apply] at ht
    split at ht
    · cases ht
    · exact A.subset_pool ht
  disjoint {d e t u} hde ht hu := by
    rw [Function.update_apply] at ht hu
    split at ht
    · cases ht
    · split at hu
      · cases hu
      · exact A.disjoint hde ht hu

theorem held_give (A : Allocation ν pool) (c : ν) (s : Finset α) (hs : s ⊆ A.free) (d : ν) :
    (A.give c s hs).held d = if d = c then some s else A.held d :=
  Function.update_apply _ _ _ _

theorem held_release (A : Allocation ν pool) (c d : ν) :
    (A.release c).held d = if d = c then none else A.held d :=
  Function.update_apply _ _ _ _

/-- What may happen to an allocation. -/
inductive Step : Allocation ν pool → Allocation ν pool → Prop where
  | give {A : Allocation ν pool} {c : ν} {s : Finset α} (hc : A.held c = none)
      (hs : s ⊆ A.free) : Step A (A.give c s hs)
  | release (A : Allocation ν pool) (c : ν) : Step A (A.release c)
  | stay (A : Allocation ν pool) : Step A A

end Allocation
end LdmsTest
