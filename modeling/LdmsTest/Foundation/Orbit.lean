import Mathlib.Data.Set.Finite.Lattice
import Mathlib.Data.Set.Finite.Range

/-!
# Endless runs of a partial step

A deterministic system is a partial function `step : α → Option α`.  Its run from `a` stops at
the first state without a successor.  `Endless` says that it does not stop.

Two things keep a run going for ever: it comes back to a state it has been in (`Cyclic`), or
its states grow beyond every bound (`Unbounded`).  When only finitely many reachable states lie
below each size these are the only two (`endless_iff`), by the pigeonhole principle.
-/

namespace LdmsTest
namespace Orbit

variable {α : Type*} (step : α → Option α)

/-- The state after `n` steps, if there are that many. -/
def iter : ℕ → α → Option α
  | 0, a => some a
  | n + 1, a => (iter n a).bind step

/-- The run never stops. -/
def Endless (a : α) : Prop :=
  ∀ n, (iter step n a).isSome

/-- The run comes back to a state. -/
def Cyclic (a : α) : Prop :=
  ∃ i j b, i < j ∧ iter step i a = some b ∧ iter step j a = some b

/-- The run meets states of every size. -/
def Unbounded (size : α → ℕ) (a : α) : Prop :=
  ∀ N, ∃ n b, iter step n a = some b ∧ N < size b

variable {step}

@[simp] theorem iter_zero (a : α) : iter step 0 a = some a := rfl

theorem iter_succ (n : ℕ) (a : α) : iter step (n + 1) a = (iter step n a).bind step := rfl

/-- Taking the first step first. -/
theorem iter_succ' (n : ℕ) (a : α) : iter step (n + 1) a = (step a).bind (iter step n) := by
  induction n with
  | zero =>
    rw [iter_succ, iter_zero, Option.bind_some]
    cases step a <;> rfl
  | succ n ih =>
    rw [iter_succ, ih]
    cases step a with
    | none => rfl
    | some b => rfl

theorem iter_add (m n : ℕ) (a : α) :
    iter step (m + n) a = (iter step m a).bind (iter step n) := by
  induction n with
  | zero =>
    rw [Nat.add_zero]
    cases iter step m a <;> rfl
  | succ n ih =>
    rw [← Nat.add_assoc, iter_succ, ih]
    cases iter step m a with
    | none => rfl
    | some b => rfl

/-- A run that has reached step `n` has reached every earlier one. -/
theorem isSome_iter_of_le {m n : ℕ} {a : α} (h : (iter step n a).isSome) (hmn : m ≤ n) :
    (iter step m a).isSome := by
  obtain ⟨k, rfl⟩ := Nat.exists_eq_add_of_le hmn
  rw [iter_add] at h
  cases hm : iter step m a with
  | none => rw [hm] at h; cases h
  | some b => rfl

/-- A run that stops, stops in a state without a successor. -/
theorem exists_last_of_not_endless {a : α} (h : ¬ Endless step a) :
    ∃ n b, iter step n a = some b ∧ step b = none := by
  obtain ⟨n, hn⟩ := not_forall.mp h
  induction n with
  | zero => exact absurd rfl hn
  | succ n ih =>
    cases hb : iter step n a with
    | none => exact ih (by simp [hb])
    | some b =>
      refine ⟨n, b, hb, ?_⟩
      rw [iter_succ, hb, Option.bind_some] at hn
      simpa using hn

theorem not_endless_of_last {n : ℕ} {a b : α} (hb : iter step n a = some b)
    (hlast : step b = none) : ¬ Endless step a := by
  intro h
  have hn := h (n + 1)
  rw [iter_succ, hb, Option.bind_some, hlast] at hn
  cases hn

/-- One step into an endless run is an endless run. -/
theorem endless_iff_of_step {a b : α} (h : step a = some b) :
    Endless step a ↔ Endless step b := by
  constructor
  · intro ha n
    have hn := ha (n + 1)
    rwa [iter_succ', h, Option.bind_some] at hn
  · intro hb n
    refine isSome_iter_of_le (n := n + 1) ?_ (Nat.le_succ n)
    rw [iter_succ', h, Option.bind_some]
    exact hb n

/-- An endless run takes a first step. -/
theorem Endless.exists_step {a : α} (h : Endless step a) :
    ∃ b, step a = some b ∧ Endless step b := by
  obtain ⟨c, hc⟩ := Option.isSome_iff_exists.mp (h 1)
  rw [iter_succ'] at hc
  obtain ⟨b, hb, -⟩ := Option.bind_eq_some_iff.mp hc
  exact ⟨b, hb, (endless_iff_of_step hb).mp h⟩

/-! ## Where a run stops -/

variable (step) in
/-- The run from `a` stops at `b`. -/
inductive StopsAt : α → α → Prop where
  | here {a : α} : step a = none → StopsAt a a
  | next {a b c : α} : step a = some b → StopsAt b c → StopsAt a c

theorem StopsAt.last {a b : α} (h : StopsAt step a b) : step b = none := by
  induction h with
  | here h => exact h
  | next _ _ ih => exact ih

theorem StopsAt.unique {a b c : α} (hb : StopsAt step a b) (hc : StopsAt step a c) : b = c := by
  induction hb with
  | here hb =>
    cases hc with
    | here => rfl
    | next hc => rw [hb] at hc; cases hc
  | next hb _ ih =>
    cases hc with
    | here hc => rw [hb] at hc; cases hc
    | next hc hrest =>
      obtain rfl := Option.some_inj.mp (hb.symm.trans hc)
      exact ih hrest

theorem StopsAt.not_endless {a b : α} (h : StopsAt step a b) : ¬ Endless step a := by
  induction h with
  | here h => exact not_endless_of_last (iter_zero _) h
  | next h _ ih => rwa [endless_iff_of_step h]

theorem stopsAt_of_iter {n : ℕ} {a b : α} (hn : iter step n a = some b) (hlast : step b = none) :
    StopsAt step a b := by
  induction n generalizing a with
  | zero =>
    obtain rfl := Option.some_inj.mp hn
    exact .here hlast
  | succ n ih =>
    rw [iter_succ'] at hn
    obtain ⟨a', ha', hn⟩ := Option.bind_eq_some_iff.mp hn
    exact .next ha' (ih hn)

/-- **A run stops somewhere, or it is endless.** -/
theorem exists_stopsAt_of_not_endless {a : α} (h : ¬ Endless step a) :
    ∃ b, StopsAt step a b := by
  obtain ⟨n, b, hn, hlast⟩ := exists_last_of_not_endless h
  exact ⟨b, stopsAt_of_iter hn hlast⟩

/-! ## The two ways to run for ever -/

/-- Once around the cycle, and again. -/
theorem iter_of_cycle {i p : ℕ} {a b : α} (hi : iter step i a = some b)
    (hp : iter step (i + p) a = some b) (m : ℕ) : iter step (i + m * p) a = some b := by
  have hround : iter step p b = some b := by
    rwa [iter_add, hi, Option.bind_some] at hp
  induction m with
  | zero => simpa using hi
  | succ m ih => rw [Nat.succ_mul, ← Nat.add_assoc, iter_add, ih, Option.bind_some, hround]

theorem Cyclic.endless {a : α} (h : Cyclic step a) : Endless step a := by
  obtain ⟨i, j, b, hij, hi, hj⟩ := h
  obtain ⟨p, rfl⟩ := Nat.exists_eq_add_of_lt hij
  intro n
  have hn := iter_of_cycle hi (p := p + 1) (by rwa [← Nat.add_assoc]) n
  refine isSome_iter_of_le (n := i + n * (p + 1)) (by rw [hn]; rfl) ?_
  calc n ≤ n * (p + 1) := Nat.le_mul_of_pos_right n (Nat.succ_pos p)
    _ ≤ i + n * (p + 1) := Nat.le_add_left _ _

/-- A run that stops visits finitely many states, so their sizes are bounded. -/
theorem Unbounded.endless {size : α → ℕ} {a : α} (h : Unbounded step size a) :
    Endless step a := by
  intro n
  by_contra hn
  have hbound : ∃ N, ∀ m < n, ∀ b, iter step m a = some b → size b ≤ N := by
    clear hn
    induction n with
    | zero => exact ⟨0, fun m hm => absurd hm (Nat.not_lt_zero m)⟩
    | succ n ih =>
      obtain ⟨N, hN⟩ := ih
      refine ⟨N + ((iter step n a).map size).getD 0, fun m hm b hb => ?_⟩
      rcases Nat.lt_succ_iff_lt_or_eq.mp hm with hm | rfl
      · exact (hN m hm b hb).trans (Nat.le_add_right _ _)
      · rw [hb]
        exact Nat.le_add_left _ _
  obtain ⟨N, hN⟩ := hbound
  obtain ⟨m, b, hb, hlt⟩ := h N
  have hmn : m < n := by
    by_contra hle
    exact hn (isSome_iter_of_le (by rw [hb]; rfl) (Nat.le_of_not_lt hle))
  exact absurd hlt (Nat.not_lt_of_le (hN m hmn b hb))

/-- **The two ways to run for ever.**  When only finitely many states of the run lie below each
size, an endless run is one that repeats a state or grows without bound. -/
theorem endless_iff {size : α → ℕ} {a : α}
    (hfin : ∀ N, {b | (∃ n, iter step n a = some b) ∧ size b ≤ N}.Finite) :
    Endless step a ↔ Cyclic step a ∨ Unbounded step size a := by
  constructor
  · intro hend
    by_contra hno
    obtain ⟨hcyc, hunb⟩ := not_or.mp hno
    obtain ⟨N, hN⟩ := not_forall.mp hunb
    have hsize : ∀ n b, iter step n a = some b → size b ≤ N := fun n b hb =>
      Nat.le_of_not_lt fun hlt => hN ⟨n, b, hb, hlt⟩
    choose state hstate using fun n => Option.isSome_iff_exists.mp (hend n)
    -- the states are pairwise different, so they cannot all lie in one finite set
    have hinj : Function.Injective state := by
      intro i j hij
      by_contra hne
      rcases Nat.lt_or_gt_of_ne hne with h | h
      · exact hcyc ⟨i, j, _, h, hstate i, hij ▸ hstate j⟩
      · exact hcyc ⟨j, i, _, h, hstate j, hij ▸ hstate i⟩
    have hmem : ∀ n, state n ∈ {b | (∃ n, iter step n a = some b) ∧ size b ≤ N} := fun n =>
      ⟨⟨n, hstate n⟩, hsize n _ (hstate n)⟩
    exact Set.infinite_of_injective_forall_mem hinj hmem (hfin N)
  · rintro (h | h)
    · exact h.endless
    · exact h.endless

/-- In a finite set of states an endless run is one that repeats a state. -/
theorem endless_iff_cyclic {a : α} {S : Set α} (hS : S.Finite)
    (hmem : ∀ n b, iter step n a = some b → b ∈ S) : Endless step a ↔ Cyclic step a := by
  have hfin : ∀ N, {b | (∃ n, iter step n a = some b) ∧ (fun _ => 0) b ≤ N}.Finite :=
    fun N => hS.subset fun b ⟨⟨n, hn⟩, _⟩ => hmem n b hn
  rw [endless_iff hfin]
  constructor
  · rintro (h | h)
    · exact h
    · obtain ⟨n, b, -, hlt⟩ := h 0
      exact absurd hlt (Nat.lt_irrefl 0)
  · exact Or.inl

end Orbit
end LdmsTest
