import Mathlib.Data.List.Count
import Mathlib.Tactic.Linarith

/-!
# Greedy choices

Jobs are given to hosts, one after the other, each to a host whose load is least at that moment.

* `loadAfter`: the load of a host after some choices.
* `Greedy`: every choice is least loaded at its moment.
* `Greedy.le_add_one`: in the end, a host that was chosen has at most one job more than any other.
-/

namespace LdmsTest

variable {η : Type*} [DecidableEq η]

/-- The load of a host after choices, where it was `load` before. -/
def loadAfter (load : η → ℕ) (chosen : List η) (h : η) : ℕ :=
  load h + chosen.count h

/-- **Every choice is least loaded** at its moment. -/
def Greedy (hosts : List η) (load : η → ℕ) (chosen : List η) : Prop :=
  ∀ pre h post, chosen = pre ++ h :: post →
    h ∈ hosts ∧ ∀ h' ∈ hosts, loadAfter load pre h ≤ loadAfter load pre h'

@[simp] theorem loadAfter_nil (load : η → ℕ) : loadAfter load [] = load := by
  funext h
  rw [loadAfter, List.count_nil, Nat.add_zero]

theorem loadAfter_append (load : η → ℕ) (pre post : List η) :
    loadAfter load (pre ++ post) = loadAfter (loadAfter load pre) post := by
  funext h
  rw [loadAfter, loadAfter, loadAfter, List.count_append, Nat.add_assoc]

theorem loadAfter_singleton_self (load : η → ℕ) (h : η) : loadAfter load [h] h = load h + 1 := by
  rw [loadAfter, List.count_singleton_self]

theorem loadAfter_singleton_of_ne (load : η → ℕ) {h h' : η} (hne : h' ≠ h) :
    loadAfter load [h] h' = load h' := by
  rw [loadAfter, List.count_singleton, if_neg (by simpa using hne.symm), Nat.add_zero]

theorem load_le_loadAfter (load : η → ℕ) (chosen : List η) (h : η) :
    load h ≤ loadAfter load chosen h :=
  Nat.le_add_right _ _

theorem Greedy.nil (hosts : List η) (load : η → ℕ) : Greedy hosts load [] := by
  intro pre h post heq
  exact absurd heq (by simp)

/-- A least loaded host is chosen first. -/
theorem Greedy.cons {hosts : List η} {load : η → ℕ} {h : η} {chosen : List η} (hh : h ∈ hosts)
    (hmin : ∀ h' ∈ hosts, load h ≤ load h') (hrest : Greedy hosts (loadAfter load [h]) chosen) :
    Greedy hosts load (h :: chosen) := by
  intro pre g post heq
  rcases pre with _ | ⟨p, pre⟩
  · obtain ⟨rfl, -⟩ := List.cons.inj heq
    rw [loadAfter_nil]
    exact ⟨hh, hmin⟩
  · obtain ⟨rfl, htail⟩ := List.cons.inj heq
    rw [← List.singleton_append, loadAfter_append]
    exact hrest pre g post htail

/-- **In the end**, a host that was chosen has at most one job more than any other: it had no more
when it was chosen last. -/
theorem Greedy.le_add_one {hosts : List η} {load : η → ℕ} {chosen : List η}
    (hgreedy : Greedy hosts load chosen) {h h' : η} (hh : h ∈ chosen) (hh' : h' ∈ hosts) :
    loadAfter load chosen h ≤ loadAfter load chosen h' + 1 := by
  obtain ⟨post, pre, hsplit, hnot⟩ := List.eq_append_cons_of_mem (List.mem_reverse.mpr hh)
  have hchosen : chosen = pre.reverse ++ h :: post.reverse := by
    rw [← List.reverse_reverse chosen, hsplit, List.reverse_append, List.reverse_cons,
      List.append_assoc, List.singleton_append]
  have hle := (hgreedy _ _ _ hchosen).2 h' hh'
  have hlast : post.reverse.count h = 0 :=
    List.count_eq_zero.mpr fun hmem => hnot (List.mem_reverse.mp hmem)
  calc loadAfter load chosen h
      = loadAfter load pre.reverse h + 1 := by
        rw [hchosen, ← List.singleton_append, ← List.append_assoc, loadAfter_append,
          loadAfter_append, loadAfter, hlast, Nat.add_zero, loadAfter_singleton_self]
    _ ≤ loadAfter load pre.reverse h' + 1 := Nat.add_le_add_right hle 1
    _ ≤ loadAfter load chosen h' + 1 := by
        rw [hchosen, loadAfter_append]
        exact Nat.add_le_add_right (load_le_loadAfter _ _ _) 1

end LdmsTest
