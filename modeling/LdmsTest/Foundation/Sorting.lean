import LdmsTest.Foundation.Fuelled
import Mathlib.Data.List.Pairwise

/-!
# Sorting with a comparison that may raise

A stable sort that asks `x < y` of the items, where asking may raise.

* `sortBy`: the sort.
* `exists_sortBy`: it orders a list if no question about its items raises, and the answers are a
  strict weak order.
* `perm_of_sortBy`: whatever the answers are, items are neither lost nor made.
* `exists_sortBy_iff`: it raises when the items are not all of one class.
-/

namespace LdmsTest
namespace Sorting

variable {ε α : Type}

/-- The place of one more item in a sorted list, which is given from its end on. -/
def insertBy (lt : α → α → Except ε Bool) (x : α) : List α → Except ε (List α)
  | [] => pure [x]
  | y :: ys => do
    if ← lt x y then
      let ys ← insertBy lt x ys
      pure (y :: ys)
    else pure (x :: y :: ys)

/-- The sorted list. -/
def sortBy (lt : α → α → Except ε Bool) (xs : List α) : Except ε (List α) := do
  let ys ← xs.foldlM (fun ys x => insertBy lt x ys) []
  pure ys.reverse

/-- **The answers are a strict weak order** `r` on these items. -/
structure Decides (lt : α → α → Except ε Bool) (r : α → α → Prop) (xs : List α) : Prop where
  decides : ∀ x ∈ xs, ∀ y ∈ xs, lt x y = .ok true ∧ r x y ∨ lt x y = .ok false ∧ ¬ r x y
  asymm : ∀ x ∈ xs, ∀ y ∈ xs, r x y → ¬ r y x
  trans : ∀ x ∈ xs, ∀ y ∈ xs, ∀ z ∈ xs, ¬ r x y → ¬ r y z → ¬ r x z

variable {lt : α → α → Except ε Bool} {r : α → α → Prop} {xs : List α}

theorem Decides.exists_insertBy (h : Decides lt r xs) {x : α} (hx : x ∈ xs) {ys : List α}
    (hys : ∀ y ∈ ys, y ∈ xs) (hsorted : ys.Pairwise fun a b => ¬ r a b) :
    ∃ zs, insertBy lt x ys = .ok zs ∧ zs.Perm (x :: ys) ∧ zs.Pairwise fun a b => ¬ r a b := by
  induction ys with
  | nil => exact ⟨[x], rfl, .refl _, List.pairwise_singleton _ _⟩
  | cons y ys ih =>
    obtain ⟨hy, hys⟩ := List.forall_mem_cons.mp hys
    obtain ⟨hhead, htail⟩ := List.pairwise_cons.mp hsorted
    rcases h.decides x hx y hy with ⟨hlt, hr⟩ | ⟨hlt, hr⟩
    · obtain ⟨zs, hzs, hperm, hzsorted⟩ := ih hys htail
      refine ⟨y :: zs, ?_, (hperm.cons y).trans (List.Perm.swap x y ys), ?_⟩
      · rw [insertBy, hlt, ok_bind, if_pos rfl, hzs]
        rfl
      · refine List.pairwise_cons.mpr ⟨fun z hz => ?_, hzsorted⟩
        rcases List.mem_cons.mp (hperm.mem_iff.mp hz) with rfl | hz
        · exact h.asymm _ hx _ hy hr
        · exact hhead z hz
    · refine ⟨x :: y :: ys, ?_, .refl _, ?_⟩
      · rw [insertBy, hlt, ok_bind, if_neg Bool.false_ne_true]
        rfl
      · refine List.pairwise_cons.mpr ⟨fun z hz => ?_, hsorted⟩
        rcases List.mem_cons.mp hz with rfl | hz
        · exact hr
        · exact h.trans x hx y hy z (hys z hz) hr (hhead z hz)

/-- **The list is sorted**: nothing is below what stands before it. -/
theorem Decides.exists_sortBy (h : Decides lt r xs) :
    ∃ zs, sortBy lt xs = .ok zs ∧ zs.Perm xs ∧ zs.Pairwise fun a b => ¬ r b a := by
  have hfold : ∀ l ys : List α, (∀ x ∈ l, x ∈ xs) → (∀ y ∈ ys, y ∈ xs) →
      ys.Pairwise (fun a b => ¬ r a b) → ∃ zs, l.foldlM (fun ys x => insertBy lt x ys) ys = .ok zs ∧
        zs.Perm (l ++ ys) ∧ zs.Pairwise fun a b => ¬ r a b := by
    intro l
    induction l with
    | nil => exact fun ys _ _ hsorted => ⟨ys, rfl, .refl _, hsorted⟩
    | cons x l ih =>
      intro ys hl hys hsorted
      obtain ⟨hx, hl⟩ := List.forall_mem_cons.mp hl
      obtain ⟨zs, hzs, hperm, hzsorted⟩ := h.exists_insertBy hx hys hsorted
      have hmem : ∀ z ∈ zs, z ∈ xs := fun z hz =>
        (List.mem_cons.mp (hperm.mem_iff.mp hz)).elim (fun heq => heq ▸ hx) (hys z)
      obtain ⟨ws, hws, hperm', hwsorted⟩ := ih zs hl hmem hzsorted
      refine ⟨ws, by rw [List.foldlM_cons, hzs, ok_bind, hws], ?_, hwsorted⟩
      exact hperm'.trans ((hperm.append_left l).trans List.perm_middle)
  obtain ⟨zs, hzs, hperm, hsorted⟩ := hfold xs [] (fun _ hx => hx) (List.forall_mem_nil _) .nil
  rw [List.append_nil] at hperm
  refine ⟨zs.reverse, by rw [sortBy, hzs]; rfl, (List.reverse_perm zs).trans hperm, ?_⟩
  exact List.pairwise_reverse.mpr hsorted

/-! ## When sorting raises -/

theorem perm_of_insertBy {x : α} {ys zs : List α} (h : insertBy lt x ys = .ok zs) :
    zs.Perm (x :: ys) := by
  induction ys generalizing zs with
  | nil =>
    cases h
    exact .refl _
  | cons y ys ih =>
    rw [insertBy] at h
    obtain ⟨b, -, h⟩ := exists_of_bind_ok h
    cases b with
    | true =>
      obtain ⟨ws, hws, h⟩ := exists_of_bind_ok h
      cases h
      exact ((ih hws).cons y).trans (List.Perm.swap x y ys)
    | false =>
      cases h
      exact .refl _

/-- **The sorted list has the items of the list.** -/
theorem perm_of_sortBy {ys : List α} (h : sortBy lt xs = .ok ys) : ys.Perm xs := by
  have hfold : ∀ l ys zs : List α, l.foldlM (fun ys x => insertBy lt x ys) ys = .ok zs →
      zs.Perm (l ++ ys) := by
    intro l
    induction l with
    | nil =>
      intro ys zs h
      cases h
      exact .refl _
    | cons x l ih =>
      intro ys zs h
      rw [List.foldlM_cons] at h
      obtain ⟨ws, hws, h⟩ := exists_of_bind_ok h
      exact (ih ws zs h).trans (((perm_of_insertBy hws).append_left l).trans List.perm_middle)
  obtain ⟨zs, hzs, h⟩ := exists_of_bind_ok h
  cases h
  have hperm := hfold xs [] zs hzs
  rw [List.append_nil] at hperm
  exact (List.reverse_perm zs).trans hperm

section Classes

variable {C : α → α → Prop} (hC : ∀ x y, (∃ b, lt x y = .ok b) ↔ C x y)
  (hsymm : ∀ x y, C x y → C y x) (htrans : ∀ x y z, C x y → C y z → C x z)

include hC htrans in
theorem exists_insertBy_iff {x : α} {ys : List α} (hys : ys.Pairwise C) :
    (∃ zs, insertBy lt x ys = .ok zs) ↔ ∀ y ∈ ys, C x y := by
  induction ys with
  | nil => exact ⟨fun _ => nofun, fun _ => ⟨[x], rfl⟩⟩
  | cons y ys ih =>
    obtain ⟨hhead, htail⟩ := List.pairwise_cons.mp hys
    constructor
    · rintro ⟨zs, hzs⟩
      rw [insertBy] at hzs
      obtain ⟨b, hb, -⟩ := exists_of_bind_ok hzs
      have hxy : C x y := (hC x y).mp ⟨b, hb⟩
      exact List.forall_mem_cons.mpr ⟨hxy, fun z hz => htrans x y z hxy (hhead z hz)⟩
    · intro hall
      obtain ⟨hxy, hall⟩ := List.forall_mem_cons.mp hall
      obtain ⟨b, hb⟩ := (hC x y).mpr hxy
      obtain ⟨zs, hzs⟩ := (ih htail).mpr hall
      rw [insertBy, hb, ok_bind, hzs]
      cases b with
      | true => exact ⟨y :: zs, rfl⟩
      | false => exact ⟨x :: y :: ys, rfl⟩

include hC hsymm htrans in
/-- **Sorting raises** exactly when the items are not all of one class, where two items can be
compared when they are of one class. -/
theorem exists_sortBy_iff : (∃ ys, sortBy lt xs = .ok ys) ↔ xs.Pairwise C := by
  have hfold : ∀ l ys : List α, ys.Pairwise C →
      ((∃ zs, l.foldlM (fun ys x => insertBy lt x ys) ys = .ok zs) ↔ (l ++ ys).Pairwise C) := by
    intro l
    induction l with
    | nil => exact fun ys hys => ⟨fun _ => hys, fun _ => ⟨ys, rfl⟩⟩
    | cons x l ih =>
      intro ys hys
      have hperm {zs : List α} (hzs : insertBy lt x ys = .ok zs) :
          (l ++ zs).Perm (x :: l ++ ys) :=
        ((perm_of_insertBy hzs).append_left l).trans List.perm_middle
      have hpairwise {zs : List α} (hzs : insertBy lt x ys = .ok zs) : zs.Pairwise C := by
        refine ((perm_of_insertBy hzs).pairwise_iff (hsymm _ _)).mpr ?_
        exact List.pairwise_cons.mpr ⟨(exists_insertBy_iff hC htrans hys).mp ⟨zs, hzs⟩, hys⟩
      rw [List.foldlM_cons]
      constructor
      · rintro ⟨ws, hws⟩
        obtain ⟨zs, hzs, hws⟩ := exists_of_bind_ok hws
        refine ((hperm hzs).pairwise_iff (hsymm _ _)).mp ?_
        exact (ih zs (hpairwise hzs)).mp ⟨ws, hws⟩
      · intro hall
        have hx : ∀ y ∈ ys, C x y := fun y hy =>
          (List.pairwise_cons.mp hall).1 y (List.mem_append_right l hy)
        obtain ⟨zs, hzs⟩ := (exists_insertBy_iff hC htrans hys).mpr hx
        rw [hzs, ok_bind]
        exact (ih zs (hpairwise hzs)).mpr (((hperm hzs).pairwise_iff (hsymm _ _)).mpr hall)
  have h := hfold xs [] .nil
  rw [List.append_nil] at h
  rw [← h]
  constructor
  · rintro ⟨ys, hys⟩
    obtain ⟨zs, hzs, -⟩ := exists_of_bind_ok hys
    exact ⟨zs, hzs⟩
  · rintro ⟨zs, hzs⟩
    exact ⟨zs.reverse, by rw [sortBy, hzs]; rfl⟩

end Classes

end Sorting
end LdmsTest
