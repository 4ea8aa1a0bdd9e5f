import Mathlib

/-!
# Lists of ranges

A list of pairs `(a, b)` stands for the set of points between `a` and `b`, both included
(`points`).  The list is *separated* when its ranges are nonempty and each ends before the next
one starts; then it is sorted, and no point is in two of its ranges.

For integers the points of a list can be listed (`listPoints`), without repetition when the
list is separated.
-/

namespace LdmsTest
namespace Ranges

section Order

variable {α : Type*} [LinearOrder α]

/-- The points of a list of ranges. -/
def points (es : List (α × α)) : Set α :=
  {x | ∃ e ∈ es, e.1 ≤ x ∧ x ≤ e.2}

/-- The ranges are nonempty, and each ends before the next one starts. -/
structure Separated (es : List (α × α)) : Prop where
  nonempty : ∀ e ∈ es, e.1 ≤ e.2
  pairwise : es.Pairwise fun e f => e.2 < f.1

theorem mem_points {es : List (α × α)} {x : α} :
    x ∈ points es ↔ ∃ e ∈ es, e.1 ≤ x ∧ x ≤ e.2 :=
  Iff.rfl

@[simp] theorem points_nil : points ([] : List (α × α)) = ∅ := by
  ext x
  simp [points]

theorem points_cons (e : α × α) (es : List (α × α)) :
    points (e :: es) = Set.Icc e.1 e.2 ∪ points es := by
  ext x
  simp [points]

theorem points_append (es fs : List (α × α)) : points (es ++ fs) = points es ∪ points fs := by
  ext x
  simp only [mem_points, List.mem_append, Set.mem_union, or_and_right, exists_or]

@[simp] theorem separated_nil : Separated ([] : List (α × α)) :=
  ⟨nofun, .nil⟩

theorem separated_cons_iff {e : α × α} {es : List (α × α)} :
    Separated (e :: es) ↔ e.1 ≤ e.2 ∧ (∀ f ∈ es, e.2 < f.1) ∧ Separated es := by
  constructor
  · rintro ⟨hne, hpair⟩
    rw [List.forall_mem_cons] at hne
    rw [List.pairwise_cons] at hpair
    exact ⟨hne.1, hpair.1, hne.2, hpair.2⟩
  · rintro ⟨he, hlt, hes⟩
    exact ⟨List.forall_mem_cons.mpr ⟨he, hes.nonempty⟩, List.pairwise_cons.mpr ⟨hlt, hes.pairwise⟩⟩

theorem separated_singleton {e : α × α} (h : e.1 ≤ e.2) : Separated [e] :=
  separated_cons_iff.mpr ⟨h, by simp, separated_nil⟩

theorem separated_append_iff {es fs : List (α × α)} :
    Separated (es ++ fs) ↔ Separated es ∧ Separated fs ∧ ∀ e ∈ es, ∀ f ∈ fs, e.2 < f.1 := by
  constructor
  · rintro ⟨hne, hpair⟩
    rw [List.forall_mem_append] at hne
    rw [List.pairwise_append] at hpair
    exact ⟨⟨hne.1, hpair.1⟩, ⟨hne.2, hpair.2.1⟩, hpair.2.2⟩
  · rintro ⟨hes, hfs, hlt⟩
    exact ⟨List.forall_mem_append.mpr ⟨hes.nonempty, hfs.nonempty⟩,
      List.pairwise_append.mpr ⟨hes.pairwise, hfs.pairwise, hlt⟩⟩

theorem lt_of_mem_points {es : List (α × α)} {x y : α} (hx : x ∈ points es)
    (h : ∀ e ∈ es, e.2 < y) : x < y := by
  obtain ⟨e, he, -, hle⟩ := hx
  exact hle.trans_lt (h e he)

theorem gt_of_mem_points {es : List (α × α)} {x y : α} (hx : x ∈ points es)
    (h : ∀ e ∈ es, y < e.1) : y < x := by
  obtain ⟨e, he, hle, -⟩ := hx
  exact (h e he).trans_le hle

/-- Two ranges without a common point: one ends before the other starts. -/
theorem lt_or_lt_of_disjoint {es fs : List (α × α)} (hes : Separated es) (hfs : Separated fs)
    (h : Disjoint (points es) (points fs)) {e f : α × α} (he : e ∈ es) (hf : f ∈ fs) :
    e.2 < f.1 ∨ f.2 < e.1 := by
  by_contra hno
  obtain ⟨hef, hfe⟩ := not_or.mp hno
  rw [not_lt] at hef hfe
  -- the later of the two starts would be a common point
  have hmax : max e.1 f.1 ∈ points es := ⟨e, he, le_max_left _ _, max_le (hes.nonempty e he) hef⟩
  have hmax' : max e.1 f.1 ∈ points fs :=
    ⟨f, hf, le_max_right _ _, max_le hfe (hfs.nonempty f hf)⟩
  exact Set.disjoint_left.mp h hmax hmax'

/-- **Sorting disjoint ranges** by where they start separates them. -/
theorem Separated.of_sorted {es : List (α × α)} (hne : ∀ e ∈ es, e.1 ≤ e.2)
    (hsorted : es.Pairwise fun e f => e.1 ≤ f.1)
    (hdisj : es.Pairwise fun e f => e.2 < f.1 ∨ f.2 < e.1) : Separated es := by
  refine ⟨hne, (hsorted.and hdisj).imp_of_mem fun {e f} he hf h => ?_⟩
  rcases h.2 with hlt | hlt
  · exact hlt
  · exact absurd (h.1.trans (hne f hf)) (not_le_of_gt hlt)

/-- **Overlapping neighbours leave no gap** between the start of the first and the end of the
last. -/
theorem mem_points_of_isChain {e : α × α} {es : List (α × α)}
    (h : (e :: es).IsChain fun e f => f.1 ≤ e.2) {x : α} (hx : e.1 ≤ x)
    (hx' : x ≤ (es.getLastD e).2) : x ∈ points (e :: es) := by
  induction es generalizing e with
  | nil => exact ⟨e, List.mem_cons_self, hx, hx'⟩
  | cons f es ih =>
    rw [points_cons]
    rcases le_or_gt x e.2 with hle | hlt
    · exact Or.inl ⟨hx, hle⟩
    · rw [List.isChain_cons_cons] at h
      rw [List.getLastD_cons] at hx'
      exact Or.inr (ih h.2 (h.1.trans hlt.le) hx')

theorem mem_points_flatten {ess : List (List (α × α))} {x : α} :
    x ∈ points ess.flatten ↔ ∃ es ∈ ess, x ∈ points es := by
  simp only [mem_points, List.mem_flatten]
  constructor
  · rintro ⟨e, ⟨es, hes, he⟩, hx⟩
    exact ⟨es, hes, e, he, hx⟩
  · rintro ⟨es, hes, e, he, hx⟩
    exact ⟨e, ⟨es, hes, he⟩, hx⟩

/-- In a separated list a point is in one range only. -/
theorem Separated.eq_of_mem {es : List (α × α)} (h : Separated es) {e f : α × α} (he : e ∈ es)
    (hf : f ∈ es) (hef : e.1 ≤ f.2) (hfe : f.1 ≤ e.2) : e = f := by
  have hsymm : Std.Symm fun e f : α × α => e.1 ≤ f.2 → f.1 ≤ e.2 → e = f :=
    ⟨fun e f h hfe hef => (h hef hfe).symm⟩
  refine h.pairwise.imp (fun {e f} hlt _ hfe => absurd hfe (not_le_of_gt hlt))
    |>.forall_of_forall (R := fun e f => e.1 ≤ f.2 → f.1 ≤ e.2 → e = f) (fun _ _ _ _ => rfl)
      he hf hef hfe

end Order

/-! ## Listing the points -/

/-- The integers of a list of ranges, in order. -/
def listPoints (es : List (ℤ × ℤ)) : List ℤ :=
  es.flatMap fun e => (List.range (e.2 + 1 - e.1).toNat).map fun i : ℕ => e.1 + (i : ℤ)

@[simp] theorem listPoints_nil : listPoints [] = [] := rfl

theorem listPoints_cons (e : ℤ × ℤ) (es : List (ℤ × ℤ)) :
    listPoints (e :: es) =
      ((List.range (e.2 + 1 - e.1).toNat).map fun i : ℕ => e.1 + (i : ℤ)) ++ listPoints es := rfl

theorem listPoints_append (es fs : List (ℤ × ℤ)) :
    listPoints (es ++ fs) = listPoints es ++ listPoints fs :=
  List.flatMap_append

theorem mem_range_map_iff {a b x : ℤ} :
    x ∈ (List.range (b + 1 - a).toNat).map (fun i : ℕ => a + (i : ℤ)) ↔ a ≤ x ∧ x ≤ b := by
  rw [List.mem_map]
  constructor
  · rintro ⟨i, hi, rfl⟩
    rw [List.mem_range] at hi
    omega
  · intro h
    exact ⟨(x - a).toNat, List.mem_range.mpr (by omega), by omega⟩

theorem mem_listPoints {es : List (ℤ × ℤ)} {x : ℤ} : x ∈ listPoints es ↔ x ∈ points es := by
  rw [listPoints, List.mem_flatMap]
  simp only [mem_range_map_iff, mem_points]

theorem nodup_range_map (a b : ℤ) :
    ((List.range (b + 1 - a).toNat).map fun i : ℕ => a + (i : ℤ)).Nodup :=
  List.nodup_range.map fun i j (h : a + (i : ℤ) = a + j) => by omega

/-- **The points of a separated list are listed once.** -/
theorem Separated.nodup_listPoints {es : List (ℤ × ℤ)} (h : Separated es) :
    (listPoints es).Nodup := by
  induction es with
  | nil => exact List.nodup_nil
  | cons e es ih =>
    obtain ⟨-, hlt, hes⟩ := separated_cons_iff.mp h
    rw [listPoints_cons]
    refine (nodup_range_map e.1 e.2).append (ih hes) fun x hx hx' => ?_
    rw [mem_range_map_iff] at hx
    obtain ⟨f, hf, hfx, -⟩ := mem_listPoints.mp hx'
    have := hlt f hf
    omega

end Ranges
end LdmsTest
