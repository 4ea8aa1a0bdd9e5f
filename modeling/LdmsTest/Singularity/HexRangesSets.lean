import LdmsTest.Singularity.HexRanges

/-!
# `HexRanges` as sets of integers

What the operations of `HexRanges` do to the integers that the entries stand for, for separated
entries anywhere.  Three of them look at less than they would have to:

* `prune` gives a run of overlapping entries the end of its last entry, and writes it into the
  first one, which belongs to an argument of `union` (`union_correct_iff`);
* `ins` looks at the neighbours of the new entry only, and takes the end of the right one
  (`ins_correct_iff`);
* `inv` never asks whether an entry is inside the window (`inv_correct_iff`).

The text is read back as it was written (`reread`).
-/

namespace LdmsTest
namespace HexRanges

open Ranges (points Separated)

/-! ## `inv` -/

/-- Between the window and the entries outside it there is nothing free. -/
def WindowTight (entries : HexRanges) (min max : ℤ) : Prop :=
  ∀ ent ∈ entries, (∀ x, ent.2 < x → x < min → x ∈ points entries) ∧
    ∀ x, max < x → x < ent.1 → x ∈ points entries

/-- **`inv` is the complement in the window** exactly when nothing is free between the window and
the entries outside it. -/
theorem inv_correct_iff {entries : HexRanges} (h : Separated entries) {min max : ℤ}
    (hle : min ≤ max) :
    points (inv entries min max) = {x | min ≤ x ∧ x ≤ max ∧ x ∉ points entries} ↔
      WindowTight entries min max := by
  rw [inv_eq_gaps h]
  constructor
  · intro hinv ent hent
    constructor
    · intro x hx hmin
      by_contra hfree
      have hgap : x ∈ points (gaps max min entries) :=
        (mem_points_gaps h).mpr ⟨hfree, Or.inr ⟨ent, hent, hx⟩, Or.inl (by omega)⟩
      rw [hinv] at hgap
      exact absurd hgap.1 (by omega)
    · intro x hmax hx
      by_contra hfree
      have hgap : x ∈ points (gaps max min entries) :=
        (mem_points_gaps h).mpr ⟨hfree, Or.inl (by omega), Or.inr ⟨ent, hent, hx⟩⟩
      rw [hinv] at hgap
      exact absurd hgap.2.1 (by omega)
  · intro htight
    ext x
    rw [mem_points_gaps h]
    constructor
    · rintro ⟨hfree, hlo, hhi⟩
      refine ⟨?_, ?_, hfree⟩
      · rcases hlo with hlo | ⟨ent, hent, hx⟩
        · exact hlo
        · by_contra hmin
          exact hfree ((htight ent hent).1 x hx (by omega))
      · rcases hhi with hhi | ⟨ent, hent, hx⟩
        · exact hhi
        · by_contra hmax
          exact hfree ((htight ent hent).2 x (by omega) hx)
    · rintro ⟨hmin, hmax, hfree⟩
      exact ⟨hfree, Or.inl hmin, Or.inl hmax⟩

theorem inv_correct_oneEntry :
    points (inv [(5, 6)] 3 9) = {x | 3 ≤ x ∧ x ≤ 9 ∧ x ∉ points [((5 : ℤ), (6 : ℤ))]} ↔
      WindowTight [(5, 6)] 3 9 :=
  inv_correct_iff (Ranges.separated_singleton (by decide)) (by decide)

/-- **Entries of another address space**: the addresses `0A000001-0A000002` were given out under
`10.0.0.0/24`, and the network is `10.0.1.0/24` now. -/
theorem not_inv_otherNetwork :
    points (inv [(0x0A000001, 0x0A000002)] 0x0A000101 0x0A0001FE) ≠
      {x | 0x0A000101 ≤ x ∧ x ≤ 0x0A0001FE ∧
        x ∉ points [((0x0A000001 : ℤ), (0x0A000002 : ℤ))]} := by
  have hinv : inv [(0x0A000001, 0x0A000002)] 0x0A000101 0x0A0001FE =
      [(0x0A000003, 0x0A0001FE)] := by decide
  intro heq
  have hmem : (0x0A000003 : ℤ) ∈ points [((0x0A000003 : ℤ), (0x0A0001FE : ℤ))] :=
    ⟨_, List.mem_cons_self, by decide, by decide⟩
  rw [← hinv, heq] at hmem
  exact absurd hmem.1 (by decide)

/-! ## `ins` -/

/-- The new entry is not inside an entry on both sides, and what it has after the end of an entry
that starts after it is there already. -/
def Fits (entries : HexRanges) (ent : Entry) : Prop :=
  (∀ e ∈ entries, ¬ (e.1 < ent.1 ∧ ent.2 < e.2)) ∧
    ∀ e ∈ entries, ent.1 < e.1 → ∀ x, e.2 < x → x ≤ ent.2 → x ∈ points entries

section Ins

variable {left right : HexRanges} {ent : Entry}

theorem bisect_append (hleft : ∀ e ∈ left, entryLe e ent) (hright : ∀ e ∈ right, ¬ entryLe e ent) :
    bisect (left ++ right) ent = left.length := by
  have htake : (left ++ right).takeWhile (fun e => decide (entryLe e ent)) = left := by
    rw [List.takeWhile_append_of_pos fun e he => decide_eq_true (hleft e he)]
    rcases right with _ | ⟨r, right⟩
    · simp
    · simp [hright r List.mem_cons_self]
  rw [bisect, htake]

theorem le_of_entryLe {e f : Entry} (h : entryLe e f) : e.1 ≤ f.1 := by
  unfold entryLe at h
  omega

theorem le_of_not_entryLe {e f : Entry} (h : ¬ entryLe e f) : f.1 ≤ e.1 := by
  unfold entryLe at h
  omega

/-- The places where `bisect` splits a sorted list. -/
theorem exists_split (entries : HexRanges) (hsorted : entries.Pairwise entryLe) (ent : Entry) :
    ∃ left right, entries = left ++ right ∧ (∀ e ∈ left, entryLe e ent) ∧
      ∀ e ∈ right, ¬ entryLe e ent := by
  induction entries with
  | nil => exact ⟨[], [], rfl, by simp, by simp⟩
  | cons e entries ih =>
    rw [List.pairwise_cons] at hsorted
    by_cases he : entryLe e ent
    · obtain ⟨left, right, rfl, hleft, hright⟩ := ih hsorted.2
      exact ⟨e :: left, right, rfl, List.forall_mem_cons.mpr ⟨he, hleft⟩, hright⟩
    · refine ⟨[], e :: entries, rfl, by simp, List.forall_mem_cons.mpr ⟨he, fun f hf hle => ?_⟩⟩
      exact he (trans_of entryLe (hsorted.1 f hf) hle)

theorem insertIdx_append_length (left right : HexRanges) (ent : Entry) :
    (left ++ right).insertIdx left.length ent = left ++ ent :: right := by
  induction left with
  | nil => rfl
  | cons e left ih => simp [ih]

/-- The new entry joins its neighbours. -/
theorem ins_joins {l r : Entry} (hleft : ∀ e ∈ left ++ [l], entryLe e ent)
    (hright : ∀ e ∈ r :: right, ¬ entryLe e ent) (hl : ent.1 ≤ l.2) (hr : r.1 ≤ ent.2) :
    ins (left ++ l :: r :: right) ent = left ++ (l.1, r.2) :: right := by
  have hidx : bisect (left ++ l :: r :: right) ent = left.length + 1 := by
    simpa using bisect_append hleft hright
  simp [ins, hidx, hl, hr, Option.filter_some, List.eraseIdx_append_of_length_le]

/-- The new entry goes into its left neighbour. -/
theorem ins_left {l : Entry} (hleft : ∀ e ∈ left ++ [l], entryLe e ent)
    (hright : ∀ e ∈ right, ¬ entryLe e ent) (hl : ent.1 ≤ l.2)
    (hr : ∀ e ∈ right, ent.2 < e.1) :
    ins (left ++ l :: right) ent = left ++ (l.1, ent.2) :: right := by
  have hidx : bisect (left ++ l :: right) ent = left.length + 1 := by
    simpa using bisect_append hleft hright
  rcases right with _ | ⟨r, right⟩
  · simp [ins, hidx, hl, Option.filter_some]
  · have hr : ¬ r.1 ≤ ent.2 := not_le_of_gt (hr r List.mem_cons_self)
    simp [ins, hidx, hl, hr, Option.filter_some]

/-- The new entry goes into its right neighbour. -/
theorem ins_right {r : Entry} (hleft : ∀ e ∈ left, entryLe e ent)
    (hright : ∀ e ∈ r :: right, ¬ entryLe e ent) (hl : ∀ e ∈ left, e.2 < ent.1)
    (hr : r.1 ≤ ent.2) :
    ins (left ++ r :: right) ent = left ++ (ent.1, r.2) :: right := by
  rcases left.eq_nil_or_concat with rfl | ⟨left, l, rfl⟩
  · have hidx : bisect (r :: right) ent = 0 := bisect_append hleft hright
    simp [ins, hidx, hr, Option.filter_some]
  · have hidx : bisect (left ++ l :: r :: right) ent = left.length + 1 := by
      simpa using bisect_append hleft hright
    have hl : ¬ ent.1 ≤ l.2 := not_le_of_gt (hl l (by simp))
    simp [ins, hidx, hl, hr, Option.filter_some]

/-- The new entry is between its neighbours. -/
theorem ins_new (hleft : ∀ e ∈ left, entryLe e ent) (hright : ∀ e ∈ right, ¬ entryLe e ent)
    (hl : ∀ e ∈ left, e.2 < ent.1) (hr : ∀ e ∈ right, ent.2 < e.1) :
    ins (left ++ right) ent = left ++ ent :: right := by
  have hr (r : Entry) (hr' : r ∈ right) : ¬ r.1 ≤ ent.2 := not_le_of_gt (hr r hr')
  rcases left.eq_nil_or_concat with rfl | ⟨left, l, rfl⟩
  · rcases right with _ | ⟨r, right⟩
    · rfl
    · have hidx : bisect (r :: right) ent = 0 := bisect_append hleft hright
      simp [ins, hidx, hr r List.mem_cons_self, Option.filter_some]
  · have hl : ¬ ent.1 ≤ l.2 := not_le_of_gt (hl l (by simp))
    have hidx : bisect (left ++ l :: right) ent = left.length + 1 := by
      simpa using bisect_append hleft hright
    have hins : (left ++ l :: right).insertIdx (left.length + 1) ent = left ++ l :: ent :: right := by
      simpa using insertIdx_append_length (left ++ [l]) right ent
    rcases right with _ | ⟨r, right⟩
    · simp [ins, hidx, hl, hins, Option.filter_some]
    · simp [ins, hidx, hl, hr r List.mem_cons_self, hins, Option.filter_some]

/-! ### The integers afterwards -/

/-- `ins` keeps the entries separated and adds the integers of the new one. -/
def Adds (entries : HexRanges) (ent : Entry) : Prop :=
  Separated (ins entries ent) ∧ points (ins entries ent) = points entries ∪ Set.Icc ent.1 ent.2

/-- Only the neighbours of the new entry matter. -/
theorem fits_iff (h : Separated (left ++ right)) (hent : ent.1 ≤ ent.2)
    (hleft : ∀ e ∈ left, entryLe e ent) (hright : ∀ e ∈ right, ¬ entryLe e ent) :
    Fits (left ++ right) ent ↔ (∀ l ∈ left.getLast?, l.2 ≤ ent.2) ∧
      ∀ r ∈ right.head?, ∀ x, r.2 < x → x ≤ ent.2 → x ∈ points right := by
  obtain ⟨hsepl, hsepr, hbefore⟩ := Ranges.separated_append_iff.mp h
  constructor
  · rintro ⟨hinside, hafter⟩
    constructor
    · intro l hl
      have hmem : l ∈ left := List.mem_of_mem_getLast? hl
      have hle := hleft l hmem
      have := hinside l (List.mem_append_left _ hmem)
      unfold entryLe at hle
      omega
    · intro r hr x hx hx'
      have hmem : r ∈ right := List.mem_of_mem_head? hr
      have hle := hsepr.nonempty r hmem
      have hnot := hright r hmem
      unfold entryLe at hnot
      have hin := hafter r (List.mem_append_right _ hmem) (by omega) x hx hx'
      rw [Ranges.points_append] at hin
      refine hin.resolve_left fun hin => ?_
      have := Ranges.lt_of_mem_points hin fun e he => hbefore e he r hmem
      omega
  · rintro ⟨hinside, hafter⟩
    constructor
    · intro e he
      rcases List.mem_append.mp he with he | he
      · rcases left.eq_nil_or_concat with rfl | ⟨left, l, rfl⟩
        · simp at he
        · have hl := hinside l (by simp)
          have hle := le_of_entryLe (hleft l (by simp))
          rw [List.concat_eq_append] at he hsepl
          rcases List.mem_append.mp he with he | he
          · have := (Ranges.separated_append_iff.mp hsepl).2.2 e he l (by simp)
            omega
          · obtain rfl := List.mem_singleton.mp he
            omega
      · have := le_of_not_entryLe (hright e he)
        omega
    · intro e he hlt x hx hx'
      rw [Ranges.points_append]
      rcases List.mem_append.mp he with he | he
      · have := le_of_entryLe (hleft e he)
        omega
      · rcases right with _ | ⟨r, right⟩
        · simp at he
        · refine Or.inr (hafter r rfl x ?_ hx')
          rcases List.mem_cons.mp he with rfl | he
          · exact hx
          · have := (Ranges.separated_cons_iff.mp hsepr).2.1 e he
            have := hsepr.nonempty e (List.mem_cons_of_mem _ he)
            omega

/-- The part of the entries from `left` to `right` becomes one entry. -/
theorem adds_iff_of_ins (mid : HexRanges) (new : Entry) (h : Separated (left ++ mid ++ right))
    (hins : ins (left ++ mid ++ right) ent = left ++ new :: right) (hnew : new.1 ≤ new.2)
    (hl : ∀ e ∈ left, e.2 < new.1) (hr : ∀ e ∈ right, new.2 < e.1) :
    Adds (left ++ mid ++ right) ent ↔
      ∀ x, (x ∈ points left ∨ new.1 ≤ x ∧ x ≤ new.2 ∨ x ∈ points right) ↔
        (x ∈ points left ∨ x ∈ points mid ∨ x ∈ points right) ∨ ent.1 ≤ x ∧ x ≤ ent.2 := by
  have hsep : Separated (left ++ new :: right) := by
    obtain ⟨hsep, hsepr, hbefore⟩ := Ranges.separated_append_iff.mp h
    obtain ⟨hsepl, -, -⟩ := Ranges.separated_append_iff.mp hsep
    refine Ranges.separated_append_iff.mpr ⟨hsepl, Ranges.separated_cons_iff.mpr
      ⟨hnew, hr, hsepr⟩, fun e he f hf => ?_⟩
    rcases List.mem_cons.mp hf with rfl | hf
    · exact hl e he
    · exact hbefore e (List.mem_append_left _ he) f hf
  rw [Adds, hins, and_iff_right hsep, Set.ext_iff]
  simp only [Ranges.points_append, Ranges.points_cons, Set.mem_union, Set.mem_Icc, or_assoc]

theorem adds_iff_of_joins {l r : Entry} (h : Separated (left ++ [l] ++ r :: right))
    (hleft : ∀ e ∈ left ++ [l], entryLe e ent) (hright : ∀ e ∈ r :: right, ¬ entryLe e ent)
    (hl : ent.1 ≤ l.2) (hr : r.1 ≤ ent.2) :
    Adds (left ++ [l] ++ r :: right) ent ↔
      ∀ x, r.2 < x → x ≤ ent.2 → x ∈ points (r :: right) := by
  have hins := ins_joins hleft hright hl hr
  have hle := le_of_entryLe (hleft l (by simp))
  obtain ⟨hsepl, hsepr, hbefore⟩ := Ranges.separated_append_iff.mp h
  obtain ⟨hrne, hafter, -⟩ := Ranges.separated_cons_iff.mp hsepr
  have hlne := hsepl.nonempty l (by simp)
  have hlr := hbefore l (by simp) r (by simp)
  have hlast : ∀ e ∈ left, e.2 < l.1 := fun e he =>
    (Ranges.separated_append_iff.mp hsepl).2.2 e he l (by simp)
  have happ : left ++ [l] ++ r :: right = left ++ [l, r] ++ right := by simp
  rw [happ] at h ⊢
  rw [adds_iff_of_ins [l, r] (l.1, r.2) h (by simpa using hins) (by show l.1 ≤ r.2; omega) hlast
    hafter]
  refine forall_congr' fun x => ?_
  simp only [Ranges.points_cons, Ranges.points_nil, Set.mem_union, Set.mem_Icc,
    Set.mem_empty_iff_false, or_false]
  have hlow := fun hx : x ∈ points left => Ranges.lt_of_mem_points hx hlast
  have hhigh := fun hx : x ∈ points right => Ranges.gt_of_mem_points hx hafter
  grind

theorem adds_iff_of_left {l : Entry} (h : Separated (left ++ [l] ++ right))
    (hleft : ∀ e ∈ left ++ [l], entryLe e ent) (hright : ∀ e ∈ right, ¬ entryLe e ent)
    (hent : ent.1 ≤ ent.2) (hl : ent.1 ≤ l.2) (hr : ∀ e ∈ right, ent.2 < e.1) :
    Adds (left ++ [l] ++ right) ent ↔ l.2 ≤ ent.2 := by
  have hins := ins_left hleft hright hl hr
  have hle := le_of_entryLe (hleft l (by simp))
  obtain ⟨hsepl, hsepr, hbefore⟩ := Ranges.separated_append_iff.mp h
  have hlast : ∀ e ∈ left, e.2 < l.1 := fun e he =>
    (Ranges.separated_append_iff.mp hsepl).2.2 e he l (by simp)
  rw [adds_iff_of_ins [l] (l.1, ent.2) h (by simpa using hins) (by show l.1 ≤ ent.2; omega) hlast
    hr]
  simp only [Ranges.points_cons, Ranges.points_nil, Set.mem_union, Set.mem_Icc,
    Set.mem_empty_iff_false, or_false]
  have hlow (x : ℤ) (hx : x ∈ points left) : x < l.1 := Ranges.lt_of_mem_points hx hlast
  have hhigh (x : ℤ) (hx : x ∈ points right) : l.2 < x :=
    Ranges.gt_of_mem_points hx fun e he => hbefore l (by simp) e he
  constructor
  · intro hiff
    by_contra hlt
    -- the end of the left neighbour is lost
    have hiff := hiff l.2
    have := hlow l.2
    have := hhigh l.2
    have := hsepl.nonempty l (by simp)
    grind
  · intro hle x
    have := hlow x
    have := hhigh x
    grind

theorem adds_iff_of_right {r : Entry} (h : Separated (left ++ r :: right))
    (hleft : ∀ e ∈ left, entryLe e ent) (hright : ∀ e ∈ r :: right, ¬ entryLe e ent)
    (hl : ∀ e ∈ left, e.2 < ent.1) (hr : r.1 ≤ ent.2) :
    Adds (left ++ r :: right) ent ↔ ∀ x, r.2 < x → x ≤ ent.2 → x ∈ points (r :: right) := by
  have hins := ins_right hleft hright hl hr
  have hle := le_of_not_entryLe (hright r (by simp))
  obtain ⟨hsepl, hsepr, hbefore⟩ := Ranges.separated_append_iff.mp h
  obtain ⟨hrne, hafter, -⟩ := Ranges.separated_cons_iff.mp hsepr
  have happ : left ++ r :: right = left ++ [r] ++ right := by simp
  rw [happ] at h hins ⊢
  rw [adds_iff_of_ins [r] (ent.1, r.2) h hins (by show ent.1 ≤ r.2; omega) hl hafter]
  refine forall_congr' fun x => ?_
  simp only [Ranges.points_cons, Ranges.points_nil, Set.mem_union, Set.mem_Icc,
    Set.mem_empty_iff_false, or_false]
  have hlow := fun hx : x ∈ points left => Ranges.lt_of_mem_points hx hl
  have hhigh := fun hx : x ∈ points right => Ranges.gt_of_mem_points hx hafter
  grind

theorem adds_of_new (h : Separated (left ++ right)) (hleft : ∀ e ∈ left, entryLe e ent)
    (hright : ∀ e ∈ right, ¬ entryLe e ent) (hent : ent.1 ≤ ent.2)
    (hl : ∀ e ∈ left, e.2 < ent.1) (hr : ∀ e ∈ right, ent.2 < e.1) :
    Adds (left ++ right) ent := by
  have hins := ins_new hleft hright hl hr
  have happ : left ++ right = left ++ [] ++ right := by simp
  rw [happ] at h hins ⊢
  rw [adds_iff_of_ins [] ent h hins hent hl hr]
  intro x
  simp only [Ranges.points_nil, Set.mem_empty_iff_false]
  tauto

/-- **`ins` is right** exactly when the new entry fits. -/
theorem ins_correct_iff {entries : HexRanges} (h : Separated entries) {ent : Entry}
    (hent : ent.1 ≤ ent.2) : Adds entries ent ↔ Fits entries ent := by
  have hsorted : entries.Pairwise entryLe := h.pairwise.imp_of_mem fun {e f} he _ hlt =>
    entryLe_of_lt ((h.nonempty e he).trans_lt hlt)
  obtain ⟨left, right, rfl, hleft, hright⟩ := exists_split entries hsorted ent
  rw [fits_iff h hent hleft hright]
  obtain ⟨hsepl, hsepr, -⟩ := Ranges.separated_append_iff.mp h
  -- the right neighbour: it is reached, or all of `right` is after the new entry
  have hright' : (∃ r rest, right = r :: rest ∧ r.1 ≤ ent.2) ∨ ∀ e ∈ right, ent.2 < e.1 := by
    rcases right with _ | ⟨r, rest⟩
    · exact Or.inr (by simp)
    · rcases le_or_gt r.1 ent.2 with hr | hr
      · exact Or.inl ⟨r, rest, rfl, hr⟩
      · obtain ⟨hrne, hafter, -⟩ := Ranges.separated_cons_iff.mp hsepr
        refine Or.inr (List.forall_mem_cons.mpr ⟨hr, fun e he => ?_⟩)
        have := hafter e he
        omega
  -- the left neighbour: it reaches the new entry, or all of `left` is before it
  have hleft' : (∃ rest l, left = rest ++ [l] ∧ ent.1 ≤ l.2) ∨ ∀ e ∈ left, e.2 < ent.1 := by
    rcases left.eq_nil_or_concat with rfl | ⟨rest, l, rfl⟩
    · exact Or.inr (by simp)
    · rw [List.concat_eq_append] at hsepl ⊢
      rcases le_or_gt ent.1 l.2 with hl | hl
      · exact Or.inl ⟨rest, l, rfl, hl⟩
      · refine Or.inr (List.forall_mem_append.mpr ⟨fun e he => ?_, by simpa using hl⟩)
        have := (Ranges.separated_append_iff.mp hsepl).2.2 e he l (by simp)
        have := hsepl.nonempty l (by simp)
        omega
  rcases hleft' with ⟨rest, l, rfl, hl⟩ | hl <;> rcases hright' with ⟨r, rest', rfl, hr⟩ | hr
  · rw [adds_iff_of_joins h hleft hright hl hr]
    have hlr := (Ranges.separated_append_iff.mp h).2.2 l (by simp) r (by simp)
    simp only [List.getLast?_concat, Option.mem_def, Option.some.injEq, forall_eq', List.head?_cons]
    exact (and_iff_right (by omega)).symm
  · rw [adds_iff_of_left h hleft hright hent hl hr]
    simp only [List.getLast?_concat, Option.mem_def, Option.some.injEq, forall_eq']
    refine (and_iff_left fun r hr' x hx hx' => ?_).symm
    have := hr r (List.mem_of_mem_head? hr')
    have := hsepr.nonempty r (List.mem_of_mem_head? hr')
    omega
  · rw [adds_iff_of_right h hleft hright hl hr]
    simp only [List.head?_cons, Option.mem_def, Option.some.injEq, forall_eq']
    refine (and_iff_right fun l hl' => ?_).symm
    have := hl l (List.mem_of_mem_getLast? hl')
    omega
  · refine iff_of_true (adds_of_new h hleft hright hent hl hr) ⟨fun l hl' => ?_, ?_⟩
    · have := hl l (List.mem_of_mem_getLast? hl')
      omega
    · intro r hr' x hx hx'
      have := hr r (List.mem_of_mem_head? hr')
      have := hsepr.nonempty r (List.mem_of_mem_head? hr')
      omega

end Ins

theorem ins_correct_twoEntries :
    Adds [(0, 1), (4, 5)] (1, 4) ↔ Fits [(0, 1), (4, 5)] (1, 4) := by
  have hsep : Separated [((0 : ℤ), (1 : ℤ)), (4, 5)] :=
    Ranges.separated_cons_iff.mpr
      ⟨by decide, by simp, Ranges.separated_singleton (by decide)⟩
  exact ins_correct_iff hsep (by decide)

/-- **A range inside an entry** cuts off the end of it. -/
theorem not_ins_inside : ¬ Adds [(0, 10)] (2, 3) := by
  rintro ⟨-, hpoints⟩
  have hins : ins [(0, 10)] (2, 3) = [(0, 3)] := by decide
  have hmem : (10 : ℤ) ∈ points (ins [(0, 10)] (2, 3)) := by
    rw [hpoints]
    exact Or.inl ⟨(0, 10), List.mem_cons_self, by decide, by decide⟩
  rw [hins] at hmem
  obtain ⟨e, he, -, hle⟩ := hmem
  obtain rfl := List.mem_singleton.mp he
  exact absurd hle (by decide)

/-! ## `union` -/

/-- Two members of a list whose members are related in order. -/
theorem rel_or_eq_or_rel {α : Type} {R : α → α → Prop} {l : List α} (h : l.Pairwise R) {a b : α}
    (ha : a ∈ l) (hb : b ∈ l) : R a b ∨ a = b ∨ R b a := by
  have : Std.Symm fun a b => R a b ∨ a = b ∨ R b a :=
    ⟨fun a b => by rintro (h | rfl | h) <;> simp [*]⟩
  exact List.Pairwise.forall_of_forall (R := fun a b => R a b ∨ a = b ∨ R b a)
    (fun a _ => Or.inr (Or.inl rfl)) (h.imp fun hab => Or.inl hab) ha hb

section Runs

variable {ι : Type}

/-- The entry starts no later than the one before it ends. -/
def touches (c d : Cell ι) : Bool :=
  decide (d.2.1 ≤ c.2.2)

/-- The entries in order, cut into runs that touch. -/
def runs (cells : List (Cell ι)) : List (List (Cell ι)) :=
  (cells.insertionSort fun c d => entryLe c.2 d.2).splitBy touches

/-- What `prune` makes of a run. -/
def hull : List (Cell ι) → List (Cell ι)
  | [] => []
  | c :: run => [(c.1, (c.2.1, (run.getLastD c).2.2))]

theorem mem_hull {run : List (Cell ι)} {d : Cell ι} :
    d ∈ hull run ↔ ∃ c rest, run = c :: rest ∧ d = (c.1, (c.2.1, (rest.getLastD c).2.2)) := by
  rcases run with _ | ⟨c, rest⟩
  · simp [hull]
  · simp [hull]

/-- The loop of `prune` over one run. -/
theorem pruneLoop_run {c : Cell ι} {run : List (Cell ι)}
    (h : (c :: run).IsChain fun c d => touches c d) (id : ι) (start : ℤ)
    (tmp rest : List (Cell ι)) :
    pruneLoop ((id, (start, c.2.2)) :: tmp) (run ++ rest) =
      pruneLoop ((id, (start, (run.getLastD c).2.2)) :: tmp) rest := by
  induction run generalizing c with
  | nil => rfl
  | cons d run ih =>
    rw [List.isChain_cons_cons] at h
    have hle : ¬ c.2.2 < d.2.1 := not_lt_of_ge (of_decide_eq_true h.1)
    rw [List.cons_append, pruneLoop, if_neg hle, List.getLastD_cons]
    exact ih h.2

/-- **`prune` replaces every run by its hull.** -/
theorem pruneLoop_flatten {L : List (List (Cell ι))} (hne : [] ∉ L)
    (hrun : ∀ run ∈ L, run.IsChain fun c d => touches c d)
    (hcut : L.IsChain fun r s => ∃ hr hs, touches (r.getLast hr) (s.head hs) = false)
    (tmp : List (Cell ι))
    (htmp : ∀ last ∈ tmp.head?, ∀ run ∈ L.head?, ∀ c ∈ run.head?, last.2.2 < c.2.1) :
    pruneLoop tmp L.flatten = tmp.reverse ++ L.flatMap hull := by
  induction L generalizing tmp with
  | nil => rcases tmp with _ | ⟨last, tmp⟩ <;> simp [pruneLoop]
  | cons run L ih =>
    rcases run with _ | ⟨c, run⟩
    · simp at hne
    · have hopen : pruneLoop tmp ((c :: run) ++ L.flatten) = pruneLoop (c :: tmp) (run ++ L.flatten) := by
        rcases tmp with _ | ⟨last, tmp⟩
        · rfl
        · have hlt : last.2.2 < c.2.1 := htmp last rfl (c :: run) rfl c rfl
          rw [List.cons_append, pruneLoop, if_pos hlt]
      rw [List.isChain_cons] at hcut
      have hnil : [] ∉ L := fun h => hne (List.mem_cons_of_mem _ h)
      rw [List.flatten_cons, hopen]
      show pruneLoop ((c.1, (c.2.1, c.2.2)) :: tmp) (run ++ L.flatten) = _
      rw [pruneLoop_run (hrun _ List.mem_cons_self), ih hnil
        (fun r hr => hrun r (List.mem_cons_of_mem _ hr)) hcut.2]
      · simp [hull]
      · intro last hlast r hr d hd
        obtain ⟨hr', hs, hno⟩ := hcut.1 r hr
        obtain rfl := Option.some_inj.mp hlast
        rw [List.getLast_eq_getLastD, List.head_of_mem_head? hd] at hno
        exact lt_of_not_ge (of_decide_eq_false hno)

theorem pruneCells_eq (cells : List (Cell ι)) : pruneCells cells = (runs cells).flatMap hull := by
  have h : pruneLoop [] (runs cells).flatten = [].reverse ++ (runs cells).flatMap hull :=
    pruneLoop_flatten (List.nil_notMem_splitBy _ _)
      (fun run hrun => List.isChain_of_mem_splitBy hrun)
      (List.isChain_getLast_head_splitBy touches _) [] (by simp)
  rw [runs, List.flatten_splitBy] at h
  exact h

variable {cells : List (Cell ι)}

theorem perm_flatten_runs (cells : List (Cell ι)) : (runs cells).flatten.Perm cells := by
  rw [runs, List.flatten_splitBy]
  exact List.perm_insertionSort _ cells

theorem pairwise_flatten_runs (cells : List (Cell ι)) :
    (runs cells).flatten.Pairwise fun c d => entryLe c.2 d.2 := by
  have : Std.Total fun c d : Cell ι => entryLe c.2 d.2 := ⟨fun c d => total_of entryLe c.2 d.2⟩
  have : IsTrans (Cell ι) fun c d => entryLe c.2 d.2 := ⟨fun c d e => trans_of entryLe⟩
  rw [runs, List.flatten_splitBy]
  exact List.pairwise_insertionSort _ cells

/-- A run ends before all later runs start. -/
theorem pairwise_runs (cells : List (Cell ι)) : (runs cells).Pairwise fun r s =>
    ∀ c rest, r = c :: rest → ∀ d ∈ s, (rest.getLastD c).2.2 < d.2.1 := by
  have hcut := List.isChain_getLast_head_splitBy touches
    (cells.insertionSort fun c d => entryLe c.2 d.2)
  have hsorted := pairwise_flatten_runs cells
  change (runs cells).IsChain _ at hcut
  generalize runs cells = L at hcut hsorted
  induction L with
  | nil => exact .nil
  | cons run L ih =>
    rw [List.flatten_cons, List.pairwise_append] at hsorted
    rw [List.isChain_cons] at hcut
    refine List.pairwise_cons.mpr ⟨fun s hs c rest hrun d hd => ?_, ih hcut.2 hsorted.2.1⟩
    subst hrun
    rcases L with _ | ⟨next, L⟩
    · simp at hs
    · obtain ⟨hr, hn, hno⟩ := hcut.1 next rfl
      rw [List.getLast_eq_getLastD] at hno
      have hlt : (rest.getLastD c).2.2 < (next.head hn).2.1 := lt_of_not_ge (of_decide_eq_false hno)
      -- `d` is the head of the next run, or after it
      have hle : (next.head hn).2.1 ≤ d.2.1 := by
        obtain ⟨e, next, rfl⟩ := List.exists_cons_of_ne_nil hn
        have hsorted := hsorted.2.1
        rw [List.flatten_cons, List.cons_append, List.pairwise_cons] at hsorted
        have hmem : d ∈ e :: (next ++ L.flatten) := by
          rw [← List.cons_append, ← List.flatten_cons]
          exact List.mem_flatten_of_mem hs hd
        rcases List.mem_cons.mp hmem with rfl | hmem
        · exact le_rfl
        · exact le_of_entryLe (hsorted.1 d hmem)
      omega

theorem mem_points_pruneCells {x : ℤ} : x ∈ points ((pruneCells cells).map Prod.snd) ↔
    ∃ c rest, c :: rest ∈ runs cells ∧ c.2.1 ≤ x ∧ x ≤ (rest.getLastD c).2.2 := by
  rw [pruneCells_eq]
  constructor
  · rintro ⟨e, he, hx⟩
    obtain ⟨d, hd, rfl⟩ := List.mem_map.mp he
    obtain ⟨run, hrun, hd⟩ := List.mem_flatMap.mp hd
    obtain ⟨c, rest, rfl, rfl⟩ := mem_hull.mp hd
    exact ⟨c, rest, hrun, hx⟩
  · rintro ⟨c, rest, hrun, hx⟩
    exact ⟨(c.2.1, (rest.getLastD c).2.2), List.mem_map.mpr ⟨_, List.mem_flatMap.mpr
      ⟨_, hrun, mem_hull.mpr ⟨c, rest, rfl, rfl⟩⟩, rfl⟩, hx⟩

theorem mem_cells_of_mem_runs {run : List (Cell ι)} (hrun : run ∈ runs cells) {c : Cell ι}
    (hc : c ∈ run) : c ∈ cells :=
  (perm_flatten_runs cells).mem_iff.mp (List.mem_flatten_of_mem hrun hc)

/-- **`prune` leaves separated entries.** -/
theorem separated_pruneCells (hne : ∀ c ∈ cells, c.2.1 ≤ c.2.2) :
    Separated ((pruneCells cells).map Prod.snd) := by
  have hsorted := pairwise_flatten_runs cells
  have hpair := pairwise_runs cells
  rw [pruneCells_eq]
  constructor
  · intro e he
    obtain ⟨d, hd, rfl⟩ := List.mem_map.mp he
    obtain ⟨run, hrun, hd⟩ := List.mem_flatMap.mp hd
    obtain ⟨c, rest, rfl, rfl⟩ := mem_hull.mp hd
    have hlast : rest.getLastD c ∈ c :: rest := List.getLastD_mem_cons
    have hnonempty := hne _ (mem_cells_of_mem_runs hrun hlast)
    have hle : c.2.1 ≤ (rest.getLastD c).2.1 := by
      rcases List.mem_cons.mp hlast with heq | hmem
      · rw [heq]
      · have hrunSorted := (List.pairwise_flatten.mp hsorted).1 _ hrun
        exact le_of_entryLe ((List.pairwise_cons.mp hrunSorted).1 _ hmem)
    exact hle.trans hnonempty
  · rw [List.pairwise_map, List.pairwise_flatMap]
    constructor
    · intro run _
      rcases run with _ | ⟨c, rest⟩
      · exact .nil
      · exact List.pairwise_singleton _ _
    · refine hpair.imp fun {r s} h d hd e he => ?_
      obtain ⟨c, rest, rfl, rfl⟩ := mem_hull.mp hd
      obtain ⟨c', rest', rfl, rfl⟩ := mem_hull.mp he
      exact h c rest rfl c' List.mem_cons_self

/-- `prune` invents no integer. -/
theorem points_pruneCells_subset {x : ℤ} (hx : x ∈ points ((pruneCells cells).map Prod.snd)) :
    x ∈ points (cells.map Prod.snd) := by
  obtain ⟨c, rest, hrun, hlo, hhi⟩ := mem_points_pruneCells.mp hx
  have hchain : ((c :: rest).map Prod.snd).IsChain fun e f => f.1 ≤ e.2 := by
    refine (List.isChain_map _).mpr ((List.isChain_of_mem_splitBy hrun).imp fun c d h => ?_)
    exact of_decide_eq_true h
  rw [List.map_cons] at hchain
  have hin := Ranges.mem_points_of_isChain hchain hlo (by rwa [List.getLastD_map])
  obtain ⟨e, he, hex⟩ := hin
  obtain ⟨d, hd, rfl⟩ := List.mem_map.mp (List.map_cons .. ▸ he)
  exact ⟨d.2, List.mem_map_of_mem (mem_cells_of_mem_runs hrun hd), hex⟩

/-- Every integer is in the last one, in the order of `sort`, of the entries that start at or
before it. -/
def Covers (entries : HexRanges) : Prop :=
  ∀ x ∈ points entries, ∀ e ∈ entries, e.1 ≤ x → (∀ f ∈ entries, f.1 ≤ x → entryLe f e) → x ≤ e.2

theorem entryLe_refl (e : Entry) : entryLe e e :=
  Or.inr ⟨rfl, le_rfl⟩

theorem entryLe_antisymm {e f : Entry} (hef : entryLe e f) (hfe : entryLe f e) : e = f := by
  unfold entryLe at hef hfe
  exact Prod.ext (by omega) (by omega)

theorem entryLe_getLastD {c : Cell ι} {rest : List (Cell ι)}
    (h : (c :: rest).Pairwise fun c d => entryLe c.2 d.2) {d : Cell ι} (hd : d ∈ c :: rest) :
    entryLe d.2 (rest.getLastD c).2 := by
  have : Std.Refl fun c d : Cell ι => entryLe c.2 d.2 := ⟨fun c => entryLe_refl c.2⟩
  have hlast := h.rel_getLast hd
  rwa [List.getLast_eq_getLastD] at hlast

/-- There is a last entry among those that start at or before an integer of an entry. -/
theorem exists_last_start {x : ℤ} (hx : x ∈ points (cells.map Prod.snd)) :
    ∃ d ∈ cells, d.2.1 ≤ x ∧ ∀ f ∈ cells, f.2.1 ≤ x → entryLe f.2 d.2 := by
  obtain ⟨e, he, hlo, -⟩ := hx
  obtain ⟨c, hc, rfl⟩ := List.mem_map.mp he
  have hmem {d : Cell ι} : d ∈ (runs cells).flatten.filter (fun d => d.2.1 ≤ x) ↔
      d ∈ cells ∧ d.2.1 ≤ x := by
    rw [List.mem_filter, (perm_flatten_runs cells).mem_iff, decide_eq_true_eq]
  have hsorted := (pairwise_flatten_runs cells).filter fun d => decide (d.2.1 ≤ x)
  rcases hl : (runs cells).flatten.filter (fun d => decide (d.2.1 ≤ x)) with _ | ⟨d, rest⟩
  · have := hmem.mpr ⟨hc, hlo⟩
    rw [hl] at this
    cases this
  · rw [hl] at hsorted
    simp only [hl] at hmem
    obtain ⟨hlast, hle⟩ := hmem.mp (List.getLastD_mem_cons (l := rest) (a := d))
    exact ⟨_, hlast, hle, fun f hf hfx => entryLe_getLastD hsorted (hmem.mpr ⟨hf, hfx⟩)⟩

/-- **`prune` keeps the integers** exactly when the last entry that starts at or before an integer
always reaches it. -/
theorem points_pruneCells_eq_iff (hne : ∀ c ∈ cells, c.2.1 ≤ c.2.2) :
    points ((pruneCells cells).map Prod.snd) = points (cells.map Prod.snd) ↔
      Covers (cells.map Prod.snd) := by
  have hrunSorted {c : Cell ι} {rest : List (Cell ι)} (hrun : c :: rest ∈ runs cells) :
      (c :: rest).Pairwise fun c d => entryLe c.2 d.2 :=
    (List.pairwise_flatten.mp (pairwise_flatten_runs cells)).1 _ hrun
  constructor
  · intro hpoints x hx e he hex hmax
    obtain ⟨d, hd, rfl⟩ := List.mem_map.mp he
    obtain ⟨run, hrun, hdrun⟩ := List.mem_flatten.mp ((perm_flatten_runs cells).mem_iff.mpr hd)
    obtain ⟨c, rest, rfl⟩ := List.exists_cons_of_ne_nil (List.ne_nil_of_mem hdrun)
    by_contra hlt
    -- nothing from `d` to the end of its run reaches `x`
    have hend : (rest.getLastD c).2.2 < x := by
      by_contra hle
      obtain ⟨before, after, happ⟩ := List.append_of_mem hdrun
      have hsorted := hrunSorted hrun
      have hchain := List.isChain_of_mem_splitBy hrun
      have hlast : rest.getLastD c = after.getLastD d := by
        have hget : (c :: rest).getLast? = (before ++ d :: after).getLast? := by rw [happ]
        simpa [List.getLast?_cons, List.getLast?_append] using hget
      rw [happ] at hsorted hchain
      have hchain' : ((d :: after).map Prod.snd).IsChain fun e f => f.1 ≤ e.2 :=
        (List.isChain_map _).mpr (hchain.right_of_append.imp fun c d h => of_decide_eq_true h)
      rw [List.map_cons] at hchain'
      rw [hlast] at hle
      obtain ⟨f, hf, hfx, hxf⟩ := Ranges.mem_points_of_isChain hchain' hex
        (by rw [List.getLastD_map]; omega)
      obtain ⟨g, hg, rfl⟩ := List.mem_map.mp (List.map_cons .. ▸ hf)
      have hgd : entryLe g.2 d.2 := by
        refine hmax g.2 (List.mem_map_of_mem (mem_cells_of_mem_runs hrun ?_)) hfx
        rw [happ]
        exact List.mem_append_right _ hg
      rcases List.mem_cons.mp hg with rfl | hg
      · omega
      · have hdg := (List.pairwise_cons.mp (List.pairwise_append.mp hsorted).2.1).1 g hg
        rw [← entryLe_antisymm hgd hdg] at hlt
        omega
    rw [← hpoints] at hx
    obtain ⟨c', rest', hrun', hlo, hhi⟩ := mem_points_pruneCells.mp hx
    rcases rel_or_eq_or_rel (pairwise_runs cells) hrun hrun' with hcut | heq | hcut
    · -- the run that reaches `x` is after the run of `d`
      have hc' := hcut c rest rfl c' List.mem_cons_self
      have hstart := le_of_entryLe (hmax c'.2 (List.mem_map_of_mem
        (mem_cells_of_mem_runs hrun' List.mem_cons_self)) hlo)
      have hle := le_of_entryLe (entryLe_getLastD (hrunSorted hrun) hdrun)
      have := hne _ (mem_cells_of_mem_runs hrun (List.getLastD_mem_cons (l := rest) (a := c)))
      omega
    · obtain ⟨rfl, rfl⟩ := List.cons_eq_cons.mp heq
      omega
    · have := hcut c' rest' rfl d hdrun
      omega
  · intro hcovers
    refine Set.Subset.antisymm (fun x => points_pruneCells_subset) fun x hx => ?_
    obtain ⟨d, hd, hdx, hmax⟩ := exists_last_start hx
    have hxd : x ≤ d.2.2 := hcovers x hx d.2 (List.mem_map_of_mem hd) hdx
      (List.forall_mem_map.mpr hmax)
    obtain ⟨run, hrun, hdrun⟩ := List.mem_flatten.mp ((perm_flatten_runs cells).mem_iff.mpr hd)
    obtain ⟨c, rest, rfl⟩ := List.exists_cons_of_ne_nil (List.ne_nil_of_mem hdrun)
    refine mem_points_pruneCells.mpr ⟨c, rest, hrun, ?_, ?_⟩
    · rcases List.mem_cons.mp hdrun with rfl | hdrun
      · exact hdx
      · exact (le_of_entryLe ((List.pairwise_cons.mp (hrunSorted hrun)).1 d hdrun)).trans hdx
    · by_contra hlt
      have hlast : rest.getLastD c ∈ cells := mem_cells_of_mem_runs hrun List.getLastD_mem_cons
      have hle := entryLe_getLastD (hrunSorted hrun) hdrun
      have heq := entryLe_antisymm hle (hmax _ hlast (by have := hne _ hlast; omega))
      rw [← heq] at hlt
      exact hlt hxd

end Runs

/-- An entry is in one run only. -/
theorem eq_of_mem_runs {ι : Type} {cells : List (Cell ι)} (hne : ∀ c ∈ cells, c.2.1 ≤ c.2.2)
    {r s : List (Cell ι)} (hr : r ∈ runs cells) (hs : s ∈ runs cells) {c : Cell ι} (hcr : c ∈ r)
    (hcs : c ∈ s) : r = s := by
  have hno {r s : List (Cell ι)} (hr : r ∈ runs cells) (hcr : c ∈ r) (hcs : c ∈ s)
      (hcut : ∀ d rest, r = d :: rest → ∀ e ∈ s, (rest.getLastD d).2.2 < e.2.1) : False := by
    obtain ⟨d, rest, rfl⟩ := List.exists_cons_of_ne_nil (List.ne_nil_of_mem hcr)
    have hlt := hcut d rest rfl c hcs
    have hsorted := (List.pairwise_flatten.mp (pairwise_flatten_runs cells)).1 _ hr
    have hle := le_of_entryLe (entryLe_getLastD hsorted hcr)
    have := hne _ (mem_cells_of_mem_runs hr (List.getLastD_mem_cons (l := rest) (a := d)))
    omega
  rcases rel_or_eq_or_rel (pairwise_runs cells) hr hs with hcut | heq | hcut
  · exact absurd (hno hr hcr hcs hcut) not_false
  · exact heq
  · exact absurd (hno hs hcs hcr hcut) not_false

section Arguments

variable {args : List HexRanges}

theorem nonempty_of_mem_unionCells (hsep : ∀ r ∈ args, Separated r) :
    ∀ c ∈ unionCells args, c.2.1 ≤ c.2.2 := by
  rintro ⟨⟨i, j⟩, ent⟩ hc
  obtain ⟨r, hr, he⟩ := mem_unionCells_iff.mp hc
  exact (hsep r (List.mem_of_getElem? hr)).nonempty ent (List.mem_of_getElem? he)

/-- The entry that opens a run gets the end of the run. -/
theorem get?_pruneCells_of_opens (hsep : ∀ r ∈ args, Separated r) {i j : ℕ} {ent : Entry}
    {rest : List (Cell (ℕ × ℕ))} (hrun : ((i, j), ent) :: rest ∈ runs (unionCells args)) :
    Dict.get? (pruneCells (unionCells args)) (i, j) =
      some (ent.1, (rest.getLastD ((i, j), ent)).2.2) := by
  rw [pruneCells_eq]
  have hmem : (i, j) ∈ Dict.keys ((runs (unionCells args)).flatMap hull) :=
    List.mem_map.mpr ⟨_, List.mem_flatMap.mpr ⟨_, hrun, mem_hull.mpr ⟨_, _, rfl, rfl⟩⟩, rfl⟩
  obtain ⟨e, he⟩ := Option.isSome_iff_exists.mp (Dict.isSome_get?_iff.mpr hmem)
  obtain ⟨run, hrun', he'⟩ := List.mem_flatMap.mp (Dict.mem_of_get? he)
  obtain ⟨⟨id, e'⟩, rest', rfl, heq⟩ := mem_hull.mp he'
  obtain rfl : (i, j) = id := (Prod.ext_iff.mp heq).1
  obtain rfl : e = (e'.1, (rest'.getLastD ((i, j), e')).2.2) := (Prod.ext_iff.mp heq).2
  -- the cell with this identity is the one that opens the run
  have hcell : e' = ent := by
    obtain ⟨r, hr, hr'⟩ := mem_unionCells_iff.mp (mem_cells_of_mem_runs hrun' List.mem_cons_self)
    obtain ⟨s, hs, hs'⟩ := mem_unionCells_iff.mp (mem_cells_of_mem_runs hrun List.mem_cons_self)
    obtain rfl := Option.some_inj.mp (hr.symm.trans hs)
    exact Option.some_inj.mp (hr'.symm.trans hs')
  subst hcell
  obtain ⟨-, rfl⟩ := List.cons_eq_cons.mp (eq_of_mem_runs (nonempty_of_mem_unionCells hsep) hrun'
    hrun List.mem_cons_self List.mem_cons_self)
  exact he

/-- An entry that opens no run stays as it is. -/
theorem get?_pruneCells_of_not_opens {i j : ℕ} {r : HexRanges} {ent : Entry}
    (hr : args[i]? = some r) (he : r[j]? = some ent)
    (hno : ∀ rest, ((i, j), ent) :: rest ∉ runs (unionCells args)) :
    Dict.get? (pruneCells (unionCells args)) (i, j) = none := by
  rw [Dict.get?_eq_none_iff, pruneCells_eq]
  intro hmem
  obtain ⟨d, hd, hid⟩ := List.mem_map.mp hmem
  obtain ⟨run, hrun, hd⟩ := List.mem_flatMap.mp hd
  obtain ⟨⟨id, e⟩, rest, rfl, rfl⟩ := mem_hull.mp hd
  obtain rfl : id = (i, j) := hid
  obtain ⟨s, hs, hs'⟩ := mem_unionCells_iff.mp (mem_cells_of_mem_runs hrun List.mem_cons_self)
  obtain rfl := Option.some_inj.mp (hr.symm.trans hs)
  obtain rfl := Option.some_inj.mp (he.symm.trans hs')
  exact hno rest hrun

/-- What has become of the argument `r`, the `i`-th one. -/
def afterUnion (args : List HexRanges) (i : ℕ) (r : HexRanges) : HexRanges :=
  r.zipIdx.map fun ent => (Dict.get? (pruneCells (unionCells args)) (i, ent.2)).getD ent.1

theorem getElem?_afterUnion (i : ℕ) (r : HexRanges) (j : ℕ) : (afterUnion args i r)[j]? =
    r[j]?.map fun ent => (Dict.get? (pruneCells (unionCells args)) (i, j)).getD ent := by
  rw [afterUnion, List.getElem?_map, List.getElem?_zipIdx, Option.map_map]
  simp [Function.comp_def]

theorem mem_points_afterUnion {i : ℕ} {r : HexRanges} {x : ℤ} : x ∈ points (afterUnion args i r) ↔
    ∃ j ent, r[j]? = some ent ∧
      ((Dict.get? (pruneCells (unionCells args)) (i, j)).getD ent).1 ≤ x ∧
      x ≤ ((Dict.get? (pruneCells (unionCells args)) (i, j)).getD ent).2 := by
  constructor
  · rintro ⟨e, he, hx⟩
    obtain ⟨j, hj⟩ := List.mem_iff_getElem?.mp he
    rw [getElem?_afterUnion] at hj
    obtain ⟨ent, hent, rfl⟩ := Option.map_eq_some_iff.mp hj
    exact ⟨j, ent, hent, hx⟩
  · rintro ⟨j, ent, hent, hx⟩
    refine ⟨_, List.mem_iff_getElem?.mpr ⟨j, ?_⟩, hx⟩
    rw [getElem?_afterUnion, hent]
    rfl

theorem map_points_union_eq_iff : (union args).2.map points = args.map points ↔
    ∀ i r, args[i]? = some r → points (afterUnion args i r) = points r := by
  have hget (i : ℕ) : ((union args).2.map points)[i]? =
      args[i]?.map fun r => points (afterUnion args i r) := by
    show (List.map points (args.zipIdx.map fun r => afterUnion args r.2 r.1))[i]? = _
    rw [List.getElem?_map, List.getElem?_map, List.getElem?_zipIdx, Option.map_map, Option.map_map]
    simp [Function.comp_def]
  constructor
  · intro h i r hr
    have hi := hget i
    rw [h, List.getElem?_map, hr] at hi
    exact (Option.some_inj.mp hi).symm
  · intro h
    refine List.ext_getElem? fun i => ?_
    rw [hget, List.getElem?_map]
    rcases hr : args[i]? with _ | r
    · rfl
    · exact congrArg some (h i r hr)

/-- A run is inside the argument that its first entry belongs to, up to the end of the run. -/
def Owned (args : List HexRanges) : Prop :=
  ∀ first rest, first :: rest ∈ runs (unionCells args) →
    first.2.2 ≤ (rest.getLastD first).2.2 ∧
      ∀ x, first.2.2 < x → x ≤ (rest.getLastD first).2.2 →
        ∃ r, args[first.1.1]? = some r ∧ x ∈ points r

theorem owned_of_afterUnion (hsep : ∀ r ∈ args, Separated r)
    (h : ∀ i r, args[i]? = some r → points (afterUnion args i r) = points r) : Owned args := by
  rintro ⟨⟨i, j⟩, ent⟩ rest hrun
  obtain ⟨r, hr, he⟩ := mem_unionCells_iff.mp (mem_cells_of_mem_runs hrun List.mem_cons_self)
  have hsepr := hsep r (List.mem_of_getElem? hr)
  have hne := nonempty_of_mem_unionCells hsep
  have hget := get?_pruneCells_of_opens hsep hrun
  constructor
  · show ent.2 ≤ (rest.getLastD ((i, j), ent)).2.2
    have hent := hsepr.nonempty ent (List.mem_of_getElem? he)
    have hx : ent.2 ∈ points (afterUnion args i r) := by
      rw [h i r hr]
      exact ⟨ent, List.mem_of_getElem? he, hent, le_rfl⟩
    obtain ⟨j', ent', he', hlo, hhi⟩ := mem_points_afterUnion.mp hx
    by_cases hopens : ∃ rest', ((i, j'), ent') :: rest' ∈ runs (unionCells args)
    · obtain ⟨rest', hrun'⟩ := hopens
      rw [get?_pruneCells_of_opens hsep hrun', Option.getD_some] at hlo hhi
      rcases rel_or_eq_or_rel (pairwise_runs (unionCells args)) hrun hrun' with hcut | heq | hcut
      · have hlt := hcut _ rest rfl _ List.mem_cons_self
        have hlast : ent.1 ≤ (rest.getLastD ((i, j), ent)).2.2 := by
          have hmem : rest.getLastD ((i, j), ent) ∈ ((i, j), ent) :: rest := List.getLastD_mem_cons
          have hsorted := (List.pairwise_flatten.mp (pairwise_flatten_runs (unionCells args))).1 _ hrun
          have hle := le_of_entryLe (entryLe_getLastD hsorted List.mem_cons_self)
          exact hle.trans (hne _ (mem_cells_of_mem_runs hrun hmem))
        have hent' := hsepr.nonempty ent' (List.mem_of_getElem? he')
        have heq := hsepr.eq_of_mem (List.mem_of_getElem? he) (List.mem_of_getElem? he')
          (hlast.trans (hlt.le.trans hent')) hlo
        subst heq
        exact absurd (hlast.trans_lt hlt) (lt_irrefl _)
      · obtain ⟨hcell, rfl⟩ := List.cons_eq_cons.mp heq
        rw [hcell]
        exact hhi
      · have hlt := hcut _ rest' rfl _ List.mem_cons_self
        exact absurd (hhi.trans_lt hlt) (not_lt_of_ge hent)
    · rw [get?_pruneCells_of_not_opens hr he' (not_exists.mp hopens), Option.getD_none] at hlo hhi
      have heq := hsepr.eq_of_mem (List.mem_of_getElem? he) (List.mem_of_getElem? he')
        (hent.trans hhi) hlo
      subst heq
      -- an entry has one place in its argument
      have hj : j = j' := by
        have hnodup : r.Nodup := hsepr.pairwise.imp_of_mem fun {e f} he _ hlt heq => by
          have := hsepr.nonempty e he
          rw [heq] at this hlt
          omega
        exact (List.getElem?_inj (List.getElem?_eq_some_iff.mp he).1 hnodup).mp (he.trans he'.symm)
      subst hj
      exact absurd ⟨rest, hrun⟩ hopens
  · intro x hx hx'
    refine ⟨r, hr, ?_⟩
    rw [← h i r hr]
    have hent : ent.1 ≤ ent.2 := hsepr.nonempty ent (List.mem_of_getElem? he)
    change ent.2 < x at hx
    refine mem_points_afterUnion.mpr ⟨j, ent, he, ?_⟩
    rw [hget]
    exact ⟨by show ent.1 ≤ x; omega, hx'⟩

theorem afterUnion_of_owned (hsep : ∀ r ∈ args, Separated r) (h : Owned args) {i : ℕ}
    {r : HexRanges} (hr : args[i]? = some r) : points (afterUnion args i r) = points r := by
  ext x
  rw [mem_points_afterUnion]
  constructor
  · rintro ⟨j, ent, he, hlo, hhi⟩
    by_cases hopens : ∃ rest, ((i, j), ent) :: rest ∈ runs (unionCells args)
    · obtain ⟨rest, hrun⟩ := hopens
      rw [get?_pruneCells_of_opens hsep hrun, Option.getD_some] at hlo hhi
      rcases le_or_gt x ent.2 with hx | hx
      · exact ⟨ent, List.mem_of_getElem? he, hlo, hx⟩
      · obtain ⟨s, hs, hxs⟩ := (h _ _ hrun).2 x hx hhi
        obtain rfl := Option.some_inj.mp (hr.symm.trans hs)
        exact hxs
    · rw [get?_pruneCells_of_not_opens hr he (not_exists.mp hopens), Option.getD_none] at hlo hhi
      exact ⟨ent, List.mem_of_getElem? he, hlo, hhi⟩
  · rintro ⟨ent, he, hlo, hhi⟩
    obtain ⟨j, he⟩ := List.mem_iff_getElem?.mp he
    refine ⟨j, ent, he, ?_⟩
    by_cases hopens : ∃ rest, ((i, j), ent) :: rest ∈ runs (unionCells args)
    · obtain ⟨rest, hrun⟩ := hopens
      rw [get?_pruneCells_of_opens hsep hrun, Option.getD_some]
      exact ⟨hlo, hhi.trans (h _ _ hrun).1⟩
    · rw [get?_pruneCells_of_not_opens hr he (not_exists.mp hopens), Option.getD_none]
      exact ⟨hlo, hhi⟩

/-- When the overlaps are harmless: the last entry that starts at or before an integer reaches it,
and every run is inside the argument that its first entry belongs to. -/
structure Harmless (args : List HexRanges) : Prop where
  covers : Covers args.flatten
  owned : Owned args

/-- **`union` is set union** exactly when the overlaps are harmless. -/
theorem union_correct_iff (hsep : ∀ r ∈ args, Separated r) :
    (Separated (union args).1 ∧ (∀ x, x ∈ points (union args).1 ↔ ∃ r ∈ args, x ∈ points r) ∧
      (union args).2.map points = args.map points) ↔ Harmless args := by
  have hne := nonempty_of_mem_unionCells hsep
  have hsep' : Separated (union args).1 := separated_pruneCells hne
  have hpoints : (∀ x, x ∈ points (union args).1 ↔ ∃ r ∈ args, x ∈ points r) ↔
      Covers args.flatten := by
    rw [← map_snd_unionCells, ← points_pruneCells_eq_iff hne, map_snd_unionCells, Set.ext_iff]
    simp only [Ranges.mem_points_flatten]
    rfl
  rw [and_iff_right hsep', hpoints, map_points_union_eq_iff]
  constructor
  · rintro ⟨hcovers, hargs⟩
    exact ⟨hcovers, owned_of_afterUnion hsep hargs⟩
  · rintro ⟨hcovers, howned⟩
    exact ⟨hcovers, fun i r hr => afterUnion_of_owned hsep howned hr⟩

theorem union_correct_apart :
    (Separated (union [[(0, 1)], [(3, 5)]]).1 ∧
      (∀ x, x ∈ points (union [[(0, 1)], [(3, 5)]]).1 ↔
        ∃ r ∈ ([[(0, 1)], [(3, 5)]] : List HexRanges), x ∈ points r) ∧
      (union [[(0, 1)], [(3, 5)]]).2.map points =
        ([[(0, 1)], [(3, 5)]] : List HexRanges).map points) ↔ Harmless [[(0, 1)], [(3, 5)]] := by
  refine union_correct_iff ?_
  simp only [List.forall_mem_cons]
  exact ⟨Ranges.separated_singleton (by decide), Ranges.separated_singleton (by decide), by simp⟩

/-- **A nested range** is lost together with the end of the range around it, in the result and in
the argument. -/
theorem not_union_nested :
    ¬ (Separated (union [[(0, 10)], [(2, 3)]]).1 ∧
      (∀ x, x ∈ points (union [[(0, 10)], [(2, 3)]]).1 ↔
        ∃ r ∈ ([[(0, 10)], [(2, 3)]] : List HexRanges), x ∈ points r) ∧
      (union [[(0, 10)], [(2, 3)]]).2.map points =
        ([[(0, 10)], [(2, 3)]] : List HexRanges).map points) := by
  rintro ⟨-, hpoints, -⟩
  have hunion : (union [[(0, 10)], [(2, 3)]]).1 = [(0, 3)] := by decide
  have hmem := (hpoints 10).mpr ⟨[(0, 10)], List.mem_cons_self, (0, 10), List.mem_cons_self,
    by decide, by decide⟩
  rw [hunion] at hmem
  obtain ⟨e, he, -, hle⟩ := hmem
  obtain rfl := List.mem_singleton.mp he
  exact absurd hle (by decide)

end Arguments

/-! ## The text -/

/-- **The text of a list of ranges is read back** as the same list, however often it is written. -/
theorem reread {entries : HexRanges} (h : Separated entries) (hpos : ∀ e ∈ entries, 0 ≤ e.1) :
    ofStr (toStr entries) = entries ∧
      ∀ n, (fun es => ofStr (toStr es))^[n] entries = entries :=
  ⟨ofStr_toStr h hpos, Function.iterate_fixed (ofStr_toStr h hpos)⟩

theorem reread_adjacent : ofStr (toStr [(0, 1), (2, 2)]) = [(0, 1), (2, 2)] ∧
    ∀ n, (fun es => ofStr (toStr es))^[n] [(0, 1), (2, 2)] = [(0, 1), (2, 2)] := by
  have hsep : Separated [((0 : ℤ), (1 : ℤ)), (2, 2)] :=
    Ranges.separated_cons_iff.mpr
      ⟨by decide, by simp, Ranges.separated_singleton (by decide)⟩
  exact reread hsep (by simp)

end HexRanges
end LdmsTest
