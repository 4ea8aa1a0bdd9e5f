import Mathlib.Data.Set.Basic

/-!
# Items that are passed on through levels of nodes

The nodes of the lowest level have items of their own.  A node of a higher level collects what its
kids, nodes of the level right below, pass on to it, if they are up.  No two nodes share a kid or an
item.

* `all`: the items of a node, when all nodes are up.
* `shown`: the items that a node collects.
* `expected`: what is to be collected when some nodes of one level are left out: above this level all
  items but those of the nodes left out, and up to it all items.
* `Seen`: the nodes that are not left out are up, and those that are left out pass nothing on.
* `shown_eq_expected_iff`: every node that is not left out is up and collects what is to be
  collected, exactly when this is so.
-/

namespace LdmsTest

/-- Nodes at levels, the kids of each, and the items of the lowest level. -/
structure Relays (ν ι : Type*) where
  nodes : ℕ → Set ν
  kids : ℕ → ν → Set ν
  own : ν → Set ι
  kids_subset : ∀ {k x}, x ∈ nodes (k + 1) → kids k x ⊆ nodes k
  eq_of_mem_kids : ∀ {k x x' y}, x ∈ nodes (k + 1) → x' ∈ nodes (k + 1) → y ∈ kids k x →
    y ∈ kids k x' → x = x'
  own_nonempty : ∀ {x}, x ∈ nodes 0 → (own x).Nonempty
  eq_of_mem_own : ∀ {x x' a}, x ∈ nodes 0 → x' ∈ nodes 0 → a ∈ own x → a ∈ own x' → x = x'

namespace Relays

variable {ν ι : Type*} (R : Relays ν ι)

/-- The items of a node. -/
def all : ℕ → ν → Set ι
  | 0, x => R.own x
  | k + 1, x => {a | ∃ y ∈ R.kids k x, a ∈ all k y}

/-- The items that a node collects from the kids that are up. -/
def shown (up : ℕ → ν → Prop) : ℕ → ν → Set ι
  | 0, x => R.own x
  | k + 1, x => {a | ∃ y ∈ R.kids k x, up k y ∧ a ∈ shown up k y}

/-- The items of some nodes of a level. -/
def hidden (k : ℕ) (D : Set ν) : Set ι :=
  {a | ∃ z ∈ D, a ∈ R.all k z}

/-- What a node is to collect when some nodes of a level are left out. -/
def expected (k : ℕ) (D : Set ν) (j : ℕ) (x : ν) : Set ι :=
  {a | a ∈ R.all j x ∧ (k < j → a ∉ R.hidden k D)}

/-- A node is left out. -/
def Out (k : ℕ) (D : Set ν) (j : ℕ) (x : ν) : Prop :=
  j = k ∧ x ∈ D

/-- **What is seen of the nodes** from the levels up to `n`: those that are not left out are up, and
those that are left out pass nothing on. -/
structure Seen (n k : ℕ) (D : Set ν) (up : ℕ → ν → Prop) : Prop where
  running : ∀ j, 1 ≤ j → j ≤ n → ∀ x ∈ R.nodes j, ¬ Out k D j x → up j x
  leaves : ∀ x ∈ R.nodes 1, ¬ Out k D 1 x → ∀ y ∈ R.kids 0 x, ¬ Out k D 0 y → up 0 y
  silent : k < n → ∀ x ∈ R.nodes (k + 1), ∀ y ∈ R.kids k x, y ∈ D → up k y → R.shown up k y = ∅

variable {R} {up : ℕ → ν → Prop}

theorem shown_subset : ∀ k x, R.shown up k x ⊆ R.all k x
  | 0, _ => subset_rfl
  | k + 1, _ => fun _ ⟨y, hy, _, ha⟩ => ⟨y, hy, shown_subset k y ha⟩

/-- **No item is of two nodes** of a level. -/
theorem eq_of_mem_all : ∀ {k x x' a}, x ∈ R.nodes k → x' ∈ R.nodes k → a ∈ R.all k x →
    a ∈ R.all k x' → x = x'
  | 0, _, _, _, hx, hx', ha, ha' => R.eq_of_mem_own hx hx' ha ha'
  | k + 1, x, x', a, hx, hx', ⟨y, hy, ha⟩, ⟨y', hy', ha'⟩ => by
    obtain rfl := eq_of_mem_all (R.kids_subset hx hy) (R.kids_subset hx' hy') ha ha'
    exact R.eq_of_mem_kids hx hx' hy hy'

section LeftOut

variable {n k : ℕ} {D : Set ν}

/-- The items of a node of the level are those of a node left out only if it is left out. -/
theorem mem_hidden_iff (hD : D ⊆ R.nodes k) {y : ν} (hy : y ∈ R.nodes k) {a : ι}
    (ha : a ∈ R.all k y) : a ∈ R.hidden k D ↔ y ∈ D := by
  constructor
  · rintro ⟨z, hz, haz⟩
    rwa [eq_of_mem_all hy (hD hz) ha haz]
  · exact fun hyD => ⟨y, hyD, ha⟩

/-- What is seen when the nodes that are not left out collect what they are to collect. -/
theorem Seen.of_shown (hD : D ⊆ R.nodes k) (hn : 1 ≤ n)
    (h : ∀ j, 1 ≤ j → j ≤ n → ∀ x ∈ R.nodes j, ¬ Out k D j x →
      up j x ∧ R.shown up j x = R.expected k D j x) : R.Seen n k D up where
  running := fun j hj hjn x hx hout => (h j hj hjn x hx hout).1
  leaves := by
    intro x hx hout y hy hyout
    have hy₀ := R.kids_subset hx hy
    obtain ⟨a, ha⟩ := R.own_nonempty hy₀
    have hmem : a ∈ R.expected k D 1 x := by
      refine ⟨⟨y, hy, ha⟩, fun hk hhidden => hyout ?_⟩
      obtain rfl : k = 0 := Nat.lt_one_iff.mp hk
      exact ⟨rfl, (mem_hidden_iff hD hy₀ ha).mp hhidden⟩
    rw [← (h 1 le_rfl hn x hx hout).2] at hmem
    obtain ⟨y', hy', hup, ha'⟩ := hmem
    rwa [eq_of_mem_all (k := 0) hy₀ (R.kids_subset hx hy') ha ha']
  silent := by
    intro hkn x hx y hy hyD hup
    refine Set.eq_empty_of_forall_notMem fun a ha => ?_
    have hout : ¬ Out k D (k + 1) x := fun hout => Nat.succ_ne_self k hout.1
    have hmem : a ∈ R.shown up (k + 1) x := ⟨y, hy, hup, ha⟩
    rw [(h (k + 1) (Nat.succ_pos k) hkn x hx hout).2] at hmem
    exact hmem.2 (Nat.lt_succ_self k) ⟨y, hyD, shown_subset k y ha⟩

/-- A node collects what it is to collect, if this is so for its kids that are not left out. -/
theorem Seen.shown_succ (hD : D ⊆ R.nodes k) (h : R.Seen n k D up) {j : ℕ} (hjn : j + 1 ≤ n)
    (ih : 1 ≤ j → ∀ y ∈ R.nodes j, ¬ Out k D j y → R.shown up j y = R.expected k D j y) {x : ν}
    (hx : x ∈ R.nodes (j + 1)) (hout : ¬ Out k D (j + 1) x) :
    R.shown up (j + 1) x = R.expected k D (j + 1) x := by
  have hkid : ∀ y ∈ R.kids j x, ¬ Out k D j y → up j y ∧ R.shown up j y = R.expected k D j y := by
    intro y hy hyout
    cases j with
    | zero =>
      refine ⟨h.leaves x hx hout y hy hyout, Set.ext fun a => ⟨fun ha => ⟨ha, nofun⟩, And.left⟩⟩
    | succ j =>
      have hy' := R.kids_subset hx hy
      exact ⟨h.running _ (Nat.succ_pos j) (Nat.le_of_succ_le hjn) y hy' hyout,
        ih (Nat.succ_pos j) y hy' hyout⟩
  ext a
  constructor
  · rintro ⟨y, hy, hup, ha⟩
    have hall := shown_subset j y ha
    refine ⟨⟨y, hy, hall⟩, fun hkj hhidden => ?_⟩
    by_cases hyout : Out k D j y
    · obtain ⟨rfl, hyD⟩ := hyout
      rw [h.silent hjn x hx y hy hyD hup] at ha
      exact ha
    · rcases Nat.lt_succ_iff_lt_or_eq.mp hkj with hlt | rfl
      · rw [(hkid y hy hyout).2] at ha
        exact ha.2 hlt hhidden
      · exact hyout ⟨rfl, (mem_hidden_iff hD (R.kids_subset hx hy) hall).mp hhidden⟩
  · rintro ⟨⟨y, hy, ha⟩, hhidden⟩
    have hyout : ¬ Out k D j y := by
      rintro ⟨rfl, hyD⟩
      exact hhidden (Nat.lt_succ_self j) ⟨y, hyD, ha⟩
    obtain ⟨hup, hshown⟩ := hkid y hy hyout
    refine ⟨y, hy, hup, ?_⟩
    rw [hshown]
    exact ⟨ha, fun hlt => hhidden (Nat.lt_succ_of_lt hlt)⟩

theorem Seen.shown_eq (hD : D ⊆ R.nodes k) (h : R.Seen n k D up) : ∀ j, 1 ≤ j → j ≤ n →
    ∀ x ∈ R.nodes j, ¬ Out k D j x → R.shown up j x = R.expected k D j x
  | 0, hj, _, _, _, _ => absurd hj (by decide)
  | j + 1, _, hjn, _, hx, hout =>
    h.shown_succ hD hjn (fun hj => h.shown_eq hD j hj (Nat.le_of_succ_le hjn)) hx hout

/-- **When every node collects what it is to collect**: exactly when the nodes that are not left out
are seen to be up, and nothing is seen of the others. -/
theorem shown_eq_expected_iff (hD : D ⊆ R.nodes k) (hn : 1 ≤ n) :
    (∀ j, 1 ≤ j → j ≤ n → ∀ x ∈ R.nodes j, ¬ Out k D j x →
      up j x ∧ R.shown up j x = R.expected k D j x) ↔ R.Seen n k D up :=
  ⟨Seen.of_shown hD hn, fun h j hj hjn x hx hout =>
    ⟨h.running j hj hjn x hx hout, h.shown_eq hD j hj hjn x hx hout⟩⟩

end LeftOut

end Relays
end LdmsTest
