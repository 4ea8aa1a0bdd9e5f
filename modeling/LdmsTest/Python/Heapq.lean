import Mathlib.Data.List.Perm.Basic
import Mathlib.Data.Nat.Basic
import Mathlib.Order.Lattice

/-!
# `heapq`

The heap operations of the standard library, on a list with the comparison `lt`.  The loops
take a bound on their number of turns, for which the length of the list is enough.

* `HeapFrom`: from a position on, no item is above one of its children.  A heap is `HeapFrom` 0.
* `Hole`: the order of the items without the one at a position, which is on its way.
* `siftup_spec`: `_siftup` puts an item where it belongs, among the items below it.
* `heapify_spec`, `heapreplace_spec`: the results are heaps of the same items.
* `HeapFrom.root_le`: the root of a heap is a least item.
-/

namespace LdmsTest
namespace Heapq

variable {α : Type*}

/-- The loop of `_siftdown`: `newitem` is on its way up from `pos`. -/
def siftdownLoop (lt : α → α → Bool) (startpos : ℕ) (newitem : α) :
    ℕ → List α → ℕ → List α
  | 0, heap, pos => heap.set pos newitem
  | n + 1, heap, pos =>
    if startpos < pos then
      let parentpos := (pos - 1) / 2
      match heap[parentpos]? with
      | some parent =>
        if lt newitem parent then siftdownLoop lt startpos newitem n (heap.set pos parent) parentpos
        else heap.set pos newitem
      | none => heap
    else heap.set pos newitem

/-- `_siftdown(heap, startpos, pos)` -/
def siftdown (lt : α → α → Bool) (heap : List α) (startpos pos : ℕ) : List α :=
  match heap[pos]? with
  | some newitem => siftdownLoop lt startpos newitem heap.length heap pos
  | none => heap

/-- The loop of `_siftup`: smaller children move up until a leaf is hit. -/
def siftupLoop (lt : α → α → Bool) : ℕ → List α → ℕ → List α × ℕ
  | 0, heap, pos => (heap, pos)
  | n + 1, heap, pos =>
    let childpos := 2 * pos + 1
    match heap[childpos]?, heap[childpos + 1]? with
    | some child, some right =>
      if lt child right then siftupLoop lt n (heap.set pos child) childpos
      else siftupLoop lt n (heap.set pos right) (childpos + 1)
    | some child, none => siftupLoop lt n (heap.set pos child) childpos
    | none, _ => (heap, pos)

/-- `_siftup(heap, pos)` -/
def siftup (lt : α → α → Bool) (heap : List α) (pos : ℕ) : List α :=
  match heap[pos]? with
  | some newitem =>
    let (moved, leaf) := siftupLoop lt heap.length heap pos
    siftdown lt (moved.set leaf newitem) pos leaf
  | none => heap

/-- `heapify(x)` -/
def heapify (lt : α → α → Bool) (x : List α) : List α :=
  (List.range (x.length / 2)).reverse.foldl (siftup lt) x

/-- `heapreplace(heap, item)`: the heap after it -/
def heapreplace (lt : α → α → Bool) (heap : List α) (item : α) : List α :=
  siftup lt (heap.set 0 item) 0

/-! ## The length of a heap -/

theorem length_siftdownLoop (lt : α → α → Bool) (startpos : ℕ) (newitem : α) (n : ℕ)
    (heap : List α) (pos : ℕ) :
    (siftdownLoop lt startpos newitem n heap pos).length = heap.length := by
  induction n generalizing heap pos with
  | zero => exact List.length_set
  | succ n ih =>
    rw [siftdownLoop]
    split
    · dsimp only
      split
      · split
        · rw [ih, List.length_set]
        · exact List.length_set
      · rfl
    · exact List.length_set

theorem length_siftdown (lt : α → α → Bool) (heap : List α) (startpos pos : ℕ) :
    (siftdown lt heap startpos pos).length = heap.length := by
  unfold siftdown
  split
  · exact length_siftdownLoop lt startpos _ _ heap pos
  · rfl

theorem length_siftupLoop (lt : α → α → Bool) (n : ℕ) (heap : List α) (pos : ℕ) :
    (siftupLoop lt n heap pos).1.length = heap.length := by
  induction n generalizing heap pos with
  | zero => rfl
  | succ n ih =>
    rw [siftupLoop]
    split
    · split
      · rw [ih, List.length_set]
      · rw [ih, List.length_set]
    · rw [ih, List.length_set]
    · rfl

theorem length_siftup (lt : α → α → Bool) (heap : List α) (pos : ℕ) :
    (siftup lt heap pos).length = heap.length := by
  unfold siftup
  split
  · rw [length_siftdown, List.length_set, length_siftupLoop]
  · rfl

theorem length_heapify (lt : α → α → Bool) (x : List α) : (heapify lt x).length = x.length := by
  unfold heapify
  generalize (List.range (x.length / 2)).reverse = ps
  induction ps generalizing x with
  | nil => rfl
  | cons p ps ih => rw [List.foldl_cons, ih, length_siftup]

theorem length_heapreplace (lt : α → α → Bool) (heap : List α) (item : α) :
    (heapreplace lt heap item).length = heap.length := by
  rw [heapreplace, length_siftup, List.length_set]

/-! ## The order of a heap -/

/-- `c` is a child of `p`. -/
def Child (c p : ℕ) : Prop :=
  c = 2 * p + 1 ∨ c = 2 * p + 2

/-- `p` is at `s` or below. -/
inductive Below (s : ℕ) : ℕ → Prop where
  | refl : Below s s
  | child {p c : ℕ} : Below s p → Child c p → Below s c

theorem Below.le {s p : ℕ} (h : Below s p) : s ≤ p := by
  induction h with
  | refl => exact le_rfl
  | child _ hc ih =>
    unfold Child at hc
    omega

theorem Child.parent {c p : ℕ} (h : Child c p) : (c - 1) / 2 = p := by
  unfold Child at h
  omega

theorem child_parent {c : ℕ} (hc : 0 < c) : Child c ((c - 1) / 2) := by
  unfold Child
  omega

theorem Below.parent {s p : ℕ} (h : Below s p) (hlt : s < p) : Below s ((p - 1) / 2) := by
  cases h with
  | refl => exact absurd hlt (lt_irrefl _)
  | child hp hc => rwa [hc.parent]

section Order

variable {K : Type*} [LinearOrder K]

/-- The comparison is that of the keys. -/
def Compares (lt : α → α → Bool) (key : α → K) : Prop :=
  ∀ a b, lt a b = true ↔ key a < key b

variable {key : α → K}

/-- The item at `i` is not above the one at `j`, if there are such items. -/
def InOrder (key : α → K) (heap : List α) (i j : ℕ) : Prop :=
  ∀ x ∈ heap[i]?, ∀ y ∈ heap[j]?, key x ≤ key y

/-- From `s` on, no item is above one of its children. -/
def HeapFrom (key : α → K) (s : ℕ) (heap : List α) : Prop :=
  ∀ p c, s ≤ p → Child c p → InOrder key heap p c

/-- The order from `s` on, without the item at `p`. -/
structure Hole (key : α → K) (s : ℕ) (heap : List α) (p : ℕ) : Prop where
  off : ∀ q c, s ≤ q → Child c q → q ≠ p → c ≠ p → InOrder key heap q c
  across : ∀ q c, s ≤ q → Child p q → Child c p → InOrder key heap q c

/-- The item `e` is not above the children of `p`. -/
def Under (key : α → K) (heap : List α) (p : ℕ) (e : α) : Prop :=
  ∀ c, Child c p → ∀ y ∈ heap[c]?, key e ≤ key y

theorem inOrder_set_iff {heap : List α} {p q c : ℕ} {x : α} (hq : q ≠ p) (hc : c ≠ p) :
    InOrder key (heap.set p x) q c ↔ InOrder key heap q c := by
  rw [InOrder, List.getElem?_set_ne hq.symm, List.getElem?_set_ne hc.symm]
  exact Iff.rfl

theorem eq_of_mem_getElem?_set {heap : List α} {p : ℕ} {x y : α} (h : y ∈ (heap.set p x)[p]?) :
    y = x := by
  rw [List.getElem?_set_self'] at h
  obtain ⟨z, -, hz⟩ := Option.map_eq_some_iff.mp h
  exact hz.symm

/-- An item that is set, and an item below it. -/
theorem inOrder_set_left {heap : List α} {p c : ℕ} {x : α} (hc : c ≠ p)
    (h : ∀ y ∈ heap[c]?, key x ≤ key y) : InOrder key (heap.set p x) p c := by
  intro a ha y hy
  rw [List.getElem?_set_ne hc.symm] at hy
  rw [eq_of_mem_getElem?_set ha]
  exact h y hy

/-- An item that is set, and an item above it. -/
theorem inOrder_set_right {heap : List α} {q p : ℕ} {x : α} (hq : q ≠ p)
    (h : ∀ y ∈ heap[q]?, key y ≤ key x) : InOrder key (heap.set p x) q p := by
  intro y hy a ha
  rw [List.getElem?_set_ne hq.symm] at hy
  rw [eq_of_mem_getElem?_set ha]
  exact h y hy

theorem Child.lt {c p : ℕ} (h : Child c p) : p < c := by
  unfold Child at h
  omega

theorem Child.unique {c p q : ℕ} (hp : Child c p) (hq : Child c q) : p = q :=
  hp.parent.symm.trans hq.parent

/-- **The least child moves up** into the hole. -/
theorem Hole.up {s p c : ℕ} {heap : List α} {child : α} (h : Hole key s heap p) (hs : s ≤ p)
    (hc : Child c p) (hchild : heap[c]? = some child)
    (hmin : ∀ d, Child d p → d ≠ c → ∀ y ∈ heap[d]?, key child ≤ key y) :
    Hole key s (heap.set p child) c := by
  refine ⟨fun q d hq hd hqc hdc => ?_, fun q d hq hcq hd => ?_⟩
  · by_cases hdp : d = p
    · subst hdp
      exact inOrder_set_right hd.lt.ne fun y hy => h.across q c hq hd hc y hy child hchild
    · by_cases hqp : q = p
      · subst hqp
        exact inOrder_set_left hdp (hmin d hd hdc)
      · exact (inOrder_set_iff hqp hdp).mpr (h.off q d hq hd hqp hdp)
  · obtain rfl := hcq.unique hc
    have hdq : d ≠ q := (hc.lt.trans hd.lt).ne'
    exact inOrder_set_left hdq fun y hy =>
      h.off c d (hs.trans hc.lt.le) hd hc.lt.ne' hdq child hchild y hy

/-- **The parent moves down** into the hole. -/
theorem Hole.down {s p q : ℕ} {heap : List α} {parent : α} (h : Hole key s heap p) (hs : s ≤ q)
    (hp : Child p q) (hparent : heap[q]? = some parent) : Hole key s (heap.set p parent) q := by
  have hqp : q ≠ p := hp.lt.ne
  refine ⟨fun r c hr hc hrq hcq => ?_, fun r c hr hqr hc => ?_⟩
  · have hcp : c ≠ p := by
      rintro rfl
      exact hrq (hc.unique hp)
    by_cases hrp : r = p
    · subst hrp
      exact inOrder_set_left hcp (h.across q c hs hp hc parent hparent)
    · exact (inOrder_set_iff hrp hcp).mpr (h.off r c hr hc hrp hcp)
  · have hrp : r ≠ p := (hqr.lt.trans hp.lt).ne
    have habove : ∀ y ∈ heap[r]?, key y ≤ key parent := fun y hy =>
      h.off r q hr hqr hrp hqp y hy parent hparent
    by_cases hcp : c = p
    · subst hcp
      exact inOrder_set_right hrp habove
    · refine (inOrder_set_iff hrp hcp).mpr fun x hx y hy => ?_
      exact (habove x hx).trans (h.off q c hs hc hqp hcp parent hparent y hy)

theorem Hole.under_down {s p q : ℕ} {heap : List α} {parent e : α} (h : Hole key s heap p)
    (hs : s ≤ q) (hp : Child p q) (hparent : heap[q]? = some parent) (he : key e < key parent) :
    Under key (heap.set p parent) q e := by
  intro c hc y hy
  by_cases hcp : c = p
  · subst hcp
    rw [eq_of_mem_getElem?_set hy]
    exact he.le
  · rw [List.getElem?_set_ne (Ne.symm hcp)] at hy
    exact he.le.trans (h.off q c hs hc hp.lt.ne hcp parent hparent y hy)

/-- **The hole is filled** with an item that is between its parent and its children. -/
theorem Hole.fill {s p : ℕ} {heap : List α} {e : α} (h : Hole key s heap p)
    (habove : ∀ q, s ≤ q → Child p q → ∀ y ∈ heap[q]?, key y ≤ key e)
    (hunder : Under key heap p e) : HeapFrom key s (heap.set p e) := by
  intro q c hq hc
  by_cases hcp : c = p
  · subst hcp
    exact inOrder_set_right hc.lt.ne (habove q hq hc)
  · by_cases hqp : q = p
    · subst hqp
      exact inOrder_set_left hcp (hunder c hc)
    · exact (inOrder_set_iff hqp hcp).mpr (h.off q c hq hc hqp hcp)

/-- **The way up** ends where the item belongs. -/
theorem heapFrom_siftdownLoop {lt : α → α → Bool} (hlt : Compares lt key) {s : ℕ} {e : α} {n : ℕ}
    {heap : List α} {p : ℕ} (hole : Hole key s heap p) (hunder : Under key heap p e)
    (hbelow : Below s p) (hn : p ≤ n) (hp : p < heap.length) :
    HeapFrom key s (siftdownLoop lt s e n heap p) := by
  induction n generalizing heap p with
  | zero =>
    refine hole.fill (fun q hq hpq => ?_) hunder
    have := hpq.lt
    omega
  | succ n ih =>
    rw [siftdownLoop]
    split
    · next hsp =>
      have hchild : Child p ((p - 1) / 2) := child_parent (Nat.zero_lt_of_lt hsp)
      have hparent := hbelow.parent hsp
      have hlen : (p - 1) / 2 < heap.length := hchild.lt.trans hp
      simp only [List.getElem?_eq_getElem hlen]
      have hget : heap[(p - 1) / 2]? = some heap[(p - 1) / 2] := List.getElem?_eq_getElem hlen
      split
      · next hless =>
        have hless := (hlt _ _).mp hless
        exact ih (hole.down hparent.le hchild hget)
          (hole.under_down hparent.le hchild hget hless) hparent (by omega)
          (by rwa [List.length_set])
      · next hnot =>
        refine hole.fill (fun q hq hpq y hy => ?_) hunder
        obtain rfl := hpq.unique hchild
        cases hget.symm.trans hy
        exact not_lt.mp fun hless => hnot ((hlt _ _).mpr hless)
    · next hsp =>
      refine hole.fill (fun q hq hpq => ?_) hunder
      have := hpq.lt
      have := hbelow.le
      omega

/-- **The way down** of the hole ends at a leaf. -/
theorem hole_siftupLoop {lt : α → α → Bool} (hlt : Compares lt key) {s : ℕ} {n : ℕ}
    {heap : List α} {p : ℕ} (hole : Hole key s heap p) (hbelow : Below s p)
    (hn : heap.length ≤ p + n) (hp : p < heap.length) :
    Hole key s (siftupLoop lt n heap p).1 (siftupLoop lt n heap p).2 ∧
      Below s (siftupLoop lt n heap p).2 ∧ (siftupLoop lt n heap p).2 < heap.length ∧
      heap.length ≤ 2 * (siftupLoop lt n heap p).2 + 1 := by
  induction n generalizing heap p with
  | zero => exact ⟨hole, hbelow, hp, by omega⟩
  | succ n ih =>
    have hleft : Child (2 * p + 1) p := Or.inl rfl
    have hright : Child (2 * p + 2) p := Or.inr rfl
    rw [siftupLoop]
    split
    · next child right hchild hrightget =>
      have hlen : 2 * p + 2 < heap.length := (List.getElem?_eq_some_iff.mp hrightget).1
      split
      · next hless =>
        have hless := (hlt _ _).mp hless
        have hole' := hole.up hbelow.le hleft hchild fun d hd hne y hy => by
          obtain rfl : d = 2 * p + 2 := hd.resolve_left hne
          cases hrightget.symm.trans hy
          exact hless.le
        have h := ih hole' (hbelow.child hleft) (by rw [List.length_set]; omega)
          (by rw [List.length_set]; omega)
        rwa [List.length_set] at h
      · next hnot =>
        have hge := not_lt.mp fun hless => hnot ((hlt _ _).mpr hless)
        have hole' := hole.up hbelow.le hright hrightget fun d hd hne y hy => by
          obtain rfl : d = 2 * p + 1 := hd.resolve_right hne
          cases hchild.symm.trans hy
          exact hge
        have h := ih hole' (hbelow.child hright) (by rw [List.length_set]; omega)
          (by rw [List.length_set]; omega)
        rwa [List.length_set] at h
    · next child hchild hnone =>
      have hlen : 2 * p + 1 < heap.length := (List.getElem?_eq_some_iff.mp hchild).1
      have hole' := hole.up hbelow.le hleft hchild fun d hd hne y hy => by
        obtain rfl : d = 2 * p + 2 := hd.resolve_left hne
        cases hnone.symm.trans hy
      have h := ih hole' (hbelow.child hleft) (by rw [List.length_set]; omega)
        (by rw [List.length_set]; omega)
      rwa [List.length_set] at h
    · next hnone =>
      exact ⟨hole, hbelow, hp, List.getElem?_eq_none_iff.mp hnone⟩

end Order

/-! ## The items of a heap -/

/-- An item moves into the hole: the hole is where the item was. -/
theorem set_set_perm_set {heap : List α} {p q : ℕ} {x : α} (e : α) (hne : p ≠ q)
    (hp : p < heap.length) (hq : heap[q]? = some x) :
    ((heap.set p x).set q e).Perm (heap.set p e) := by
  obtain ⟨hlen, hx⟩ := List.getElem?_eq_some_iff.mp hq
  have hp' : p < (heap.set p e).length := by rwa [List.length_set]
  have hq' : q < (heap.set p e).length := by rwa [List.length_set]
  have hswap := List.set_set_perm hp' hq'
  rwa [List.getElem_set_self, List.getElem_set_ne hne, hx, List.set_set] at hswap

theorem siftdownLoop_perm (lt : α → α → Bool) (s : ℕ) (e : α) (n : ℕ) {heap : List α} {p : ℕ}
    (hp : p < heap.length) : (siftdownLoop lt s e n heap p).Perm (heap.set p e) := by
  induction n generalizing heap p with
  | zero => exact List.Perm.refl _
  | succ n ih =>
    rw [siftdownLoop]
    split
    · next hsp =>
      have hne : p ≠ (p - 1) / 2 := by omega
      have hlen : (p - 1) / 2 < heap.length := by omega
      have hget := List.getElem?_eq_getElem hlen
      simp only [hget]
      split
      · exact (ih (by rwa [List.length_set])).trans (set_set_perm_set e hne hp hget)
      · exact List.Perm.refl _
    · exact List.Perm.refl _

theorem siftupLoop_perm (lt : α → α → Bool) (e : α) (n : ℕ) {heap : List α} {p : ℕ}
    (hp : p < heap.length) :
    ((siftupLoop lt n heap p).1.set (siftupLoop lt n heap p).2 e).Perm (heap.set p e) := by
  induction n generalizing heap p with
  | zero => exact List.Perm.refl _
  | succ n ih =>
    have hmove {c : ℕ} {child : α} (hpc : p < c) (hchild : heap[c]? = some child) :
        ((siftupLoop lt n (heap.set p child) c).1.set
          (siftupLoop lt n (heap.set p child) c).2 e).Perm (heap.set p e) := by
      have hlen : c < heap.length := (List.getElem?_eq_some_iff.mp hchild).1
      exact (ih (by rwa [List.length_set])).trans (set_set_perm_set e hpc.ne hp hchild)
    rw [siftupLoop]
    split
    · next child right hchild hright =>
      split
      · exact hmove (by omega) hchild
      · exact hmove (by omega) hright
    · next child hchild hnone => exact hmove (by omega) hchild
    · exact List.Perm.refl _

/-! ## The operations -/

section Order

variable {K : Type*} [LinearOrder K] {key : α → K} {lt : α → α → Bool}

/-- **`_siftup`** puts the item at `p` in order with those below it. -/
theorem siftup_spec (hlt : Compares lt key) {heap : List α} {p : ℕ} (hp : p < heap.length)
    (h : HeapFrom key (p + 1) heap) :
    HeapFrom key p (siftup lt heap p) ∧ (siftup lt heap p).Perm heap := by
  have hole : Hole key p heap p := by
    refine ⟨fun q c hq hc hqp _ => h q c (by omega) hc, fun q c hq hpq _ => ?_⟩
    exact absurd hpq.lt (not_lt.mpr hq)
  obtain ⟨hole', hbelow, hlen, hleaf⟩ :=
    hole_siftupLoop hlt hole .refl (Nat.le_add_left _ p) hp
  have hperm := siftupLoop_perm lt heap[p] heap.length hp
  have hlength := length_siftupLoop lt heap.length heap p
  rw [List.set_getElem_self] at hperm
  rw [siftup, List.getElem?_eq_getElem hp]
  generalize siftupLoop lt heap.length heap p = r at *
  obtain ⟨moved, leaf⟩ := r
  dsimp only at *
  have hset : leaf < (moved.set leaf heap[p]).length := by
    rwa [List.length_set, hlength]
  rw [siftdown, List.getElem?_eq_getElem hset, List.getElem_set_self]
  dsimp only
  have hsame := siftdownLoop_perm lt p heap[p] (moved.set leaf heap[p]).length hset
  rw [List.set_set] at hsame
  refine ⟨?_, hsame.trans hperm⟩
  refine heapFrom_siftdownLoop hlt ?_ ?_ hbelow hset.le hset
  · -- the item at the leaf is the one that fills the hole
    refine ⟨fun q c hq hc hqp hcp => (inOrder_set_iff hqp hcp).mpr (hole'.off q c hq hc hqp hcp),
      fun q c hq hpq hc => ?_⟩
    exact (inOrder_set_iff hpq.lt.ne hc.lt.ne').mpr (hole'.across q c hq hpq hc)
  · intro c hc y hy
    have hlt := (List.getElem?_eq_some_iff.mp hy).1
    rw [List.length_set, hlength] at hlt
    unfold Child at hc
    omega

/-- **`heapify`** makes a heap of the items. -/
theorem heapify_spec (hlt : Compares lt key) (x : List α) :
    HeapFrom key 0 (heapify lt x) ∧ (heapify lt x).Perm x := by
  have hfold (n : ℕ) {heap : List α} (hn : n ≤ heap.length / 2) (h : HeapFrom key n heap) :
      HeapFrom key 0 ((List.range n).reverse.foldl (siftup lt) heap) ∧
        ((List.range n).reverse.foldl (siftup lt) heap).Perm heap := by
    induction n generalizing heap with
    | zero => exact ⟨h, List.Perm.refl _⟩
    | succ n ih =>
      rw [List.range_succ, List.reverse_append, List.reverse_singleton, List.singleton_append,
        List.foldl_cons]
      obtain ⟨hheap, hperm⟩ := siftup_spec hlt (by omega) h
      obtain ⟨hheap', hperm'⟩ := ih (by rw [length_siftup]; omega) hheap
      exact ⟨hheap', hperm'.trans hperm⟩
  refine hfold (x.length / 2) le_rfl fun p c hp hc y _ z hz => ?_
  have hlen := (List.getElem?_eq_some_iff.mp hz).1
  unfold Child at hc
  omega

/-- **`heapreplace`** makes a heap of the items below the root and the new one.  The order at the
root does not matter. -/
theorem heapreplace_spec (hlt : Compares lt key) {heap : List α} (hne : heap ≠ [])
    (h : HeapFrom key 1 heap) (item : α) :
    HeapFrom key 0 (heapreplace lt heap item) ∧
      (heapreplace lt heap item).Perm (item :: heap.tail) := by
  obtain ⟨root, rest, rfl⟩ := List.exists_cons_of_ne_nil hne
  refine siftup_spec hlt (Nat.succ_pos _) fun p c hp hc => ?_
  exact (inOrder_set_iff (by omega) (by have := hc.lt; omega)).mpr (h p c hp hc)

/-- **The root** of a heap is a least item. -/
theorem HeapFrom.root_le {root : α} {rest : List α} (h : HeapFrom key 0 (root :: rest)) :
    ∀ e ∈ root :: rest, key root ≤ key e := by
  have hall (i : ℕ) : ∀ e ∈ (root :: rest)[i]?, key root ≤ key e := by
    induction i using Nat.strong_induction_on with
    | _ i ih =>
      intro e he
      rcases Nat.eq_zero_or_pos i with rfl | hi
      · cases he
        exact le_rfl
      · have hchild := child_parent hi
        have hlen := hchild.lt.trans (List.getElem?_eq_some_iff.mp he).1
        have hget := List.getElem?_eq_getElem hlen
        exact (ih _ hchild.lt _ hget).trans (h _ _ (Nat.zero_le _) hchild _ hget e he)
  intro e he
  obtain ⟨i, hi⟩ := List.mem_iff_getElem?.mp he
  exact hall i e hi

/-- A new root leaves the order below the root. -/
theorem HeapFrom.cons {root root' : α} {rest : List α} (h : HeapFrom key 0 (root :: rest)) :
    HeapFrom key 1 (root' :: rest) := by
  intro p c hp hc
  have hne : c ≠ 0 := by have := hc.lt; omega
  have hset := (inOrder_set_iff (x := root') (Nat.pos_iff_ne_zero.mp hp) hne).mpr
    (h p c (Nat.zero_le p) hc)
  rwa [List.set_cons_zero] at hset

end Order

end Heapq
end LdmsTest
