import Mathlib.Data.List.Sort
import Mathlib.Data.Nat.Basic
import Mathlib.Tactic.Ring

/-!
# Blocks of addresses

A block of `w`-bit addresses has a power of two of them and starts at a multiple of its size.

* `Block.div_eq_div_last_iff`: the addresses that share their upper bits with the last one.
* `Block.Meets`: two blocks have an address in common.
* `Block.highest`: the last of a list of blocks, in the order of their addresses and sizes.
* `Block.next`: the block of the same size right above, if it is in the address space.
* `Block.meets_next_iff`: what meets the block right above a block, among blocks that do not meet
  that block, is what starts in it.
-/

namespace LdmsTest

/-- A block of `w`-bit addresses: its first address, and the number of bits they share. -/
structure Block (w : ℕ) where
  addr : ℕ
  prefixlen : ℕ
  prefixlen_le : prefixlen ≤ w
  dvd_addr : 2 ^ (w - prefixlen) ∣ addr
  addr_lt : addr < 2 ^ w
  deriving DecidableEq

namespace Block

variable {w : ℕ}

/-- The number of addresses. -/
def size (b : Block w) : ℕ :=
  2 ^ (w - b.prefixlen)

/-- The first address above the block. -/
def stop (b : Block w) : ℕ :=
  b.addr + b.size

theorem size_pos (b : Block w) : 0 < b.size :=
  Nat.two_pow_pos _

theorem addr_lt_stop (b : Block w) : b.addr < b.stop :=
  Nat.lt_add_of_pos_right b.size_pos

theorem size_dvd (b : Block w) : b.size ∣ 2 ^ w :=
  pow_dvd_pow 2 (Nat.sub_le _ _)

/-- A multiple of the size below the end of the address space has room for a block. -/
theorem add_size_le (b : Block w) {a : ℕ} (hdvd : b.size ∣ a) (ha : a < 2 ^ w) :
    a + b.size ≤ 2 ^ w := by
  obtain ⟨k, rfl⟩ := hdvd
  obtain ⟨n, hn⟩ := b.size_dvd
  rw [hn] at ha ⊢
  have hk : k < n := lt_of_mul_lt_mul_left ha (Nat.zero_le _)
  calc b.size * k + b.size = b.size * (k + 1) := by ring
    _ ≤ b.size * n := Nat.mul_le_mul_left _ hk

theorem stop_le (b : Block w) : b.stop ≤ 2 ^ w :=
  b.add_size_le b.dvd_addr b.addr_lt

/-! ## The top of a block -/

/-- All of a small block shares its upper bits. -/
theorem div_eq_div_of_size_dvd (b : Block w) {k : ℕ} (hk : w - b.prefixlen ≤ k) {x : ℕ}
    (hx : b.addr ≤ x) (hx' : x < b.stop) : x / 2 ^ k = b.addr / 2 ^ k := by
  obtain ⟨m, hm⟩ := pow_dvd_pow 2 hk
  obtain ⟨q, hq⟩ := b.dvd_addr
  have hsize : b.size = 2 ^ (w - b.prefixlen) := rfl
  rw [stop, hsize] at hx'
  have hpos : 0 < 2 ^ (w - b.prefixlen) := Nat.two_pow_pos _
  generalize 2 ^ (w - b.prefixlen) = s at *
  rw [hm, ← Nat.div_div_eq_div_mul, ← Nat.div_div_eq_div_mul]
  refine congrArg (· / m) ?_
  rw [hq, Nat.mul_div_cancel_left _ hpos, Nat.div_eq_iff hpos]
  rw [hq, Nat.mul_comm] at hx hx'
  omega

/-- **The addresses that share their upper bits with the last one** are the last `2 ^ k`, as far as
the block has them. -/
theorem div_eq_div_last_iff (b : Block w) {k x : ℕ} (hx : b.addr ≤ x) (hx' : x < b.stop) :
    x / 2 ^ k = (b.stop - 1) / 2 ^ k ↔ b.stop ≤ x + 2 ^ k := by
  have haddr := b.addr_lt_stop
  rcases Nat.le_total (w - b.prefixlen) k with hk | hk
  · -- the block has no more than `2 ^ k`
    have hsize : b.size ≤ 2 ^ k := Nat.pow_le_pow_right Nat.two_pos hk
    have hlast := b.div_eq_div_of_size_dvd (x := b.stop - 1) hk (by omega) (by omega)
    have hstop : b.stop = b.addr + b.size := rfl
    exact ⟨fun _ => by omega, fun _ => (b.div_eq_div_of_size_dvd hk hx hx').trans hlast.symm⟩
  · -- the block ends at a multiple of `2 ^ k`
    have hdvd : 2 ^ k ∣ b.stop :=
      (pow_dvd_pow 2 hk).trans (Nat.dvd_add b.dvd_addr (Nat.dvd_refl _))
    obtain ⟨m, hm⟩ := hdvd
    have hpos : 0 < 2 ^ k := Nat.two_pow_pos _
    generalize 2 ^ k = s at *
    rw [hm] at hx' haddr ⊢
    obtain ⟨m, rfl⟩ : ∃ n, m = n + 1 := Nat.exists_eq_succ_of_ne_zero (by rintro rfl; omega)
    have hstop : s * (m + 1) = m * s + s := by ring
    rw [hstop] at hx' ⊢
    have hlast : (m * s + s - 1) / s = m := (Nat.div_eq_iff hpos).mpr ⟨by omega, by omega⟩
    rw [hlast, Nat.div_eq_iff hpos]
    omega

/-! ## Blocks in common -/

/-- The blocks have an address in common. -/
def Meets (b c : Block w) : Prop :=
  ∃ x, (b.addr ≤ x ∧ x < b.stop) ∧ c.addr ≤ x ∧ x < c.stop

theorem meets_iff {b c : Block w} : Meets b c ↔ b.addr < c.stop ∧ c.addr < b.stop := by
  constructor
  · rintro ⟨x, ⟨hb, hb'⟩, hc, hc'⟩
    exact ⟨Nat.lt_of_le_of_lt hb hc', Nat.lt_of_le_of_lt hc hb'⟩
  · rintro ⟨hbc, hcb⟩
    have hb := b.addr_lt_stop
    have hc := c.addr_lt_stop
    exact ⟨max b.addr c.addr, by omega⟩

instance (b c : Block w) : Decidable (Meets b c) :=
  decidable_of_iff _ meets_iff.symm

theorem Meets.symm {b c : Block w} (h : Meets b c) : Meets c b := by
  obtain ⟨x, hb, hc⟩ := h
  exact ⟨x, hc, hb⟩

/-! ## The order of blocks -/

/-- Blocks are ordered by their first address, then by their mask. -/
def le (b c : Block w) : Bool :=
  b.addr < c.addr || (b.addr == c.addr && b.prefixlen ≤ c.prefixlen)

theorem addr_le_of_le {b c : Block w} (h : le b c) : b.addr ≤ c.addr := by
  simp only [le, Bool.or_eq_true, Bool.and_eq_true, decide_eq_true_eq, beq_iff_eq] at h
  omega

theorem le_total (b c : Block w) : le b c || le c b := by
  simp only [le, Bool.or_eq_true, Bool.and_eq_true, decide_eq_true_eq, beq_iff_eq]
  omega

theorem le_trans (a b c : Block w) (hab : le a b) (hbc : le b c) : le a c := by
  simp only [le, Bool.or_eq_true, Bool.and_eq_true, decide_eq_true_eq, beq_iff_eq] at hab hbc ⊢
  omega

/-- The last block, in the order of blocks: `blocks.sort(); blocks[-1]`. -/
def highest (blocks : List (Block w)) : Option (Block w) :=
  (blocks.mergeSort le).getLast?

theorem highest_eq_none_iff {blocks : List (Block w)} : highest blocks = none ↔ blocks = [] := by
  rw [highest, List.getLast?_eq_none_iff, ← List.length_eq_zero_iff, List.length_mergeSort,
    List.length_eq_zero_iff]

theorem mem_of_highest {blocks : List (Block w)} {top : Block w} (h : highest blocks = some top) :
    top ∈ blocks :=
  List.mem_mergeSort.mp (List.mem_of_getLast? h)

/-- No block starts above the highest one. -/
theorem addr_le_highest {blocks : List (Block w)} {top : Block w} (h : highest blocks = some top)
    {b : Block w} (hb : b ∈ blocks) : b.addr ≤ top.addr := by
  have hsorted := List.pairwise_mergeSort le_trans le_total blocks
  obtain ⟨init, hinit⟩ := List.getLast?_eq_some_iff.mp h
  rw [hinit, List.pairwise_append] at hsorted
  have hmem : b ∈ init ++ [top] := hinit ▸ List.mem_mergeSort.mpr hb
  rcases List.mem_append.mp hmem with hb | hb
  · exact addr_le_of_le (hsorted.2.2 b hb top List.mem_cons_self)
  · rw [List.mem_singleton.mp hb]

/-! ## The next block -/

/-- The block of the same size right above, if it is in the address space. -/
def next (b : Block w) : Option (Block w) :=
  if h : b.stop < 2 ^ w then
    some
      { addr := b.stop
        prefixlen := b.prefixlen
        prefixlen_le := b.prefixlen_le
        dvd_addr := Nat.dvd_add b.dvd_addr (Nat.dvd_refl _)
        addr_lt := h }
  else none

theorem next_spec {b c : Block w} (h : b.next = some c) :
    c.addr = b.stop ∧ c.stop = b.stop + b.size := by
  unfold next at h
  split at h
  · obtain rfl := Option.some_inj.mp h
    exact ⟨rfl, rfl⟩
  · cases h

theorem next_eq_none_iff {b : Block w} : b.next = none ↔ b.stop = 2 ^ w := by
  have hle := b.stop_le
  unfold next
  split
  · next h => exact ⟨nofun, fun heq => absurd h (heq ▸ lt_irrefl _)⟩
  · next h => exact ⟨fun _ => by omega, fun _ => rfl⟩

/-- **What meets the next block starts in it**, if it does not meet the block below. -/
theorem meets_next_iff {b c n : Block w} (hnext : b.next = some c) (hn : n = b ∨ ¬ Meets n b) :
    Meets c n ↔ b.stop ≤ n.addr ∧ n.addr < b.stop + b.size := by
  obtain ⟨haddr, hstop⟩ := next_spec hnext
  rw [meets_iff, haddr, hstop]
  constructor
  · rintro ⟨hlt, hlt'⟩
    refine ⟨?_, hlt'⟩
    by_contra hbelow
    rcases hn with rfl | hn
    · exact lt_irrefl _ hlt
    · refine hn (meets_iff.mpr ⟨by omega, ?_⟩)
      exact lt_trans b.addr_lt_stop hlt
  · rintro ⟨hle, hlt⟩
    exact ⟨lt_of_le_of_lt hle n.addr_lt_stop, hlt⟩

end Block
end LdmsTest
