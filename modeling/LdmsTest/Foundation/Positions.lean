import Mathlib

/-!
# Walks over positions

A loop visits positions below `m`, and goes from `p` to `next p`.  It passes over the positions that
are `skipped`, and leaves a text behind: a separator and a field for each position visited.

* `Walk`: the positions visited, for a loop that ends.
* `Forward`: no position is visited again, and only skipped ones are left out.
* `count_eq_of_text`: a text that has the marks of all fields leaves none out.
* `exists_walk_text_iff`: the text left behind is that of all positions in their order only when the
  loop goes forward, provided a field tells where the loop goes next.
-/

namespace LdmsTest
namespace Positions

/-! ## Skipping -/

section Skip

variable (skipped : ℕ → Prop) [DecidablePred skipped] (m : ℕ)

/-- The first position from `i` on that is not skipped. -/
def skip (i : ℕ) : ℕ :=
  if i < m ∧ skipped i then skip (i + 1) else i
termination_by m - i

/-- The positions from `i` on that are not skipped. -/
def rest (i : ℕ) : List ℕ :=
  (List.range' i (m - i)).filter fun p => ¬ skipped p

variable {skipped m} {i j p : ℕ}

theorem skip_of_skipped (hi : i < m) (h : skipped i) : skip skipped m i = skip skipped m (i + 1) := by
  rw [skip, if_pos ⟨hi, h⟩]

theorem skip_of_not_skipped (h : ¬ skipped i) : skip skipped m i = i := by
  rw [skip, if_neg fun hi => h hi.2]

theorem skip_of_le (h : m ≤ i) : skip skipped m i = i := by
  rw [skip, if_neg (by omega)]

theorem le_skip (i : ℕ) : i ≤ skip skipped m i := by
  fun_induction skip skipped m i with
  | case1 i h ih => omega
  | case2 i h => exact le_rfl

theorem skip_le (h : i ≤ j) (hj : ¬ skipped j) : skip skipped m i ≤ j := by
  fun_induction skip skipped m i with
  | case1 i hi ih =>
    have hne : i ≠ j := fun heq => hj (heq ▸ hi.2)
    exact ih (by omega)
  | case2 i hi => exact h

theorem not_skipped_skip (h : skip skipped m i < m) : ¬ skipped (skip skipped m i) := by
  fun_induction skip skipped m i with
  | case1 i hi ih => exact ih h
  | case2 i hi => exact fun hs => hi ⟨h, hs⟩

theorem mem_rest : p ∈ rest skipped m i ↔ i ≤ p ∧ p < m ∧ ¬ skipped p := by
  simp only [rest, List.mem_filter, List.mem_range'_1, decide_eq_true_eq]
  constructor
  · rintro ⟨h, hs⟩
    exact ⟨h.1, by omega, hs⟩
  · rintro ⟨hi, hm, hs⟩
    exact ⟨⟨hi, by omega⟩, hs⟩

theorem pairwise_rest (i : ℕ) : (rest skipped m i).Pairwise (· < ·) :=
  List.Pairwise.filter _ List.pairwise_lt_range'

theorem rest_of_le (h : m ≤ i) : rest skipped m i = [] := by
  simp [rest, Nat.sub_eq_zero_of_le h]

theorem rest_cons (hi : i < m) (h : ¬ skipped i) :
    rest skipped m i = i :: rest skipped m (i + 1) := by
  rw [rest, show m - i = m - (i + 1) + 1 by omega, List.range'_succ, List.filter_cons_of_pos (by simpa)]
  rfl

theorem rest_of_skipped (h : skipped i) : rest skipped m i = rest skipped m (i + 1) := by
  by_cases hi : i < m
  · rw [rest, show m - i = m - (i + 1) + 1 by omega, List.range'_succ,
      List.filter_cons_of_neg (by simpa)]
    rfl
  · rw [rest_of_le (by omega), rest_of_le (by omega)]

/-- Nothing is left out between two positions with only skipped ones between them. -/
theorem rest_eq_rest (h : i ≤ j) (hskip : ∀ p, i ≤ p → p < j → p < m → skipped p) :
    rest skipped m i = rest skipped m j := by
  induction j, h using Nat.le_induction with
  | base => rfl
  | succ j hij ih =>
    rw [ih fun p hp hlt => hskip p hp (by omega)]
    by_cases hj : j < m
    · exact rest_of_skipped (hskip j hij (by omega) hj)
    · rw [rest_of_le (by omega), rest_of_le (by omega)]

end Skip

/-! ## Walks -/

/-- The positions that a loop visits from `i` on, until it gets to `m` or beyond. -/
inductive Walk (next : ℕ → ℕ) (m : ℕ) : ℕ → List ℕ → Prop
  | stop {i : ℕ} (h : m ≤ i) : Walk next m i []
  | visit {i : ℕ} {ps : List ℕ} (h : i < m) (hrest : Walk next m (next i) ps) : Walk next m i (i :: ps)

section Walks

variable {next : ℕ → ℕ} {m i p : ℕ} {ps qs : List ℕ}

theorem Walk.unique (h : Walk next m i ps) (h' : Walk next m i qs) : ps = qs := by
  induction h generalizing qs with
  | stop h =>
    obtain _ | ⟨hi, -⟩ := h'
    · rfl
    · omega
  | visit h hrest ih =>
    obtain hi | ⟨-, hrest'⟩ := h'
    · omega
    · rw [ih hrest']

theorem Walk.lt_of_mem (h : Walk next m i ps) (hp : p ∈ ps) : p < m := by
  induction h with
  | stop h => simp at hp
  | visit h hrest ih =>
    rcases List.mem_cons.mp hp with rfl | hp
    · exact h
    · exact ih hp

/-- A walk goes on after each position. -/
theorem Walk.after (h : Walk next m i (ps ++ p :: qs)) : Walk next m p (p :: qs) := by
  induction ps generalizing i with
  | nil =>
    obtain _ | ⟨hi, hrest⟩ := h
    exact .visit hi hrest
  | cons q ps ih =>
    obtain _ | ⟨-, hrest⟩ := h
    exact ih hrest

theorem Walk.next_of_append (h : Walk next m i (ps ++ p :: qs)) : Walk next m (next p) qs := by
  obtain _ | ⟨-, hrest⟩ := h.after
  exact hrest

theorem Walk.head (h : Walk next m i (p :: ps)) : i = p := by
  obtain _ | _ := h
  rfl

/-- A loop that ends visits no position twice. -/
theorem Walk.nodup (h : Walk next m i ps) : ps.Nodup := by
  induction h with
  | stop h => exact List.nodup_nil
  | @visit i ps h hrest ih =>
    refine List.nodup_cons.mpr ⟨fun hmem => ?_, ih⟩
    -- from the second visit on the walk would be as long as from the first
    obtain ⟨l, r, rfl⟩ := List.append_of_mem hmem
    have heq := hrest.after.unique (.visit h hrest)
    have hlen := congrArg List.length heq
    simp at hlen
    omega

end Walks

/-! ## Texts -/

section Text

variable {α : Type*} {sep : α} {field : ℕ → List α}

/-- The text that is left behind. -/
def text (sep : α) (field : ℕ → List α) (ps : List ℕ) : List α :=
  ps.flatMap fun p => sep :: field p

@[simp] theorem text_nil : text sep field [] = [] := rfl

@[simp] theorem text_cons (p : ℕ) (ps : List ℕ) :
    text sep field (p :: ps) = sep :: field p ++ text sep field ps := rfl

@[simp] theorem text_append (ps qs : List ℕ) :
    text sep field (ps ++ qs) = text sep field ps ++ text sep field qs :=
  List.flatMap_append ..

theorem length_text_le_of_sublist {ps qs : List ℕ} (h : ps.Sublist qs) :
    (text sep field ps).length ≤ (text sep field qs).length := by
  induction h with
  | slnil => exact le_rfl
  | cons q _ ih =>
    simp only [text_cons, List.length_append]
    omega
  | cons_cons q _ ih =>
    simp only [text_cons, List.length_append]
    omega

theorem eq_of_sublist_of_length_text {ps qs : List ℕ} (h : ps.Sublist qs)
    (hlen : (text sep field ps).length = (text sep field qs).length) : ps = qs := by
  induction h with
  | slnil => rfl
  | cons q hsub ih =>
    have hle : (text sep field _).length ≤ (text sep field _).length := length_text_le_of_sublist hsub
    simp only [text_cons, List.length_append, List.length_cons] at hlen
    omega
  | cons_cons q _ ih =>
    simp only [text_cons, List.length_append, Nat.add_left_cancel_iff] at hlen
    rw [ih hlen]

theorem length_text_of_perm {ps qs : List ℕ} (h : ps.Perm qs) :
    (text sep field ps).length = (text sep field qs).length :=
  (h.flatMap_right _).length_eq

/-- A text is too long for some of the positions only. -/
theorem perm_of_length_text {ps qs : List ℕ} (hnodup : ps.Nodup) (hsub : ps ⊆ qs)
    (hlen : (text sep field ps).length = (text sep field qs).length) : ps.Perm qs := by
  obtain ⟨l, hperm, hl⟩ := hnodup.subperm hsub
  have heq := eq_of_sublist_of_length_text hl ((length_text_of_perm hperm).trans hlen)
  exact heq ▸ hperm.symm

section Count

variable [DecidableEq α] {mark : α}

theorem count_text (hsep : sep ≠ mark) (ps : List ℕ) :
    (text sep field ps).count mark = (ps.map fun p => (field p).count mark).sum := by
  induction ps with
  | nil => rfl
  | cons p ps ih =>
    rw [text_cons, List.count_append, ih, List.count_cons_of_ne hsep, List.map_cons, List.sum_cons]

/-- Where no field has more marks than the field asked for, a text of some of the positions that has
all marks asked for leaves none out. -/
theorem count_eq_of_text (mark : α) {asked : ℕ → List α} (hsep : sep ≠ mark) {ps qs : List ℕ}
    (hnodup : ps.Nodup) (hsub : ps ⊆ qs)
    (hle : ∀ p ∈ qs, (field p).count mark ≤ (asked p).count mark)
    (htext : text sep field ps = text sep asked qs) :
    ∀ p ∈ qs, (field p).count mark = (asked p).count mark := by
  obtain ⟨l, hperm, hl⟩ := hnodup.subperm hsub
  have hcount := congrArg (List.count mark) htext
  rw [count_text hsep, count_text hsep, ← (hperm.map _).sum_eq] at hcount
  have hsum : (l.map fun p => (field p).count mark).sum ≤
      (qs.map fun p => (field p).count mark).sum :=
    (hl.map _).sum_le_sum fun n _ => Nat.zero_le n
  by_contra hne
  push Not at hne
  obtain ⟨p, hp, hne⟩ := hne
  have hlt := List.sum_lt_sum _ _ hle ⟨p, hp, (hle p hp).lt_of_ne hne⟩
  omega

end Count

/-- What follows the last separator. -/
theorem eq_of_append_sep {l l' r r' : List α} (hr : sep ∉ r) (hr' : sep ∉ r')
    (h : l ++ sep :: r = l' ++ sep :: r') : r = r' := by
  rcases List.append_eq_append_iff.mp h with ⟨a, rfl, ha⟩ | ⟨a, rfl, ha⟩
  · cases a with
    | nil => simpa using ha
    | cons x a =>
      simp only [List.cons_append, List.cons.injEq] at ha
      exact absurd (ha.2 ▸ by simp) hr
  · cases a with
    | nil => simpa using ha.symm
    | cons x a =>
      simp only [List.cons_append, List.cons.injEq] at ha
      exact absurd (ha.2 ▸ by simp) hr'

end Text

/-! ## Going forward -/

section Forward

variable {α : Type*} {sep : α} {field : ℕ → List α} {next : ℕ → ℕ} {skipped : ℕ → Prop}
  [DecidablePred skipped] {m : ℕ} {ps : List ℕ}

/-- The loop goes from each position to a later one, and leaves out only what is skipped. -/
def Forward (next : ℕ → ℕ) (skipped : ℕ → Prop) (m : ℕ) : Prop :=
  ∀ p < m, ¬ skipped p → p < next p ∧ ∀ q < m, p < q → q < next p → skipped q

theorem Forward.walk (h : Forward next skipped m) (i : ℕ) :
    Walk (fun p => skip skipped m (next p)) m (skip skipped m i) (rest skipped m i) := by
  induction hn : m - i using Nat.strong_induction_on generalizing i with
  | _ n ih =>
    by_cases hi : m ≤ i
    · rw [skip_of_le hi, rest_of_le hi]
      exact .stop hi
    · by_cases hs : skipped i
      · rw [skip_of_skipped (by omega) hs, rest_of_skipped hs]
        exact ih (m - (i + 1)) (by omega) (i + 1) rfl
      · obtain ⟨hlt, hbetween⟩ := h i (by omega) hs
        rw [skip_of_not_skipped hs, rest_cons (by omega) hs,
          rest_eq_rest (j := next i) hlt fun p hp hlt' hm => hbetween p hm (by omega) hlt']
        exact .visit (by omega) (ih (m - next i) (by omega) (next i) rfl)

/-- A walk over all positions in their order goes forward. -/
theorem Forward.of_walk {i : ℕ}
    (h : Walk (fun p => skip skipped m (next p)) m i (rest skipped m 0)) :
    Forward next skipped m := by
  intro p hp hs
  obtain ⟨l, r, heq⟩ := List.append_of_mem (mem_rest.mpr ⟨Nat.zero_le p, hp, hs⟩)
  have hsorted : (rest skipped m 0).Pairwise (· < ·) := pairwise_rest 0
  rw [heq] at h hsorted
  have hafter := h.next_of_append
  obtain ⟨hpr, hr⟩ := List.pairwise_cons.mp (List.pairwise_append.mp hsorted).2.1
  have hlt : p < next p := by
    by_contra hle
    have hskip : skip skipped m (next p) ≤ p := skip_le (by omega) hs
    cases r with
    | nil =>
      obtain hm | _ := hafter
      omega
    | cons x r =>
      have := hpr x List.mem_cons_self
      have := hafter.head
      omega
  refine ⟨hlt, fun q hq hpq hqn => ?_⟩
  by_contra hqs
  have hmem : q ∈ l ++ p :: r := heq ▸ mem_rest.mpr ⟨Nat.zero_le q, hq, hqs⟩
  have hqr : q ∈ r := by
    rcases List.mem_append.mp hmem with hmem | hmem
    · have := (List.pairwise_append.mp hsorted).2.2 q hmem p List.mem_cons_self
      omega
    · rcases List.mem_cons.mp hmem with rfl | hmem
      · omega
      · exact hmem
  obtain ⟨x, r, rfl⟩ := List.exists_cons_of_ne_nil (List.ne_nil_of_mem hqr)
  have hx := hafter.head
  have hle : next p ≤ skip skipped m (next p) := le_skip (next p)
  rcases List.mem_cons.mp hqr with rfl | hqr
  · omega
  · have := (List.pairwise_cons.mp hr).1 q hqr
    omega

theorem not_skipped_of_mem {i p : ℕ}
    (h : Walk (fun p => skip skipped m (next p)) m (skip skipped m i) ps) (hp : p ∈ ps) :
    ¬ skipped p := by
  induction ps generalizing i with
  | nil => simp at hp
  | cons q ps ih =>
    obtain _ | ⟨hi, hrest⟩ := h
    rcases List.mem_cons.mp hp with rfl | hp
    · exact not_skipped_skip hi
    · exact ih hrest hp

/-- A walk that ends visits some of the positions. -/
theorem Walk.subset_rest {i : ℕ}
    (h : Walk (fun p => skip skipped m (next p)) m (skip skipped m i) ps) :
    ps ⊆ rest skipped m 0 :=
  fun p hp => mem_rest.mpr ⟨Nat.zero_le p, h.lt_of_mem hp, not_skipped_of_mem h hp⟩

/-- The position before the last ones goes beyond the largest of the others. -/
theorem lt_next_of_walk {i w e : ℕ} {l s : List ℕ}
    (h : Walk (fun p => skip skipped m (next p)) m i (l ++ w :: s)) (he : e < m) (hs : ¬ skipped e)
    (hes : ∀ p ∈ s, e < p) : e < next w := by
  by_contra hle
  have hskip : skip skipped m (next w) ≤ e := skip_le (by omega) hs
  have hafter := h.next_of_append
  cases s with
  | nil =>
    obtain hm | _ := hafter
    omega
  | cons x s =>
    have := hes x List.mem_cons_self
    have := hafter.head
    omega

/-- An earlier position goes to one of the others. -/
theorem next_le_of_walk {i w e : ℕ} {l s : List ℕ}
    (h : Walk (fun p => skip skipped m (next p)) m i (l ++ w :: s)) (he : e ∈ l)
    (hle : ∀ p ∈ l ++ [w], p ≤ e) : next e ≤ e := by
  obtain ⟨a, b, rfl⟩ := List.append_of_mem he
  have hsplit : a ++ e :: b ++ w :: s = a ++ e :: (b ++ w :: s) := by simp
  obtain ⟨x, r, hx⟩ : ∃ x r, b ++ [w] = x :: r := List.exists_cons_of_ne_nil (by simp)
  have hrest : b ++ w :: s = x :: (r ++ s) := by
    rw [← List.cons_append, ← hx]
    simp
  rw [hsplit, hrest] at h
  have hhead := h.next_of_append.head
  have hmem : x ∈ b ++ [w] := hx ▸ List.mem_cons_self
  have hxe : x ≤ e := hle x (by simp at hmem ⊢; tauto)
  exact (le_skip (next e)).trans (hhead.le.trans hxe)

/-- **The text tells the order.**  Reading it from its end, the last positions are the same. -/
theorem eq_rest_of_text {i : ℕ} (hsep : ∀ p, next p ≠ p + 1 → sep ∉ field p)
    (hfield : ∀ p q, next p ≠ p + 1 → next q ≠ q + 1 → field p = field q → next p = next q)
    (h : Walk (fun p => skip skipped m (next p)) m i ps) (hsub : ps ⊆ rest skipped m 0)
    (htext : text sep field ps = text sep field (rest skipped m 0)) : ps = rest skipped m 0 := by
  have hperm := perm_of_length_text h.nodup hsub (congrArg List.length htext)
  have hsorted : (rest skipped m 0).Pairwise (· < ·) := pairwise_rest 0
  have hmem : ∀ p ∈ rest skipped m 0, p < m ∧ ¬ skipped p := fun p hp => (mem_rest.mp hp).2
  generalize rest skipped m 0 = es at hperm hsorted hmem htext
  clear hsub
  suffices hall : ∀ es₁ ps₁ s : List ℕ, es = es₁ ++ s → ps = ps₁ ++ s → ps₁ = es₁ by
    simpa using hall es ps [] (by simp) (by simp)
  intro es₁
  induction es₁ using List.reverseRecOn with
  | nil =>
    intro ps₁ s hes hps
    rw [hes, hps] at hperm
    simpa using (List.perm_append_right_iff s).mp hperm
  | append_singleton es₁ e ih =>
    intro ps₁ s hes hps
    subst hes hps
    have hperm₁ := (List.perm_append_right_iff s).mp hperm
    obtain ⟨ps₁, w, rfl⟩ : ∃ l w, ps₁ = l ++ [w] := by
      rcases List.eq_nil_or_concat ps₁ with rfl | h
      · simp at hperm₁
      · simpa [List.concat_eq_append] using h
    have htext₁ : text sep field (ps₁ ++ [w]) = text sep field (es₁ ++ [e]) := by
      rw [text_append _ s, text_append _ s] at htext
      exact List.append_cancel_right htext
    have hwe : w = e := by
      by_contra hne
      have hwalk : Walk (fun p => skip skipped m (next p)) m i (ps₁ ++ w :: s) := by simpa using h
      rw [List.append_assoc] at hsorted
      obtain ⟨-, hes, hlt⟩ := List.pairwise_append.mp hsorted
      have hmax : ∀ p ∈ ps₁ ++ [w], p ≤ e := fun p hp => by
        rcases List.mem_append.mp (hperm₁.subset hp) with hp | hp
        · exact (hlt p hp e (by simp)).le
        · exact (List.mem_singleton.mp hp).le
      have hw : w < e := lt_of_le_of_ne (hmax w (by simp)) hne
      have he : e ∈ ps₁ := by
        have : e ∈ ps₁ ++ [w] := hperm₁.symm.subset (by simp)
        simpa [Ne.symm hne] using this
      have hnw : e < next w := lt_next_of_walk hwalk (hmem e (by simp)).1 (hmem e (by simp)).2
        (List.pairwise_cons.mp hes).1
      have hne' : next e ≤ e := next_le_of_walk hwalk he hmax
      -- so both jump, and the last field tells where to
      have hlast : field w = field e := by
        have heq : text sep field ps₁ ++ sep :: field w = text sep field es₁ ++ sep :: field e := by
          simpa using htext₁
        exact eq_of_append_sep (hsep w (by omega)) (hsep e (by omega)) heq
      have := hfield w e (by omega) (by omega) hlast
      omega
    subst hwe
    rw [ih ps₁ (w :: s) (by simp) (by simp)]

/-- **Forward loops** are the ones that end and leave the text of all positions in their order. -/
theorem exists_walk_text_iff (hsep : ∀ p, next p ≠ p + 1 → sep ∉ field p)
    (hfield : ∀ p q, next p ≠ p + 1 → next q ≠ q + 1 → field p = field q → next p = next q) :
    (∃ ps, Walk (fun p => skip skipped m (next p)) m (skip skipped m 0) ps ∧
      text sep field ps = text sep field (rest skipped m 0)) ↔ Forward next skipped m := by
  constructor
  · rintro ⟨ps, hwalk, htext⟩
    exact .of_walk (eq_rest_of_text hsep hfield hwalk hwalk.subset_rest htext ▸ hwalk)
  · intro h
    exact ⟨_, h.walk 0, rfl⟩

end Forward

end Positions
end LdmsTest
