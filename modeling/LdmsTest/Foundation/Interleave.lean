import Mathlib.Data.List.Perm.Basic
import Mathlib.Data.List.Count

/-!
# Interleavings

Several parties send events to one machine.  `proj i` is what party `i` sent, in its order, and
`view i` is what the machine holds for it.  The parties are *separate* when an event of a party
acts on the view of the party as it acts on the whole machine, and leaves every other view alone.

* `Separates.run`: if the machine finishes on the events of each party alone, it finishes on
  every interleaving of them, and each view is what the party alone would have left there.
* `perm_of_filter_perm`: a list is known, up to order, from its parts.
-/

namespace LdmsTest
namespace Interleave

/-! ## Runs -/

section Runs

variable {ι σ ε E : Type*} [DecidableEq ι]

/-- The events of one party, in their order. -/
def proj (i : ι) (events : List (ι × ε)) : List ε :=
  (events.filter fun p => p.1 = i).map Prod.snd

@[simp] theorem proj_nil (i : ι) : proj i ([] : List (ι × ε)) = [] := rfl

theorem proj_cons_self (i : ι) (e : ε) (events : List (ι × ε)) :
    proj i ((i, e) :: events) = e :: proj i events := by
  rw [proj, List.filter_cons_of_pos (by simp), List.map_cons]
  rfl

theorem proj_cons_of_ne {i j : ι} (h : i ≠ j) (e : ε) (events : List (ι × ε)) :
    proj j ((i, e) :: events) = proj j events := by
  rw [proj, List.filter_cons_of_neg (by simpa using h)]
  rfl

theorem proj_append (i : ι) (xs ys : List (ι × ε)) : proj i (xs ++ ys) = proj i xs ++ proj i ys := by
  rw [proj, List.filter_append, List.map_append]
  rfl

/-- Events of one party only. -/
theorem proj_map_self (i : ι) (es : List ε) : proj i (es.map fun e => (i, e)) = es := by
  induction es with
  | nil => rfl
  | cons e es ih => rw [List.map_cons, proj_cons_self, ih]

theorem proj_map_of_ne {i j : ι} (h : i ≠ j) (es : List ε) :
    proj j (es.map fun e => (i, e)) = [] := by
  induction es with
  | nil => rfl
  | cons e es ih => rw [List.map_cons, proj_cons_of_ne h, ih]

/-- Naming the parties otherwise. -/
theorem proj_map_of_injective {κ : Type*} [DecidableEq κ] {f : ι → κ} (hf : Function.Injective f)
    (i : ι) (events : List (ι × ε)) :
    proj (f i) (events.map fun p => (f p.1, p.2)) = proj i events := by
  induction events with
  | nil => rfl
  | cons p events ih =>
    obtain ⟨j, e⟩ := p
    rw [List.map_cons]
    by_cases hj : j = i
    · rw [hj, proj_cons_self, proj_cons_self, ih]
    · rw [proj_cons_of_ne (hf.ne hj), proj_cons_of_ne hj, ih]

omit [DecidableEq ι] in
theorem proj_map_of_forall_ne {κ : Type*} [DecidableEq κ] {f : ι → κ} {k : κ}
    (hk : ∀ i, f i ≠ k) (events : List (ι × ε)) :
    proj k (events.map fun p => (f p.1, p.2)) = [] := by
  induction events with
  | nil => rfl
  | cons p events ih => rw [List.map_cons, proj_cons_of_ne (hk p.1), ih]

/-- **An interleaving** of what the parties send: each party's events in their order, and no
others. -/
def Interleaves (sent : ι → List ε) (events : List (ι × ε)) : Prop :=
  ∀ i, proj i events = sent i

/-- What a party sends, an event of the interleaving has. -/
theorem Interleaves.mem_sent {sent : ι → List ε} {events : List (ι × ε)}
    (h : Interleaves sent events) {p : ι × ε} (hp : p ∈ events) : p.2 ∈ sent p.1 := by
  rw [← h p.1]
  exact List.mem_map_of_mem (List.mem_filter.mpr ⟨hp, decide_eq_true rfl⟩)

/-- **Separate parties**: an event acts inside the view of the party that sent it. -/
structure Separates (step : σ → ε → Except E σ) (view : ι → σ → σ) (Inv : σ → Prop)
    (Owns : ι → ε → Prop) : Prop where
  inv : ∀ {s s' i e}, Inv s → Owns i e → step s e = .ok s' → Inv s'
  within : ∀ {s i e}, Inv s → Owns i e → (step s e).map (view i) = step (view i s) e
  outside : ∀ {s s' i j e}, Inv s → Owns i e → step s e = .ok s' → j ≠ i → view j s' = view j s

variable {step : σ → ε → Except E σ} {view : ι → σ → σ} {Inv : σ → Prop} {Owns : ι → ε → Prop}

/-- **Each party is served as if it were alone.** -/
theorem Separates.run (h : Separates step view Inv Owns) {s : σ} (hs : Inv s)
    {events : List (ι × ε)} (howns : ∀ p ∈ events, Owns p.1 p.2)
    (halone : ∀ i, ∃ t, (proj i events).foldlM step (view i s) = .ok t) :
    ∃ s', (events.map Prod.snd).foldlM step s = .ok s' ∧ Inv s' ∧
      ∀ i, (proj i events).foldlM step (view i s) = .ok (view i s') := by
  induction events generalizing s with
  | nil => exact ⟨s, rfl, hs, fun i => rfl⟩
  | cons p events ih =>
    obtain ⟨i, e⟩ := p
    have hi : Owns i e := howns _ List.mem_cons_self
    -- the step succeeds because the party alone takes it
    obtain ⟨t, ht⟩ := halone i
    rw [proj_cons_self, List.foldlM_cons, ← h.within hs hi] at ht
    obtain ⟨s₁, hs₁⟩ : ∃ s₁, step s e = .ok s₁ := by
      cases hstep : step s e with
      | error err => rw [hstep] at ht; cases ht
      | ok s₁ => exact ⟨s₁, rfl⟩
    have hfold (j : ι) : (proj j ((i, e) :: events)).foldlM step (view j s) =
        (proj j events).foldlM step (view j s₁) := by
      by_cases hj : j = i
      · rw [hj, proj_cons_self, List.foldlM_cons, ← h.within hs hi, hs₁]
        rfl
      · rw [proj_cons_of_ne (Ne.symm hj), h.outside hs hi hs₁ hj]
    obtain ⟨s', hrun, hinv, hview⟩ := ih (h.inv hs hi hs₁)
      (fun p hp => howns p (List.mem_cons_of_mem _ hp))
      fun j => by rw [← hfold j]; exact halone j
    refine ⟨s', ?_, hinv, fun j => by rw [hfold j, hview j]⟩
    rw [List.map_cons, List.foldlM_cons, hs₁]
    exact hrun

end Runs

/-! ## Parts of a list -/

/-- A list is known, up to order, from its parts. -/
theorem perm_of_filter_perm {α κ : Type*} [DecidableEq κ] {part : α → κ} {xs ys : List α}
    (h : ∀ k, (xs.filter fun x => part x = k).Perm (ys.filter fun x => part x = k)) :
    xs.Perm ys := by
  classical
  refine List.perm_iff_count.mpr fun a => ?_
  have hcount (zs : List α) : (zs.filter fun x => part x = part a).count a = zs.count a :=
    List.count_filter (by simp)
  rw [← hcount xs, ← hcount ys]
  exact (h (part a)).count_eq a

end Interleave
end LdmsTest
