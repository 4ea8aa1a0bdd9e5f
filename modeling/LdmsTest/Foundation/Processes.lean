import Mathlib.Logic.Function.Basic

/-!
# Processes with a shared state

Processes that take turns.  Each has a phase of its own, which only it changes; all read and write
one shared state.  `act` says what an action of a process makes of the shared state and of its
phase, or that the action is not possible there.

`Guarantees` is the rule by which the processes are verified one at a time: what a process does to
the shared state must leave alone what the others rely on.  `Guarantees.run` is what then holds
after every run.
-/

namespace LdmsTest
namespace Processes

variable {π σ φ α : Type*}

/-- The shared state, and the phase of every process. -/
@[ext]
structure Sys (π σ φ : Type*) where
  shared : σ
  phase : π → φ

variable [DecidableEq π]

/-- An action of one process. -/
def step (act : π → α → σ × φ → Option (σ × φ)) (s : Sys π σ φ) (e : π × α) :
    Option (Sys π σ φ) :=
  (act e.1 e.2 (s.shared, s.phase e.1)).map fun t => ⟨t.1, Function.update s.phase e.1 t.2⟩

/-- Actions one after another, in any order of the processes. -/
def run (act : π → α → σ × φ → Option (σ × φ)) (s : Sys π σ φ) (events : List (π × α)) :
    Option (Sys π σ φ) :=
  events.foldlM (step act) s

/-- The states that the processes can come to. -/
def Reachable (act : π → α → σ × φ → Option (σ × φ)) (s₀ s : Sys π σ φ) : Prop :=
  ∃ events, run act s₀ events = some s

variable {act : π → α → σ × φ → Option (σ × φ)}

theorem step_eq_some_iff {s s' : Sys π σ φ} {p : π} {a : α} :
    step act s (p, a) = some s' ↔ ∃ t, act p a (s.shared, s.phase p) = some t ∧
      s' = ⟨t.1, Function.update s.phase p t.2⟩ := by
  rw [step, Option.map_eq_some_iff]
  exact exists_congr fun t => and_congr_right fun _ => eq_comm

theorem run_nil (s : Sys π σ φ) : run act s [] = some s := rfl

theorem run_cons {s s' : Sys π σ φ} {e : π × α} (h : step act s e = some s')
    (events : List (π × α)) : run act s (e :: events) = run act s' events := by
  rw [run, List.foldlM_cons, h]
  rfl

theorem run_append {s s' : Sys π σ φ} {events : List (π × α)} (h : run act s events = some s')
    (more : List (π × α)) : run act s (events ++ more) = run act s' more := by
  rw [run, List.foldlM_append]
  change (run act s events >>= _) = _
  rw [h]
  rfl

theorem Reachable.refl (s : Sys π σ φ) : Reachable act s s := ⟨[], rfl⟩

theorem Reachable.trans {s s' s'' : Sys π σ φ} (h : Reachable act s s')
    (h' : Reachable act s' s'') : Reachable act s s'' := by
  obtain ⟨events, hrun⟩ := h
  obtain ⟨more, hrun'⟩ := h'
  exact ⟨events ++ more, (run_append hrun more).trans hrun'⟩

/-- One process acts, and the others stay where they are. -/
theorem Reachable.exists_after {s₀ s : Sys π σ φ} (h : Reachable act s₀ s) {p : π} {f : φ}
    (hf : s.phase p = f) {a : α} {x : σ} {g : φ} (hact : act p a (s.shared, f) = some (x, g)) :
    ∃ s', Reachable act s₀ s' ∧ s'.shared = x ∧ s'.phase p = g ∧
      ∀ q, q ≠ p → s'.phase q = s.phase q := by
  subst hf
  refine ⟨⟨x, Function.update s.phase p g⟩, h.trans ⟨[(p, a)], ?_⟩, rfl,
    Function.update_self p g s.phase, fun q hq => Function.update_of_ne hq g s.phase⟩
  rw [run_cons (step_eq_some_iff.mpr ⟨(x, g), hact, rfl⟩), run_nil]

/-- **What one process guarantees to the others.**  `Inv` is about the shared state, `Local` about
one process and the shared state, and `Guar p` is how `p` may change the shared state. -/
structure Guarantees (act : π → α → σ × φ → Option (σ × φ)) (Inv : σ → Prop)
    (Local : π → σ → φ → Prop) (Guar : π → σ → σ → Prop) : Prop where
  own : ∀ {p a s f s' f'}, Inv s → Local p s f → act p a (s, f) = some (s', f') →
    Inv s' ∧ Local p s' f' ∧ Guar p s s'
  stable : ∀ {p q s f s'}, p ≠ q → Guar p s s' → Local q s f → Local q s' f

variable {Inv : σ → Prop} {Local : π → σ → φ → Prop} {Guar : π → σ → σ → Prop}

theorem Guarantees.step (h : Guarantees act Inv Local Guar) {s s' : Sys π σ φ} {e : π × α}
    (hstep : step act s e = some s') (hinv : Inv s.shared)
    (hloc : ∀ p, Local p s.shared (s.phase p)) :
    Inv s'.shared ∧ ∀ p, Local p s'.shared (s'.phase p) := by
  obtain ⟨p, a⟩ := e
  obtain ⟨⟨t, f⟩, hact, rfl⟩ := step_eq_some_iff.mp hstep
  obtain ⟨hinv', hown, hguar⟩ := h.own hinv (hloc p) hact
  refine ⟨hinv', fun q => ?_⟩
  by_cases hq : q = p
  · subst hq
    show Local q t (Function.update s.phase q f q)
    rw [Function.update_self]
    exact hown
  · show Local q t (Function.update s.phase p f q)
    rw [Function.update_of_ne hq]
    exact h.stable (Ne.symm hq) hguar (hloc q)

/-- **Every run** keeps what holds of the shared state and of each process. -/
theorem Guarantees.run (h : Guarantees act Inv Local Guar) {s s' : Sys π σ φ}
    {events : List (π × α)} (hrun : run act s events = some s') (hinv : Inv s.shared)
    (hloc : ∀ p, Local p s.shared (s.phase p)) :
    Inv s'.shared ∧ ∀ p, Local p s'.shared (s'.phase p) := by
  induction events generalizing s with
  | nil =>
    obtain rfl := Option.some_inj.mp hrun
    exact ⟨hinv, hloc⟩
  | cons e events ih =>
    obtain ⟨s₁, hstep, hrest⟩ := Option.bind_eq_some_iff.mp hrun
    obtain ⟨hinv₁, hloc₁⟩ := h.step hstep hinv hloc
    exact ih hrest hinv₁ hloc₁

end Processes
end LdmsTest
