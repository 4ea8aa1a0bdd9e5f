import Mathlib.Data.List.Forall2
import Mathlib.Data.Set.Basic

/-!
# Computations that may raise and may loop

`Run ε α` is the result of a computation given some fuel: it returned a value, it raised an
error, or the fuel ran out.  A computation proper is a family `c : ℕ → Run ε α`, one result for
each amount of fuel, and it has one of three *verdicts*: it returns (`Returns`), it raises
(`Raises`), or it runs out of every amount of fuel (`Loops`).

The rules compose verdicts.  A sequence of computations has the verdict of the first one that
does not pass (`firstFail`), so the whole fate of a traversal is decided by the first visit
that goes wrong (`Has.terminates_iff`).
-/

namespace LdmsTest

theorem ok_bind {ε α β : Type} (a : α) (f : α → Except ε β) : Except.ok a >>= f = f a := rfl

/-- The parts of a sequence that did not raise. -/
theorem exists_of_bind_ok {ε α β : Type} {x : Except ε α} {f : α → Except ε β} {b : β}
    (h : x >>= f = .ok b) : ∃ a, x = .ok a ∧ f a = .ok b := by
  cases x with
  | error e => cases h
  | ok a => exact ⟨a, rfl, h⟩

theorem except_map_bind {ε α β γ : Type} (x : Except ε α) (f : α → Except ε β) (g : β → γ) :
    (x >>= f).map g = x >>= fun a => (f a).map g := by
  cases x with
  | error e => rfl
  | ok a => rfl

theorem except_bind_map {ε α β γ : Type} (x : Except ε α) (g : α → β) (f : β → Except ε γ) :
    x.map g >>= f = x >>= fun a => f (g a) := by
  cases x with
  | error e => rfl
  | ok a => rfl

theorem except_bind_congr {ε α β : Type} {x : Except ε α} {f g : α → Except ε β}
    (h : ∀ a, x = .ok a → f a = g a) : x >>= f = x >>= g := by
  cases x with
  | error e => rfl
  | ok a => exact h a rfl

/-- A result with some fuel: `none` when the fuel ran out, otherwise a value or an error. -/
abbrev Run (ε α : Type) := ExceptT ε Option α

namespace Run

variable {ε α β : Type}

/-- The fuel ran out. -/
def starved : Run ε α := (none : Option (Except ε α))

/-- A step of the source that may raise, as a step of a fuelled computation. -/
def ofExcept (x : Except ε α) : Run ε α := (some x : Option (Except ε α))

@[simp] theorem run_starved : (starved : Run ε α).run = none := rfl

@[simp] theorem run_ofExcept (x : Except ε α) : (ofExcept x).run = some x := rfl

theorem ofExcept_ok (a : α) : (ofExcept (.ok a) : Run ε α) = pure a := rfl

theorem ofExcept_error (e : ε) : (ofExcept (.error e) : Run ε α) = throw e := rfl

theorem run_bind_of_ok {c : Run ε α} {a : α} (h : c.run = some (.ok a)) (k : α → Run ε β) :
    (c >>= k).run = (k a).run := by
  rw [ExceptT.run_bind, h]
  rfl

theorem run_bind_of_error {c : Run ε α} {e : ε} (h : c.run = some (.error e))
    (k : α → Run ε β) : (c >>= k).run = some (.error e) := by
  rw [ExceptT.run_bind, h]
  rfl

theorem run_bind_of_none {c : Run ε α} (h : c.run = none) (k : α → Run ε β) :
    (c >>= k).run = none := by
  rw [ExceptT.run_bind, h]
  rfl

/-- The parts of a sequence that returned. -/
theorem exists_of_run_bind_ok {c : Run ε α} {k : α → Run ε β} {b : β}
    (h : (c >>= k).run = some (.ok b)) :
    ∃ a, c.run = some (.ok a) ∧ (k a).run = some (.ok b) := by
  rw [ExceptT.run_bind] at h
  obtain ⟨r, hr, h⟩ := Option.bind_eq_some_iff.mp h
  cases r with
  | error e => cases h
  | ok a => exact ⟨a, hr, h⟩

theorem eq_of_run_ofExcept {x : Except ε α} {a : α} (h : (ofExcept x).run = some (.ok a)) :
    x = .ok a :=
  Option.some_inj.mp h

end Run

/-- How a computation ends: it goes through, it raises `e`, or it never ends. -/
inductive Verdict (ε : Type) where
  | pass : Verdict ε
  | raise : ε → Verdict ε
  | loop : Verdict ε

namespace Verdict

variable {ε : Type}

/-- One after the other: the second counts only when the first goes through. -/
def andThen : Verdict ε → Verdict ε → Verdict ε
  | pass, w => w
  | v, _ => v

/-- The first verdict of a sequence that is not `pass`. -/
def firstFail (vs : List (Verdict ε)) : Verdict ε :=
  vs.foldr andThen pass

@[simp] theorem firstFail_nil : firstFail ([] : List (Verdict ε)) = pass := rfl

@[simp] theorem firstFail_cons (v : Verdict ε) (vs : List (Verdict ε)) :
    firstFail (v :: vs) = v.andThen (firstFail vs) := rfl

@[simp] theorem pass_andThen (w : Verdict ε) : pass.andThen w = w := rfl

@[simp] theorem raise_andThen (e : ε) (w : Verdict ε) : (raise e).andThen w = raise e := rfl

@[simp] theorem loop_andThen (w : Verdict ε) : (loop : Verdict ε).andThen w = loop := rfl

@[simp] theorem andThen_pass (v : Verdict ε) : v.andThen pass = v := by
  cases v <;> rfl

theorem andThen_assoc (u v w : Verdict ε) :
    (u.andThen v).andThen w = u.andThen (v.andThen w) := by
  cases u <;> rfl

theorem firstFail_append (us vs : List (Verdict ε)) :
    firstFail (us ++ vs) = (firstFail us).andThen (firstFail vs) := by
  induction us with
  | nil => rfl
  | cons u us ih => rw [List.cons_append, firstFail_cons, ih, firstFail_cons, andThen_assoc]

/-- A sequence of visits in a row, each with its own sequence of verdicts. -/
theorem firstFail_flatMap {α : Type*} (xs : List α) (f : α → List (Verdict ε)) :
    firstFail (xs.flatMap f) = firstFail (xs.map fun x => firstFail (f x)) := by
  induction xs with
  | nil => rfl
  | cons x xs ih => rw [List.flatMap_cons, firstFail_append, ih, List.map_cons, firstFail_cons]

theorem firstFail_eq_pass_iff {vs : List (Verdict ε)} :
    firstFail vs = pass ↔ ∀ v ∈ vs, v = pass := by
  induction vs with
  | nil => simp
  | cons v vs ih =>
    cases v with
    | pass => simp [ih]
    | raise e => simp
    | loop => simp

/-- **The first failure.**  A sequence fails with `v` exactly when some visit does and
everything before it goes through. -/
theorem firstFail_eq_iff {α : Type*} (verdict : α → Verdict ε) (visits : List α)
    {v : Verdict ε} (hv : v ≠ pass) :
    firstFail (visits.map verdict) = v ↔
      ∃ before x after, visits = before ++ x :: after ∧
        (∀ y ∈ before, verdict y = pass) ∧ verdict x = v := by
  constructor
  · intro h
    induction visits with
    | nil => exact absurd h.symm hv
    | cons y visits ih =>
      rw [List.map_cons, firstFail_cons] at h
      cases hy : verdict y with
      | pass =>
        rw [hy, pass_andThen] at h
        obtain ⟨before, x, after, rfl, hpass, hx⟩ := ih h
        exact ⟨y :: before, x, after, rfl, List.forall_mem_cons.mpr ⟨hy, hpass⟩, hx⟩
      | raise e => exact ⟨[], y, visits, rfl, by simp, by rw [← h, hy, raise_andThen]⟩
      | loop => exact ⟨[], y, visits, rfl, by simp, by rw [← h, hy, loop_andThen]⟩
  · rintro ⟨before, x, after, rfl, hpass, hx⟩
    rw [List.map_append, List.map_cons, firstFail_append, firstFail_cons, hx,
      firstFail_eq_pass_iff.mpr (by simpa using hpass), pass_andThen]
    cases v with
    | pass => exact absurd rfl hv
    | raise e => rw [raise_andThen]
    | loop => rw [loop_andThen]

end Verdict

/-! ## Verdicts of computations -/

section Computations

variable {ε α β : Type}

/-- The computation needs a certain amount of fuel, and with it ends with `r`. -/
def Settles (c : ℕ → Run ε α) (r : Except ε α) : Prop :=
  ∃ n, ∀ m, (c m).run = if n ≤ m then some r else none

/-- With enough fuel the computation returns `a`. -/
abbrev Returns (c : ℕ → Run ε α) (a : α) : Prop := Settles c (.ok a)

/-- With enough fuel the computation raises `e`. -/
abbrev Raises (c : ℕ → Run ε α) (e : ε) : Prop := Settles c (.error e)

/-- No amount of fuel is enough. -/
def Loops (c : ℕ → Run ε α) : Prop :=
  ∀ n, (c n).run = none

/-- Some amount of fuel is enough. -/
def Terminates (c : ℕ → Run ε α) : Prop :=
  ∃ n, (c n).run ≠ none

/-- The computation has the verdict. -/
def Has (c : ℕ → Run ε α) : Verdict ε → Prop
  | .pass => ∃ a, Returns c a
  | .raise e => Raises c e
  | .loop => Loops c

theorem terminates_iff_not_loops {c : ℕ → Run ε α} : Terminates c ↔ ¬ Loops c :=
  not_forall.symm

theorem Settles.exists_run {c : ℕ → Run ε α} {r : Except ε α} (h : Settles c r) :
    ∃ n, (c n).run = some r := by
  obtain ⟨n, hn⟩ := h
  exact ⟨n, (hn n).trans (if_pos le_rfl)⟩

/-- A settled computation ends, with whatever fuel, only in the way it settles. -/
theorem Settles.eq_of_run {c : ℕ → Run ε α} {r s : Except ε α} (h : Settles c r) {m : ℕ}
    (hm : (c m).run = some s) : s = r := by
  obtain ⟨n, hn⟩ := h
  rw [hn m] at hm
  split at hm
  · exact (Option.some.inj hm).symm
  · cases hm

theorem Settles.unique {c : ℕ → Run ε α} {r s : Except ε α} (hr : Settles c r)
    (hs : Settles c s) : r = s := by
  obtain ⟨n, hn⟩ := hr.exists_run
  exact hs.eq_of_run hn

theorem Settles.not_loops {c : ℕ → Run ε α} {r : Except ε α} (h : Settles c r) :
    ¬ Loops c := by
  intro hloop
  obtain ⟨n, hn⟩ := h.exists_run
  rw [hloop n] at hn
  cases hn

theorem Returns.unique {c : ℕ → Run ε α} {a b : α} (ha : Returns c a) (hb : Returns c b) :
    a = b :=
  Except.ok.inj (Settles.unique ha hb)

/-- A computation has at most one verdict. -/
theorem Has.unique {c : ℕ → Run ε α} {v w : Verdict ε} (hv : Has c v) (hw : Has c w) :
    v = w := by
  cases v with
  | pass =>
    obtain ⟨a, ha⟩ := hv
    cases w with
    | pass => rfl
    | raise e => cases Settles.unique ha hw
    | loop => exact absurd hw ha.not_loops
  | raise d =>
    cases w with
    | pass =>
      obtain ⟨a, ha⟩ := hw
      cases Settles.unique ha hv
    | raise e => rw [Except.error.inj (Settles.unique hv hw)]
    | loop => exact absurd hw (Settles.not_loops hv)
  | loop =>
    cases w with
    | pass =>
      obtain ⟨a, ha⟩ := hw
      exact absurd hv ha.not_loops
    | raise e => exact absurd hv (Settles.not_loops hw)
    | loop => rfl

theorem Has.loops_iff {c : ℕ → Run ε α} {v : Verdict ε} (h : Has c v) :
    Loops c ↔ v = .loop :=
  ⟨fun hl => h.unique (w := .loop) hl, fun hv => by subst hv; exact h⟩

theorem Has.raises_iff {c : ℕ → Run ε α} {v : Verdict ε} (h : Has c v) (e : ε) :
    Raises c e ↔ v = .raise e :=
  ⟨fun he => h.unique (w := .raise e) he, fun hv => by subst hv; exact h⟩

theorem Has.returns_iff {c : ℕ → Run ε α} {v : Verdict ε} (h : Has c v) :
    (∃ a, Returns c a) ↔ v = .pass :=
  ⟨fun ha => h.unique (w := .pass) ha, fun hv => by subst hv; exact h⟩

/-- A computation with a verdict that some fuel lets return settles on that value. -/
theorem Has.returns_of_run {c : ℕ → Run ε α} {v : Verdict ε} (h : Has c v) {m : ℕ} {a : α}
    (hm : (c m).run = some (.ok a)) : Returns c a := by
  cases v with
  | pass =>
    obtain ⟨b, hb⟩ := h
    have hab : Except.ok a = (Except.ok b : Except ε α) := hb.eq_of_run hm
    rwa [Returns, hab]
  | raise e => cases Settles.eq_of_run h hm
  | loop => rw [h m] at hm; cases hm

/-- **The fate of a traversal.**  It terminates exactly when no visit that loops is reached
before a visit that raises. -/
theorem Has.terminates_iff {γ : Type*} {c : ℕ → Run ε α} {verdict : γ → Verdict ε}
    {visits : List γ} (h : Has c (Verdict.firstFail (visits.map verdict))) :
    Terminates c ↔ ∀ before x after, visits = before ++ x :: after →
      (∀ y ∈ before, verdict y = .pass) → verdict x ≠ .loop := by
  rw [terminates_iff_not_loops, h.loops_iff, Verdict.firstFail_eq_iff (v := .loop) _ _ nofun]
  constructor
  · intro hno before x after hsplit hpass hx
    exact hno ⟨before, x, after, hsplit, hpass, hx⟩
  · rintro hall ⟨before, x, after, hsplit, hpass, hx⟩
    exact hall before x after hsplit hpass hx

/-! ## Composing computations -/

theorem settles_ofExcept (r : Except ε α) :
    Settles (fun _ => (Run.ofExcept r : Run ε α)) r :=
  ⟨0, fun m => (if_pos (Nat.zero_le m)).symm⟩

theorem returns_ofExcept (a : α) : Returns (fun _ => (Run.ofExcept (.ok a) : Run ε α)) a :=
  settles_ofExcept (.ok a)

theorem raises_ofExcept (e : ε) : Raises (fun _ => (Run.ofExcept (.error e) : Run ε α)) e :=
  settles_ofExcept (.error e)

theorem returns_pure (a : α) : Returns (fun _ => (pure a : Run ε α)) a :=
  settles_ofExcept (.ok a)

theorem raises_throw (e : ε) : Raises (fun _ => (throw e : Run ε α)) e :=
  settles_ofExcept (.error e)

theorem exists_has_ofExcept (r : Except ε α) :
    ∃ v, Has (fun _ => (Run.ofExcept r : Run ε α)) v := by
  cases r with
  | ok a => exact ⟨.pass, a, returns_ofExcept a⟩
  | error e => exact ⟨.raise e, raises_ofExcept e⟩

/-- One more unit of fuel for a step that costs one. -/
theorem Settles.of_succ {c : ℕ → Run ε α} {r : Except ε α} (h0 : (c 0).run = none)
    (h : Settles (fun n => c (n + 1)) r) : Settles c r := by
  obtain ⟨n, hn⟩ := h
  refine ⟨n + 1, fun m => ?_⟩
  cases m with
  | zero => exact h0
  | succ m => simpa using hn m

theorem Returns.bind {c : ℕ → Run ε α} {k : ℕ → α → Run ε β} {a : α} {r : Except ε β}
    (hc : Returns c a) (hk : Settles (fun n => k n a) r) :
    Settles (fun n => c n >>= k n) r := by
  obtain ⟨n, hn⟩ := hc
  obtain ⟨m, hm⟩ := hk
  refine ⟨max n m, fun i => ?_⟩
  by_cases hi : n ≤ i
  · rw [Run.run_bind_of_ok ((hn i).trans (if_pos hi)), hm i]
    simp only [Nat.max_le, hi, true_and]
  · rw [Run.run_bind_of_none ((hn i).trans (if_neg hi)), if_neg fun h => hi (Nat.max_le.mp h).1]

theorem Returns.bind_loops {c : ℕ → Run ε α} {k : ℕ → α → Run ε β} {a : α}
    (hc : Returns c a) (hk : Loops fun n => k n a) : Loops fun n => c n >>= k n := by
  obtain ⟨n, hn⟩ := hc
  intro i
  by_cases hi : n ≤ i
  · rw [Run.run_bind_of_ok ((hn i).trans (if_pos hi))]
    exact hk i
  · exact Run.run_bind_of_none ((hn i).trans (if_neg hi)) _

theorem Raises.bind {c : ℕ → Run ε α} {e : ε} (hc : Raises c e) (k : ℕ → α → Run ε β) :
    Raises (fun n => c n >>= k n) e := by
  obtain ⟨n, hn⟩ := hc
  refine ⟨n, fun i => ?_⟩
  split
  · next hi => exact Run.run_bind_of_error ((hn i).trans (if_pos hi)) _
  · next hi => exact Run.run_bind_of_none ((hn i).trans (if_neg hi)) _

theorem Loops.bind {c : ℕ → Run ε α} (hc : Loops c) (k : ℕ → α → Run ε β) :
    Loops fun n => c n >>= k n :=
  fun n => Run.run_bind_of_none (hc n) _

/-- A handler has nothing to do with a computation that returns. -/
theorem Returns.tryCatch {c : ℕ → Run ε α} {a : α} (hc : Returns c a) (k : ℕ → ε → Run ε α) :
    Returns (fun n => tryCatch (c n) (k n)) a := by
  obtain ⟨n, hn⟩ := hc
  refine ⟨n, fun i => ?_⟩
  change ((c i).run >>= fun | .ok a => pure (.ok a) | .error e => (k i e).run) = _
  rw [hn i]
  split <;> rfl

theorem Raises.tryCatch {c : ℕ → Run ε α} {e : ε} (hc : Raises c e) {k : ℕ → ε → Run ε α}
    {r : Except ε α} (hk : Settles (fun n => k n e) r) :
    Settles (fun n => tryCatch (c n) (k n)) r := by
  obtain ⟨n, hn⟩ := hc
  obtain ⟨m, hm⟩ := hk
  refine ⟨max n m, fun i => ?_⟩
  change ((c i).run >>= fun | .ok a => pure (.ok a) | .error e => (k i e).run) = _
  rw [hn i]
  by_cases hi : n ≤ i
  · rw [if_pos hi]
    change (k i e).run = _
    rw [hm i]
    simp only [Nat.max_le, hi, true_and]
  · rw [if_neg hi, if_neg fun h => hi (Nat.max_le.mp h).1]
    rfl

/-- **Sequencing.**  The verdicts of the two parts, one after the other. -/
theorem Has.bind {c : ℕ → Run ε α} {k : ℕ → α → Run ε β} {v w : Verdict ε} (hc : Has c v)
    (hk : ∀ a, Returns c a → Has (fun n => k n a) w) :
    Has (fun n => c n >>= k n) (v.andThen w) := by
  cases v with
  | pass =>
    obtain ⟨a, ha⟩ := hc
    have hk := hk a ha
    cases w with
    | pass => exact ⟨_, ha.bind hk.choose_spec⟩
    | raise e => exact Returns.bind ha hk
    | loop => exact ha.bind_loops hk
  | raise e => exact Raises.bind hc k
  | loop => exact Loops.bind hc k

/-- A sequence of computations with verdicts has a verdict. -/
theorem exists_has_bind {c : ℕ → Run ε α} {k : ℕ → α → Run ε β} (hc : ∃ v, Has c v)
    (hk : ∀ a, ∃ w, Has (fun n => k n a) w) : ∃ v, Has (fun n => c n >>= k n) v := by
  obtain ⟨v, hv⟩ := hc
  cases v with
  | pass =>
    obtain ⟨a, ha⟩ := hv
    obtain ⟨w, hw⟩ := hk a
    exact ⟨_, Has.bind (v := .pass) ⟨a, ha⟩ fun b hb => ha.unique hb ▸ hw⟩
  | raise e => exact ⟨.raise e, Raises.bind hv k⟩
  | loop => exact ⟨.loop, Loops.bind hv k⟩

/-- Post-processing the value. -/
theorem Has.map {c : ℕ → Run ε α} {v : Verdict ε} (hc : Has c v) (f : α → β) :
    Has (fun n => f <$> c n) v := by
  have h := hc.bind (k := fun _ a => (pure (f a) : Run ε β)) (w := .pass)
    fun a _ => ⟨f a, returns_pure (f a)⟩
  rw [Verdict.andThen_pass] at h
  simpa only [bind_pure_comp] using h

theorem Returns.map {c : ℕ → Run ε α} {a : α} (hc : Returns c a) (f : α → β) :
    Returns (fun n => f <$> c n) (f a) := by
  have h := hc.bind (k := fun _ a => (pure (f a) : Run ε β)) (returns_pure (f a))
  simpa only [bind_pure_comp] using h

/-- What a computation returns after post-processing. -/
theorem returns_map_iff {c : ℕ → Run ε α} {v : Verdict ε} (hc : Has c v) {f : α → β} {b : β} :
    Returns (fun n => f <$> c n) b ↔ ∃ a, Returns c a ∧ f a = b := by
  constructor
  · intro hb
    have hv : v = .pass := (hc.map f).unique (w := .pass) ⟨b, hb⟩
    subst hv
    obtain ⟨a, ha⟩ := hc
    exact ⟨a, ha, (ha.map f).unique hb⟩
  · rintro ⟨a, ha, rfl⟩
    exact ha.map f

/-- What the two parts of a sequence returned. -/
theorem exists_of_returns_bind {c : ℕ → Run ε α} {k : ℕ → α → Run ε β} {v : Verdict ε} {b : β}
    (hc : Has c v) (hk : ∀ a, Returns c a → ∃ w, Has (fun n => k n a) w)
    (h : Returns (fun n => c n >>= k n) b) :
    ∃ a, Returns c a ∧ Returns (fun n => k n a) b := by
  obtain ⟨m, hm⟩ := h.exists_run
  cases v with
  | pass =>
    obtain ⟨a, ha⟩ := hc
    obtain ⟨w, hw⟩ := hk a ha
    refine ⟨a, ha, hw.returns_of_run (m := m) ?_⟩
    obtain ⟨n, hn⟩ := ha
    by_cases hnm : n ≤ m
    · rwa [Run.run_bind_of_ok ((hn m).trans (if_pos hnm))] at hm
    · rw [Run.run_bind_of_none ((hn m).trans (if_neg hnm))] at hm
      cases hm
  | raise e => cases Settles.unique h (Raises.bind hc k)
  | loop => exact absurd (Loops.bind hc k) h.not_loops

end Computations

/-! ## Traversing a list -/

section Traversal

variable {ε α β : Type} {f : ℕ → α → Run ε β}

/-- **Traversing a list.**  The verdict is the first one that is not `pass`. -/
theorem has_mapM {verdict : α → Verdict ε} {xs : List α}
    (h : ∀ x ∈ xs, Has (fun n => f n x) (verdict x)) :
    Has (fun n => xs.mapM (f n)) (Verdict.firstFail (xs.map verdict)) := by
  induction xs with
  | nil => exact ⟨[], returns_pure []⟩
  | cons x xs ih =>
    simp only [List.mapM_cons]
    have ih := ih fun y hy => h y (List.mem_cons_of_mem _ hy)
    refine (h x List.mem_cons_self).bind fun y _ => ?_
    have htail := ih.bind (k := fun _ ys => (pure (y :: ys) : Run ε (List β))) (w := .pass)
      fun ys _ => ⟨_, returns_pure (y :: ys)⟩
    rwa [Verdict.andThen_pass] at htail

/-- A traversal that returns, returns what the visits return. -/
theorem returns_mapM {xs : List α} {ys : List β}
    (h : List.Forall₂ (fun x y => Returns (fun n => f n x) y) xs ys) :
    Returns (fun n => xs.mapM (f n)) ys := by
  induction h with
  | nil => exact returns_pure []
  | cons hx _ ih =>
    simp only [List.mapM_cons]
    exact hx.bind (ih.bind (returns_pure _))

theorem getElem?_of_forall₂ {R : α → β → Prop} {xs : List α} {ys : List β}
    (h : List.Forall₂ R xs ys) (i : ℕ) (x : α) (y : β) (hx : xs[i]? = some x)
    (hy : ys[i]? = some y) : R x y := by
  induction h generalizing i with
  | nil => cases hx
  | cons hxy _ ih =>
    cases i with
    | zero =>
      obtain rfl := Option.some_inj.mp hx
      obtain rfl := Option.some_inj.mp hy
      exact hxy
    | succ i => exact ih i hx hy

theorem forall₂_of_getElem? {R : α → β → Prop} {xs : List α} {ys : List β}
    (hlen : xs.length = ys.length)
    (h : ∀ (i : ℕ) (x : α) (y : β), xs[i]? = some x → ys[i]? = some y → R x y) :
    List.Forall₂ R xs ys :=
  List.forall₂_of_length_eq_of_get hlen fun i hi hi' =>
    h i _ _ (List.getElem?_eq_getElem hi) (List.getElem?_eq_getElem hi')

/-- A member on the left has its counterpart on the right. -/
theorem exists_right_of_forall₂ {R : α → β → Prop} {xs : List α} {ys : List β}
    (h : List.Forall₂ R xs ys) {i : ℕ} {x : α} (hx : xs[i]? = some x) :
    ∃ y, ys[i]? = some y ∧ R x y := by
  have hi : i < ys.length := h.length_eq ▸ (List.getElem?_eq_some_iff.mp hx).1
  have hy := List.getElem?_eq_getElem hi
  exact ⟨_, hy, getElem?_of_forall₂ h i x _ hx hy⟩

/-- A member on the right has its counterpart on the left. -/
theorem exists_left_of_forall₂ {R : α → β → Prop} {xs : List α} {ys : List β}
    (h : List.Forall₂ R xs ys) {i : ℕ} {y : β} (hy : ys[i]? = some y) :
    ∃ x, xs[i]? = some x ∧ R x y := by
  have hi : i < xs.length := h.length_eq ▸ (List.getElem?_eq_some_iff.mp hy).1
  have hx := List.getElem?_eq_getElem hi
  exact ⟨_, hx, getElem?_of_forall₂ h i _ y hx hy⟩

theorem exists_forall₂ {R : α → β → Prop} {xs : List α} (h : ∀ x ∈ xs, ∃ y, R x y) :
    ∃ ys, List.Forall₂ R xs ys := by
  induction xs with
  | nil => exact ⟨[], .nil⟩
  | cons x xs ih =>
    obtain ⟨y, hy⟩ := h x List.mem_cons_self
    obtain ⟨ys, hys⟩ := ih fun z hz => h z (List.mem_cons_of_mem _ hz)
    exact ⟨y :: ys, .cons hy hys⟩

/-- The visits of a traversal that returns, with what they return. -/
theorem forall₂_of_returns_mapM {verdict : α → Verdict ε} {xs : List α} {ys : List β}
    (hv : ∀ x ∈ xs, Has (fun n => f n x) (verdict x))
    (h : Returns (fun n => xs.mapM (f n)) ys) :
    List.Forall₂ (fun x y => Returns (fun n => f n x) y) xs ys := by
  have hpass := (has_mapM hv).unique (w := .pass) ⟨ys, h⟩
  rw [Verdict.firstFail_eq_pass_iff] at hpass
  have hex : ∀ x ∈ xs, ∃ y, Returns (fun n => f n x) y := fun x hx =>
    (hv x hx).returns_iff.mpr (hpass _ (List.mem_map_of_mem hx))
  obtain ⟨zs, hzs⟩ := exists_forall₂ hex
  rwa [h.unique (returns_mapM hzs)]

/-- **A loop that returns.**  Each step returns from every state of the invariant to one. -/
theorem exists_returns_foldlM {σ : Type} {f : ℕ → σ → α → Run ε σ} {I : σ → Prop} {xs : List α}
    (h : ∀ x ∈ xs, ∀ s, I s → ∃ s', Returns (fun n => f n s x) s' ∧ I s') {s : σ} (hs : I s) :
    ∃ s', Returns (fun n => xs.foldlM (f n) s) s' ∧ I s' := by
  induction xs generalizing s with
  | nil => exact ⟨s, returns_pure s, hs⟩
  | cons x xs ih =>
    obtain ⟨s₁, hx, hs₁⟩ := h x List.mem_cons_self s hs
    obtain ⟨s₂, hxs, hs₂⟩ := ih (fun y hy => h y (List.mem_cons_of_mem _ hy)) hs₁
    simp only [List.foldlM_cons]
    exact ⟨s₂, hx.bind hxs, hs₂⟩

end Traversal

/-! ## Traversing a list with steps that may raise -/

section Steps

variable {ε α β : Type} {f : α → Except ε β}

/-- **An invariant of a loop** whose steps may raise. -/
theorem foldlM_ok_induction {σ : Type} {g : σ → α → Except ε σ} {I : σ → Prop}
    (h : ∀ s x s', I s → g s x = .ok s' → I s') {xs : List α} {s s' : σ} (hs : I s)
    (hxs : xs.foldlM g s = .ok s') : I s' := by
  induction xs generalizing s with
  | nil =>
    cases hxs
    exact hs
  | cons x xs ih =>
    rw [List.foldlM_cons] at hxs
    obtain ⟨s₁, hx, hxs⟩ := exists_of_bind_ok hxs
    exact ih (h s x s₁ hs hx) hxs

/-- **A loop whose steps do not raise.**  Each step returns from every state of the invariant to
one. -/
theorem exists_foldlM_ok {σ : Type} {g : σ → α → Except ε σ} {I : σ → Prop} {xs : List α}
    (h : ∀ x ∈ xs, ∀ s, I s → ∃ s', g s x = .ok s' ∧ I s') {s : σ} (hs : I s) :
    ∃ s', xs.foldlM g s = .ok s' ∧ I s' := by
  induction xs generalizing s with
  | nil => exact ⟨s, rfl, hs⟩
  | cons x xs ih =>
    obtain ⟨s₁, hx, hs₁⟩ := h x List.mem_cons_self s hs
    rw [List.foldlM_cons, hx]
    exact ih (fun y hy => h y (List.mem_cons_of_mem _ hy)) hs₁

/-- **A traversal without an error** has the result of each visit. -/
theorem mapM_eq_ok_iff {xs : List α} {ys : List β} :
    xs.mapM f = .ok ys ↔ List.Forall₂ (fun x y => f x = .ok y) xs ys := by
  constructor
  · intro h
    induction xs generalizing ys with
    | nil =>
      cases h
      exact .nil
    | cons x xs ih =>
      rw [List.mapM_cons] at h
      obtain ⟨y, hy, h⟩ := exists_of_bind_ok h
      obtain ⟨zs, hzs, h⟩ := exists_of_bind_ok h
      cases h
      exact .cons hy (ih hzs)
  · intro h
    induction h with
    | nil => rfl
    | cons hxy _ ih =>
      rw [List.mapM_cons, hxy, ok_bind, ih]
      rfl

/-- A traversal goes through exactly when each visit does. -/
theorem exists_mapM_ok_iff {xs : List α} :
    (∃ ys, xs.mapM f = .ok ys) ↔ ∀ x ∈ xs, ∃ y, f x = .ok y := by
  simp only [mapM_eq_ok_iff]
  induction xs with
  | nil => exact ⟨fun _ => nofun, fun _ => ⟨[], .nil⟩⟩
  | cons x xs ih =>
    rw [List.forall_mem_cons, ← ih]
    constructor
    · rintro ⟨ys, h⟩
      cases h with
      | cons hx hxs => exact ⟨⟨_, hx⟩, _, hxs⟩
    · rintro ⟨⟨y, hx⟩, ys, hxs⟩
      exact ⟨y :: ys, .cons hx hxs⟩

/-- A traversal that goes through has what each visit returned. -/
theorem exists_mem_of_mapM_ok {xs : List α} {ys : List β} (h : xs.mapM f = .ok ys) {x : α}
    (hx : x ∈ xs) : ∃ y ∈ ys, f x = .ok y := by
  rw [mapM_eq_ok_iff] at h
  induction h with
  | nil => cases hx
  | cons hz _ ih =>
    rcases List.mem_cons.mp hx with rfl | hx
    · exact ⟨_, List.mem_cons_self, hz⟩
    · obtain ⟨y, hy, hfx⟩ := ih hx
      exact ⟨y, List.mem_cons_of_mem _ hy, hfx⟩

/-- The error of a traversal is the error of a visit. -/
theorem exists_of_mapM_error {xs : List α} {e : ε} (h : xs.mapM f = .error e) :
    ∃ x ∈ xs, f x = .error e := by
  induction xs with
  | nil => cases h
  | cons x xs ih =>
    rw [List.mapM_cons] at h
    cases hx : f x with
    | error d =>
      rw [hx] at h
      exact ⟨x, List.mem_cons_self, hx.trans (congrArg _ (Except.error.inj h))⟩
    | ok y =>
      cases hxs : xs.mapM f with
      | error d =>
        rw [hx, hxs] at h
        obtain ⟨z, hz, he⟩ := ih (hxs.trans (congrArg _ (Except.error.inj h)))
        exact ⟨z, List.mem_cons_of_mem _ hz, he⟩
      | ok ys => rw [hx, hxs] at h; cases h

/-- A visit that raises makes the traversal raise. -/
theorem exists_mapM_error {xs : List α} {x : α} {d : ε} (hx : x ∈ xs) (h : f x = .error d) :
    ∃ e, xs.mapM f = .error e := by
  induction xs with
  | nil => cases hx
  | cons y ys ih =>
    rw [List.mapM_cons]
    rcases List.mem_cons.mp hx with rfl | hx
    · exact ⟨d, by rw [h]; rfl⟩
    · obtain ⟨e, he⟩ := ih hx
      cases hy : f y with
      | error c => exact ⟨c, rfl⟩
      | ok z => exact ⟨e, by rw [he]; rfl⟩

end Steps

end LdmsTest
