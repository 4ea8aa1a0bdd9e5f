import LdmsTest.Spec.Subst

/-!
# When variable substitution ends

Substituting in a string is a run over its levels: each level is the one before with every
variable replaced once (`nextLevel`).  The run stops at a level that does not change any more,
or at one with a variable that has no value (`Orbit.StopsAt`).  Otherwise it is endless, and
then its levels come back to one of them or grow beyond every length (`endless_level_iff`).

The `count` in the loop was meant to cut such a run off after 128 levels.  It does not, so
whether the phase ends is decided by the first string it meets that does not settle
(`terminates_startSubst_iff`): two attributes that refer to each other make it run for ever
(`not_terminates_oscillating`).
-/

namespace LdmsTest
namespace Spec

open Val (Fields)

variable {F : Type} [PyRuntime F]

/-! ## The levels of a string -/

/-- The next level of `s`, if it differs. -/
def nextLevel (var : Env F) (s : String) : Option String :=
  match subVars var s with
  | .ok t => if t = s then none else some t
  | .error _ => none

/-- The levels of `s` stop at `t`, which does not change any more. -/
def SettlesAt (var : Env F) (s t : String) : Prop :=
  Orbit.StopsAt (nextLevel var) s t ∧ subVars var t = .ok t

/-- Some level of `s` has a variable that has no value, and raises `e`. -/
def MeetsUndefined (var : Env F) (s : String) (e : PyError) : Prop :=
  ∃ t, Orbit.StopsAt (nextLevel var) s t ∧ subVars var t = .error e

/-- The levels of `s` come back to one of them. -/
def Oscillates (var : Env F) (s : String) : Prop :=
  Orbit.Cyclic (nextLevel var) s

/-- The levels of `s` get longer than any bound. -/
def GrowsForever (var : Env F) (s : String) : Prop :=
  Orbit.Unbounded (nextLevel var) String.length s

theorem nextLevel_eq_some_iff {var : Env F} {s t : String} :
    nextLevel var s = some t ↔ subVars var s = .ok t ∧ t ≠ s := by
  unfold nextLevel
  cases subVars var s with
  | error e => simp
  | ok u =>
    by_cases hu : u = s
    · simp only [hu, if_true, Except.ok.injEq]
      exact iff_of_false nofun fun h => h.2 h.1.symm
    · simp only [if_neg hu, Option.some_inj, Except.ok.injEq]
      constructor
      · rintro rfl
        exact ⟨rfl, hu⟩
      · exact fun h => h.1

theorem nextLevel_eq_none_iff {var : Env F} {s : String} :
    nextLevel var s = none ↔ subVars var s = .ok s ∨ ∃ e, subVars var s = .error e := by
  unfold nextLevel
  cases subVars var s with
  | error e => simp
  | ok u => simp

/-- **The three fates of a string.** -/
theorem settles_or_undefined_or_endless (var : Env F) (s : String) :
    (∃ t, SettlesAt var s t) ∨ (∃ e, MeetsUndefined var s e) ∨
      Orbit.Endless (nextLevel var) s := by
  by_cases hend : Orbit.Endless (nextLevel var) s
  · exact Or.inr (Or.inr hend)
  obtain ⟨t, ht⟩ := Orbit.exists_stopsAt_of_not_endless hend
  rcases nextLevel_eq_none_iff.mp ht.last with hfix | ⟨e, he⟩
  · exact Or.inl ⟨t, ht, hfix⟩
  · exact Or.inr (Or.inl ⟨e, t, ht, he⟩)

theorem SettlesAt.unique {var : Env F} {s t u : String} (ht : SettlesAt var s t)
    (hu : SettlesAt var s u) : t = u :=
  ht.1.unique hu.1

theorem MeetsUndefined.unique {var : Env F} {s : String} {d e : PyError}
    (hd : MeetsUndefined var s d) (he : MeetsUndefined var s e) : d = e := by
  obtain ⟨t, ht, hd⟩ := hd
  obtain ⟨u, hu, he⟩ := he
  obtain rfl := ht.unique hu
  exact Except.error.inj (hd.symm.trans he)

theorem SettlesAt.not_meetsUndefined {var : Env F} {s t : String} {e : PyError}
    (ht : SettlesAt var s t) : ¬ MeetsUndefined var s e := by
  rintro ⟨u, hu, he⟩
  obtain rfl := ht.1.unique hu
  rw [ht.2] at he
  cases he

theorem finite_char : Finite Char := by
  refine Finite.of_injective (fun c : Char => c.val.toBitVec.toFin) fun c d h => ?_
  exact Char.ext (UInt32.toBitVec_inj.mp (BitVec.toFin_inj.mp h))

theorem finite_length_le (N : ℕ) : {s : String | s.length ≤ N}.Finite := by
  have := finite_char
  have hlists : {cs : List Char | cs.length ≤ N}.Finite := List.finite_length_le Char N
  refine (hlists.image String.ofList).subset fun s hs => ?_
  exact ⟨s.toList, (String.length_toList (s := s)).le.trans hs, String.ofList_toList⟩

/-- **Endless levels oscillate or grow for ever.** -/
theorem endless_level_iff (var : Env F) (s : String) :
    Orbit.Endless (nextLevel var) s ↔ Oscillates var s ∨ GrowsForever var s :=
  Orbit.endless_iff fun N => (finite_length_le N).subset fun _ h => h.2

/-! ## The loop over the levels -/

/-- After a first level that is not the last, one unit of fuel goes into the loop. -/
theorem substStr_of_step {var : Env F} {s t u : String} (hs : subVars var s = .ok t)
    (ht : subVars var t = .ok u) (hne : t ≠ u) :
    (substStr 0 var s).run = none ∧ ∀ n, substStr (n + 1) var s = substStr n var t := by
  simp only [substStr, hs, ht, Run.ofExcept_ok, pure_bind, substLoop, ne_eq, hne,
    not_false_eq_true, if_true]
  exact ⟨rfl, fun n => rfl⟩

/-- A first level that is the last before the loop is entered. -/
theorem substStr_of_last {var : Env F} {s t : String} (hs : subVars var s = .ok t)
    (ht : nextLevel var t = none) (n : ℕ) : substStr n var s = substStr n var t := by
  rcases nextLevel_eq_none_iff.mp ht with hfix | ⟨e, he⟩
  · simp only [substStr, hs, hfix, Run.ofExcept_ok, pure_bind]
  · simp only [substStr, hs, he, Run.ofExcept_ok, Run.ofExcept_error, pure_bind]
    rfl

theorem settles_substStr {var : Env F} {s t : String} {r : Except PyError String}
    (hs : subVars var s = .ok t) (h : Settles (fun n => substStr n var t) r) :
    Settles (fun n => substStr n var s) r := by
  cases ht : nextLevel var t with
  | none => simpa only [substStr_of_last hs ht] using h
  | some u =>
    obtain ⟨ht, hne⟩ := nextLevel_eq_some_iff.mp ht
    obtain ⟨hzero, hsucc⟩ := substStr_of_step hs ht hne.symm
    exact Settles.of_succ hzero (by simpa only [hsucc] using h)

/-- **A string that settles** is substituted by its last level. -/
theorem SettlesAt.returns {var : Env F} {s t : String} (h : SettlesAt var s t) :
    Returns (fun n => substStr n var s) t := by
  obtain ⟨hstop, hfix⟩ := h
  induction hstop with
  | here =>
    refine ⟨0, fun m => ?_⟩
    rw [if_pos (Nat.zero_le m)]
    cases m <;> simp [substStr, hfix, Run.ofExcept_ok, substLoop]
  | next hnext _ ih => exact settles_substStr (nextLevel_eq_some_iff.mp hnext).1 (ih hfix)

theorem MeetsUndefined.raises {var : Env F} {s : String} {e : PyError}
    (h : MeetsUndefined var s e) : Raises (fun n => substStr n var s) e := by
  obtain ⟨t, hstop, he⟩ := h
  induction hstop with
  | here =>
    simp only [substStr, he]
    exact (raises_ofExcept e).bind _
  | next hnext _ ih => exact settles_substStr (nextLevel_eq_some_iff.mp hnext).1 (ih he)

/-- A string whose levels do not end uses up every amount of fuel. -/
theorem loops_substStr {var : Env F} {s : String} (h : Orbit.Endless (nextLevel var) s) :
    Loops fun n => substStr n var s := by
  intro n
  induction n generalizing s with
  | zero =>
    obtain ⟨t, hs, h⟩ := h.exists_step
    obtain ⟨u, ht, -⟩ := h.exists_step
    obtain ⟨ht, hne⟩ := nextLevel_eq_some_iff.mp ht
    exact (substStr_of_step (nextLevel_eq_some_iff.mp hs).1 ht hne.symm).1
  | succ n ih =>
    obtain ⟨t, hs, hrest⟩ := h.exists_step
    obtain ⟨u, ht, -⟩ := hrest.exists_step
    obtain ⟨ht, hne⟩ := nextLevel_eq_some_iff.mp ht
    simp only [(substStr_of_step (nextLevel_eq_some_iff.mp hs).1 ht hne.symm).2]
    exact ih hrest

open Classical in
/-- How substituting in a string ends. -/
noncomputable def levelVerdict (var : Env F) (s : String) : Verdict PyError :=
  if Orbit.Endless (nextLevel var) s then .loop
  else if h : ∃ e, MeetsUndefined var s e then .raise h.choose
  else .pass

theorem substStr_has (var : Env F) (s : String) :
    Has (fun n => substStr n var s) (levelVerdict var s) := by
  unfold levelVerdict
  split
  · next hend => exact loops_substStr hend
  · next hend =>
    split
    · next hundef => exact hundef.choose_spec.raises
    · next hundef =>
      rcases settles_or_undefined_or_endless var s with ⟨t, ht⟩ | he | h
      · exact ⟨t, ht.returns⟩
      · exact absurd he hundef
      · exact absurd h hend

theorem levelVerdict_eq_pass_iff {var : Env F} {s : String} :
    levelVerdict var s = .pass ↔ ∃ t, SettlesAt var s t := by
  rw [← (substStr_has var s).returns_iff]
  constructor
  · rintro ⟨t, ht⟩
    rcases settles_or_undefined_or_endless var s with h | ⟨e, he⟩ | hend
    · exact h
    · cases Settles.unique ht he.raises
    · exact absurd (loops_substStr hend) ht.not_loops
  · rintro ⟨t, ht⟩
    exact ⟨t, ht.returns⟩

theorem levelVerdict_eq_loop_iff {var : Env F} {s : String} :
    levelVerdict var s = .loop ↔ Oscillates var s ∨ GrowsForever var s := by
  rw [← (substStr_has var s).loops_iff, ← endless_level_iff]
  constructor
  · intro hloop
    rcases settles_or_undefined_or_endless var s with ⟨t, ht⟩ | ⟨e, he⟩ | hend
    · exact absurd hloop ht.returns.not_loops
    · exact absurd hloop he.raises.not_loops
    · exact hend
  · exact loops_substStr

/-! ## The strings that the substitution meets -/

/-- What the substitution meets on its way that can keep it from going on: a string, with the
scope it is in, or a value of a type that is not in the table. -/
inductive Site (F : Type) where
  | string (var : Env F) (s : String) : Site F
  | unsupported : Site F

mutual

/-- What substituting in a value meets, in order. -/
def sites : Env F → Val F → List (Site F)
  | var, .str s => [.string var s]
  | var, .list xs => sitesList var xs
  | var, .tuple xs => sitesList var xs
  | var, .dict d => sitesFields (Dict.update var (primitives d)) d
  | _, .none => [.unsupported]
  | _, _ => []

def sitesList : Env F → List (Val F) → List (Site F)
  | _, [] => []
  | var, x :: xs => sites var x ++ sitesList var xs

def sitesFields : Env F → List (String × Val F) → List (Site F)
  | _, [] => []
  | var, (_, x) :: d => sites var x ++ sitesFields var d

end

omit [PyRuntime F] in
theorem sitesList_eq (var : Env F) (xs : List (Val F)) :
    sitesList var xs = xs.flatMap (sites var) := by
  induction xs with
  | nil => rfl
  | cons x xs ih => rw [sitesList, ih, List.flatMap_cons]

omit [PyRuntime F] in
theorem sitesFields_eq (var : Env F) (d : Fields F) :
    sitesFields var d = d.flatMap fun p => sites var p.2 := by
  induction d with
  | nil => rfl
  | cons p d ih => rw [sitesFields, ih, List.flatMap_cons]

/-- What the whole phase meets, in order. -/
def startSites (spec : Fields F) : List (Site F) :=
  spec.flatMap fun p => if p.1 = "templates" then [] else sites (topScope spec) p.2

/-- The site goes through: it is a string that settles. -/
def Site.GoesThrough : Site F → Prop
  | .string var s => ∃ t, SettlesAt var s t
  | .unsupported => False

/-- How a site ends. -/
noncomputable def Site.verdict : Site F → Verdict PyError
  | .string var s => levelVerdict var s
  | .unsupported => .raise (unsupportedType "NoneType")

theorem siteVerdict_eq_pass_iff {x : Site F} : x.verdict = .pass ↔ x.GoesThrough := by
  cases x with
  | string var s => exact levelVerdict_eq_pass_iff
  | unsupported => exact iff_of_false nofun id

/-- **The verdict of a substitution** is that of the first thing it meets that keeps it from
going on. -/
theorem substIn_has (var : Env F) (v : Val F) :
    Has (fun n => substIn n var v) (Verdict.firstFail ((sites var v).map Site.verdict)) := by
  induction v generalizing var with
  | none => exact raises_throw _
  | bool b => exact ⟨_, returns_pure _⟩
  | int n => exact ⟨_, returns_pure _⟩
  | float x => exact ⟨_, returns_pure _⟩
  | str s =>
    simp only [substIn, sites, List.map_cons, List.map_nil, Verdict.firstFail_cons,
      Verdict.firstFail_nil, Verdict.andThen_pass]
    exact (substStr_has var s).map _
  | list xs ih =>
    simp only [substIn, sites, substInList_eq, sitesList_eq]
    rw [List.map_flatMap, Verdict.firstFail_flatMap]
    exact (has_mapM fun x hx => ih x hx var).map _
  | tuple xs ih =>
    simp only [substIn, sites, substInList_eq, sitesList_eq]
    rw [List.map_flatMap, Verdict.firstFail_flatMap]
    exact (has_mapM fun x hx => ih x hx var).map _
  | dict d ih =>
    simp only [substIn, sites, substInFields_eq, sitesFields_eq]
    rw [List.map_flatMap, Verdict.firstFail_flatMap]
    exact (has_mapM fun p hp => (ih p hp _).map _).map _

/-- **The verdict of the phase.** -/
theorem startSubst_has (spec : Fields F) :
    Has (fun n => startSubst n spec)
      (Verdict.firstFail ((startSites spec).map Site.verdict)) := by
  simp only [startSubst_eq]
  rw [startSites, List.map_flatMap, Verdict.firstFail_flatMap]
  refine has_mapM fun p _ => ?_
  have hitem := updateItem_has (substIn_has (topScope spec)) p
  split at hitem
  · next hp => rwa [if_pos hp]
  · next hp => rwa [if_neg hp]

/-- **When the substitution phase ends.**  It yields a result or raises exactly when no string
that it meets has levels that oscillate or grow for ever, up to the first string with a level
that has an undefined variable. -/
theorem terminates_startSubst_iff (spec : Fields F) :
    Terminates (fun n => startSubst n spec) ↔
      ∀ before var s after, startSites spec = before ++ .string var s :: after →
        (∀ y ∈ before, y.GoesThrough) → ¬ Oscillates var s ∧ ¬ GrowsForever var s := by
  rw [(startSubst_has spec).terminates_iff]
  constructor
  · intro h before var s after hsplit hpass
    rw [← not_or, ← levelVerdict_eq_loop_iff]
    exact h before (.string var s) after hsplit fun y hy =>
      siteVerdict_eq_pass_iff.mpr (hpass y hy)
  · intro h before x after hsplit hpass hloop
    cases x with
    | unsupported => cases hloop
    | string var s =>
      have hno := h before var s after hsplit fun y hy => siteVerdict_eq_pass_iff.mp (hpass y hy)
      rw [← not_or, ← levelVerdict_eq_loop_iff] at hno
      exact hno hloop

/-- A spec with two attributes that refer to each other. -/
def oscillating : Fields Empty :=
  [("a", .str "%b%"), ("b", .str "%a%")]

/-- **The phase does not end on every spec**: `a` is replaced by `b` and back for ever. -/
theorem not_terminates_oscillating :
    ¬ ∀ spec : Fields Empty, Terminates fun n => startSubst n spec := by
  intro hall
  have hosc : Oscillates (topScope oscillating) "%b%" :=
    ⟨0, 2, "%b%", Nat.two_pos, rfl, by decide⟩
  have hloop := levelVerdict_eq_loop_iff.mpr (Or.inl hosc)
  obtain ⟨after, hsites⟩ : ∃ after, startSites oscillating =
      .string (topScope oscillating) "%b%" :: after := ⟨_, rfl⟩
  have hhas := startSubst_has oscillating
  rw [hsites, List.map_cons, Verdict.firstFail_cons, Site.verdict, hloop,
    Verdict.loop_andThen] at hhas
  exact terminates_iff_not_loops.mp (hall oscillating) hhas

end Spec
end LdmsTest
