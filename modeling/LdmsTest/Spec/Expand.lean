import LdmsTest.Foundation.Fuelled
import LdmsTest.Foundation.Orbit
import LdmsTest.Python.Value

/-!
# `Spec`: template expansion

The first phase of `LDMS_Test.Spec`: every object outside the top-level `templates` is merged
with the templates on its `!extends` chain, and its values are expanded in turn.

Two iterations are nested here.  `_expand_dict` walks the `!extends` chain in a `while` loop
without a bound (`extendsLoop`, which takes fuel for it); `_expand` recurses into the merged
values and counts levels, so `MAX_DEPTH` bounds it.  The recursion below is on the levels that
are left, `room = MAX_DEPTH + 1 - lvl`.

Walking a chain is a deterministic run over the values of `!extends` (`nextExt`).  It has one of
three fates: it ends, with its templates collected (`Bases`); it is broken, and the loop raises
(`Broken`); or it is endless.
-/

namespace LdmsTest
namespace Spec

open Val (Fields)

variable {F : Type} [PyRuntime F]

/-! ## The phase -/

/-- `Spec.MAX_DEPTH` -/
def maxDepth : ℕ := 64

/-- `dct.get("!extends")` -/
def getExtends (d : Fields F) : Val F :=
  (Dict.get? d "!extends").getD .none

/-- `_dict.get("templates", {})` -/
def templatesOf (spec : Fields F) : Val F :=
  (Dict.get? spec "templates").getD (.dict [])

/-- `self.templates.get(ext)` -/
def getTemplate (templates ext : Val F) : Except PyError (Val F) :=
  match templates with
  | .dict t =>
    match ext.unhashable with
    | some tp => .error ⟨.typeError, "unhashable type: '" ++ tp ++ "'"⟩
    | none =>
      match ext with
      | .str name => .ok ((Dict.get? t name).getD .none)
      | _ => .ok .none
  | v => .error ⟨.attributeError, "'" ++ v.typeName ++ "' object has no attribute 'get'"⟩

/-- The `KeyError` of a chain that names no template. -/
def templateNotFound (ext : Val F) : PyError :=
  ⟨.keyError, "`" ++ ext.toStr ++ "` template not found"⟩

/-- One turn of the loop: look up the template and check that it has a `get`. -/
def findTemplate (templates ext : Val F) : Except PyError (Fields F) :=
  match getTemplate templates ext with
  | .error e => .error e
  | .ok .none => .error (templateNotFound ext)
  | .ok (.dict t) => .ok t
  | .ok v => .error ⟨.attributeError, "'" ++ v.typeName ++ "' object has no attribute 'get'"⟩

/-- `while ext: ...`: append the templates of the chain of `ext` to `lst`. -/
def extendsLoop (templates : Val F) :
    ℕ → Val F → List (Fields F) → Run PyError (List (Fields F))
  | 0, ext, lst => if ext.truthy then Run.starved else pure lst
  | fuel + 1, ext, lst =>
    if ext.truthy then do
      let temp ← Run.ofExcept (findTemplate templates ext)
      extendsLoop templates fuel (getExtends temp) (lst ++ [temp])
    else pure lst

/-- `while lst: d = lst.pop(); tmp.update(d)`, and then the keyword is removed. -/
def merge (lst : List (Fields F)) : Fields F :=
  Dict.pop (lst.foldr (fun d tmp => Dict.update tmp d) []) "!extends"

/-- The `RuntimeError` of `_expand` below the last level. -/
def tooDeep : PyError :=
  ⟨.runtimeError, "Expansion exceeding maximum depth (64)"⟩

/-- The `TypeError` of `_expand` and `_subst` on an object that is not in their tables. -/
def unsupportedType (tp : String) : PyError :=
  ⟨.typeError, "Unsupported type " ++ tp⟩

/-- `self._expand(obj, lvl)` with `room = MAX_DEPTH + 1 - lvl`. -/
def expand (fuel : ℕ) (templates : Val F) : ℕ → Val F → Run PyError (Val F)
  | 0, _ => throw tooDeep
  | room + 1, .list xs => .list <$> xs.mapM (expand fuel templates room)
  | room + 1, .tuple xs => .tuple <$> xs.mapM (expand fuel templates room)
  | room + 1, .dict d => do
    let lst ← extendsLoop templates fuel (getExtends d) [d]
    .dict <$> (merge lst).mapM fun p => (Prod.mk p.1) <$> expand fuel templates room p.2
  | _ + 1, .none => throw (unsupportedType "NoneType")
  | _ + 1, v => pure v

/-- `if k == "templates": continue`, and otherwise `self[k] = f(v)`: an item in the loop of a
phase. -/
def updateItem (f : Val F → Run PyError (Val F)) (p : String × Val F) :
    Run PyError (String × Val F) :=
  if p.1 = "templates" then pure p
  else (Prod.mk p.1) <$> f p.2

/-- `self._start_expand()` -/
def startExpand (fuel : ℕ) (spec : Fields F) : Run PyError (Fields F) :=
  spec.mapM (updateItem (expand fuel (templatesOf spec) (maxDepth + 1)))

/-! ## The loop over the items of a spec -/

section Items

variable {f : ℕ → Val F → Run PyError (Val F)} {verdict : Val F → Verdict PyError}

omit [PyRuntime F] in
theorem updateItem_has (hf : ∀ v, Has (fun n => f n v) (verdict v)) (p : String × Val F) :
    Has (fun n => updateItem (f n) p)
      (if p.1 = "templates" then .pass else verdict p.2) := by
  unfold updateItem
  by_cases hp : p.1 = "templates"
  · simp only [if_pos hp]
    exact ⟨_, returns_pure _⟩
  · simp only [if_neg hp]
    exact (hf p.2).map _

omit [PyRuntime F] in
/-- What a loop over the items returns: `templates` as it was, and `f` of the other values. -/
theorem paired_of_returns_items (hf : ∀ v, Has (fun n => f n v) (verdict v)) {spec r : Fields F}
    (h : Returns (fun n => spec.mapM (updateItem (f n))) r) :
    Dict.Paired (fun k v w => if k = "templates" then w = v else Returns (fun n => f n v) w)
      spec r := by
  refine (forall₂_of_returns_mapM (fun p _ => updateItem_has hf p) h).imp fun p q hpq => ?_
  simp only [updateItem] at hpq
  by_cases hp : p.1 = "templates"
  · simp only [if_pos hp] at hpq ⊢
    rw [← (returns_pure p).unique hpq]
    exact ⟨rfl, rfl⟩
  · simp only [if_neg hp] at hpq ⊢
    obtain ⟨w, hw, rfl⟩ := (returns_map_iff (hf p.2)).mp hpq
    exact ⟨rfl, hw⟩

omit [PyRuntime F] in
/-- The value at a key of the result of a loop over the items. -/
theorem returns_of_paired {spec r : Fields F}
    (h : Dict.Paired (fun k v w => if k = "templates" then w = v else Returns (fun n => f n v) w)
      spec r) {k : String} {v w : Val F} (hk : k ≠ "templates") (hv : Dict.get? spec k = some v)
    (hw : Dict.get? r k = some w) : Returns (fun n => f n v) w := by
  obtain ⟨w', hw', hret⟩ := h.get? hv
  rw [if_neg hk] at hret
  rwa [Option.some_inj.mp (hw.symm.trans hw')]

omit [PyRuntime F] in
theorem get?_templates_of_paired {R : Val F → Val F → Prop} {spec r : Fields F}
    (h : Dict.Paired (fun k v w => if k = "templates" then w = v else R v w) spec r) :
    Dict.get? r "templates" = Dict.get? spec "templates" := by
  cases hv : Dict.get? spec "templates" with
  | none => rwa [Dict.get?_eq_none_iff, h.keys_eq, ← Dict.get?_eq_none_iff]
  | some v =>
    obtain ⟨w, hw, heq⟩ := h.get? hv
    rw [if_pos rfl] at heq
    rw [hw, heq]

end Items

/-! ## Finding a template -/

/-- **A template that the loop finds** is an object in the dictionary `templates`. -/
theorem findTemplate_eq_ok_iff {templates ext : Val F} {t : Fields F} :
    findTemplate templates ext = .ok t ↔ ∃ tbl name, templates = .dict tbl ∧ ext = .str name ∧
      Dict.get? tbl name = some (.dict t) := by
  constructor
  · intro h
    unfold findTemplate at h
    split at h
    · cases h
    · cases h
    · next t' hget =>
      obtain rfl := Except.ok.inj h
      unfold getTemplate at hget
      split at hget
      · next tbl =>
        split at hget
        · cases hget
        · split at hget
          · next name _ =>
            have hval := Except.ok.inj hget
            cases hlook : Dict.get? tbl name with
            | none => rw [hlook] at hval; cases hval
            | some v =>
              rw [hlook, Option.getD_some] at hval
              exact ⟨tbl, name, rfl, rfl, hval ▸ hlook⟩
          · cases Except.ok.inj hget
      · cases hget
    · cases h
  · rintro ⟨tbl, name, rfl, rfl, hget⟩
    simp [findTemplate, getTemplate, Val.unhashable, hget]

/-! ## Chains -/

/-- The chain of `ext` ends, and these are the templates on it. -/
inductive Bases (templates : Val F) : Val F → List (Fields F) → Prop where
  | stop {ext : Val F} : ext.truthy = false → Bases templates ext []
  | next {ext : Val F} {t : Fields F} {bs : List (Fields F)} : ext.truthy = true →
      findTemplate templates ext = .ok t → Bases templates (getExtends t) bs →
      Bases templates ext (t :: bs)

/-- Following the chain of `ext` raises `e`. -/
inductive Broken (templates : Val F) : Val F → PyError → Prop where
  | here {ext : Val F} {e : PyError} : ext.truthy = true →
      findTemplate templates ext = .error e → Broken templates ext e
  | next {ext : Val F} {t : Fields F} {e : PyError} : ext.truthy = true →
      findTemplate templates ext = .ok t → Broken templates (getExtends t) e →
      Broken templates ext e

/-- The next value of `ext` in the loop, if the loop goes on. -/
def nextExt (templates ext : Val F) : Option (Val F) :=
  if ext.truthy then
    match findTemplate templates ext with
    | .ok t => some (getExtends t)
    | .error _ => none
  else none

/-- The `!extends` chain of the object comes back to a value it has passed. -/
def CyclicChain (templates : Val F) (d : Fields F) : Prop :=
  Orbit.Cyclic (nextExt templates) (getExtends d)

theorem nextExt_eq_some_iff {templates ext ext' : Val F} :
    nextExt templates ext = some ext' ↔ ext.truthy = true ∧
      ∃ t, findTemplate templates ext = .ok t ∧ getExtends t = ext' := by
  unfold nextExt
  cases ext.truthy with
  | false => simp
  | true =>
    cases findTemplate templates ext with
    | error e => simp
    | ok t => simp

/-- A chain that stops without a successor has ended, or is broken there. -/
theorem nextExt_eq_none_iff {templates ext : Val F} :
    nextExt templates ext = none ↔ ext.truthy = false ∨
      ext.truthy = true ∧ ∃ e, findTemplate templates ext = .error e := by
  unfold nextExt
  cases ext.truthy with
  | false => simp
  | true =>
    cases findTemplate templates ext with
    | error e => simp
    | ok t => simp

/-- **The three fates of a chain.** -/
theorem bases_or_broken_or_endless (templates ext : Val F) :
    (∃ bs, Bases templates ext bs) ∨ (∃ e, Broken templates ext e) ∨
      Orbit.Endless (nextExt templates) ext := by
  by_cases hend : Orbit.Endless (nextExt templates) ext
  · exact Or.inr (Or.inr hend)
  obtain ⟨n, last, hn, hlast⟩ := Orbit.exists_last_of_not_endless hend
  clear hend
  -- induction on the number of turns the loop takes
  induction n generalizing ext with
  | zero =>
    obtain rfl : ext = last := Option.some_inj.mp hn
    rcases nextExt_eq_none_iff.mp hlast with hstop | ⟨hgo, e, he⟩
    · exact Or.inl ⟨[], .stop hstop⟩
    · exact Or.inr (Or.inl ⟨e, .here hgo he⟩)
  | succ n ih =>
    rw [Orbit.iter_succ'] at hn
    cases hnext : nextExt templates ext with
    | none => rw [hnext] at hn; cases hn
    | some ext' =>
      rw [hnext, Option.bind_some] at hn
      obtain ⟨hgo, t, ht, rfl⟩ := nextExt_eq_some_iff.mp hnext
      rcases ih _ hn with ⟨bs, hbs⟩ | ⟨e, he⟩ | hend
      · exact Or.inl ⟨t :: bs, .next hgo ht hbs⟩
      · exact Or.inr (Or.inl ⟨e, .next hgo ht he⟩)
      · exact Or.inr (Or.inr ((Orbit.endless_iff_of_step hnext).mpr hend))

theorem Bases.not_endless {templates ext : Val F} {bs : List (Fields F)}
    (h : Bases templates ext bs) : ¬ Orbit.Endless (nextExt templates) ext := by
  induction h with
  | stop hstop =>
    exact Orbit.not_endless_of_last (Orbit.iter_zero _) (nextExt_eq_none_iff.mpr (Or.inl hstop))
  | next hgo ht _ ih =>
    rwa [Orbit.endless_iff_of_step (nextExt_eq_some_iff.mpr ⟨hgo, _, ht, rfl⟩)]

theorem Broken.not_endless {templates ext : Val F} {e : PyError}
    (h : Broken templates ext e) : ¬ Orbit.Endless (nextExt templates) ext := by
  induction h with
  | here hgo he =>
    exact Orbit.not_endless_of_last (Orbit.iter_zero _)
      (nextExt_eq_none_iff.mpr (Or.inr ⟨hgo, _, he⟩))
  | next hgo ht _ ih =>
    rwa [Orbit.endless_iff_of_step (nextExt_eq_some_iff.mpr ⟨hgo, _, ht, rfl⟩)]

theorem Bases.unique {templates ext : Val F} {bs cs : List (Fields F)}
    (hb : Bases templates ext bs) (hc : Bases templates ext cs) : bs = cs := by
  induction hb generalizing cs with
  | stop hstop =>
    cases hc with
    | stop => rfl
    | next hgo => rw [hstop] at hgo; cases hgo
  | next hgo ht _ ih =>
    cases hc with
    | stop hstop => rw [hstop] at hgo; cases hgo
    | next _ ht' hc =>
      obtain rfl := Except.ok.inj (ht.symm.trans ht')
      rw [ih hc]

theorem Bases.not_broken {templates ext : Val F} {bs : List (Fields F)} {e : PyError}
    (hb : Bases templates ext bs) : ¬ Broken templates ext e := by
  induction hb with
  | stop hstop =>
    intro hc
    cases hc with
    | here hgo => rw [hstop] at hgo; cases hgo
    | next hgo => rw [hstop] at hgo; cases hgo
  | next hgo ht _ ih =>
    intro hc
    cases hc with
    | here _ he => rw [ht] at he; cases he
    | next _ ht' hc =>
      obtain rfl := Except.ok.inj (ht.symm.trans ht')
      exact ih hc

theorem Broken.unique {templates ext : Val F} {d e : PyError}
    (hd : Broken templates ext d) (he : Broken templates ext e) : d = e := by
  induction hd with
  | here hgo hd =>
    cases he with
    | here _ he => exact Except.error.inj (hd.symm.trans he)
    | next _ ht => rw [hd] at ht; cases ht
  | next hgo ht _ ih =>
    cases he with
    | here _ he => rw [ht] at he; cases he
    | next _ ht' he =>
      obtain rfl := Except.ok.inj (ht.symm.trans ht')
      exact ih he

/-- A chain that ends is collected by the loop. -/
theorem Bases.returns {templates ext : Val F} {bs : List (Fields F)}
    (h : Bases templates ext bs) (lst : List (Fields F)) :
    Returns (fun n => extendsLoop templates n ext lst) (lst ++ bs) := by
  induction h generalizing lst with
  | stop hstop =>
    refine ⟨0, fun m => ?_⟩
    rw [if_pos (Nat.zero_le m), List.append_nil]
    cases m <;> simp [extendsLoop, hstop]
  | @next ext t bs hgo ht _ ih =>
    refine Settles.of_succ (by simp [extendsLoop, hgo]) ?_
    simp only [extendsLoop, hgo, if_true, ht]
    have hrest := ih (lst ++ [t])
    rw [List.append_assoc, List.singleton_append] at hrest
    exact (returns_ofExcept t).bind hrest

/-- A broken chain makes the loop raise. -/
theorem Broken.raises {templates ext : Val F} {e : PyError} (h : Broken templates ext e)
    (lst : List (Fields F)) : Raises (fun n => extendsLoop templates n ext lst) e := by
  induction h generalizing lst with
  | @here ext e hgo he =>
    refine Settles.of_succ (by simp [extendsLoop, hgo]) ?_
    simp only [extendsLoop, hgo, if_true, he]
    exact (raises_ofExcept e).bind _
  | @next ext t e hgo ht _ ih =>
    refine Settles.of_succ (by simp [extendsLoop, hgo]) ?_
    simp only [extendsLoop, hgo, if_true, ht]
    exact (returns_ofExcept t).bind (ih _)

/-- An endless chain uses up every amount of fuel. -/
theorem loops_extendsLoop {templates ext : Val F}
    (h : Orbit.Endless (nextExt templates) ext) (lst : List (Fields F)) :
    Loops fun n => extendsLoop templates n ext lst := by
  intro n
  induction n generalizing ext lst with
  | zero =>
    obtain ⟨_, hnext, -⟩ := h.exists_step
    simp [extendsLoop, (nextExt_eq_some_iff.mp hnext).1]
  | succ n ih =>
    obtain ⟨ext', hnext, hrest⟩ := h.exists_step
    obtain ⟨hgo, t, ht, rfl⟩ := nextExt_eq_some_iff.mp hnext
    simp only [extendsLoop, hgo, if_true, ht]
    rw [Run.run_bind_of_ok (Run.run_ofExcept _)]
    exact ih hrest _

end Spec
end LdmsTest
