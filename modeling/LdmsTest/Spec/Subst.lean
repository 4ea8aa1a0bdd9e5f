import LdmsTest.Spec.Expand
import Mathlib.Data.Set.Finite.List

/-!
# `Spec`: variable substitution

The second phase of `LDMS_Test.Spec`: every `%NAME%` in a string outside the top-level
`templates` is replaced by the value of `NAME`.

The names are looked up in `self.VAR`, one mutable environment that a traversal of the spec
carries along: an object overlays it with its primitive attributes and puts the old one back
when it is done.  `subst` passes that environment from visit to visit as the source does.

A string is replaced again and again until it does not change (`substStr`).  The `count` of the
loop is there to bound this, but nothing increments it, so the loop takes fuel here.
-/

namespace LdmsTest
namespace Spec

open Val (Fields)

/-! ## One level of a string -/

/-- The characters of `[0-9a-zA-Z-._]` -/
def isNameChar (c : Char) : Bool :=
  c.isAlphanum || c == '-' || c == '.' || c == '_'

/-- A piece of a string: text that stays, or a match of `VAR_RE` with its group. -/
inductive Piece where
  | text (cs : List Char) : Piece
  | var (name : String) : Piece

/-- The pieces of a string, from the left.  With `some name` a `%` has been read, and then the
name characters `name`: it is the start of a match if another `%` is next. -/
def pieces : Option (List Char) → List Char → List Piece
  | none, [] => []
  | none, c :: cs =>
    if c = '%' then pieces (some []) cs
    else .text [c] :: pieces none cs
  | some name, [] => [.text ('%' :: name)]
  | some name, c :: cs =>
    if c = '%' then .var (String.ofList name) :: pieces none cs
    else if isNameChar c then pieces (some (name ++ [c])) cs
    else .text ('%' :: name ++ [c]) :: pieces none cs

/-- The names that a string refers to. -/
def references (s : String) : List String :=
  (pieces none s.toList).filterMap fun
    | .text _ => none
    | .var name => some name

variable {F : Type} [PyRuntime F]

/-- The environment `self.VAR` -/
abbrev Env (F : Type) := Dict String (Val F)

/-- `str(self.VAR[m.group(1)])` -/
def lookup (var : Env F) (name : String) : Except PyError String :=
  match Dict.get? var name with
  | some v => .ok v.toStr
  | none => .error ⟨.keyError, name⟩

/-- The text of a piece after replacement. -/
def replacePiece (var : Env F) : Piece → Except PyError (List Char)
  | .text cs => .ok cs
  | .var name => String.toList <$> lookup var name

/-- `self.VAR_RE.sub(lambda m: str(self.VAR[m.group(1)]), s)` -/
def subVars (var : Env F) (s : String) : Except PyError String :=
  (fun css => String.ofList css.flatten) <$> (pieces none s.toList).mapM (replacePiece var)

/-! ## The phase -/

/-- The `ValueError` of the guard of `_subst_str`. -/
def tooManyLevels : PyError :=
  ⟨.valueError, "Too many level of substitutions"⟩

/-- `while s0 != s1: ...` -/
def substLoop (var : Env F) (count : ℕ) : ℕ → String → String → Run PyError String
  | 0, s0, s1 => if s0 ≠ s1 then Run.starved else pure s0
  | fuel + 1, s0, s1 =>
    if s0 ≠ s1 then
      if count > 128 then throw tooManyLevels
      else do
        let s2 ← Run.ofExcept (subVars var s1)
        substLoop var count fuel s1 s2
    else pure s0

/-- `self._subst_str(val)` -/
def substStr (fuel : ℕ) (var : Env F) (val : String) : Run PyError String := do
  let s0 ← Run.ofExcept (subVars var val)
  let s1 ← Run.ofExcept (subVars var s0)
  substLoop var 0 fuel s0 s1

omit [PyRuntime F] in
/-- `{ k:v for k,v in dct.items() if type(v) in self.PRIMITIVES }` -/
def primitives (d : Fields F) : Env F :=
  d.filter fun p => p.2.isPrimitive

mutual

/-- `self._subst(obj)`, with `self.VAR` before and after. -/
def subst (fuel : ℕ) : Val F → Env F → Run PyError (Val F × Env F)
  | .str s, var => do
    let t ← substStr fuel var s
    pure (.str t, var)
  | .list xs, var => do
    let (ys, var) ← substList fuel xs var
    pure (.list ys, var)
  | .tuple xs, var => do
    let (ys, var) ← substList fuel xs var
    pure (.tuple ys, var)
  | .dict d, save => do
    let (e, _) ← substFields fuel d (Dict.update save (primitives d))
    pure (.dict e, save)
  | .none, _ => throw (unsupportedType "NoneType")
  | v, var => pure (v, var)

/-- `[ self._subst(x) for x in lst ]` -/
def substList (fuel : ℕ) : List (Val F) → Env F → Run PyError (List (Val F) × Env F)
  | [], var => pure ([], var)
  | x :: xs, var => do
    let (y, var) ← subst fuel x var
    let (ys, var) ← substList fuel xs var
    pure (y :: ys, var)

/-- `{ k: self._subst(v) for k,v in dct.items() }` -/
def substFields (fuel : ℕ) :
    List (String × Val F) → Env F → Run PyError (List (String × Val F) × Env F)
  | [], var => pure ([], var)
  | (k, x) :: d, var => do
    let (y, var) ← subst fuel x var
    let (e, var) ← substFields fuel d var
    pure ((k, y) :: e, var)

end

/-- `self[k] = self._subst(v)`, for the items other than `templates`. -/
def substItems (fuel : ℕ) : Fields F → Env F → Run PyError (Fields F × Env F)
  | [], var => pure ([], var)
  | (k, x) :: d, var => do
    let (y, var) ← if k = "templates" then pure (x, var) else subst fuel x var
    let (e, var) ← substItems fuel d var
    pure ((k, y) :: e, var)

/-- `self.VAR` at the start of the phase. -/
def topScope (spec : Fields F) : Env F :=
  Dict.set (primitives spec) "" (.str "%")

/-- `self._start_subst()` -/
def startSubst (fuel : ℕ) (spec : Fields F) : Run PyError (Fields F) := do
  let (e, _) ← substItems fuel spec (topScope spec)
  pure e

/-! ## The environment is a scope -/

mutual

/-- Substitution in a fixed scope. -/
def substIn (fuel : ℕ) : Env F → Val F → Run PyError (Val F)
  | var, .str s => .str <$> substStr fuel var s
  | var, .list xs => .list <$> substInList fuel var xs
  | var, .tuple xs => .tuple <$> substInList fuel var xs
  | var, .dict d => .dict <$> substInFields fuel (Dict.update var (primitives d)) d
  | _, .none => throw (unsupportedType "NoneType")
  | _, v => pure v

def substInList (fuel : ℕ) : Env F → List (Val F) → Run PyError (List (Val F))
  | _, [] => pure []
  | var, x :: xs => do
    let y ← substIn fuel var x
    let ys ← substInList fuel var xs
    pure (y :: ys)

def substInFields (fuel : ℕ) :
    Env F → List (String × Val F) → Run PyError (List (String × Val F))
  | _, [] => pure []
  | var, (k, x) :: d => do
    let y ← substIn fuel var x
    let e ← substInFields fuel var d
    pure ((k, y) :: e)

end

theorem substInList_eq (fuel : ℕ) (var : Env F) (xs : List (Val F)) :
    substInList fuel var xs = xs.mapM (substIn fuel var) := by
  induction xs with
  | nil => rfl
  | cons x xs ih => rw [substInList, ih, List.mapM_cons]

theorem substInFields_eq (fuel : ℕ) (var : Env F) (d : Fields F) :
    substInFields fuel var d = d.mapM fun p => (Prod.mk p.1) <$> substIn fuel var p.2 := by
  induction d with
  | nil => rfl
  | cons p d ih =>
    rw [substInFields, ih, List.mapM_cons]
    simp only [bind_map_left]

theorem substList_eq {fuel : ℕ} {var : Env F} {xs : List (Val F)}
    (h : ∀ x ∈ xs, subst fuel x var = (fun y => (y, var)) <$> substIn fuel var x) :
    substList fuel xs var = (fun ys => (ys, var)) <$> substInList fuel var xs := by
  induction xs with
  | nil => simp [substList, substInList]
  | cons x xs ih =>
    rw [substList, h x List.mem_cons_self, substInList]
    simp only [bind_map_left, ih fun y hy => h y (List.mem_cons_of_mem _ hy), map_bind, map_pure]

theorem substFields_eq {fuel : ℕ} {var : Env F} {d : Fields F}
    (h : ∀ p ∈ d, subst fuel p.2 var = (fun y => (y, var)) <$> substIn fuel var p.2) :
    substFields fuel d var = (fun e => (e, var)) <$> substInFields fuel var d := by
  induction d with
  | nil => simp [substFields, substInFields]
  | cons p d ih =>
    obtain ⟨k, x⟩ := p
    have hx : subst fuel x var = (fun y => (y, var)) <$> substIn fuel var x :=
      h (k, x) List.mem_cons_self
    rw [substFields, hx, substInFields]
    simp only [bind_map_left, ih fun y hy => h y (List.mem_cons_of_mem _ hy), map_bind, map_pure]

/-- **The environment is a scope.**  A visit leaves `self.VAR` as it found it, and what it
returns is the substitution in that scope. -/
theorem subst_eq (fuel : ℕ) (v : Val F) (var : Env F) :
    subst fuel v var = (fun w => (w, var)) <$> substIn fuel var v := by
  induction v generalizing var with
  | none => rfl
  | bool | int | float => simp [subst, substIn]
  | str s => simp only [subst, substIn, bind_pure_comp, Functor.map_map]
  | list xs ih =>
    rw [subst, substIn, substList_eq fun x hx => ih x hx var]
    simp only [bind_pure_comp, Functor.map_map]
  | tuple xs ih =>
    rw [subst, substIn, substList_eq fun x hx => ih x hx var]
    simp only [bind_pure_comp, Functor.map_map]
  | dict d ih =>
    rw [subst, substIn, substFields_eq fun p hp => ih p hp _]
    simp only [bind_pure_comp, Functor.map_map]

/-- The loop of the phase leaves `self.VAR` as it is, and substitutes every item in it. -/
theorem substItems_eq (fuel : ℕ) (var : Env F) (d : Fields F) : substItems fuel d var =
    (fun e => (e, var)) <$> d.mapM (updateItem (substIn fuel var)) := by
  induction d with
  | nil => simp [substItems]
  | cons p d ih =>
    obtain ⟨k, x⟩ := p
    rw [substItems, List.mapM_cons, updateItem]
    by_cases hk : k = "templates"
    · simp only [if_pos hk, pure_bind, ih, bind_map_left, map_bind, map_pure]
    · simp only [if_neg hk, subst_eq, ih, bind_map_left, map_bind, map_pure]

/-- **The loop of the phase**: every item is substituted in the scope of the top level. -/
theorem startSubst_eq (fuel : ℕ) (spec : Fields F) :
    startSubst fuel spec = spec.mapM (updateItem (substIn fuel (topScope spec))) := by
  rw [startSubst, substItems_eq, bind_map_left]
  simp only [bind_pure]

end Spec
end LdmsTest
