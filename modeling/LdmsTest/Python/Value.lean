import LdmsTest.Foundation.Dict
import Mathlib.Data.Finset.Insert

/-!
# Python values

The scripts of the repository work on JSON-like Python objects: `None`, booleans, integers,
floats, strings, lists, tuples, and dictionaries with string keys.  `Val F` is the type of
these, over a type `F` of floats.

What the scripts use of floats and of Python's Unicode tables is a parameter, `PyRuntime F`:
no result below depends on how a float is printed or on which characters are printable.

* `Val.truthy`, `Val.toStr`, `Val.repr`, `Val.unhashable`: `bool(x)`, `str(x)`, `repr(x)`,
  and whether `hash(x)` raises.
* `deepCopy`: `LDMS_Test.deep_copy`, which accepts the types of `DEEP_COPY_TBL`.
* `Val.WF`: what `deep_copy` accepts, with one item for each key.
* `Val.Same`: equality up to the order of the items of dictionaries.
-/

namespace LdmsTest

/-- The exception classes that the scripts raise. -/
inductive ErrorKind where
  | keyError
  | typeError
  | valueError
  | runtimeError
  | attributeError
  | indexError
  | overflowError
  | lookupError
  | databaseError
  | assertionException
  | assertionError
  | reError
  | nameError
  | stopIteration
  | recursionError
  | exception
  deriving DecidableEq

/-- A raised exception: its class and its message. -/
structure PyError where
  kind : ErrorKind
  msg : String
  deriving DecidableEq

/-- What the interpreter refuses. -/
structure Limits where
  /-- `sys.get_int_max_str_digits()`, the digits that `int` reads; 0 is for no limit -/
  digits : ℕ
  /-- the containers inside each other that `json.loads` reads -/
  depth : ℕ
  /-- the containers inside each other that `str` prints -/
  printed : ℕ
  digits_cases : digits = 0 ∨ 640 ≤ digits
  depth_pos : 0 < depth

/-- `int` reads so many digits. -/
def Limits.allows (lim : Limits) (digits : ℕ) : Bool :=
  lim.digits = 0 || digits ≤ lim.digits

/-- Limits as those that Python starts with. -/
def Limits.initial : Limits where
  digits := 4300
  depth := 990
  printed := 900
  digits_cases := Or.inr (by decide)
  depth_pos := by decide

/-- Python's floats, its Unicode tables, and its limits. -/
class PyRuntime (F : Type) where
  /-- `repr(x)` -/
  floatRepr : F → String
  /-- `x == 0.0` -/
  floatIsZero : F → Bool
  /-- `int(x)`, undefined for an infinity and for NaN -/
  floatTrunc : F → Option Int
  /-- the integer that `x` is equal to, if there is one -/
  floatIntegral : F → Option Int
  /-- `c.isprintable()` -/
  printable : Char → Bool
  /-- `c.isspace()` -/
  space : Char → Bool
  /-- `unicodedata.decimal(c)` -/
  decimal : Char → Option ℕ
  /-- the limits of the interpreter -/
  limits : Limits

/-- A runtime for values without floats, with the tables of the ASCII characters. -/
instance : PyRuntime Empty where
  floatRepr := nofun
  floatIsZero := nofun
  floatTrunc := nofun
  floatIntegral := nofun
  printable c := 0x20 ≤ c.toNat ∧ c.toNat < 0x7f
  space c := c.isWhitespace
  decimal c := if c.isDigit then some (c.toNat - '0'.toNat) else none
  limits := .initial

/-- A JSON-like Python object. -/
inductive Val (F : Type) where
  | none : Val F
  | bool : Bool → Val F
  | int : ℤ → Val F
  | float : F → Val F
  | str : String → Val F
  | list : List (Val F) → Val F
  | tuple : List (Val F) → Val F
  | dict : List (String × Val F) → Val F

namespace Val

variable {F : Type}

/-- The items of a dictionary object. -/
abbrev Fields (F : Type) := Dict String (Val F)

/-- Induction on an object, with the hypothesis for every member of a container. -/
@[elab_as_elim, induction_eliminator]
theorem induct {P : Val F → Prop} (none : P .none) (bool : ∀ b, P (.bool b))
    (int : ∀ n, P (.int n)) (float : ∀ x, P (.float x)) (str : ∀ s, P (.str s))
    (list : ∀ xs, (∀ x ∈ xs, P x) → P (.list xs))
    (tuple : ∀ xs, (∀ x ∈ xs, P x) → P (.tuple xs))
    (dict : ∀ d : List (String × Val F), (∀ p ∈ d, P p.2) → P (.dict d)) :
    ∀ v, P v
  | .none => none
  | .bool b => bool b
  | .int n => int n
  | .float x => float x
  | .str s => str s
  | .list xs => list xs fun x _ => induct none bool int float str list tuple dict x
  | .tuple xs => tuple xs fun x _ => induct none bool int float str list tuple dict x
  | .dict d => dict d fun p _ => induct none bool int float str list tuple dict p.2
termination_by v => sizeOf v
decreasing_by
  · simp_wf
    have := List.sizeOf_lt_of_mem ‹_›
    omega
  · simp_wf
    have := List.sizeOf_lt_of_mem ‹_›
    omega
  · simp_wf
    have := List.sizeOf_lt_of_mem ‹p ∈ d›
    have : sizeOf p = 1 + sizeOf p.1 + sizeOf p.2 := rfl
    omega

/-! ## Reading an object -/

/-- `type(v).__name__` -/
def typeName : Val F → String
  | .none => "NoneType"
  | .bool _ => "bool"
  | .int _ => "int"
  | .float _ => "float"
  | .str _ => "str"
  | .list _ => "list"
  | .tuple _ => "tuple"
  | .dict _ => "dict"

/-- `d[k]` -/
def getItem (d : Fields F) (k : String) : Except PyError (Val F) :=
  match Dict.get? d k with
  | some v => .ok v
  | Option.none => .error ⟨.keyError, "'" ++ k ++ "'"⟩

theorem getItem_eq_ok_iff {d : Fields F} {k : String} {v : Val F} :
    getItem d k = .ok v ↔ Dict.get? d k = some v := by
  rw [getItem]
  cases Dict.get? d k with
  | none => exact ⟨nofun, nofun⟩
  | some w => rw [Except.ok.injEq, Option.some_inj]

/-- `bool(v)` -/
def truthy [PyRuntime F] : Val F → Bool
  | .none => false
  | .bool b => b
  | .int n => n != 0
  | .float x => !PyRuntime.floatIsZero x
  | .str s => s != ""
  | .list xs => !xs.isEmpty
  | .tuple xs => !xs.isEmpty
  | .dict d => !d.isEmpty

mutual

/-- The type that makes `hash(v)` raise, if `v` is not hashable. -/
def unhashable : Val F → Option String
  | .list _ => some "list"
  | .dict _ => some "dict"
  | .tuple xs => unhashableList xs
  | _ => Option.none

def unhashableList : List (Val F) → Option String
  | [] => Option.none
  | x :: xs => (unhashable x).or (unhashableList xs)

end

/-- `type(v) in Spec.PRIMITIVES` -/
def isPrimitive : Val F → Bool
  | .int _ => true
  | .float _ => true
  | .bool _ => true
  | .str _ => true
  | _ => false

/-! ## Text of an object -/

section Text

variable (F) [PyRuntime F]

/-- The escape of one character in `repr` of a string quoted by `quote`. -/
def reprChar (quote c : Char) : List Char :=
  let hex (width : ℕ) : List Char := (Nat.toDigits 16 c.toNat).leftpad width '0'
  if c = quote ∨ c = '\\' then ['\\', c]
  else if c = '\t' then ['\\', 't']
  else if c = '\n' then ['\\', 'n']
  else if c = '\r' then ['\\', 'r']
  else if PyRuntime.printable F c then [c]
  else if c.toNat < 0x100 then '\\' :: 'x' :: hex 2
  else if c.toNat < 0x10000 then '\\' :: 'u' :: hex 4
  else '\\' :: 'U' :: hex 8

/-- `repr(s)` -/
def reprStr (s : String) : String :=
  let quote := if '\'' ∈ s.toList ∧ '"' ∉ s.toList then '"' else '\''
  String.ofList (quote :: s.toList.flatMap (reprChar F quote) ++ [quote])

variable {F}

mutual

/-- `repr(v)` -/
def repr : Val F → String
  | .none => "None"
  | .bool true => "True"
  | .bool false => "False"
  | .int n => toString n
  | .float x => PyRuntime.floatRepr x
  | .str s => reprStr F s
  | .list xs => "[" ++ ", ".intercalate (reprList xs) ++ "]"
  | .tuple [x] => "(" ++ repr x ++ ",)"
  | .tuple xs => "(" ++ ", ".intercalate (reprList xs) ++ ")"
  | .dict d => "\x7b" ++ ", ".intercalate (reprFields d) ++ "\x7d"

def reprList : List (Val F) → List String
  | [] => []
  | x :: xs => repr x :: reprList xs

def reprFields : List (String × Val F) → List String
  | [] => []
  | (k, x) :: d => (reprStr F k ++ ": " ++ repr x) :: reprFields d

end

/-- `str(v)` -/
def toStr : Val F → String
  | .str s => s
  | v => v.repr

end Text

/-! ## Copying -/

mutual

/-- `deep_copy(obj)` -/
def deepCopy : Val F → Except PyError (Val F)
  | .dict d => .dict <$> deepCopyFields d
  | .list xs => .list <$> deepCopyList xs
  | .tuple xs => .tuple <$> deepCopyList xs
  | .int n => pure (.int n)
  | .float x => pure (.float x)
  | .str s => pure (.str s)
  | .bool b => pure (.bool b)
  | .none => throw ⟨.typeError, "Unsupported type: NoneType"⟩

def deepCopyList : List (Val F) → Except PyError (List (Val F))
  | [] => pure []
  | x :: xs => do
    let y ← deepCopy x
    let ys ← deepCopyList xs
    pure (y :: ys)

def deepCopyFields : List (String × Val F) → Except PyError (List (String × Val F))
  | [] => pure []
  | (k, x) :: d => do
    let y ← deepCopy x
    let e ← deepCopyFields d
    pure ((k, y) :: e)

end

/-- A value that `deep_copy` accepts, with one item for each key of each dictionary. -/
inductive WF : Val F → Prop where
  | primitive {v : Val F} : v.isPrimitive → WF v
  | list {xs : List (Val F)} : (∀ x ∈ xs, WF x) → WF (.list xs)
  | tuple {xs : List (Val F)} : (∀ x ∈ xs, WF x) → WF (.tuple xs)
  | dict {d : List (String × Val F)} : (Dict.keys d).Nodup → (∀ p ∈ d, WF p.2) → WF (.dict d)

theorem WF.mem_list {xs : List (Val F)} (h : WF (.list xs)) : ∀ x ∈ xs, WF x := by
  cases h with
  | primitive h => cases h
  | list h => exact h

theorem WF.mem_tuple {xs : List (Val F)} (h : WF (.tuple xs)) : ∀ x ∈ xs, WF x := by
  cases h with
  | primitive h => cases h
  | tuple h => exact h

theorem WF.nodup_keys {d : Fields F} (h : WF (.dict d)) : (Dict.keys d).Nodup := by
  cases h with
  | primitive h => cases h
  | dict h _ => exact h

theorem WF.mem_dict {d : Fields F} (h : WF (.dict d)) : ∀ p ∈ d, WF p.2 := by
  cases h with
  | primitive h => cases h
  | dict _ h => exact h

theorem WF.of_get? {d : Fields F} (h : WF (.dict d)) {k : String} {v : Val F}
    (hv : Dict.get? d k = some v) : WF v :=
  h.mem_dict _ (Dict.mem_of_get? hv)

theorem not_wf_none : ¬ WF (.none : Val F) := by
  intro h
  cases h with
  | primitive h => cases h

/-! ### Deciding well-formedness -/

mutual

/-- The test for `WF`. -/
def isWF : Val F → Bool
  | .none => false
  | .list xs => isWFList xs
  | .tuple xs => isWFList xs
  | .dict d => (Dict.keys d).Nodup && isWFFields d
  | _ => true

def isWFList : List (Val F) → Bool
  | [] => true
  | x :: xs => isWF x && isWFList xs

def isWFFields : List (String × Val F) → Bool
  | [] => true
  | (_, x) :: d => isWF x && isWFFields d

end

theorem isWFList_iff {xs : List (Val F)} : isWFList xs ↔ ∀ x ∈ xs, isWF x := by
  induction xs with
  | nil => simp [isWFList]
  | cons x xs ih => rw [isWFList, Bool.and_eq_true, ih, List.forall_mem_cons]

theorem isWFFields_iff {d : List (String × Val F)} : isWFFields d ↔ ∀ p ∈ d, isWF p.2 := by
  induction d with
  | nil => simp [isWFFields]
  | cons p d ih => rw [isWFFields, Bool.and_eq_true, ih, List.forall_mem_cons]

theorem isWF_iff {v : Val F} : isWF v ↔ WF v := by
  constructor
  · intro h
    induction v with
    | none => cases h
    | bool | int | float | str => exact .primitive rfl
    | list xs ih => exact .list fun x hx => ih x hx (isWFList_iff.mp h x hx)
    | tuple xs ih => exact .tuple fun x hx => ih x hx (isWFList_iff.mp h x hx)
    | dict d ih =>
      rw [isWF, Bool.and_eq_true, decide_eq_true_iff] at h
      exact .dict h.1 fun p hp => ih p hp (isWFFields_iff.mp h.2 p hp)
  · intro h
    induction h with
    | @primitive v h =>
      cases v with
      | none | list | tuple | dict => cases h
      | bool | int | float | str => rfl
    | list _ ih => exact isWFList_iff.mpr ih
    | tuple _ ih => exact isWFList_iff.mpr ih
    | dict hkeys _ ih =>
      rw [isWF, Bool.and_eq_true, decide_eq_true_iff]
      exact ⟨hkeys, isWFFields_iff.mpr ih⟩

instance (v : Val F) : Decidable (WF v) :=
  decidable_of_iff _ isWF_iff

/-! ### Copying a well-formed value -/

theorem deepCopyList_eq {xs : List (Val F)} (h : ∀ x ∈ xs, deepCopy x = .ok x) :
    deepCopyList xs = .ok xs := by
  induction xs with
  | nil => rfl
  | cons x xs ih =>
    rw [deepCopyList, h x List.mem_cons_self, ih fun y hy => h y (List.mem_cons_of_mem _ hy)]
    rfl

theorem deepCopyFields_eq {d : Fields F} (h : ∀ p ∈ d, deepCopy p.2 = .ok p.2) :
    deepCopyFields d = .ok d := by
  induction d with
  | nil => rfl
  | cons p d ih =>
    obtain ⟨k, x⟩ := p
    have hx : deepCopy x = .ok x := h (k, x) List.mem_cons_self
    rw [deepCopyFields, hx, ih fun q hq => h q (List.mem_cons_of_mem _ hq)]
    rfl

/-- A copy of a value is the value. -/
theorem WF.deepCopy_eq {v : Val F} (h : WF v) : deepCopy v = .ok v := by
  induction v with
  | none => exact absurd h not_wf_none
  | bool => rfl
  | int => rfl
  | float => rfl
  | str => rfl
  | list xs ih => rw [deepCopy, deepCopyList_eq fun x hx => ih x hx (h.mem_list x hx)]; rfl
  | tuple xs ih => rw [deepCopy, deepCopyList_eq fun x hx => ih x hx (h.mem_tuple x hx)]; rfl
  | dict d ih => rw [deepCopy, deepCopyFields_eq fun p hp => ih p hp (h.mem_dict p hp)]; rfl

theorem eq_of_deepCopyList {xs ys : List (Val F)}
    (ih : ∀ x ∈ xs, ∀ y, deepCopy x = .ok y → y = x) (h : deepCopyList xs = .ok ys) : ys = xs := by
  induction xs generalizing ys with
  | nil => cases h; rfl
  | cons x xs ihxs =>
    rw [deepCopyList] at h
    cases hx : deepCopy x with
    | error e => rw [hx] at h; cases h
    | ok y =>
      cases hxs : deepCopyList xs with
      | error e => rw [hx, hxs] at h; cases h
      | ok zs =>
        rw [hx, hxs] at h
        cases h
        rw [ih x List.mem_cons_self y hx, ihxs (fun x hx => ih x (List.mem_cons_of_mem _ hx)) hxs]

theorem eq_of_deepCopyFields {d e : List (String × Val F)}
    (ih : ∀ p ∈ d, ∀ y, deepCopy p.2 = .ok y → y = p.2) (h : deepCopyFields d = .ok e) : e = d := by
  induction d generalizing e with
  | nil => cases h; rfl
  | cons p d ihd =>
    obtain ⟨k, x⟩ := p
    rw [deepCopyFields] at h
    cases hx : deepCopy x with
    | error e => rw [hx] at h; cases h
    | ok y =>
      cases hd : deepCopyFields d with
      | error e => rw [hx, hd] at h; cases h
      | ok e' =>
        rw [hx, hd] at h
        cases h
        rw [ih (k, x) List.mem_cons_self y hx,
          ihd (fun q hq => ih q (List.mem_cons_of_mem _ hq)) hd]

/-- **A copy is the same value.** -/
theorem eq_of_deepCopy {v w : Val F} (h : deepCopy v = .ok w) : w = v := by
  induction v generalizing w with
  | none => cases h
  | bool | int | float | str => cases h; rfl
  | list xs ih =>
    rw [deepCopy] at h
    cases hxs : deepCopyList xs with
    | error e => rw [hxs] at h; cases h
    | ok ys =>
      rw [hxs] at h
      cases h
      rw [eq_of_deepCopyList (fun x hx y hy => ih x hx hy) hxs]
  | tuple xs ih =>
    rw [deepCopy] at h
    cases hxs : deepCopyList xs with
    | error e => rw [hxs] at h; cases h
    | ok ys =>
      rw [hxs] at h
      cases h
      rw [eq_of_deepCopyList (fun x hx y hy => ih x hx hy) hxs]
  | dict d ih =>
    rw [deepCopy] at h
    cases hd : deepCopyFields d with
    | error e => rw [hd] at h; cases h
    | ok e =>
      rw [hd] at h
      cases h
      rw [eq_of_deepCopyFields (fun p hp y hy => ih p hp hy) hd]

/-- A value whose dictionaries have one item for each key, as Python's do. -/
inductive Keyed : Val F → Prop where
  | none : Keyed .none
  | primitive {v : Val F} : v.isPrimitive → Keyed v
  | list {xs : List (Val F)} : (∀ x ∈ xs, Keyed x) → Keyed (.list xs)
  | tuple {xs : List (Val F)} : (∀ x ∈ xs, Keyed x) → Keyed (.tuple xs)
  | dict {d : List (String × Val F)} : (Dict.keys d).Nodup → (∀ p ∈ d, Keyed p.2) →
      Keyed (.dict d)

theorem WF.keyed {v : Val F} (h : WF v) : Keyed v := by
  induction h with
  | primitive h => exact .primitive h
  | list _ ih => exact .list ih
  | tuple _ ih => exact .tuple ih
  | dict hkeys _ ih => exact .dict hkeys ih

theorem exists_of_deepCopyList {xs ys : List (Val F)} (h : deepCopyList xs = .ok ys) :
    ∀ x ∈ xs, ∃ y, deepCopy x = .ok y := by
  induction xs generalizing ys with
  | nil => exact nofun
  | cons x xs ih =>
    rw [deepCopyList] at h
    cases hx : deepCopy x with
    | error e => rw [hx] at h; cases h
    | ok y =>
      cases hxs : deepCopyList xs with
      | error e => rw [hx, hxs] at h; cases h
      | ok zs => exact List.forall_mem_cons.mpr ⟨⟨y, hx⟩, ih hxs⟩

theorem exists_of_deepCopyFields {d e : List (String × Val F)} (h : deepCopyFields d = .ok e) :
    ∀ p ∈ d, ∃ y, deepCopy p.2 = .ok y := by
  induction d generalizing e with
  | nil => exact nofun
  | cons p d ih =>
    obtain ⟨k, x⟩ := p
    rw [deepCopyFields] at h
    cases hx : deepCopy x with
    | error e => rw [hx] at h; cases h
    | ok y =>
      cases hd : deepCopyFields d with
      | error e => rw [hx, hd] at h; cases h
      | ok e' => exact List.forall_mem_cons.mpr ⟨⟨y, hx⟩, ih hd⟩

/-- **What `deep_copy` accepts** is well formed. -/
theorem Keyed.wf_of_deepCopy {v : Val F} (hv : Keyed v) {w : Val F} (h : deepCopy v = .ok w) :
    WF v := by
  induction hv generalizing w with
  | none => cases h
  | primitive hprim => exact .primitive hprim
  | @list xs _ ih =>
    rw [deepCopy] at h
    cases hxs : deepCopyList xs with
    | error e => rw [hxs] at h; cases h
    | ok ys =>
      refine .list fun x hx => ?_
      obtain ⟨y, hy⟩ := exists_of_deepCopyList hxs x hx
      exact ih x hx hy
  | @tuple xs _ ih =>
    rw [deepCopy] at h
    cases hxs : deepCopyList xs with
    | error e => rw [hxs] at h; cases h
    | ok ys =>
      refine .tuple fun x hx => ?_
      obtain ⟨y, hy⟩ := exists_of_deepCopyList hxs x hx
      exact ih x hx hy
  | @dict d hkeys _ ih =>
    rw [deepCopy] at h
    cases hd : deepCopyFields d with
    | error e => rw [hd] at h; cases h
    | ok e =>
      refine .dict hkeys fun p hp => ?_
      obtain ⟨y, hy⟩ := exists_of_deepCopyFields hd p hp
      exact ih p hp hy

/-! ## Equality up to the order of items -/

/-- Equal values, except that dictionaries may have their items in another order. -/
inductive Same : Val F → Val F → Prop where
  | none : Same .none .none
  | primitive {v : Val F} : v.isPrimitive → Same v v
  | list {xs ys : List (Val F)} : xs.length = ys.length →
      (∀ (i : ℕ) (v w : Val F), xs[i]? = some v → ys[i]? = some w → Same v w) →
      Same (.list xs) (.list ys)
  | tuple {xs ys : List (Val F)} : xs.length = ys.length →
      (∀ (i : ℕ) (v w : Val F), xs[i]? = some v → ys[i]? = some w → Same v w) →
      Same (.tuple xs) (.tuple ys)
  | dict {d e : List (String × Val F)} :
      (∀ k, (Dict.get? d k).isSome = (Dict.get? e k).isSome) →
      (∀ k v w, Dict.get? d k = some v → Dict.get? e k = some w → Same v w) →
      Same (.dict d) (.dict e)

theorem Same.refl (v : Val F) : Same v v := by
  have members {xs : List (Val F)} (ih : ∀ x ∈ xs, Same x x) :
      ∀ (i : ℕ) (v w : Val F), xs[i]? = some v → xs[i]? = some w → Same v w := by
    intro i v w hv hw
    obtain rfl : v = w := Option.some_inj.mp (hv.symm.trans hw)
    exact ih v (List.mem_of_getElem? hv)
  induction v with
  | none => exact .none
  | bool => exact .primitive rfl
  | int => exact .primitive rfl
  | float => exact .primitive rfl
  | str => exact .primitive rfl
  | list xs ih => exact .list rfl (members ih)
  | tuple xs ih => exact .tuple rfl (members ih)
  | dict d ih =>
    refine .dict (fun k => rfl) fun k v w hv hw => ?_
    obtain rfl : v = w := Option.some_inj.mp (hv.symm.trans hw)
    exact ih _ (Dict.mem_of_get? hv)

theorem Same.symm {v w : Val F} (h : Same v w) : Same w v := by
  induction h with
  | none => exact .none
  | primitive h => exact .primitive h
  | list hlen _ ih => exact .list hlen.symm fun i v w hv hw => ih i w v hw hv
  | tuple hlen _ ih => exact .tuple hlen.symm fun i v w hv hw => ih i w v hw hv
  | dict hkeys _ ih =>
    exact .dict (fun k => (hkeys k).symm) fun k v w hv hw => ih k w v hw hv

theorem Same.isPrimitive_eq {v w : Val F} (h : Same v w) : v.isPrimitive = w.isPrimitive := by
  cases h <;> rfl

/-- A primitive is the same as itself only. -/
theorem Same.eq_of_isPrimitive {v w : Val F} (h : Same v w) (hv : v.isPrimitive) : v = w := by
  cases h with
  | primitive => rfl
  | none => cases hv
  | list => cases hv
  | tuple => cases hv
  | dict => cases hv

theorem exists_getElem?_of_length_eq {xs ys : List (Val F)} (hlen : xs.length = ys.length)
    {i : ℕ} {w : Val F} (hw : ys[i]? = some w) : ∃ v, xs[i]? = some v := by
  obtain ⟨hi, -⟩ := List.getElem?_eq_some_iff.mp hw
  exact ⟨_, List.getElem?_eq_getElem (hlen ▸ hi)⟩

theorem exists_getElem?_of_mem {xs ys : List (Val F)} (hlen : xs.length = ys.length) {w : Val F}
    (hw : w ∈ ys) : ∃ (i : ℕ) (v : Val F), xs[i]? = some v ∧ ys[i]? = some w := by
  obtain ⟨i, hi⟩ := List.mem_iff_getElem?.mp hw
  obtain ⟨v, hv⟩ := exists_getElem?_of_length_eq hlen hi
  exact ⟨i, v, hv, hi⟩

/-- What is the same as a well-formed value is well formed, if it is a value at all. -/
theorem WF.of_same {v w : Val F} (hv : WF v) (h : Same v w) (hw : Keyed w) : WF w := by
  induction h with
  | none => exact absurd hv not_wf_none
  | primitive h => exact .primitive h
  | @list xs ys hlen _ ih =>
    cases hw with
    | primitive h => cases h
    | list hys =>
      refine .list fun y hy => ?_
      obtain ⟨i, x, hx, hi⟩ := exists_getElem?_of_mem hlen hy
      exact ih i x y hx hi (hv.mem_list x (List.mem_of_getElem? hx)) (hys y hy)
  | @tuple xs ys hlen _ ih =>
    cases hw with
    | primitive h => cases h
    | tuple hys =>
      refine .tuple fun y hy => ?_
      obtain ⟨i, x, hx, hi⟩ := exists_getElem?_of_mem hlen hy
      exact ih i x y hx hi (hv.mem_tuple x (List.mem_of_getElem? hx)) (hys y hy)
  | @dict d e hkeys _ ih =>
    cases hw with
    | primitive h => cases h
    | dict hnodup hvals =>
      refine .dict hnodup fun p hp => ?_
      have hget := Dict.get?_of_mem hnodup hp
      have hk := hkeys p.1
      rw [hget, Option.isSome_some] at hk
      obtain ⟨u, hu⟩ := Option.isSome_iff_exists.mp hk
      exact ih p.1 u p.2 hu hget (hv.of_get? hu) (hvals p hp)

/-! ### Reading objects that are the same -/

theorem Same.exists_dict {d : Fields F} {w : Val F} (h : Same (.dict d) w) :
    ∃ e, w = .dict e := by
  cases h with
  | primitive h => cases h
  | dict => exact ⟨_, rfl⟩

theorem Same.isSome_get?_eq {d e : Fields F} (h : Same (.dict d) (.dict e)) (k : String) :
    (Dict.get? d k).isSome = (Dict.get? e k).isSome := by
  cases h with
  | primitive h => cases h
  | dict hkeys _ => exact hkeys k

/-- Dictionaries that are the same give answers that are the same. -/
theorem Same.rel_get? {d e : Fields F} (h : Same (.dict d) (.dict e)) (k : String) :
    Option.Rel Same (Dict.get? d k) (Dict.get? e k) := by
  cases h with
  | primitive h => cases h
  | dict hkeys hvals =>
    have hk := hkeys k
    cases hd : Dict.get? d k with
    | none =>
      cases hw : Dict.get? e k with
      | none => exact .none
      | some w => rw [hd, hw] at hk; cases hk
    | some v =>
      rw [hd] at hk
      obtain ⟨w, hw⟩ := Option.isSome_iff_exists.mp hk.symm
      rw [hw]
      exact .some (hvals k v w hd hw)

/-- Dictionaries that are the same have values that are the same. -/
theorem Same.exists_get? {d e : Fields F} (h : Same (.dict d) (.dict e)) {k : String}
    {v : Val F} (hv : Dict.get? d k = some v) : ∃ w, Dict.get? e k = some w ∧ Same v w := by
  have hrel := h.rel_get? k
  rw [hv] at hrel
  generalize Dict.get? e k = o at hrel
  cases hrel with
  | some hvw => exact ⟨_, rfl, hvw⟩

theorem isEmpty_eq_of_isSome_get? {d e : Fields F}
    (h : ∀ k, (Dict.get? d k).isSome = (Dict.get? e k).isSome) : d.isEmpty = e.isEmpty := by
  cases d with
  | nil =>
    cases e with
    | nil => rfl
    | cons p e =>
      have hp := h p.1
      rw [Dict.get?_nil, Dict.get?_cons, if_pos rfl] at hp
      cases hp
  | cons p d =>
    cases e with
    | nil =>
      have hp := h p.1
      rw [Dict.get?_nil, Dict.get?_cons, if_pos rfl] at hp
      cases hp
    | cons q e => rfl

theorem isEmpty_eq_of_length_eq {xs ys : List (Val F)} (h : xs.length = ys.length) :
    xs.isEmpty = ys.isEmpty := by
  rw [Bool.eq_iff_iff, List.isEmpty_iff_length_eq_zero, List.isEmpty_iff_length_eq_zero, h]

theorem Same.truthy_eq [PyRuntime F] {v w : Val F} (h : Same v w) : v.truthy = w.truthy := by
  cases h with
  | none => rfl
  | primitive => rfl
  | list hlen _ => rw [truthy, truthy, isEmpty_eq_of_length_eq hlen]
  | tuple hlen _ => rw [truthy, truthy, isEmpty_eq_of_length_eq hlen]
  | dict hkeys _ => rw [truthy, truthy, isEmpty_eq_of_isSome_get? hkeys]

theorem Same.unhashable_eq {v w : Val F} (h : Same v w) : v.unhashable = w.unhashable := by
  induction h with
  | none => rfl
  | primitive => rfl
  | list => rfl
  | dict => rfl
  | @tuple xs ys hlen hmem ih =>
    rw [unhashable, unhashable]
    induction xs generalizing ys with
    | nil => rw [List.length_eq_zero_iff.mp hlen.symm]
    | cons x xs ihxs =>
      obtain ⟨y, ys, rfl⟩ := List.exists_cons_of_length_eq_add_one hlen.symm
      rw [unhashableList, unhashableList, ih 0 x y rfl rfl,
        ihxs (Nat.succ_inj.mp hlen) (fun i v w hv hw => hmem (i + 1) v w hv hw)
          fun i v w hv hw => ih (i + 1) v w hv hw]

end Val

end LdmsTest
