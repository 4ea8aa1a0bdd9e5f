import LdmsTest.Python.Json

/-!
# Built-in functions on objects

* `Key F`, `keyOf`: what an object is as the key of a dictionary.  Keys that compare equal, such
  as `1`, `1.0` and `True`, are one key.
* `intOf`: `int(x)`.
* `formatWidth`: whether `'{:10}'.format(x)` raises.
-/

namespace LdmsTest

/-! ## Keys -/

/-- A key of a dictionary.  A number that is equal to an integer is that integer. -/
inductive Key (F : Type) where
  | none : Key F
  | num : ℤ → Key F
  | float : F → Key F
  | str : String → Key F
  deriving DecidableEq

namespace Val

variable {F : Type} [PyRuntime F]

/-- The key that an object is, or what `hash` raises.  Tuples, which no JSON text holds, are left
out. -/
def keyOf : Val F → Except PyError (Key F)
  | .none => pure .none
  | .bool b => pure (.num b.toNat)
  | .int n => pure (.num n)
  | .float x => pure ((PyRuntime.floatIntegral x).elim (.float x) .num)
  | .str s => pure (.str s)
  | v => throw ⟨.typeError, "unhashable type: '" ++ v.typeName ++ "'"⟩

theorem exists_keyOf_of_isPrimitive {v : Val F} (hv : v.isPrimitive) :
    ∃ k, v.keyOf = .ok k ∧ k ≠ .none := by
  cases v with
  | none => cases hv
  | bool b => exact ⟨_, rfl, nofun⟩
  | int n => exact ⟨_, rfl, nofun⟩
  | float x =>
    refine ⟨_, rfl, ?_⟩
    cases PyRuntime.floatIntegral x with
    | none => exact nofun
    | some n => exact nofun
  | str s => exact ⟨_, rfl, nofun⟩
  | list xs => cases hv
  | tuple xs => cases hv
  | dict d => cases hv

/-- Only a string is the key that a string is. -/
theorem eq_str_of_keyOf {v : Val F} {s : String} (h : v.keyOf = .ok (.str s)) : v = .str s := by
  cases v with
  | str t =>
    cases h
    rfl
  | float x =>
    have hkey : (PyRuntime.floatIntegral x).elim (Key.float x) Key.num = .str s :=
      Except.ok.inj h
    cases hx : PyRuntime.floatIntegral x with
    | none => rw [hx] at hkey; cases hkey
    | some n => rw [hx] at hkey; cases hkey
  | none => cases h
  | bool b => cases h
  | int n => cases h
  | list xs => cases h
  | tuple xs => cases h
  | dict d => cases h

/-! ## `int` -/

section Int

variable (F)

/-- The number of a run of digits after its first digit, with single underscores between
digits. -/
def intDigits (acc : ℕ) : List Char → Option ℕ
  | [] => some acc
  | '_' :: c :: cs =>
    match PyRuntime.decimal F c with
    | some d => intDigits (10 * acc + d) cs
    | Option.none => Option.none
  | c :: cs =>
    match PyRuntime.decimal F c with
    | some d => intDigits (10 * acc + d) cs
    | Option.none => Option.none

/-- The number of a run of digits. -/
def intNat : List Char → Option ℕ
  | [] => Option.none
  | c :: cs =>
    match PyRuntime.decimal F c with
    | some d => intDigits F d cs
    | Option.none => Option.none

/-- The number of a text without blanks around it. -/
def intSigned : List Char → Option ℤ
  | '-' :: cs => (intNat F cs).map fun n => -(n : ℤ)
  | '+' :: cs => (intNat F cs).map fun n => (n : ℤ)
  | cs => (intNat F cs).map fun n => (n : ℤ)

/-- `cs.strip()` -/
def strip (cs : List Char) : List Char :=
  ((cs.dropWhile (PyRuntime.space F)).reverse.dropWhile (PyRuntime.space F)).reverse

end Int

/-- `int` of a text without blanks around it, whose digits the interpreter may refuse. -/
def intOfText {F : Type} [PyRuntime F] (cs : List Char) : Option (Except PyError ℤ) :=
  (intSigned F cs).map fun n =>
    let digits := cs.countP fun c => (PyRuntime.decimal F c).isSome
    if (PyRuntime.limits F).allows digits then pure n
    else throw ⟨.valueError, "Exceeds the limit (" ++ toString (PyRuntime.limits F).digits ++
      " digits) for integer string conversion: value has " ++ toString digits ++
      " digits; use sys.set_int_max_str_digits() to increase the limit"⟩

/-- `int(v)` -/
def intOf {F : Type} [Json.JsonFloat F] [DecidableEq F] : Val F → Except PyError ℤ
  | .int n => pure n
  | .bool b => pure b.toNat
  | .float x =>
    match PyRuntime.floatTrunc x with
    | some n => pure n
    | Option.none =>
      if x = Json.JsonFloat.nan then throw ⟨.valueError, "cannot convert float NaN to integer"⟩
      else throw ⟨.overflowError, "cannot convert float infinity to integer"⟩
  | .str s =>
    match intOfText (F := F) (strip F s.toList) with
    | some r => r
    | Option.none =>
      throw ⟨.valueError, "invalid literal for int() with base 10: " ++ reprStr F s⟩
  | v => throw ⟨.typeError, "int() argument must be a string, a bytes-like object or a real " ++
      "number, not '" ++ v.typeName ++ "'"⟩

/-! ## `format` -/

/-- What `'{:10}'.format(v)` raises.  The text it gives goes to the log only. -/
def formatWidth (v : Val F) : Except PyError Unit :=
  if v.isPrimitive then pure ()
  else throw ⟨.typeError, "unsupported format string passed to " ++ v.typeName ++ ".__format__"⟩

omit [PyRuntime F] in
theorem formatWidth_of_isPrimitive {v : Val F} (h : v.isPrimitive) : formatWidth v = .ok () :=
  if_pos h

omit [PyRuntime F] in
theorem formatWidth_eq_ok_iff {v : Val F} : formatWidth v = .ok () ↔ v.isPrimitive := by
  rw [formatWidth]
  split
  · next h => exact ⟨fun _ => h, fun _ => rfl⟩
  · next h => exact ⟨nofun, fun hv => absurd hv h⟩

end Val
end LdmsTest
