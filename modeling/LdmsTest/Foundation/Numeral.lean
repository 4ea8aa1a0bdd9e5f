import Mathlib.Data.Nat.Basic
import Mathlib.Tactic.Common

/-!
# Numerals

The digits of a natural number in a base up to sixteen, as characters, and the number that a
list of digits stands for.  Reading what was written gives the number back
(`value_toDigits`, `value_upperDigits`).

* `IntType`: the types of machine integers, by their width and sign.
-/

namespace LdmsTest
namespace Numeral

/-- A hexadecimal digit, in either case. -/
def isHexDigit (c : Char) : Bool :=
  c.isDigit || ('a' ≤ c && c ≤ 'f') || ('A' ≤ c && c ≤ 'F')

/-- The value of a digit, in either case. -/
def digitValue (c : Char) : ℕ :=
  if c.isDigit then c.toNat - '0'.toNat
  else if 'a' ≤ c ∧ c ≤ 'f' then c.toNat - 'a'.toNat + 10
  else if 'A' ≤ c ∧ c ≤ 'F' then c.toNat - 'A'.toNat + 10
  else 0

/-- The number that digits stand for, the most significant digit first. -/
def value (b : ℕ) (cs : List Char) : ℕ :=
  cs.foldl (fun n c => b * n + digitValue c) 0

/-- The upper-case hexadecimal digits of a number. -/
def upperDigits (n : ℕ) : List Char :=
  (Nat.toDigits 16 n).map Char.toUpper

theorem value_append_singleton (b : ℕ) (cs : List Char) (c : Char) :
    value b (cs ++ [c]) = b * value b cs + digitValue c := by
  rw [value, List.foldl_append]
  rfl

/-- Every digit of a number is the character of a digit below the base. -/
theorem exists_of_mem_toDigits {b : ℕ} (hb : 1 < b) {n : ℕ} {c : Char}
    (hc : c ∈ Nat.toDigits b n) : ∃ d < b, c = Nat.digitChar d := by
  induction n using Nat.strong_induction_on with
  | _ n ih =>
    rw [Nat.toDigits_eq_if hb] at hc
    split at hc
    · next hn => exact ⟨n, hn, List.mem_singleton.mp hc⟩
    · next hn =>
      rcases List.mem_append.mp hc with hc | hc
      · exact ih (n / b) (Nat.div_lt_self (by omega) hb) hc
      · exact ⟨n % b, Nat.mod_lt n (by omega), List.mem_singleton.mp hc⟩

/-- The digits of a positive number do not start with a zero. -/
theorem head_toDigits_ne_zero {b : ℕ} (hb : 1 < b) (hb' : b ≤ 16) {n : ℕ} (hn : 0 < n) {c : Char}
    {cs : List Char} (h : Nat.toDigits b n = c :: cs) : c ≠ '0' := by
  have hdigit : ∀ d < 16, 0 < d → Nat.digitChar d ≠ '0' := by decide
  induction n using Nat.strong_induction_on generalizing cs with
  | _ n ih =>
    rw [Nat.toDigits_eq_if hb] at h
    split at h
    · next hlt =>
      rw [← (List.cons.inj h).1]
      exact hdigit n (Nat.lt_of_lt_of_le hlt hb') hn
    · next hge =>
      cases hdiv : Nat.toDigits b (n / b) with
      | nil => exact absurd hdiv Nat.toDigits_ne_nil
      | cons c' cs' =>
        rw [hdiv] at h
        obtain rfl := (List.cons.inj h).1
        exact ih (n / b) (Nat.div_lt_self hn hb) (Nat.div_pos (by omega) (by omega)) hdiv

/-- **Reading back**, for any way of writing digits that keeps their values. -/
theorem value_map_toDigits {b : ℕ} (hb : 1 < b) {f : Char → Char}
    (hf : ∀ d < b, digitValue (f (Nat.digitChar d)) = d) (n : ℕ) :
    value b ((Nat.toDigits b n).map f) = n := by
  induction n using Nat.strong_induction_on with
  | _ n ih =>
    rw [Nat.toDigits_eq_if hb]
    split
    · next hn =>
      calc value b [f (Nat.digitChar n)] = b * 0 + digitValue (f (Nat.digitChar n)) := rfl
        _ = n := by rw [hf n hn, Nat.mul_zero, Nat.zero_add]
    · next hn =>
      rw [List.map_append, List.map_singleton, value_append_singleton,
        ih (n / b) (Nat.div_lt_self (by omega) hb), hf _ (Nat.mod_lt n (by omega)),
        Nat.div_add_mod]

theorem value_toDigits {b : ℕ} (hb : 1 < b) (hb' : b ≤ 16) (n : ℕ) :
    value b (Nat.toDigits b n) = n := by
  have hdigit : ∀ d < 16, digitValue (Nat.digitChar d) = d := by decide
  have h := value_map_toDigits (f := id) hb (fun d hd => hdigit d (Nat.lt_of_lt_of_le hd hb')) n
  rwa [List.map_id] at h

theorem value_upperDigits (n : ℕ) : value 16 (upperDigits n) = n :=
  value_map_toDigits (by decide) (by decide) n

theorem isHexDigit_of_mem_toDigits {b : ℕ} (hb : 1 < b) (hb' : b ≤ 16) {n : ℕ} {c : Char}
    (hc : c ∈ Nat.toDigits b n) : isHexDigit c := by
  obtain ⟨d, hd, rfl⟩ := exists_of_mem_toDigits hb hc
  have hdigit : ∀ d < 16, isHexDigit (Nat.digitChar d) := by decide
  exact hdigit d (Nat.lt_of_lt_of_le hd hb')

theorem isHexDigit_of_mem_upperDigits {n : ℕ} {c : Char} (hc : c ∈ upperDigits n) :
    isHexDigit c := by
  obtain ⟨c', hc', rfl⟩ := List.mem_map.mp hc
  obtain ⟨d, hd, rfl⟩ := exists_of_mem_toDigits (by decide) hc'
  have hdigit : ∀ d < 16, isHexDigit (Nat.digitChar d).toUpper := by decide
  exact hdigit d hd

theorem upperDigits_ne_nil (n : ℕ) : upperDigits n ≠ [] := by
  rw [upperDigits, Ne, List.map_eq_nil_iff]
  exact Nat.toDigits_ne_nil

/-! ## Machine integers -/

/-- The types of machine integers. -/
inductive IntType where
  | u8 | s8 | u16 | s16 | u32 | s32 | u64 | s64
  deriving DecidableEq

namespace IntType

def width : IntType → ℕ
  | .u8 | .s8 => 8
  | .u16 | .s16 => 16
  | .u32 | .s32 => 32
  | .u64 | .s64 => 64

def signed : IntType → Bool
  | .s8 | .s16 | .s32 | .s64 => true
  | _ => false

def name : IntType → List Char
  | .u8 => "u8".toList
  | .s8 => "s8".toList
  | .u16 => "u16".toList
  | .s16 => "s16".toList
  | .u32 => "u32".toList
  | .s32 => "s32".toList
  | .u64 => "u64".toList
  | .s64 => "s64".toList

end IntType

end Numeral
end LdmsTest
