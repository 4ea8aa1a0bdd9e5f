import LdmsTest.Foundation.Positions
import LdmsTest.Foundation.Numeral
import LdmsTest.Foundation.Words

/-!
# The records of `test_store`

`store` appends one line for a set: the timestamp, the producer and the component, and a field for
each metric of `metric_arry`.  The loop over the metrics and the loops over the elements of an array
share their variable `i`.

* `storeLoop`, `store`: the source.
* `record`: the line that is asked for.
* `store_correct_iff`: when the loop ends and has written that line.
-/

namespace LdmsTest
namespace TestStore

open Positions
open Numeral (IntType)

/-! ## Metrics -/

/-- What `fprintf` writes for `%f`. -/
class FloatFormat (F : Type) where
  print : F → List Char
  print_ne_nil : ∀ x, print x ≠ []
  comma_not_mem : ∀ x, ',' ∉ print x
  semicolon_not_mem : ∀ x, ';' ∉ print x
  newline_not_mem : ∀ x, '\n' ∉ print x

/-- The value of a metric with its type. -/
inductive Value (F D : Type) where
  | char (c : Char)
  /-- all the bytes, with the `\0` and what is behind it -/
  | charArray (cs : List Char)
  | int (t : IntType) (v : BitVec t.width)
  | intArray (t : IntType) (vs : List (BitVec t.width))
  | f32 (x : F)
  | f32Array (xs : List F)
  | d64 (x : D)
  | d64Array (xs : List D)
  /-- no scalar and no array -/
  | other

/-- The number of elements that a loop of `store` writes. -/
def Value.arrayLen {F D : Type} : Value F D → Option ℕ
  | .intArray _ vs => some vs.length
  | .f32Array xs => some xs.length
  | .d64Array xs => some xs.length
  | _ => none

/-- A set with its metrics, one of which is the component. -/
structure MetricSet (F D : Type) where
  sec : BitVec 32
  usec : BitVec 32
  producer : List Char
  metrics : List (Value F D)
  /-- `ldms_metric_by_name(set, LDMSD_COMPID)` -/
  compidIdx : Fin metrics.length
  compid : BitVec 64
  compid_eq : metrics.get compidIdx = .int .u64 compid

/-! ## Writing a value -/

def printDec (t : IntType) (v : BitVec t.width) : List Char :=
  if t.signed ∧ v.toInt < 0 then '-' :: Nat.toDigits 10 v.toInt.natAbs
  else Nat.toDigits 10 v.toNat

/-- A number on its own. -/
def printInt (t : IntType) (v : BitVec t.width) : List Char :=
  match t with
  -- "%18hhd"
  | .s8 => (printDec .s8 v).leftpad 18 ' '
  | t => printDec t v

/-- A number in an array. -/
def printElem (t : IntType) (v : BitVec t.width) : List Char :=
  match t with
  -- "0x%02hhx"
  | .u8 => '0' :: 'x' :: (Nat.toDigits 16 v.toNat).leftpad 2 '0'
  | t => printDec t v

/-- `for (i = 0; i < n; i++)` from `i` on: the text, and `i` afterwards. -/
def printArray {α : Type} (print : α → List Char) : ℕ → List α → List Char × ℕ
  | i, [] => ([], i)
  | i, x :: xs =>
    let r := printArray print (i + 1) xs
    ((if i ≠ 0 then [';'] else []) ++ print x ++ r.1, r.2)

/-- What `%s` writes, which reads a text up to its `\0`. -/
def cString (cs : List Char) : List Char :=
  cs.takeWhile (· ≠ '\x00')

variable {F D : Type} [FloatFormat F] [FloatFormat D]

/-- The `switch` of `store`: the text, and `i` afterwards. -/
def printMetric (i : ℕ) : Value F D → Option (List Char × ℕ)
  -- without a `\0`, `%s` goes on behind the array, and nothing is said of what it meets there
  | .charArray cs => if '\x00' ∈ cs then some ('"' :: cString cs ++ ['"'], i) else none
  | .char c => some (['\'', c, '\''], i)
  | .int t v => some (printInt t v, i)
  | .intArray t vs => some (printArray (printElem t) 0 vs)
  | .f32 x => some (FloatFormat.print x, i)
  | .f32Array xs => some (printArray FloatFormat.print 0 xs)
  | .d64 x => some (FloatFormat.print x, i)
  | .d64Array xs => some (printArray FloatFormat.print 0 xs)
  -- `assert(0)`
  | .other => none

/-! ## Storing a set -/

inductive Outcome where
  /-- what the file holds -/
  | stored (text : List Char)
  | aborted

/-- The loop over the metrics, from `i` on. -/
def storeLoop (set : MetricSet F D) (metricArry : List (Fin set.metrics.length)) :
    ℕ → ℕ → List Char → Option Outcome
  | 0, _, _ => none
  | fuel + 1, i, out =>
    match metricArry[i]? with
    | none => some (.stored out)
    | some idx =>
      if set.compidIdx = idx then storeLoop set metricArry fuel (i + 1) out
      else
        match printMetric i (set.metrics.get idx) with
        | none => some .aborted
        | some (text, i) => storeLoop set metricArry fuel (i + 1) (out ++ ',' :: text)

/-- The fields before the metrics. -/
def header (set : MetricSet F D) : List Char :=
  Nat.toDigits 10 set.sec.toNat ++ '.' :: (Nat.toDigits 10 set.usec.toNat).leftpad 6 '0' ++
    ',' :: set.producer ++ ',' :: Nat.toDigits 10 set.compid.toNat

/-- `store`, which appends to a file. -/
def store (fuel : ℕ) (set : MetricSet F D) (metricArry : List (Fin set.metrics.length))
    (file : List Char) : Option Outcome :=
  match storeLoop set metricArry fuel 0 (file ++ header set) with
  | some (.stored out) => some (.stored (out ++ ['\n']))
  | r => r

/-! ## The line asked for -/

def joinElems {α : Type} (print : α → List Char) (xs : List α) : List Char :=
  [';'].intercalate (xs.map print)

/-- The elements of an array of characters, without the `\0` that fill it up. -/
def elements (cs : List Char) : List Char :=
  cs.rdropWhile (· = '\x00')

/-- A field, with all elements of an array. -/
def fieldText : Value F D → List Char
  | .charArray cs => '"' :: elements cs ++ ['"']
  | .char c => ['\'', c, '\'']
  | .int t v => printInt t v
  | .intArray t vs => joinElems (printElem t) vs
  | .f32 x => FloatFormat.print x
  | .f32Array xs => joinElems FloatFormat.print xs
  | .d64 x => FloatFormat.print x
  | .d64Array xs => joinElems FloatFormat.print xs
  | .other => []

/-- One field for each metric but the component. -/
def record (set : MetricSet F D) (metricArry : List (Fin set.metrics.length)) : List Char :=
  header set ++ ((metricArry.filter fun idx => set.compidIdx ≠ idx).flatMap fun idx =>
    ',' :: fieldText (set.metrics.get idx)) ++ ['\n']

/-- The loop ends and has appended the record, which is one line. -/
def Stores (set : MetricSet F D) (metricArry : List (Fin set.metrics.length)) : Prop :=
  (∀ file, ∃ fuel, store fuel set metricArry file =
    some (.stored (file ++ record set metricArry))) ∧ IsLine '\n' (record set metricArry)

/-- A text and the `\0` that fill the array up, and no line end. -/
def IsText (cs : List Char) : Prop :=
  ∃ (text : List Char) (k : ℕ), cs = text ++ List.replicate (k + 1) '\x00' ∧ '\x00' ∉ text ∧
    '\n' ∉ text

/-- The characters of a metric can stand in a line. -/
def Value.Writable {F D : Type} : Value F D → Prop
  | .char c => c ≠ '\n'
  | .charArray cs => IsText cs
  | _ => True

omit [FloatFormat F] [FloatFormat D] in
/-- An array is not shorter than its position, and leads to no position before which a metric would
be left out. -/
def Placed (set : MetricSet F D) (metricArry : List (Fin set.metrics.length)) : Prop :=
  ∀ (p : ℕ) (idx : Fin set.metrics.length) (n : ℕ), metricArry[p]? = some idx →
    (set.metrics.get idx).arrayLen = some n →
      p ≤ n ∧ ∀ q idx', p < q → q ≤ n → metricArry[q]? = some idx' → idx' = set.compidIdx

omit [FloatFormat F] [FloatFormat D] in
structure Fitting (set : MetricSet F D) (metricArry : List (Fin set.metrics.length)) : Prop where
  placed : Placed set metricArry
  producer : '\n' ∉ set.producer
  writable : ∀ idx ∈ metricArry, (set.metrics.get idx).Writable

/-! ## The text of an array -/

theorem printArray_succ {α : Type} (print : α → List Char) (i : ℕ) (xs : List α) :
    printArray print (i + 1) xs =
      (xs.flatMap fun x => ';' :: print x, i + 1 + xs.length) := by
  induction xs generalizing i with
  | nil => rfl
  | cons x xs ih =>
    rw [printArray, ih]
    simp
    omega

theorem joinElems_cons {α : Type} (print : α → List Char) (x : α) (xs : List α) :
    joinElems print (x :: xs) = print x ++ xs.flatMap fun x => ';' :: print x := by
  induction xs generalizing x with
  | nil => simp [joinElems]
  | cons y xs ih =>
    have h := ih y
    simp only [joinElems, List.map_cons, List.intercalate_cons_cons] at h ⊢
    rw [h]
    simp

/-- The loop writes all elements, and leaves `i` at their number. -/
theorem printArray_zero {α : Type} (print : α → List Char) (xs : List α) :
    printArray print 0 xs = (joinElems print xs, xs.length) := by
  cases xs with
  | nil => rfl
  | cons x xs =>
    rw [printArray, printArray_succ, joinElems_cons]
    simp
    omega

/-- The text that is written ends within the array. -/
def Value.Ended {F D : Type} : Value F D → Prop
  | .charArray cs => '\x00' ∈ cs
  | .other => False
  | _ => True

/-- The text that is written. -/
def written : Value F D → List Char
  | .charArray cs => '"' :: cString cs ++ ['"']
  | v => fieldText v

/-- A loop of the `switch` writes the field, and leaves `i` where it was or at the length of the
array. -/
theorem printMetric_eq (i : ℕ) {v : Value F D} (hv : v.Ended) :
    printMetric i v = some (written v, v.arrayLen.getD i) := by
  rcases v with _ | cs | _ | _ | _ | _ | _ | _ | _
  case charArray =>
    have hend : '\x00' ∈ cs := hv
    rw [printMetric, if_pos hend]
    rfl
  case intArray => simp [printMetric, printArray_zero, written, fieldText, Value.arrayLen]
  case f32Array => simp [printMetric, printArray_zero, written, fieldText, Value.arrayLen]
  case d64Array => simp [printMetric, printArray_zero, written, fieldText, Value.arrayLen]
  case other => exact hv.elim
  all_goals rfl

theorem printMetric_eq_none (i : ℕ) {v : Value F D} (hv : ¬ v.Ended) : printMetric i v = none := by
  rcases v with _ | cs | _ | _ | _ | _ | _ | _ | _
  case charArray =>
    have hend : '\x00' ∉ cs := hv
    rw [printMetric, if_neg hend]
  case other => rfl
  all_goals exact absurd trivial hv

theorem written_of_arrayLen {v : Value F D} {n : ℕ} (h : v.arrayLen = some n) :
    written v = fieldText v := by
  rcases v with _ | _ | _ | _ | _ | _ | _ | _ | _
  case charArray => cases h
  all_goals rfl

/-! ## Texts in arrays -/

/-- A text, and what fills its array up. -/
theorem elements_eq (cs : List Char) :
    ∃ k, cs = elements cs ++ List.replicate k '\x00' := by
  refine ⟨(cs.rtakeWhile (· = '\x00')).length, ?_⟩
  have hfill : cs.rtakeWhile (· = '\x00') =
      List.replicate (cs.rtakeWhile (· = '\x00')).length '\x00' :=
    List.eq_replicate_of_mem fun c hc => by simpa using List.mem_rtakeWhile_imp hc
  rw [← hfill]
  exact List.rdropWhile_append_rtakeWhile.symm

theorem cString_append_replicate {text : List Char} (h : '\x00' ∉ text) (k : ℕ) :
    cString (text ++ List.replicate k '\x00') = text := by
  have htext : ∀ c ∈ text, (c ≠ '\x00' : Bool) := fun c hc => by
    simpa using ne_of_mem_of_not_mem hc h
  rw [cString, List.takeWhile_append_of_pos htext]
  cases k <;> simp [List.replicate_succ]

theorem elements_append_replicate {text : List Char} (h : '\x00' ∉ text) (k : ℕ) :
    elements (text ++ List.replicate k '\x00') = text := by
  induction k with
  | zero =>
    rw [List.replicate_zero, List.append_nil, elements, List.rdropWhile_eq_self_iff]
    intro hne hlast
    exact h (of_decide_eq_true hlast ▸ List.getLast_mem hne)
  | succ k ih =>
    rw [List.replicate_succ', ← List.append_assoc, elements, List.rdropWhile_concat_pos _ _ _ rfl]
    exact ih

theorem null_not_mem_cString (cs : List Char) : '\x00' ∉ cString cs := fun h => by
  simpa using List.mem_takeWhile_imp h

/-- What is written holds all elements only where no `\0` is among them. -/
theorem cString_eq_elements_iff {cs : List Char} :
    cString cs = elements cs ↔ '\x00' ∉ elements cs := by
  constructor
  · intro h
    exact h ▸ null_not_mem_cString cs
  · intro h
    obtain ⟨k, hk⟩ := elements_eq cs
    calc cString cs = cString (elements cs ++ List.replicate k '\x00') := congrArg cString hk
      _ = elements cs := cString_append_replicate h k

theorem isText_iff {cs : List Char} :
    IsText cs ↔ '\x00' ∈ cs ∧ cString cs = elements cs ∧ '\n' ∉ elements cs := by
  constructor
  · rintro ⟨text, k, rfl, hnull, hnl⟩
    rw [cString_append_replicate hnull, elements_append_replicate hnull]
    exact ⟨List.mem_append_right _ (by simp), rfl, hnl⟩
  · rintro ⟨hend, heq, hnl⟩
    have hnull := cString_eq_elements_iff.mp heq
    obtain ⟨k, hk⟩ := elements_eq cs
    cases k with
    | zero =>
      rw [List.replicate_zero, List.append_nil] at hk
      exact absurd (hk ▸ hend) hnull
    | succ k => exact ⟨elements cs, k, hk, hnull, hnl⟩

/-- No field has more `\0` than the one asked for, and the same number only when it is that. -/
theorem count_written_le (v : Value F D) : (written v).count '\x00' ≤ (fieldText v).count '\x00' := by
  rcases v with _ | cs | _ | _ | _ | _ | _ | _ | _
  case charArray =>
    have hzero : (cString cs).count '\x00' = 0 := List.count_eq_zero.mpr (null_not_mem_cString cs)
    simp [written, fieldText, List.count_append, hzero]
  all_goals exact le_rfl

theorem written_eq_of_count {v : Value F D}
    (h : (written v).count '\x00' = (fieldText v).count '\x00') : written v = fieldText v := by
  rcases v with _ | cs | _ | _ | _ | _ | _ | _ | _
  case charArray =>
    have hzero : (cString cs).count '\x00' = 0 := List.count_eq_zero.mpr (null_not_mem_cString cs)
    have hcount : (elements cs).count '\x00' = 0 := by
      simpa [written, fieldText, List.count_append, hzero] using h.symm
    rw [written, fieldText, cString_eq_elements_iff.mpr (List.count_eq_zero.mp hcount)]
  all_goals rfl

/-! ## The text of a field -/

/-- The text of an element, in which neither delimiter occurs. -/
structure Plain (cs : List Char) : Prop where
  ne_nil : cs ≠ []
  comma : ',' ∉ cs
  semicolon : ';' ∉ cs
  newline : '\n' ∉ cs

theorem Plain.cons {c : Char} {cs : List Char} (h : Plain cs)
    (hc : c ≠ ',' ∧ c ≠ ';' ∧ c ≠ '\n') : Plain (c :: cs) where
  ne_nil := List.cons_ne_nil c cs
  comma := by simpa [Ne.symm hc.1] using h.comma
  semicolon := by simpa [Ne.symm hc.2.1] using h.semicolon
  newline := by simpa [Ne.symm hc.2.2] using h.newline

theorem plain_toDigits {b : ℕ} (hb : 1 < b) (hb' : b ≤ 16) (n : ℕ) : Plain (Nat.toDigits b n) where
  ne_nil := Nat.toDigits_ne_nil
  comma hc := absurd (Numeral.isHexDigit_of_mem_toDigits hb hb' hc) (by decide)
  semicolon hc := absurd (Numeral.isHexDigit_of_mem_toDigits hb hb' hc) (by decide)
  newline hc := absurd (Numeral.isHexDigit_of_mem_toDigits hb hb' hc) (by decide)

theorem Plain.leftpad {cs : List Char} (h : Plain cs) (n : ℕ) {c : Char}
    (hc : c ≠ ',' ∧ c ≠ ';' ∧ c ≠ '\n') : Plain (cs.leftpad n c) where
  ne_nil := by simp [List.leftpad, h.ne_nil]
  comma := by simp [List.leftpad, h.comma, List.mem_replicate, Ne.symm hc.1]
  semicolon := by simp [List.leftpad, h.semicolon, List.mem_replicate, Ne.symm hc.2.1]
  newline := by simp [List.leftpad, h.newline, List.mem_replicate, Ne.symm hc.2.2]

theorem plain_printDec (t : IntType) (v : BitVec t.width) : Plain (printDec t v) := by
  unfold printDec
  split
  · exact (plain_toDigits (by decide) (by decide) _).cons (by decide)
  · exact plain_toDigits (by decide) (by decide) _

theorem plain_printInt (t : IntType) (v : BitVec t.width) : Plain (printInt t v) := by
  unfold printInt
  split
  · exact (plain_printDec _ _).leftpad 18 (by decide)
  · exact plain_printDec _ _

theorem plain_printElem (t : IntType) (v : BitVec t.width) : Plain (printElem t v) := by
  unfold printElem
  split
  · exact (((plain_toDigits (by decide) (by decide) _).leftpad 2 (by decide)).cons
      (by decide)).cons (by decide)
  · exact plain_printDec _ _

theorem FloatFormat.plain {F : Type} [FloatFormat F] (x : F) : Plain (FloatFormat.print x) :=
  ⟨print_ne_nil x, comma_not_mem x, semicolon_not_mem x, newline_not_mem x⟩

section Elems

variable {α : Type} {print : α → List Char} (hplain : ∀ x, Plain (print x))
include hplain

theorem comma_not_mem_joinElems (xs : List α) : ',' ∉ joinElems print xs := by
  rcases xs with _ | ⟨x, xs⟩
  · simp [joinElems]
  · rw [joinElems_cons]
    simp [(hplain _).comma]

theorem newline_not_mem_joinElems (xs : List α) : '\n' ∉ joinElems print xs := by
  rcases xs with _ | ⟨x, xs⟩
  · simp [joinElems]
  · rw [joinElems_cons]
    simp [(hplain _).newline]

/-- The text tells the number of elements. -/
theorem length_eq_of_joinElems {xs : List α} (hne : xs ≠ []) :
    xs.length = (joinElems print xs).count ';' + 1 := by
  obtain ⟨x, xs, rfl⟩ := List.exists_cons_of_ne_nil hne
  have hcount (x : α) : (print x).count ';' = 0 := List.count_eq_zero.mpr (hplain x).semicolon
  rw [joinElems_cons, List.count_append, hcount, List.length_cons, Nat.zero_add]
  congr 1
  clear hne
  induction xs with
  | nil => rfl
  | cons y xs ih =>
    rw [List.flatMap_cons, List.count_append, List.count_cons_self, hcount, ← ih, List.length_cons]
    omega

theorem joinElems_eq_nil_iff {xs : List α} : joinElems print xs = [] ↔ xs = [] := by
  rcases xs with _ | ⟨x, xs⟩
  · simp [joinElems]
  · simp [joinElems_cons, (hplain x).ne_nil]

end Elems

/-- A field that is an array. -/
theorem exists_elems {v : Value F D} {n : ℕ} (h : v.arrayLen = some n) :
    ∃ (α : Type) (print : α → List Char) (xs : List α), (∀ x, Plain (print x)) ∧
      fieldText v = joinElems print xs ∧ xs.length = n := by
  rcases v with _ | _ | _ | ⟨t, vs⟩ | _ | xs | _ | xs | _ <;>
    simp only [Value.arrayLen, Option.some.injEq, reduceCtorEq] at h
  · exact ⟨_, printElem t, vs, plain_printElem t, rfl, h⟩
  · exact ⟨_, FloatFormat.print, xs, FloatFormat.plain, rfl, h⟩
  · exact ⟨_, FloatFormat.print, xs, FloatFormat.plain, rfl, h⟩

theorem comma_not_mem_fieldText {v : Value F D} {n : ℕ} (h : v.arrayLen = some n) :
    ',' ∉ fieldText v := by
  obtain ⟨α, print, xs, hplain, htext, -⟩ := exists_elems h
  rw [htext]
  exact comma_not_mem_joinElems hplain xs

/-- Two arrays with one text have the same length. -/
theorem arrayLen_eq_of_fieldText {v w : Value F D} {n k : ℕ} (hv : v.arrayLen = some n)
    (hw : w.arrayLen = some k) (h : fieldText v = fieldText w) : n = k := by
  obtain ⟨α, print, xs, hplain, htext, rfl⟩ := exists_elems hv
  obtain ⟨β, print', ys, hplain', htext', rfl⟩ := exists_elems hw
  rw [htext, htext'] at h
  have hnil : xs = [] ↔ ys = [] := by
    rw [← joinElems_eq_nil_iff hplain, h, joinElems_eq_nil_iff hplain']
  by_cases hxs : xs = []
  · rw [hxs, hnil.mp hxs]
    rfl
  · rw [length_eq_of_joinElems hplain hxs, length_eq_of_joinElems hplain' (mt hnil.mpr hxs), h]

/-- A field that is written as it is asked for, and stays in its line. -/
theorem writable_iff {v : Value F D} (hv : v ≠ .other) :
    v.Writable ↔ v.Ended ∧ written v = fieldText v ∧ '\n' ∉ fieldText v := by
  rcases v with c | cs | ⟨t, n⟩ | ⟨t, ns⟩ | x | xs | x | xs | _
  case char => simp [Value.Writable, Value.Ended, written, fieldText, eq_comm]
  case charArray =>
    have hiff : IsText cs ↔ _ := isText_iff
    simpa [Value.Writable, Value.Ended, written, fieldText] using hiff
  case int => simpa [Value.Writable, Value.Ended, written, fieldText] using (plain_printInt t n).newline
  case intArray =>
    simpa [Value.Writable, Value.Ended, written, fieldText] using
      newline_not_mem_joinElems (plain_printElem t) ns
  case f32 =>
    simpa [Value.Writable, Value.Ended, written, fieldText] using FloatFormat.newline_not_mem x
  case f32Array =>
    simpa [Value.Writable, Value.Ended, written, fieldText] using
      newline_not_mem_joinElems FloatFormat.plain xs
  case d64 =>
    simpa [Value.Writable, Value.Ended, written, fieldText] using FloatFormat.newline_not_mem x
  case d64Array =>
    simpa [Value.Writable, Value.Ended, written, fieldText] using
      newline_not_mem_joinElems FloatFormat.plain xs
  case other => exact absurd rfl hv

/-! ## The loop as a walk -/

section Loop

variable (set : MetricSet F D) (metricArry : List (Fin set.metrics.length))

/-- Where the loop goes after `p`. -/
def next (p : ℕ) : ℕ :=
  match metricArry[p]? with
  | none => p + 1
  | some idx => (set.metrics.get idx).arrayLen.getD p + 1

/-- What the loop writes at `p`, and what is asked for there. -/
def field (p : ℕ) : List Char :=
  match metricArry[p]? with
  | none => []
  | some idx => written (set.metrics.get idx)

def asked (p : ℕ) : List Char :=
  match metricArry[p]? with
  | none => []
  | some idx => fieldText (set.metrics.get idx)

/-- What the loop writes at `p` ends. -/
def EndsAt (p : ℕ) : Prop :=
  ∀ idx, metricArry[p]? = some idx → (set.metrics.get idx).Ended

/-- The component, for which nothing is written. -/
def IsCompid (p : ℕ) : Prop :=
  metricArry[p]? = some set.compidIdx

instance : DecidablePred (IsCompid set metricArry) :=
  fun _ => inferInstanceAs (Decidable (_ = _))

variable {set metricArry}

omit [FloatFormat F] [FloatFormat D] in
theorem isCompid_iff {p : ℕ} {idx : Fin set.metrics.length} (h : metricArry[p]? = some idx) :
    IsCompid set metricArry p ↔ set.compidIdx = idx := by
  rw [IsCompid, h, Option.some_inj, eq_comm]

omit [FloatFormat F] [FloatFormat D] in
/-- Jumps are made by arrays only. -/
theorem exists_array_of_next_ne {p : ℕ} (h : next set metricArry p ≠ p + 1) :
    ∃ idx n, metricArry[p]? = some idx ∧ (set.metrics.get idx).arrayLen = some n ∧
      next set metricArry p = n + 1 := by
  unfold next at h ⊢
  split at h
  · exact absurd rfl h
  · next idx hidx =>
    rw [hidx]
    rcases hlen : (set.metrics.get idx).arrayLen with _ | n
    · rw [hlen] at h
      exact absurd rfl h
    · exact ⟨idx, n, rfl, hlen, rfl⟩

theorem storeLoop_of_skip (fuel : ℕ) {i : ℕ} {out : List Char} {r : Outcome}
    (h : storeLoop set metricArry fuel (skip (IsCompid set metricArry) metricArry.length i) out =
      some r) : ∃ fuel, storeLoop set metricArry fuel i out = some r := by
  fun_induction skip (IsCompid set metricArry) metricArry.length i with
  | case1 i hi ih =>
    obtain ⟨fuel, hfuel⟩ := ih h
    have hcomp : metricArry[i]? = some set.compidIdx := hi.2
    exact ⟨fuel + 1, by simpa [storeLoop, hcomp] using hfuel⟩
  | case2 i hi => exact ⟨fuel, h⟩

/-- **The loop** ends when its walk does, if the texts that it writes end, and leaves the text of the
walk behind. -/
theorem exists_storeLoop_iff {i : ℕ} {out text : List Char} :
    (∃ fuel, storeLoop set metricArry fuel i out = some (.stored text)) ↔
      ∃ ps, Walk (fun p => skip (IsCompid set metricArry) metricArry.length
          (next set metricArry p)) metricArry.length
          (skip (IsCompid set metricArry) metricArry.length i) ps ∧
        (∀ p ∈ ps, EndsAt set metricArry p) ∧
        text = out ++ Positions.text ',' (field set metricArry) ps := by
  constructor
  · rintro ⟨fuel, h⟩
    induction fuel generalizing i out with
    | zero => simp [storeLoop] at h
    | succ fuel ih =>
      rw [storeLoop] at h
      rcases hidx : metricArry[i]? with _ | idx
      · have hi : metricArry.length ≤ i := List.getElem?_eq_none_iff.mp hidx
        simp only [hidx, Option.some.injEq, Outcome.stored.injEq] at h
        exact ⟨[], by rw [skip_of_le hi]; exact .stop hi, by simp, by simp [h]⟩
      obtain ⟨hi, -⟩ := List.getElem?_eq_some_iff.mp hidx
      simp only [hidx] at h
      by_cases hcomp : set.compidIdx = idx
      · rw [if_pos hcomp] at h
        obtain ⟨ps, hwalk, hends, htext⟩ := ih h
        refine ⟨ps, ?_, hends, htext⟩
        rwa [skip_of_skipped hi ((isCompid_iff hidx).mpr hcomp)]
      · rw [if_neg hcomp] at h
        have hend : (set.metrics.get idx).Ended := by
          by_contra hend
          rw [printMetric_eq_none i hend] at h
          cases h
        rw [printMetric_eq i hend] at h
        obtain ⟨ps, hwalk, hends, rfl⟩ := ih h
        have hs : ¬ IsCompid set metricArry i := mt (isCompid_iff hidx).mp hcomp
        have hnext : next set metricArry i = (set.metrics.get idx).arrayLen.getD i + 1 := by
          simp only [next, hidx]
        have hfield : field set metricArry i = written (set.metrics.get idx) := by
          simp only [field, hidx]
        have hendsAt : EndsAt set metricArry i := fun idx' hidx' => by
          obtain rfl := Option.some_inj.mp (hidx.symm.trans hidx')
          exact hend
        refine ⟨i :: ps, ?_, List.forall_mem_cons.mpr ⟨hendsAt, hends⟩, by simp [hfield]⟩
        rw [skip_of_not_skipped hs]
        exact .visit hi (by rwa [hnext])
  · rintro ⟨ps, hwalk, hends, rfl⟩
    generalize hj : skip (IsCompid set metricArry) metricArry.length i = j at hwalk
    induction hwalk generalizing i out with
    | @stop j h =>
      refine storeLoop_of_skip 1 ?_
      rw [hj]
      simp [storeLoop, List.getElem?_eq_none_iff.mpr h]
    | @visit j ps hi hrest ih =>
      obtain ⟨hend, hends⟩ := List.forall_mem_cons.mp hends
      obtain ⟨fuel, hfuel⟩ : ∃ fuel, storeLoop set metricArry fuel _
          (out ++ ',' :: field set metricArry j) = _ := ih hends rfl
      refine storeLoop_of_skip (fuel + 1) ?_
      have hidx : metricArry[j]? = some metricArry[j] := List.getElem?_eq_getElem hi
      have hcomp : set.compidIdx ≠ metricArry[j] := fun heq =>
        not_skipped_skip (hj ▸ hi) (hj ▸ (isCompid_iff hidx).mpr heq)
      have hnext : next set metricArry j = (set.metrics.get metricArry[j]).arrayLen.getD j + 1 := by
        simp only [next, hidx]
      have hfield : field set metricArry j = written (set.metrics.get metricArry[j]) := by
        simp only [field, hidx]
      rw [hj, storeLoop, hidx]
      simp only [if_neg hcomp, printMetric_eq j (hend _ hidx)]
      rw [← hnext, ← hfield, hfuel]
      simp

/-- What is written after the loop. -/
theorem store_eq_iff {fuel : ℕ} {file text : List Char} :
    store fuel set metricArry file = some (.stored (text ++ ['\n'])) ↔
      storeLoop set metricArry fuel 0 (file ++ header set) = some (.stored text) := by
  unfold store
  rcases storeLoop set metricArry fuel 0 (file ++ header set) with _ | out | _ <;> simp

omit [FloatFormat F] [FloatFormat D] in
theorem forward_iff_placed :
    Forward (next set metricArry) (IsCompid set metricArry) metricArry.length ↔
      Placed set metricArry := by
  constructor
  · intro h p idx n hidx hlen
    have hs : ¬ IsCompid set metricArry p := by
      rw [isCompid_iff hidx]
      rintro rfl
      rw [set.compid_eq] at hlen
      simp [Value.arrayLen] at hlen
    have hnext : next set metricArry p = n + 1 := by
      simp only [next, hidx, hlen, Option.getD_some]
    obtain ⟨hlt, hbetween⟩ := h p (List.getElem?_eq_some_iff.mp hidx).1 hs
    refine ⟨by omega, fun q idx' hpq hqn hidx' => ?_⟩
    have hq := hbetween q (List.getElem?_eq_some_iff.mp hidx').1 hpq (by omega)
    exact ((isCompid_iff hidx').mp hq).symm
  · intro h p hp hs
    by_cases hnext : next set metricArry p = p + 1
    · exact ⟨by omega, fun q hq hpq hqn => by omega⟩
    · obtain ⟨idx, n, hidx, hlen, hn⟩ := exists_array_of_next_ne hnext
      obtain ⟨hle, hbetween⟩ := h p idx n hidx hlen
      refine ⟨by omega, fun q hq hpq hqn => ?_⟩
      have hidx' := List.getElem?_eq_getElem hq
      exact (isCompid_iff hidx').mpr (hbetween q _ hpq (by omega) hidx').symm

/-- The line has the fields of the positions in their order. -/
theorem record_eq : record set metricArry = header set ++
    Positions.text ',' (asked set metricArry)
      (rest (IsCompid set metricArry) metricArry.length 0) ++ ['\n'] := by
  have hfields : ((metricArry.filter fun idx => set.compidIdx ≠ idx).flatMap fun idx =>
      ',' :: fieldText (set.metrics.get idx)) = Positions.text ',' (asked set metricArry)
        (rest (IsCompid set metricArry) metricArry.length 0) := by
    have hlhs := List.map_get_finRange metricArry
    rw [Positions.text, rest, Nat.sub_zero, ← List.range_eq_range', ←
      List.map_coe_finRange_eq_range, List.filter_map, List.flatMap_map]
    conv_lhs => rw [← hlhs, List.filter_map, List.flatMap_map]
    have hidx (p : Fin metricArry.length) : metricArry[p.val]? = some (metricArry.get p) :=
      List.getElem?_eq_getElem p.isLt
    refine congrArg₂ List.flatMap (funext fun p => ?_) (List.filter_congr fun p _ => ?_)
    · simp [asked]
    · simp [isCompid_iff (hidx p)]
  rw [record, hfields]

/-- What the loop writes, if it ends, is the text asked for. -/
theorem stores_iff_walk : (∀ file, ∃ fuel, store fuel set metricArry file =
      some (.stored (file ++ record set metricArry))) ↔
    ∃ ps, Walk (fun p => skip (IsCompid set metricArry) metricArry.length (next set metricArry p))
        metricArry.length (skip (IsCompid set metricArry) metricArry.length 0) ps ∧
      (∀ p ∈ ps, EndsAt set metricArry p) ∧
      Positions.text ',' (field set metricArry) ps = Positions.text ',' (asked set metricArry)
        (rest (IsCompid set metricArry) metricArry.length 0) := by
  have hfile (file : List Char) : (∃ fuel, store fuel set metricArry file =
      some (.stored (file ++ record set metricArry))) ↔ _ :=
    calc _ ↔ ∃ fuel, storeLoop set metricArry fuel 0 (file ++ header set) =
          some (.stored (file ++ header set ++ Positions.text ',' (asked set metricArry)
            (rest (IsCompid set metricArry) metricArry.length 0))) := by
          rw [record_eq]
          simp only [← List.append_assoc, store_eq_iff]
      _ ↔ _ := exists_storeLoop_iff
  simp only [hfile, List.append_cancel_left_eq]
  constructor
  · intro h
    obtain ⟨ps, hwalk, hends, htext⟩ := h []
    exact ⟨ps, hwalk, hends, htext.symm⟩
  · rintro ⟨ps, hwalk, hends, htext⟩ file
    exact ⟨ps, hwalk, hends, htext.symm⟩

/-- A field tells where the loop goes, so that a line in order is written by a loop in order. -/
theorem exists_walk_iff_forward :
    (∃ ps, Walk (fun p => skip (IsCompid set metricArry) metricArry.length
        (next set metricArry p)) metricArry.length
        (skip (IsCompid set metricArry) metricArry.length 0) ps ∧
      Positions.text ',' (field set metricArry) ps = Positions.text ',' (field set metricArry)
        (rest (IsCompid set metricArry) metricArry.length 0)) ↔
      Forward (next set metricArry) (IsCompid set metricArry) metricArry.length := by
  refine exists_walk_text_iff ?_ ?_
  · intro p hp
    obtain ⟨idx, n, hidx, hlen, -⟩ := exists_array_of_next_ne hp
    simp only [field, hidx, written_of_arrayLen hlen]
    exact comma_not_mem_fieldText hlen
  · intro p q hp hq heq
    obtain ⟨idx, n, hidx, hlen, hn⟩ := exists_array_of_next_ne hp
    obtain ⟨idx', n', hidx', hlen', hn'⟩ := exists_array_of_next_ne hq
    simp only [field, hidx, hidx', written_of_arrayLen hlen, written_of_arrayLen hlen'] at heq
    rw [hn, hn', arrayLen_eq_of_fieldText hlen hlen' heq]

/-- A field with all the `\0` of the one asked for is that. -/
theorem field_eq_asked_of_count {p : ℕ}
    (h : (field set metricArry p).count '\x00' = (asked set metricArry p).count '\x00') :
    field set metricArry p = asked set metricArry p := by
  unfold field asked at *
  split
  · rfl
  · next idx hidx =>
    rw [hidx] at h
    exact written_eq_of_count h

theorem count_field_le (p : ℕ) :
    (field set metricArry p).count '\x00' ≤ (asked set metricArry p).count '\x00' := by
  unfold field asked
  split
  · exact le_rfl
  · exact count_written_le _

/-- `store` appends the record when the loop goes forward and every text is written as it is asked
for. -/
theorem stores_iff_forward : (∀ file, ∃ fuel, store fuel set metricArry file =
      some (.stored (file ++ record set metricArry))) ↔
    Forward (next set metricArry) (IsCompid set metricArry) metricArry.length ∧
      ∀ p ∈ rest (IsCompid set metricArry) metricArry.length 0,
        EndsAt set metricArry p ∧ field set metricArry p = asked set metricArry p := by
  have text_congr (h : ∀ p ∈ rest (IsCompid set metricArry) metricArry.length 0,
      field set metricArry p = asked set metricArry p) :
      Positions.text ',' (field set metricArry)
          (rest (IsCompid set metricArry) metricArry.length 0) =
        Positions.text ',' (asked set metricArry)
          (rest (IsCompid set metricArry) metricArry.length 0) :=
    List.flatMap_congr fun p hp => by rw [h p hp]
  rw [stores_iff_walk]
  constructor
  · rintro ⟨ps, hwalk, hends, htext⟩
    -- no `\0` is left out, so that every text is written as it is asked for
    have hcount := count_eq_of_text '\x00' (by decide) hwalk.nodup hwalk.subset_rest
      (fun p _ => count_field_le p) htext
    have hfield (p : ℕ) (hp : p ∈ rest (IsCompid set metricArry) metricArry.length 0) :=
      field_eq_asked_of_count (hcount p hp)
    have hforward := exists_walk_iff_forward.mp ⟨ps, hwalk, htext.trans (text_congr hfield).symm⟩
    obtain rfl := hwalk.unique (hforward.walk 0)
    exact ⟨hforward, fun p hp => ⟨hends p hp, hfield p hp⟩⟩
  · rintro ⟨hforward, hfields⟩
    exact ⟨_, hforward.walk 0, fun p hp => (hfields p hp).1,
      text_congr fun p hp => (hfields p hp).2⟩

omit [FloatFormat F] [FloatFormat D] in
theorem newline_not_mem_header : '\n' ∉ header set ↔ '\n' ∉ set.producer := by
  have hsec := (plain_toDigits (by decide : 1 < 10) (by decide) set.sec.toNat).newline
  have husec := (plain_toDigits (by decide : 1 < 10) (by decide) set.usec.toNat).newline
  have hcompid := (plain_toDigits (by decide : 1 < 10) (by decide) set.compid.toNat).newline
  simp [header, List.leftpad, List.mem_replicate, hsec, husec, hcompid]

/-- The record is one line when no field of it has a line end. -/
theorem isLine_record_iff : IsLine '\n' (record set metricArry) ↔
    '\n' ∉ set.producer ∧ ∀ p ∈ rest (IsCompid set metricArry) metricArry.length 0,
      '\n' ∉ asked set metricArry p := by
  rw [record_eq, isLine_append_singleton, List.mem_append, not_or, newline_not_mem_header]
  simp [Positions.text]

/-- The texts that are asked for, by their positions and by their metrics. -/
theorem forall_writable_iff (hkinds : ∀ idx ∈ metricArry, set.metrics.get idx ≠ .other) :
    (∀ p ∈ rest (IsCompid set metricArry) metricArry.length 0,
      EndsAt set metricArry p ∧ field set metricArry p = asked set metricArry p ∧
        '\n' ∉ asked set metricArry p) ↔
      ∀ idx ∈ metricArry, (set.metrics.get idx).Writable := by
  have hiff {p : ℕ} {idx : Fin set.metrics.length} (hidx : metricArry[p]? = some idx) :
      (EndsAt set metricArry p ∧ field set metricArry p = asked set metricArry p ∧
        '\n' ∉ asked set metricArry p) ↔ (set.metrics.get idx).Writable := by
    rw [writable_iff (hkinds idx (List.mem_of_getElem? hidx))]
    simp [EndsAt, field, asked, hidx]
  constructor
  · intro h idx hmem
    obtain ⟨p, hp, hget⟩ := List.getElem_of_mem hmem
    have hidx : metricArry[p]? = some idx := List.getElem?_eq_some_iff.mpr ⟨hp, hget⟩
    by_cases hcomp : set.compidIdx = idx
    · rw [← hcomp, set.compid_eq]
      trivial
    · refine (hiff hidx).mp (h p (mem_rest.mpr ⟨Nat.zero_le p, hp, ?_⟩))
      exact mt (isCompid_iff hidx).mp hcomp
  · intro h p hp
    have hidx := List.getElem?_eq_getElem (mem_rest.mp hp).2.1
    exact (hiff hidx).mpr (h _ (List.mem_of_getElem? hidx))

end Loop

/-- **`store` writes the line of a set** exactly when every array fits where it stands, and every
text fits in a line. -/
theorem store_correct_iff (set : MetricSet F D) (metricArry : List (Fin set.metrics.length))
    (hkinds : ∀ idx ∈ metricArry, set.metrics.get idx ≠ .other) :
    Stores set metricArry ↔ Fitting set metricArry := by
  rw [Stores, stores_iff_forward, isLine_record_iff, forward_iff_placed]
  constructor
  · rintro ⟨⟨hplaced, hfields⟩, hproducer, hlines⟩
    refine ⟨hplaced, hproducer, (forall_writable_iff hkinds).mp fun p hp => ?_⟩
    exact ⟨(hfields p hp).1, (hfields p hp).2, hlines p hp⟩
  · rintro ⟨hplaced, hproducer, hwritable⟩
    have hfields := (forall_writable_iff hkinds).mpr hwritable
    exact ⟨⟨hplaced, fun p hp => ⟨(hfields p hp).1, (hfields p hp).2.1⟩⟩, hproducer,
      fun p hp => (hfields p hp).2.2⟩

/-! ## Two sets -/

/-- Whole numbers as `%f` writes them. -/
instance wholeFormat : FloatFormat ℕ where
  print n := Nat.toDigits 10 n ++ ['.', '0', '0', '0', '0', '0', '0']
  print_ne_nil n := by simp
  comma_not_mem n := by simp [(plain_toDigits (by decide : 1 < 10) (by decide) n).comma]
  semicolon_not_mem n := by simp [(plain_toDigits (by decide : 1 < 10) (by decide) n).semicolon]
  newline_not_mem n := by simp [(plain_toDigits (by decide : 1 < 10) (by decide) n).newline]

/-- A component, a load, an array of three and a text in an array of four. -/
def smallSet : MetricSet ℕ ℕ where
  sec := 1
  usec := 20
  producer := ['n', '1']
  metrics := [.int .u64 7, .f32 3, .intArray .u16 [4, 5, 6],
    .charArray ['u', 'p', '\x00', '\x00']]
  compidIdx := ⟨0, by decide⟩
  compid := 7
  compid_eq := rfl

theorem smallSet_kinds (idx : Fin smallSet.metrics.length) : smallSet.metrics.get idx ≠ .other := by
  intro heq
  have hmem : Value.other ∈ smallSet.metrics := heq ▸ List.get_mem smallSet.metrics idx
  simp [smallSet] at hmem

/-- The array comes last. -/
theorem store_correct_arrayLast :
    Stores smallSet [⟨0, by decide⟩, ⟨3, by decide⟩, ⟨2, by decide⟩] := by
  refine (store_correct_iff _ _ fun idx _ => smallSet_kinds idx).mpr ⟨?_, by decide, ?_⟩
  · intro p idx n hidx hlen
    have hp : p < 3 := (List.getElem?_eq_some_iff.mp hidx).1
    interval_cases p
    · obtain rfl := Option.some_inj.mp hidx
      simp [smallSet, Value.arrayLen] at hlen
    · obtain rfl := Option.some_inj.mp hidx
      simp [smallSet, Value.arrayLen] at hlen
    · obtain rfl := Option.some_inj.mp hidx
      obtain rfl : 3 = n := by simpa [smallSet, Value.arrayLen] using hlen
      refine ⟨by decide, fun q idx' hq hq' hidx' => ?_⟩
      have hlt : q < 3 := (List.getElem?_eq_some_iff.mp hidx').1
      omega
  · intro idx hidx
    simp only [List.mem_cons, List.not_mem_nil, or_false] at hidx
    obtain rfl | rfl | rfl := hidx
    · trivial
    · exact ⟨['u', 'p'], 1, rfl, by decide, by decide⟩
    · trivial

/-- The array comes first, and the load is left out. -/
theorem not_stores_arrayFirst : ¬ Stores smallSet [⟨2, by decide⟩, ⟨1, by decide⟩] := by
  rw [Stores, stores_iff_forward]
  rintro ⟨⟨h, -⟩, -⟩
  have hload := (h 0 (by decide) (by decide)).2 1 (by decide) (by decide) (by decide)
  exact absurd hload (by decide)

end TestStore
end LdmsTest
