import LdmsTest.Foundation.Numeral
import LdmsTest.Python.Value

/-!
# `json`

The texts that `json.dumps` writes and `json.loads` reads, with the defaults of the module: the
text is ASCII, and `NaN` and the infinities are written and read.

* `dumps`: the text of an object, on one line or indented.
* `loads`: the object of a text.

A Python string may hold a lone surrogate, which is no character, and so may a JSON text.  Such
strings are not in `Val`; where `json.loads` meets one, `loads` ends with `LoadError.surrogate`.

The interpreter has limits, too, on the digits of an integer and on the depth of a text.  They are not
in `loads`, but in `withinLimits` of `JsonLimits`.

The reader takes a bound on its depth.  `scan_congr` says that a bound above twice the length of
the text makes no difference, and `loads` starts from such a bound.
-/

namespace LdmsTest
namespace Json

open Val (Fields)

/-- What `loads` may end with instead of an object. -/
inductive LoadError where
  /-- `json.JSONDecodeError` -/
  | decode
  /-- A lone surrogate in a string. -/
  | surrogate
  /-- A limit of the interpreter: `ValueError` or `RecursionError`. -/
  | limit
  deriving DecidableEq

/-! ## Numbers -/

/-- `\d*`, and what is left after it. -/
def scanDigits (cs : List Char) : List Char × List Char :=
  (cs.takeWhile Char.isDigit, cs.dropWhile Char.isDigit)

/-- `0|[1-9]\d*`, and what is left after it. -/
def scanNat : List Char → Option (List Char × List Char)
  | [] => none
  | c :: cs =>
    if c = '0' then some (['0'], cs)
    else if c.isDigit then some (scanDigits (c :: cs))
    else none

/-- `-?(?:0|[1-9]\d*)`, and what is left after it. -/
def scanInteger : List Char → Option (List Char × List Char)
  | '-' :: cs => (scanNat cs).map fun r => ('-' :: r.1, r.2)
  | cs => scanNat cs

/-- `(\.\d+)?`, and what is left after it. -/
def scanFrac : List Char → List Char × List Char
  | '.' :: cs =>
    if (scanDigits cs).1 = [] then ([], '.' :: cs)
    else ('.' :: (scanDigits cs).1, (scanDigits cs).2)
  | cs => ([], cs)

/-- `[-+]?\d+`, and what is left after it. -/
def scanExponent : List Char → Option (List Char × List Char)
  | [] => none
  | c :: cs =>
    if c = '-' ∨ c = '+' then
      if (scanDigits cs).1 = [] then none else some (c :: (scanDigits cs).1, (scanDigits cs).2)
    else if c.isDigit then some (scanDigits (c :: cs))
    else none

/-- `([eE][-+]?\d+)?`, and what is left after it. -/
def scanExp : List Char → List Char × List Char
  | [] => ([], [])
  | e :: cs =>
    if e = 'e' ∨ e = 'E' then
      match scanExponent cs with
      | some (ds, rest) => (e :: ds, rest)
      | none => ([], e :: cs)
    else ([], e :: cs)

/-- A match of `NUMBER_RE`: its integer part, the rest of the number, and what is left. -/
def scanNumber (cs : List Char) : Option ((List Char × List Char) × List Char) :=
  (scanInteger cs).map fun r =>
    let frac := scanFrac r.2
    let exp := scanExp frac.2
    ((r.1, frac.1 ++ exp.1), exp.2)

/-- The text of an integer. -/
def intText (n : ℤ) : List Char :=
  if n < 0 then '-' :: Nat.toDigits 10 n.natAbs else Nat.toDigits 10 n.natAbs

/-- `int(integer)` -/
def ofInteger : List Char → ℤ
  | '-' :: cs => -(Numeral.value 10 cs : ℤ)
  | cs => Numeral.value 10 cs

/-- **The floats of `json`.**  Reading the text of a float gives the float back. -/
class JsonFloat (F : Type) extends PyRuntime F where
  /-- `float(s)`, for the text of a number -/
  ofLiteral : List Char → F
  /-- `float('nan')` -/
  nan : F
  /-- `float('inf')` -/
  infinity : F
  /-- `float('-inf')` -/
  negInfinity : F
  /-- `json.dumps(x)` -/
  dump : F → List Char
  dump_cases : ∀ x, (dump x = "NaN".toList ∧ x = nan) ∨
    (dump x = "Infinity".toList ∧ x = infinity) ∨
    (dump x = "-Infinity".toList ∧ x = negInfinity) ∨
    ∃ i f, f ≠ [] ∧ scanNumber (dump x) = some ((i, f), []) ∧ ofLiteral (i ++ f) = x

/-! ## Writing -/

/-- `'{0:04x}'.format(n)`, for `n` below `0x10000` -/
def hex4 (n : ℕ) : List Char :=
  [n / 0x1000 % 16, n / 0x100 % 16, n / 0x10 % 16, n % 16].map Nat.digitChar

/-- The escape of a character. -/
def escape (c : Char) : List Char :=
  if c = '\\' then ['\\', '\\']
  else if c = '"' then ['\\', '"']
  else if ' ' ≤ c ∧ c ≤ '~' then [c]
  else if c = '\n' then ['\\', 'n']
  else if c = '\r' then ['\\', 'r']
  else if c = '\t' then ['\\', 't']
  else if c = Char.ofNat 12 then ['\\', 'f']
  else if c = Char.ofNat 8 then ['\\', 'b']
  else if c.toNat < 0x10000 then '\\' :: 'u' :: hex4 c.toNat
  else
    -- surrogate pair
    let n := c.toNat - 0x10000
    '\\' :: 'u' :: hex4 (0xd800 + n / 0x400) ++ '\\' :: 'u' :: hex4 (0xdc00 + n % 0x400)

/-- The text of a string. -/
def encodeStr (s : String) : List Char :=
  '"' :: (s.toList.flatMap escape ++ ['"'])

/-- The line break in front of an item, when the text is indented. -/
def newline (indent : Option ℕ) (level : ℕ) : List Char :=
  match indent with
  | none => []
  | some width => '\n' :: List.replicate (width * level) ' '

/-- What separates two items. -/
def separator (indent : Option ℕ) (level : ℕ) : List Char :=
  match indent with
  | none => [',', ' ']
  | some _ => ',' :: newline indent level

/-- The items one after the other. -/
def joined (indent : Option ℕ) (level : ℕ) : List (List Char) → List Char
  | [] => []
  | [item] => item
  | item :: items => item ++ separator indent level ++ joined indent level items

/-- The text of a container whose items are at `level + 1`. -/
def container (indent : Option ℕ) (level : ℕ) (l r : Char) (items : List (List Char)) :
    List Char :=
  if items.isEmpty then [l, r]
  else l :: newline indent (level + 1) ++ joined indent (level + 1) items ++
    newline indent level ++ [r]

variable {F : Type} [JsonFloat F]

mutual

/-- The text of an object at a level. -/
def encode (indent : Option ℕ) (level : ℕ) : Val F → List Char
  | .none => "null".toList
  | .bool true => "true".toList
  | .bool false => "false".toList
  | .int n => intText n
  | .float x => JsonFloat.dump x
  | .str s => encodeStr s
  | .list xs => container indent level '[' ']' (encodeItems indent (level + 1) xs)
  | .tuple xs => container indent level '[' ']' (encodeItems indent (level + 1) xs)
  | .dict d => container indent level '\x7b' '\x7d' (encodeFields indent (level + 1) d)

def encodeItems (indent : Option ℕ) (level : ℕ) : List (Val F) → List (List Char)
  | [] => []
  | x :: xs => encode indent level x :: encodeItems indent level xs

def encodeFields (indent : Option ℕ) (level : ℕ) : List (String × Val F) → List (List Char)
  | [] => []
  | (k, x) :: d =>
    (encodeStr k ++ ':' :: ' ' :: encode indent level x) :: encodeFields indent level d

end

/-- `json.dumps(v, indent=indent)` -/
def dumps (indent : Option ℕ) (v : Val F) : String :=
  String.ofList (encode indent 0 v)

/-! ## Reading -/

/-- `[ \t\n\r]` -/
def isSpace (c : Char) : Bool :=
  c = ' ' || c = '\t' || c = '\n' || c = '\r'

def skipSpace (cs : List Char) : List Char :=
  cs.dropWhile isSpace

/-- The character of an escape, the backslash left out. -/
def unescape (c : Char) : Option Char :=
  if c = '"' ∨ c = '\\' ∨ c = '/' then some c
  else if c = 'b' then some (Char.ofNat 8)
  else if c = 'f' then some (Char.ofNat 12)
  else if c = 'n' then some '\n'
  else if c = 'r' then some '\r'
  else if c = 't' then some '\t'
  else none

/-- The number of four hexadecimal digits. -/
def ofHex4 (ds : List Char) : Option ℕ :=
  if ds.all Numeral.isHexDigit then some (Numeral.value 16 ds) else none

/-- A character in front of what is read after it. -/
def consChar (c : Char) (r : Except LoadError (List Char × List Char)) :
    Except LoadError (List Char × List Char) :=
  r.map fun p => (c :: p.1, p.2)

/-- What a string holds from here on, and what is left after it. -/
def scanString : List Char → Except LoadError (List Char × List Char)
  | [] => throw .decode
  | '"' :: cs => pure ([], cs)
  | '\\' :: 'u' :: a :: b :: c :: d :: '\\' :: 'u' :: e :: f :: g :: h :: cs =>
    match ofHex4 [a, b, c, d] with
    | none => throw .decode
    | some n =>
      if 0xd800 ≤ n ∧ n < 0xdc00 then
        match ofHex4 [e, f, g, h] with
        | none => throw .decode
        | some m =>
          if 0xdc00 ≤ m ∧ m < 0xe000 then
            consChar (Char.ofNat (0x10000 + (n - 0xd800) * 0x400 + (m - 0xdc00))) (scanString cs)
          else throw .surrogate
      else if 0xdc00 ≤ n ∧ n < 0xe000 then throw .surrogate
      else consChar (Char.ofNat n) (scanString ('\\' :: 'u' :: e :: f :: g :: h :: cs))
  | '\\' :: 'u' :: a :: b :: c :: d :: cs =>
    match ofHex4 [a, b, c, d] with
    | none => throw .decode
    | some n =>
      if 0xd800 ≤ n ∧ n < 0xdc00 ∧ ['\\', 'u'].isPrefixOf cs then throw .decode
      else if 0xd800 ≤ n ∧ n < 0xe000 then throw .surrogate
      else consChar (Char.ofNat n) (scanString cs)
  | '\\' :: c :: cs =>
    match unescape c with
    | none => throw .decode
    | some c => consChar c (scanString cs)
  | c :: cs => if c.toNat < 0x20 then throw .decode else consChar c (scanString cs)

/-- A match of `NUMBER_RE`, as a number. -/
def number (i f : List Char) : Val F :=
  if f = [] then .int (ofInteger i) else .float (JsonFloat.ofLiteral (i ++ f))

/-- The words that stand for an object. -/
def constants : List (List Char × Val F) :=
  [("null".toList, .none), ("true".toList, .bool true), ("false".toList, .bool false),
    ("NaN".toList, .float JsonFloat.nan), ("Infinity".toList, .float JsonFloat.infinity),
    ("-Infinity".toList, .float JsonFloat.negInfinity)]

/-- One of `constants`, and what is left after it. -/
def scanConstant (cs : List Char) : Except LoadError (Val F × List Char) :=
  match constants.find? fun p => p.1.isPrefixOf cs with
  | some (word, v) => pure (v, cs.drop word.length)
  | none => throw .decode

/-- A number or one of `constants`, and what is left after it. -/
def scanScalar (cs : List Char) : Except LoadError (Val F × List Char) :=
  match scanNumber cs with
  | some ((i, f), rest) => pure (number i f, rest)
  | none => scanConstant cs

mutual

/-- `scan_once`: the object that a text starts with, and what is left after it. -/
def scanValue : ℕ → List Char → Except LoadError (Val F × List Char)
  | 0, _ => throw .decode
  | _ + 1, [] => throw .decode
  | n + 1, c :: cs =>
    if c = '"' then do
      let (s, rest) ← scanString cs
      pure (.str (String.ofList s), rest)
    else if c = '\x7b' then
      match skipSpace cs with
      | '\x7d' :: rest => pure (.dict [], rest)
      | cs => do
        let (d, rest) ← scanFields n cs
        pure (.dict (Dict.update [] d), rest)
    else if c = '[' then
      match skipSpace cs with
      | ']' :: rest => pure (.list [], rest)
      | cs => do
        let (xs, rest) ← scanItems n cs
        pure (.list xs, rest)
    else scanScalar (c :: cs)

/-- The items of an array, and what is left after it. -/
def scanItems : ℕ → List Char → Except LoadError (List (Val F) × List Char)
  | 0, _ => throw .decode
  | n + 1, cs => do
    let (x, cs) ← scanValue n cs
    match skipSpace cs with
    | ']' :: rest => pure ([x], rest)
    | ',' :: cs => do
      let (xs, rest) ← scanItems n (skipSpace cs)
      pure (x :: xs, rest)
    | _ => throw .decode

/-- The items of an object, and what is left after it. -/
def scanFields : ℕ → List Char → Except LoadError (List (String × Val F) × List Char)
  | n + 1, '"' :: cs => do
    let (k, cs) ← scanString cs
    match skipSpace cs with
    | ':' :: cs => do
      let (x, cs) ← scanValue n (skipSpace cs)
      match skipSpace cs with
      | '\x7d' :: rest => pure ([(String.ofList k, x)], rest)
      | ',' :: cs => do
        let (d, rest) ← scanFields n (skipSpace cs)
        pure ((String.ofList k, x) :: d, rest)
      | _ => throw .decode
    | _ => throw .decode
  | _, _ => throw .decode

end

/-- `json.loads(s)`, with a bound on the depth -/
def loadsWithin (n : ℕ) (s : String) : Except LoadError (Val F) :=
  if s.toList.head? = some (Char.ofNat 0xfeff) then throw .decode
  else do
    let (v, rest) ← scanValue n (skipSpace s.toList)
    if (skipSpace rest).isEmpty then pure v else throw .decode

/-- `json.loads(s)` -/
def loads (s : String) : Except LoadError (Val F) :=
  loadsWithin (2 * s.length + 1) s

/-! ## What is left is shorter -/

theorem length_skipSpace_le (cs : List Char) : (skipSpace cs).length ≤ cs.length :=
  (List.dropWhile_sublist _).length_le

theorem length_scanDigits_le (cs : List Char) : (scanDigits cs).2.length ≤ cs.length :=
  (List.dropWhile_sublist _).length_le

theorem length_scanDigits_lt {c : Char} (hc : c.isDigit) (cs : List Char) :
    (scanDigits (c :: cs)).2.length < (c :: cs).length := by
  rw [scanDigits, List.dropWhile_cons_of_pos hc, List.length_cons]
  exact Nat.lt_succ_of_le (length_scanDigits_le cs)

theorem length_scanNat_lt {cs : List Char} {r : List Char × List Char}
    (h : scanNat cs = some r) : r.2.length < cs.length := by
  cases cs with
  | nil => cases h
  | cons c cs =>
    rw [scanNat] at h
    split at h
    · obtain rfl := Option.some_inj.mp h
      exact Nat.lt_succ_self _
    · split at h
      · next hc =>
        obtain rfl := Option.some_inj.mp h
        exact length_scanDigits_lt hc cs
      · cases h

theorem length_scanInteger_lt {cs : List Char} {r : List Char × List Char}
    (h : scanInteger cs = some r) : r.2.length < cs.length := by
  unfold scanInteger at h
  split at h
  · obtain ⟨r', hr', rfl⟩ := Option.map_eq_some_iff.mp h
    have hlt := length_scanNat_lt hr'
    exact Nat.lt_succ_of_lt hlt
  · exact length_scanNat_lt h

theorem length_scanFrac_le (cs : List Char) : (scanFrac cs).2.length ≤ cs.length := by
  unfold scanFrac
  split
  · split
    · exact le_rfl
    · exact Nat.le_succ_of_le (length_scanDigits_le _)
  · exact le_rfl

theorem length_scanExponent_le {cs : List Char} {r : List Char × List Char}
    (h : scanExponent cs = some r) : r.2.length ≤ cs.length := by
  cases cs with
  | nil => cases h
  | cons c cs =>
    rw [scanExponent] at h
    split at h
    · split at h
      · cases h
      · obtain rfl := Option.some_inj.mp h
        exact Nat.le_succ_of_le (length_scanDigits_le cs)
    · split at h
      · obtain rfl := Option.some_inj.mp h
        exact length_scanDigits_le _
      · cases h

theorem length_scanExp_le (cs : List Char) : (scanExp cs).2.length ≤ cs.length := by
  unfold scanExp
  split
  · exact le_rfl
  · split
    · split
      · next hr =>
        have hle := length_scanExponent_le hr
        exact Nat.le_succ_of_le hle
      · exact le_rfl
    · exact le_rfl

theorem length_scanNumber_lt {cs : List Char} {r : (List Char × List Char) × List Char}
    (h : scanNumber cs = some r) : r.2.length < cs.length := by
  obtain ⟨r', hr', rfl⟩ := Option.map_eq_some_iff.mp h
  calc (scanExp (scanFrac r'.2).2).2.length
      ≤ (scanFrac r'.2).2.length := length_scanExp_le _
    _ ≤ r'.2.length := length_scanFrac_le _
    _ < cs.length := length_scanInteger_lt hr'

/-- A result of reading leaves fewer than `n` characters, if it is no error. -/
def Shortens {α : Type} (n : ℕ) (r : Except LoadError (α × List Char)) : Prop :=
  ∀ p, r = .ok p → p.2.length < n

theorem Shortens.error {α : Type} (n : ℕ) (e : LoadError) :
    Shortens n (throw e : Except LoadError (α × List Char)) :=
  nofun

theorem Shortens.pure {α : Type} {n : ℕ} {x : α} {cs : List Char} (h : cs.length < n) :
    Shortens n (Pure.pure (x, cs)) := by
  rintro p hp
  cases hp
  exact h

theorem Shortens.mono {α : Type} {n m : ℕ} {r : Except LoadError (α × List Char)}
    (h : Shortens n r) (hnm : n ≤ m) : Shortens m r :=
  fun p hp => (h p hp).trans_le hnm

theorem Shortens.bind {α β : Type} {n m : ℕ} {r : Except LoadError (α × List Char)}
    {f : α × List Char → Except LoadError (β × List Char)} (hr : Shortens n r)
    (hf : ∀ p : α × List Char, p.2.length < n → Shortens m (f p)) : Shortens m (r >>= f) := by
  cases r with
  | error e => exact .error m e
  | ok p => exact hf p (hr p rfl)

theorem Shortens.consChar {n : ℕ} {r : Except LoadError (List Char × List Char)}
    (h : Shortens n r) (c : Char) : Shortens n (consChar c r) := by
  cases r with
  | error e => exact .error n e
  | ok p => exact .pure (h p rfl)

theorem shortens_scanString (cs : List Char) : Shortens cs.length (scanString cs) := by
  fun_induction scanString cs
  case case2 cs => exact .pure (Nat.lt_succ_self _)
  case case5 ih | case8 ih | case12 ih | case14 ih | case16 ih =>
    refine (ih.consChar _).mono ?_
    simp only [List.length_cons]
    omega
  all_goals exact .error _ _

theorem shortens_scanConstant (cs : List Char) :
    Shortens cs.length (scanConstant cs : Except LoadError (Val F × List Char)) := by
  unfold scanConstant
  split
  · next word v hfind =>
    have hprefix := List.find?_some hfind
    have hmem := List.mem_of_find?_eq_some hfind
    have hpos : ∀ p ∈ (constants : List (List Char × Val F)), 0 < p.1.length := by
      simp [constants]
    have hle : word.length ≤ cs.length := (List.isPrefixOf_iff_prefix.mp hprefix).length_le
    have hword : 0 < word.length := hpos _ hmem
    refine .pure ?_
    rw [List.length_drop]
    omega
  · exact .error _ _

theorem shortens_scanScalar (cs : List Char) :
    Shortens cs.length (scanScalar cs : Except LoadError (Val F × List Char)) := by
  unfold scanScalar
  split
  · next hnum => exact .pure (length_scanNumber_lt hnum)
  · exact shortens_scanConstant cs

/-- A value, the items of an array and the items of an object take at least one character. -/
theorem shortens_scan (n : ℕ) :
    (∀ cs, Shortens cs.length (scanValue n cs : Except LoadError (Val F × List Char))) ∧
    (∀ cs, Shortens cs.length (scanItems n cs : Except LoadError (List (Val F) × List Char))) ∧
    ∀ cs, Shortens cs.length
      (scanFields n cs : Except LoadError (List (String × Val F) × List Char)) := by
  induction n with
  | zero => exact ⟨fun cs => .error _ _, fun cs => .error _ _, fun cs => .error _ _⟩
  | succ n ih =>
    obtain ⟨ihv, ihi, ihf⟩ := ih
    refine ⟨fun cs => ?_, fun cs => ?_, fun cs => ?_⟩
    · cases cs with
      | nil => exact .error _ _
      | cons c cs =>
        have hskip := length_skipSpace_le cs
        have hlt : cs.length < (c :: cs).length := Nat.lt_succ_self _
        rw [scanValue]
        split_ifs
        · exact (shortens_scanString cs).bind fun p hp => .pure (hp.trans hlt)
        · split
          · next rest heq =>
            rw [heq, List.length_cons] at hskip
            exact .pure (by omega)
          · exact (ihf _).bind fun p hp => .pure (by omega)
        · split
          · next rest heq =>
            rw [heq, List.length_cons] at hskip
            exact .pure (by omega)
          · exact (ihi _).bind fun p hp => .pure (by omega)
        · exact shortens_scanScalar (c :: cs)
    · rw [scanItems]
      refine (ihv cs).bind ?_
      rintro ⟨x, cs₁⟩ hp
      have hskip := length_skipSpace_le cs₁
      dsimp only at hp ⊢
      split
      · next rest heq =>
        rw [heq, List.length_cons] at hskip
        exact .pure (by omega)
      · next cs' heq =>
        rw [heq, List.length_cons] at hskip
        have hskip' := length_skipSpace_le cs'
        exact (ihi _).bind fun q hq => .pure (by omega)
      · exact .error _ _
    · cases cs with
      | nil => exact .error _ _
      | cons c cs =>
        by_cases hc : c = '"'
        · subst hc
          rw [scanFields]
          refine (shortens_scanString cs).bind ?_
          rintro ⟨k, cs₁⟩ hk
          have hskip₁ := length_skipSpace_le cs₁
          dsimp only at hk ⊢
          split
          · next cs₂ heq₁ =>
            rw [heq₁, List.length_cons] at hskip₁
            have hskip₂ := length_skipSpace_le cs₂
            refine (ihv _).bind ?_
            rintro ⟨x, cs₃⟩ hx
            have hskip₃ := length_skipSpace_le cs₃
            dsimp only at hx ⊢
            rw [List.length_cons]
            split
            · next rest heq₃ =>
              rw [heq₃, List.length_cons] at hskip₃
              exact .pure (by omega)
            · next cs₄ heq₃ =>
              rw [heq₃, List.length_cons] at hskip₃
              have hskip₄ := length_skipSpace_le cs₄
              exact (ihf _).bind fun q hq => .pure (by omega)
            · exact .error _ _
          · exact .error _ _
        · rw [scanFields]
          · exact .error _ _
          · rintro m cs' - h
            exact hc (List.cons.inj h).1

/-! ## The bound on the depth -/

/-- Continuations that agree after a result that shortens the text. -/
theorem Shortens.bind_congr {α β : Type} {n : ℕ} {r : Except LoadError (α × List Char)}
    (hr : Shortens n r) {f g : α × List Char → Except LoadError (β × List Char)}
    (h : ∀ p : α × List Char, p.2.length < n → f p = g p) : r >>= f = r >>= g := by
  cases r with
  | error e => rfl
  | ok p => exact h p (hr p rfl)

/-- **Bounds above twice the length of the text** all give the same result. -/
theorem scan_congr (n : ℕ) :
    (∀ m (cs : List Char), 2 * cs.length < n → 2 * cs.length < m →
      (scanValue n cs : Except LoadError (Val F × List Char)) = scanValue m cs) ∧
    (∀ m (cs : List Char), 2 * cs.length + 1 < n → 2 * cs.length + 1 < m →
      (scanItems n cs : Except LoadError (List (Val F) × List Char)) = scanItems m cs) ∧
    ∀ m (cs : List Char), 2 * cs.length + 1 < n → 2 * cs.length + 1 < m →
      (scanFields n cs : Except LoadError (List (String × Val F) × List Char)) =
        scanFields m cs := by
  induction n with
  | zero => exact ⟨nofun, nofun, nofun⟩
  | succ n ih =>
    obtain ⟨ihv, ihi, ihf⟩ := ih
    refine ⟨fun m cs hn hm => ?_, fun m cs hn hm => ?_, fun m cs hn hm => ?_⟩ <;>
      obtain ⟨m, rfl⟩ := Nat.exists_eq_add_one.mpr (Nat.zero_lt_of_lt hm)
    · cases cs with
      | nil => rfl
      | cons c cs =>
        have hskip := length_skipSpace_le cs
        rw [List.length_cons] at hn hm
        rw [scanValue, scanValue]
        generalize skipSpace cs = cs₁ at hskip
        split_ifs
        · rfl
        · split
          · rfl
          · rw [ihf m cs₁ (by omega) (by omega)]
        · split
          · rfl
          · rw [ihi m cs₁ (by omega) (by omega)]
        · rfl
    · rw [scanItems, scanItems, ihv m cs (by omega) (by omega)]
      refine ((shortens_scan m).1 cs).bind_congr ?_
      rintro ⟨x, cs₁⟩ hx
      have hskip₁ := length_skipSpace_le cs₁
      dsimp only at hx ⊢
      split
      · rfl
      · next cs₂ heq₁ =>
        rw [heq₁, List.length_cons] at hskip₁
        have hskip₂ := length_skipSpace_le cs₂
        rw [ihi m (skipSpace cs₂) (by omega) (by omega)]
      · rfl
    · cases cs with
      | nil => rfl
      | cons c cs =>
        rw [List.length_cons] at hn hm
        by_cases hc : c = '"'
        · subst hc
          rw [scanFields, scanFields]
          refine (shortens_scanString cs).bind_congr ?_
          rintro ⟨k, cs₁⟩ hk
          have hskip₁ := length_skipSpace_le cs₁
          dsimp only at hk ⊢
          split
          · next cs₂ heq₁ =>
            rw [heq₁, List.length_cons] at hskip₁
            have hskip₂ := length_skipSpace_le cs₂
            rw [ihv m (skipSpace cs₂) (by omega) (by omega)]
            refine ((shortens_scan m).1 (skipSpace cs₂)).bind_congr ?_
            rintro ⟨x, cs₃⟩ hx
            have hskip₃ := length_skipSpace_le cs₃
            dsimp only at hx ⊢
            split
            · rfl
            · next cs₄ heq₃ =>
              rw [heq₃, List.length_cons] at hskip₃
              have hskip₄ := length_skipSpace_le cs₄
              rw [ihf m (skipSpace cs₄) (by omega) (by omega)]
            · rfl
          · rfl
        · rw [scanFields, scanFields]
          · exact fun k cs' _ h => hc (List.cons.inj h).1
          · exact fun k cs' _ h => hc (List.cons.inj h).1

/-- **`loads` is not bounded**: any larger bound reads the same. -/
theorem loadsWithin_eq_loads {n : ℕ} {s : String} (hn : 2 * s.length < n) :
    (loadsWithin n s : Except LoadError (Val F)) = loads s := by
  have hskip : (skipSpace s.toList).length ≤ s.length := length_skipSpace_le s.toList
  unfold loads loadsWithin
  rw [(scan_congr n).1 (2 * s.length + 1) (skipSpace s.toList) (by omega) (by omega)]

/-! ## A sample of floats -/

/-- `1.5`, NaN and the infinities: a type of floats to compute with. -/
inductive SampleFloat where
  | oneAndHalf
  | nan
  | infinity
  | negInfinity
  deriving DecidableEq

instance : JsonFloat SampleFloat where
  floatRepr
    | .oneAndHalf => "1.5"
    | .nan => "nan"
    | .infinity => "inf"
    | .negInfinity => "-inf"
  floatIsZero _ := false
  floatTrunc
    | .oneAndHalf => some 1
    | _ => none
  floatIntegral _ := none
  printable c := 0x20 ≤ c.toNat ∧ c.toNat < 0x7f
  space c := c.isWhitespace
  decimal c := if c.isDigit then some (c.toNat - '0'.toNat) else none
  limits := .initial
  ofLiteral _ := .oneAndHalf
  nan := .nan
  infinity := .infinity
  negInfinity := .negInfinity
  dump
    | .oneAndHalf => "1.5".toList
    | .nan => "NaN".toList
    | .infinity => "Infinity".toList
    | .negInfinity => "-Infinity".toList
  dump_cases
    | .oneAndHalf => .inr (.inr (.inr ⟨['1'], ['.', '5'], by decide, by decide, rfl⟩))
    | .nan => .inl ⟨rfl, rfl⟩
    | .infinity => .inr (.inl ⟨rfl, rfl⟩)
    | .negInfinity => .inr (.inr (.inl ⟨rfl, rfl⟩))

end Json
end LdmsTest
