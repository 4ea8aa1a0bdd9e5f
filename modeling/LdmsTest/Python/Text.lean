import LdmsTest.Foundation.Numeral
import LdmsTest.Python.Builtins
import Mathlib

/-!
# Python texts

Lines, blanks around a text, and the numbers that a text stands for.  A text is the list of its
characters.

* `splitlines`, `Val.strip`, `stripChar`: `str.splitlines`, `str.strip`, `str.strip(c)`.
* `int0`: `int(s, base=0)`.
* `splitlines_unlines`, `int0_decimal`, `intSigned_decimal`: what was written as lines, or as a
  number, is read again.
-/

namespace LdmsTest

/-- Where `str.splitlines` ends a line. -/
def isBoundary (c : Char) : Bool :=
  c ∈ ['\n', '\r', '\x0b', '\x0c', '\x1c', '\x1d', '\x1e', '\u0085', '\u2028', '\u2029']

/-- The blanks among the ASCII characters. -/
def isAsciiSpace (c : Char) : Bool :=
  c ∈ [' ', '\t', '\n', '\x0b', '\x0c', '\r', '\x1c', '\x1d', '\x1e', '\x1f']

/-- What can be tested of all blanks among the ASCII characters. -/
theorem of_isAsciiSpace (q : Char → Bool)
    (h : [' ', '\t', '\n', '\x0b', '\x0c', '\r', '\x1c', '\x1d', '\x1e', '\x1f'].all q) {c : Char}
    (hc : isAsciiSpace c) : q c :=
  List.all_eq_true.mp h c (of_decide_eq_true hc)

/-- Python's tables of characters, and its floats. -/
class PyText (F : Type) extends PyRuntime F where
  /-- `c.isalnum()` -/
  alnum : Char → Bool
  /-- `c.isalpha()` -/
  alpha : Char → Bool
  /-- `float(s)` -/
  floatOf : List Char → Option F
  space_ascii : ∀ c : Char, c.toNat < 128 → space c = isAsciiSpace c
  space_of_isBoundary : ∀ c, isBoundary c → space c
  decimal_ascii : ∀ c : Char, c.toNat < 128 →
    decimal c = if c.isDigit then some (c.toNat - '0'.toNat) else none
  space_of_alpha : ∀ c, alpha c → space c = false
  decimal_of_alpha : ∀ c, alpha c → decimal c = none

/-- The blanks that are no ASCII characters. -/
def wideSpaces : List Char :=
  ['\u0085', '\u00a0', '\u1680', '\u2000', '\u2001', '\u2002', '\u2003', '\u2004', '\u2005', '\u2006',
    '\u2007', '\u2008', '\u2009', '\u200a', '\u2028', '\u2029', '\u202f', '\u205f', '\u3000']

theorem toNat_lt_of_isAlpha {c : Char} (hc : c.isAlpha) : c.toNat < 128 := by
  simp only [Char.isAlpha, Char.isUpper, Char.isLower, Bool.or_eq_true, Bool.and_eq_true,
    decide_eq_true_eq] at hc
  rcases hc with ⟨-, hc⟩ | ⟨-, hc⟩
  · have hle : c.toNat ≤ 90 := hc
    omega
  · have hle : c.toNat ≤ 122 := hc
    omega

theorem notMem_wideSpaces {c : Char} (hc : c.toNat < 128) : c ∉ wideSpaces := by
  intro hmem
  have hnot : wideSpaces.all fun c => 128 ≤ c.toNat := by
    rfl
  have hle := of_decide_eq_true (List.all_eq_true.mp hnot c hmem)
  omega

theorem not_isDigit_of_isAlpha {c : Char} (hc : c.isAlpha) : ¬ c.isDigit := by
  intro hdigit
  simp only [Char.isAlpha, Char.isUpper, Char.isLower, Char.isDigit, Bool.or_eq_true,
    Bool.and_eq_true, decide_eq_true_eq] at hc hdigit
  have h0 : c.toNat ≤ 57 := hdigit.2
  rcases hc with ⟨hc, -⟩ | ⟨hc, -⟩
  · have hle : 65 ≤ c.toNat := hc
    omega
  · have hle : 97 ≤ c.toNat := hc
    omega

/-- A runtime for texts without floats, with all blanks, and the letters and digits of the ASCII
characters. -/
instance : PyText PEmpty where
  floatRepr := nofun
  floatIsZero := nofun
  floatTrunc := nofun
  floatIntegral := nofun
  printable c := 0x20 ≤ c.toNat ∧ c.toNat < 0x7f
  space c := isAsciiSpace c || c ∈ wideSpaces
  decimal c := if c.isDigit then some (c.toNat - '0'.toNat) else none
  limits := .initial
  alnum := Char.isAlphanum
  alpha := Char.isAlpha
  floatOf _ := none
  space_ascii c hc := by
    simp [notMem_wideSpaces hc]
  space_of_isBoundary c hc := by
    have hall : ['\n', '\r', '\x0b', '\x0c', '\x1c', '\x1d', '\x1e', '\u0085', '\u2028',
        '\u2029'].all fun c => isAsciiSpace c || c ∈ wideSpaces := by
      rfl
    exact List.all_eq_true.mp hall c (of_decide_eq_true hc)
  decimal_ascii _ _ := rfl
  space_of_alpha c hc := by
    have hascii : isAsciiSpace c = false := by
      by_contra hspace
      have hnot := of_isAsciiSpace (fun c => !c.isAlpha) (by decide) (by simpa using hspace)
      simp [hc] at hnot
    simp [hascii, notMem_wideSpaces (toNat_lt_of_isAlpha hc)]
  decimal_of_alpha c hc := by
    simp [not_isDigit_of_isAlpha hc]

namespace Text

variable {F : Type} [PyText F]

/-! ## Lines -/

/-- `cs.splitlines()` -/
def splitlines : List Char → List (List Char)
  | [] => []
  | '\r' :: '\n' :: cs => [] :: splitlines cs
  | c :: cs =>
    if isBoundary c then [] :: splitlines cs
    else
      match splitlines cs with
      | [] => [[c]]
      | l :: ls => (c :: l) :: ls

/-- No line ends inside the text. -/
def OneLine (cs : List Char) : Prop :=
  ∀ c ∈ cs, isBoundary c = false

instance (cs : List Char) : Decidable (OneLine cs) :=
  inferInstanceAs (Decidable (∀ c ∈ cs, _ = _))

@[simp] theorem oneLine_append {cs ds : List Char} :
    OneLine (cs ++ ds) ↔ OneLine cs ∧ OneLine ds :=
  List.forall_mem_append

/-- What can be tested of all characters of a line. -/
theorem oneLine_of (q : Char → Bool)
    (hq : ['\n', '\r', '\x0b', '\x0c', '\x1c', '\x1d', '\x1e', '\u0085', '\u2028', '\u2029'].all
      fun c => !q c) {cs : List Char} (h : ∀ c ∈ cs, q c) : OneLine cs := by
  intro c hc
  by_contra hboundary
  have hmem : isBoundary c := by simpa using hboundary
  have hnot := List.all_eq_true.mp hq c (of_decide_eq_true hmem)
  simp [h c hc] at hnot

theorem oneLine_of_printable {cs : List Char}
    (h : cs.all fun c => 32 ≤ c.toNat && c.toNat < 127) : OneLine cs :=
  oneLine_of _ (by decide) (List.all_eq_true.mp h)

variable (F) in
theorem oneLine_of_not_space {cs : List Char}
    (h : ∀ c ∈ cs, PyRuntime.space F c = false) : OneLine cs := by
  intro c hc
  by_contra hboundary
  have hspace : PyRuntime.space F c := PyText.space_of_isBoundary c (by simpa using hboundary)
  simp [h c hc] at hspace

theorem OneLine.cons {c : Char} {cs : List Char} (hc : isBoundary c = false) (h : OneLine cs) :
    OneLine (c :: cs) :=
  List.forall_mem_cons.mpr ⟨hc, h⟩

theorem splitlines_cons {c : Char} (hc : isBoundary c = false) (cs : List Char) :
    splitlines (c :: cs) =
      match splitlines cs with
      | [] => [[c]]
      | l :: ls => (c :: l) :: ls := by
  rw [splitlines]
  · simp [hc]
  · rintro cs' rfl -
    simp [isBoundary] at hc

theorem splitlines_append {l : List Char} (h : OneLine l) (cs : List Char) :
    splitlines (l ++ '\n' :: cs) = l :: splitlines cs := by
  induction l with
  | nil =>
    rw [List.nil_append, splitlines]
    · simp [isBoundary]
    · simp
  | cons c l ih =>
    obtain ⟨hc, hl⟩ := List.forall_mem_cons.mp h
    rw [List.cons_append, splitlines_cons hc, ih hl]

theorem oneLine_nil : OneLine [] :=
  fun _ hc => absurd hc List.not_mem_nil

/-- No line has an end in it. -/
theorem oneLine_of_mem_splitlines {cs l : List Char} (h : l ∈ splitlines cs) : OneLine l := by
  induction cs using splitlines.induct generalizing l with
  | case1 => exact absurd h List.not_mem_nil
  | case2 cs ih =>
    rw [splitlines] at h
    rcases List.mem_cons.mp h with rfl | h
    · exact oneLine_nil
    · exact ih h
  | case3 c cs hcs hc ih =>
    have hlines : splitlines (c :: cs) = [] :: splitlines cs := by
      rw [splitlines]
      · rw [if_pos hc]
      · exact hcs
    rw [hlines] at h
    rcases List.mem_cons.mp h with rfl | h
    · exact oneLine_nil
    · exact ih h
  | case4 c cs hcs hc hnil ih =>
    rw [splitlines_cons (by simpa using hc), hnil] at h
    obtain rfl := List.mem_singleton.mp h
    exact .cons (by simpa using hc) oneLine_nil
  | case5 c cs hcs hc l' ls hcons ih =>
    rw [splitlines_cons (by simpa using hc), hcons] at h
    rcases List.mem_cons.mp h with rfl | h
    · exact .cons (by simpa using hc) (ih (hcons ▸ List.mem_cons_self))
    · exact ih (hcons ▸ List.mem_cons_of_mem _ h)

/-- Lines, each with its end. -/
def unlines (ls : List (List Char)) : List Char :=
  ls.flatMap fun l => l ++ ['\n']

/-- **Lines are read as they were written.** -/
theorem splitlines_unlines {ls : List (List Char)} (h : ∀ l ∈ ls, OneLine l) :
    splitlines (unlines ls) = ls := by
  induction ls with
  | nil => rfl
  | cons l ls ih =>
    obtain ⟨hl, hls⟩ := List.forall_mem_cons.mp h
    rw [unlines, List.flatMap_cons, List.append_assoc, List.singleton_append,
      splitlines_append hl]
    rw [← unlines, ih hls]

/-! ## Blanks and quotes around a text -/

theorem toNat_le_of_isDigit {c : Char} (hc : c.isDigit) : c.toNat ≤ 57 := by
  simp only [Char.isDigit, Bool.and_eq_true, decide_eq_true_eq] at hc
  exact hc.2

theorem toNat_lt_of_isDigit {c : Char} (hc : c.isDigit) : c.toNat < 128 :=
  (toNat_le_of_isDigit hc).trans_lt (by decide)

theorem toNat_lt_of_isHexDigit {c : Char} (hc : Numeral.isHexDigit c) : c.toNat < 128 := by
  simp only [Numeral.isHexDigit, Bool.or_eq_true, Bool.and_eq_true, decide_eq_true_eq] at hc
  rcases hc with (hc | ⟨-, hc⟩) | ⟨-, hc⟩
  · exact toNat_lt_of_isDigit hc
  · have hle : c.toNat ≤ 102 := hc
    omega
  · have hle : c.toNat ≤ 70 := hc
    omega

theorem isHexDigit_of_isDigit {c : Char} (hc : c.isDigit) : Numeral.isHexDigit c := by
  simp [Numeral.isHexDigit, hc]

theorem space_of_isHexDigit {c : Char} (hc : Numeral.isHexDigit c) :
    PyRuntime.space F c = false := by
  rw [PyText.space_ascii c (toNat_lt_of_isHexDigit hc)]
  by_contra hspace
  have hnot := of_isAsciiSpace (fun c => !Numeral.isHexDigit c) (by decide) (by simpa using hspace)
  simp [hc] at hnot

theorem space_of_isDigit {c : Char} (hc : c.isDigit) : PyRuntime.space F c = false :=
  space_of_isHexDigit (isHexDigit_of_isDigit hc)

/-- `cs.strip(c)` for one character -/
def stripChar (c : Char) (cs : List Char) : List Char :=
  ((cs.dropWhile (· = c)).reverse.dropWhile (· = c)).reverse

variable (F) in
/-- `c` is a blank. -/
abbrev space (c : Char) : Bool :=
  PyRuntime.space F c

variable (F) in
/-- The text without the blanks at its end. -/
def rstrip (cs : List Char) : List Char :=
  cs.rdropWhile (PyRuntime.space F)

theorem strip_eq_rstrip {cs : List Char}
    (h : ∀ c, cs.head? = some c → PyRuntime.space F c = false) : Val.strip F cs = rstrip F cs := by
  rcases cs with _ | ⟨c, cs⟩
  · rfl
  · simp [Val.strip, rstrip, List.rdropWhile, h c rfl]

theorem rstrip_append (cs ds : List Char) :
    rstrip F (cs ++ ds) = if rstrip F ds = [] then rstrip F cs else cs ++ rstrip F ds := by
  unfold rstrip List.rdropWhile
  rw [List.reverse_append, List.dropWhile_append]
  by_cases h : ds.reverse.dropWhile (PyRuntime.space F) = []
  · simp [h]
  · simp [h]

theorem rstrip_concat {d : Char} (hd : PyRuntime.space F d = false) (cs : List Char) :
    rstrip F (cs ++ [d]) = cs ++ [d] :=
  List.rdropWhile_concat_neg _ _ _ (by simp [hd])

theorem rstrip_append_of_rstrip {cs : List Char} (h : rstrip F cs = cs) (ds : List Char) :
    rstrip F (cs ++ ds) = cs ++ rstrip F ds := by
  rw [rstrip_append, h]
  split
  · next hnil => rw [hnil, List.append_nil]
  · rfl

theorem rstrip_eq_nil_iff {cs : List Char} :
    rstrip F cs = [] ↔ ∀ c ∈ cs, PyRuntime.space F c :=
  List.rdropWhile_eq_nil_iff

theorem rstrip_prefix (cs : List Char) : rstrip F cs <+: cs :=
  List.rdropWhile_prefix _ cs

theorem rstrip_eq_self {cs : List Char}
    (h : ∀ c, cs.getLast? = some c → PyRuntime.space F c = false) : rstrip F cs = cs := by
  rw [rstrip, List.rdropWhile_eq_self_iff]
  intro hne
  simp [h _ (List.getLast?_eq_some_getLast hne)]

/-- A text without blanks at its ends. -/
theorem strip_eq_of_ends {cs : List Char}
    (hhead : ∀ c, cs.head? = some c → PyRuntime.space F c = false)
    (hlast : ∀ c, cs.getLast? = some c → PyRuntime.space F c = false) : Val.strip F cs = cs := by
  rw [strip_eq_rstrip hhead, rstrip_eq_self hlast]

theorem strip_eq_self {cs : List Char} (h : ∀ c ∈ cs, PyRuntime.space F c = false) :
    Val.strip F cs = cs :=
  strip_eq_of_ends (fun c hc => h c (List.mem_of_head? hc)) fun c hc =>
    h c (List.mem_of_getLast? hc)

theorem infix_strip (cs : List Char) : Val.strip F cs <:+: cs := by
  have hprefix : Val.strip F cs <+: cs.dropWhile (PyRuntime.space F) := rstrip_prefix _
  exact hprefix.isInfix.trans (List.dropWhile_suffix _).isInfix

theorem stripChar_eq (q : Char) (cs : List Char) :
    stripChar q cs = (cs.dropWhile (· = q)).rdropWhile (· = q) := rfl

/-- No quote is left at either end. -/
theorem ends_stripChar (q : Char) (cs : List Char) :
    (stripChar q cs).head? ≠ some q ∧ (stripChar q cs).getLast? ≠ some q := by
  rw [stripChar_eq]
  constructor
  · intro hhead
    obtain ⟨rest, hrest⟩ := List.rdropWhile_prefix (fun c => decide (c = q)) (cs.dropWhile (· = q))
    have hnot := List.head?_dropWhile_not (fun c => decide (c = q)) cs
    rw [← hrest, List.head?_append, hhead] at hnot
    simp at hnot
  · intro hlast
    have hne : (cs.dropWhile (· = q)).rdropWhile (· = q) ≠ [] := by
      intro hnil
      simp [hnil] at hlast
    have hnot := List.rdropWhile_last_not (fun c => decide (c = q)) (cs.dropWhile (· = q)) hne
    rw [List.getLast?_eq_some_getLast hne, Option.some_inj] at hlast
    simp [hlast] at hnot

theorem stripChar_infix (q : Char) (cs : List Char) : stripChar q cs <:+: cs := by
  rw [stripChar_eq]
  exact (List.rdropWhile_prefix _ _).isInfix.trans (List.dropWhile_suffix _).isInfix

/-- A text without the character at its ends. -/
theorem stripChar_eq_self {q : Char} {cs : List Char} (hhead : cs.head? ≠ some q)
    (hlast : cs.getLast? ≠ some q) : stripChar q cs = cs := by
  have hdrop : cs.dropWhile (· = q) = cs := by
    rcases cs with _ | ⟨c, cs⟩
    · rfl
    · have hc : c ≠ q := by simpa using hhead
      simp [hc]
  rw [stripChar_eq, hdrop, List.rdropWhile_eq_self_iff]
  intro hne
  simpa [List.getLast?_eq_some_getLast hne] using hlast

/-- Taking quotes off gives the text between them, if it neither starts nor ends with one. -/
theorem stripChar_quoted_iff {q : Char} {cs : List Char} :
    stripChar q (q :: cs ++ [q]) = cs ↔ cs.head? ≠ some q ∧ cs.getLast? ≠ some q := by
  constructor
  · intro h
    exact h ▸ ends_stripChar q (q :: cs ++ [q])
  · rintro ⟨hhead, hlast⟩
    have hdrop : (q :: cs ++ [q]).dropWhile (· = q) = if cs = [] then [] else cs ++ [q] := by
      rcases cs with _ | ⟨c, cs⟩
      · simp
      · have hc : c ≠ q := by simpa using hhead
        simp [hc]
    rw [stripChar_eq, hdrop]
    split
    · next hnil => simp [hnil]
    · rw [List.rdropWhile_concat_pos _ _ _ (by simp), List.rdropWhile_eq_self_iff]
      intro hne
      simpa [List.getLast?_eq_some_getLast hne] using hlast

/-! ## Numbers -/

section Int

variable (F)

/-- The value of a digit in a base. -/
def digitIn (b : ℕ) (c : Char) : Option ℕ :=
  match PyRuntime.decimal F c with
  | some d => if d < b then some d else none
  | none =>
    if Numeral.isHexDigit c ∧ Numeral.digitValue c < b then some (Numeral.digitValue c) else none

/-- The number of a run of digits, with single underscores between digits, after a first part. -/
def digitsIn (b acc : ℕ) : List Char → Option ℕ
  | [] => some acc
  | '_' :: c :: cs => (digitIn F b c).bind fun d => digitsIn b (b * acc + d) cs
  | c :: cs => (digitIn F b c).bind fun d => digitsIn b (b * acc + d) cs

/-- The number of a run of digits. -/
def natIn (b : ℕ) : List Char → Option ℕ
  | [] => none
  | c :: cs => (digitIn F b c).bind fun d => digitsIn F b d cs

/-- A prefix may be followed by an underscore. -/
def dropUnderscore : List Char → List Char
  | '_' :: cs => cs
  | cs => cs

/-- A number without a sign, whose base is told by its prefix. -/
def nat0 : List Char → Option ℕ
  | z :: x :: cs =>
    if PyRuntime.decimal F z = some 0 then
      if x = 'x' ∨ x = 'X' then natIn F 16 (dropUnderscore cs)
      else if x = 'o' ∨ x = 'O' then natIn F 8 (dropUnderscore cs)
      else if x = 'b' ∨ x = 'B' then natIn F 2 (dropUnderscore cs)
      -- zeros may be in front of a zero only
      else (natIn F 10 (z :: x :: cs)).filter (· = 0)
    else natIn F 10 (z :: x :: cs)
  | cs => natIn F 10 cs

/-- `int(cs, base=0)`, undefined where it raises `ValueError` -/
def int0 (cs : List Char) : Option ℤ :=
  match Val.strip F cs with
  | '-' :: cs => (nat0 F cs).map fun n : ℕ => -(n : ℤ)
  | '+' :: cs => (nat0 F cs).map fun n : ℕ => (n : ℤ)
  | cs => (nat0 F cs).map fun n : ℕ => (n : ℤ)

end Int

/-- How a number is printed. -/
def decimal (n : ℤ) : List Char :=
  if n < 0 then '-' :: Nat.toDigits 10 n.natAbs else Nat.toDigits 10 n.natAbs

theorem decimal_ne_nil (n : ℤ) : decimal n ≠ [] := by
  unfold decimal
  split
  · exact List.cons_ne_nil _ _
  · exact Nat.toDigits_ne_nil

theorem isDigit_of_mem_toDigits {n : ℕ} {c : Char} (hc : c ∈ Nat.toDigits 10 n) : c.isDigit := by
  obtain ⟨d, hd, rfl⟩ := Numeral.exists_of_mem_toDigits (by decide) hc
  have hdigit : ∀ d < 10, (Nat.digitChar d).isDigit := by decide
  exact hdigit d hd

theorem decimal_of_isDigit {c : Char} (hc : c.isDigit) :
    PyRuntime.decimal F c = some (Numeral.digitValue c) := by
  rw [PyText.decimal_ascii c (toNat_lt_of_isDigit hc), if_pos hc, Numeral.digitValue, if_pos hc]

theorem eq_zero_of_digitValue {c : Char} (hc : c.isDigit) (h : Numeral.digitValue c = 0) :
    c = '0' := by
  have hge : 48 ≤ c.toNat := by
    simp only [Char.isDigit, Bool.and_eq_true, decide_eq_true_eq] at hc
    exact hc.1
  have hzero : '0'.toNat = 48 := rfl
  rw [Numeral.digitValue, if_pos hc] at h
  exact Char.toNat_inj.mp (by omega)

theorem digitIn_of_isDigit {c : Char} (hc : c.isDigit) :
    digitIn F 10 c = some (Numeral.digitValue c) := by
  have hlt : Numeral.digitValue c < 10 := by
    have hle : c.toNat ≤ 57 := toNat_le_of_isDigit hc
    have hzero : '0'.toNat = 48 := rfl
    rw [Numeral.digitValue, if_pos hc]
    omega
  rw [digitIn, decimal_of_isDigit hc]
  simp [hlt]

theorem digitsIn_eq {cs : List Char} (h : ∀ c ∈ cs, c.isDigit) (acc : ℕ) :
    digitsIn F 10 acc cs = some (cs.foldl (fun n c => 10 * n + Numeral.digitValue c) acc) := by
  induction cs generalizing acc with
  | nil => rfl
  | cons c cs ih =>
    obtain ⟨hc, hcs⟩ := List.forall_mem_cons.mp h
    rw [digitsIn, digitIn_of_isDigit hc, Option.bind_some, ih hcs, List.foldl_cons]
    rintro d ds rfl
    exact absurd hc (by decide)

/-- The number of a run of digits is the number they stand for. -/
theorem natIn_eq {cs : List Char} (hne : cs ≠ []) (h : ∀ c ∈ cs, c.isDigit) :
    natIn F 10 cs = some (Numeral.value 10 cs) := by
  obtain ⟨c, cs, rfl⟩ := List.exists_cons_of_ne_nil hne
  obtain ⟨hc, hcs⟩ := List.forall_mem_cons.mp h
  rw [natIn, digitIn_of_isDigit hc, Option.bind_some, digitsIn_eq hcs, Numeral.value,
    List.foldl_cons, Nat.mul_zero, Nat.zero_add]

theorem nat0_toDigits (n : ℕ) : nat0 F (Nat.toDigits 10 n) = some n := by
  have hnat : natIn F 10 (Nat.toDigits 10 n) = some n := by
    rw [natIn_eq Nat.toDigits_ne_nil fun c hc => isDigit_of_mem_toDigits hc,
      Numeral.value_toDigits (by decide) (by decide)]
  rcases hdigits : Nat.toDigits 10 n with _ | ⟨z, _ | ⟨x, cs⟩⟩
  · exact absurd hdigits Nat.toDigits_ne_nil
  · rwa [hdigits] at hnat
  · have hn : 0 < n := by
      by_contra h0
      obtain rfl : n = 0 := by omega
      simp at hdigits
    have hz : z ≠ '0' := Numeral.head_toDigits_ne_zero (by decide) (by decide) hn hdigits
    have hdigit : z.isDigit := isDigit_of_mem_toDigits (hdigits ▸ List.mem_cons_self)
    have hzero : PyRuntime.decimal F z ≠ some 0 := by
      rw [decimal_of_isDigit hdigit, Ne, Option.some_inj]
      exact fun h => hz (eq_zero_of_digitValue hdigit h)
    rw [hdigits] at hnat
    rw [nat0, if_neg hzero, hnat]

theorem space_of_mem_decimal {n : ℤ} {c : Char} (hc : c ∈ decimal n) :
    PyRuntime.space F c = false := by
  have hdigit : ∀ c ∈ Nat.toDigits 10 n.natAbs, PyRuntime.space F c = false := fun c hc =>
    space_of_isDigit (isDigit_of_mem_toDigits hc)
  unfold decimal at hc
  split at hc
  · rcases List.mem_cons.mp hc with rfl | hc
    · rw [PyText.space_ascii _ (by decide)]
      rfl
    · exact hdigit c hc
  · exact hdigit c hc

/-- **A printed number is read again.** -/
theorem int0_decimal (n : ℤ) : int0 F (decimal n) = some n := by
  rw [int0, strip_eq_self fun c hc => space_of_mem_decimal hc, decimal]
  by_cases hn : n < 0
  · simp only [if_pos hn, nat0_toDigits, Option.map_some]
    congr
    omega
  · rw [if_neg hn]
    have hdigit : ∀ c ∈ Nat.toDigits 10 n.natAbs, c.isDigit := fun c hc =>
      isDigit_of_mem_toDigits hc
    have hnat : nat0 F (Nat.toDigits 10 n.natAbs) = _ := nat0_toDigits n.natAbs
    split
    · next cs hcs => exact absurd (hdigit '-' (hcs ▸ List.mem_cons_self)) (by decide)
    · next cs hcs => exact absurd (hdigit '+' (hcs ▸ List.mem_cons_self)) (by decide)
    · rw [hnat, Option.map_some, Option.some_inj]
      omega

theorem intDigits_eq {cs : List Char} (h : ∀ c ∈ cs, c.isDigit) (acc : ℕ) :
    Val.intDigits F acc cs = some (cs.foldl (fun n c => 10 * n + Numeral.digitValue c) acc) := by
  induction cs generalizing acc with
  | nil => rfl
  | cons c cs ih =>
    obtain ⟨hc, hcs⟩ := List.forall_mem_cons.mp h
    rw [Val.intDigits, decimal_of_isDigit hc]
    · exact ih hcs _
    · rintro d ds rfl
      exact absurd hc (by decide)

theorem intNat_toDigits (n : ℕ) : Val.intNat F (Nat.toDigits 10 n) = some n := by
  have hdigits : ∀ c ∈ Nat.toDigits 10 n, c.isDigit := fun c hc => isDigit_of_mem_toDigits hc
  have hvalue := Numeral.value_toDigits (by decide : 1 < 10) (by decide) n
  obtain ⟨c, cs, heq⟩ := List.exists_cons_of_ne_nil (Nat.toDigits_ne_nil (n := n) (b := 10))
  rw [heq] at hdigits hvalue ⊢
  obtain ⟨hc, hcs⟩ := List.forall_mem_cons.mp hdigits
  rw [Numeral.value, List.foldl_cons, Nat.mul_zero, Nat.zero_add] at hvalue
  rw [Val.intNat, decimal_of_isDigit hc]
  exact (intDigits_eq hcs _).trans (congrArg some hvalue)

/-- **A printed number is read again** by `int`. -/
theorem intSigned_decimal (n : ℤ) : Val.intSigned F (Val.strip F (decimal n)) = some n := by
  rw [strip_eq_self fun c hc => space_of_mem_decimal hc, decimal]
  by_cases hn : n < 0
  · rw [if_pos hn, Val.intSigned, intNat_toDigits]
    change some (-(n.natAbs : ℤ)) = some n
    rw [Option.some_inj]
    omega
  · have hdigit : ∀ c ∈ Nat.toDigits 10 n.natAbs, c.isDigit := fun c hc =>
      isDigit_of_mem_toDigits hc
    rw [if_neg hn, Val.intSigned, intNat_toDigits]
    · change some (n.natAbs : ℤ) = some n
      rw [Option.some_inj]
      omega
    · exact fun cs hcs => absurd (hdigit '-' (hcs ▸ List.mem_cons_self)) (by decide)
    · exact fun cs hcs => absurd (hdigit '+' (hcs ▸ List.mem_cons_self)) (by decide)

end Text
end LdmsTest
