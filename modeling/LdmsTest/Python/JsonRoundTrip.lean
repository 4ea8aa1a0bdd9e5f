import LdmsTest.Foundation.Fuelled
import LdmsTest.Python.Json
import Mathlib.Data.List.TakeWhile

/-!
# Reading back what `json.dumps` wrote

`json.loads` gives back the object that `json.dumps` wrote, with a list for every tuple
(`loads_dumps`), whether the text is indented or not.

Each scanner is shown to read a piece of text and to leave what follows it, for a rest that may
follow an object: `Delimited`.
-/

namespace LdmsTest
namespace Json

open Val (Keyed)

/-! ## Numbers -/

/-- What may follow an object in a text. -/
def Delimited (rest : List Char) : Prop :=
  ∀ c ∈ rest.head?, c ∈ [',', ']', '\x7d', '\n']

theorem delimited_nil : Delimited [] := nofun

theorem delimited_cons {c : Char} (h : c ∈ [',', ']', '\x7d', '\n']) (cs : List Char) :
    Delimited (c :: cs) := by
  intro c' hc'
  obtain rfl := Option.some_inj.mp hc'
  exact h

/-- A rest is empty or starts with one of four characters. -/
theorem Delimited.cases {rest : List Char} (h : Delimited rest) :
    rest = [] ∨ ∃ c cs, rest = c :: cs ∧ (c = ',' ∨ c = ']' ∨ c = '\x7d' ∨ c = '\n') := by
  cases rest with
  | nil => exact Or.inl rfl
  | cons c cs => exact Or.inr ⟨c, cs, rfl, by simpa using h c rfl⟩

section Rest

variable {rest : List Char} (hrest : Delimited rest)
include hrest

theorem scanDigits_rest : scanDigits rest = ([], rest) := by
  obtain rfl | ⟨c, cs, rfl, hc⟩ := hrest.cases
  · rfl
  · rcases hc with rfl | rfl | rfl | rfl <;> rfl

theorem scanDigits_append (cs : List Char) :
    scanDigits (cs ++ rest) = ((scanDigits cs).1, (scanDigits cs).2 ++ rest) := by
  induction cs with
  | nil => exact scanDigits_rest hrest
  | cons c cs ih =>
    unfold scanDigits at ih ⊢
    rw [Prod.mk.injEq] at ih
    cases hc : c.isDigit with
    | true => simp [hc, ih.1, ih.2]
    | false => simp [hc]

theorem scanNat_append {cs : List Char} {r : List Char × List Char} (h : scanNat cs = some r) :
    scanNat (cs ++ rest) = some (r.1, r.2 ++ rest) := by
  cases cs with
  | nil => cases h
  | cons c cs =>
    rw [scanNat] at h
    rw [List.cons_append, scanNat, ← List.cons_append, scanDigits_append hrest]
    split_ifs at h ⊢
    · obtain rfl := Option.some_inj.mp h
      rfl
    · obtain rfl := Option.some_inj.mp h
      rfl

theorem scanInteger_append {cs : List Char} {r : List Char × List Char}
    (h : scanInteger cs = some r) : scanInteger (cs ++ rest) = some (r.1, r.2 ++ rest) := by
  unfold scanInteger at h
  split at h
  · obtain ⟨r', hr', rfl⟩ := Option.map_eq_some_iff.mp h
    rw [List.cons_append, scanInteger, scanNat_append hrest hr']
    rfl
  · next hminus =>
    rw [scanInteger, scanNat_append hrest h]
    cases cs with
    | nil => cases h
    | cons c cs =>
      rintro cs' hcs
      exact hminus cs (congrArg (· :: cs) (List.cons.inj hcs).1)

theorem scanFrac_append (cs : List Char) :
    scanFrac (cs ++ rest) = ((scanFrac cs).1, (scanFrac cs).2 ++ rest) := by
  cases cs with
  | nil =>
    obtain rfl | ⟨c, cs, rfl, hc⟩ := hrest.cases
    · rfl
    · rcases hc with rfl | rfl | rfl | rfl <;> rfl
  | cons c cs =>
    by_cases hc : c = '.'
    · subst hc
      rw [List.cons_append, scanFrac, scanFrac, scanDigits_append hrest]
      split_ifs <;> rfl
    · rw [List.cons_append, scanFrac, scanFrac]
      · rfl
      · exact fun cs' h => hc (List.cons.inj h).1
      · exact fun cs' h => hc (List.cons.inj h).1

theorem scanExponent_append (cs : List Char) : scanExponent (cs ++ rest) =
    (scanExponent cs).map fun r => (r.1, r.2 ++ rest) := by
  cases cs with
  | nil =>
    obtain rfl | ⟨c, cs, rfl, hc⟩ := hrest.cases
    · rfl
    · rcases hc with rfl | rfl | rfl | rfl <;> rfl
  | cons c cs =>
    rw [List.cons_append, scanExponent, scanExponent, scanDigits_append hrest,
      ← List.cons_append, scanDigits_append hrest]
    split_ifs <;> rfl

theorem scanExp_append (cs : List Char) :
    scanExp (cs ++ rest) = ((scanExp cs).1, (scanExp cs).2 ++ rest) := by
  cases cs with
  | nil =>
    obtain rfl | ⟨c, cs, rfl, hc⟩ := hrest.cases
    · rfl
    · rcases hc with rfl | rfl | rfl | rfl <;> rfl
  | cons e cs =>
    rw [List.cons_append, scanExp, scanExp, scanExponent_append hrest]
    split_ifs
    · cases scanExponent cs <;> rfl
    · rfl

theorem scanNumber_append {cs : List Char} {r : (List Char × List Char) × List Char}
    (h : scanNumber cs = some r) : scanNumber (cs ++ rest) = some (r.1, r.2 ++ rest) := by
  obtain ⟨r', hr', rfl⟩ := Option.map_eq_some_iff.mp h
  rw [scanNumber, scanInteger_append hrest hr', Option.map_some, scanFrac_append hrest]
  dsimp only
  rw [scanExp_append hrest]

end Rest

theorem isDigit_of_mem_toDigits {n : ℕ} {c : Char} (h : c ∈ Nat.toDigits 10 n) : c.isDigit :=
  Nat.isDigit_of_mem_toDigits (by decide) (by decide) h

theorem scanDigits_toDigits (n : ℕ) : scanDigits (Nat.toDigits 10 n) = (Nat.toDigits 10 n, []) := by
  have hall : ∀ c ∈ Nat.toDigits 10 n, c.isDigit = true := fun c => isDigit_of_mem_toDigits
  rw [scanDigits, List.takeWhile_eq_self_iff.mpr hall, List.dropWhile_eq_nil_iff.mpr hall]

theorem scanNat_toDigits (n : ℕ) : scanNat (Nat.toDigits 10 n) = some (Nat.toDigits 10 n, []) := by
  rcases Nat.eq_zero_or_pos n with rfl | hn
  · rfl
  · have hscan := scanDigits_toDigits n
    cases hdigits : Nat.toDigits 10 n with
    | nil => exact absurd hdigits Nat.toDigits_ne_nil
    | cons c cs =>
      have hc : c.isDigit := isDigit_of_mem_toDigits (hdigits ▸ List.mem_cons_self)
      have hne : c ≠ '0' := Numeral.head_toDigits_ne_zero (by decide) (by decide) hn hdigits
      rw [hdigits] at hscan
      rw [scanNat, if_neg hne, if_pos hc, hscan]

/-- An integer is read as its own text. -/
theorem scanNumber_intText (n : ℤ) : scanNumber (intText n) = some ((intText n, []), []) := by
  have hint : scanInteger (intText n) = some (intText n, []) := by
    unfold intText
    split
    · rw [scanInteger, scanNat_toDigits]
      rfl
    · rw [scanInteger, scanNat_toDigits]
      intro cs hcs
      have hminus := isDigit_of_mem_toDigits (hcs ▸ List.mem_cons_self : '-' ∈ Nat.toDigits 10 _)
      cases hminus
  rw [scanNumber, hint]
  rfl

theorem toList_toString (n : ℤ) : (toString n).toList = intText n := by
  cases n with
  | ofNat m =>
    rw [intText, if_neg (by exact not_lt.mpr (Int.natCast_nonneg m))]
    show (Nat.repr m).toList = _
    rw [Nat.repr, String.toList_ofList]
    rfl
  | negSucc m =>
    rw [intText, if_pos (Int.negSucc_lt_zero m)]
    show ("-" ++ Nat.repr (m + 1)).toList = _
    rw [String.toList_append, Nat.repr, String.toList_ofList, String.toList_ofList]
    rfl

theorem ofInteger_intText (n : ℤ) : ofInteger (intText n) = n := by
  unfold intText
  split
  · next hn =>
    rw [ofInteger, Numeral.value_toDigits (by decide) (by decide)]
    omega
  · next hn =>
    rw [ofInteger, Numeral.value_toDigits (by decide) (by decide)]
    · omega
    · intro cs hcs
      have hminus := isDigit_of_mem_toDigits (hcs ▸ List.mem_cons_self : '-' ∈ Nat.toDigits 10 _)
      cases hminus

/-- A number starts with a digit or with a minus sign. -/
theorem exists_of_scanNumber {cs : List Char} {r : (List Char × List Char) × List Char}
    (h : scanNumber cs = some r) : ∃ c cs', cs = c :: cs' ∧ (c = '-' ∨ c.isDigit) := by
  obtain ⟨r', hr', -⟩ := Option.map_eq_some_iff.mp h
  unfold scanInteger at hr'
  split at hr'
  · exact ⟨_, _, rfl, Or.inl rfl⟩
  · next hminus =>
    cases cs with
    | nil => cases hr'
    | cons c cs =>
      refine ⟨c, cs, rfl, Or.inr ?_⟩
      rw [scanNat] at hr'
      split_ifs at hr' with hzero hdigit
      · rw [hzero]; rfl
      · exact hdigit

/-! ## Strings -/

theorem digitValue_digitChar {d : ℕ} (hd : d < 16) : Numeral.digitValue (Nat.digitChar d) = d := by
  have hdigit : ∀ d < 16, Numeral.digitValue (Nat.digitChar d) = d := by decide
  exact hdigit d hd

theorem isHexDigit_digitChar {d : ℕ} (hd : d < 16) : Numeral.isHexDigit (Nat.digitChar d) := by
  have hdigit : ∀ d < 16, Numeral.isHexDigit (Nat.digitChar d) := by decide
  exact hdigit d hd

theorem ofHex4_hex4 {n : ℕ} (hn : n < 0x10000) : ofHex4 (hex4 n) = some n := by
  have hmod (k : ℕ) : k % 16 < 16 := Nat.mod_lt k (by decide)
  have hall : (hex4 n).all Numeral.isHexDigit := by
    simp [hex4, isHexDigit_digitChar (hmod _)]
  rw [ofHex4, if_pos hall]
  simp only [hex4, Numeral.value, List.map_cons, List.map_nil, List.foldl_cons, List.foldl_nil,
    digitValue_digitChar (hmod _)]
  rw [Option.some_inj]
  omega

/-- A `\uXXXX` that is no surrogate. -/
theorem scanString_u {a b c d : Char} {n : ℕ} (hn : ofHex4 [a, b, c, d] = some n)
    (hs : ¬ (0xd800 ≤ n ∧ n < 0xe000)) (rest : List Char) :
    scanString ('\\' :: 'u' :: a :: b :: c :: d :: rest) =
      consChar (Char.ofNat n) (scanString rest) := by
  rw [scanString.eq_def]
  split
  · next h => cases h
  · next h => cases h
  -- the two branches of a `\u`, by what follows it
  · next h =>
    cases h
    simp only [hn]
    rw [if_neg (by omega), if_neg (by omega)]
  · next h =>
    cases h
    simp only [hn]
    rw [if_neg (by omega), if_neg (by omega)]
  · next hu h =>
    obtain ⟨-, h⟩ := List.cons.inj h
    obtain ⟨rfl, rfl⟩ := List.cons.inj h
    exact absurd rfl (hu a b c d rest rfl)
  · next hu h =>
    obtain ⟨rfl, rfl⟩ := List.cons.inj h
    exact absurd rfl (hu 'u' (a :: b :: c :: d :: rest) rfl)

/-- A surrogate pair. -/
theorem scanString_pair {a b c d e f g h : Char} {n m : ℕ} (hn : ofHex4 [a, b, c, d] = some n)
    (hm : ofHex4 [e, f, g, h] = some m) (hhigh : 0xd800 ≤ n ∧ n < 0xdc00)
    (hlow : 0xdc00 ≤ m ∧ m < 0xe000) (rest : List Char) :
    scanString ('\\' :: 'u' :: a :: b :: c :: d :: '\\' :: 'u' :: e :: f :: g :: h :: rest) =
      consChar (Char.ofNat (0x10000 + (n - 0xd800) * 0x400 + (m - 0xdc00)))
        (scanString rest) := by
  rw [scanString]
  simp only [hn, hm, if_pos hhigh, if_pos hlow]

theorem scanString_plain {c : Char} (hquote : c ≠ '"') (hslash : c ≠ '\\') (hc : ' ' ≤ c)
    (rest : List Char) : scanString (c :: rest) = consChar c (scanString rest) := by
  have hge : ¬ c.toNat < 0x20 := Nat.not_lt_of_le hc
  rw [scanString, if_neg hge]
  · exact fun h => hquote h
  · exact fun _ _ _ _ _ _ _ _ _ h => absurd h hslash
  · exact fun _ _ _ _ _ h => absurd h hslash
  · exact fun _ _ h => absurd h hslash

/-- A character is no surrogate. -/
theorem not_surrogate (c : Char) : ¬ (0xd800 ≤ c.toNat ∧ c.toNat < 0xe000) := by
  have hvalid : c.toNat < 0xd800 ∨ 0xdfff < c.toNat ∧ c.toNat < 0x110000 := c.valid
  omega

theorem toNat_lt (c : Char) : c.toNat < 0x110000 := by
  have hvalid : c.toNat < 0xd800 ∨ 0xdfff < c.toNat ∧ c.toNat < 0x110000 := c.valid
  omega

/-- **The escape of a character** is read as the character. -/
theorem scanString_escape (c : Char) (rest : List Char) :
    scanString (escape c ++ rest) = consChar c (scanString rest) := by
  unfold escape
  split_ifs with hslash hquote hplain hn hr ht hf hb hsmall
  · rw [hslash]; rfl
  · rw [hquote]; rfl
  · exact scanString_plain hquote hslash hplain.1 rest
  · rw [hn]; rfl
  · rw [hr]; rfl
  · rw [ht]; rfl
  · rw [hf]; rfl
  · rw [hb]; rfl
  · have hread := scanString_u (ofHex4_hex4 hsmall) (not_surrogate c) rest
    rwa [Char.ofNat_toNat] at hread
  · have hlt := toNat_lt c
    have hhigh : 0xd800 + (c.toNat - 0x10000) / 0x400 < 0xdc00 := by omega
    have hlow : 0xdc00 + (c.toNat - 0x10000) % 0x400 < 0xe000 := by omega
    have hread := scanString_pair (ofHex4_hex4 (by omega)) (ofHex4_hex4 (by omega))
      ⟨Nat.le_add_right _ _, hhigh⟩ ⟨Nat.le_add_right _ _, hlow⟩ rest
    have hnum : 0x10000 + (0xd800 + (c.toNat - 0x10000) / 0x400 - 0xd800) * 0x400 +
        (0xdc00 + (c.toNat - 0x10000) % 0x400 - 0xdc00) = c.toNat := by
      omega
    rw [hnum, Char.ofNat_toNat] at hread
    exact hread

theorem scanString_flatMap_escape (cs rest : List Char) :
    scanString (cs.flatMap escape ++ '"' :: rest) = .ok (cs, rest) := by
  induction cs with
  | nil => rfl
  | cons c cs ih =>
    rw [List.flatMap_cons, List.append_assoc, scanString_escape, ih]
    rfl

/-! ## Blanks -/

theorem skipSpace_cons {c : Char} (hc : isSpace c = false) (cs : List Char) :
    skipSpace (c :: cs) = c :: cs :=
  List.dropWhile_cons_of_neg (by rw [hc]; exact Bool.false_ne_true)

/-- Text that is blank. -/
def Blank (cs : List Char) : Prop :=
  ∀ c ∈ cs, isSpace c

theorem skipSpace_append {cs : List Char} (h : Blank cs) (rest : List Char) :
    skipSpace (cs ++ rest) = skipSpace rest :=
  List.dropWhile_append_of_pos h

theorem blank_newline (indent : Option ℕ) (level : ℕ) : Blank (newline indent level) := by
  cases indent with
  | none => exact nofun
  | some width =>
    intro c hc
    rcases List.mem_cons.mp hc with rfl | hc
    · rfl
    · rw [(List.mem_replicate.mp hc).2]; rfl

/-- A separator is a comma and blanks. -/
theorem exists_separator_eq (indent : Option ℕ) (level : ℕ) :
    ∃ gap, separator indent level = ',' :: gap ∧ Blank gap := by
  cases indent with
  | none => exact ⟨[' '], rfl, by intro c hc; rw [List.mem_singleton.mp hc]; rfl⟩
  | some width => exact ⟨_, rfl, blank_newline _ level⟩

theorem delimited_newline_append (indent : Option ℕ) (level : ℕ) {c : Char}
    (hc : c ∈ [',', ']', '\x7d', '\n']) (rest : List Char) :
    Delimited (newline indent level ++ c :: rest) := by
  cases indent with
  | none => exact delimited_cons hc rest
  | some width => exact delimited_cons (by decide) _

/-! ## Objects -/

variable {F : Type}

mutual

/-- An object with a list for every tuple, as JSON has it. -/
def listed : Val F → Val F
  | .list xs => .list (listedItems xs)
  | .tuple xs => .list (listedItems xs)
  | .dict d => .dict (listedFields d)
  | v => v

def listedItems : List (Val F) → List (Val F)
  | [] => []
  | x :: xs => listed x :: listedItems xs

def listedFields : List (String × Val F) → List (String × Val F)
  | [] => []
  | (k, x) :: d => (k, listed x) :: listedFields d

end

theorem keys_listedFields (d : List (String × Val F)) :
    Dict.keys (listedFields d) = Dict.keys d := by
  induction d with
  | nil => rfl
  | cons p d ih => exact congrArg (p.1 :: ·) ih

theorem get?_listedFields (d : List (String × Val F)) (k : String) :
    Dict.get? (listedFields d) k = (Dict.get? d k).map listed := by
  induction d with
  | nil => rfl
  | cons p d ih =>
    rw [listedFields, Dict.get?_cons, Dict.get?_cons, ih]
    split
    · rfl
    · rfl

theorem listedItems_eq_map (xs : List (Val F)) : listedItems xs = xs.map listed := by
  induction xs with
  | nil => rfl
  | cons x xs ih => rw [listedItems, ih, List.map_cons]

theorem listedFields_eq_map (d : List (String × Val F)) :
    listedFields d = d.map fun p => (p.1, listed p.2) := by
  induction d with
  | nil => rfl
  | cons p d ih => exact congrArg ((p.1, listed p.2) :: ·) ih

theorem listedFields_set (d : List (String × Val F)) (k : String) (v : Val F) :
    listedFields (Dict.set d k v) = Dict.set (listedFields d) k (listed v) := by
  induction d with
  | nil => rfl
  | cons p d ih =>
    obtain ⟨k', w⟩ := p
    rw [listedFields, Dict.set, Dict.set]
    split
    · rw [listedFields]
    · rw [listedFields, ih]

theorem listedFields_update (d e : List (String × Val F)) :
    listedFields (Dict.update d e) = Dict.update (listedFields d) (listedFields e) := by
  induction e generalizing d with
  | nil => rfl
  | cons p e ih =>
    obtain ⟨k, v⟩ := p
    rw [listedFields, Dict.update_cons, Dict.update_cons, ih, listedFields_set]

theorem listed_of_isPrimitive {v : Val F} (hv : v.isPrimitive) : listed v = v := by
  cases v with
  | none | list | tuple | dict => cases hv
  | bool | int | float | str => rfl

variable [JsonFloat F]

/-- What the text of an object may start with. -/
def Opening (c : Char) : Prop :=
  isSpace c = false ∧ c ≠ ']' ∧ c ≠ '\x7d' ∧ c ≠ Char.ofNat 0xfeff

instance (c : Char) : Decidable (Opening c) :=
  inferInstanceAs (Decidable (_ ∧ _))

theorem opening_of_isDigit {c : Char} (hc : c.isDigit) : Opening c := by
  have hne (c' : Char) (hc' : c'.isDigit = false) : c ≠ c' := by
    rintro rfl
    rw [hc] at hc'
    cases hc'
  refine ⟨?_, hne _ rfl, hne _ rfl, hne _ rfl⟩
  unfold isSpace
  simp [hne ' ' rfl, hne '\t' rfl, hne '\n' rfl, hne '\r' rfl]

/-- A text that starts as the text of an object does. -/
def Opens (cs : List Char) : Prop :=
  ∃ c cs', cs = c :: cs' ∧ Opening c

theorem Opens.append {cs : List Char} (h : Opens cs) (rest : List Char) : Opens (cs ++ rest) := by
  obtain ⟨c, cs', rfl, hc⟩ := h
  exact ⟨c, cs' ++ rest, rfl, hc⟩

theorem Opens.skipSpace_eq {cs : List Char} (h : Opens cs) : skipSpace cs = cs := by
  obtain ⟨c, cs', rfl, hc⟩ := h
  exact skipSpace_cons hc.1 cs'

theorem opens_of_scanNumber {cs : List Char} {r : (List Char × List Char) × List Char}
    (h : scanNumber cs = some r) : Opens cs := by
  obtain ⟨c, cs', rfl, hc⟩ := exists_of_scanNumber h
  refine ⟨c, cs', rfl, ?_⟩
  rcases hc with rfl | hc
  · decide
  · exact opening_of_isDigit hc

theorem opens_container {l : Char} (hl : Opening l) (indent : Option ℕ) (level : ℕ) (r : Char)
    (items : List (List Char)) : Opens (container indent level l r items) := by
  unfold container
  split
  · exact ⟨l, _, rfl, hl⟩
  · exact ⟨l, _, rfl, hl⟩

theorem opens_encode (indent : Option ℕ) (level : ℕ) (v : Val F) :
    Opens (encode indent level v) := by
  cases v with
  | none => exact ⟨_, _, rfl, by decide⟩
  | bool b => cases b <;> exact ⟨_, _, rfl, by decide⟩
  | int n => exact opens_of_scanNumber (scanNumber_intText n)
  | float x =>
    rw [encode]
    rcases JsonFloat.dump_cases x with ⟨h, -⟩ | ⟨h, -⟩ | ⟨h, -⟩ | ⟨i, f, -, h, -⟩
    · rw [h]; exact ⟨_, _, rfl, by decide⟩
    · rw [h]; exact ⟨_, _, rfl, by decide⟩
    · rw [h]; exact ⟨_, _, rfl, by decide⟩
    · exact opens_of_scanNumber h
  | str s => exact ⟨_, _, rfl, by decide⟩
  | list xs => exact opens_container (by decide) _ _ _ _
  | tuple xs => exact opens_container (by decide) _ _ _ _
  | dict d => exact opens_container (by decide) _ _ _ _

/-! ### Numbers and words -/

theorem scanValue_scalar {n : ℕ} {c : Char} {cs : List Char} (hquote : c ≠ '"')
    (hbrace : c ≠ '\x7b') (hbracket : c ≠ '[') :
    (scanValue (n + 1) (c :: cs) : Except LoadError (Val F × List Char)) =
      scanScalar (c :: cs) := by
  rw [scanValue, if_neg hquote, if_neg hbrace, if_neg hbracket]

theorem scanValue_of_scanNumber {n : ℕ} {cs rest i f : List Char}
    (h : scanNumber cs = some ((i, f), rest)) :
    scanValue (n + 1) cs = .ok ((number i f : Val F), rest) := by
  obtain ⟨c, cs', rfl, hc⟩ := exists_of_scanNumber h
  have hne {c' : Char} (hminus : '-' ≠ c') (hc' : c'.isDigit = false) : c ≠ c' := by
    rcases hc with rfl | hc
    · exact hminus
    · rintro rfl
      rw [hc] at hc'
      cases hc'
  rw [scanValue_scalar (hne (by decide) rfl) (hne (by decide) rfl) (hne (by decide) rfl),
    scanScalar, h]
  rfl

theorem scanValue_int {n : ℕ} {rest : List Char} (hrest : Delimited rest) (k : ℤ) :
    scanValue (n + 1) (intText k ++ rest) = .ok ((.int k : Val F), rest) := by
  have hnum := scanNumber_append hrest (scanNumber_intText k)
  rw [scanValue_of_scanNumber hnum, List.nil_append, number, if_pos rfl, ofInteger_intText]

theorem scanValue_float {n : ℕ} {rest : List Char} (hrest : Delimited rest) (x : F) :
    scanValue (n + 1) (JsonFloat.dump x ++ rest) = .ok ((.float x : Val F), rest) := by
  rcases JsonFloat.dump_cases x with ⟨h, rfl⟩ | ⟨h, rfl⟩ | ⟨h, rfl⟩ | ⟨i, f, hf, h, hx⟩
  · rw [h]; rfl
  · rw [h]; rfl
  · rw [h]; rfl
  · have hnum := scanNumber_append hrest h
    rw [scanValue_of_scanNumber hnum, List.nil_append, number, if_neg hf, hx]

theorem scanValue_str {n : ℕ} (s : String) (rest : List Char) :
    scanValue (n + 1) (encodeStr s ++ rest) = .ok ((.str s : Val F), rest) := by
  rw [encodeStr, List.cons_append, List.append_assoc, scanValue, if_pos rfl, List.singleton_append,
    scanString_flatMap_escape]
  exact congrArg (fun s => Except.ok ((.str s : Val F), rest)) (String.ofList_toList)

/-! ### Containers -/

/-- The items of a container that has some, with what follows them. -/
theorem container_append {items : List (List Char)} (hitems : items ≠ []) (indent : Option ℕ)
    (level : ℕ) (l r : Char) (rest : List Char) :
    container indent level l r items ++ rest =
      l :: (newline indent (level + 1) ++ (joined indent (level + 1) items ++
        (newline indent level ++ r :: rest))) := by
  rw [container, if_neg (by rwa [List.isEmpty_iff])]
  simp only [List.cons_append, List.append_assoc, List.nil_append]

theorem joined_cons_cons (indent : Option ℕ) (level : ℕ) (x y : List Char)
    (items : List (List Char)) : joined indent level (x :: y :: items) =
      x ++ separator indent level ++ joined indent level (y :: items) := rfl

theorem opens_joined (indent : Option ℕ) (level : ℕ) {items : List (List Char)}
    (hne : items ≠ []) (h : ∀ item ∈ items, Opens item) : Opens (joined indent level items) := by
  cases items with
  | nil => exact absurd rfl hne
  | cons x items =>
    have hx := h x List.mem_cons_self
    cases items with
    | nil => exact hx
    | cons y items =>
      rw [joined_cons_cons, List.append_assoc]
      exact hx.append _

theorem opens_of_mem_encodeItems {indent : Option ℕ} {level : ℕ} {xs : List (Val F)} :
    ∀ item ∈ encodeItems indent level xs, Opens item := by
  induction xs with
  | nil => exact nofun
  | cons x xs ih => exact List.forall_mem_cons.mpr ⟨opens_encode indent level x, ih⟩

theorem opens_of_mem_encodeFields {indent : Option ℕ} {level : ℕ} {d : List (String × Val F)} :
    ∀ item ∈ encodeFields indent level d, Opens item := by
  induction d with
  | nil => exact nofun
  | cons p d ih =>
    refine List.forall_mem_cons.mpr ⟨?_, ih⟩
    exact ⟨'"', _, rfl, by decide⟩

/-- The bound that is enough to read a text. -/
def Enough (n : ℕ) (cs : List Char) : Prop :=
  2 * cs.length < n

/-- A value that is read back, whatever follows it. -/
def ReadsBack (indent : Option ℕ) (v : Val F) : Prop :=
  ∀ (level n : ℕ) (rest : List Char), Enough n (encode indent level v) → Delimited rest →
    scanValue n (encode indent level v ++ rest) = .ok (listed v, rest)

theorem scanItems_last {n : ℕ} {cs cs₁ rest : List Char} {x : Val F}
    (hx : scanValue n cs = .ok (x, cs₁)) (hclose : skipSpace cs₁ = ']' :: rest) :
    scanItems (n + 1) cs = .ok ([x], rest) := by
  rw [scanItems, hx, ok_bind]
  dsimp only
  rw [hclose]
  rfl

theorem scanItems_next {n : ℕ} {cs cs₁ cs₂ rest : List Char} {x : Val F} {xs : List (Val F)}
    (hx : scanValue n cs = .ok (x, cs₁)) (hcomma : skipSpace cs₁ = ',' :: cs₂)
    (hxs : scanItems n (skipSpace cs₂) = .ok (xs, rest)) :
    scanItems (n + 1) cs = .ok (x :: xs, rest) := by
  rw [scanItems, hx, ok_bind]
  dsimp only
  rw [hcomma]
  exact congrArg (fun r => r >>= fun p => pure (x :: p.1, p.2)) hxs

theorem scanFields_last {n : ℕ} {k : String} {cs cs₁ rest : List Char} {x : Val F}
    (hx : scanValue n (skipSpace cs) = .ok (x, cs₁)) (hclose : skipSpace cs₁ = '\x7d' :: rest) :
    scanFields (n + 1) (encodeStr k ++ ':' :: cs) = .ok ([(k, x)], rest) := by
  rw [encodeStr, List.cons_append, List.append_assoc, List.singleton_append, scanFields,
    scanString_flatMap_escape, ok_bind]
  dsimp only
  rw [skipSpace_cons rfl, String.ofList_toList]
  refine (congrArg (fun r => r >>= _) hx).trans ?_
  rw [ok_bind]
  dsimp only
  rw [hclose]
  rfl

theorem scanFields_next {n : ℕ} {k : String} {cs cs₁ cs₂ rest : List Char} {x : Val F}
    {d : List (String × Val F)} (hx : scanValue n (skipSpace cs) = .ok (x, cs₁))
    (hcomma : skipSpace cs₁ = ',' :: cs₂) (hd : scanFields n (skipSpace cs₂) = .ok (d, rest)) :
    scanFields (n + 1) (encodeStr k ++ ':' :: cs) = .ok ((k, x) :: d, rest) := by
  rw [encodeStr, List.cons_append, List.append_assoc, List.singleton_append, scanFields,
    scanString_flatMap_escape, ok_bind]
  dsimp only
  rw [skipSpace_cons rfl, String.ofList_toList]
  refine (congrArg (fun r => r >>= _) hx).trans ?_
  rw [ok_bind]
  dsimp only
  rw [hcomma]
  exact congrArg (fun r => r >>= fun p => pure ((k, x) :: p.1, p.2)) hd

/-- The text of the items after the first. -/
theorem exists_joined_cons_cons (indent : Option ℕ) (level : ℕ) (x y : List Char)
    (items : List (List Char)) : ∃ gap, Blank gap ∧ joined indent level (x :: y :: items) =
      x ++ ',' :: (gap ++ joined indent level (y :: items)) := by
  obtain ⟨gap, hgap, hblank⟩ := exists_separator_eq indent level
  refine ⟨gap, hblank, ?_⟩
  rw [joined_cons_cons, hgap, List.append_assoc, List.cons_append]

/-- The items of an array are read up to its bracket. -/
theorem scanItems_joined {indent : Option ℕ} {level : ℕ} {x : Val F} {xs : List (Val F)}
    (ih : ∀ y ∈ x :: xs, ReadsBack indent y) {n : ℕ}
    (hn : 2 * (joined indent level (encodeItems indent level (x :: xs))).length + 1 < n)
    {close : List Char} (hclose : Blank close) (hdelim : ∀ rest, Delimited (close ++ ']' :: rest))
    (rest : List Char) :
    scanItems n (joined indent level (encodeItems indent level (x :: xs)) ++
      (close ++ ']' :: rest)) = .ok (listedItems (x :: xs), rest) := by
  induction xs generalizing n x with
  | nil =>
    obtain ⟨n, rfl⟩ := Nat.exists_eq_add_one.mpr (Nat.zero_lt_of_lt hn)
    have hread := ih x List.mem_cons_self level n _ (Nat.lt_of_succ_lt_succ hn) (hdelim rest)
    refine scanItems_last hread ?_
    rw [skipSpace_append hclose, skipSpace_cons rfl]
  | cons y ys ihxs =>
    obtain ⟨n, rfl⟩ := Nat.exists_eq_add_one.mpr (Nat.zero_lt_of_lt hn)
    obtain ⟨ihx, ih⟩ := List.forall_mem_cons.mp ih
    obtain ⟨gap, hblank, hjoined⟩ := exists_joined_cons_cons indent level
      (encode indent level x) (encode indent level y) (encodeItems indent level ys)
    have hopens : Opens (joined indent level (encodeItems indent level (y :: ys))) :=
      opens_joined _ _ (List.cons_ne_nil _ _) opens_of_mem_encodeItems
    rw [encodeItems, encodeItems, hjoined, List.length_append, List.length_cons,
      List.length_append] at hn
    rw [encodeItems, encodeItems, hjoined, List.append_assoc, List.cons_append, List.append_assoc]
    refine scanItems_next (ihx level n _ (by unfold Enough; omega)
      (delimited_cons (by decide) _)) (skipSpace_cons rfl _) ?_
    have hskip := (hopens.append (close ++ ']' :: rest)).skipSpace_eq
    rw [encodeItems] at hskip
    rw [skipSpace_append hblank, hskip]
    exact ihxs ih (by rw [encodeItems]; omega)

/-- The items of an object are read up to its brace. -/
theorem scanFields_joined {indent : Option ℕ} {level : ℕ} {p : String × Val F}
    {d : List (String × Val F)} (ih : ∀ q ∈ p :: d, ReadsBack indent q.2) {n : ℕ}
    (hn : 2 * (joined indent level (encodeFields indent level (p :: d))).length + 1 < n)
    {close : List Char} (hclose : Blank close)
    (hdelim : ∀ rest, Delimited (close ++ '\x7d' :: rest)) (rest : List Char) :
    scanFields n (joined indent level (encodeFields indent level (p :: d)) ++
      (close ++ '\x7d' :: rest)) = .ok (listedFields (p :: d), rest) := by
  have hskip (v : Val F) (rest : List Char) : skipSpace (' ' :: (encode indent level v ++ rest)) =
      encode indent level v ++ rest := by
    have h := ((opens_encode indent level v).append rest).skipSpace_eq
    exact h
  induction d generalizing n p with
  | nil =>
    obtain ⟨n, rfl⟩ := Nat.exists_eq_add_one.mpr (Nat.zero_lt_of_lt hn)
    obtain ⟨k, x⟩ := p
    rw [encodeFields, encodeFields, joined, List.length_append, List.length_cons,
      List.length_cons] at hn
    rw [encodeFields, encodeFields, joined, List.append_assoc, List.cons_append, List.cons_append]
    have hread := ih (k, x) List.mem_cons_self level n _
      (by unfold Enough; dsimp only; omega) (hdelim rest)
    refine scanFields_last (by rw [hskip]; exact hread) ?_
    rw [skipSpace_append hclose, skipSpace_cons rfl]
  | cons q d ihd =>
    obtain ⟨n, rfl⟩ := Nat.exists_eq_add_one.mpr (Nat.zero_lt_of_lt hn)
    obtain ⟨k, x⟩ := p
    obtain ⟨ihx, ih⟩ := List.forall_mem_cons.mp ih
    obtain ⟨gap, hblank, hjoined⟩ := exists_joined_cons_cons indent level
      (encodeStr k ++ ':' :: ' ' :: encode indent level x)
      (encodeStr q.1 ++ ':' :: ' ' :: encode indent level q.2) (encodeFields indent level d)
    have hopens : Opens (joined indent level (encodeFields indent level (q :: d))) :=
      opens_joined _ _ (List.cons_ne_nil _ _) opens_of_mem_encodeFields
    rw [encodeFields, encodeFields, hjoined, List.length_append, List.length_append,
      List.length_cons, List.length_cons, List.length_cons, List.length_append] at hn
    rw [encodeFields, encodeFields, hjoined]
    simp only [List.append_assoc, List.cons_append]
    have hread := ihx level n (',' :: (gap ++ (joined indent level
      (encodeFields indent level (q :: d)) ++ (close ++ '\x7d' :: rest))))
      (by unfold Enough; dsimp only; omega) (delimited_cons (by decide) _)
    refine scanFields_next (by rw [hskip]; exact hread) (skipSpace_cons rfl _) ?_
    have hskip' := (hopens.append (close ++ '\x7d' :: rest)).skipSpace_eq
    rw [skipSpace_append hblank, hskip']
    exact ihd ih (by rw [encodeFields]; omega)

theorem scanValue_list {n : ℕ} {cs rest : List Char} {xs : List (Val F)}
    (hopens : Opens (skipSpace cs)) (hxs : scanItems n (skipSpace cs) = .ok (xs, rest)) :
    scanValue (n + 1) ('[' :: cs) = .ok (.list xs, rest) := by
  obtain ⟨c, cs', heq, -, hc, -⟩ := hopens
  rw [scanValue, if_neg (by decide), if_neg (by decide), if_pos rfl]
  split
  · next rest' hclose =>
    rw [heq] at hclose
    exact absurd (List.cons.inj hclose).1 hc
  · rw [hxs]
    rfl

theorem scanValue_dict {n : ℕ} {cs rest : List Char} {d : List (String × Val F)}
    (hopens : Opens (skipSpace cs)) (hd : scanFields n (skipSpace cs) = .ok (d, rest))
    (hkeys : (Dict.keys d).Nodup) : scanValue (n + 1) ('\x7b' :: cs) = .ok (.dict d, rest) := by
  obtain ⟨c, cs', heq, -, -, hc, -⟩ := hopens
  rw [scanValue, if_neg (by decide), if_pos rfl]
  split
  · next rest' hclose =>
    rw [heq] at hclose
    exact absurd (List.cons.inj hclose).1 hc
  · rw [hd, ok_bind]
    dsimp only
    rw [Dict.update_of_nodup_append (d := []) hkeys]
    rfl

/-- An array of members that are read back is read back, whether it was a list or a tuple. -/
theorem scanValue_container_list {indent : Option ℕ} {xs : List (Val F)}
    (ih : ∀ x ∈ xs, ReadsBack indent x) {level n : ℕ} {rest : List Char}
    (hn : Enough n (container indent level '[' ']' (encodeItems indent (level + 1) xs))) :
    scanValue n (container indent level '[' ']' (encodeItems indent (level + 1) xs) ++ rest) =
      .ok (.list (listedItems xs), rest) := by
  obtain ⟨n, rfl⟩ := Nat.exists_eq_add_one.mpr (Nat.zero_lt_of_lt hn)
  cases xs with
  | nil => rfl
  | cons x xs =>
    have hne : encodeItems indent (level + 1) (x :: xs) ≠ [] := List.cons_ne_nil _ _
    have hopens := (opens_joined indent (level + 1) hne
      opens_of_mem_encodeItems).append (newline indent level ++ ']' :: rest)
    have hskip := skipSpace_append (blank_newline indent (level + 1))
      (joined indent (level + 1) (encodeItems indent (level + 1) (x :: xs)) ++
        (newline indent level ++ ']' :: rest))
    rw [hopens.skipSpace_eq] at hskip
    have hlen := congrArg List.length (container_append hne indent level '[' ']' [])
    simp only [List.append_nil, List.length_cons, List.length_append] at hlen
    unfold Enough at hn
    rw [container_append hne]
    refine scanValue_list (by rwa [hskip]) ?_
    rw [hskip]
    exact scanItems_joined ih (by omega) (blank_newline indent level)
      (delimited_newline_append indent level (by decide)) rest

/-- An object whose values are read back is read back. -/
theorem scanValue_container_dict {indent : Option ℕ} {d : List (String × Val F)}
    (hkeys : (Dict.keys d).Nodup) (ih : ∀ p ∈ d, ReadsBack indent p.2) {level n : ℕ}
    {rest : List Char} (hn : Enough n
      (container indent level '\x7b' '\x7d' (encodeFields indent (level + 1) d))) :
    scanValue n (container indent level '\x7b' '\x7d' (encodeFields indent (level + 1) d) ++ rest) =
      .ok (.dict (listedFields d), rest) := by
  obtain ⟨n, rfl⟩ := Nat.exists_eq_add_one.mpr (Nat.zero_lt_of_lt hn)
  cases d with
  | nil => rfl
  | cons p d =>
    have hne : encodeFields indent (level + 1) (p :: d) ≠ [] := List.cons_ne_nil _ _
    have hopens := (opens_joined indent (level + 1) hne
      opens_of_mem_encodeFields).append (newline indent level ++ '\x7d' :: rest)
    have hskip := skipSpace_append (blank_newline indent (level + 1))
      (joined indent (level + 1) (encodeFields indent (level + 1) (p :: d)) ++
        (newline indent level ++ '\x7d' :: rest))
    rw [hopens.skipSpace_eq] at hskip
    have hlen := congrArg List.length (container_append hne indent level '\x7b' '\x7d' [])
    simp only [List.append_nil, List.length_cons, List.length_append] at hlen
    unfold Enough at hn
    rw [container_append hne]
    refine scanValue_dict (by rwa [hskip]) ?_ (by rwa [keys_listedFields])
    rw [hskip]
    exact scanFields_joined ih (by omega) (blank_newline indent level)
      (delimited_newline_append indent level (by decide)) rest

/-- **Every object is read back**, with a list for every tuple. -/
theorem readsBack {v : Val F} (hv : Keyed v) (indent : Option ℕ) : ReadsBack indent v := by
  induction hv with
  | none =>
    intro level n rest hn hrest
    obtain ⟨n, rfl⟩ := Nat.exists_eq_add_one.mpr (Nat.zero_lt_of_lt hn)
    rfl
  | @primitive v hprim =>
    intro level n rest hn hrest
    obtain ⟨n, rfl⟩ := Nat.exists_eq_add_one.mpr (Nat.zero_lt_of_lt hn)
    cases v with
    | none | list | tuple | dict => cases hprim
    | bool b => cases b <;> rfl
    | int k => exact scanValue_int hrest k
    | float x => exact scanValue_float hrest x
    | str s => exact scanValue_str s rest
  | list _ ih => exact fun level n rest hn _ => scanValue_container_list ih hn
  | tuple _ ih => exact fun level n rest hn _ => scanValue_container_list ih hn
  | dict hkeys _ ih => exact fun level n rest hn _ => scanValue_container_dict hkeys ih hn

/-- **Round trip.**  `json.loads` gives back what `json.dumps` wrote. -/
theorem loads_dumps {v : Val F} (hv : Keyed v) (indent : Option ℕ) :
    loads (dumps indent v) = .ok (listed v) := by
  have hopens := opens_encode indent 0 v
  have hread := readsBack hv indent 0 (2 * (encode indent 0 v).length + 1) []
    (Nat.lt_succ_self _) delimited_nil
  rw [List.append_nil] at hread
  rw [loads, loadsWithin, dumps, String.toList_ofList, String.length_ofList, hopens.skipSpace_eq,
    hread]
  obtain ⟨c, cs, heq, -, -, -, hc⟩ := hopens
  rw [heq, if_neg (by simpa using hc)]
  rfl

end Json
end LdmsTest
