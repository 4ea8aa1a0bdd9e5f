import LdmsTest.Ldms.LsParse

/-!
# Rows of the meta section

`ldms_ls -v` prints a row for each set, in columns that are separated by blanks.  The pattern for
rows starts with an optional column of hexadecimal digits, and its flags may be any characters but
digits, blanks among them.

* `Row`: a row, by its columns.
* `matchCaps_metaData`: what the pattern makes of a row.
-/

namespace LdmsTest
namespace Ls

open Regex Text

/-! ## Columns -/

/-- A word: no blanks in it. -/
abbrev Word (F : Type) [PyText F] : Type :=
  {cs : List Char // cs ≠ [] ∧ ∀ c ∈ cs, space F c = false}

/-- A word of ASCII characters. -/
def asciiWord (F : Type) [PyText F] (cs : List Char) (hne : cs ≠ [])
    (h : ∀ c ∈ cs, c.toNat < 128 ∧ isAsciiSpace c = false) : Word F :=
  ⟨cs, hne, fun c hc => (PyText.space_ascii c (h c hc).1).trans (h c hc).2⟩

abbrev Letters (F : Type) [PyText F] : Type :=
  {cs : List Char // cs ≠ [] ∧ ∀ c ∈ cs, PyText.alpha F c}

abbrev HexDigits : Type :=
  {cs : List Char // cs ≠ [] ∧ ∀ c ∈ cs, Numeral.isHexDigit c}

abbrev Digits : Type :=
  {cs : List Char // cs ≠ [] ∧ ∀ c ∈ cs, c.isDigit}

/-- A text without line ends. -/
abbrev LineText : Type :=
  {cs : List Char // OneLine cs}

/-- Digits, a dot and digits. -/
structure Fraction where
  whole : Digits
  part : Digits

def Fraction.text (x : Fraction) : List Char :=
  x.whole.1 ++ '.' :: x.part.1

/-- What a class of users may do. -/
structure Access where
  read : Bool
  write : Bool
  execute : Bool

def Access.text (a : Access) : List Char :=
  [if a.read then 'r' else '-', if a.write then 'w' else '-', if a.execute then 'x' else '-']

structure Perm where
  user : Access
  group : Access
  others : Access

def Perm.text (p : Perm) : List Char :=
  '-' :: (p.user.text ++ (p.group.text ++ p.others.text))

/-- `n + 1` blanks. -/
def blanks (n : ℕ) : List Char :=
  List.replicate (n + 1) ' '

/-- A row of the meta section, with or without the digest of its schema.  `pad i + 1` blanks stand
behind column `i`. -/
structure Row (F : Type) [PyText F] where
  digest : Option HexDigits
  schema : Word F
  inst : Word F
  flags : Letters F
  msize : Digits
  dsize : Digits
  hsize : Digits
  uid : Digits
  gid : Digits
  perm : Perm
  update : Fraction
  duration : Fraction
  info : Option LineText
  pad : ℕ → ℕ

variable {F : Type} [PyText F]

namespace Row

variable (row : Row F)

/-- The columns behind the flags, up to the duration. -/
def numbers : List Char :=
  row.msize.1 ++ (blanks (row.pad 4) ++ (row.dsize.1 ++ (blanks (row.pad 5) ++
    (row.hsize.1 ++ (blanks (row.pad 6) ++ (row.uid.1 ++ (blanks (row.pad 7) ++
    (row.gid.1 ++ (blanks (row.pad 8) ++ (row.perm.text ++ (blanks (row.pad 9) ++
    (row.update.text ++ (blanks (row.pad 10) ++ row.duration.text)))))))))))))

def digestText : List Char :=
  match row.digest with
  | none => []
  | some digest => digest.1 ++ blanks (row.pad 0)

def infoText : List Char :=
  match row.info with
  | none => []
  | some info => blanks (row.pad 11) ++ info.1

/-- The row without its last column, behind the digest. -/
def columns : List Char :=
  row.schema.1 ++ (blanks (row.pad 1) ++ (row.inst.1 ++ (blanks (row.pad 2) ++
    (row.flags.1 ++ (blanks (row.pad 3) ++ row.numbers)))))

def text : List Char :=
  row.digestText ++ (row.columns ++ row.infoText)

end Row

/-! ## Characters -/

theorem space_blank : space F ' ' = true :=
  (PyText.space_ascii ' ' (by decide)).trans rfl

theorem isDecimal_blank : isDecimal F ' ' = false := by
  rw [isDecimal, PyText.decimal_ascii ' ' (by decide)]
  rfl

theorem mem_blanks {n : ℕ} {c : Char} (hc : c ∈ blanks n) : c = ' ' :=
  List.eq_of_mem_replicate hc

theorem stops_blanks {p : Char → Bool} (hp : p ' ' = false) (n : ℕ) (cs : List Char) :
    Stops p (blanks n ++ cs) :=
  stops_cons hp _

theorem isDecimal_of_isDigit {c : Char} (hc : c.isDigit) : isDecimal F c = true := by
  rw [isDecimal, decimal_of_isDigit hc]
  rfl

theorem Digits.isDecimal (x : Digits) : ∀ c ∈ x.1, Ls.isDecimal F c = true :=
  fun c hc => isDecimal_of_isDigit (x.2.2 c hc)

theorem Digits.not_space (x : Digits) : ∀ c ∈ x.1, space F c = false :=
  fun c hc => space_of_isDigit (x.2.2 c hc)

/-- A text that starts with digits. -/
theorem Digits.stops (x : Digits) {p : Char → Bool} (hp : ∀ c : Char, c.isDigit → p c = false)
    (cs : List Char) : Stops p (x.1 ++ cs) := by
  obtain ⟨d, ds, hx⟩ := List.exists_cons_of_ne_nil x.2.1
  rw [hx]
  exact stops_cons (hp d (x.2.2 d (hx ▸ List.mem_cons_self))) _

theorem Digits.stops_space (x : Digits) (cs : List Char) : Stops (space F) (x.1 ++ cs) :=
  x.stops (fun _ hc => space_of_isDigit hc) cs

theorem Word.stops_space (x : Word F) (cs : List Char) : Stops (space F) (x.1 ++ cs) := by
  obtain ⟨d, ds, hx⟩ := List.exists_cons_of_ne_nil x.2.1
  rw [hx]
  exact stops_cons (x.2.2 d (hx ▸ List.mem_cons_self)) _

/-! ## The numbers -/

theorem isSpace_of_mem_blanks {n : ℕ} : ∀ c ∈ blanks n, space F c = true := by
  intro c hc
  rw [mem_blanks hc]
  exact space_blank

theorem not_isDecimal_of_mem_blanks {n : ℕ} : ∀ c ∈ blanks n, isDecimal F c = false := by
  intro c hc
  rw [mem_blanks hc]
  exact isDecimal_blank

/-- A column of digits before one that starts with a digit. -/
theorem first_digits (x : Digits) (n : ℕ) {rest : List Char} (hrest : Stops (space F) rest)
    {q : Char → Bool} {rs : List (Regex Group)} {k : Regex.Cursor Group → Option Caps}
    (hk : Needs q (first (cat rs) k)) (hq : q ' ' = false) (g : Group) (start : Bool) (caps : Caps) :
    first (cat (group g (plus (isDecimal F)) :: plus (space F) :: rs)) k
      ⟨start, x.1 ++ (blanks n ++ rest), caps⟩ =
      first (cat rs) k ⟨false, rest, (g, x.1) :: caps⟩ :=
  (forced_plus x.isDecimal x.2.1 isDecimal_blank x.not_space).column isSpace_of_mem_blanks hrest hk
    (fun _ hc => mem_blanks hc ▸ hq) g start caps

theorem Access.first_access (a : Access) {k : Regex.Cursor Group → Option Caps} (start : Bool)
    (cs : List Char) (caps : Caps) :
    first access k ⟨start, a.text ++ cs, caps⟩ = k ⟨false, cs, caps⟩ := by
  obtain ⟨r, w, x⟩ := a
  cases r <;> cases w <;> cases x <;> rfl

theorem forced_permission (p : Perm) : Forced Caps (space F) ' ' permission p.text := by
  intro k start b caps _
  have hlit : first (lit ['-']) (first (cat [times 3 access]) k)
      ⟨start, ['-'] ++ (p.user.text ++ (p.group.text ++ (p.others.text ++ ' ' :: b))), caps⟩ = _ :=
    first_lit _ _
  have htext : p.text ++ ' ' :: b =
      ['-'] ++ (p.user.text ++ (p.group.text ++ (p.others.text ++ ' ' :: b))) := by
    simp [Perm.text]
  rw [permission, first_cat_cons, htext, hlit, first_cat_cons, times, first_cat_nil]
  rw [List.replicate, List.replicate, List.replicate, List.replicate, first_cat_cons,
    Access.first_access, first_cat_cons, Access.first_access, first_cat_cons, Access.first_access,
    first_cat_nil]

theorem digit_ne_dot {c : Char} (hc : c.isDigit) : decide (c = '.') = false := by
  simp only [decide_eq_false_iff_not]
  rintro rfl
  exact absurd hc (by decide)

theorem isDecimal_dot : isDecimal F '.' = false := by
  rw [isDecimal, PyText.decimal_ascii '.' (by decide)]
  rfl

/-- Digits, a dot, and what follows. -/
theorem first_whole (x : Fraction) {k : Regex.Cursor Group → Option Caps} (start : Bool)
    (cs : List Char)
    (caps : Caps) : first (fraction F) k ⟨start, x.text ++ cs, caps⟩ =
      first (plus (isDecimal F)) k ⟨false, x.part.1 ++ cs, caps⟩ := by
  have hlit : first (lit ['.']) (first (plus (isDecimal F)) k)
      ⟨false, ['.'] ++ (x.part.1 ++ cs), caps⟩ = _ := first_lit _ _
  have hwhole : first (plus (isDecimal F)) (first (lit ['.']) (first (plus (isDecimal F)) k))
      ⟨start, x.whole.1 ++ '.' :: (x.part.1 ++ cs), caps⟩ = _ :=
    first_plus_eq x.whole.isDecimal x.whole.2.1 (stops_cons isDecimal_dot _) (needs_lit _)
      fun c hc => digit_ne_dot (x.whole.2.2 c hc)
  have htext : x.text ++ cs = x.whole.1 ++ '.' :: (x.part.1 ++ cs) := by
    simp [Fraction.text]
  rw [fraction, htext]
  exact hwhole.trans hlit

theorem forced_fraction (x : Fraction) : Forced Caps (space F) ' ' (fraction F) x.text := by
  intro k start b caps hk
  rw [first_whole]
  exact first_plus_eq x.part.isDecimal x.part.2.1 (stops_cons isDecimal_blank b) hk
    x.part.not_space

/-- The match ends here. -/
def final : Regex.Cursor Group → Option Caps :=
  fun st => some st.caps

section Needs

variable {k : Regex.Cursor Group → Option Caps}

theorem needs_digits (g : Group) (rs : List (Regex Group)) :
    Needs (isDecimal F) (first (cat (group g (plus (isDecimal F)) :: rs)) k) :=
  needs_cat (needs_group (needs_plus (isDecimal F)) g) rs k

theorem needs_fraction (g : Group) (rs : List (Regex Group)) :
    Needs (isDecimal F) (first (cat (group g (fraction F) :: rs)) k) :=
  needs_cat (needs_group (needs_cat (needs_plus (isDecimal F)) _) g) rs k

theorem needs_permission (g : Group) (rs : List (Regex Group)) :
    Needs (fun c => c = '-') (first (cat (group g permission :: rs)) k) :=
  needs_cat (needs_group (needs_cat needs_lit _) g) rs k

end Needs

theorem space_dash : space F '-' = false :=
  (PyText.space_ascii '-' (by decide)).trans rfl

theorem Perm.stops_space (p : Perm) (cs : List Char) : Stops (space F) (p.text ++ cs) :=
  stops_cons space_dash _

theorem Fraction.stops_space (x : Fraction) (cs : List Char) : Stops (space F) (x.text ++ cs) := by
  rw [Fraction.text, List.append_assoc]
  exact x.whole.stops_space _

/-- What stands behind the numbers of a row. -/
def IsTail (t : List Char) : Prop :=
  t = [] ∨ ∃ cs, t = ' ' :: cs

/-- The captures of the numbers. -/
def Row.numberCaps (row : Row F) : Caps :=
  [(.metaDuration, row.duration.text), (.metaUpdate, row.update.text), (.metaPerm, row.perm.text),
    (.metaGid, row.gid.1), (.metaUid, row.uid.1), (.metaHsize, row.hsize.1),
    (.metaDsize, row.dsize.1), (.metaMsize, row.msize.1)]

/-- The duration and what stands behind it. -/
theorem first_duration (x : Fraction) {t : List Char} (ht : IsTail t) (start : Bool) (caps : Caps) :
    ∃ m, first (cat [group .metaDuration (fraction F),
        opt (cat [plus (space F), group .metaInfo (star isDot)])]) final ⟨start, x.text ++ t, caps⟩ =
        some m ∧
      ∀ g, g ≠ .metaInfo → captured m g = captured ((.metaDuration, x.text) :: caps) g := by
  have hstop : Stops (isDecimal F) t := by
    rcases ht with rfl | ⟨cs, rfl⟩
    · exact stops_nil _
    · exact stops_cons isDecimal_blank cs
  have hsome : (first (cat [opt (cat [plus (space F), group Group.metaInfo (star isDot)])]) final
      ⟨false, t, (.metaDuration, x.text) :: caps⟩).isSome := by
    rw [first_cat_cons, first_opt, Option.isSome_or, Bool.or_eq_true]
    exact .inr rfl
  obtain ⟨m, hm⟩ := Option.isSome_iff_exists.mp hsome
  refine ⟨m, ?_, ?_⟩
  · rw [first_cat_cons, first, first_whole]
    refine first_plus_of_some x.part.isDecimal x.part.2.1 hstop ?_
    rw [Regex.Cursor.capture_append]
    exact hm
  · intro g hg
    obtain ⟨st, hst, hcaps⟩ := exists_parses_of_first hm
    obtain rfl := Option.some_inj.mp hcaps
    refine hst.captured_of_not_mem ?_
    simp [cat, opt, plus, groups, hg]

/-- **The numbers of a row** are captured, whatever stands behind them. -/
theorem first_metaNumbers (row : Row F) {t : List Char} (ht : IsTail t) (start : Bool)
    (caps : Caps) : ∃ m, first (metaNumbers F) final ⟨start, row.numbers ++ t, caps⟩ = some m ∧
      ∀ g, g ≠ .metaInfo → captured m g = captured (row.numberCaps ++ caps) g := by
  obtain ⟨m, hm, hcaptured⟩ := first_duration (F := F) row.duration ht false
    ((.metaUpdate, row.update.text) :: (.metaPerm, row.perm.text) :: (.metaGid, row.gid.1) ::
      (.metaUid, row.uid.1) :: (.metaHsize, row.hsize.1) :: (.metaDsize, row.dsize.1) ::
      (.metaMsize, row.msize.1) :: caps)
  refine ⟨m, ?_, hcaptured⟩
  simp only [Row.numbers, List.append_assoc]
  rw [metaNumbers,
    first_digits _ _ (row.dsize.stops_space _) (needs_digits _ _) isDecimal_blank,
    first_digits _ _ (row.hsize.stops_space _) (needs_digits _ _) isDecimal_blank,
    first_digits _ _ (row.uid.stops_space _) (needs_digits _ _) isDecimal_blank,
    first_digits _ _ (row.gid.stops_space _) (needs_digits _ _) isDecimal_blank,
    first_digits _ _ (row.perm.stops_space _) (needs_permission _ _) (by decide)]
  refine ((forced_permission row.perm).column isSpace_of_mem_blanks (row.update.stops_space _)
    (needs_fraction (F := F) _ _) not_isDecimal_of_mem_blanks _ _ _).trans ?_
  refine ((forced_fraction row.update).column isSpace_of_mem_blanks (row.duration.stops_space _)
    (needs_fraction (F := F) _ _) not_isDecimal_of_mem_blanks _ _ _).trans ?_
  exact hm

/-! ## The whole row -/

theorem isNonSpace_blank : isNonSpace F ' ' = false := by
  rw [isNonSpace, space_blank, Bool.not_true]

theorem isNonDecimal_blank : isNonDecimal F ' ' = true := by
  rw [isNonDecimal, isDecimal_blank, Bool.not_false]

theorem isNonDecimal_of_isDigit {c : Char} (hc : c.isDigit) : isNonDecimal F c = false := by
  rw [isNonDecimal, isDecimal_of_isDigit hc, Bool.not_true]

theorem Word.isNonSpace (x : Word F) : ∀ c ∈ x.1, Ls.isNonSpace F c = true := by
  intro c hc
  rw [Ls.isNonSpace, x.2.2 c hc, Bool.not_false]

/-- Letters are a word. -/
def Letters.word (x : Letters F) : Word F :=
  ⟨x.1, x.2.1, fun c hc => PyText.space_of_alpha c (x.2.2 c hc)⟩

theorem Letters.isNonDecimal (x : Letters F) : ∀ c ∈ x.1, Ls.isNonDecimal F c = true := by
  intro c hc
  rw [Ls.isNonDecimal, isDecimal, PyText.decimal_of_alpha c (x.2.2 c hc)]
  rfl

/-- A word before a blank. -/
theorem Word.forced (x : Word F) : Forced (γ := Group) Caps (space F) ' ' (plus (Ls.isNonSpace F)) x.1 :=
  forced_plus x.isNonSpace x.2.1 isNonSpace_blank x.2.2

theorem needs_word (g : Group) (rs : List (Regex Group)) {k : Regex.Cursor Group → Option Caps} :
    Needs (isNonSpace F) (first (cat (group g (plus (isNonSpace F)) :: rs)) k) :=
  needs_cat (needs_group (needs_plus (isNonSpace F)) g) rs k

/-- A column of a word before one of a word. -/
theorem first_word (x : Word F) (n : ℕ) {rest : List Char} (hrest : Stops (space F) rest)
    (g g' : Group) {rs : List (Regex Group)} {k : Regex.Cursor Group → Option Caps} (start : Bool)
    (caps : Caps) :
    first (cat (group g (plus (isNonSpace F)) :: plus (space F) ::
      group g' (plus (isNonSpace F)) :: rs)) k ⟨start, x.1 ++ (blanks n ++ rest), caps⟩ =
      first (cat (group g' (plus (isNonSpace F)) :: rs)) k ⟨false, rest, (g, x.1) :: caps⟩ :=
  x.forced.column isSpace_of_mem_blanks hrest (needs_word g' rs)
    (fun _ hc => mem_blanks hc ▸ isNonSpace_blank) g start caps

section Flags

variable {b : List Char} (hb : Stops (space F) b) (hb' : Stops (isNonDecimal F) b)
  {k : Regex.Cursor Group → Option Caps} {start : Bool} {caps : Caps}

include hb hb'

/-- The flags take all but the last blank. -/
theorem first_flags_last {a : List Char} (ha : ∀ c ∈ a, isNonDecimal F c) (hne : a ≠ []) {m : Caps}
    (hk : k ⟨false, b, (.metaFlags, a) :: caps⟩ = some m) :
    first (group .metaFlags (plus (isNonDecimal F))) (first (plus (space F)) k)
      ⟨start, a ++ ([' '] ++ b), caps⟩ = some m := by
  refine first_group_plus_last ha hne (by simpa using isNonDecimal_blank) hb' ?_ ?_
  · intro x y hxy hx caps
    obtain ⟨-, rfl⟩ : x = [' '] ∧ y = [] := by
      rcases List.append_eq_singleton_iff.mp hxy.symm with ⟨rfl, -⟩ | h
      · exact absurd rfl hx
      · exact h
    exact (needs_plus (space F) k).eq_none hb _ _
  · exact first_plus_of_some (by simpa using space_blank) (by simp) hb hk

/-- One blank is too few for flags and what separates them. -/
theorem first_flags_eq_none {sp : List Char} (hsp : sp.length < 2) :
    first (group .metaFlags (plus (isNonDecimal F))) (first (plus (space F)) k)
      ⟨start, sp ++ b, caps⟩ = none := by
  rw [← Option.not_isSome_iff_eq_none]
  intro hsome
  obtain ⟨m, hm⟩ := Option.isSome_iff_exists.mp hsome
  obtain ⟨_, ⟨mid, hmid, rfl⟩, hm⟩ := exists_parses_of_first hm
  obtain ⟨x, hne, hx, hrest⟩ := hmid.of_plus
  obtain ⟨y, rfl, hy⟩ := hb'.exists_of_append hx hrest
  obtain ⟨_, hparse, -⟩ := exists_parses_of_first hm
  obtain ⟨z, hne', hz, hrest'⟩ := hparse.of_plus
  obtain ⟨w, rfl, -⟩ := hb.exists_of_append hz (hy.symm.trans hrest')
  have h1 := List.length_pos_of_ne_nil hne
  have h2 := List.length_pos_of_ne_nil hne'
  simp only [List.length_append] at hsp
  omega

/-- Two blanks are too few for flags and what separates them on both sides. -/
theorem first_spaced_flags_eq_none {sp : List Char} (hsp : sp.length < 3) :
    first (plus (space F)) (first (group .metaFlags (plus (isNonDecimal F)))
      (first (plus (space F)) k)) ⟨start, sp ++ b, caps⟩ = none := by
  rw [← Option.not_isSome_iff_eq_none]
  intro hsome
  obtain ⟨m, hm⟩ := Option.isSome_iff_exists.mp hsome
  obtain ⟨⟨start', rest, caps'⟩, hparse, hm⟩ := exists_parses_of_first hm
  obtain ⟨x, hne, hx, hrest⟩ := hparse.of_plus
  obtain ⟨y, rfl, hy⟩ := hb.exists_of_append hx hrest
  obtain rfl : rest = y ++ b := hy
  have h1 := List.length_pos_of_ne_nil hne
  rw [first_flags_eq_none hb hb' (by simp only [List.length_append] at hsp; omega)] at hm
  cases hm

end Flags

/-- `_META_DATA` behind the digest. -/
def metaColumns (F : Type) [PyText F] : Regex Group :=
  cat [group .metaSchema (plus (isNonSpace F)), plus (space F),
    group .metaInst (plus (isNonSpace F)), plus (space F),
    group .metaFlags (plus (isNonDecimal F)), plus (space F),
    metaNumbers F]

/-- The optional digest. -/
def metaDigest (F : Type) [PyText F] : Regex Group :=
  cat [group .metaSchemaDigest (plus Numeral.isHexDigit), plus (space F)]

theorem matchCaps_metaData_eq (cs : List Char) :
    matchCaps (metaData F) cs =
      (first (metaDigest F) (first (metaColumns F) final) ⟨true, cs, []⟩).or
        (first (metaColumns F) final ⟨true, cs, []⟩) := by
  rw [matchCaps, metaData, first_cat_cons, first_opt]
  rfl

namespace Row

variable (row : Row F)

/-- The captures of a row. -/
def caps : Caps :=
  row.numberCaps ++ [(.metaFlags, row.flags.1 ++ List.replicate (row.pad 3) ' '),
    (.metaInst, row.inst.1), (.metaSchema, row.schema.1)]

theorem stops_numbers (t : List Char) {p : Char → Bool} (hp : ∀ c : Char, c.isDigit → p c = false) :
    Stops p (row.numbers ++ t) := by
  rw [numbers, List.append_assoc]
  exact row.msize.stops hp _

theorem stops_space_numbers (t : List Char) : Stops (space F) (row.numbers ++ t) :=
  row.stops_numbers t fun _ hc => space_of_isDigit hc

theorem stops_isNonDecimal_numbers (t : List Char) : Stops (isNonDecimal F) (row.numbers ++ t) :=
  row.stops_numbers t fun _ hc => isNonDecimal_of_isDigit hc

end Row

/-- The last word before something that may go on with a blank. -/
theorem first_last_word (x : Word F) (n : ℕ) (rest : List Char) (g : Group)
    {k : Regex.Cursor Group → Option Caps} (start : Bool) (caps : Caps) :
    first (group g (plus (isNonSpace F))) (first (plus (space F)) k)
      ⟨start, x.1 ++ (blanks n ++ rest), caps⟩ =
      first (plus (space F)) k ⟨false, blanks n ++ rest, (g, x.1) :: caps⟩ :=
  first_group_plus_eq x.isNonSpace x.2.1 (stops_blanks isNonSpace_blank _ _) (needs_plus _ _) x.2.2

theorem Letters.stops_space (x : Letters F) (cs : List Char) : Stops (space F) (x.1 ++ cs) :=
  x.word.stops_space cs

/-- The columns behind the digest. -/
theorem first_metaColumns (row : Row F) {t : List Char} (ht : IsTail t) (start : Bool)
    (caps : Caps) : ∃ m, first (metaColumns F) final ⟨start, row.columns ++ t, caps⟩ = some m ∧
      ∀ g, g ≠ .metaInfo → captured m g = captured (row.caps ++ caps) g := by
  obtain ⟨m, hm, hcaptured⟩ := first_metaNumbers row ht false
    ((.metaFlags, row.flags.1 ++ List.replicate (row.pad 3) ' ') :: (.metaInst, row.inst.1) ::
      (.metaSchema, row.schema.1) :: caps)
  refine ⟨m, ?_, hcaptured⟩
  have hflags : row.flags.1 ++ (blanks (row.pad 3) ++ (row.numbers ++ t)) =
      (row.flags.1 ++ List.replicate (row.pad 3) ' ') ++ ([' '] ++ (row.numbers ++ t)) := by
    simp [blanks, List.replicate_succ']
  simp only [Row.columns, List.append_assoc]
  rw [metaColumns, first_word _ _ (row.inst.stops_space _), first_cat_cons, first_cat_cons,
    first_last_word]
  refine first_plus_of_some isSpace_of_mem_blanks (List.cons_ne_nil _ _)
    (row.flags.stops_space _) ?_
  rw [hflags]
  refine first_flags_last (row.stops_space_numbers t) (row.stops_isNonDecimal_numbers t) ?_ ?_ hm
  · intro c hc
    rcases List.mem_append.mp hc with hc | hc
    · exact row.flags.isNonDecimal c hc
    · rw [List.eq_of_mem_replicate hc]
      exact isNonDecimal_blank
  · simp [row.flags.2.1]

/-! ## The digest -/

theorem isHexDigit_blank : Numeral.isHexDigit ' ' = false := by
  decide

/-- The schema is taken for a digest: it looks like one, and there are blanks enough behind the
flags for one of them to be taken for flags. -/
def Row.Shifts (row : Row F) : Prop :=
  row.digest = none ∧ (∀ c ∈ row.schema.1, Numeral.isHexDigit c) ∧ 2 ≤ row.pad 3

instance (row : Row F) : Decidable row.Shifts :=
  inferInstanceAs (Decidable (_ ∧ _ ∧ _))

/-- A schema that looks like a digest, the instance and the flags, one column further to the left
each. -/
theorem first_metaDigest (row : Row F) (hhex : ∀ c ∈ row.schema.1, Numeral.isHexDigit c)
    (t : List Char) :
    first (metaDigest F) (first (metaColumns F) final) ⟨true, row.columns ++ t, []⟩ =
      first (plus (space F)) (first (group .metaFlags (plus (isNonDecimal F)))
        (first (plus (space F)) (first (metaNumbers F) final)))
        ⟨false, blanks (row.pad 3) ++ (row.numbers ++ t),
          [(.metaInst, row.flags.1), (.metaSchema, row.inst.1),
            (.metaSchemaDigest, row.schema.1)]⟩ := by
  have hblanks : first (plus (space F)) (first (metaColumns F) final) ⟨false, blanks (row.pad 1) ++
      (row.inst.1 ++ (blanks (row.pad 2) ++ (row.flags.1 ++ (blanks (row.pad 3) ++
        (row.numbers ++ t))))), [(.metaSchemaDigest, row.schema.1)]⟩ = _ :=
    first_plus_eq isSpace_of_mem_blanks (List.cons_ne_nil _ _) (row.inst.stops_space _)
      (needs_word _ _) fun _ hc => mem_blanks hc ▸ isNonSpace_blank
  simp only [Row.columns, List.append_assoc]
  rw [metaDigest, first_cat_cons, first_cat_cons, first_cat_nil, first_group_plus_eq hhex
    row.schema.2.1 (stops_blanks isHexDigit_blank _ _) (needs_plus _ _) row.schema.2.2]
  refine hblanks.trans ?_
  rw [metaColumns, first_word _ _ (row.flags.stops_space _), first_cat_cons]
  exact first_last_word row.flags.word _ _ _ _ _

/-- A schema that does not look like a digest is not taken for one. -/
theorem first_metaDigest_eq_none (row : Row F) (hhex : ¬ ∀ c ∈ row.schema.1, Numeral.isHexDigit c)
    (t : List Char) {k : Regex.Cursor Group → Option Caps} :
    first (metaDigest F) k ⟨true, row.columns ++ t, []⟩ = none := by
  rw [metaDigest, first_cat_cons, first]
  refine first_plus_eq_none ((needs_plus (space F) _).capture _ _) ?_
  intro x y hxy hne hx
  rw [Row.columns, List.append_assoc] at hxy
  rcases List.append_eq_append_iff.mp hxy with ⟨z, rfl, -⟩ | ⟨z, hz, rfl⟩
  · exact absurd (fun c hc => hx c (List.mem_append_left z hc)) hhex
  · rcases z with _ | ⟨d, z⟩
    · rw [List.append_nil] at hz
      exact absurd (hz ▸ hx) hhex
    · exact stops_cons (row.schema.2.2 d (by simp [hz])) _

/-- **A row** is read column by column, unless its schema is taken for a digest. -/
theorem matchCaps_metaData {row : Row F} (hrow : ¬ row.Shifts) {t : List Char} (ht : IsTail t) :
    ∃ m, matchCaps (metaData F) (row.digestText ++ (row.columns ++ t)) = some m ∧
      ∀ g, g ≠ .metaInfo → g ≠ .metaSchemaDigest → captured m g = captured row.caps g := by
  rw [matchCaps_metaData_eq]
  rcases hdigest : row.digest with _ | digest
  · obtain ⟨m, hm, hcaptured⟩ := first_metaColumns row ht true []
    have hnone : first (metaDigest F) (first (metaColumns F) final)
        ⟨true, row.columns ++ t, []⟩ = none := by
      by_cases hhex : ∀ c ∈ row.schema.1, Numeral.isHexDigit c
      · have hpad : row.pad 3 < 2 := by
          by_contra hpad
          exact hrow ⟨hdigest, hhex, by omega⟩
        rw [first_metaDigest row hhex]
        exact first_spaced_flags_eq_none (row.stops_space_numbers t)
          (row.stops_isNonDecimal_numbers t) (by simp [blanks]; omega)
      · exact first_metaDigest_eq_none row hhex t
    refine ⟨m, ?_, ?_⟩
    · rw [Row.digestText, hdigest, List.nil_append, hnone, Option.none_or, hm]
    · intro g hg _
      rw [hcaptured g hg, List.append_nil]
  · obtain ⟨m, hm, hcaptured⟩ := first_metaColumns row ht false [(.metaSchemaDigest, digest.1)]
    have hcolumns : Stops (space F) (row.columns ++ t) := by
      rw [Row.columns, List.append_assoc]
      exact row.schema.stops_space _
    have hdigits : first (metaDigest F) (first (metaColumns F) final)
        ⟨true, digest.1 ++ (blanks (row.pad 0) ++ (row.columns ++ t)), []⟩ = some m := by
      rw [metaDigest, first_cat_cons, first_cat_cons, first_cat_nil]
      refine first_group_plus_of_some digest.2.2 digest.2.1 (stops_blanks isHexDigit_blank _ _) ?_
      exact first_plus_of_some isSpace_of_mem_blanks (List.cons_ne_nil _ _) hcolumns hm
    refine ⟨m, ?_, ?_⟩
    · rw [Row.digestText, hdigest, List.append_assoc, hdigits, Option.some_or]
    · intro g hg hg'
      rw [hcaptured g hg]
      simp only [captured, List.lookup_append]
      rw [List.lookup_cons, beq_eq_false_iff_ne.mpr hg']
      simp

/-- A row whose schema is taken for a digest: its columns are read one further to the left, and a
blank for its flags. -/
theorem matchCaps_metaData_of_shifts {row : Row F} (hrow : row.Shifts) {t : List Char}
    (ht : IsTail t) : ∃ m, matchCaps (metaData F) (row.digestText ++ (row.columns ++ t)) = some m ∧
      captured m .metaInst = row.flags.1 ∧ captured m .metaFlags = [' '] := by
  obtain ⟨hdigest, hhex, hpad⟩ := hrow
  obtain ⟨m, hm, hcaptured⟩ := first_metaNumbers row ht false
    [(.metaFlags, [' ']), (.metaInst, row.flags.1), (.metaSchema, row.inst.1),
      (.metaSchemaDigest, row.schema.1)]
  have hstop := row.stops_space_numbers t
  have hstop' := row.stops_isNonDecimal_numbers t
  have hblanks : blanks (row.pad 3) ++ (row.numbers ++ t) =
      List.replicate (row.pad 3 - 1) ' ' ++ ([' ', ' '] ++ (row.numbers ++ t)) := by
    obtain ⟨n, hn⟩ := Nat.exists_eq_add_of_le' hpad
    simp [blanks, hn, List.replicate_succ']
  refine ⟨m, ?_, ?_, ?_⟩
  · rw [matchCaps_metaData_eq, Row.digestText, hdigest, List.nil_append, first_metaDigest row hhex,
      hblanks]
    refine Option.or_eq_some_iff.mpr (.inl (first_plus_last ?_ ?_ ?_ hstop ?_ ?_))
    · intro c hc
      rw [List.eq_of_mem_replicate hc]
      exact space_blank
    · simp; omega
    · simpa using space_blank
    · intro x y hxy hx
      refine first_flags_eq_none hstop hstop' ?_
      have hlen := congrArg List.length hxy
      have hpos := List.length_pos_of_ne_nil hx
      simp only [List.length_append, List.length_cons, List.length_nil] at hlen
      omega
    · exact first_flags_last (a := [' ']) hstop hstop' (by simpa using isNonDecimal_blank) (by simp) hm
  · rw [hcaptured _ (by simp)]
    rfl
  · rw [hcaptured _ (by simp)]
    rfl

end Ls
end LdmsTest
