import LdmsTest.Ldms.LsRow

/-!
# The meta section

With `-v`, `ldms_ls` prints a title, a row for each set and a summary, between lines of dashes, and
a line of equals signs behind them.

* `MetaSection`: what is printed.
* `foldlM_step_rows`: what the reader makes of the rows.
* `recovers_iff`: the rows that were printed are read again exactly if one blank stands behind the
  flags of each, and none is taken for a line of another kind.
-/

namespace LdmsTest
namespace Ls

open Regex Text

variable {F : Type} [PyText F]

/-! ## What the alternatives ask for -/

/-- A key is followed by a blank and a colon. -/
theorem exists_of_matches_preMeta {l : List Char} (h : Matches (preMetaKV F) l) :
    ∃ a s b, l = a ++ s :: ':' :: b ∧ space F s := by
  obtain ⟨st, hst⟩ := matches_iff.mp h
  obtain ⟨_, ⟨-, rfl⟩, mid, hkey, mid', hblanks, mid'', hcolon, -⟩ := hst
  obtain ⟨x, hne, hx, hrest⟩ := hblanks.of_plus
  obtain ⟨a, ha⟩ := hkey.taken.1
  obtain rfl | ⟨y, s, rfl⟩ := List.eq_nil_or_concat x
  · exact absurd rfl hne
  · refine ⟨a ++ y, s, mid''.rest, ?_, hx s (by simp)⟩
    have hl : l = a ++ mid.rest := ha.symm
    rw [hl, hrest, hcolon.of_lit]
    simp

/-- A title has a blank behind its first word. -/
theorem exists_space_of_matches_metaBegin {l : List Char} (h : Matches (metaBegin F) l) :
    ∃ s cs, l = "Schema".toList ++ s :: cs ∧ space F s := by
  obtain ⟨st, _, ⟨mid, hdigest, mid', hschema, mid'', hblanks, -⟩, -⟩ := matches_iff.mp h
  rcases hdigest with ⟨mid₀, hdigest, -⟩ | heps
  · exact ⟨' ', "Digest".toList ++ mid₀.rest, hdigest.of_lit, space_blank⟩
  · obtain rfl : mid = _ := heps
    obtain ⟨x, hne, hx, hrest⟩ := hblanks.of_plus
    obtain ⟨s, x, rfl⟩ := List.exists_cons_of_ne_nil hne
    refine ⟨s, x ++ mid''.rest, ?_, hx s List.mem_cons_self⟩
    have hl : l = "Schema".toList ++ mid'.rest := hschema.of_lit
    rw [hl, hrest, List.cons_append]

theorem exists_of_matches_metaSummary {l : List Char} (h : Matches (metaSummary F) l) :
    ∃ cs, l = 'T' :: cs := by
  obtain ⟨st, _, htotal, -⟩ := matches_iff.mp h
  exact ⟨_, htotal.of_lit⟩

theorem of_matches_metaDashes {l : List Char} (h : Matches metaDashes l) :
    ∀ c ∈ l, c = ' ' ∨ c = '-' ∨ c = '\n' := by
  obtain ⟨st, _, ⟨-, rfl⟩, _, ⟨mid, hdashes, rfl⟩, _, ⟨hend, rfl⟩, -⟩ := matches_iff.mp h
  obtain ⟨x, -, hx, hrest⟩ := hdashes.of_plus
  have hl : l = x ++ mid.rest := hrest
  intro c hc
  rw [hl] at hc
  rcases List.mem_append.mp hc with hc | hc
  · have hdash := hx c hc
    simp only [Bool.or_eq_true, decide_eq_true_eq] at hdash
    tauto
  · rcases hend with hend | hend <;> replace hend : mid.rest = _ := hend
    · simp [hend] at hc
    · simp only [hend, List.mem_singleton] at hc
      exact .inr (.inr hc)

/-- A row has blanks between its columns. -/
theorem exists_space_of_matches_metaData {l : List Char} (h : Matches (metaData F) l) :
    ∃ c ∈ l, space F c := by
  obtain ⟨st, mid, hdigest, mid₁, hschema, mid₂, hblanks, -⟩ := matches_iff.mp h
  obtain ⟨x, hne, hx, hrest⟩ := hblanks.of_plus
  obtain ⟨c, x, rfl⟩ := List.exists_cons_of_ne_nil hne
  have hsuffix : mid₁.rest <:+ l := hschema.taken.1.trans hdigest.taken.1
  exact ⟨c, hsuffix.subset (by simp [hrest]), hx c List.mem_cons_self⟩

/-! ## What is printed -/

/-- A line of dashes, with blanks between them. -/
abbrev Rule : Type :=
  {cs : List Char // cs.head? = some '-' ∧ cs.getLast? = some '-' ∧ ∀ c ∈ cs, c = ' ' ∨ c = '-'}

/-- The output of `ldms_ls -v`, with one row for each set.  `pad i + 1` blanks stand behind column
`i` of the title, and a size may be printed with a colon or without. -/
structure MetaSection (F : Type) [PyText F] where
  digestTitle : Bool
  pad : ℕ → ℕ
  rule : Rule
  rows : List (Row F)
  nodup : (rows.map fun row => row.inst.1).Nodup
  metaSz : Fraction
  dataSz : Fraction
  memSz : Fraction
  colon : ℕ → Bool
  width : ℕ

namespace MetaSection

variable (sect : MetaSection F)

/-- The titles between the flags and the last column. -/
def numberTitles : List Char :=
  (["Msize", "Dsize", "Hsize", "UID", "GID", "Perm", "Update", "Duration"].mapIdx fun i name =>
    blanks (sect.pad (3 + i)) ++ name.toList).flatten

def title : List Char :=
  (if sect.digestTitle then "Schema Digest".toList ++ blanks (sect.pad 0) else []) ++
    ("Schema".toList ++ (blanks (sect.pad 1) ++ ("Instance".toList ++ (blanks (sect.pad 2) ++
      ("Flags".toList ++ (sect.numberTitles ++ (blanks (sect.pad 11) ++ "Info".toList)))))))

/-- What stands behind `(kB)`. -/
def colonText (i : ℕ) : List Char :=
  if sect.colon i then [':'] else []

def summary : List Char :=
  "Total Sets: ".toList ++ (Nat.toDigits 10 sect.rows.length ++
    (", ".toList ++ ("Meta Data (kB)".toList ++ (sect.colonText 0 ++ ([' '] ++ (sect.metaSz.text ++
    (", ".toList ++ ("Data (kB)".toList ++ (sect.colonText 1 ++ ([' '] ++ (sect.dataSz.text ++
    (", ".toList ++ ("Memory (kB)".toList ++ (sect.colonText 2 ++ ([' '] ++
      sect.memSz.text)))))))))))))))

def lines : List (List Char) :=
  [sect.title, sect.rule.1] ++ (sect.rows.map Row.text ++
    [sect.rule.1, sect.summary, [], List.replicate (sect.width + 1) '=', []])

end MetaSection

/-- The row as it is matched. -/
def Row.line (row : Row F) : List Char :=
  Val.strip F row.text

/-- The row that was printed is found under its instance. -/
def Row.Recovered (row : Row F) (ret : Dict (List Char) (SetDict F)) : Prop :=
  ∃ m, (Dict.get? ret row.inst.1).bind SetDict.metaDict = some m ∧ m.schema = row.schema.1 ∧
    m.inst = row.inst.1 ∧ m.flags = row.flags.1 ∧ m.metaSz = row.msize.1 ∧ m.dataSz = row.dsize.1 ∧
    m.heapSz = row.hsize.1 ∧ m.uid = row.uid.1 ∧ m.gid = row.gid.1 ∧
    m.update = row.update.text ∧ m.duration = row.duration.text

/-- The row is not taken for a line of another kind. -/
def Row.Plain (row : Row F) : Prop :=
  ¬ Matches (preMetaKV F) row.line ∧ ¬ Matches (metaBegin F) row.line

instance (row : Row F) : Decidable row.Plain :=
  inferInstanceAs (Decidable (_ ∧ _))

/-! ## One line of the section -/

theorem exists_isDigit (x : Digits) : ∃ c ∈ x.1, c.isDigit := by
  obtain ⟨d, ds, hx⟩ := List.exists_cons_of_ne_nil x.2.1
  have hd : d ∈ x.1 := hx ▸ List.mem_cons_self
  exact ⟨d, hd, x.2.2 d hd⟩

theorem Fraction.exists_getLast (x : Fraction) : ∃ d, x.text.getLast? = some d ∧ d.isDigit := by
  obtain ⟨ds, d, hpart⟩ := (List.eq_nil_or_concat' x.part.1).resolve_left x.part.2.1
  exact ⟨d, by simp [Fraction.text, hpart, List.getLast?_cons], x.part.2.2 d (by simp [hpart])⟩

namespace Row

variable (row : Row F)

theorem rstrip_columns : rstrip F row.columns = row.columns := by
  obtain ⟨d, hlast, hd⟩ := row.duration.exists_getLast
  refine rstrip_eq_self ?_
  intro c hc
  simp only [columns, numbers, List.getLast?_append, hlast, Option.some_or, Option.some_inj] at hc
  exact hc ▸ space_of_isDigit hd

theorem isTail : IsTail (rstrip F row.infoText) := by
  have hprefix : rstrip F row.infoText <+: row.infoText := rstrip_prefix _
  rcases hinfo : row.info with _ | info
  · rw [infoText, hinfo] at hprefix ⊢
    exact .inl (List.prefix_nil.mp hprefix)
  · rcases hrest : rstrip F row.infoText with _ | ⟨c, cs⟩
    · exact .inl rfl
    · rw [hrest, infoText, hinfo] at hprefix
      obtain ⟨rfl, -⟩ := List.cons_prefix_cons.mp hprefix
      exact .inr ⟨cs, rfl⟩

theorem space_of_head {c : Char} (h : row.text.head? = some c) : space F c = false := by
  rcases hdigest : row.digest with _ | digest
  · obtain ⟨d, ds, hschema⟩ := List.exists_cons_of_ne_nil row.schema.2.1
    obtain rfl : d = c := by simpa [text, digestText, hdigest, columns, hschema] using h
    exact row.schema.2.2 d (by simp [hschema])
  · obtain ⟨d, ds, hdigits⟩ := List.exists_cons_of_ne_nil digest.2.1
    obtain rfl : d = c := by simpa [text, digestText, hdigest, hdigits] using h
    exact space_of_isHexDigit (digest.2.2 d (by simp [hdigits]))

theorem line_eq : row.line = row.digestText ++ (row.columns ++ rstrip F row.infoText) := by
  have hne : row.columns ≠ [] := by
    rw [columns]
    simp [row.schema.2.1]
  rw [line, strip_eq_rstrip fun _ => row.space_of_head, text, rstrip_append,
    rstrip_append_of_rstrip row.rstrip_columns, if_neg (by simp [hne])]

/-- The captures of the row. -/
def read : Caps :=
  (matchCaps (metaData F) row.line).getD []

theorem matchCaps_line : matchCaps (metaData F) row.line = some row.read := by
  have hsome : ∃ m, matchCaps (metaData F) row.line = some m := by
    rw [row.line_eq]
    by_cases h : row.Shifts
    · obtain ⟨m, hm, -⟩ := matchCaps_metaData_of_shifts h row.isTail
      exact ⟨m, hm⟩
    · obtain ⟨m, hm, -⟩ := matchCaps_metaData h row.isTail
      exact ⟨m, hm⟩
  obtain ⟨m, hm⟩ := hsome
  rw [read, hm, Option.getD_some]

variable {row}

theorem captured_read (h : ¬ row.Shifts) {g : Group} (hg : g ≠ .metaInfo)
    (hg' : g ≠ .metaSchemaDigest) : captured row.read g = captured row.caps g := by
  obtain ⟨m, hm, hcaptured⟩ := matchCaps_metaData h row.isTail
  rw [← row.line_eq, row.matchCaps_line] at hm
  obtain rfl := Option.some_inj.mp hm
  exact hcaptured g hg hg'

theorem captured_read_of_shifts (h : row.Shifts) :
    captured row.read .metaInst = row.flags.1 ∧ captured row.read .metaFlags = [' '] := by
  obtain ⟨m, hm, hcaptured⟩ := matchCaps_metaData_of_shifts h row.isTail
  rw [← row.line_eq, row.matchCaps_line] at hm
  obtain rfl := Option.some_inj.mp hm
  exact hcaptured

/-- Another blank behind the flags is taken for a part of them. -/
theorem blank_mem_flags (h : row.pad 3 ≠ 0) : ' ' ∈ captured row.read .metaFlags := by
  by_cases hshifts : row.Shifts
  · simp [(captured_read_of_shifts hshifts).2]
  · have hflags : captured row.read .metaFlags = row.flags.1 ++ List.replicate (row.pad 3) ' ' :=
      captured_read hshifts (by simp) (by simp)
    simp [hflags, h]

theorem not_shifts (h : row.pad 3 = 0) : ¬ row.Shifts := by
  rintro ⟨-, -, hpad⟩
  omega

variable (row)

theorem exists_digit : ∃ c ∈ row.line, c.isDigit := by
  obtain ⟨c, hc, hdigit⟩ := exists_isDigit row.msize
  refine ⟨c, ?_, hdigit⟩
  simp [row.line_eq, columns, numbers, hc]

theorem line_ne_nil : row.line ≠ [] := by
  obtain ⟨c, hc, -⟩ := row.exists_digit
  exact List.ne_nil_of_mem hc

theorem not_matches_metaDashes : ¬ Matches metaDashes row.line := by
  intro h
  obtain ⟨c, hc, hdigit⟩ := row.exists_digit
  rcases of_matches_metaDashes h c hc with rfl | rfl | rfl <;> exact absurd hdigit (by decide)

end Row

/-- `ret.setdefault(m["meta_inst"], dict())`, and what a row assigns to it -/
def State.enter (st : State F) (m : Caps) : State F :=
  st.assign (captured m .metaInst) fun lset =>
    { lset with metaDict := some (setMeta m), name := some (captured m .metaInst) }

/-- **A row** is entered. -/
theorem step_row {st : State F} (hsec : st.sec = .metaData) {row : Row F} (h : row.Plain) :
    step st row.text = .ok (st.enter row.read) := by
  have hclassify : classify F row.line = some (.metaData, row.read) := by
    refine classify_of row.matchCaps_line ?_
    simp only [Kind.before, List.forall_mem_cons]
    exact ⟨h.1, h.2, row.not_matches_metaDashes, by simp⟩
  rw [step_of_classify st rfl row.line_ne_nil hclassify, actKind, if_neg (by simp [hsec])]
  rfl

/-- A row that is taken for a line of another kind is refused. -/
theorem step_row_error {st : State F} (hsec : st.sec = .metaData) {row : Row F} (h : ¬ row.Plain) :
    ∃ e, step st row.text = .error e := by
  by_cases hpre : Matches (preMetaKV F) row.line
  · obtain ⟨m, -, hclassify⟩ := exists_classify_of .preMeta hpre (by simp [Kind.before])
    rw [step_of_classify st rfl row.line_ne_nil hclassify, actKind, if_pos (by simp [hsec])]
    exact ⟨_, rfl⟩
  · have hbegin : Matches (metaBegin F) row.line := by
      by_contra hbegin
      exact h ⟨hpre, hbegin⟩
    obtain ⟨m, -, hclassify⟩ := exists_classify_of .metaBegin hbegin
      (by simpa [Kind.before, Kind.pattern] using hpre)
    rw [step_of_classify st rfl row.line_ne_nil hclassify, actKind, if_pos (by simp [hsec])]
    exact ⟨_, rfl⟩

/-! ## The lines around the rows -/

omit [PyText F] in
/-- A pattern for a whole line of characters of one class. -/
theorem matchCaps_wholeLine {p : Char → Bool} {g : Group} {l : List Char} (hl : ∀ c ∈ l, p c)
    (hne : l ≠ []) : matchCaps (cat [bol, group g (plus p), eol]) l = some [(g, l)] := by
  have hplus : first (group g (plus p))
      (first (cat [eol]) fun st : Regex.Cursor Group => some st.caps)
      ⟨true, l ++ [], []⟩ = some [(g, l)] :=
    first_group_plus_of_some hl hne (stops_nil p) rfl
  rw [List.append_nil] at hplus
  exact hplus

/-- No blank is in front of a colon. -/
def Tight (l : List Char) : Prop :=
  l.IsChain fun s c => c = ':' → s = 's' ∨ s = ')'

instance (l : List Char) : Decidable (Tight l) :=
  inferInstanceAs (Decidable (List.IsChain _ l))

theorem tight_of_notMem {l : List Char} (h : ':' ∉ l) : Tight l := by
  refine (List.Pairwise.isChain (List.pairwise_of_forall_mem_list ?_))
  rintro s - c hc rfl
  exact absurd hc h

theorem tight_flatten {ls : List (List Char)} (h : ∀ l ∈ ls, Tight l ∧ l.head? ≠ some ':') :
    Tight ls.flatten := by
  induction ls with
  | nil => exact List.isChain_nil
  | cons l ls ih =>
    obtain ⟨hl, hls⟩ := List.forall_mem_cons.mp h
    refine List.isChain_append.mpr ⟨hl.1, ih hls, ?_⟩
    rintro s - c hc rfl
    rw [Option.mem_def, List.head?_flatten] at hc
    obtain ⟨l', hl', hc⟩ := List.exists_of_findSome?_eq_some hc
    exact absurd hc (hls l' hl').2

theorem Tight.not_matches_preMeta {l : List Char} (h : Tight l) : ¬ Matches (preMetaKV F) l := by
  intro hmatch
  obtain ⟨a, s, b, rfl, hs⟩ := exists_of_matches_preMeta hmatch
  have hpair : List.IsChain (fun s c => c = ':' → s = 's' ∨ s = ')') [s, ':'] :=
    List.IsChain.infix h ⟨a, b, by simp⟩
  rcases (List.isChain_cons_cons.mp hpair).1 rfl with rfl | rfl
  · have hspace : space F 's' = false := (PyText.space_ascii 's' (by decide)).trans rfl
    simp [hspace] at hs
  · have hspace : space F ')' = false := (PyText.space_ascii ')' (by decide)).trans rfl
    simp [hspace] at hs

/-- Two words and a digit are no row. -/
theorem not_matches_metaData_of_digit {x y : Word F} (hx : Stops Numeral.isHexDigit x.1)
    {d : Char} (hd : d.isDigit) (cs : List Char) :
    ¬ Matches (metaData F) (x.1 ++ (blanks 0 ++ (y.1 ++ (blanks 0 ++ d :: cs)))) := by
  have hnone : first (metaDigest F) (first (metaColumns F) final)
      ⟨true, x.1 ++ (blanks 0 ++ (y.1 ++ (blanks 0 ++ d :: cs))), []⟩ = none := by
    refine (needs_cat (needs_group (needs_plus Numeral.isHexDigit) _) _ _).eq_none ?_ _ _
    obtain ⟨c, x', hx'⟩ := List.exists_cons_of_ne_nil x.2.1
    rw [hx'] at hx ⊢
    exact stops_cons (hx c x' rfl) _
  rw [not_matches_iff, matchCaps_metaData_eq, hnone, Option.none_or, metaColumns,
    first_word _ _ (y.stops_space _), first_cat_cons, first_cat_cons, first_last_word]
  exact first_spaced_flags_eq_none (stops_cons (space_of_isDigit hd) cs)
    (stops_cons (isNonDecimal_of_isDigit hd) cs) (by simp [blanks])

theorem reads_size (x : Fraction) : Reads (size F) x.text := by
  have hreads : Reads (size F) (x.whole.1 ++ ((['.'] ++ (x.part.1 ++ [])) ++ [])) :=
    (reads_plus x.whole.isDecimal x.whole.2.1).cat <|
      (Reads.opt <| (reads_lit ['.']).cat <| (reads_plus x.part.isDecimal x.part.2.1).cat
        reads_cat_nil).cat reads_cat_nil
  simpa [Fraction.text] using hreads

namespace MetaSection

variable (sect : MetaSection F)

theorem of_mem_title {c : Char} (hc : c ∈ sect.title) : c = ' ' ∨ c.isAlpha := by
  have hword : ∀ s ∈ ["Schema", "Instance", "Flags", "Info", "Msize", "Dsize", "Hsize", "UID",
      "GID", "Perm", "Update", "Duration"], ∀ c ∈ s.toList, c.isAlpha := by
    simp
  have hnumbers : c ∈ sect.numberTitles → c = ' ' ∨ c.isAlpha := by
    intro hc
    obtain ⟨l, hl, hc⟩ := List.mem_flatten.mp hc
    obtain ⟨i, hi, rfl⟩ := List.mem_mapIdx.mp hl
    rcases List.mem_append.mp hc with hc | hc
    · exact .inl (mem_blanks hc)
    · exact .inr (hword _ (List.mem_append_right ["Schema", "Instance", "Flags", "Info"]
        (List.getElem_mem hi)) c hc)
  have hdigest : ∀ c ∈ "Schema Digest".toList, c = ' ' ∨ c.isAlpha := by
    simp
  have hblanks : ∀ {n}, c ∈ blanks n → c = ' ' ∨ c.isAlpha := fun hc => .inl (mem_blanks hc)
  simp only [title, List.mem_append] at hc
  rcases hc with hc | hc | hc | hc | hc | hc | hc | hc | hc
  · split at hc
    · exact (List.mem_append.mp hc).elim (hdigest c) hblanks
    · simp at hc
  · exact .inr (hword "Schema" (by simp) c hc)
  · exact hblanks hc
  · exact .inr (hword "Instance" (by simp) c hc)
  · exact hblanks hc
  · exact .inr (hword "Flags" (by simp) c hc)
  · exact hnumbers hc
  · exact hblanks hc
  · exact .inr (hword "Info" (by simp) c hc)

theorem strip_title : Val.strip F sect.title = sect.title := by
  have hinfo : "Info".toList.getLast? = some 'o' := by
    simp
  refine strip_eq_of_ends ?_ ?_
  · intro c hc
    obtain rfl : 'S' = c := by
      rw [title] at hc
      split at hc <;> simpa using hc
    exact (PyText.space_ascii 'S' (by decide)).trans rfl
  · intro c hc
    obtain rfl : 'o' = c := by
      simpa only [title, List.getLast?_append, hinfo, Option.some_or, Option.some_inj] using hc
    exact (PyText.space_ascii 'o' (by decide)).trans rfl

theorem matches_title : Matches (metaBegin F) sect.title := by
  have hdot : ∀ c ∈ sect.numberTitles, isDot c := by
    intro c hc
    have htitle : c ∈ sect.title := by
      simp only [title, List.mem_append]
      tauto
    rcases sect.of_mem_title htitle with rfl | halpha
    · rfl
    · simp only [isDot, ne_eq, decide_eq_true_eq]
      rintro rfl
      exact absurd halpha (by decide)
  have hblanks : ∀ n, Reads (γ := Group) (plus (space F)) (blanks n) := fun n =>
    reads_plus isSpace_of_mem_blanks (List.cons_ne_nil _ _)
  have hdigest : Reads (opt (cat [lit "Schema Digest".toList, plus (space F)]) : Regex Group)
      (if sect.digestTitle then "Schema Digest".toList ++ blanks (sect.pad 0) else []) := by
    split
    · have hread := (reads_lit (γ := Group) "Schema Digest".toList).cat
        ((hblanks (sect.pad 0)).cat reads_cat_nil)
      rw [List.append_nil] at hread
      exact hread.opt
    · exact reads_opt_nil _
  have hread := hdigest.cat <| (reads_lit "Schema".toList).cat <| (hblanks (sect.pad 1)).cat <|
    (reads_lit "Instance".toList).cat <| (hblanks (sect.pad 2)).cat <|
    (reads_lit "Flags".toList).cat <| (reads_star hdot).cat <| (hblanks (sect.pad 11)).cat <|
    (reads_lit "Info".toList).cat reads_cat_nil
  have hmatch : Matches (metaBegin F) _ := (hread.group .metaBegin).matches []
  simpa only [title, List.append_nil] using hmatch

/-- **The title** begins the section. -/
theorem step_title {st : State F} (hsec : st.sec = .preMeta) :
    step st sect.title = .ok { st with sec := .metaData } := by
  have hcolon : ':' ∉ sect.title := by
    intro hmem
    rcases sect.of_mem_title hmem with h | h <;> exact absurd h (by decide)
  have hne : sect.title ≠ [] := by
    obtain ⟨c, cs, htitle, -⟩ := exists_space_of_matches_metaBegin sect.matches_title
    simp [htitle]
  obtain ⟨m, -, hclassify⟩ := exists_classify_of .metaBegin sect.matches_title
    (by simpa [Kind.before, Kind.pattern] using (tight_of_notMem hcolon).not_matches_preMeta)
  rw [step_of_classify st sect.strip_title hne hclassify, actKind, if_neg (by simp [hsec])]
  rfl

/-- **A line of dashes** changes nothing. -/
theorem step_rule {st : State F} (hsec : st.sec = .metaData) : step st sect.rule.1 = .ok st := by
  obtain ⟨l, hhead, hlast, hl⟩ := sect.rule
  have hne : l ≠ [] := by
    rintro rfl
    simp at hhead
  have hstrip : Val.strip F l = l := by
    refine strip_eq_of_ends ?_ ?_
    · intro c hc
      obtain rfl : '-' = c := by simpa [hhead] using hc
      exact space_dash
    · intro c hc
      obtain rfl : '-' = c := by simpa [hlast] using hc
      exact space_dash
  have hmatch : matchCaps (Kind.pattern F .dashes) l = some [(.metaDashes, l)] :=
    matchCaps_wholeLine (fun c hc => by simpa using hl c hc) hne
  have hcolon : ':' ∉ l := by
    intro hmem
    rcases hl _ hmem with h | h <;> exact absurd h (by decide)
  have hbegin : ¬ Matches (metaBegin F) l := by
    intro h
    obtain ⟨c, cs, rfl, -⟩ := exists_space_of_matches_metaBegin h
    simp at hhead
  have hclassify := classify_of hmatch
    (by simpa [Kind.before, Kind.pattern] using ⟨(tight_of_notMem hcolon).not_matches_preMeta, hbegin⟩)
  rw [step_of_classify st hstrip hne hclassify, actKind, if_neg (by simp [hsec])]
  rfl

/-- **The end** of the section. -/
theorem step_end {st : State F} (hsec : st.sec = .metaData) (n : ℕ) :
    step st (List.replicate (n + 1) '=') = .ok { st with sec := .data } := by
  have hl : ∀ c ∈ List.replicate (n + 1) '=', c = '=' := fun c hc => List.eq_of_mem_replicate hc
  have hspace : ∀ c ∈ List.replicate (n + 1) '=', space F c = false := by
    intro c hc
    rw [hl c hc]
    exact (PyText.space_ascii '=' (by decide)).trans rfl
  have hmatch : matchCaps (Kind.pattern F .metaEnd) (List.replicate (n + 1) '=') =
      some [(.metaEnd, List.replicate (n + 1) '=')] :=
    matchCaps_wholeLine (fun c hc => by simpa using hl c hc) (by simp)
  have hbefore : ∀ kind ∈ Kind.before .metaEnd,
      ¬ Matches (kind.pattern F) (List.replicate (n + 1) '=') := by
    simp only [Kind.before, List.forall_mem_cons]
    refine ⟨?_, ?_, ?_, ?_, ?_, by simp⟩
    · exact (tight_of_notMem (by simp)).not_matches_preMeta
    · intro h
      obtain ⟨c, cs, hcs, -⟩ := exists_space_of_matches_metaBegin h
      simp [List.replicate_succ] at hcs
    · intro h
      rcases of_matches_metaDashes h '=' (by simp) with h | h | h <;> exact absurd h (by decide)
    · intro h
      obtain ⟨c, hc, hblank⟩ := exists_space_of_matches_metaData h
      simp [hspace c hc] at hblank
    · intro h
      obtain ⟨cs, hcs⟩ := exists_of_matches_metaSummary h
      simp [List.replicate_succ] at hcs
  rw [step_of_classify st (strip_eq_self hspace) (by simp) (classify_of hmatch hbefore), actKind,
    if_neg (by simp [hsec])]
  rfl

/-- What stands between the numbers of the summary. -/
def label (i : ℕ) (name : List Char) : List Char :=
  ", ".toList ++ (name ++ (sect.colonText i ++ [' ']))

/-- The summary, in parts that do not start with a colon. -/
theorem summary_eq : sect.summary = ["Total Sets: ".toList, Nat.toDigits 10 sect.rows.length,
    sect.label 0 "Meta Data (kB)".toList, sect.metaSz.text,
    sect.label 1 "Data (kB)".toList, sect.dataSz.text,
    sect.label 2 "Memory (kB)".toList, sect.memSz.text].flatten := by
  unfold summary label
  generalize "Total Sets: ".toList = total, ", ".toList = comma
  generalize "Meta Data (kB)".toList = name0, "Data (kB)".toList = name1,
    "Memory (kB)".toList = name2
  simp

theorem tight_label (i : ℕ) {name : List Char} (hname : ':' ∉ name)
    (hlast : name.getLast? = some ')') : Tight (sect.label i name) := by
  have hcomma : Tight (", ".toList ++ name) := by
    refine tight_of_notMem ?_
    simp [hname]
  have hcolon : Tight (sect.colonText i ++ [' ']) := by
    unfold colonText
    split <;> decide
  have hlabel : sect.label i name = (", ".toList ++ name) ++ (sect.colonText i ++ [' ']) := by
    rw [label, List.append_assoc]
  rw [hlabel]
  refine List.isChain_append.mpr ⟨hcomma, hcolon, ?_⟩
  intro s hs c _ _
  rw [Option.mem_def, List.getLast?_append, hlast, Option.some_or, Option.some_inj] at hs
  exact .inr hs.symm

theorem colon_notMem_of_isDigit {l : List Char} (h : ∀ c ∈ l, c.isDigit) : ':' ∉ l :=
  fun hmem => absurd (h _ hmem) (by decide)

theorem colon_notMem_fraction (x : Fraction) : ':' ∉ x.text := by
  simp [Fraction.text, colon_notMem_of_isDigit x.whole.2.2, colon_notMem_of_isDigit x.part.2.2]

/-- A text without colons does not start with one. -/
theorem head_ne_of_notMem {l : List Char} (h : ':' ∉ l) : l.head? ≠ some ':' :=
  fun hhead => h (List.mem_of_head? hhead)

theorem tight_summary : Tight sect.summary := by
  have hpart : ∀ {l : List Char}, ':' ∉ l → Tight l ∧ l.head? ≠ some ':' := fun h =>
    ⟨tight_of_notMem h, head_ne_of_notMem h⟩
  have hlabel : ∀ i name, ':' ∉ name → name.getLast? = some ')' →
      Tight (sect.label i name) ∧ (sect.label i name).head? ≠ some ':' := by
    intro i name hname hlast
    refine ⟨sect.tight_label i hname hlast, ?_⟩
    simp [label]
  rw [summary_eq]
  refine tight_flatten ?_
  simp only [List.forall_mem_cons]
  refine ⟨⟨?_, ?_⟩, hpart (colon_notMem_of_isDigit fun _ => isDigit_of_mem_toDigits),
    hlabel 0 _ ?_ ?_, hpart (colon_notMem_fraction _), hlabel 1 _ ?_ ?_,
    hpart (colon_notMem_fraction _), hlabel 2 _ ?_ ?_, hpart (colon_notMem_fraction _), ?_⟩
  · simp [Tight]
  all_goals simp

theorem not_matches_metaData_summary : ¬ Matches (metaData F) sect.summary := by
  have htotal : ∀ c ∈ "Total".toList, c.toNat < 128 ∧ isAsciiSpace c = false := by
    simp [isAsciiSpace]
  have hsets : ∀ c ∈ "Sets:".toList, c.toNat < 128 ∧ isAsciiSpace c = false := by
    simp [isAsciiSpace]
  have hhex : Stops Numeral.isHexDigit "Total".toList := by
    simp [Stops, Numeral.isHexDigit]
  have hlit : "Total Sets: ".toList = "Total".toList ++ (blanks 0 ++ ("Sets:".toList ++ blanks 0)) := by
    simp [blanks]
  obtain ⟨d, ds, hdigits⟩ := List.exists_cons_of_ne_nil
    (Nat.toDigits_ne_nil (b := 10) (n := sect.rows.length))
  have hd : d.isDigit := isDigit_of_mem_toDigits (hdigits ▸ List.mem_cons_self)
  have hnot := not_matches_metaData_of_digit (x := asciiWord F "Total".toList (by simp) htotal)
    (y := asciiWord F "Sets:".toList (by simp) hsets) hhex hd
  unfold summary
  rw [hlit, hdigits]
  simp only [List.append_assoc, List.cons_append]
  exact hnot _

theorem matches_summary : Matches (metaSummary F) sect.summary := by
  have hnumber : Reads (γ := Group) (plus (isDecimal F)) (Nat.toDigits 10 sect.rows.length) :=
    reads_plus (fun c hc => isDecimal_of_isDigit (isDigit_of_mem_toDigits hc))
      Nat.toDigits_ne_nil
  have hcolon : ∀ i, Reads (γ := Group) (opt (lit [':'])) (sect.colonText i) := by
    intro i
    unfold colonText
    split
    · exact (reads_lit _).opt
    · exact reads_opt_nil _
  have hread := (reads_lit "Total Sets: ".toList).cat <| (hnumber.group .metaTotalSets).cat <|
    (reads_lit ", ".toList).cat <| (reads_lit "Meta Data (kB)".toList).cat <| (hcolon 0).cat <|
    (reads_lit [' ']).cat <| ((reads_size (F := F) sect.metaSz).group .metaSz).cat <|
    (reads_lit ", ".toList).cat <| (reads_lit "Data (kB)".toList).cat <| (hcolon 1).cat <|
    (reads_lit [' ']).cat <| ((reads_size (F := F) sect.dataSz).group .dataSz).cat <|
    (reads_lit ", ".toList).cat <| (reads_lit "Memory (kB)".toList).cat <| (hcolon 2).cat <|
    (reads_lit [' ']).cat <| ((reads_size (F := F) sect.memSz).group .memSz).cat reads_cat_nil
  have hmatch : Matches (metaSummary F) _ := hread.matches []
  rw [List.append_nil, List.append_nil] at hmatch
  exact hmatch

/-- **The summary** changes nothing. -/
theorem step_summary {st : State F} (hsec : st.sec = .metaData) : step st sect.summary = .ok st := by
  obtain ⟨cs, hcons⟩ := exists_of_matches_metaSummary sect.matches_summary
  have hstrip : Val.strip F sect.summary = sect.summary := by
    refine strip_eq_of_ends ?_ ?_
    · intro c hc
      obtain rfl : 'T' = c := by simpa [hcons] using hc
      exact (PyText.space_ascii 'T' (by decide)).trans rfl
    · intro c hc
      obtain ⟨d, hlast, hd⟩ := sect.memSz.exists_getLast
      rw [summary_eq] at hc
      simp only [List.flatten_cons, List.flatten_nil, List.append_nil, List.getLast?_append, hlast,
        Option.some_or, Option.some_inj] at hc
      exact hc ▸ space_of_isDigit hd
  have hbefore : ∀ kind ∈ Kind.before .summary, ¬ Matches (kind.pattern F) sect.summary := by
    simp only [Kind.before, List.forall_mem_cons]
    refine ⟨sect.tight_summary.not_matches_preMeta, ?_, ?_, sect.not_matches_metaData_summary,
      by simp⟩
    · intro h
      obtain ⟨c, cs', hcons', -⟩ := exists_space_of_matches_metaBegin h
      simp [hcons] at hcons'
    · intro h
      rcases of_matches_metaDashes h 'T' (by simp [hcons]) with h | h | h <;>
        exact absurd h (by decide)
  obtain ⟨m, -, hclassify⟩ := exists_classify_of .summary sect.matches_summary hbefore
  rw [step_of_classify st hstrip (by simp [hcons]) hclassify, actKind, if_neg (by simp [hsec])]
  rfl

end MetaSection

/-! ## The rows -/

/-- The rows, one after the other. -/
def State.enterRows (st : State F) (rows : List (Row F)) : State F :=
  rows.foldl (fun st row => st.enter row.read) st

@[simp] theorem State.enterRows_nil (st : State F) : st.enterRows [] = st := rfl

@[simp] theorem State.enterRows_cons (st : State F) (row : Row F) (rows : List (Row F)) :
    st.enterRows (row :: rows) = (st.enter row.read).enterRows rows := rfl

@[simp] theorem State.sec_enterRows (st : State F) (rows : List (Row F)) :
    (st.enterRows rows).sec = st.sec := by
  induction rows generalizing st with
  | nil => rfl
  | cons row rows ih => exact ih _

@[simp] theorem State.data_enterRows (st : State F) (rows : List (Row F)) :
    (st.enterRows rows).data = st.data := by
  induction rows generalizing st with
  | nil => rfl
  | cons row rows ih => exact ih _

omit [PyText F] in
theorem State.get?_enter (st : State F) (m : Caps) (k : List Char) :
    Dict.get? (st.enter m).ret k =
      if captured m .metaInst = k then
        some { (Dict.get? st.ret k).getD {} with metaDict := some (setMeta m), name := some k }
      else Dict.get? st.ret k := by
  rw [enter, assign, Dict.get?_set]
  split
  · next hk => rw [hk]
  · rfl

/-- What is found under a key was there before, or comes from a row. -/
theorem State.get?_enterRows_elim {st : State F} {rows : List (Row F)} {k : List Char}
    {lset : SetDict F} (h : Dict.get? (st.enterRows rows).ret k = some lset) :
    Dict.get? st.ret k = some lset ∨
      ∃ row ∈ rows, captured row.read .metaInst = k ∧ lset.metaDict = some (setMeta row.read) := by
  induction rows generalizing st with
  | nil => exact .inl h
  | cons row rows ih =>
    rcases ih h with h | ⟨row', hrow', h⟩
    · rw [get?_enter] at h
      split at h
      · next hk =>
        obtain rfl := Option.some_inj.mp h
        exact .inr ⟨row, List.mem_cons_self, hk, rfl⟩
      · exact .inl h
    · exact .inr ⟨row', List.mem_cons_of_mem _ hrow', h⟩

theorem State.get?_enterRows_of_ne {st : State F} {rows : List (Row F)} {k : List Char}
    (h : ∀ row ∈ rows, captured row.read .metaInst ≠ k) :
    Dict.get? (st.enterRows rows).ret k = Dict.get? st.ret k := by
  induction rows generalizing st with
  | nil => rfl
  | cons row rows ih =>
    obtain ⟨hrow, hrows⟩ := List.forall_mem_cons.mp h
    rw [enterRows_cons, ih hrows, get?_enter, if_neg hrow]

/-- A row is found under its key, if no later row has the same key. -/
theorem State.get?_enterRows_of_mem (st : State F) {rows : List (Row F)}
    (h : (rows.map fun row => captured row.read .metaInst).Nodup) {row : Row F} (hrow : row ∈ rows) :
    ∃ lset, Dict.get? (st.enterRows rows).ret (captured row.read .metaInst) = some lset ∧
      lset.metaDict = some (setMeta row.read) := by
  induction rows generalizing st with
  | nil => simp at hrow
  | cons row' rows ih =>
    rw [List.map_cons, List.nodup_cons] at h
    rcases List.mem_cons.mp hrow with rfl | hrow
    · have hne : ∀ row' ∈ rows, captured row'.read .metaInst ≠ captured row.read .metaInst := by
        intro row' hrow' heq
        exact h.1 (heq ▸ List.mem_map_of_mem hrow')
      rw [enterRows_cons, get?_enterRows_of_ne hne, get?_enter, if_pos rfl]
      exact ⟨_, rfl, rfl⟩
    · exact ih _ h.2 hrow

/-- **The rows** are entered one by one. -/
theorem foldlM_step_rows {st : State F} (hsec : st.sec = .metaData) {rows : List (Row F)}
    (h : ∀ row ∈ rows, row.Plain) :
    (rows.map Row.text).foldlM step st = .ok (st.enterRows rows) := by
  induction rows generalizing st with
  | nil => rfl
  | cons row rows ih =>
    obtain ⟨hrow, hrows⟩ := List.forall_mem_cons.mp h
    rw [List.map_cons, List.foldlM_cons, step_row hsec hrow]
    exact ih hsec hrows

/-- A row that is taken for a line of another kind is where the reader stops. -/
theorem foldlM_step_rows_error {st : State F} (hsec : st.sec = .metaData) {rows : List (Row F)}
    (h : ¬ ∀ row ∈ rows, row.Plain) : ∃ e, (rows.map Row.text).foldlM step st = .error e := by
  induction rows generalizing st with
  | nil => simp at h
  | cons row rows ih =>
    rw [List.map_cons, List.foldlM_cons]
    by_cases hrow : row.Plain
    · rw [step_row hsec hrow]
      exact ih hsec fun hrows => h (List.forall_mem_cons.mpr ⟨hrow, hrows⟩)
    · obtain ⟨e, he⟩ := step_row_error hsec hrow
      rw [he]
      exact ⟨e, rfl⟩

/-! ## The section -/

theorem Digits.oneLine (x : Digits) : OneLine x.1 :=
  oneLine_of Char.isDigit (by decide) x.2.2

theorem Word.oneLine (x : Word F) : OneLine x.1 :=
  oneLine_of_not_space F x.2.2

theorem oneLine_blanks (n : ℕ) : OneLine (blanks n) :=
  oneLine_of (fun c => c = ' ') (by decide) fun _ hc => decide_eq_true (mem_blanks hc)

theorem Fraction.oneLine (x : Fraction) : OneLine x.text :=
  oneLine_append.mpr ⟨x.whole.oneLine, .cons rfl x.part.oneLine⟩

theorem Access.oneLine (a : Access) : OneLine a.text := by
  obtain ⟨r, w, x⟩ := a
  cases r <;> cases w <;> cases x <;> exact oneLine_of_printable rfl

theorem Perm.oneLine (p : Perm) : OneLine p.text :=
  .cons rfl <| oneLine_append.mpr ⟨p.user.oneLine,
    oneLine_append.mpr ⟨p.group.oneLine, p.others.oneLine⟩⟩

theorem Row.oneLine (row : Row F) : OneLine row.text := by
  have hdigest : OneLine row.digestText := by
    rcases hdigest : row.digest with _ | digest
    · rw [digestText, hdigest]
      exact fun _ hc => absurd hc List.not_mem_nil
    · rw [digestText, hdigest]
      exact oneLine_append.mpr ⟨oneLine_of_not_space F fun c hc =>
        space_of_isHexDigit (digest.2.2 c hc), oneLine_blanks _⟩
  have hinfo : OneLine row.infoText := by
    rcases hinfo : row.info with _ | info
    · rw [infoText, hinfo]
      exact fun _ hc => absurd hc List.not_mem_nil
    · rw [infoText, hinfo]
      exact oneLine_append.mpr ⟨oneLine_blanks _, info.2⟩
  have hflags : OneLine row.flags.1 := row.flags.word.oneLine
  simp [text, columns, numbers, hdigest, hinfo, hflags, oneLine_blanks, Word.oneLine,
    Digits.oneLine, Fraction.oneLine, Perm.oneLine]

namespace MetaSection

variable (sect : MetaSection F)

theorem oneLine_summary : OneLine sect.summary := by
  have hcolon : ∀ i, OneLine (sect.colonText i) := by
    intro i
    unfold colonText
    split <;> exact oneLine_of_printable rfl
  have htext : ∀ s ∈ ["Total Sets: ".toList, ", ".toList, "Meta Data (kB)".toList,
      "Data (kB)".toList, "Memory (kB)".toList], OneLine s := by
    simp only [List.forall_mem_cons]
    refine ⟨?_, ?_, ?_, ?_, ?_, by simp⟩ <;> exact oneLine_of_printable (by simp)
  have htotal : OneLine (Nat.toDigits 10 sect.rows.length) :=
    oneLine_of Char.isDigit (by decide) fun _ => isDigit_of_mem_toDigits
  simp only [List.forall_mem_cons] at htext
  obtain ⟨h0, h1, h2, h3, h4, -⟩ := htext
  unfold summary
  generalize "Total Sets: ".toList = total, ", ".toList = comma at h0 h1 ⊢
  generalize "Meta Data (kB)".toList = name0, "Data (kB)".toList = name1,
    "Memory (kB)".toList = name2 at h2 h3 h4 ⊢
  have hblank : OneLine [' '] := oneLine_blanks 0
  simp only [oneLine_append]
  exact ⟨h0, htotal, h1, h2, hcolon 0, hblank, sect.metaSz.oneLine, h1, h3, hcolon 1, hblank,
    sect.dataSz.oneLine, h1, h4, hcolon 2, hblank, sect.memSz.oneLine⟩

theorem oneLine_lines : ∀ l ∈ sect.lines, OneLine l := by
  have htitle : OneLine sect.title :=
    oneLine_of (fun c => c = ' ' || c.isAlpha) (by decide) fun c hc => by
      simpa using sect.of_mem_title hc
  have hrule : OneLine sect.rule.1 :=
    oneLine_of (fun c => c = ' ' || c = '-') (by decide) fun c hc => by
      simpa using sect.rule.2.2.2 c hc
  have hend : OneLine (List.replicate (sect.width + 1) '=') :=
    oneLine_of (fun c => c = '=') (by decide) fun c hc => by
      simpa using List.eq_of_mem_replicate hc
  have hnil : OneLine [] := fun _ hc => absurd hc List.not_mem_nil
  intro l hl
  simp only [lines, List.mem_append, List.mem_cons, List.mem_map, List.not_mem_nil,
    or_false] at hl
  rcases hl with (rfl | rfl) | ⟨row, -, rfl⟩ | rfl | rfl | rfl | rfl | rfl
  · exact htitle
  · exact hrule
  · exact row.oneLine
  · exact hrule
  · exact sect.oneLine_summary
  · exact hnil
  · exact hend
  · exact hnil

/-- The reader within the section, before the rows. -/
abbrev start (F : Type) : State F :=
  ⟨.metaData, [], .unbound⟩

/-- **The section** is read. -/
theorem foldlM_lines (h : ∀ row ∈ sect.rows, row.Plain) :
    sect.lines.foldlM step (State.init F) =
      .ok ⟨.data, ((start F).enterRows sect.rows).ret, .none⟩ := by
  have hsec : ((start F).enterRows sect.rows).sec = .metaData := State.sec_enterRows _ _
  rw [lines, List.foldlM_append, List.foldlM_cons, sect.step_title rfl, ok_bind, List.foldlM_cons,
    sect.step_rule rfl, ok_bind, List.foldlM_nil]
  refine Eq.trans (ok_bind (start F) _) ?_
  rw [List.foldlM_append, foldlM_step_rows rfl h, ok_bind]
  simp only [List.foldlM_cons, List.foldlM_nil]
  rw [sect.step_rule hsec, ok_bind, sect.step_summary hsec, ok_bind, step_nil, ok_bind,
    step_end (by exact hsec), ok_bind, step_nil, ok_bind]
  rfl

/-- A row that is taken for a line of another kind spoils the section. -/
theorem foldlM_lines_error (h : ¬ ∀ row ∈ sect.rows, row.Plain) :
    ∃ e, sect.lines.foldlM step (State.init F) = .error e := by
  obtain ⟨e, he⟩ : ∃ e, (sect.rows.map Row.text).foldlM step (start F) = .error e :=
    foldlM_step_rows_error rfl h
  refine ⟨e, ?_⟩
  rw [lines, List.foldlM_append, List.foldlM_cons, sect.step_title rfl, ok_bind, List.foldlM_cons,
    sect.step_rule rfl, ok_bind, List.foldlM_nil]
  refine Eq.trans (ok_bind (start F) _) ?_
  rw [List.foldlM_append, he]
  rfl

end MetaSection

/-! ## What is recovered -/

theorem Row.recovered_of_pad {row : Row F} (hpad : row.pad 3 = 0) {ret : Dict (List Char) (SetDict F)}
    {lset : SetDict F} (hget : Dict.get? ret (captured row.read .metaInst) = some lset)
    (hmeta : lset.metaDict = some (setMeta row.read)) : row.Recovered ret := by
  have hread : ∀ g, g ≠ .metaInfo → g ≠ .metaSchemaDigest →
      captured row.read g = captured row.caps g := fun _ => captured_read (not_shifts hpad)
  have hinst : captured row.read .metaInst = row.inst.1 := hread .metaInst (by simp) (by simp)
  have hflags : captured row.read .metaFlags = row.flags.1 ++ List.replicate (row.pad 3) ' ' :=
    hread .metaFlags (by simp) (by simp)
  rw [hpad, List.replicate_zero, List.append_nil] at hflags
  rw [hinst] at hget
  refine ⟨setMeta row.read, by rw [hget, Option.bind_some, hmeta], ?_, hinst, hflags, ?_, ?_, ?_, ?_,
    ?_, ?_, ?_⟩ <;> exact hread _ (by simp) (by simp)

theorem MetaSection.parseLdmsLs_eq (sect : MetaSection F) :
    parseLdmsLs (F := F) (unlines sect.lines) =
      (sect.lines.foldlM step (State.init F)).map State.ret := by
  rw [parseLdmsLs, splitlines_unlines sect.oneLine_lines]
  rfl

/-- Rows that are recovered have one blank behind their flags. -/
theorem MetaSection.of_recovered {sect : MetaSection F} {ret : Dict (List Char) (SetDict F)}
    (hret : parseLdmsLs (unlines sect.lines) = .ok ret) (hrows : ∀ row ∈ sect.rows, row.Recovered ret) :
    ∀ row ∈ sect.rows, row.pad 3 = 0 ∧ row.Plain := by
  rw [sect.parseLdmsLs_eq] at hret
  have hplain : ∀ row ∈ sect.rows, row.Plain := by
    by_contra h
    obtain ⟨e, he⟩ := sect.foldlM_lines_error h
    rw [he] at hret
    cases hret
  rw [sect.foldlM_lines hplain] at hret
  obtain rfl : ((start F).enterRows sect.rows).ret = ret := Except.ok.inj hret
  intro row hrow
  refine ⟨?_, hplain row hrow⟩
  obtain ⟨m, hm, -, -, hflags, -⟩ := hrows row hrow
  obtain ⟨lset, hget, hmeta⟩ := Option.bind_eq_some_iff.mp hm
  -- the entry was made for a row whose flags are read as printed, and that is the row itself
  rcases State.get?_enterRows_elim hget with h | ⟨row', hrow', hkey, hmeta'⟩
  · cases h
  · obtain rfl : setMeta row'.read = m := Option.some_inj.mp (hmeta'.symm.trans hmeta)
    have hpad : row'.pad 3 = 0 := by
      by_contra hpad
      have hblank : ' ' ∈ row.flags.1 := hflags ▸ Row.blank_mem_flags hpad
      have hspace := row.flags.word.2.2 ' ' hblank
      rw [space_blank] at hspace
      cases hspace
    have hinst : row'.inst.1 = row.inst.1 :=
      (Row.captured_read (Row.not_shifts hpad) (by simp) (by simp)).symm.trans hkey
    obtain rfl : row' = row := List.inj_on_of_nodup_map sect.nodup hrow' hrow hinst
    exact hpad

theorem MetaSection.exists_recovered {sect : MetaSection F}
    (h : ∀ row ∈ sect.rows, row.pad 3 = 0 ∧ row.Plain) :
    ∃ ret, parseLdmsLs (unlines sect.lines) = .ok ret ∧ ∀ row ∈ sect.rows, row.Recovered ret := by
  refine ⟨((start F).enterRows sect.rows).ret, ?_, ?_⟩
  · rw [sect.parseLdmsLs_eq, sect.foldlM_lines fun row hrow => (h row hrow).2]
    rfl
  have hkeys : (sect.rows.map fun row => captured row.read .metaInst).Nodup := by
    have heq : (sect.rows.map fun row => captured row.read .metaInst) =
        sect.rows.map fun row => row.inst.1 := List.map_congr_left fun row hrow =>
      Row.captured_read (Row.not_shifts (h row hrow).1) (by simp) (by simp)
    rw [heq]
    exact sect.nodup
  intro row hrow
  obtain ⟨lset, hget, hmeta⟩ := (start F).get?_enterRows_of_mem hkeys hrow
  exact Row.recovered_of_pad (h row hrow).1 hget hmeta

/-- **The rows are recovered exactly if** one blank stands behind the flags of each, and none is taken
for a line of another kind. -/
theorem recovers_iff (sect : MetaSection F) :
    (∃ ret, parseLdmsLs (unlines sect.lines) = .ok ret ∧ ∀ row ∈ sect.rows, row.Recovered ret) ↔
      ∀ row ∈ sect.rows, row.pad 3 = 0 ∧ row.Plain := by
  constructor
  · rintro ⟨ret, hret, hrows⟩
    exact MetaSection.of_recovered hret hrows
  · exact MetaSection.exists_recovered

/-- The row of a set `meminfo`, with five blanks behind its flags. -/
def meminfoRow : Row PEmpty where
  digest := none
  schema := asciiWord PEmpty "meminfo".toList (by simp) (by simp [isAsciiSpace])
  inst := asciiWord PEmpty "compute-1/meminfo".toList (by simp) (by simp [isAsciiSpace])
  flags := ⟨"CL".toList, by simp, by simp [PyText.alpha]⟩
  msize := ⟨"2032".toList, by simp, by simp⟩
  dsize := ⟨"432".toList, by simp, by simp⟩
  hsize := ⟨"0".toList, by simp, by simp⟩
  uid := ⟨"0".toList, by simp, by simp⟩
  gid := ⟨"0".toList, by simp, by simp⟩
  perm := ⟨⟨true, true, true⟩, ⟨true, true, true⟩, ⟨true, true, true⟩⟩
  update := ⟨⟨"1566328023".toList, by simp, by simp⟩, ⟨"001611".toList, by simp, by simp⟩⟩
  duration := ⟨⟨"0".toList, by simp, by simp⟩, ⟨"000155".toList, by simp, by simp⟩⟩
  info := none
  pad i := if i = 3 then 4 else 0

/-- A section with the one row. -/
def meminfoSection : MetaSection PEmpty where
  digestTitle := false
  pad _ := 0
  rule := ⟨"-------".toList, by simp, by simp, by simp⟩
  rows := [meminfoRow]
  nodup := List.nodup_singleton _
  metaSz := ⟨⟨"2".toList, by simp, by simp⟩, ⟨"03".toList, by simp, by simp⟩⟩
  dataSz := ⟨⟨"0".toList, by simp, by simp⟩, ⟨"43".toList, by simp, by simp⟩⟩
  memSz := ⟨⟨"2".toList, by simp, by simp⟩, ⟨"46".toList, by simp, by simp⟩⟩
  colon i := i ≠ 1
  width := 70

/-- Its flags are not recovered. -/
theorem not_recovers_meminfo :
    ¬ ∃ ret, parseLdmsLs (unlines meminfoSection.lines) = .ok ret ∧
      ∀ row ∈ meminfoSection.rows, row.Recovered ret := by
  rintro ⟨ret, hret, hrows⟩
  have hpad := (MetaSection.of_recovered hret hrows meminfoRow List.mem_cons_self).1
  simp [meminfoRow] at hpad

end Ls
end LdmsTest
