import Mathlib

/-!
# Regular expressions that backtrack

A pattern is matched from left to right.  Where there is a choice it tries one way first, and what
follows the choice decides whether another way is tried: a repetition takes as many characters as
it can at first, an alternative is tried before the ones after it.  The first way through is the
match, and what its groups took are the captures.

* `first`: the first way through a pattern, and through what follows it.
* `Parses`: any way through.  `exists_parses_of_first` and `isSome_first` relate the two.
* `first_plus_eq`: a repetition takes all it can if what follows asks for another character.
* `Regex.groups`, `Regex.must`: what the captures of a pattern are, from its syntax.
-/

namespace LdmsTest

/-! ## Patterns -/

/-- A pattern with groups named by `γ`. -/
inductive Regex (γ : Type*) where
  | eps
  /-- one character of a class -/
  | cls (p : Char → Bool)
  /-- any number of characters of a class -/
  | star (p : Char → Bool)
  | seq (r s : Regex γ)
  | alt (r s : Regex γ)
  | group (g : γ) (r : Regex γ)
  /-- `^` -/
  | bol
  /-- `$` -/
  | eol

namespace Regex

variable {γ β : Type*}

/-- Where a match is: whether at the start of the text, the text that follows, and the captures,
the latest first. -/
structure Cursor (γ : Type*) where
  start : Bool
  rest : List Char
  caps : List (γ × List Char)

/-- The text between two cursors. -/
def Cursor.taken (st st' : Cursor γ) : List Char :=
  st.rest.take (st.rest.length - st'.rest.length)

/-- The capture of what lies between two cursors. -/
def Cursor.capture (g : γ) (st st' : Cursor γ) : Cursor γ :=
  { st' with caps := (g, st.taken st') :: st'.caps }

/-- The ways through a repetition, the longest first. -/
def firstStar (p : Char → Bool) (k : Cursor γ → Option β) (caps : List (γ × List Char)) :
    Bool → List Char → Option β
  | start, [] => k ⟨start, [], caps⟩
  | start, c :: cs =>
    if p c then (firstStar p k caps false cs).or (k ⟨start, c :: cs, caps⟩)
    else k ⟨start, c :: cs, caps⟩

/-- The first way through a pattern and `k`. -/
def first : Regex γ → (Cursor γ → Option β) → Cursor γ → Option β
  | .eps, k, st => k st
  | .cls p, k, st =>
    match st.rest with
    | [] => none
    | c :: cs => if p c then k ⟨false, cs, st.caps⟩ else none
  | .star p, k, st => firstStar p k st.caps st.start st.rest
  | .seq r s, k, st => first r (first s k) st
  | .alt r s, k, st => (first r k st).or (first s k st)
  | .group g r, k, st => first r (fun st' => k (st.capture g st')) st
  | .bol, k, st => if st.start then k st else none
  | .eol, k, st => if st.rest = [] ∨ st.rest = ['\n'] then k st else none

/-- The captures of the match at the start of a text. -/
def matchCaps (r : Regex γ) (text : List Char) : Option (List (γ × List Char)) :=
  first r (fun st => some st.caps) ⟨true, text, []⟩

/-- The pattern matches at the start of a text. -/
def Matches (r : Regex γ) (text : List Char) : Prop :=
  (matchCaps r text).isSome

instance (r : Regex γ) (text : List Char) : Decidable (Matches r text) :=
  inferInstanceAs (Decidable (_ = true))

/-! ## Derived patterns -/

def cat (rs : List (Regex γ)) : Regex γ :=
  rs.foldr seq eps

/-- A text. -/
def lit (cs : List Char) : Regex γ :=
  cat (cs.map fun c => cls fun d => d = c)

def plus (p : Char → Bool) : Regex γ :=
  seq (cls p) (star p)

def opt (r : Regex γ) : Regex γ :=
  alt r eps

/-- `n` times. -/
def times (n : ℕ) (r : Regex γ) : Regex γ :=
  cat (List.replicate n r)

@[simp] theorem first_cat_nil (k : Cursor γ → Option β) : first (cat []) k = k := rfl

@[simp] theorem first_cat_cons (r : Regex γ) (rs : List (Regex γ)) (k : Cursor γ → Option β) :
    first (cat (r :: rs)) k = first r (first (cat rs) k) := rfl

@[simp] theorem first_opt (r : Regex γ) (k : Cursor γ → Option β) (st : Cursor γ) :
    first (opt r) k st = (first r k st).or (k st) := rfl

theorem matchCaps_alt (r s : Regex γ) (text : List Char) :
    matchCaps (alt r s) text = (matchCaps r text).or (matchCaps s text) := rfl

/-! ## All ways through -/

/-- A way through a pattern. -/
def Parses : Regex γ → Cursor γ → Cursor γ → Prop
  | .eps, st, st' => st' = st
  | .cls p, st, st' => ∃ c, p c ∧ st.rest = c :: st'.rest ∧ st'.caps = st.caps ∧ st'.start = false
  | .star p, st, st' => ∃ a : List Char, (∀ c ∈ a, p c) ∧ st.rest = a ++ st'.rest ∧
      st'.caps = st.caps ∧ st'.start = (st.start && a.isEmpty)
  | .seq r s, st, st' => ∃ mid, Parses r st mid ∧ Parses s mid st'
  | .alt r s, st, st' => Parses r st st' ∨ Parses s st st'
  | .group g r, st, st' => ∃ mid, Parses r st mid ∧ st' = st.capture g mid
  | .bol, st, st' => st.start ∧ st' = st
  | .eol, st, st' => (st.rest = [] ∨ st.rest = ['\n']) ∧ st' = st

theorem exists_of_firstStar {p : Char → Bool} {k : Cursor γ → Option β}
    {caps : List (γ × List Char)} {start : Bool} {cs : List Char} {b : β}
    (h : firstStar p k caps start cs = some b) : ∃ a rest, (∀ c ∈ a, p c) ∧ cs = a ++ rest ∧
      k ⟨start && a.isEmpty, rest, caps⟩ = some b := by
  induction cs generalizing start with
  | nil => exact ⟨[], [], by simp, rfl, by simpa [firstStar] using h⟩
  | cons c cs ih =>
    rw [firstStar] at h
    split at h
    · next hc =>
      rcases Option.or_eq_some_iff.mp h with h | ⟨-, h⟩
      · obtain ⟨a, rest, ha, rfl, hk⟩ := ih h
        exact ⟨c :: a, rest, List.forall_mem_cons.mpr ⟨hc, ha⟩, rfl, by simpa using hk⟩
      · exact ⟨[], c :: cs, by simp, rfl, by simpa using h⟩
    · exact ⟨[], c :: cs, by simp, rfl, by simpa using h⟩

/-- The first way through is one of the ways. -/
theorem exists_parses_of_first {r : Regex γ} {k : Cursor γ → Option β} {st : Cursor γ} {b : β}
    (h : first r k st = some b) : ∃ st', Parses r st st' ∧ k st' = some b := by
  induction r generalizing k st with
  | eps => exact ⟨st, rfl, h⟩
  | cls p =>
    rw [first] at h
    split at h
    · simp at h
    · next c cs hrest =>
      split at h
      · next hc => exact ⟨⟨false, cs, st.caps⟩, ⟨c, hc, hrest, rfl, rfl⟩, h⟩
      · simp at h
  | star p =>
    obtain ⟨a, rest, ha, hrest, hk⟩ := exists_of_firstStar h
    exact ⟨⟨st.start && a.isEmpty, rest, st.caps⟩, ⟨a, ha, hrest, rfl, rfl⟩, hk⟩
  | seq r s ihr ihs =>
    obtain ⟨mid, hmid, h⟩ := ihr h
    obtain ⟨st', hst', h⟩ := ihs h
    exact ⟨st', ⟨mid, hmid, hst'⟩, h⟩
  | alt r s ihr ihs =>
    rcases Option.or_eq_some_iff.mp h with h | ⟨-, h⟩
    · obtain ⟨st', hst', h⟩ := ihr h
      exact ⟨st', .inl hst', h⟩
    · obtain ⟨st', hst', h⟩ := ihs h
      exact ⟨st', .inr hst', h⟩
  | group g r ih =>
    obtain ⟨mid, hmid, h⟩ := ih h
    exact ⟨_, ⟨mid, hmid, rfl⟩, h⟩
  | bol =>
    rw [first] at h
    split at h
    · next hst => exact ⟨st, ⟨hst, rfl⟩, h⟩
    · simp at h
  | eol =>
    rw [first] at h
    split at h
    · next hst => exact ⟨st, ⟨hst, rfl⟩, h⟩
    · simp at h

theorem isSome_firstStar {p : Char → Bool} {k : Cursor γ → Option β} {caps : List (γ × List Char)}
    {start : Bool} {a rest : List Char} (ha : ∀ c ∈ a, p c)
    (hk : (k ⟨start && a.isEmpty, rest, caps⟩).isSome) :
    (firstStar p k caps start (a ++ rest)).isSome := by
  induction a generalizing start with
  | nil =>
    cases rest with
    | nil => simpa [firstStar] using hk
    | cons c cs =>
      rw [List.nil_append, firstStar]
      split
      · rw [Option.isSome_or]
        simp only [List.isEmpty_nil, Bool.and_true] at hk
        simp [hk]
      · simpa using hk
  | cons c a ih =>
    obtain ⟨hc, ha⟩ := List.forall_mem_cons.mp ha
    rw [List.cons_append, firstStar, if_pos hc, Option.isSome_or, ih ha (by simpa using hk),
      Bool.true_or]

/-- A pattern with a way through has a first one. -/
theorem isSome_first {r : Regex γ} {k : Cursor γ → Option β} {st st' : Cursor γ}
    (h : Parses r st st') (hk : (k st').isSome) : (first r k st).isSome := by
  induction r generalizing k st st' with
  | eps =>
    obtain rfl : st' = st := h
    exact hk
  | cls p =>
    obtain ⟨c, hc, hrest, hcaps, hstart⟩ := h
    obtain ⟨start, rest, caps⟩ := st'
    obtain rfl : caps = st.caps := hcaps
    obtain rfl : start = false := hstart
    simpa [first, hrest, hc] using hk
  | star p =>
    obtain ⟨a, ha, hrest, hcaps, hstart⟩ := h
    obtain ⟨start, rest, caps⟩ := st'
    obtain rfl : caps = st.caps := hcaps
    obtain rfl : start = (st.start && a.isEmpty) := hstart
    rw [first, hrest]
    exact isSome_firstStar ha hk
  | seq r s ihr ihs =>
    obtain ⟨mid, hmid, hst'⟩ := h
    exact ihr hmid (ihs hst' hk)
  | alt r s ihr ihs =>
    rw [first, Option.isSome_or, Bool.or_eq_true]
    exact h.imp (ihr · hk) (ihs · hk)
  | group g r ih =>
    obtain ⟨mid, hmid, rfl⟩ := h
    exact ih hmid hk
  | bol =>
    obtain ⟨hst, rfl⟩ := h
    simpa [first, hst] using hk
  | eol =>
    obtain ⟨hst, rfl⟩ := h
    rwa [first, if_pos hst]

theorem matches_iff {r : Regex γ} {text : List Char} :
    Matches r text ↔ ∃ st, Parses r ⟨true, text, []⟩ st := by
  constructor
  · intro h
    obtain ⟨caps, hcaps⟩ := Option.isSome_iff_exists.mp h
    obtain ⟨st, hst, -⟩ := exists_parses_of_first hcaps
    exact ⟨st, hst⟩
  · rintro ⟨st, hst⟩
    exact isSome_first hst rfl

theorem not_matches_iff {r : Regex γ} {text : List Char} :
    ¬ Matches r text ↔ matchCaps r text = none := by
  rw [Matches, Option.not_isSome_iff_eq_none]

theorem Parses.of_cls {p : Char → Bool} {st st' : Cursor γ} (h : Parses (cls p) st st') :
    ∃ c, p c ∧ st.rest = c :: st'.rest := by
  obtain ⟨c, hc, hrest, -, -⟩ := h
  exact ⟨c, hc, hrest⟩

theorem Parses.of_plus {p : Char → Bool} {st st' : Cursor γ} (h : Parses (plus p) st st') :
    ∃ x, x ≠ [] ∧ (∀ c ∈ x, p c) ∧ st.rest = x ++ st'.rest := by
  obtain ⟨mid, hmid, a, ha, hrest', -, -⟩ := h
  obtain ⟨c, hc, hrest⟩ := hmid.of_cls
  refine ⟨c :: a, List.cons_ne_nil c a, List.forall_mem_cons.mpr ⟨hc, ha⟩, ?_⟩
  rw [hrest, hrest', List.cons_append]

theorem Parses.of_lit {cs : List Char} {st st' : Cursor γ} (h : Parses (lit cs) st st') :
    st.rest = cs ++ st'.rest := by
  induction cs generalizing st with
  | nil =>
    obtain rfl : st' = st := h
    rfl
  | cons c cs ih =>
    obtain ⟨mid, hmid, h⟩ := h
    obtain ⟨d, hd, hrest⟩ := hmid.of_cls
    rw [hrest, ih h, of_decide_eq_true hd, List.cons_append]

/-! ## What is captured -/

/-- A way through a pattern takes a part of the text, and captures parts of that. -/
theorem Parses.taken {r : Regex γ} {st st' : Cursor γ} (h : Parses r st st') :
    st'.rest <:+ st.rest ∧ ∀ x ∈ st'.caps, x ∈ st.caps ∨ x.2 <:+: st.rest := by
  induction r generalizing st st' with
  | eps =>
    obtain rfl : st' = st := h
    exact ⟨List.suffix_rfl, fun x hx => .inl hx⟩
  | cls p =>
    obtain ⟨c, -, hrest, hcaps, -⟩ := h
    rw [hrest, hcaps]
    exact ⟨List.suffix_cons _ _, fun x hx => .inl hx⟩
  | star p =>
    obtain ⟨a, -, hrest, hcaps, -⟩ := h
    rw [hrest, hcaps]
    exact ⟨List.suffix_append _ _, fun x hx => .inl hx⟩
  | seq r s ihr ihs =>
    obtain ⟨mid, hmid, hst'⟩ := h
    obtain ⟨hsuf, hcaps⟩ := ihr hmid
    obtain ⟨hsuf', hcaps'⟩ := ihs hst'
    refine ⟨hsuf'.trans hsuf, fun x hx => ?_⟩
    rcases hcaps' x hx with hx | hx
    · exact hcaps x hx
    · exact .inr (hx.trans hsuf.isInfix)
  | alt r s ihr ihs => exact h.elim ihr ihs
  | group g r ih =>
    obtain ⟨mid, hmid, rfl⟩ := h
    obtain ⟨hsuf, hcaps⟩ := ih hmid
    refine ⟨hsuf, fun x hx => ?_⟩
    rcases List.mem_cons.mp hx with rfl | hx
    · exact .inr (List.take_prefix _ _).isInfix
    · exact hcaps x hx
  | bol =>
    obtain ⟨-, rfl⟩ := h
    exact ⟨List.suffix_rfl, fun x hx => .inl hx⟩
  | eol =>
    obtain ⟨-, rfl⟩ := h
    exact ⟨List.suffix_rfl, fun x hx => .inl hx⟩

/-- The groups of a pattern. -/
def groups : Regex γ → List γ
  | .seq r s => groups r ++ groups s
  | .alt r s => groups r ++ groups s
  | .group g r => g :: groups r
  | _ => []

/-- Every way through takes a character. -/
def takes : Regex γ → Bool
  | .cls _ => true
  | .seq r s => takes r || takes s
  | .alt r s => takes r && takes s
  | .group _ r => takes r
  | _ => false

/-- Every way through captures a text for `g` that is not empty. -/
def must [DecidableEq γ] (g : γ) : Regex γ → Bool
  | .seq r s => must g s || (must g r && decide (g ∉ groups s))
  | .alt r s => must g r && must g s
  | .group g' r => if g' = g then takes r else must g r
  | _ => false

theorem Parses.length_lt {r : Regex γ} {st st' : Cursor γ} (h : Parses r st st') (hr : r.takes) :
    st'.rest.length < st.rest.length := by
  induction r generalizing st st' with
  | cls p =>
    obtain ⟨c, -, hrest, -, -⟩ := h
    simp [hrest]
  | seq r s ihr ihs =>
    obtain ⟨mid, hmid, hst'⟩ := h
    rcases Bool.or_eq_true_iff.mp hr with hr | hs
    · exact hst'.taken.1.length_le.trans_lt (ihr hmid hr)
    · exact (ihs hst' hs).trans_le hmid.taken.1.length_le
  | alt r s ihr ihs =>
    obtain ⟨hr, hs⟩ := Bool.and_eq_true_iff.mp hr
    exact h.elim (ihr · hr) (ihs · hs)
  | group g r ih =>
    obtain ⟨mid, hmid, rfl⟩ := h
    have hlt : mid.rest.length < st.rest.length := ih hmid hr
    exact hlt
  | eps => simp [takes] at hr
  | star p => simp [takes] at hr
  | bol => simp [takes] at hr
  | eol => simp [takes] at hr

variable [DecidableEq γ]

/-- What a group has captured, the empty text for a group that took no part. -/
def captured (caps : List (γ × List Char)) (g : γ) : List Char :=
  (caps.lookup g).getD []

@[simp] theorem captured_nil (g : γ) : captured [] g = [] := rfl

@[simp] theorem captured_cons_self (g : γ) (t : List Char) (caps : List (γ × List Char)) :
    captured ((g, t) :: caps) g = t := by
  simp [captured]

theorem captured_cons_of_ne {g g' : γ} (h : g' ≠ g) (t : List Char)
    (caps : List (γ × List Char)) : captured ((g', t) :: caps) g = captured caps g := by
  simp [captured, List.lookup_cons, beq_eq_false_iff_ne.mpr h.symm]

theorem Parses.captured_of_not_mem {r : Regex γ} {st st' : Cursor γ} (h : Parses r st st') {g : γ}
    (hg : g ∉ r.groups) : captured st'.caps g = captured st.caps g := by
  induction r generalizing st st' with
  | eps =>
    obtain rfl : st' = st := h
    rfl
  | cls p =>
    obtain ⟨c, -, -, hcaps, -⟩ := h
    rw [hcaps]
  | star p =>
    obtain ⟨a, -, -, hcaps, -⟩ := h
    rw [hcaps]
  | seq r s ihr ihs =>
    obtain ⟨mid, hmid, hst'⟩ := h
    obtain ⟨hr, hs⟩ := not_or.mp (mt List.mem_append.mpr hg)
    rw [ihs hst' hs, ihr hmid hr]
  | alt r s ihr ihs =>
    obtain ⟨hr, hs⟩ := not_or.mp (mt List.mem_append.mpr hg)
    exact h.elim (ihr · hr) (ihs · hs)
  | group g' r ih =>
    obtain ⟨mid, hmid, rfl⟩ := h
    obtain ⟨hne, hr⟩ := not_or.mp (mt List.mem_cons.mpr hg)
    rw [Cursor.capture, captured_cons_of_ne (Ne.symm hne), ih hmid hr]
  | bol =>
    obtain ⟨-, rfl⟩ := h
    rfl
  | eol =>
    obtain ⟨-, rfl⟩ := h
    rfl

theorem Parses.captured_ne_nil {r : Regex γ} {st st' : Cursor γ} (h : Parses r st st') {g : γ}
    (hg : r.must g) : captured st'.caps g ≠ [] := by
  induction r generalizing st st' with
  | seq r s ihr ihs =>
    obtain ⟨mid, hmid, hst'⟩ := h
    rcases Bool.or_eq_true_iff.mp hg with hs | hr
    · exact ihs hst' hs
    · obtain ⟨hr, hs⟩ := Bool.and_eq_true_iff.mp hr
      rw [hst'.captured_of_not_mem (of_decide_eq_true hs)]
      exact ihr hmid hr
  | alt r s ihr ihs =>
    obtain ⟨hr, hs⟩ := Bool.and_eq_true_iff.mp hg
    exact h.elim (ihr · hr) (ihs · hs)
  | group g' r ih =>
    obtain ⟨mid, hmid, rfl⟩ := h
    rw [must] at hg
    split at hg
    · next heq =>
      subst heq
      have hlt := hmid.length_lt hg
      rw [Cursor.capture, captured_cons_self, Cursor.taken, Ne, List.take_eq_nil_iff]
      rintro (h0 | h0)
      · omega
      · simp [h0] at hlt
    · next hne =>
      rw [Cursor.capture, captured_cons_of_ne hne]
      exact ih hmid hg
  | eps => simp [must] at hg
  | cls p => simp [must] at hg
  | star p => simp [must] at hg
  | bol => simp [must] at hg
  | eol => simp [must] at hg

/-- What is captured is a part of the text. -/
theorem infix_captured {r : Regex γ} {text : List Char} {caps : List (γ × List Char)}
    (h : matchCaps r text = some caps) (g : γ) : captured caps g <:+: text := by
  obtain ⟨st, hst, hcaps⟩ := exists_parses_of_first h
  obtain rfl := Option.some_inj.mp hcaps
  rw [captured]
  rcases hg : st.caps.lookup g with _ | t
  · exact List.nil_infix
  · obtain ⟨before, after, heq, -⟩ := List.lookup_eq_some_iff.mp hg
    have hmem : (g, t) ∈ st.caps := by simp [heq]
    exact (hst.taken.2 _ hmem).resolve_left List.not_mem_nil

theorem captured_matchCaps_of_not_mem {r : Regex γ} {text : List Char}
    {caps : List (γ × List Char)} (h : matchCaps r text = some caps) {g : γ}
    (hg : g ∉ r.groups) : captured caps g = [] := by
  obtain ⟨st, hst, hcaps⟩ := exists_parses_of_first h
  obtain rfl := Option.some_inj.mp hcaps
  exact hst.captured_of_not_mem hg

theorem captured_matchCaps_ne_nil {r : Regex γ} {text : List Char} {caps : List (γ × List Char)}
    (h : matchCaps r text = some caps) {g : γ} (hg : r.must g) : captured caps g ≠ [] := by
  obtain ⟨st, hst, hcaps⟩ := exists_parses_of_first h
  obtain rfl := Option.some_inj.mp hcaps
  exact hst.captured_ne_nil hg

/-! ## The way of a repetition -/

/-- `k` asks for a character of a class. -/
def Needs (q : Char → Bool) (k : Cursor γ → Option β) : Prop :=
  ∀ st, (∀ c cs, st.rest = c :: cs → q c = false) → k st = none

omit [DecidableEq γ] in
theorem needs_cls (q : Char → Bool) (k : Cursor γ → Option β) : Needs q (first (cls q) k) := by
  intro st h
  rw [first]
  split
  · rfl
  · next c cs hrest => simp [h c cs hrest]

omit [DecidableEq γ] in
theorem needs_plus (q : Char → Bool) (k : Cursor γ → Option β) : Needs q (first (plus q) k) :=
  needs_cls q _

omit [DecidableEq γ] in
theorem needs_lit {c : Char} {cs : List Char} (k : Cursor γ → Option β) :
    Needs (fun d => d = c) (first (lit (c :: cs)) k) :=
  needs_cls _ _

omit [DecidableEq γ] in
theorem needs_group {q : Char → Bool} {r : Regex γ}
    (h : ∀ k : Cursor γ → Option β, Needs q (first r k)) (g : γ) (k : Cursor γ → Option β) :
    Needs q (first (group g r) k) := by
  intro st hst
  exact h _ st hst

omit [DecidableEq γ] in
theorem needs_cat {q : Char → Bool} {r : Regex γ}
    (h : ∀ k : Cursor γ → Option β, Needs q (first r k)) (rs : List (Regex γ))
    (k : Cursor γ → Option β) : Needs q (first (cat (r :: rs)) k) :=
  h _

/-- A text does not go on with a character of a class. -/
def Stops (p : Char → Bool) (text : List Char) : Prop :=
  ∀ c cs, text = c :: cs → p c = false

theorem stops_nil (p : Char → Bool) : Stops p [] := by
  intro c cs h
  cases h

theorem stops_cons {p : Char → Bool} {c : Char} (h : p c = false) (cs : List Char) :
    Stops p (c :: cs) := by
  rintro _ _ ⟨⟩
  exact h

/-- What is taken of a class does not go beyond where the class stops. -/
theorem Stops.exists_of_append {p : Char → Bool} {d b x y : List Char} (hb : Stops p b)
    (hx : ∀ c ∈ x, p c) (h : d ++ b = x ++ y) : ∃ z, d = x ++ z ∧ y = z ++ b := by
  rcases List.append_eq_append_iff.mp h with ⟨z, rfl, hz⟩ | ⟨z, rfl, hz⟩
  · rcases z with _ | ⟨e, z⟩
    · exact ⟨[], by simp, by simpa using hz.symm⟩
    · have he := hx e (by simp)
      rw [hb e (z ++ y) (by simpa using hz)] at he
      cases he
  · exact ⟨z, rfl, hz⟩

omit [DecidableEq γ] in
theorem Needs.eq_none {q : Char → Bool} {k : Cursor γ → Option β} (h : Needs q k)
    {text : List Char} (hq : Stops q text) (start : Bool) (caps : List (γ × List Char)) :
    k ⟨start, text, caps⟩ = none :=
  h _ hq

section Star

variable {p q : Char → Bool} {k : Cursor γ → Option β} {start : Bool} {a b : List Char}
  {caps : List (γ × List Char)}

omit [DecidableEq γ] in
theorem firstStar_stop (hb : Stops p b) : firstStar p k caps start b = k ⟨start, b, caps⟩ := by
  cases b with
  | nil => rfl
  | cons c b => rw [firstStar, if_neg (by simp [hb c b rfl])]

omit [DecidableEq γ] in
/-- All it can take, if that leads through. -/
theorem firstStar_of_some (ha : ∀ c ∈ a, p c) (hb : Stops p b) {r : β}
    (hk : k ⟨start && a.isEmpty, b, caps⟩ = some r) : firstStar p k caps start (a ++ b) = some r := by
  induction a generalizing start with
  | nil =>
    rw [List.nil_append, firstStar_stop hb]
    simpa using hk
  | cons c a ih =>
    obtain ⟨hc, ha⟩ := List.forall_mem_cons.mp ha
    rw [List.cons_append, firstStar, if_pos hc, ih ha (by simpa using hk), Option.some_or]

omit [DecidableEq γ] in
/-- All it can take, if what follows asks for another character. -/
theorem firstStar_eq (ha : ∀ c ∈ a, p c) (hb : Stops p b) (hk : Needs q k)
    (hq : ∀ c ∈ a, q c = false) :
    firstStar p k caps start (a ++ b) = k ⟨start && a.isEmpty, b, caps⟩ := by
  induction a generalizing start with
  | nil => simpa using firstStar_stop hb
  | cons c a ih =>
    obtain ⟨hc, ha⟩ := List.forall_mem_cons.mp ha
    obtain ⟨hqc, hqa⟩ := List.forall_mem_cons.mp hq
    rw [List.cons_append, firstStar, if_pos hc, ih ha hqa,
      hk.eq_none (stops_cons hqc (a ++ b)), Option.or_none]
    simp

omit [DecidableEq γ] in
theorem first_plus_of_some (ha : ∀ c ∈ a, p c) (hne : a ≠ []) (hb : Stops p b) {r : β}
    (hk : k ⟨false, b, caps⟩ = some r) : first (plus p) k ⟨start, a ++ b, caps⟩ = some r := by
  obtain ⟨c, a, rfl⟩ := List.exists_cons_of_ne_nil hne
  obtain ⟨hc, ha⟩ := List.forall_mem_cons.mp ha
  have hstar : firstStar p k caps false (a ++ b) = some r := firstStar_of_some ha hb hk
  simpa [plus, first, hc] using hstar

omit [DecidableEq γ] in
theorem first_plus_eq (ha : ∀ c ∈ a, p c) (hne : a ≠ []) (hb : Stops p b) (hk : Needs q k)
    (hq : ∀ c ∈ a, q c = false) :
    first (plus p) k ⟨start, a ++ b, caps⟩ = k ⟨false, b, caps⟩ := by
  obtain ⟨c, a, rfl⟩ := List.exists_cons_of_ne_nil hne
  obtain ⟨hc, ha⟩ := List.forall_mem_cons.mp ha
  have hstar : firstStar p k caps false (a ++ b) = k ⟨false && a.isEmpty, b, caps⟩ :=
    firstStar_eq ha hb hk fun d hd => hq d (List.mem_cons_of_mem c hd)
  simpa [plus, first, hc] using hstar

omit [DecidableEq γ] in
theorem Cursor.capture_append (g : γ) (start' : Bool) (caps' : List (γ × List Char)) :
    Cursor.capture g ⟨start, a ++ b, caps⟩ ⟨start', b, caps'⟩ = ⟨start', b, (g, a) :: caps'⟩ := by
  simp [Cursor.capture, Cursor.taken]

omit [DecidableEq γ] in
theorem Needs.capture (hk : Needs q k) (g : γ) (st : Cursor γ) :
    Needs q fun st' => k (st.capture g st') :=
  fun st' hst' => hk (st.capture g st') hst'

omit [DecidableEq γ] in
theorem first_group_plus_of_some {g : γ} (ha : ∀ c ∈ a, p c) (hne : a ≠ []) (hb : Stops p b) {r : β}
    (hk : k ⟨false, b, (g, a) :: caps⟩ = some r) :
    first (group g (plus p)) k ⟨start, a ++ b, caps⟩ = some r := by
  refine first_plus_of_some ha hne hb ?_
  rwa [Cursor.capture_append]

omit [DecidableEq γ] in
theorem first_group_star_of_some {g : γ} (ha : ∀ c ∈ a, p c) (hb : Stops p b) {r : β}
    (hk : k ⟨start && a.isEmpty, b, (g, a) :: caps⟩ = some r) :
    first (group g (star p)) k ⟨start, a ++ b, caps⟩ = some r := by
  refine firstStar_of_some ha hb ?_
  rwa [Cursor.capture_append]

omit [DecidableEq γ] in
theorem first_group_plus_eq {g : γ} (ha : ∀ c ∈ a, p c) (hne : a ≠ []) (hb : Stops p b)
    (hk : Needs q k) (hq : ∀ c ∈ a, q c = false) :
    first (group g (plus p)) k ⟨start, a ++ b, caps⟩ = k ⟨false, b, (g, a) :: caps⟩ := by
  refine (first_plus_eq ha hne hb (hk.capture g _) hq).trans ?_
  rw [Cursor.capture_append]

omit [DecidableEq γ] in
/-- A repetition that does not end where what follows can go on. -/
theorem first_plus_eq_none (hk : Needs q k) {text : List Char}
    (h : ∀ x y, text = x ++ y → x ≠ [] → (∀ c ∈ x, p c) → Stops q y) :
    first (plus p) k ⟨start, text, caps⟩ = none := by
  rw [← Option.not_isSome_iff_eq_none]
  intro hsome
  obtain ⟨r, hr⟩ := Option.isSome_iff_exists.mp hsome
  obtain ⟨st', hparse, hst'⟩ := exists_parses_of_first hr
  obtain ⟨x, hne, hx, htext⟩ := hparse.of_plus
  rw [hk st' (h x st'.rest htext hne hx)] at hst'
  cases hst'

omit [DecidableEq γ] in
theorem first_lit (cs : List Char) (k : Cursor γ → Option β) :
    first (lit cs) k ⟨start, cs ++ b, caps⟩ = k ⟨start && cs.isEmpty, b, caps⟩ := by
  induction cs generalizing start with
  | nil => simp [lit]
  | cons c cs ih =>
    have hlit : first (lit (c :: cs)) k ⟨start, c :: cs ++ b, caps⟩ =
        first (lit cs) k ⟨false, cs ++ b, caps⟩ := by
      simp [lit, first]
    rw [hlit, ih]
    simp

omit [DecidableEq γ] in
/-- The longest way through: no longer one leads on. -/
theorem firstStar_last {d : List Char} (ha : ∀ c ∈ a, p c) (hd : ∀ c ∈ d, p c) (hb : Stops p b)
    (hnone : ∀ x y, d = x ++ y → x ≠ [] → k ⟨false, y ++ b, caps⟩ = none) {r : β}
    (hr : k ⟨start && a.isEmpty, d ++ b, caps⟩ = some r) :
    firstStar p k caps start (a ++ (d ++ b)) = some r := by
  induction a generalizing start with
  | nil =>
    rw [List.nil_append]
    simp only [List.isEmpty_nil, Bool.and_true] at hr
    rcases d with _ | ⟨c, d⟩
    · rwa [List.nil_append, firstStar_stop hb]
    · obtain ⟨hc, hd⟩ := List.forall_mem_cons.mp hd
      have hstar : firstStar p k caps false (d ++ b) = none := by
        rw [← Option.not_isSome_iff_eq_none]
        intro hsome
        obtain ⟨r', hr'⟩ := Option.isSome_iff_exists.mp hsome
        obtain ⟨x, rest, hx, heq, hk⟩ := exists_of_firstStar hr'
        -- what it takes cannot go beyond `d`
        obtain ⟨y, rfl, rfl⟩ := hb.exists_of_append hx heq
        have hnone' := hnone (c :: x) y rfl (List.cons_ne_nil c x)
        simp only [Bool.false_and] at hk
        rw [hnone'] at hk
        cases hk
      rw [List.cons_append, firstStar, if_pos hc, hstar, Option.none_or]
      exact hr
  | cons e a ih =>
    obtain ⟨he, ha⟩ := List.forall_mem_cons.mp ha
    rw [List.cons_append, firstStar, if_pos he, ih ha (by simpa using hr), Option.some_or]

omit [DecidableEq γ] in
theorem first_plus_last {d : List Char} (ha : ∀ c ∈ a, p c) (hne : a ≠ []) (hd : ∀ c ∈ d, p c)
    (hb : Stops p b) (hnone : ∀ x y, d = x ++ y → x ≠ [] → k ⟨false, y ++ b, caps⟩ = none) {r : β}
    (hr : k ⟨false, d ++ b, caps⟩ = some r) :
    first (plus p) k ⟨start, a ++ (d ++ b), caps⟩ = some r := by
  obtain ⟨c, a, rfl⟩ := List.exists_cons_of_ne_nil hne
  obtain ⟨hc, ha⟩ := List.forall_mem_cons.mp ha
  have hstar : firstStar p k caps false (a ++ (d ++ b)) = some r :=
    firstStar_last ha hd hb hnone (by simpa using hr)
  simpa [plus, first, hc] using hstar

omit [DecidableEq γ] in
theorem first_group_plus_last {g : γ} {d : List Char} (ha : ∀ c ∈ a, p c) (hne : a ≠ [])
    (hd : ∀ c ∈ d, p c) (hb : Stops p b)
    (hnone : ∀ x y, d = x ++ y → x ≠ [] → ∀ caps, k ⟨false, y ++ b, caps⟩ = none) {r : β}
    (hr : k ⟨false, d ++ b, (g, a) :: caps⟩ = some r) :
    first (group g (plus p)) k ⟨start, a ++ (d ++ b), caps⟩ = some r := by
  refine first_plus_last ha hne hd hb ?_ ?_
  · intro x y hxy hx
    exact hnone x y hxy hx _
  · rwa [Cursor.capture_append]

end Star

/-! ## Columns -/

section Column

variable {p q : Char → Bool} {r : Regex γ} {text : List Char}

/-- Before `c`, the pattern takes exactly `text` if what follows asks for a character of `q`. -/
def Forced (β : Type*) (q : Char → Bool) (c : Char) (r : Regex γ) (text : List Char) : Prop :=
  ∀ (k : Cursor γ → Option β) (start : Bool) (b : List Char) (caps : List (γ × List Char)),
    Needs q k → first r k ⟨start, text ++ c :: b, caps⟩ = k ⟨false, c :: b, caps⟩

omit [DecidableEq γ] in
theorem forced_plus {c : Char} (htext : ∀ d ∈ text, p d) (hne : text ≠ []) (hc : p c = false)
    (hq : ∀ d ∈ text, q d = false) : Forced (γ := γ) β q c (plus p) text := by
  intro k start b caps hk
  exact first_plus_eq htext hne (stops_cons hc b) hk hq

omit [DecidableEq γ] in
/-- One column: a group, and what separates it from the next. -/
theorem Forced.column {q' : Char → Bool} {c : Char} {sep rest : List Char}
    (hr : Forced β q c r text) (hsep : ∀ d ∈ c :: sep, q d) (hrest : Stops q rest)
    {rs : List (Regex γ)} {k : Cursor γ → Option β} (hk : Needs q' (first (cat rs) k))
    (hq' : ∀ d ∈ c :: sep, q' d = false) (g : γ) (start : Bool) (caps : List (γ × List Char)) :
    first (cat (group g r :: plus q :: rs)) k ⟨start, text ++ (c :: sep ++ rest), caps⟩ =
      first (cat rs) k ⟨false, rest, (g, text) :: caps⟩ := by
  have hsep' : first (plus q) (first (cat rs) k) ⟨false, c :: sep ++ rest, (g, text) :: caps⟩ = _ :=
    first_plus_eq hsep (List.cons_ne_nil c sep) hrest hk hq'
  rw [first_cat_cons, ← hsep', first]
  refine (hr _ start (sep ++ rest) caps ?_).trans ?_
  · exact (needs_plus q _).capture g _
  · exact congrArg (first (cat (plus q :: rs)) k) (Cursor.capture_append g false caps)

end Column

/-! ## What a pattern can read -/

/-- The pattern can read the text, whatever follows. -/
def Reads (r : Regex γ) (text : List Char) : Prop :=
  ∀ start b caps, ∃ start' caps', Parses r ⟨start, text ++ b, caps⟩ ⟨start', b, caps'⟩

section Reads

variable {p : Char → Bool} {r s : Regex γ} {a b : List Char}

omit [DecidableEq γ] in
theorem reads_star (ha : ∀ c ∈ a, p c) : Reads (γ := γ) (star p) a :=
  fun _ _ caps => ⟨_, caps, a, ha, rfl, rfl, rfl⟩

omit [DecidableEq γ] in
theorem reads_cls {c : Char} (hc : p c) : Reads (γ := γ) (cls p) [c] :=
  fun _ _ caps => ⟨false, caps, c, hc, rfl, rfl, rfl⟩

omit [DecidableEq γ] in
theorem Reads.seq (hr : Reads r a) (hs : Reads s b) : Reads (.seq r s) (a ++ b) := by
  intro start rest caps
  obtain ⟨start₁, caps₁, h₁⟩ := hr start (b ++ rest) caps
  obtain ⟨start₂, caps₂, h₂⟩ := hs start₁ rest caps₁
  exact ⟨start₂, caps₂, _, by rwa [List.append_assoc], h₂⟩

omit [DecidableEq γ] in
theorem reads_eps : Reads (γ := γ) eps [] :=
  fun start _ caps => ⟨start, caps, rfl⟩

omit [DecidableEq γ] in
theorem reads_cat_nil : Reads (γ := γ) (cat []) [] :=
  reads_eps

omit [DecidableEq γ] in
theorem Reads.cat {rs : List (Regex γ)} (hr : Reads r a) (hrs : Reads (.cat rs) b) :
    Reads (.cat (r :: rs)) (a ++ b) :=
  hr.seq hrs

omit [DecidableEq γ] in
theorem reads_plus (ha : ∀ c ∈ a, p c) (hne : a ≠ []) : Reads (γ := γ) (plus p) a := by
  obtain ⟨c, a, rfl⟩ := List.exists_cons_of_ne_nil hne
  obtain ⟨hc, ha⟩ := List.forall_mem_cons.mp ha
  exact (reads_cls hc).seq (reads_star ha)

omit [DecidableEq γ] in
theorem reads_lit (cs : List Char) : Reads (γ := γ) (lit cs) cs := by
  induction cs with
  | nil => exact reads_eps
  | cons c cs ih => exact (reads_cls (by simp)).seq ih

omit [DecidableEq γ] in
theorem Reads.group (hr : Reads r a) (g : γ) : Reads (.group g r) a := by
  intro start rest caps
  obtain ⟨start', caps', h⟩ := hr start rest caps
  exact ⟨_, _, _, h, rfl⟩

omit [DecidableEq γ] in
theorem Reads.opt (hr : Reads r a) : Reads (.opt r) a := by
  intro start rest caps
  obtain ⟨start', caps', h⟩ := hr start rest caps
  exact ⟨start', caps', .inl h⟩

omit [DecidableEq γ] in
theorem reads_opt_nil (r : Regex γ) : Reads (opt r) [] :=
  fun start _ caps => ⟨start, caps, .inr rfl⟩

omit [DecidableEq γ] in
theorem Reads.matches (hr : Reads r a) (b : List Char) : Matches r (a ++ b) := by
  obtain ⟨start', caps', h⟩ := hr true b []
  exact matches_iff.mpr ⟨_, h⟩

end Reads

end Regex
end LdmsTest
