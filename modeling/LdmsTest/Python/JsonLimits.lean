import LdmsTest.Python.JsonRoundTrip

/-!
# The limits of the interpreter

`json.loads` raises a `ValueError` for an integer with too many digits, and a `RecursionError` where
too many containers are inside each other.  `loads` is without these limits; `withinLimits` is
whether a text that it reads meets them.

* `Place`, `next`: the scan of a text, which tells integers from other numbers and leaves out what is
  in strings.
* `Fits`: an object whose integers and containers are within limits.
* `withinLimits_dumps`: the text of such an object is within the limits.
-/

namespace LdmsTest
namespace Json

open Val (Keyed)

/-! ## The scan of a text -/

/-- What the next character is part of. -/
inductive Place where
  | outside
  | string
  /-- behind a backslash in a string -/
  | escaped
  /-- behind so many digits of a number -/
  | integer (digits : ℕ)
  /-- behind the point or the `e` of a number -/
  | float
  deriving DecidableEq

/-- A character that is in no string and no number, inside so many containers. -/
def enter (lim : Limits) (depth : ℕ) (c : Char) : Option (Place × ℕ) :=
  if c = '"' then some (.string, depth)
  else if c = '[' ∨ c = '\x7b' then
    if depth < lim.depth then some (.outside, depth + 1) else none
  else if c = ']' ∨ c = '\x7d' then some (.outside, depth - 1)
  else if c.isDigit then some (.integer 1, depth)
  else some (.outside, depth)

/-- The end of a number, if it is an integer: `int` of its text. -/
def Place.ends (lim : Limits) : Place → Bool
  | .integer digits => lim.allows digits
  | _ => true

/-- A character of a text. -/
def next (lim : Limits) (place : Place) (depth : ℕ) (c : Char) : Option (Place × ℕ) :=
  match place with
  | .outside => enter lim depth c
  | .string => some (if c = '\\' then .escaped else if c = '"' then .outside else .string, depth)
  | .escaped => some (.string, depth)
  | .integer digits =>
    if c.isDigit then some (.integer (digits + 1), depth)
    else if c = '.' ∨ c = 'e' ∨ c = 'E' then some (.float, depth)
    else if lim.allows digits then enter lim depth c
    else none
  | .float =>
    if c.isDigit ∨ c = '.' ∨ c = 'e' ∨ c = 'E' ∨ c = '+' ∨ c = '-' then some (.float, depth)
    else enter lim depth c

/-- The rest of a text is within the limits. -/
def reads (lim : Limits) (place : Place) (depth : ℕ) : List Char → Bool
  | [] => place.ends lim
  | c :: cs =>
    match next lim place depth c with
    | none => false
    | some (place, depth) => reads lim place depth cs

/-- **A text within the limits.**  Where `loads` reads an object, `json.loads` reads it, too,
exactly if its text is. -/
def withinLimits (lim : Limits) (cs : List Char) : Bool :=
  reads lim .outside 0 cs

variable {lim : Limits} {depth : ℕ}

theorem reads_of_next {place place' : Place} {depth' : ℕ} {c : Char}
    (h : next lim place depth c = some (place', depth')) (cs : List Char) :
    reads lim place depth (c :: cs) = reads lim place' depth' cs := by
  rw [reads, h]

/-! ### Strings -/

theorem reads_string_plain {c : Char} (hquote : c ≠ '"') (hslash : c ≠ '\\') (cs : List Char) :
    reads lim .string depth (c :: cs) = reads lim .string depth cs :=
  reads_of_next (by rw [next, if_neg hslash, if_neg hquote]) cs

theorem reads_string_escape (c : Char) (cs : List Char) :
    reads lim .string depth ('\\' :: c :: cs) = reads lim .string depth cs := by
  rw [reads_of_next rfl, if_pos rfl, reads_of_next rfl]

theorem exists_of_consChar_ok {c : Char} {r : Except LoadError (List Char × List Char)}
    {p : List Char × List Char} (h : consChar c r = .ok p) : ∃ s, r = .ok (s, p.2) := by
  cases r with
  | error e => cases h
  | ok q =>
    cases h
    exact ⟨q.1, rfl⟩

theorem ne_of_isHexDigit {c : Char} (h : Numeral.isHexDigit c) : c ≠ '"' ∧ c ≠ '\\' := by
  refine ⟨?_, ?_⟩
  · rintro rfl
    cases h
  · rintro rfl
    cases h

theorem reads_hex4 {a b c d : Char} {n : ℕ} (h : ofHex4 [a, b, c, d] = some n) (cs : List Char) :
    reads lim .string depth (a :: b :: c :: d :: cs) = reads lim .string depth cs := by
  have hall : [a, b, c, d].all Numeral.isHexDigit := by
    by_contra hnot
    rw [ofHex4, if_neg hnot] at h
    cases h
  have hplain (x : Char) (hx : x ∈ [a, b, c, d]) := ne_of_isHexDigit (List.all_eq_true.mp hall x hx)
  simp only [List.forall_mem_cons] at hplain
  obtain ⟨ha, hb, hc, hd, -⟩ := hplain
  rw [reads_string_plain ha.1 ha.2, reads_string_plain hb.1 hb.2, reads_string_plain hc.1 hc.2,
    reads_string_plain hd.1 hd.2]

/-- **A string** is left at its quote. -/
theorem reads_of_scanString {cs : List Char} {p : List Char × List Char}
    (h : scanString cs = .ok p) : reads lim .string depth cs = reads lim .outside depth p.2 := by
  fun_induction scanString cs generalizing p with
  | case2 cs =>
    cases h
    rw [reads_of_next rfl, if_neg (by decide), if_pos rfl]
  | case5 a b c d e f g h' cs n hn hhigh m hm hlow ih =>
    obtain ⟨s, hs⟩ := exists_of_consChar_ok h
    rw [reads_string_escape, reads_hex4 hn, reads_string_escape, reads_hex4 hm, ih hs]
  | case8 a b c d e f g h' cs n hn hhigh hlow ih =>
    obtain ⟨s, hs⟩ := exists_of_consChar_ok h
    rw [reads_string_escape, reads_hex4 hn, ih hs]
  | case12 a b c d cs hne n hn hhigh hlow ih =>
    obtain ⟨s, hs⟩ := exists_of_consChar_ok h
    rw [reads_string_escape, reads_hex4 hn, ih hs]
  | case14 c cs hne hne' c' hc ih =>
    obtain ⟨s, hs⟩ := exists_of_consChar_ok h
    rw [reads_string_escape, ih hs]
  | case16 c cs hquote _ _ hslash _ ih =>
    obtain ⟨s, hs⟩ := exists_of_consChar_ok h
    have hne : c ≠ '\\' := by
      rintro rfl
      cases cs with
      | nil => cases hs
      | cons d cs => exact hslash d cs rfl rfl
    rw [reads_string_plain hquote hne, ih hs]
  | _ => cases h

/-! ### Numbers -/

theorem reads_integer_digits (n : ℕ) (cs : List Char) : reads lim (.integer n) depth cs =
    reads lim (.integer (n + (scanDigits cs).1.length)) depth (scanDigits cs).2 := by
  induction cs generalizing n with
  | nil => rfl
  | cons c cs ih =>
    cases hc : c.isDigit with
    | true =>
      have hnext : next lim (.integer n) depth c = some (.integer (n + 1), depth) := if_pos hc
      rw [reads_of_next hnext, ih, scanDigits, scanDigits, List.takeWhile_cons_of_pos hc,
        List.dropWhile_cons_of_pos hc, List.length_cons, Nat.add_assoc, Nat.add_comm 1]
    | false =>
      have hnot : ¬ c.isDigit = true := by simp [hc]
      rw [scanDigits, List.takeWhile_cons_of_neg hnot, List.dropWhile_cons_of_neg hnot]
      rfl

theorem reads_float_digits (cs : List Char) :
    reads lim .float depth cs = reads lim .float depth (scanDigits cs).2 := by
  induction cs with
  | nil => rfl
  | cons c cs ih =>
    cases hc : c.isDigit with
    | true =>
      have hnext : next lim .float depth c = some (.float, depth) := if_pos (Or.inl hc)
      rw [reads_of_next hnext, ih, scanDigits, scanDigits, List.dropWhile_cons_of_pos hc]
    | false =>
      have hnot : ¬ c.isDigit = true := by simp [hc]
      rw [scanDigits, List.dropWhile_cons_of_neg hnot]

theorem next_outside_digit {c : Char} (hc : c.isDigit) :
    next lim .outside depth c = some (.integer 1, depth) := by
  have hne (c' : Char) (hc' : c'.isDigit = false) : c ≠ c' := by
    rintro rfl
    rw [hc] at hc'
    cases hc'
  rw [next, enter, if_neg (hne _ rfl), if_neg (not_or_intro (hne _ rfl) (hne _ rfl)),
    if_neg (not_or_intro (hne _ rfl) (hne _ rfl)), if_pos hc]

/-- The digits of a number are counted. -/
theorem reads_of_scanNat {cs : List Char} {r : List Char × List Char} (h : scanNat cs = some r) :
    reads lim .outside depth cs = reads lim (.integer r.1.length) depth r.2 := by
  cases cs with
  | nil => cases h
  | cons c cs =>
    rw [scanNat] at h
    split at h
    · next hzero =>
      cases h
      rw [hzero]
      exact reads_of_next (next_outside_digit rfl) cs
    · split at h
      · next hc =>
        cases h
        rw [reads_of_next (next_outside_digit hc), reads_integer_digits, scanDigits, scanDigits,
          List.takeWhile_cons_of_pos hc, List.dropWhile_cons_of_pos hc, List.length_cons,
          Nat.add_comm]
      · cases h

/-- The digits of an integer. -/
def digitCount (i : List Char) : ℕ :=
  i.countP Char.isDigit

theorem digitCount_of_scanNat {cs : List Char} {r : List Char × List Char}
    (h : scanNat cs = some r) : digitCount r.1 = r.1.length := by
  refine List.countP_eq_length.mpr fun c hc => ?_
  cases cs with
  | nil => cases h
  | cons c' cs =>
    rw [scanNat] at h
    split_ifs at h
    · cases h
      rw [List.mem_singleton.mp hc]
      rfl
    · cases h
      exact List.mem_takeWhile_imp hc

theorem reads_of_scanInteger {cs : List Char} {r : List Char × List Char}
    (h : scanInteger cs = some r) :
    reads lim .outside depth cs = reads lim (.integer (digitCount r.1)) depth r.2 := by
  unfold scanInteger at h
  split at h
  · obtain ⟨r', hr', rfl⟩ := Option.map_eq_some_iff.mp h
    rw [reads_of_next rfl, reads_of_scanNat hr', digitCount,
      List.countP_cons_of_neg (by decide), ← digitCount, digitCount_of_scanNat hr']
  · rw [reads_of_scanNat h, digitCount_of_scanNat h]

theorem reads_of_scanFrac {n : ℕ} {cs : List Char} (h : (scanFrac cs).1 ≠ []) :
    reads lim (.integer n) depth cs = reads lim .float depth (scanFrac cs).2 := by
  unfold scanFrac at h ⊢
  split at h
  · split_ifs at h ⊢ with hdigits
    · exact absurd rfl h
    · rw [reads_of_next rfl, reads_float_digits]
  · exact absurd rfl h

theorem scanFrac_eq {cs : List Char} (h : (scanFrac cs).1 = []) : scanFrac cs = ([], cs) := by
  unfold scanFrac at h ⊢
  split at h
  · split_ifs at h ⊢
    rfl
  · rfl

theorem reads_of_scanExponent {cs : List Char} {r : List Char × List Char}
    (h : scanExponent cs = some r) : reads lim .float depth cs = reads lim .float depth r.2 := by
  cases cs with
  | nil => cases h
  | cons c cs =>
    rw [scanExponent] at h
    split at h
    · next hsign =>
      split at h
      · cases h
      · cases h
        have hnext : next lim .float depth c = some (.float, depth) := by
          rcases hsign with rfl | rfl <;> rfl
        rw [reads_of_next hnext, reads_float_digits]
    · split at h
      · cases h
        exact reads_float_digits (c :: cs)
      · cases h

theorem scanExp_eq {cs : List Char} (h : (scanExp cs).1 = []) : scanExp cs = ([], cs) := by
  unfold scanExp at h ⊢
  split at h
  · rfl
  · split_ifs at h ⊢
    · split at h
      · cases h
      · rfl
    · rfl

/-- Behind the digits of a number, or behind its point. -/
def Counting (place : Place) : Prop :=
  place = .float ∨ ∃ n, place = .integer n

theorem reads_of_scanExp {place : Place} (hplace : Counting place) {cs : List Char}
    (h : (scanExp cs).1 ≠ []) : reads lim place depth cs = reads lim .float depth (scanExp cs).2 := by
  unfold scanExp at h ⊢
  split at h
  · exact absurd rfl h
  · next e cs =>
    split_ifs at h ⊢ with he
    · have hnext : next lim place depth e = some (.float, depth) := by
        rcases hplace with rfl | ⟨n, rfl⟩ <;> rcases he with rfl | rfl <;> rfl
      rw [reads_of_next hnext]
      split at h
      · next hr =>
        have hread : reads lim .float depth cs = _ := reads_of_scanExponent hr
        exact hread
      · exact absurd rfl h
    · exact absurd rfl h

/-- **A number**: only the digits of an integer are counted. -/
theorem reads_of_scanNumber {cs i f rest : List Char} (h : scanNumber cs = some ((i, f), rest)) :
    reads lim .outside depth cs =
      reads lim (if f = [] then .integer (digitCount i) else .float) depth rest := by
  obtain ⟨r, hr, heq⟩ := Option.map_eq_some_iff.mp h
  cases heq
  rw [reads_of_scanInteger hr]
  by_cases hfrac : (scanFrac r.2).1 = []
  · rw [scanFrac_eq hfrac]
    dsimp only
    rw [List.nil_append]
    by_cases hexp : (scanExp r.2).1 = []
    · rw [if_pos hexp, scanExp_eq hexp]
    · rw [if_neg hexp, reads_of_scanExp (Or.inr ⟨_, rfl⟩) hexp]
  · rw [if_neg (List.append_ne_nil_of_left_ne_nil hfrac _), reads_of_scanFrac hfrac]
    by_cases hexp : (scanExp (scanFrac r.2).2).1 = []
    · rw [scanExp_eq hexp]
    · rw [reads_of_scanExp (Or.inl rfl) hexp]

/-- A number ends in front of what may follow an object. -/
theorem reads_rest {place : Place} (hplace : Counting place) (hends : place.ends lim)
    {rest : List Char} (hrest : Delimited rest) :
    reads lim place depth rest = reads lim .outside depth rest := by
  obtain rfl | ⟨c, cs, rfl, hc⟩ := hrest.cases
  · exact hends
  · have hnext : next lim place depth c = enter lim depth c := by
      rcases hplace with rfl | ⟨n, rfl⟩
      · rcases hc with rfl | rfl | rfl | rfl <;> rfl
      · have hallows : lim.allows n = true := hends
        rcases hc with rfl | rfl | rfl | rfl <;> exact if_pos hallows
    rw [reads, reads, hnext]
    rfl

/-! ## Objects within the limits -/

variable {F : Type} [JsonFloat F]

/-- **An object within the limits**: `int` reads its integers, and at most `room` containers of it
are inside each other. -/
inductive Fits : ℕ → Val F → Prop where
  | none {room : ℕ} : Fits room .none
  | primitive {room : ℕ} {v : Val F} : v.isPrimitive →
      (∀ n, v = .int n → (PyRuntime.limits F).allows (digitCount (intText n))) → Fits room v
  | list {room : ℕ} {xs : List (Val F)} : (∀ x ∈ xs, Fits room x) → Fits (room + 1) (.list xs)
  | tuple {room : ℕ} {xs : List (Val F)} : (∀ x ∈ xs, Fits room x) → Fits (room + 1) (.tuple xs)
  | dict {room : ℕ} {d : List (String × Val F)} : (∀ p ∈ d, Fits room p.2) →
      Fits (room + 1) (.dict d)

theorem reads_encodeStr (s : String) (rest : List Char) :
    reads lim .outside depth (encodeStr s ++ rest) = reads lim .outside depth rest := by
  have hstring := scanString_flatMap_escape s.toList rest
  rw [encodeStr, List.cons_append, List.append_assoc, List.singleton_append, reads_of_next rfl]
  exact reads_of_scanString hstring

theorem reads_dump (x : F) {rest : List Char} (hrest : Delimited rest) :
    reads lim .outside depth (JsonFloat.dump x ++ rest) = reads lim .outside depth rest := by
  rcases JsonFloat.dump_cases x with ⟨h, -⟩ | ⟨h, -⟩ | ⟨h, -⟩ | ⟨i, f, hf, h, -⟩
  · rw [h]; rfl
  · rw [h]; rfl
  · rw [h]; rfl
  · rw [reads_of_scanNumber (scanNumber_append hrest h), if_neg hf]
    exact reads_rest (Or.inl rfl) rfl hrest

theorem reads_intText {n : ℤ} (hn : lim.allows (digitCount (intText n))) {rest : List Char}
    (hrest : Delimited rest) :
    reads lim .outside depth (intText n ++ rest) = reads lim .outside depth rest := by
  rw [reads_of_scanNumber (scanNumber_append hrest (scanNumber_intText n)), if_pos rfl]
  exact reads_rest (Or.inr ⟨_, rfl⟩) hn hrest

/-- The scan of an object that fits goes on behind it. -/
def ReadsOn (room : ℕ) (v : Val F) : Prop :=
  ∀ (level depth : ℕ) (rest : List Char), depth + room ≤ (PyRuntime.limits F).depth →
    Delimited rest →
    reads (PyRuntime.limits F) .outside depth (encode none level v ++ rest) =
      reads (PyRuntime.limits F) .outside depth rest

/-- The items of an array are gone through up to its bracket. -/
theorem reads_joined_items {room : ℕ} {x : Val F} {xs : List (Val F)}
    (ih : ∀ y ∈ x :: xs, ReadsOn room y) (level : ℕ)
    (hroom : depth + room ≤ (PyRuntime.limits F).depth) (rest : List Char) :
    reads (PyRuntime.limits F) .outside depth
        (joined none level (encodeItems none level (x :: xs)) ++ ']' :: rest) =
      reads (PyRuntime.limits F) .outside depth (']' :: rest) := by
  induction xs generalizing x with
  | nil => exact ih x List.mem_cons_self level depth _ hroom (delimited_cons (by decide) rest)
  | cons y ys ihxs =>
    obtain ⟨ihx, ih⟩ := List.forall_mem_cons.mp ih
    have hread := ihx level depth (separator none level ++ (joined none level
      (encodeItems none level (y :: ys)) ++ ']' :: rest)) hroom (delimited_cons (by decide) _)
    rw [encodeItems, encodeItems, joined_cons_cons, List.append_assoc, List.append_assoc]
    exact hread.trans (ihxs ih)

/-- The items of an object are gone through up to its brace. -/
theorem reads_joined_fields {room : ℕ} {p : String × Val F} {d : List (String × Val F)}
    (ih : ∀ q ∈ p :: d, ReadsOn room q.2) (level : ℕ)
    (hroom : depth + room ≤ (PyRuntime.limits F).depth) (rest : List Char) :
    reads (PyRuntime.limits F) .outside depth
        (joined none level (encodeFields none level (p :: d)) ++ '\x7d' :: rest) =
      reads (PyRuntime.limits F) .outside depth ('\x7d' :: rest) := by
  induction d generalizing p with
  | nil =>
    obtain ⟨k, x⟩ := p
    have hread := ih (k, x) List.mem_cons_self level depth _ hroom
      (delimited_cons (c := '\x7d') (by decide) rest)
    rw [encodeFields, encodeFields, joined, List.append_assoc, reads_encodeStr]
    exact hread
  | cons q d ihd =>
    obtain ⟨k, x⟩ := p
    obtain ⟨ihx, ih⟩ := List.forall_mem_cons.mp ih
    have hread := ihx level depth (separator none level ++ (joined none level
      (encodeFields none level (q :: d)) ++ '\x7d' :: rest)) hroom (delimited_cons (by decide) _)
    rw [encodeFields, encodeFields, joined_cons_cons, List.append_assoc, List.append_assoc,
      List.append_assoc, reads_encodeStr]
    exact hread.trans (ihd ih)

theorem next_open {c : Char} (hc : c = '[' ∨ c = '\x7b') (hdepth : depth < lim.depth) :
    next lim .outside depth c = some (.outside, depth + 1) := by
  rcases hc with rfl | rfl
  · exact if_pos hdepth
  · exact if_pos hdepth

theorem next_close {c : Char} (hc : c = ']' ∨ c = '\x7d') :
    next lim .outside (depth + 1) c = some (.outside, depth) := by
  rcases hc with rfl | rfl
  · rfl
  · rfl

/-- A container is gone through when its items are. -/
theorem reads_container {l r : Char} (hl : l = '[' ∨ l = '\x7b') (hr : r = ']' ∨ r = '\x7d')
    (hdepth : depth < lim.depth) {level : ℕ} {items : List (List Char)} {rest : List Char}
    (hitems : items ≠ [] →
      reads lim .outside (depth + 1) (joined none (level + 1) items ++ r :: rest) =
        reads lim .outside (depth + 1) (r :: rest)) :
    reads lim .outside depth (container none level l r items ++ rest) =
      reads lim .outside depth rest := by
  cases items with
  | nil =>
    show reads lim .outside depth (l :: r :: rest) = _
    rw [reads_of_next (next_open hl hdepth), reads_of_next (next_close hr)]
  | cons item items =>
    have hne := List.cons_ne_nil item items
    rw [container_append hne]
    show reads lim .outside depth (l :: (joined none (level + 1) (item :: items) ++ r :: rest)) = _
    rw [reads_of_next (next_open hl hdepth), hitems hne, reads_of_next (next_close hr)]

theorem readsOn_container_list {room : ℕ} {xs : List (Val F)} (ih : ∀ x ∈ xs, ReadsOn room x)
    (level depth : ℕ) (rest : List Char) (hroom : depth + (room + 1) ≤ (PyRuntime.limits F).depth) :
    reads (PyRuntime.limits F) .outside depth
        (container none level '[' ']' (encodeItems none (level + 1) xs) ++ rest) =
      reads (PyRuntime.limits F) .outside depth rest := by
  refine reads_container (Or.inl rfl) (Or.inl rfl) (by omega) fun hne => ?_
  cases xs with
  | nil => exact absurd rfl hne
  | cons x xs => exact reads_joined_items ih (level + 1) (by omega) rest

theorem readsOn_of_fits {room : ℕ} {v : Val F} (h : Fits room v) : ReadsOn room v := by
  induction h with
  | none => exact fun _ _ _ _ _ => rfl
  | @primitive room v hprim hint =>
    intro level depth rest _ hrest
    cases v with
    | none | list | tuple | dict => cases hprim
    | bool b => cases b <;> rfl
    | int n => exact reads_intText (hint n rfl) hrest
    | float x => exact reads_dump x hrest
    | str s => exact reads_encodeStr s rest
  | list _ ih => exact fun level depth rest hroom _ => readsOn_container_list ih level depth rest hroom
  | tuple _ ih => exact fun level depth rest hroom _ => readsOn_container_list ih level depth rest hroom
  | @dict room d _ ih =>
    intro level depth rest hroom _
    refine reads_container (Or.inr rfl) (Or.inr rfl) (by omega) fun hne => ?_
    cases d with
    | nil => exact absurd rfl hne
    | cons p d => exact reads_joined_fields ih (level + 1) (by omega) rest

/-- Every limit allows twenty digits. -/
theorem allows_intText (lim : Limits) {n : ℤ} (hn : n.natAbs < 10 ^ 20) :
    lim.allows (digitCount (intText n)) := by
  have hlen : (Nat.toDigits 10 n.natAbs).length ≤ 20 :=
    (Nat.length_toDigits_le_iff (by decide) (by decide)).mpr hn
  have hcount : digitCount (intText n) ≤ 20 := by
    unfold intText digitCount
    split
    · rw [List.countP_cons_of_neg (by decide)]
      exact List.countP_le_length.trans hlen
    · exact List.countP_le_length.trans hlen
  rw [Limits.allows, Bool.or_eq_true, decide_eq_true_iff, decide_eq_true_iff]
  exact lim.digits_cases.imp_right fun h => hcount.trans (Nat.le_trans (by decide) h)

theorem Fits.str (room : ℕ) (s : String) : Fits room (.str s : Val F) :=
  .primitive rfl nofun

theorem Fits.float (room : ℕ) (x : F) : Fits room (.float x) :=
  .primitive rfl nofun

/-- A number of 64 bits fits. -/
theorem Fits.int (room : ℕ) {n : ℤ} (hmin : -2 ^ 63 ≤ n) (hmax : n < 2 ^ 63) :
    Fits room (.int n : Val F) := by
  refine .primitive rfl fun m hm => ?_
  obtain rfl := Val.int.inj hm
  exact allows_intText _ (by omega)

/-- **What `json.dumps` writes of an object within the limits** is within the limits. -/
theorem withinLimits_dumps {v : Val F} (h : Fits (PyRuntime.limits F).depth v) :
    withinLimits (PyRuntime.limits F) (dumps none v).toList := by
  have hread := readsOn_of_fits h 0 0 [] (by omega) delimited_nil
  rw [List.append_nil] at hread
  rw [dumps, String.toList_ofList]
  exact hread

end Json
end LdmsTest
