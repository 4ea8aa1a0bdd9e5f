import LdmsTest.Foundation.Fuelled
import LdmsTest.Python.JsonRoundTrip

/-!
# Values one after the other

What a reader finds at the start of a text does not change when something else follows that cannot
be part of it, such as a comma or the end of a line.  So texts that are read as values, with commas
between them and brackets around them, are read as an array.

* `scan_append`: what follows a value.
* `loads_logged`: an array with an item on every line.
* `not_loads_leading_comma`: an array that starts with a comma.
-/

namespace LdmsTest
namespace Json

variable {F : Type} [JsonFloat F]

/-! ## What follows a value -/

/-- The reader finds the same when `rest` follows. -/
def Extends {α : Type} (rest : List Char) (scan : List Char → Except LoadError (α × List Char)) :
    Prop :=
  ∀ cs p, scan cs = .ok p → scan (cs ++ rest) = .ok (p.1, p.2 ++ rest)

theorem consChar_eq_ok {c : Char} {r : Except LoadError (List Char × List Char)}
    {p : List Char × List Char} (h : consChar c r = .ok p) :
    ∃ s left, r = .ok (s, left) ∧ p = (c :: s, left) := by
  cases r with
  | error e => cases h
  | ok q =>
    cases h
    exact ⟨q.1, q.2, rfl, rfl⟩

/-- What follows a string, whatever it is. -/
theorem extends_scanString (rest : List Char) : Extends rest scanString := by
  intro cs p h
  fun_induction scanString cs generalizing p
  case case2 cs =>
    cases h
    rfl
  case case5 hn hhigh m hm hlow ih =>
    obtain ⟨s, left, hs, rfl⟩ := consChar_eq_ok h
    simp only [List.cons_append]
    rw [scanString_pair hn hm hhigh hlow, ih _ hs]
    rfl
  case case8 hn hhigh hlow ih =>
    obtain ⟨s, left, hs, rfl⟩ := consChar_eq_ok h
    simp only [List.cons_append] at ih ⊢
    rw [scanString_u hn (by omega), ih _ hs]
    rfl
  case case12 hn _ hs ih =>
    obtain ⟨s, left, hs', rfl⟩ := consChar_eq_ok h
    simp only [List.cons_append]
    rw [scanString_u hn hs, ih _ hs']
    rfl
  case case14 c cs _ _ c' hc ih =>
    obtain ⟨s, left, hs, rfl⟩ := consChar_eq_ok h
    have hu : c ≠ 'u' := by
      rintro rfl
      cases hc
    simp only [List.cons_append]
    rw [scanString, hc]
    · dsimp only
      rw [ih _ hs]
      rfl
    · exact fun _ _ _ _ _ _ _ _ _ heq _ => hu heq
    · exact fun _ _ _ _ _ heq _ => hu heq
  case case16 c cs hquote _ _ hslash hge ih =>
    obtain ⟨s, left, hs, rfl⟩ := consChar_eq_ok h
    have hne : c ≠ '\\' := by
      intro heq
      cases cs with
      | nil => cases hs
      | cons c' cs' => exact hslash c' cs' heq rfl
    rw [List.cons_append, scanString_plain hquote hne (Nat.le_of_not_lt hge), ih _ hs]
    rfl
  all_goals cases h

section Rest

variable {rest : List Char} (hrest : Delimited rest)
include hrest

theorem scanNat_append_none {cs : List Char} (h : scanNat cs = none) :
    scanNat (cs ++ rest) = none := by
  cases cs with
  | nil =>
    obtain rfl | ⟨c, cs, rfl, hc⟩ := hrest.cases
    · rfl
    · rcases hc with rfl | rfl | rfl | rfl <;> rfl
  | cons c cs =>
    rw [scanNat] at h
    rw [List.cons_append, scanNat]
    split_ifs at h ⊢
    rfl

theorem scanInteger_append_none {cs : List Char} (h : scanInteger cs = none) :
    scanInteger (cs ++ rest) = none := by
  unfold scanInteger at h
  split at h
  · next cs =>
    rw [Option.map_eq_none_iff] at h
    rw [List.cons_append, scanInteger, scanNat_append_none hrest h, Option.map_none]
  · next hminus =>
    have hnat := scanNat_append_none hrest h
    rw [scanInteger, hnat]
    intro cs' heq
    cases cs with
    | nil =>
      rw [List.nil_append] at heq
      have hmem : '-' ∈ [',', ']', '\x7d', '\n'] := hrest '-' (by rw [heq]; rfl)
      exact absurd hmem (by decide)
    | cons c cs => exact hminus cs (congrArg (· :: cs) (List.cons.inj heq).1)

theorem scanNumber_append_none {cs : List Char} (h : scanNumber cs = none) :
    scanNumber (cs ++ rest) = none := by
  rw [scanNumber, Option.map_eq_none_iff] at h
  rw [scanNumber, scanInteger_append_none hrest h, Option.map_none]

/-- A word without delimiters starts a text exactly if it starts it without what follows. -/
theorem isPrefixOf_append {word : List Char} (hword : ∀ c ∈ word, c ∉ [',', ']', '\x7d', '\n'])
    (cs : List Char) : word.isPrefixOf (cs ++ rest) = word.isPrefixOf cs := by
  induction word generalizing cs with
  | nil => rfl
  | cons w word ih =>
    cases cs with
    | nil =>
      cases hr : rest with
      | nil => rfl
      | cons c rest' =>
        have hc : c ∈ [',', ']', '\x7d', '\n'] := hrest c (by rw [hr]; rfl)
        have hne : w ≠ c := by
          rintro rfl
          exact hword w List.mem_cons_self hc
        simp [List.isPrefixOf, hne]
    | cons c cs =>
      rw [List.cons_append, List.isPrefixOf, List.isPrefixOf,
        ih fun c hc => hword c (List.mem_cons_of_mem _ hc)]

theorem extends_scanConstant :
    Extends rest (scanConstant : List Char → Except LoadError (Val F × List Char)) := by
  intro cs p h
  have hwords : ∀ p ∈ (constants : List (List Char × Val F)),
      ∀ c ∈ p.1, c ∉ [',', ']', '\x7d', '\n'] := by
    simp [constants]
  have hfind : (constants : List (List Char × Val F)).find? (fun p => p.1.isPrefixOf (cs ++ rest)) =
      constants.find? fun p => p.1.isPrefixOf cs := by
    rw [← List.head?_filter, ← List.head?_filter,
      List.filter_congr fun p hp => isPrefixOf_append hrest (hwords p hp) cs]
  rw [scanConstant] at h
  rw [scanConstant, hfind]
  split at h
  · next word v heq =>
    cases h
    have hprefix := List.find?_some heq
    have hle : word.length ≤ cs.length := (List.isPrefixOf_iff_prefix.mp hprefix).length_le
    dsimp only
    rw [List.drop_append_of_le_length hle]
    rfl
  · cases h

theorem extends_scanScalar :
    Extends rest (scanScalar : List Char → Except LoadError (Val F × List Char)) := by
  intro cs p h
  rw [scanScalar] at h ⊢
  split at h
  · next hnum =>
    cases h
    rw [scanNumber_append hrest hnum]
    rfl
  · next hnum =>
    rw [scanNumber_append_none hrest hnum]
    exact extends_scanConstant hrest cs p h

omit hrest in
/-- A text that is not all blank. -/
theorem skipSpace_append_of_eq {cs left : List Char} {c : Char} (h : skipSpace cs = c :: left)
    (rest : List Char) : skipSpace (cs ++ rest) = c :: (left ++ rest) := by
  induction cs with
  | nil => cases h
  | cons d cs ih =>
    by_cases hd : isSpace d = true
    · rw [skipSpace, List.dropWhile_cons_of_pos hd] at h
      rw [List.cons_append, skipSpace, List.dropWhile_cons_of_pos hd]
      exact ih h
    · rw [skipSpace_cons (Bool.eq_false_of_not_eq_true hd)] at h
      rw [List.cons_append, skipSpace_cons (Bool.eq_false_of_not_eq_true hd)]
      cases h
      rfl

omit hrest in
theorem Extends.skipSpace {α : Type} {scan : List Char → Except LoadError (α × List Char)}
    (h : Extends rest scan) (hnil : ∀ p, scan [] ≠ .ok p) (cs : List Char) (p : α × List Char)
    (hscan : scan (Json.skipSpace cs) = .ok p) :
    scan (Json.skipSpace (cs ++ rest)) = .ok (p.1, p.2 ++ rest) := by
  cases hskip : Json.skipSpace cs with
  | nil =>
    rw [hskip] at hscan
    exact absurd hscan (hnil p)
  | cons c left =>
    rw [hskip] at hscan
    rw [skipSpace_append_of_eq hskip, ← List.cons_append]
    exact h _ p hscan

omit hrest in
theorem scanValue_nil (n : ℕ) (p : Val F × List Char) : scanValue n [] ≠ .ok p := by
  cases n <;> exact nofun

omit hrest in
theorem scanItems_nil (n : ℕ) (p : List (Val F) × List Char) : scanItems n [] ≠ .ok p := by
  intro h
  cases n with
  | zero => cases h
  | succ n =>
    rw [scanItems] at h
    obtain ⟨q, hq, -⟩ := exists_of_bind_ok h
    exact scanValue_nil n q hq

omit hrest in
theorem scanFields_nil (n : ℕ) (p : List (String × Val F) × List Char) :
    scanFields n [] ≠ .ok p := by
  cases n <;> exact nofun

/-- **What follows a value**, the items of an array or those of an object. -/
theorem scan_append (n : ℕ) :
    Extends rest (scanValue n : List Char → Except LoadError (Val F × List Char)) ∧
    Extends rest (scanItems n : List Char → Except LoadError (List (Val F) × List Char)) ∧
    Extends rest
      (scanFields n : List Char → Except LoadError (List (String × Val F) × List Char)) := by
  induction n with
  | zero => exact ⟨nofun, nofun, nofun⟩
  | succ n ih =>
    obtain ⟨ihv, ihi, ihf⟩ := ih
    refine ⟨fun cs p h => ?_, fun cs p h => ?_, fun cs p h => ?_⟩
    · cases cs with
      | nil => cases h
      | cons c cs =>
        rw [scanValue] at h
        rw [List.cons_append, scanValue]
        split_ifs at h ⊢
        · obtain ⟨⟨s, left⟩, hs, h⟩ := exists_of_bind_ok h
          cases h
          rw [extends_scanString rest cs _ hs]
          rfl
        · cases hskip : skipSpace cs with
          | nil =>
            rw [hskip] at h
            obtain ⟨q, hq, -⟩ := exists_of_bind_ok h
            exact absurd hq (scanFields_nil n q)
          | cons d left =>
            rw [hskip] at h
            rw [skipSpace_append_of_eq hskip]
            split at h
            · next heq =>
              cases heq
              cases h
              rfl
            · next hne =>
              obtain ⟨⟨xs, left'⟩, hxs, h⟩ := exists_of_bind_ok h
              cases h
              split
              · next heq =>
                cases heq
                exact absurd rfl (hne left)
              · rw [← List.cons_append, ihf _ _ hxs]
                rfl
        · cases hskip : skipSpace cs with
          | nil =>
            rw [hskip] at h
            obtain ⟨q, hq, -⟩ := exists_of_bind_ok h
            exact absurd hq (scanItems_nil n q)
          | cons d left =>
            rw [hskip] at h
            rw [skipSpace_append_of_eq hskip]
            split at h
            · next heq =>
              cases heq
              cases h
              rfl
            · next hne =>
              obtain ⟨⟨xs, left'⟩, hxs, h⟩ := exists_of_bind_ok h
              cases h
              split
              · next heq =>
                cases heq
                exact absurd rfl (hne left)
              · rw [← List.cons_append, ihi _ _ hxs]
                rfl
        · exact extends_scanScalar hrest (c :: cs) p h
    · rw [scanItems] at h ⊢
      obtain ⟨⟨x, left⟩, hx, h⟩ := exists_of_bind_ok h
      rw [ihv cs _ hx]
      dsimp only at h
      cases hskip : skipSpace left with
      | nil =>
        rw [hskip] at h
        cases h
      | cons d left' =>
        rw [hskip] at h
        rw [ok_bind]
        dsimp only
        rw [skipSpace_append_of_eq hskip]
        split at h
        · next heq =>
          cases heq
          cases h
          rfl
        · next heq =>
          cases heq
          obtain ⟨⟨xs, left''⟩, hxs, h⟩ := exists_of_bind_ok h
          cases h
          have hmore := ihi.skipSpace (scanItems_nil n) _ _ hxs
          show (scanItems n (skipSpace (left' ++ rest)) >>= _) = _
          rw [hmore]
          rfl
        · cases h
    · cases cs with
      | nil => exact absurd h (scanFields_nil _ p)
      | cons c cs =>
        by_cases hc : c = '"'
        · subst hc
          rw [scanFields] at h
          rw [List.cons_append, scanFields]
          obtain ⟨⟨k, left₁⟩, hk, h⟩ := exists_of_bind_ok h
          rw [extends_scanString rest cs _ hk, ok_bind]
          dsimp only at h ⊢
          cases hskip₁ : skipSpace left₁ with
          | nil =>
            rw [hskip₁] at h
            cases h
          | cons d left₂ =>
            rw [hskip₁] at h
            rw [skipSpace_append_of_eq hskip₁]
            split at h
            · next heq =>
              cases heq
              obtain ⟨⟨x, left₃⟩, hx, h⟩ := exists_of_bind_ok h
              have hx' := ihv.skipSpace (scanValue_nil n) _ _ hx
              dsimp only at h
              show (scanValue n (skipSpace (left₂ ++ rest)) >>= _) = _
              rw [hx', ok_bind]
              dsimp only
              cases hskip₃ : skipSpace left₃ with
              | nil =>
                rw [hskip₃] at h
                cases h
              | cons e left₄ =>
                rw [hskip₃] at h
                rw [skipSpace_append_of_eq hskip₃]
                split at h
                · next heq =>
                  cases heq
                  cases h
                  rfl
                · next heq =>
                  cases heq
                  obtain ⟨⟨d, left₅⟩, hd, h⟩ := exists_of_bind_ok h
                  cases h
                  have hd' := ihf.skipSpace (scanFields_nil n) _ _ hd
                  show (scanFields n (skipSpace (left₄ ++ rest)) >>= _) = _
                  rw [hd']
                  rfl
                · cases h
            · cases h
        · rw [scanFields] at h
          · cases h
          · rintro m cs' - heq
            exact hc (List.cons.inj heq).1

end Rest

/-! ## Lines of an array -/

/-- `json.loads`, of the characters of a text -/
def loadsChars (cs : List Char) : Except LoadError (Val F) :=
  if cs.head? = some (Char.ofNat 0xfeff) then throw .decode
  else do
    let (v, rest) ← scanValue (2 * cs.length + 1) (skipSpace cs)
    if (skipSpace rest).isEmpty then pure v else throw .decode

theorem loads_eq_loadsChars (s : String) :
    (loads s : Except LoadError (Val F)) = loadsChars s.toList := rfl

/-- A text that is read as a value, with something else behind it: the value is found, and only
blanks are left of the text. -/
theorem exists_scanValue_of_loads {s : String} {v : Val F} (h : loads s = .ok v)
    {rest : List Char} (hrest : Delimited rest) {n : ℕ} (hn : 2 * s.toList.length < n) :
    ∃ left, Blank left ∧ scanValue n (skipSpace (s.toList ++ rest)) = .ok (v, left ++ rest) := by
  have hlen : (skipSpace s.toList).length ≤ s.toList.length := length_skipSpace_le _
  rw [loads, loadsWithin] at h
  split at h
  · cases h
  obtain ⟨⟨w, left⟩, hscan, h⟩ := exists_of_bind_ok h
  dsimp only at h
  split at h
  · next hblank =>
    cases h
    rw [String.length, (scan_congr _).1 n _ (by omega) (by omega)] at hscan
    refine ⟨left, ?_, ((scan_append hrest n).1).skipSpace (scanValue_nil n) _ _ hscan⟩
    exact fun c hc => List.dropWhile_eq_nil_iff.mp (List.isEmpty_iff.mp hblank) c hc
  · cases h

theorem head?_ne_of_loads {s : String} {v : Val F} (h : loads s = .ok v) :
    s.toList.head? ≠ some (Char.ofNat 0xfeff) := by
  intro hhead
  rw [loads, loadsWithin, if_pos hhead] at h
  cases h

/-- **A line**: a newline behind the text makes no difference. -/
theorem loads_append_newline {s : String} {v : Val F} (h : loads s = .ok v) :
    loads (s ++ "\n") = .ok v := by
  have hlist : (s ++ "\n").toList = s.toList ++ ['\n'] := String.toList_append
  have hlen : (s ++ "\n").length = s.toList.length + 1 := by
    rw [String.length, hlist, List.length_append]
    rfl
  have hrest : Delimited ['\n'] := delimited_cons (by decide) []
  obtain ⟨left, hleft, hscan⟩ := exists_scanValue_of_loads h hrest
    (n := 2 * (s ++ "\n").length + 1) (by omega)
  have hhead : (s.toList ++ ['\n']).head? ≠ some (Char.ofNat 0xfeff) := by
    have hs := head?_ne_of_loads h
    cases hcs : s.toList with
    | nil => decide
    | cons c cs => rwa [hcs] at hs
  rw [loads, loadsWithin, hlist, if_neg hhead, hscan, ok_bind]
  dsimp only
  rw [skipSpace_append hleft]
  rfl

/-- The items of an array, each on a line, and the commas between them on lines of their own. -/
def logged : List String → String
  | [] => ""
  | [m] => m ++ "\n"
  | m :: ms => m ++ "\n" ++ ",\n" ++ logged ms

theorem toList_logged_singleton (m : String) : (logged [m]).toList = m.toList ++ ['\n'] :=
  String.toList_append

theorem logged_cons_cons (m m' : String) (ms : List String) :
    logged (m :: m' :: ms) = m ++ "\n" ++ ",\n" ++ logged (m' :: ms) := by
  rw [logged]
  exact List.cons_ne_nil m' ms

theorem toList_logged_cons (m m' : String) (ms : List String) :
    (logged (m :: m' :: ms)).toList =
      m.toList ++ '\n' :: ',' :: '\n' :: (logged (m' :: ms)).toList := by
  rw [logged_cons_cons, String.toList_append, String.toList_append, String.toList_append,
    show "\n".toList = ['\n'] from rfl, show ",\n".toList = [',', '\n'] from rfl,
    List.append_assoc, List.append_assoc]
  rfl

theorem scanItems_logged {ms : List String} {vs : List (Val F)} (hne : ms ≠ [])
    (h : List.Forall₂ (fun m v => loads m = .ok v) ms vs) {n : ℕ}
    (hn : 2 * ((logged ms).toList.length + 1) < n) :
    scanItems n (skipSpace ((logged ms).toList ++ [']'])) = .ok (vs, []) := by
  induction h generalizing n with
  | nil => exact absurd rfl hne
  | @cons m v ms vs hm hms ih =>
    obtain ⟨n, rfl⟩ := Nat.exists_eq_add_one.mpr (Nat.zero_lt_of_lt hn)
    cases hms with
    | nil =>
      rw [toList_logged_singleton, List.length_append, List.length_singleton] at hn
      have hend : Delimited ('\n' :: [']']) := delimited_cons (by decide) _
      obtain ⟨left, hblank, hscan⟩ := exists_scanValue_of_loads hm hend
        (show 2 * m.toList.length < n by omega)
      rw [toList_logged_singleton, List.append_assoc, List.singleton_append, scanItems, hscan,
        ok_bind]
      dsimp only
      rw [skipSpace_append hblank]
      rfl
    | @cons m' v' ms vs hm' hms =>
      rw [toList_logged_cons, List.length_append, List.length_cons, List.length_cons,
        List.length_cons] at hn
      have hend : Delimited ('\n' :: ',' :: '\n' :: ((logged (m' :: ms)).toList ++ [']'])) :=
        delimited_cons (by decide) _
      obtain ⟨left, hblank, hscan⟩ := exists_scanValue_of_loads hm hend
        (show 2 * m.toList.length < n by omega)
      have hrest := ih (List.cons_ne_nil m' ms) (show 2 * (_ + 1) < n by omega)
      rw [toList_logged_cons, List.append_assoc, List.cons_append, List.cons_append,
        List.cons_append, scanItems, hscan, ok_bind]
      dsimp only
      rw [skipSpace_append hblank]
      show (scanItems n (skipSpace ((logged (m' :: ms)).toList ++ [']'])) >>= _) = _
      rw [hrest]
      rfl

/-- No item starts with a closing bracket or a comma. -/
theorem scanItems_ne_ok {c : Char} (hc : c = ']' ∨ c = ',') (n : ℕ) (cs : List Char)
    (p : List (Val F) × List Char) : scanItems n (c :: cs) ≠ .ok p := by
  intro h
  cases n with
  | zero => cases h
  | succ n =>
    rw [scanItems] at h
    obtain ⟨q, hq, -⟩ := exists_of_bind_ok h
    cases n with
    | zero => cases hq
    | succ n => rcases hc with rfl | rfl <;> cases hq

/-- **A log** of texts that are values, in brackets, is read as the array of the values. -/
theorem loads_logged {ms : List String} {vs : List (Val F)}
    (h : List.Forall₂ (fun m v => loads m = .ok v) ms vs) :
    loads ("[" ++ logged ms ++ "]") = .ok (.list vs) := by
  cases h with
  | nil => rfl
  | @cons m v ms vs hm hms =>
    have htext : ("[" ++ logged (m :: ms) ++ "]").toList =
        '[' :: ((logged (m :: ms)).toList ++ [']']) := by
      rw [String.toList_append, String.toList_append]
      rfl
    have hlen : 2 * ((logged (m :: ms)).toList.length + 1) <
        2 * ("[" ++ logged (m :: ms) ++ "]").length := by
      rw [String.length, htext, List.length_cons, List.length_append, List.length_singleton]
      omega
    have hscan := scanItems_logged (List.cons_ne_nil m ms) (.cons hm hms) hlen
    have hvalue : scanValue (2 * ("[" ++ logged (m :: ms) ++ "]").length + 1)
        ('[' :: ((logged (m :: ms)).toList ++ [']'])) = .ok (.list (v :: vs), []) := by
      rw [scanValue, if_neg (by decide), if_neg (by decide), if_pos rfl]
      split
      · next rest heq =>
        rw [heq] at hscan
        exact absurd hscan (scanItems_ne_ok (.inl rfl) _ rest _)
      · rw [hscan]
        rfl
    rw [loads, loadsWithin, htext, List.head?_cons, if_neg (by decide),
      skipSpace_cons (by decide), hvalue]
    rfl

/-- **A comma in front** of the first item is an error. -/
theorem not_loads_leading_comma (s : String) (v : Val F) : loads ("[,\n" ++ s) ≠ .ok v := by
  have htext : ("[,\n" ++ s).toList = '[' :: ',' :: '\n' :: s.toList := String.toList_append
  rw [loads, loadsWithin, htext, List.head?_cons, if_neg (by decide), skipSpace_cons (by decide)]
  intro h
  obtain ⟨⟨w, left⟩, hscan, -⟩ := exists_of_bind_ok h
  rw [scanValue, if_neg (by decide), if_neg (by decide), if_pos rfl] at hscan
  obtain ⟨p, hp, -⟩ := exists_of_bind_ok hscan
  exact scanItems_ne_ok (.inr rfl) _ _ p hp

end Json
end LdmsTest
