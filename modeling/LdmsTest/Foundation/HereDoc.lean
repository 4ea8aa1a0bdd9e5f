import Mathlib.Data.List.Basic

/-!
# Here-documents

How a shell reads a here-document with an unquoted delimiter, and expands it.  While it is read, a
backslash before a newline joins two lines, and other backslashes only keep the byte behind them
from doing so.  The expansion drops a backslash before a backslash, a dollar or a backquote, and
puts the value of an expansion in its place.

* `readBody`: the lines up to the delimiter, and what is left of the input.
* `expand`: the text of a document.  What an expansion takes of the document, and what it comes to,
  is a parameter.
* `readBody_pair`, `expand_pair_special`, ...: one step of each.
* `readBody_of_notMem`: a last line without the delimiter leaves the shell waiting.
-/

namespace LdmsTest
namespace HereDoc

/-- `\` -/
def backslash : UInt8 := 0x5c

/-- `$` -/
def dollar : UInt8 := 0x24

/-- The sign around a command that is replaced by its output. -/
def backquote : UInt8 := 0x60

/-- The end of a line. -/
def newline : UInt8 := 0x0a

/-! ## Reading -/

/-- What is read of a here-document before a line that is `delimiter`, and what is left of the
input.  `line` is what has been read of the line, and `none` means that the shell waits for more. -/
def readBody (delimiter line : List UInt8) : List UInt8 → Option (List UInt8 × List UInt8)
  | [] => none
  | c :: input =>
    if c = backslash then
      match input with
      | [] => none
      | d :: input =>
        if d = newline then readBody delimiter line input
        else readBody delimiter (line ++ [c, d]) input
    else if c = newline then
      if line = delimiter then some ([], input)
      else (readBody delimiter [] input).map fun p => (line ++ newline :: p.1, p.2)
    else readBody delimiter (line ++ [c]) input

section Read

variable {delimiter line : List UInt8} {c d : UInt8} {input : List UInt8}

theorem readBody_join :
    readBody delimiter line (backslash :: newline :: input) = readBody delimiter line input := by
  rw [readBody, if_pos rfl]
  exact if_pos rfl

theorem readBody_pair (hd : d ≠ newline) :
    readBody delimiter line (backslash :: d :: input) =
      readBody delimiter (line ++ [backslash, d]) input := by
  rw [readBody, if_pos rfl]
  exact if_neg hd

theorem readBody_cons (hc : c ≠ backslash) (hc' : c ≠ newline) :
    readBody delimiter line (c :: input) = readBody delimiter (line ++ [c]) input := by
  rw [readBody.eq_def]
  exact (if_neg hc).trans (if_neg hc')

theorem readBody_newline (hline : line ≠ delimiter) :
    readBody delimiter line (newline :: input) =
      (readBody delimiter [] input).map fun p => (line ++ newline :: p.1, p.2) := by
  rw [readBody.eq_def]
  exact (if_neg (by decide)).trans ((if_pos rfl).trans (if_neg hline))

theorem readBody_delimiter :
    readBody delimiter delimiter (newline :: input) = some ([], input) := by
  rw [readBody.eq_def]
  exact (if_neg (by decide)).trans ((if_pos rfl).trans (if_pos rfl))

/-- Bytes that are neither backslashes nor newlines are read as they are. -/
theorem readBody_append {s : List UInt8} (hs : ∀ c ∈ s, c ≠ backslash ∧ c ≠ newline) :
    readBody delimiter line (s ++ input) = readBody delimiter (line ++ s) input := by
  induction s generalizing line with
  | nil => rw [List.nil_append, List.append_nil]
  | cons c s ih =>
    obtain ⟨⟨hc, hc'⟩, hs⟩ := List.forall_mem_cons.mp hs
    rw [List.cons_append, readBody_cons hc hc', ih hs, List.append_assoc, List.singleton_append]

/-- **The document ends** at the line of the delimiter. -/
theorem readBody_end (hdelimiter : ∀ c ∈ delimiter, c ≠ backslash ∧ c ≠ newline) :
    readBody delimiter [] (delimiter ++ newline :: input) = some ([], input) := by
  rw [readBody_append hdelimiter, List.nil_append, readBody_delimiter]

theorem head?_append_ne {t : List UInt8} (hline : line ≠ []) (hhead : line.head? ≠ delimiter.head?) :
    line ++ t ≠ [] ∧ (line ++ t).head? ≠ delimiter.head? := by
  rw [List.head?_append_of_ne_nil _ hline]
  exact ⟨List.append_ne_nil_of_left_ne_nil hline t, hhead⟩

/-- **The shell waits** if all it is given is a line that starts otherwise than the delimiter. -/
theorem readBody_of_notMem : ∀ {line s : List UInt8}, newline ∉ s → line ≠ [] →
    line.head? ≠ delimiter.head? → readBody delimiter line (s ++ [newline]) = none
  | line, [], _, _, hhead => by
    rw [List.nil_append, readBody_newline fun h => hhead (congrArg List.head? h)]
    rfl
  | line, [c], hs, hline, hhead => by
    obtain ⟨hc, -⟩ := not_or.mp (mt List.mem_cons.mpr hs)
    obtain ⟨hline', hhead'⟩ := head?_append_ne (t := [c]) hline hhead
    by_cases hback : c = backslash
    · rw [hback, List.singleton_append, readBody_join]
      rfl
    · rw [List.singleton_append, readBody_cons hback (Ne.symm hc)]
      exact readBody_of_notMem (s := []) List.not_mem_nil hline' hhead'
  | line, c :: d :: s, hs, hline, hhead => by
    obtain ⟨hc, hds⟩ := not_or.mp (mt List.mem_cons.mpr hs)
    obtain ⟨hd, hs⟩ := not_or.mp (mt List.mem_cons.mpr hds)
    by_cases hback : c = backslash
    · obtain ⟨hline', hhead'⟩ := head?_append_ne (t := [backslash, d]) hline hhead
      rw [hback, List.cons_append, List.cons_append, readBody_pair (Ne.symm hd)]
      exact readBody_of_notMem hs hline' hhead'
    · obtain ⟨hline', hhead'⟩ := head?_append_ne (t := [c]) hline hhead
      rw [List.cons_append, readBody_cons hback (Ne.symm hc)]
      exact readBody_of_notMem hds hline' hhead'

end Read

/-! ## Expanding -/

/-- What can stand behind a dollar that starts an expansion. -/
def isStarter (c : UInt8) : Bool :=
  let c := Char.ofNat c.toNat
  c.isAlphanum || c ∈ "_\x7b([*@#?-$!".toList

/-- Whether a dollar in front of `doc` starts an expansion. -/
def startsExpansion (doc : List UInt8) : Bool :=
  doc.head?.any isStarter

/-- The text of a here-document, after its next `skip` bytes.  `subst` says how many bytes the
expansion at the start of a text takes, and what it comes to; `none` is one that does not end. -/
def expand (subst : List UInt8 → Option (ℕ × List UInt8)) : ℕ → List UInt8 → Option (List UInt8)
  | _, [] => some []
  | skip + 1, _ :: doc => expand subst skip doc
  | 0, c :: doc =>
    if c = backslash then
      match doc with
      | [] => some [c]
      | d :: doc =>
        if d = newline then expand subst 0 doc
        else if d = backslash ∨ d = dollar ∨ d = backquote then (expand subst 0 doc).map (d :: ·)
        else (expand subst 0 doc).map (c :: d :: ·)
    else if c = backquote ∨ (c = dollar ∧ startsExpansion doc) then
      match subst (c :: doc) with
      | none => none
      | some (n, value) => (expand subst (n - 1) doc).map (value ++ ·)
    else (expand subst 0 doc).map (c :: ·)

/-- **Nothing is set** in the shell and no command prints anything: what is expanded is gone. -/
def Bare (subst : List UInt8 → Option (ℕ × List UInt8)) : Prop :=
  ∀ text n value, subst text = some (n, value) → value = []

section Expand

variable {subst : List UInt8 → Option (ℕ × List UInt8)} {c d : UInt8} {doc : List UInt8}

theorem expand_nil (skip : ℕ) : expand subst skip [] = some [] := by
  cases skip <;> rfl

theorem expand_join : expand subst 0 (backslash :: newline :: doc) = expand subst 0 doc := by
  rw [expand, if_pos rfl]
  exact if_pos rfl

/-- A backslash that is dropped. -/
theorem expand_pair_special (hd : d = backslash ∨ d = dollar ∨ d = backquote) :
    expand subst 0 (backslash :: d :: doc) = (expand subst 0 doc).map (d :: ·) := by
  have hnewline : d ≠ newline := by
    rcases hd with rfl | rfl | rfl <;> decide
  rw [expand, if_pos rfl]
  exact (if_neg hnewline).trans (if_pos hd)

/-- A backslash that stays. -/
theorem expand_pair_other (hnewline : d ≠ newline) (hd : ¬ (d = backslash ∨ d = dollar ∨ d = backquote)) :
    expand subst 0 (backslash :: d :: doc) = (expand subst 0 doc).map (backslash :: d :: ·) := by
  rw [expand, if_pos rfl]
  exact (if_neg hnewline).trans (if_neg hd)

theorem expand_cons (hc : c ≠ backslash) (hc' : c ≠ backquote)
    (hdollar : c = dollar → startsExpansion doc = false) :
    expand subst 0 (c :: doc) = (expand subst 0 doc).map (c :: ·) := by
  have hexpansion : ¬ (c = backquote ∨ (c = dollar ∧ startsExpansion doc)) := by
    rintro (h | ⟨h, hstarts⟩)
    · exact hc' h
    · rw [hdollar h] at hstarts
      cases hstarts
  rw [expand.eq_def]
  exact (if_neg hc).trans (if_neg hexpansion)

/-- An expansion that comes to nothing. -/
theorem exists_of_expand_bare (hbare : Bare subst)
    (hc : c = backquote ∨ (c = dollar ∧ startsExpansion doc)) {text : List UInt8}
    (h : expand subst 0 (c :: doc) = some text) : ∃ skip, expand subst skip doc = some text := by
  have hback : c ≠ backslash := by
    rcases hc with rfl | ⟨rfl, -⟩ <;> decide
  rw [expand.eq_def] at h
  have h := (((if_neg hback).trans (if_pos hc)).symm.trans h)
  split at h
  · cases h
  · next n value hsubst =>
    obtain rfl := hbare _ _ _ hsubst
    obtain ⟨t, ht, rfl⟩ := Option.map_eq_some_iff.mp h
    exact ⟨n - 1, ht⟩

end Expand

end HereDoc
end LdmsTest
