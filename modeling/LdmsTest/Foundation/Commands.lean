import LdmsTest.Foundation.Words

/-!
# Texts of commands

A text of commands has one command in a line: a verb, and its attributes as `key=value` between
blanks.  Empty lines are skipped.

* `Command.chars`, `lines`: the line of a command, without its end, and the lines of many.
* `read`: the commands of a text.
* `read_line`, `read_blank`: what is read of a text that starts with the line of a command or with an
  empty line.
* `Command.attr`, `select`: an attribute of a command, and the commands with a verb.
-/

namespace LdmsTest
namespace Commands

/-- A verb and its attributes. -/
structure Command where
  verb : List Char
  attrs : List (List Char × List Char)
  deriving DecidableEq

/-! ## Writing and reading -/

/-- `key=value` -/
def token (p : List Char × List Char) : List Char :=
  p.1 ++ '=' :: p.2

/-- The line of a command, without its end. -/
def Command.chars (c : Command) : List Char :=
  c.verb ++ c.attrs.flatMap fun p => ' ' :: token p

/-- The lines of commands. -/
def lines (cs : List Command) : List Char :=
  cs.flatMap fun c => c.chars ++ ['\n']

/-- The key and the value of a word. -/
def readToken (w : List Char) : List Char × List Char :=
  (w.takeWhile (· ≠ '='), (w.dropWhile (· ≠ '=')).tail)

/-- The command of a line. -/
def readLine (line : List Char) : Command :=
  match splitWords (· = ' ') line with
  | [] => ⟨[], []⟩
  | verb :: ws => ⟨verb, ws.map readToken⟩

/-- The commands of a text. -/
def read (text : List Char) : List Command :=
  (splitWords (· = '\n') text).map readLine

/-- An attribute of a command. -/
def Command.attr (c : Command) (key : String) : Option (List Char) :=
  (c.attrs.find? fun p => p.1 = key.toList).map Prod.snd

/-- The commands with a verb. -/
def select (verb : String) (cs : List Command) : List Command :=
  cs.filter fun c => c.verb = verb.toList

/-! ## Commands that can be read back -/

/-- A text without blanks and ends of lines. -/
def Plain (w : List Char) : Prop :=
  ∀ c ∈ w, c ≠ ' ' ∧ c ≠ '\n'

instance (w : List Char) : Decidable (Plain w) :=
  decidable_of_iff ((w.all fun c => c != ' ' && c != '\n') = true) (by simp [Plain])

/-- A command with a verb, whose keys are plain and have no `=`. -/
def Command.keyed (c : Command) : Bool :=
  !c.verb.isEmpty && Plain c.verb && c.attrs.all fun p => Plain p.1 && p.1.all (· != '=')

/-- A command that can be read back. -/
structure Command.Clean (c : Command) : Prop where
  keyed : c.keyed = true
  values : c.attrs.Forall fun p => Plain p.2

theorem Command.Clean.verb_ne {c : Command} (h : c.Clean) : c.verb ≠ [] := by
  have hkeyed := h.keyed
  rw [Command.keyed, Bool.and_eq_true, Bool.and_eq_true] at hkeyed
  simpa using hkeyed.1.1

theorem Command.Clean.verb {c : Command} (h : c.Clean) : Plain c.verb := by
  have hkeyed := h.keyed
  rw [Command.keyed, Bool.and_eq_true, Bool.and_eq_true] at hkeyed
  exact of_decide_eq_true hkeyed.1.2

theorem Command.Clean.tokens {c : Command} (h : c.Clean) : ∀ p ∈ c.attrs,
    (Plain p.1 ∧ '=' ∉ p.1) ∧ Plain p.2 := by
  have hkeyed := h.keyed
  rw [Command.keyed, Bool.and_eq_true, List.all_eq_true] at hkeyed
  intro p hp
  have hkey := hkeyed.2 p hp
  rw [Bool.and_eq_true, decide_eq_true_eq, List.all_eq_true] at hkey
  refine ⟨⟨hkey.1, fun hmem => ?_⟩, List.forall_iff_forall_mem.mp h.values p hp⟩
  exact bne_iff_ne.mp (hkey.2 '=' hmem) rfl

theorem Plain.append {v w : List Char} (hv : Plain v) (hw : Plain w) : Plain (v ++ w) := by
  intro c hc
  rcases List.mem_append.mp hc with hc | hc
  · exact hv c hc
  · exact hw c hc

theorem plain_token {p : List Char × List Char} (hkey : Plain p.1) (hvalue : Plain p.2) :
    Plain (token p) :=
  hkey.append fun c hc => by
    rcases List.mem_cons.mp hc with rfl | hc
    · exact ⟨by decide, by decide⟩
    · exact hvalue c hc

theorem readToken_token {p : List Char × List Char} (h : '=' ∉ p.1) : readToken (token p) = p := by
  have hkey : ∀ c ∈ p.1, decide (c ≠ '=') = true := fun c hc =>
    decide_eq_true fun heq => h (heq ▸ hc)
  rw [readToken, token, List.takeWhile_append_of_pos hkey, List.dropWhile_append_of_pos hkey]
  simp

theorem splitWords_attrs {attrs : List (List Char × List Char)}
    (h : ∀ p ∈ attrs, Plain (token p)) {w : List Char} (hw : Plain w) (hne : w ≠ []) :
    splitWords (· = ' ') (w ++ attrs.flatMap fun p => ' ' :: token p) = w :: attrs.map token := by
  induction attrs generalizing w with
  | nil =>
    rw [List.flatMap_nil, List.append_nil, List.map_nil]
    exact splitWords_eq_singleton (fun c hc => decide_eq_false (hw c hc).1) hne
  | cons p attrs ih =>
    rw [List.flatMap_cons, List.cons_append, splitWords_append_cons (by simp),
      splitWords_eq_singleton (fun c hc => decide_eq_false (hw c hc).1) hne, List.map_cons,
      ih (fun q hq => h q (List.mem_cons_of_mem _ hq)) (h p List.mem_cons_self) (by simp [token])]
    rfl

/-- **A command is read back** from its line. -/
theorem readLine_chars {c : Command} (h : c.Clean) : readLine c.chars = c := by
  have htokens : ∀ p ∈ c.attrs, Plain (token p) := fun p hp =>
    plain_token (h.tokens p hp).1.1 (h.tokens p hp).2
  rw [readLine, Command.chars, splitWords_attrs htokens h.verb h.verb_ne]
  show Command.mk c.verb ((c.attrs.map token).map readToken) = c
  have hid : ∀ p ∈ c.attrs, (readToken ∘ token) p = id p := fun p hp =>
    readToken_token (h.tokens p hp).1.2
  rw [List.map_map, List.map_congr_left hid, List.map_id]

/-- The line of a command has no end of a line in it. -/
theorem Command.Clean.notMem_chars {c : Command} (h : c.Clean) : ∀ a ∈ c.chars, a ≠ '\n' := by
  intro a ha
  rcases List.mem_append.mp ha with ha | ha
  · exact (h.verb a ha).2
  · obtain ⟨p, hp, ha⟩ := List.mem_flatMap.mp ha
    rcases List.mem_cons.mp ha with rfl | ha
    · decide
    · exact (plain_token (h.tokens p hp).1.1 (h.tokens p hp).2 a ha).2

/-- **A text that starts with a command.** -/
theorem read_line {c : Command} (h : c.Clean) (text : List Char) :
    read (c.chars ++ '\n' :: text) = c :: read text := by
  have hne : c.chars ≠ [] := by
    rw [Command.chars]
    exact List.append_ne_nil_of_left_ne_nil h.verb_ne _
  rw [read, splitWords_append_cons (by simp),
    splitWords_eq_singleton (fun a ha => decide_eq_false (h.notMem_chars a ha)) hne, List.map_append,
    List.map_singleton, readLine_chars h]
  rfl

/-- A text that starts with an empty line. -/
theorem read_blank (text : List Char) : read ('\n' :: text) = read text := by
  have hblank := splitWords_append_cons (p := (· = '\n')) (c := '\n') (by simp) [] text
  rw [List.nil_append, splitWords_nil, List.nil_append] at hblank
  rw [read, hblank]
  rfl

theorem read_nil : read [] = [] := by
  rw [read, splitWords_nil]
  rfl

/-- A text that starts with the lines of many commands. -/
theorem read_lines {cs : List Command} (h : ∀ c ∈ cs, c.Clean) (text : List Char) :
    read (lines cs ++ text) = cs ++ read text := by
  induction cs with
  | nil => rfl
  | cons c cs ih =>
    rw [lines] at ih ⊢
    rw [List.flatMap_cons, List.append_assoc, List.append_assoc, List.singleton_append,
      read_line (h c List.mem_cons_self), ih fun d hd => h d (List.mem_cons_of_mem _ hd)]
    rfl

/-! ## Commands with a verb -/

theorem select_append (verb : String) (cs ds : List Command) :
    select verb (cs ++ ds) = select verb cs ++ select verb ds :=
  List.filter_append ..

theorem select_eq_self {verb : String} {cs : List Command} (h : ∀ c ∈ cs, c.verb = verb.toList) :
    select verb cs = cs :=
  List.filter_eq_self.mpr fun c hc => decide_eq_true (h c hc)

theorem select_eq_nil {verb : String} {cs : List Command} (h : ∀ c ∈ cs, c.verb ≠ verb.toList) :
    select verb cs = [] :=
  List.filter_eq_nil_iff.mpr fun c hc => by simpa using h c hc

end Commands
end LdmsTest
