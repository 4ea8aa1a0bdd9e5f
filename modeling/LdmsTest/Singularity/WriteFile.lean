import LdmsTest.Foundation.HereDoc
import LdmsTest.Python.Text
import LdmsTest.Python.Utf8

/-!
# Files in a Singularity container

A Singularity container is reached through a shell whose input and output are pipes.  `_exec_run`
writes a command to it, with what the command is to read in a here-document in front, and reads
until the mark `\xFFEND`.  Of the content of a file only the dollars are escaped.

* `execInput`, `execResult`: what `_exec_run` writes, and what it makes of what it reads.
* `writeFile`, `readFile`: `SContainer.write_file` and `SContainer.read_file`.
* `serve`: the shell at the other end, for the commands of these two.
* `writesReads_iff`: which contents are read back as they were written.
-/

namespace LdmsTest
namespace WriteFile

open HereDoc

/-! ## What is written to the shell -/

/-- `b'\xFF'`, which is in no UTF-8. -/
def mark : UInt8 := 0xff

/-- `b'{ cat <<\xFFEOF\n'` -/
def opening : List UInt8 :=
  Codec.encode "\x7b cat <<" ++ mark :: Codec.encode "EOF\n"

/-- `b'\xFFEOF'` -/
def delimiter : List UInt8 :=
  mark :: Codec.encode "EOF"

/-- `b'} | sed -z \'s/\\n$//\' | '` -/
def sedPipe : List UInt8 :=
  Codec.encode "\x7d | sed -z 's/\\n$//' | "

/-- `b' 2>&1 ; echo "\xFFRC$?\xFFEND"\n'` -/
def closing : List UInt8 :=
  Codec.encode " 2>&1 ; echo \"" ++ mark :: Codec.encode "RC$?" ++ mark :: Codec.encode "END\"\n"

/-- `b.replace(b'$', b'\\$')` -/
def escape (b : List UInt8) : List UInt8 :=
  b.flatMap fun c => if c = dollar then [backslash, dollar] else [c]

/-- Whether `shlex.quote` leaves a character as it is. -/
def isSafe (c : Char) : Bool :=
  c.isAlphanum || c ∈ "_@%+=:,./-".toList

/-- `shlex.quote(s)` -/
def quote (s : String) : String :=
  if s = "" then "''"
  else if s.toList.all isSafe then s
  else
    let quoted := s.toList.flatMap fun c => if c = '\'' then "'\"'\"'".toList else [c]
    "'" ++ String.ofList quoted ++ "'"

/-- `_exec_run(cmd, env, in_data, user)`: what it writes to the shell. -/
def execInput (cmd : String) (env : List (String × String)) (inData user : Option String) :
    List UInt8 :=
  let hereDoc :=
    match inData with
    | none => []
    | some data =>
      if data = "" then []
      else
        opening ++ escape (Codec.encode data) ++ newline :: delimiter ++ newline :: sedPipe
  let vars := env.flatMap fun (k, v) => Codec.encode k ++ Codec.encode "=" ++
    Codec.encode (quote v) ++ Codec.encode " "
  let cmd :=
    match user with
    | none => cmd
    | some user => "runuser " ++ user ++ " -s /bin/bash -c " ++ quote cmd
  hereDoc ++ vars ++ Codec.encode cmd ++ closing

/-! ## What is read from it -/

/-- `b'\xFFRC'` -/
def rcMark : List UInt8 :=
  mark :: Codec.encode "RC"

/-- `b'\xFFEND\n'` -/
def endMark : List UInt8 :=
  mark :: Codec.encode "END\n"

/-- The loop of `_exec_run` without a timeout: the value of `bio` when it ends, with what
`self.shell.read()` returns each time, which is `None` while nothing is there.  `none` means that
the loop goes on after these reads. -/
def readLoop (bio : List UInt8) : List (Option (List UInt8)) → Option (List UInt8)
  | [] => if endMark.isSuffixOf bio then some bio else none
  | b :: reads => if endMark.isSuffixOf bio then some bio else readLoop (bio ++ b.getD []) reads

/-- `b.rindex(sub)`, `none` if it raises -/
def rindex (sub : List UInt8) : List UInt8 → Option ℕ
  | [] => if sub = [] then some 0 else none
  | c :: b =>
    match rindex sub b with
    | some i => some (i + 1)
    | none => if sub.isPrefixOf (c :: b) then some 0 else none

/-- `int(b)`, `none` if it raises -/
def intBytes (b : List UInt8) : Option ℤ :=
  let lstrip (b : List UInt8) := b.dropWhile (· ∈ [0x20, 0x09, 0x0a, 0x0b, 0x0c, 0x0d])
  let digits := (lstrip (lstrip b).reverse).reverse
  Val.intSigned Empty (digits.map fun c => Char.ofNat c.toNat)

/-- What the functions raise. -/
inductive RunError where
  /-- `ValueError('subsection not found')` -/
  | notFound
  /-- `ValueError`, of `int(b)` -/
  | noInt (b : List UInt8)
  /-- `UnicodeDecodeError`, of `b.decode()` -/
  | noText (b : List UInt8)
  /-- `RuntimeError(out)` -/
  | runtime (out : String)

/-- `b.decode()` -/
def decode (b : List UInt8) : Except RunError String :=
  match Codec.utf8 b with
  | .ok cs => .ok (String.ofList cs)
  | .error _ => .error (.noText b)

/-- What `_exec_run` makes of the value of `bio`. -/
def execResult (b : List UInt8) : Except RunError (ℤ × String) :=
  match rindex rcMark b with
  | none => .error .notFound
  | some idx =>
    let digits := (b.drop (idx + 3)).takeWhile (· ≠ mark)
    match intBytes digits with
    | none => .error (.noInt digits)
    | some rc => do
      let out ← decode (b.take idx)
      pure (rc, out)

/-- `_exec_run(...)`: what it returns or raises after these reads, if its loop ends.  `self.shell` is
taken to be there: the `bash` that `shell` starts runs, and the bytes with which `shell` has made sure
of that are read. -/
def execRun (reads : List (Option (List UInt8))) : Option (Except RunError (ℤ × String)) :=
  (readLoop [] reads).map execResult

/-! ## `write_file` and `read_file` -/

/-- A character that means nothing to the shell, whose path can stand in a command as it is. -/
def isPlain (c : Char) : Bool :=
  c.isAlphanum || c ∈ "/._-".toList

/-- **A path** of a file that the container can write. -/
structure Path where
  name : String
  plain : ∀ c ∈ name.toList, isPlain c
  absolute : name.toList.head? = some '/'

/-- `G.write_file_err` -/
structure WriteFileErr where
  rc : ℤ
  out : String
  cmd : String
  content : String

/-- The command of `write_file`. -/
def writeFileCmd (path : Path) : String :=
  "bash -c 'cat > " ++ path.name ++ "'"

/-- The command of `read_file`. -/
def readFileCmd (path : Path) : String :=
  "cat " ++ path.name

/-- `write_file(path, content, user)`: what it writes to the shell. -/
def writeFileInput (path : Path) (content : String) (user : Option String) : List UInt8 :=
  execInput (writeFileCmd path) [] (some content) user

/-- `write_file(path, content)`: what it leaves in `G.write_file_err`, if anything. -/
def writeFile (path : Path) (content : String) (reads : List (Option (List UInt8))) :
    Option (Except RunError (Option WriteFileErr)) :=
  (execRun reads).map fun result => do
    let (rc, out) ← result
    pure (if rc ≠ 0 then some ⟨rc, out, writeFileCmd path, content⟩ else none)

/-- `read_file(path)`: what it writes to the shell. -/
def readFileInput (path : Path) : List UInt8 :=
  execInput (readFileCmd path) [] none none

/-- `read_file(path)` -/
def readFile (reads : List (Option (List UInt8))) : Option (Except RunError String) :=
  (execRun reads).map fun result => do
    let (rc, out) ← result
    if rc ≠ 0 then .error (.runtime out) else pure out

/-! ## The shell -/

/-- The files of a container. -/
abbrev Files := List UInt8 → Option (List UInt8)

/-- The commands of `write_file` and `read_file`. -/
inductive Command where
  /-- `bash -c 'cat > PATH'` -/
  | write (path : List UInt8)
  /-- `cat PATH` -/
  | read (path : List UInt8)

/-- The path that these bytes are for the shell. -/
def parsePath (b : List UInt8) : Option (List UInt8) :=
  if b.head? = some 0x2f ∧ b.all (fun c => isPlain (Char.ofNat c.toNat)) then some b else none

/-- The command that these bytes are for the shell. -/
def parseCommand (b : List UInt8) : Option Command :=
  match b.dropPrefix? (Codec.encode "bash -c 'cat > ") with
  | some b => do
    let b ← b.dropSuffix? (Codec.encode "'")
    let path ← parsePath b
    pure (.write path)
  | none => do
    let b ← b.dropPrefix? (Codec.encode "cat ")
    let path ← parsePath b
    pure (.read path)

/-- What a command prints, its return code, and the files after it.  Without a pipe in front of it
the input of a command is that of the shell, whose end never comes. -/
def runCommand (fs : Files) (stdin : Option (List UInt8)) :
    Command → Option (List UInt8 × ℕ × Files)
  | .write path => stdin.map fun text => ([], 0, Function.update fs path (some text))
  | .read path =>
    match fs path with
    | some text => some (text, 0, fs)
    | none =>
      some (Codec.encode "cat: " ++ path ++ Codec.encode ": No such file or directory\n", 1, fs)

/-- What `echo "\xFFRC$?\xFFEND"` prints. -/
def trailer (rc : ℕ) : List UInt8 :=
  rcMark ++ Codec.encode (toString rc) ++ endMark

/-- A command with `closing` behind it. -/
def runLine (fs : Files) (stdin : Option (List UInt8)) (line : List UInt8) :
    Option (List UInt8 × Files) := do
  let b ← line.dropSuffix? closing
  let cmd ← parseCommand b
  let (out, rc, fs) ← runCommand fs stdin cmd
  pure (out ++ trailer rc, fs)

/-- `sed -z 's/\n$//'`, on a text without NUL -/
def sedZ (text : List UInt8) : List UInt8 :=
  if text.getLast? = some newline then text.dropLast else text

/-- **The shell** of the container: what it prints when it is given this input, and the files after
it.  It ignores NUL in its input. -/
def serve (subst : List UInt8 → Option (ℕ × List UInt8)) (fs : Files) (input : List UInt8) :
    Option (List UInt8 × Files) :=
  let input := input.filter (· ≠ 0)
  match input.dropPrefix? opening with
  | none => runLine fs none input
  | some input => do
    let (body, input) ← readBody delimiter [] input
    let text ← expand subst 0 body
    let line ← input.dropPrefix? sedPipe
    runLine fs (some (sedZ text)) line

/-- These reads return what the shell prints, in pieces. -/
def Delivers (reads : List (Option (List UInt8))) (out : List UInt8) : Prop :=
  (reads.map (·.getD [])).flatten = out

/-- **A content is read back as it was written**, and both functions return, however the output of
the shell is cut into pieces. -/
def WritesReads (subst : List UInt8 → Option (ℕ × List UInt8)) (fs : Files) (path : Path)
    (content : String) : Prop :=
  ∃ out fs', serve subst fs (writeFileInput path content none) = some (out, fs') ∧
    (∀ reads, Delivers reads out → ∃ err, writeFile path content reads = some (.ok err)) ∧
    ∃ out' fs'', serve subst fs' (readFileInput path) = some (out', fs'') ∧
      ∀ reads, Delivers reads out' → readFile reads = some (.ok content)

/-! ## What is kept -/

/-- What can stand behind a backslash: a byte, but no backslash, backquote or newline, and no dollar
in front of what it would expand. -/
def Follows : List UInt8 → Prop
  | [] => False
  | d :: rest => d ≠ backslash ∧ d ≠ backquote ∧ d ≠ newline ∧
      (d = dollar → startsExpansion (escape rest) = false)

/-- **Nothing is dropped or expanded**: no backquote, and behind each backslash what can stand
there. -/
def Plain : List UInt8 → Prop
  | [] => True
  | c :: rest => c ≠ backquote ∧ (c = backslash → Follows rest) ∧ Plain rest

/-- **The contents that are kept**, by their bytes. -/
structure Kept (bs : List UInt8) : Prop where
  nonempty : bs ≠ []
  zero : 0 ∉ bs
  plain : Plain bs

/-! ## The here-document -/

section HereDocument

variable {bs line rest : List UInt8}

theorem escape_dollar : escape (dollar :: bs) = backslash :: dollar :: escape bs :=
  rfl

theorem escape_cons {c : UInt8} (hc : c ≠ dollar) : escape (c :: bs) = c :: escape bs := by
  rw [escape, List.flatMap_cons, if_neg hc]
  rfl

theorem filter_escape (bs : List UInt8) :
    (escape bs).filter (· ≠ 0) = escape (bs.filter (· ≠ 0)) := by
  induction bs with
  | nil => rfl
  | cons c bs ih =>
    by_cases hc : c = dollar
    · rw [hc, escape_dollar, List.filter_cons_of_pos (by decide), List.filter_cons_of_pos (by decide),
        ih, List.filter_cons_of_pos (by decide), escape_dollar]
    · rw [escape_cons hc]
      by_cases hzero : c = 0
      · rw [hzero, List.filter_cons_of_neg (by decide), List.filter_cons_of_neg (by decide), ih]
      · rw [List.filter_cons_of_pos (by simpa using hzero),
          List.filter_cons_of_pos (by simpa using hzero), ih, escape_cons hc]

theorem delimiter_plain : ∀ c ∈ delimiter, c ≠ backslash ∧ c ≠ newline := by
  have hall : delimiter.all fun c => c ≠ backslash ∧ c ≠ newline := by
    rfl
  exact fun c hc => of_decide_eq_true (List.all_eq_true.mp hall c hc)

theorem ne_delimiter (hline : mark ∉ line) : line ≠ delimiter := by
  rintro rfl
  exact hline List.mem_cons_self

/-- What is read of a document when something of its content is lost. -/
def Shorter (line bs body : List UInt8) : Prop :=
  (line = [] ∧ bs ≠ [] ∧ body = []) ∨
    ∃ cs, cs.length < bs.length ∧ body = line ++ (escape cs ++ [newline])

/-- What is read of a document: all of its content, or less if the content is not plain. -/
def ReadsAs (line bs rest : List UInt8) (result : Option (List UInt8 × List UInt8)) : Prop :=
  result = some (line ++ (escape bs ++ [newline]), rest) ∨
    ¬ Plain bs ∧ ∀ p ∈ result, p.2 = rest ∧ Shorter line bs p.1

/-- Bytes that are read as they are. -/
theorem ReadsAs.append {x y : List UInt8} {result : Option (List UInt8 × List UInt8)}
    (h : ReadsAs (line ++ x) bs rest result) (hx : x ≠ [])
    (hescape : ∀ cs, escape (y ++ cs) = x ++ escape cs) (hplain : Plain (y ++ bs) → Plain bs) :
    ReadsAs line (y ++ bs) rest result := by
  rcases h with h | ⟨hnot, h⟩
  · left
    rw [h, hescape, List.append_assoc, List.append_assoc]
  · refine .inr ⟨mt hplain hnot, fun p hp => ?_⟩
    obtain ⟨hrest, ⟨hnil, -, -⟩ | ⟨cs, hlen, hbody⟩⟩ := h p hp
    · exact absurd (List.append_eq_nil_iff.mp hnil).2 hx
    · refine ⟨hrest, .inr ⟨y ++ cs, ?_, ?_⟩⟩
      · rw [List.length_append, List.length_append]
        exact Nat.add_lt_add_left hlen _
      · rw [hbody, hescape, List.append_assoc, List.append_assoc]

/-- The end of a line. -/
theorem ReadsAs.cons_newline {result : Option (List UInt8 × List UInt8)}
    (h : ReadsAs [] bs rest result) :
    ReadsAs line (newline :: bs) rest (result.map fun p => (line ++ newline :: p.1, p.2)) := by
  have hescape (cs : List UInt8) : escape (newline :: cs) = newline :: escape cs :=
    escape_cons (by decide)
  rcases h with h | ⟨hnot, h⟩
  · left
    rw [h, hescape]
    rfl
  · refine .inr ⟨fun hplain => hnot hplain.2.2, fun p hp => ?_⟩
    obtain ⟨q, hq, rfl⟩ := Option.map_eq_some_iff.mp hp
    obtain ⟨hrest, ⟨-, hne, hbody⟩ | ⟨cs, hlen, hbody⟩⟩ := h q hq
    · refine ⟨hrest, .inr ⟨[], Nat.succ_pos _, ?_⟩⟩
      rw [hbody]
      rfl
    · refine ⟨hrest, .inr ⟨newline :: cs, Nat.succ_lt_succ hlen, ?_⟩⟩
      rw [hbody, hescape]
      rfl

/-- **The shell reads the content** up to the delimiter behind it. -/
theorem readsAs_readBody (hwait : readBody delimiter [] rest = none) :
    ∀ {line bs : List UInt8}, mark ∉ line → mark ∉ bs →
      ReadsAs line bs rest (readBody delimiter line
        (escape bs ++ newline :: (delimiter ++ newline :: rest)))
  | line, [], hline, _ => by
    left
    show readBody delimiter line (newline :: _) = _
    rw [readBody_newline (ne_delimiter hline), readBody_end delimiter_plain]
    rfl
  | line, c :: bs, hline, hmem => by
    obtain ⟨hc, hbs⟩ := not_or.mp (mt List.mem_cons.mpr hmem)
    have happend {x : List UInt8} (hx : mark ∉ x) : mark ∉ line ++ x := by
      rw [List.mem_append, not_or]
      exact ⟨hline, hx⟩
    by_cases hback : c = backslash
    · subst hback
      match bs with
      | [] =>
        -- the delimiter is joined to the line, so it ends the document only if the line is empty
        refine .inr ⟨fun hplain => hplain.2.1 rfl, ?_⟩
        show ∀ p ∈ readBody delimiter line (backslash :: newline :: _), _
        rw [readBody_join, readBody_append delimiter_plain]
        rcases eq_or_ne line [] with rfl | hne
        · rw [List.nil_append, readBody_delimiter]
          rintro p ⟨⟩
          exact ⟨rfl, .inl ⟨rfl, List.cons_ne_nil _ _, rfl⟩⟩
        · have hdelimiter : line ++ delimiter ≠ delimiter := by
            rwa [ne_eq, List.append_left_eq_self]
          rw [readBody_newline hdelimiter, hwait]
          rintro p ⟨⟩
      | d :: bs =>
        obtain ⟨hd, hbs'⟩ := not_or.mp (mt List.mem_cons.mpr hbs)
        by_cases hnewline : d = newline
        · subst hnewline
          refine .inr ⟨fun hplain => (hplain.2.1 rfl).2.2.1 rfl, fun p hp => ?_⟩
          have hp : p ∈ readBody delimiter line
              (escape bs ++ newline :: (delimiter ++ newline :: rest)) := by
            rwa [escape_cons (by decide), escape_cons (by decide), List.cons_append,
              List.cons_append, readBody_join] at hp
          rcases readsAs_readBody hwait hline hbs' with h | ⟨-, h⟩
          · obtain rfl := Option.some.inj (hp.symm.trans h)
            exact ⟨rfl, .inr ⟨bs, Nat.lt_succ_of_lt (Nat.lt_succ_self _), rfl⟩⟩
          · obtain ⟨hrest, ⟨hnil, -, hbody⟩ | ⟨cs, hlen, hbody⟩⟩ := h p hp
            · exact ⟨hrest, .inl ⟨hnil, List.cons_ne_nil _ _, hbody⟩⟩
            · exact ⟨hrest, .inr ⟨cs, Nat.lt_add_right 2 hlen, hbody⟩⟩
        · by_cases hdollar : d = dollar
          · subst hdollar
            have hline' : mark ∉ line ++ [backslash, backslash, dollar] := happend (by decide)
            have h := readsAs_readBody hwait hline' hbs'
            rw [escape_cons (by decide), escape_dollar, List.cons_append, List.cons_append,
              List.cons_append, readBody_pair (by decide), readBody_cons (by decide) (by decide),
              List.append_assoc, List.cons_append, List.singleton_append]
            exact h.append (y := [backslash, dollar]) (List.cons_ne_nil _ _) (fun _ => rfl)
              fun hplain => hplain.2.2.2.2
          · have hline' : mark ∉ line ++ [backslash, d] := happend (by
              rw [List.mem_cons, List.mem_singleton, not_or]
              exact ⟨by decide, hd⟩)
            have h := readsAs_readBody hwait hline' hbs'
            have hescape (cs : List UInt8) :
                escape (backslash :: d :: cs) = backslash :: d :: escape cs := by
              rw [escape_cons (by decide), escape_cons hdollar]
            rw [hescape, List.cons_append, List.cons_append, readBody_pair hnewline]
            exact h.append (y := [backslash, d]) (List.cons_ne_nil _ _) hescape
              fun hplain => hplain.2.2.2.2
    · by_cases hdollar : c = dollar
      · subst hdollar
        have h := readsAs_readBody hwait (happend (x := [backslash, dollar]) (by decide)) hbs
        rw [escape_dollar, List.cons_append, List.cons_append, readBody_pair (by decide)]
        exact h.append (y := [dollar]) (List.cons_ne_nil _ _) (fun _ => rfl) fun hplain => hplain.2.2
      · by_cases hnewline : c = newline
        · subst hnewline
          rw [escape_cons hdollar, List.cons_append, readBody_newline (ne_delimiter hline)]
          exact (readsAs_readBody hwait List.not_mem_nil hbs).cons_newline
        · have h := readsAs_readBody hwait (happend (x := [c]) (by simpa using hc)) hbs
          rw [escape_cons hdollar, List.cons_append, readBody_cons hback hnewline]
          exact h.append (y := [c]) (List.cons_ne_nil _ _) (fun _ => escape_cons hdollar)
            fun hplain => hplain.2.2

/-! ## The text of it -/

theorem length_sedZ_cons_le (c : UInt8) (text : List UInt8) :
    (sedZ (c :: text)).length ≤ (sedZ text).length + 1 := by
  unfold sedZ
  cases text with
  | nil =>
    split
    · exact Nat.zero_le _
    · exact le_rfl
  | cons d text =>
    rw [List.getLast?_cons_cons, List.dropLast_cons_of_ne_nil (List.cons_ne_nil _ _)]
    split <;> exact le_rfl

theorem sedZ_append_newline (text : List UInt8) : sedZ (text ++ [newline]) = text := by
  rw [sedZ, List.getLast?_concat, if_pos rfl, List.dropLast_concat]

theorem startsExpansion_append_newline :
    startsExpansion (escape bs ++ [newline]) = startsExpansion (escape bs) := by
  cases escape bs <;> rfl

section Expand

variable {subst : List UInt8 → Option (ℕ × List UInt8)} {text : List UInt8}

theorem length_sedZ_of_map {c : UInt8} {m : ℕ} {result : Option (List UInt8)}
    (hresult : ∀ t ∈ result, (sedZ t).length ≤ m) (h : result.map (c :: ·) = some text) :
    (sedZ text).length ≤ m + 1 := by
  obtain ⟨t, ht, rfl⟩ := Option.map_eq_some_iff.mp h
  exact (length_sedZ_cons_le c t).trans (Nat.succ_le_succ (hresult t ht))

theorem map_cons_cons (c d : UInt8) (result : Option (List UInt8)) :
    result.map (c :: d :: ·) = (result.map (d :: ·)).map (c :: ·) := by
  rw [Option.map_map]
  rfl

/-- A dollar without its backslash. -/
theorem length_sedZ_of_expand_dollar (hbare : Bare subst) {m : ℕ}
    (hbs : ∀ skip, ∀ t ∈ expand subst skip (escape bs ++ [newline]), (sedZ t).length ≤ m)
    (h : expand subst 0 (dollar :: (escape bs ++ [newline])) = some text) :
    (sedZ text).length ≤ m + 1 := by
  by_cases hstarts : startsExpansion (escape bs ++ [newline])
  · obtain ⟨skip, h⟩ := exists_of_expand_bare hbare (.inr ⟨rfl, hstarts⟩) h
    exact Nat.le_succ_of_le (hbs skip text h)
  · rw [expand_cons (by decide) (by decide) fun _ => Bool.eq_false_iff.mpr hstarts] at h
    exact length_sedZ_of_map (hbs 0) h

/-- **Nothing is added** to a content by an expansion that comes to nothing. -/
theorem length_sedZ_of_expand (hbare : Bare subst) : ∀ (bs : List UInt8) (skip : ℕ),
    ∀ t ∈ expand subst skip (escape bs ++ [newline]), (sedZ t).length ≤ bs.length
  | [], 0, t, h => by
    obtain rfl : t = [newline] := Option.some.inj (h.symm.trans (by rfl))
    exact le_rfl
  | [], skip + 1, t, h => by
    obtain rfl : t = [] := Option.some.inj (h.symm.trans (expand_nil skip : expand subst skip [] = some []))
    exact le_rfl
  | c :: bs, skip, t, h => by
    have ih := length_sedZ_of_expand hbare bs
    by_cases hdollar : c = dollar
    · subst hdollar
      match skip with
      | 0 =>
        refine length_sedZ_of_map (c := dollar) (ih 0) ?_
        rwa [escape_dollar, List.cons_append, List.cons_append,
          expand_pair_special (.inr (.inl rfl))] at h
      | 1 => exact length_sedZ_of_expand_dollar hbare ih h
      | skip + 2 => exact Nat.le_succ_of_le (ih skip t h)
    rw [escape_cons hdollar, List.cons_append] at h
    match skip with
    | skip + 1 => exact Nat.le_succ_of_le (ih skip t h)
    | 0 =>
      by_cases hback : c = backslash
      · subst hback
        match bs with
        | [] =>
          obtain rfl : t = [] := Option.some.inj (h.symm.trans expand_join)
          exact Nat.zero_le _
        | d :: bs =>
          have ih' := length_sedZ_of_expand hbare bs
          by_cases hdollar : d = dollar
          · subst hdollar
            rw [escape_dollar, List.cons_append, expand_pair_special (.inl rfl)] at h
            exact length_sedZ_of_map (fun t => length_sedZ_of_expand_dollar hbare ih') h
          rw [escape_cons hdollar, List.cons_append] at h
          by_cases hnewline : d = newline
          · rw [hnewline, expand_join] at h
            exact Nat.le_succ_of_le (Nat.le_succ_of_le (ih' 0 t h))
          by_cases hspecial : d = backslash ∨ d = dollar ∨ d = backquote
          · rw [expand_pair_special hspecial] at h
            exact Nat.le_succ_of_le (length_sedZ_of_map (ih' 0) h)
          · rw [expand_pair_other hnewline hspecial, map_cons_cons] at h
            exact length_sedZ_of_map (fun t => length_sedZ_of_map (ih' 0)) h
      · by_cases hquote : c = backquote
        · obtain ⟨skip, h⟩ := exists_of_expand_bare hbare (.inl hquote) h
          exact Nat.le_succ_of_le (ih skip t h)
        · rw [expand_cons hback hquote fun h => absurd h hdollar] at h
          exact length_sedZ_of_map (ih 0) h

/-- What becomes of a content: all of it, or less if the content is not plain and nothing is set. -/
def ExpandsTo (subst : List UInt8 → Option (ℕ × List UInt8)) (bs : List UInt8)
    (result : Option (List UInt8)) : Prop :=
  (Plain bs ∧ result = some (bs ++ [newline])) ∨
    ¬ Plain bs ∧ (Bare subst → ∀ t ∈ result, (sedZ t).length < bs.length)

/-- A byte that stays. -/
theorem ExpandsTo.cons {c : UInt8} {result : Option (List UInt8)} (h : ExpandsTo subst bs result)
    (hc : c ≠ backquote) (hback : c = backslash → Follows bs) :
    ExpandsTo subst (c :: bs) (result.map (c :: ·)) := by
  rcases h with ⟨hplain, h⟩ | ⟨hnot, h⟩
  · refine .inl ⟨⟨hc, hback, hplain⟩, ?_⟩
    rw [h]
    rfl
  · refine .inr ⟨fun hplain => hnot hplain.2.2, fun hbare t ht => ?_⟩
    obtain ⟨t, ht', rfl⟩ := Option.map_eq_some_iff.mp ht
    exact (length_sedZ_cons_le c t).trans_lt (Nat.succ_lt_succ (h hbare t ht'))

/-- **What becomes of a content** that is read as it is. -/
theorem expandsTo_expand : ∀ bs : List UInt8,
    ExpandsTo subst bs (expand subst 0 (escape bs ++ [newline]))
  | [] => .inl ⟨trivial, rfl⟩
  | c :: bs => by
    by_cases hdollar : c = dollar
    · subst hdollar
      rw [escape_dollar, List.cons_append, List.cons_append, expand_pair_special (.inr (.inl rfl))]
      exact (expandsTo_expand bs).cons (by decide) fun h => absurd h (by decide)
    rw [escape_cons hdollar, List.cons_append]
    by_cases hback : c = backslash
    · subst hback
      match bs with
      | [] =>
        refine .inr ⟨fun hplain => hplain.2.1 rfl, fun _ t ht => ?_⟩
        obtain rfl : t = [] := Option.some.inj (ht.symm.trans expand_join)
        exact Nat.one_pos
      | d :: bs =>
        have hlen {t : List UInt8} (ht : (sedZ t).length ≤ bs.length + 1) :
            (sedZ t).length < (backslash :: d :: bs).length :=
          Nat.lt_succ_of_le ht
        by_cases hdollar : d = dollar
        · subst hdollar
          rw [escape_dollar, List.cons_append, List.cons_append, expand_pair_special (.inl rfl)]
          by_cases hstarts : startsExpansion (escape bs)
          · refine .inr ⟨fun hplain => ?_, fun hbare t ht => ?_⟩
            · rw [(hplain.2.1 rfl).2.2.2 rfl] at hstarts
              cases hstarts
            · obtain ⟨t, ht', rfl⟩ := Option.map_eq_some_iff.mp ht
              obtain ⟨skip, ht'⟩ := exists_of_expand_bare hbare
                (.inr ⟨rfl, startsExpansion_append_newline.trans hstarts⟩) ht'
              exact hlen ((length_sedZ_cons_le _ _).trans
                (Nat.succ_le_succ (length_sedZ_of_expand hbare bs skip t ht')))
          · rw [expand_cons (by decide) (by decide) fun _ =>
              startsExpansion_append_newline.trans (Bool.eq_false_iff.mpr hstarts)]
            exact ((expandsTo_expand bs).cons (by decide) fun h => absurd h (by decide)).cons
              (by decide) fun _ => ⟨by decide, by decide, by decide, fun _ =>
                Bool.eq_false_iff.mpr hstarts⟩
        rw [escape_cons hdollar, List.cons_append]
        by_cases hnewline : d = newline
        · rw [hnewline, expand_join]
          refine .inr ⟨fun hplain => (hplain.2.1 rfl).2.2.1 rfl, fun hbare t ht => ?_⟩
          exact Nat.lt_succ_of_le (Nat.le_succ_of_le (length_sedZ_of_expand hbare bs 0 t ht))
        by_cases hspecial : d = backslash ∨ d = dollar ∨ d = backquote
        · rw [expand_pair_special hspecial]
          refine .inr ⟨fun hplain => ?_, fun hbare t ht => hlen ?_⟩
          · obtain ⟨hback, hquote, -, -⟩ := hplain.2.1 rfl
            exact hspecial.elim hback (Or.elim · hdollar hquote)
          · exact length_sedZ_of_map (length_sedZ_of_expand hbare bs 0) ht
        · rw [expand_pair_other hnewline hspecial, map_cons_cons]
          obtain ⟨hback, hspecial⟩ := not_or.mp hspecial
          obtain ⟨-, hquote⟩ := not_or.mp hspecial
          exact ((expandsTo_expand bs).cons hquote fun h => absurd h hback).cons (by decide)
            fun _ => ⟨hback, hquote, hnewline, fun h => absurd h hdollar⟩
    · by_cases hquote : c = backquote
      · refine .inr ⟨fun hplain => hplain.1 hquote, fun hbare t ht => ?_⟩
        obtain ⟨skip, ht⟩ := exists_of_expand_bare hbare (.inl hquote) ht
        exact Nat.lt_succ_of_le (length_sedZ_of_expand hbare bs skip t ht)
      · rw [expand_cons hback hquote fun h => absurd h hdollar]
        exact (expandsTo_expand bs).cons hquote fun h => absurd h hback

end Expand

end HereDocument

/-! ## The commands -/

theorem isPlain_lt {c : Char} (hc : isPlain c) : c.toNat < 0x80 := by
  rw [isPlain, Char.isAlphanum, Bool.or_eq_true, Bool.or_eq_true, decide_eq_true_eq] at hc
  rcases hc with (hc | hc) | hc
  · exact toNat_lt_of_isAlpha hc
  · rw [Char.isDigit, Bool.and_eq_true, decide_eq_true_eq, decide_eq_true_eq] at hc
    have hle : c.toNat ≤ 57 := hc.2
    omega
  · have hlist : "/._-".toList.all fun c => c.toNat < 0x80 := by
      rfl
    exact of_decide_eq_true (List.all_eq_true.mp hlist c hc)

/-- The bytes of a path. -/
def Path.bytes (path : Path) : List UInt8 :=
  Codec.encode path.name

section Commands

variable (path : Path)

theorem isPlain_of_mem_bytes {b : UInt8} (hb : b ∈ path.bytes) :
    isPlain (Char.ofNat b.toNat) := by
  obtain ⟨c, hc, hmem⟩ := List.mem_flatMap.mp hb
  have hlt := isPlain_lt (path.plain c hc)
  rcases Codec.encodeChar_cases c with ⟨-, henc⟩ | ⟨hle, -⟩
  · rw [henc, List.mem_singleton] at hmem
    rw [hmem, Codec.toNat_ofNat_of_lt (by omega), Char.ofNat_toNat]
    exact path.plain c hc
  · omega

theorem head?_bytes : path.bytes.head? = some 0x2f := by
  obtain ⟨cs, hcs⟩ := List.head?_eq_some_iff.mp path.absolute
  rw [Path.bytes, Codec.encode, hcs]
  rfl

theorem notMem_bytes {b : UInt8} (hb : isPlain (Char.ofNat b.toNat) = false) :
    b ∉ path.bytes := by
  intro hmem
  rw [isPlain_of_mem_bytes path hmem] at hb
  cases hb

theorem parsePath_bytes : parsePath path.bytes = some path.bytes := by
  rw [parsePath, if_pos]
  exact ⟨head?_bytes path, List.all_eq_true.mpr fun b hb => isPlain_of_mem_bytes path hb⟩

theorem encode_writeFileCmd : Codec.encode (writeFileCmd path) =
    Codec.encode "bash -c 'cat > " ++ (path.bytes ++ Codec.encode "'") := by
  unfold writeFileCmd
  rw [Codec.encode_append, Codec.encode_append, List.append_assoc]
  rfl

theorem encode_readFileCmd :
    Codec.encode (readFileCmd path) = Codec.encode "cat " ++ path.bytes := by
  rw [readFileCmd, Codec.encode_append]
  rfl

theorem dropPrefix?_append_self {p b : List UInt8} : (p ++ b).dropPrefix? p = some b :=
  List.dropPrefix?_append_of_beq _ (beq_self_eq_true _)

theorem parseCommand_writeFileCmd :
    parseCommand (Codec.encode (writeFileCmd path)) = some (.write path.bytes) := by
  have hsuffix : (path.bytes ++ Codec.encode "'").dropSuffix? (Codec.encode "'") =
      some path.bytes :=
    List.dropSuffix?_eq_some_iff.mpr ⟨_, rfl, beq_self_eq_true _⟩
  -- `rw` would compare the prefix with that of the other command.
  simp only [parseCommand, encode_writeFileCmd, dropPrefix?_append_self, hsuffix]
  show (parsePath path.bytes).bind _ = _
  rw [parsePath_bytes]
  rfl

theorem dropPrefix?_of_head?_ne {p b : List UInt8} (hp : p ≠ []) (h : b.head? ≠ p.head?) :
    b.dropPrefix? p = none := by
  rw [Option.eq_none_iff_forall_ne_some]
  intro rest hrest
  obtain ⟨p', rfl, hp'⟩ := List.dropPrefix?_eq_some_iff.mp hrest
  obtain rfl := eq_of_beq hp'
  exact h (List.head?_append_of_ne_nil _ hp)

theorem parseCommand_readFileCmd :
    parseCommand (Codec.encode (readFileCmd path)) = some (.read path.bytes) := by
  have hpre : (Codec.encode "cat " ++ path.bytes).dropPrefix?
      (Codec.encode "bash -c 'cat > ") = none := by
    refine dropPrefix?_of_head?_ne (by decide) ?_
    rw [List.head?_append_of_ne_nil _ (by decide)]
    decide
  simp only [parseCommand, encode_readFileCmd, hpre, dropPrefix?_append_self]
  show (parsePath path.bytes).bind _ = _
  rw [parsePath_bytes]
  rfl

/-- **A command** of which it is known what it is. -/
theorem runLine_append_closing {fs : Files} {stdin : Option (List UInt8)} {b : List UInt8}
    {cmd : Command} (hcmd : parseCommand b = some cmd) :
    runLine fs stdin (b ++ closing) =
      (runCommand fs stdin cmd).map fun p => (p.1 ++ trailer p.2.1, p.2.2) := by
  have hsuffix : (b ++ closing).dropSuffix? closing = some b :=
    List.dropSuffix?_eq_some_iff.mpr ⟨_, rfl, beq_self_eq_true _⟩
  rw [runLine, hsuffix]
  show (parseCommand b).bind _ = _
  rw [hcmd]
  show (runCommand fs stdin cmd).bind _ = _
  cases runCommand fs stdin cmd <;> rfl

/-! ## What the shell does -/

/-- The line behind the here-document of `write_file`. -/
def writeLine : List UInt8 :=
  sedPipe ++ (Codec.encode (writeFileCmd path) ++ closing)

theorem notMem_writeFileCmd {b : UInt8} (hb : isPlain (Char.ofNat b.toNat) = false)
    (hb' : b ∉ Codec.encode "bash -c 'cat > " ∧ b ∉ Codec.encode "'") :
    b ∉ Codec.encode (writeFileCmd path) := by
  rw [encode_writeFileCmd, List.mem_append, List.mem_append, not_or, not_or]
  exact ⟨hb'.1, notMem_bytes path hb, hb'.2⟩

/-- The line behind the document does not end it. -/
theorem readBody_writeLine : readBody delimiter [] (writeLine path) = none := by
  have hsed : sedPipe = 0x7d :: sedPipe.tail := by decide
  have hclosing : closing = closing.dropLast ++ [newline] := by decide
  have hnewline : newline ∉ sedPipe.tail ++ (Codec.encode (writeFileCmd path) ++ closing.dropLast) := by
    rw [List.mem_append, List.mem_append, not_or, not_or]
    exact ⟨by decide, notMem_writeFileCmd path (by decide) (by decide),
      by decide⟩
  have hline : writeLine path =
      0x7d :: ((sedPipe.tail ++ (Codec.encode (writeFileCmd path) ++ closing.dropLast)) ++
        [newline]) := by
    rw [writeLine, List.append_assoc, List.append_assoc, ← hclosing, ← List.cons_append, ← hsed]
  rw [hline, readBody_cons (by decide) (by decide)]
  exact readBody_of_notMem hnewline (List.cons_ne_nil _ _) (by decide)

theorem writeFileInput_eq {content : String} (hne : content ≠ "") :
    writeFileInput path content none =
      opening ++ (escape (Codec.encode content) ++
        newline :: (delimiter ++ newline :: writeLine path)) := by
  rw [writeFileInput, execInput]
  dsimp only
  rw [if_neg hne, writeLine]
  simp only [List.append_assoc, List.cons_append, List.flatMap_nil, List.nil_append]

theorem writeFileInput_empty :
    writeFileInput path "" none = Codec.encode (writeFileCmd path) ++ closing :=
  rfl

theorem readFileInput_eq :
    readFileInput path = Codec.encode (readFileCmd path) ++ closing :=
  rfl

variable {subst : List UInt8 → Option (ℕ × List UInt8)} {fs : Files}

/-- **Without a here-document** a command has the input of the shell. -/
theorem serve_of_command {b : List UInt8} {cmd : Command} (hcmd : parseCommand b = some cmd)
    (hzero : 0 ∉ b) (hb : b ≠ []) (hhead : b.head? ≠ opening.head?) :
    serve subst fs (b ++ closing) =
      (runCommand fs none cmd).map fun p => (p.1 ++ trailer p.2.1, p.2.2) := by
  have hfilter : (b ++ closing).filter (· ≠ 0) = b ++ closing := by
    rw [List.filter_append, List.filter_eq_self.mpr fun c hc => ?_]
    · have hclosing : closing.filter (· ≠ 0) = closing := by decide
      rw [hclosing]
    · exact decide_eq_true fun h => hzero (h ▸ hc)
  have hpre : (b ++ closing).dropPrefix? opening = none := by
    refine dropPrefix?_of_head?_ne (by decide) ?_
    rwa [List.head?_append_of_ne_nil _ hb]
  rw [serve]
  dsimp only
  rw [hfilter, hpre]
  exact runLine_append_closing hcmd

/-- **An empty content** is never written: the command waits for the end of its input. -/
theorem serve_writeFile_empty : serve subst fs (writeFileInput path "" none) = none := by
  have hhead : (Codec.encode (writeFileCmd path)).head? = some 0x62 := by
    rw [encode_writeFileCmd, List.head?_append_of_ne_nil _ (by decide)]
    decide
  have hne : Codec.encode (writeFileCmd path) ≠ [] := by
    intro h
    rw [h] at hhead
    cases hhead
  rw [writeFileInput_empty, serve_of_command (parseCommand_writeFileCmd path)
    (notMem_writeFileCmd path (by decide) (by decide)) hne]
  · rfl
  · rw [hhead]
    decide

theorem serve_readFile {text : List UInt8} (hfile : fs path.bytes = some text) :
    serve subst fs (readFileInput path) = some (text ++ trailer 0, fs) := by
  have hhead : (Codec.encode (readFileCmd path)).head? = some 0x63 := by
    rw [encode_readFileCmd, List.head?_append_of_ne_nil _ (by decide)]
    decide
  have hne : Codec.encode (readFileCmd path) ≠ [] := by
    intro h
    rw [h] at hhead
    cases hhead
  have hzero : 0 ∉ Codec.encode (readFileCmd path) := by
    rw [encode_readFileCmd, List.mem_append, not_or]
    exact ⟨by decide, notMem_bytes path (by decide)⟩
  rw [readFileInput_eq, serve_of_command (parseCommand_readFileCmd path) hzero hne]
  · rw [runCommand, hfile]
    rfl
  · rw [hhead]
    decide

theorem filter_writeLine : (writeLine path).filter (· ≠ 0) = writeLine path := by
  refine List.filter_eq_self.mpr fun c hc => decide_eq_true ?_
  rintro rfl
  rw [writeLine, List.mem_append, List.mem_append] at hc
  rcases hc with hc | hc | hc
  · exact absurd hc (by decide)
  · exact notMem_writeFileCmd path (by decide) (by decide) hc
  · exact absurd hc (by decide)

/-- **With a here-document**: what is read of it, expanded and without its last newline, is written
to the file. -/
theorem serve_writeFile {content : String} (hne : content ≠ "") :
    serve subst fs (writeFileInput path content none) =
      (readBody delimiter [] (escape ((Codec.encode content).filter (· ≠ 0)) ++
        newline :: (delimiter ++ newline :: writeLine path))).bind fun p =>
        (expand subst 0 p.1).bind fun text => (p.2.dropPrefix? sedPipe).bind
          (runLine fs (some (sedZ text))) := by
  have hfilter : (writeFileInput path content none).filter (· ≠ 0) =
      opening ++ (escape ((Codec.encode content).filter (· ≠ 0)) ++
        newline :: (delimiter ++ newline :: writeLine path)) := by
    have hopening : opening.filter (· ≠ 0) = opening := by decide
    have hdelimiter : delimiter.filter (· ≠ 0) = delimiter := by decide
    rw [writeFileInput_eq path hne, List.filter_append, List.filter_append, filter_escape, hopening,
      List.filter_cons_of_pos (by decide), List.filter_append, hdelimiter,
      List.filter_cons_of_pos (by decide), filter_writeLine]
  rw [serve]
  dsimp only
  rw [hfilter, dropPrefix?_append_self]
  rfl

theorem serve_of_readBody {content : String} (hne : content ≠ "") {body : List UInt8}
    (h : readBody delimiter [] (escape ((Codec.encode content).filter (· ≠ 0)) ++
      newline :: (delimiter ++ newline :: writeLine path)) = some (body, writeLine path)) :
    serve subst fs (writeFileInput path content none) = (expand subst 0 body).map fun text =>
      (trailer 0, Function.update fs path.bytes (some (sedZ text))) := by
  have hline (text : List UInt8) : ((writeLine path).dropPrefix? sedPipe).bind
      (runLine fs (some (sedZ text))) =
        some (trailer 0, Function.update fs path.bytes (some (sedZ text))) := by
    rw [writeLine, dropPrefix?_append_self, Option.bind_some,
      runLine_append_closing (parseCommand_writeFileCmd path)]
    rfl
  rw [serve_writeFile path hne, h, Option.bind_some]
  simp only [hline]
  exact (Option.map_eq_bind ..).symm

end Commands

/-! ## What is read -/

section Reading

variable {text : List UInt8}

/-- The mark is only at the end of the output. -/
theorem eq_of_endMark_suffix (htext : mark ∉ text) {bio rest : List UInt8}
    (hend : endMark <:+ bio) (h : bio ++ rest = text ++ trailer 0) : bio = text ++ trailer 0 := by
  have hat : ∀ k < 9, endMark <+: (trailer 0).drop k → k = 4 := by decide
  have hlen : (trailer 0).length = 9 := by decide
  have hlen' : endMark.length = 5 := by decide
  obtain ⟨a, rfl⟩ := hend
  rw [List.append_assoc] at h
  rcases List.append_eq_append_iff.mp h with ⟨b, rfl, hb⟩ | ⟨b, rfl, hb⟩
  · rcases b with _ | ⟨c, b⟩
    · exact absurd (hat 0 (by decide) ⟨rest, hb⟩) (by decide)
    · obtain ⟨rfl, -⟩ := List.cons.inj hb
      exact absurd (List.mem_append_right _ List.mem_cons_self) htext
  · have hsum := congrArg List.length hb
    rw [List.length_append, List.length_append, hlen, hlen'] at hsum
    have hfour : b.length = 4 := by
      refine hat _ (by omega) ⟨rest, ?_⟩
      rw [hb, List.drop_left]
    have hrest : rest = [] := List.length_eq_zero_iff.mp (by omega)
    rw [hb, hrest, List.append_nil, List.append_assoc]

theorem endMark_suffix_trailer : endMark <:+ text ++ trailer 0 :=
  (List.suffix_append _ _).trans (List.suffix_append _ _)

/-- **The loop ends** with all of the output, however it is cut into pieces. -/
theorem readLoop_eq (htext : mark ∉ text) : ∀ (reads : List (Option (List UInt8)))
    {bio : List UInt8}, bio ++ (reads.map (·.getD [])).flatten = text ++ trailer 0 →
      readLoop bio reads = some (text ++ trailer 0)
  | [], bio, h => by
    obtain rfl : bio = text ++ trailer 0 := by simpa using h
    rw [readLoop, if_pos (List.isSuffixOf_iff_suffix.mpr endMark_suffix_trailer)]
  | b :: reads, bio, h => by
    rw [readLoop]
    split
    · next hend =>
      rw [eq_of_endMark_suffix htext (List.isSuffixOf_iff_suffix.mp hend) h]
    · rw [List.map_cons, List.flatten_cons, ← List.append_assoc] at h
      exact readLoop_eq htext reads h

theorem rindex_append_trailer : ∀ text : List UInt8,
    rindex rcMark (text ++ trailer 0) = some text.length
  | [] => by decide
  | c :: text => by rw [List.cons_append, rindex, rindex_append_trailer text, List.length_cons]

theorem execResult_append_trailer :
    execResult (text ++ trailer 0) = (decode text).map fun out => (0, out) := by
  have hdigits : (((text ++ trailer 0).drop (text.length + 3)).takeWhile (· ≠ mark)) = [0x30] := by
    rw [← List.drop_drop, List.drop_left]
    decide
  have hint : intBytes [0x30] = some 0 := by decide
  rw [execResult, rindex_append_trailer]
  dsimp only
  rw [hdigits, hint, List.take_left]
  cases decode text <;> rfl

theorem execRun_of_delivers (htext : mark ∉ text) {reads : List (Option (List UInt8))}
    (h : Delivers reads (text ++ trailer 0)) :
    execRun reads = some ((decode text).map fun out => (0, out)) := by
  have hloop : readLoop [] reads = some (text ++ trailer 0) := readLoop_eq htext reads h
  rw [execRun, hloop, Option.map_some, execResult_append_trailer]

/-- The output in one piece. -/
theorem execRun_singleton :
    execRun [some (text ++ trailer 0)] = some ((decode text).map fun out => (0, out)) := by
  have hnil : endMark.isSuffixOf [] = false := by decide
  have hloop : readLoop [] [some (text ++ trailer 0)] = some (text ++ trailer 0) := by
    rw [readLoop, hnil, if_neg Bool.false_ne_true]
    exact if_pos (List.isSuffixOf_iff_suffix.mpr endMark_suffix_trailer)
  rw [execRun, hloop, Option.map_some, execResult_append_trailer]

theorem decode_encode (s : String) : decode (Codec.encode s) = .ok s := by
  rw [decode, Codec.encode, Codec.utf8_encode]
  dsimp only
  rw [String.ofList_toList]

theorem eq_encode_of_decode {s : String} (h : decode text = .ok s) : text = Codec.encode s := by
  unfold decode at h
  split at h
  · next cs hcs =>
    obtain rfl := Except.ok.inj h
    rw [Codec.encode, String.toList_ofList]
    exact Codec.utf8_eq_ok_iff.mp hcs
  · cases h

theorem mark_notMem_encode (s : String) : mark ∉ Codec.encode s := by
  intro h
  obtain ⟨c, -, hc⟩ := List.mem_flatMap.mp h
  exact absurd (Codec.lt_of_mem_encodeChar hc) (by decide)

end Reading

/-! ## Which contents are kept -/

theorem encode_eq_nil_iff {content : String} : Codec.encode content = [] ↔ content = "" := by
  constructor
  · intro h
    have hdecode := decode_encode content
    rw [h] at hdecode
    exact (Except.ok.inj hdecode).symm
  · rintro rfl
    rfl

/-- **A content that is kept** is read back in every shell. -/
theorem writesReads_of_kept {content : String} (h : Kept (Codec.encode content))
    (subst : List UInt8 → Option (ℕ × List UInt8)) (fs : Files) (path : Path) :
    WritesReads subst fs path content := by
  have hne : content ≠ "" := mt encode_eq_nil_iff.mpr h.nonempty
  have hfilter : (Codec.encode content).filter (· ≠ 0) = Codec.encode content :=
    List.filter_eq_self.mpr fun c hc => decide_eq_true fun hzero => h.zero (hzero ▸ hc)
  have hbody := (readsAs_readBody (readBody_writeLine path) (List.not_mem_nil (a := mark))
    (mark_notMem_encode content)).resolve_right fun hnot => hnot.1 h.plain
  have htext : expand subst 0 (escape (Codec.encode content) ++ [newline]) =
      some (Codec.encode content ++ [newline]) :=
    ((expandsTo_expand (Codec.encode content)).resolve_right fun hnot => hnot.1 h.plain).2
  have hserve : serve subst fs (writeFileInput path content none) = _ :=
    serve_of_readBody path hne (hfilter.symm ▸ hbody)
  rw [hfilter, List.nil_append, htext, Option.map_some, sedZ_append_newline] at hserve
  refine ⟨trailer 0, _, hserve, fun reads hreads => ?_, Codec.encode content ++ trailer 0, _,
    serve_readFile path (Function.update_self ..), fun reads hreads => ?_⟩
  · refine ⟨none, ?_⟩
    have hrun : execRun reads = some ((decode []).map fun out => (0, out)) :=
      execRun_of_delivers List.not_mem_nil hreads
    rw [writeFile, hrun]
    rfl
  · rw [readFile, execRun_of_delivers (mark_notMem_encode content) hreads, decode_encode]
    rfl

/-- **Any other content is not**, in a shell where nothing is set. -/
theorem kept_of_writesReads {subst : List UInt8 → Option (ℕ × List UInt8)} (hbare : Bare subst)
    {fs : Files} {path : Path} {content : String} (h : WritesReads subst fs path content) :
    Kept (Codec.encode content) := by
  obtain ⟨out, fs', hserve, -, out', fs'', hserve', hread⟩ := h
  have hne : content ≠ "" := by
    rintro rfl
    rw [serve_writeFile_empty] at hserve
    cases hserve
  have hbs : Codec.encode content ≠ [] := mt encode_eq_nil_iff.mp hne
  have hle := List.length_filter_le (· ≠ 0) (Codec.encode content)
  have hmark : mark ∉ (Codec.encode content).filter (· ≠ 0) :=
    fun h => mark_notMem_encode content (List.mem_of_mem_filter h)
  have hbody := readsAs_readBody (readBody_writeLine path) (List.not_mem_nil (a := mark)) hmark
  -- the file is written with what is read of the document, and is the content
  obtain ⟨p, hp, -⟩ := Option.bind_eq_some_iff.mp ((serve_writeFile path hne).symm.trans hserve)
  have hline : p.2 = writeLine path := by
    rcases hbody with h | ⟨-, h⟩
    · rw [hp] at h
      obtain rfl := Option.some.inj h
      rfl
    · exact (h p hp).1
  obtain ⟨body, line⟩ := p
  obtain rfl : line = writeLine path := hline
  rw [serve_of_readBody path hne hp] at hserve
  obtain ⟨text, htext, hout⟩ := Option.map_eq_some_iff.mp hserve
  obtain ⟨rfl, rfl⟩ := Prod.mk.inj hout
  rw [serve_readFile path (Function.update_self ..)] at hserve'
  obtain ⟨rfl, rfl⟩ := Prod.mk.inj (Option.some.inj hserve')
  have hread := hread [some (sedZ text ++ trailer 0)] (List.append_nil _)
  rw [readFile, execRun_singleton] at hread
  have hfile : sedZ text = Codec.encode content := by
    refine eq_encode_of_decode ?_
    cases hdecode : decode (sedZ text) with
    | error e => rw [hdecode] at hread; cases hread
    | ok s => rw [hdecode] at hread; cases hread; rfl
  have hlen : (sedZ text).length = (Codec.encode content).length := congrArg List.length hfile
  rcases hbody with h | ⟨-, h⟩
  · rw [hp] at h
    obtain ⟨rfl, -⟩ := Prod.mk.inj (Option.some.inj h)
    have hexpand : ExpandsTo subst ((Codec.encode content).filter (· ≠ 0)) _ := expandsTo_expand _
    rcases hexpand with ⟨hplain, h⟩ | ⟨-, h⟩
    · obtain rfl := Option.some.inj (htext.symm.trans h)
      rw [sedZ_append_newline] at hfile
      rw [hfile] at hplain
      refine ⟨hbs, fun hzero => ?_, hplain⟩
      rw [← hfile] at hzero
      exact absurd (List.of_mem_filter hzero) (by decide)
    · have hlt := h hbare text htext
      omega
  · obtain ⟨-, ⟨-, -, hnil⟩ | ⟨cs, hlt, hcs⟩⟩ := h _ hp
    · obtain rfl : body = [] := hnil
      obtain rfl := Option.some.inj (htext.symm.trans (expand_nil 0))
      exact absurd hfile.symm hbs
    · obtain rfl : body = escape cs ++ [newline] := hcs
      have hshort := length_sedZ_of_expand hbare cs 0 text htext
      omega

/-- A path that the tests write to. -/
def file0 : Path where
  name := "/tmp/file0"
  plain := List.all_eq_true.mp (by rfl)
  absolute := by rfl

/-- A shell where nothing is set, and a dollar or backquote is gone with the byte behind it. -/
def bareSubst : List UInt8 → Option (ℕ × List UInt8) :=
  fun _ => some (2, [])

theorem bare_bareSubst : Bare bareSubst := by
  intro text n value h
  exact (Prod.mk.inj (Option.some.inj h)).2.symm

/-- **Which contents are read back**, in every shell, whatever its files are, and for every path. -/
theorem writesReads_iff (content : String) :
    (∀ subst fs path, WritesReads subst fs path content) ↔ Kept (Codec.encode content) :=
  ⟨fun h => kept_of_writesReads bare_bareSubst (h bareSubst (fun _ => none) file0),
    fun h subst fs path => writesReads_of_kept h subst fs path⟩

/-- Two backslashes are read back as one. -/
theorem not_writesReads_backslashes :
    ¬ WritesReads bareSubst (fun _ => none) file0 "a\\\\b" := by
  intro h
  have hplain := (kept_of_writesReads bare_bareSubst h).plain
  exact (hplain.2.2.2.1 rfl).1 rfl

end WriteFile
end LdmsTest
