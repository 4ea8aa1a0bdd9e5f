import LdmsTest.C.AssertMessage
import LdmsTest.Tada.Record

/-!
# The messages of C tests

`tada.c` prints its messages as objects whose members are strings and numbers.  They are read by
`tadad` as they were printed, if no string has a character in it that `printf` does not escape.

* `Item`, `members`: the members of an object, as they are printed.
* `parse_encode`: what `tadad` makes of an object.
* `isStart_startMsg`, `isReport_assertMsg`, `isFinish_finishMsg`: what it makes of the messages.
-/

namespace LdmsTest
namespace CTada

open Json
open Tada (Calendar)
open Tada.Tadad (IsStart IsReport IsFinish Announced Second reportOf)

/-! ## Objects -/

/-- What is printed behind a key: a string that is read as `read`, or a number. -/
inductive Item where
  | text (raw read : List Char)
  | number (n : ℕ)

namespace Item

/-- The item in front of the rest of the object. -/
def chars : Item → List Char → List Char
  | .text raw _, rest => quoted raw rest
  | .number n, rest => intText n ++ rest

def val (F : Type) : Item → Val F
  | .text _ read => .str (String.ofList read)
  | .number n => .int n

/-- A string is read as it says, and a number is within every limit of digits. -/
def Sound : Item → Prop
  | .text raw read => scanString (raw ++ ['"']) = .ok (read, [])
  | .number n => n < 10 ^ 20

end Item

/-- The members of an object, and its end. -/
def members : List (String × Item) → List Char
  | [] => ['\x7d']
  | [m] => member m.1.toList (m.2.chars ['\x7d'])
  | m :: m' :: ms => member m.1.toList (m.2.chars (',' :: members (m' :: ms)))

/-- The text has no quote, no backslash and no control character. -/
def Clean (cs : List Char) : Prop :=
  ∀ c ∈ cs, c ≠ '"' ∧ c ≠ '\\' ∧ 0x20 ≤ c.toNat

instance (cs : List Char) : Decidable (Clean cs) :=
  inferInstanceAs (Decidable (∀ c ∈ cs, _))

/-- The members are read as they say. -/
def SoundMembers (ms : List (String × Item)) : Prop :=
  ∀ m ∈ ms, Clean m.1.toList ∧ m.2.Sound

theorem members_singleton (k : String) (item : Item) :
    members [(k, item)] = member k.toList (item.chars ['\x7d']) := rfl

theorem members_cons_cons (k : String) (item : Item) (m : String × Item)
    (ms : List (String × Item)) : members ((k, item) :: m :: ms) =
      member k.toList (item.chars (',' :: members (m :: ms))) := rfl

theorem exists_members (m : String × Item) (ms : List (String × Item)) :
    ∃ v, members (m :: ms) = member m.1.toList v := by
  cases ms with
  | nil => exact ⟨_, rfl⟩
  | cons m' ms => exact ⟨_, rfl⟩

theorem length_le_members (ms : List (String × Item)) : ms.length ≤ (members ms).length := by
  induction ms with
  | nil => exact Nat.zero_le _
  | cons m ms ih =>
    cases ms with
    | nil => simp [members, member]
    | cons m' ms =>
      have hchars (rest : List Char) : rest.length ≤ (m.2.chars rest).length := by
        rcases m.2 with ⟨raw, read⟩ | n
        · simp only [Item.chars, quoted, List.length_cons, List.length_append]
          omega
        · simp only [Item.chars, List.length_append]
          omega
      have hle := hchars (',' :: members (m' :: ms))
      simp only [members, member, List.length_cons, List.length_append] at ih hle ⊢
      omega

/-! ### The limits of the interpreter -/

section Limits

variable {lim : Limits} {depth : ℕ}

/-- The rest of a string that is read as it says. -/
theorem Item.scanString_append {raw read : List Char} (h : (Item.text raw read).Sound)
    (rest : List Char) : scanString (raw ++ '"' :: rest) = .ok (read, rest) := by
  have hextends := extends_scanString rest _ _ h
  rwa [List.append_assoc] at hextends

theorem Item.reads_chars {item : Item} (h : item.Sound) {rest : List Char}
    (hrest : Delimited rest) :
    reads lim .outside depth (item.chars rest) = reads lim .outside depth rest := by
  cases item with
  | text raw read =>
    rw [Item.chars, quoted, reads_of_next rfl]
    exact reads_of_scanString (Item.scanString_append h rest)
  | number n =>
    have hn : n < 10 ^ 20 := h
    exact reads_intText (allows_intText lim (by omega)) hrest

theorem reads_member {k : List Char} (hk : Clean k) (v : List Char) :
    reads lim .outside depth (member k v) = reads lim .outside depth v := by
  rw [member, reads_of_next rfl, reads_of_scanString (scanString_clean hk _), reads_of_next rfl,
    reads_of_next rfl, reads_of_next rfl]

/-- Members are gone through up to the end of the object. -/
theorem reads_members {ms : List (String × Item)} (hms : SoundMembers ms) :
    reads lim .outside (depth + 1) (members ms) = reads lim .outside depth [] := by
  induction ms with
  | nil => rfl
  | cons m ms ih =>
    obtain ⟨hm, hms⟩ := List.forall_mem_cons.mp hms
    cases ms with
    | nil =>
      rw [members, reads_member hm.1, Item.reads_chars hm.2 (delimited_cons (by decide) _)]
      rfl
    | cons m' ms =>
      rw [members, reads_member hm.1, Item.reads_chars hm.2 (delimited_cons (by decide) _),
        reads_of_next rfl, ← ih hms]

theorem withinLimits_members (lim : Limits) {ms : List (String × Item)} (hms : SoundMembers ms) :
    withinLimits lim ('\x7b' :: ' ' :: members ms) := by
  have hopen : next lim .outside 0 '\x7b' = some (.outside, 1) := if_pos lim.depth_pos
  rw [withinLimits, reads_of_next hopen, reads_of_next rfl]
  exact reads_members hms

end Limits

section Reader

variable {F : Type} [JsonFloat F]

/-- The last member. -/
theorem scanFields_last {m : String × Item} (hkey : Clean m.1.toList) (hitem : m.2.Sound) (n : ℕ) :
    (scanFields (n + 2) (member m.1.toList (m.2.chars ['\x7d'])) : Except LoadError _) =
      .ok ([(m.1, m.2.val F)], []) := by
  obtain ⟨k, ⟨raw, read⟩ | i⟩ := m
  · have hscan : scanString (raw ++ '"' :: ['\x7d']) = .ok (read, ['\x7d']) :=
      Item.scanString_append hitem _
    rw [scanFields_member hkey]
    show scanValue (F := F) (n + 1) ('"' :: (raw ++ '"' :: ['\x7d'])) >>= _ = _
    rw [scanValue, if_pos rfl, hscan, Item.val]
    show Except.ok ([(String.ofList k.toList, _)], []) = _
    rw [String.ofList_toList]
  · have hopens : skipSpace (intText i ++ ['\x7d']) = intText i ++ ['\x7d'] :=
      ((opens_of_scanNumber (scanNumber_intText i)).append _).skipSpace_eq
    rw [scanFields_member hkey]
    show scanValue (F := F) (n + 1) (skipSpace (intText i ++ ['\x7d'])) >>= _ = _
    rw [hopens, scanValue_int (delimited_cons (by simp) _), Item.val]
    show Except.ok ([(String.ofList k.toList, _)], []) = _
    rw [String.ofList_toList]

/-- **Members** are read as they say. -/
theorem scanFields_members {ms : List (String × Item)} (hms : SoundMembers ms) (hne : ms ≠ [])
    {n : ℕ} (hn : ms.length < n) : (scanFields n (members ms) : Except LoadError _) =
      .ok (ms.map fun m => (m.1, m.2.val F), []) := by
  induction ms generalizing n with
  | nil => exact absurd rfl hne
  | cons m ms ih =>
    obtain ⟨hm, hms⟩ := List.forall_mem_cons.mp hms
    obtain ⟨n, rfl⟩ : ∃ n', n = n' + 2 := Nat.exists_eq_add_of_le' (by simp at hn; omega)
    cases ms with
    | nil => exact scanFields_last hm.1 hm.2 n
    | cons m' ms =>
      have hrest := ih hms (List.cons_ne_nil _ _) (n := n + 1) (by simpa using hn)
      obtain ⟨v, hv⟩ := exists_members m' ms
      obtain ⟨k, ⟨raw, read⟩ | i⟩ := m
      · have hcons := scanFields_quoted (F := F) hm.1 hm.2 n m'.1.toList v
        rw [← hv, hrest, String.ofList_toList] at hcons
        exact hcons
      · have hcons := scanFields_int (F := F) hm.1 i n m'.1.toList v
        rw [← hv, hrest, String.ofList_toList] at hcons
        exact hcons

/-- **An object** is read as it says. -/
theorem loadsChars_members {ms : List (String × Item)} (hms : SoundMembers ms) (hne : ms ≠ []) :
    (loadsChars ('\x7b' :: ' ' :: members ms) : Except LoadError (Val F)) =
      .ok (.dict (Dict.update [] (ms.map fun m => (m.1, m.2.val F)))) := by
  obtain ⟨m, ms, rfl⟩ := List.exists_cons_of_ne_nil hne
  obtain ⟨v, hv⟩ := exists_members m ms
  have hlen := length_le_members (m :: ms)
  rw [hv, loadsChars_object, ← hv, scanFields_members hms hne]
  · rfl
  · simp only [List.length_cons] at hlen ⊢
    omega

theorem loadsLimited_encode_members {s : String} {ms : List (String × Item)} (hms : SoundMembers ms)
    (hne : ms ≠ []) (hs : s.toList = '\x7b' :: ' ' :: members ms) :
    (Codec.loadsLimited (Codec.encode s) : Except LoadError (Val F)) =
      .ok (.dict (Dict.update [] (ms.map fun m => (m.1, m.2.val F)))) := by
  have hutf8 : Codec.detectEncoding (Codec.encode s) = .utf8 := by
    obtain ⟨m, ms, rfl⟩ := List.exists_cons_of_ne_nil hne
    obtain ⟨v, hv⟩ := exists_members m ms
    rw [Codec.encode, hs, hv]
    have hhead (bs : List UInt8) : Codec.detectEncoding (0x7b :: 0x20 :: 0x22 :: bs) = .utf8 := by
      cases bs <;> rfl
    exact hhead _
  have hread : Codec.decode (Codec.encode s) (Codec.detectEncoding (Codec.encode s)) =
      .ok s.toList := by
    rw [hutf8]
    exact Codec.utf8_encode s.toList
  have hlim : withinLimits (PyRuntime.limits F) s.toList := hs ▸ withinLimits_members _ hms
  rw [Codec.loadsLimited_eq hread hlim, Codec.loadsBytes, hread, ok_bind, loads_eq_loadsChars,
    String.toList_ofList, hs, loadsChars_members hms hne]

/-- What `tadad` makes of an object. -/
theorem parse_encode {s : String} {ms : List (String × Item)} (hms : SoundMembers ms)
    (hne : ms ≠ []) (hnodup : (ms.map Prod.fst).Nodup)
    (hs : s.toList = '\x7b' :: ' ' :: members ms) :
    Tada.Tadad.parse (Codec.encode s) = some (Dict.setdefault
      (ms.map fun m => (m.1, m.2.val F)) "test-user" (.str "NONE")) := by
  have hkeys : (Dict.keys (([] : Dict String (Val F)) ++ ms.map fun m => (m.1, m.2.val F))).Nodup := by
    rw [List.nil_append, Dict.keys, List.map_map]
    exact hnodup
  rw [Tada.Tadad.parse, loadsLimited_encode_members hms hne hs, Dict.update_of_nodup_append hkeys,
    List.nil_append]

end Reader

/-! ## The messages -/

/-- A string without escapes. -/
def Item.plain (s : String) : Item :=
  .text s.toList s.toList

theorem Item.chars_plain (s : String) (rest : List Char) :
    (Item.plain s).chars rest = quoted s.toList rest := rfl

theorem Item.chars_text (raw read rest : List Char) :
    (Item.text raw read).chars rest = quoted raw rest := rfl

theorem Item.chars_number (n : ℕ) (rest : List Char) :
    (Item.number n).chars rest = intText n ++ rest := rfl

theorem Item.sound_plain {s : String} (h : Clean s.toList) : (Item.plain s).Sound :=
  scanString_clean h []

def startItems (test : CTest) (testId : String) (ts : ℕ) : List (String × Item) :=
  [("msg-type", .plain "test-start"),
    ("test-suite", .plain test.suiteName),
    ("test-type", .plain test.testType),
    ("test-name", .plain test.testName),
    ("test-user", .plain test.testUser),
    ("test-desc", .plain test.testDesc),
    ("commit-id", .plain test.commitId),
    ("timestamp", .number ts),
    ("test-id", .plain testId)]

def assertItems (testId : String) (assertNo : ℕ) (description cond status : String) :
    List (String × Item) :=
  [("msg-type", .plain "assert-status"),
    ("test-id", .plain testId),
    ("assert-no", .number assertNo),
    ("assert-desc", .plain description),
    ("assert-cond", .text (escapeQuotes cond).toList cond.toList),
    ("test-status", .plain status)]

def finishItems (testId : String) (ts : ℕ) : List (String × Item) :=
  [("msg-type", .plain "test-finish"),
    ("test-id", .plain testId),
    ("timestamp", .number ts)]

theorem nodup_startItems (test : CTest) (testId : String) (ts : ℕ) :
    ((startItems test testId ts).map Prod.fst).Nodup :=
  show ["msg-type", "test-suite", "test-type", "test-name", "test-user", "test-desc", "commit-id",
    "timestamp", "test-id"].Nodup by decide

theorem nodup_assertItems (testId : String) (assertNo : ℕ) (description cond status : String) :
    ((assertItems testId assertNo description cond status).map Prod.fst).Nodup :=
  show ["msg-type", "test-id", "assert-no", "assert-desc", "assert-cond", "test-status"].Nodup by
    decide

theorem nodup_finishItems (testId : String) (ts : ℕ) :
    ((finishItems testId ts).map Prod.fst).Nodup :=
  show ["msg-type", "test-id", "timestamp"].Nodup by decide

theorem toDigits_eq_intText (n : ℕ) : Nat.toDigits 10 n = intText n := by
  rw [intText, if_neg (by omega), Int.natAbs_natCast]

set_option maxRecDepth 4000 in
theorem toList_startMsg (test : CTest) (testId : String) (ts : ℕ) :
    (startMsg test testId ts).toList = '\x7b' :: ' ' :: members (startItems test testId ts) := by
  simp only [startItems, members_cons_cons, members_singleton, Item.chars_plain,
    Item.chars_number, ← toDigits_eq_intText]
  unfold startMsg member quoted
  simp

theorem toList_assertMsg (testId : String) (assertNo : ℕ) (description cond status : String) :
    (assertMsg testId assertNo description (escapeQuotes cond) status).toList =
      '\x7b' :: ' ' :: members (assertItems testId assertNo description cond status) := by
  simp only [assertItems, members_cons_cons, members_singleton, Item.chars_plain, Item.chars_text,
    Item.chars_number, ← toDigits_eq_intText]
  unfold assertMsg member quoted
  simp

theorem toList_finishMsg (testId : String) (ts : ℕ) :
    (finishMsg testId ts).toList = '\x7b' :: ' ' :: members (finishItems testId ts) := by
  simp only [finishItems, members_cons_cons, members_singleton, Item.chars_plain,
    Item.chars_number, ← toDigits_eq_intText]
  unfold finishMsg member quoted
  simp

/-! ## What is made of them -/

section Read

variable {F : Type} [JsonFloat F] {test : CTest} {testId : String}

/-- What is fixed about the test can be printed. -/
structure CTest.CleanFields (test : CTest) : Prop where
  suiteName : Clean test.suiteName.toList
  testName : Clean test.testName.toList
  testType : Clean test.testType.toList
  testUser : Clean test.testUser.toList
  commitId : Clean test.commitId.toList
  testDesc : Clean test.testDesc.toList
  descriptions : ∀ description ∈ test.descriptions, Clean description.toList

/-- What a test announces. -/
def CTest.announced (test : CTest) : Announced where
  suite := test.suiteName
  type := test.testType
  name := test.testName
  user := test.testUser
  commit := test.commitId
  desc := test.testDesc

theorem soundMembers_startItems (h : test.CleanFields) (hid : Clean testId.toList) {ts : ℕ}
    (hts : ts < 10 ^ 20) :
    SoundMembers (startItems test testId ts) := by
  simp only [SoundMembers, startItems, List.forall_mem_cons]
  refine ⟨⟨clean_of_all rfl, Item.sound_plain (clean_of_all rfl)⟩,
    ⟨clean_of_all rfl, Item.sound_plain h.suiteName⟩,
    ⟨clean_of_all rfl, Item.sound_plain h.testType⟩,
    ⟨clean_of_all rfl, Item.sound_plain h.testName⟩,
    ⟨clean_of_all rfl, Item.sound_plain h.testUser⟩,
    ⟨clean_of_all rfl, Item.sound_plain h.testDesc⟩,
    ⟨clean_of_all rfl, Item.sound_plain h.commitId⟩,
    ⟨clean_of_all rfl, hts⟩, ⟨clean_of_all rfl, Item.sound_plain hid⟩, by simp⟩

theorem soundMembers_assertItems (hid : Clean testId.toList) {assertNo : ℕ}
    (hno : assertNo < 10 ^ 20) {description cond status : String} (hdescription : Clean description.toList)
    (hcond : ∀ c ∈ cond.toList, c ≠ '\\' ∧ 0x20 ≤ c.toNat) (hstatus : Clean status.toList) :
    SoundMembers (assertItems testId assertNo description cond status) := by
  have hescaped : (Item.text (escapeQuotes cond).toList cond.toList).Sound := by
    have hread := scanString_escapeChars_clean hcond []
    rwa [Item.Sound, escapeQuotes, String.toList_ofList]
  simp only [SoundMembers, assertItems, List.forall_mem_cons]
  refine ⟨⟨clean_of_all rfl, Item.sound_plain (clean_of_all rfl)⟩,
    ⟨clean_of_all rfl, Item.sound_plain hid⟩, ⟨clean_of_all rfl, hno⟩,
    ⟨clean_of_all rfl, Item.sound_plain hdescription⟩, ⟨clean_of_all rfl, hescaped⟩,
    ⟨clean_of_all rfl, Item.sound_plain hstatus⟩, by simp⟩

theorem soundMembers_finishItems (hid : Clean testId.toList) {ts : ℕ} (hts : ts < 10 ^ 20) :
    SoundMembers (finishItems testId ts) := by
  simp only [SoundMembers, finishItems, List.forall_mem_cons]
  exact ⟨⟨clean_of_all rfl, Item.sound_plain (clean_of_all rfl)⟩,
    ⟨clean_of_all rfl, Item.sound_plain hid⟩, ⟨clean_of_all rfl, hts⟩, by simp⟩

omit [JsonFloat F] in
/-- A member is found in the message. -/
theorem get?_setdefault_of_get? {d : Dict String (Val F)} {k : String} {v : Val F}
    (h : Dict.get? d k = some v) :
    Dict.get? (Dict.setdefault d "test-user" (.str "NONE")) k = some v := by
  rw [Dict.get?_setdefault]
  split
  · next hk => rw [hk, h, Option.getD_some]
  · exact h

variable [Calendar] [DecidableEq F]

/-- **The start of a test** is received. -/
theorem exists_parse_startMsg (h : test.CleanFields) (hid : Clean testId.toList) {ts : ℕ}
    {sec : Second} (hsec : sec.second = ts) :
    ∃ r : Val.Fields F, Tada.Tadad.parse (Codec.encode (startMsg test testId ts)) = some r ∧
      IsStart testId test.announced sec r := by
  have hts : ts < 10 ^ 20 := by
    have hmax := sec.max
    omega
  refine ⟨_, parse_encode (soundMembers_startItems h hid hts) (List.cons_ne_nil _ _)
    (nodup_startItems test testId ts) (toList_startMsg test testId ts), ?_⟩
  have hstr (s : String) : (Item.plain s).val F = .str s := by
    rw [Item.plain, Item.val, String.ofList_toList]
  simp only [startItems, List.map_cons, List.map_nil, hstr]
  exact ⟨get?_setdefault_of_get? rfl, get?_setdefault_of_get? rfl, get?_setdefault_of_get? rfl,
    get?_setdefault_of_get? rfl, get?_setdefault_of_get? rfl, get?_setdefault_of_get? rfl,
    get?_setdefault_of_get? rfl, get?_setdefault_of_get? rfl,
    .int ts, get?_setdefault_of_get? rfl, hsec ▸ rfl⟩

omit [Calendar] [DecidableEq F] in
/-- **A report** is received. -/
theorem exists_parse_assertMsg (hid : Clean testId.toList) {assertNo : ℕ}
    (hno : assertNo < 10 ^ 20) {description cond status : String} (hdescription : Clean description.toList)
    (hcond : ∀ c ∈ cond.toList, c ≠ '\\' ∧ 0x20 ≤ c.toNat) (hstatus : Clean status.toList) :
    ∃ r : Val.Fields F, Tada.Tadad.parse (Codec.encode
        (assertMsg testId assertNo description (escapeQuotes cond) status)) = some r ∧
      IsReport testId r ∧ reportOf r = (toString assertNo, status) := by
  refine ⟨_, parse_encode (soundMembers_assertItems hid hno hdescription hcond hstatus)
    (List.cons_ne_nil _ _) (nodup_assertItems testId assertNo description cond status)
    (toList_assertMsg testId assertNo description cond status), ?_⟩
  have hstr (s : String) : (Item.plain s).val F = .str s := by
    rw [Item.plain, Item.val, String.ofList_toList]
  simp only [assertItems, List.map_cons, List.map_nil, hstr]
  refine ⟨⟨get?_setdefault_of_get? rfl, get?_setdefault_of_get? rfl,
    ⟨.int assertNo, get?_setdefault_of_get? rfl, rfl⟩, ⟨status, get?_setdefault_of_get? rfl⟩,
    Dict.mem_keys_of_get? (get?_setdefault_of_get? rfl),
    Dict.mem_keys_of_get? (get?_setdefault_of_get? rfl)⟩, ?_⟩
  rw [reportOf, Tada.Tadad.field_eq (get?_setdefault_of_get? rfl),
    Tada.Tadad.field_eq (get?_setdefault_of_get? rfl)]
  rfl

omit [Calendar] in
/-- **The end of a test** is received. -/
theorem exists_parse_finishMsg [Calendar] (hid : Clean testId.toList) {ts : ℕ} {sec : Second}
    (hsec : sec.second = ts) :
    ∃ r : Val.Fields F, Tada.Tadad.parse (Codec.encode (finishMsg testId ts)) = some r ∧
      IsFinish testId sec r := by
  have hts : ts < 10 ^ 20 := by
    have hmax := sec.max
    omega
  refine ⟨_, parse_encode (soundMembers_finishItems hid hts) (List.cons_ne_nil _ _)
    (nodup_finishItems testId ts) (toList_finishMsg testId ts), ?_⟩
  have hstr (s : String) : (Item.plain s).val F = .str s := by
    rw [Item.plain, Item.val, String.ofList_toList]
  simp only [finishItems, List.map_cons, List.map_nil, hstr]
  exact ⟨get?_setdefault_of_get? rfl, get?_setdefault_of_get? rfl,
    .int ts, get?_setdefault_of_get? rfl, hsec ▸ rfl⟩

end Read

end CTada
end LdmsTest
