import LdmsTest.C.AssertCond
import LdmsTest.Python.JsonAppend
import LdmsTest.Python.Utf8

/-!
# The message of an assertion

The copy of the condition stands between two double quotes of the message, and `tadad` reads the
message with `json.loads`.  Only the double quotes of the condition are escaped.

* `assertData`: the message of `tada_assert`, as it is sent.
* `scanString_escapeChars`: what the reader of a JSON string finds in an escaped condition.
* `delivers_iff`: when the message is read as an object with the condition that was passed.
-/

namespace LdmsTest
namespace CTada

open Json

/-! ## The message -/

/-- The message in front of the condition. -/
def assertHead (testId : String) (assertNo : ℕ) (description : String) : String :=
  "\x7b \"msg-type\" : \"assert-status\"," ++
  "\"test-id\" : \"" ++ testId ++ "\"," ++
  "\"assert-no\" : " ++ toString assertNo ++ "," ++
  "\"assert-desc\" : \"" ++ description ++ "\"," ++
  "\"assert-cond\" : \""

/-- The message behind the condition. -/
def assertTail (status : String) : String :=
  "\"," ++ "\"test-status\" : \"" ++ status ++ "\"" ++ "\x7d"

theorem assertMsg_eq (testId : String) (assertNo : ℕ) (description cond status : String) :
    assertMsg testId assertNo description cond status =
      assertHead testId assertNo description ++ cond ++ assertTail status := by
  unfold assertMsg assertHead assertTail
  rw [← String.toList_inj]
  simp only [String.toList_append, List.append_assoc]

/-- What stands in `esc_str` up to the NUL. -/
def CString.escStr (cond : CString) : List UInt8 :=
  (cond.escStores.stores.map Prod.snd).takeWhile (· ≠ 0)

/-- The message of `tada_assert`, if it fits into the buffers. -/
def assertData (testId : String) (assertNo : ℕ) (description : String) (cond : CString)
    (result : TestResult) : Option (List UInt8) := do
  guard (cond.escStores.Inside 512)
  let msg := Codec.encode (assertHead testId assertNo description) ++ cond.escStr ++
    Codec.encode (assertTail (if result = .passed then "passed" else "failed"))
  guard (msg.length < 1024)
  some msg

theorem escStr_eq (cond : CString) : cond.escStr = escapeBytes cond.bytes := by
  have hne : ∀ b ∈ escapeBytes cond.bytes, b ≠ 0 := by
    intro b hb
    obtain ⟨b', hb', hb⟩ := List.mem_flatMap.mp hb
    split at hb
    · rcases List.mem_cons.mp hb with rfl | hb
      · decide
      · rw [List.mem_singleton.mp hb]
        decide
    · rw [List.mem_singleton.mp hb]
      rintro rfl
      exact cond.noNul hb'
  rw [CString.escStr, cond.wrote_escStores.elements,
    List.takeWhile_append_of_pos (by simpa using hne)]
  exact List.append_nil _

/-! ## The characters of a condition -/

/-- The characters of a condition, its quotes escaped. -/
def escapeChars (cs : List Char) : List Char :=
  cs.flatMap fun c => if c = '"' then ['\\', '"'] else [c]

@[simp] theorem escapeChars_nil : escapeChars [] = [] := rfl

@[simp] theorem escapeChars_quote (cs : List Char) :
    escapeChars ('"' :: cs) = '\\' :: '"' :: escapeChars cs := rfl

theorem escapeChars_cons {c : Char} (hc : c ≠ '"') (cs : List Char) :
    escapeChars (c :: cs) = c :: escapeChars cs := by
  rw [escapeChars, List.flatMap_cons, if_neg hc]
  rfl

theorem mem_encodeChar_iff {c : Char} {a : UInt8} (ha : a < 0x80) :
    a ∈ String.utf8EncodeChar c ↔ c = Char.ofNat a.toNat := by
  have halt := UInt8.lt_iff_toNat_lt.mp ha
  simp only [UInt8.reduceToNat] at halt
  have hchar : (Char.ofNat a.toNat).toNat = a.toNat := by
    rw [Char.ofNat, dif_pos (.inl (by omega))]
    rfl
  rcases Codec.encodeChar_cases c with ⟨hc, hbytes⟩ | ⟨hc, hbytes⟩
  · rw [hbytes, List.mem_singleton]
    constructor
    · rintro rfl
      rw [Codec.toNat_ofNat_of_lt (by omega), Char.ofNat_toNat]
    · rintro rfl
      rw [hchar, UInt8.ofNat_toNat]
  · constructor
    · exact fun h => absurd ha (UInt8.not_lt.mpr (hbytes a h))
    · rintro rfl
      omega

/-- Whether a text has a backslash or a control character can be seen from its bytes. -/
theorem forall_mem_encode_iff {s : String} :
    (∀ c ∈ s.toList, c ≠ '\\' ∧ 0x20 ≤ c.toNat) ↔
      ∀ b ∈ Codec.encode s, b ≠ backslash ∧ 0x20 ≤ b := by
  have hchar (c : Char) : (c ≠ '\\' ∧ 0x20 ≤ c.toNat) ↔
      ∀ b ∈ String.utf8EncodeChar c, b ≠ backslash ∧ 0x20 ≤ b := by
    rw [← not_iff_not, not_and_or, not_not, Nat.not_le]
    constructor
    · rintro (rfl | hc)
      · exact fun h => (h backslash ((mem_encodeChar_iff (by decide)).mpr rfl)).1 rfl
      · intro h
        rcases Codec.encodeChar_cases c with ⟨-, hbytes⟩ | ⟨hge, -⟩
        · have hle := (h (UInt8.ofNat c.toNat) (by rw [hbytes]; simp)).2
          rw [UInt8.le_iff_toNat_le, Codec.toNat_ofNat_of_lt (by omega)] at hle
          simp only [UInt8.reduceToNat] at hle
          omega
        · omega
    · intro h
      by_contra hc
      push Not at hc
      refine h fun b hb => ?_
      rcases Codec.encodeChar_cases c with ⟨hlt, hbytes⟩ | ⟨-, hge⟩
      · constructor
        · rintro rfl
          exact hc.1 ((mem_encodeChar_iff (by decide)).mp hb)
        · rw [hbytes, List.mem_singleton] at hb
          rw [hb, UInt8.le_iff_toNat_le, Codec.toNat_ofNat_of_lt (by omega)]
          exact hc.2
      · refine ⟨?_, UInt8.le_trans (by decide) (hge b hb)⟩
        rintro rfl
        exact absurd (hge _ hb) (by decide)
  simp only [Codec.encode, hchar, List.mem_flatMap]
  constructor
  · rintro h b ⟨c, hc, hb⟩
    exact h c hc b hb
  · exact fun h c hc b hb => h b ⟨c, hc, hb⟩

theorem escapeBytes_of_notMem {bs : List UInt8} (h : quote ∉ bs) : escapeBytes bs = bs := by
  calc
    escapeBytes bs = bs.flatMap fun b => [b] :=
      List.flatMap_congr fun b hb => if_neg (by rintro rfl; exact h hb)
    _ = bs := by simp

/-- The bytes of a condition, escaped, are those of its escaped characters. -/
theorem escapeBytes_encode (cs : List Char) :
    escapeBytes (cs.flatMap String.utf8EncodeChar) =
      (escapeChars cs).flatMap String.utf8EncodeChar := by
  induction cs with
  | nil => rfl
  | cons c cs ih =>
    rw [List.flatMap_cons, escapeBytes, List.flatMap_append, ← escapeBytes, ← escapeBytes, ih]
    by_cases hc : c = '"'
    · rw [hc]
      rfl
    · rw [escapeChars_cons hc, List.flatMap_cons]
      congr 1
      exact escapeBytes_of_notMem fun hb => hc ((mem_encodeChar_iff (by decide)).mp hb)

/-! ## The reader of a string -/

theorem consChar_ok (c : Char) (cs rest : List Char) :
    consChar c (.ok (cs, rest)) = .ok (c :: cs, rest) := rfl

/-- The next character of an escaped condition. -/
theorem escapeChars_append_eq_cons {s tail cs : List Char} {c : Char}
    (h : escapeChars s ++ '"' :: tail = c :: cs) (hquote : c ≠ '"') (hslash : c ≠ '\\') :
    ∃ s', s = c :: s' ∧ cs = escapeChars s' ++ '"' :: tail := by
  cases s with
  | nil => exact absurd (List.cons.inj h).1.symm hquote
  | cons d s' =>
    by_cases hd : d = '"'
    · rw [hd, escapeChars_quote] at h
      exact absurd (List.cons.inj h).1.symm hslash
    · rw [escapeChars_cons hd, List.cons_append] at h
      obtain ⟨rfl, hcs⟩ := List.cons.inj h
      exact ⟨s', rfl, hcs.symm⟩

/-- What the reader may find in the escaped text of `s`, behind which a quote and `tail` stand. -/
inductive Reading (s tail : List Char) : List Char → List Char → Prop where
  /-- all of it, and the text itself only if it has no backslash -/
  | whole {d : List Char} : d.length ≤ s.length →
      (d.length = s.length → d = s ∧ ∀ c ∈ s, c ≠ '\\' ∧ 0x20 ≤ c.toNat) → Reading s tail d tail
  /-- a part of it: a backslash in front of a quote has been escaped by the one of the quote -/
  | part {d : List Char} (s' : List Char) : Reading s tail d (escapeChars s' ++ '"' :: tail)
  /-- more: the text ends with a backslash, which escapes the closing quote -/
  | beyond {d d' rest : List Char} : scanString tail = .ok (d', rest) → Reading s tail d rest

/-- An escape sequence of the condition is read as one character, which is not as long. -/
theorem Reading.skip {s s' tail d rest : List Char} (h : Reading s' tail d rest)
    (hlen : s'.length + 1 < s.length) (c : Char) : Reading s tail (c :: d) rest := by
  cases h with
  | whole hle _ =>
    refine .whole ?_ fun heq => ?_
    · rw [List.length_cons]
      omega
    · rw [List.length_cons] at heq
      omega
  | part s'' => exact .part s''
  | beyond hscan => exact .beyond hscan

/-- A character of the condition is read as itself. -/
theorem Reading.cons {s tail d rest : List Char} (h : Reading s tail d rest) {c : Char}
    (hslash : c ≠ '\\') (hc : 0x20 ≤ c.toNat) : Reading (c :: s) tail (c :: d) rest := by
  cases h with
  | whole hle hall =>
    refine .whole (Nat.succ_le_succ hle) fun heq => ?_
    obtain ⟨rfl, hclean⟩ := hall (Nat.succ.inj heq)
    exact ⟨rfl, List.forall_mem_cons.mpr ⟨⟨hslash, hc⟩, hclean⟩⟩
  | part s'' => exact .part s''
  | beyond hscan => exact .beyond hscan

/-- Four hexadecimal digits stand in the condition itself. -/
theorem exists_of_hex4 {s tail cs : List Char} {a b c d : Char} {n : ℕ}
    (hn : ofHex4 [a, b, c, d] = some n)
    (h : escapeChars s ++ '"' :: tail = a :: b :: c :: d :: cs) :
    ∃ s', s = a :: b :: c :: d :: s' ∧ escapeChars s' ++ '"' :: tail = cs := by
  have hall : ∀ x ∈ [a, b, c, d], x ≠ '"' ∧ x ≠ '\\' := by
    intro x hx
    unfold ofHex4 at hn
    split at hn
    · next hhex =>
      have hdigit := List.all_eq_true.mp hhex x hx
      constructor
      · rintro rfl
        exact absurd hdigit (by decide)
      · rintro rfl
        exact absurd hdigit (by decide)
    · cases hn
  obtain ⟨s₁, rfl, h₁⟩ := escapeChars_append_eq_cons h (hall a (by simp)).1 (hall a (by simp)).2
  obtain ⟨s₂, rfl, h₂⟩ := escapeChars_append_eq_cons h₁.symm (hall b (by simp)).1
    (hall b (by simp)).2
  obtain ⟨s₃, rfl, h₃⟩ := escapeChars_append_eq_cons h₂.symm (hall c (by simp)).1
    (hall c (by simp)).2
  obtain ⟨s₄, rfl, h₄⟩ := escapeChars_append_eq_cons h₃.symm (hall d (by simp)).1
    (hall d (by simp)).2
  exact ⟨s₄, rfl, h₄.symm⟩

/-- A backslash and a `u`, which are those of the condition. -/
theorem exists_of_slash_u {s tail cs : List Char}
    (h : escapeChars s ++ '"' :: tail = '\\' :: 'u' :: cs) :
    ∃ s', s = '\\' :: 'u' :: s' ∧ escapeChars s' ++ '"' :: tail = cs := by
  cases s with
  | nil => exact absurd (List.cons.inj h).1 (by decide)
  | cons c s =>
    by_cases hc : c = '"'
    · rw [hc, escapeChars_quote] at h
      exact absurd (List.cons.inj (List.cons.inj h).2).1 (by decide)
    · rw [escapeChars_cons hc, List.cons_append] at h
      obtain ⟨rfl, h'⟩ := List.cons.inj h
      obtain ⟨s', rfl, hs'⟩ := escapeChars_append_eq_cons h' (by decide) (by decide)
      exact ⟨s', rfl, hs'.symm⟩

/-- **What the reader of a JSON string finds** in an escaped condition. -/
theorem scanString_escapeChars {s tail d rest : List Char}
    (h : scanString (escapeChars s ++ '"' :: tail) = .ok (d, rest)) : Reading s tail d rest := by
  generalize hcs : escapeChars s ++ '"' :: tail = cs at h
  fun_induction scanString cs generalizing s d
  case case2 cs =>
    -- the closing quote
    cases h
    cases s with
    | nil =>
      obtain ⟨-, rfl⟩ := List.cons.inj hcs
      refine .whole le_rfl fun _ => ⟨rfl, ?_⟩
      exact fun c hmem => absurd hmem List.not_mem_nil
    | cons c s =>
      by_cases hc : c = '"'
      · rw [hc, escapeChars_quote] at hcs
        exact absurd (List.cons.inj hcs).1 (by decide)
      · rw [escapeChars_cons hc] at hcs
        exact absurd (List.cons.inj hcs).1 hc
  case case5 hn hhigh m hm hlow ih =>
    obtain ⟨d', left, hs, hp⟩ := consChar_eq_ok h
    obtain ⟨rfl, rfl⟩ := Prod.mk.inj hp
    obtain ⟨s₁, rfl, h₁⟩ := exists_of_slash_u hcs
    obtain ⟨s₂, rfl, h₂⟩ := exists_of_hex4 hn h₁
    obtain ⟨s₃, rfl, h₃⟩ := exists_of_slash_u h₂
    obtain ⟨s₄, rfl, h₄⟩ := exists_of_hex4 hm h₃
    exact (ih h₄ hs).skip (by simp only [List.length_cons]; omega) _
  case case8 hn hhigh hlow ih =>
    obtain ⟨d', left, hs, hp⟩ := consChar_eq_ok h
    obtain ⟨rfl, rfl⟩ := Prod.mk.inj hp
    obtain ⟨s₁, rfl, h₁⟩ := exists_of_slash_u hcs
    obtain ⟨s₂, rfl, h₂⟩ := exists_of_hex4 hn h₁
    exact (ih h₂ hs).skip (by simp only [List.length_cons]; omega) _
  case case12 hn _ hs ih =>
    obtain ⟨d', left, hs, hp⟩ := consChar_eq_ok h
    obtain ⟨rfl, rfl⟩ := Prod.mk.inj hp
    obtain ⟨s₁, rfl, h₁⟩ := exists_of_slash_u hcs
    obtain ⟨s₂, rfl, h₂⟩ := exists_of_hex4 hn h₁
    exact (ih h₂ hs).skip (by simp only [List.length_cons]; omega) _
  case case14 c cs _ _ c' hc ih =>
    obtain ⟨d', left, hs, hp⟩ := consChar_eq_ok h
    obtain ⟨rfl, rfl⟩ := Prod.mk.inj hp
    cases s with
    | nil => exact absurd (List.cons.inj hcs).1 (by decide)
    | cons c₁ s =>
      by_cases hc₁ : c₁ = '"'
      · -- an escaped quote of the condition
        rw [hc₁, escapeChars_quote] at hcs
        obtain ⟨rfl, hcs'⟩ := List.cons.inj (List.cons.inj hcs).2
        cases hc
        rw [hc₁]
        exact (ih hcs' hs).cons (by decide) (by decide)
      rw [escapeChars_cons hc₁] at hcs
      obtain ⟨rfl, hcs₁⟩ := List.cons.inj hcs
      cases s with
      | nil =>
        -- the backslash is the last character, and escapes the closing quote
        obtain ⟨rfl, rfl⟩ := List.cons.inj hcs₁
        exact .beyond hs
      | cons c₂ s =>
        by_cases hc₂ : c₂ = '"'
        · -- the backslash is escaped, and the quote behind it closes the string
          rw [hc₂, escapeChars_quote] at hcs₁
          obtain ⟨rfl, rfl⟩ := List.cons.inj hcs₁
          cases hs
          exact .part s
        · rw [escapeChars_cons hc₂] at hcs₁
          obtain ⟨rfl, hcs₂⟩ := List.cons.inj hcs₁
          exact (ih hcs₂ hs).skip (by simp only [List.length_cons]; omega) _
  case case16 c cs hquote _ _ hslash hge ih =>
    obtain ⟨d', left, hs, hp⟩ := consChar_eq_ok h
    obtain ⟨rfl, rfl⟩ := Prod.mk.inj hp
    have hne : c ≠ '\\' := by
      intro heq
      cases cs with
      | nil => cases hs
      | cons c' cs' => exact hslash c' cs' heq rfl
    obtain ⟨s', rfl, hcs'⟩ := escapeChars_append_eq_cons hcs hquote hne
    exact (ih hcs'.symm hs).cons hne (Nat.le_of_not_lt hge)
  all_goals cases h

/-- A condition without backslashes and control characters is read as it is. -/
theorem scanString_escapeChars_clean {s : List Char} (h : ∀ c ∈ s, c ≠ '\\' ∧ 0x20 ≤ c.toNat)
    (tail : List Char) : scanString (escapeChars s ++ '"' :: tail) = .ok (s, tail) := by
  induction s with
  | nil => rfl
  | cons c s ih =>
    obtain ⟨hc, hs⟩ := List.forall_mem_cons.mp h
    by_cases hquote : c = '"'
    · rw [hquote, escapeChars_quote]
      show consChar '"' (scanString (escapeChars s ++ '"' :: tail)) = _
      rw [ih hs, consChar_ok]
    · rw [escapeChars_cons hquote, List.cons_append, scanString_plain hquote hc.1 hc.2, ih hs,
        consChar_ok]

/-! ## The reader of the message -/

/-- Text that can stand between the quotes of a JSON string. -/
def IsBody (s : String) : Prop :=
  ∃ d, scanString (s.toList ++ ['"']) = .ok (d, [])

/-- A member of an object. -/
def member (k v : List Char) : List Char :=
  '"' :: (k ++ '"' :: ' ' :: ':' :: ' ' :: v)

/-- A string. -/
def quoted (v rest : List Char) : List Char :=
  '"' :: (v ++ '"' :: rest)

theorem scanString_clean {cs : List Char} (h : ∀ c ∈ cs, c ≠ '"' ∧ c ≠ '\\' ∧ 0x20 ≤ c.toNat)
    (rest : List Char) : scanString (cs ++ '"' :: rest) = .ok (cs, rest) := by
  induction cs with
  | nil => rfl
  | cons c cs ih =>
    obtain ⟨hc, hcs⟩ := List.forall_mem_cons.mp h
    rw [List.cons_append, scanString_plain hc.1 hc.2.1 hc.2.2, ih hcs, consChar_ok]

/-- What is left after the condition and its quote. -/
def tailChars (status : List Char) : List Char :=
  ',' :: member "test-status".toList (quoted status ['\x7d'])

theorem toList_assertTail (status : String) :
    (assertTail status).toList = '"' :: tailChars status.toList := by
  unfold assertTail tailChars member quoted
  simp

theorem toList_assertHead (testId : String) (assertNo : ℕ) (description : String)
    (rest : List Char) : (assertHead testId assertNo description).toList ++ rest =
      '\x7b' :: ' ' :: member "msg-type".toList (quoted "assert-status".toList
        (',' :: member "test-id".toList (quoted testId.toList
          (',' :: member "assert-no".toList (intText assertNo ++
            (',' :: member "assert-desc".toList (quoted description.toList
              (',' :: member "assert-cond".toList ('"' :: rest))))))))) := by
  have hno : Nat.toDigits 10 assertNo = intText assertNo := by
    rw [intText, if_neg (by omega), Int.natAbs_natCast]
  unfold assertHead member quoted
  simp [hno]

section Reader

variable {F : Type} [JsonFloat F]

/-- The reader of an object behind a value of it. -/
def afterValue (n : ℕ) (k : List Char) (x : Val F) (cs : List Char) :
    Except LoadError (List (String × Val F) × List Char) :=
  match skipSpace cs with
  | '\x7d' :: rest => pure ([(String.ofList k, x)], rest)
  | ',' :: cs => do
    let (d, rest) ← scanFields n (skipSpace cs)
    pure ((String.ofList k, x) :: d, rest)
  | _ => throw .decode

/-- The reader at a member of an object. -/
theorem scanFields_member {k : List Char} (hk : ∀ c ∈ k, c ≠ '"' ∧ c ≠ '\\' ∧ 0x20 ≤ c.toNat)
    (n : ℕ) (v : List Char) : (scanFields (n + 1) (member k v) : Except LoadError _) =
      scanValue n (skipSpace v) >>= fun p => afterValue n k (p.1 : Val F) p.2 := by
  rw [member, scanFields, scanString_clean hk]
  rfl

/-- A string and a comma in front of the next member. -/
theorem scanFields_quoted {k v d : List Char}
    (hk : ∀ c ∈ k, c ≠ '"' ∧ c ≠ '\\' ∧ 0x20 ≤ c.toNat)
    (hv : scanString (v ++ ['"']) = .ok (d, [])) (n : ℕ) (k' v' : List Char) :
    scanFields (n + 2) (member k (quoted v (',' :: member k' v'))) =
      (scanFields (n + 1) (member k' v')).map fun p =>
        ((String.ofList k, (.str (String.ofList d) : Val F)) :: p.1, p.2) := by
  have hscan : scanString (v ++ '"' :: ',' :: member k' v') = .ok (d, ',' :: member k' v') := by
    have hextends := extends_scanString (',' :: member k' v') _ _ hv
    rwa [List.append_assoc] at hextends
  rw [scanFields_member hk]
  show scanValue (F := F) (n + 1) ('"' :: (v ++ '"' :: ',' :: member k' v')) >>= _ = _
  rw [scanValue, if_pos rfl, hscan]
  show (scanFields (F := F) (n + 1) (skipSpace (member k' v')) >>= fun p => _) = _
  rw [member, skipSpace_cons rfl]
  cases scanFields (F := F) (n + 1) ('"' :: (k' ++ '"' :: ' ' :: ':' :: ' ' :: v')) <;> rfl

/-- A number and a comma in front of the next member. -/
theorem scanFields_int {k : List Char} (hk : ∀ c ∈ k, c ≠ '"' ∧ c ≠ '\\' ∧ 0x20 ≤ c.toNat)
    (i : ℤ) (n : ℕ) (k' v' : List Char) :
    scanFields (n + 2) (member k (intText i ++ ',' :: member k' v')) =
      (scanFields (n + 1) (member k' v')).map fun p =>
        ((String.ofList k, (.int i : Val F)) :: p.1, p.2) := by
  have hopens : skipSpace (intText i ++ ',' :: member k' v') = intText i ++ ',' :: member k' v' :=
    ((opens_of_scanNumber (scanNumber_intText i)).append _).skipSpace_eq
  rw [scanFields_member hk, hopens, scanValue_int (delimited_cons (by simp) _)]
  show (scanFields (F := F) (n + 1) (skipSpace (member k' v')) >>= fun p => _) = _
  rw [member, skipSpace_cons rfl]
  cases scanFields (F := F) (n + 1) ('"' :: (k' ++ '"' :: ' ' :: ':' :: ' ' :: v')) <;> rfl

omit [JsonFloat F] in
theorem clean_of_all {cs : List Char} (h : cs.all fun c => c ≠ '"' ∧ c ≠ '\\' ∧ 0x20 ≤ c.toNat) :
    ∀ c ∈ cs, c ≠ '"' ∧ c ≠ '\\' ∧ 0x20 ≤ c.toNat :=
  fun c hc => of_decide_eq_true (List.all_eq_true.mp h c hc)

/-- The end of the message, if the string of the condition ends where it should. -/
theorem afterValue_whole {status : List Char}
    (hstatus : ∀ c ∈ status, c ≠ '"' ∧ c ≠ '\\' ∧ 0x20 ≤ c.toNat) (n : ℕ) (k : List Char)
    (x : Val F) : afterValue (n + 2) k x (tailChars status) =
      .ok ([(String.ofList k, x), ("test-status", .str (String.ofList status))], []) := by
  have hkey : ∀ c ∈ "test-status".toList, c ≠ '"' ∧ c ≠ '\\' ∧ 0x20 ≤ c.toNat :=
    clean_of_all rfl
  have hlast : (scanFields (n + 2) (member "test-status".toList (quoted status ['\x7d'])) :
      Except LoadError (List (String × Val F) × List Char)) =
        .ok ([("test-status", .str (String.ofList status))], []) := by
    rw [scanFields_member hkey]
    show scanValue (F := F) (n + 1) ('"' :: (status ++ '"' :: ['\x7d'])) >>= _ = _
    rw [scanValue, if_pos rfl, scanString_clean hstatus]
    rfl
  rw [tailChars]
  show (scanFields (F := F) (n + 2) (skipSpace (member _ _)) >>= fun p => _) = _
  rw [show skipSpace (member "test-status".toList (quoted status ['\x7d'])) =
    member "test-status".toList (quoted status ['\x7d']) from skipSpace_cons rfl _, hlast]
  rfl

theorem skipSpace_escapeChars (s tail : List Char) :
    ∃ s', skipSpace (escapeChars s ++ '"' :: tail) = escapeChars s' ++ '"' :: tail := by
  induction s with
  | nil => exact ⟨[], skipSpace_cons rfl tail⟩
  | cons c s ih =>
    by_cases hquote : c = '"'
    · refine ⟨c :: s, ?_⟩
      rw [hquote]
      exact skipSpace_cons rfl _
    · rw [escapeChars_cons hquote, List.cons_append]
      cases hc : isSpace c with
      | false =>
        refine ⟨c :: s, ?_⟩
        rw [skipSpace_cons hc, escapeChars_cons hquote, List.cons_append]
      | true =>
        obtain ⟨s', hs'⟩ := ih
        refine ⟨s', ?_⟩
        rw [← hs']
        exact List.dropWhile_cons_of_pos hc

theorem scanFields_part (n : ℕ) (s status : List Char)
    (p : List (String × Val F) × List Char) :
    scanFields n (escapeChars s ++ '"' :: tailChars status) ≠ .ok p := by
  intro h
  cases n with
  | zero => cases h
  | succ n =>
    cases s with
    | nil =>
      -- the closing quote of the condition opens a key, and no colon follows it
      cases h
    | cons c s =>
      by_cases hquote : c = '"'
      · rw [hquote, escapeChars_quote] at h
        cases h
      · rw [escapeChars_cons hquote, List.cons_append, scanFields] at h
        · cases h
        · intro _ _ _ heq
          exact hquote (List.cons.inj heq).1

/-- If the string of the condition ends inside the condition, something is left of the message. -/
theorem afterValue_part {n : ℕ} {k : List Char} {x : Val F} {s status : List Char}
    {p : List (String × Val F) × List Char}
    (h : afterValue n k x (escapeChars s ++ '"' :: tailChars status) = .ok p) :
    skipSpace p.2 ≠ [] := by
  obtain ⟨s', hs'⟩ := skipSpace_escapeChars s (tailChars status)
  rw [afterValue, hs'] at h
  cases s' with
  | nil => cases h
  | cons c s' =>
    by_cases hquote : c = '"'
    · rw [hquote, escapeChars_quote] at h
      cases h
    rw [escapeChars_cons hquote, List.cons_append] at h
    split at h
    · next heq =>
      obtain ⟨-, rfl⟩ := List.cons.inj heq
      cases h
      obtain ⟨s'', hs''⟩ := skipSpace_escapeChars s' (tailChars status)
      rw [hs'']
      exact List.append_ne_nil_of_right_ne_nil _ (List.cons_ne_nil _ _)
    · next heq =>
      obtain ⟨-, rfl⟩ := List.cons.inj heq
      obtain ⟨s'', hs''⟩ := skipSpace_escapeChars s' (tailChars status)
      obtain ⟨q, hq, -⟩ := exists_of_bind_ok h
      rw [hs''] at hq
      exact absurd hq (scanFields_part n s'' status q)
    · cases h

/-- If the string of the condition does not end with it, no comma follows. -/
theorem afterValue_beyond {n : ℕ} {k : List Char} {x : Val F} {status d rest : List Char}
    (hscan : scanString (tailChars status) = .ok (d, rest))
    (p : List (String × Val F) × List Char) : afterValue n k x rest ≠ .ok p := by
  have hrest : scanString (tailChars status) =
      .ok ([','], "test-status".toList ++ '"' :: ' ' :: ':' :: ' ' :: quoted status ['\x7d']) := rfl
  rw [hrest] at hscan
  cases hscan
  exact nofun

/-- The members in front of the condition. -/
def headMembers (testId : List Char) (assertNo : ℕ) (description : List Char) :
    List (String × Val F) :=
  [("msg-type", .str "assert-status"), ("test-id", .str (String.ofList testId)),
    ("assert-no", .int assertNo), ("assert-desc", .str (String.ofList description))]

/-- The reader of an object. -/
theorem loadsChars_object (k v : List Char) :
    (loadsChars ('\x7b' :: ' ' :: member k v) : Except LoadError (Val F)) =
      scanFields (2 * ('\x7b' :: ' ' :: member k v).length) (member k v) >>= fun p =>
        if (skipSpace p.2).isEmpty then pure (.dict (Dict.update [] p.1)) else throw .decode := by
  have hskip : skipSpace (' ' :: member k v) = member k v := rfl
  rw [loadsChars, if_neg (by simp), skipSpace_cons rfl, scanValue, if_neg (by decide), if_pos rfl,
    hskip]
  show (scanFields (F := F) _ (member k v) >>= fun p => pure (Val.dict (Dict.update [] p.1), p.2))
    >>= _ = _
  cases scanFields (F := F) (2 * ('\x7b' :: ' ' :: member k v).length) (member k v) <;> rfl

/-- The reader of the message from the condition on, when it has found `ms` in front of it. -/
def readCond (n : ℕ) (ms : List (String × Val F)) (cs : List Char) : Except LoadError (Val F) := do
  let (c, cs) ← scanString cs
  let (ms', cs) ← afterValue (n + 2) "assert-cond".toList (.str (String.ofList c)) cs
  if (skipSpace cs).isEmpty then pure (.dict (Dict.update [] (ms ++ ms'))) else throw .decode

/-- **The reader of the message** up to the condition. -/
theorem loadsChars_message {testId description : String} {t d : List Char}
    (hid : scanString (testId.toList ++ ['"']) = .ok (t, []))
    (hdesc : scanString (description.toList ++ ['"']) = .ok (d, [])) (assertNo : ℕ)
    (rest : List Char) : ∃ n,
      (loadsChars ((assertHead testId assertNo description).toList ++ rest) :
        Except LoadError (Val F)) = readCond n (headMembers t assertNo d) rest := by
  have hkey₁ : ∀ c ∈ "msg-type".toList, c ≠ '"' ∧ c ≠ '\\' ∧ 0x20 ≤ c.toNat :=
    clean_of_all rfl
  have hkey₂ : ∀ c ∈ "test-id".toList, c ≠ '"' ∧ c ≠ '\\' ∧ 0x20 ≤ c.toNat :=
    clean_of_all rfl
  have hkey₃ : ∀ c ∈ "assert-no".toList, c ≠ '"' ∧ c ≠ '\\' ∧ 0x20 ≤ c.toNat :=
    clean_of_all rfl
  have hkey₄ : ∀ c ∈ "assert-desc".toList, c ≠ '"' ∧ c ≠ '\\' ∧ 0x20 ≤ c.toNat :=
    clean_of_all rfl
  have hkey₅ : ∀ c ∈ "assert-cond".toList, c ≠ '"' ∧ c ≠ '\\' ∧ 0x20 ≤ c.toNat :=
    clean_of_all rfl
  have htype : scanString ("assert-status".toList ++ ['"']) = .ok ("assert-status".toList, []) := rfl
  rw [toList_assertHead, loadsChars_object]
  generalize hlen : 2 * List.length ('\x7b' :: _) = len
  have hle : 7 ≤ len := by
    rw [← hlen, member]
    simp only [List.length_cons, List.length_append]
    omega
  obtain ⟨m, rfl⟩ := Nat.exists_eq_add_of_le' hle
  refine ⟨m, ?_⟩
  rw [scanFields_quoted hkey₁ htype, scanFields_quoted hkey₂ hid, scanFields_int hkey₃,
    scanFields_quoted hkey₄ hdesc, scanFields_member hkey₅, skipSpace_cons rfl, scanValue,
    if_pos rfl, readCond]
  cases scanString rest with
  | error e => rfl
  | ok p =>
    show (Except.map _ (Except.map _ (Except.map _ (Except.map _
      (afterValue (F := F) (m + 2) "assert-cond".toList (.str (String.ofList p.1)) p.2))))) >>= _ =
        afterValue (F := F) (m + 2) "assert-cond".toList (.str (String.ofList p.1)) p.2 >>= _
    cases afterValue (F := F) (m + 2) "assert-cond".toList (.str (String.ofList p.1)) p.2 <;> rfl

/-- What `tadad` is to find: an object with the condition `cond`. -/
def Holds (cond : String) (r : Except LoadError (Val F)) : Prop :=
  ∃ d : Val.Fields F, r = .ok (.dict d) ∧ Dict.get? d "assert-cond" = some (.str cond)

omit [JsonFloat F] in
theorem get?_assertCond (t d : List Char) (assertNo : ℕ) (c status : String) :
    Dict.get? (Dict.update [] (headMembers t assertNo d ++
      [("assert-cond", .str c), ("test-status", .str status)] : List (String × Val F)))
        "assert-cond" = some (.str c) := by
  rw [Dict.get?_update (by simp [headMembers, Dict.keys])]
  simp [headMembers, Dict.get?]

/-- **The condition is read** exactly if it has no backslash and no control character. -/
theorem holds_readCond_iff {status : List Char}
    (hstatus : ∀ c ∈ status, c ≠ '"' ∧ c ≠ '\\' ∧ 0x20 ≤ c.toNat) (n : ℕ) (t d : List Char)
    (assertNo : ℕ) (s : List Char) :
    Holds (String.ofList s) (readCond (F := F) n (headMembers t assertNo d)
      (escapeChars s ++ '"' :: tailChars status)) ↔ ∀ c ∈ s, c ≠ '\\' ∧ 0x20 ≤ c.toNat := by
  constructor
  · rintro ⟨ms, hread, hget⟩
    obtain ⟨⟨c, rest⟩, hscan, hread⟩ := exists_of_bind_ok hread
    obtain ⟨⟨ms', left⟩, hafter, hread⟩ := exists_of_bind_ok hread
    dsimp only at hafter hread
    split at hread
    · next hblank =>
      rcases scanString_escapeChars hscan with ⟨hle, hall⟩ | s' | hbeyond
      · rw [afterValue_whole hstatus] at hafter
        cases hafter
        cases hread
        have hc : String.ofList c = String.ofList s := by
          have hfound := get?_assertCond (F := F) t d assertNo (String.ofList c)
            (String.ofList status)
          rw [String.ofList_toList] at hget
          rw [hget] at hfound
          exact (Val.str.inj (Option.some.inj hfound)).symm
        exact (hall (by rw [String.ofList_injective hc])).2
      · exact absurd (List.isEmpty_iff.mp hblank) (afterValue_part hafter)
      · exact absurd hafter (afterValue_beyond hbeyond _)
    · cases hread
  · intro hclean
    refine ⟨_, ?_, get?_assertCond t d assertNo (String.ofList s) (String.ofList status)⟩
    rw [readCond, scanString_escapeChars_clean hclean]
    show (afterValue (F := F) (n + 2) _ _ _ >>= _) = _
    rw [afterValue_whole hstatus]
    rfl

end Reader

/-! ## What arrives -/

section Delivery

variable {F : Type} [JsonFloat F]

/-- `tadad` reads the message, and finds the condition that was passed. -/
def Delivers (F : Type) [JsonFloat F] (cond : CString) (data : List UInt8) : Prop :=
  ∃ s : String, Codec.encode s = cond.bytes ∧
    Holds s (Codec.loadsBytes data : Except LoadError (Val F))

theorem exists_assertHead_eq (testId : String) (assertNo : ℕ) (description : String) :
    ∃ cs, (assertHead testId assertNo description).toList = '\x7b' :: ' ' :: '"' :: 'm' :: cs := by
  have hhead := toList_assertHead testId assertNo description []
  rw [List.append_nil] at hhead
  have hkey : "msg-type".toList = 'm' :: "sg-type".toList := by simp
  rw [hhead, member, hkey, List.cons_append]
  exact ⟨_, rfl⟩

/-- The message is read as UTF-8. -/
theorem loadsBytes_assertHead (testId : String) (assertNo : ℕ) (description : String)
    (bs : List UInt8) : (Codec.loadsBytes (Codec.encode (assertHead testId assertNo description) ++ bs) :
      Except LoadError (Val F)) =
      Codec.utf8 bs >>= fun cs =>
        loadsChars ((assertHead testId assertNo description).toList ++ cs) := by
  have hutf8 : Codec.detectEncoding (Codec.encode (assertHead testId assertNo description) ++ bs) =
      .utf8 := by
    obtain ⟨cs, hcs⟩ := exists_assertHead_eq testId assertNo description
    rw [Codec.encode, hcs]
    rfl
  rw [Codec.loadsBytes, hutf8, Codec.decode, Codec.encode, Codec.utf8_encode_append]
  generalize (assertHead testId assertNo description).toList = head
  cases Codec.utf8 bs with
  | error e => rfl
  | ok cs =>
    show loadsChars (String.ofList (head ++ cs)).toList = loadsChars (head ++ cs)
    rw [String.toList_ofList]

theorem assertData_eq_some {testId description : String} {assertNo : ℕ} {cond : CString}
    {result : TestResult} {data : List UInt8}
    (h : assertData testId assertNo description cond result = some data) :
    data = Codec.encode (assertHead testId assertNo description) ++ (escapeBytes cond.bytes ++
      Codec.encode (assertTail (if result = .passed then "passed" else "failed"))) := by
  unfold assertData at h
  obtain ⟨-, -, h⟩ := Option.bind_eq_some_iff.mp h
  obtain ⟨-, -, h⟩ := Option.bind_eq_some_iff.mp h
  rw [escStr_eq, List.append_assoc] at h
  exact (Option.some.inj h).symm

/-- What `tadad` finds in a message, if the condition is the text `s`. -/
theorem holds_loadsBytes_iff {testId description : String} (hid : IsBody testId)
    (hdescription : IsBody description) {assertNo : ℕ} {cond : CString} {result : TestResult}
    {data : List UInt8} (h : assertData testId assertNo description cond result = some data)
    {s : String} (hs : cond.bytes = Codec.encode s) :
    Holds s (Codec.loadsBytes data : Except LoadError (Val F)) ↔
      ∀ b ∈ cond.bytes, b ≠ backslash ∧ 0x20 ≤ b := by
  obtain ⟨t, hid⟩ := hid
  obtain ⟨d, hdescription⟩ := hdescription
  rw [assertData_eq_some h]
  generalize hstatus : (if result = .passed then "passed" else "failed") = status
  have hclean : ∀ c ∈ status.toList, c ≠ '"' ∧ c ≠ '\\' ∧ 0x20 ≤ c.toNat := by
    rw [← hstatus]
    split <;> exact clean_of_all rfl
  have hdecode : Codec.utf8 (escapeBytes cond.bytes ++ Codec.encode (assertTail status)) =
      .ok (escapeChars s.toList ++ '"' :: tailChars status.toList) := by
    rw [hs, Codec.encode, escapeBytes_encode, Codec.encode, ← List.flatMap_append,
      Codec.utf8_encode, toList_assertTail]
  obtain ⟨n, hn⟩ := loadsChars_message (F := F) hid hdescription assertNo
    (escapeChars s.toList ++ '"' :: tailChars status.toList)
  have hread := holds_readCond_iff (F := F) hclean n t d assertNo s.toList
  rw [String.ofList_toList] at hread
  rw [loadsBytes_assertHead, hdecode, ok_bind, hn, hread, hs]
  exact forall_mem_encode_iff

/-- The message is the one of `tadaAssert`, if the condition is a text. -/
theorem assertData_encode (testId : String) (assertNo : ℕ) (description condStr : String)
    {cond : CString} (hcond : cond.bytes = Codec.encode condStr) (result : TestResult) :
    assertData testId assertNo description cond result = (do
      guard ((escapeQuotes condStr).utf8ByteSize < 512)
      let msg := assertMsg testId assertNo description (escapeQuotes condStr)
        (if result = .passed then "passed" else "failed")
      guard (msg.utf8ByteSize < 1024)
      some (Codec.encode msg)) := by
  have hesc : cond.escStr = Codec.encode (escapeQuotes condStr) := by
    rw [escStr_eq, hcond, Codec.encode, escapeBytes_encode, Codec.encode, escapeQuotes,
      String.toList_ofList]
    rfl
  have hinside : cond.escStores.Inside 512 ↔ (escapeQuotes condStr).utf8ByteSize < 512 := by
    rw [cond.wrote_escStores.fits_iff, ← Codec.length_encode, ← hesc, escStr_eq,
      List.length_append]
    rfl
  unfold assertData
  simp only [hinside, hesc, assertMsg_eq, Codec.encode_append, Codec.length_encode,
    List.length_append, String.utf8ByteSize_append]

/-- **The condition arrives** exactly if it is UTF-8 and has no backslash and no control character.
The identifier of the test and the description of the assertion are to be texts that can stand in a
JSON string. -/
theorem delivers_iff {testId description : String} (hid : IsBody testId)
    (hdescription : IsBody description) {assertNo : ℕ} {cond : CString} {result : TestResult}
    {data : List UInt8} (h : assertData testId assertNo description cond result = some data) :
    Delivers F cond data ↔
      (∃ s, cond.bytes = Codec.encode s) ∧ ∀ b ∈ cond.bytes, b ≠ backslash ∧ 0x20 ≤ b := by
  constructor
  · rintro ⟨s, hs, hholds⟩
    exact ⟨⟨s, hs.symm⟩, (holds_loadsBytes_iff hid hdescription h hs.symm).mp hholds⟩
  · rintro ⟨⟨s, hs⟩, hbytes⟩
    exact ⟨s, hs.symm, (holds_loadsBytes_iff hid hdescription h hs).mpr hbytes⟩

end Delivery

/-! ## Two conditions -/

/-- `n == 1` -/
def plainCond : CString where
  bytes := Codec.encode "n == 1"
  noNul := by decide

/-- `c == '\n'` -/
def newlineCond : CString where
  bytes := Codec.encode "c == '\\n'"
  noNul := by decide

theorem isBody_sample : IsBody "9f86d081" ∧ IsBody "up" :=
  ⟨⟨"9f86d081".toList, rfl⟩, ⟨"up".toList, rfl⟩⟩

theorem delivers_plainCond :
    ∃ data, assertData "9f86d081" 0 "up" plainCond .passed = some data ∧
      (Delivers SampleFloat plainCond data ↔
        (∃ s, plainCond.bytes = Codec.encode s) ∧
          ∀ b ∈ plainCond.bytes, b ≠ backslash ∧ 0x20 ≤ b) := by
  have hsome : (assertData "9f86d081" 0 "up" plainCond .passed).isSome := by decide +kernel
  obtain ⟨data, hdata⟩ := Option.isSome_iff_exists.mp hsome
  exact ⟨data, hdata, delivers_iff isBody_sample.1 isBody_sample.2 hdata⟩

theorem not_delivers_newlineCond :
    ∃ data, assertData "9f86d081" 0 "up" newlineCond .passed = some data ∧
      ¬ Delivers SampleFloat newlineCond data := by
  have hsome : (assertData "9f86d081" 0 "up" newlineCond .passed).isSome := by decide +kernel
  obtain ⟨data, hdata⟩ := Option.isSome_iff_exists.mp hsome
  refine ⟨data, hdata, ?_⟩
  rintro ⟨s, hs, hholds⟩
  have hbytes := (holds_loadsBytes_iff isBody_sample.1 isBody_sample.2 hdata hs.symm).mp hholds
  exact (hbytes backslash (by decide)).1 rfl

end CTada
end LdmsTest
