import LdmsTest.Python.JsonLimits

/-!
# Bytes

`json.loads` of the bytes of a datagram finds out in which encoding they are, and decodes them.

* `encode`: `s.encode()`.
* `detectEncoding`, `decode`: `json.detect_encoding(b)` and the decoding after it, where a lone
  surrogate passes (see `LdmsTest.Python.Json` for what becomes of it).
* `loadsBytes`, `loadsLimited`: `json.loads(b)`, without and with the limits of the interpreter.
* `loadsBytes_encode_dumps`: the bytes of `json.dumps(v)` are read back as `v`.
-/

namespace LdmsTest
namespace Codec

open Json

/-- `s.encode()` -/
def encode (s : String) : List UInt8 :=
  s.toList.flatMap String.utf8EncodeChar

/-! ## Decoding -/

/-- The character of a code point. -/
def ofCodePoint (n : ℕ) : Except LoadError Char :=
  if n < 0xd800 ∨ (0xe000 ≤ n ∧ n < 0x110000) then pure (Char.ofNat n)
  else if n < 0xe000 then throw .surrogate
  else throw .decode

/-- A character in front of what is decoded after it. -/
def consCodePoint (n : ℕ) (rest : Except LoadError (List Char)) : Except LoadError (List Char) := do
  let cs ← rest
  let c ← ofCodePoint n
  pure (c :: cs)

/-- The bits of a continuation byte. -/
def tail (b : UInt8) : Option ℕ :=
  if 0x80 ≤ b ∧ b < 0xc0 then some (b.toNat - 0x80) else none

/-- `b.decode('utf-8', 'surrogatepass')` -/
def utf8 : List UInt8 → Except LoadError (List Char)
  | [] => pure []
  | a :: rest =>
    if a < 0x80 then consCodePoint a.toNat (utf8 rest)
    else
      match rest with
      | [] => throw .decode
      | b :: rest =>
        match tail b with
        | none => throw .decode
        | some y =>
          if a < 0xc2 then throw .decode
          else if a < 0xe0 then consCodePoint ((a.toNat - 0xc0) * 0x40 + y) (utf8 rest)
          else
            match rest with
            | [] => throw .decode
            | c :: rest =>
              match tail c with
              | none => throw .decode
              | some z =>
                if a < 0xf0 then
                  let n := ((a.toNat - 0xe0) * 0x40 + y) * 0x40 + z
                  if n < 0x800 then throw .decode else consCodePoint n (utf8 rest)
                else
                  match rest with
                  | [] => throw .decode
                  | d :: rest =>
                    match tail d with
                    | none => throw .decode
                    | some w =>
                      let n := (((a.toNat - 0xf0) * 0x40 + y) * 0x40 + z) * 0x40 + w
                      if n < 0x10000 then throw .decode else consCodePoint n (utf8 rest)

/-- The 16-bit units of the bytes, the high byte of each first if `big`. -/
def units16 (big : Bool) : List UInt8 → Except LoadError (List ℕ)
  | [] => pure []
  | [_] => throw .decode
  | a :: b :: rest => do
    let us ← units16 big rest
    pure ((if big then a.toNat * 0x100 + b.toNat else b.toNat * 0x100 + a.toNat) :: us)

/-- The 32-bit units of the bytes, the highest byte of each first if `big`. -/
def units32 (big : Bool) : List UInt8 → Except LoadError (List ℕ)
  | [] => pure []
  | a :: b :: c :: d :: rest => do
    let us ← units32 big rest
    let hi := if big then a.toNat * 0x100 + b.toNat else d.toNat * 0x100 + c.toNat
    let lo := if big then c.toNat * 0x100 + d.toNat else b.toNat * 0x100 + a.toNat
    pure ((hi * 0x10000 + lo) :: us)
  | _ => throw .decode

/-- The characters of 16-bit units, a pair of surrogates being one character. -/
def chars16 : List ℕ → Except LoadError (List Char)
  | [] => pure []
  | [n] => consCodePoint n (pure [])
  | n :: m :: us =>
    if 0xd800 ≤ n ∧ n < 0xdc00 ∧ 0xdc00 ≤ m ∧ m < 0xe000 then
      consCodePoint (0x10000 + (n - 0xd800) * 0x400 + (m - 0xdc00)) (chars16 us)
    else consCodePoint n (chars16 (m :: us))

/-- The characters of 32-bit units. -/
def chars32 : List ℕ → Except LoadError (List Char)
  | [] => pure []
  | n :: us => consCodePoint n (chars32 us)

/-- The encodings that `json.detect_encoding` tells apart. -/
inductive Encoding where
  | utf8
  | utf8Sig
  /-- with a byte order mark -/
  | utf16
  | utf16be
  | utf16le
  /-- with a byte order mark -/
  | utf32
  | utf32be
  | utf32le
  deriving DecidableEq

/-- `json.detect_encoding(b)` -/
def detectEncoding (b : List UInt8) : Encoding :=
  if [0, 0, 0xfe, 0xff].isPrefixOf b ∨ [0xff, 0xfe, 0, 0].isPrefixOf b then .utf32
  else if [0xfe, 0xff].isPrefixOf b ∨ [0xff, 0xfe].isPrefixOf b then .utf16
  else if [0xef, 0xbb, 0xbf].isPrefixOf b then .utf8Sig
  else
    match b with
    | [b0, b1] =>
      if b0 = 0 then .utf16be else if b1 = 0 then .utf16le else .utf8
    | b0 :: b1 :: b2 :: b3 :: _ =>
      if b0 = 0 then if b1 ≠ 0 then .utf16be else .utf32be
      else if b1 = 0 then if b2 ≠ 0 ∨ b3 ≠ 0 then .utf16le else .utf32le
      else .utf8
    | _ => .utf8

/-- `b.decode(encoding, 'surrogatepass')` -/
def decode (b : List UInt8) : Encoding → Except LoadError (List Char)
  | .utf8 => utf8 b
  | .utf8Sig => utf8 (b.drop 3)
  | .utf16 => do
    let us ← units16 ([0xfe, 0xff].isPrefixOf b) (b.drop 2)
    chars16 us
  | .utf16be => do
    let us ← units16 true b
    chars16 us
  | .utf16le => do
    let us ← units16 false b
    chars16 us
  | .utf32 => do
    let us ← units32 ([0, 0, 0xfe, 0xff].isPrefixOf b) (b.drop 4)
    chars32 us
  | .utf32be => do
    let us ← units32 true b
    chars32 us
  | .utf32le => do
    let us ← units32 false b
    chars32 us

variable {F : Type} [JsonFloat F]

/-- `json.loads(b)`, without the limits of the interpreter -/
def loadsBytes (b : List UInt8) : Except LoadError (Val F) := do
  let cs ← decode b (detectEncoding b)
  loads (String.ofList cs)

/-- `json.loads(b)` -/
def loadsLimited (b : List UInt8) : Except LoadError (Val F) := do
  let cs ← decode b (detectEncoding b)
  if withinLimits (PyRuntime.limits F) cs then loads (String.ofList cs) else throw .limit

theorem loadsLimited_eq {b : List UInt8} {cs : List Char}
    (hdecode : decode b (detectEncoding b) = .ok cs)
    (hcs : withinLimits (PyRuntime.limits F) cs) :
    (loadsLimited b : Except LoadError (Val F)) = loadsBytes b := by
  rw [loadsLimited, loadsBytes, hdecode, ok_bind, ok_bind, if_pos hcs]

/-! ## ASCII -/

/-- An ASCII character other than NUL. -/
def Plain (c : Char) : Prop :=
  0 < c.toNat ∧ c.toNat < 0x80

theorem utf8EncodeChar_plain {c : Char} (hc : Plain c) :
    String.utf8EncodeChar c = [UInt8.ofNat c.toNat] :=
  if_pos (show c.val.toNat ≤ 0x7f from Nat.le_of_lt_succ hc.2)

theorem toNat_ofNat_plain {c : Char} (hc : Plain c) : (UInt8.ofNat c.toNat).toNat = c.toNat := by
  have hlt : c.toNat < 2 ^ 8 := Nat.lt_trans hc.2 (by decide)
  rw [UInt8.toNat_ofNat', Nat.mod_eq_of_lt hlt]

theorem ofCodePoint_plain {c : Char} (hc : Plain c) : ofCodePoint c.toNat = .ok c := by
  have hlt : c.toNat < 0xd800 := Nat.lt_trans hc.2 (by decide)
  rw [ofCodePoint, if_pos (Or.inl hlt), Char.ofNat_toNat]
  rfl

theorem utf8_cons_of_lt {a : UInt8} (ha : a < 0x80) (rest : List UInt8) :
    utf8 (a :: rest) = consCodePoint a.toNat (utf8 rest) :=
  (utf8.eq_def _).trans (if_pos ha)

theorem utf8_encode_plain {cs : List Char} (h : ∀ c ∈ cs, Plain c) :
    utf8 (cs.flatMap String.utf8EncodeChar) = .ok cs := by
  induction cs with
  | nil => rfl
  | cons c cs ih =>
    have hc : Plain c := h c List.mem_cons_self
    have hlt : UInt8.ofNat c.toNat < 0x80 := by
      rw [UInt8.lt_iff_toNat_lt, toNat_ofNat_plain hc]
      exact hc.2
    rw [List.flatMap_cons, utf8EncodeChar_plain hc, List.singleton_append,
      utf8_cons_of_lt hlt, ih fun c hc => h c (List.mem_cons_of_mem _ hc), toNat_ofNat_plain hc, consCodePoint]
    show (ofCodePoint c.toNat >>= fun c => pure (c :: cs)) = .ok (c :: cs)
    rw [ofCodePoint_plain hc]
    rfl

/-- A byte of an ASCII character other than NUL. -/
def PlainByte (b : UInt8) : Prop :=
  0 < b ∧ b < 0x80

instance (b : UInt8) : Decidable (PlainByte b) :=
  inferInstanceAs (Decidable (0 < b ∧ b < 0x80))

theorem plainByte_of_plain {c : Char} (hc : Plain c) : PlainByte (UInt8.ofNat c.toNat) := by
  constructor
  · rw [UInt8.lt_iff_toNat_lt, toNat_ofNat_plain hc]
    exact hc.1
  · rw [UInt8.lt_iff_toNat_lt, toNat_ofNat_plain hc]
    exact hc.2

theorem plainByte_of_mem_encode {cs : List Char} (h : ∀ c ∈ cs, Plain c) :
    ∀ b ∈ cs.flatMap String.utf8EncodeChar, PlainByte b := by
  intro b hb
  obtain ⟨c, hc, hb⟩ := List.mem_flatMap.mp hb
  rw [utf8EncodeChar_plain (h c hc), List.mem_singleton] at hb
  rw [hb]
  exact plainByte_of_plain (h c hc)

theorem not_isPrefixOf_of_plain {bs : List UInt8} (h : ∀ b ∈ bs, PlainByte b) {a : UInt8}
    (ha : ¬ PlainByte a) (mark : List UInt8) : (a :: mark).isPrefixOf bs = false := by
  cases bs with
  | nil => rfl
  | cons b bs =>
    rw [List.isPrefixOf]
    have hne : (a == b) = false := by
      rw [beq_eq_false_iff_ne]
      intro hab
      exact ha (hab ▸ h b List.mem_cons_self)
    rw [hne, Bool.false_and]

theorem detectEncoding_plain {bs : List UInt8} (h : ∀ b ∈ bs, PlainByte b) :
    detectEncoding bs = .utf8 := by
  have hmark (a : UInt8) (mark : List UInt8) (ha : ¬ PlainByte a) :
      ¬ (a :: mark).isPrefixOf bs = true := by
    rw [not_isPrefixOf_of_plain h ha mark]
    exact Bool.false_ne_true
  have hne {b : UInt8} (hb : b ∈ bs) : b ≠ 0 := by
    rintro rfl
    exact absurd (h 0 hb).1 (by decide)
  unfold detectEncoding
  rw [if_neg (not_or.mpr ⟨hmark _ _ (by decide), hmark _ _ (by decide)⟩),
    if_neg (not_or.mpr ⟨hmark _ _ (by decide), hmark _ _ (by decide)⟩),
    if_neg (hmark _ _ (by decide))]
  split
  · rw [if_neg (hne (by simp)), if_neg (hne (by simp))]
  · rw [if_neg (hne (by simp)), if_neg (hne (by simp))]
  · rfl

theorem decode_encode {s : String} (h : ∀ c ∈ s.toList, Plain c) :
    decode (encode s) (detectEncoding (encode s)) = .ok s.toList := by
  rw [encode, detectEncoding_plain (plainByte_of_mem_encode h), decode, utf8_encode_plain h]

/-- **The bytes of an ASCII text are read as the text.** -/
theorem loadsBytes_encode {s : String} (h : ∀ c ∈ s.toList, Plain c) :
    (loadsBytes (encode s) : Except LoadError (Val F)) = loads s := by
  rw [loadsBytes, decode_encode h, ok_bind, String.ofList_toList]

/-! ## The text of an object is ASCII -/

/-- A text in two parts, the first one ASCII. -/
def Splits (cs ds rest : List Char) : Prop :=
  cs = ds ++ rest ∧ ∀ c ∈ ds, Plain c

theorem Splits.cons {c : Char} (hc : Plain c) {cs ds rest : List Char} (h : Splits cs ds rest) :
    Splits (c :: cs) (c :: ds) rest :=
  ⟨congrArg (c :: ·) h.1, List.forall_mem_cons.mpr ⟨hc, h.2⟩⟩

theorem Splits.append {cs ds ds' rest rest' : List Char} (h : Splits cs ds rest)
    (h' : Splits rest ds' rest') : Splits cs (ds ++ ds') rest' :=
  ⟨by rw [h.1, h'.1, List.append_assoc], List.forall_mem_append.mpr ⟨h.2, h'.2⟩⟩

theorem splits_nil (cs : List Char) : Splits cs [] cs :=
  ⟨rfl, nofun⟩

theorem plain_of_isDigit {c : Char} (hc : c.isDigit) : Plain c := by
  have hle := (Bool.and_eq_true_iff.mp hc)
  have hlo : '0'.toNat ≤ c.toNat := of_decide_eq_true hle.1
  have hhi : c.toNat ≤ '9'.toNat := of_decide_eq_true hle.2
  exact ⟨Nat.lt_of_lt_of_le (by decide) hlo, Nat.lt_of_le_of_lt hhi (by decide)⟩

instance (c : Char) : Decidable (Plain c) :=
  inferInstanceAs (Decidable (0 < c.toNat ∧ c.toNat < 0x80))

/-- For a text that is written out. -/
theorem plain_of_all {cs : List Char} (h : cs.all fun c => decide (Plain c)) :
    ∀ c ∈ cs, Plain c := by
  intro c hc
  exact of_decide_eq_true (List.all_eq_true.mp h c hc)

theorem splits_scanDigits (cs : List Char) : Splits cs (scanDigits cs).1 (scanDigits cs).2 :=
  ⟨List.takeWhile_append_dropWhile.symm, fun _ hc =>
    plain_of_isDigit (List.mem_takeWhile_imp hc)⟩

theorem splits_scanNat {cs : List Char} {r : List Char × List Char} (h : scanNat cs = some r) :
    Splits cs r.1 r.2 := by
  cases cs with
  | nil => cases h
  | cons c cs =>
    rw [scanNat] at h
    split at h
    · next hc =>
      cases h
      have hplain : Plain c := by
        rw [hc]
        decide
      rw [hc]
      rw [hc] at hplain
      exact (splits_nil cs).cons hplain
    · split at h
      · cases h
        exact splits_scanDigits (c :: cs)
      · cases h

theorem splits_scanInteger {cs : List Char} {r : List Char × List Char}
    (h : scanInteger cs = some r) : Splits cs r.1 r.2 := by
  unfold scanInteger at h
  split at h
  · obtain ⟨r', hr', rfl⟩ := Option.map_eq_some_iff.mp h
    exact (splits_scanNat hr').cons (by decide)
  · exact splits_scanNat h

theorem splits_scanFrac (cs : List Char) : Splits cs (scanFrac cs).1 (scanFrac cs).2 := by
  unfold scanFrac
  split
  · next cs =>
    split
    · exact splits_nil _
    · exact (splits_scanDigits cs).cons (by decide)
  · exact splits_nil _

theorem splits_scanExponent {cs : List Char} {r : List Char × List Char}
    (h : scanExponent cs = some r) : Splits cs r.1 r.2 := by
  cases cs with
  | nil => cases h
  | cons c cs =>
    rw [scanExponent] at h
    split at h
    · next hc =>
      split at h
      · cases h
      · cases h
        refine (splits_scanDigits cs).cons ?_
        rcases hc with rfl | rfl
        · decide
        · decide
    · split at h
      · cases h
        exact splits_scanDigits (c :: cs)
      · cases h

theorem splits_scanExp (cs : List Char) : Splits cs (scanExp cs).1 (scanExp cs).2 := by
  unfold scanExp
  split
  · exact splits_nil _
  · next e cs =>
    split
    · next he =>
      have hplain : Plain e := by
        rcases he with rfl | rfl
        · decide
        · decide
      split
      · next hr => exact (splits_scanExponent hr).cons hplain
      · exact splits_nil _
    · exact splits_nil _

/-- The text of a number is ASCII. -/
theorem plain_of_scanNumber {cs i f : List Char} (h : scanNumber cs = some ((i, f), [])) :
    ∀ c ∈ cs, Plain c := by
  obtain ⟨r, hr, hrest⟩ := Option.map_eq_some_iff.mp h
  have hsplit := (splits_scanInteger hr).append
    ((splits_scanFrac r.2).append (splits_scanExp (scanFrac r.2).2))
  rw [(Prod.ext_iff.mp hrest).2] at hsplit
  rw [hsplit.1, List.append_nil]
  exact hsplit.2

theorem plain_dump (x : F) : ∀ c ∈ JsonFloat.dump x, Plain c := by
  rcases JsonFloat.dump_cases x with ⟨h, -⟩ | ⟨h, -⟩ | ⟨h, -⟩ | ⟨i, f, -, h, -⟩
  · rw [h]
    exact plain_of_all (by decide)
  · rw [h]
    exact plain_of_all (by decide)
  · rw [h]
    exact plain_of_all (by decide)
  · exact plain_of_scanNumber h

theorem plain_digitChar {d : ℕ} (hd : d < 16) : Plain (Nat.digitChar d) := by
  have hdigit : ∀ d < 16, Plain (Nat.digitChar d) := by decide
  exact hdigit d hd

theorem plain_hex4 (n : ℕ) : ∀ c ∈ hex4 n, Plain c := by
  intro c hc
  obtain ⟨d, hd, rfl⟩ := List.mem_map.mp hc
  have hlt : ∀ d ∈ [n / 0x1000 % 16, n / 0x100 % 16, n / 0x10 % 16, n % 16], d < 16 := by
    simp only [List.forall_mem_cons]
    exact ⟨Nat.mod_lt _ (by decide), Nat.mod_lt _ (by decide), Nat.mod_lt _ (by decide),
      Nat.mod_lt _ (by decide), nofun⟩
  exact plain_digitChar (hlt d hd)

theorem plain_escape (c : Char) : ∀ d ∈ escape c, Plain d := by
  have hhex (n : ℕ) : ∀ d ∈ '\\' :: 'u' :: hex4 n, Plain d :=
    List.forall_mem_cons.mpr ⟨by decide, List.forall_mem_cons.mpr ⟨by decide, plain_hex4 n⟩⟩
  unfold escape
  split_ifs with _ _ hplain
  · exact plain_of_all (by decide)
  · exact plain_of_all (by decide)
  · have hlo : ' '.toNat ≤ c.toNat := hplain.1
    have hhi : c.toNat ≤ '~'.toNat := hplain.2
    rw [List.forall_mem_singleton]
    exact ⟨Nat.lt_of_lt_of_le (by decide) hlo, Nat.lt_of_le_of_lt hhi (by decide)⟩
  · exact plain_of_all (by decide)
  · exact plain_of_all (by decide)
  · exact plain_of_all (by decide)
  · exact plain_of_all (by decide)
  · exact plain_of_all (by decide)
  · exact hhex _
  · exact List.forall_mem_append.mpr ⟨hhex _, hhex _⟩

theorem plain_encodeStr (s : String) : ∀ c ∈ encodeStr s, Plain c := by
  refine List.forall_mem_cons.mpr ⟨by decide, List.forall_mem_append.mpr
    ⟨fun c hc => ?_, plain_of_all (by decide)⟩⟩
  obtain ⟨d, -, hc⟩ := List.mem_flatMap.mp hc
  exact plain_escape d c hc

theorem plain_intText (n : ℤ) : ∀ c ∈ intText n, Plain c :=
  plain_of_scanNumber (scanNumber_intText n)

theorem plain_newline (indent : Option ℕ) (level : ℕ) : ∀ c ∈ newline indent level, Plain c := by
  cases indent with
  | none => exact nofun
  | some width =>
    refine List.forall_mem_cons.mpr ⟨by decide, fun c hc => ?_⟩
    rw [List.eq_of_mem_replicate hc]
    decide

theorem plain_separator (indent : Option ℕ) (level : ℕ) :
    ∀ c ∈ separator indent level, Plain c := by
  cases indent with
  | none =>
    show ∀ c ∈ [',', ' '], Plain c
    exact plain_of_all (by decide)
  | some width => exact List.forall_mem_cons.mpr ⟨by decide, plain_newline _ level⟩

theorem plain_joined {indent : Option ℕ} {level : ℕ} {items : List (List Char)}
    (h : ∀ item ∈ items, ∀ c ∈ item, Plain c) : ∀ c ∈ joined indent level items, Plain c := by
  induction items with
  | nil => exact nofun
  | cons item items ih =>
    rw [List.forall_mem_cons] at h
    cases items with
    | nil => exact h.1
    | cons item' items =>
      rw [joined]
      · exact List.forall_mem_append.mpr
          ⟨List.forall_mem_append.mpr ⟨h.1, plain_separator indent level⟩, ih h.2⟩
      · intro hnil
        cases hnil

theorem plain_container {indent : Option ℕ} {level : ℕ} {l r : Char} (hl : Plain l) (hr : Plain r)
    {items : List (List Char)} (h : ∀ item ∈ items, ∀ c ∈ item, Plain c) :
    ∀ c ∈ container indent level l r items, Plain c := by
  unfold container
  split
  · exact List.forall_mem_cons.mpr ⟨hl, List.forall_mem_singleton.mpr hr⟩
  · refine List.forall_mem_append.mpr ⟨List.forall_mem_append.mpr
      ⟨List.forall_mem_append.mpr ⟨List.forall_mem_cons.mpr ⟨hl, plain_newline _ _⟩, ?_⟩,
        plain_newline _ _⟩, List.forall_mem_singleton.mpr hr⟩
    exact plain_joined h

theorem forall_mem_encodeItems {P : List Char → Prop} {indent : Option ℕ} {level : ℕ}
    {xs : List (Val F)} (h : ∀ x ∈ xs, P (Json.encode indent level x)) :
    ∀ item ∈ encodeItems indent level xs, P item := by
  induction xs with
  | nil => exact nofun
  | cons x xs ih =>
    rw [List.forall_mem_cons] at h
    rw [encodeItems]
    exact List.forall_mem_cons.mpr ⟨h.1, ih h.2⟩

theorem forall_mem_encodeFields {P : List Char → Prop} {indent : Option ℕ} {level : ℕ}
    {d : List (String × Val F)}
    (h : ∀ p ∈ d, P (encodeStr p.1 ++ ':' :: ' ' :: Json.encode indent level p.2)) :
    ∀ item ∈ encodeFields indent level d, P item := by
  induction d with
  | nil => exact nofun
  | cons p d ih =>
    rw [List.forall_mem_cons] at h
    rw [encodeFields]
    exact List.forall_mem_cons.mpr ⟨h.1, ih h.2⟩

/-- **The text of an object is ASCII.** -/
theorem plain_encode (indent : Option ℕ) (level : ℕ) (v : Val F) :
    ∀ c ∈ Json.encode indent level v, Plain c := by
  induction v generalizing level with
  | none =>
    show ∀ c ∈ "null".toList, Plain c
    exact plain_of_all (by decide)
  | bool b =>
    cases b with
    | true =>
      show ∀ c ∈ "true".toList, Plain c
      exact plain_of_all (by decide)
    | false =>
      show ∀ c ∈ "false".toList, Plain c
      exact plain_of_all (by decide)
  | int n => exact plain_intText n
  | float x => exact plain_dump x
  | str s => exact plain_encodeStr s
  | list xs ih =>
    exact plain_container (by decide) (by decide)
      (forall_mem_encodeItems (P := fun item => ∀ c ∈ item, Plain c) fun x hx => ih x hx _)
  | tuple xs ih =>
    exact plain_container (by decide) (by decide)
      (forall_mem_encodeItems (P := fun item => ∀ c ∈ item, Plain c) fun x hx => ih x hx _)
  | dict d ih =>
    refine plain_container (by decide) (by decide)
      (forall_mem_encodeFields (P := fun item => ∀ c ∈ item, Plain c) fun p hp => ?_)
    refine List.forall_mem_append.mpr ⟨plain_encodeStr p.1, ?_⟩
    exact List.forall_mem_cons.mpr ⟨by decide, List.forall_mem_cons.mpr ⟨by decide, ih p hp _⟩⟩

theorem plain_dumps (indent : Option ℕ) (v : Val F) : ∀ c ∈ (dumps indent v).toList, Plain c := by
  rw [dumps, String.toList_ofList]
  exact plain_encode indent 0 v

/-- **What is sent as JSON is read back.** -/
theorem loadsBytes_encode_dumps {v : Val F} (hv : Val.Keyed v) (indent : Option ℕ) :
    loadsBytes (encode (dumps indent v)) = .ok (listed v) := by
  rw [loadsBytes_encode (plain_dumps indent v), loads_dumps hv]

/-- An object within the limits is read back, too, with the limits. -/
theorem loadsLimited_encode_dumps {v : Val F} (hv : Val.Keyed v)
    (hfits : Fits (PyRuntime.limits F).depth v) :
    loadsLimited (encode (dumps none v)) = .ok (listed v) := by
  rw [loadsLimited_eq (decode_encode (plain_dumps none v)) (withinLimits_dumps hfits),
    loadsBytes_encode_dumps hv]

end Codec
end LdmsTest
