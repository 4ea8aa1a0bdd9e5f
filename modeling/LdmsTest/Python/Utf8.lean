import LdmsTest.Python.Codec

/-!
# UTF-8

What `bytes.decode` makes of UTF-8.  A text is got back from its bytes, and bytes that are decoded
are the bytes of what they are decoded to.

* `utf8_eq_ok_iff`: which bytes are decoded, and to which text.
* `encodeChar_cases`: the bytes of a character, seen from outside.
-/

namespace LdmsTest
namespace Codec

open Json

theorem encode_append (s t : String) : encode (s ++ t) = encode s ++ encode t := by
  rw [encode, encode, encode, String.toList_append, List.flatMap_append]

theorem length_encode (s : String) : (encode s).length = s.utf8ByteSize := by
  have hbytes : s.toByteArray = (s.toList.flatMap String.utf8EncodeChar).toByteArray := by
    rw [← List.utf8Encode, ← String.toByteArray_ofList, String.ofList_toList]
  rw [encode, ← String.size_toByteArray, hbytes, List.size_toByteArray]

/-! ## Code points -/

theorem ofCodePoint_toNat (c : Char) : ofCodePoint c.toNat = .ok c := by
  have hsurrogate := not_surrogate c
  have hlt := toNat_lt c
  rw [ofCodePoint, if_pos (by omega), Char.ofNat_toNat]
  rfl

theorem toNat_of_ofCodePoint {n : ℕ} {c : Char} (h : ofCodePoint n = .ok c) : c.toNat = n := by
  unfold ofCodePoint at h
  split at h
  · next hn =>
    cases h
    have hvalid : n.isValidChar := by
      rcases hn with hn | hn
      · exact .inl hn
      · exact .inr ⟨by omega, hn.2⟩
    rw [Char.ofNat, dif_pos hvalid]
    rfl
  · split at h <;> cases h

theorem consCodePoint_toNat (c : Char) (rest : Except LoadError (List Char)) :
    consCodePoint c.toNat rest = rest.map (c :: ·) := by
  cases rest with
  | error e => rfl
  | ok cs =>
    show (ofCodePoint c.toNat >>= fun c => pure (c :: cs)) = .ok (c :: cs)
    rw [ofCodePoint_toNat]
    rfl

theorem consCodePoint_eq_ok {n : ℕ} {rest : Except LoadError (List Char)} {ds : List Char}
    (h : consCodePoint n rest = .ok ds) :
    ∃ c cs, c.toNat = n ∧ rest = .ok cs ∧ ds = c :: cs := by
  unfold consCodePoint at h
  cases rest with
  | error e => cases h
  | ok cs =>
    cases hc : ofCodePoint n with
    | error e =>
      rw [hc] at h
      cases h
    | ok c =>
      rw [hc] at h
      cases h
      exact ⟨c, cs, toNat_of_ofCodePoint hc, rfl, rfl⟩

/-! ## The bytes of a character -/

theorem tail_eq_some {b : UInt8} {y : ℕ} (h : tail b = some y) :
    y < 64 ∧ b.toNat = y + 0x80 := by
  unfold tail at h
  split at h
  · next hb =>
    obtain ⟨hle, hlt⟩ := hb
    rw [UInt8.le_iff_toNat_le] at hle
    rw [UInt8.lt_iff_toNat_lt] at hlt
    simp only [UInt8.reduceToNat] at hle hlt
    have hy := Option.some.inj h
    omega
  · cases h

theorem toNat_ofNat_of_lt {n : ℕ} (hn : n < 256) : (UInt8.ofNat n).toNat = n := by
  rw [UInt8.toNat_ofNat', Nat.mod_eq_of_lt (by simpa using hn)]

theorem tail_ofNat {y : ℕ} (hy : y < 64) : tail (UInt8.ofNat (y + 0x80)) = some y := by
  have hnat : (UInt8.ofNat (y + 0x80)).toNat = y + 0x80 := toNat_ofNat_of_lt (by omega)
  unfold tail
  rw [if_pos, hnat, Nat.add_sub_cancel]
  constructor
  · rw [UInt8.le_iff_toNat_le, hnat]
    exact Nat.le_add_left _ _
  · rw [UInt8.lt_iff_toNat_lt, hnat]
    simp only [UInt8.reduceToNat]
    omega

/-- Two bytes. -/
theorem utf8_cons_cons {a b : UInt8} {y : ℕ} (ha : 0xc2 ≤ a.toNat) (ha' : a.toNat < 0xe0)
    (hb : tail b = some y) (rest : List UInt8) :
    utf8 (a :: b :: rest) = consCodePoint ((a.toNat - 0xc0) * 0x40 + y) (utf8 rest) := by
  rw [utf8.eq_def]
  simp only [hb, UInt8.lt_iff_toNat_lt, UInt8.reduceToNat]
  rw [if_neg (by omega), if_neg (by omega), if_pos (by omega)]

/-- Three bytes. -/
theorem utf8_cons_cons_cons {a b c : UInt8} {y z : ℕ} (ha : 0xe0 ≤ a.toNat) (ha' : a.toNat < 0xf0)
    (hb : tail b = some y) (hc : tail c = some z)
    (hn : 0x800 ≤ ((a.toNat - 0xe0) * 0x40 + y) * 0x40 + z) (rest : List UInt8) :
    utf8 (a :: b :: c :: rest) =
      consCodePoint (((a.toNat - 0xe0) * 0x40 + y) * 0x40 + z) (utf8 rest) := by
  rw [utf8.eq_def]
  simp only [hb, hc, UInt8.lt_iff_toNat_lt, UInt8.reduceToNat]
  rw [if_neg (by omega), if_neg (by omega), if_neg (by omega), if_pos (by omega),
    if_neg (by omega)]

/-- Four bytes. -/
theorem utf8_cons_cons_cons_cons {a b c d : UInt8} {y z w : ℕ} (ha : 0xf0 ≤ a.toNat)
    (hb : tail b = some y) (hc : tail c = some z) (hd : tail d = some w)
    (hn : 0x10000 ≤ (((a.toNat - 0xf0) * 0x40 + y) * 0x40 + z) * 0x40 + w) (rest : List UInt8) :
    utf8 (a :: b :: c :: d :: rest) =
      consCodePoint ((((a.toNat - 0xf0) * 0x40 + y) * 0x40 + z) * 0x40 + w) (utf8 rest) := by
  rw [utf8.eq_def]
  simp only [hb, hc, hd, UInt8.lt_iff_toNat_lt, UInt8.reduceToNat]
  rw [if_neg (by omega), if_neg (by omega), if_neg (by omega), if_neg (by omega),
    if_neg (by omega)]

/-- **The bytes of a character** are decoded to the character. -/
theorem utf8_encodeChar_append (c : Char) (rest : List UInt8) :
    utf8 (String.utf8EncodeChar c ++ rest) = consCodePoint c.toNat (utf8 rest) := by
  have hlt : c.val.toNat < 0x110000 := toNat_lt c
  show utf8 (String.utf8EncodeChar c ++ rest) = consCodePoint c.val.toNat (utf8 rest)
  generalize hv : c.val.toNat = v at hlt
  unfold String.utf8EncodeChar
  simp only [hv]
  split
  · next h1 =>
    have ha : (UInt8.ofNat v).toNat = v := toNat_ofNat_of_lt (by omega)
    rw [List.singleton_append, utf8_cons_of_lt, ha]
    rw [UInt8.lt_iff_toNat_lt, ha]
    simp only [UInt8.reduceToNat]
    omega
  · split
    · next h1 h2 =>
      have ha : (UInt8.ofNat (v / 64 % 32 + 0xc0)).toNat = v / 64 + 0xc0 := by
        rw [toNat_ofNat_of_lt (by omega)]
        omega
      have hy : v % 64 < 64 := Nat.mod_lt _ (by decide)
      rw [List.cons_append, List.singleton_append,
        utf8_cons_cons (by omega) (by omega) (tail_ofNat hy), ha]
      congr 1
      omega
    · split
      · next h1 h2 h3 =>
        have ha : (UInt8.ofNat (v / 4096 % 16 + 0xe0)).toNat = v / 4096 + 0xe0 := by
          rw [toNat_ofNat_of_lt (by omega)]
          omega
        have hy : v / 64 % 64 < 64 := Nat.mod_lt _ (by decide)
        have hz : v % 64 < 64 := Nat.mod_lt _ (by decide)
        rw [List.cons_append, List.cons_append, List.singleton_append,
          utf8_cons_cons_cons (by omega) (by omega) (tail_ofNat hy) (tail_ofNat hz) (by omega), ha]
        congr 1
        omega
      · next h1 h2 h3 =>
        have ha : (UInt8.ofNat (v / 262144 % 8 + 0xf0)).toNat = v / 262144 + 0xf0 := by
          rw [toNat_ofNat_of_lt (by omega)]
          omega
        have hy : v / 4096 % 64 < 64 := Nat.mod_lt _ (by decide)
        have hz : v / 64 % 64 < 64 := Nat.mod_lt _ (by decide)
        have hw : v % 64 < 64 := Nat.mod_lt _ (by decide)
        rw [List.cons_append, List.cons_append, List.cons_append, List.singleton_append,
          utf8_cons_cons_cons_cons (by omega) (tail_ofNat hy) (tail_ofNat hz) (tail_ofNat hw)
            (by omega), ha]
        congr 1
        omega

/-- The bytes of a text, with others behind them. -/
theorem utf8_encode_append (cs : List Char) (rest : List UInt8) :
    utf8 (cs.flatMap String.utf8EncodeChar ++ rest) = (utf8 rest).map (cs ++ ·) := by
  induction cs with
  | nil =>
    show utf8 rest = (utf8 rest).map ([] ++ ·)
    cases utf8 rest <;> rfl
  | cons c cs ih =>
    rw [List.flatMap_cons, List.append_assoc, utf8_encodeChar_append, ih, consCodePoint_toNat]
    cases utf8 rest <;> rfl

/-- **The bytes of a text** are decoded to the text. -/
theorem utf8_encode (cs : List Char) : utf8 (cs.flatMap String.utf8EncodeChar) = .ok cs := by
  have happend := utf8_encode_append cs []
  rw [List.append_nil] at happend
  rw [happend]
  show Except.ok (cs ++ []) = .ok cs
  rw [List.append_nil]

/-! ## What is decoded -/

theorem ofNat_eq {a : UInt8} {n : ℕ} (h : n = a.toNat) : UInt8.ofNat n = a := by
  rw [h, UInt8.ofNat_toNat]

theorem encodeChar_one {a : UInt8} {c : Char} (ha : a < 0x80) (hc : c.toNat = a.toNat) :
    String.utf8EncodeChar c = [a] := by
  rw [UInt8.lt_iff_toNat_lt] at ha
  simp only [UInt8.reduceToNat] at ha
  have hv : c.val.toNat = a.toNat := hc
  unfold String.utf8EncodeChar
  simp only [hv]
  rw [if_pos (by omega), UInt8.ofNat_toNat]

theorem encodeChar_two {a b : UInt8} {y : ℕ} {c : Char} (ha : 0xc2 ≤ a.toNat)
    (ha' : a.toNat < 0xe0) (hb : tail b = some y)
    (hc : c.toNat = (a.toNat - 0xc0) * 0x40 + y) : String.utf8EncodeChar c = [a, b] := by
  obtain ⟨hy, hby⟩ := tail_eq_some hb
  have hv : c.val.toNat = (a.toNat - 0xc0) * 0x40 + y := hc
  unfold String.utf8EncodeChar
  simp only [hv]
  rw [if_neg (by omega), if_pos (by omega), ofNat_eq (a := a) (by omega), ofNat_eq (a := b) (by omega)]

theorem encodeChar_three {a b c : UInt8} {y z : ℕ} {d : Char} (ha : 0xe0 ≤ a.toNat)
    (ha' : a.toNat < 0xf0) (hb : tail b = some y) (hc : tail c = some z)
    (hn : 0x800 ≤ ((a.toNat - 0xe0) * 0x40 + y) * 0x40 + z)
    (hd : d.toNat = ((a.toNat - 0xe0) * 0x40 + y) * 0x40 + z) :
    String.utf8EncodeChar d = [a, b, c] := by
  obtain ⟨hy, hby⟩ := tail_eq_some hb
  obtain ⟨hz, hcz⟩ := tail_eq_some hc
  have hv : d.val.toNat = ((a.toNat - 0xe0) * 0x40 + y) * 0x40 + z := hd
  unfold String.utf8EncodeChar
  simp only [hv]
  rw [if_neg (by omega), if_neg (by omega), if_pos (by omega), ofNat_eq (a := a) (by omega),
    ofNat_eq (a := b) (by omega), ofNat_eq (a := c) (by omega)]

theorem encodeChar_four {a b c d : UInt8} {y z w : ℕ} {e : Char} (ha : 0xf0 ≤ a.toNat)
    (hb : tail b = some y) (hc : tail c = some z) (hd : tail d = some w)
    (hn : 0x10000 ≤ (((a.toNat - 0xf0) * 0x40 + y) * 0x40 + z) * 0x40 + w)
    (he : e.toNat = (((a.toNat - 0xf0) * 0x40 + y) * 0x40 + z) * 0x40 + w) :
    String.utf8EncodeChar e = [a, b, c, d] := by
  obtain ⟨hy, hby⟩ := tail_eq_some hb
  obtain ⟨hz, hcz⟩ := tail_eq_some hc
  obtain ⟨hw, hdw⟩ := tail_eq_some hd
  have hlt := toNat_lt e
  have hv : e.val.toNat = (((a.toNat - 0xf0) * 0x40 + y) * 0x40 + z) * 0x40 + w := he
  unfold String.utf8EncodeChar
  simp only [hv]
  rw [if_neg (by omega), if_neg (by omega), if_neg (by omega), ofNat_eq (a := a) (by omega),
    ofNat_eq (a := b) (by omega), ofNat_eq (a := c) (by omega), ofNat_eq (a := d) (by omega)]

/-- What is decoded starts with the bytes of a character. -/
theorem exists_of_utf8_cons {a : UInt8} {bs : List UInt8} {ds : List Char}
    (h : utf8 (a :: bs) = .ok ds) :
    ∃ c cs rest, ds = c :: cs ∧ a :: bs = String.utf8EncodeChar c ++ rest ∧ utf8 rest = .ok cs := by
  have hlt (x y : UInt8) : ¬ x < y → y.toNat ≤ x.toNat := by
    rw [UInt8.lt_iff_toNat_lt]
    exact Nat.le_of_not_lt
  rw [utf8.eq_def] at h
  dsimp only at h
  split at h
  · next ha =>
    obtain ⟨c, cs, hc, hcs, rfl⟩ := consCodePoint_eq_ok h
    exact ⟨c, cs, bs, rfl, by rw [encodeChar_one ha hc]; rfl, hcs⟩
  next ha =>
  split at h
  · cases h
  next b bs =>
  split at h
  · cases h
  next y hb =>
  split at h
  · cases h
  next ha₁ =>
  split at h
  · next ha₂ =>
    obtain ⟨c, cs, hc, hcs, rfl⟩ := consCodePoint_eq_ok h
    have hbytes := encodeChar_two (hlt _ _ ha₁) (UInt8.lt_iff_toNat_lt.mp ha₂) hb hc
    exact ⟨c, cs, bs, rfl, by rw [hbytes]; rfl, hcs⟩
  next ha₂ =>
  split at h
  · cases h
  next c bs =>
  split at h
  · cases h
  next z hc =>
  split at h
  · next ha₃ =>
    split at h
    · cases h
    next hn =>
    obtain ⟨d, cs, hd, hcs, rfl⟩ := consCodePoint_eq_ok h
    have hbytes := encodeChar_three (hlt _ _ ha₂) (UInt8.lt_iff_toNat_lt.mp ha₃) hb hc
      (Nat.le_of_not_lt hn) hd
    exact ⟨d, cs, bs, rfl, by rw [hbytes]; rfl, hcs⟩
  next ha₃ =>
  split at h
  · cases h
  next d bs =>
  split at h
  · cases h
  next w hd =>
  split at h
  · cases h
  next hn =>
  obtain ⟨e, cs, he, hcs, rfl⟩ := consCodePoint_eq_ok h
  have hbytes := encodeChar_four (hlt _ _ ha₃) hb hc hd (Nat.le_of_not_lt hn) he
  exact ⟨e, cs, bs, rfl, by rw [hbytes]; rfl, hcs⟩

/-- **Decoding UTF-8** is the inverse of encoding: nothing else is decoded. -/
theorem utf8_eq_ok_iff {bs : List UInt8} {cs : List Char} :
    utf8 bs = .ok cs ↔ bs = cs.flatMap String.utf8EncodeChar := by
  constructor
  · intro h
    induction cs generalizing bs with
    | nil =>
      cases bs with
      | nil => rfl
      | cons a bs =>
        obtain ⟨c, cs, rest, hcs, -, -⟩ := exists_of_utf8_cons h
        cases hcs
    | cons d ds ih =>
      cases bs with
      | nil => cases h
      | cons a bs =>
        obtain ⟨c, cs, rest, hcs, hbytes, hrest⟩ := exists_of_utf8_cons h
        cases hcs
        rw [hbytes, List.flatMap_cons, ih hrest]
  · rintro rfl
    exact utf8_encode cs

/-! ## Bytes below `0x80` -/

/-- The bytes of a character: its number if that is below `0x80`, and otherwise none below it. -/
theorem encodeChar_cases (c : Char) :
    (c.toNat < 0x80 ∧ String.utf8EncodeChar c = [UInt8.ofNat c.toNat]) ∨
      (0x80 ≤ c.toNat ∧ ∀ b ∈ String.utf8EncodeChar c, 0x80 ≤ b) := by
  have hge {n m : ℕ} (hm : 0x80 ≤ m) (hlt : n + m < 256) : 0x80 ≤ UInt8.ofNat (n + m) := by
    rw [UInt8.le_iff_toNat_le, toNat_ofNat_of_lt hlt]
    simp only [UInt8.reduceToNat]
    omega
  show (c.val.toNat < 0x80 ∧ String.utf8EncodeChar c = [UInt8.ofNat c.val.toNat]) ∨
    (0x80 ≤ c.val.toNat ∧ ∀ b ∈ String.utf8EncodeChar c, 0x80 ≤ b)
  unfold String.utf8EncodeChar
  dsimp only
  split
  · exact .inl ⟨by omega, rfl⟩
  · refine .inr ⟨by omega, ?_⟩
    split
    · simp only [List.forall_mem_cons, List.not_mem_nil, false_imp_iff, implies_true, and_true]
      exact ⟨hge (by omega) (by omega), hge (by omega) (by omega)⟩
    · split
      · simp only [List.forall_mem_cons, List.not_mem_nil, false_imp_iff, implies_true, and_true]
        exact ⟨hge (by omega) (by omega), hge (by omega) (by omega), hge (by omega) (by omega)⟩
      · simp only [List.forall_mem_cons, List.not_mem_nil, false_imp_iff, implies_true, and_true]
        exact ⟨hge (by omega) (by omega), hge (by omega) (by omega), hge (by omega) (by omega),
          hge (by omega) (by omega)⟩

/-- No byte of a character is `0xf8` or above. -/
theorem lt_of_mem_encodeChar {b : UInt8} {c : Char} (h : b ∈ String.utf8EncodeChar c) :
    b < 0xf8 := by
  have hlt {n : ℕ} (hn : n < 0xf8) : UInt8.ofNat n < 0xf8 := by
    rw [UInt8.lt_iff_toNat_lt, toNat_ofNat_of_lt (by omega)]
    exact hn
  unfold String.utf8EncodeChar at h
  dsimp only at h
  split at h
  · rw [List.mem_singleton] at h
    rw [h]
    exact hlt (by omega)
  · split at h
    · simp only [List.mem_cons, List.not_mem_nil, or_false] at h
      rcases h with rfl | rfl <;> exact hlt (by omega)
    · split at h
      · simp only [List.mem_cons, List.not_mem_nil, or_false] at h
        rcases h with rfl | rfl | rfl <;> exact hlt (by omega)
      · simp only [List.mem_cons, List.not_mem_nil, or_false] at h
        rcases h with rfl | rfl | rfl | rfl <;> exact hlt (by omega)

/-- The character of a byte below `0x80`. -/
theorem encodeChar_ofNat {b : UInt8} (hb : b < 0x80) :
    String.utf8EncodeChar (Char.ofNat b.toNat) = [b] := by
  have hb : b.toNat < 128 := UInt8.lt_iff_toNat_lt.mp hb
  have hc : (Char.ofNat b.toNat).toNat = b.toNat :=
    toNat_of_ofCodePoint (if_pos (.inl (by omega)))
  rcases encodeChar_cases (Char.ofNat b.toNat) with ⟨-, henc⟩ | ⟨hle, -⟩
  · rw [henc, hc, UInt8.ofNat_toNat]
  · omega

/-- A byte below `0x80` is a character of its own. -/
theorem mem_flatMap_encodeChar_iff {b : UInt8} (hb : b < 0x80) {cs : List Char} :
    b ∈ cs.flatMap String.utf8EncodeChar ↔ Char.ofNat b.toNat ∈ cs := by
  rw [List.mem_flatMap]
  constructor
  · rintro ⟨c, hc, hmem⟩
    rcases encodeChar_cases c with ⟨hlt, henc⟩ | ⟨-, hge⟩
    · rw [henc, List.mem_singleton] at hmem
      rwa [hmem, toNat_ofNat_of_lt (by omega), Char.ofNat_toNat]
    · exact absurd (hge b hmem) (by rw [UInt8.not_le]; exact hb)
  · intro hmem
    exact ⟨_, hmem, by rw [encodeChar_ofNat hb]; exact List.mem_singleton_self b⟩

/-- **Bytes are decoded on either side** of a byte below `0x80`. -/
theorem utf8_append_cons_iff {a rest : List UInt8} {b : UInt8} (hb : b < 0x80) {cs : List Char} :
    utf8 (a ++ b :: rest) = .ok cs ↔
      ∃ x y, utf8 a = .ok x ∧ utf8 rest = .ok y ∧ cs = x ++ Char.ofNat b.toNat :: y := by
  simp only [utf8_eq_ok_iff]
  constructor
  · intro h
    induction cs generalizing a with
    | nil => simp at h
    | cons c cs ih =>
      rw [List.flatMap_cons] at h
      rcases List.append_eq_append_iff.mp h with ⟨z, henc, hz⟩ | ⟨z, rfl, hz⟩
      · rcases z with _ | ⟨d, z⟩
        · -- the character ends where the byte stands
          rw [List.append_nil] at henc
          obtain ⟨x, y, hx, hy, rfl⟩ := ih (a := []) (by simpa using hz)
          exact ⟨c :: x, y, by rw [List.flatMap_cons, henc, ← hx, List.append_nil], hy, rfl⟩
        · -- the byte is one of the character, hence all of it
          obtain ⟨rfl, hz⟩ := List.cons.inj hz
          rcases encodeChar_cases c with ⟨hlt, hone⟩ | ⟨-, hge⟩
          · rw [hone] at henc
            rcases a with _ | ⟨e, a⟩
            · obtain ⟨rfl, rfl⟩ := List.cons.inj henc
              refine ⟨[], cs, rfl, by simpa using hz, ?_⟩
              rw [toNat_ofNat_of_lt (by omega), Char.ofNat_toNat, List.nil_append]
            · simp at henc
          · have hmem : b ∈ String.utf8EncodeChar c := by simp [henc]
            exact absurd (hge b hmem) (by rw [UInt8.not_le]; exact hb)
      · obtain ⟨x, y, hx, hy, rfl⟩ := ih hz.symm
        exact ⟨c :: x, y, by rw [List.flatMap_cons, hx], hy, rfl⟩
  · rintro ⟨x, y, rfl, rfl, rfl⟩
    rw [List.flatMap_append, List.flatMap_cons, encodeChar_ofNat hb, List.singleton_append]

end Codec
end LdmsTest
