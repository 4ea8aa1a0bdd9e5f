import LdmsTest.Ldms.LsRow

/-!
# `LdmsAddr`

An address of a stream's source is read from a text such as `[10.0.0.1]:411` or `[fe80::1]:411`, by
the pattern `ADDR_PORT`, and shown with `socket.inet_ntop`.

* `inetNtop`, `addrStr`, `fromStr`: an address as a text, and the text as an address.
* `EmbedsIPv4`: the IPv6 addresses that are shown with an IPv4 address at their end.
* `fromStr_addrStr_iff`: an address is read again unless it is one of these, since `ADDR_PORT` has
  no dots in an IPv6 address.

`inet_pton` is a parameter, of which nothing is asked but that it reads what `inet_ntop` writes.
-/

namespace LdmsTest
namespace LdmsAddr

open Regex Text
open Ls (isDecimal isDot isDecimal_of_isDigit isDecimal_dot)

/-- `socket.AF_INET` -/
def afInet : ℤ :=
  2

/-- `socket.AF_INET6` -/
def afInet6 : ℤ :=
  10

/-- `LdmsAddr` -/
structure Addr where
  family : ℤ
  port : ℤ
  addr : List UInt8
  deriving DecidableEq

/-- An address of either family, with a port. -/
structure Addr.Valid (a : Addr) : Prop where
  length_eq : a.family = afInet ∧ a.addr.length = 4 ∨ a.family = afInet6 ∧ a.addr.length = 16
  port_nonneg : 0 ≤ a.port
  port_le : a.port ≤ 65535

/-- `as_ipv6` -/
def Addr.asIpv6 (a : Addr) : Addr :=
  if a.family = 10 then a
  else ⟨10, a.port, List.replicate 10 0 ++ List.replicate 2 0xff ++ a.addr⟩

/-! ## `inet_ntop` -/

/-- The text of an IPv4 address. -/
def ntop4 (bs : List UInt8) : List Char :=
  ['.'].intercalate (bs.map fun b => Nat.toDigits 10 b.toNat)

theorem ntop4_eq (a b c d : UInt8) : ntop4 [a, b, c, d] =
    Nat.toDigits 10 a.toNat ++ '.' :: (Nat.toDigits 10 b.toNat ++ '.' ::
      (Nat.toDigits 10 c.toNat ++ '.' :: Nat.toDigits 10 d.toNat)) := by
  simp [ntop4, List.intercalate, List.intersperse]

/-- The words of an IPv6 address. -/
def words : List UInt8 → List ℕ
  | a :: b :: bs => (a.toNat * 256 + b.toNat) :: words bs
  | _ => []

/-- The longer of two runs, each with its base and its length, the first if they are equal. -/
def better (cur best : Option (ℕ × ℕ)) : Option (ℕ × ℕ) :=
  match cur, best with
  | none, best => best
  | some cur, none => some cur
  | some cur, some best => if best.2 < cur.2 then some cur else some best

/-- The search for the longest run of zero words, from word `i` on. -/
def runs : ℕ → Option (ℕ × ℕ) → Option (ℕ × ℕ) → List Bool → Option (ℕ × ℕ)
  | _, cur, best, [] => better cur best
  | i, cur, best, true :: zeros =>
    runs (i + 1) (some (cur.elim (i, 1) fun cur => (cur.1, cur.2 + 1))) best zeros
  | i, cur, best, false :: zeros => runs (i + 1) none (better cur best) zeros

/-- The longest run of zero words, if it has two at least. -/
def bestRun (zeros : List Bool) : Option (ℕ × ℕ) :=
  (runs 0 none none zeros).filter fun best => 2 ≤ best.2

/-- The words from word `i` on, with `::` for a run and with an IPv4 address in place of the last
two. -/
def pieces (best : Option (ℕ × ℕ)) (quad : Option (List Char)) : ℕ → List ℕ → List Char
  | _, [] => if ∃ run ∈ best, run.1 + run.2 = 8 then [':'] else []
  | i, w :: ws =>
    if ∃ run ∈ best, run.1 ≤ i ∧ i < run.1 + run.2 then
      (if ∃ run ∈ best, run.1 = i then [':'] else []) ++ pieces best quad (i + 1) ws
    else
      (if i ≠ 0 then [':'] else []) ++
        match i, quad with
        | 6, some quad => quad
        | i, _ => Nat.toDigits 16 w ++ pieces best quad (i + 1) ws

/-- The text of an IPv6 address. -/
def ntop6 (bs : List UInt8) : List Char :=
  let ws := words bs
  let best := bestRun (ws.map (· == 0))
  let quad :=
    if best = some (0, 6) ∨ best = some (0, 5) ∧ ws[5]? = some 0xffff then some (ntop4 (bs.drop 12))
    else none
  pieces best quad 0 ws

/-- `socket.inet_ntop(family, addr)` -/
def inetNtop (family : ℤ) (addr : List UInt8) : Except PyError (List Char) :=
  if family = afInet then
    if addr.length = 4 then pure (ntop4 addr)
    else throw ⟨.valueError, "invalid length of packed IP address string"⟩
  else if family = afInet6 then
    if addr.length = 16 then pure (ntop6 addr)
    else throw ⟨.valueError, "invalid length of packed IP address string"⟩
  else throw ⟨.valueError, "unknown address family " ++ toString family⟩

/-- `a.addr_str()`: a text, or the bytes of an address of another family -/
def addrStr (a : Addr) : Except PyError (List Char ⊕ List UInt8) :=
  if a.family = afInet ∨ a.family = afInet6 then do
    let s ← inetNtop a.family a.addr
    pure (.inl s)
  else pure (.inr a.addr)

/-! ## `from_str` -/

/-- The groups of `ADDR_PORT`. -/
inductive Group where
  | addr4
  | port4
  | addr6
  | port6
  | addr6a
  deriving DecidableEq

/-- `[0-9a-fA-F:]` -/
def isHexColon (c : Char) : Bool :=
  Numeral.isHexDigit c || c = ':'

section Pattern

variable (F : Type) [PyText F]

/-- `\d+\.\d+\.\d+.\d+` -/
def quad : Regex Group :=
  cat [plus (isDecimal F), lit ['.'], plus (isDecimal F), lit ['.'], plus (isDecimal F), cls isDot,
    plus (isDecimal F)]

/-- `(?:\:(?P<port>\d+))?` -/
def portOpt (g : Group) : Regex Group :=
  opt (cat [lit [':'], group g (plus (isDecimal F))])

/-- The first alternative of `ADDR_PORT`. -/
def alt4 : Regex Group :=
  cat [bol, opt (lit ['[']), group .addr4 (quad F), opt (lit [']']), portOpt F .port4, eol]

/-- The second alternative. -/
def alt6 : Regex Group :=
  cat [bol, lit ['['], group .addr6 (plus isHexColon), lit [']'], portOpt F .port6, eol]

/-- The third alternative. -/
def alt6a : Regex Group :=
  cat [bol, group .addr6a (plus isHexColon), eol]

/-- `ADDR_PORT` -/
def addrPort : Regex Group :=
  alt (alt4 F) (alt (alt6 F) alt6a)

/-- `int(s)` -/
def intOf (s : List Char) : Except PyError ℤ :=
  match Val.intSigned F (Val.strip F s) with
  | some n => pure n
  | none =>
    throw ⟨.valueError, "invalid literal for int() with base 10: " ++ Val.reprStr F (String.ofList s)⟩

/-- `LdmsAddr.from_str(s)`, with `socket.inet_pton` -/
def fromStr (pton : ℤ → List Char → Except PyError (List UInt8)) (s : List Char) :
    Except PyError Addr :=
  match matchCaps (addrPort F) s with
  | none => throw ⟨.valueError, "Cannot parse address/port: " ++ String.ofList s⟩
  | some m => do
    let port ←
      if captured m .port4 ≠ [] then intOf F (captured m .port4)
      else if captured m .port6 ≠ [] then intOf F (captured m .port6)
      else pure 0
    let v4 ←
      if captured m .addr4 ≠ [] then do
        let addr ← pton afInet (captured m .addr4)
        pure (some (afInet, addr))
      else pure none
    let a6 := if captured m .addr6 ≠ [] then captured m .addr6 else captured m .addr6a
    let v6 ←
      if a6 ≠ [] then do
        let addr ← pton afInet6 a6
        pure (some (afInet6, addr))
      else pure none
    match v6.or v4 with
    | some (family, addr) => pure ⟨family, port, addr⟩
    | none => throw ⟨.nameError,
        "cannot access local variable 'family' where it is not associated with a value"⟩

/-- `'[' + s + ']:' + str(port)` -/
def bracketed (s : List Char) (port : ℤ) : List Char :=
  '[' :: s ++ ']' :: ':' :: decimal port

end Pattern

/-! ## The text of an address -/

/-- **An IPv6 address that is shown with an IPv4 address at its end**: its first ten bytes are
zero, and the next two are 255, or zero before two that are not. -/
def EmbedsIPv4 (bs : List UInt8) : Prop :=
  bs.take 10 = List.replicate 10 0 ∧
    ((bs.drop 10).take 2 = [0xff, 0xff] ∨
      (bs.drop 10).take 2 = [0, 0] ∧ (bs.drop 12).take 2 ≠ [0, 0])

instance (bs : List UInt8) : Decidable (EmbedsIPv4 bs) :=
  inferInstanceAs (Decidable (_ ∧ _))

theorem bestRun_eq_six : ∀ z0 z1 z2 z3 z4 z5 z6 z7 : Bool,
    (bestRun [z0, z1, z2, z3, z4, z5, z6, z7] == some (0, 6)) =
      (z0 && z1 && z2 && z3 && z4 && z5 && !z6) := by
  decide

theorem bestRun_eq_five : ∀ z0 z1 z2 z3 z4 z5 z6 z7 : Bool,
    (bestRun [z0, z1, z2, z3, z4, z5, z6, z7] == some (0, 5)) =
      (z0 && z1 && z2 && z3 && z4 && !z5) := by
  decide

theorem exists_sixteen {bs : List UInt8} (h : bs.length = 16) :
    ∃ a0 b0 a1 b1 a2 b2 a3 b3 a4 b4 a5 b5 a6 b6 a7 b7,
      bs = [a0, b0, a1, b1, a2, b2, a3, b3, a4, b4, a5, b5, a6, b6, a7, b7] := by
  match bs, h with
  | [a0, b0, a1, b1, a2, b2, a3, b3, a4, b4, a5, b5, a6, b6, a7, b7], _ =>
    exact ⟨a0, b0, a1, b1, a2, b2, a3, b3, a4, b4, a5, b5, a6, b6, a7, b7, rfl⟩

theorem word_eq_zero_iff (a b : UInt8) : a.toNat * 256 + b.toNat = 0 ↔ a = 0 ∧ b = 0 := by
  rw [← UInt8.toNat_inj, ← UInt8.toNat_inj]
  change _ ↔ a.toNat = 0 ∧ b.toNat = 0
  omega

theorem word_eq_ffff_iff (a b : UInt8) :
    a.toNat * 256 + b.toNat = 0xffff ↔ a = 0xff ∧ b = 0xff := by
  have ha : a.toNat < 256 := a.toNat_lt
  have hb : b.toNat < 256 := b.toNat_lt
  rw [← UInt8.toNat_inj, ← UInt8.toNat_inj]
  change _ ↔ a.toNat = 255 ∧ b.toNat = 255
  omega

/-- Where `inet_ntop` shows an IPv4 address, by the bytes of the address. -/
theorem embedsIPv4_iff {bs : List UInt8} (h : bs.length = 16) :
    (bestRun ((words bs).map (· == 0)) = some (0, 6) ∨
      bestRun ((words bs).map (· == 0)) = some (0, 5) ∧ (words bs)[5]? = some 0xffff) ↔
      EmbedsIPv4 bs := by
  obtain ⟨a0, b0, a1, b1, a2, b2, a3, b3, a4, b4, a5, b5, a6, b6, a7, b7, rfl⟩ := exists_sixteen h
  simp only [words, List.map_cons, List.map_nil]
  rw [← beq_iff_eq (b := some (0, 6)), bestRun_eq_six, ← beq_iff_eq (b := some (0, 5)),
    bestRun_eq_five]
  simp only [Bool.and_eq_true, beq_iff_eq, Bool.not_eq_true', beq_eq_false_iff_ne, ne_eq,
    word_eq_zero_iff, List.getElem?_cons_succ, List.getElem?_cons_zero, Option.some_inj,
    word_eq_ffff_iff, EmbedsIPv4, List.take_succ_cons, List.take_zero, List.drop_succ_cons,
    List.drop_zero, List.replicate, List.cons_eq_cons, and_true]
  constructor
  · rintro (⟨⟨⟨⟨⟨⟨⟨rfl, rfl⟩, rfl, rfl⟩, rfl, rfl⟩, rfl, rfl⟩, rfl, rfl⟩, h5⟩, h6⟩ |
      ⟨⟨⟨⟨⟨⟨⟨rfl, rfl⟩, rfl, rfl⟩, rfl, rfl⟩, rfl, rfl⟩, rfl, rfl⟩, _⟩, h5⟩)
    · exact ⟨by decide, .inr ⟨h5, h6⟩⟩
    · exact ⟨by decide, .inl h5⟩
  · rintro ⟨⟨rfl, rfl, rfl, rfl, rfl, rfl, rfl, rfl, rfl, rfl⟩, h5 | ⟨h5, h6⟩⟩
    · refine .inr ⟨⟨by decide, ?_⟩, h5⟩
      obtain ⟨rfl, rfl⟩ := h5
      decide
    · exact .inl ⟨⟨by decide, h5⟩, h6⟩

theorem isHexColon_of_mem_toDigits {n : ℕ} {c : Char} (hc : c ∈ Nat.toDigits 16 n) :
    isHexColon c = true := by
  rw [isHexColon, Numeral.isHexDigit_of_mem_toDigits (by decide) (by decide) hc, Bool.true_or]

theorem pieces_none_cons (best : Option (ℕ × ℕ)) (i w : ℕ) (ws : List ℕ) :
    pieces best none i (w :: ws) =
      if ∃ run ∈ best, run.1 ≤ i ∧ i < run.1 + run.2 then
        (if ∃ run ∈ best, run.1 = i then [':'] else []) ++ pieces best none (i + 1) ws
      else (if i ≠ 0 then [':'] else []) ++
        (Nat.toDigits 16 w ++ pieces best none (i + 1) ws) := by
  rw [pieces]
  exact fun _ _ h => nomatch h

/-- Without an IPv4 address, the text has hexadecimal digits and colons only. -/
theorem isHexColon_of_mem_pieces {best : Option (ℕ × ℕ)} {i : ℕ} {ws : List ℕ} :
    ∀ c ∈ pieces best none i ws, isHexColon c = true := by
  have hcolon {p : Prop} [Decidable p] : ∀ c ∈ if p then [':'] else [], isHexColon c = true := by
    intro c hc
    split at hc
    · rw [List.mem_singleton.mp hc]
      decide
    · cases hc
  induction ws generalizing i with
  | nil =>
    rw [pieces]
    exact hcolon
  | cons w ws ih =>
    intro c hc
    rw [pieces_none_cons] at hc
    split at hc
    · exact (List.mem_append.mp hc).elim (hcolon c) (ih c)
    · rcases List.mem_append.mp hc with hc | hc
      · exact hcolon c hc
      · exact (List.mem_append.mp hc).elim isHexColon_of_mem_toDigits (ih c)

theorem pieces_ne_nil {best : Option (ℕ × ℕ)} {w : ℕ} {ws : List ℕ} :
    pieces best none 0 (w :: ws) ≠ [] := by
  rw [pieces_none_cons]
  split
  · next hrun =>
    obtain ⟨run, hmem, hle, _⟩ := hrun
    rw [if_pos ⟨run, hmem, Nat.le_zero.mp hle⟩]
    exact List.cons_ne_nil _ _
  · exact List.append_ne_nil_of_right_ne_nil _
      (List.append_ne_nil_of_left_ne_nil Nat.toDigits_ne_nil _)

/-- **The text of an IPv6 address has hexadecimal digits and colons only**, if it does not show an
IPv4 address. -/
theorem ntop6_of_not_embeds {bs : List UInt8} (hlen : bs.length = 16) (h : ¬ EmbedsIPv4 bs) :
    ntop6 bs ≠ [] ∧ ∀ c ∈ ntop6 bs, isHexColon c = true := by
  have hntop : ntop6 bs = pieces (bestRun ((words bs).map (· == 0))) none 0 (words bs) := by
    rw [ntop6, if_neg ((embedsIPv4_iff hlen).not.mpr h)]
  rw [hntop]
  refine ⟨?_, isHexColon_of_mem_pieces⟩
  obtain ⟨a0, b0, a1, b1, a2, b2, a3, b3, a4, b4, a5, b5, a6, b6, a7, b7, rfl⟩ := exists_sixteen hlen
  rw [words]
  exact pieces_ne_nil

/-- **The text of an IPv6 address that shows an IPv4 address** has a dot behind hexadecimal digits
and colons, of which a colon is the first. -/
theorem ntop6_of_embeds {bs : List UInt8} (hlen : bs.length = 16) (h : EmbedsIPv4 bs) :
    ∃ front rest, ntop6 bs = ':' :: front ++ '.' :: rest ∧ ∀ c ∈ front, isHexColon c = true := by
  have hquad := (embedsIPv4_iff hlen).mpr h
  obtain ⟨a0, b0, a1, b1, a2, b2, a3, b3, a4, b4, a5, b5, a6, b6, a7, b7, rfl⟩ := exists_sixteen hlen
  have hntop4 : ntop4 [a6, b6, a7, b7] = Nat.toDigits 10 a6.toNat ++ '.' ::
      (Nat.toDigits 10 b6.toNat ++ '.' :: (Nat.toDigits 10 a7.toNat ++ '.' ::
        Nat.toDigits 10 b7.toNat)) := ntop4_eq a6 b6 a7 b7
  generalize Nat.toDigits 10 b6.toNat ++ '.' :: (Nat.toDigits 10 a7.toNat ++ '.' ::
    Nat.toDigits 10 b7.toNat) = rest at hntop4
  have hfront : ∀ c ∈ Nat.toDigits 10 a6.toNat, isHexColon c = true := fun c hc => by
    rw [isHexColon, Numeral.isHexDigit, isDigit_of_mem_toDigits hc]
    rfl
  rw [ntop6, if_pos hquad]
  rcases hquad with hbest | ⟨hbest, h5⟩
  · rw [hbest]
    refine ⟨':' :: Nat.toDigits 10 a6.toNat, rest, ?_, ?_⟩
    · exact congrArg (fun text => ':' :: ':' :: text) hntop4
    · exact List.forall_mem_cons.mpr ⟨by decide, hfront⟩
  · rw [hbest]
    have h5 : a5.toNat * 256 + b5.toNat = 0xffff := Option.some_inj.mp h5
    refine ⟨':' :: (Nat.toDigits 16 0xffff ++ ':' :: Nat.toDigits 10 a6.toNat), rest, ?_, ?_⟩
    · have hpieces : pieces (some (0, 5)) (some (ntop4 [a6, b6, a7, b7])) 0
          (words [a0, b0, a1, b1, a2, b2, a3, b3, a4, b4, a5, b5, a6, b6, a7, b7]) =
          ':' :: ':' :: (Nat.toDigits 16 (a5.toNat * 256 + b5.toNat) ++ ':' ::
            ntop4 [a6, b6, a7, b7]) := rfl
      refine hpieces.trans ?_
      rw [h5, hntop4]
      simp
    · refine List.forall_mem_cons.mpr ⟨by decide, fun c hc => ?_⟩
      rcases List.mem_append.mp hc with hc | hc
      · exact isHexColon_of_mem_toDigits hc
      · rcases List.mem_cons.mp hc with rfl | hc
        · decide
        · exact hfront c hc

/-! ## The match of an address -/

section Match

variable {F : Type} [PyText F]

/-- The captures of a match. -/
abbrev Caps :=
  List (Group × List Char)

theorem isDecimal_eq_false {c : Char} (hlt : c.toNat < 128) (hc : c.isDigit = false) :
    isDecimal F c = false := by
  rw [isDecimal, PyText.decimal_ascii c hlt, hc]
  rfl

theorem first_char (c : Char) (k : Regex.Cursor Group → Option Caps) (start : Bool) (rest : List Char)
    (caps : Caps) : first (lit [c]) k ⟨start, c :: rest, caps⟩ = k ⟨false, rest, caps⟩ := by
  simp [lit, cat, first]

/-- No number of an IPv4 address is read where no dot follows digits. -/
theorem first_quad_eq_none {k : Regex.Cursor Group → Option Caps} {start : Bool} {text : List Char}
    {caps : Caps} (h : ∀ x y, text = x ++ y → x ≠ [] → (∀ c ∈ x, isDecimal F c) →
      Stops (fun c => c = '.') y) : first (quad F) k ⟨start, text, caps⟩ = none := by
  rw [quad, first_cat_cons]
  exact first_plus_eq_none (needs_cat needs_lit _ k) h

/-- **An IPv6 address is no IPv4 address**: behind the bracket, no dot follows digits. -/
theorem matchCaps_alt4_eq_none {text : List Char}
    (h : ∀ x y, text = x ++ y → x ≠ [] → (∀ c ∈ x, isDecimal F c) →
      Stops (fun c => c = '.') y) : matchCaps (alt4 F) ('[' :: text) = none := by
  have hbracket : ∀ x y, '[' :: text = x ++ y → x ≠ [] → (∀ c ∈ x, isDecimal F c) →
      Stops (fun c => c = '.') y := by
    intro x y hxy hne hx
    obtain ⟨c, x, rfl⟩ := List.exists_cons_of_ne_nil hne
    obtain rfl : '[' = c := (List.cons.inj hxy).1
    have hfalse : isDecimal F '[' = false := isDecimal_eq_false (by decide) (by decide)
    rw [hx '[' List.mem_cons_self] at hfalse
    cases hfalse
  rw [matchCaps, alt4, first_cat_cons, first, if_pos rfl, first_cat_cons, first_opt, first_char,
    first_cat_cons, first, first_quad_eq_none h, Option.none_or, first, first_quad_eq_none hbracket]

/-- The end of a match: a port, and the end of the text. -/
theorem first_portOpt (g : Group) {port : List Char} (hne : port ≠ [])
    (hport : ∀ c ∈ port, isDecimal F c) (start : Bool) (caps : Caps) :
    first (cat [portOpt F g, eol]) (fun st => some st.caps) ⟨start, ':' :: port, caps⟩ =
      some ((g, port) :: caps) := by
  have hgroup : first (group g (plus (isDecimal F)))
      (first (cat [eol]) fun st : Regex.Cursor Group => some st.caps) ⟨false, port ++ [], caps⟩ =
        some ((g, port) :: caps) :=
    first_group_plus_of_some hport hne (stops_nil _) rfl
  rw [List.append_nil] at hgroup
  rw [first_cat_cons, portOpt, first_opt, first_cat_cons, first_cat_cons, first_cat_nil, first_char,
    hgroup, Option.some_or]

/-- The alternative of an IPv6 address up to the bracket at its end, in front of which the text is
cut where no hexadecimal digit and no colon follows. -/
theorem matchCaps_alt6 {front rest : List Char} (hne : front ≠ [])
    (hfront : ∀ c ∈ front, isHexColon c) (hrest : Stops isHexColon rest) :
    matchCaps (alt6 F) ('[' :: (front ++ rest)) =
      first (cat [lit [']'], portOpt F .port6, eol]) (fun st => some st.caps)
        ⟨false, rest, [(.addr6, front)]⟩ := by
  have hnot : ∀ c ∈ front, decide (c = ']') = false := by
    intro c hc
    rw [decide_eq_false_iff_not]
    rintro rfl
    exact absurd (hfront _ hc) (by decide)
  rw [matchCaps, alt6, first_cat_cons, first, if_pos rfl, first_cat_cons, first_char, first_cat_cons,
    first_group_plus_eq hfront hne hrest (needs_cat needs_lit _ _) hnot]

theorem matchCaps_alt6a_eq_none (text : List Char) :
    matchCaps alt6a ('[' :: text) = (none : Option Caps) := by
  have hclass : isHexColon '[' = false := by decide
  simp [matchCaps, alt6a, cat, first, plus, hclass]

theorem isDecimal_of_mem_decimal {n : ℤ} (hn : 0 ≤ n) : ∀ c ∈ decimal n, isDecimal F c := by
  intro c hc
  rw [decimal, if_neg (not_lt.mpr hn)] at hc
  exact isDecimal_of_isDigit (isDigit_of_mem_toDigits hc)

/-- **An IPv6 address without a dot is read**, with its port. -/
theorem matchCaps_hexColon {s : List Char} (hne : s ≠ []) (hs : ∀ c ∈ s, isHexColon c) {port : ℤ}
    (hport : 0 ≤ port) :
    matchCaps (addrPort F) (bracketed s port) = some [(.port6, decimal port), (.addr6, s)] := by
  have hnone : matchCaps (alt4 F) (bracketed s port) = none := by
    refine matchCaps_alt4_eq_none fun x y hxy _ _ c cs hy => decide_eq_false ?_
    -- no character of the text is a dot
    rintro rfl
    have htext : s ++ ']' :: ':' :: decimal port = x ++ y := hxy
    have hdot : '.' ∈ s ++ ']' :: ':' :: decimal port := by
      rw [htext, hy]
      exact List.mem_append_right _ List.mem_cons_self
    rcases List.mem_append.mp hdot with hmem | hmem
    · exact absurd (hs _ hmem) (by decide)
    · rcases List.mem_cons.mp hmem with heq | hmem
      · exact absurd heq (by decide)
      · rcases List.mem_cons.mp hmem with heq | hmem
        · exact absurd heq (by decide)
        · have hdecimal := isDecimal_of_mem_decimal (F := F) hport _ hmem
          rw [isDecimal_dot] at hdecimal
          cases hdecimal
  have hmatch : matchCaps (alt6 F) (bracketed s port) =
      some [(.port6, decimal port), (.addr6, s)] := by
    refine (matchCaps_alt6 hne hs (stops_cons (by decide) _)).trans ?_
    rw [first_cat_cons, first_char,
      first_portOpt .port6 (decimal_ne_nil port) (isDecimal_of_mem_decimal hport)]
  rw [addrPort, matchCaps_alt, hnone, Option.none_or, matchCaps_alt, hmatch, Option.some_or]

/-- **An IPv6 address with a dot is not read**: the pattern has no dot in it. -/
theorem matchCaps_dotted {front rest : List Char} (hfront : ∀ c ∈ front, isHexColon c) (port : ℤ) :
    matchCaps (addrPort F) (bracketed (':' :: front ++ '.' :: rest) port) = none := by
  have hnone : matchCaps (alt4 F) (bracketed (':' :: front ++ '.' :: rest) port) = none := by
    refine matchCaps_alt4_eq_none fun x y hxy hne hx => ?_
    -- what follows the bracket is a colon
    obtain ⟨c, x, rfl⟩ := List.exists_cons_of_ne_nil hne
    obtain rfl : ':' = c := (List.cons.inj hxy).1
    have hfalse : isDecimal F ':' = false := isDecimal_eq_false (by decide) (by decide)
    rw [hx ':' List.mem_cons_self] at hfalse
    cases hfalse
  have hmatch : matchCaps (alt6 F) (bracketed (':' :: front ++ '.' :: rest) port) = none := by
    have hcolon : ∀ c ∈ ':' :: front, isHexColon c :=
      List.forall_mem_cons.mpr ⟨by decide, hfront⟩
    have hstop : Stops isHexColon ('.' :: (rest ++ ']' :: ':' :: decimal port)) :=
      stops_cons (by decide) _
    have htext : bracketed (':' :: front ++ '.' :: rest) port =
        '[' :: ((':' :: front) ++ '.' :: (rest ++ ']' :: ':' :: decimal port)) := by
      simp [bracketed]
    rw [htext, matchCaps_alt6 (List.cons_ne_nil _ _) hcolon hstop]
    exact needs_cat needs_lit _ _ _ (stops_cons (by decide) _)
  have hlast : matchCaps alt6a (bracketed (':' :: front ++ '.' :: rest) port) = none :=
    matchCaps_alt6a_eq_none _
  rw [addrPort, matchCaps_alt, hnone, Option.none_or, matchCaps_alt, hmatch, Option.none_or, hlast]

/-- A number, and the dot or the character for one behind it. -/
theorem first_number {digits rest : List Char} (hne : digits ≠ [])
    (hdigits : ∀ c ∈ digits, isDecimal F c) {k : Regex.Cursor Group → Option Caps} {caps r : Caps}
    (start : Bool) (hk : k ⟨false, '.' :: rest, caps⟩ = some r) :
    first (plus (isDecimal F)) k ⟨start, digits ++ '.' :: rest, caps⟩ = some r :=
  first_plus_of_some hdigits hne (stops_cons isDecimal_dot _) hk

/-- **The text of an IPv4 address is read as one.** -/
theorem first_quad {a b c d : UInt8} {rest : List Char} (hrest : Stops (isDecimal F) rest)
    {k : Regex.Cursor Group → Option Caps} {caps r : Caps} (start : Bool)
    (hk : k ⟨false, rest, caps⟩ = some r) :
    first (quad F) k ⟨start, ntop4 [a, b, c, d] ++ rest, caps⟩ = some r := by
  have hdigits (n : ℕ) : ∀ c ∈ Nat.toDigits 10 n, isDecimal F c := fun c hc =>
    isDecimal_of_isDigit (isDigit_of_mem_toDigits hc)
  have hlast : first (plus (isDecimal F)) k ⟨false, Nat.toDigits 10 d.toNat ++ rest, caps⟩ = some r :=
    first_plus_of_some (hdigits _) Nat.toDigits_ne_nil hrest hk
  rw [ntop4_eq]
  simp only [List.append_assoc, List.cons_append]
  rw [quad, first_cat_cons]
  refine first_number Nat.toDigits_ne_nil (hdigits _) start ?_
  change first (cat [plus (isDecimal F), lit ['.'], plus (isDecimal F), cls isDot,
    plus (isDecimal F)]) k ⟨false, _, caps⟩ = some r
  rw [first_cat_cons]
  refine first_number Nat.toDigits_ne_nil (hdigits _) false ?_
  change first (cat [plus (isDecimal F), cls isDot, plus (isDecimal F)]) k ⟨false, _, caps⟩ = some r
  rw [first_cat_cons]
  exact first_number Nat.toDigits_ne_nil (hdigits _) false hlast

/-- **An IPv4 address is read**, with its port. -/
theorem matchCaps_ntop4 {a b c d : UInt8} {port : ℤ} (hport : 0 ≤ port) :
    matchCaps (addrPort F) (bracketed (ntop4 [a, b, c, d]) port) =
      some [(.port4, decimal port), (.addr4, ntop4 [a, b, c, d])] := by
  have hport4 := first_portOpt (F := F) .port4 (decimal_ne_nil port) (isDecimal_of_mem_decimal hport)
    false [(.addr4, ntop4 [a, b, c, d])]
  have hbracket : first (cat [opt (lit [']']), portOpt F .port4, eol]) (fun st => some st.caps)
      ⟨false, ']' :: ':' :: decimal port, [(.addr4, ntop4 [a, b, c, d])]⟩ =
      some [(.port4, decimal port), (.addr4, ntop4 [a, b, c, d])] := by
    rw [first_cat_cons, first_opt, first_char, hport4, Option.some_or]
  have hgroup : first (group .addr4 (quad F))
      (first (cat [opt (lit [']']), portOpt F .port4, eol]) fun st => some st.caps)
      ⟨false, ntop4 [a, b, c, d] ++ ']' :: ':' :: decimal port, []⟩ =
      some [(.port4, decimal port), (.addr4, ntop4 [a, b, c, d])] := by
    rw [first]
    refine first_quad (stops_cons (isDecimal_eq_false (by decide) (by decide)) _) false ?_
    rwa [Regex.Cursor.capture_append]
  have hmatch : matchCaps (alt4 F) (bracketed (ntop4 [a, b, c, d]) port) =
      some [(.port4, decimal port), (.addr4, ntop4 [a, b, c, d])] := by
    rw [matchCaps, alt4, first_cat_cons, first, if_pos rfl, first_cat_cons, first_opt, bracketed,
      List.cons_append, first_char, first_cat_cons, hgroup, Option.some_or]
  rw [addrPort, matchCaps_alt, hmatch, Option.some_or]

end Match

/-! ## Reading an address again -/

section RoundTrip

variable {F : Type} [PyText F] {pton : ℤ → List Char → Except PyError (List UInt8)}

theorem intOf_decimal (n : ℤ) : intOf F (decimal n) = .ok n := by
  rw [intOf, intSigned_decimal]
  rfl

theorem fromStr_ntop4 {a b c d : UInt8} {port : ℤ} (hport : 0 ≤ port)
    (hpton : pton afInet (ntop4 [a, b, c, d]) = .ok [a, b, c, d]) :
    fromStr F pton (bracketed (ntop4 [a, b, c, d]) port) = .ok ⟨afInet, port, [a, b, c, d]⟩ := by
  have hne : ntop4 [a, b, c, d] ≠ [] := by
    rw [ntop4_eq]
    exact List.append_ne_nil_of_left_ne_nil Nat.toDigits_ne_nil _
  rw [fromStr, matchCaps_ntop4 hport]
  simp [captured_cons_of_ne, decimal_ne_nil, intOf_decimal, hne, hpton, ok_bind, pure, Except.pure]

theorem fromStr_hexColon {s : List Char} (hne : s ≠ []) (hs : ∀ c ∈ s, isHexColon c) {port : ℤ}
    (hport : 0 ≤ port) {bs : List UInt8} (hpton : pton afInet6 s = .ok bs) :
    fromStr F pton (bracketed s port) = .ok ⟨afInet6, port, bs⟩ := by
  rw [fromStr, matchCaps_hexColon hne hs hport]
  simp [captured_cons_of_ne, decimal_ne_nil, intOf_decimal, hne, hpton, ok_bind, pure, Except.pure]

theorem fromStr_of_embeds {bs : List UInt8} (hlen : bs.length = 16) (h : EmbedsIPv4 bs) (port : ℤ) :
    ∃ e, fromStr F pton (bracketed (ntop6 bs) port) = .error e := by
  obtain ⟨front, rest, hntop, hfront⟩ := ntop6_of_embeds hlen h
  rw [hntop]
  exact ⟨_, by rw [fromStr, matchCaps_dotted hfront]; rfl⟩

/-- **An address is read again** from its text with its port. -/
def ReadAgain (F : Type) [PyText F] (pton : ℤ → List Char → Except PyError (List UInt8))
    (a : Addr) : Prop :=
  ∃ s, addrStr a = .ok (.inl s) ∧ fromStr F pton (bracketed s a.port) = .ok a

theorem afInet6_ne_afInet : afInet6 ≠ afInet := by
  decide

theorem addrStr_of_length_four {port : ℤ} {bs : List UInt8} (h : bs.length = 4) :
    addrStr ⟨afInet, port, bs⟩ = .ok (.inl (ntop4 bs)) := by
  rw [addrStr, if_pos (.inl rfl), inetNtop, if_pos rfl, if_pos h]
  rfl

theorem addrStr_of_length_sixteen {port : ℤ} {bs : List UInt8} (h : bs.length = 16) :
    addrStr ⟨afInet6, port, bs⟩ = .ok (.inl (ntop6 bs)) := by
  rw [addrStr, if_pos (.inr rfl), inetNtop, if_neg afInet6_ne_afInet, if_pos rfl, if_pos h]
  rfl

theorem readAgain_iff {a : Addr} (ha : a.Valid)
    (hpton : ∀ s, inetNtop a.family a.addr = .ok s → pton a.family s = .ok a.addr) :
    ReadAgain F pton a ↔ ¬ (a.family = afInet6 ∧ EmbedsIPv4 a.addr) := by
  obtain ⟨family, port, bs⟩ := a
  obtain ⟨⟨rfl, hlen⟩ | ⟨rfl, hlen⟩, hport, _⟩ := ha
  · refine ⟨fun _ h => absurd h.1 afInet6_ne_afInet.symm, fun _ => ⟨_, addrStr_of_length_four hlen, ?_⟩⟩
    match bs, hlen with
    | [a, b, c, d], _ => exact fromStr_ntop4 hport (hpton _ rfl)
  · refine ⟨?_, fun h => ⟨_, addrStr_of_length_sixteen hlen, ?_⟩⟩
    · rintro ⟨s, hs, hread⟩ ⟨_, hembeds⟩
      rw [addrStr_of_length_sixteen hlen] at hs
      cases hs
      obtain ⟨e, he⟩ : ∃ e, fromStr F pton (bracketed (ntop6 bs) port) = .error e :=
        fromStr_of_embeds hlen hembeds port
      rw [he] at hread
      cases hread
    · have hembeds : ¬ EmbedsIPv4 bs := fun hembeds => h ⟨rfl, hembeds⟩
      obtain ⟨hne, hs⟩ := ntop6_of_not_embeds hlen hembeds
      refine fromStr_hexColon hne hs hport (hpton _ ?_)
      rw [inetNtop, if_neg afInet6_ne_afInet, if_pos rfl, if_pos hlen]
      rfl

/-- **An address is read again** exactly if it is no IPv6 address that is shown with an IPv4 address
at its end.  The addresses that `as_ipv6` makes of IPv4 addresses are none that is. -/
theorem fromStr_addrStr_iff (F : Type) [PyText F]
    (pton : ℤ → List Char → Except PyError (List UInt8)) (a : Addr) (ha : a.Valid)
    (hpton : ∀ s, inetNtop a.family a.addr = .ok s → pton a.family s = .ok a.addr) :
    ReadAgain F pton a ↔ ¬ (a.family = afInet6 ∧ EmbedsIPv4 a.addr) :=
  readAgain_iff ha hpton

/-- `::1` with the port 411, and an `inet_pton` that knows its text. -/
theorem fromStr_addrStr_loopback :
    ReadAgain PEmpty (fun _ _ => .ok (List.replicate 15 0 ++ [1]))
      ⟨afInet6, 411, List.replicate 15 0 ++ [1]⟩ :=
  (fromStr_addrStr_iff PEmpty _ _ ⟨.inr ⟨rfl, rfl⟩, by decide, by decide⟩ fun _ _ => rfl).mpr
    fun h => absurd h.2 (by decide)

/-- **What `as_ipv6` makes of `10.0.0.1` is not read again.** -/
theorem not_readAgain_mapped :
    ¬ ReadAgain PEmpty (fun _ _ => .ok (List.replicate 10 0 ++ [0xff, 0xff, 10, 0, 0, 1]))
      (Addr.asIpv6 ⟨afInet, 411, [10, 0, 0, 1]⟩) := by
  rw [readAgain_iff ⟨.inr ⟨rfl, rfl⟩, by decide, by decide⟩ fun _ _ => rfl, not_not]
  exact ⟨rfl, by decide⟩

end RoundTrip

end LdmsAddr
end LdmsTest
