import LdmsTest.Foundation.Fuelled
import Mathlib.Tactic.Ring

/-!
# The growing buffer of the C tests

`ldms_test_buf_append` formats into the free part of a block of memory.  When the text does not
fit, what was written is cut off, the block is made larger by the length that `vsnprintf`
returned, and the text is formatted once more.

Memory is a list of bytes.  Writing outside of a block and using a block that was freed are
faults.  What the allocator puts into a new block is not determined, and neither is when it fails.
The loop of `append` has fuel.

* `vsnprintf`, `ldmsTestBufAlloc`, `ldmsTestBufRealloc`, `ldmsTestBufAppend`,
  `ldmsTestBufReset`: the functions of the source.
* `Filled`, `Holds`: what the block of a buffer starts with.
* `append_spec`: one call, with the only retry there is.
* `runCalls_holds`: any sequence of calls.
-/

namespace LdmsTest
namespace CBuf

/-! ## Memory and sizes -/

/-- An access that the language leaves undefined. -/
inductive Fault where
  | outOfBounds
  | freed

/-- The value of a `size_t`. -/
def sizeT (n : ℤ) : ℕ := (n % 2 ^ 64).toNat

/-- `INT_MAX` -/
def intMax : ℕ := 2 ^ 31 - 1

theorem sizeT_natCast {n : ℕ} (h : n < 2 ^ 64) : sizeT n = n := by
  unfold sizeT
  omega

theorem sizeT_sub {len off : ℕ} (hoff : off ≤ len) (hlen : len < 2 ^ 64) :
    sizeT (len - off) = len - off := by
  unfold sizeT
  omega

/-- Bytes are put at a place of a block. -/
def store (mem : List UInt8) (i : ℕ) (bytes : List UInt8) : Except Fault (List UInt8) :=
  if i + bytes.length ≤ mem.length then
    .ok (mem.take i ++ bytes ++ mem.drop (i + bytes.length))
  else .error .outOfBounds

theorem store_ok {mem : List UInt8} {i : ℕ} {bytes : List UInt8}
    (h : i + bytes.length ≤ mem.length) :
    store mem i bytes = .ok (mem.take i ++ (bytes ++ mem.drop (i + bytes.length))) := by
  rw [store, if_pos h, List.append_assoc]

/-- The allocator of the C library, with a state of its own. -/
structure Allocator (W : Type) where
  /-- `calloc` for the record of a buffer: it may fail -/
  calloc : W → Bool × W
  malloc : ℕ → W → Option (List UInt8) × W
  realloc : List UInt8 → ℕ → W → Option (List UInt8) × W
  free : W → W
  length_malloc : ∀ {n w mem}, (malloc n w).1 = some mem → mem.length = n
  length_realloc : ∀ {old n w mem}, (realloc old n w).1 = some mem → mem.length = n
  /-- A block that grows keeps its bytes. -/
  take_realloc : ∀ {old n w mem}, (realloc old n w).1 = some mem → old.length ≤ n →
    mem.take old.length = old

/-- No allocation fails. -/
structure Allocator.Supplies {W : Type} (C : Allocator W) : Prop where
  calloc : ∀ w, (C.calloc w).1 = true
  malloc : ∀ n w, ∃ mem, (C.malloc n w).1 = some mem
  realloc : ∀ old n w, ∃ mem, (C.realloc old n w).1 = some mem

/-- `vsnprintf(&mem[i], n, fmt, ap)`, where `fmt` is the text that the format and its arguments
make, or `none` where they make none. -/
def vsnprintf (mem : List UInt8) (i n : ℕ) (fmt : Option (List UInt8)) :
    Except Fault (List UInt8 × ℤ) := do
  match fmt with
  | none => pure (mem, -1)
  | some text =>
    let mem ← if n = 0 then pure mem else store mem i (text.take (n - 1) ++ [0])
    pure (mem, if text.length ≤ intMax then text.length else -1)

/-! ## The buffer -/

structure LdmsTestBuf where
  buf : List UInt8
  len : ℕ
  off : ℕ

section Functions

variable {W : Type} (C : Allocator W)

def ldmsTestBufAlloc (len : ℕ) (w : W) : Except Fault (Option LdmsTestBuf × W) := do
  match C.calloc w with
  | (false, w) => pure (none, w)
  | (true, w) =>
    match C.malloc len w with
    | (none, w) => pure (none, C.free w)
    | (some mem, w) =>
      let mem ← store mem 0 [0]
      pure (some { buf := mem, len := len, off := 0 }, w)

/-- The buffer is freed when there is no memory for it. -/
def ldmsTestBufRealloc (buf : LdmsTestBuf) (newLen : ℕ) (w : W) : Option LdmsTestBuf × W :=
  match C.realloc buf.buf newLen w with
  | (none, w) => (none, C.free (C.free w))
  | (some mem, w) => (some { buf with buf := mem, len := newLen }, w)

def ENOMEM : ℕ := 12

/-- The result, and the buffer unless it was freed. -/
def ldmsTestBufAppend (fmt : Option (List UInt8)) :
    ℕ → LdmsTestBuf → W → Run Fault (ℕ × Option LdmsTestBuf × W)
  | 0, _, _ => Run.starved
  | fuel + 1, buf, w => do
    let (mem, r) ← Run.ofExcept (vsnprintf buf.buf buf.off (sizeT (buf.len - buf.off)) fmt)
    let cnt := sizeT r
    let buf := { buf with buf := mem }
    if cnt ≥ sizeT (buf.len - buf.off) then
      match ldmsTestBufRealloc C buf (sizeT (buf.len * 2 + cnt)) w with
      | (none, w) => pure (ENOMEM, none, w)
      | (some buf, w) => ldmsTestBufAppend fmt fuel buf w
    else
      pure (0, some { buf with off := sizeT (buf.off + cnt) }, w)

def ldmsTestBufReset (buf : LdmsTestBuf) : Except Fault LdmsTestBuf := do
  let mem ← store buf.buf 0 [0]
  pure { buf with buf := mem, off := 0 }

/-! ## Runs -/

inductive Call where
  | append (fmt : Option (List UInt8))
  | reset

/-- A call, with the buffer it leaves unless it was freed. -/
def call (fuel : ℕ) (buf : LdmsTestBuf) (w : W) : Call → Run Fault (Option LdmsTestBuf × W)
  | .append fmt => do
    let (_, buf, w) ← ldmsTestBufAppend C fmt fuel buf w
    pure (buf, w)
  | .reset => do
    let buf ← Run.ofExcept (ldmsTestBufReset buf)
    pure (some buf, w)

/-- Calls in a row, up to the first that finds no memory. -/
def callAll (fuel : ℕ) : List Call → Option LdmsTestBuf × W →
    Run Fault (Option LdmsTestBuf × W)
  | [], s => pure s
  | _ :: _, (none, w) => pure (none, w)
  | c :: calls, (some buf, w) => do
    let s ← call C fuel buf w c
    callAll fuel calls s

/-- A new buffer of size `len` and the calls on it. -/
def runCalls (len : ℕ) (calls : List Call) (w : W) (fuel : ℕ) :
    Run Fault (Option LdmsTestBuf × W) := do
  let s ← Run.ofExcept (ldmsTestBufAlloc C len w)
  callAll C fuel calls s

end Functions

/-! ## What the buffer is to hold -/

def Call.after (text : List UInt8) : Call → List UInt8
  | .append fmt => text ++ fmt.getD []
  | .reset => []

/-- The texts that were appended since the last reset. -/
def contents (calls : List Call) : List UInt8 :=
  calls.foldl Call.after []

/-- The size of the block that has room for `cnt` more bytes. -/
def grown (len off cnt : ℕ) : ℕ :=
  if cnt < len - off then len else len * 2 + cnt

/-- The formats make texts, and the sizes of the texts and of the block stay in their types. -/
def Fits : ℕ → ℕ → List Call → Prop
  | _, _, [] => True
  | len, off, .append fmt :: calls =>
    ∃ text, fmt = some text ∧ text.length ≤ intMax ∧ grown len off text.length < 2 ^ 64 ∧
      Fits (grown len off text.length) (off + text.length) calls
  | len, _, .reset :: calls => Fits len 0 calls

/-- The block starts with the text, and has room for one more byte. -/
structure Filled (buf : LdmsTestBuf) (text : List UInt8) : Prop where
  size : buf.buf.length = buf.len
  small : buf.len < 2 ^ 64
  off_eq : buf.off = text.length
  off_lt : buf.off < buf.len
  text_eq : buf.buf.take buf.off = text

/-- **What a buffer holds.**  The text and a NUL after it. -/
structure Holds (buf : LdmsTestBuf) (text : List UInt8) : Prop extends Filled buf text where
  nul : ∃ rest, buf.buf = text ++ 0 :: rest

/-- A block that starts with the text and a NUL. -/
theorem holds_of_eq {buf : LdmsTestBuf} {text rest : List UInt8}
    (hsize : buf.buf.length = buf.len) (hsmall : buf.len < 2 ^ 64)
    (hoff : buf.off = text.length) (hmem : buf.buf = text ++ 0 :: rest) : Holds buf text where
  size := hsize
  small := hsmall
  off_eq := hoff
  off_lt := by
    rw [← hsize, hmem, hoff, List.length_append, List.length_cons]
    omega
  text_eq := by rw [hmem, hoff, List.take_left]
  nul := ⟨rest, hmem⟩

/-! ## One call -/

section Calls

variable {W : Type} {C : Allocator W}

/-- **Formatting** behind a text: as much of the new text as there is room for, and a NUL. -/
theorem Filled.vsnprintf_eq {buf : LdmsTestBuf} {text new : List UInt8} (h : Filled buf text)
    (hnew : new.length ≤ intMax) :
    ∃ rest, vsnprintf buf.buf buf.off (buf.len - buf.off) (some new) =
        .ok (text ++ (new.take (buf.len - buf.off - 1) ++ 0 :: rest), new.length) ∧
      (text ++ (new.take (buf.len - buf.off - 1) ++ 0 :: rest)).length = buf.len := by
  have hlt := h.off_lt
  have hsize := h.size
  have hoff := h.off_eq
  have hn : buf.len - buf.off ≠ 0 := by omega
  have hroom : buf.off + (new.take (buf.len - buf.off - 1) ++ [0]).length ≤ buf.buf.length := by
    rw [List.length_append, List.length_take, List.length_singleton]
    omega
  refine ⟨buf.buf.drop (buf.off + (new.take (buf.len - buf.off - 1) ++ [0]).length), ?_, ?_⟩
  · simp only [vsnprintf, if_neg hn, store_ok hroom, h.text_eq, ok_bind,
      if_pos hnew, List.append_assoc, List.singleton_append]
    rfl
  · simp only [List.length_append, List.length_take, List.length_cons, List.length_drop,
      List.length_nil]
    omega

/-- A new buffer is empty. -/
theorem alloc_spec {len : ℕ} (hpos : 1 ≤ len) (hlen : len < 2 ^ 64) (w : W) :
    ∃ buf w', ldmsTestBufAlloc C len w = .ok (buf, w') ∧
      (C.Supplies → buf ≠ none) ∧ ∀ b ∈ buf, b.len = len ∧ Holds b [] := by
  unfold ldmsTestBufAlloc
  rcases hcalloc : C.calloc w with ⟨ok, w₁⟩
  cases ok with
  | false =>
    refine ⟨none, w₁, rfl, fun hC => ?_, nofun⟩
    have hok := hC.calloc w
    rw [hcalloc] at hok
    cases hok
  | true =>
    rcases hmalloc : C.malloc len w₁ with ⟨block, w₂⟩
    cases block with
    | none =>
      refine ⟨none, C.free w₂, by simp only [hmalloc]; rfl, fun hC => ?_, nofun⟩
      obtain ⟨mem, hmem⟩ := hC.malloc len w₁
      rw [hmalloc] at hmem
      cases hmem
    | some mem =>
      have hsize : mem.length = len := C.length_malloc (congrArg Prod.fst hmalloc)
      have hroom : 0 + [(0 : UInt8)].length ≤ mem.length := by
        rw [hsize]
        exact hpos
      simp only [hmalloc, store_ok hroom, ok_bind]
      refine ⟨_, w₂, rfl, fun _ => nofun, ?_⟩
      rintro b ⟨rfl⟩
      refine ⟨rfl, holds_of_eq ?_ hlen rfl rfl⟩
      simp only [List.length_append, List.length_take, List.length_drop, List.length_singleton]
      omega

/-- A buffer that was reset is empty. -/
theorem reset_spec {buf : LdmsTestBuf} {text : List UInt8} (h : Holds buf text) :
    ∃ b, ldmsTestBufReset buf = .ok b ∧ b.len = buf.len ∧ Holds b [] := by
  have hroom : 0 + [(0 : UInt8)].length ≤ buf.buf.length := by
    have hlt := h.off_lt
    have hsize := h.size
    simp only [List.length_singleton]
    omega
  have hsize := h.size
  simp only [ldmsTestBufReset, store_ok hroom, ok_bind]
  refine ⟨_, rfl, rfl, holds_of_eq ?_ h.small rfl rfl⟩
  simp only [List.length_append, List.length_take, List.length_drop, List.length_singleton] at *
  omega

/-- A block that was made larger starts with the same text. -/
theorem Filled.realloc_spec {buf : LdmsTestBuf} {text : List UInt8} (h : Filled buf text)
    {newLen : ℕ} (hle : buf.len ≤ newLen) (hsmall : newLen < 2 ^ 64) (w : W) :
    ∃ r w', ldmsTestBufRealloc C buf newLen w = (r, w') ∧ (C.Supplies → r ≠ none) ∧
      ∀ b ∈ r, b.len = newLen ∧ b.off = buf.off ∧ Filled b text := by
  unfold ldmsTestBufRealloc
  rcases hrealloc : C.realloc buf.buf newLen w with ⟨block, w₁⟩
  have hfst := congrArg Prod.fst hrealloc
  cases block with
  | none =>
    refine ⟨none, _, rfl, fun hC => ?_, nofun⟩
    obtain ⟨mem, hmem⟩ := hC.realloc buf.buf newLen w
    rw [hrealloc] at hmem
    cases hmem
  | some mem =>
    have hkeep := C.take_realloc hfst (h.size ▸ hle)
    refine ⟨_, w₁, rfl, fun _ => nofun, ?_⟩
    rintro b ⟨rfl⟩
    refine ⟨rfl, rfl, C.length_realloc hfst, hsmall, h.off_eq, h.off_lt.trans_le hle, ?_⟩
    change mem.take buf.off = text
    rw [← h.text_eq, ← hkeep, List.take_take, min_eq_left (h.size ▸ h.off_lt.le)]

/-- **A text that fits** is appended at once. -/
theorem Filled.append_fits {buf : LdmsTestBuf} {text new : List UInt8} (h : Filled buf text)
    (hnew : new.length ≤ intMax) (hfits : new.length < buf.len - buf.off) (w : W) :
    ∃ b, Returns (fun n => ldmsTestBufAppend C (some new) n buf w) (0, some b, w) ∧
      b.len = buf.len ∧ b.off = buf.off + new.length ∧ Holds b (text ++ new) := by
  have hlt := h.off_lt
  have hsmall := h.small
  obtain ⟨rest, hprint, hsize⟩ := h.vsnprintf_eq hnew
  rw [List.take_of_length_le (by omega)] at hprint hsize
  have hcnt : sizeT (new.length : ℤ) = new.length := sizeT_natCast (by omega)
  have hoff : sizeT ((buf.off : ℤ) + (new.length : ℤ)) = buf.off + new.length := by
    exact_mod_cast sizeT_natCast (n := buf.off + new.length) (by omega)
  refine ⟨{ buf with buf := text ++ (new ++ 0 :: rest), off := buf.off + new.length },
    Settles.of_succ rfl ?_, rfl, rfl, holds_of_eq hsize hsmall ?_ (List.append_assoc ..).symm⟩
  · simp only [ldmsTestBufAppend, hprint, hcnt, sizeT_sub hlt.le hsmall, ge_iff_le,
      Run.ofExcept_ok, pure_bind, if_neg (Nat.not_le.mpr hfits), hoff]
    exact returns_pure _
  · simp only [List.length_append, h.off_eq]

/-- **One append.**  At most once the block is made larger. -/
theorem Filled.append_spec {buf : LdmsTestBuf} {text new : List UInt8} (h : Filled buf text)
    (hnew : new.length ≤ intMax) (hgrown : grown buf.len buf.off new.length < 2 ^ 64) (w : W) :
    ∃ e r w', Returns (fun n => ldmsTestBufAppend C (some new) n buf w) (e, r, w') ∧
      (C.Supplies → r ≠ none) ∧ ∀ b ∈ r, b.len = grown buf.len buf.off new.length ∧
        b.off = buf.off + new.length ∧ Holds b (text ++ new) := by
  by_cases hfits : new.length < buf.len - buf.off
  · obtain ⟨b, hrun, hlen, hoff, hb⟩ := h.append_fits (C := C) hnew hfits w
    refine ⟨0, some b, w, hrun, fun _ => nofun, ?_⟩
    rintro b' ⟨rfl⟩
    rw [grown, if_pos hfits]
    exact ⟨hlen, hoff, hb⟩
  · rw [grown, if_neg hfits] at hgrown
    have hlt := h.off_lt
    have hsmall := h.small
    obtain ⟨rest, hprint, hsize⟩ := h.vsnprintf_eq hnew
    -- what was cut off is behind the text
    set buf₁ : LdmsTestBuf :=
      { buf with buf := text ++ (new.take (buf.len - buf.off - 1) ++ 0 :: rest) } with hbuf₁
    have hfilled : Filled buf₁ text := by
      refine ⟨hsize, hsmall, h.off_eq, hlt, ?_⟩
      change (text ++ _).take buf.off = text
      rw [h.off_eq, List.take_left]
    have hcnt : sizeT (new.length : ℤ) = new.length := sizeT_natCast (by omega)
    have hnewLen : sizeT ((buf.len : ℤ) * 2 + (new.length : ℤ)) = buf.len * 2 + new.length := by
      exact_mod_cast sizeT_natCast (n := buf.len * 2 + new.length) hgrown
    obtain ⟨r, w₁, hrealloc, hsupplies, hr⟩ :=
      hfilled.realloc_spec (C := C) (show buf.len ≤ buf.len * 2 + new.length by omega) hgrown w
    have hstep : ∀ n, ldmsTestBufAppend C (some new) (n + 1) buf w =
        match r with
        | none => pure (ENOMEM, none, w₁)
        | some b => ldmsTestBufAppend C (some new) n b w₁ := by
      intro n
      simp only [ldmsTestBufAppend, hprint, hcnt, sizeT_sub hlt.le hsmall, ge_iff_le,
        if_pos (Nat.not_lt.mp hfits), hnewLen, ← hbuf₁, Run.ofExcept_ok, pure_bind, hrealloc]
      cases r <;> rfl
    cases r with
    | none =>
      refine ⟨ENOMEM, none, w₁, Settles.of_succ rfl ?_, hsupplies, nofun⟩
      simp only [hstep]
      exact returns_pure _
    | some b₁ =>
      obtain ⟨hlen, hoff, hb₁⟩ := hr b₁ rfl
      have hroom : new.length < b₁.len - b₁.off := by
        rw [hlen, hoff]
        change new.length < _ - buf.off
        omega
      obtain ⟨b, hrun, hlen', hoff', hb⟩ := hb₁.append_fits (C := C) hnew hroom w₁
      refine ⟨0, some b, w₁, Settles.of_succ rfl ?_, fun _ => nofun, ?_⟩
      · simp only [hstep]
        exact hrun
      · rintro b' ⟨rfl⟩
        rw [grown, if_neg hfits]
        exact ⟨hlen'.trans hlen, hoff'.trans (congrArg (· + new.length) hoff), hb⟩

/-! ## Any sequence of calls -/

/-- The calls after a text. -/
theorem callAll_spec : ∀ {calls : List Call} {buf : LdmsTestBuf} {text : List UInt8},
    Holds buf text → Fits buf.len buf.off calls → ∀ w : W,
      ∃ r w', Returns (fun n => callAll C n calls (some buf, w)) (r, w') ∧
        (C.Supplies → r ≠ none) ∧ ∀ b ∈ r, Holds b (calls.foldl Call.after text)
  | [], buf, text, h, _, w => by
    refine ⟨some buf, w, returns_pure _, fun _ => nofun, ?_⟩
    rintro b ⟨rfl⟩
    exact h
  | .append fmt :: calls, buf, text, h, hfits, w => by
    obtain ⟨new, rfl, hnew, hgrown, hfits⟩ := hfits
    obtain ⟨e, r, w₁, hrun, hsupplies, hr⟩ := h.append_spec (C := C) hnew hgrown w
    have hcall : Returns (fun n => call C n buf w (.append (some new))) (r, w₁) :=
      hrun.bind (returns_pure _)
    cases r with
    | none =>
      refine ⟨none, w₁, hcall.bind ?_, hsupplies, nofun⟩
      cases calls <;> exact returns_pure _
    | some b₁ =>
      obtain ⟨hlen, hoff, hb₁⟩ := hr b₁ rfl
      rw [← hlen, ← hoff] at hfits
      obtain ⟨r, w₂, hrest, hr⟩ := callAll_spec hb₁ hfits w₁
      exact ⟨r, w₂, hcall.bind hrest, hr⟩
  | .reset :: calls, buf, text, h, hfits, w => by
    obtain ⟨b₁, hreset, hlen, hb₁⟩ := reset_spec h
    have hcall : Returns (fun n => call C n buf w .reset) (some b₁, w) := by
      simp only [call, hreset]
      exact (returns_ofExcept _).bind (returns_pure _)
    have hfits : Fits b₁.len b₁.off calls := by
      rw [hlen, hb₁.off_eq]
      exact hfits
    obtain ⟨r, w₂, hrest, hr⟩ := callAll_spec hb₁ hfits w
    exact ⟨r, w₂, hcall.bind hrest, hr⟩

/-- **Every run ends**, without a fault, and unless an allocation failed the buffer holds the
texts since the last reset. -/
theorem runCalls_holds (C : Allocator W) {len : ℕ} (hpos : 1 ≤ len) (hlen : len < 2 ^ 64)
    (calls : List Call) (hfits : Fits len 0 calls) (w : W) :
    ∃ r w', Returns (runCalls C len calls w) (r, w') ∧ (C.Supplies → r ≠ none) ∧
      ∀ buf ∈ r, buf.off < buf.len ∧ Holds buf (contents calls) := by
  obtain ⟨r, w₁, halloc, hsupplies, hr⟩ := alloc_spec (C := C) hpos hlen w
  cases r with
  | none =>
    refine ⟨none, w₁, ?_, hsupplies, nofun⟩
    unfold runCalls
    simp only [halloc]
    refine (returns_ofExcept _).bind ?_
    cases calls <;> exact returns_pure _
  | some b₁ =>
    obtain ⟨hlen₁, hb₁⟩ := hr b₁ rfl
    have hfits₁ : Fits b₁.len b₁.off calls := by
      rw [hlen₁, hb₁.off_eq]
      exact hfits
    obtain ⟨r, w₂, hrest, hsupplies, hr⟩ := callAll_spec (C := C) hb₁ hfits₁ w₁
    refine ⟨r, w₂, ?_, hsupplies, fun buf hbuf => ⟨(hr buf hbuf).off_lt, hr buf hbuf⟩⟩
    unfold runCalls
    simp only [halloc]
    exact (returns_ofExcept _).bind hrest

end Calls

/-- An allocator whose new memory is full of the same byte. -/
def poisoned : Allocator Unit where
  calloc w := (true, w)
  malloc n w := (some (List.replicate n 0xA5), w)
  realloc old n w := (some ((old ++ List.replicate n 0xA5).take n), w)
  free w := w
  length_malloc h := by
    rw [← Option.some_inj.mp h, List.length_replicate]
  length_realloc h := by
    rw [← Option.some_inj.mp h, List.length_take, List.length_append, List.length_replicate]
    omega
  take_realloc h hle := by
    rw [← Option.some_inj.mp h, List.take_take, min_eq_left hle, List.take_left]

/-- A buffer of one byte that grows, is reset and is filled once more. -/
theorem runCalls_holds_poisoned :
    ∃ r w', Returns (runCalls poisoned 1
        [.append (some [97, 98]), .append (some [99]), .reset, .append (some [100, 101])] ())
        (r, w') ∧ (poisoned.Supplies → r ≠ none) ∧
      ∀ buf ∈ r, buf.off < buf.len ∧ Holds buf [100, 101] :=
  runCalls_holds poisoned le_rfl (by norm_num)
    [.append (some [97, 98]), .append (some [99]), .reset, .append (some [100, 101])]
    ⟨[97, 98], rfl, by decide, by decide, [99], rfl, by decide, by decide,
      [100, 101], rfl, by decide, by decide, trivial⟩ ()

example : (runCalls poisoned 1 [.append (some [97, 98]), .append (some [99])] () 2).run =
    some (.ok (some { buf := [97, 98, 99, 0], len := 4, off := 3 }, ())) := rfl

end CBuf
end LdmsTest
