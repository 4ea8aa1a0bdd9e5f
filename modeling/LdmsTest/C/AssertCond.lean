import LdmsTest.C.Tada
import LdmsTest.Foundation.Cursor

/-!
# The condition of an assertion

`tada_assert` copies the text of the condition into a buffer of 512 bytes, with a backslash in
front of every double quote, and prints the copy into the message.  The text is that of the C
expression, as the preprocessor has written it, so it is any string that a program can hold: bytes
up to a NUL.

* `escapeLoop`: the loop, as the stores that it makes.
* `inside_iff`: when the loop stays inside its buffer.
-/

namespace LdmsTest
namespace CTada

/-- A string of C: the bytes in front of its NUL. -/
structure CString where
  bytes : List UInt8
  noNul : 0 ∉ bytes

/-- `'"'` and `'\\'` -/
def quote : UInt8 := 34

def backslash : UInt8 := 92

/-! ## The buffer -/

/-- The loop from `s` on, where `e` is the pointer into `esc_str`: the list is what stands at `s` in
front of the NUL. -/
def escapeLoop : List UInt8 → Cursor UInt8 → Cursor UInt8
  | [], e => e.poke 0
  | b :: s, e =>
    if b = quote then escapeLoop s ((e.push backslash).push quote)
    else escapeLoop s (e.push b)

/-- The stores into `esc_str` for a condition. -/
def CString.escStores (cond : CString) : Cursor UInt8 :=
  escapeLoop cond.bytes .start

/-- The bytes of a condition, its quotes escaped. -/
def escapeBytes (bs : List UInt8) : List UInt8 :=
  bs.flatMap fun b => if b = quote then [backslash, quote] else [b]

theorem length_escapeBytes (bs : List UInt8) :
    (escapeBytes bs).length = bs.length + bs.count quote := by
  induction bs with
  | nil => rfl
  | cons b bs ih =>
    rw [escapeBytes, List.flatMap_cons, List.length_append, ← escapeBytes, ih, List.length_cons,
      List.count_cons]
    by_cases hb : b = quote
    · simp [hb]
      omega
    · simp [hb]
      omega

/-- **The loop** stores the escaped bytes and the NUL, one behind the other. -/
theorem wrote_escapeLoop (s : List UInt8) {done : List UInt8} {e : Cursor UInt8}
    (h : e.Wrote done) (hpos : e.pos = done.length) :
    (escapeLoop s e).Wrote (done ++ escapeBytes s ++ [0]) := by
  induction s generalizing done e with
  | nil =>
    rw [escapeLoop, escapeBytes, List.flatMap_nil, List.append_nil]
    exact h.poke hpos 0
  | cons b s ih =>
    rw [escapeLoop, escapeBytes, List.flatMap_cons, ← escapeBytes]
    split
    · have hslash := h.push hpos backslash
      have hslashPos := Cursor.pos_push hpos backslash
      have hquote := hslash.push hslashPos quote
      have hquotePos := Cursor.pos_push hslashPos quote
      simpa only [List.append_assoc, List.cons_append, List.nil_append] using ih hquote hquotePos
    · have hb := h.push hpos b
      have hbPos := Cursor.pos_push hpos b
      simpa only [List.append_assoc, List.cons_append, List.nil_append] using ih hb hbPos

/-- What has been stored for a condition. -/
theorem CString.wrote_escStores (cond : CString) :
    cond.escStores.Wrote (escapeBytes cond.bytes ++ [0]) :=
  wrote_escapeLoop cond.bytes Cursor.wrote_start rfl

/-- **The loop stays inside** its buffer exactly if the length of the condition and the number of
its double quotes come to less than the size of the buffer. -/
theorem inside_iff (cond : CString) :
    cond.escStores.Inside 512 ↔ cond.bytes.length + cond.bytes.count quote < 512 := by
  rw [cond.wrote_escStores.fits_iff, List.length_append, length_escapeBytes,
    List.length_singleton]
  omega

/-- A condition of 512 letters. -/
def longCond : CString where
  bytes := List.replicate 512 97
  noNul h := absurd (List.eq_of_mem_replicate h) (by decide)

theorem not_inside_longCond : ¬ longCond.escStores.Inside 512 := by
  rw [longCond.wrote_escStores.fits_iff, List.length_append, length_escapeBytes, longCond,
    List.length_replicate, List.length_singleton]
  omega

end CTada
end LdmsTest
