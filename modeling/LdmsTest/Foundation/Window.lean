import Mathlib.Algebra.Order.Group.Defs
import Mathlib.Data.List.Basic
import Mathlib.Order.Lattice

/-!
# Windows of time

A list in the order of its times, and the elements of it that are not older than a given length
of time.

* `InOrder`: the times do not decrease.
* `within`: what is not older than `sec` at the time `ts`.
* `dropWhile_outside`: in a list in order, dropping while an element is too old leaves `within`.
* `within_within_of_le_time`, `within_within_of_le_sec`: later and longer windows.
-/

namespace LdmsTest
namespace Window

variable {T α : Type*} [AddCommGroup T] [LinearOrder T] (time : α → T)

/-- The times do not decrease. -/
def InOrder (l : List α) : Prop :=
  l.Pairwise fun a b => time a ≤ time b

/-- Whether `a` is not older than `sec` at the time `ts`. -/
def Inside (sec ts : T) (a : α) : Prop :=
  ts ≤ time a + sec

instance (sec ts : T) : DecidablePred (Inside time sec ts) :=
  fun _ => inferInstanceAs (Decidable (_ ≤ _))

/-- What is not older than `sec` at the time `ts`. -/
def within (sec ts : T) (l : List α) : List α :=
  l.filter fun a => Inside time sec ts a

variable {time}

omit [AddCommGroup T] in
theorem InOrder.sublist {l l' : List α} (h : InOrder time l) (hsub : l'.Sublist l) :
    InOrder time l' :=
  List.Pairwise.sublist hsub h

theorem Inside.of_le_time {sec ts ts' : T} (hle : ts ≤ ts') {a : α}
    (h : Inside time sec ts' a) : Inside time sec ts a :=
  hle.trans h

theorem within_append (sec ts : T) (l l' : List α) :
    within time sec ts (l ++ l') = within time sec ts l ++ within time sec ts l' :=
  List.filter_append ..

/-- **A later window of the same length** takes nothing that an earlier one has left out. -/
theorem within_within_of_le_time {sec ts ts' : T} (hle : ts ≤ ts') (l : List α) :
    within time sec ts' (within time sec ts l) = within time sec ts' l := by
  rw [within, within, List.filter_filter]
  refine List.filter_congr fun a _ => ?_
  rw [← Bool.decide_and]
  exact decide_eq_decide.mpr (and_iff_left_of_imp (Inside.of_le_time hle))

theorem within_cons_of_not_inside {sec ts : T} {a : α} (l : List α)
    (ha : ¬ Inside time sec ts a) : within time sec ts (a :: l) = within time sec ts l :=
  List.filter_cons_of_neg (by rwa [decide_eq_true_eq])

section Ordered

variable [IsOrderedAddMonoid T]

theorem Inside.of_le_sec {sec sec' ts : T} (hle : sec ≤ sec') {a : α}
    (h : Inside time sec ts a) : Inside time sec' ts a :=
  le_trans h (add_le_add_right hle _)

/-- What is younger than something inside is inside. -/
theorem Inside.of_le {sec ts : T} {a b : α} (hle : time a ≤ time b)
    (h : Inside time sec ts a) : Inside time sec ts b :=
  le_trans h (add_le_add_left hle _)

/-- **A longer window** keeps everything that a shorter one does. -/
theorem within_within_of_le_sec {sec sec' ts : T} (hle : sec ≤ sec') (l : List α) :
    within time sec' ts (within time sec ts l) = within time sec ts l := by
  refine List.filter_eq_self.mpr fun a ha => ?_
  exact decide_eq_true ((of_decide_eq_true (List.mem_filter.mp ha).2).of_le_sec hle)

/-- In a list in order, the elements inside a window come last. -/
theorem within_cons_of_inside {sec ts : T} {a : α} {l : List α} (h : InOrder time (a :: l))
    (ha : Inside time sec ts a) : within time sec ts (a :: l) = a :: l := by
  refine List.filter_eq_self.mpr fun b hb => decide_eq_true ?_
  rcases List.mem_cons.mp hb with rfl | hb
  · exact ha
  · exact ha.of_le (List.rel_of_pairwise_cons h hb)

/-- **Dropping from the front.**  In a list in order, it is enough to drop elements until one of
them is inside. -/
theorem dropWhile_outside {l : List α} (h : InOrder time l) (sec ts : T) :
    l.dropWhile (fun a => ¬ Inside time sec ts a) = within time sec ts l := by
  induction l with
  | nil => rfl
  | cons a l ih =>
    by_cases ha : Inside time sec ts a
    · rw [within_cons_of_inside h ha, List.dropWhile_cons_of_neg (by simpa using ha)]
    · rw [within_cons_of_not_inside l ha, List.dropWhile_cons_of_pos (by simpa using ha),
        ih (List.Pairwise.of_cons h)]

theorem within_suffix {l : List α} (h : InOrder time l) (sec ts : T) :
    within time sec ts l <:+ l := by
  rw [← dropWhile_outside h]
  exact List.dropWhile_suffix _

end Ordered

end Window
end LdmsTest
