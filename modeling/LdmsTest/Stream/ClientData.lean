import LdmsTest.Python.Value
import Mathlib

/-!
# `all_cdata_assert`

`ldms_stream_test` gathers what the stream clients of each process have received, and compares it
with what they should have received, process by process and client by client.  Both loops also run
over a list of labels, for the message of a failure, and `zip` ends with the shortest list: there
are seven labels of processes, and eight processes.

* `SData`, `SData.eq`: the data of a client, and `==` on it.
* `getAllCdata`: the table of all processes and clients.
* `allCdataAssert`: the comparison.
* `allCdataAssert_correct_iff`: it is right unless tables differ only where no label is.
-/

namespace LdmsTest
namespace ClientData

/-! ## The data of a client -/

/-- `SData`: an attribute that is `None` is not given. -/
structure SData (V : Type) where
  name : Option V
  src : Option V
  tid : Option V
  uid : Option V
  gid : Option V
  perm : Option V
  isJson : Option V
  data : Option V
  deriving DecidableEq

section Equality

variable {V : Type} [BEq V]

omit [BEq V] in
/-- `__cmp_fields__`, without `tid` -/
def SData.cmpFields : List (SData V → Option V) :=
  [name, src, uid, gid, perm, isJson, data]

/-- `a == b`, for two `SData` -/
def SData.eq (a b : SData V) : Bool :=
  cmpFields.all fun field =>
    match field a, field b with
    | some v0, some v1 => v0 == v1
    | _, _ => true

/-- What a client has received: `None`, or an `SData`. -/
abbrev Entry (V : Type) := Option (SData V)

/-- `ce != cd` -/
def Entry.ne : Entry V → Entry V → Bool
  | none, none => false
  | some a, some b => !a.eq b
  | _, _ => true

end Equality

/-- The processes whose data is gathered. -/
def processes : List String :=
  ["srv1", "srv2", "srv3", "srv4", "srv5", "srv6", "srv7", "cli8foo"]

/-- The clients of a process. -/
def names : List String :=
  ["dot_star", "l1", "l2", "l3", "dot_star_stream"]

/-- `get_cdata(pty)`, with what each client of the process has received -/
def getCdata {V : Type} (received : String → Entry V) : List (Entry V) :=
  names.map received

/-- `get_all_cdata()` -/
def getAllCdata {V : Type} (received : String → String → Entry V) : List (List (Entry V)) :=
  processes.map fun pty => getCdata (received pty)

/-! ## The comparison -/

/-- `test.assert_test(test_id, cond, cond_str)` -/
structure Report where
  testId : ℕ
  cond : Bool
  condStr : String
  deriving DecidableEq

/-- `zip(xs, ys, zs)` -/
def zip3 {α β γ : Type} (xs : List α) (ys : List β) (zs : List γ) : List (α × β × γ) :=
  xs.zip (ys.zip zs)

/-- `srv_labels` -/
def srvLabels : List String :=
  ["srv1", "srv2", "srv3", "srv4", "srv5", "srv6", "srv7"]

/-- `cli_labels` -/
def cliLabels : List String :=
  ["dot_star", "l1", "l2", "l3", "dot_star_stream"]

section Compare

variable {V : Type} [BEq V]

/-- The loop over the clients of a process: the message of the first failure. -/
def clientFailure (se sd : List (Entry V)) (slbl : String) : Option String :=
  (zip3 se sd cliLabels).findSome? fun (ce, cd, clbl) =>
    if ce.ne cd then
      some ("'expect[" ++ slbl ++ "][" ++ clbl ++ "]' and 'client_data[" ++ slbl ++ "][" ++ clbl ++
        "]' do not match")
    else none

/-- The loop over the processes: the message of the first failure. -/
def failure (expect allCdata : List (List (Entry V))) : Option String :=
  (zip3 expect allCdata srvLabels).findSome? fun (se, sd, slbl) =>
    if se.length ≠ sd.length then
      some ("'expect[" ++ slbl ++ "]' and 'client_data[" ++ slbl ++ "]' lengths are unequal")
    else clientFailure se sd slbl

/-- `all_cdata_assert(test_id, expect, all_cdata, assert_true)`: what it returns, and the
assertions that it reports -/
def allCdataAssert (testId : ℕ) (expect allCdata : List (List (Entry V))) (assertTrue : Bool) :
    Bool × List Report :=
  if expect.length ≠ allCdata.length then
    (false, [⟨testId, false, "'expect' and 'client_data' lengths are unequal"⟩])
  else
    match failure expect allCdata with
    | some condStr => (false, [⟨testId, false, condStr⟩])
    | none => (true, if assertTrue then [⟨testId, true, "client data verified"⟩] else [])

/-! ## What it compares -/

/-- The entries of a client of a process differ. -/
def DiffersAt (expect allCdata : List (List (Entry V))) (i j : ℕ) : Prop :=
  ∃ se sd ce cd, expect[i]? = some se ∧ allCdata[i]? = some sd ∧ se[j]? = some ce ∧
    sd[j]? = some cd ∧ ce.ne cd

omit [BEq V] in
/-- Tables of the same shape. -/
def SameShape (expect allCdata : List (List (Entry V))) : Prop :=
  List.Forall₂ (fun se sd => se.length = sd.length) expect allCdata

omit [BEq V] in
theorem mem_zip3_iff {α β γ : Type} {xs : List α} {ys : List β} {zs : List γ} {p : α × β × γ} :
    p ∈ zip3 xs ys zs ↔ ∃ i : ℕ, xs[i]? = some p.1 ∧ ys[i]? = some p.2.1 ∧ zs[i]? = some p.2.2 := by
  rw [zip3, List.mem_iff_getElem?]
  simp only [List.getElem?_zip_eq_some]

theorem clientFailure_eq_none_iff {se sd : List (Entry V)} {slbl : String} :
    clientFailure se sd slbl = none ↔ ∀ (j : ℕ) ce cd, j < cliLabels.length → se[j]? = some ce →
      sd[j]? = some cd → ¬ ce.ne cd := by
  rw [clientFailure, List.findSome?_eq_none_iff]
  constructor
  · intro h j ce cd hj hce hcd hne
    have hmem : (ce, cd, cliLabels[j]) ∈ zip3 se sd cliLabels :=
      mem_zip3_iff.mpr ⟨j, hce, hcd, List.getElem?_eq_getElem hj⟩
    have hnone := h _ hmem
    simp [hne] at hnone
  · rintro h ⟨ce, cd, clbl⟩ hmem
    obtain ⟨j, hce, hcd, hclbl⟩ := mem_zip3_iff.mp hmem
    obtain ⟨hj, -⟩ := List.getElem?_eq_some_iff.mp hclbl
    exact if_neg (h j ce cd hj hce hcd)

omit [BEq V] in
theorem SameShape.length_eq {expect allCdata : List (List (Entry V))}
    (h : SameShape expect allCdata) {i : ℕ} {se sd : List (Entry V)} (hse : expect[i]? = some se)
    (hsd : allCdata[i]? = some sd) : se.length = sd.length := by
  obtain ⟨hi, rfl⟩ := List.getElem?_eq_some_iff.mp hse
  obtain ⟨hi', rfl⟩ := List.getElem?_eq_some_iff.mp hsd
  exact h.get hi hi'

/-- The loops see the processes and the clients that have labels. -/
theorem failure_eq_none_iff {expect allCdata : List (List (Entry V))}
    (h : SameShape expect allCdata) :
    failure expect allCdata = none ↔
      ∀ i j, i < srvLabels.length → j < cliLabels.length → ¬ DiffersAt expect allCdata i j := by
  rw [failure, List.findSome?_eq_none_iff]
  constructor
  · rintro hnone i j hi hj ⟨se, sd, ce, cd, hse, hsd, hce, hcd, hne⟩
    have hmem : (se, sd, srvLabels[i]) ∈ zip3 expect allCdata srvLabels :=
      mem_zip3_iff.mpr ⟨i, hse, hsd, List.getElem?_eq_getElem hi⟩
    have hclient := hnone _ hmem
    simp only [h.length_eq hse hsd, ne_eq, not_true_eq_false, if_false] at hclient
    exact clientFailure_eq_none_iff.mp hclient j ce cd hj hce hcd hne
  · rintro hall ⟨se, sd, slbl⟩ hmem
    obtain ⟨i, hse, hsd, hslbl⟩ := mem_zip3_iff.mp hmem
    obtain ⟨hi, -⟩ := List.getElem?_eq_some_iff.mp hslbl
    dsimp only at hse hsd ⊢
    rw [if_neg (not_not.mpr (h.length_eq hse hsd)), clientFailure_eq_none_iff]
    intro j ce cd hj hce hcd hne
    exact hall i j hi hj ⟨se, sd, ce, cd, hse, hsd, hce, hcd, hne⟩

/-- **The comparison succeeds** if no entries with labels differ. -/
theorem allCdataAssert_eq_true_iff {expect allCdata : List (List (Entry V))}
    (h : SameShape expect allCdata) (testId : ℕ) (assertTrue : Bool) :
    allCdataAssert testId expect allCdata assertTrue =
        (true, if assertTrue then [⟨testId, true, "client data verified"⟩] else []) ↔
      ∀ i j, i < srvLabels.length → j < cliLabels.length → ¬ DiffersAt expect allCdata i j := by
  rw [← failure_eq_none_iff h, allCdataAssert, if_neg (not_not.mpr (List.Forall₂.length_eq h))]
  cases failure expect allCdata with
  | none => exact iff_of_true rfl rfl
  | some condStr => exact iff_of_false (by simp) (by simp)

/-- **The verdict is right unless tables differ only where no label is**: that some entries of the
first seven processes and the first five clients of each differ, or none at all. -/
theorem allCdataAssert_correct_iff {expect allCdata : List (List (Entry V))}
    (h : SameShape expect allCdata) (testId : ℕ) (assertTrue : Bool) :
    (allCdataAssert testId expect allCdata assertTrue =
          (true, if assertTrue then [⟨testId, true, "client data verified"⟩] else []) ↔
        ∀ i j, ¬ DiffersAt expect allCdata i j) ↔
      (∃ i j, i < 7 ∧ j < 5 ∧ DiffersAt expect allCdata i j) ∨
        ∀ i j, ¬ DiffersAt expect allCdata i j := by
  rw [allCdataAssert_eq_true_iff h]
  constructor
  · intro hiff
    by_cases hall : ∀ i j, ¬ DiffersAt expect allCdata i j
    · exact .inr hall
    · have hsome := mt hiff.mp hall
      simp only [not_forall, not_not, exists_prop] at hsome
      exact .inl hsome
  · rintro (⟨i, j, hi, hj, hdiffers⟩ | hall)
    · exact iff_of_false (fun hseen => hseen i j hi hj hdiffers) fun hall => hall i j hdiffers
    · exact iff_of_true (fun i j _ _ => hall i j) hall

end Compare

/-! ## Processes without a label -/

theorem sameShape_getAllCdata {V : Type} (expected received : String → String → Entry V) :
    SameShape (getAllCdata expected) (getAllCdata received) := by
  refine List.forall₂_map_left_iff.mpr (List.forall₂_map_right_iff.mpr ?_)
  refine List.forall₂_same.mpr fun pty _ => ?_
  rw [getCdata, getCdata, List.length_map, List.length_map]

/-- **What `cli8foo` receives does not matter**: it has no label. -/
theorem allCdataAssert_congr {V : Type} [BEq V] {expected received received' : String → String → Entry V}
    (h : ∀ pty ∈ srvLabels, received' pty = received pty) (testId : ℕ) (assertTrue : Bool) :
    allCdataAssert testId (getAllCdata expected) (getAllCdata received') assertTrue =
      allCdataAssert testId (getAllCdata expected) (getAllCdata received) assertTrue := by
  have hsame : zip3 (getAllCdata expected) (getAllCdata received') srvLabels =
      zip3 (getAllCdata expected) (getAllCdata received) srvLabels := by
    simp only [srvLabels, List.forall_mem_cons, List.not_mem_nil, false_imp_iff, implies_true,
      and_true] at h
    simp [getAllCdata, processes, zip3, srvLabels, h]
  unfold allCdataAssert failure
  rw [hsame]
  rfl

/-- Data that a client was sent. -/
def leaked : SData String where
  name := some "l3-stream"
  src := none
  tid := none
  uid := some "0"
  gid := some "0"
  perm := some "0o400"
  isJson := some "0"
  data := some "four"

/-- Nothing, but for one client of `cli8foo`. -/
def leakTo8 (pty name : String) : Entry String :=
  if pty = "cli8foo" ∧ name = "l3" then some leaked else none

theorem allCdataAssert_correct_leakTo8 :
    (allCdataAssert 8 (getAllCdata fun _ _ => none) (getAllCdata leakTo8) true =
          (true, if true then [⟨8, true, "client data verified"⟩] else []) ↔
        ∀ i j, ¬ DiffersAt (getAllCdata fun _ _ => none) (getAllCdata leakTo8) i j) ↔
      (∃ i j, i < 7 ∧ j < 5 ∧ DiffersAt (getAllCdata fun _ _ => none) (getAllCdata leakTo8) i j) ∨
        ∀ i j, ¬ DiffersAt (getAllCdata fun _ _ => none) (getAllCdata leakTo8) i j :=
  allCdataAssert_correct_iff (sameShape_getAllCdata _ _) 8 true

/-- A leak to the last process is not noticed. -/
theorem not_correct_leakTo8 :
    ¬ (allCdataAssert 8 (getAllCdata fun _ _ => none) (getAllCdata leakTo8) true =
          (true, [⟨8, true, "client data verified"⟩]) ↔
        ∀ i j, ¬ DiffersAt (getAllCdata fun _ _ => none) (getAllCdata leakTo8) i j) := by
  intro h
  have hpassed : allCdataAssert 8 (getAllCdata fun _ _ => none) (getAllCdata leakTo8) true =
      (true, [⟨8, true, "client data verified"⟩]) := by
    decide
  exact h.mp hpassed 7 3 ⟨_, _, _, _, rfl, rfl, rfl, rfl, rfl⟩

end ClientData
end LdmsTest
