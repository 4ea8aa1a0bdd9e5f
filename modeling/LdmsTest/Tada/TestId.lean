import LdmsTest.C.Tada
import LdmsTest.Foundation.Joined
import LdmsTest.Tada.Client

/-!
# What identifies a test

The test-id is a digest of the suite, the type, the name, the user, the commit and the second in
which the test was started, with colons between them.  `TADA.py` and `tada.c` hash the same text.

* `Identity`: what is hashed.
* `identity_eq_of_text_eq`: texts without a colon of their own can be told apart.
* `exists_text_eq`: otherwise there is a second identity with the same text.
* `hashedText_unique_iff`: when no other test hashes the text of a test.
-/

namespace LdmsTest
namespace Tada

/-- What the test-id is to identify. -/
structure Identity where
  testSuite : String
  testType : String
  testName : String
  testUser : String
  commitId : String
  /-- The second of the start. -/
  ts : ℤ

namespace Identity

/-- The strings of an identity. -/
def strings (i : Identity) : List (List Char) :=
  [i.testSuite.toList, i.testType.toList, i.testName.toList, i.testUser.toList, i.commitId.toList]

/-- No string has a colon. -/
def ColonFree (i : Identity) : Prop :=
  ∀ s ∈ i.strings, ':' ∉ s

/-- The strings and the second, joined by colons. -/
def text (i : Identity) : List Char :=
  [':'].intercalate (i.strings ++ [Json.intText i.ts])

theorem colon_notMem_intText (n : ℤ) : ':' ∉ Json.intText n := by
  intro h
  have hdigits {m : ℕ} (hm : ':' ∈ Nat.toDigits 10 m) : False :=
    absurd (Json.isDigit_of_mem_toDigits hm) (by decide)
  unfold Json.intText at h
  split at h
  · rcases List.mem_cons.mp h with hminus | h
    · exact absurd hminus (by decide)
    · exact hdigits h
  · exact hdigits h

/-- **An identity without colons** has its text for itself. -/
theorem identity_eq_of_text_eq {i j : Identity} (hi : i.ColonFree) (h : j.text = i.text) :
    j = i := by
  have hfree : ∀ s ∈ i.strings ++ [Json.intText i.ts], ':' ∉ s := by
    intro s hs
    rcases List.mem_append.mp hs with hs | hs
    · exact hi s hs
    · rw [List.mem_singleton.mp hs]
      exact colon_notMem_intText i.ts
  have hpieces := Joined.eq_of_intercalate_eq (by rfl) hfree h
  obtain ⟨hstrings, hts⟩ := List.append_inj' hpieces rfl
  have hts' : j.ts = i.ts := by
    rw [← Json.ofInteger_intText j.ts, (List.cons.inj hts).1, Json.ofInteger_intText]
  simp only [strings, List.cons.injEq, String.toList_inj] at hstrings
  obtain ⟨h₁, h₂, h₃, h₄, h₅, -⟩ := hstrings
  cases i
  cases j
  simp_all

/-- The text from a cut on. -/
theorem text_eq (i : Identity) : i.text =
    i.testSuite.toList ++ ':' :: (i.testType.toList ++ ':' :: (i.testName.toList ++ ':' ::
      (i.testUser.toList ++ ':' :: (i.commitId.toList ++ ':' :: Json.intText i.ts)))) := by
  simp [text, strings, List.intercalate_cons_cons]

/-- **An identity with a colon** shares its text with another one. -/
theorem exists_text_eq {i : Identity} (h : ¬ i.ColonFree) : ∃ j : Identity, j ≠ i ∧ j.text = i.text := by
  have hne {s t : List Char} {u : String} (hst : s ≠ t) (hu : u.toList = t) : String.ofList s ≠ u := by
    rintro rfl
    rw [String.toList_ofList] at hu
    exact hst hu
  simp only [ColonFree, strings, List.forall_mem_cons, List.not_mem_nil, false_imp_iff,
    implies_true, and_true, not_and_or, not_not] at h
  -- the neighbour that takes the part of the string behind the colon, or in front of it
  have hcases : (':' ∈ i.testSuite.toList ∨ ':' ∈ i.testType.toList) ∨
      (':' ∈ i.testName.toList ∨ ':' ∈ i.testUser.toList) ∨
        (':' ∈ i.testUser.toList ∨ ':' ∈ i.commitId.toList) := by
    tauto
  have hjoin {a b c d : List Char} (htext : a ++ ':' :: b = c ++ ':' :: d) (rest : List Char) :
      a ++ ':' :: (b ++ rest) = c ++ ':' :: (d ++ rest) := by
    rw [← List.cons_append, ← List.append_assoc, htext, List.append_assoc, List.cons_append]
  rcases hcases with hpair | hpair | hpair
  · obtain ⟨a, b, hab, htext⟩ := Joined.exists_append_cons_eq hpair
    refine ⟨{ i with testSuite := String.ofList a, testType := String.ofList b }, ?_, ?_⟩
    · intro heq
      exact hne hab rfl (congrArg Identity.testSuite heq)
    · simp only [text_eq, String.toList_ofList]
      rw [hjoin htext]
  · obtain ⟨a, b, hab, htext⟩ := Joined.exists_append_cons_eq hpair
    refine ⟨{ i with testName := String.ofList a, testUser := String.ofList b }, ?_, ?_⟩
    · intro heq
      exact hne hab rfl (congrArg Identity.testName heq)
    · simp only [text_eq, String.toList_ofList]
      rw [hjoin htext]
  · obtain ⟨a, b, hab, htext⟩ := Joined.exists_append_cons_eq hpair
    refine ⟨{ i with testUser := String.ofList a, commitId := String.ofList b }, ?_, ?_⟩
    · intro heq
      exact hne hab rfl (congrArg Identity.testUser heq)
    · simp only [text_eq, String.toList_ofList]
      rw [hjoin htext]

/-- **Only its own tests** hash the text of an identity exactly if it has no colons. -/
theorem text_unique_iff (i : Identity) : (∀ j : Identity, j.text = i.text → j = i) ↔ i.ColonFree := by
  constructor
  · intro hall
    by_contra hcolon
    obtain ⟨j, hne, htext⟩ := exists_text_eq hcolon
    exact hne (hall j htext)
  · exact fun hi j => identity_eq_of_text_eq hi

end Identity

/-! ## The two languages -/

variable {F : Type}

/-- The identity of a `TADA.Test` that is started at `ts`. -/
def Test.identity (t : Test F) (ts : ℤ) : Identity :=
  ⟨t.testSuite, t.testType, t.testName, t.testUser, t.commitId, ts⟩

theorem toList_hashedText (t : Test F) (ts : ℤ) :
    (hashedText t ts).toList = (t.identity ts).text := by
  rw [Identity.text_eq, hashedText, ← Json.toList_toString]
  simp [Test.identity]

end Tada

namespace CTada

/-- The identity of a `test_s` that is started at `ts`. -/
def CTest.identity (t : CTest) (ts : ℤ) : Tada.Identity :=
  ⟨t.suiteName, t.testType, t.testName, t.testUser, t.commitId, ts⟩

theorem toList_hashedText (t : CTest) (ts : ℤ) :
    (hashedText t ts).toList = (t.identity ts).text := by
  rw [Tada.Identity.text_eq, hashedText, ← Json.toList_toString]
  simp [CTest.identity]

end CTada

namespace Tada

/-- A test with a given identity. -/
def Identity.pyTest (F : Type) (i : Identity) : Test F :=
  Test.init i.testSuite i.testType i.testName none i.testUser i.commitId

def Identity.cTest (i : Identity) : CTada.CTest where
  suiteName := i.testSuite
  testType := i.testType
  testName := i.testName
  testUser := i.testUser
  commitId := i.commitId
  testDesc := ""
  logPath := none
  sendResult := true
  logResult := false
  descriptions := []

/-- **The text that is hashed**, by `Test.start` and by `tada_start`, is that of no test with
another suite, type, name, user, commit or second exactly if none of the strings has a colon. -/
theorem hashedText_unique_iff (F : Type) :
    (∀ (t : Test F) (ts : ℤ),
      (∀ (t' : Test F) (ts' : ℤ), hashedText t' ts' = hashedText t ts →
        t'.identity ts' = t.identity ts) ↔ (t.identity ts).ColonFree) ∧
    (∀ (t : CTada.CTest) (ts : ℤ),
      (∀ (t' : CTada.CTest) (ts' : ℤ), CTada.hashedText t' ts' = CTada.hashedText t ts →
        t'.identity ts' = t.identity ts) ↔ (t.identity ts).ColonFree) := by
  constructor
  · intro t ts
    rw [← Identity.text_unique_iff]
    constructor
    · intro hall j htext
      refine hall (j.pyTest F) j.ts ?_
      rw [← String.toList_inj, toList_hashedText, toList_hashedText]
      exact htext
    · intro hall t' ts' htext
      refine hall _ ?_
      rw [← toList_hashedText, ← toList_hashedText, htext]
  · intro t ts
    rw [← Identity.text_unique_iff]
    constructor
    · intro hall j htext
      refine hall j.cTest j.ts ?_
      rw [← String.toList_inj, CTada.toList_hashedText, CTada.toList_hashedText]
      exact htext
    · intro hall t' ts' htext
      refine hall _ ?_
      rw [← CTada.toList_hashedText, ← CTada.toList_hashedText, htext]

/-- The type `f`, once behind the suite `ldms:set` and once, as `set:f`, behind the suite `ldms`. -/
theorem hashedText_colon :
    hashedText (Test.init "ldms:set" "f" "n" none "u" "c" : Test Unit) 1 =
        hashedText (Test.init "ldms" "set:f" "n" none "u" "c" : Test Unit) 1 ∧
      (Test.init "ldms:set" "f" "n" none "u" "c" : Test Unit).identity 1 ≠
        (Test.init "ldms" "set:f" "n" none "u" "c" : Test Unit).identity 1 := by
  refine ⟨?_, fun h => ?_⟩
  · rw [← String.toList_inj]
    simp [hashedText, Test.init]
  · exact absurd (congrArg Identity.testType h) (by decide)

end Tada
end LdmsTest
