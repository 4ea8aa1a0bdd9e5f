import LdmsTest.Python.Equality
import Mathlib.Data.List.Forall2

/-!
# `verify_set`

`list_common` and `record_common` compare the metrics of a set with a description of the data that
was put into it: lists in lists to any depth, and records.  The two differ in what they take for a
character, and only the second knows records.

* `Datum`: a description, in which there are records if there is an `R`.
* `ListCommon.verifySet`, `RecordCommon.verifySet`: the two functions.
* `SameValue`, `SameChar`: a value is the one that is expected, by `==`.
* `Agrees`: a metric has what its description says, with as many members at every level.
* `Paired`, `SameShape`: what members stand at one place agrees, and there are as many.
* `verifySet_sound_iff`: the comparison is of members that stand at one place, so it is sound
  exactly where there are as many at every level, unless two of these do not agree.
-/

namespace LdmsTest
namespace VerifySet

/-- The types that the comparison asks for, and all others. -/
inductive VType where
  | char : VType
  | list : VType
  | recordInst : VType
  | recordType : VType
  | recordArray : VType
  | other : ℕ → VType
  deriving DecidableEq

/-- A description: a type, and the value or the members expected. -/
inductive Datum (F R : Type) where
  | char : Val F → Datum F R
  | value : ℕ → Val F → Datum F R
  | list : List (Datum F R) → Datum F R
  | recordInst : R → List (Datum F R) → Datum F R
  | recordType : R → Datum F R
  | recordArray : R → List (Datum F R) → Datum F R

/-- A metric: a Python object, an `MVal` with what its `get()` returns, or an object with members.
A record knows the types of its members. -/
inductive Metric (F : Type) where
  | val : Val F → Metric F
  | mval : Val F → Metric F
  | list : List (Metric F) → Metric F
  | record : List (VType × Metric F) → Metric F
  | array : List (Metric F) → Metric F

/-- What the objects of the library do in a place where they are not expected. -/
class Library (F : Type) where
  /-- `iter(m)`, for an `MVal` or a record -/
  iterObject : Metric F → Except PyError (List (Metric F))
  /-- `m == v`, for a list, a record or an array -/
  eqObject : Metric F → Val F → Bool

namespace Datum

variable {F R : Type}

/-- Induction on a description, with the hypothesis for every member. -/
@[elab_as_elim, induction_eliminator]
theorem induct {P : Datum F R → Prop} (char : ∀ v, P (.char v)) (value : ∀ t v, P (.value t v))
    (list : ∀ ds, (∀ d ∈ ds, P d) → P (.list ds))
    (recordInst : ∀ r ds, (∀ d ∈ ds, P d) → P (.recordInst r ds))
    (recordType : ∀ r, P (.recordType r))
    (recordArray : ∀ r ds, (∀ d ∈ ds, P d) → P (.recordArray r ds)) : ∀ d, P d
  | .char v => char v
  | .value t v => value t v
  | .list ds => list ds fun d _ => induct char value list recordInst recordType recordArray d
  | .recordInst r ds =>
    recordInst r ds fun d _ => induct char value list recordInst recordType recordArray d
  | .recordType r => recordType r
  | .recordArray r ds =>
    recordArray r ds fun d _ => induct char value list recordInst recordType recordArray d
termination_by d => sizeOf d
decreasing_by
  all_goals
    simp_wf
    have := List.sizeOf_lt_of_mem ‹_›
    omega

/-- The type of a pair `(type, value)`. -/
def type : Datum F R → VType
  | .char _ => .char
  | .value t _ => .other t
  | .list _ => .list
  | .recordInst _ _ => .recordInst
  | .recordType _ => .recordType
  | .recordArray _ _ => .recordArray

end Datum

/-! ## Values -/

section Values

variable {F : Type}

/-- `type(m).__name__` -/
def Metric.typeName : Metric F → String
  | .val v => v.typeName
  | .mval _ => "MVal"
  | .list _ => "MetricList"
  | .record _ => "RecordInstance"
  | .array _ => "RecordArray"

/-- `assert(b)` -/
def assertTrue (b : Bool) : Except PyError Unit :=
  if b then pure () else throw ⟨.assertionError, ""⟩

/-- `m.get()` for an `MVal`, and any other metric itself -/
def Metric.get : Metric F → Metric F
  | .mval v => .val v
  | m => m

/-- `list(v)` -/
def iterVal : Val F → Except PyError (List (Val F))
  | .str s => pure (s.toList.map fun c => .str (String.singleton c))
  | .list xs => pure xs
  | .tuple xs => pure xs
  | .dict d => pure ((Dict.keys d).map .str)
  | v => throw ⟨.typeError, "'" ++ v.typeName ++ "' object is not iterable"⟩

/-- `list(iter(m))` -/
def iter [Library F] : Metric F → Except PyError (List (Metric F))
  | .val v => do
    let xs ← iterVal v
    pure (xs.map .val)
  | .list ms => pure ms
  | .array ms => pure ms
  | m => Library.iterObject m

/-- `bytes([n]).decode()` -/
def charOf (n : ℤ) : Except PyError (Val F) :=
  if 0 ≤ n ∧ n < 128 then pure (.str (String.singleton (Char.ofNat n.toNat)))
  else if 0 ≤ n ∧ n < 256 then
    let reason := if 0xc2 ≤ n ∧ n < 0xf5 then "unexpected end of data" else "invalid start byte"
    throw ⟨.valueError, "'utf-8' codec can't decode byte 0x" ++
      String.ofList (Nat.toDigits 16 n.toNat) ++ " in position 0: " ++ reason⟩
  else throw ⟨.valueError, "bytes must be in range(0, 256)"⟩

variable [FloatEq F] [Library F]

/-- `m == v` -/
def eq : Metric F → Val F → Bool
  | .val u, v => u.eq v
  | m, v => Library.eqObject m v

/-- What `verify_value` does with a value of a type that it does not ask for. -/
def verifyOther (m : Metric F) (v : Val F) : Except PyError Unit :=
  match m.get with
  | .val (.tuple xs) => do
    let ys ← iterVal v
    assertTrue (eq (.val (.tuple xs)) (.tuple ys))
  | m => assertTrue (eq m v)

/-- **A value is the one that is expected**, by `==`; a tuple is compared with a tuple. -/
def SameValue (m : Metric F) (v : Val F) : Prop :=
  match m.get with
  | .val (.tuple xs) => ∃ ys, iterVal v = .ok ys ∧ (Val.tuple xs).eq (.tuple ys) = true
  | m => eq m v = true

/-- The number is the ASCII code of the character that is expected. -/
def IsCode (n : ℤ) (v : Val F) : Prop :=
  0 ≤ n ∧ n < 128 ∧ (Val.str (String.singleton (Char.ofNat n.toNat))).eq v = true

omit [FloatEq F] [Library F] in
theorem assertTrue_eq_ok_iff {b : Bool} : assertTrue b = .ok () ↔ b = true := by
  cases b <;> simp [assertTrue, throw, throwThe, MonadExceptOf.throw, pure, Except.pure]

theorem verifyOther_eq_ok_iff (m : Metric F) (v : Val F) :
    verifyOther m v = .ok () ↔ SameValue m v := by
  unfold verifyOther SameValue
  split
  · refine ⟨fun h => ?_, fun ⟨ys, hys, h⟩ => ?_⟩
    · obtain ⟨ys, hys, h⟩ := exists_of_bind_ok h
      exact ⟨ys, hys, assertTrue_eq_ok_iff.mp h⟩
    · rw [hys, ok_bind]
      exact assertTrue_eq_ok_iff.mpr h
  · exact assertTrue_eq_ok_iff

theorem charOf_bind_eq_ok_iff (n : ℤ) (v : Val F) :
    (do let c ← charOf n; assertTrue (eq (.val c) v)) = .ok () ↔ IsCode n v := by
  unfold charOf IsCode
  by_cases hascii : 0 ≤ n ∧ n < 128
  · rw [if_pos hascii, pure_bind, assertTrue_eq_ok_iff]
    exact ⟨fun h => ⟨hascii.1, hascii.2, h⟩, fun h => h.2.2⟩
  · rw [if_neg hascii]
    refine ⟨fun h => ?_, fun h => absurd ⟨h.1, h.2.1⟩ hascii⟩
    split_ifs at h <;> cases h

end Values

/-! ## `verify_value` -/

section Verify

variable {F R : Type} [FloatEq F] [Library F] (verifyChar : Metric F → Val F → Except PyError Unit)

mutual

/-- `verify_value`, with its comparison of a character -/
def verifyValue : Datum F R → Metric F → Except PyError Unit
  | .char v, m => verifyChar m v
  | .value _ v, m => verifyOther m v
  | .list ds, m => do
    let ms ← iter m
    verifyPairs ds ms
  | .recordInst _ ds, m =>
    match m with
    | .record fs =>
      if fs.length = ds.length then verifyFields ds fs else throw ⟨.assertionError, ""⟩
    | _ => throw ⟨.assertionError, ""⟩
  | .recordType _, _ => pure ()
  | .recordArray _ ds, m => do
    let ms ← iter m
    verifyPairs ds ms

/-- The loop of `verify_list` and `verify_record_array`, and of `verify_set`. -/
def verifyPairs : List (Datum F R) → List (Metric F) → Except PyError Unit
  | d :: ds, m :: ms => do
    verifyValue d m
    verifyPairs ds ms
  | _, _ => pure ()

/-- The loop of `verify_record_inst`. -/
def verifyFields : List (Datum F R) → List (VType × Metric F) → Except PyError Unit
  | d :: ds, (t, m) :: fs => do
    assertTrue (t = d.type)
    verifyValue d m
    verifyFields ds fs
  | _, _ => pure ()

end

/-! ### What agrees -/

variable (SameChar : Metric F → Val F → Prop)

/-- **A metric has what its description says.** -/
inductive Agrees : Datum F R → Metric F → Prop where
  | char {v : Val F} {m : Metric F} : SameChar m v → Agrees (.char v) m
  | value {t : ℕ} {v : Val F} {m : Metric F} : SameValue m v → Agrees (.value t v) m
  | list {ds : List (Datum F R)} {m : Metric F} {ms : List (Metric F)} : iter m = .ok ms →
    List.Forall₂ Agrees ds ms → Agrees (.list ds) m
  | recordInst {r : R} {ds : List (Datum F R)} {fs : List (VType × Metric F)} :
    fs.map Prod.fst = ds.map Datum.type → List.Forall₂ Agrees ds (fs.map Prod.snd) →
    Agrees (.recordInst r ds) (.record fs)
  | recordType {r : R} {m : Metric F} : Agrees (.recordType r) m
  | recordArray {r : R} {ds : List (Datum F R)} {m : Metric F} {ms : List (Metric F)} :
    iter m = .ok ms → List.Forall₂ Agrees ds ms → Agrees (.recordArray r ds) m

/-- **What stands at one place agrees**, at every level. -/
inductive Paired : Datum F R → Metric F → Prop where
  | char {v : Val F} {m : Metric F} : SameChar m v → Paired (.char v) m
  | value {t : ℕ} {v : Val F} {m : Metric F} : SameValue m v → Paired (.value t v) m
  | list {ds : List (Datum F R)} {m : Metric F} {ms : List (Metric F)} : iter m = .ok ms →
    (∀ p ∈ ds.zip ms, Paired p.1 p.2) → Paired (.list ds) m
  | recordInst {r : R} {ds : List (Datum F R)} {fs : List (VType × Metric F)} :
    fs.map Prod.fst = ds.map Datum.type → (∀ p ∈ ds.zip (fs.map Prod.snd), Paired p.1 p.2) →
    Paired (.recordInst r ds) (.record fs)
  | recordType {r : R} {m : Metric F} : Paired (.recordType r) m
  | recordArray {r : R} {ds : List (Datum F R)} {m : Metric F} {ms : List (Metric F)} :
    iter m = .ok ms → (∀ p ∈ ds.zip ms, Paired p.1 p.2) → Paired (.recordArray r ds) m

omit [FloatEq F] in
/-- **There are as many members** as are described, at every level. -/
inductive SameShape : Datum F R → Metric F → Prop where
  | char {v : Val F} {m : Metric F} : SameShape (.char v) m
  | value {t : ℕ} {v : Val F} {m : Metric F} : SameShape (.value t v) m
  | list {ds : List (Datum F R)} {m : Metric F} {ms : List (Metric F)} : iter m = .ok ms →
    ds.length = ms.length → (∀ p ∈ ds.zip ms, SameShape p.1 p.2) → SameShape (.list ds) m
  | recordInst {r : R} {ds : List (Datum F R)} {fs : List (VType × Metric F)} :
    ds.length = fs.length → (∀ p ∈ ds.zip (fs.map Prod.snd), SameShape p.1 p.2) →
    SameShape (.recordInst r ds) (.record fs)
  | recordType {r : R} {m : Metric F} : SameShape (.recordType r) m
  | recordArray {r : R} {ds : List (Datum F R)} {m : Metric F} {ms : List (Metric F)} :
    iter m = .ok ms → ds.length = ms.length → (∀ p ∈ ds.zip ms, SameShape p.1 p.2) →
    SameShape (.recordArray r ds) m

variable {verifyChar SameChar}

/-! ### What the comparison accepts -/

/-- The parts of a sequence of two comparisons. -/
theorem seq_eq_ok_iff {x y : Except PyError Unit} :
    (do x; y) = .ok () ↔ x = .ok () ∧ y = .ok () := by
  cases x with
  | error e => exact ⟨nofun, fun h => nomatch h.1⟩
  | ok u => exact ⟨fun h => ⟨rfl, h⟩, fun h => h.2⟩

theorem verifyPairs_eq_ok_iff {ds : List (Datum F R)} {ms : List (Metric F)}
    (h : ∀ d ∈ ds, ∀ m, verifyValue verifyChar d m = .ok () ↔ Paired SameChar d m) :
    verifyPairs verifyChar ds ms = .ok () ↔ ∀ p ∈ ds.zip ms, Paired SameChar p.1 p.2 := by
  induction ds generalizing ms with
  | nil => exact ⟨fun _ => List.forall_mem_nil _, fun _ => by rw [verifyPairs]; rfl; nofun⟩
  | cons d ds ih =>
    obtain ⟨hd, hds⟩ := List.forall_mem_cons.mp h
    cases ms with
    | nil => exact ⟨fun _ => List.forall_mem_nil _, fun _ => by rw [verifyPairs]; rfl; nofun⟩
    | cons m ms =>
      rw [verifyPairs, seq_eq_ok_iff, hd, ih hds, List.zip_cons_cons, List.forall_mem_cons]

theorem verifyFields_eq_ok_iff {ds : List (Datum F R)} {fs : List (VType × Metric F)}
    (h : ∀ d ∈ ds, ∀ m, verifyValue verifyChar d m = .ok () ↔ Paired SameChar d m)
    (hlen : fs.length = ds.length) :
    verifyFields verifyChar ds fs = .ok () ↔ fs.map Prod.fst = ds.map Datum.type ∧
      ∀ p ∈ ds.zip (fs.map Prod.snd), Paired SameChar p.1 p.2 := by
  induction ds generalizing fs with
  | nil =>
    obtain rfl := List.length_eq_zero_iff.mp hlen
    exact ⟨fun _ => ⟨rfl, List.forall_mem_nil _⟩, fun _ => by rw [verifyFields]; rfl; nofun⟩
  | cons d ds ih =>
    obtain ⟨hd, hds⟩ := List.forall_mem_cons.mp h
    obtain ⟨⟨t, m⟩, fs, rfl⟩ := List.exists_cons_of_length_eq_add_one hlen
    rw [verifyFields, seq_eq_ok_iff, seq_eq_ok_iff, assertTrue_eq_ok_iff, decide_eq_true_iff, hd,
      ih hds (Nat.succ_inj.mp hlen), List.map_cons, List.map_cons, List.map_cons, List.cons_eq_cons,
      List.zip_cons_cons, List.forall_mem_cons]
    tauto

/-- **The comparison accepts what agrees at every place**, and nothing else. -/
theorem verifyValue_eq_ok_iff (hchar : ∀ m v, verifyChar m v = .ok () ↔ SameChar m v)
    (d : Datum F R) (m : Metric F) :
    verifyValue verifyChar d m = .ok () ↔ Paired SameChar d m := by
  have hpairs {ds : List (Datum F R)} {m : Metric F}
      (ih : ∀ d ∈ ds, ∀ m, verifyValue verifyChar d m = .ok () ↔ Paired SameChar d m) :
      (do let ms ← iter m; verifyPairs verifyChar ds ms) = .ok () ↔
        ∃ ms, iter m = .ok ms ∧ ∀ p ∈ ds.zip ms, Paired SameChar p.1 p.2 := by
    refine ⟨fun h => ?_, fun ⟨ms, hms, h⟩ => ?_⟩
    · obtain ⟨ms, hms, h⟩ := exists_of_bind_ok h
      exact ⟨ms, hms, (verifyPairs_eq_ok_iff ih).mp h⟩
    · rw [hms, ok_bind, verifyPairs_eq_ok_iff ih]
      exact h
  induction d generalizing m with
  | char v =>
    rw [verifyValue, hchar]
    refine ⟨.char, fun h => ?_⟩
    cases h with
    | char h => exact h
  | value t v =>
    rw [verifyValue, verifyOther_eq_ok_iff]
    refine ⟨.value, fun h => ?_⟩
    cases h with
    | value h => exact h
  | recordType r => exact ⟨fun _ => .recordType, fun _ => by rw [verifyValue]; rfl⟩
  | list ds ih =>
    rw [verifyValue, hpairs ih]
    refine ⟨fun ⟨ms, hms, h⟩ => .list hms h, fun h => ?_⟩
    cases h with
    | list hms h => exact ⟨_, hms, h⟩
  | recordArray r ds ih =>
    rw [verifyValue, hpairs ih]
    refine ⟨fun ⟨ms, hms, h⟩ => .recordArray hms h, fun h => ?_⟩
    cases h with
    | recordArray hms h => exact ⟨_, hms, h⟩
  | recordInst r ds ih =>
    cases m with
    | record fs =>
      rw [verifyValue]
      by_cases hlen : fs.length = ds.length
      · rw [if_pos hlen, verifyFields_eq_ok_iff ih hlen]
        refine ⟨fun ⟨htypes, h⟩ => .recordInst htypes h, fun h => ?_⟩
        cases h with
        | recordInst htypes h => exact ⟨htypes, h⟩
      · rw [if_neg hlen]
        refine ⟨nofun, fun h => ?_⟩
        cases h with
        | recordInst htypes h =>
          have := congrArg List.length htypes
          rw [List.length_map, List.length_map] at this
          exact absurd this hlen
    | _ =>
      rw [verifyValue]
      · exact ⟨nofun, nofun⟩
      · nofun

theorem forall₂_agrees_iff {ds : List (Datum F R)} {ms : List (Metric F)}
    (h : ∀ d ∈ ds, ∀ m, Agrees SameChar d m ↔ Paired SameChar d m ∧ SameShape d m) :
    List.Forall₂ (Agrees SameChar) ds ms ↔ (∀ p ∈ ds.zip ms, Paired SameChar p.1 p.2) ∧
      ds.length = ms.length ∧ ∀ p ∈ ds.zip ms, SameShape p.1 p.2 := by
  rw [List.forall₂_iff_zip]
  refine ⟨fun ⟨hlen, hagrees⟩ => ?_, fun ⟨hpaired, hlen, hshape⟩ => ⟨hlen, fun {d m} hp => ?_⟩⟩
  · have hboth : ∀ p ∈ ds.zip ms, Paired SameChar p.1 p.2 ∧ SameShape p.1 p.2 := fun p hp =>
      (h p.1 (List.of_mem_zip hp).1 p.2).mp (hagrees hp)
    exact ⟨fun p hp => (hboth p hp).1, hlen, fun p hp => (hboth p hp).2⟩
  · exact (h d (List.of_mem_zip hp).1 m).mpr ⟨hpaired _ hp, hshape _ hp⟩

/-- **To agree is to agree at every place and to have as many of them.** -/
theorem datum_agrees_iff (d : Datum F R) (m : Metric F) :
    Agrees SameChar d m ↔ Paired SameChar d m ∧ SameShape d m := by
  induction d generalizing m with
  | char v =>
    refine ⟨fun h => ?_, fun ⟨h, _⟩ => ?_⟩
    · cases h with
      | char h => exact ⟨.char h, .char⟩
    · cases h with
      | char h => exact .char h
  | value t v =>
    refine ⟨fun h => ?_, fun ⟨h, _⟩ => ?_⟩
    · cases h with
      | value h => exact ⟨.value h, .value⟩
    · cases h with
      | value h => exact .value h
  | recordType r => exact ⟨fun _ => ⟨.recordType, .recordType⟩, fun _ => .recordType⟩
  | list ds ih =>
    refine ⟨fun h => ?_, fun ⟨hpaired, hshape⟩ => ?_⟩
    · cases h with
      | list hms h =>
        obtain ⟨hpaired, hlen, hshape⟩ := (forall₂_agrees_iff ih).mp h
        exact ⟨.list hms hpaired, .list hms hlen hshape⟩
    · cases hpaired with
      | list hms hpaired =>
        cases hshape with
        | list hms' hlen hshape =>
          obtain rfl := Except.ok.inj (hms.symm.trans hms')
          exact .list hms ((forall₂_agrees_iff ih).mpr ⟨hpaired, hlen, hshape⟩)
  | recordArray r ds ih =>
    refine ⟨fun h => ?_, fun ⟨hpaired, hshape⟩ => ?_⟩
    · cases h with
      | recordArray hms h =>
        obtain ⟨hpaired, hlen, hshape⟩ := (forall₂_agrees_iff ih).mp h
        exact ⟨.recordArray hms hpaired, .recordArray hms hlen hshape⟩
    · cases hpaired with
      | recordArray hms hpaired =>
        cases hshape with
        | recordArray hms' hlen hshape =>
          obtain rfl := Except.ok.inj (hms.symm.trans hms')
          exact .recordArray hms ((forall₂_agrees_iff ih).mpr ⟨hpaired, hlen, hshape⟩)
  | recordInst r ds ih =>
    refine ⟨fun h => ?_, fun ⟨hpaired, hshape⟩ => ?_⟩
    · cases h with
      | recordInst htypes h =>
        obtain ⟨hpaired, hlen, hshape⟩ := (forall₂_agrees_iff ih).mp h
        exact ⟨.recordInst htypes hpaired, .recordInst (by rwa [List.length_map] at hlen) hshape⟩
    · cases hpaired with
      | recordInst htypes hpaired =>
        cases hshape with
        | recordInst hlen hshape =>
          refine .recordInst htypes ((forall₂_agrees_iff ih).mpr ⟨hpaired, ?_, hshape⟩)
          rwa [List.length_map]

end Verify

/-! ## `verify_set` -/

/-- A set. -/
structure MetricSet (F : Type) where
  name : String
  isConsistent : Bool
  items : List (String × Metric F)

section Sets

variable {F R : Type} [FloatEq F] [Library F]

/-- `verify_set`, with its comparison of a character, the metric that it reads first, and the data
that it generates from that where no description is given. -/
def verifySet (verifyChar : Metric F → Val F → Except PyError Unit)
    (seedOf : MetricSet F → Except PyError (Metric F)) (genData : Metric F → List (Datum F R))
    (s : MetricSet F) (data : Option (List (Datum F R))) : Except PyError Unit := do
  if ¬ s.isConsistent then throw ⟨.valueError, "set `" ++ s.name ++ "` is not consistent"⟩
  let seed ← seedOf s
  verifyPairs verifyChar (data.getD (genData seed)) (s.items.map Prod.snd)

/-- **A set agrees with its description.** -/
def SetAgrees (SameChar : Metric F → Val F → Prop) (ds : List (Datum F R))
    (s : MetricSet F) : Prop :=
  List.Forall₂ (Agrees SameChar) ds (s.items.map Prod.snd)

/-- **What stands at one place agrees**, in a set. -/
def SetPaired (SameChar : Metric F → Val F → Prop) (ds : List (Datum F R))
    (s : MetricSet F) : Prop :=
  ∀ p ∈ ds.zip (s.items.map Prod.snd), Paired SameChar p.1 p.2

omit [FloatEq F] in
/-- **There are as many metrics**, and as many members at every level. -/
def SetSameShape (ds : List (Datum F R)) (s : MetricSet F) : Prop :=
  ds.length = s.items.length ∧ ∀ p ∈ ds.zip (s.items.map Prod.snd), SameShape p.1 p.2

theorem setAgrees_iff {SameChar : Metric F → Val F → Prop}
    {ds : List (Datum F R)} {s : MetricSet F} :
    SetAgrees SameChar ds s ↔ SetPaired SameChar ds s ∧ SetSameShape ds s := by
  rw [SetAgrees, forall₂_agrees_iff fun d _ => datum_agrees_iff d, List.length_map]
  rfl

/-- **The set is accepted** if it is consistent, has the metric that is read first, and agrees at
every place. -/
theorem verifySet_eq_ok_iff {verifyChar : Metric F → Val F → Except PyError Unit}
    {SameChar : Metric F → Val F → Prop} (hchar : ∀ m v, verifyChar m v = .ok () ↔ SameChar m v)
    {seedOf : MetricSet F → Except PyError (Metric F)} {genData : Metric F → List (Datum F R)}
    {s : MetricSet F} {data : Option (List (Datum F R))} :
    verifySet verifyChar seedOf genData s data = .ok () ↔ s.isConsistent = true ∧
      ∃ seed, seedOf s = .ok seed ∧ SetPaired SameChar (data.getD (genData seed)) s := by
  rw [verifySet]
  cases hconsistent : s.isConsistent with
  | false => exact ⟨nofun, fun h => nomatch h.1⟩
  | true =>
    rw [if_neg (not_not.mpr rfl)]
    refine ⟨fun h => ⟨rfl, ?_⟩, fun ⟨_, seed, hseed, h⟩ => ?_⟩
    · obtain ⟨seed, hseed, h⟩ := exists_of_bind_ok h
      exact ⟨seed, hseed, (verifyPairs_eq_ok_iff fun d _ => verifyValue_eq_ok_iff hchar d).mp h⟩
    · change (seedOf s >>= _) = _
      rw [hseed, ok_bind]
      exact (verifyPairs_eq_ok_iff fun d _ => verifyValue_eq_ok_iff hchar d).mpr h

/-- **The comparison is sound** where two metrics that stand at one place do not agree, or there are
as many at every level. -/
theorem sound_iff {verifyChar : Metric F → Val F → Except PyError Unit}
    {SameChar : Metric F → Val F → Prop} (hchar : ∀ m v, verifyChar m v = .ok () ↔ SameChar m v)
    (seedOf : MetricSet F → Except PyError (Metric F)) (genData : Metric F → List (Datum F R))
    (s : MetricSet F) (data : Option (List (Datum F R))) :
    (verifySet verifyChar seedOf genData s data = .ok () →
        ∀ seed, seedOf s = .ok seed → SetAgrees SameChar (data.getD (genData seed)) s) ↔
      (s.isConsistent = true → ∀ seed, seedOf s = .ok seed →
        SetPaired SameChar (data.getD (genData seed)) s →
          SetSameShape (data.getD (genData seed)) s) := by
  rw [verifySet_eq_ok_iff hchar]
  refine ⟨fun h hconsistent seed hseed hpaired => ?_, fun h => ?_⟩
  · exact (setAgrees_iff.mp (h ⟨hconsistent, seed, hseed, hpaired⟩ seed hseed)).2
  · rintro ⟨hconsistent, seed, hseed, hpaired⟩ seed' hseed'
    obtain rfl := Except.ok.inj (hseed.symm.trans hseed')
    exact setAgrees_iff.mpr ⟨hpaired, h hconsistent seed hseed hpaired⟩

end Sets

namespace ListCommon

variable {F : Type} [FloatEq F] [Library F]

/-- What `list_common.verify_value` does with a character, which it takes for a number. -/
def verifyChar (m : Metric F) (v : Val F) : Except PyError Unit :=
  match m.get with
  | .val (.int n) => do
    let c ← charOf n
    assertTrue (eq (.val c) v)
  | .val (.bool b) => do
    let c ← charOf b.toNat
    assertTrue (eq (.val c) v)
  | m => throw ⟨.typeError, "'" ++ m.typeName ++ "' object cannot be interpreted as an integer"⟩

/-- **A number is the character that is expected.** -/
def SameChar (m : Metric F) (v : Val F) : Prop :=
  match m.get with
  | .val (.int n) => IsCode n v
  | .val (.bool b) => IsCode b.toNat v
  | _ => False

theorem verifyChar_eq_ok_iff (m : Metric F) (v : Val F) :
    verifyChar m v = .ok () ↔ SameChar m v := by
  unfold verifyChar SameChar
  split
  · exact charOf_bind_eq_ok_iff _ v
  · exact charOf_bind_eq_ok_iff _ v
  · exact ⟨nofun, nofun⟩

/-- `s[0]` -/
def seedOf (s : MetricSet F) : Except PyError (Metric F) :=
  match s.items with
  | [] => throw ⟨.indexError, "0"⟩
  | (_, m) :: _ => pure m

/-- `list_common.verify_set`, where no description has a record -/
def verifySet (genData : Metric F → List (Datum F Empty)) (s : MetricSet F)
    (data : Option (List (Datum F Empty))) : Except PyError Unit :=
  VerifySet.verifySet verifyChar seedOf genData s data

end ListCommon

namespace RecordCommon

variable {F : Type} [FloatEq F] [Library F]

/-- What `record_common.verify_value` does with a character. -/
def verifyChar (m : Metric F) (v : Val F) : Except PyError Unit :=
  match m.get with
  | .val (.int n) => do
    let c ← charOf n
    assertTrue (eq (.val c) v)
  | m => assertTrue (eq m v)

/-- **A number is the character that is expected**, and anything else is it as it stands. -/
def SameChar (m : Metric F) (v : Val F) : Prop :=
  match m.get with
  | .val (.int n) => IsCode n v
  | m => eq m v = true

theorem verifyChar_eq_ok_iff (m : Metric F) (v : Val F) :
    verifyChar m v = .ok () ↔ SameChar m v := by
  unfold verifyChar SameChar
  split
  · exact charOf_bind_eq_ok_iff _ v
  · exact assertTrue_eq_ok_iff

/-- `s["round"]` -/
def seedOf (s : MetricSet F) : Except PyError (Metric F) :=
  match Dict.get? s.items "round" with
  | some m => pure m
  | none => throw ⟨.keyError, "'round'"⟩

/-- `record_common.verify_set` -/
def verifySet (genData : Metric F → List (Datum F Unit)) (s : MetricSet F)
    (data : Option (List (Datum F Unit))) : Except PyError Unit :=
  VerifySet.verifySet verifyChar seedOf genData s data

end RecordCommon

/-- **`verify_set` is sound**, in both modules, exactly where two metrics that stand at one place do
not agree, or there are as many at every level. -/
theorem verifySet_sound_iff {F : Type} [FloatEq F] [Library F] :
    (∀ (genData : Metric F → List (Datum F Empty)) (s : MetricSet F)
      (data : Option (List (Datum F Empty))),
      (ListCommon.verifySet genData s data = .ok () → ∀ seed, ListCommon.seedOf s = .ok seed →
          SetAgrees ListCommon.SameChar (data.getD (genData seed)) s) ↔
        (s.isConsistent = true → ∀ seed, ListCommon.seedOf s = .ok seed →
          SetPaired ListCommon.SameChar (data.getD (genData seed)) s →
            SetSameShape (data.getD (genData seed)) s)) ∧
    ∀ (genData : Metric F → List (Datum F Unit)) (s : MetricSet F)
      (data : Option (List (Datum F Unit))),
      (RecordCommon.verifySet genData s data = .ok () → ∀ seed, RecordCommon.seedOf s = .ok seed →
          SetAgrees RecordCommon.SameChar (data.getD (genData seed)) s) ↔
        (s.isConsistent = true → ∀ seed, RecordCommon.seedOf s = .ok seed →
          SetPaired RecordCommon.SameChar (data.getD (genData seed)) s →
            SetSameShape (data.getD (genData seed)) s) :=
  ⟨sound_iff ListCommon.verifyChar_eq_ok_iff ListCommon.seedOf,
    sound_iff RecordCommon.verifyChar_eq_ok_iff RecordCommon.seedOf⟩

section Example

open Json (SampleFloat)

instance : Library SampleFloat where
  iterObject _ := throw ⟨.typeError, "object is not iterable"⟩
  eqObject _ _ := false

/-- **A set of one metric** is accepted where two are expected. -/
theorem not_sound_one_metric :
    ¬ (ListCommon.verifySet (F := SampleFloat) (fun _ => []) ⟨"s", true, [("x", .val (.int 1))]⟩
        (some [.value 8 (.int 1), .value 8 (.int 2)]) = .ok () →
      ∀ seed, ListCommon.seedOf (⟨"s", true, [("x", .val (.int 1))]⟩ : MetricSet SampleFloat) =
        .ok seed → SetAgrees ListCommon.SameChar
          ((some [.value 8 (.int 1), .value 8 (.int 2)] : Option (List (Datum SampleFloat Empty))).getD
            []) ⟨"s", true, [("x", .val (.int 1))]⟩) := by
  intro h
  have hagrees := h rfl _ rfl
  have hlen := hagrees.length_eq
  cases hlen

end Example

end VerifySet
end LdmsTest
