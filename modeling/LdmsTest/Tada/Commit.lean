import LdmsTest.Tada.Database

/-!
# `commit` and `reload`

`commit` leaves out the attributes that are `None` and passes all others through `str`, and `reload`
reads the row of the primary key again.

* `reload`: the method of the source.
* `reads_back_iff`: when an attribute is read as it was assigned.
* `persists_iff`: when all of them are.
-/

namespace LdmsTest
namespace Tada
namespace SQLModel

open Sql (Schema Table Row Cell Affinity ColType)

section Methods

variable {S : Schema} {F : Type}

/-- `self._on_data_update(data)` -/
def Obj.onDataUpdate (obj : Obj S F) (data : Row F) : Obj S F where
  attrs := (ofRow S data).attrs
  objId := obj.objId
  keys_attrs := (ofRow S data).keys_attrs
  keys_objId := obj.keys_objId

variable [PyRuntime F] [DecidableEq F] [Affinity F]

/-- `self._query()` -/
def query (obj : Obj S F) (t : Table S F) : Except PyError (Option (Row F)) := do
  let rows ← execute (t.select (texts obj.objId))
  pure rows.head?

/-- `self.reload()` -/
def reload (obj : Obj S F) (t : Table S F) : Except PyError (Obj S F) := do
  match ← query obj t with
  | some data => pure (obj.onDataUpdate data)
  | none => throw ⟨.typeError, "'NoneType' object is not iterable"⟩

end Methods

/-! ## Rows and their objects -/

section Rows

variable {S : Schema} {F : Type}

/-- What may be assigned to a column of a type. -/
inductive Admits : ColType → Val F → Prop where
  | null (ty : ColType) : Admits ty .none
  | text (s : String) : Admits .text (.str s)
  | integer (n : ℤ) : Admits .integer (.int n)

/-- A column that is not of the primary key. -/
def Plain (S : Schema) (k : String) : Prop :=
  k ∈ S.names ∧ k ∉ S.ids

/-- The attributes are of the types of their columns. -/
def Obj.Typed (obj : Obj S F) : Prop :=
  ∀ k ty, Dict.get? S.cols k = some ty → k ∉ S.ids → Admits ty (obj.attr k)

/-- The object is one of the row: its primary key is that of the row, and is no null. -/
structure Obj.HandleOf (obj : Obj S F) (r : Row F) : Prop where
  objId_eq : obj.objId = (Obj.ofRow S r).objId
  key : ∀ k ∈ S.ids, ∃ s, Dict.get? r k = some (.text s)

theorem eq_null_of_cellVal {c : Cell F} (h : cellVal c = .none) : c = .null := by
  cases c with
  | null => rfl
  | int n => cases h
  | real x => cases h
  | text s => cases h

theorem eq_int_of_cellVal {c : Cell F} {n : ℤ} (h : cellVal c = .int n) : c = .int n := by
  cases c with
  | int m =>
    cases h
    rfl
  | null => cases h
  | real x => cases h
  | text s => cases h

/-- Integers that do not fit into 64 bits are no integers in an integer column. -/
def Bounded (F : Type) [Affinity F] : Prop :=
  ∀ n : ℤ, (Affinity.integer (toString n) : Cell F) = .int n → -2 ^ 63 ≤ n ∧ n < 2 ^ 63

variable [PyRuntime F] [DecidableEq F] [Affinity F] {obj : Obj S F} {t u : Table S F} {r : Row F}

/-- A row has the primary key of its objects. -/
theorem Obj.HandleOf.meets (h : obj.HandleOf r) : S.meets (texts obj.objId) r := by
  rw [Schema.meets_iff]
  intro p hp
  rw [h.objId_eq] at hp
  obtain ⟨q, hq, rfl⟩ := List.mem_map.mp hp
  obtain ⟨k, hk, rfl⟩ := List.mem_map.mp hq
  obtain ⟨s, hs⟩ := h.key k hk
  dsimp only
  rw [hs, S.cell_of_mem_ids hk]
  rfl

/-- `reload` reads the row with the primary key. -/
theorem reload_eq (hr : r ∈ t.rows) (hmeets : S.meets (texts obj.objId) r) :
    reload obj t = .ok (obj.onDataUpdate r) := by
  have hkeys : ∀ k ∈ S.ids, k ∈ Dict.keys (texts obj.objId) := fun k hk => by
    rwa [keys_texts, obj.keys_objId]
  have hrow : t.rows.filter (S.meets (texts obj.objId)) = [r] := by
    have hmem : r ∈ t.rows.filter (S.meets (texts obj.objId)) := List.mem_filter.mpr ⟨hr, hmeets⟩
    rcases t.filter_meets_eq hkeys with ⟨hno, -⟩ | ⟨s, -, -, hs⟩
    · rw [hno r hr] at hmeets
      cases hmeets
    · rw [hs, List.mem_singleton] at hmem
      rw [hs, hmem]
  rw [reload, query, Table.select, if_pos (knows_of_keys_eq obj.keys_objId), hrow]
  rfl

/-- The row of an object after `commit`. -/
def committed (obj : Obj S F) (r : Row F) : Row F :=
  S.assign (texts obj.changes) r

omit [DecidableEq F] in
theorem get?_committed_of_none {k : String} (hk : k ∈ S.names) (hnone : obj.attr k = .none) (r : Row F) :
    Dict.get? (committed obj r) k = Dict.get? r k := by
  refine S.get?_assign_of_notMem (fun hmem => ?_) r
  rw [keys_texts] at hmem
  obtain ⟨p, hp, rfl⟩ := List.mem_map.mp hmem
  obtain ⟨hattrs, -, hsome⟩ := Obj.mem_changes_iff.mp hp
  have hget := Dict.get?_of_mem (obj.keys_attrs ▸ S.nodup) hattrs
  rw [Obj.attr, hget, Option.getD_some] at hnone
  rw [hnone] at hsome
  cases hsome

omit [DecidableEq F] in
/-- **An attribute is read as it was assigned** exactly if it is set, or its cell was null already,
and if it fits into 64 bits, where it is an integer. -/
theorem reads_back_iff (hbounded : Bounded F) (htyped : obj.Typed) (hr : Dict.keys r = S.names)
    {k : String} (hk : Plain S k) :
    (Obj.ofRow S (committed obj r)).attr k = obj.attr k ↔
      (obj.attr k = .none → Dict.get? r k = some .null) ∧
        ∀ n, obj.attr k = .int n → -2 ^ 63 ≤ n ∧ n < 2 ^ 63 := by
  obtain ⟨ty, hty⟩ := Option.isSome_iff_exists.mp (Dict.isSome_get?_iff.mpr hk.1)
  obtain ⟨c, hc⟩ := Option.isSome_iff_exists.mp (Dict.isSome_get?_iff.mpr (hr.symm ▸ hk.1))
  rw [Obj.attr_ofRow hk.1]
  have hadmits := htyped k ty hty hk.2
  generalize hv : obj.attr k = v at hadmits
  cases hadmits with
  | null =>
    rw [get?_committed_of_none hk.1 hv, hc, Option.getD_some]
    constructor
    · intro h
      refine ⟨fun _ => by rw [eq_null_of_cellVal h], fun m hm => ?_⟩
      cases hm
    · rintro ⟨h, -⟩
      rw [Option.some.inj (h rfl)]
      rfl
  | text s =>
    rw [committed, get?_assign_changes hk.1 hk.2 (by rw [hv]; rfl), hv, Schema.cell, hty]
    refine ⟨fun _ => ⟨fun h => ?_, fun m hm => ?_⟩, fun _ => rfl⟩
    · cases h
    · cases hm
  | integer n =>
    rw [committed, get?_assign_changes hk.1 hk.2 (by rw [hv]; rfl), hv, Schema.cell, hty]
    show cellVal (Affinity.integer (toString n)) = .int n ↔ _
    constructor
    · intro h
      refine ⟨fun hnone => ?_, fun m hm => ?_⟩
      · cases hnone
      · cases hm
        exact hbounded n (eq_int_of_cellVal h)
    · rintro ⟨-, h⟩
      rw [Affinity.integer_toString n (h n rfl).1 (h n rfl).2]
      rfl

/-- `commit` keeps the primary key of a row. -/
theorem meets_committed (obj : Obj S F) (r : Row F) :
    S.meets (texts obj.objId) (committed obj r) = S.meets (texts obj.objId) r := by
  rw [Bool.eq_iff_iff, Schema.meets_iff, Schema.meets_iff]
  refine forall₂_congr fun p hp => ?_
  have hk : p.1 ∈ S.ids := by
    rw [← obj.keys_objId, ← keys_texts]
    exact List.mem_map_of_mem hp
  rw [committed, get?_assign_of_mem_ids obj hk]

/-! ## What is left in the database -/

/-- **What is assigned is in the database**: `commit` does not raise, every object of the row reads
the values after `reload`, and the rows with other primary keys are as they were. -/
def Persists (obj : Obj S F) (t : Table S F) : Prop :=
  ∃ u, commit obj t = .ok u ∧
    (∀ handle : Obj S F, handle.objId = obj.objId → ∃ handle', reload handle u = .ok handle' ∧
      ∀ k, Plain S k → handle'.attr k = obj.attr k) ∧
    u.rows.filter (fun r => !S.meets (texts obj.objId) r) =
      t.rows.filter fun r => !S.meets (texts obj.objId) r

/-- There is something to write, what is cleared was null before, and integers fit into 64 bits. -/
structure Writable (obj : Obj S F) (r : Row F) : Prop where
  set : ∃ k, Plain S k ∧ obj.attr k ≠ .none
  cleared : ∀ k, Plain S k → obj.attr k = .none → Dict.get? r k = some .null
  fits : ∀ k, Plain S k → ∀ n, obj.attr k = .int n → -2 ^ 63 ≤ n ∧ n < 2 ^ 63

theorem changes_ne_nil_of_commit (h : commit obj t = .ok u) : obj.changes ≠ [] := by
  intro hnil
  have hupdate := execute_eq_ok_iff.mp h
  unfold Table.update at hupdate
  rw [hnil] at hupdate
  simp [texts] at hupdate

/-- The row of an object after `commit`, as `reload` finds it. -/
theorem reload_commit (hr : r ∈ t.rows) (hobj : obj.HandleOf r) (hcommit : commit obj t = .ok u)
    {handle : Obj S F} (hhandle : handle.objId = obj.objId) :
    reload handle u = .ok (handle.onDataUpdate (committed obj r)) := by
  have hmem : committed obj r ∈ u.rows := by
    rw [rows_of_commit hcommit]
    refine List.mem_map.mpr ⟨r, hr, ?_⟩
    rw [if_pos hobj.meets]
    rfl
  refine reload_eq hmem ?_
  rw [hhandle, meets_committed]
  exact hobj.meets

/-- `commit` leaves the rows with other primary keys alone. -/
theorem filter_commit (h : commit obj t = .ok u) :
    u.rows.filter (fun r => !S.meets (texts obj.objId) r) =
      t.rows.filter fun r => !S.meets (texts obj.objId) r := by
  rw [rows_of_commit h, List.filter_map]
  have hsame : ((fun r : Row F => !S.meets (texts obj.objId) r) ∘ fun r =>
      if S.meets (texts obj.objId) r then S.assign (texts obj.changes) r else r) =
        fun r => !S.meets (texts obj.objId) r := by
    funext r
    rw [Function.comp_apply]
    split
    · exact congrArg _ (meets_committed obj r)
    · rfl
  rw [hsame]
  refine (List.map_congr_left fun r hr => ?_).trans (List.map_id _)
  have hno := (List.mem_filter.mp hr).2
  rw [Bool.not_eq_true'] at hno
  rw [hno, if_neg Bool.false_ne_true]
  rfl

/-- **`commit` and `reload`** give back what was assigned exactly if there is something to write,
what is cleared was null before, and integers fit into 64 bits. -/
theorem persists_iff (hbounded : Bounded F) (hr : r ∈ t.rows) (hobj : obj.HandleOf r)
    (htyped : obj.Typed) : Persists obj t ↔ Writable obj r := by
  have hkeys := t.keys_eq r hr
  constructor
  · rintro ⟨u, hcommit, hreload, -⟩
    obtain ⟨obj', hobj', hattr⟩ := hreload obj rfl
    rw [reload_commit hr hobj hcommit rfl] at hobj'
    cases hobj'
    have hread {k : String} (hk : Plain S k) :=
      (reads_back_iff (F := F) hbounded htyped hkeys hk).mp (hattr k hk)
    obtain ⟨p, hp⟩ := List.exists_mem_of_ne_nil _ (changes_ne_nil_of_commit hcommit)
    obtain ⟨hattrs, hid, hsome⟩ := Obj.mem_changes_iff.mp hp
    refine ⟨⟨p.1, ⟨?_, hid⟩, ?_⟩, fun k hk => (hread hk).1, fun k hk => (hread hk).2⟩
    · rw [← obj.keys_attrs]
      exact List.mem_map_of_mem hattrs
    · rw [Obj.attr, Dict.get?_of_mem (obj.keys_attrs ▸ S.nodup) hattrs, Option.getD_some]
      intro hnone
      rw [hnone] at hsome
      cases hsome
  · rintro ⟨⟨k, hk, hset⟩, hcleared, hfits⟩
    have hsome : isSome (obj.attr k) := by
      cases hv : obj.attr k with
      | none => exact absurd hv hset
      | _ => rfl
    obtain ⟨u, hcommit, -⟩ := exists_commit_eq_ok (Obj.changes_ne_nil hk.1 hk.2 hsome) t
    refine ⟨u, hcommit, fun handle hhandle => ?_, filter_commit hcommit⟩
    refine ⟨_, reload_commit hr hobj hcommit hhandle, fun k hk => ?_⟩
    exact (reads_back_iff hbounded htyped hkeys hk).mpr ⟨hcleared k hk, hfits k hk⟩

end Rows

/-! ## A test -/

theorem bounded_sampleFloat : Bounded Json.SampleFloat := by
  intro n h
  dsimp only [Affinity.integer] at h
  rw [Json.toList_toString, Json.scanNumber_intText] at h
  dsimp only at h
  rw [Json.ofInteger_intText] at h
  split at h
  · next hn => exact hn
  · cases h

/-- The row of a test. -/
def sampleRow : Row Json.SampleFloat :=
  testRow "one" "suite" "NA" "test one" "root" "abcde" "description" 10 20

def sampleTable : Table TADATest Json.SampleFloat where
  rows := [sampleRow]
  keys_eq := by decide
  unique := by decide

/-- `o.test_type = v` -/
def retyped (v : Val Json.SampleFloat) : Obj TADATest Json.SampleFloat :=
  (Obj.ofRow TADATest sampleRow).setAttr "test_type" v

theorem handleOf_retyped (v : Val Json.SampleFloat) : (retyped v).HandleOf sampleRow where
  objId_eq := rfl
  key k hk := by
    rw [List.mem_singleton.mp hk]
    exact ⟨"one", rfl⟩

theorem typed_retyped {v : Val Json.SampleFloat} (hv : Admits .text v) : (retyped v).Typed := by
  intro k ty hty _
  have hk : k ∈ TADATest.names := Dict.mem_keys_of_get? hty
  rw [retyped, Obj.attr_setAttr hk, Obj.attr_ofRow hk]
  have hmem := Dict.mem_of_get? hty
  simp only [TADATest, List.mem_cons, Prod.mk.injEq, List.not_mem_nil, or_false] at hmem
  split
  · next htype =>
    subst htype
    simp at hmem
    exact hmem ▸ hv
  · rcases hmem with ⟨rfl, rfl⟩ | ⟨rfl, rfl⟩ | ⟨rfl, rfl⟩ | ⟨rfl, rfl⟩ | ⟨rfl, rfl⟩ | ⟨rfl, rfl⟩ |
      ⟨rfl, rfl⟩ | ⟨rfl, rfl⟩ | ⟨rfl, rfl⟩ <;> simp [sampleRow, testRow, Dict.get?, cellVal] <;>
      constructor

theorem persists_typeOne :
    Persists (retyped (.str "TYPE_ONE")) sampleTable ↔ Writable (retyped (.str "TYPE_ONE")) sampleRow :=
  persists_iff bounded_sampleFloat List.mem_cons_self (handleOf_retyped _)
    (typed_retyped (.text "TYPE_ONE"))

/-- The type of a test is cleared, and is there again after `reload`. -/
theorem not_persists_cleared : ¬ Persists (retyped .none) sampleTable := by
  rintro ⟨u, hcommit, hreload, -⟩
  obtain ⟨obj, hobj, hattr⟩ := hreload (retyped .none) rfl
  rw [reload_commit (r := sampleRow) List.mem_cons_self (handleOf_retyped _) hcommit rfl] at hobj
  cases hobj
  have hplain : Plain TADATest "test_type" := by
    constructor
    · decide
    · decide
  have hread := (reads_back_iff bounded_sampleFloat (typed_retyped (.null _))
    (sampleTable.keys_eq sampleRow List.mem_cons_self) hplain).mp (hattr "test_type" hplain)
  exact absurd (hread.1 (Obj.attr_setAttr_self hplain.1 _ _)) (by decide)

end SQLModel
end Tada
end LdmsTest
