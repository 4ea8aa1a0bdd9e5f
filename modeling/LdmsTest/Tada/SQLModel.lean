import LdmsTest.Foundation.Fuelled
import LdmsTest.Python.Builtins
import LdmsTest.Sql.Table

/-!
# `SQLModel`

An object of a model is a row of its table, as it was read.  Its attributes may be changed, and
`commit` writes those that are not `None` back.

* `find`, `get`, `create`, `commit`, `delete`: the methods of the source.
* `exists_get_eq_ok`, `exists_commit_eq_ok`: what `get` does with a primary key, and `commit` with
  something to write.
* `get_part`, `commit_part` and `part_get_of_ne`, `part_commit_of_ne`: they act in the part of the
  table with the same cell in a column of the primary key, and leave the other parts alone.
-/

namespace LdmsTest
namespace Tada
namespace SQLModel

open Val (Fields getItem)
open Sql (Schema Table Row Cell Affinity)

/-! ## The methods -/

/-- What `cur.execute` raises. -/
def dbError : Sql.Error → PyError
  | .operational => ⟨.databaseError, "OperationalError"⟩
  | .integrity => ⟨.databaseError, "IntegrityError"⟩

/-- `cur.execute(sql, params)` -/
def execute {α : Type} : Except Sql.Error α → Except PyError α
  | .ok a => .ok a
  | .error e => .error (dbError e)

/-- A cell, as Python reads it. -/
def cellVal {F : Type} : Cell F → Val F
  | .null => .none
  | .int n => .int n
  | .real x => .float x
  | .text s => .str s

/-- `v != None` -/
def isSome {F : Type} : Val F → Bool
  | .none => false
  | _ => true

/-- An object of a model: an attribute for each column, and the primary key. -/
structure Obj (S : Schema) (F : Type) where
  attrs : Fields F
  objId : Fields F
  keys_attrs : Dict.keys attrs = S.names
  keys_objId : Dict.keys objId = S.ids

namespace Obj

variable {S : Schema} {F : Type}

/-- `cls(conn, data)` -/
def ofRow (S : Schema) (data : Row F) : Obj S F where
  attrs := S.names.map fun k => (k, cellVal ((Dict.get? data k).getD .null))
  objId := S.ids.map fun k => (k, cellVal ((Dict.get? data k).getD .null))
  keys_attrs := by rw [Dict.keys, List.map_map]; exact List.map_id _
  keys_objId := by rw [Dict.keys, List.map_map]; exact List.map_id _

/-- `getattr(self, k)`, for a column -/
def attr (obj : Obj S F) (k : String) : Val F :=
  (Dict.get? obj.attrs k).getD .none

/-- `setattr(self, k, v)`, for a column -/
def setAttr (obj : Obj S F) (k : String) (v : Val F) : Obj S F where
  attrs := obj.attrs.map fun p => (p.1, if p.1 = k then v else p.2)
  objId := obj.objId
  keys_attrs := by rw [← obj.keys_attrs, Dict.keys, List.map_map]; rfl
  keys_objId := obj.keys_objId

/-- The attributes that `commit` writes. -/
def changes (obj : Obj S F) : Fields F :=
  obj.attrs.filter fun p => !(Dict.keys obj.objId).contains p.1 && isSome p.2

end Obj

section Methods

variable {S : Schema} {F : Type} [PyRuntime F]

/-- `{ k: str(v) for k, v in kwargs.items() }` -/
def texts (kwargs : Fields F) : Dict String String :=
  kwargs.map fun p => (p.1, p.2.toStr)

variable [DecidableEq F] [Affinity F]

/-- `cls.find(conn, **kwargs)` -/
def find (kwargs : Fields F) (t : Table S F) : Except PyError (List (Obj S F)) := do
  let lst ← execute (t.select (texts kwargs))
  pure (lst.map (Obj.ofRow S))

/-- `cls.create(conn, **kwargs)`, with `get` as in the source -/
def create (get : Fields F → Table S F → Except PyError (Obj S F × Table S F))
    (kwargs : Fields F) (t : Table S F) : Except PyError (Obj S F × Table S F) := do
  let ids ← S.ids.mapM fun k => (fun v => (k, v)) <$> getItem kwargs k
  let t ← execute (t.insert (texts kwargs))
  get ids t

/-- `cls.get(conn, **kwargs)`, with at most `n` calls inside each other -/
def get : ℕ → Fields F → Table S F → Except PyError (Obj S F × Table S F)
  | 0, _, _ => throw ⟨.recursionError, "maximum recursion depth exceeded"⟩
  | n + 1, kwargs, t => do
    match ← find kwargs t with
    | [] => create (get n) kwargs t
    | [obj] => pure (obj, t)
    | _ => throw ⟨.keyError, "'`get` results not unique'"⟩

/-- `self.commit()` -/
def commit (obj : Obj S F) (t : Table S F) : Except PyError (Table S F) :=
  execute (t.update (texts obj.changes) (texts obj.objId))

/-- `self.delete()` -/
def delete (obj : Obj S F) (t : Table S F) : Except PyError (Table S F) :=
  execute (t.delete (texts obj.objId))

end Methods

/-! ## Objects and rows -/

section Objects

variable {S : Schema} {F : Type}

theorem Obj.attr_ofRow {k : String} (hk : k ∈ S.names) (r : Row F) :
    (ofRow S r).attr k = cellVal ((Dict.get? r k).getD .null) := by
  have hmem : (k, cellVal ((Dict.get? r k).getD .null)) ∈ (ofRow S r).attrs :=
    List.mem_map_of_mem hk
  have hnodup : (Dict.keys (ofRow S r).attrs).Nodup := (ofRow S r).keys_attrs ▸ S.nodup
  rw [attr, Dict.get?_of_mem hnodup hmem]
  rfl

theorem Obj.get?_attrs_setAttr (obj : Obj S F) (k : String) (v : Val F) (k₁ : String) :
    Dict.get? (obj.setAttr k v).attrs k₁ =
      (Dict.get? obj.attrs k₁).map fun w => if k₁ = k then v else w :=
  Dict.get?_map_val obj.attrs (fun k₁ w => if k₁ = k then v else w) k₁

theorem Obj.attr_setAttr_self {k : String} (hk : k ∈ S.names) (obj : Obj S F) (v : Val F) :
    (obj.setAttr k v).attr k = v := by
  rw [← obj.keys_attrs] at hk
  obtain ⟨w, hw⟩ := Option.isSome_iff_exists.mp (Dict.isSome_get?_iff.mpr hk)
  rw [attr, get?_attrs_setAttr, hw, Option.map_some, if_pos rfl, Option.getD_some]

theorem Obj.attr_setAttr_of_ne {k k₁ : String} (hk : k₁ ≠ k) (obj : Obj S F) (v : Val F) :
    (obj.setAttr k v).attr k₁ = obj.attr k₁ := by
  rw [attr, get?_attrs_setAttr]
  simp only [if_neg hk, Option.map_id']
  rfl

@[simp] theorem Obj.objId_setAttr (obj : Obj S F) (k : String) (v : Val F) :
    (obj.setAttr k v).objId = obj.objId := rfl

theorem Obj.mem_changes_iff {obj : Obj S F} {p : String × Val F} :
    p ∈ obj.changes ↔ p ∈ obj.attrs ∧ p.1 ∉ S.ids ∧ isSome p.2 := by
  rw [changes, List.mem_filter, Bool.and_eq_true, Bool.not_eq_true', obj.keys_objId,
    ← Bool.not_eq_true, List.contains_iff_mem]

/-- An attribute that is set is something to write. -/
theorem Obj.changes_ne_nil {obj : Obj S F} {k : String} (hk : k ∈ S.names) (hid : k ∉ S.ids)
    (hsome : isSome (obj.attr k)) : obj.changes ≠ [] := by
  rw [← obj.keys_attrs] at hk
  obtain ⟨v, hv⟩ := Option.isSome_iff_exists.mp (Dict.isSome_get?_iff.mpr hk)
  rw [attr, hv, Option.getD_some] at hsome
  exact List.ne_nil_of_mem (mem_changes_iff.mpr ⟨Dict.mem_of_get? hv, hid, hsome⟩)

theorem Obj.attr_setAttr {k₁ : String} (hk : k₁ ∈ S.names) (obj : Obj S F) (k : String)
    (v : Val F) : (obj.setAttr k v).attr k₁ = if k₁ = k then v else obj.attr k₁ := by
  split
  · next heq =>
    subst heq
    exact attr_setAttr_self hk obj v
  · next hne => exact attr_setAttr_of_ne hne obj v

variable [PyRuntime F]

theorem keys_texts (kwargs : Fields F) : Dict.keys (texts kwargs) = Dict.keys kwargs := by
  rw [texts, Dict.keys, List.map_map]
  rfl

theorem get?_texts (kwargs : Fields F) (k : String) :
    Dict.get? (texts kwargs) k = (Dict.get? kwargs k).map Val.toStr :=
  Dict.get?_map_val kwargs (fun _ v => v.toStr) k

theorem mem_texts {kwargs : Fields F} {k : String} {v : Val F} (h : (k, v) ∈ kwargs) :
    (k, v.toStr) ∈ texts kwargs :=
  List.mem_map.mpr ⟨_, h, rfl⟩

theorem knows_texts {kwargs : Fields F} (h : ∀ k ∈ Dict.keys kwargs, k ∈ S.names) :
    S.knows (texts kwargs) := by
  rw [Schema.knows_iff]
  intro p hp
  refine h p.1 ?_
  rw [← keys_texts]
  exact List.mem_map_of_mem hp

theorem knows_of_keys_eq {ids : Fields F} (h : Dict.keys ids = S.ids) : S.knows (texts ids) :=
  knows_texts fun k hk => S.ids_subset k (h ▸ hk)

theorem knows_changes (obj : Obj S F) : S.knows (texts obj.changes) := by
  refine knows_texts fun k hk => ?_
  obtain ⟨p, hp, rfl⟩ := List.mem_map.mp hk
  rw [← obj.keys_attrs]
  exact List.mem_map_of_mem (Obj.mem_changes_iff.mp hp).1

/-- `commit` does not write the primary key. -/
theorem notMem_keys_changes (obj : Obj S F) : ∀ k ∈ S.ids, k ∉ Dict.keys (texts obj.changes) := by
  intro k hk hmem
  rw [keys_texts] at hmem
  obtain ⟨p, hp, rfl⟩ := List.mem_map.mp hmem
  exact (Obj.mem_changes_iff.mp hp).2.1 hk

variable [DecidableEq F] [Affinity F]

/-- A row that was found by its primary key has that primary key. -/
theorem get?_of_meets {ids : Fields F} (hids : Dict.keys ids = S.ids) {r : Row F}
    (hr : S.meets (texts ids) r) {k : String} {v : Val F} (hkv : (k, v) ∈ ids) :
    Dict.get? r k = some (.text v.toStr) := by
  rw [Schema.meets_iff] at hr
  have hcell := hr _ (mem_texts hkv)
  rwa [S.cell_of_mem_ids (hids ▸ List.mem_map_of_mem hkv)] at hcell

/-- The primary key of an object that was found by it. -/
theorem objId_ofRow {ids : Fields F} (hids : Dict.keys ids = S.ids) {r : Row F}
    (hr : S.meets (texts ids) r) :
    (Obj.ofRow S r).objId = ids.map fun p => (p.1, .str p.2.toStr) := by
  show S.ids.map _ = _
  rw [← hids, Dict.keys, List.map_map]
  refine List.map_congr_left fun p hp => ?_
  show (p.1, cellVal ((Dict.get? r p.1).getD .null)) = _
  rw [get?_of_meets hids hr hp]
  rfl

theorem texts_objId_ofRow {ids : Fields F} (hids : Dict.keys ids = S.ids) {r : Row F}
    (hr : S.meets (texts ids) r) : texts (Obj.ofRow S r).objId = texts ids := by
  rw [objId_ofRow hids hr, texts, texts, List.map_map]
  rfl

theorem attr_ofRow_of_meets {ids : Fields F} (hids : Dict.keys ids = S.ids) {r : Row F}
    (hr : S.meets (texts ids) r) {k : String} {v : Val F} (hkv : (k, v) ∈ ids) :
    (Obj.ofRow S r).attr k = .str v.toStr := by
  have hk : k ∈ S.names := S.ids_subset k (hids ▸ List.mem_map_of_mem hkv)
  rw [Obj.attr_ofRow hk, get?_of_meets hids hr hkv]
  rfl

end Objects

/-! ## What the methods do -/

section Specs

variable {S : Schema} {F : Type} [PyRuntime F] [DecidableEq F] [Affinity F]

theorem execute_eq_ok_iff {α : Type} {x : Except Sql.Error α} {a : α} :
    execute x = .ok a ↔ x = .ok a := by
  cases x with
  | error e => exact ⟨nofun, nofun⟩
  | ok b =>
    exact ⟨fun h => congrArg _ (Except.ok.inj h), fun h => congrArg _ (Except.ok.inj h)⟩

theorem find_eq_ok {kwargs : Fields F} (h : S.knows (texts kwargs)) (t : Table S F) :
    find kwargs t = .ok ((t.rows.filter (S.meets (texts kwargs))).map (Obj.ofRow S)) := by
  rw [find, Table.select, if_pos h]
  rfl

omit [PyRuntime F] [DecidableEq F] [Affinity F] in
theorem mapM_getItem {ids : Fields F} (h : (Dict.keys ids).Nodup) :
    (Dict.keys ids).mapM (fun k => (fun v => (k, v)) <$> getItem ids k) = .ok ids := by
  rw [mapM_eq_ok_iff, Dict.keys, List.forall₂_map_left_iff, List.forall₂_same]
  intro p hp
  rw [Val.getItem_eq_ok_iff.mpr (Dict.get?_of_mem h hp)]
  rfl

/-- A row that is made for a primary key has it. -/
theorem meets_newRow {ids : Fields F} (hids : Dict.keys ids = S.ids) :
    S.meets (texts ids) (S.newRow (texts ids) : Row F) := by
  rw [Schema.meets_iff]
  intro p hp
  have hnodup : (Dict.keys (texts ids)).Nodup := by
    rw [keys_texts, hids]
    exact S.ids_nodup
  refine S.get?_newRow_of_get? (S.ids_subset _ ?_) (Dict.get?_of_mem hnodup hp)
  rw [← hids, ← keys_texts]
  exact List.mem_map_of_mem hp

/-- **`get` with a primary key** finds the row, or makes it. -/
theorem exists_get_eq_ok {ids : Fields F} (hids : Dict.keys ids = S.ids) (hne : S.ids ≠ [])
    (t : Table S F) (n : ℕ) :
    ∃ r u, get (n + 2) ids t = .ok (Obj.ofRow S r, u) ∧ S.meets (texts ids) r ∧
      ((u = t ∧ r ∈ t.rows) ∨ ((∀ x ∈ t.rows, S.meets (texts ids) x = false) ∧
        r = S.newRow (texts ids) ∧ u.rows = t.rows ++ [r])) := by
  have hknows : S.knows (texts ids) := knows_of_keys_eq hids
  have hkeys : ∀ k ∈ S.ids, k ∈ Dict.keys (texts ids) := fun k hk => by
    rwa [keys_texts, hids]
  rcases t.filter_meets_eq hkeys with ⟨hno, hnil⟩ | ⟨r, hr, hmeets, hone⟩
  · -- no row: one is inserted, and found
    have hmade : S.meets (texts ids) (S.newRow (texts ids) : Row F) := meets_newRow hids
    have hids_ne : texts ids ≠ [] := by
      intro hnil
      have h := keys_texts ids
      rw [hnil, hids] at h
      exact hne h.symm
    have hnew : ∀ r ∈ t.rows, S.sameKey r (S.newRow (texts ids)) = false := by
      intro r hr
      by_contra hsame
      rw [Bool.not_eq_false] at hsame
      have hmeets : S.meets (texts ids) r := by
        rw [Schema.meets_iff] at hmade ⊢
        intro p hp
        rw [S.get?_eq_of_sameKey hsame (hids ▸ keys_texts ids ▸ List.mem_map_of_mem hp)]
        exact hmade p hp
      rw [hno r hr] at hmeets
      cases hmeets
    obtain ⟨u, hu, hurows⟩ := Table.exists_insert_eq_ok hknows hids_ne hnew
    refine ⟨_, u, ?_, hmade, Or.inr ⟨hno, rfl, hurows⟩⟩
    have hfound : u.rows.filter (S.meets (texts ids)) = [S.newRow (texts ids)] := by
      rw [hurows, List.filter_append, hnil, List.filter_singleton, hmade]
      rfl
    have hnodup : (Dict.keys ids).Nodup := hids ▸ S.ids_nodup
    have hmapM := mapM_getItem hnodup
    rw [hids] at hmapM
    rw [get, find_eq_ok hknows, hnil]
    show create (get (n + 1)) ids t = _
    rw [create, hmapM, ok_bind, hu]
    show get (n + 1) ids u = _
    rw [get, find_eq_ok hknows, hfound]
    rfl
  · refine ⟨r, t, ?_, hmeets, Or.inl ⟨rfl, hr⟩⟩
    rw [get, find_eq_ok hknows, hone]
    rfl

/-- **`commit` with something to write** assigns it to the row of the object. -/
theorem exists_commit_eq_ok {obj : Obj S F} (hne : obj.changes ≠ []) (t : Table S F) :
    ∃ u, commit obj t = .ok u ∧ u.rows = t.rows.map fun r =>
      if S.meets (texts obj.objId) r then S.assign (texts obj.changes) r else r := by
  have hne' : texts obj.changes ≠ [] := fun h => hne (List.map_eq_nil_iff.mp h)
  obtain ⟨u, hu, hrows⟩ := Table.exists_update_eq_ok (t := t) (knows_changes obj)
    (knows_of_keys_eq obj.keys_objId) hne' (notMem_keys_changes obj)
  exact ⟨u, execute_eq_ok_iff.mpr hu, hrows⟩

/-- What `commit` does when it does not raise. -/
theorem rows_of_commit {obj : Obj S F} {t u : Table S F} (h : commit obj t = .ok u) :
    u.rows = t.rows.map fun r =>
      if S.meets (texts obj.objId) r then S.assign (texts obj.changes) r else r :=
  Table.rows_of_update (execute_eq_ok_iff.mp h)

omit [DecidableEq F] in
/-- An attribute that is set is in the row after `commit`. -/
theorem get?_assign_changes {obj : Obj S F} {k : String} (hk : k ∈ S.names) (hid : k ∉ S.ids)
    (hsome : isSome (obj.attr k)) (r : Row F) :
    Dict.get? (S.assign (texts obj.changes) r) k = some (S.cell k (obj.attr k).toStr) := by
  have hattrs : (Dict.keys obj.attrs).Nodup := obj.keys_attrs ▸ S.nodup
  have hchanges : (Dict.keys obj.changes).Nodup := Dict.nodup_keys_filter hattrs _
  obtain ⟨v, hv⟩ := Option.isSome_iff_exists.mp
    (Dict.isSome_get?_iff.mpr (obj.keys_attrs.symm ▸ hk : k ∈ Dict.keys obj.attrs))
  have hattr : obj.attr k = v := by rw [Obj.attr, hv, Option.getD_some]
  have hmem : (k, v) ∈ obj.changes :=
    Obj.mem_changes_iff.mpr ⟨Dict.mem_of_get? hv, hid, hattr ▸ hsome⟩
  rw [S.get?_assign (keys_texts obj.changes ▸ hchanges), get?_texts,
    Dict.get?_of_mem hchanges hmem, hattr]
  rfl

omit [DecidableEq F] in
/-- `commit` keeps the primary key. -/
theorem get?_assign_of_mem_ids (obj : Obj S F) {k : String} (hk : k ∈ S.ids) (r : Row F) :
    Dict.get? (S.assign (texts obj.changes) r) k = Dict.get? r k :=
  S.get?_assign_of_notMem (notMem_keys_changes obj k hk) r

end Specs

/-! ## Parts of the table -/

section Parts

variable {S : Schema} {F : Type} [PyRuntime F] [DecidableEq F] [Affinity F]
  {k : String} {v : Val F} {t u : Table S F}

theorem execute_map {α β : Type} (f : α → β) (x : Except Sql.Error α) :
    (execute x).map f = execute (x.map f) := by
  cases x with
  | error e => rfl
  | ok a => rfl

theorem find_part {kwargs : Fields F} (hk : k ∈ S.ids) (hkv : (k, v) ∈ kwargs) :
    find kwargs (t.part k (.text v.toStr)) = find kwargs t := by
  rw [find, find, ← S.cell_of_mem_ids hk, Table.select_part (mem_texts hkv)]

omit [PyRuntime F] [DecidableEq F] [Affinity F] in
/-- The primary key of an object that is created. -/
theorem of_mapM_getItem {kwargs ids : Fields F} {ks : List String}
    (h : ks.mapM (fun k => (fun v => (k, v)) <$> getItem kwargs k) = .ok ids) :
    Dict.keys ids = ks ∧ ∀ p ∈ ids, Dict.get? kwargs p.1 = some p.2 := by
  rw [mapM_eq_ok_iff] at h
  have hpair : ∀ k p, (fun v => (k, v)) <$> getItem kwargs k = .ok p →
      p.1 = k ∧ Dict.get? kwargs k = some p.2 := by
    intro k p hp
    obtain ⟨v, hv, heq⟩ := exists_of_bind_ok (f := fun v => .ok (k, v)) hp
    cases heq
    exact ⟨rfl, Val.getItem_eq_ok_iff.mp hv⟩
  induction h with
  | nil => exact ⟨rfl, fun p hp => nomatch hp⟩
  | cons hp _ ih =>
    obtain ⟨hkey, hget⟩ := hpair _ _ hp
    refine ⟨?_, List.forall_mem_cons.mpr ⟨hkey ▸ hget, ih.2⟩⟩
    rw [Dict.keys_cons, hkey, ih.1]

omit [PyRuntime F] [DecidableEq F] [Affinity F] in
/-- The primary key of an object that is created has what was asked for. -/
theorem mem_of_mapM_getItem {kwargs ids : Fields F} (hk : k ∈ S.ids)
    (hkv : Dict.get? kwargs k = some v)
    (h : S.ids.mapM (fun k => (fun v => (k, v)) <$> getItem kwargs k) = .ok ids) :
    Dict.get? ids k = some v := by
  obtain ⟨hkeys, hget⟩ := of_mapM_getItem h
  obtain ⟨w, hw⟩ := Option.isSome_iff_exists.mp (Dict.isSome_get?_iff.mpr (hkeys ▸ hk))
  rw [hw, ← hkv, ← hget _ (Dict.mem_of_get? hw)]

/-- **`get` acts in one part**. -/
theorem get_part (n : ℕ) {kwargs : Fields F} (hk : k ∈ S.ids)
    (hkv : Dict.get? kwargs k = some v) (t : Table S F) :
    (get n kwargs t).map (fun p => (p.1, p.2.part k (.text v.toStr))) =
      get n kwargs (t.part k (.text v.toStr)) := by
  induction n generalizing kwargs t with
  | zero => rfl
  | succ n ih =>
    rw [get, get, find_part hk (Dict.mem_of_get? hkv)]
    cases find kwargs t with
    | error e => rfl
    | ok objs =>
      match objs with
      | [] =>
        show (create (get n) kwargs t).map _ = create (get n) kwargs _
        rw [create, create]
        cases hids : S.ids.mapM (fun k => (fun v => (k, v)) <$> getItem kwargs k) with
        | error e => rfl
        | ok ids =>
          have htext : Dict.get? (texts kwargs) k = some v.toStr := by
            rw [get?_texts, hkv]
            rfl
          have hinsert := Table.insert_part (t := t) hk htext
          rw [S.cell_of_mem_ids hk] at hinsert
          rw [ok_bind, ok_bind, ← hinsert]
          cases t.insert (texts kwargs) with
          | error e => rfl
          | ok u => exact ih (mem_of_mapM_getItem hk hkv hids) u
      | [obj] => rfl
      | _ :: _ :: _ => rfl

/-- `get` leaves the other parts alone. -/
theorem part_get_of_ne {n : ℕ} {kwargs : Fields F} (hk : k ∈ S.ids)
    (hkv : Dict.get? kwargs k = some v) {obj : Obj S F} (h : get n kwargs t = .ok (obj, u))
    {c : Cell F} (hc : c ≠ .text v.toStr) : u.part k c = t.part k c := by
  induction n generalizing kwargs t with
  | zero => cases h
  | succ n ih =>
    rw [get] at h
    obtain ⟨objs, -, h⟩ := exists_of_bind_ok h
    match objs, h with
    | [], h =>
      rw [create] at h
      obtain ⟨ids, hids, h⟩ := exists_of_bind_ok h
      obtain ⟨t₁, ht₁, h⟩ := exists_of_bind_ok h
      rw [ih (mem_of_mapM_getItem hk hkv hids) h]
      refine Table.part_insert_of_ne (s := v.toStr) hk ?_ (execute_eq_ok_iff.mp ht₁) ?_
      · rw [get?_texts, hkv]
        rfl
      · rwa [S.cell_of_mem_ids hk]
    | [obj'], h =>
      cases h
      rfl

/-- **`commit` acts in one part**. -/
theorem commit_part (hk : k ∈ S.ids) (obj : Obj S F) (c : Cell F) (t : Table S F) :
    (commit obj t).map (Table.part k c) = commit obj (t.part k c) := by
  rw [commit, execute_map, Table.update_part hk (notMem_keys_changes obj)]
  rfl

/-- `commit` leaves the other parts alone. -/
theorem part_commit_of_ne {obj : Obj S F} (hk : k ∈ S.ids) (hkv : (k, v) ∈ obj.objId)
    (h : commit obj t = .ok u) {c : Cell F} (hc : c ≠ .text v.toStr) : u.part k c = t.part k c := by
  refine Table.part_update_of_ne (notMem_keys_changes obj k hk) (mem_texts hkv)
    (execute_eq_ok_iff.mp h) ?_
  rwa [S.cell_of_mem_ids hk]

end Parts

end SQLModel
end Tada
end LdmsTest
