import LdmsTest.Foundation.Fuelled
import LdmsTest.Python.Value
import Mathlib.Data.List.Flatten
import Mathlib.Data.List.Pairwise

/-!
# Directories in metric lists

`list_common.DirMetricList` reads a metric list as a directory: a value is the name of an entry,
and a list after a name makes the entry a directory whose entries are in that list.  The wrapper
keeps a dictionary of its entries, and `delete` keeps the dictionary and the metric lists in
step: it deletes the entries of a directory one by one, then the list and the name from the list
of the parent.

Metric lists live in a heap, since a wrapper refers to the list that its parent's list holds.

* `Node`: a file or a directory, the latter with its name, its metric list and its entries.
* `init`, `delete`, `deleteAt`, `deleteAll`: `DirMetricList(name_val, mlist)`,
  `d.delete(key)`, `d[k₁]…[kₙ].delete(key)`, and a sequence of these.
* `Flattens`: every metric list of a tree is the flattening of its entries.
* `remaining`, `removed`: the tree without an entry, and what the entry had in which list.
* `flattens_of_deleteAll`: a sequence of deletions of existing entries leaves the flattening of
  the remaining tree, and the same tree can be built from it.
-/

namespace LdmsTest.DirList

open LdmsTest Dict

/-- An element of a metric list: a value or a list. -/
inductive Elem (V L : Type) where
  | val (v : V)
  | list (l : L)
  deriving DecidableEq

/-- The contents of the metric lists. -/
abbrev Heap (V L : Type) := L → List (Elem V L)

/-- A value of `dlist`: the value of a file, or a `DirMetricList`. -/
inductive Node (V L : Type) where
  | file (v : V)
  | dir (nameVal : V) (mlist : L) (dlist : List (String × Node V L))

variable {V L : Type}

namespace Node

/-- Induction on a tree, with the hypothesis for every entry of a directory. -/
@[elab_as_elim, induction_eliminator]
theorem induct {P : Node V L → Prop} (file : ∀ v, P (.file v))
    (dir : ∀ (nameVal : V) (mlist : L) (dlist : List (String × Node V L)),
      (∀ p ∈ dlist, P p.2) → P (.dir nameVal mlist dlist)) : ∀ m, P m
  | .file v => file v
  | .dir nameVal mlist dlist => dir nameVal mlist dlist fun p _ => induct file dir p.2
termination_by m => sizeOf m
decreasing_by
  simp_wf
  have := List.sizeOf_lt_of_mem ‹p ∈ dlist›
  have : sizeOf p = 1 + sizeOf p.1 + sizeOf p.2 := rfl
  omega

/-- The value that names the entry. -/
def nameVal : Node V L → V
  | .file v => v
  | .dir nameVal _ _ => nameVal

/-- What the entry has in the list of its directory. -/
def elems : Node V L → List (Elem V L)
  | .file v => [.val v]
  | .dir nameVal mlist _ => [.val nameVal, .list mlist]

/-- The metric lists of the tree. -/
def lists : Node V L → List L
  | .file _ => []
  | .dir _ mlist dlist => mlist :: dlist.attach.flatMap fun p => p.1.2.lists
termination_by m => sizeOf m
decreasing_by
  simp_wf
  have := List.sizeOf_lt_of_mem p.2
  have : sizeOf p.1 = 1 + sizeOf p.1.1 + sizeOf p.1.2 := rfl
  omega

end Node

/-! ## The source -/

section Source

variable (str : V → String)

/-- The end of `__init__`: a name that no list followed is a file. -/
def finish (s : Dict String (Node V L) × Option V) : Dict String (Node V L) :=
  match s.2 with
  | some prev => Dict.set s.1 (str prev) (.file prev)
  | none => s.1

/-- One turn of the loop of `__init__`, over `self.dlist` and `prev`. -/
def initStep (child : V → L → Run PyError (Node V L)) (s : Dict String (Node V L) × Option V) :
    Elem V L → Run PyError (Dict String (Node V L) × Option V)
  | .list curr =>
    match s.2 with
    | none => throw ⟨.assertionError, ""⟩
    | some prev => do
      let d ← child prev curr
      pure (Dict.set s.1 (str prev) d, none)
  | .val curr =>
    match s.2 with
    | some prev => pure (Dict.set s.1 (str prev) (.file prev), some curr)
    | none => pure (s.1, some curr)

/-- `DirMetricList(name_val, mlist)` -/
def init (h : Heap V L) : ℕ → V → L → Run PyError (Node V L)
  | 0, _, _ => Run.starved
  | n + 1, nameVal, mlist => do
    let s ← (h mlist).foldlM (initStep str (init h n)) ([], none)
    pure (.dir nameVal mlist (finish str s))

/-- `MetricList.delete`, from the library of the daemon. -/
abbrev Delete (V L : Type) := Heap V L → L → Elem V L → Except PyError (Heap V L)

variable (del : Delete V L)

/-- `d.delete(key)`, with the metric lists and the directory afterwards. -/
def delete : ℕ → Heap V L → Node V L → String → Run PyError (Heap V L × Node V L)
  | 0, _, _, _ => Run.starved
  | _ + 1, _, .file _, _ => throw ⟨.attributeError, "delete"⟩
  | n + 1, h, .dir nameVal mlist dlist, key =>
    match get? dlist key with
    | none => throw ⟨.keyError, "'" ++ key ++ "'"⟩
    | some (.dir mName mList mDlist) => do
      let s ← (keys mDlist).foldlM (fun s k => delete n s.1 s.2 k) (h, .dir mName mList mDlist)
      let h ← Run.ofExcept (del s.1 mlist (.list mList))
      let h ← Run.ofExcept (del h mlist (.val mName))
      pure (h, .dir nameVal mlist (pop dlist key))
    | some (.file m) => do
      let h ← Run.ofExcept (del h mlist (.val m))
      pure (h, .dir nameVal mlist (pop dlist key))

/-- `d[k₁]…[kₙ].delete(key)` -/
def deleteAt (n : ℕ) (h : Heap V L) :
    Node V L → List String → String → Run PyError (Heap V L × Node V L)
  | m, [], key => delete del n h m key
  | .file _, _ :: _, _ => throw ⟨.typeError, "object is not subscriptable"⟩
  | .dir nameVal mlist dlist, k :: path, key =>
    match get? dlist k with
    | none => throw ⟨.keyError, "'" ++ k ++ "'"⟩
    | some m => do
      let s ← deleteAt n h m path key
      pure (s.1, .dir nameVal mlist (Dict.set dlist k s.2))

/-- A sequence of deletions. -/
def deleteAll (n : ℕ) (h : Heap V L) (m : Node V L) (calls : List (List String × String)) :
    Run PyError (Heap V L × Node V L) :=
  calls.foldlM (fun s call => deleteAt del n s.1 s.2 call.1 call.2) (h, m)

end Source

/-! ## Directories and what is left of them -/

/-- The metric list of a directory with these entries. -/
def flatten (dlist : List (String × Node V L)) : List (Elem V L) :=
  dlist.flatMap fun p => p.2.elems

/-- **The lists hold the tree**: each list is the flattening of the entries of its directory,
and the entries of a directory have different names. -/
inductive Flattens (str : V → String) (h : Heap V L) : Node V L → Prop where
  | file (v : V) : Flattens str h (.file v)
  | dir (nameVal : V) {mlist : L} {dlist : List (String × Node V L)}
      (contents : h mlist = flatten dlist) (names : ∀ p ∈ dlist, p.1 = str p.2.nameVal)
      (nodup : (keys dlist).Nodup) (entries : ∀ p ∈ dlist, Flattens str h p.2) :
      Flattens str h (.dir nameVal mlist dlist)

/-- The tree without the entry `key` of the directory at `path`. -/
def remaining : Node V L → List String → String → Option (Node V L)
  | .file _, _, _ => none
  | .dir nameVal mlist dlist, [], key =>
    if key ∈ keys dlist then some (.dir nameVal mlist (pop dlist key)) else none
  | .dir nameVal mlist dlist, k :: path, key =>
    match get? dlist k with
    | none => none
    | some m => (remaining m path key).map fun m' => .dir nameVal mlist (Dict.set dlist k m')

/-- The tree without the entries of a sequence of deletions, each of which was there. -/
def remainingAll (m : Node V L) (calls : List (List String × String)) : Option (Node V L) :=
  calls.foldlM (fun m call => remaining m call.1 call.2) m

/-- Which list held which element, for an entry of `mlist` and everything below it. -/
def holdings (mlist : L) : Node V L → List (L × Elem V L)
  | .file v => [(mlist, .val v)]
  | .dir nameVal mlist' dlist =>
    [(mlist, .val nameVal), (mlist, .list mlist')] ++
      dlist.attach.flatMap fun p => holdings mlist' p.1.2
termination_by m => sizeOf m
decreasing_by
  simp_wf
  have := List.sizeOf_lt_of_mem p.2
  have : sizeOf p.1 = 1 + sizeOf p.1.1 + sizeOf p.1.2 := rfl
  omega

/-- Which list held which element of the entry `key` of the directory at `path`. -/
def removed : Node V L → List String → String → List (L × Elem V L)
  | .file _, _, _ => []
  | .dir _ mlist dlist, [], key =>
    match get? dlist key with
    | none => []
    | some m => holdings mlist m
  | .dir _ _ dlist, k :: path, key =>
    match get? dlist k with
    | none => []
    | some m => removed m path key

/-- What a sequence of deletions takes from which list. -/
def removedAll : Node V L → List (List String × String) → List (L × Elem V L)
  | _, [] => []
  | m, call :: calls =>
    removed m call.1 call.2 ++
      match remaining m call.1 call.2 with
      | none => []
      | some m' => removedAll m' calls

/-- `MetricList.delete` removes exactly the given element, here a value or an empty list. -/
def Removes [DecidableEq V] [DecidableEq L] (del : Delete V L) : Prop :=
  ∀ h l e, (h l).Nodup → e ∈ h l → (∀ l', e = .list l' → h l' = []) →
    del h l e = .ok (Function.update h l ((h l).erase e))

/-! ## The lists of a tree -/

theorem flatMap_attach {α β : Type} (l : List α) (f : α → List β) :
    (l.attach.flatMap fun p => f p.1) = l.flatMap f := by
  rw [List.flatMap_subtype (fun _ _ => rfl), List.unattach_attach]

@[simp] theorem lists_file (v : V) : (.file v : Node V L).lists = [] := by
  rw [Node.lists]

theorem lists_dir (nameVal : V) (mlist : L) (dlist : List (String × Node V L)) :
    (.dir nameVal mlist dlist : Node V L).lists =
      mlist :: dlist.flatMap fun p => p.2.lists := by
  rw [Node.lists, flatMap_attach dlist fun p => p.2.lists]

theorem mem_lists_dir {nameVal : V} {mlist l : L} {dlist : List (String × Node V L)} :
    l ∈ (.dir nameVal mlist dlist : Node V L).lists ↔ l = mlist ∨ ∃ p ∈ dlist, l ∈ p.2.lists := by
  rw [lists_dir, List.mem_cons, List.mem_flatMap]

theorem holdings_dir (mlist : L) (nameVal : V) (mlist' : L) (dlist : List (String × Node V L)) :
    holdings mlist (.dir nameVal mlist' dlist) =
      [(mlist, .val nameVal), (mlist, .list mlist')] ++
        dlist.flatMap fun p => holdings mlist' p.2 := by
  rw [holdings, flatMap_attach dlist fun p => holdings mlist' p.2]

/-- The parts of an entry: its elements in the list of its directory, and the rest in lists of
its own. -/
theorem mem_holdings {mlist : L} (m : Node V L) : ∀ {le : L × Elem V L}, le ∈ holdings mlist m →
    (le.1 = mlist ∧ le.2 ∈ m.elems) ∨ le.1 ∈ m.lists := by
  induction m generalizing mlist with
  | file v =>
    intro le hle
    rw [holdings, List.mem_singleton] at hle
    subst hle
    exact Or.inl ⟨rfl, List.mem_singleton_self _⟩
  | dir nameVal mlist' dlist ih =>
    intro le hle
    rw [holdings_dir, List.mem_append, List.mem_flatMap] at hle
    rcases hle with hle | ⟨p, hp, hle⟩
    · rcases List.mem_pair.mp hle with rfl | rfl
      · exact Or.inl ⟨rfl, List.mem_cons_self⟩
      · exact Or.inl ⟨rfl, List.mem_cons_of_mem _ (List.mem_singleton_self _)⟩
    · refine Or.inr (mem_lists_dir.mpr ?_)
      rcases ih p hp hle with ⟨h, -⟩ | h
      · exact Or.inl h
      · exact Or.inr ⟨p, hp, h⟩

/-- The lists of the entries are not the list of the directory, and none occurs twice. -/
theorem nodup_lists_dir {nameVal : V} {mlist : L} {dlist : List (String × Node V L)} :
    (.dir nameVal mlist dlist : Node V L).lists.Nodup ↔
      (∀ p ∈ dlist, mlist ∉ p.2.lists) ∧ (dlist.flatMap fun p => p.2.lists).Nodup := by
  rw [lists_dir, List.nodup_cons, List.mem_flatMap]
  simp only [not_exists, not_and]

theorem val_mem_elems {v : V} : ∀ {m : Node V L}, .val v ∈ m.elems → m.nameVal = v
  | .file _, h => by
    cases List.mem_singleton.mp h
    rfl
  | .dir _ _ _, h => by
    rcases List.mem_pair.mp h with h | h
    · cases h
      rfl
    · cases h

theorem list_mem_elems {l : L} : ∀ {m : Node V L}, .list l ∈ m.elems → l ∈ m.lists
  | .file _, h => by cases List.mem_singleton.mp h
  | .dir _ _ _, h => by
    rcases List.mem_pair.mp h with h | h
    · cases h
    · cases h
      exact mem_lists_dir.mpr (Or.inl rfl)

theorem nodup_elems : ∀ m : Node V L, m.elems.Nodup
  | .file _ => List.nodup_singleton _
  | .dir _ _ _ => by simp [Node.elems]

/-! ## The flattening of the entries -/

section Flatten

variable {str : V → String} {dlist : List (String × Node V L)}

@[simp] theorem flatten_nil : flatten ([] : List (String × Node V L)) = [] := rfl

@[simp] theorem flatten_cons (p : String × Node V L) (dlist : List (String × Node V L)) :
    flatten (p :: dlist) = p.2.elems ++ flatten dlist := rfl

theorem flatten_append (d e : List (String × Node V L)) :
    flatten (d ++ e) = flatten d ++ flatten e :=
  List.flatMap_append

/-- Entries with different names share no list. -/
theorem disjoint_lists (hlists : (dlist.flatMap fun p => p.2.lists).Nodup)
    {p q : String × Node V L} (hp : p ∈ dlist) (hq : q ∈ dlist) (hpq : p.1 ≠ q.1) :
    p.2.lists.Disjoint q.2.lists := by
  have hpair := (List.nodup_flatMap.mp hlists).2
  have : Std.Symm (Function.onFun List.Disjoint fun p : String × Node V L => p.2.lists) :=
    ⟨fun _ _ h => h.symm⟩
  exact hpair.forall hp hq fun h => hpq (by rw [h])

/-- Entries with different names share no element. -/
theorem disjoint_elems (names : ∀ p ∈ dlist, p.1 = str p.2.nameVal)
    (hlists : (dlist.flatMap fun p => p.2.lists).Nodup) {p q : String × Node V L}
    (hp : p ∈ dlist) (hq : q ∈ dlist) (hpq : p.1 ≠ q.1) : p.2.elems.Disjoint q.2.elems := by
  intro e hep heq
  cases e with
  | val v =>
    have hname : p.2.nameVal = q.2.nameVal := (val_mem_elems hep).trans (val_mem_elems heq).symm
    exact hpq (by rw [names p hp, names q hq, hname])
  | list l =>
    exact disjoint_lists hlists hp hq hpq (list_mem_elems hep) (list_mem_elems heq)

/-- The flattening of a directory has each element once. -/
theorem nodup_flatten (names : ∀ p ∈ dlist, p.1 = str p.2.nameVal) (hkeys : (keys dlist).Nodup)
    (hlists : (dlist.flatMap fun p => p.2.lists).Nodup) : (flatten dlist).Nodup := by
  refine List.nodup_flatMap.mpr ⟨fun p _ => nodup_elems p.2, ?_⟩
  have hne : dlist.Pairwise fun p q => p.1 ≠ q.1 := List.pairwise_map.mp hkeys
  exact hne.imp_of_mem fun hp hq hpq => disjoint_elems names hlists hp hq hpq

/-- The lists of a directory are those of an entry and those of the directory without it. -/
theorem perm_lists_pop (nameVal : V) (mlist : L) (hkeys : (keys dlist).Nodup) {key : String}
    {c : Node V L} (hkey : get? dlist key = some c) :
    (.dir nameVal mlist dlist : Node V L).lists.Perm
      (c.lists ++ (.dir nameVal mlist (pop dlist key) : Node V L).lists) := by
  obtain ⟨pre, post, hsplit, hpop, -⟩ := exists_split_of_get? hkeys hkey
  rw [lists_dir, lists_dir, hpop, hsplit, List.flatMap_append, List.flatMap_cons,
    List.flatMap_append]
  exact ((List.perm_append_comm_assoc _ _ _).cons _).trans List.perm_middle.symm

theorem lists_pop_sublist {nameVal : V} {mlist : L} (key : String) :
    List.Sublist (.dir nameVal mlist (pop dlist key) : Node V L).lists
      (.dir nameVal mlist dlist : Node V L).lists := by
  rw [lists_dir, lists_dir]
  exact (List.filter_sublist.flatMap _).cons_cons _

end Flatten

/-! ## Building the tree -/

section Init

variable {str : V → String} {h h' : Heap V L}

/-- A value in the list starts an entry. -/
theorem initStep_val (child : V → L → Run PyError (Node V L))
    (s : Dict String (Node V L) × Option V) (v : V) :
    initStep str child s (.val v) = pure (finish str s, some v) := by
  obtain ⟨d, prev⟩ := s
  cases prev with
  | none => rfl
  | some prev => rfl

/-- A list in the list makes the entry before it a directory. -/
theorem initStep_list (child : V → L → Run PyError (Node V L)) (d : Dict String (Node V L))
    (v : V) (l : L) : initStep str child (d, some v) (.list l) =
      child v l >>= fun m => pure (Dict.set d (str v) m, none) := rfl

/-- Reading the elements of one entry adds it. -/
theorem returns_initStep {child : ℕ → V → L → Run PyError (Node V L)}
    {s : Dict String (Node V L) × Option V} : ∀ {m : Node V L},
      str m.nameVal ∉ keys (finish str s) →
      (∀ v l d, m = .dir v l d → Returns (fun n => child n v l) m) →
      ∃ s', Returns (fun n => m.elems.foldlM (initStep str (child n)) s) s' ∧
        finish str s' = finish str s ++ [(str m.nameVal, m)]
  | .file v, hnot, _ => by
    refine ⟨(finish str s, some v), ?_, set_of_notMem hnot _⟩
    simp only [Node.elems, List.foldlM_cons, List.foldlM_nil, initStep_val, pure_bind]
    exact returns_pure _
  | .dir v l d, hnot, hchild => by
    refine ⟨(Dict.set (finish str s) (str v) (.dir v l d), none), ?_, set_of_notMem hnot _⟩
    simp only [Node.elems, List.foldlM_cons, List.foldlM_nil, initStep_val, pure_bind,
      initStep_list, bind_pure]
    exact (hchild v l d rfl).bind (returns_pure _)

/-- **Reading the entries**: a loop over the flattening of the entries adds them. -/
theorem returns_foldlM_initStep {child : ℕ → V → L → Run PyError (Node V L)} :
    ∀ {dlist : List (String × Node V L)} {s : Dict String (Node V L) × Option V},
      (∀ p ∈ dlist, p.1 = str p.2.nameVal) → (keys (finish str s ++ dlist)).Nodup →
      (∀ p ∈ dlist, ∀ v l d, p.2 = .dir v l d → Returns (fun n => child n v l) p.2) →
      ∃ s', Returns (fun n => (flatten dlist).foldlM (initStep str (child n)) s) s' ∧
        finish str s' = finish str s ++ dlist
  | [], s, _, _, _ => ⟨s, returns_pure s, (List.append_nil _).symm⟩
  | (k, m) :: dlist, s, names, hkeys, hchild => by
    obtain rfl : k = str m.nameVal := names (k, m) List.mem_cons_self
    have hnot : str m.nameVal ∉ keys (finish str s) := by
      rw [keys, List.map_append, List.nodup_append] at hkeys
      exact fun hmem => hkeys.2.2 _ hmem _ List.mem_cons_self rfl
    obtain ⟨s₁, hs₁, hfin₁⟩ := returns_initStep hnot (hchild _ List.mem_cons_self)
    have hkeys₁ : (keys (finish str s₁ ++ dlist)).Nodup := by
      rwa [hfin₁, List.append_assoc]
    obtain ⟨s₂, hs₂, hfin₂⟩ := returns_foldlM_initStep
      (fun p hp => names p (List.mem_cons_of_mem _ hp)) hkeys₁
      (fun p hp => hchild p (List.mem_cons_of_mem _ hp))
    refine ⟨s₂, ?_, by rw [hfin₂, hfin₁, List.append_assoc, List.singleton_append]⟩
    simp only [flatten_cons, List.foldlM_append]
    exact hs₁.bind hs₂

/-- **Building from the flattening**: the wrapper of a list that holds a tree is the tree. -/
theorem returns_init (m : Node V L) : Flattens str h m →
    ∀ v l d, m = .dir v l d → Returns (fun n => init str h n v l) m := by
  induction m with
  | file v => intro _ v l d hm; cases hm
  | dir nameVal mlist dlist ih =>
    rintro (_ | ⟨_, contents, names, nodup, entries⟩) v l d hm
    cases hm
    have hnodup : (keys (finish str (([] : Dict String (Node V L)), none) ++ dlist)).Nodup :=
      nodup
    obtain ⟨s, hs, hfin⟩ := returns_foldlM_initStep names hnodup fun p hp =>
      ih p hp (entries p hp)
    have hinit : Settles (fun n => init str h (n + 1) nameVal mlist)
        (.ok (.dir nameVal mlist dlist)) := by
      simp only [init, contents]
      refine hs.bind ?_
      rw [hfin]
      exact returns_pure _
    exact hinit.of_succ rfl

/-- Only the lists of a tree matter to what they hold. -/
theorem Flattens.congr (m : Node V L) (hm : Flattens str h m)
    (heq : ∀ l ∈ m.lists, h' l = h l) : Flattens str h' m := by
  induction m with
  | file v => exact .file v
  | dir nameVal mlist dlist ih =>
    obtain _ | ⟨_, contents, names, nodup, entries⟩ := hm
    refine .dir nameVal ?_ names nodup fun p hp => ih p hp (entries p hp) fun l hl => ?_
    · rw [heq mlist (mem_lists_dir.mpr (Or.inl rfl)), contents]
    · exact heq l (mem_lists_dir.mpr (Or.inr ⟨p, hp, hl⟩))

end Init

/-! ## Deleting an entry -/

section Delete

variable [DecidableEq V] [DecidableEq L] {str : V → String} {del : Delete V L} {h h' : Heap V L}

/-- The lists after the entry `c` was deleted from the list `mlist`, which is left with
`rest`. -/
structure Deleted (h h' : Heap V L) (mlist : L) (c : Node V L) (rest : List (Elem V L)) :
    Prop where
  contents : h' mlist = rest
  emptied : ∀ l ∈ c.lists, h' l = []
  frame : ∀ l, l ≠ mlist → l ∉ c.lists → h' l = h l

/-- The loop of `delete` over the keys of a directory empties its lists. -/
def Empties (str : V → String) (del : Delete V L) (c : Node V L) : Prop :=
  ∀ nameVal mlist dlist h, c = .dir nameVal mlist dlist → Flattens str h c → c.lists.Nodup →
    ∃ h', Returns (fun n => (keys dlist).foldlM (fun s k => delete del n s.1 s.2 k) (h, c))
        (h', .dir nameVal mlist []) ∧
      (∀ l ∈ c.lists, h' l = []) ∧ ∀ l, l ∉ c.lists → h' l = h l

/-- Deleting an element that a list has once. -/
theorem Removes.exists_ok (hdel : Removes del) {l : L} {e : Elem V L} {pre post : List (Elem V L)}
    (hl : h l = pre ++ e :: post) (hnodup : (h l).Nodup)
    (hempty : ∀ l', e = .list l' → h l' = []) :
    ∃ h', del h l e = .ok h' ∧ h' l = pre ++ post ∧ ∀ l', l' ≠ l → h' l' = h l' := by
  have hmem : e ∈ h l := by simp [hl]
  refine ⟨_, hdel h l e hnodup hmem hempty, ?_, fun l' hne => Function.update_of_ne hne _ _⟩
  rw [Function.update_self, hl]
  rw [hl] at hnodup
  have hnot : e ∉ pre := fun he =>
    (List.nodup_append.mp hnodup).2.2 e he e List.mem_cons_self rfl
  rw [List.erase_append_right _ hnot, List.erase_cons_head]

omit [DecidableEq V] [DecidableEq L] in
/-- **What a deletion leaves** is the flattening of the other entries. -/
theorem Deleted.flattens {nameVal : V} {mlist : L} {dlist : List (String × Node V L)}
    {key : String} {c : Node V L} (hc : Deleted h h' mlist c (flatten (pop dlist key)))
    (hm : Flattens str h (.dir nameVal mlist dlist))
    (hlists : (.dir nameVal mlist dlist : Node V L).lists.Nodup) (hkey : get? dlist key = some c) :
    Flattens str h' (.dir nameVal mlist (pop dlist key)) := by
  obtain _ | ⟨_, contents, names, nodup, entries⟩ := hm
  rw [nodup_lists_dir] at hlists
  refine .dir nameVal hc.contents (fun p hp => names p (mem_of_mem_pop hp))
    (nodup_keys_pop nodup key) fun p hp => ?_
  have hpd : p ∈ dlist := mem_of_mem_pop hp
  have hne : p.1 ≠ key := of_decide_eq_true (List.mem_filter.mp hp).2
  refine (entries p hpd).congr p.2 fun l hl => hc.frame l ?_ ?_
  · rintro rfl
    exact hlists.1 p hpd hl
  · exact disjoint_lists hlists.2 hpd (mem_of_get? hkey) hne hl

/-- **One deletion**: the entry leaves the dictionary and the list, and its own lists end
empty. -/
theorem exists_returns_delete (hdel : Removes del) {nameVal : V} {mlist : L}
    {dlist : List (String × Node V L)} {key : String} {c : Node V L} (hc : Empties str del c)
    (hm : Flattens str h (.dir nameVal mlist dlist))
    (hlists : (.dir nameVal mlist dlist : Node V L).lists.Nodup)
    (hkey : get? dlist key = some c) :
    ∃ h', Returns (fun n => delete del n h (.dir nameVal mlist dlist) key)
        (h', .dir nameVal mlist (pop dlist key)) ∧
      Deleted h h' mlist c (flatten (pop dlist key)) := by
  obtain _ | ⟨_, contents, names, nodup, entries⟩ := hm
  rw [nodup_lists_dir] at hlists
  have hnodup : (h mlist).Nodup := contents ▸ nodup_flatten names nodup hlists.2
  have hmem := mem_of_get? hkey
  obtain ⟨pre, post, hsplit, hpop, -⟩ := exists_split_of_get? nodup hkey
  have hpop' : flatten (pop dlist key) = flatten pre ++ flatten post := by
    rw [hpop, flatten_append]
  have hflat : h mlist = flatten pre ++ (c.elems ++ flatten post) := by
    rw [contents, hsplit, flatten_append, flatten_cons]
  cases c with
  | file v =>
    have hfile : h mlist = flatten pre ++ .val v :: flatten post := hflat
    obtain ⟨h₁, hok, hat, hframe⟩ := hdel.exists_ok hfile hnodup nofun
    refine ⟨h₁, Settles.of_succ rfl ?_, by rw [hat, hpop'], by simp, fun l hl _ => hframe l hl⟩
    simp only [delete, hkey, hok]
    exact returns_pure _
  | dir mName mList mDlist =>
    obtain ⟨h₁, hloop, hempty, hframe⟩ :=
      hc mName mList mDlist h rfl (entries _ hmem) ((List.nodup_flatMap.mp hlists.2).1 _ hmem)
    have hml : mlist ∉ (Node.dir mName mList mDlist).lists := hlists.1 _ hmem
    have h₁l : h₁ mlist = (flatten pre ++ [.val mName]) ++ .list mList :: flatten post := by
      rw [hframe mlist hml, hflat, List.append_assoc]
      rfl
    obtain ⟨h₂, hok₂, hat₂, hframe₂⟩ := hdel.exists_ok h₁l (hframe mlist hml ▸ hnodup)
      fun l' hl' => hempty l' (by cases hl'; exact mem_lists_dir.mpr (Or.inl rfl))
    rw [List.append_assoc, List.singleton_append] at hat₂
    have hnodup₂ : (h₂ mlist).Nodup := by
      rw [hat₂]
      rw [hflat] at hnodup
      exact hnodup.sublist ((List.Sublist.cons_cons _ (List.sublist_cons_self _ _)).append_left _)
    obtain ⟨h₃, hok₃, hat₃, hframe₃⟩ := hdel.exists_ok hat₂ hnodup₂ nofun
    have hne : ∀ l ∈ (Node.dir mName mList mDlist).lists, l ≠ mlist := by
      rintro l hl rfl
      exact hml hl
    refine ⟨h₃, Settles.of_succ rfl ?_, by rw [hat₃, hpop'], fun l hl => ?_, fun l hl hlc => ?_⟩
    · simp only [delete, hkey]
      refine hloop.bind ?_
      simp only [hok₂, Run.ofExcept_ok, pure_bind, hok₃]
      exact returns_pure _
    · rw [hframe₃ l (hne l hl), hframe₂ l (hne l hl), hempty l hl]
    · rw [hframe₃ l hl, hframe₂ l hl, hframe l hlc]

/-- **Emptying a directory**: deleting its keys one by one empties its lists. -/
theorem exists_returns_keys (hdel : Removes del) {nameVal : V} {mlist : L} :
    ∀ {dlist : List (String × Node V L)} {h : Heap V L}, (∀ p ∈ dlist, Empties str del p.2) →
      Flattens str h (.dir nameVal mlist dlist) →
      (.dir nameVal mlist dlist : Node V L).lists.Nodup →
      ∃ h', Returns (fun n => (keys dlist).foldlM (fun s k => delete del n s.1 s.2 k)
          (h, .dir nameVal mlist dlist)) (h', .dir nameVal mlist []) ∧
        (∀ l ∈ (.dir nameVal mlist dlist : Node V L).lists, h' l = []) ∧
        ∀ l, l ∉ (.dir nameVal mlist dlist : Node V L).lists → h' l = h l
  | [], h, _, hm, _ => by
    obtain _ | ⟨_, contents, -, -, -⟩ := hm
    refine ⟨h, returns_pure _, fun l hl => ?_, fun _ _ => rfl⟩
    obtain rfl : l = mlist := by simpa [lists_dir] using hl
    exact contents
  | (k, c) :: dlist, h, hempty, hm, hlists => by
    have hkeys : (keys ((k, c) :: dlist)).Nodup := by
      cases hm with
      | dir _ _ _ nodup _ => exact nodup
    have hkey : get? ((k, c) :: dlist) k = some c := get?_cons_self k c dlist
    have hpop : pop ((k, c) :: dlist) k = dlist := pop_cons_self c (List.nodup_cons.mp hkeys).1
    obtain ⟨h₁, hret₁, hdeleted⟩ :=
      exists_returns_delete hdel (hempty _ List.mem_cons_self) hm hlists hkey
    have hm₁ := hdeleted.flattens hm hlists hkey
    have hperm := perm_lists_pop nameVal mlist hkeys hkey
    have hlists₁ := (List.nodup_append.mp (hperm.nodup hlists)).2.1
    have hapart := List.disjoint_of_nodup_append (hperm.nodup hlists)
    rw [hpop] at hret₁ hm₁ hlists₁ hperm hapart
    obtain ⟨h₂, hret₂, hempty₂, hframe₂⟩ :=
      exists_returns_keys hdel (fun p hp => hempty p (List.mem_cons_of_mem _ hp)) hm₁ hlists₁
    refine ⟨h₂, ?_, fun l hl => ?_, fun l hl => ?_⟩
    · simp only [keys_cons, List.foldlM_cons]
      exact hret₁.bind hret₂
    · rcases List.mem_append.mp (hperm.mem_iff.mp hl) with hc | hrest
      · rw [hframe₂ l (hapart hc), hdeleted.emptied l hc]
      · exact hempty₂ l hrest
    · rw [hperm.mem_iff, List.mem_append, not_or] at hl
      have hne : l ≠ mlist := fun h => hl.2 (mem_lists_dir.mpr (Or.inl h))
      rw [hframe₂ l hl.2, hdeleted.frame l hne hl.1]

/-- Every directory can be emptied. -/
theorem empties (hdel : Removes del) (m : Node V L) : Empties str del m := by
  induction m with
  | file v =>
    intro nameVal mlist dlist h hm
    cases hm
  | dir nameVal mlist dlist ih =>
    intro nameVal' mlist' dlist' h hm hflat hlists
    cases hm
    exact exists_returns_keys hdel ih hflat hlists

/-! ## Deleting along paths -/

omit [DecidableEq V] [DecidableEq L] in
/-- What the entries of a tree have in the lists is there. -/
theorem mem_of_mem_holdings (m : Node V L) (hm : Flattens str h m) :
    ∀ {mlist : L}, (∀ e ∈ m.elems, e ∈ h mlist) → ∀ le ∈ holdings mlist m, le.2 ∈ h le.1 := by
  induction m with
  | file v =>
    intro mlist helems le hle
    rw [holdings, List.mem_singleton] at hle
    subst hle
    exact helems _ (List.mem_singleton_self _)
  | dir nameVal mlist' dlist ih =>
    obtain _ | ⟨_, contents, names, nodup, entries⟩ := hm
    intro mlist helems le hle
    rw [holdings_dir, List.mem_append, List.mem_flatMap] at hle
    rcases hle with hle | ⟨p, hp, hle⟩
    · rcases List.mem_pair.mp hle with rfl | rfl
      · exact helems _ List.mem_cons_self
      · exact helems _ (List.mem_cons_of_mem _ (List.mem_singleton_self _))
    · refine ih p hp (entries p hp) (fun e he => ?_) le hle
      rw [contents]
      exact List.mem_flatMap.mpr ⟨p, hp, he⟩

/-- **The lists after a deletion** that turned the tree `m` into `m'` and took `gone`. -/
structure After (str : V → String) (h h' : Heap V L) (m m' : Node V L)
    (gone : List (L × Elem V L)) : Prop where
  flattens : Flattens str h' m'
  elems : m'.elems = m.elems
  lists : List.Sublist m'.lists m.lists
  gone : ∀ le ∈ gone, le.2 ∈ h le.1 ∧ le.2 ∉ h' le.1
  subset : ∀ l, h' l ⊆ h l
  frame : ∀ l, l ∉ m.lists → h' l = h l

omit [DecidableEq V] in
/-- One deletion from a directory. -/
theorem Deleted.after {nameVal : V} {mlist : L} {dlist : List (String × Node V L)}
    {key : String} {c : Node V L} (hc : Deleted h h' mlist c (flatten (pop dlist key)))
    (hm : Flattens str h (.dir nameVal mlist dlist))
    (hlists : (.dir nameVal mlist dlist : Node V L).lists.Nodup) (hkey : get? dlist key = some c) :
    After str h h' (.dir nameVal mlist dlist) (.dir nameVal mlist (pop dlist key))
      (holdings mlist c) := by
  have hflattens := hc.flattens hm hlists hkey
  obtain _ | ⟨_, contents, names, nodup, entries⟩ := hm
  rw [nodup_lists_dir] at hlists
  have hmem := mem_of_get? hkey
  refine ⟨hflattens, rfl, lists_pop_sublist key, fun le hle => ⟨?_, fun hle' => ?_⟩,
    fun l => ?_, fun l hl => ?_⟩
  · refine mem_of_mem_holdings c (entries _ hmem) (fun e he => ?_) le hle
    rw [contents]
    exact List.mem_flatMap.mpr ⟨_, hmem, he⟩
  · rcases mem_holdings c hle with ⟨hl, he⟩ | hl
    · rw [hl, hc.contents] at hle'
      obtain ⟨p, hp, hep⟩ := List.mem_flatMap.mp hle'
      have hne : p.1 ≠ key := of_decide_eq_true (List.mem_filter.mp hp).2
      exact disjoint_elems names hlists.2 (mem_of_mem_pop hp) hmem hne hep he
    · rw [hc.emptied _ hl] at hle'
      cases hle'
  · by_cases hl : l = mlist
    · rw [hl, hc.contents, contents]
      exact (List.filter_sublist.flatMap _).subset
    · by_cases hlc : l ∈ c.lists
      · rw [hc.emptied l hlc]
        exact List.nil_subset _
      · rw [hc.frame l hl hlc]
        exact fun _ he => he
  · rw [mem_lists_dir, not_or] at hl
    exact hc.frame l hl.1 fun hlc => hl.2 ⟨_, hmem, hlc⟩

omit [DecidableEq V] [DecidableEq L] in
/-- A deletion inside an entry changes nothing beside the entry. -/
theorem After.set {nameVal : V} {mlist : L} {dlist : List (String × Node V L)} {k : String}
    {c c' : Node V L} {gone : List (L × Elem V L)} (hc : After str h h' c c' gone)
    (hm : Flattens str h (.dir nameVal mlist dlist))
    (hlists : (.dir nameVal mlist dlist : Node V L).lists.Nodup) (hk : get? dlist k = some c) :
    After str h h' (.dir nameVal mlist dlist) (.dir nameVal mlist (Dict.set dlist k c')) gone := by
  obtain _ | ⟨_, contents, names, nodup, entries⟩ := hm
  rw [nodup_lists_dir] at hlists
  have hmem := mem_of_get? hk
  obtain ⟨pre, post, hsplit, hpop, hset⟩ := exists_split_of_get? nodup hk
  have hname : c'.nameVal = c.nameVal := by
    have hval : .val c.nameVal ∈ c'.elems := by
      rw [hc.elems]
      cases c <;> exact List.mem_cons_self
    exact val_mem_elems hval
  -- the other entries are those that popping the key leaves
  have hother : ∀ p ∈ Dict.set dlist k c', p = (k, c') ∨ p ∈ pop dlist k := by
    intro p hp
    rw [hset, List.mem_append, List.mem_cons] at hp
    rw [hpop, List.mem_append]
    tauto
  refine ⟨.dir nameVal ?_ (fun p hp => ?_) (nodup_keys_set nodup k c') fun p hp => ?_, rfl, ?_,
    hc.gone, hc.subset, fun l hl => ?_⟩
  · rw [hc.frame mlist (hlists.1 _ hmem), contents, hset, hsplit]
    simp only [flatten_append, flatten_cons, hc.elems]
  · rcases hother p hp with rfl | hp
    · rw [hname]
      exact names _ hmem
    · exact names p (mem_of_mem_pop hp)
  · rcases hother p hp with rfl | hp
    · exact hc.flattens
    · have hne : p.1 ≠ k := of_decide_eq_true (List.mem_filter.mp hp).2
      refine (entries p (mem_of_mem_pop hp)).congr p.2 fun l hl => hc.frame l fun hlc => ?_
      exact disjoint_lists hlists.2 (mem_of_mem_pop hp) hmem hne hl hlc
  · rw [lists_dir, lists_dir, hset, hsplit, List.flatMap_append, List.flatMap_append,
      List.flatMap_cons, List.flatMap_cons]
    exact ((hc.lists.append_right _).append_left _).cons_cons _
  · rw [mem_lists_dir, not_or] at hl
    exact hc.frame l fun hlc => hl.2 ⟨_, hmem, hlc⟩

/-- **A deletion somewhere in the tree.** -/
theorem exists_returns_deleteAt (hdel : Removes del) {key : String} :
    ∀ {path : List String} {m m' : Node V L}, Flattens str h m → m.lists.Nodup →
      remaining m path key = some m' →
      ∃ h', Returns (fun n => deleteAt del n h m path key) (h', m') ∧
        After str h h' m m' (removed m path key)
  | _, .file _, _, _, _, hr => by
    rw [remaining] at hr
    cases hr
  | [], .dir nameVal mlist dlist, m', hm, hlists, hr => by
    rw [remaining] at hr
    split at hr
    · next hkey =>
      cases hr
      obtain ⟨c, hc⟩ := Option.isSome_iff_exists.mp (isSome_get?_iff.mpr hkey)
      obtain ⟨h', hret, hdeleted⟩ := exists_returns_delete hdel (empties hdel c) hm hlists hc
      refine ⟨h', by simpa only [deleteAt] using hret, ?_⟩
      simpa only [removed, hc] using hdeleted.after hm hlists hc
    · cases hr
  | k :: path, .dir nameVal mlist dlist, m', hm, hlists, hr => by
    rw [remaining] at hr
    cases hk : get? dlist k with
    | none => simp [hk] at hr
    | some c =>
      rw [hk] at hr
      obtain ⟨c', hc', rfl⟩ := Option.map_eq_some_iff.mp hr
      have hmem := mem_of_get? hk
      have hc : Flattens str h c := by
        cases hm with
        | dir _ _ _ _ entries => exact entries _ hmem
      have hclists := (List.nodup_flatMap.mp (nodup_lists_dir.mp hlists).2).1 _ hmem
      obtain ⟨h', hret, hafter⟩ := exists_returns_deleteAt hdel hc hclists hc'
      refine ⟨h', ?_, ?_⟩
      · simp only [deleteAt, hk]
        exact hret.bind (returns_pure _)
      · simpa only [removed, hk] using hafter.set hm hlists hk

/-- **A sequence of deletions.** -/
theorem exists_returns_deleteAll (hdel : Removes del) :
    ∀ {calls : List (List String × String)} {h : Heap V L} {m m' : Node V L}, Flattens str h m →
      m.lists.Nodup → remainingAll m calls = some m' →
      ∃ h', Returns (fun n => deleteAll del n h m calls) (h', m') ∧
        After str h h' m m' (removedAll m calls)
  | [], h, m, m', hm, _, hr => by
    cases hr
    exact ⟨h, returns_pure _, hm, rfl, List.Sublist.refl _, nofun, fun _ _ he => he,
      fun _ _ => rfl⟩
  | call :: calls, h, m, m', hm, hlists, hr => by
    rw [remainingAll, List.foldlM_cons] at hr
    obtain ⟨m₁, hm₁, hr⟩ := Option.bind_eq_some_iff.mp hr
    obtain ⟨h₁, hret₁, h₁a⟩ := exists_returns_deleteAt hdel hm hlists hm₁
    obtain ⟨h₂, hret₂, h₂a⟩ :=
      exists_returns_deleteAll hdel h₁a.flattens (hlists.sublist h₁a.lists) hr
    refine ⟨h₂, ?_, h₂a.flattens, h₂a.elems.trans h₁a.elems, h₂a.lists.trans h₁a.lists,
      fun le hle => ?_, fun l e he => h₁a.subset l (h₂a.subset l he), fun l hl => ?_⟩
    · simp only [deleteAll, List.foldlM_cons]
      exact hret₁.bind hret₂
    · rw [removedAll, hm₁, List.mem_append] at hle
      rcases hle with hle | hle
      · exact ⟨(h₁a.gone le hle).1, fun he => (h₁a.gone le hle).2 (h₂a.subset _ he)⟩
      · exact ⟨h₁a.subset _ (h₂a.gone le hle).1, (h₂a.gone le hle).2⟩
    · rw [h₂a.frame l fun h => hl (h₁a.lists.subset h), h₁a.frame l hl]

/-- **The wrapper and the lists stay in step.**  After any sequence of deletions of existing
entries, anywhere below a directory, the dictionaries are the tree without these entries, the
lists are its flattening, and building from the list gives the same tree.  Every element of a
deleted entry was in its list and is no longer, and no list outside the tree has changed. -/
theorem flattens_of_deleteAll (hdel : Removes del) {nameVal : V} {mlist : L}
    {dlist : List (String × Node V L)} (hm : Flattens str h (.dir nameVal mlist dlist))
    (hlists : (.dir nameVal mlist dlist : Node V L).lists.Nodup)
    {calls : List (List String × String)} {m' : Node V L}
    (hcalls : remainingAll (.dir nameVal mlist dlist) calls = some m') :
    ∃ h', Returns (fun n => do
          let m ← init str h n nameVal mlist
          deleteAll del n h m calls) (h', m') ∧
      Flattens str h' m' ∧ Returns (fun n => init str h' n nameVal mlist) m' ∧
      (∀ le ∈ removedAll (.dir nameVal mlist dlist) calls, le.2 ∈ h le.1 ∧ le.2 ∉ h' le.1) ∧
      ∀ l, l ∉ (.dir nameVal mlist dlist : Node V L).lists → h' l = h l := by
  obtain ⟨h', hret, hafter⟩ := exists_returns_deleteAll hdel hm hlists hcalls
  refine ⟨h', (returns_init _ hm _ _ _ rfl).bind hret, hafter.flattens, ?_, hafter.gone,
    hafter.frame⟩
  have helems := hafter.elems
  cases m' with
  | file v => cases helems
  | dir nameVal' mlist' dlist' =>
    cases helems
    exact returns_init _ hafter.flattens _ _ _ rfl

end Delete

/-- A `MetricList.delete` that removes the first element equal to the given one. -/
def eraseElement [DecidableEq V] [DecidableEq L] : Delete V L := fun h l e =>
  .ok (Function.update h l ((h l).erase e))

/-- A directory `a` with the file `x` and the empty directory `y`, next to the file `b`. -/
def nested : Heap String ℕ
  | 0 => [.val "a", .list 1, .val "b"]
  | 1 => [.val "x", .val "y", .list 2]
  | _ => []

theorem flattens_nested : Flattens id nested
    (.dir "" 0 [("a", .dir "a" 1 [("x", .file "x"), ("y", .dir "y" 2 [])]), ("b", .file "b")]) := by
  have hy : Flattens id nested (.dir "y" 2 []) :=
    .dir "y" rfl (by simp) (by decide) (by simp)
  have ha : Flattens id nested (.dir "a" 1 [("x", .file "x"), ("y", .dir "y" 2 [])]) :=
    .dir "a" rfl (by simp [Node.nameVal]) (by decide) (by simp [hy, Flattens.file])
  exact .dir "" rfl (by simp [Node.nameVal]) (by decide) (by simp [ha, Flattens.file])

theorem flattens_of_deleteAll_nested : ∃ h', Returns (fun n => do
      let m ← init id nested n "" 0
      deleteAll eraseElement n nested m [(["a"], "x"), ([], "a")])
      (h', .dir "" 0 [("b", .file "b")]) ∧ h' 0 = [.val "b"] := by
  have hdel : Removes (eraseElement (V := String) (L := ℕ)) := fun _ _ _ _ _ _ => rfl
  have hcalls : remainingAll (V := String) (L := ℕ) (.dir "" 0 [("a", .dir "a" 1
      [("x", .file "x"), ("y", .dir "y" 2 [])]), ("b", .file "b")]) [(["a"], "x"), ([], "a")] =
      some (.dir "" 0 [("b", .file "b")]) := rfl
  obtain ⟨h', hret, hflat, -⟩ :=
    flattens_of_deleteAll hdel flattens_nested (by simp [lists_dir]) hcalls
  obtain _ | ⟨_, contents, -, -, -⟩ := hflat
  exact ⟨h', hret, contents⟩

end LdmsTest.DirList
