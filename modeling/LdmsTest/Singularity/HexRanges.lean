import LdmsTest.Foundation.Dict
import LdmsTest.Foundation.Numeral
import LdmsTest.Foundation.Ranges

/-!
# `HexRanges`

The range lists of `runtime.singularity`: a `HexRanges` is the list `self._entries` of pairs
`[a, b]`, and it stands for the integers between them.

Pairs are compared as Python compares lists, so `bisect` and `sort` are lexicographic.  The
entries are mutable, and `HexRanges.union` puts the entries of its arguments themselves into the
list that it prunes: what `prune` writes into an entry, the argument sees.  So `prune` works on
entries with an identity here, and `union` returns what has become of its arguments.
-/

namespace LdmsTest

/-- An entry `[a, b]` -/
abbrev Entry := ℤ × ℤ

/-- `HexRanges`, as its `_entries` -/
abbrev HexRanges := List Entry

namespace HexRanges

open Ranges (points listPoints Separated)

/-- `ent <= other`, as lists -/
def entryLe (ent other : Entry) : Prop :=
  ent.1 < other.1 ∨ ent.1 = other.1 ∧ ent.2 ≤ other.2

instance : DecidableRel entryLe := fun _ _ => inferInstanceAs (Decidable (_ ∨ _ ∧ _))

/-! ## The operations -/

/-- `bisect(self._entries, ent)` -/
def bisect (entries : HexRanges) (ent : Entry) : ℕ :=
  (entries.takeWhile fun e => decide (entryLe e ent)).length

/-- `insort(self._entries, ent)` -/
def insort (entries : HexRanges) (ent : Entry) : HexRanges :=
  entries.insertIdx (bisect entries ent) ent

/-- An entry and its identity. -/
abbrev Cell (ι : Type) := ι × Entry

/-- The loop of `prune`, with `tmp` from its end. -/
def pruneLoop {ι : Type} : List (Cell ι) → List (Cell ι) → List (Cell ι)
  | tmp, [] => tmp.reverse
  | [], ent :: rest => pruneLoop [ent] rest
  | last :: tmp, ent :: rest =>
    if last.2.2 < ent.2.1 then pruneLoop (ent :: last :: tmp) rest
    else pruneLoop ((last.1, (last.2.1, ent.2.2)) :: tmp) rest

/-- `self.prune()` on entries with an identity. -/
def pruneCells {ι : Type} (cells : List (Cell ι)) : List (Cell ι) :=
  pruneLoop [] (cells.insertionSort fun c d => entryLe c.2 d.2)

/-- `self.prune()` -/
def prune (entries : HexRanges) : HexRanges :=
  (pruneCells (entries.map fun ent => ((), ent))).map Prod.snd

/-- The entries of the arguments of `union`: the entry `j` of the argument `i`. -/
def unionCells (args : List HexRanges) : List (Cell (ℕ × ℕ)) :=
  args.zipIdx.flatMap fun r => r.1.zipIdx.map fun ent => ((r.2, ent.2), ent.1)

/-- `HexRanges.union(*args)`, and the arguments after it. -/
def union (args : List HexRanges) : HexRanges × List HexRanges :=
  let cells := pruneCells (unionCells args)
  (cells.map Prod.snd, args.zipIdx.map fun r => r.1.zipIdx.map fun ent =>
    (Dict.get? cells (r.2, ent.2)).getD ent.1)

/-- `self.ins(ent)` -/
def ins (entries : HexRanges) (ent : Entry) : HexRanges :=
  if entries.isEmpty then [ent]
  else
    let idx := bisect entries ent
    let l := if 0 < idx then entries[idx - 1]? else none
    let r := entries[idx]?
    match l.filter (fun l => decide (l.2 ≥ ent.1)), r.filter (fun r => decide (r.1 ≤ ent.2)) with
    -- ent joins l and r
    | some l, some r => (entries.set (idx - 1) (l.1, r.2)).eraseIdx idx
    -- ent goes into l
    | some l, none => entries.set (idx - 1) (l.1, ent.2)
    -- ent goes into r
    | none, some r => entries.set idx (ent.1, r.2)
    -- otherwise, ent is a new entry
    | none, none => entries.insertIdx idx ent

/-- The loop of `inv`: what is in `_new`, and `l`. -/
def invLoop (new : HexRanges) (l : ℤ) : HexRanges → HexRanges × ℤ
  | [] => (new, l)
  | ent :: rest =>
    let r := ent.1 - 1
    invLoop (if l ≤ r then ins new (l, r) else new) (ent.2 + 1) rest

/-- `self.inv(_min, _max)` -/
def inv (entries : HexRanges) (min max : ℤ) : HexRanges :=
  let (new, l) := invLoop [] min entries
  let r := max
  if l ≤ r then ins new (l, r) else new

/-! ## The text -/

/-- `"{:X}".format(n)` -/
def hex (n : ℤ) : List Char :=
  if n < 0 then '-' :: Numeral.upperDigits n.natAbs else Numeral.upperDigits n.natAbs

/-- An entry in `str(self)` -/
def entryText (ent : Entry) : List Char :=
  if ent.1 = ent.2 then hex ent.1 else hex ent.1 ++ '-' :: hex ent.2

/-- `str(self)`, as characters -/
def text : HexRanges → List Char
  | [] => []
  | [ent] => entryText ent
  | ent :: rest => entryText ent ++ ',' :: text rest

/-- `str(self)` -/
def toStr (entries : HexRanges) : String :=
  String.ofList (text entries)

/-- `(?:,|$)`, and what is left after it. -/
def matchEnd : List Char → Option (List Char)
  | ',' :: cs => some cs
  | [] => some []
  | ['\n'] => some ['\n']
  | _ => none

/-- A match of `RE` at the start of the text: its groups, and what is left after it. -/
def matchEntry (cs : List Char) : Option ((List Char × List Char) × List Char) :=
  let a := cs.takeWhile Numeral.isHexDigit
  let rest := cs.dropWhile Numeral.isHexDigit
  if a = [] then none
  else
    match rest with
    | '-' :: rest =>
      let b := rest.takeWhile Numeral.isHexDigit
      if b = [] then none
      else (matchEnd (rest.dropWhile Numeral.isHexDigit)).map ((a, b), ·)
    | rest => (matchEnd rest).map ((a, []), ·)

/-- `self.RE.findall(_str)`; each turn takes a match, or a character that starts none. -/
def findAll : ℕ → List Char → List (List Char × List Char)
  | 0, _ => []
  | _, [] => []
  | n + 1, c :: cs =>
    match matchEntry (c :: cs) with
    | some (groups, rest) => groups :: findAll n rest
    | none => findAll n cs

/-- `int(a, base=16)` -/
def ofHex (a : List Char) : ℤ :=
  Numeral.value 16 a

/-- `[a, b] if b is not None else [a, a]` -/
def ofGroups (groups : List Char × List Char) : Entry :=
  (ofHex groups.1, if groups.2 = [] then ofHex groups.1 else ofHex groups.2)

/-- `HexRanges(_str)` -/
def ofStr (str : String) : HexRanges :=
  if str = "" then []
  else prune (((findAll str.length str.toList).map ofGroups).foldl insort [])

/-! ## Inserting at the end -/

theorem entryLe_of_lt {e f : Entry} (h : e.1 < f.1) : entryLe e f := Or.inl h

/-- `bisect` of an entry that starts after all others. -/
theorem bisect_of_forall_lt {entries : HexRanges} {ent : Entry}
    (h : ∀ e ∈ entries, e.1 < ent.1) : bisect entries ent = entries.length := by
  have hall : entries.takeWhile (fun e => decide (entryLe e ent)) = entries :=
    List.takeWhile_eq_self_iff.mpr fun e he => decide_eq_true (entryLe_of_lt (h e he))
  rw [bisect, hall]

theorem insort_of_forall_lt {entries : HexRanges} {ent : Entry}
    (h : ∀ e ∈ entries, e.1 < ent.1) : insort entries ent = entries ++ [ent] := by
  rw [insort, bisect_of_forall_lt h, List.insertIdx_length_self]

/-- **`ins` of an entry that starts after the end of all others** appends it. -/
theorem ins_of_forall_lt {entries : HexRanges} {ent : Entry}
    (hne : ∀ e ∈ entries, e.1 ≤ e.2) (h : ∀ e ∈ entries, e.2 < ent.1) :
    ins entries ent = entries ++ [ent] := by
  have hidx : bisect entries ent = entries.length :=
    bisect_of_forall_lt fun e he => (hne e he).trans_lt (h e he)
  unfold ins
  split
  · next hempty => rw [List.isEmpty_iff.mp hempty, List.nil_append]
  · next hsome =>
    have hl : (if 0 < entries.length then entries[entries.length - 1]? else none).filter
        (fun l => decide (l.2 ≥ ent.1)) = none := by
      rw [Option.filter_eq_none_iff]
      intro l hl
      split at hl
      · have := h l (List.mem_of_getElem? hl)
        simp only [decide_eq_true_eq, not_le]
        exact this
      · cases hl
    simp only [hidx, hl, List.getElem?_eq_none le_rfl, Option.filter_none]
    exact List.insertIdx_length_self

/-! ## `prune` -/

theorem pruneLoop_of_pairwise {ι : Type} (tmp rest : List (Cell ι))
    (h : (tmp.reverse ++ rest).Pairwise fun c d => c.2.2 < d.2.1) :
    pruneLoop tmp rest = tmp.reverse ++ rest := by
  induction rest generalizing tmp with
  | nil => cases tmp <;> simp [pruneLoop]
  | cons ent rest ih =>
    cases tmp with
    | nil => exact ih [ent] h
    | cons last tmp =>
      have hlast : last.2.2 < ent.2.1 := by
        rw [List.pairwise_append] at h
        exact h.2.2 last (List.mem_reverse.mpr List.mem_cons_self) ent List.mem_cons_self
      have hcons : (ent :: last :: tmp).reverse ++ rest = (last :: tmp).reverse ++ ent :: rest := by
        rw [List.reverse_cons, List.append_assoc, List.singleton_append]
      rw [pruneLoop, if_pos hlast, ih _ (by rwa [hcons]), hcons]

instance : Std.Total entryLe where
  total e f := by
    unfold entryLe
    omega

instance : IsTrans Entry entryLe where
  trans e f g hef hfg := by
    unfold entryLe at *
    omega

/-- **`prune` on disjoint entries** sorts them and changes none. -/
theorem pruneCells_of_disjoint {ι : Type} {cells : List (Cell ι)}
    (hne : ∀ c ∈ cells, c.2.1 ≤ c.2.2)
    (hdisj : cells.Pairwise fun c d => c.2.2 < d.2.1 ∨ d.2.2 < c.2.1) :
    (pruneCells cells).Perm cells ∧ Separated ((pruneCells cells).map Prod.snd) := by
  have : Std.Total fun c d : Cell ι => entryLe c.2 d.2 := ⟨fun c d => total_of entryLe c.2 d.2⟩
  have : IsTrans (Cell ι) fun c d => entryLe c.2 d.2 := ⟨fun c d e => trans_of entryLe⟩
  have hperm := List.perm_insertionSort (fun c d : Cell ι => entryLe c.2 d.2) cells
  have hsorted := List.pairwise_insertionSort (fun c d : Cell ι => entryLe c.2 d.2) cells
  unfold pruneCells
  generalize cells.insertionSort (fun c d => entryLe c.2 d.2) = sorted at hperm hsorted
  have hdisj' : sorted.Pairwise fun c d => c.2.2 < d.2.1 ∨ d.2.2 < c.2.1 :=
    (hperm.pairwise_iff fun {c d} h => h.symm).mpr hdisj
  have hsep : Separated (sorted.map Prod.snd) := by
    refine Separated.of_sorted ?_ ?_ (List.pairwise_map.mpr hdisj')
    · rw [List.forall_mem_map]
      exact fun c hc => hne c (hperm.mem_iff.mp hc)
    · refine List.pairwise_map.mpr (hsorted.imp fun {c d} h => ?_)
      rcases h with h | ⟨h, -⟩ <;> omega
  have hloop : pruneLoop [] sorted = sorted :=
    pruneLoop_of_pairwise [] sorted (List.pairwise_map.mp hsep.pairwise)
  rw [hloop]
  exact ⟨hperm, hsep⟩

/-- **`prune` on separated entries** does nothing. -/
theorem prune_of_separated {entries : HexRanges} (h : Separated entries) :
    prune entries = entries := by
  have hsorted : (entries.map fun ent => ((), ent)).Pairwise fun c d => entryLe c.2 d.2 := by
    refine List.pairwise_map.mpr (h.pairwise.imp_of_mem fun {e f} he _ hlt => ?_)
    exact entryLe_of_lt ((h.nonempty e he).trans_lt hlt)
  have hlt : (entries.map fun ent => ((), ent)).Pairwise fun c d => c.2.2 < d.2.1 :=
    List.pairwise_map.mpr h.pairwise
  rw [prune, pruneCells, hsorted.insertionSort_eq, pruneLoop_of_pairwise [] _ hlt,
    List.reverse_nil, List.nil_append, List.map_map]
  exact List.map_id _

/-! ## `union` -/

theorem map_snd_unionCells (args : List HexRanges) :
    (unionCells args).map Prod.snd = args.flatten := by
  rw [unionCells, List.map_flatMap]
  have hrow (r : HexRanges × ℕ) :
      (r.1.zipIdx.map fun ent => (((r.2, ent.2), ent.1) : Cell (ℕ × ℕ))).map Prod.snd = r.1 := by
    rw [List.map_map]
    exact List.zipIdx_map_fst 0 r.1
  simp only [hrow]
  rw [List.flatMap_def, List.zipIdx_map_fst]

theorem mem_unionCells_iff {args : List HexRanges} {i j : ℕ} {ent : Entry} :
    ((i, j), ent) ∈ unionCells args ↔ ∃ r, args[i]? = some r ∧ r[j]? = some ent := by
  simp only [unionCells, List.mem_flatMap, List.mem_map, Prod.mk.injEq]
  constructor
  · rintro ⟨⟨r, i'⟩, hr, ⟨e, j'⟩, he, ⟨rfl, rfl⟩, rfl⟩
    exact ⟨r, List.mem_zipIdx_iff_getElem?.mp hr, List.mem_zipIdx_iff_getElem?.mp he⟩
  · rintro ⟨r, hr, he⟩
    exact ⟨(r, i), List.mem_zipIdx_iff_getElem?.mpr hr, (ent, j),
      List.mem_zipIdx_iff_getElem?.mpr he, ⟨rfl, rfl⟩, rfl⟩

/-- When the cells are only rearranged, every argument keeps its entries. -/
theorem map_getD_of_perm {args : List HexRanges} {cells : List (Cell (ℕ × ℕ))}
    (h : cells.Perm (unionCells args)) : (args.zipIdx.map fun r => r.1.zipIdx.map fun ent =>
      (Dict.get? cells (r.2, ent.2)).getD ent.1) = args := by
  have hent {i j : ℕ} {r : HexRanges} {ent : Entry} (hr : args[i]? = some r)
      (he : r[j]? = some ent) : (Dict.get? cells (i, j)).getD ent = ent := by
    cases hget : Dict.get? cells (i, j) with
    | none => rfl
    | some e =>
      obtain ⟨r', hr', he'⟩ := mem_unionCells_iff.mp (h.mem_iff.mp (Dict.mem_of_get? hget))
      obtain rfl := Option.some_inj.mp (hr.symm.trans hr')
      exact Option.some_inj.mp (he'.symm.trans he)
  refine List.ext_getElem? fun i => ?_
  rw [List.getElem?_map, List.getElem?_zipIdx, Option.map_map]
  cases hr : args[i]? with
  | none => rfl
  | some r =>
    refine congrArg some (List.ext_getElem? fun j => ?_)
    simp only [Function.comp_apply, Nat.zero_add]
    rw [List.getElem?_map, List.getElem?_zipIdx, Option.map_map]
    cases he : r[j]? with
    | none => rfl
    | some ent => exact congrArg some (by simpa using hent hr he)

/-- **`union` of disjoint arguments** has the entries of all of them, in order, and leaves the
arguments as they were. -/
theorem union_of_disjoint {args : List HexRanges} (hsep : ∀ r ∈ args, Separated r)
    (hdisj : args.Pairwise fun r s => Disjoint (points r) (points s)) :
    (union args).1.Perm args.flatten ∧ Separated (union args).1 ∧ (union args).2 = args := by
  have hne : ∀ c ∈ unionCells args, c.2.1 ≤ c.2.2 := by
    rintro ⟨⟨i, j⟩, ent⟩ hc
    obtain ⟨r, hr, he⟩ := mem_unionCells_iff.mp hc
    exact (hsep r (List.mem_of_getElem? hr)).nonempty ent (List.mem_of_getElem? he)
  have hflat : args.flatten.Pairwise fun e f => e.2 < f.1 ∨ f.2 < e.1 := by
    refine List.pairwise_flatten.mpr ⟨fun r hr => (hsep r hr).pairwise.imp Or.inl, ?_⟩
    exact hdisj.imp_of_mem fun {r s} hr hs h e he f hf =>
      Ranges.lt_or_lt_of_disjoint (hsep r hr) (hsep s hs) h he hf
  rw [← map_snd_unionCells, List.pairwise_map] at hflat
  obtain ⟨hperm, hres⟩ := pruneCells_of_disjoint hne hflat
  refine ⟨?_, hres, map_getD_of_perm hperm⟩
  rw [← map_snd_unionCells]
  exact hperm.map Prod.snd

/-! ## `inv` -/

/-- The gaps between the entries from `l` on, up to `max`. -/
def gaps (max : ℤ) (l : ℤ) : HexRanges → HexRanges
  | [] => if l ≤ max then [(l, max)] else []
  | ent :: rest => (if l ≤ ent.1 - 1 then [(l, ent.1 - 1)] else []) ++ gaps max (ent.2 + 1) rest

/-- The loop of `inv` appends gap after gap. -/
theorem invLoop_eq_gaps {entries : HexRanges} (h : Separated entries) (max : ℤ)
    (new : HexRanges) {l : ℤ} (hne : ∀ e ∈ new, e.1 ≤ e.2) (hnew : ∀ e ∈ new, e.2 < l)
    (hbefore : ∀ e ∈ new, ∀ f ∈ entries, e.2 < f.1) :
    (if (invLoop new l entries).2 ≤ max
      then ins (invLoop new l entries).1 ((invLoop new l entries).2, max)
      else (invLoop new l entries).1) = new ++ gaps max l entries := by
  induction entries generalizing new l with
  | nil =>
    rw [invLoop, gaps]
    split
    · exact ins_of_forall_lt hne hnew
    · exact (List.append_nil new).symm
  | cons ent rest ih =>
    obtain ⟨hent, hlt, hrest⟩ := Ranges.separated_cons_iff.mp h
    have hnew' : ∀ e ∈ new, e.2 < ent.2 + 1 := by
      intro e he
      have := hbefore e he ent List.mem_cons_self
      omega
    have hbefore' : ∀ e ∈ new, ∀ f ∈ rest, e.2 < f.1 := fun e he f hf =>
      hbefore e he f (List.mem_cons_of_mem _ hf)
    rw [invLoop, gaps, ← List.append_assoc]
    split
    · next hgap =>
      rw [ins_of_forall_lt hne hnew]
      refine ih hrest _ ?_ ?_ ?_
      · rw [List.forall_mem_append, List.forall_mem_singleton]
        exact ⟨hne, hgap⟩
      · rw [List.forall_mem_append, List.forall_mem_singleton]
        exact ⟨hnew', by omega⟩
      · rw [List.forall_mem_append, List.forall_mem_singleton]
        refine ⟨hbefore', fun f hf => ?_⟩
        have := hlt f hf
        omega
    · rw [List.append_nil]
      exact ih hrest _ hne hnew' hbefore'

/-- **`inv` finds the gaps** between separated entries. -/
theorem inv_eq_gaps {entries : HexRanges} (h : Separated entries) (min max : ℤ) :
    inv entries min max = gaps max min entries :=
  invLoop_eq_gaps h max [] nofun nofun nofun

theorem le_of_mem_gaps {entries : HexRanges} (h : Separated entries) {max l : ℤ}
    (hl : ∀ e ∈ entries, l ≤ e.1) : ∀ g ∈ gaps max l entries, l ≤ g.1 := by
  induction entries generalizing l with
  | nil =>
    rw [gaps]
    split
    · exact List.forall_mem_singleton.mpr le_rfl
    · exact nofun
  | cons ent rest ih =>
    obtain ⟨hent, hlt, hrest⟩ := Ranges.separated_cons_iff.mp h
    have hle := hl ent List.mem_cons_self
    rw [gaps, List.forall_mem_append]
    constructor
    · split
      · exact List.forall_mem_singleton.mpr le_rfl
      · exact nofun
    · intro g hg
      have := ih (l := ent.2 + 1) hrest hlt g hg
      omega

theorem separated_gaps {entries : HexRanges} (h : Separated entries) {max l : ℤ}
    (hl : ∀ e ∈ entries, l ≤ e.1) : Separated (gaps max l entries) := by
  induction entries generalizing l with
  | nil =>
    rw [gaps]
    split
    · next hle => exact Ranges.separated_cons_iff.mpr ⟨hle, nofun, Ranges.separated_nil⟩
    · exact Ranges.separated_nil
  | cons ent rest ih =>
    obtain ⟨hent, hlt, hrest⟩ := Ranges.separated_cons_iff.mp h
    rw [gaps, Ranges.separated_append_iff]
    refine ⟨?_, ih hrest hlt, ?_⟩
    · split
      · next hle => exact Ranges.separated_cons_iff.mpr ⟨hle, nofun, Ranges.separated_nil⟩
      · exact Ranges.separated_nil
    · intro e he g hg
      have hg := le_of_mem_gaps (l := ent.2 + 1) hrest hlt g hg
      split at he
      · obtain rfl := List.mem_singleton.mp he
        change ent.1 - 1 < g.1
        omega
      · cases he

/-- **The gaps**, for entries anywhere: what no entry has, from `l` or the first entry on, up to
`max` or the last entry. -/
theorem mem_points_gaps {entries : HexRanges} (h : Separated entries) {max l x : ℤ} :
    x ∈ points (gaps max l entries) ↔
      x ∉ points entries ∧ (l ≤ x ∨ ∃ e ∈ entries, e.2 < x) ∧
        (x ≤ max ∨ ∃ e ∈ entries, x < e.1) := by
  induction entries generalizing l with
  | nil =>
    rw [gaps, Ranges.points_nil]
    split
    · simp [Ranges.points_cons]
    · simp only [Ranges.points_nil, Set.mem_empty_iff_false, false_iff, List.not_mem_nil,
        false_and, exists_false, or_false, not_false_eq_true, true_and]
      omega
  | cons ent rest ih =>
    obtain ⟨hent, hlt, hrest⟩ := Ranges.separated_cons_iff.mp h
    have hgap : x ∈ points (if l ≤ ent.1 - 1 then [(l, ent.1 - 1)] else []) ↔
        l ≤ x ∧ x < ent.1 := by
      split
      · simp only [Ranges.points_cons, Ranges.points_nil, Set.union_empty, Set.mem_Icc]
        omega
      · simp only [Ranges.points_nil, Set.mem_empty_iff_false, false_iff]
        omega
    have hbefore : x < ent.1 → x ∉ points rest := by
      rintro hx ⟨e, he, hex, -⟩
      have := hlt e he
      omega
    have hafter : (∃ e ∈ rest, e.2 < x) → ent.2 < x := by
      rintro ⟨e, he, hex⟩
      have := hlt e he
      have := hrest.nonempty e he
      omega
    rw [gaps, Ranges.points_append, Set.mem_union, hgap, ih hrest, Ranges.points_cons,
      Set.mem_union, Set.mem_Icc]
    simp only [List.exists_mem_cons_iff]
    constructor
    · rintro (⟨h1, h2⟩ | ⟨h1, h2, h3⟩)
      · exact ⟨fun hx => hx.elim (by omega) (hbefore h2), Or.inl h1, Or.inr (Or.inl h2)⟩
      · have hx : ent.2 < x := h2.elim (by omega) hafter
        exact ⟨fun hx' => hx'.elim (by omega) h1, Or.inr (Or.inl hx), h3.imp_right Or.inr⟩
    · rintro ⟨h1, h2, h3⟩
      obtain ⟨hout, hnot⟩ := not_or.mp h1
      rcases lt_or_ge x ent.1 with hx | hx
      · refine Or.inl ⟨?_, hx⟩
        rcases h2 with h2 | h2 | h2
        · exact h2
        · omega
        · have := hafter h2
          omega
      · have hx' : ent.2 < x := by omega
        refine Or.inr ⟨hnot, Or.inl hx', ?_⟩
        rcases h3 with h3 | h3 | h3
        · exact Or.inl h3
        · omega
        · exact Or.inr h3

/-- **The gaps are the complement** of entries between `l` and `max`. -/
theorem mem_points_gaps_of_inside {entries : HexRanges} (h : Separated entries) {max l : ℤ}
    (hl : ∀ e ∈ entries, l ≤ e.1) (hmax : ∀ e ∈ entries, e.2 ≤ max) {x : ℤ} :
    x ∈ points (gaps max l entries) ↔ l ≤ x ∧ x ≤ max ∧ x ∉ points entries := by
  have hlo : (∃ e ∈ entries, e.2 < x) → l ≤ x := by
    rintro ⟨e, he, hx⟩
    have := hl e he
    have := h.nonempty e he
    omega
  have hhi : (∃ e ∈ entries, x < e.1) → x ≤ max := by
    rintro ⟨e, he, hx⟩
    have := hmax e he
    have := h.nonempty e he
    omega
  rw [mem_points_gaps h, or_iff_left_of_imp hlo, or_iff_left_of_imp hhi]
  tauto

/-! ## Reading the text back -/

theorem hex_of_nonneg {n : ℤ} (hn : 0 ≤ n) : hex n = Numeral.upperDigits n.natAbs :=
  if_neg (not_lt_of_ge hn)

theorem isHexDigit_of_mem_hex {n : ℤ} (hn : 0 ≤ n) : ∀ c ∈ hex n, Numeral.isHexDigit c := by
  rw [hex_of_nonneg hn]
  exact fun c hc => Numeral.isHexDigit_of_mem_upperDigits hc

theorem hex_ne_nil {n : ℤ} (hn : 0 ≤ n) : hex n ≠ [] := by
  rw [hex_of_nonneg hn]
  exact Numeral.upperDigits_ne_nil _

theorem ofHex_hex {n : ℤ} (hn : 0 ≤ n) : ofHex (hex n) = n := by
  rw [hex_of_nonneg hn, ofHex, Numeral.value_upperDigits]
  exact Int.natAbs_of_nonneg hn

/-- The groups that an entry is read as. -/
def groupsOf (ent : Entry) : List Char × List Char :=
  (hex ent.1, if ent.1 = ent.2 then [] else hex ent.2)

theorem ofGroups_groupsOf {ent : Entry} (h1 : 0 ≤ ent.1) (h2 : 0 ≤ ent.2) :
    ofGroups (groupsOf ent) = ent := by
  unfold ofGroups groupsOf
  by_cases hent : ent.1 = ent.2
  · simp only [if_pos hent, ofHex_hex h1, if_true]
    exact Prod.ext rfl hent
  · simp only [if_neg hent, ofHex_hex h1, ofHex_hex h2, hex_ne_nil h2, if_false]

theorem takeWhile_hex_append {n : ℤ} (hn : 0 ≤ n) {rest : List Char}
    (hrest : rest.takeWhile Numeral.isHexDigit = []) :
    (hex n ++ rest).takeWhile Numeral.isHexDigit = hex n := by
  rw [List.takeWhile_append_of_pos (isHexDigit_of_mem_hex hn), hrest, List.append_nil]

theorem dropWhile_hex_append {n : ℤ} (hn : 0 ≤ n) {rest : List Char}
    (hrest : rest.dropWhile Numeral.isHexDigit = rest) :
    (hex n ++ rest).dropWhile Numeral.isHexDigit = rest := by
  rw [List.dropWhile_append_of_pos (isHexDigit_of_mem_hex hn), hrest]

/-- What may follow an entry: a comma, or the end. -/
theorem matchEntry_entryText {ent : Entry} (h1 : 0 ≤ ent.1) (h2 : 0 ≤ ent.2)
    (rest : List Char) {left : List Char} (htake : rest.takeWhile Numeral.isHexDigit = [])
    (hdrop : rest.dropWhile Numeral.isHexDigit = rest) (hend : matchEnd rest = some left)
    (hdash : ∀ cs, rest ≠ '-' :: cs) :
    matchEntry (entryText ent ++ rest) = some (groupsOf ent, left) := by
  unfold entryText groupsOf
  by_cases hent : ent.1 = ent.2
  · simp only [if_pos hent, matchEntry, takeWhile_hex_append h1 htake,
      dropWhile_hex_append h1 hdrop, hex_ne_nil h1, if_false, hend]
    rfl
  · have hminus : ('-' :: (hex ent.2 ++ rest)).takeWhile Numeral.isHexDigit = [] := rfl
    have hminus' : ('-' :: (hex ent.2 ++ rest)).dropWhile Numeral.isHexDigit =
        '-' :: (hex ent.2 ++ rest) := rfl
    simp only [if_neg hent, matchEntry, List.append_assoc, List.cons_append,
      takeWhile_hex_append h1 hminus, dropWhile_hex_append h1 hminus', hex_ne_nil h1, if_false,
      takeWhile_hex_append h2 htake, dropWhile_hex_append h2 hdrop, hex_ne_nil h2, hend]
    rfl

theorem text_cons_cons (ent next : Entry) (rest : HexRanges) :
    text (ent :: next :: rest) = entryText ent ++ ',' :: text (next :: rest) := rfl

theorem entryText_ne_nil {ent : Entry} (h1 : 0 ≤ ent.1) : entryText ent ≠ [] := by
  unfold entryText
  split
  · exact hex_ne_nil h1
  · exact List.append_ne_nil_of_left_ne_nil (hex_ne_nil h1) _

theorem findAll_of_match {n : ℕ} {cs rest : List Char} {groups : List Char × List Char}
    (h : matchEntry cs = some (groups, rest)) (hne : cs ≠ []) :
    findAll (n + 1) cs = groups :: findAll n rest := by
  cases cs with
  | nil => exact absurd rfl hne
  | cons c cs => rw [findAll, h]

/-- The text of entries is read as their groups. -/
theorem findAll_text {entries : HexRanges} (h : ∀ e ∈ entries, 0 ≤ e.1 ∧ 0 ≤ e.2) {n : ℕ}
    (hn : entries.length ≤ n) : findAll n (text entries) = entries.map groupsOf := by
  induction entries generalizing n with
  | nil => cases n <;> rfl
  | cons ent rest ih =>
    obtain ⟨h1, h2⟩ := h ent List.mem_cons_self
    obtain ⟨n, rfl⟩ := Nat.exists_eq_add_of_le' (Nat.lt_of_lt_of_le (Nat.succ_pos _) hn)
    cases rest with
    | nil =>
      have hmatch := matchEntry_entryText h1 h2 [] rfl rfl rfl nofun
      rw [List.append_nil] at hmatch
      rw [text, findAll_of_match hmatch (entryText_ne_nil h1)]
      cases n <;> rfl
    | cons next rest =>
      have hmatch := matchEntry_entryText h1 h2 (',' :: text (next :: rest)) rfl rfl rfl nofun
      rw [text_cons_cons, findAll_of_match hmatch
        (List.append_ne_nil_of_left_ne_nil (entryText_ne_nil h1) _),
        ih (fun e he => h e (List.mem_cons_of_mem _ he)) (Nat.le_of_succ_le_succ hn)]
      rfl

theorem foldl_insort {new entries : HexRanges} (h : Separated (new ++ entries)) :
    entries.foldl insort new = new ++ entries := by
  induction entries generalizing new with
  | nil => exact (List.append_nil new).symm
  | cons ent rest ih =>
    have hlt : ∀ e ∈ new, e.1 < ent.1 := by
      obtain ⟨hnew, -, hsep⟩ := Ranges.separated_append_iff.mp h
      exact fun e he => (hnew.nonempty e he).trans_lt (hsep e he ent List.mem_cons_self)
    rw [List.foldl_cons, insort_of_forall_lt hlt, ih (by simpa using h), List.append_assoc,
      List.singleton_append]

theorem length_le_length_text {entries : HexRanges} (h : ∀ e ∈ entries, 0 ≤ e.1) :
    entries.length ≤ (text entries).length := by
  induction entries with
  | nil => exact Nat.zero_le _
  | cons ent rest ih =>
    have hpos := List.length_pos_of_ne_nil (entryText_ne_nil (h ent List.mem_cons_self))
    have ih := ih fun e he => h e (List.mem_cons_of_mem _ he)
    cases rest with
    | nil => exact hpos
    | cons next rest =>
      rw [text_cons_cons, List.length_append]
      simp only [List.length_cons] at ih ⊢
      omega

/-- **Reading the text back** gives the entries back. -/
theorem ofStr_toStr {entries : HexRanges} (h : Separated entries) (hpos : ∀ e ∈ entries, 0 ≤ e.1) :
    ofStr (toStr entries) = entries := by
  have hnonneg : ∀ e ∈ entries, 0 ≤ e.1 ∧ 0 ≤ e.2 := fun e he =>
    ⟨hpos e he, (hpos e he).trans (h.nonempty e he)⟩
  have hread : (findAll (toStr entries).length (toStr entries).toList).map ofGroups = entries := by
    rw [toStr, String.length_ofList, String.toList_ofList,
      findAll_text hnonneg (length_le_length_text hpos), List.map_map]
    have hid : ∀ e ∈ entries, (ofGroups ∘ groupsOf) e = e := fun e he =>
      ofGroups_groupsOf (hnonneg e he).1 (hnonneg e he).2
    rw [List.map_congr_left hid]
    exact List.map_id _
  unfold ofStr
  split
  · next hempty =>
    rw [hempty] at hread
    exact hread
  · have hnil : Separated ([] ++ entries) := by simpa using h
    rw [hread, foldl_insort hnil, List.nil_append, prune_of_separated h]

end HexRanges
end LdmsTest
