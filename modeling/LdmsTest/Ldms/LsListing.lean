import LdmsTest.Ldms.LsLines

/-!
# Whole listings

`ldms_ls -l` prints its sets with a blank line between two of them; with `-v` the meta section is in
front of them.

* `Listing`: what is printed.
* `LsSet.Stored`: the set is found with what was printed.
* `State.stores_sets`: what the reader makes of sets that are not taken for something else.
* `InData.mem_keys_of_run`: the sets that lines open.
* `oneLine_of_parseLdmsLs`: a string that is read has one line.
* `reads_iff`: a listing is read as it was printed exactly if no line is taken for one of another
  kind and every value stands as it is between its quotes.
* `recalls_iff`: the meta data are read, too, exactly if one blank stands behind the flags of each
  row.
-/

namespace LdmsTest
namespace Ls

open Regex Text

variable {F : Type} [PyText F]

/-! ## What is printed -/

namespace LsSet

variable (set : LsSet F)

def lines : List (List Char) :=
  set.header :: set.metrics.map Metric.text

/-- What is printed of the metrics. -/
def values {α : Type} (f : Value → α) : Dict (List Char) α :=
  set.metrics.map fun metric => (metric.name.1, f metric.value)

/-- The set is found with these values. -/
def Stored (f : Value → TypedVal F) (ret : Dict (List Char) (SetDict F)) : Prop :=
  ∃ lset, Dict.get? ret set.name.1 = some lset ∧ lset.name = some set.name.1 ∧
    lset.data = some (set.values f) ∧ lset.dataType = some (set.values Value.type)

end LsSet

/-- The output of `ldms_ls -l`, or of `ldms_ls -l -v`. -/
structure Listing (F : Type) [PyText F] where
  sect : Option (MetaSection F)
  sets : List (LsSet F)
  nodup : (sets.map fun set => set.name.1).Nodup
  rows : ∀ row ∈ sect.elim [] MetaSection.rows, row.inst.1 ∈ sets.map fun set => set.name.1

namespace Listing

variable (listing : Listing F)

def names : List (List Char) :=
  listing.sets.map fun set => set.name.1

def setLines : List (List Char) :=
  [[]].intercalate (listing.sets.map LsSet.lines)

def lines : List (List Char) :=
  listing.sect.elim [] MetaSection.lines ++ listing.setLines

/-- The sets are found, each with its values, and no others. -/
def Read (ret : Dict (List Char) (SetDict F)) : Prop :=
  (∀ k, k ∈ Dict.keys ret ↔ k ∈ listing.names) ∧
    ∀ set ∈ listing.sets, set.Stored (Value.typed F) ret

/-- No line is taken for one of another kind, and the values stand as they are. -/
structure Plain : Prop where
  rows : ∀ row ∈ listing.sect.elim [] MetaSection.rows,
    row.Plain ∧ (row.Shifts → row.flags.1 ∈ listing.names)
  headers : ∀ set ∈ listing.sets, set.PlainHeader
  metrics : ∀ set ∈ listing.sets, ∀ metric ∈ set.metrics, metric.Plain ∧ metric.value.Quotable

end Listing

theorem intercalate_lines (set : LsSet F) (sets : List (LsSet F)) :
    [[]].intercalate ((set :: sets).map LsSet.lines) =
      set.lines ++ sets.flatMap fun set => [] :: set.lines := by
  induction sets generalizing set with
  | nil => simp
  | cons set' sets ih =>
    rw [List.map_cons, List.map_cons, List.intercalate_cons_cons, ← List.map_cons, ih,
      List.flatMap_cons]
    simp

/-! ## Sets that are read -/

/-- The metrics, one after the other. -/
def State.storeAll (st : State F) (n : List Char) (metrics : List (Metric F)) : State F :=
  metrics.foldl (fun st metric =>
    st.store n metric.name.1 metric.value.type (metric.value.read F)) st

@[simp] theorem State.storeAll_nil (st : State F) (n : List Char) : st.storeAll n [] = st := rfl

@[simp] theorem State.storeAll_cons (st : State F) (n : List Char) (metric : Metric F)
    (metrics : List (Metric F)) : st.storeAll n (metric :: metrics) =
      (st.store n metric.name.1 metric.value.type (metric.value.read F)).storeAll n metrics := rfl

@[simp] theorem State.sec_storeAll (st : State F) (n : List Char) (metrics : List (Metric F)) :
    (st.storeAll n metrics).sec = st.sec := by
  induction metrics generalizing st with
  | nil => rfl
  | cons metric metrics ih => exact ih _

theorem State.get?_storeAll_of_ne (st : State F) {n k : List Char} (h : n ≠ k)
    (metrics : List (Metric F)) : Dict.get? (st.storeAll n metrics).ret k = Dict.get? st.ret k := by
  induction metrics generalizing st with
  | nil => rfl
  | cons metric metrics ih =>
    rw [storeAll_cons, ih, store, get?_assign, if_neg h]

/-- **What is stored of metrics** stands behind what was stored before. -/
theorem State.get?_storeAll {st : State F} {n : List Char} {lset : SetDict F}
    {metrics : List (Metric F)} {data : Dict (List Char) (TypedVal F)}
    {types : Dict (List Char) (List Char)} (hget : Dict.get? st.ret n = some lset)
    (hdata : lset.data = some data) (htypes : lset.dataType = some types)
    (hkeys : Dict.keys data = Dict.keys types)
    (hnodup : (Dict.keys data ++ metrics.map fun metric => metric.name.1).Nodup) :
    Dict.get? (st.storeAll n metrics).ret n = some { lset with
      data := some (data ++ metrics.map fun metric => (metric.name.1, metric.value.read F))
      dataType := some (types ++ metrics.map fun metric => (metric.name.1, metric.value.type)) } := by
  induction metrics generalizing st lset data types with
  | nil => simp [hget, ← hdata, ← htypes]
  | cons metric metrics ih =>
    have hnot : metric.name.1 ∉ Dict.keys data := fun hmem =>
      (List.nodup_append.mp hnodup).2.2 _ hmem _ (by simp) rfl
    have hset : Dict.get? (st.store n metric.name.1 metric.value.type (metric.value.read F)).ret n =
        some { lset with
          data := some (data ++ [(metric.name.1, metric.value.read F)])
          dataType := some (types ++ [(metric.name.1, metric.value.type)]) } := by
      rw [store, get?_assign, if_pos rfl, hget, Option.getD_some, hdata, htypes]
      simp only [Option.map_some, Dict.set_of_notMem hnot, Dict.set_of_notMem (hkeys ▸ hnot)]
    rw [storeAll_cons, ih hset rfl rfl]
    · simp
    · simpa [Dict.keys] using hkeys
    · simpa [Dict.keys] using hnodup

/-- **The metrics** are stored one by one. -/
theorem foldlM_step_metrics {st : State F} (hsec : st.sec = .data) {n : List Char}
    (hdata : st.data = .of n) {metrics : List (Metric F)} (h : ∀ metric ∈ metrics, metric.Plain) :
    (metrics.map Metric.text).foldlM step st = .ok (st.storeAll n metrics) := by
  induction metrics generalizing st with
  | nil => rfl
  | cons metric metrics ih =>
    obtain ⟨hmetric, hmetrics⟩ := List.forall_mem_cons.mp h
    rw [List.map_cons, List.foldlM_cons, step_metric hsec hdata hmetric]
    exact ih hsec hdata hmetrics

/-- **A set** is stored, and the others are left as they are. -/
theorem foldlM_step_set {st : State F} (hsec : st.sec ≠ .metaData) {set : LsSet F}
    (hheader : set.PlainHeader) (hmetrics : ∀ metric ∈ set.metrics, metric.Plain) :
    ∃ st', set.lines.foldlM step st = .ok st' ∧ st'.sec = .data ∧ set.Stored (Value.read F) st'.ret ∧
      ∀ k, set.name.1 ≠ k → Dict.get? st'.ret k = Dict.get? st.ret k := by
  obtain ⟨ts, hstep⟩ := step_header hsec hheader
  have hget : Dict.get? (st.openSet set.name.1 ts).ret set.name.1 =
      some { (Dict.get? st.ret set.name.1).getD {} with
        name := some set.name.1, ts := some ts, data := some [], dataType := some [] } := by
    rw [State.openSet, State.get?_assign, if_pos rfl]
  refine ⟨(st.openSet set.name.1 ts).storeAll set.name.1 set.metrics, ?_, ?_, ?_, ?_⟩
  · rw [LsSet.lines, List.foldlM_cons, hstep, ok_bind]
    exact foldlM_step_metrics rfl rfl hmetrics
  · rw [State.sec_storeAll]
    rfl
  · refine ⟨_, State.get?_storeAll hget rfl rfl rfl ?_, rfl, rfl, rfl⟩
    simpa using set.nodup
  · intro k hk
    rw [State.get?_storeAll_of_ne _ hk, State.openSet, State.get?_assign, if_neg hk]

/-- The lines store the sets, and leave the others as they are. -/
def State.Stores (st : State F) (ls : List (List Char)) (sets : List (LsSet F)) : Prop :=
  ∃ st', ls.foldlM step st = .ok st' ∧ (∀ set ∈ sets, set.Stored (Value.read F) st'.ret) ∧
    ∀ k, k ∉ sets.map (fun set => set.name.1) → Dict.get? st'.ret k = Dict.get? st.ret k

theorem State.stores_nil (st : State F) : st.Stores [] [] :=
  ⟨st, rfl, by simp, by simp⟩

theorem State.Stores.cons {st : State F} (hsec : st.sec ≠ .metaData) {set : LsSet F}
    (hheader : set.PlainHeader) (hmetrics : ∀ metric ∈ set.metrics, metric.Plain)
    {sets : List (LsSet F)} (hnot : set.name.1 ∉ sets.map fun set => set.name.1)
    {ls : List (List Char)} (h : ∀ st : State F, st.sec = .data → st.Stores ls sets) :
    st.Stores (set.lines ++ ls) (set :: sets) := by
  obtain ⟨st₁, hrun₁, hsec₁, hstored, hframe₁⟩ := foldlM_step_set hsec hheader hmetrics
  obtain ⟨st₂, hrun₂, hstored₂, hframe₂⟩ := h st₁ hsec₁
  refine ⟨st₂, ?_, List.forall_mem_cons.mpr ⟨?_, hstored₂⟩, ?_⟩
  · rw [List.foldlM_append, hrun₁, ok_bind, hrun₂]
  · rwa [LsSet.Stored, hframe₂ _ hnot]
  · intro k hk
    rw [List.map_cons, List.mem_cons, not_or] at hk
    rw [hframe₂ k hk.2, hframe₁ k (Ne.symm hk.1)]

section Sets

variable {sets : List (LsSet F)} (hnodup : (sets.map fun set => set.name.1).Nodup)
  (hheaders : ∀ set ∈ sets, set.PlainHeader)
  (hmetrics : ∀ set ∈ sets, ∀ metric ∈ set.metrics, metric.Plain)

include hnodup hheaders hmetrics

theorem State.stores_flatMap {st : State F} (hsec : st.sec = .data) :
    st.Stores (sets.flatMap fun set => [] :: set.lines) sets := by
  induction sets generalizing st with
  | nil => exact st.stores_nil
  | cons set sets ih =>
    obtain ⟨hheader, hheaders⟩ := List.forall_mem_cons.mp hheaders
    obtain ⟨hmetric, hmetrics⟩ := List.forall_mem_cons.mp hmetrics
    rw [List.map_cons, List.nodup_cons] at hnodup
    have hblank : ({ st with data := .none } : State F).sec ≠ .metaData := by simp [hsec]
    have hcons := State.Stores.cons hblank hheader hmetric hnodup.1 fun st hst =>
      ih hnodup.2 hheaders hmetrics hst
    rwa [Stores, List.flatMap_cons, List.cons_append, List.foldlM_cons, step_nil, ok_bind]

/-- **Sets** are stored one by one. -/
theorem State.stores_sets {st : State F} (hsec : st.sec ≠ .metaData) :
    st.Stores ([[]].intercalate (sets.map LsSet.lines)) sets := by
  rcases sets with _ | ⟨set, sets⟩
  · exact st.stores_nil
  · obtain ⟨hheader, hheaders⟩ := List.forall_mem_cons.mp hheaders
    obtain ⟨hmetric, hmetrics⟩ := List.forall_mem_cons.mp hmetrics
    rw [List.map_cons, List.nodup_cons] at hnodup
    rw [intercalate_lines]
    exact State.Stores.cons hsec hheader hmetric hnodup.1 fun st hst =>
      State.stores_flatMap hnodup.2 hheaders hmetrics hst

end Sets

/-! ## What lines open -/

theorem LsSet.not_matches_metaBegin (set : LsSet F) : ¬ Matches (metaBegin F) set.header := by
  intro h
  obtain ⟨s, cs, hl, hs⟩ := exists_space_of_matches_metaBegin h
  have hcolon : space F ':' = false := (PyText.space_ascii ':' (by decide)).trans rfl
  -- where the first word ends: at the colon, or at the blank
  have hdrop {x y : List Char} {c : Char} (hx : ∀ c ∈ x, space F c = false ∧ c ≠ ':')
      (hc : space F c ∨ c = ':') :
      (x ++ c :: y).dropWhile (fun c => !space F c && c ≠ ':') = c :: y := by
    rw [List.dropWhile_append_of_pos fun c hc => by simp [hx c hc], List.dropWhile_cons_of_neg]
    rcases hc with hc | rfl <;> simp [*]
  have hschema : ∀ c ∈ "Schema".toList, space F c = false ∧ c ≠ ':' := by
    intro c hc
    have hascii : c.toNat < 128 ∧ isAsciiSpace c = false ∧ c ≠ ':' := by
      revert c
      simp [isAsciiSpace]
    exact ⟨(PyText.space_ascii c hascii.1).trans hascii.2.1, hascii.2.2⟩
  have hheader : set.header.dropWhile (fun c => !space F c && c ≠ ':') = ':' :: _ :=
    hdrop set.name.2.2 (.inr rfl)
  rw [hl, hdrop hschema (.inl hs)] at hheader
  obtain ⟨rfl, -⟩ := List.cons.inj hheader
  rw [hcolon] at hs
  cases hs

theorem Metric.not_matches_metaBegin (metric : Metric F) :
    ¬ Matches (metaBegin F) metric.line := by
  intro h
  obtain ⟨s, cs, hl, -⟩ := exists_space_of_matches_metaBegin h
  rw [metric.line_eq, columns] at hl
  simp at hl

theorem not_matches_metaBegin_nil : ¬ Matches (metaBegin F) [] := by
  intro h
  obtain ⟨s, cs, hl, -⟩ := exists_space_of_matches_metaBegin h
  simp at hl

/-- The state is not in the meta section, and the set that is open is there. -/
structure InData (st : State F) : Prop where
  sec : st.sec ≠ .metaData
  mem : ∀ n, st.data = .of n → n ∈ Dict.keys st.ret

omit [PyText F] in
theorem State.mem_keys_assign {st : State F} {n k : List Char} {f : SetDict F → SetDict F} :
    k ∈ Dict.keys (st.assign n f).ret ↔ k = n ∨ k ∈ Dict.keys st.ret := by
  rw [assign, Dict.mem_keys_set]

theorem opens_iff_of_classify {l : List Char} (hne : Val.strip F l ≠ []) {kind : Kind} {m : Caps}
    (h : classify F (Val.strip F l) = some (kind, m)) (k : List Char) :
    Opens F l k ↔ kind = .header ∧ captured m .setName = k := by
  constructor
  · rintro ⟨-, m', hclassify, hk⟩
    obtain ⟨rfl, rfl⟩ := Prod.mk.inj (Option.some_inj.mp (h.symm.trans hclassify))
    exact ⟨rfl, hk⟩
  · rintro ⟨rfl, hk⟩
    exact ⟨hne, m, h, hk⟩

/-- **What a line adds** is what it opens. -/
theorem InData.of_step {st st' : State F} (hst : InData st) {l : List Char}
    (hbegin : ¬ Matches (metaBegin F) (Val.strip F l)) (h : step st l = .ok st') :
    InData st' ∧ ∀ k, k ∈ Dict.keys st'.ret ↔ k ∈ Dict.keys st.ret ∨ Opens F l k := by
  rw [step_eq] at h
  split at h
  · next hnil =>
    cases h
    exact ⟨⟨hst.sec, fun n hn => by cases hn⟩, fun k => (or_iff_left fun ho => ho.1 hnil).symm⟩
  · next hne =>
    split at h
    · cases h
    · next kind m hclassify =>
      have hopens := opens_iff_of_classify hne hclassify
      have hkeep (hkind : kind ≠ .header) (k : List Char) : ¬ Opens F l k := fun ho =>
        hkind ((hopens k).mp ho).1
      have hsame (hkind : kind ≠ .header) (k : List Char) :
          k ∈ Dict.keys st.ret ↔ k ∈ Dict.keys st.ret ∨ Opens F l k :=
        (or_iff_left (hkeep hkind k)).symm
      cases kind with
      | preMeta =>
        rw [actKind] at h
        split at h
        · cases h
        · cases h
          exact ⟨hst, hsame (by decide)⟩
      | metaBegin =>
        have hmatch : Matches (metaBegin F) (Val.strip F l) :=
          Option.isSome_iff_exists.mpr ⟨m, matchCaps_of_classify hclassify⟩
        exact absurd hmatch hbegin
      | dashes | metaData | summary | metaEnd =>
        rw [actKind, if_pos hst.sec] at h
        cases h
      | header =>
        rw [actKind, if_neg hst.sec] at h
        cases h
        refine ⟨⟨by simp [State.assign], fun n hn => ?_⟩, fun k => ?_⟩
        · obtain rfl : captured m .setName = n := DataVar.of.inj hn
          exact State.mem_keys_assign.mpr (.inl rfl)
        · rw [hopens, State.mem_keys_assign, or_comm, eq_comm (a := k)]
          exact or_congr_right (and_iff_right rfl).symm
      | data =>
        rw [actKind] at h
        split at h
        · cases h
        · obtain ⟨n, fn, val, hdata, -, -, rfl⟩ := exists_of_assignValue h
          have hmem (k : List Char) :
              k ∈ Dict.keys (st.store n (captured m .metricName) (captured m .type) val).ret ↔
                k ∈ Dict.keys st.ret := by
            rw [State.store, State.mem_keys_assign, or_iff_right_iff_imp]
            rintro rfl
            exact hst.mem _ hdata
          exact ⟨⟨hst.sec, fun n' hn' => (hmem n').mpr (hst.mem n' hn')⟩, fun k =>
            (hmem k).trans (hsame (by decide) k)⟩

/-- **What lines add** is what they open. -/
theorem InData.mem_keys_of_run {st st' : State F} (hst : InData st) {ls : List (List Char)}
    (hbegin : ∀ l ∈ ls, ¬ Matches (metaBegin F) (Val.strip F l))
    (h : ls.foldlM step st = .ok st') (k : List Char) :
    k ∈ Dict.keys st'.ret ↔ k ∈ Dict.keys st.ret ∨ ∃ l ∈ ls, Opens F l k := by
  induction ls generalizing st with
  | nil =>
    cases h
    simp
  | cons l ls ih =>
    obtain ⟨hl, hls⟩ := List.forall_mem_cons.mp hbegin
    rw [List.foldlM_cons] at h
    obtain ⟨st₁, hstep, h⟩ := exists_of_bind_ok h
    obtain ⟨hst₁, hkeys₁⟩ := hst.of_step hl hstep
    rw [ih hst₁ hls h, hkeys₁, List.exists_mem_cons_iff, or_assoc]

/-- A line of a run among the data is a step among the data. -/
theorem exists_step_of_mem {st st' : State F} (hsec : st.sec = .data) {ls : List (List Char)}
    (h : ls.foldlM step st = .ok st') {l : List Char} (hl : l ∈ ls) :
    ∃ s s' : State F, s.sec = .data ∧ step s l = .ok s' := by
  induction ls generalizing st with
  | nil => exact absurd hl List.not_mem_nil
  | cons l' ls ih =>
    rw [List.foldlM_cons] at h
    obtain ⟨st₁, hstep, h⟩ := exists_of_bind_ok h
    rcases List.mem_cons.mp hl with rfl | hl
    · exact ⟨st, st₁, hsec, hstep⟩
    · exact ih (of_step_data hsec hstep).1 h hl

/-! ## What is left of the meta data -/

omit [PyText F] in
theorem State.metaDict_assign (st : State F) (n k : List Char) {f : SetDict F → SetDict F}
    (hf : ∀ lset, (f lset).metaDict = lset.metaDict) :
    (Dict.get? (st.assign n f).ret k).bind SetDict.metaDict =
      (Dict.get? st.ret k).bind SetDict.metaDict := by
  rw [get?_assign]
  split
  · next hk =>
    rw [Option.bind_some, hf, hk]
    cases Dict.get? st.ret k <;> rfl
  · rfl

/-- Among the data, a line leaves the meta data as they are. -/
theorem State.metaDict_of_step {st st' : State F} (hsec : st.sec = .data) {l : List Char}
    (h : step st l = .ok st') (k : List Char) :
    (Dict.get? st'.ret k).bind SetDict.metaDict = (Dict.get? st.ret k).bind SetDict.metaDict := by
  rw [step_eq] at h
  split at h
  · cases h
    rfl
  · split at h
    · cases h
    · next kind m hclassify =>
      cases kind with
      | preMeta | metaBegin | dashes | metaData | summary | metaEnd =>
        rw [actKind, if_pos (by simp [hsec])] at h
        cases h
      | header =>
        rw [actKind, if_neg (by simp [hsec])] at h
        cases h
        exact metaDict_assign _ _ k fun _ => rfl
      | data =>
        rw [actKind, if_neg (by simp [hsec])] at h
        obtain ⟨n, fn, val, -, -, -, rfl⟩ := exists_of_assignValue h
        exact metaDict_assign _ _ k fun _ => rfl

theorem State.metaDict_of_run {st st' : State F} (hsec : st.sec = .data) {ls : List (List Char)}
    (h : ls.foldlM step st = .ok st') (k : List Char) :
    (Dict.get? st'.ret k).bind SetDict.metaDict = (Dict.get? st.ret k).bind SetDict.metaDict := by
  induction ls generalizing st with
  | nil =>
    cases h
    rfl
  | cons l ls ih =>
    rw [List.foldlM_cons] at h
    obtain ⟨st₁, hstep, h⟩ := exists_of_bind_ok h
    exact (ih (of_step_data hsec hstep).1 h).trans (State.metaDict_of_step hsec hstep k)

/-! ## The lines of a listing -/

theorem mem_intercalate_lines {sets : List (LsSet F)} {l : List Char}
    (h : l ∈ [[]].intercalate (sets.map LsSet.lines)) :
    l = [] ∨ ∃ set ∈ sets, l = set.header ∨ ∃ metric ∈ set.metrics, l = metric.text := by
  have hlines (set : LsSet F) (hl : l ∈ set.lines) :
      l = set.header ∨ ∃ metric ∈ set.metrics, l = metric.text := by
    rcases List.mem_cons.mp hl with rfl | hl
    · exact .inl rfl
    · obtain ⟨metric, hmetric, rfl⟩ := List.mem_map.mp hl
      exact .inr ⟨metric, hmetric, rfl⟩
  rcases sets with _ | ⟨set, sets⟩
  · simp at h
  · rw [intercalate_lines, List.mem_append, List.mem_flatMap] at h
    rcases h with hl | ⟨set', hset', hl⟩
    · exact .inr ⟨set, List.mem_cons_self, hlines set hl⟩
    · rcases List.mem_cons.mp hl with rfl | hl
      · exact .inl rfl
      · exact .inr ⟨set', List.mem_cons_of_mem _ hset', hlines set' hl⟩

theorem lines_subset {sets : List (LsSet F)} {set : LsSet F} (hset : set ∈ sets) :
    set.lines ⊆ [[]].intercalate (sets.map LsSet.lines) := by
  intro l hl
  rcases sets with _ | ⟨set', sets⟩
  · exact absurd hset List.not_mem_nil
  · rw [intercalate_lines, List.mem_append, List.mem_flatMap]
    rcases List.mem_cons.mp hset with rfl | hset
    · exact .inl hl
    · exact .inr ⟨set, hset, List.mem_cons_of_mem _ hl⟩

theorem not_matches_metaBegin_of_mem {sets : List (LsSet F)} {l : List Char}
    (hl : l ∈ [[]].intercalate (sets.map LsSet.lines)) :
    ¬ Matches (metaBegin F) (Val.strip F l) := by
  rcases mem_intercalate_lines hl with rfl | ⟨set, -, rfl | ⟨metric, -, rfl⟩⟩
  · exact not_matches_metaBegin_nil
  · rw [set.strip_header]
    exact set.not_matches_metaBegin
  · exact metric.not_matches_metaBegin

/-- Behind a header, the metrics are read among the data. -/
theorem exists_step_of_mem_metrics {st st' : State F} (hsec : st.sec ≠ .metaData)
    {sets : List (LsSet F)} (hheaders : ∀ set ∈ sets, set.PlainHeader)
    (h : ([[]].intercalate (sets.map LsSet.lines)).foldlM step st = .ok st') {set : LsSet F}
    (hset : set ∈ sets) {metric : Metric F} (hmetric : metric ∈ set.metrics) :
    ∃ s s' : State F, s.sec = .data ∧ step s metric.text = .ok s' := by
  rcases sets with _ | ⟨set₀, sets⟩
  · exact absurd hset List.not_mem_nil
  · obtain ⟨ts, hstep⟩ := step_header hsec (hheaders set₀ List.mem_cons_self)
    have hmem : metric.text ∈ set.metrics.map Metric.text := List.mem_map_of_mem hmetric
    rw [intercalate_lines, LsSet.lines, List.cons_append, List.foldlM_cons, hstep, ok_bind] at h
    refine exists_step_of_mem (by rfl) h ?_
    rw [List.mem_append, List.mem_flatMap]
    rcases List.mem_cons.mp hset with rfl | hset
    · exact .inl hmem
    · exact .inr ⟨set, hset, List.mem_cons_of_mem _ (List.mem_cons_of_mem _ hmem)⟩

/-! ## Values have one line -/

/-- The strings that are stored have one line. -/
def State.OneLines (st : State F) : Prop :=
  ∀ k lset data, Dict.get? st.ret k = some lset → lset.data = some data →
    ∀ mname cs, Dict.get? data mname = some (.str cs) → OneLine cs

theorem oneLine_of_part {cs ds : List Char} (h : cs <:+: ds) (hds : OneLine ds) : OneLine cs :=
  fun c hc => hds c (h.subset hc)

theorem oneLine_of_typeFn {mtype x cs : List Char} {fn : List Char → Except PyError (TypedVal F)}
    (hfn : (mtype, fn) ∈ typeFn F) (hx : OneLine x) (h : fn x = .ok (.str cs)) : OneLine cs := by
  have hunquote (q : Char) (hq : unquoteFn (F := F) q x = .ok (.str cs)) : OneLine cs := by
    obtain rfl : stripChar q x = cs := by simpa [unquoteFn, pure, Except.pure] using hq
    have hpart : stripChar q x <:+: x := stripChar_infix q x
    exact oneLine_of_part hpart hx
  have hmap {α : Type} {f : α → TypedVal F} {r : Except PyError α} (hf : ∀ a, f a ≠ .str cs)
      (hr : f <$> r = .ok (.str cs)) : OneLine cs := by
    rcases r with e | a
    · cases hr
    · exact absurd (Except.ok.inj hr) (hf a)
  have hint : intFn (F := F) x = .ok (.str cs) → OneLine cs := hmap (by simp)
  have hints : intsFn (F := F) x = .ok (.str cs) → OneLine cs := hmap (by simp)
  have hfloat : (TypedVal.float <$> floatFn (F := F) x) = .ok (.str cs) → OneLine cs :=
    hmap (by simp)
  have hfloats : floatsFn (F := F) x = .ok (.str cs) → OneLine cs := hmap (by simp)
  simp only [typeFn, List.mem_cons, Prod.mk.injEq, List.not_mem_nil, or_false] at hfn
  rcases hfn with ⟨-, rfl⟩ | ⟨-, rfl⟩ | ⟨-, rfl⟩ | ⟨-, rfl⟩ | ⟨-, rfl⟩ | ⟨-, rfl⟩ | ⟨-, rfl⟩ |
    ⟨-, rfl⟩ | ⟨-, rfl⟩ | ⟨-, rfl⟩ | ⟨-, rfl⟩ | ⟨-, rfl⟩ | ⟨-, rfl⟩ | ⟨-, rfl⟩ | ⟨-, rfl⟩ |
    ⟨-, rfl⟩ | ⟨-, rfl⟩ | ⟨-, rfl⟩ | ⟨-, rfl⟩ | ⟨-, rfl⟩ | ⟨-, rfl⟩ | ⟨-, rfl⟩
  · exact hunquote '\'' h
  · exact hunquote '"' h
  all_goals first | exact hint h | exact hfloat h | exact hints h | exact hfloats h

omit [PyText F] in
theorem State.OneLines.assign {st : State F} (hst : st.OneLines) (name : List Char)
    {f : SetDict F → SetDict F}
    (hf : ∀ lset data, (f lset).data = some data → ∀ mname cs,
      Dict.get? data mname = some (.str cs) → OneLine cs ∨
        ∃ data₀, lset.data = some data₀ ∧ Dict.get? data₀ mname = some (.str cs)) :
    (st.assign name f).OneLines := by
  intro k lset data hget hdata mname cs hcs
  rw [State.get?_assign] at hget
  split at hget
  · obtain rfl := Option.some_inj.mp hget
    rcases hf _ _ hdata mname cs hcs with hline | ⟨data₀, hdata₀, hcs₀⟩
    · exact hline
    · rcases hname : Dict.get? st.ret name with _ | lset₀
      · rw [hname] at hdata₀
        cases hdata₀
      · rw [hname] at hdata₀
        exact hst name lset₀ data₀ hname hdata₀ mname cs hcs₀
  · exact hst k lset data hget hdata mname cs hcs

/-- **What is stored of a line** has one line. -/
theorem State.OneLines.of_step {st st' : State F} (hst : st.OneLines) {l : List Char}
    (hl : OneLine l) (h : step st l = .ok st') : st'.OneLines := by
  rw [step_eq] at h
  split at h
  · cases h
    exact hst
  · split at h
    · cases h
    · next kind m hclassify =>
      have hm := matchCaps_of_classify hclassify
      cases kind with
      | preMeta | metaBegin | dashes | summary | metaEnd =>
        rw [actKind] at h
        split at h
        · cases h
        · cases h
          exact hst
      | metaData =>
        rw [actKind] at h
        split at h
        · cases h
        · cases h
          exact hst.assign _ fun lset data hdata mname cs hcs => .inr ⟨data, hdata, hcs⟩
      | header =>
        rw [actKind] at h
        split at h
        · cases h
        · cases h
          have hopened : State.OneLines
              { st with sec := .data, data := .of (captured m .setName) } := hst
          refine hopened.assign _ ?_
          intro lset data hdata mname cs hcs
          obtain rfl := Option.some_inj.mp hdata
          cases hcs
      | data =>
        rw [actKind] at h
        split at h
        · cases h
        · obtain ⟨n, fn, val, -, hfn, hval, rfl⟩ := exists_of_assignValue h
          have hvalue : OneLine (captured m .metricValue) :=
            oneLine_of_part ((infix_captured hm _).trans (infix_strip l)) hl
          refine hst.assign n fun lset data hdata mname cs hcs => ?_
          obtain ⟨data₀, hdata₀, rfl⟩ := Option.map_eq_some_iff.mp hdata
          rw [Dict.get?_set] at hcs
          split at hcs
          · obtain rfl := Option.some_inj.mp hcs
            refine .inl (oneLine_of_typeFn hfn ?_ hval)
            split
            · exact hvalue
            · exact oneLine_of_part (List.takeWhile_prefix _).isInfix hvalue
          · exact .inr ⟨data₀, hdata₀, hcs⟩

theorem State.OneLines.of_run {st st' : State F} (hst : st.OneLines) {ls : List (List Char)}
    (hls : ∀ l ∈ ls, OneLine l) (h : ls.foldlM step st = .ok st') : st'.OneLines := by
  induction ls generalizing st with
  | nil =>
    cases h
    exact hst
  | cons l ls ih =>
    obtain ⟨hl, hls⟩ := List.forall_mem_cons.mp hls
    rw [List.foldlM_cons] at h
    obtain ⟨st₁, hstep, h⟩ := exists_of_bind_ok h
    exact ih (hst.of_step hl hstep) hls h

/-- **A string that is read** has one line. -/
theorem oneLine_of_parseLdmsLs {txt : List Char} {ret : Dict (List Char) (SetDict F)}
    (h : parseLdmsLs txt = .ok ret) {k : List Char} {lset : SetDict F}
    {data : Dict (List Char) (TypedVal F)} (hget : Dict.get? ret k = some lset)
    (hdata : lset.data = some data) {mname cs : List Char}
    (hcs : Dict.get? data mname = some (.str cs)) : OneLine cs := by
  obtain ⟨st, hrun, hret⟩ := exists_of_bind_ok h
  obtain rfl := Except.ok.inj hret
  have hinit : (State.init F).OneLines := fun k lset data hk => by cases hk
  exact hinit.of_run (fun l => oneLine_of_mem_splitlines) hrun k lset data hget hdata mname cs hcs

theorem Value.oneLine_text {v : Value} (h : ∀ cs, v.typed F = .str cs → OneLine cs) :
    OneLine v.text := by
  rcases v with c | cs | ⟨type, n⟩ | ⟨type, ns⟩
  · exact .cons rfl (oneLine_append.mpr ⟨h [c] rfl, oneLine_of_printable rfl⟩)
  · exact .cons rfl (oneLine_append.mpr ⟨h cs rfl, oneLine_of_printable rfl⟩)
  · exact oneLine_of_not_space F fun _ => space_of_mem_decimal
  · exact oneLine_of_not_space F fun _ => space_of_mem_ints

/-! ## The state in front of the sets -/

theorem State.mem_keys_enterRows {st : State F} {rows : List (Row F)} {k : List Char} :
    k ∈ Dict.keys (st.enterRows rows).ret ↔
      k ∈ Dict.keys st.ret ∨ ∃ row ∈ rows, captured row.read .metaInst = k := by
  induction rows generalizing st with
  | nil => simp
  | cons row rows ih =>
    rw [enterRows_cons, ih, enter, mem_keys_assign, List.exists_mem_cons_iff, eq_comm, ← or_assoc,
      or_comm (a := _ = k)]

namespace Listing

variable (listing : Listing F)

/-- The rows of the meta section. -/
def metaRows : List (Row F) :=
  listing.sect.elim [] MetaSection.rows

/-- The reader behind the meta section. -/
def start : State F :=
  listing.sect.elim (State.init F) fun sect =>
    ⟨.data, ((MetaSection.start F).enterRows sect.rows).ret, .none⟩

theorem foldlM_start (h : ∀ row ∈ listing.metaRows, row.Plain) :
    (listing.sect.elim [] MetaSection.lines).foldlM step (State.init F) = .ok listing.start := by
  rw [start]
  rcases hsect : listing.sect with _ | sect
  · rfl
  · rw [metaRows, hsect] at h
    exact sect.foldlM_lines h

theorem plain_of_foldlM {st : State F}
    (h : (listing.sect.elim [] MetaSection.lines).foldlM step (State.init F) = .ok st) :
    ∀ row ∈ listing.metaRows, row.Plain := by
  rw [metaRows]
  rcases hsect : listing.sect with _ | sect
  · simp
  · rw [hsect] at h
    by_contra hrows
    obtain ⟨e, he⟩ := sect.foldlM_lines_error hrows
    cases he.symm.trans h

theorem inData_start : InData listing.start := by
  rw [start]
  rcases listing.sect with _ | sect
  · exact ⟨by simp [State.init], fun n hn => by cases hn⟩
  · exact ⟨by simp, fun n hn => by cases hn⟩

theorem mem_keys_start {k : List Char} : k ∈ Dict.keys listing.start.ret ↔
    ∃ row ∈ listing.metaRows, captured row.read .metaInst = k := by
  rw [start, metaRows]
  rcases listing.sect with _ | sect
  · simp [State.init]
  · refine State.mem_keys_enterRows.trans ?_
    simp

variable {listing}

/-- What the rows are found under are sets. -/
theorem mem_names_of_start
    (h : ∀ row ∈ listing.metaRows, row.Shifts → row.flags.1 ∈ listing.names) {k : List Char}
    (hk : k ∈ Dict.keys listing.start.ret) : k ∈ listing.names := by
  obtain ⟨row, hrow, rfl⟩ := listing.mem_keys_start.mp hk
  by_cases hshifts : row.Shifts
  · rw [(Row.captured_read_of_shifts hshifts).1]
    exact h row hrow hshifts
  · rw [Row.captured_read hshifts (by simp) (by simp)]
    exact listing.rows row hrow

theorem not_blank_mem {k : List Char} (hk : k ∈ listing.names) : ' ' ∉ k := by
  intro hblank
  obtain ⟨set, -, rfl⟩ := List.mem_map.mp hk
  have hspace := (set.name.2.2 ' ' hblank).1
  rw [space_blank] at hspace
  cases hspace

/-! ## Listings that are read -/

theorem oneLine_lines
    (h : ∀ set ∈ listing.sets, ∀ metric ∈ set.metrics, OneLine metric.value.text) :
    ∀ l ∈ listing.lines, OneLine l := by
  intro l hl
  rcases List.mem_append.mp hl with hl | hl
  · rcases hsect : listing.sect with _ | sect
    · rw [hsect] at hl
      exact absurd hl List.not_mem_nil
    · rw [hsect] at hl
      exact sect.oneLine_lines l hl
  · rcases mem_intercalate_lines hl with rfl | ⟨set, hset, rfl | ⟨metric, hmetric, rfl⟩⟩
    · exact oneLine_nil
    · exact set.oneLine_header
    · exact metric.oneLine_text (h set hset metric hmetric)

theorem parseLdmsLs_eq
    (h : ∀ set ∈ listing.sets, ∀ metric ∈ set.metrics, OneLine metric.value.text) :
    parseLdmsLs (unlines listing.lines) =
      (listing.lines.foldlM step (State.init F)).map State.ret := by
  rw [parseLdmsLs, splitlines_unlines (oneLine_lines h)]
  rfl

/-- **What is printed plainly is read.** -/
theorem Plain.exists_read (h : listing.Plain) :
    ∃ ret, parseLdmsLs (unlines listing.lines) = .ok ret ∧ listing.Read ret := by
  obtain ⟨st, hrun, hstored, hframe⟩ := State.stores_sets listing.nodup h.headers
    (fun set hset metric hmetric => (h.metrics set hset metric hmetric).1)
    listing.inData_start.sec
  refine ⟨st.ret, ?_, ?_, ?_⟩
  · rw [parseLdmsLs_eq fun set hset metric hmetric => (h.metrics set hset metric hmetric).1.2.1,
      lines, List.foldlM_append, listing.foldlM_start fun row hrow => (h.rows row hrow).1, ok_bind,
      setLines, hrun]
    rfl
  · intro k
    by_cases hk : k ∈ listing.names
    · obtain ⟨set, hset, rfl⟩ := List.mem_map.mp hk
      obtain ⟨lset, hget, -⟩ := hstored set hset
      exact iff_of_true (Dict.mem_keys_of_get? hget) hk
    · rw [← Dict.isSome_get?_iff, hframe k hk, Dict.isSome_get?_iff]
      exact iff_of_false (fun hstart => hk (mem_names_of_start (fun row hrow => (h.rows row hrow).2)
        hstart)) hk
  · intro set hset
    obtain ⟨lset, hget, hname, hdata, htypes⟩ := hstored set hset
    refine ⟨lset, hget, hname, ?_, htypes⟩
    rw [hdata, LsSet.values, LsSet.values]
    congr 1
    refine List.map_congr_left fun metric hmetric => ?_
    rw [metric.value.read_eq_typed_iff.mpr (h.metrics set hset metric hmetric).2]

/-- The strings of a listing that is read have one line. -/
theorem oneLine_of_read {ret : Dict (List Char) (SetDict F)}
    (hret : parseLdmsLs (unlines listing.lines) = .ok ret) (hread : listing.Read ret) :
    ∀ set ∈ listing.sets, ∀ metric ∈ set.metrics, OneLine metric.value.text := by
  intro set hset metric hmetric
  obtain ⟨lset, hget, -, hdata, -⟩ := hread.2 set hset
  refine Value.oneLine_text (F := F) fun cs hcs => ?_
  have hkeys : (Dict.keys (set.values (Value.typed F))).Nodup := by
    have hkeys : Dict.keys (set.values (Value.typed F)) =
        set.metrics.map fun metric => metric.name.1 := by
      simp [Dict.keys, LsSet.values]
    exact hkeys ▸ set.nodup
  have hmem : (metric.name.1, .str cs) ∈ set.values (Value.typed F) :=
    List.mem_map.mpr ⟨metric, hmetric, by rw [hcs]⟩
  exact oneLine_of_parseLdmsLs hret hget hdata (Dict.get?_of_mem hkeys hmem)

section Run

variable {st : State F} (hrun : listing.setLines.foldlM step listing.start = .ok st)
  (hnames : ∀ k, k ∈ Dict.keys st.ret ↔ k ∈ listing.names)

include hrun hnames

/-- A set that is found was opened, or has a row in the meta section. -/
theorem mem_names_iff_of_run (k : List Char) : k ∈ listing.names ↔
    k ∈ Dict.keys listing.start.ret ∨ ∃ l ∈ listing.setLines, Opens F l k := by
  rw [← hnames]
  exact listing.inData_start.mem_keys_of_run (fun _ => not_matches_metaBegin_of_mem) hrun k

theorem not_opens_of_run {set : LsSet F} (hset : set ∈ listing.sets) {metric : Metric F}
    (hmetric : metric ∈ set.metrics) (k : List Char) : ¬ Opens F metric.text k := by
  intro hopens
  have hmem : metric.text ∈ listing.setLines :=
    lines_subset hset (List.mem_cons_of_mem _ (List.mem_map_of_mem hmetric))
  have hk : k ∈ listing.names :=
    (mem_names_iff_of_run hrun hnames k).mpr (.inr ⟨_, hmem, hopens⟩)
  exact not_blank_mem hk (Metric.blank_mem_of_opens hopens)

theorem plainHeader_of_run : ∀ set ∈ listing.sets, set.PlainHeader := by
  intro set hset
  rcases hsect : listing.sect with _ | sect
  · -- the set is opened by a line, and no other line has its name
    have hkeys : set.name.1 ∉ Dict.keys listing.start.ret := by
      simp [mem_keys_start, metaRows, hsect]
    obtain ⟨l, hl, hopens⟩ := ((mem_names_iff_of_run hrun hnames set.name.1).mp
      (List.mem_map_of_mem hset)).resolve_left hkeys
    rcases mem_intercalate_lines hl with rfl | ⟨set', hset', rfl | ⟨metric, hmetric, rfl⟩⟩
    · exact absurd rfl hopens.1
    · obtain ⟨hplain, hname⟩ := LsSet.of_opens_header hopens
      obtain rfl : set = set' := List.inj_on_of_nodup_map listing.nodup hset hset' hname
      exact hplain
    · exact absurd hopens (not_opens_of_run hrun hnames hset' hmetric _)
  · have hsec : listing.start.sec = .data := by
      rw [start, hsect]
      rfl
    obtain ⟨s, s', hs, hstep⟩ := exists_step_of_mem hsec hrun
      (lines_subset hset List.mem_cons_self)
    exact LsSet.plainHeader_of_step hs hstep

end Run

/-- **A listing that is read** is printed plainly. -/
theorem plain_of_read {ret : Dict (List Char) (SetDict F)}
    (hret : parseLdmsLs (unlines listing.lines) = .ok ret) (hread : listing.Read ret) :
    listing.Plain := by
  have hline := oneLine_of_read hret hread
  obtain ⟨st, hrun, hst⟩ := exists_of_bind_ok hret
  obtain rfl : st.ret = ret := Except.ok.inj hst
  rw [splitlines_unlines (oneLine_lines hline), lines, List.foldlM_append] at hrun
  obtain ⟨st₀, hstart, hrun⟩ := exists_of_bind_ok hrun
  have hrows := listing.plain_of_foldlM hstart
  obtain rfl : listing.start = st₀ := Except.ok.inj ((listing.foldlM_start hrows).symm.trans hstart)
  have hheaders := plainHeader_of_run hrun hread.1
  have hmetrics : ∀ set ∈ listing.sets, ∀ metric ∈ set.metrics, metric.Plain := by
    intro set hset metric hmetric
    obtain ⟨s, s', hs, hstep⟩ :=
      exists_step_of_mem_metrics listing.inData_start.sec hheaders hrun hset hmetric
    exact Metric.plain_of_step hs (hline set hset metric hmetric)
      (not_opens_of_run hrun hread.1 hset hmetric) hstep
  refine ⟨fun row hrow => ⟨hrows row hrow, fun hshifts => ?_⟩, hheaders,
    fun set hset metric hmetric => ⟨hmetrics set hset metric hmetric, ?_⟩⟩
  · refine (mem_names_iff_of_run hrun hread.1 _).mpr (.inl (listing.mem_keys_start.mpr ⟨row, hrow, ?_⟩))
    exact (Row.captured_read_of_shifts hshifts).1
  · -- what is found of the set is what was read, and what was printed
    obtain ⟨st', hrun', hstored, -⟩ :=
      State.stores_sets listing.nodup hheaders hmetrics listing.inData_start.sec
    obtain rfl : st' = st := Except.ok.inj (hrun'.symm.trans hrun)
    obtain ⟨lset, hget, -, hdata, -⟩ := hstored set hset
    obtain ⟨lset', hget', -, hdata', -⟩ := hread.2 set hset
    obtain rfl : lset = lset' := Option.some_inj.mp (hget.symm.trans hget')
    have hvalues : set.values (Value.read F) = set.values (Value.typed F) :=
      Option.some_inj.mp (hdata.symm.trans hdata')
    have hvalue := List.map_inj_left.mp hvalues metric hmetric
    exact metric.value.read_eq_typed_iff.mp (Prod.mk.inj hvalue).2

/-- **The rows are recovered** of a listing that is read exactly if one blank stands behind the flags
of each. -/
theorem recovered_iff {ret : Dict (List Char) (SetDict F)} (h : listing.Plain)
    (hret : parseLdmsLs (unlines listing.lines) = .ok ret) :
    (∀ row ∈ listing.metaRows, row.Recovered ret) ↔ ∀ row ∈ listing.metaRows, row.pad 3 = 0 := by
  rcases hsect : listing.sect with _ | sect
  · simp [metaRows, hsect]
  have hrows : ∀ row ∈ sect.rows, row.Plain := fun row hrow =>
    (h.rows row (by rwa [hsect])).1
  have hsec : listing.start.sec = .data := by
    rw [start, hsect]
    rfl
  -- the sets leave what the section has entered
  have hline := oneLine_lines fun set hset metric hmetric =>
    (h.metrics set hset metric hmetric).1.2.1
  obtain ⟨st, hrun, hst⟩ := exists_of_bind_ok hret
  obtain rfl : st.ret = ret := Except.ok.inj hst
  rw [splitlines_unlines hline, lines, List.foldlM_append,
    listing.foldlM_start fun row hrow => (h.rows row hrow).1, ok_bind] at hrun
  have hmeta (row : Row F) : row.Recovered st.ret ↔ row.Recovered listing.start.ret := by
    rw [Row.Recovered, Row.Recovered, State.metaDict_of_run hsec hrun]
  have hsection : parseLdmsLs (unlines sect.lines) = .ok listing.start.ret := by
    rw [sect.parseLdmsLs_eq, sect.foldlM_lines hrows, start, hsect]
    rfl
  rw [metaRows, hsect]
  refine (forall₂_congr fun row _ => hmeta row).trans ⟨fun hall row hrow => ?_, fun hpad => ?_⟩
  · exact (MetaSection.of_recovered hsection hall row hrow).1
  · obtain ⟨ret, hret', hall⟩ :=
      MetaSection.exists_recovered fun row hrow => ⟨hpad row hrow, hrows row hrow⟩
    rwa [← Except.ok.inj (hsection.symm.trans hret')] at hall

end Listing

/-- **A listing is read as it was printed exactly if** no line of it is taken for one of another kind,
and every value stands as it is between its quotes. -/
theorem reads_iff (listing : Listing F) :
    (∃ ret, parseLdmsLs (unlines listing.lines) = .ok ret ∧ listing.Read ret) ↔ listing.Plain :=
  ⟨fun ⟨_, hret, hread⟩ => Listing.plain_of_read hret hread, Listing.Plain.exists_read⟩

/-- A set with a blank for a character. -/
def separatorSet : LsSet PEmpty where
  name := ⟨"compute-1/shell".toList, by simp,
    by simp [space, PyRuntime.space, isAsciiSpace, wideSpaces]⟩
  state := ⟨"consistent".toList, oneLine_of_printable rfl⟩
  ts := ⟨"Tue Aug 20 13:13:43 2019".toList, oneLine_of_printable rfl, '9', rfl, rfl⟩
  metrics := [{
    flag := ⟨'D', rfl⟩
    name := asciiWord PEmpty "separator".toList (by simp) (by simp [isAsciiSpace])
    value := .char ' '
    pad := fun _ => 0 }]
  nodup := List.nodup_singleton _

/-- The listing of the one set. -/
def separatorListing : Listing PEmpty where
  sect := none
  sets := [separatorSet]
  nodup := List.nodup_singleton _
  rows _ hrow := absurd hrow List.not_mem_nil

/-- The blank is not read. -/
theorem not_reads_separator :
    ¬ ∃ ret, parseLdmsLs (unlines separatorListing.lines) = .ok ret ∧ separatorListing.Read ret := by
  rintro ⟨ret, hret, hread⟩
  have hplain := Listing.plain_of_read hret hread
  exact (hplain.metrics _ List.mem_cons_self _ List.mem_cons_self).2.1 rfl

/-- **A listing is read with its meta data exactly if** it is read as it was printed, and one blank
stands behind the flags of each row. -/
theorem recalls_iff (listing : Listing F) :
    (∃ ret, parseLdmsLs (unlines listing.lines) = .ok ret ∧ listing.Read ret ∧
        ∀ row ∈ listing.metaRows, row.Recovered ret) ↔
      listing.Plain ∧ ∀ row ∈ listing.metaRows, row.pad 3 = 0 := by
  constructor
  · rintro ⟨ret, hret, hread, hrows⟩
    have hplain := Listing.plain_of_read hret hread
    exact ⟨hplain, (Listing.recovered_iff hplain hret).mp hrows⟩
  · rintro ⟨hplain, hpad⟩
    obtain ⟨ret, hret, hread⟩ := hplain.exists_read
    exact ⟨ret, hret, hread, (Listing.recovered_iff hplain hret).mpr hpad⟩

end Ls
end LdmsTest
