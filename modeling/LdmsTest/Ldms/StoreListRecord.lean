import LdmsTest.Python.Builtins
import LdmsTest.Python.Equality
import Mathlib.Data.List.SplitBy

/-!
# `verify_data` of `store_list_record_test`

A store writes a sample that has lists as several rows, of which each gives an index into every
list.  `verify_data` reads the stored rows one after another, and expects of each the indices that
follow those of the row before it.

* `verifyData`: the function, over rows that have a timestamp and a round.
* `Reads`: the rows that it accepts, with the indices of a row told by its number in its sample.
* `verifyData_eq_true_iff`: it accepts these rows and no others.
* `verifyData_sound_iff`: the samples are whole if they have as many rows as their longest list has
  entries, which `verify_data` does not ask when it comes to the next timestamp.
-/

namespace LdmsTest
namespace StoreListRecord

variable {F : Type}

/-- A stored row: the items of its dictionary, with its timestamp, up to `==`, and its round. -/
structure Row (F : Type) [PyRuntime F] where
  items : Val.Fields F
  timestamp : Key F
  round : Val F
  timestamp_eq : ((Dict.get? items "timestamp").map Val.keyOf) = some (.ok timestamp)
  round_eq : Dict.get? items "round" = some round

/-! ## `PRIMITIVE_V_TYPES` -/

section Checks

variable [FloatEq F]

/-- `len(v)` -/
def len : Val F → Except PyError ℕ
  | .str s => pure s.length
  | .list xs => pure xs.length
  | .tuple xs => pure xs.length
  | .dict d => pure d.length
  | v => throw ⟨.typeError, "object of type '" ++ v.typeName ++ "' has no len()"⟩

/-- `round & mask`, for a mask of so many bits -/
def bitAnd (bits : ℕ) : Val F → Except PyError ℤ
  | .int n => pure (n % 2 ^ bits)
  | .bool b => pure (b.toNat % 2 ^ bits)
  | v => throw ⟨.typeError, "unsupported operand type(s) for &: '" ++ v.typeName ++ "' and 'int'"⟩

/-- `__v8` -/
def v8 : Val F → Except PyError ℤ :=
  bitAnd 8

/-- `__v16` -/
def v16 : Val F → Except PyError ℤ :=
  bitAnd 16

/-- `__v32` -/
def v32 : Val F → Except PyError ℤ :=
  bitAnd 32

variable (strMod : String → Except PyError String)

/-- `__char`: the remainder of a number is a number, which no text can be put in front of.
`strMod` is `s % 26` for a text `s`. -/
def char : Val F → Except PyError String
  | .str s => do
    let t ← strMod s
    pure ("a" ++ t)
  | .int _ => throw ⟨.typeError, "can only concatenate str (not \"int\") to str"⟩
  | .bool _ => throw ⟨.typeError, "can only concatenate str (not \"int\") to str"⟩
  | .float _ => throw ⟨.typeError, "can only concatenate str (not \"float\") to str"⟩
  | v => throw ⟨.typeError, "unsupported operand type(s) for %: '" ++ v.typeName ++ "' and 'int'"⟩

/-- The `verify` of a `ValueType`: `round` and the value. -/
abbrev Verify (F : Type) :=
  Val F → Val F → Except PyError Bool

/-- `v == f(round)` -/
def isOf (f : Val F → Except PyError ℤ) : Verify F := fun round v => do
  let n ← f round
  pure (v.eq (.int n))

/-- `v == [f(round)] * len(v)` -/
def allOf (f : Val F → Except PyError ℤ) : Verify F := fun round v => do
  let n ← f round
  let k ← len v
  pure (v.eq (.list (List.replicate k (.int n))))

/-- `v == round` -/
def isRound : Verify F := fun round v =>
  pure (v.eq round)

/-- `v == [round] * len(v)` -/
def allRound : Verify F := fun round v => do
  let k ← len v
  pure (v.eq (.list (List.replicate k round)))

/-- `v == __char(round)` -/
def isChar : Verify F := fun round v => do
  let c ← char strMod round
  pure (v.eq (.str c))

/-- `v == __char(round)*len(v)` -/
def allChar : Verify F := fun round v => do
  let c ← char strMod round
  let k ← len v
  pure (v.eq (.str (String.join (List.replicate k c))))

/-- `v == ":".join(str(a) for a in [__v8(round)] * len(v))` -/
def joinedV8 : Verify F := fun round v => do
  let n ← v8 round
  let k ← len v
  pure (v.eq (.str (":".intercalate (List.replicate k (toString n)))))

/-- `PRIMITIVE_V_TYPES` -/
def primitiveVTypes : Dict String (Verify F) :=
  [("LDMS_V_CHAR", isChar strMod),
    ("LDMS_V_U8", isOf v8),
    ("LDMS_V_S8", isOf v8),
    ("LDMS_V_U16", isOf v16),
    ("LDMS_V_S16", isOf v16),
    ("LDMS_V_U32", isOf v32),
    ("LDMS_V_S32", isOf v32),
    ("LDMS_V_U64", isRound),
    ("LDMS_V_S64", isRound),
    ("LDMS_V_F32", isRound),
    ("LDMS_V_D64", isRound),
    ("LDMS_V_CHAR_ARRAY", allChar strMod),
    ("LDMS_V_U8_ARRAY", joinedV8),
    ("LDMS_V_S8_ARRAY", allOf v8),
    ("LDMS_V_U16_ARRAY", allOf v16),
    ("LDMS_V_S16_ARRAY", allOf v16),
    ("LDMS_V_U32_ARRAY", allOf v32),
    ("LDMS_V_S32_ARRAY", allOf v32),
    ("LDMS_V_U64_ARRAY", allRound),
    ("LDMS_V_S64_ARRAY", allRound),
    ("LDMS_V_F32_ARRAY", allRound),
    ("LDMS_V_D64_ARRAY", allRound)]

/-- The loop of `verify_row`: the first item whose value is not the one that its type has in this
round. -/
def verifyItems (round : Val F) : Val.Fields F → Except PyError (Option (String × Val F))
  | [] => pure none
  | (n, v) :: items =>
    match Dict.get? (primitiveVTypes strMod) n with
    | some verify => do
      let isSame ← verify round v
      if isSame then verifyItems round items else pure (some (n, v))
    | none => verifyItems round items

/-- `verify_row`: `none` for a good row. -/
def verifyRow (o : Row F) : Except PyError (Option (String × Val F)) :=
  verifyItems strMod o.round o.items

/-- **Every value passes its check.** -/
def Passes (o : Row F) : Prop :=
  ∀ n v (verify : Verify F), (n, v) ∈ o.items → Dict.get? (primitiveVTypes strMod) n = some verify →
    verify o.round v = .ok true

theorem verifyItems_eq_none_iff (round : Val F) (items : Val.Fields F) :
    verifyItems strMod round items = .ok none ↔
      ∀ n v (verify : Verify F), (n, v) ∈ items → Dict.get? (primitiveVTypes strMod) n = some verify →
        verify round v = .ok true := by
  induction items with
  | nil => exact ⟨fun _ _ _ _ h => absurd h List.not_mem_nil, fun _ => rfl⟩
  | cons item items ih =>
    obtain ⟨n, v⟩ := item
    rw [verifyItems]
    cases hn : Dict.get? (primitiveVTypes (F := F) strMod) n with
    | none =>
      rw [ih]
      refine ⟨fun h n' v' verify hmem hget => ?_, fun h n' v' verify hmem =>
        h n' v' verify (List.mem_cons_of_mem _ hmem)⟩
      rcases List.mem_cons.mp hmem with heq | hmem
      · obtain ⟨rfl, rfl⟩ := Prod.mk.inj heq
        rw [hn] at hget
        cases hget
      · exact h n' v' verify hmem hget
    | some verify =>
      refine ⟨fun h => ?_, fun h => ?_⟩
      · obtain ⟨good, hgood, h⟩ := exists_of_bind_ok h
        cases good with
        | false => cases h
        | true =>
          intro n' v' verify' hmem hget
          rcases List.mem_cons.mp hmem with heq | hmem
          · obtain ⟨rfl, rfl⟩ := Prod.mk.inj heq
            obtain rfl : verify = verify' := Option.some_inj.mp (hn.symm.trans hget)
            exact hgood
          · exact ih.mp h n' v' verify' hmem hget
      · change (verify round v >>= _) = _
        rw [h n v verify List.mem_cons_self hn, ok_bind, if_pos rfl]
        exact ih.mpr fun n' v' verify' hmem => h n' v' verify' (List.mem_cons_of_mem _ hmem)

theorem verifyRow_eq_none_iff (o : Row F) : verifyRow strMod o = .ok none ↔ Passes strMod o :=
  verifyItems_eq_none_iff strMod o.round o.items

end Checks

/-! ## `verify_data` -/

section Loop

variable [FloatEq F] [DecidableEq F] (strMod : String → Except PyError String) (numLists : ℕ)

/-- `is_same_sample`: the loop starts with 0 in place of a timestamp. -/
def isSameSample (prevTs ts : Key F) : Bool :=
  prevTs = .num 0 ∨ prevTs = ts

/-- `[int(d[k]) for k in ["list_{}_…".format(i) for i in range(1, num_lists+1)]]` -/
def listInts (suffix : String) (d : Row F) : Except PyError (List ℤ) :=
  (List.range' 1 numLists).mapM fun i => do
    let v ← Val.getItem d.items ("list_" ++ toString i ++ suffix)
    v.intOf

/-- The index expected after the index `i` into a list of this length. -/
def nextIdx (i len : ℤ) : ℤ :=
  if i + 1 = len then i else i + 1

/-- `prev_ts`, `list_len` and `exp_lent_idx` at a row, from `prev_ts`, and `list_len` and `lent_idx`
if they are bound. -/
def expect (prevTs : Key F) (lists : Option (List ℤ × List ℤ)) (d : Row F) :
    Except PyError (Key F × List ℤ × List ℤ) :=
  if ¬ isSameSample prevTs d.timestamp then do
    let listLen ← listInts numLists "_len" d
    pure (d.timestamp, listLen, List.replicate numLists 0)
  else
    match lists with
    | some (listLen, lentIdx) => pure (prevTs, listLen, List.zipWith nextIdx lentIdx listLen)
    | none =>
      let name := if numLists = 0 then "list_len" else "lent_idx"
      throw ⟨.nameError, "cannot access variable '" ++ name ++
        "' where it is not associated with a value"⟩

/-- A list of integers as `format` shows it. -/
def showInts (l : List ℤ) : String :=
  (Val.list (l.map .int) : Val F).repr

/-- The loop of `verify_data`. -/
def verifyRows (schema : String) (round0 : Val F) :
    Key F → Option (List ℤ × List ℤ) → List (Row F) → Except PyError (Bool × String)
  | _, _, [] => pure (true, "verify_data(db) for db in all_db")
  | prevTs, lists, d :: data =>
    -- A store may have written the first round in part.
    if d.round.eq round0 then verifyRows schema round0 d.timestamp lists data
    else do
      let (prevTs, listLen, expLentIdx) ← expect numLists prevTs lists d
      let lentIdx ← listInts numLists "_entry_idx" d
      if expLentIdx ≠ lentIdx then
        pure (false, schema ++ ": store_sos skiped or doubly stored some data point. list_len " ++
          showInts (F := F) listLen ++ " expected_ent_indices == ent_indices: " ++
          showInts (F := F) expLentIdx ++ " == " ++ showInts (F := F) lentIdx)
      else if 0 ∈ listLen then
        throw ⟨.exception,
          "store_sos stores a sample with an empty list. This is not supported by design."⟩
      else
        match ← verifyRow strMod d with
        | some (typ, _) =>
          pure (false, "round == d[" ++ typ ++ "]: " ++ (Val.dict d.items).repr)
        | none => verifyRows schema round0 prevTs (some (listLen, lentIdx)) data

/-- `verify_data(num_lists, schema, data)` -/
def verifyData (schema : String) : List (Row F) → Except PyError (Bool × String)
  | [] => throw ⟨.indexError, "list index out of range"⟩
  | d :: data => verifyRows strMod numLists schema d.round (.num 0) none (d :: data)

/-! ## The rows that are accepted -/

/-- **The index of row `k` of a sample** into a list of this length: it counts up from 0, and stays
at the last index of the list. -/
def entryIdx (k : ℕ) (len : ℤ) : ℤ :=
  if 0 < len then min k (len - 1) else k

omit [FloatEq F] [DecidableEq F] in
theorem nextIdx_entryIdx {k : ℕ} {len : ℤ} (_ : len ≠ 0) :
    nextIdx (entryIdx k len) len = entryIdx (k + 1) len := by
  unfold nextIdx entryIdx
  split_ifs <;> omega

omit [FloatEq F] [DecidableEq F] in
/-- What is expected of a row after row `k` is what row `k + 1` is to hold. -/
theorem zipWith_nextIdx {k : ℕ} {listLen : List ℤ} (h : 0 ∉ listLen) :
    List.zipWith nextIdx (listLen.map (entryIdx k)) listLen = listLen.map (entryIdx (k + 1)) := by
  induction listLen with
  | nil => rfl
  | cons len listLen ih =>
    obtain ⟨hlen, hlist⟩ := not_or.mp (mt List.mem_cons.mpr h)
    rw [List.map_cons, List.zipWith_cons_cons, nextIdx_entryIdx (Ne.symm hlen), ih hlist,
      List.map_cons]

omit [FloatEq F] [DecidableEq F] in
theorem map_entryIdx_zero (listLen : List ℤ) :
    listLen.map (entryIdx 0) = List.replicate listLen.length 0 := by
  rw [List.map_eq_replicate_iff]
  intro len _
  unfold entryIdx
  split_ifs <;> omega

theorem length_listInts {suffix : String} {d : Row F} {l : List ℤ}
    (h : listInts numLists suffix d = .ok l) : l.length = numLists := by
  rw [← (mapM_eq_ok_iff.mp h).length_eq, List.length_range']

/-- **Row `k` of a sample** whose lists have these lengths. -/
structure RowRight (listLen : List ℤ) (k : ℕ) (d : Row F) : Prop where
  idx : listInts numLists "_entry_idx" d = .ok (listLen.map (entryIdx k))
  nonempty : 0 ∉ listLen
  passes : Passes strMod d

/-- **The rows that are accepted** behind a row with the timestamp `prevTs`: each is of the first
round, or the first row of its sample, or the row that follows row `k` of a sample. -/
inductive Reads (round0 : Val F) : Key F → Option (List ℤ × ℕ) → List (Row F) → Prop where
  | nil {prevTs : Key F} {sample : Option (List ℤ × ℕ)} : Reads round0 prevTs sample []
  | skip {prevTs : Key F} {sample : Option (List ℤ × ℕ)} {d : Row F} {data : List (Row F)} :
    d.round.eq round0 = true → Reads round0 d.timestamp sample data →
    Reads round0 prevTs sample (d :: data)
  | start {prevTs : Key F} {sample : Option (List ℤ × ℕ)} {d : Row F} {data : List (Row F)}
    {listLen : List ℤ} : d.round.eq round0 = false → isSameSample prevTs d.timestamp = false →
    listInts numLists "_len" d = .ok listLen → RowRight strMod numLists listLen 0 d →
    Reads round0 d.timestamp (some (listLen, 0)) data → Reads round0 prevTs sample (d :: data)
  | next {prevTs : Key F} {d : Row F} {data : List (Row F)} {listLen : List ℤ} {k : ℕ} :
    d.round.eq round0 = false → isSameSample prevTs d.timestamp = true →
    RowRight strMod numLists listLen (k + 1) d →
    Reads round0 prevTs (some (listLen, k + 1)) data →
    Reads round0 prevTs (some (listLen, k)) (d :: data)

variable {strMod numLists} {schema : String} {round0 : Val F}

theorem expect_of_new {prevTs : Key F} {d : Row F} (h : isSameSample prevTs d.timestamp = false)
    (lists : Option (List ℤ × List ℤ)) :
    expect numLists prevTs lists d = (do
      let listLen ← listInts numLists "_len" d
      pure (d.timestamp, listLen, List.replicate numLists 0)) := by
  unfold expect
  rw [h, if_pos Bool.false_ne_true]

theorem expect_of_same {prevTs : Key F} {d : Row F} (h : isSameSample prevTs d.timestamp = true)
    (listLen lentIdx : List ℤ) :
    expect numLists prevTs (some (listLen, lentIdx)) d =
      .ok (prevTs, listLen, List.zipWith nextIdx lentIdx listLen) := by
  unfold expect
  rw [h, if_neg (not_not.mpr rfl)]
  rfl

theorem expect_of_unbound {prevTs : Key F} {d : Row F}
    (h : isSameSample prevTs d.timestamp = true) : ∃ e, expect numLists prevTs none d = .error e := by
  unfold expect
  rw [h, if_neg (not_not.mpr rfl)]
  exact ⟨_, rfl⟩

/-- **A row behind the first of its sample is accepted** if it is the row that follows. -/
theorem verifyRows_next {prevTs : Key F} {listLen : List ℤ} {k : ℕ} {d : Row F}
    {data : List (Row F)} (hround : d.round.eq round0 = false) {lists : Option (List ℤ × List ℤ)}
    {prevTs' : Key F}
    (hexpect : expect numLists prevTs lists d = .ok (prevTs', listLen, listLen.map (entryIdx k)))
    {msg : String} :
    verifyRows strMod numLists schema round0 prevTs lists (d :: data) = .ok (true, msg) ↔
      RowRight strMod numLists listLen k d ∧ verifyRows strMod numLists schema round0 prevTs'
        (some (listLen, listLen.map (entryIdx k))) data = .ok (true, msg) := by
  rw [verifyRows, hround, if_neg Bool.false_ne_true, hexpect, ok_bind]
  refine ⟨fun h => ?_, fun ⟨hright, h⟩ => ?_⟩
  · obtain ⟨lentIdx, hidx, h⟩ := exists_of_bind_ok h
    by_cases hne : listLen.map (entryIdx k) ≠ lentIdx
    · rw [if_pos hne] at h
      cases h
    · rw [if_neg hne] at h
      obtain rfl := not_not.mp hne
      by_cases hzero : 0 ∈ listLen
      · rw [if_pos hzero] at h
        cases h
      · rw [if_neg hzero] at h
        obtain ⟨bad, hbad, h⟩ := exists_of_bind_ok h
        cases bad with
        | none => exact ⟨⟨hidx, hzero, (verifyRow_eq_none_iff strMod d).mp hbad⟩, h⟩
        | some bad => cases h
  · dsimp only
    rw [hright.idx, ok_bind, if_neg (not_not.mpr rfl), if_neg hright.nonempty,
      (verifyRow_eq_none_iff strMod d).mpr hright.passes, ok_bind]
    exact h

/-! ### Reading one row -/

theorem reads_of_first_iff {prevTs : Key F} {sample : Option (List ℤ × ℕ)} {d : Row F}
    {data : List (Row F)} (hround : d.round.eq round0 = true) :
    Reads strMod numLists round0 prevTs sample (d :: data) ↔
      Reads strMod numLists round0 d.timestamp sample data := by
  refine ⟨fun h => ?_, .skip hround⟩
  cases h with
  | skip _ h => exact h
  | start hfalse => rw [hround] at hfalse; cases hfalse
  | next hfalse => rw [hround] at hfalse; cases hfalse

theorem reads_of_new_iff {prevTs : Key F} {sample : Option (List ℤ × ℕ)} {d : Row F}
    {data : List (Row F)} (hround : d.round.eq round0 = false)
    (hnew : isSameSample prevTs d.timestamp = false) :
    Reads strMod numLists round0 prevTs sample (d :: data) ↔ ∃ listLen,
      listInts numLists "_len" d = .ok listLen ∧ RowRight strMod numLists listLen 0 d ∧
        Reads strMod numLists round0 d.timestamp (some (listLen, 0)) data := by
  refine ⟨fun h => ?_, fun ⟨_, hlen, hright, h⟩ => .start hround hnew hlen hright h⟩
  cases h with
  | skip htrue => rw [hround] at htrue; cases htrue
  | start _ _ hlen hright h => exact ⟨_, hlen, hright, h⟩
  | next _ htrue => rw [hnew] at htrue; cases htrue

theorem reads_of_same_iff {prevTs : Key F} {sample : Option (List ℤ × ℕ)} {d : Row F}
    {data : List (Row F)} (hround : d.round.eq round0 = false)
    (hsame : isSameSample prevTs d.timestamp = true) :
    Reads strMod numLists round0 prevTs sample (d :: data) ↔ ∃ listLen k,
      sample = some (listLen, k) ∧ RowRight strMod numLists listLen (k + 1) d ∧
        Reads strMod numLists round0 prevTs (some (listLen, k + 1)) data := by
  refine ⟨fun h => ?_, ?_⟩
  · cases h with
    | skip htrue => rw [hround] at htrue; cases htrue
    | start _ hfalse => rw [hsame] at hfalse; cases hfalse
    | next _ _ hright h => exact ⟨_, _, rfl, hright, h⟩
  · rintro ⟨listLen, k, rfl, hright, h⟩
    exact .next hround hsame hright h

/-- **The loop accepts the rows that are read so**, and no others. -/
theorem verifyRows_eq_true_iff {data : List (Row F)} {prevTs : Key F}
    (sample : Option (List ℤ × ℕ)) (hsample : ∀ p ∈ sample, 0 ∉ p.1) :
    (∃ msg, verifyRows strMod numLists schema round0 prevTs
        (sample.map fun p => (p.1, p.1.map (entryIdx p.2))) data = .ok (true, msg)) ↔
      Reads strMod numLists round0 prevTs sample data := by
  induction data generalizing prevTs sample with
  | nil => exact ⟨fun _ => .nil, fun _ => ⟨_, rfl⟩⟩
  | cons d data ih =>
    -- Behind a row `k` that is right, the induction is on the rows behind it.
    have hbehind {listLen : List ℤ} {k : ℕ} (hright : RowRight strMod numLists listLen k d)
        (prevTs : Key F) :
        (∃ msg, verifyRows strMod numLists schema round0 prevTs
          (some (listLen, listLen.map (entryIdx k))) data = .ok (true, msg)) ↔
          Reads strMod numLists round0 prevTs (some (listLen, k)) data := by
      refine ih (some (listLen, k)) ?_
      rintro p ⟨⟩
      exact hright.nonempty
    cases hround : d.round.eq round0 with
    | true =>
      rw [verifyRows, hround, if_pos rfl, ih sample hsample, reads_of_first_iff hround]
    | false =>
      cases hsame : isSameSample prevTs d.timestamp with
      | false =>
        have hexpect {listLen : List ℤ} (hlen : listInts numLists "_len" d = .ok listLen) :
            expect numLists prevTs (sample.map fun p => (p.1, p.1.map (entryIdx p.2))) d =
              .ok (d.timestamp, listLen, listLen.map (entryIdx 0)) := by
          rw [expect_of_new hsame, hlen, map_entryIdx_zero, length_listInts numLists hlen]
          rfl
        rw [reads_of_new_iff hround hsame]
        constructor
        · rintro ⟨msg, h⟩
          cases hlen : listInts numLists "_len" d with
          | error e =>
            rw [verifyRows, hround, if_neg Bool.false_ne_true, expect_of_new hsame, hlen] at h
            cases h
          | ok listLen =>
            obtain ⟨hright, h⟩ := (verifyRows_next hround (hexpect hlen)).mp h
            exact ⟨listLen, rfl, hright, (hbehind hright _).mp ⟨msg, h⟩⟩
        · rintro ⟨listLen, hlen, hright, h⟩
          obtain ⟨msg, h⟩ := (hbehind hright _).mpr h
          exact ⟨msg, (verifyRows_next hround (hexpect hlen)).mpr ⟨hright, h⟩⟩
      | true =>
        rw [reads_of_same_iff hround hsame]
        cases sample with
        | none =>
          refine ⟨fun ⟨msg, h⟩ => ?_, fun ⟨_, _, h, _⟩ => nomatch h⟩
          obtain ⟨e, he⟩ : ∃ e, expect numLists prevTs none d = .error e := expect_of_unbound hsame
          rw [verifyRows, hround, if_neg Bool.false_ne_true, Option.map_none, he] at h
          cases h
        | some sample =>
          obtain ⟨listLen, k⟩ := sample
          have hexpect : expect numLists prevTs (some (listLen, listLen.map (entryIdx k))) d =
              .ok (prevTs, listLen, listLen.map (entryIdx (k + 1))) := by
            rw [expect_of_same hsame, zipWith_nextIdx (hsample _ rfl)]
          constructor
          · rintro ⟨msg, h⟩
            obtain ⟨hright, h⟩ := (verifyRows_next hround hexpect).mp h
            exact ⟨listLen, k, rfl, hright, (hbehind hright _).mp ⟨msg, h⟩⟩
          · rintro ⟨_, _, ⟨⟩, hright, h⟩
            obtain ⟨msg, h⟩ := (hbehind hright _).mpr h
            exact ⟨msg, (verifyRows_next hround hexpect).mpr ⟨hright, h⟩⟩

/-! ## Samples -/

/-- The samples: the rows of one timestamp. -/
def samples (data : List (Row F)) : List (List (Row F)) :=
  data.splitBy fun d e => d.timestamp == e.timestamp

/-- **A sample after the first round and before the last timestamp**, behind the samples
`before`. -/
structure Between (data : List (Row F)) (before : List (List (Row F))) (sample : List (Row F)) :
    Prop where
  later : ∀ d0 ∈ data.head?, ∀ d ∈ sample, d.round.eq d0.round = false
  behind : ∃ after, after ≠ [] ∧ samples data = before ++ sample :: after

/-- **Behind a timestamp of 0**, with no row of the first round since. -/
def BehindZero (round0 : Val F) (rows : List (Row F)) : Prop :=
  ∃ before d after, rows = before ++ d :: after ∧ d.timestamp = .num 0 ∧
    ∀ e ∈ after, e.round.eq round0 = false

variable (strMod numLists)

/-- **As many rows as the longest list has entries.** -/
def Counted (sample : List (Row F)) : Prop :=
  ∃ d listLen, sample.head? = some d ∧ listInts numLists "_len" d = .ok listLen ∧
    listLen.max? = some (sample.length : ℤ)

/-- **A whole sample**: it has as many rows as its longest list has entries, with the index of each
row into each list, and values that pass their checks. -/
def Whole (sample : List (Row F)) : Prop :=
  ∃ d listLen, sample.head? = some d ∧ listInts numLists "_len" d = .ok listLen ∧
    listLen.max? = some (sample.length : ℤ) ∧ ∀ k d, sample[k]? = some d →
      listInts numLists "_entry_idx" d = .ok (listLen.map (entryIdx k)) ∧ Passes strMod d

/-- **A sample of a single row**, with index 0 into every list. -/
def Single (sample : List (Row F)) : Prop :=
  ∃ d, sample = [d] ∧ listInts numLists "_entry_idx" d = .ok (List.replicate numLists 0)

/-- The rows are accepted, from the first row of the data on. -/
def Accepted (data : List (Row F)) : Prop :=
  ∃ d0, data.head? = some d0 ∧ Reads strMod numLists d0.round (.num 0) none data

variable {strMod numLists}

theorem Whole.counted {sample : List (Row F)} (h : Whole strMod numLists sample) :
    Counted numLists sample := by
  obtain ⟨d, listLen, hhead, hlen, hmax, _⟩ := h
  exact ⟨d, listLen, hhead, hlen, hmax⟩

theorem verifyData_eq_true_iff (data : List (Row F)) :
    (∃ msg, verifyData strMod numLists schema data = .ok (true, msg)) ↔
      Accepted strMod numLists data := by
  cases data with
  | nil =>
    refine ⟨?_, ?_⟩
    · rintro ⟨_, h⟩
      cases h
    · rintro ⟨_, h, _⟩
      cases h
  | cons d data =>
    have h : (∃ msg, verifyRows strMod numLists schema d.round (.num 0) none (d :: data) =
        .ok (true, msg)) ↔ Reads strMod numLists d.round (.num 0) none (d :: data) :=
      verifyRows_eq_true_iff none nofun
    refine ⟨fun hdata => ⟨d, rfl, h.mp hdata⟩, ?_⟩
    rintro ⟨_, ⟨⟩, hreads⟩
    exact h.mpr hreads

/-- The rows behind row `k` of what the loop takes for one sample are the rows that follow it. -/
theorem Reads.rows {ts : Key F} {listLen : List ℤ} {k : ℕ} {rows rest : List (Row F)}
    (h : Reads strMod numLists round0 ts (some (listLen, k)) (rows ++ rest))
    (hround : ∀ d ∈ rows, d.round.eq round0 = false)
    (hts : ∀ d ∈ rows, isSameSample ts d.timestamp = true) :
    ∀ j d, rows[j]? = some d → RowRight strMod numLists listLen (k + 1 + j) d := by
  induction rows generalizing k with
  | nil => exact fun j d hd => nomatch hd
  | cons row rows ih =>
    obtain ⟨hrow, hrows⟩ := List.forall_mem_cons.mp hround
    obtain ⟨hsame, htsrows⟩ := List.forall_mem_cons.mp hts
    obtain ⟨_, _, ⟨⟩, hright, h⟩ := (reads_of_same_iff hrow hsame).mp h
    intro j d hd
    cases j with
    | zero =>
      cases hd
      exact hright
    | succ j =>
      have := ih h hrows htsrows j d hd
      rwa [show k + 1 + (j + 1) = k + 1 + 1 + j by omega]

omit [DecidableEq F] in
theorem behindZero_append_singleton_iff {rows : List (Row F)} {d : Row F} :
    BehindZero round0 (rows ++ [d]) ↔
      d.timestamp = .num 0 ∨ d.round.eq round0 = false ∧ BehindZero round0 rows := by
  constructor
  · rintro ⟨pre, e, post, h, hzero, hpost⟩
    rcases List.eq_nil_or_concat post with rfl | ⟨post, last, rfl⟩
    · obtain ⟨rfl, ⟨⟩⟩ := List.append_inj' h rfl
      exact .inl hzero
    · rw [List.concat_eq_append] at h hpost
      rw [← List.cons_append, ← List.append_assoc] at h
      obtain ⟨rfl, ⟨⟩⟩ := List.append_inj' h rfl
      exact .inr ⟨hpost d (by simp), pre, e, post, rfl, hzero,
        fun e' he' => hpost e' (List.mem_append_left _ he')⟩
  · rintro (hzero | ⟨hround, pre, e, post, rfl, hzero, hpost⟩)
    · exact ⟨rows, d, [], rfl, hzero, List.forall_mem_nil _⟩
    · refine ⟨pre, e, post ++ [d], by simp, hzero, fun e' he' => ?_⟩
      rcases List.mem_append.mp he' with he' | he'
      · exact hpost e' he'
      · obtain rfl := List.mem_singleton.mp he'
        exact hround

/-- **Where the loop is behind some rows**: it has 0 for the timestamp behind one of 0, and else
the last timestamp. -/
theorem Reads.behind {rows rest : List (Row F)}
    (h : Reads strMod numLists round0 (.num 0) none (rows ++ rest)) :
    ∃ prevTs sample, Reads strMod numLists round0 prevTs sample rest ∧
      (prevTs = .num 0 ∧ (BehindZero round0 rows ∨ sample = none) ∨
        prevTs ≠ .num 0 ∧ ¬ BehindZero round0 rows ∧
          rows.getLast?.map Row.timestamp = some prevTs) := by
  induction rows using List.reverseRecOn generalizing rest with
  | nil => exact ⟨.num 0, none, h, .inl ⟨rfl, .inr rfl⟩⟩
  | append_singleton rows d ih =>
    rw [List.append_assoc, List.singleton_append] at h
    obtain ⟨prevTs, sample, h, hstate⟩ := ih h
    rw [behindZero_append_singleton_iff, List.getLast?_concat, Option.map_some]
    -- A row that is not taken for one of the sample before it leaves its own timestamp behind.
    have hown {sample : Option (List ℤ × ℕ)}
        (h : Reads strMod numLists round0 d.timestamp sample rest)
        (hrows : d.round.eq round0 = true ∨ ¬ BehindZero round0 rows) :
        ∃ prevTs sample, Reads strMod numLists round0 prevTs sample rest ∧
          (prevTs = .num 0 ∧ ((d.timestamp = .num 0 ∨ d.round.eq round0 = false ∧
            BehindZero round0 rows) ∨ sample = none) ∨
          prevTs ≠ .num 0 ∧ ¬ (d.timestamp = .num 0 ∨ d.round.eq round0 = false ∧
            BehindZero round0 rows) ∧ some d.timestamp = some prevTs) := by
      refine ⟨d.timestamp, sample, h, ?_⟩
      by_cases hzero : d.timestamp = .num 0
      · exact .inl ⟨hzero, .inl (.inl hzero)⟩
      · refine .inr ⟨hzero, ?_, rfl⟩
        rintro (h | ⟨hround, hbehind⟩)
        · exact hzero h
        · rcases hrows with htrue | hrows
          · rw [htrue] at hround
            cases hround
          · exact hrows hbehind
    cases hround : d.round.eq round0 with
    | true =>
      rw [hround] at hown
      exact hown ((reads_of_first_iff hround).mp h) (.inl rfl)
    | false =>
      rw [hround] at hown
      cases hsame : isSameSample prevTs d.timestamp with
      | false =>
        obtain ⟨_, _, _, h⟩ := (reads_of_new_iff hround hsame).mp h
        rcases hstate with ⟨rfl, _⟩ | ⟨_, hnot, _⟩
        · exact absurd hsame (by simp [isSameSample])
        · exact hown h (.inr hnot)
      | true =>
        obtain ⟨listLen, k, rfl, _, h⟩ := (reads_of_same_iff hround hsame).mp h
        rcases hstate with ⟨rfl, hbehind⟩ | ⟨hprev, hnot, _⟩
        · exact ⟨_, _, h, .inl ⟨rfl, .inl (.inr ⟨rfl, hbehind.resolve_right nofun⟩)⟩⟩
        · obtain rfl := (of_decide_eq_true hsame).resolve_left hprev
          exact hown h (.inr hnot)

/-- The rows of a sample have one timestamp. -/
theorem timestamp_eq_of_mem_samples {data sample : List (Row F)} {d : Row F}
    (h : d :: sample ∈ samples data) : ∀ e ∈ sample, d.timestamp = e.timestamp := by
  have hchain := List.isChain_of_mem_splitBy h
  clear h
  induction sample generalizing d with
  | nil => exact List.forall_mem_nil _
  | cons e sample ih =>
    obtain ⟨heq, hchain⟩ := List.isChain_cons_cons.mp hchain
    have heq : d.timestamp = e.timestamp := beq_iff_eq.mp heq
    exact List.forall_mem_cons.mpr ⟨heq, fun d' hd' => heq.trans (ih hchain d' hd')⟩

/-- The timestamp changes between two samples. -/
theorem timestamp_ne_of_samples {data : List (Row F)} {before after : List (List (Row F))}
    {sample : List (Row F)} {d e : Row F} (h : samples data = before ++ (d :: sample) :: after)
    (he : before.flatten.getLast? = some e) : e.timestamp ≠ d.timestamp := by
  have hchain := List.isChain_getLast_head_splitBy (fun d e : Row F => d.timestamp == e.timestamp) data
  change List.IsChain _ (samples data) at hchain
  rw [h] at hchain
  obtain ⟨_, _, hlast⟩ := List.isChain_append.mp hchain
  have hne : before ≠ [] := by
    rintro rfl
    cases he
  obtain ⟨init, last, rfl⟩ := List.eq_nil_or_concat before |>.resolve_left hne
  obtain ⟨hlast, _, hts⟩ := hlast last (by simp) _ rfl
  rw [List.concat_eq_append, List.flatten_append, List.flatten_singleton,
    List.getLast?_append_of_ne_nil _ hlast, List.getLast?_eq_some_getLast hlast] at he
  cases he
  exact beq_eq_false_iff_ne.mp hts

/-- **The loop comes to a sample** behind the rows before it. -/
theorem Accepted.reads {data sample : List (Row F)} {before : List (List (Row F))}
    (h : Accepted strMod numLists data) (hbetween : Between data before sample) {d0 : Row F}
    (hd0 : data.head? = some d0) : ∃ prevTs carried rest,
      Reads strMod numLists d0.round prevTs carried (sample ++ rest) ∧
      (prevTs = .num 0 ∧ (BehindZero d0.round before.flatten ∨ carried = none) ∨
        prevTs ≠ .num 0 ∧ ¬ BehindZero d0.round before.flatten ∧
          before.flatten.getLast?.map Row.timestamp = some prevTs) := by
  obtain ⟨d, hd, h⟩ := h
  obtain rfl : d = d0 := Option.some_inj.mp (hd.symm.trans hd0)
  obtain ⟨_, after, _, hsamples⟩ := hbetween
  have hdata : data = before.flatten ++ (sample ++ after.flatten) := by
    have hflatten : (samples data).flatten = data := List.flatten_splitBy _ data
    rw [← hflatten, hsamples, List.flatten_append, List.flatten_cons]
  rw [hdata] at h
  obtain ⟨prevTs, carried, h, hstate⟩ := h.behind
  exact ⟨prevTs, carried, after.flatten, h, hstate⟩

/-- A sample has a row. -/
theorem Between.exists_cons {data sample : List (Row F)} {before : List (List (Row F))}
    (h : Between data before sample) : ∃ d rows, sample = d :: rows ∧
      ∀ e ∈ rows, d.timestamp = e.timestamp := by
  obtain ⟨_, after, _, hsamples⟩ := h
  have hmem : sample ∈ samples data := hsamples ▸ List.mem_append_right _ List.mem_cons_self
  obtain ⟨d, rows, rfl⟩ := List.exists_cons_of_ne_nil (List.ne_nil_of_mem_splitBy hmem)
  exact ⟨d, rows, rfl, timestamp_eq_of_mem_samples hmem⟩

/-- **The rows of a sample that is read are right**, unless it is behind a timestamp of 0. -/
theorem Accepted.rows {data sample : List (Row F)} {before : List (List (Row F))}
    (h : Accepted strMod numLists data) (hbetween : Between data before sample) {d0 : Row F}
    (hd0 : data.head? = some d0) (hzero : ¬ BehindZero d0.round before.flatten) :
    ∃ d listLen, sample.head? = some d ∧ listInts numLists "_len" d = .ok listLen ∧
      ∀ k d, sample[k]? = some d → RowRight strMod numLists listLen k d := by
  obtain ⟨prevTs, carried, rest, h, hstate⟩ := h.reads hbetween hd0
  obtain ⟨d, rows, rfl, hts⟩ := hbetween.exists_cons
  obtain ⟨hround, hrounds⟩ := List.forall_mem_cons.mp (hbetween.later d0 hd0)
  obtain ⟨_, after, _, hsamples⟩ := hbetween
  rw [List.cons_append] at h
  have hnew : isSameSample prevTs d.timestamp = false := by
    refine decide_eq_false fun hsame => ?_
    obtain ⟨_, _, rfl, _⟩ := (reads_of_same_iff hround (decide_eq_true hsame)).mp h
    rcases hstate with ⟨_, hbehind⟩ | ⟨hne, _, hlast⟩
    · exact hzero (hbehind.resolve_right nofun)
    · obtain ⟨e, he, rfl⟩ := Option.map_eq_some_iff.mp hlast
      exact timestamp_ne_of_samples hsamples he (hsame.resolve_left hne)
  obtain ⟨listLen, hlen, hright, h⟩ := (reads_of_new_iff hround hnew).mp h
  have hrows := h.rows hrounds fun e he => decide_eq_true (.inr (hts e he))
  refine ⟨d, listLen, rfl, hlen, fun k e he => ?_⟩
  cases k with
  | zero =>
    cases he
    exact hright
  | succ k =>
    have := hrows k e he
    rwa [show 0 + 1 + k = k + 1 by omega] at this

/-- **Behind a timestamp of 0** the rows of a sample follow those of the sample with the
timestamp. -/
theorem Accepted.rows_of_behindZero {data sample : List (Row F)} {before : List (List (Row F))}
    (h : Accepted strMod numLists data) (hbetween : Between data before sample) {d0 : Row F}
    (hd0 : data.head? = some d0) (hzero : BehindZero d0.round before.flatten) :
    ∃ listLen k, ∀ j d, sample[j]? = some d →
      RowRight strMod numLists listLen (k + 1 + j) d := by
  obtain ⟨prevTs, carried, rest, h, hstate⟩ := h.reads hbetween hd0
  obtain ⟨d, rows, rfl, _⟩ := hbetween.exists_cons
  have hround := hbetween.later d0 hd0
  have hprev : prevTs = .num 0 := by
    rcases hstate with ⟨hprev, _⟩ | ⟨_, hnot, _⟩
    · exact hprev
    · exact absurd hzero hnot
  have hsame (ts : Key F) : isSameSample prevTs ts = true := decide_eq_true (.inl hprev)
  obtain ⟨listLen, k, rfl, _, _⟩ :=
    (reads_of_same_iff (hround d List.mem_cons_self) (hsame _)).mp h
  exact ⟨listLen, k, h.rows hround fun _ _ => hsame _⟩

omit [FloatEq F] [DecidableEq F] in
/-- Only a list of one entry has the index 0 behind the first row. -/
theorem entryIdx_succ_eq_zero_iff {k : ℕ} {len : ℤ} : entryIdx (k + 1) len = 0 ↔ len = 1 := by
  unfold entryIdx
  split_ifs <;> omega

omit [FloatEq F] [DecidableEq F] in
theorem map_entryIdx_of_zeros {listLen : List ℤ} {k n : ℕ}
    (h : listLen.map (entryIdx (k + 1)) = List.replicate n 0) (j : ℕ) :
    listLen.map (entryIdx (k + 1 + j)) = List.replicate n 0 := by
  obtain ⟨hlength, h⟩ := List.eq_replicate_iff.mp h
  refine List.eq_replicate_iff.mpr ⟨by rwa [List.length_map] at hlength ⊢, ?_⟩
  refine List.forall_mem_map.mpr fun len hlen => ?_
  rw [show k + 1 + j = k + j + 1 by omega, entryIdx_succ_eq_zero_iff]
  exact entryIdx_succ_eq_zero_iff.mp (h _ (List.mem_map_of_mem hlen))

/-- **Behind a timestamp of 0 a sample is whole** if it is a single row: its first row can have the
index 0 only if all lists of the sample with the timestamp have one entry, and then every row has
it. -/
theorem Accepted.whole_iff_single {data sample : List (Row F)} {before : List (List (Row F))}
    (h : Accepted strMod numLists data) (hbetween : Between data before sample) {d0 : Row F}
    (hd0 : data.head? = some d0) (hzero : BehindZero d0.round before.flatten) :
    Whole strMod numLists sample ↔ Counted numLists sample ∧ Single numLists sample := by
  obtain ⟨carried, k, hrows⟩ := h.rows_of_behindZero hbetween hd0 hzero
  constructor
  · intro hwhole
    refine ⟨hwhole.counted, ?_⟩
    obtain ⟨d, listLen, hhead, hlen, hmax, hidx⟩ := hwhole
    obtain ⟨_, rows, rfl, _⟩ := hbetween.exists_cons
    cases hhead
    have hzeros : carried.map (entryIdx (k + 1)) = List.replicate numLists 0 := by
      have hfirst := Except.ok.inj ((hidx 0 d rfl).1.symm.trans (hrows 0 d rfl).idx)
      rw [map_entryIdx_zero, length_listInts numLists hlen] at hfirst
      exact hfirst.symm
    rcases rows.eq_nil_or_concat with rfl | ⟨init, e, rfl⟩
    · exact ⟨d, rfl, (hrows 0 d rfl).idx.trans (congrArg Except.ok hzeros)⟩
    · -- The last row has the last index of the longest list, which is not 0.
      exfalso
      have hlast : (d :: init.concat e)[init.length + 1]? = some e := by simp
      have heq := Except.ok.inj ((hidx _ e hlast).1.symm.trans (hrows _ e hlast).idx)
      rw [map_entryIdx_of_zeros hzeros] at heq
      have hmem := List.mem_map_of_mem (f := entryIdx (init.length + 1)) (List.max?_mem hmax)
      rw [heq] at hmem
      have hidx := List.eq_of_mem_replicate hmem
      rw [List.length_cons, List.length_concat] at hidx
      unfold entryIdx at hidx
      split_ifs at hidx <;> omega
  · rintro ⟨⟨d, listLen, hhead, hlen, hmax⟩, _, rfl, hidx⟩
    cases hhead
    refine ⟨d, listLen, rfl, hlen, hmax, fun j e he => ?_⟩
    cases j with
    | zero =>
      cases he
      rw [map_entryIdx_zero, length_listInts numLists hlen]
      exact ⟨hidx, (hrows 0 d rfl).passes⟩
    | succ j => exact nomatch he

/-- **`verify_data` is sound** for skipped rows if a sample of which it has accepted the rows has as
many of them as its longest list has entries.  Behind a timestamp of 0 it takes all rows for those
of one sample, so there a sample is whole only if it is a single row. -/
theorem verifyData_sound_iff (strMod : String → Except PyError String) (numLists : ℕ)
    (schema : String) (data : List (Row F)) :
    ((∃ msg, verifyData strMod numLists schema data = .ok (true, msg)) →
        ∀ before sample, Between data before sample → Whole strMod numLists sample) ↔
      (Accepted strMod numLists data → ∀ before sample, Between data before sample →
        Counted numLists sample ∧ ∀ d0 ∈ data.head?, BehindZero d0.round before.flatten →
          Single numLists sample) := by
  rw [verifyData_eq_true_iff]
  refine imp_congr_right fun haccepted => forall₂_congr fun before sample =>
    imp_congr_right fun hbetween => ?_
  have hsingle {d0 : Row F} (hd0 : data.head? = some d0)
      (hzero : BehindZero d0.round before.flatten) :=
    haccepted.whole_iff_single hbetween hd0 hzero
  refine ⟨fun hwhole => ⟨hwhole.counted, fun d0 hd0 hzero => ((hsingle hd0 hzero).mp hwhole).2⟩, ?_⟩
  rintro ⟨hcounted, hbehind⟩
  obtain ⟨d0, hd0, _⟩ := id haccepted
  by_cases hzero : BehindZero d0.round before.flatten
  · exact (hsingle hd0 hzero).mpr ⟨hcounted, hbehind d0 hd0 hzero⟩
  · obtain ⟨d, listLen, hhead, hlen, hmax⟩ := hcounted
    obtain ⟨d', listLen', hhead', hlen', hrows⟩ := haccepted.rows hbetween hd0 hzero
    obtain rfl : d = d' := Option.some_inj.mp (hhead.symm.trans hhead')
    obtain rfl : listLen = listLen' := Except.ok.inj (hlen.symm.trans hlen')
    exact ⟨d, listLen, hhead, hlen, hmax, fun k e he => ⟨(hrows k e he).idx, (hrows k e he).passes⟩⟩

end Loop

/-! ## A sample without its last row -/

section Skipped

open Json (SampleFloat)

/-- The first row of the round `n`, which is sampled at the time `n` with a list of two entries. -/
def firstRow (n : ℤ) : Row SampleFloat where
  items := [("timestamp", .int n), ("round", .int n), ("list_1_len", .int 2),
    ("list_1_entry_idx", .int 0), ("LDMS_V_U64", .int n)]
  timestamp := .num n
  round := .int n
  timestamp_eq := rfl
  round_eq := rfl

/-- **The second row of the second round is missing**, and `verify_data` returns `True`. -/
theorem not_sound_firstRows :
    ¬ ((∃ msg, verifyData (fun _ => .ok "") 1 "s" [firstRow 1, firstRow 2, firstRow 3] =
        .ok (true, msg)) →
      ∀ before sample, Between [firstRow 1, firstRow 2, firstRow 3] before sample →
        Whole (fun _ => .ok "") 1 sample) := by
  intro h
  have hbetween : Between [firstRow 1, firstRow 2, firstRow 3] [[firstRow 1]] [firstRow 2] := by
    refine ⟨?_, [[firstRow 3]], nofun, rfl⟩
    rintro _ ⟨⟩ d hd
    obtain rfl := List.mem_singleton.mp hd
    rfl
  obtain ⟨d, listLen, hhead, hlen, hmax, _⟩ := h ⟨"verify_data(db) for db in all_db", rfl⟩ _ _ hbetween
  cases hhead
  have hlen' : listInts 1 "_len" (firstRow 2) = .ok [2] := rfl
  rw [hlen'] at hlen
  cases hlen
  cases hmax

end Skipped

end StoreListRecord
end LdmsTest
