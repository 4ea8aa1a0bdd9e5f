import LdmsTest.Foundation.Dict
import LdmsTest.Foundation.Fuelled
import LdmsTest.Foundation.Regex
import LdmsTest.Python.Text

/-!
# `parse_ldms_ls`

The output of `ldms_ls -l [-v]` is read line by line.  A line is matched against one pattern, whose
eight alternatives are tried in their order; which groups took part in the match, and the section
that the reader is in, decide what is done with it.

* `lsRe`, `typeFn`, `step`, `parseLdmsLs`: the source.
* `classify`: the alternative that a line is matched by.
* `step_eq`: one line, by its alternative.
-/

namespace LdmsTest
namespace Ls

open Regex Text

variable {F : Type} [PyText F]

/-! ## The pattern -/

inductive Group where
  | preMetaKey | preMetaVal
  | metaBegin
  | metaDashes
  | metaTotalSets | metaSz | dataSz | memSz
  | metaSchemaDigest | metaSchema | metaInst | metaFlags | metaMsize | metaDsize | metaHsize
  | metaUid | metaGid | metaPerm | metaUpdate | metaDuration | metaInfo
  | metaEnd
  | setName | ts
  | flag | type | metricName | metricValue
  deriving DecidableEq

/-- `.` -/
def isDot (c : Char) : Bool :=
  c ≠ '\n'

variable (F) in
/-- `\S` -/
def isNonSpace (c : Char) : Bool :=
  !space F c

variable (F) in
/-- `\d` -/
def isDecimal (c : Char) : Bool :=
  (PyRuntime.decimal F c).isSome

variable (F) in
/-- `\D` -/
def isNonDecimal (c : Char) : Bool :=
  !isDecimal F c

variable (F) in
/-- `\w` -/
def isWord (c : Char) : Bool :=
  PyText.alnum F c || c = '_'

section Patterns

variable (F)

/-- `_PRE_META_KV` -/
def preMetaKV : Regex Group :=
  cat [bol, group .preMetaKey (cat [star isDot, cls (isWord F)]), plus (space F), lit [':'],
    plus (space F), group .preMetaVal (star isDot), eol]

/-- `_META_BEGIN` -/
def metaBegin : Regex Group :=
  group .metaBegin (cat [opt (cat [lit "Schema Digest".toList, plus (space F)]),
    lit "Schema".toList, plus (space F), lit "Instance".toList, plus (space F),
    lit "Flags".toList, star isDot, plus (space F), lit "Info".toList])

/-- `_META_DASHES` -/
def metaDashes : Regex Group :=
  cat [bol, group .metaDashes (plus fun c => c = ' ' || c = '-'), eol]

/-- `\d+(?:\.\d+)?` -/
def size : Regex Group :=
  cat [plus (isDecimal F), opt (cat [lit ['.'], plus (isDecimal F)])]

/-- `_META_SUMMARY` -/
def metaSummary : Regex Group :=
  cat [lit "Total Sets: ".toList, group .metaTotalSets (plus (isDecimal F)), lit ", ".toList,
    lit "Meta Data (kB)".toList, opt (lit [':']), lit [' '], group .metaSz (size F),
    lit ", ".toList,
    lit "Data (kB)".toList, opt (lit [':']), lit [' '], group .dataSz (size F), lit ", ".toList,
    lit "Memory (kB)".toList, opt (lit [':']), lit [' '], group .memSz (size F)]

/-- `[r-][w-][x-]` -/
def access : Regex Group :=
  cat [cls fun c => c = 'r' || c = '-', cls fun c => c = 'w' || c = '-',
    cls fun c => c = 'x' || c = '-']

/-- `-(?:[r-][w-][x-]){3}` -/
def permission : Regex Group :=
  cat [lit ['-'], times 3 access]

/-- `\d+\.\d+` -/
def fraction : Regex Group :=
  cat [plus (isDecimal F), lit ['.'], plus (isDecimal F)]

/-- The part of `_META_DATA` behind the flags. -/
def metaNumbers : Regex Group :=
  cat [group .metaMsize (plus (isDecimal F)), plus (space F),
    group .metaDsize (plus (isDecimal F)), plus (space F),
    group .metaHsize (plus (isDecimal F)), plus (space F),
    group .metaUid (plus (isDecimal F)), plus (space F),
    group .metaGid (plus (isDecimal F)), plus (space F),
    group .metaPerm permission, plus (space F),
    group .metaUpdate (fraction F), plus (space F),
    group .metaDuration (fraction F),
    opt (cat [plus (space F), group .metaInfo (star isDot)])]

/-- `_META_DATA` -/
def metaData : Regex Group :=
  cat [opt (cat [group .metaSchemaDigest (plus Numeral.isHexDigit), plus (space F)]),
    group .metaSchema (plus (isNonSpace F)), plus (space F),
    group .metaInst (plus (isNonSpace F)), plus (space F),
    group .metaFlags (plus (isNonDecimal F)), plus (space F),
    metaNumbers F]

/-- `_META_END` -/
def metaEnd : Regex Group :=
  cat [bol, group .metaEnd (plus fun c => c = '='), eol]

/-- `_LS_L_HDR` -/
def lsLHdr : Regex Group :=
  cat [group .setName (plus fun c => c ≠ ':'), lit ": ".toList, star isDot,
    lit " last update: ".toList, group .ts (star isDot)]

/-- `_LS_L_DATA` -/
def lsLData : Regex Group :=
  cat [group .flag (cls isDot), lit [' '], group .type (plus (isNonSpace F)), plus (space F),
    group .metricName (plus (isNonSpace F)), plus (space F), group .metricValue (star isDot)]

/-- `_LS_RE` -/
def lsRe : Regex Group :=
  alt (preMetaKV F) <| alt (metaBegin F) <| alt metaDashes <| alt (metaData F) <|
    alt (metaSummary F) <| alt metaEnd <| alt lsLHdr (lsLData F)

end Patterns

/-! ## Values -/

/-- The value of a metric. -/
inductive TypedVal (F : Type) where
  | str (cs : List Char)
  | int (n : ℤ)
  | float (x : F)
  | ints (ns : List ℤ)
  | floats (xs : List F)

def raise {α : Type} (kind : ErrorKind) (msg : List Char) : Except PyError α :=
  throw ⟨kind, String.ofList msg⟩

/-- `int0` -/
def int0Fn (x : List Char) : Except PyError ℤ :=
  match int0 F x with
  | some n => pure n
  | none => raise .valueError
      ("invalid literal for int() with base 0: ".toList ++ (Val.reprStr F (.ofList x)).toList)

def floatFn (x : List Char) : Except PyError F :=
  match PyText.floatOf x with
  | some y => pure y
  | none => raise .valueError
      ("could not convert string to float: ".toList ++ (Val.reprStr F (.ofList x)).toList)

/-- `lambda x: str(x).strip(q)` -/
def unquoteFn (q : Char) (x : List Char) : Except PyError (TypedVal F) :=
  pure (.str (stripChar q x))

def intFn (x : List Char) : Except PyError (TypedVal F) :=
  .int <$> int0Fn (F := F) x

/-- `lambda x: list(map(int0, x.split(',')))` -/
def intsFn (x : List Char) : Except PyError (TypedVal F) :=
  .ints <$> (x.splitOn ',').mapM (int0Fn (F := F))

def floatsFn (x : List Char) : Except PyError (TypedVal F) :=
  .floats <$> (x.splitOn ',').mapM floatFn

variable (F) in
/-- `_TYPE_FN` -/
def typeFn : Dict (List Char) (List Char → Except PyError (TypedVal F)) :=
  [("char".toList, unquoteFn '\''), ("char[]".toList, unquoteFn '"'),
    ("u8".toList, intFn), ("s8".toList, intFn), ("u16".toList, intFn), ("s16".toList, intFn),
    ("u32".toList, intFn), ("s32".toList, intFn), ("u64".toList, intFn), ("s64".toList, intFn),
    ("f32".toList, fun x => .float <$> floatFn x), ("d64".toList, fun x => .float <$> floatFn x),
    ("u8[]".toList, intsFn), ("s8[]".toList, intsFn), ("u16[]".toList, intsFn),
    ("s16[]".toList, intsFn), ("u32[]".toList, intsFn), ("s32[]".toList, intsFn),
    ("u64[]".toList, intsFn), ("s64[]".toList, intsFn), ("f32[]".toList, floatsFn),
    ("d64[]".toList, floatsFn)]

/-! ## The reader -/

/-- The `"meta"` of a set.  A group that took no part is `None`. -/
structure SetMeta where
  schemaDigest : Option (List Char)
  schema : List Char
  inst : List Char
  flags : List Char
  metaSz : List Char
  dataSz : List Char
  heapSz : List Char
  uid : List Char
  gid : List Char
  perm : List Char
  update : List Char
  duration : List Char
  info : Option (List Char)

/-- What is known of a set. -/
structure SetDict (F : Type) where
  metaDict : Option SetMeta := none
  name : Option (List Char) := none
  ts : Option (List Char) := none
  data : Option (Dict (List Char) (TypedVal F)) := none
  dataType : Option (Dict (List Char) (List Char)) := none

inductive Section where
  | preMeta
  | metaData
  | data
  deriving DecidableEq

/-- The variable `data`. -/
inductive DataVar where
  | unbound
  | none
  /-- the `"data"` of a set -/
  | of (set : List Char)

structure State (F : Type) where
  sec : Section
  ret : Dict (List Char) (SetDict F)
  data : DataVar

def State.init (F : Type) : State F :=
  ⟨.preMeta, [], .unbound⟩

/-- `ret.setdefault(name, dict())`, and what is assigned to it -/
def State.assign (st : State F) (name : List Char) (f : SetDict F → SetDict F) : State F :=
  { st with ret := Dict.set st.ret name (f ((Dict.get? st.ret name).getD {})) }

omit [PyText F] in
theorem State.get?_assign (st : State F) (name : List Char) (f : SetDict F → SetDict F)
    (k : List Char) : Dict.get? (st.assign name f).ret k =
      if name = k then some (f ((Dict.get? st.ret name).getD {})) else Dict.get? st.ret k := by
  rw [assign, Dict.get?_set]

abbrev Caps := List (Group × List Char)

def setMeta (m : Caps) : SetMeta where
  schemaDigest := m.lookup .metaSchemaDigest
  schema := captured m .metaSchema
  inst := captured m .metaInst
  flags := captured m .metaFlags
  metaSz := captured m .metaMsize
  dataSz := captured m .metaDsize
  heapSz := captured m .metaHsize
  uid := captured m .metaUid
  gid := captured m .metaGid
  perm := captured m .metaPerm
  update := captured m .metaUpdate
  duration := captured m .metaDuration
  info := m.lookup .metaInfo

/-- `data[mname] = _TYPE_FN[mtype](_val)` -/
def assignValue (st : State F) (mtype mname value : List Char) : Except PyError (State F) := do
  let value := if mtype = "char[]".toList then value else value.takeWhile (· ≠ ' ')
  let val ← match Dict.get? (typeFn F) mtype with
    | some fn => fn value
    | none => raise .keyError (Val.reprStr F (.ofList mtype)).toList
  match st.data with
  | .unbound =>
    raise .nameError
      "cannot access local variable 'data' where it is not associated with a value".toList
  | .none => raise .typeError "'NoneType' object does not support item assignment".toList
  | .of name => pure <| st.assign name fun lset =>
      { lset with
        data := lset.data.map (Dict.set · mname val)
        dataType := lset.dataType.map (Dict.set · mname mtype) }

/-- What is done with a line that matches. -/
def act (st : State F) (l : List Char) (m : Caps) : Except PyError (State F) :=
  if captured m .metaBegin ≠ [] then
    if st.sec ≠ .preMeta then raise .runtimeError ("Unexpected meta info: ".toList ++ l)
    else pure { st with sec := .metaData }
  else if captured m .metaSchema ≠ [] then
    if st.sec ≠ .metaData then raise .runtimeError ("Unexpected meta info: ".toList ++ l)
    else pure <| st.assign (captured m .metaInst) fun lset =>
      { lset with metaDict := some (setMeta m), name := some (captured m .metaInst) }
  else if captured m .metaTotalSets ≠ [] then
    if st.sec ≠ .metaData then raise .runtimeError ("Unexpected meta info: ".toList ++ l)
    else pure st
  else if captured m .metaDashes ≠ [] then
    if st.sec ≠ .metaData then raise .runtimeError ("Unexpected meta info: ".toList ++ l)
    else pure st
  else if captured m .metaEnd ≠ [] then
    if st.sec ≠ .metaData then raise .runtimeError ("Unexpected meta info: ".toList ++ l)
    else pure { st with sec := .data }
  else if captured m .setName ≠ [] then
    -- without -v the data come first
    let sec := if st.sec = .preMeta then .data else st.sec
    if sec ≠ .data then raise .runtimeError ("Unexpected data info: ".toList ++ l)
    else
      let name := captured m .setName
      pure <| State.assign { st with sec := sec, data := .of name } name fun lset =>
        { lset with
          name := some name, ts := some (captured m .ts), data := some [], dataType := some [] }
  else if captured m .metricName ≠ [] then
    if st.sec ≠ .data then raise .runtimeError ("Unexpected data info: ".toList ++ l)
    else assignValue st (captured m .type) (captured m .metricName) (captured m .metricValue)
  else if captured m .preMetaKey ≠ [] then
    if st.sec ≠ .preMeta then raise .runtimeError ("Unexpected pre-meta info: ".toList ++ l)
    else pure st
  else raise .runtimeError ("Unable to process line: ".toList ++ l)

/-- One line. -/
def step (st : State F) (l : List Char) : Except PyError (State F) :=
  let l := Val.strip F l
  if l = [] then pure { st with data := .none }
  else
    match matchCaps (lsRe F) l with
    | none => raise .runtimeError ("Bad line format: ".toList ++ l)
    | some m => act st l m

/-- `parse_ldms_ls` -/
def parseLdmsLs (txt : List Char) : Except PyError (Dict (List Char) (SetDict F)) := do
  let st ← (splitlines txt).foldlM step (State.init F)
  pure st.ret

/-! ## The alternatives -/

inductive Kind where
  | preMeta | metaBegin | dashes | metaData | summary | metaEnd | header | data
  deriving DecidableEq

/-- The group that tells an alternative. -/
def Kind.key : Kind → Group
  | .preMeta => .preMetaKey
  | .metaBegin => .metaBegin
  | .dashes => .metaDashes
  | .metaData => .metaSchema
  | .summary => .metaTotalSets
  | .metaEnd => .metaEnd
  | .header => .setName
  | .data => .metricName

variable (F) in
def Kind.pattern : Kind → Regex Group
  | .preMeta => preMetaKV F
  | .metaBegin => Ls.metaBegin F
  | .dashes => metaDashes
  | .metaData => Ls.metaData F
  | .summary => metaSummary F
  | .metaEnd => Ls.metaEnd
  | .header => lsLHdr
  | .data => lsLData F

variable (F) in
/-- The first alternative that matches, with its captures. -/
def classify (l : List Char) : Option (Kind × Caps) :=
  [Kind.preMeta, .metaBegin, .dashes, .metaData, .summary, .metaEnd, .header, .data].findSome?
    fun kind => (matchCaps (kind.pattern F) l).map fun m => (kind, m)

theorem matchCaps_lsRe (l : List Char) :
    matchCaps (lsRe F) l = (classify F l).map Prod.snd := by
  simp only [lsRe, matchCaps_alt, classify, List.findSome?_cons, List.findSome?_nil, Kind.pattern]
  rcases matchCaps (preMetaKV F) l with _ | m <;>
    rcases matchCaps (Ls.metaBegin F) l with _ | m <;>
    rcases matchCaps metaDashes l with _ | m <;>
    rcases matchCaps (Ls.metaData F) l with _ | m <;>
    rcases matchCaps (metaSummary F) l with _ | m <;>
    rcases matchCaps Ls.metaEnd l with _ | m <;>
    rcases matchCaps lsLHdr l with _ | m <;>
    rcases matchCaps (lsLData F) l with _ | m <;> rfl

theorem must_key (kind : Kind) : (kind.pattern F).must kind.key := by
  cases kind <;> rfl

/-- The groups of an alternative. -/
def Kind.groups : Kind → List Group
  | .preMeta => [.preMetaKey, .preMetaVal]
  | .metaBegin => [.metaBegin]
  | .dashes => [.metaDashes]
  | .metaData => [.metaSchemaDigest, .metaSchema, .metaInst, .metaFlags, .metaMsize, .metaDsize,
      .metaHsize, .metaUid, .metaGid, .metaPerm, .metaUpdate, .metaDuration, .metaInfo]
  | .summary => [.metaTotalSets, .metaSz, .dataSz, .memSz]
  | .metaEnd => [.metaEnd]
  | .header => [.setName, .ts]
  | .data => [.flag, .type, .metricName, .metricValue]

theorem groups_pattern (kind : Kind) : (kind.pattern F).groups = kind.groups := by
  cases kind <;> rfl

theorem key_not_mem_groups {kind kind' : Kind} (h : kind' ≠ kind) :
    kind'.key ∉ (kind.pattern F).groups := by
  rw [groups_pattern]
  revert h
  cases kind <;> cases kind' <;> decide

theorem matchCaps_of_classify {l : List Char} {kind : Kind} {m : Caps}
    (h : classify F l = some (kind, m)) : matchCaps (kind.pattern F) l = some m := by
  obtain ⟨kind', -, hkind⟩ := List.exists_of_findSome?_eq_some h
  obtain ⟨m', hm, heq⟩ := Option.map_eq_some_iff.mp hkind
  obtain ⟨rfl, rfl⟩ := Prod.mk.inj heq
  exact hm

/-- The groups that tell the other alternatives are empty. -/
theorem captured_key {l : List Char} {kind : Kind} {m : Caps} (h : classify F l = some (kind, m))
    (kind' : Kind) : captured m kind'.key ≠ [] ↔ kind' = kind := by
  have hm := matchCaps_of_classify h
  constructor
  · intro hne
    by_contra hkinds
    exact hne (captured_matchCaps_of_not_mem hm (key_not_mem_groups hkinds))
  · rintro rfl
    exact captured_matchCaps_ne_nil hm (must_key kind')

/-- The alternatives that are tried before one. -/
def Kind.before : Kind → List Kind
  | .preMeta => []
  | .metaBegin => [.preMeta]
  | .dashes => [.preMeta, .metaBegin]
  | .metaData => [.preMeta, .metaBegin, .dashes]
  | .summary => [.preMeta, .metaBegin, .dashes, .metaData]
  | .metaEnd => [.preMeta, .metaBegin, .dashes, .metaData, .summary]
  | .header => [.preMeta, .metaBegin, .dashes, .metaData, .summary, .metaEnd]
  | .data => [.preMeta, .metaBegin, .dashes, .metaData, .summary, .metaEnd, .header]

theorem classify_of {l : List Char} {kind : Kind} {m : Caps}
    (hm : matchCaps (kind.pattern F) l = some m)
    (h : ∀ kind' ∈ kind.before, ¬ Matches (kind'.pattern F) l) : classify F l = some (kind, m) := by
  simp only [not_matches_iff] at h
  cases kind <;> simp only [Kind.before, List.forall_mem_cons] at h <;> simp [classify, hm, h]

/-- No alternative that is tried before matches. -/
theorem not_matches_of_classify {l : List Char} {kind : Kind} {m : Caps}
    (h : classify F l = some (kind, m)) : ∀ kind' ∈ kind.before, ¬ Matches (kind'.pattern F) l := by
  obtain ⟨before, kind₁, after, hkinds, hkind, hbefore⟩ := List.findSome?_eq_some_iff.mp h
  obtain ⟨m₁, -, heq⟩ := Option.map_eq_some_iff.mp hkind
  obtain ⟨rfl, rfl⟩ := Prod.mk.inj heq
  have hnodup : (before ++ kind₁ :: after).Nodup := hkinds ▸ by decide
  have hnot : kind₁ ∉ before := fun hmem =>
    (List.nodup_append.mp hnodup).2.2 _ hmem _ List.mem_cons_self rfl
  have heq : kind₁.before = before := by
    have htake : (before ++ kind₁ :: after).takeWhile (· ≠ kind₁) = before := by
      rw [List.takeWhile_append_of_pos fun kind hmem => by
        simpa using fun heq : kind = kind₁ => hnot (heq ▸ hmem)]
      simp
    rw [← htake, ← hkinds]
    cases kind₁ <;> rfl
  intro kind' hkind'
  rw [not_matches_iff]
  exact Option.map_eq_none_iff.mp (hbefore kind' (heq ▸ hkind'))

theorem exists_classify_of {l : List Char} (kind : Kind) (hm : Matches (kind.pattern F) l)
    (h : ∀ kind' ∈ kind.before, ¬ Matches (kind'.pattern F) l) :
    ∃ m, matchCaps (kind.pattern F) l = some m ∧ classify F l = some (kind, m) := by
  obtain ⟨m, hm⟩ := Option.isSome_iff_exists.mp hm
  exact ⟨m, hm, classify_of hm h⟩

/-- What a line of an alternative does. -/
def actKind (st : State F) (l : List Char) (m : Caps) : Kind → Except PyError (State F)
  | .preMeta =>
    if st.sec ≠ .preMeta then raise .runtimeError ("Unexpected pre-meta info: ".toList ++ l)
    else pure st
  | .metaBegin =>
    if st.sec ≠ .preMeta then raise .runtimeError ("Unexpected meta info: ".toList ++ l)
    else pure { st with sec := .metaData }
  | .dashes | .summary =>
    if st.sec ≠ .metaData then raise .runtimeError ("Unexpected meta info: ".toList ++ l)
    else pure st
  | .metaData =>
    if st.sec ≠ .metaData then raise .runtimeError ("Unexpected meta info: ".toList ++ l)
    else pure <| st.assign (captured m .metaInst) fun lset =>
      { lset with metaDict := some (setMeta m), name := some (captured m .metaInst) }
  | .metaEnd =>
    if st.sec ≠ .metaData then raise .runtimeError ("Unexpected meta info: ".toList ++ l)
    else pure { st with sec := .data }
  | .header =>
    if st.sec = .metaData then raise .runtimeError ("Unexpected data info: ".toList ++ l)
    else
      let name := captured m .setName
      pure <| State.assign { st with sec := .data, data := .of name } name fun lset =>
        { lset with
          name := some name, ts := some (captured m .ts), data := some [], dataType := some [] }
  | .data =>
    if st.sec ≠ .data then raise .runtimeError ("Unexpected data info: ".toList ++ l)
    else assignValue st (captured m .type) (captured m .metricName) (captured m .metricValue)

theorem act_eq {st : State F} {l : List Char} {kind : Kind} {m : Caps}
    (h : classify F l = some (kind, m)) : act st l m = actKind st l m kind := by
  have hkey := captured_key h
  have h1 := hkey .metaBegin
  have h2 := hkey .metaData
  have h3 := hkey .summary
  have h4 := hkey .dashes
  have h5 := hkey .metaEnd
  have h6 := hkey .header
  have h7 := hkey .data
  have h8 := hkey .preMeta
  simp only [Kind.key] at h1 h2 h3 h4 h5 h6 h7 h8
  unfold act
  simp only [h1, h2, h3, h4, h5, h6, h7, h8]
  cases kind <;> simp only [reduceCtorEq, if_true, if_false, actKind]
  case header => rcases hsec : st.sec with _ | _ | _ <;> simp

/-- **One line**, by its alternative. -/
theorem step_eq (st : State F) (l : List Char) :
    step st l =
      if Val.strip F l = [] then .ok { st with data := .none }
      else
        match classify F (Val.strip F l) with
        | none => raise .runtimeError ("Bad line format: ".toList ++ Val.strip F l)
        | some (kind, m) => actKind st (Val.strip F l) m kind := by
  simp only [step, matchCaps_lsRe]
  split
  · rfl
  · rcases h : classify F (Val.strip F l) with _ | ⟨kind, m⟩
    · rfl
    · exact act_eq h

theorem step_of_classify (st : State F) {l l' : List Char} (hl : Val.strip F l = l') (hne : l' ≠ [])
    {kind : Kind} {m : Caps} (h : classify F l' = some (kind, m)) :
    step st l = actKind st l' m kind := by
  subst hl
  rw [step_eq, if_neg hne, h]

theorem step_nil (st : State F) : step st [] = .ok { st with data := .none } := rfl

end Ls
end LdmsTest
