import LdmsTest.Docker.Create
import LdmsTest.Foundation.Commands
import LdmsTest.Python.Text
import LdmsTest.Spec.Init

/-!
# The configuration of `ldmsd`

`LDMS_Test.get_ldmsd_config` writes the spec of a daemon as commands, one line for each object of
five lists: a verb, and then the attributes of the object as `key=value` between blanks.  Between
`listen` and `advertisers` it writes the text of the samplers, and at the end the lines of
`config`.

Four of the five encoders write the attribute `name` first and pop it.  The encoder of
`prdcr_listen` writes it first without popping it, so it writes it twice.

* `getLdmsdConfig`: the text, or what the function raises.
* `Encodes`: a line from which the object can be read back.
* `Emits`: the text has one such line for each object, in the order of the sections and the
  lists.
* `emits_iff`: it does exactly when there is no object in `prdcr_listen`, the other objects
  have a name, and the keys have no blanks and no `=`.
-/

namespace LdmsTest.LdmsdConfig

open LdmsTest.Spec Dict
open SCluster (iterate)
open Val (Fields)

variable {F : Type} [PyText F]

/-! ## The source -/

/-- `Spec(spec)`: the items, and `self.VAR`. -/
def specObject (fuel : ℕ) (spec : Fields F) : Run PyError (Fields F × Env F) := do
  let dict ← Run.ofExcept (Val.deepCopyFields spec)
  let expanded ← startExpand fuel dict
  substItems fuel expanded (topScope expanded)

/-- `"".join([" {}={}".format(k, v) for k,v in d.items()])` -/
def attributes (d : Fields F) : String :=
  String.join (d.map fun p => " " ++ p.1 ++ "=" ++ p.2.toStr)

/-- `v.copy()` -/
def copy : Val F → Except PyError (Val F)
  | .dict d => pure (.dict d)
  | .list xs => pure (.list xs)
  | v => throw ⟨.attributeError, "'" ++ v.typeName ++ "' object has no attribute 'copy'"⟩

/-- `v.items()` -/
def items : Val F → Except PyError (Fields F)
  | .dict d => pure d
  | v => throw ⟨.attributeError, "'" ++ v.typeName ++ "' object has no attribute 'items'"⟩

/-- `v.pop("name")`, with `v` afterwards. -/
def popName : Val F → Except PyError (Val F × Val F)
  | .dict d => do
    let name ← Val.getItem d "name"
    pure (name, .dict (pop d "name"))
  | .list _ => throw ⟨.typeError, "'str' object cannot be interpreted as an integer"⟩
  | v => throw ⟨.attributeError, "'" ++ v.typeName ++ "' object has no attribute 'pop'"⟩

/-- A line with the name first and the other attributes after it. -/
def nameFirst (verb : String) (v : Val F) : Except PyError String := do
  let (name, v) ← popName v
  let d ← items v
  pure (verb ++ " name=" ++ name.toStr ++ attributes d ++ "\n")

/-- The line of an object of `auth`. -/
def authLine (auth : Val F) : Except PyError String := do
  let a ← copy auth
  nameFirst "auth_add" a

/-- The line of an object of `listen`. -/
def listenLine (listen : Val F) : Except PyError String := do
  let l ← copy listen
  let d ← items l
  pure ("listen " ++ attributes d ++ "\n")

/-- The line of an object of `advertisers`. -/
def advertiserLine (ad : Val F) : Except PyError String := do
  let ad ← ad.deepCopy
  nameFirst "advertiser_add" ad

/-- The line of an object of `prdcr_listen`, which keeps the name among the attributes. -/
def prdcrListenLine (pl : Val F) : Except PyError String := do
  let pl ← pl.deepCopy
  let name ← pl.subscript "name"
  let d ← items pl
  pure ("prdcr_listen_add name=" ++ name.toStr ++ attributes d ++ "\n")

/-- The line of an object of `prdcrs`. -/
def prdcrLine (prdcr : Val F) : Except PyError String := do
  let prdcr ← prdcr.deepCopy
  nameFirst "prdcr_add" prdcr

/-- `for x in spec.get(key, []): sio.write(...)` -/
def lines (spec : Fields F) (key : String) (line : Val F → Except PyError String) :
    Except PyError (List String) := do
  let objs ← iterate (Val.get spec key (.list []))
  objs.mapM line

/-- The text of `quota`. -/
def quotaText (spec : Fields F) : String :=
  let q := Val.get spec "quota" .none
  if q.truthy then "default_quota quota=" ++ q.toStr ++ "\n" else ""

/-- A string of `" ".join(...)` -/
def joined : Val F × ℕ → Except PyError String
  | (.str s, _) => pure s
  | (v, i) => throw ⟨.typeError, "sequence item " ++ toString i ++ ": expected str instance, " ++
      v.typeName ++ " found"⟩

/-- `" ".join(v)` -/
def joinBlank (v : Val F) : Except PyError String :=
  match iterate v with
  | .error _ => throw ⟨.typeError, "can only join an iterable"⟩
  | .ok xs => do
    let ss ← xs.zipIdx.mapM joined
    pure (" ".intercalate ss)

/-- `v if v == "" else "{key}={v}"`; the empty string is one object, so `is` tells the same. -/
def option (key : String) : Val F → String
  | .str "" => ""
  | v => key ++ "=" ++ v.toStr

/-- `ver and ver >= (4,100,0)` -/
def isVersion4100 (ver : Option (List ℕ)) : Bool :=
  ver.any fun v => [4, 100, 0] ≤ v

/-- The commands of a sampler, before the substitution. -/
def samplerCfg (ver : Option (List ℕ)) : Val F → Except PyError String
  | .dict samp => do
    let plugin ← Val.getItem samp "plugin"
    let plugin := plugin.toStr
    let interval := option "interval" (Val.get samp "interval" (.int 2000000))
    let offset := option "offset" (Val.get samp "offset" (.str ""))
    let xthread := option "exclusive_thread" (Val.get samp "exclusive_thread" (.str ""))
    let start := (Val.get samp "start" .none).truthy
    let config ← Val.getItem samp "config"
    let config ← joinBlank config
    if isVersion4100 ver then
      pure ("load name=" ++ plugin ++ "\n" ++
        "config name=" ++ plugin ++ " " ++ config ++ "\n" ++
        if start then
          "smplr_add name=" ++ plugin ++ "_smplr instance=" ++ plugin ++ " " ++
          "          " ++ interval ++ " " ++ offset ++ "\n" ++
          "smplr_start name=" ++ plugin ++ "_smplr\n"
        else "")
    else
      pure ("load name=" ++ plugin ++ "\n" ++
        "config name=" ++ plugin ++ " " ++ config ++ " " ++ xthread ++ "\n" ++
        if start then "start name=" ++ plugin ++ " " ++ interval ++ " " ++ offset ++ "\n" else "")
  | v => (fun _ => "") <$> v.subscript "plugin"

/-- The commands of a sampler. -/
def samplerText (fuel : ℕ) (var : Env F) (ver : Option (List ℕ)) (samp : Val F) :
    Run PyError String := do
  let cfg ← Run.ofExcept (samplerCfg ver samp)
  substStr fuel var cfg

/-- The text of `samplers`. -/
def samplersText (fuel : ℕ) (spec : Fields F) (var : Env F) (ver : Option (List ℕ)) :
    Run PyError String := do
  let samps ← Run.ofExcept (iterate (Val.get spec "samplers" (.list [])))
  let texts ← samps.mapM (samplerText fuel var ver)
  pure (String.join texts)

/-- `sio.write(x)` and `sio.write("\n")` -/
def writeLine : Val F → Except PyError String
  | .str s => pure (s ++ "\n")
  | v => throw ⟨.typeError, "string argument expected, got '" ++ v.typeName ++ "'"⟩

/-- The text of `config`. -/
def configText (spec : Fields F) : Except PyError String :=
  let cfg := Val.get spec "config" .none
  if cfg.truthy then do
    let xs ← iterate cfg
    let texts ← xs.mapM writeLine
    pure (String.join texts)
  else pure ""

/-- `get_ldmsd_config(_spec, ver)` -/
def getLdmsdConfig (fuel : ℕ) (spec : Fields F) (ver : Option (List ℕ)) :
    Run PyError String := do
  let (spec, var) ← specObject fuel spec
  let auth ← Run.ofExcept (lines spec "auth" authLine)
  let listen ← Run.ofExcept (lines spec "listen" listenLine)
  let samplers ← samplersText fuel spec var ver
  let advertisers ← Run.ofExcept (lines spec "advertisers" advertiserLine)
  let prdcrListen ← Run.ofExcept (lines spec "prdcr_listen" prdcrListenLine)
  let prdcrs ← Run.ofExcept (lines spec "prdcrs" prdcrLine)
  let config ← Run.ofExcept (configText spec)
  pure (quotaText spec ++ String.join auth ++ String.join listen ++ samplers ++
    String.join advertisers ++ String.join prdcrListen ++ String.join prdcrs ++ config)

/-! ## What the text should be -/

/-- The lists whose objects are written as lines. -/
inductive Section where
  | auth
  | listen
  | advertisers
  | prdcrListen
  | prdcrs
  deriving DecidableEq

/-- The key of the list in the spec. -/
def Section.key : Section → String
  | .auth => "auth"
  | .listen => "listen"
  | .advertisers => "advertisers"
  | .prdcrListen => "prdcr_listen"
  | .prdcrs => "prdcrs"

/-- The command that the objects are written as. -/
def Section.verb : Section → String
  | .auth => "auth_add"
  | .listen => "listen"
  | .advertisers => "advertiser_add"
  | .prdcrListen => "prdcr_listen_add"
  | .prdcrs => "prdcr_add"

/-- `key=value` -/
def token (p : String × Val F) : List Char :=
  Commands.token (p.1.toList, p.2.toStr.toList)

/-- **The line of an object**: one line with the verb and then, in some order, each attribute
once as `key=value`, so that splitting the words gives the attributes back. -/
structure Encodes (verb : String) (d : Fields F) (line : String) : Prop where
  isLine : IsLine '\n' line.toList
  words : ∃ tokens, splitWords (PyRuntime.space F) line.toList = verb.toList :: tokens ∧
    tokens.Perm (d.map token) ∧
    (tokens.map Commands.readToken).Perm (d.map fun p => (p.1.toList, p.2.toStr.toList))

/-- The objects of some sections, in the order of the sections and the lists. -/
def commands (objs : Section → List (Fields F)) (ss : List Section) :
    List (Section × Fields F) :=
  ss.flatMap fun s => (objs s).map (s, ·)

/-- The lists of the spec are lists of these objects. -/
def Lists (spec : Fields F) (objs : Section → List (Fields F)) : Prop :=
  ∀ s : Section, iterate (Val.get spec s.key (.list [])) = .ok ((objs s).map .dict)

/-- **One line for each object**: the text has the lines of the objects of `auth` and `listen`
before the text of the samplers, and the lines of the others between it and the text of
`config`. -/
def Emits (spec : Fields F) (var : Env F) (ver : Option (List ℕ)) (text : String) : Prop :=
  ∃ objs samplers config before after, Lists spec objs ∧
    Returns (fun n => samplersText n spec var ver) samplers ∧ configText spec = .ok config ∧
    List.Forall₂ (fun c l => Encodes c.1.verb c.2 l) (commands objs [.auth, .listen]) before ∧
    List.Forall₂ (fun c l => Encodes c.1.verb c.2 l)
      (commands objs [.advertisers, .prdcrListen, .prdcrs]) after ∧
    text = quotaText spec ++ String.join before ++ samplers ++ String.join after ++ config

/-- A text without blanks. -/
def Plain (F : Type) [PyRuntime F] (s : String) : Prop :=
  ∀ c ∈ s.toList, PyRuntime.space F c = false

/-- The values of the objects are free of blanks. -/
def PlainValues (spec : Fields F) : Prop :=
  ∀ objs, Lists spec objs → ∀ s, ∀ d ∈ objs s, ∀ p ∈ d, Plain F p.2.toStr

/-- **The specs that are written as documented.**  The samplers and the lines of `config` can be
written; the five lists are lists of objects, with none in `prdcr_listen`, with a name in every
object outside `listen`, and with keys that have no blanks and no `=`. -/
structure Encodable (spec : Fields F) (var : Env F) (ver : Option (List ℕ)) : Prop where
  samplers : ∃ samplers, Returns (fun n => samplersText n spec var ver) samplers
  config : ∃ config, configText spec = .ok config
  objects : ∃ objs, Lists spec objs ∧ objs .prdcrListen = [] ∧
    (∀ s, s ≠ .listen → ∀ d ∈ objs s, "name" ∈ keys d) ∧
    ∀ s, ∀ d ∈ objs s, ∀ k ∈ keys d, Plain F k ∧ '=' ∉ k.toList

/-! ## The line of an object -/

/-- The encoder of a section. -/
def Section.line : Section → Val F → Except PyError String
  | .auth => authLine
  | .listen => listenLine
  | .advertisers => advertiserLine
  | .prdcrListen => prdcrListenLine
  | .prdcrs => prdcrLine

/-- The attributes that the encoder writes, in order. -/
def written (s : Section) (d : Fields F) : Option (Fields F) :=
  match s with
  | .listen => some d
  | .prdcrListen => (get? d "name").map fun name => ("name", name) :: d
  | _ => (get? d "name").map fun name => ("name", name) :: pop d "name"

/-- The line with these attributes. -/
def lineOf (s : Section) (items : Fields F) : String :=
  (if s = .listen then "listen " else s.verb) ++ attributes items ++ "\n"

theorem attributes_cons (p : String × Val F) (d : Fields F) :
    attributes (p :: d) = " " ++ p.1 ++ "=" ++ p.2.toStr ++ attributes d := by
  rw [attributes, List.map_cons, String.join_cons]
  rfl

theorem attributes_name (name : Val F) (d : Fields F) :
    attributes (("name", name) :: d) = " name=" ++ name.toStr ++ attributes d := by
  rw [attributes_cons]
  rfl

theorem toList_attributes (d : Fields F) :
    (attributes d).toList = d.flatMap fun p => ' ' :: token p := by
  rw [attributes, String.toList_join, List.flatMap_map]
  refine List.flatMap_congr fun p _ => ?_
  simp [token, Commands.token]

theorem nameFirst_dict_eq_ok_iff {verb l : String} {d : Fields F} :
    nameFirst verb (.dict d) = .ok l ↔
      ∃ items, ((get? d "name").map fun name => ("name", name) :: pop d "name") = some items ∧
        l = verb ++ attributes items ++ "\n" := by
  cases hname : get? d "name" with
  | none =>
    have hline : nameFirst verb (.dict d) = .error ⟨.keyError, "'name'"⟩ := by
      simp only [nameFirst, popName, Val.getItem, hname]
      rfl
    rw [hline]
    simp
  | some name =>
    have hline : nameFirst verb (.dict d) =
        .ok (verb ++ attributes (("name", name) :: pop d "name") ++ "\n") := by
      simp only [nameFirst, popName, Val.getItem, hname, attributes_name, ← String.append_assoc]
      rfl
    rw [hline]
    simp [eq_comm]

theorem prdcrListenLine_dict_eq_ok_iff {l : String} {d : Fields F} (hd : (Val.dict d).WF) :
    prdcrListenLine (.dict d) = .ok l ↔
      ∃ items, ((get? d "name").map fun name => ("name", name) :: d) = some items ∧
        l = "prdcr_listen_add" ++ attributes items ++ "\n" := by
  cases hname : get? d "name" with
  | none =>
    have hline : prdcrListenLine (.dict d) = .error ⟨.keyError, "'name'"⟩ := by
      simp only [prdcrListenLine, hd.deepCopy_eq, ok_bind, Val.subscript, Val.getItem, hname]
      rfl
    rw [hline]
    simp
  | some name =>
    have hline : prdcrListenLine (.dict d) =
        .ok ("prdcr_listen_add" ++ attributes (("name", name) :: d) ++ "\n") := by
      simp only [prdcrListenLine, hd.deepCopy_eq, ok_bind, Val.subscript, Val.getItem, hname,
        attributes_name, ← String.append_assoc]
      rfl
    rw [hline]
    simp [eq_comm]

/-- **What the encoders write.** -/
theorem line_dict_eq_ok_iff {s : Section} {d : Fields F} (hd : (Val.dict d).WF) {l : String} :
    s.line (.dict d) = .ok l ↔ ∃ items, written s d = some items ∧ l = lineOf s items := by
  cases s with
  | auth => exact nameFirst_dict_eq_ok_iff
  | listen =>
    have hline : listenLine (.dict d) = .ok ("listen " ++ attributes d ++ "\n") := rfl
    rw [Section.line, hline]
    simp [written, lineOf, eq_comm]
  | advertisers =>
    simp only [Section.line, advertiserLine, hd.deepCopy_eq, ok_bind]
    exact nameFirst_dict_eq_ok_iff
  | prdcrListen => exact prdcrListenLine_dict_eq_ok_iff hd
  | prdcrs =>
    simp only [Section.line, prdcrLine, hd.deepCopy_eq, ok_bind]
    exact nameFirst_dict_eq_ok_iff

/-! ## Reading a line -/

theorem space_blank : PyRuntime.space F ' ' = true :=
  (PyText.space_ascii (F := F) ' ' (by decide)).trans (by decide)

theorem space_newline : PyRuntime.space F '\n' = true :=
  (PyText.space_ascii (F := F) '\n' (by decide)).trans (by decide)

theorem space_equals : PyRuntime.space F '=' = false :=
  (PyText.space_ascii (F := F) '=' (by decide)).trans (by decide)

theorem not_space_token {p : String × Val F} (hk : Plain F p.1) (hv : Plain F p.2.toStr) :
    ∀ c ∈ token p, PyRuntime.space F c = false := by
  intro c hc
  rcases List.mem_append.mp hc with hc | hc
  · exact hk c hc
  · rcases List.mem_cons.mp hc with rfl | hc
    · exact space_equals
    · exact hv c hc

/-- The words of a line: those before the attributes, and one for each attribute. -/
theorem splitWords_attributes : ∀ {d : Fields F},
    (∀ p ∈ d, Plain F p.1 ∧ Plain F p.2.toStr) → ∀ cs : List Char,
    splitWords (PyRuntime.space F) (cs ++ ((attributes d).toList ++ ['\n'])) =
      splitWords (PyRuntime.space F) cs ++ d.map token
  | [], _, cs => by
    rw [toList_attributes, List.flatMap_nil, List.nil_append,
      splitWords_append_cons space_newline, splitWords_nil, List.map_nil]
  | p :: d, h, cs => by
    obtain ⟨hk, hv⟩ := h p List.mem_cons_self
    have ih := splitWords_attributes (fun q hq => h q (List.mem_cons_of_mem _ hq)) (token p)
    have hne : token p ≠ [] := by simp [token, Commands.token]
    rw [toList_attributes] at ih
    rw [toList_attributes, List.flatMap_cons, List.cons_append, List.cons_append,
      splitWords_append_cons space_blank, List.append_assoc, ih,
      splitWords_eq_singleton (not_space_token hk hv) hne, List.map_cons, List.singleton_append]

theorem not_space_verb (s : Section) : ∀ c ∈ s.verb.toList, PyRuntime.space F c = false := by
  have hascii : (s.verb.toList.all fun c => c.toNat < 128 && !isAsciiSpace c) = true := by
    cases s <;> rfl
  intro c hc
  have hc := List.all_eq_true.mp hascii c hc
  rw [Bool.and_eq_true, Bool.not_eq_true', decide_eq_true_eq] at hc
  rw [PyText.space_ascii c hc.1, hc.2]

/-- The words of a line of a section. -/
theorem splitWords_lineOf {s : Section} {d : Fields F}
    (h : ∀ p ∈ d, Plain F p.1 ∧ Plain F p.2.toStr) :
    splitWords (PyRuntime.space F) (lineOf s d).toList = s.verb.toList :: d.map token := by
  have hverb : splitWords (PyRuntime.space F) s.verb.toList = [s.verb.toList] :=
    splitWords_eq_singleton (not_space_verb s) (by cases s <;> decide)
  rw [lineOf, String.toList_append, String.toList_append, List.append_assoc,
    show "\n".toList = ['\n'] from rfl, splitWords_attributes h]
  split
  · next hs =>
    rw [hs] at hverb ⊢
    rw [show "listen ".toList = Section.listen.verb.toList ++ ' ' :: [] from rfl,
      splitWords_append_cons space_blank, hverb, splitWords_nil]
    rfl
  · rw [hverb]
    rfl

theorem exists_body_lineOf (s : Section) (d : Fields F) :
    ∃ body, (lineOf s d).toList = body ++ ['\n'] :=
  ⟨_, by rw [lineOf, String.toList_append]; rfl⟩

theorem isLine_lineOf {s : Section} {d : Fields F}
    (h : ∀ p ∈ d, Plain F p.1 ∧ Plain F p.2.toStr) : IsLine '\n' (lineOf s d).toList := by
  refine ⟨(if s = .listen then "listen " else s.verb).toList ++ (attributes d).toList, ?_, ?_⟩
  · rw [lineOf, String.toList_append, String.toList_append]
    rfl
  · rw [List.mem_append, not_or, toList_attributes]
    constructor
    · cases s <;> decide
    · intro hmem
      obtain ⟨p, hp, hc⟩ := List.mem_flatMap.mp hmem
      rcases List.mem_cons.mp hc with hc | hc
      · cases hc
      · have hnot := not_space_token (h p hp).1 (h p hp).2 _ hc
        rw [space_newline] at hnot
        cases hnot

omit [PyText F] in
/-- The encoders that pop the name write each attribute once. -/
theorem perm_of_written {s : Section} {d items : Fields F} (hd : (Val.dict d).WF)
    (hs : s ≠ .prdcrListen) (hw : written s d = some items) : items.Perm d := by
  have hpop (h : ((get? d "name").map fun name => ("name", name) :: pop d "name") = some items) :
      items.Perm d := by
    obtain ⟨name, hname, rfl⟩ := Option.map_eq_some_iff.mp h
    obtain ⟨pre, post, hsplit, hpop, -⟩ := exists_split_of_get? hd.nodup_keys hname
    rw [hpop, hsplit]
    exact List.perm_middle.symm
  cases s with
  | listen => rw [← Option.some_inj.mp hw]
  | prdcrListen => exact absurd rfl hs
  | auth | advertisers | prdcrs => exact hpop hw

/-- **The encoders that pop the name** write lines from which the objects can be read. -/
theorem encodes_of_written {s : Section} {d items : Fields F} (hd : (Val.dict d).WF)
    (hs : s ≠ .prdcrListen) (hkeys : ∀ k ∈ keys d, Plain F k ∧ '=' ∉ k.toList)
    (hvals : ∀ p ∈ d, Plain F p.2.toStr) (hw : written s d = some items) :
    Encodes s.verb d (lineOf s items) := by
  have hperm := perm_of_written hd hs hw
  have hplain : ∀ p ∈ items, Plain F p.1 ∧ Plain F p.2.toStr := fun p hp =>
    have hp := hperm.mem_iff.mp hp
    ⟨(hkeys p.1 (List.mem_map_of_mem hp)).1, hvals p hp⟩
  refine ⟨isLine_lineOf hplain, items.map token, splitWords_lineOf hplain, hperm.map _, ?_⟩
  rw [List.map_map]
  refine (List.Perm.of_eq (List.map_congr_left fun p hp => ?_)).trans (hperm.map _)
  exact Commands.readToken_token (hkeys p.1 (List.mem_map_of_mem (hperm.mem_iff.mp hp))).2

/-- An object can be read from a line only if its keys are words without `=`. -/
theorem Encodes.keys {verb line : String} {d : Fields F} (h : Encodes verb d line) :
    ∀ k ∈ keys d, Plain F k ∧ '=' ∉ k.toList := by
  obtain ⟨-, tokens, hwords, -, hsplit⟩ := h
  intro k hk
  obtain ⟨p, hp, rfl⟩ := List.mem_map.mp hk
  obtain ⟨t, ht, heq⟩ := List.mem_map.mp (hsplit.mem_iff.mpr (List.mem_map_of_mem hp))
  have hkey : p.1.toList = t.takeWhile (· ≠ '=') := (Prod.ext_iff.mp heq).1.symm
  have hword : t ∈ splitWords (PyRuntime.space F) line.toList := hwords ▸ List.mem_cons_of_mem _ ht
  refine ⟨fun c hc => ?_, fun hc => ?_⟩
  · rw [hkey] at hc
    exact forall_of_mem_splitWords hword c ((List.takeWhile_prefix _).subset hc)
  · rw [hkey] at hc
    have hne : decide ('=' ≠ '=') = true := List.mem_takeWhile_imp (p := (· ≠ '=')) hc
    exact absurd rfl (of_decide_eq_true hne)

/-- **The encoder of `prdcr_listen`** writes one attribute too many. -/
theorem not_encodes_prdcrListen {d items : Fields F} (hvals : ∀ p ∈ d, Plain F p.2.toStr)
    (hw : written .prdcrListen d = some items) :
    ¬ Encodes Section.prdcrListen.verb d (lineOf .prdcrListen items) := by
  intro h
  have hkeys := h.keys
  obtain ⟨name, hname, rfl⟩ := Option.map_eq_some_iff.mp hw
  have hplain : ∀ p ∈ ("name", name) :: d, Plain F p.1 ∧ Plain F p.2.toStr := by
    have hd : ∀ p ∈ d, Plain F p.1 ∧ Plain F p.2.toStr := fun p hp =>
      ⟨(hkeys p.1 (List.mem_map_of_mem hp)).1, hvals p hp⟩
    exact List.forall_mem_cons.mpr ⟨hd _ (mem_of_get? hname), hd⟩
  obtain ⟨-, tokens, hwords, hperm, -⟩ := h
  rw [splitWords_lineOf hplain, List.cons.injEq] at hwords
  have hlen := hperm.length_eq
  rw [← hwords.2, List.length_map, List.length_map, List.length_cons] at hlen
  omega

/-! ## The lines of a section -/

section Lines

variable {spec r : Fields F} {var : Env F} {ver : Option (List ℕ)}
  {objs : Section → List (Fields F)}

omit [PyText F] in
theorem wf_of_mem_iterate {v : Val F} (hv : v.WF) {xs : List (Val F)} (h : iterate v = .ok xs) :
    ∀ x ∈ xs, x.WF := by
  cases v with
  | none | bool | int | float => cases h
  | list ys =>
    cases h
    exact hv.mem_list
  | tuple ys =>
    cases h
    exact hv.mem_tuple
  | dict d =>
    cases h
    intro x hx
    obtain ⟨k, -, rfl⟩ := List.mem_map.mp hx
    exact .primitive rfl
  | str s =>
    cases h
    intro x hx
    obtain ⟨c, -, rfl⟩ := List.mem_map.mp hx
    exact .primitive rfl

omit [PyText F] in
/-- The objects of a well-formed spec are well formed. -/
theorem Lists.wf (h : Lists r objs) (hr : (Val.dict r).WF) (s : Section) :
    ∀ d ∈ objs s, (Val.dict d).WF := by
  have hget : (Val.get r s.key (.list [])).WF := by
    rw [Val.get]
    cases hv : get? r s.key with
    | none => exact .list nofun
    | some v => exact hr.of_get? hv
  exact fun d hd => wf_of_mem_iterate hget (h s) _ (List.mem_map_of_mem hd)

omit [PyText F] in
/-- The objects of a spec are determined. -/
theorem Lists.unique {objs' : Section → List (Fields F)} (h : Lists r objs)
    (h' : Lists r objs') : objs = objs' := by
  funext s
  have hinj := List.map_injective_iff.mpr fun _ _ => Val.dict.inj (F := F)
  exact hinj (Except.ok.inj ((h s).symm.trans (h' s)))

/-- The lines that the encoder of a section writes. -/
theorem lines_eq_ok_iff (h : Lists r objs) (hr : (Val.dict r).WF) {s : Section}
    {ls : List String} : lines r s.key s.line = .ok ls ↔
      List.Forall₂ (fun d l => ∃ items, written s d = some items ∧ l = lineOf s items)
        (objs s) ls := by
  rw [lines, h s, ok_bind, mapM_eq_ok_iff, List.forall₂_map_left_iff]
  constructor
  · intro hls
    exact ((List.forall₂_and_left _ _).mpr ⟨h.wf hr s, hls⟩).imp fun d l hdl =>
      (line_dict_eq_ok_iff hdl.1).mp hdl.2
  · intro hls
    exact ((List.forall₂_and_left _ _).mpr ⟨h.wf hr s, hls⟩).imp fun d l hdl =>
      (line_dict_eq_ok_iff hdl.1).mpr hdl.2

omit [PyText F] in
/-- Each object of some sections, with its line. -/
theorem forall₂_commands {R : Section → Fields F → String → Prop} {ls : Section → List String} :
    ∀ ss : List Section, (∀ s ∈ ss, List.Forall₂ (R s) (objs s) (ls s)) →
      List.Forall₂ (fun c l => R c.1 c.2 l) (commands objs ss) (ss.flatMap ls)
  | [], _ => .nil
  | s :: ss, h => by
    rw [commands, List.flatMap_cons, List.flatMap_cons]
    refine List.rel_append ?_ (forall₂_commands ss fun t ht => h t (List.mem_cons_of_mem _ ht))
    exact List.forall₂_map_left_iff.mpr (h s List.mem_cons_self)

omit [PyText F] in
theorem mem_commands {c : Section × Fields F} {ss : List Section} :
    c ∈ commands objs ss ↔ c.1 ∈ ss ∧ c.2 ∈ objs c.1 := by
  obtain ⟨s, d⟩ := c
  simp [commands, List.mem_flatMap]

/-- The object of a `Spec` that the constructor returns. -/
theorem wf_of_returns_specObject (hspec : (Val.dict spec).Keyed)
    (hr : Returns (fun n => specObject n spec) (r, var)) : (Val.dict r).WF := by
  refine wf_of_returns hspec ?_
  have hmap := hr.map Prod.fst
  simpa only [specObject, specInit, startSubst, map_bind, bind_pure_comp] using hmap

/-- **The parts of the text** that the function returns. -/
theorem exists_of_returns {text : String} (hr : Returns (fun n => specObject n spec) (r, var))
    (h : Returns (fun n => getLdmsdConfig n spec ver) text) :
    ∃ (ls : Section → List String) (samplers config : String),
      (∀ s : Section, lines r s.key s.line = .ok (ls s)) ∧
      (∃ n, (samplersText n r var ver).run = some (.ok samplers)) ∧
      configText r = .ok config ∧
      text = quotaText r ++ String.join ([.auth, .listen].flatMap ls) ++ samplers ++
        String.join ([.advertisers, .prdcrListen, .prdcrs].flatMap ls) ++ config := by
  obtain ⟨n, hn⟩ := h.exists_run
  obtain ⟨⟨r', var'⟩, hobj, hn⟩ := Run.exists_of_run_bind_ok hn
  cases hr.eq_of_run hobj
  obtain ⟨auth, hauth, hn⟩ := Run.exists_of_run_bind_ok hn
  obtain ⟨listen, hlisten, hn⟩ := Run.exists_of_run_bind_ok hn
  obtain ⟨samplers, hsamplers, hn⟩ := Run.exists_of_run_bind_ok hn
  obtain ⟨advertisers, hadvertisers, hn⟩ := Run.exists_of_run_bind_ok hn
  obtain ⟨prdcrListen, hprdcrListen, hn⟩ := Run.exists_of_run_bind_ok hn
  obtain ⟨prdcrs, hprdcrs, hn⟩ := Run.exists_of_run_bind_ok hn
  obtain ⟨config, hconfig, hn⟩ := Run.exists_of_run_bind_ok hn
  refine ⟨fun
    | .auth => auth
    | .listen => listen
    | .advertisers => advertisers
    | .prdcrListen => prdcrListen
    | .prdcrs => prdcrs, samplers, config, fun s => ?_, ⟨n, hsamplers⟩,
    Run.eq_of_run_ofExcept hconfig, ?_⟩
  · cases s with
    | auth => exact Run.eq_of_run_ofExcept hauth
    | listen => exact Run.eq_of_run_ofExcept hlisten
    | advertisers => exact Run.eq_of_run_ofExcept hadvertisers
    | prdcrListen => exact Run.eq_of_run_ofExcept hprdcrListen
    | prdcrs => exact Run.eq_of_run_ofExcept hprdcrs
  · cases hn
    simp only [List.flatMap_cons, List.flatMap_nil, List.append_nil, String.join_append,
      String.append_assoc]

/-- **The parts put together**: when each can be written, so can the text. -/
theorem returns_of_parts {ls : Section → List String} {samplers config : String}
    (hr : Returns (fun n => specObject n spec) (r, var))
    (hls : ∀ s : Section, lines r s.key s.line = .ok (ls s))
    (hsamplers : Returns (fun n => samplersText n r var ver) samplers)
    (hconfig : configText r = .ok config) :
    Returns (fun n => getLdmsdConfig n spec ver)
      (quotaText r ++ String.join ([.auth, .listen].flatMap ls) ++ samplers ++
        String.join ([.advertisers, .prdcrListen, .prdcrs].flatMap ls) ++ config) := by
  have hauth : lines r "auth" authLine = .ok (ls .auth) := hls .auth
  have hlisten : lines r "listen" listenLine = .ok (ls .listen) := hls .listen
  have hadvertisers : lines r "advertisers" advertiserLine = .ok (ls .advertisers) :=
    hls .advertisers
  have hprdcrListen : lines r "prdcr_listen" prdcrListenLine = .ok (ls .prdcrListen) :=
    hls .prdcrListen
  have hprdcrs : lines r "prdcrs" prdcrLine = .ok (ls .prdcrs) := hls .prdcrs
  simp only [List.flatMap_cons, List.flatMap_nil, List.append_nil, String.join_append,
    ← String.append_assoc]
  refine hr.bind ?_
  simp only [hauth, hlisten, Run.ofExcept_ok, pure_bind]
  refine hsamplers.bind ?_
  simp only [hadvertisers, hprdcrListen, hprdcrs, hconfig, Run.ofExcept_ok, pure_bind]
  exact returns_pure _

end Lines

/-! ## When the text is as documented -/

section Documented

variable {spec r : Fields F} {var : Env F} {ver : Option (List ℕ)}

/-- A line from which its object can be read, among the lines that are written. -/
theorem exists_encodes {objs : Section → List (Fields F)} {ss : List Section}
    {ls : Section → List String}
    (hw : ∀ s, List.Forall₂ (fun d l => ∃ items, written s d = some items ∧ l = lineOf s items)
      (objs s) (ls s))
    (he : List.Forall₂ (fun c l => Encodes c.1.verb c.2 l) (commands objs ss) (ss.flatMap ls)) :
    ∀ s ∈ ss, ∀ d ∈ objs s,
      ∃ items, written s d = some items ∧ Encodes s.verb d (lineOf s items) := by
  intro s hs d hd
  have hwritten := forall₂_commands ss fun s _ => hw s
  obtain ⟨i, hi⟩ := List.getElem?_of_mem (mem_commands (c := (s, d)).mpr ⟨hs, hd⟩)
  obtain ⟨l, hl, hdl⟩ := exists_right_of_forall₂ he hi
  obtain ⟨items, hitems, rfl⟩ := getElem?_of_forall₂ hwritten i _ l hi hl
  exact ⟨items, hitems, hdl⟩

/-- The lines that are written end in a newline. -/
theorem exists_body_of_mem {objs : Section → List (Fields F)} {ss : List Section}
    {ls : Section → List String}
    (hw : ∀ s, List.Forall₂ (fun d l => ∃ items, written s d = some items ∧ l = lineOf s items)
      (objs s) (ls s)) :
    ∀ l ∈ (ss.flatMap ls).map String.toList, ∃ body, l = body ++ ['\n'] := by
  intro l hl
  obtain ⟨line, hline, rfl⟩ := List.mem_map.mp hl
  obtain ⟨s, -, hs⟩ := List.mem_flatMap.mp hline
  obtain ⟨i, hi⟩ := List.getElem?_of_mem hs
  obtain ⟨d, -, items, -, rfl⟩ := exists_left_of_forall₂ (hw s) hi
  exact exists_body_lineOf s items

/-- Lines from which objects can be read are lines. -/
theorem isLine_of_forall₂ {cs : List (Section × Fields F)} {ls : List String}
    (h : List.Forall₂ (fun c l => Encodes c.1.verb c.2 l) cs ls) :
    ∀ l ∈ ls.map String.toList, IsLine '\n' l := by
  intro l hl
  obtain ⟨line, hline, rfl⟩ := List.mem_map.mp hl
  obtain ⟨i, hi⟩ := List.getElem?_of_mem hline
  obtain ⟨c, -, hc⟩ := exists_left_of_forall₂ h hi
  exact hc.isLine

/-- **A documented text** has the lines that are written, since there are as many. -/
theorem exists_encodes_of_emits {text : String} (hwf : (Val.dict r).WF)
    (hr : Returns (fun n => specObject n spec) (r, var))
    (hret : Returns (fun n => getLdmsdConfig n spec ver) text) (h : Emits r var ver text) :
    ∃ objs, Lists r objs ∧ ∀ s, ∀ d ∈ objs s,
      ∃ items, written s d = some items ∧ Encodes s.verb d (lineOf s items) := by
  obtain ⟨objs, samplers, config, before, after, hlists, hsamplers, hconfig, hbefore, hafter,
    htext⟩ := h
  obtain ⟨ls, samplers', config', hls, ⟨n, hn⟩, hconfig', htext'⟩ := exists_of_returns hr hret
  obtain rfl : samplers' = samplers := Except.ok.inj (hsamplers.eq_of_run hn)
  obtain rfl : config' = config := Except.ok.inj (hconfig'.symm.trans hconfig)
  have hw := fun s => (lines_eq_ok_iff hlists hwf (s := s)).mp (hls s)
  have hlen (ss : List Section) {m : List String}
      (hm : List.Forall₂ (fun c l => Encodes c.1.verb c.2 l) (commands objs ss) m) :
      ((ss.flatMap ls).map String.toList).length = (m.map String.toList).length := by
    rw [List.length_map, List.length_map, ← hm.length_eq,
      (forall₂_commands ss fun s _ => hw s).length_eq]
  have heq := congrArg String.toList (htext'.symm.trans htext)
  simp only [String.toList_append, String.toList_join, List.append_assoc, List.flatMap_def] at heq
  obtain ⟨hb, ha⟩ := eq_of_blocks (exists_body_of_mem hw) (exists_body_of_mem hw)
    (isLine_of_forall₂ hbefore) (isLine_of_forall₂ hafter) (hlen _ hbefore) (hlen _ hafter)
    (List.append_cancel_left heq)
  have hinj := List.map_injective_iff.mpr fun _ _ => String.toList_inj.mp
  obtain rfl := hinj hb
  obtain rfl := hinj ha
  refine ⟨objs, hlists, fun s => ?_⟩
  by_cases hs : s ∈ [.auth, .listen]
  · exact exists_encodes hw hbefore s hs
  · exact exists_encodes hw hafter s (by cases s <;> simp at hs ⊢)

/-- **Written as documented.** -/
theorem exists_emits (hwf : (Val.dict r).WF)
    (hr : Returns (fun n => specObject n spec) (r, var)) (hvals : PlainValues r)
    (h : Encodable r var ver) :
    ∃ text, Returns (fun n => getLdmsdConfig n spec ver) text ∧ Emits r var ver text := by
  obtain ⟨⟨samplers, hsamplers⟩, ⟨config, hconfig⟩, objs, hlists, hnone, hnames, hkeys⟩ := h
  have hencodes : ∀ s, ∀ d ∈ objs s, ∃ l, (∃ items, written s d = some items ∧
      l = lineOf s items) ∧ Encodes s.verb d l := by
    intro s d hd
    have hs : s ≠ .prdcrListen := by
      rintro rfl
      rw [hnone] at hd
      cases hd
    have hd' := hlists.wf hwf s d hd
    obtain ⟨items, hitems⟩ : ∃ items, written s d = some items := by
      cases s with
      | listen => exact ⟨d, rfl⟩
      | prdcrListen => exact absurd rfl hs
      | auth | advertisers | prdcrs =>
        obtain ⟨name, hname⟩ :=
          Option.isSome_iff_exists.mp (isSome_get?_iff.mpr (hnames _ (by simp) d hd))
        exact ⟨_, Option.map_eq_some_iff.mpr ⟨name, hname, rfl⟩⟩
    exact ⟨_, ⟨items, hitems, rfl⟩,
      encodes_of_written hd' hs (hkeys s d hd) (hvals objs hlists s d hd) hitems⟩
  choose ls hls using fun s => exists_forall₂ (hencodes s)
  have hlines := fun s : Section => (lines_eq_ok_iff hlists hwf).mpr ((hls s).imp fun _ _ h => h.1)
  exact ⟨_, returns_of_parts hr hlines hsamplers hconfig, objs, samplers, config, _, _, hlists,
    hsamplers, hconfig, forall₂_commands _ fun s _ => (hls s).imp fun _ _ h => h.2,
    forall₂_commands _ fun s _ => (hls s).imp fun _ _ h => h.2, rfl⟩

/-- **When the text is as documented.**  For a spec that `Spec()` accepts, with values free of
blanks, the function returns a text with one line for each object, in the order of the sections
and of the lists, from which the objects can be read back, exactly when the samplers and
`config` can be written, the five lists are lists of objects, `prdcr_listen` has none, the
objects outside `listen` have a name, and no key has a blank or a `=`. -/
theorem emits_iff (hspec : (Val.dict spec).Keyed)
    (hr : Returns (fun n => specObject n spec) (r, var)) (hvals : PlainValues r) :
    (∃ text, Returns (fun n => getLdmsdConfig n spec ver) text ∧ Emits r var ver text) ↔
      Encodable r var ver := by
  have hwf := wf_of_returns_specObject hspec hr
  refine ⟨?_, exists_emits hwf hr hvals⟩
  rintro ⟨text, hret, hemits⟩
  obtain ⟨objs, hlists, henc⟩ := exists_encodes_of_emits hwf hr hret hemits
  obtain ⟨-, samplers, config, -, -, -, hsamplers, hconfig, -⟩ := hemits
  refine ⟨⟨samplers, hsamplers⟩, ⟨config, hconfig⟩, objs, hlists, ?_, fun s hs d hd => ?_,
    fun s d hd => ?_⟩
  · refine List.eq_nil_iff_forall_not_mem.mpr fun d hd => ?_
    obtain ⟨items, hitems, hd'⟩ := henc .prdcrListen d hd
    exact not_encodes_prdcrListen (hvals objs hlists _ d hd) hitems hd'
  · obtain ⟨items, hitems, -⟩ := henc s d hd
    cases s with
    | listen => exact absurd rfl hs
    | auth | advertisers | prdcrListen | prdcrs =>
      obtain ⟨name, hname, -⟩ := Option.map_eq_some_iff.mp hitems
      exact mem_keys_of_get? hname
  · obtain ⟨items, -, hd'⟩ := henc s d hd
    exact hd'.keys

/-- `Spec()` with its scope returns, raises, or never ends. -/
theorem exists_has_specObject (spec : Fields F) :
    ∃ v, Has (fun n => specObject n spec) v := by
  refine exists_has_bind (exists_has_ofExcept _) fun d =>
    exists_has_bind ⟨_, startExpand_has d⟩ fun e => ?_
  obtain ⟨v, hv⟩ : ∃ v, Has (fun n => startSubst n e) v := ⟨_, startSubst_has e⟩
  have hmap := hv.map fun r => (r, topScope e)
  simp only [startSubst_eq, ← substItems_eq] at hmap
  exact ⟨v, hmap⟩

end Documented

/-! ## Two specs -/

theorem plain_of_all {s : String} (h : (s.toList.all fun c => !PyRuntime.space F c) = true) :
    Plain F s := fun c hc => by simpa using List.all_eq_true.mp h c hc

/-- A daemon with one producer. -/
def oneProducer : Fields PEmpty :=
  [("prdcrs", .list [.dict [("name", .str "p1"), ("host", .str "h1")]])]

theorem lists_oneProducer : Lists oneProducer fun s =>
    if s = .prdcrs then [[("name", .str "p1"), ("host", .str "h1")]] else [] := by
  intro s
  cases s <;> rfl

/-- The line of the producer is as documented. -/
theorem emits_iff_oneProducer : ∃ text,
    Returns (fun n => getLdmsdConfig n oneProducer none) text ∧
      Emits oneProducer [("", .str "%")] none text := by
  have hkeyed : (Val.dict oneProducer).Keyed := Val.WF.keyed (by decide)
  have hr : Returns (fun n => specObject n oneProducer) (oneProducer, [("", .str "%")]) :=
    (exists_has_specObject oneProducer).choose_spec.returns_of_run (m := 1) rfl
  have hvals : PlainValues oneProducer := by
    intro objs hlists s d hd p hp
    obtain rfl := hlists.unique lists_oneProducer
    cases s with
    | auth | listen | advertisers | prdcrListen => cases hd
    | prdcrs =>
      obtain rfl := List.mem_singleton.mp hd
      rcases List.mem_pair.mp hp with rfl | rfl <;> exact plain_of_all rfl
  refine (emits_iff hkeyed hr hvals).mpr ⟨⟨"", returns_pure _⟩, ⟨"", rfl⟩, _, lists_oneProducer,
    rfl, fun s _ d hd => ?_, fun s d hd k hk => ?_⟩
  · cases s with
    | auth | listen | advertisers | prdcrListen => cases hd
    | prdcrs =>
      obtain rfl := List.mem_singleton.mp hd
      exact List.mem_cons_self
  · cases s with
    | auth | listen | advertisers | prdcrListen => cases hd
    | prdcrs =>
      obtain rfl := List.mem_singleton.mp hd
      rcases List.mem_pair.mp hk with rfl | rfl <;> exact ⟨plain_of_all rfl, by decide⟩

/-- A daemon that listens for producers. -/
def oneListener : Fields PEmpty :=
  [("prdcr_listen", .list [.dict [("name", .str "pl0"), ("reconnect", .str "5s")]])]

theorem lists_oneListener : Lists oneListener fun s =>
    if s = .prdcrListen then [[("name", .str "pl0"), ("reconnect", .str "5s")]] else [] := by
  intro s
  cases s <;> rfl

/-- **The name is written twice**: no text for this spec has a line from which the object can be
read. -/
theorem not_emits_oneListener : (Val.dict oneListener).Keyed ∧
    Returns (fun n => specObject n oneListener) (oneListener, [("", .str "%")]) ∧
    PlainValues oneListener ∧ ¬ ∃ text,
      Returns (fun n => getLdmsdConfig n oneListener none) text ∧
        Emits oneListener [("", .str "%")] none text := by
  have hkeyed : (Val.dict oneListener).Keyed := Val.WF.keyed (by decide)
  have hr : Returns (fun n => specObject n oneListener) (oneListener, [("", .str "%")]) :=
    (exists_has_specObject oneListener).choose_spec.returns_of_run (m := 1) rfl
  have hvals : PlainValues oneListener := by
    intro objs hlists s d hd p hp
    obtain rfl := hlists.unique lists_oneListener
    cases s with
    | auth | listen | advertisers | prdcrs => cases hd
    | prdcrListen =>
      obtain rfl := List.mem_singleton.mp hd
      rcases List.mem_pair.mp hp with rfl | rfl <;> exact plain_of_all rfl
  refine ⟨hkeyed, hr, hvals, ?_⟩
  rintro ⟨text, hret, hemits⟩
  obtain ⟨objs, hlists, henc⟩ :=
    exists_encodes_of_emits (wf_of_returns_specObject hkeyed hr) hr hret hemits
  have hmem : [("name", .str "pl0"), ("reconnect", .str "5s")] ∈ objs .prdcrListen := by
    rw [hlists.unique lists_oneListener]
    exact List.mem_singleton_self _
  obtain ⟨items, hitems, hline⟩ := henc .prdcrListen _ hmem
  exact not_encodes_prdcrListen (hvals objs hlists _ _ hmem) hitems hline

end LdmsTest.LdmsdConfig
