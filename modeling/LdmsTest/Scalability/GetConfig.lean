import LdmsTest.Foundation.Commands
import LdmsTest.Scalability.Control

/-!
# The configuration files of the scalability test

Every daemon of the scalability test is started with a file of commands that `getConfig` writes: a
sampler defines its sets in it, and an aggregator adds its producers by their hosts and ports.  What
a daemon is to show is computed apart, by `getExpectedDir`.

* `getConfig`: the texts.
* `listens`, `producers`, `instances`, `componentIds`: what the commands of a text say.
* `Configured`: a daemon listens where its name says, the producers of its text are daemons of the
  level below, and it is to show the sets of its text and those that they are to show.
* `configured`: this is so for all daemons.
-/

namespace LdmsTest
namespace Scalability

open Commands (Command Plain token)
open Shares (share)

/-! ## Texts -/

/-- The other values of `config.py`.  `offset` is the offset of the updater at a level, which is
computed from the interval. -/
structure Options where
  xprt : String
  connInterval : ℕ
  sampInterval : ℕ
  offset : ℕ → ℕ
  l3StoreRoot : Option String

/-- `name.rsplit("-", 1)[1]`, where there is a dash in the name -/
def portOf (name : String) : String :=
  String.ofList (name.toList.reverse.takeWhile (· ≠ '-')).reverse

/-- `LISTEN_CFG_TMP` -/
def listenCfg (o : Options) (name : String) : String :=
  "listen host=" ++ hostOf name ++ " port=" ++ portOf name ++ " xprt=" ++ o.xprt ++ "\n"

/-- The line of a set in `SAMPLER_CFG_TMP` -/
def addSet (name : String) (id i : ℕ) : String :=
  "config name=test_sampler action=add_set instance=" ++ name ++ "/set_" ++ toString i ++
    " schema=test component_id=" ++ toString id ++ " producer=" ++ name ++ "\n"

/-- `SAMPLER_CFG_TMP` -/
def samplerCfg (c : Config) (o : Options) (name : String) (id : ℕ) : String :=
  listenCfg o name ++ "\nload name=test_sampler\n" ++
    "config name=test_sampler action=add_schema schema=test num_metrics=2 type=U64\n" ++
    String.join ((List.range c.setsPerSamp).map (addSet name id)) ++
    "\nstart name=test_sampler interval=1000000 offset=0\n"

/-- `PRDCR_ADD_TMP` -/
def prdcrAdd (o : Options) (name : String) : String :=
  "prdcr_add name=" ++ name ++ " host=" ++ hostOf name ++ " port=" ++ portOf name ++ " xprt=" ++
    o.xprt ++ " type=active interval=" ++ toString o.connInterval ++ "\n"

/-- `PRDCR_START_REGEX` -/
def prdcrStartRegex : String :=
  "prdcr_start_regex regex=.*\n"

/-- `UPDTR_ADD_START_TMP` -/
def updtrAddStart (o : Options) (level : ℕ) : String :=
  "\nupdtr_add name=all interval=" ++ toString o.sampInterval ++ " offset=" ++
    toString (o.offset level) ++ "\n" ++ "updtr_prdcr_add name=all regex=.*\nupdtr_start name=all\n"

/-- `L3_STORE_CFG_TMP` -/
def l3StoreCfg (root : String) : String :=
  "\nload name=store_sos\nconfig name=store_sos path=" ++ root ++ "\n" ++
    "\nstrgp_add name=test_sos plugin=store_sos container=test schema=test\n" ++
    "strgp_prdcr_add name=test_sos regex=.*\nstrgp_start name=test_sos\n"

/-- The text of an aggregator with these producers, and with `store` before the updater. -/
def aggCfg (o : Options) (d : Ldmsd) (prdcrs : List String) (store : String) : String :=
  listenCfg o d.name ++ String.join (prdcrs.map (prdcrAdd o)) ++ prdcrStartRegex ++ store ++
    updtrAddStart o d.level

/-- What `getConfig` of the top aggregator writes for its store. -/
def storeText (o : Options) : String :=
  match o.l3StoreRoot with
  | some root => if root = "" then "" else l3StoreCfg root
  | none => ""

/-- `getConfig()` -/
def getConfig (c : Config) (o : Options) (d : Ldmsd) : Except PyError String :=
  match d.level with
  | 0 => do
    let idx ← idx c 0 d.name
    pure (samplerCfg c o d.name (idx + 1))
  | 1 | 2 => do
    let prdcrs ← getPrdcr c d.level d.name
    pure (aggCfg o d prdcrs "")
  | _ => pure (aggCfg o d c.l2.names (storeText o))

/-! ## What a text says -/

/-- Where something is found: a host and a port. -/
def address (c : Command) : Option (String × String) := do
  let host ← c.attr "host"
  let port ← c.attr "port"
  pure (String.ofList host, String.ofList port)

/-- Where the daemon listens. -/
def listens (text : String) : List (String × String) :=
  (Commands.select "listen" (Commands.read text.toList)).filterMap address

/-- Where the producers of the daemon are. -/
def producers (text : String) : List (String × String) :=
  (Commands.select "prdcr_add" (Commands.read text.toList)).filterMap address

/-- The commands that add a set. -/
def addSets (text : String) : List Command :=
  (Commands.select "config" (Commands.read text.toList)).filter fun c =>
    c.attr "action" = some "add_set".toList

/-- The names of the sets that are added. -/
def instances (text : String) : List String :=
  (addSets text).filterMap fun c => (c.attr "instance").map String.ofList

/-- The component IDs of the sets that are added. -/
def componentIds (text : String) : List String :=
  (addSets text).filterMap fun c => (c.attr "component_id").map String.ofList

/-- The address in a name. -/
def addressOf (name : String) : String × String :=
  (hostOf name, portOf name)

/-- **A daemon is configured** as it is expected: it listens at the address in its name, its
producers listen at the addresses in its text, and it is to show the sets that its text adds and
those that its producers are to show. -/
structure Configured (c : Config) (o : Options) (d : Ldmsd) (text : String) (dir : List String) :
    Prop where
  config : getConfig c o d = .ok text
  expected : getExpectedDir c d.level d.name = .ok dir
  listens : listens text = [addressOf d.name]
  producers : ∃ ps : List Ldmsd, ps ⊆ ldmsdList c ∧
    getPrdcr c d.level d.name = .ok (ps.map Ldmsd.name) ∧
    producers text = ps.map (fun p => addressOf p.name) ∧ ∃ dirs,
      ps.mapM (fun p => getExpectedDir c p.level p.name) = .ok dirs ∧
        dir = instances text ++ dirs.flatten

/-- The hosts and the other words of the texts have no blanks and no ends of lines. -/
structure PlainWords (c : Config) (o : Options) : Prop where
  samp : ∀ h ∈ c.samp.hosts, Plain h.toList
  l1 : ∀ h ∈ c.l1.hosts, Plain h.toList
  l2 : ∀ h ∈ c.l2.hosts, Plain h.toList
  l3 : Plain c.l3Host.toList
  xprt : Plain o.xprt.toList
  root : ∀ root, o.l3StoreRoot = some root → Plain root.toList

/-! ## Names and addresses -/

theorem plain_toDigits (n : ℕ) : Plain (Nat.toDigits 10 n) := fun c hc =>
  ⟨fun h => notMem_toDigits (by decide) n (h ▸ hc), fun h => notMem_toDigits (by decide) n (h ▸ hc)⟩

theorem plain_toString (n : ℕ) : Plain (toString n).toList := by
  rw [toList_toString]
  exact plain_toDigits n

theorem portOf_daemonName (host : String) (port : ℕ) : portOf (daemonName host port) = toString port := by
  have hdash : ∀ c ∈ (Nat.toDigits 10 port).reverse, decide (c ≠ '-') = true := fun c hc =>
    decide_eq_true fun heq => notMem_toDigits (by decide) port (heq ▸ List.mem_reverse.mp hc)
  rw [portOf, toList_daemonName, List.reverse_append, List.reverse_cons, List.append_assoc,
    List.singleton_append, List.takeWhile_append_of_pos hdash,
    List.takeWhile_cons_of_neg (by simp), List.append_nil, List.reverse_reverse, ← toList_toString,
    String.ofList_toList]

/-- The name of a daemon is that of a host and a port. -/
theorem exists_daemonName {c : Config} {level : ℕ} {name : String} (h : name ∈ dl c level) :
    ∃ host port, name = daemonName host port ∧
      (host ∈ c.samp.hosts ∨ host ∈ c.l1.hosts ∨ host ∈ c.l2.hosts ∨ host = c.l3Host) := by
  have hnames : ∀ L : Level, name ∈ L.names → ∃ host port, name = daemonName host port ∧
      host ∈ L.hosts := by
    intro L hmem
    obtain ⟨host, hhost, hmem⟩ := List.mem_flatMap.mp hmem
    obtain ⟨i, -, rfl⟩ := List.mem_map.mp hmem
    exact ⟨host, _, rfl, hhost⟩
  match level with
  | 0 =>
    obtain ⟨host, port, rfl, hhost⟩ := hnames _ h
    exact ⟨host, port, rfl, Or.inl hhost⟩
  | 1 =>
    obtain ⟨host, port, rfl, hhost⟩ := hnames _ h
    exact ⟨host, port, rfl, Or.inr (Or.inl hhost)⟩
  | 2 =>
    obtain ⟨host, port, rfl, hhost⟩ := hnames _ h
    exact ⟨host, port, rfl, Or.inr (Or.inr (Or.inl hhost))⟩
  | _ + 3 =>
    obtain rfl := List.mem_singleton.mp h
    exact ⟨c.l3Host, c.l3BasePort, rfl, Or.inr (Or.inr (Or.inr rfl))⟩

/-- **Two daemons are at one address** only if they have one name. -/
theorem eq_of_addressOf {c : Config} {level level' : ℕ} {name name' : String}
    (h : name ∈ dl c level) (h' : name' ∈ dl c level') (heq : addressOf name = addressOf name') :
    name = name' := by
  obtain ⟨host, port, rfl, -⟩ := exists_daemonName h
  obtain ⟨host', port', rfl, -⟩ := exists_daemonName h'
  rw [addressOf, addressOf, hostOf_daemonName, hostOf_daemonName, portOf_daemonName,
    portOf_daemonName] at heq
  obtain ⟨rfl, hport⟩ := Prod.mk.inj heq
  rw [daemonName, daemonName, hport]

/-- The words of a daemon. -/
structure PlainName (name : String) : Prop where
  all : Plain name.toList
  host : Plain (hostOf name).toList
  port : Plain (portOf name).toList

theorem PlainWords.plainName {c : Config} {o : Options} (h : PlainWords c o) {level : ℕ}
    {name : String} (hname : name ∈ dl c level) : PlainName name := by
  obtain ⟨host, port, rfl, hhost⟩ := exists_daemonName hname
  have hplain : Plain host.toList := by
    rcases hhost with hhost | hhost | hhost | rfl
    · exact h.samp host hhost
    · exact h.l1 host hhost
    · exact h.l2 host hhost
    · exact h.l3
  refine ⟨?_, by rwa [hostOf_daemonName], by rw [portOf_daemonName]; exact plain_toString port⟩
  rw [toList_daemonName]
  refine hplain.append fun c hc => ?_
  rcases List.mem_cons.mp hc with rfl | hc
  · exact ⟨by decide, by decide⟩
  · exact plain_toDigits port c hc

/-! ## The commands of the texts -/

section Lines

def listenCommand (host port xprt : String) : Command :=
  ⟨"listen".toList, [("host".toList, host.toList), ("port".toList, port.toList),
    ("xprt".toList, xprt.toList)]⟩

def prdcrCommand (name host port xprt interval : String) : Command :=
  ⟨"prdcr_add".toList, [("name".toList, name.toList), ("host".toList, host.toList),
    ("port".toList, port.toList), ("xprt".toList, xprt.toList), ("type".toList, "active".toList),
    ("interval".toList, interval.toList)]⟩

def setCommand (name set id : String) : Command :=
  ⟨"config".toList, [("name".toList, "test_sampler".toList), ("action".toList, "add_set".toList),
    ("instance".toList, set.toList), ("schema".toList, "test".toList),
    ("component_id".toList, id.toList), ("producer".toList, name.toList)]⟩

def schemaCommands : List Command :=
  [⟨"load".toList, [("name".toList, "test_sampler".toList)]⟩,
    ⟨"config".toList, [("name".toList, "test_sampler".toList), ("action".toList, "add_schema".toList),
      ("schema".toList, "test".toList), ("num_metrics".toList, "2".toList),
      ("type".toList, "U64".toList)]⟩]

def startCommands : List Command :=
  [⟨"start".toList, [("name".toList, "test_sampler".toList), ("interval".toList, "1000000".toList),
    ("offset".toList, "0".toList)]⟩]

def regexCommands : List Command :=
  [⟨"prdcr_start_regex".toList, [("regex".toList, ".*".toList)]⟩]

def updtrCommands (interval offset : String) : List Command :=
  [⟨"updtr_add".toList, [("name".toList, "all".toList), ("interval".toList, interval.toList),
      ("offset".toList, offset.toList)]⟩,
    ⟨"updtr_prdcr_add".toList, [("name".toList, "all".toList), ("regex".toList, ".*".toList)]⟩,
    ⟨"updtr_start".toList, [("name".toList, "all".toList)]⟩]

def loadCommands (root : String) : List Command :=
  [⟨"load".toList, [("name".toList, "store_sos".toList)]⟩,
    ⟨"config".toList, [("name".toList, "store_sos".toList), ("path".toList, root.toList)]⟩]

def strgpCommands : List Command :=
  [⟨"strgp_add".toList, [("name".toList, "test_sos".toList), ("plugin".toList, "store_sos".toList),
      ("container".toList, "test".toList), ("schema".toList, "test".toList)]⟩,
    ⟨"strgp_prdcr_add".toList, [("name".toList, "test_sos".toList), ("regex".toList, ".*".toList)]⟩,
    ⟨"strgp_start".toList, [("name".toList, "test_sos".toList)]⟩]

theorem toList_listen (host port xprt : String) :
    ("listen host=" ++ host ++ " port=" ++ port ++ " xprt=" ++ xprt ++ "\n").toList =
      (listenCommand host port xprt).chars ++ ['\n'] := by
  unfold listenCommand
  simp [Command.chars, token]

theorem toList_prdcr (name host port xprt interval : String) :
    ("prdcr_add name=" ++ name ++ " host=" ++ host ++ " port=" ++ port ++ " xprt=" ++ xprt ++
        " type=active interval=" ++ interval ++ "\n").toList =
      (prdcrCommand name host port xprt interval).chars ++ ['\n'] := by
  unfold prdcrCommand
  simp [Command.chars, token]

theorem toList_set (name i id : String) :
    ("config name=test_sampler action=add_set instance=" ++ name ++ "/set_" ++ i ++
        " schema=test component_id=" ++ id ++ " producer=" ++ name ++ "\n").toList =
      (setCommand name (name ++ "/set_" ++ i) id).chars ++ ['\n'] := by
  unfold setCommand
  simp [Command.chars, token]

theorem toList_updtr (interval offset : String) :
    ("\nupdtr_add name=all interval=" ++ interval ++ " offset=" ++ offset ++ "\n" ++
        "updtr_prdcr_add name=all regex=.*\nupdtr_start name=all\n").toList =
      '\n' :: Commands.lines (updtrCommands interval offset) := by
  unfold updtrCommands
  simp [Commands.lines, Command.chars, token]

theorem toList_store (root : String) :
    (l3StoreCfg root).toList = '\n' :: Commands.lines (loadCommands root) ++ '\n' :: Commands.lines strgpCommands := by
  unfold l3StoreCfg loadCommands strgpCommands
  simp [Commands.lines, Command.chars, token]

theorem clean_listenCommand {host port xprt : String} (hhost : Plain host.toList)
    (hport : Plain port.toList) (hxprt : Plain xprt.toList) :
    (listenCommand host port xprt).Clean :=
  ⟨rfl, hhost, hport, hxprt⟩

theorem clean_prdcrCommand {name host port xprt interval : String} (hname : Plain name.toList)
    (hhost : Plain host.toList) (hport : Plain port.toList) (hxprt : Plain xprt.toList)
    (hinterval : Plain interval.toList) : (prdcrCommand name host port xprt interval).Clean :=
  ⟨rfl, hname, hhost, hport, hxprt, by decide, hinterval⟩

theorem clean_setCommand {name set id : String} (hname : Plain name.toList)
    (hset : Plain set.toList) (hid : Plain id.toList) : (setCommand name set id).Clean :=
  ⟨rfl, by decide, by decide, hset, by decide, hid, hname⟩

theorem clean_updtrCommands {interval offset : String} (hinterval : Plain interval.toList)
    (hoffset : Plain offset.toList) : ∀ c ∈ updtrCommands interval offset, c.Clean :=
  List.forall_iff_forall_mem.mp ⟨⟨rfl, by decide, hinterval, hoffset⟩, ⟨rfl, by decide, by decide⟩,
    ⟨rfl, by decide⟩⟩

theorem clean_loadCommands {root : String} (hroot : Plain root.toList) :
    ∀ c ∈ loadCommands root, c.Clean :=
  List.forall_iff_forall_mem.mp ⟨⟨rfl, by decide⟩, ⟨rfl, by decide, hroot⟩⟩

theorem clean_strgpCommands : ∀ c ∈ strgpCommands, c.Clean :=
  List.forall_iff_forall_mem.mp ⟨⟨rfl, by decide, by decide, by decide, by decide⟩,
    ⟨rfl, by decide, by decide⟩, ⟨rfl, by decide⟩⟩

theorem clean_schemaCommands : ∀ c ∈ schemaCommands, c.Clean :=
  List.forall_iff_forall_mem.mp ⟨⟨rfl, by decide⟩,
    ⟨rfl, by decide, by decide, by decide, by decide, by decide⟩⟩

theorem clean_startCommands : ∀ c ∈ startCommands, c.Clean :=
  List.forall_iff_forall_mem.mp ⟨rfl, by decide, by decide, by decide⟩

theorem clean_regexCommands : ∀ c ∈ regexCommands, c.Clean :=
  List.forall_iff_forall_mem.mp ⟨rfl, by decide⟩

end Lines

/-! ## Reading the texts -/

section Reading

variable {c : Config} {o : Options}

/-- The command of a daemon that listens. -/
def listenOf (o : Options) (name : String) : Command :=
  listenCommand (hostOf name) (portOf name) o.xprt

/-- The command that adds a producer. -/
def prdcrOf (o : Options) (name : String) : Command :=
  prdcrCommand name (hostOf name) (portOf name) o.xprt (toString o.connInterval)

/-- The command that adds a set. -/
def setOf (name : String) (id i : ℕ) : Command :=
  setCommand name (name ++ "/set_" ++ toString i) (toString id)

theorem clean_listenOf {name : String} (h : PlainName name) (hxprt : Plain o.xprt.toList) :
    (listenOf o name).Clean :=
  clean_listenCommand h.host h.port hxprt

theorem clean_prdcrOf {name : String} (h : PlainName name) (hxprt : Plain o.xprt.toList) :
    (prdcrOf o name).Clean :=
  clean_prdcrCommand h.all h.host h.port hxprt (plain_toString _)

theorem clean_setOf {name : String} (h : PlainName name) (id i : ℕ) : (setOf name id i).Clean := by
  refine clean_setCommand h.all ?_ (plain_toString id)
  rw [String.toList_append, String.toList_append]
  exact (h.all.append (by decide)).append (plain_toString i)

theorem read_updtrAddStart (o : Options) (level : ℕ) :
    Commands.read (updtrAddStart o level).toList =
      updtrCommands (toString o.sampInterval) (toString (o.offset level)) := by
  have hread := Commands.read_lines (clean_updtrCommands (plain_toString o.sampInterval)
    (plain_toString (o.offset level))) []
  rw [List.append_nil, Commands.read_nil, List.append_nil] at hread
  have htext : (updtrAddStart o level).toList = '\n' :: Commands.lines
      (updtrCommands (toString o.sampInterval) (toString (o.offset level))) := toList_updtr _ _
  rw [htext, Commands.read_blank, hread]

/-- **The commands of a sampler.** -/
theorem read_samplerCfg {name : String} (h : PlainName name) (hxprt : Plain o.xprt.toList) (id : ℕ) :
    Commands.read (samplerCfg c o name id).toList = listenOf o name :: (schemaCommands ++
      ((List.range c.setsPerSamp).map (setOf name id) ++ startCommands)) := by
  have hschema : ("\nload name=test_sampler\n" ++
      "config name=test_sampler action=add_schema schema=test num_metrics=2 type=U64\n").toList =
      '\n' :: Commands.lines schemaCommands := by rfl
  have hstart : "\nstart name=test_sampler interval=1000000 offset=0\n".toList =
      '\n' :: Commands.lines startCommands ++ [] := by rfl
  have hsets : (String.join ((List.range c.setsPerSamp).map (addSet name id))).toList =
      Commands.lines ((List.range c.setsPerSamp).map (setOf name id)) := by
    rw [String.toList_join, List.flatMap_map, Commands.lines, List.flatMap_map]
    exact List.flatMap_congr fun i _ => toList_set _ _ _
  have hclean : ∀ d ∈ (List.range c.setsPerSamp).map (setOf name id), d.Clean := by
    intro d hd
    obtain ⟨i, -, rfl⟩ := List.mem_map.mp hd
    exact clean_setOf h id i
  have hlisten : (listenCfg o name).toList = (listenOf o name).chars ++ ['\n'] := toList_listen _ _ _
  have hassoc : samplerCfg c o name id = listenCfg o name ++ ("\nload name=test_sampler\n" ++
      "config name=test_sampler action=add_schema schema=test num_metrics=2 type=U64\n") ++
      String.join ((List.range c.setsPerSamp).map (addSet name id)) ++
      "\nstart name=test_sampler interval=1000000 offset=0\n" := by
    rw [samplerCfg, ← String.append_assoc]
  rw [hassoc, String.toList_append, String.toList_append, String.toList_append, hlisten, hschema,
    hsets, hstart]
  simp only [List.append_assoc, List.cons_append, List.nil_append]
  rw [Commands.read_line (clean_listenOf h hxprt), Commands.read_blank,
    Commands.read_lines clean_schemaCommands, Commands.read_lines hclean, Commands.read_blank,
    Commands.read_lines clean_startCommands, Commands.read_nil, List.append_nil]

/-- **The commands of an aggregator.** -/
theorem read_aggCfg {d : Ldmsd} {prdcrs : List String} (h : PlainName d.name)
    (hprdcrs : ∀ p ∈ prdcrs, PlainName p) (hxprt : Plain o.xprt.toList) {store : String}
    {stored : List Command}
    (hstore : ∀ text, Commands.read (store.toList ++ text) = stored ++ Commands.read text) :
    Commands.read (aggCfg o d prdcrs store).toList = listenOf o d.name ::
      (prdcrs.map (prdcrOf o) ++ (regexCommands ++ (stored ++
        updtrCommands (toString o.sampInterval) (toString (o.offset d.level))))) := by
  have hadds : (String.join (prdcrs.map (prdcrAdd o))).toList =
      Commands.lines (prdcrs.map (prdcrOf o)) := by
    rw [String.toList_join, List.flatMap_map, Commands.lines, List.flatMap_map]
    exact List.flatMap_congr fun p _ => toList_prdcr _ _ _ _ _
  have hregex : prdcrStartRegex.toList = Commands.lines regexCommands := by rfl
  have hclean : ∀ e ∈ prdcrs.map (prdcrOf o), e.Clean := by
    intro e he
    obtain ⟨p, hp, rfl⟩ := List.mem_map.mp he
    exact clean_prdcrOf (hprdcrs p hp) hxprt
  have hlisten : (listenCfg o d.name).toList = (listenOf o d.name).chars ++ ['\n'] :=
    toList_listen _ _ _
  rw [aggCfg, String.toList_append, String.toList_append, String.toList_append, String.toList_append,
    hadds, hregex, hlisten]
  simp only [List.append_assoc, List.singleton_append]
  rw [List.cons_append, Commands.read_line (clean_listenOf h hxprt), Commands.read_lines hclean,
    Commands.read_lines clean_regexCommands, hstore, read_updtrAddStart]

theorem read_l3StoreCfg {root : String} (h : Plain root.toList) (text : List Char) :
    Commands.read ((l3StoreCfg root).toList ++ text) =
      loadCommands root ++ strgpCommands ++ Commands.read text := by
  rw [toList_store, List.cons_append, List.cons_append, List.append_assoc, List.cons_append,
    Commands.read_blank, Commands.read_lines (clean_loadCommands h), Commands.read_blank,
    Commands.read_lines clean_strgpCommands, List.append_assoc]

/-- The commands of the store, in front of others. -/
theorem exists_read_storeText (hroot : ∀ root, o.l3StoreRoot = some root → Plain root.toList) :
    ∃ stored, (stored = [] ∨ ∃ root, stored = loadCommands root ++ strgpCommands) ∧
      ∀ text, Commands.read ((storeText o).toList ++ text) = stored ++ Commands.read text := by
  have hempty : ∀ text, Commands.read ("".toList ++ text) = [] ++ Commands.read text := fun _ => rfl
  unfold storeText
  cases h : o.l3StoreRoot with
  | none => exact ⟨[], Or.inl rfl, hempty⟩
  | some root =>
    by_cases hr : root = ""
    · exact ⟨[], Or.inl rfl, by simpa only [if_pos hr] using hempty⟩
    · refine ⟨_, Or.inr ⟨root, rfl⟩, ?_⟩
      simpa only [if_neg hr] using read_l3StoreCfg (hroot root h)

/-! ## What the texts say -/

theorem address_listenCommand (host port xprt : String) :
    address (listenCommand host port xprt) = some (host, port) := by
  show some (String.ofList host.toList, String.ofList port.toList) = _
  rw [String.ofList_toList, String.ofList_toList]

theorem address_prdcrCommand (name host port xprt interval : String) :
    address (prdcrCommand name host port xprt interval) = some (host, port) := by
  show some (String.ofList host.toList, String.ofList port.toList) = _
  rw [String.ofList_toList, String.ofList_toList]

theorem filterMap_prdcrOf (prdcrs : List String) :
    (prdcrs.map (prdcrOf o)).filterMap address = prdcrs.map addressOf := by
  rw [List.filterMap_map, ← List.filterMap_eq_map]
  exact List.filterMap_congr fun p _ => address_prdcrCommand ..

theorem filterMap_listenOf (o : Options) (name : String) :
    [listenOf o name].filterMap address = [addressOf name] :=
  List.filterMap_cons_some (address_listenCommand _ _ _)

theorem select_setOf {name verb : String} {id : ℕ} (h : verb.toList ≠ "config".toList) (l : List ℕ) :
    Commands.select verb (l.map (setOf name id)) = [] :=
  Commands.select_eq_nil fun d hd => by
    obtain ⟨i, -, rfl⟩ := List.mem_map.mp hd
    exact h.symm

theorem select_prdcrOf {verb : String} (h : verb.toList ≠ "prdcr_add".toList) (l : List String) :
    Commands.select verb (l.map (prdcrOf o)) = [] :=
  Commands.select_eq_nil fun d hd => by
    obtain ⟨i, -, rfl⟩ := List.mem_map.mp hd
    exact h.symm

theorem select_cons_listenOf {name verb : String} (h : verb.toList ≠ "listen".toList)
    (cs : List Command) : Commands.select verb (listenOf o name :: cs) = Commands.select verb cs :=
  List.filter_cons_of_neg fun hverb => h (of_decide_eq_true hverb).symm

theorem select_listen_cons (name : String) (cs : List Command) :
    Commands.select "listen" (listenOf o name :: cs) = listenOf o name :: Commands.select "listen" cs :=
  List.filter_cons_of_pos (decide_eq_true rfl)

/-- **What the text of a sampler says.** -/
theorem samplerCfg_spec {name : String} (h : PlainName name) (hxprt : Plain o.xprt.toList) (id : ℕ) :
    listens (samplerCfg c o name id) = [addressOf name] ∧
      producers (samplerCfg c o name id) = [] ∧
      instances (samplerCfg c o name id) = sets c name ∧
      ∀ text ∈ componentIds (samplerCfg c o name id), text = toString id := by
  have hread := read_samplerCfg (c := c) h hxprt id
  have hsets : addSets (samplerCfg c o name id) = (List.range c.setsPerSamp).map (setOf name id) := by
    have hschema : (Commands.select "config" schemaCommands).filter
        (fun d => d.attr "action" = some "add_set".toList) = [] := by rfl
    have hself : Commands.select "config" ((List.range c.setsPerSamp).map (setOf name id)) =
        (List.range c.setsPerSamp).map (setOf name id) := Commands.select_eq_self fun d hd => by
      obtain ⟨i, -, rfl⟩ := List.mem_map.mp hd
      rfl
    have hall : ∀ d ∈ (List.range c.setsPerSamp).map (setOf name id),
        decide (d.attr "action" = some "add_set".toList) = true := by
      intro d hd
      obtain ⟨i, -, rfl⟩ := List.mem_map.mp hd
      rfl
    rw [addSets, hread, select_cons_listenOf (by decide), Commands.select_append,
      Commands.select_append, hself, List.filter_append, List.filter_append, hschema,
      List.filter_eq_self.mpr hall]
    exact List.append_nil _
  refine ⟨?_, ?_, ?_, ?_⟩
  · rw [listens, hread, select_listen_cons, Commands.select_append, Commands.select_append,
      select_setOf (by decide)]
    exact filterMap_listenOf o _
  · rw [producers, hread, select_cons_listenOf (by decide), Commands.select_append,
      Commands.select_append, select_setOf (by decide)]
    rfl
  · rw [instances, hsets, List.filterMap_map, sets, ← List.filterMap_eq_map]
    refine List.filterMap_congr fun i _ => ?_
    show some (String.ofList (name ++ "/set_" ++ toString i).toList) = _
    rw [String.ofList_toList]
    rfl
  · intro text htext
    rw [componentIds, hsets] at htext
    obtain ⟨d, hd, htext⟩ := List.mem_filterMap.mp htext
    obtain ⟨i, -, rfl⟩ := List.mem_map.mp hd
    have hid : some (String.ofList (toString id).toList) = some text := htext
    rw [String.ofList_toList] at hid
    exact (Option.some_inj.mp hid).symm

/-- **What the text of an aggregator says.** -/
theorem aggCfg_spec {d : Ldmsd} {prdcrs : List String} (h : PlainName d.name)
    (hprdcrs : ∀ p ∈ prdcrs, PlainName p) (hxprt : Plain o.xprt.toList) {store : String}
    {stored : List Command} (hstored : stored = [] ∨ ∃ root, stored = loadCommands root ++ strgpCommands)
    (hstore : ∀ text, Commands.read (store.toList ++ text) = stored ++ Commands.read text) :
    listens (aggCfg o d prdcrs store) = [addressOf d.name] ∧
      producers (aggCfg o d prdcrs store) = prdcrs.map addressOf ∧
      addSets (aggCfg o d prdcrs store) = [] := by
  have hread := read_aggCfg h hprdcrs hxprt hstore
  have hself : Commands.select "prdcr_add" (prdcrs.map (prdcrOf o)) = prdcrs.map (prdcrOf o) :=
    Commands.select_eq_self fun e he => by
      obtain ⟨p, -, rfl⟩ := List.mem_map.mp he
      rfl
  have hupdtr : ∀ verb : String, verb ∈ ["listen", "prdcr_add", "config"] →
      ∀ interval offset, Commands.select verb (updtrCommands interval offset) = [] := by
    intro verb hverb interval offset
    fin_cases hverb <;> rfl
  have hnone : ∀ verb : String, verb ∈ ["listen", "prdcr_add"] →
      Commands.select verb stored = [] := by
    intro verb hverb
    rcases hstored with rfl | ⟨root, rfl⟩
    · rfl
    · fin_cases hverb <;> rfl
  refine ⟨?_, ?_, ?_⟩
  · rw [listens, hread, select_listen_cons, Commands.select_append, Commands.select_append,
      Commands.select_append, select_prdcrOf (by decide), hnone _ (by simp), hupdtr _ (by simp)]
    exact filterMap_listenOf o _
  · rw [producers, hread, select_cons_listenOf (by decide), Commands.select_append,
      Commands.select_append, Commands.select_append, hself, hnone _ (by simp), hupdtr _ (by simp),
      List.filterMap_append, filterMap_prdcrOf]
    exact List.append_nil _
  · have hconfig : (Commands.select "config" stored).filter
        (fun d => d.attr "action" = some "add_set".toList) = [] := by
      rcases hstored with rfl | ⟨root, rfl⟩
      · rfl
      · rfl
    rw [addSets, hread, select_cons_listenOf (by decide), Commands.select_append,
      Commands.select_append, Commands.select_append, select_prdcrOf (by decide), hupdtr _ (by simp),
      List.filter_append, List.filter_append, List.filter_append, hconfig]
    rfl

end Reading

/-! ## What the daemons are configured to do -/

section Configured

variable {c : Config} {o : Options}

theorem getConfig_sampler {name : String} {i : ℕ} (hi : idx c 0 name = .ok i) :
    getConfig c o ⟨0, name⟩ = .ok (samplerCfg c o name (i + 1)) := by
  show (idx c 0 name >>= fun idx => pure (samplerCfg c o name (idx + 1))) = _
  rw [hi]
  rfl

theorem configured_sampler (h : PlainWords c o) {name : String} (hname : name ∈ dl c 0) :
    ∃ text dir, Configured c o ⟨0, name⟩ text dir := by
  obtain ⟨i, hi⟩ := exists_idx hname
  obtain ⟨hlistens, hproducers, hinstances, -⟩ :=
    samplerCfg_spec (c := c) (h.plainName hname) h.xprt (i + 1)
  refine ⟨_, sets c name, getConfig_sampler hi, by rw [getExpectedDir, hi]; rfl, hlistens, [], List.nil_subset _,
    rfl, hproducers, [], rfl, ?_⟩
  rw [hinstances, List.flatten_nil, List.append_nil]

/-- The text of an aggregator, for all three classes. -/
theorem exists_aggCfg (h : PlainWords c o) {below : ℕ} (hbelow : below < 3) {name : String} {i : ℕ}
    (hi : idx c (below + 1) name = .ok i) : ∃ store stored,
      (stored = [] ∨ ∃ root, stored = loadCommands root ++ strgpCommands) ∧
      (∀ text, Commands.read (store.toList ++ text) = stored ++ Commands.read text) ∧
      getConfig c o ⟨below + 1, name⟩ = .ok (aggCfg o ⟨below + 1, name⟩
        (share (dl c below) (nDist c below) i) store) := by
  have hempty : ∀ text, Commands.read ("".toList ++ text) = [] ++ Commands.read text := fun _ => rfl
  have hprdcr := getPrdcr_eq hi
  match below with
  | 0 =>
    refine ⟨"", [], Or.inl rfl, hempty, ?_⟩
    show (getPrdcr c 1 name >>= fun prdcrs => pure (aggCfg o ⟨1, name⟩ prdcrs "")) = _
    rw [hprdcr]
    rfl
  | 1 =>
    refine ⟨"", [], Or.inl rfl, hempty, ?_⟩
    show (getPrdcr c 2 name >>= fun prdcrs => pure (aggCfg o ⟨2, name⟩ prdcrs "")) = _
    rw [hprdcr]
    rfl
  | 2 =>
    -- the producers are all aggregators of the level below
    obtain ⟨stored, hstored, hread⟩ := exists_read_storeText h.root
    have hzero : i = 0 := Nat.lt_one_iff.mp (idx_lt hi)
    have hall : share (dl c 2) (nDist c 2) i = c.l2.names := by
      rw [hzero, nDist, show ndl c 3 = 1 from rfl, Nat.div_one]
      show List.take (ndl c 2) (List.drop (0 * ndl c 2) c.l2.names) = c.l2.names
      rw [Nat.zero_mul, List.drop_zero]
      exact List.take_length
    exact ⟨storeText o, stored, hstored, hread, by rw [hall]; rfl⟩

theorem configured_agg (h : PlainWords c o) {below : ℕ} (hbelow : below < 3) {name : String}
    (hname : name ∈ dl c (below + 1)) : ∃ text dir, Configured c o ⟨below + 1, name⟩ text dir := by
  obtain ⟨i, hi⟩ := exists_idx hname
  have hsub : share (dl c below) (nDist c below) i ⊆ dl c below := fun x hx =>
    List.mem_of_mem_drop (List.mem_of_mem_take hx)
  obtain ⟨store, stored, hstored, hstore, hconfig⟩ := exists_aggCfg h hbelow hi
  obtain ⟨dirs, hdirs⟩ := exists_mapM_ok_iff.mpr fun x hx =>
    exists_getExpectedDir c below x (hsub hx)
  obtain ⟨hlistens, hproducers, hsets⟩ := aggCfg_spec (d := ⟨below + 1, name⟩) (h.plainName hname)
    (fun p hp => h.plainName (hsub hp)) h.xprt hstored hstore
  have hexpected : getExpectedDir c (below + 1) name = .ok dirs.flatten := by
    rw [getExpectedDir, getPrdcr_eq hi, ok_bind, hdirs]
    rfl
  refine ⟨_, dirs.flatten, hconfig, hexpected, hlistens,
    (share (dl c below) (nDist c below) i).map (Ldmsd.mk below), ?_, ?_, ?_, dirs, ?_, ?_⟩
  · intro d hd
    obtain ⟨x, hx, rfl⟩ := List.mem_map.mp hd
    exact mem_ldmsdList_iff.mpr ⟨by show below < 4; omega, hsub hx⟩
  · rw [getPrdcr_eq hi, List.map_map]
    exact congrArg _ (List.map_id _).symm
  · rw [hproducers, List.map_map]
    rfl
  · rw [← hdirs, List.mapM_map]
    rfl
  · rw [instances, hsets]
    rfl

theorem exists_configured (h : PlainWords c o) {d : Ldmsd} (hd : d ∈ ldmsdList c) :
    ∃ text dir, Configured c o d text dir := by
  obtain ⟨level, name⟩ := d
  obtain ⟨hlevel, hname⟩ := mem_ldmsdList_iff.mp hd
  match level with
  | 0 => exact configured_sampler h hname
  | below + 1 => exact configured_agg h (Nat.lt_of_succ_lt_succ hlevel) hname

theorem toString_inj {m n : ℕ} (h : toString m = toString n) : m = n :=
  toDigits_inj (by rw [← toList_toString, ← toList_toString, h])

/-- The component IDs in a text are those of a sampler, by its place in the list. -/
theorem componentId_eq (h : PlainWords c o) {d : Ldmsd} (hd : d ∈ ldmsdList c) {text id : String}
    (htext : getConfig c o d = .ok text) (hid : id ∈ componentIds text) :
    ∃ i, c.samp.names[i]? = some d.name ∧ id = toString (i + 1) := by
  obtain ⟨level, name⟩ := d
  obtain ⟨hlevel, hname⟩ := mem_ldmsdList_iff.mp hd
  match level with
  | 0 =>
    obtain ⟨i, hi⟩ := exists_idx hname
    obtain rfl := Except.ok.inj ((getConfig_sampler hi).symm.trans htext)
    exact ⟨i, getElem?_of_item hi,
      (samplerCfg_spec (c := c) (h.plainName hname) h.xprt (i + 1)).2.2.2 id hid⟩
  | below + 1 =>
    have hbelow : below < 3 := Nat.lt_of_succ_lt_succ hlevel
    obtain ⟨i, hi⟩ := exists_idx hname
    have hsub : share (dl c below) (nDist c below) i ⊆ dl c below := fun x hx =>
      List.mem_of_mem_drop (List.mem_of_mem_take hx)
    obtain ⟨store, stored, hstored, hstore, hconfig⟩ := exists_aggCfg h hbelow hi
    obtain rfl := Except.ok.inj (hconfig.symm.trans htext)
    obtain ⟨-, -, hsets⟩ := aggCfg_spec (d := ⟨below + 1, name⟩) (h.plainName hname)
      (fun p hp => h.plainName (hsub hp)) h.xprt hstored hstore
    -- an aggregator adds no set
    rw [componentIds, hsets] at hid
    cases hid

/-- **Every daemon is configured as it is expected**, no two daemons listen at one address, and no
two samplers have one component ID. -/
theorem all_configured (h : PlainWords c o) :
    (∀ d ∈ ldmsdList c, ∃ text dir, Configured c o d text dir) ∧
      (∀ d ∈ ldmsdList c, ∀ d' ∈ ldmsdList c, addressOf d.name = addressOf d'.name →
        d.name = d'.name) ∧
      ∀ d ∈ ldmsdList c, ∀ d' ∈ ldmsdList c, ∀ text text', getConfig c o d = .ok text →
        getConfig c o d' = .ok text' → ∀ id ∈ componentIds text, id ∈ componentIds text' →
          d.name = d'.name := by
  refine ⟨fun d hd => exists_configured h hd, fun d hd d' hd' heq => ?_, ?_⟩
  · exact eq_of_addressOf (mem_ldmsdList_iff.mp hd).2 (mem_ldmsdList_iff.mp hd').2 heq
  · intro d hd d' hd' text text' htext htext' id hid hid'
    obtain ⟨i, hi, rfl⟩ := componentId_eq h hd htext hid
    obtain ⟨j, hj, hij⟩ := componentId_eq h hd' htext' hid'
    obtain rfl : i = j := Nat.succ_injective (toString_inj hij)
    exact Option.some_inj.mp (hi.symm.trans hj)

/-- Two hosts with two samplers each, and two aggregators at each of the next two levels. -/
def twoByTwo : Config where
  samp := ⟨["s1", "s2"], 2, 20000⟩
  l1 := ⟨["a1", "a2"], 1, 21000⟩
  l2 := ⟨["b1"], 2, 22000⟩
  l3Host := "c1"
  l3BasePort := 23000
  setsPerSamp := 2
  l1_le := by decide
  l2_le := by decide
  l2_pos := by decide

def sockOptions : Options where
  xprt := "sock"
  connInterval := 1000000
  sampInterval := 1000000
  offset level := if level = 1 then 100000 else if level = 2 then 250000 else 450000
  l3StoreRoot := some "sos"

theorem plainWords_twoByTwo : PlainWords twoByTwo sockOptions where
  samp := by decide
  l1 := by decide
  l2 := by decide
  l3 := by decide
  xprt := by decide
  root := fun root h => by
    obtain rfl : root = "sos" := (Option.some_inj.mp h).symm
    decide

/-- The first L1 aggregator. -/
theorem all_configured_twoByTwo :
    ∃ text dir, Configured twoByTwo sockOptions ⟨1, daemonName "a1" 21000⟩ text dir := by
  have hname : daemonName "a1" 21000 ∈ dl twoByTwo 1 :=
    List.mem_flatMap.mpr ⟨"a1", by decide, List.mem_map.mpr ⟨0, by decide, rfl⟩⟩
  exact (all_configured plainWords_twoByTwo).1 _ (mem_ldmsdList_iff.mpr ⟨by show 1 < 4; decide, hname⟩)

end Configured

end Scalability
end LdmsTest
