import LdmsTest.Singularity.SCluster

/-!
# `DockerCluster._create`

What a Docker cluster is made of: the arguments that `spec_to_kwargs` takes from a processed
spec, and the parameters that `__create` gives to the container of each node.

* `hostnames`: the hostnames of the nodes.
* `envDict`: `env_dict`, which takes an environment as a list of `NAME=VALUE` or a dictionary.
* `updateEnv`: `cont_env.update(...)` with the environment of a node, which `env_dict` does not
  see.  What it raises is caught, and what it has done until then stays.
-/

namespace LdmsTest

namespace Val

variable {F : Type}

/-- `v[k]` -/
def subscript : Val F → String → Except PyError (Val F)
  | .dict d, k => getItem d k
  | .list _, _ => throw ⟨.typeError, "list indices must be integers or slices, not str"⟩
  | .tuple _, _ => throw ⟨.typeError, "tuple indices must be integers or slices, not str"⟩
  | .str _, _ => throw ⟨.typeError, "string indices must be integers"⟩
  | v, _ => throw ⟨.typeError, "'" ++ v.typeName ++ "' object is not subscriptable"⟩

/-- Only an object has an item at a string. -/
theorem subscript_eq_ok_iff {v w : Val F} {k : String} :
    v.subscript k = .ok w ↔ ∃ d, v = .dict d ∧ Dict.get? d k = some w := by
  constructor
  · intro h
    cases v with
    | dict d => exact ⟨d, rfl, getItem_eq_ok_iff.mp h⟩
    | none | bool | int | float | str | list | tuple => cases h
  · rintro ⟨d, rfl, hd⟩
    exact getItem_eq_ok_iff.mpr hd

/-- `d.get(k, default)` -/
def get (d : Fields F) (k : String) (default : Val F) : Val F :=
  (Dict.get? d k).getD default

end Val

namespace Docker

open Json (JsonFloat)
open SCluster (iterate instanceNameOf)
open Val (Fields)

variable {F : Type}

/-! ## Environments -/

/-- `e.split("=", 1)`, which `dict` takes as a pair -/
def envItem (e : Val F) (i : ℕ) : Except PyError (String × Val F) :=
  match e with
  | .str s =>
    match s.toList.dropWhile (· ≠ '=') with
    | [] => throw ⟨.valueError, "dictionary update sequence element #" ++ toString i ++
        " has length 1; 2 is required"⟩
    | _ :: value => pure (String.ofList (s.toList.takeWhile (· ≠ '=')), .str (String.ofList value))
  | v => throw ⟨.attributeError, "'" ++ v.typeName ++ "' object has no attribute 'split'"⟩

/-- `env_dict(env)` -/
def envDict : Val F → Except PyError (Fields F)
  | .dict d => pure d
  | .list es => do
    let items ← es.zipIdx.mapM fun p => envItem p.1 p.2
    pure (Dict.update [] items)
  | _ => throw ⟨.typeError, "`env` is not a list nor a dict"⟩

/-- The pair that `dict.update` makes of an element of a sequence.  It raises on an element that
has not two members; a key that is not a string is left out. -/
def pairOf (x : Val F) : Option (String × Val F) :=
  match iterate x with
  | .ok [.str k, v] => some (k, v)
  | _ => none

/-- `env.update(xs)` for a sequence: `env` after it, and whether it did not raise -/
def updatePairs : Fields F → List (Val F) → Fields F × Bool
  | env, [] => (env, true)
  | env, x :: xs =>
    match pairOf x with
    | some (k, v) => updatePairs (Dict.set env k v) xs
    | none => (env, false)

/-- `env.update(other)`: `env` after it, and whether it did not raise -/
def updateEnv (env : Fields F) : Val F → Fields F × Bool
  | .dict d => (Dict.update env d, true)
  | v =>
    match iterate v with
    | .ok xs => updatePairs env xs
    | .error _ => (env, false)

/-! ## `spec_to_kwargs` -/

/-- What the creation reads of the machine. -/
structure Machine (F : Type) where
  /-- the Python packages under a prefix, as a search path below `/opt/ovis` -/
  pythonPath : String → String
  /-- `get_host_tz()` -/
  hostTz : String
  /-- `G.conf["ldms-test"]["atstart"]` -/
  atstart : Val F

/-- `[ node["hostname"] for node in nodes ]` -/
def hostnames (spec : Fields F) : Except PyError (List (Val F)) := do
  let nodes ← Val.getItem spec "nodes"
  let nodes ← iterate nodes
  nodes.mapM (Val.subscript · "hostname")

/-- `"PATH"` of the OVIS environment -/
def ovisPath : String :=
  ":".intercalate ["/opt/ovis/bin", "/opt/ovis/sbin", "/usr/local/bin", "/usr/local/sbin",
    "/usr/bin", "/usr/sbin", "/bin", "/sbin"]

/-- The OVIS environment. -/
def ovisEnv (pythonPath : String) : Fields F :=
  [("PATH", .str ovisPath),
    ("LD_LIBRARY_PATH", .str "/opt/ovis/lib:/opt/ovis/lib64"),
    ("ZAP_LIBPATH", .str ("/opt/ovis/lib/ovis-ldms:/opt/ovis/lib64/ovis-ldms:" ++
      "/opt/ovis/lib/ovis-lib:/opt/ovis/lib64/ovis-lib")),
    ("LDMSD_PLUGIN_LIBPATH", .str "/opt/ovis/lib/ovis-ldms:/opt/ovis/lib64/ovis-ldms"),
    ("PYTHONPATH", .str pythonPath)]

/-- The arguments of `__create` that the parameters of its containers depend on. -/
structure Kwargs (F : Type) where
  name : Val F
  image : Val F
  mounts : List (Val F)
  nodes : List (Val F)
  env : Fields F
  /-- `labels["LDMSDCluster.spec"]` -/
  specLabel : String
  capAdd : Val F
  capDrop : Val F

/-- The mount of the prefix and the Python path below it. -/
def prefixOf [PyRuntime F] (m : Machine F) (spec : Fields F) :
    Except PyError (List (Val F) × String) :=
  let ovisPrefix := Val.get spec "ovis_prefix" .none
  if ovisPrefix.truthy then
    match ovisPrefix with
    | .str p => pure ([.str (p ++ ":/opt/ovis:ro")], m.pythonPath p)
    | v => throw ⟨.typeError, "unsupported operand type(s) for +: '" ++ v.typeName ++ "' and 'str'"⟩
  else pure ([], "")

/-- `DockerCluster.spec_to_kwargs(spec)` -/
def specToKwargs [JsonFloat F] (m : Machine F) (spec : Fields F) : Except PyError (Kwargs F) := do
  let name ← Val.getItem spec "name"
  let _nodes ← Val.getItem spec "nodes"
  let (mounts, found) ← prefixOf m spec
  let pythonPath :=
    if found = "" then
      "/opt/ovis/lib/python3.6/site-packages:/opt/ovis/lib64/python3.6/site-packages"
    else found
  let more ← iterate (Val.get spec "mounts" (.list []))
  let hosts ← hostnames spec
  let own ← envDict (Val.get spec "env" (.dict []))
  pure {
    name := name
    image := Val.get spec "image" (.str "ovis-centos-build")
    mounts := mounts ++ more
    nodes := hosts
    env := Dict.update (ovisEnv pythonPath) own
    specLabel := Json.dumps none (.dict spec)
    capAdd := Val.get spec "cap_add" (.list [])
    capDrop := Val.get spec "cap_drop" (.list []) }

/-! ## `__create` -/

/-- `cont_param`, for the client that starts the container -/
structure ContParam (F : Type) where
  image : Val F
  name : String
  environment : Fields F
  volumes : Val F
  capAdd : Val F
  capDrop : Val F
  hostname : String
  tmpfs : Val F
  atstart : Val F

/-- An item of `volumes`, from `SRC:DEST:MODE` -/
def volumeOf : Val F → Except PyError (String × Val F)
  | .str s =>
    match s.toList.splitOn ':' with
    | [src, dst, mo] => pure (String.ofList src,
        .dict [("bind", .str (String.ofList dst)), ("mode", .str (String.ofList mo))])
    | parts =>
      if parts.length < 3 then throw ⟨.valueError, "not enough values to unpack (expected 3, got " ++
        toString parts.length ++ ")"⟩
      else throw ⟨.valueError, "too many values to unpack (expected 3)"⟩
  | v => throw ⟨.attributeError, "'" ++ v.typeName ++ "' object has no attribute 'split'"⟩

/-- `_n["hostname"] == hostname` -/
def isNamed (hostname : String) (node : Fields F) : Bool :=
  match Dict.get? node "hostname" with
  | some (.str h) => h == hostname
  | _ => false

/-- The first of the nodes with the hostname. -/
def findNode (nodes : List (Val F)) (hostname : String) : Option (Fields F) :=
  nodes.findSome? fun
    | .dict node => if isNamed hostname node then some node else none
    | _ => none

/-- The parameters of a container after the `try` over the node with its hostname: when the
update of the environment raises, `atstart` stays as it was. -/
def applyNode (env : Fields F) (node : Fields F) (p : ContParam F) : ContParam F :=
  let (environment, done) := updateEnv p.environment (Val.get node "env" (.dict env))
  { p with
    tmpfs := Val.get node "tmpfs" .none
    image := Val.get node "image" p.image
    volumes := Val.get node "mounts" p.volumes
    environment := environment
    atstart := if done then Val.get node "atstart" p.atstart else p.atstart }

/-- The parameters of the container of a hostname. -/
def contParam [PyRuntime F] (m : Machine F) (nodes : List (Val F)) (kw : Kwargs F)
    (env volumes : Fields F) (hostname : String) : ContParam F :=
  let p : ContParam F := {
    image := kw.image
    name := instanceNameOf kw.name.toStr hostname
    environment := env
    volumes := .dict volumes
    capAdd := kw.capAdd
    capDrop := kw.capDrop
    hostname := hostname
    tmpfs := .none
    atstart := m.atstart }
  match findNode nodes hostname with
  | some node => applyNode env node p
  | none => p

/-- A hostname, which the client takes as a string only. -/
def hostnameOf : Val F → Except PyError String
  | .str h => pure h
  | v =>
    match v.unhashable with
    | some tp => throw ⟨.typeError, "unhashable type: '" ++ tp ++ "'"⟩
    | none => throw ⟨.exception, "Hostname is not a string"⟩

/-- `env.setdefault('TZ', host_tz)` -/
def clusterEnv (m : Machine F) (kw : Kwargs F) : Fields F :=
  Dict.setdefault kw.env "TZ" (.str m.hostTz)

/-- The parameters of the containers that `__create` makes. -/
def contParams [PyRuntime F] (m : Machine F) (spec : Fields F) (kw : Kwargs F) :
    Except PyError (List (ContParam F)) := do
  let volumes ← kw.mounts.mapM volumeOf
  let nodes ← Val.getItem spec "nodes"
  let nodes ← iterate nodes
  kw.nodes.mapM fun node => do
    let hostname ← hostnameOf node
    pure (contParam m nodes kw (clusterEnv m kw) (Dict.update [] volumes) hostname)

/-- `DockerCluster._create(spec)`: the label with the spec, and the parameters of the
containers -/
def create [JsonFloat F] (fuel : ℕ) (m : Machine F) (spec : Fields F) :
    Run PyError (String × List (ContParam F)) := do
  let sp ← Spec.specInit fuel spec
  let kw ← Run.ofExcept (specToKwargs m sp)
  let params ← Run.ofExcept (contParams m sp kw)
  pure (kw.specLabel, params)

/-! ## The hostnames -/

/-- **The hostnames** of a list of nodes. -/
theorem hostnames_eq_ok_iff {spec : Fields F} {hosts : List (Val F)} :
    hostnames spec = .ok hosts ↔ ∃ nodes items, Dict.get? spec "nodes" = some nodes ∧
      iterate nodes = .ok items ∧
      List.Forall₂ (fun item h => ∃ d, item = .dict d ∧ Dict.get? d "hostname" = some h)
        items hosts := by
  unfold hostnames
  constructor
  · intro h
    obtain ⟨nodes, hnodes, h⟩ := exists_of_bind_ok h
    obtain ⟨items, hitems, h⟩ := exists_of_bind_ok h
    refine ⟨nodes, items, Val.getItem_eq_ok_iff.mp hnodes, hitems, ?_⟩
    exact (mapM_eq_ok_iff.mp h).imp fun _ _ => Val.subscript_eq_ok_iff.mp
  · rintro ⟨nodes, items, hnodes, hitems, hhosts⟩
    rw [Val.getItem_eq_ok_iff.mpr hnodes, ok_bind, hitems, ok_bind]
    exact mapM_eq_ok_iff.mpr (hhosts.imp fun _ _ => Val.subscript_eq_ok_iff.mpr)

/-- What the arguments are taken from. -/
theorem specToKwargs_eq [JsonFloat F] {m : Machine F} {spec : Fields F} {kw : Kwargs F}
    (h : specToKwargs m spec = .ok kw) :
    Dict.get? spec "name" = some kw.name ∧ hostnames spec = .ok kw.nodes ∧
      kw.specLabel = Json.dumps none (.dict spec) ∧
      ∃ pythonPath own, envDict (Val.get spec "env" (.dict [])) = .ok own ∧
        kw.env = Dict.update (ovisEnv pythonPath) own := by
  obtain ⟨name, hname, h⟩ := exists_of_bind_ok h
  obtain ⟨_, -, h⟩ := exists_of_bind_ok h
  obtain ⟨_, -, h⟩ := exists_of_bind_ok h
  obtain ⟨_, -, h⟩ := exists_of_bind_ok h
  obtain ⟨hosts, hhosts, h⟩ := exists_of_bind_ok h
  obtain ⟨own, hown, h⟩ := exists_of_bind_ok h
  cases h
  exact ⟨Val.getItem_eq_ok_iff.mp hname, hhosts, rfl, _, own, hown, rfl⟩

theorem eq_str_of_hostnameOf {v : Val F} {h : String} (hv : hostnameOf v = .ok h) : v = .str h := by
  unfold hostnameOf at hv
  split at hv
  · cases hv
    rfl
  · split at hv <;> cases hv

theorem name_contParam [PyRuntime F] (m : Machine F) (nodes : List (Val F)) (kw : Kwargs F)
    (env volumes : Fields F) (h : String) :
    (contParam m nodes kw env volumes h).hostname = h ∧
      (contParam m nodes kw env volumes h).name = instanceNameOf kw.name.toStr h := by
  unfold contParam
  split <;> exact ⟨rfl, rfl⟩

/-- **The parameters of a container** are those of its hostname, and there is one for each node. -/
theorem forall₂_contParams [PyRuntime F] {m : Machine F} {spec : Fields F} {kw : Kwargs F}
    {params : List (ContParam F)} (h : contParams m spec kw = .ok params) :
    ∃ v nodes volumes, Dict.get? spec "nodes" = some v ∧ iterate v = .ok nodes ∧
      List.Forall₂ (fun node p => ∃ host, node = .str host ∧
        p = contParam m nodes kw (clusterEnv m kw) volumes host) kw.nodes params := by
  obtain ⟨volumes, -, h⟩ := exists_of_bind_ok h
  obtain ⟨v, hv, h⟩ := exists_of_bind_ok h
  obtain ⟨nodes, hnodes, h⟩ := exists_of_bind_ok h
  refine ⟨v, nodes, Dict.update [] volumes, Val.getItem_eq_ok_iff.mp hv, hnodes, ?_⟩
  refine (mapM_eq_ok_iff.mp h).imp fun node p hp => ?_
  obtain ⟨host, hhost, hp⟩ := exists_of_bind_ok hp
  cases hp
  exact ⟨host, eq_str_of_hostnameOf hhost, rfl⟩

theorem returns_create [JsonFloat F] {m : Machine F} {spec r : Fields F} {kw : Kwargs F}
    {params : List (ContParam F)} (hr : Returns (fun n => Spec.specInit n spec) r)
    (hkw : specToKwargs m r = .ok kw) (hparams : contParams m r kw = .ok params) :
    Returns (fun n => create n m spec) (kw.specLabel, params) := by
  refine hr.bind ?_
  simp only [hkw, hparams, Run.ofExcept_ok, pure_bind]
  exact returns_pure _

/-- What a creation has done when it returns. -/
theorem exists_of_returns_create [JsonFloat F] {m : Machine F} {spec r : Fields F}
    {label : String} {params : List (ContParam F)}
    (h : Returns (fun n => create n m spec) (label, params))
    (hr : Returns (fun n => Spec.specInit n spec) r) :
    ∃ kw, specToKwargs m r = .ok kw ∧ contParams m r kw = .ok params ∧ label = kw.specLabel := by
  obtain ⟨fuel, hrun⟩ := h.exists_run
  obtain ⟨r', hr', hrun⟩ := Run.exists_of_run_bind_ok hrun
  obtain ⟨kw, hkw, hrun⟩ := Run.exists_of_run_bind_ok hrun
  obtain ⟨params', hparams, hrun⟩ := Run.exists_of_run_bind_ok hrun
  cases hrun
  obtain rfl := Except.ok.inj (hr.eq_of_run hr')
  exact ⟨kw, Run.eq_of_run_ofExcept hkw, Run.eq_of_run_ofExcept hparams, rfl⟩

end Docker
end LdmsTest
