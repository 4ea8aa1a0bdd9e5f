import LdmsTest.Docker.LdmsdEnv
import LdmsTest.Python.JsonAppend
import LdmsTest.Singularity.Hostnames
import LdmsTest.Singularity.SClusterGet
import LdmsTest.Spec.Listed

/-!
# `LDMSDCluster.get`

A cluster that exists is returned if its spec is the one that is given.  A Docker cluster has its
processed spec as JSON in a label, and the containers of a Singularity cluster have the spec as it
was given, as JSON in a file, which is processed after it is read.

Either way the spec that the given one is compared with has been through JSON, so it has a list for
every tuple.  The main result says that a cluster is found again exactly if there is no tuple and no
NaN in the spec; what else Singularity takes for containers of the cluster is a matter of the names.

* `get`: `LDMSDCluster.get`, for a class of clusters.
* `docker`, `singularity`: the two classes.
* `get_iff_storable`: when a cluster is found again.
-/

namespace LdmsTest
namespace LDMSDCluster

open Json (JsonFloat listed listedFields)
open SCluster (Confused ContainerClass Found Hosts Inst Running World createdFor namedFor)
open Spec (Storable)
open Val (Fields)

variable {F C : Type}

/-! ## `get` -/

/-- What `get` uses of a class of clusters. -/
structure Runtime (F C : Type) where
  /-- `_cls._get(name)` -/
  find : String → Except PyError C
  /-- `cluster.spec` -/
  spec : ℕ → C → Run PyError (Val F)
  /-- `_cls.create(spec)` -/
  create : ℕ → Option (Fields F) → Run PyError C

/-- `isinstance(e, LookupError)` -/
def isLookupError (e : PyError) : Bool :=
  e.kind = .lookupError || e.kind = .keyError || e.kind = .indexError

/-- The `RuntimeError` for another spec. -/
def specMismatch : PyError :=
  ⟨.runtimeError, "spec mismatch"⟩

/-- The `try` of `get`. -/
def getExisting [FloatEq F] (cls : Runtime F C) (fuel : ℕ) (name : String)
    (spec : Option (Fields F)) : Run PyError C := do
  let cluster ← Run.ofExcept (cls.find name)
  match spec with
  | none | some [] => pure cluster
  | some spec => do
    let given ← Spec.specInit fuel spec
    let held ← cls.spec fuel cluster
    if Val.eq (.dict given) held then pure cluster else throw specMismatch

/-- `LDMSDCluster.get(name, create, spec)` -/
def get [FloatEq F] (cls : Runtime F C) (fuel : ℕ) (name : String) (create : Bool)
    (spec : Option (Fields F)) : Run PyError C :=
  tryCatch (getExisting cls fuel name spec) fun e =>
    if isLookupError e && create then cls.create fuel spec else throw e

/-! ## Docker -/

/-- A Docker network. -/
structure DockerNetwork where
  name : String
  /-- `attrs["Labels"]` -/
  labels : Dict String String

/-- `DockerCluster(obj)` -/
def dockerCluster (obj : DockerNetwork) : Except PyError DockerNetwork :=
  if (Dict.get? obj.labels "DockerCluster").isSome then pure obj
  else throw ⟨.typeError, "The network is not created by DockerCluster. " ++
    "Please remove or disconnect docker containers using the network first, then remove the " ++
    "network by `docker network rm " ++ obj.name ++ "`. "⟩

/-- `DockerCluster`, where `networks` is `networks.get` of the client.  It is undefined where that
raises `NotFound`. -/
def docker [JsonFloat F] (networks : String → Option DockerNetwork)
    (create : ℕ → Option (Fields F) → Run PyError DockerNetwork) : Runtime F DockerNetwork where
  find name :=
    match networks name with
    | some obj => dockerCluster obj
    | none => throw ⟨.lookupError, ""⟩
  spec _ obj := Run.ofExcept <|
    match Dict.get? obj.labels "LDMSDCluster.spec" with
    | some label => Val.dict <$> Docker.getSpec label
    | none => throw ⟨.keyError, "'LDMSDCluster.spec'"⟩
  create := create

/-- The labels of the network that `DockerCluster.__create` makes. -/
def labelsOf (specLabel nodeAliases cfg contBuild : String) : Dict String String :=
  let lbl := Dict.update [("LDMSDCluster.spec", specLabel)]
    [("node_aliases", nodeAliases), ("DockerCluster", cfg)]
  Dict.set lbl "cont_build" contBuild

/-- **The network of a cluster that was created from the spec**, which Docker has under a name. -/
structure OnDocker [JsonFloat F] (m : Docker.Machine F) (spec : Fields F)
    (networks : String → Option DockerNetwork) (name : String) (obj : DockerNetwork) : Prop where
  created : ∃ specLabel params nodeAliases cfg contBuild,
    Returns (fun n => Docker.create n m spec) (specLabel, params) ∧
      obj.labels = labelsOf specLabel nodeAliases cfg contBuild
  found : networks name = some obj

/-! ## Singularity -/

/-- `echo "$1"` into the file of a container -/
def clusterSpecFile [JsonFloat F] (c : SCluster.Container F) : String :=
  Json.dumps none (.dict c.clusterSpec) ++ "\n"

/-- `cont.get_cluster_spec()`, for what `read_file` returned -/
def getClusterSpec [JsonFloat F] (fuel : ℕ) (j : String) : Run PyError (Val F) :=
  if j = "" then pure .none
  else
    match Json.loads j with
    | .ok (.dict spec) => Val.dict <$> Spec.specInit fuel spec
    | .ok v => do
      let copy ← Run.ofExcept v.deepCopy
      throw ⟨.attributeError, "'" ++ copy.typeName ++ "' object has no attribute 'get'"⟩
    | .error _ => throw ⟨.valueError, "the file is not JSON"⟩

/-- `SCluster` with a class of containers, where `readFile` reads the file with the spec in a
container. -/
def singularity [JsonFloat F] (cont : ContainerClass) (hosts : Hosts)
    (readFile : Inst → Except PyError String)
    (create : ℕ → Option (Fields F) → Run PyError Found) : Runtime F Found where
  find := SCluster.get cont hosts
  spec fuel cluster :=
    match cluster.containers with
    | [] => throw ⟨.runtimeError, "No containers"⟩
    | cont :: _ => do
      let j ← Run.ofExcept (readFile cont)
      getClusterSpec fuel j
  create := create

/-- **The containers of a cluster that was created from the spec**: at least one of them runs, and
each that runs has the file of a container that was started for the cluster. -/
structure OnSingularity [JsonFloat F] (cont : ContainerClass) (w : World F) (net : Network)
    (file : String) (spec : ClusterSpec F) (hosts : Hosts)
    (readFile : Inst → Except PyError String) (running : List Running) : Prop where
  created : ∃ created,
    Returns (fun n => SCluster.startContainers n cont w net file spec) created ∧
      ∀ r ∈ running, r.clusterName = spec.name → ∃ c ∈ created.started,
        r.inst.instanceName = c.instanceName ∧ readFile r.inst = .ok (clusterSpecFile c)
  runs : ∃ r ∈ running, r.clusterName = spec.name
  instList : hosts.instList = .ok (running.map Running.inst)
  handle : ∀ r ∈ running, ∃ hostname, hosts.handle r.inst = .ok hostname

/-! ## The comparison -/

variable [FloatEq F]

/-- **A cluster with the spec through JSON** is returned if no tuple and no NaN is in the spec, and
otherwise the specs do not match. -/
theorem get_existing {cls : Runtime F C} {name : String} {cluster : C} {spec given : Fields F}
    (hspec : (Val.dict spec).Keyed) (hne : spec ≠ []) (hfind : cls.find name = .ok cluster)
    (hgiven : Returns (fun n => Spec.specInit n spec) given)
    (hheld : Returns (fun n => cls.spec n cluster) (.dict (listedFields given))) (create : Bool) :
    (Storable spec → Returns (fun n => get cls n name create (some spec)) cluster) ∧
      (¬ Storable spec → Raises (fun n => get cls n name create (some spec)) specMismatch) := by
  obtain ⟨item, items, rfl⟩ := List.exists_cons_of_ne_nil hne
  have heq : Val.eq (.dict given) (.dict (listedFields given)) ↔ Storable (item :: items) :=
    (Val.eq_listed_iff (Spec.wf_of_returns hspec hgiven).keyed).trans
      (Spec.plain_iff_storable hspec hgiven)
  have hexisting (n : ℕ) : getExisting cls n name (some (item :: items)) =
      Spec.specInit n (item :: items) >>= fun given => cls.spec n cluster >>= fun held =>
        if Val.eq (.dict given) held then pure cluster else throw specMismatch := by
    rw [getExisting, hfind, Run.ofExcept_ok, pure_bind]
  constructor
  · intro hstorable
    refine Returns.tryCatch ?_ _
    simp only [hexisting]
    refine hgiven.bind (hheld.bind ?_)
    simp only [if_pos (heq.mpr hstorable)]
    exact returns_pure cluster
  · intro hstorable
    refine Raises.tryCatch (e := specMismatch) ?_ ?_
    · simp only [hexisting]
      refine hgiven.bind (hheld.bind ?_)
      simp only [if_neg fun h => hstorable (heq.mp h)]
      exact raises_throw specMismatch
    · exact raises_throw specMismatch

omit [FloatEq F] in
theorem ne_nil_of_get? {d : Fields F} {k : String} {v : Val F} (h : Dict.get? d k = some v) :
    d ≠ [] := by
  rintro rfl
  cases h

/-- The label of the network of a cluster holds the processed spec. -/
theorem OnDocker.exists_label {m : Docker.Machine F} {spec : Fields F}
    {networks : String → Option DockerNetwork} {name : String} {obj : DockerNetwork}
    (h : OnDocker m spec networks name obj) (hspec : (Val.dict spec).Keyed) :
    ∃ given, Returns (fun n => Spec.specInit n spec) given ∧ spec ≠ [] ∧
      Dict.get? obj.labels "LDMSDCluster.spec" = some (Json.dumps none (.dict given)) ∧
      dockerCluster obj = .ok obj := by
  obtain ⟨specLabel, params, nodeAliases, cfg, contBuild, hcreate, hlabels⟩ := h.created
  obtain ⟨fuel, hrun⟩ := hcreate.exists_run
  obtain ⟨given, hrun, -⟩ := Run.exists_of_run_bind_ok hrun
  have hgiven := (Spec.exists_has_specInit spec).choose_spec.returns_of_run hrun
  obtain ⟨kw, hkw, -, rfl⟩ := Docker.exists_of_returns_create hcreate hgiven
  obtain ⟨hname, -, hlabel, -⟩ := Docker.specToKwargs_eq hkw
  -- the spec has a name, as what is made of it has the same keys
  have hwf := Spec.wf_of_returns_specInit hspec hgiven
  obtain ⟨e, he, hsubst⟩ := Spec.exists_of_returns_specInit hwf hgiven
  have hsome : (Dict.get? given "name").isSome = (Dict.get? spec "name").isSome :=
    ((Spec.isSubstitution_of_returns hsubst).isSome_get?_eq _).trans
      ((Spec.isExpansion_of_returns hwf he).isSome_get?_eq _)
  rw [hname, Option.isSome_some] at hsome
  obtain ⟨v, hv⟩ := Option.isSome_iff_exists.mp hsome.symm
  refine ⟨given, hgiven, ne_nil_of_get? hv, ?_, ?_⟩
  · rw [hlabels, ← hlabel]
    rfl
  · rw [dockerCluster, hlabels]
    rfl

/-- **A Docker cluster** is found again if the spec can be stored, and only then. -/
theorem OnDocker.get {m : Docker.Machine F} {spec : Fields F}
    {networks : String → Option DockerNetwork} {name : String} {obj : DockerNetwork}
    (h : OnDocker m spec networks name obj) (hspec : (Val.dict spec).Keyed)
    (create : ℕ → Option (Fields F) → Run PyError DockerNetwork) :
    (Storable spec → Returns (fun n => get (docker networks create) n name true (some spec)) obj) ∧
      (¬ Storable spec →
        Raises (fun n => get (docker networks create) n name true (some spec)) specMismatch) := by
  obtain ⟨given, hgiven, hne, hlabel, hobj⟩ := h.exists_label hspec
  refine get_existing hspec hne ?_ hgiven ?_ true
  · simp only [docker, h.found]
    exact hobj
  · have hloads : Docker.getSpec (Json.dumps none (.dict given)) = .ok (listedFields given) :=
      Docker.getSpec_dumps (Spec.wf_of_returns hspec hgiven).keyed
    simp only [docker, hlabel, hloads]
    exact returns_pure _

section Singularity

variable {cont : ContainerClass} {w : World F} {net : Network} {file : String}
  {spec : ClusterSpec F} {hosts : Hosts} {readFile : Inst → Except PyError String}
  {running : List Running}

/-- A container of the cluster was started, so the class of the containers has no abstract
method. -/
theorem OnSingularity.missing_eq_nil
    (h : OnSingularity cont w net file spec hosts readFile running) : cont.missing = [] := by
  obtain ⟨created, hcreate, hfiles⟩ := h.created
  obtain ⟨fuel, hrun⟩ := hcreate.exists_run
  obtain ⟨_, _, _, -, -, -, hstarts, -⟩ := SCluster.exists_of_startContainers hrun
  obtain ⟨r, hr, hname⟩ := h.runs
  obtain ⟨c, hc, -⟩ := hfiles r hr hname
  exact hstarts.complete (List.ne_nil_of_mem hc)

/-- What `cluster.spec` is, when the containers of a handle are those of the cluster. -/
theorem OnSingularity.exists_spec
    (h : OnSingularity cont w net file spec hosts readFile running)
    (hspec : (Val.dict spec.fields).Keyed) {found : Found}
    (hfound : found.containers.Perm (createdFor spec.name running))
    (create : ℕ → Option (Fields F) → Run PyError Found) :
    ∃ given, Returns (fun n => Spec.specInit n spec.fields) given ∧
      Returns (fun n => (singularity cont hosts readFile create).spec n found)
        (.dict (listedFields given)) := by
  obtain ⟨created, hcreate, hfiles⟩ := h.created
  obtain ⟨fuel, hrun⟩ := hcreate.exists_run
  obtain ⟨_, _, _, -, -, -, hstarts, -⟩ := SCluster.exists_of_startContainers hrun
  have hspecs : ∀ c ∈ created.started, c.clusterSpec = spec.fields := by
    intro c hc
    obtain ⟨_, _, hmade⟩ := hstarts.made c hc
    obtain ⟨_, -, hmade⟩ := exists_of_bind_ok hmade
    cases hmade
    rfl
  obtain ⟨given, hrun, -⟩ := Run.exists_of_run_bind_ok hrun
  have hgiven := (Spec.exists_has_specInit spec.fields).choose_spec.returns_of_run hrun
  refine ⟨given, hgiven, ?_⟩
  -- the first of the containers
  obtain ⟨r, hr, hname⟩ := h.runs
  have hmem : r.inst ∈ createdFor spec.name running :=
    List.mem_map_of_mem (List.mem_filter.mpr ⟨hr, decide_eq_true hname⟩)
  obtain ⟨first, conts, hconts⟩ :=
    List.exists_cons_of_ne_nil (List.ne_nil_of_mem (hfound.mem_iff.mpr hmem))
  have hfirst : first ∈ createdFor spec.name running :=
    hfound.mem_iff.mp (hconts ▸ List.mem_cons_self)
  obtain ⟨r', hr', rfl⟩ := List.mem_map.mp hfirst
  obtain ⟨hr', hname'⟩ := List.mem_filter.mp hr'
  obtain ⟨c, hc, -, hread⟩ := hfiles r' hr' (of_decide_eq_true hname')
  have hloads : Json.loads (clusterSpecFile c) = .ok (.dict (listedFields spec.fields)) := by
    rw [clusterSpecFile, hspecs c hc]
    exact Json.loads_append_newline (Json.loads_dumps hspec none)
  have hne : clusterSpecFile c ≠ "" := by
    intro hempty
    have hlist := congrArg String.toList hempty
    rw [clusterSpecFile, String.toList_append] at hlist
    exact List.append_ne_nil_of_right_ne_nil _ (by decide) hlist
  simp only [singularity, hconts, hread, Run.ofExcept_ok, pure_bind, getClusterSpec, if_neg hne,
    hloads]
  exact (Spec.returns_specInit_listed hspec hgiven).map _

/-- **A Singularity cluster** is found again, by its containers, if the spec can be stored and no
other cluster runs a container with a confused name, and only then. -/
theorem OnSingularity.get_iff (h : OnSingularity cont w net file spec hosts readFile running)
    (hspec : (Val.dict spec.fields).Keyed)
    (create : ℕ → Option (Fields F) → Run PyError Found) :
    (∃ found, SCluster.get cont hosts spec.name = .ok found ∧
      Returns (fun n => get (singularity cont hosts readFile create) n spec.name true
        (some spec.fields)) found ∧
      found.containers.Perm (createdFor spec.name running)) ↔
    (∀ r ∈ running, r.clusterName ≠ spec.name →
      ¬ Confused spec.name r.clusterName r.nodeName) ∧ Storable spec.fields := by
  have hget := SCluster.get_eq h.missing_eq_nil spec.name h.instList h.handle
  have hne := ne_nil_of_get? spec.get?_name
  constructor
  · rintro ⟨found, hfound, hreturns, hperm⟩
    obtain ⟨given, hgiven, hheld⟩ := h.exists_spec hspec hperm create
    refine ⟨fun r hr hother hconf => ?_, ?_⟩
    · have hlt := SCluster.length_createdFor_lt hr hother hconf
      rw [hget] at hfound
      split at hfound
      · cases hfound
      · cases hfound
        have hlen := ((List.mergeSort_perm _ _).symm.trans hperm).length_eq
        omega
    · by_contra hstorable
      have hraises := (get_existing hspec hne hfound hgiven hheld true).2 hstorable
      cases Settles.unique hreturns hraises
  · rintro ⟨hnames, hstorable⟩
    rw [SCluster.namedFor_eq_createdFor hnames] at hget
    have hnonempty : (createdFor spec.name running).isEmpty = false := by
      obtain ⟨r, hr, hname⟩ := h.runs
      rw [List.isEmpty_eq_false_iff]
      exact List.ne_nil_of_mem
        (List.mem_map_of_mem (List.mem_filter.mpr ⟨hr, decide_eq_true hname⟩))
    rw [hnonempty, if_neg Bool.false_ne_true] at hget
    obtain ⟨found, hfound, hperm⟩ : ∃ found, SCluster.get cont hosts spec.name = .ok found ∧
        found.containers.Perm (createdFor spec.name running) :=
      ⟨_, hget, List.mergeSort_perm _ _⟩
    obtain ⟨given, hgiven, hheld⟩ := h.exists_spec hspec hperm create
    exact ⟨found, hfound, (get_existing hspec hne hfound hgiven hheld true).1 hstorable, hperm⟩

end Singularity

/-- **When a cluster is found again.**  After a Docker cluster was created from a spec, `get` with
the same spec returns the network of the cluster exactly if the spec can be stored, and reports a
mismatch otherwise.  After a Singularity cluster was created from it, `get` returns the containers of
the cluster exactly if the spec can be stored and no other cluster runs a container whose name is
confused with one of them. -/
theorem get_iff_storable (spec : Fields F) (hspec : (Val.dict spec).Keyed) :
    (∀ (m : Docker.Machine F) (networks : String → Option DockerNetwork) (name : String)
        (obj : DockerNetwork) (create : ℕ → Option (Fields F) → Run PyError DockerNetwork),
      OnDocker m spec networks name obj →
        (Returns (fun n => get (docker networks create) n name true (some spec)) obj ↔
          Storable spec) ∧
        (Raises (fun n => get (docker networks create) n name true (some spec)) specMismatch ↔
          ¬ Storable spec)) ∧
    ∀ (cont : ContainerClass) (w : World F) (net : Network) (file : String)
        (cspec : ClusterSpec F) (hosts : Hosts) (readFile : Inst → Except PyError String)
        (running : List Running) (create : ℕ → Option (Fields F) → Run PyError Found),
        cspec.fields = spec →
      OnSingularity cont w net file cspec hosts readFile running →
        ((∃ found, SCluster.get cont hosts cspec.name = .ok found ∧
          Returns (fun n => get (singularity cont hosts readFile create) n cspec.name true
            (some spec)) found ∧
          found.containers.Perm (createdFor cspec.name running)) ↔
        (∀ r ∈ running, r.clusterName ≠ cspec.name →
          ¬ Confused cspec.name r.clusterName r.nodeName) ∧ Storable spec) := by
  refine ⟨fun m networks name obj create h => ?_, ?_⟩
  · obtain ⟨hyes, hno⟩ := h.get hspec create
    refine ⟨⟨fun hreturns => ?_, hyes⟩, ⟨fun hraises hstorable => ?_, hno⟩⟩
    · by_contra hstorable
      cases Settles.unique hreturns (hno hstorable)
    · cases Settles.unique (hyes hstorable) hraises
  · rintro cont w net file cspec hosts readFile running create rfl h
    exact h.get_iff hspec create

/-! ## Two specs -/

/-- A cluster of one node. -/
def oneNode : ClusterSpec Json.SampleFloat where
  fields := [("name", .str "c"), ("nodes", .list [.dict [("hostname", .str "node-1")]])]
  name := "c"
  get?_name := rfl

/-- The network of a cluster that was created from a spec that is its own result. -/
def networkOf (spec : Fields Json.SampleFloat) : DockerNetwork :=
  ⟨"c", labelsOf (Json.dumps none (.dict spec)) "" "" ""⟩

theorem onDocker_networkOf {spec : Fields Json.SampleFloat} {kw : Docker.Kwargs Json.SampleFloat}
    {params : List (Docker.ContParam Json.SampleFloat)}
    (hspec : Returns (fun n => Spec.specInit n spec) spec)
    (hkw : Docker.specToKwargs Docker.plainMachine spec = .ok kw)
    (hparams : Docker.contParams Docker.plainMachine spec kw = .ok params) :
    OnDocker Docker.plainMachine spec (fun _ => some (networkOf spec)) "c" (networkOf spec) := by
  obtain ⟨-, -, hlabel, -⟩ := Docker.specToKwargs_eq hkw
  exact ⟨⟨_, params, "", "", "", hlabel ▸ Docker.returns_create hspec hkw hparams, rfl⟩, rfl⟩

theorem returns_specInit_oneNode :
    Returns (fun n => Spec.specInit n oneNode.fields) oneNode.fields :=
  (Spec.exists_has_specInit oneNode.fields).choose_spec.returns_of_run (m := 1) rfl

theorem storable_oneNode : Storable oneNode.fields := by
  have hstr (ignored : Set String) (s : String) :
      Val.Plain ignored (.str s : Val Json.SampleFloat) := .primitive rfl nofun
  refine List.forall_mem_cons.mpr ⟨hstr _ _, List.forall_mem_singleton.mpr ?_⟩
  refine .list (List.forall_mem_singleton.mpr (.dict (List.forall_mem_singleton.mpr ?_)))
  exact fun _ => hstr _ _

/-- The container of the node of the cluster. -/
def oneNodeContainer : SCluster.Container Json.SampleFloat where
  instanceName := "c-node-1"
  sshHost := "head"
  sshPort := "22"
  nodeSpec := [("hostname", .str "node-1"), ("sing_host", .str "head"), ("sing_port", .str "22")]
  ipAddr := 9
  clusterSpec := oneNode.fields

/-- The one container of the cluster, which has the file that was written for it. -/
theorem onSingularity_oneNode : OnSingularity SCluster.completeContainer SCluster.quietWorld ⟨8, 7⟩
    (IPAddrDb.write (IPAddrDb.ofTbl Json.SampleFloat [("c", [(9, 9)])])) oneNode
    (SCluster.hostsOf [SCluster.runningOn "c" "node-1" 7])
    (fun _ => .ok (clusterSpecFile oneNodeContainer))
    [SCluster.runningOn "c" "node-1" 7] := by
  have hsep : Ranges.Separated [((9, 9) : Entry)] :=
    Ranges.separated_cons_iff.mpr ⟨by decide, nofun, Ranges.separated_nil⟩
  have hfree : IPAddrDb.addresses [(9, 9)] ⊆
      (Allocation.empty String (Network.pool ⟨8, 7⟩)).free := by
    rw [Allocation.free_empty]
    decide
  have hA : IPAddrDb.Records [("c", [(9, 9)])] _ :=
    (IPAddrDb.records_empty (Network.pool ⟨8, 7⟩)).set (c := "c") nofun hsep hfree
  have hknown : Dict.get? [("c", ([(9, 9)] : HexRanges))] "c" = some [(9, 9)] := rfl
  have halloc := IPAddrDb.allocAddr_known Json.SampleFloat hA hknown 1
  have hnodes : SCluster.nodesOf SCluster.completeContainer SCluster.quietWorld oneNode =
      .ok [oneNodeContainer.nodeSpec] := rfl
  have hlen : [oneNodeContainer.nodeSpec].length = 1 := rfl
  have hname : oneNode.name = "c" := rfl
  have hstart : SCluster.startLoop SCluster.completeContainer SCluster.quietWorld oneNode []
      ([oneNodeContainer.nodeSpec].zip (Ranges.listPoints [(9, 9)])) =
        ([oneNodeContainer], .ok ()) := rfl
  refine ⟨⟨⟨oneNode.fields, [oneNodeContainer], .ok (),
    IPAddrDb.write (IPAddrDb.ofTbl Json.SampleFloat [("c", [(9, 9)])])⟩, ?_, ?_⟩,
    ⟨_, List.mem_cons_self, rfl⟩, rfl, fun r _ => ⟨_, rfl⟩⟩
  · refine returns_specInit_oneNode.bind ?_
    simp only [hnodes, Run.ofExcept_ok, pure_bind, hlen, hname, halloc, hstart]
    exact returns_pure _
  · intro r hr _
    obtain rfl := List.mem_singleton.mp hr
    exact ⟨_, List.mem_cons_self, rfl, rfl⟩

/-- A cluster of one node is found again by both classes. -/
theorem get_oneNode :
    Returns (fun n => get (docker (fun _ => some (networkOf oneNode.fields))
      fun _ _ => throw ⟨.exception, ""⟩) n "c" true (some oneNode.fields))
      (networkOf oneNode.fields) ∧
    ∃ found, SCluster.get SCluster.completeContainer
        (SCluster.hostsOf [SCluster.runningOn "c" "node-1" 7]) "c" = .ok found ∧
      Returns (fun n => get (singularity SCluster.completeContainer
        (SCluster.hostsOf [SCluster.runningOn "c" "node-1" 7])
        (fun _ => .ok (clusterSpecFile oneNodeContainer))
        fun _ _ => throw ⟨.exception, ""⟩) n "c" true (some oneNode.fields)) found ∧
      found.containers.Perm (createdFor "c" [SCluster.runningOn "c" "node-1" 7]) := by
  have hkeyed : (Val.dict oneNode.fields).Keyed := Val.WF.keyed (by decide)
  obtain ⟨hdocker, hsingularity⟩ := get_iff_storable oneNode.fields hkeyed
  refine ⟨(hdocker _ _ _ _ _ (onDocker_networkOf returns_specInit_oneNode rfl rfl)).1.mpr
    storable_oneNode, ?_⟩
  refine (hsingularity _ _ _ _ oneNode _ _ _ _ rfl onSingularity_oneNode).mpr
    ⟨fun r hr hne => ?_, storable_oneNode⟩
  obtain rfl := List.mem_singleton.mp hr
  exact absurd rfl hne

/-- A cluster of one node with its capabilities as a tuple. -/
def tupleCaps : Fields Json.SampleFloat :=
  oneNode.fields ++ [("cap_add", .tuple [.str "SYS_PTRACE"])]

/-- **A tuple in the spec**: the cluster that was created from it has another spec. -/
theorem not_returns_tupleCaps : (Val.dict tupleCaps).Keyed ∧
    OnDocker Docker.plainMachine tupleCaps (fun _ => some (networkOf tupleCaps)) "c"
      (networkOf tupleCaps) ∧
    Raises (fun n => get (docker (fun _ => some (networkOf tupleCaps))
      fun _ _ => throw ⟨.exception, ""⟩) n "c" true (some tupleCaps)) specMismatch ∧
    ¬ Returns (fun n => get (docker (fun _ => some (networkOf tupleCaps))
      fun _ _ => throw ⟨.exception, ""⟩) n "c" true (some tupleCaps)) (networkOf tupleCaps) := by
  have hkeyed : (Val.dict tupleCaps).Keyed := Val.WF.keyed (by decide)
  have hinit : Returns (fun n => Spec.specInit n tupleCaps) tupleCaps :=
    (Spec.exists_has_specInit tupleCaps).choose_spec.returns_of_run (m := 1) rfl
  have hcreated := onDocker_networkOf hinit rfl rfl
  have hno : ¬ Storable tupleCaps := fun h =>
    Val.not_plain_tuple _ (h ("cap_add", _) (List.mem_append_right _ (List.mem_singleton_self _)))
  have hraises := (hcreated.get hkeyed fun _ _ => throw ⟨.exception, ""⟩).2 hno
  refine ⟨hkeyed, hcreated, hraises, fun hreturns => ?_⟩
  cases Settles.unique hreturns hraises

end LDMSDCluster
end LdmsTest
