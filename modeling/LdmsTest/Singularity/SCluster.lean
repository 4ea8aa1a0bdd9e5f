import LdmsTest.Python.Heapq
import LdmsTest.Singularity.IPAddrDb
import LdmsTest.Spec.Init

/-!
# `SCluster`

The virtual clusters of `runtime.singularity`, and how one is created.

What the hosts do is a `World`: which containers run, whether a container can be started, and
what a command in a container does.  No object is made of a class that leaves a method abstract, and
`SContainer` does (`sContainer`); so the definitions take the class of the containers.

* `startContainers`: what `_create` does up to the end of the loop that starts the containers.
* `create_correct`: what `_create` has started, for every reachable address database.
-/

namespace LdmsTest

/-- **A spec of a cluster**, as a dictionary with a name that is a string. -/
structure ClusterSpec (F : Type) where
  fields : Val.Fields F
  name : String
  get?_name : Dict.get? fields "name" = some (.str name)

namespace SCluster

open Json (JsonFloat)
open Val (Fields)
open Ranges (listPoints)

/-! ## The class of the containers -/

/-- A class of containers: the methods that its base class leaves abstract, and the ones that it
defines. -/
structure ContainerClass where
  name : String
  abstractMethods : List String
  methods : List String

/-- The methods that are abstract in the class, too. -/
def ContainerClass.missing (cls : ContainerClass) : List String :=
  cls.abstractMethods.filter (· ∉ cls.methods)

/-- `cls(...)`, before `__init__` -/
def ContainerClass.new (cls : ContainerClass) : Except PyError Unit :=
  if cls.missing = [] then pure ()
  else throw ⟨.typeError, "Can't instantiate abstract class " ++ cls.name ++
    " with abstract methods " ++ String.intercalate ", " cls.missing⟩

/-- `SContainer`, and the abstract methods of `LDMSDContainer` -/
def sContainer : ContainerClass where
  name := "SContainer"
  abstractMethods := ["start", "stop", "exec_run", "pipe", "write_file", "read_file",
    "exec_interact", "get_interfaces", "get_ip_addr", "get_ipv6_addr", "get_name", "get_hostname",
    "get_host", "get_aliases", "get_env"]
  methods := ["__init__", "check_SContainer", "__repr__", "json_load", "list", "find", "as_dict",
    "as_json", "get_ip_addr", "set_ip_addr", "_prep_scmd", "shell", "_exec_run", "_exec_run_old",
    "exec_run", "pipe", "exec_interact", "get_env", "get_name", "get_hostname", "get_host",
    "get_aliases", "get_interfaces", "read_file", "write_file", "start", "stop", "is_running",
    "cluster_name", "cluster_spec", "get_cluster_spec"]

/-- **`SContainer` has no `get_ipv6_addr`**, so no object is made of it. -/
theorem missing_sContainer : sContainer.missing = ["get_ipv6_addr"] := by decide

theorem ContainerClass.new_of_complete {cls : ContainerClass} (h : cls.missing = []) :
    cls.new = .ok () := by
  rw [new, if_pos h]
  rfl

theorem ContainerClass.complete_of_new {cls : ContainerClass} (h : cls.new = .ok ()) :
    cls.missing = [] := by
  by_contra hne
  rw [new, if_neg hne] at h
  cases h

/-- The error of a class with an abstract method is a `TypeError`. -/
theorem ContainerClass.exists_new_error {cls : ContainerClass} (h : cls.missing ≠ []) :
    ∃ e, cls.new = .error e ∧ e.kind = .typeError := by
  rw [new, if_neg h]
  exact ⟨_, rfl, rfl⟩

/-! ## Containers -/

/-- An `SContainer` that `_create` makes. -/
structure Container (F : Type) where
  /-- `instance` -/
  instanceName : String
  sshHost : String
  sshPort : String
  nodeSpec : Fields F
  /-- `int(ip_addr)` -/
  ipAddr : ℤ
  clusterSpec : Fields F

/-- `SCluster`, as `_create` returns it -/
structure Cluster (F : Type) where
  name : String
  spec : Fields F
  containers : List (Container F)

/-- What the hosts do. -/
structure World (F : Type) where
  /-- `G.sing_hosts` -/
  singHosts : List String
  /-- `_inst_list()`: the `ssh_host` of each instance, and what `SContainer.__init__` does for it -/
  instList : Except PyError (List (String × Except PyError Unit))
  /-- `SContainer.__init__` and `cont.start()`, after these containers were started -/
  start : List (Container F) → Container F → Except PyError Unit
  /-- `cluster.update_etc_hosts(...)` -/
  updateEtcHosts : List (Container F) → Except PyError Unit
  /-- `cont.exec_run(cmd, user="root")` -/
  execRun : Container F → String → Except PyError Unit

/-- `"{}-{}".format(cluster_name, node_name)` -/
def instanceNameOf (clusterName nodeName : String) : String :=
  clusterName ++ "-" ++ nodeName

variable {F : Type} [JsonFloat F]

/-- `get_instance_name(node_spec, cluster_spec)` -/
def getInstanceName (nodeSpec : Fields F) (spec : ClusterSpec F) : Except PyError String := do
  let nodeName ← Val.getItem nodeSpec "hostname"
  pure (instanceNameOf spec.name nodeName.toStr)

/-! ## `_create` -/

/-- `HeapEntry`, with the length of `conts` -/
structure HeapEntry where
  host : String
  conts : ℕ

/-- `len(self.conts) < len(other.conts)` -/
def HeapEntry.lt (self other : HeapEntry) : Bool :=
  self.conts < other.conts

/-- `h.split(':')[0]` -/
def hostOf (h : String) : String :=
  String.ofList (h.toList.takeWhile (· ≠ ':'))

/-- `host, port = (host.split(':', 1) + [ "22" ])[:2]` -/
def hostPort (h : String) : String × String :=
  match h.toList.dropWhile (· ≠ ':') with
  | [] => (h, "22")
  | _ :: port => (hostOf h, String.ofList port)

/-- `heap`: the hosts, with the containers that run on each -/
def hostHeap (singHosts running : List String) : Except PyError (List HeapEntry) := do
  let heap := singHosts.foldl (fun heap h => Dict.set heap (hostOf h) ⟨h, 0⟩) []
  let heap ← running.foldlM (fun heap sshHost =>
    match Dict.get? heap sshHost with
    | none => throw ⟨.keyError, "'" ++ sshHost ++ "'"⟩
    | some ent => pure (Dict.set heap sshHost { ent with conts := ent.conts + 1 })) heap
  pure (Heapq.heapify HeapEntry.lt (heap.map Prod.snd))

/-- What a `for` loop goes through. -/
def iterate : Val F → Except PyError (List (Val F))
  | .list xs => pure xs
  | .tuple xs => pure xs
  | .dict d => pure ((Dict.keys d).map .str)
  | .str s => pure (s.toList.map fun c => .str (String.ofList [c]))
  | v => throw ⟨.typeError, "'" ++ v.typeName ++ "' object is not iterable"⟩

/-- `node["sing_host"] = host` and `node["sing_port"] = port` -/
def setHost (node : Val F) (host port : String) : Except PyError (Fields F) :=
  match node with
  | .dict d => pure (Dict.set (Dict.set d "sing_host" (.str host)) "sing_port" (.str port))
  | .list _ => throw ⟨.typeError, "list indices must be integers or slices, not str"⟩
  | v => throw ⟨.typeError, "'" ++ v.typeName ++ "' object does not support item assignment"⟩

/-- The loop that gives hosts to nodes, the least busy host first. -/
def assignHosts : List HeapEntry → List (Val F) → Except PyError (List (Fields F))
  | _, [] => pure []
  | [], _ :: _ => throw ⟨.indexError, "list index out of range"⟩
  | top :: heap, node :: nodes => do
    let ent := { top with conts := top.conts + 1 }
    let node ← setHost node (hostPort ent.host).1 (hostPort ent.host).2
    let nodes ← assignHosts (Heapq.heapreplace HeapEntry.lt (ent :: heap) ent) nodes
    pure (node :: nodes)

/-- The loop of `SContainer.list()`, as the `ssh_host` of each container: an instance that no object
can be made of is passed over. -/
def listLoop (cls : ContainerClass) :
    List (String × Except PyError Unit) → Except PyError (List String)
  | [] => pure []
  | (sshHost, init) :: instances =>
    match cls.new >>= fun _ => init with
    | .ok () => do
      let conts ← listLoop cls instances
      pure (sshHost :: conts)
    | .error e => if e.kind = .typeError then listLoop cls instances else throw e

/-- `[ cont.ssh_host for cont in SContainer.list() ]` -/
def World.list (w : World F) (cls : ContainerClass) : Except PyError (List String) := do
  let instances ← w.instList
  listLoop cls instances

/-- `nodes`, after the host of each is set -/
def nodesOf (cls : ContainerClass) (w : World F) (spec : ClusterSpec F) :
    Except PyError (List (Fields F)) := do
  let running ← w.list cls
  let heap ← hostHeap w.singHosts running
  let nodes ← Val.getItem spec.fields "nodes"
  let nodes ← nodes.deepCopy
  let nodes ← iterate nodes
  assignHosts heap nodes

/-- The container of a node. -/
def containerOf (spec : ClusterSpec F) (node : Fields F) (addr : ℤ) :
    Except PyError (Container F) := do
  let instName ← getInstanceName node spec
  pure ⟨instName, ((Dict.get? node "sing_host").getD .none).toStr,
    ((Dict.get? node "sing_port").getD .none).toStr, node, addr, spec.fields⟩

/-- `cluster._cont_idx[node["hostname"]] = cont`, which raises for some keys -/
def indexHostname (node : Fields F) : Except PyError Unit :=
  match ((Dict.get? node "hostname").getD .none).unhashable with
  | some tp => throw ⟨.typeError, "unhashable type: '" ++ tp ++ "'"⟩
  | none => pure ()

/-- `cont = SContainer(...)` and `cont.start()` -/
def startNode (cls : ContainerClass) (w : World F) (spec : ClusterSpec F)
    (containers : List (Container F)) (node : Fields F) (addr : ℤ) :
    Except PyError (Container F) := do
  let cont ← containerOf spec node addr
  cls.new
  w.start containers cont
  pure cont

/-- The loop over `zip(nodes, addrs)`: the containers that it has started, and how it ends. -/
def startLoop (cls : ContainerClass) (w : World F) (spec : ClusterSpec F) :
    List (Container F) → List (Fields F × ℤ) → List (Container F) × Except PyError Unit
  | containers, [] => (containers, pure ())
  | containers, (node, addr) :: rest =>
    match startNode cls w spec containers node addr with
    | .error e => (containers, throw e)
    | .ok cont =>
      match indexHostname node with
      | .error e => (containers ++ [cont], throw e)
      | .ok () => startLoop cls w spec (containers ++ [cont]) rest

/-- What `_create` has done when its loop over the nodes has ended. -/
structure Created (F : Type) where
  clusterSpec : Fields F
  /-- the containers that run, in the order in which they were started -/
  started : List (Container F)
  /-- how the loop has ended -/
  ended : Except PyError Unit
  /-- the address database -/
  file : String

/-- `_create` up to the end of its loop over the nodes. -/
def startContainers (fuel : ℕ) (cls : ContainerClass) (w : World F) (net : Network) (file : String)
    (spec : ClusterSpec F) : Run PyError (Created F) := do
  let clusterSpec ← Spec.specInit fuel spec.fields
  let nodes ← Run.ofExcept (nodesOf cls w spec)
  let (addrs, file) ← Run.ofExcept (IPAddrDb.allocAddr F net file spec.name nodes.length)
  match addrs with
  | none => throw ⟨.typeError, "'NoneType' object is not iterable"⟩
  | some addrs =>
    let (started, ended) := startLoop cls w spec [] (nodes.zip (listPoints addrs))
    pure ⟨clusterSpec, started, ended, file⟩

/-- `cont.read_file(path, user="root")`: `SContainer.read_file` takes a path only -/
def readFileAsRoot (_cont : Container F) (_path : String) : Except PyError String :=
  throw ⟨.typeError, "SContainer.read_file() got an unexpected keyword argument 'user'"⟩

/-- `self.make_ssh_id()`, up to the first file that it reads -/
def makeSshId (w : World F) (cluster : Cluster F) : Except PyError Unit :=
  match cluster.containers.getLast? with
  | none => throw ⟨.indexError, "list index out of range"⟩
  | some cont => do
    w.execRun cont "mkdir -m 0700 -p /root/.ssh/"
    w.execRun cont "rm -f /root/.ssh/id_rsa id_rsa.pub"
    w.execRun cont "ssh-keygen -q -N '' -f /root/.ssh/id_rsa"
    let _idRsa ← readFileAsRoot cont "/root/.ssh/id_rsa"
    pure ()

/-- `SCluster._create(spec)`, and the address database after it -/
def create (fuel : ℕ) (cls : ContainerClass) (w : World F) (net : Network) (file : String)
    (spec : ClusterSpec F) : Run PyError (Cluster F × String) := do
  let created ← startContainers fuel cls w net file spec
  Run.ofExcept created.ended
  let cluster : Cluster F := ⟨spec.name, created.clusterSpec,
    created.started.mergeSort fun c d => c.instanceName ≤ d.instanceName⟩
  Run.ofExcept (w.updateEtcHosts cluster.containers)
  Run.ofExcept (makeSshId w cluster)
  pure (cluster, created.file)

/-! ## What the nodes get -/

/-- The nodes of a spec: what the loop over `spec["nodes"]` goes through. -/
def specNodes (spec : ClusterSpec F) : Option (List (Val F)) :=
  (Dict.get? spec.fields "nodes").bind fun nodes => (iterate nodes).toOption

/-- A node of the spec, with a host set. -/
def Hosted (item : Val F) (node : Fields F) : Prop :=
  ∃ host port, setHost item host port = .ok node

/-- **Every node has a container of its own**, which was started. -/
def EveryNodeStarted (w : World F) (items : List (Val F)) (started : List (Container F)) : Prop :=
  List.Forall₂ (fun item c => Hosted item c.nodeSpec) items started ∧
    ∀ c ∈ started, ∃ before, w.start before c = .ok ()

/-- The database has no addresses for the cluster, or has one for each node. -/
def EnoughAddresses (allocTbl : IPAddrDb.AllocTbl) (spec : ClusterSpec F)
    (items : List (Val F)) : Prop :=
  ∀ addrs, Dict.get? allocTbl spec.name = some addrs → items.length ≤ (listPoints addrs).length

omit [JsonFloat F] in
theorem forall₂_assignHosts {heap : List HeapEntry} {items : List (Val F)}
    {nodes : List (Fields F)} (h : assignHosts heap items = .ok nodes) :
    List.Forall₂ Hosted items nodes := by
  induction items generalizing heap nodes with
  | nil =>
    cases heap with
    | nil => cases h; exact .nil
    | cons top heap => cases h; exact .nil
  | cons item items ih =>
    cases heap with
    | nil => cases h
    | cons top heap =>
      obtain ⟨node, hset, h⟩ := exists_of_bind_ok h
      obtain ⟨nodes', hnodes, heq⟩ := exists_of_bind_ok h
      cases heq
      exact .cons ⟨_, _, hset⟩ (ih hnodes)

omit [JsonFloat F] in
theorem forall₂_nodesOf {cls : ContainerClass} {w : World F} {spec : ClusterSpec F}
    {nodes : List (Fields F)} (h : nodesOf cls w spec = .ok nodes) :
    ∃ items, specNodes spec = some items ∧ List.Forall₂ Hosted items nodes := by
  obtain ⟨running, -, h⟩ := exists_of_bind_ok h
  obtain ⟨heap, -, h⟩ := exists_of_bind_ok h
  obtain ⟨v, hget, h⟩ := exists_of_bind_ok h
  obtain ⟨v', hcopy, h⟩ := exists_of_bind_ok h
  obtain ⟨items, hitems, h⟩ := exists_of_bind_ok h
  rw [Val.eq_of_deepCopy hcopy] at hitems
  refine ⟨items, ?_, forall₂_assignHosts h⟩
  rw [specNodes, Val.getItem_eq_ok_iff.mp hget, Option.bind_some, hitems]
  rfl

theorem containerOf_eq {spec : ClusterSpec F} {node : Fields F} {addr : ℤ} {c : Container F}
    (h : containerOf spec node addr = .ok c) : (c.nodeSpec, c.ipAddr) = (node, addr) := by
  obtain ⟨instName, -, h⟩ := exists_of_bind_ok h
  cases h
  rfl

theorem startNode_eq_ok {cls : ContainerClass} {w : World F} {spec : ClusterSpec F}
    {containers : List (Container F)} {node : Fields F} {addr : ℤ} {c : Container F}
    (h : startNode cls w spec containers node addr = .ok c) :
    containerOf spec node addr = .ok c ∧ cls.new = .ok () ∧ w.start containers c = .ok () := by
  obtain ⟨cont, hcont, h⟩ := exists_of_bind_ok h
  obtain ⟨_, hnew, h⟩ := exists_of_bind_ok h
  obtain ⟨_, hstart, h⟩ := exists_of_bind_ok h
  cases h
  exact ⟨hcont, hnew, hstart⟩

/-- The containers that a loop over these pairs has started. -/
structure Starts (cls : ContainerClass) (w : World F) (spec : ClusterSpec F)
    (pairs : List (Fields F × ℤ)) (new : List (Container F)) : Prop where
  pairs_eq : new.map (fun c => (c.nodeSpec, c.ipAddr)) <+: pairs
  started : ∀ c ∈ new, ∃ before, w.start before c = .ok ()
  made : ∀ c ∈ new, ∃ node addr, containerOf spec node addr = .ok c
  complete : new ≠ [] → cls.missing = []

theorem Starts.nil (cls : ContainerClass) (w : World F) (spec : ClusterSpec F)
    (pairs : List (Fields F × ℤ)) : Starts cls w spec pairs [] where
  pairs_eq := List.nil_prefix
  started := nofun
  made := nofun
  complete h := absurd rfl h

theorem Starts.cons {cls : ContainerClass} {w : World F} {spec : ClusterSpec F}
    {pairs : List (Fields F × ℤ)} {new containers : List (Container F)} {node : Fields F} {addr : ℤ}
    {c : Container F} (h : Starts cls w spec pairs new)
    (hc : startNode cls w spec containers node addr = .ok c) :
    Starts cls w spec ((node, addr) :: pairs) (c :: new) := by
  obtain ⟨hcont, hnew, hstart⟩ := startNode_eq_ok hc
  refine ⟨?_, List.forall_mem_cons.mpr ⟨⟨_, hstart⟩, h.started⟩,
    List.forall_mem_cons.mpr ⟨⟨_, _, hcont⟩, h.made⟩,
    fun _ => ContainerClass.complete_of_new hnew⟩
  rw [List.map_cons, containerOf_eq hcont]
  exact (List.prefix_cons_inj _).mpr h.pairs_eq

/-- **The loop** starts a container for each pair of a node and an address, up to the one where it
raises. -/
theorem startLoop_spec (cls : ContainerClass) (w : World F) (spec : ClusterSpec F)
    (containers : List (Container F)) (pairs : List (Fields F × ℤ)) :
    ∃ new, (startLoop cls w spec containers pairs).1 = containers ++ new ∧
      Starts cls w spec pairs new ∧
      ((startLoop cls w spec containers pairs).2 = .ok () → new.length = pairs.length) := by
  induction pairs generalizing containers with
  | nil => exact ⟨[], (List.append_nil _).symm, .nil .., fun _ => rfl⟩
  | cons p pairs ih =>
    obtain ⟨node, addr⟩ := p
    rw [startLoop]
    cases hstart : startNode cls w spec containers node addr with
    | error e => exact ⟨[], (List.append_nil _).symm, .nil .., fun h => by cases h⟩
    | ok cont =>
      cases hindex : indexHostname node with
      | error e =>
        exact ⟨[cont], rfl, (Starts.nil cls w spec pairs).cons hstart, fun h => by cases h⟩
      | ok u =>
        obtain ⟨new, heq, hnew, hlen⟩ := ih (containers ++ [cont])
        refine ⟨cont :: new, ?_, hnew.cons hstart, fun h => ?_⟩
        · exact heq.trans (List.append_assoc _ _ _)
        · rw [List.length_cons, List.length_cons, hlen h]

/-- What `_create` has done when its loop over the nodes has ended. -/
theorem exists_of_startContainers {fuel : ℕ} {cls : ContainerClass} {w : World F} {net : Network}
    {file : String} {spec : ClusterSpec F} {created : Created F}
    (h : (startContainers fuel cls w net file spec).run = some (.ok created)) :
    ∃ items nodes addrs, specNodes spec = some items ∧ List.Forall₂ Hosted items nodes ∧
      IPAddrDb.allocAddr F net file spec.name items.length = .ok (some addrs, created.file) ∧
      Starts cls w spec (nodes.zip (listPoints addrs)) created.started ∧
      (created.ended = .ok () → created.started.length = (nodes.zip (listPoints addrs)).length) := by
  obtain ⟨clusterSpec, -, h⟩ := Run.exists_of_run_bind_ok h
  obtain ⟨nodes, hnodes, h⟩ := Run.exists_of_run_bind_ok h
  obtain ⟨⟨addrs, file₁⟩, halloc, h⟩ := Run.exists_of_run_bind_ok h
  obtain ⟨items, hitems, hhosted⟩ := forall₂_nodesOf (Run.eq_of_run_ofExcept hnodes)
  cases addrs with
  | none => cases h
  | some addrs =>
    obtain ⟨new, heq, hnew, hlen⟩ := startLoop_spec cls w spec [] (nodes.zip (listPoints addrs))
    obtain rfl := Except.ok.inj (Option.some_inj.mp h)
    have halloc := Run.eq_of_run_ofExcept halloc
    rw [← hhosted.length_eq] at halloc
    rw [List.nil_append] at heq
    rw [← heq] at hnew hlen
    exact ⟨items, nodes, addrs, hitems, hhosted, halloc, hnew, hlen⟩

theorem Starts.nodup_ipAddr {cls : ContainerClass} {w : World F} {spec : ClusterSpec F}
    {nodes : List (Fields F)} {addrs : List ℤ} {new : List (Container F)}
    (h : Starts cls w spec (nodes.zip addrs) new) (haddrs : addrs.Nodup) :
    (new.map Container.ipAddr).Nodup := by
  have hpre := h.pairs_eq.map Prod.snd
  rw [List.map_map, List.zip_eq_zip_take_min, List.map_snd_zip (by simp)] at hpre
  exact haddrs.sublist (hpre.sublist.trans (List.take_sublist _ _))

/-- When the loop goes through, every node has a container exactly if there is an address for each
of them. -/
theorem Starts.everyNodeStarted_iff {cls : ContainerClass} {w : World F} {spec : ClusterSpec F}
    {items : List (Val F)} {nodes : List (Fields F)} {addrs : List ℤ} {new : List (Container F)}
    (h : Starts cls w spec (nodes.zip addrs) new) (hlen : new.length = (nodes.zip addrs).length)
    (hhosted : List.Forall₂ Hosted items nodes) :
    EveryNodeStarted w items new ↔ items.length ≤ addrs.length := by
  rw [List.length_zip] at hlen
  have hitems := hhosted.length_eq
  constructor
  · rintro ⟨hall, -⟩
    have hcount := hall.length_eq
    omega
  · intro hle
    refine ⟨?_, h.started⟩
    have hpairs : new.map (fun c => (c.nodeSpec, c.ipAddr)) = nodes.zip addrs :=
      h.pairs_eq.eq_of_length (by rw [List.length_map, hlen, List.length_zip])
    have hspec := congrArg (List.map Prod.fst) hpairs
    rw [List.map_map, List.map_fst_zip (by omega)] at hspec
    rw [← hspec, List.forall₂_map_right_iff] at hhosted
    exact hhosted

/-- The addresses that are handed out are those of the table, or as many as there are nodes. -/
theorem allocAddr_spec {net : Network} {allocTbl : IPAddrDb.AllocTbl}
    {A : Allocation String net.pool} (hA : IPAddrDb.Records allocTbl A) {spec : ClusterSpec F}
    {items : List (Val F)} {addrs : HexRanges} {file' : String}
    (halloc : IPAddrDb.allocAddr F net (IPAddrDb.write (IPAddrDb.ofTbl F allocTbl)) spec.name
      items.length = .ok (some addrs, file')) :
    (listPoints addrs).Nodup ∧
      (EnoughAddresses allocTbl spec items ↔ items.length ≤ (listPoints addrs).length) := by
  cases hc : Dict.get? allocTbl spec.name with
  | some ranges =>
    rw [IPAddrDb.allocAddr_known F hA hc] at halloc
    obtain ⟨heq, -⟩ := Prod.mk.inj (Except.ok.inj halloc)
    obtain rfl := Option.some_inj.mp heq
    have hsep := hA.separated _ (Dict.mem_of_get? hc)
    refine ⟨hsep.nodup_listPoints, fun henough => henough _ hc, fun hle r hr => ?_⟩
    obtain rfl := Option.some_inj.mp (hc.symm.trans hr)
    exact hle
  | none =>
    rcases Nat.lt_or_ge A.free.card items.length with hn | hn
    · rw [IPAddrDb.allocAddr_of_card_lt F hA hc hn] at halloc
      cases halloc
    · obtain ⟨ranges, hsep, hcard, -, halloc'⟩ := IPAddrDb.allocAddr_of_le_card F hA hc hn
      rw [halloc'] at halloc
      obtain ⟨heq, -⟩ := Prod.mk.inj (Except.ok.inj halloc)
      obtain rfl := Option.some_inj.mp heq
      refine ⟨hsep.nodup_listPoints, fun _ => hcard.ge, fun _ r hr => ?_⟩
      rw [hc] at hr
      cases hr

/-- **What `_create` has started** when its loop over the nodes has ended: the addresses are
distinct, and if the loop has gone through, every node has a container exactly when the database has
no addresses for the cluster, or enough. -/
theorem startContainers_correct {net : Network} {allocTbl : IPAddrDb.AllocTbl}
    {A : Allocation String net.pool} (hA : IPAddrDb.Records allocTbl A) {fuel : ℕ}
    {cls : ContainerClass} {w : World F} {spec : ClusterSpec F} {created : Created F}
    (h : (startContainers fuel cls w net (IPAddrDb.write (IPAddrDb.ofTbl F allocTbl)) spec).run =
      some (.ok created)) :
    ∃ items, specNodes spec = some items ∧ (created.started.map Container.ipAddr).Nodup ∧
      (created.ended = .ok () →
        (EveryNodeStarted w items created.started ↔ EnoughAddresses allocTbl spec items)) ∧
      (cls.missing ≠ [] → created.started = []) := by
  obtain ⟨items, nodes, addrs, hitems, hhosted, halloc, hstarts, hlen⟩ := exists_of_startContainers h
  obtain ⟨hnodup, henough⟩ := allocAddr_spec hA halloc
  refine ⟨items, hitems, hstarts.nodup_ipAddr hnodup, fun hended => ?_, fun hmissing => ?_⟩
  · rw [henough]
    exact hstarts.everyNodeStarted_iff (hlen hended) hhosted
  · by_contra hne
    exact hmissing (hstarts.complete hne)

/-! ## The result of `_create` -/

omit [JsonFloat F] in
/-- `make_ssh_id` raises in any cluster: no container has a `read_file` that takes a user. -/
theorem exists_makeSshId_error (w : World F) (cluster : Cluster F) :
    ∃ e, makeSshId w cluster = .error e := by
  cases h : makeSshId w cluster with
  | error e => exact ⟨e, rfl⟩
  | ok u =>
    exfalso
    unfold makeSshId at h
    split at h
    · cases h
    · obtain ⟨_, -, h⟩ := exists_of_bind_ok h
      obtain ⟨_, -, h⟩ := exists_of_bind_ok h
      obtain ⟨_, -, h⟩ := exists_of_bind_ok h
      cases h

/-- **`_create` does not return**: after the containers run, `make_ssh_id` raises. -/
theorem create_ne_ok (fuel : ℕ) (cls : ContainerClass) (w : World F) (net : Network) (file : String)
    (spec : ClusterSpec F) (r : Cluster F × String) :
    (create fuel cls w net file spec).run ≠ some (.ok r) := by
  intro h
  obtain ⟨created, -, h⟩ := Run.exists_of_run_bind_ok h
  obtain ⟨_, -, h⟩ := Run.exists_of_run_bind_ok h
  obtain ⟨_, -, h⟩ := Run.exists_of_run_bind_ok h
  obtain ⟨_, hssh, -⟩ := Run.exists_of_run_bind_ok h
  obtain ⟨e, he⟩ := exists_makeSshId_error w
    ⟨spec.name, created.clusterSpec,
      created.started.mergeSort fun c d => c.instanceName ≤ d.instanceName⟩
  rw [he] at hssh
  cases hssh

/-- **What `_create` gives to the nodes**, for every reachable address database and every class of
containers.

However the loop over the nodes ends, the addresses of the containers that it has started are
distinct.  If it goes through, every node has been given a started container exactly when the
database had no addresses for the name of the cluster, or at least one for each node.  A class with
an abstract method starts nothing.  What `_create` does after the loop gives no container to a node,
and always raises. -/
theorem create_correct (net : Network) (ops : List IPAddrDb.Op) (file : String)
    (db : IPAddrDb.Db F) (hrun : IPAddrDb.run F net ops = .ok file)
    (hread : IPAddrDb.read F file = some db) (fuel : ℕ) (cls : ContainerClass) (w : World F)
    (spec : ClusterSpec F) :
    (∀ created, (startContainers fuel cls w net file spec).run = some (.ok created) →
      ∃ items, specNodes spec = some items ∧ (created.started.map Container.ipAddr).Nodup ∧
        (created.ended = .ok () →
          (EveryNodeStarted w items created.started ↔ EnoughAddresses db.allocTbl spec items)) ∧
        (cls.missing ≠ [] → created.started = [])) ∧
    ∀ r, (create fuel cls w net file spec).run ≠ some (.ok r) := by
  obtain ⟨allocTbl, A, hrun', hA, -⟩ := IPAddrDb.run_eq F net ops
  obtain rfl : file = IPAddrDb.write (IPAddrDb.ofTbl F allocTbl) :=
    Except.ok.inj (hrun.symm.trans hrun')
  obtain rfl : db = IPAddrDb.ofTbl F allocTbl :=
    Option.some_inj.mp (hread.symm.trans (IPAddrDb.read_write F hA))
  exact ⟨fun created h => startContainers_correct hA h, create_ne_ok fuel cls w net _ spec⟩

/-- A class that leaves no method abstract. -/
def completeContainer : ContainerClass :=
  { sContainer with methods := "get_ipv6_addr" :: sContainer.methods }

theorem missing_completeContainer : completeContainer.missing = [] := by decide

/-- One host, where nothing fails. -/
def quietWorld : World Json.SampleFloat where
  singHosts := ["head"]
  instList := .ok []
  start _ _ := .ok ()
  updateEtcHosts _ := .ok ()
  execRun _ _ := .ok ()

/-- A cluster of two nodes. -/
def twoNodes : ClusterSpec Json.SampleFloat where
  fields := [("name", .str "c"), ("nodes", .list [.dict [("hostname", .str "node-1")],
    .dict [("hostname", .str "node-2")]])]
  name := "c"
  get?_name := rfl

/-- The nodes of `twoNodes`, with their host. -/
def twoNodesHosted : List (Fields Json.SampleFloat) :=
  [[("hostname", .str "node-1"), ("sing_host", .str "head"), ("sing_port", .str "22")],
    [("hostname", .str "node-2"), ("sing_host", .str "head"), ("sing_port", .str "22")]]

/-- The loop over the nodes of `twoNodes`, once there are addresses. -/
theorem startContainers_twoNodes (cls : ContainerClass) {net : Network} {file file' : String}
    {addrs : HexRanges}
    (halloc : IPAddrDb.allocAddr Json.SampleFloat net file "c" 2 = .ok (some addrs, file')) :
    ∃ created, (startContainers 4 cls quietWorld net file twoNodes).run = some (.ok created) ∧
      created.ended = (startLoop cls quietWorld twoNodes []
        (twoNodesHosted.zip (listPoints addrs))).2 := by
  have hspec : Spec.specInit 4 twoNodes.fields = pure twoNodes.fields := rfl
  have hnodes : nodesOf cls quietWorld twoNodes = .ok twoNodesHosted := rfl
  have hlen : twoNodesHosted.length = 2 := rfl
  have hname : twoNodes.name = "c" := rfl
  rw [startContainers, hspec, pure_bind, hnodes, Run.ofExcept_ok, pure_bind, hlen, hname, halloc,
    Run.ofExcept_ok, pure_bind]
  exact ⟨_, rfl, rfl⟩

/-- Without an allocation under its name, each of two nodes is given a container. -/
theorem create_fresh : ∃ created items,
    (startContainers 4 completeContainer quietWorld ⟨8, 7⟩
      (IPAddrDb.write (IPAddrDb.ofTbl Json.SampleFloat [])) twoNodes).run = some (.ok created) ∧
      specNodes twoNodes = some items ∧ EveryNodeStarted quietWorld items created.started ∧
      (created.started.map Container.ipAddr).Nodup := by
  have hA : IPAddrDb.Records [] _ := IPAddrDb.records_empty (Network.pool ⟨8, 7⟩)
  have halloc : IPAddrDb.allocAddr Json.SampleFloat ⟨8, 7⟩
      (IPAddrDb.write (IPAddrDb.ofTbl Json.SampleFloat [])) "c" 2 =
        .ok (some [(9, 10)], IPAddrDb.write (IPAddrDb.ofTbl Json.SampleFloat [("c", [(9, 10)])])) := by
    decide +kernel
  obtain ⟨created, hcreated, hended⟩ := startContainers_twoNodes completeContainer halloc
  obtain ⟨hstart, -⟩ := create_correct ⟨8, 7⟩ [] _ _ (by decide +kernel)
    (IPAddrDb.read_write Json.SampleFloat hA) 4 completeContainer quietWorld twoNodes
  obtain ⟨items, hitems, hnodup, hiff, -⟩ := hstart created hcreated
  exact ⟨created, items, hcreated, hitems, (hiff hended).mpr nofun, hnodup⟩

/-- With less than two addresses left from an earlier run of the cluster, the loop goes through and a
node is given no container. -/
theorem not_everyNodeStarted_of_stale (cls : ContainerClass) {addrs : HexRanges}
    (hsep : Ranges.Separated addrs)
    (hfree : IPAddrDb.addresses addrs ⊆ (Allocation.empty String (Network.pool ⟨8, 7⟩)).free)
    (hlt : (listPoints addrs).length < 2)
    (hended : (startLoop cls quietWorld twoNodes [] (twoNodesHosted.zip (listPoints addrs))).2 =
      .ok ()) :
    ∃ created items, (startContainers 4 cls quietWorld ⟨8, 7⟩
        (IPAddrDb.write (IPAddrDb.ofTbl Json.SampleFloat [("c", addrs)])) twoNodes).run =
          some (.ok created) ∧
      created.ended = .ok () ∧ specNodes twoNodes = some items ∧
      ¬ EveryNodeStarted quietWorld items created.started := by
  have hA : IPAddrDb.Records [("c", addrs)] _ :=
    (IPAddrDb.records_empty (Network.pool ⟨8, 7⟩)).set (c := "c") nofun hsep hfree
  have hc : Dict.get? [("c", addrs)] "c" = some addrs := rfl
  obtain ⟨created, hcreated, hended'⟩ := startContainers_twoNodes cls
    (IPAddrDb.allocAddr_known Json.SampleFloat hA hc 2)
  obtain ⟨items, hitems, -, hiff, -⟩ := startContainers_correct hA hcreated
  refine ⟨created, items, hcreated, hended'.trans hended, hitems, fun hevery => ?_⟩
  have hle := (hiff (hended'.trans hended)).mp hevery addrs rfl
  obtain rfl := Option.some_inj.mp hitems
  exact absurd hle (not_le.mpr hlt)

/-- **A stale allocation**: the loop goes through although the second node is given no container, or,
with `SContainer` as it is and an allocation of nothing, neither node is. -/
theorem not_everyNodeStarted_stale :
    (∃ created items, IPAddrDb.run Json.SampleFloat ⟨8, 7⟩ [.alloc "c" 1] =
        .ok (IPAddrDb.write (IPAddrDb.ofTbl Json.SampleFloat [("c", [(9, 9)])])) ∧
      (startContainers 4 completeContainer quietWorld ⟨8, 7⟩
        (IPAddrDb.write (IPAddrDb.ofTbl Json.SampleFloat [("c", [(9, 9)])])) twoNodes).run =
          some (.ok created) ∧
      created.ended = .ok () ∧ specNodes twoNodes = some items ∧
      ¬ EveryNodeStarted quietWorld items created.started) ∧
    ∃ created items, IPAddrDb.run Json.SampleFloat ⟨8, 7⟩ [.alloc "c" 0] =
        .ok (IPAddrDb.write (IPAddrDb.ofTbl Json.SampleFloat [("c", [])])) ∧
      (startContainers 4 sContainer quietWorld ⟨8, 7⟩
        (IPAddrDb.write (IPAddrDb.ofTbl Json.SampleFloat [("c", [])])) twoNodes).run =
          some (.ok created) ∧
      created.ended = .ok () ∧ specNodes twoNodes = some items ∧
      ¬ EveryNodeStarted quietWorld items created.started := by
  constructor
  · have hsep : Ranges.Separated [((9, 9) : Entry)] :=
      Ranges.separated_cons_iff.mpr ⟨by decide, nofun, Ranges.separated_nil⟩
    obtain ⟨created, items, hstale⟩ := not_everyNodeStarted_of_stale completeContainer hsep
      (by rw [Allocation.free_empty]; decide) (by decide) rfl
    exact ⟨created, items, by decide +kernel, hstale⟩
  · obtain ⟨created, items, hstale⟩ := not_everyNodeStarted_of_stale sContainer
      Ranges.separated_nil (by rw [Allocation.free_empty]; decide) (by decide) rfl
    exact ⟨created, items, by decide +kernel, hstale⟩

end SCluster
end LdmsTest
