import LdmsTest.Singularity.SCluster

/-!
# Finding a cluster again

`SCluster._get` finds the containers of a cluster by the names of the running instances: it takes
the instances whose name starts with the name of the cluster and a dash.  A container is named
after its cluster and its host, with a dash between, so other containers may have such a name as
well: those of a cluster that is named `name-t`, and those of a cluster `c` on a host `t-u` when
`name` is `c-t`.  The main result says that these are the only ones, and that `_get` finds nothing at
all by a class of containers that leaves a method abstract, as `SContainer` does.
-/

namespace LdmsTest
namespace SCluster

open Json (JsonFloat)

/-! ## `_get` and `remove` -/

/-- What `singularity instance list` says of an instance, and the host that was asked. -/
structure Inst where
  instanceName : String
  img : String
  ip : String
  pid : ℤ
  sshHost : String
  sshPort : String
  deriving DecidableEq

/-- What the hosts do with running instances. -/
structure Hosts where
  /-- `_inst_list()` -/
  instList : Except PyError (List Inst)
  /-- `SContainer.__init__` for `sing_json=inst`, and the `hostname` of the object -/
  handle : Inst → Except PyError String
  /-- `cont.stop()` -/
  stop : Inst → Except PyError Unit

/-- `SCluster`, as `_get` returns it -/
structure Found where
  name : String
  containers : List Inst

/-- `inst["instance"].startswith(name + "-")` -/
def startsWithName (name : String) (inst : Inst) : Bool :=
  (name ++ "-").toList.isPrefixOf inst.instanceName.toList

/-- The loop of `_get` over the instances. -/
def getLoop (cls : ContainerClass) (hosts : Hosts) (name : String) :
    List Inst → Except PyError (List Inst)
  | [] => pure []
  | inst :: instances =>
    if startsWithName name inst then do
      cls.new
      let _hostname ← hosts.handle inst
      let containers ← getLoop cls hosts name instances
      pure (inst :: containers)
    else getLoop cls hosts name instances

/-- `LookupError("`{}` cluster not found".format(name))` -/
def notFound (name : String) : PyError :=
  ⟨.lookupError, "`" ++ name ++ "` cluster not found"⟩

/-- `SCluster._get(name)` -/
def get (cls : ContainerClass) (hosts : Hosts) (name : String) : Except PyError Found := do
  let instances ← hosts.instList
  let containers ← getLoop cls hosts name instances
  if containers.isEmpty then throw (notFound name)
  else pure ⟨name, containers.mergeSort fun c d => c.instanceName ≤ d.instanceName⟩

/-- The loop of `remove`: the instances that it stops, and whether it goes through. -/
def stopLoop (hosts : Hosts) : List Inst → List Inst × Except PyError Unit
  | [] => ([], pure ())
  | cont :: containers =>
    match hosts.stop cont with
    | .error e => ([cont], throw e)
    | .ok () => (cont :: (stopLoop hosts containers).1, (stopLoop hosts containers).2)

/-- `self.remove()`: the instances that it stops, and the address database after it -/
def remove (F : Type) [JsonFloat F] (hosts : Hosts) (file : String) (cluster : Found) :
    List Inst × Except PyError String :=
  let (stopped, result) := stopLoop hosts cluster.containers
  (stopped, result >>= fun _ => IPAddrDb.freeAddr F file cluster.name)

/-! ## Names -/

/-- **A running container**, with the cluster and the node that it was created for. -/
structure Running where
  clusterName : String
  nodeName : String
  inst : Inst
  named : inst.instanceName = instanceNameOf clusterName nodeName

/-- The names by which a container of one cluster is taken for one of another. -/
def Confused (name clusterName nodeName : String) : Prop :=
  (∃ t, clusterName = instanceNameOf name t) ∨
    ∃ t u, name = instanceNameOf clusterName t ∧ nodeName = instanceNameOf t u

theorem toList_instanceNameOf (c h : String) :
    (instanceNameOf c h).toList = c.toList ++ '-' :: h.toList := by
  simp [instanceNameOf]

theorem eq_instanceNameOf_iff {s c h : String} :
    s = instanceNameOf c h ↔ s.toList = c.toList ++ '-' :: h.toList := by
  rw [← toList_instanceNameOf, String.toList_inj]

/-- **Names that start with `name-`**: those of the cluster, and the confused ones. -/
theorem startsWithName_iff (name : String) (r : Running) :
    startsWithName name r.inst ↔
      r.clusterName = name ∨ Confused name r.clusterName r.nodeName := by
  have hname : (name ++ "-").toList = name.toList ++ ['-'] := String.toList_append
  rw [startsWithName, List.isPrefixOf_iff_prefix, r.named, toList_instanceNameOf, hname, Confused]
  simp only [eq_instanceNameOf_iff]
  constructor
  · rintro ⟨rest, hrest⟩
    rw [List.append_assoc, List.singleton_append] at hrest
    rcases List.append_eq_append_iff.mp hrest with ⟨m, hc, hm⟩ | ⟨m, hc, hm⟩
    · -- the name of the cluster starts with `name`
      cases m with
      | nil => exact Or.inl (String.toList_inj.mp (by simpa using hc))
      | cons c m =>
        obtain ⟨rfl, -⟩ := List.cons.inj hm
        exact Or.inr (Or.inl ⟨String.ofList m, by rw [hc, String.toList_ofList]⟩)
    · -- `name` starts with the name of the cluster
      cases m with
      | nil => exact Or.inl (String.toList_inj.mp (by simpa using hc.symm))
      | cons c m =>
        obtain ⟨rfl, hnode⟩ := List.cons.inj hm
        refine Or.inr (Or.inr ⟨String.ofList m, String.ofList rest, ?_, ?_⟩)
        · rw [hc, String.toList_ofList]
        · rw [String.toList_ofList, String.toList_ofList]
          exact hnode
  · rintro (rfl | ⟨t, ht⟩ | ⟨t, u, hname, hnode⟩)
    · exact ⟨r.nodeName.toList, by simp⟩
    · exact ⟨t.toList ++ '-' :: r.nodeName.toList, by simp [ht]⟩
    · exact ⟨u.toList, by simp [hname, hnode]⟩

/-! ## What is found -/

variable {cls : ContainerClass} {hosts : Hosts} {name : String}

/-- When every handle can be made, the loop takes the instances with the right names. -/
theorem getLoop_eq (hcls : cls.missing = []) {instances : List Inst}
    (h : ∀ inst ∈ instances, ∃ hostname, hosts.handle inst = .ok hostname) :
    getLoop cls hosts name instances = .ok (instances.filter (startsWithName name)) := by
  induction instances with
  | nil => rfl
  | cons inst instances ih =>
    obtain ⟨⟨hostname, hinst⟩, h⟩ := List.forall_mem_cons.mp h
    rw [getLoop, ih h, ContainerClass.new_of_complete hcls, hinst]
    split
    · next hname => rw [List.filter_cons_of_pos hname]; rfl
    · next hname => rw [List.filter_cons_of_neg hname]

/-- With an abstract method, the loop raises at the first instance with the right name. -/
theorem exists_getLoop_error (hcls : cls.missing ≠ []) {instances : List Inst}
    (h : instances.filter (startsWithName name) ≠ []) :
    ∃ e, getLoop cls hosts name instances = .error e ∧ e.kind = .typeError := by
  induction instances with
  | nil => exact absurd rfl h
  | cons inst instances ih =>
    rw [getLoop]
    split
    · obtain ⟨e, he, hkind⟩ := ContainerClass.exists_new_error hcls
      rw [he]
      exact ⟨e, rfl, hkind⟩
    · next hname =>
      rw [List.filter_cons_of_neg hname] at h
      exact ih h

/-- Instances with other names are passed over. -/
theorem getLoop_eq_nil {instances : List Inst}
    (h : instances.filter (startsWithName name) = []) :
    getLoop cls hosts name instances = .ok [] := by
  induction instances with
  | nil => rfl
  | cons inst instances ih =>
    obtain ⟨hname, h⟩ := List.forall_mem_cons.mp (List.filter_eq_nil_iff.mp h)
    rw [getLoop, if_neg hname, ih (List.filter_eq_nil_iff.mpr h)]

/-- The instances that `remove` stops are containers of the cluster. -/
theorem mem_of_mem_stopLoop {containers : List Inst} {inst : Inst}
    (h : inst ∈ (stopLoop hosts containers).1) : inst ∈ containers := by
  induction containers with
  | nil => cases h
  | cons cont containers ih =>
    rw [stopLoop] at h
    split at h
    · exact List.mem_singleton.mp h ▸ List.mem_cons_self
    · rcases List.mem_cons.mp h with rfl | h
      · exact List.mem_cons_self
      · exact List.mem_cons_of_mem _ (ih h)

/-- The instances of the containers that were created for a cluster. -/
def createdFor (name : String) (running : List Running) : List Inst :=
  (running.filter fun r => r.clusterName = name).map Running.inst

/-- The instances of the containers that have the name of a cluster in front. -/
def namedFor (name : String) (running : List Running) : List Inst :=
  (running.map Running.inst).filter (startsWithName name)

/-- **`_get` finds what was created for the cluster**, and nothing else; when there is nothing, it
raises the `LookupError`. -/
def FindsExactly (cls : ContainerClass) (hosts : Hosts) (name : String) (running : List Running) :
    Prop :=
  match get cls hosts name with
  | .ok cluster => cluster.containers.Perm (createdFor name running)
  | .error e => e = notFound name ∧ createdFor name running = []

/-- No container of another cluster runs under a confused name. -/
def NotConfused (name : String) (running : List Running) : Prop :=
  ∀ r ∈ running, r.clusterName ≠ name → ¬ Confused name r.clusterName r.nodeName

theorem namedFor_eq_createdFor {running : List Running} (h : NotConfused name running) :
    namedFor name running = createdFor name running := by
  rw [namedFor, createdFor, List.filter_map]
  congr 1
  refine List.filter_congr fun r hr => ?_
  rw [Bool.eq_iff_iff, Function.comp_apply, startsWithName_iff, decide_eq_true_iff]
  refine ⟨fun hname => ?_, Or.inl⟩
  by_contra hne
  exact h r hr hne (hname.resolve_left hne)

/-- A confused name is found in addition. -/
theorem length_createdFor_lt {running : List Running} {r : Running} (hr : r ∈ running)
    (hne : r.clusterName ≠ name) (hconf : Confused name r.clusterName r.nodeName) :
    (createdFor name running).length < (namedFor name running).length := by
  have hfilter : running.filter (fun r => r.clusterName = name) =
      (running.filter (startsWithName name ∘ Running.inst)).filter
        fun r => r.clusterName = name := by
    rw [List.filter_filter]
    refine List.filter_congr fun r _ => ?_
    rw [Bool.eq_iff_iff, Bool.and_eq_true, Function.comp_apply, startsWithName_iff,
      decide_eq_true_iff]
    exact ⟨fun h => ⟨h, Or.inl h⟩, fun h => h.1⟩
  rw [createdFor, namedFor, List.filter_map, List.length_map, List.length_map, hfilter,
    List.length_filter_lt_length_iff_exists]
  refine ⟨r, List.mem_filter.mpr ⟨hr, (startsWithName_iff name r).mpr (Or.inr hconf)⟩, ?_⟩
  simpa using hne

theorem namedFor_eq_nil_iff {running : List Running} :
    namedFor name running = [] ↔ NotConfused name running ∧ createdFor name running = [] := by
  constructor
  · intro h
    have hnone (r : Running) (hr : r ∈ running) : ¬ startsWithName name r.inst :=
      List.filter_eq_nil_iff.mp h r.inst (List.mem_map_of_mem hr)
    refine ⟨fun r hr _ hconf => hnone r hr ((startsWithName_iff name r).mpr (Or.inr hconf)), ?_⟩
    rw [createdFor, List.map_eq_nil_iff, List.filter_eq_nil_iff]
    intro r hr hname
    exact hnone r hr ((startsWithName_iff name r).mpr (Or.inl (of_decide_eq_true hname)))
  · rintro ⟨hconf, hnone⟩
    rw [namedFor_eq_createdFor hconf, hnone]

/-- `_get`, when every handle can be made. -/
theorem get_eq (hcls : cls.missing = []) (name : String) {running : List Running}
    (hlist : hosts.instList = .ok (running.map Running.inst))
    (hhandle : ∀ r ∈ running, ∃ hostname, hosts.handle r.inst = .ok hostname) :
    get cls hosts name = if (namedFor name running).isEmpty then .error (notFound name)
      else .ok ⟨name, (namedFor name running).mergeSort fun c d =>
        c.instanceName ≤ d.instanceName⟩ := by
  rw [get, hlist]
  change (getLoop cls hosts name (running.map Running.inst) >>= _) = _
  rw [getLoop_eq hcls (List.forall_mem_map.mpr hhandle)]
  rfl

/-- `_get` finds no cluster when no instance has the right name. -/
theorem get_eq_notFound {running : List Running}
    (hlist : hosts.instList = .ok (running.map Running.inst)) (h : namedFor name running = []) :
    get cls hosts name = .error (notFound name) := by
  rw [get, hlist]
  change (getLoop cls hosts name (running.map Running.inst) >>= _) = _
  rw [getLoop_eq_nil h]
  rfl

/-- `_get` by a class with an abstract method raises a `TypeError` when an instance has the right
name. -/
theorem exists_get_error (hcls : cls.missing ≠ []) {running : List Running}
    (hlist : hosts.instList = .ok (running.map Running.inst)) (h : namedFor name running ≠ []) :
    ∃ e, get cls hosts name = .error e ∧ e.kind = .typeError := by
  obtain ⟨e, he, hkind⟩ : ∃ e, getLoop cls hosts name (running.map Running.inst) = .error e ∧
      e.kind = .typeError := exists_getLoop_error hcls h
  refine ⟨e, ?_, hkind⟩
  rw [get, hlist]
  change (getLoop cls hosts name (running.map Running.inst) >>= _) = _
  rw [he]
  rfl

/-- What a class that leaves no method abstract finds. -/
theorem findsExactly_iff_of_complete (hcls : cls.missing = []) {running : List Running}
    (hlist : hosts.instList = .ok (running.map Running.inst))
    (hhandle : ∀ r ∈ running, ∃ hostname, hosts.handle r.inst = .ok hostname) :
    FindsExactly cls hosts name running ↔ NotConfused name running := by
  have hget := get_eq hcls name hlist hhandle
  constructor
  · intro hfinds r hr hne hconf
    have hlt := length_createdFor_lt hr hne hconf
    have hnonempty : (namedFor name running).isEmpty = false := by
      rw [List.isEmpty_eq_false_iff]
      exact List.ne_nil_of_length_pos (Nat.zero_lt_of_lt hlt)
    rw [hnonempty, if_neg Bool.false_ne_true] at hget
    rw [FindsExactly, hget] at hfinds
    have hlen := (((namedFor name running).mergeSort_perm _).symm.trans hfinds).length_eq
    omega
  · intro h
    rw [namedFor_eq_createdFor h] at hget
    rw [FindsExactly, hget]
    split_ifs with hempty
    · exact ⟨rfl, List.isEmpty_iff.mp hempty⟩
    · exact List.mergeSort_perm _ _

/-- What a class with an abstract method finds. -/
theorem findsExactly_iff_of_missing (hcls : cls.missing ≠ []) {running : List Running}
    (hlist : hosts.instList = .ok (running.map Running.inst)) :
    FindsExactly cls hosts name running ↔ namedFor name running = [] := by
  constructor
  · intro hfinds
    by_contra hne
    obtain ⟨e, hget, hkind⟩ := exists_get_error hcls hlist hne
    rw [FindsExactly, hget] at hfinds
    obtain ⟨rfl, -⟩ := hfinds
    cases hkind
  · intro hnil
    rw [FindsExactly, get_eq_notFound hlist hnil]
    exact ⟨rfl, (namedFor_eq_nil_iff.mp hnil).2⟩

/-- **`_get` finds exactly the containers of the cluster**, and so `remove` stops no others, when
no other cluster runs a container with a confused name, and the class of the containers leaves no
method abstract or nothing runs for the cluster; and only then. -/
theorem findsExactly_iff (cls : ContainerClass) (hosts : Hosts) (name : String)
    (running : List Running) (hlist : hosts.instList = .ok (running.map Running.inst))
    (hhandle : ∀ r ∈ running, ∃ hostname, hosts.handle r.inst = .ok hostname) :
    (FindsExactly cls hosts name running ∧
      ∀ (F : Type) [JsonFloat F] (file : String) (cluster : Found),
        get cls hosts name = .ok cluster → ∀ inst ∈ (remove F hosts file cluster).1,
          ∃ r ∈ running, r.clusterName = name ∧ r.inst = inst) ↔
    NotConfused name running ∧ (cls.missing = [] ∨ ∀ r ∈ running, r.clusterName ≠ name) := by
  have hnone : createdFor name running = [] ↔ ∀ r ∈ running, r.clusterName ≠ name := by
    rw [createdFor, List.map_eq_nil_iff, List.filter_eq_nil_iff]
    simp only [decide_eq_true_eq]
  have hiff : FindsExactly cls hosts name running ↔
      NotConfused name running ∧ (cls.missing = [] ∨ ∀ r ∈ running, r.clusterName ≠ name) := by
    by_cases hcls : cls.missing = []
    · rw [findsExactly_iff_of_complete hcls hlist hhandle, and_iff_left (Or.inl hcls)]
    · rw [findsExactly_iff_of_missing hcls hlist, namedFor_eq_nil_iff, hnone, or_iff_right hcls]
  rw [hiff, and_iff_left_of_imp]
  intro h F _ file cluster hcluster inst hinst
  have hfinds := hiff.mpr h
  rw [FindsExactly, hcluster] at hfinds
  have hmem := hfinds.mem_iff.mp (mem_of_mem_stopLoop hinst)
  obtain ⟨r, hr, rfl⟩ := List.mem_map.mp hmem
  obtain ⟨hr, hname⟩ := List.mem_filter.mp hr
  exact ⟨r, hr, of_decide_eq_true hname, rfl⟩

/-- A running container on one host. -/
def runningOn (clusterName nodeName : String) (pid : ℤ) : Running :=
  ⟨clusterName, nodeName, ⟨instanceNameOf clusterName nodeName, "/img", "10.0.0.9", pid, "head",
    "22"⟩, rfl⟩

/-- Hosts that run these containers, and where nothing fails. -/
def hostsOf (running : List Running) : Hosts where
  instList := .ok (running.map Running.inst)
  handle inst := .ok inst.instanceName
  stop _ := .ok ()

/-- Two clusters whose names have no dash, by a class without abstract methods. -/
theorem findsExactly_without_dash :
    FindsExactly completeContainer (hostsOf [runningOn "a" "n-1" 7, runningOn "b" "n-1" 8]) "a"
        [runningOn "a" "n-1" 7, runningOn "b" "n-1" 8] ∧
      ∀ (F : Type) [JsonFloat F] (file : String) (cluster : Found),
        get completeContainer (hostsOf [runningOn "a" "n-1" 7, runningOn "b" "n-1" 8]) "a" =
            .ok cluster →
          ∀ inst ∈ (remove F (hostsOf [runningOn "a" "n-1" 7, runningOn "b" "n-1" 8]) file
            cluster).1, ∃ r ∈ [runningOn "a" "n-1" 7, runningOn "b" "n-1" 8],
              r.clusterName = "a" ∧ r.inst = inst := by
  refine (findsExactly_iff _ _ _ _ rfl fun r _ => ⟨_, rfl⟩).mpr
    ⟨fun r hr hne hconf => ?_, Or.inl missing_completeContainer⟩
  have hstarts := (startsWithName_iff "a" r).mpr (Or.inr hconf)
  rcases List.mem_cons.mp hr with rfl | hr
  · exact hne rfl
  · obtain rfl := List.mem_singleton.mp hr
    exact absurd hstarts (by decide)

/-- **The cluster's own container** is not found by `SContainer`, and by a class without abstract
methods `_get("a")` finds the container of the cluster `a-b` as well. -/
theorem not_findsExactly :
    ¬ FindsExactly sContainer (hostsOf [runningOn "a" "n" 7]) "a" [runningOn "a" "n" 7] ∧
    ¬ FindsExactly completeContainer (hostsOf [runningOn "a" "n" 7, runningOn "a-b" "n" 8]) "a"
      [runningOn "a" "n" 7, runningOn "a-b" "n" 8] := by
  constructor
  · rw [findsExactly_iff_of_missing (by decide) rfl]
    decide
  · intro h
    have hlist : (hostsOf [runningOn "a" "n" 7, runningOn "a-b" "n" 8]).instList =
        .ok ([runningOn "a" "n" 7, runningOn "a-b" "n" 8].map Running.inst) := rfl
    have hget := get_eq missing_completeContainer "a" hlist fun r _ => ⟨_, rfl⟩
    have hnamed : (namedFor "a" [runningOn "a" "n" 7, runningOn "a-b" "n" 8]).length = 2 := by
      decide
    rw [if_neg (by decide)] at hget
    rw [FindsExactly, hget] at h
    have hlen := ((List.mergeSort_perm _ _).symm.trans h).length_eq
    rw [hnamed] at hlen
    exact absurd hlen (by decide)

end SCluster
end LdmsTest
