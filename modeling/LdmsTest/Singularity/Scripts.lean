import LdmsTest.Foundation.Processes
import LdmsTest.Singularity.HostLoad
import LdmsTest.Singularity.SClusterGet

/-!
# Scripts that share the hosts

Several test scripts run at a time, each for the virtual cluster of one name, on the same hosts and
with the same address database.  A script looks for its cluster (`LDMSDCluster.get`), creates it
when there is none, and may remove the one that it found.  None of this is atomic: the hosts are
asked one by one, the database is locked for one operation only, and containers are started and
stopped one after another.

* `act`: one step of a script, between two of which the other scripts may do anything.
* `Safe`: no two containers have one address, and each has an address that the database holds for
  its cluster.
* `guarantees`: what a script keeps, and what it leaves alone of what the others rely on.
* `safe_of_reachable`: the containers are safe in every reachable state, when no two scripts are for
  clusters of one name.
* `safe_of_missing`: they are, too, when no object can be made of the class of the containers.
-/

namespace LdmsTest
namespace SCluster
namespace Scripts

open Json (JsonFloat)
open Val (Fields)
open Ranges (listPoints)

/-! ## The state -/

/-- A container that runs, with the address that it was started with. -/
structure Live where
  running : Running
  ipAddr : ℤ

namespace Live

def clusterName (l : Live) : String :=
  l.running.clusterName

def inst (l : Live) : Inst :=
  l.running.inst

end Live

/-- `host, port = (host.split(':') + [22])[:2]` -/
def instHost (h : String) : String × String :=
  match h.toList.dropWhile (· ≠ ':') with
  | [] => (h, "22")
  | _ :: port => (hostOf h, String.ofList (port.takeWhile (· ≠ ':')))

/-- The instances with one name on one host are one instance. -/
def same (inst other : Inst) : Bool :=
  inst.instanceName == other.instanceName && inst.sshHost == other.sshHost &&
    inst.sshPort == other.sshPort

/-- What the scripts share: the file of the address database, and the hosts with what they run. -/
structure Site where
  file : String
  live : List Live

/-- `singularity instance list --json` on a host -/
def Site.listing (s : Site) (host : String) : List Inst :=
  (s.live.map Live.inst).filter fun inst => (inst.sshHost, inst.sshPort) = instHost host

/-- `singularity instance stop`, and the end of an instance. -/
def Site.without (s : Site) (inst : Inst) : Site :=
  { s with live := s.live.filter fun l => !same inst l.inst }

/-- Where a script is. -/
inductive Phase (F : Type) where
  | idle
  /-- in `_inst_list()`, with the answers of the hosts so far -/
  | looking (answers : Dict String (List Inst))
  /-- `_get` raised the `LookupError` -/
  | absent
  /-- in the loop of `_create`, with what is left of `zip(nodes, addrs)` -/
  | starting (spec : ClusterSpec F) (pairs : List (Fields F × ℤ))
  /-- `_get` returned a cluster with these containers -/
  | holding (containers : List Inst)
  /-- in the loop of `remove` -/
  | removing (containers : List Inst)

/-- What a script does. -/
inductive Action (F : Type) where
  | get
  | answer (host : String)
  | found
  /-- `_create` up to the loop; `running` is what `SContainer.list()` gives -/
  | alloc (spec : ClusterSpec F) (running : List String)
  /-- `cont.start()`, with what the instance list says of the new instance -/
  | start (img ip : String) (pid : ℤ)
  | remove
  | stop
  | free
  /-- An exception, or the end of the script. -/
  | giveUp
  /-- An instance ends by itself. -/
  | exit (inst : Inst)

/-- Hosts with these answers, on which every instance is one of a container. -/
def answering (insts : List Inst) : Hosts where
  instList := .ok insts
  handle inst := .ok inst.instanceName
  stop _ := .ok ()

/-- The hosts, with the containers that `SContainer.list()` gives. -/
def listing {F : Type} (hosts running : List String) : World F where
  singHosts := hosts
  instList := .ok (running.map fun sshHost => (sshHost, .ok ()))
  start _ _ := .ok ()
  updateEtcHosts _ := .ok ()
  execRun _ _ := .ok ()

variable {π F : Type} [JsonFloat F]

/-- The container of a node, once it is started. -/
def started (spec : ClusterSpec F) (node : Fields F) (nodeName : Val F) (addr : ℤ)
    (img ip : String) (pid : ℤ) : Live where
  running := ⟨spec.name, nodeName.toStr, ⟨instanceNameOf spec.name nodeName.toStr, img, ip, pid,
    ((Dict.get? node "sing_host").getD .none).toStr,
    ((Dict.get? node "sing_port").getD .none).toStr⟩, rfl⟩
  ipAddr := addr

/-- **One step of the script `p`**, which is for the cluster `name p`. -/
def act (cls : ContainerClass) (hosts : List String) (net : Network) (name : π → String) (p : π) :
    Action F → Site × Phase F → Option (Site × Phase F)
  | .get, (s, .idle) => some ({ s with file := IPAddrDb.initDb F s.file }, .looking [])
  | .answer host, (s, .looking answers) =>
    if host ∈ hosts ∧ Dict.get? answers host = none then
      some (s, .looking (Dict.set answers host (s.listing host)))
    else none
  | .found, (s, .looking answers) =>
    if ∀ host ∈ hosts, (Dict.get? answers host).isSome then
      match SCluster.get cls (answering (hosts.flatMap fun host =>
          (Dict.get? answers host).getD [])) (name p) with
      | .ok cluster => some (s, .holding cluster.containers)
      -- only a `LookupError` is caught
      | .error e => some (s, if e.kind = .lookupError then .absent else .idle)
    else none
  | .alloc spec running, (s, .absent) =>
    if spec.name = name p then
      match nodesOf cls (listing hosts running) spec with
      | .error _ => none
      | .ok nodes =>
        match IPAddrDb.allocAddr F net s.file spec.name nodes.length with
        | .error _ => none
        | .ok (none, file) => some ({ s with file := file }, .idle)
        | .ok (some addrs, file) =>
          some ({ s with file := file }, .starting spec (nodes.zip (listPoints addrs)))
    else none
  | .start img ip pid, (s, .starting spec ((node, addr) :: pairs)) =>
    match Val.getItem node "hostname" with
    | .error _ => none
    | .ok nodeName =>
      match cls.new with
      | .error _ => none
      | .ok () =>
        let l := started spec node nodeName addr img ip pid
        -- the commands of `start` end with an error when the instance runs
        if s.live.any fun l' => same l.inst l'.inst then none
        else some ({ s with live := s.live ++ [l] }, .starting spec pairs)
  | .remove, (s, .holding containers) => some (s, .removing containers)
  | .stop, (s, .removing (inst :: containers)) =>
    if s.live.any fun l => same inst l.inst then some (s.without inst, .removing containers)
    else none
  | .free, (s, .removing []) =>
    match IPAddrDb.freeAddr F s.file (name p) with
    | .error _ => none
    | .ok file => some ({ s with file := file }, .idle)
  | .giveUp, (s, _) => some (s, .idle)
  | .exit inst, (s, f) => some (s.without inst, f)
  | _, _ => none

/-- Nothing runs, and the database is new. -/
def init (π F : Type) [JsonFloat F] : Processes.Sys π Site (Phase F) where
  shared := ⟨IPAddrDb.initDb F "", []⟩
  phase _ := .idle

/-! ## Where the nodes are placed -/

/-- `HOST` or `HOST:PORT` -/
def IsHost (h : String) : Prop :=
  h.toList.count ':' ≤ 1

omit [JsonFloat F] in
/-- A container is started on the host that is asked for its instances. -/
theorem hostPort_eq_instHost {h : String} (hh : IsHost h) : hostPort h = instHost h := by
  unfold hostPort instHost
  cases heq : h.toList.dropWhile (· ≠ ':') with
  | nil => rfl
  | cons c port =>
    have hcolon : c = ':' := by
      have hhead := List.head?_dropWhile_not (· ≠ ':') h.toList
      rw [heq] at hhead
      simpa using hhead
    have hsplit := List.takeWhile_append_dropWhile (p := (· ≠ ':')) (l := h.toList)
    rw [heq, hcolon] at hsplit
    have hport : ':' ∉ port := by
      rw [IsHost, ← hsplit, List.count_append, List.count_cons_self] at hh
      exact List.count_eq_zero.mp (by omega)
    have htake : port.takeWhile (· ≠ ':') = port :=
      List.takeWhile_eq_self_iff.mpr fun d hd => by simpa using fun h : d = ':' => hport (h ▸ hd)
    dsimp only
    rw [htake]

/-- The node is for one of the hosts. -/
def Placed (hosts : List String) (node : Fields F) : Prop :=
  ∃ h ∈ hosts, Dict.get? node "sing_host" = some (.str (instHost h).1) ∧
    Dict.get? node "sing_port" = some (.str (instHost h).2)

omit [JsonFloat F] in
theorem mem_of_mem_set {β : Type} {d : Dict String β} {k : String} {v : β} {q : String × β}
    (h : q ∈ Dict.set d k v) : q = (k, v) ∨ q ∈ d := by
  induction d with
  | nil => exact Or.inl (List.mem_singleton.mp h)
  | cons e d ih =>
    rw [Dict.set] at h
    split at h
    · next heq =>
      rcases List.mem_cons.mp h with rfl | h
      · exact Or.inl (Prod.ext heq rfl)
      · exact Or.inr (List.mem_cons_of_mem _ h)
    · rcases List.mem_cons.mp h with rfl | h
      · exact Or.inr List.mem_cons_self
      · exact (ih h).imp_right (List.mem_cons_of_mem _)

/-- The entries of the heap are for the hosts. -/
theorem host_mem_of_hostHeap {hosts running : List String} {heap : List HeapEntry}
    (h : hostHeap hosts running = .ok heap) :
    Heapq.HeapFrom HeapEntry.conts 0 heap ∧ ∀ e ∈ heap, e.host ∈ hosts := by
  obtain ⟨counted, hcounted, h⟩ := exists_of_bind_ok h
  obtain rfl := Except.ok.inj h
  obtain ⟨hheap, hperm⟩ := Heapq.heapify_spec compares_lt (counted.map Prod.snd)
  have hentered (hs : List String) (d : Dict String HeapEntry) (hd : ∀ q ∈ d, q.2.host ∈ hosts)
      (hhs : ∀ h ∈ hs, h ∈ hosts) :
      ∀ q ∈ hs.foldl (fun heap h => Dict.set heap (hostOf h) ⟨h, 0⟩) d, q.2.host ∈ hosts := by
    induction hs generalizing d with
    | nil => exact hd
    | cons host hs ih =>
      obtain ⟨hhost, hhs⟩ := List.forall_mem_cons.mp hhs
      refine ih _ (fun q hq => ?_) hhs
      rcases mem_of_mem_set hq with rfl | hq
      · exact hhost
      · exact hd q hq
  have hall : ∀ q ∈ counted, q.2.host ∈ hosts := by
    refine foldlM_ok_induction (I := fun heap : Dict String HeapEntry =>
      ∀ q ∈ heap, q.2.host ∈ hosts) ?_ (hentered hosts [] nofun fun _ => id) hcounted
    intro d sshHost d' hd hstep
    split at hstep
    · cases hstep
    · next ent hent =>
      obtain rfl := Except.ok.inj hstep
      intro q hq
      rcases mem_of_mem_set hq with rfl | hq
      · exact hd (sshHost, ent) (Dict.mem_of_get? hent)
      · exact hd q hq
  refine ⟨hheap, fun e he => ?_⟩
  obtain ⟨q, hq, rfl⟩ := List.mem_map.mp (hperm.mem_iff.mp he)
  exact hall q hq

omit [JsonFloat F] in
theorem placed_of_assignHosts {hosts : List String} (hhosts : ∀ h ∈ hosts, IsHost h)
    {heap : List HeapEntry} (hheap : Heapq.HeapFrom HeapEntry.conts 0 heap)
    (hmem : ∀ e ∈ heap, e.host ∈ hosts) {items : List (Val F)} {nodes : List (Fields F)}
    (h : assignHosts heap items = .ok nodes) : ∀ node ∈ nodes, Placed hosts node := by
  induction items generalizing heap nodes with
  | nil =>
    cases heap with
    | nil => cases h; exact nofun
    | cons top heap => cases h; exact nofun
  | cons item items ih =>
    cases heap with
    | nil => cases h
    | cons top heap =>
      obtain ⟨node, hset, h⟩ := exists_of_bind_ok h
      obtain ⟨nodes', hnodes, heq⟩ := exists_of_bind_ok h
      obtain rfl := Except.ok.inj heq
      let ent : HeapEntry := { top with conts := top.conts + 1 }
      obtain ⟨htop, hrest⟩ := List.forall_mem_cons.mp hmem
      obtain ⟨hheap', hperm⟩ := Heapq.heapreplace_spec compares_lt
        (List.cons_ne_nil ent heap) hheap.cons ent
      have hmem' : ∀ e ∈ Heapq.heapreplace HeapEntry.lt (ent :: heap) ent, e.host ∈ hosts := by
        intro e he
        rcases List.mem_cons.mp (hperm.mem_iff.mp he) with rfl | he
        · exact htop
        · exact hrest e he
      refine List.forall_mem_cons.mpr ⟨⟨top.host, htop, ?_⟩, ih hheap' hmem' hnodes⟩
      obtain ⟨d, rfl⟩ := Hosted.exists_dict ⟨_, _, hset⟩
      obtain rfl := Except.ok.inj hset
      rw [← hostPort_eq_instHost (hhosts _ htop), Dict.get?_set_self,
        Dict.get?_set_of_ne _ _ (by decide), Dict.get?_set_self]
      exact ⟨rfl, rfl⟩

omit [JsonFloat F] in
theorem placed_of_nodesOf {cls : ContainerClass} {hosts running : List String}
    (hhosts : ∀ h ∈ hosts, IsHost h) {spec : ClusterSpec F} {nodes : List (Fields F)}
    (h : nodesOf cls (listing hosts running) spec = .ok nodes) :
    ∀ node ∈ nodes, Placed hosts node := by
  obtain ⟨hs, hlist, h⟩ := exists_of_bind_ok h
  obtain ⟨heap, hheap, h⟩ := exists_of_bind_ok h
  obtain ⟨v, -, h⟩ := exists_of_bind_ok h
  obtain ⟨v', -, h⟩ := exists_of_bind_ok h
  obtain ⟨items, -, h⟩ := exists_of_bind_ok h
  obtain ⟨horder, hmem⟩ := host_mem_of_hostHeap hheap
  exact placed_of_assignHosts hhosts horder hmem h

/-! ## What holds of the site, and of each script -/

/-- The database holds an address for a cluster. -/
def Holds (F : Type) [JsonFloat F] (file c : String) (x : ℤ) : Prop :=
  ∃ db ranges, IPAddrDb.read F file = some db ∧ Dict.get? db.allocTbl c = some ranges ∧
    x ∈ listPoints ranges

/-- **The containers that run**: no two have one address, and each has an address of the network
that the database holds for its cluster. -/
structure Safe (F : Type) [JsonFloat F] (net : Network) (s : Site) : Prop where
  nodup : (s.live.map Live.ipAddr).Nodup
  held : ∀ l ∈ s.live, Holds F s.file l.clusterName l.ipAddr
  inside : ∀ l ∈ s.live, net.addrMin ≤ l.ipAddr ∧ l.ipAddr ≤ net.addrMax

/-- What holds of the site between two steps. -/
structure Inv (F : Type) [JsonFloat F] (hosts : List String) (net : Network) (s : Site) :
    Prop where
  recorded : ∃ (tbl : IPAddrDb.AllocTbl) (A : Allocation String net.pool),
    s.file = IPAddrDb.write (IPAddrDb.ofTbl F tbl) ∧ IPAddrDb.Records tbl A
  nodup : (s.live.map Live.ipAddr).Nodup
  held : ∀ l ∈ s.live, Holds F s.file l.clusterName l.ipAddr
  asked : ∀ l ∈ s.live, ∃ h ∈ hosts, (l.inst.sshHost, l.inst.sshPort) = instHost h

/-- **What a script relies on**: what it knows of the containers of its own cluster, and of the
addresses of that. -/
def Local (hosts : List String) (c : String) (s : Site) : Phase F → Prop
  | .idle => True
  | .looking answers => ∀ host insts, Dict.get? answers host = some insts →
      ∀ l ∈ s.live, l.clusterName = c → (l.inst.sshHost, l.inst.sshPort) = instHost host →
        l.inst ∈ insts
  | .absent => ∀ l ∈ s.live, l.clusterName ≠ c
  | .starting spec pairs => spec.name = c ∧ (pairs.map Prod.snd).Nodup ∧
      ∀ q ∈ pairs, Placed hosts q.1 ∧ Holds F s.file c q.2 ∧
        ∀ l ∈ s.live, l.clusterName = c → l.ipAddr ≠ q.2
  | .holding containers => ∀ l ∈ s.live, l.clusterName = c → l.inst ∈ containers
  | .removing containers => ∀ l ∈ s.live, l.clusterName = c → l.inst ∈ containers

/-- **What a script leaves alone**: it starts no container of another cluster, and takes no address
from one. -/
def Guar (F : Type) [JsonFloat F] (c : String) (s s' : Site) : Prop :=
  (∀ l ∈ s'.live, l.clusterName ≠ c → l ∈ s.live) ∧
    ∀ d x, d ≠ c → Holds F s.file d x → Holds F s'.file d x

section Rules

variable {hosts : List String} {net : Network} {c d : String} {s s' : Site}

theorem holds_write_iff {tbl : IPAddrDb.AllocTbl} {A : Allocation String net.pool}
    (hA : IPAddrDb.Records tbl A) {x : ℤ} :
    Holds F (IPAddrDb.write (IPAddrDb.ofTbl F tbl)) c x ↔
      ∃ ranges, Dict.get? tbl c = some ranges ∧ x ∈ listPoints ranges := by
  have hread := IPAddrDb.read_write F hA
  constructor
  · rintro ⟨db, ranges, hdb, hget, hx⟩
    obtain rfl := Option.some_inj.mp (hread.symm.trans hdb)
    exact ⟨ranges, hget, hx⟩
  · rintro ⟨ranges, hget, hx⟩
    exact ⟨_, ranges, hread, hget, hx⟩

/-- An address is held for one cluster only. -/
theorem Inv.cluster_eq (hs : Inv F hosts net s) {x : ℤ} (hc : Holds F s.file c x)
    (hd : Holds F s.file d x) : c = d := by
  obtain ⟨tbl, A, hfile, hA⟩ := hs.recorded
  rw [hfile] at hc hd
  obtain ⟨r, hr, hx⟩ := (holds_write_iff hA).mp hc
  obtain ⟨t, ht, hx'⟩ := (holds_write_iff hA).mp hd
  by_contra hne
  exact Set.disjoint_left.mp (hA.disjoint hne hr ht) (Ranges.mem_listPoints.mp hx)
    (Ranges.mem_listPoints.mp hx')

theorem Inv.safe (hs : Inv F hosts net s) : Safe F net s := by
  refine ⟨hs.nodup, hs.held, fun l hl => ?_⟩
  have hheld := hs.held l hl
  obtain ⟨tbl, A, hfile, hA⟩ := hs.recorded
  rw [hfile] at hheld
  obtain ⟨ranges, hget, hx⟩ := (holds_write_iff hA).mp hheld
  have hmem := hA.held_of_mem (Dict.mem_of_get? hget)
  exact Network.mem_pool.mp (A.subset_pool hmem (List.mem_toFinset.mpr hx))

/-- **A script goes on knowing what it knew** when no container of its cluster was started, and no
address was taken from it. -/
theorem Local.mono {f : Phase F} (h : Local hosts c s f)
    (hlive : ∀ l ∈ s'.live, l.clusterName = c → l ∈ s.live)
    (hheld : ∀ x, Holds F s.file c x → Holds F s'.file c x) : Local hosts c s' f := by
  cases f with
  | idle => trivial
  | looking answers =>
    exact fun host insts hget l hl hc hhost => h host insts hget l (hlive l hl hc) hc hhost
  | absent => exact fun l hl hc => h l (hlive l hl hc) hc
  | starting spec pairs =>
    obtain ⟨hname, hnodup, hpairs⟩ := h
    refine ⟨hname, hnodup, fun q hq => ?_⟩
    obtain ⟨hplaced, hq, hne⟩ := hpairs q hq
    exact ⟨hplaced, hheld _ hq, fun l hl hc => hne l (hlive l hl hc) hc⟩
  | holding containers => exact fun l hl hc => h l (hlive l hl hc) hc
  | removing containers => exact fun l hl hc => h l (hlive l hl hc) hc

theorem Guar.refl (c : String) (s : Site) : Guar F c s s :=
  ⟨fun _ hl _ => hl, fun _ _ _ h => h⟩

theorem mem_without {inst : Inst} {l : Live} :
    l ∈ (s.without inst).live ↔ l ∈ s.live ∧ same inst l.inst = false := by
  rw [Site.without, List.mem_filter, Bool.not_eq_true']

theorem Inv.without (hs : Inv F hosts net s) (inst : Inst) : Inv F hosts net (s.without inst) where
  recorded := hs.recorded
  nodup := hs.nodup.sublist (List.filter_sublist.map _)
  held l hl := hs.held l (mem_without.mp hl).1
  asked l hl := hs.asked l (mem_without.mp hl).1

theorem guar_without (c : String) (s : Site) (inst : Inst) : Guar F c s (s.without inst) :=
  ⟨fun _ hl _ => (mem_without.mp hl).1, fun _ _ _ h => h⟩

theorem same_self (inst : Inst) : same inst inst = true := by
  rw [same, beq_self_eq_true, beq_self_eq_true, beq_self_eq_true]
  rfl

/-! ## Every step -/

/-- When `get` finds no cluster, no instance has the right name. -/
theorem get_answering_error {cls : ContainerClass} {insts : List Inst} {c : String} {e : PyError}
    (h : SCluster.get cls (answering insts) c = .error e) (he : e.kind = .lookupError) :
    insts.filter (startsWithName c) = [] := by
  by_contra hne
  by_cases hcls : cls.missing = []
  · have hloop : getLoop cls (answering insts) c insts = .ok (insts.filter (startsWithName c)) :=
      getLoop_eq hcls fun inst _ => ⟨inst.instanceName, rfl⟩
    rw [SCluster.get] at h
    change (getLoop cls (answering insts) c insts >>= _) = _ at h
    rw [hloop, ok_bind, if_neg (mt List.isEmpty_iff.mp hne)] at h
    cases h
  · obtain ⟨e', hloop, hkind⟩ : ∃ e, getLoop cls (answering insts) c insts = .error e ∧
        e.kind = .typeError := exists_getLoop_error hcls hne
    rw [SCluster.get] at h
    change (getLoop cls (answering insts) c insts >>= _) = _ at h
    rw [hloop] at h
    cases h
    rw [hkind] at he
    cases he

/-- The containers that `get` finds are the instances with the right name. -/
theorem get_answering_ok {cls : ContainerClass} {insts : List Inst} {c : String} {cluster : Found}
    (h : SCluster.get cls (answering insts) c = .ok cluster) :
    cluster.containers.Perm (insts.filter (startsWithName c)) := by
  rw [SCluster.get] at h
  change (getLoop cls (answering insts) c insts >>= _) = _ at h
  by_cases hcls : cls.missing = []
  · have hloop : getLoop cls (answering insts) c insts = .ok (insts.filter (startsWithName c)) :=
      getLoop_eq hcls fun inst _ => ⟨inst.instanceName, rfl⟩
    rw [hloop, ok_bind] at h
    split at h
    · cases h
    · cases h
      exact List.mergeSort_perm _ _
  · by_cases hne : insts.filter (startsWithName c) = []
    · rw [getLoop_eq_nil hne] at h
      cases h
    · obtain ⟨e, hloop, -⟩ : ∃ e, getLoop cls (answering insts) c insts = .error e ∧
          e.kind = .typeError := exists_getLoop_error hcls hne
      rw [hloop] at h
      cases h

theorem startsWithName_self (r : Running) : startsWithName r.clusterName r.inst = true :=
  (startsWithName_iff r.clusterName r).mpr (Or.inl rfl)

/-- When all the hosts have answered, the script has seen every container of its cluster. -/
theorem Inv.mem_answers (hs : Inv F hosts net s) {answers : Dict String (List Inst)}
    (h : Local (F := F) hosts c s (.looking answers))
    (hall : ∀ host ∈ hosts, (Dict.get? answers host).isSome) {l : Live} (hl : l ∈ s.live)
    (hc : l.clusterName = c) :
    l.inst ∈ (hosts.flatMap fun host => (Dict.get? answers host).getD []).filter
      (startsWithName c) := by
  obtain ⟨host, hhost, hon⟩ := hs.asked l hl
  obtain ⟨insts, hinsts⟩ := Option.isSome_iff_exists.mp (hall host hhost)
  refine List.mem_filter.mpr ⟨List.mem_flatMap.mpr ⟨host, hhost, ?_⟩, ?_⟩
  · rw [hinsts]
    exact h host insts hinsts l hl hc hon
  · rw [← hc]
    exact startsWithName_self l.running

omit [JsonFloat F] in
theorem map_snd_zip_sublist {α β : Type} (xs : List α) (ys : List β) :
    ((xs.zip ys).map Prod.snd).Sublist ys := by
  induction xs generalizing ys with
  | nil => exact List.nil_sublist ys
  | cons x xs ih =>
    cases ys with
    | nil => exact List.nil_sublist []
    | cons y ys => exact (ih ys).cons_cons y

/-- **Allocating** for one cluster leaves the addresses of the others alone. -/
theorem exists_allocAddr {tbl : IPAddrDb.AllocTbl} {A : Allocation String net.pool}
    (hA : IPAddrDb.Records tbl A) (c : String) (n : ℕ) :
    ∃ (addrs : Option HexRanges) (tbl' : IPAddrDb.AllocTbl) (A' : Allocation String net.pool),
      IPAddrDb.allocAddr F net (IPAddrDb.write (IPAddrDb.ofTbl F tbl)) c n =
        .ok (addrs, IPAddrDb.write (IPAddrDb.ofTbl F tbl')) ∧ IPAddrDb.Records tbl' A' ∧
      (∀ d, d ≠ c → Dict.get? tbl' d = Dict.get? tbl d) ∧
      ∀ ranges ∈ addrs, Dict.get? tbl' c = some ranges ∧ (listPoints ranges).Nodup := by
  cases hc : Dict.get? tbl c with
  | some ranges =>
    refine ⟨_, tbl, A, IPAddrDb.allocAddr_known F hA hc n, hA, fun _ _ => rfl, ?_⟩
    intro r hr
    obtain rfl := Option.mem_some_iff.mp hr
    exact ⟨hc, (hA.separated _ (Dict.mem_of_get? hc)).nodup_listPoints⟩
  | none =>
    rcases Nat.lt_or_ge A.free.card n with hn | hn
    · exact ⟨none, tbl, A, IPAddrDb.allocAddr_of_card_lt F hA hc hn, hA, fun _ _ => rfl, nofun⟩
    · obtain ⟨ranges, hsep, -, hfree, halloc⟩ := IPAddrDb.allocAddr_of_le_card F hA hc hn
      refine ⟨_, _, _, halloc, hA.set (Dict.get?_eq_none_iff.mp hc) hsep hfree,
        fun d hd => Dict.get?_set_of_ne _ _ hd.symm, ?_⟩
      intro r hr
      obtain rfl := Option.mem_some_iff.mp hr
      exact ⟨Dict.get?_set_self _ _ _, hsep.nodup_listPoints⟩

/-- A new table that differs in one cluster only, which runs no container. -/
theorem Inv.write (hs : Inv F hosts net s) {tbl tbl' : IPAddrDb.AllocTbl}
    {A A' : Allocation String net.pool}
    (hfile : s.file = IPAddrDb.write (IPAddrDb.ofTbl F tbl)) (hA : IPAddrDb.Records tbl A)
    (hA' : IPAddrDb.Records tbl' A') (hsame : ∀ d, d ≠ c → Dict.get? tbl' d = Dict.get? tbl d)
    (hnone : ∀ l ∈ s.live, l.clusterName ≠ c) :
    Inv F hosts net { s with file := IPAddrDb.write (IPAddrDb.ofTbl F tbl') } ∧
      Guar F c s { s with file := IPAddrDb.write (IPAddrDb.ofTbl F tbl') } := by
  have hheld (d : String) (x : ℤ) (hd : d ≠ c) (h : Holds F s.file d x) :
      Holds F (IPAddrDb.write (IPAddrDb.ofTbl F tbl')) d x := by
    rw [hfile, holds_write_iff hA] at h
    rw [holds_write_iff hA', hsame d hd]
    exact h
  exact ⟨⟨⟨tbl', A', rfl, hA'⟩, hs.nodup, fun l hl => hheld _ _ (hnone l hl) (hs.held l hl),
    hs.asked⟩, fun _ hl _ => hl, hheld⟩

/-- **The loop of `_create`** begins with distinct addresses of the cluster, none of which runs. -/
theorem local_starting {spec : ClusterSpec F} {nodes : List (Fields F)} {ranges : HexRanges}
    (hname : spec.name = c) (hplaced : ∀ node ∈ nodes, Placed hosts node)
    (hnodup : (listPoints ranges).Nodup) (hheld : ∀ x ∈ listPoints ranges, Holds F s.file c x)
    (hnone : ∀ l ∈ s.live, l.clusterName ≠ c) :
    Local hosts c s (.starting spec (nodes.zip (listPoints ranges))) := by
  refine ⟨hname, hnodup.sublist (map_snd_zip_sublist nodes _), fun q hq => ?_⟩
  obtain ⟨hnode, hx⟩ := List.of_mem_zip hq
  exact ⟨hplaced _ hnode, hheld _ hx, fun l hl hc => absurd hc (hnone l hl)⟩

/-- **Starting a container** with the next address. -/
theorem Inv.start (hs : Inv F hosts net s) {spec : ClusterSpec F} {node : Fields F} {addr : ℤ}
    {pairs : List (Fields F × ℤ)}
    (h : Local hosts c s (.starting spec ((node, addr) :: pairs))) {l : Live}
    (hl : l.clusterName = spec.name) (haddr : l.ipAddr = addr)
    (hon : Placed hosts node → ∃ h ∈ hosts, (l.inst.sshHost, l.inst.sshPort) = instHost h) :
    Inv F hosts net { s with live := s.live ++ [l] } ∧
      Local hosts c { s with live := s.live ++ [l] } (.starting spec pairs) ∧
      Guar F c s { s with live := s.live ++ [l] } := by
  obtain ⟨hname, hnodup, hpairs⟩ := h
  obtain ⟨⟨hplaced, hheld, hne⟩, hrest⟩ := List.forall_mem_cons.mp hpairs
  obtain ⟨hnotMem, hnodup⟩ := List.nodup_cons.mp hnodup
  have hlc : l.clusterName = c := hl.trans hname
  have hfresh : ∀ l' ∈ s.live, l'.ipAddr ≠ addr := by
    intro l' hl' heq
    -- the address is held for `c`, so a container with it is one of `c`
    have hheld' := hs.held l' hl'
    rw [heq] at hheld'
    exact hne l' hl' (hs.cluster_eq hheld' hheld) heq
  refine ⟨⟨hs.recorded, ?_, ?_, ?_⟩, ⟨hname, hnodup, fun q hq => ?_⟩, fun l' hl' hl'c => ?_,
    fun _ _ _ h => h⟩
  · rw [List.map_append, List.map_singleton, haddr]
    refine List.nodup_append'.mpr ⟨hs.nodup, List.nodup_singleton _, ?_⟩
    refine List.disjoint_singleton.mpr fun hmem => ?_
    obtain ⟨l', hl', heq⟩ := List.mem_map.mp hmem
    exact hfresh l' hl' heq
  · refine List.forall_mem_append.mpr ⟨hs.held, List.forall_mem_singleton.mpr ?_⟩
    rw [hlc, haddr]
    exact hheld
  · exact List.forall_mem_append.mpr ⟨hs.asked, List.forall_mem_singleton.mpr (hon hplaced)⟩
  · obtain ⟨hqplaced, hqheld, hqne⟩ := hrest q hq
    refine ⟨hqplaced, hqheld, List.forall_mem_append.mpr ⟨hqne, List.forall_mem_singleton.mpr ?_⟩⟩
    intro _ heq
    exact hnotMem (List.mem_map.mpr ⟨q, hq, heq.symm.trans haddr⟩)
  · rcases List.mem_append.mp hl' with hl' | hl'
    · exact hl'
    · exact absurd (List.mem_singleton.mp hl' ▸ hlc) hl'c

end Rules

section Steps

variable {cls : ContainerClass} {hosts : List String} {net : Network} {name : π → String}

/-- What holds after a step of the script for the cluster `c`. -/
def Kept (hosts : List String) (net : Network) (c : String) (s s' : Site) (f' : Phase F) : Prop :=
  Inv F hosts net s' ∧ Local hosts c s' f' ∧ Guar F c s s'

theorem Inv.kept {c : String} {s : Site} {f : Phase F} (hs : Inv F hosts net s)
    (h : Local hosts c s f) : Kept hosts net c s s f :=
  ⟨hs, h, Guar.refl c s⟩

variable {p : π} {s s' : Site} {f f' : Phase F}

theorem get_kept (hs : Inv F hosts net s)
    (hact : act cls hosts net name p .get (s, f) = some (s', f')) :
    Kept hosts net (name p) s s' f' := by
  cases f with
  | idle =>
    cases hact
    obtain ⟨tbl, A, hfile, hA⟩ := hs.recorded
    have hinit : IPAddrDb.initDb F s.file = s.file := by
      rw [hfile]
      exact IPAddrDb.initDb_write F hA
    rw [hinit]
    exact hs.kept nofun
  | looking | absent | starting | holding | removing => cases hact

theorem answer_kept {host : String} (hs : Inv F hosts net s) (h : Local hosts (name p) s f)
    (hact : act cls hosts net name p (.answer host) (s, f) = some (s', f')) :
    Kept hosts net (name p) s s' f' := by
  cases f with
  | looking answers =>
    unfold act at hact
    dsimp only at hact
    split at hact
    · cases hact
      refine hs.kept fun host' insts hget l hl hc hon => ?_
      rw [Dict.get?_set] at hget
      split at hget
      · next heq =>
        cases hget
        subst heq
        exact List.mem_filter.mpr ⟨List.mem_map_of_mem hl, decide_eq_true hon⟩
      · exact h host' insts hget l hl hc hon
    · cases hact
  | idle | absent | starting | holding | removing => cases hact

theorem found_kept (hs : Inv F hosts net s) (h : Local hosts (name p) s f)
    (hact : act cls hosts net name p .found (s, f) = some (s', f')) :
    Kept hosts net (name p) s s' f' := by
  cases f with
  | looking answers =>
    unfold act at hact
    dsimp only at hact
    split at hact
    · next hall =>
      have hseen {l : Live} (hl : l ∈ s.live) (hc : l.clusterName = name p) :=
        hs.mem_answers h hall hl hc
      split at hact
      · next cluster hget =>
        cases hact
        refine hs.kept fun l hl hc => ?_
        exact (get_answering_ok hget).mem_iff.mpr (hseen hl hc)
      · next e hget =>
        split at hact
        · next hkind =>
          cases hact
          refine hs.kept fun l hl hc => ?_
          have hmem := hseen hl hc
          rw [get_answering_error hget hkind] at hmem
          cases hmem
        · cases hact
          exact hs.kept trivial
    · cases hact
  | idle | absent | starting | holding | removing => cases hact

theorem alloc_kept (hhosts : ∀ h ∈ hosts, IsHost h) {spec : ClusterSpec F} {running : List String}
    (hs : Inv F hosts net s) (h : Local hosts (name p) s f)
    (hact : act cls hosts net name p (.alloc spec running) (s, f) = some (s', f')) :
    Kept hosts net (name p) s s' f' := by
  cases f with
  | absent =>
    unfold act at hact
    dsimp only at hact
    split at hact
    · next hname =>
      split at hact
      · cases hact
      · next nodes hnodes =>
        obtain ⟨tbl, A, hfile, hA⟩ := hs.recorded
        obtain ⟨addrs, tbl', A', halloc, hA', hsame, haddrs⟩ :=
          exists_allocAddr (F := F) hA spec.name nodes.length
        obtain ⟨hs', hguar⟩ := hs.write hfile hA hA' (hname ▸ hsame) h
        rw [hfile, halloc] at hact
        cases addrs with
        | none =>
          cases hact
          exact ⟨hs', trivial, hguar⟩
        | some ranges =>
          cases hact
          obtain ⟨hget, hnodup⟩ := haddrs ranges rfl
          refine ⟨hs', local_starting hname (placed_of_nodesOf hhosts hnodes) hnodup ?_ h, hguar⟩
          exact fun x hx => (holds_write_iff hA').mpr ⟨ranges, hname ▸ hget, hx⟩
    · cases hact
  | idle | looking | starting | holding | removing => cases hact

theorem start_kept {img ip : String} {pid : ℤ} (hs : Inv F hosts net s)
    (h : Local hosts (name p) s f)
    (hact : act cls hosts net name p (.start img ip pid) (s, f) = some (s', f')) :
    Kept hosts net (name p) s s' f' := by
  cases f with
  | starting spec pairs =>
    cases pairs with
    | nil => cases hact
    | cons q pairs =>
      obtain ⟨node, addr⟩ := q
      unfold act at hact
      dsimp only at hact
      split at hact
      · cases hact
      · split at hact
        · cases hact
        · split at hact
          · cases hact
          cases hact
          refine hs.start h rfl rfl ?_
          rintro ⟨host, hhost, hsingHost, hsingPort⟩
          refine ⟨host, hhost, ?_⟩
          show (((Dict.get? node "sing_host").getD .none).toStr,
            ((Dict.get? node "sing_port").getD .none).toStr) = _
          rw [hsingHost, hsingPort]
          rfl
  | idle | looking | absent | holding | removing => cases hact

theorem stop_kept (hs : Inv F hosts net s) (h : Local hosts (name p) s f)
    (hact : act cls hosts net name p .stop (s, f) = some (s', f')) :
    Kept hosts net (name p) s s' f' := by
  cases f with
  | removing containers =>
    cases containers with
    | nil => cases hact
    | cons inst containers =>
      unfold act at hact
      dsimp only at hact
      split at hact
      · cases hact
        refine ⟨hs.without inst, fun l hl hc => ?_, guar_without (name p) s inst⟩
        obtain ⟨hl, hsame⟩ := mem_without.mp hl
        refine (List.mem_cons.mp (h l hl hc)).resolve_left fun heq => ?_
        rw [heq, same_self] at hsame
        cases hsame
      · cases hact
  | idle | looking | absent | starting | holding => cases hact

/-- The addresses are given back when no container of the cluster runs any more. -/
theorem free_kept (hs : Inv F hosts net s) (h : Local hosts (name p) s f)
    (hact : act cls hosts net name p .free (s, f) = some (s', f')) :
    Kept hosts net (name p) s s' f' := by
  cases f with
  | removing containers =>
    cases containers with
    | cons inst containers => cases hact
    | nil =>
      obtain ⟨tbl, A, hfile, hA⟩ := hs.recorded
      have hnone : ∀ l ∈ s.live, l.clusterName ≠ name p :=
        fun l hl hc => List.not_mem_nil (h l hl hc)
      obtain ⟨hs', hguar⟩ := hs.write hfile hA (hA.pop (name p))
        (fun d hd => (Dict.get?_pop _ _ _).trans (if_neg hd.symm)) hnone
      unfold act at hact
      dsimp only at hact
      rw [hfile, IPAddrDb.freeAddr_write F hA] at hact
      cases hact
      exact ⟨hs', trivial, hguar⟩
  | idle | looking | absent | starting | holding => cases hact

/-- **Every step** of a script keeps what holds of the site and what the script relies on. -/
theorem act_kept (hhosts : ∀ h ∈ hosts, IsHost h) {a : Action F} (hs : Inv F hosts net s)
    (h : Local hosts (name p) s f) (hact : act cls hosts net name p a (s, f) = some (s', f')) :
    Kept hosts net (name p) s s' f' := by
  cases a with
  | get => exact get_kept hs hact
  | answer host => exact answer_kept hs h hact
  | found => exact found_kept hs h hact
  | alloc spec running => exact alloc_kept hhosts hs h hact
  | start img ip pid => exact start_kept hs h hact
  | remove =>
    cases f with
    | holding containers =>
      cases hact
      exact hs.kept h
    | idle | looking | absent | starting | removing => cases hact
  | stop => exact stop_kept hs h hact
  | free => exact free_kept hs h hact
  | giveUp =>
    have heq : some (s, Phase.idle) = some (s', f') := by
      cases f <;> exact hact
    cases heq
    exact hs.kept trivial
  | exit inst =>
    have heq : some (s.without inst, f) = some (s', f') := by
      cases f <;> exact hact
    cases heq
    exact ⟨hs.without inst, h.mono (fun l hl _ => (mem_without.mp hl).1) fun _ h => h,
      guar_without (name p) s inst⟩

/-- A container is started when no instance with its name runs. -/
theorem act_start (hcls : cls.missing = []) (name : π → String) (p : π) {s : Site} {spec : ClusterSpec F} {node : Fields F}
    {nodeName : Val F} (hnode : Val.getItem node "hostname" = .ok nodeName) {addr : ℤ}
    {pairs : List (Fields F × ℤ)}
    (hnew : ∀ l ∈ s.live, l.inst.instanceName ≠ instanceNameOf spec.name nodeName.toStr) :
    act cls hosts net name p (.start "/img" "10.0.0.9" 7) (s, .starting spec ((node, addr) :: pairs)) =
      some ({ s with live := s.live ++ [started spec node nodeName addr "/img" "10.0.0.9" 7] },
        .starting spec pairs) := by
  unfold act
  dsimp only
  rw [hnode]
  dsimp only
  rw [ContainerClass.new_of_complete hcls]
  dsimp only
  rw [if_neg]
  rw [Bool.not_eq_true, List.any_eq_false]
  intro l hl hsame
  rw [same, Bool.and_eq_true, Bool.and_eq_true, beq_iff_eq] at hsame
  exact hnew l hl hsame.1.1.symm

/-- The scripts leave each other alone when their clusters have different names. -/
theorem guarantees (hhosts : ∀ h ∈ hosts, IsHost h) (hname : Function.Injective name) :
    Processes.Guarantees (act (F := F) cls hosts net name) (Inv F hosts net)
      (fun p s f => Local hosts (name p) s f) (fun p s s' => Guar F (name p) s s') where
  own hs h hact := act_kept hhosts hs h hact
  stable {p q s f s'} hpq hguar h := by
    have hne : name q ≠ name p := fun heq => hpq (hname heq.symm)
    exact h.mono (fun l hl hc => hguar.1 l hl (hc ▸ hne)) fun x hx => hguar.2 _ x hne hx

theorem inv_init : Inv F hosts net (init π F).shared where
  recorded := ⟨[], Allocation.empty String net.pool, IPAddrDb.initDb_empty F,
    IPAddrDb.records_empty net.pool⟩
  nodup := List.nodup_nil
  held := nofun
  asked := nofun

theorem safe_of_reachable [DecidableEq π] (hhosts : ∀ h ∈ hosts, IsHost h)
    (hname : Function.Injective name) {s : Processes.Sys π Site (Phase F)}
    (hs : Processes.Reachable (act cls hosts net name) (init π F) s) : Safe F net s.shared := by
  obtain ⟨events, hrun⟩ := hs
  exact ((guarantees hhosts hname).run hrun inv_init fun _ => trivial).1.safe

/-- With a class that no object can be made of, a script starts nothing. -/
theorem live_subset_of_missing (hcls : cls.missing ≠ []) {a : Action F}
    (hact : act cls hosts net name p a (s, f) = some (s', f')) : s'.live ⊆ s.live := by
  cases a with
  | get =>
    cases f with
    | idle => cases hact; exact List.Subset.refl _
    | looking | absent | starting | holding | removing => cases hact
  | answer host =>
    cases f with
    | looking answers =>
      unfold act at hact
      dsimp only at hact
      split at hact <;> cases hact
      exact List.Subset.refl _
    | idle | absent | starting | holding | removing => cases hact
  | found =>
    cases f with
    | looking answers =>
      unfold act at hact
      dsimp only at hact
      split at hact
      · split at hact <;> cases hact <;> exact List.Subset.refl _
      · cases hact
    | idle | absent | starting | holding | removing => cases hact
  | alloc spec running =>
    cases f with
    | absent =>
      unfold act at hact
      dsimp only at hact
      split at hact
      · split at hact
        · cases hact
        · split at hact <;> cases hact <;> exact List.Subset.refl _
      · cases hact
    | idle | looking | starting | holding | removing => cases hact
  | start img ip pid =>
    cases f with
    | starting spec pairs =>
      cases pairs with
      | nil => cases hact
      | cons q pairs =>
        obtain ⟨node, addr⟩ := q
        obtain ⟨e, hnew, -⟩ := ContainerClass.exists_new_error hcls
        unfold act at hact
        dsimp only at hact
        rw [hnew] at hact
        split at hact <;> cases hact
    | idle | looking | absent | holding | removing => cases hact
  | remove =>
    cases f with
    | holding containers => cases hact; exact List.Subset.refl _
    | idle | looking | absent | starting | removing => cases hact
  | stop =>
    cases f with
    | removing containers =>
      cases containers with
      | nil => cases hact
      | cons inst containers =>
        unfold act at hact
        dsimp only at hact
        split at hact <;> cases hact
        exact fun l hl => (mem_without.mp hl).1
    | idle | looking | absent | starting | holding => cases hact
  | free =>
    cases f with
    | removing containers =>
      cases containers with
      | cons inst containers => cases hact
      | nil =>
        unfold act at hact
        dsimp only at hact
        split at hact <;> cases hact
        exact List.Subset.refl _
    | idle | looking | absent | starting | holding => cases hact
  | giveUp =>
    have heq : some (s, Phase.idle) = some (s', f') := by
      cases f <;> exact hact
    cases heq
    exact List.Subset.refl _
  | exit inst =>
    have heq : some (s.without inst, f) = some (s', f') := by
      cases f <;> exact hact
    cases heq
    exact fun l hl => (mem_without.mp hl).1

theorem safe_of_missing [DecidableEq π] (hcls : cls.missing ≠ [])
    {s : Processes.Sys π Site (Phase F)}
    (hs : Processes.Reachable (act cls hosts net name) (init π F) s) : Safe F net s.shared := by
  obtain ⟨events, hrun⟩ := hs
  have hnone : Processes.Guarantees (act (F := F) cls hosts net name) (fun s => s.live = [])
      (fun _ _ _ => True) fun _ _ _ => True :=
    ⟨fun hs _ hact => ⟨List.subset_nil.mp (hs ▸ live_subset_of_missing hcls hact), trivial, trivial⟩,
      fun _ _ _ => trivial⟩
  have hlive : s.shared.live = [] := (hnone.run hrun rfl fun _ => trivial).1
  have hnotMem (l : Live) : l ∉ s.shared.live := hlive ▸ List.not_mem_nil
  exact ⟨by rw [hlive]; exact List.nodup_nil, fun l hl => absurd hl (hnotMem l),
    fun l hl => absurd hl (hnotMem l)⟩

end Steps

end Scripts
end SCluster
end LdmsTest
