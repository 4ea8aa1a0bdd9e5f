import LdmsTest.Foundation.Greedy
import LdmsTest.Singularity.Hostnames

/-!
# The loads of the hosts

The loop of `SCluster._create` that gives hosts to nodes takes the root of a heap, counts one more
container for it in place, and puts it back with `heapreplace`.  In between, the root may be out of
order.

* `Tracks`: the heap holds every host once, with its load.
* `exists_hostHeap_tracks`, `exists_assignHosts_greedy`: the heap at the start, and the loop.
* `assignHosts_balanced`: every node gets a host with the fewest containers at that moment.
-/

namespace LdmsTest
namespace SCluster

open Heapq
open Val (Fields)

variable {F : Type}

/-- The hostname of an entry. -/
def HeapEntry.hostname (e : HeapEntry) : String :=
  hostOf e.host

/-- **The heap holds every host once**, with its load. -/
structure Tracks (hosts : List String) (load : String → ℕ) (heap : List HeapEntry) : Prop where
  mem_iff : ∀ h, h ∈ heap.map HeapEntry.hostname ↔ h ∈ hosts
  nodup : (heap.map HeapEntry.hostname).Nodup
  conts_eq : ∀ e ∈ heap, e.conts = load e.hostname

theorem compares_lt : Compares HeapEntry.lt HeapEntry.conts := fun _ _ => decide_eq_true_iff

theorem Tracks.perm {hosts : List String} {load : String → ℕ} {heap heap' : List HeapEntry}
    (h : Tracks hosts load heap) (hperm : heap'.Perm heap) : Tracks hosts load heap' where
  mem_iff k := (hperm.map _).mem_iff.trans (h.mem_iff k)
  nodup := (hperm.map _).nodup_iff.mpr h.nodup
  conts_eq e he := h.conts_eq e (hperm.mem_iff.mp he)

/-! ## The heap at the start -/

/-- The dictionary of the entries: each under its hostname, with its load. -/
structure Counts (load : String → ℕ) (heap : Dict String HeapEntry) : Prop where
  nodup : (Dict.keys heap).Nodup
  hostname : ∀ p ∈ heap, p.2.hostname = p.1
  conts : ∀ p ∈ heap, p.2.conts = load p.1

theorem Counts.set {load load' : String → ℕ} {heap : Dict String HeapEntry} (h : Counts load heap)
    {k : String} {e : HeapEntry} (hk : e.hostname = k) (he : e.conts = load' k)
    (hload : ∀ k', k' ≠ k → load' k' = load k') : Counts load' (Dict.set heap k e) := by
  have hnodup := Dict.nodup_keys_set h.nodup k e
  have hitem (p : String × HeapEntry) (hp : p ∈ Dict.set heap k e) :
      p = (k, e) ∨ p.1 ≠ k ∧ p ∈ heap := by
    have hget := (Dict.get?_eq_some_iff hnodup).mpr hp
    rw [Dict.get?_set] at hget
    split at hget
    · next heq =>
      cases hget
      exact Or.inl (Prod.ext heq.symm rfl)
    · next hne => exact Or.inr ⟨Ne.symm hne, Dict.mem_of_get? hget⟩
  refine ⟨hnodup, fun p hp => ?_, fun p hp => ?_⟩
  · rcases hitem p hp with rfl | ⟨-, hp⟩
    · exact hk
    · exact h.hostname p hp
  · rcases hitem p hp with rfl | ⟨hne, hp⟩
    · exact he
    · exact (h.conts p hp).trans (hload p.1 hne).symm

/-- Every host is entered, without containers. -/
theorem Counts.foldl_set {heap : Dict String HeapEntry} (h : Counts (fun _ => 0) heap)
    (singHosts : List String) :
    Counts (fun _ => 0) (singHosts.foldl (fun heap h => Dict.set heap (hostOf h) ⟨h, 0⟩) heap) ∧
      ∀ k, k ∈ Dict.keys (singHosts.foldl (fun heap h => Dict.set heap (hostOf h) ⟨h, 0⟩) heap) ↔
        k ∈ Dict.keys heap ∨ k ∈ singHosts.map hostOf := by
  induction singHosts generalizing heap with
  | nil => exact ⟨h, fun k => by simp⟩
  | cons host singHosts ih =>
    have hset : Counts (fun _ => 0) (Dict.set heap (hostOf host) ⟨host, 0⟩) :=
      h.set rfl rfl fun _ _ => rfl
    obtain ⟨hcounts, hkeys⟩ := ih hset
    refine ⟨hcounts, fun k => (hkeys k).trans ?_⟩
    rw [Dict.mem_keys_set, List.map_cons, List.mem_cons]
    tauto

/-- The running containers are counted. -/
theorem Counts.exists_foldlM {load : String → ℕ} {heap : Dict String HeapEntry}
    (h : Counts load heap) {running : List String} (hrunning : ∀ r ∈ running, r ∈ Dict.keys heap) :
    ∃ heap', running.foldlM (fun (heap : Dict String HeapEntry) sshHost =>
        match Dict.get? heap sshHost with
        | none => (throw (⟨.keyError, "'" ++ sshHost ++ "'"⟩ : PyError) : Except PyError _)
        | some ent => pure (Dict.set heap sshHost { ent with conts := ent.conts + 1 })) heap =
          .ok heap' ∧ Counts (loadAfter load running) heap' ∧
      ∀ k, k ∈ Dict.keys heap' ↔ k ∈ Dict.keys heap := by
  induction running generalizing load heap with
  | nil => exact ⟨heap, rfl, by rwa [loadAfter_nil], fun _ => Iff.rfl⟩
  | cons r running ih =>
    obtain ⟨hr, hrunning⟩ := List.forall_mem_cons.mp hrunning
    obtain ⟨ent, hent⟩ := Option.isSome_iff_exists.mp (Dict.isSome_get?_iff.mpr hr)
    have hmem := Dict.mem_of_get? hent
    have hset : Counts (loadAfter load [r]) (Dict.set heap r { ent with conts := ent.conts + 1 }) :=
      h.set (h.hostname _ hmem)
        ((congrArg (· + 1) (h.conts _ hmem)).trans (loadAfter_singleton_self load r).symm)
        fun k hk => loadAfter_singleton_of_ne load hk
    have hkeys (k : String) :
        k ∈ Dict.keys (Dict.set heap r { ent with conts := ent.conts + 1 }) ↔ k ∈ Dict.keys heap := by
      rw [Dict.mem_keys_set]
      exact or_iff_right_of_imp fun heq => heq ▸ hr
    obtain ⟨heap', hfold, hcounts, hkeys'⟩ := ih hset fun k hk => (hkeys k).mpr (hrunning k hk)
    refine ⟨heap', ?_, ?_, fun k => (hkeys' k).trans (hkeys k)⟩
    · rw [List.foldlM_cons, hent]
      exact hfold
    · rw [← List.singleton_append, loadAfter_append]
      exact hcounts

theorem Counts.tracks {load : String → ℕ} {heap : Dict String HeapEntry} (h : Counts load heap)
    {hosts : List String} (hkeys : ∀ k, k ∈ Dict.keys heap ↔ k ∈ hosts) :
    Tracks hosts load (heap.map Prod.snd) := by
  have hmap : (heap.map Prod.snd).map HeapEntry.hostname = Dict.keys heap := by
    rw [List.map_map]
    exact List.map_congr_left h.hostname
  refine ⟨fun k => by rw [hmap, hkeys], by rw [hmap]; exact h.nodup, ?_⟩
  intro e he
  obtain ⟨p, hp, rfl⟩ := List.mem_map.mp he
  rw [h.conts p hp, h.hostname p hp]

/-- **The heap at the start** holds every host, with the containers that run on it. -/
theorem exists_hostHeap_tracks {singHosts running : List String}
    (hrunning : ∀ r ∈ running, r ∈ singHosts.map hostOf) :
    ∃ heap, hostHeap singHosts running = .ok heap ∧ HeapFrom HeapEntry.conts 0 heap ∧
      Tracks (singHosts.map hostOf) (fun h => running.count h) heap := by
  have hnil : Counts (fun _ => 0) [] := ⟨List.nodup_nil, nofun, nofun⟩
  obtain ⟨hcounts, hkeys⟩ := hnil.foldl_set singHosts
  have hkeys' (k : String) := (hkeys k).trans (or_iff_right (List.not_mem_nil (a := k)))
  obtain ⟨heap, hfold, hcounts', hsame⟩ :=
    hcounts.exists_foldlM fun r hr => (hkeys' r).mpr (hrunning r hr)
  have hload : loadAfter (fun _ => 0) running = fun h => running.count h := by
    funext h
    rw [loadAfter, Nat.zero_add]
  rw [hload] at hcounts'
  obtain ⟨hheap, hperm⟩ := heapify_spec compares_lt (heap.map Prod.snd)
  refine ⟨heapify HeapEntry.lt (heap.map Prod.snd), ?_, hheap, ?_⟩
  · exact congrArg (· >>= fun heap => pure (heapify HeapEntry.lt (heap.map Prod.snd))) hfold
  · exact (hcounts'.tracks fun k => (hsame k).trans (hkeys' k)).perm hperm

/-! ## The loop -/

/-- The root gets one more container. -/
theorem Tracks.count_root {hosts : List String} {load : String → ℕ} {top : HeapEntry}
    {rest : List HeapEntry} (h : Tracks hosts load (top :: rest)) :
    Tracks hosts (loadAfter load [top.hostname]) ({ top with conts := top.conts + 1 } :: rest) := by
  refine ⟨h.mem_iff, h.nodup, List.forall_mem_cons.mpr ⟨?_, fun e he => ?_⟩⟩
  · have hload := h.conts_eq top List.mem_cons_self
    exact (congrArg (· + 1) hload).trans (loadAfter_singleton_self load _).symm
  · have hne : e.hostname ≠ top.hostname := by
      have hnodup := h.nodup
      rw [List.map_cons, List.nodup_cons] at hnodup
      intro heq
      exact hnodup.1 (heq ▸ List.mem_map_of_mem he)
    rw [h.conts_eq e (List.mem_cons_of_mem _ he), loadAfter_singleton_of_ne load hne]

/-- The root is least loaded. -/
theorem Tracks.root_le {hosts : List String} {load : String → ℕ} {top : HeapEntry}
    {rest : List HeapEntry} (h : Tracks hosts load (top :: rest))
    (hheap : HeapFrom HeapEntry.conts 0 (top :: rest)) :
    ∀ h' ∈ hosts, load top.hostname ≤ load h' := by
  intro h' hh'
  obtain ⟨e, he, rfl⟩ := List.mem_map.mp ((h.mem_iff h').mpr hh')
  rw [← h.conts_eq e he, ← h.conts_eq top List.mem_cons_self]
  exact hheap.root_le e he

theorem fst_hostPort (h : String) : (hostPort h).1 = hostOf h := by
  unfold hostPort
  split
  · next hnil =>
    have htake := List.takeWhile_append_dropWhile (p := (· ≠ ':')) (l := h.toList)
    rw [hnil, List.append_nil] at htake
    rw [hostOf, htake, String.ofList_toList]
  · rfl

/-- `node["sing_host"]` of the nodes -/
def singHosts (nodes : List (Fields F)) : List (Option (Val F)) :=
  nodes.map (Dict.get? · "sing_host")

/-- **The loop** gives every node a host that is least loaded. -/
theorem exists_assignHosts_greedy {hosts : List String} {load : String → ℕ}
    {heap : List HeapEntry} (htracks : Tracks hosts load heap)
    (hheap : HeapFrom HeapEntry.conts 0 heap) {items : List (Fields F)}
    (hhosts : items ≠ [] → hosts ≠ []) :
    ∃ nodes chosen, assignHosts heap (items.map .dict) = .ok nodes ∧
      List.Forall₂ (fun item node => Hosted (.dict item) node) items nodes ∧
      singHosts nodes = chosen.map (some ∘ Val.str) ∧ Greedy hosts load chosen := by
  induction items generalizing heap load with
  | nil =>
    refine ⟨[], [], ?_, .nil, rfl, Greedy.nil hosts load⟩
    cases heap <;> rfl
  | cons item items ih =>
    have hne := hhosts (List.cons_ne_nil _ _)
    obtain ⟨top, rest, rfl⟩ : ∃ top rest, heap = top :: rest := by
      refine List.exists_cons_of_ne_nil ?_
      rintro rfl
      obtain ⟨h, hh⟩ := List.exists_mem_of_ne_nil _ hne
      exact absurd ((htracks.mem_iff h).mpr hh) (List.not_mem_nil)
    let ent : HeapEntry := { top with conts := top.conts + 1 }
    obtain ⟨hheap', hperm⟩ := heapreplace_spec compares_lt
      (List.cons_ne_nil ent rest) hheap.cons ent
    obtain ⟨nodes, chosen, hassign, hhosted, hsing, hgreedy⟩ :=
      ih (htracks.count_root.perm hperm) hheap' fun _ => hne
    let node := Dict.set (Dict.set item "sing_host" (.str (hostPort ent.host).1)) "sing_port"
      (.str (hostPort ent.host).2)
    have hnode : Dict.get? node "sing_host" = some (.str top.hostname) := by
      rw [Dict.get?_set_of_ne _ _ (by decide), Dict.get?_set_self, fst_hostPort]
      rfl
    refine ⟨node :: nodes, top.hostname :: chosen, ?_, .cons ⟨_, _, rfl⟩ hhosted, ?_, ?_⟩
    · rw [List.map_cons, assignHosts]
      exact congrArg (· >>= fun nodes => pure (node :: nodes)) hassign
    · rw [singHosts, List.map_cons, hnode, List.map_cons]
      exact congrArg _ hsing
    · have htop : top.hostname ∈ hosts := (htracks.mem_iff _).mp List.mem_cons_self
      exact Greedy.cons htop (htracks.root_le hheap) hgreedy

/-- **Every node gets a host with the fewest containers at that moment**, and in the end a host that
got a node has at most one container more than any other.

Here `running` is any list of counted containers.  `_create` counts those of `World.list`, that is
`SContainer.list()`, which passes over the instances that no object can be made of: with `sContainer`,
which leaves a method abstract, over all of them. -/
theorem assignHosts_balanced {hosts running : List String} {items : List (Fields F)}
    (hhosts : items ≠ [] → hosts ≠ []) (hrunning : ∀ r ∈ running, r ∈ hosts.map hostOf) :
    ∃ heap nodes chosen, hostHeap hosts running = .ok heap ∧
      assignHosts heap (items.map .dict) = .ok nodes ∧
      List.Forall₂ (fun item node => Hosted (.dict item) node) items nodes ∧
      singHosts nodes = chosen.map (some ∘ Val.str) ∧
      Greedy (hosts.map hostOf) (fun h => running.count h) chosen ∧
      ∀ h ∈ chosen, ∀ h' ∈ hosts.map hostOf,
        loadAfter (fun h => running.count h) chosen h ≤
          loadAfter (fun h => running.count h) chosen h' + 1 := by
  obtain ⟨heap, hheap, horder, htracks⟩ := exists_hostHeap_tracks hrunning
  obtain ⟨nodes, chosen, hassign, hhosted, hsing, hgreedy⟩ :=
    exists_assignHosts_greedy htracks horder
      fun h : items ≠ [] => mt List.map_eq_nil_iff.mp (hhosts h)
  exact ⟨heap, nodes, chosen, hheap, hassign, hhosted, hsing, hgreedy,
    fun h hh h' hh' => hgreedy.le_add_one hh hh'⟩

theorem assignHosts_twoHosts :
    ∃ heap nodes chosen, hostHeap ["a:22", "b"] ["b", "b"] = .ok heap ∧
      assignHosts (F := ℤ) heap ([[], [], []].map .dict) = .ok nodes ∧
      List.Forall₂ (fun item node => Hosted (.dict item) node) [[], [], []] nodes ∧
      singHosts nodes = chosen.map (some ∘ Val.str) ∧
      Greedy (["a:22", "b"].map hostOf) (fun h => ["b", "b"].count h) chosen ∧
      ∀ h ∈ chosen, ∀ h' ∈ ["a:22", "b"].map hostOf,
        loadAfter (fun h => ["b", "b"].count h) chosen h ≤
          loadAfter (fun h => ["b", "b"].count h) chosen h' + 1 :=
  assignHosts_balanced (by simp) (by decide)

end SCluster
end LdmsTest
