import LdmsTest.Singularity.Hostnames
import LdmsTest.Singularity.Scripts

/-!
# Scripts alone, and scripts for one cluster

What the steps of `Scripts` come to when nothing comes between them: the loop of `_create` and
`remove`.  Then the race of two scripts for clusters of one name.

* `exists_of_startLoop`, `exists_of_remove`: the steps of one script do what the functions do.
* `exists_unsafe`: two scripts that both find no cluster `c` come to run two containers with one
  address.
* `safe_iff_injective`: the containers are safe in every reachable state, exactly when no two
  scripts are for clusters of one name, or no object can be made of the class of the containers.
-/

namespace LdmsTest
namespace SCluster
namespace Scripts

open Json (JsonFloat)
open Val (Fields)
open Ranges (listPoints)

variable {π F : Type} [JsonFloat F]

/-! ## A script alone -/

section Alone

variable [DecidableEq π] {cls : ContainerClass} {hosts : List String} {net : Network}
  {name : π → String}

/-- What runs once a container is started. -/
structure Runs (spec : ClusterSpec F) (cont : Container F) (l : Live) : Prop where
  clusterName : l.clusterName = spec.name
  instanceName : l.inst.instanceName = cont.instanceName
  sshHost : l.inst.sshHost = cont.sshHost
  sshPort : l.inst.sshPort = cont.sshPort
  ipAddr : l.ipAddr = cont.ipAddr

/-- The loop of `_create`, when nothing comes between its steps: the script starts the containers
of the loop. -/
theorem exists_of_startLoop {w : World F} {spec : ClusterSpec F}
    {pairs : List (Fields F × ℤ)} {before new : List (Container F)}
    (hloop : startLoop cls w spec before pairs = (before ++ new, .ok ()))
    {s₀ s : Processes.Sys π Site (Phase F)} {p : π}
    (h : Processes.Reachable (act cls hosts net name) s₀ s)
    (hphase : s.phase p = .starting spec pairs) (hnodup : (new.map Container.instanceName).Nodup)
    (hfree : ∀ c ∈ new, ∀ l ∈ s.shared.live, l.inst.instanceName ≠ c.instanceName) :
    ∃ s' ls, Processes.Reachable (act cls hosts net name) s₀ s' ∧
      s'.phase p = .starting spec [] ∧
      s'.shared = { s.shared with live := s.shared.live ++ ls } ∧
      List.Forall₂ (Runs spec) new ls := by
  induction pairs generalizing before new s with
  | nil =>
    have heq := congrArg Prod.fst hloop
    rw [startLoop, List.self_eq_append_right] at heq
    subst heq
    exact ⟨s, [], h, hphase, by rw [List.append_nil], .nil⟩
  | cons q pairs ih =>
    obtain ⟨node, addr⟩ := q
    rw [startLoop] at hloop
    split at hloop
    · cases congrArg Prod.snd hloop
    · next cont hstart =>
      split at hloop
      · cases congrArg Prod.snd hloop
      · obtain ⟨hcont, hclass, -⟩ := startNode_eq_ok hstart
        obtain ⟨rest, heq, -, -⟩ := startLoop_spec cls w spec (before ++ [cont]) pairs
        obtain rfl : new = cont :: rest := by
          rw [hloop, List.append_assoc, List.singleton_append] at heq
          exact List.append_cancel_left heq
        obtain ⟨instName, hname, hcont⟩ := exists_of_bind_ok hcont
        obtain ⟨nodeName, hhost, hname⟩ := exists_of_bind_ok hname
        cases hname
        cases hcont
        obtain ⟨hnotMem, hnodup⟩ := List.nodup_cons.mp hnodup
        obtain ⟨hfresh, hfree⟩ := List.forall_mem_cons.mp hfree
        obtain ⟨s₁, h₁, hshared₁, hphase₁, -⟩ := h.exists_after hphase
          (act_start (ContainerClass.complete_of_new hclass) name p hhost hfresh)
        obtain ⟨s', ls, hreach, hphase', hshared', hruns⟩ :=
          ih (hloop.trans (by rw [List.append_assoc, List.singleton_append])) h₁ hphase₁ hnodup
          (fun c hc => by
            rw [hshared₁]
            refine List.forall_mem_append.mpr ⟨hfree c hc, List.forall_mem_singleton.mpr ?_⟩
            exact fun heq => hnotMem (List.mem_map.mpr ⟨c, hc, heq.symm⟩))
        refine ⟨s', started spec node nodeName addr "/img" "10.0.0.9" 7 :: ls, hreach, hphase', ?_,
          .cons ⟨rfl, rfl, rfl, rfl, rfl⟩ hruns⟩
        rw [hshared', hshared₁, List.append_assoc]
        rfl

theorem stopLoop_of_forall {w : Hosts} {containers : List Inst}
    (hstop : ∀ c ∈ containers, w.stop c = .ok ()) : stopLoop w containers = (containers, .ok ()) := by
  induction containers with
  | nil => rfl
  | cons cont containers ih =>
    obtain ⟨hcont, hstop⟩ := List.forall_mem_cons.mp hstop
    rw [stopLoop, hcont, ih hstop]

/-- The loop of `remove`, when nothing comes between its steps. -/
theorem exists_of_stopLoop {containers : List Inst} {s₀ s : Processes.Sys π Site (Phase F)} {p : π}
    (h : Processes.Reachable (act cls hosts net name) s₀ s) (hphase : s.phase p = .removing containers)
    (hlive : ∀ c ∈ containers, ∃ l ∈ s.shared.live, l.inst = c)
    (hne : containers.Pairwise fun c d => same c d = false) :
    ∃ s', Processes.Reachable (act cls hosts net name) s₀ s' ∧ s'.phase p = .removing [] ∧
      s'.shared = ⟨s.shared.file, s.shared.live.filter fun l =>
        containers.all fun c => !same c l.inst⟩ := by
  induction containers generalizing s with
  | nil =>
    refine ⟨s, h, hphase, ?_⟩
    simp
  | cons cont containers ih =>
    obtain ⟨⟨l, hl, rfl⟩, hrest⟩ := List.forall_mem_cons.mp hlive
    obtain ⟨hcont, hne⟩ := List.pairwise_cons.mp hne
    have hact : act (F := F) cls hosts net name p .stop (s.shared, .removing (l.inst :: containers)) =
        some (s.shared.without l.inst, .removing containers) := by
      unfold act
      dsimp only
      rw [if_pos (List.any_eq_true.mpr ⟨l, hl, same_self l.inst⟩)]
    obtain ⟨s₁, h₁, hshared₁, hphase₁, -⟩ := h.exists_after hphase hact
    have hlive₁ : ∀ c ∈ containers, ∃ l' ∈ s₁.shared.live, l'.inst = c := by
      intro c hc
      obtain ⟨l', hl', rfl⟩ := hrest c hc
      rw [hshared₁]
      exact ⟨l', mem_without.mpr ⟨hl', hcont _ hc⟩, rfl⟩
    obtain ⟨s', h', hphase', hshared'⟩ := ih h₁ hphase₁ hlive₁ hne
    refine ⟨s', h', hphase', ?_⟩
    rw [hshared', hshared₁, Site.without, List.filter_filter]
    simp only [List.all_cons, Bool.and_comm]

/-- `remove`, when nothing comes between its steps: the script stops the containers, and gives the
addresses back. -/
theorem exists_of_remove {w : Hosts} {containers : List Inst}
    (hstop : ∀ c ∈ containers, w.stop c = .ok ())
    {s₀ s : Processes.Sys π Site (Phase F)} {p : π}
    (h : Processes.Reachable (act cls hosts net name) s₀ s) (hphase : s.phase p = .holding containers)
    (hlive : ∀ c ∈ containers, ∃ l ∈ s.shared.live, l.inst = c)
    (hne : containers.Pairwise fun c d => same c d = false) {file : String}
    (hremove : remove F w s.shared.file ⟨name p, containers⟩ = (containers, .ok file)) :
    ∃ s', Processes.Reachable (act cls hosts net name) s₀ s' ∧ s'.phase p = .idle ∧
      s'.shared = ⟨file, s.shared.live.filter fun l =>
        containers.all fun c => !same c l.inst⟩ := by
  have hact : act (F := F) cls hosts net name p .remove (s.shared, .holding containers) =
      some (s.shared, .removing containers) := rfl
  obtain ⟨s₁, h₁, hshared₁, hphase₁, -⟩ := h.exists_after hphase hact
  obtain ⟨s₂, h₂, hphase₂, hshared₂⟩ := exists_of_stopLoop h₁ hphase₁ (hshared₁ ▸ hlive) hne
  have hfree : IPAddrDb.freeAddr F s.shared.file (name p) = .ok file := by
    rw [remove, stopLoop_of_forall hstop] at hremove
    exact (Prod.mk.inj hremove).2
  have hact₂ : act (F := F) cls hosts net name p .free (s₂.shared, .removing []) =
      some ({ s₂.shared with file := file }, .idle) := by
    unfold act
    dsimp only
    rw [hshared₂, hshared₁, hfree]
  obtain ⟨s', h', hshared', hphase', -⟩ := h₂.exists_after hphase₂ hact₂
  exact ⟨s', h', hphase', by rw [hshared', hshared₂, hshared₁]⟩

end Alone

/-! ## Two scripts for one cluster -/

/-- A cluster of one node. -/
def oneNode (F : Type) (c node : String) : ClusterSpec F where
  fields := [("name", .str c), ("nodes", .list [.dict [("hostname", .str node)]])]
  name := c
  get?_name := rfl

section Race

variable [DecidableEq π] {cls : ContainerClass} {hosts : List String} {net : Network}
  {name : π → String}

/-- Where nothing runs, the hosts answer that nothing runs. -/
theorem exists_answers {s₀ s : Processes.Sys π Site (Phase F)}
    (h : Processes.Reachable (act cls hosts net name) s₀ s) (hlive : s.shared.live = []) {p : π}
    {answers : Dict String (List Inst)} (hphase : s.phase p = .looking answers)
    (hnone : ∀ host insts, Dict.get? answers host = some insts → insts = []) {asked : List String}
    (hasked : ∀ host ∈ asked, host ∈ hosts) :
    ∃ s' answers', Processes.Reachable (act cls hosts net name) s₀ s' ∧ s'.shared = s.shared ∧
      s'.phase p = .looking answers' ∧ (∀ q, q ≠ p → s'.phase q = s.phase q) ∧
      (∀ host insts, Dict.get? answers' host = some insts → insts = []) ∧
      ∀ host, host ∈ asked ∨ (Dict.get? answers host).isSome → (Dict.get? answers' host).isSome := by
  induction asked generalizing s answers with
  | nil =>
    exact ⟨s, answers, h, rfl, hphase, fun _ _ => rfl, hnone,
      fun host hhost => hhost.resolve_left List.not_mem_nil⟩
  | cons host asked ih =>
    obtain ⟨hhost, hasked⟩ := List.forall_mem_cons.mp hasked
    cases hget : Dict.get? answers host with
    | some insts =>
      obtain ⟨s', answers', hreach, hshared, hphase', hothers, hnone', hall⟩ :=
        ih h hlive hphase hnone hasked
      refine ⟨s', answers', hreach, hshared, hphase', hothers, hnone',
        fun host' hhost' => hall host' ?_⟩
      rcases hhost' with hhost' | hhost'
      · rcases List.mem_cons.mp hhost' with rfl | hhost'
        · exact Or.inr (Option.isSome_iff_exists.mpr ⟨insts, hget⟩)
        · exact Or.inl hhost'
      · exact Or.inr hhost'
    | none =>
      have hlisting : s.shared.listing host = [] := by rw [Site.listing, hlive]; rfl
      have hact : act (F := F) cls hosts net name p (.answer host) (s.shared, .looking answers) =
          some (s.shared, .looking (Dict.set answers host [])) := by
        unfold act
        dsimp only
        rw [if_pos ⟨hhost, hget⟩, hlisting]
      obtain ⟨s₁, h₁, hshared₁, hphase₁, hothers₁⟩ := h.exists_after hphase hact
      have hnone₁ (host' : String) (insts : List Inst)
          (hinsts : Dict.get? (Dict.set answers host []) host' = some insts) : insts = [] := by
        rw [Dict.get?_set] at hinsts
        split at hinsts
        · exact (Option.some_inj.mp hinsts).symm
        · exact hnone host' insts hinsts
      obtain ⟨s', answers', hreach, hshared, hphase', hothers, hnone', hall⟩ :=
        ih h₁ (hshared₁ ▸ hlive) hphase₁ hnone₁ hasked
      refine ⟨s', answers', hreach, hshared.trans hshared₁, hphase',
        fun q hq => (hothers q hq).trans (hothers₁ q hq), hnone',
        fun host' hhost' => hall host' ?_⟩
      rw [Dict.get?_set]
      split
      · exact Or.inr rfl
      · next hne =>
        exact hhost'.imp_left fun hmem => (List.mem_cons.mp hmem).resolve_left (Ne.symm hne)

/-- Where nothing runs, a script finds no cluster. -/
theorem exists_absent {s₀ s : Processes.Sys π Site (Phase F)}
    (h : Processes.Reachable (act cls hosts net name) s₀ s) (hlive : s.shared.live = [])
    (hfile : IPAddrDb.initDb F s.shared.file = s.shared.file) {p : π} (hidle : s.phase p = .idle) :
    ∃ s', Processes.Reachable (act cls hosts net name) s₀ s' ∧ s'.shared = s.shared ∧
      s'.phase p = .absent ∧ ∀ q, q ≠ p → s'.phase q = s.phase q := by
  have hget : act (F := F) cls hosts net name p .get (s.shared, .idle) =
      some (s.shared, .looking []) := by
    unfold act
    dsimp only
    rw [hfile]
  obtain ⟨s₁, h₁, hshared₁, hphase₁, hothers₁⟩ := h.exists_after hidle hget
  obtain ⟨s₂, answers, h₂, hshared₂, hphase₂, hothers₂, hnone, hall⟩ :=
    exists_answers h₁ (hshared₁ ▸ hlive) hphase₁ (fun _ _ h => absurd h (Option.some_ne_none _).symm)
      fun _ => id
  have hempty : (hosts.flatMap fun host => (Dict.get? answers host).getD []) = [] := by
    refine List.flatMap_eq_nil_iff.mpr fun host _ => ?_
    cases hget : Dict.get? answers host with
    | none => rfl
    | some insts => exact hnone host insts hget
  have hfound : act (F := F) cls hosts net name p .found (s₂.shared, .looking answers) =
      some (s₂.shared, .absent) := by
    unfold act
    dsimp only
    rw [if_pos fun host hhost => hall host (Or.inl hhost), hempty]
    rfl
  obtain ⟨s', h', hshared', hphase', hothers'⟩ := h₂.exists_after hphase₂ hfound
  exact ⟨s', h', hshared'.trans (hshared₂.trans hshared₁), hphase',
    fun q hq => (hothers' q hq).trans ((hothers₂ q hq).trans (hothers₁ q hq))⟩

omit [JsonFloat F] in
/-- One node gets one of the hosts. -/
theorem exists_nodesOf (cls : ContainerClass) (hne : hosts ≠ []) (c node : String) :
    ∃ d, nodesOf cls (listing hosts []) (oneNode F c node) = .ok [d] ∧
      Val.getItem d "hostname" = .ok (.str node) := by
  have hnone (r : String) (hr : r ∈ []) : r ∈ hosts.map hostOf := absurd hr List.not_mem_nil
  obtain ⟨heap, hheap, horder, htracks⟩ := exists_hostHeap_tracks hnone
  have hhosts (_ : ([[("hostname", .str node)]] : List (Fields F)) ≠ []) : hosts.map hostOf ≠ [] :=
    mt List.map_eq_nil_iff.mp hne
  obtain ⟨nodes, -, hnodes, hall, -⟩ := exists_assignHosts_greedy htracks horder hhosts
  obtain ⟨d, hhosted, rfl⟩ : ∃ d, Hosted (.dict [("hostname", .str node)]) d ∧ nodes = [d] := by
    cases hall with
    | cons hd hrest =>
      cases hrest
      exact ⟨_, hd, rfl⟩
  refine ⟨d, ?_, Val.getItem_eq_ok_iff.mpr ?_⟩
  · rw [nodesOf]
    show (hostHeap hosts [] >>= fun heap => assignHosts heap [.dict [("hostname", .str node)]]) = _
    rw [hheap]
    exact hnodes
  · rw [hhosted.get?_hostname, Dict.get?_cons_self]

omit [DecidableEq π] in
theorem act_alloc (name : π → String) (p : π) {s : Site} {spec : ClusterSpec F} (hspec : spec.name = name p)
    {d : Fields F} (hd : nodesOf cls (listing hosts []) spec = .ok [d]) {ranges : HexRanges}
    {file' : String}
    (halloc : IPAddrDb.allocAddr F net s.file spec.name 1 = .ok (some ranges, file')) {x : ℤ}
    (hx : listPoints ranges = [x]) :
    act cls hosts net name p (.alloc spec []) (s, .absent) =
      some ({ s with file := file' }, .starting spec [(d, x)]) := by
  unfold act
  dsimp only
  rw [if_pos hspec, hd]
  dsimp only [List.length_singleton]
  rw [halloc]
  dsimp only
  rw [hx]
  rfl

/-- Both scripts find no cluster and create it, and get one address. -/
theorem exists_race (hcls : cls.missing = []) {p q : π} (hpq : p ≠ q) (hname : name q = name p) (hne : hosts ≠ [])
    {s₀ : Processes.Sys π Site (Phase F)} (hidle : ∀ r, s₀.phase r = .idle)
    (hlive : s₀.shared.live = []) (hfile : IPAddrDb.initDb F s₀.shared.file = s₀.shared.file)
    {ranges : HexRanges} {file : String}
    (halloc : IPAddrDb.allocAddr F net s₀.shared.file (name p) 1 = .ok (some ranges, file))
    (hknown : IPAddrDb.allocAddr F net file (name p) 1 = .ok (some ranges, file)) {x : ℤ}
    (hx : listPoints ranges = [x]) :
    ∃ s, Processes.Reachable (act cls hosts net name) s₀ s ∧
      s.shared.live.map Live.ipAddr = [x, x] := by
  obtain ⟨dp, hdp, hhostp⟩ := exists_nodesOf (F := F) cls hne (name p) "a"
  obtain ⟨dq, hdq, hhostq⟩ := exists_nodesOf (F := F) cls hne (name p) "b"
  -- neither script finds a cluster
  have h₀ : Processes.Reachable (act cls hosts net name) s₀ s₀ := Processes.Reachable.refl s₀
  obtain ⟨s₁, h₁, hshared₁, hp₁, hothers₁⟩ := exists_absent h₀ hlive hfile (hidle p)
  obtain ⟨s₂, h₂, hshared₂, hq₂, hothers₂⟩ := exists_absent (p := q) h₁
    (hshared₁ ▸ hlive) (hshared₁ ▸ hfile) ((hothers₁ q hpq.symm).trans (hidle q))
  -- both allocate
  have hspecp : (oneNode F (name p) "a").name = name p := rfl
  have hspecq : (oneNode F (name p) "b").name = name q := hname.symm
  rw [← hshared₁, ← hshared₂] at halloc
  obtain ⟨s₃, h₃, hshared₃, hp₃, hothers₃⟩ := h₂.exists_after ((hothers₂ p hpq).trans hp₁)
    (act_alloc name p hspecp hdp halloc hx)
  have hknown₃ : IPAddrDb.allocAddr F net s₃.shared.file (name p) 1 = .ok (some ranges, file) := by
    rw [hshared₃]
    exact hknown
  obtain ⟨s₄, h₄, hshared₄, hq₄, hothers₄⟩ := h₃.exists_after
    ((hothers₃ q hpq.symm).trans hq₂)
    (act_alloc name q hspecq hdq hknown₃ hx)
  have hlive₄ : s₄.shared.live = [] := by
    rw [hshared₄, hshared₃, hshared₂, hshared₁, hlive]
  -- both start their node
  obtain ⟨s₅, h₅, hshared₅, hp₅, hothers₅⟩ := h₄.exists_after ((hothers₄ p hpq).trans hp₃)
    (act_start hcls name p hhostp fun l hl => absurd (hlive₄ ▸ hl) List.not_mem_nil)
  obtain ⟨s₆, h₆, hshared₆, -, -⟩ := h₅.exists_after ((hothers₅ q hpq.symm).trans hq₄)
    (act_start hcls name q hhostq fun l hl => by
      rw [hshared₅, hlive₄, List.nil_append, List.mem_singleton] at hl
      subst hl
      show instanceNameOf (name p) "a" ≠ instanceNameOf (name p) "b"
      intro heq
      exact absurd (String.append_right_inj _ |>.mp heq) (by decide))
  refine ⟨s₆, h₆, ?_⟩
  rw [hshared₆, hshared₅, hlive₄]
  rfl

/-- **Two scripts for one cluster** may come to run two containers with one address. -/
theorem exists_unsafe (hcls : cls.missing = []) (hne : hosts ≠ []) (hpool : net.pool.Nonempty) {p q : π} (hpq : p ≠ q)
    (hname : name p = name q) : ∃ s : Processes.Sys π Site (Phase F),
      Processes.Reachable (act cls hosts net name) (init π F) s ∧ ¬ Safe F net s.shared := by
  have hA := IPAddrDb.records_empty net.pool
  have hcard : 1 ≤ (Allocation.empty String net.pool).free.card := by
    rw [Allocation.free_empty]
    exact Finset.card_pos.mpr hpool
  obtain ⟨ranges, hsep, hlen, hfree, halloc⟩ :=
    IPAddrDb.allocAddr_of_le_card F hA (c := name p) rfl hcard
  obtain ⟨x, hx⟩ := List.length_eq_one_iff.mp hlen
  have hset : Dict.get? (Dict.set [] (name p) ranges) (name p) = some ranges :=
    Dict.get?_set_self _ _ _
  have hknown := IPAddrDb.allocAddr_known F (hA.set (c := name p) List.not_mem_nil hsep hfree) hset 1
  have hinit : init π F =
      ⟨⟨IPAddrDb.write (IPAddrDb.ofTbl F []), []⟩, fun _ => .idle⟩ := by
    rw [init, IPAddrDb.initDb_empty]
  obtain ⟨s, hreach, hlive⟩ : ∃ s, Processes.Reachable (act cls hosts net name) (init π F) s ∧
      s.shared.live.map Live.ipAddr = [x, x] :=
    exists_race hcls hpq hname.symm hne (fun _ => by rw [hinit]) (by rw [hinit])
      (by rw [hinit]; exact IPAddrDb.initDb_write F hA) (by rw [hinit]; exact halloc) hknown hx
  refine ⟨s, hreach, fun hsafe => ?_⟩
  have hnodup := hsafe.nodup
  rw [hlive] at hnodup
  exact (List.nodup_cons.mp hnodup).1 List.mem_cons_self

end Race

/-- **Addresses across scripts.**  Whatever the scripts do between the steps of each other, no two
containers have one address and each has one that the database holds for its cluster, exactly when
no two scripts are for clusters of one name, or no object can be made of the class of the
containers. -/
theorem safe_iff_injective [DecidableEq π] (cls : ContainerClass) {hosts : List String}
    (hne : hosts ≠ []) (hhosts : ∀ h ∈ hosts, IsHost h) {net : Network} (hpool : net.pool.Nonempty)
    (name : π → String) :
    (∀ s : Processes.Sys π Site (Phase F),
      Processes.Reachable (act cls hosts net name) (init π F) s → Safe F net s.shared) ↔
        cls.missing ≠ [] ∨ Function.Injective name := by
  constructor
  · intro hsafe
    by_contra hnot
    obtain ⟨hcls, hinj⟩ := not_or.mp hnot
    refine hinj fun p q hname => ?_
    by_contra hpq
    obtain ⟨s, hreach, hunsafe⟩ :=
      exists_unsafe (F := F) (not_not.mp hcls) hne hpool hpq hname
    exact hunsafe (hsafe s hreach)
  · rintro (hcls | hname) s hs
    · exact safe_of_missing hcls hs
    · exact safe_of_reachable hhosts hname hs

/-- Two scripts on one host, with a class that objects can be made of. -/
theorem safe_twoScripts :
    (∀ s : Processes.Sys Bool Site (Phase Json.SampleFloat),
      Processes.Reachable
        (act completeContainer ["head"] ⟨8, 7⟩ fun p => if p then "a" else "b")
        (init Bool Json.SampleFloat) s → Safe Json.SampleFloat ⟨8, 7⟩ s.shared) ↔
      completeContainer.missing ≠ [] ∨ Function.Injective fun p : Bool => if p then "a" else "b" :=
  safe_iff_injective completeContainer (List.cons_ne_nil _ _)
    (List.forall_mem_singleton.mpr (by rw [IsHost]; decide)) (by decide) _

end Scripts
end SCluster
end LdmsTest
