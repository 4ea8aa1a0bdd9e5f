import LdmsTest.Docker.Create
import LdmsTest.Spec.LeftAlone

/-!
# The hostnames of a cluster

`DockerCluster._create` names its nodes after `Spec(spec)["nodes"]`.  `SCluster._create` makes
`Spec(spec)` too, but it takes the nodes and the name of the cluster from `spec` itself, before
templates are expanded and variables are substituted.

What it computes for a node, whatever host and address the node is given, has the hostname and the
instance name of `Spec(spec)` for every node exactly when every node has a hostname of its own and
substitution leaves the hostnames and the name of the cluster alone.
-/

namespace LdmsTest
namespace SCluster

open Json (JsonFloat)
open Ranges (listPoints)
open Spec (LeftAlone Expands Substs IsExpansion IsSubstitution valueAt)
open Val (Fields)

variable {F : Type}

/-! ## The containers -/

theorem Hosted.get?_hostname {d node : Fields F} (h : Hosted (.dict d) node) :
    Dict.get? node "hostname" = Dict.get? d "hostname" := by
  obtain ⟨host, port, h⟩ := h
  obtain rfl := Except.ok.inj h
  rw [Dict.get?_set_of_ne _ _ (by decide), Dict.get?_set_of_ne _ _ (by decide)]

theorem Hosted.exists_dict {item : Val F} {node : Fields F} (h : Hosted item node) :
    ∃ d, item = .dict d := by
  obtain ⟨host, port, h⟩ := h
  cases item with
  | dict d => exact ⟨d, rfl⟩
  | none | bool | int | float | str | list | tuple => cases h

variable [JsonFloat F]

/-- **A container carries the hostname** of its node, and is named after the cluster and it. -/
def Named (cluster : String) (h : Val F) (c : Container F) : Prop :=
  Dict.get? c.nodeSpec "hostname" = some h ∧ c.instanceName = instanceNameOf cluster h.toStr

theorem named_of_containerOf {spec : ClusterSpec F} {node : Fields F} {addr : ℤ}
    {c : Container F} (h : containerOf spec node addr = .ok c) : ∃ host, Named spec.name host c := by
  obtain ⟨instName, hname, h⟩ := exists_of_bind_ok h
  obtain ⟨host, hhost, hname⟩ := exists_of_bind_ok hname
  cases h
  cases hname
  exact ⟨host, Val.getItem_eq_ok_iff.mp hhost, rfl⟩

omit [JsonFloat F] in
theorem exists_of_specNodes {spec : ClusterSpec F} {items : List (Val F)}
    (h : specNodes spec = some items) :
    ∃ v, Dict.get? spec.fields "nodes" = some v ∧ iterate v = .ok items := by
  obtain ⟨v, hv, h⟩ := Option.bind_eq_some_iff.mp h
  refine ⟨v, hv, ?_⟩
  cases hv' : iterate v with
  | error e => rw [hv'] at h; cases h
  | ok xs => rw [hv'] at h; rw [Option.some_inj.mp h]

/-! ## The nodes of a spec and of `Spec(spec)` -/

omit [JsonFloat F] in
theorem eq_nil_of_strings {α : Type} {xs : List α} {f : α → Val F} (hf : ∀ a, ∃ s, f a = .str s)
    (h : ∀ item ∈ xs.map f, ∃ d, item = .dict d) : xs.map f = [] := by
  cases xs with
  | nil => rfl
  | cons x xs =>
    obtain ⟨s, hs⟩ := hf x
    obtain ⟨d, hd⟩ := h (f x) (List.mem_map_of_mem List.mem_cons_self)
    rw [hs] at hd
    cases hd

/-- When all nodes are objects, those of `Spec(spec)` stand where they stand in `spec`. -/
theorem nodes_paired {spec e r : Fields F} (he : IsExpansion spec e) (hs : IsSubstitution e r)
    {v w : Val F} {items ritems : List (Val F)} (hv : Dict.get? spec "nodes" = some v)
    (hw : Dict.get? r "nodes" = some w) (hitems : iterate v = .ok items)
    (hritems : iterate w = .ok ritems) (hdict : ∀ item ∈ items, ∃ d, item = .dict d)
    (hrdict : ∀ item ∈ ritems, ∃ d, item = .dict d) :
    items.length = ritems.length ∧ ∀ i x y, items[i]? = some x → ritems[i]? = some y →
      ∃ z, valueAt (.dict e) [.key "nodes", .index i] = some z ∧
        Expands (Spec.templatesOf spec) x z ∧
        valueAt (.dict r) [.key "nodes", .index i] = some y := by
  have hsome := he.isSome_get?_eq "nodes"
  rw [hv, Option.isSome_some] at hsome
  obtain ⟨u, hu⟩ := Option.isSome_iff_exists.mp hsome
  have hexp := he.expands "nodes" v u (by decide) hv hu
  have hsub := hs.substs "nodes" u w (by decide) hu hw
  -- objects are neither the characters of a string nor the keys of a dictionary
  have nothing {α β : Type} {xs : List α} {ys : List β} {f : α → Val F} {g : β → Val F}
      (hf : ∀ a, ∃ s, f a = .str s) (hg : ∀ a, ∃ s, g a = .str s) (hx : xs.map f = items)
      (hy : ys.map g = ritems) : items = [] ∧ ritems = [] := by
    subst hx hy
    exact ⟨eq_nil_of_strings hf hdict, eq_nil_of_strings hg hrdict⟩
  have empty (h : items = [] ∧ ritems = []) : items.length = ritems.length ∧
      ∀ i x y, items[i]? = some x → ritems[i]? = some y →
      ∃ z, valueAt (.dict e) [.key "nodes", .index i] = some z ∧
        Expands (Spec.templatesOf spec) x z ∧
        valueAt (.dict r) [.key "nodes", .index i] = some y := by
    obtain ⟨rfl, rfl⟩ := h
    exact ⟨rfl, fun _ _ _ h => nomatch h⟩
  have member {ys : List (Val F)} (i : ℕ) {x : Val F} (hlen : items.length = ys.length)
      (hmem : ∀ (i : ℕ) (v w : Val F), items[i]? = some v → ys[i]? = some w →
        Expands (Spec.templatesOf spec) v w)
      (hx : items[i]? = some x) : ∃ z, ys[i]? = some z ∧ Expands (Spec.templatesOf spec) x z := by
    obtain ⟨z, hz⟩ := Val.exists_getElem?_of_length_eq hlen.symm hx
    exact ⟨z, hz, hmem i x z hx hz⟩
  cases v with
  | none | bool | int | float => cases hitems
  | str s =>
    cases hitems
    cases hexp with
    | primitive _ =>
      cases hsub with
      | scalar _ hstr => exact absurd rfl (hstr s)
      | str _ =>
        cases hritems
        exact empty (nothing (fun _ => ⟨_, rfl⟩) (fun _ => ⟨_, rfl⟩) rfl rfl)
  | dict d =>
    cases hitems
    cases hexp with
    | primitive h => cases h
    | dict _ _ _ _ =>
      cases hsub with
      | scalar h _ => cases h
      | dict _ _ =>
        cases hritems
        exact empty (nothing (fun _ => ⟨_, rfl⟩) (fun _ => ⟨_, rfl⟩) rfl rfl)
  | list xs =>
    cases hitems
    cases hexp with
    | primitive h => cases h
    | list hlen hmem =>
      cases hsub with
      | scalar h _ => cases h
      | list hlen' _ =>
        cases hritems
        refine ⟨hlen.trans hlen', fun i x y hx hy => ?_⟩
        obtain ⟨z, hz, hxz⟩ := member i hlen hmem hx
        refine ⟨z, ?_, hxz, ?_⟩
        · rw [Spec.valueAt_dict hu, Spec.valueAt_list hz]
          rfl
        · rw [Spec.valueAt_dict hw, Spec.valueAt_list hy]
          rfl
  | tuple xs =>
    cases hitems
    cases hexp with
    | primitive h => cases h
    | tuple hlen hmem =>
      cases hsub with
      | scalar h _ => cases h
      | tuple hlen' _ =>
        cases hritems
        refine ⟨hlen.trans hlen', fun i x y hx hy => ?_⟩
        obtain ⟨z, hz, hxz⟩ := member i hlen hmem hx
        refine ⟨z, ?_, hxz, ?_⟩
        · rw [Spec.valueAt_dict hu, Spec.valueAt_tuple hz]
          rfl
        · rw [Spec.valueAt_dict hw, Spec.valueAt_tuple hy]
          rfl

/-- **A hostname of a node's own** is the hostname that `Spec(spec)` gives to the node exactly
when substitution leaves it alone. -/
theorem hostname_eq_iff {spec e r : Fields F} (hs : IsSubstitution e r) (hwf : (Val.dict e).WF)
    {i : ℕ} {d dr : Fields F} {z h h' : Val F}
    (hz : valueAt (.dict e) [.key "nodes", .index i] = some z)
    (hexp : Expands (Spec.templatesOf spec) (.dict d) z)
    (hr : valueAt (.dict r) [.key "nodes", .index i] = some (.dict dr))
    (hd : Dict.get? d "hostname" = some h) (hdr : Dict.get? dr "hostname" = some h')
    (hhash : h'.unhashable = none) :
    h' = h ↔ LeftAlone e "nodes" [.index i, .key "hostname"] h := by
  obtain ⟨de, rfl⟩ : ∃ de, z = .dict de := by
    cases hexp with
    | primitive h => cases h
    | dict _ _ _ _ => exact ⟨_, rfl⟩
  obtain ⟨he, hde, hown⟩ := hexp.get?_own (by decide) hd
  have hpath {s t : Fields F} {u : Val F}
      (hs : valueAt (.dict s) [.key "nodes", .index i] = some (.dict t))
      (ht : Dict.get? t "hostname" = some u) :
      valueAt (.dict s) [.key "nodes", .index i, .key "hostname"] = some u := by
    rw [show [Spec.Step.key "nodes", .index i, .key "hostname"] =
      [.key "nodes", .index i] ++ [.key "hostname"] from rfl, Spec.valueAt_append, hs,
      Option.bind_some, Spec.valueAt_dict ht]
    rfl
  have hve := hpath hz hde
  have hvr := hpath hr hdr
  -- the expanded hostname is hashable too, so expansion did not change it
  obtain rfl : h = he := by
    rcases hs.at_path hwf (k := "nodes") (by decide) [.index i, .key "hostname"] with
      ⟨hnone, -⟩ | ⟨v, w, var, hv, hw, hsub, -⟩
    · rw [hnone] at hve
      cases hve
    · obtain rfl := Option.some_inj.mp (hv.symm.trans hve)
      obtain rfl := Option.some_inj.mp (hw.symm.trans hvr)
      exact hown.eq_of_hashable (hsub.hashable hhash)
  exact hs.eq_iff_leftAlone hwf (by decide) hve hvr hhash

/-! ## The two clusters of a spec -/

/-- `spec["name"]` as text -/
def clusterName (spec : Fields F) : String :=
  (Val.get spec "name" .none).toStr

/-- **What is computed for a node**: whatever host and address it is given, its container carries the
hostname `h`, and is named after the cluster and it. -/
def Configured (spec : ClusterSpec F) (cluster : String) (item h : Val F) : Prop :=
  ∀ host port addr, ∃ node c, setHost item host port = .ok node ∧
    containerOf spec node addr = .ok c ∧ Named cluster h c

/-- **The nodes are configured as those of `Spec(spec)`**, one by one. -/
def Agrees (spec : ClusterSpec F) (r : Fields F) (hosts : List (Val F)) : Prop :=
  ∃ items, specNodes spec = some items ∧ List.Forall₂ (Configured spec (clusterName r)) items hosts

/-- **Every node has a hostname of its own**, and substitution leaves the hostnames and the name
of the cluster alone. -/
structure KeepsNames (spec : ClusterSpec F) (e : Fields F) (items : List (Val F)) : Prop where
  hostname : ∀ i item, items[i]? = some item → ∃ d h, item = .dict d ∧
    Dict.get? d "hostname" = some h ∧ LeftAlone e "nodes" [.index i, .key "hostname"] h
  name : items ≠ [] → LeftAlone e "name" [] (.str spec.name)

theorem name_eq_iff {spec : ClusterSpec F} {e r : Fields F} (he : IsExpansion spec.fields e)
    (hs : IsSubstitution e r) (hwf : (Val.dict e).WF) :
    clusterName r = spec.name ↔ LeftAlone e "name" [] (.str spec.name) := by
  have hsome := he.isSome_get?_eq "name"
  rw [spec.get?_name, Option.isSome_some] at hsome
  obtain ⟨u, hu⟩ := Option.isSome_iff_exists.mp hsome
  obtain rfl := (he.expands "name" _ u (by decide) spec.get?_name hu).eq_str
  have hsome' := hs.isSome_get?_eq "name"
  rw [hu, Option.isSome_some] at hsome'
  obtain ⟨w, hw⟩ := Option.isSome_iff_exists.mp hsome'
  obtain ⟨t, rfl⟩ := (hs.substs "name" _ w (by decide) hu hw).exists_str
  have hiff := hs.eq_iff_leftAlone hwf (k := "name") (by decide) (p := [])
    (Spec.valueAt_dict hu []) (Spec.valueAt_dict hw []) rfl
  rw [clusterName, Val.get, hw, Option.getD_some, ← hiff, Val.str.injEq]
  rfl

omit [JsonFloat F] in
theorem eq_of_instanceNameOf_eq {c d h : String}
    (heq : instanceNameOf c h = instanceNameOf d h) : c = d := by
  have hlist := congrArg String.toList heq
  rw [instanceNameOf, instanceNameOf, String.toList_append, String.toList_append,
    String.toList_append, String.toList_append, List.append_assoc, List.append_assoc] at hlist
  exact String.toList_inj.mp (List.append_cancel_right hlist)

theorem configured_dict_iff {spec : ClusterSpec F} {cluster : String} {d : Fields F} {h : Val F} :
    Configured spec cluster (.dict d) h ↔
      Dict.get? d "hostname" = some h ∧ cluster = spec.name := by
  have hnode (host port : String) : setHost (Val.dict d) host port =
      .ok (Dict.set (Dict.set d "sing_host" (.str host)) "sing_port" (.str port)) := rfl
  have hget (host port : String) : Dict.get? (Dict.set (Dict.set d "sing_host" (.str host))
      "sing_port" (.str port)) "hostname" = Dict.get? d "hostname" :=
    Hosted.get?_hostname ⟨host, port, hnode host port⟩
  constructor
  · intro hconf
    obtain ⟨node, c, hset, hcont, hname⟩ := hconf "" "" 0
    obtain rfl := Except.ok.inj ((hnode "" "").symm.trans hset)
    obtain ⟨h', hname'⟩ := named_of_containerOf hcont
    obtain rfl := Option.some_inj.mp (hname.1.symm.trans hname'.1)
    have hd : Dict.get? c.nodeSpec "hostname" = Dict.get? d "hostname" := by
      rw [(Prod.mk.inj (containerOf_eq hcont)).1, hget]
    exact ⟨hd.symm.trans hname.1, eq_of_instanceNameOf_eq (hname.2.symm.trans hname'.2)⟩
  · rintro ⟨hd, rfl⟩ host port addr
    have hname : getInstanceName (Dict.set (Dict.set d "sing_host" (.str host)) "sing_port"
        (.str port)) spec = .ok (instanceNameOf spec.name h.toStr) := by
      rw [getInstanceName, Val.getItem_eq_ok_iff.mpr ((hget host port).trans hd)]
      rfl
    obtain ⟨c, hcont, hspec, hinst⟩ : ∃ c, containerOf spec (Dict.set (Dict.set d "sing_host"
        (.str host)) "sing_port" (.str port)) addr = .ok c ∧
        c.nodeSpec = Dict.set (Dict.set d "sing_host" (.str host)) "sing_port" (.str port) ∧
        c.instanceName = instanceNameOf spec.name h.toStr := by
      rw [containerOf, hname]
      exact ⟨_, rfl, rfl, rfl⟩
    exact ⟨_, c, hnode host port, hcont, hspec ▸ (hget host port).trans hd, hinst⟩

theorem Configured.exists_dict {spec : ClusterSpec F} {cluster : String} {item h : Val F}
    (hconf : Configured spec cluster item h) : ∃ d, item = .dict d := by
  obtain ⟨node, -, hset, -⟩ := hconf "" "" 0
  exact Hosted.exists_dict ⟨_, _, hset⟩

/-- Nodes that are configured as those of `Spec(spec)` have hostnames of their own that are left
alone. -/
theorem keepsNames_of_agrees {spec : ClusterSpec F} {e r : Fields F}
    (he : IsExpansion spec.fields e) (hs : IsSubstitution e r) (hwf : (Val.dict e).WF)
    {hosts : List (Val F)} (hhosts : Docker.hostnames r = .ok hosts)
    (hhash : ∀ h ∈ hosts, h.unhashable = none) (h : Agrees spec r hosts) :
    ∃ items, specNodes spec = some items ∧ KeepsNames spec e items := by
  obtain ⟨items, hitems, hconf⟩ := h
  obtain ⟨v, hv, hiter⟩ := exists_of_specNodes hitems
  obtain ⟨w, ritems, hw, hriter, hpairs⟩ := Docker.hostnames_eq_ok_iff.mp hhosts
  have hdict : ∀ item ∈ items, ∃ d, item = .dict d := by
    intro item hitem
    obtain ⟨i, hi⟩ := List.mem_iff_getElem?.mp hitem
    obtain ⟨h, -, hset⟩ := exists_right_of_forall₂ hconf hi
    exact hset.exists_dict
  have hrdict : ∀ item ∈ ritems, ∃ d, item = .dict d := by
    intro item hitem
    obtain ⟨i, hi⟩ := List.mem_iff_getElem?.mp hitem
    obtain ⟨h, -, d, hd, -⟩ := exists_right_of_forall₂ hpairs hi
    exact ⟨d, hd⟩
  obtain ⟨-, hnode⟩ := nodes_paired he hs hv hw hiter hriter hdict hrdict
  refine ⟨items, hitems, fun i item hi => ?_, fun hne => ?_⟩
  · obtain ⟨h, hh, hset⟩ := exists_right_of_forall₂ hconf hi
    obtain ⟨d, rfl⟩ := hset.exists_dict
    obtain ⟨y, hy, dr, rfl, hdr⟩ := exists_left_of_forall₂ hpairs hh
    obtain ⟨z, hz, hexp, hr⟩ := hnode i _ _ hi hy
    have hd := (configured_dict_iff.mp hset).1
    exact ⟨d, h, rfl, hd, (hostname_eq_iff hs hwf hz hexp hr hd hdr
      (hhash h (List.mem_of_getElem? hh))).mp rfl⟩
  · obtain ⟨item, items', rfl⟩ := List.exists_cons_of_ne_nil hne
    obtain ⟨h, -, hset⟩ := exists_right_of_forall₂ hconf (i := 0) rfl
    obtain ⟨d, rfl⟩ := hset.exists_dict
    exact (name_eq_iff he hs hwf).mp (configured_dict_iff.mp hset).2

/-- Nodes with hostnames of their own that are left alone are configured as those of
`Spec(spec)`. -/
theorem agrees_of_keepsNames {spec : ClusterSpec F} {e r : Fields F}
    (he : IsExpansion spec.fields e) (hs : IsSubstitution e r) (hwf : (Val.dict e).WF)
    {hosts : List (Val F)} (hhosts : Docker.hostnames r = .ok hosts)
    (hhash : ∀ h ∈ hosts, h.unhashable = none) {items : List (Val F)}
    (hitems : specNodes spec = some items) (hkeeps : KeepsNames spec e items) :
    Agrees spec r hosts := by
  obtain ⟨v, hv, hiter⟩ := exists_of_specNodes hitems
  obtain ⟨w, ritems, hw, hriter, hpairs⟩ := Docker.hostnames_eq_ok_iff.mp hhosts
  have hdict : ∀ item ∈ items, ∃ d, item = .dict d := by
    intro item hitem
    obtain ⟨i, hi⟩ := List.mem_iff_getElem?.mp hitem
    obtain ⟨d, h, hd, -⟩ := hkeeps.hostname i item hi
    exact ⟨d, hd⟩
  have hrdict : ∀ item ∈ ritems, ∃ d, item = .dict d := by
    intro item hitem
    obtain ⟨i, hi⟩ := List.mem_iff_getElem?.mp hitem
    obtain ⟨h, -, d, hd, -⟩ := exists_right_of_forall₂ hpairs hi
    exact ⟨d, hd⟩
  obtain ⟨hlen, hnode⟩ := nodes_paired he hs hv hw hiter hriter hdict hrdict
  refine ⟨items, hitems, forall₂_of_getElem? (hlen.trans hpairs.length_eq)
    fun i item h hi hh => ?_⟩
  obtain ⟨d, h', rfl, hd, hleft⟩ := hkeeps.hostname i item hi
  obtain ⟨y, hy, dr, rfl, hdr⟩ := exists_left_of_forall₂ hpairs hh
  obtain ⟨z, hz, hexp, hvr⟩ := hnode i _ _ hi hy
  -- the hostname of the node is the one of `Spec(spec)`
  obtain rfl := (hostname_eq_iff hs hwf hz hexp hvr hd hdr
    (hhash h (List.mem_of_getElem? hh))).mpr hleft
  have hne : items ≠ [] := List.ne_nil_of_mem (List.mem_of_getElem? hi)
  exact configured_dict_iff.mpr ⟨hd, (name_eq_iff he hs hwf).mpr (hkeeps.name hne)⟩

/-- **The hostnames of a spec.**  For a spec that `Spec()` accepts:

* the containers of `DockerCluster._create` have the hostnames of `Spec(spec)["nodes"]`, and are
  named after the name of `Spec(spec)` and them;
* what `SCluster._create` computes for the nodes has these hostnames and instance names if and
  only if every node of the spec has a hostname of its own, and substitution changes neither the
  hostnames nor, when there are nodes, the name of the cluster. -/
theorem agrees_iff (spec : ClusterSpec F) (hspec : (Val.dict spec.fields).Keyed) (e r : Fields F)
    (he : Returns (fun n => Spec.startExpand n spec.fields) e)
    (hr : Returns (fun n => Spec.specInit n spec.fields) r) (hosts : List (Val F))
    (hhosts : Docker.hostnames r = .ok hosts) (hhash : ∀ h ∈ hosts, h.unhashable = none) :
    (∀ m label params, Returns (fun n => Docker.create n m spec.fields) (label, params) →
      params.map (fun p => (Val.str p.hostname, p.name)) =
        hosts.map fun h => (h, instanceNameOf (clusterName r) h.toStr)) ∧
    (Agrees spec r hosts ↔ ∃ items, specNodes spec = some items ∧ KeepsNames spec e items) := by
  have hwf := Spec.wf_of_returns_specInit hspec hr
  obtain ⟨e', he', hsubst⟩ := Spec.exists_of_returns_specInit hwf hr
  obtain rfl := he.unique he'
  have hexp := Spec.isExpansion_of_returns hwf he
  have hsub := Spec.isSubstitution_of_returns hsubst
  refine ⟨fun m label params hcreate => ?_, ?_, ?_⟩
  · obtain ⟨kw, hkw, hparams, -⟩ := Docker.exists_of_returns_create hcreate hr
    obtain ⟨hname, hnodes, -, -⟩ := Docker.specToKwargs_eq hkw
    obtain rfl := Except.ok.inj (hhosts.symm.trans hnodes)
    obtain ⟨v, nodes, volumes, -, -, hall⟩ := Docker.forall₂_contParams hparams
    rw [← List.forall₂_eq_eq_eq, List.forall₂_map_left_iff, List.forall₂_map_right_iff]
    refine hall.flip.imp fun p h hp => ?_
    obtain ⟨host, rfl, rfl⟩ := hp
    obtain ⟨h1, h2⟩ := Docker.name_contParam m nodes kw (Docker.clusterEnv m kw) volumes host
    rw [h1, h2, clusterName, Val.get, hname, Option.getD_some]
    rfl
  · exact keepsNames_of_agrees hexp hsub (hexp.wf hwf) hhosts hhash
  · rintro ⟨items, hitems, hkeeps⟩
    exact agrees_of_keepsNames hexp hsub (hexp.wf hwf) hhosts hhash hitems hkeeps

/-! ## Two specs -/

/-- The two clusters of two nodes with plain hostnames. -/
theorem agrees_twoNodes : Agrees twoNodes twoNodes.fields [.str "node-1", .str "node-2"] := by
  have hexpand : Returns (fun n => Spec.startExpand n twoNodes.fields) twoNodes.fields :=
    (Spec.startExpand_has twoNodes.fields).returns_of_run (m := 1) rfl
  have hinit : Returns (fun n => Spec.specInit n twoNodes.fields) twoNodes.fields :=
    (Spec.exists_has_specInit twoNodes.fields).choose_spec.returns_of_run (m := 1) rfl
  have hiff := (agrees_iff twoNodes (Val.WF.keyed (by decide)) _ _ hexpand hinit
    [.str "node-1", .str "node-2"] rfl (by decide)).2
  refine hiff.mpr ⟨_, rfl, fun i item hi => ?_, fun _ => ?_⟩
  · match i, hi with
    | 0, hi =>
      obtain rfl := Option.some_inj.mp hi
      exact ⟨_, _, rfl, rfl, Spec.leftAlone_of_notMem (by decide) _ _ _⟩
    | 1, hi =>
      obtain rfl := Option.some_inj.mp hi
      exact ⟨_, _, rfl, rfl, Spec.leftAlone_of_notMem (by decide) _ _ _⟩
  · exact Spec.leftAlone_of_notMem (by decide) _ _ _

/-- A node with a variable in its hostname. -/
def variableNode : ClusterSpec Json.SampleFloat where
  fields := [("name", .str "c"), ("H", .str "n1"),
    ("nodes", .list [.dict [("hostname", .str "%H%")]])]
  name := "c"
  get?_name := rfl

/-- **A hostname with a variable**: Docker starts `n1`, and `SCluster` configures another. -/
theorem not_agrees_variableNode : ∃ r : Fields Json.SampleFloat,
    Returns (fun n => Spec.specInit n variableNode.fields) r ∧
    Docker.hostnames r = .ok [.str "n1"] ∧ ¬ Agrees variableNode r [.str "n1"] := by
  have hinit : Returns (fun n => Spec.specInit n variableNode.fields)
      [("name", .str "c"), ("H", .str "n1"), ("nodes", .list [.dict [("hostname", .str "n1")]])] :=
    (Spec.exists_has_specInit variableNode.fields).choose_spec.returns_of_run (m := 1) rfl
  refine ⟨_, hinit, rfl, fun h => ?_⟩
  obtain ⟨items, hitems, hconf⟩ := h
  obtain rfl := Option.some_inj.mp hitems
  -- the node is configured with the hostname that it has in the spec
  obtain ⟨h, hh, hset⟩ := exists_right_of_forall₂ hconf (i := 0) rfl
  obtain rfl := Option.some_inj.mp hh
  have hraw := (configured_dict_iff.mp hset).1
  exact absurd (Val.str.inj (Option.some_inj.mp hraw)) (by decide)

end SCluster
end LdmsTest
