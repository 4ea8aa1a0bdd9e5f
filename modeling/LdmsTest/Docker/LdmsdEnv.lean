import LdmsTest.Docker.Create
import LdmsTest.Python.JsonRoundTrip

/-!
# The environment of `ldmsd`

A variable can be defined for the cluster, for a node, and for a daemon.  The container of a node
gets the environment of the cluster with that of the node over it.  `ldmsd` is executed in the
container with the environment of the cluster again, with that of the daemon over it.

So in the process a variable of the cluster hides the one of the node.  The main result says when
the process sees the value of the daemon, else that of the node, else that of the cluster.

* `startLdmsd`: the environment that `start_ldmsd` passes to `exec_run`.
* `seen`: the value of a variable in the process.
* `KeepsPrecedence`: when it is the documented one.
-/

namespace LdmsTest
namespace Docker

open Json (JsonFloat listed listedItems listedFields get?_listedFields listedItems_eq_map
  listedFields_update)
open SCluster (iterate)
open Val (Fields)

variable {F : Type}

/-! ## `start_ldmsd` -/

/-- `LDMSDContainer.spec`: the first node with the hostname -/
def containerSpec (hostname : String) : List (Val F) → Except PyError (Val F)
  | [] => pure .none
  | node :: nodes => do
    match ← node.subscript "hostname" with
    | .str h => if h = hostname then pure node else containerSpec hostname nodes
    | _ => containerSpec hostname nodes

/-- `next( (d for d in daemons if d["type"] == "ldmsd"), None )` -/
def findLdmsd : List (Val F) → Except PyError (Option (Fields F))
  | [] => pure none
  | d :: ds => do
    match ← d.subscript "type", d with
    | .str "ldmsd", .dict fields => pure (some fields)
    | _, _ => findLdmsd ds

/-- `self.spec.get("daemons", [])` -/
def daemonsOf : Val F → Except PyError (List (Val F))
  | .dict node => iterate (Val.get node "daemons" (.list []))
  | v => throw ⟨.attributeError, "'" ++ v.typeName ++ "' object has no attribute 'get'"⟩

/-- `LDMSDContainer.ldmsd_spec`, without an `ldmsd` the empty dictionary -/
def ldmsdSpec (clusterSpec : Fields F) (hostname : String) : Except PyError (Fields F) := do
  let nodes ← Val.getItem clusterSpec "nodes"
  let nodes ← iterate nodes
  let node ← containerSpec hostname nodes
  let daemons ← daemonsOf node
  match ← findLdmsd daemons with
  | none => pure []
  | some ldmsd => do
    let dspec ← Val.deepCopyFields ldmsd
    let w ← envDict (Val.get dspec "env" (.list []))
    let v ← envDict (Val.get clusterSpec "env" (.list []))
    let dspec := Dict.set dspec "env" (.dict (Dict.update v w))
    let dspec := Dict.setdefault dspec "log_file" (.str "/var/log/ldmsd.log")
    let dspec := Dict.setdefault dspec "log_level" (.str "INFO")
    let dspec := Dict.setdefault dspec "listen_auth" (.str "none")
    pure (Dict.setdefault dspec "config_file" (.str "/etc/ldmsd.conf"))

/-- `DockerCluster.get_spec()`: the label, read back -/
def getSpec [JsonFloat F] (label : String) : Except PyError (Fields F) :=
  match Json.loads label with
  | .ok (.dict d) => pure d
  | _ => throw ⟨.valueError, "the label is not a spec"⟩

/-- `start_ldmsd(spec_override)` in a container where no `ldmsd` runs: the environment that is
passed to `exec_run`, if it comes to that.  The configuration is written before (`configure`). -/
def startLdmsd [JsonFloat F] (configure : Fields F → Except PyError Unit)
    (specOverride : Fields F) (label hostname : String) : Except PyError (Option (Fields F)) := do
  let clusterSpec ← getSpec label
  let spec ← ldmsdSpec clusterSpec hostname
  let spec ← Val.deepCopyFields spec
  let spec := Dict.update spec specOverride
  if spec.isEmpty then pure none
  else do
    configure spec
    let env ← Val.getItem spec "env"
    some <$> envDict env

/-! ## What the process sees -/

/-- The value of a variable in a process: that of `exec_run`, else that of the container. -/
def seen [PyRuntime F] (container exec : Fields F) (name : String) : Option String :=
  ((Dict.get? exec name).or (Dict.get? container name)).map Val.toStr

/-- **The documented value**: the one of the daemon, else of the node, else of the cluster. -/
def documented [PyRuntime F] (daemonEnv nodeEnv clusterEnv : Fields F) (name : String) :
    Option String :=
  ((Dict.get? daemonEnv name).or ((Dict.get? nodeEnv name).or (Dict.get? clusterEnv name))).map
    Val.toStr

/-- The entries of two characters at the head of a list. -/
def twoCharHead : List (Val F) → List String
  | .str s :: es => if s.length = 2 then s :: twoCharHead es else []
  | _ => []

/-- What a list of `NAME=VALUE` leaves of a variable in the environment of the container.  An
entry of two characters is taken for a pair, and all others raise. -/
def leftover [PyRuntime F] (clusterEnv : Fields F) (es : List (Val F)) (name : String) :
    Option String :=
  if name ++ "=" ∈ twoCharHead es then some "="
  else (Dict.get? clusterEnv name).map Val.toStr

/-- **When the process sees the documented value** of a variable.

* The daemon defines it, and the copy of the spec in the label has the same text for it.
* Only the cluster defines it, in its spec, and the copy of the spec has the same text; or the
  node defines it too, with that text.
* The spec of the cluster does not define it, and the node does not either, or its environment is
  a dictionary, or what its list leaves is the value of the node. -/
def KeepsPrecedence [PyRuntime F] (daemonEnv nodeEnv specEnv clusterEnv : Fields F) (node : Val F)
    (name : String) : Prop :=
  match Dict.get? daemonEnv name, Dict.get? specEnv name, Dict.get? nodeEnv name with
  | some v, _, _ => (listed v).toStr = v.toStr
  | none, some c, n => (listed c).toStr = (n.getD c).toStr
  | none, none, none => True
  | none, none, some n => (∃ d, node = .dict d) ∨
      ∃ es, node = .list es ∧ leftover clusterEnv es name = some n.toStr

/-! ## The copy of the spec in the label -/

theorem iterate_listed {v : Val F} {items : List (Val F)} (h : iterate v = .ok items) :
    iterate (listed v) = .ok (items.map listed) := by
  cases v with
  | none | bool | int | float => cases h
  | list xs | tuple xs =>
    cases h
    exact congrArg Except.ok (listedItems_eq_map items)
  | str s =>
    cases h
    exact congrArg Except.ok (by rw [List.map_map]; rfl)
  | dict d =>
    cases h
    change Except.ok ((Dict.keys (listedFields d)).map Val.str) = _
    rw [Json.keys_listedFields, List.map_map]
    rfl

theorem get_listedFields (d : Fields F) (k : String) {default : Val F}
    (hdefault : listed default = default) :
    Val.get (listedFields d) k default = listed (Val.get d k default) := by
  rw [Val.get, Val.get, get?_listedFields]
  cases Dict.get? d k with
  | none => exact hdefault.symm
  | some v => rfl

/-! ## Lists of `NAME=VALUE` -/

theorem exists_of_envItem {e : Val F} {i : ℕ} {p : String × Val F} (h : envItem e i = .ok p) :
    ∃ s value, e = .str s ∧ '=' ∈ s.toList ∧
      p = (String.ofList (s.toList.takeWhile (· ≠ '=')), .str value) := by
  unfold envItem at h
  split at h
  · next s =>
    split at h
    · cases h
    · next c value hdrop =>
      refine ⟨s, String.ofList value, rfl, ?_, (Except.ok.inj h).symm⟩
      by_contra hno
      have hall : s.toList.dropWhile (· ≠ '=') = [] := by
        rw [List.dropWhile_eq_nil_iff]
        intro c hc
        exact decide_eq_true fun heq => hno (heq ▸ hc)
      rw [hall] at hdrop
      cases hdrop
  · cases h

/-- **The items of a list**: one for each entry, with its name and a text. -/
theorem exists_of_envDict_list {es : List (Val F)} {env : Fields F}
    (h : envDict (.list es) = .ok env) : ∃ items, env = Dict.update [] items ∧
      List.Forall₂ (fun e p => ∃ s value, e = .str s ∧ '=' ∈ s.toList ∧
        p = (String.ofList (s.toList.takeWhile (· ≠ '=')), Val.str value)) es items := by
  obtain ⟨items, hitems, h⟩ := exists_of_bind_ok h
  cases h
  have hall := mapM_eq_ok_iff.mp hitems
  refine ⟨items, rfl, ?_⟩
  refine forall₂_of_getElem? (by rw [← hall.length_eq, List.length_zipIdx]) fun i e p he hp => ?_
  obtain ⟨q, hq, hep⟩ := exists_left_of_forall₂ hall hp
  rw [List.getElem?_zipIdx, he] at hq
  obtain rfl := Option.some_inj.mp hq
  exact exists_of_envItem hep

theorem listedFields_of_texts {items : Fields F} (h : ∀ p ∈ items, ∃ t, p.2 = .str t) :
    listedFields items = items := by
  induction items with
  | nil => rfl
  | cons p items ih =>
    obtain ⟨k, v⟩ := p
    obtain ⟨⟨t, rfl⟩, hitems⟩ := List.forall_mem_cons.mp h
    rw [listedFields, ih hitems]
    rfl

/-- `env_dict` of the copy in the label. -/
theorem envDict_listed {v : Val F} {env : Fields F} (h : envDict v = .ok env) :
    envDict (listed v) = .ok (listedFields env) := by
  cases v with
  | none | bool | int | float | str | tuple => cases h
  | dict d =>
    cases h
    rfl
  | list es =>
    obtain ⟨items, rfl, hall⟩ := exists_of_envDict_list h
    have hes : listedItems es = es := by
      rw [listedItems_eq_map]
      refine (List.map_congr_left fun e he => ?_).trans (List.map_id es)
      obtain ⟨i, hi⟩ := List.mem_iff_getElem?.mp he
      obtain ⟨p, -, s, value, rfl, -⟩ := exists_right_of_forall₂ hall hi
      rfl
    have hitems : listedFields items = items := by
      refine listedFields_of_texts fun p hp => ?_
      obtain ⟨i, hi⟩ := List.mem_iff_getElem?.mp hp
      obtain ⟨e, -, s, value, -, -, rfl⟩ := exists_left_of_forall₂ hall hi
      exact ⟨value, rfl⟩
    rw [listed, hes, h, listedFields_update, hitems]
    rfl

theorem iterate_str (s : String) :
    iterate (.str s : Val F) = .ok (s.toList.map fun c => .str (String.ofList [c])) := rfl

theorem pairOf_str {s : String} {a b : Char} (h : s.toList = [a, b]) :
    pairOf (.str s : Val F) = some (String.ofList [a], .str (String.ofList [b])) := by
  rw [pairOf, iterate_str, h]
  rfl

theorem pairOf_str_of_length_ne {s : String} (h : s.length ≠ 2) :
    pairOf (.str s : Val F) = none := by
  rw [pairOf, iterate_str]
  rw [← String.length_toList] at h
  match hs : s.toList with
  | [] => rfl
  | [_] => rfl
  | [_, _] => exact absurd (by rw [hs]; rfl) h
  | _ :: _ :: _ :: _ => rfl

theorem ofList_eq_iff {cs : List Char} {s : String} : String.ofList cs = s ↔ cs = s.toList := by
  constructor
  · rintro rfl
    exact String.toList_ofList.symm
  · rintro rfl
    exact String.ofList_toList

/-- **What `dict.update` does with a list of `NAME=VALUE`.**  It ends at the first entry that has
not two characters; of the others, `V=` gives `V` the value `=`. -/
theorem get?_updatePairs {es : List (Val F)}
    (hes : ∀ e ∈ es, ∃ s, e = .str s ∧ '=' ∈ s.toList) {name : String} (hname : '=' ∉ name.toList)
    (env : Fields F) : Dict.get? (updatePairs env es).1 name =
      if name ++ "=" ∈ twoCharHead es then some (.str "=") else Dict.get? env name := by
  induction es generalizing env with
  | nil => rfl
  | cons e es ih =>
    obtain ⟨⟨s, rfl, hs⟩, hrest⟩ := List.forall_mem_cons.mp hes
    by_cases hlen : s.length = 2
    · obtain ⟨a, b, hcs⟩ := List.length_eq_two.mp (String.length_toList.trans hlen)
      -- the entry is `V=`, or it starts with `=`
      have hiff : name ++ "=" = s ↔ String.ofList [a] = name := by
        rw [ofList_eq_iff, ← String.toList_inj, String.toList_append, hcs]
        constructor
        · intro h
          have hsplit : name.toList ++ ['='] = [a] ++ [b] := h
          exact (List.append_inj_left' hsplit rfl).symm
        · intro h
          rw [← h]
          rw [hcs, List.mem_cons, List.mem_singleton] at hs
          rw [← h, List.mem_singleton] at hname
          rw [← hs.resolve_left hname]
          rfl
      rw [updatePairs, pairOf_str hcs, twoCharHead, if_pos hlen]
      dsimp only
      rw [ih hrest, Dict.get?_set]
      by_cases hhead : name ++ "=" ∈ twoCharHead es
      · rw [if_pos hhead, if_pos (List.mem_cons_of_mem _ hhead)]
      · rw [if_neg hhead]
        by_cases ha : String.ofList [a] = name
        · have hb := hiff.mpr ha
          rw [if_pos ha, if_pos (List.mem_cons.mpr (Or.inl hb))]
          rw [← String.toList_inj, String.toList_append, hcs, ← ha] at hb
          obtain rfl : '=' = b := by simpa using hb
          rfl
        · rw [if_neg ha, if_neg fun h => (List.mem_cons.mp h).elim (ha ∘ hiff.mp) hhead]
    · rw [updatePairs, pairOf_str_of_length_ne hlen, twoCharHead, if_neg hlen,
        if_neg List.not_mem_nil]

/-- A variable that an entry `V=` sets is one that the list defines. -/
theorem mem_keys_of_mem_twoCharHead {es : List (Val F)} {env : Fields F}
    (henv : envDict (.list es) = .ok env) {name : String} (hname : '=' ∉ name.toList)
    (h : name ++ "=" ∈ twoCharHead es) : name ∈ Dict.keys env := by
  obtain ⟨items, rfl, hall⟩ := exists_of_envDict_list henv
  have hmem (es : List (Val F)) (h : name ++ "=" ∈ twoCharHead es) :
      Val.str (name ++ "=") ∈ es := by
    induction es with
    | nil => cases h
    | cons e es ih =>
      unfold twoCharHead at h
      split at h
      · next s es' heq =>
        obtain ⟨rfl, rfl⟩ := List.cons.inj heq
        split at h
        · rcases List.mem_cons.mp h with h | h
          · rw [h]
            exact List.mem_cons_self
          · exact List.mem_cons_of_mem _ (ih h)
        · cases h
      · cases h
  obtain ⟨i, hi⟩ := List.mem_iff_getElem?.mp (hmem es h)
  obtain ⟨p, hp, s, value, hs, -, rfl⟩ := exists_right_of_forall₂ hall hi
  obtain rfl := Val.str.inj hs
  -- the name of the entry is what stands before the sign
  have htake : (name ++ "=").toList.takeWhile (· ≠ '=') = name.toList := by
    rw [String.toList_append, List.takeWhile_append_of_pos]
    · exact List.append_nil _
    · intro c hc
      exact decide_eq_true fun heq => hname (heq ▸ hc)
  refine Dict.mem_keys_update.mpr (Or.inr ?_)
  have hkey := List.mem_map_of_mem (f := Prod.fst) (List.mem_of_getElem? hp)
  rwa [htake, String.ofList_toList] at hkey

/-! ## The environment of the container -/

/-- The node that a spec has for a hostname. -/
def nodeOf (spec : Fields F) (hostname : String) : Option (Fields F) :=
  (Dict.get? spec "nodes").bind fun nodes => (iterate nodes).toOption.bind (findNode · hostname)

/-- `type == "ldmsd"` -/
def isLdmsd (d : Fields F) : Bool :=
  match Dict.get? d "type" with
  | some (.str t) => t == "ldmsd"
  | _ => false

/-- The first `ldmsd` of a list of daemons. -/
def firstLdmsd (daemons : List (Val F)) : Option (Fields F) :=
  daemons.findSome? fun
    | .dict d => if isLdmsd d then some d else none
    | _ => none

/-- The `ldmsd` that a node runs. -/
def ldmsdOf (node : Fields F) : Option (Fields F) :=
  (iterate (Val.get node "daemons" (.list []))).toOption.bind firstLdmsd

theorem mem_of_findNode {nodes : List (Val F)} {hostname : String} {node : Fields F}
    (h : findNode nodes hostname = some node) : .dict node ∈ nodes := by
  obtain ⟨v, hv, h⟩ := List.exists_of_findSome?_eq_some h
  cases v with
  | dict d =>
    dsimp only at h
    split at h
    · obtain rfl := Option.some_inj.mp h
      exact hv
    · cases h
  | none | bool | int | float | str | list | tuple => cases h

theorem mem_of_firstLdmsd {ds : List (Val F)} {d : Fields F} (h : firstLdmsd ds = some d) :
    .dict d ∈ ds := by
  obtain ⟨v, hv, h⟩ := List.exists_of_findSome?_eq_some h
  cases v with
  | dict e =>
    dsimp only at h
    split at h
    · obtain rfl := Option.some_inj.mp h
      exact hv
    · cases h
  | none | bool | int | float | str | list | tuple => cases h

theorem wf_of_iterate {v : Val F} (hv : v.WF) {items : List (Val F)} (h : iterate v = .ok items) :
    ∀ x ∈ items, x.WF := by
  cases v with
  | none | bool | int | float => cases h
  | list xs => cases h; exact hv.mem_list
  | tuple xs => cases h; exact hv.mem_tuple
  | str s | dict d =>
    cases h
    intro x hx
    obtain ⟨k, -, rfl⟩ := List.mem_map.mp hx
    exact .primitive rfl

theorem wf_get {d : Fields F} (hd : (Val.dict d).WF) (k : String) :
    (Val.get d k (.dict [])).WF := by
  rw [Val.get]
  cases hget : Dict.get? d k with
  | none => exact .dict List.nodup_nil nofun
  | some v => exact hd.of_get? hget

theorem wf_of_ldmsdOf {node d : Fields F} (hnode : (Val.dict node).WF)
    (h : ldmsdOf node = some d) : (Val.dict d).WF := by
  obtain ⟨ds, hds, h⟩ := Option.bind_eq_some_iff.mp h
  have hiter : iterate (Val.get node "daemons" (.list [])) = .ok ds := by
    cases hiter : iterate (Val.get node "daemons" (.list [])) with
    | error e => rw [hiter] at hds; cases hds
    | ok ds' => rw [hiter] at hds; rw [Option.some_inj.mp hds]
  have hwf : (Val.get node "daemons" (.list [])).WF := by
    rw [Val.get]
    cases hget : Dict.get? node "daemons" with
    | none => exact .list nofun
    | some v => exact hnode.of_get? hget
  exact wf_of_iterate hwf hiter _ (mem_of_firstLdmsd h)

theorem environment_contParam [PyRuntime F] (m : Machine F) {nodes : List (Val F)}
    (kw : Kwargs F) (env volumes : Fields F) {hostname : String} {node : Fields F}
    (h : findNode nodes hostname = some node) :
    (contParam m nodes kw env volumes hostname).environment =
      (updateEnv env (Val.get node "env" (.dict env))).1 := by
  unfold contParam
  dsimp only
  rw [h]
  rfl

theorem nodup_keys_clusterEnv [JsonFloat F] {m : Machine F} {spec : Fields F} {kw : Kwargs F}
    (h : specToKwargs m spec = .ok kw) : (Dict.keys (clusterEnv m kw)).Nodup := by
  obtain ⟨-, -, -, pythonPath, own, -, henv⟩ := specToKwargs_eq h
  have hovis : (Dict.keys (ovisEnv pythonPath : Fields F)).Nodup := by
    rw [show Dict.keys (ovisEnv pythonPath : Fields F) = ["PATH", "LD_LIBRARY_PATH", "ZAP_LIBPATH",
      "LDMSD_PLUGIN_LIBPATH", "PYTHONPATH"] from rfl]
    decide
  rw [clusterEnv, henv]
  exact Dict.nodup_keys_setdefault (Dict.nodup_keys_update hovis own) _ _

theorem nodup_keys_envDict {v : Val F} (hv : v.WF) {env : Fields F} (h : envDict v = .ok env) :
    (Dict.keys env).Nodup := by
  cases v with
  | none | bool | int | float | str | tuple => cases h
  | dict d =>
    cases h
    exact hv.nodup_keys
  | list es =>
    obtain ⟨items, rfl, -⟩ := exists_of_envDict_list h
    exact Dict.nodup_keys_update (d := []) List.nodup_nil items

/-- A variable of the cluster's spec is one of the cluster's environment. -/
theorem get?_clusterEnv [JsonFloat F] {m : Machine F} {spec : Fields F} {kw : Kwargs F}
    (h : specToKwargs m spec = .ok kw) {own : Fields F}
    (hown : envDict (Val.get spec "env" (.dict [])) = .ok own) (hkeys : (Dict.keys own).Nodup)
    {name : String} {c : Val F} (hc : Dict.get? own name = some c) :
    Dict.get? (clusterEnv m kw) name = some c := by
  obtain ⟨-, -, -, pythonPath, own', hown', henv⟩ := specToKwargs_eq h
  obtain rfl := Except.ok.inj (hown.symm.trans hown')
  have hget : Dict.get? (Dict.update (ovisEnv pythonPath) own) name = some c := by
    rw [Dict.get?_update hkeys, hc, Option.some_or]
  rw [clusterEnv, henv, Dict.get?_setdefault]
  split
  · next heq => rw [heq, hget, Option.getD_some]
  · exact hget

/-- **A variable in the environment of a container**: the node over the cluster, unless the node
gives a list. -/
theorem get?_updateEnv {env node nodeEnv : Fields F} (henv : (Dict.keys env).Nodup)
    (hnode : (Val.dict node).WF) (hown : envDict (Val.get node "env" (.dict [])) = .ok nodeEnv)
    {name : String} (hname : '=' ∉ name.toList) :
    Dict.get? (updateEnv env (Val.get node "env" (.dict env))).1 name =
      match Val.get node "env" (.dict []) with
      | .list es => if name ++ "=" ∈ twoCharHead es then some (.str "=") else Dict.get? env name
      | _ => (Dict.get? nodeEnv name).or (Dict.get? env name) := by
  rw [Val.get] at hown ⊢
  rw [Val.get]
  cases hget : Dict.get? node "env" with
  | none =>
    rw [hget] at hown
    cases hown
    rw [Option.getD_none, updateEnv, Dict.get?_update henv, Option.or_self]
    rfl
  | some v =>
    rw [hget, Option.getD_some] at hown
    rw [Option.getD_some, Option.getD_some]
    cases v with
    | none | bool | int | float | str | tuple => cases hown
    | dict d =>
      have hkeys := nodup_keys_envDict (hnode.of_get? hget) hown
      cases hown
      exact Dict.get?_update hkeys env name
    | list es =>
      obtain ⟨items, -, hall⟩ := exists_of_envDict_list hown
      refine get?_updatePairs (fun e he => ?_) hname env
      obtain ⟨i, hi⟩ := List.mem_iff_getElem?.mp he
      obtain ⟨p, -, s, value, rfl, hs, -⟩ := exists_right_of_forall₂ hall hi
      exact ⟨s, rfl, hs⟩

/-! ## The environment of the execution -/

theorem findNode_dict (d : Fields F) (items : List (Val F)) (hostname : String) :
    findNode (.dict d :: items) hostname =
      if isNamed hostname d then some d else findNode items hostname := by
  rw [findNode, List.findSome?_cons]
  dsimp only
  cases isNamed hostname d <;> rfl

theorem firstLdmsd_dict (d : Fields F) (ds : List (Val F)) :
    firstLdmsd (.dict d :: ds) = if isLdmsd d then some d else firstLdmsd ds := by
  rw [firstLdmsd, List.findSome?_cons]
  dsimp only
  cases isLdmsd d <;> rfl

theorem containerSpec_listed {items : List (Val F)}
    (hitems : ∀ item ∈ items, ∃ d h, item = .dict d ∧ Dict.get? d "hostname" = some h)
    {hostname : String} {node : Fields F} (h : findNode items hostname = some node) :
    containerSpec hostname (items.map listed) = .ok (.dict (listedFields node)) := by
  induction items with
  | nil => cases h
  | cons item items ih =>
    obtain ⟨⟨d, host, rfl, hd⟩, hrest⟩ := List.forall_mem_cons.mp hitems
    have hsub : (listed (.dict d)).subscript "hostname" = .ok (listed host) := by
      refine Val.subscript_eq_ok_iff.mpr ⟨listedFields d, rfl, ?_⟩
      rw [get?_listedFields, hd]
      rfl
    rw [findNode_dict] at h
    rw [List.map_cons, containerSpec, hsub, ok_bind]
    by_cases hnamed : isNamed hostname d = true
    · rw [if_pos hnamed] at h
      obtain rfl := Option.some_inj.mp h
      rw [isNamed, hd] at hnamed
      cases host with
      | str s =>
        have hs : s = hostname := beq_iff_eq.mp hnamed
        exact if_pos hs
      | none | bool | int | float | list | tuple | dict => cases hnamed
    · rw [if_neg hnamed] at h
      have hnext := ih hrest h
      rw [isNamed, hd] at hnamed
      cases host with
      | str s =>
        have hs : s ≠ hostname := fun heq => hnamed (beq_iff_eq.mpr heq)
        exact (if_neg hs).trans hnext
      | none | bool | int | float | list | tuple | dict => exact hnext

theorem findLdmsd_listed {ds : List (Val F)} {o : Option (Fields F)}
    (h : findLdmsd (ds.map listed) = .ok o) : o = (firstLdmsd ds).map listedFields := by
  induction ds with
  | nil =>
    cases h
    rfl
  | cons v ds ih =>
    rw [List.map_cons, findLdmsd] at h
    obtain ⟨t, ht, h⟩ := exists_of_bind_ok h
    obtain ⟨d', hd', hget⟩ := Val.subscript_eq_ok_iff.mp ht
    obtain ⟨d, rfl⟩ : ∃ d, v = .dict d := by
      cases v with
      | dict d => exact ⟨d, rfl⟩
      | none | bool | int | float | str | list | tuple => cases hd'
    obtain rfl : listedFields d = d' := Val.dict.inj hd'
    rw [get?_listedFields] at hget
    obtain ⟨t', ht', rfl⟩ := Option.map_eq_some_iff.mp hget
    rw [firstLdmsd_dict, isLdmsd, ht']
    cases t' with
    | str s =>
      by_cases hs : s = "ldmsd"
      · subst hs
        cases h
        rfl
      · dsimp only
        rw [if_neg (show ¬ (s == "ldmsd") = true from fun h => hs (beq_iff_eq.mp h))]
        refine ih ?_
        split at h
        · next heq _ => exact absurd (Val.str.inj heq) hs
        · exact h
    | none | bool | int | float | list | tuple | dict => exact ih h

theorem envDict_get_list (d : Fields F) :
    envDict (Val.get d "env" (.list [])) = envDict (Val.get d "env" (.dict [])) := by
  rw [Val.get, Val.get]
  cases Dict.get? d "env" with
  | none => rfl
  | some v => rfl

/-- **The label is read back** as the spec that it was written from. -/
theorem getSpec_dumps [JsonFloat F] {d : Fields F} (hd : (Val.dict d).Keyed) :
    getSpec (Json.dumps none (.dict d)) = .ok (listedFields d) := by
  rw [getSpec, Json.loads_dumps hd none]
  rfl

/-- **What `ldmsd` is executed with**: the environment of the cluster's spec with that of the
daemon over it, as the label has them. -/
theorem eq_of_startLdmsd [JsonFloat F] {r : Fields F} (hr : (Val.dict r).WF)
    {hosts : List (Val F)} (hhosts : hostnames r = .ok hosts) {hostname : String}
    {node d daemonEnv specEnv : Fields F} (hnode : nodeOf r hostname = some node)
    (hd : ldmsdOf node = some d) (hdaemon : envDict (Val.get d "env" (.dict [])) = .ok daemonEnv)
    (hspec : envDict (Val.get r "env" (.dict [])) = .ok specEnv)
    {configure : Fields F → Except PyError Unit} {specOverride exec : Fields F}
    (hoverride : "env" ∉ Dict.keys specOverride)
    (h : startLdmsd configure specOverride (Json.dumps none (.dict r)) hostname =
      .ok (some exec)) : exec = listedFields (Dict.update specEnv daemonEnv) := by
  rw [startLdmsd, getSpec_dumps hr.keyed, ok_bind] at h
  obtain ⟨spec, hldmsd, hrest⟩ := exists_of_bind_ok h
  obtain ⟨spec', hcopy, hexec⟩ := exists_of_bind_ok hrest
  obtain rfl : spec' = spec := Val.eq_of_deepCopyFields (fun p _ y => Val.eq_of_deepCopy) hcopy
  -- the node and its daemon
  obtain ⟨v, hv, hnode⟩ := Option.bind_eq_some_iff.mp hnode
  obtain ⟨v', items, hv', hitems, hall⟩ := hostnames_eq_ok_iff.mp hhosts
  obtain rfl := Option.some_inj.mp (hv.symm.trans hv')
  rw [hitems] at hnode
  have hdicts : ∀ item ∈ items, ∃ d h, item = .dict d ∧ Dict.get? d "hostname" = some h := by
    intro item hitem
    obtain ⟨i, hi⟩ := List.mem_iff_getElem?.mp hitem
    obtain ⟨h, -, d, hd, hget⟩ := exists_right_of_forall₂ hall hi
    exact ⟨d, h, hd, hget⟩
  have hnodes : Val.getItem (listedFields r) "nodes" = .ok (listed v) := by
    rw [Val.getItem_eq_ok_iff, get?_listedFields, hv]
    rfl
  obtain ⟨ds, hds, hd⟩ := Option.bind_eq_some_iff.mp hd
  have hdaemons : daemonsOf (.dict (listedFields node)) = .ok (ds.map listed) := by
    rw [daemonsOf, get_listedFields node "daemons" rfl]
    refine iterate_listed ?_
    cases hiter : iterate (Val.get node "daemons" (.list [])) with
    | error e => rw [hiter] at hds; cases hds
    | ok ds' => rw [hiter] at hds; rw [Option.some_inj.mp hds]
  rw [ldmsdSpec, hnodes, ok_bind, iterate_listed hitems, ok_bind,
    containerSpec_listed hdicts hnode, ok_bind, hdaemons, ok_bind] at hldmsd
  obtain ⟨o, ho, hldmsd⟩ := exists_of_bind_ok hldmsd
  obtain rfl := findLdmsd_listed ho
  rw [hd, Option.map_some] at hldmsd
  dsimp only at hldmsd
  obtain ⟨dspec, hdspec, hldmsd⟩ := exists_of_bind_ok hldmsd
  obtain rfl : dspec = listedFields d :=
    Val.eq_of_deepCopyFields (fun p _ y => Val.eq_of_deepCopy) hdspec
  -- the two environments
  rw [envDict_get_list, get_listedFields d "env" rfl, envDict_listed hdaemon, ok_bind,
    envDict_get_list, get_listedFields r "env" rfl, envDict_listed hspec, ok_bind] at hldmsd
  have henv : Dict.get? spec' "env" =
      some (.dict (Dict.update (listedFields specEnv) (listedFields daemonEnv))) := by
    rw [← Except.ok.inj hldmsd, Dict.get?_setdefault, if_neg (by decide), Dict.get?_setdefault,
      if_neg (by decide), Dict.get?_setdefault, if_neg (by decide), Dict.get?_setdefault,
      if_neg (by decide), Dict.get?_set, if_pos rfl]
  rw [← Dict.get?_update_of_notMem hoverride] at henv
  dsimp only at hexec
  split at hexec
  · cases hexec
  · obtain ⟨_, -, hexec⟩ := exists_of_bind_ok hexec
    rw [Val.getItem_eq_ok_iff.mpr henv, ok_bind] at hexec
    rw [listedFields_update]
    exact (Option.some_inj.mp (Except.ok.inj hexec)).symm

/-! ## The documented precedence -/

/-- **The value of a variable in `ldmsd`.**  Let `Spec(spec)` be `r`, and let a container of the
cluster run the `ldmsd` that `r` has for its node.  For every name of a variable (a text without
`=`) the process sees the value of the daemon, else that of the node, else that of the cluster,
if and only if `KeepsPrecedence`: the variable is defined by the daemon, or not by the node, or
by the node as by the spec of the cluster, or by the dictionary of the node and not by the spec
of the cluster.  What else is said there is about tuples and about lists. -/
theorem seen_eq_documented_iff [JsonFloat F] (m : Machine F) (spec r : Fields F)
    (hspec : (Val.dict spec).Keyed) (hr : Returns (fun n => Spec.specInit n spec) r)
    (label : String) (params : List (ContParam F))
    (hcreate : Returns (fun n => create n m spec) (label, params))
    (kw : Kwargs F) (hkw : specToKwargs m r = .ok kw)
    (p : ContParam F) (hp : p ∈ params)
    (node d : Fields F) (hnode : nodeOf r p.hostname = some node) (hd : ldmsdOf node = some d)
    (daemonEnv nodeEnv specEnv : Fields F)
    (hdaemon : envDict (Val.get d "env" (.dict [])) = .ok daemonEnv)
    (hnodeEnv : envDict (Val.get node "env" (.dict [])) = .ok nodeEnv)
    (hspecEnv : envDict (Val.get r "env" (.dict [])) = .ok specEnv)
    (configure : Fields F → Except PyError Unit) (specOverride exec : Fields F)
    (hoverride : "env" ∉ Dict.keys specOverride)
    (hstart : startLdmsd configure specOverride label p.hostname = .ok (some exec))
    (name : String) (hname : '=' ∉ name.toList) :
    seen p.environment exec name = documented daemonEnv nodeEnv (clusterEnv m kw) name ↔
      KeepsPrecedence daemonEnv nodeEnv specEnv (clusterEnv m kw)
        (Val.get node "env" (.dict [])) name := by
  have hwf := Spec.wf_of_returns hspec hr
  obtain ⟨kw', hkw', hparams, rfl⟩ := exists_of_returns_create hcreate hr
  obtain rfl := Except.ok.inj (hkw'.symm.trans hkw)
  obtain ⟨-, hhosts, hlabel, -⟩ := specToKwargs_eq hkw
  rw [hlabel] at hstart
  -- what the execution and the container define
  have hexec := eq_of_startLdmsd hwf hhosts hnode hd hdaemon hspecEnv hoverride hstart
  obtain ⟨v, hv, hfind⟩ := Option.bind_eq_some_iff.mp hnode
  obtain ⟨v', nodes, volumes, hv', hnodes, hall⟩ := forall₂_contParams hparams
  obtain rfl := Option.some_inj.mp (hv.symm.trans hv')
  rw [hnodes] at hfind
  have hnodeWF := wf_of_iterate (hwf.of_get? hv) hnodes _ (mem_of_findNode hfind)
  have hdaemonKeys := nodup_keys_envDict (wf_get (wf_of_ldmsdOf hnodeWF hd) "env") hdaemon
  have hspecKeys := nodup_keys_envDict (wf_get hwf "env") hspecEnv
  obtain ⟨i, hi⟩ := List.mem_iff_getElem?.mp hp
  obtain ⟨n, -, host, -, rfl⟩ := exists_left_of_forall₂ hall hi
  have hcont : Dict.get? (contParam m nodes kw' (clusterEnv m kw') volumes host).environment name =
      match Val.get node "env" (.dict []) with
      | .list es => if name ++ "=" ∈ twoCharHead es then some (.str "=")
          else Dict.get? (clusterEnv m kw') name
      | _ => (Dict.get? nodeEnv name).or (Dict.get? (clusterEnv m kw') name) := by
    rw [(name_contParam m nodes kw' (clusterEnv m kw') volumes host).1] at hfind
    rw [environment_contParam m kw' (clusterEnv m kw') volumes hfind]
    exact get?_updateEnv (nodup_keys_clusterEnv hkw) hnodeWF hnodeEnv hname
  have hclust (c : Val F) (hc : Dict.get? specEnv name = some c) :=
    get?_clusterEnv hkw hspecEnv hspecKeys hc
  rw [seen, documented, hexec, get?_listedFields, Dict.get?_update hdaemonKeys, hcont]
  unfold KeepsPrecedence
  cases hdv : Dict.get? daemonEnv name with
  | some v => simp
  | none =>
    cases hcv : Dict.get? specEnv name with
    | some c =>
      rw [hclust c hcv]
      cases hnv : Dict.get? nodeEnv name with
      | none => simp
      | some n => simp
    | none =>
      simp only [Option.map_none, Option.none_or]
      cases hv : Val.get node "env" (.dict []) with
      | none | bool | int | float | str | tuple => rw [hv] at hnodeEnv; cases hnodeEnv
      | dict nd =>
        cases hnv : Dict.get? nodeEnv name with
        | none => exact iff_of_true rfl trivial
        | some n => exact iff_of_true rfl (Or.inl ⟨nd, rfl⟩)
      | list es =>
        rw [hv] at hnodeEnv
        cases hnv : Dict.get? nodeEnv name with
        | none =>
          have hhead : ¬ name ++ "=" ∈ twoCharHead es := fun h =>
            Dict.get?_eq_none_iff.mp hnv (mem_keys_of_mem_twoCharHead hnodeEnv hname h)
          refine iff_of_true ?_ trivial
          dsimp only
          rw [if_neg hhead, Option.none_or]
        | some n =>
          have hleft : leftover (clusterEnv m kw') es name =
              (if name ++ "=" ∈ twoCharHead es then some (.str "=")
                else Dict.get? (clusterEnv m kw') name).map Val.toStr := by
            unfold leftover
            split <;> rfl
          rw [Option.some_or, Option.map_some, ← hleft]
          exact ⟨fun h => Or.inr ⟨es, rfl, h⟩, fun h => by
            rcases h with ⟨nd, h⟩ | ⟨es', h, hes⟩
            · cases h
            · obtain rfl := Val.list.inj h
              exact hes⟩

/-! ## A variable of the cluster and of a node -/

/-- A machine without a prefix. -/
def plainMachine : Machine Json.SampleFloat where
  pythonPath _ := ""
  hostTz := "UTC"
  atstart := .none

/-- An `ldmsd` without an environment of its own. -/
def plainLdmsd : Fields Json.SampleFloat :=
  [("type", .str "ldmsd")]

/-- A node that defines two variables. -/
def twoVariables : Fields Json.SampleFloat :=
  [("hostname", .str "node-1"), ("env", .dict [("A", .str "node"), ("B", .str "node")]),
    ("daemons", .list [.dict plainLdmsd])]

/-- A cluster that defines one of the variables of its node. -/
def sharedVariable : Fields Json.SampleFloat :=
  [("name", .str "c"), ("env", .dict [("A", .str "cluster")]),
    ("nodes", .list [.dict twoVariables])]

/-- The arguments of the creation of `sharedVariable`. -/
def sharedKwargs : Kwargs Json.SampleFloat where
  name := .str "c"
  image := .str "ovis-centos-build"
  mounts := []
  nodes := [.str "node-1"]
  env := Dict.update (ovisEnv
    "/opt/ovis/lib/python3.6/site-packages:/opt/ovis/lib64/python3.6/site-packages")
    [("A", .str "cluster")]
  specLabel := Json.dumps none (.dict sharedVariable)
  capAdd := .list []
  capDrop := .list []

/-- The environment that the execution in `sharedVariable` gets. -/
def sharedExec : Fields Json.SampleFloat :=
  [("A", .str "cluster")]

/-- The container of the node of `sharedVariable`. -/
def sharedParam : ContParam Json.SampleFloat :=
  contParam plainMachine [.dict twoVariables] sharedKwargs (clusterEnv plainMachine sharedKwargs) []
    "node-1"

theorem returns_specInit_sharedVariable :
    Returns (fun n => Spec.specInit n sharedVariable) sharedVariable :=
  (Spec.exists_has_specInit sharedVariable).choose_spec.returns_of_run (m := 1) rfl

theorem returns_create_sharedVariable : Returns (fun n => create n plainMachine sharedVariable)
    (sharedKwargs.specLabel, [sharedParam]) :=
  returns_create returns_specInit_sharedVariable rfl rfl

theorem startLdmsd_sharedVariable :
    startLdmsd (fun _ => .ok ()) [] sharedKwargs.specLabel "node-1" = .ok (some sharedExec) := by
  have hwf : (Val.dict sharedVariable).WF := by decide
  have hlabel : getSpec sharedKwargs.specLabel = .ok (listedFields sharedVariable) :=
    getSpec_dumps hwf.keyed
  rw [startLdmsd, hlabel]
  rfl

/-- A variable of the node alone has the value of the node. -/
theorem seen_node_variable : seen sharedParam.environment sharedExec "B" =
    documented [] [("A", .str "node"), ("B", .str "node")]
      (clusterEnv plainMachine sharedKwargs) "B" := by
  have hiff := seen_eq_documented_iff plainMachine sharedVariable sharedVariable
    (Val.WF.keyed (by decide)) returns_specInit_sharedVariable _ _ returns_create_sharedVariable
    sharedKwargs rfl sharedParam List.mem_cons_self twoVariables plainLdmsd rfl rfl
    [] [("A", .str "node"), ("B", .str "node")] [("A", .str "cluster")] rfl rfl rfl
    (fun _ => .ok ()) [] _ List.not_mem_nil startLdmsd_sharedVariable "B" (by decide)
  exact hiff.mpr (Or.inl ⟨_, rfl⟩)

/-- **The cluster hides the node**: a variable of both has the value of the cluster in `ldmsd`,
and the documented value is the one of the node. -/
theorem seen_ne_documented :
    Returns (fun n => create n plainMachine sharedVariable)
      (sharedKwargs.specLabel, [sharedParam]) ∧
    startLdmsd (fun _ => .ok ()) [] sharedKwargs.specLabel sharedParam.hostname =
      .ok (some sharedExec) ∧
    nodeOf sharedVariable sharedParam.hostname = some twoVariables ∧
    ldmsdOf twoVariables = some plainLdmsd ∧
    seen sharedParam.environment sharedExec "A" = some "cluster" ∧
    documented [] [("A", .str "node"), ("B", .str "node")]
      (clusterEnv plainMachine sharedKwargs) "A" = some "node" :=
  ⟨returns_create_sharedVariable, startLdmsd_sharedVariable, rfl, rfl, rfl, rfl⟩

end Docker
end LdmsTest
