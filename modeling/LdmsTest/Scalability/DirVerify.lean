import LdmsTest.Foundation.Relays
import LdmsTest.Scalability.GetConfig
import LdmsTest.Tada.Verdicts

/-!
# The checks of the scalability test

The test stops daemons of one level, checks what all other aggregators show, starts the daemons again
and checks once more.  An aggregator above the stopped daemons is to show all its sets but those that
the stopped ones are expected to have, and any other one is to show all its sets.

* `script`: the commands and checks of the test, in order.
* `Steady`: what the daemons show is what they are configured to: their own sets, and what is shown by
  those of their producers that run.
* `AsStopped`: the aggregators that are asked run, and so do the samplers that they get sets from, and
  the daemons that have been stopped pass nothing on.
* `Verifies`: a check, as `dir_verify` makes it.
* `checks_iff`: each check passes exactly when this is so.
* `script_none_iff`: all nine checks are made when there is a second aggregator to stop.
-/

namespace LdmsTest
namespace Scalability

open Shares (share)

/-! ## The script -/

/-- `allDaemons()` of the class of a level -/
def allDaemons (c : Config) (level : ℕ) : List Ldmsd :=
  (dl c level).map (Ldmsd.mk level)

/-- `aggs` -/
def aggs (c : Config) : List Ldmsd :=
  allDaemons c 1 ++ allDaemons c 2 ++ allDaemons c 3

/-- `ctrl.stop(names)`, `ctrl.start(names)` and
`dir_verify(ldmsd_list, assert_no, rm_sets, rm_level)` -/
inductive Cmd where
  | stop (names : List String)
  | start (names : List String)
  | verify (assertNo : ℕ) (ldmsds : List Ldmsd) (rmSets : List String) (rmLevel : ℕ)

/-- `daemons[i]` -/
def daemonAt (daemons : List Ldmsd) (i : ℕ) : Except PyError Ldmsd :=
  match daemons[i]? with
  | some d => pure d
  | none => throw ⟨.indexError, "list index out of range"⟩

/-- The samplers of the second half of the first L1 aggregator are stopped and started. -/
def killSamplers (c : Config) : Except PyError (List Cmd) := do
  let l10 ← daemonAt (allDaemons c 1) 0
  let prdcrs ← getPrdcr c 1 l10.name
  let prdcrs := prdcrs.drop (prdcrs.length / 2)
  let dirs ← prdcrs.mapM fun name => do
    let d ← item (ldmsdByName c) name
    getExpectedDir c d.level d.name
  pure [.stop prdcrs, .verify 2 (aggs c) dirs.flatten 0, .start prdcrs, .verify 3 (aggs c) [] 0]

/-- An aggregator is stopped and started. -/
def killAgg (c : Config) (d : Ldmsd) (assertNo : ℕ) (rmSets : List String) : List Cmd :=
  [.stop [d.name], .verify assertNo ((aggs c).filter fun a => a.name ≠ d.name) rmSets d.level,
    .start [d.name], .verify (assertNo + 1) (aggs c) [] 0]

/-- The second aggregator of a level is stopped and started. -/
def killSecond (c : Config) (level assertNo : ℕ) : Except PyError (List Cmd) := do
  let d ← daemonAt (allDaemons c level) 1
  let rmSets ← getExpectedDir c d.level d.name
  pure (killAgg c d assertNo rmSets)

/-- The aggregator at the top is stopped and started. -/
def killTop (c : Config) : Except PyError (List Cmd) := do
  let l3 ← item (ldmsdByName c) (daemonName c.l3Host c.l3BasePort)
  pure (killAgg c l3 8 [])

/-- The parts of the script, up to one that raises. -/
def perform : List (Except PyError (List Cmd)) → List Cmd × Option PyError
  | [] => ([], none)
  | .error e :: _ => ([], some e)
  | .ok cmds :: parts =>
    let rest := perform parts
    (cmds ++ rest.1, rest.2)

/-- The commands and checks of `test.py`, after all daemons have been started, and what is raised. -/
def script (c : Config) : List Cmd × Option PyError :=
  perform [pure [.verify 1 (aggs c) [] 0], killSamplers c, killSecond c 1 4, killSecond c 2 6,
    killTop c]

/-- The daemons that have been stopped. -/
def after (stopped : List String) : Cmd → List String
  | .stop names => stopped ++ names
  | .start names => stopped.filter fun n => n ∉ names
  | .verify _ _ _ _ => stopped

/-! ## The checks -/

/-- What `dir_verify` looks at of a daemon. -/
def observe (c : Config) (dir : Ldmsd → Except PyError (List String)) (d : Ldmsd) :
    Except PyError Tada.Daemon := do
  let shown ← dir d
  let expected ← getExpectedDir c d.level d.name
  pure ⟨d.name, d.level, shown, expected⟩

/-- **A check** of the test `t`: all daemons are looked at, and `dir_verify` leaves the assertion as
`passed`.  The first difference raises, as with `DEBUG`. -/
def Verifies {F : Type} [Json.JsonFloat F] [DecidableEq F] (t : Tada.Test F) (c : Config)
    (dir : Ldmsd → Except PyError (List String)) (assertNo : ℕ) (ldmsds : List Ldmsd)
    (rmSets : List String) (rmLevel : ℕ) : Prop :=
  ∃ ds, ldmsds.mapM (observe c dir) = .ok ds ∧
    ((Tada.dirVerify true ds (.int assertNo) rmSets rmLevel).exec t).2.statusOf (.int assertNo) =
      some (.str Tada.passed)

/-- **A steady state.**  A daemon that runs shows the sets that its text adds, and those that are
shown by the daemons that run and listen at the addresses of its producers. -/
structure Steady (c : Config) (o : Options) (up : String → Prop)
    (dir : Ldmsd → Except PyError (List String)) : Prop where
  down : ∀ d ∈ ldmsdList c, ¬ up d.name → ∃ e, dir d = .error e
  shows : ∀ d ∈ ldmsdList c, up d.name → ∀ text, getConfig c o d = .ok text →
    ∃ l, dir d = .ok l ∧ ∀ s, s ∈ l ↔ s ∈ instances text ∨ ∃ p ∈ ldmsdList c, up p.name ∧
      (∃ text', getConfig c o p = .ok text' ∧ ∃ a ∈ listens text', a ∈ producers text) ∧
      ∃ l', dir p = .ok l' ∧ s ∈ l'

/-- No two daemons have one name. -/
def Distinct (c : Config) : Prop :=
  ((ldmsdList c).map Ldmsd.name).Nodup

/-- **The daemons are as they have been stopped**, as far as the aggregators that have not been
stopped can tell. -/
structure AsStopped (c : Config) (dir : Ldmsd → Except PyError (List String))
    (stopped : List String) (up : String → Prop) : Prop where
  aggs : ∀ d ∈ aggs c, d.name ∉ stopped → up d.name
  samplers : ∀ a ∈ allDaemons c 1, a.name ∉ stopped → ∀ ps, getPrdcr c 1 a.name = .ok ps →
    ∀ s ∈ ps, s ∉ stopped → up s
  silent : ∀ d ∈ Scalability.aggs c, d.name ∉ stopped → ∀ ps, getPrdcr c d.level d.name = .ok ps →
    ∀ p ∈ ldmsdList c, p.name ∈ ps → p.name ∈ stopped → up p.name → dir p = .ok []

/-! ## The daemons as relays -/

section Names

variable {c : Config}

theorem Distinct.eq (h : Distinct c) {d d' : Ldmsd} (hd : d ∈ ldmsdList c) (hd' : d' ∈ ldmsdList c)
    (hname : d.name = d'.name) : d = d' :=
  List.inj_on_of_nodup_map h hd hd' hname

theorem Distinct.level_eq (h : Distinct c) {j k : ℕ} {name : String} (hj : j < 4) (hk : k < 4)
    (hnj : name ∈ dl c j) (hnk : name ∈ dl c k) : j = k := by
  have hdj : (⟨j, name⟩ : Ldmsd) ∈ ldmsdList c := mem_ldmsdList_iff.mpr ⟨hj, hnj⟩
  have hdk : (⟨k, name⟩ : Ldmsd) ∈ ldmsdList c := mem_ldmsdList_iff.mpr ⟨hk, hnk⟩
  exact congrArg Ldmsd.level (h.eq hdj hdk rfl)

theorem map_name_ldmsdList : (ldmsdList c).map Ldmsd.name = (List.range 4).flatMap (dl c) := by
  rw [ldmsdList, List.map_flatMap]
  refine List.flatMap_congr fun k _ => ?_
  rw [List.map_map]
  exact List.map_id _

theorem Distinct.nodup (h : Distinct c) {level : ℕ} (hlevel : level < 4) : (dl c level).Nodup := by
  rw [Distinct, map_name_ldmsdList, List.nodup_flatMap] at h
  exact h.1 level (List.mem_range.mpr hlevel)

/-- **No two daemons have one name** when no host is listed twice at a level and the ranges of the
ports do not overlap. -/
theorem distinct_of_ports (hsamp : c.samp.hosts.Nodup) (hl1 : c.l1.hosts.Nodup)
    (hl2 : c.l2.hosts.Nodup) (hbase : c.samp.basePort + c.samp.perHost ≤ c.l1.basePort)
    (hbase' : c.l1.basePort + c.l1.perHost ≤ c.l2.basePort)
    (hbase'' : c.l2.basePort + c.l2.perHost ≤ c.l3BasePort) : Distinct c := by
  have hports : ∀ L : Level, ∀ name ∈ L.names, ∃ host port, name = daemonName host port ∧
      L.basePort ≤ port ∧ port < L.basePort + L.perHost := by
    intro L name hname
    obtain ⟨host, -, hname⟩ := List.mem_flatMap.mp hname
    obtain ⟨i, hi, rfl⟩ := List.mem_map.mp hname
    exact ⟨host, _, rfl, Nat.le_add_right _ _, Nat.add_lt_add_left (List.mem_range.mp hi) _⟩
  have hdisj : ∀ {l l' : List String} {m : ℕ},
      (∀ name ∈ l, ∃ host port, name = daemonName host port ∧ port < m) →
      (∀ name ∈ l', ∃ host port, name = daemonName host port ∧ m ≤ port) → l.Disjoint l' := by
    intro l l' m h h' name hname hname'
    obtain ⟨host, port, rfl, hlt⟩ := h name hname
    obtain ⟨host', port', heq, hle⟩ := h' _ hname'
    have hport := (daemonName_inj heq).2
    omega
  have hbelow : ∀ (L : Level) m, L.basePort + L.perHost ≤ m → ∀ name ∈ L.names, ∃ host port,
      name = daemonName host port ∧ port < m := by
    intro L m hm name hname
    obtain ⟨host, port, heq, -, hlt⟩ := hports L name hname
    exact ⟨host, port, heq, hlt.trans_le hm⟩
  have habove : ∀ (L : Level) m, m ≤ L.basePort → ∀ name ∈ L.names, ∃ host port,
      name = daemonName host port ∧ m ≤ port := by
    intro L m hm name hname
    obtain ⟨host, port, heq, hle, -⟩ := hports L name hname
    exact ⟨host, port, heq, hm.trans hle⟩
  have htop : ∀ m ≤ c.l3BasePort, ∀ name ∈ [daemonName c.l3Host c.l3BasePort], ∃ host port,
      name = daemonName host port ∧ m ≤ port := by
    intro m hm name hname
    exact ⟨_, _, List.mem_singleton.mp hname, hm⟩
  rw [Distinct, map_name_ldmsdList]
  show (c.samp.names ++ (c.l1.names ++ (c.l2.names ++
    ([daemonName c.l3Host c.l3BasePort] ++ [])))).Nodup
  rw [List.append_nil]
  refine ((Level.nodup_names_iff (ndl_pos c 0)).mpr hsamp).append
    (((Level.nodup_names_iff (ndl_pos c 1)).mpr hl1).append
      (((Level.nodup_names_iff (ndl_pos c 2)).mpr hl2).append (List.nodup_singleton _) ?_) ?_) ?_
  · exact hdisj (hbelow _ _ hbase'') (htop _ le_rfl)
  · rw [List.disjoint_append_right]
    exact ⟨hdisj (hbelow _ _ hbase') (habove _ _ le_rfl), hdisj (hbelow _ _ hbase') (htop _ (by omega))⟩
  · rw [List.disjoint_append_right, List.disjoint_append_right]
    exact ⟨hdisj (hbelow _ _ hbase) (habove _ _ le_rfl),
      hdisj (hbelow _ _ hbase) (habove _ _ (by omega)), hdisj (hbelow _ _ hbase) (htop _ (by omega))⟩

/-- No two aggregators have one index. -/
theorem eq_of_idx {below : ℕ} {name name' : String} {i : ℕ} (hname : name ∈ dl c below)
    (hname' : name' ∈ dl c below) (hi : idx c below name = .ok i) (hi' : idx c below name' = .ok i) :
    name = name' := by
  by_cases hlevel : below < 3
  · rw [idx, if_pos hlevel] at hi hi'
    exact Option.some_inj.mp ((getElem?_of_item hi).symm.trans (getElem?_of_item hi'))
  · obtain ⟨k, rfl⟩ := Nat.exists_eq_add_of_le' (Nat.not_lt.mp hlevel)
    exact (List.mem_singleton.mp hname).trans (List.mem_singleton.mp hname').symm

/-- No daemon is in two shares. -/
theorem share_inj {l : List String} (h : l.Nodup) {q i i' : ℕ} {x : String} (hx : x ∈ share l q i)
    (hx' : x ∈ share l q i') : i = i' := by
  have hget : ∀ {i}, x ∈ share l q i → ∃ j < q, l[i * q + j]? = some x := by
    intro i hx
    obtain ⟨j, hj⟩ := List.getElem?_of_mem hx
    have hlt : j < q := by
      have hlen := (List.getElem?_eq_some_iff.mp hj).1
      rw [share, List.length_take] at hlen
      omega
    exact ⟨j, hlt, by rw [← Shares.getElem?_share hlt, hj]⟩
  obtain ⟨j, hj, hgetj⟩ := hget hx
  obtain ⟨j', hj', hgetj'⟩ := hget hx'
  have heq : i * q + j = i' * q + j' :=
    (List.getElem?_inj (List.getElem?_eq_some_iff.mp hgetj).1 h).mp (hgetj.trans hgetj'.symm)
  have hdiv : ∀ i j, j < q → (i * q + j) / q = i := by
    intro i j hlt
    rw [Nat.mul_comm, Nat.mul_add_div (Nat.zero_lt_of_lt hlt), Nat.div_eq_of_lt hlt, Nat.add_zero]
  rw [← hdiv i j hj, heq, hdiv i' j' hj']

/-- The daemons of the test, with their producers and the sets of the samplers. -/
def relays (c : Config) (hnames : Distinct c) (hsets : 0 < c.setsPerSamp) : Relays String String where
  nodes level := {name | level < 4 ∧ name ∈ dl c level}
  kids below name := {p | ∃ ps, getPrdcr c (below + 1) name = .ok ps ∧ p ∈ ps}
  own name := {s | s ∈ sets c name}
  kids_subset := fun {below name} hname p ⟨ps, hps, hp⟩ =>
    ⟨Nat.lt_of_succ_lt hname.1, (length_of_getPrdcr hps).2 hp⟩
  eq_of_mem_kids := by
    rintro below name name' p ⟨hlevel, hname⟩ ⟨-, hname'⟩ ⟨ps, hps, hp⟩ ⟨ps', hps', hp'⟩
    obtain ⟨i, hi⟩ := exists_idx hname
    obtain ⟨i', hi'⟩ := exists_idx hname'
    rw [getPrdcr_eq hi] at hps
    rw [getPrdcr_eq hi'] at hps'
    cases hps
    cases hps'
    obtain rfl := share_inj (hnames.nodup (Nat.lt_of_succ_lt hlevel)) hp hp'
    exact eq_of_idx hname hname' hi hi'
  own_nonempty := fun {name} _ => ⟨_, List.mem_map_of_mem (List.mem_range.mpr hsets)⟩
  eq_of_mem_own := by
    rintro name name' s - - hs hs'
    obtain ⟨i, -, rfl⟩ := List.mem_map.mp hs
    obtain ⟨j, -, hj⟩ := List.mem_map.mp hs'
    exact (setName_inj hj).1.symm

end Names

/-! ## What the daemons show -/

section Shown

variable {c : Config} {o : Options} (hnames : Distinct c) (hsets : 0 < c.setsPerSamp)

/-- **What a daemon expects** are its items. -/
theorem mem_all_iff : ∀ {level : ℕ} {name : String} {dir : List String},
    getExpectedDir c level name = .ok dir →
      ∀ s, s ∈ dir ↔ s ∈ (relays c hnames hsets).all level name
  | 0, name, dir, h, s => by
    rw [getExpectedDir] at h
    obtain ⟨i, -, h⟩ := exists_of_bind_ok h
    cases h
    exact Iff.rfl
  | below + 1, name, dir, h, s => by
    rw [getExpectedDir] at h
    obtain ⟨ps, hps, h⟩ := exists_of_bind_ok h
    obtain ⟨dirs, hdirs, h⟩ := exists_of_bind_ok h
    cases h
    have hforall := mapM_eq_ok_iff.mp hdirs
    rw [List.mem_flatten]
    constructor
    · rintro ⟨l, hl, hs⟩
      obtain ⟨k, hk⟩ := List.getElem?_of_mem hl
      obtain ⟨p, hp, hpl⟩ := exists_left_of_forall₂ hforall hk
      exact ⟨p, ⟨ps, hps, List.mem_of_getElem? hp⟩, (mem_all_iff hpl s).mp hs⟩
    · rintro ⟨p, ⟨ps', hps', hp⟩, hs⟩
      obtain rfl := Except.ok.inj (hps.symm.trans hps')
      obtain ⟨l, hl, hpl⟩ := exists_mem_of_mapM_ok hdirs hp
      exact ⟨l, hl, (mem_all_iff hpl s).mpr hs⟩

/-- **What the text of a daemon says**, by its level. -/
theorem exists_text (h : PlainWords c o) {d : Ldmsd} (hd : d ∈ ldmsdList c) :
    ∃ text ps, getConfig c o d = .ok text ∧ getPrdcr c d.level d.name = .ok ps ∧
      listens text = [addressOf d.name] ∧ producers text = ps.map addressOf ∧
      instances text = if d.level = 0 then sets c d.name else [] := by
  obtain ⟨level, name⟩ := d
  obtain ⟨hlevel, hname⟩ := mem_ldmsdList_iff.mp hd
  obtain ⟨i, hi⟩ := exists_idx hname
  match level with
  | 0 =>
    obtain ⟨hlistens, hproducers, hinstances, -⟩ :=
      samplerCfg_spec (c := c) (h.plainName hname) h.xprt (i + 1)
    exact ⟨_, [], getConfig_sampler hi, rfl, hlistens, hproducers, hinstances⟩
  | below + 1 =>
    have hsub : share (dl c below) (nDist c below) i ⊆ dl c below := fun x hx =>
      List.mem_of_mem_drop (List.mem_of_mem_take hx)
    obtain ⟨store, stored, hstored, hstore, hconfig⟩ :=
      exists_aggCfg h (Nat.lt_of_succ_lt_succ hlevel) hi
    obtain ⟨hlistens, hproducers, hadds⟩ := aggCfg_spec (d := ⟨below + 1, name⟩) (h.plainName hname)
      (fun p hp => h.plainName (hsub hp)) h.xprt hstored hstore
    refine ⟨_, _, hconfig, getPrdcr_eq hi, hlistens, hproducers, ?_⟩
    rw [instances, hadds]
    rfl

variable {up : String → Prop} {dir : Ldmsd → Except PyError (List String)}

/-- **What a daemon shows** in a steady state, by its producers. -/
theorem Steady.mem_dir_iff (hsteady : Steady c o up dir) (hwords : PlainWords c o)
    (hnames : Distinct c) {d : Ldmsd} (hd : d ∈ ldmsdList c) (hup : up d.name) :
    ∃ l ps, dir d = .ok l ∧ getPrdcr c d.level d.name = .ok ps ∧ ∀ s, s ∈ l ↔
      s ∈ (if d.level = 0 then sets c d.name else []) ∨
        ∃ p ∈ ps, up p ∧ ∃ l', dir ⟨d.level - 1, p⟩ = .ok l' ∧ s ∈ l' := by
  obtain ⟨text, ps, hconfig, hps, -, hproducers, hinstances⟩ := exists_text hwords hd
  obtain ⟨l, hl, hmem⟩ := hsteady.shows d hd hup text hconfig
  refine ⟨l, ps, hl, hps, fun s => ?_⟩
  rw [hmem, hinstances]
  refine or_congr_right ⟨?_, ?_⟩
  · rintro ⟨p, hp, hpup, ⟨text', hconfig', a, ha, haps⟩, l', hl', hs⟩
    obtain ⟨text'', -, hconfig'', -, hlistens, -⟩ := exists_text hwords hp
    obtain rfl := Except.ok.inj (hconfig'.symm.trans hconfig'')
    rw [hlistens, List.mem_singleton] at ha
    rw [hproducers] at haps
    obtain ⟨q, hq, hqa⟩ := List.mem_map.mp haps
    obtain ⟨level, name⟩ := d
    match level with
    | 0 =>
      cases hps
      cases hq
    | below + 1 =>
      have hqdl := (length_of_getPrdcr hps).2 hq
      have hplevel := mem_ldmsdList_iff.mp hp
      have hname : q = p.name := eq_of_addressOf hqdl hplevel.2 (hqa.trans ha)
      have hbelow : below < 4 := Nat.lt_of_succ_lt (mem_ldmsdList_iff.mp hd).1
      have hlevel := hnames.level_eq hbelow hplevel.1 (hname ▸ hqdl) hplevel.2
      refine ⟨p.name, hname ▸ hq, hpup, l', ?_, hs⟩
      show dir ⟨below, p.name⟩ = .ok l'
      rw [hlevel]
      exact hl'
  · rintro ⟨p, hp, hpup, l', hl', hs⟩
    obtain ⟨level, name⟩ := d
    match level with
    | 0 =>
      cases hps
      cases hp
    | below + 1 =>
      have hpd : (⟨below, p⟩ : Ldmsd) ∈ ldmsdList c := mem_ldmsdList_iff.mpr
        ⟨Nat.lt_of_succ_lt (mem_ldmsdList_iff.mp hd).1, (length_of_getPrdcr hps).2 hp⟩
      obtain ⟨text', -, hconfig', -, hlistens, -⟩ := exists_text hwords hpd
      refine ⟨⟨below, p⟩, hpd, hpup, ⟨text', hconfig', addressOf p, ?_, ?_⟩, l', hl', hs⟩
      · rw [hlistens]
        exact List.mem_singleton_self _
      · rw [hproducers]
        exact List.mem_map_of_mem hp

/-- **What a daemon shows** are the items that it collects. -/
theorem Steady.mem_shown_iff (hsteady : Steady c o up dir) (hwords : PlainWords c o) :
    ∀ {level : ℕ} {name : String}, level < 4 → name ∈ dl c level → up name → ∃ l,
      dir ⟨level, name⟩ = .ok l ∧
        ∀ s, s ∈ l ↔ s ∈ (relays c hnames hsets).shown (fun _ n => up n) level name
  | 0, name, hlevel, hname, hup => by
    obtain ⟨l, ps, hl, hps, hmem⟩ := hsteady.mem_dir_iff hwords hnames (d := ⟨0, name⟩)
      (mem_ldmsdList_iff.mpr ⟨hlevel, hname⟩) hup
    cases hps
    refine ⟨l, hl, fun s => (hmem s).trans ?_⟩
    show (s ∈ sets c name ∨ _) ↔ s ∈ sets c name
    exact or_iff_left fun ⟨p, hp, _⟩ => List.not_mem_nil hp
  | below + 1, name, hlevel, hname, hup => by
    obtain ⟨l, ps, hl, hps, hmem⟩ := hsteady.mem_dir_iff hwords hnames (d := ⟨below + 1, name⟩)
      (mem_ldmsdList_iff.mpr ⟨hlevel, hname⟩) hup
    refine ⟨l, hl, fun s => (hmem s).trans ?_⟩
    have hkid : ∀ p ∈ ps, up p → ∃ l', dir ⟨below, p⟩ = .ok l' ∧
        ∀ s, s ∈ l' ↔ s ∈ (relays c hnames hsets).shown (fun _ n => up n) below p := fun p hp hpup =>
      hsteady.mem_shown_iff hwords (Nat.lt_of_succ_lt hlevel) ((length_of_getPrdcr hps).2 hp) hpup
    constructor
    · rintro (hs | ⟨p, hp, hpup, l', hl', hs⟩)
      · cases hs
      · obtain ⟨l'', hl'', hmem'⟩ := hkid p hp hpup
        obtain rfl := Except.ok.inj (hl'.symm.trans hl'')
        exact ⟨p, ⟨ps, hps, hp⟩, hpup, (hmem' s).mp hs⟩
    · rintro ⟨p, ⟨ps', hps', hp⟩, hpup, hs⟩
      obtain rfl := Except.ok.inj (hps.symm.trans hps')
      obtain ⟨l', hl', hmem'⟩ := hkid p hp hpup
      exact Or.inr ⟨p, hp, hpup, l', hl', (hmem' s).mpr hs⟩

end Shown

/-! ## One check -/

section Check

variable {c : Config} {o : Options}

/-- **What a check asks**, when these daemons are stopped: all aggregators that are not stopped, with
the sets of the stopped ones for the levels above. -/
structure Asks (c : Config) (stopped : List String) (ldmsds : List Ldmsd) (rmSets : List String)
    (rmLevel : ℕ) : Prop where
  level : rmLevel < 4
  sub : ∀ n ∈ stopped, n ∈ dl c rmLevel
  ldmsds : ∀ d, d ∈ ldmsds ↔ d ∈ aggs c ∧ d.name ∉ stopped
  rmSets : rmLevel < 3 → ∀ s, s ∈ rmSets ↔
    ∃ n ∈ stopped, ∃ dir, getExpectedDir c rmLevel n = .ok dir ∧ s ∈ dir

theorem mem_aggs_iff {d : Ldmsd} :
    d ∈ aggs c ↔ 1 ≤ d.level ∧ d.level ≤ 3 ∧ d.name ∈ dl c d.level := by
  obtain ⟨level, name⟩ := d
  have hall : ∀ k, (⟨level, name⟩ : Ldmsd) ∈ allDaemons c k ↔ level = k ∧ name ∈ dl c k := by
    intro k
    rw [allDaemons, List.mem_map]
    constructor
    · rintro ⟨x, hx, heq⟩
      obtain ⟨rfl, rfl⟩ := Ldmsd.mk.inj heq
      exact ⟨rfl, hx⟩
    · rintro ⟨rfl, hname⟩
      exact ⟨name, hname, rfl⟩
  rw [aggs, List.mem_append, List.mem_append, hall, hall, hall]
  constructor
  · rintro ((⟨rfl, h⟩ | ⟨rfl, h⟩) | ⟨rfl, h⟩)
    · exact ⟨Nat.le_refl 1, Nat.le_add_left 1 2, h⟩
    · exact ⟨Nat.le_add_left 1 1, Nat.le_add_left 2 1, h⟩
    · exact ⟨Nat.le_add_left 1 2, Nat.le_refl 3, h⟩
  · rintro ⟨hle, hle', h⟩
    dsimp only at hle hle' h
    interval_cases level
    · exact Or.inl (Or.inl ⟨rfl, h⟩)
    · exact Or.inl (Or.inr ⟨rfl, h⟩)
    · exact Or.inr ⟨rfl, h⟩

/-- A traversal whose results have a property. -/
theorem exists_mapM_ok_and_iff {α β ε : Type} {f : α → Except ε β} {P : β → Prop} {xs : List α} :
    (∃ ys, xs.mapM f = .ok ys ∧ ∀ y ∈ ys, P y) ↔ ∀ x ∈ xs, ∃ y, f x = .ok y ∧ P y := by
  constructor
  · rintro ⟨ys, hys, hP⟩ x hx
    obtain ⟨y, hy, hxy⟩ := exists_mem_of_mapM_ok hys hx
    exact ⟨y, hxy, hP y hy⟩
  · intro h
    obtain ⟨ys, hys⟩ := exists_mapM_ok_iff.mpr fun x hx => (h x hx).imp fun y hy => hy.1
    refine ⟨ys, hys, fun y hy => ?_⟩
    obtain ⟨k, hk⟩ := List.getElem?_of_mem hy
    obtain ⟨x, hx, hxy⟩ := exists_left_of_forall₂ (mapM_eq_ok_iff.mp hys) hk
    obtain ⟨y', hy', hP⟩ := h x (List.mem_of_getElem? hx)
    rwa [Except.ok.inj (hxy.symm.trans hy')]

/-- A check passes when all directories are as expected. -/
theorem verifies_iff {F : Type} [Json.JsonFloat F] [DecidableEq F] {t : Tada.Test F}
    {dir : Ldmsd → Except PyError (List String)} {assertNo : ℕ} (ht : Tada.Ready t (.int assertNo))
    {ldmsds : List Ldmsd} {rmSets : List String} {rmLevel : ℕ} :
    Verifies t c dir assertNo ldmsds rmSets rmLevel ↔
      ∀ d ∈ ldmsds, ∃ x, observe c dir d = .ok x ∧ x.dir.toFinset = x.expected rmSets rmLevel := by
  have hstatus (ds : List Tada.Daemon) := (Tada.dirVerify_iff ht true ds rmSets rmLevel).mpr (.inl rfl)
  exact (exists_congr fun ds => and_congr_right fun _ => hstatus ds).trans exists_mapM_ok_and_iff

variable {up : String → Prop} {dir : Ldmsd → Except PyError (List String)} (hnames : Distinct c)
  (hsets : 0 < c.setsPerSamp)

/-- What is looked at of one daemon. -/
theorem observe_iff (hsteady : Steady c o up dir) (hwords : PlainWords c o) {stopped : List String}
    {ldmsds : List Ldmsd} {rmSets : List String} {rmLevel : ℕ}
    (hasks : Asks c stopped ldmsds rmSets rmLevel) {d : Ldmsd} (hd : d ∈ ldmsdList c) :
    (∃ x, observe c dir d = .ok x ∧ x.dir.toFinset = x.expected rmSets rmLevel) ↔
      up d.name ∧ (relays c hnames hsets).shown (fun _ n => up n) d.level d.name =
        (relays c hnames hsets).expected rmLevel {n | n ∈ stopped} d.level d.name := by
  obtain ⟨hlevel, hname⟩ := mem_ldmsdList_iff.mp hd
  by_cases hup : up d.name
  · obtain ⟨l, hl, hshown⟩ := hsteady.mem_shown_iff hnames hsets hwords hlevel
      hname hup
    obtain ⟨e, he⟩ := exists_getExpectedDir c d.level d.name hname
    have hobserve : observe c dir d = .ok ⟨d.name, d.level, l, e⟩ := by
      rw [observe, hl, ok_bind, he]
      rfl
    have hhidden : rmLevel < d.level → ∀ s, s ∈ rmSets ↔
        s ∈ (relays c hnames hsets).hidden rmLevel {n | n ∈ stopped} := by
      intro hlt s
      rw [hasks.rmSets (by omega) s]
      constructor
      · rintro ⟨n, hn, dir, hdir, hs⟩
        exact ⟨n, hn, (mem_all_iff hnames hsets hdir s).mp hs⟩
      · rintro ⟨n, hn, hs⟩
        obtain ⟨dir, hdir⟩ := exists_getExpectedDir c rmLevel n (hasks.sub n hn)
        exact ⟨n, hn, dir, hdir, (mem_all_iff hnames hsets hdir s).mpr hs⟩
    have hexpected : ∀ s, s ∈ (⟨d.name, d.level, l, e⟩ : Tada.Daemon).expected rmSets rmLevel ↔
        s ∈ (relays c hnames hsets).expected rmLevel {n | n ∈ stopped} d.level d.name := by
      intro s
      rw [Tada.Daemon.expected]
      show s ∈ (if (d.level : ℤ) > rmLevel then e.toFinset \ rmSets.toFinset else e.toFinset) ↔
        s ∈ (relays c hnames hsets).all d.level d.name ∧ (rmLevel < d.level → _)
      rw [← mem_all_iff hnames hsets he]
      by_cases hlt : rmLevel < d.level
      · rw [if_pos (Int.ofNat_lt.mpr hlt), Finset.mem_sdiff, List.mem_toFinset, List.mem_toFinset,
          hhidden hlt s]
        exact and_congr_right fun _ => ⟨fun h _ => h, fun h => h hlt⟩
      · rw [if_neg fun h => hlt (Int.ofNat_lt.mp h), List.mem_toFinset]
        exact ⟨fun h => ⟨h, fun h' => absurd h' hlt⟩, And.left⟩
    have heq : l.toFinset = (⟨d.name, d.level, l, e⟩ : Tada.Daemon).expected rmSets rmLevel ↔
        (relays c hnames hsets).shown (fun _ n => up n) d.level d.name =
          (relays c hnames hsets).expected rmLevel {n | n ∈ stopped} d.level d.name := by
      rw [Finset.ext_iff, Set.ext_iff]
      refine forall_congr' fun s => ?_
      rw [List.mem_toFinset, hshown s, hexpected s]
    constructor
    · rintro ⟨x, hx, hdir⟩
      obtain rfl := Except.ok.inj (hobserve.symm.trans hx)
      exact ⟨hup, heq.mp hdir⟩
    · exact fun h => ⟨_, hobserve, heq.mpr h.2⟩
  · obtain ⟨e, he⟩ := hsteady.down d hd hup
    refine iff_of_false ?_ fun h => hup h.1
    rintro ⟨x, hx, -⟩
    rw [observe, he] at hx
    cases hx

/-- The daemons that are left out are those that are stopped. -/
theorem Asks.out_iff (hnames : Distinct c) {stopped : List String} {ldmsds : List Ldmsd}
    {rmSets : List String} {rmLevel : ℕ} (hasks : Asks c stopped ldmsds rmSets rmLevel) {level : ℕ}
    {name : String} (hlevel : level < 4) (hname : name ∈ dl c level) :
    Relays.Out rmLevel {n | n ∈ stopped} level name ↔ name ∈ stopped :=
  ⟨And.right, fun h => ⟨hnames.level_eq hlevel hasks.level hname (hasks.sub name h), h⟩⟩

variable {stopped : List String} {ldmsds : List Ldmsd} {rmSets : List String} {rmLevel : ℕ}

/-- **What is seen of the daemons**, when they are as they have been stopped. -/
theorem AsStopped.seen (h : AsStopped c dir stopped up) (hsteady : Steady c o up dir)
    (hwords : PlainWords c o) (hasks : Asks c stopped ldmsds rmSets rmLevel) :
    (relays c hnames hsets).Seen 3 rmLevel {n | n ∈ stopped} (fun _ n => up n) where
  running := fun level hle hle' name ⟨hlevel, hname⟩ hout =>
    h.aggs ⟨level, name⟩ (mem_aggs_iff.mpr ⟨hle, hle', hname⟩) fun hstopped =>
      hout ((hasks.out_iff hnames hlevel hname).mpr hstopped)
  leaves := by
    rintro name ⟨hlevel, hname⟩ hout s ⟨ps, hps, hs⟩ hsout
    have hsdl : s ∈ dl c 0 := (length_of_getPrdcr hps).2 hs
    refine h.samplers ⟨1, name⟩ (List.mem_map_of_mem hname) (fun hstopped => ?_) ps hps s hs
      fun hstopped => hsout ((hasks.out_iff hnames (by decide) hsdl).mpr hstopped)
    exact hout ((hasks.out_iff hnames hlevel hname).mpr hstopped)
  silent := by
    rintro hlt name ⟨hlevel, hname⟩ p ⟨ps, hps, hp⟩ hstopped hup
    have hpdl : p ∈ dl c rmLevel := (length_of_getPrdcr hps).2 hp
    have hrunning : name ∉ stopped := fun hmem => Nat.succ_ne_self rmLevel
      (hnames.level_eq hlevel hasks.level hname (hasks.sub name hmem))
    have hdir := h.silent ⟨rmLevel + 1, name⟩ (mem_aggs_iff.mpr ⟨Nat.succ_pos _, hlt, hname⟩) hrunning
      ps hps ⟨rmLevel, p⟩ (mem_ldmsdList_iff.mpr ⟨hasks.level, hpdl⟩) hp hstopped hup
    obtain ⟨l, hl, hshown⟩ := hsteady.mem_shown_iff hnames hsets hwords
      hasks.level hpdl hup
    obtain rfl := Except.ok.inj (hdir.symm.trans hl)
    exact Set.eq_empty_of_forall_notMem fun s hs => List.not_mem_nil ((hshown s).mpr hs)

/-- **The daemons are as they have been stopped**, when this is what is seen of them. -/
theorem AsStopped.of_seen (hsteady : Steady c o up dir) (hwords : PlainWords c o)
    (hasks : Asks c stopped ldmsds rmSets rmLevel)
    (h : (relays c hnames hsets).Seen 3 rmLevel {n | n ∈ stopped} (fun _ n => up n)) :
    AsStopped c dir stopped up where
  aggs := by
    intro d hd hrunning
    obtain ⟨hle, hle', hname⟩ := mem_aggs_iff.mp hd
    have hlevel := Nat.lt_succ_of_le hle'
    exact h.running d.level hle hle' d.name ⟨hlevel, hname⟩ fun hout =>
      hrunning ((hasks.out_iff hnames hlevel hname).mp hout)
  samplers := by
    rintro a ha hrunning ps hps s hs hsrunning
    obtain ⟨name, hname, rfl⟩ := List.mem_map.mp ha
    have hsdl : s ∈ dl c 0 := (length_of_getPrdcr hps).2 hs
    exact h.leaves name ⟨by decide, hname⟩
      (fun hout => hrunning ((hasks.out_iff hnames (by decide) hname).mp hout)) s ⟨ps, hps, hs⟩
      fun hout => hsrunning ((hasks.out_iff hnames (by decide) hsdl).mp hout)
  silent := by
    rintro ⟨level, name⟩ hd hrunning ps hps p hp hpps hstopped hup
    obtain ⟨hle, hle', hname⟩ := mem_aggs_iff.mp hd
    obtain ⟨hplevel, hpdl⟩ := mem_ldmsdList_iff.mp hp
    match level with
    | below + 1 =>
      have hbelow : below < 3 := hle'
      have hpbelow : p.name ∈ dl c below := (length_of_getPrdcr hps).2 hpps
      -- a producer is of the level below, and it is of the level that has been stopped
      obtain rfl : rmLevel = below := hnames.level_eq hasks.level (Nat.lt_succ_of_lt hbelow)
        (hasks.sub p.name hstopped) hpbelow
      have hlevel : p.level = rmLevel := hnames.level_eq hplevel hasks.level hpdl hpbelow
      have hempty := h.silent hbelow name ⟨Nat.succ_lt_succ hbelow, hname⟩ p.name ⟨ps, hps, hpps⟩
        hstopped hup
      obtain ⟨l, hl, hshown⟩ := hsteady.mem_shown_iff hnames hsets hwords
        hplevel hpdl hup
      rw [hlevel, hempty] at hshown
      have hnil : l = [] := List.eq_nil_iff_forall_not_mem.mpr fun s hs => (hshown s).mp hs
      rw [← hnil]
      exact hl

/-- **One check** succeeds when the daemons are as they have been stopped. -/
theorem Asks.verifies_iff {F : Type} [Json.JsonFloat F] [DecidableEq F] {t : Tada.Test F}
    {assertNo : ℕ} (ht : Tada.Ready t (.int assertNo)) (hnames : Distinct c) (hsets : 0 < c.setsPerSamp)
    (hsteady : Steady c o up dir) (hwords : PlainWords c o)
    (hasks : Asks c stopped ldmsds rmSets rmLevel) :
    Verifies t c dir assertNo ldmsds rmSets rmLevel ↔ AsStopped c dir stopped up := by
  have hsub : {n | n ∈ stopped} ⊆ (relays c hnames hsets).nodes rmLevel := fun n hn =>
    ⟨hasks.level, hasks.sub n hn⟩
  have hseen := @Relays.shown_eq_expected_iff _ _ (relays c hnames hsets) (fun _ n => up n) 3 rmLevel
    {n | n ∈ stopped} hsub (by decide)
  have hmem : ∀ d, d ∈ ldmsds ↔ (1 ≤ d.level ∧ d.level ≤ 3 ∧ d.name ∈ dl c d.level) ∧
      d.name ∉ stopped := fun d => by rw [hasks.ldmsds, mem_aggs_iff]
  rw [Scalability.verifies_iff ht]
  refine Iff.trans ?_ (hseen.trans ⟨fun h => AsStopped.of_seen hnames hsets hsteady hwords hasks h,
    fun h => h.seen hnames hsets hsteady hwords hasks⟩)
  constructor
  · rintro h level hle hle' name ⟨hlevel, hname⟩ hout
    have hd : (⟨level, name⟩ : Ldmsd) ∈ ldmsds := (hmem _).mpr ⟨⟨hle, hle', hname⟩, fun hstopped =>
      hout ((hasks.out_iff hnames hlevel hname).mpr hstopped)⟩
    exact (observe_iff hnames hsets hsteady hwords hasks (mem_ldmsdList_iff.mpr ⟨hlevel, hname⟩)).mp
      (h _ hd)
  · intro h d hd
    obtain ⟨⟨hle, hle', hname⟩, hrunning⟩ := (hmem d).mp hd
    have hlevel := Nat.lt_succ_of_le hle'
    exact (observe_iff hnames hsets hsteady hwords hasks (mem_ldmsdList_iff.mpr ⟨hlevel, hname⟩)).mpr
      (h d.level hle hle' d.name ⟨hlevel, hname⟩ fun hout =>
        hrunning ((hasks.out_iff hnames hlevel hname).mp hout))

end Check

/-! ## All checks -/

section Checks

variable {c : Config} {o : Options}

/-- Each check asks for what it is to ask for, when these daemons are stopped at first. -/
def Sound (c : Config) : List String → List Cmd → Prop
  | _, [] => True
  | stopped, cmd :: cmds =>
    (∀ n ldmsds rmSets rmLevel, cmd = .verify n ldmsds rmSets rmLevel →
      Asks c stopped ldmsds rmSets rmLevel) ∧ Sound c (after stopped cmd) cmds

theorem sound_append_iff {xs ys : List Cmd} : ∀ {stopped : List String},
    Sound c stopped (xs ++ ys) ↔ Sound c stopped xs ∧ Sound c (xs.foldl after stopped) ys := by
  induction xs with
  | nil => exact fun {stopped} => (and_iff_right trivial).symm
  | cons cmd xs ih =>
    intro stopped
    rw [List.cons_append, Sound, Sound, ih, and_assoc]
    rfl

/-- A check of the script, with what has been stopped before it. -/
theorem Sound.asks {stopped : List String} {pre post : List Cmd} {n rmLevel : ℕ}
    {ldmsds : List Ldmsd} {rmSets : List String}
    (h : Sound c stopped (pre ++ .verify n ldmsds rmSets rmLevel :: post)) :
    Asks c (pre.foldl after stopped) ldmsds rmSets rmLevel :=
  (sound_append_iff.mp h).2.1 n ldmsds rmSets rmLevel rfl

theorem asks_none (c : Config) : Asks c [] (aggs c) [] 0 where
  level := by decide
  sub := nofun
  ldmsds := fun d => (and_iff_left List.not_mem_nil).symm
  rmSets := fun _ s => iff_of_false List.not_mem_nil fun ⟨_, hn, _⟩ => List.not_mem_nil hn

/-- Commands that stop some daemons, check, start them and check once more. -/
theorem sound_stop_start {names : List String} {n m rmLevel : ℕ} {ldmsds : List Ldmsd}
    {rmSets : List String} (h : Asks c names ldmsds rmSets rmLevel) :
    let cmds := [.stop names, .verify n ldmsds rmSets rmLevel, .start names, .verify m (aggs c) [] 0]
    Sound c [] cmds ∧ cmds.foldl after [] = [] := by
  have hfilter : names.filter (fun n => n ∉ names) = [] :=
    List.filter_eq_nil_iff.mpr fun n hn => by simpa using hn
  have hstart : after names (.start names) = [] := hfilter
  refine ⟨⟨nofun, ?_, nofun, ?_, trivial⟩, hfilter⟩
  · intro n' l r k heq
    cases heq
    exact h
  · intro n' l r k heq
    cases heq
    show Asks c (after names (.start names)) (aggs c) [] 0
    rw [hstart]
    exact asks_none c

/-- What a daemon is stopped for. -/
theorem asks_agg {d : Ldmsd} (hd : d ∈ aggs c) {rmSets : List String}
    (hrm : d.level < 3 → getExpectedDir c d.level d.name = .ok rmSets) :
    Asks c [d.name] ((aggs c).filter fun a => a.name ≠ d.name) rmSets d.level where
  level := Nat.lt_succ_of_le (mem_aggs_iff.mp hd).2.1
  sub := fun n hn => by
    rw [List.mem_singleton.mp hn]
    exact (mem_aggs_iff.mp hd).2.2
  ldmsds := fun a => by rw [List.mem_filter, decide_eq_true_eq, List.mem_singleton]
  rmSets := fun hlt s => by
    constructor
    · exact fun hs => ⟨d.name, List.mem_singleton_self _, rmSets, hrm hlt, hs⟩
    · rintro ⟨n, hn, dir, hdir, hs⟩
      rw [List.mem_singleton.mp hn] at hdir
      rwa [Except.ok.inj ((hrm hlt).symm.trans hdir)]

/-- The handler of a name at a level. -/
theorem eq_of_item (hnames : Distinct c) {level : ℕ} (hlevel : level < 4) {name : String}
    (hname : name ∈ dl c level) {d : Ldmsd} (h : item (ldmsdByName c) name = .ok d) :
    d = ⟨level, name⟩ :=
  hnames.eq (mem_of_item h).1 (mem_ldmsdList_iff.mpr ⟨hlevel, hname⟩) (mem_of_item h).2

theorem mem_of_daemonAt {level i : ℕ} {d : Ldmsd} (h : daemonAt (allDaemons c level) i = .ok d) :
    d.level = level ∧ d.name ∈ dl c level := by
  rw [daemonAt] at h
  split at h
  · next x hx =>
    cases h
    obtain ⟨name, hname, rfl⟩ := List.mem_map.mp (List.mem_of_getElem? hx)
    exact ⟨rfl, hname⟩
  · cases h

/-- A part of the script asks for what it is to ask for, and starts what it has stopped. -/
def Closed (c : Config) (part : Except PyError (List Cmd)) : Prop :=
  ∀ cmds, part = .ok cmds → Sound c [] cmds ∧ cmds.foldl after [] = []

theorem closed_killSamplers (hnames : Distinct c) : Closed c (killSamplers c) := by
  intro cmds h
  rw [killSamplers] at h
  obtain ⟨l10, hl10, h⟩ := exists_of_bind_ok h
  obtain ⟨ps, hps, h⟩ := exists_of_bind_ok h
  obtain ⟨dirs, hdirs, h⟩ := exists_of_bind_ok h
  cases h
  have hsub : ∀ n ∈ ps.drop (ps.length / 2), n ∈ dl c 0 := fun n hn =>
    (length_of_getPrdcr hps).2 (List.mem_of_mem_drop hn)
  have hexpected : ∀ n ∈ ps.drop (ps.length / 2), ∀ dir,
      (item (ldmsdByName c) n >>= fun d => getExpectedDir c d.level d.name) = .ok dir →
        getExpectedDir c 0 n = .ok dir := by
    intro n hn dir h
    obtain ⟨d, hd, h⟩ := exists_of_bind_ok h
    rwa [eq_of_item hnames (by decide) (hsub n hn) hd] at h
  refine sound_stop_start ⟨by decide, hsub, fun d => ?_, fun _ s => ?_⟩
  · refine (and_iff_left_of_imp fun hd hmem => ?_).symm
    obtain ⟨hle, hle', hname⟩ := mem_aggs_iff.mp hd
    have hzero := hnames.level_eq (Nat.lt_succ_of_le hle') (by decide) hname (hsub _ hmem)
    omega
  · rw [List.mem_flatten]
    constructor
    · rintro ⟨dir, hdir, hs⟩
      obtain ⟨k, hk⟩ := List.getElem?_of_mem hdir
      obtain ⟨n, hn, hndir⟩ := exists_left_of_forall₂ (mapM_eq_ok_iff.mp hdirs) hk
      have hmem := List.mem_of_getElem? hn
      exact ⟨n, hmem, dir, hexpected n hmem dir hndir, hs⟩
    · rintro ⟨n, hn, dir, hdir, hs⟩
      obtain ⟨dir', hdir', hndir⟩ := exists_mem_of_mapM_ok hdirs hn
      obtain rfl := Except.ok.inj (hdir.symm.trans (hexpected n hn dir' hndir))
      exact ⟨dir, hdir', hs⟩

theorem closed_killSecond {level : ℕ} (hle : 1 ≤ level) (hle' : level ≤ 3)
    (assertNo : ℕ) : Closed c (killSecond c level assertNo) := by
  intro cmds h
  rw [killSecond] at h
  obtain ⟨d, hd, h⟩ := exists_of_bind_ok h
  obtain ⟨rmSets, hrm, h⟩ := exists_of_bind_ok h
  cases h
  obtain ⟨rfl, hname⟩ := mem_of_daemonAt hd
  exact sound_stop_start (asks_agg (mem_aggs_iff.mpr ⟨hle, hle', hname⟩) fun _ => hrm)

theorem closed_killTop (hnames : Distinct c) : Closed c (killTop c) := by
  intro cmds h
  rw [killTop] at h
  obtain ⟨d, hd, h⟩ := exists_of_bind_ok h
  cases h
  have htop : daemonName c.l3Host c.l3BasePort ∈ dl c 3 := List.mem_singleton_self _
  obtain rfl := eq_of_item hnames (by decide) htop hd
  exact sound_stop_start (asks_agg (mem_aggs_iff.mpr ⟨Nat.le_add_left 1 2, le_rfl, htop⟩)
    fun hlt => absurd hlt (Nat.lt_irrefl 3))

theorem sound_perform : ∀ {parts : List (Except PyError (List Cmd))}, (∀ p ∈ parts, Closed c p) →
    Sound c [] (perform parts).1
  | [], _ => trivial
  | .error _ :: _, _ => trivial
  | .ok cmds :: parts, h => by
    obtain ⟨hsound, hnil⟩ := h _ List.mem_cons_self cmds rfl
    refine sound_append_iff.mpr ⟨hsound, ?_⟩
    rw [hnil]
    exact sound_perform fun p hp => h p (List.mem_cons_of_mem _ hp)

theorem sound_script (hnames : Distinct c) : Sound c [] (script c).1 := by
  refine sound_perform fun p hp => ?_
  have hfirst : Closed c (pure [.verify 1 (aggs c) [] 0]) := by
    intro cmds h
    cases h
    refine ⟨⟨fun n l r k heq => ?_, trivial⟩, rfl⟩
    cases heq
    exact asks_none c
  rcases List.mem_cons.mp hp with rfl | hp
  · exact hfirst
  rcases List.mem_cons.mp hp with rfl | hp
  · exact closed_killSamplers hnames
  rcases List.mem_cons.mp hp with rfl | hp
  · exact closed_killSecond (by decide) (by decide) 4
  rcases List.mem_cons.mp hp with rfl | hp
  · exact closed_killSecond (by decide) (by decide) 6
  · rw [List.mem_singleton.mp hp]
    exact closed_killTop hnames

variable {up : String → Prop} {dir : Ldmsd → Except PyError (List String)}

/-- The daemons are as they have been stopped, if just those that have been stopped are down. -/
theorem asStopped_of_up {stopped : List String}
    (hup : ∀ d ∈ ldmsdList c, up d.name ↔ d.name ∉ stopped) : AsStopped c dir stopped up where
  aggs := fun d hd hrunning => by
    obtain ⟨-, hle', hname⟩ := mem_aggs_iff.mp hd
    exact (hup d (mem_ldmsdList_iff.mpr ⟨Nat.lt_succ_of_le hle', hname⟩)).mpr hrunning
  samplers := fun a _ _ ps hps s hs hrunning =>
    (hup ⟨0, s⟩ (mem_ldmsdList_iff.mpr ⟨by show 0 < 4; decide, (length_of_getPrdcr hps).2 hs⟩)).mpr
      hrunning
  silent := fun _ _ _ _ _ p hp _ hstopped hpup => absurd hstopped ((hup p hp).mp hpup)

/-- **Each check of the script** passes exactly when the daemons are as they have been stopped by the
commands before it, as far as can be seen.  It does when just the stopped ones are down. -/
theorem checks_iff {F : Type} [Json.JsonFloat F] [DecidableEq F] (hwords : PlainWords c o)
    (hnames : Distinct c) (hsets : 0 < c.setsPerSamp) (hsteady : Steady c o up dir)
    {pre post : List Cmd} {n rmLevel : ℕ} {ldmsds : List Ldmsd} {rmSets : List String}
    (hscript : (script c).1 = pre ++ .verify n ldmsds rmSets rmLevel :: post) {t : Tada.Test F}
    (ht : Tada.Ready t (.int n)) :
    (Verifies t c dir n ldmsds rmSets rmLevel ↔ AsStopped c dir (pre.foldl after []) up) ∧
      ((∀ d ∈ ldmsdList c, up d.name ↔ d.name ∉ pre.foldl after []) →
        Verifies t c dir n ldmsds rmSets rmLevel) := by
  have hsound := sound_script hnames
  rw [hscript] at hsound
  have hiff := hsound.asks.verifies_iff ht hnames hsets hsteady hwords
  exact ⟨hiff, fun hup => hiff.mpr (asStopped_of_up hup)⟩

/-! ### The whole script -/

theorem exists_daemonAt_iff {daemons : List Ldmsd} {i : ℕ} :
    (∃ d, daemonAt daemons i = .ok d) ↔ i < daemons.length := by
  rw [daemonAt]
  split
  · next d hd => exact iff_of_true ⟨d, rfl⟩ (List.getElem?_eq_some_iff.mp hd).1
  · next hnone => exact iff_of_false nofun (Nat.not_lt.mpr (List.getElem?_eq_none_iff.mp hnone))

theorem exists_killSamplers (c : Config) : ∃ cmds, killSamplers c = .ok cmds := by
  have hlen : 0 < (allDaemons c 1).length := by
    rw [allDaemons, List.length_map, length_dl]
    exact ndl_pos c 1
  obtain ⟨l10, hl10⟩ := exists_daemonAt_iff.mpr hlen
  obtain ⟨i, hi⟩ := exists_idx (mem_of_daemonAt hl10).2
  have hps := getPrdcr_eq hi
  have hdirs : ∀ n ∈ (share (dl c 0) (nDist c 0) i).drop
      ((share (dl c 0) (nDist c 0) i).length / 2), ∃ dir,
      (item (ldmsdByName c) n >>= fun d => getExpectedDir c d.level d.name) = .ok dir := by
    intro n hn
    have hknown : Known c n := ⟨⟨0, n⟩, mem_ldmsdList_iff.mpr
      ⟨by show 0 < 4; decide, (length_of_getPrdcr hps).2 (List.mem_of_mem_drop hn)⟩, rfl⟩
    obtain ⟨d, hd⟩ := exists_item_iff.mpr hknown
    obtain ⟨dir, hdir⟩ := exists_getExpectedDir c d.level d.name
      (mem_ldmsdList_iff.mp (mem_of_item hd).1).2
    exact ⟨dir, by rw [hd]; exact hdir⟩
  obtain ⟨dirs, hall⟩ := exists_mapM_ok_iff.mpr hdirs
  exact ⟨_, by rw [killSamplers, hl10, ok_bind, hps, ok_bind]; dsimp only; rw [hall]; rfl⟩

theorem exists_killSecond_iff {level assertNo : ℕ} :
    (∃ cmds, killSecond c level assertNo = .ok cmds) ↔ 2 ≤ (dl c level).length := by
  have hlen : (allDaemons c level).length = (dl c level).length := List.length_map _
  rw [← hlen, Nat.succ_le_iff, ← exists_daemonAt_iff, killSecond]
  constructor
  · rintro ⟨cmds, h⟩
    obtain ⟨d, hd, -⟩ := exists_of_bind_ok h
    exact ⟨d, hd⟩
  · rintro ⟨d, hd⟩
    obtain ⟨hlevel, hname⟩ := mem_of_daemonAt hd
    obtain ⟨rmSets, hrm⟩ := exists_getExpectedDir c d.level d.name (hlevel ▸ hname)
    exact ⟨_, by rw [hd, ok_bind, hrm]; rfl⟩

theorem exists_killTop (c : Config) : ∃ cmds, killTop c = .ok cmds := by
  have hknown : Known c (daemonName c.l3Host c.l3BasePort) := ⟨⟨3, _⟩, mem_ldmsdList_iff.mpr
    ⟨by show 3 < 4; decide, List.mem_singleton_self _⟩, rfl⟩
  obtain ⟨d, hd⟩ := exists_item_iff.mpr hknown
  exact ⟨_, by rw [killTop, hd]; rfl⟩

theorem perform_none_iff : ∀ {parts : List (Except PyError (List Cmd))},
    (perform parts).2 = none ↔ ∀ p ∈ parts, ∃ cmds, p = .ok cmds
  | [] => iff_of_true rfl nofun
  | .error e :: _ => iff_of_false nofun fun h => by
    obtain ⟨cmds, h⟩ := h _ List.mem_cons_self
    cases h
  | .ok cmds :: parts => by
    rw [List.forall_mem_cons, ← perform_none_iff]
    exact (and_iff_right ⟨cmds, rfl⟩).symm

/-- **The script goes through** exactly when there are two aggregators at each level that has a
second one to stop. -/
theorem script_none_iff :
    (script c).2 = none ↔ 2 ≤ c.l1.names.length ∧ 2 ≤ c.l2.names.length := by
  rw [script, perform_none_iff]
  simp only [List.forall_mem_cons, exists_killSecond_iff]
  constructor
  · rintro ⟨-, -, h1, h2, -⟩
    exact ⟨h1, h2⟩
  · rintro ⟨h1, h2⟩
    exact ⟨⟨_, rfl⟩, exists_killSamplers c, h1, h2, exists_killTop c,
      fun _ hp => absurd hp List.not_mem_nil⟩

/-! ### A steady state -/

/-- What a daemon shows when some of the daemons are up. -/
def dirOf (c : Config) (up : String → Bool) : ℕ → String → List String
  | 0, name => sets c name
  | below + 1, name =>
    match getPrdcr c (below + 1) name with
    | .ok ps => (ps.filter up).flatMap (dirOf c up below)
    | .error _ => []

def dirFrom (c : Config) (up : String → Bool) (d : Ldmsd) : Except PyError (List String) :=
  if up d.name then pure (dirOf c up d.level d.name) else throw ⟨.exception, "connection refused"⟩

theorem dirFrom_eq_ok_iff {up : String → Bool} {d : Ldmsd} {l : List String} :
    dirFrom c up d = .ok l ↔ up d.name ∧ l = dirOf c up d.level d.name := by
  rw [dirFrom]
  split
  · next h => exact ⟨fun heq => ⟨h, (Except.ok.inj heq).symm⟩, fun heq => congrArg _ heq.2.symm⟩
  · next h => exact iff_of_false nofun fun heq => h heq.1

/-- The daemons can be in a steady state, whichever of them are up. -/
theorem steady_dirFrom (hwords : PlainWords c o) (hnames : Distinct c) (up : String → Bool) :
    Steady c o (fun n => up n = true) (dirFrom c up) where
  down := fun d _ hdown => ⟨_, if_neg hdown⟩
  shows := by
    rintro ⟨level, name⟩ hd hup text hconfig
    refine ⟨_, dirFrom_eq_ok_iff.mpr ⟨hup, rfl⟩, fun s => ?_⟩
    obtain ⟨text', ps, hconfig', hps, -, hproducers, hinstances⟩ := exists_text hwords hd
    obtain rfl := Except.ok.inj (hconfig.symm.trans hconfig')
    rw [hinstances, hproducers]
    match level with
    | 0 =>
      cases hps
      exact (or_iff_left fun ⟨_, _, _, ⟨_, _, _, _, ha⟩, _⟩ => List.not_mem_nil ha).symm
    | below + 1 =>
      have hbelow : below < 4 := Nat.lt_of_succ_lt (mem_ldmsdList_iff.mp hd).1
      have hsub := (length_of_getPrdcr hps).2
      have hdir : dirOf c up (below + 1) name = (ps.filter up).flatMap (dirOf c up below) := by
        have hps' : getPrdcr c (below + 1) name = .ok ps := hps
        rw [dirOf, hps']
      show s ∈ dirOf c up (below + 1) name ↔ s ∈ [] ∨ _
      rw [hdir, List.mem_flatMap, or_iff_right List.not_mem_nil]
      constructor
      · rintro ⟨p, hp, hs⟩
        obtain ⟨hp, hpup⟩ := List.mem_filter.mp hp
        have hpd : (⟨below, p⟩ : Ldmsd) ∈ ldmsdList c :=
          mem_ldmsdList_iff.mpr ⟨hbelow, hsub hp⟩
        obtain ⟨textp, -, hconfigp, -, hlistens, -⟩ := exists_text hwords hpd
        refine ⟨⟨below, p⟩, hpd, hpup, ⟨textp, hconfigp, addressOf p, ?_, List.mem_map_of_mem hp⟩, _,
          dirFrom_eq_ok_iff.mpr ⟨hpup, rfl⟩, hs⟩
        rw [hlistens]
        exact List.mem_singleton_self _
      · rintro ⟨p, hpd, hpup, ⟨textp, hconfigp, a, ha, haps⟩, l', hl', hs⟩
        obtain ⟨textp', -, hconfigp', -, hlistens, -⟩ := exists_text hwords hpd
        obtain rfl := Except.ok.inj (hconfigp.symm.trans hconfigp')
        rw [hlistens, List.mem_singleton] at ha
        obtain ⟨q, hq, hqa⟩ := List.mem_map.mp haps
        obtain ⟨hplevel, hpname⟩ := mem_ldmsdList_iff.mp hpd
        have hname : q = p.name := eq_of_addressOf (hsub hq) hpname (hqa.trans ha)
        have hlevel : p.level = below := hnames.level_eq hplevel hbelow hpname (hname ▸ hsub hq)
        obtain ⟨-, rfl⟩ := dirFrom_eq_ok_iff.mp hl'
        rw [hlevel] at hs
        exact ⟨p.name, List.mem_filter.mpr ⟨hname ▸ hq, hpup⟩, hs⟩

/-- The first command of the script. -/
theorem exists_script (c : Config) :
    ∃ post, (script c).1 = [] ++ .verify 1 (aggs c) [] 0 :: post :=
  ⟨_, rfl⟩

theorem distinct_twoByTwo : Distinct twoByTwo :=
  distinct_of_ports (by decide) (by decide) (by decide) (by decide) (by decide) (by decide)

/-- The test of the script, with its first assertion. -/
def scalabilityTest : Tada.Test Json.SampleFloat where
  testSuite := "LDMSD"
  testType := "FVT"
  testName := "scalability on cluster"
  testDesc := "Scalability test"
  testUser := "root"
  commitId := "-"
  testId := some "0123"
  assertions :=
    [(.num 1, Tada.assertionMsg (.int 1) (.str "LDMS dir to each L1, L2 and L3 aggregator"))]
  sent := []

theorem ready_scalabilityTest : Tada.Ready scalabilityTest (.int 1) :=
  ⟨⟨_, rfl⟩, .num 1, _, rfl, rfl⟩

/-- The first check of the script, when all daemons are up. -/
theorem checks_twoByTwo :
    Verifies scalabilityTest twoByTwo (dirFrom twoByTwo fun _ => true) 1 (aggs twoByTwo) [] 0 := by
  obtain ⟨post, hscript⟩ := exists_script twoByTwo
  exact (checks_iff plainWords_twoByTwo distinct_twoByTwo (by decide)
    (steady_dirFrom plainWords_twoByTwo distinct_twoByTwo fun _ => true) hscript
    ready_scalabilityTest).2 fun _ _ => iff_of_true rfl List.not_mem_nil

end Checks

end Scalability
end LdmsTest
