import LdmsTest.Scalability.LdmsdCtl

/-!
# Controlling the daemons of all hosts

`Control` runs `ldmsd_ctl.py` on the hosts of the daemons that it is asked for: on each host once,
with the names of the daemons there, or without a name when all daemons are asked for.

* `ctrl`: the hosts and the names.
* `status`, `signals`: what `status` returns, and the processes that `stop` signals.
* `ControlRight`: `status` tells which of the daemons run, and `stop` signals these.
* `controlRight_iff`: this is so whatever happens on the hosts between the commands, exactly when the
  daemons of each host are told apart.
-/

namespace LdmsTest
namespace Scalability

/-! ## `Control` -/

/-- `self.ldmsd_list` -/
def ldmsdList (c : Config) : List Ldmsd :=
  (List.range 4).flatMap fun level => (dl c level).map fun name => ⟨level, name⟩

/-- `self.ldmsd_by_name` -/
def ldmsdByName (c : Config) : Dict String Ldmsd :=
  (ldmsdList c).foldl (fun t d => Dict.set t d.name d) []

/-- `host_list`: the daemons of each host. -/
def hostList (daemons : List Ldmsd) : Dict String (List Ldmsd) :=
  daemons.foldl (fun t d =>
    Dict.set t (hostOf d.name) ((Dict.get? t (hostOf d.name)).getD [] ++ [d])) []

/-- `self._ctrl(cmd, names)`: the hosts, and the names behind the command there. -/
def ctrl (c : Config) (names : List String) : Except PyError (List (String × List String)) := do
  let daemons ← if names = [] then pure (ldmsdList c)
    else names.mapM fun s => item (ldmsdByName c) s
  pure ((hostList daemons).map fun hl => (hl.1, if names = [] then [] else hl.2.map Ldmsd.name))

/-- The daemons that `ldmsd_ctl.py` goes through on a host. -/
def ctlDaemons (c : Config) (host : String) (args : List String) : List Ldmsd :=
  (getDaemons c host).filter fun d => args = [] ∨ d.name ∈ args

section Commands

variable (F : Type) [PyText F] (g : Setting) (w : String → Site)

/-- `status_tbl` of the command on a host -/
def statusAt (cmd : String × List String) : Dict String ℤ :=
  (ctlDaemons g.config cmd.1 cmd.2).foldl
    (fun t d => Dict.set t d.name ((getpid F (w cmd.1).host d.name).getD 0)) []

/-- `status(names)` -/
def status (names : List String) : Except PyError (Dict String ℤ) := do
  let cmds ← ctrl g.config names
  pure (cmds.foldl (fun coll cmd => Dict.update coll (statusAt F g w cmd)) [])

/-- `stop(names)`: the processes that are signalled, with their hosts. -/
def signals (names : List String) : Except PyError (List (String × ℤ)) := do
  let cmds ← ctrl g.config names
  pure (cmds.flatMap fun cmd => (ctlDaemons g.config cmd.1 cmd.2).filterMap fun d =>
    (stop F (w cmd.1).host d.name).map fun pid => (cmd.1, pid))

end Commands

/-! ## What is asked for -/

/-- The name of a daemon. -/
def Known (c : Config) (name : String) : Prop :=
  ∃ d ∈ ldmsdList c, d.name = name

/-- No name asks for all daemons. -/
def Asked (names : List String) (name : String) : Prop :=
  names = [] ∨ name ∈ names

section Names

variable {c : Config}

theorem mem_ldmsdList_iff {d : Ldmsd} : d ∈ ldmsdList c ↔ d.level < 4 ∧ d.name ∈ dl c d.level := by
  obtain ⟨level, name⟩ := d
  rw [ldmsdList, List.mem_flatMap]
  constructor
  · rintro ⟨l, hl, hmem⟩
    obtain ⟨n, hn, heq⟩ := List.mem_map.mp hmem
    obtain ⟨rfl, rfl⟩ := Ldmsd.mk.inj heq
    exact ⟨List.mem_range.mp hl, hn⟩
  · exact fun ⟨hl, hn⟩ => ⟨level, List.mem_range.mpr hl, List.mem_map_of_mem hn⟩

/-- Each host has its own daemons. -/
theorem mem_getDaemons_hostOf {d : Ldmsd} :
    d ∈ getDaemons c (hostOf d.name) ↔ d ∈ ldmsdList c := by
  rw [mem_getDaemons_iff, mem_ldmsdList_iff, and_assoc.symm]
  exact and_iff_left rfl

theorem mem_ctlDaemons {host : String} {args : List String} {d : Ldmsd} :
    d ∈ ctlDaemons c host args ↔ d ∈ ldmsdList c ∧ hostOf d.name = host ∧ Asked args d.name := by
  rw [ctlDaemons, List.mem_filter, decide_eq_true_eq, ← mem_getDaemons_hostOf]
  constructor
  · rintro ⟨hmem, hasked⟩
    have hhost := (mem_getDaemons_iff.mp hmem).2.2
    exact ⟨hhost ▸ hmem, hhost, hasked⟩
  · rintro ⟨hmem, rfl, hasked⟩
    exact ⟨hmem, hasked⟩

/-- The daemons of a host are collected in their order. -/
theorem get?_hostList (daemons : List Ldmsd) (host : String) : Dict.get? (hostList daemons) host =
    if ∃ d ∈ daemons, hostOf d.name = host then
      some (daemons.filter fun d => hostOf d.name = host)
    else none := by
  induction daemons using List.reverseRecOn with
  | nil => rfl
  | append_singleton daemons d ih =>
    have hset : hostList (daemons ++ [d]) = Dict.set (hostList daemons) (hostOf d.name)
        ((Dict.get? (hostList daemons) (hostOf d.name)).getD [] ++ [d]) := by
      rw [hostList, List.foldl_append]
      rfl
    rw [hset, Dict.get?_set, List.filter_append]
    split
    · next hhost =>
      subst hhost
      rw [if_pos ⟨d, List.mem_append_right _ List.mem_cons_self, rfl⟩, ih,
        List.filter_cons_of_pos (by simp), List.filter_nil]
      split
      · rfl
      · next hnone =>
        -- the first one of its host
        have hempty : daemons.filter (fun x => hostOf x.name = hostOf d.name) = [] :=
          List.filter_eq_nil_iff.mpr fun x hx hd => hnone ⟨x, hx, of_decide_eq_true hd⟩
        rw [hempty]
        rfl
    · next hhost =>
      have hiff : (∃ x ∈ daemons ++ [d], hostOf x.name = host) ↔ ∃ x ∈ daemons, hostOf x.name = host := by
        constructor
        · rintro ⟨x, hx, hxhost⟩
          rcases List.mem_append.mp hx with hx | hx
          · exact ⟨x, hx, hxhost⟩
          · obtain rfl := List.mem_singleton.mp hx
            exact absurd hxhost hhost
        · rintro ⟨x, hx, hxhost⟩
          exact ⟨x, List.mem_append_left _ hx, hxhost⟩
      rw [ih, List.filter_cons_of_neg (by simpa using hhost), List.filter_nil, List.append_nil]
      exact if_congr hiff.symm rfl rfl

theorem nodup_keys_hostList (daemons : List Ldmsd) : (Dict.keys (hostList daemons)).Nodup := by
  induction daemons using List.reverseRecOn with
  | nil => exact List.nodup_nil
  | append_singleton daemons d ih =>
    rw [hostList, List.foldl_append]
    exact Dict.nodup_keys_set ih _ _

theorem mem_hostList_iff {daemons : List Ldmsd} {host : String} {l : List Ldmsd} :
    (host, l) ∈ hostList daemons ↔
      (∃ d ∈ daemons, hostOf d.name = host) ∧ l = daemons.filter fun d => hostOf d.name = host := by
  rw [← Dict.get?_eq_some_iff (nodup_keys_hostList daemons), get?_hostList]
  split
  · next hhost => exact ⟨fun h => ⟨hhost, (Option.some_inj.mp h).symm⟩, fun h => congrArg some h.2.symm⟩
  · next hhost => exact iff_of_false nofun fun h => hhost h.1

/-- A name is looked up among the names of the daemons. -/
theorem exists_item_iff {name : String} :
    (∃ d, item (ldmsdByName c) name = .ok d) ↔ Known c name := by
  have hkeys : ∀ (ds : List Ldmsd) (t : Dict String Ldmsd),
      name ∈ Dict.keys (ds.foldl (fun t d => Dict.set t d.name d) t) ↔
        name ∈ Dict.keys t ∨ ∃ d ∈ ds, d.name = name := by
    intro ds
    induction ds with
    | nil => simp
    | cons d ds ih =>
      intro t
      rw [List.foldl_cons, ih, Dict.mem_keys_set, eq_comm (a := name)]
      simp only [List.mem_cons, or_and_right, exists_or, exists_eq_left]
      tauto
  have hmem := (hkeys (ldmsdList c) []).trans (or_iff_right List.not_mem_nil)
  rw [Known, ← hmem, ← Dict.isSome_get?_iff]
  show (∃ d, item (ldmsdByName c) name = .ok d) ↔ (Dict.get? (ldmsdByName c) name).isSome
  rw [item]
  cases Dict.get? (ldmsdByName c) name with
  | none => exact ⟨nofun, nofun⟩
  | some d => exact ⟨fun _ => rfl, fun _ => ⟨d, rfl⟩⟩

/-- A handler in the table is one of those that were put into it, under its name. -/
theorem get?_foldl_name {ds : List Ldmsd} : ∀ {t : Dict String Ldmsd} {k : String} {x : Ldmsd},
    Dict.get? (ds.foldl (fun t d => Dict.set t d.name d) t) k = some x →
      (x ∈ ds ∧ x.name = k) ∨ Dict.get? t k = some x := by
  induction ds with
  | nil => exact fun hx => Or.inr hx
  | cons d ds ih =>
    intro t k x hx
    rcases ih hx with ⟨hmem, hname⟩ | hx
    · exact Or.inl ⟨List.mem_cons_of_mem _ hmem, hname⟩
    · rw [Dict.get?_set] at hx
      split at hx
      · next hk =>
        obtain rfl := Option.some_inj.mp hx
        exact Or.inl ⟨List.mem_cons_self, hk⟩
      · exact Or.inr hx

/-- The handler of a name. -/
theorem mem_of_item {name : String} {d : Ldmsd} (h : item (ldmsdByName c) name = .ok d) :
    d ∈ ldmsdList c ∧ d.name = name := by
  rw [item] at h
  split at h
  · next x hx =>
    cases h
    rcases get?_foldl_name hx with hmem | hnil
    · exact hmem
    · cases hnil
  · cases h

/-- **The commands** go to the daemons that are asked for, on their hosts. -/
theorem exists_ctrl {names : List String} (hknown : ∀ n ∈ names, Known c n) :
    ∃ cmds, ctrl c names = .ok cmds ∧ ∀ host d,
      (∃ args, (host, args) ∈ cmds ∧ d ∈ ctlDaemons c host args) ↔
        d ∈ ldmsdList c ∧ hostOf d.name = host ∧ Asked names d.name := by
  by_cases hnames : names = []
  · refine ⟨(hostList (ldmsdList c)).map fun hl => (hl.1, []), ?_, fun host d => ?_⟩
    · rw [ctrl, if_pos hnames]
      show Except.ok _ = _
      simp only [if_pos hnames]
    · simp only [mem_ctlDaemons]
      constructor
      · rintro ⟨args, -, hmem, hhost, -⟩
        exact ⟨hmem, hhost, Or.inl hnames⟩
      · rintro ⟨hmem, hhost, -⟩
        have hgroup := mem_hostList_iff.mpr ⟨⟨d, hmem, hhost⟩, rfl⟩
        exact ⟨[], List.mem_map_of_mem (f := fun hl => (hl.1, [])) hgroup, hmem, hhost, Or.inl rfl⟩
  · obtain ⟨daemons, hdaemons⟩ := exists_mapM_ok_iff.mpr fun n hn => exists_item_iff.mpr (hknown n hn)
    have hmapped : daemons.map Ldmsd.name = names := by
      have hforall := mapM_eq_ok_iff.mp hdaemons
      clear hdaemons hknown hnames
      induction hforall with
      | nil => rfl
      | cons hitem _ ih => rw [List.map_cons, (mem_of_item hitem).2, ih]
    refine ⟨(hostList daemons).map fun hl => (hl.1, hl.2.map Ldmsd.name), ?_, fun host d => ?_⟩
    · rw [ctrl, if_neg hnames, hdaemons, ok_bind]
      simp only [if_neg hnames]
      rfl
    · simp only [mem_ctlDaemons]
      have hasked : Asked names d.name ↔ ∃ x ∈ daemons, x.name = d.name := by
        rw [Asked, or_iff_right hnames, ← hmapped, List.mem_map]
      constructor
      · rintro ⟨args, hcmd, hmem, hhost, hargs⟩
        obtain ⟨⟨host', l⟩, hl, heq⟩ := List.mem_map.mp hcmd
        obtain ⟨rfl, rfl⟩ := Prod.mk.inj heq
        obtain ⟨⟨x, hx, hxhost⟩, rfl⟩ := mem_hostList_iff.mp hl
        refine ⟨hmem, hhost, hasked.mpr ?_⟩
        rcases hargs with hempty | hargs
        · -- there is a name behind the command
          have hxl : x ∈ daemons.filter fun d => hostOf d.name = host' :=
            List.mem_filter.mpr ⟨hx, decide_eq_true hxhost⟩
          exact absurd (List.map_eq_nil_iff.mp hempty) (List.ne_nil_of_mem hxl)
        · obtain ⟨y, hy, hname⟩ := List.mem_map.mp hargs
          exact ⟨y, (List.mem_filter.mp hy).1, hname⟩
      · rintro ⟨hmem, hhost, h⟩
        obtain ⟨x, hx, hname⟩ := hasked.mp h
        have hxhost : hostOf x.name = host := by rw [hname, hhost]
        have hgroup := mem_hostList_iff.mpr ⟨⟨x, hx, hxhost⟩, rfl⟩
        refine ⟨_, List.mem_map_of_mem (f := fun hl => (hl.1, hl.2.map Ldmsd.name)) hgroup, hmem,
          hhost, Or.inr ?_⟩
        rw [← hname]
        exact List.mem_map_of_mem (List.mem_filter.mpr ⟨hx, decide_eq_true hxhost⟩)

end Names

/-! ## What the commands tell -/

section Told

variable {F : Type} [PyText F] {g : Setting} {w : String → Site}

/-- What is told of a daemon: 0 when it is not found. -/
def told (F : Type) [PyText F] (w : String → Site) (name : String) : ℤ :=
  (getpid F (w (hostOf name)).host name).getD 0

theorem told_eq_iff {name : String} {pid : ℤ} (hpid : pid ≠ 0) :
    told F w name = pid ↔ running F (w (hostOf name)).host name = some pid := by
  rw [told, running]
  cases getpid F (w (hostOf name)).host name with
  | none => exact iff_of_false (fun h => hpid h.symm) (by simp)
  | some q =>
    rw [Option.filter_eq_some_iff, Option.getD_some, Option.some_inj]
    constructor
    · rintro rfl
      exact ⟨rfl, decide_eq_true hpid⟩
    · exact And.left

/-- The table of a host has its daemons, with what is told of them. -/
theorem statusAt_spec (cmd : String × List String) :
    (∀ name, name ∈ Dict.keys (statusAt F g w cmd) ↔
      ∃ d ∈ ctlDaemons g.config cmd.1 cmd.2, d.name = name) ∧
    ∀ name v, Dict.get? (statusAt F g w cmd) name = some v → v = told F w name := by
  have hhost : ∀ d ∈ ctlDaemons g.config cmd.1 cmd.2, hostOf d.name = cmd.1 :=
    fun d hd => (mem_ctlDaemons.mp hd).2.1
  rw [statusAt]
  generalize ctlDaemons g.config cmd.1 cmd.2 = ds at hhost
  induction ds using List.reverseRecOn with
  | nil => exact ⟨fun name => by simp, fun _ _ h => by cases h⟩
  | append_singleton ds d ih =>
    obtain ⟨hkeys, hvalues⟩ := ih fun d hd => hhost d (List.mem_append_left _ hd)
    have hd := hhost d (List.mem_append_right _ List.mem_cons_self)
    rw [List.foldl_append, List.foldl_cons, List.foldl_nil]
    refine ⟨fun name => ?_, fun name v h => ?_⟩
    · rw [Dict.mem_keys_set, hkeys, eq_comm (a := name)]
      simp only [List.mem_append, List.mem_singleton, or_and_right, exists_or, exists_eq_left]
      exact or_comm
    · rw [Dict.get?_set] at h
      split at h
      · next hname =>
        rw [← Option.some_inj.mp h, ← hname, told, hd]
      · exact hvalues name v h

theorem nodup_keys_statusAt (cmd : String × List String) :
    (Dict.keys (statusAt F g w cmd)).Nodup := by
  rw [statusAt]
  induction ctlDaemons g.config cmd.1 cmd.2 using List.reverseRecOn with
  | nil => exact List.nodup_nil
  | append_singleton ds d ih =>
    rw [List.foldl_append]
    exact Dict.nodup_keys_set ih _ _

/-- All tables have what is told, and all of the daemons of the commands. -/
theorem update_spec (cmds : List (String × List String)) :
    (∀ name, name ∈ Dict.keys (cmds.foldl (fun coll cmd => Dict.update coll (statusAt F g w cmd)) []) ↔
      ∃ cmd ∈ cmds, ∃ d ∈ ctlDaemons g.config cmd.1 cmd.2, d.name = name) ∧
    ∀ name v, Dict.get? (cmds.foldl (fun coll cmd => Dict.update coll (statusAt F g w cmd)) []) name =
      some v → v = told F w name := by
  induction cmds using List.reverseRecOn with
  | nil => exact ⟨fun name => by simp, fun _ _ h => by cases h⟩
  | append_singleton cmds cmd ih =>
    obtain ⟨hkeys, hvalues⟩ := ih
    rw [List.foldl_append, List.foldl_cons, List.foldl_nil]
    refine ⟨fun name => ?_, fun name v h => ?_⟩
    · rw [Dict.mem_keys_update, hkeys, (statusAt_spec cmd).1]
      simp only [List.mem_append, List.mem_singleton, or_and_right, exists_or, exists_eq_left]
    · rw [Dict.get?_update (nodup_keys_statusAt cmd), Option.or_eq_some_iff] at h
      rcases h with h | ⟨-, h⟩
      · exact (statusAt_spec cmd).2 name v h
      · exact hvalues name v h

end Told

/-! ## What the commands are to do -/

section Right

variable (F : Type) [PyText F] (g : Setting)

/-- **`status` and `stop` do what is asked**: the table has the daemons that are asked for, each with
the number of the process that was started for it and runs, and these processes are signalled. -/
structure ControlRight (w : String → Site) : Prop where
  status : ∀ names, (∀ n ∈ names, Known g.config n) → ∃ tbl, status F g w names = .ok tbl ∧
    (∀ n, n ∈ Dict.keys tbl ↔ Known g.config n ∧ Asked names n) ∧
    ∀ n v, Dict.get? tbl n = some v → ∀ pid, pid ≠ 0 →
      (v = pid ↔ (w (hostOf n)).owner pid = some n)
  signals : ∀ names, (∀ n ∈ names, Known g.config n) → ∃ sent, signals F g w names = .ok sent ∧
    ∀ host pid, (host, pid) ∈ sent ↔ ∃ n, Known g.config n ∧ Asked names n ∧ hostOf n = host ∧
      (w host).owner pid = some n

variable {F g} {w : String → Site}

theorem exists_status {names : List String} (hknown : ∀ n ∈ names, Known g.config n) :
    ∃ tbl, status F g w names = .ok tbl ∧
      (∀ n, n ∈ Dict.keys tbl ↔ Known g.config n ∧ Asked names n) ∧
      ∀ n v, Dict.get? tbl n = some v → v = told F w n := by
  obtain ⟨cmds, hctrl, hcmds⟩ := exists_ctrl hknown
  obtain ⟨hkeys, hvalues⟩ := update_spec (F := F) (g := g) (w := w) cmds
  refine ⟨_, by rw [status, hctrl]; rfl, fun n => ?_, hvalues⟩
  rw [hkeys]
  constructor
  · rintro ⟨⟨host, args⟩, hcmd, d, hd, rfl⟩
    obtain ⟨hmem, -, hasked⟩ := (hcmds host d).mp ⟨args, hcmd, hd⟩
    exact ⟨⟨d, hmem, rfl⟩, hasked⟩
  · rintro ⟨⟨d, hmem, rfl⟩, hasked⟩
    obtain ⟨args, hcmd, hd⟩ := (hcmds (hostOf d.name) d).mpr ⟨hmem, rfl, hasked⟩
    exact ⟨_, hcmd, d, hd, rfl⟩

theorem exists_signals {names : List String} (hknown : ∀ n ∈ names, Known g.config n) :
    ∃ sent, signals F g w names = .ok sent ∧ ∀ host pid, (host, pid) ∈ sent ↔
      ∃ n, Known g.config n ∧ Asked names n ∧ hostOf n = host ∧
        running F (w host).host n = some pid := by
  obtain ⟨cmds, hctrl, hcmds⟩ := exists_ctrl hknown
  refine ⟨_, by rw [signals, hctrl]; rfl, fun host pid => ?_⟩
  rw [List.mem_flatMap]
  constructor
  · rintro ⟨⟨host', args⟩, hcmd, hmem⟩
    obtain ⟨d, hd, heq⟩ := List.mem_filterMap.mp hmem
    obtain ⟨q, hq, heq⟩ := Option.map_eq_some_iff.mp heq
    obtain ⟨rfl, rfl⟩ := Prod.mk.inj heq
    obtain ⟨hmem, hhost, hasked⟩ := (hcmds _ d).mp ⟨args, hcmd, hd⟩
    exact ⟨d.name, ⟨d, hmem, rfl⟩, hasked, hhost, hq⟩
  · rintro ⟨n, ⟨d, hmem, rfl⟩, hasked, hhost, hrunning⟩
    obtain ⟨args, hcmd, hd⟩ := (hcmds host d).mpr ⟨hmem, hhost, hasked⟩
    refine ⟨(host, args), hcmd, List.mem_filterMap.mpr ⟨d, hd, ?_⟩⟩
    show (running F (w host).host d.name).map (fun pid => (host, pid)) = some (host, pid)
    rw [hrunning]
    rfl

/-- **Where the right processes are found**, the commands do what is asked. -/
theorem Right.controlRight (h : Right F g w) : ControlRight F g w where
  status := fun names hknown => by
    obtain ⟨tbl, hstatus, hkeys, hvalues⟩ := exists_status (F := F) (w := w) hknown
    refine ⟨tbl, hstatus, hkeys, fun n v hv pid hpid => ?_⟩
    have hkey := Dict.mem_keys_of_get? hv
    obtain ⟨⟨d, hmem, rfl⟩, -⟩ := (hkeys n).mp hkey
    rw [hvalues _ v hv, told_eq_iff hpid]
    exact h _ d (mem_getDaemons_hostOf.mpr hmem) pid
  signals := fun names hknown => by
    obtain ⟨sent, hsignals, hsent⟩ := exists_signals (F := F) (w := w) hknown
    refine ⟨sent, hsignals, fun host pid => (hsent host pid).trans ?_⟩
    constructor
    · rintro ⟨n, ⟨d, hmem, rfl⟩, hasked, rfl, hrunning⟩
      exact ⟨d.name, ⟨d, hmem, rfl⟩, hasked, rfl,
        (h _ d (mem_getDaemons_hostOf.mpr hmem) pid).mp hrunning⟩
    · rintro ⟨n, ⟨d, hmem, rfl⟩, hasked, rfl, howner⟩
      exact ⟨d.name, ⟨d, hmem, rfl⟩, hasked, rfl,
        (h _ d (mem_getDaemons_hostOf.mpr hmem) pid).mpr howner⟩

/-- **When the commands do what is asked**, whatever happens on the hosts: when the daemons of each
host are told apart by their names. -/
theorem controlRight_iff : (∀ w, Reachable F g w → ControlRight F g w) ↔ Apart g := by
  constructor
  · intro hright
    by_contra hapart
    obtain ⟨w, host, d, hd, pid, name, hreach, hrunning, howner, hne⟩ :=
      exists_mistaken (F := F) hapart
    have hhost := (mem_getDaemons_iff.mp hd).2.2
    subst hhost
    have hknown : ∀ n ∈ [d.name], Known g.config n := by
      intro n hn
      rw [List.mem_singleton.mp hn]
      exact ⟨d, mem_getDaemons_hostOf.mp hd, rfl⟩
    -- the process of another daemon is signalled
    obtain ⟨sent, hsignals, hsent⟩ := (hright w hreach).signals [d.name] hknown
    obtain ⟨sent', hsignals', hsent'⟩ := exists_signals (F := F) (w := w) hknown
    obtain rfl : sent = sent' := Except.ok.inj (hsignals.symm.trans hsignals')
    have hmem := (hsent' (hostOf d.name) pid).mpr ⟨d.name, hknown _ List.mem_cons_self,
      Or.inr List.mem_cons_self, rfl, hrunning⟩
    obtain ⟨n, -, hasked, -, howner'⟩ := (hsent _ _).mp hmem
    have hn : n = d.name := List.mem_singleton.mp (hasked.resolve_left (List.cons_ne_nil _ _))
    exact hne (Option.some_inj.mp (howner.symm.trans howner') |>.trans hn)
  · exact fun hapart w hw => (right_of_apart hapart hw).controlRight

end Right

end Scalability
end LdmsTest
