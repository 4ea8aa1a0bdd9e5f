import LdmsTest.Foundation.PidFile
import LdmsTest.Ldms.Scalability
import LdmsTest.Python.Text

/-!
# Starting and stopping daemons

Each host of the scalability test runs `ldmsd_ctl.py`, which starts, stops and cleans up the daemons
of its host, and tells which of them run.  A daemon is found by its pid file: the number in it is
the number of a process whose name is `ldmsd` and whose command line has the name of the daemon in
it.

Between two of these operations anything may happen on a host: processes end, daemons among them,
and leave their pid files, and numbers are used again for other programs and other daemons.

* `getpid`, `start`, `stop`, `cleanup`: the methods of `Proc` and `LDMSD`.
* `SiteStep`, `Step`: what may happen on a host, and on one of the hosts.
* `keeper`: the daemons of a host, as the keys of `PidFile`.
* `right_of_apart`, `exists_mistaken`: what `getpid` finds is what was started for the daemon, in all
  states, exactly when no name is in the command line of another daemon of the host.
-/

namespace LdmsTest
namespace Scalability

open Shares (share)

/-! ## Daemons -/

/-- `LDMSDSampler`, `LDMSD_L1`, `LDMSD_L2` and `LDMSD_L3`, by their `agg_level` -/
structure Ldmsd where
  level : ℕ
  name : String
  deriving DecidableEq

/-- `name.rsplit("-", 1)[0]`, where there is a dash in the name -/
def hostOf (name : String) : String :=
  String.ofList ((name.toList.reverse.dropWhile (· ≠ '-')).tail).reverse

def pidFile (host name : String) : String :=
  "pid/" ++ host ++ "/" ++ name ++ ".pid"

def confFile (host name : String) : String :=
  "conf/" ++ host ++ "/" ++ name ++ ".conf"

def logFile (host name : String) : String :=
  "log/" ++ host ++ "/" ++ name ++ ".log"

/-- `config.py`.  `configText` is what `getConfig` makes of it. -/
structure Setting where
  config : Config
  memPerSet : ℕ
  logLevel : String
  configText : Ldmsd → String

/-- The daemons of a level on a host, which is one of its hosts. -/
def onHost (L : Level) (level : ℕ) (host : String) : List Ldmsd :=
  (List.range L.perHost).map fun i => ⟨level, daemonName host (L.basePort + i)⟩

/-- `get_daemons()`, where `MYHOST` is the host -/
def getDaemons (c : Config) (host : String) : List Ldmsd :=
  (if host ∈ c.samp.hosts then onHost c.samp 0 host else []) ++
    (if host ∈ c.l1.hosts then onHost c.l1 1 host else []) ++
    (if host ∈ c.l2.hosts then onHost c.l2 2 host else []) ++
    (if host = c.l3Host then [⟨3, daemonName host c.l3BasePort⟩] else [])

/-! ## Processes and files of a host -/

/-- What `/proc/PID/comm` and `/proc/PID/cmdline` hold. -/
structure Process where
  comm : String
  cmdline : String

structure Host where
  proc : ℤ → Option Process
  files : String → Option String

/-- What the shell makes of `getCmdline()`. -/
def getCmdline (g : Setting) (d : Ldmsd) : Except PyError (List String) := do
  let edir ← getExpectedDir g.config d.level d.name
  let host := hostOf d.name
  pure ["ldmsd", "-c", confFile host d.name, "-r", pidFile host d.name, "-t", "-l",
    logFile host d.name, "-v", g.logLevel, "-m", toString (g.memPerSet * edir.length)]

/-- The process of a command. -/
def processOf (argv : List String) : Process where
  comm := "ldmsd\n"
  cmdline := String.join (argv.map fun arg => arg ++ "\x00")

/-- The process of a daemon. -/
def image (g : Setting) (d : Ldmsd) : Except PyError Process := do
  let argv ← getCmdline g d
  pure (processOf argv)

section Methods

variable (F : Type) [PyText F]

/-- `int(text)` -/
def pidIn (text : String) : Option ℤ :=
  Val.intSigned F (Val.strip F text.toList)

def commValidate (comm : List Char) : Bool :=
  comm = "ldmsd".toList

/-- `cmdline.find(self.name) >= 0` -/
def cmdlineValidate (name : String) (cmdline : List Char) : Bool :=
  name.toList <:+: cmdline

/-- Both tests of `getpid`. -/
def accepts (name : String) (p : Process) : Bool :=
  commValidate (Val.strip F p.comm.toList) && cmdlineValidate name (Val.strip F p.cmdline.toList)

/-- `getpid` of the daemon with a name.  Whatever is raised in its `try`, there is no process. -/
def getpid (H : Host) (name : String) : Option ℤ :=
  (H.files (pidFile (hostOf name) name)).bind fun text =>
    (pidIn F text).bind fun pid =>
      (H.proc pid).bind fun p => if accepts F name p then some pid else none

/-- The process that runs, for `if _pid`. -/
def running (H : Host) (name : String) : Option ℤ :=
  (getpid F H name).filter (· ≠ 0)

/-- `writeConfig`, and the command: `ldmsd` goes into the background with this number, which it
writes into its pid file. -/
def launch (g : Setting) (H : Host) (d : Ldmsd) (pid : ℤ) (text : String) : Except PyError Host := do
  let p ← image g d
  let host := hostOf d.name
  pure ⟨Function.update H.proc pid (some p),
    Function.update (Function.update H.files (confFile host d.name) (some (g.configText d)))
      (pidFile host d.name) (some text)⟩

/-- `start()` -/
def start (g : Setting) (H : Host) (d : Ldmsd) (pid : ℤ) (text : String) : Except PyError Host :=
  match running F H d.name with
  | some _ => pure H
  | none => launch g H d pid text

/-- `stop()`: the process that is signalled. -/
def stop (H : Host) (name : String) : Option ℤ :=
  running F H name

/-- `cleanup()`, without the store of the aggregator at the top -/
def cleanup (H : Host) (name : String) : Except PyError Host :=
  match running F H name with
  | some pid =>
    throw ⟨.runtimeError, "Cannot cleanup, " ++ name ++ " is running (pid: " ++ toString pid ++ ")"⟩
  | none =>
    let host := hostOf name
    pure ⟨H.proc, fun f =>
      if f ∈ [confFile host name, pidFile host name, logFile host name] then none else H.files f⟩

/-! ## What may happen -/

/-- A host, and the daemons that its processes were started for. -/
structure Site where
  host : Host
  owner : ℤ → Option String

/-- What may happen on a host. -/
inductive SiteStep (g : Setting) (host : String) : Site → Site → Prop
  /-- A daemon is started, and gets a number that is free. -/
  | start {s : Site} {d : Ldmsd} {pid : ℤ} {text : String} {H : Host}
      (hd : d ∈ getDaemons g.config host) (hnone : running F s.host d.name = none)
      (hfree : s.host.proc pid = none) (hpid : pid ≠ 0) (htext : pidIn F text = some pid)
      (hstart : start F g s.host d pid text = .ok H) :
      SiteStep g host s ⟨H, Function.update s.owner pid (some d.name)⟩
  /-- A process ends. -/
  | exit {s : Site} (pid : ℤ) : SiteStep g host s
      ⟨⟨Function.update s.host.proc pid none, s.host.files⟩, Function.update s.owner pid none⟩
  /-- A daemon that ends removes its pid file. -/
  | unlink {s : Site} {d : Ldmsd} (hd : d ∈ getDaemons g.config host)
      (hnone : running F s.host d.name = none) : SiteStep g host s
      ⟨⟨s.host.proc, Function.update s.host.files (pidFile (hostOf d.name) d.name) none⟩, s.owner⟩
  /-- A daemon is cleaned up. -/
  | cleanup {s : Site} {d : Ldmsd} {H : Host} (hd : d ∈ getDaemons g.config host)
      (hcleanup : cleanup F s.host d.name = .ok H) : SiteStep g host s ⟨H, s.owner⟩
  /-- A program is started that is not taken for a daemon. -/
  | other {s : Site} {pid : ℤ} {p : Process} (hfree : s.host.proc pid = none)
      (hother : ∀ d ∈ getDaemons g.config host, accepts F d.name p = false) : SiteStep g host s
      ⟨⟨Function.update s.host.proc pid (some p), s.host.files⟩, s.owner⟩

/-- What may happen on one of the hosts. -/
inductive Step (g : Setting) : (String → Site) → (String → Site) → Prop
  | on {w : String → Site} {s : Site} (host : String) (hstep : SiteStep F g host (w host) s) :
      Step g w (Function.update w host s)

/-- No daemon runs yet.  The files may hold anything. -/
structure Start (g : Setting) (w : String → Site) : Prop where
  owner : ∀ host pid, (w host).owner pid = none
  other : ∀ {host pid p}, (w host).host.proc pid = some p →
    ∀ d ∈ getDaemons g.config host, accepts F d.name p = false

/-- The states that the hosts can come to. -/
def Reachable (g : Setting) (w : String → Site) : Prop :=
  ∃ w₀, Start F g w₀ ∧ Relation.ReflTransGen (Step F g) w₀ w

/-- **The daemons are told apart**: no name is in the command line of another daemon of the
host. -/
def Apart (g : Setting) : Prop :=
  ∀ host, ∀ d ∈ getDaemons g.config host, ∀ d' ∈ getDaemons g.config host, ∀ p,
    image g d' = .ok p → cmdlineValidate d.name p.cmdline.toList → d.name = d'.name

end Methods

/-! ## Names and files -/

theorem hostOf_daemonName (host : String) (port : ℕ) : hostOf (daemonName host port) = host := by
  have hdash : ∀ c ∈ (Nat.toDigits 10 port).reverse, decide (c ≠ '-') = true := fun c hc =>
    decide_eq_true fun heq => notMem_toDigits (by decide) port (heq ▸ List.mem_reverse.mp hc)
  rw [hostOf, toList_daemonName, List.reverse_append, List.reverse_cons, List.append_assoc,
    List.singleton_append, List.dropWhile_append_of_pos hdash]
  rw [List.dropWhile_cons_of_neg (by simp), List.tail_cons, List.reverse_reverse,
    String.ofList_toList]

theorem mem_onHost {L : Level} {level : ℕ} {host : String} {d : Ldmsd} (hhost : host ∈ L.hosts)
    (h : d ∈ onHost L level host) : d.level = level ∧ hostOf d.name = host ∧ d.name ∈ L.names := by
  obtain ⟨i, hi, rfl⟩ := List.mem_map.mp h
  exact ⟨rfl, hostOf_daemonName host _, List.mem_flatMap.mpr ⟨host, hhost, List.mem_map_of_mem hi⟩⟩

/-- **The daemons of a host** are those whose names are of it. -/
theorem mem_getDaemons_iff {c : Config} {host : String} {d : Ldmsd} :
    d ∈ getDaemons c host ↔ d.level < 4 ∧ d.name ∈ dl c d.level ∧ hostOf d.name = host := by
  obtain ⟨level, name⟩ := d
  have honHost : ∀ (L : Level) (l : ℕ), ⟨level, name⟩ ∈ (if host ∈ L.hosts then onHost L l host else []) ↔
      level = l ∧ name ∈ L.names ∧ hostOf name = host := by
    intro L l
    constructor
    · intro h
      split at h
      · next hhost =>
        obtain ⟨hlevel, hname, hmem⟩ := mem_onHost hhost h
        exact ⟨hlevel, hmem, hname⟩
      · cases h
    · rintro ⟨rfl, hmem, hname⟩
      obtain ⟨host', hhost, hmem⟩ := List.mem_flatMap.mp hmem
      obtain ⟨i, hi, rfl⟩ := List.mem_map.mp hmem
      rw [hostOf_daemonName] at hname
      subst hname
      rw [if_pos hhost]
      exact List.mem_map_of_mem hi
  have htop : (⟨level, name⟩ : Ldmsd) ∈
      (if host = c.l3Host then [⟨3, daemonName host c.l3BasePort⟩] else []) ↔
      level = 3 ∧ name ∈ [daemonName c.l3Host c.l3BasePort] ∧ hostOf name = host := by
    rw [List.mem_singleton]
    constructor
    · intro h
      split at h
      · next hhost =>
        obtain ⟨rfl, rfl⟩ := Ldmsd.mk.inj (List.mem_singleton.mp h)
        exact ⟨rfl, by rw [hhost], hostOf_daemonName host _⟩
      · cases h
    · rintro ⟨rfl, rfl, hname⟩
      rw [hostOf_daemonName] at hname
      rw [if_pos hname.symm, hname]
      exact List.mem_singleton_self _
  rw [getDaemons, List.mem_append, List.mem_append, List.mem_append, honHost, honHost, honHost, htop]
  match level with
  | 0 => simp [dl]
  | 1 => simp [dl]
  | 2 => simp [dl]
  | 3 => simp [dl]
  | n + 4 => simp

theorem pidFile_inj {host name name' : String} (h : pidFile host name = pidFile host name') :
    name = name' := by
  have hchars := congrArg String.toList h
  simp only [pidFile, String.toList_append] at hchars
  exact String.toList_injective (List.append_cancel_left (List.append_cancel_right hchars))

theorem pidFile_ne_confFile (host name host' name' : String) :
    pidFile host name ≠ confFile host' name' := by
  intro h
  have hchars := congrArg (fun s => s.toList.head?) h
  simp [pidFile, confFile] at hchars

theorem pidFile_ne_logFile (host name host' name' : String) :
    pidFile host name ≠ logFile host' name' := by
  intro h
  have hchars := congrArg (fun s => s.toList.head?) h
  simp [pidFile, logFile] at hchars

/-! ## What a daemon is taken for -/

section Images

variable {g : Setting} {d : Ldmsd} {p : Process}

theorem exists_idx {c : Config} {level : ℕ} {name : String} (h : name ∈ dl c level) :
    ∃ i, idx c level name = .ok i := by
  rw [idx]
  split
  · have hkey : name ∈ Dict.keys (indexOf (dl c level)) := by
      rw [indexOf, Dict.mem_keys_update, keys_zip_range]
      exact Or.inr h
    obtain ⟨i, hi⟩ := Option.isSome_iff_exists.mp (Dict.isSome_get?_iff.mpr hkey)
    exact ⟨i, by rw [item, hi]; rfl⟩
  · exact ⟨0, rfl⟩

/-- Every daemon knows what it is to expect. -/
theorem exists_getExpectedDir (c : Config) : ∀ level name, name ∈ dl c level →
    ∃ dir, getExpectedDir c level name = .ok dir
  | 0, name, h => by
    obtain ⟨i, hi⟩ := exists_idx h
    exact ⟨sets c name, by rw [getExpectedDir, hi]; rfl⟩
  | below + 1, name, h => by
    obtain ⟨i, hi⟩ := exists_idx h
    have hsub : share (dl c below) (nDist c below) i ⊆ dl c below := fun x hx =>
      List.mem_of_mem_drop (List.mem_of_mem_take hx)
    obtain ⟨dirs, hdirs⟩ := exists_mapM_ok_iff.mpr fun x hx =>
      exists_getExpectedDir c below x (hsub hx)
    exact ⟨dirs.flatten, by rw [getExpectedDir, getPrdcr_eq hi, ok_bind, hdirs]; rfl⟩

theorem exists_image {host : String} (hd : d ∈ getDaemons g.config host) :
    ∃ p, image g d = .ok p := by
  obtain ⟨-, hname, -⟩ := mem_getDaemons_iff.mp hd
  obtain ⟨dir, hdir⟩ := exists_getExpectedDir g.config d.level d.name hname
  exact ⟨_, by rw [image, getCmdline, hdir]; rfl⟩

theorem toList_cmdline (argv : List String) : (processOf argv).cmdline.toList =
    argv.flatMap fun arg => arg.toList ++ ['\x00'] := by
  rw [processOf, String.toList_join, List.flatMap_map]
  refine List.flatMap_congr fun arg _ => ?_
  rw [String.toList_append]
  rfl

theorem getLast?_cmdline (init : List String) (last : String) :
    (processOf (init ++ [last])).cmdline.toList.getLast? = some '\x00' := by
  rw [toList_cmdline, List.flatMap_append, List.flatMap_singleton, ← List.append_assoc,
    List.getLast?_concat]

/-- The arguments are in the command line. -/
theorem infix_cmdline {argv : List String} {arg : String} (h : arg ∈ argv) :
    arg.toList <:+: (processOf argv).cmdline.toList := by
  rw [toList_cmdline, List.flatMap_def]
  exact (List.prefix_append _ ['\x00']).isInfix.trans
    (List.infix_of_mem_flatten (List.mem_map_of_mem h))

theorem infix_confFile (host name : String) : name.toList <:+: (confFile host name).toList := by
  refine ⟨"conf/".toList ++ host.toList ++ "/".toList, ".conf".toList, ?_⟩
  simp only [confFile, String.toList_append]

/-- The command line of a daemon starts with its program, ends with a NUL, and has the name in
it. -/
theorem image_eq_ok (h : image g d = .ok p) : p.comm = "ldmsd\n" ∧
    p.cmdline.toList.head? = some 'l' ∧ p.cmdline.toList.getLast? = some '\x00' ∧
      d.name.toList <:+: p.cmdline.toList := by
  rw [image, getCmdline] at h
  obtain ⟨argv, hargv, h⟩ := exists_of_bind_ok h
  obtain ⟨dir, -, hargv⟩ := exists_of_bind_ok hargv
  cases hargv
  cases h
  refine ⟨rfl, ?_, ?_, ?_⟩
  · rw [toList_cmdline]
    rfl
  · exact getLast?_cmdline ["ldmsd", "-c", _, "-r", _, "-t", "-l", _, "-v", _, "-m"] _
  · have hconf : confFile (hostOf d.name) d.name ∈ ["ldmsd", "-c", confFile (hostOf d.name) d.name,
        "-r", pidFile (hostOf d.name) d.name, "-t", "-l", logFile (hostOf d.name) d.name, "-v",
        g.logLevel, "-m", toString (g.memPerSet * dir.length)] :=
      List.mem_cons_of_mem _ (List.mem_cons_of_mem _ List.mem_cons_self)
    exact (infix_confFile (hostOf d.name) d.name).trans (infix_cmdline hconf)

variable (F : Type) [PyText F]

theorem strip_comm : Val.strip F "ldmsd\n".toList = "ldmsd".toList := by
  have hspace : ∀ c : Char, c.toNat < 128 → isAsciiSpace c = false → PyRuntime.space F c = false :=
    fun c hc h => (PyText.space_ascii c hc).trans h
  have hblank : Text.rstrip F ['\n'] = [] := by
    refine Text.rstrip_eq_nil_iff.mpr fun c hc => ?_
    rw [List.mem_singleton.mp hc, PyText.space_ascii _ (by decide)]
    rfl
  rw [Text.strip_eq_rstrip fun c hc => by
    obtain rfl := Option.some_inj.mp hc
    exact hspace 'l' (by decide) rfl]
  rw [show "ldmsd\n".toList = "ldmsd".toList ++ ['\n'] from rfl, Text.rstrip_append, if_pos hblank]
  refine Text.rstrip_eq_self fun c hc => ?_
  obtain rfl := Option.some_inj.mp hc
  exact hspace 'd' (by decide) rfl

/-- **A daemon accepts a process that was started** if its name is in the command line. -/
theorem accepts_image {g : Setting} {d : Ldmsd} {p : Process} (h : image g d = .ok p)
    (name : String) : accepts F name p = cmdlineValidate name p.cmdline.toList := by
  obtain ⟨hcomm, hhead, hlast, -⟩ := image_eq_ok h
  have hcommValidate : commValidate (Val.strip F p.comm.toList) = true := by
    rw [hcomm, commValidate, strip_comm]
    rfl
  have hstrip : Val.strip F p.cmdline.toList = p.cmdline.toList := by
    refine Text.strip_eq_of_ends (fun c hc => ?_) fun c hc => ?_
    · obtain rfl := Option.some_inj.mp (hhead.symm.trans hc)
      rw [PyText.space_ascii _ (by decide)]
      rfl
    · obtain rfl := Option.some_inj.mp (hlast.symm.trans hc)
      rw [PyText.space_ascii _ (by decide)]
      rfl
  rw [accepts, hcommValidate, hstrip, Bool.true_and]

end Images

/-! ## The hosts, one at a time -/

section Simulation

variable (F : Type) [PyText F] (g : Setting) (host : String)

/-- **The daemons of a host**, and what they accept and are. -/
def keeper : PidFile.Keeper String Process where
  keys := {k | ∃ d ∈ getDaemons g.config host, d.name = k}
  accepts := accepts F
  image k p := ∃ d ∈ getDaemons g.config host, d.name = k ∧ image g d = .ok p
  mem_keys := fun ⟨d, hd, hname, _⟩ => ⟨d, hd, hname⟩
  accepts_image := by
    rintro k p ⟨d, -, rfl, hp⟩
    rw [accepts_image F hp]
    exact decide_eq_true (image_eq_ok hp).2.2.2
  exists_image := by
    rintro k ⟨d, hd, rfl⟩
    obtain ⟨p, hp⟩ := exists_image hd
    exact ⟨p, d, hd, rfl, hp⟩

/-- The number in the pid file of a daemon of the host. -/
def numberIn (files : String → Option String) (k : String) : Option ℤ :=
  if ∃ d ∈ getDaemons g.config host, d.name = k then
    ((files (pidFile host k)).bind (pidIn F)).filter (· ≠ 0)
  else none

/-- What a host is for `PidFile`. -/
def abs (s : Site) : PidFile.State String Process :=
  ⟨s.host.proc, s.owner, numberIn F g host s.host.files⟩

variable {F g host}

theorem hostOf_of_mem {d : Ldmsd} (hd : d ∈ getDaemons g.config host) : hostOf d.name = host :=
  (mem_getDaemons_iff.mp hd).2.2

/-- **`getpid` finds** what `PidFile` finds. -/
theorem find_abs {s : Site} {d : Ldmsd} (hd : d ∈ getDaemons g.config host) :
    PidFile.find (keeper F g host) (abs F g host s) d.name = running F s.host d.name := by
  have hkey : ∃ d' ∈ getDaemons g.config host, d'.name = d.name := ⟨d, hd, rfl⟩
  rw [PidFile.find, running, getpid, hostOf_of_mem hd]
  show Option.filter _ (numberIn F g host s.host.files d.name) = _
  rw [numberIn, if_pos hkey]
  cases s.host.files (pidFile host d.name) with
  | none => rfl
  | some text =>
    rw [Option.bind_some, Option.bind_some]
    cases pidIn F text with
    | none => rfl
    | some pid =>
      rw [Option.bind_some]
      show Option.filter (fun pid => (s.host.proc pid).any (accepts F d.name)) _ = _
      cases hproc : s.host.proc pid with
      | none =>
        by_cases hpid : pid = 0
        · simp [Option.filter, hpid]
        · simp [Option.filter, hpid, hproc]
      | some p =>
        by_cases hpid : pid = 0 <;> by_cases haccepts : accepts F d.name p = true <;>
          simp [Option.filter, hpid, hproc, haccepts]

/-- A file that is no pid file of the host is not looked at. -/
theorem numberIn_congr {files files' : String → Option String} {k : String}
    (h : files (pidFile host k) = files' (pidFile host k)) :
    numberIn F g host files k = numberIn F g host files' k := by
  rw [numberIn, numberIn, h]

theorem numberIn_update {files files' : String → Option String} {d : Ldmsd}
    (hd : d ∈ getDaemons g.config host)
    (hothers : ∀ k, k ≠ d.name → files' (pidFile host k) = files (pidFile host k)) :
    numberIn F g host files' = Function.update (numberIn F g host files) d.name
      (((files' (pidFile host d.name)).bind (pidIn F)).filter (· ≠ 0)) := by
  funext k
  by_cases hk : k = d.name
  · subst hk
    rw [Function.update_self, numberIn, if_pos ⟨d, hd, rfl⟩]
  · rw [Function.update_of_ne hk]
    exact numberIn_congr (hothers k hk)

/-- What a host is for `PidFile` when a daemon has been started. -/
theorem abs_launch {s : Site} {d : Ldmsd} (hd : d ∈ getDaemons g.config host) {pid : ℤ}
    (hpid : pid ≠ 0) {text : String} (htext : pidIn F text = some pid) {p : Process}
    (hp : image g d = .ok p) {H : Host} (hlaunch : launch g s.host d pid text = .ok H) :
    abs F g host ⟨H, Function.update s.owner pid (some d.name)⟩ =
      ⟨Function.update s.host.proc pid (some p), Function.update s.owner pid (some d.name),
        Function.update (numberIn F g host s.host.files) d.name (some pid)⟩ := by
  rw [launch, hp, ok_bind] at hlaunch
  cases hlaunch
  have hnumber : numberIn F g host (Function.update (Function.update s.host.files
      (confFile (hostOf d.name) d.name) (some (g.configText d))) (pidFile (hostOf d.name) d.name)
      (some text)) = Function.update (numberIn F g host s.host.files) d.name (some pid) := by
    rw [hostOf_of_mem hd, numberIn_update hd fun k hk => ?_]
    · rw [Function.update_self, Option.bind_some, htext]
      congr 1
      simp [Option.filter, hpid]
    · rw [Function.update_of_ne fun h => hk (pidFile_inj h),
        Function.update_of_ne (pidFile_ne_confFile _ _ _ _)]
  rw [abs, hnumber]

/-- What a host is for `PidFile` when a pid file has been removed. -/
theorem abs_unlink {s : Site} {d : Ldmsd} (hd : d ∈ getDaemons g.config host) :
    abs F g host ⟨⟨s.host.proc, Function.update s.host.files (pidFile (hostOf d.name) d.name) none⟩,
        s.owner⟩ =
      ⟨s.host.proc, s.owner, Function.update (numberIn F g host s.host.files) d.name none⟩ := by
  have hnumber : numberIn F g host (Function.update s.host.files (pidFile (hostOf d.name) d.name)
      none) = Function.update (numberIn F g host s.host.files) d.name none := by
    rw [hostOf_of_mem hd,
      numberIn_update hd fun k hk => Function.update_of_ne (fun h => hk (pidFile_inj h)) _ _,
      Function.update_self]
    rfl
  rw [abs, hnumber]

/-- What a host is for `PidFile` when a daemon has been cleaned up. -/
theorem abs_cleanup {s : Site} {d : Ldmsd} (hd : d ∈ getDaemons g.config host)
    (hnone : running F s.host d.name = none) {H : Host} (h : cleanup F s.host d.name = .ok H) :
    abs F g host ⟨H, s.owner⟩ =
      ⟨s.host.proc, s.owner, Function.update (numberIn F g host s.host.files) d.name none⟩ := by
  rw [cleanup, hnone, hostOf_of_mem hd] at h
  cases h
  have hothers : ∀ k, k ≠ d.name →
      pidFile host k ∉ [confFile host d.name, pidFile host d.name, logFile host d.name] := by
    intro k hk hmem
    rcases List.mem_cons.mp hmem with h | hmem
    · exact pidFile_ne_confFile _ _ _ _ h
    rcases List.mem_cons.mp hmem with h | hmem
    · exact hk (pidFile_inj h)
    · exact pidFile_ne_logFile _ _ _ _ (List.mem_singleton.mp hmem)
  have hnumber : numberIn F g host (fun f => if f ∈ [confFile host d.name, pidFile host d.name,
      logFile host d.name] then none else s.host.files f) =
      Function.update (numberIn F g host s.host.files) d.name none := by
    rw [numberIn_update hd fun k hk => if_neg (hothers k hk),
      if_pos (List.mem_cons_of_mem _ List.mem_cons_self)]
    rfl
  rw [abs, hnumber]

/-- Nothing is cleaned up while it runs. -/
theorem running_of_cleanup {H H' : Host} {name : String} (h : cleanup F H name = .ok H') :
    running F H name = none := by
  cases hnone : running F H name with
  | none => rfl
  | some pid =>
    rw [cleanup, hnone] at h
    cases h

/-- **One step on a host** is one of `PidFile`. -/
theorem abs_step {s s' : Site} (h : SiteStep F g host s s') :
    PidFile.Step (keeper F g host) (abs F g host s) (abs F g host s') := by
  cases h with
  | @start d pid text H hd hnone hfree hpid htext hstart =>
    rw [start, hnone] at hstart
    obtain ⟨p, hp⟩ := exists_image hd
    rw [abs_launch hd hpid htext hp hstart]
    exact .start ((find_abs hd).trans hnone) hfree hpid ⟨d, hd, rfl, hp⟩
  | exit pid => exact .exit pid
  | @unlink d hd hnone =>
    rw [abs_unlink hd]
    exact .unlink ((find_abs hd).trans hnone)
  | @cleanup d H hd hcleanup =>
    have hnone := running_of_cleanup hcleanup
    rw [abs_cleanup hd hnone hcleanup]
    exact .unlink ((find_abs hd).trans hnone)
  | other hfree hother => exact .other hfree fun k ⟨d, hd, hk⟩ => hk ▸ hother d hd

/-- **One host** goes through a run of `PidFile` when all of them go through a run. -/
theorem abs_run {w w' : String → Site} (h : Relation.ReflTransGen (Step F g) w w') (host : String) :
    Relation.ReflTransGen (PidFile.Step (keeper F g host)) (abs F g host (w host))
      (abs F g host (w' host)) := by
  induction h with
  | refl => exact .refl
  | @tail w₁ w₂ _ hstep ih =>
    cases hstep with
    | @on s host' hstep =>
      by_cases hhost : host = host'
      · subst hhost
        rw [Function.update_self]
        exact ih.tail (abs_step hstep)
      · rw [Function.update_of_ne hhost]
        exact ih

theorem Start.abs {w : String → Site} (h : Start F g w) (host : String) :
    PidFile.Start (keeper F g host) (abs F g host (w host)) where
  owner := h.owner host
  other := fun hp _ ⟨d, hd, hk⟩ => hk ▸ h.other hp d hd

/-- **A step of `PidFile`** is what may happen on the host. -/
theorem exists_of_abs_step {s : Site} {t : PidFile.State String Process}
    (h : PidFile.Step (keeper F g host) (abs F g host s) t) :
    ∃ s', Relation.ReflTransGen (SiteStep F g host) s s' ∧ Scalability.abs F g host s' = t := by
  cases h with
  | @start k pid p hfind hfree hpid himage =>
    obtain ⟨d, hd, rfl, hp⟩ := himage
    have hnone := (find_abs hd).symm.trans hfind
    have htext : pidIn F (String.ofList (Text.decimal pid)) = some pid := by
      rw [pidIn, String.toList_ofList]
      exact Text.intSigned_decimal pid
    obtain ⟨H, hlaunch⟩ : ∃ H, launch g s.host d pid (String.ofList (Text.decimal pid)) = .ok H :=
      ⟨_, by rw [launch, hp]; rfl⟩
    refine ⟨_, .single (.start hd hnone hfree hpid htext ?_), abs_launch hd hpid htext hp hlaunch⟩
    rw [start, hnone, hlaunch]
  | exit pid => exact ⟨_, .single (.exit pid), rfl⟩
  | @unlink k hfind =>
    by_cases hk : ∃ d ∈ getDaemons g.config host, d.name = k
    · obtain ⟨d, hd, rfl⟩ := hk
      exact ⟨_, .single (.unlink hd ((find_abs hd).symm.trans hfind)), abs_unlink hd⟩
    · -- this is no file of the host
      refine ⟨s, .refl, ?_⟩
      have hnone : numberIn F g host s.host.files k = none := if_neg hk
      have hsame : Function.update (numberIn F g host s.host.files) k none =
          numberIn F g host s.host.files := by
        rw [← hnone]
        exact Function.update_eq_self _ _
      show _ = PidFile.State.mk s.host.proc s.owner
        (Function.update (numberIn F g host s.host.files) k none)
      rw [hsame]
      rfl
  | @other pid p hfree hother =>
    exact ⟨_, .single (.other hfree fun d hd => hother d.name ⟨d, hd, rfl⟩), rfl⟩

/-- **A run of `PidFile`** is what may happen on the host. -/
theorem exists_of_abs_run {s : Site} {t : PidFile.State String Process}
    (h : Relation.ReflTransGen (PidFile.Step (keeper F g host)) (abs F g host s) t) :
    ∃ s', Relation.ReflTransGen (SiteStep F g host) s s' ∧ abs F g host s' = t := by
  induction h with
  | refl => exact ⟨s, .refl, rfl⟩
  | tail _ hstep ih =>
    obtain ⟨s₁, hrun, rfl⟩ := ih
    obtain ⟨s', hrun', habs⟩ := exists_of_abs_step hstep
    exact ⟨s', hrun.trans hrun', habs⟩

/-- What happens on one host, while nothing happens on the others. -/
theorem run_on {w : String → Site} {s : Site} (h : Relation.ReflTransGen (SiteStep F g host) (w host) s) :
    Relation.ReflTransGen (Step F g) w (Function.update w host s) := by
  induction h with
  | refl =>
    rw [Function.update_eq_self]
  | @tail s₁ s₂ _ hstep ih =>
    have hon : Step F g (Function.update w host s₁)
        (Function.update (Function.update w host s₁) host s₂) :=
      .on host (by rwa [Function.update_self])
    rw [Function.update_idem] at hon
    exact ih.tail hon

end Simulation

/-! ## When the right process is found -/

section Right

variable (F : Type) [PyText F] (g : Setting)

/-- **What `getpid` finds** is what was started for the daemon, as long as it runs. -/
def Right (w : String → Site) : Prop :=
  ∀ host, ∀ d ∈ getDaemons g.config host, ∀ pid,
    running F (w host).host d.name = some pid ↔ (w host).owner pid = some d.name

/-- No process runs, and there are no files. -/
def idle : String → Site :=
  fun _ => ⟨⟨fun _ => none, fun _ => none⟩, fun _ => none⟩

variable {F g}

theorem start_idle : Start F g idle :=
  ⟨fun _ _ => rfl, nofun⟩

theorem abs_idle (host : String) : abs F g host (idle host) = PidFile.idle := by
  have hnumber : numberIn F g host (fun _ => none) = fun _ => none := by
    funext k
    rw [numberIn]
    split <;> rfl
  rw [abs, idle, hnumber]
  rfl

theorem right_iff_abs {w : String → Site} :
    Right F g w ↔ ∀ host, PidFile.Right (keeper F g host) (abs F g host (w host)) := by
  refine forall_congr' fun host => ⟨fun h => ?_, fun h d hd pid => ?_⟩
  · rintro k ⟨d, hd, rfl⟩ pid
    rw [find_abs hd]
    exact h d hd pid
  · rw [← find_abs hd]
    exact h d.name ⟨d, hd, rfl⟩ pid

variable (F) in
theorem apart_iff : Apart g ↔ ∀ host, (keeper F g host).Apart := by
  refine forall_congr' fun host => ⟨fun h => ?_, fun h d hd d' hd' p hp hvalid => ?_⟩
  · rintro k ⟨d, hd, rfl⟩ k' p ⟨d', hd', rfl, hp⟩ haccepts
    exact h d hd d' hd' p hp ((accepts_image F hp d.name).symm.trans haccepts)
  · exact h d.name ⟨d, hd, rfl⟩ d'.name p ⟨d', hd', rfl, hp⟩ ((accepts_image F hp d.name).trans hvalid)

/-- **When the daemons are told apart**, the right process is found whatever happens. -/
theorem right_of_apart (h : Apart g) {w : String → Site} (hw : Reachable F g w) : Right F g w := by
  obtain ⟨w₀, hstart, hrun⟩ := hw
  refine right_iff_abs.mpr fun host => ?_
  have hapart := (apart_iff F).mp h host
  exact PidFile.right_iff.mpr hapart _ _ (hstart.abs host) (abs_run hrun host)

/-- **When they are not**, a daemon may be taken for another one. -/
theorem exists_mistaken (h : ¬ Apart g) : ∃ (w : String → Site) (host : String),
    ∃ d ∈ getDaemons g.config host, ∃ pid name, Reachable F g w ∧
      running F (w host).host d.name = some pid ∧ (w host).owner pid = some name ∧
        name ≠ d.name := by
  obtain ⟨host, h⟩ := not_forall.mp fun hall => h ((apart_iff F).mpr hall)
  rw [PidFile.Keeper.Apart] at h
  push Not at h
  obtain ⟨k, ⟨d, hd, rfl⟩, k', p, hp, haccepts, hne⟩ := h
  obtain ⟨q, hq⟩ := exists_image hd
  have himage : (keeper F g host).image d.name q := ⟨d, hd, rfl, hq⟩
  obtain ⟨t, hrun, howner, hfind⟩ :=
    PidFile.exists_not_right hne himage hp haccepts Int.one_ne_zero
  have habs : abs F g host (idle host) = PidFile.idle := abs_idle host
  rw [← habs] at hrun
  obtain ⟨s, hsite, rfl⟩ := exists_of_abs_run hrun
  have hreach : Reachable F g (Function.update idle host s) :=
    ⟨idle, start_idle, run_on hsite⟩
  refine ⟨Function.update idle host s, host, d, hd, 1, k', hreach, ?_⟩
  rw [Function.update_self]
  exact ⟨(find_abs hd).symm.trans hfind, howner, hne.symm⟩

end Right

end Scalability
end LdmsTest
