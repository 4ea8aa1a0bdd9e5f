import LdmsTest.Docker.Create
import LdmsTest.Python.Builtins
import LdmsTest.Python.Equality

/-!
# Starting `munged`

A container can run a `munged` for each authentication domain.  `start_munged` looks for the
daemon of the domain in the spec of the node to get its key.  It takes the first daemon that has
the asked name or, if no name is asked for, the asked domain.

Not every daemon has a name or a domain, and `get` gives `None` for what is missing.

* `Munged`, `findDaemon`, `mungedHandle`, `startMunged`: the class and the methods of the source.
* `Hit`: what stops the search when no name is asked for.
* `startsMunged_iff`: when the `munged` of a domain is started with the key of its daemon.
-/

namespace LdmsTest
namespace Munge

open SCluster (iterate)
open Val (Fields)

variable {F W : Type} [FloatEq F] [DecidableEq F]

/-! ## `Munged` -/

/-- What a container is to do. -/
class ContainerHost (F W : Type) where
  execRun : String → W → Except PyError ((ℤ × String) × W)
  writeFile : String → Val F → W → Except PyError W

structure Munged (F : Type) where
  dom : Val F
  key : Val F
  keyFile : String
  pidFile : String
  sockFile : String

omit [DecidableEq F] in
def Munged.init (dom key : Val F) : Munged F :=
  if dom.truthy then
    { dom := dom
      key := key
      keyFile := "/munge/" ++ dom.toStr ++ "/key"
      pidFile := "/munge/" ++ dom.toStr ++ "/pid"
      sockFile := "/munge/" ++ dom.toStr ++ "/sock" }
  else
    { dom := dom
      key := key
      keyFile := "/etc/munge/munge.key"
      pidFile := "/run/munge/munged.pid"
      sockFile := "/run/munge/munge.socket.2" }

section Host

variable (F) [ContainerHost F W]

/-- Steps in the container. -/
abbrev Exec (W : Type) := StateT W (Except PyError)

def execRun (cmd : String) : Exec W (ℤ × String) :=
  fun w => ContainerHost.execRun F cmd w

def writeFile (path : String) (content : Val F) : Exec W Unit :=
  fun w => (ContainerHost.writeFile path content w).map fun w => ((), w)

/-- What `chmod` and `chown` do with their command. -/
def execChecked (cmd : String) : Exec W Unit := do
  let (rc, output) ← execRun F cmd
  if rc ≠ 0 then throw ⟨.runtimeError, "Error " ++ toString rc ++ " " ++ output⟩

def chmod (mode path : String) : Exec W Unit :=
  execChecked F ("chmod " ++ mode ++ " " ++ path)

def chown (owner path : String) : Exec W Unit :=
  execChecked F ("chown " ++ owner ++ " " ++ path)

variable {F} (self : Munged F)

namespace Munged

def prepDom : Exec W Unit := do
  let dir := if self.dom.truthy then "/munge/" ++ self.dom.toStr else "/run/munge"
  let (rc, out) ← execRun F ("mkdir -m 0755 -p " ++ dir)
  if rc ≠ 0 then
    throw ⟨.runtimeError, "Cannot create directory '" ++ dir ++ "', rc: " ++ toString rc ++
      ", out: " ++ out⟩
  chown F "munge:munge" dir

/-- The end of `_prep_key_file`. -/
def writeKey (key : Val F) : Exec W Unit := do
  writeFile F self.keyFile key
  chmod F "600" self.keyFile
  chown F "munge:munge" self.keyFile

def prepKeyFile : Exec W Unit := do
  if self.key.truthy then self.writeKey self.key
  else
    let (rc, _) ← execRun F ("ls " ++ self.keyFile)
    if rc = 0 then chown F "munge:munge" self.keyFile
    else self.writeKey (.str (String.ofList (List.replicate 4096 '0')))

def getPid : Exec W (Option ℤ) := do
  let (rc, out) ← execRun F ("cat " ++ self.pidFile)
  if rc ≠ 0 then pure none
  else some <$> (Val.intOf (.str out : Val F) : Except PyError ℤ)

def isRunning : Exec W Bool := do
  match ← self.getPid with
  | none | some 0 => pure false
  | some pid =>
    let (rc, _) ← execRun F ("ps -p " ++ toString pid)
    pure (rc = 0)

def start : Exec W Unit := do
  if ← self.isRunning then pure ()
  else
    let (rc, _) ← execRun F "munged --help | grep pid-file"
    let hasPidfile : Bool := rc = 0
    self.prepDom
    self.prepKeyFile
    let cmd := if self.dom.truthy then
        "munged" ++ " -S " ++ self.sockFile ++ " --key-file " ++ self.keyFile ++
          (if hasPidfile then " --pid-file " ++ self.pidFile else "")
      else "munged"
    let cmd := "su -s /bin/bash munge -c '" ++ cmd ++ "'"
    let (rc, out) ← execRun F cmd
    if rc ≠ 0 then
      throw ⟨.runtimeError, "`" ++ cmd ++ "` error, rc: " ++ toString rc ++ ", out: " ++ out⟩

end Munged

end Host

/-! ## `start_munged` -/

/-- What `start_munged` uses of an `LDMSDContainer`. -/
structure LDMSDContainer (F : Type) where
  spec : Val F
  munged : Dict (Key F) (Munged F)

def getMunged (self : LDMSDContainer F) (dom : Val F) : Except PyError (Option (Munged F)) := do
  let k ← dom.keyOf
  pure (Dict.get? self.munged k)

def setMunged (self : LDMSDContainer F) (dom : Val F) (m : Munged F) :
    Except PyError (LDMSDContainer F) := do
  let k ← dom.keyOf
  pure { self with munged := Dict.set self.munged k m }

omit [DecidableEq F] in
/-- The loop of `start_munged`: the daemon at which it breaks. -/
def findDaemon (name dom : Val F) : List (Val F) → Except PyError (Option (Fields F))
  | [] => pure none
  | .dict d :: ds =>
    if name.eq (Val.get d "name" .none) then pure (some d)
    else if !name.truthy && dom.eq (Val.get d "dom" .none) then pure (some d)
    else findDaemon name dom ds
  | v :: _ => throw ⟨.attributeError, "'" ++ v.typeName ++ "' object has no attribute 'get'"⟩

/-- `start_munged`, up to `m.start()` -/
def mungedHandle (self : LDMSDContainer F) (name dom key : Val F) :
    Except PyError (Munged F × LDMSDContainer F) := do
  match ← getMunged self dom with
  | some m => pure (m, self)
  | none =>
    let daemons ← self.spec.subscript "daemons"
    let daemons ← iterate daemons
    let d := (← findDaemon name dom daemons).getD [("dom", dom), ("key", key)]
    let key := if key.truthy then key else Val.get d "key" .none
    let dom := if dom.truthy then dom else Val.get d "dom" .none
    let m := Munged.init dom key
    let self ← setMunged self dom m
    pure (m, self)

def startMunged [ContainerHost F W] (self : LDMSDContainer F) (name dom key : Val F) :
    Exec W (LDMSDContainer F) := do
  let (m, self) ← (mungedHandle self name dom key : Except PyError _)
  m.start
  pure self

/-! ## Finding the daemon -/

/-- The `munged` daemon of a domain, with its key. -/
def IsMunged (dom K : Val F) (d : Fields F) : Prop :=
  Val.get d "type" .none = .str "munged" ∧ Val.get d "dom" .none = dom ∧
    Val.get d "key" .none = K

/-- **What stops the search** when no name is asked for: a daemon without a name, or with the asked
domain. -/
def Hit (dom : Val F) (d : Fields F) : Prop :=
  Val.get d "name" .none = .none ∨ Val.get d "dom" .none = dom

/-- The argument for a domain, or for none. -/
def domArg (dom : Option String) : Val F :=
  dom.elim .none .str

/-- **`start_munged(dom=dom)` starts a `Munged` with this domain and this key**, on a container
without handles: what it does there is to start this `Munged`, and it keeps it for the domain. -/
def StartsMunged (spec dom K : Val F) : Prop :=
  ∃ self, setMunged ⟨spec, []⟩ dom (Munged.init dom K) = .ok self ∧
    ∀ (W : Type) [ContainerHost F W] (w : W),
      startMunged ⟨spec, []⟩ .none dom .none w =
        ((Munged.init dom K).start w).map fun r => (self, r.2)

omit [DecidableEq F] in
theorem eq_domArg_iff (dom : Option String) {v : Val F} :
    (domArg dom).eq v = true ↔ v = domArg dom := by
  cases dom with
  | none => cases v <;> simp [domArg, Val.eq, Val.integral]
  | some s =>
    cases v with
    | str t =>
      rw [domArg, Option.elim_some, Val.eq, beq_iff_eq, Val.str.injEq]
      exact eq_comm
    | none | bool | int | float | list | tuple | dict => simp [domArg, Val.eq, Val.integral]

omit [DecidableEq F] in
theorem eq_none_iff {v : Val F} : Val.eq .none v = true ↔ v = .none :=
  eq_domArg_iff none

omit [DecidableEq F] in
/-- **The daemon that is found** is the first hit. -/
theorem findDaemon_eq {dom : Option String} {d : Fields F} {after : List (Fields F)}
    (hd : Hit (domArg dom) d) : ∀ {before : List (Fields F)},
      (∀ e ∈ before, ¬ Hit (domArg dom) e) →
        findDaemon .none (domArg dom) ((before ++ d :: after).map .dict) = .ok (some d)
  | [], _ => by
    rw [List.nil_append, List.map_cons, findDaemon]
    by_cases hname : Val.get d "name" .none = .none
    · rw [if_pos (eq_none_iff.mpr hname)]
      rfl
    · rw [if_neg fun h => hname (eq_none_iff.mp h)]
      have hdom := (eq_domArg_iff dom).mpr (hd.resolve_left hname)
      rw [if_pos (by rw [hdom]; rfl)]
      rfl
  | e :: before, hbefore => by
    obtain ⟨he, hbefore⟩ := List.forall_mem_cons.mp hbefore
    rw [List.cons_append, List.map_cons, findDaemon,
      if_neg fun h => he (Or.inl (eq_none_iff.mp h)),
      if_neg fun h => he (Or.inr ((eq_domArg_iff dom).mp (Bool.and_eq_true_iff.mp h).2))]
    exact findDaemon_eq hd hbefore

omit [FloatEq F] [DecidableEq F] in
/-- The hits of a list have a first one. -/
theorem exists_first_hit {dom : Val F} : ∀ {daemons : List (Fields F)},
    (∃ d ∈ daemons, Hit dom d) → ∃ before d after, daemons = before ++ d :: after ∧
      (∀ e ∈ before, ¬ Hit dom e) ∧ Hit dom d
  | [], ⟨_, hd, _⟩ => absurd hd List.not_mem_nil
  | e :: daemons, ⟨d, hmem, hd⟩ => by
    by_cases he : Hit dom e
    · exact ⟨[], e, daemons, rfl, fun _ h => absurd h List.not_mem_nil, he⟩
    · have hmem := (List.mem_cons.mp hmem).resolve_left (by rintro rfl; exact he hd)
      obtain ⟨before, d, after, rfl, hbefore, hd⟩ := exists_first_hit ⟨d, hmem, hd⟩
      exact ⟨e :: before, d, after, rfl, List.forall_mem_cons.mpr ⟨he, hbefore⟩, hd⟩

omit [DecidableEq F] in
theorem Munged.init_inj {dom dom' key key' : Val F}
    (h : Munged.init dom key = Munged.init dom' key') : dom = dom' ∧ key = key' := by
  have hdom : ∀ dom key : Val F, (Munged.init dom key).dom = dom := by
    intro dom key
    rw [Munged.init]
    split <;> rfl
  have hkey : ∀ dom key : Val F, (Munged.init dom key).key = key := by
    intro dom key
    rw [Munged.init]
    split <;> rfl
  rw [← hdom dom key, h, hdom, ← hkey dom key, h, hkey]
  exact ⟨rfl, rfl⟩

/-- The domain of the handle that is made for a daemon. -/
def takenDom (dom : Option String) (d : Fields F) : Val F :=
  if (domArg dom : Val F).truthy then domArg dom else Val.get d "dom" .none

omit [DecidableEq F] in
theorem takenDom_eq_iff {dom : Option String} {d : Fields F} :
    takenDom dom d = domArg dom ↔
      (∃ s, dom = some s ∧ s ≠ "") ∨ Val.get d "dom" .none = domArg dom := by
  have htruthy : (domArg dom : Val F).truthy ↔ ∃ s, dom = some s ∧ s ≠ "" := by
    cases dom with
    | none => simp [domArg, Val.truthy]
    | some s => simp [domArg, Val.truthy]
  rw [takenDom, ← htruthy]
  split
  · next h => exact iff_of_true rfl (Or.inl h)
  · next h => exact ⟨Or.inr, fun hor => hor.resolve_left h⟩

/-- What `start_munged` makes of the first hit. -/
theorem mungedHandle_eq {spec : Fields F} {before after : List (Fields F)} {d : Fields F}
    (hspec : Dict.get? spec "daemons" = some (.list ((before ++ d :: after).map .dict)))
    {dom : Option String} (hbefore : ∀ e ∈ before, ¬ Hit (domArg dom) e)
    (hd : Hit (domArg dom) d) :
    mungedHandle ⟨.dict spec, []⟩ .none (domArg dom) .none =
      (setMunged ⟨.dict spec, []⟩ (takenDom dom d)
        (Munged.init (takenDom dom d) (Val.get d "key" .none))).map fun self =>
          (Munged.init (takenDom dom d) (Val.get d "key" .none), self) := by
  have hget : getMunged ⟨.dict spec, []⟩ (domArg dom : Val F) = .ok none := by
    cases dom <;> rfl
  have hdaemons : Val.subscript (.dict spec) "daemons" =
      .ok (.list ((before ++ d :: after).map .dict)) := Val.getItem_eq_ok_iff.mpr hspec
  have hfound : findDaemon .none (domArg dom) ((before ++ d :: after).map .dict) =
      .ok (some d) := findDaemon_eq hd hbefore
  rw [mungedHandle, hget, ok_bind]
  dsimp only
  rw [hdaemons, ok_bind, iterate, pure_bind, hfound, ok_bind, Option.getD_some]
  rfl

theorem startMunged_eq [ContainerHost F W] {self : LDMSDContainer F} {name dom key : Val F}
    (w : W) : startMunged self name dom key w =
      mungedHandle self name dom key >>= fun r => (r.1.start w).map fun s => (r.2, s.2) := by
  unfold startMunged
  cases mungedHandle self name dom key with
  | error e => rfl
  | ok r =>
    change (r.1.start w >>= fun s => Except.ok (r.2, s.2)) = (r.1.start w).map _
    cases r.1.start w <;> rfl

/-- **What `start_munged` does with the first hit.** -/
theorem startMunged_of_hit [ContainerHost F W] {spec : Fields F} {before after : List (Fields F)}
    {d : Fields F}
    (hspec : Dict.get? spec "daemons" = some (.list ((before ++ d :: after).map .dict)))
    {dom : Option String} (hbefore : ∀ e ∈ before, ¬ Hit (domArg dom) e)
    (hd : Hit (domArg dom) d) (w : W) :
    startMunged ⟨.dict spec, []⟩ .none (domArg dom) .none w =
      setMunged ⟨.dict spec, []⟩ (takenDom dom d)
        (Munged.init (takenDom dom d) (Val.get d "key" .none)) >>= fun self =>
          ((Munged.init (takenDom dom d) (Val.get d "key" .none)).start w).map fun r =>
            (self, r.2) := by
  rw [startMunged_eq, mungedHandle_eq hspec hbefore hd]
  cases setMunged ⟨.dict spec, []⟩ (takenDom dom d)
    (Munged.init (takenDom dom d) (Val.get d "key" .none)) <;> rfl

/-- The handle that is kept is the one that was set. -/
theorem setMunged_inj {spec dom dom' : Val F} {m m' : Munged F} {self : LDMSDContainer F}
    (h : setMunged ⟨spec, []⟩ dom m = .ok self) (h' : setMunged ⟨spec, []⟩ dom' m' = .ok self) :
    m = m' := by
  obtain ⟨k, _, h⟩ := exists_of_bind_ok h
  obtain ⟨k', _, h'⟩ := exists_of_bind_ok h'
  have hmunged := congrArg LDMSDContainer.munged (Except.ok.inj (h.trans h'.symm))
  obtain ⟨heq, _⟩ := List.cons_eq_cons.mp hmunged
  exact congrArg Prod.snd heq

/-- A container where the first command, which looks for the pid file, fails, and all others
succeed. -/
inductive Obliging where
  | fresh : Obliging
  | used : Obliging

instance : ContainerHost F Obliging where
  execRun
    | _, .fresh => .ok ((1, ""), .used)
    | _, .used => .ok ((0, ""), .used)
  writeFile _ _ w := .ok w

omit [FloatEq F] [DecidableEq F] in
theorem exec_bind {α β : Type} {x : Exec W α} {f : α → Exec W β} {w w' : W} {a : α}
    (h : x w = .ok (a, w')) : (x >>= f) w = f a w' := by
  change (x w >>= fun p => f p.1 p.2) = _
  rw [h, ok_bind]

theorem Munged.start_fresh (m : Munged F) : m.start Obliging.fresh = .ok ((), Obliging.used) := by
  have hrunning : m.isRunning Obliging.fresh = .ok (false, Obliging.used) := rfl
  have hdom : m.prepDom Obliging.used = .ok ((), Obliging.used) := rfl
  have hkey : m.prepKeyFile Obliging.used = .ok ((), Obliging.used) := by
    unfold prepKeyFile
    cases m.key.truthy <;> rfl
  have hrun (cmd : String) :
      execRun F cmd Obliging.used = .ok ((0, ""), Obliging.used) := rfl
  unfold start
  rw [exec_bind hrunning, if_neg Bool.false_ne_true, exec_bind (hrun _)]
  dsimp only
  rw [exec_bind hdom, exec_bind hkey, exec_bind (hrun _)]
  rfl

/-- The `Munged` that is started is that of the first hit. -/
theorem StartsMunged.of_hit {spec : Fields F} {before after : List (Fields F)} {d : Fields F}
    (hspec : Dict.get? spec "daemons" = some (.list ((before ++ d :: after).map .dict)))
    {dom : Option String} {K : Val F} (h : StartsMunged (.dict spec) (domArg dom) K)
    (hbefore : ∀ e ∈ before, ¬ Hit (domArg dom) e) (hd : Hit (domArg dom) d) :
    takenDom dom d = domArg dom ∧ Val.get d "key" .none = K := by
  obtain ⟨self, hset, hruns⟩ := h
  -- Where every `Munged` starts, the one that is kept tells which it was.
  have hrun := hruns Obliging .fresh
  rw [startMunged_of_hit hspec hbefore hd] at hrun
  simp only [Munged.start_fresh] at hrun
  obtain ⟨self', hset', hrun⟩ := exists_of_bind_ok hrun
  obtain rfl : self' = self := congrArg Prod.fst (Except.ok.inj hrun)
  exact Munged.init_inj (setMunged_inj hset' hset)

/-- **Which `munged` is started.**  That of the domain with the key of its daemon exactly if the
first daemon without a name or with the domain has this key, and the domain unless the asked one is
a non-empty string. -/
theorem startsMunged_iff {spec : Fields F} {daemons : List (Fields F)}
    (hspec : Dict.get? spec "daemons" = some (.list (daemons.map .dict))) {dom : Option String}
    {K : Val F} (hmunged : ∃ d ∈ daemons, IsMunged (domArg dom) K d) :
    StartsMunged (.dict spec) (domArg dom) K ↔
      ∃ before d after, daemons = before ++ d :: after ∧
        (∀ e ∈ before, ¬ Hit (domArg dom) e) ∧ Hit (domArg dom) d ∧
          Val.get d "key" .none = K ∧
            ((∃ s, dom = some s ∧ s ≠ "") ∨ Val.get d "dom" .none = domArg dom) := by
  constructor
  · intro h
    obtain ⟨m, hm, -, hdom, -⟩ := hmunged
    obtain ⟨before, d, after, rfl, hbefore, hd⟩ := exists_first_hit ⟨m, hm, Or.inr hdom⟩
    obtain ⟨hdom, hkey⟩ := h.of_hit hspec hbefore hd
    exact ⟨before, d, after, rfl, hbefore, hd, hkey, takenDom_eq_iff.mp hdom⟩
  · rintro ⟨before, d, after, rfl, hbefore, hd, hkey, hdom⟩
    have hkept : ∃ self, setMunged ⟨.dict spec, []⟩ (domArg dom : Val F)
        (Munged.init (domArg dom) K) = .ok self := by
      cases dom <;> exact ⟨_, rfl⟩
    obtain ⟨self, hself⟩ := hkept
    refine ⟨self, hself, fun W _ w => ?_⟩
    rw [startMunged_of_hit hspec hbefore hd, takenDom_eq_iff.mpr hdom, hkey, hself, ok_bind]

/-! ## Two nodes -/

def sshd : Fields Json.SampleFloat :=
  [("name", .str "sshd"), ("type", .str "sshd")]

def munged (dom : Option String) : Fields Json.SampleFloat :=
  [("name", .str "munged"), ("type", .str "munged"), ("dom", domArg dom), ("key", .str "K")]

def node (daemons : List (Fields Json.SampleFloat)) : Fields Json.SampleFloat :=
  [("hostname", .str "node-1"), ("daemons", .list (daemons.map .dict))]

/-- An `sshd`, which has no domain, before the `munged` of the default domain. -/
theorem not_startsMunged_sshd : IsMunged (domArg none) (.str "K") (munged none) ∧
    ¬ StartsMunged (.dict (node [sshd, munged none])) (domArg none) (.str "K") := by
  refine ⟨⟨rfl, rfl, rfl⟩, fun h => ?_⟩
  have hspec : Dict.get? (node [sshd, munged none]) "daemons" =
      some (.list (([] ++ sshd :: [munged none]).map .dict)) := rfl
  have hkey := (h.of_hit hspec (List.forall_mem_nil _) (Or.inr rfl)).2
  cases hkey

/-- An `sshd` before the `munged` of another domain. -/
theorem startsMunged_iff_domain :
    StartsMunged (.dict (node [sshd, munged (some "dom1")])) (domArg (some "dom1")) (.str "K") := by
  have hspec : Dict.get? (node [sshd, munged (some "dom1")]) "daemons" =
      some (.list ([sshd, munged (some "dom1")].map .dict)) := rfl
  refine (startsMunged_iff hspec
    ⟨munged (some "dom1"), by simp, rfl, rfl, rfl⟩).mpr
    ⟨[sshd], munged (some "dom1"), [], rfl, ?_, Or.inr rfl, rfl, Or.inl ⟨"dom1", rfl, by decide⟩⟩
  refine List.forall_mem_singleton.mpr fun hhit => ?_
  rcases hhit with h | h <;> cases h

end Munge
end LdmsTest
