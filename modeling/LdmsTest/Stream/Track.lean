import LdmsTest.Foundation.Dict
import LdmsTest.Foundation.Fuelled
import LdmsTest.Python.Json
import Mathlib

/-!
# Trackers of the stream test

`ldms_stream_test` tracks which statistics it expects of every process.  A process counts what it
receives of each stream and from each source, and passes it on to its clients that match the
stream and have access to it.  A client counts what it is given, and when it stands for another
process, that process receives it in turn.

`P` is the type of the processes.  Deliveries nest along the clients, so they are computations
with fuel.

* `deliver`, `addClient`, `recvTrack`: the methods of the source.
* `Balanced`: what every process has received is what it was given directly and what the clients
  that stand for it have been given, once the deliveries that are `owed` are paid.
* `deliver_pays`: a delivery pays what it owes.
* `conserved_run`: the statistics after a sequence of calls.
-/

namespace LdmsTest
namespace Track

/-- Python's regular expressions. -/
class PyRegex where
  /-- `re.compile(pattern)` does not raise -/
  valid : String → Bool
  /-- `re.compile(pattern).match(s) is not None` -/
  isMatch : String → String → Bool

/-! ## Users -/

/-- A user or a group, by name or by number. -/
inductive UserKey where
  | name : String → UserKey
  | id : ℤ → UserKey
  deriving DecidableEq

/-- `repr(key)`, for a name without quotes -/
def UserKey.repr : UserKey → String
  | .name s => "'" ++ s ++ "'"
  | .id n => toString n

def fooUid : ℤ := 1000
def fooGid : ℤ := 1000
def barUid : ℤ := 1001
def barGid : ℤ := 1001
def usersGid : ℤ := 100

def uidTbl : Dict UserKey ℤ :=
  [(.name "foo", fooUid), (.id fooUid, fooUid), (.name "bar", barUid), (.id barUid, barUid),
    (.name "root", 0), (.id 0, 0)]

def gidTbl : Dict UserKey ℤ :=
  [(.name "foo", fooGid), (.id fooGid, fooGid), (.name "bar", barGid), (.id barGid, barGid),
    (.name "root", 0), (.id 0, 0)]

def groupsTbl : Dict ℤ (List ℤ) :=
  [(0, [0]), (fooUid, [fooGid, usersGid]), (barUid, [barGid, usersGid])]

/-- `tbl[key]` -/
def lookup {κ β : Type} [DecidableEq κ] (tbl : Dict κ β) (repr : κ → String) (key : κ) :
    Except PyError β :=
  match Dict.get? tbl key with
  | some v => pure v
  | none => throw ⟨.keyError, repr key⟩

def getUid (obj : UserKey) : Except PyError ℤ :=
  lookup uidTbl UserKey.repr obj

def getGid (obj : UserKey) : Except PyError ℤ :=
  lookup gidTbl UserKey.repr obj

def getGroups (uid : ℤ) : Except PyError (List ℤ) := do
  let uid ← getUid (.id uid)
  lookup groupsTbl toString uid

theorem lookup_eq_ok_iff {κ β : Type} [DecidableEq κ] {tbl : Dict κ β} {repr : κ → String}
    {key : κ} {v : β} : lookup tbl repr key = .ok v ↔ Dict.get? tbl key = some v := by
  rw [lookup]
  cases Dict.get? tbl key with
  | none => exact ⟨nofun, nofun⟩
  | some w => exact ⟨fun h => by cases h; rfl, fun h => by cases h; rfl⟩

/-- What is found among the users is found again. -/
theorem getUid_getUid {obj : UserKey} {uid : ℤ} (h : getUid obj = .ok uid) :
    getUid (.id uid) = .ok uid := by
  have htbl : ∀ e ∈ uidTbl, Dict.get? uidTbl (.id e.2) = some e.2 := by decide
  exact lookup_eq_ok_iff.mpr (htbl _ (Dict.mem_of_get? (lookup_eq_ok_iff.mp h)))

/-- What is found among the groups is found again. -/
theorem getGid_getGid {obj : UserKey} {gid : ℤ} (h : getGid obj = .ok gid) :
    getGid (.id gid) = .ok gid := by
  have htbl : ∀ e ∈ gidTbl, Dict.get? gidTbl (.id e.2) = some e.2 := by decide
  exact lookup_eq_ok_iff.mpr (htbl _ (Dict.mem_of_get? (lookup_eq_ok_iff.mp h)))

/-- What is found among the users is found among the groups. -/
theorem getGid_of_getUid {obj : UserKey} {uid : ℤ} (h : getUid obj = .ok uid) :
    getGid (.id uid) = .ok uid := by
  have htbl : ∀ e ∈ uidTbl, Dict.get? gidTbl (.id e.2) = some e.2 := by decide
  exact lookup_eq_ok_iff.mpr (htbl _ (Dict.mem_of_get? (lookup_eq_ok_iff.mp h)))

/-- A user with a number has groups. -/
theorem exists_getGroups {uid : ℤ} (h : getUid (.id uid) = .ok uid) :
    ∃ groups, getGroups uid = .ok groups := by
  have htbl : ∀ e ∈ uidTbl, Dict.get? groupsTbl e.2 ≠ none := by decide
  obtain ⟨groups, hgroups⟩ := Option.ne_none_iff_exists'.mp
    (htbl _ (Dict.mem_of_get? (lookup_eq_ok_iff.mp h)))
  rw [getGroups, h]
  exact ⟨groups, lookup_eq_ok_iff.mpr hgroups⟩

/-! ## Statistics -/

structure LdmsAddr where
  family : ℕ
  port : Option ℕ
  addr : List UInt8
  deriving DecidableEq

/-- `LOCAL` -/
def localAddr : LdmsAddr :=
  ⟨0, some 0, List.replicate 16 0⟩

/-- `bool(src.port)` -/
def LdmsAddr.hasPort (src : LdmsAddr) : Bool :=
  match src.port with
  | some n => n ≠ 0
  | none => false

/-- The counters; their times are always `None`. -/
structure StreamCounters where
  count : ℕ
  bytes : ℕ
  deriving DecidableEq

def StreamCounters.add (self : StreamCounters) (bytes : ℕ) : StreamCounters :=
  ⟨self.count + 1, self.bytes + bytes⟩

structure StreamSrcStats where
  src : LdmsAddr
  rx : StreamCounters

structure StreamClientPairStats where
  streamName : String
  clientMatch : String
  clientDesc : String
  isRegex : Bool
  tx : StreamCounters
  drops : StreamCounters

/-- The statistics of a client, apart from those of its streams. -/
structure StreamClientStats where
  tx : StreamCounters
  drops : StreamCounters
  dest : LdmsAddr
  pattern : String
  isRegex : Bool
  desc : String

/-! ## Trackers -/

structure StreamTrack where
  name : String
  rx : StreamCounters
  sources : Dict LdmsAddr StreamSrcStats

structure ClientTrack (P : Type) where
  stats : StreamClientStats
  streams : Dict String StreamClientPairStats
  remote : Option P
  uid : ℤ
  gid : ℤ
  groups : List ℤ

structure ProcessTrack (P : Type) where
  st : Dict String StreamTrack
  ct : List (ClientTrack P)
  addr : LdmsAddr
  uid : ℤ
  gid : ℤ

def StreamTrack.init (stream : String) : StreamTrack :=
  ⟨stream, ⟨0, 0⟩, []⟩

def StreamTrack.recv (self : StreamTrack) (src : LdmsAddr) (bytes : ℕ) :
    Except PyError StreamTrack :=
  if src ≠ localAddr ∧ ¬ src.hasPort then throw ⟨.exception, "CAUGHT"⟩
  else
    let ss := (Dict.get? self.sources src).getD ⟨src, ⟨0, 0⟩⟩
    pure { self with
      rx := self.rx.add bytes
      sources := Dict.set self.sources src { ss with rx := ss.rx.add bytes } }

section Clients

variable {P : Type} [PyRegex]

def ClientTrack.init (pattern : String) (isRegex : Bool) (dest : LdmsAddr) (desc : String)
    (remote : Option P) (uid gid : ℤ) : Except PyError (ClientTrack P) := do
  if isRegex ∧ ¬ PyRegex.valid pattern then throw ⟨.reError, pattern⟩
  else
    let groups ← getGroups uid
    pure
      { stats := ⟨⟨0, 0⟩, ⟨0, 0⟩, dest, pattern, isRegex, desc⟩
        streams := []
        remote := remote
        uid := uid
        gid := gid
        groups := groups }

/-- `has_access` -/
def ClientTrack.hasAccess (self : ClientTrack P) (uid gid : ℤ) (perm : ℕ) : Bool :=
  self.uid = 0 || self.uid = uid ||
    (perm &&& 0o040 ≠ 0 && (gid = self.gid || gid ∈ self.groups)) || perm &&& 0o004 ≠ 0

/-- `match` -/
def ClientTrack.matches (self : ClientTrack P) (stream : String) : Bool :=
  if self.stats.isRegex then PyRegex.isMatch self.stats.pattern stream
  else self.stats.pattern = stream

/-- The statistics of a stream that is new to the client. -/
def ClientTrack.newStream (self : ClientTrack P) (stream : String) : StreamClientPairStats :=
  ⟨stream, self.stats.pattern, self.stats.desc, self.stats.isRegex, ⟨0, 0⟩, ⟨0, 0⟩⟩

def ClientTrack.initStream (self : ClientTrack P) (stream : String) : ClientTrack P :=
  { self with streams := Dict.setdefault self.streams stream (self.newStream stream) }

/-- `deliver`, up to the delivery to the remote process. -/
def ClientTrack.deliver (self : ClientTrack P) (stream : String) (bytes : ℕ) :
    Except PyError (ClientTrack P) :=
  if self.matches stream then
    let s := (Dict.get? self.streams stream).getD (self.newStream stream)
    pure { self with
      stats := { self.stats with tx := self.stats.tx.add bytes }
      streams := Dict.set self.streams stream { s with tx := s.tx.add bytes } }
  else throw ⟨.assertionError, ""⟩

/-- `init_stream` -/
def ProcessTrack.initStream (self : ProcessTrack P) (stream : String) : ProcessTrack P :=
  { self with
    st := Dict.setdefault self.st stream (.init stream)
    ct := self.ct.map fun cli => if cli.matches stream then cli.initStream stream else cli }

/-- `add_client`, with the process that the client stands for. -/
def ProcessTrack.addClient (self : ProcessTrack P) (pattern : String) (isRegex : Bool)
    (remote : Option (P × ProcessTrack P)) : Except PyError (ProcessTrack P) := do
  let dest := (remote.map fun r => ⟨r.2.addr.family, none, r.2.addr.addr⟩).getD localAddr
  let desc := if remote.isSome then "remote_client" else ""
  let uid := (remote.map fun r => r.2.uid).getD self.uid
  let gid := (remote.map fun r => r.2.gid).getD self.gid
  let ct ← ClientTrack.init pattern isRegex dest desc (remote.map Prod.fst) uid gid
  if isRegex then
    let ct := self.st.foldl (fun ct s => if ct.matches s.2.name then ct.initStream s.2.name else ct) ct
    pure { self with ct := self.ct ++ [ct] }
  else pure ({ self with ct := self.ct ++ [ct] }.initStream pattern)

/-- The clients that every process has, each of them twice. -/
def basicClients : List (String × Bool) :=
  [(".*", true), ("l1-stream", false), ("l2-stream", false), ("l3-stream", false),
    (".*-stream", true)]

def ProcessTrack.addTwice (self : ProcessTrack P) (client : String × Bool) :
    Except PyError (ProcessTrack P) := do
  let self ← self.addClient client.1 client.2 none
  self.addClient client.1 client.2 none

def ProcessTrack.init (addr : LdmsAddr) (uid gid : UserKey) : Except PyError (ProcessTrack P) := do
  let uid ← getUid uid
  -- the group is looked up among the users
  let gid ← getUid gid
  basicClients.foldlM ProcessTrack.addTwice ⟨[], [], addr, uid, gid⟩

end Clients

/-! ## Deliveries -/

section Model

variable {P F : Type} [DecidableEq P] [PyRegex]

/-- The trackers of the processes. -/
abbrev State (P : Type) := P → ProcessTrack P

/-- The step of the loop of `deliver` for the client `i` of `p`. -/
def forward (deliver : P → LdmsAddr → State P → Run PyError (State P)) (p : P) (stream : String)
    (bytes : ℕ) (src : LdmsAddr) (uid gid : ℤ) (perm : ℕ) (s : State P) (i : ℕ) :
    Run PyError (State P) :=
  match (s p).ct[i]? with
  | none => pure s
  | some cli =>
    if cli.matches stream && cli.hasAccess uid gid perm then do
      let addr := if cli.remote.isSome && src = localAddr then (s p).addr else src
      let cli' ← Run.ofExcept (cli.deliver stream bytes)
      let s := Function.update s p { s p with ct := (s p).ct.set i cli' }
      match cli.remote with
      | none => pure s
      | some remote => deliver remote addr s
    else pure s

/-- `deliver` of a process, for deliveries nested less than `n` deep. -/
def deliver : ℕ → P → String → ℕ → LdmsAddr → Option UserKey → Option UserKey → ℕ → State P →
    Run PyError (State P)
  | 0, _, _, _, _, _, _, _, _ => Run.starved
  | n + 1, p, stream, bytes, src, uid, gid, perm, s => do
    let uid ← Run.ofExcept (getUid (uid.getD (.id (s p).uid)))
    let gid ← Run.ofExcept (getGid (gid.getD (.id (s p).gid)))
    let st ← Run.ofExcept
      (((Dict.get? (s p).st stream).getD (.init stream)).recv src bytes)
    let s := Function.update s p { s p with st := Dict.set (s p).st stream st }
    (List.range (s p).ct.length).foldlM
      (forward (fun remote addr => deliver n remote stream bytes addr (some (.id uid))
        (some (.id gid)) perm) p stream bytes src uid gid perm) s

/-- A call of a method of a process. -/
inductive Call (P F : Type) where
  | addClient : P → String → Bool → Option P → Call P F
  | recvTrack : P → String → Val F → LdmsAddr → Option UserKey → Option UserKey → ℕ → Call P F

/-- `len(data)`, of the JSON text if `data` is no string -/
def dataLen [Json.JsonFloat F] : Val F → ℕ
  | .str s => s.length
  | v => (Json.dumps none v).length

def call [Json.JsonFloat F] (n : ℕ) (s : State P) : Call P F → Run PyError (State P)
  | .addClient p pattern isRegex remote => do
    let self ← Run.ofExcept
      ((s p).addClient pattern isRegex (remote.map fun r => (r, s r)))
    pure (Function.update s p self)
  | .recvTrack p stream data src uid gid perm =>
    deliver n p stream (dataLen data) src uid gid perm s

def run [Json.JsonFloat F] (n : ℕ) (s : State P) (calls : List (Call P F)) :
    Run PyError (State P) :=
  calls.foldlM (call n) s

end Model

/-! ## Amounts -/

section Amounts

/-- A number of messages and of bytes. -/
abbrev Amount := ℕ × ℕ

def StreamCounters.amount (self : StreamCounters) : Amount :=
  (self.count, self.bytes)

theorem StreamCounters.amount_add (self : StreamCounters) (bytes : ℕ) :
    (self.add bytes).amount = self.amount + (1, bytes) := rfl

/-- What a stream has received is what it has received from its sources. -/
def StreamTrack.Sound (self : StreamTrack) : Prop :=
  self.rx.amount = Dict.total (fun ss => ss.rx.amount) self.sources

theorem StreamTrack.sound_init (stream : String) : (StreamTrack.init stream).Sound := rfl

theorem StreamTrack.Sound.recv {self : StreamTrack} (h : self.Sound) {src : LdmsAddr}
    (hsrc : src = localAddr ∨ src.hasPort) (bytes : ℕ) :
    ∃ st, self.recv src bytes = .ok st ∧ st.Sound ∧ st.rx.amount = self.rx.amount + (1, bytes) := by
  have hok : ¬ (src ≠ localAddr ∧ ¬ src.hasPort) := fun hbad => hsrc.elim hbad.1 hbad.2
  refine ⟨_, if_neg hok, ?_, StreamCounters.amount_add ..⟩
  show (self.rx.add bytes).amount = Dict.total _ (Dict.set ..)
  rw [Dict.total_set, StreamCounters.amount_add, h]
  cases Dict.get? self.sources src <;> rfl

variable {P : Type}

/-- What a client has been given is what it has been given of its streams. -/
def ClientTrack.Sound (self : ClientTrack P) : Prop :=
  self.stats.tx.amount = Dict.total (fun s => s.tx.amount) self.streams

/-- What a client has been given of a stream. -/
def ClientTrack.sent (self : ClientTrack P) (stream : String) : Amount :=
  ((Dict.get? self.streams stream).map fun s => s.tx.amount).getD 0

theorem ClientTrack.Sound.deliver [PyRegex] {self : ClientTrack P} (h : self.Sound)
    {stream : String} (hmatch : self.matches stream) (bytes : ℕ) :
    ∃ cli, self.deliver stream bytes = .ok cli ∧ cli.Sound ∧ cli.remote = self.remote ∧
      ∀ other, cli.sent other =
        self.sent other + if stream = other then (1, bytes) else 0 := by
  refine ⟨_, if_pos hmatch, ?_, rfl, fun other => ?_⟩
  · show (self.stats.tx.add bytes).amount = Dict.total _ (Dict.set ..)
    rw [Dict.total_set, StreamCounters.amount_add, h]
    cases Dict.get? self.streams stream <;> rfl
  · show ((Dict.get? (Dict.set ..) other).map _).getD 0 = _
    rw [Dict.get?_set, ClientTrack.sent]
    split
    · next heq =>
      subst heq
      cases Dict.get? self.streams stream <;> rfl
    · rw [add_zero]

/-- `cli` has been given the same as `c`, and stands for the same process. -/
structure ClientTrack.Like (c cli : ClientTrack P) : Prop where
  remote : cli.remote = c.remote
  sent : ∀ stream, cli.sent stream = c.sent stream
  sound : c.Sound → cli.Sound

theorem ClientTrack.Like.refl (self : ClientTrack P) : self.Like self :=
  ⟨rfl, fun _ => rfl, id⟩

theorem ClientTrack.Like.trans {c₁ c₂ c₃ : ClientTrack P} (h : c₁.Like c₂) (h' : c₂.Like c₃) :
    c₁.Like c₃ :=
  ⟨h'.remote.trans h.remote, fun stream => (h'.sent stream).trans (h.sent stream),
    fun hs => h'.sound (h.sound hs)⟩

theorem ClientTrack.like_initStream (self : ClientTrack P) (stream : String) :
    self.Like (self.initStream stream) where
  remote := rfl
  sent other := by
    rw [ClientTrack.sent, ClientTrack.initStream, Dict.get?_setdefault, ClientTrack.sent]
    split
    · next heq =>
      subst heq
      cases Dict.get? self.streams stream <;> rfl
    · rfl
  sound h := by
    refine Eq.trans h (Eq.symm ?_)
    exact Dict.total_setdefault _ _ rfl

theorem ClientTrack.like_foldl_initStream [PyRegex] (self : ClientTrack P)
    (st : Dict String StreamTrack) :
    self.Like (st.foldl (fun ct s => if ct.matches s.2.name then ct.initStream s.2.name else ct)
      self) := by
  induction st generalizing self with
  | nil => exact .refl self
  | cons s st ih =>
    refine ClientTrack.Like.trans ?_ (ih _)
    dsimp only
    split
    · exact self.like_initStream _
    · exact .refl self

end Amounts

/-! ## Processes -/

section Processes

variable {P : Type} [DecidableEq P]

/-- What a process has received of a stream. -/
def ProcessTrack.received (self : ProcessTrack P) (stream : String) : Amount :=
  ((Dict.get? self.st stream).map fun st => st.rx.amount).getD 0

/-- What its clients that stand for `r` have been given of a stream. -/
def ProcessTrack.forwarded (self : ProcessTrack P) (r : P) (stream : String) : Amount :=
  (self.ct.map fun cli => if cli.remote = some r then cli.sent stream else 0).sum

/-- The counters add up, the process has an address with a port and a known user, and its clients
stand for processes in `R`. -/
structure ProcessTrack.Sound (R : P → Prop) (p : ProcessTrack P) : Prop where
  hasPort : p.addr.hasPort
  uid : getUid (.id p.uid) = .ok p.uid
  gid : getGid (.id p.gid) = .ok p.gid
  streams : ∀ stream st, Dict.get? p.st stream = some st → st.Sound
  clients : ∀ cli ∈ p.ct, cli.Sound ∧ ∀ r, cli.remote = some r → R r

/-- `p'` is as sound as `p`, and has received and forwarded the same. -/
structure ProcessTrack.Like (R : P → Prop) (p p' : ProcessTrack P) : Prop where
  received : ∀ stream, p'.received stream = p.received stream
  forwarded : ∀ r stream, p'.forwarded r stream = p.forwarded r stream
  sound : p.Sound R → p'.Sound R

omit [DecidableEq P] in
theorem ProcessTrack.sound_of_ct {R : P → Prop} {self : ProcessTrack P} (h : self.Sound R)
    {ct : List (ClientTrack P)} (hct : ∀ cli ∈ ct, cli.Sound ∧ ∀ r, cli.remote = some r → R r) :
    { self with ct := ct }.Sound R :=
  { h with clients := hct }

theorem ProcessTrack.like_initStream [PyRegex] (R : P → Prop) (self : ProcessTrack P)
    (stream : String) : self.Like R (self.initStream stream) where
  received other := by
    rw [ProcessTrack.received, ProcessTrack.initStream, Dict.get?_setdefault,
      ProcessTrack.received]
    split
    · next heq =>
      subst heq
      cases Dict.get? self.st stream <;> rfl
    · rfl
  forwarded r other := by
    rw [ProcessTrack.forwarded, ProcessTrack.initStream, List.map_map, ProcessTrack.forwarded]
    refine congrArg List.sum (List.map_congr_left fun cli _ => ?_)
    have hlike : cli.Like (if cli.matches stream then cli.initStream stream else cli) := by
      split
      · exact cli.like_initStream stream
      · exact .refl cli
    rw [Function.comp_apply, hlike.remote, hlike.sent]
  sound h :=
    { h with
      streams := fun other st hst => by
        rw [ProcessTrack.initStream, Dict.get?_setdefault] at hst
        split at hst
        · next heq =>
          subst heq
          cases hget : Dict.get? self.st stream with
          | none =>
            rw [hget] at hst
            cases hst
            exact StreamTrack.sound_init stream
          | some st' =>
            rw [hget] at hst
            cases hst
            exact h.streams stream _ hget
        · exact h.streams other st hst
      clients := fun cli hcli => by
        obtain ⟨cli', hmem, rfl⟩ := List.mem_map.mp hcli
        obtain ⟨hsound, hremote⟩ := h.clients cli' hmem
        split
        · exact ⟨(cli'.like_initStream stream).sound hsound, hremote⟩
        · exact ⟨hsound, hremote⟩ }

omit [DecidableEq P] in
/-- A new client has been given nothing. -/
theorem ClientTrack.init_spec [PyRegex] {pattern desc : String} {isRegex : Bool} {dest : LdmsAddr}
    {remote : Option P} {uid gid : ℤ} {cli : ClientTrack P}
    (h : ClientTrack.init pattern isRegex dest desc remote uid gid = .ok cli) :
    cli.Sound ∧ cli.remote = remote ∧ ∀ stream, cli.sent stream = 0 := by
  rw [ClientTrack.init] at h
  split at h
  · cases h
  obtain ⟨groups, -, h⟩ := exists_of_bind_ok h
  cases h
  exact ⟨rfl, rfl, fun _ => rfl⟩

/-- A process with one more client that has been given nothing. -/
theorem ProcessTrack.like_append {R : P → Prop} (self : ProcessTrack P) {cli : ClientTrack P}
    (hsound : cli.Sound) (hsent : ∀ stream, cli.sent stream = 0)
    (hremote : ∀ r, cli.remote = some r → R r) :
    self.Like R { self with ct := self.ct ++ [cli] } where
  received _ := rfl
  forwarded r stream := by
    rw [ProcessTrack.forwarded, List.map_append, List.sum_append, List.map_singleton,
      List.sum_singleton, hsent, ite_self, add_zero, ProcessTrack.forwarded]
  sound h := by
    refine ProcessTrack.sound_of_ct h fun c hc => ?_
    rcases List.mem_append.mp hc with hc | hc
    · exact h.clients c hc
    · obtain rfl := List.mem_singleton.mp hc
      exact ⟨hsound, hremote⟩

theorem ProcessTrack.Like.trans {R : P → Prop} {p₁ p₂ p₃ : ProcessTrack P} (h : p₁.Like R p₂)
    (h' : p₂.Like R p₃) : p₁.Like R p₃ :=
  ⟨fun stream => (h'.received stream).trans (h.received stream),
    fun r stream => (h'.forwarded r stream).trans (h.forwarded r stream),
    fun hs => h'.sound (h.sound hs)⟩

/-- **Adding a client** changes nothing that has been counted. -/
theorem ProcessTrack.like_addClient [PyRegex] {R : P → Prop} {self self' : ProcessTrack P}
    {pattern : String} {isRegex : Bool} {remote : Option (P × ProcessTrack P)}
    (hR : ∀ r ∈ remote.map Prod.fst, R r)
    (h : self.addClient pattern isRegex remote = .ok self') : self.Like R self' := by
  rw [ProcessTrack.addClient] at h
  obtain ⟨cli, hcli, h⟩ := exists_of_bind_ok h
  obtain ⟨hsound, hremote, hsent⟩ := ClientTrack.init_spec hcli
  split at h
  · cases h
    have hlike := cli.like_foldl_initStream self.st
    refine self.like_append (hlike.sound hsound) (fun stream => ?_) fun r hr => hR r ?_
    · rw [hlike.sent, hsent]
    · rw [← hremote, ← hlike.remote, hr]
      rfl
  · cases h
    refine (self.like_append hsound hsent fun r hr => hR r ?_).trans
      (ProcessTrack.like_initStream R _ pattern)
    rw [← hremote, hr]
    rfl

omit [DecidableEq P] in
/-- A client with a known user is refused only for its pattern. -/
theorem ClientTrack.exists_init [PyRegex] {uid : ℤ} (huid : getUid (.id uid) = .ok uid)
    {pattern : String} {isRegex : Bool} (hvalid : isRegex → PyRegex.valid pattern)
    (dest : LdmsAddr) (desc : String) (remote : Option P) (gid : ℤ) :
    ∃ cli, ClientTrack.init pattern isRegex dest desc remote uid gid = .ok cli := by
  obtain ⟨groups, hgroups⟩ := exists_getGroups huid
  rw [ClientTrack.init, if_neg fun hbad => hbad.2 (hvalid hbad.1), hgroups]
  exact ⟨_, rfl⟩

omit [DecidableEq P] in
theorem ProcessTrack.exists_addClient [PyRegex] {self : ProcessTrack P}
    (hself : getUid (.id self.uid) = .ok self.uid) {pattern : String} {isRegex : Bool}
    (hvalid : isRegex → PyRegex.valid pattern) {remote : Option (P × ProcessTrack P)}
    (hremote : ∀ r ∈ remote, getUid (.id r.2.uid) = .ok r.2.uid) :
    ∃ self', self.addClient pattern isRegex remote = .ok self' := by
  have huid : getUid (.id ((remote.map fun r => r.2.uid).getD self.uid)) =
      .ok ((remote.map fun r => r.2.uid).getD self.uid) := by
    cases remote with
    | none => exact hself
    | some r => exact hremote r rfl
  obtain ⟨cli, hcli⟩ := ClientTrack.exists_init huid hvalid
    ((remote.map fun r => ⟨r.2.addr.family, none, r.2.addr.addr⟩).getD localAddr)
    (if remote.isSome then "remote_client" else "") (remote.map Prod.fst)
    ((remote.map fun r => r.2.gid).getD self.gid)
  rw [ProcessTrack.addClient, hcli]
  cases isRegex <;> exact ⟨_, rfl⟩

theorem ProcessTrack.like_addTwice [PyRegex] {R : P → Prop} {self self' : ProcessTrack P}
    {client : String × Bool} (h : self.addTwice client = .ok self') : self.Like R self' := by
  have hnone : ∀ r ∈ (none : Option (P × ProcessTrack P)).map Prod.fst, R r :=
    fun r hr => nomatch (show r ∈ (none : Option P) from hr)
  obtain ⟨self₁, hone, htwo⟩ := exists_of_bind_ok h
  exact (ProcessTrack.like_addClient hnone hone).trans (ProcessTrack.like_addClient hnone htwo)

theorem ProcessTrack.exists_addTwice [PyRegex] {R : P → Prop} {self : ProcessTrack P}
    (h : self.Sound R) {client : String × Bool} (hvalid : client.2 → PyRegex.valid client.1) :
    ∃ self', self.addTwice client = .ok self' ∧ self'.Sound R := by
  have hnone : ∀ r ∈ (none : Option (P × ProcessTrack P)), getUid (.id r.2.uid) = .ok r.2.uid :=
    nofun
  have hnone' : ∀ r ∈ (none : Option (P × ProcessTrack P)).map Prod.fst, R r :=
    fun r hr => nomatch (show r ∈ (none : Option P) from hr)
  obtain ⟨self₁, hone⟩ := ProcessTrack.exists_addClient h.uid hvalid hnone
  have hself₁ := (ProcessTrack.like_addClient hnone' hone).sound h
  obtain ⟨self₂, htwo⟩ := ProcessTrack.exists_addClient hself₁.uid hvalid hnone
  have hboth : self.addTwice client = .ok self₂ := by
    rw [ProcessTrack.addTwice, hone]
    exact htwo
  exact ⟨self₂, hboth, (ProcessTrack.like_addTwice hboth).sound h⟩

end Processes

/-! ## Balance -/

section Balance

variable {P : Type} [DecidableEq P] [Fintype P]

/-- What the clients that stand for `p` have been given of a stream. -/
def incoming (s : State P) (p : P) (stream : String) : Amount :=
  ∑ q, (s q).forwarded p stream

/-- An amount for a process and a stream. -/
abbrev Tally (P : Type) := P → String → Amount

/-- One message of the stream for `p`. -/
def single (p : P) (stream : String) (bytes : ℕ) : Tally P :=
  fun q other => if p = q ∧ stream = other then (1, bytes) else 0

/-- **The balance.**  What the processes have received, and the deliveries that are still owed to
them, are what was `given` to them directly and what the clients that stand for them have been
given. -/
def Balanced (given owed : Tally P) (s : State P) : Prop :=
  ∀ p stream, (s p).received stream + owed p stream = given p stream + incoming s p stream

/-- The processes are sound, with clients along the edges of `R`. -/
def State.Sound (R : P → P → Prop) (s : State P) : Prop :=
  ∀ p, (s p).Sound (R p)

omit [Fintype P] in
theorem State.Sound.update {R : P → P → Prop} {s : State P} (h : s.Sound R) {p : P}
    {self : ProcessTrack P} (hself : self.Sound (R p)) :
    State.Sound R (Function.update s p self) := by
  intro q
  by_cases hq : q = p
  · subst hq
    rwa [Function.update_self]
  · rw [Function.update_of_ne hq]
    exact h q

/-- What the clients of one process have been given more, everyone's have. -/
theorem incoming_update {s : State P} {p : P} {self : ProcessTrack P} {r : P} {stream : String}
    {x : Amount} (h : self.forwarded r stream = (s p).forwarded r stream + x) :
    incoming (Function.update s p self) r stream = incoming s r stream + x := by
  have hrest : ∑ q ∈ Finset.univ.erase p, (Function.update s p self q).forwarded r stream =
      ∑ q ∈ Finset.univ.erase p, (s q).forwarded r stream := by
    refine Finset.sum_congr rfl fun q hq => ?_
    rw [Function.update_of_ne (Finset.ne_of_mem_erase hq)]
  rw [incoming, ← Finset.add_sum_erase _ _ (Finset.mem_univ p), hrest, Function.update_self, h,
    incoming, ← Finset.add_sum_erase _ _ (Finset.mem_univ p), add_right_comm]

/-- **Receiving** pays one message that was owed. -/
theorem Balanced.receive {given owed : Tally P} {s : State P} {p : P} {stream : String}
    {bytes : ℕ} {st : StreamTrack}
    (hst : st.rx.amount = ((Dict.get? (s p).st stream).getD (.init stream)).rx.amount + (1, bytes))
    (h : Balanced given (owed + single p stream bytes) s) :
    Balanced given owed
      (Function.update s p { s p with st := Dict.set (s p).st stream st }) := by
  intro q other
  have hin : incoming (Function.update s p { s p with st := Dict.set (s p).st stream st }) q other =
      incoming s q other + 0 := incoming_update (add_zero _).symm
  rw [hin, add_zero, ← h q other]
  show _ = _ + (owed q other + single p stream bytes q other)
  rw [← add_assoc, add_right_comm]
  refine congrArg (· + _) ?_
  by_cases hq : q = p
  · subst hq
    rw [Function.update_self, ProcessTrack.received, Dict.get?_set, ProcessTrack.received, single]
    by_cases hstream : stream = other
    · subst hstream
      rw [if_pos rfl, if_pos ⟨rfl, rfl⟩, Option.map_some, Option.getD_some, hst]
      cases Dict.get? (s q).st stream <;> rfl
    · rw [if_neg hstream, if_neg fun hand => hstream hand.2, add_zero]
  · rw [Function.update_of_ne hq, single, if_neg fun hand => hq hand.1.symm, add_zero]

/-- A client in a list of clients, and the sum over them. -/
theorem sum_map_set {α M : Type*} [AddCommMonoid M] (f : α → M) {l : List α} {i : ℕ} {a b : α}
    {x : M} (ha : l[i]? = some a) (h : f b = f a + x) :
    ((l.set i b).map f).sum = (l.map f).sum + x := by
  induction l generalizing i with
  | nil => cases ha
  | cons c l ih =>
    cases i with
    | zero =>
      cases ha
      rw [List.set_cons_zero, List.map_cons, List.sum_cons, List.map_cons, List.sum_cons, h,
        add_right_comm]
    | succ i =>
      rw [List.set_cons_succ, List.map_cons, List.sum_cons, List.map_cons, List.sum_cons,
        ih ha, add_assoc]

/-- What a message to a client owes to the process that the client stands for. -/
def owedBy (remote : Option P) (stream : String) (bytes : ℕ) : Tally P :=
  match remote with
  | none => 0
  | some r => single r stream bytes

/-- **Giving a message to a client** owes it to the process that the client stands for. -/
theorem Balanced.send {given owed : Tally P} {s : State P} {p : P} {stream : String} {bytes : ℕ}
    {i : ℕ} {cli cli' : ClientTrack P} (hi : (s p).ct[i]? = some cli)
    (hremote : cli'.remote = cli.remote)
    (hsent : ∀ other, cli'.sent other =
      cli.sent other + if stream = other then (1, bytes) else 0)
    (h : Balanced given owed s) :
    Balanced given (owed + owedBy cli.remote stream bytes)
      (Function.update s p { s p with ct := (s p).ct.set i cli' }) := by
  intro q other
  have hforward : ProcessTrack.forwarded { s p with ct := (s p).ct.set i cli' } q other =
      (s p).forwarded q other + owedBy cli.remote stream bytes q other := by
    refine sum_map_set _ hi ?_
    rw [hremote, hsent]
    cases hr : cli.remote with
    | none => rw [if_neg nofun, if_neg nofun]; rfl
    | some r =>
      rw [owedBy, single]
      by_cases hq : r = q
      · subst hq
        rw [if_pos rfl, if_pos rfl]
        simp only [true_and]
      · rw [if_neg fun heq => hq (Option.some.inj heq),
          if_neg fun heq => hq (Option.some.inj heq), if_neg fun hand => hq hand.1, add_zero]
  have hreceived : (Function.update s p { s p with ct := (s p).ct.set i cli' } q).received other =
      (s q).received other := by
    by_cases hq : q = p
    · subst hq
      rw [Function.update_self]
      rfl
    · rw [Function.update_of_ne hq]
  rw [incoming_update hforward, hreceived, ← add_assoc, ← h q other, add_assoc]
  rfl

/-- A process that has counted the same leaves the balance. -/
theorem Balanced.update_like {given owed : Tally P} {s : State P} {R : P → Prop} {p : P}
    {self : ProcessTrack P} (hlike : (s p).Like R self) (h : Balanced given owed s) :
    Balanced given owed (Function.update s p self) := by
  intro q stream
  have hforward : self.forwarded q stream = (s p).forwarded q stream + 0 :=
    (hlike.forwarded q stream).trans (add_zero _).symm
  have hreceived : (Function.update s p self q).received stream = (s q).received stream := by
    by_cases hq : q = p
    · subst hq
      rw [Function.update_self, hlike.received]
    · rw [Function.update_of_ne hq]
  rw [incoming_update hforward, add_zero, hreceived, h q stream]

/-- A message given directly is owed. -/
theorem Balanced.give {given owed : Tally P} {s : State P} (h : Balanced given owed s)
    (x : Tally P) : Balanced (given + x) (owed + x) s := by
  intro p stream
  show _ + (owed p stream + x p stream) = given p stream + x p stream + _
  rw [← add_assoc, h p stream, add_right_comm]

end Balance

/-! ## Deliveries pay -/

section Deliveries

variable {P : Type} [DecidableEq P] [Fintype P] [PyRegex] {R : P → P → Prop}

/-- A source that `recv` accepts. -/
def LdmsAddr.Accepted (src : LdmsAddr) : Prop :=
  src = localAddr ∨ src.hasPort

omit [DecidableEq P] [Fintype P] [PyRegex] in
/-- The source under which a process passes a message on to a client. -/
theorem accepted_addr {s : State P} (hs : s.Sound R) {src : LdmsAddr} (hsrc : src.Accepted) (p : P)
    (remote : Option P) :
    (if remote.isSome && src = localAddr then (s p).addr else src).Accepted := by
  split
  · exact Or.inr (hs p).hasPort
  · exact hsrc

/-- **One step of the loop** leaves the balance, if the deliveries to the processes behind the
clients pay what they owe. -/
theorem forward_spec {given owed : Tally P}
    {rec : ℕ → P → LdmsAddr → State P → Run PyError (State P)} {p : P} {stream : String}
    {bytes : ℕ} {src : LdmsAddr} {uid gid : ℤ} {perm : ℕ}
    (hrec : ∀ r addr s, R p r → addr.Accepted → s.Sound R →
      Balanced given (owed + single r stream bytes) s →
        ∃ s', Returns (fun n => rec n r addr s) s' ∧ s'.Sound R ∧ Balanced given owed s')
    (hsrc : src.Accepted) {s : State P} (hs : s.Sound R) (hbal : Balanced given owed s) (i : ℕ) :
    ∃ s', Returns (fun n => forward (rec n) p stream bytes src uid gid perm s i) s' ∧
      s'.Sound R ∧ Balanced given owed s' := by
  unfold forward
  cases hi : (s p).ct[i]? with
  | none => exact ⟨s, returns_pure s, hs, hbal⟩
  | some cli =>
    dsimp only
    split
    · next hgiven =>
      obtain ⟨hsound, hremote⟩ := (hs p).clients cli (List.mem_of_getElem? hi)
      obtain ⟨cli', hdeliver, hsound', hremote', hsent⟩ :=
        hsound.deliver (Bool.and_eq_true_iff.mp hgiven).1 bytes
      have hs' : State.Sound R (Function.update s p { s p with ct := (s p).ct.set i cli' }) := by
        refine hs.update (ProcessTrack.sound_of_ct (hs p) fun c hc => ?_)
        rcases List.mem_or_eq_of_mem_set hc with hc | rfl
        · exact (hs p).clients c hc
        · exact ⟨hsound', fun r hr => hremote r (hremote'.symm.trans hr)⟩
      have hbal' := hbal.send hi hremote' hsent
      rw [hdeliver]
      cases hr : cli.remote with
      | none =>
        rw [hr] at hbal'
        exact ⟨_, (returns_ofExcept cli').bind (returns_pure _), hs', fun q other => hbal' q other⟩
      | some r =>
        rw [hr] at hbal'
        have haddr := accepted_addr hs hsrc p (some r)
        obtain ⟨s', hreturns, hdone⟩ := hrec r _ _ (hremote r hr) haddr hs' hbal'
        exact ⟨s', (returns_ofExcept cli').bind hreturns, hdone⟩
    · exact ⟨s, returns_pure s, hs, hbal⟩

/-- **A delivery pays what it owes**, along a graph without infinite paths. -/
theorem deliver_pays {p : P} (hp : Acc (fun r q => R q r) p) {given owed : Tally P}
    {stream : String} {bytes : ℕ} {src : LdmsAddr} {uid gid : Option UserKey} {u g : ℤ} {perm : ℕ}
    {s : State P} (hs : s.Sound R) (hsrc : src.Accepted)
    (hu : getUid (uid.getD (.id (s p).uid)) = .ok u) (hg : getGid (gid.getD (.id (s p).gid)) = .ok g)
    (hbal : Balanced given (owed + single p stream bytes) s) :
    ∃ s', Returns (fun n => deliver n p stream bytes src uid gid perm s) s' ∧
      s'.Sound R ∧ Balanced given owed s' := by
  induction hp generalizing src uid gid s with
  | intro p _ ih =>
    have hst : ((Dict.get? (s p).st stream).getD (.init stream)).Sound := by
      cases hget : Dict.get? (s p).st stream with
      | none => exact StreamTrack.sound_init stream
      | some st => exact (hs p).streams stream st hget
    obtain ⟨st, hrecv, hsound, hamount⟩ := hst.recv hsrc bytes
    have hs' : State.Sound R
        (Function.update s p { s p with st := Dict.set (s p).st stream st }) := by
      refine hs.update { hs p with streams := fun other st' hget => ?_ }
      rw [Dict.get?_set] at hget
      split at hget
      · cases hget
        exact hsound
      · exact (hs p).streams other st' hget
    have hbal' := hbal.receive hamount
    have hnested : ∀ r addr s, R p r → addr.Accepted → s.Sound R →
        Balanced given (owed + single r stream bytes) s →
          ∃ s', Returns (fun n => deliver n r stream bytes addr (some (.id u)) (some (.id g)) perm s)
            s' ∧ s'.Sound R ∧ Balanced given owed s' := by
      intro r addr s hr haddr hs hbal
      refine ih r hr hs haddr ?_ ?_ hbal
      · exact getUid_getUid hu
      · exact getGid_getGid hg
    obtain ⟨s', hloop, hdone⟩ := exists_returns_foldlM
      (fun i _ s hI => forward_spec hnested hsrc hI.1 hI.2 i) ⟨hs', hbal'⟩
    refine ⟨s', Settles.of_succ rfl ?_, hdone⟩
    simp only [deliver, hu, hg, hrecv]
    exact (returns_ofExcept u).bind ((returns_ofExcept g).bind ((returns_ofExcept st).bind hloop))

end Deliveries

/-! ## Runs -/

section Runs

variable {P F : Type} [DecidableEq P] [Fintype P] [PyRegex] [Json.JsonFloat F]
  {R : P → P → Prop}

/-- `p` has a client that stands for `r`. -/
def Forwards (calls : List (Call P F)) (p r : P) : Prop :=
  ∃ pattern isRegex, Call.addClient p pattern isRegex (some r) ∈ calls

/-- No process forwards to itself, directly or through others. -/
def Acyclic (calls : List (Call P F)) : Prop :=
  ∀ p, ¬ Relation.TransGen (Forwards calls) p p

/-- The source is `LOCAL` or has a port. -/
def Call.Accepted : Call P F → Prop
  | .addClient .. => True
  | .recvTrack _ _ _ src _ _ _ => src.Accepted

/-- The pattern compiles, and the user and the group are in the tables. -/
def Call.Known : Call P F → Prop
  | .addClient _ pattern isRegex _ => isRegex → PyRegex.valid pattern
  | .recvTrack _ _ _ _ uid gid _ =>
    (∀ obj ∈ uid, ∃ u, getUid obj = .ok u) ∧ ∀ obj ∈ gid, ∃ g, getGid obj = .ok g

/-- What a call gives directly to a process. -/
def Call.given : Call P F → Tally P
  | .addClient .. => 0
  | .recvTrack p stream data _ _ _ _ => single p stream (dataLen data)

/-- What the calls give directly to the processes. -/
def directly : List (Call P F) → Tally P
  | [] => 0
  | c :: calls => c.given + directly calls

/-- The statistics add up. -/
structure Conserved (calls : List (Call P F)) (s : State P) : Prop where
  /-- A stream has received what it has received from its sources. -/
  received : ∀ p stream st, Dict.get? (s p).st stream = some st →
    st.rx.amount = Dict.total (fun ss => ss.rx.amount) st.sources
  /-- A client has been given what it has been given of its streams. -/
  sent : ∀ p, ∀ cli ∈ (s p).ct,
    cli.stats.tx.amount = Dict.total (fun pair => pair.tx.amount) cli.streams
  /-- A process has received what it was given directly, and what the clients of the other
  processes that stand for it have been given. -/
  conserved : ∀ p stream, (s p).received stream =
    directly calls p stream + ∑ q ∈ Finset.univ.erase p, (s q).forwarded p stream

omit [DecidableEq P] [PyRegex] [Json.JsonFloat F] in
theorem Acyclic.acc {calls : List (Call P F)} (h : Acyclic calls) (p : P) :
    Acc (fun r q => Forwards calls q r) p := by
  have hwf : WellFounded (flip (Relation.TransGen (Forwards calls))) :=
    haveI : IsTrans P (flip (Relation.TransGen (Forwards calls))) :=
      ⟨fun _ _ _ hab hbc => Relation.TransGen.trans hbc hab⟩
    haveI : Std.Irrefl (flip (Relation.TransGen (Forwards calls))) := ⟨h⟩
    Finite.wellFounded_of_trans_of_irrefl _
  exact Subrelation.accessible (fun hab => Relation.TransGen.single hab) (hwf.apply p)

omit [Fintype P] in
/-- A delivery for an unknown user or group raises. -/
theorem deliver_raises {p : P} {stream : String} {bytes : ℕ} {src : LdmsAddr}
    {uid gid : Option UserKey} {perm : ℕ} {s : State P} {e : PyError}
    (h : getUid (uid.getD (.id (s p).uid)) = .error e ∨
      (∃ u, getUid (uid.getD (.id (s p).uid)) = .ok u) ∧
        getGid (gid.getD (.id (s p).gid)) = .error e) :
    Raises (fun n => deliver n p stream bytes src uid gid perm s) e := by
  refine Settles.of_succ rfl ?_
  rcases h with hu | ⟨⟨u, hu⟩, hg⟩
  · simp only [deliver, hu]
    exact (raises_ofExcept e).bind _
  · simp only [deliver, hu, hg]
    exact (returns_ofExcept u).bind ((raises_ofExcept e).bind _)

/-- **Adding a client** leaves the balance, or is refused for its pattern. -/
theorem call_addClient_spec {given : Tally P} {s : State P} (hs : s.Sound R)
    (hbal : Balanced given 0 s) {p : P} {pattern : String} {isRegex : Bool} {remote : Option P}
    (hR : ∀ r, remote = some r → R p r) :
    (∃ s', Returns (fun n => call (F := F) n s (.addClient p pattern isRegex remote)) s' ∧
        s'.Sound R ∧ Balanced given 0 s') ∨
      ((∃ e, Raises (fun n => call (F := F) n s (.addClient p pattern isRegex remote)) e) ∧
        ¬ (isRegex → PyRegex.valid pattern)) := by
  simp only [call]
  cases hadd : (s p).addClient pattern isRegex (remote.map fun r => (r, s r)) with
  | ok self =>
    have hlike : (s p).Like (R p) self := by
      refine ProcessTrack.like_addClient (fun r hr => hR r ?_) hadd
      cases remote with
      | none => cases hr
      | some q => exact hr
    exact Or.inl ⟨_, (returns_ofExcept self).bind (returns_pure _),
      hs.update (hlike.sound (hs p)), hbal.update_like hlike⟩
  | error e =>
    refine Or.inr ⟨⟨e, (raises_ofExcept e).bind _⟩, fun hvalid => ?_⟩
    have hremote : ∀ r ∈ remote.map fun r => (r, s r), getUid (.id r.2.uid) = .ok r.2.uid := by
      intro r hr
      obtain ⟨q, -, rfl⟩ := Option.mem_map.mp hr
      exact (hs q).uid
    obtain ⟨self, hself⟩ := ProcessTrack.exists_addClient (hs p).uid hvalid hremote
    rw [hadd] at hself
    cases hself

/-- **Receiving directly** leaves the balance, or is refused for its user or group. -/
theorem call_recvTrack_spec {given : Tally P} {s : State P} (hs : s.Sound R)
    (hbal : Balanced given 0 s) {p : P} (hp : Acc (fun r q => R q r) p) {stream : String}
    {bytes : ℕ} {src : LdmsAddr} (hsrc : src.Accepted) {uid gid : Option UserKey} {perm : ℕ} :
    (∃ s', Returns (fun n => deliver n p stream bytes src uid gid perm s) s' ∧ s'.Sound R ∧
        Balanced (given + single p stream bytes) 0 s') ∨
      ((∃ e, Raises (fun n => deliver n p stream bytes src uid gid perm s) e) ∧
        ¬ ((∀ obj ∈ uid, ∃ u, getUid obj = .ok u) ∧ ∀ obj ∈ gid, ∃ g, getGid obj = .ok g)) := by
  cases hu : getUid (uid.getD (.id (s p).uid)) with
  | error e =>
    refine Or.inr ⟨⟨e, deliver_raises (.inl hu)⟩, fun hknown => ?_⟩
    cases uid with
    | none => cases hu.symm.trans (hs p).uid
    | some obj =>
      obtain ⟨u, hobj⟩ := hknown.1 obj rfl
      cases hu.symm.trans hobj
  | ok u =>
    cases hg : getGid (gid.getD (.id (s p).gid)) with
    | error e =>
      refine Or.inr ⟨⟨e, deliver_raises (.inr ⟨⟨u, hu⟩, hg⟩)⟩, fun hknown => ?_⟩
      cases gid with
      | none => cases hg.symm.trans (hs p).gid
      | some obj =>
        obtain ⟨g, hobj⟩ := hknown.2 obj rfl
        cases hg.symm.trans hobj
    | ok g =>
      exact Or.inl (deliver_pays hp hs hsrc hu hg (hbal.give (single p stream bytes)))

/-- **One call.** -/
theorem call_spec {given : Tally P} {s : State P} (hs : s.Sound R) (hbal : Balanced given 0 s)
    (hacc : ∀ p, Acc (fun r q => R q r) p) {c : Call P F} (hc : c.Accepted)
    (hR : ∀ p pattern isRegex r, c = .addClient p pattern isRegex (some r) → R p r) :
    (∃ s', Returns (fun n => call n s c) s' ∧ s'.Sound R ∧ Balanced (given + c.given) 0 s') ∨
      ((∃ e, Raises (fun n => call n s c) e) ∧ ¬ c.Known) := by
  cases c with
  | addClient p pattern isRegex remote =>
    rw [Call.given, add_zero]
    exact call_addClient_spec hs hbal fun r hr => hR p pattern isRegex r (by rw [hr])
  | recvTrack p stream data src uid gid perm =>
    exact call_recvTrack_spec hs hbal (hacc p) hc

theorem run_spec (hacc : ∀ p, Acc (fun r q => R q r) p) {calls : List (Call P F)}
    (hcalls : ∀ c ∈ calls, c.Accepted)
    (hR : ∀ p r, Forwards calls p r → R p r) {given : Tally P} {s : State P} (hs : s.Sound R)
    (hbal : Balanced given 0 s) :
    (∃ s', Returns (fun n => run n s calls) s' ∧ s'.Sound R ∧
        Balanced (given + directly calls) 0 s') ∨
      ((∃ e, Raises (fun n => run n s calls) e) ∧ ∃ c ∈ calls, ¬ c.Known) := by
  induction calls generalizing given s with
  | nil => exact Or.inl ⟨s, returns_pure s, hs, fun p stream => hbal p stream⟩
  | cons c calls ih =>
    have hstep := call_spec hs hbal hacc (hcalls c List.mem_cons_self)
      fun p pattern isRegex r heq => hR p r ⟨pattern, isRegex, heq ▸ List.mem_cons_self⟩
    simp only [run, List.foldlM_cons]
    rcases hstep with ⟨s₁, hreturns, hs₁, hbal₁⟩ | ⟨⟨e, hraises⟩, hknown⟩
    · rcases ih (fun c hc => hcalls c (List.mem_cons_of_mem _ hc))
        (fun p r ⟨pattern, isRegex, hmem⟩ => hR p r ⟨pattern, isRegex, List.mem_cons_of_mem _ hmem⟩)
        hs₁ hbal₁ with ⟨s₂, hrest, hs₂, hbal₂⟩ | ⟨⟨e, hrest⟩, c', hc', hknown⟩
      · refine Or.inl ⟨s₂, hreturns.bind hrest, hs₂, ?_⟩
        rwa [directly, ← add_assoc]
      · exact Or.inr ⟨⟨e, hreturns.bind hrest⟩, c', List.mem_cons_of_mem _ hc', hknown⟩
    · exact Or.inr ⟨⟨e, hraises.bind _⟩, c, List.mem_cons_self, hknown⟩

omit [Fintype P] in
/-- A process that starts is sound, and has received and forwarded nothing. -/
theorem ProcessTrack.init_spec {Q : P → Prop} {addr : LdmsAddr} (hport : addr.hasPort)
    {uid gid : UserKey} {self : ProcessTrack P} (h : ProcessTrack.init addr uid gid = .ok self) :
    self.Sound Q ∧ (∀ stream, self.received stream = 0) ∧
      ∀ r stream, self.forwarded r stream = 0 := by
  rw [ProcessTrack.init] at h
  obtain ⟨u, hu, h⟩ := exists_of_bind_ok h
  obtain ⟨g, hg, h⟩ := exists_of_bind_ok h
  have hempty : (⟨[], [], addr, u, g⟩ : ProcessTrack P).Sound Q :=
    ⟨hport, getUid_getUid hu, getGid_of_getUid hg, nofun, nofun⟩
  have hlike : ProcessTrack.Like Q ⟨[], [], addr, u, g⟩ self := by
    refine foldlM_ok_induction (I := ProcessTrack.Like Q ⟨[], [], addr, u, g⟩)
      (fun p e p' hp hstep => ?_) ⟨fun _ => rfl, fun _ _ => rfl, id⟩ h
    exact hp.trans (ProcessTrack.like_addTwice hstep)
  exact ⟨hlike.sound hempty, hlike.received, hlike.forwarded⟩

/-- **The statistics are conserved.**  From processes that have just started, with addresses that
have ports, every sequence of calls along an acyclic graph comes to an end.  If it returns, the
statistics add up; it raises only for a pattern that does not compile, or for an unknown user or
group. -/
theorem conserved_run {addr : P → LdmsAddr} (hport : ∀ p, (addr p).hasPort) {s : State P}
    (hstart : ∀ p, ∃ uid gid, ProcessTrack.init (addr p) uid gid = .ok (s p))
    (calls : List (Call P F)) (hsrc : ∀ c ∈ calls, c.Accepted) (hacyclic : Acyclic calls) :
    (∃ s', Returns (fun n => run n s calls) s' ∧ Conserved calls s') ∨
      ((∃ e, Raises (fun n => run n s calls) e) ∧ ∃ c ∈ calls, ¬ c.Known) := by
  have hinit : ∀ p, (s p).Sound (Forwards calls p) ∧ (∀ stream, (s p).received stream = 0) ∧
      ∀ r stream, (s p).forwarded r stream = 0 := by
    intro p
    obtain ⟨uid, gid, hp⟩ := hstart p
    exact ProcessTrack.init_spec (hport p) hp
  have hbal : Balanced 0 0 s := by
    intro p stream
    rw [(hinit p).2.1, incoming, Finset.sum_eq_zero fun q _ => (hinit q).2.2 p stream]
    rfl
  refine (run_spec hacyclic.acc hsrc (fun _ _ h => h) (fun p => (hinit p).1) hbal).imp ?_ id
  rintro ⟨s', hreturns, hs', hbal'⟩
  refine ⟨s', hreturns, fun p => (hs' p).streams, fun p cli hcli => ((hs' p).clients cli hcli).1,
    fun p stream => ?_⟩
  have hself : (s' p).forwarded p stream = 0 := by
    refine List.sum_eq_zero fun x hx => ?_
    obtain ⟨cli, hcli, rfl⟩ := List.mem_map.mp hx
    refine if_neg fun hremote => hacyclic p ?_
    exact Relation.TransGen.single (((hs' p).clients cli hcli).2 p hremote)
  have heq := hbal' p stream
  rw [zero_add, incoming, ← Finset.add_sum_erase _ _ (Finset.mem_univ p), hself, zero_add] at heq
  exact (add_zero _).symm.trans heq

omit [Fintype P] in
/-- A process of a known user starts. -/
theorem ProcessTrack.exists_init {addr : LdmsAddr} (hport : addr.hasPort) {uid gid : UserKey}
    {u g : ℤ} (hu : getUid uid = .ok u) (hg : getUid gid = .ok g)
    (hvalid : ∀ c ∈ basicClients, c.2 → PyRegex.valid c.1) :
    ∃ self : ProcessTrack P, ProcessTrack.init addr uid gid = .ok self := by
  have hempty : (⟨[], [], addr, u, g⟩ : ProcessTrack P).Sound fun _ => True :=
    ⟨hport, getUid_getUid hu, getGid_of_getUid hg, nofun, nofun⟩
  obtain ⟨self, hself, -⟩ := exists_foldlM_ok
    (fun c hc self hself => ProcessTrack.exists_addTwice hself (hvalid c hc)) hempty
  refine ⟨self, ?_⟩
  rw [ProcessTrack.init, hu, hg]
  exact hself

end Runs

/-! ## Two processes -/

/-- Patterns that end in `-stream`, and `.*`, on names of one line. -/
instance : PyRegex where
  valid _ := true
  isMatch pattern s := pattern = ".*" ∨ "-stream".toList <:+: s.toList

def pairAddr (p : Fin 2) : LdmsAddr :=
  ⟨2, some 411, [10, 0, 0, p.val.toUInt8]⟩

/-- The second process stands behind a client of the first one, and a user sends it a message. -/
def pairCalls : List (Call (Fin 2) Json.SampleFloat) :=
  [.addClient 0 ".*-stream" true (some 1),
    .recvTrack 0 "l1-stream" (.str "four") localAddr (some (.name "foo")) none 0o777]

theorem acyclic_pairCalls : Acyclic pairCalls := by
  have hedge : ∀ p r, Forwards pairCalls p r → p < r := by
    rintro p r ⟨pattern, isRegex, hmem⟩
    rcases List.mem_cons.mp hmem with heq | hmem
    · cases heq
      decide
    · cases List.mem_singleton.mp hmem
  have hpath : ∀ p r, Relation.TransGen (Forwards pairCalls) p r → p < r := by
    intro p r h
    induction h with
    | single h => exact hedge _ _ h
    | tail _ h ih => exact ih.trans (hedge _ _ h)
  exact fun p h => lt_irrefl p (hpath p p h)

theorem conserved_run_pairCalls :
    ∃ s : State (Fin 2), (∀ p, ProcessTrack.init (pairAddr p) (.id 0) (.id 0) = .ok (s p)) ∧
      ((∃ s', Returns (fun n => run n s pairCalls) s' ∧ Conserved pairCalls s') ∨
        ((∃ e, Raises (fun n => run n s pairCalls) e) ∧ ∃ c ∈ pairCalls, ¬ c.Known)) := by
  have hport : ∀ p, (pairAddr p).hasPort := by decide
  have hstart : ∀ p, ∃ self : ProcessTrack (Fin 2),
      ProcessTrack.init (pairAddr p) (.id 0) (.id 0) = .ok self := fun p =>
    ProcessTrack.exists_init (hport p) (u := 0) (g := 0) rfl rfl fun _ _ _ => rfl
  choose s hs using hstart
  refine ⟨s, hs, conserved_run hport (fun p => ⟨_, _, hs p⟩) pairCalls ?_ acyclic_pairCalls⟩
  intro c hc
  rcases List.mem_cons.mp hc with rfl | hc
  · trivial
  · obtain rfl := List.mem_singleton.mp hc
    exact Or.inl rfl

end Track
end LdmsTest
