import LdmsTest.Docker.AttrGrep
import LdmsTest.Docker.Placement
import Mathlib.Data.Nat.Bitwise

/-!
# Static addresses

With a subnet, `DockerCluster.__create` gives the containers the hosts of the subnet, from the
first one up.  `Network.create` has told Docker that the gateway is the address below the broadcast
address, and that Docker may give away the `/30` network at the broadcast address.  Nothing compares
the two.

* `Engine`: what the creation asks of Docker.
* `ipamPool`, `HostIter.next`, `Engine.createContainers`, `Engine.create`: the parts of the source,
  for a subnet that `ip_network` accepts.
* `Separate`: the addresses are distinct, and none is the gateway or in the range of Docker.
* `separate_iff`: when they are.
-/

namespace LdmsTest
namespace Docker

/-! ## Addresses -/

/-- An address: `ipaddress.IPv4Address` or `ipaddress.IPv6Address`. -/
inductive IpAddr where
  | v4 : ℕ → IpAddr
  | v6 : ℕ → IpAddr
  deriving DecidableEq

/-- `ip.ip_address(n)` -/
def ipAddress (n : ℤ) : Except PyError IpAddr :=
  if 0 ≤ n ∧ n < 2 ^ 32 then pure (.v4 n.toNat)
  else if 0 ≤ n ∧ n < 2 ^ 128 then pure (.v6 n.toNat)
  else throw ⟨.valueError, toString n ++ " does not appear to be an IPv4 or IPv6 address"⟩

/-- `int(ip_net.broadcast_address)` -/
def Subnet.broadcast : Subnet → ℕ
  | .v4 net => net.stop - 1
  | .v6 net => net.stop - 1

/-- `docker.types.IPAMPool`; the text of the range is that of `iprange`, and `"/30"`. -/
structure IpamPool where
  subnet : Subnet
  iprange : IpAddr
  gateway : IpAddr
  deriving DecidableEq

/-- The pool of `Network.create`. -/
def ipamPool (subnet : Subnet) : Except PyError IpamPool := do
  let bc := subnet.broadcast
  let gateway ← ipAddress (bc - 1)
  -- `bc & ~3`
  let iprange ← ipAddress (bc.ldiff 3)
  pure ⟨subnet, iprange, gateway⟩

/-- The address is in the `/30` network of another. -/
def IpAddr.InNet30 : IpAddr → IpAddr → Prop
  | .v4 a, .v4 r => a / 2 ^ (32 - 30) = r / 2 ^ (32 - 30)
  | .v6 a, .v6 r => a / 2 ^ (128 - 30) = r / 2 ^ (128 - 30)
  | _, _ => False

instance : DecidableRel IpAddr.InNet30 := fun a r => by
  cases a <;> cases r <;> unfold IpAddr.InNet30 <;> infer_instance

/-- `ip_itr`: what is left of `range(start, stop)`, or the list of a network of one address. -/
inductive HostIter where
  | v4 : ℕ → ℕ → HostIter
  | v6 : ℕ → ℕ → HostIter
  | list : HostIter

/-- `ip_net.hosts()` -/
def Subnet.hosts : Subnet → HostIter
  | .v4 net =>
    if net.prefixlen = 32 then .list
    else if net.prefixlen = 31 then .v4 net.addr net.stop
    else .v4 (net.addr + 1) (net.stop - 1)
  | .v6 net =>
    if net.prefixlen = 128 then .list
    else if net.prefixlen = 127 then .v6 net.addr net.stop
    else .v6 (net.addr + 1) net.stop

/-- `next(ip_itr)` -/
def HostIter.next : HostIter → Except PyError (IpAddr × HostIter)
  | .v4 start stop =>
    if start < stop then pure (.v4 start, .v4 (start + 1) stop) else throw ⟨.stopIteration, ""⟩
  | .v6 start stop =>
    if start < stop then pure (.v6 start, .v6 (start + 1) stop) else throw ⟨.stopIteration, ""⟩
  | .list => throw ⟨.typeError, "'list' object is not an iterator"⟩

/-! ## The creation -/

/-- What the creation asks of Docker, whose state is a `D`. -/
structure Engine (D C N : Type) where
  /-- `client.networks.create(...)`, with the attributes of the network -/
  createNetwork : IpamPool → D → Except PyError (Attr × D)
  /-- `cl.containers.create(**params)` -/
  createContainer : C × N → D → Except PyError D
  /-- `net.connect(cont, ipv4_address=...)` -/
  connect : C × N → IpAddr → D → Except PyError D
  /-- the start of the container, and the wait after the first one -/
  start : C × N → D → Except PyError D

variable {D C N : Type}

/-- The loop over `cont_build`: the addresses of the containers.  A container that does not start is
not tried again: what `start` raises is raised. -/
def Engine.createContainers (eng : Engine D C N) :
    List (C × N) → HostIter → D → Except PyError (List IpAddr)
  | [], _, _ => pure []
  | cont :: build, ipItr, d => do
    let d ← eng.createContainer cont d
    let (ipAddr, ipItr) ← ipItr.next
    let d ← eng.connect cont ipAddr d
    let d ← eng.start cont d
    let addrs ← eng.createContainers build ipItr d
    pure (ipAddr :: addrs)

/-- `__create(..., subnet=subnet)`: the pool of the network, and the addresses of the containers.
`lst` is what `attr_grep` has collected. -/
def Engine.create (eng : Engine D C N) (clients : List (ℤ × C)) (nodes : List N) (subnet : Subnet)
    (lst : List Attr) (d : D) : Except PyError (IpamPool × List IpAddr) := do
  let (_, build) ← Placement.place clients nodes
  let pool ← ipamPool subnet
  let (attrs, d) ← eng.createNetwork pool d
  let _ ← (Network.init attrs lst).1
  let addrs ← eng.createContainers build subnet.hosts d
  pure (pool, addrs)

/-- The addresses are distinct, and none is the gateway or in the range of Docker. -/
structure Separate (pool : IpamPool) (addrs : List IpAddr) : Prop where
  nodup : addrs.Nodup
  ne_gateway : ∀ a ∈ addrs, a ≠ pool.gateway
  not_inNet30 : ∀ a ∈ addrs, ¬ a.InNet30 pool.iprange

/-- The subnet has room for `n` containers below the `/30` network at its end.  An IPv6 network of
numbers below `2 ^ 32` has its range among the IPv4 addresses. -/
def Subnet.HasRoom : Subnet → ℕ → Prop
  | .v4 net, n => n + 4 < net.size
  | .v6 net, n => n + 2 ^ 98 < net.size ∨ net.stop ≤ 2 ^ 32

/-! ## The addresses handed out -/

/-- The next `n` addresses, if there are. -/
def HostIter.take : HostIter → ℕ → List IpAddr
  | .v4 start _, n => (List.range' start n).map .v4
  | .v6 start _, n => (List.range' start n).map .v6
  | .list, _ => []

/-- There are `n` addresses left. -/
def HostIter.Has : HostIter → ℕ → Prop
  | .v4 start stop, n => n = 0 ∨ start + n ≤ stop
  | .v6 start stop, n => n = 0 ∨ start + n ≤ stop
  | .list, n => n = 0

theorem HostIter.next_spec {itr itr' : HostIter} {a : IpAddr} (h : itr.next = .ok (a, itr'))
    {n : ℕ} (hn : itr'.Has n) : itr.Has (n + 1) ∧ itr.take (n + 1) = a :: itr'.take n := by
  cases itr with
  | v4 start stop =>
    rw [next] at h
    split at h
    · next hlt =>
      cases h
      exact ⟨Or.inr (by rcases hn with rfl | hn <;> omega), rfl⟩
    · cases h
  | v6 start stop =>
    rw [next] at h
    split at h
    · next hlt =>
      cases h
      exact ⟨Or.inr (by rcases hn with rfl | hn <;> omega), rfl⟩
    · cases h
  | list => cases h

/-- **The loop** takes one address for each container, in order. -/
theorem Engine.createContainers_spec {eng : Engine D C N} {build : List (C × N)} {itr : HostIter}
    {d : D}
    {addrs : List IpAddr} (h : eng.createContainers build itr d = .ok addrs) :
    itr.Has build.length ∧ addrs = itr.take build.length := by
  induction build generalizing itr d addrs with
  | nil =>
    cases h
    cases itr with
    | v4 start stop => exact ⟨Or.inl rfl, rfl⟩
    | v6 start stop => exact ⟨Or.inl rfl, rfl⟩
    | list => exact ⟨rfl, rfl⟩
  | cons cont build ih =>
    rw [createContainers] at h
    obtain ⟨d₁, -, h⟩ := exists_of_bind_ok h
    obtain ⟨⟨a, itr'⟩, hnext, h⟩ := exists_of_bind_ok h
    obtain ⟨d₂, -, h⟩ := exists_of_bind_ok h
    obtain ⟨d₃, -, h⟩ := exists_of_bind_ok h
    obtain ⟨addrs', hrest, h⟩ := exists_of_bind_ok h
    cases h
    obtain ⟨hhas, htake⟩ := ih hrest
    obtain ⟨hhas', htake'⟩ := HostIter.next_spec hnext hhas
    exact ⟨hhas', by rw [htake, List.length_cons, htake']⟩

/-- The nodes get a container each. -/
theorem length_of_place {clients : List (ℤ × C)} {nodes : List N} {tbl : List (Ent C)}
    {build : List (C × N)} (h : Placement.place clients nodes = .ok (tbl, build)) :
    build.length = nodes.length := by
  obtain ⟨tbl', htbl, h⟩ := exists_of_bind_ok h
  obtain ⟨build', hbuild, h⟩ := exists_of_bind_ok h
  cases h
  have hclients : clients ≠ [] := by
    rintro rfl
    cases htbl
  obtain ⟨tbl', htbl', halloc⟩ :=
    Placement.exists_allocate hclients (Int.natCast_nonneg nodes.length)
  cases htbl.symm.trans htbl'
  have hsum : ((0 : ℕ) : ℤ) + (tbl.map Ent.alloc).sum = nodes.length := by
    rw [halloc.sum, Nat.cast_zero, zero_add]
  obtain ⟨build', hbuild', hsnd, -⟩ := Placement.exists_contBuild halloc.alloc_nonneg hsum
  cases hbuild.symm.trans hbuild'
  have hlength := congrArg List.length hsnd
  rwa [List.length_map, List.drop_zero] at hlength

/-- **The hosts** are in the network, and `c` addresses are left above `n` of them exactly if there
is room.  The two kinds of networks differ in the `last` address, and in what a host is. -/
theorem exists_hosts {w : ℕ} (hw : 0 < w) {net : Block w} {last n : ℕ} (hlast : last ≤ net.stop)
    (hn : 0 < n) {iter : ℕ → ℕ → HostIter} {host : ℕ → IpAddr}
    (htake : ∀ start stop, (iter start stop).take n = (List.range' start n).map host)
    (hiter : ∀ start stop, (iter start stop).Has n ↔ n = 0 ∨ start + n ≤ stop) {hosts : HostIter}
    (hhosts : hosts = if net.prefixlen = w then .list
      else if net.prefixlen = w - 1 then iter net.addr net.stop else iter (net.addr + 1) last)
    (hhas : hosts.Has n) :
    ∃ start, hosts.take n = (List.range' start n).map host ∧ net.addr ≤ start ∧
      start + n ≤ net.stop ∧ ∀ c, 2 ≤ c → (start + n + c ≤ net.stop ↔ n + c < net.size) := by
  have hstop : net.stop = net.addr + net.size := rfl
  split at hhosts
  · rw [hhosts] at hhas
    exact absurd (show n = 0 from hhas) hn.ne'
  · split at hhosts
    · next hlen =>
      have hsize : net.size = 2 := by rw [Block.size, hlen, Nat.sub_sub_self hw, pow_one]
      rw [hhosts, hiter] at hhas
      exact ⟨net.addr, by rw [hhosts, htake], le_rfl, by omega, fun c hc => by omega⟩
    · rw [hhosts, hiter] at hhas
      exact ⟨net.addr + 1, by rw [hhosts, htake], by omega, by omega, fun c hc => by omega⟩

/-! ## The range and the gateway -/

theorem ipAddress_spec {n : ℤ} {a : IpAddr} (h : ipAddress n = .ok a) :
    0 ≤ n ∧ a = if n < 2 ^ 32 then .v4 n.toNat else .v6 n.toNat := by
  rw [ipAddress] at h
  split at h
  · next hn =>
    cases h
    exact ⟨hn.1, (if_pos hn.2).symm⟩
  · next hn =>
    split at h
    · next hn' =>
      cases h
      exact ⟨hn'.1, (if_neg fun hlt => hn ⟨hn'.1, hlt⟩).symm⟩
    · cases h

/-- `n & ~3` -/
theorem ldiff_three (n : ℕ) : n.ldiff 3 = n / 4 * 4 := by
  have hshift : n / 4 * 4 = n >>> 2 <<< 2 := by
    rw [Nat.shiftLeft_eq, Nat.shiftRight_eq_div_pow]
  refine Nat.eq_of_testBit_eq fun i => ?_
  rw [Nat.testBit_ldiff, hshift, Nat.testBit_shiftLeft, Nat.testBit_shiftRight]
  rcases i with _ | _ | i
  · simp
  · simp [Nat.testBit]
  · have h3 : Nat.testBit 3 (i + 2) = false :=
      Nat.testBit_eq_false_of_lt (by rw [Nat.pow_add]; have := Nat.two_pow_pos i; omega)
    simp [show i + 1 + 1 = i + 2 from rfl, h3, Nat.add_comm]

theorem ipamPool_spec {subnet : Subnet} {pool : IpamPool} (h : ipamPool subnet = .ok pool) :
    ∃ gw r : ℕ, gw + 1 = subnet.broadcast ∧ r = subnet.broadcast / 4 * 4 ∧
      pool.gateway = (if gw < 2 ^ 32 then .v4 gw else .v6 gw) ∧
      pool.iprange = (if r < 2 ^ 32 then .v4 r else .v6 r) := by
  obtain ⟨gateway, hgateway, h⟩ := exists_of_bind_ok h
  obtain ⟨iprange, hiprange, h⟩ := exists_of_bind_ok h
  cases h
  obtain ⟨hnonneg, hgateway⟩ := ipAddress_spec hgateway
  obtain ⟨-, hiprange⟩ := ipAddress_spec hiprange
  refine ⟨subnet.broadcast - 1, _, by omega, rfl, ?_, ?_⟩
  · have hcast : ((subnet.broadcast : ℤ) - 1).toNat = subnet.broadcast - 1 := by omega
    have hlt : (subnet.broadcast : ℤ) - 1 < 2 ^ 32 ↔ subnet.broadcast - 1 < 2 ^ 32 := by omega
    rw [hcast] at hgateway
    simpa only [hlt] using hgateway
  · rw [ldiff_three, Int.toNat_natCast] at hiprange
    exact_mod_cast hiprange

/-- **The range of Docker** is the last four addresses. -/
theorem inNet30_v4_iff {net : Block 32} {pool : IpamPool} (h : ipamPool (.v4 net) = .ok pool)
    {x : ℕ} (hx : net.addr ≤ x) (hx' : x < net.stop) :
    (IpAddr.v4 x).InNet30 pool.iprange ↔ net.stop ≤ x + 4 := by
  obtain ⟨gw, r, -, hr, -, hiprange⟩ := ipamPool_spec h
  have hbc : (Subnet.v4 net).broadcast = net.stop - 1 := rfl
  have hlt : r < 2 ^ 32 := by
    have := net.stop_le
    omega
  have hdiv : r / 2 ^ 2 = (net.stop - 1) / 2 ^ 2 := by omega
  rw [hiprange, if_pos hlt]
  show x / 2 ^ 2 = r / 2 ^ 2 ↔ _
  rw [hdiv]
  exact net.div_eq_div_last_iff hx hx'

theorem inNet30_v6_iff {net : Block 128} {pool : IpamPool} (h : ipamPool (.v6 net) = .ok pool)
    {x : ℕ} (hx : net.addr ≤ x) (hx' : x < net.stop) :
    (IpAddr.v6 x).InNet30 pool.iprange ↔ 2 ^ 32 < net.stop ∧ net.stop ≤ x + 2 ^ 98 := by
  obtain ⟨gw, r, -, hr, -, hiprange⟩ := ipamPool_spec h
  have hbc : (Subnet.v6 net).broadcast = net.stop - 1 := rfl
  rw [hiprange]
  split
  · next hlt =>
    refine iff_of_false id ?_
    rintro ⟨hstop, -⟩
    omega
  · next hlt =>
    have hdiv : r / 2 ^ 98 = (net.stop - 1) / 2 ^ 98 := by omega
    show x / 2 ^ 98 = r / 2 ^ 98 ↔ _
    rw [hdiv, net.div_eq_div_last_iff hx hx']
    exact (and_iff_right (by omega)).symm

/-- The gateway is in the range of Docker. -/
theorem stop_le_of_gateway_v4 {net : Block 32} {pool : IpamPool}
    (h : ipamPool (.v4 net) = .ok pool) {x : ℕ} (hx : .v4 x = pool.gateway) :
    net.stop ≤ x + 4 := by
  obtain ⟨gw, r, hgw, -, hgateway, -⟩ := ipamPool_spec h
  have hbc : (Subnet.v4 net).broadcast = net.stop - 1 := rfl
  rw [hgateway] at hx
  split at hx
  · cases hx
    omega
  · cases hx

theorem stop_le_of_gateway_v6 {net : Block 128} {pool : IpamPool}
    (h : ipamPool (.v6 net) = .ok pool) {x : ℕ} (hx : .v6 x = pool.gateway) :
    2 ^ 32 < net.stop ∧ net.stop ≤ x + 2 ^ 98 := by
  obtain ⟨gw, r, hgw, -, hgateway, -⟩ := ipamPool_spec h
  have hbc : (Subnet.v6 net).broadcast = net.stop - 1 := rfl
  rw [hgateway] at hx
  split at hx
  · cases hx
  · cases hx
    omega

/-! ## When the addresses are separate -/

/-- Addresses are separate if they are distinct and those of the range are not among them. -/
theorem separate_map_iff {pool : IpamPool} {f : ℕ → IpAddr} (hf : Function.Injective f)
    {start n stop c : ℕ} (hn : 0 < n) {P : Prop}
    (hnet : ∀ x, start ≤ x → x < start + n → ((f x).InNet30 pool.iprange ↔ P ∧ stop ≤ x + c))
    (hgateway : ∀ x, f x = pool.gateway → P ∧ stop ≤ x + c) :
    Separate pool ((List.range' start n).map f) ↔ (P → start + n + c ≤ stop) := by
  constructor
  · intro h hP
    have hmem : f (start + n - 1) ∈ (List.range' start n).map f :=
      List.mem_map_of_mem (List.mem_range'_1.mpr ⟨by omega, by omega⟩)
    have hout := h.not_inNet30 _ hmem
    rw [hnet _ (by omega) (by omega)] at hout
    by_contra hlt
    exact hout ⟨hP, by omega⟩
  · intro h
    refine ⟨(List.nodup_range' 1).map hf, ?_, ?_⟩
    · refine List.forall_mem_map.mpr fun x hx heq => ?_
      obtain ⟨hx, hx'⟩ := List.mem_range'_1.mp hx
      obtain ⟨hP, hstop⟩ := hgateway x heq
      have := h hP
      omega
    · refine List.forall_mem_map.mpr fun x hx hin => ?_
      obtain ⟨hx, hx'⟩ := List.mem_range'_1.mp hx
      obtain ⟨hP, hstop⟩ := (hnet x hx hx').mp hin
      have := h hP
      omega

theorem separate_hosts_iff {subnet : Subnet} {pool : IpamPool} (h : ipamPool subnet = .ok pool)
    {n : ℕ} (hn : 0 < n) (hhas : subnet.hosts.Has n) :
    Separate pool (subnet.hosts.take n) ↔ subnet.HasRoom n := by
  cases subnet with
  | v4 net =>
    obtain ⟨start, htake, hstart, hstop, hroom⟩ := exists_hosts (by decide) (Nat.sub_le net.stop 1) hn
      (fun _ _ => rfl) (fun _ _ => Iff.rfl) (rfl : (Subnet.v4 net).hosts = _) hhas
    rw [htake, separate_map_iff (P := True) (fun _ _ => IpAddr.v4.inj) hn, true_imp_iff]
    · exact hroom 4 (by decide)
    · intro x hx hx'
      rw [inNet30_v4_iff h (by omega) (by omega), true_and]
    · exact fun x hx => ⟨trivial, stop_le_of_gateway_v4 h hx⟩
  | v6 net =>
    obtain ⟨start, htake, hstart, hstop, hroom⟩ := exists_hosts (by decide) (le_refl net.stop) hn
      (fun _ _ => rfl) (fun _ _ => Iff.rfl) (rfl : (Subnet.v6 net).hosts = _) hhas
    rw [htake, separate_map_iff (fun _ _ => IpAddr.v6.inj) hn
      (fun x hx hx' => inNet30_v6_iff h (by omega) (by omega))
      (fun x hx => stop_le_of_gateway_v6 h hx), hroom (2 ^ 98) (by decide)]
    show _ ↔ n + 2 ^ 98 < net.size ∨ net.stop ≤ 2 ^ 32
    omega

/-- **When the static addresses are separate** from each other, the gateway and the range of Docker:
exactly if there are no containers, or the subnet has room for them below the range. -/
theorem Engine.separate_iff {eng : Engine D C N} {clients : List (ℤ × C)} {nodes : List N}
    {subnet : Subnet} {lst : List Attr} {d : D} {pool : IpamPool} {addrs : List IpAddr}
    (h : eng.create clients nodes subnet lst d = .ok (pool, addrs)) :
    Separate pool addrs ↔ nodes = [] ∨ subnet.HasRoom nodes.length := by
  obtain ⟨⟨tbl, build⟩, hplace, h⟩ := exists_of_bind_ok h
  obtain ⟨pool', hpool, h⟩ := exists_of_bind_ok h
  obtain ⟨⟨attrs, d₁⟩, -, h⟩ := exists_of_bind_ok h
  obtain ⟨nets, -, h⟩ := exists_of_bind_ok h
  obtain ⟨addrs', hloop, h⟩ := exists_of_bind_ok h
  cases h
  obtain ⟨hhas, htake⟩ := createContainers_spec hloop
  rw [length_of_place hplace] at hhas htake
  rcases Nat.eq_zero_or_pos nodes.length with hzero | hpos
  · have hnil : addrs = [] := by
      rw [htake, hzero]
      cases subnet.hosts <;> rfl
    refine iff_of_true ?_ (Or.inl (List.length_eq_zero_iff.mp hzero))
    rw [hnil]
    exact ⟨List.nodup_nil, nofun, nofun⟩
  · rw [htake, separate_hosts_iff hpool hpos hhas]
    exact (or_iff_right (List.ne_nil_of_length_pos hpos)).symm

/-- `10.1.0.0/29` -/
def net29 : Block 32 where
  addr := 10 * 2 ^ 24 + 2 ^ 16
  prefixlen := 29
  prefixlen_le := by decide
  dvd_addr := by decide
  addr_lt := by decide

/-- A Docker that takes an IPv4 address that is not the gateway and not taken yet: its state is the
gateway and the addresses taken. -/
def freshEngine : Engine (List IpAddr) String String where
  createNetwork pool _ := pure (DockerNetwork.attrs ⟨"ldms-test", [pool.subnet]⟩, [pool.gateway])
  createContainer _ taken := pure taken
  connect _ a taken :=
    if a ∈ taken then throw ⟨.runtimeError, "Address already in use"⟩ else pure (a :: taken)
  start _ taken := pure taken

/-- The pool of `10.1.0.0/29`: the gateway is `10.1.0.6`, the range `10.1.0.4/30`. -/
def pool29 : IpamPool where
  subnet := .v4 net29
  iprange := .v4 (net29.addr + 4)
  gateway := .v4 (net29.addr + 6)

theorem create_threeNodes :
    freshEngine.create [(0, "host")] ["n1", "n2", "n3"] (.v4 net29) [] [] =
      .ok (pool29, [.v4 (net29.addr + 1), .v4 (net29.addr + 2), .v4 (net29.addr + 3)]) := by
  decide +kernel

theorem separate_threeNodes :
    Separate pool29 [.v4 (net29.addr + 1), .v4 (net29.addr + 2), .v4 (net29.addr + 3)] ↔
      ["n1", "n2", "n3"] = [] ∨ (Subnet.v4 net29).HasRoom 3 :=
  Engine.separate_iff create_threeNodes

/-- The fourth node gets `10.1.0.4`, the first address of the range of Docker. -/
theorem not_separate_fourNodes :
    ∃ addrs, freshEngine.create [(0, "host")] ["n1", "n2", "n3", "n4"] (.v4 net29) [] [] =
        .ok (pool29, addrs) ∧ ¬ Separate pool29 addrs := by
  refine ⟨[.v4 (net29.addr + 1), .v4 (net29.addr + 2), .v4 (net29.addr + 3), .v4 (net29.addr + 4)],
    by decide +kernel, fun h => ?_⟩
  exact h.not_inNet30 (.v4 (net29.addr + 4)) (by decide) (by decide)

end Docker
end LdmsTest
