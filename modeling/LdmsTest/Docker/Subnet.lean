import LdmsTest.Foundation.Block
import LdmsTest.Foundation.Fuelled
import LdmsTest.Foundation.Numeral
import LdmsTest.Python.Value
import Mathlib.Data.List.Pairwise

/-!
# Subnets of new networks

With IPv6, `Network.create` of `runtime/docker.py` chooses an IPv6 and an IPv4 subnet for the new
network: the one right above the highest of those that Docker has, where only IPv4 subnets
whose text starts with `172.` count, and a fixed one if there is none.

`attr_grep` collects the subnets from what Docker says of its networks, in a list that is the
default value of a parameter: it is never emptied.  In `Attr`, which is what Docker says, the
text of a subnet is the subnet.  `Network(obj)` looks at that list, too, and may raise when Docker
has made the network already.

* `nextIpv4Subnet`, `nextIpv6Subnet`, `Network.create`: the functions of the source.
* `creations`: networks created one after the other.
* `creations_disjoint_iff`: the IPv6 subnets chosen never meet an existing one; the IPv4 subnets
  chosen do not exactly when nothing starts right above the highest subnet that counts, and, if
  none counts, nothing covers the fixed one.
-/

namespace LdmsTest
namespace Docker

open Block

/-! ## Networks -/

/-- A subnet: `ipaddress.IPv4Network` or `ipaddress.IPv6Network`. -/
inductive Subnet where
  | v4 : Block 32 → Subnet
  | v6 : Block 128 → Subnet
  deriving DecidableEq

/-- What Docker says of a network. -/
inductive Attr where
  | null : Attr
  | bool : Bool → Attr
  | int : ℤ → Attr
  | text : String → Attr
  | subnet : Subnet → Attr
  | list : List Attr → Attr
  | dict : List (String × Attr) → Attr

/-- `attr.lower() in k.lower()` -/
def matchesAttr (attr k : String) : Bool :=
  decide (attr.toLower.toList <:+: k.toLower.toList)

mutual

/-- `attr_grep(d, attr, lst)`, with `lst` as it is afterwards -/
def attrGrep (attr : String) : Attr → List Attr → Except PyError (List Attr)
  | .list xs, lst => attrGrepList attr xs lst
  | .dict d, lst => attrGrepDict attr d lst
  | .null, _ => throw ⟨.attributeError, "'NoneType' object has no attribute 'items'"⟩
  | .bool _, _ => throw ⟨.attributeError, "'bool' object has no attribute 'items'"⟩
  | .int _, _ => throw ⟨.attributeError, "'int' object has no attribute 'items'"⟩
  | .text _, _ => throw ⟨.attributeError, "'str' object has no attribute 'items'"⟩
  | .subnet _, _ => throw ⟨.attributeError, "'str' object has no attribute 'items'"⟩

def attrGrepList (attr : String) : List Attr → List Attr → Except PyError (List Attr)
  | [], lst => pure lst
  | .dict d :: xs, lst => do
    let lst ← attrGrepDict attr d lst
    attrGrepList attr xs lst
  | _ :: xs, lst => attrGrepList attr xs lst

def attrGrepDict (attr : String) : List (String × Attr) → List Attr → Except PyError (List Attr)
  | [], lst => pure lst
  | (k, v) :: d, lst =>
    if matchesAttr attr k then attrGrepDict attr d (lst ++ [v])
    else
      match v with
      | .list xs => do
        let lst ← attrGrepList attr xs lst
        attrGrepDict attr d lst
      | .dict e => do
        let lst ← attrGrepDict attr e lst
        attrGrepDict attr d lst
      | _ => attrGrepDict attr d lst

end

/-- `ip.ip_network(n)`, for a number: a network of one address -/
def ofInt (n : ℤ) : Except PyError Subnet :=
  if h : 0 ≤ n ∧ n < 2 ^ 32 then
    pure (.v4 ⟨n.toNat, 32, le_rfl, one_dvd _, by omega⟩)
  else if h : 0 ≤ n ∧ n < 2 ^ 128 then
    pure (.v6 ⟨n.toNat, 128, le_rfl, one_dvd _, by omega⟩)
  else throw ⟨.valueError, "does not appear to be an IPv4 or IPv6 network"⟩

/-- `ip.ip_network(s)` -/
def ipNetwork : Attr → Except PyError Subnet
  | .subnet s => pure s
  | .int n => ofInt n
  | .bool b => ofInt (if b then 1 else 0)
  | _ => throw ⟨.valueError, "does not appear to be an IPv4 or IPv6 network"⟩

/-- A network of Docker. -/
structure DockerNetwork where
  name : String
  subnets : List Subnet

/-- `network.attrs` -/
def DockerNetwork.attrs (n : DockerNetwork) : Attr :=
  .dict
    [("Name", .text n.name),
      ("IPAM", .dict
        [("Driver", .text "default"),
          ("Config", .list (n.subnets.map fun s => .dict [("Subnet", .subnet s)]))])]

/-- What `Network.create` finds: the networks of Docker, in the order in which they were created,
and the list that `attr_grep` collects in. -/
structure State where
  networks : List DockerNetwork
  grepped : List Attr

/-! ## The next subnet -/

/-- `next_subnet(net)` -/
def nextSubnet {w : ℕ} (net : Block w) : Except PyError (Block w) :=
  match net.next with
  | some b => pure b
  | none => throw ⟨.valueError, "Address not permitted"⟩

/-- The text of an IPv4 network. -/
def ipv4Text (b : Block 32) : String :=
  toString (b.addr / 2 ^ 24) ++ "." ++ toString (b.addr / 2 ^ 16 % 2 ^ 8) ++ "." ++
    toString (b.addr / 2 ^ 8 % 2 ^ 8) ++ "." ++ toString (b.addr % 2 ^ 8) ++ "/" ++
    toString b.prefixlen

/-- `str(s).startswith("172.")` -/
def counts (b : Block 32) : Bool :=
  "172.".toList.isPrefixOf (ipv4Text b).toList

/-- `172.172.0.0/24` -/
def fallback4 : Block 32 where
  addr := 172 * 2 ^ 24 + 172 * 2 ^ 16
  prefixlen := 24
  prefixlen_le := by decide
  dvd_addr := by decide
  addr_lt := by decide

/-- `fd00:0:0:1::/64` -/
def fallback6 : Block 128 where
  addr := 0xfd00 * 2 ^ 112 + 2 ^ 64
  prefixlen := 64
  prefixlen_le := by decide
  dvd_addr := by decide
  addr_lt := by decide

/-- The IPv4 networks among the subnets. -/
def ipv4Of (subnets : List Subnet) : List (Block 32) :=
  subnets.filterMap fun s => match s with
    | .v4 b => some b
    | .v6 _ => none

/-- The IPv6 networks among the subnets. -/
def ipv6Of (subnets : List Subnet) : List (Block 128) :=
  subnets.filterMap fun s => match s with
    | .v6 b => some b
    | .v4 _ => none

/-- `client.networks.list()`, the attributes of each -/
def State.attrs (s : State) : Attr :=
  .list (s.networks.map DockerNetwork.attrs)

/-- `[ ip.ip_network(s) for s in attr_grep(nets_attrs, 'subnet') ]` -/
def grepSubnets (s : State) : Except PyError (List Subnet × State) := do
  let lst ← attrGrep "subnet" s.attrs s.grepped
  let subnets ← lst.mapM ipNetwork
  pure (subnets, { s with grepped := lst })

/-- The network right above the highest of some, or a fixed one if there are none. -/
def nextAbove {w : ℕ} (nets : List (Block w)) (fallback : Block w) : Except PyError (Block w) :=
  match highest nets with
  | none => pure fallback
  | some top => nextSubnet top

/-- The network right above the highest of the subnets that `count` among those that Docker has, or a
fixed one if there are none. -/
def nextSubnetOf {w : ℕ} (count : List Subnet → List (Block w)) (fallback : Block w) (s : State) :
    Except PyError (Block w × State) := do
  let (subnets, s) ← grepSubnets s
  let net ← nextAbove (count subnets) fallback
  pure (net, s)

/-- `next_ipv6_subnet()` -/
def nextIpv6Subnet (s : State) : Except PyError (Block 128 × State) :=
  nextSubnetOf ipv6Of fallback6 s

/-- `next_ipv4_subnet()` -/
def nextIpv4Subnet (s : State) : Except PyError (Block 32 × State) :=
  nextSubnetOf (fun subnets => (ipv4Of subnets).filter counts) fallback4 s

/-! ## Creating a network -/

/-- `attr_grep(d, attr)`, with the list as it is after the call.  If it raises, it does so before it
collects anything. -/
def grepDefault (attr : String) (d : Attr) (lst : List Attr) :
    Except PyError (List Attr) × List Attr :=
  match attrGrep attr d lst with
  | .ok lst => (.ok lst, lst)
  | .error e => (.error e, lst)

/-- `ip.ip_network(f"{net.network_address}/{prefixlen}")` -/
def withPrefixlen {w : ℕ} (net : Block w) (prefixlen : ℕ) (h : prefixlen ≤ w := by decide) :
    Except PyError (Block w) :=
  if hdvd : 2 ^ (w - prefixlen) ∣ net.addr then pure ⟨net.addr, prefixlen, h, hdvd, net.addr_lt⟩
  else throw ⟨.valueError, "has host bits set"⟩

theorem prefixlen4_le : 24 ≤ 32 := by decide

theorem prefixlen6_le : 120 ≤ 128 := by decide

/-- The loop of `Network.__init__`: `net4` and `net6` from the subnets. -/
def lookAt (nets : Option (Block 32) × Option (Block 128)) (netStr : Attr) :
    Except PyError (Option (Block 32) × Option (Block 128)) := do
  match ← ipNetwork netStr with
  | .v4 net => do
    let net4 ← withPrefixlen net 24 prefixlen4_le
    pure (some net4, nets.2)
  | .v6 net => do
    let net6 ← withPrefixlen net 120 prefixlen6_le
    pure (nets.1, some net6)

/-- `Network(obj)`, for the attributes of `obj`: its `net4` and `net6` -/
def Network.init (attrs : Attr) (lst : List Attr) :
    Except PyError (Option (Block 32) × Option (Block 128)) × List Attr :=
  let (subnets, lst) := grepDefault "subnet" attrs lst
  (subnets >>= fun subnets => subnets.foldlM lookAt (none, none), lst)

/-- `Network(obj)`, for a network that Docker has made -/
def State.add (s : State) (obj : DockerNetwork) : Except PyError Unit × State :=
  let (nets, lst) := Network.init obj.attrs s.grepped
  (discard nets, { networks := s.networks ++ [obj], grepped := lst })

/-- A subnet is chosen, and used.  If choosing it raises, `attr_grep` has collected all the same. -/
def choosing {w : ℕ} (next : State → Except PyError (Block w × State))
    (use : Block w → State → Except PyError Unit × State) (s : State) :
    Except PyError Unit × State :=
  match next s with
  | .ok (net, s) => use net s
  | .error e => (.error e, { s with grepped := (grepDefault "subnet" s.attrs s.grepped).2 })

/-- `Network.create(name, ipv6=True)`, and the networks after it: `Network(obj)` may raise when the
network is made already. -/
def Network.create (name : String) : State → Except PyError Unit × State :=
  choosing nextIpv6Subnet fun net6 => choosing nextIpv4Subnet fun net4 s =>
    s.add ⟨name, [.v4 net4, .v6 net6]⟩

/-- A network is created: by `Network.create`, or with the result of `next_ipv4_subnet` or of
`next_ipv6_subnet` alone. -/
inductive Creation where
  | create : String → Creation
  | ipv4 : String → Creation
  | ipv6 : String → Creation

def Creation.step : Creation → State → Except PyError Unit × State
  | .create name => Network.create name
  | .ipv4 name => choosing nextIpv4Subnet fun net s => s.add ⟨name, [.v4 net]⟩
  | .ipv6 name => choosing nextIpv6Subnet fun net s => s.add ⟨name, [.v6 net]⟩

/-- Networks are created one after the other, whether the calls raise or not. -/
def creations (ops : List Creation) (s : State) : State :=
  ops.foldl (fun s op => (op.step s).2) s

/-! ## Collecting subnets -/

theorem matchesAttr_name : matchesAttr "subnet" "Name" = false := by decide +kernel

theorem matchesAttr_ipam : matchesAttr "subnet" "IPAM" = false := by decide +kernel

theorem matchesAttr_driver : matchesAttr "subnet" "Driver" = false := by decide +kernel

theorem matchesAttr_config : matchesAttr "subnet" "Config" = false := by decide +kernel

theorem matchesAttr_subnet : matchesAttr "subnet" "Subnet" = true := by decide +kernel

theorem attrGrepDict_nil (attr : String) (lst : List Attr) :
    attrGrepDict attr [] lst = .ok lst := by
  rw [attrGrepDict]
  rfl

theorem attrGrepDict_of_matches {attr k : String} (h : matchesAttr attr k = true) (v : Attr)
    (d : List (String × Attr)) (lst : List Attr) :
    attrGrepDict attr ((k, v) :: d) lst = attrGrepDict attr d (lst ++ [v]) :=
  (attrGrepDict.eq_def _ _ _).trans (if_pos h)

theorem attrGrepDict_text {attr k : String} (h : matchesAttr attr k = false) (t : String)
    (d : List (String × Attr)) (lst : List Attr) :
    attrGrepDict attr ((k, .text t) :: d) lst = attrGrepDict attr d lst :=
  (attrGrepDict.eq_def _ _ _).trans (if_neg (h ▸ Bool.false_ne_true))

theorem attrGrepDict_list {attr k : String} (h : matchesAttr attr k = false) (xs : List Attr)
    (d : List (String × Attr)) (lst : List Attr) :
    attrGrepDict attr ((k, .list xs) :: d) lst =
      attrGrepList attr xs lst >>= attrGrepDict attr d :=
  (attrGrepDict.eq_def _ _ _).trans (if_neg (h ▸ Bool.false_ne_true))

theorem attrGrepDict_dict {attr k : String} (h : matchesAttr attr k = false)
    (e d : List (String × Attr)) (lst : List Attr) :
    attrGrepDict attr ((k, .dict e) :: d) lst =
      attrGrepDict attr e lst >>= attrGrepDict attr d :=
  (attrGrepDict.eq_def _ _ _).trans (if_neg (h ▸ Bool.false_ne_true))

theorem attrGrepList_subnets (subnets : List Subnet) (lst : List Attr) :
    attrGrepList "subnet" (subnets.map fun s => .dict [("Subnet", .subnet s)]) lst =
      .ok (lst ++ subnets.map .subnet) := by
  induction subnets generalizing lst with
  | nil =>
    rw [List.map_nil, List.map_nil, List.append_nil, attrGrepList]
    rfl
  | cons s subnets ih =>
    rw [List.map_cons, attrGrepList, attrGrepDict_of_matches matchesAttr_subnet, attrGrepDict_nil,
      ok_bind, ih, List.map_cons, List.append_assoc, List.singleton_append]

theorem attrGrep_attrs (n : DockerNetwork) (lst : List Attr) :
    attrGrep "subnet" n.attrs lst = .ok (lst ++ n.subnets.map .subnet) := by
  rw [DockerNetwork.attrs, attrGrep, attrGrepDict_text matchesAttr_name,
    attrGrepDict_dict matchesAttr_ipam, attrGrepDict_text matchesAttr_driver,
    attrGrepDict_list matchesAttr_config, attrGrepList_subnets, ok_bind, attrGrepDict_nil, ok_bind,
    attrGrepDict_nil]

/-- The subnets that Docker has. -/
def State.existing (s : State) : List Subnet :=
  s.networks.flatMap DockerNetwork.subnets

theorem attrGrepList_networks (networks : List DockerNetwork) (lst : List Attr) :
    attrGrepList "subnet" (networks.map DockerNetwork.attrs) lst =
      .ok (lst ++ (networks.flatMap DockerNetwork.subnets).map .subnet) := by
  induction networks generalizing lst with
  | nil =>
    rw [List.map_nil, List.flatMap_nil, List.map_nil, List.append_nil, attrGrepList]
    rfl
  | cons n networks ih =>
    have hn := attrGrep_attrs n lst
    rw [DockerNetwork.attrs, attrGrep] at hn
    rw [List.map_cons, DockerNetwork.attrs, attrGrepList, hn, ok_bind, ih, List.flatMap_cons, List.map_append, List.append_assoc]

/-- Only subnets that Docker has were collected. -/
def Collected (s : State) : Prop :=
  ∃ seen : List Subnet, s.grepped = seen.map .subnet ∧ ∀ x ∈ seen, x ∈ s.existing

theorem mapM_ipNetwork (subnets : List Subnet) :
    (subnets.map Attr.subnet).mapM ipNetwork = .ok subnets := by
  induction subnets with
  | nil => rfl
  | cons s subnets ih =>
    rw [List.map_cons, List.mapM_cons, ih]
    rfl

/-- **What is collected are the subnets that Docker has.** -/
theorem grepSubnets_spec {s : State} (hs : Collected s) :
    ∃ subnets s', grepSubnets s = .ok (subnets, s') ∧ (∀ x, x ∈ subnets ↔ x ∈ s.existing) ∧
      s'.networks = s.networks ∧ Collected s' := by
  obtain ⟨seen, hseen, hsub⟩ := hs
  have hmem (x : Subnet) : x ∈ seen ++ s.existing ↔ x ∈ s.existing := by
    rw [List.mem_append]
    exact ⟨fun h => h.elim (hsub x) id, Or.inr⟩
  refine ⟨seen ++ s.existing, { s with grepped := (seen ++ s.existing).map .subnet }, ?_, hmem, rfl,
    seen ++ s.existing, rfl, fun x hx => (hmem x).mp hx⟩
  rw [grepSubnets, State.attrs, attrGrep, attrGrepList_networks, hseen, ← List.map_append]
  show ((seen ++ s.existing).map Attr.subnet).mapM ipNetwork >>= _ = _
  rw [mapM_ipNetwork]
  rfl

/-! ## The networks that count -/

theorem toList_toString (n : ℕ) : (toString n).toList = Nat.toDigits 10 n :=
  String.toList_ofList

theorem ne_dot_of_mem_toString {n : ℕ} {c : Char} (h : c ∈ (toString n).toList) : c ≠ '.' := by
  rw [toList_toString] at h
  obtain ⟨d, hd, rfl⟩ := Numeral.exists_of_mem_toDigits (by decide) h
  have hne : ∀ d < 10, Nat.digitChar d ≠ '.' := by decide
  exact hne d hd

/-- A text starts with another one up to a separator exactly if it is the other one up to
there. -/
theorem isPrefixOf_iff_of_notMem {sep : Char} {xs ys : List Char} (hxs : sep ∉ xs) (hys : sep ∉ ys)
    (rest : List Char) : (xs ++ [sep]).isPrefixOf (ys ++ sep :: rest) ↔ xs = ys := by
  rw [List.isPrefixOf_iff_prefix]
  induction xs generalizing ys with
  | nil =>
    cases ys with
    | nil => simp
    | cons y ys =>
      rw [List.mem_cons, not_or] at hys
      simp [hys.1]
  | cons x xs ih =>
    rw [List.mem_cons, not_or] at hxs
    cases ys with
    | nil => simp [Ne.symm hxs.1]
    | cons y ys =>
      rw [List.mem_cons, not_or] at hys
      rw [List.cons_append, List.cons_append, List.cons_prefix_cons, ih hxs.2 hys.2,
        List.cons.injEq]

/-- **What counts** are the networks that start in `172.0.0.0/8`. -/
theorem counts_iff {b : Block 32} : counts b = true ↔ b.addr / 2 ^ 24 = 172 := by
  have h172 : "172.".toList = (toString 172).toList ++ ['.'] := by decide
  have htext : (ipv4Text b).toList = (toString (b.addr / 2 ^ 24)).toList ++ '.' ::
      (toString (b.addr / 2 ^ 16 % 2 ^ 8) ++ "." ++ toString (b.addr / 2 ^ 8 % 2 ^ 8) ++ "." ++
        toString (b.addr % 2 ^ 8) ++ "/" ++ toString b.prefixlen).toList := by
    simp [ipv4Text]
  have hdot (n : ℕ) : '.' ∉ (toString n).toList := fun h => ne_dot_of_mem_toString h rfl
  rw [counts, h172, htext, isPrefixOf_iff_of_notMem (hdot _) (hdot _), toList_toString,
    toList_toString]
  constructor
  · intro h
    have hvalue := congrArg (Numeral.value 10) h
    rw [Numeral.value_toDigits (by decide) (by decide),
      Numeral.value_toDigits (by decide) (by decide)] at hvalue
    exact hvalue.symm
  · intro h
    rw [h]

/-! ## What is chosen -/

/-- The IPv4 subnets that Docker has. -/
def State.existing4 (s : State) : List (Block 32) :=
  ipv4Of s.existing

/-- The IPv6 subnets that Docker has. -/
def State.existing6 (s : State) : List (Block 128) :=
  ipv6Of s.existing

theorem mem_ipv4Of {subnets : List Subnet} {b : Block 32} : b ∈ ipv4Of subnets ↔ .v4 b ∈ subnets := by
  rw [ipv4Of, List.mem_filterMap]
  constructor
  · rintro ⟨x, hx, hb⟩
    cases x with
    | v4 c =>
      obtain rfl := Option.some_inj.mp hb
      exact hx
    | v6 c => cases hb
  · exact fun h => ⟨_, h, rfl⟩

theorem mem_ipv6Of {subnets : List Subnet} {b : Block 128} :
    b ∈ ipv6Of subnets ↔ .v6 b ∈ subnets := by
  rw [ipv6Of, List.mem_filterMap]
  constructor
  · rintro ⟨x, hx, hb⟩
    cases x with
    | v6 c =>
      obtain rfl := Option.some_inj.mp hb
      exact hx
    | v4 c => cases hb
  · exact fun h => ⟨_, h, rfl⟩

theorem nextSubnetOf_eq {w : ℕ} (count : List Subnet → List (Block w)) (fallback : Block w)
    {s : State} (hs : Collected s) :
    ∃ subnets s', (∀ x, x ∈ subnets ↔ x ∈ s.existing) ∧ s'.networks = s.networks ∧ Collected s' ∧
      nextSubnetOf count fallback s =
        (nextAbove (count subnets) fallback).map fun net => (net, s') := by
  obtain ⟨subnets, s', hgrep, hmem, hnetworks, hs'⟩ := grepSubnets_spec hs
  refine ⟨subnets, s', hmem, hnetworks, hs', ?_⟩
  rw [nextSubnetOf, hgrep, ok_bind]
  show (nextAbove (count subnets) fallback >>= fun net => pure (net, s')) = _
  cases nextAbove (count subnets) fallback with
  | error e => rfl
  | ok net => rfl

theorem nextIpv6Subnet_eq {s : State} (hs : Collected s) :
    ∃ nets s', (∀ b, b ∈ nets ↔ b ∈ s.existing6) ∧
      nextIpv6Subnet s = (nextAbove nets fallback6).map fun net => (net, s') := by
  obtain ⟨subnets, s', hmem, -, -, heq⟩ := nextSubnetOf_eq ipv6Of fallback6 hs
  refine ⟨ipv6Of subnets, s', fun b => ?_, heq⟩
  rw [mem_ipv6Of, hmem, State.existing6, mem_ipv6Of]

theorem nextIpv4Subnet_eq {s : State} (hs : Collected s) :
    ∃ nets s', (∀ b, b ∈ nets ↔ b ∈ s.existing4 ∧ counts b = true) ∧
      nextIpv4Subnet s = (nextAbove nets fallback4).map fun net => (net, s') := by
  obtain ⟨subnets, s', hmem, -, -, heq⟩ :=
    nextSubnetOf_eq (fun subnets => (ipv4Of subnets).filter counts) fallback4 hs
  refine ⟨(ipv4Of subnets).filter counts, s', fun b => ?_, heq⟩
  rw [List.mem_filter, mem_ipv4Of, hmem, State.existing4, mem_ipv4Of]

theorem nextAbove_spec {w : ℕ} {nets : List (Block w)} {fallback net : Block w}
    (h : nextAbove nets fallback = .ok net) :
    (nets = [] ∧ net = fallback) ∨ ∃ top, highest nets = some top ∧ top.next = some net := by
  unfold nextAbove at h
  split at h
  · next hnone =>
    cases h
    exact Or.inl ⟨highest_eq_none_iff.mp hnone, rfl⟩
  · next top htop =>
    refine Or.inr ⟨top, htop, ?_⟩
    unfold nextSubnet at h
    split at h
    · next hnext =>
      cases h
      exact hnext
    · cases h

/-! ## Disjoint networks -/

/-- No two blocks have an address in common. -/
def Apart {w : ℕ} (nets : List (Block w)) : Prop :=
  nets.Pairwise fun b c => ¬ Meets b c

theorem Apart.eq_or {w : ℕ} {nets : List (Block w)} (h : Apart nets) {b c : Block w}
    (hb : b ∈ nets) (hc : c ∈ nets) : b = c ∨ ¬ Meets b c := by
  by_cases hbc : b = c
  · exact Or.inl hbc
  · have : Std.Symm fun b c : Block w => ¬ Meets b c := ⟨fun _ _ hne hmeets => hne hmeets.symm⟩
    exact Or.inr (List.Pairwise.forall h hb hc hbc)

/-- The existing IPv6 networks are disjoint, and only existing subnets were collected. -/
structure State.Good6 (s : State) : Prop where
  collected : Collected s
  apart6 : Apart s.existing6

/-- The existing IPv4 networks are disjoint, too. -/
structure State.Good (s : State) : Prop extends State.Good6 s where
  apart4 : Apart s.existing4

/-- The IPv4 network chosen is disjoint from every existing one. -/
def Fresh4 (s : State) : Prop :=
  ∀ net s', nextIpv4Subnet s = .ok (net, s') → ∀ b ∈ s.existing4, ¬ Meets net b

/-- The IPv6 network chosen is disjoint from every existing one. -/
def Fresh6 (s : State) : Prop :=
  ∀ net s', nextIpv6Subnet s = .ok (net, s') → ∀ b ∈ s.existing6, ¬ Meets net b

/-- **The IPv6 network chosen is always disjoint from the existing ones.** -/
theorem State.Good6.fresh6 {s : State} (hs : s.Good6) : Fresh6 s := by
  intro net s' h b hb
  obtain ⟨nets, s₁, hnets, heq⟩ := nextIpv6Subnet_eq hs.collected
  rw [heq] at h
  cases hnext : nextAbove nets fallback6 with
  | error e => rw [hnext] at h; cases h
  | ok net' =>
    rw [hnext] at h
    cases h
    rcases nextAbove_spec hnext with ⟨rfl, -⟩ | ⟨top, htop, habove⟩
    · exact absurd ((hnets b).mpr hb) List.not_mem_nil
    · have hle := addr_le_highest htop ((hnets b).mpr hb)
      have hmem := (hnets top).mp (mem_of_highest htop)
      rw [meets_next_iff habove (hs.apart6.eq_or hb hmem)]
      rintro ⟨hstop, -⟩
      exact absurd (lt_of_lt_of_le top.addr_lt_stop (le_trans' hle hstop)) (lt_irrefl _)

/-- **Nothing is in the way**: if no network counts, none covers the fixed one, and if one is the
highest of those that count, none starts in the block of its size right above it. -/
structure Clear (s : State) : Prop where
  fallback : (∀ b ∈ s.existing4, counts b = false) →
    ∀ b ∈ s.existing4, ¬ (b.addr ≤ fallback4.addr ∧ fallback4.addr < b.stop)
  above : ∀ top ∈ s.existing4, counts top = true →
    (∀ b ∈ s.existing4, counts b = true → b.addr ≤ top.addr) →
    ∀ b ∈ s.existing4, ¬ (top.stop ≤ b.addr ∧ b.addr < top.stop + top.size)

theorem stop_fallback4 : fallback4.stop = 172 * 2 ^ 24 + 172 * 2 ^ 16 + 2 ^ 8 := rfl

/-- What meets the fixed network and does not count covers it. -/
theorem meets_fallback4_iff {b : Block 32} (hb : counts b = false) :
    Meets fallback4 b ↔ b.addr ≤ fallback4.addr ∧ fallback4.addr < b.stop := by
  rw [meets_iff, stop_fallback4]
  have haddr : fallback4.addr = 172 * 2 ^ 24 + 172 * 2 ^ 16 := rfl
  constructor
  · rintro ⟨hlt, hlt'⟩
    refine ⟨?_, hlt⟩
    by_contra hbelow
    -- a network that starts inside `172.172.0.0/24` counts
    have hcounts : counts b = true := counts_iff.mpr (by omega)
    exact absurd (hb.symm.trans hcounts) (by decide)
  · rintro ⟨hle, hlt⟩
    exact ⟨hlt, by omega⟩

/-- **The IPv4 network chosen is disjoint from the existing ones exactly when nothing is in the
way.** -/
theorem State.Good.fresh4_iff {s : State} (hs : s.Good) : Fresh4 s ↔ Clear s := by
  obtain ⟨nets, s₁, hnets, heq⟩ := nextIpv4Subnet_eq hs.collected
  constructor
  · intro hfresh
    refine ⟨fun hnone b hb hcover => ?_, fun top htop hcounts hmax b hb hstart => ?_⟩
    · -- no network counts: the fixed one is chosen
      have hnil : nets = [] := by
        refine List.eq_nil_iff_forall_not_mem.mpr fun c hc => ?_
        obtain ⟨hc, hcounts⟩ := (hnets c).mp hc
        exact absurd ((hnone c hc).symm.trans hcounts) (by decide)
      have hchosen : nextIpv4Subnet s = .ok (fallback4, s₁) := by
        rw [heq, hnil, nextAbove, highest_eq_none_iff.mpr rfl]
        rfl
      exact hfresh _ _ hchosen b hb ((meets_fallback4_iff (hnone b hb)).mpr hcover)
    · -- the one right above the highest is chosen
      have hmem : top ∈ nets := (hnets top).mpr ⟨htop, hcounts⟩
      cases hhigh : highest nets with
      | none => rw [highest_eq_none_iff.mp hhigh] at hmem; cases hmem
      | some top' =>
        obtain ⟨htop', hcounts'⟩ := (hnets top').mp (mem_of_highest hhigh)
        have haddr : top'.addr = top.addr :=
          le_antisymm (hmax top' htop' hcounts') (addr_le_highest hhigh hmem)
        obtain rfl : top' = top := by
          refine (hs.apart4.eq_or htop' htop).resolve_right fun hne => hne (meets_iff.mpr ?_)
          exact ⟨haddr ▸ top.addr_lt_stop, haddr ▸ top'.addr_lt_stop⟩
        have hlt : top'.stop < 2 ^ 32 := lt_of_le_of_lt hstart.1 b.addr_lt
        cases hnext : top'.next with
        | none => exact absurd (next_eq_none_iff.mp hnext) (ne_of_lt hlt)
        | some net =>
          have hchosen : nextIpv4Subnet s = .ok (net, s₁) := by
            rw [heq, nextAbove, hhigh]
            show Except.map _ (nextSubnet top') = _
            rw [nextSubnet, hnext]
            rfl
          exact hfresh _ _ hchosen b hb
            ((meets_next_iff hnext (hs.apart4.eq_or hb htop')).mpr hstart)
  · intro hclear net s' h b hb
    rw [heq] at h
    cases hnext : nextAbove nets fallback4 with
    | error e => rw [hnext] at h; cases h
    | ok net' =>
      rw [hnext] at h
      cases h
      rcases nextAbove_spec hnext with ⟨hnil, rfl⟩ | ⟨top, htop, habove⟩
      · have hnone : ∀ b ∈ s.existing4, counts b = false := by
          intro c hc
          refine Bool.eq_false_iff.mpr fun hcounts => ?_
          have hmem := (hnets c).mpr ⟨hc, hcounts⟩
          rw [hnil] at hmem
          cases hmem
        rw [meets_fallback4_iff (hnone b hb)]
        exact hclear.fallback hnone b hb
      · obtain ⟨htop', hcounts⟩ := (hnets top).mp (mem_of_highest htop)
        rw [meets_next_iff habove (hs.apart4.eq_or hb htop')]
        refine hclear.above top htop' hcounts (fun c hc hcounts' => ?_) b hb
        exact addr_le_highest htop ((hnets c).mpr ⟨hc, hcounts'⟩)

/-! ## Creating networks -/

theorem State.add_spec {s : State} (hs : Collected s) (obj : DockerNetwork) :
    Collected (s.add obj).2 ∧ (s.add obj).2.existing = s.existing ++ obj.subnets := by
  obtain ⟨seen, hseen, hsub⟩ := hs
  have hexisting : (s.add obj).2.existing = s.existing ++ obj.subnets := by
    show (s.networks ++ [obj]).flatMap DockerNetwork.subnets = _
    rw [List.flatMap_append, List.flatMap_singleton, existing]
  refine ⟨⟨seen ++ obj.subnets, ?_, fun x hx => ?_⟩, hexisting⟩
  · show (grepDefault "subnet" obj.attrs s.grepped).2 = _
    rw [grepDefault, attrGrep_attrs, hseen, List.map_append]
  · rw [hexisting, List.mem_append]
    exact (List.mem_append.mp hx).imp_left (hsub x)

theorem Apart.concat {w : ℕ} {nets : List (Block w)} (h : Apart nets) {net : Block w}
    (hnet : ∀ b ∈ nets, ¬ Meets net b) : Apart (nets ++ [net]) := by
  refine List.pairwise_append.mpr ⟨h, List.pairwise_singleton _ _, fun b hb c hc => ?_⟩
  rw [List.mem_singleton.mp hc]
  exact fun hmeets => hnet b hb hmeets.symm

theorem existing_eq_of_networks {s s' : State} (h : s'.networks = s.networks) :
    s'.existing = s.existing := by
  rw [State.existing, h, State.existing]

theorem State.Good6.of_networks {s s' : State} (hs : s.Good6) (h : s'.networks = s.networks)
    (hs' : Collected s') : s'.Good6 := by
  refine ⟨hs', ?_⟩
  rw [existing6, existing_eq_of_networks h]
  exact hs.apart6

theorem State.Good.of_networks {s s' : State} (hs : s.Good) (h : s'.networks = s.networks)
    (hs' : Collected s') : s'.Good := by
  refine ⟨hs.toGood6.of_networks h hs', ?_⟩
  rw [existing4, existing_eq_of_networks h]
  exact hs.apart4

theorem Clear.of_networks {s s' : State} (hs : Clear s) (h : s'.networks = s.networks) :
    Clear s' := by
  have hexisting : s'.existing4 = s.existing4 := by
    rw [State.existing4, existing_eq_of_networks h, State.existing4]
  refine ⟨?_, ?_⟩
  · rw [hexisting]
    exact hs.fallback
  · rw [hexisting]
    exact hs.above

/-- Choosing a network changes nothing but what is collected. -/
theorem frame_nextSubnetOf {w : ℕ} {count : List Subnet → List (Block w)} {fallback net : Block w}
    {s s' : State} (hs : Collected s) (h : nextSubnetOf count fallback s = .ok (net, s')) :
    s'.networks = s.networks ∧ Collected s' := by
  obtain ⟨subnets, s₁, -, hnetworks, hs₁, heq⟩ := nextSubnetOf_eq count fallback hs
  rw [heq] at h
  cases hnext : nextAbove (count subnets) fallback with
  | error e => rw [hnext] at h; cases h
  | ok net' =>
    rw [hnext] at h
    cases h
    exact ⟨hnetworks, hs₁⟩

/-- **What holds after a subnet is chosen and used**: what holds if choosing it raises, and what its
use leads to. -/
theorem choosing_induction {w : ℕ} {count : List Subnet → List (Block w)} {fallback : Block w}
    {use : Block w → State → Except PyError Unit × State} {s : State} (hs : Collected s)
    {P : State → Prop} (hraise : ∀ s', s'.networks = s.networks → Collected s' → P s')
    (huse : ∀ net s', nextSubnetOf count fallback s = .ok (net, s') →
      s'.networks = s.networks → Collected s' → P (use net s').2) :
    P (choosing (nextSubnetOf count fallback) use s).2 := by
  rw [choosing]
  cases hnext : nextSubnetOf count fallback s with
  | error e =>
    refine hraise _ rfl ?_
    obtain ⟨subnets, s', hgrep, -, -, hs'⟩ := grepSubnets_spec hs
    rw [grepSubnets] at hgrep
    obtain ⟨lst, hlst, hgrep⟩ := exists_of_bind_ok hgrep
    obtain ⟨subnets', _, hgrep⟩ := exists_of_bind_ok hgrep
    cases hgrep
    rw [grepDefault, hlst]
    exact hs'
  | ok r =>
    obtain ⟨hnetworks, hs'⟩ := frame_nextSubnetOf hs hnext
    exact huse r.1 r.2 hnext hnetworks hs'

/-- A network is added that has disjoint IPv6 subnets. -/
theorem State.Good6.add {s : State} (hs : s.Good6) {obj : DockerNetwork}
    (h6 : Apart (s.existing6 ++ ipv6Of obj.subnets)) : (s.add obj).2.Good6 := by
  obtain ⟨hcollected, hexisting⟩ := State.add_spec hs.collected obj
  refine ⟨hcollected, ?_⟩
  rw [existing6, hexisting, ipv6Of, List.filterMap_append]
  exact h6

theorem apart4_add {s : State} (hs : Collected s) {obj : DockerNetwork}
    (h4 : Apart (s.existing4 ++ ipv4Of obj.subnets)) : Apart (s.add obj).2.existing4 := by
  obtain ⟨-, hexisting⟩ := State.add_spec hs obj
  rw [State.existing4, hexisting, ipv4Of, List.filterMap_append]
  exact h4

/-- **One more network leaves the IPv6 networks disjoint.** -/
theorem State.Good6.step {s : State} (hs : s.Good6) (op : Creation) : (op.step s).2.Good6 := by
  have hraise (s' : State) (hnetworks : s'.networks = s.networks) (hs' : Collected s') : s'.Good6 :=
    hs.of_networks hnetworks hs'
  cases op with
  | create name =>
    refine choosing_induction hs.collected hraise fun net6 s₁ hnext6 hnetworks hs₁ => ?_
    refine choosing_induction hs₁ (fun s' h => hraise s' (h.trans hnetworks))
      fun net4 s₂ _ hnetworks' hs₂ => ?_
    have hsame := hnetworks'.trans hnetworks
    have hgood := hs.of_networks hsame hs₂
    refine hgood.add (hgood.apart6.concat ?_)
    rw [existing6, existing_eq_of_networks hsame]
    exact hs.fresh6 _ _ hnext6
  | ipv4 name =>
    refine choosing_induction hs.collected hraise fun net s₁ _ hnetworks hs₁ => ?_
    have hgood := hs.of_networks hnetworks hs₁
    refine hgood.add ?_
    rw [show ipv6Of [.v4 net] = [] from rfl, List.append_nil]
    exact hgood.apart6
  | ipv6 name =>
    refine choosing_induction hs.collected hraise fun net s₁ hnext hnetworks hs₁ => ?_
    have hgood := hs.of_networks hnetworks hs₁
    refine hgood.add (hgood.apart6.concat ?_)
    rw [existing6, existing_eq_of_networks hnetworks]
    exact hs.fresh6 _ _ hnext

/-- **One more network leaves the IPv4 networks disjoint**, if nothing was in the way. -/
theorem State.Good.step {s : State} (hs : s.Good) (hclear : Clear s) (op : Creation) :
    (op.step s).2.Good := by
  refine ⟨hs.toGood6.step op, ?_⟩
  have hraise (s' : State) (hnetworks : s'.networks = s.networks) (hs' : Collected s') :
      Apart s'.existing4 :=
    (hs.of_networks hnetworks hs').apart4
  cases op with
  | create name =>
    refine choosing_induction (P := fun s => Apart s.existing4) hs.collected hraise
      fun net6 s₁ _ hnetworks hs₁ => ?_
    refine choosing_induction (P := fun s => Apart s.existing4) hs₁
      (fun s' h => hraise s' (h.trans hnetworks)) fun net4 s₂ hnext4 hnetworks' hs₂ => ?_
    have hgood := hs.of_networks hnetworks hs₁
    refine apart4_add hs₂ ((hgood.of_networks hnetworks' hs₂).apart4.concat ?_)
    rw [existing4, existing_eq_of_networks hnetworks']
    exact hgood.fresh4_iff.mpr (hclear.of_networks hnetworks) _ _ hnext4
  | ipv4 name =>
    refine choosing_induction (P := fun s => Apart s.existing4) hs.collected hraise
      fun net s₁ hnext hnetworks hs₁ => ?_
    refine apart4_add hs₁ ((hs.of_networks hnetworks hs₁).apart4.concat ?_)
    rw [existing4, existing_eq_of_networks hnetworks]
    exact hs.fresh4_iff.mpr hclear _ _ hnext
  | ipv6 name =>
    refine choosing_induction (P := fun s => Apart s.existing4) hs.collected hraise
      fun net s₁ _ hnetworks hs₁ => ?_
    refine apart4_add hs₁ ?_
    rw [show ipv4Of [.v6 net] = [] from rfl, List.append_nil]
    exact (hs.of_networks hnetworks hs₁).apart4

/-! ## Runs -/

/-- A property of every state that a run goes through. -/
def Throughout (P : State → Prop) (ops : List Creation) (s : State) : Prop :=
  ∀ pre, pre <+: ops → P (creations pre s)

theorem throughout_nil {P : State → Prop} {s : State} : Throughout P [] s ↔ P s := by
  constructor
  · exact fun h => h [] List.prefix_rfl
  · intro h pre hpre
    obtain rfl := List.prefix_nil.mp hpre
    exact h

theorem throughout_cons {P : State → Prop} {op : Creation} {ops : List Creation} {s : State} :
    Throughout P (op :: ops) s ↔ P s ∧ Throughout P ops (op.step s).2 := by
  constructor
  · refine fun h => ⟨h [] List.nil_prefix, fun pre hpre => ?_⟩
    exact h (op :: pre) (List.cons_prefix_cons.mpr ⟨rfl, hpre⟩)
  · rintro ⟨hs, hrest⟩ pre hpre
    cases pre with
    | nil => exact hs
    | cons op' pre =>
      obtain ⟨rfl, htail⟩ := List.cons_prefix_cons.mp hpre
      exact hrest pre htail

theorem State.Good6.throughout_fresh6 {s : State} (hs : s.Good6) (ops : List Creation) :
    Throughout Fresh6 ops s := by
  induction ops generalizing s with
  | nil => exact throughout_nil.mpr hs.fresh6
  | cons op ops ih => exact throughout_cons.mpr ⟨hs.fresh6, ih (hs.step op)⟩

theorem State.Good.throughout_fresh4_iff {s : State} (hs : s.Good) (ops : List Creation) :
    Throughout Fresh4 ops s ↔ Throughout Clear ops s := by
  induction ops generalizing s with
  | nil => rw [throughout_nil, throughout_nil, hs.fresh4_iff]
  | cons op ops ih =>
    rw [throughout_cons, throughout_cons, hs.fresh4_iff]
    exact and_congr_right fun hclear => ih (hs.step hclear op)

/-- **When new networks are disjoint from the existing ones.**  Over every run from disjoint
networks, the IPv6 networks chosen are, and the IPv4 networks chosen are exactly when nothing is
in the way of any of them. -/
theorem creations_disjoint_iff {s : State} (hgrepped : s.grepped = []) (h4 : Apart s.existing4)
    (h6 : Apart s.existing6) (ops : List Creation) :
    Throughout Fresh6 ops s ∧ (Throughout Fresh4 ops s ↔ Throughout Clear ops s) := by
  have hs : s.Good := ⟨⟨⟨[], hgrepped, nofun⟩, h6⟩, h4⟩
  exact ⟨hs.toGood6.throughout_fresh6 ops, hs.throughout_fresh4_iff ops⟩

/-- A `/24` network. -/
def net24 (a b c : ℕ) (h : a * 2 ^ 24 + b * 2 ^ 16 + c * 2 ^ 8 < 2 ^ 32 := by decide) :
    Block 32 where
  addr := a * 2 ^ 24 + b * 2 ^ 16 + c * 2 ^ 8
  prefixlen := 24
  prefixlen_le := by decide
  dvd_addr := by
    show 2 ^ 8 ∣ _
    omega
  addr_lt := h

/-- Docker has `172.255.255.0/24` and `173.0.0.0/24`. -/
def endOfRange : State where
  networks := [⟨"a", [.v4 (net24 172 255 255)]⟩, ⟨"b", [.v4 (net24 173 0 0)]⟩]
  grepped := []

theorem apart_endOfRange : Apart endOfRange.existing4 := by
  unfold Apart
  decide

theorem creations_endOfRange :
    Throughout Fresh6 [.create "c"] endOfRange ∧
      (Throughout Fresh4 [.create "c"] endOfRange ↔ Throughout Clear [.create "c"] endOfRange) :=
  creations_disjoint_iff rfl apart_endOfRange List.Pairwise.nil [.create "c"]

/-- After `172.255.255.0/24`, the network chosen is `173.0.0.0/24`, which exists. -/
theorem not_fresh4_endOfRange : ¬ Fresh4 endOfRange := by
  have hs : endOfRange.Good := ⟨⟨⟨[], rfl, nofun⟩, List.Pairwise.nil⟩, apart_endOfRange⟩
  rw [hs.fresh4_iff]
  intro hclear
  have htop : net24 172 255 255 ∈ endOfRange.existing4 := List.mem_cons_self
  have hcounts : counts (net24 172 255 255) = true := counts_iff.mpr (by decide)
  refine hclear.above _ htop hcounts (fun b hb hb' => ?_) (net24 173 0 0)
    (List.mem_cons_of_mem _ List.mem_cons_self) (by decide)
  have hall : ∀ b ∈ endOfRange.existing4, b.addr / 2 ^ 24 = 172 →
      b.addr ≤ (net24 172 255 255).addr := by decide
  exact hall b hb (counts_iff.mp hb')

end Docker
end LdmsTest
