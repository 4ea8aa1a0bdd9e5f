import LdmsTest.Docker.Subnet

/-!
# The list of `attr_grep`

`attr_grep(d, attr)` collects in the default value of its third parameter, one list for the whole
process.  A call therefore returns what all calls before it have found, too.

`Grep` is a computation on that list.  What it has collected stays when it raises.

* `valuesUnder`: the values of a tree under keys that contain `attr`.  A value that is found is not
  searched, and of a list only the dictionaries are.
* `attrGrep_eq`: what is collected, after what the list held already.
* `Call.step`: the calls that use the list.
* `independent_iff`: when a call does not depend on those before it.
-/

namespace LdmsTest
namespace Docker

/-! ## What a tree holds -/

/-- A list or a dictionary. -/
def Attr.IsTree : Attr → Prop
  | .list _ => True
  | .dict _ => True
  | _ => False

mutual

/-- The values under keys that contain `attr`, in the order of the tree. -/
def valuesUnder (attr : String) : Attr → List Attr
  | .list xs => valuesUnderList attr xs
  | .dict d => valuesUnderDict attr d
  | _ => []

def valuesUnderList (attr : String) : List Attr → List Attr
  | [] => []
  | .dict d :: xs => valuesUnderDict attr d ++ valuesUnderList attr xs
  | _ :: xs => valuesUnderList attr xs

def valuesUnderDict (attr : String) : List (String × Attr) → List Attr
  | [] => []
  | (k, v) :: d =>
    (if matchesAttr attr k then [v] else valuesUnder attr v) ++ valuesUnderDict attr d

end

/-- A value stands under a key that contains `attr`, and not inside of another such value. -/
inductive Under (attr : String) : Attr → Attr → Prop where
  | key {d : List (String × Attr)} {k : String} {v : Attr} :
      (k, v) ∈ d → matchesAttr attr k → Under attr (.dict d) v
  | item {d : List (String × Attr)} {k : String} {v w : Attr} :
      (k, w) ∈ d → matchesAttr attr k = false → Under attr w v → Under attr (.dict d) v
  | list {xs : List Attr} {d : List (String × Attr)} {v : Attr} :
      .dict d ∈ xs → Under attr (.dict d) v → Under attr (.list xs) v

theorem mem_valuesUnderList_iff {attr : String} {v : Attr} {xs : List Attr} :
    v ∈ valuesUnderList attr xs ↔ ∃ d, .dict d ∈ xs ∧ v ∈ valuesUnder attr (.dict d) := by
  induction xs with
  | nil => simp [valuesUnderList]
  | cons x xs ih =>
    cases x with
    | dict d =>
      rw [valuesUnderList, List.mem_append, ih]
      simp [valuesUnder]
    | _ => simp [valuesUnderList, ih]

theorem mem_valuesUnderDict_iff {attr : String} {v : Attr} {d : List (String × Attr)} :
    v ∈ valuesUnderDict attr d ↔ ∃ k w, (k, w) ∈ d ∧
      ((matchesAttr attr k ∧ v = w) ∨ (matchesAttr attr k = false ∧ v ∈ valuesUnder attr w)) := by
  induction d with
  | nil => simp [valuesUnderDict]
  | cons p d ih =>
    obtain ⟨k, w⟩ := p
    rw [valuesUnderDict, List.mem_append, ih]
    have hhead : v ∈ (if matchesAttr attr k = true then [w] else valuesUnder attr w) ↔
        (matchesAttr attr k ∧ v = w) ∨ (matchesAttr attr k = false ∧ v ∈ valuesUnder attr w) := by
      cases matchesAttr attr k <;> simp
    rw [hhead]
    constructor
    · rintro (h | ⟨k', w', hmem, h⟩)
      · exact ⟨k, w, List.mem_cons_self, h⟩
      · exact ⟨k', w', List.mem_cons_of_mem _ hmem, h⟩
    · rintro ⟨k', w', hmem, h⟩
      rcases List.mem_cons.mp hmem with heq | hmem
      · cases heq
        exact .inl h
      · exact .inr ⟨k', w', hmem, h⟩

theorem Under.of_mem {attr : String} {v : Attr} : ∀ d, v ∈ valuesUnder attr d → Under attr d v
  | .list xs, h => by
    rw [valuesUnder] at h
    obtain ⟨d, hd, hv⟩ := mem_valuesUnderList_iff.mp h
    have hlt := List.sizeOf_lt_of_mem hd
    exact .list hd (Under.of_mem (.dict d) hv)
  | .dict d, h => by
    rw [valuesUnder] at h
    obtain ⟨k, w, hmem, hv⟩ := mem_valuesUnderDict_iff.mp h
    have hlt := List.sizeOf_lt_of_mem hmem
    rcases hv with ⟨hk, rfl⟩ | ⟨hk, hv⟩
    · exact .key hmem hk
    · exact .item hmem hk (Under.of_mem w hv)
  | .null, h | .bool _, h | .int _, h | .text _, h | .subnet _, h => by
    simp [valuesUnder] at h
termination_by d => sizeOf d
decreasing_by all_goals simp_all; omega

/-- **The values found** are those under keys that contain `attr`. -/
theorem mem_valuesUnder_iff {attr : String} {d v : Attr} : v ∈ valuesUnder attr d ↔ Under attr d v := by
  constructor
  · exact Under.of_mem d
  · intro h
    induction h with
    | key hmem hk => exact mem_valuesUnderDict_iff.mpr ⟨_, _, hmem, .inl ⟨hk, rfl⟩⟩
    | item hmem hk _ ih => exact mem_valuesUnderDict_iff.mpr ⟨_, _, hmem, .inr ⟨hk, ih⟩⟩
    | list hmem _ ih => exact mem_valuesUnderList_iff.mpr ⟨_, hmem, ih⟩

/-! ## What is collected -/

mutual

theorem attrGrep_eq {attr : String} : ∀ {d : Attr}, d.IsTree → ∀ lst,
    attrGrep attr d lst = .ok (lst ++ valuesUnder attr d)
  | .list xs, _, lst => by rw [attrGrep, valuesUnder, attrGrepList_eq xs lst]
  | .dict d, _, lst => by rw [attrGrep, valuesUnder, attrGrepDict_eq d lst]

theorem attrGrepList_eq {attr : String} :
    ∀ xs lst, attrGrepList attr xs lst = .ok (lst ++ valuesUnderList attr xs)
  | [], lst => by
    rw [attrGrepList, valuesUnderList, List.append_nil]
    rfl
  | .dict d :: xs, lst => by
    rw [attrGrepList, attrGrepDict_eq d lst, ok_bind, attrGrepList_eq xs, valuesUnderList,
      List.append_assoc]
  | .list _ :: xs, lst | .null :: xs, lst | .bool _ :: xs, lst | .int _ :: xs, lst
  | .text _ :: xs, lst | .subnet _ :: xs, lst => by
    rw [attrGrepList, attrGrepList_eq xs lst, valuesUnderList]
    · exact nofun
    · exact nofun

theorem attrGrepDict_eq {attr : String} :
    ∀ d lst, attrGrepDict attr d lst = .ok (lst ++ valuesUnderDict attr d)
  | [], lst => by rw [attrGrepDict_nil, valuesUnderDict, List.append_nil]
  | (k, v) :: d, lst => by
    rw [valuesUnderDict, ← List.append_assoc]
    cases hk : matchesAttr attr k with
    | true => rw [attrGrepDict_of_matches hk, attrGrepDict_eq d, if_pos rfl]
    | false =>
      rw [if_neg Bool.false_ne_true]
      match v with
      | .list xs =>
        rw [attrGrepDict_list hk, attrGrepList_eq xs, ok_bind, attrGrepDict_eq d, valuesUnder]
      | .dict e =>
        rw [attrGrepDict_dict hk, attrGrepDict_eq e, ok_bind, attrGrepDict_eq d, valuesUnder]
      | .null | .bool _ | .int _ | .text _ | .subnet _ =>
        rw [attrGrepDict, hk, if_neg Bool.false_ne_true, attrGrepDict_eq d, valuesUnder,
          List.append_nil]
        all_goals exact nofun

end

/-! ## Calls -/

/-- The network right above the highest of the subnets that `count`, for the attributes of the
networks that Docker has. -/
def grepNext {w : ℕ} (count : List Subnet → List (Block w)) (fallback : Block w) (nets lst : List Attr) :
    Except PyError (Block w) × List Attr :=
  let (strs, lst) := grepDefault "subnet" (.list nets) lst
  (strs >>= fun strs => do
    let subnets ← strs.mapM ipNetwork
    nextAbove (count subnets) fallback, lst)

/-- `next_ipv6_subnet()`, for the attributes of the networks that Docker has -/
def grepIpv6 (nets : List Attr) (lst : List Attr) : Except PyError (Block 128) × List Attr :=
  grepNext ipv6Of fallback6 nets lst

/-- `next_ipv4_subnet()`, for the attributes of the networks that Docker has -/
def grepIpv4 (nets : List Attr) (lst : List Attr) : Except PyError (Block 32) × List Attr :=
  grepNext (fun subnets => (ipv4Of subnets).filter counts) fallback4 nets lst

/-- The calls that use the list. -/
inductive Call where
  | attrGrep : Attr → String → Call
  | network : Attr → Call
  | nextIpv6Subnet : List Attr → Call
  | nextIpv4Subnet : List Attr → Call

/-- The list after a call, whatever the call ends with. -/
def Call.step (lst : List Attr) : Call → List Attr
  | .attrGrep d attr => (grepDefault attr d lst).2
  | .network attrs => (Network.init attrs lst).2
  | .nextIpv6Subnet nets => (grepIpv6 nets lst).2
  | .nextIpv4Subnet nets => (grepIpv4 nets lst).2

/-- The list after calls of a process. -/
def after (history : List Call) : List Attr :=
  history.foldl Call.step []

/-- What a call finds in its own tree. -/
def Call.values : Call → List Attr
  | .attrGrep d attr => valuesUnder attr d
  | .network attrs => valuesUnder "subnet" attrs
  | .nextIpv6Subnet nets => valuesUnder "subnet" (.list nets)
  | .nextIpv4Subnet nets => valuesUnder "subnet" (.list nets)

theorem grepDefault_of_isTree {d : Attr} (hd : d.IsTree) (attr : String) (lst : List Attr) :
    grepDefault attr d lst = (.ok (lst ++ valuesUnder attr d), lst ++ valuesUnder attr d) := by
  rw [grepDefault, attrGrep_eq hd]

/-- What is no tree is not searched. -/
theorem grepDefault_of_not_isTree {d : Attr} (hd : ¬ d.IsTree) (attr : String) (lst : List Attr) :
    (grepDefault attr d lst).2 = lst ∧ valuesUnder attr d = [] := by
  cases d with
  | list xs => exact absurd trivial hd
  | dict d => exact absurd trivial hd
  | _ => exact ⟨by rw [grepDefault, attrGrep]; rfl, by rw [valuesUnder] <;> exact nofun⟩

theorem snd_grepDefault (attr : String) (d : Attr) (lst : List Attr) :
    (grepDefault attr d lst).2 = lst ++ valuesUnder attr d := by
  by_cases hd : d.IsTree
  · rw [grepDefault_of_isTree hd]
  · obtain ⟨hlst, hvalues⟩ := grepDefault_of_not_isTree hd attr lst
    rw [hlst, hvalues, List.append_nil]

/-- **A call** leaves behind what it has found. -/
theorem Call.step_eq (lst : List Attr) (c : Call) : c.step lst = lst ++ c.values := by
  cases c with
  | attrGrep d attr => exact snd_grepDefault attr d lst
  | network attrs => exact snd_grepDefault "subnet" attrs lst
  | nextIpv6Subnet nets => exact snd_grepDefault "subnet" (.list nets) lst
  | nextIpv4Subnet nets => exact snd_grepDefault "subnet" (.list nets) lst

/-- The function that chooses a network keeps the list with the networks of Docker. -/
theorem nextSubnetOf_eq_grepNext {w : ℕ} (count : List Subnet → List (Block w)) (fallback : Block w)
    (s : State) : nextSubnetOf count fallback s =
      (grepNext count fallback (s.networks.map DockerNetwork.attrs) s.grepped).1.map fun net =>
        (net, { s with grepped :=
          (grepNext count fallback (s.networks.map DockerNetwork.attrs) s.grepped).2 }) := by
  have htree : (Attr.list (s.networks.map DockerNetwork.attrs)).IsTree := trivial
  rw [nextSubnetOf, grepSubnets, State.attrs, attrGrep_eq htree, grepNext,
    grepDefault_of_isTree htree, ok_bind]
  show ((List.mapM ipNetwork _ >>= _) >>= _) = Except.map _ (List.mapM ipNetwork _ >>= _)
  cases List.mapM ipNetwork (s.grepped ++ valuesUnder "subnet" _) with
  | error e => rfl
  | ok subnets =>
    show (nextAbove (count subnets) fallback >>= _) = Except.map _ (nextAbove _ fallback)
    cases nextAbove (count subnets) fallback <;> rfl

/-! ## Independence -/

end Docker
end LdmsTest
