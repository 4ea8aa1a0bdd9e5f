import LdmsTest.Foundation.Allocation
import LdmsTest.Python.JsonRoundTrip
import LdmsTest.Singularity.HexRanges

/-!
# `IPAddrDb`

The address database of `runtime.singularity`.  Its state is the text of its file: a JSON object
whose item `alloc_tbl` has the range list of every cluster as a text.  Each operation reads the
file, and writes it whole; the file lock lets one operation run at a time.

What the database is for is an `Allocation` of the addresses of the network: `Records` says that a
table is one.  Every operation keeps that, and what is written is read back.
-/

namespace LdmsTest

/-- `ip_network(network_str)`, as the numbers that the database uses of it -/
structure Network where
  /-- `int(self.net.network_address)` -/
  networkAddress : ℕ
  /-- `int(self.net.hostmask)` -/
  hostmask : ℕ

namespace Network

/-- `net_addr + 1` -/
def addrMin (net : Network) : ℤ :=
  net.networkAddress + 1

/-- `(net_addr | host_mask) - 1` -/
def addrMax (net : Network) : ℤ :=
  (net.networkAddress ||| net.hostmask : ℕ) - 1

/-- The addresses of hosts. -/
noncomputable def pool (net : Network) : Finset ℤ :=
  Finset.Icc net.addrMin net.addrMax

theorem mem_pool {net : Network} {x : ℤ} : x ∈ net.pool ↔ net.addrMin ≤ x ∧ x ≤ net.addrMax :=
  Finset.mem_Icc

theorem addrMin_nonneg (net : Network) : 0 ≤ net.addrMin := by
  unfold addrMin
  omega

end Network

namespace IPAddrDb

open Json (JsonFloat)
open Ranges (points listPoints Separated)

/-- `alloc_tbl`: the range list of every cluster. -/
abbrev AllocTbl := Dict String HexRanges

/-- `db`: an object with an item `alloc_tbl`. -/
structure Db (F : Type) where
  before : Val.Fields F
  allocTbl : AllocTbl
  after : Val.Fields F

/-! ## The file -/

section File

variable (F : Type) [JsonFloat F]

variable {F} in
/-- `HexRanges(v)`, unless it raises -/
def hexRangesOf (v : Val F) : Option HexRanges :=
  if v.truthy then
    match v with
    | .str s => some (HexRanges.ofStr s)
    | _ => none
  else some []

/-- `self._read()`, for a file with this text -/
def read (file : String) : Option (Db F) :=
  match Json.loads file with
  | .ok (.dict db) =>
    match Dict.get? db "alloc_tbl" with
    | some (.dict alloc) => do
      let allocTbl ← alloc.mapM fun p => do
        let ranges ← hexRangesOf p.2
        pure (p.1, ranges)
      pure ⟨db.takeWhile fun p => p.1 ≠ "alloc_tbl", allocTbl,
        (db.dropWhile fun p => p.1 ≠ "alloc_tbl").tail⟩
    | _ => none
  | _ => none

variable {F} in
/-- The text that `self._write(db)` leaves in the file. -/
def write (db : Db F) : String :=
  Json.dumps (some 2) (.dict (db.before ++ ("alloc_tbl",
    .dict (db.allocTbl.map fun p => (p.1, .str (HexRanges.toStr p.2)))) :: db.after))

/-- `self.init_db()` -/
def initDb (file : String) : String :=
  match read F file with
  | none => write (F := F) ⟨[], [], []⟩
  | some _ => file

/-- The loop of `alloc_addr` over the free ranges: `addrs`, and `_n` after it. -/
def takeLoop (addrs : HexRanges) (n : ℤ) : HexRanges → HexRanges × ℤ
  | [] => (addrs, n)
  | ent :: avail =>
    if n = 0 then (addrs, n)
    -- no need to remove ent
    else if n < ent.2 - ent.1 + 1 then (HexRanges.ins addrs (ent.1, ent.1 + n - 1), 0)
    -- take entire entry
    else takeLoop (HexRanges.ins addrs ent) (n - (ent.2 - ent.1 + 1)) avail

/-- What is raised when the file could not be read. -/
def unreadable : PyError :=
  ⟨.typeError, "'NoneType' object is not subscriptable"⟩

/-- `self.alloc_addr(cluster_name, n)`: what it returns, and the file after it -/
def allocAddr (net : Network) (file : String) (clusterName : String) (n : ℕ) :
    Except PyError (Option HexRanges × String) :=
  match read F file with
  | none => throw unreadable
  | some db =>
    match Dict.get? db.allocTbl clusterName with
    -- `if addrs:`, which holds of every HexRanges
    | some addrs => pure (some addrs, file)
    | none =>
      let (u, args) := HexRanges.union (db.allocTbl.map Prod.snd)
      let allocTbl := (Dict.keys db.allocTbl).zip args
      let avail := HexRanges.inv u net.addrMin net.addrMax
      let (addrs, rest) := takeLoop [] n avail
      if rest ≠ 0 then pure (none, file)
      else pure (some addrs, write { db with allocTbl := Dict.set allocTbl clusterName addrs })

/-- `self.free_addr(cluster_name)`: the file after it -/
def freeAddr (file : String) (clusterName : String) : Except PyError String :=
  match read F file with
  | none => throw unreadable
  | some db => pure (write { db with allocTbl := Dict.pop db.allocTbl clusterName })

/-! ## Runs -/

/-- What a process does with the database. -/
inductive Op where
  | init
  | alloc (clusterName : String) (n : ℕ)
  | free (clusterName : String)

/-- The file after an operation. -/
def step (net : Network) (file : String) : Op → Except PyError String
  | .init => pure (initDb F file)
  | .alloc clusterName n => (allocAddr F net file clusterName n).map Prod.snd
  | .free clusterName => freeAddr F file clusterName

/-- The file after operations on a database that starts empty. -/
def run (net : Network) (ops : List Op) : Except PyError String :=
  ops.foldlM (step F net) (initDb F "")

end File

/-! ## The table as an allocation -/

/-- The addresses of a range list. -/
def addresses (ranges : HexRanges) : Finset ℤ :=
  (listPoints ranges).toFinset

theorem mem_addresses {ranges : HexRanges} {x : ℤ} : x ∈ addresses ranges ↔ x ∈ points ranges := by
  rw [addresses, List.mem_toFinset, Ranges.mem_listPoints]

/-- **The table records an allocation**: one separated range list for each cluster, with the
addresses that the cluster holds. -/
structure Records {pool : Finset ℤ} (allocTbl : AllocTbl) (A : Allocation String pool) :
    Prop where
  nodup : (Dict.keys allocTbl).Nodup
  separated : ∀ p ∈ allocTbl, Separated p.2
  held_eq : ∀ c, A.held c = (Dict.get? allocTbl c).map addresses

theorem records_empty (pool : Finset ℤ) : Records [] (Allocation.empty String pool) :=
  ⟨List.nodup_nil, nofun, fun _ => rfl⟩

section Records

variable {pool : Finset ℤ} {allocTbl : AllocTbl} {A : Allocation String pool}

theorem Records.held_of_mem (h : Records allocTbl A) {p : String × HexRanges}
    (hp : p ∈ allocTbl) : A.held p.1 = some (addresses p.2) := by
  rw [h.held_eq, Dict.get?_of_mem h.nodup hp]
  rfl

/-- Every entry is between addresses of the pool. -/
theorem Records.mem_pool (h : Records allocTbl A) {p : String × HexRanges} (hp : p ∈ allocTbl)
    {e : Entry} (he : e ∈ p.2) : e.1 ∈ pool ∧ e.2 ∈ pool := by
  have hle := (h.separated p hp).nonempty e he
  have hsub := A.subset_pool (h.held_of_mem hp)
  exact ⟨hsub (mem_addresses.mpr ⟨e, he, le_rfl, hle⟩),
    hsub (mem_addresses.mpr ⟨e, he, hle, le_rfl⟩)⟩

/-- The range lists of different clusters have no common address. -/
theorem Records.disjoint (h : Records allocTbl A) {c d : String} {r s : HexRanges} (hcd : c ≠ d)
    (hr : Dict.get? allocTbl c = some r) (hs : Dict.get? allocTbl d = some s) :
    Disjoint (points r) (points s) := by
  have hc := h.held_eq c
  have hd := h.held_eq d
  rw [hr, Option.map_some] at hc
  rw [hs, Option.map_some] at hd
  refine Set.disjoint_left.mpr fun x hx hx' => ?_
  exact Finset.disjoint_left.mp (A.disjoint hcd hc hd) (mem_addresses.mpr hx)
    (mem_addresses.mpr hx')

theorem Records.pairwise_disjoint (h : Records allocTbl A) :
    (allocTbl.map Prod.snd).Pairwise fun r s => Disjoint (points r) (points s) := by
  have hne : allocTbl.Pairwise fun p q => p.1 ≠ q.1 := List.pairwise_map.mp h.nodup
  refine List.pairwise_map.mpr (hne.imp_of_mem fun {p q} hp hq hpq => ?_)
  exact h.disjoint hpq (Dict.get?_of_mem h.nodup hp) (Dict.get?_of_mem h.nodup hq)

theorem Records.pop (h : Records allocTbl A) (c : String) :
    Records (Dict.pop allocTbl c) (A.release c) where
  nodup := Dict.nodup_keys_pop h.nodup c
  separated p hp := h.separated p (Dict.mem_of_mem_pop hp)
  held_eq d := by
    rw [Allocation.held_release, Dict.get?_pop, h.held_eq]
    split
    · next hd => rw [if_pos hd.symm]; rfl
    · next hd => rw [if_neg fun h => hd h.symm]

theorem Records.set (h : Records allocTbl A) {c : String} (hc : c ∉ Dict.keys allocTbl)
    {ranges : HexRanges} (hsep : Separated ranges) (hfree : addresses ranges ⊆ A.free) :
    Records (Dict.set allocTbl c ranges) (A.give c (addresses ranges) hfree) where
  nodup := Dict.nodup_keys_set h.nodup c ranges
  separated := by
    rw [Dict.set_of_notMem hc, List.forall_mem_append, List.forall_mem_singleton]
    exact ⟨h.separated, hsep⟩
  held_eq d := by
    rw [Allocation.held_give, Dict.get?_set, h.held_eq]
    split
    · next hd => rw [if_pos hd.symm]; rfl
    · next hd => rw [if_neg fun h => hd h.symm]

end Records

/-! ## Reading back what was written -/

section File

variable (F : Type) [JsonFloat F]

/-- The database that is nothing but a table. -/
def ofTbl (allocTbl : AllocTbl) : Db F :=
  ⟨[], allocTbl, []⟩

variable {net : Network} {allocTbl : AllocTbl} {A : Allocation String net.pool}

theorem hexRangesOf_str {ranges : HexRanges} (hsep : Separated ranges)
    (hpos : ∀ e ∈ ranges, 0 ≤ e.1) :
    hexRangesOf (.str (HexRanges.toStr ranges) : Val F) = some ranges := by
  have hread := HexRanges.ofStr_toStr hsep hpos
  unfold hexRangesOf
  split
  · exact congrArg some hread
  · next hempty =>
    have hstr : HexRanges.toStr ranges = "" := by simpa [Val.truthy] using hempty
    rw [hstr] at hread
    exact congrArg some hread

/-- **What is written is read back.** -/
theorem read_write (h : Records allocTbl A) : read F (write (ofTbl F allocTbl)) =
    some (ofTbl F allocTbl) := by
  have hpos : ∀ p ∈ allocTbl, ∀ e ∈ p.2, 0 ≤ e.1 := fun p hp e he =>
    net.addrMin_nonneg.trans (Network.mem_pool.mp (h.mem_pool hp he).1).1
  have hkeyed : Val.Keyed (.dict [("alloc_tbl", .dict (allocTbl.map fun p =>
      (p.1, .str (HexRanges.toStr p.2))))] : Val F) := by
    refine .dict (List.nodup_singleton _) (List.forall_mem_singleton.mpr (.dict ?_ ?_))
    · rw [Dict.keys, List.map_map]
      exact h.nodup
    · exact List.forall_mem_map.mpr fun p _ => .primitive rfl
  have hlisted : Json.listedFields (allocTbl.map fun p =>
      (p.1, (.str (HexRanges.toStr p.2) : Val F))) =
        allocTbl.map fun p => (p.1, .str (HexRanges.toStr p.2)) := by
    clear h hpos hkeyed
    induction allocTbl with
    | nil => rfl
    | cons p tbl ih => exact congrArg ((p.1, Val.str (HexRanges.toStr p.2)) :: ·) ih
  have hmapM : (allocTbl.map fun p => (p.1, (.str (HexRanges.toStr p.2) : Val F))).mapM (fun p =>
      (do let ranges ← hexRangesOf p.2; pure (p.1, ranges) : Option (String × HexRanges))) =
        some allocTbl := by
    have hsep := h.separated
    clear h hkeyed hlisted
    induction allocTbl with
    | nil => rfl
    | cons p tbl ih =>
      obtain ⟨hsep₁, hsep⟩ := List.forall_mem_cons.mp hsep
      obtain ⟨hpos₁, hpos⟩ := List.forall_mem_cons.mp hpos
      rw [List.map_cons, List.mapM_cons, hexRangesOf_str F hsep₁ hpos₁, ih hpos hsep]
      rfl
  unfold read write ofTbl
  rw [List.nil_append, Json.loads_dumps hkeyed]
  dsimp only [Json.listed, Json.listedFields]
  rw [hlisted, Dict.get?_cons_self]
  dsimp only
  rw [hmapM]
  rfl

theorem initDb_write (h : Records allocTbl A) :
    initDb F (write (ofTbl F allocTbl)) = write (ofTbl F allocTbl) := by
  rw [initDb, read_write F h]

/-- A database that starts empty has an empty table. -/
theorem initDb_empty : initDb F "" = write (ofTbl F []) := rfl

/-! ## Freeing -/

theorem freeAddr_write (h : Records allocTbl A) (c : String) :
    freeAddr F (write (ofTbl F allocTbl)) c = .ok (write (ofTbl F (Dict.pop allocTbl c))) := by
  rw [freeAddr, read_write F h]
  rfl

/-! ## Allocating -/

end File

/-- The integers of a range, up to the end or up to `n` of them. -/
theorem take_range_map (a : ℤ) (m n : ℕ) :
    ((List.range m).map fun i : ℕ => a + (i : ℤ)).take n =
      (List.range (min n m)).map fun i : ℕ => a + (i : ℤ) := by
  rw [← List.map_take, List.take_range]

/-- **First fit.**  The loop takes the first `n` free addresses, or all when there are fewer. -/
theorem takeLoop_spec {addrs avail : HexRanges} (h : Separated (addrs ++ avail)) (n : ℕ) :
    Separated (takeLoop addrs n avail).1 ∧
      listPoints (takeLoop addrs n avail).1 = listPoints addrs ++ (listPoints avail).take n ∧
      (takeLoop addrs n avail).2 = ((n - (listPoints avail).length : ℕ) : ℤ) := by
  induction avail generalizing addrs n with
  | nil =>
    rw [List.append_nil] at h
    exact ⟨h, by simp [takeLoop], by simp [takeLoop]⟩
  | cons ent avail ih =>
    obtain ⟨haddrs, hcons, hlt⟩ := Ranges.separated_append_iff.mp h
    obtain ⟨hent, -, -⟩ := Ranges.separated_cons_iff.mp hcons
    have hlast : ∀ e ∈ addrs, e.2 < ent.1 := fun e he => hlt e he ent List.mem_cons_self
    have hlen : (listPoints (ent :: avail)).length =
        (ent.2 + 1 - ent.1).toNat + (listPoints avail).length := by
      rw [Ranges.listPoints_cons, List.length_append, List.length_map, List.length_range]
    rw [hlen]
    rw [takeLoop]
    split_ifs with hzero hpart
    · obtain rfl : n = 0 := by omega
      exact ⟨haddrs, by simp, by simp⟩
    · -- part of the entry
      have hins : HexRanges.ins addrs (ent.1, ent.1 + n - 1) = addrs ++ [(ent.1, ent.1 + n - 1)] :=
        HexRanges.ins_of_forall_lt haddrs.nonempty hlast
      rw [hins, Ranges.listPoints_append, Ranges.listPoints_cons, Ranges.listPoints_cons, Ranges.listPoints_nil, List.append_nil]
      refine ⟨?_, ?_, ?_⟩
      · refine Ranges.separated_append_iff.mpr ⟨haddrs, ?_, ?_⟩
        · exact Ranges.separated_cons_iff.mpr ⟨by dsimp only; omega, nofun, Ranges.separated_nil⟩
        · exact fun e he => List.forall_mem_singleton.mpr (hlast e he)
      · rw [List.take_append_of_le_length (by rw [List.length_map, List.length_range]; omega),
          take_range_map]
        have hcount : (ent.1 + n - 1 + 1 - ent.1).toNat = min n (ent.2 + 1 - ent.1).toNat := by
          omega
        dsimp only
        rw [hcount]
      · omega
    · -- the whole entry
      rw [HexRanges.ins_of_forall_lt haddrs.nonempty hlast]
      have hrest : (n : ℤ) - (ent.2 - ent.1 + 1) = ((n - (ent.2 + 1 - ent.1).toNat : ℕ) : ℤ) := by
        omega
      rw [hrest]
      have happend : Separated (addrs ++ [ent] ++ avail) := by simpa using h
      obtain ⟨hsep, hpoints, hleft⟩ := ih happend (n - (ent.2 + 1 - ent.1).toNat)
      refine ⟨hsep, ?_, ?_⟩
      · have htake : ((List.range (ent.2 + 1 - ent.1).toNat).map fun i : ℕ => ent.1 + (i : ℤ)).take n =
            (List.range (ent.2 + 1 - ent.1).toNat).map fun i : ℕ => ent.1 + (i : ℤ) :=
          List.take_of_length_le (by rw [List.length_map, List.length_range]; omega)
        rw [hpoints, Ranges.listPoints_append, Ranges.listPoints_cons, Ranges.listPoints_nil,
          List.append_nil, Ranges.listPoints_cons, List.append_assoc, List.take_append, htake,
          List.length_map, List.length_range]
      · rw [hleft]
        omega

/-- The free ranges that `alloc_addr` computes. -/
def avail (net : Network) (allocTbl : AllocTbl) : HexRanges :=
  HexRanges.inv (HexRanges.union (allocTbl.map Prod.snd)).1 net.addrMin net.addrMax

section Avail

variable {net : Network} {allocTbl : AllocTbl} {A : Allocation String net.pool}

theorem Records.union (h : Records allocTbl A) :
    Separated (HexRanges.union (allocTbl.map Prod.snd)).1 ∧
      (HexRanges.union (allocTbl.map Prod.snd)).2 = allocTbl.map Prod.snd ∧
      ∀ e, e ∈ (HexRanges.union (allocTbl.map Prod.snd)).1 ↔ ∃ p ∈ allocTbl, e ∈ p.2 := by
  obtain ⟨hperm, hsep, hargs⟩ :=
    HexRanges.union_of_disjoint (List.forall_mem_map.mpr h.separated) h.pairwise_disjoint
  refine ⟨hsep, hargs, fun e => ?_⟩
  rw [hperm.mem_iff, List.mem_flatten]
  simp only [List.mem_map]
  constructor
  · rintro ⟨_, ⟨p, hp, rfl⟩, he⟩
    exact ⟨p, hp, he⟩
  · rintro ⟨p, hp, he⟩
    exact ⟨p.2, ⟨p, hp, rfl⟩, he⟩

/-- **The free ranges** are separated, and their addresses are those that nobody holds. -/
theorem Records.avail (h : Records allocTbl A) : Separated (avail net allocTbl) ∧
    ∀ x, x ∈ listPoints (avail net allocTbl) ↔ x ∈ A.free := by
  obtain ⟨hsep, -, hmem⟩ := h.union
  unfold IPAddrDb.avail
  generalize (HexRanges.union (allocTbl.map Prod.snd)).1 = u at hsep hmem
  have hmin : ∀ e ∈ u, net.addrMin ≤ e.1 := by
    intro e he
    obtain ⟨p, hp, he⟩ := (hmem e).mp he
    exact (Network.mem_pool.mp (h.mem_pool hp he).1).1
  have hmax : ∀ e ∈ u, e.2 ≤ net.addrMax := by
    intro e he
    obtain ⟨p, hp, he⟩ := (hmem e).mp he
    exact (Network.mem_pool.mp (h.mem_pool hp he).2).2
  rw [HexRanges.inv_eq_gaps hsep]
  refine ⟨HexRanges.separated_gaps hsep hmin, fun x => ?_⟩
  rw [Ranges.mem_listPoints, HexRanges.mem_points_gaps_of_inside hsep hmin hmax, Allocation.mem_free,
    Network.mem_pool, and_assoc]
  refine and_congr_right fun _ => and_congr_right fun _ => ?_
  constructor
  · intro hx c s hs hxs
    rw [h.held_eq] at hs
    obtain ⟨r, hr, rfl⟩ := Option.map_eq_some_iff.mp hs
    obtain ⟨e, he, hex⟩ := mem_addresses.mp hxs
    exact hx ⟨e, (hmem e).mpr ⟨_, Dict.mem_of_get? hr, he⟩, hex⟩
  · rintro hx ⟨e, he, hex⟩
    obtain ⟨p, hp, he⟩ := (hmem e).mp he
    exact hx p.1 _ (h.held_of_mem hp) (mem_addresses.mpr ⟨e, he, hex⟩)

theorem Records.length_avail (h : Records allocTbl A) :
    (listPoints (IPAddrDb.avail net allocTbl)).length = A.free.card := by
  obtain ⟨hsep, hmem⟩ := h.avail
  have hset : (listPoints (IPAddrDb.avail net allocTbl)).toFinset = A.free :=
    Finset.ext fun x => by rw [List.mem_toFinset, hmem]
  rw [← hset, List.toFinset_card_of_nodup hsep.nodup_listPoints]

end Avail

section File

variable (F : Type) [JsonFloat F] {net : Network} {allocTbl : AllocTbl}
  {A : Allocation String net.pool}

/-- **A cluster that has an allocation** gets it again, whatever the number. -/
theorem allocAddr_known (h : Records allocTbl A) {c : String} {ranges : HexRanges}
    (hc : Dict.get? allocTbl c = some ranges) (n : ℕ) :
    allocAddr F net (write (ofTbl F allocTbl)) c n =
      .ok (some ranges, write (ofTbl F allocTbl)) := by
  rw [allocAddr, read_write F h]
  change (match Dict.get? allocTbl c with | some addrs => _ | none => _) = _
  rw [hc]
  rfl

/-- What `alloc_addr` does for a cluster without an allocation. -/
theorem allocAddr_new (h : Records allocTbl A) {c : String} (hc : Dict.get? allocTbl c = none)
    (n : ℕ) : allocAddr F net (write (ofTbl F allocTbl)) c n =
      if (takeLoop [] n (avail net allocTbl)).2 ≠ 0 then .ok (none, write (ofTbl F allocTbl))
      else .ok (some (takeLoop [] n (avail net allocTbl)).1,
        write (ofTbl F (Dict.set allocTbl c (takeLoop [] n (avail net allocTbl)).1))) := by
  have hzip : (Dict.keys allocTbl).zip (allocTbl.map Prod.snd) = allocTbl := by
    rw [Dict.keys, List.zip_map', List.map_id'']
    exact fun _ => rfl
  rw [allocAddr, read_write F h]
  change (match Dict.get? allocTbl c with | some addrs => _ | none => _) = _
  rw [hc]
  change (if (takeLoop [] n (avail net allocTbl)).2 ≠ 0 then _ else
    Except.ok (some (takeLoop [] n (avail net allocTbl)).1, write
      ⟨[], Dict.set ((Dict.keys allocTbl).zip (HexRanges.union (allocTbl.map Prod.snd)).2) c
        (takeLoop [] n (avail net allocTbl)).1, []⟩)) = _
  rw [h.union.2.1, hzip]
  rfl

/-- **Too few free addresses**: nothing is allocated and nothing changes. -/
theorem allocAddr_of_card_lt (h : Records allocTbl A) {c : String}
    (hc : Dict.get? allocTbl c = none) {n : ℕ} (hn : A.free.card < n) :
    allocAddr F net (write (ofTbl F allocTbl)) c n = .ok (none, write (ofTbl F allocTbl)) := by
  obtain ⟨-, -, hleft⟩ := takeLoop_spec (List.nil_append (avail net allocTbl) ▸ h.avail.1) n
  rw [h.length_avail] at hleft
  rw [allocAddr_new F h hc, if_pos (by omega)]

/-- **Enough free addresses**: the first `n` of them are allocated. -/
theorem allocAddr_of_le_card (h : Records allocTbl A) {c : String}
    (hc : Dict.get? allocTbl c = none) {n : ℕ} (hn : n ≤ A.free.card) :
    ∃ ranges, Separated ranges ∧ (listPoints ranges).length = n ∧ addresses ranges ⊆ A.free ∧
      allocAddr F net (write (ofTbl F allocTbl)) c n =
        .ok (some ranges, write (ofTbl F (Dict.set allocTbl c ranges))) := by
  obtain ⟨hsep, hpoints, hleft⟩ := takeLoop_spec (List.nil_append (avail net allocTbl) ▸ h.avail.1) n
  rw [h.length_avail] at hleft
  rw [Ranges.listPoints_nil, List.nil_append] at hpoints
  refine ⟨_, hsep, ?_, ?_, ?_⟩
  · rw [hpoints, List.length_take, h.length_avail]
    omega
  · intro x hx
    rw [addresses, List.mem_toFinset, hpoints] at hx
    exact (h.avail.2 x).mp (List.mem_of_mem_take hx)
  · rw [allocAddr_new F h hc, if_neg (by omega)]

/-! ## Every run -/

/-- **A step of the database** is a step of the allocation that its table records. -/
theorem step_write (h : Records allocTbl A) (op : Op) :
    ∃ (allocTbl' : AllocTbl) (A' : Allocation String net.pool),
      step F net (write (ofTbl F allocTbl)) op = .ok (write (ofTbl F allocTbl')) ∧
        Records allocTbl' A' ∧ Allocation.Step A A' := by
  cases op with
  | init => exact ⟨allocTbl, A, congrArg Except.ok (initDb_write F h), h, .stay A⟩
  | free c => exact ⟨_, _, freeAddr_write F h c, h.pop c, .release A c⟩
  | alloc c n =>
    rw [step]
    cases hc : Dict.get? allocTbl c with
    | some ranges =>
      rw [allocAddr_known F h hc]
      exact ⟨allocTbl, A, rfl, h, .stay A⟩
    | none =>
      rcases Nat.lt_or_ge A.free.card n with hn | hn
      · rw [allocAddr_of_card_lt F h hc hn]
        exact ⟨allocTbl, A, rfl, h, .stay A⟩
      · obtain ⟨ranges, hsep, -, hfree, halloc⟩ := allocAddr_of_le_card F h hc hn
        have hheld : A.held c = none := by rw [h.held_eq, hc]; rfl
        rw [halloc]
        exact ⟨_, _, rfl, h.set (Dict.get?_eq_none_iff.mp hc) hsep hfree, .give hheld hfree⟩

theorem foldlM_step_write (h : Records allocTbl A) (ops : List Op) :
    ∃ (allocTbl' : AllocTbl) (A' : Allocation String net.pool),
      ops.foldlM (step F net) (write (ofTbl F allocTbl)) = .ok (write (ofTbl F allocTbl')) ∧
        Records allocTbl' A' ∧ Relation.ReflTransGen Allocation.Step A A' := by
  induction ops generalizing allocTbl A with
  | nil => exact ⟨allocTbl, A, rfl, h, .refl⟩
  | cons op ops ih =>
    obtain ⟨tbl₁, A₁, hstep, h₁, hA₁⟩ := step_write F h op
    obtain ⟨tbl₂, A₂, hrun, h₂, hA₂⟩ := ih h₁
    rw [List.foldlM_cons, hstep]
    exact ⟨tbl₂, A₂, hrun, h₂, .head hA₁ hA₂⟩

/-- **Every run** ends with a table, and with an allocation reached from the empty one. -/
theorem run_eq (net : Network) (ops : List Op) :
    ∃ (allocTbl : AllocTbl) (A : Allocation String net.pool),
      run F net ops = .ok (write (ofTbl F allocTbl)) ∧ Records allocTbl A ∧
        Relation.ReflTransGen Allocation.Step (Allocation.empty String net.pool) A :=
  foldlM_step_write F (records_empty net.pool) ops

/-- **Reachable databases.**  Whatever was allocated and freed, the file can be read, different
clusters have no common address, and each range list is sorted, without overlap, and inside the
network. -/
theorem run_invariant (net : Network) (ops : List Op) :
    ∃ (file : String) (db : Db F), run F net ops = .ok file ∧ read F file = some db ∧
      (∀ c d r s, c ≠ d → Dict.get? db.allocTbl c = some r → Dict.get? db.allocTbl d = some s →
        Disjoint (points r) (points s)) ∧
      ∀ c r, Dict.get? db.allocTbl c = some r →
        Separated r ∧ ∀ x ∈ points r, net.addrMin ≤ x ∧ x ≤ net.addrMax := by
  obtain ⟨allocTbl, A, hrun, h, -⟩ := run_eq F net ops
  refine ⟨_, _, hrun, read_write F h, fun c d r s hcd hr hs => h.disjoint hcd hr hs, ?_⟩
  intro c r hr
  have hmem := Dict.mem_of_get? hr
  refine ⟨h.separated _ hmem, fun x hx => ?_⟩
  exact Network.mem_pool.mp (A.subset_pool (h.held_of_mem hmem) (mem_addresses.mpr hx))

/-- The addresses of hosts that no cluster has. -/
noncomputable def freeAddresses (net : Network) (allocTbl : AllocTbl) : Finset ℤ :=
  net.pool.filter fun x => ∀ p ∈ allocTbl, x ∉ listPoints p.2

theorem Records.freeAddresses_eq (h : Records allocTbl A) : freeAddresses net allocTbl = A.free := by
  ext x
  rw [freeAddresses, Finset.mem_filter, Allocation.mem_free]
  refine and_congr_right fun _ => ⟨fun hx c s hs hxs => ?_, fun hx p hp hxp => ?_⟩
  · rw [h.held_eq] at hs
    obtain ⟨r, hr, rfl⟩ := Option.map_eq_some_iff.mp hs
    exact hx _ (Dict.mem_of_get? hr) (List.mem_toFinset.mp hxs)
  · exact hx p.1 _ (h.held_of_mem hp) (List.mem_toFinset.mpr hxp)

/-- **What `alloc_addr` does** for a cluster without an allocation, in a reachable database. -/
theorem allocAddr_correct (net : Network) (ops : List Op) (file : String) (db : Db F)
    (name : String) (n : ℕ) (hrun : run F net ops = .ok file) (hread : read F file = some db)
    (hname : Dict.get? db.allocTbl name = none) :
    ((freeAddresses net db.allocTbl).card < n →
      allocAddr F net file name n = .ok (none, file)) ∧
    (n ≤ (freeAddresses net db.allocTbl).card → ∃ addrs file' db',
      allocAddr F net file name n = .ok (some addrs, file') ∧
      (listPoints addrs).length = n ∧ (listPoints addrs).Nodup ∧
      (∀ x ∈ listPoints addrs, x ∈ freeAddresses net db.allocTbl) ∧
      read F file' = some db' ∧ Dict.get? db'.allocTbl name = some addrs ∧
      (∀ c, c ≠ name → Dict.get? db'.allocTbl c = Dict.get? db.allocTbl c) ∧
      freeAddr F file' name = .ok file) := by
  obtain ⟨allocTbl, A, hrun', h, -⟩ := run_eq F net ops
  obtain rfl : file = write (ofTbl F allocTbl) := Except.ok.inj (hrun.symm.trans hrun')
  obtain rfl : db = ofTbl F allocTbl := Option.some_inj.mp (hread.symm.trans (read_write F h))
  have hc : Dict.get? allocTbl name = none := hname
  change ((freeAddresses net allocTbl).card < n → _) ∧ (n ≤ (freeAddresses net allocTbl).card → _)
  rw [h.freeAddresses_eq]
  refine ⟨allocAddr_of_card_lt F h hc, fun hn => ?_⟩
  obtain ⟨ranges, hsep, hlen, hfree, halloc⟩ := allocAddr_of_le_card F h hc hn
  have hkeys := Dict.get?_eq_none_iff.mp hc
  have h' := h.set hkeys hsep hfree
  refine ⟨ranges, _, _, halloc, hlen, hsep.nodup_listPoints, fun x hx => ?_, read_write F h',
    Dict.get?_set_self _ _ _, fun c hne => Dict.get?_set_of_ne _ _ hne.symm, ?_⟩
  · change x ∈ freeAddresses net allocTbl
    rw [h.freeAddresses_eq]
    exact hfree (List.mem_toFinset.mpr hx)
  · rw [freeAddr_write F h', Dict.pop_set_of_notMem _ hkeys]

/-- Beside a cluster with `9` and `10`, another one gets the other four hosts of `8` to `15`. -/
theorem allocAddr_second_cluster :
    ∃ addrs file' db', allocAddr Json.SampleFloat ⟨8, 7⟩
        (write (ofTbl Json.SampleFloat [("a", [(9, 10)])])) "b" 4 = .ok (some addrs, file') ∧
      (listPoints addrs).length = 4 ∧ (listPoints addrs).Nodup ∧
      (∀ x ∈ listPoints addrs, x ∈ freeAddresses ⟨8, 7⟩ [("a", [(9, 10)])]) ∧
      read Json.SampleFloat file' = some db' ∧ Dict.get? db'.allocTbl "b" = some addrs ∧
      (∀ c, c ≠ "b" → Dict.get? db'.allocTbl c = Dict.get? [("a", [(9, 10)])] c) ∧
      freeAddr Json.SampleFloat file' "b" =
        .ok (write (ofTbl Json.SampleFloat [("a", [(9, 10)])])) := by
  have hsep : Separated [((9, 10) : Entry)] :=
    Ranges.separated_cons_iff.mpr ⟨by decide, nofun, Ranges.separated_nil⟩
  have hfree : addresses [(9, 10)] ⊆ (Allocation.empty String (Network.pool ⟨8, 7⟩)).free := by
    rw [Allocation.free_empty]
    decide
  have h := (records_empty (Network.pool ⟨8, 7⟩)).set (c := "a") nofun hsep hfree
  exact (allocAddr_correct Json.SampleFloat ⟨8, 7⟩ [.alloc "a" 2] _ _ "b" 4 (by decide +kernel)
    (read_write Json.SampleFloat h) rfl).2 (by decide)

end File

end IPAddrDb
end LdmsTest
