import LdmsTest.Foundation.Dict
import LdmsTest.Foundation.Fuelled
import LdmsTest.Foundation.Numeral
import LdmsTest.Foundation.Positions
import LdmsTest.Foundation.Shares
import LdmsTest.Python.Value

/-!
# The daemons of the scalability test

The test has four levels of daemons: samplers, two levels of aggregators, and one aggregator at the
top.  The daemons of a level are named by host and port and numbered in order, and each aggregator
has the same number of daemons of the level below as its producers, in a row.

* `Config`: what `config.py` defines, with as many daemons at each level as at the next at least.
* `dl`, `idx`, `getPrdcr`, `getExpectedDir`: the lists and methods of the source, by the level.
* `Assigned`: every daemon of a level is a producer of exactly one aggregator.
* `aggregated_iff`: when this is so at every level, and every set gets to the top once.
-/

namespace LdmsTest
namespace Scalability

open Shares (share)

/-! ## Daemons -/

/-- `X_HOSTS`, `X_PER_HOST` and `X_BASE_PORT` -/
structure Level where
  hosts : List String
  perHost : ℕ
  basePort : ℕ

/-- `"{}-{}".format(host, port)` -/
def daemonName (host : String) (port : ℕ) : String :=
  host ++ "-" ++ toString port

/-- `SAMPLERS`, `L1_AGGS` and `L2_AGGS` -/
def Level.names (L : Level) : List String :=
  L.hosts.flatMap fun h => (List.range L.perHost).map fun i => daemonName h (L.basePort + i)

/-- What `config.py` defines of the daemons. -/
structure Config where
  samp : Level
  l1 : Level
  l2 : Level
  l3Host : String
  l3BasePort : ℕ
  setsPerSamp : ℕ
  l1_le : l1.names.length ≤ samp.names.length
  l2_le : l2.names.length ≤ l1.names.length
  l2_pos : 1 ≤ l2.names.length

/-- `DL` -/
def dl (c : Config) : ℕ → List String
  | 0 => c.samp.names
  | 1 => c.l1.names
  | 2 => c.l2.names
  | _ => [daemonName c.l3Host c.l3BasePort]

/-- `NDL` -/
def ndl (c : Config) : ℕ → ℕ
  | 0 => c.samp.names.length
  | 1 => c.l1.names.length
  | 2 => c.l2.names.length
  | _ => 1

/-- `{ k: i for (k, i) in zip(names, range(n)) }` -/
def indexOf (names : List String) : Dict String ℕ :=
  Dict.update [] (names.zip (List.range names.length))

/-- `d[k]` -/
def item {β : Type} (d : Dict String β) (k : String) : Except PyError β :=
  match Dict.get? d k with
  | some v => pure v
  | none => throw ⟨.keyError, "'" ++ k ++ "'"⟩

/-- `SAMPLERS_IDX[name]`, `L1_IDX[name]` and `L2_IDX[name]`; 0 for the aggregator at the top. -/
def idx (c : Config) (level : ℕ) (name : String) : Except PyError ℕ :=
  if level < 3 then item (indexOf (dl c level)) name else pure 0

/-- `names[i]` -/
def nth (names : List String) (i : ℕ) : Except PyError String :=
  match names[i]? with
  | some name => pure name
  | none => throw ⟨.indexError, "list index out of range"⟩

/-- `getPrdcr` of a daemon of the level.  There is a daemon at each level to divide by. -/
def getPrdcr (c : Config) : ℕ → String → Except PyError (List String)
  | 0, _ => pure []
  | below + 1, name => do
    let idx ← idx c (below + 1) name
    let nDist := ndl c below / ndl c (below + 1)
    let names := dl c below
    let off := idx * nDist
    (List.range nDist).mapM fun i => nth names (off + i)

/-- `getExpectedDir` of a sampler -/
def sets (c : Config) (name : String) : List String :=
  (List.range c.setsPerSamp).map fun i => name ++ "/set_" ++ toString i

/-- `getExpectedDir` of a daemon of the level, which is made for its name first -/
def getExpectedDir (c : Config) : ℕ → String → Except PyError (List String)
  | 0, name => do
    let _ ← idx c 0 name
    pure (sets c name)
  | below + 1, name => do
    let prdcrs ← getPrdcr c (below + 1) name
    let dirs ← prdcrs.mapM (getExpectedDir c below)
    pure dirs.flatten

/-! ## What is to hold -/

/-- **Every daemon of the level below is a producer of exactly one aggregator**: among the
producers of all aggregators of the level each is found once, and they are as many. -/
def Assigned (c : Config) (below : ℕ) : Prop :=
  ∃ prdcrs, (dl c (below + 1)).mapM (getPrdcr c (below + 1)) = .ok prdcrs ∧
    prdcrs.flatten.length = ndl c below ∧ ∀ name ∈ dl c below, prdcrs.flatten.count name = 1

/-- The aggregator at the top expects every set of every sampler once. -/
def ExpectsAll (c : Config) : Prop :=
  ∃ dir, getExpectedDir c 3 (daemonName c.l3Host c.l3BasePort) = .ok dir ∧
    (∀ name ∈ c.samp.names, ∀ i < c.setsPerSamp,
      dir.count (name ++ "/set_" ++ toString i) = 1) ∧
    dir.length = c.samp.hosts.length * c.samp.perHost * c.setsPerSamp

structure Aggregated (c : Config) : Prop where
  assigned : ∀ below < 3, Assigned c below
  expects : ExpectsAll c

/-! ## Names -/

theorem toList_toString (n : ℕ) : (toString n).toList = Nat.toDigits 10 n :=
  String.toList_ofList

theorem notMem_toDigits {c : Char} (hc : ∀ d < 10, Nat.digitChar d ≠ c) (n : ℕ) :
    c ∉ Nat.toDigits 10 n := by
  intro hmem
  obtain ⟨d, hd, hdc⟩ := Numeral.exists_of_mem_toDigits (by decide) hmem
  exact hc d hd hdc.symm

theorem toDigits_inj {m n : ℕ} (h : Nat.toDigits 10 m = Nat.toDigits 10 n) : m = n := by
  have hvalue := congrArg (Numeral.value 10) h
  rwa [Numeral.value_toDigits (by decide) (by decide),
    Numeral.value_toDigits (by decide) (by decide)] at hvalue

theorem toList_daemonName (host : String) (port : ℕ) :
    (daemonName host port).toList = host.toList ++ '-' :: Nat.toDigits 10 port := by
  rw [daemonName, String.toList_append, String.toList_append, toList_toString, List.append_assoc]
  rfl

/-- A name has one host and one port. -/
theorem daemonName_inj {host host' : String} {port port' : ℕ}
    (h : daemonName host port = daemonName host' port') : host = host' ∧ port = port' := by
  have hchars := congrArg String.toList h
  rw [toList_daemonName, toList_daemonName] at hchars
  have hdash := notMem_toDigits (c := '-') (by decide)
  have hport := Positions.eq_of_append_sep (hdash port) (hdash port') hchars
  rw [hport] at hchars
  exact ⟨String.toList_injective (List.append_cancel_right hchars), toDigits_inj hport⟩

/-- The name of a set has one sampler and one number. -/
theorem setName_inj {name name' : String} {i i' : ℕ}
    (h : name ++ "/set_" ++ toString i = name' ++ "/set_" ++ toString i') :
    name = name' ∧ i = i' := by
  have hlist : ∀ (name : String) (i : ℕ), (name ++ "/set_" ++ toString i).toList =
      name.toList ++ '/' :: ("set_".toList ++ Nat.toDigits 10 i) := by
    intro name i
    rw [String.toList_append, String.toList_append, toList_toString, List.append_assoc]
    rfl
  have hchars := congrArg String.toList h
  rw [hlist, hlist] at hchars
  have hslash : ∀ i, '/' ∉ "set_".toList ++ Nat.toDigits 10 i := by
    intro i
    rw [List.mem_append, not_or]
    exact ⟨by decide, notMem_toDigits (by decide) i⟩
  have htail := Positions.eq_of_append_sep (hslash i) (hslash i') hchars
  rw [htail] at hchars
  exact ⟨String.toList_injective (List.append_cancel_right hchars),
    toDigits_inj (List.append_cancel_left htail)⟩

/-- The names of one host. -/
theorem nodup_hostNames (host : String) (n base : ℕ) :
    ((List.range n).map fun i => daemonName host (base + i)).Nodup :=
  List.nodup_range.map fun _ _ h => Nat.add_left_cancel (daemonName_inj h).2

theorem Level.length_names (L : Level) : L.names.length = L.hosts.length * L.perHost := by
  rw [Level.names, List.length_flatMap]
  simp only [List.length_map, List.length_range, List.map_const', List.sum_replicate, smul_eq_mul]

/-- **Two daemons have one name** only if a host is listed twice. -/
theorem Level.nodup_names_iff {L : Level} (hpos : 1 ≤ L.names.length) :
    L.names.Nodup ↔ L.hosts.Nodup := by
  have hper : 0 < L.perHost := by
    rw [L.length_names] at hpos
    exact Nat.pos_of_mul_pos_left hpos
  rw [Level.names, List.nodup_flatMap, List.Nodup]
  refine ⟨fun h => h.2.imp fun {host host'} hdisj heq => ?_, fun h =>
    ⟨fun host _ => nodup_hostNames host _ _, h.imp fun {host host'} hne name hname hname' => ?_⟩⟩
  · have hmem : daemonName host (L.basePort + 0) ∈
        (List.range L.perHost).map fun i => daemonName host (L.basePort + i) :=
      List.mem_map_of_mem (List.mem_range.mpr hper)
    exact hdisj hmem (heq ▸ hmem)
  · obtain ⟨i, -, rfl⟩ := List.mem_map.mp hname
    obtain ⟨j, -, hj⟩ := List.mem_map.mp hname'
    exact hne (daemonName_inj hj).1.symm

/-! ## Numbers of daemons -/

theorem length_dl (c : Config) : ∀ level, (dl c level).length = ndl c level
  | 0 | 1 | 2 | _ + 3 => rfl

theorem ndl_pos (c : Config) : ∀ level, 1 ≤ ndl c level
  | 0 => c.l2_pos.trans (c.l2_le.trans c.l1_le)
  | 1 => c.l2_pos.trans c.l2_le
  | 2 => c.l2_pos
  | _ + 3 => le_rfl

theorem keys_zip_range (names : List String) :
    Dict.keys (names.zip (List.range names.length)) = names :=
  List.map_fst_zip (by rw [List.length_range])

theorem mem_zip_range_iff {names : List String} {name : String} {i : ℕ} :
    (name, i) ∈ names.zip (List.range names.length) ↔ names[i]? = some name := by
  rw [List.range_eq_range', ← List.zipIdx_eq_zip_range', List.mk_mem_zipIdx_iff_getElem?]

/-- The index of a name is the position of a daemon with this name. -/
theorem getElem?_of_item {names : List String} {name : String} {i : ℕ}
    (h : item (indexOf names) name = .ok i) : names[i]? = some name := by
  rw [item] at h
  cases hget : Dict.get? (indexOf names) name with
  | none =>
    rw [hget] at h
    cases h
  | some j =>
    rw [hget] at h
    cases h
    rcases Dict.get?_update_elim hget with hmem | hnil
    · exact mem_zip_range_iff.mp hmem
    · cases hnil

/-- Where no two daemons have one name, each has its own index. -/
theorem item_indexOf {names : List String} (h : names.Nodup) {name : String} {i : ℕ}
    (hi : names[i]? = some name) : item (indexOf names) name = .ok i := by
  have hkeys : (Dict.keys (names.zip (List.range names.length))).Nodup := by
    rwa [keys_zip_range]
  have hget : Dict.get? (indexOf names) name = some i := by
    rw [indexOf, Dict.get?_update hkeys, Dict.get?_of_mem hkeys (mem_zip_range_iff.mpr hi),
      Option.some_or]
  rw [item, hget]
  rfl

theorem idx_lt {c : Config} {level : ℕ} {name : String} {i : ℕ}
    (h : idx c level name = .ok i) : i < ndl c level := by
  rw [idx] at h
  split at h
  · rw [← length_dl]
    exact (List.getElem?_eq_some_iff.mp (getElem?_of_item h)).1
  · cases h
    exact ndl_pos c level

theorem idx_eq {c : Config} {level : ℕ} (h : (dl c level).Nodup) {name : String} {i : ℕ}
    (hi : (dl c level)[i]? = some name) : idx c level name = .ok i := by
  rw [idx]
  split
  · exact item_indexOf h hi
  · next hlevel =>
    have hlt := (List.getElem?_eq_some_iff.mp hi).1
    rw [length_dl] at hlt
    have hone : ndl c level = 1 := by
      obtain ⟨k, rfl⟩ := Nat.exists_eq_add_of_le' (Nat.not_lt.mp hlevel)
      rfl
    rw [show i = 0 by omega]
    rfl

/-! ## Producers -/

/-- The number of producers of each aggregator. -/
def nDist (c : Config) (below : ℕ) : ℕ :=
  ndl c below / ndl c (below + 1)

theorem mul_nDist_le (c : Config) (below : ℕ) : ndl c (below + 1) * nDist c below ≤ ndl c below :=
  Nat.mul_div_le ..

/-- **The producers of an aggregator** are its share of the daemons below. -/
theorem getPrdcr_eq {c : Config} {below : ℕ} {name : String} {i : ℕ}
    (h : idx c (below + 1) name = .ok i) :
    getPrdcr c (below + 1) name = .ok (share (dl c below) (nDist c below) i) := by
  have hi := idx_lt h
  have hle := mul_nDist_le c below
  have hshare : (share (dl c below) (nDist c below) i).length = nDist c below :=
    Shares.length_share hi (by rw [length_dl]; exact hle)
  rw [getPrdcr, h, ok_bind]
  refine mapM_eq_ok_iff.mpr (forall₂_of_getElem? ?_ fun j k prdcr hk hprdcr => ?_)
  · rw [hshare, List.length_range]
    rfl
  · obtain ⟨hj, hjk⟩ := List.getElem?_eq_some_iff.mp hk
    rw [List.length_range] at hj
    rw [List.getElem_range] at hjk
    have hget := Shares.getElem?_share (l := dl c below) (i := i) (show j < nDist c below from hj)
    subst hjk
    rw [hprdcr, nDist] at hget
    rw [nth, ← hget]
    rfl

/-- An aggregator that has producers has as many as the others. -/
theorem length_of_getPrdcr {c : Config} {below : ℕ} {name : String} {prdcrs : List String}
    (h : getPrdcr c (below + 1) name = .ok prdcrs) :
    prdcrs.length = nDist c below ∧ prdcrs ⊆ dl c below := by
  have hidx : ∃ i, idx c (below + 1) name = .ok i := by
    rw [getPrdcr] at h
    obtain ⟨i, hi, -⟩ := exists_of_bind_ok h
    exact ⟨i, hi⟩
  obtain ⟨i, hi⟩ := hidx
  rw [getPrdcr_eq hi] at h
  cases h
  refine ⟨Shares.length_share (idx_lt hi) (by rw [length_dl]; exact mul_nDist_le c below), ?_⟩
  exact fun x hx => List.mem_of_mem_drop (List.mem_of_mem_take hx)

/-! ## The levels -/

/-- The levels divide evenly, and no host is listed twice. -/
structure Even (c : Config) : Prop where
  samp_nodup : c.samp.hosts.Nodup
  l1_nodup : c.l1.hosts.Nodup
  l2_nodup : c.l2.hosts.Nodup
  l1_dvd : c.l1.names.length ∣ c.samp.names.length
  l2_dvd : c.l2.names.length ∣ c.l1.names.length

theorem Even.nodup {c : Config} (h : Even c) : ∀ level, (dl c level).Nodup
  | 0 => (Level.nodup_names_iff (ndl_pos c 0)).mpr h.samp_nodup
  | 1 => (Level.nodup_names_iff (ndl_pos c 1)).mpr h.l1_nodup
  | 2 => (Level.nodup_names_iff (ndl_pos c 2)).mpr h.l2_nodup
  | _ + 3 => List.nodup_singleton _

theorem Even.dvd {c : Config} (h : Even c) : ∀ level, ndl c (level + 1) ∣ ndl c level
  | 0 => h.l1_dvd
  | 1 => h.l2_dvd
  | _ + 2 => one_dvd _

/-- Where the levels divide evenly, the producers of all aggregators are the daemons below, in
order. -/
theorem Even.flatMap_share {c : Config} (h : Even c) (below : ℕ) :
    (List.range (ndl c (below + 1))).flatMap (share (dl c below) (nDist c below)) = dl c below := by
  rw [Shares.flatMap_share, nDist, Nat.mul_div_cancel' (h.dvd below), ← length_dl, List.take_length]

/-- Each daemon of a level, with its index. -/
theorem Even.forall₂_idx {c : Config} (h : Even c) (level : ℕ) :
    List.Forall₂ (fun name i => idx c level name = .ok i) (dl c level)
      (List.range (ndl c level)) := by
  refine forall₂_of_getElem? (by rw [List.length_range, length_dl]) fun i name k hname hk => ?_
  obtain ⟨hi, rfl⟩ := List.getElem?_eq_some_iff.mp hk
  rw [List.getElem_range]
  exact idx_eq (h.nodup level) hname

/-- **The daemons are assigned** if the levels divide evenly. -/
theorem Even.assigned {c : Config} (h : Even c) (below : ℕ) : Assigned c below := by
  have hall : (dl c (below + 1)).mapM (getPrdcr c (below + 1)) =
      .ok ((List.range (ndl c (below + 1))).map (share (dl c below) (nDist c below))) := by
    refine mapM_eq_ok_iff.mpr (List.forall₂_map_right_iff.mpr ?_)
    exact (h.forall₂_idx (below + 1)).imp fun name i hi => getPrdcr_eq hi
  refine ⟨_, hall, ?_⟩
  rw [← List.flatMap_def, h.flatMap_share, length_dl]
  exact ⟨rfl, fun name hname => List.count_eq_one_of_mem (h.nodup below) hname⟩

/-- **The daemons are not assigned** if the levels do not divide evenly, or two of them have one
name. -/
theorem nodup_and_dvd_of_assigned {c : Config} {below : ℕ} (h : Assigned c below) :
    (dl c below).Nodup ∧ ndl c (below + 1) ∣ ndl c below := by
  obtain ⟨prdcrs, hall, hlen, honce⟩ := h
  have heach := mapM_eq_ok_iff.mp hall
  have hmem : ∀ l ∈ prdcrs, l.length = nDist c below ∧ l ⊆ dl c below := by
    intro l hl
    obtain ⟨i, hi⟩ := List.getElem?_of_mem hl
    obtain ⟨name, -, hname⟩ := exists_left_of_forall₂ heach hi
    exact length_of_getPrdcr hname
  refine ⟨Shares.nodup_of_exactlyOnce (hlen.trans (length_dl c below).symm) ?_ honce, ?_⟩
  · intro x hx
    obtain ⟨l, hl, hxl⟩ := List.mem_flatten.mp hx
    exact (hmem l hl).2 hxl
  · have hsum : prdcrs.flatten.length = prdcrs.length * nDist c below := by
      rw [List.length_flatten, List.map_congr_left fun l hl => (hmem l hl).1, List.map_const',
        List.sum_replicate, smul_eq_mul]
    rw [hlen, ← heach.length_eq, length_dl] at hsum
    exact ⟨nDist c below, hsum⟩

theorem flatMap_eq_of_forall₂ {α β γ : Type*} {R : α → β → Prop} {f : α → List γ}
    {g : β → List γ} (hfg : ∀ x y, R x y → f x = g y) {xs : List α} {ys : List β}
    (h : List.Forall₂ R xs ys) : xs.flatMap f = ys.flatMap g := by
  induction h with
  | nil => rfl
  | cons hxy _ ih => rw [List.flatMap_cons, List.flatMap_cons, hfg _ _ hxy, ih]

/-- What an aggregator expects, when it is known what the daemons below expect. -/
theorem getExpectedDir_succ {c : Config} {below : ℕ} {dir : String → List String}
    (hdir : ∀ name ∈ dl c below, getExpectedDir c below name = .ok (dir name)) {name : String}
    {i : ℕ} (hi : idx c (below + 1) name = .ok i) :
    getExpectedDir c (below + 1) name =
      .ok ((share (dl c below) (nDist c below) i).flatMap dir) := by
  have hdirs : (share (dl c below) (nDist c below) i).mapM (getExpectedDir c below) =
      .ok ((share (dl c below) (nDist c below) i).map dir) := by
    refine mapM_eq_ok_iff.mpr (List.forall₂_map_right_iff.mpr (List.forall₂_same.mpr fun x hx => ?_))
    exact hdir x (List.mem_of_mem_drop (List.mem_of_mem_take hx))
  rw [getExpectedDir, getPrdcr_eq hi, ok_bind, hdirs, ok_bind, List.flatMap_def]
  rfl

/-- **The sets of a level.**  Where the levels divide evenly, the daemons of a level expect the
sets of all samplers, in order. -/
theorem Even.exists_expected {c : Config} (h : Even c) : ∀ level, ∃ dir : String → List String,
    (∀ name ∈ dl c level, getExpectedDir c level name = .ok (dir name)) ∧
      (dl c level).flatMap dir = c.samp.names.flatMap (sets c)
  | 0 => by
    refine ⟨sets c, fun name hname => ?_, rfl⟩
    obtain ⟨i, hi⟩ := List.getElem?_of_mem hname
    rw [getExpectedDir, idx_eq (h.nodup 0) hi]
    rfl
  | below + 1 => by
    obtain ⟨dir, hdir, hflat⟩ := h.exists_expected below
    have hidx := h.forall₂_idx (below + 1)
    refine ⟨fun name => ((getExpectedDir c (below + 1) name).toOption).getD [],
      fun name hname => ?_, ?_⟩
    · obtain ⟨j, hj⟩ := List.getElem?_of_mem hname
      obtain ⟨i, -, hi⟩ := exists_right_of_forall₂ hidx hj
      dsimp only
      rw [getExpectedDir_succ hdir hi]
      rfl
    · have hshares := flatMap_eq_of_forall₂
        (f := fun name => ((getExpectedDir c (below + 1) name).toOption).getD [])
        (g := fun i => (share (dl c below) (nDist c below) i).flatMap dir)
        (fun name i hi => by rw [getExpectedDir_succ hdir hi]; rfl) hidx
      rw [hshares, ← List.flatMap_assoc, h.flatMap_share, hflat]

theorem nodup_flatMap_sets {c : Config} (h : c.samp.names.Nodup) :
    (c.samp.names.flatMap (sets c)).Nodup := by
  refine List.nodup_flatMap.mpr ⟨fun name _ => ?_, h.imp fun {name name'} hne set hset hset' => ?_⟩
  · exact List.nodup_range.map fun _ _ heq => (setName_inj heq).2
  · obtain ⟨i, -, rfl⟩ := List.mem_map.mp hset
    obtain ⟨j, -, hj⟩ := List.mem_map.mp hset'
    exact hne (setName_inj hj).1.symm

/-- **The aggregator at the top** expects every set once. -/
theorem Even.expectsAll {c : Config} (h : Even c) : ExpectsAll c := by
  obtain ⟨dir, hdir, hflat⟩ := h.exists_expected 3
  refine ⟨dir (daemonName c.l3Host c.l3BasePort), hdir _ (List.mem_singleton_self _), ?_⟩
  have htop : dir (daemonName c.l3Host c.l3BasePort) = c.samp.names.flatMap (sets c) := by
    rw [← hflat, show dl c 3 = [daemonName c.l3Host c.l3BasePort] from rfl,
      List.flatMap_singleton]
  rw [htop]
  refine ⟨fun name hname i hi => List.count_eq_one_of_mem (nodup_flatMap_sets (h.nodup 0)) ?_, ?_⟩
  · exact List.mem_flatMap.mpr ⟨name, hname, List.mem_map_of_mem (List.mem_range.mpr hi)⟩
  · rw [List.length_flatMap]
    simp only [sets, List.length_map, List.length_range, List.map_const', List.sum_replicate,
      smul_eq_mul, Level.length_names]

/-- **When everything is aggregated.**  Each daemon is a producer of exactly one aggregator, and
every set gets to the top once, exactly if the number of L1 aggregators divides the number of
samplers, the number of L2 aggregators that of L1 aggregators, and no host is listed twice. -/
theorem aggregated_iff (c : Config) : Aggregated c ↔ Even c := by
  refine ⟨fun h => ?_, fun h => ⟨fun below _ => h.assigned below, h.expectsAll⟩⟩
  obtain ⟨hsamp, hdvd⟩ := nodup_and_dvd_of_assigned (h.assigned 0 (by decide))
  obtain ⟨hl1, hdvd'⟩ := nodup_and_dvd_of_assigned (h.assigned 1 (by decide))
  obtain ⟨hl2, -⟩ := nodup_and_dvd_of_assigned (h.assigned 2 (by decide))
  exact ⟨(Level.nodup_names_iff (ndl_pos c 0)).mp hsamp,
    (Level.nodup_names_iff (ndl_pos c 1)).mp hl1, (Level.nodup_names_iff (ndl_pos c 2)).mp hl2,
    hdvd, hdvd'⟩

/-- Three samplers for two aggregators. -/
def threeForTwo : Config where
  samp := ⟨["s1", "s2", "s3"], 1, 20000⟩
  l1 := ⟨["a1", "a2"], 1, 21000⟩
  l2 := ⟨["b1"], 1, 22000⟩
  l3Host := "c1"
  l3BasePort := 23000
  setsPerSamp := 1
  l1_le := by decide
  l2_le := by decide
  l2_pos := by decide

/-- The third sampler is a producer of no aggregator. -/
theorem not_aggregated_threeForTwo : ¬ Aggregated threeForTwo := by
  intro h
  obtain ⟨-, hdvd⟩ := nodup_and_dvd_of_assigned (h.assigned 0 (by decide))
  exact absurd hdvd (by decide)

end Scalability
end LdmsTest
