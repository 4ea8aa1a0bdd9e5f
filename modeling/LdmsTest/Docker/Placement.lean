import LdmsTest.Python.Value
import Mathlib

/-!
# Where the containers go

`DockerCluster.__create` gives every Docker client a number of containers: first it fills the
clients up to the largest load, then it spreads what is left evenly.  `cont_build` takes the nodes
in order, as many for a client as it got.

* `equalize`, `allocate`, `contBuild`: the parts of the source.
* `Levelled`: what the loads are like afterwards.
* `place_correct`: every node is placed once, and the loads are levelled.
-/

namespace LdmsTest
namespace Docker

/-- An entry of the allocation table: `[current_load, alloc, client]`. -/
structure Ent (C : Type) where
  load : ℤ
  alloc : ℤ
  client : C
  deriving DecidableEq

namespace Placement

variable {C N : Type}

/-! ## The table -/

/-- The table, sorted by load. -/
def table (clients : List (ℤ × C)) : List (Ent C) :=
  (clients.map fun cl => ⟨cl.1, 0, cl.2⟩).insertionSort fun e f => e.load ≤ f.load

/-- The loop that fills the diff from `max_load`, with `_n`: the table, and what is left. -/
def equalize (maxLoad n : ℤ) : List (Ent C) → List (Ent C) × ℤ
  | [] => ([], n)
  | ent :: tbl =>
    let a := maxLoad - ent.load
    -- reaching max_load
    if a = 0 then (ent :: tbl, n)
    else
      let a := if a < n then a else n
      -- all containers allocated
      if n - a = 0 then ({ ent with alloc := a } :: tbl, n - a)
      else
        let r := equalize maxLoad (n - a) tbl
        ({ ent with alloc := a } :: r.1, r.2)

/-- The loop that spreads the load evenly. -/
def spread (a : ℤ) (tbl : List (Ent C)) : List (Ent C) :=
  tbl.map fun ent => { ent with alloc := ent.alloc + a }

/-- The loop over the remainders: one more for each of the first `n` entries. -/
def addRemainders : ℕ → List (Ent C) → List (Ent C)
  | n + 1, ent :: tbl => { ent with alloc := ent.alloc + 1 } :: addRemainders n tbl
  | _, tbl => tbl

/-- The allocation of `n` containers. -/
def allocate (clients : List (ℤ × C)) (n : ℤ) : Except PyError (List (Ent C)) :=
  let tbl := table clients
  match tbl.getLast? with
  | none => throw ⟨.indexError, "list index out of range"⟩
  | some last =>
    let r := equalize last.load n tbl
    let cn : ℤ := tbl.length
    pure (addRemainders (r.2 % cn).toNat (spread (r.2 / cn) r.1))

/-- `for i in range(0, n)`: the nodes from `idx` on for a client, and `idx` afterwards. -/
def takeNodes (nodes : List N) (cl : C) : ℕ → ℕ → Except PyError (List (C × N) × ℕ)
  | 0, idx => pure ([], idx)
  | n + 1, idx =>
    match nodes[idx]? with
    | none => throw ⟨.indexError, "list index out of range"⟩
    | some node => do
      let (build, idx) ← takeNodes nodes cl n (idx + 1)
      pure ((cl, node) :: build, idx)

/-- `cont_build`: the clients with the nodes of their containers. -/
def contBuild (nodes : List N) : List (Ent C) → ℕ → Except PyError (List (C × N))
  | [], _ => pure []
  | ent :: tbl, idx => do
    let (build, idx) ← takeNodes nodes ent.client ent.alloc.toNat idx
    let rest ← contBuild nodes tbl idx
    pure (build ++ rest)

/-- The table and `cont_build` of `__create`. -/
def place (clients : List (ℤ × C)) (nodes : List N) :
    Except PyError (List (Ent C) × List (C × N)) := do
  let tbl ← allocate clients nodes.length
  let build ← contBuild nodes tbl 0
  pure (tbl, build)

/-! ## Levelled loads -/

/-- The load of a client afterwards. -/
def total (ent : Ent C) : ℤ :=
  ent.load + ent.alloc

/-- No load is above the largest load before, or all of them have reached it and differ by at most
one. -/
def Levelled (maxLoad : ℤ) (loads : List ℤ) : Prop :=
  (∀ t ∈ loads, t ≤ maxLoad) ∨
    (∀ t ∈ loads, maxLoad ≤ t) ∧ ∀ t ∈ loads, ∀ u ∈ loads, t ≤ u + 1

/-- What an entry is about. -/
def subject (ent : Ent C) : ℤ × C :=
  (ent.load, ent.client)

/-- What the first loop leaves: everyone filled up to `maxLoad`, unless nothing is left. -/
structure Equalized (maxLoad n : ℤ) (tbl : List (Ent C)) (r : List (Ent C) × ℤ) : Prop where
  subjects : r.1.map subject = tbl.map subject
  alloc_nonneg : ∀ ent ∈ r.1, 0 ≤ ent.alloc
  sum : (r.1.map Ent.alloc).sum + r.2 = n
  left_nonneg : 0 ≤ r.2
  total_le : ∀ ent ∈ r.1, total ent ≤ maxLoad
  full : 0 < r.2 → ∀ ent ∈ r.1, total ent = maxLoad

theorem equalized_of_max {maxLoad n : ℤ} (hn : 0 ≤ n) {tbl : List (Ent C)}
    (h0 : ∀ ent ∈ tbl, ent.alloc = 0) (hle : ∀ ent ∈ tbl, ent.load ≤ maxLoad)
    (hfull : 0 < n → ∀ ent ∈ tbl, maxLoad ≤ ent.load) : Equalized maxLoad n tbl (tbl, n) where
  subjects := rfl
  alloc_nonneg ent hent := (h0 ent hent).ge
  sum := by
    have hsum : (tbl.map Ent.alloc).sum = 0 :=
      List.sum_eq_zero (List.forall_mem_map.mpr h0)
    rw [hsum, zero_add]
  left_nonneg := hn
  total_le ent hent := by
    have := h0 ent hent
    have := hle ent hent
    unfold total
    omega
  full hpos ent hent := by
    have := h0 ent hent
    have := hle ent hent
    have := hfull hpos ent hent
    unfold total
    omega

theorem Equalized.cons {maxLoad n a : ℤ} {ent : Ent C} {tbl : List (Ent C)}
    {r : List (Ent C) × ℤ} (h : Equalized maxLoad (n - a) tbl r) (ha : 0 ≤ a)
    (hle : ent.load + a ≤ maxLoad) (hfull : 0 < r.2 → ent.load + a = maxLoad) :
    Equalized maxLoad n (ent :: tbl) ({ ent with alloc := a } :: r.1, r.2) where
  subjects := by
    rw [List.map_cons, List.map_cons, h.subjects]
    rfl
  alloc_nonneg := List.forall_mem_cons.mpr ⟨ha, h.alloc_nonneg⟩
  sum := by
    have := h.sum
    rw [List.map_cons, List.sum_cons]
    show a + _ + r.2 = n
    omega
  left_nonneg := h.left_nonneg
  total_le := List.forall_mem_cons.mpr ⟨hle, h.total_le⟩
  full hpos := List.forall_mem_cons.mpr ⟨hfull hpos, h.full hpos⟩

/-- **The first loop** fills the clients up to the largest load. -/
theorem equalize_spec {maxLoad n : ℤ} (hn : 0 ≤ n) {tbl : List (Ent C)}
    (hsorted : tbl.Pairwise fun e f => e.load ≤ f.load) (h0 : ∀ ent ∈ tbl, ent.alloc = 0)
    (hle : ∀ ent ∈ tbl, ent.load ≤ maxLoad) :
    Equalized maxLoad n tbl (equalize maxLoad n tbl) := by
  induction tbl generalizing n with
  | nil => exact equalized_of_max hn h0 hle (by simp)
  | cons ent tbl ih =>
    rw [List.pairwise_cons] at hsorted
    obtain ⟨hent0, h0'⟩ := List.forall_mem_cons.mp h0
    obtain ⟨hentle, hle'⟩ := List.forall_mem_cons.mp hle
    rw [equalize]
    simp only
    split
    · next hmax =>
      refine equalized_of_max hn h0 hle fun _ => List.forall_mem_cons.mpr ⟨by omega, ?_⟩
      intro f hf
      have := hsorted.1 f hf
      omega
    · next hlt =>
      have ha : 0 ≤ (if maxLoad - ent.load < n then maxLoad - ent.load else n) ∧
          (if maxLoad - ent.load < n then maxLoad - ent.load else n) ≤ n ∧
          ent.load + (if maxLoad - ent.load < n then maxLoad - ent.load else n) ≤ maxLoad ∧
          ((if maxLoad - ent.load < n then maxLoad - ent.load else n) ≠ n →
            ent.load + (if maxLoad - ent.load < n then maxLoad - ent.load else n) = maxLoad) := by
        split <;> omega
      generalize (if maxLoad - ent.load < n then maxLoad - ent.load else n) = a at ha
      obtain ⟨ha0, han, hale, haeq⟩ := ha
      split
      · next hleft =>
        have hrest : Equalized maxLoad (n - a) tbl (tbl, n - a) :=
          equalized_of_max (by omega) h0' hle' (by omega)
        exact hrest.cons ha0 hale (by simp only; omega)
      · next hleft =>
        exact (ih (by omega) hsorted.2 h0' hle').cons ha0 hale fun _ => haeq (by omega)

/-! ## The even spread -/

theorem sum_alloc_spread (a : ℤ) (tbl : List (Ent C)) :
    ((spread a tbl).map Ent.alloc).sum = (tbl.map Ent.alloc).sum + a * tbl.length := by
  induction tbl with
  | nil => simp [spread]
  | cons ent tbl ih =>
    simp only [spread, List.map_cons, List.sum_cons, List.length_cons] at ih ⊢
    push_cast
    linarith

theorem sum_alloc_addRemainders {n : ℕ} {tbl : List (Ent C)} (hn : n ≤ tbl.length) :
    ((addRemainders n tbl).map Ent.alloc).sum = (tbl.map Ent.alloc).sum + n := by
  induction n generalizing tbl with
  | zero => simp [addRemainders]
  | succ n ih =>
    rcases tbl with _ | ⟨ent, tbl⟩
    · simp at hn
    · simp only [addRemainders, List.map_cons, List.sum_cons]
      rw [ih (by simpa using hn)]
      push_cast
      omega

theorem map_subject_spread (a : ℤ) (tbl : List (Ent C)) :
    (spread a tbl).map subject = tbl.map subject := by
  rw [spread, List.map_map]
  rfl

theorem map_subject_addRemainders (n : ℕ) (tbl : List (Ent C)) :
    (addRemainders n tbl).map subject = tbl.map subject := by
  induction n generalizing tbl with
  | zero => rfl
  | succ n ih =>
    rcases tbl with _ | ⟨ent, tbl⟩
    · rfl
    · rw [addRemainders, List.map_cons, List.map_cons, ih]
      rfl

/-- The remainders add one, or nothing. -/
theorem exists_of_mem_addRemainders {n : ℕ} {tbl : List (Ent C)} {ent : Ent C}
    (h : ent ∈ addRemainders n tbl) :
    ∃ e ∈ tbl, (ent.load = e.load ∧ ent.alloc = e.alloc) ∨
      0 < n ∧ ent.load = e.load ∧ ent.alloc = e.alloc + 1 := by
  induction n generalizing tbl with
  | zero => exact ⟨ent, h, Or.inl ⟨rfl, rfl⟩⟩
  | succ n ih =>
    rcases tbl with _ | ⟨e, tbl⟩
    · simp [addRemainders] at h
    · rcases List.mem_cons.mp h with rfl | h
      · exact ⟨e, List.mem_cons_self, Or.inr ⟨Nat.succ_pos n, rfl, rfl⟩⟩
      · obtain ⟨f, hf, heq⟩ := ih h
        exact ⟨f, List.mem_cons_of_mem _ hf, heq.imp_right fun h => ⟨Nat.succ_pos n, h.2⟩⟩

/-! ## The allocation -/

/-- What the allocation gives. -/
structure Allocated (clients : List (ℤ × C)) (n : ℤ) (tbl : List (Ent C)) : Prop where
  subjects : (tbl.map subject).Perm clients
  alloc_nonneg : ∀ ent ∈ tbl, 0 ≤ ent.alloc
  sum : (tbl.map Ent.alloc).sum = n
  levelled : ∀ maxLoad, (∃ cl ∈ clients, cl.1 = maxLoad) → (∀ cl ∈ clients, cl.1 ≤ maxLoad) →
    Levelled maxLoad (tbl.map total)

theorem map_subject_table (clients : List (ℤ × C)) :
    ((table clients).map subject).Perm clients := by
  have hperm := List.perm_insertionSort (fun e f : Ent C => e.load ≤ f.load)
    (clients.map fun cl => ⟨cl.1, 0, cl.2⟩)
  refine (hperm.map subject).trans ?_
  rw [List.map_map]
  exact List.Perm.of_eq (List.map_id _)

theorem pairwise_table (clients : List (ℤ × C)) :
    (table clients).Pairwise fun e f => e.load ≤ f.load := by
  have : Std.Total fun e f : Ent C => e.load ≤ f.load := ⟨fun e f => le_total e.load f.load⟩
  have : IsTrans (Ent C) fun e f => e.load ≤ f.load := ⟨fun e f g => le_trans⟩
  exact List.pairwise_insertionSort _ _

/-- The second phase: what is left of the first one, spread over the table. -/
theorem exists_of_mem_spread {a : ℤ} {n : ℕ} {tbl : List (Ent C)} {ent : Ent C}
    (h : ent ∈ addRemainders n (spread a tbl)) :
    ∃ e ∈ tbl, ent.load = e.load ∧
      (ent.alloc = e.alloc + a ∨ 0 < n ∧ ent.alloc = e.alloc + a + 1) := by
  obtain ⟨f, hf, heq⟩ := exists_of_mem_addRemainders h
  obtain ⟨e, he, rfl⟩ := List.mem_map.mp hf
  refine ⟨e, he, ?_⟩
  rcases heq with ⟨hload, halloc⟩ | ⟨hn, hload, halloc⟩
  · exact ⟨hload, Or.inl halloc⟩
  · exact ⟨hload, Or.inr ⟨hn, halloc⟩⟩

theorem levelled_of_equalized {maxLoad n : ℤ} {tbl : List (Ent C)} {r : List (Ent C) × ℤ}
    (h : Equalized maxLoad n tbl r) (m : ℤ) (hm : 0 < m) :
    Levelled maxLoad ((addRemainders (r.2 % m).toNat (spread (r.2 / m) r.1)).map total) := by
  have hq : 0 ≤ r.2 / m := Int.ediv_nonneg h.left_nonneg hm.le
  rcases h.left_nonneg.eq_or_lt with hleft | hleft
  · -- nothing was left
    rw [← hleft]
    simp only [Int.zero_emod, Int.zero_ediv, Int.toNat_zero]
    refine Or.inl (List.forall_mem_map.mpr fun ent hent => ?_)
    obtain ⟨e, he, hload, halloc⟩ := exists_of_mem_spread hent
    have := h.total_le e he
    unfold total at this ⊢
    omega
  · -- everyone has reached the largest load
    have htotal : ∀ ent ∈ addRemainders (r.2 % m).toNat (spread (r.2 / m) r.1),
        total ent = maxLoad + r.2 / m ∨ total ent = maxLoad + r.2 / m + 1 := by
      intro ent hent
      obtain ⟨e, he, hload, halloc⟩ := exists_of_mem_spread hent
      have := h.full hleft e he
      unfold total at this ⊢
      omega
    refine Or.inr ⟨List.forall_mem_map.mpr fun ent hent => ?_, List.forall_mem_map.mpr
      fun ent hent => List.forall_mem_map.mpr fun ent' hent' => ?_⟩
    · have := htotal ent hent
      omega
    · have := htotal ent hent
      have := htotal ent' hent'
      omega

/-- **The allocation** is defined, adds up and levels the loads. -/
theorem exists_allocate {clients : List (ℤ × C)} (hclients : clients ≠ []) {n : ℤ} (hn : 0 ≤ n) :
    ∃ tbl, allocate clients n = .ok tbl ∧ Allocated clients n tbl := by
  have hperm := map_subject_table clients
  have hsorted := pairwise_table clients
  have hne : table clients ≠ [] := by
    intro hnil
    rw [hnil] at hperm
    exact hclients hperm.nil_eq.symm
  have h0 : ∀ ent ∈ table clients, ent.alloc = 0 := by
    intro ent hent
    obtain ⟨cl, -, rfl⟩ := List.mem_map.mp ((List.perm_insertionSort _ _).mem_iff.mp hent)
    rfl
  have hmax : ∀ ent ∈ table clients, ent.load ≤ ((table clients).getLast hne).load := by
    have : Std.Refl fun e f : Ent C => e.load ≤ f.load := ⟨fun e => le_refl e.load⟩
    exact fun ent hent => hsorted.rel_getLast hent
  have hspec := equalize_spec hn hsorted h0 hmax
  generalize hr : equalize ((table clients).getLast hne).load n (table clients) = r at hspec
  have hlength : r.1.length = (table clients).length := by
    have := congrArg List.length hspec.subjects
    simpa using this
  have hpos : (0 : ℤ) < (table clients).length := by
    have := List.length_pos_of_ne_nil hne
    omega
  refine ⟨addRemainders (r.2 % (table clients).length).toNat
    (spread (r.2 / (table clients).length) r.1), ?_, ?_, ?_, ?_, ?_⟩
  · rw [allocate]
    simp only [List.getLast?_eq_some_getLast hne, hr]
    rfl
  · rw [map_subject_addRemainders, map_subject_spread, hspec.subjects]
    exact hperm
  · intro ent hent
    obtain ⟨e, he, -, halloc⟩ := exists_of_mem_spread hent
    have := hspec.alloc_nonneg e he
    have := Int.ediv_nonneg hspec.left_nonneg hpos.le
    omega
  · have hmod := Int.emod_nonneg r.2 hpos.ne'
    have hlt := Int.emod_lt_of_pos r.2 hpos
    have hsum := hspec.sum
    have hdiv := Int.ediv_mul_add_emod r.2 (table clients).length
    rw [sum_alloc_addRemainders (by simp only [spread, List.length_map, hlength]; omega),
      sum_alloc_spread, hlength]
    omega
  · intro maxLoad hin hle
    have heq : ((table clients).getLast hne).load = maxLoad := by
      refine le_antisymm ?_ ?_
      · exact hle _ (hperm.mem_iff.mp (List.mem_map_of_mem (List.getLast_mem hne)))
      · obtain ⟨cl, hcl, rfl⟩ := hin
        obtain ⟨ent, hent, rfl⟩ := List.mem_map.mp (hperm.mem_iff.mpr hcl)
        exact hmax ent hent
    rw [heq] at hspec
    exact levelled_of_equalized hspec _ hpos

/-! ## `cont_build` -/

theorem takeNodes_eq {nodes : List N} (cl : C) {n idx : ℕ} (h : idx + n ≤ nodes.length) :
    takeNodes nodes cl n idx = .ok (((nodes.drop idx).take n).map (cl, ·), idx + n) := by
  induction n generalizing idx with
  | zero => rfl
  | succ n ih =>
    have hlt : idx < nodes.length := by omega
    rw [takeNodes, List.getElem?_eq_getElem hlt, List.drop_eq_getElem_cons hlt]
    simp only
    rw [ih (by omega)]
    show Except.ok _ = _
    rw [List.take_succ_cons, List.map_cons, Nat.add_assoc, Nat.add_comm 1 n]

/-- The clients of the containers, in order. -/
def slots (tbl : List (Ent C)) : List C :=
  tbl.flatMap fun ent => List.replicate ent.alloc.toNat ent.client

/-- **`cont_build` takes the nodes in order**, as many for a client as it got. -/
theorem exists_contBuild {nodes : List N} {tbl : List (Ent C)} {idx : ℕ}
    (halloc : ∀ ent ∈ tbl, 0 ≤ ent.alloc) (hsum : idx + (tbl.map Ent.alloc).sum = nodes.length) :
    ∃ build, contBuild nodes tbl idx = .ok build ∧ build.map Prod.snd = nodes.drop idx ∧
      build.map Prod.fst = slots tbl := by
  induction tbl generalizing idx with
  | nil =>
    have hidx : nodes.length = idx := by simpa using hsum.symm
    exact ⟨[], rfl, by rw [← hidx, List.drop_length, List.map_nil], rfl⟩
  | cons ent tbl ih =>
    obtain ⟨hent, halloc⟩ := List.forall_mem_cons.mp halloc
    rw [List.map_cons, List.sum_cons] at hsum
    have hrest : 0 ≤ (tbl.map Ent.alloc).sum :=
      List.sum_nonneg (List.forall_mem_map.mpr halloc)
    have hcast : (ent.alloc.toNat : ℤ) = ent.alloc := Int.toNat_of_nonneg hent
    have hsum' : ((idx + ent.alloc.toNat : ℕ) : ℤ) + (tbl.map Ent.alloc).sum = nodes.length := by
      push_cast
      omega
    obtain ⟨rest, hbuild, hsnd, hfst⟩ := ih halloc hsum'
    have hroom : idx + ent.alloc.toNat ≤ nodes.length := by omega
    have htake := takeNodes_eq ent.client hroom
    refine ⟨((nodes.drop idx).take ent.alloc.toNat).map (ent.client, ·) ++ rest, ?_, ?_, ?_⟩
    · rw [contBuild, htake]
      show (contBuild nodes tbl (idx + ent.alloc.toNat) >>= _) = _
      rw [hbuild]
      rfl
    · rw [List.map_append, hsnd, List.map_map, ← List.drop_drop]
      exact (congrArg (· ++ _) (List.map_id _)).trans (List.take_append_drop _ _)
    · have hlen : ((nodes.drop idx).take ent.alloc.toNat).length = ent.alloc.toNat := by
        rw [List.length_take, List.length_drop]
        omega
      rw [List.map_append, hfst, List.map_map]
      show _ ++ slots tbl = List.replicate ent.alloc.toNat ent.client ++ slots tbl
      refine congrArg (· ++ slots tbl) ?_
      exact List.map_const'.trans (by rw [hlen])

/-- **Every node is placed once**, in order, and the loads are levelled. -/
theorem place_correct {clients : List (ℤ × C)} (hclients : clients ≠ []) (nodes : List N) :
    ∃ tbl build, place clients nodes = .ok (tbl, build) ∧ Allocated clients nodes.length tbl ∧
      build.map Prod.snd = nodes ∧ build.map Prod.fst = slots tbl := by
  obtain ⟨tbl, htbl, halloc⟩ := exists_allocate hclients (Int.natCast_nonneg nodes.length)
  have hsum : ((0 : ℕ) : ℤ) + (tbl.map Ent.alloc).sum = nodes.length := by
    rw [halloc.sum]
    simp
  obtain ⟨build, hbuild, hsnd, hfst⟩ := exists_contBuild halloc.alloc_nonneg hsum
  refine ⟨tbl, build, ?_, halloc, hsnd, hfst⟩
  rw [place, htbl]
  show (contBuild nodes tbl 0 >>= _) = _
  rw [hbuild]
  rfl

theorem place_threeClients :
    ∃ tbl build, place [((2 : ℤ), "a"), (0, "b"), (1, "c")] ["n1", "n2", "n3", "n4"] =
        .ok (tbl, build) ∧
      Allocated [((2 : ℤ), "a"), (0, "b"), (1, "c")] 4 tbl ∧
      build.map Prod.snd = ["n1", "n2", "n3", "n4"] ∧ build.map Prod.fst = slots tbl :=
  place_correct (by simp) ["n1", "n2", "n3", "n4"]

end Placement
end Docker
end LdmsTest
