import Mathlib.Algebra.BigOperators.Group.List.Basic
import Mathlib.Data.List.Nodup
import Mathlib.Data.List.Lookmap
import Mathlib.Data.List.Forall2

/-!
# Insertion-ordered dictionaries

A dictionary is the list of its items in insertion order, with one item for each key.
Assigning to a key that is present keeps its place; assigning to a new key appends; popping a
key closes the gap.  A dictionary is read through `Dict.get?` only, so two dictionaries with
the same answers are interchangeable for a reader, and what distinguishes them is the order in
which a loop over the items meets them.

The lemmas say what each operation does to `get?` and that it keeps the keys distinct.
-/

namespace LdmsTest

/-- The items of a dictionary, in insertion order. -/
abbrev Dict (κ β : Type*) := List (κ × β)

namespace Dict

variable {κ β γ : Type*} [DecidableEq κ]

/-- `d.get(k)`: the value of the item with key `k`. -/
def get? (d : Dict κ β) (k : κ) : Option β :=
  match d with
  | [] => none
  | (k', v) :: d => if k' = k then some v else get? d k

/-- `d[k] = v`: overwrite in place, or append. -/
def set (d : Dict κ β) (k : κ) (v : β) : Dict κ β :=
  match d with
  | [] => [(k, v)]
  | (k', v') :: d => if k' = k then (k', v) :: d else (k', v') :: set d k v

/-- `d.update(e)`: assign the items of `e` to `d`, in order. -/
def update (d e : Dict κ β) : Dict κ β :=
  e.foldl (fun d p => set d p.1 p.2) d

/-- `d.pop(k, None)`: remove the item with key `k`. -/
def pop (d : Dict κ β) (k : κ) : Dict κ β :=
  d.filter fun p => p.1 ≠ k

/-- `d.setdefault(k, v)`, as the dictionary afterwards. -/
def setdefault (d : Dict κ β) (k : κ) (v : β) : Dict κ β :=
  if (get? d k).isSome then d else set d k v

/-- The keys, in insertion order. -/
def keys (d : Dict κ β) : List κ :=
  d.map Prod.fst

omit [DecidableEq κ] in
@[simp] theorem keys_nil : keys ([] : Dict κ β) = [] := rfl

omit [DecidableEq κ] in
@[simp] theorem keys_cons (p : κ × β) (d : Dict κ β) : keys (p :: d) = p.1 :: keys d := rfl

/-! ## Reading -/

@[simp] theorem get?_nil (k : κ) : get? ([] : Dict κ β) k = none := rfl

theorem get?_cons (p : κ × β) (d : Dict κ β) (k : κ) :
    get? (p :: d) k = if p.1 = k then some p.2 else get? d k := rfl

@[simp] theorem get?_cons_self (k : κ) (v : β) (d : Dict κ β) :
    get? ((k, v) :: d) k = some v := by
  simp [get?_cons]

theorem mem_of_get? {d : Dict κ β} {k : κ} {v : β} (h : get? d k = some v) : (k, v) ∈ d := by
  induction d with
  | nil => simp at h
  | cons p d ih =>
    obtain ⟨k', v'⟩ := p
    rw [get?_cons] at h
    split at h
    · next hk =>
      obtain rfl : k' = k := hk
      obtain rfl : v' = v := Option.some_inj.mp h
      exact List.mem_cons_self
    · exact List.mem_cons_of_mem _ (ih h)

theorem mem_keys_of_get? {d : Dict κ β} {k : κ} {v : β} (h : get? d k = some v) :
    k ∈ keys d :=
  List.mem_map.mpr ⟨_, mem_of_get? h, rfl⟩

theorem get?_eq_none_iff {d : Dict κ β} {k : κ} : get? d k = none ↔ k ∉ keys d := by
  induction d with
  | nil => simp [keys]
  | cons p d ih =>
    rw [get?_cons, keys_cons, List.mem_cons, not_or]
    split
    · next hk => simp [hk]
    · next hk =>
      rw [ih]
      exact ⟨fun h => ⟨fun h' => hk h'.symm, h⟩, fun h => h.2⟩

theorem isSome_get?_iff {d : Dict κ β} {k : κ} : (get? d k).isSome ↔ k ∈ keys d := by
  rw [← Option.ne_none_iff_isSome, Ne, get?_eq_none_iff, not_not]

/-- With distinct keys, every item is found under its key. -/
theorem get?_of_mem {d : Dict κ β} (hd : (keys d).Nodup) {k : κ} {v : β} (h : (k, v) ∈ d) :
    get? d k = some v := by
  induction d with
  | nil => simp at h
  | cons p d ih =>
    rw [keys_cons, List.nodup_cons] at hd
    rw [get?_cons]
    rcases List.mem_cons.mp h with rfl | h
    · simp
    · have hne : p.1 ≠ k := by
        rintro rfl
        exact hd.1 (List.mem_map.mpr ⟨_, h, rfl⟩)
      rw [if_neg hne]
      exact ih hd.2 h

theorem get?_eq_some_iff {d : Dict κ β} (hd : (keys d).Nodup) {k : κ} {v : β} :
    get? d k = some v ↔ (k, v) ∈ d :=
  ⟨mem_of_get?, get?_of_mem hd⟩

/-- Keeping the items whose values pass a test. -/
theorem get?_filter_val {d : Dict κ β} (hd : (keys d).Nodup) (p : β → Bool) (k : κ) :
    get? (d.filter fun q => p q.2) k = (get? d k).filter p := by
  induction d with
  | nil => rfl
  | cons q d ih =>
    obtain ⟨k', v'⟩ := q
    rw [keys_cons, List.nodup_cons] at hd
    have ih := ih hd.2
    by_cases hk : k' = k
    · obtain rfl := hk
      cases hp : p v' with
      | true => simp [hp, get?_cons, Option.filter]
      | false =>
        have hnone : get? d k' = none := get?_eq_none_iff.mpr hd.1
        rw [hnone] at ih
        simpa [hp, get?_cons, Option.filter] using ih
    · cases hp : p v' with
      | true => simpa [hp, get?_cons, hk] using ih
      | false => simpa [hp, get?_cons, hk] using ih

/-- Changing the values, key by key. -/
theorem get?_map_val (d : Dict κ β) (f : κ → β → γ) (k : κ) :
    get? (d.map fun p => (p.1, f p.1 p.2)) k = (get? d k).map (f k) := by
  induction d with
  | nil => rfl
  | cons p d ih =>
    rw [List.map_cons, get?_cons, get?_cons, ih]
    split
    · next hk => rw [← hk]; rfl
    · rfl

/-- The items of two dictionaries, in order, have the same keys, and values related by `R`. -/
def Paired (R : κ → β → γ → Prop) (d : Dict κ β) (e : Dict κ γ) : Prop :=
  List.Forall₂ (fun p q => q.1 = p.1 ∧ R p.1 p.2 q.2) d e

omit [DecidableEq κ] in
theorem Paired.keys_eq {R : κ → β → γ → Prop} {d : Dict κ β} {e : Dict κ γ} (h : Paired R d e) :
    keys e = keys d := by
  unfold Paired at h
  induction h with
  | nil => rfl
  | cons hpq _ ih => rw [keys_cons, keys_cons, hpq.1, ih]

theorem Paired.get? {R : κ → β → γ → Prop} {d : Dict κ β} {e : Dict κ γ} (h : Paired R d e)
    {k : κ} {v : β} (hv : get? d k = some v) : ∃ w, Dict.get? e k = some w ∧ R k v w := by
  unfold Paired at h
  induction h with
  | nil => simp at hv
  | cons hpq _ ih =>
    rw [get?_cons] at hv ⊢
    rw [hpq.1]
    split at hv
    · next hk =>
      rw [if_pos hk]
      exact ⟨_, rfl, Option.some_inj.mp hv ▸ hk ▸ hpq.2⟩
    · next hk =>
      rw [if_neg hk]
      exact ih hv

/-! ## Assigning -/

@[simp] theorem get?_set_self (d : Dict κ β) (k : κ) (v : β) :
    get? (set d k v) k = some v := by
  induction d with
  | nil => simp [set]
  | cons p d ih =>
    obtain ⟨k', v'⟩ := p
    rw [set]
    split
    · next hk => simp [get?_cons, hk]
    · next hk => simpa [get?_cons, hk] using ih

theorem get?_set_of_ne (d : Dict κ β) {k k₁ : κ} (v : β) (h : k ≠ k₁) :
    get? (set d k v) k₁ = get? d k₁ := by
  induction d with
  | nil => simp [set, get?_cons, h]
  | cons p d ih =>
    obtain ⟨k', v'⟩ := p
    rw [set]
    split
    · next hk =>
      have hne : k' ≠ k₁ := hk ▸ h
      simp [get?_cons, hne]
    · rw [get?_cons, get?_cons, ih]

theorem get?_set (d : Dict κ β) (k k₁ : κ) (v : β) :
    get? (set d k v) k₁ = if k = k₁ then some v else get? d k₁ := by
  split
  · next hk => rw [hk, get?_set_self]
  · next hk => exact get?_set_of_ne d v hk

theorem keys_set (d : Dict κ β) (k : κ) (v : β) :
    keys (set d k v) = if k ∈ keys d then keys d else keys d ++ [k] := by
  induction d with
  | nil => rfl
  | cons p d ih =>
    obtain ⟨k', v'⟩ := p
    rw [set]
    by_cases hk : k' = k
    · simp [hk]
    · have hk' : k ≠ k' := fun h => hk h.symm
      rw [if_neg hk, keys_cons, ih, keys_cons]
      by_cases hmem : k ∈ keys d
      · rw [if_pos hmem, if_pos (List.mem_cons_of_mem _ hmem)]
      · rw [if_neg hmem, if_neg (by simp [hk', hmem]), List.cons_append]

theorem nodup_keys_set {d : Dict κ β} (hd : (keys d).Nodup) (k : κ) (v : β) :
    (keys (set d k v)).Nodup := by
  rw [keys_set]
  split
  · exact hd
  · next hk =>
    exact List.nodup_append.mpr ⟨hd, List.nodup_singleton k, by
      rintro a ha b hb rfl
      exact hk (List.mem_singleton.mp hb ▸ ha)⟩

theorem set_of_notMem {d : Dict κ β} {k : κ} (hk : k ∉ keys d) (v : β) :
    set d k v = d ++ [(k, v)] := by
  induction d with
  | nil => rfl
  | cons p d ih =>
    rw [keys_cons, List.mem_cons, not_or] at hk
    rw [set, if_neg fun h => hk.1 h.symm, ih hk.2]
    rfl

@[simp] theorem update_nil (d : Dict κ β) : update d [] = d := rfl

/-- The last assignment to a key is the one that counts. -/
theorem set_set (d : Dict κ β) (k : κ) (v w : β) : set (set d k v) k w = set d k w := by
  induction d with
  | nil => simp [set]
  | cons p d ih =>
    obtain ⟨k', v'⟩ := p
    by_cases hk : k' = k
    · rw [set, if_pos hk, set, if_pos hk, set, if_pos hk]
    · rw [set, if_neg hk, set, if_neg hk, ih, set, if_neg hk]

theorem update_cons (d : Dict κ β) (p : κ × β) (e : Dict κ β) :
    update d (p :: e) = update (set d p.1 p.2) e := rfl

/-- Assigning new keys appends their items. -/
theorem update_of_nodup_append {d e : Dict κ β} (h : (keys (d ++ e)).Nodup) :
    update d e = d ++ e := by
  induction e generalizing d with
  | nil => exact (List.append_nil d).symm
  | cons p e ih =>
    have hsplit : d ++ p :: e = d ++ [p] ++ e := by rw [List.append_assoc, List.singleton_append]
    have hp : p.1 ∉ keys d := by
      have hdisj := h
      rw [keys, List.map_append, List.nodup_append] at hdisj
      exact fun hmem => hdisj.2.2 p.1 hmem p.1 List.mem_cons_self rfl
    rw [hsplit] at h
    rw [update_cons, set_of_notMem hp, ih h, hsplit]

/-- **Overlay.**  After `d.update(e)` the items of `e` win. -/
theorem get?_update {e : Dict κ β} (he : (keys e).Nodup) (d : Dict κ β) (k : κ) :
    get? (update d e) k = (get? e k).or (get? d k) := by
  induction e generalizing d with
  | nil => simp
  | cons p e ih =>
    rw [keys_cons, List.nodup_cons] at he
    rw [update_cons, ih he.2, get?_set, get?_cons]
    by_cases hk : p.1 = k
    · have hnone : get? e k = none := get?_eq_none_iff.mpr (hk ▸ he.1)
      rw [hnone, if_pos hk, if_pos hk, Option.none_or, Option.some_or]
    · rw [if_neg hk, if_neg hk]

theorem nodup_keys_update {d : Dict κ β} (hd : (keys d).Nodup) (e : Dict κ β) :
    (keys (update d e)).Nodup := by
  induction e generalizing d with
  | nil => exact hd
  | cons p e ih => exact ih (nodup_keys_set hd p.1 p.2)

theorem mem_keys_set {d : Dict κ β} {k k₁ : κ} {v : β} :
    k₁ ∈ keys (set d k v) ↔ k₁ = k ∨ k₁ ∈ keys d := by
  rw [← isSome_get?_iff, ← isSome_get?_iff, get?_set]
  split
  · next h => exact iff_of_true rfl (Or.inl h.symm)
  · next h => exact ⟨Or.inr, fun hk => hk.resolve_left (Ne.symm h)⟩

theorem mem_keys_update {d e : Dict κ β} {k : κ} :
    k ∈ keys (update d e) ↔ k ∈ keys d ∨ k ∈ keys e := by
  induction e generalizing d with
  | nil => exact ⟨Or.inl, fun h => h.resolve_right List.not_mem_nil⟩
  | cons p e ih =>
    rw [update_cons, ih, mem_keys_set, keys_cons, List.mem_cons]
    tauto

/-- A key that the overlay does not have keeps its value. -/
theorem get?_update_of_notMem {d e : Dict κ β} {k : κ} (h : k ∉ keys e) :
    get? (update d e) k = get? d k := by
  induction e generalizing d with
  | nil => rfl
  | cons p e ih =>
    rw [keys_cons, List.mem_cons, not_or] at h
    rw [update_cons, ih h.2, get?_set_of_ne _ _ (Ne.symm h.1)]

/-- Every item of an overlay comes from one of the two dictionaries. -/
theorem get?_update_elim {d e : Dict κ β} {k : κ} {v : β} (h : get? (update d e) k = some v) :
    (k, v) ∈ e ∨ get? d k = some v := by
  induction e generalizing d with
  | nil => exact Or.inr h
  | cons p e ih =>
    rcases ih h with h | h
    · exact Or.inl (List.mem_cons_of_mem _ h)
    · rw [get?_set] at h
      split at h
      · next hk =>
        left
        rw [← hk, ← Option.some_inj.mp h]
        exact List.mem_cons_self
      · exact Or.inr h

/-! ## Popping -/

theorem get?_pop (d : Dict κ β) (k k₁ : κ) :
    get? (pop d k) k₁ = if k = k₁ then none else get? d k₁ := by
  induction d with
  | nil => simp [pop]
  | cons p d ih =>
    by_cases hk : p.1 = k
    · have hdrop : pop (p :: d) k = pop d k := List.filter_cons_of_neg (by simp [hk])
      rw [hdrop, ih, get?_cons, hk]
      split <;> rfl
    · have hkeep : pop (p :: d) k = p :: pop d k := List.filter_cons_of_pos (by simp [hk])
      rw [hkeep, get?_cons, get?_cons, ih]
      split
      · next h1 => rw [if_neg (fun h => hk (h1.trans h.symm))]
      · rfl

omit [DecidableEq κ] in
theorem nodup_keys_filter {d : Dict κ β} (hd : (keys d).Nodup) (p : κ × β → Bool) :
    (keys (d.filter p)).Nodup :=
  hd.sublist (List.filter_sublist.map _)

theorem nodup_keys_pop {d : Dict κ β} (hd : (keys d).Nodup) (k : κ) :
    (keys (pop d k)).Nodup :=
  nodup_keys_filter hd _

theorem mem_of_mem_pop {d : Dict κ β} {k : κ} {p : κ × β} (h : p ∈ pop d k) : p ∈ d :=
  List.mem_of_mem_filter h

/-- Popping a key that was just appended gives the dictionary back, order included. -/
theorem pop_set_of_notMem {d : Dict κ β} {k : κ} (v : β) (h : k ∉ keys d) :
    pop (set d k v) k = d := by
  induction d with
  | nil => simp [pop, set]
  | cons p d ih =>
    obtain ⟨k', v'⟩ := p
    rw [keys_cons, List.mem_cons, not_or] at h
    have hk : k' ≠ k := fun h' => h.1 h'.symm
    rw [set, if_neg hk, pop, List.filter_cons_of_pos (by simpa using hk)]
    exact congrArg _ (ih h.2)

theorem pop_cons_self {d : Dict κ β} {k : κ} (v : β) (hk : k ∉ keys d) :
    pop ((k, v) :: d) k = d := by
  rw [pop, List.filter_cons_of_neg (by simp), List.filter_eq_self]
  intro p hp
  exact decide_eq_true fun h => hk (List.mem_map.mpr ⟨p, hp, h⟩)

/-- **The place of an item**, and what popping it and overwriting it leave. -/
theorem exists_split_of_get? {d : Dict κ β} (hd : (keys d).Nodup) {k : κ} {v : β}
    (h : get? d k = some v) : ∃ pre post, d = pre ++ (k, v) :: post ∧ pop d k = pre ++ post ∧
      ∀ w, set d k w = pre ++ (k, w) :: post := by
  induction d with
  | nil => cases h
  | cons p d ih =>
    obtain ⟨k', v'⟩ := p
    rw [keys_cons, List.nodup_cons] at hd
    rw [get?_cons] at h
    by_cases hk : k' = k
    · subst hk
      rw [if_pos rfl] at h
      cases h
      exact ⟨[], d, rfl, pop_cons_self _ hd.1, fun w => by simp [set]⟩
    · rw [if_neg hk] at h
      obtain ⟨pre, post, rfl, hpop, hset⟩ := ih hd.2 h
      refine ⟨(k', v') :: pre, post, rfl, ?_, fun w => by simp [set, hk, hset]⟩
      rw [List.cons_append, ← hpop, pop, pop, List.filter_cons_of_pos (by simpa using hk)]

theorem nodup_keys_setdefault {d : Dict κ β} (hd : (keys d).Nodup) (k : κ) (v : β) :
    (keys (setdefault d k v)).Nodup := by
  unfold setdefault
  split
  · exact hd
  · exact nodup_keys_set hd k v

theorem get?_setdefault (d : Dict κ β) (k k₁ : κ) (v : β) :
    get? (setdefault d k v) k₁ = if k = k₁ then some ((get? d k).getD v) else get? d k₁ := by
  rw [setdefault]
  by_cases hk : (get? d k).isSome
  · obtain ⟨w, hw⟩ := Option.isSome_iff_exists.mp hk
    rw [if_pos hk]
    split
    · next heq => rw [← heq, hw, Option.getD_some]
    · rfl
  · rw [if_neg hk, get?_set, Option.not_isSome_iff_eq_none.mp hk, Option.getD_none]

/-! ## Comparing dictionaries -/

/-- Dictionaries with the same keys in the same order, and the same answers, are equal. -/
theorem ext_of_keys {d e : Dict κ β} (hkeys : keys d = keys e) (hd : (keys d).Nodup)
    (h : ∀ k ∈ keys d, get? d k = get? e k) : d = e := by
  induction d generalizing e with
  | nil => exact (List.map_eq_nil_iff.mp hkeys.symm).symm
  | cons p d ih =>
    cases e with
    | nil => cases hkeys
    | cons q e =>
      obtain ⟨hpq, htail⟩ := List.cons.inj hkeys
      rw [keys_cons, List.nodup_cons] at hd
      have hhead := h p.1 List.mem_cons_self
      rw [get?_cons, get?_cons, if_pos rfl, if_pos hpq.symm, Option.some_inj] at hhead
      rw [Prod.ext hpq hhead, ih htail hd.2 fun k hk => ?_]
      have hk' := h k (List.mem_cons_of_mem _ hk)
      have hne : p.1 ≠ k := fun heq => hd.1 (heq ▸ hk)
      rwa [get?_cons, get?_cons, if_neg hne, if_neg (hpq ▸ hne)] at hk'

/-- Dictionaries with the same answers have the same items, up to order. -/
theorem perm_of_get? {d e : Dict κ β} (hd : (keys d).Nodup) (he : (keys e).Nodup)
    (h : ∀ k, get? d k = get? e k) : d.Perm e := by
  have hmem : ∀ p : κ × β, p ∈ d ↔ p ∈ e := fun p => by
    rw [← get?_eq_some_iff hd, ← get?_eq_some_iff he, h]
  exact (List.perm_ext_iff_of_nodup (List.Nodup.of_map _ hd) (List.Nodup.of_map _ he)).mpr hmem

section Rows

variable {α : Type*} {R : α → κ × β → Prop} {rows : List α} {f : α → α} {k : κ} {v : β}

omit [DecidableEq κ] in
/-- A change of the rows of other keys than those of a dictionary changes nothing. -/
theorem map_eq_of_forall₂ {d : Dict κ β} (h : List.Forall₂ R rows d) (hk : k ∉ keys d)
    (hmiss : ∀ r p, R r p → p.1 ≠ k → f r = r) : rows.map f = rows := by
  induction h with
  | nil => rfl
  | @cons r p rows d hrp _ ih =>
    rw [keys_cons, List.mem_cons, not_or] at hk
    rw [List.map_cons, hmiss r p hrp (Ne.symm hk.1), ih hk.2]

/-- A change of the row of a key, as an assignment to the key. -/
theorem forall₂_set {d : Dict κ β} (h : List.Forall₂ R rows d) (hd : (keys d).Nodup)
    (hk : k ∈ keys d) (hhit : ∀ r p, R r p → p.1 = k → R (f r) (k, v))
    (hmiss : ∀ r p, R r p → p.1 ≠ k → f r = r) : List.Forall₂ R (rows.map f) (set d k v) := by
  induction h with
  | nil => cases hk
  | @cons r p rows d hrp hrest ih =>
    obtain ⟨k', v'⟩ := p
    rw [keys_cons, List.nodup_cons] at hd
    rw [List.map_cons, set]
    by_cases hk' : k' = k
    · subst hk'
      rw [if_pos rfl, map_eq_of_forall₂ hrest hd.1 hmiss]
      exact .cons (hhit r _ hrp rfl) hrest
    · rw [if_neg hk', hmiss r _ hrp hk']
      exact .cons hrp (ih hd.2 ((List.mem_cons.mp hk).resolve_left (Ne.symm hk')))

end Rows

/-! ## Keeping some keys -/

section Keep

variable {p : κ → Bool} {k : κ}

omit [DecidableEq κ] in
/-- The items whose keys pass a test. -/
def keep (p : κ → Bool) (d : Dict κ β) : Dict κ β :=
  d.filter fun q => p q.1

omit [DecidableEq κ] in
theorem keep_cons (p : κ → Bool) (q : κ × β) (d : Dict κ β) :
    keep p (q :: d) = if p q.1 then q :: keep p d else keep p d :=
  List.filter_cons

theorem get?_keep (d : Dict κ β) (hk : p k) : get? (keep p d) k = get? d k := by
  induction d with
  | nil => rfl
  | cons q d ih =>
    rw [keep_cons, get?_cons]
    by_cases hq : q.1 = k
    · rw [if_pos (hq ▸ hk), get?_cons, if_pos hq, if_pos hq]
    · rw [if_neg hq]
      split
      · rw [get?_cons, if_neg hq, ih]
      · exact ih

/-- Assigning to a key that is kept. -/
theorem keep_set (d : Dict κ β) (hk : p k) (v : β) :
    keep p (set d k v) = set (keep p d) k v := by
  induction d with
  | nil => exact (keep_cons p (k, v) []).trans (if_pos hk)
  | cons q d ih =>
    obtain ⟨k', v'⟩ := q
    rw [set, keep_cons]
    by_cases hq : k' = k
    · rw [if_pos hq, keep_cons, if_pos (hq ▸ hk), if_pos (hq ▸ hk), set, if_pos hq]
    · rw [if_neg hq, keep_cons]
      split
      · rw [set, if_neg hq, ih]
      · exact ih

/-- Assigning to a key that is not kept. -/
theorem keep_set_of_not (d : Dict κ β) (hk : p k = false) (v : β) :
    keep p (set d k v) = keep p d := by
  have hneg : ¬ p k = true := Bool.not_eq_true _ ▸ hk
  induction d with
  | nil => exact (keep_cons p (k, v) []).trans (if_neg hneg)
  | cons q d ih =>
    obtain ⟨k', v'⟩ := q
    rw [set, keep_cons]
    by_cases hq : k' = k
    · rw [if_pos hq, keep_cons, if_neg (hq ▸ hneg), if_neg (hq ▸ hneg)]
    · rw [if_neg hq, keep_cons, ih]

/-- Popping a key that is not kept. -/
theorem keep_pop_of_not (d : Dict κ β) (hk : p k = false) : keep p (pop d k) = keep p d := by
  rw [keep, pop, List.filter_filter]
  refine List.filter_congr fun q _ => ?_
  by_cases hq : q.1 = k
  · rw [hq, hk, Bool.false_and]
  · rw [decide_eq_true hq, Bool.and_true]

theorem keep_pop (d : Dict κ β) (k : κ) (p : κ → Bool) :
    keep p (pop d k) = pop (keep p d) k := by
  rw [keep, keep, pop, pop, List.filter_filter, List.filter_filter]
  exact List.filter_congr fun q _ => Bool.and_comm _ _

end Keep

/-! ## Sums -/

section Sum

variable {M : Type*} [AddCommMonoid M]

/-- The sum of a quantity over the values. -/
def total (f : β → M) (d : Dict κ β) : M :=
  (d.map fun p => f p.2).sum

omit [DecidableEq κ] in
@[simp] theorem total_nil (f : β → M) : total f ([] : Dict κ β) = 0 := rfl

omit [DecidableEq κ] in
theorem total_cons (f : β → M) (p : κ × β) (d : Dict κ β) :
    total f (p :: d) = f p.2 + total f d := by
  rw [total, List.map_cons, List.sum_cons, total]

/-- **Adding to one value.**  A key that is new counts as zero before. -/
theorem total_set {f : β → M} {d : Dict κ β} {k : κ} {v : β} {x : M}
    (h : f v = ((get? d k).map f).getD 0 + x) : total f (set d k v) = total f d + x := by
  induction d with
  | nil =>
    rw [set, total_cons, total_nil, add_zero, zero_add]
    exact h.trans (zero_add x)
  | cons p d ih =>
    rw [get?_cons] at h
    by_cases hk : p.1 = k
    · rw [if_pos hk] at h
      rw [set, if_pos hk, total_cons, total_cons, show f v = f p.2 + x from h, add_right_comm]
    · rw [if_neg hk] at h
      rw [set, if_neg hk, total_cons, total_cons, ih h, add_assoc]

theorem total_setdefault {f : β → M} (d : Dict κ β) (k : κ) {v : β} (h : f v = 0) :
    total f (setdefault d k v) = total f d := by
  rw [setdefault]
  split
  · rfl
  · next hk =>
    rw [total_set, add_zero]
    rw [Option.not_isSome_iff_eq_none.mp hk, h, Option.map_none, Option.getD_none, add_zero]

end Sum

end Dict

end LdmsTest
