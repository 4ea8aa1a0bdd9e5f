import Mathlib.Data.Int.Basic
import Mathlib.Data.Option.Basic
import Mathlib.Data.Set.Defs
import Mathlib.Logic.Function.Basic
import Mathlib.Logic.Relation

/-!
# Processes that are found by a file

For every key there is a file with the number of the process that was started for it last.  A
number is used again when its process has ended, so whoever reads the file looks at the process that
has the number now: it is taken for the one of the key if the key `accepts` it.

* `Keeper`: the keys, what they accept, and what is started for them.
* `find`: the process that is taken for the one of a key.
* `Step`: processes are started for keys for which none is found, and end; other processes come and
  go with any number that is free.
* `Right`: what is found for a key is what was started for it, as long as it runs.
* `right_iff`: this is so in all states, exactly when no key accepts a process of another one.
-/

namespace LdmsTest
namespace PidFile

/-- The keys, the processes that they accept, and those that starting the program of a key may
give. -/
structure Keeper (κ ρ : Type*) where
  keys : Set κ
  accepts : κ → ρ → Bool
  image : κ → ρ → Prop
  mem_keys : ∀ {k p}, image k p → k ∈ keys
  accepts_image : ∀ {k p}, image k p → accepts k p
  exists_image : ∀ {k}, k ∈ keys → ∃ p, image k p

/-- The processes that run, the key that each was started for, if it was started for one, and the
numbers in the files. -/
structure State (κ ρ : Type*) where
  proc : ℤ → Option ρ
  owner : ℤ → Option κ
  file : κ → Option ℤ

variable {κ ρ : Type*} (K : Keeper κ ρ)

/-- The number in the file of a key, if a process has it that the key accepts. -/
def find (s : State κ ρ) (k : κ) : Option ℤ :=
  (s.file k).filter fun pid => (s.proc pid).any (K.accepts k)

theorem find_eq_some_iff {s : State κ ρ} {k : κ} {pid : ℤ} :
    find K s k = some pid ↔ s.file k = some pid ∧ ∃ p, s.proc pid = some p ∧ K.accepts k p := by
  rw [find, Option.filter_eq_some_iff, Option.any_eq_true_iff_get]
  refine and_congr_right fun _ => ⟨fun ⟨hsome, h⟩ => ⟨_, Option.some_get hsome |>.symm, h⟩, ?_⟩
  rintro ⟨p, hp, h⟩
  refine ⟨by rw [hp]; rfl, ?_⟩
  rwa [Option.get_of_eq_some _ hp]

section Steps

variable [DecidableEq κ]

/-- What may happen. -/
inductive Step : State κ ρ → State κ ρ → Prop
  /-- A process is started for a key, and its number is put into the file. -/
  | start {s : State κ ρ} {k : κ} {pid : ℤ} {p : ρ} (hfind : find K s k = none)
      (hfree : s.proc pid = none) (hpid : pid ≠ 0) (himage : K.image k p) :
      Step s ⟨Function.update s.proc pid (some p), Function.update s.owner pid (some k),
        Function.update s.file k (some pid)⟩
  /-- A process ends. -/
  | exit {s : State κ ρ} (pid : ℤ) :
      Step s ⟨Function.update s.proc pid none, Function.update s.owner pid none, s.file⟩
  /-- A file is removed when no process is found. -/
  | unlink {s : State κ ρ} {k : κ} (hfind : find K s k = none) :
      Step s ⟨s.proc, s.owner, Function.update s.file k none⟩
  /-- Another program is started, which no key takes for its own. -/
  | other {s : State κ ρ} {pid : ℤ} {p : ρ} (hfree : s.proc pid = none)
      (hother : ∀ k ∈ K.keys, K.accepts k p = false) :
      Step s ⟨Function.update s.proc pid (some p), s.owner, s.file⟩

end Steps

/-- Nothing was started for a key yet.  The files may hold anything. -/
structure Start (s : State κ ρ) : Prop where
  owner : ∀ pid, s.owner pid = none
  other : ∀ {pid p}, s.proc pid = some p → ∀ k ∈ K.keys, K.accepts k p = false

/-- **What is found for a key** is what was started for it. -/
def Right (s : State κ ρ) : Prop :=
  ∀ k ∈ K.keys, ∀ pid, find K s k = some pid ↔ s.owner pid = some k

/-- No key accepts a process that was started for another one. -/
def Keeper.Apart : Prop :=
  ∀ k ∈ K.keys, ∀ k' p, K.image k' p → K.accepts k p → k = k'

/-- What holds in every state. -/
structure Inv (s : State κ ρ) : Prop where
  owned : ∀ {pid k}, s.owner pid = some k →
    s.file k = some pid ∧ ∃ p, s.proc pid = some p ∧ K.image k p
  other : ∀ {pid p}, s.proc pid = some p → s.owner pid = none → ∀ k ∈ K.keys, K.accepts k p = false

variable {K} {s s' : State κ ρ}

theorem Start.inv (h : Start K s) : Inv K s where
  owned := fun {pid k} hk => by
    rw [h.owner pid] at hk
    cases hk
  other := fun hp _ => h.other hp

/-- What is found for a key was started for it, if the keys are apart. -/
theorem Inv.right (hapart : K.Apart) (h : Inv K s) : Right K s := by
  intro k hk pid
  rw [find_eq_some_iff]
  constructor
  · rintro ⟨-, p, hp, haccepts⟩
    cases howner : s.owner pid with
    | none =>
      rw [h.other hp howner k hk] at haccepts
      cases haccepts
    | some k' =>
      obtain ⟨-, q, hq, himage⟩ := h.owned howner
      obtain rfl : q = p := Option.some_inj.mp (hq.symm.trans hp)
      rw [hapart k hk k' q himage haccepts]
  · intro howner
    obtain ⟨hfile, p, hp, himage⟩ := h.owned howner
    exact ⟨hfile, p, hp, K.accepts_image himage⟩

/-- Where nothing is found for a key, nothing runs that was started for it. -/
theorem Inv.owner_ne (hapart : K.Apart) (h : Inv K s) {k : κ} (hfind : find K s k = none) (pid : ℤ) :
    s.owner pid ≠ some k := by
  intro howner
  obtain ⟨-, p, -, himage⟩ := h.owned howner
  rw [(h.right hapart k (K.mem_keys himage) pid).mpr howner] at hfind
  cases hfind

/-- **One step** keeps what holds. -/
theorem Inv.step [DecidableEq κ] (hapart : K.Apart) (h : Inv K s) (hstep : Step K s s') :
    Inv K s' := by
  cases hstep with
  | @start k pid p hfind hfree _ himage =>
    have hnone := h.owner_ne hapart hfind
    refine ⟨fun {pid' k'} howner => ?_, fun {pid' q} hq howner => ?_⟩ <;> dsimp only at *
    · by_cases hpid : pid' = pid
      · subst hpid
        rw [Function.update_self] at howner
        cases howner
        exact ⟨Function.update_self _ _ _, p, Function.update_self _ _ _, himage⟩
      · rw [Function.update_of_ne hpid] at howner
        -- the file of another key stays as it is
        have hk : k' ≠ k := fun hk => hnone pid' (hk ▸ howner)
        obtain ⟨hfile, q, hq, himage'⟩ := h.owned howner
        exact ⟨by rw [Function.update_of_ne hk, hfile], q,
          by rw [Function.update_of_ne hpid, hq], himage'⟩
    · by_cases hpid : pid' = pid
      · rw [hpid, Function.update_self] at howner
        cases howner
      · rw [Function.update_of_ne hpid] at howner hq
        exact h.other hq howner
  | exit pid =>
    refine ⟨fun {pid' k'} howner => ?_, fun {pid' q} hq howner => ?_⟩ <;> dsimp only at *
    · by_cases hpid : pid' = pid
      · rw [hpid, Function.update_self] at howner
        cases howner
      · rw [Function.update_of_ne hpid] at howner
        obtain ⟨hfile, q, hq, himage⟩ := h.owned howner
        exact ⟨hfile, q, by rw [Function.update_of_ne hpid, hq], himage⟩
    · by_cases hpid : pid' = pid
      · rw [hpid, Function.update_self] at hq
        cases hq
      · rw [Function.update_of_ne hpid] at howner hq
        exact h.other hq howner
  | @unlink k hfind =>
    refine ⟨fun {pid' k'} howner => ?_, h.other⟩
    obtain ⟨hfile, hproc⟩ := h.owned howner
    have hk : k' ≠ k := fun hk => h.owner_ne hapart hfind pid' (hk ▸ howner)
    refine ⟨?_, hproc⟩
    show Function.update s.file k none k' = some pid'
    rw [Function.update_of_ne hk, hfile]
  | @other pid p hfree hother =>
    refine ⟨fun {pid' k'} howner => ?_, fun {pid' q} hq howner => ?_⟩ <;> dsimp only at *
    · obtain ⟨hfile, q, hq, himage⟩ := h.owned howner
      have hpid : pid' ≠ pid := by
        rintro rfl
        rw [hfree] at hq
        cases hq
      exact ⟨hfile, q, by rw [Function.update_of_ne hpid, hq], himage⟩
    · by_cases hpid : pid' = pid
      · rw [hpid, Function.update_self] at hq
        cases hq
        exact hother
      · rw [Function.update_of_ne hpid] at hq
        exact h.other hq howner

/-- **Every run** keeps what holds. -/
theorem Inv.run [DecidableEq κ] (hapart : K.Apart) (h : Inv K s)
    (hrun : Relation.ReflTransGen (Step K) s s') : Inv K s' := by
  induction hrun with
  | refl => exact h
  | tail _ hstep ih => exact ih.step hapart hstep

/-- Nothing runs, and there are no files. -/
def idle : State κ ρ :=
  ⟨fun _ => none, fun _ => none, fun _ => none⟩

theorem start_idle : Start K idle :=
  ⟨fun _ => rfl, nofun⟩

/-- **The process of another key is found** when it has got the number of one that has ended. -/
theorem exists_not_right [DecidableEq κ] {k k' : κ} {p q : ρ} (hne : k ≠ k') (hq : K.image k q)
    (hp : K.image k' p) (haccepts : K.accepts k p) {pid : ℤ} (hpid : pid ≠ 0) :
    ∃ s, Relation.ReflTransGen (Step K) idle s ∧ s.owner pid = some k' ∧ find K s k = some pid := by
  let s₁ : State κ ρ := ⟨Function.update (fun _ => none) pid (some q),
    Function.update (fun _ => none) pid (some k), Function.update (fun _ => none) k (some pid)⟩
  let s₂ : State κ ρ := ⟨Function.update s₁.proc pid none, Function.update s₁.owner pid none, s₁.file⟩
  let s₃ : State κ ρ := ⟨Function.update s₂.proc pid (some p), Function.update s₂.owner pid (some k'),
    Function.update s₂.file k' (some pid)⟩
  have h₁ : Step K idle s₁ := Step.start rfl rfl hpid hq
  have h₂ : Step K s₁ s₂ := Step.exit pid
  have hfile : s₂.file k' = none := by
    show Function.update (fun _ => none) k (some pid) k' = none
    rw [Function.update_of_ne hne.symm]
  have hfree : s₂.proc pid = none := Function.update_self _ _ _
  have h₃ : Step K s₂ s₃ := Step.start (by rw [find, hfile]; rfl) hfree hpid hp
  refine ⟨s₃, ((Relation.ReflTransGen.single h₁).tail h₂).tail h₃, Function.update_self _ _ _, ?_⟩
  refine (find_eq_some_iff K).mpr ⟨?_, p, Function.update_self _ _ _, haccepts⟩
  show Function.update s₂.file k' (some pid) k = some pid
  rw [Function.update_of_ne hne]
  show Function.update (fun _ => none) k (some pid) k = some pid
  rw [Function.update_self]

/-- **When the right process is found** in every state that the processes can come to. -/
theorem right_iff [DecidableEq κ] :
    (∀ s₀ s : State κ ρ, Start K s₀ → Relation.ReflTransGen (Step K) s₀ s → Right K s) ↔
      K.Apart := by
  constructor
  · intro hright k hk k' p hp haccepts
    by_contra hne
    obtain ⟨q, hq⟩ := K.exists_image hk
    obtain ⟨s, hrun, howner, hfind⟩ := exists_not_right hne hq hp haccepts Int.one_ne_zero
    have howner' := (hright idle s start_idle hrun k hk 1).mp hfind
    exact hne (Option.some_inj.mp (howner'.symm.trans howner))
  · intro hapart s₀ s hstart hrun
    exact (hstart.inv.run hapart hrun).right hapart

end PidFile
end LdmsTest
