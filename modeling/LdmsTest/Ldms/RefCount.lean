import Mathlib

/-!
# The reference counter of `ldms_ls`

The Python `ldms_ls` looks all sets up and asks for an update of each.  Callbacks run while the main
routine waits in `wait_zero()`: `lookup_cb` once for each set, `more` being zero for the last, and
`update_cb` for each answer to an update, of which a set array gets several.

The main routine holds one reference for the lookup and `lookup_cb` takes one for the update of its
set, but every `update_cb` puts one down.

* `Step`: the main routine, a `lookup_cb` under way and any number of updates, in any order.
* `Kept`: what the counter stands for.
* `refCount_correct_iff`: when the counter is never put below zero and `wait_zero()` waits for all
  updates.
-/

namespace LdmsTest
namespace LdmsLs

variable {Name : Type}

/-! ## The callbacks and the counter -/

/-- A set that the lookup finds, and the number of callbacks that its update gets. -/
structure LSet (Name : Type) where
  name : Name
  updates : ℕ

/-- Where the `lookup_cb` under way is. -/
inductive Callback (Name : Type) where
  | idle
  /-- after `ref_count.get()` -/
  | got (lset : LSet Name)
  /-- after `lset.update(cb = update_cb)` -/
  | updated

/-- The set whose update `lookup_cb` is about to ask for. -/
def Callback.lsets : Callback Name → List (LSet Name)
  | .got lset => [lset]
  | _ => []

/-- Where the main routine is in `wait_zero()`. -/
inductive Main where
  /-- before the test of the loop -/
  | check
  /-- in `self.cond.wait()` -/
  | sleep
  | returned
  deriving DecidableEq

structure State (Name : Type) where
  /-- `ref_count.ref_count` -/
  refCount : ℕ
  /-- The assertion of `put()` fired.  Its lock is never released. -/
  failed : Bool
  main : Main
  /-- The sets that `lookup_cb` is still to be called with. -/
  todo : List (LSet Name)
  callback : Callback Name
  /-- The updates asked for, each with the callbacks still to come. -/
  pending : List (LSet Name)

namespace State

/-- `RefCount.get` -/
def get (s : State Name) : State Name :=
  { s with refCount := s.refCount + 1 }

/-- `RefCount.put` -/
def put (s : State Name) : State Name :=
  if s.refCount = 0 then { s with failed := true }
  else
    { s with
      refCount := s.refCount - 1
      -- `self.cond.notify()`
      main := if s.refCount = 1 ∧ s.main = .sleep then .check else s.main }

/-- The main routine has called `x.lookup`. -/
def start (found : List (LSet Name)) : State Name :=
  get ⟨0, false, .check, found, .idle, []⟩

end State

/-- One step of the main routine or of a callback.  `dir` are the names in `sets`.  A step that
takes the lock of the counter needs it free. -/
inductive Step (dir : List Name) : State Name → State Name → Prop
  | lookupGet {s : State Name} {lset : LSet Name} {rest : List (LSet Name)}
      (hlock : s.failed = false) (hcb : s.callback = .idle) (htodo : s.todo = lset :: rest) :
      Step dir s { s.get with todo := rest, callback := .got lset }
  | lookupUpdate {s : State Name} {lset : LSet Name} (hcb : s.callback = .got lset) :
      Step dir s { s with callback := .updated, pending := s.pending ++ [lset] }
  | lookupMore {s : State Name} (hcb : s.callback = .updated) (hmore : s.todo ≠ []) :
      Step dir s { s with callback := .idle }
  | lookupLast {s : State Name} (hlock : s.failed = false) (hcb : s.callback = .updated)
      (hmore : s.todo = []) :
      Step dir s (State.put { s with callback := .idle })
  | updateCb {s : State Name} {l r : List (LSet Name)} {name : Name} {n : ℕ}
      (hlock : s.failed = false) (hpending : s.pending = l ++ ⟨name, n + 1⟩ :: r)
      (hname : name ∈ dir) :
      Step dir s (State.put { s with pending := l ++ ⟨name, n⟩ :: r })
  /-- `sets[lset.name]` raises `KeyError`, which ends the callback before its `put()`. -/
  | updateCbKeyError {s : State Name} {l r : List (LSet Name)} {name : Name} {n : ℕ}
      (hpending : s.pending = l ++ ⟨name, n + 1⟩ :: r) (hname : name ∉ dir) :
      Step dir s { s with pending := l ++ ⟨name, n⟩ :: r }
  | waitSleep {s : State Name} (hlock : s.failed = false) (hmain : s.main = .check)
      (hpos : 0 < s.refCount) : Step dir s { s with main := .sleep }
  | waitReturn {s : State Name} (hlock : s.failed = false) (hmain : s.main = .check)
      (hzero : s.refCount = 0) : Step dir s { s with main := .returned }

/-- The states of all runs. -/
def Reachable (dir : List Name) (found : List (LSet Name)) (s : State Name) : Prop :=
  Relation.ReflTransGen (Step dir) (.start found) s

theorem Reachable.step {dir : List Name} {found : List (LSet Name)} {s s' : State Name}
    (h : Reachable dir found s) (hstep : Step dir s s') : Reachable dir found s' :=
  h.tail hstep

/-- What `put()` does when its assertion does not fire. -/
theorem State.put_cases {s : State Name} (h : s.put.failed = false) :
    0 < s.refCount ∧ s.put = { s with
      refCount := s.refCount - 1
      main := if s.refCount = 1 ∧ s.main = .sleep then .check else s.main } := by
  by_cases h0 : s.refCount = 0
  · simp [State.put, h0] at h
  · exact ⟨by omega, if_neg h0⟩

/-- `put()` wakes the main routine up. -/
theorem State.put_main_waits {s : State Name} (h : s.main = .sleep → 0 < s.refCount) :
    (if s.refCount = 1 ∧ s.main = .sleep then Main.check else s.main) = .sleep →
      0 < s.refCount - 1 := by
  split
  · simp
  · rename_i hne
    intro hs
    have hpos := h hs
    have : s.refCount ≠ 1 := fun h1 => hne ⟨h1, hs⟩
    omega

/-! ## Counting callbacks -/

/-- The update callbacks of some sets. -/
def total (l : List (LSet Name)) : ℕ :=
  (l.map LSet.updates).sum

@[simp] theorem total_nil : total ([] : List (LSet Name)) = 0 := rfl

@[simp] theorem total_cons (x : LSet Name) (l : List (LSet Name)) :
    total (x :: l) = x.updates + total l := by
  simp [total]

@[simp] theorem total_append (l r : List (LSet Name)) : total (l ++ r) = total l + total r := by
  simp [total]

/-- The update callbacks still to come. -/
def State.updatesLeft (s : State Name) : ℕ :=
  total s.pending + total s.callback.lsets + total s.todo

/-- Every set gets a callback. -/
theorem length_le_total {l : List (LSet Name)} (h : ∀ x ∈ l, 1 ≤ x.updates) :
    l.length ≤ total l := by
  induction l with
  | nil => simp
  | cons x l ih =>
    have hx := h x List.mem_cons_self
    have hl := ih fun y hy => h y (List.mem_cons_of_mem x hy)
    simp only [List.length_cons, total_cons]
    omega

theorem total_eq_length {l : List (LSet Name)} (h : ∀ x ∈ l, x.updates = 1) :
    total l = l.length := by
  induction l with
  | nil => simp
  | cons x l ih =>
    have hx := h x List.mem_cons_self
    have hl := ih fun y hy => h y (List.mem_cons_of_mem x hy)
    simp only [List.length_cons, total_cons]
    omega

theorem eq_one_of_total_eq_length {l : List (LSet Name)} (h : ∀ x ∈ l, 1 ≤ x.updates)
    (heq : total l = l.length) : ∀ x ∈ l, x.updates = 1 := by
  induction l with
  | nil => simp
  | cons x l ih =>
    have hx := h x List.mem_cons_self
    have hall : ∀ y ∈ l, 1 ≤ y.updates := fun y hy => h y (List.mem_cons_of_mem x hy)
    have hl := length_le_total hall
    simp only [List.length_cons, total_cons] at heq
    exact List.forall_mem_cons.mpr ⟨by omega, ih hall (by omega)⟩

variable [DecidableEq Name] {dir : List Name} {found : List (LSet Name)} {s s' : State Name}

/-- The update callbacks that reach their `put()`. -/
def puts (dir : List Name) (l : List (LSet Name)) : ℕ :=
  total (l.filter fun x => x.name ∈ dir)

@[simp] theorem puts_nil : puts dir ([] : List (LSet Name)) = 0 := rfl

@[simp] theorem puts_append (l r : List (LSet Name)) :
    puts dir (l ++ r) = puts dir l + puts dir r := by
  simp [puts]

@[simp] theorem puts_cons (x : LSet Name) (l : List (LSet Name)) :
    puts dir (x :: l) = (if x.name ∈ dir then x.updates else 0) + puts dir l := by
  by_cases hx : x.name ∈ dir <;> simp [puts, hx]

/-- The callbacks for sets that the directory does not list. -/
def strays (dir : List Name) (l : List (LSet Name)) : ℕ :=
  total (l.filter fun x => x.name ∉ dir)

@[simp] theorem strays_nil : strays dir ([] : List (LSet Name)) = 0 := rfl

@[simp] theorem strays_append (l r : List (LSet Name)) :
    strays dir (l ++ r) = strays dir l + strays dir r := by
  simp [strays]

@[simp] theorem strays_cons (x : LSet Name) (l : List (LSet Name)) :
    strays dir (x :: l) = (if x.name ∈ dir then 0 else x.updates) + strays dir l := by
  by_cases hx : x.name ∈ dir <;> simp [strays, hx]

theorem puts_add_strays (dir : List Name) (l : List (LSet Name)) : puts dir l + strays dir l = total l := by
  induction l with
  | nil => simp
  | cons x l ih =>
    simp only [puts_cons, strays_cons, total_cons]
    split <;> omega

/-- A callback with a `put()`, if there is one. -/
theorem exists_put {l : List (LSet Name)} (h : 0 < puts dir l) :
    ∃ l₁ name n l₂, l = l₁ ++ (⟨name, n + 1⟩ : LSet Name) :: l₂ ∧ name ∈ dir := by
  induction l with
  | nil => simp at h
  | cons x l ih =>
    by_cases hx : x.name ∈ dir ∧ x.updates ≠ 0
    · exact ⟨[], x.name, x.updates - 1, l, by simp [Nat.sub_add_cancel (by omega : 1 ≤ x.updates)],
        hx.1⟩
    · have hl : 0 < puts dir l := by
        rw [puts_cons] at h
        split at h <;> grind
      obtain ⟨l₁, name, n, l₂, rfl, hname⟩ := ih hl
      exact ⟨x :: l₁, name, n, l₂, rfl, hname⟩

/-! ## What the counter stands for -/

/-- `begun` are the sets that `lookup_cb` was called with, `lookup` is the reference of the main
routine, `put` and `raised` count the update callbacks that came. -/
structure Kept (dir : List Name) (found : List (LSet Name)) (begun : List (LSet Name))
    (lookup put raised : ℕ) (s : State Name) : Prop where
  begun_todo : begun ++ s.todo = found
  count : s.refCount + put = lookup + begun.length
  puts_left : put + (puts dir s.pending + puts dir s.callback.lsets) = puts dir begun
  strays_left : raised + (strays dir s.pending + strays dir s.callback.lsets) = strays dir begun
  lookup_put : lookup = 0 → s.todo = [] ∧ s.callback = .idle
  main_waits : s.main = .sleep → 0 < s.refCount

theorem Kept.start (dir : List Name) (found : List (LSet Name)) :
    Kept dir found [] 1 0 0 (.start found) := by
  constructor <;> simp [State.start, State.get, Callback.lsets]

theorem Kept.step {begun : List (LSet Name)} {lookup put raised : ℕ}
    (h : Kept dir found begun lookup put raised s) (hstep : Step dir s s')
    (hput : s'.failed = false) :
    ∃ begun lookup put raised, Kept dir found begun lookup put raised s' := by
  obtain ⟨hbegun, hcount, hputs, hstrays, hlookup, hmain⟩ := h
  rcases hstep with ⟨hlock, hcb, htodo⟩ | ⟨hcb⟩ | ⟨hcb, hmore⟩ | ⟨hlock, hcb, hmore⟩ |
    ⟨hlock, hpending, hname⟩ | ⟨hpending, hname⟩ | ⟨hlock, hmain', hpos⟩ | ⟨hlock, hmain', hzero⟩
  case lookupGet lset rest =>
    refine ⟨begun ++ [lset], lookup, put, raised, ?_, ?_, ?_, ?_, ?_, ?_⟩
    · simp [← hbegun, htodo]
    · simp [State.get]
      omega
    · simp only [hcb, Callback.lsets, puts_nil] at hputs
      simp [State.get, Callback.lsets]
      omega
    · simp only [hcb, Callback.lsets, strays_nil] at hstrays
      simp [State.get, Callback.lsets]
      omega
    · intro h0
      simp [htodo] at hlookup
      omega
    · simp [State.get]
  case lookupUpdate lset =>
    refine ⟨begun, lookup, put, raised, hbegun, hcount, ?_, ?_, ?_, hmain⟩
    · simp only [hcb, Callback.lsets] at hputs
      simpa [Callback.lsets] using hputs
    · simp only [hcb, Callback.lsets] at hstrays
      simpa [Callback.lsets] using hstrays
    · simp [hcb] at hlookup
      omega
  case lookupMore =>
    refine ⟨begun, lookup, put, raised, hbegun, hcount, ?_, ?_, ?_, hmain⟩
    · simpa [hcb, Callback.lsets] using hputs
    · simpa [hcb, Callback.lsets] using hstrays
    · simp [hcb] at hlookup
      omega
  case lookupLast =>
    obtain ⟨hpos, heq⟩ := State.put_cases hput
    replace hpos : 0 < s.refCount := hpos
    have hlookup' : lookup ≠ 0 := fun h0 => by simp [hcb] at hlookup; omega
    rw [heq]
    refine ⟨begun, lookup - 1, put, raised, hbegun, ?_, ?_, ?_, fun _ => ⟨hmore, rfl⟩, ?_⟩
    · simp only
      omega
    · simpa [hcb, Callback.lsets] using hputs
    · simpa [hcb, Callback.lsets] using hstrays
    · exact State.put_main_waits hmain
  case updateCb l r name n =>
    obtain ⟨hpos, heq⟩ := State.put_cases hput
    replace hpos : 0 < s.refCount := hpos
    rw [heq]
    simp only [hpending, puts_append, puts_cons, hname, if_true] at hputs
    simp only [hpending, strays_append, strays_cons, hname, if_true] at hstrays
    refine ⟨begun, lookup, put + 1, raised, hbegun, ?_, ?_, ?_, hlookup, ?_⟩
    · simp only
      omega
    · simp [hname]
      omega
    · simp [hname]
      omega
    · exact State.put_main_waits hmain
  case updateCbKeyError l r name n =>
    simp only [hpending, puts_append, puts_cons, hname, if_false] at hputs
    simp only [hpending, strays_append, strays_cons, hname, if_false] at hstrays
    refine ⟨begun, lookup, put, raised + 1, hbegun, hcount, ?_, ?_, hlookup, hmain⟩
    · simp [hname]
      omega
    · simp [hname]
      omega
  case waitSleep =>
    exact ⟨begun, lookup, put, raised, hbegun, hcount, hputs, hstrays, hlookup, fun _ => hpos⟩
  case waitReturn =>
    exact ⟨begun, lookup, put, raised, hbegun, hcount, hputs, hstrays, hlookup, by simp⟩

/-! ## Every run -/

/-- Every set is called back once, or sets unknown to the directory hold enough references. -/
def Covered (dir : List Name) (found : List (LSet Name)) : Prop :=
  (∀ x ∈ found, x.updates = 1) ∨
    (∀ l, l <+: found → puts dir l ≤ l.length) ∧ puts dir found < found.length

theorem Covered.puts_le (h : Covered dir found) {l : List (LSet Name)} (hl : l <+: found) :
    puts dir l ≤ l.length := by
  rcases h with h | h
  · have := puts_add_strays dir l
    have := total_eq_length fun x hx => h x (hl.subset hx)
    omega
  · exact h.1 l hl

/-- No reference is left only when every update came. -/
theorem Kept.updatesLeft_eq_zero {begun : List (LSet Name)} {lookup put raised : ℕ}
    (hcov : Covered dir found) (h : Kept dir found begun lookup put raised s)
    (hzero : s.refCount = 0) : s.updatesLeft = 0 ∧ lookup = 0 := by
  have hle := hcov.puts_le ⟨_, h.begun_todo⟩
  have hcount := h.count
  have hputs := h.puts_left
  have hlookup : lookup = 0 := by omega
  obtain ⟨htodo, hcb⟩ := h.lookup_put hlookup
  have hbegun : begun = found := by simpa [htodo] using h.begun_todo
  subst hbegun
  rcases hcov with hone | ⟨-, hlt⟩
  · have hstrays := h.strays_left
    have hlen := total_eq_length hone
    have hall := puts_add_strays dir begun
    have hleft := puts_add_strays dir s.pending
    simp only [hcb, Callback.lsets, puts_nil, strays_nil] at hputs hstrays
    simp only [State.updatesLeft, hcb, htodo, Callback.lsets, total_nil]
    omega
  · omega

/-- What holds of every state of a run. -/
structure Sound (dir : List Name) (found : List (LSet Name)) (s : State Name) : Prop where
  kept : ∃ begun lookup put raised, Kept dir found begun lookup put raised s
  held : s.failed = false
  waited : s.main = .returned → s.updatesLeft = 0

omit [DecidableEq Name] in
@[simp] theorem State.put_updatesLeft (s : State Name) : s.put.updatesLeft = s.updatesLeft := by
  unfold State.put
  split <;> rfl

omit [DecidableEq Name] in
theorem State.put_returned {s : State Name} (h : s.put.main = .returned) : s.main = .returned := by
  unfold State.put at h
  split at h
  · exact h
  · simp only at h
    split at h
    · cases h
    · exact h

omit [DecidableEq Name] in
theorem Step.updatesLeft_le (hstep : Step dir s s') : s'.updatesLeft ≤ s.updatesLeft := by
  rcases hstep with ⟨-, hcb, htodo⟩ | hcb | ⟨hcb, -⟩ | ⟨-, hcb, -⟩ | ⟨-, hpending, -⟩ |
    ⟨hpending, -⟩ | _ | _
  case lookupGet =>
    simp [State.updatesLeft, State.get, hcb, htodo, Callback.lsets]
    omega
  case lookupUpdate => simp [State.updatesLeft, hcb, Callback.lsets]
  case lookupMore => simp [State.updatesLeft, hcb, Callback.lsets]
  case lookupLast =>
    rw [State.put_updatesLeft]
    simp [State.updatesLeft, hcb, Callback.lsets]
  case updateCb =>
    rw [State.put_updatesLeft]
    simp [State.updatesLeft, hpending]
  case updateCbKeyError => simp [State.updatesLeft, hpending]
  case waitSleep => exact le_rfl
  case waitReturn => exact le_rfl

omit [DecidableEq Name] in
/-- `wait_zero()` returns when it sees no reference. -/
theorem Step.returned (hstep : Step dir s s') (h : s'.main = .returned) :
    s.main = .returned ∨ s.refCount = 0 := by
  rcases hstep with _ | _ | _ | _ | _ | _ | _ | ⟨-, -, hzero⟩
  case waitReturn => exact .inr hzero
  case waitSleep => cases h
  case lookupLast =>
    have := State.put_returned h
    exact .inl this
  case updateCb =>
    have := State.put_returned h
    exact .inl this
  all_goals exact .inl h

theorem Sound.step (hcov : Covered dir found) (h : Sound dir found s) (hstep : Step dir s s') :
    Sound dir found s' := by
  obtain ⟨⟨begun, lookup, put, raised, hkept⟩, hheld, hwaited⟩ := h
  have hzero := hkept.updatesLeft_eq_zero hcov
  have hheld' : s'.failed = false := by
    rcases hstep with _ | _ | _ | ⟨-, hcb, -⟩ | ⟨-, hpending, -⟩ | _ | _ | _
    case lookupLast =>
      -- the reference of the main routine is still there
      have hpos : s.refCount ≠ 0 := fun h0 => by
        have := (hkept.lookup_put (hzero h0).2).2
        simp [hcb] at this
      simp [State.put, hpos, hheld]
    case updateCb =>
      have hpos : s.refCount ≠ 0 := fun h0 => by
        have := (hzero h0).1
        simp [State.updatesLeft, hpending] at this
      simp [State.put, hpos, hheld]
    all_goals exact hheld
  refine ⟨hkept.step hstep hheld', hheld', fun hreturned => ?_⟩
  have hle := hstep.updatesLeft_le
  rcases hstep.returned hreturned with hr | h0
  · have := hwaited hr
    omega
  · have := (hzero h0).1
    omega

theorem Sound.of_reachable (hcov : Covered dir found) (h : Reachable dir found s) :
    Sound dir found s := by
  induction h with
  | refl => exact ⟨⟨_, _, _, _, Kept.start dir found⟩, rfl, by simp [State.start, State.get]⟩
  | tail _ hstep ih => exact ih.step hcov hstep

/-! ## Too many callbacks -/

omit [DecidableEq Name] in
/-- The lookup callbacks of some sets, before any update is answered. -/
theorem reachable_lookups (l : List (LSet Name)) {rest : List (LSet Name)} (hrest : rest ≠ []) :
    Reachable dir (l ++ rest) ⟨l.length + 1, false, .check, rest, .idle, l⟩ := by
  induction l using List.reverseRecOn generalizing rest with
  | nil => exact .refl
  | append_singleton l x ih =>
    have h := ih (List.cons_ne_nil x rest)
    rw [List.append_assoc, List.length_append]
    exact ((h.step (.lookupGet rfl rfl rfl)).step (.lookupUpdate rfl)).step (.lookupMore rfl hrest)

omit [DecidableEq Name] in
/-- All lookup callbacks, before any update is answered. -/
theorem reachable_all_lookups (hfound : found ≠ []) :
    Reachable dir found ⟨found.length, false, .check, [], .idle, found⟩ := by
  obtain ⟨l, x, rfl⟩ := List.eq_nil_or_concat found |>.resolve_left hfound
  have h : Reachable dir (l ++ [x]) _ := reachable_lookups l (List.cons_ne_nil x [])
  have hlast := ((h.step (.lookupGet rfl rfl rfl)).step (.lookupUpdate rfl)).step
    (.lookupLast rfl rfl rfl)
  simpa [State.put, State.get] using hlast

/-- Enough callbacks bring the counter to zero, wherever the lookup is. -/
theorem reachable_puts {todo : List (LSet Name)} {n : ℕ} {pending : List (LSet Name)}
    (hn : n ≤ puts dir pending)
    (h : Reachable dir found ⟨n, false, .check, todo, .idle, pending⟩) :
    ∃ pending', total pending' + n = total pending ∧
      Reachable dir found ⟨0, false, .check, todo, .idle, pending'⟩ := by
  induction n generalizing pending with
  | zero => exact ⟨pending, rfl, h⟩
  | succ n ih =>
    obtain ⟨l, name, m, r, rfl, hname⟩ : ∃ l name m r,
        pending = l ++ (⟨name, m + 1⟩ : LSet Name) :: r ∧ name ∈ dir := exists_put (by omega)
    simp only [puts_append, puts_cons, hname, if_true] at hn
    have hstep : Reachable dir found ⟨n, false, .check, todo, .idle, l ++ ⟨name, m⟩ :: r⟩ := by
      simpa [State.put] using h.step (.updateCb rfl rfl hname)
    have hleft : n ≤ puts dir (l ++ (⟨name, m⟩ : LSet Name) :: r) := by
      simp only [puts_append, puts_cons, hname, if_true]
      omega
    obtain ⟨pending', htotal, hreach⟩ := ih hleft hstep
    refine ⟨pending', ?_, hreach⟩
    simp only [total_append, total_cons] at htotal ⊢
    omega

/-- No run puts down too many references, or leaves `wait_zero()` early. -/
def Correct (dir : List Name) (found : List (LSet Name)) : Prop :=
  ∀ s, Reachable dir found s → s.failed = false ∧ (s.main = .returned → s.updatesLeft = 0)

omit [DecidableEq Name] in
/-- The main routine sees the counter at zero. -/
theorem not_correct_of_zero {todo pending : List (LSet Name)}
    (h : Reachable dir found ⟨0, false, .check, todo, .idle, pending⟩)
    (hleft : 0 < total pending + total todo) : ¬ Correct dir found := by
  intro hcorrect
  have := (hcorrect _ (h.step (.waitReturn rfl rfl rfl))).2 rfl
  simp only [State.updatesLeft, Callback.lsets, total_nil] at this
  omega

/-- **The counter of `ldms_ls`**: it waits for all updates of sets that are called back once each,
and of no others unless the directory misses some. -/
theorem refCount_correct_iff (dir : List Name) (found : List (LSet Name))
    (hupdates : ∀ x ∈ found, 1 ≤ x.updates) : Correct dir found ↔ Covered dir found := by
  constructor
  · intro hcorrect
    by_contra hcov
    have hone : ¬ ∀ x ∈ found, x.updates = 1 := fun h => hcov (.inl h)
    have htotal : found.length < total found :=
      lt_of_le_of_ne (length_le_total hupdates) fun heq =>
        hone (eq_one_of_total_eq_length hupdates heq.symm)
    have hne : found ≠ [] := by
      rintro rfl
      simp at htotal
    by_cases hall : found.length ≤ puts dir found
    · obtain ⟨pending, hp, hreach⟩ := reachable_puts hall (reachable_all_lookups hne)
      exact not_correct_of_zero hreach (by simp; omega) hcorrect
    · -- some of the sets have too many callbacks among themselves
      obtain ⟨l, ⟨rest, rfl⟩, hl⟩ : ∃ l, l <+: found ∧ l.length < puts dir l := by
        by_contra hno
        simp only [not_exists, not_and, not_lt] at hno
        exact hcov (.inr ⟨hno, by omega⟩)
      have hrest : rest ≠ [] := by
        rintro rfl
        simp at hall
        omega
      obtain ⟨pending, hp, hreach⟩ := reachable_puts hl (reachable_lookups l hrest)
      have hpos : 0 < rest.length := List.length_pos_iff.mpr hrest
      have hle := length_le_total fun x hx => hupdates x (List.mem_append_right l hx)
      exact not_correct_of_zero hreach (by omega) hcorrect
  · intro hcov s hreach
    have hsound := Sound.of_reachable hcov hreach
    exact ⟨hsound.held, hsound.waited⟩

/-- Three sets, one callback each. -/
theorem refCount_correct_three : Correct ["a", "b", "c"] [⟨"a", 1⟩, ⟨"b", 1⟩, ⟨"c", 1⟩] :=
  (refCount_correct_iff _ _ (by simp)).mpr (.inl (by simp))

/-- One set of two: the counter reaches zero with the second callback to come. -/
theorem not_correct_setArray : ¬ Correct ["a"] [⟨"a", 2⟩] := by
  have h : Reachable ["a"] [⟨"a", 2⟩] _ := reachable_all_lookups (List.cons_ne_nil _ _)
  obtain ⟨pending, htotal, hreach⟩ := reachable_puts (by simp) h
  simp only [total_cons, total_nil, List.length_cons, List.length_nil] at htotal
  exact not_correct_of_zero hreach (by omega)

/-- Where the directory lists all sets, no set may be called back twice. -/
theorem covered_iff_of_listed (hlisted : ∀ x ∈ found, x.name ∈ dir)
    (hupdates : ∀ x ∈ found, 1 ≤ x.updates) :
    Covered dir found ↔ ∀ x ∈ found, x.updates = 1 := by
  refine ⟨?_, .inl⟩
  rintro (h | ⟨-, hlt⟩)
  · exact h
  · have := length_le_total hupdates
    have := puts_add_strays dir found
    have hstrays : (found.filter fun x => x.name ∉ dir) = [] :=
      List.filter_eq_nil_iff.mpr fun x hx => by simpa using hlisted x hx
    have : strays dir found = 0 := by rw [strays, hstrays, total_nil]
    omega

end LdmsLs
end LdmsTest
