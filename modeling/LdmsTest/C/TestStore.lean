import Mathlib

/-!
# The instances of `test_store`

`open_store` keeps an instance for each key `container:schema`, and hands the same instance out
again when it is opened again.  `close_store` takes the instance out of the list and frees it.

A C string is the list of its characters.  The memory and file operations succeed, and a handle
names an allocation, so that no two allocations have the same handle.

* `openStore`, `closeStore`: the functions of the source.
* `Consistent`: what holds of the list of instances in every run.
* `safe_iff`: when the handles stay open, and differ for different containers and schemas.
-/

namespace LdmsTest
namespace TestStore

/-! ## Opening and closing -/

/-- A `ldmsd_strgp_metric`. -/
structure StrgpMetric where
  name : List Char
  type : List Char
  flags : ℤ

/-- A `test_store_inst_s`.  `path` is the path of its `file`. -/
structure Inst where
  handle : ℕ
  key : List Char
  path : List Char

structure Plugin where
  rootPath : List Char
  /-- The number of instances allocated so far. -/
  allocs : ℕ
  /-- `test_store_handle_list` -/
  insts : List Inst
  /-- The contents of the files. -/
  files : List Char → List Char

/-- `snprintf` of a text into `len` bytes, one of which ends it. -/
def snprintf (len : ℕ) (text : List Char) : List Char :=
  text.take (len - 1)

def createKey (container schema : List Char) : List Char :=
  -- : and \0
  let len := container.length + schema.length + 2
  snprintf len (container ++ ':' :: schema)

def findInst (insts : List Inst) (key : List Char) : Option Inst :=
  insts.find? fun inst => inst.key = key

def printHeader (metricList : List StrgpMetric) : List Char :=
  metricList.flatMap fun m =>
    m.name ++ ',' :: m.type ++ ',' :: (toString m.flags).toList ++ ['\n']

def headerSuffix : List Char := ".header".toList

def dataSuffix : List Char := ".data".toList

/-- `len`, which bounds the paths of `open_store`. -/
def pathLen (rootPath key : List Char) : ℕ :=
  rootPath.length + key.length + 2

def commonPath (rootPath container schema : List Char) : List Char :=
  snprintf (pathLen rootPath (createKey container schema)) (rootPath ++ '/' :: container)

/-- `header_path` and `data_path`, which differ in their suffix. -/
def filePath (suffix rootPath container schema : List Char) : List Char :=
  snprintf (pathLen rootPath (createKey container schema) + suffix.length)
    (commonPath rootPath container schema ++ '/' :: schema ++ suffix)

/-- `open_store`: the plugin afterwards, and the handle. -/
def openStore (st : Plugin) (container schema : List Char) (metricList : List StrgpMetric) :
    Plugin × ℕ :=
  let key := createKey container schema
  let headerPath := filePath headerSuffix st.rootPath container schema
  let dataPath := filePath dataSuffix st.rootPath container schema
  match findInst st.insts key with
  | some inst => (st, inst.handle)
  | none =>
    let inst : Inst := ⟨st.allocs, key, dataPath⟩
    -- both files are opened with "w"
    let files := Function.update st.files dataPath []
    let files := Function.update files headerPath (printHeader metricList)
    ({ st with allocs := st.allocs + 1, insts := inst :: st.insts, files := files }, inst.handle)

/-- `close_store`.  An instance out of the list has been freed, and nothing is said of what happens
then. -/
def closeStore (st : Plugin) : Option ℕ → Option Plugin
  | none => some st
  | some sh =>
    if sh ∈ st.insts.map Inst.handle then
      some { st with insts := st.insts.eraseP fun inst => inst.handle = sh }
    else none

/-! ## Runs -/

inductive Call where
  | openStore (container schema : List Char) (metricList : List StrgpMetric)
  | closeStore (sh : Option ℕ)

/-- What a caller has seen. -/
inductive Event where
  | opened (container schema : List Char) (handle : ℕ)
  | closed (sh : Option ℕ)
  deriving DecidableEq

/-- The handle that a call returned. -/
def Event.opens (h : ℕ) : Event → Bool
  | .opened _ _ handle => handle = h
  | .closed _ => false

def Event.closes (h : ℕ) : Event → Bool
  | .opened _ _ _ => false
  | .closed sh => sh = some h

/-- How often a handle was returned, and how often it was closed. -/
def opens (h : ℕ) (events : List Event) : ℕ :=
  events.countP (Event.opens h)

def closes (h : ℕ) (events : List Event) : ℕ :=
  events.countP (Event.closes h)

/-- The handle was returned more often than it was closed. -/
def Held (events : List Event) (h : ℕ) : Prop :=
  closes h events < opens h events

structure World where
  plugin : Plugin
  events : List Event

def World.call (w : World) : Call → Option World
  | .openStore container schema metricList =>
    let r := openStore w.plugin container schema metricList
    some ⟨r.1, w.events ++ [.opened container schema r.2]⟩
  | .closeStore sh => (closeStore w.plugin sh).map fun st => ⟨st, w.events ++ [.closed sh]⟩

/-- The plugin after `config`. -/
def World.start (rootPath : List Char) (files : List Char → List Char) : World :=
  ⟨⟨rootPath, 0, [], files⟩, []⟩

/-- A call closes nothing that the caller does not hold. -/
def Legal (w : World) : Call → Prop
  | .closeStore (some h) => Held w.events h
  | _ => True

/-- Each call is made where `P` allows it. -/
def Each (P : World → Call → Prop) : World → List Call → Prop
  | _, [] => True
  | w, c :: calls => P w c ∧ ∀ w', w.call c = some w' → Each P w' calls

/-- What the handles promise. -/
structure Kept (w : World) : Prop where
  listed : ∀ h, Held w.events h → h ∈ w.plugin.insts.map Inst.handle
  distinct : ∀ {container schema container' schema' : List Char} {h : ℕ},
    .opened container schema h ∈ w.events → .opened container' schema' h ∈ w.events →
      container = container' ∧ schema = schema'

/-- Every call is served, and the handles are kept before and after it. -/
def Safe : World → List Call → Prop
  | w, [] => Kept w
  | w, c :: calls => Kept w ∧ ∃ w', w.call c = some w' ∧ Safe w' calls

theorem Safe.kept {w : World} {calls : List Call} (h : Safe w calls) : Kept w := by
  cases calls with
  | nil => exact h
  | cons c calls => exact h.1

/-- An instance is opened for its own container and schema only, and closed when it was returned
once more than it was closed. -/
def Meets (w : World) : Call → Prop
  | .openStore container schema _ =>
    ∀ inst ∈ w.plugin.insts, inst.key = createKey container schema →
      ∀ container' schema', .opened container' schema' inst.handle ∈ w.events →
        container' = container ∧ schema' = schema
  | .closeStore (some h) => opens h w.events = closes h w.events + 1
  | .closeStore none => True

/-! ## Counting -/

@[simp] theorem opens_append_opened (h : ℕ) (events : List Event) (container schema : List Char)
    (handle : ℕ) : opens h (events ++ [.opened container schema handle]) =
      opens h events + if handle = h then 1 else 0 := by
  simp [opens, List.countP_append, List.countP_singleton, Event.opens]

@[simp] theorem closes_append_opened (h : ℕ) (events : List Event) (container schema : List Char)
    (handle : ℕ) : closes h (events ++ [.opened container schema handle]) = closes h events := by
  simp [closes, List.countP_append, Event.closes]

@[simp] theorem opens_append_closed (h : ℕ) (events : List Event) (sh : Option ℕ) :
    opens h (events ++ [.closed sh]) = opens h events := by
  simp [opens, List.countP_append, Event.opens]

@[simp] theorem closes_append_closed (h : ℕ) (events : List Event) (sh : Option ℕ) :
    closes h (events ++ [.closed sh]) = closes h events + if sh = some h then 1 else 0 := by
  simp [closes, List.countP_append, List.countP_singleton, Event.closes]

/-! ## What a call can do -/

/-- The ways a call is served. -/
theorem World.call_cases {w w' : World} {c : Call} (h : w.call c = some w') :
    (∃ container schema metricList inst, c = .openStore container schema metricList ∧
      inst ∈ w.plugin.insts ∧ inst.key = createKey container schema ∧
      w' = ⟨w.plugin, w.events ++ [.opened container schema inst.handle]⟩) ∨
    (∃ container schema metricList path files, c = .openStore container schema metricList ∧
      (∀ inst ∈ w.plugin.insts, inst.key ≠ createKey container schema) ∧
      w' = ⟨⟨w.plugin.rootPath, w.plugin.allocs + 1,
          ⟨w.plugin.allocs, createKey container schema, path⟩ :: w.plugin.insts, files⟩,
        w.events ++ [.opened container schema w.plugin.allocs]⟩) ∨
    (c = .closeStore none ∧ w' = ⟨w.plugin, w.events ++ [.closed none]⟩) ∨
    (∃ sh, c = .closeStore (some sh) ∧ sh ∈ w.plugin.insts.map Inst.handle ∧
      w' = ⟨{ w.plugin with insts := w.plugin.insts.eraseP fun inst => inst.handle = sh },
        w.events ++ [.closed (some sh)]⟩) := by
  rcases c with ⟨container, schema, metricList⟩ | (_ | sh)
  · simp only [World.call, openStore, Option.some.injEq] at h
    cases hfind : findInst w.plugin.insts (createKey container schema) with
    | some inst =>
      rw [hfind] at h
      have hkey := List.find?_some hfind
      exact .inl ⟨_, _, _, inst, rfl, List.mem_of_find?_eq_some hfind, by simpa using hkey, h.symm⟩
    | none =>
      rw [hfind] at h
      refine .inr (.inl ⟨_, _, _, _, _, rfl, fun inst hinst => ?_, h.symm⟩)
      simpa using List.find?_eq_none.mp hfind inst hinst
  · simp only [World.call, closeStore, Option.map_some, Option.some.injEq] at h
    exact .inr (.inr (.inl ⟨rfl, h.symm⟩))
  · simp only [World.call, closeStore] at h
    split at h
    · next hmem =>
      simp only [Option.map_some, Option.some.injEq] at h
      exact .inr (.inr (.inr ⟨sh, rfl, hmem, h.symm⟩))
    · simp at h

/-! ## The list of instances -/

/-- Every instance has a handle and a key of its own, and was opened by its key. -/
structure Consistent (w : World) : Prop where
  handles_nodup : (w.plugin.insts.map Inst.handle).Nodup
  keys_nodup : (w.plugin.insts.map Inst.key).Nodup
  handle_lt : ∀ inst ∈ w.plugin.insts, inst.handle < w.plugin.allocs
  opened_lt : ∀ {container schema : List Char} {h : ℕ},
    .opened container schema h ∈ w.events → h < w.plugin.allocs
  key_of : ∀ inst ∈ w.plugin.insts, ∀ {container schema : List Char},
    .opened container schema inst.handle ∈ w.events → inst.key = createKey container schema

theorem Consistent.start (rootPath : List Char) (files : List Char → List Char) :
    Consistent (World.start rootPath files) := by
  constructor <;> simp [World.start]

theorem Consistent.inst_ext {w : World} (h : Consistent w) {inst inst' : Inst}
    (hinst : inst ∈ w.plugin.insts) (hinst' : inst' ∈ w.plugin.insts)
    (hhandle : inst.handle = inst'.handle) : inst = inst' :=
  List.inj_on_of_nodup_map h.handles_nodup hinst hinst' hhandle

theorem Consistent.call {w w' : World} {c : Call} (h : Consistent w) (hcall : w.call c = some w') :
    Consistent w' := by
  obtain ⟨container, schema, metricList, inst, -, hinst, hkey, rfl⟩ |
    ⟨container, schema, metricList, path, files, -, hnone, rfl⟩ | ⟨-, rfl⟩ | ⟨sh, -, -, rfl⟩ :=
    World.call_cases hcall
  · refine ⟨h.handles_nodup, h.keys_nodup, h.handle_lt, ?_, ?_⟩
    · intro c s handle hmem
      rcases List.mem_append.mp hmem with hmem | hmem
      · exact h.opened_lt hmem
      · obtain ⟨-, -, rfl⟩ : c = container ∧ s = schema ∧ handle = inst.handle := by
          simpa using hmem
        exact h.handle_lt inst hinst
    · intro inst' hinst' c s hmem
      rcases List.mem_append.mp hmem with hmem | hmem
      · exact h.key_of inst' hinst' hmem
      · obtain ⟨rfl, rfl, heq⟩ : c = container ∧ s = schema ∧ inst'.handle = inst.handle := by
          simpa using hmem
        rw [h.inst_ext hinst' hinst heq, hkey]
  · have hfresh : ∀ inst ∈ w.plugin.insts, inst.handle ≠ w.plugin.allocs := fun inst hinst =>
      (h.handle_lt inst hinst).ne
    refine ⟨?_, ?_, ?_, ?_, ?_⟩
    · simpa using ⟨hfresh, h.handles_nodup⟩
    · simpa using ⟨hnone, h.keys_nodup⟩
    · intro inst hinst
      rcases List.mem_cons.mp hinst with rfl | hinst
      · exact Nat.lt_succ_self _
      · exact (h.handle_lt inst hinst).trans (Nat.lt_succ_self _)
    · intro c s handle hmem
      rcases List.mem_append.mp hmem with hmem | hmem
      · exact (h.opened_lt hmem).trans (Nat.lt_succ_self _)
      · obtain ⟨-, -, rfl⟩ : c = container ∧ s = schema ∧ handle = w.plugin.allocs := by
          simpa using hmem
        exact Nat.lt_succ_self _
    · intro inst hinst c s hmem
      rcases List.mem_cons.mp hinst with rfl | hinst
      · rcases List.mem_append.mp hmem with hmem | hmem
        · exact absurd (h.opened_lt hmem) (Nat.lt_irrefl _)
        · obtain ⟨rfl, rfl⟩ : c = container ∧ s = schema := by simpa using hmem
          rfl
      · rcases List.mem_append.mp hmem with hmem | hmem
        · exact h.key_of inst hinst hmem
        · obtain ⟨-, -, heq⟩ : c = container ∧ s = schema ∧ inst.handle = w.plugin.allocs := by
            simpa using hmem
          exact absurd heq (hfresh inst hinst)
  · refine ⟨h.handles_nodup, h.keys_nodup, h.handle_lt, ?_, ?_⟩
    · intro c s handle hmem
      exact h.opened_lt (by simpa using hmem)
    · intro inst hinst c s hmem
      exact h.key_of inst hinst (by simpa using hmem)
  · have hsub := List.eraseP_sublist (p := fun inst : Inst => decide (inst.handle = sh))
      (l := w.plugin.insts)
    refine ⟨h.handles_nodup.sublist (hsub.map _), h.keys_nodup.sublist (hsub.map _), ?_, ?_, ?_⟩
    · intro inst hinst
      exact h.handle_lt inst (hsub.subset hinst)
    · intro c s handle hmem
      exact h.opened_lt (by simpa using hmem)
    · intro inst hinst c s hmem
      exact h.key_of inst (hsub.subset hinst) (by simpa using hmem)

/-- Removing an instance takes its handle out of the list, and no other. -/
theorem Consistent.mem_handles_eraseP {w : World} (h : Consistent w) (sh handle : ℕ) :
    handle ∈ (w.plugin.insts.eraseP fun inst => inst.handle = sh).map Inst.handle ↔
      handle ∈ w.plugin.insts.map Inst.handle ∧ handle ≠ sh := by
  have hmap : (w.plugin.insts.eraseP fun inst => inst.handle = sh).map Inst.handle =
      (w.plugin.insts.map Inst.handle).erase sh := by
    rw [List.erase_eq_eraseP', List.eraseP_map]
    rfl
  rw [hmap, h.handles_nodup.mem_erase_iff, and_comm]

example : createKey ['a', ':', 'b'] ['c'] = createKey ['a'] ['b', ':', 'c'] := by decide

/-! ## When the handles are kept -/

/-- A call that meets the condition keeps the handles. -/
theorem Kept.call {w : World} {c : Call} (hc : Consistent w) (h : Kept w) (hlegal : Legal w c)
    (hmeets : Meets w c) : ∃ w', w.call c = some w' ∧ Kept w' := by
  obtain ⟨w', hcall⟩ : ∃ w', w.call c = some w' := by
    rcases c with ⟨container, schema, metricList⟩ | (_ | sh)
    · exact ⟨_, rfl⟩
    · exact ⟨_, rfl⟩
    · exact ⟨_, by rw [World.call, closeStore, if_pos (h.listed sh hlegal)]; rfl⟩
  refine ⟨w', hcall, ?_⟩
  obtain ⟨container, schema, metricList, inst, rfl, hinst, hkey, rfl⟩ |
    ⟨container, schema, metricList, path, files, rfl, hnone, rfl⟩ | ⟨rfl, rfl⟩ |
    ⟨sh, rfl, hsh, rfl⟩ := World.call_cases hcall
  · -- the instance is open for this container and schema already
    constructor
    · intro handle hheld
      simp only [Held, opens_append_opened, closes_append_opened] at hheld
      by_cases heq : inst.handle = handle
      · exact heq ▸ List.mem_map_of_mem hinst
      · exact h.listed handle (by simpa [Held, heq] using hheld)
    · intro c s c' s' handle hmem hmem'
      have hold := hmeets inst hinst hkey
      simp only [List.mem_append, List.mem_singleton, Event.opened.injEq] at hmem hmem'
      rcases hmem with hmem | ⟨rfl, rfl, rfl⟩ <;> rcases hmem' with hmem' | ⟨rfl, rfl, heq⟩
      · exact h.distinct hmem hmem'
      · exact hold c s (heq ▸ hmem)
      · obtain ⟨rfl, rfl⟩ := hold c' s' hmem'
        exact ⟨rfl, rfl⟩
      · exact ⟨rfl, rfl⟩
  · -- the handle is new
    constructor
    · intro handle hheld
      simp only [Held, opens_append_opened, closes_append_opened] at hheld
      rw [List.map_cons]
      by_cases heq : w.plugin.allocs = handle
      · exact heq ▸ List.mem_cons_self
      · exact List.mem_cons_of_mem _ (h.listed handle (by simpa [Held, heq] using hheld))
    · intro c s c' s' handle hmem hmem'
      simp only [List.mem_append, List.mem_singleton, Event.opened.injEq] at hmem hmem'
      rcases hmem with hmem | ⟨rfl, rfl, rfl⟩ <;> rcases hmem' with hmem' | ⟨rfl, rfl, heq⟩
      · exact h.distinct hmem hmem'
      · exact absurd (hc.opened_lt hmem) (by omega)
      · exact absurd (hc.opened_lt hmem') (Nat.lt_irrefl _)
      · exact ⟨rfl, rfl⟩
  · constructor
    · intro handle hheld
      exact h.listed handle (by simpa [Held] using hheld)
    · intro c s c' s' handle hmem hmem'
      exact h.distinct (by simpa using hmem) (by simpa using hmem')
  · -- nobody holds the handle any more
    constructor
    · intro handle hheld
      simp only [Held, opens_append_closed, closes_append_closed, Option.some.injEq] at hheld
      rw [hc.mem_handles_eraseP]
      have hlast : opens sh w.events = closes sh w.events + 1 := hmeets
      by_cases heq : sh = handle
      · subst heq
        rw [if_pos rfl] at hheld
        omega
      · rw [if_neg heq] at hheld
        exact ⟨h.listed handle hheld, Ne.symm heq⟩
    · intro c s c' s' handle hmem hmem'
      exact h.distinct (by simpa using hmem) (by simpa using hmem')

/-- A call after which the handles are kept has met the condition. -/
theorem Meets.of_kept {w w' : World} {c : Call} (hc : Consistent w) (hlegal : Legal w c)
    (hcall : w.call c = some w') (h : Kept w') : Meets w c := by
  obtain ⟨container, schema, metricList, inst, rfl, hinst, hkey, rfl⟩ |
    ⟨container, schema, metricList, path, files, rfl, hnone, rfl⟩ | ⟨rfl, rfl⟩ |
    ⟨sh, rfl, hsh, rfl⟩ := World.call_cases hcall
  · intro inst' hinst' hkey' c s hmem
    obtain rfl : inst' = inst := List.inj_on_of_nodup_map hc.keys_nodup hinst' hinst
      (hkey'.trans hkey.symm)
    exact h.distinct (List.mem_append_left _ hmem) (by simp)
  · intro inst hinst hkey
    exact absurd hkey (hnone inst hinst)
  · trivial
  · have hheld : closes sh w.events < opens sh w.events := hlegal
    by_contra hne
    -- the handle is still held, but out of the list
    have hstill : Held (w.events ++ [.closed (some sh)]) sh := by
      have : opens sh w.events ≠ closes sh w.events + 1 := hne
      simp only [Held, opens_append_closed, closes_append_closed, if_true]
      omega
    exact ((hc.mem_handles_eraseP sh sh).mp (h.listed sh hstill)).2 rfl

/-- **The handles of `test_store`** are kept in a run exactly when each call meets the condition. -/
theorem safe_iff_of_consistent {w : World} (hc : Consistent w) (h : Kept w) {calls : List Call}
    (hlegal : Each Legal w calls) : Safe w calls ↔ Each Meets w calls := by
  induction calls generalizing w with
  | nil => exact ⟨fun _ => trivial, fun _ => h⟩
  | cons c calls ih =>
    constructor
    · rintro ⟨-, w', hcall, hsafe⟩
      refine ⟨Meets.of_kept hc hlegal.1 hcall hsafe.kept, fun w'' hcall' => ?_⟩
      obtain rfl := Option.some_inj.mp (hcall.symm.trans hcall')
      exact (ih (hc.call hcall) hsafe.kept (hlegal.2 w' hcall)).mp hsafe
    · rintro ⟨hmeets, hrest⟩
      obtain ⟨w', hcall, hkept⟩ := h.call hc hlegal.1 hmeets
      exact ⟨h, w', hcall, (ih (hc.call hcall) hkept (hlegal.2 w' hcall)).mpr (hrest w' hcall)⟩

theorem Kept.start (rootPath : List Char) (files : List Char → List Char) :
    Kept (World.start rootPath files) := by
  constructor <;> simp [World.start, Held, opens, closes]

/-- **The handles of `test_store`**, in every run. -/
theorem safe_iff (rootPath : List Char) (files : List Char → List Char) (calls : List Call)
    (hlegal : Each Legal (World.start rootPath files) calls) :
    Safe (World.start rootPath files) calls ↔ Each Meets (World.start rootPath files) calls :=
  safe_iff_of_consistent (Consistent.start rootPath files) (Kept.start rootPath files) hlegal

/-- Two schemas of one container, opened and closed. -/
theorem safe_twoSchemas :
    Safe (World.start ['/', 't'] fun _ => [])
      [.openStore ['c'] ['m'] [], .openStore ['c'] ['v'] [], .closeStore (some 0),
        .closeStore (some 1)] := by
  refine (safe_iff _ _ _ ?_).mpr ?_
  · refine ⟨trivial, ?_⟩
    rintro _ ⟨⟩
    refine ⟨trivial, ?_⟩
    rintro _ ⟨⟩
    refine ⟨by unfold Legal Held; decide, ?_⟩
    rintro _ ⟨⟩
    exact ⟨by unfold Legal Held; decide, fun _ _ => trivial⟩
  · refine ⟨by simp [Meets, World.start], ?_⟩
    rintro _ ⟨⟩
    refine ⟨?_, ?_⟩
    · intro inst hinst hkey
      obtain rfl := List.mem_singleton.mp hinst
      exact absurd hkey (by decide)
    rintro _ ⟨⟩
    refine ⟨by unfold Meets; decide, ?_⟩
    rintro _ ⟨⟩
    exact ⟨by unfold Meets; decide, fun _ _ => trivial⟩

/-- A container and a schema opened twice and closed once. -/
theorem not_safe_openedTwice :
    ∃ calls, Each Legal (World.start ['/', 't'] fun _ => []) calls ∧
      ¬ Safe (World.start ['/', 't'] fun _ => []) calls := by
  refine ⟨[.openStore ['c'] ['m'] [], .openStore ['c'] ['m'] [], .closeStore (some 0)], ?_, ?_⟩
  · refine ⟨trivial, ?_⟩
    rintro _ ⟨⟩
    refine ⟨trivial, ?_⟩
    rintro _ ⟨⟩
    exact ⟨by unfold Legal Held; decide, fun _ _ => trivial⟩
  · rintro ⟨-, w₁, ⟨⟩, -, w₂, ⟨⟩, -, w₃, ⟨⟩, hkept⟩
    have hlisted := hkept.listed 0 (by unfold Held; decide)
    exact absurd hlisted (by decide)

end TestStore
end LdmsTest
