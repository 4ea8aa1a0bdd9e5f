import LdmsTest.Foundation.Dict
import LdmsTest.Foundation.Window
import LdmsTest.Python.Value
import Mathlib.Algebra.BigOperators.Group.List.Basic
import Mathlib.Algebra.Order.Ring.Int
import Mathlib.Data.List.Sort
import Mathlib.Tactic.Ring

/-!
# Stream throughput

`ldms_qgroup_common.py` counts what the streams have carried within the last seconds, for windows
of several lengths.  The tallies form a chain from the shortest window to the longest: a datum
starts in the deque of the first one and goes on to the deque of the next one when it is too old,
while every tally counts it from the start until it is too old for that tally.

Times are exact, and the clock is an argument.  The module `ldms` is a parameter.

* `StreamThroughput`, `addData`, `tallyPrune`: the classes and methods of the source.
* `Ready`, `Pruned`: what the deques and the totals are before and after `tally_prune`.
* `exact_run`: after each call, every total is the sum over its window.
-/

namespace LdmsTest
namespace Qgroup

open Window

/-- What the module `ldms` says about a datum of a stream. -/
class LdmsData (D : Type) where
  /-- `data.name` -/
  name : D → String
  /-- `str(data.src)` -/
  src : D → String
  /-- `len(data.data)` -/
  len : D → ℕ

/-- An entry of a deque. -/
structure Entry (T D : Type) where
  ts : T
  load : ℤ
  src : String
  data : D

/-- A tally.  Its deque is in the order of arrival, and its `next_tally` is the one that follows
it in the list of the tallies. -/
structure StreamTally (T D : Type) where
  sec : T
  dq : List (Entry T D)
  tallies : Dict String ℤ
  total : ℤ

section Model

variable {T D : Type}

def StreamTally.ofSec (sec : T) : StreamTally T D :=
  ⟨sec, [], [], 0⟩

def StreamTally.tallyInc (src : String) (v : ℤ) (self : StreamTally T D) : StreamTally T D :=
  { self with
    tallies := Dict.set self.tallies src ((Dict.get? self.tallies src).getD 0 + v)
    total := self.total + v }

variable [AddCommGroup T] [LinearOrder T]

/-- The loop of `tally_prune` over the deque: the tally after it, and what it has passed on. -/
def pruneLoop (ts : T) (self : StreamTally T D) :
    List (Entry T D) → StreamTally T D × List (Entry T D)
  | [] => ({ self with dq := [] }, [])
  | e :: dq =>
    if ts ≤ e.ts + self.sec then ({ self with dq := e :: dq }, [])
    else
      let (self', passed) := pruneLoop ts (self.tallyInc e.src (-e.load)) dq
      (self', e :: passed)

/-- `tally_prune` along the chain, where `passed` is what the loop of the tally before has
appended to the first deque. -/
def tallyPrune (ts : T) : List (Entry T D) → List (StreamTally T D) → List (StreamTally T D)
  | _, [] => []
  | passed, self :: rest =>
    let (self', passed') := pruneLoop ts self (self.dq ++ passed)
    self' :: tallyPrune ts passed' rest

variable [LdmsData D]

def Entry.ofData (ts : T) (data : D) : Entry T D where
  ts := ts
  load := (LdmsData.name data).length + LdmsData.len data
  src := LdmsData.src data
  data := data

/-- `add_data` of the first tally of the chain. -/
def addData (ts : T) (data : D) : List (StreamTally T D) → List (StreamTally T D)
  | [] => []
  | self :: rest =>
    let e := Entry.ofData ts data
    tallyPrune ts []
      ({ self with dq := self.dq ++ [e] }.tallyInc e.src e.load ::
        rest.map (StreamTally.tallyInc e.src e.load))

/-- A `StreamThroughput`: its windows, and the chain of its tallies. -/
structure StreamThroughput (T D : Type) where
  secs : List T
  tallies : List (StreamTally T D)

def StreamThroughput.init (secs : List T) : Except PyError (StreamThroughput T D) :=
  match secs.insertionSort (· ≤ ·) with
  | [] => throw ⟨.indexError, "list index out of range"⟩
  | sec :: secs => pure ⟨sec :: secs, (sec :: secs).map StreamTally.ofSec⟩

/-- A call of a method of `StreamThroughput`, with the time. -/
inductive Call (T D : Type) where
  | addData : T → D → Call T D
  | tallyPrune : T → Call T D

def Call.time : Call T D → T
  | .addData ts _ => ts
  | .tallyPrune ts => ts

/-- The datum that a call adds. -/
def Call.entry : Call T D → Option (Entry T D)
  | .addData ts data => some (.ofData ts data)
  | .tallyPrune _ => none

def StreamThroughput.call (self : StreamThroughput T D) : Call T D → StreamThroughput T D
  | .addData ts data => { self with tallies := addData ts data self.tallies }
  | .tallyPrune ts => { self with tallies := tallyPrune ts [] self.tallies }

def StreamThroughput.run (self : StreamThroughput T D) (calls : List (Call T D)) :
    StreamThroughput T D :=
  calls.foldl StreamThroughput.call self

/-- The data that the calls add, in the order of arrival. -/
def added (calls : List (Call T D)) : List (Entry T D) :=
  calls.filterMap Call.entry

end Model

/-! ## Counting -/

section Counting

variable {T D : Type}

/-- The sum of the loads. -/
def loads (l : List (Entry T D)) : ℤ :=
  (l.map Entry.load).sum

/-- The data of a source. -/
def ofSource (src : String) (l : List (Entry T D)) : List (Entry T D) :=
  l.filter fun e => e.src = src

/-- The totals of a tally are those of `l`, and its sources are those of `seen`. -/
structure StreamTally.Counts (t : StreamTally T D) (seen l : List (Entry T D)) : Prop where
  total : t.total = loads l
  bySource : ∀ src, Dict.get? t.tallies src =
    if src ∈ seen.map Entry.src then some (loads (ofSource src l)) else none

@[simp] theorem loads_nil : loads ([] : List (Entry T D)) = 0 := rfl

@[simp] theorem loads_cons (e : Entry T D) (l : List (Entry T D)) :
    loads (e :: l) = e.load + loads l := by
  rw [loads, List.map_cons, List.sum_cons, loads]

@[simp] theorem loads_append (l l' : List (Entry T D)) :
    loads (l ++ l') = loads l + loads l' := by
  rw [loads, List.map_append, List.sum_append, loads, loads]

theorem loads_ofSource_cons (src : String) (e : Entry T D) (l : List (Entry T D)) :
    loads (ofSource src (e :: l)) = (if e.src = src then e.load else 0) + loads (ofSource src l) := by
  by_cases h : e.src = src
  · rw [ofSource, List.filter_cons_of_pos (by simpa using h), loads_cons, if_pos h, ofSource]
  · rw [ofSource, List.filter_cons_of_neg (by simpa using h), if_neg h, zero_add, ofSource]

theorem loads_ofSource_append (src : String) (l l' : List (Entry T D)) :
    loads (ofSource src (l ++ l')) = loads (ofSource src l) + loads (ofSource src l') := by
  rw [ofSource, List.filter_append, loads_append, ofSource, ofSource]

theorem loads_ofSource_eq_zero {src : String} {l : List (Entry T D)}
    (h : src ∉ l.map Entry.src) : loads (ofSource src l) = 0 := by
  have hnil : ofSource src l = [] := by
    refine List.filter_eq_nil_iff.mpr fun e he heq => h ?_
    exact List.mem_map.mpr ⟨e, he, of_decide_eq_true heq⟩
  rw [hnil, loads_nil]

theorem StreamTally.Counts.getD {self : StreamTally T D} {seen l : List (Entry T D)}
    (h : self.Counts seen l) (hsub : l ⊆ seen) (src : String) :
    (Dict.get? self.tallies src).getD 0 = loads (ofSource src l) := by
  rw [h.bySource]
  by_cases hmem : src ∈ seen.map Entry.src
  · rw [if_pos hmem, Option.getD_some]
  · rw [if_neg hmem, Option.getD_none,
      loads_ofSource_eq_zero fun hm => hmem (List.map_subset _ hsub hm)]

/-- **Counting a new datum.** -/
theorem StreamTally.Counts.inc {self : StreamTally T D} {seen l : List (Entry T D)}
    (h : self.Counts seen l) (hsub : l ⊆ seen) (e : Entry T D) :
    (self.tallyInc e.src e.load).Counts (seen ++ [e]) (l ++ [e]) := by
  constructor
  · rw [loads_append, loads_cons, loads_nil, add_zero, ← h.total]
    rfl
  · intro src
    have hsrcs : src ∈ (seen ++ [e]).map Entry.src ↔ src ∈ seen.map Entry.src ∨ src = e.src := by
      rw [List.map_append, List.mem_append, List.map_singleton, List.mem_singleton]
    have hload : loads (ofSource src [e]) = if e.src = src then e.load else 0 := by
      rw [loads_ofSource_cons]
      exact add_zero _
    rw [StreamTally.tallyInc, Dict.get?_set, h.getD hsub, h.bySource src, loads_ofSource_append,
      hload]
    by_cases hsrc : e.src = src
    · rw [if_pos hsrc, if_pos (hsrcs.mpr (.inr hsrc.symm)), if_pos hsrc, hsrc]
    · have hiff := hsrcs.trans (or_iff_left fun heq => hsrc heq.symm)
      rw [if_neg hsrc, if_neg hsrc, add_zero]
      simp only [hiff]

/-- **Counting out the oldest datum.** -/
theorem StreamTally.Counts.dec {self : StreamTally T D} {seen l : List (Entry T D)}
    {e : Entry T D} (h : self.Counts seen (e :: l)) (he : e ∈ seen) :
    (self.tallyInc e.src (-e.load)).Counts seen l := by
  constructor
  · show self.total + -e.load = loads l
    rw [h.total, loads_cons]
    ring
  · intro src
    rw [StreamTally.tallyInc, Dict.get?_set, h.bySource e.src, h.bySource src,
      loads_ofSource_cons, loads_ofSource_cons]
    by_cases hsrc : e.src = src
    · subst hsrc
      have hmem : e.src ∈ seen.map Entry.src := List.mem_map_of_mem he
      rw [if_pos rfl, if_pos hmem, if_pos rfl, Option.getD_some, if_pos hmem]
      congr 1
      ring
    · rw [if_neg hsrc, if_neg hsrc, zero_add]

end Counting

/-! ## Pruning -/

section Pruning

variable {T D : Type} [AddCommGroup T] [LinearOrder T]

theorem pruneLoop_sec (ts : T) (self : StreamTally T D) (dq : List (Entry T D)) :
    (pruneLoop ts self dq).1.sec = self.sec := by
  induction dq generalizing self with
  | nil => rfl
  | cons e dq ih =>
    rw [pruneLoop]
    split
    · rfl
    · exact ih _

theorem sec_tallyPrune (ts : T) (passed : List (Entry T D)) (chain : List (StreamTally T D)) :
    (tallyPrune ts passed chain).map StreamTally.sec = chain.map StreamTally.sec := by
  induction chain generalizing passed with
  | nil => rfl
  | cons self rest ih =>
    rw [tallyPrune, List.map_cons, List.map_cons, pruneLoop_sec, ih]

/-- **The loop over a deque.**  It splits the deque where the data are young enough, and counts
out what it passes on. -/
theorem pruneLoop_spec {ts : T} {self : StreamTally T D} {dq seen newer : List (Entry T D)}
    (hcounts : self.Counts seen (dq ++ newer)) (hseen : dq ⊆ seen) :
    (pruneLoop ts self dq).1.dq = dq.dropWhile (fun e => ¬ Inside Entry.ts self.sec ts e) ∧
      (pruneLoop ts self dq).2 ++ (pruneLoop ts self dq).1.dq = dq ∧
      (pruneLoop ts self dq).1.Counts seen ((pruneLoop ts self dq).1.dq ++ newer) := by
  induction dq generalizing self with
  | nil => exact ⟨rfl, rfl, ⟨hcounts.total, hcounts.bySource⟩⟩
  | cons e dq ih =>
    by_cases hin : ts ≤ e.ts + self.sec
    · have heq : pruneLoop ts self (e :: dq) = ({ self with dq := e :: dq }, []) := if_pos hin
      have hdrop : (e :: dq).dropWhile (fun e => ¬ Inside Entry.ts self.sec ts e) = e :: dq :=
        List.dropWhile_cons_of_neg fun hout => of_decide_eq_true hout hin
      rw [heq, hdrop]
      exact ⟨rfl, rfl, ⟨hcounts.total, hcounts.bySource⟩⟩
    · have heq : pruneLoop ts self (e :: dq) =
          ((pruneLoop ts (self.tallyInc e.src (-e.load)) dq).1,
            e :: (pruneLoop ts (self.tallyInc e.src (-e.load)) dq).2) := if_neg hin
      have hdrop : (e :: dq).dropWhile (fun e => ¬ Inside Entry.ts self.sec ts e) =
          dq.dropWhile (fun e => ¬ Inside Entry.ts self.sec ts e) :=
        List.dropWhile_cons_of_pos (decide_eq_true hin)
      have hdec := hcounts.dec (hseen List.mem_cons_self)
      obtain ⟨hdq, hsplit, hrest⟩ := ih hdec (List.subset_of_cons_subset hseen)
      rw [heq, hdrop]
      exact ⟨hdq, congrArg (e :: ·) hsplit, hrest⟩

/-- The data that a tally counts: its own deque, and the `newer` ones of the tallies before it. -/
def StreamTally.held (self : StreamTally T D) (newer : List (Entry T D)) : List (Entry T D) :=
  self.dq ++ newer

/-- **Before pruning** at the time `ts`: the tallies count what they hold, and nothing that is
young enough is missing. -/
def Ready (ts : T) (seen : List (Entry T D)) : List (Entry T D) → List (StreamTally T D) → Prop
  | _, [] => True
  | newer, self :: rest =>
    self.held newer <:+ seen ∧
      within Entry.ts self.sec ts (self.held newer) = within Entry.ts self.sec ts seen ∧
      self.Counts seen (self.held newer) ∧ Ready ts seen (self.held newer) rest

/-- **After pruning** at the time `ts`: the tallies count and hold what is young enough. -/
def Pruned (ts : T) (seen : List (Entry T D)) : List (Entry T D) → List (StreamTally T D) → Prop
  | _, [] => True
  | newer, self :: rest =>
    self.held newer = within Entry.ts self.sec ts seen ∧
      self.Counts seen (self.held newer) ∧ Pruned ts seen (self.held newer) rest

variable [IsOrderedAddMonoid T]

/-- What pruning leaves is ready for a later one. -/
theorem Pruned.ready {ts ts' : T} {seen newer : List (Entry T D)} {chain : List (StreamTally T D)}
    (hle : ts ≤ ts') (horder : InOrder Entry.ts seen) (h : Pruned ts seen newer chain) :
    Ready ts' seen newer chain := by
  induction chain generalizing newer with
  | nil => exact trivial
  | cons self rest ih =>
    obtain ⟨hheld, hcounts, hrest⟩ := h
    refine ⟨?_, ?_, hcounts, ih hrest⟩
    · rw [hheld]
      exact within_suffix horder _ _
    · rw [hheld, within_within_of_le_time hle]

/-- **Pruning along the chain.**  What is passed on to a tally lies between its deque and what
the tallies before it keep. -/
theorem Ready.pruned {ts : T} {seen : List (Entry T D)} (horder : InOrder Entry.ts seen)
    {chain : List (StreamTally T D)} {passed newer : List (Entry T D)}
    (hsecs : (chain.map StreamTally.sec).Pairwise (· ≤ ·))
    (hnewer : ∀ self ∈ chain, within Entry.ts self.sec ts newer = newer)
    (h : Ready ts seen (passed ++ newer) chain) :
    Pruned ts seen newer (tallyPrune ts passed chain) := by
  induction chain generalizing passed newer with
  | nil => exact trivial
  | cons self rest ih =>
    obtain ⟨hsuffix, hwithin, hcounts, hrest⟩ := h
    have hheld : self.held (passed ++ newer) = (self.dq ++ passed) ++ newer :=
      (List.append_assoc ..).symm
    rw [hheld] at hsuffix hwithin hcounts hrest
    have hdq : (self.dq ++ passed).Sublist seen :=
      (List.sublist_append_left _ _).trans hsuffix.sublist
    obtain ⟨hkeep, hsplit, hcounts'⟩ := pruneLoop_spec hcounts hdq.subset
    rw [dropWhile_outside (horder.sublist hdq)] at hkeep
    have hheld' : (pruneLoop ts self (self.dq ++ passed)).1.held newer =
        within Entry.ts self.sec ts seen := by
      rw [StreamTally.held, hkeep, ← hwithin, within_append _ _ (self.dq ++ passed),
        hnewer self List.mem_cons_self]
    refine ⟨?_, hcounts', ih (List.Pairwise.of_cons hsecs) (fun t ht => ?_) ?_⟩
    · rw [hheld', pruneLoop_sec]
    · rw [hheld', within_within_of_le_sec]
      exact List.rel_of_pairwise_cons hsecs (List.mem_map_of_mem ht)
    · rw [StreamTally.held, ← List.append_assoc, hsplit]
      exact hrest

end Pruning

/-! ## Calls -/

section Calls

variable {T D : Type} [AddCommGroup T] [LinearOrder T]

theorem Ready.inc {ts : T} {seen newer : List (Entry T D)} {chain : List (StreamTally T D)}
    (h : Ready ts seen newer chain) (e : Entry T D) :
    Ready ts (seen ++ [e]) (newer ++ [e]) (chain.map (StreamTally.tallyInc e.src e.load)) := by
  induction chain generalizing newer with
  | nil => exact trivial
  | cons self rest ih =>
    obtain ⟨hsuffix, hwithin, hcounts, hrest⟩ := h
    have hheld : (self.tallyInc e.src e.load).held (newer ++ [e]) = self.held newer ++ [e] :=
      (List.append_assoc ..).symm
    rw [List.map_cons, Ready, hheld]
    refine ⟨?_, ?_, hcounts.inc hsuffix.subset e, ih hrest⟩
    · obtain ⟨older, rfl⟩ := hsuffix
      exact ⟨older, (List.append_assoc ..).symm⟩
    · rw [within_append, within_append]
      exact congrArg (· ++ _) hwithin

omit [AddCommGroup T] [LinearOrder T] in
@[simp] theorem sec_map_ofSec (secs : List T) :
    (secs.map (@StreamTally.ofSec T D)).map StreamTally.sec = secs := by
  rw [List.map_map]
  exact List.map_id secs

theorem ready_ofSec (ts : T) (secs : List T) :
    Ready ts ([] : List (Entry T D)) [] (secs.map StreamTally.ofSec) := by
  induction secs with
  | nil => exact trivial
  | cons sec secs ih =>
    exact ⟨List.suffix_rfl, rfl, ⟨rfl, fun src => (if_neg List.not_mem_nil).symm⟩, ih⟩

variable [LdmsData D]

theorem sec_addData (ts : T) (data : D) (chain : List (StreamTally T D)) :
    (addData ts data chain).map StreamTally.sec = chain.map StreamTally.sec := by
  cases chain with
  | nil => rfl
  | cons self rest =>
    rw [addData, sec_tallyPrune, List.map_cons, List.map_map]
    rfl

theorem sec_call (self : StreamThroughput T D) (c : Call T D) :
    (self.call c).tallies.map StreamTally.sec = self.tallies.map StreamTally.sec := by
  cases c with
  | addData ts data => exact sec_addData ts data _
  | tallyPrune ts => exact sec_tallyPrune ts _ _

theorem sec_run (self : StreamThroughput T D) (calls : List (Call T D)) :
    (self.run calls).tallies.map StreamTally.sec = self.tallies.map StreamTally.sec := by
  induction calls generalizing self with
  | nil => rfl
  | cons c calls ih => exact (ih _).trans (sec_call self c)

omit [AddCommGroup T] [LinearOrder T] in
theorem added_append (calls : List (Call T D)) (c : Call T D) :
    added (calls ++ [c]) = added calls ++ c.entry.toList := by
  rw [added, List.filterMap_append, added, List.filterMap_cons]
  cases c.entry <;> rfl

omit [AddCommGroup T] in
/-- The data are added in the order of the clock. -/
theorem inOrder_added {calls : List (Call T D)}
    (hclock : (calls.map Call.time).Pairwise (· ≤ ·)) : InOrder Entry.ts (added calls) := by
  refine List.Pairwise.filterMap _ (fun c c' hle e he e' he' => ?_) (List.pairwise_map.mp hclock)
  cases c <;> cases c' <;> cases he <;> cases he'
  exact hle

variable [IsOrderedAddMonoid T]

theorem Ready.addData {ts : T} {seen : List (Entry T D)} {chain : List (StreamTally T D)}
    {data : D} (horder : InOrder Entry.ts (seen ++ [.ofData ts data]))
    (hsecs : (chain.map StreamTally.sec).Pairwise (· ≤ ·)) (h : Ready ts seen [] chain) :
    Pruned ts (seen ++ [.ofData ts data]) [] (Qgroup.addData ts data chain) := by
  cases chain with
  | nil => exact trivial
  | cons self rest =>
    obtain ⟨hsuffix, hwithin, hcounts, hrest⟩ := h.inc (.ofData ts data)
    refine Ready.pruned horder ?_ (fun _ _ => rfl) ?_
    · rwa [List.map_cons, List.map_map]
    · -- the new datum stands in the first deque, and not among newer ones
      have hheld : ({ self with dq := self.dq ++ [Entry.ofData ts data] }.tallyInc
            (Entry.ofData ts data).src (Entry.ofData ts data).load).held ([] ++ []) =
          (self.tallyInc (Entry.ofData ts data).src (Entry.ofData ts data).load).held
            ([] ++ [.ofData ts data]) := List.append_nil _
      rw [Ready, hheld]
      exact ⟨hsuffix, hwithin, ⟨hcounts.total, hcounts.bySource⟩, hrest⟩

theorem Ready.call {self : StreamThroughput T D} {seen : List (Entry T D)} {c : Call T D}
    (horder : InOrder Entry.ts (seen ++ c.entry.toList))
    (hsecs : (self.tallies.map StreamTally.sec).Pairwise (· ≤ ·))
    (h : Ready c.time seen [] self.tallies) :
    Pruned c.time (seen ++ c.entry.toList) [] (self.call c).tallies := by
  cases c with
  | addData ts data => exact h.addData horder hsecs
  | tallyPrune ts =>
    have hseen : seen ++ (@Call.tallyPrune T D ts).entry.toList = seen := List.append_nil _
    rw [hseen] at horder ⊢
    exact Ready.pruned horder hsecs (fun _ _ => rfl) h

/-- **The last call of a run.** -/
theorem pruned_run_append {self : StreamThroughput T D} {secs : List T}
    (hself : self.tallies = secs.map StreamTally.ofSec) (hsecs : secs.Pairwise (· ≤ ·))
    {calls : List (Call T D)} {c : Call T D}
    (hclock : ((calls ++ [c]).map Call.time).Pairwise (· ≤ ·))
    (h : Ready c.time (added calls) [] (self.run calls).tallies) :
    Pruned c.time (added (calls ++ [c])) [] (self.run (calls ++ [c])).tallies := by
  have horder := inOrder_added hclock
  have hrun : self.run (calls ++ [c]) = (self.run calls).call c := List.foldl_append ..
  rw [added_append] at horder ⊢
  rw [hrun]
  refine h.call horder ?_
  rwa [sec_run, hself, sec_map_ofSec]

/-- **A run** leaves the tallies ready for any later call. -/
theorem ready_run {self : StreamThroughput T D} {secs : List T}
    (hself : self.tallies = secs.map StreamTally.ofSec) (hsecs : secs.Pairwise (· ≤ ·))
    (calls : List (Call T D)) {ts : T} (hclock : (calls.map Call.time ++ [ts]).Pairwise (· ≤ ·)) :
    Ready ts (added calls) [] (self.run calls).tallies := by
  induction calls using List.reverseRecOn generalizing ts with
  | nil =>
    rw [StreamThroughput.run, List.foldl_nil, hself]
    exact ready_ofSec ts secs
  | append_singleton calls c ih =>
    obtain ⟨hcalls, -, hlast⟩ := List.pairwise_append.mp hclock
    have hpruned := pruned_run_append hself hsecs hcalls (ih (by rwa [List.map_append] at hcalls))
    refine hpruned.ready ?_ (inOrder_added hcalls)
    exact hlast _ (List.mem_map_of_mem (List.mem_append_right _ List.mem_cons_self)) _
      List.mem_cons_self

/-! ## Exactness -/

omit [AddCommGroup T] [LinearOrder T] [LdmsData D] [IsOrderedAddMonoid T] in
theorem flatMap_dq_cons (self : StreamTally T D) (rest : List (StreamTally T D)) :
    (self :: rest).reverse.flatMap StreamTally.dq =
      rest.reverse.flatMap StreamTally.dq ++ self.dq := by
  rw [List.reverse_cons, List.flatMap_append, List.flatMap_singleton]

/-- What the tallies are after a call at the time `ts`, with the data added so far. -/
structure Exact (tallies : List (StreamTally T D)) (seen : List (Entry T D)) (ts : T) : Prop where
  /-- The total is the sum over the window. -/
  total : ∀ t ∈ tallies, t.total = loads (within Entry.ts t.sec ts seen)
  /-- The tallies of the sources, which are those of the data so far, are the sums over the data
  of each. -/
  bySource : ∀ t ∈ tallies, ∀ src, Dict.get? t.tallies src =
    if src ∈ seen.map Entry.src then some (loads (ofSource src (within Entry.ts t.sec ts seen)))
    else none
  /-- The deques are in the order of arrival. -/
  arrival : ∀ t ∈ tallies, t.dq.Sublist seen
  /-- A datum is held in one deque at most. -/
  once : (tallies.flatMap StreamTally.dq).Subperm seen

omit [LdmsData D] [IsOrderedAddMonoid T] in
theorem Pruned.counts {ts : T} {seen newer : List (Entry T D)} {chain : List (StreamTally T D)}
    (h : Pruned ts seen newer chain) {t : StreamTally T D} (ht : t ∈ chain) :
    t.Counts seen (within Entry.ts t.sec ts seen) := by
  induction chain generalizing newer with
  | nil => exact absurd ht List.not_mem_nil
  | cons self rest ih =>
    obtain ⟨hheld, hcounts, hrest⟩ := h
    rcases List.mem_cons.mp ht with rfl | ht
    · rwa [hheld] at hcounts
    · exact ih hrest ht

omit [LdmsData D] in
/-- **The deques side by side**, the one of the longest window first, are the latest data. -/
theorem Pruned.suffix {ts : T} {seen newer : List (Entry T D)} {chain : List (StreamTally T D)}
    (horder : InOrder Entry.ts seen) (hnewer : newer <:+ seen) (h : Pruned ts seen newer chain) :
    chain.reverse.flatMap StreamTally.dq ++ newer <:+ seen := by
  induction chain generalizing newer with
  | nil => exact hnewer
  | cons self rest ih =>
    obtain ⟨hheld, -, hrest⟩ := h
    have hsuffix : self.held newer <:+ seen := by
      rw [hheld]
      exact within_suffix horder _ _
    rw [flatMap_dq_cons, List.append_assoc]
    exact ih hsuffix hrest

omit [LdmsData D] in
theorem Pruned.exact {ts : T} {seen : List (Entry T D)} {chain : List (StreamTally T D)}
    (horder : InOrder Entry.ts seen) (h : Pruned ts seen [] chain) : Exact chain seen ts where
  total t ht := (h.counts ht).total
  bySource t ht := (h.counts ht).bySource
  arrival t ht := by
    have hsuffix := h.suffix horder (List.nil_suffix)
    rw [List.append_nil] at hsuffix
    refine List.Sublist.trans ?_ hsuffix.sublist
    exact List.sublist_flatten_of_mem (List.mem_map_of_mem (List.mem_reverse.mpr ht))
  once := by
    have hsuffix := h.suffix horder (List.nil_suffix)
    rw [List.append_nil] at hsuffix
    exact ((List.reverse_perm chain).flatMap_right _).symm.subperm.trans hsuffix.sublist.subperm

omit [AddCommGroup T] [LdmsData D] [IsOrderedAddMonoid T] in
theorem StreamThroughput.init_eq_ok {secs : List T} {self : StreamThroughput T D}
    (h : init secs = .ok self) :
    self.tallies = (secs.insertionSort (· ≤ ·)).map StreamTally.ofSec := by
  rw [init] at h
  split at h
  · cases h
  · next hsort =>
    cases h
    rw [hsort]

/-- **The throughput is exact.**  After every call of a run, the windows of the tallies are those
given, their totals and their totals of each source are the sums over the window, and their deques
hold every datum at most once, in the order of arrival. -/
theorem exact_run {secs : List T} {self : StreamThroughput T D}
    (hinit : StreamThroughput.init secs = .ok self) (calls : List (Call T D)) (c : Call T D)
    (hclock : ((calls ++ [c]).map Call.time).Pairwise (· ≤ ·)) :
    ((self.run (calls ++ [c])).tallies.map StreamTally.sec).Perm secs ∧
      Exact (self.run (calls ++ [c])).tallies (added (calls ++ [c])) c.time := by
  have hself := StreamThroughput.init_eq_ok hinit
  have hsort : (secs.insertionSort (· ≤ ·)).Pairwise (· ≤ ·) := secs.pairwise_insertionSort (· ≤ ·)
  constructor
  · rw [sec_run, hself, sec_map_ofSec]
    exact List.perm_insertionSort _ secs
  · have hready := ready_run hself hsort calls (by rwa [List.map_append] at hclock)
    exact (pruned_run_append hself hsort hclock hready).exact (inOrder_added hclock)

/-- A datum with the fields that `add_data` reads. -/
structure StreamData where
  name : String
  src : String
  data : List UInt8

instance : LdmsData StreamData where
  name := StreamData.name
  src := StreamData.src
  len data := data.data.length

/-- A throughput over five seconds and over one, without data. -/
def twoWindows : StreamThroughput ℤ StreamData :=
  ⟨[1, 5], [.ofSec 1, .ofSec 5]⟩

/-- Two sources send, and the clock passes both windows of the first datum. -/
theorem exact_run_twoWindows :
    StreamThroughput.init [5, 1] = .ok twoWindows ∧
      Exact (twoWindows.run [.addData 0 ⟨"s", "a", [1, 2]⟩, .addData 3 ⟨"s", "b", [3]⟩,
          .tallyPrune 6]).tallies
        [.ofData 0 ⟨"s", "a", [1, 2]⟩, .ofData 3 ⟨"s", "b", [3]⟩] 6 := by
  have hinit : StreamThroughput.init [5, 1] = .ok twoWindows := rfl
  exact ⟨hinit, (exact_run hinit [.addData 0 ⟨"s", "a", [1, 2]⟩, .addData 3 ⟨"s", "b", [3]⟩]
    (.tallyPrune 6) (by decide)).2⟩

end Calls

end Qgroup
end LdmsTest
