import LdmsTest.C.Arrival

/-!
# The clients of `tadad`

Python scripts and C tests send to one server.  Their datagrams arrive in any order that keeps the
order of each client.

* `clients_agree`: every client finds its test in the database, in whatever order the datagrams
  arrive.
-/

namespace LdmsTest
namespace Tada

open Sql (Cell Affinity)
open CTada (TestRun IsHexdigest)

/-! ## Clients -/

section Clients

variable {F : Type} [Json.JsonFloat F] [DecidableEq F] [Calendar] {sha256 : String → String}
  {T : Type} [DecidableEq T]

/-- A Python script, or a test of a C program. -/
inductive Party (F : Type) [Json.JsonFloat F] [DecidableEq F] [Calendar]
    (sha256 : String → String) (T : Type) [DecidableEq T] where
  | script (c : Script F)
  | test (r : TestRun sha256 T)

namespace Party

def testId : Party F sha256 T → String
  | .script c => c.testId sha256
  | .test r => r.testId

/-- The datagrams of a client. -/
def sent : Party F sha256 T → List (List UInt8)
  | .script c => (c.run sha256).2.sent
  | .test r => r.sent

/-- The rows of a client agree with what it has. -/
def Agrees : Party F sha256 T → Db F → Prop
  | .script c, db => Tada.Agrees sha256 c db
  | .test r, db => r.Agrees db

end Party

variable [Affinity F]

theorem Party.isServed (hhex : ∀ s, IsHexdigest (sha256 s)) (client : Party F sha256 T) :
    Served client.testId client.sent client.Agrees := by
  cases client with
  | script c =>
    exact ⟨fun _ => owns_of_mem_sent, fun _ => run_script (fun s => (hhex s).1) c⟩
  | test r =>
    exact ⟨fun _ => r.owns_of_mem_sent (hhex _), fun _ => CTada.run_testRun r (hhex _)⟩

variable {ι : Type} [DecidableEq ι] {clients : ι → Party F sha256 T} {s : Tadad.State F}
  {events : List (ι × List UInt8)}

/-- **Scripts and C tests find their tests in the database**, in whatever order their datagrams
arrive, the rows of the other tests are left alone, and the order does not matter. -/
theorem clients_agree (hhex : ∀ s, IsHexdigest (sha256 s))
    (hids : Function.Injective fun i => (clients i).testId) {db : Db F}
    {earlier : List (List UInt8)} (hs : Tadad.run ⟨[], db⟩ earlier = .ok s)
    (hnew : ∀ i, s.db.part (.text (clients i).testId) = Db.empty F)
    (hevents : Interleave.Interleaves (fun i => (clients i).sent) events) :
    ∃ s', Tadad.run s (events.map Prod.snd) = .ok s' ∧
      (∀ i, (clients i).Agrees (s'.db.part (.text (clients i).testId))) ∧
      (∀ c, (∀ i, Cell.text (clients i).testId ≠ c) → s'.db.part c = s.db.part c) ∧
      ∀ events', Interleave.Interleaves (fun i => (clients i).sent) events' →
        ∃ s'', Tadad.run s (events'.map Prod.snd) = .ok s'' ∧ SameRows s'.db s''.db := by
  have hempty : Tadad.Inv (⟨[], db⟩ : Tadad.State F) := by
    intro key messages h
    cases h
  exact exists_run_served_agree (fun i => (clients i).isServed hhex) hids (hempty.of_run hs) hnew
    hevents

end Clients

/-! ## A script and a C test -/

section Sample

open Json (SampleFloat)

/-- A C test with one assertion. -/
def sampleCTest (_ : Unit) : CTada.CTest where
  suiteName := "LDMSD"
  testName := "store"
  testType := "UNIT"
  testUser := "root"
  commitId := "-"
  testDesc := "d"
  logPath := none
  sendResult := true
  logResult := false
  descriptions := ["opens", "closes"]

def sampleCOps : List (CTada.Op Unit) :=
  [.start () 1, .assert () 0 true "rc == 0", .finish () 2]

def sampleStamp (ts : ℕ) (hts : ts < 253402300800) : CTada.Stamp where
  ts := ts
  sec := ⟨ts, by omega, by omega, if_pos ⟨by omega, by omega⟩⟩
  second_eq := rfl

theorem isSome_sampleCOps : (@CTada.run Unit _ sampleCTest ⟨sampleSha256, fun _ => true⟩
    (CTada.State.init sampleCTest) sampleCOps).isSome := by
  decide +kernel

def sampleTestRun : TestRun sampleSha256 Unit where
  test := sampleCTest
  canOpen _ := true
  ops := sampleCOps
  final := Option.get _ isSome_sampleCOps
  run_eq := (Option.some_get isSome_sampleCOps).symm
  t := ()
  start := sampleStamp 1 (by decide)
  finish := sampleStamp 2 (by decide)
  asserts := [⟨0, true, "rc == 0"⟩]
  calls_eq := rfl
  sends := rfl
  small := by decide
  clean := ⟨CTada.clean_of_all rfl, CTada.clean_of_all rfl, CTada.clean_of_all rfl,
    CTada.clean_of_all rfl, CTada.clean_of_all rfl, CTada.clean_of_all rfl, by
      simp only [sampleCTest, List.forall_mem_cons]
      exact ⟨CTada.clean_of_all rfl, CTada.clean_of_all rfl, by simp⟩⟩
  conds a ha c hc := by
    obtain rfl := List.mem_singleton.mp ha
    have hclean : CTada.Clean "rc == 0".toList := CTada.clean_of_all rfl
    exact (hclean c hc).2

/-- A script, and a C test. -/
def sampleParty (c : Bool) : Party SampleFloat sampleSha256 Unit :=
  if c then .test sampleTestRun else .script (sampleScript false)

/-- The C test runs between the start of the script and the rest of it. -/
def sampleArrivals : List (Bool × List UInt8) :=
  ((sampleParty false).sent.take 1).map (fun data => (false, data)) ++
    (sampleParty true).sent.map (fun data => (true, data)) ++
    ((sampleParty false).sent.drop 1).map fun data => (false, data)

theorem interleaves_sampleArrivals :
    Interleave.Interleaves (fun c => (sampleParty c).sent) sampleArrivals := by
  intro c
  rw [sampleArrivals, Interleave.proj_append, Interleave.proj_append]
  cases c with
  | false =>
    rw [Interleave.proj_map_self, Interleave.proj_map_of_ne (by decide), Interleave.proj_map_self,
      List.append_nil, List.take_append_drop]
  | true =>
    rw [Interleave.proj_map_of_ne (by decide), Interleave.proj_map_self,
      Interleave.proj_map_of_ne (by decide), List.nil_append, List.append_nil]

theorem isHexdigest_sampleSha256 (s : String) : IsHexdigest (sampleSha256 s) := by
  rw [sampleSha256]
  split <;> exact CTada.isHexdigest_of_all (by decide) rfl

theorem injective_sampleParty : Function.Injective fun c => (sampleParty c).testId := by
  intro c c'
  cases c <;> cases c' <;> decide

theorem clients_agree_sampleArrivals :
    ∃ s', Tadad.run ⟨[], Db.empty SampleFloat⟩ (sampleArrivals.map Prod.snd) = .ok s' ∧
      ∀ c, (sampleParty c).Agrees (s'.db.part (.text (sampleParty c).testId)) := by
  have hs : Tadad.run (⟨[], Db.empty SampleFloat⟩ : Tadad.State SampleFloat) [] =
      .ok ⟨[], Db.empty SampleFloat⟩ := rfl
  obtain ⟨s', hrun, hagrees, -⟩ := clients_agree isHexdigest_sampleSha256
    injective_sampleParty hs (fun _ => rfl) interleaves_sampleArrivals
  exact ⟨s', hrun, hagrees⟩

end Sample

end Tada
end LdmsTest
