import LdmsTest.Python.Value
import Mathlib.Data.List.Infix

/-!
# Commands on a terminal

`icmd` writes a command to a terminal, reads until the terminal is idle to get rid of the echo,
presses ENTER, and reads until what it has ends with the prompt.  It gives up after `retry` idle
reads in a row.

A terminal answers with reads, and where one ends and the next begins is up to it.  As the prompt is
looked for after every read, an answer with the prompt in it can look complete too early.

* `Tty`, `flush`, `collect`, `icmd`: the terminal and the function of the source.
* `Splits`: an answer, split into reads.
* `collect_spec`: the loop stops at a prefix of the answer that ends with the prompt.
* `icmd_iff`: when every way to split the answer gives the output of the command.
-/

namespace LdmsTest
namespace Icmd

/-! ## The function -/

/-- A terminal, as what its next reads return; after these it is idle. -/
abbrev Tty := List (List Char)

/-- `while tty.read(idle_timeout = idle_timeout) != '': continue` -/
def flush : Tty → Tty
  | [] => []
  | [] :: tty => tty
  | (_ :: _) :: tty => flush tty

/-- The second loop of `icmd`, with `count` and what is in `sio`: the text it ends with and the
terminal after it. -/
def collect (retry : ℕ) (prompt : List Char) : ℕ → List Char → Tty →
    Option (List Char × Tty)
  | count, sio, [] =>
    -- all reads are idle from here on
    if count < retry ∧ prompt <:+ sio then some (sio, []) else none
  | count, sio, o :: tty =>
    if count < retry then
      let count := if o.length ≠ 0 then 0 else count + 1
      let sio := sio ++ o
      if prompt <:+ sio then some (sio, tty) else collect retry prompt count sio tty
    else none

/-- `o[2 : -len(prompt)]` -/
def strip (prompt o : List Char) : List Char :=
  let stop := if prompt.length = 0 then 0 else o.length - prompt.length
  (o.take stop).drop 2

/-- `icmd(tty, cmd, prompt, retry)`, on a terminal that answers to what is written with reads. -/
def icmd (answer : List Char → Tty) (tty : Tty) (cmd prompt : List Char) (retry : ℕ) :
    Except PyError (List Char × Tty) :=
  let tty := flush (tty ++ answer cmd)
  match collect retry prompt 0 [] (tty ++ answer ['\n']) with
  | none =>
    throw ⟨.runtimeError, "Command '" ++ String.ofList cmd ++ "` not responding"⟩
  | some (o, tty) => pure (strip prompt o, tty)

/-! ## Answers -/

/-- Before each part of an answer there are fewer than `retry` idle reads, the first of which
follow on `k` others. -/
def Paced (retry : ℕ) : ℕ → Tty → Prop
  | _, [] => True
  | k, [] :: tty => Paced retry (k + 1) tty
  | k, (_ :: _) :: tty => k < retry ∧ Paced retry 0 tty

/-- **A way to split a text** into reads. -/
structure Splits (retry : ℕ) (text : List Char) (tty : Tty) : Prop where
  text_eq : tty.flatten = text
  paced : Paced retry 0 tty

/-- The echoed newline, the output of the command, and the prompt. -/
def answerOf (output prompt : List Char) : List Char :=
  '\r' :: '\n' :: (output ++ prompt)

/-- However the terminal splits the answer, `icmd` returns the output. -/
def ReturnsOutput (output prompt : List Char) (retry : ℕ) : Prop :=
  ∀ answer cmd, [] ∉ answer cmd → Splits retry (answerOf output prompt) (answer ['\n']) →
    ∃ tty, icmd answer [] cmd prompt retry = .ok (output, tty)

theorem flush_eq_nil : ∀ {tty : Tty}, [] ∉ tty → flush tty = []
  | [], _ => rfl
  | [] :: _, h => absurd List.mem_cons_self h
  | (c :: o) :: tty, h => by
    rw [flush]
    exact flush_eq_nil fun hmem => h (List.mem_cons_of_mem _ hmem)

/-- While there is more to come, the loop has not given up. -/
theorem Paced.lt {retry : ℕ} : ∀ {k : ℕ} {tty : Tty}, Paced retry k tty → tty.flatten ≠ [] →
    k < retry
  | _, [], _, hne => absurd rfl hne
  | _, [] :: _, h, hne => Nat.lt_of_succ_lt (Paced.lt h hne)
  | _, (_ :: _) :: _, h, _ => h.1

/-- **The loop** stops at a prefix of the text that ends with the prompt. -/
theorem collect_spec {retry : ℕ} {prompt text : List Char} (htext : prompt <:+ text) :
    ∀ {k : ℕ} {sio : List Char} {tty : Tty}, sio ++ tty.flatten = text → tty.flatten ≠ [] →
      Paced retry k tty → ∃ o rest, collect retry prompt k sio tty = some (o, rest) ∧
        o <+: text ∧ prompt <:+ o
  | _, _, [], _, hne, _ => absurd rfl hne
  | k, sio, o :: tty, heq, hne, hpaced => by
    rw [List.flatten_cons, ← List.append_assoc] at heq
    rw [collect, if_pos (hpaced.lt hne)]
    by_cases hend : prompt <:+ sio ++ o
    · rw [if_pos hend]
      exact ⟨sio ++ o, tty, rfl, ⟨tty.flatten, heq⟩, hend⟩
    · rw [if_neg hend]
      refine collect_spec htext heq (fun hnil => hend ?_) ?_
      · rw [hnil, List.append_nil] at heq
        rwa [heq]
      · cases o with
        | nil => exact hpaced
        | cons c o => exact hpaced.2

/-! ## What is returned -/

@[simp] theorem strip_nil (o : List Char) : strip [] o = [] := by
  rw [strip, List.length_nil, if_pos rfl, List.take_zero, List.drop_nil]

theorem length_strip {prompt : List Char} (hprompt : prompt ≠ []) (o : List Char) :
    (strip prompt o).length = o.length - prompt.length - 2 := by
  have hpos := List.length_pos_iff.mpr hprompt
  rw [strip, if_neg hpos.ne', List.length_drop, List.length_take]
  omega

theorem length_answerOf (output prompt : List Char) :
    (answerOf output prompt).length = output.length + prompt.length + 2 := by
  rw [answerOf, List.length_cons, List.length_cons, List.length_append]

/-- What is left of a whole answer is the output. -/
theorem strip_answerOf {prompt : List Char} (hprompt : prompt ≠ []) (output : List Char) :
    strip prompt (answerOf output prompt) = output := by
  have hpos := List.length_pos_iff.mpr hprompt
  have hstop : (answerOf output prompt).length - prompt.length = ('\r' :: '\n' :: output).length := by
    rw [length_answerOf, List.length_cons, List.length_cons]
    omega
  rw [strip, if_neg hpos.ne', hstop]
  change (List.take _ (('\r' :: '\n' :: output) ++ prompt)).drop 2 = output
  rw [List.take_left]
  rfl

/-- **A prefix of the answer** that ends with the prompt is returned as the output only if it is the
whole answer, or if there is no output. -/
theorem strip_eq_iff {output prompt o : List Char} (ho : o <+: answerOf output prompt) :
    strip prompt o = output ↔ output = [] ∨ prompt ≠ [] ∧ o = answerOf output prompt := by
  have hlen := ho.length_le
  rw [length_answerOf] at hlen
  by_cases hprompt : prompt = []
  · rw [hprompt, strip_nil]
    exact ⟨fun h => Or.inl h.symm, fun h => (h.resolve_right fun hand => hand.1 rfl).symm⟩
  · constructor
    · intro h
      refine or_iff_not_imp_left.mpr fun hne => ⟨hprompt, ho.eq_of_length_le ?_⟩
      have hstrip := congrArg List.length h
      have hpos := List.length_pos_iff.mpr hne
      rw [length_strip hprompt] at hstrip
      rw [length_answerOf]
      omega
    · rintro (hnil | ⟨-, rfl⟩)
      · rw [hnil, List.length_nil] at hlen
        rw [hnil, ← List.length_eq_zero_iff, length_strip hprompt]
        omega
      · exact strip_answerOf hprompt output

theorem answerOf_ne_nil (output prompt : List Char) : answerOf output prompt ≠ [] :=
  List.cons_ne_nil _ _

/-- A command, with what the loop makes of the answer. -/
theorem icmd_eq {answer : List Char → Tty} {cmd prompt : List Char} {retry : ℕ}
    (hecho : [] ∉ answer cmd) {o : List Char} {rest : Tty}
    (h : collect retry prompt 0 [] (answer ['\n']) = some (o, rest)) :
    icmd answer [] cmd prompt retry = .ok (strip prompt o, rest) := by
  rw [icmd, List.nil_append, flush_eq_nil hecho, List.nil_append, h]
  rfl

/-- An answer that is split behind a prompt inside of it. -/
theorem splits_pair {retry : ℕ} (hretry : retry ≠ 0) {p q : List Char} (hp : p ≠ [])
    (hq : q ≠ []) : Splits retry (p ++ q) [p, q] := by
  refine ⟨by rw [List.flatten_cons, List.flatten_singleton], ?_⟩
  have hpos := Nat.pos_of_ne_zero hretry
  cases p with
  | nil => exact absurd rfl hp
  | cons c p =>
    cases q with
    | nil => exact absurd rfl hq
    | cons d q => exact ⟨hpos, hpos, trivial⟩

theorem collect_pair {retry : ℕ} (hretry : retry ≠ 0) {prompt p q : List Char}
    (hend : prompt <:+ p) : collect retry prompt 0 [] [p, q] = some (p, [q]) := by
  rw [collect, if_pos (Nat.pos_of_ne_zero hretry), List.nil_append, if_pos hend]

/-- **When the output is returned** however the answer is split: if there is no output, or if no
shorter beginning of the answer ends with the prompt.  (Without a retry there is no way to split
it.) -/
theorem icmd_iff (output prompt : List Char) (retry : ℕ) :
    ReturnsOutput output prompt retry ↔
      retry = 0 ∨ output = [] ∨ ∀ p, p <+: answerOf output prompt → prompt <:+ p →
        p = answerOf output prompt := by
  have hsuffix : prompt <:+ answerOf output prompt :=
    ⟨'\r' :: '\n' :: output, rfl⟩
  constructor
  · intro h
    refine or_iff_not_imp_left.mpr fun hretry => or_iff_not_imp_left.mpr fun hne p hp hend => ?_
    by_contra hproper
    -- a beginning that is not empty, and where the answer can be split
    have hsplit : ∃ p q, p ++ q = answerOf output prompt ∧ p ≠ [] ∧ q ≠ [] ∧ prompt <:+ p := by
      obtain ⟨q, hq⟩ := hp
      by_cases hnil : p = []
      · rw [hnil, List.suffix_nil] at hend
        exact ⟨['\r'], '\n' :: (output ++ prompt), rfl, nofun, nofun,
          hend ▸ List.nil_suffix⟩
      · refine ⟨p, q, hq, hnil, ?_, hend⟩
        rintro rfl
        rw [List.append_nil] at hq
        exact hproper hq
    obtain ⟨p, q, heq, hpne, hqne, hend⟩ := hsplit
    obtain ⟨tty, hrun⟩ := h (fun s => if s = ['\n'] then [p, q] else []) [] List.not_mem_nil
      (heq ▸ splits_pair hretry hpne hqne)
    rw [icmd_eq (fun hmem => absurd hmem List.not_mem_nil) (collect_pair hretry hend)] at hrun
    have hout : strip prompt p = output := congrArg Prod.fst (Except.ok.inj hrun)
    rcases (strip_eq_iff ⟨q, heq⟩).mp hout with hnil | ⟨-, hp⟩
    · exact hne hnil
    · rw [← heq] at hp
      exact hqne (List.self_eq_append_right.mp hp)
  · intro h answer cmd hecho hsplits
    have hflat : (answer ['\n']).flatten ≠ [] := by
      rw [hsplits.text_eq]
      exact answerOf_ne_nil output prompt
    obtain ⟨o, rest, hrun, ho, hend⟩ :=
      collect_spec hsuffix ((List.nil_append _).trans hsplits.text_eq) hflat hsplits.paced
    refine ⟨rest, ?_⟩
    rw [icmd_eq hecho hrun]
    have hout : strip prompt o = output := by
      rw [strip_eq_iff ho]
      rcases h with hretry | hnil | hwhole
      · exact absurd (hsplits.paced.lt hflat) (by omega)
      · exact Or.inl hnil
      · refine Or.inr ⟨?_, hwhole o ho hend⟩
        rintro rfl
        exact answerOf_ne_nil output [] (hwhole [] List.nil_prefix List.nil_suffix).symm
    rw [hout]

/-- An output that is the prompt of Python, in reads that end with it. -/
theorem not_returnsOutput_prompt : ¬ ReturnsOutput ">>> ".toList ">>> ".toList 3 := by
  intro h
  have hsplits : Splits 3 (answerOf ">>> ".toList ">>> ".toList)
      ["\r\n>>> ".toList, ">>> ".toList] := ⟨rfl, by decide, by decide, trivial⟩
  obtain ⟨tty, hrun⟩ := h
    (fun s => if s = ['\n'] then ["\r\n>>> ".toList, ">>> ".toList] else []) []
    List.not_mem_nil hsplits
  have hempty : (icmd (fun s => if s = ['\n'] then ["\r\n>>> ".toList, ">>> ".toList] else [])
      [] [] ">>> ".toList 3).map Prod.fst = .ok [] := rfl
  rw [hrun] at hempty
  cases hempty

end Icmd
end LdmsTest
