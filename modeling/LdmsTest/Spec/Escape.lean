import LdmsTest.Spec.LeftAlone

/-!
# `%%`

`%%` is a variable whose name is empty and whose value is a percent sign.  The percent signs that
it leaves are read again in the next round: two of them with a name between them are a variable.

* `escape`: a string with each percent sign doubled.
* `subVars_escape`: the first round takes the doubling back.
* `NoName`: no two percent signs have a name between them.
* `escape_iff`: when doubling writes a string that `Spec()` turns into the string.
-/

namespace LdmsTest
namespace Spec

open Val (Fields)

/-- `w.replace("%", "%%")` -/
def escape (w : String) : String :=
  String.ofList (w.toList.flatMap fun c => if c = '%' then ['%', '%'] else [c])

/-- No two percent signs have a name between them, which may be empty. -/
def NoName (w : String) : Prop :=
  ∀ pre name post, w.toList = pre ++ '%' :: (name ++ '%' :: post) → ∃ c ∈ name, ¬ isNameChar c

/-! ## The pieces of a string -/

/-- The text of a piece in the string. -/
def Piece.source : Piece → List Char
  | .text cs => cs
  | .var name => '%' :: (name.toList ++ ['%'])

/-- What has been read of a match. -/
def started : Option (List Char) → List Char
  | none => []
  | some name => '%' :: name

theorem not_isNameChar_percent : ¬ isNameChar '%' := by decide

/-- **The pieces** of a string, one after the other, are the string. -/
theorem flatMap_source_pieces (o : Option (List Char)) (cs : List Char) :
    (pieces o cs).flatMap Piece.source = started o ++ cs := by
  induction cs generalizing o with
  | nil => cases o <;> simp [pieces, Piece.source, started]
  | cons c cs ih =>
    cases o with
    | none =>
      rw [pieces]
      split
      · next hc => rw [ih, hc]; rfl
      · rw [List.flatMap_cons, ih]; rfl
    | some name =>
      rw [pieces]
      split
      · next hc =>
        rw [List.flatMap_cons, ih, hc]
        simp [Piece.source, started]
      · split
        · rw [ih]
          simp [started]
        · rw [List.flatMap_cons, ih]
          simp [Piece.source, started]

theorem var_mem_of_mem_text_cons {n : String} {cs : List Char} {ps : List Piece}
    (h : .var n ∈ .text cs :: ps) : .var n ∈ ps := by
  rcases List.mem_cons.mp h with heq | h
  · cases heq
  · exact h

/-- A match has name characters between its percent signs. -/
theorem exists_split_of_var_mem {o : Option (List Char)} {cs : List Char} {n : String}
    (ho : ∀ name, o = some name → ∀ c ∈ name, isNameChar c) (h : .var n ∈ pieces o cs) :
    ∃ pre post, started o ++ cs = pre ++ '%' :: (n.toList ++ '%' :: post) ∧
      ∀ c ∈ n.toList, isNameChar c := by
  induction cs generalizing o with
  | nil => cases o <;> simp [pieces] at h
  | cons c cs ih =>
    cases o with
    | none =>
      rw [pieces] at h
      split at h
      · next hc =>
        obtain ⟨pre, post, heq, hname⟩ := ih (by simp) h
        exact ⟨pre, post, by rw [← heq, hc]; rfl, hname⟩
      · obtain ⟨pre, post, heq, hname⟩ := ih (by simp) (var_mem_of_mem_text_cons h)
        exact ⟨c :: pre, post, congrArg (c :: ·) heq, hname⟩
    | some name =>
      have hchars := ho name rfl
      rw [pieces] at h
      split at h
      · next hc =>
        rcases List.mem_cons.mp h with heq | h
        · obtain rfl := Piece.var.inj heq
          rw [String.toList_ofList]
          exact ⟨[], cs, by rw [hc]; rfl, hchars⟩
        · obtain ⟨pre, post, heq, hname⟩ := ih (by simp) h
          refine ⟨'%' :: (name ++ c :: pre), post, ?_, hname⟩
          rw [started, List.nil_append] at heq
          rw [heq]
          simp [started]
      · split at h
        · next hc hchar =>
          have hchars' : ∀ name', some (name ++ [c]) = some name' → ∀ d ∈ name', isNameChar d := by
            rintro name' ⟨⟩ d hd
            rcases List.mem_append.mp hd with hd | hd
            · exact hchars d hd
            · rwa [List.mem_singleton.mp hd]
          obtain ⟨pre, post, heq, hname⟩ := ih hchars' h
          refine ⟨pre, post, ?_, hname⟩
          rw [← heq]
          simp [started]
        · obtain ⟨pre, post, heq, hname⟩ := ih (by simp) (var_mem_of_mem_text_cons h)
          refine ⟨'%' :: (name ++ c :: pre), post, ?_, hname⟩
          rw [started, List.nil_append] at heq
          rw [heq]
          simp [started]

/-- Name characters and a percent sign complete a match. -/
theorem pieces_some_append {name : List Char} {cs : List Char} (hcs : ∀ c ∈ cs, isNameChar c)
    (post : List Char) :
    pieces (some name) (cs ++ '%' :: post) =
      .var (String.ofList (name ++ cs)) :: pieces none post := by
  induction cs generalizing name with
  | nil => rw [List.nil_append, pieces, if_pos rfl, List.append_nil]
  | cons c cs ih =>
    obtain ⟨hc, hcs⟩ := List.forall_mem_cons.mp hcs
    have hne : c ≠ '%' := by
      rintro rfl
      exact not_isNameChar_percent hc
    rw [List.cons_append, pieces, if_neg hne, if_pos hc, ih hcs, List.append_assoc,
      List.singleton_append]

/-- Two percent signs with a name between them give a match, if not that one. -/
theorem exists_var_mem_pieces {name : List Char} (hname : ∀ c ∈ name, isNameChar c)
    (post : List Char) (o : Option (List Char)) (pre : List Char) :
    ∃ n, .var n ∈ pieces o (pre ++ '%' :: (name ++ '%' :: post)) := by
  induction pre generalizing o with
  | nil =>
    cases o with
    | none =>
      rw [List.nil_append, pieces, if_pos rfl, pieces_some_append hname]
      exact ⟨_, List.mem_cons_self⟩
    | some read =>
      rw [List.nil_append, pieces, if_pos rfl]
      exact ⟨_, List.mem_cons_self⟩
  | cons c pre ih =>
    have hskip (o' : Option (List Char)) (p : Piece) :
        ∃ n, .var n ∈ p :: pieces o' (pre ++ '%' :: (name ++ '%' :: post)) := by
      obtain ⟨n, hn⟩ := ih o'
      exact ⟨n, List.mem_cons_of_mem _ hn⟩
    rw [List.cons_append]
    cases o with
    | none =>
      rw [pieces]
      split
      · exact ih _
      · exact hskip _ _
    | some read =>
      rw [pieces]
      split
      · exact hskip _ _
      · split
        · exact ih _
        · exact hskip _ _

/-- **No name between percent signs** means no match. -/
theorem noName_iff {w : String} : NoName w ↔ references w = [] := by
  constructor
  · intro h
    refine List.eq_nil_iff_forall_not_mem.mpr fun n hn => ?_
    obtain ⟨pre, post, heq, hchars⟩ :=
      exists_split_of_var_mem (o := none) (by simp) (var_mem_pieces_iff.mpr hn)
    obtain ⟨c, hc, hnot⟩ := h pre n.toList post heq
    exact hnot (hchars c hc)
  · intro h pre name post heq
    by_contra hall
    have hname (c : Char) (hc : c ∈ name) : isNameChar c := by
      by_contra hnot
      exact hall ⟨c, hc, hnot⟩
    obtain ⟨n, hn⟩ := exists_var_mem_pieces hname post none pre
    rw [← heq, var_mem_pieces_iff, h] at hn
    cases hn

/-! ## A round of substitution -/

variable {F : Type} [PyRuntime F]

theorem subVars_eq_of_noName {w : String} (h : NoName w) (var : Env F) : subVars var w = .ok w := by
  have hmap : (pieces none w.toList).mapM (replacePiece var) =
      .ok ((pieces none w.toList).map Piece.source) := by
    refine mapM_eq_ok_iff.mpr ?_
    rw [List.forall₂_map_right_iff, List.forall₂_same]
    intro p hp
    cases p with
    | text cs => rfl
    | var n =>
      rw [var_mem_pieces_iff, noName_iff.mp h] at hp
      cases hp
  rw [subVars, hmap]
  change Except.ok (String.ofList ((pieces none w.toList).map Piece.source).flatten) = _
  rw [← List.flatMap_def, flatMap_source_pieces]
  exact congrArg Except.ok String.ofList_toList

theorem pieces_escape (cs : List Char) :
    pieces none (cs.flatMap fun c => if c = '%' then ['%', '%'] else [c]) =
      cs.map fun c => if c = '%' then .var "" else .text [c] := by
  induction cs with
  | nil => rfl
  | cons c cs ih =>
    rw [List.flatMap_cons, List.map_cons, ← ih]
    by_cases hc : c = '%'
    · rw [if_pos hc, if_pos hc, List.cons_append, List.singleton_append, pieces, if_pos rfl,
        pieces, if_pos rfl, String.ofList_nil]
    · rw [if_neg hc, if_neg hc, List.singleton_append, pieces, if_neg hc]

/-- **The first round** puts the value of the empty name in the place of each percent sign. -/
theorem subVars_escape {var : Env F} {x : Val F} (hx : Dict.get? var "" = some x) (w : String) :
    subVars var (escape w) =
      .ok (String.ofList (w.toList.flatMap fun c => if c = '%' then x.toStr.toList else [c])) := by
  have hmap : (w.toList.map fun c => if c = '%' then Piece.var "" else .text [c]).mapM
      (replacePiece var) = .ok (w.toList.map fun c => if c = '%' then x.toStr.toList else [c]) := by
    refine mapM_eq_ok_iff.mpr ?_
    rw [List.forall₂_map_left_iff, List.forall₂_map_right_iff, List.forall₂_same]
    intro c _
    split
    · rw [replacePiece, lookup, hx]
      rfl
    · rfl
  rw [subVars, escape, String.toList_ofList, pieces_escape, hmap, List.flatMap_def]
  rfl

/-- Where `%%` is a percent sign, the first round takes the doubling back. -/
theorem subVars_escape_percent {var : Env F} (h : Dict.get? var "" = some (.str "%"))
    (w : String) : subVars var (escape w) = .ok w := by
  have hsame (c : Char) : (if c = '%' then (Val.str (F := F) "%").toStr.toList else [c]) = [c] := by
    split
    · next hc =>
      rw [hc]
      show "%".toList = ['%']
      decide
    · rfl
  rw [subVars_escape h]
  simp only [hsame]
  rw [List.flatMap_singleton', String.ofList_toList]

theorem settlesAt_of_subVars {var : Env F} {s t u : String} (hs : subVars var s = .ok t)
    (ht : SettlesAt var t u) : SettlesAt var s u := by
  by_cases hne : t = s
  · exact hne ▸ ht
  · exact ⟨.next (nextLevel_eq_some_iff.mpr ⟨hs, hne⟩) ht.1, ht.2⟩

theorem settlesAt_self {var : Env F} {s : String} (hs : subVars var s = .ok s) :
    SettlesAt var s s :=
  ⟨.here (nextLevel_eq_none_iff.mpr (Or.inl hs)), hs⟩

theorem returns_substStr_iff {var : Env F} {s t : String} :
    Returns (fun n => substStr n var s) t ↔ SettlesAt var s t := by
  constructor
  · intro h
    obtain ⟨u, hu⟩ := levelVerdict_eq_pass_iff.mp ((substStr_has var s).returns_iff.mp ⟨t, h⟩)
    rwa [h.unique hu.returns]
  · exact SettlesAt.returns

/-- **Where `%%` is a percent sign**, the string comes out exactly if another round leaves it. -/
theorem returns_escape_iff {var : Env F} (h : Dict.get? var "" = some (.str "%")) {w : String} :
    Returns (fun n => substStr n var (escape w)) w ↔ subVars var w = .ok w := by
  rw [returns_substStr_iff]
  constructor
  · exact fun hset => hset.2
  · exact fun hfix => settlesAt_of_subVars (subVars_escape_percent h w) (settlesAt_self hfix)

/-- The piece is a match. -/
def Piece.isVar : Piece → Bool
  | .text _ => false
  | .var _ => true

/-- A round that makes one character of each match makes the string shorter by one at least for
each. -/
theorem length_flatten_add_countP {ps : List Piece} {css : List (List Char)}
    (h : List.Forall₂ (fun p cs => cs.length + (if p.isVar then 1 else 0) ≤ p.source.length)
      ps css) :
    css.flatten.length + ps.countP Piece.isVar ≤ (ps.flatMap Piece.source).length := by
  induction h with
  | nil => exact le_rfl
  | cons hp _ ih =>
    rw [List.flatten_cons, List.flatMap_cons, List.length_append, List.length_append,
      List.countP_cons]
    omega

theorem exists_of_subVars_ok {var : Env F} {s t : String} (h : subVars var s = .ok t) :
    ∃ css, List.Forall₂ (fun p cs => replacePiece var p = .ok cs) (pieces none s.toList) css ∧
      css.flatten = t.toList := by
  rw [subVars] at h
  cases hmap : (pieces none s.toList).mapM (replacePiece var) with
  | error e => rw [hmap] at h; cases h
  | ok css =>
    rw [hmap] at h
    refine ⟨css, mapM_eq_ok_iff.mp hmap, ?_⟩
    rw [← Except.ok.inj h, String.toList_ofList]

/-- **A match does not stay**, where no name but the empty one has a value. -/
theorem subVars_ne_self {var : Env F} (hempty : Dict.get? var "" = some (.str "%")) {w : String}
    (hother : ∀ n ∈ references w, n ≠ "" → Dict.get? var n = none) (hw : references w ≠ []) :
    subVars var w ≠ .ok w := by
  intro hfix
  have hall (n : String) (hn : n ∈ references w) : n = "" := by
    by_contra hne
    obtain ⟨e, he⟩ := exists_subVars_error hn (hother n hn hne)
    rw [he] at hfix
    cases hfix
  obtain ⟨css, hcss, hflat⟩ := exists_of_subVars_ok hfix
  have hshort := length_flatten_add_countP <|
    ((List.forall₂_and_left (p := (· ∈ pieces none w.toList)) _ _).mpr
      ⟨fun _ hp => hp, hcss⟩).imp fun p cs ⟨hp, hcs⟩ => by
    cases p with
    | text ds =>
      cases hcs
      exact le_rfl
    | var n =>
      obtain rfl := hall n (var_mem_pieces_iff.mp hp)
      have hpercent : replacePiece var (.var "") = .ok ['%'] := by
        rw [replacePiece, lookup, hempty]
        show Except.ok "%".toList = _
        exact congrArg Except.ok (by decide)
      cases hpercent.symm.trans hcs
      simp [Piece.source, Piece.isVar]
  rw [flatMap_source_pieces, hflat, started, List.nil_append] at hshort
  obtain ⟨n, hn⟩ := List.exists_mem_of_ne_nil _ hw
  have hpos : 0 < (pieces none w.toList).countP Piece.isVar :=
    List.countP_pos_iff.mpr ⟨_, var_mem_pieces_iff.mpr hn, rfl⟩
  omega

/-! ## Places of a spec -/

/-- The string stands at a place of the expanded spec, outside of `templates`. -/
structure StandsAt (spec e : Fields F) (k : String) (p : List Step) (s : String) : Prop where
  wf : (Val.dict spec).WF
  expands : Returns (fun n => startExpand n spec) e
  outside : k ≠ "templates"
  valueAt_eq : valueAt (.dict e) (.key k :: p) = some (.str s)

/-- **`Spec()` turns the string at the place into `t`**: the substitution of the string returns `t`
there, and so the result has `t` there, if `Spec()` returns. -/
structure Produces (spec e : Fields F) (k : String) (p : List Step) (s t : String) : Prop where
  substStr : ∀ var, IsScope var e k p → Returns (fun n => substStr n var s) t
  specInit : ∀ r, Returns (fun n => specInit n spec) r →
    valueAt (.dict r) (.key k :: p) = some (.str t)

theorem StandsAt.produces {spec e : Fields F} {k : String} {p : List Step} {s t : String}
    (h : StandsAt spec e k p s) (hset : ∀ var, IsScope var e k p → SettlesAt var s t) :
    Produces spec e k p s t := by
  refine ⟨fun var hvar => (hset var hvar).returns, fun r hr => ?_⟩
  obtain ⟨e', he', hsubst⟩ := exists_of_returns_specInit h.wf hr
  obtain rfl := h.expands.unique he'
  have hewf := (isExpansion_of_returns h.wf he').wf h.wf
  obtain ⟨u, var, hu, hvar, hset'⟩ :=
    (isSubstitution_of_returns hsubst).exists_valueAt hewf h.outside h.valueAt_eq
  rw [hu, hset'.unique (hset var hvar)]

theorem StandsAt.exists_isScope {spec e : Fields F} {k : String} {p : List Step} {s : String}
    (h : StandsAt spec e k p s) : ∃ var, IsScope var e k p := by
  have hewf := (isExpansion_of_returns h.wf h.expands).wf h.wf
  have hat := h.valueAt_eq
  cases hv : Dict.get? e k with
  | none => rw [valueAt_dict_of_none hv] at hat; cases hat
  | some v =>
    rw [valueAt_dict hv] at hat
    obtain ⟨var, -, hscope⟩ := exists_site_of_valueAt (topScope e) (hewf.of_get? hv) hat
    refine ⟨var, fun name => ?_⟩
    rw [hscope, get?_topScope hewf.nodup_keys, meaning, hv, Option.elim_some]

/-- A spec with the string at its top level, under a key that is no name. -/
def alone (s : String) : Fields F :=
  [(" ", .str s)]

/-- A spec with the string in an object that makes `%%` empty. -/
def shadowed (s : String) : Fields F :=
  [("o", .dict [("", .str ""), ("s", .str s)])]

theorem standsAt_alone (s : String) : StandsAt (F := F) (alone s) (alone s) " " [] s where
  wf := Val.isWF_iff.mp rfl
  expands := (startExpand_has (alone s)).returns_of_run (m := 1) rfl
  outside := by decide
  valueAt_eq := rfl

theorem standsAt_shadowed (s : String) :
    StandsAt (F := F) (shadowed s) (shadowed s) "o" [.key "s"] s where
  wf := Val.isWF_iff.mp rfl
  expands := (startExpand_has (shadowed s)).returns_of_run (m := 1) rfl
  outside := by decide
  valueAt_eq := rfl

omit [PyRuntime F] in
theorem meaning_alone (s : String) {n : String} (h : n ≠ " ") :
    meaning (F := F) (alone s) " " [] n = if n = "" then some (.str "%") else none := by
  have hattr : attr (F := F) (alone s) n = none := by
    rw [attr, alone, Dict.get?_cons, if_neg h.symm]
    rfl
  rw [meaning, hattr]
  rfl

omit [PyRuntime F] in
theorem meaning_shadowed (s : String) :
    meaning (F := F) (shadowed s) "o" [.key "s"] "" = some (.str "") :=
  rfl

/-! ## When doubling is an escape -/

theorem isNameChar_of_mem_references {w n : String} (hn : n ∈ references w) :
    ∀ c ∈ n.toList, isNameChar c := by
  obtain ⟨-, -, -, hchars⟩ :=
    exists_split_of_var_mem (o := none) (by simp) (var_mem_pieces_iff.mpr hn)
  exact hchars

/-- A string with a name between percent signs does not come out, where it stands alone. -/
theorem noName_of_produces_alone {w : String}
    (h : Produces (F := F) (alone (escape w)) (alone (escape w)) " " [] (escape w) w) :
    NoName w := by
  obtain ⟨var, hvar⟩ := (standsAt_alone (F := F) (escape w)).exists_isScope
  have hempty : Dict.get? var "" = some (.str "%") := by
    rw [hvar, meaning_alone _ (by decide), if_pos rfl]
  have hfix := (returns_escape_iff hempty).mp (h.substStr var hvar)
  rw [noName_iff]
  by_contra hw
  refine subVars_ne_self hempty (fun n hn hne => ?_) hw hfix
  have hspace : n ≠ " " := by
    rintro rfl
    exact absurd (isNameChar_of_mem_references hn ' ' (by decide)) (by decide)
  rw [hvar, meaning_alone _ hspace, if_neg hne]

/-- A string with a percent sign does not come out, where `%%` is empty. -/
theorem notMem_of_produces_shadowed {w : String}
    (h : Produces (F := F) (shadowed (escape w)) (shadowed (escape w)) "o" [.key "s"]
      (escape w) w) : '%' ∉ w.toList := by
  obtain ⟨var, hvar⟩ := (standsAt_shadowed (F := F) (escape w)).exists_isScope
  have hempty : Dict.get? var "" = some (.str "") := by rw [hvar, meaning_shadowed]
  have hfirst := subVars_escape hempty w
  generalize hcs : (w.toList.flatMap fun c =>
    if c = '%' then (Val.str (F := F) "").toStr.toList else [c]) = cs at hfirst
  have hno : '%' ∉ cs := by
    rw [← hcs, List.mem_flatMap]
    rintro ⟨c, -, hc⟩
    split at hc
    · exact absurd hc (List.not_mem_nil)
    · next hne => exact hne (List.mem_singleton.mp hc).symm
  have hset : SettlesAt var (escape w) (String.ofList cs) :=
    settlesAt_of_subVars hfirst
      (settlesAt_self (subVars_eq_of_notMem (by rwa [String.toList_ofList]) var))
  rw [(returns_substStr_iff.mp (h.substStr var hvar)).unique hset, String.toList_ofList]
  exact hno

theorem escape_of_notMem {w : String} (h : '%' ∉ w.toList) : escape w = w := by
  have hsame : (w.toList.flatMap fun c => if c = '%' then ['%', '%'] else [c]) = w.toList := by
    refine (List.flatMap_congr fun c hc => if_neg ?_).trans (List.flatMap_singleton' _)
    rintro rfl
    exact h hc
  rw [escape, hsame, String.ofList_toList]

/-- **When doubling the percent signs is an escape.**  It writes `w`, whatever is in scope, exactly
if `w` has no percent sign.  Where `%%` is a percent sign, it does exactly if no two percent signs of
`w` have a name between them. -/
theorem escape_iff (F : Type) [PyRuntime F] (w : String) :
    ((∀ (spec e : Fields F) (k : String) (p : List Step), StandsAt spec e k p (escape w) →
        Produces spec e k p (escape w) w) ↔ '%' ∉ w.toList) ∧
      ((∀ (spec e : Fields F) (k : String) (p : List Step), StandsAt spec e k p (escape w) →
        meaning e k p "" = some (.str "%") → Produces spec e k p (escape w) w) ↔ NoName w) := by
  refine ⟨⟨fun h => ?_, fun h spec e k p hat => ?_⟩, fun h => ?_, fun h spec e k p hat hempty => ?_⟩
  · exact notMem_of_produces_shadowed (h _ _ _ _ (standsAt_shadowed (escape w)))
  · refine hat.produces fun var _ => ?_
    rw [escape_of_notMem h]
    exact settlesAt_self (subVars_eq_of_notMem h var)
  · refine noName_of_produces_alone (h _ _ _ _ (standsAt_alone (escape w)) ?_)
    rw [meaning_alone _ (by decide), if_pos rfl]
  · refine hat.produces fun var hvar => ?_
    exact settlesAt_of_subVars (subVars_escape_percent ((hvar "").trans hempty) w)
      (settlesAt_self (subVars_eq_of_noName h var))

/-- A spec with a variable, and its name between doubled percent signs. -/
def named : Fields Empty :=
  [("x", .str "hello"), ("s", .str (escape "%x%"))]

/-- The text between the percent signs is read as a name: `%%x%%` does not write `%x%`. -/
theorem not_produces_named :
    StandsAt named named "s" [] (escape "%x%") ∧ meaning named "s" [] "" = some (.str "%") ∧
      ¬ Produces named named "s" [] (escape "%x%") "%x%" ∧
      ∃ r, Returns (fun n => specInit n named) r ∧
        valueAt (.dict r) [.key "s"] = some (.str "hello") := by
  have hat : StandsAt named named "s" [] (escape "%x%") :=
    ⟨by decide, (startExpand_has named).returns_of_run (m := 1) rfl, by decide, rfl⟩
  have hr : Returns (fun n => specInit n named)
      [("x", .str "hello"), ("s", .str "hello")] :=
    (exists_has_specInit named).choose_spec.returns_of_run (m := 1) rfl
  refine ⟨hat, rfl, fun h => ?_, _, hr, rfl⟩
  have hs := h.specInit _ hr
  exact absurd (Val.str.inj (Option.some_inj.mp hs)) (by decide)

end Spec
end LdmsTest
