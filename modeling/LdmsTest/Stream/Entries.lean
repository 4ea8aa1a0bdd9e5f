import LdmsTest.Stream.Track

/-!
# The entries of the clients of a tracker

A process pairs the streams it knows with its clients: a client that matches a stream has
statistics of its own for it.  A new client is paired with the streams that match, and
`init_stream` pairs a new stream with the clients that match.  `deliver` also makes a stream known,
but it gives it only to the clients that have access.

An exception leaves what was done before it, so `deliver` is computed here with the state that it
leaves in either case, and with the deliveries that are made on the way.

* `deliverKept`: `deliver`, with what it leaves; `run_deliver` compares it with `Track.deliver`.
* `Paired`: every client that matches a known stream has an entry for it.
* `Delivery.Served`: the deliveries after which the process is still paired.
* `deliverKept_spec`: one call, with all the deliveries it makes.
* `paired_of_servedRun`: any sequence of calls.
-/

namespace LdmsTest
namespace Track

/-! ## Deliveries and what they leave -/

/-- A call of `deliver`, in the state in which it is made. -/
structure Delivery (P : Type) where
  proc : P
  stream : String
  src : LdmsAddr
  uid : Option UserKey
  gid : Option UserKey
  perm : ℕ
  /-- It is made for a process to which the stream is new, and which has more clients that match. -/
  awaited : Bool
  state : State P

/-- What a call leaves: the state, the deliveries that were made, and the exception. -/
structure Outcome (P : Type) where
  state : State P
  deliveries : List (Delivery P)
  error : Option PyError

section Model

variable {P : Type}

/-- What comes after a call that may raise. -/
def Outcome.andThen (o : Outcome P) (k : State P → Option (Outcome P)) : Option (Outcome P) :=
  match o.error with
  | some _ => some o
  | none => (k o.state).map fun o' => { o' with deliveries := o.deliveries ++ o'.deliveries }

variable [DecidableEq P] [PyRegex]

/-- One of the clients matches the stream. -/
def anyMatch (self : ProcessTrack P) (stream : String) (is : List ℕ) : Bool :=
  is.any fun i => self.ct[i]?.any fun cli => cli.matches stream

/-- The loop of `deliver` over the clients of `p`; `fresh` when the stream is new to `p`. -/
def forwardKept (rec : P → LdmsAddr → Bool → State P → Option (Outcome P)) (p : P)
    (stream : String) (bytes : ℕ) (src : LdmsAddr) (uid gid : ℤ) (perm : ℕ) (fresh awaited : Bool) :
    List ℕ → State P → Option (Outcome P)
  | [], s => some ⟨s, [], none⟩
  | i :: is, s =>
    match (s p).ct[i]? with
    | none => forwardKept rec p stream bytes src uid gid perm fresh awaited is s
    | some cli =>
      if cli.matches stream && cli.hasAccess uid gid perm then
        match cli.deliver stream bytes with
        | .error e => some ⟨s, [], some e⟩
        | .ok cli' =>
          let addr := if cli.remote.isSome && src = localAddr then (s p).addr else src
          let s' := Function.update s p { s p with ct := (s p).ct.set i cli' }
          match cli.remote with
          | none => forwardKept rec p stream bytes src uid gid perm fresh awaited is s'
          | some remote =>
            (rec remote addr (awaited || fresh && anyMatch (s p) stream is) s').bind fun o =>
              o.andThen (forwardKept rec p stream bytes src uid gid perm fresh awaited is)
      else forwardKept rec p stream bytes src uid gid perm fresh awaited is s

/-- `deliver` with what it leaves, for deliveries nested less than `n` deep. -/
def deliverKept : ℕ → Bool → P → String → ℕ → LdmsAddr → Option UserKey → Option UserKey → ℕ →
    State P → Option (Outcome P)
  | 0, _, _, _, _, _, _, _, _, _ => none
  | n + 1, awaited, p, stream, bytes, src, uid, gid, perm, s =>
    let self : Delivery P := ⟨p, stream, src, uid, gid, perm, awaited, s⟩
    match getUid (uid.getD (.id (s p).uid)) with
    | .error e => some ⟨s, [self], some e⟩
    | .ok uid =>
      match getGid (gid.getD (.id (s p).gid)) with
      | .error e => some ⟨s, [self], some e⟩
      | .ok gid =>
        let st := Dict.setdefault (s p).st stream (.init stream)
        match ((Dict.get? (s p).st stream).getD (.init stream)).recv src bytes with
        | .error e => some ⟨Function.update s p { s p with st := st }, [self], some e⟩
        | .ok track =>
          let s' := Function.update s p { s p with st := Dict.set (s p).st stream track }
          (forwardKept
            (fun remote addr awaited => deliverKept n awaited remote stream bytes addr
              (some (.id uid)) (some (.id gid)) perm)
            p stream bytes src uid gid perm (Dict.get? (s p).st stream).isNone awaited
            (List.range (s p).ct.length) s').map fun o =>
              { o with deliveries := self :: o.deliveries }

/-- What a caller sees of it. -/
def Outcome.result (o : Outcome P) : Except PyError (State P) :=
  match o.error with
  | some e => .error e
  | none => .ok o.state

omit [DecidableEq P] [PyRegex] in
theorem Outcome.result_andThen (o : Outcome P) (k : State P → Option (Outcome P)) :
    (o.andThen k).map Outcome.result =
      match o.result with
      | .error e => some (.error e)
      | .ok s => (k s).map Outcome.result := by
  rcases o with ⟨s, ds, error⟩
  cases error with
  | some e => rfl
  | none =>
    simp only [Outcome.andThen, Outcome.result, Option.map_map]
    rfl

/-- The loops agree when the deliveries to the processes behind the clients do. -/
theorem run_forward {rec : P → LdmsAddr → State P → Run PyError (State P)}
    {rec' : P → LdmsAddr → Bool → State P → Option (Outcome P)}
    (hrec : ∀ r addr awaited s, (rec r addr s).run = (rec' r addr awaited s).map Outcome.result)
    (p : P) (stream : String) (bytes : ℕ) (src : LdmsAddr) (uid gid : ℤ) (perm : ℕ)
    (fresh awaited : Bool) : ∀ (is : List ℕ) (s : State P),
      (is.foldlM (forward rec p stream bytes src uid gid perm) s).run =
        (forwardKept rec' p stream bytes src uid gid perm fresh awaited is s).map Outcome.result
  | [], s => rfl
  | i :: is, s => by
    have ih := run_forward hrec p stream bytes src uid gid perm fresh awaited is
    rw [List.foldlM_cons, forwardKept, forward]
    cases hi : (s p).ct[i]? with
    | none => exact ih s
    | some cli =>
      dsimp only
      split
      · cases hdeliver : cli.deliver stream bytes with
        | error e => rfl
        | ok cli' =>
          dsimp only
          cases hremote : cli.remote with
          | none => exact ih _
          | some r =>
            dsimp only
            rw [Run.ofExcept_ok, pure_bind]
            generalize Function.update s p _ = s'
            generalize (if (some r).isSome && src = localAddr then _ else _) = addr
            have hstep := hrec r addr (awaited || fresh && anyMatch (s p) stream is) s'
            cases ho : rec' r addr (awaited || fresh && anyMatch (s p) stream is) s' with
            | none =>
              rw [ho] at hstep
              exact Run.run_bind_of_none hstep _
            | some o =>
              rw [ho] at hstep
              rw [Option.bind_some, Outcome.result_andThen]
              cases hresult : o.result with
              | error e =>
                rw [Option.map_some, hresult] at hstep
                exact Run.run_bind_of_error hstep _
              | ok s₁ =>
                rw [Option.map_some, hresult] at hstep
                rw [Run.run_bind_of_ok hstep]
                exact ih s₁
      · exact ih s

/-- **The two computations agree** on what a caller of `deliver` sees. -/
theorem run_deliver : ∀ (n : ℕ) (awaited : Bool) (p : P) (stream : String) (bytes : ℕ)
    (src : LdmsAddr) (uid gid : Option UserKey) (perm : ℕ) (s : State P),
      (deliver n p stream bytes src uid gid perm s).run =
        (deliverKept n awaited p stream bytes src uid gid perm s).map Outcome.result
  | 0, _, _, _, _, _, _, _, _, _ => rfl
  | n + 1, awaited, p, stream, bytes, src, uid, gid, perm, s => by
    rw [deliver, deliverKept]
    cases getUid (uid.getD (.id (s p).uid)) with
    | error e => rfl
    | ok u =>
      cases getGid (gid.getD (.id (s p).gid)) with
      | error e => rfl
      | ok g =>
        dsimp only
        cases ((Dict.get? (s p).st stream).getD (.init stream)).recv src bytes with
        | error e => rfl
        | ok track =>
          simp only [Run.ofExcept_ok, pure_bind, Function.update_self, Option.map_map]
          exact run_forward (fun r addr awaited s => run_deliver n awaited r stream bytes addr
            (some (.id u)) (some (.id g)) perm s) p stream bytes src u g perm _ awaited _ _

end Model

/-! ## Entries -/

section Entries

variable {P : Type}

/-- The process knows the stream. -/
def ProcessTrack.Knows (self : ProcessTrack P) (stream : String) : Prop :=
  stream ∈ Dict.keys self.st

/-- The client has statistics for the stream. -/
def ClientTrack.HasEntry (self : ClientTrack P) (stream : String) : Prop :=
  stream ∈ Dict.keys self.streams

/-- The clients that match the stream have entries for it. -/
def ProcessTrack.PairedWith [PyRegex] (self : ProcessTrack P) (stream : String) : Prop :=
  ∀ cli ∈ self.ct, cli.matches stream → cli.HasEntry stream

/-- **The pairing.**  Every client that matches a known stream has an entry for it. -/
def ProcessTrack.Paired [PyRegex] (self : ProcessTrack P) : Prop :=
  ∀ stream, self.Knows stream → self.PairedWith stream

/-- The streams have the names under which they are kept. -/
def ProcessTrack.Named (self : ProcessTrack P) : Prop :=
  ∀ stream st, Dict.get? self.st stream = some st → st.name = stream

/-- `c'` is the client `c`, with no fewer entries. -/
structure ClientTrack.Extends (c c' : ClientTrack P) : Prop where
  pattern : c'.stats.pattern = c.stats.pattern
  isRegex : c'.stats.isRegex = c.stats.isRegex
  uid : c'.uid = c.uid
  gid : c'.gid = c.gid
  groups : c'.groups = c.groups
  entries : ∀ stream, c.HasEntry stream → c'.HasEntry stream

theorem ClientTrack.Extends.refl (self : ClientTrack P) : self.Extends self :=
  ⟨rfl, rfl, rfl, rfl, rfl, fun _ => id⟩

theorem ClientTrack.Extends.trans {c₁ c₂ c₃ : ClientTrack P} (h : c₁.Extends c₂)
    (h' : c₂.Extends c₃) : c₁.Extends c₃ :=
  ⟨h'.pattern.trans h.pattern, h'.isRegex.trans h.isRegex, h'.uid.trans h.uid,
    h'.gid.trans h.gid, h'.groups.trans h.groups,
    fun stream hs => h'.entries stream (h.entries stream hs)⟩

/-- `p'` is the process `p`, which may know one more stream, and the clients of which have no
fewer entries. -/
structure ProcessTrack.Grows (stream : String) (p p' : ProcessTrack P) : Prop where
  clients : List.Forall₂ ClientTrack.Extends p.ct p'.ct
  knows : ∀ other, p.Knows other → p'.Knows other
  only : ∀ other, p'.Knows other → p.Knows other ∨ other = stream
  named : p.Named → p'.Named

theorem forall₂_extends_refl (ct : List (ClientTrack P)) :
    List.Forall₂ ClientTrack.Extends ct ct :=
  List.forall₂_same.mpr fun cli _ => .refl cli

theorem forall₂_extends_trans {l₁ l₂ l₃ : List (ClientTrack P)}
    (h : List.Forall₂ ClientTrack.Extends l₁ l₂) (h' : List.Forall₂ ClientTrack.Extends l₂ l₃) :
    List.Forall₂ ClientTrack.Extends l₁ l₃ := by
  induction h generalizing l₃ with
  | nil =>
    cases h'
    exact .nil
  | cons hc _ ih =>
    obtain ⟨c', l', hc', hl', rfl⟩ := List.forall₂_cons_left_iff.mp h'
    exact .cons (hc.trans hc') (ih hl')

theorem ProcessTrack.Grows.refl (stream : String) (self : ProcessTrack P) :
    self.Grows stream self :=
  ⟨forall₂_extends_refl _, fun _ => id, fun _ => Or.inl, id⟩

theorem ProcessTrack.Grows.trans {stream : String} {p₁ p₂ p₃ : ProcessTrack P}
    (h : p₁.Grows stream p₂) (h' : p₂.Grows stream p₃) : p₁.Grows stream p₃ where
  clients := forall₂_extends_trans h.clients h'.clients
  knows other hk := h'.knows other (h.knows other hk)
  only other hk := (h'.only other hk).elim (h.only other) Or.inr
  named hn := h'.named (h.named hn)

variable [PyRegex]

theorem ClientTrack.Extends.matches_eq {c c' : ClientTrack P} (h : c.Extends c')
    (stream : String) : c'.matches stream = c.matches stream := by
  rw [ClientTrack.matches, h.isRegex, h.pattern, ClientTrack.matches]

omit [PyRegex] in
theorem ClientTrack.Extends.hasAccess_eq {c c' : ClientTrack P} (h : c.Extends c') (uid gid : ℤ)
    (perm : ℕ) : c'.hasAccess uid gid perm = c.hasAccess uid gid perm := by
  rw [ClientTrack.hasAccess, h.uid, h.gid, h.groups, ClientTrack.hasAccess]

/-- Clients that have entries keep them. -/
theorem ProcessTrack.PairedWith.extends {p p' : ProcessTrack P} {stream : String}
    (h : p.PairedWith stream) (hct : List.Forall₂ ClientTrack.Extends p.ct p'.ct) :
    p'.PairedWith stream := by
  intro cli' hcli' hmatch
  obtain ⟨i, hi⟩ := List.getElem?_of_mem hcli'
  obtain ⟨cli, hcli, hext⟩ := exists_left_of_forall₂ hct hi
  rw [hext.matches_eq] at hmatch
  exact hext.entries stream (h cli (List.mem_of_getElem? hcli) hmatch)

omit [PyRegex] in
theorem ClientTrack.extends_initStream (self : ClientTrack P) (stream : String) :
    self.Extends (self.initStream stream) := by
  refine ⟨rfl, rfl, rfl, rfl, rfl, fun other hother => ?_⟩
  rw [ClientTrack.HasEntry, ← Dict.isSome_get?_iff] at hother ⊢
  rw [ClientTrack.initStream, Dict.get?_setdefault]
  split
  · rfl
  · exact hother

omit [PyRegex] in
theorem ClientTrack.hasEntry_initStream (self : ClientTrack P) (stream : String) :
    (self.initStream stream).HasEntry stream := by
  rw [ClientTrack.HasEntry, ← Dict.isSome_get?_iff, ClientTrack.initStream, Dict.get?_setdefault,
    if_pos rfl]
  rfl

/-- A client that was given a message has an entry for its stream. -/
theorem ClientTrack.deliver_entry {self cli : ClientTrack P} {stream : String} {bytes : ℕ}
    (h : self.deliver stream bytes = .ok cli) : self.Extends cli ∧ cli.HasEntry stream := by
  rw [ClientTrack.deliver] at h
  split at h
  · cases h
    exact ⟨⟨rfl, rfl, rfl, rfl, rfl, fun other hother => Dict.mem_keys_set.mpr (Or.inr hother)⟩,
      Dict.mem_keys_set.mpr (Or.inl rfl)⟩
  · cases h

/-! ## New streams and new clients -/

omit [PyRegex] in
/-- The streams with one set anew, as `deliver` and `init_stream` do. -/
theorem grows_of_get? {self : ProcessTrack P} {stream : String} {track : StreamTrack}
    (htrack : (∀ st, Dict.get? self.st stream = some st → st.name = stream) →
      track.name = stream)
    {st : Dict String StreamTrack} {ct : List (ClientTrack P)}
    (hst : ∀ other, Dict.get? st other =
      if stream = other then some track else Dict.get? self.st other)
    (hct : List.Forall₂ ClientTrack.Extends self.ct ct) :
    self.Grows stream { self with st := st, ct := ct } := by
  have hknows : ∀ other, ({ self with st := st, ct := ct } : ProcessTrack P).Knows other ↔
      other = stream ∨ self.Knows other := by
    intro other
    rw [ProcessTrack.Knows, ProcessTrack.Knows, ← Dict.isSome_get?_iff, ← Dict.isSome_get?_iff,
      hst]
    split
    · next heq => exact iff_of_true rfl (Or.inl heq.symm)
    · next hne => exact ⟨Or.inr, fun h => h.resolve_left (Ne.symm hne)⟩
  refine ⟨hct, fun other hk => (hknows other).mpr (Or.inr hk),
    fun other hk => ((hknows other).mp hk).symm, fun hnamed other track' hget => ?_⟩
  change Dict.get? st other = some track' at hget
  rw [hst] at hget
  split at hget
  · next heq =>
    cases hget
    rw [htrack (hnamed stream), heq]
  · exact hnamed other track' hget

omit [PyRegex] in
theorem name_getD {self : ProcessTrack P} {stream : String}
    (h : ∀ st, Dict.get? self.st stream = some st → st.name = stream) :
    ((Dict.get? self.st stream).getD (.init stream)).name = stream := by
  cases hget : Dict.get? self.st stream with
  | none => rfl
  | some st => exact h st hget

theorem ProcessTrack.grows_initStream (self : ProcessTrack P) (stream : String) :
    self.Grows stream (self.initStream stream) := by
  refine grows_of_get? name_getD (fun other => Dict.get?_setdefault ..) ?_
  refine List.forall₂_map_right_iff.mpr (List.forall₂_same.mpr fun cli _ => ?_)
  split
  · exact cli.extends_initStream stream
  · exact .refl cli

/-- **A new stream** is paired with the clients, also if it was not new. -/
theorem ProcessTrack.pairedWith_initStream (self : ProcessTrack P) (stream : String) :
    (self.initStream stream).PairedWith stream := by
  intro cli hcli hmatch
  obtain ⟨cli', -, rfl⟩ := List.mem_map.mp hcli
  split at hmatch
  · next h =>
    rw [if_pos h]
    exact cli'.hasEntry_initStream stream
  · next h => exact absurd hmatch h

/-- A process that grows by a stream that is paired. -/
theorem ProcessTrack.Paired.grows {p p' : ProcessTrack P} {stream : String}
    (h : ∀ other, p.Knows other → other ≠ stream → p.PairedWith other)
    (hgrows : p.Grows stream p') (hstream : p'.PairedWith stream) : p'.Paired := by
  intro other hk
  by_cases heq : other = stream
  · rw [heq]
    exact hstream
  · exact (h other ((hgrows.only other hk).resolve_right heq) heq).extends hgrows.clients

theorem ClientTrack.init_stats {pattern desc : String} {isRegex : Bool}
    {dest : LdmsAddr} {remote : Option P} {uid gid : ℤ} {cli : ClientTrack P}
    (h : ClientTrack.init pattern isRegex dest desc remote uid gid = .ok cli) :
    cli.stats.pattern = pattern ∧ cli.stats.isRegex = isRegex := by
  rw [ClientTrack.init] at h
  split at h
  · cases h
  obtain ⟨groups, -, h⟩ := exists_of_bind_ok h
  cases h
  exact ⟨rfl, rfl⟩

/-- A new client that looks at a stream. -/
theorem ClientTrack.extends_look (cli : ClientTrack P) (name : String) :
    cli.Extends (if cli.matches name then cli.initStream name else cli) := by
  split
  · exact cli.extends_initStream name
  · exact .refl cli

theorem ClientTrack.extends_foldl_look : ∀ (st : Dict String StreamTrack) (cli : ClientTrack P),
    cli.Extends
      (st.foldl (fun ct s => if ct.matches s.2.name then ct.initStream s.2.name else ct) cli)
  | [], cli => .refl cli
  | s :: st, cli => (cli.extends_look s.2.name).trans (extends_foldl_look st _)

/-- The new client has entries for the streams that it matches. -/
theorem ClientTrack.hasEntry_foldl_look {stream : String} {track : StreamTrack}
    (hname : track.name = stream) : ∀ {st : Dict String StreamTrack} {cli : ClientTrack P},
      (stream, track) ∈ st → cli.matches stream →
        (st.foldl (fun ct s => if ct.matches s.2.name then ct.initStream s.2.name else ct)
          cli).HasEntry stream
  | [], _, hmem, _ => absurd hmem List.not_mem_nil
  | s :: st, cli, hmem, hmatch => by
    rw [List.foldl_cons]
    rcases List.mem_cons.mp hmem with rfl | hmem
    · refine (ClientTrack.extends_foldl_look st _).entries stream ?_
      dsimp only
      rw [hname, if_pos hmatch]
      exact cli.hasEntry_initStream stream
    · refine hasEntry_foldl_look hname hmem ?_
      rw [(cli.extends_look s.2.name).matches_eq]
      exact hmatch

/-- **A new client** is paired with the streams. -/
theorem ProcessTrack.paired_addClient {self self' : ProcessTrack P} (hself : self.Paired)
    (hnamed : self.Named) {pattern : String} {isRegex : Bool}
    {remote : Option (P × ProcessTrack P)}
    (h : self.addClient pattern isRegex remote = .ok self') : self'.Paired ∧ self'.Named := by
  rw [ProcessTrack.addClient] at h
  obtain ⟨cli, hcli, h⟩ := exists_of_bind_ok h
  split at h
  · cases h
    refine ⟨fun stream hk c hc hmatch => ?_, hnamed⟩
    rcases List.mem_append.mp hc with hc | hc
    · exact hself stream hk c hc hmatch
    · obtain rfl := List.mem_singleton.mp hc
      obtain ⟨track, htrack⟩ := Option.isSome_iff_exists.mp (Dict.isSome_get?_iff.mpr hk)
      rw [(ClientTrack.extends_foldl_look self.st cli).matches_eq] at hmatch
      exact ClientTrack.hasEntry_foldl_look (hnamed stream track htrack) (Dict.mem_of_get? htrack)
        hmatch
  · next hregex =>
    cases h
    have hgrows := ProcessTrack.grows_initStream { self with ct := self.ct ++ [cli] } pattern
    refine ⟨ProcessTrack.Paired.grows (fun other hk hne c hc hmatch => ?_) hgrows
      (ProcessTrack.pairedWith_initStream _ pattern), hgrows.named hnamed⟩
    rcases List.mem_append.mp hc with hc | hc
    · exact hself other hk c hc hmatch
    · obtain rfl := List.mem_singleton.mp hc
      obtain ⟨hpattern, hisRegex⟩ := ClientTrack.init_stats hcli
      -- a client without a regular expression matches only its own stream
      rw [ClientTrack.matches, hisRegex, if_neg hregex, hpattern] at hmatch
      exact absurd (of_decide_eq_true hmatch).symm hne

end Entries

/-! ## One call -/

section Calls

variable {P : Type} [DecidableEq P] [PyRegex]

/-- **The deliveries after which the process is still paired.**  The stream is known to it, or the
source is accepted and all clients that match have access; and a caller that waits for the
delivery to return gets its turn. -/
structure Delivery.Served (d : Delivery P) : Prop where
  accepted : d.awaited → d.src.Accepted
  reaches : ¬ (d.state d.proc).Knows d.stream →
    ∀ uid, getUid (d.uid.getD (.id (d.state d.proc).uid)) = .ok uid →
      ∀ gid, getGid (d.gid.getD (.id (d.state d.proc).gid)) = .ok gid →
        ∀ cli ∈ (d.state d.proc).ct, cli.matches d.stream →
          d.src.Accepted ∧ cli.hasAccess uid gid d.perm

/-- The processes grow by the stream, and those to which it was new are paired with it. -/
def Serves (stream : String) (s s' : State P) : Prop :=
  ∀ q, (s q).Grows stream (s' q) ∧
    ((s' q).Knows stream → (s q).Knows stream ∨ (s' q).PairedWith stream)

omit [DecidableEq P] in
theorem Serves.refl (stream : String) (s : State P) : Serves stream s s :=
  fun q => ⟨.refl stream (s q), Or.inl⟩

omit [DecidableEq P] in
theorem Serves.trans {stream : String} {s₁ s₂ s₃ : State P} (h : Serves stream s₁ s₂)
    (h' : Serves stream s₂ s₃) : Serves stream s₁ s₃ := by
  intro q
  obtain ⟨hgrows, hpaired⟩ := h q
  obtain ⟨hgrows', hpaired'⟩ := h' q
  refine ⟨hgrows.trans hgrows', fun hk => ?_⟩
  rcases hpaired' hk with hk | hdone
  · exact (hpaired hk).imp_right fun hdone => hdone.extends hgrows'.clients
  · exact Or.inr hdone

/-- A client of a process that knows the stream is replaced by one with no fewer entries. -/
theorem serves_set {stream : String} {s : State P} {p : P} {i : ℕ} {cli cli' : ClientTrack P}
    (hi : (s p).ct[i]? = some cli) (hext : cli.Extends cli') (hk : (s p).Knows stream) :
    Serves stream s (Function.update s p { s p with ct := (s p).ct.set i cli' }) := by
  intro q
  by_cases hq : q = p
  · subst hq
    rw [Function.update_self]
    refine ⟨⟨?_, fun _ => id, fun _ => Or.inl, id⟩, fun _ => Or.inl hk⟩
    refine forall₂_of_getElem? (List.length_set ..).symm fun j c c' hc hc' => ?_
    rw [List.getElem?_set] at hc'
    split at hc'
    · next heq =>
      subst heq
      obtain rfl := Option.some_inj.mp (hi.symm.trans hc)
      split at hc'
      · rwa [← Option.some_inj.mp hc']
      · cases hc'
    · rw [Option.some_inj.mp (hc.symm.trans hc')]
      exact .refl c'
  · rw [Function.update_of_ne hq]
    exact ⟨.refl stream (s q), Or.inl⟩

omit [DecidableEq P] [PyRegex] in
theorem hasEntry_of_forall₂ {ct ct' : List (ClientTrack P)}
    (h : List.Forall₂ ClientTrack.Extends ct ct') {i : ℕ} {cli cli' : ClientTrack P}
    (hi : ct[i]? = some cli) (hi' : ct'[i]? = some cli') {stream : String}
    (hentry : cli.HasEntry stream) : cli'.HasEntry stream :=
  (getElem?_of_forall₂ h i cli cli' hi hi').entries stream hentry

/-- What the loop of `deliver` does with the clients of `is`. -/
structure LoopServes (p : P) (stream : String) (fresh awaited : Bool) (is : List ℕ)
    (s : State P) (o : Outcome P) : Prop where
  serves : Serves stream s o.state
  error : awaited → o.error = none
  /-- The clients that match have entries, when the stream is new to the process. -/
  entries : fresh → ∀ i ∈ is, ∀ cli, (o.state p).ct[i]? = some cli → cli.matches stream →
    cli.HasEntry stream

omit [DecidableEq P] in
/-- A client that was served before the rest of the loop. -/
theorem LoopServes.cons {p : P} {stream : String} {fresh awaited : Bool} {i : ℕ} {is : List ℕ}
    {s s' : State P} {o : Outcome P} (h : LoopServes p stream fresh awaited is s' o)
    (hserves : Serves stream s s') {cli : ClientTrack P} (hi : (s' p).ct[i]? = some cli)
    (hentry : cli.HasEntry stream) : LoopServes p stream fresh awaited (i :: is) s o where
  serves := hserves.trans h.serves
  error := h.error
  entries hfresh := List.forall_mem_cons.mpr
    ⟨fun _ hc _ => hasEntry_of_forall₂ (h.serves p).1.clients hi hc hentry, h.entries hfresh⟩

omit [DecidableEq P] in
/-- Clients keep their rights. -/
theorem Serves.hasAccess {p : P} {stream : String} {uid gid : ℤ} {perm : ℕ} {s s' : State P}
    (h : Serves stream s s')
    (haccess : ∀ cli ∈ (s p).ct, cli.matches stream → cli.hasAccess uid gid perm) :
    ∀ cli ∈ (s' p).ct, cli.matches stream → cli.hasAccess uid gid perm := by
  intro c hc hmatch
  obtain ⟨j, hj⟩ := List.getElem?_of_mem hc
  obtain ⟨c₀, hc₀, hext⟩ := exists_left_of_forall₂ (h p).1.clients hj
  rw [hext.hasAccess_eq]
  rw [hext.matches_eq] at hmatch
  exact haccess c₀ (List.mem_of_getElem? hc₀) hmatch

omit [DecidableEq P] in
/-- Growing clients match the same streams. -/
theorem anyMatch_eq {p p' : ProcessTrack P}
    (h : List.Forall₂ ClientTrack.Extends p.ct p'.ct) (stream : String) (is : List ℕ) :
    anyMatch p stream is = anyMatch p' stream is := by
  unfold anyMatch
  refine congrArg is.any (funext fun i => ?_)
  cases hi : p.ct[i]? with
  | none =>
    rw [List.getElem?_eq_none_iff, h.length_eq, ← List.getElem?_eq_none_iff] at hi
    rw [hi]
  | some c =>
    obtain ⟨c', hc', hext⟩ := exists_right_of_forall₂ h hi
    rw [hc', Option.any_some, Option.any_some, hext.matches_eq]

omit [DecidableEq P] in
/-- A loop that an exception ends, while no client waits for it. -/
theorem loopServes_of_error {p : P} {stream : String} {fresh awaited : Bool} {is : List ℕ}
    {s : State P} {o : Outcome P} {e : PyError} (hserves : Serves stream s o.state)
    (he : o.error = some e)
    (herror : (awaited || fresh && anyMatch (s p) stream is) → o.error = none) :
    LoopServes p stream fresh awaited is s o := by
  have hnone : ¬ (awaited || fresh && anyMatch (s p) stream is) := by
    intro haw
    rw [he] at herror
    cases herror haw
  refine ⟨hserves, fun haw => absurd (Bool.or_eq_true_iff.mpr (Or.inl haw)) hnone,
    fun hfresh j hj c hc hmatch => absurd ?_ hnone⟩
  obtain ⟨c₀, hc₀, hext⟩ := exists_left_of_forall₂ (hserves p).1.clients hc
  rw [hext.matches_eq] at hmatch
  refine Bool.or_eq_true_iff.mpr (Or.inr (Bool.and_eq_true_iff.mpr ⟨hfresh, ?_⟩))
  exact List.any_eq_true.mpr ⟨j, hj, by rw [hc₀]; exact hmatch⟩

/-- **The loop of `deliver`.** -/
theorem forwardKept_spec {rec : P → LdmsAddr → Bool → State P → Option (Outcome P)}
    {stream : String}
    (hrec : ∀ {r addr awaited s o}, rec r addr awaited s = some o →
      (∀ d ∈ o.deliveries, d.Served) → Serves stream s o.state ∧ (awaited → o.error = none))
    {p : P} {bytes : ℕ} {src : LdmsAddr} {uid gid : ℤ} {perm : ℕ} {fresh awaited : Bool} :
    ∀ {is : List ℕ} {s : State P} {o : Outcome P},
      forwardKept rec p stream bytes src uid gid perm fresh awaited is s = some o →
        (∀ d ∈ o.deliveries, d.Served) → (s p).Knows stream →
          (fresh → ∀ cli ∈ (s p).ct, cli.matches stream → cli.hasAccess uid gid perm) →
            LoopServes p stream fresh awaited is s o
  | [], s, o, h, _, _, _ => by
    cases h
    exact ⟨.refl stream s, fun _ => rfl, fun _ _ hi => absurd hi List.not_mem_nil⟩
  | i :: is, s, o, h, hserved, hk, haccess => by
    rw [forwardKept] at h
    cases hi : (s p).ct[i]? with
    | none =>
      rw [hi] at h
      have hrest := forwardKept_spec hrec h hserved hk haccess
      refine ⟨hrest.serves, hrest.error, fun hfresh => List.forall_mem_cons.mpr
        ⟨fun cli hcli _ => ?_, hrest.entries hfresh⟩⟩
      obtain ⟨c, hc, -⟩ := exists_left_of_forall₂ (hrest.serves p).1.clients hcli
      rw [hi] at hc
      cases hc
    | some cli =>
      rw [hi] at h
      dsimp only at h
      split at h
      · next hgiven =>
        have hmatch := (Bool.and_eq_true_iff.mp hgiven).1
        cases hdeliver : cli.deliver stream bytes with
        | error e =>
          rw [ClientTrack.deliver, if_pos hmatch] at hdeliver
          cases hdeliver
        | ok cli' =>
          rw [hdeliver] at h
          obtain ⟨hext, hentry⟩ := ClientTrack.deliver_entry hdeliver
          have hset := serves_set hi hext hk
          dsimp only at h
          generalize hs' : Function.update s p { s p with ct := (s p).ct.set i cli' } = s' at h hset
          have hi' : (s' p).ct[i]? = some cli' := by
            rw [← hs', Function.update_self]
            exact List.getElem?_set_self (List.getElem?_eq_some_iff.mp hi).1
          have hk' := (hset p).1.knows stream hk
          cases hremote : cli.remote with
          | none =>
            rw [hremote] at h
            have hrest := forwardKept_spec hrec h hserved hk' fun hf => hset.hasAccess (haccess hf)
            exact hrest.cons hset hi' hentry
          | some r =>
            rw [hremote] at h
            dsimp only at h
            obtain ⟨o₁, ho₁, h⟩ := Option.bind_eq_some_iff.mp h
            rw [Outcome.andThen] at h
            cases he : o₁.error with
            | some e =>
              rw [he] at h
              cases h
              obtain ⟨hserves, herror⟩ := hrec ho₁ hserved
              refine (loopServes_of_error hserves he fun haw => herror ?_).cons hset hi' hentry
              rwa [← anyMatch_eq (hset p).1.clients] at haw
            | none =>
              rw [he] at h
              obtain ⟨o₂, ho₂, h⟩ := Option.map_eq_some_iff.mp h
              cases h
              obtain ⟨hserved₁, hserved₂⟩ := List.forall_mem_append.mp hserved
              have hnested := (hrec ho₁ hserved₁).1
              have hserves := hset.trans hnested
              have hrest := forwardKept_spec hrec ho₂ hserved₂ ((hserves p).1.knows stream hk)
                fun hf => hserves.hasAccess (haccess hf)
              obtain ⟨c, hc, -⟩ := exists_right_of_forall₂ (hnested p).1.clients hi'
              have hall := hrest.cons hserves hc
                (hasEntry_of_forall₂ (hnested p).1.clients hi' hc hentry)
              exact ⟨hall.serves, hall.error, hall.entries⟩
      · next hnot =>
        have hrest := forwardKept_spec hrec h hserved hk haccess
        refine ⟨hrest.serves, hrest.error, fun hfresh => List.forall_mem_cons.mpr
          ⟨fun c hc hmatch => ?_, hrest.entries hfresh⟩⟩
        have hext := getElem?_of_forall₂ (hrest.serves p).1.clients i cli c hi hc
        rw [hext.matches_eq] at hmatch
        exact absurd (Bool.and_eq_true_iff.mpr
          ⟨hmatch, haccess hfresh cli (List.mem_of_getElem? hi) hmatch⟩) hnot

omit [DecidableEq P] [PyRegex] in
theorem StreamTrack.recv_error {self : StreamTrack} {src : LdmsAddr} {bytes : ℕ} {e : PyError}
    (h : self.recv src bytes = .error e) : ¬ src.Accepted := by
  rintro hsrc
  rw [StreamTrack.recv, if_neg fun hbad => hsrc.elim hbad.1 hbad.2] at h
  cases h

omit [DecidableEq P] [PyRegex] in
theorem StreamTrack.recv_name {self track : StreamTrack} {src : LdmsAddr} {bytes : ℕ}
    (h : self.recv src bytes = .ok track) : track.name = self.name := by
  rw [StreamTrack.recv] at h
  split at h
  · cases h
  · cases h
    rfl

/-- A process that grows first, and is paired at the end if the stream was new to it. -/
theorem serves_of_loop {stream : String} {s s' : State P} {p : P} {self : ProcessTrack P}
    (hgrows : (s p).Grows stream self) (h : Serves stream (Function.update s p self) s')
    (hpaired : ¬ (s p).Knows stream → (s' p).PairedWith stream) : Serves stream s s' := by
  intro q
  obtain ⟨hgrows', hnew⟩ := h q
  by_cases hq : q = p
  · subst hq
    rw [Function.update_self] at hgrows'
    exact ⟨hgrows.trans hgrows', fun _ => or_iff_not_imp_left.mpr hpaired⟩
  · rw [Function.update_of_ne hq] at hgrows' hnew
    exact ⟨hgrows', hnew⟩

/-- **One call of `deliver`**, with the calls it makes. -/
theorem deliverKept_spec : ∀ {n : ℕ} {awaited : Bool} {p : P} {stream : String} {bytes : ℕ}
    {src : LdmsAddr} {uid gid : Option UserKey} {perm : ℕ} {s : State P} {o : Outcome P},
      deliverKept n awaited p stream bytes src uid gid perm s = some o →
        (∀ d ∈ o.deliveries, d.Served) → Serves stream s o.state ∧
          ((∃ u, getUid (uid.getD (.id (s p).uid)) = .ok u) →
            (∃ g, getGid (gid.getD (.id (s p).gid)) = .ok g) → awaited → o.error = none)
  | 0, _, _, _, _, _, _, _, _, _, _, h, _ => by cases h
  | n + 1, awaited, p, stream, bytes, src, uid, gid, perm, s, o, h, hserved => by
    rw [deliverKept] at h
    cases hu : getUid (uid.getD (.id (s p).uid)) with
    | error e =>
      rw [hu] at h
      cases h
      exact ⟨.refl stream s, fun ⟨u, hu'⟩ => by cases hu'⟩
    | ok u =>
      cases hg : getGid (gid.getD (.id (s p).gid)) with
      | error e =>
        rw [hu, hg] at h
        cases h
        exact ⟨.refl stream s, fun _ ⟨g, hg'⟩ => by cases hg'⟩
      | ok g =>
        rw [hu, hg] at h
        dsimp only at h
        cases hrecv : ((Dict.get? (s p).st stream).getD (.init stream)).recv src bytes with
        | error e =>
          rw [hrecv] at h
          cases h
          have hself := hserved _ List.mem_cons_self
          have hsrc := StreamTrack.recv_error hrecv
          refine ⟨serves_of_loop (grows_of_get? name_getD (fun other => Dict.get?_setdefault ..)
            (forall₂_extends_refl _)) (.refl stream _) fun hnew cli hcli hmatch => ?_,
            fun _ _ haw => absurd (hself.accepted haw) hsrc⟩
          dsimp only at hcli
          rw [Function.update_self] at hcli
          exact absurd (hself.reaches hnew u hu g hg cli hcli hmatch).1 hsrc
        | ok track =>
          rw [hrecv] at h
          obtain ⟨o', ho', h⟩ := Option.map_eq_some_iff.mp h
          cases h
          obtain ⟨hself, hserved⟩ := List.forall_mem_cons.mp hserved
          have hgrows : (s p).Grows stream
              { s p with st := Dict.set (s p).st stream track } :=
            grows_of_get? (fun hnamed => (StreamTrack.recv_name hrecv).trans (name_getD hnamed))
              (fun other => Dict.get?_set ..) (forall₂_extends_refl _)
          have hfresh : (Dict.get? (s p).st stream).isNone ↔ ¬ (s p).Knows stream := by
            rw [ProcessTrack.Knows, ← Dict.get?_eq_none_iff, Option.isNone_iff_eq_none]
          have hloop := forwardKept_spec (fun {r addr aw s o} hrun hd => ?_) ho' hserved ?_ ?_
          · refine ⟨?_, fun _ _ => hloop.error⟩
            refine (serves_of_loop hgrows hloop.serves fun hnew cli hcli hmatch => ?_)
            obtain ⟨j, hj⟩ := List.getElem?_of_mem hcli
            refine hloop.entries (hfresh.mpr hnew) j (List.mem_range.mpr ?_) cli hj hmatch
            have hlen := (hloop.serves p).1.clients.length_eq
            rw [Function.update_self] at hlen
            rw [hlen]
            exact (List.getElem?_eq_some_iff.mp hj).1
          · obtain ⟨hserves, herror⟩ := deliverKept_spec hrun hd
            exact ⟨hserves, herror ⟨u, getUid_getUid hu⟩ ⟨g, getGid_getGid hg⟩⟩
          · rw [Function.update_self]
            exact Dict.mem_keys_set.mpr (Or.inl rfl)
          · rw [Function.update_self]
            exact fun hf cli hcli hmatch =>
              (hself.reaches (hfresh.mp hf) u hu g hg cli hcli hmatch).2

end Calls

/-! ## Any sequence of calls -/

section Runs

variable {P : Type} [DecidableEq P] [PyRegex]

/-- A call of a method of a process. -/
inductive Method (P : Type) where
  | addClient (p : P) (pattern : String) (isRegex : Bool) (remote : Option P)
  | initStream (p : P) (stream : String)
  | deliver (p : P) (stream : String) (bytes : ℕ) (src : LdmsAddr) (uid gid : Option UserKey)
      (perm : ℕ)

/-- A call, also one that raises: what it leaves, and the deliveries that were made. -/
def invoke (n : ℕ) (s : State P) : Method P → Option (State P × List (Delivery P))
  | .addClient p pattern isRegex remote =>
    match (s p).addClient pattern isRegex (remote.map fun r => (r, s r)) with
    | .error _ => some (s, [])
    | .ok self => some (Function.update s p self, [])
  | .initStream p stream => some (Function.update s p ((s p).initStream stream), [])
  | .deliver p stream bytes src uid gid perm =>
    (deliverKept n false p stream bytes src uid gid perm s).map fun o => (o.state, o.deliveries)

/-- A sequence of calls, the deliveries of which all leave their processes paired. -/
inductive ServedRun (s₀ : State P) : State P → Prop where
  | start : ServedRun s₀ s₀
  | call {n : ℕ} {s s' : State P} {m : Method P} {ds : List (Delivery P)} (h : ServedRun s₀ s)
    (hcall : invoke n s m = some (s', ds)) (hserved : ∀ d ∈ ds, d.Served) : ServedRun s₀ s'

/-- The processes are paired, and keep their streams under their names. -/
def State.Tracked (s : State P) : Prop :=
  ∀ p, (s p).Paired ∧ (s p).Named

theorem State.Tracked.update {s : State P} (h : s.Tracked) {p : P} {self : ProcessTrack P}
    (hself : self.Paired ∧ self.Named) : State.Tracked (Function.update s p self) := by
  intro q
  by_cases hq : q = p
  · subst hq
    rwa [Function.update_self]
  · rw [Function.update_of_ne hq]
    exact h q

omit [DecidableEq P] in
theorem Serves.tracked {stream : String} {s s' : State P} (h : Serves stream s s')
    (hs : s.Tracked) : s'.Tracked := by
  intro q
  obtain ⟨hgrows, hnew⟩ := h q
  obtain ⟨hpaired, hnamed⟩ := hs q
  refine ⟨fun other hk => ?_, hgrows.named hnamed⟩
  rcases hgrows.only other hk with hk' | rfl
  · exact (hpaired other hk').extends hgrows.clients
  · exact (hnew hk).elim (fun hk' => (hpaired other hk').extends hgrows.clients) id

/-- **One call.** -/
theorem tracked_invoke {n : ℕ} {s s' : State P} {m : Method P} {ds : List (Delivery P)}
    (hs : s.Tracked) (h : invoke n s m = some (s', ds)) (hserved : ∀ d ∈ ds, d.Served) :
    s'.Tracked := by
  cases m with
  | addClient p pattern isRegex remote =>
    rw [invoke] at h
    cases hadd : (s p).addClient pattern isRegex (remote.map fun r => (r, s r)) with
    | error e =>
      rw [hadd] at h
      cases h
      exact hs
    | ok self =>
      rw [hadd] at h
      cases h
      exact hs.update (ProcessTrack.paired_addClient (hs p).1 (hs p).2 hadd)
  | initStream p stream =>
    cases h
    have hgrows := (s p).grows_initStream stream
    exact hs.update ⟨.grows (fun other hk _ => (hs p).1 other hk) hgrows
      ((s p).pairedWith_initStream stream), hgrows.named (hs p).2⟩
  | deliver p stream bytes src uid gid perm =>
    obtain ⟨o, ho, h⟩ := Option.map_eq_some_iff.mp h
    cases h
    exact (deliverKept_spec ho hserved).1.tracked hs

omit [DecidableEq P] in
/-- A process that has just started is paired. -/
theorem ProcessTrack.paired_init {addr : LdmsAddr} {uid gid : UserKey} {self : ProcessTrack P}
    (h : ProcessTrack.init addr uid gid = .ok self) : self.Paired ∧ self.Named := by
  rw [ProcessTrack.init] at h
  obtain ⟨u, -, h⟩ := exists_of_bind_ok h
  obtain ⟨g, -, h⟩ := exists_of_bind_ok h
  refine foldlM_ok_induction (I := fun p : ProcessTrack P => p.Paired ∧ p.Named)
    (fun p client p' hp hstep => ?_) ⟨fun stream hk => absurd hk List.not_mem_nil,
      fun _ _ hget => by cases hget⟩ h
  obtain ⟨p₁, hone, htwo⟩ := exists_of_bind_ok hstep
  obtain ⟨hpaired, hnamed⟩ := ProcessTrack.paired_addClient hp.1 hp.2 hone
  exact ProcessTrack.paired_addClient hpaired hnamed htwo

/-- **Every state of a run is paired**, if its deliveries are served: from processes that have
just started, each client that matches a stream of its process has an entry for it. -/
theorem paired_of_servedRun {s₀ : State P}
    (hstart : ∀ p, ∃ addr uid gid, ProcessTrack.init addr uid gid = .ok (s₀ p)) {s : State P}
    (h : ServedRun s₀ s) (p : P) : (s p).Paired := by
  suffices hs : s.Tracked from (hs p).1
  induction h with
  | start =>
    intro q
    obtain ⟨addr, uid, gid, hq⟩ := hstart q
    exact ProcessTrack.paired_init hq
  | call _ hcall hserved ih => exact tracked_invoke ih hcall hserved

end Runs

/-! ## One process -/

instance {P : Type} [PyRegex] (self : ProcessTrack P) : Decidable self.Paired :=
  inferInstanceAs (Decidable (∀ stream ∈ Dict.keys self.st, ∀ cli ∈ self.ct,
    cli.matches stream = true → stream ∈ Dict.keys cli.streams))

/-- A client has access to what all others may read. -/
theorem ClientTrack.hasAccess_of_others {P : Type} (self : ClientTrack P) (uid gid : ℤ) {perm : ℕ}
    (h : perm &&& 0o004 ≠ 0) : self.hasAccess uid gid perm := by
  rw [ClientTrack.hasAccess, decide_eq_true h, Bool.or_true]

theorem isSome_init_foo : (ProcessTrack.init (P := Unit) (pairAddr 0) (.name "foo")
    (.name "foo")).toOption.isSome := by
  decide

/-- A process of the user `foo` that has just started. -/
def fooTrack : ProcessTrack Unit :=
  (ProcessTrack.init (pairAddr ⟨0, Nat.zero_lt_two⟩) (.name "foo")
    (.name "foo")).toOption.get isSome_init_foo

theorem init_fooTrack (p : Unit) : ∃ addr uid gid,
    ProcessTrack.init addr uid gid = .ok ((fun _ => fooTrack : State Unit) p) :=
  ⟨pairAddr 0, .name "foo", .name "foo", rfl⟩

/-- A message from the user `bar`. -/
def fromBar (perm : ℕ) : Method Unit :=
  .deliver () "x" 4 localAddr (some (.name "bar")) none perm

/-- A message of a new stream that only its user may read. -/
theorem not_paired_private : ∃ s₀ s : State Unit,
    (∀ p, ∃ addr uid gid, ProcessTrack.init addr uid gid = .ok (s₀ p)) ∧
      (∃ ds, invoke 1 s₀ (fromBar 0o600) = some (s, ds)) ∧ ¬ (s ()).Paired := by
  have hrun : ∃ r, invoke 1 (fun _ => fooTrack) (fromBar 0o600) = some r := ⟨_, rfl⟩
  obtain ⟨⟨s, ds⟩, hr⟩ := hrun
  have hpaired : ∀ r ∈ invoke 1 (fun _ => fooTrack) (fromBar 0o600), ¬ (r.1 ()).Paired := by
    decide
  exact ⟨fun _ => fooTrack, s, init_fooTrack, ⟨ds, hr⟩, hpaired _ hr⟩

/-- A message of a new stream that all may read. -/
theorem paired_of_servedRun_public : ∃ s : State Unit,
    (∃ ds, invoke 1 (fun _ => fooTrack) (fromBar 0o604) = some (s, ds)) ∧ (s ()).Paired := by
  have hrun : ∃ s, invoke 1 (fun _ => fooTrack) (fromBar 0o604) = some (s,
      [⟨(), "x", localAddr, some (.name "bar"), none, 0o604, false, fun _ => fooTrack⟩]) := ⟨_, rfl⟩
  obtain ⟨s, hs⟩ := hrun
  refine ⟨s, ⟨_, hs⟩, paired_of_servedRun init_fooTrack (.call .start hs ?_) ()⟩
  refine List.forall_mem_singleton.mpr ⟨nofun, fun _ uid _ gid _ cli _ _ => ⟨Or.inl rfl, ?_⟩⟩
  exact cli.hasAccess_of_others uid gid (by decide)

end Track
end LdmsTest
