import LdmsTest.Python.Text
import LdmsTest.Python.Utf8

/-!
# Messages of `test_stream_sampler`

The plugin `test_stream_sampler` dumps the messages of a stream one after the other, each between
control characters: `\x01`, the type, `\x02`, the payload, `\x03`.  `read_msg` reads one of them
from a file of text.  Nothing escapes a control character, and nothing says how long a payload is.

* `recvCb`, `dump`: what the callback of the plugin writes.
* `readMsg`: `read_msg`.
* `delivers_dump_iff`: which messages are read as they were dumped.
* `restores_iff`: when the position of the file is where a caller can try again.

`json.loads` is a parameter: what it makes of a text does not matter here.
-/

namespace LdmsTest
namespace ReadMsg

/-! ## The plugin -/

/-- `soh` -/
def soh : UInt8 := 1

/-- `stx` -/
def stx : UInt8 := 2

/-- `etx` -/
def etx : UInt8 := 3

/-- `ev->recv.type` -/
inductive StreamType where
  /-- `LDMSD_STREAM_STRING` -/
  | string
  /-- `LDMSD_STREAM_JSON` -/
  | json
  /-- any other one -/
  | other
  deriving DecidableEq

/-- What stands for a type in the dump. -/
def StreamType.name : StreamType → String
  | .string => "string"
  | .json => "json"
  | .other => "unknown"

/-- An event of a stream. -/
inductive Event where
  /-- `LDMS_STREAM_EVENT_RECV` -/
  | recv (type : StreamType) (data : List UInt8)
  /-- any other one -/
  | other

/-- `test_stream_recv_cb(ev, cb_arg)`, with what has been written to `out` -/
def recvCb (out : List UInt8) : Event → List UInt8
  | .recv type data => out ++ soh :: Codec.encode type.name ++ stx :: data ++ [etx]
  | .other => out

/-- What is in the file after these events. -/
def dump (events : List Event) : List UInt8 :=
  events.foldl recvCb []

/-! ## `read_msg` -/

/-- A file of text that is open for reading. -/
@[ext]
structure File where
  text : List Char
  pos : ℕ

/-- What is left to read. -/
def File.rest (f : File) : List Char :=
  f.text.drop f.pos

/-- `f.seek(pos)` -/
def File.seek (f : File) (pos : ℕ) : File :=
  { f with pos := pos }

/-- `f.read(1)` -/
def File.read1 (f : File) : Option Char × File :=
  match f.rest with
  | [] => (none, f)
  | c :: _ => (some c, f.seek (f.pos + 1))

/-- `c = read(1)`, and `while c and c != stop: sio.write(c); c = read(1)`: what is in `sio`, the
last `c`, and how many characters were read. -/
def scan (stop : Char) : List Char → List Char × Option Char × ℕ
  | [] => ([], none, 0)
  | c :: cs =>
    if c ≠ stop then
      let (sio, last, n) := scan stop cs
      (c :: sio, last, n + 1)
    else ([], some c, 1)

/-- `scan`, on a file -/
def File.readUntil (f : File) (stop : Char) : List Char × Option Char × File :=
  let (sio, last, n) := scan stop f.rest
  (sio, last, f.seek (f.pos + n))

/-- A message, as `read_msg` returns it. -/
structure Msg (Obj : Type) where
  type : List Char
  text : List Char
  obj : Option Obj
  deriving DecidableEq

section Read

variable {Obj : Type} (loads : List Char → Except PyError Obj)

/-- `read_msg(f)`: what it returns or raises, and the file after it. -/
def readMsg (f : File) : Except PyError (Msg Obj) × File :=
  let pos := f.pos
  let (c, f) := f.read1
  match c with
  | none => (.error ⟨.valueError, "End of file"⟩, f)
  | some c =>
    if c ≠ '\x01' then (.error ⟨.valueError, "Not a start of message"⟩, f.seek pos)
    else
      let (type, c, f) := f.readUntil '\x02'
      if c ≠ some '\x02' then (.error ⟨.valueError, "Bad message header"⟩, f.seek pos)
      else
        let (text, c, f) := f.readUntil '\x03'
        if c ≠ some '\x03' then (.error ⟨.valueError, "Incomplete message"⟩, f.seek pos)
        else
          let text := Text.stripChar '\x00' text
          if type = "json".toList then
            match loads text with
            | .ok obj => (.ok ⟨type, text, some obj⟩, f)
            | .error e => (.error e, f)
          else (.ok ⟨type, text, none⟩, f)

end Read

/-! ## What it reads -/

theorem rest_seek (f : File) (n : ℕ) : (f.seek (f.pos + n)).rest = f.rest.drop n := by
  rw [File.rest, File.rest, List.drop_drop]
  rfl

theorem read1_of_nil {f : File} (h : f.rest = []) : f.read1 = (none, f) := by
  rw [File.read1, h]

theorem read1_of_cons {f : File} {c : Char} {cs : List Char} (h : f.rest = c :: cs) :
    f.read1 = (some c, f.seek (f.pos + 1)) := by
  rw [File.read1, h]

theorem scan_append {stop : Char} {cs : List Char} (h : stop ∉ cs) (rest : List Char) :
    scan stop (cs ++ stop :: rest) = (cs, some stop, cs.length + 1) := by
  induction cs with
  | nil => rw [List.nil_append, scan, if_neg (not_not.mpr rfl)]; rfl
  | cons c cs ih =>
    rw [List.mem_cons, not_or] at h
    obtain ⟨hc, hcs⟩ := h
    rw [List.cons_append, scan, if_pos (Ne.symm hc), ih hcs]
    rfl

theorem scan_of_notMem {stop : Char} {cs : List Char} (h : stop ∉ cs) :
    scan stop cs = (cs, none, cs.length) := by
  induction cs with
  | nil => rfl
  | cons c cs ih =>
    rw [List.mem_cons, not_or] at h
    obtain ⟨hc, hcs⟩ := h
    rw [scan, if_pos (Ne.symm hc), ih hcs]
    rfl

theorem readUntil_of_append {f : File} {pos : ℕ} {stop : Char} {cs rest : List Char}
    (h : stop ∉ cs) (hrest : (f.seek pos).rest = cs ++ stop :: rest) :
    (f.seek pos).readUntil stop = (cs, some stop, f.seek (pos + (cs.length + 1))) := by
  rw [File.readUntil, hrest, scan_append h]
  rfl

theorem readUntil_of_notMem {f : File} {stop : Char} (h : stop ∉ f.rest) :
    f.readUntil stop = (f.rest, none, f.seek (f.pos + f.rest.length)) := by
  rw [File.readUntil, scan_of_notMem h]

/-- **A complete message** stands at the position of the file. -/
structure Complete (f : File) (type body after : List Char) : Prop where
  rest : f.rest = '\x01' :: (type ++ '\x02' :: (body ++ '\x03' :: after))
  type : '\x02' ∉ type
  body : '\x03' ∉ body

/-- The length of a message with its control characters. -/
def frameLength (type body : List Char) : ℕ :=
  type.length + body.length + 3

section Read

variable {Obj : Type} (loads : List Char → Except PyError Obj)

/-- What a complete message is returned as. -/
def outcome (type body : List Char) : Except PyError (Msg Obj) :=
  let text := Text.stripChar '\x00' body
  if type = "json".toList then (loads text).map fun obj => ⟨type, text, some obj⟩
  else .ok ⟨type, text, none⟩

variable {loads}

theorem readMsg_of_complete {f : File} {type body after : List Char}
    (h : Complete f type body after) :
    readMsg loads f = (outcome loads type body, f.seek (f.pos + frameLength type body)) := by
  have hrest₁ : (f.seek (f.pos + 1)).rest = type ++ '\x02' :: (body ++ '\x03' :: after) := by
    rw [rest_seek, h.rest, List.drop_one, List.tail_cons]
  have hrest₂ : (f.seek (f.pos + 1 + (type.length + 1))).rest = body ++ '\x03' :: after := by
    rw [add_assoc, rest_seek, h.rest]
    simp [add_comm 1]
  have htype := readUntil_of_append h.type hrest₁
  have hbody := readUntil_of_append h.body hrest₂
  have hpos : f.pos + 1 + (type.length + 1) + (body.length + 1) = f.pos + frameLength type body := by
    rw [frameLength]
    omega
  simp only [readMsg, read1_of_cons h.rest, htype, hbody, hpos, outcome, ne_eq, not_true_eq_false,
    if_false]
  split
  · cases loads (Text.stripChar '\x00' body) <;> rfl
  · rfl

theorem rest_of_complete {f : File} {type body after : List Char}
    (h : Complete f type body after) :
    (f.seek (f.pos + frameLength type body)).rest = after := by
  rw [rest_seek, h.rest, frameLength]
  have hsplit : '\x01' :: (type ++ '\x02' :: (body ++ '\x03' :: after)) =
      ('\x01' :: (type ++ '\x02' :: (body ++ ['\x03']))) ++ after := by simp
  rw [hsplit, List.drop_left']
  simp
  omega

/-- **Without a complete message** nothing is read. -/
theorem exists_readMsg_error {f : File} (h : ¬ ∃ type body after, Complete f type body after) :
    ∃ e, readMsg loads f = (.error e, f) := by
  rcases hrest : f.rest with _ | ⟨c, cs⟩
  · exact ⟨_, by rw [readMsg, read1_of_nil hrest]⟩
  by_cases hc : c = '\x01'
  swap
  · simp only [readMsg, read1_of_cons hrest, ne_eq, hc, not_false_eq_true, if_true]
    exact ⟨_, rfl⟩
  subst hc
  have hrest₁ : (f.seek (f.pos + 1)).rest = cs := by
    rw [rest_seek, hrest, List.drop_one, List.tail_cons]
  by_cases hstx : '\x02' ∈ cs
  swap
  · have htype := readUntil_of_notMem (hrest₁.symm ▸ hstx)
    simp only [readMsg, read1_of_cons hrest, htype, ne_eq, not_true_eq_false, if_false, reduceCtorEq,
      not_false_eq_true, if_true]
    exact ⟨_, rfl⟩
  obtain ⟨type, cs, rfl, htype⟩ := List.eq_append_cons_of_mem hstx
  have hread := readUntil_of_append htype hrest₁
  have hrest₂ : (f.seek (f.pos + 1 + (type.length + 1))).rest = cs := by
    rw [add_assoc, rest_seek, hrest]
    simp [add_comm 1]
  -- there is no terminator, or the message would be complete
  have hetx : '\x03' ∉ cs := by
    intro hetx
    obtain ⟨body, after, rfl, hbody⟩ := List.eq_append_cons_of_mem hetx
    exact h ⟨type, body, after, hrest, htype, hbody⟩
  have hbody := readUntil_of_notMem (hrest₂.symm ▸ hetx)
  simp only [readMsg, read1_of_cons hrest, hread, hbody, ne_eq, not_true_eq_false, if_false,
    reduceCtorEq, not_false_eq_true, if_true]
  exact ⟨_, rfl⟩

/-! ## The position after an exception -/

variable (loads)

/-- **What a message is returned as**: its type, its text, and the object of a JSON text. -/
structure IsMessage (type body : List Char) (m : Msg Obj) : Prop where
  type_eq : m.type = type
  text_eq : m.text = Text.stripChar '\x00' body
  obj_eq : if type = "json".toList then m.obj.map Except.ok = some (loads m.text) else m.obj = none

/-- **`read_msg` returns the message at the position**, and leaves the position behind it, or
raises, and leaves the position where it was. -/
def Restores (f : File) : Prop :=
  (∃ type body after m, Complete f type body after ∧ IsMessage loads type body m ∧
    readMsg loads f = (.ok m, f.seek (f.pos + frameLength type body))) ∨
  ∃ e, readMsg loads f = (.error e, f)

variable {loads}

theorem isMessage_of_outcome {type body : List Char} {m : Msg Obj}
    (h : outcome loads type body = .ok m) : IsMessage loads type body m := by
  unfold outcome at h
  dsimp only at h
  split at h
  · next hjson =>
    cases hloads : loads (Text.stripChar '\x00' body) with
    | error e => rw [hloads] at h; cases h
    | ok obj =>
      rw [hloads] at h
      cases h
      exact ⟨rfl, rfl, by rw [if_pos hjson, hloads]; rfl⟩
  · next hjson =>
    cases h
    exact ⟨rfl, rfl, by rw [if_neg hjson]⟩

/-- Only a JSON text that is none raises once the message is complete. -/
theorem outcome_eq_error_iff {type body : List Char} :
    (∃ e, outcome loads type body = .error e) ↔
      type = "json".toList ∧ ∃ e, loads (Text.stripChar '\x00' body) = .error e := by
  unfold outcome
  dsimp only
  split
  · next hjson =>
    rw [and_iff_right hjson]
    cases loads (Text.stripChar '\x00' body) with
    | error e => exact ⟨fun _ => ⟨e, rfl⟩, fun _ => ⟨e, rfl⟩⟩
    | ok obj => exact ⟨nofun, nofun⟩
  · next hjson => exact ⟨nofun, fun h => absurd h.1 hjson⟩

/-- A complete message that is malformed JSON raises, with the position behind it. -/
theorem not_restores_of_malformed {f : File} {body after : List Char} {e : PyError}
    (h : Complete f "json".toList body after)
    (he : loads (Text.stripChar '\x00' body) = .error e) : ¬ Restores loads f := by
  have hread : readMsg loads f = _ := readMsg_of_complete h
  obtain ⟨e', he'⟩ := outcome_eq_error_iff.mpr ⟨rfl, e, he⟩
  rw [he'] at hread
  rintro (⟨_, _, _, m, -, -, hok⟩ | ⟨e'', herror⟩)
  · rw [hread] at hok
    cases hok
  · rw [hread] at herror
    have hpos := congrArg (fun r => r.2.pos) herror
    simp only [File.seek, frameLength] at hpos
    omega

/-- **The position is right unless a complete message is malformed JSON**. -/
theorem restores_iff (loads : List Char → Except PyError Obj) (f : File) :
    Restores loads f ↔ ¬ ∃ body after e, Complete f "json".toList body after ∧
      loads (Text.stripChar '\x00' body) = .error e := by
  constructor
  · rintro hrestores ⟨body, after, e, h, he⟩
    exact not_restores_of_malformed h he hrestores
  · intro hjson
    by_cases hcomplete : ∃ type body after, Complete f type body after
    swap
    · exact .inr (exists_readMsg_error hcomplete)
    obtain ⟨type, body, after, h⟩ := hcomplete
    have hread : readMsg loads f = _ := readMsg_of_complete h
    cases hout : outcome loads type body with
    | ok m =>
      rw [hout] at hread
      exact .inl ⟨type, body, after, m, h, isMessage_of_outcome hout, hread⟩
    | error e =>
      obtain ⟨rfl, e', he'⟩ := outcome_eq_error_iff.mp ⟨e, hout⟩
      exact absurd ⟨body, after, e', h, he'⟩ hjson

end Read

/-! ## What was dumped -/

/-- A message of the type `string` or `json`, without a NUL at either end of its payload. -/
structure Message where
  type : StreamType
  data : List UInt8
  type_ne : type ≠ .other
  head : data.head? ≠ some 0
  last : data.getLast? ≠ some 0

/-- The event with which a message is received. -/
def Message.event (m : Message) : Event :=
  .recv m.type m.data

/-- A message in the dump. -/
def Message.frame (m : Message) : List UInt8 :=
  soh :: (Codec.encode m.type.name ++ stx :: (m.data ++ [etx]))

theorem dump_eq (msgs : List Message) :
    dump (msgs.map Message.event) = msgs.flatMap Message.frame := by
  have hfoldl (out : List UInt8) :
      (msgs.map Message.event).foldl recvCb out = out ++ msgs.flatMap Message.frame := by
    induction msgs generalizing out with
    | nil => simp
    | cons m msgs ih =>
      rw [List.map_cons, List.foldl_cons, ih, List.flatMap_cons]
      simp [recvCb, Message.event, Message.frame]
  exact (hfoldl []).trans (List.nil_append _)

/-- The text of a dump, from its first message on. -/
theorem utf8_frame_append_iff {m : Message} {rest : List UInt8} {cs : List Char} :
    Codec.utf8 (m.frame ++ rest) = .ok cs ↔ ∃ t after, Codec.utf8 m.data = .ok t ∧
      Codec.utf8 rest = .ok after ∧
      cs = '\x01' :: (m.type.name.toList ++ '\x02' :: (t ++ '\x03' :: after)) := by
  have hframe : m.frame ++ rest =
      [] ++ soh :: (Codec.encode m.type.name ++ stx :: (m.data ++ etx :: rest)) := by
    simp [Message.frame]
  have hname : Codec.utf8 (Codec.encode m.type.name) = .ok m.type.name.toList :=
    Codec.utf8_encode _
  rw [hframe, Codec.utf8_append_cons_iff (by decide)]
  constructor
  · rintro ⟨x, y, hx, hy, rfl⟩
    obtain ⟨name, z, hname', hz, rfl⟩ := (Codec.utf8_append_cons_iff (by decide)).mp hy
    obtain ⟨t, after, ht, hafter, rfl⟩ := (Codec.utf8_append_cons_iff (by decide)).mp hz
    rw [hname] at hname'
    cases hname'
    cases hx
    exact ⟨t, after, ht, hafter, rfl⟩
  · rintro ⟨t, after, ht, hafter, rfl⟩
    refine ⟨[], _, rfl, ?_, rfl⟩
    refine (Codec.utf8_append_cons_iff (by decide)).mpr ⟨_, _, hname, ?_, rfl⟩
    exact (Codec.utf8_append_cons_iff (by decide)).mpr ⟨t, after, ht, hafter, rfl⟩

/-- The text of a payload has no NUL at its ends. -/
theorem stripChar_of_utf8 {m : Message} {t : List Char} (h : Codec.utf8 m.data = .ok t) :
    Text.stripChar '\x00' t = t := by
  have hzero : String.utf8EncodeChar '\x00' = [0] := by decide
  rw [Codec.utf8_eq_ok_iff] at h
  refine Text.stripChar_eq_self ?_ ?_
  · intro hhead
    obtain ⟨t', rfl⟩ := List.head?_eq_some_iff.mp hhead
    exact m.head (by rw [h, List.flatMap_cons, hzero]; rfl)
  · intro hlast
    obtain ⟨t', rfl⟩ := List.getLast?_eq_some_iff.mp hlast
    refine m.last ?_
    rw [h, List.flatMap_append, List.flatMap_cons, List.flatMap_nil, hzero, List.append_nil,
      List.getLast?_append]
    rfl

section Deliver

variable {Obj : Type} (loads : List Char → Except PyError Obj)

/-- **Successive calls of `read_msg`** return these types and texts, and then report the end of the
file. -/
inductive Yields : File → List (List Char × List Char) → Prop where
  | eof {f f' : File} : readMsg loads f = (.error ⟨.valueError, "End of file"⟩, f') → Yields f []
  | msg {f f' : File} {m : Msg Obj} {ms : List (List Char × List Char)} :
    readMsg loads f = (.ok m, f') → Yields f' ms → Yields f ((m.type, m.text) :: ms)

/-- The types and the texts of messages. -/
def contents (msgs : List Message) (texts : List (List Char)) : List (List Char × List Char) :=
  List.zipWith (fun m t => (m.type.name.toList, t)) msgs texts

/-- The payloads are these texts. -/
def TextsOf (msgs : List Message) (texts : List (List Char)) : Prop :=
  List.Forall₂ (fun m t => Codec.utf8 m.data = .ok t) msgs texts

/-- **The dump of the messages is read as these messages**, with their types and their texts. -/
def Delivers (msgs : List Message) : Prop :=
  ∃ text texts, Codec.utf8 (dump (msgs.map Message.event)) = .ok text ∧ TextsOf msgs texts ∧
    Yields loads ⟨text, 0⟩ (contents msgs texts)

/-- **A message that survives**: its payload is a text without the end mark, and a JSON text if
that is its type. -/
structure Framed (m : Message) : Prop where
  etx : etx ∉ m.data
  text : ∃ t, Codec.utf8 m.data = .ok t ∧ (m.type = .json → ∃ obj, loads t = .ok obj)

variable {loads}

theorem exists_utf8_frames {msgs : List Message}
    (h : ∀ m ∈ msgs, ∃ t, Codec.utf8 m.data = .ok t) :
    ∃ text, Codec.utf8 (msgs.flatMap Message.frame) = .ok text := by
  induction msgs with
  | nil => exact ⟨[], rfl⟩
  | cons m msgs ih =>
    obtain ⟨⟨t, ht⟩, hrest⟩ := List.forall_mem_cons.mp h
    obtain ⟨after, hafter⟩ := ih hrest
    exact ⟨_, utf8_frame_append_iff.mpr ⟨t, after, ht, hafter, rfl⟩⟩

theorem name_ne_stx (m : Message) : '\x02' ∉ m.type.name.toList := by
  cases m.type <;> decide

theorem name_eq_json_iff (m : Message) : m.type.name.toList = "json".toList ↔ m.type = .json := by
  cases m.type <;> decide

theorem etx_mem_iff {m : Message} {t : List Char} (h : Codec.utf8 m.data = .ok t) :
    etx ∈ m.data ↔ '\x03' ∈ t := by
  rw [Codec.utf8_eq_ok_iff.mp h]
  exact Codec.mem_flatMap_encodeChar_iff (by decide)

theorem exists_of_yields_cons {f : File} {p : List Char × List Char}
    {ms : List (List Char × List Char)} (h : Yields loads f (p :: ms)) :
    ∃ m f', readMsg loads f = (.ok m, f') ∧ (m.type, m.text) = p ∧ Yields loads f' ms := by
  cases h with
  | msg hread hrest => exact ⟨_, _, hread, rfl, hrest⟩

theorem outcome_eq_ok_iff {m : Message} {t : List Char} (ht : Codec.utf8 m.data = .ok t)
    {msg : Msg Obj} : outcome loads m.type.name.toList t = .ok msg →
      (msg.type, msg.text) = (m.type.name.toList, t) ∧
        (m.type = .json → ∃ obj, loads t = .ok obj) := by
  intro hout
  have hmsg := isMessage_of_outcome hout
  have htext : msg.text = t := hmsg.text_eq.trans (stripChar_of_utf8 ht)
  refine ⟨by rw [hmsg.type_eq, htext], fun hjson => ?_⟩
  have hobj := hmsg.obj_eq
  rw [if_pos ((name_eq_json_iff m).mpr hjson), htext] at hobj
  obtain ⟨obj, -, hobj⟩ := Option.map_eq_some_iff.mp hobj
  exact ⟨obj, hobj.symm⟩

theorem exists_outcome_eq_ok {m : Message} {t : List Char} (ht : Codec.utf8 m.data = .ok t)
    (hjson : m.type = .json → ∃ obj, loads t = .ok obj) :
    ∃ msg, outcome loads m.type.name.toList t = .ok msg := by
  cases hout : outcome loads m.type.name.toList t with
  | ok msg => exact ⟨msg, rfl⟩
  | error e =>
    obtain ⟨hname, e', he'⟩ := outcome_eq_error_iff.mp ⟨e, hout⟩
    obtain ⟨obj, hobj⟩ := hjson ((name_eq_json_iff m).mp hname)
    rw [stripChar_of_utf8 ht, hobj] at he'
    cases he'

/-- From its first message on, a dump is read as it was written if every message survives. -/
theorem yields_iff {msgs : List Message} {f : File}
    (hf : Codec.utf8 (msgs.flatMap Message.frame) = .ok f.rest) :
    (∃ texts, TextsOf msgs texts ∧ Yields loads f (contents msgs texts)) ↔
      ∀ m ∈ msgs, Framed loads m := by
  induction msgs generalizing f with
  | nil =>
    have hnil : f.rest = [] := (Except.ok.inj hf).symm
    refine iff_of_true ⟨[], .nil, ?_⟩ (List.forall_mem_nil _)
    exact .eof (by rw [readMsg, read1_of_nil hnil])
  | cons m msgs ih =>
    obtain ⟨t, after, ht, hafter, hrest⟩ := utf8_frame_append_iff.mp hf
    rw [List.forall_mem_cons]
    by_cases hetx : '\x03' ∈ t
    · -- the first end mark ends the message too early
      refine iff_of_false ?_ fun h => h.1.etx ((etx_mem_iff ht).mpr hetx)
      rintro ⟨texts, htexts, hyields⟩
      obtain ⟨a, b, rfl, ha⟩ := List.eq_append_cons_of_mem hetx
      have hcomplete : Complete f m.type.name.toList a (b ++ '\x03' :: after) :=
        ⟨by rw [hrest]; simp, name_ne_stx m, ha⟩
      obtain _ | ⟨ht', -⟩ := htexts
      rw [ht] at ht'
      cases ht'
      obtain ⟨msg, f', hread, hmsg, -⟩ := exists_of_yields_cons hyields
      have hout := congrArg Prod.fst ((readMsg_of_complete hcomplete).symm.trans hread)
      have htext : msg.text = a ++ '\x03' :: b := congrArg Prod.snd hmsg
      rw [(isMessage_of_outcome hout).text_eq] at htext
      have hle := (Text.stripChar_infix '\x00' a).length_le
      rw [htext, List.length_append, List.length_cons] at hle
      omega
    · have hcomplete : Complete f m.type.name.toList t after := ⟨hrest, name_ne_stx m, hetx⟩
      have hread : readMsg loads f = _ := readMsg_of_complete hcomplete
      rw [← rest_of_complete hcomplete] at hafter
      have hih := ih hafter
      constructor
      · rintro ⟨texts, htexts, hyields⟩
        obtain _ | ⟨ht', htexts⟩ := htexts
        rw [ht] at ht'
        cases ht'
        obtain ⟨msg, f', hread', -, hrest'⟩ := exists_of_yields_cons hyields
        obtain ⟨hout, rfl⟩ := Prod.mk.inj (hread.symm.trans hread')
        have hjson := (outcome_eq_ok_iff ht hout).2
        exact ⟨⟨fun hmem => hetx ((etx_mem_iff ht).mp hmem), t, ht, hjson⟩,
          hih.mp ⟨_, htexts, hrest'⟩⟩
      · rintro ⟨hm, hmsgs⟩
        obtain ⟨texts, htexts, hyields⟩ := hih.mpr hmsgs
        obtain ⟨t', ht', hjson⟩ := hm.text
        rw [ht] at ht'
        cases ht'
        obtain ⟨msg, hout⟩ := exists_outcome_eq_ok ht hjson
        rw [hout] at hread
        refine ⟨t :: texts, .cons ht htexts, ?_⟩
        rw [contents, List.zipWith_cons_cons, ← (outcome_eq_ok_iff ht hout).1]
        exact .msg hread hyields

theorem framed_of_delivers {msgs : List Message} (h : Delivers loads msgs) :
    ∀ m ∈ msgs, Framed loads m := by
  obtain ⟨text, texts, htext, htexts, hyields⟩ := h
  rw [dump_eq] at htext
  have hfile : Codec.utf8 (msgs.flatMap Message.frame) = .ok (File.mk text 0).rest := htext
  exact (yields_iff hfile).mp ⟨texts, htexts, hyields⟩

/-- **A dump is read as it was written exactly when every message survives**: nothing else than the
end mark in a payload, a payload that is no text, and a malformed JSON text can get in the way. -/
theorem delivers_dump_iff (loads : List Char → Except PyError Obj) (msgs : List Message) :
    Delivers loads msgs ↔ ∀ m ∈ msgs, Framed loads m := by
  refine ⟨framed_of_delivers, fun h => ?_⟩
  obtain ⟨text, htext⟩ := exists_utf8_frames fun m hm => (h m hm).text.imp fun t ht => ht.1
  have hfile : Codec.utf8 (msgs.flatMap Message.frame) = .ok (File.mk text 0).rest := htext
  obtain ⟨texts, htexts, hyields⟩ := (yields_iff hfile).mpr h
  exact ⟨text, texts, by rw [dump_eq, htext], htexts, hyields⟩

end Deliver

/-! ## Samples -/

/-- `json.loads` -/
def jsonLoads (text : List Char) : Except PyError (Val Json.SampleFloat) :=
  (Json.loads (String.ofList text)).mapError fun _ => ⟨.valueError, "Expecting value"⟩

/-- A text with the end mark in it. -/
def markedMessage : Message where
  type := .string
  data := [97, 3, 98]
  type_ne := by decide
  head := by decide
  last := by decide

theorem not_delivers_marked : ¬ Delivers jsonLoads [markedMessage] := fun h =>
  (framed_of_delivers h markedMessage List.mem_cons_self).etx (by decide)

/-- A brace is no JSON text. -/
def openBrace : File where
  text := "\x01json\x02\x7b\x03".toList
  pos := 0

theorem not_restores_openBrace : ¬ Restores jsonLoads openBrace := by
  have hcomplete : Complete openBrace "json".toList ['\x7b'] [] :=
    ⟨by decide, by decide, by decide⟩
  have hloads : jsonLoads (Text.stripChar '\x00' ['\x7b']) =
      .error ⟨.valueError, "Expecting value"⟩ := rfl
  exact not_restores_of_malformed hcomplete hloads

end ReadMsg
end LdmsTest
