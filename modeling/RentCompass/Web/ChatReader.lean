import RentCompass.Frames
import RentCompass.Web.ChatStream

/-!
# The browser's side of the chat transport

`readChatResponse` of the page reads the stream in whatever chunks the network delivers: it decodes
the bytes as far as they make characters, cuts the text at blank lines and looks at the events.
It shows the stages and returns the data of the final event, or fails.
-/

namespace RentCompass.Web.Chat

open JsonValue Utf8

variable {φ : Type} [FloatFormat φ]

/-! ### The page's tools -/

/-- `TextDecoder`: UTF-8 with a byte order mark left out. -/
structure TextDecoder where
  decoder : Decoder
  /-- A character was decoded. -/
  begun : Bool

def TextDecoder.start : TextDecoder := ⟨.start, false⟩

/-- What comes of decoded characters: the first is left out if it is the mark. -/
def TextDecoder.emit (begun : Bool) (t : Text) : Bool × Text :=
  match t with
  | [] => (begun, [])
  | c :: t => (true, if begun = false ∧ c = 0xFEFF then t else c :: t)

/-- `decode(chunk, { stream: true })` -/
def TextDecoder.decode (d : TextDecoder) (chunk : List Nat) : TextDecoder × Text :=
  let (decoder, t) := d.decoder.decode chunk
  let (begun, t) := TextDecoder.emit d.begun t
  (⟨decoder, begun⟩, t)

/-- `decode(new Uint8Array(), { stream: false })` -/
def TextDecoder.flush (d : TextDecoder) : Text := (TextDecoder.emit d.begun d.decoder.flush).2

/-- `replace(/\r\n/g, '\n')` -/
def replaceCrlf : Text → Text
  | 13 :: 10 :: t => 10 :: replaceCrlf t
  | c :: t => c :: replaceCrlf t
  | [] => []

/-- White space and line ends of the language. -/
def isTrimmed (c : Nat) : Bool :=
  (9 ≤ c && c ≤ 13) || c == 32 || c == 0xA0 || c == 0x1680 || (0x2000 ≤ c && c ≤ 0x200A) ||
    c == 0x2028 || c == 0x2029 || c == 0x202F || c == 0x205F || c == 0x3000 || c == 0xFEFF

def trimStart (t : Text) : Text := t.dropWhile isTrimmed

def trim (t : Text) : Text := (trimStart t).rdropWhile isTrimmed

/-- The parts of the page that are not its own text: `JSON.parse`, which of its numbers are whole
and which are zero or no number, and the stages that have a label in the language of the page. -/
structure Page (φ : Type) where
  parse : Text → Option (JsonValue φ)
  isWhole : φ → Bool
  isFalsy : φ → Bool
  labelled : Text → Bool

/-- A value counts as true. -/
def Page.truthy (page : Page φ) : JsonValue φ → Bool
  | .null => false
  | .bool b => b
  | .int n => n ≠ 0
  | .float x => !page.isFalsy x
  | .str t => t ≠ []
  | .arr _ | .obj _ => true

/-- `Number.isInteger` -/
def Page.isInteger (page : Page φ) : JsonValue φ → Bool
  | .int _ => true
  | .float x => page.isWhole x
  | _ => false

/-! ### Events -/

/-- What the page has got: the stages it showed, and the data of the final event. -/
structure View (φ : Type) where
  shown : List Text
  final : Option (JsonValue φ)

/-- The name of the event and its data lines. -/
def fieldsOf (frame : Text) : Text × List Text :=
  (frame.splitOn 10).foldl (fun fields line =>
    let fields := if (Text.ofString "event:").isPrefixOf line then
      (trim (line.drop 6), fields.2) else fields
    if (Text.ofString "data:").isPrefixOf line then
      (fields.1, fields.2 ++ [trimStart (line.drop 5)]) else fields)
    (Text.ofString "message", [])

/-- `data.stage` -/
def stageOf : JsonValue φ → Option Text
  | .obj fields =>
    match Dict.get? fields "stage" with
    | some (.str stage) => some stage
    | _ => none
  | _ => none

/-- `data && data.payload && Number.isInteger(data.status)` -/
def Page.isFinal (page : Page φ) : JsonValue φ → Bool
  | .obj fields => (Dict.get? fields "payload").any page.truthy &&
      (Dict.get? fields "status").any page.isInteger
  | _ => false

/-- `consume`; the view as it is where `JSON.parse` throws. -/
def Page.consume (page : Page φ) (view : View φ) (frame : Text) : Except (View φ) (View φ) :=
  let (event, lines) := fieldsOf frame
  if lines = [] then .ok view
  else
    match page.parse ([10].intercalate lines) with
    | none => .error view
    | some data =>
      if event = Text.ofString "step" ∧ (stageOf data).isSome then
        .ok { view with shown := view.shown ++ (stageOf data).toList.filter page.labelled }
      else if event = Text.ofString "final" ∧ page.isFinal data then
        .ok { view with final := some data }
      else .ok view

/-! ### The response -/

structure Reader (φ : Type) where
  decoder : TextDecoder
  buffer : Text
  view : View φ

def Reader.start : Reader φ := ⟨.start, [], ⟨[], none⟩⟩

/-- More text has come: what ends at a blank line is consumed. -/
def Reader.more (page : Page φ) (r : Reader φ) (decoder : TextDecoder) (t : Text) :
    Except (View φ) (Reader φ) :=
  let (frames, rest) := Frames.split blankLine (replaceCrlf (r.buffer ++ t))
  (frames.foldlM page.consume r.view).map fun view => ⟨decoder, rest, view⟩

/-- A chunk. -/
def Reader.read (page : Page φ) (r : Reader φ) (chunk : List Nat) : Except (View φ) (Reader φ) :=
  r.more page (r.decoder.decode chunk).1 (r.decoder.decode chunk).2

/-- `chunk.done` -/
def Reader.finish (page : Page φ) (r : Reader φ) : Except (View φ) (Reader φ) :=
  r.more page r.decoder r.decoder.flush

/-- What becomes of the response. -/
inductive Outcome (φ : Type) where
  | final (data : JsonValue φ)
  /-- `incomplete_response` -/
  | incomplete
  /-- `JSON.parse` threw. -/
  | invalid
  /-- The connection failed. -/
  | failed

/-- How a body ends that is read to its end. -/
inductive Ending where
  | done
  | failed

/-- What comes of a body without a final event. -/
def Ending.outcome : Ending → Outcome φ
  | .done => .incomplete
  | .failed => .failed

/-- `readChatResponse`, for a stream of events, with the stages it showed. -/
def Page.readChatResponse (page : Page φ) (ending : Ending) :
    Reader φ → List (List Nat) → Outcome φ × List Text
  | r, [] =>
    match ending with
    | .failed => (.failed, r.view.shown)
    | .done =>
      match r.finish page with
      | .error view => (.invalid, view.shown)
      | .ok r =>
        match r.view.final with
        | some data => (.final data, r.view.shown)
        | none => (.incomplete, r.view.shown)
  | r, chunk :: chunks =>
    match r.read page chunk with
    | .error view => (.invalid, view.shown)
    | .ok r =>
      match r.view.final with
      | some data => (.final data, r.view.shown)
      | none => page.readChatResponse ending r chunks

/-! ### What the page makes of an event -/

lemma trim_step : trim (32 :: Text.ofString "step") = Text.ofString "step" := by decide

lemma trim_final : trim (32 :: Text.ofString "final") = Text.ofString "final" := by decide

lemma fieldsOf_keepAlive :
    fieldsOf (Frame.keepAlive : Frame φ).lines = (Text.ofString "message", []) := by
  have h : fieldsOf (Text.ofString ": keep-alive") = (Text.ofString "message", []) := by decide
  exact h

/-- An event in one line of data. -/
lemma fieldsOf_lines {e : Event φ} (hname : trim (32 :: e.name) = e.name)
    (hlow : ∀ c ∈ e.name ++ e.data, 32 ≤ c) (hdata : e.data.head? = some openObj) :
    fieldsOf e.lines = (e.name, [e.data]) := by
  have hevent : Text.ofString "event: " = [101, 118, 101, 110, 116, 58, 32] := by decide
  have hlabel : Text.ofString "data: " = [100, 97, 116, 97, 58, 32] := by decide
  have hevent' : Text.ofString "event:" = [101, 118, 101, 110, 116, 58] := by decide
  have hlabel' : Text.ofString "data:" = [100, 97, 116, 97, 58] := by decide
  have hline : ∀ label ∈ [Text.ofString "event: ", Text.ofString "data: "], ∀ c ∈ label,
      (c == 10) = false := by decide
  have hrest : ∀ c ∈ e.name ++ e.data, (c == 10) = false := by
    intro c hc
    have := hlow c hc
    simp
    omega
  have hfirst : ∀ c ∈ Text.ofString "event: " ++ e.name, (c == 10) = false := by
    intro c hc
    rcases List.mem_append.1 hc with hc | hc
    · exact hline _ (by simp) c hc
    · exact hrest c (List.mem_append_left _ hc)
  have hsecond : ∀ c ∈ Text.ofString "data: " ++ e.data, (c == 10) = false := by
    intro c hc
    rcases List.mem_append.1 hc with hc | hc
    · exact hline _ (by simp) c hc
    · exact hrest c (List.mem_append_right _ hc)
  have hsplit : e.lines.splitOn 10 =
      [Text.ofString "event: " ++ e.name, Text.ofString "data: " ++ e.data] := by
    rw [Event.lines, List.splitOn_eq_splitOnP,
      List.splitOnP_append_cons_of_forall_mem hfirst 10 (by decide),
      List.splitOnP_eq_singleton hsecond]
  have hstart : trimStart (32 :: e.data) = e.data := by
    cases hd : e.data with
    | nil => simp [hd] at hdata
    | cons c t =>
      rw [hd] at hdata
      cases hdata
      rfl
  rw [fieldsOf, hsplit, hevent, hlabel, hevent', hlabel']
  simp [hname, hstart]

/-- What the page makes of an event it can read. -/
def Page.seen (page : Page φ) (view : View φ) : Frame φ → View φ
  | .keepAlive => view
  | .event e =>
    if e.name = Text.ofString "step" ∧ (stageOf e.payload).isSome then
      { view with shown := view.shown ++ (stageOf e.payload).toList.filter page.labelled }
    else if e.name = Text.ofString "final" ∧ page.isFinal e.payload then
      { view with final := some e.payload }
    else view

/-- A frame of one line of data that the page can read. -/
structure Page.Reads (page : Page φ) (e : Event φ) : Prop where
  name : trim (32 :: e.name) = e.name
  low : ∀ c ∈ e.name ++ e.data, 32 ≤ c
  head : e.data.head? = some openObj
  parse : page.parse e.data = some e.payload

variable {page : Page φ}

lemma consume_lines {f : Frame φ} (h : ∀ e, f = .event e → page.Reads e) (view : View φ) :
    page.consume view f.lines = .ok (page.seen view f) := by
  cases f with
  | keepAlive =>
    rw [Page.consume, fieldsOf_keepAlive]
    rfl
  | event e =>
    have he := h e rfl
    rw [Page.consume, Frame.lines, fieldsOf_lines he.name he.low he.head]
    simp only [List.cons_ne_nil, if_false, List.intercalate_singleton, he.parse, Page.seen]
    split_ifs <;> rfl

lemma foldlM_consume {fs : List (Frame φ)} (h : ∀ e, Frame.event e ∈ fs → page.Reads e)
    (view : View φ) :
    (fs.map Frame.lines).foldlM page.consume view = .ok (fs.foldl page.seen view) := by
  induction fs generalizing view with
  | nil => rfl
  | cons f fs ih =>
    have hf := consume_lines (f := f) (fun e he => h e (by simp [he])) view
    have hfs := ih (fun e he => h e (List.mem_cons_of_mem f he)) (page.seen view f)
    rw [List.map_cons, List.foldlM_cons, hf]
    exact hfs

/-! ### Frames on the wire -/

/-- Where every line end is followed by another character, the blank line behind is the first. -/
lemma clean_of_forall {f : Text}
    (h : ∀ s, f[s]? = some 10 → ∃ c, f[s + 1]? = some c ∧ c ≠ 10) :
    Frames.Clean blankLine f := by
  rw [Frames.Clean, List.firstAt_eq_some_iff (by simp [blankLine])]
  constructor
  · rw [List.OccursAt, List.drop_left]
  · intro s hs hocc
    have hocc := List.occursAt_iff.1 hocc
    have hhere := hocc 0 (by simp [blankLine])
    have hnext := hocc 1 (by simp [blankLine])
    rw [Nat.add_zero, List.getElem?_append_left hs] at hhere
    obtain ⟨c, hc, hne⟩ := h s hhere
    have hs' := (List.getElem?_eq_some_iff.1 hc).1
    rw [List.getElem?_append_left hs', hc] at hnext
    exact hne (Option.some.inj hnext)

lemma clean_keepAlive : Frames.Clean blankLine (Frame.keepAlive : Frame φ).lines := by
  have h : Frames.Clean blankLine (Text.ofString ": keep-alive") := by
    unfold Frames.Clean
    decide
  exact h

lemma clean_lines {e : Event φ} (h : page.Reads e) : Frames.Clean blankLine e.lines := by
  have hlabel : Text.ofString "data: " = 100 :: Text.ofString "ata: " := by decide
  have hline : ∀ label ∈ [Text.ofString "event: ", Text.ofString "data: "], ∀ c ∈ label,
      c ≠ 10 := by decide
  apply clean_of_forall
  intro s hs
  have hfirst : ∀ c ∈ Text.ofString "event: " ++ e.name, c ≠ 10 := by
    intro c hc
    rcases List.mem_append.1 hc with hc | hc
    · exact hline _ (by simp) c hc
    · have := h.low c (List.mem_append_left _ hc)
      omega
  have hsecond : ∀ c ∈ Text.ofString "data: " ++ e.data, c ≠ 10 := by
    intro c hc
    rcases List.mem_append.1 hc with hc | hc
    · exact hline _ (by simp) c hc
    · have := h.low c (List.mem_append_right _ hc)
      omega
  rw [Event.lines] at hs ⊢
  generalize Text.ofString "event: " ++ e.name = first at hs hfirst ⊢
  -- the only line end is the one between the two lines
  have hindex : s = first.length := by
    rcases Nat.lt_trichotomy s first.length with hlt | heq | hgt
    · rw [List.getElem?_append_left hlt] at hs
      exact absurd rfl (hfirst 10 (List.mem_of_getElem? hs))
    · exact heq
    · rw [List.getElem?_append_right hgt.le, List.getElem?_cons,
        if_neg (by omega)] at hs
      exact absurd rfl (hsecond 10 (List.mem_of_getElem? hs))
  refine ⟨100, ?_, by decide⟩
  rw [hindex, List.getElem?_append_right (by omega), hlabel]
  simp

/-! ### Reading a part of the wire -/

/-- The text of the frames. -/
def textOf (sent : List (Frame φ)) : Text := Frames.join blankLine (sent.map Frame.lines)

/-- What is on the wire can be read: encodable text, and events the page can parse. -/
structure Page.ReadsAll (page : Page φ) (sent : List (Frame φ)) : Prop where
  reads : ∀ e, Frame.event e ∈ sent → page.Reads e
  scalar : ∀ c ∈ textOf sent, Decoder.Scalar c

lemma blankLine_ne_nil : blankLine ≠ [] := by simp [blankLine]

lemma clean_of_readsAll {sent : List (Frame φ)} (h : page.ReadsAll sent) :
    ∀ f ∈ sent.map Frame.lines, Frames.Clean blankLine f := by
  intro t ht
  obtain ⟨f, hf, rfl⟩ := List.mem_map.1 ht
  cases f with
  | keepAlive => exact clean_keepAlive
  | event e => exact clean_lines (h.reads e hf)

/-- No frame holds a carriage return. -/
lemma ne_return {sent : List (Frame φ)} (h : page.ReadsAll sent) : ∀ c ∈ textOf sent, c ≠ 13 := by
  have hlabels : ∀ label ∈ [Text.ofString "event: ", Text.ofString "data: ",
      Text.ofString ": keep-alive", blankLine, [10]], ∀ c ∈ label, c ≠ 13 := by decide
  intro c hc
  simp only [textOf, Frames.join, List.mem_flatMap, List.mem_map, List.mem_append] at hc
  obtain ⟨t, ⟨f, hf, rfl⟩, hc | hc⟩ := hc
  · cases f with
    | keepAlive => exact hlabels (Text.ofString ": keep-alive") (by simp) c hc
    | event e =>
      have he := h.reads e hf
      simp only [Frame.lines, Event.lines, List.mem_append, List.mem_cons] at hc
      rcases hc with (hc | hc) | hc | hc | hc
      · exact hlabels _ (by simp) c hc
      · have := he.low c (List.mem_append_left _ hc)
        omega
      · omega
      · exact hlabels _ (by simp) c hc
      · have := he.low c (List.mem_append_right _ hc)
        omega
  · exact hlabels _ (by simp) c hc

/-- The first character is no byte order mark. -/
lemma head_ne_mark (sent : List (Frame φ)) : ∀ c ∈ (textOf sent).head?, c ≠ 0xFEFF := by
  have hevent : Text.ofString "event: " = 101 :: Text.ofString "vent: " := by decide
  have hcomment : Text.ofString ": keep-alive" = 58 :: Text.ofString " keep-alive" := by decide
  intro c hc
  cases sent with
  | nil => simp [textOf] at hc
  | cons f sent =>
    cases f with
    | keepAlive =>
      simp only [textOf, List.map_cons, Frames.join_cons, Frame.lines, hcomment, List.cons_append,
        List.head?_cons, Option.mem_some_iff] at hc
      omega
    | event e =>
      simp only [textOf, List.map_cons, Frames.join_cons, Frame.lines, Event.lines, hevent,
        List.cons_append, List.head?_cons, Option.mem_some_iff] at hc
      omega

lemma replaceCrlf_eq {t : Text} (h : ∀ c ∈ t, c ≠ 13) : replaceCrlf t = t := by
  induction t with
  | nil => rfl
  | cons c t ih =>
    have hc := h c (by simp)
    have ht := ih fun d hd => h d (List.mem_cons_of_mem c hd)
    cases t with
    | nil => simp [replaceCrlf]
    | cons d t =>
      rw [replaceCrlf, ht]
      intro _ heq
      exact absurd heq hc

lemma emit_eq {begun : Bool} {t : Text} (h : begun = false → ∀ c ∈ t.head?, c ≠ 0xFEFF) :
    TextDecoder.emit begun t = (begun || !t.isEmpty, t) := by
  cases t with
  | nil => simp [TextDecoder.emit]
  | cons c t =>
    have hnot : ¬(begun = false ∧ c = 0xFEFF) := fun hc => h hc.1 c (by simp) hc.2
    rw [TextDecoder.emit, if_neg hnot]
    simp

/-- The text that the bytes make up. -/
def decoded (bytes : List Nat) : Text := (Decoder.start.decode bytes).2

/-- The reader has read the bytes, and with them a part of the frames. -/
structure Reader.At (page : Page φ) (sent : List (Frame φ)) (bytes : List Nat)
    (seen : List (Frame φ)) (r : Reader φ) : Prop where
  decoder : r.decoder.decoder = (Decoder.start.decode bytes).1
  begun : r.decoder.begun = false → decoded bytes = []
  buffer : r.buffer = (Frames.split blankLine (decoded bytes)).2
  frames : (Frames.split blankLine (decoded bytes)).1 = seen.map Frame.lines
  part : seen <+: sent
  view : r.view = seen.foldl page.seen ⟨[], none⟩

lemma at_start (page : Page φ) (sent : List (Frame φ)) : Reader.start.At page sent [] [] := by
  have hsplit : Frames.split blankLine (decoded []) = ([], []) := by decide
  exact ⟨rfl, fun _ => rfl, by rw [hsplit]; rfl, by rw [hsplit]; rfl, List.nil_prefix, rfl⟩

/-- The frames end with a line end. -/
lemma getLast_textOf {sent : List (Frame φ)} (hne : sent ≠ []) :
    ∃ t, textOf sent = t ++ [10] := by
  obtain ⟨before, f, rfl⟩ := List.eq_nil_or_concat sent |>.resolve_left hne
  refine ⟨Frames.join blankLine (before.map Frame.lines) ++ f.lines ++ [10], ?_⟩
  rw [textOf, List.concat_eq_append, List.map_append, Frames.join_append]
  simp [Frames.join, blankLine]

/-- The last line end comes with the last byte. -/
lemma rest_eq_nil {sent : List (Frame φ)} (h : page.ReadsAll sent) {bytes rest : List Nat}
    (hbytes : bytes ++ rest = Sha256.utf8 (textOf sent)) (hall : decoded bytes = textOf sent) :
    rest = [] := by
  by_cases hne : sent = []
  · subst hne
    exact (List.append_eq_nil_iff.1 hbytes).2
  · obtain ⟨t, ht⟩ := getLast_textOf hne
    by_contra hrest
    obtain ⟨before, b, rfl⟩ := List.eq_nil_or_concat rest |>.resolve_left hrest
    rw [List.concat_eq_append] at hbytes
    have hb : b = 10 := by
      rw [ht, Sha256.utf8, List.flatMap_append, ← List.append_assoc] at hbytes
      have hlast := (List.append_inj' hbytes (by simp [Sha256.utf8Char])).2
      simpa [Sha256.utf8Char] using hlast
    have hwhole := Decoder.decode_utf8 h.scalar
    rw [← hbytes, Decoder.decode_append] at hwhole
    have hmore := congrArg Prod.snd hwhole
    simp only [← hall, decoded] at hmore
    exact Decoder.decode_ascii_ne_nil (Decoder.lower_decode (by decide) bytes) before
      (by omega : b < 0x80) (List.append_right_eq_self.1 hmore)

/-- What the first bytes make up, and how many of the frames it holds. -/
lemma frames_decoded {sent : List (Frame φ)} (h : page.ReadsAll sent) {bytes rest : List Nat}
    (hbytes : bytes ++ rest = Sha256.utf8 (textOf sent)) :
    (∃ more, textOf sent = decoded bytes ++ more) ∧
      ∃ seen, seen <+: sent ∧
        (Frames.split blankLine (decoded bytes)).1 = seen.map Frame.lines ∧
        (rest = [] ↔ seen = sent) := by
  obtain ⟨more, hmore⟩ := Decoder.decode_of_append_eq h.scalar hbytes
  refine ⟨⟨more, hmore⟩, ?_⟩
  obtain ⟨n, hn, hiff⟩ := Frames.split_of_append_eq blankLine_ne_nil (clean_of_readsAll h) hmore.symm
  refine ⟨sent.take n, List.take_prefix n sent, ?_, ?_, ?_⟩
  · rw [decoded, hn, List.map_take]
  · rintro rfl
    rw [List.append_nil] at hbytes
    have hwhole : Decoder.start.decode bytes = (Decoder.start, textOf sent) := by
      rw [hbytes, Decoder.decode_utf8 h.scalar]
    have hnil : more = [] := by
      rw [hwhole] at hmore
      simpa using hmore
    exact List.take_of_length_le (by simpa using hiff.1 hnil)
  · intro hall
    have hlength : sent.length ≤ n := by
      rw [← hall, List.length_take]
      omega
    have hnil : more = [] := hiff.2 (by simpa using hlength)
    rw [hnil, List.append_nil] at hmore
    exact rest_eq_nil h hbytes hmore.symm

lemma decoded_append (a b : List Nat) :
    decoded (a ++ b) = decoded a ++ ((Decoder.start.decode a).1.decode b).2 := by
  rw [decoded, Decoder.decode_append, decoded]

variable {sent : List (Frame φ)}

/-- More text is consumed frame by frame. -/
lemma more_eq (h : page.ReadsAll sent) {seen new : List (Frame φ)} (hnew : seen ++ new <+: sent)
    {r : Reader φ} (hview : r.view = seen.foldl page.seen ⟨[], none⟩) (decoder : TextDecoder)
    {t rest : Text} (hreturn : ∀ c ∈ r.buffer ++ t, c ≠ 13)
    (hsplit : Frames.split blankLine (r.buffer ++ t) = (new.map Frame.lines, rest)) :
    r.more page decoder t = .ok ⟨decoder, rest, (seen ++ new).foldl page.seen ⟨[], none⟩⟩ := by
  have hreads : ∀ e, Frame.event e ∈ new → page.Reads e := by
    intro e he
    exact h.reads e (hnew.subset (List.mem_append_right _ he))
  rw [Reader.more, replaceCrlf_eq hreturn, hsplit]
  simp only [foldlM_consume hreads, hview, List.foldl_append]
  rfl

/-- A chunk is read, and no boundary between chunks shows. -/
lemma at_read (h : page.ReadsAll sent) {a chunk rest : List Nat} {seen : List (Frame φ)}
    {r : Reader φ} (hr : r.At page sent a seen)
    (hbytes : a ++ chunk ++ rest = Sha256.utf8 (textOf sent)) :
    ∃ r' seen', r.read page chunk = .ok r' ∧ r'.At page sent (a ++ chunk) seen' := by
  obtain ⟨⟨more, hmore⟩, seen', hpart, hframes, -⟩ := frames_decoded h hbytes
  have hdecoded := decoded_append a chunk
  rw [hdecoded] at hmore
  generalize ht : ((Decoder.start.decode a).1.decode chunk).2 = t at hdecoded hmore
  have hdecode : r.decoder.decoder.decode chunk = ((Decoder.start.decode (a ++ chunk)).1, t) := by
    rw [hr.decoder, Decoder.decode_append, ← ht]
  have hmark : r.decoder.begun = false → ∀ c ∈ t.head?, c ≠ 0xFEFF := by
    intro hbegun c hc
    apply head_ne_mark sent
    rw [hmore, hr.begun hbegun]
    cases t with
    | nil => simp at hc
    | cons d t => simpa using hc
  have hsplit := Frames.split_append blankLine_ne_nil (decoded a) t
  rw [← hdecoded, ← hr.buffer, hr.frames] at hsplit
  rw [hsplit] at hframes
  -- the frames that are new
  obtain ⟨old, new, rfl, hold, hnew⟩ := List.map_eq_append_iff.1 hframes.symm
  have hsame : old = seen := by
    have hlength : old.length = seen.length := by simpa using congrArg List.length hold
    exact (List.prefix_of_prefix_length_le ((List.prefix_append old new).trans hpart) hr.part
      hlength.le).eq_of_length hlength
  subst hsame
  have hreturn : ∀ c ∈ r.buffer ++ t, c ≠ 13 := by
    intro c hc
    apply ne_return h
    rw [hmore]
    apply List.mem_append_left
    rcases List.mem_append.1 hc with hc | hc
    · apply List.mem_append_left
      rw [(Frames.split_spec blankLine_ne_nil (decoded a)).1]
      rw [hr.buffer] at hc
      exact List.mem_append_right _ hc
    · exact List.mem_append_right _ hc
  have hread : r.read page chunk = .ok ⟨⟨(Decoder.start.decode (a ++ chunk)).1,
      r.decoder.begun || !t.isEmpty⟩, (Frames.split blankLine (r.buffer ++ t)).2,
      (old ++ new).foldl page.seen ⟨[], none⟩⟩ := by
    simp only [Reader.read, TextDecoder.decode, hdecode, emit_eq hmark]
    apply more_eq h hpart hr.view _ hreturn
    rw [hnew]
  refine ⟨_, _, hread, rfl, ?_, ?_, ?_, hpart, rfl⟩
  · intro hbegun
    simp only [Bool.or_eq_false_iff, Bool.not_eq_false', List.isEmpty_iff] at hbegun
    rw [hdecoded, hr.begun hbegun.1, hbegun.2]
    rfl
  · rw [hsplit]
  · rw [hsplit, List.map_append, hnew]

/-- At the end of the body an unfinished character ends no frame. -/
lemma finish_eq (h : page.ReadsAll sent) {a rest : List Nat} {seen : List (Frame φ)}
    {r : Reader φ} (hr : r.At page sent a seen)
    (hbytes : a ++ rest = Sha256.utf8 (textOf sent)) :
    ∃ r', r.finish page = .ok r' ∧ r'.view = r.view := by
  obtain ⟨⟨more, hmore⟩, -⟩ := frames_decoded h hbytes
  obtain ⟨hspec, -, hnone⟩ := Frames.split_spec blankLine_ne_nil (decoded a)
  rw [← hr.buffer] at hspec hnone
  have hflush : r.decoder.flush = r.decoder.decoder.flush := by
    rw [TextDecoder.flush, emit_eq]
    intro _ c hc
    rw [Decoder.mem_flush (List.mem_of_mem_head? hc)]
    decide
  have hsplit : Frames.split blankLine (r.buffer ++ r.decoder.decoder.flush) =
      ([], r.buffer ++ r.decoder.decoder.flush) := by
    apply Frames.split_of_none blankLine_ne_nil
    unfold Decoder.flush
    split_ifs
    · rwa [List.append_nil]
    · exact Frames.firstAt_concat blankLine_ne_nil hnone (by decide)
  have hreturn : ∀ c ∈ r.buffer ++ r.decoder.decoder.flush, c ≠ 13 := by
    intro c hc
    rcases List.mem_append.1 hc with hc | hc
    · apply ne_return h
      rw [hmore, hspec]
      exact List.mem_append_left _ (List.mem_append_right _ hc)
    · rw [Decoder.mem_flush hc]
      decide
  have hpart : seen ++ [] <+: sent := by
    rw [List.append_nil]
    exact hr.part
  have hmore := more_eq h hpart hr.view r.decoder hreturn hsplit
  rw [← hflush] at hmore
  refine ⟨_, hmore, ?_⟩
  rw [List.append_nil, hr.view]

/-- What comes of a view at the end of the body. -/
def View.outcome (view : View φ) (ending : Ending) : Outcome φ × List Text :=
  (match view.final with
    | some data => .final data
    | none => ending.outcome, view.shown)

/-- The response that is read from the rest of the bytes: the view of the frames that have come
whole. The stream is left at the final event, behind which there is none. -/
lemma readChatResponse_eq (h : page.ReadsAll sent) (ending : Ending)
    (hlast : ∀ seen, seen <+: sent → (seen.foldl page.seen ⟨[], none⟩).final ≠ none → seen = sent)
    {chunks : List (List Nat)} {a rest : List Nat} {seen : List (Frame φ)} {r : Reader φ}
    (hr : r.At page sent a seen) (hgoes : r.view.final = none)
    (hbytes : a ++ chunks.flatten ++ rest = Sha256.utf8 (textOf sent)) :
    ∃ seen', seen' <+: sent ∧ (rest = [] ↔ seen' = sent) ∧
      page.readChatResponse ending r chunks =
        (seen'.foldl page.seen ⟨[], none⟩).outcome ending := by
  induction chunks generalizing a seen r with
  | nil =>
    rw [List.flatten_nil, List.append_nil] at hbytes
    obtain ⟨-, seen', hpart, hframes, hend⟩ := frames_decoded h hbytes
    have hsame : seen' = seen := by
      have hlength : seen'.length = seen.length := by
        simpa using congrArg List.length (hframes.symm.trans hr.frames)
      exact (List.prefix_of_prefix_length_le hpart hr.part hlength.le).eq_of_length hlength
    subst hsame
    refine ⟨seen', hpart, hend, ?_⟩
    rw [← hr.view]
    cases ending with
    | failed => simp only [Page.readChatResponse, View.outcome, hgoes, Ending.outcome]
    | done =>
      obtain ⟨r', hfinish, hview⟩ := finish_eq h hr hbytes
      simp only [Page.readChatResponse, hfinish, hview, View.outcome, hgoes, Ending.outcome]
  | cons chunk chunks ih =>
    rw [List.flatten_cons, ← List.append_assoc] at hbytes
    have hchunk : a ++ chunk ++ (chunks.flatten ++ rest) = Sha256.utf8 (textOf sent) := by
      simp only [← hbytes, List.append_assoc]
    obtain ⟨r', seen', hread, hr'⟩ := at_read h hr hchunk
    cases hfinal : r'.view.final with
    | none =>
      simp only [Page.readChatResponse, hread, hfinal]
      exact ih hr' hfinal hbytes
    | some data =>
      have hall : seen' = sent := hlast seen' hr'.part (by
        rw [← hr'.view, hfinal]
        simp)
      subst hall
      -- what comes behind the final event is nothing
      obtain ⟨-, seen, hpart, hframes, hend⟩ := frames_decoded h hchunk
      have hnothing : chunks.flatten ++ rest = [] := by
        apply hend.2
        have hlength : seen.length = seen'.length := by
          simpa using congrArg List.length (hframes.symm.trans hr'.frames)
        exact hpart.eq_of_length hlength
      refine ⟨seen', List.prefix_refl _, ?_, ?_⟩
      · simp [(List.append_eq_nil_iff.1 hnothing).2]
      · simp only [Page.readChatResponse, hread, hfinal, View.outcome, ← hr'.view]

/-! ### From the task to the page -/

/-- The stage a frame shows. -/
def Frame.stage (f : Frame φ) : Option Text :=
  f.event?.bind fun e => if e.name = Text.ofString "step" then stageOf e.payload else none

omit [FloatFormat φ] in
lemma shown_foldl (page : Page φ) (fs : List (Frame φ)) (view : View φ) :
    (fs.foldl page.seen view).shown = view.shown ++ (fs.filterMap Frame.stage).filter page.labelled := by
  induction fs generalizing view with
  | nil => simp
  | cons f fs ih =>
    rw [List.foldl_cons, ih, List.filterMap_cons]
    cases f with
    | keepAlive => rfl
    | event e =>
      by_cases hname : e.name = Text.ofString "step"
      · cases hstage : stageOf e.payload with
        | none =>
          have hfinal : e.name ≠ Text.ofString "final" := by
            rw [hname]
            decide
          simp [Page.seen, Frame.stage, Frame.event?, hname, hstage]
        | some stage =>
          simp only [Page.seen, Frame.stage, Frame.event?, hname, hstage, Option.bind_some, if_true,
            Option.isSome_some, and_self, Option.toList_some, List.filter_cons]
          split_ifs <;> simp
      · have hstage : (Frame.event e).stage = none := by
          simp [Frame.stage, Frame.event?, hname]
        rw [hstage]
        simp only [Page.seen, hname, false_and, if_false]
        split_ifs <;> rfl

omit [FloatFormat φ] in
lemma final_foldl (page : Page φ) {fs : List (Frame φ)}
    (h : ∀ e, Frame.event e ∈ fs → e.name ≠ Text.ofString "final") (view : View φ) :
    (fs.foldl page.seen view).final = view.final := by
  induction fs generalizing view with
  | nil => rfl
  | cons f fs ih =>
    rw [List.foldl_cons, ih fun e he => h e (List.mem_cons_of_mem f he)]
    cases f with
    | keepAlive => rfl
    | event e =>
      have hname := h e (by simp)
      simp only [Page.seen, hname, false_and, if_false]
      split_ifs <;> rfl

omit [FloatFormat φ] in
lemma final_concat (page : Page φ) {fs : List (Frame φ)}
    (h : ∀ e, Frame.event e ∈ fs → e.name ≠ Text.ofString "final") {e : Event φ}
    (hname : e.name = Text.ofString "final") (view : View φ) (hview : view.final = none) :
    ((fs ++ [Frame.event e]).foldl page.seen view).final =
      if page.isFinal e.payload then some e.payload else none := by
  have hbefore := final_foldl page h view
  have hstep : e.name ≠ Text.ofString "step" := by
    rw [hname]
    decide
  rw [List.foldl_append, List.foldl_cons, List.foldl_nil]
  have hnot : ¬(e.name = Text.ofString "step" ∧ (stageOf e.payload).isSome) := fun h => hstep h.1
  rw [Page.seen, if_neg hnot]
  split_ifs with hif hfinal hfinal
  · rfl
  · exact absurd hif.2 hfinal
  · exact absurd ⟨hname, hfinal⟩ hif
  · rw [hbefore, hview]

omit [FloatFormat φ] in
@[simp] lemma stage_stepEvent (stage : Text) : (Frame.event (stepEvent stage : Event φ)).stage =
    some stage := by
  simp [Frame.stage, Frame.event?, stepEvent, stageOf, Dict.get?]

section

variable {s : Endpoint φ}

omit [FloatFormat φ] in
lemma mem_delivered {e : Event φ} : e ∈ s.delivered ↔ Frame.event e ∈ s.sent := by
  simp only [Endpoint.delivered, List.mem_filterMap]
  constructor
  · rintro ⟨f, hf, hevent⟩
    cases f with
    | keepAlive => cases hevent
    | event d =>
      cases hevent
      exact hf
  · intro he
    exact ⟨_, he, rfl⟩

/-- What is sent is a stage or the response. -/
lemma delivered_cases (h : s.Orderly) {e : Event φ} (he : e ∈ s.delivered) :
    (∃ stage ∈ STAGES, e = stepEvent stage) ∨ s.answer = some e := by
  obtain ⟨shown, seen, hreported, hshown, horder⟩ := h.inOrder
  have hmem : e ∈ shown.map stepEvent ++ s.answer.toList := by
    rcases horder with horder | ⟨-, -, hdelivered, -⟩
    · exact horder ▸ List.mem_append_left _ he
    · exact List.mem_append_left _ (hdelivered ▸ he)
  rcases List.mem_append.1 hmem with hmem | hmem
  · obtain ⟨stage, hstage, rfl⟩ := List.mem_map.1 hmem
    refine .inl ⟨stage, h.stages stage ?_, rfl⟩
    rw [hreported]
    exact List.mem_append_left _ (hshown.subset hstage)
  · exact .inr (by simpa using hmem)

/-- The stages that are sent are reported ones, in their order. -/
lemma stages_sublist (h : s.Orderly) : (s.sent.filterMap Frame.stage).Sublist s.reported := by
  obtain ⟨shown, seen, hreported, hshown, horder⟩ := h.inOrder
  have hstages : ∀ l : List Text, (l.map (stepEvent : Text → Event φ)).filterMap
      (fun e => (Frame.event e).stage) = l := by
    intro l
    rw [List.filterMap_map]
    simp
  have hanswer : ∀ final ∈ s.answer.toList, (Frame.event final).stage = none := by
    intro final hfinal
    obtain ⟨-, -, status, payload, rfl⟩ := h.answered final (by simpa using hfinal)
    simp [Frame.stage, Frame.event?, finalEvent]
  have hsent : s.sent.filterMap Frame.stage =
      s.delivered.filterMap fun e => (Frame.event e).stage := by
    rw [Endpoint.delivered, List.filterMap_filterMap]
    congr 1
  have hsub : (s.delivered.filterMap fun e => (Frame.event e).stage).Sublist shown := by
    rcases horder with horder | ⟨-, -, hdelivered, -⟩
    · have hpart : s.delivered.Sublist (shown.map stepEvent ++ s.answer.toList) := by
        rw [← horder]
        exact List.sublist_append_left _ _
      have := hpart.filterMap fun e => (Frame.event e).stage
      rwa [List.filterMap_append, hstages, List.filterMap_eq_nil_iff.2 hanswer,
        List.append_nil] at this
    · rw [hdelivered, hstages]
  rw [hsent, hreported]
  exact hsub.trans (hshown.trans (List.sublist_append_left _ _))

/-- What is sent ends with the response, if that is sent. -/
lemma eq_of_final (h : s.Orderly) {seen : List (Frame φ)} (hseen : seen <+: s.sent)
    (hfinal : (seen.foldl page.seen ⟨[], none⟩).final ≠ none) : seen = s.sent := by
  have hexists : ∃ e, Frame.event e ∈ seen ∧ e.name = Text.ofString "final" := by
    by_contra hnone
    push Not at hnone
    exact hfinal (final_foldl page hnone _)
  obtain ⟨e, he, hname⟩ := hexists
  obtain ⟨-, before, hsent, hbefore⟩ := h.last e (hseen.subset he) hname
  rw [hsent] at hseen ⊢
  rcases List.prefix_concat_iff.1 hseen with heq | hpart
  · exact heq
  · exact absurd hname (hbefore e (hpart.subset he))

variable [LawfulFloatFormat φ]

/-- An event that is sent is one the page can read. -/
lemma reads_of_delivered (h : s.Orderly) {e : Event φ} (he : e ∈ s.delivered)
    (hfinite : e.payload.finite) (hparse : page.parse e.data = some e.payload) : page.Reads e := by
  have hlow : ∀ c ∈ e.data, 32 ≤ c := low_dumps sseStyle e.payload hfinite
  have hshape : (e.name = Text.ofString "step" ∨ e.name = Text.ofString "final") ∧
      ∃ fields, e.payload = .obj fields := by
    rcases delivered_cases h he with ⟨stage, -, rfl⟩ | hanswer
    · exact ⟨.inl rfl, _, rfl⟩
    · obtain ⟨-, -, status, payload, rfl⟩ := h.answered e hanswer
      exact ⟨.inr rfl, _, rfl⟩
  obtain ⟨hname, fields, hpayload⟩ := hshape
  have hnames : ∀ name ∈ [Text.ofString "step", Text.ofString "final"],
      trim (32 :: name) = name ∧ ∀ c ∈ name, 32 ≤ c := by decide
  have hgood := hnames e.name (by simpa using hname)
  refine ⟨hgood.1, ?_, ?_, hparse⟩
  · intro c hc
    rcases List.mem_append.1 hc with hc | hc
    · exact hgood.2 c hc
    · exact hlow c hc
  · rw [Event.data, hpayload, dumps_obj]
    rfl

/-- So is all that is sent. -/
lemma readsAll_of_orderly (h : s.Orderly)
    (hread : ∀ e ∈ s.delivered, e.payload.finite ∧ page.parse e.data = some e.payload) :
    page.ReadsAll s.sent := by
  constructor
  · intro e he
    have he := mem_delivered.2 he
    exact reads_of_delivered h he (hread e he).1 (hread e he).2
  · have hcomment : ∀ c ∈ Text.ofString ": keep-alive" ++ blankLine, Decoder.Scalar c := by decide
    intro c hc
    simp only [textOf, Frames.join, List.mem_flatMap, List.mem_map] at hc
    obtain ⟨t, ⟨f, hf, rfl⟩, hc⟩ := hc
    cases f with
    | keepAlive => exact hcomment c hc
    | event e => exact h.encodable e hf c hc

end

/-- Whatever steps the callbacks, the task, the stream and the client take, and however the network
cuts what was sent and loses its end: the page shows stages that were reported, in their order, and
returns the task's response or, where it has not all come, none. -/
theorem chat_response_read [LawfulFloatFormat φ] (page : Page φ) (ending : Ending)
    (actions : List (Action φ)) {chunks : List (List Nat)} {rest : List Nat}
    (hread : ∀ e ∈ (Runs.run Endpoint.step .start actions).delivered,
      e.payload.finite ∧ page.parse e.data = some e.payload)
    (hbytes : chunks.flatten ++ rest = (Runs.run Endpoint.step .start actions).wire) :
    let s := Runs.run Endpoint.step .start actions
    let response := page.readChatResponse ending .start chunks
    (∃ stages : List Text, stages.Sublist s.reported ∧ response.2 = stages.filter page.labelled) ∧
      (response.1 = ending.outcome ∨
        rest = [] ∧ ∃ final ∈ s.delivered, s.answer = some final ∧
          response.1 = .final final.payload) ∧
      ∀ final ∈ s.delivered, s.answer = some final → page.isFinal final.payload → rest = [] →
        response.1 = .final final.payload := by
  intro s response
  have h : s.Orderly := Endpoint.orderly_run actions
  have hall : page.ReadsAll s.sent := readsAll_of_orderly h hread
  have hwire : [] ++ chunks.flatten ++ rest = Sha256.utf8 (textOf s.sent) := by
    have htext : s.wire = Sha256.utf8 (textOf s.sent) := by
      rw [Endpoint.wire, textOf, Frames.join, List.flatMap_map]
    rw [List.nil_append, hbytes, htext]
  obtain ⟨seen, hpart, hend, heq⟩ := readChatResponse_eq hall ending
    (fun _ => eq_of_final h) (at_start page s.sent) rfl hwire
  have hview : response = (seen.foldl page.seen ⟨[], none⟩).outcome ending := heq
  have hfinal : ∀ final ∈ s.delivered, s.answer = some final → rest = [] →
      (seen.foldl page.seen ⟨[], none⟩).final =
        if page.isFinal final.payload then some final.payload else none := by
    intro final hdelivered hanswer hrest
    obtain ⟨-, -, status, payload, rfl⟩ := h.answered final hanswer
    obtain ⟨-, before, hsent, hbefore⟩ := h.last _ (mem_delivered.1 hdelivered) rfl
    rw [hend.1 hrest, hsent, final_concat page hbefore rfl _ rfl]
  refine ⟨⟨seen.filterMap Frame.stage, ?_, ?_⟩, ?_, ?_⟩
  · exact (hpart.sublist.filterMap _).trans (stages_sublist h)
  · rw [hview, View.outcome, shown_foldl]
    rfl
  · cases hdata : (seen.foldl page.seen ⟨[], none⟩).final with
    | none =>
      left
      rw [hview, View.outcome, hdata]
    | some data =>
      right
      have hseen : seen = s.sent := by
        apply eq_of_final h hpart
        rw [hdata]
        exact Option.some_ne_none data
      have hrest := hend.2 hseen
      have hexists : ∃ e, Frame.event e ∈ seen ∧ e.name = Text.ofString "final" := by
        by_contra hnone
        push Not at hnone
        simp [final_foldl page hnone] at hdata
      obtain ⟨e, he, hname⟩ := hexists
      have he := mem_delivered.2 (hpart.subset he)
      have hanswer : s.answer = some e := by
        rcases delivered_cases h he with ⟨stage, -, rfl⟩ | hanswer
        · exact absurd hname (name_stepEvent stage)
        · exact hanswer
      refine ⟨hrest, e, he, hanswer, ?_⟩
      have := hfinal e he hanswer hrest
      rw [hdata] at this
      rw [hview, View.outcome, hdata]
      split_ifs at this
      · rw [← Option.some.inj this]
  · intro final hdelivered hanswer hgood hrest
    rw [hview, View.outcome, hfinal final hdelivered hanswer hrest, if_pos hgood]

/-- A turn that reports a stage and answers in two bytes a character. -/
def poundTurn : List (Action NonFinite) :=
  [.report "searching", .publish, .decide, .get,
    .finish 200 (.obj [(Text.ofString "reply", .str "£")]), .get]

def plainPage : Page NonFinite := ⟨loads, fun _ => true, fun _ => true, fun _ => true⟩

/-- The wire is cut between the two bytes. -/
theorem chat_response_read_pound :
    (plainPage.readChatResponse .done .start
      [(Runs.run Endpoint.step .start poundTurn).wire.take 95,
        (Runs.run Endpoint.step .start poundTurn).wire.drop 95]).1 =
      .final (finalEvent 200 (.obj [(Text.ofString "reply", .str "£")])).payload := by
  have hdelivered : (Runs.run Endpoint.step .start poundTurn).delivered =
      [stepEvent "searching", finalEvent 200 (.obj [(Text.ofString "reply", .str "£")])] := rfl
  have hanswer : (Runs.run Endpoint.step .start poundTurn).answer =
      some (finalEvent 200 (.obj [(Text.ofString "reply", .str "£")])) := rfl
  have hloads : ∀ v : JsonValue NonFinite, v.distinctKeys → v.finite →
      v.finite ∧ loads (v.dumps sseStyle) = some v := by
    intro v hkeys hfinite
    exact ⟨hfinite, loads_dumps sseStyle v hkeys hfinite⟩
  have hbytes : [(Runs.run Endpoint.step .start poundTurn).wire.take 95,
      (Runs.run Endpoint.step .start poundTurn).wire.drop 95].flatten ++ [] =
      (Runs.run Endpoint.step .start poundTurn).wire := by simp
  refine (chat_response_read plainPage .done poundTurn ?_ hbytes).2.2 _ ?_ hanswer
    (by decide) rfl
  · rw [hdelivered]
    intro e he
    rcases List.mem_pair.1 he with rfl | rfl
    · exact hloads _ (by decide) (by decide)
    · exact hloads _ (by decide) (by decide)
  · rw [hdelivered]
    simp

end RentCompass.Web.Chat
