import AgentWorkflow.Lib.JsonTrail
import AgentWorkflow.Lib.JsText
import AgentWorkflow.Lib.Utf8

/-!
# Lines of an event stream

The reading loop of `createSSEStream`. A `TextDecoder` turns every chunk of bytes into
text, the buffer holds what follows the last newline, and each complete line that begins
with `data:` is one call of `onMessage`. The calls are those of a handler that neither
throws nor closes the stream.
-/

namespace AgentWorkflow.Desktop.Sse
open AgentWorkflow.Lib AgentWorkflow.Lib.PyStr

abbrev Bytes := List UInt8
abbrev Text := List CodePoint

def newline : CodePoint := 0x0A
def carriageReturn : CodePoint := 0x0D
def byteOrderMark : CodePoint := 0xFEFF

/-! ### Decoding -/

/-- `TextDecoder`: the bytes of a character that has begun, and whether the place of a
byte order mark has passed. -/
structure TextDecoder where
  seen : Bytes
  bomSeen : Bool

def skipMark : Bool → Text → Text × Bool
  | true, t => (t, true)
  | false, [] => ([], false)
  | false, c :: t => (if c = byteOrderMark then t else c :: t, true)

/-- `decode(value, { stream: true })` -/
def TextDecoder.decode (d : TextDecoder) (value : Bytes) : Text × TextDecoder :=
  let fed := Utf8.feedAll d.seen value
  let text := skipMark d.bomSeen (fed.1.map Utf8.Piece.char)
  (text.1, ⟨fed.2, text.2⟩)

theorem skipMark_append (b : Bool) (t u : Text) :
    skipMark b (t ++ u) = ((skipMark b t).1 ++ (skipMark (skipMark b t).2 u).1, (skipMark (skipMark b t).2 u).2) := by
  cases b with
  | true => rfl
  | false =>
    cases t with
    | nil => rfl
    | cons c t =>
      simp only [List.cons_append, skipMark]
      split <;> rfl

theorem skipMark_subset (b : Bool) (t : Text) : ∀ c ∈ (skipMark b t).1, c ∈ t := by
  cases b with
  | true => exact fun c hc => hc
  | false =>
    cases t with
    | nil => exact fun c hc => hc
    | cons d t =>
      intro c hc
      simp only [skipMark] at hc
      split at hc
      · exact List.mem_cons_of_mem _ hc
      · exact hc

/-- Text that goes on with a unit other than the mark. -/
theorem skipMark_line {c : CodePoint} (hc : c ≠ byteOrderMark) (b : Bool) (t u : Text) :
    (skipMark b (t ++ c :: u)).1 = (skipMark b t).1 ++ c :: u := by
  rw [skipMark_append]
  cases (skipMark b t).2 with
  | true => rfl
  | false => simp only [skipMark, if_neg hc]

theorem TextDecoder.decode_append (d : TextDecoder) (s t : Bytes) :
    d.decode (s ++ t) = ((d.decode s).1 ++ ((d.decode s).2.decode t).1, ((d.decode s).2.decode t).2) := by
  simp only [TextDecoder.decode, Utf8.feedAll_append, List.map_append, skipMark_append]

/-! ### Messages -/

def dataField : Text := ofString "data:"
def doneMark : Text := ofString "[DONE]"

/-- The argument of `onMessage`: `{ done: true }`, a parsed value or the text itself. -/
inductive Message where
  | done
  | json (value : JsonText.Doc CodePoint)
  | text (raw : Text)

/-- `JSON.parse` -/
def jsonParse (raw : Text) : Option (JsonText.Doc CodePoint) := JsonText.parse (fun c : CodePoint => c.val) raw

def message (raw : Text) : Message :=
  if raw = doneMark then .done
  else match jsonParse raw with
    | some value => .json value
    | none => .text raw

def isData (line : Text) : Bool := dataField.isPrefixOf line

/-- `line.slice(5).trimStart()` -/
def payload (line : Text) : Text := (line.drop 5).dropWhile fun c => JsText.isSpace c.val

def lineMessage (line : Text) : Option Message := if isData line then some (message (payload line)) else none

/-! ### The loop -/

def maxBufferChars : ℕ := 1048576

/-- `length`, in UTF-16 code units -/
def units (t : Text) : ℕ := (t.flatMap fun c => JsText.utf16 c.val).length

structure Reader where
  decoder : TextDecoder
  buffer : Text

def Reader.start : Reader := ⟨⟨[], false⟩, []⟩

/-- One turn of the loop; `none` is `sse_buffer_limit`. -/
def Reader.read (r : Reader) (value : Bytes) : Option (List Message × Reader) :=
  let decoded := r.decoder.decode value
  let buffer := r.buffer ++ decoded.1
  if maxBufferChars < units buffer then none
  else some ((JsText.lines newline buffer).filterMap lineMessage, ⟨decoded.2, JsText.remainder newline buffer⟩)

/-- The calls for these chunks, and the reader after them unless the limit ended it. -/
def Reader.readAll (r : Reader) : List Bytes → List Message × Option Reader
  | [] => ([], some r)
  | value :: values => match r.read value with
    | none => ([], none)
    | some (calls, r') => (calls ++ (r'.readAll values).1, (r'.readAll values).2)

def calls (chunks : List Bytes) : List Message := (Reader.start.readAll chunks).1

/-- The buffer never exceeds the limit. -/
def Fits (chunks : List Bytes) : Prop := (Reader.start.readAll chunks).2.isSome

instance (chunks : List Bytes) : Decidable (Fits chunks) := inferInstanceAs (Decidable (_ = true))

/-- The calls are those of the complete lines of the whole text. -/
theorem Reader.readAll_calls (r : Reader) (hr : newline ∉ r.buffer) (chunks : List Bytes)
    (h : (r.readAll chunks).2.isSome) :
    (r.readAll chunks).1 =
      (JsText.lines newline (r.buffer ++ (r.decoder.decode chunks.flatten).1)).filterMap lineMessage := by
  induction chunks generalizing r with
  | nil =>
    have hnone : (r.decoder.decode []).1 = [] := by
      cases r with
      | mk d buffer =>
        cases d with
        | mk seen bomSeen => cases bomSeen <;> rfl
    rw [List.flatten_nil, hnone, List.append_nil, JsText.lines_last hr]
    rfl
  | cons value values ih =>
    by_cases hlimit : maxBufferChars < units (r.buffer ++ (r.decoder.decode value).1)
    · simp [Reader.readAll, Reader.read, hlimit] at h
    · simp only [Reader.readAll, Reader.read, if_neg hlimit] at h ⊢
      rw [ih _ (JsText.newline_not_mem_remainder _) h, List.flatten_cons, TextDecoder.decode_append]
      dsimp only
      rw [← List.append_assoc, (JsText.lines_append (r.buffer ++ (r.decoder.decode value).1) _).1, List.filterMap_append]

theorem calls_eq {chunks : List Bytes} (h : Fits chunks) :
    calls chunks =
      (JsText.lines newline (TextDecoder.decode ⟨[], false⟩ chunks.flatten).1).filterMap lineMessage :=
  Reader.readAll_calls Reader.start (List.not_mem_nil) chunks h

/-! ### Streams -/

/-- A line as it is sent, ended by LF or by CR and LF. -/
structure Line where
  content : Bytes
  crlf : Bool
  content_ok : 0x0A ∉ content

def Line.bytes (l : Line) : Bytes := l.content ++ (if l.crlf then [0x0D, 0x0A] else [0x0A])

structure Stream where
  lines : List Line
  rest : Bytes
  rest_ok : 0x0A ∉ rest

def Stream.bytes (s : Stream) : Bytes := s.lines.flatMap Line.bytes ++ s.rest

def Line.lf (l : Line) : Line := { l with crlf := false }

/-- The same lines with LF endings. -/
def Stream.lf (s : Stream) : Stream := { s with lines := s.lines.map Line.lf }

/-- The text of each line without its ending, and whether CR and LF end it. -/
def textsOf (bomSeen : Bool) : List Line → List (Text × Bool)
  | [] => []
  | l :: ls => ((skipMark bomSeen (Utf8.decodeReplace l.content)).1, l.crlf) :: textsOf true ls

def Stream.texts (s : Stream) : List (Text × Bool) := textsOf false s.lines

/-- A line as the loop splits it off. -/
def ended (p : Text × Bool) : Text := p.1 ++ (if p.2 then [carriageReturn] else [])

/-- Every data line ended by CR and LF holds nothing or a JSON text. -/
def Stream.JsonBeforeReturn (s : Stream) : Prop :=
  ∀ p ∈ s.texts, p.2 = true → isData p.1 = true → payload p.1 = [] ∨ (jsonParse (payload p.1)).isSome

instance (s : Stream) : Decidable s.JsonBeforeReturn :=
  inferInstanceAs (Decidable (∀ p ∈ s.texts, p.2 = true → isData p.1 = true → payload p.1 = [] ∨ _ = true))

theorem textsOf_lf (b : Bool) (ls : List Line) : textsOf b (ls.map Line.lf) = (textsOf b ls).map fun p => (p.1, false) := by
  induction ls generalizing b with
  | nil => rfl
  | cons l ls ih => simp [textsOf, ih, Line.lf]

theorem newline_not_mem_text {content : Bytes} (h : 0x0A ∉ content) (b : Bool) :
    newline ∉ (skipMark b (Utf8.decodeReplace content)).1 := fun hmem =>
  h (Utf8.decodeReplace_ascii (c := newline) (by decide) (skipMark_subset _ _ _ hmem))

theorem decode_line (b : Bool) (content rest : Bytes) :
    (TextDecoder.decode ⟨[], b⟩ (content ++ 0x0A :: rest)).1 =
      (skipMark b (Utf8.decodeReplace content)).1 ++ newline :: (TextDecoder.decode ⟨[], true⟩ rest).1 := by
  simp only [TextDecoder.decode, Utf8.feedAll_ascii (show (0x0A : UInt8) < 0x80 by decide), List.map_append,
    List.map_cons]
  exact skipMark_line (by decide) _ _ _

theorem decode_return (content : Bytes) :
    Utf8.decodeReplace (content ++ [0x0D]) = Utf8.decodeReplace content ++ [carriageReturn] := by
  simp only [Utf8.decodeReplace]
  unfold Utf8.pieces
  rw [Utf8.feedAll_ascii (show (0x0D : UInt8) < 0x80 by decide)]
  simp [Utf8.pieces, Utf8.feedAll, Utf8.finish]
  rfl

/-- Before the line ends the loop sees no newline. -/
theorem newline_not_mem_decode {rest : Bytes} (h : 0x0A ∉ rest) (b : Bool) :
    newline ∉ (TextDecoder.decode ⟨[], b⟩ rest).1 := by
  intro hmem
  have hfed := skipMark_subset b _ _ hmem
  refine h (Utf8.decodeReplace_ascii (c := newline) (by decide) ?_)
  unfold Utf8.decodeReplace Utf8.pieces
  rw [List.map_append]
  exact List.mem_append_left _ hfed

/-- The lines the loop finds in a stream are the lines that were sent. -/
theorem lines_decode (b : Bool) (ls : List Line) {rest : Bytes} (hrest : 0x0A ∉ rest) :
    JsText.lines newline (TextDecoder.decode ⟨[], b⟩ (ls.flatMap Line.bytes ++ rest)).1 =
      (textsOf b ls).map ended := by
  induction ls generalizing b with
  | nil => exact JsText.lines_last (newline_not_mem_decode hrest b)
  | cons l ls ih =>
    have hbytes : (l :: ls).flatMap Line.bytes ++ rest =
        (l.content ++ (if l.crlf then [0x0D] else [])) ++ 0x0A :: (ls.flatMap Line.bytes ++ rest) := by
      cases hc : l.crlf <;> simp [Line.bytes, hc]
    have hcontent : 0x0A ∉ l.content ++ (if l.crlf then [0x0D] else []) := by
      have hok := l.content_ok
      cases hc : l.crlf <;> simp [hok]
    have hended : (skipMark b (Utf8.decodeReplace (l.content ++ (if l.crlf then [0x0D] else [])))).1 =
        ended ((skipMark b (Utf8.decodeReplace l.content)).1, l.crlf) := by
      cases hc : l.crlf with
      | false => simp [ended]
      | true =>
        rw [if_pos rfl, decode_return]
        exact skipMark_line (by decide) _ _ _
    rw [hbytes, decode_line, JsText.lines_line (newline_not_mem_text hcontent b), ih, hended]
    rfl

/-- However a stream is cut, one call for each data line. -/
theorem calls_stream (s : Stream) {chunks : List Bytes} (h : chunks.flatten = s.bytes) (hfits : Fits chunks) :
    calls chunks = s.texts.filterMap fun p => lineMessage (ended p) := by
  rw [calls_eq hfits, h, Stream.bytes, lines_decode false s.lines s.rest_ok, List.filterMap_map]
  rfl

theorem calls_lf (s : Stream) {chunks : List Bytes} (h : chunks.flatten = s.lf.bytes) (hfits : Fits chunks) :
    calls chunks = s.texts.filterMap fun p => lineMessage p.1 := by
  have htexts : s.lf.texts = s.texts.map fun p => (p.1, false) := textsOf_lf false s.lines
  rw [calls_stream s.lf h hfits, htexts, List.filterMap_map]
  congr 1
  funext p
  exact congrArg lineMessage (List.append_nil p.1)

/-! ### What a carriage return does to a message -/

theorem isData_return (t : Text) : isData (t ++ [carriageReturn]) = isData t := by
  rw [Bool.eq_iff_iff, isData, isData, List.isPrefixOf_iff_prefix, List.isPrefixOf_iff_prefix, List.prefix_concat_iff]
  constructor
  · rintro (h | h)
    · exact absurd (congrArg List.getLast? h) (by simp [dataField, ofString, carriageReturn])
    · exact h
  · exact Or.inr

theorem payload_return {t : Text} (h : isData t = true) :
    payload (t ++ [carriageReturn]) = if payload t = [] then [] else payload t ++ [carriageReturn] := by
  have hprefix : dataField <+: t := List.isPrefixOf_iff_prefix.mp h
  have hlen : 5 ≤ t.length := hprefix.length_le
  have hspace : JsText.isSpace carriageReturn.val = true := by decide
  unfold payload
  rw [List.drop_append_of_le_length hlen, List.dropWhile_append]
  cases hdrop : (t.drop 5).dropWhile fun c => JsText.isSpace c.val with
  | nil => simp [hspace]
  | cons c r => rfl

theorem ne_doneMark (t : Text) : t ++ [carriageReturn] ≠ doneMark := fun h =>
  absurd (congrArg List.getLast? h) (by simp [doneMark, ofString, carriageReturn])

theorem jsonParse_doneMark : jsonParse doneMark = none := by rfl

/-- Only a JSON text and nothing at all mean the same with a carriage return behind them. -/
theorem message_return_iff (t : Text) :
    message (t ++ [carriageReturn]) = message t ↔ (jsonParse t).isSome := by
  have hparse : jsonParse (t ++ [carriageReturn]) = jsonParse t := JsonText.parse_snoc (by decide) t
  unfold message
  rw [if_neg (ne_doneMark t), hparse]
  by_cases hdone : t = doneMark
  · rw [if_pos hdone, hdone, jsonParse_doneMark]
    simp
  · rw [if_neg hdone]
    cases jsonParse t with
    | none => simp
    | some v => simp

theorem lineMessage_ended_isSome (p : Text × Bool) : (lineMessage (ended p)).isSome = (lineMessage p.1).isSome := by
  obtain ⟨t, crlf⟩ := p
  cases crlf with
  | false => rw [ended, if_neg Bool.false_ne_true, List.append_nil]
  | true =>
    unfold lineMessage ended
    rw [if_pos rfl, isData_return]
    split <;> rfl

theorem lineMessage_ended_iff (p : Text × Bool) :
    lineMessage (ended p) = lineMessage p.1 ↔
      (p.2 = true → isData p.1 = true → payload p.1 = [] ∨ (jsonParse (payload p.1)).isSome) := by
  obtain ⟨t, crlf⟩ := p
  cases crlf with
  | false => simp [ended]
  | true =>
    unfold lineMessage ended
    rw [if_pos rfl, isData_return]
    cases hdata : isData t with
    | false => simp
    | true =>
      rw [if_pos rfl, if_pos rfl, payload_return hdata, Option.some.injEq]
      by_cases hnil : payload t = []
      · simp [hnil]
      · rw [if_neg hnil, message_return_iff]
        simp [hnil]

/-- Two partial maps defined at the same elements collect the same values only when they agree. -/
theorem filterMap_eq_iff {α β : Type} {f g : α → Option β} (h : ∀ a, (f a).isSome = (g a).isSome) (l : List α) :
    l.filterMap f = l.filterMap g ↔ ∀ a ∈ l, f a = g a := by
  induction l with
  | nil => simp
  | cons a l ih =>
    have ha := h a
    rw [List.forall_mem_cons, ← ih]
    cases hf : f a with
    | none =>
      have hg : g a = none := by simpa [hf] using ha
      simp [hf, hg]
    | some b =>
      obtain ⟨c, hg⟩ : ∃ c, g a = some c := Option.isSome_iff_exists.mp (by rw [← ha, hf]; rfl)
      simp [hf, hg]

/-- Cut anywhere, a stream gives the calls of the same lines with LF endings, one for each
data line, unless CR and LF end a data line that holds neither nothing nor a JSON text. -/
theorem calls_lf_iff (s : Stream) {chunks whole : List Bytes} (h : chunks.flatten = s.bytes) (hfits : Fits chunks)
    (hwhole : whole.flatten = s.lf.bytes) (hwholefits : Fits whole) :
    (calls chunks = calls whole ↔ s.JsonBeforeReturn) ∧
      calls whole = (s.texts.filter fun p => isData p.1).map fun p => message (payload p.1) := by
  constructor
  · rw [calls_stream s h hfits, calls_lf s hwhole hwholefits, filterMap_eq_iff lineMessage_ended_isSome]
    exact forall₂_congr fun p _ => lineMessage_ended_iff p
  · rw [calls_lf s hwhole hwholefits]
    induction s.texts with
    | nil => rfl
    | cons p l ih =>
      cases hdata : isData p.1 with
      | false => simpa [lineMessage, hdata] using ih
      | true => simpa [lineMessage, hdata] using ih

def asciiBytes (s : String) : Bytes := s.toList.map fun c => c.toNat.toUInt8

/-- `data: {"a":1}` ended by CR and LF, then the end mark ended by LF. -/
def sampleStream : Stream where
  lines := [⟨asciiBytes "data: \x7b\"a\":1\x7d", true, by decide⟩, ⟨asciiBytes "data: [DONE]", false, by decide⟩]
  rest := []
  rest_ok := by decide

/-- The cut is between CR and LF. -/
theorem calls_lf_iff_sample :
    calls [sampleStream.bytes.take 14, sampleStream.bytes.drop 14] = calls [sampleStream.lf.bytes] :=
  (calls_lf_iff sampleStream (by decide) (by decide +kernel) (by decide) (by decide +kernel)).1.mpr (by decide +kernel)

/-- The end mark before CR and LF is passed on as a text. -/
theorem return_hides_done :
    calls [asciiBytes "data: [DONE]\r\n"] = [.text (doneMark ++ [carriageReturn])] ∧
      calls [asciiBytes "data: [DONE]\n"] = [.done] ∧
      calls [asciiBytes "data: [DONE]\r\n"] ≠ calls [asciiBytes "data: [DONE]\n"] := by
  have hreturn : calls [asciiBytes "data: [DONE]\r\n"] = [.text (doneMark ++ [carriageReturn])] := by rfl
  have hlf : calls [asciiBytes "data: [DONE]\n"] = [.done] := by rfl
  refine ⟨hreturn, hlf, ?_⟩
  rw [hreturn, hlf]
  simp

end AgentWorkflow.Desktop.Sse
