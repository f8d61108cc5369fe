import AgentWorkflow.Desktop.CcEvents
import AgentWorkflow.Desktop.Sse
import AgentWorkflow.Lib.Machine

/-!
# The output of the Agent CLI (`electron/cc/cc-wrapper.ts`)

`handleStdoutChunk` and the flush in the exit handler: the bytes of the process become
lines, each line an event of the session. Node may deliver the exit before the last data.
-/

namespace AgentWorkflow.Desktop.CcStdout
open AgentWorkflow.Lib AgentWorkflow.Lib.Js AgentWorkflow.Lib.PyStr
open Sse (Bytes Text TextDecoder newline units)

def STDOUT_OVERSIZE_LIMIT : ℕ := 4 * 1024 * 1024

/-- What the listeners get. A line can translate to a chunk that reads like the report. -/
inductive Broadcast
  | event (c : FlatChunk)
  | oversize (c : FlatChunk)
  | sessionExit

def Broadcast.chunk : Broadcast → Option FlatChunk
  | .event c => some c
  | _ => none

def Broadcast.isOversize : Broadcast → Bool
  | .oversize _ => true
  | _ => false

/-- The part of the session that the output goes through. -/
structure Stdout where
  decoder : TextDecoder
  stdoutBuffer : Text
  exited : Bool
  session : CcSession

inductive ProcEvent
  | data (buf : Bytes)
  | exit

/-- `decode()` without `stream`, which begins anew. -/
def flush (d : TextDecoder) : Text × TextDecoder :=
  ((Sse.skipMark d.bomSeen ((Utf8.finish d.seen).map Utf8.Piece.char)).1, ⟨[], false⟩)

def trimText (t : Text) : Text := JsText.trim (fun c : CodePoint => c.val) t

/-- One line: blank, malformed or an event. -/
def handleLine (raw : Text) (session : CcSession) : CcSession × List FlatChunk :=
  let line := trimText raw
  if line = [] then (session, [])
  else
    match Js.parse (fun c : CodePoint => c.val) line with
    | none =>
      ({ session with
          stderrBuffer := session.stderrBuffer ++ str "[cc-wrapper] malformed stdout line: " ++
            (line.flatMap fun c => JsText.utf16 c.val).take 200 ++ str "\n"
          malformedStdoutLines := session.malformedStdoutLines + 1 }, [])
    | some parsed =>
      let out := translateEvent parsed
        { session with lastEventType := (asString (parsed.get (str "type"))).or session.lastEventType }
      ({ out.1 with turnInFlight := out.1.turnInFlight && !out.2.any FlatChunk.done }, out.2)

def handleLines : List Text → CcSession → CcSession × List FlatChunk
  | [], session => (session, [])
  | raw :: raws, session =>
    let first := handleLine raw session
    let rest := handleLines raws first.1
    (rest.1, first.2 ++ rest.2)

/-- `stopSession`, as far as the output sees it. -/
def stop (x : Stdout) : Stdout :=
  if x.exited then x else { x with session := { x.session with stopRequested := true } }

def oversizeChunk : FlatChunk := { error := some (str "runtime_output_oversize"), done := true }

def handleStdoutChunk (piece : Text) (x : Stdout) : Stdout × List Broadcast :=
  let buffer := x.stdoutBuffer ++ piece
  if STDOUT_OVERSIZE_LIMIT < units buffer then (stop { x with stdoutBuffer := buffer }, [.oversize oversizeChunk])
  else
    let out := handleLines (JsText.lines newline buffer) x.session
    ({ x with stdoutBuffer := JsText.remainder newline buffer, session := out.1 }, out.2.map .event)

/-- The exit handler up to its broadcast. -/
def flushOutput (x : Stdout) : Stdout × List Broadcast :=
  let tail := flush x.decoder
  let x := { x with decoder := tail.2, stdoutBuffer := x.stdoutBuffer ++ tail.1 }
  if trimText x.stdoutBuffer ≠ [] then handleStdoutChunk [] { x with stdoutBuffer := x.stdoutBuffer ++ [newline] }
  else (x, [])

def step (x : Stdout) : ProcEvent → Stdout × List Broadcast
  | .data buf =>
    let decoded := x.decoder.decode buf
    handleStdoutChunk decoded.1 { x with decoder := decoded.2 }
  | .exit =>
    if x.exited then (x, [])
    else
      let out := flushOutput x
      ({ out.1 with exited := true }, out.2 ++ [.sessionExit])

def machine : Machine Stdout ProcEvent (List Broadcast) := ⟨step⟩

def start (session : CcSession) : Stdout := ⟨⟨[], false⟩, [], false, session⟩

/-! ### The text of the stream -/

def text (bytes : Bytes) : Text := (TextDecoder.decode ⟨[], false⟩ bytes).1

/-- The last line, which the exit ends; it may hold what is left of a character. -/
def lastLine (bytes : Bytes) : Text :=
  JsText.remainder newline (text bytes) ++ (flush (TextDecoder.decode ⟨[], false⟩ bytes).2).1

/-- All lines of the stream, the last one included. -/
def allLines (bytes : Bytes) : List Text := JsText.lines newline (text bytes) ++ [lastLine bytes]

/-- What is tested against the limit when `value` arrives after `before`. -/
def accumulated (before value : Bytes) : Text :=
  JsText.remainder newline (text before) ++ ((TextDecoder.decode ⟨[], false⟩ before).2.decode value).1

/-- No chunk makes the accumulated text longer than the limit, -/
def DataFits (chunks : List Bytes) : Prop :=
  ∀ pre value post, chunks = pre ++ value :: post → units (accumulated pre.flatten value) ≤ STDOUT_OVERSIZE_LIMIT

/-- nor does the newline that the exit adds to a last line. -/
def ExitFits (chunks : List Bytes) : Prop :=
  trimText (lastLine chunks.flatten) ≠ [] → units (lastLine chunks.flatten) + 1 ≤ STDOUT_OVERSIZE_LIMIT

theorem handleLines_append (xs ys : List Text) (session : CcSession) :
    handleLines (xs ++ ys) session =
      ((handleLines ys (handleLines xs session).1).1, (handleLines xs session).2 ++ (handleLines ys (handleLines xs session).1).2) := by
  induction xs generalizing session with
  | nil => rfl
  | cons x xs ih => simp only [List.cons_append, handleLines, ih, List.append_assoc]

theorem handleLine_blank {raw : Text} (h : trimText raw = []) (session : CcSession) : handleLine raw session = (session, []) := by
  unfold handleLine
  dsimp only
  rw [if_pos h]

/-- A chunk that fits. -/
theorem handleStdoutChunk_fits {piece : Text} (x : Stdout) (h : units (x.stdoutBuffer ++ piece) ≤ STDOUT_OVERSIZE_LIMIT) :
    handleStdoutChunk piece x =
      ({ x with
          stdoutBuffer := JsText.remainder newline (x.stdoutBuffer ++ piece)
          session := (handleLines (JsText.lines newline (x.stdoutBuffer ++ piece)) x.session).1 },
        (handleLines (JsText.lines newline (x.stdoutBuffer ++ piece)) x.session).2.map .event) := by
  unfold handleStdoutChunk
  dsimp only
  rw [if_neg (Nat.not_lt.mpr h)]

/-- After chunks that fit: every complete line has been handled. -/
structure Read (session : CcSession) (bytes : Bytes) (x : Stdout) : Prop where
  decoder : x.decoder = (TextDecoder.decode ⟨[], false⟩ bytes).2
  stdoutBuffer : x.stdoutBuffer = JsText.remainder newline (text bytes)
  exited : x.exited = false
  session_eq : x.session = (handleLines (JsText.lines newline (text bytes)) session).1

theorem read_start (session : CcSession) : Read session [] (start session) := ⟨rfl, rfl, rfl, rfl⟩

theorem lines_text_append (before value : Bytes) :
    text (before ++ value) = text before ++ ((TextDecoder.decode ⟨[], false⟩ before).2.decode value).1 ∧
      JsText.lines newline (text (before ++ value)) =
        JsText.lines newline (text before) ++ JsText.lines newline (accumulated before value) ∧
      JsText.remainder newline (text (before ++ value)) = JsText.remainder newline (accumulated before value) := by
  have htext : text (before ++ value) = text before ++ ((TextDecoder.decode ⟨[], false⟩ before).2.decode value).1 := by
    unfold text
    rw [TextDecoder.decode_append]
  rw [htext]
  exact ⟨rfl, JsText.lines_append (text before) ((TextDecoder.decode ⟨[], false⟩ before).2.decode value).1⟩

theorem read_step {session : CcSession} {before : Bytes} {x : Stdout} (h : Read session before x) {value : Bytes}
    (hfits : units (accumulated before value) ≤ STDOUT_OVERSIZE_LIMIT) :
    Read session (before ++ value) (step x (.data value)).1 ∧
      (step x (.data value)).2 = (handleLines (JsText.lines newline (accumulated before value)) x.session).2.map .event := by
  have hbuffer : x.stdoutBuffer ++ (x.decoder.decode value).1 = accumulated before value := by
    rw [h.stdoutBuffer, h.decoder]
    rfl
  have hstep : step x (.data value) = _ :=
    handleStdoutChunk_fits { x with decoder := (x.decoder.decode value).2 }
      (by rw [show _ = accumulated before value from hbuffer]; exact hfits)
  obtain ⟨-, hlines, hrest⟩ := lines_text_append before value
  rw [hstep]
  dsimp only
  rw [hbuffer]
  refine ⟨⟨?_, hrest.symm, h.exited, ?_⟩, rfl⟩
  · show (x.decoder.decode value).2 = _
    rw [h.decoder, TextDecoder.decode_append]
  · show (handleLines _ x.session).1 = _
    rw [hlines, handleLines_append, h.session_eq]

/-- The output so far is that of the complete lines. -/
theorem read_data (session : CcSession) (chunks : List Bytes) (h : DataFits chunks) :
    Read session chunks.flatten (machine.run (start session) (chunks.map .data)) ∧
      (machine.trace (start session) (chunks.map .data)).flatten =
        (handleLines (JsText.lines newline (text chunks.flatten)) session).2.map .event := by
  induction chunks using List.reverseRecOn with
  | nil => exact ⟨read_start session, rfl⟩
  | append_singleton chunks value ih =>
    have hbefore : DataFits chunks := fun pre v post heq => h pre v (post ++ [value]) (by rw [heq]; simp)
    obtain ⟨hread, htrace⟩ := ih hbefore
    have hfits := h chunks value [] rfl
    obtain ⟨hnext, hout⟩ := read_step hread hfits
    simp only [List.map_append, List.map_singleton, Machine.run_snoc, Machine.trace_snoc, List.flatten_append,
      List.flatten_singleton, htrace]
    refine ⟨hnext, ?_⟩
    show _ ++ (step _ (.data value)).2 = _
    rw [hout, hread.session_eq, (lines_text_append chunks.flatten value).2.1, handleLines_append, List.map_append]

/-! ### The exit -/

theorem newline_not_mem_flush (d : TextDecoder) : newline ∉ (flush d).1 := by
  intro hmem
  have hchar := Sse.skipMark_subset _ _ _ hmem
  unfold Utf8.finish at hchar
  split at hchar
  · cases hchar
  · have heq : newline = Utf8.replacement := List.mem_singleton.mp hchar
    exact absurd heq (by decide)

theorem newline_not_mem_lastLine (bytes : Bytes) : newline ∉ lastLine bytes := by
  intro hmem
  rcases List.mem_append.mp hmem with hmem | hmem
  · exact JsText.newline_not_mem_remainder _ hmem
  · exact newline_not_mem_flush _ hmem

theorem units_snoc (t : Text) : units (t ++ [newline]) = units t + 1 := by
  unfold units
  rw [List.flatMap_append, List.length_append]
  rfl

/-- The exit handles the last line. -/
theorem read_exit {session : CcSession} {bytes : Bytes} {x : Stdout} (h : Read session bytes x)
    (hfits : trimText (lastLine bytes) ≠ [] → units (lastLine bytes) + 1 ≤ STDOUT_OVERSIZE_LIMIT) :
    (step x .exit).2 = (handleLine (lastLine bytes) x.session).2.map .event ++ [.sessionExit] ∧
      (step x .exit).1.session = (handleLine (lastLine bytes) x.session).1 ∧ (step x .exit).1.exited = true := by
  have hlast : x.stdoutBuffer ++ (flush x.decoder).1 = lastLine bytes := by
    rw [h.stdoutBuffer, h.decoder]
    rfl
  have hopen : ¬ x.exited = true := by
    rw [h.exited]
    exact Bool.false_ne_true
  have hstep : step x .exit = ({ (flushOutput x).1 with exited := true }, (flushOutput x).2 ++ [.sessionExit]) := if_neg hopen
  rw [hstep]
  unfold flushOutput
  dsimp only
  rw [hlast]
  by_cases hblank : trimText (lastLine bytes) = []
  · rw [if_neg (not_not.mpr hblank), handleLine_blank hblank]
    exact ⟨rfl, rfl, rfl⟩
  · rw [if_pos hblank, handleStdoutChunk_fits _ (by
      rw [List.append_nil, units_snoc]
      exact hfits hblank)]
    have hlines : JsText.lines newline (lastLine bytes ++ [newline] ++ []) = [lastLine bytes] := by
      rw [List.append_nil, JsText.lines_line (newline_not_mem_lastLine bytes)]
      rfl
    dsimp only
    rw [hlines]
    simp [handleLines]

def outputOf (chunks : List Bytes) : List ProcEvent := chunks.map .data ++ [.exit]

/-- Whatever fits is the output of the lines. -/
theorem output_eq (session : CcSession) {chunks : List Bytes} (hdata : DataFits chunks) (hexit : ExitFits chunks) :
    (machine.trace (start session) (outputOf chunks)).flatten =
        (handleLines (allLines chunks.flatten) session).2.map .event ++ [.sessionExit] ∧
      (machine.run (start session) (outputOf chunks)).session = (handleLines (allLines chunks.flatten) session).1 := by
  obtain ⟨hread, htrace⟩ := read_data session chunks hdata
  obtain ⟨hout, hsession, -⟩ := read_exit hread hexit
  have hall : handleLines (allLines chunks.flatten) session =
      ((handleLine (lastLine chunks.flatten) (handleLines (JsText.lines newline (text chunks.flatten)) session).1).1,
        (handleLines (JsText.lines newline (text chunks.flatten)) session).2 ++
          (handleLine (lastLine chunks.flatten) (handleLines (JsText.lines newline (text chunks.flatten)) session).1).2) := by
    unfold allLines
    rw [handleLines_append]
    simp [handleLines]
  unfold outputOf
  rw [Machine.run_snoc, Machine.trace_snoc, List.flatten_append, htrace, List.flatten_singleton, hall]
  refine ⟨?_, ?_⟩
  · show _ ++ (step _ .exit).2 = _
    rw [hout, hread.session_eq, List.map_append, List.append_assoc]
  · show (step _ .exit).1.session = _
    rw [hsession, hread.session_eq]

/-! ### What the lines contribute -/

/-- The values of the lines that are JSON. -/
def jsonLines (lines : List Text) : List Value :=
  lines.filterMap fun raw => if trimText raw = [] then none else Js.parse (fun c : CodePoint => c.val) (trimText raw)

def malformed (raw : Text) : Bool :=
  decide (trimText raw ≠ []) && (Js.parse (fun c : CodePoint => c.val) (trimText raw)).isNone

def handleEvent (parsed : Value) (session : CcSession) : CcSession × List FlatChunk :=
  let out := translateEvent parsed
    { session with lastEventType := (asString (parsed.get (str "type"))).or session.lastEventType }
  ({ out.1 with turnInFlight := out.1.turnInFlight && !out.2.any FlatChunk.done }, out.2)

def handleEvents : List Value → CcSession → CcSession × List FlatChunk
  | [], session => (session, [])
  | v :: vs, session =>
    let first := handleEvent v session
    let rest := handleEvents vs first.1
    (rest.1, first.2 ++ rest.2)

/-- The session with other diagnostics. -/
def diagnosed (stderrBuffer : Str) (malformedStdoutLines : ℕ) (session : CcSession) : CcSession :=
  { session with stderrBuffer := stderrBuffer, malformedStdoutLines := malformedStdoutLines }

theorem ite_diagnosed {p : Prop} [Decidable p] {b : Str} {n : ℕ} {x x' y y' : CcSession × List FlatChunk}
    (hx : x = x'.map (diagnosed b n) id) (hy : y = y'.map (diagnosed b n) id) :
    (if p then x else y) = (if p then x' else y').map (diagnosed b n) id := by
  split
  · exact hx
  · exact hy

theorem translateEvent_diagnosed (ev : Value) (b : Str) (n : ℕ) (session : CcSession) :
    translateEvent ev (diagnosed b n session) = (translateEvent ev session).map (diagnosed b n) id := by
  have hdelta : blockDelta ev (diagnosed b n session) = (blockDelta ev session).map (diagnosed b n) id := by
    unfold blockDelta
    dsimp only
    refine ite_diagnosed rfl (ite_diagnosed ?_ rfl)
    cases asString ((orObject (ev.get (str "delta"))).get (str "partial_json")) with
    | none => rfl
    | some partialJson => cases blockIndex ev <;> rfl
  have hstart : blockStart ev (diagnosed b n session) = (blockStart ev session).map (diagnosed b n) id :=
    ite_diagnosed rfl rfl
  have hsystem : systemEvent ev (diagnosed b n session) = (systemEvent ev session).map (diagnosed b n) id :=
    ite_diagnosed rfl rfl
  unfold translateEvent
  cases asString (ev.get (str "type")) with
  | none => rfl
  | some t =>
    dsimp only
    refine ite_diagnosed hsystem (ite_diagnosed ?_ (ite_diagnosed rfl (ite_diagnosed rfl (ite_diagnosed rfl
      (ite_diagnosed hstart (ite_diagnosed hdelta (ite_diagnosed ?_ (ite_diagnosed rfl (ite_diagnosed rfl rfl)))))))))
    · split <;> rfl
    · cases blockIndex ev <;> rfl

theorem handleEvent_diagnosed (v : Value) (b : Str) (n : ℕ) (session : CcSession) :
    handleEvent v (diagnosed b n session) = (handleEvent v session).map (diagnosed b n) id := by
  let r : CcSession := { session with lastEventType := (asString (v.get (str "type"))).or session.lastEventType }
  let finish : CcSession × List FlatChunk → CcSession × List FlatChunk := fun out =>
    ({ out.1 with turnInFlight := out.1.turnInFlight && !out.2.any FlatChunk.done }, out.2)
  calc handleEvent v (diagnosed b n session) = finish (translateEvent v (diagnosed b n r)) := rfl
    _ = finish ((translateEvent v r).map (diagnosed b n) id) := by rw [translateEvent_diagnosed]
    _ = (handleEvent v session).map (diagnosed b n) id := rfl

theorem handleEvents_diagnosed (vs : List Value) (b : Str) (n : ℕ) (session : CcSession) :
    handleEvents vs (diagnosed b n session) = (handleEvents vs session).map (diagnosed b n) id := by
  induction vs generalizing session with
  | nil => rfl
  | cons v vs ih =>
    unfold handleEvents
    dsimp only
    rw [handleEvent_diagnosed]
    dsimp only [Prod.map]
    rw [ih]
    rfl

theorem malformed_handleEvents (vs : List Value) (session : CcSession) :
    (handleEvents vs session).1.malformedStdoutLines = session.malformedStdoutLines := by
  have h := handleEvents_diagnosed vs session.stderrBuffer session.malformedStdoutLines session
  exact congrArg (fun out : CcSession × List FlatChunk => out.1.malformedStdoutLines) h

/-- Each JSON line contributes its translation in order, a malformed line is counted, and
a blank line does nothing. -/
theorem handleLines_eq (lines : List Text) (session : CcSession) :
    ∃ b, handleLines lines session =
      (handleEvents (jsonLines lines) session).map (diagnosed b (session.malformedStdoutLines + lines.countP malformed)) id := by
  induction lines generalizing session with
  | nil => exact ⟨session.stderrBuffer, rfl⟩
  | cons raw lines ih =>
    by_cases hblank : trimText raw = []
    · obtain ⟨b, hb⟩ := ih session
      have hjson : jsonLines (raw :: lines) = jsonLines lines := by simp [jsonLines, hblank]
      have hcount : (raw :: lines).countP malformed = lines.countP malformed := by simp [malformed, hblank]
      refine ⟨b, ?_⟩
      rw [hjson, hcount, ← hb]
      simp only [handleLines, handleLine_blank hblank, List.nil_append]
    · cases hparse : Js.parse (fun c : CodePoint => c.val) (trimText raw) with
      | none =>
        have hjson : jsonLines (raw :: lines) = jsonLines lines := by simp [jsonLines, hblank, hparse]
        have hcount : (raw :: lines).countP malformed = lines.countP malformed + 1 := by simp [malformed, hblank, hparse]
        let b' := session.stderrBuffer ++ str "[cc-wrapper] malformed stdout line: " ++
          ((trimText raw).flatMap fun c => JsText.utf16 c.val).take 200 ++ str "\n"
        have hline : handleLine raw session = (diagnosed b' (session.malformedStdoutLines + 1) session, []) := by
          unfold handleLine
          dsimp only
          rw [if_neg hblank, hparse]
          rfl
        obtain ⟨b, hb⟩ := ih (diagnosed b' (session.malformedStdoutLines + 1) session)
        refine ⟨b, ?_⟩
        rw [hjson, hcount]
        simp only [handleLines, hline, List.nil_append, hb]
        rw [handleEvents_diagnosed]
        simp only [diagnosed, Prod.map, id, Nat.add_assoc, Nat.add_comm 1]
      | some v =>
        have hjson : jsonLines (raw :: lines) = v :: jsonLines lines := by simp [jsonLines, hblank, hparse]
        have hcount : (raw :: lines).countP malformed = lines.countP malformed := by simp [malformed, hparse]
        have hline : handleLine raw session = handleEvent v session := by
          unfold handleLine
          dsimp only
          rw [if_neg hblank, hparse]
          rfl
        obtain ⟨b, hb⟩ := ih (handleEvent v session).1
        refine ⟨b, ?_⟩
        have hsame : (handleEvent v session).1.malformedStdoutLines = session.malformedStdoutLines := by
          have h := malformed_handleEvents [v] session
          exact h
        rw [hjson, hcount]
        simp only [handleLines, handleEvents, hline, hb, hsame]
        rfl

/-- Chunks that fit give what any other chunks of the same bytes give that fit: the
translations of the JSON lines in order and the exit. -/
theorem output_independent_of_chunking (session : CcSession) {chunks whole : List Bytes} (hbytes : whole.flatten = chunks.flatten)
    (hdata : DataFits chunks) (hexit : ExitFits chunks) (hwhole : DataFits whole) :
    let events := handleEvents (jsonLines (allLines chunks.flatten)) session
    (machine.trace (start session) (outputOf chunks)).flatten = (machine.trace (start session) (outputOf whole)).flatten ∧
      (machine.run (start session) (outputOf chunks)).session = (machine.run (start session) (outputOf whole)).session ∧
      (machine.trace (start session) (outputOf chunks)).flatten = events.2.map .event ++ [.sessionExit] ∧
      (machine.run (start session) (outputOf chunks)).session.ccSessionId = events.1.ccSessionId ∧
      (machine.run (start session) (outputOf chunks)).session.turnInFlight = events.1.turnInFlight ∧
      (machine.run (start session) (outputOf chunks)).session.malformedStdoutLines =
        session.malformedStdoutLines + (allLines chunks.flatten).countP malformed := by
  intro events
  have hexit' : ExitFits whole := by
    unfold ExitFits
    rw [hbytes]
    exact hexit
  obtain ⟨htrace, hsession⟩ := output_eq session hdata hexit
  obtain ⟨htrace', hsession'⟩ := output_eq session hwhole hexit'
  rw [hbytes] at htrace' hsession'
  obtain ⟨b, hb⟩ := handleLines_eq (allLines chunks.flatten) session
  refine ⟨htrace.trans htrace'.symm, hsession.trans hsession'.symm, ?_, ?_, ?_, ?_⟩
  · rw [htrace, hb]
    rfl
  all_goals
    rw [hsession, hb]
    rfl

instance (chunks : List Bytes) : Decidable (DataFits chunks) :=
  decidable_of_iff (∀ i : Fin chunks.length, units (accumulated (chunks.take i).flatten chunks[i]) ≤ STDOUT_OVERSIZE_LIMIT) <| by
    constructor
    · intro h pre value post heq
      have hlt : pre.length < chunks.length := by simp [heq]
      have hi := h ⟨pre.length, hlt⟩
      simpa [heq] using hi
    · intro h i
      refine h (chunks.take i) chunks[i] (chunks.drop (i + 1)) ?_
      exact (List.take_append_drop i chunks).symm.trans (by rw [List.drop_eq_getElem_cons i.isLt]; rfl)

instance (chunks : List Bytes) : Decidable (ExitFits chunks) := inferInstanceAs (Decidable (_ → _))

def freshSession : CcSession := ⟨str "conv-1", none, [], ∅, none, none, 0, true, false⟩

/-- The end of a turn and a malformed line, cut in the middle of a character. -/
def cutChunks : List Bytes :=
  [Sse.asciiBytes "\x7b\"type\":\"result\",\"result\":\"caf", [0xC3], [0xA9] ++ Sse.asciiBytes "\"\x7d\noops"]

theorem output_independent_of_chunking_sample :
    let events := handleEvents (jsonLines (allLines cutChunks.flatten)) freshSession
    (machine.trace (start freshSession) (outputOf cutChunks)).flatten =
        (machine.trace (start freshSession) (outputOf [cutChunks.flatten])).flatten ∧
      (machine.run (start freshSession) (outputOf cutChunks)).session =
        (machine.run (start freshSession) (outputOf [cutChunks.flatten])).session ∧
      (machine.trace (start freshSession) (outputOf cutChunks)).flatten = events.2.map .event ++ [.sessionExit] ∧
      (machine.run (start freshSession) (outputOf cutChunks)).session.ccSessionId = events.1.ccSessionId ∧
      (machine.run (start freshSession) (outputOf cutChunks)).session.turnInFlight = events.1.turnInFlight ∧
      (machine.run (start freshSession) (outputOf cutChunks)).session.malformedStdoutLines =
        freshSession.malformedStdoutLines + (allLines cutChunks.flatten).countP malformed :=
  output_independent_of_chunking freshSession List.flatten_singleton (by decide +kernel) (by decide +kernel) (by decide +kernel)

example : (machine.run (start freshSession) (outputOf cutChunks)).session.turnInFlight = false ∧
    (machine.run (start freshSession) (outputOf cutChunks)).session.malformedStdoutLines = 1 := by decide +kernel

end AgentWorkflow.Desktop.CcStdout
