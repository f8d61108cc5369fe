import AgentWorkflow.Lib.JsValue

/-!
# Events of the Agent CLI (`electron/cc/cc-wrapper.ts`)

`translateEvent`: a parsed line of the process becomes chunks for the renderer and
updates the session.
-/

namespace AgentWorkflow.Desktop.CcStdout
open AgentWorkflow.Lib AgentWorkflow.Lib.Js

structure Usage where
  inputTokens : Option Number
  outputTokens : Option Number
  cacheReadInputTokens : Option Number
  cacheCreationInputTokens : Option Number

structure FlatChunk where
  type : Option Str := none
  delta : Option Str := none
  conversationId : Option Str := none
  model : Option Str := none
  usage : Option Usage := none
  label : Option Str := none
  tool : Option Str := none
  done : Bool := false
  error : Option Str := none
  ccSessionId : Option Str := none

/-- What the lines of the process read and change of a session. The key of a tool input
is the word of its block index. -/
structure CcSession where
  conversationId : Str
  model : Option Str
  stderrBuffer : Str
  pendingToolInput : Finmap fun _ : ℕ => Str
  ccSessionId : Option Str
  lastEventType : Option Str
  malformedStdoutLines : ℕ
  turnInFlight : Bool
  stopRequested : Bool

def isUnderscore (u : UInt16) : Bool := decide (u = 0x5F)
def isSlash (u : UInt16) : Bool := decide (u = 0x2F ∨ u = 0x5C)

/-! ### Labels -/

/-- `[^_]+__` at the beginning -/
def afterName (t : Str) : Option Str :=
  let run := t.takeWhile fun u => !isUnderscore u
  let rest := t.drop run.length
  if run ≠ [] ∧ (str "__").isPrefixOf rest then some (rest.drop 2) else none

def toolName (rawName : Str) : Str :=
  if (str "mcp__").isPrefixOf rawName then
    match afterName (rawName.drop 5) with
    | none => rawName
    | some rest => (afterName rest).getD rest
  else rawName

def trim (s : Str) : Str := JsText.trim UInt16.toNat s

/-- `a || b` -/
def orElse (a b : Str) : Str := if a ≠ [] then a else b

def head (value : Str) : Str :=
  let first := trim (value.takeWhile fun u => decide (u ≠ 0x0A))
  if 40 < first.length then first.take 40 ++ str "..." else first

def base (value : Str) : Str :=
  let stripped := value.rdropWhile isSlash
  orElse (stripped.rtakeWhile fun u => !isSlash u) value

/-- `_toolStatusLabel` -/
def toolStatusLabel (rawName : Str) (input : Option Value) : Str :=
  let name := toolName rawName
  let text (key : String) : Str := (asString (input.bind (Value.get (str key)))).getD []
  if name ∈ [str "vm_exec", str "vm_exec_stream", str "Bash"] then
    let command := orElse (text "command") (text "cmd")
    if command ≠ [] then str "Running: " ++ head command else str "Running command"
  else if name ∈ [str "vm_write_file", str "Write"] then
    let file := orElse (text "path") (text "file_path")
    if file ≠ [] then str "Writing " ++ base file else str "Writing file"
  else if name ∈ [str "vm_read_file", str "Read"] then
    let file := orElse (text "path") (text "file_path")
    if file ≠ [] then str "Reading " ++ base file else str "Reading file"
  else if name ∈ [str "Edit", str "MultiEdit"] then
    let file := text "file_path"
    if file ≠ [] then str "Editing " ++ base file else str "Editing file"
  else if name = str "awp_save_artifact" then str "Saving artifact"
  else if name = str "awp_open_file_in_tab" then str "Opening file"
  else if name = str "awp_notify_user" then []
  else if name = str "Grep" then str "Searching code"
  else if name = str "Glob" then str "Finding files"
  else if name ∈ [str "WebSearch", str "WebFetch"] then str "Retrieving information"
  else if name = str "TodoWrite" then str "Updating task list"
  else if name = str "Task" then str "Running subtask"
  else str "Working"

/-! ### Events -/

/-- `v ?? {}` -/
def orObject : Option Value → Value
  | none | some .null => .obj []
  | some v => v

def usageOf (v : Value) : Usage where
  inputTokens := asNumber (v.get (str "input_tokens"))
  outputTokens := asNumber (v.get (str "output_tokens"))
  cacheReadInputTokens := asNumber (v.get (str "cache_read_input_tokens"))
  cacheCreationInputTokens := asNumber (v.get (str "cache_creation_input_tokens"))

/-- The usage of an event where it has one. -/
def usage (ev : Value) : Option Usage := if truthy (ev.get (str "usage")) then (ev.get (str "usage")).map usageOf else none

/-- `idx` where it is not negative -/
def blockIndex (ev : Value) : Option ℕ :=
  match asNumber (ev.get (str "index")) with
  | none => none
  | some n => if n.negative ∧ n.word ≠ 0 then none else some n.word

def status (label : Str) (tool : Option Str) : FlatChunk := { type := some (str "cc_status"), label := some label, tool := tool }

/-- The chunks of one block of an `assistant` message. -/
def blockChunks (b : Value) : List FlatChunk :=
  let bt := asString (b.get (str "type"))
  if bt = some (str "text") ∧ (asString (b.get (str "text"))).isSome then
    let text := (asString (b.get (str "text"))).getD []
    if text ≠ [] then [{ delta := some text }] else []
  else if bt = some (str "tool_use") then
    let name := (asString (b.get (str "name"))).getD (str "tool")
    [status (toolStatusLabel name (b.get (str "input"))) (some name)]
  else []

def systemEvent (ev : Value) (session : CcSession) : CcSession × List FlatChunk :=
  if asString (ev.get (str "subtype")) = some (str "init") then
    let ccSessionId := asString (ev.get (str "session_id"))
    ({ session with ccSessionId := (ccSessionId.filter (· ≠ [])).or session.ccSessionId },
      [status (str "ready") none,
        { type := some (str "message_start")
          conversationId := some session.conversationId
          model := (asString (ev.get (str "model"))).or session.model
          ccSessionId := ccSessionId }])
  else (session, [])

def resultEvent (ev : Value) : FlatChunk :=
  let isError := ev.get (str "is_error") matches some (.bool true)
  let subtype := (asString (ev.get (str "subtype"))).getD []
  { done := true
    usage := usage ev
    error :=
      if isError then
        some ((asString (ev.get (str "result"))).getD
          (if subtype ≠ [] then str "cc_" ++ subtype else str "cc_error"))
      else none }

def blockStart (ev : Value) (session : CcSession) : CcSession × List FlatChunk :=
  let block := orObject (ev.get (str "content_block"))
  if asString (block.get (str "type")) = some (str "tool_use") then
    let name := (asString (block.get (str "name"))).getD (str "tool")
    ({ session with
        pendingToolInput := match blockIndex ev with
          | some idx => session.pendingToolInput.insert idx []
          | none => session.pendingToolInput },
      [status (toolStatusLabel name none) (some name)])
  else (session, [])

def blockDelta (ev : Value) (session : CcSession) : CcSession × List FlatChunk :=
  let delta := orObject (ev.get (str "delta"))
  let type := asString (delta.get (str "type"))
  if type = some (str "text_delta") ∧ (asString (delta.get (str "text"))).isSome then
    (session, [{ delta := asString (delta.get (str "text")) }])
  else if type = some (str "input_json_delta") then
    match asString (delta.get (str "partial_json")), blockIndex ev with
    | some partialJson, some idx =>
      ({ session with
          pendingToolInput := session.pendingToolInput.insert idx
            (((session.pendingToolInput.lookup idx).getD []) ++ partialJson) }, [])
    | _, _ => (session, [])
  else (session, [])

/-- No chunk is `null`. -/
def translateEvent (ev : Value) (session : CcSession) : CcSession × List FlatChunk :=
  match asString (ev.get (str "type")) with
  | none => (session, [])
  | some t =>
    if t = str "system" then systemEvent ev session
    else if t = str "assistant" then
      match (orObject (ev.get (str "message"))).get (str "content") with
      | some (.arr content) => (session, content.flatMap blockChunks)
      | _ => (session, [])
    else if t = str "rate_limit_event" then
      let state := (asString ((orObject (ev.get (str "rate_limit_info"))).get (str "status"))).getD []
      (session, if state ≠ [] ∧ state ≠ str "allowed" then [status (str "rate_limited") none] else [])
    else if t = str "result" then (session, [resultEvent ev])
    else if t = str "message_start" then
      (session,
        [{ type := some (str "message_start")
           conversationId := some session.conversationId
           model := (asString ((orObject (ev.get (str "message"))).get (str "model"))).or session.model }])
    else if t = str "content_block_start" then blockStart ev session
    else if t = str "content_block_delta" then blockDelta ev session
    else if t = str "content_block_stop" then
      (match blockIndex ev with
        | some idx => { session with pendingToolInput := session.pendingToolInput.erase idx }
        | none => session, [])
    else if t = str "message_delta" then
      (session, match usage ev with
        | some u => [{ usage := some u }]
        | none => [])
    else if t = str "message_stop" then (session, [{ done := true }])
    else (session, [])

end AgentWorkflow.Desktop.CcStdout
