import AgentWorkflow.Desktop.SseHandle
import AgentWorkflow.Lib.JsValue

/-!
# The connection monitor (`electron/services/connection-health.ts`)

The globals of the module and the loops that are running. A loop is always at an `await`;
what it waits for settles, and only then does the loop go on.
-/

namespace AgentWorkflow.Desktop.Connection
open AgentWorkflow.Lib AgentWorkflow.Lib.Js AgentWorkflow.Lib.PyStr
open Sse (Bytes Text TextDecoder newline units)

def BACKOFF_CAP_MS : ℕ := 30000
def BACKOFF_CAP_AUTH_MS : ℕ := 60000
def CONTROL_PLANE_POLL_MS : ℕ := 5000
def MAX_JSON_BYTES : ℕ := 1048576
def MAX_SSE_BUFFER_CHARS : ℕ := 1048576

/-! ### Snapshots -/

structure Snapshot where
  state : Value
  agentId : Value
  lastHeartbeat : Value
  lastHeartbeatAgeS : Value
  transport : Value
  activeTasks : Value
  version : Value
  uptimeS : Value
  recentErrors : Value
  hostname : Value
  receivedAtMs : ℕ
  lastError : Value

def number (n : ℕ) : Value := .num ⟨false, (Binary64.ofRat n).getD Binary64.infinity⟩

def defaultSnapshot (now : ℕ) : Snapshot :=
  ⟨.str (str "unknown"), .null, .null, .null, .str (str "disabled"), .num ⟨false, 0⟩, .str [], .null, .arr [], .str [], now, .null⟩

/-- The members that an update assigns. -/
structure Patch where
  state : Option Value := none
  agentId : Option Value := none
  lastHeartbeat : Option Value := none
  lastHeartbeatAgeS : Option Value := none
  transport : Option Value := none
  activeTasks : Option Value := none
  version : Option Value := none
  uptimeS : Option Value := none
  recentErrors : Option Value := none
  hostname : Option Value := none
  lastError : Option Value := none

def Patch.apply (p : Patch) (now : ℕ) (last : Snapshot) : Snapshot where
  state := p.state.getD last.state
  agentId := p.agentId.getD last.agentId
  lastHeartbeat := p.lastHeartbeat.getD last.lastHeartbeat
  lastHeartbeatAgeS := p.lastHeartbeatAgeS.getD last.lastHeartbeatAgeS
  transport := p.transport.getD last.transport
  activeTasks := p.activeTasks.getD last.activeTasks
  version := p.version.getD last.version
  uptimeS := p.uptimeS.getD last.uptimeS
  recentErrors := p.recentErrors.getD last.recentErrors
  hostname := p.hostname.getD last.hostname
  receivedAtMs := now
  lastError := p.lastError.getD last.lastError

def isNaN : Value → Bool
  | .num n => decide (Binary64.infinity < n.word)
  | _ => false

/-- `a === b` for a value and one that was parsed or made later. -/
def strictEqual : Value → Value → Bool
  | .null, .null => true
  | .bool a, .bool b => a == b
  | .num a, .num b => decide (a = b ∨ a.word = 0 ∧ b.word = 0) && decide (a.word ≤ Binary64.infinity)
  | .str s, .str t => decide (s = t)
  | _, _ => false

/-- A member that is not assigned keeps its value, which differs from itself only if it is
not a number. -/
def differs (assigned : Option Value) (last : Value) : Bool :=
  match assigned with
  | none => isNaN last
  | some v => !strictEqual v last

def Patch.changes (p : Patch) (last : Snapshot) : Bool :=
  differs p.state last.state || differs p.agentId last.agentId || differs p.lastHeartbeat last.lastHeartbeat ||
    differs p.lastHeartbeatAgeS last.lastHeartbeatAgeS || differs p.transport last.transport ||
    differs p.activeTasks last.activeTasks || differs p.version last.version || differs p.hostname last.hostname ||
    differs p.lastError last.lastError

def failure (state message : Str) : Patch := { state := some (.str state), lastError := some (.str message) }

/-! ### The environment -/

/-- The variables of `process.env` that are read. -/
structure Env where
  connectionHealthSseUrl : Option Str
  enableConnectionHealthSse : Option Str
  controlPlaneUrl : Option Str
  controlPlaneApiKey : Option Str
  nodeEnv : Option Str
  enableNetworkInTests : Option Str

/-- What comes from other modules and from the platform. `rejectsSecond` says whether
`ipcMain.handle` throws for a channel that has a handler. -/
structure Platform where
  normalizeServiceBaseUrl : Option Str → Option Str
  normalizeServiceEndpointUrl : Option Str → Option Str
  pathname : Str → Str
  host : Str → Str
  tasksUrl : Str → Str
  toText : Value → Option Str
  toNumber : Value → Except Str Number
  abortMessage : Str
  rejectsSecond : Bool

inductive Target
  | disabled
  | controlPlanePoll (url : Str)
  | compatSse (url : Str)

section
variable (P : Platform)

def resolveConnectionTarget (env : Env) : Target :=
  if env.enableConnectionHealthSse = some (str "1") then
    match P.normalizeServiceEndpointUrl env.connectionHealthSseUrl with
    | none => .disabled
    | some streamUrl => .compatSse streamUrl
  else if env.connectionHealthSseUrl.getD [] ≠ [] then .disabled
  else if env.controlPlaneUrl.getD [] = [] then .disabled
  else
    match P.normalizeServiceBaseUrl env.controlPlaneUrl with
    | none => .disabled
    | some base => .controlPlanePoll (base ++ str "/v1/health/ready")

def shouldAutoConnect (env : Env) : Bool :=
  match resolveConnectionTarget P env with
  | .disabled => false
  | _ => decide (env.nodeEnv ≠ some (str "test") ∨ env.enableNetworkInTests = some (str "1"))

def controlPlaneToken (env : Env) : Str := JsText.trim UInt16.toNat (env.controlPlaneApiKey.getD [])

/-! ### Frames -/

/-- The texts between empty lines, and what follows the last. -/
def frames : Text → List Text × Text
  | [] => ([], [])
  | [c] => ([], [c])
  | c :: d :: t =>
    if c = newline ∧ d = newline then
      let r := frames t
      ([] :: r.1, r.2)
    else
      let r := frames (d :: t)
      match r.1 with
      | [] => ([], c :: r.2)
      | f :: fs => ((c :: f) :: fs, r.2)

def nullish (v : Option Value) (default : Value) : Value :=
  match v with
  | none | some .null => default
  | some v => v

/-- The type and the data of a frame. -/
def parseSseFrame (frame : Text) : Option (Str × Option Value) :=
  let dataLines := ((JsText.lines newline frame ++ [JsText.remainder newline frame]).filter fun line =>
    decide (ofString "data:" <+: line)).map fun line => (line.drop 5).dropWhile fun c => JsText.isSpace c.val
  if dataLines = [] then none
  else
    match Js.parse (fun c : CodePoint => c.val) ([newline].intercalate dataLines) with
    | none | some .null => none
    | some parsed => (P.toText (nullish (parsed.get (str "type")) (.str (str "message")))).map fun type =>
        (type, parsed.get (str "data"))

def firstErrors : Option Value → Value
  | some (.arr items) => .arr (items.take 20)
  | _ => .arr []

/-- The update of a snapshot frame. -/
def snapshotOf (frame : Text) : Option (Except Str Patch) :=
  match parseSseFrame P frame with
  | none => none
  | some (type, data) =>
    if type = str "snapshot" ∧ truthy data = true then
      let raw := data.getD .null
      some <| (P.toNumber (nullish (raw.get (str "active_tasks")) (.num ⟨false, 0⟩))).map fun activeTasks =>
        { state := some (nullish (raw.get (str "state")) (.str (str "unknown")))
          agentId := some (nullish (raw.get (str "agent_id")) .null)
          lastHeartbeat := some (nullish (raw.get (str "last_heartbeat")) .null)
          lastHeartbeatAgeS := some (nullish (raw.get (str "last_heartbeat_age_s")) .null)
          transport := some (nullish (raw.get (str "transport")) (.str (str "unknown")))
          activeTasks := some (.num activeTasks)
          version := some (nullish (raw.get (str "version")) (.str []))
          uptimeS := some (nullish (raw.get (str "uptime_s")) .null)
          recentErrors := some (firstErrors (raw.get (str "recent_errors")))
          hostname := some (nullish (raw.get (str "hostname")) (.str []))
          lastError := some .null }
    else none

/-! ### Responses -/

/-- `declared` is the content length, when it is a finite number. -/
structure Response extends Sse.Response where
  declared : Option ℕ

def units16 (t : Text) : Str := t.flatMap fun c => JsText.utf16 c.val

def withStatus (text : String) (res : Response) : Str := str text ++ units16 (Sse.decimal res.status)

def Response.tooLarge (res : Response) : Bool := res.declared.any fun n => decide (MAX_JSON_BYTES < n)

/-- `_readJsonLimited` once the text is there. -/
def readJson (text : Text) : Option Value :=
  if MAX_JSON_BYTES < ((PyStr.encode text).getD []).length then none else Js.parse (fun c : CodePoint => c.val) text

/-- The report on a response that is no event stream, and the cap of the wait after it. -/
def Response.refusal (res : Response) : Option (Patch × Option ℕ) :=
  let contentType := Sse.lowerCase (res.contentType.getD [])
  if res.status = 401 ∨ res.status = 403 then some (failure (str "unknown") (withStatus "auth-" res), some BACKOFF_CAP_AUTH_MS)
  else if res.ok = false ∨ res.hasBody = false then some (failure (str "error") (withStatus "http-" res), none)
  else if contentType ≠ [] ∧ ¬ ofString "text/event-stream" <:+: contentType then
    some (failure (str "error") (str "invalid-content-type"), none)
  else none

def isActive (task : Value) : Bool :=
  task.isObject && decide (asString (task.get (str "status")) = some (str "pending") ∨
    asString (task.get (str "status")) = some (str "running"))

def countActive : Value → ℕ
  | .arr items => items.countP isActive
  | _ => 0

/-! ### Loops -/

/-- Where a loop waits. -/
inductive Phase
  | readyFetch (url : Str)
  | readyText (url : Str)
  | tasksFetch (url : Str)
  | tasksText (url : Str)
  | authHeaders (url : Str)
  | streamFetch
  | streamRead (decoder : TextDecoder) (buffer : Text)

def Phase.isAuthHeaders : Phase → Bool
  | .authHeaders _ => true
  | _ => false

def Phase.isStream : Phase → Bool
  | .streamFetch | .streamRead .. => true
  | _ => false

/-- How the promise has settled. Headers that cannot be read are none; an error that is no
`Error` has no message. -/
inductive Settled
  | headers (authHeaders : List (Str × Str))
  | response (res : Response)
  | text (t : Text)
  | chunk (value : Option Bytes)
  | failed (message : Option Str)
  | aborted

def Phase.fits : Phase → Settled → Bool
  | .authHeaders _, .headers _ => true
  | .readyFetch _, .response _ | .tasksFetch _, .response _ | .streamFetch, .response _ => true
  | .readyText _, .text _ | .tasksText _, .text _ => true
  | .streamRead .., .chunk _ => true
  | .authHeaders _, _ => false
  | _, .failed _ => true
  | _, _ => false

/-- A call that has not returned. `signal` is the controller that its request was made
with, `timer` its timeout, while that is pending. -/
structure Loop where
  id : ℕ
  phase : Phase
  signal : Option ℕ
  settled : Option Settled
  timer : Bool
  timeoutReason : Option Str

/-- The globals, the timers of `startConnectionHealth` that nothing keeps, the loops, and
the controllers that were aborted. -/
structure Health where
  lastSnapshot : Snapshot
  abort : Option ℕ
  reconnectTimer : Option ℕ
  running : Bool
  backoffMs : ℕ
  handled : Bool
  startTimers : ℕ
  loops : List Loop
  aborted : List ℕ
  made : ℕ

/-- What others see: a request, a snapshot that is stored, a snapshot that is sent. -/
inductive Act
  | request (url : Str) (headers : List (Str × Str))
  | stored (snap : Snapshot)
  | broadcast (snap : Snapshot)

def initial : Health := ⟨defaultSnapshot 0, none, none, false, 2000, false, 0, [], [], 0⟩

def Loop.signalled (c : ℕ) (l : Loop) : Loop :=
  if l.signal = some c ∧ l.settled.isNone then { l with settled := some .aborted } else l

/-- The next `await` of a loop, which an aborted signal settles at once. -/
def Loop.next (aborted : List ℕ) (phase : Phase) (l : Loop) : Loop :=
  { l with phase := phase, settled := if l.signal.any (· ∈ aborted) then some .aborted else none }

/-- A loop that goes on: to its next `await`, or to its end. -/
structure Turn where
  health : Health
  acts : List Act
  loop : Option Loop

namespace Health

def mergeAndMaybeBroadcast (now : ℕ) (patch : Patch) (s : Health) : Health × List Act :=
  let next := patch.apply now s.lastSnapshot
  ({ s with lastSnapshot := next }, .stored next :: if patch.changes s.lastSnapshot then [.broadcast next] else [])

def scheduleReconnect (overrideCapMs : Option ℕ) (s : Health) : Health :=
  if s.running = false ∨ s.reconnectTimer.isSome then s
  else
    let cap := overrideCapMs.getD BACKOFF_CAP_MS
    { s with reconnectTimer := some (min s.backoffMs cap), backoffMs := min (s.backoffMs * 2) cap }

/-- `_abort?.abort()` -/
def abortCurrent (s : Health) : Health :=
  match s.abort with
  | none => s
  | some c => { s with aborted := c :: s.aborted, loops := s.loops.map (Loop.signalled c) }

/-- A report, the next attempt, and the `finally` clause. -/
def conclude (now : ℕ) (patch : Patch) (overrideCapMs : Option ℕ) (s : Health) : Turn :=
  let merged := s.mergeAndMaybeBroadcast now patch
  ⟨{ merged.1.scheduleReconnect overrideCapMs with abort := none }, merged.2, none⟩

/-- The `catch` clause. -/
def caught (now : ℕ) (isAbortError : Bool) (message : Str) (s : Health) : Turn :=
  if isAbortError = true ∧ s.running = false then ⟨{ s with abort := none }, [], none⟩
  else s.conclude now (failure (str "error") message) none

/-! ### `_runControlPlanePoll` -/

def pollMessage (l : Loop) : Str := l.timeoutReason.getD (str "health-request-failed")

def onReadyResponse (now : ℕ) (l : Loop) (url : Str) (res : Response) (s : Health) : Turn :=
  if res.ok = false then s.conclude now (failure (str "error") (withStatus "health-http-" res)) none
  else if res.tooLarge = true then s.caught now false (pollMessage l)
  else ⟨s, [], some (l.next s.aborted (.readyText url))⟩

def online (now : ℕ) (url : Str) (activeTasks : ℕ) (summaryError : Option Str) (s : Health) : Turn :=
  let error := (summaryError.map Value.str).getD .null
  { s with backoffMs := CONTROL_PLANE_POLL_MS }.conclude now
    { state := some (.str (if summaryError.isSome then str "degraded" else str "online"))
      agentId := some .null
      lastHeartbeat := some .null
      lastHeartbeatAgeS := some .null
      transport := some (.str (str "https-longpoll"))
      activeTasks := some (number activeTasks)
      version := some (.str (str "public-control-plane"))
      uptimeS := some .null
      recentErrors := some (.arr (summaryError.map Value.str).toList)
      hostname := some (.str (P.host url))
      lastError := some error }
    (some CONTROL_PLANE_POLL_MS)

def onReadyText (env : Env) (now : ℕ) (l : Loop) (url : Str) (text : Text) (s : Health) : Turn :=
  match readJson text with
  | none | some .null => s.caught now false (pollMessage l)
  | some readyBody =>
    if asString (readyBody.get (str "status")) ≠ some (str "ok") then
      s.conclude now (failure (str "degraded") (str "health-not-ready")) none
    else if controlPlaneToken env = [] then s.online P now url 0 none
    else
      match s.abort with
      -- `_abort.signal` of a controller that is gone
      | none => s.caught now false (pollMessage l)
      | some c =>
        ⟨s, [.request (P.tasksUrl url) [(str "Accept", str "application/json"),
            (str "Authorization", str "Bearer " ++ controlPlaneToken env)]],
          some ({ l with signal := some c }.next s.aborted (.tasksFetch url))⟩

def onTasksResponse (now : ℕ) (l : Loop) (url : Str) (res : Response) (s : Health) : Turn :=
  if res.ok = false then s.online P now url 0 (some (withStatus "tasks-http-" res))
  else if res.tooLarge = true then s.caught now false (pollMessage l)
  else ⟨s, [], some (l.next s.aborted (.tasksText url))⟩

def onTasksText (now : ℕ) (l : Loop) (url : Str) (text : Text) (s : Health) : Turn :=
  match readJson text with
  | none => s.caught now false (pollMessage l)
  | some tasks => s.online P now url (countActive tasks) none

def runControlPlanePoll (now : ℕ) (readyUrl : Str) (s : Health) : Health × List Act :=
  if s.running = false then (s, [])
  else
    match (P.normalizeServiceEndpointUrl (some readyUrl)).filter fun url => decide (P.pathname url = str "/v1/health/ready") with
    | none => s.mergeAndMaybeBroadcast now (failure (str "unknown") (str "invalid-control-plane-target"))
    | some url =>
      ({ s with
          abort := some s.made
          made := s.made + 1
          loops := s.loops ++ [⟨s.made, .readyFetch url, some s.made, none, true, none⟩] },
        [.request url [(str "Accept", str "application/json")]])

/-! ### `_runSseLoop` -/

def streamMessage (l : Loop) (message : Option Str) : Str := l.timeoutReason.getD (message.getD (str "sse-failed"))

def onAuthHeaders (l : Loop) (url : Str) (authHeaders : List (Str × Str)) (s : Health) : Turn :=
  ⟨{ s with abort := some s.made, made := s.made + 1 }, [.request url (authHeaders ++ [(str "Accept", str "text/event-stream")])],
    some { l with phase := .streamFetch, signal := some s.made, settled := none, timer := true }⟩

def onStreamResponse (now : ℕ) (l : Loop) (res : Response) (s : Health) : Turn :=
  match res.refusal with
  | some (patch, overrideCapMs) => s.conclude now patch overrideCapMs
  | none =>
    ⟨{ s with backoffMs := 2000 }, [], some ({ l with timer := true }.next s.aborted (.streamRead ⟨[], false⟩ []))⟩

/-- The frames of a chunk, up to one whose update throws. -/
def readFrames (now : ℕ) : List Text → Health → Health × List Act × Option Str
  | [], s => (s, [], none)
  | frame :: fs, s =>
    match snapshotOf P frame with
    | none => readFrames now fs s
    | some (.error message) => (s, [], some message)
    | some (.ok patch) =>
      let merged := s.mergeAndMaybeBroadcast now patch
      let rest := readFrames now fs merged.1
      (rest.1, merged.2 ++ rest.2.1, rest.2.2)

def onChunk (now : ℕ) (l : Loop) (decoder : TextDecoder) (buffer : Text) (value : Option Bytes) (s : Health) : Turn :=
  match value with
  | none => s.conclude now (failure (str "connecting") (str "stream-closed")) none
  | some value =>
    let decoded := decoder.decode value
    let buffer := buffer ++ decoded.1
    if MAX_SSE_BUFFER_CHARS < units buffer then s.caught now false ((streamMessage l (some (str "sse-buffer-limit"))).take 120)
    else
      let read := readFrames P now (frames buffer).1 s
      match read.2.2 with
      | some message =>
        let t := read.1.caught now false ((streamMessage l (some message)).take 120)
        ⟨t.health, read.2.1 ++ t.acts, t.loop⟩
      | none => ⟨read.1, read.2.1, some ({ l with timer := true }.next read.1.aborted (.streamRead decoded.2 (frames buffer).2))⟩

def runSseLoop (now : ℕ) (streamUrl : Str) (s : Health) : Health × List Act :=
  if s.running = false then (s, [])
  else
    match P.normalizeServiceEndpointUrl (some streamUrl) with
    | none => s.mergeAndMaybeBroadcast now (failure (str "unknown") (str "invalid-compat-sse-url"))
    | some url =>
      ({ s with made := s.made + 1, loops := s.loops ++ [⟨s.made, .authHeaders url, none, none, false, none⟩] }, [])

/-! ### The module -/

def runConnectionLoop (env : Env) (now : ℕ) (s : Health) : Health × List Act :=
  match resolveConnectionTarget P env with
  | .disabled => (s, [])
  | .controlPlanePoll url => s.runControlPlanePoll P now url
  | .compatSse url => s.runSseLoop P now url

/-- A loop goes on with what its promise settled to. -/
def proceed (env : Env) (now : ℕ) (l : Loop) (r : Settled) (s : Health) : Turn :=
  match l.phase, r with
  | .authHeaders url, .headers authHeaders => s.onAuthHeaders l url authHeaders
  | .readyFetch url, .response res => s.onReadyResponse now l url res
  | .readyText url, .text t => s.onReadyText P env now l url t
  | .tasksFetch url, .response res => s.onTasksResponse P now l url res
  | .tasksText url, .text t => s.onTasksText P now l url t
  | .streamFetch, .response res => s.onStreamResponse now l res
  | .streamRead decoder buffer, .chunk value => s.onChunk P now l decoder buffer value
  | phase, .failed message =>
    s.caught now false (if phase.isStream then (streamMessage l message).take 120 else pollMessage l)
  | phase, .aborted =>
    s.caught now true (if phase.isStream then (streamMessage l (some P.abortMessage)).take 120 else pollMessage l)
  | _, _ => ⟨s, [], some l⟩

def startConnectionHealth (env : Env) (now : ℕ) (s : Health) : Health × List Act :=
  if s.running = true then (s, [])
  else if s.handled = true ∧ P.rejectsSecond = true then ({ s with running := true }, [])
  else
    let s := { s with running := true, handled := true, lastSnapshot := defaultSnapshot now }
    match resolveConnectionTarget P env with
    | .disabled => (s, [])
    | _ =>
      if shouldAutoConnect P env = false then
        s.mergeAndMaybeBroadcast now (failure (str "unknown") (str "network-disabled-in-test"))
      else ({ s with startTimers := s.startTimers + 1 }, [])

def stopConnectionHealth (s : Health) : Health :=
  if s.running = false then s
  else { { s with running := false, reconnectTimer := none }.abortCurrent with abort := none }

end Health

def timeoutOf : Phase → Str
  | .streamFetch => str "sse-handshake-timeout"
  | .streamRead .. => str "sse-idle-timeout"
  | _ => str "health-timeout-5000ms"

/-- What happens next: a call, a timer, a promise that settles, a loop that goes on. -/
inductive Event
  | start (env : Env) (now : ℕ)
  | stop
  | startTimeout (env : Env) (now : ℕ)
  | reconnectTimeout (env : Env) (now : ℕ)
  | requestTimeout (id : ℕ)
  | settle (id : ℕ) (r : Settled)
  | resume (id : ℕ) (env : Env) (now : ℕ)

def Event.isStart : Event → Bool
  | .start .. => true
  | _ => false

/-- The loop with the number, changed. -/
def update (id : ℕ) (f : Loop → Loop) (ls : List Loop) : List Loop := ls.map fun l => if l.id = id then f l else l

open Health in
def step (s : Health) : Event → Health × List Act
  | .start env now => s.startConnectionHealth P env now
  | .stop => (s.stopConnectionHealth, [])
  | .startTimeout env now =>
    if s.startTimers = 0 then (s, [])
    else
      let s := { s with startTimers := s.startTimers - 1 }
      if s.running = true then s.runConnectionLoop P env now else (s, [])
  | .reconnectTimeout env now =>
    if s.reconnectTimer = none then (s, []) else { s with reconnectTimer := none }.runConnectionLoop P env now
  | .requestTimeout id =>
    if s.loops.any fun l => decide (l.id = id) && l.timer then
      ({ s with loops := update id (fun l => { l with timer := false, timeoutReason := some (timeoutOf l.phase) }) s.loops }.abortCurrent, [])
    else (s, [])
  | .settle id r =>
    ({ s with loops := update id (fun l => if l.settled.isNone ∧ l.phase.fits r = true then { l with settled := some r } else l) s.loops }, [])
  | .resume id env now =>
    match s.loops.find? fun l => decide (l.id = id) with
    | none => (s, [])
    | some l =>
      match l.settled with
      | none => (s, [])
      | some r =>
        let t := { s with loops := s.loops.filter fun l => decide (l.id ≠ id) }.proceed P env now l r
        ({ t.health with loops := t.health.loops ++ t.loop.toList }, t.acts)

def machine : Machine Health Event (List Act) := ⟨step P⟩

end

end AgentWorkflow.Desktop.Connection
