import AgentWorkflow.Lib.Calendar
import AgentWorkflow.Lib.JsText
import AgentWorkflow.Lib.Machine

/-!
# The Agent CLI adapter (`electron/cc/cc-wrapper.ts`, `electron/cc/mcp-config-renderer.ts`)

`startSession` checks `byConv`, renders the MCP configuration and then waits for
`buildCcEnv`; the process is spawned and the session registered when it resumes.
The handlers of a process remove its session. `parseUrl` is `new URL`; environment
variables, and what the operating system answers, are part of each operation.
-/

namespace AgentWorkflow.Desktop.CcWrapper
open AgentWorkflow.Lib AgentWorkflow.Lib.Calendar

/-! ### The MCP configuration -/

structure Url where
  protocol : Text
  username : Text
  password : Text
  hostname : Text
  href : Text
deriving DecidableEq

abbrev Record := Finmap fun _ : Text => Text

structure McpHttpEndpoint where
  url : Text
  token : Option Text
  conversationId : Option Text
  headers : Record
deriving DecidableEq

structure RemoteMcpEndpoint extends McpHttpEndpoint where
  name : Text
deriving DecidableEq

structure McpHttpServerEntry where
  type : Text
  url : Text
  headers : Record
deriving DecidableEq

abbrev McpConfigDoc := Finmap fun _ : Text => McpHttpServerEntry

structure McpConfigRenderOpts where
  awpIde : Option McpHttpEndpoint
  remoteMcp : Option RemoteMcpEndpoint
  allowRemoteMcp : Bool
deriving DecidableEq

def loopbackHosts : List Text := ["localhost".toList, "127.0.0.1".toList, "[::1]".toList]

-- the host of an http URL is ASCII, so `toLowerCase` is `Char.toLower`
def isLoopbackHost (hostname : Text) : Bool := decide (hostname.map Char.toLower ∈ loopbackHosts)

/-- A header or token counts when the string is there and not empty. -/
def given (t : Option Text) : Option Text := t.filter (· ≠ [])

def convHeader : Text := "x-awp-conv".toList

def endpointHeaders (e : McpHttpEndpoint) : Record :=
  let headers := e.headers
  let headers := match given e.token with
    | some token => headers.insert "authorization".toList ("Bearer ".toList ++ token)
    | none => headers
  match given e.conversationId with
  | some conv => headers.insert convHeader conv
  | none => headers

def isNameChar (first : Bool) (c : Char) : Bool :=
  c.isAlphanum || (!first && decide (c ∈ ['.', '_', '-']))

/-- `/^[a-z0-9][a-z0-9._-]{0,63}$/i`, and not the name of the local entry. -/
def validRemoteName : Text → Bool
  | [] => false
  | c :: cs => isNameChar true c && cs.all (isNameChar false) && decide (cs.length ≤ 63) &&
      decide (c :: cs ≠ "awp-ide".toList)

section Render
variable (parseUrl : Text → Option Url)

def parseHttpUrl (raw : Text) : Except Text Url :=
  match parseUrl raw with
  | none => .error "invalid_mcp_url".toList
  | some u =>
    if u.protocol ≠ "http:".toList ∧ u.protocol ≠ "https:".toList then
      .error "unsupported_mcp_url_scheme".toList
    else if u.username ≠ [] ∨ u.password ≠ [] then .error "mcp_url_credentials_forbidden".toList
    else .ok u

def httpEntry (u : Url) (e : McpHttpEndpoint) : McpHttpServerEntry :=
  ⟨"http".toList, u.href, endpointHeaders e⟩

def buildIdeEntry (e : McpHttpEndpoint) : Except Text McpHttpServerEntry :=
  match parseHttpUrl parseUrl e.url with
  | .error m => .error m
  | .ok u =>
    if isLoopbackHost u.hostname then .ok (httpEntry u e) else .error "awp_ide_must_be_loopback".toList

def buildRemoteEntry (allowRemoteMcp operatorOptIn : Bool) (e : RemoteMcpEndpoint) :
    Except Text McpHttpServerEntry :=
  if !allowRemoteMcp || !operatorOptIn then .error "remote_mcp_requires_explicit_opt_in".toList
  else if !validRemoteName e.name then .error "invalid_remote_mcp_name".toList
  else match parseHttpUrl parseUrl e.url with
    | .error m => .error m
    | .ok u =>
      if u.protocol ≠ "https:".toList ∧ !isLoopbackHost u.hostname then
        .error "remote_mcp_requires_https".toList
      else .ok (httpEntry u e.toMcpHttpEndpoint)

def buildMcpConfig (operatorOptIn : Bool) (opts : McpConfigRenderOpts) : Except Text McpConfigDoc := do
  let mut servers : McpConfigDoc := ∅
  if let some e := opts.awpIde then
    servers := servers.insert "awp-ide".toList (← buildIdeEntry parseUrl e)
  if let some e := opts.remoteMcp then
    servers := servers.insert e.name (← buildRemoteEntry parseUrl opts.allowRemoteMcp operatorOptIn e)
  return servers

end Render

/-! ### Sessions -/

abbrev SessionId := Text

inductive SessionPhase where
  | spawning | idle | streaming | exited
deriving DecidableEq

structure CcSession where
  conversationId : Text
  cwd : Text
  model : Option Text
  phase : SessionPhase
  stopRequested : Bool
deriving DecidableEq

structure StartSessionOpts where
  -- `none` when the caller sent something that is not a string
  conversationId : Option Text
  cwd : Option Text
  model : Option Text
  ccSessionId : Option Text
deriving DecidableEq

structure Invocation where
  exe : Text
  prefixArgs : List Text
deriving DecidableEq

/-- What one call of `startSession` finds around it, up to its `await`. -/
structure StartEnv where
  processCwd : Text
  -- the result of `resolveCliInvocation`, or the code it throws
  invocation : Except Text Invocation
  -- AWP_AGENT_CLI_PROTOCOL and the AWP_AGENT_REMOTE_MCP_* variables
  protocol : Option Text
  remoteUrl : Text
  remoteName : Text
  remoteToken : Text
  remoteOptIn : Bool
  -- `getServerEndpoint()`: URL and token of the local MCP server
  endpoint : Option (Text × Option Text)
  -- the message of a failing `mkdirSync`, `writeFileSync` or `renameSync`
  writeFault : Option Text
deriving DecidableEq

/-- A call of `startSession` that waits for `buildCcEnv`. -/
structure Start where
  conversationId : Text
  cwd : Text
  model : Option Text
  exe : Text
  argv : List Text
  mcpConfig : Option Text
deriving DecidableEq

/-- A spawned process; `reported` once its `error` or `exit` event was delivered. -/
structure Process where
  conversationId : Text
  argv : List Text
  mcpConfig : Option Text
  reported : Bool
deriving DecidableEq

structure State where
  sessions : Finmap fun _ : SessionId => CcSession
  byConv : Finmap fun _ : Text => SessionId
  starts : List (Option Start)
  files : Finmap fun _ : Text => McpConfigDoc
  procs : Finmap fun _ : SessionId => Process
deriving DecidableEq

def State.init : State := ⟨∅, ∅, [], ∅, ∅⟩

inductive Broadcast where
  | streamError (sessionId error : Text)
  | ccError (sessionId code message : Text)
  | sessionExit (sessionId : Text) (error : Option Text)
deriving DecidableEq

structure Event where
  -- what a call of `startSession` returns: the session id or the error
  result : Option (Except Text SessionId) := none
  broadcasts : List Broadcast := []
  -- the conversation whose configuration was renamed into place
  rendered : Option Text := none
  -- the process that opened its configuration, its conversation and what it read
  read : Option (SessionId × Text × Option McpConfigDoc) := none
deriving DecidableEq

def Event.failed (error : Text) : Event := { result := some (.error error) }

inductive Op where
  | startSession (opts : StartSessionOpts) (env : StartEnv)
  /-- `buildCcEnv` settles for call `k`: an error is its code and message, a failing
  `spawn` its message, and the new session has the id `sessionId`. -/
  | envBuilt (k : ℕ) (built : Except (Text × Text) Unit) (spawned : Except Text Unit) (sessionId : SessionId)
  | procError (sessionId : SessionId) (code message : Text)
  | procExit (sessionId : SessionId)
  | stopSession (sessionId : SessionId)
  | stopAllSessions
  | messageSent (sessionId : SessionId)
  | readConfig (sessionId : SessionId)
deriving DecidableEq

/-! ### `startSession` -/

def isControl (c : Char) : Bool := decide (c.toNat ≤ 0x1F ∨ c.toNat = 0x7F)

def trim (t : Text) : Text := JsText.trim Char.toNat t

def validConversationId (id : Option Text) : Option Text :=
  id.filter fun t => t ≠ [] && trim t ≠ [] && decide (JsText.length t ≤ 512) && !t.any isControl

/-- The session that wins over a new one: registered and not exited. -/
def State.existing (s : State) (conv : Text) : Option SessionId :=
  match given (s.byConv.lookup conv) with
  | none => none
  | some id => match s.sessions.lookup id with
    | none => none
    | some session => if session.phase = .exited then none else some id

def isResumeChar (c : Char) : Bool := c.isAlphanum || decide (c ∈ ['.', '_', ':', '-'])

def validModel (m : Text) : Bool := decide (JsText.length m ≤ 256) && !m.any isControl

def protocolArgs (protocol : Text) : Except Text (List Text) :=
  if protocol = "stream-json".toList then
    .ok ["--output-format".toList, "stream-json".toList, "--input-format".toList, "stream-json".toList,
      "--print".toList, "--verbose".toList]
  else if protocol = "awp-jsonl".toList ∨ protocol = "passthrough".toList then .ok []
  else .error "invalid_cli_protocol".toList

def modelArgs : Option Text → List Text
  | some m => ["--model".toList, m]
  | none => []

def resumeArgs : Option Text → Except Text (List Text)
  | none => .ok []
  | some id =>
    if id = [] ∨ 256 < id.length ∨ !id.all isResumeChar then .error "invalid_resume_session_id".toList
    else .ok ["--resume".toList, id]

/-- The checks after the registry lookup: working directory, executable, model,
protocol and `--resume`. -/
def startArgs (env : StartEnv) (conv : Text) (opts : StartSessionOpts) : Except Text Start :=
  let cwd := opts.cwd.getD env.processCwd
  let model := given (opts.model.map trim)
  if cwd = [] ∨ '\x00' ∈ cwd then .error "invalid_working_directory".toList
  else match env.invocation with
    | .error code => .error code
    | .ok invocation =>
      if !model.all validModel then .error "invalid_model".toList
      else match protocolArgs (trim (env.protocol.getD "stream-json".toList)) with
        | .error e => .error e
        | .ok protocol => match resumeArgs opts.ccSessionId with
          | .error e => .error e
          | .ok resume =>
            .ok ⟨conv, cwd, model, invocation.exe,
              invocation.prefixArgs ++ protocol ++ modelArgs model ++ resume, none⟩

def mcpOpts (env : StartEnv) (conv : Text) : McpConfigRenderOpts :=
  let remoteUrl := trim env.remoteUrl
  { awpIde := (env.endpoint.filter (·.1 ≠ [])).map fun e => ⟨e.1, e.2, some conv, ∅⟩
    remoteMcp := if remoteUrl = [] then none
      else some ⟨⟨remoteUrl, given (some (trim env.remoteToken)), some conv, ∅⟩, trim env.remoteName⟩
    allowRemoteMcp := remoteUrl ≠ [] && env.remoteOptIn }

section Step
variable (parseUrl : Text → Option Url) (outPath : Text)

/-- `renderMcpConfig`: the new document, or the message of what failed before it
was renamed into place. -/
def renderMcpConfig (env : StartEnv) (opts : McpConfigRenderOpts) : Except Text McpConfigDoc :=
  match buildMcpConfig parseUrl env.remoteOptIn opts with
  | .error m => .error m
  | .ok doc => match env.writeFault with
    | some m => .error m
    | none => .ok doc

def startSession (opts : StartSessionOpts) (env : StartEnv) (s : State) : State × Event :=
  match validConversationId opts.conversationId with
  | none => (s, .failed "invalid_conversation_id".toList)
  | some conv => match s.existing conv with
    | some id => (s, { result := some (.ok id) })
    | none =>
      let s := { s with byConv := s.byConv.erase conv }
      match startArgs env conv opts with
      | .error e => (s, .failed e)
      | .ok start =>
        let mcp := mcpOpts env conv
        if mcp.awpIde = none ∧ mcp.remoteMcp = none then
          ({ s with starts := s.starts ++ [some start] }, {})
        else match renderMcpConfig parseUrl env mcp with
          | .error m => (s, { result := some (.error "mcp_config_render_failed".toList)
                              broadcasts := [.streamError [] ("mcp_config_render_failed:".toList ++ m)] })
          | .ok doc =>
            let start := { start with argv := start.argv ++ ["--mcp-config".toList, outPath]
                                      mcpConfig := some outPath }
            ({ s with files := s.files.insert outPath doc, starts := s.starts ++ [some start] },
              { rendered := some conv })

/-- The rest of `startSession`, when `buildCcEnv` has settled. -/
def resume (start : Start) (built : Except (Text × Text) Unit) (spawned : Except Text Unit)
    (id : SessionId) (s : State) : State × Event :=
  match built with
  | .error (code, message) =>
    (s, { result := some (.error code)
          broadcasts := [.ccError [] code message, .streamError [] code] })
  | .ok () => match spawned with
    | .error message => (s, .failed message)
    | .ok () =>
      ({ s with
          sessions := s.sessions.insert id ⟨start.conversationId, start.cwd, start.model, .idle, false⟩
          byConv := s.byConv.insert start.conversationId id
          procs := s.procs.insert id ⟨start.conversationId, start.argv, start.mcpConfig, false⟩ },
        { result := some (.ok id) })

def envBuilt (k : ℕ) (built : Except (Text × Text) Unit) (spawned : Except Text Unit) (id : SessionId)
    (s : State) : State × Event :=
  match s.starts[k]? with
  | some (some start) =>
    -- `randomUUID` never returns an id twice, nor an empty one
    if id = [] ∨ id ∈ s.procs then (s, {})
    else resume start built spawned id { s with starts := s.starts.set k none }
  | _ => (s, {})

/-! ### The handlers of a process -/

/-- `sessions.delete` and the guarded `byConv.delete` of both handlers. -/
def unregister (id : SessionId) (conv : Text) (s : State) : State :=
  { s with
    sessions := s.sessions.erase id
    byConv := if s.byConv.lookup conv = some id then s.byConv.erase conv else s.byConv }

def report (id : SessionId) (p : Process) (s : State) : State :=
  unregister id p.conversationId { s with procs := s.procs.insert id { p with reported := true } }

def badBinaryCodes : List Text := ["ENOENT".toList, "UNKNOWN".toList, "ENOEXEC".toList, "EFTYPE".toList]

def procError (id : SessionId) (code message : Text) (s : State) : State × Event :=
  match s.procs.lookup id with
  | none => (s, {})
  | some p =>
    let userMessage := if code ∈ badBinaryCodes then "runtime_recovery_started".toList
      else "spawn_error:".toList ++ message
    (report id p s, { broadcasts := [.streamError id userMessage, .sessionExit id (some message)] })

def procExit (id : SessionId) (s : State) : State × Event :=
  match s.procs.lookup id with
  | none => (s, {})
  | some p => (report id p s, { broadcasts := [.sessionExit id none] })

/-! ### Stopping and sending -/

def modify (id : SessionId) (f : CcSession → CcSession) (s : State) : State :=
  match s.sessions.lookup id with
  | none => s
  | some session => { s with sessions := s.sessions.insert id (f session) }

def CcSession.stop (session : CcSession) : CcSession :=
  if session.phase = .exited then session else { session with stopRequested := true }

/-- `stopSession`: the process is told to end; its handlers do the rest. -/
def stopSession (id : SessionId) (s : State) : State := modify id CcSession.stop s

def stopAllSessions (s : State) : State :=
  (s.sessions.keys.sort (· ≤ ·)).foldl (fun s id => stopSession id s) s

def readConfig (id : SessionId) (s : State) : State × Event :=
  match s.procs.lookup id with
  | none => (s, {})
  | some p => match p.mcpConfig with
    | none => (s, {})
    | some path => (s, { read := some (id, p.conversationId, s.files.lookup path) })

def step (s : State) : Op → State × Event
  | .startSession opts env => startSession parseUrl outPath opts env s
  | .envBuilt k built spawned id => envBuilt k built spawned id s
  | .procError id code message => procError id code message s
  | .procExit id => procExit id s
  | .stopSession id => (stopSession id s, {})
  | .stopAllSessions => (stopAllSessions s, {})
  | .messageSent id => (modify id (fun session => { session with phase := .streaming }) s, {})
  | .readConfig id => readConfig id s

def machine : Machine State Op Event := ⟨step parseUrl outPath⟩

end Step

end AgentWorkflow.Desktop.CcWrapper
