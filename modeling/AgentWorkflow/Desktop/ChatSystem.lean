import AgentWorkflow.Desktop.ChatStore
import AgentWorkflow.Lib.Machine

/-!
# The chat store with its transports

The coroutines of the store between their awaits, the sessions of the main process
(`electron/cc/cc-wrapper.ts`) and the streams of the HTTP adapter. What an IPC call, a
request or a stream brings back is a step of its own, in any order. Turns, the thread a
turn was sent in and the thread a conversation id was made for are recorded here only.
-/

namespace AgentWorkflow.Desktop.Chat
open AgentWorkflow.Lib AgentWorkflow.Lib.Calendar

/-- A message that `sendMessage` sent. It has ended once its done or error chunk, the
exit of its session or a stop was received, or its dispatch was given up; the HTTP
retry after an exit sends it again. -/
structure Turn where
  thread : ThreadId
  ended : Bool
  crashed : Bool
deriving DecidableEq

/-- `turn` is the last one whose `cc_start` the session answered. -/
structure Session where
  conv : ConvId
  turn : ℕ
  earlier : List ℕ
  alive : Bool
  exited : Bool
deriving DecidableEq

structure Stream where
  turn : ℕ
  conv : Option ConvId
  messages : List Message
  headed : Bool
  closed : Bool
  -- closed by a line of its own: the lines read together with it still follow
  switched : Bool
deriving DecidableEq

inductive SendPc where
  | starting
  | started (session : ℕ)
  | refused (error : Text)
  | sending
  | finished
deriving DecidableEq

/-- A call of `_sendViaLocalCc`, or of `_startLocalCcTurn` when `handoff`. -/
structure Send where
  turn : ℕ
  conv : ConvId
  content : Content
  lab : Bool
  handoff : Bool
  pc : SendPc
deriving DecidableEq

structure SelectCall where
  id : ThreadId
  target : Option ℕ
  -- awaited by `deleteThread`, which persists after it
  persists : Bool
  pending : Bool
deriving DecidableEq

structure HistoryCall where
  customer : Text
  pending : Bool
deriving DecidableEq

structure DeleteCall where
  id : ThreadId
  idx : ℕ
  pending : Bool
deriving DecidableEq

inductive DeleteAnswer where
  | deleted
  | notFound
  | failed
deriving DecidableEq

structure System where
  store : Store
  selects : List SelectCall
  sends : List Send
  sessions : List Session
  streams : List Stream
  histories : List HistoryCall
  deletes : List DeleteCall
  turns : List Turn
  -- the thread that `genConvId n` was made for
  convs : List ThreadId

inductive Action where
  | createThread (now : Text)
  | selectThread (id : ThreadId)
  | conversation (k : ℕ) (answer : Option Conversation)
  | sendMessage (content : Text) (route lab : Bool) (now : Text)
  | startHandled (k : ℕ) (refusal : Option Text)
  | startAnswer (k : ℕ)
  | startThrows (k : ℕ) (error : Text)
  | sendAnswer (k : ℕ) (thrown : Option Text)
  | die (i : ℕ)
  | event (i n : ℕ) (chunk : Chunk) (now : Text)
  | exit (i : ℕ) (code : Text) (error : Option Text) (route : Bool) (now : Text)
  | headers (j : ℕ) (named : Bool)
  | line (j : ℕ) (chunk : Chunk) (bridge : Bool) (now : Text)
  | httpError (j : ℕ) (message : Text)
  | stopStreaming
  | historyAsk
  | historyAnswer (k : ℕ) (listing : List Listed)
  | deleteThread (id : ThreadId)
  | deleteAnswer (k : ℕ) (answer : DeleteAnswer) (now : Text)
  | setCustomer (customer : Text)
  | userChanged (now : Text)
  | reload (now : Text)

namespace System
variable (cfg : Config)

/-- What `_genConvId` returns next. -/
def nextConv (s : System) : ConvId := cfg.genConvId s.convs.length

def turnThread (n : ℕ) (s : System) : ThreadId := ((s.turns[n]?).map Turn.thread).getD []

/-- The thread has a turn that was sent and has not ended. -/
def Open (id : ThreadId) (s : System) : Prop := ∃ t ∈ s.turns, t.thread = id ∧ t.ended = false

def endTurn (n : ℕ) (s : System) : System := { s with turns := s.turns.modify n fun t => { t with ended := true } }

def endTurnsOf (id : ThreadId) (s : System) : System :=
  { s with turns := s.turns.map fun t => if t.thread = id then { t with ended := true } else t }

/-- The exit of a session reaches the store. -/
def crashTurns (ns : List ℕ) (s : System) : System :=
  { s with turns := s.turns.mapIdx fun n t =>
      if n ∈ ns ∧ t.ended = false then { t with ended := true, crashed := true } else t }

def reopenTurn (n : ℕ) (s : System) : System := { s with turns := s.turns.modify n fun t => { t with ended := false } }

def closeStream (j : Option ℕ) (s : System) : System :=
  match j with
  | none => s
  | some j => { s with streams := s.streams.modify j fun x => { x with closed := true } }

/-! ### Threads -/

def createThread (now : Text) (s : System) : System :=
  { s with
    store := Chat.createThread cfg (nextConv cfg s) now s.store
    convs := s.convs ++ [threadId s.store.counter] }

/-- `selectThread`, on its own or awaited by `deleteThread` -/
def selectThread (id : ThreadId) (persists : Bool) (s : System) : System :=
  if s.store.activeId = id then
    if persists then { s with store := persist s.store } else s
  else
    let out := Chat.selectThread id (nextConv cfg s) s.store
    { s with store := out.2, selects := s.selects ++ [⟨id, out.1, persists, true⟩], convs := s.convs ++ [id] }

def conversation (k : ℕ) (answer : Option Conversation) (s : System) : System :=
  match s.selects[k]? with
  | none => s
  | some c =>
    if c.pending = false then s
    else
      let store := selectResolved c.id c.target answer s.store
      { s with
        selects := s.selects.set k { c with pending := false }
        store := if c.persists then persist store else store }

def historyAnswer (k : ℕ) (listing : List Listed) (s : System) : System :=
  match s.histories[k]? with
  | none => s
  | some c =>
    if c.pending = false then s
    else
      { s with
        histories := s.histories.set k { c with pending := false }
        store := fetchHistory cfg c.customer listing s.store }

def deleteThread (id : ThreadId) (s : System) : System :=
  match s.store.threads.findIdx? fun t => decide (t.id = id) with
  | none => s
  | some idx => { s with deletes := s.deletes ++ [⟨id, idx, true⟩] }

/-- `deleteThread` once the server has answered that the conversation is gone. -/
def deleted (id : ThreadId) (idx : ℕ) (now : Text) (s : System) : System :=
  let s := { s with store := spliceThread idx s.store }
  if s.store.activeId = id then
    match s.store.threads with
    | [] =>
      let s := createThread cfg now s
      { s with store := persist s.store }
    | t :: _ => selectThread cfg t.id true s
  else { s with store := persist s.store }

def deleteAnswer (k : ℕ) (answer : DeleteAnswer) (now : Text) (s : System) : System :=
  match s.deletes[k]? with
  | none => s
  | some c =>
    if c.pending = false then s
    else
      let s := { s with deletes := s.deletes.set k { c with pending := false } }
      match answer with
      | .failed => s
      | .deleted | .notFound => deleted cfg c.id c.idx now s

/-! ### Sending -/

/-- `_sendViaHttp` -/
def sendViaHttp (turn : ℕ) (s : System) : System :=
  let withoutWelcome := s.store.view.messages.filter fun m => !isWelcome cfg m
  let messages := match s.store.view.conv with
    | some _ => withoutWelcome.getLast?.toList
    | none => withoutWelcome
  { s with
    streams := s.streams ++ [⟨turn, s.store.view.conv, messages, false, false, false⟩]
    store := { s.store with sse := some s.streams.length } }

/-- `_sendViaLocalCc` up to its `cc_start` -/
def sendViaLocalCc (turn : ℕ) (content : Content) (lab : Bool) (s : System) : System :=
  let s := { s with store := { s.store with gotCcDone := false } }
  match activeThread s.store with
  | none =>
    if lab then { endTurn turn s with store := failTurn "lab mode: no active thread for cc_start".toList s.store }
    else sendViaHttp cfg turn { s with store := { s.store with fallbackUsed := true } }
  | some t =>
    let out := ensureConvId t (nextConv cfg s) s.store
    { s with
      store := { out.2 with view := { out.2.view with conv := some out.1 } }
      convs := s.convs ++ [t.id]
      sends := s.sends ++ [⟨turn, out.1, content, lab, false, .starting⟩] }

def sendMessage (content : Text) (route lab : Bool) (now : Text) (s : System) : System :=
  if s.store.view.streaming then s
  else
    let turn := s.turns.length
    let c := tag s.store.activeId content
    let s := closeStream s.store.sse
      { s with
        turns := s.turns ++ [⟨s.store.activeId, false, false⟩]
        store := beginTurn content now s.store }
    if route then sendViaLocalCc cfg turn c lab s else sendViaHttp cfg turn s

/-- `_startLocalCcTurn` up to its `cc_start`; `bridge`: the desktop runtime is there. -/
def startLocalCcTurn (turn : ℕ) (bridge : Bool) (s : System) : System :=
  if bridge then
    { s with
      store := { s.store with gotCcDone := false }
      sends := s.sends ++ [⟨turn, s.store.view.conv.getD [], s.store.lastSent.getD [], false, true, .starting⟩] }
  else
    { endTurn turn s with
      store := failTurn "cc_local_not_available: Desktop CC runtime unavailable".toList s.store }

/-- `startSession` of the main process; `refusal`: no process could be started. -/
def startHandled (k : ℕ) (refusal : Option Text) (s : System) : System :=
  match s.sends[k]? with
  | none => s
  | some c =>
    if c.pc ≠ .starting then s
    else if c.conv = [] then
      { s with sends := s.sends.set k { c with pc := .refused "invalid_conversation_id".toList } }
    else
      match s.sessions.findIdx? fun x => decide (x.conv = c.conv) && x.alive with
      | some i =>
        { s with
          sends := s.sends.set k { c with pc := .started i }
          sessions := s.sessions.modify i fun x => { x with turn := c.turn, earlier := x.turn :: x.earlier } }
      | none =>
        match refusal with
        | some error => { s with sends := s.sends.set k { c with pc := .refused error } }
        | none =>
          { s with
            sends := s.sends.set k { c with pc := .started s.sessions.length }
            sessions := s.sessions ++ [⟨c.conv, c.turn, [], true, false⟩] }

def failureText (c : Send) (thrown : Bool) (error : Text) : Text :=
  (if c.handoff then "cc_start_failed: " else if thrown then "lab cc dispatch threw: " else "lab cc_start failed: ").toList
    ++ error

/-- `cc_start` was refused, or it or `cc_send_message` threw. -/
def dispatchFailed (k : ℕ) (c : Send) (thrown : Bool) (error : Text) (s : System) : System :=
  let s := { s with sends := s.sends.set k { c with pc := .finished } }
  if c.handoff || c.lab then { endTurn c.turn s with store := failTurn (failureText c thrown error) s.store }
  else sendViaHttp cfg c.turn { s with store := { s.store with fallbackUsed := true } }

/-- `cc_start` returned a session. -/
def sessionKnown (i : ℕ) (c : Send) (s : Store) : Store :=
  let s := { s with view := { s.view with session := some i } }
  if c.handoff then s
  else
    match s.view.conv with
    | none => s
    | some conv => { s with appended := s.appended ++ [⟨conv, .user, c.content⟩] }

def startAnswer (k : ℕ) (s : System) : System :=
  match s.sends[k]? with
  | none => s
  | some c =>
    match c.pc with
    | .started i =>
      { s with sends := s.sends.set k { c with pc := .sending }, store := sessionKnown i c s.store }
    | .refused error => dispatchFailed cfg k c false error s
    | _ => s

def startThrows (k : ℕ) (error : Text) (s : System) : System :=
  match s.sends[k]? with
  | none => s
  | some c =>
    match c.pc with
    | .sending | .finished => s
    | _ => dispatchFailed cfg k c true error s

/-- `cc_send_message` is answered, also with `ok: false`, or throws. -/
def sendAnswer (k : ℕ) (thrown : Option Text) (s : System) : System :=
  match s.sends[k]? with
  | none => s
  | some c =>
    if c.pc ≠ .sending then s
    else
      match thrown with
      | some error => dispatchFailed cfg k c true error s
      | none => { s with sends := s.sends.set k { c with pc := .finished } }

/-! ### Sessions -/

def die (i : ℕ) (s : System) : System := { s with sessions := s.sessions.modify i fun x => { x with alive := false } }

def endIf (ends : Bool) (n : ℕ) (s : System) : System := if ends then endTurn n s else s

/-- The handler of `cc:stream-event`, for a chunk of turn `n`. -/
def event (i n : ℕ) (chunk : Chunk) (now : Text) (s : System) : System :=
  match s.sessions[i]? with
  | none => s
  | some x =>
    if x.exited ∨ n ∉ x.turn :: x.earlier ∨ (chunk.conversationId.getD x.conv) ≠ x.conv then s
    else
      { endIf chunk.terminal n s with store := ingestChunk (turnThread n s) chunk (some i) now s.store }

def exitText (code : Text) (error : Option Text) : Text :=
  "cc_session_exit_before_done: code=".toList ++ code ++
    match error with
    | none => []
    | some e => " error=".toList ++ e

/-- Whether the exit of the session of the active view starts the HTTP retry. -/
def retries (route : Bool) (s : Store) : Bool :=
  !s.gotCcDone && route && decide (s.lastSent.getD [] ≠ []) && !s.fallbackUsed

/-- The handler of `cc:session-exit` -/
def exit (i : ℕ) (code : Text) (error : Option Text) (route : Bool) (now : Text) (s : System) : System :=
  match s.sessions[i]? with
  | none => s
  | some x =>
    if x.alive ∨ x.exited then s
    else
      let s := crashTurns (x.turn :: x.earlier) { s with sessions := s.sessions.set i { x with exited := true } }
      if s.store.view.session = some i then
        let after := exitActive (exitText code error) s.store
        if retries route s.store then
          sendViaHttp cfg x.turn { reopenTurn x.turn s with store := beginRetry now after }
        else { s with store := after }
      else
        match backgroundOf i s.store with
        | some t => { s with store := finishBackground t now s.store }
        | none => s

/-! ### HTTP streams -/

/-- The response headers; the server allocates a conversation where the request named none. -/
def headers (j : ℕ) (named : Bool) (s : System) : System :=
  match s.streams[j]? with
  | none => s
  | some x =>
    if x.headed ∨ x.closed then s
    else
      let conv := x.conv.getD (nextConv cfg s)
      { s with
        streams := s.streams.set j { x with conv := some conv, headed := true }
        convs := if x.conv = none then s.convs ++ [turnThread x.turn s] else s.convs
        store := if named then { s.store with view := { s.store.view with conv := s.store.view.conv.or (some conv) } }
          else s.store }

/-- One line of a stream -/
def line (j : ℕ) (chunk : Chunk) (bridge : Bool) (now : Text) (s : System) : System :=
  match s.streams[j]? with
  | none => s
  | some x =>
    if x.headed = false ∨ (x.closed ∧ x.switched = false) ∨ (chunk.conversationId.or x.conv) ≠ x.conv then s
    else if chunk.type = .modeSwitch ∧ chunk.toLocalCc then
      let s := closeStream s.store.sse { s with streams := s.streams.set j { x with switched := true } }
      startLocalCcTurn x.turn bridge { s with
        store := { s.store with
          sse := none
          view := { s.store.view with conv := s.store.view.conv.or chunk.conversationId } } }
    else
      { endIf chunk.terminal x.turn s with store := ingestChunk (turnThread x.turn s) chunk none now s.store }

def httpError (j : ℕ) (message : Text) (s : System) : System :=
  match s.streams[j]? with
  | none => s
  | some x =>
    if x.closed then s
    else
      { endTurn x.turn { s with streams := s.streams.set j { x with closed := true } } with
        store := Chat.httpError message s.store }

/-! ### The step -/

def stopStreaming (s : System) : System :=
  let s := closeStream s.store.sse s
  { endTurnsOf s.store.activeId s with store := Chat.stopStreaming s.store }

def userChanged (now : Text) (s : System) : System :=
  let s := closeStream s.store.sse s
  let loaded := loadPersistedThreads cfg s.convs.length now s.store
  { endTurnsOf s.store.activeId s with
    store := onUserChanged loaded s.store
    convs := s.convs ++ loaded.1.map Thread.id }

/-- The page is loaded anew: all coroutines and streams are gone. -/
def reload (now : Text) (s : System) : System :=
  let loaded := loadPersistedThreads cfg s.convs.length now s.store
  { s with
    store := Chat.reload loaded s.store
    selects := [], sends := [], streams := [], histories := [], deletes := []
    convs := s.convs ++ loaded.1.map Thread.id }

def step (s : System) : Action → System
  | .createThread now => createThread cfg now s
  | .selectThread id => selectThread cfg id false s
  | .conversation k answer => conversation k answer s
  | .sendMessage content route lab now => sendMessage cfg content route lab now s
  | .startHandled k refusal => startHandled k refusal s
  | .startAnswer k => startAnswer cfg k s
  | .startThrows k error => startThrows cfg k error s
  | .sendAnswer k thrown => sendAnswer cfg k thrown s
  | .die i => die i s
  | .event i n chunk now => event i n chunk now s
  | .exit i code error route now => exit cfg i code error route now s
  | .headers j named => headers cfg j named s
  | .line j chunk bridge now => line j chunk bridge now s
  | .httpError j message => httpError j message s
  | .stopStreaming => stopStreaming s
  | .historyAsk => { s with histories := s.histories ++ [⟨s.store.customer, true⟩] }
  | .historyAnswer k listing => historyAnswer cfg k listing s
  | .deleteThread id => deleteThread id s
  | .deleteAnswer k answer now => deleteAnswer cfg k answer now s
  | .setCustomer customer => { s with store := { s.store with customer := customer } }
  | .userChanged now => userChanged cfg now s
  | .reload now => reload cfg now s

def machine : Machine System Action Unit := ⟨fun s a => (step cfg s a, ())⟩

/-- The store at its first load. -/
def init (customer : Text) (storage : Finmap fun _ : Text => List Thread) (now : Text) : System :=
  let empty : Store :=
    { threads := [], detached := [], nextRef := 0, activeId := [], counter := 1, view := .empty, gotCcDone := false,
      lastSent := none, fallbackUsed := false, sse := none, customer := customer, storage := storage, appended := [],
      viewOwner := [] }
  let loaded := loadPersistedThreads cfg 0 now empty
  { store := adoptThreads loaded empty, selects := [], sends := [], sessions := [], streams := [], histories := [],
    deletes := [], turns := [], convs := loaded.1.map Thread.id }

end System

/-- Timestamps compared by code units, conversation ids numbered from zero. -/
def Config.plain : Config := ⟨fun a b => textLt b a, "Hello".toList, fun n => "conv-".toList ++ Numbered.zeroPadded 1 n⟩

end AgentWorkflow.Desktop.Chat
