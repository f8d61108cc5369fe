import AgentWorkflow.Desktop.ChatText

/-!
# The chat store (`src/stores/chat.ts`)

The refs of the store and the functions that change them between two awaits. A thread
object is known by its `ref`; `detached` holds the objects that left the list while a
coroutine may still have them. `viewOwner` is the thread whose messages and reply the
shared view holds, `customer` of a thread the customer it was made or listed for: the
code has neither. `appended` records the messages sent to the remote history. Titles,
models, attachments, context usage and toasts are left out.
-/

namespace AgentWorkflow.Desktop.Chat
open AgentWorkflow.Lib AgentWorkflow.Lib.Calendar

structure Todo where
  label : Text
  done : Bool
  tool : Option Text
deriving DecidableEq

/-- The task-progress panel: `ccTodoList`, `ccStatus`, `streamStartedAt`, `streamErrorChunk`. -/
structure Panel where
  todos : List Todo
  status : Text
  startedAt : Option Text
  error : Option ErrorInfo
deriving DecidableEq

def Panel.empty : Panel := ⟨[], [], none, none⟩

structure Thread where
  ref : ℕ
  id : ThreadId
  customer : Text
  conversationId : Option ConvId
  messages : List Message
  updatedAt : Text
  ccSessionId : Option Text
  isStreaming : Bool
  bgReply : Content
  bgSession : Option ℕ
  bgConv : Option ConvId
  panel : Panel
deriving DecidableEq

/-- `currentConversationId`, `currentMessages`, `streamingReply`, `isStreaming`,
`_ccSessionId` and the panel of the active view. -/
structure View where
  conv : Option ConvId
  messages : List Message
  reply : Content
  streaming : Bool
  session : Option ℕ
  panel : Panel
deriving DecidableEq

structure Append where
  conv : ConvId
  role : Role
  content : Content
deriving DecidableEq

structure Store where
  threads : List Thread
  detached : List Thread
  nextRef : ℕ
  activeId : ThreadId
  counter : ℕ
  view : View
  gotCcDone : Bool
  lastSent : Option Content
  fallbackUsed : Bool
  sse : Option ℕ
  -- localStorage: `awp_customer_id`, empty when absent, and the lists of threads by key
  customer : Text
  storage : Finmap fun _ : Text => List Thread
  appended : List Append
  viewOwner : ThreadId

/-- `localeCompare` of two timestamps, the welcome text and the ids `_genConvId` returns. -/
structure Config where
  later : Text → Text → Bool
  welcome : Text
  genConvId : ℕ → ConvId

/-! ### Threads and localStorage -/

def threadsKeyPrefix : Text := "awp_threads".toList

/-- `_threadsKey` -/
def threadsKey (customer : Text) : Text :=
  if customer = [] then threadsKeyPrefix else threadsKeyPrefix ++ '_' :: customer

def findThread (id : ThreadId) (s : Store) : Option Thread := s.threads.find? fun t => decide (t.id = id)

def activeThread (s : Store) : Option Thread := findThread s.activeId s

/-- Assigns to fields of the object `ref`. -/
def update (ref : ℕ) (f : Thread → Thread) (s : Store) : Store :=
  { s with
    threads := s.threads.map fun t => if t.ref = ref then f t else t
    detached := s.detached.map fun t => if t.ref = ref then f t else t }

def lookup (ref : ℕ) (s : Store) : Option Thread := (s.threads ++ s.detached).find? fun t => decide (t.ref = ref)

def updateActive (f : Thread → Thread) (s : Store) : Store :=
  match activeThread s with
  | none => s
  | some t => update t.ref f s

def truncated (t : Thread) : Thread := { t with messages := t.messages.drop (t.messages.length - 100) }

/-- `_persistThreads` -/
def persist (s : Store) : Store :=
  { s with storage := s.storage.insert (threadsKey s.customer) ((s.threads.take 50).map truncated) }

/-- `_ensureConvId`; `fresh` is what `_genConvId` would return. -/
def ensureConvId (t : Thread) (fresh : ConvId) (s : Store) : ConvId × Store :=
  match t.conversationId with
  | some c => (c, s)
  | none => (fresh, persist (update t.ref (fun t => { t with conversationId := some fresh }) s))

/-- `_syncThreadMessages` -/
def syncThreadMessages (now : Text) (s : Store) : Store :=
  persist (updateActive (fun t => { t with messages := s.view.messages, updatedAt := now }) s)

/-- `_detachActiveStreamToThread` -/
def detachActiveStream (s : Store) : Store :=
  if s.view.streaming then
    updateActive (fun t =>
      { t with
        isStreaming := true
        bgReply := s.view.reply
        bgSession := s.view.session.or t.bgSession
        bgConv := s.view.conv }) s
  else s

/-- `_parkConversationState` of the active thread -/
def parkConversationState (s : Store) : Store := updateActive (fun t => { t with panel := s.view.panel }) s

def welcomeMessage (cfg : Config) (owner : ThreadId) : Message := ⟨.assistant, tag owner cfg.welcome⟩

def isWelcome (cfg : Config) (m : Message) : Bool :=
  decide (m.role = .assistant) && decide (plain m.content = cfg.welcome)

def newThread (cfg : Config) (ref : ℕ) (id : ThreadId) (customer : Text) (conv : ConvId) (now : Text) : Thread :=
  { ref := ref, id := id, customer := customer, conversationId := some conv, messages := [welcomeMessage cfg id],
    updatedAt := now, ccSessionId := none, isStreaming := false, bgReply := [], bgSession := none, bgConv := none,
    panel := .empty }

def createThread (cfg : Config) (fresh : ConvId) (now : Text) (s : Store) : Store :=
  let s := syncThreadMessages now (parkConversationState (detachActiveStream s))
  let id := threadId s.counter
  persist { s with
    threads := newThread cfg s.nextRef id s.customer fresh now :: s.threads
    nextRef := s.nextRef + 1
    counter := s.counter + 1
    activeId := id
    view := ⟨some fresh, [welcomeMessage cfg id], [], false, none, .empty⟩
    viewOwner := id }

/-! ### `selectThread` -/

/-- Up to the await; returns the object selected, if there is one. -/
def selectThread (id : ThreadId) (fresh : ConvId) (s : Store) : Option ℕ × Store :=
  let s := detachActiveStream s
  let s := parkConversationState (updateActive (fun t => { t with messages := s.view.messages }) s)
  let s := { s with activeId := id }
  match findThread id s with
  | none => (none, { s with view := { s.view with panel := .empty } })
  | some t =>
    let out := ensureConvId t fresh s
    (some t.ref, { out.2 with view := { out.2.view with conv := some out.1, panel := t.panel } })

structure Conversation where
  messages : List (Role × Text)
  updatedAt : Option Text
  ccSessionId : Option Text

/-- Order of strings by UTF-16 code units. -/
def utf16 (c : Char) : List ℕ :=
  if c.toNat < 0x10000 then [c.toNat]
  else [0xD800 + (c.toNat - 0x10000) / 0x400, 0xDC00 + (c.toNat - 0x10000) % 0x400]

def textLt (a b : Text) : Bool := decide (a.flatMap utf16 < b.flatMap utf16)

/-- The remote messages that replace the local ones, if any do. -/
def cloudWins (t : Option Thread) (conv : Option Conversation) : Option (List (Role × Text)) :=
  match conv with
  | none => none
  | some c =>
    if c.messages = [] then none
    else
      match t with
      | none => some c.messages
      | some t =>
        if t.messages = [] then some c.messages
        else
          match c.updatedAt with
          | none => none
          | some u => if t.updatedAt = [] ∨ textLt t.updatedAt u then some c.messages else none

def tagged (owner : ThreadId) (ms : List (Role × Text)) : List Message := ms.map fun m => ⟨m.1, tag owner m.2⟩

/-- The merge of `cc_session_id`; `t` has the updated timestamp already. -/
def mergedSession (t : Thread) (conv : Option Conversation) : Option Text :=
  match conv.bind Conversation.ccSessionId with
  | none => t.ccSessionId
  | some c =>
    -- `updated_at` is only taken over together with messages
    let cloudUpdatedAt := conv.bind fun c => if c.messages = [] then none else c.updatedAt
    let newer := match cloudUpdatedAt with
      | none => false
      | some u => decide (t.updatedAt = []) || textLt t.updatedAt u
    if t.ccSessionId = none ∨ newer = true then some c else t.ccSessionId

/-- The view of a thread that still streams in the background, or a clean one. -/
def restore (t : Option Thread) (v : View) : View :=
  match t with
  | some t =>
    if t.isStreaming then { v with reply := t.bgReply, streaming := true, session := t.bgSession, conv := t.bgConv.or v.conv }
    else { v with reply := [], streaming := false, session := none }
  | none => { v with reply := [], streaming := false, session := none }

def unpark (t : Thread) : Thread :=
  if t.isStreaming then { t with bgReply := [], bgSession := none, bgConv := none } else t

/-- `selectThread` after the await; `id` is the thread asked for, `target` the object. -/
def selectResolved (id : ThreadId) (target : Option ℕ) (conv : Option Conversation) (s : Store) : Store :=
  let t := target.bind fun ref => lookup ref s
  match cloudWins t conv with
  | some ms =>
    let ms := tagged id ms
    let merge := fun t : Thread =>
      { t with messages := ms, updatedAt := ((conv.bind Conversation.updatedAt).getD t.updatedAt) }
    let s := match target with
      | none => s
      | some ref => update ref merge s
    finish t (t.map merge) ms s
  | none => finish t t ((t.map Thread.messages).getD []) s
where
  /-- `before` is the object before the merge of messages, `t` after it. -/
  finish (before t : Option Thread) (ms : List Message) (s : Store) : Store :=
    let s := match t with
      | none => s
      | some t =>
        let session := mergedSession t conv
        if session = t.ccSessionId then s
        else persist (update t.ref (fun t => { t with ccSessionId := session }) s)
    let s := match t with
      | none => s
      | some t => update t.ref unpark s
    { s with view := restore before { s.view with messages := ms }, viewOwner := id }

/-! ### Chunks -/

/-- `_persistAssistantBubble` -/
def persistBubble (conv : Option ConvId) (content : Content) (s : Store) : Store :=
  match conv with
  | none => s
  | some c => if trim content = [] then s else { s with appended := s.appended ++ [⟨c, .assistant, content⟩] }

inductive Target where
  | active
  | background (t : Thread)
  | orphan

/-- Step 2 of `_resolveChunkTarget` -/
def targetOfConv (c : ConvId) (unplaced : Target) (s : Store) : Target :=
  if s.view.conv = some c then .active
  else
    match s.threads.find? fun t => (decide (t.bgConv = some c) || decide (t.id = c)) && decide (t.id ≠ s.activeId) with
    | some t => .background t
    | none => unplaced

def backgroundOf (session : ℕ) (s : Store) : Option Thread :=
  s.threads.find? fun t => decide (t.bgSession = some session) && t.isStreaming

/-- `_resolveChunkTarget` -/
def resolveChunkTarget (chunk : Chunk) (source : Option ℕ) (s : Store) : Target :=
  match source with
  | some session =>
    if s.view.session = some session then .active
    else
      match backgroundOf session s with
      | some t => .background t
      | none =>
        match chunk.conversationId with
        | none => .orphan
        | some c => targetOfConv c .orphan s
  | none =>
    match chunk.conversationId with
    | none => .active
    | some c => targetOfConv c .active s

/-- `_addTodoItem` -/
def addTodo (label : Text) (tool : Option Text) (todos : List Todo) : List Todo :=
  let todos := match todos.getLast? with
    | none => todos
    | some last => todos.dropLast ++ [{ last with done := true }]
  if todos.any fun t => decide (t.label = label) && decide (t.tool = tool) then todos else todos ++ [⟨label, false, tool⟩]

/-- The streaming reply becomes a message of the view. -/
def commitReply (s : Store) : Store :=
  persistBubble s.view.conv s.view.reply
    { s with view := { s.view with messages := s.view.messages ++ [⟨.assistant, s.view.reply⟩], reply := [] } }

def ingestError (err : ErrorInfo) (s : Store) : Store :=
  let s := { s with
    view := { s.view with panel := { s.view.panel with error := some err, startedAt := none }, streaming := false } }
  let s := if s.view.reply = [] then s else commitReply s
  { s with sse := none }

def ingestStatus (label : Text) (tool : Option Text) (s : Store) : Store :=
  let s := if trim s.view.reply = [] then s else commitReply s
  { s with view := { s.view with
      panel := { s.view.panel with status := label, todos := addTodo label tool s.view.panel.todos } } }

/-- Pins the resume id of a `message_start` onto the thread of the conversation. -/
def pinSession (chunk : Chunk) (s : Store) : Store :=
  match chunk.type, chunk.ccSessionId with
  | .messageStart, some newId =>
    let named := chunk.conversationId.bind fun c => s.threads.find? fun t => decide (t.conversationId = some c)
    match named.or (activeThread s) with
    | none => s
    | some t =>
      if t.ccSessionId = some newId then s
      else persist (update t.ref (fun t => { t with ccSessionId := some newId }) s)
  | _, _ => s

theorem view_pinSession (chunk : Chunk) (s : Store) : (pinSession chunk s).view = s.view := by
  unfold pinSession
  split
  · dsimp only
    split
    · rfl
    · split
      · rfl
      · rfl
  · rfl

/-- The end of a turn in the active view. -/
def finishActive (now : Text) (s : Store) : Store :=
  let s := { s with gotCcDone := true }
  let idle := fun v : View => { v with streaming := false, reply := [], panel := { v.panel with startedAt := none } }
  if trim s.view.reply = [] then { s with view := idle s.view, sse := none }
  else
    let conv := s.view.conv
    let content := s.view.reply
    let s := { s with
      view :=
        { idle { s.view with messages := s.view.messages ++ [⟨.assistant, content⟩] } with
          panel := { s.view.panel with
            startedAt := none, status := [], todos := s.view.panel.todos.map fun t => { t with done := true } } }
      sse := none }
    persistBubble conv content (syncThreadMessages now s)

/-- `_ingestChunk` for the active view; `owner` is the thread the text is for. -/
def ingestActive (owner : ThreadId) (chunk : Chunk) (now : Text) (s : Store) : Store :=
  match extractErrorChunk chunk with
  | some err => ingestError err s
  | none =>
    if chunk.type = .ccStatus ∧ chunk.label ≠ [] then ingestStatus chunk.label chunk.tool s
    else
      let s := { s with view := { s.view with
        reply := s.view.reply ++ tag owner chunk.text, conv := s.view.conv.or chunk.conversationId } }
      let s := pinSession chunk s
      if chunk.finished then finishActive now s else s

/-- The end of a turn in the background: on `done`, on an error, on the exit. -/
def finishBackground (t : Thread) (now : Text) (s : Store) : Store :=
  let text := trim t.bgReply
  let s := if text = [] then s else persistBubble t.bgConv text s
  persist (update t.ref (fun t =>
    { t with
      messages := if trim t.bgReply = [] then t.messages else t.messages ++ [⟨.assistant, trim t.bgReply⟩]
      bgReply := [], isStreaming := false, bgSession := none, bgConv := none, updatedAt := now }) s)

/-- `_ingestBackgroundChunk` -/
def ingestBackground (owner : ThreadId) (chunk : Chunk) (t : Thread) (now : Text) (s : Store) : Store :=
  if chunk.type = .ccStatus then
    if chunk.label = [] then s
    else
      update t.ref (fun t =>
        { t with panel := { t.panel with status := chunk.label, todos := addTodo chunk.label chunk.tool t.panel.todos } }) s
  else
    match chunk.type, chunk.ccSessionId with
    | .messageStart, some newId =>
      if t.ccSessionId = some newId then s
      else persist (update t.ref (fun t => { t with ccSessionId := some newId }) s)
    | _, _ =>
      if (extractErrorChunk chunk).isSome then finishBackground t now s
      else
        let more := fun t : Thread => { t with bgReply := t.bgReply ++ tag owner chunk.backgroundText }
        let s := update t.ref more s
        if chunk.finished then finishBackground (more t) now s else s

/-- `_ingestChunk` -/
def ingestChunk (owner : ThreadId) (chunk : Chunk) (source : Option ℕ) (now : Text) (s : Store) : Store :=
  match resolveChunkTarget chunk source s with
  | .active => ingestActive owner chunk now s
  | .background t => ingestBackground owner chunk t now s
  | .orphan => s

/-! ### The other operations -/

/-- `sendMessage` up to the dispatch to a transport. -/
def beginTurn (content : Text) (now : Text) (s : Store) : Store :=
  let c := tag s.activeId content
  updateActive (fun t => { t with updatedAt := now })
    { s with
      lastSent := some c
      fallbackUsed := false
      view := { s.view with
        messages := s.view.messages ++ [⟨.user, c⟩], reply := [], streaming := true, panel := ⟨[], [], some now, none⟩ } }

def failTurn (message : Text) (s : Store) : Store :=
  { s with view := { s.view with
      streaming := false, panel := { s.view.panel with startedAt := none, error := some ⟨none, message⟩ } } }

/-- The error callback of `_sendViaHttp` -/
def httpError (message : Text) (s : Store) : Store :=
  let s := failTurn message s
  { s with
    sse := none
    view := { s.view with
      messages := if s.view.reply = [] then s.view.messages else s.view.messages ++ [⟨.assistant, s.view.reply⟩]
      reply := [] } }

/-- The exit handler for the session of the active view, up to the retry. -/
def exitActive (message : Text) (s : Store) : Store :=
  { s with
    gotCcDone := false
    view := { s.view with
      session := none, streaming := false
      panel := { s.view.panel with
        startedAt := none, error := if s.gotCcDone then s.view.panel.error else some ⟨none, message⟩ } } }

/-- `_retryViaHttpAfterCcCrash` up to its send. -/
def beginRetry (now : Text) (s : Store) : Store :=
  { s with
    fallbackUsed := true
    view := { s.view with
      reply := [], streaming := true, panel := { s.view.panel with startedAt := some now, error := none } } }

/-- `stopStreaming`, apart from what it closes -/
def stopStreaming (s : Store) : Store :=
  { s with
    sse := none
    gotCcDone := false
    view := { s.view with
      session := none, streaming := false, reply := []
      panel := { s.view.panel with startedAt := none }
      messages := if s.view.reply = [] then s.view.messages else s.view.messages ++ [⟨.assistant, s.view.reply⟩] } }

/-- What localStorage holds for the customer, or, when it holds nothing, for no customer. -/
def savedThreads (s : Store) : List Thread :=
  match s.storage.lookup (threadsKey s.customer) with
  | some ts => ts
  | none => (s.storage.lookup threadsKeyPrefix).getD []

/-- The `n`-th saved thread as a new object with a conversation id. -/
def revived (cfg : Config) (used nextRef : ℕ) (t : Thread) (n : ℕ) : Thread :=
  { t with ref := nextRef + n, conversationId := t.conversationId.or (some (cfg.genConvId (used + n))) }

def maxThreadNumber (ts : List Thread) : ℕ := ts.foldl (fun n t => max n ((threadNumber t.id).getD 0)) 1

/-- `_loadPersistedThreads`: the threads and the next counter. -/
def loadPersistedThreads (cfg : Config) (used : ℕ) (now : Text) (s : Store) : List Thread × ℕ :=
  let saved := savedThreads s
  if saved = [] then ([newThread cfg s.nextRef (threadId 1) s.customer (cfg.genConvId used) now], 2)
  else (saved.mapIdx fun n t => revived cfg used s.nextRef t n, maxThreadNumber saved + 1)

/-- The threads loaded replace the list. -/
def adoptThreads (loaded : List Thread × ℕ) (s : Store) : Store :=
  let id := ((loaded.1.head?).map Thread.id).getD (threadId 1)
  { s with
    threads := loaded.1
    detached := s.detached ++ s.threads
    nextRef := s.nextRef + loaded.1.length
    counter := loaded.2
    activeId := id
    view := { s.view with
      conv := none, messages := ((loaded.1.head?).map Thread.messages).getD [], reply := [] }
    viewOwner := id }

/-- `onUserChanged`, apart from what it stops -/
def onUserChanged (loaded : List Thread × ℕ) (s : Store) : Store := adoptThreads loaded (stopStreaming s)

def View.empty : View := ⟨none, [], [], false, none, .empty⟩

/-- A new store over the same localStorage. -/
def reload (loaded : List Thread × ℕ) (s : Store) : Store :=
  adoptThreads loaded
    { s with view := .empty, gotCcDone := false, lastSent := none, fallbackUsed := false, sse := none }

/-- `threads.value.splice(idx, 1)` -/
def spliceThread (idx : ℕ) (s : Store) : Store :=
  { s with threads := s.threads.eraseIdx idx, detached := s.detached ++ (s.threads[idx]?).toList }

structure Listed where
  id : ConvId
  updatedAt : Text
deriving DecidableEq

/-- One conversation of the listing in `fetchHistory`. -/
def mergeListed (customer : Text) (s : Store) (l : Listed) : Store :=
  match findThread l.id s with
  | none =>
    { s with
      threads := s.threads ++
        [{ ref := s.nextRef, id := l.id, customer := customer, conversationId := none, messages := [],
           updatedAt := l.updatedAt, ccSessionId := none, isStreaming := false, bgReply := [], bgSession := none,
           bgConv := none, panel := .empty }]
      nextRef := s.nextRef + 1 }
  | some t =>
    if textLt t.updatedAt l.updatedAt then update t.ref (fun t => { t with updatedAt := l.updatedAt }) s else s

/-- `fetchHistory` after its await; `customer` is the one that asked. -/
def fetchHistory (cfg : Config) (customer : Text) (listing : List Listed) (s : Store) : Store :=
  if listing = [] then s
  else
    let s := listing.foldl (mergeListed customer) s
    persist { s with threads := s.threads.mergeSort fun a b => !cfg.later b.updatedAt a.updatedAt }

end AgentWorkflow.Desktop.Chat
