import AgentWorkflow.ControlPlane.Broker
import AgentWorkflow.ControlPlane.System
import AgentWorkflow.Lib.DropOldest

/-!
# Task event stream (`routes/events_stream.py`)

One `stream_task_events` request beside any number of requests that change tasks.
A request is a coroutine: its transactions in order, and after each transaction
the awaits of the publishes that announce it. `InMemoryBroker` calls the handlers
directly; its lock is taken and released explicitly here, so that whether an
await suspends is a matter of the state.

Two ways to interleave. `preemptive` switches between any two steps. `cooperative`
is the event loop: a coroutine that runs goes on until an await really suspends it.
-/

namespace AgentWorkflow.ControlPlane.EventStream
open AgentWorkflow.Lib AgentWorkflow.Lib.Calendar

/-! ### Announcements -/

/-- `str(uuid.uuid4())` has hex digits and hyphens only. -/
structure Uuid where
  text : Text
  noColon : ':' ∉ text

def ofText (t : Text) : PyStr := t.map fun c => Fin.ofNat 0x110000 c.toNat

/-- `f"task:{tenant_id}:{task_id}"` -/
def taskChannel (tenantId taskId : Text) : Channel :=
  ofText ("task:".toList ++ tenantId ++ ':' :: taskId)

/-- The payload of a `task.status` message; the reaper's has a retry count. -/
structure Envelope where
  taskId : Text
  status : TaskStatus
  retryCount : Option ℕ
deriving DecidableEq

structure Notice where
  channel : Channel
  envelope : Envelope
deriving DecidableEq

/-- What a handler publishes after its transaction on `db`. -/
def notices (db : Db) : Op → Event → List Notice
  | .createTask body tenantId taskId _, .createTask (.ok _) =>
    match db.tasks.find? (sameKey tenantId body.idempotencyKey) with
    | some _ => []
    | none => [⟨taskChannel tenantId taskId, taskId, .pending, none⟩]
  | _, .claimPending agent _ (.ok claimed) =>
    claimed.map fun c => ⟨taskChannel agent.tenantId c.id, c.id, .running, none⟩
  | _, .submitResult agent taskId _ (.ok reply) =>
    if reply.duplicate then [] else [⟨taskChannel agent.tenantId taskId, taskId, reply.status, none⟩]
  | _, .reapExpiredTasks transitions =>
    transitions.map fun x => ⟨taskChannel x.tenantId x.taskId, x.taskId, x.status, some x.retryCount⟩
  | _, _ => []

section
-- the equations are made here once, not in every proof at the same time
attribute [local simp] notices
end

/-- The transaction raised, and the handler with it. -/
def raised : Event → Bool
  | .register (.error _) => true
  | .createTask (.error _) => true
  | .claimPending _ _ (.error _) => true
  | .heartbeat _ _ (.error _) => true
  | .submitResult _ _ _ (.error _) => true
  | .expireStaleAgents (.error _) => true
  | _ => false

/-! ### Requests -/

inductive Route where
  | register (body : RegisterRequest) (tenantId tokenHash : Text) (now : UtcTime)
  | heartbeat (agent : Agent) (body : HeartbeatRequest) (now : UtcTime)
  | createTask (body : CreateTaskRequest) (tenantId : Text) (taskId : Uuid) (now : UtcTime)
  | pendingAlias (agent : Agent) (slots : ℤ) (reapNow now : UtcTime) (uuid : ℕ → Text)
  | submitResult (agent : Agent) (taskId : Text) (body : TaskResultRequest) (now : UtcTime)
  | runMaintenanceOnce (expireNow reapNow : UtcTime)

def Route.transactions : Route → List Op
  | register body tenantId tokenHash now => [.register body tenantId tokenHash now]
  | heartbeat agent body now => [.heartbeat agent body now]
  | createTask body tenantId taskId now => [.createTask body tenantId taskId.text now]
  | pendingAlias agent slots reapNow now uuid =>
    -- an offline agent is refused with a 409
    if agent.status = .offline then [] else [.reapExpiredTasks reapNow, .claimPending agent slots now uuid]
  | submitResult agent taskId body now => [.submitResult agent taskId body now]
  | runMaintenanceOnce expireNow reapNow => [.expireStaleAgents expireNow, .reapExpiredTasks reapNow]

section
-- the equations are made here once, not in every proof at the same time
attribute [local simp] Route.transactions
end

/-- The awaits of a publish: under the broker lock the handlers are copied, then
they are called. `ticket` is a history variable: the number of the transaction
that is announced. -/
inductive Await where
  | acquire (notice : Notice) (ticket : ℕ)
  | copyHandlers (notice : Notice) (ticket : ℕ)
  | release
  | call (envelope : Envelope) (ticket : ℕ)
deriving DecidableEq

/-- What is left of a request: the awaits after its last transaction, then the
transactions to come. -/
structure Coroutine where
  awaits : List Await
  transactions : List Op

/-! ### The stream -/

structure Subscription where
  tenantId : Text
  taskId : Text
  maxEvents : ℕ

def Subscription.channel (sub : Subscription) : Channel := taskChannel sub.tenantId sub.taskId

/-- `SELECT .. FROM tasks WHERE id=? AND tenant_id=?` -/
def Subscription.row (sub : Subscription) (db : Db) : Option Task :=
  db.tasks.find? fun r => decide (r.id = sub.taskId) && decide (r.tenantId = sub.tenantId)

def Subscription.status (sub : Subscription) (db : Db) : Option TaskStatus := (sub.row db).map Task.status

inductive Frame where
  | snapshot (taskId : Text) (status : TaskStatus) (updatedAt : Text)
  | event (envelope : Envelope)
  | keepalive
deriving DecidableEq

def Frame.status : Frame → Option TaskStatus
  | snapshot _ status _ => some status
  | event envelope => some envelope.status
  | keepalive => none

/-- `async with self._lock` around one statement. -/
inductive Locked where
  | acquire
  | body
  | release
deriving DecidableEq

inductive Stream where
  | lookup
  | subscribe (phase : Locked)
  | read
  | send (frame : Frame)
  | check
  | get
  | unsubscribe (phase : Locked)
  | ended
deriving DecidableEq

inductive Ref where
  | stream
  | request (i : ℕ)
deriving DecidableEq

/-- History of a run. -/
inductive Entry where
  | committed (ticket : ℕ) (status : TaskStatus)
  | snapshot (status : TaskStatus)
  | put (ticket : ℕ) (envelope : Envelope)
  | got (envelope : Envelope)
deriving DecidableEq

/-- `commits` and `log` are history variables. -/
structure World where
  db : Db
  lock : Option Ref
  handlers : Registry Channel Unit
  queue : List Envelope
  stream : Stream
  sent : List Frame
  requests : List Coroutine
  current : Option Ref
  commits : ℕ
  log : List Entry

def World.init : World :=
  { db := Db.empty, lock := none, handlers := ∅, queue := [], stream := .lookup, sent := [], requests := [],
    current := none, commits := 0, log := [] }

/-! ### Steps of a request -/

section Steps
variable (J : JsonLib) (cfg : Config) (sub : Subscription)

def queueSize : ℕ := 100

/-- The nested `receive`. -/
def receive (envelope : Envelope) (ticket : ℕ) (w : World) : World :=
  { w with
    queue := DropOldest.push queueSize w.queue envelope
    log := w.log ++ [.put ticket envelope] }

/-- The entry for a transaction that changes the status of the streamed task. -/
def transitionEntry (ticket : ℕ) (before after : Option TaskStatus) : List Entry :=
  match after with
  | none => []
  | some status => if before = after then [] else [.committed ticket status]

def commit (op : Op) (i : ℕ) (rest : List Op) (w : World) : World :=
  let out := perform J cfg w.db op
  let next : Coroutine :=
    if raised out.2 then ⟨[], []⟩ else ⟨(notices w.db op out.2).map fun n => .acquire n w.commits, rest⟩
  { w with
    db := out.1
    requests := w.requests.set i next
    commits := w.commits + 1
    log := w.log ++ transitionEntry w.commits (sub.status w.db) (sub.status out.1) }

/-- The awaits a step leaves: `list(self._handlers.get(channel, ()))` is called handler by handler. -/
def calls (handlers : Registry Channel Unit) (notice : Notice) (ticket : ℕ) : List Await :=
  match InMemoryBroker.publish handlers notice.channel notice.envelope with
  | none => []
  | some (envelope, members) => if () ∈ members then [.call envelope ticket] else []

def runAwait (a : Await) (i : ℕ) (rest : Coroutine) (w : World) : World :=
  match a with
  | .acquire notice ticket =>
    match w.lock with
    | some _ => w
    | none =>
      { w with
        lock := some (.request i)
        requests := w.requests.set i { rest with awaits := .copyHandlers notice ticket :: rest.awaits } }
  | .copyHandlers notice ticket =>
    { w with
      requests := w.requests.set i
        { rest with awaits := .release :: (calls w.handlers notice ticket ++ rest.awaits) } }
  | .release => { w with lock := none, requests := w.requests.set i rest }
  | .call envelope ticket => receive envelope ticket { w with requests := w.requests.set i rest }

def advanceRequest (i : ℕ) (w : World) : World :=
  match w.requests[i]? with
  | none => w
  | some ⟨a :: awaits, ops⟩ => runAwait a i ⟨awaits, ops⟩ w
  | some ⟨[], op :: ops⟩ => commit J cfg sub op i ops w
  | some ⟨[], []⟩ => w

/-! ### Steps of the stream -/

/-- What the environment does to the stream at a step: the client is found to be
gone, `wait_for` times out, or the response is cancelled. -/
inductive Signal where
  | none
  | disconnected
  | timeout
  | cancelled
deriving DecidableEq

def isStatusFrame (f : Frame) : Bool := f.status.isSome

def advanceStream (signal : Signal) (w : World) : World :=
  match w.stream with
  | .lookup =>
    match sub.row w.db with
    | none => { w with stream := .ended }
    | some _ => { w with stream := .subscribe .acquire }
  | .subscribe .acquire =>
    if signal = .cancelled then { w with stream := .ended }
    else
      match w.lock with
      | some _ => w
      | none => { w with lock := some .stream, stream := .subscribe .body }
  | .subscribe .body =>
    { w with handlers := InMemoryBroker.subscribe w.handlers sub.channel (), stream := .subscribe .release }
  | .subscribe .release => { w with lock := none, stream := .read }
  | .read =>
    match sub.row w.db with
    | none => { w with stream := .unsubscribe .acquire }
    | some r =>
      { w with
        stream := .send (.snapshot r.id r.status r.updatedAt)
        log := w.log ++ [.snapshot r.status] }
  | .send frame => { w with sent := w.sent ++ [frame], stream := .check }
  | .check =>
    -- back from the yield: the limit of `max_events`, then the loop condition
    if signal = .cancelled ∨ (sub.maxEvents ≠ 0 ∧ sub.maxEvents ≤ w.sent.countP isStatusFrame) ∨
        signal = .disconnected then
      { w with stream := .unsubscribe .acquire }
    else { w with stream := .get }
  | .get =>
    if signal = .cancelled then { w with stream := .unsubscribe .acquire }
    else
      match w.queue with
      | [] => if signal = .timeout then { w with stream := .send .keepalive } else w
      | e :: queue => { w with queue := queue, stream := .send (.event e), log := w.log ++ [.got e] }
  | .unsubscribe .acquire =>
    match w.lock with
    | some _ => w
    | none => { w with lock := some .stream, stream := .unsubscribe .body }
  | .unsubscribe .body =>
    { w with handlers := InMemoryBroker.unsubscribe w.handlers sub.channel (), stream := .unsubscribe .release }
  | .unsubscribe .release => { w with lock := none, stream := .ended }
  | .ended => w

/-! ### The event loop -/

/-- The next await of the coroutine suspends it, or it has not begun or has ended. -/
def suspended (w : World) : Ref → Bool
  | .request i =>
    match w.requests[i]? with
    | none => true
    | some ⟨[], ops⟩ => decide (ops = [])
    | some ⟨.acquire _ _ :: _, _⟩ => w.lock.isSome
    | some ⟨_ :: _, _⟩ => false
  | .stream =>
    match w.stream with
    | .lookup | .check | .get | .ended => true
    | .subscribe .acquire => true
    | .unsubscribe .acquire => w.lock.isSome
    | _ => false

inductive Mode where
  | preemptive
  | cooperative
deriving DecidableEq

inductive Action where
  | spawn (route : Route)
  | run (ref : Ref) (signal : Signal)

def advance (ref : Ref) (signal : Signal) (w : World) : World :=
  match ref with
  | .stream => advanceStream sub signal w
  | .request i => advanceRequest J cfg sub i w

def step (mode : Mode) (w : World) : Action → World × Unit
  | .spawn route => ({ w with requests := w.requests ++ [⟨[], route.transactions⟩] }, ())
  | .run ref signal =>
    if mode = .cooperative ∧ w.current ≠ none ∧ w.current ≠ some ref then (w, ())
    else
      let next := advance J cfg sub ref signal w
      ({ next with current := if suspended next ref then none else some ref }, ())

def machine (mode : Mode) : Machine World Action Unit := ⟨step J cfg sub mode⟩

end Steps

end AgentWorkflow.ControlPlane.EventStream
