import AgentWorkflow.VmAgent.QueueRows

/-!
# The replayer (`internal/replay/replay.go`)

`Run`, `recoverPending` and `tick` as programs over the fields of the
`Replayer` and the queue. Everything the environment decides is read from a
stream of choices, one for each interaction: what other goroutines enqueue
before it, how a queue call ends, what `Send` and the gates answer, whether the
context is done. `Run` is split at the top of its loop, so that a run is any
sequence of starts and iterations. The log records the queue calls and the
sends in order; it has no counterpart in the source and nothing reads it.
-/

namespace AgentWorkflow.VmAgent
open AgentWorkflow.Lib

inductive TerminalKind where
  | uploaded
  | dropped
deriving DecidableEq

structure PendingTerminal where
  kind : TerminalKind
  id : ℤ
  reason : Bytes
deriving DecidableEq

/-- Durations are in seconds. -/
structure ReplayConfig where
  pollInterval : ℚ
  batchSize : ℤ
  maxRetries : ℤ
  maxBackoff : ℚ
  pruneEvery : ℚ

/-- The defaults `New` puts in. -/
def newConfig (cfg : ReplayConfig) : ReplayConfig where
  pollInterval := if cfg.pollInterval ≤ 0 then 5 else cfg.pollInterval
  batchSize := if cfg.batchSize ≤ 0 then 50 else cfg.batchSize
  maxRetries := if cfg.maxRetries ≤ 0 then 10 else cfg.maxRetries
  maxBackoff := if cfg.maxBackoff ≤ 0 then 60 else cfg.maxBackoff
  pruneEvery := if cfg.pruneEvery ≤ 0 then 3600 else cfg.pruneEvery

structure Metrics where
  uploaded : ℕ
  failed : ℕ
  dropped : ℕ
  ticks : ℕ
  pausedTicks : ℕ

/-- The local variables of an active `Run`. -/
structure RunLocals where
  interval : ℚ
  backoff : ℚ
  lastPrune : ℚ

/-- `running` holds the locals of the active `Run`, if there is one. -/
structure Replayer where
  queue : Queue
  pendingTerminal : Option PendingTerminal
  pendingRequeue : List ℤ
  metrics : Metrics
  running : Option RunLocals

def newReplayer (q : Queue) : Replayer := ⟨q, none, [], ⟨0, 0, 0, 0, 0⟩, none⟩

/-! ### The environment -/

/-- How a queue call ends: as the code computes it, or with an error that left
the rows unchanged or fully transitioned. -/
inductive Fault where
  | none
  | unchanged (e : QueueError)
  | applied (e : QueueError)
deriving DecidableEq

/-- What `Send` returned, with the verdict of the fatal checker on its error. -/
inductive SendOutcome where
  | ok
  | failed (reason : Bytes) (fatal : Bool)
deriving DecidableEq

def SendOutcome.isFatal : SendOutcome → Bool
  | .ok => false
  | .failed _ fatal => fatal

def SendOutcome.isFinal (o : SendOutcome) : Bool := o = .ok || o.isFatal

structure Choice where
  enqueues : List (Bytes × Bytes × ℚ)
  fault : Fault
  now : ℚ
  done : Bool
  authenticated : Bool
  ready : Bool
  send : SendOutcome

inductive ReplayEvent where
  | call (op : QueueOp) (reply : Except QueueError Reply) (before after : Queue)
  | send (id : ℤ) (taskId payload : Bytes) (outcome : SendOutcome)
  | recovered (r : Replayer)
  | ticked (r : Replayer)

structure World where
  replayer : Replayer
  next : ℕ
  log : List ReplayEvent

abbrev Replay := StateM World

/-! ### Primitives -/

def World.record (e : ReplayEvent) (w : World) : World := { w with log := w.log ++ [e] }

def World.setQueue (q : Queue) (w : World) : World := { w with replayer := { w.replayer with queue := q } }

def modifyReplayer (f : Replayer → Replayer) : Replay PUnit :=
  modify fun w => { w with replayer := f w.replayer }

section Program
variable (sha256 : Bytes → Bytes) (qcfg : QueueConfig) (cfg : ReplayConfig)

/-- One call of another goroutine. -/
def World.enqueueOther (w : World) (x : Bytes × Bytes × ℚ) : World :=
  let op := QueueOp.enqueue x.1 x.2.1 x.2.2
  let out := op.exec sha256 qcfg w.replayer.queue
  (w.setQueue out.2).record (.call op out.1 w.replayer.queue out.2)

variable (env : ℕ → Choice)

def choose : Replay Choice := fun w =>
  ((env w.next), (env w.next).enqueues.foldl (World.enqueueOther sha256 qcfg) { w with next := w.next + 1 })

def World.endCall (op : QueueOp) (fault : Fault) (w : World) : Except QueueError Reply × World :=
  let q := w.replayer.queue
  let out := op.exec sha256 qcfg q
  match fault with
  | .none => (out.1, (w.setQueue out.2).record (.call op out.1 q out.2))
  | .unchanged e => (.error e, w.record (.call op (.error e) q q))
  | .applied e => (.error e, (w.setQueue out.2).record (.call op (.error e) q out.2))

def call (op : ℚ → QueueOp) : Replay (Except QueueError Reply) := do
  let c ← choose sha256 qcfg env
  fun w => w.endCall sha256 qcfg (op c.now) c.fault

/-! ### Recovery -/

def terminalOp (pending : PendingTerminal) (now : ℚ) : QueueOp :=
  match pending.kind with
  | .uploaded => .markUploaded pending.id now
  | .dropped => .forceDropped pending.id pending.reason now

def applyTerminal (pending : PendingTerminal) : Replay (Except QueueError Reply) :=
  call sha256 qcfg env (terminalOp pending)

def countTerminal (kind : TerminalKind) (m : Metrics) : Metrics :=
  match kind with
  | .uploaded => { m with uploaded := m.uploaded + 1 }
  | .dropped => { m with dropped := m.dropped + 1 }

def itemIDs (items : List QueuedItem) (start : ℕ) : List ℤ := (items.drop start).map QueuedItem.id

def recoverTerminal : Replay (Option QueueError) := do
  match (← get).replayer.pendingTerminal with
  | none => return none
  | some pending =>
    match ← applyTerminal sha256 qcfg env pending with
    | .error e => return some e
    | .ok _ =>
      modifyReplayer fun r => { r with metrics := countTerminal pending.kind r.metrics, pendingTerminal := none }
      return none

def recoverRequeue : Replay (Option QueueError) := do
  let ids := (← get).replayer.pendingRequeue
  if ids = [] then return none
  else
    match ← call sha256 qcfg env fun _ => .requeueUploading ids with
    | .error e => return some e
    | .ok _ =>
      modifyReplayer fun r => { r with pendingRequeue := [] }
      return none

/-- Without anything pending neither half does anything, which is the early
return of the source. -/
def recoverPending : Replay (Option QueueError) := do
  match ← recoverTerminal sha256 qcfg env with
  | some e => return some e
  | none =>
    match ← recoverRequeue sha256 qcfg env with
    | some e => return some e
    | none =>
      modify fun w => w.record (.recovered w.replayer)
      return none

/-! ### One batch -/

inductive TickError where
  | recover (e : QueueError)
  | dequeue (e : QueueError)
  | cancelled
  | requeuePaused (e : QueueError)
  | persistAck (e : QueueError)
  | persistFatal (e : QueueError)
  | persistTransient (e : QueueError)

variable (decorateResume : Bytes → Bytes)

/-- Stage what a failed terminal write leaves behind. -/
def stageTerminal (pending : PendingTerminal) (requeue : List ℤ) : Replay PUnit :=
  modifyReplayer fun r => { r with pendingTerminal := some pending, pendingRequeue := requeue }

def stageRequeue (ids : List ℤ) : Replay PUnit :=
  modifyReplayer fun r => { r with pendingRequeue := ids }

/-- The loop over the claimed items, at `index` with `rest` still to come. -/
def tickLoop (items : List QueuedItem) : ℕ → List QueuedItem → Bool → Replay (Bool × Option TickError)
  | _, [], anyFailed => return (anyFailed, none)
  | index, item :: rest, anyFailed => do
    if (← choose sha256 qcfg env).done then
      let ids := itemIDs items index
      match ← call sha256 qcfg env fun _ => .requeueUploading ids with
      | .error _ =>
        stageRequeue ids
        return (anyFailed, some .cancelled)
      | .ok _ => return (anyFailed, some .cancelled)
    else if !(← choose sha256 qcfg env).ready then
      let ids := itemIDs items index
      match ← call sha256 qcfg env fun _ => .requeueUploading ids with
      | .error e =>
        stageRequeue ids
        return (true, some (.requeuePaused e))
      | .ok _ => return (anyFailed, none)
    else
      let outcome := (← choose sha256 qcfg env).send
      modify fun w => w.record (.send item.id item.taskId (decorateResume item.payload) outcome)
      match outcome with
      | .ok =>
        let pending : PendingTerminal := ⟨.uploaded, item.id, []⟩
        match ← applyTerminal sha256 qcfg env pending with
        | .error e =>
          stageTerminal pending (itemIDs items (index + 1))
          return (true, some (.persistAck e))
        | .ok _ =>
          modifyReplayer fun r => { r with metrics := countTerminal .uploaded r.metrics }
          tickLoop items (index + 1) rest anyFailed
      | .failed reason true =>
        let pending : PendingTerminal := ⟨.dropped, item.id, reason⟩
        match ← applyTerminal sha256 qcfg env pending with
        | .error e =>
          stageTerminal pending (itemIDs items (index + 1))
          return (true, some (.persistFatal e))
        | .ok _ =>
          modifyReplayer fun r => { r with metrics := countTerminal .dropped r.metrics }
          tickLoop items (index + 1) rest anyFailed
      | .failed reason false =>
        modifyReplayer fun r => { r with metrics := { r.metrics with failed := r.metrics.failed + 1 } }
        match ← call sha256 qcfg env fun now => .markFailed item.id reason cfg.maxRetries now with
        | .error e =>
          stageRequeue (itemIDs items index)
          return (true, some (.persistTransient e))
        | .ok _ =>
          if cfg.maxRetries ≤ (item.retryCount + 1 : ℕ) then
            modifyReplayer fun r => { r with metrics := { r.metrics with dropped := r.metrics.dropped + 1 } }
            tickLoop items (index + 1) rest true
          else tickLoop items (index + 1) rest true

def tickBody : Replay (Bool × Option TickError) := do
  match ← recoverPending sha256 qcfg env with
  | some e => return (true, some (.recover e))
  | none =>
    match ← call sha256 qcfg env fun now => .dequeue cfg.batchSize now with
    | .error e => return (false, some (.dequeue e))
    | .ok (.items items) =>
      if items = [] then return (false, none)
      else tickLoop sha256 qcfg cfg env decorateResume items 0 items false
    | .ok _ => return (false, none)

def tick : Replay (Bool × Option TickError) := do
  let out ← tickBody sha256 qcfg cfg env decorateResume
  modify fun w => w.record (.ticked w.replayer)
  return out

/-! ### Run -/

def stop : Replay PUnit := modifyReplayer fun r => { r with running := none }

def setLocals (f : RunLocals → RunLocals) : Replay PUnit :=
  modifyReplayer fun r => { r with running := r.running.map f }

def backOff (l : RunLocals) : RunLocals :=
  let backoff := if cfg.maxBackoff < l.backoff * 2 then cfg.maxBackoff else l.backoff * 2
  { l with backoff := backoff, interval := backoff }

def resetInterval (l : RunLocals) : RunLocals := { l with interval := cfg.pollInterval }

/-- `Run` up to the top of its loop; the result is the answer of the startup
reclaim, which the source logs, if it was reached. -/
def startRun : Replay (Option (Except QueueError Reply)) := do
  match ← recoverPending sha256 qcfg env with
  | some _ =>
    stop
    return none
  | none =>
    let reclaimed ← call sha256 qcfg env fun _ => .reclaimUploading
    let now := (← choose sha256 qcfg env).now
    modifyReplayer fun r => { r with running := some ⟨cfg.pollInterval, cfg.pollInterval, now⟩ }
    return some reclaimed

/-- The prune at the end of an iteration. -/
def pruneIfDue : Replay PUnit := do
  let now := (← choose sha256 qcfg env).now
  match (← get).replayer.running with
  | none => return ()
  | some l =>
    if cfg.pruneEvery ≤ now - l.lastPrune then
      let _ ← call sha256 qcfg env fun cutoff => .prune cutoff
      let now := (← choose sha256 qcfg env).now
      setLocals fun l => { l with lastPrune := now }
    else return ()

/-- The tick of an iteration and what follows it. -/
def tickAndPrune : Replay PUnit := do
  let out ← tick sha256 qcfg cfg env decorateResume
  if out.2.isSome && (← choose sha256 qcfg env).done then stop
  else
    if out.1 || out.2.isSome then setLocals (backOff cfg)
    else setLocals fun l => { l with backoff := cfg.pollInterval, interval := cfg.pollInterval }
    pruneIfDue sha256 qcfg cfg env

/-- One turn of the loop of `Run`. -/
def iterate : Replay PUnit := do
  if (← choose sha256 qcfg env).done then stop
  else
    modifyReplayer fun r => { r with metrics := { r.metrics with ticks := r.metrics.ticks + 1 } }
    match ← recoverPending sha256 qcfg env with
    | some _ =>
      if (← choose sha256 qcfg env).done then stop
      else setLocals (backOff cfg)
    | none =>
      if (← choose sha256 qcfg env).done then stop
      else if !(← choose sha256 qcfg env).authenticated then setLocals (resetInterval cfg)
      else if !(← choose sha256 qcfg env).ready then
        modifyReplayer fun r => { r with metrics := { r.metrics with pausedTicks := r.metrics.pausedTicks + 1 } }
        setLocals (resetInterval cfg)
      else tickAndPrune sha256 qcfg cfg env decorateResume

end Program

/-! ### Runs -/

inductive ReplayOp where
  | start (env : ℕ → Choice)
  | iterate (env : ℕ → Choice)

/-- Every operation reads its own choices, from the first. -/
def World.rewind (w : World) : World := { w with next := 0 }

/-- A start while a `Run` is active is refused; an iteration needs an active
`Run`. -/
def World.step (sha256 : Bytes → Bytes) (qcfg : QueueConfig) (cfg : ReplayConfig) (decorateResume : Bytes → Bytes)
    (w : World) (op : ReplayOp) : World :=
  match op, w.replayer.running with
  | .start env, none => ((startRun sha256 qcfg cfg env).run w.rewind).2
  | .iterate env, some _ => ((iterate sha256 qcfg cfg env decorateResume).run w.rewind).2
  | _, _ => w

def replayMachine (sha256 : Bytes → Bytes) (qcfg : QueueConfig) (cfg : ReplayConfig)
    (decorateResume : Bytes → Bytes) : Machine World ReplayOp Unit :=
  ⟨fun w op => (w.step sha256 qcfg (newConfig cfg) decorateResume op, ())⟩

def World.new (q : Queue) : World := ⟨newReplayer q, 0, []⟩

end AgentWorkflow.VmAgent
