import AgentWorkflow.Lib.Machine
import AgentWorkflow.Lib.Numbered

/-!
# Task scheduler (`scheduler.py`)

The run state and the commands that edit it. `edit_run_state` holds the file lock
for one read, change and atomic write, and leaves the file alone when the body
raises or exits, so the commands of all processes are one sequence of steps. What
a step is given besides its arguments: the clock, the mode files, and whether the
lock times out or the write fails.
-/

namespace AgentWorkflow.Workflows.Scheduler
open AgentWorkflow.Lib AgentWorkflow.Lib.Calendar

inductive TaskStatus where
  | pending
  | inProgress
  | done
  | completed
  | deferred
  | failed
deriving DecidableEq, Repr

structure Task where
  id : Text
  description : Text
  priority : ℕ
  status : TaskStatus
  createdAt : Text
  depends : List Text
  group : Option Text
  completedAt : Option Text
  claimedAt : Option Text
  batchId : Option Text
deriving DecidableEq

inductive BatchStatus where
  | active
  | completed
  | failed
deriving DecidableEq, Repr

structure Batch where
  id : Text
  status : BatchStatus
  mode : Text
  startedAt : Text
  taskIds : List Text
  completedTaskIds : List Text
  failedTaskIds : List Text
  completedAt : Option Text
deriving DecidableEq

inductive SessionStatus where
  | idle
  | active
deriving DecidableEq, Repr

structure Session where
  id : Text
  status : SessionStatus
  mode : Option Text
  startedAt : Text
  lastHeartbeat : Option Text
deriving DecidableEq

structure Checkpoint where
  resumable : Bool
  resumeInstruction : Option Text
  savedAt : Option Text
deriving DecidableEq

structure Progress where
  tasksCompletedThisSession : ℕ
  batchesCompletedThisSession : ℕ
  currentBatch : Option Text
deriving DecidableEq

structure RunState where
  session : Session
  checkpoint : Checkpoint
  backlog : List Task
  batches : List Batch
  progress : Progress
deriving DecidableEq

def defaultState (sessionId startedAt : Text) : RunState :=
  { session := { id := sessionId, status := .idle, mode := none, startedAt := startedAt, lastHeartbeat := none }
    checkpoint := { resumable := false, resumeInstruction := none, savedAt := none }
    backlog := []
    batches := []
    progress := { tasksCompletedThisSession := 0, batchesCompletedThisSession := 0, currentBatch := none } }

/-- What `load_mode` and `int(..parallel_agents..)` make of a mode file. `missing`
stands also for a falsy document, `malformed` for one that raises. -/
inductive ModeFile where
  | missing
  | malformed
  | parallelAgents (n : ℤ)
deriving DecidableEq

/-! ### Selection -/

def taskPrefix : Text := "T-".toList
def batchPrefix : Text := "B-".toList

def nextTaskId (backlog : List Task) : Text :=
  Numbered.name taskPrefix (Numbered.maxNumber (Numbered.matchNumber taskPrefix) (backlog.map Task.id) + 1)

def nextBatchId (batches : List Batch) : Text :=
  Numbered.name batchPrefix
    (Numbered.maxNumber (Numbered.fullmatchNumber batchPrefix) (batches.map Batch.id) + 1)

def TaskStatus.resolves : TaskStatus → Bool
  | .done | .completed | .deferred => true
  | _ => false

def resolveDependencies (tasks backlog : List Task) : List Task :=
  let doneIds := (backlog.filter fun t => t.status.resolves).map Task.id
  tasks.filter fun t => t.depends.all fun d => decide (d ∈ doneIds)

def Task.sortsBefore (a b : Task) : Prop := a.priority < b.priority ∨ (a.priority = b.priority ∧ a.id ≤ b.id)

instance : DecidableRel Task.sortsBefore := fun _ _ => inferInstanceAs (Decidable (_ ∨ _))

def selectReadyTasks (s : RunState) (parallelAgents : ℤ) : List Task :=
  let pending := s.backlog.filter fun t => decide (t.status = .pending)
  let ready := resolveDependencies pending s.backlog
  let limit := max 1 parallelAgents
  (ready.insertionSort Task.sortsBefore).take limit.toNat

/-! ### Commands -/

inductive Failure where
  | storage
  | activeBatch
  | unknownMode (name : Text)
  | malformedMode
  | nothingReady
  | noActiveBatch
  | unresolved (ids : List Text)
deriving DecidableEq

inductive Completion where
  | missing
  | alreadyDone
  | completed
deriving DecidableEq, Repr

inductive Reply where
  | completion (outcome : Completion)
  | added (id : Text)
  | saved
  | started (batchId mode : Text) (taskIds : List Text)
  | finished (summaries : List (Text × List Text × List Text))
  | failed (e : Failure)
deriving DecidableEq

/-- The loop of `cmd_complete`: the first task with the id decides. -/
def completeIn (taskId now : Text) : List Task → Completion × List Task
  | [] => (.missing, [])
  | t :: ts =>
    if t.id ≠ taskId then
      let r := completeIn taskId now ts
      (r.1, t :: r.2)
    else if t.status = .done then (.alreadyDone, t :: ts)
    else (.completed, { t with status := .done, completedAt := some now } :: ts)

def cmdComplete (taskId now : Text) (s : RunState) : RunState × Reply :=
  let r := completeIn taskId now s.backlog
  let progress := if r.1 = .completed then
      { s.progress with tasksCompletedThisSession := s.progress.tasksCompletedThisSession + 1 }
    else s.progress
  ({ s with backlog := r.2, progress := progress }, .completion r.1)

def cmdAdd (description : Text) (priority : ℕ) (depends : List Text) (group : Option Text) (now : Text)
    (s : RunState) : RunState × Reply :=
  let task : Task :=
    { id := nextTaskId s.backlog, description := description, priority := priority, status := .pending,
      createdAt := now, depends := depends, group := group.filter (· ≠ []), completedAt := none, claimedAt := none,
      batchId := none }
  ({ s with backlog := s.backlog ++ [task] }, .added task.id)

def cmdHeartbeat (now : Text) (s : RunState) : RunState × Reply :=
  ({ s with session := { s.session with lastHeartbeat := some now } }, .saved)

def cmdCheckpoint (instruction now : Text) (s : RunState) : RunState × Reply :=
  ({ s with checkpoint := { resumable := true, resumeInstruction := some instruction, savedAt := some now } }, .saved)

/-- `mode_name or session.get("mode") or "daily"` -/
def effectiveMode (modeName : Option Text) (session : Session) : Text :=
  match modeName with
  | some (c :: m) => c :: m
  | _ =>
    match session.mode with
    | some (c :: m) => c :: m
    | _ => "daily".toList

def claim (timestamp batchId : Text) (selected : List Task) (t : Task) : Task :=
  -- `selected` holds the backlog's own task objects, not copies
  if t ∈ selected then
    { t with status := .inProgress, claimedAt := some timestamp, batchId := some batchId }
  else t

def startBatch (mode timestamp : Text) (selected : List Task) (s : RunState) : RunState :=
  let batchId := nextBatchId s.batches
  let taskIds := selected.map Task.id
  let batch : Batch :=
    { id := batchId, status := .active, mode := mode, startedAt := timestamp, taskIds := taskIds,
      completedTaskIds := [], failedTaskIds := [], completedAt := none }
  { s with
    backlog := s.backlog.map (claim timestamp batchId selected)
    batches := s.batches ++ [batch]
    progress := { s.progress with currentBatch := some batchId }
    session := { s.session with status := .active, mode := some mode, lastHeartbeat := some timestamp } }

def Batch.isActive (b : Batch) : Bool := decide (b.status = .active)

def cmdBatchStart (modeName : Option Text) (loadMode : Text → ModeFile) (now : Text) (s : RunState) :
    RunState × Reply :=
  if s.batches.any Batch.isActive then (s, .failed .activeBatch)
  else
    let mode := effectiveMode modeName s.session
    match loadMode mode with
    | .missing => (s, .failed (.unknownMode mode))
    | .malformed => (s, .failed .malformedMode)
    | .parallelAgents n =>
      let selected := selectReadyTasks s n
      if selected = [] then (s, .failed .nothingReady)
      else (startBatch mode now selected s,
        .started (nextBatchId s.batches) mode (selected.map Task.id))

/-- `backlog_by_id.get(task_id, {}).get("status")`; a later task replaces an
earlier one with the same id. -/
def statusOf (backlog : List Task) (taskId : Text) : Option TaskStatus :=
  (backlog.reverse.find? fun t => decide (t.id = taskId)).map Task.status

def isResolved (backlog : List Task) (taskId : Text) : Bool :=
  match statusOf backlog taskId with
  | some .done | some .failed | some .deferred => true
  | _ => false

def unresolvedIds (s : RunState) : List Text :=
  (s.batches.filter Batch.isActive).flatMap fun b => b.taskIds.filter fun i => !isResolved s.backlog i

def finishBatch (backlog : List Task) (timestamp : Text) (b : Batch) : Batch :=
  if b.isActive then
    let completedIds := b.taskIds.filter fun i => decide (statusOf backlog i = some .done)
    let failedIds := b.taskIds.filter fun i => decide (statusOf backlog i = some .failed)
    { b with
      status := if failedIds = [] then .completed else .failed
      completedAt := some timestamp
      completedTaskIds := completedIds
      failedTaskIds := failedIds }
  else b

def finishBatches (timestamp : Text) (s : RunState) : RunState :=
  let active := s.batches.filter Batch.isActive
  { s with
    batches := s.batches.map (finishBatch s.backlog timestamp)
    progress := { s.progress with
      batchesCompletedThisSession := s.progress.batchesCompletedThisSession + active.length
      currentBatch := none } }

def cmdBatchComplete (now : Text) (s : RunState) : RunState × Reply :=
  if s.batches.filter Batch.isActive = [] then (s, .failed .noActiveBatch)
  else if unresolvedIds s ≠ [] then
    (s, .failed (.unresolved ((unresolvedIds s).insertionSort fun a b => a ≤ b)))
  else
    let summaries := (s.batches.filter Batch.isActive).map fun b =>
      let b' := finishBatch s.backlog now b
      (b'.id, b'.completedTaskIds, b'.failedTaskIds)
    (finishBatches now s, .finished summaries)

/-! ### The machine -/

inductive Command where
  | add (description : Text) (priority : ℕ) (depends : List Text) (group : Option Text)
  | complete (taskId : Text)
  | batchStart (modeName : Option Text)
  | batchComplete
  | heartbeat
  | checkpoint (instruction : Text)

/-- `fault`: the lock is not obtained in time, or the new state cannot be written. -/
structure Invocation where
  command : Command
  now : Text
  loadMode : Text → ModeFile
  fault : Bool

def perform (i : Invocation) (s : RunState) : RunState × Reply :=
  match i.command with
  | .add description priority depends group => cmdAdd description priority depends group i.now s
  | .complete taskId => cmdComplete taskId i.now s
  | .batchStart modeName => cmdBatchStart modeName i.loadMode i.now s
  | .batchComplete => cmdBatchComplete i.now s
  | .heartbeat => cmdHeartbeat i.now s
  | .checkpoint instruction => cmdCheckpoint instruction i.now s

def step (s : RunState) (i : Invocation) : RunState × Reply :=
  if i.fault then (s, .failed .storage) else perform i s

def machine : Machine RunState Invocation Reply := ⟨step⟩

end AgentWorkflow.Workflows.Scheduler
