import AgentWorkflow.Lib.Machine
import AgentWorkflow.Lib.Program
import AgentWorkflow.Lib.Table

/-!
# The offline queue (`internal/queue/queue.go`)

The table `pending_results` and the calls on it. Every call holds the writer
lock and is one transaction or one statement, so it is one step here. Go
strings and byte slices are lists of bytes. Timestamps are the `REAL` values
the calls write; `prune` takes the cutoff the code computes from its clock.
-/

namespace AgentWorkflow.VmAgent
open AgentWorkflow.Lib

abbrev Bytes := List UInt8

inductive Status where
  | queued
  | uploading
  | uploaded
  | dropped
deriving DecidableEq, Repr

structure Row where
  id : ℤ
  taskId : Bytes
  payload : Bytes
  sha256 : Bytes
  createdAt : ℚ
  retryCount : ℕ
  lastAttemptAt : Option ℚ
  status : Status
  lastError : Option Bytes
deriving DecidableEq

/-- `lastId` is the `AUTOINCREMENT` sequence. -/
structure Queue where
  rows : List Row
  lastId : ℤ
deriving DecidableEq

/-- `lastAttemptAt` is `none` for Go's zero time. -/
structure QueuedItem where
  id : ℤ
  taskId : Bytes
  payload : Bytes
  sha256 : Bytes
  createdAt : ℚ
  retryCount : ℕ
  lastAttemptAt : Option ℚ
  status : Status
  lastError : Bytes
deriving DecidableEq

inductive QueueError where
  | closed
  | notFound
  | taskIdRequired
  | emptyPayload
  | requeueNotFound (id : ℤ)
  | markUploaded (id : ℤ) (status : Status)
  | markFailed (id : ℤ) (status : Status)
  | forceDrop (id : ℤ) (status : Status)
  | full
  | lock
  | database
deriving DecidableEq, Repr

structure QueueConfig where
  maxRetries : ℤ

namespace Queue

def empty : Queue := ⟨[], 0⟩

def row (q : Queue) (id : ℤ) : Option Row := Table.find Row.id id q.rows

def set (q : Queue) (id : ℤ) (f : Row → Row) : Queue :=
  { q with rows := Table.update (fun r => decide (r.id = id)) f q.rows }

/-! ### The calls -/

/-- The largest rowid; past it an `AUTOINCREMENT` insert fails. -/
def maxRowid : ℤ := 9223372036854775807

def newRow (sha256 : Bytes → Bytes) (id : ℤ) (taskId payload : Bytes) (now : ℚ) : Row :=
  ⟨id, taskId, payload, sha256 payload, now, 0, none, .queued, none⟩

def sameResult (taskId digest : Bytes) (r : Row) : Bool :=
  decide (r.taskId = taskId) && decide (r.sha256 = digest)

def enqueue (sha256 : Bytes → Bytes) (taskId payload : Bytes) (now : ℚ) : Queue → Except QueueError ℤ × Queue :=
  transaction fun q =>
    if taskId = [] then .error .taskIdRequired
    else if payload = [] then .error .emptyPayload
    else match q.rows.find? (sameResult taskId (sha256 payload)) with
      | some existing => .ok (existing.id, q)
      | none =>
        if maxRowid ≤ q.lastId then .error .full
        else .ok (q.lastId + 1,
          ⟨q.rows ++ [newRow sha256 (q.lastId + 1) taskId payload now], q.lastId + 1⟩)

def isQueued (r : Row) : Bool := decide (r.status = .queued)

def byId (r s : Row) : Prop := r.id ≤ s.id

instance : DecidableRel byId := fun _ _ => inferInstanceAs (Decidable (_ ≤ _))

instance : Std.Total byId where
  total r s := le_total r.id s.id

instance : IsTrans Row byId where
  trans _ _ _ := le_trans (α := ℤ)

def dequeueLimit (limit : ℤ) : ℕ := (if limit ≤ 0 then 50 else limit).toNat

/-- `SELECT ... WHERE status = 'queued' ORDER BY id ASC LIMIT ?`. -/
def nextQueued (q : Queue) (limit : ℤ) : List Row :=
  (Table.select isQueued byId q.rows).take (dequeueLimit limit)

def claimRow (now : ℚ) (r : Row) : Row := { r with status := .uploading, lastAttemptAt := some now }

/-- The struct a selected row is scanned into, with its status already set to
the one the row is about to get. -/
def itemOf (r : Row) : QueuedItem :=
  ⟨r.id, r.taskId, r.payload, r.sha256, r.createdAt, r.retryCount, r.lastAttemptAt.filter (0 < ·), .uploading,
    r.lastError.getD []⟩

def dequeue (limit : ℤ) (now : ℚ) : Queue → Except QueueError (List QueuedItem) × Queue :=
  transaction fun q =>
    let items := q.nextQueued limit
    if items = [] then .ok ([], q)
    else
      let ids := items.map Row.id
      .ok (items.map itemOf, { q with rows := Table.update (fun r => decide (r.id ∈ ids)) (claimRow now) q.rows })

def uploadRow (now : ℚ) (r : Row) : Row :=
  { r with status := .uploaded, lastAttemptAt := some now, lastError := none }

def markUploaded (id : ℤ) (now : ℚ) : Queue → Except QueueError Unit × Queue :=
  transaction fun q =>
    match q.row id with
    | none => .error .notFound
    | some r =>
      match r.status with
      | .uploaded => .ok ((), q)
      | .uploading | .queued => .ok ((), q.set id (uploadRow now))
      | .dropped => .error (.markUploaded id .dropped)

/-- `...(truncated)` -/
def truncatedMark : Bytes := [46, 46, 46, 40, 116, 114, 117, 110, 99, 97, 116, 101, 100, 41]

def truncateErr (s : Bytes) : Bytes :=
  if 1024 < s.length then s.take 1024 ++ truncatedMark else s

def effectiveMaxRetries (cfg : QueueConfig) (maxRetries : ℤ) : ℤ :=
  if maxRetries ≤ 0 then cfg.maxRetries else maxRetries

def failRow (limit : ℤ) (reason : Bytes) (now : ℚ) (r : Row) : Row :=
  { r with
    status := if limit ≤ (r.retryCount + 1 : ℕ) then .dropped else .queued
    retryCount := r.retryCount + 1
    lastAttemptAt := some now
    lastError := some (truncateErr reason) }

def markFailed (cfg : QueueConfig) (id : ℤ) (reason : Bytes) (maxRetries : ℤ) (now : ℚ) :
    Queue → Except QueueError Unit × Queue :=
  transaction fun q =>
    match q.row id with
    | none => .error .notFound
    | some r =>
      if r.status ≠ .uploading ∧ r.status ≠ .queued then .error (.markFailed id r.status)
      else .ok ((), q.set id (failRow (effectiveMaxRetries cfg maxRetries) reason now))

def dropRow (reason : Bytes) (now : ℚ) (r : Row) : Row :=
  { r with status := .dropped, lastAttemptAt := some now, lastError := some (truncateErr reason) }

def forceDropped (id : ℤ) (reason : Bytes) (now : ℚ) : Queue → Except QueueError Unit × Queue :=
  transaction fun q =>
    match q.row id with
    | none => .error .notFound
    | some r =>
      match r.status with
      | .dropped => .ok ((), q)
      | .uploading | .queued => .ok ((), q.set id (dropRow reason now))
      | .uploaded => .error (.forceDrop id .uploaded)

def requeueRow (r : Row) : Row := { r with status := .queued }

def isUploading (r : Row) : Bool := decide (r.status = .uploading)

def reclaimUploading (q : Queue) : ℕ × Queue :=
  (Table.rowcount isUploading q.rows, { q with rows := Table.update isUploading requeueRow q.rows })

/-- The loop over the ids, with the ids seen so far. -/
def requeueLoop : List ℤ → List ℤ → Queue → Except QueueError Queue
  | [], _, q => .ok q
  | id :: ids, seen, q =>
    if id ∈ seen then requeueLoop ids seen q
    else match q.row id with
      | none => .error (.requeueNotFound id)
      | some r =>
        match r.status with
        | .queued | .uploaded | .dropped => requeueLoop ids (id :: seen) q
        | .uploading => requeueLoop ids (id :: seen) (q.set id requeueRow)

def requeueUploading (ids : List ℤ) : Queue → Except QueueError Unit × Queue :=
  transaction fun q =>
    match requeueLoop ids [] q with
    | .ok q' => .ok ((), q')
    | .error e => .error e

/-- `status='uploaded' AND COALESCE(last_attempt_at, created_at) < ?`. -/
def isPrunable (cutoff : ℚ) (r : Row) : Bool :=
  decide (r.status = .uploaded) && decide (r.lastAttemptAt.getD r.createdAt < cutoff)

def prune (cutoff : ℚ) (q : Queue) : ℕ × Queue :=
  (Table.rowcount (isPrunable cutoff) q.rows, { q with rows := q.rows.filter fun r => !isPrunable cutoff r })

end Queue

/-! ### The queue as a machine -/

inductive QueueOp where
  | enqueue (taskId payload : Bytes) (now : ℚ)
  | dequeue (limit : ℤ) (now : ℚ)
  | markUploaded (id : ℤ) (now : ℚ)
  | markFailed (id : ℤ) (reason : Bytes) (maxRetries : ℤ) (now : ℚ)
  | forceDropped (id : ℤ) (reason : Bytes) (now : ℚ)
  | requeueUploading (ids : List ℤ)
  | reclaimUploading
  | prune (cutoff : ℚ)
deriving DecidableEq

inductive Reply where
  | id (id : ℤ)
  | items (items : List QueuedItem)
  | done
  | count (n : ℕ)
deriving DecidableEq

def QueueOp.exec (sha256 : Bytes → Bytes) (cfg : QueueConfig) (q : Queue) :
    QueueOp → Except QueueError Reply × Queue
  | .enqueue taskId payload now => (q.enqueue sha256 taskId payload now).map (Except.map .id) id
  | .dequeue limit now => (q.dequeue limit now).map (Except.map .items) id
  | .markUploaded i now => (q.markUploaded i now).map (Except.map fun _ => .done) id
  | .markFailed i reason maxRetries now =>
    (q.markFailed cfg i reason maxRetries now).map (Except.map fun _ => .done) id
  | .forceDropped i reason now => (q.forceDropped i reason now).map (Except.map fun _ => .done) id
  | .requeueUploading ids => (q.requeueUploading ids).map (Except.map fun _ => .done) id
  | .reclaimUploading => (.ok (.count q.reclaimUploading.1), q.reclaimUploading.2)
  | .prune cutoff => (.ok (.count (q.prune cutoff).1), (q.prune cutoff).2)

section
-- the equations are made here once, not in every proof at the same time
attribute [local simp] QueueOp.exec
end

/-- Ids of the rows a call handed out. -/
def claimedIds : Except QueueError Reply → List ℤ
  | .ok (.items items) => items.map QueuedItem.id
  | _ => []

/-- A `MarkFailed` of the row that succeeded. -/
def QueueOp.fails (id : ℤ) (op : QueueOp) (reply : Except QueueError Reply) : Bool :=
  match op, reply with
  | .markFailed i _ _ _, .ok _ => decide (i = id)
  | _, _ => false

/-- Everything a call can do to one row: the guard that held and the row that
results. -/
inductive StepRow (cfg : QueueConfig) (q : Queue) (op : QueueOp) (reply : Except QueueError Reply) (id : ℤ) :
    Option Row → Option Row → Prop where
  | same (x : Option Row) (unfailed : op.fails id reply = false) (unclaimed : id ∉ claimedIds reply) :
      StepRow cfg q op reply id x x
  | create (r : Row) (taskId payload : Bytes) (now : ℚ) (isOp : op = .enqueue taskId payload now)
      (isReply : reply = .ok (.id id)) (new : id = q.lastId + 1)
      (fresh : r.status = .queued ∧ r.retryCount = 0) :
      StepRow cfg q op reply id none (some r)
  | claim (r : Row) (limit : ℤ) (now : ℚ) (isOp : op = .dequeue limit now) (claimed : id ∈ claimedIds reply)
      (queued : r.status = .queued) : StepRow cfg q op reply id (some r) (some (Queue.claimRow now r))
  | upload (r : Row) (now : ℚ) (isOp : op = .markUploaded id now) (isReply : reply = .ok .done)
      (live : r.status = .uploading ∨ r.status = .queued) :
      StepRow cfg q op reply id (some r) (some (Queue.uploadRow now r))
  | fail (r : Row) (reason : Bytes) (maxRetries : ℤ) (now : ℚ)
      (isOp : op = .markFailed id reason maxRetries now) (isReply : reply = .ok .done)
      (live : r.status = .uploading ∨ r.status = .queued) :
      StepRow cfg q op reply id (some r)
        (some (Queue.failRow (Queue.effectiveMaxRetries cfg maxRetries) reason now r))
  | drop (r : Row) (reason : Bytes) (now : ℚ) (isOp : op = .forceDropped id reason now)
      (isReply : reply = .ok .done) (live : r.status = .uploading ∨ r.status = .queued) :
      StepRow cfg q op reply id (some r) (some (Queue.dropRow reason now r))
  | release (r : Row) (isOp : (∃ ids, op = .requeueUploading ids ∧ id ∈ ids) ∨ op = .reclaimUploading)
      (isReply : ∃ x, reply = .ok x) (unclaimed : id ∉ claimedIds reply) (uploading : r.status = .uploading) :
      StepRow cfg q op reply id (some r) (some (Queue.requeueRow r))
  | prune (r : Row) (cutoff : ℚ) (isOp : op = .prune cutoff) (unclaimed : id ∉ claimedIds reply)
      (uploaded : r.status = .uploaded) :
      StepRow cfg q op reply id (some r) none

end AgentWorkflow.VmAgent
