import AgentWorkflow.Lib.Machine
import AgentWorkflow.Lib.Program
import AgentWorkflow.Worker.ResultFormat

/-!
# The offline result queue (`cloud_client.py`, `storage.py`)

The offline and the rejected directory are maps from names to contents. A
program runs on the disk and may be stopped between any two operations; what
the environment decides is read from a stream of choices. Files keep their
identity and no other process writes, so the identity checks of the source are
left out. The log records the disk after every write and what the server
answered; it has no counterpart in the source and nothing reads it.
-/

namespace AgentWorkflow.Worker
open AgentWorkflow.Lib AgentWorkflow.Lib.PyStr

abbrev Bytes := List UInt8

/-! ### File names -/

def timestampPattern : Pattern := List.replicate 20 isDigit

def noncePattern : Pattern := List.replicate 32 isHexDigit

/-- The timestamp and nonce of a record, as the groups of its file name. -/
structure Stamp where
  timestamp : PyStr
  nonce : PyStr
  timestamp_match : fullmatch timestampPattern timestamp = true
  nonce_match : fullmatch noncePattern nonce = true
deriving DecidableEq

namespace Stamp

/-- `time.time_ns()` is a 64-bit count, `uuid4().hex` a 128-bit number in hex. -/
def now (timeNs : Fin (2 ^ 63)) (uuid : Fin (2 ^ 128)) : Stamp where
  timestamp := padDigits "0123456789" 20 timeNs
  nonce := padDigits "0123456789abcdef" 32 uuid
  timestamp_match := fullmatch_padDigits (by decide) _ _
  nonce_match := fullmatch_padDigits (by decide) _ _

def queueName (s : Stamp) : PyStr := s.timestamp ++ (ofString "-" ++ (s.nonce ++ ofString ".json"))

def claimName (s : Stamp) : PyStr := ofString ".c" ++ (s.timestamp ++ (ofString "-" ++ (s.nonce ++ ofString ".s")))

def ofGroups (timestamp nonce : PyStr) : Option Stamp :=
  if h : fullmatch timestampPattern timestamp = true ∧ fullmatch noncePattern nonce = true then
    some ⟨timestamp, nonce, h.1, h.2⟩
  else none

/-- Order by timestamp, then nonce. -/
def lt (s t : Stamp) : Prop := s.timestamp < t.timestamp ∨ (s.timestamp = t.timestamp ∧ s.nonce < t.nonce)

end Stamp

/-- `_QUEUE_NAME` -/
def queuePattern : Pattern := timestampPattern ++ (literal "-" ++ (noncePattern ++ literal ".json"))

/-- `_CLAIM_NAME` -/
def claimPattern : Pattern := literal ".c" ++ (timestampPattern ++ (literal "-" ++ (noncePattern ++ literal ".s")))

def matchQueueName (name : PyStr) : Option Stamp :=
  if fullmatch queuePattern name then Stamp.ofGroups (name.take 20) ((name.drop 21).take 32) else none

def matchClaimName (name : PyStr) : Option Stamp :=
  if fullmatch claimPattern name then Stamp.ofGroups ((name.drop 2).take 20) ((name.drop 23).take 32) else none

/-! ### Records -/

/-- `json.dumps` in the canonical form of the queue, with the final newline and
in UTF-8, and `json.loads` of decoded bytes; `none` is an error the callers turn
into a `ValueError`. A dictionary stands for its entries in key order, the order
in which they are written. -/
structure JsonCodec where
  dumps : Value → Option Bytes
  loads : Bytes → Option Value

structure QueueBody where
  taskId : PyStr
  payload : Value

/-- `_SAFE_TASK_ID` -/
def isSafeTaskId (s : PyStr) : Bool :=
  decide (1 ≤ s.length) && decide (s.length ≤ 128) &&
    s.all (oneOf "ABCDEFGHIJKLMNOPQRSTUVWXYZabcdefghijklmnopqrstuvwxyz0123456789_.-")

def hasKeys (keys : List String) (d : Dict) : Bool :=
  d.all fun e => decide (e.1 ∈ keys.map ofString)

/-- `_validate_queue_record`; the result holds what the callers read from it. -/
def validateQueueRecord : Value → Except PyError QueueBody
  | .obj item =>
    match hasKeys ["schema", "kind", "payload"] item, Json.get (ofString "schema") item,
      Json.get (ofString "kind") item, Json.get (ofString "payload") item with
    | true, some schema, some kind, some body =>
      if schema.eq (.str (ofString "awp-offline-result/v2")) && kind.eq (.str (ofString "result")) then
        match body with
        | .obj body =>
          match hasKeys ["task_id", "payload"] body, Json.get (ofString "task_id") body,
            Json.get (ofString "payload") body with
          | true, some (.str taskId), some payload =>
            if isSafeTaskId taskId then do
              let _ ← validateResultPayload payload
              return ⟨taskId, payload⟩
            else .error (.valueError "offline queue task_id is invalid")
          | true, some _, some _ => .error (.valueError "offline queue task_id is invalid")
          | _, _, _ => .error (.valueError "offline queue body has an invalid schema")
        | _ => .error (.valueError "offline queue body has an invalid schema")
      else .error (.valueError "offline queue record type is unsupported")
    | _, _, _, _ => .error (.valueError "offline queue record has an invalid schema")
  | _ => .error (.valueError "offline queue record has an invalid schema")

def maxOfflineBytes : ℕ := 16 * 1024 * 1024

def queueRecord (kind : PyStr) (payload : Value) : Value :=
  .obj [(ofString "kind", .str kind), (ofString "payload", payload),
    (ofString "schema", .str (ofString "awp-offline-result/v2"))]

/-- `_encode_queue_record`, with the body of the record it checked. -/
def encodeQueueRecord (J : JsonCodec) (kind : PyStr) (payload : Value) : Except PyError (QueueBody × Bytes) := do
  let body ← validateQueueRecord (queueRecord kind payload)
  match J.dumps (queueRecord kind payload) with
  | none => .error (.valueError "offline result is not JSON serializable")
  | some encoded =>
    if maxOfflineBytes < encoded.length then .error (.valueError "offline result exceeds its size limit")
    else return (body, encoded)

/-! ### The disk -/

abbrev Dir := AList fun _ : PyStr => Bytes

structure Disk where
  offline : Dir
  rejected : Dir

namespace Disk

def empty : Disk := ⟨∅, ∅⟩

def write (name : PyStr) (content : Bytes) (d : Disk) : Disk :=
  { d with offline := d.offline.insert name content }

/-- A rename replaces what the destination held. -/
def rename (source destination : PyStr) (d : Disk) : Disk :=
  match d.offline.lookup source with
  | none => d
  | some content => { d with offline := (d.offline.erase source).insert destination content }

def reject (source destination : PyStr) (d : Disk) : Disk :=
  match d.offline.lookup source with
  | none => d
  | some content => ⟨d.offline.erase source, d.rejected.insert destination content⟩

def unlink (name : PyStr) (d : Disk) : Disk := { d with offline := d.offline.erase name }

/-- The names that match, in name order. -/
def sortedNames (p : Pattern) (d : Disk) : List PyStr :=
  (d.offline.keys.filter fun n => fullmatch p n).insertionSort (· ≤ ·)

end Disk

/-! ### The environment -/

inductive Content where
  | empty
  | json
  | invalid
deriving DecidableEq

/-- What an attempt to send meets; `unavailable` is any request exception. -/
inductive Answer where
  | unavailable
  | response (status : ℕ) (content : Content)
deriving DecidableEq

/-- `written` is how much of a new file reaches the disk before a crash. -/
structure Choice where
  crash : Bool
  timeNs : Fin (2 ^ 63)
  uuid : Fin (2 ^ 128)
  written : ℕ
  answer : Answer

inductive Event where
  | drew (s : Stamp)
  | wrote (d : Disk)
  | cached (s : Stamp) (body : QueueBody) (content : Bytes)
  | recovered (before after : Disk)
  | posted (d : Disk) (s : Stamp) (body : QueueBody) (answer : Answer)

structure World where
  disk : Disk
  next : ℕ
  log : List Event

inductive Stop where
  | crash
  | raised (e : PyError)
deriving DecidableEq

abbrev Offline := ExceptT Stop (StateM World)

def World.record (e : Event) (w : World) : World := { w with log := w.log ++ [e] }

def World.setDisk (d : Disk) (w : World) : World := { w with disk := d, log := w.log ++ [.wrote d] }

/-! ### Programs -/

section Program
variable (J : JsonCodec) (env : ℕ → Choice)

def choose : Offline Choice := ExceptT.mk fun w => (.ok (env w.next), { w with next := w.next + 1 })

def record (e : Event) : Offline PUnit := ExceptT.mk fun w => (.ok ⟨⟩, w.record e)

def change (f : Disk → Disk) : Offline PUnit := ExceptT.mk fun w => (.ok ⟨⟩, w.setDisk (f w.disk))

def crashPoint : Offline PUnit := do
  if (← choose env).crash then throw .crash else return ⟨⟩

/-- One write, before which the process may crash. -/
def fs (f : Disk → Disk) : Offline PUnit := do
  crashPoint env
  change f

/-- `write_exclusive`; `false` is the `FileExistsError`. A crash inside leaves a
part of the content. -/
def writeExclusive (name : PyStr) (data : Bytes) : Offline Bool := do
  crashPoint env
  if (← get).disk.offline.lookup name ≠ none then return false
  else
    let c ← choose env
    change (Disk.write name (data.take c.written))
    if c.crash then throw .crash
    else
      change (Disk.write name data)
      crashPoint env
      return true

/-- The attempts at a name, of which there are eight. -/
def tryNames (encoded : Bytes) : ℕ → Offline Stamp
  | 0 => throw (.raised (.runtimeError "could not allocate an offline queue filename"))
  | tries + 1 => do
    let c ← choose env
    let s := Stamp.now c.timeNs c.uuid
    record (.drew s)
    if ← writeExclusive env s.queueName encoded then return s else tryNames encoded tries

def cacheOffline (kind : PyStr) (payload : Value) : Offline PUnit := do
  match encodeQueueRecord J kind payload with
  | .error e => throw (.raised e)
  | .ok (body, encoded) =>
    let s ← tryNames env encoded 8
    record (.cached s body encoded)

/-- `_reject_claim`; the errors are those it raises. -/
def rejectClaim (s : Stamp) : Offline (Except PyError PUnit) := do
  let d := (← get).disk
  if d.offline.lookup s.claimName = none then
    return .error (.permissionError "offline queue claim changed before rejection")
  else if d.rejected.lookup s.queueName ≠ none then
    return .error (.fileExistsError "rejected queue item already exists")
  else
    fs env (Disk.reject s.claimName s.queueName)
    return .ok ⟨⟩

def returnClaim (s : Stamp) : Offline (Except PyError PUnit) := do
  let d := (← get).disk
  if d.offline.lookup s.queueName ≠ none ∨ d.offline.lookup s.claimName = none then
    return .error (.permissionError "offline queue path changed before retry")
  else
    fs env (Disk.rename s.claimName s.queueName)
    return .ok ⟨⟩

/-- `open_existing` -/
def openExisting (d : Disk) (name : PyStr) : Except PyError Bytes :=
  match d.offline.lookup name with
  | none => .error (.permissionError "worker state file is missing or linked")
  | some content =>
    if maxOfflineBytes < content.length then .error (.valueError "worker state file exceeds its size limit")
    else .ok content

/-- One claim of `_recover_orphan_claims`; every error is logged and skipped. -/
def recoverClaim (name : PyStr) : Offline PUnit := do
  let d := (← get).disk
  match matchClaimName name, openExisting d name with
  | some s, .ok _ =>
    if d.offline.lookup s.queueName ≠ none then
      let _ ← rejectClaim env s
      return ⟨⟩
    else fs env (Disk.rename name s.queueName)
  | _, _ => return ⟨⟩

def recoverClaims : List PyStr → Offline PUnit
  | [] => return ⟨⟩
  | name :: rest => do
    recoverClaim env name
    recoverClaims rest

def recoverOrphanClaims : Offline PUnit := do
  recoverClaims env (Disk.sortedNames claimPattern (← get).disk)

/-- `_claim` -/
def claim (name : PyStr) : Offline (Except PyError Stamp) := do
  let d := (← get).disk
  match openExisting d name with
  | .error e => return .error e
  | .ok _ =>
    match matchQueueName name with
    | none => return .error (.valueError "offline queue filename is invalid")
    | some s =>
      if d.offline.lookup s.claimName ≠ none then
        return .error (.fileExistsError "offline queue claim already exists")
      else
        fs env (Disk.rename name s.claimName)
        return .ok s

/-- Read and check the claimed record. -/
def readClaim (d : Disk) (s : Stamp) : Except PyError QueueBody :=
  match openExisting d s.claimName with
  | .error e => .error e
  | .ok raw =>
    match J.loads raw with
    | none => .error (.valueError "invalid JSON")
    | some item => validateQueueRecord item

inductive Outcome where
  | ok
  | permanent (status : ℕ)
  | invalidJson
  | unavailable
deriving DecidableEq

/-- What `_request` makes of a response; `none` means another attempt. -/
def outcomeOf : Answer → Option Outcome
  | .unavailable => none
  | .response status content =>
    if 300 ≤ status ∧ status < 400 then some (.permanent status)
    else if 400 ≤ status ∧ status < 500 ∧ status ≠ 429 then some (.permanent status)
    else if 400 ≤ status then none
    else if content = .invalid then some .invalidJson
    else some .ok

/-- `_request` with the attempts that are left. -/
def request (s : Stamp) (body : QueueBody) : ℕ → Offline Outcome
  | 0 => return .unavailable
  | attempts + 1 => do
    crashPoint env
    let c ← choose env
    record (.posted (← get).disk s body c.answer)
    if c.crash then throw .crash
    else
      match outcomeOf c.answer with
      | some outcome => return outcome
      | none => request s body attempts

/-- `safe_unlink` of the claim. -/
def unlinkClaim (s : Stamp) : Offline PUnit := do
  if (← get).disk.offline.lookup s.claimName = none then
    throw (.raised (.permissionError "worker state file changed before removal"))
  else fs env (Disk.unlink s.claimName)

/-- The errors that send a claimed record to the rejected directory. -/
def isCaught : PyError → Bool
  | .overflowError | .runtimeError _ => false
  | _ => true

/-- A call inside an exception handler, whose own error ends the flush. -/
def orRaise (x : Offline (Except PyError PUnit)) : Offline PUnit := do
  match ← x with
  | .error e => throw (.raised e)
  | .ok _ => return ⟨⟩

/-- What follows a successful claim: `none` ends the loop. -/
def replay (s : Stamp) (flushed : ℕ) : Offline (ℕ × Bool) := do
  match readClaim J (← get).disk s with
  | .error e =>
    if isCaught e then
      orRaise (rejectClaim env s)
      return (flushed, true)
    else throw (.raised e)
  | .ok body =>
    match ← request env s body 2 with
    | .unavailable =>
      orRaise (returnClaim env s)
      return (flushed, false)
    | .permanent _ | .invalidJson =>
      orRaise (rejectClaim env s)
      return (flushed, true)
    | .ok =>
      unlinkClaim env s
      return (flushed + 1, true)

def flushLoop : List PyStr → ℕ → Offline ℕ
  | [], flushed => return flushed
  | name :: rest, flushed => do
    match ← claim env name with
    | .error _ => flushLoop rest flushed
    | .ok s =>
      let out ← replay J env s flushed
      if out.2 then flushLoop rest out.1 else return out.1

def flushOffline : Offline ℕ := do
  let before := (← get).disk
  recoverOrphanClaims env
  record (.recovered before (← get).disk)
  flushLoop J env (Disk.sortedNames queuePattern (← get).disk) 0

end Program

/-! ### Runs -/

inductive OfflineOp where
  | cache (env : ℕ → Choice) (kind : PyStr) (payload : Value)
  | flush (env : ℕ → Choice)

/-- Whatever stops an operation, the next one finds the disk it left. -/
def World.step (J : JsonCodec) (w : World) : OfflineOp → World
  | .cache env kind payload => ((cacheOffline J env kind payload).run.run { w with next := 0 }).2
  | .flush env => ((flushOffline J env).run.run { w with next := 0 }).2

def offlineMachine (J : JsonCodec) : Machine World OfflineOp Unit := ⟨fun w op => (w.step J op, ())⟩

def World.new : World := ⟨Disk.empty, 0, []⟩

end AgentWorkflow.Worker
