import AgentWorkflow.Lib.Calendar
import AgentWorkflow.Lib.Program
import AgentWorkflow.Lib.PyJson
import AgentWorkflow.Lib.Table

/-!
# Control-plane configuration and tables (`config.py`, `database.py`)

The `agents` and `tasks` tables with the columns the task lifecycle reads or
writes. `TEXT` columns are lists of characters and compare character by
character, as SQLite's `BINARY` collation does on UTF-8. A Python string with a
lone surrogate cannot be bound to such a column (the call raises and rolls
back), so it has no counterpart here.
-/

namespace AgentWorkflow.ControlPlane
open AgentWorkflow.Lib AgentWorkflow.Lib.Calendar

/-! ### Configuration -/

/-- The integers `config.py` reads from the environment. -/
structure Environ where
  taskLeaseSeconds : ℤ := 60
  taskMaxRetries : ℤ := 3
  maintenanceIntervalSeconds : ℤ := 5
  agentStaleSeconds : ℤ := 90
  sessionStaleSeconds : ℤ := 900

structure Config where
  taskLeaseSeconds : ℕ
  taskMaxRetries : ℕ
  maintenanceIntervalSeconds : ℕ
  agentStaleSeconds : ℕ
  sessionStaleSeconds : ℕ
deriving DecidableEq

/-- The bounds checks at the top of `config.py`, in their order; the error is
the text of the `RuntimeError`. -/
def loadConfig (e : Environ) : Except String Config :=
  if e.taskLeaseSeconds < 5 ∨ e.taskLeaseSeconds > 86400 then
    .error "AWP_TASK_LEASE_SECONDS must be between 5 and 86400"
  else if e.taskMaxRetries < 0 ∨ e.taskMaxRetries > 100 then
    .error "AWP_TASK_MAX_RETRIES must be between 0 and 100"
  else if e.maintenanceIntervalSeconds < 1 ∨ e.maintenanceIntervalSeconds > 3600 then
    .error "AWP_MAINTENANCE_INTERVAL_SECONDS must be between 1 and 3600"
  else if e.agentStaleSeconds < e.taskLeaseSeconds ∨ e.agentStaleSeconds > 604800 then
    .error "AWP_AGENT_STALE_SECONDS must be at least AWP_TASK_LEASE_SECONDS and at most 604800"
  else if e.sessionStaleSeconds < 30 ∨ e.sessionStaleSeconds > 2592000 then
    .error "AWP_SESSION_STALE_SECONDS must be between 30 and 2592000"
  else .ok ⟨e.taskLeaseSeconds.toNat, e.taskMaxRetries.toNat, e.maintenanceIntervalSeconds.toNat,
    e.agentStaleSeconds.toNat, e.sessionStaleSeconds.toNat⟩

theorem loadConfig_lease_le_stale {e : Environ} {cfg : Config} (h : loadConfig e = .ok cfg) :
    0 < cfg.taskLeaseSeconds ∧ cfg.taskLeaseSeconds ≤ cfg.agentStaleSeconds := by
  unfold loadConfig at h
  split_ifs at h
  cases h
  dsimp only
  omega

/-! ### Rows -/

inductive TaskStatus where
  | pending
  | running
  | success
  | failed
deriving DecidableEq, Repr

structure Task where
  id : Text
  tenantId : Text
  taskType : Text
  payloadJson : Text
  status : TaskStatus
  assignedAgentId : Option ℕ
  resultJson : Option Text
  error : Option Text
  deliveredAt : Option Text
  attemptId : Option Text
  leaseExpiresAt : Option Text
  leaseHeartbeatAt : Option Text
  idempotencyKey : Option Text
  ackReceivedAt : Option Text
  responseReceivedAt : Option Text
  retryCount : ℕ
  createdAt : Text
  updatedAt : Text
deriving DecidableEq

inductive AgentStatus where
  | idle
  | busy
  | offline
deriving DecidableEq, Repr

structure Agent where
  id : ℕ
  tenantId : Text
  hostname : Text
  tokenHash : Text
  status : AgentStatus
  capabilitiesJson : Text
  version : Text
  lastHeartbeat : Option Text
deriving DecidableEq

/-- `lastAgentId` is the `AUTOINCREMENT` sequence of `agents`. -/
structure Db where
  tasks : List Task
  agents : List Agent
  lastAgentId : ℕ
deriving DecidableEq

def Db.empty : Db := ⟨[], [], 0⟩

def Db.task (db : Db) (id : Text) : Option Task := Table.find Task.id id db.tasks

/-- `ORDER BY created_at, id`. -/
def Task.before (r s : Task) : Prop :=
  r.createdAt < s.createdAt ∨ (r.createdAt = s.createdAt ∧ r.id ≤ s.id)

instance : DecidableRel Task.before := fun _ _ => inferInstanceAs (Decidable (_ ∨ _))

instance : Std.Total Task.before where
  total r s := by
    unfold Task.before
    rcases lt_trichotomy r.createdAt s.createdAt with h | h | h
    · exact Or.inl (Or.inl h)
    · rcases le_total r.id s.id with hi | hi
      · exact Or.inl (Or.inr ⟨h, hi⟩)
      · exact Or.inr (Or.inr ⟨h.symm, hi⟩)
    · exact Or.inr (Or.inl h)

instance : IsTrans Task Task.before where
  trans r s t hrs hst := by
    unfold Task.before at *
    rcases hrs with hrs | ⟨hrs, hi⟩
    · rcases hst with hst | ⟨hst, -⟩
      · exact Or.inl (hrs.trans hst)
      · exact Or.inl (hst ▸ hrs)
    · rcases hst with hst | ⟨hst, hj⟩
      · exact Or.inl (hrs ▸ hst)
      · exact Or.inr ⟨hrs.trans hst, hi.trans hj⟩

/-! ### Errors and the `json` module

The handlers run inside `get_db`, which is `transaction`. -/

inductive Error where
  | http (statusCode : ℕ) (detail : String)
  | integrity
  | overflow
deriving DecidableEq, Repr

/-- Python's `json` module as the handlers use it: `dumps` with
`allow_nan=False` (`none` is the error the handlers turn into a 422) in its
plain and its canonical form, and `loads` of a stored text. -/
structure JsonLib where
  dumps : Json Char → Bool → Option Text
  loads : Text → Json Char

end AgentWorkflow.ControlPlane
