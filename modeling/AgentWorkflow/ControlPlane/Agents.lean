import AgentWorkflow.ControlPlane.Tasks

/-!
# Worker registration and heartbeats (`routes/agents.py`)
-/

namespace AgentWorkflow.ControlPlane
open AgentWorkflow.Lib AgentWorkflow.Lib.Calendar

structure RegisterRequest where
  hostname : Text
  capabilitiesJson : Text
  version : Text

/-- `token_hash` is unique; the id is the next value of the sequence. -/
def register (body : RegisterRequest) (tenantId tokenHash : Text) (now : UtcTime) :
    Db → Except Error ℕ × Db :=
  transaction fun db =>
    if db.agents.any (fun a => decide (a.tokenHash = tokenHash)) then .error .integrity
    else .ok (db.lastAgentId + 1,
      { db with
        agents := db.agents ++ [⟨db.lastAgentId + 1, tenantId, body.hostname, tokenHash, .idle,
          body.capabilitiesJson, body.version, some now.isoformat⟩]
        lastAgentId := db.lastAgentId + 1 })

structure RunningTaskRef where
  taskId : Text
  attemptId : Text
deriving DecidableEq

structure HeartbeatRequest where
  status : AgentStatus
  runningTasks : List RunningTaskRef
  capabilitiesJson : Text

structure HeartbeatReply where
  agentId : ℕ
  renewedTasks : List Text
  rejectedTasks : List Text
  leaseExpiresAt : Option Text
deriving DecidableEq

def beatAgent (body : HeartbeatRequest) (now : Text) (a : Agent) : Agent :=
  { a with status := body.status, capabilitiesJson := body.capabilitiesJson, lastHeartbeat := some now }

def renewRow (now lease : Text) (r : Task) : Task :=
  { r with
    leaseExpiresAt := some lease, leaseHeartbeatAt := some now,
    ackReceivedAt := r.ackReceivedAt.or (some now), updatedAt := now }

/-- Tasks, renewed ids and rejected ids while the loop over `running_tasks` runs. -/
structure BeatState where
  tasks : List Task
  renewed : List Text
  rejected : List Text

def beatEntry (agent : Agent) (now lease : Text) (s : BeatState) (e : RunningTaskRef) : BeatState :=
  let hit := holdsAttempt agent e.taskId e.attemptId
  let tasks := Table.update hit (renewRow now lease) s.tasks
  if Table.rowcount hit s.tasks = 0 then ⟨tasks, s.renewed, s.rejected ++ [e.taskId]⟩
  else ⟨tasks, s.renewed ++ [e.taskId], s.rejected⟩

def beatLoop (agent : Agent) (now lease : Text) (entries : List RunningTaskRef) (tasks : List Task) :
    BeatState :=
  entries.foldl (beatEntry agent now lease) ⟨tasks, [], []⟩

def heartbeat (cfg : Config) (agent : Agent) (body : HeartbeatRequest) (now : UtcTime) :
    Db → Except Error HeartbeatReply × Db :=
  if body.status ≠ .busy ∧ body.runningTasks ≠ [] then
    fun db => (.error (.http 422 "running_tasks require busy agent status"), db)
  else match now.addSeconds cfg.taskLeaseSeconds with
    | none => fun db => (.error .overflow, db)
    | some lease => transaction fun db =>
        let out := beatLoop agent now.isoformat lease.isoformat body.runningTasks db.tasks
        .ok (⟨agent.id, out.renewed, out.rejected, if out.renewed = [] then none else some lease.isoformat⟩,
          { db with
            agents := Table.update (fun a => decide (a.id = agent.id)) (beatAgent body now.isoformat) db.agents
            tasks := out.tasks })

/-! ### What a heartbeat does -/

@[simp] theorem renewRow_id (now lease : Text) (r : Task) : (renewRow now lease r).id = r.id := rfl

theorem renewRow_idem (now lease : Text) (r : Task) :
    renewRow now lease (renewRow now lease r) = renewRow now lease r := by
  cases h : r.ackReceivedAt <;> simp [renewRow, h]

/-- A renewal keeps the columns the fence reads. -/
theorem holdsAttempt_renewed (agent : Agent) (taskId attemptId now lease : Text) (b : Bool) (r : Task) :
    holdsAttempt agent taskId attemptId (if b then renewRow now lease r else r) =
      holdsAttempt agent taskId attemptId r := by
  cases b <;> rfl

def renews (agent : Agent) (tasks : List Task) (e : RunningTaskRef) : Bool :=
  tasks.any (holdsAttempt agent e.taskId e.attemptId)

def renewedBy (agent : Agent) (entries : List RunningTaskRef) (r : Task) : Bool :=
  entries.any fun e => holdsAttempt agent e.taskId e.attemptId r

theorem beatEntry_eq (agent : Agent) (now lease : Text) (s : BeatState) (e : RunningTaskRef) :
    beatEntry agent now lease s e =
      ⟨Table.update (holdsAttempt agent e.taskId e.attemptId) (renewRow now lease) s.tasks,
        s.renewed ++ (if renews agent s.tasks e then [e.taskId] else []),
        s.rejected ++ (if renews agent s.tasks e then [] else [e.taskId])⟩ := by
  have hiff : Table.rowcount (holdsAttempt agent e.taskId e.attemptId) s.tasks = 0 ↔
      ¬ renews agent s.tasks e = true := by
    rw [Table.rowcount, List.countP_eq_zero, renews, List.any_eq_true]
    simp only [not_exists, not_and]
  by_cases h : renews agent s.tasks e = true
  · simp only [beatEntry, if_neg (fun hz => hiff.mp hz h), h, if_true, List.append_nil]
  · simp only [beatEntry, if_pos (hiff.mpr h), if_neg h, List.append_nil]

theorem renews_update (agent : Agent) (now lease : Text) (p : Task → Bool) (tasks : List Task) :
    renews agent (Table.update p (renewRow now lease) tasks) = renews agent tasks := by
  funext e
  simp only [renews, Table.update, List.any_map, Function.comp_def, holdsAttempt_renewed]

theorem foldl_beatEntry (agent : Agent) (now lease : Text) (entries : List RunningTaskRef) (s : BeatState) :
    entries.foldl (beatEntry agent now lease) s =
      ⟨s.tasks.map fun r => if renewedBy agent entries r then renewRow now lease r else r,
        s.renewed ++ (entries.filter (renews agent s.tasks)).map RunningTaskRef.taskId,
        s.rejected ++ (entries.filter fun e => !renews agent s.tasks e).map RunningTaskRef.taskId⟩ := by
  induction entries generalizing s with
  | nil => simp [renewedBy]
  | cons e entries ih =>
    rw [List.foldl_cons, ih, beatEntry_eq]
    have htasks : (Table.update (holdsAttempt agent e.taskId e.attemptId) (renewRow now lease) s.tasks).map
          (fun r => if renewedBy agent entries r then renewRow now lease r else r) =
        s.tasks.map fun r => if renewedBy agent (e :: entries) r then renewRow now lease r else r := by
      rw [Table.update, List.map_map]
      apply List.map_congr_left
      intro r _
      simp only [Function.comp_apply, renewedBy, holdsAttempt_renewed, List.any_cons, Bool.or_eq_true]
      by_cases he : holdsAttempt agent e.taskId e.attemptId r = true
      · simp [he, renewRow_idem]
      · simp [he]
    simp only [htasks, renews_update, List.filter_cons]
    cases hr : renews agent s.tasks e <;> simp

theorem beatLoop_eq (agent : Agent) (now lease : Text) (entries : List RunningTaskRef) (tasks : List Task) :
    beatLoop agent now lease entries tasks =
      ⟨tasks.map fun r => if renewedBy agent entries r then renewRow now lease r else r,
        (entries.filter (renews agent tasks)).map RunningTaskRef.taskId,
        (entries.filter fun e => !renews agent tasks e).map RunningTaskRef.taskId⟩ := by
  rw [beatLoop, foldl_beatEntry]
  simp

theorem heartbeat_cases (cfg : Config) (agent : Agent) (body : HeartbeatRequest) (now : UtcTime) (db : Db) :
    (∃ e, heartbeat cfg agent body now db = (.error e, db)) ∨
    ∃ lease, now.addSeconds cfg.taskLeaseSeconds = some lease ∧
      (heartbeat cfg agent body now db).1 = .ok ⟨agent.id,
        (body.runningTasks.filter (renews agent db.tasks)).map RunningTaskRef.taskId,
        (body.runningTasks.filter fun e => !renews agent db.tasks e).map RunningTaskRef.taskId,
        if (body.runningTasks.filter (renews agent db.tasks)).map RunningTaskRef.taskId = [] then none
          else some lease.isoformat⟩ ∧
      (heartbeat cfg agent body now db).2 = { db with
        agents := Table.update (fun a => decide (a.id = agent.id)) (beatAgent body now.isoformat) db.agents
        tasks := db.tasks.map fun r =>
          if renewedBy agent body.runningTasks r then renewRow now.isoformat lease.isoformat r else r } := by
  unfold heartbeat
  by_cases hbusy : body.status ≠ .busy ∧ body.runningTasks ≠ []
  · left
    rw [if_pos hbusy]
    exact ⟨_, rfl⟩
  · rw [if_neg hbusy]
    cases hl : now.addSeconds cfg.taskLeaseSeconds with
    | none => exact Or.inl ⟨_, rfl⟩
    | some lease =>
      refine Or.inr ⟨lease, rfl, ?_, ?_⟩ <;> simp only [transaction, beatLoop_eq]

theorem register_cases (body : RegisterRequest) (tenantId tokenHash : Text) (now : UtcTime) (db : Db) :
    (register body tenantId tokenHash now db).2 = db ∨
    ∃ a : Agent, a.lastHeartbeat = some now.isoformat ∧
      (register body tenantId tokenHash now db).2 =
        { db with agents := db.agents ++ [a], lastAgentId := db.lastAgentId + 1 } := by
  unfold register transaction
  dsimp only
  split_ifs
  · exact Or.inl rfl
  · exact Or.inr ⟨_, rfl, rfl⟩

end AgentWorkflow.ControlPlane
