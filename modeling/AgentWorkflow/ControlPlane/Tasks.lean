import AgentWorkflow.ControlPlane.Maintenance

/-!
# Task routes (`routes/tasks.py`)

`create_task`, the claiming transaction of `claim_pending` and `submit_result`.
`claim_pending` first runs `reap_expired_tasks` in a transaction of its own;
`claimPendingRoute` composes the two.
-/

namespace AgentWorkflow.ControlPlane
open AgentWorkflow.Lib AgentWorkflow.Lib.Calendar

/-- `text or "..."`: the default stands for the empty text too. -/
def orEmptyObject (t : Option Text) : Text :=
  match t with
  | none | some [] => "\x7b\x7d".toList
  | some s => s

/-! ### `create_task` -/

structure CreateTaskRequest where
  taskType : Text
  payload : List (Text × Json Char)
  idempotencyKey : Option Text

def newTask (body : CreateTaskRequest) (tenantId taskId payloadJson now : Text) : Task where
  id := taskId
  tenantId := tenantId
  taskType := body.taskType
  payloadJson := payloadJson
  status := .pending
  assignedAgentId := none
  resultJson := none
  error := none
  deliveredAt := none
  attemptId := none
  leaseExpiresAt := none
  leaseHeartbeatAt := none
  idempotencyKey := body.idempotencyKey
  ackReceivedAt := none
  responseReceivedAt := none
  retryCount := 0
  createdAt := now
  updatedAt := now

def sameKey (tenantId : Text) (key : Option Text) (r : Task) : Bool :=
  match key with
  | none => false
  | some k => decide (r.tenantId = tenantId) && decide (r.idempotencyKey = some k)

/-- The primary key and the partial unique index on `(tenant_id, idempotency_key)`. -/
def insertTask (r : Task) (db : Db) : Except Error (Task × Db) :=
  if db.tasks.any (fun s => decide (s.id = r.id) || sameKey r.tenantId r.idempotencyKey s) then
    .error .integrity
  else .ok (r, { db with tasks := db.tasks ++ [r] })

def createTask (J : JsonLib) (body : CreateTaskRequest) (tenantId taskId : Text) (now : UtcTime) :
    Db → Except Error Task × Db :=
  transaction fun db =>
    match db.tasks.find? (sameKey tenantId body.idempotencyKey) with
    | some existing => .ok (existing, db)
    | none =>
      match J.dumps (.obj body.payload) false with
      | none => .error (.http 422 "task payload must be finite JSON")
      | some payloadJson => insertTask (newTask body tenantId taskId payloadJson now.isoformat) db

/-! ### `claim_pending` -/

structure ClaimedTask where
  id : Text
  type : Text
  payload : Json Char
  status : TaskStatus
  createdAt : Text
  attemptId : Text
  leaseExpiresAt : Text
  retryCount : ℕ

def claimedTask (J : JsonLib) (lease : Text) (row : Task) (attempt : Text) : ClaimedTask :=
  ⟨row.id, row.taskType, J.loads (orEmptyObject (some row.payloadJson)), .running, row.createdAt,
    attempt, lease, row.retryCount⟩

def claimable (tenantId : Text) (r : Task) : Bool :=
  decide (r.tenantId = tenantId) && decide (r.status = .pending)

def claimRow (agent : Agent) (now lease attempt : Text) (r : Task) : Task :=
  { r with
    status := .running, assignedAgentId := some agent.id, deliveredAt := some now,
    updatedAt := now, attemptId := some attempt, leaseExpiresAt := some lease,
    leaseHeartbeatAt := some now, ackReceivedAt := none }

/-- The loop over the selected rows, each with the UUID drawn for it. -/
def claimLoop (J : JsonLib) (agent : Agent) (now lease : Text) :
    List (Task × Text) → List Task → List ClaimedTask × List Task
  | [], tasks => ([], tasks)
  | (row, attempt) :: rest, tasks =>
    let hit := fun r : Task => decide (r.id = row.id) && claimable agent.tenantId r
    let out := claimLoop J agent now lease rest
      (Table.update hit (claimRow agent now lease attempt) tasks)
    (if Table.rowcount hit tasks = 0 then out.1 else claimedTask J lease row attempt :: out.1, out.2)

/-- `max(1, min(int(slots), 64))`. -/
def claimLimit (slots : ℤ) : ℕ := (max 1 (min slots 64)).toNat

def oldestPending (tenantId : Text) (limit : ℕ) (tasks : List Task) : List Task :=
  (Table.select (claimable tenantId) Task.before tasks).take limit

/-- The second transaction of `claim_pending`. A claim by an agent without a row
in `agents` breaks the foreign key of `assigned_agent_id` at its first update. -/
def claimPending (J : JsonLib) (cfg : Config) (agent : Agent) (slots : ℤ) (now : UtcTime)
    (uuid : ℕ → Text) : Db → Except Error (List ClaimedTask) × Db :=
  transaction fun db =>
    let rows := oldestPending agent.tenantId (claimLimit slots) db.tasks
    match now.addSeconds cfg.taskLeaseSeconds with
    | none => .error .overflow
    | some lease =>
      if rows ≠ [] ∧ agent.id ∉ db.agents.map Agent.id then .error .integrity
      else
        let out := claimLoop J agent now.isoformat lease.isoformat
          (rows.zipIdx.map fun p => (p.1, uuid p.2)) db.tasks
        .ok (out.1, { db with tasks := out.2 })

def claimPendingRoute (J : JsonLib) (cfg : Config) (agent : Agent) (slots : ℤ)
    (reapNow now : UtcTime) (uuid : ℕ → Text) (db : Db) : Except Error (List ClaimedTask) × Db :=
  claimPending J cfg agent slots now uuid (reapExpiredTasks cfg reapNow db).2

/-! ### `submit_result` -/

inductive ResultStatus where
  | success
  | failed
  | error
  | cancelled
deriving DecidableEq, Repr

structure TaskResultRequest where
  attemptId : Text
  status : ResultStatus
  output : List (Text × Json Char)
  logs : Text
  durationS : PyFloat

def terminalStatus (s : ResultStatus) : TaskStatus :=
  if s = .success then .success else .failed

def resultPayload (body : TaskResultRequest) : Json Char :=
  .obj [("output".toList, .obj body.output), ("logs".toList, .str body.logs),
    ("duration_s".toList, .float body.durationS)]

/-- `body.logs[-2000:]`, or the empty text for a success. -/
def errorText (body : TaskResultRequest) : Text :=
  if body.status = .success then [] else body.logs.drop (body.logs.length - 2000)

def completeRow (body : TaskResultRequest) (encoded completedAt : Text) (r : Task) : Task :=
  { r with
    status := terminalStatus body.status, resultJson := some encoded,
    error := some (errorText body), responseReceivedAt := some completedAt,
    updatedAt := completedAt, leaseExpiresAt := none, leaseHeartbeatAt := none,
    ackReceivedAt := r.ackReceivedAt.or (some completedAt) }

structure ResultReply where
  taskId : Text
  status : TaskStatus
  duplicate : Bool
  attemptId : Text
deriving DecidableEq

/-- `int(row["assigned_agent_id"] or -1)`. -/
def assignedAgent (r : Task) : ℤ :=
  match r.assignedAgentId with
  | none | some 0 => -1
  | some (n + 1) => (n : ℤ) + 1

/-- `WHERE id=? AND tenant_id=? AND assigned_agent_id=? AND attempt_id=? AND
status='running'`, the fence of results and of lease renewals. -/
def holdsAttempt (agent : Agent) (taskId attemptId : Text) (r : Task) : Bool :=
  decide (r.id = taskId) && decide (r.tenantId = agent.tenantId) &&
    decide (r.assignedAgentId = some agent.id) && decide (r.attemptId = some attemptId) &&
    decide (r.status = .running)

def submitBlock (J : JsonLib) (agent : Agent) (taskId : Text) (body : TaskResultRequest)
    (encoded completedAt : Text) (db : Db) : Except Error (ResultReply × Db) :=
  match db.tasks.find? (fun r => decide (r.id = taskId) && decide (r.tenantId = agent.tenantId)) with
  | none => .error (.http 404 "assigned task not found")
  | some row =>
    if assignedAgent row ≠ agent.id then .error (.http 404 "assigned task not found")
    else if row.attemptId ≠ some body.attemptId then .error (.http 409 "stale task attempt")
    else if row.status = .success ∨ row.status = .failed then
      if row.status = terminalStatus body.status ∧
          (J.loads (orEmptyObject row.resultJson)).eq (resultPayload body) = true then
        .ok (⟨taskId, terminalStatus body.status, true, body.attemptId⟩, db)
      else .error (.http 409 "task already completed with a different result")
    else if row.status ≠ .running then .error (.http 409 "task attempt is not running")
    else if Table.rowcount (holdsAttempt agent taskId body.attemptId) db.tasks = 0 then
      .error (.http 409 "task attempt changed during completion")
    else .ok (⟨taskId, terminalStatus body.status, false, body.attemptId⟩,
      { db with
        tasks := Table.update (holdsAttempt agent taskId body.attemptId) (completeRow body encoded completedAt) db.tasks })

def submitResult (J : JsonLib) (agent : Agent) (taskId : Text) (body : TaskResultRequest)
    (now : UtcTime) : Db → Except Error ResultReply × Db :=
  match J.dumps (resultPayload body) true with
  | none => fun db => (.error (.http 422 "task result must be finite JSON"), db)
  | some encoded => transaction (submitBlock J agent taskId body encoded now.isoformat)

/-! ### What the handlers do to the table -/

@[simp] theorem completeRow_id (body : TaskResultRequest) (encoded completedAt : Text) (r : Task) :
    (completeRow body encoded completedAt r).id = r.id := rfl

theorem createTask_cases (J : JsonLib) (body : CreateTaskRequest) (tenantId taskId : Text)
    (now : UtcTime) (db : Db) :
    (createTask J body tenantId taskId now db).2 = db ∨
    ∃ payloadJson, Table.find Task.id taskId db.tasks = none ∧
      createTask J body tenantId taskId now db =
        (.ok (newTask body tenantId taskId payloadJson now.isoformat),
          { db with tasks := db.tasks ++ [newTask body tenantId taskId payloadJson now.isoformat] }) := by
  unfold createTask transaction
  dsimp only
  cases hex : db.tasks.find? (sameKey tenantId body.idempotencyKey) with
  | some existing => exact Or.inl rfl
  | none =>
    cases hd : J.dumps (.obj body.payload) false with
    | none => exact Or.inl rfl
    | some payloadJson =>
      dsimp only
      unfold insertTask
      split_ifs with hany
      · exact Or.inl rfl
      · refine Or.inr ⟨payloadJson, ?_, rfl⟩
        rw [Table.find_none]
        intro r hr he
        apply hany
        rw [List.any_eq_true]
        exact ⟨r, hr, by simp [newTask, he]⟩

theorem claimLoop_tasks (J : JsonLib) (agent : Agent) (now lease : Text)
    (pairs : List (Task × Text)) (tasks : List Task) :
    (claimLoop J agent now lease pairs tasks).2 =
      tasks.map fun r => pairs.foldl (fun r p =>
        if decide (r.id = p.1.id) && claimable agent.tenantId r then
          claimRow agent now lease p.2 r else r) r := by
  rw [← Table.foldl_update (fun (p : Task × Text) r => decide (r.id = p.1.id) && claimable agent.tenantId r)
    (fun p => claimRow agent now lease p.2)]
  induction pairs generalizing tasks with
  | nil => rfl
  | cons p pairs ih => exact ih _

/-- Rows that are in the table, can be claimed and have distinct ids are all
claimed. -/
theorem claimLoop_claimed (J : JsonLib) (agent : Agent) (now lease : Text)
    {pairs : List (Task × Text)} {tasks : List Task} (hd : (pairs.map fun p => p.1.id).Nodup)
    (hc : ∀ p ∈ pairs, p.1 ∈ tasks ∧ claimable agent.tenantId p.1 = true) :
    (claimLoop J agent now lease pairs tasks).1 = pairs.map fun p => claimedTask J lease p.1 p.2 := by
  induction pairs generalizing tasks with
  | nil => rfl
  | cons p pairs ih =>
    rw [List.map_cons, List.nodup_cons] at hd
    obtain ⟨hin, hcl⟩ := hc p (List.mem_cons_self ..)
    have hpos : ¬ Table.rowcount (fun r => decide (r.id = p.1.id) && claimable agent.tenantId r) tasks = 0 := by
      rw [Table.rowcount, List.countP_eq_zero]
      intro h
      exact h p.1 hin (by simp [hcl])
    have hrest := @ih (Table.update (fun r => decide (r.id = p.1.id) && claimable agent.tenantId r)
      (claimRow agent now lease p.2) tasks) hd.2 (by
        intro q hq
        obtain ⟨hqin, hqcl⟩ := hc q (List.mem_cons_of_mem _ hq)
        refine ⟨List.mem_map.mpr ⟨q.1, hqin, ?_⟩, hqcl⟩
        have hne : ¬ q.1.id = p.1.id := by
          intro he
          exact hd.1 (List.mem_map.mpr ⟨q, hq, he⟩)
        simp [hne])
    simp only [claimLoop, if_neg hpos, List.map_cons, hrest]

/-- The claimed rows with the UUIDs drawn for them. -/
def claimPairs (agent : Agent) (slots : ℤ) (uuid : ℕ → Text) (tasks : List Task) : List (Task × Text) :=
  (oldestPending agent.tenantId (claimLimit slots) tasks).zipIdx.map fun p => (p.1, uuid p.2)

theorem claimPairs_map_fst (agent : Agent) (slots : ℤ) (uuid : ℕ → Text) (tasks : List Task) :
    (claimPairs agent slots uuid tasks).map Prod.fst =
      oldestPending agent.tenantId (claimLimit slots) tasks := by
  rw [claimPairs, List.map_map]
  exact List.zipIdx_map_fst 0 _

theorem mem_oldestPending {tenantId : Text} {limit : ℕ} {tasks : List Task} {r : Task}
    (h : r ∈ oldestPending tenantId limit tasks) :
    r ∈ tasks ∧ r.tenantId = tenantId ∧ r.status = .pending := by
  have hs := Table.mem_select.mp (List.mem_of_mem_take h)
  simpa [claimable] using hs

theorem mem_claimPairs {agent : Agent} {slots : ℤ} {uuid : ℕ → Text} {tasks : List Task}
    {p : Task × Text} (h : p ∈ claimPairs agent slots uuid tasks) :
    p.1 ∈ tasks ∧ p.1.tenantId = agent.tenantId ∧ p.1.status = .pending := by
  have hfst : p.1 ∈ oldestPending agent.tenantId (claimLimit slots) tasks := by
    rw [← claimPairs_map_fst agent slots uuid]
    exact List.mem_map_of_mem h
  exact mem_oldestPending hfst

theorem claimPairs_nodup (agent : Agent) (slots : ℤ) (uuid : ℕ → Text) {tasks : List Task}
    (hu : Table.Unique Task.id tasks) :
    ((claimPairs agent slots uuid tasks).map fun p => p.1.id).Nodup := by
  have h : ((oldestPending agent.tenantId (claimLimit slots) tasks).map Task.id).Nodup :=
    (Table.select_unique hu).sublist ((List.take_sublist _ _).map _)
  rw [← claimPairs_map_fst agent slots uuid, List.map_map] at h
  exact h

theorem claimPending_cases (J : JsonLib) (cfg : Config) (agent : Agent) (slots : ℤ) (now : UtcTime)
    (uuid : ℕ → Text) {db : Db} (hu : Table.Unique Task.id db.tasks) :
    (∃ e, claimPending J cfg agent slots now uuid db = (.error e, db)) ∨
    ∃ lease, now.addSeconds cfg.taskLeaseSeconds = some lease ∧
      claimPending J cfg agent slots now uuid db =
        (.ok ((claimPairs agent slots uuid db.tasks).map fun p => claimedTask J lease.isoformat p.1 p.2),
          { db with
            tasks := (claimLoop J agent now.isoformat lease.isoformat (claimPairs agent slots uuid db.tasks) db.tasks).2 }) := by
  unfold claimPending
  cases hl : now.addSeconds cfg.taskLeaseSeconds with
  | none => exact Or.inl ⟨.overflow, rfl⟩
  | some lease =>
    by_cases hfk : oldestPending agent.tenantId (claimLimit slots) db.tasks ≠ [] ∧
        agent.id ∉ db.agents.map Agent.id
    · left
      exact ⟨.integrity, by simp only [transaction, if_pos hfk]⟩
    · refine Or.inr ⟨lease, rfl, ?_⟩
      have hclaimed := claimLoop_claimed J agent now.isoformat lease.isoformat
        (claimPairs_nodup agent slots uuid hu) (by
          intro p hp
          obtain ⟨h1, h2, h3⟩ := mem_claimPairs hp
          exact ⟨h1, by simp [claimable, h2, h3]⟩)
      rw [← hclaimed]
      simp only [transaction, if_neg hfk, claimPairs]

theorem holdsAttempt_iff {agent : Agent} {taskId attemptId : Text} {r : Task} :
    holdsAttempt agent taskId attemptId r = true ↔ r.id = taskId ∧ r.tenantId = agent.tenantId ∧
      r.assignedAgentId = some agent.id ∧ r.attemptId = some attemptId ∧ r.status = .running := by
  simp only [holdsAttempt, Bool.and_eq_true, decide_eq_true_eq]
  tauto

theorem assignedAgent_eq {r : Task} {n : ℕ} (h : assignedAgent r = n) : r.assignedAgentId = some n := by
  unfold assignedAgent at h
  split at h
  · omega
  · omega
  next m hm =>
    rw [hm]
    congr 1
    omega

/-- The three outcomes of `submit_result`: an error, the replay of a stored
result, or the completion of the attempt that runs. -/
theorem submitResult_cases (J : JsonLib) (agent : Agent) (taskId : Text) (body : TaskResultRequest)
    (now : UtcTime) (db : Db) :
    (∃ e, submitResult J agent taskId body now db = (.error e, db)) ∨
    (∃ row ∈ db.tasks, row.id = taskId ∧ row.tenantId = agent.tenantId ∧
      row.assignedAgentId = some agent.id ∧ row.attemptId = some body.attemptId ∧
      submitResult J agent taskId body now db =
        (.ok ⟨taskId, terminalStatus body.status, true, body.attemptId⟩, db)) ∨
    (∃ row ∈ db.tasks, ∃ encoded, holdsAttempt agent taskId body.attemptId row = true ∧
      submitResult J agent taskId body now db =
        (.ok ⟨taskId, terminalStatus body.status, false, body.attemptId⟩,
          { db with
            tasks := Table.update (holdsAttempt agent taskId body.attemptId)
              (completeRow body encoded now.isoformat) db.tasks })) := by
  unfold submitResult
  cases hd : J.dumps (resultPayload body) true with
  | none => exact Or.inl ⟨_, rfl⟩
  | some encoded =>
    cases hf : db.tasks.find? (fun r => decide (r.id = taskId) && decide (r.tenantId = agent.tenantId)) with
    | none => exact Or.inl ⟨_, by simp only [transaction, submitBlock, hf]; rfl⟩
    | some row =>
      have hrow := List.find?_some hf
      simp only [Bool.and_eq_true, decide_eq_true_eq] at hrow
      have hmem := List.mem_of_find?_eq_some hf
      by_cases hagent : assignedAgent row ≠ agent.id
      · exact Or.inl ⟨_, by simp only [transaction, submitBlock, hf, if_pos hagent]; rfl⟩
      have hassigned := assignedAgent_eq (not_ne_iff.mp hagent)
      by_cases hatt : row.attemptId ≠ some body.attemptId
      · exact Or.inl ⟨_, by simp only [transaction, submitBlock, hf, if_neg hagent, if_pos hatt]; rfl⟩
      by_cases hterm : row.status = .success ∨ row.status = .failed
      · by_cases hsame : row.status = terminalStatus body.status ∧
            (J.loads (orEmptyObject row.resultJson)).eq (resultPayload body) = true
        · refine Or.inr (Or.inl ⟨row, hmem, hrow.1, hrow.2, hassigned, not_ne_iff.mp hatt, ?_⟩)
          simp only [transaction, submitBlock, hf, if_neg hagent, if_neg hatt, if_pos hterm, if_pos hsame]
        · exact Or.inl ⟨_, by simp only [transaction, submitBlock, hf, if_neg hagent, if_neg hatt, if_pos hterm, if_neg hsame]; rfl⟩
      by_cases hrun : row.status ≠ .running
      · exact Or.inl ⟨_, by simp only [transaction, submitBlock, hf, if_neg hagent, if_neg hatt, if_neg hterm, if_pos hrun]; rfl⟩
      have hholds : holdsAttempt agent taskId body.attemptId row = true :=
        holdsAttempt_iff.mpr ⟨hrow.1, hrow.2, hassigned, not_ne_iff.mp hatt, not_ne_iff.mp hrun⟩
      have hpos : ¬ Table.rowcount (holdsAttempt agent taskId body.attemptId) db.tasks = 0 := by
        rw [Table.rowcount, List.countP_eq_zero]
        intro h
        exact h row hmem hholds
      refine Or.inr (Or.inr ⟨row, hmem, encoded, hholds, ?_⟩)
      simp only [transaction, submitBlock, hf, if_neg hagent, if_neg hatt, if_neg hterm, if_neg hrun, if_neg hpos]

end AgentWorkflow.ControlPlane
