import AgentWorkflow.ControlPlane.Database

/-!
# Lease maintenance (`maintenance.py`)

`expire_stale_agents` and `reap_expired_tasks`, each one write transaction. The
maintenance loop runs them one after the other; `claim_pending` runs the reaper
alone.
-/

namespace AgentWorkflow.ControlPlane
open AgentWorkflow.Lib AgentWorkflow.Lib.Calendar

/-! ### `expire_stale_agents` -/

def isStale (cutoff : Text) (a : Agent) : Bool :=
  a.status ≠ .offline &&
    (match a.lastHeartbeat with
      | none => false
      | some h => decide (h ≤ cutoff))

def staleAgentIds (cutoff : Text) (db : Db) : List ℕ :=
  (db.agents.filter (isStale cutoff)).map Agent.id

def heldByStale (ids : List ℕ) (r : Task) : Bool :=
  r.status = .running &&
    (match r.assignedAgentId with
      | none => false
      | some a => decide (a ∈ ids))

def expireLease (timestamp : Text) (r : Task) : Task :=
  { r with leaseExpiresAt := some timestamp, updatedAt := timestamp }

def expireBlock (cutoff timestamp : Text) (db : Db) : List ℕ × Db :=
  let ids := staleAgentIds cutoff db
  (ids, if ids = [] then db else
    { db with
      agents := Table.update (fun a => decide (a.id ∈ ids)) (fun a => { a with status := .offline }) db.agents
      tasks := Table.update (heldByStale ids) (expireLease timestamp) db.tasks })

def expireStaleAgents (cfg : Config) (now : UtcTime) : Db → Except Error (List ℕ) × Db :=
  match now.subSeconds cfg.agentStaleSeconds with
  | none => fun db => (.error .overflow, db)
  | some cutoff => transaction fun db => .ok (expireBlock cutoff.isoformat now.isoformat db)

/-! ### `reap_expired_tasks` -/

structure Transition where
  taskId : Text
  tenantId : Text
  status : TaskStatus
  retryCount : ℕ
deriving DecidableEq

def leaseExpired (timestamp : Text) (r : Task) : Bool :=
  r.status = .running &&
    (match r.leaseExpiresAt with
      | none => true
      | some l => decide (l ≤ timestamp))

def retryLimitMessage : Text := "task lease expired after the configured retry limit".toList

/-- The canonical text of the result the reaper writes: an empty output, the
message as logs and duration 0. -/
def retryLimitResult : Text :=
  "\x7b\"duration_s\":0,\"logs\":\"task lease expired after the configured retry limit\",\"output\":\x7b\x7d\x7d".toList

def requeue (nextRetry : ℕ) (timestamp : Text) (r : Task) : Task :=
  { r with
    status := .pending, assignedAgentId := none, deliveredAt := none, attemptId := none,
    leaseExpiresAt := none, leaseHeartbeatAt := none, ackReceivedAt := none,
    retryCount := nextRetry, error := none, updatedAt := timestamp }

def failExhausted (timestamp : Text) (r : Task) : Task :=
  { r with
    status := .failed, resultJson := some retryLimitResult, error := some retryLimitMessage,
    leaseExpiresAt := none, leaseHeartbeatAt := none,
    responseReceivedAt := some timestamp, updatedAt := timestamp }

/-- The `UPDATE` the loop runs for the selected row. -/
def reapRow (cfg : Config) (timestamp : Text) (row r : Task) : Task :=
  if row.retryCount < cfg.taskMaxRetries then requeue (row.retryCount + 1) timestamp r
  else failExhausted timestamp r

def reapTransition (cfg : Config) (row : Task) : Transition :=
  if row.retryCount < cfg.taskMaxRetries then ⟨row.id, row.tenantId, .pending, row.retryCount + 1⟩
  else ⟨row.id, row.tenantId, .failed, row.retryCount⟩

def reapLoop (cfg : Config) (timestamp : Text) (rows tasks : List Task) : List Task :=
  rows.foldl (fun tasks row =>
    Table.update (fun r => decide (r.id = row.id) && leaseExpired timestamp r)
      (reapRow cfg timestamp row) tasks) tasks

def reapExpiredTasks (cfg : Config) (now : UtcTime) (db : Db) : List Transition × Db :=
  let rows := Table.select (leaseExpired now.isoformat) Task.before db.tasks
  (rows.map (reapTransition cfg), { db with tasks := reapLoop cfg now.isoformat rows db.tasks })

/-! ### What the passes do to one row -/

@[simp] theorem expireLease_id (timestamp : Text) (r : Task) : (expireLease timestamp r).id = r.id := rfl

@[simp] theorem reapRow_id (cfg : Config) (timestamp : Text) (row r : Task) :
    (reapRow cfg timestamp row r).id = r.id := by
  unfold reapRow
  split <;> rfl

/-- The selected row is the row the statement finds, so the reaper works from
the row's own retry count. -/
theorem reapLoop_select (cfg : Config) (timestamp : Text) {tasks : List Task}
    (hu : Table.Unique Task.id tasks) :
    reapLoop cfg timestamp (Table.select (leaseExpired timestamp) Task.before tasks) tasks =
      tasks.map fun r => if leaseExpired timestamp r then reapRow cfg timestamp r r else r := by
  rw [reapLoop, Table.foldl_update]
  apply List.map_congr_left
  intro r hr
  by_cases hexp : leaseExpired timestamp r = true
  · have hmem : r ∈ Table.select (leaseExpired timestamp) Task.before tasks :=
      Table.mem_select.mpr ⟨hr, hexp⟩
    have hother : ∀ x s : Task, x.id ≠ s.id →
        (decide (s.id = x.id) && leaseExpired timestamp s) = false := by
      intro x s hne
      rw [decide_eq_false (Ne.symm hne), Bool.false_and]
    rw [Table.foldl_guard_once Task.id Task.id _ _ hother
      (reapRow_id cfg timestamp) (Table.select_unique hu) hmem rfl]
    simp [hexp]
  · rw [if_neg hexp]
    apply Table.foldl_guard_skip
    intro x _
    rw [Bool.not_eq_true] at hexp
    rw [hexp, Bool.and_false]

theorem mem_reapExpiredTasks {cfg : Config} {now : UtcTime} {db : Db} {x : Transition} :
    x ∈ (reapExpiredTasks cfg now db).1 ↔
      ∃ r ∈ db.tasks, leaseExpired now.isoformat r = true ∧ x = reapTransition cfg r := by
  simp only [reapExpiredTasks, List.mem_map, Table.mem_select]
  constructor
  · rintro ⟨r, ⟨hr, hexp⟩, rfl⟩
    exact ⟨r, hr, hexp, rfl⟩
  · rintro ⟨r, hr, hexp, rfl⟩
    exact ⟨r, ⟨hr, hexp⟩, rfl⟩

theorem reapTransition_taskId (cfg : Config) (r : Task) : (reapTransition cfg r).taskId = r.id := by
  unfold reapTransition
  split <;> rfl

theorem expireBlock_cases (cutoff timestamp : Text) (db : Db) :
    (expireBlock cutoff timestamp db).2 = db ∨
    ((expireBlock cutoff timestamp db).2.tasks =
        Table.update (heldByStale (staleAgentIds cutoff db)) (expireLease timestamp) db.tasks ∧
      (expireBlock cutoff timestamp db).2.agents =
        Table.update (fun a => decide (a.id ∈ staleAgentIds cutoff db))
          (fun a => { a with status := .offline }) db.agents) := by
  unfold expireBlock
  dsimp only
  split_ifs
  · exact Or.inl rfl
  · exact Or.inr ⟨rfl, rfl⟩

theorem expireStaleAgents_cases (cfg : Config) (now : UtcTime) (db : Db) :
    (expireStaleAgents cfg now db).2 = db ∨
    ∃ cutoff, now.subSeconds cfg.agentStaleSeconds = some cutoff ∧
      (expireStaleAgents cfg now db).2 = (expireBlock cutoff.isoformat now.isoformat db).2 := by
  unfold expireStaleAgents
  cases hc : now.subSeconds cfg.agentStaleSeconds with
  | none => exact Or.inl rfl
  | some cutoff => exact Or.inr ⟨cutoff, rfl, rfl⟩

/-! ### Timestamps as the database compares them -/

/-- `_task_timestamp` of a value that is in UTC already. -/
def taskTimestamp (value : UtcTime) : Text := value.isoformat

/-- The bytes that SQLite compares, as lists: `memcmp`, and the shorter one first. -/
def binary (t : Text) : List UInt8 := t.flatMap String.utf8EncodeChar

def Ascii (t : Text) : Prop := ∀ c ∈ t, c.toNat < 128

theorem digit_ascii {d : ℕ} (h : d < 10) : (digit d).toNat < 128 := by
  interval_cases d <;> decide

theorem pad_ascii (w n : ℕ) : Ascii (pad w n) := by
  induction w generalizing n with
  | zero => exact fun c hc => nomatch hc
  | succ w ih =>
    unfold Ascii pad
    rw [List.forall_mem_cons]
    exact ⟨digit_ascii (Nat.mod_lt _ (by decide)), ih _⟩

theorem ascii_nil : Ascii [] := fun _ h => nomatch h

theorem Ascii.field {t u : Text} {c : Char} (ht : Ascii t) (hc : c.toNat < 128) (hu : Ascii u) : Ascii (t ++ c :: u) := by
  unfold Ascii
  rw [List.forall_mem_append, List.forall_mem_cons]
  exact ⟨ht, hc, hu⟩

theorem isoTail_ascii (us : ℕ) : Ascii (isoTail us) := by
  have hzone : Ascii ['+', '0', '0', ':', '0', '0'] := by simp [Ascii]
  unfold isoTail
  split
  · exact hzone
  · have hfraction : Ascii (pad 6 us ++ ['+', '0', '0', ':', '0', '0']) :=
      List.forall_mem_append.mpr ⟨pad_ascii 6 us, hzone⟩
    exact ascii_nil.field (by decide) hfraction

theorem taskTimestamp_ascii (value : UtcTime) : Ascii (taskTimestamp value) := by
  have htime : ∀ tod, Ascii (isoTime tod) := fun tod =>
    (pad_ascii 2 _).field (by decide) ((pad_ascii 2 _).field (by decide) (List.forall_mem_append.mpr ⟨pad_ascii 2 _, isoTail_ascii _⟩))
  have hrest : Ascii ('T' :: isoTime (value.micros % microsPerDay)) := ascii_nil.field (by decide) (htime _)
  exact (pad_ascii 4 _).field (by decide)
    ((pad_ascii 2 _).field (by decide) (List.forall_mem_append.mpr ⟨pad_ascii 2 _, hrest⟩))

theorem binary_cons {c : Char} (hc : c.toNat < 128) (t : Text) : binary (c :: t) = c.val.toUInt8 :: binary t := by
  have hsize : c.utf8Size = 1 := Char.utf8Size_eq_one_iff.mpr (by
    have hle : c.val.toNat ≤ 127 := Nat.le_of_lt_succ hc
    exact UInt32.le_iff_toNat_le.mpr hle)
  unfold binary
  rw [List.flatMap_cons, String.utf8EncodeChar_eq_singleton hsize]
  rfl

theorem byte_lt {c d : Char} (hc : c.toNat < 128) (hd : d.toNat < 128) : c.val.toUInt8 < d.val.toUInt8 ↔ c < d := by
  have hval : ∀ {c : Char}, c.toNat < 128 → c.val.toUInt8.toNat = c.toNat := fun {c} h => by
    rw [UInt32.toNat_toUInt8]
    exact Nat.mod_eq_of_lt (lt_trans h (by decide))
  rw [UInt8.lt_iff_toNat_lt, hval hc, hval hd]
  exact UInt32.lt_iff_toNat_lt.symm

/-- ASCII texts compare as their bytes do. -/
theorem binary_lt {t u : Text} (ht : Ascii t) (hu : Ascii u) : binary t < binary u ↔ t < u := by
  induction t generalizing u with
  | nil =>
    cases u with
    | nil => exact ⟨fun h => absurd h (List.not_lt_nil _), fun h => absurd h (List.not_lt_nil _)⟩
    | cons d u =>
      rw [binary_cons (hu d (List.mem_cons_self ..))]
      exact ⟨fun _ => List.nil_lt_cons _ _, fun _ => List.nil_lt_cons _ _⟩
  | cons c t ih =>
    have hc := ht c (List.mem_cons_self ..)
    cases u with
    | nil => exact ⟨fun h => absurd h (List.not_lt_nil _), fun h => absurd h (List.not_lt_nil _)⟩
    | cons d u =>
      have hd := hu d (List.mem_cons_self ..)
      have hrest := ih (u := u) (fun x hx => ht x (List.mem_cons_of_mem _ hx)) fun x hx => hu x (List.mem_cons_of_mem _ hx)
      have heq : c.val.toUInt8 = d.val.toUInt8 ↔ c = d := by
        constructor
        · intro h
          rcases lt_trichotomy c d with hlt | rfl | hlt
          · rw [← byte_lt hc hd, h] at hlt
            exact absurd hlt (UInt8.lt_irrefl _)
          · rfl
          · rw [← byte_lt hd hc, h] at hlt
            exact absurd hlt (UInt8.lt_irrefl _)
        · rintro rfl
          rfl
      rw [binary_cons hc, binary_cons hd, List.cons_lt_cons_iff, List.cons_lt_cons_iff, byte_lt hc hd, heq, hrest]

/-- In the database timestamps compare as the instants do. -/
theorem taskTimestamp_sorts (a b : UtcTime) :
    (binary (taskTimestamp a) < binary (taskTimestamp b) ↔ a < b) ∧ (binary (taskTimestamp a) ≤ binary (taskTimestamp b) ↔ a ≤ b) := by
  have hlt : ∀ a b : UtcTime, binary (taskTimestamp a) < binary (taskTimestamp b) ↔ a < b := fun a b =>
    (binary_lt (taskTimestamp_ascii a) (taskTimestamp_ascii b)).trans UtcTime.isoformat_lt_isoformat
  refine ⟨hlt a b, ?_⟩
  show ¬ binary (taskTimestamp b) < binary (taskTimestamp a) ↔ a ≤ b
  rw [hlt, not_lt]

end AgentWorkflow.ControlPlane
