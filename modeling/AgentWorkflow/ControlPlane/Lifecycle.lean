import AgentWorkflow.ControlPlane.System

/-!
# The task lifecycle invariant

Every operation rewrites its own subset of the lifecycle columns; together they
keep the columns of a row consistent with its status, and a finished row is
never written again.
-/

namespace AgentWorkflow.ControlPlane
open AgentWorkflow.Lib AgentWorkflow.Lib.Calendar

structure Task.Consistent (cfg : Config) (r : Task) : Prop where
  status : r.status = .pending ∨ r.status = .running ∨ r.status = .success ∨ r.status = .failed
  pending : r.status = .pending → r.assignedAgentId = none ∧ r.attemptId = none ∧
    r.leaseExpiresAt = none ∧ r.resultJson = none
  running : r.status = .running → r.assignedAgentId ≠ none ∧ r.attemptId ≠ none ∧
    r.leaseExpiresAt ≠ none ∧ r.resultJson = none
  finished : r.status = .success ∨ r.status = .failed →
    r.attemptId ≠ none ∧ r.resultJson ≠ none ∧ r.leaseExpiresAt = none
  retries : 0 ≤ r.retryCount ∧ r.retryCount ≤ cfg.taskMaxRetries

def Task.Finished (r : Task) : Prop := r.status = .success ∨ r.status = .failed

theorem terminalStatus_cases (s : ResultStatus) :
    terminalStatus s = .success ∨ terminalStatus s = .failed := by
  cases s <;> simp [terminalStatus]

theorem leaseExpired_running {timestamp : Text} {r : Task} (h : leaseExpired timestamp r = true) :
    r.status = .running := by
  simp only [leaseExpired, Bool.and_eq_true, decide_eq_true_eq] at h
  exact h.1

theorem heldByStale_running {ids : List ℕ} {r : Task} (h : heldByStale ids r = true) :
    r.status = .running ∧ ∃ a ∈ ids, r.assignedAgentId = some a := by
  simp only [heldByStale, Bool.and_eq_true, decide_eq_true_eq] at h
  refine ⟨h.1, ?_⟩
  cases ha : r.assignedAgentId with
  | none => simp [ha] at h
  | some a => exact ⟨a, by simpa [ha] using h.2, rfl⟩

theorem newTask_consistent (cfg : Config) (body : CreateTaskRequest) (tenantId t payloadJson now : Text) :
    (newTask body tenantId t payloadJson now).Consistent cfg where
  status := Or.inl rfl
  pending := fun _ => ⟨rfl, rfl, rfl, rfl⟩
  running := fun h => by cases h
  finished := fun h => by rcases h with h | h <;> cases h
  retries := ⟨le_rfl, Nat.zero_le _⟩

/-- A row keeps its consistency through every move. -/
theorem Move.consistent {cfg : Config} {db : Db} {op : Op} {e : Event} {r r' : Task}
    (h : Move cfg db op e r r') (hr : r.Consistent cfg) : r'.Consistent cfg := by
  cases h with
  | stay => exact hr
  | renew lease hrun _ _ =>
    obtain ⟨h1, h2, -, h4⟩ := hr.running hrun
    refine ⟨hr.status, ?_, fun _ => ⟨h1, h2, by simp [renewRow], h4⟩, ?_, hr.retries⟩
    · intro hp
      rw [show (renewRow _ _ r).status = r.status from rfl, hrun] at hp
      cases hp
    · intro hf
      rw [show (renewRow _ _ r).status = r.status from rfl, hrun] at hf
      rcases hf with hf | hf <;> cases hf
  | expire cutoff _ hheld _ =>
    have hrun := (heldByStale_running hheld).1
    obtain ⟨h1, h2, -, h4⟩ := hr.running hrun
    refine ⟨hr.status, ?_, fun _ => ⟨h1, h2, by simp [expireLease], h4⟩, ?_, hr.retries⟩
    · intro hp
      rw [show (expireLease _ r).status = r.status from rfl, hrun] at hp
      cases hp
    · intro hf
      rw [show (expireLease _ r).status = r.status from rfl, hrun] at hf
      rcases hf with hf | hf <;> cases hf
  | claim agent attempt lease hpend _ _ =>
    obtain ⟨-, -, -, h4⟩ := hr.pending hpend
    refine ⟨Or.inr (Or.inl rfl), ?_, fun _ => ⟨by simp [claimRow], by simp [claimRow], by simp [claimRow], h4⟩,
      ?_, hr.retries⟩
    · intro hp
      cases hp
    · intro hf
      rcases hf with hf | hf <;> cases hf
  | complete agent body encoded hheld _ =>
    have hatt := (holdsAttempt_iff.mp hheld).2.2.2.1
    have hterm := terminalStatus_cases body.status
    refine ⟨Or.inr (Or.inr hterm), ?_, ?_, fun _ => ⟨?_, by simp [completeRow], rfl⟩, hr.retries⟩
    · intro hp
      rw [show (completeRow body encoded _ r).status = terminalStatus body.status from rfl] at hp
      rcases hterm with ht | ht <;> rw [ht] at hp <;> cases hp
    · intro hrun
      rw [show (completeRow body encoded _ r).status = terminalStatus body.status from rfl] at hrun
      rcases hterm with ht | ht <;> rw [ht] at hrun <;> cases hrun
    · rw [show (completeRow body encoded _ r).attemptId = r.attemptId from rfl, hatt]
      exact Option.some_ne_none _
  | requeue hexp hleft _ =>
    obtain ⟨-, -, -, h4⟩ := hr.running (leaseExpired_running hexp)
    refine ⟨Or.inl rfl, fun _ => ⟨rfl, rfl, rfl, h4⟩, ?_, ?_, ⟨Nat.zero_le _, hleft⟩⟩
    · intro hrun
      cases hrun
    · intro hf
      rcases hf with hf | hf <;> cases hf
  | fail hexp _ _ =>
    obtain ⟨-, h2, -, -⟩ := hr.running (leaseExpired_running hexp)
    refine ⟨Or.inr (Or.inr (Or.inr rfl)), ?_, ?_, fun _ => ⟨h2, by simp [failExhausted], rfl⟩, hr.retries⟩
    · intro hp
      cases hp
    · intro hrun
      cases hrun

/-- Every move but `stay` starts from a pending or a running row. -/
theorem Move.finished {cfg : Config} {db : Db} {op : Op} {e : Event} {r r' : Task}
    (h : Move cfg db op e r r') (hr : r.Finished) : r' = r ∧ e.view r.id = .quiet := by
  have hnot : r.status ≠ .running ∧ r.status ≠ .pending := by
    rcases hr with hr | hr <;> rw [hr] <;> decide
  cases h with
  | stay view => exact ⟨rfl, view⟩
  | renew lease hrun _ _ => exact absurd hrun hnot.1
  | expire cutoff _ hheld _ => exact absurd (heldByStale_running hheld).1 hnot.1
  | claim agent attempt lease hpend _ _ => exact absurd hpend hnot.2
  | complete agent body encoded hheld _ => exact absurd (holdsAttempt_iff.mp hheld).2.2.2.2 hnot.1
  | requeue hexp _ _ => exact absurd (leaseExpired_running hexp) hnot.1
  | fail hexp _ _ => exact absurd (leaseExpired_running hexp) hnot.1

def Db.Consistent (cfg : Config) (db : Db) : Prop :=
  Table.Unique Task.id db.tasks ∧ ∀ t r, db.task t = some r → r.Consistent cfg

theorem empty_consistent (cfg : Config) : Db.empty.Consistent cfg := by
  refine ⟨List.nodup_nil, ?_⟩
  intro t r h
  cases h

theorem perform_consistent (J : JsonLib) {cfg : Config} {db : Db} (h : db.Consistent cfg) (op : Op) :
    (perform J cfg db op).1.Consistent cfg := by
  refine ⟨perform_unique h.1 op, ?_⟩
  intro t r' hr'
  have hstep := stepTask J cfg h.1 op t
  rw [hr'] at hstep
  cases hb : db.task t with
  | none =>
    rw [hb] at hstep
    cases hstep with
    | create body tenantId payloadJson _ => exact newTask_consistent cfg body tenantId t payloadJson _
  | some r =>
    rw [hb] at hstep
    cases hstep with
    | move _ _ _ hm => exact hm.consistent (h.2 t r hb)

theorem run_consistent (J : JsonLib) (cfg : Config) (ops : List Op) :
    ((system J cfg).run Db.empty ops).Consistent cfg :=
  (system J cfg).run_invariant (P := Db.Consistent cfg) (fun _ op h => perform_consistent J h op)
    Db.empty ops (empty_consistent cfg)

theorem perform_finished (J : JsonLib) {cfg : Config} {db : Db} (hu : Table.Unique Task.id db.tasks)
    (op : Op) {t : Text} {r : Task} (h : db.task t = some r) (hf : r.Finished) :
    (perform J cfg db op).1.task t = some r ∧ (perform J cfg db op).2.view t = .quiet := by
  have hstep := stepTask J cfg hu op t
  rw [h] at hstep
  generalize hafter : (perform J cfg db op).1.task t = after at hstep
  cases hstep with
  | move _ r' hid hm =>
    obtain ⟨rfl, hview⟩ := hm.finished hf
    exact ⟨rfl, hid ▸ hview⟩

theorem run_finished (J : JsonLib) {cfg : Config} {db : Db} (hu : Table.Unique Task.id db.tasks)
    (ops : List Op) {t : Text} {r : Task} (h : db.task t = some r) (hf : r.Finished) :
    ((system J cfg).run db ops).task t = some r :=
  ((system J cfg).run_invariant
    (P := fun db => Table.Unique Task.id db.tasks ∧ db.task t = some r)
    (fun _ op hdb => ⟨perform_unique hdb.1 op, (perform_finished J hdb.1 op hdb.2 hf).1⟩) db ops ⟨hu, h⟩).2

/-- In every state that any interleaving of the operations reaches, every row
is consistent, and a finished row is still the same row after any further
operations. -/
theorem task_lifecycle (J : JsonLib) (cfg : Config) (ops : List Op) :
    (∀ r ∈ ((system J cfg).run Db.empty ops).tasks, r.Consistent cfg) ∧
    ∀ r ∈ ((system J cfg).run Db.empty ops).tasks, r.status = .success ∨ r.status = .failed →
      ∀ later, ((system J cfg).run ((system J cfg).run Db.empty ops) later).task r.id = some r := by
  have hc := run_consistent J cfg ops
  refine ⟨fun r hr => ?_, fun r hr hf later => ?_⟩
  · exact hc.2 r.id r (Table.find_of_mem hc.1 hr)
  · exact run_finished J hc.1 later (Table.find_of_mem hc.1 hr) hf

end AgentWorkflow.ControlPlane
