import AgentWorkflow.ControlPlane.Fencing

/-!
# A renewed lease is honoured

Two mechanisms can take a running task from its worker: the lease of the row,
and the staleness of the agent, which rewrites leases in bulk. While the clock
stays below the renewed lease neither can fire, because `config.py` keeps the
staleness limit at or above the lease time and both compare `isoformat` texts.
-/

namespace AgentWorkflow.ControlPlane
open AgentWorkflow.Lib AgentWorkflow.Lib.Calendar

/-! ### The agent stays fresh -/

/-- Every row of the agent was written by a heartbeat at or after `u`. -/
def Db.FreshSince (u : UtcTime) (agentId : ℕ) (db : Db) : Prop :=
  ∀ a ∈ db.agents, a.id = agentId → ∃ v, u ≤ v ∧ a.lastHeartbeat = some v.isoformat

theorem heartbeat_fresh {cfg : Config} {agent : Agent} {body : HeartbeatRequest} {u : UtcTime} {db : Db}
    {reply : HeartbeatReply} (h : (heartbeat cfg agent body u db).1 = .ok reply) :
    (heartbeat cfg agent body u db).2.FreshSince u agent.id := by
  rcases heartbeat_cases cfg agent body u db with ⟨e, he⟩ | ⟨lease, -, -, hdb⟩
  · rw [he] at h
    cases h
  · intro a ha hid
    rw [hdb] at ha
    obtain ⟨b, -, rfl⟩ := List.mem_map.mp ha
    by_cases hb : b.id = agent.id
    · refine ⟨u, le_rfl, ?_⟩
      simp [hb, beatAgent]
    · rw [if_neg (by simpa using hb)] at hid
      exact absurd hid hb

/-- The `agents` table after an operation: the old rows, with their
`last_heartbeat` kept or set to the reading of this operation's clock, and at
most new rows with that reading. -/
theorem perform_agents (J : JsonLib) (cfg : Config) {db : Db} (hu : Table.Unique Task.id db.tasks) (op : Op) :
    ∀ a ∈ (perform J cfg db op).1.agents, a.lastHeartbeat = some op.now.isoformat ∨
      ∃ b ∈ db.agents, b.id = a.id ∧ b.lastHeartbeat = a.lastHeartbeat := by
  intro a ha
  cases op with
  | register body tenantId tokenHash now =>
    rcases register_cases body tenantId tokenHash now db with h | ⟨c, hc, h⟩
    · simp only [perform, h] at ha
      exact Or.inr ⟨a, ha, rfl, rfl⟩
    · simp only [perform, h] at ha
      rcases List.mem_append.mp ha with ha | ha
      · exact Or.inr ⟨a, ha, rfl, rfl⟩
      · rw [List.mem_singleton.mp ha]
        exact Or.inl hc
  | createTask body tenantId taskId now =>
    right
    rcases createTask_cases J body tenantId taskId now db with h | ⟨payloadJson, -, h⟩ <;>
      (simp only [perform, h] at ha; exact ⟨a, ha, rfl, rfl⟩)
  | claimPending agent slots now uuid =>
    right
    rcases claimPending_cases J cfg agent slots now uuid hu with ⟨e, h⟩ | ⟨lease, -, h⟩ <;>
      (simp only [perform, h] at ha; exact ⟨a, ha, rfl, rfl⟩)
  | heartbeat agent body now =>
    rcases heartbeat_cases cfg agent body now db with ⟨e, h⟩ | ⟨lease, -, -, h⟩
    · simp only [perform, h] at ha
      exact Or.inr ⟨a, ha, rfl, rfl⟩
    · simp only [perform, h] at ha
      obtain ⟨b, hb, rfl⟩ := List.mem_map.mp ha
      split_ifs with hid
      · exact Or.inl rfl
      · exact Or.inr ⟨b, hb, rfl, rfl⟩
  | submitResult agent taskId body now =>
    right
    rcases submitResult_cases J agent taskId body now db with
      ⟨e, h⟩ | ⟨row, -, -, -, -, -, h⟩ | ⟨row, -, encoded, -, h⟩ <;>
      (simp only [perform, h] at ha; exact ⟨a, ha, rfl, rfl⟩)
  | expireStaleAgents now =>
    right
    have hdb : (perform J cfg db (.expireStaleAgents now)).1 = (expireStaleAgents cfg now db).2 := rfl
    rw [hdb] at ha
    rcases expireStaleAgents_cases cfg now db with h | ⟨cutoff, -, h⟩
    · rw [h] at ha
      exact ⟨a, ha, rfl, rfl⟩
    rw [h] at ha
    rcases expireBlock_cases cutoff.isoformat now.isoformat db with h | ⟨-, h⟩
    · rw [h] at ha
      exact ⟨a, ha, rfl, rfl⟩
    · rw [h] at ha
      obtain ⟨b, hb, rfl⟩ := List.mem_map.mp ha
      refine ⟨b, hb, ?_, ?_⟩ <;> split_ifs <;> rfl
  | reapExpiredTasks now => exact Or.inr ⟨a, ha, rfl, rfl⟩

theorem perform_fresh (J : JsonLib) (cfg : Config) {db : Db} (hu : Table.Unique Task.id db.tasks) {u : UtcTime}
    {agentId : ℕ} {op : Op} (hop : u ≤ op.now) (h : db.FreshSince u agentId) :
    (perform J cfg db op).1.FreshSince u agentId := by
  intro a ha hid
  rcases perform_agents J cfg hu op a ha with hnow | ⟨b, hb, hbid, hbeat⟩
  · exact ⟨op.now, hop, hnow⟩
  · obtain ⟨v, hv, hbv⟩ := h b hb (hbid.trans hid)
    exact ⟨v, hv, hbeat ▸ hbv⟩

/-- A fresh agent is not stale as long as its staleness limit has not passed. -/
theorem not_stale_of_fresh {db : Db} {u cutoff now : UtcTime} {agentId s : ℕ} (h : db.FreshSince u agentId)
    (hc : now.subSeconds s = some cutoff) (hnow : now.micros < u.micros + microsPerSecond * s) :
    agentId ∉ staleAgentIds cutoff.isoformat db := by
  intro hmem
  obtain ⟨a, ha, hid⟩ := List.mem_map.mp hmem
  obtain ⟨ham, hstale⟩ := List.mem_filter.mp ha
  obtain ⟨v, hv, hbeat⟩ := h a ham hid
  simp only [isStale, hbeat, Bool.and_eq_true, decide_eq_true_eq] at hstale
  have hle := UtcTime.le_iff.mp (UtcTime.isoformat_le_isoformat.mp hstale.2)
  have hcut := UtcTime.subSeconds_eq_some hc
  have huv := UtcTime.le_iff.mp hv
  omega

/-! ### The row keeps its attempt -/

/-- The row runs the attempt for the agent under a lease at or after `until_`. -/
structure Task.HeldUntil (until_ : ℕ) (attempt : Text) (agentId : ℕ) (r : Task) : Prop where
  running : r.status = .running
  attempt : r.attemptId = some attempt
  agent : r.assignedAgentId = some agentId
  lease : ∃ v : UtcTime, until_ ≤ v.micros ∧ r.leaseExpiresAt = some v.isoformat

theorem Task.HeldUntil.not_expired {until_ : ℕ} {attempt : Text} {agentId : ℕ} {r : Task} {now : UtcTime}
    (h : r.HeldUntil until_ attempt agentId) (hnow : now.micros < until_) :
    leaseExpired now.isoformat r = false := by
  obtain ⟨v, hv, hl⟩ := h.lease
  have hlt : ¬ v.isoformat ≤ now.isoformat := by
    rw [UtcTime.isoformat_le_isoformat, UtcTime.le_iff]
    omega
  simp [leaseExpired, hl, hlt]

/-- While the lease lasts and the agent is fresh, a move of the row is a
renewal, the completion of the attempt, or nothing. -/
theorem Move.held {cfg : Config} {db : Db} {op : Op} {e : Event} {r r' : Task} {u : UtcTime} {x : Text} {a : ℕ}
    (h : Move cfg db op e r r') (hstale : cfg.taskLeaseSeconds ≤ cfg.agentStaleSeconds) (hop : u ≤ op.now)
    (hnow : op.now.micros < u.micros + microsPerSecond * cfg.taskLeaseSeconds) (hfresh : db.FreshSince u a)
    (hr : r.HeldUntil (u.micros + microsPerSecond * cfg.taskLeaseSeconds) x a) :
    (e.view r.id = .quiet ∧ r'.HeldUntil (u.micros + microsPerSecond * cfg.taskLeaseSeconds) x a) ∨
    (e.view r.id = ⟨[], [], some (x, a)⟩ ∧ r'.Finished) := by
  have hexp := hr.not_expired hnow
  cases h with
  | stay view => exact Or.inl ⟨view, hr⟩
  | renew lease _ huntil view =>
    refine Or.inl ⟨view, hr.running, hr.attempt, hr.agent, lease, ?_, rfl⟩
    have hlease := UtcTime.addSeconds_eq_some huntil
    have hle := UtcTime.le_iff.mp hop
    omega
  | expire cutoff hsince hheld view =>
    obtain ⟨-, b, hb, hassigned⟩ := heldByStale_running hheld
    rw [hr.agent] at hassigned
    cases hassigned
    have hmul : microsPerSecond * cfg.taskLeaseSeconds ≤ microsPerSecond * cfg.agentStaleSeconds :=
      Nat.mul_le_mul_left _ hstale
    exact absurd hb (not_stale_of_fresh hfresh hsince (by omega))
  | claim agent attempt lease hpend _ _ =>
    rw [hr.running] at hpend
    cases hpend
  | complete agent body encoded hheld view =>
    obtain ⟨-, -, hagent, hattempt, -⟩ := holdsAttempt_iff.mp hheld
    rw [hr.agent] at hagent
    rw [hr.attempt] at hattempt
    refine Or.inr ⟨?_, terminalStatus_cases body.status⟩
    rw [view, Option.some.inj hagent, Option.some.inj hattempt]
  | requeue hexpired _ _ =>
    rw [hexp] at hexpired
    cases hexpired
  | fail hexpired _ _ =>
    rw [hexp] at hexpired
    cases hexpired

/-! ### Runs below the lease -/

/-- What holds after any operations below the lease: the task was neither
reaped nor claimed, and it is still held or its attempt was completed. -/
structure Honoured (until_ : ℕ) (u : UtcTime) (t x : Text) (a : ℕ) (h : List Event) (db : Db) : Prop where
  unique : Table.Unique Task.id db.tasks
  fresh : db.FreshSince u a
  quiet : ∀ e ∈ h, (e.view t).attempts = [] ∧ (e.view t).reaped = []
  row : ∃ r, db.task t = some r ∧ (r.HeldUntil until_ x a ∨
    (r.Finished ∧ ∃ e ∈ h, (e.view t).accepted = some (x, a)))

theorem Honoured.step (J : JsonLib) {cfg : Config} (hstale : cfg.taskLeaseSeconds ≤ cfg.agentStaleSeconds)
    {u : UtcTime} {t x : Text} {a : ℕ} (h : List Event) (db : Db) (op : Op)
    (hop : u ≤ op.now ∧ op.now.micros < u.micros + microsPerSecond * cfg.taskLeaseSeconds)
    (hh : Honoured (u.micros + microsPerSecond * cfg.taskLeaseSeconds) u t x a h db) :
    Honoured (u.micros + microsPerSecond * cfg.taskLeaseSeconds) u t x a
      (h ++ [(perform J cfg db op).2]) (perform J cfg db op).1 := by
  have hquiet : ∀ v : View, (perform J cfg db op).2.view t = v → v.attempts = [] → v.reaped = [] →
      ∀ e ∈ h ++ [(perform J cfg db op).2], (e.view t).attempts = [] ∧ (e.view t).reaped = [] := by
    intro v hv hatt hreap e he
    rcases List.mem_append.mp he with he | he
    · exact hh.quiet e he
    · rw [List.mem_singleton.mp he, hv]
      exact ⟨hatt, hreap⟩
  have hunique : Table.Unique Task.id (perform J cfg db op).1.tasks := perform_unique hh.unique op
  have hfresh := perform_fresh J cfg hh.unique hop.1 hh.fresh
  obtain ⟨r, hr, hrow⟩ := hh.row
  rcases hrow with hheld | ⟨hfin, e, he, hacc⟩
  · have hstep := stepTask J cfg hh.unique op t
    rw [hr] at hstep
    generalize hafter : (perform J cfg db op).1.task t = after at hstep
    cases hstep with
    | move _ r' hid hm =>
      rcases hm.held hstale hop.1 hop.2 hh.fresh hheld with ⟨hview, hheld'⟩ | ⟨hview, hfin'⟩
      · rw [hid] at hview
        exact ⟨hunique, hfresh, hquiet _ hview rfl rfl, r', hafter, Or.inl hheld'⟩
      · rw [hid] at hview
        refine ⟨hunique, hfresh, hquiet _ hview rfl rfl, r', hafter, Or.inr ⟨hfin', ?_⟩⟩
        exact ⟨(perform J cfg db op).2, by simp, by rw [hview]⟩
  · obtain ⟨hafter, hview⟩ := @perform_finished J cfg db hh.unique op t r hr hfin
    exact ⟨hunique, hfresh, hquiet _ hview rfl rfl, r, hafter,
      Or.inr ⟨hfin, e, List.mem_append_left _ he, hacc⟩⟩

/-- The heartbeat that renewed the entry establishes it. -/
theorem heartbeat_honoured {cfg : Config} {agent : Agent} {body : HeartbeatRequest} {u : UtcTime} {db : Db}
    {reply : HeartbeatReply} {t : Text} (hu : Table.Unique Task.id db.tasks)
    (hok : (heartbeat cfg agent body u db).1 = .ok reply) (ht : t ∈ reply.renewedTasks) :
    ∃ x, ⟨t, x⟩ ∈ body.runningTasks ∧ Honoured (u.micros + microsPerSecond * cfg.taskLeaseSeconds) u t x agent.id
      [] (heartbeat cfg agent body u db).2 := by
  have hfresh := heartbeat_fresh hok
  rcases heartbeat_cases cfg agent body u db with ⟨e, he⟩ | ⟨lease, hlease, hreply, hdb⟩
  · rw [he] at hok
    cases hok
  rw [hreply] at hok
  cases hok
  obtain ⟨entry, hentry, rfl⟩ := List.mem_map.mp ht
  obtain ⟨hin, hrenews⟩ := List.mem_filter.mp hentry
  obtain ⟨r, hr, hholds⟩ := List.any_eq_true.mp hrenews
  obtain ⟨hid, -, hagent, hattempt, hrunning⟩ := holdsAttempt_iff.mp hholds
  have hren : renewedBy agent body.runningTasks r = true := List.any_eq_true.mpr ⟨entry, hin, hholds⟩
  refine ⟨entry.attemptId, hin, ?_, hfresh, ?_, renewRow u.isoformat lease.isoformat r, ?_, Or.inl ?_⟩
  · rw [hdb]
    exact Table.unique_map (Table.update_key (renewRow_id u.isoformat lease.isoformat)) hu
  · intro e he
    cases he
  · rw [hdb]
    have hfind := Table.find_of_mem hu hr
    rw [hid] at hfind
    simp only [Db.task]
    rw [Table.find_map (Table.update_key (renewRow_id u.isoformat lease.isoformat)), hfind]
    simp [hren]
  · refine ⟨hrunning, hattempt, hagent, lease, ?_, rfl⟩
    rw [UtcTime.addSeconds_eq_some hlease]

/-- If a heartbeat at time `u` lists a task in `renewed_tasks`, then whatever
operations follow before `u + TASK_LEASE_SECONDS`, the task is neither reaped
nor claimed again: it still runs the renewed attempt, or that attempt was
completed by `submit_result`. -/
theorem renewed_lease_honoured (J : JsonLib) {env : Environ} {cfg : Config} (hcfg : loadConfig env = .ok cfg)
    {before after : List Op} {agent : Agent} {body : HeartbeatRequest} {u : UtcTime}
    (hclock : ((before ++ Op.heartbeat agent body u :: after).map Op.now).Pairwise (· ≤ ·))
    {reply : HeartbeatReply}
    (hok : (heartbeat cfg agent body u ((system J cfg).run Db.empty before)).1 = .ok reply)
    {t : Text} (ht : t ∈ reply.renewedTasks)
    (hbelow : ∀ op ∈ after, op.now.micros < u.micros + microsPerSecond * cfg.taskLeaseSeconds) :
    let beat := (system J cfg).run Db.empty (before ++ [Op.heartbeat agent body u])
    ∃ x, ⟨t, x⟩ ∈ body.runningTasks ∧
      (∀ e ∈ (system J cfg).trace beat after,
        (∀ tr ∈ e.transitions, tr.taskId ≠ t) ∧ ∀ y b, (t, y, b) ∉ e.issued) ∧
      ∃ r, ((system J cfg).run beat after).task t = some r ∧
        ((r.status = .running ∧ r.attemptId = some x ∧ r.assignedAgentId = some agent.id) ∨
         ((r.status = .success ∨ r.status = .failed) ∧
          ∃ e ∈ (system J cfg).trace beat after, e.accepted = some (t, x, agent.id))) := by
  intro beat
  have hstale := (loadConfig_lease_le_stale hcfg).2
  obtain ⟨x, hin, h0⟩ := heartbeat_honoured (run_unique J cfg before) hok ht
  have hbeat : (heartbeat cfg agent body u ((system J cfg).run Db.empty before)).2 = beat :=
    ((system J cfg).run_snoc Db.empty before (.heartbeat agent body u)).symm
  rw [hbeat] at h0
  have hafter : ∀ op ∈ after, u ≤ op.now ∧ op.now.micros < u.micros + microsPerSecond * cfg.taskLeaseSeconds := by
    intro op hop
    rw [List.map_append, List.map_cons, List.pairwise_append, List.pairwise_cons] at hclock
    exact ⟨hclock.2.1.1 op.now (List.mem_map_of_mem hop), hbelow op hop⟩
  have hrun := (system J cfg).history_invariant_of h0 (Honoured.step J hstale) after hafter
  refine ⟨x, hin, fun e he => ?_, ?_⟩
  · obtain ⟨hatt, hreap⟩ := hrun.quiet e he
    refine ⟨fun tr htr hid => ?_, fun y b hb => ?_⟩
    · have hmem := mem_reaped.mpr ⟨tr, htr, hid, rfl⟩
      rw [hreap] at hmem
      cases hmem
    · have hmem := mem_attempts.mpr hb
      rw [hatt] at hmem
      cases hmem
  · obtain ⟨r, hr, hrow⟩ := hrun.row
    refine ⟨r, hr, ?_⟩
    rcases hrow with hheld | ⟨hfin, e, he, hacc⟩
    · exact Or.inl ⟨hheld.running, hheld.attempt, hheld.agent⟩
    · exact Or.inr ⟨hfin, e, he, accepted_of_view hacc⟩

/-! ### A renewal followed by a maintenance pass -/

/-- `json` on the empty object. -/
def emptyObjectJson : JsonLib := ⟨fun _ _ => some "\x7b\x7d".toList, fun _ => .obj []⟩

def sampleConfig : Config := ⟨60, 3, 5, 90, 900⟩

/-- The given second of 2026-01-03T00:00 UTC. -/
def sampleTime (s : Fin 60) : UtcTime where
  micros := 63902995200000000 + 1000000 * s.val
  inRange := by
    have hs := s.isLt
    unfold maxMicros microsPerDay
    omega

def sampleWorker : Agent :=
  ⟨1, "tenant".toList, "host".toList, "hash".toList, .idle, "\x7b\x7d".toList, [], none⟩

def sampleClaim : List Op :=
  [.register ⟨"host".toList, "\x7b\x7d".toList, []⟩ "tenant".toList "hash".toList (sampleTime 0),
   .createTask ⟨"echo".toList, [], none⟩ "tenant".toList "task".toList (sampleTime 1),
   .claimPending sampleWorker 1 (sampleTime 2) fun _ => "attempt".toList]

def sampleBeat : HeartbeatRequest := ⟨.busy, [⟨"task".toList, "attempt".toList⟩], "\x7b\x7d".toList⟩

def samplePass : List Op := [.expireStaleAgents (sampleTime 50), .reapExpiredTasks (sampleTime 50)]

theorem renewed_lease_honoured_sample :
    let beat := (system emptyObjectJson sampleConfig).run Db.empty
      (sampleClaim ++ [Op.heartbeat sampleWorker sampleBeat (sampleTime 3)])
    ∃ x, ⟨"task".toList, x⟩ ∈ sampleBeat.runningTasks ∧
      (∀ e ∈ (system emptyObjectJson sampleConfig).trace beat samplePass,
        (∀ tr ∈ e.transitions, tr.taskId ≠ "task".toList) ∧ ∀ y b, ("task".toList, y, b) ∉ e.issued) ∧
      ∃ r, ((system emptyObjectJson sampleConfig).run beat samplePass).task "task".toList = some r ∧
        ((r.status = .running ∧ r.attemptId = some x ∧ r.assignedAgentId = some 1) ∨
         ((r.status = .success ∨ r.status = .failed) ∧
          ∃ e ∈ (system emptyObjectJson sampleConfig).trace beat samplePass,
            e.accepted = some ("task".toList, x, 1))) := by
  have hok : (heartbeat sampleConfig sampleWorker sampleBeat (sampleTime 3)
      ((system emptyObjectJson sampleConfig).run Db.empty sampleClaim)).1 =
      .ok ⟨1, ["task".toList], [], some "2026-01-03T00:01:03+00:00".toList⟩ := by
    decide +kernel
  have hclock : ((sampleClaim ++ Op.heartbeat sampleWorker sampleBeat (sampleTime 3) :: samplePass).map
      Op.now).Pairwise (· ≤ ·) := by
    decide +kernel
  have hbelow : ∀ op ∈ samplePass, op.now.micros < (sampleTime 3).micros + microsPerSecond * 60 := by
    intro op hop
    simp only [samplePass, List.mem_cons, List.not_mem_nil, or_false] at hop
    rcases hop with rfl | rfl <;> decide +kernel
  have hcfg : loadConfig {} = .ok sampleConfig := by
    decide +kernel
  exact renewed_lease_honoured emptyObjectJson hcfg hclock hok (List.mem_singleton_self _) hbelow

end AgentWorkflow.ControlPlane
