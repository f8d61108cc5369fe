import AgentWorkflow.ControlPlane.Agents
import AgentWorkflow.Lib.Machine

/-!
# The control plane as one machine

Every operation is one write transaction with its clock reading and its random
values. `claim_pending` appears as its claiming transaction; the reap before it
is an operation of its own, so a run may put other transactions between the
two. `stepTask` says everything an operation can do to one row of `tasks`; the
invariants are derived from it.
-/

namespace AgentWorkflow.ControlPlane
open AgentWorkflow.Lib AgentWorkflow.Lib.Calendar

inductive Op where
  | register (body : RegisterRequest) (tenantId tokenHash : Text) (now : UtcTime)
  | createTask (body : CreateTaskRequest) (tenantId taskId : Text) (now : UtcTime)
  | claimPending (agent : Agent) (slots : ℤ) (now : UtcTime) (uuid : ℕ → Text)
  | heartbeat (agent : Agent) (body : HeartbeatRequest) (now : UtcTime)
  | submitResult (agent : Agent) (taskId : Text) (body : TaskResultRequest) (now : UtcTime)
  | expireStaleAgents (now : UtcTime)
  | reapExpiredTasks (now : UtcTime)

def Op.now : Op → UtcTime
  | register _ _ _ now => now
  | createTask _ _ _ now => now
  | claimPending _ _ now _ => now
  | heartbeat _ _ now => now
  | submitResult _ _ _ now => now
  | expireStaleAgents now => now
  | reapExpiredTasks now => now

/-- What the caller of an operation sees. -/
inductive Event where
  | register (reply : Except Error ℕ)
  | createTask (reply : Except Error Task)
  | claimPending (agent : Agent) (slots : ℤ) (reply : Except Error (List ClaimedTask))
  | heartbeat (agent : Agent) (body : HeartbeatRequest) (reply : Except Error HeartbeatReply)
  | submitResult (agent : Agent) (taskId : Text) (body : TaskResultRequest)
      (reply : Except Error ResultReply)
  | expireStaleAgents (reply : Except Error (List ℕ))
  | reapExpiredTasks (transitions : List Transition)

def perform (J : JsonLib) (cfg : Config) (db : Db) : Op → Db × Event
  | .register body tenantId tokenHash now =>
    let out := register body tenantId tokenHash now db
    (out.2, .register out.1)
  | .createTask body tenantId taskId now =>
    let out := createTask J body tenantId taskId now db
    (out.2, .createTask out.1)
  | .claimPending agent slots now uuid =>
    let out := claimPending J cfg agent slots now uuid db
    (out.2, .claimPending agent slots out.1)
  | .heartbeat agent body now =>
    let out := heartbeat cfg agent body now db
    (out.2, .heartbeat agent body out.1)
  | .submitResult agent taskId body now =>
    let out := submitResult J agent taskId body now db
    (out.2, .submitResult agent taskId body out.1)
  | .expireStaleAgents now =>
    let out := expireStaleAgents cfg now db
    (out.2, .expireStaleAgents out.1)
  | .reapExpiredTasks now =>
    let out := reapExpiredTasks cfg now db
    (out.2, .reapExpiredTasks out.1)

section
-- the equations are made here once, not in every proof at the same time
attribute [local simp] perform
end

def system (J : JsonLib) (cfg : Config) : Machine Db Op Event := ⟨perform J cfg⟩

/-! ### Events as seen from one task -/

/-- Attempts issued by a claim: task, attempt and agent. -/
def Event.issued : Event → List (Text × Text × ℕ)
  | .claimPending agent _ (.ok claimed) => claimed.map fun c => (c.id, c.attemptId, agent.id)
  | _ => []

def Event.transitions : Event → List Transition
  | .reapExpiredTasks transitions => transitions
  | _ => []

/-- The triple of a `submit_result` that was accepted (`ok` with
`duplicate=false`). -/
def Event.accepted : Event → Option (Text × Text × ℕ)
  | .submitResult agent taskId body (.ok reply) =>
    if reply.duplicate then none else some (taskId, body.attemptId, agent.id)
  | _ => none

structure View where
  attempts : List (Text × ℕ)
  reaped : List TaskStatus
  accepted : Option (Text × ℕ)
deriving DecidableEq

def View.quiet : View := ⟨[], [], none⟩

def Event.view (e : Event) (t : Text) : View where
  attempts := (e.issued.filter fun x => decide (x.1 = t)).map Prod.snd
  reaped := (e.transitions.filter fun x => decide (x.taskId = t)).map Transition.status
  accepted := (e.accepted.filter fun x => decide (x.1 = t)).map Prod.snd

/-- Everything an operation can do to one row: the guard that held, the row
that results and what the event shows of it. -/
inductive Move (cfg : Config) (db : Db) (op : Op) (e : Event) (r : Task) : Task → Prop where
  | stay (view : e.view r.id = .quiet) : Move cfg db op e r r
  | renew (lease : UtcTime) (running : r.status = .running)
      (until_ : op.now.addSeconds cfg.taskLeaseSeconds = some lease) (view : e.view r.id = .quiet) :
      Move cfg db op e r (renewRow op.now.isoformat lease.isoformat r)
  | expire (cutoff : UtcTime) (since : op.now.subSeconds cfg.agentStaleSeconds = some cutoff)
      (held : heldByStale (staleAgentIds cutoff.isoformat db) r = true) (view : e.view r.id = .quiet) :
      Move cfg db op e r (expireLease op.now.isoformat r)
  | claim (agent : Agent) (attempt : Text) (lease : UtcTime) (pending : r.status = .pending)
      (until_ : op.now.addSeconds cfg.taskLeaseSeconds = some lease)
      (view : e.view r.id = ⟨[(attempt, agent.id)], [], none⟩) :
      Move cfg db op e r (claimRow agent op.now.isoformat lease.isoformat attempt r)
  | complete (agent : Agent) (body : TaskResultRequest) (encoded : Text)
      (held : holdsAttempt agent r.id body.attemptId r = true)
      (view : e.view r.id = ⟨[], [], some (body.attemptId, agent.id)⟩) :
      Move cfg db op e r (completeRow body encoded op.now.isoformat r)
  | requeue (expired : leaseExpired op.now.isoformat r = true) (left : r.retryCount < cfg.taskMaxRetries)
      (view : e.view r.id = ⟨[], [.pending], none⟩) :
      Move cfg db op e r (requeue (r.retryCount + 1) op.now.isoformat r)
  | fail (expired : leaseExpired op.now.isoformat r = true) (spent : ¬ r.retryCount < cfg.taskMaxRetries)
      (view : e.view r.id = ⟨[], [.failed], none⟩) :
      Move cfg db op e r (failExhausted op.now.isoformat r)

theorem Move.id_eq {cfg : Config} {db : Db} {op : Op} {e : Event} {r r' : Task}
    (h : Move cfg db op e r r') : r'.id = r.id := by
  cases h <;> rfl

/-- What happens at one task id. -/
inductive StepTask (cfg : Config) (db : Db) (op : Op) (e : Event) (t : Text) :
    Option Task → Option Task → Prop where
  | absent (view : e.view t = .quiet) : StepTask cfg db op e t none none
  | create (body : CreateTaskRequest) (tenantId payloadJson : Text) (view : e.view t = .quiet) :
      StepTask cfg db op e t none (some (newTask body tenantId t payloadJson op.now.isoformat))
  | move (r r' : Task) (id : r.id = t) (h : Move cfg db op e r r') :
      StepTask cfg db op e t (some r) (some r')

theorem StepTask.of_unchanged {cfg : Config} {db : Db} {op : Op} {e : Event}
    (hview : ∀ t, e.view t = .quiet) (t : Text) :
    StepTask cfg db op e t (db.task t) (db.task t) := by
  cases h : db.task t with
  | none => exact .absent (hview t)
  | some r =>
    have hid := (Table.find_some h).2
    exact .move r r hid (.stay (by rw [hid]; exact hview t))

/-- Operations that act on each row by a function of the row. -/
theorem StepTask.of_map {cfg : Config} {db : Db} {op : Op} {e : Event} {f : Task → Task} {tasks : List Task}
    (htasks : tasks = db.tasks.map f) (hid : ∀ r, (f r).id = r.id)
    (hmove : ∀ r ∈ db.tasks, Move cfg db op e r (f r))
    (habsent : ∀ t, (∀ r ∈ db.tasks, r.id ≠ t) → e.view t = .quiet) (t : Text) :
    StepTask cfg db op e t (db.task t) (Table.find Task.id t tasks) := by
  rw [htasks, Table.find_map hid]
  cases h : db.task t with
  | none =>
    rw [show Table.find Task.id t db.tasks = none from h]
    exact .absent (habsent t (Table.find_none.mp h))
  | some r =>
    rw [show Table.find Task.id t db.tasks = some r from h]
    obtain ⟨hmem, hk⟩ := Table.find_some h
    exact .move r (f r) hk (hmove r hmem)

/-! ### The operations one by one -/

section Steps
variable {J : JsonLib} {cfg : Config} {db : Db}

theorem register_step (body : RegisterRequest) (tenantId tokenHash : Text) (now : UtcTime) (t : Text) :
    StepTask cfg db (.register body tenantId tokenHash now)
      (perform J cfg db (.register body tenantId tokenHash now)).2 t (db.task t)
      ((perform J cfg db (.register body tenantId tokenHash now)).1.task t) := by
  have htasks : (perform J cfg db (.register body tenantId tokenHash now)).1.tasks = db.tasks := by
    rcases register_cases body tenantId tokenHash now db with h | ⟨a, -, h⟩ <;>
      simp only [perform, h]
  rw [Db.task, Db.task, htasks]
  exact StepTask.of_unchanged (fun _ => rfl) t

theorem createTask_step (body : CreateTaskRequest) (tenantId taskId : Text) (now : UtcTime) (t : Text) :
    StepTask cfg db (.createTask body tenantId taskId now)
      (perform J cfg db (.createTask body tenantId taskId now)).2 t (db.task t)
      ((perform J cfg db (.createTask body tenantId taskId now)).1.task t) := by
  have hview : (perform J cfg db (.createTask body tenantId taskId now)).2.view t = .quiet := rfl
  rcases createTask_cases J body tenantId taskId now db with h | ⟨payloadJson, hnone, h⟩
  · have hdb : (perform J cfg db (.createTask body tenantId taskId now)).1 = db := by
      simp only [perform, h]
    rw [hdb]
    exact StepTask.of_unchanged (fun _ => rfl) t
  · have hdb : (perform J cfg db (.createTask body tenantId taskId now)).1.task t =
        (db.task t).or (Table.find Task.id t [newTask body tenantId taskId payloadJson now.isoformat]) := by
      simp only [perform, h, Db.task, Table.find_append]
    rw [hdb]
    by_cases ht : taskId = t
    · subst ht
      rw [show db.task taskId = none from hnone]
      simp only [Option.none_or, Table.find, List.find?_cons, newTask, decide_true]
      exact .create body tenantId payloadJson hview
    · have hf : Table.find Task.id t [newTask body tenantId taskId payloadJson now.isoformat] = none := by
        rw [Table.find_none]
        intro r hr
        rw [List.mem_singleton.mp hr]
        exact ht
      rw [hf, Option.or_none]
      exact StepTask.of_unchanged (fun _ => rfl) t

theorem claimPending_step (hu : Table.Unique Task.id db.tasks) (agent : Agent) (slots : ℤ)
    (now : UtcTime) (uuid : ℕ → Text) (t : Text) :
    StepTask cfg db (.claimPending agent slots now uuid)
      (perform J cfg db (.claimPending agent slots now uuid)).2 t (db.task t)
      ((perform J cfg db (.claimPending agent slots now uuid)).1.task t) := by
  rcases claimPending_cases J cfg agent slots now uuid hu with ⟨e, h⟩ | ⟨lease, hlease, h⟩
  · simp only [perform, h]
    exact StepTask.of_unchanged (fun _ => rfl) t
  simp only [perform, h, Db.task]
  rw [claimLoop_tasks]
  let pairs := claimPairs agent slots uuid db.tasks
  have hd : (pairs.map fun p => p.1.id).Nodup := claimPairs_nodup agent slots uuid hu
  have hother : ∀ (p : Task × Text) (r : Task), p.1.id ≠ r.id →
      (decide (r.id = p.1.id) && claimable agent.tenantId r) = false := by
    intro p r hne
    rw [decide_eq_false (Ne.symm hne), Bool.false_and]
  have hattempts : ∀ s : Text, (Event.claimPending agent slots
      (.ok (pairs.map fun p => claimedTask J lease.isoformat p.1 p.2))).view s =
        ⟨(pairs.filter fun p => decide (p.1.id = s)).map fun p => (p.2, agent.id), [], none⟩ := by
    intro s
    simp only [Event.view, Event.issued, Event.transitions, Event.accepted, List.map_map, List.filter_map,
      claimedTask, Function.comp_def, List.filter_nil, List.map_nil, Option.filter_none, Option.map_none]
  refine StepTask.of_map rfl (fun r => ?_) (fun r hr => ?_) (fun s hs => ?_) t
  · exact Table.foldl_guard_key _ (fun (p : Task × Text) r => claimRow agent now.isoformat lease.isoformat p.2 r)
      (fun _ _ => rfl) pairs r
  · by_cases hin : ∃ p ∈ pairs, p.1.id = r.id
    · obtain ⟨p, hp, hpid⟩ := hin
      obtain ⟨hpm, hpt, hps⟩ := mem_claimPairs hp
      have hpr : p.1 = r := by
        have h1 := Table.find_of_mem hu hpm
        rw [hpid, Table.find_of_mem hu hr] at h1
        exact (Option.some.inj h1).symm
      have hcl : claimable agent.tenantId r = true := by
        rw [← hpr]
        simp [claimable, hpt, hps]
      rw [Table.foldl_guard_once Task.id (fun p : Task × Text => p.1.id) _
        (fun (p : Task × Text) r => claimRow agent now.isoformat lease.isoformat p.2 r)
        hother (fun _ _ => rfl) hd hp hpid, if_pos (by simp [hpid, hcl])]
      refine Move.claim agent p.2 lease (hpr ▸ hps) hlease ?_
      rw [hattempts, ← hpid, Table.filter_key_singleton hd hp]
      rfl
    · rw [Table.foldl_guard_skip _ (fun (p : Task × Text) r => claimRow agent now.isoformat lease.isoformat p.2 r)
        pairs r (fun p hp => hother p r (fun he => hin ⟨p, hp, he⟩))]
      refine Move.stay ?_
      rw [hattempts, Table.filter_key_nil (fun p hp he => hin ⟨p, hp, he⟩)]
      rfl
  · rw [hattempts, Table.filter_key_nil (fun p hp he => hs p.1 (mem_claimPairs hp).1 he)]
    rfl

theorem heartbeat_step (agent : Agent) (body : HeartbeatRequest) (now : UtcTime) (t : Text) :
    StepTask cfg db (.heartbeat agent body now) (perform J cfg db (.heartbeat agent body now)).2 t
      (db.task t) ((perform J cfg db (.heartbeat agent body now)).1.task t) := by
  rcases heartbeat_cases cfg agent body now db with ⟨e, h⟩ | ⟨lease, hlease, -, h⟩
  · simp only [perform, h]
    exact StepTask.of_unchanged (fun _ => rfl) t
  · have htasks : (perform J cfg db (.heartbeat agent body now)).1.tasks = db.tasks.map fun r =>
        if renewedBy agent body.runningTasks r then renewRow now.isoformat lease.isoformat r else r := by
      simp only [perform, h]
    refine StepTask.of_map htasks (fun r => ?_) (fun r _ => ?_) (fun _ _ => rfl) t
    · exact Table.update_key (renewRow_id now.isoformat lease.isoformat) r
    · split_ifs with hren
      · obtain ⟨x, -, hx⟩ := List.any_eq_true.mp hren
        exact Move.renew lease (holdsAttempt_iff.mp hx).2.2.2.2 hlease rfl
      · exact Move.stay rfl

theorem submitResult_step (hu : Table.Unique Task.id db.tasks) (agent : Agent) (taskId : Text)
    (body : TaskResultRequest) (now : UtcTime) (t : Text) :
    StepTask cfg db (.submitResult agent taskId body now)
      (perform J cfg db (.submitResult agent taskId body now)).2 t (db.task t)
      ((perform J cfg db (.submitResult agent taskId body now)).1.task t) := by
  rcases submitResult_cases J agent taskId body now db with
    ⟨e, h⟩ | ⟨row, -, -, -, -, -, h⟩ | ⟨row, hmem, encoded, hheld, h⟩
  · simp only [perform, h]
    exact StepTask.of_unchanged (fun _ => rfl) t
  · simp only [perform, h]
    exact StepTask.of_unchanged (fun _ => rfl) t
  · have hview : ∀ s, (perform J cfg db (.submitResult agent taskId body now)).2.view s =
        ⟨[], [], if taskId = s then some (body.attemptId, agent.id) else none⟩ := by
      intro s
      simp only [perform, h]
      by_cases hs : taskId = s <;>
        simp [Event.view, Event.issued, Event.transitions, Event.accepted, Option.filter, hs]
    have htasks : (perform J cfg db (.submitResult agent taskId body now)).1.tasks =
        db.tasks.map fun r => if holdsAttempt agent taskId body.attemptId r then
          completeRow body encoded now.isoformat r else r := by
      simp only [perform, h]
      rfl
    have hid := (holdsAttempt_iff.mp hheld).1
    refine StepTask.of_map htasks (fun r => ?_) (fun r hr => ?_) (fun s hs => ?_) t
    · exact Table.update_key (completeRow_id body encoded now.isoformat) r
    · split_ifs with hr'
      · have hrid := (holdsAttempt_iff.mp hr').1
        refine Move.complete agent body encoded (hrid ▸ hr') ?_
        rw [hview, if_pos hrid.symm]
      · refine Move.stay ?_
        -- the row the statement completes is the only one with this id
        have hne : ¬ taskId = r.id := by
          intro he
          have h1 := Table.find_of_mem hu hr
          rw [← he, ← hid, Table.find_of_mem hu hmem] at h1
          rw [← Option.some.inj h1] at hr'
          exact hr' hheld
        rw [hview, if_neg hne]
        rfl
    · have hne : ¬ taskId = s := by
        intro he
        exact hs row hmem (hid.trans he)
      rw [hview, if_neg hne]
      rfl

theorem expireStaleAgents_step (now : UtcTime) (t : Text) :
    StepTask cfg db (.expireStaleAgents now) (perform J cfg db (.expireStaleAgents now)).2 t
      (db.task t) ((perform J cfg db (.expireStaleAgents now)).1.task t) := by
  have hview : ∀ s, (perform J cfg db (.expireStaleAgents now)).2.view s = .quiet := fun _ => rfl
  have hdb : (perform J cfg db (.expireStaleAgents now)).1 = (expireStaleAgents cfg now db).2 := rfl
  rw [hdb]
  rcases expireStaleAgents_cases cfg now db with h | ⟨cutoff, hc, h⟩
  · rw [h]
    exact StepTask.of_unchanged hview t
  rw [h]
  rcases expireBlock_cases cutoff.isoformat now.isoformat db with h | ⟨h, -⟩
  · rw [h]
    exact StepTask.of_unchanged hview t
  · refine StepTask.of_map h (fun r => ?_) (fun r _ => ?_) (fun s _ => hview s) t
    · exact Table.update_key (expireLease_id now.isoformat) r
    · split_ifs with hheld
      · exact Move.expire cutoff hc hheld (hview _)
      · exact Move.stay (hview _)

theorem reapExpiredTasks_step (hu : Table.Unique Task.id db.tasks) (now : UtcTime) (t : Text) :
    StepTask cfg db (.reapExpiredTasks now) (perform J cfg db (.reapExpiredTasks now)).2 t
      (db.task t) ((perform J cfg db (.reapExpiredTasks now)).1.task t) := by
  let rows := Table.select (leaseExpired now.isoformat) Task.before db.tasks
  have hd : (rows.map Task.id).Nodup := Table.select_unique hu
  have hview : ∀ s, (perform J cfg db (.reapExpiredTasks now)).2.view s =
      ⟨[], (rows.filter fun r => decide (r.id = s)).map fun r => (reapTransition cfg r).status, none⟩ := by
    intro s
    simp only [perform, reapExpiredTasks, Event.view, Event.issued, Event.transitions, Event.accepted,
      List.filter_map, List.map_map, Function.comp_def, reapTransition_taskId, List.filter_nil, List.map_nil,
      Option.filter_none, Option.map_none, rows]
  refine StepTask.of_map (reapLoop_select cfg now.isoformat hu) (fun r => ?_) (fun r hr => ?_) (fun s hs => ?_) t
  · exact Table.update_key (fun r => reapRow_id cfg now.isoformat r r) r
  · split_ifs with hexp
    · have hone : (rows.filter fun x => decide (x.id = r.id)) = [r] :=
        Table.filter_key_singleton hd (Table.mem_select.mpr ⟨hr, hexp⟩)
      unfold reapRow
      split_ifs with hleft
      · refine Move.requeue hexp hleft ?_
        rw [hview, hone]
        simp [reapTransition, hleft]
      · refine Move.fail hexp hleft ?_
        rw [hview, hone]
        simp [reapTransition, hleft]
    · refine Move.stay ?_
      rw [hview, Table.filter_key_nil]
      · rfl
      · intro x hx he
        obtain ⟨hxm, hxe⟩ := Table.mem_select.mp hx
        have h1 := Table.find_of_mem hu hxm
        rw [he, Table.find_of_mem hu hr] at h1
        rw [Option.some.inj h1] at hexp
        exact hexp hxe
  · rw [hview, Table.filter_key_nil (fun x hx he => hs x (Table.mem_select.mp hx).1 he)]
    rfl

variable (J cfg) in
theorem stepTask (hu : Table.Unique Task.id db.tasks) (op : Op) (t : Text) :
    StepTask cfg db op (perform J cfg db op).2 t (db.task t) ((perform J cfg db op).1.task t) := by
  cases op with
  | register body tenantId tokenHash now => exact register_step body tenantId tokenHash now t
  | createTask body tenantId taskId now => exact createTask_step body tenantId taskId now t
  | claimPending agent slots now uuid => exact claimPending_step hu agent slots now uuid t
  | heartbeat agent body now => exact heartbeat_step agent body now t
  | submitResult agent taskId body now => exact submitResult_step hu agent taskId body now t
  | expireStaleAgents now => exact expireStaleAgents_step now t
  | reapExpiredTasks now => exact reapExpiredTasks_step hu now t

theorem perform_unique (hu : Table.Unique Task.id db.tasks) (op : Op) :
    Table.Unique Task.id (perform J cfg db op).1.tasks := by
  cases op with
  | register body tenantId tokenHash now =>
    rcases register_cases body tenantId tokenHash now db with h | ⟨a, -, h⟩ <;>
      simpa only [perform, h] using hu
  | createTask body tenantId taskId now =>
    rcases createTask_cases J body tenantId taskId now db with h | ⟨payloadJson, hnone, h⟩
    · simpa only [perform, h] using hu
    · simp only [perform, h]
      exact Table.unique_snoc hu hnone
  | claimPending agent slots now uuid =>
    rcases claimPending_cases J cfg agent slots now uuid hu with ⟨e, h⟩ | ⟨lease, -, h⟩
    · simpa only [perform, h] using hu
    · simp only [perform, h, claimLoop_tasks]
      exact Table.unique_map (fun r => Table.foldl_guard_key _
        (fun (p : Task × Text) r => claimRow agent now.isoformat lease.isoformat p.2 r) (fun _ _ => rfl) _ r) hu
  | heartbeat agent body now =>
    rcases heartbeat_cases cfg agent body now db with ⟨e, h⟩ | ⟨lease, -, -, h⟩
    · simpa only [perform, h] using hu
    · simp only [perform, h]
      exact Table.unique_map (Table.update_key (renewRow_id now.isoformat lease.isoformat)) hu
  | submitResult agent taskId body now =>
    rcases submitResult_cases J agent taskId body now db with
      ⟨e, h⟩ | ⟨row, -, -, -, -, -, h⟩ | ⟨row, -, encoded, -, h⟩
    · simpa only [perform, h] using hu
    · simpa only [perform, h] using hu
    · simp only [perform, h]
      exact Table.unique_map (Table.update_key (completeRow_id body encoded now.isoformat)) hu
  | expireStaleAgents now =>
    have hdb : (perform J cfg db (.expireStaleAgents now)).1 = (expireStaleAgents cfg now db).2 := rfl
    rw [hdb]
    rcases expireStaleAgents_cases cfg now db with h | ⟨cutoff, -, h⟩
    · rw [h]
      exact hu
    rw [h]
    rcases expireBlock_cases cutoff.isoformat now.isoformat db with h | ⟨h, -⟩
    · rw [h]
      exact hu
    · rw [h]
      exact Table.unique_map (Table.update_key (expireLease_id now.isoformat)) hu
  | reapExpiredTasks now =>
    simp only [perform, reapExpiredTasks, reapLoop_select cfg now.isoformat hu]
    exact Table.unique_map (Table.update_key (fun r => reapRow_id cfg now.isoformat r r)) hu

end Steps

theorem run_unique (J : JsonLib) (cfg : Config) (ops : List Op) :
    Table.Unique Task.id ((system J cfg).run Db.empty ops).tasks :=
  (system J cfg).run_invariant (P := fun db => Table.Unique Task.id db.tasks)
    (fun _ op hu => perform_unique hu op) Db.empty ops List.nodup_nil

end AgentWorkflow.ControlPlane
