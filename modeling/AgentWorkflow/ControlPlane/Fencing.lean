import AgentWorkflow.ControlPlane.Lifecycle

/-!
# Attempt fencing and bounded claims

The row of a task agrees with the history of the run: its attempt columns hold
the attempt issued last, its retry count is the number of attempts issued
before, and a running row was neither claimed nor reaped since. Fencing, the
bound on attempts and the exclusiveness of claims follow.
-/

namespace AgentWorkflow.ControlPlane
open AgentWorkflow.Lib AgentWorkflow.Lib.Calendar

/-! ### Reading a history -/

def issuedFor (h : List Event) (t : Text) : List (Text × ℕ) := h.flatMap fun e => (e.view t).attempts

def acceptedFor (h : List Event) (t : Text) : List (Text × ℕ) := h.filterMap fun e => (e.view t).accepted

def lastIssued (h : List Event) (t : Text) : Option (Text × ℕ) := (issuedFor h t).getLast?

theorem mem_attempts {e : Event} {t x : Text} {a : ℕ} :
    (x, a) ∈ (e.view t).attempts ↔ (t, x, a) ∈ e.issued := by
  simp only [Event.view, List.mem_map, List.mem_filter, decide_eq_true_eq]
  constructor
  · rintro ⟨⟨s, y, b⟩, ⟨hm, rfl⟩, he⟩
    cases he
    exact hm
  · intro hm
    exact ⟨(t, x, a), ⟨hm, rfl⟩, rfl⟩

theorem mem_reaped {e : Event} {t : Text} {s : TaskStatus} :
    s ∈ (e.view t).reaped ↔ ∃ x ∈ e.transitions, x.taskId = t ∧ x.status = s := by
  simp only [Event.view, List.mem_map, List.mem_filter, decide_eq_true_eq, and_assoc]

theorem accepted_view {e : Event} {t x : Text} {a : ℕ} (h : e.accepted = some (t, x, a)) :
    (e.view t).accepted = some (x, a) := by
  simp [Event.view, h, Option.filter]

theorem accepted_of_view {e : Event} {t x : Text} {a : ℕ} (h : (e.view t).accepted = some (x, a)) :
    e.accepted = some (t, x, a) := by
  simp only [Event.view, Option.map_eq_some_iff, Option.filter_eq_some_iff] at h
  obtain ⟨⟨s, y⟩, ⟨hacc, hs⟩, rfl⟩ := h
  rw [hacc, ← of_decide_eq_true hs]

theorem issuedFor_snoc (h : List Event) (e : Event) (t : Text) :
    issuedFor (h ++ [e]) t = issuedFor h t ++ (e.view t).attempts := by
  simp [issuedFor]

theorem acceptedFor_snoc (h : List Event) (e : Event) (t : Text) :
    acceptedFor (h ++ [e]) t = acceptedFor h t ++ (e.view t).accepted.toList := by
  cases hv : (e.view t).accepted <;> simp [acceptedFor, hv]

theorem lastIssued_snoc_nil {h : List Event} {e : Event} {t : Text} (he : (e.view t).attempts = []) :
    lastIssued (h ++ [e]) t = lastIssued h t := by
  rw [lastIssued, issuedFor_snoc, he, List.append_nil]
  rfl

theorem lastIssued_snoc {h : List Event} {e : Event} {t x : Text} {a : ℕ}
    (he : (e.view t).attempts = [(x, a)]) : lastIssued (h ++ [e]) t = some (x, a) := by
  rw [lastIssued, issuedFor_snoc, he]
  simp

/-- A claim or a reap of the task. -/
def Event.touches (t : Text) (e : Event) : Prop := (e.view t).attempts ≠ [] ∨ (e.view t).reaped ≠ []

/-! ### The row and the history -/

/-- What the row of task `t` says about the history `h`. -/
structure Recorded (h : List Event) (t : Text) (r : Task) : Prop where
  pending : r.status = .pending → (issuedFor h t).length = r.retryCount
  issued : r.status ≠ .pending → (issuedFor h t).length = r.retryCount + 1 ∧
    ∃ x a, r.attemptId = some x ∧ r.assignedAgentId = some a ∧ lastIssued h t = some (x, a)
  running : r.status = .running → ∀ x a, r.attemptId = some x → r.assignedAgentId = some a →
    Since (fun e => (e.view t).attempts = [(x, a)]) (Event.touches t) h
  unaccepted : r.status = .pending ∨ r.status = .running → acceptedFor h t = []
  once : (acceptedFor h t).length ≤ 1

theorem Recorded.quiet {h : List Event} {t : Text} {r r' : Task} {e : Event} (hr : Recorded h t r)
    (hview : e.view t = .quiet) (hst : r'.status = r.status) (hatt : r'.attemptId = r.attemptId)
    (hag : r'.assignedAgentId = r.assignedAgentId) (hret : r'.retryCount = r.retryCount) :
    Recorded (h ++ [e]) t r' := by
  have hnil : (e.view t).attempts = [] := by rw [hview]; rfl
  have hacc : acceptedFor (h ++ [e]) t = acceptedFor h t := by
    rw [acceptedFor_snoc, hview]
    exact List.append_nil _
  have hiss : issuedFor (h ++ [e]) t = issuedFor h t := by rw [issuedFor_snoc, hnil, List.append_nil]
  refine ⟨?_, ?_, ?_, ?_, ?_⟩
  · rw [hst, hiss, hret]
    exact hr.pending
  · rw [hst, hiss, hret, hatt, hag, lastIssued_snoc_nil hnil]
    exact hr.issued
  · rw [hst, hatt, hag]
    intro hrun x a hx ha
    refine since_snoc (hr.running hrun x a hx ha) ?_
    simp [Event.touches, hview, View.quiet]
  · rw [hst, hacc]
    exact hr.unaccepted
  · rw [hacc]
    exact hr.once

theorem Recorded.claimed {h : List Event} {t : Text} {r : Task} {e : Event} (hr : Recorded h t r)
    (hp : r.status = .pending) (agent : Agent) (now lease x : Text)
    (hview : e.view t = ⟨[(x, agent.id)], [], none⟩) :
    Recorded (h ++ [e]) t (claimRow agent now lease x r) := by
  have hatt : (e.view t).attempts = [(x, agent.id)] := by rw [hview]
  have hacc : acceptedFor (h ++ [e]) t = [] := by
    rw [acceptedFor_snoc, hview, hr.unaccepted (Or.inl hp)]
    rfl
  refine ⟨fun hs => ?_, fun _ => ⟨?_, x, agent.id, rfl, rfl, lastIssued_snoc hatt⟩, ?_, fun _ => hacc, ?_⟩
  · cases hs
  · rw [issuedFor_snoc, hatt, List.length_append, hr.pending hp]
    rfl
  · intro _ y b hy hb
    cases hy
    cases hb
    exact since_snoc_self h hatt
  · rw [hacc]
    exact Nat.zero_le _

/-- A reap or a completion ends the attempt without issuing one. -/
theorem Recorded.ended {h : List Event} {t : Text} {r r' : Task} {e : Event} (hr : Recorded h t r)
    (hrun : r.status = .running) (hnil : (e.view t).attempts = [])
    (hfin : r'.status = .pending ∧ (e.view t).accepted = none ∧ r'.retryCount = r.retryCount + 1 ∨
      (r'.status = .success ∨ r'.status = .failed) ∧ r'.attemptId = r.attemptId ∧
        r'.assignedAgentId = r.assignedAgentId ∧ r'.retryCount = r.retryCount) :
    Recorded (h ++ [e]) t r' := by
  have hne : r.status ≠ .pending := by rw [hrun]; decide
  obtain ⟨hlen, x, a, hx, ha, hlast⟩ := hr.issued hne
  have hiss : issuedFor (h ++ [e]) t = issuedFor h t := by rw [issuedFor_snoc, hnil, List.append_nil]
  have hacc : acceptedFor (h ++ [e]) t = (e.view t).accepted.toList := by
    rw [acceptedFor_snoc, hr.unaccepted (Or.inr hrun), List.nil_append]
  have honce : (acceptedFor (h ++ [e]) t).length ≤ 1 := by
    rw [hacc]
    cases (e.view t).accepted <;> simp
  rcases hfin with ⟨hp, hnone, hret⟩ | ⟨hterm, hatt, hag, hret⟩
  · refine ⟨fun _ => ?_, fun hn => absurd hp hn, fun hr' => ?_, fun _ => ?_, honce⟩
    · rw [hiss, hlen, hret]
    · rw [hp] at hr'
      cases hr'
    · rw [hacc, hnone]
      rfl
  · have hnot : r'.status ≠ .pending ∧ r'.status ≠ .running := by
      rcases hterm with ht | ht <;> rw [ht] <;> decide
    refine ⟨fun hp => absurd hp hnot.1, fun _ => ⟨?_, x, a, ?_, ?_, ?_⟩, fun hr' => absurd hr' hnot.2,
      fun hs => ?_, honce⟩
    · rw [hiss, hlen, hret]
    · rw [hatt, hx]
    · rw [hag, ha]
    · rw [lastIssued_snoc_nil hnil, hlast]
    · rcases hs with hs | hs
      · exact absurd hs hnot.1
      · exact absurd hs hnot.2

theorem Move.recorded {cfg : Config} {db : Db} {op : Op} {e : Event} {r r' : Task} {h : List Event}
    (hm : Move cfg db op e r r') (hr : Recorded h r.id r) : Recorded (h ++ [e]) r.id r' := by
  cases hm with
  | stay view => exact hr.quiet view rfl rfl rfl rfl
  | renew lease _ _ view => exact hr.quiet view rfl rfl rfl rfl
  | expire cutoff _ _ view => exact hr.quiet view rfl rfl rfl rfl
  | claim agent attempt lease hp _ view => exact hr.claimed hp agent _ _ attempt view
  | complete agent body encoded hheld view =>
    refine hr.ended (holdsAttempt_iff.mp hheld).2.2.2.2 (by rw [view]) (Or.inr ⟨?_, rfl, rfl, rfl⟩)
    exact terminalStatus_cases body.status
  | requeue hexp _ view =>
    exact hr.ended (leaseExpired_running hexp) (by rw [view]) (Or.inl ⟨rfl, by rw [view], rfl⟩)
  | fail hexp _ view =>
    exact hr.ended (leaseExpired_running hexp) (by rw [view]) (Or.inr ⟨Or.inr rfl, rfl, rfl, rfl⟩)

structure Db.Recorded (h : List Event) (db : Db) : Prop where
  unique : Table.Unique Task.id db.tasks
  absent : ∀ t, db.task t = none → issuedFor h t = [] ∧ acceptedFor h t = []
  rows : ∀ t r, db.task t = some r → ControlPlane.Recorded h t r

theorem newTask_recorded {h : List Event} {t : Text} {e : Event} (body : CreateTaskRequest)
    (tenantId payloadJson now : Text) (hi : issuedFor h t = []) (ha : acceptedFor h t = [])
    (view : e.view t = .quiet) : Recorded (h ++ [e]) t (newTask body tenantId t payloadJson now) := by
  have hacc : acceptedFor (h ++ [e]) t = [] := by
    rw [acceptedFor_snoc, ha, view]
    rfl
  refine ⟨fun _ => ?_, fun hn => absurd rfl hn, fun hr => ?_, fun _ => hacc, ?_⟩
  · rw [issuedFor_snoc, hi, view]
    rfl
  · cases hr
  · rw [hacc]
    exact Nat.zero_le _

theorem perform_recorded (J : JsonLib) (cfg : Config) {h : List Event} {db : Db} (hdb : db.Recorded h)
    (op : Op) : (perform J cfg db op).1.Recorded (h ++ [(perform J cfg db op).2]) := by
  have hstep := stepTask J cfg hdb.unique op
  refine ⟨perform_unique hdb.unique op, fun t ht => ?_, fun t r' hr' => ?_⟩
  · have hs := hstep t
    rw [ht] at hs
    generalize hb : db.task t = before at hs
    cases hs with
    | absent view =>
      obtain ⟨hi, ha⟩ := hdb.absent t hb
      rw [issuedFor_snoc, acceptedFor_snoc, hi, ha, view]
      exact ⟨rfl, rfl⟩
  · have hs := hstep t
    rw [hr'] at hs
    generalize hb : db.task t = before at hs
    cases hs with
    | create body tenantId payloadJson view =>
      obtain ⟨hi, ha⟩ := hdb.absent t hb
      exact newTask_recorded body tenantId payloadJson _ hi ha view
    | move r _ hid hm =>
      have hrow := hdb.rows t r hb
      rw [← hid] at hrow ⊢
      exact hm.recorded hrow

theorem run_recorded (J : JsonLib) (cfg : Config) (ops : List Op) :
    ((system J cfg).run Db.empty ops).Recorded ((system J cfg).trace Db.empty ops) := by
  refine (system J cfg).history_invariant (P := fun h db => Db.Recorded h db) ?_ ?_ ops
  · refine ⟨List.nodup_nil, fun t _ => ⟨rfl, rfl⟩, fun t r h => ?_⟩
    cases h
  · intro h db op hdb
    exact perform_recorded J cfg hdb op

/-! ### Fencing -/

theorem Move.accepted {cfg : Config} {db : Db} {op : Op} {e : Event} {r r' : Task} {x : Text} {a : ℕ}
    (hm : Move cfg db op e r r') (hacc : (e.view r.id).accepted = some (x, a)) :
    r.status = .running ∧ r.attemptId = some x ∧ r.assignedAgentId = some a := by
  cases hm with
  | stay view => rw [view] at hacc; cases hacc
  | renew lease _ _ view => rw [view] at hacc; cases hacc
  | expire cutoff _ _ view => rw [view] at hacc; cases hacc
  | claim agent attempt lease _ _ view => rw [view] at hacc; cases hacc
  | complete agent body encoded hheld view =>
    rw [view] at hacc
    cases hacc
    obtain ⟨-, -, hag, hatt, hrun⟩ := holdsAttempt_iff.mp hheld
    exact ⟨hrun, hatt, hag⟩
  | requeue _ _ view => rw [view] at hacc; cases hacc
  | fail _ _ view => rw [view] at hacc; cases hacc

/-- An accepted result belongs to the claim issued last, and no reap of the
task came in between. -/
theorem accepted_since_claim (J : JsonLib) (cfg : Config) {h : List Event} {db : Db} (hdb : db.Recorded h)
    (op : Op) {t x : Text} {a : ℕ} (hacc : (perform J cfg db op).2.accepted = some (t, x, a)) :
    Since (fun e => (e.view t).attempts = [(x, a)]) (Event.touches t) h := by
  have hview := accepted_view hacc
  have hs := stepTask J cfg hdb.unique op t
  generalize hb : db.task t = before at hs
  generalize (perform J cfg db op).1.task t = after at hs
  cases hs with
  | absent view => rw [view] at hview; cases hview
  | create body tenantId payloadJson view => rw [view] at hview; cases hview
  | move r r' hid hm =>
    obtain ⟨hrun, hx, ha⟩ := hm.accepted (hid ▸ hview)
    exact (hdb.rows t r hb).running hrun x a hx ha

/-- The attempt columns of a row are the ones issued last. -/
theorem attempt_eq_lastIssued {cfg : Config} {h : List Event} {db : Db} (hc : db.Consistent cfg)
    (hdb : db.Recorded h) {r : Task} (hr : r ∈ db.tasks) {x : Text} {a : ℕ}
    (hx : r.attemptId = some x) (ha : r.assignedAgentId = some a) : lastIssued h r.id = some (x, a) := by
  have hfind : db.task r.id = some r := Table.find_of_mem hc.1 hr
  have hne : r.status ≠ .pending := by
    intro hp
    have hnone := ((hc.2 r.id r hfind).pending hp).2.1
    rw [hx] at hnone
    cases hnone
  obtain ⟨-, y, b, hy, hb, hlast⟩ := (hdb.rows r.id r hfind).issued hne
  rw [hx] at hy
  rw [ha] at hb
  cases hy
  cases hb
  exact hlast

theorem submitResult_other {J : JsonLib} {cfg : Config} {h : List Event} {db : Db} (hc : db.Consistent cfg)
    (hdb : db.Recorded h) (agent : Agent) (t : Text) (body : TaskResultRequest) (now : UtcTime)
    (hother : lastIssued h t ≠ some (body.attemptId, agent.id)) :
    ∃ err, submitResult J agent t body now db = (.error err, db) := by
  rcases submitResult_cases J agent t body now db with
    herr | ⟨row, hmem, rfl, -, hag, hatt, -⟩ | ⟨row, hmem, encoded, hheld, -⟩
  · exact herr
  · exact absurd (attempt_eq_lastIssued hc hdb hmem hatt hag) hother
  · obtain ⟨rfl, -, hag, hatt, -⟩ := holdsAttempt_iff.mp hheld
    exact absurd (attempt_eq_lastIssued hc hdb hmem hatt hag) hother

theorem holdsAttempt_other {cfg : Config} {h : List Event} {db : Db} (hc : db.Consistent cfg)
    (hdb : db.Recorded h) {agent : Agent} {x : RunningTaskRef}
    (hother : lastIssued h x.taskId ≠ some (x.attemptId, agent.id)) (r : Task) (hr : r ∈ db.tasks) :
    holdsAttempt agent x.taskId x.attemptId r = false := by
  rw [Bool.eq_false_iff]
  intro hheld
  obtain ⟨hid, -, hag, hatt, -⟩ := holdsAttempt_iff.mp hheld
  exact hother (hid ▸ attempt_eq_lastIssued hc hdb hr hatt hag)

/-- An entry that matches no row is rejected and acts as if it were not in the
list. -/
theorem heartbeat_entry_skip (cfg : Config) {agent : Agent} {body : HeartbeatRequest} {db : Db}
    (now : UtcTime) {pre post : List RunningTaskRef} {x : RunningTaskRef} {reply : HeartbeatReply}
    (hbody : body.runningTasks = pre ++ x :: post)
    (hskip : ∀ r ∈ db.tasks, holdsAttempt agent x.taskId x.attemptId r = false)
    (hok : (heartbeat cfg agent body now db).1 = .ok reply) :
    x.taskId ∈ reply.rejectedTasks ∧ (heartbeat cfg agent body now db).2 =
      (heartbeat cfg agent { body with runningTasks := pre ++ post } now db).2 := by
  rcases heartbeat_cases cfg agent body now db with ⟨e, h⟩ | ⟨lease, hlease, h1, h2⟩
  · rw [h] at hok
    cases hok
  have hbusy : body.status = .busy := by
    by_contra hb
    have hne : body.runningTasks ≠ [] := by rw [hbody]; simp
    unfold heartbeat at hok
    rw [if_pos ⟨hb, hne⟩] at hok
    cases hok
  rw [h1] at hok
  cases hok
  refine ⟨?_, ?_⟩
  · have hren : renews agent db.tasks x = false := by
      rw [renews, List.any_eq_false]
      intro r hr
      rw [hskip r hr]
      exact Bool.false_ne_true
    refine List.mem_map.mpr ⟨x, List.mem_filter.mpr ⟨?_, by rw [hren]; rfl⟩, rfl⟩
    rw [hbody]
    simp
  · have hmap : (db.tasks.map fun r => if renewedBy agent (pre ++ x :: post) r then
          renewRow now.isoformat lease.isoformat r else r) =
        db.tasks.map fun r => if renewedBy agent (pre ++ post) r then
          renewRow now.isoformat lease.isoformat r else r := by
      apply List.map_congr_left
      intro r hr
      simp only [renewedBy, List.any_append, List.any_cons, hskip r hr, Bool.false_or]
    have hnot : ¬ (body.status ≠ .busy ∧ pre ++ post ≠ []) := fun hn => hn.1 hbusy
    rw [h2, hbody, hmap]
    simp only [heartbeat, if_neg hnot, hlease, transaction, beatLoop_eq]
    rfl

/-- Attempt fencing over any interleaving of the operations. Each task has at
most one accepted result; an accepted result carries the attempt the last claim
issued, comes from the agent that claim was issued to, and no reap of the task
lies in between. A result or a heartbeat entry that names another triple fails
or is rejected and changes nothing. -/
theorem attempt_fencing (J : JsonLib) (cfg : Config) (ops : List Op) :
    (∀ t, (acceptedFor ((system J cfg).trace Db.empty ops) t).length ≤ 1) ∧
    (∀ pre e post t x a, (system J cfg).trace Db.empty ops = pre ++ e :: post →
      e.accepted = some (t, x, a) →
      ∃ before c between, pre = before ++ c :: between ∧ (t, x, a) ∈ c.issued ∧
        ∀ d ∈ between, (∀ y b, (t, y, b) ∉ d.issued) ∧ ∀ tr ∈ d.transitions, tr.taskId ≠ t) ∧
    (∀ agent t body now,
      lastIssued ((system J cfg).trace Db.empty ops) t ≠ some (body.attemptId, agent.id) →
      ∃ err, submitResult J agent t body now ((system J cfg).run Db.empty ops) =
        (.error err, (system J cfg).run Db.empty ops)) ∧
    (∀ agent body now pre x post reply, body.runningTasks = pre ++ x :: post →
      lastIssued ((system J cfg).trace Db.empty ops) x.taskId ≠ some (x.attemptId, agent.id) →
      (heartbeat cfg agent body now ((system J cfg).run Db.empty ops)).1 = .ok reply →
      x.taskId ∈ reply.rejectedTasks ∧
        (heartbeat cfg agent body now ((system J cfg).run Db.empty ops)).2 =
          (heartbeat cfg agent { body with runningTasks := pre ++ post } now
            ((system J cfg).run Db.empty ops)).2) := by
  have hrec := run_recorded J cfg ops
  have hcon := run_consistent J cfg ops
  refine ⟨fun t => ?_, fun pre e post t x a htrace hacc => ?_, fun agent t body now hother => ?_,
    fun agent body now pre x post reply hbody hother hok => ?_⟩
  · cases ht : ((system J cfg).run Db.empty ops).task t with
    | none => rw [(hrec.absent t ht).2]; exact Nat.zero_le _
    | some r => exact (hrec.rows t r ht).once
  · obtain ⟨ops₁, op, ops₂, -, hpre, he, -⟩ := (system J cfg).trace_split htrace
    rw [he] at hacc
    obtain ⟨before, c, between, hsplit, hc, hbetween⟩ :=
      accepted_since_claim J cfg (run_recorded J cfg ops₁) op hacc
    refine ⟨before, c, between, hpre.trans hsplit, mem_attempts.mp (by rw [hc]; simp), fun d hd => ?_⟩
    have hnot := hbetween d hd
    rw [Event.touches, not_or, not_not, not_not] at hnot
    refine ⟨fun y b hy => ?_, fun tr htr hid => ?_⟩
    · have hy' := mem_attempts.mpr hy
      rw [hnot.1] at hy'
      cases hy'
    · have hr' := mem_reaped.mpr ⟨tr, htr, hid, rfl⟩
      rw [hnot.2] at hr'
      cases hr'
  · exact submitResult_other hcon hrec agent t body now hother
  · exact heartbeat_entry_skip cfg now hbody (holdsAttempt_other hcon hrec hother) hok

/-! ### Claims -/

theorem claimPending_claimed {J : JsonLib} {cfg : Config} {agent : Agent} {slots : ℤ} {now : UtcTime}
    {uuid : ℕ → Text} {db : Db} (hu : Table.Unique Task.id db.tasks) {claimed : List ClaimedTask}
    (hok : (claimPending J cfg agent slots now uuid db).1 = .ok claimed) :
    claimed.map ClaimedTask.id =
      (oldestPending agent.tenantId (claimLimit slots) db.tasks).map Task.id := by
  rcases claimPending_cases J cfg agent slots now uuid hu with ⟨e, h⟩ | ⟨lease, -, h⟩
  · rw [h] at hok
    cases hok
  · rw [h] at hok
    cases hok
    rw [← claimPairs_map_fst agent slots uuid, List.map_map, List.map_map]
    rfl

theorem Move.leaves_pending {cfg : Config} {db : Db} {op : Op} {e : Event} {r r' : Task}
    (hm : Move cfg db op e r r') (hr : r.status ≠ .pending) :
    r'.status ≠ .pending ∨ .pending ∈ (e.view r.id).reaped := by
  cases hm with
  | stay _ => exact Or.inl hr
  | renew lease _ _ _ => exact Or.inl hr
  | expire cutoff _ _ _ => exact Or.inl hr
  | claim agent attempt lease hp _ _ => exact absurd hp hr
  | complete agent body encoded _ _ =>
    left
    rcases terminalStatus_cases body.status with ht | ht <;> simp [completeRow, ht]
  | requeue _ _ view =>
    right
    rw [view]
    exact List.mem_singleton.mpr rfl
  | fail _ _ _ => exact Or.inl (by simp [failExhausted])

theorem Move.issues {cfg : Config} {db : Db} {op : Op} {e : Event} {r r' : Task}
    (hm : Move cfg db op e r r') (hiss : (e.view r.id).attempts ≠ []) :
    r.status = .pending ∧ r'.status = .running := by
  cases hm with
  | stay view => exact absurd (by rw [view]; rfl) hiss
  | renew lease _ _ view => exact absurd (by rw [view]; rfl) hiss
  | expire cutoff _ _ view => exact absurd (by rw [view]; rfl) hiss
  | claim agent attempt lease hp _ _ => exact ⟨hp, rfl⟩
  | complete agent body encoded _ view => exact absurd (by rw [view]) hiss
  | requeue _ _ view => exact absurd (by rw [view]) hiss
  | fail _ _ view => exact absurd (by rw [view]) hiss

theorem perform_issues (J : JsonLib) (cfg : Config) {db : Db} (hu : Table.Unique Task.id db.tasks)
    (op : Op) {t : Text} (hiss : ((perform J cfg db op).2.view t).attempts ≠ []) :
    (∃ r, db.task t = some r ∧ r.status = .pending) ∧
    ∃ r', (perform J cfg db op).1.task t = some r' ∧ r'.status = .running := by
  have hs := stepTask J cfg hu op t
  generalize db.task t = before at hs ⊢
  generalize (perform J cfg db op).1.task t = after at hs ⊢
  cases hs with
  | absent view => exact absurd (by rw [view]; rfl) hiss
  | create body tenantId payloadJson view => exact absurd (by rw [view]; rfl) hiss
  | move r r' hid hm =>
    obtain ⟨h1, h2⟩ := hm.issues (hid ▸ hiss)
    exact ⟨⟨r, rfl, h1⟩, r', rfl, h2⟩

/-- A task that is not pending stays so until a reap requeues it. -/
theorem run_not_pending (J : JsonLib) (cfg : Config) {db : Db} (hu : Table.Unique Task.id db.tasks)
    {t : Text} {r : Task} (hr : db.task t = some r) (hp : r.status ≠ .pending) (ops : List Op) :
    Table.Unique Task.id ((system J cfg).run db ops).tasks ∧
    ((∃ d ∈ (system J cfg).trace db ops, .pending ∈ (d.view t).reaped) ∨
      ∃ r', ((system J cfg).run db ops).task t = some r' ∧ r'.status ≠ .pending) := by
  refine (system J cfg).history_invariant (P := fun h db' => Table.Unique Task.id db'.tasks ∧
    ((∃ d ∈ h, .pending ∈ (d.view t).reaped) ∨ ∃ r', db'.task t = some r' ∧ r'.status ≠ .pending))
    ⟨hu, Or.inr ⟨r, hr, hp⟩⟩ ?_ ops
  intro h db' op hinv
  obtain ⟨hu', hinv⟩ := hinv
  refine ⟨perform_unique hu' op, ?_⟩
  rcases hinv with ⟨d, hd, hreap⟩ | ⟨r', hr', hp'⟩
  · exact Or.inl ⟨d, List.mem_append_left _ hd, hreap⟩
  · have hs := stepTask J cfg hu' op t
    rw [hr'] at hs
    show (∃ d ∈ h ++ [(perform J cfg db' op).2], _) ∨ ∃ r', (perform J cfg db' op).1.task t = some r' ∧ _
    generalize (perform J cfg db' op).1.task t = after at hs ⊢
    cases hs with
    | move _ r'' hid hm =>
      rcases hm.leaves_pending hp' with hst | hst
      · exact Or.inr ⟨r'', rfl, hst⟩
      · exact Or.inl ⟨_, by simp, hid ▸ hst⟩

theorem requeued_between_claims (J : JsonLib) (cfg : Config) (ops : List Op) {pre mid post : List Event}
    {c₁ c₂ : Event} {t : Text} (htrace : (system J cfg).trace Db.empty ops = pre ++ c₁ :: (mid ++ c₂ :: post))
    (h₁ : (c₁.view t).attempts ≠ []) (h₂ : (c₂.view t).attempts ≠ []) :
    ∃ d ∈ mid, .pending ∈ (d.view t).reaped := by
  obtain ⟨ops₁, op₁, ops₂, -, -, he₁, hrest⟩ := (system J cfg).trace_split htrace
  obtain ⟨ops₃, op₂, ops₄, -, hmid, he₂, -⟩ := (system J cfg).trace_split hrest.symm
  have hu := run_unique J cfg ops₁
  rw [he₁] at h₁
  rw [he₂] at h₂
  obtain ⟨-, r, hr, hrun⟩ := perform_issues J cfg hu op₁ h₁
  have hne : r.status ≠ .pending := by rw [hrun]; decide
  obtain ⟨hu', hlater⟩ := run_not_pending J cfg (perform_unique hu op₁) hr hne ops₃
  rcases hlater with hd | ⟨r', hr', hp'⟩
  · rw [hmid]
    exact hd
  · obtain ⟨⟨r'', hr'', hp''⟩, -⟩ := perform_issues J cfg hu' op₂ h₂
    rw [hr'] at hr''
    cases hr''
    exact absurd hp'' hp'

/-- Bounded attempts and exclusive claims over any interleaving of the
operations: what one claim returns, that two claims of a task are separated by
a reap that requeued it, and that the attempts ever issued for a task are
counted by its retry count. -/
theorem bounded_exclusive_claims (J : JsonLib) (cfg : Config) (ops : List Op) :
    (∀ agent slots now uuid claimed,
      (claimPending J cfg agent slots now uuid ((system J cfg).run Db.empty ops)).1 = .ok claimed →
      (claimed.length : ℤ) ≤ max 1 (min slots 64) ∧
      claimed.length = min (claimLimit slots)
        (((system J cfg).run Db.empty ops).tasks.countP (claimable agent.tenantId)) ∧
      ∀ c ∈ claimed, ∃ r ∈ ((system J cfg).run Db.empty ops).tasks, r.id = c.id ∧
        r.tenantId = agent.tenantId ∧ r.status = .pending ∧
        ∀ s ∈ ((system J cfg).run Db.empty ops).tasks, s.tenantId = agent.tenantId → s.status = .pending →
          s.id ∉ claimed.map ClaimedTask.id →
          r.createdAt < s.createdAt ∨ (r.createdAt = s.createdAt ∧ r.id ≤ s.id)) ∧
    (∀ pre c₁ mid c₂ post t x a y b,
      (system J cfg).trace Db.empty ops = pre ++ c₁ :: (mid ++ c₂ :: post) →
      (t, x, a) ∈ c₁.issued → (t, y, b) ∈ c₂.issued →
      ∃ d ∈ mid, ∃ tr ∈ d.transitions, tr.taskId = t ∧ tr.status = .pending) ∧
    (∀ r ∈ ((system J cfg).run Db.empty ops).tasks,
      (issuedFor ((system J cfg).trace Db.empty ops) r.id).length =
        (if r.status = .pending then r.retryCount else r.retryCount + 1) ∧
      (issuedFor ((system J cfg).trace Db.empty ops) r.id).length ≤ cfg.taskMaxRetries + 1) := by
  have hrec := run_recorded J cfg ops
  have hcon := run_consistent J cfg ops
  refine ⟨fun agent slots now uuid claimed hok => ?_, fun pre c₁ mid c₂ post t x a y b htrace h₁ h₂ => ?_,
    fun r hr => ?_⟩
  · have hids := claimPending_claimed hcon.1 hok
    have hlen : claimed.length = (oldestPending agent.tenantId (claimLimit slots)
        ((system J cfg).run Db.empty ops).tasks).length := by
      rw [← List.length_map ClaimedTask.id, hids, List.length_map]
    refine ⟨?_, ?_, fun c hc => ?_⟩
    · rw [hlen, oldestPending, Table.select_take_length]
      have hmin := min_le_left (claimLimit slots)
        (((system J cfg).run Db.empty ops).tasks.countP (claimable agent.tenantId))
      unfold claimLimit at hmin ⊢
      omega
    · rw [hlen, oldestPending, Table.select_take_length]
    · have hcid : c.id ∈ claimed.map ClaimedTask.id := List.mem_map_of_mem hc
      rw [hids] at hcid
      obtain ⟨r, hr, hrid⟩ := List.mem_map.mp hcid
      obtain ⟨hmem, hten, hpend⟩ := mem_oldestPending hr
      refine ⟨r, hmem, hrid, hten, hpend, fun s hs hst hsp hnot => ?_⟩
      have hout : s ∉ oldestPending agent.tenantId (claimLimit slots) ((system J cfg).run Db.empty ops).tasks := by
        intro hin
        apply hnot
        rw [hids]
        exact List.mem_map_of_mem hin
      have hbefore : Task.before r s :=
        Table.select_take_before hr hs (by simp [claimable, hst, hsp]) hout
      exact hbefore
  · have hne₁ : (c₁.view t).attempts ≠ [] := List.ne_nil_of_mem (mem_attempts.mpr h₁)
    have hne₂ : (c₂.view t).attempts ≠ [] := List.ne_nil_of_mem (mem_attempts.mpr h₂)
    obtain ⟨d, hd, hreap⟩ := requeued_between_claims J cfg ops htrace hne₁ hne₂
    exact ⟨d, hd, mem_reaped.mp hreap⟩
  · have hfind := Table.find_of_mem hcon.1 hr
    have hrow := hrec.rows r.id r hfind
    have hret := (hcon.2 r.id r hfind).retries.2
    by_cases hp : r.status = .pending
    · rw [if_pos hp, hrow.pending hp]
      exact ⟨rfl, by omega⟩
    · rw [if_neg hp, (hrow.issued hp).1]
      exact ⟨rfl, by omega⟩

end AgentWorkflow.ControlPlane
